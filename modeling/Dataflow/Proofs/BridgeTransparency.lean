import Dataflow.Proofs.BridgeBench
import Dataflow.Proofs.BridgeCreation

/-!
The bridge is transparent. A new bridge on a bench, over a simulated accelerator whose kernel keeps a record of what it
reads and writes (`Recorded`), is fed, called, stepped and drained in any order (`Trial`).

- `bridge_is_transparent`: no operation fails. The kernel has read the beginning of what the bridge has taken from each
  input, and the bridge has handed on the beginning of what the kernel has written to each output. In `init` the
  difference is what the staging rings hold.
- Witness `bridge_is_transparent_relay`.

Premises: the device carries out its commands in order; capacities are words; the kernel acts through its view, whatever
its state (`KernelProgram.Within`); the operations are on ports that there are (`TrialOp.Within`).
-/

namespace Dataflow

open List

def Recorded.start {κ : Type} (state : κ) (inputs outputs : Nat) : Recorded κ :=
  ⟨state, List.replicate inputs [], List.replicate outputs []⟩

namespace Bridge

open BridgePort

variable {κ : Type} {m : Machine (Recorded κ)} {j o first : Nat} {p : BridgePort}

section

variable (h : p.Fresh first m.buffers)

include h

theorem Fresh.kernelArgs_eq : p.kernelArgs = ⟨first, first + 1, p.spec.capacity, 0, 0⟩ := by
  simp [kernelArgs, h.data, h.index, h.device, Indices.zero]

theorem Fresh.inputIdle (hword : p.spec.capacity < Word.size32)
    (hgot : m.kernel.received[j]? = some []) : InputIdle m j p [] [] := by
  refine ⟨0, 0, h.staged hword, ?_, h.quiet, rfl⟩
  rw [Fresh.kernelArgs_eq h]
  exact ⟨h.geometry, by simp, by simp, by simp, ⟨le_rfl, by simpa using h.geometry.slots⟩, ⟨_,
    h.ring, rfl, Block.keeps_nil _ _ _⟩, by simpa using hgot, _, h.word, rfl⟩

theorem Fresh.outputIdle (hword : p.spec.capacity < Word.size32)
    (hput : m.kernel.accepted[o]? = some []) : OutputIdle m o p [] 0 [] := by
  refine ⟨0, h.staged hword, ?_, h.quiet, rfl⟩
  rw [Fresh.kernelArgs_eq h]
  exact ⟨h.geometry, by simp, by simp, by simp, ⟨le_rfl, by simpa using h.geometry.slots⟩, ⟨_,
    h.ring, rfl⟩, hput, _, h.word, rfl⟩

end

variable [Programmed κ] {b : Bridge (Accelerator (Recorded κ))} {name : String} {mode : DeviceMode} {state : κ}
  {ins outs : List LinkPort} {t : Traffic}

theorem create_eq_ok {device : Accelerator (Recorded κ)} (h : create name device ins outs = .ok b) :
    Created (fun d => d) b device ins outs :=
  create_created Accelerator.reserves trivial h

theorem create_phased (hmode : mode = .immediate ∨ mode = .worker true ∨ mode = .stepped false)
    (hcapacity : ∀ p ∈ ins ++ outs, p.capacity < Word.size32)
    (h : create name (Accelerator.create (Recorded.start state ins.length outs.length) mode) ins outs = .ok b)
    (htaken : ∀ {j spec}, ins[j]? = some spec → t.taken j spec.tokenSize [])
    (hhanded : ∀ {o spec}, outs[o]? = some spec → t.handed o spec.tokenSize []) :
    Phased ins.length outs.length t b := by
  have hb := create_eq_ok h
  obtain ⟨more, hdevice⟩ := hb.reserved
  have hin : ∀ {j} {p : BridgePort}, b.inputs[j]? = some p → ins[j]? = some p.spec := fun hp => by
    rw [← hb.inputs, getElem?_map, hp]; rfl
  have hout : ∀ {o} {p : BridgePort}, b.outputs[o]? = some p → outs[o]? = some p.spec := fun hp => by
    rw [← hb.outputs, getElem?_map, hp]; rfl
  refine .of_round (m := b.device.machine) hb.failed hb.phase hb.kernel (by simp) ⟨fun _ => [], fun _ => [],
    ⟨by rw [← hb.inputs, length_map], fun hp => ?_, fun hp => ?_⟩,
    ⟨by rw [← hb.outputs, length_map], fun hp => ?_, fun hp => ?_⟩, ?_⟩
  · rw [(hb.inFresh hp).data, (hb.inFresh hp).index]
    simp [Accelerator.create]
  · have hspec := hin hp
    refine ⟨[], htaken hspec, Fresh.inputIdle (hb.inFresh hp)
      (hcapacity _ (mem_append_left _ (mem_of_getElem? hspec))) ?_⟩
    rw [hdevice]
    exact getElem?_replicate_of_lt (lt_of_getElem? hspec)
  · rw [(hb.outFresh hp).data, (hb.outFresh hp).index]
    simp [Accelerator.create]
  · have hspec := hout hp
    refine ⟨[], 0, by simpa using hhanded hspec,
      Fresh.outputIdle (hb.outFresh hp) (hcapacity _ (mem_append_right _ (mem_of_getElem? hspec))) ?_⟩
    rw [hdevice]
    exact getElem?_replicate_of_lt (lt_of_getElem? hspec)
  · have hidle : ∀ n, (range n).flatMap (fun _ => []) = ([] : List Promise) := by simp
    rw [hidle, hidle, hdevice]
    exact ⟨Accelerator.owes_new hmode more, .refl _⟩

end Bridge

/-! ## A new trial -/

namespace Trial

variable {κ : Type} [Programmed κ]

theorem holds_start {name : String} {mode : DeviceMode} {state : κ} {ins outs : List LinkPort}
    {b : Bridge (Accelerator (Recorded κ))} {bench : Bench (Bridge (Accelerator (Recorded κ)))}
    (hmode : mode = .immediate ∨ mode = .worker true ∨ mode = .stepped false)
    (hcapacity : ∀ p ∈ ins ++ outs, p.capacity < Word.size32)
    (hb : Bridge.create name (Accelerator.create (Recorded.start state ins.length outs.length) mode) ins outs = .ok b)
    (hbench : bench.New b) : (start bench).Holds ins.length outs.length := by
  have hcreated := Bridge.create_eq_ok hb
  have hinCount : bench.inst.inputs.length = ins.length := by
    rw [hbench.inCount, ← hcreated.inputs]
    simp [Behaviour.interface, Bridge.interface]
  have houtCount : bench.inst.outputs.length = outs.length := by
    rw [hbench.outCount, ← hcreated.outputs]
    simp [Behaviour.interface, Bridge.interface]
  refine ⟨hinCount, houtCount, ?_⟩
  rw [show (start bench).bridge = b from hbench.holds]
  refine Bridge.create_phased hmode hcapacity hb (fun hj => ?_) fun ho => ?_
  · have hlt := lt_of_getElem? hj
    obtain ⟨c, e, f, hreader, hfeeder, hwire, hsize, htracks, hf, he⟩ := hbench.input (hcreated.input_port hj)
    refine ⟨hlt, e, f, 0, c, _, ⟨hreader, hfeeder, hwire, hsize, htracks, he, hf, ?_⟩, by simp⟩
    simp [start, hbench.feeders, hinCount, hlt, Ledger.fresh]
  · have hlt := lt_of_getElem? ho
    obtain ⟨c, e, f, hwriter, hdrain, hwire, hsize, htracks, hf, he⟩ := hbench.output (hcreated.output_port ho)
    rw [hinCount] at hwriter hwire
    refine ⟨f, e, 0, c, _, ⟨hwriter, hdrain, hwire, hsize, htracks, hf, he, ?_⟩, rfl, ?_⟩
    · simp [start, hbench.drains, houtCount, hlt, Ledger.fresh]
    · obtain ⟨more, hdevice⟩ := hcreated.reserved
      refine ⟨[], ?_, nil_prefix⟩
      rw [kernel, show (start bench).bridge = b from hbench.holds, hdevice]
      exact getElem?_replicate_of_lt hlt

end Trial

/-! ## Transparency -/

/-- every trial of a new bridge keeps the invariant that says where all the bytes are -/
theorem bridge_is_transparent {κ : Type} [Programmed κ] {name : String} {mode : DeviceMode} {state : κ}
    (ins outs : List LinkPort) {inDepths outDepths : List Nat} {b : Bridge (Accelerator (Recorded κ))}
    {bench : Bench (Bridge (Accelerator (Recorded κ)))} (ops : List TrialOp)
    (hmode : mode = .immediate ∨ mode = .worker true ∨ mode = .stepped false)
    (hcapacity : ∀ p ∈ ins ++ outs, p.capacity < Word.size32)
    (hin : inDepths.length = ins.length) (hout : outDepths.length = outs.length)
    (hb : Bridge.create name (Accelerator.create (Recorded.start state ins.length outs.length) mode) ins outs = .ok b)
    (hbench : Bench.create b inDepths outDepths = .ok bench)
    (hwithin : ∀ state : κ, (Programmed.program state).Within ins.length outs.length)
    (hops : ∀ op ∈ ops, op.Within ins.length outs.length) :
    ∃ t, (Trial.start bench).run ops = .ok t ∧
      (∀ j < ins.length, t.InputTransparent j) ∧ ∀ o < outs.length, t.OutputTransparent o := by
  have hcreated := Bridge.create_eq_ok hb
  have hinPorts : (Behaviour.interface b).inputs.length = ins.length := by
    rw [← hcreated.inputs]; simp [Behaviour.interface, Bridge.interface]
  have houtPorts : (Behaviour.interface b).outputs.length = outs.length := by
    rw [← hcreated.outputs]; simp [Behaviour.interface, Bridge.interface]
  have hnew := Bench.create_eq_ok hbench (hin.trans hinPorts.symm) (hout.trans houtPorts.symm)
  obtain ⟨t, hrun, ht⟩ := (Trial.holds_start hmode hcapacity hb hnew).run hwithin hops
  exact ⟨t, hrun, fun j hj => ht.inputTransparent hj, fun o ho => ht.outputTransparent ho⟩

/-- a kernel that passes on up to `burst` tokens from each input to the output of the same number in one launch -/
structure Relay where
  burst : Nat

/-- serves the first `n` pairs of ports, from the last to the first -/
def Relay.pass (k : Relay) : Nat → KernelProgram Relay
  | 0 => .done k
  | n + 1 => .read n k.burst fun bytes => .write n bytes fun _ => k.pass n

instance : Programmed Relay := ⟨fun k => .counts fun inputs outputs => k.pass (min inputs outputs)⟩

/-- a relay behind rings of two slots, fed with three tokens over a stepped device -/
theorem bridge_is_transparent_relay :
    ∃ b bench t, Bridge.create "relay" (Accelerator.create (Recorded.start (Relay.mk 4) 1 1) (.stepped false))
        [⟨"in", 2, 2⟩] [⟨"out", 2, 2⟩] = .ok b ∧
      Bench.create b [4] [4] = .ok bench ∧
      (Trial.start bench).run [.feed 0 [1, 2, 3, 4, 5, 6], .call 8, .work 3, .call 8,
        .work 9, .call 8, .drain 0 1] = .ok t ∧
      t.InputTransparent 0 ∧ t.OutputTransparent 0 := by
  obtain ⟨b, hb, bench, hbench⟩ :
      ∃ b, Bridge.create "relay" (Accelerator.create (Recorded.start (Relay.mk 4) 1 1) (.stepped false))
          [⟨"in", 2, 2⟩] [⟨"out", 2, 2⟩] = .ok b ∧
        ∃ bench, Bench.create b [4] [4] = .ok bench := ⟨_, rfl, _, rfl⟩
  obtain ⟨t, hrun, hinput, houtput⟩ := bridge_is_transparent [⟨"in", 2, 2⟩] [⟨"out", 2, 2⟩]
    [.feed 0 [1, 2, 3, 4, 5, 6], .call 8, .work 3, .call 8, .work 9, .call 8, .drain 0 1]
    (.inr (.inr rfl)) (by decide) rfl rfl hb hbench (fun _ => ⟨Nat.one_pos, fun _ => ⟨Nat.one_pos, fun _ => trivial⟩⟩)
    (by simp [TrialOp.Within])
  exact ⟨b, bench, t, hb, hbench, hrun, hinput 0 Nat.one_pos, houtput 0 Nat.one_pos⟩

end Dataflow
