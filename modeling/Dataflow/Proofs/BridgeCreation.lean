import Dataflow.Network.Bench
import Dataflow.Proofs.OpenPorts
import Dataflow.Proofs.PortCycle

/-!
New bridges, with empty rings and a pair of buffers for each port (`Bridge.create_created`), and new benches
(`Bench.create_eq_ok`).
-/

namespace Dataflow

open List

variable {δ κ : Type}

/-! ## Reserving rings -/

/-- as long as `still` holds, the device reserves each buffer behind those that are there, and does nothing besides -/
structure Device.Reserves [Device δ] (core : δ → Accelerator κ) (still : δ → Prop) : Prop where
  allocate : ∀ {d d' bytes id}, still d →
    (Device.allocate bytes : Step DeviceError δ BufferId).exec d = (.ok id, d') →
    bytes ≤ Word.signedMax64 ∧ id = (core d).machine.buffers.size ∧
      core d' = (core d).reserve #[Block.zeroed bytes] ∧ still d'

theorem Accelerator.reserves [Kernel κ] : Device.Reserves (fun d : Accelerator κ => d) fun _ => True where
  allocate _ h := by
    obtain ⟨hfits, hid, hd⟩ := Accelerator.allocate_eq_ok h
    exact ⟨hfits, hid, hd, trivial⟩

/-- without queued commands there is nothing to carry out meanwhile -/
theorem Device.Paces.reserves [Device δ] [Kernel κ] {core : δ → Accelerator κ} (hcore : Device.Paces core) :
    Device.Reserves core fun d => (core d).queue = [] where
  allocate {d d' bytes id} hqueue h := by
    obtain ⟨n, hallocate⟩ := hcore.allocate d bytes
    have hstill : ((core d).stepQueue n).2 = core d := by
      cases n with
      | zero => rfl
      | succ n => simp only [Accelerator.stepQueue, hqueue]
    rw [h, hstill] at hallocate
    obtain ⟨hfits, hid, hd⟩ := Accelerator.allocate_eq_ok hallocate.symm
    exact ⟨hfits, hid, hd, by rw [hd]; exact hqueue⟩

/-- a new device that has only reserved memory owes nothing -/
theorem Accelerator.owes_new [Kernel κ] {state : κ} {mode : DeviceMode}
    (hmode : mode = .immediate ∨ mode = .worker true ∨ mode = .stepped false) (more : Array Block) :
    ((Accelerator.create state mode).reserve more).Owes ((Accelerator.create state mode).reserve more).machine [] := by
  refine ⟨[], hmode, fun _ => rfl, .nil _, ?_, ?_, ?_, ?_⟩ <;> simp

section Reserving

variable [Device δ] {core : δ → Accelerator κ} {still : δ → Prop} {d d' : δ}

namespace BridgePort

variable {p : BridgePort} {first : Nat} {buffers : Array Block}

/-- a port whose ring has just been reserved, in the buffers `first` and `first + 1` -/
structure Fresh (p : BridgePort) (first : Nat) (buffers : Array Block) : Prop extends p.New where
  data : p.data = first
  index : p.index = first + 1
  ring : buffers[first]? = some (Block.zeroed (p.spec.capacity * p.spec.tokenSize))
  word : buffers[first + 1]? = some (Block.zeroed 4)

theorem allocate_eq_ok {spec : LinkPort} (hcore : Device.Reserves core still) (hd : still d)
    (h : (allocate spec : Step DeviceError δ BridgePort).exec d = (.ok p, d')) :
    p.spec = spec ∧ (∃ ring word, core d' = (core d).reserve #[ring, word]) ∧ still d' ∧
      p.Fresh (core d).machine.buffers.size (core d').machine.buffers := by
  obtain ⟨rfl, hnew, d1, hdata, hindex⟩ := exec_allocate h
  obtain ⟨-, hid, hd1, hstill⟩ := hcore.allocate hd hdata
  obtain ⟨-, hid', hd2, hstill⟩ := hcore.allocate hstill hindex
  rw [hd1, Accelerator.reserve_reserve] at hd2
  refine ⟨rfl, ⟨_, _, hd2⟩, hstill, hnew, hid, by rw [hid', hd1]; simp, ?_, ?_⟩
  · rw [hd2]
    simp
  · rw [hd2]
    simp [indexBytes]

theorem Fresh.append (h : p.Fresh first buffers) (more : Array Block) : p.Fresh first (buffers ++ more) :=
  { h with
    ring := by rw [Array.getElem?_append_left (Array.getElem?_eq_some_iff.1 h.ring).1, h.ring]
    word := by rw [Array.getElem?_append_left (Array.getElem?_eq_some_iff.1 h.word).1, h.word] }

/-- rings reserved one after the other have pairs of buffers in the same order -/
theorem allocateAll_eq_ok {specs : List LinkPort} {ports : List BridgePort} (hcore : Device.Reserves core still)
    (hd : still d) (h : (specs.mapM allocate : Step DeviceError δ (List BridgePort)).exec d = (.ok ports, d')) :
    ports.map (·.spec) = specs ∧ (∃ more : Array Block, more.size = 2 * specs.length ∧
      core d' = (core d).reserve more) ∧
      still d' ∧ ∀ {k} {p : BridgePort}, ports[k]? = some p →
        p.Fresh ((core d).machine.buffers.size + 2 * k) (core d').machine.buffers := by
  induction specs generalizing d ports with
  | nil =>
    cases h
    exact ⟨rfl, ⟨#[], rfl, by simp [Accelerator.reserve]⟩, hd, fun hp => by simp at hp⟩
  | cons spec specs ih =>
    rw [mapM_cons] at h
    obtain ⟨p, d1, hp, h⟩ := Step.exec_bind_ok h
    obtain ⟨rest, d2, hrest, h⟩ := Step.exec_bind_ok h
    cases h
    obtain ⟨hspec, ⟨ring, word, hd1⟩, hstill, hfresh⟩ := allocate_eq_ok hcore hd hp
    obtain ⟨hspecs, ⟨more, hmore, hd2⟩, hstill, hall⟩ := ih hstill hrest
    refine ⟨by simp [hspec, hspecs],
      ⟨#[ring, word] ++ more, by simp; omega, by rw [hd2, hd1, Accelerator.reserve_reserve]⟩,
      hstill, fun {k q} hq => ?_⟩
    cases k with
    | zero =>
      cases hq
      rw [hd2, Accelerator.reserve_buffers]
      exact hfresh.append more
    | succ k =>
      have hq := hall hq
      rw [hd1, Accelerator.reserve_buffers, Array.size_append] at hq
      rw [show (core d).machine.buffers.size + 2 * (k + 1) = (core d).machine.buffers.size + 2 + 2 * k by omega]
      exact hq

theorem Fresh.staged (h : p.Fresh first buffers) (hword : p.spec.capacity < Word.size32) : p.Staged [] 0 0 := by
  have hslots := h.slots
  refine ⟨h.geometry, hword, by rw [h.staging]; rfl, by simp, by omega, ?_, ?_, ?_, Block.keeps_nil _ _ _⟩
  · rw [h.host, Nat.zero_mod]; rfl
  · rw [h.host, Nat.zero_mod]; rfl
  · rw [h.device, Nat.zero_mod]; rfl

end BridgePort

end Reserving

namespace Bridge

open BridgePort

variable {core : δ → Accelerator κ} {still : δ → Prop} {b : Bridge δ} {device : δ} {name : String}
  {ins outs : List LinkPort} {j o : Nat}

/-- a bridge that has just been created, with its rings behind the buffers that the device had before -/
structure Created (core : δ → Accelerator κ) (b : Bridge δ) (device : δ) (ins outs : List LinkPort) : Prop where
  phase : b.phase = .init
  stalled : b.stalled = false
  failed : b.failed = false
  kernel : b.kernel = none
  inputs : b.inputs.map (·.spec) = ins
  outputs : b.outputs.map (·.spec) = outs
  reserved : ∃ more, core b.device = (core device).reserve more
  inFresh : ∀ {j} {p : BridgePort}, b.inputs[j]? = some p →
    p.Fresh ((core device).machine.buffers.size + 2 * j) (core b.device).machine.buffers
  outFresh : ∀ {o} {p : BridgePort}, b.outputs[o]? = some p →
    p.Fresh ((core device).machine.buffers.size + 2 * (ins.length + o)) (core b.device).machine.buffers

theorem create_created [Device δ] (hcore : Device.Reserves core still) (hdevice : still device)
    (h : create name device ins outs = .ok b) : Created core b device ins outs := by
  obtain ⟨d1, hin, hout, hb⟩ := exec_create h
  obtain ⟨hinSpecs, ⟨more1, hmore1, hd1⟩, hstill, hinFresh⟩ := allocateAll_eq_ok hcore hdevice hin
  obtain ⟨houtSpecs, ⟨more2, hmore2, hd2⟩, -, houtFresh⟩ := allocateAll_eq_ok hcore hstill hout
  refine ⟨congrArg phase hb, congrArg stalled hb, congrArg failed hb, congrArg kernel hb, hinSpecs, houtSpecs,
    ⟨_, by rw [hd2, hd1]; exact Accelerator.reserve_reserve _ _ _⟩, fun hp => ?_, fun hp => ?_⟩
  · rw [hd2, Accelerator.reserve_buffers]
    exact (hinFresh hp).append more2
  · have hfresh := houtFresh hp
    rw [hd1, Accelerator.reserve_buffers, Array.size_append, hmore1] at hfresh
    rw [Nat.mul_add, ← Nat.add_assoc]
    exact hfresh

variable [Device δ] {spec : LinkPort}

/-- the ports of a created bridge are those it was created with -/
theorem Created.input_port (h : Created core b device ins outs) (hj : ins[j]? = some spec) :
    (Behaviour.interface b).inputs[j]? = some ⟨spec.name, spec.tokenSize⟩ := by
  rw [← h.inputs] at hj
  simpa [Behaviour.interface, interface, Function.comp_def] using
    congrArg (Option.map fun spec => PortSpec.mk spec.name spec.tokenSize) hj

theorem Created.output_port (h : Created core b device ins outs) (ho : outs[o]? = some spec) :
    (Behaviour.interface b).outputs[o]? = some ⟨spec.name, spec.tokenSize⟩ := by
  rw [← h.outputs] at ho
  simpa [Behaviour.interface, interface, Function.comp_def] using
    congrArg (Option.map fun spec => PortSpec.mk spec.name spec.tokenSize) ho

end Bridge

variable {σ : Type}

/-! ## A new bench -/

theorem Bench.link_eq_ok {tokenSize depth : Nat} {c : Connection} {output : OutputEnd} {input : InputEnd}
    (h : Bench.link tokenSize depth = .ok (c, output, input)) :
    c.tokenSize = tokenSize ∧ c.Tracks (Ledger.fresh 1) ∧ output.Rests c.capacity (Ledger.fresh 1) ∧
      input.Rests 0 c.capacity (Ledger.fresh 1) := by
  obtain ⟨c0, hcreate, h⟩ := bind_eq_ok h
  obtain ⟨⟨output', c1⟩, hout, h⟩ := bind_eq_ok h
  obtain ⟨⟨input', c2⟩, hin, h⟩ := bind_eq_ok h
  cases h
  obtain ⟨hsize, -, -, -, htracks⟩ := Connection.create_eq_ok hcreate
  obtain ⟨rfl, rfl⟩ := Connection.takeOutput_eq_ok (mapError_eq_ok hout)
  obtain ⟨rfl, rfl⟩ := Connection.takeInput_eq_ok (mapError_eq_ok hin)
  exact ⟨hsize, { htracks with }, ⟨Cursor.at_start _, rfl, rfl⟩, rfl, rfl, Cursor.at_start _⟩

/-- a bench on which nothing has happened yet: every port has an empty connection of its own -/
structure Bench.New [Behaviour σ] (b : Bench σ) (actor : σ) : Prop where
  holds : b.inst.actor = actor
  inCount : b.inst.inputs.length = (Behaviour.interface actor).inputs.length
  outCount : b.inst.outputs.length = (Behaviour.interface actor).outputs.length
  feeders : b.feeders.length = b.inst.inputs.length
  drains : b.drains.length = b.inst.outputs.length
  input : ∀ {j : Nat} {port}, (Behaviour.interface actor).inputs[j]? = some port → ∃ c e f,
    b.inst.inputs[j]? = some ⟨j, e⟩ ∧ b.feeders[j]? = some f ∧ b.wires[j]? = some c ∧ c.tokenSize = port.tokenSize ∧
    c.Tracks (Ledger.fresh 1) ∧ f.Rests c.capacity (Ledger.fresh 1) ∧ e.Rests 0 c.capacity (Ledger.fresh 1)
  output : ∀ {o port}, (Behaviour.interface actor).outputs[o]? = some port → ∃ c e f,
    b.inst.outputs[o]? = some ⟨b.inst.inputs.length + o, f⟩ ∧ b.drains[o]? = some e ∧
    b.wires[b.inst.inputs.length + o]? = some c ∧ c.tokenSize = port.tokenSize ∧
    c.Tracks (Ledger.fresh 1) ∧ f.Rests c.capacity (Ledger.fresh 1) ∧ e.Rests 0 c.capacity (Ledger.fresh 1)

theorem Bench.create_eq_ok [Behaviour σ] {actor : σ} {bench : Bench σ} {inDepths outDepths : List Nat}
    (h : Bench.create actor inDepths outDepths = .ok bench)
    (hin : inDepths.length = (Behaviour.interface actor).inputs.length)
    (hout : outDepths.length = (Behaviour.interface actor).outputs.length) : bench.New actor := by
  obtain ⟨ins, hins, h⟩ := bind_eq_ok h
  obtain ⟨outs, houts, h⟩ := bind_eq_ok h
  cases h
  obtain ⟨hinLen, hinGet⟩ := mapM_spec hins
  obtain ⟨houtLen, houtGet⟩ := mapM_spec houts
  rw [length_zip, hin, min_self] at hinLen
  rw [length_zip, hout, min_self] at houtLen
  refine ⟨rfl,
    by simpa using hinLen, by simpa using houtLen, by simp, by simp, fun {j port} hp => ?_, fun {o port} hp => ?_⟩
  · have hj : j < inDepths.length := hin ▸ lt_of_getElem? hp
    obtain ⟨⟨c, f, e⟩, hget, hlink⟩ := hinGet (x := (port, inDepths[j]))
      (getElem?_zip_eq_some.2 ⟨hp, getElem?_eq_getElem hj⟩)
    obtain ⟨hsize, htracks, hf, he⟩ := Bench.link_eq_ok hlink
    refine ⟨c, e, f, ?_, ?_, ?_, hsize, htracks, hf, he⟩
    · simp [getElem?_zipIdx, hget]
    · simp [hget]
    · rw [getElem?_map, getElem?_append_left (lt_of_getElem? hget), hget]
      rfl
  · have ho : o < outDepths.length := hout ▸ lt_of_getElem? hp
    obtain ⟨⟨c, f, e⟩, hget, hlink⟩ := houtGet (x := (port, outDepths[o]))
      (getElem?_zip_eq_some.2 ⟨hp, getElem?_eq_getElem ho⟩)
    obtain ⟨hsize, htracks, hf, he⟩ := Bench.link_eq_ok hlink
    refine ⟨c, e, f, ?_, ?_, ?_, hsize, htracks, hf, he⟩
    · simp [getElem?_zipIdx, hget]
    · simp [hget]
    · simp [getElem?_append_right, hget]

end Dataflow
