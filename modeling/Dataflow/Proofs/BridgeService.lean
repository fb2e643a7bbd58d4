import Dataflow.Proofs.BridgeSafety

/-!
The whole life of a bridge: creation, calls, and what its device does within the contract (`Bridge.InService`).

- `bridge_never_faults`: every call of a bridge in service ends with an exit. No transfer slot is issued again while in
  flight, no index is asked for twice, nothing is staged or handed on beyond the room there is, no slice leaves its
  storage and no index computation leaves its words.
- `Accelerator.contract`: simulated accelerators keep the contract, unless they carry out commands within the call.
- Witness `bridge_never_faults_lost_command`.

Premises: the device keeps `Device.Contract`, and the ports of the call are those of the bridge (`Bridge.Fits`).
-/

namespace Dataflow

open List Step

namespace Bridge

open BridgePort

variable {δ : Type} [Device δ] {C : Device.Contract δ} {b : Bridge δ}

/-! ## Creation -/

theorem create_sound {name : String} {d : δ} {inputs outputs : List LinkPort} (howes : C.owes [] d)
    (h : create name d inputs outputs = .ok b) (hrings : ∀ p ∈ b.outputs, C.rings p.data) : b.Sound C := by
  obtain ⟨-, -, -, -, howes⟩ := new_of_create C.allocate howes h
  have hfresh := Fresh.of_create h
  exact .inr ⟨[], hfresh.regular, howes, hrings, fun hread => by cases hfresh.phase.symm.trans hread⟩

/-! ## Service -/

/-- a bridge that was created over a device with a contract, and used in any way since -/
inductive InService (C : Device.Contract δ) : Bridge δ → Prop
  | created {name : String} {d : δ} {inputs outputs : List LinkPort} {b : Bridge δ} (howes : C.owes [] d)
      (hwords : ∀ spec ∈ inputs ++ outputs, spec.capacity < Word.size32)
      (hcreate : create name d inputs outputs = .ok b)
      (hrings : ∀ p ∈ b.inputs ++ b.outputs, C.rings p.data) : InService C b
  | called {b : Bridge δ} (h : InService C b) (maxLoops : Nat) {open' : Ports} (hfits : b.Fits open') :
      InService C (b.act maxLoops open').actor
  | moved {b : Bridge δ} (h : InService C b) {d : δ} (hd : ∀ reads, C.owes reads b.device → C.owes reads d) :
      InService C { b with device := d }

theorem InService.sound (h : InService C b) : b.Sound C := by
  induction h with
  | created howes hwords hcreate hrings => exact create_sound howes hcreate fun p hp => hrings p (mem_append_right _ hp)
  | called _ maxLoops hfits ih =>
    obtain ⟨-, -, hsound⟩ := act_safe ih hfits maxLoops
    exact hsound
  | moved _ hd ih =>
    refine ih.imp_right ?_
    rintro ⟨reads, h⟩
    exact ⟨reads, h.regular.onDevice _, hd reads h.owes, h.rings, h.awaits⟩

end Bridge

/-! ## Simulated accelerators -/

namespace Accelerator

variable {κ : Type} {d : Accelerator κ} {e event : EventId} {n : Nat} {status : EventStatus} {v : Option Bytes}

/-- what comes back of this read, if anything, has the length asked for -/
structure Brings (d : Accelerator κ) (e : EventId) (n : Nat) : Prop where
  issued : e < d.events.cells.size
  value : ∀ {cell bytes}, d.events.cells[e]? = some cell → cell.value = some bytes → bytes.length = n
  queued : ∀ {c}, (e, c) ∈ d.queue → ∃ buffer offset, c = .read buffer offset n

/-- a command is resolved; if it is this read, its answer has the right length -/
theorem Brings.resolve (h : d.Brings e n)
    (hv : event = e → ∀ bytes, v = some bytes → bytes.length = n) (machine : Machine κ) :
    ({ d with machine, events := d.events.resolve event status v } : Accelerator κ).Brings e n := by
  refine ⟨by simpa [EventBoard.resolve] using h.issued, fun {cell bytes} hcell hbytes => ?_, h.queued⟩
  simp only [EventBoard.resolve, Array.getElem?_modify] at hcell
  split_ifs at hcell with he
  · obtain ⟨old, hold, rfl⟩ := Option.map_eq_some_iff.1 hcell
    split_ifs at hbytes
    · exact hv he bytes hbytes
    · exact h.value hold hbytes
  · exact h.value hcell hbytes

theorem Brings.issue (h : d.Brings e n) : ({ d with events := d.events.issue.2 } : Accelerator κ).Brings e n := by
  refine ⟨by simpa [EventBoard.issue] using Nat.lt_succ_of_lt h.issued, fun hcell hbytes => ?_, h.queued⟩
  rw [EventBoard.issue, Array.getElem?_push, if_neg h.issued.ne] at hcell
  exact h.value hcell hbytes

/-- a device that does not work within a call, with all these reads promised -/
structure Honest (reads : List (EventId × Nat)) (d : Accelerator κ) : Prop where
  mode : d.mode ≠ .immediate
  numbered : ∀ {e c}, (e, c) ∈ d.queue → e < d.events.cells.size
  brings : ∀ {e n}, (e, n) ∈ reads → d.Brings e n

/-- an event that nothing is promised of, and that no queued command has -/
structure Unused (reads : List (EventId × Nat)) (d : Accelerator κ) (e : EventId) : Prop where
  brings : ∀ n, d.Brings e n
  fresh : ∀ {n}, (e, n) ∉ reads

variable {reads : List (EventId × Nat)} {bytes : Bytes}

theorem Honest.issue (h : d.Honest reads) :
    ({ d with events := d.events.issue.2 } : Accelerator κ).Honest reads ∧
      ({ d with events := d.events.issue.2 } : Accelerator κ).Unused reads d.events.cells.size := by
  refine ⟨⟨h.mode, fun hmem => ?_, fun hmem => (h.brings hmem).issue⟩, fun n => ?_,
    fun hmem => lt_irrefl _ (h.brings hmem).issued⟩
  · simpa [EventBoard.issue] using Nat.lt_succ_of_lt (h.numbered hmem)
  · refine ⟨by simp [EventBoard.issue], fun hcell hbytes => ?_, fun hc => absurd (h.numbered hc) (lt_irrefl _)⟩
    rw [EventBoard.cells_issue] at hcell
    cases hcell
    cases hbytes

theorem Honest.enqueue (h : d.Honest reads) (hnew : d.Unused reads e) (c : Command) :
    ({ d with queue := d.queue ++ [(e, c)] } : Accelerator κ).Honest reads ∧ ∀ {buffer offset n},
    c = .read buffer offset n →
      ({ d with queue := d.queue ++ [(e, c)] } : Accelerator κ).Brings e n := by
  refine ⟨⟨h.mode, fun hmem => ?_, fun hmem => ⟨(h.brings hmem).issued, (h.brings hmem).value, fun hq => ?_⟩⟩,
    fun {buffer offset n} hc => ⟨(hnew.brings n).issued, (hnew.brings n).value, fun hq => ?_⟩⟩
  · rcases mem_append.1 hmem with hmem | hmem
    · exact h.numbered hmem
    · cases mem_singleton.1 hmem
      exact (hnew.brings 0).issued
  · rcases mem_append.1 hq with hq | hq
    · exact (h.brings hmem).queued hq
    · cases mem_singleton.1 hq
      exact absurd hmem hnew.fresh
  · rcases mem_append.1 hq with hq | hq
    · exact (hnew.brings n).queued hq
    · cases mem_singleton.1 hq
      exact ⟨buffer, offset, hc⟩

/-- what has been taken does not come again -/
theorem Honest.take (h : d.Honest reads) (event : EventId) :
    ({ d with events := (d.events.take event).2 } : Accelerator κ).Honest reads := by
  unfold EventBoard.take
  split
  · refine ⟨h.mode, fun hmem => by simpa using h.numbered hmem, fun hmem => ⟨?_, fun hcell hbytes => ?_,
      (h.brings hmem).queued⟩⟩
    · simpa using (h.brings hmem).issued
    · rw [Array.getElem?_modify] at hcell
      split_ifs at hcell
      · obtain ⟨old, -, rfl⟩ := Option.map_eq_some_iff.1 hcell
        cases hbytes
      · exact (h.brings hmem).value hcell hbytes
  · exact h

theorem Brings.of_take (h : d.Brings e n) (hbytes : (d.events.take e).1 = some bytes) : bytes.length = n := by
  unfold EventBoard.take at hbytes
  split at hbytes
  · next hcell => exact h.value hcell hbytes
  · cases hbytes

/-- the next command leaves the queue, and its event is resolved in any way that suits the command -/
theorem Honest.settle (h : d.Honest reads) {c : Command} {queue : List (EventId × Command)}
    (hqueue : d.queue = (e, c) :: queue)
    (hv : ∀ {buffer offset n bytes}, c = .read buffer offset n → v = some bytes → bytes.length = n) :
    ({ d with queue, events := d.events.resolve e status v } : Accelerator κ).Honest reads := by
  have hsub : queue ⊆ d.queue := by rw [hqueue]; exact subset_cons_self _ _
  refine ⟨h.mode, fun hmem => by simpa [EventBoard.resolve] using h.numbered (hsub hmem), fun {e' n} hmem => ?_⟩
  have hb := h.brings hmem
  have hb' : ({ d with queue } : Accelerator κ).Brings e' n := ⟨hb.issued, hb.value, fun hc => hb.queued (hsub hc)⟩
  refine hb'.resolve (fun he bytes hbytes => ?_) d.machine
  obtain ⟨buffer, offset, hc⟩ := hb.queued (by rw [hqueue, he]; exact mem_cons_self)
  exact hv hc hbytes

theorem Honest.failNext (h : d.Honest reads) : d.failNext.2.Honest reads := by
  unfold Accelerator.failNext
  split
  · exact h
  · next hqueue => exact h.settle hqueue fun _ hnone => by cases hnone

/-- a worker that is lost leaves everything as it is -/
theorem Honest.lost (h : d.Honest reads) : ({ d with mode := .worker false } : Accelerator κ).Honest reads :=
  ⟨by simp, h.numbered, fun hmem => ⟨(h.brings hmem).issued, (h.brings hmem).value, (h.brings hmem).queued⟩⟩

variable [Kernel κ]

theorem length_of_performs_read {m m' : Machine κ} {buffer offset : Nat}
    (h : (Machine.perform (.read buffer offset n)).exec m = (.ok (some bytes), m')) : bytes.length = n := by
  have h := exec_get_bind_ok h
  obtain ⟨b, -, h⟩ := exec_except_bind_ok h
  cases h
  exact Block.slice_length _ _ _

theorem Brings.execute (h : d.Brings e n) (event : EventId) (c : Command)
    (hc : event = e → ∃ buffer offset, c = .read buffer offset n) :
    (d.execute event c).2.Brings e n := by
  unfold Accelerator.execute
  split
  · next bytes machine hperform =>
    refine h.resolve (fun he bytes' hbytes => ?_) machine
    cases hbytes
    obtain ⟨buffer, offset, rfl⟩ := hc he
    exact length_of_performs_read hperform
  all_goals exact h.resolve (fun _ _ hnone => by cases hnone) _

theorem execute_mode (d : Accelerator κ) (event : EventId) (c : Command) :
    (d.execute event c).2.mode = d.mode ∧ (d.execute event c).2.queue = d.queue := by
  unfold execute
  split <;> exact ⟨rfl, rfl⟩

theorem execute_size (d : Accelerator κ) (event : EventId) (c : Command) :
    (d.execute event c).2.events.cells.size = d.events.cells.size := by
  unfold execute
  split <;> simp [EventBoard.fulfil, EventBoard.complete, EventBoard.fail, EventBoard.resolve]

/-- carrying out a command, one of the promised reads at most -/
theorem Honest.execute (h : d.Honest reads) (event : EventId) (c : Command)
    (hc : ∀ n, (event, n) ∈ reads → ∃ buffer offset, c = .read buffer offset n) :
    (d.execute event c).2.Honest reads := by
  obtain ⟨hmode, hqueue⟩ := execute_mode d event c
  refine ⟨by rw [hmode]; exact h.mode, fun hmem => ?_, fun {e n} hmem => (h.brings hmem).execute event c
    fun he => hc n (he ▸ hmem)⟩
  rw [hqueue] at hmem
  rw [execute_size]
  exact h.numbered hmem

/-- a submitted command; a read is promised from then on -/
theorem Honest.submit (h : d.Honest reads) (c : Command) :
    Safe (Device.submit c) d fun event d' =>
      d'.Honest reads ∧ ∀ {buffer offset n}, c = .read buffer offset n → d'.Brings event n := by
  obtain ⟨hissued, hnew⟩ := h.issue
  obtain ⟨machine, mode, events, queue⟩ := d
  refine ends_bind (ends_get ?_)
  match mode with
  | .immediate => exact absurd rfl h.mode
  | .worker true =>
    have hdone := hissued.execute events.cells.size c fun n hmem => absurd hmem hnew.fresh
    have hread := fun n => (hnew.brings n).execute events.cells.size c
    dsimp only [EventBoard.issue] at hdone hread ⊢
    split
    · next d' hexecute =>
      rw [hexecute] at hdone hread
      exact ends_bind (ends_set (ends_pure ⟨hdone, fun hc => hread _ fun _ => ⟨_, _, hc⟩⟩))
    · next d' hexecute =>
      rw [hexecute] at hdone hread
      refine ends_bind (ends_set (ends_pure ⟨hdone.lost, fun {buffer offset n} hc => ?_⟩))
      have hbrings := hread n fun _ => ⟨buffer, offset, hc⟩
      exact ⟨hbrings.issued, hbrings.value, hbrings.queued⟩
  | .stepped false => exact ends_bind (ends_set (ends_pure (hissued.enqueue hnew c)))
  | .worker false | .stepped true => exact ends_fail ⟨_, rfl⟩

/-- the contract that holds for accelerators that do not work within a call, whatever their kernel does -/
def contract : Device.Contract (Accelerator κ) where
  rings _ := True
  owes := Honest
  allocate h hallocate := by
    obtain ⟨-, -, rfl⟩ := allocate_eq_ok hallocate
    exact ⟨h.mode, h.numbered, fun hmem => ⟨(h.brings hmem).issued, (h.brings hmem).value, (h.brings hmem).queued⟩⟩
  submit command h := (h.submit command).mono fun _ _ h' => h'.1
  read offset n h _ := by
    refine (h.submit (.read _ offset n)).mono fun event d' ⟨h', hread⟩ => ⟨h'.mode, h'.numbered, fun {e m} hmem => ?_⟩
    rcases mem_cons.1 hmem with heq | hmem
    · cases heq
      exact hread rfl
    · exact h'.brings hmem
  poll _ h := h
  take event h := h.take event
  brings h hmem hbytes := (h.brings hmem).of_take hbytes

end Accelerator

/-- Whatever its device does within the contract, a bridge in service ends every call with an exit. -/
theorem bridge_never_faults {δ : Type} [Device δ] (C : Device.Contract δ) {b : Bridge δ} (h : b.InService C)
    (maxLoops : Nat) {ports : Ports} (hfits : b.Fits ports) : ∃ exit, (b.act maxLoops ports).exit = .ok exit := by
  obtain ⟨exit, hexit, -⟩ := Bridge.act_safe h.sound hfits maxLoops
  exact ⟨exit, hexit⟩

/-- one token to take from a ring of two, and room for two in another -/
def Ports.oneToken : Ports :=
  { wires := [⟨1, 2, Block.zeroed 2, 1, [0], true, [true]⟩, ⟨1, 2, Block.zeroed 2, 0, [0], true, [true]⟩]
    inputs := [⟨0, Cursor.start 2, 1, 1⟩]
    outputs := [⟨1, Cursor.start 2, 2, 2⟩] }

theorem Ports.oneToken_ready : Ports.oneToken.Ready [1] [1] := by
  have hring : Addressable 2 1 := ⟨by decide, by decide, by decide⟩
  have hone : ∀ {i size}, [1][i]? = some size → i = 0 ∧ size = 1 := by
    intro i size hi
    cases i with
    | zero => exact ⟨rfl, by simpa using hi.symm⟩
    | succ i => simp at hi
  refine ⟨fun i size hi => ?_, fun o size ho => ?_⟩
  · obtain ⟨rfl, rfl⟩ := hone hi
    exact ⟨_, _, rfl, rfl, rfl, hring, by decide, by decide, ⟨0, Cursor.at_start 2⟩, by decide⟩
  · obtain ⟨rfl, rfl⟩ := hone ho
    exact ⟨_, _, rfl, rfl, rfl, hring, by decide, by decide, ⟨0, Cursor.at_start 2⟩, by decide⟩

/-- A bridge has sent a token and launched the kernel; the device loses the first of the four commands, and the bridge
is called again. -/
theorem bridge_never_faults_lost_command :
    ∃ b sent : Bridge (Accelerator StockKernel),
      Bridge.create "link" (Accelerator.create (StockKernel.echo 1) (.stepped false))
      [⟨"in", 1, 2⟩] [⟨"out", 1, 2⟩] = .ok b ∧
      sent = (b.act 4 Ports.oneToken).actor ∧ sent.phase = .pollKernel ∧ sent.device.queue.length = 4 ∧
      Bridge.InService Accelerator.contract { sent with device := sent.device.failNext.2 } ∧
      Bridge.Fits { sent with device := sent.device.failNext.2 } Ports.oneToken ∧
      ∃ exit, (Bridge.act 4 { sent with device := sent.device.failNext.2 } Ports.oneToken).exit = .ok exit := by
  obtain ⟨b, hb⟩ : ∃ b, Bridge.create "link" (Accelerator.create (StockKernel.echo 1) (.stepped false)) [⟨"in", 1, 2⟩]
      [⟨"out", 1, 2⟩] = .ok b := ⟨_, rfl⟩
  have hsizes := eq_of_map_toOption hb (fun b => (b.inputs.map (·.spec.tokenSize), b.outputs.map (·.spec.tokenSize)))
    (show _ = some ([1], [1]) by decide +kernel)
  have hsent := eq_of_map_toOption hb (fun b =>
      let sent := (b.act 4 Ports.oneToken).actor
      (sent.inputs.map (·.spec.tokenSize), sent.outputs.map (·.spec.tokenSize), sent.phase, sent.device.queue.length))
    (show _ = some ([1], [1], .pollKernel, 4) by decide +kernel)
  simp only [Prod.mk.injEq] at hsizes hsent
  obtain ⟨hin, hout⟩ := hsizes
  obtain ⟨hin', hout', hphase, hqueue⟩ := hsent
  have hservice : Bridge.InService Accelerator.contract b := by
    refine .created ⟨by decide, fun hmem => ?_, fun hmem => ?_⟩ (by decide) hb fun _ _ => trivial
    · cases hmem
    · cases hmem
  have hlost := (hservice.called 4 (show b.Fits Ports.oneToken by
    rw [Bridge.Fits, hin, hout]
    exact Ports.oneToken_ready)).moved fun reads howes => Accelerator.Honest.failNext howes
  have hfits : Bridge.Fits { (b.act 4 Ports.oneToken).actor with device :=
    (b.act 4 Ports.oneToken).actor.device.failNext.2 } Ports.oneToken := by
    rw [Bridge.Fits, hin', hout']
    exact Ports.oneToken_ready
  exact ⟨b, _, hb, rfl, hphase, hqueue, hlost, hfits, bridge_never_faults Accelerator.contract hlost 4 hfits⟩

end Dataflow
