import Dataflow.Device.Accelerator
import Dataflow.Proofs.DeviceJournal

/-!
Devices whose events change only when a command is submitted, or while no operation is under way (`Device.Events`).

While a bridge only looks, nothing changes (`Events.watch`); a finished read keeps what it brought until that is taken
(`Events.trail`).
-/

namespace Dataflow

open Step

/-- the events of a device that change only on submission, or between the operations on the device -/
structure Device.Events (δ : Type) [Device δ] where
  status : δ → EventId → EventStatus
  /-- what a finished read brought, until it is taken -/
  value : δ → EventId → Option Bytes
  poll : ∀ e d, ((Device.poll e).run d).1 = status d e
  poll_keeps : ∀ e d, status ((Device.poll e).run d).2 = status d ∧ value ((Device.poll e).run d).2 = value d
  take : ∀ e d, ((Device.take e).run d).1 = if status d e = .done then value d e else none
  take_keeps : ∀ e d, status ((Device.take e).run d).2 = status d ∧
    ∀ e' bytes, value ((Device.take e).run d).2 e' = some bytes → value d e' = some bytes
  /-- what is done stays done; a transfer that is not taken is refused with an ordinary error -/
  submit : ∀ command d, Ends (Device.submit command) d
    (fun _ d' => ∀ e, status d e = .done → status d' e = .done ∧ ∀ bytes, value d' e = some bytes →
      value d e = some bytes) fun stop _ => command.isLaunch = false → ∃ e, stop = .error e

namespace Device.Events

variable {δ : Type} [Device δ] {E : Device.Events δ} {J : Device.Journal δ} {d d' d'' : δ} {e : EventId}

/-- if the command is done, it stays done, and no value comes that it did not have -/
def Fades (E : Device.Events δ) (e : EventId) (d d' : δ) : Prop :=
  E.status d e = .done → E.status d' e = .done ∧ ∀ bytes, E.value d' e = some bytes → E.value d e = some bytes

theorem Fades.trans (h : E.Fades e d d') (h' : E.Fades e d' d'') : E.Fades e d d'' := fun hdone =>
  ⟨(h' (h hdone).1).1, fun bytes hbytes => (h hdone).2 bytes ((h' (h hdone).1).2 bytes hbytes)⟩

/-- a command that is finished stays as it is, but for a value that is taken -/
structure Keeps (E : Device.Events δ) (e : EventId) (d d' : δ) : Prop where
  done : E.Fades e d d'
  failed : E.status d e = .failed → E.status d' e = .failed

theorem Keeps.trans (h : E.Keeps e d d') (h' : E.Keeps e d' d'') : E.Keeps e d d'' :=
  ⟨h.done.trans h'.done, fun hfailed => h'.failed (h.failed hfailed)⟩

theorem keeps_of_eq (hstatus : E.status d' = E.status d) (hvalue : E.value d' = E.value d)
    (e : EventId) : E.Keeps e d d' :=
  ⟨fun hdone => ⟨hstatus ▸ hdone, fun _ hbytes => hvalue ▸ hbytes⟩, fun hfailed => hstatus ▸ hfailed⟩

/-- finished commands, followed over the operations of a bridge -/
def trail (E : Device.Events δ) : Device.Trail δ where
  leads _ d d' := ∀ e, E.Fades e d d'
  stops _ _ _ _ := True
  refl _ _ hdone := ⟨hdone, fun _ hbytes => hbytes⟩
  trans h h' e := (h e).trans (h' e)
  mono _ h := h
  halts _ _ := trivial
  leads_stops _ _ := trivial
  stops_mono _ _ := trivial
  submit command d := (E.submit command d).imp (fun _ _ h => h) fun _ _ _ => trivial
  poll e d e' := (keeps_of_eq (E.poll_keeps e d).1 (E.poll_keeps e d).2 e').done
  take e d e' hdone := ⟨by rw [(E.take_keeps e d).1]; exact hdone, (E.take_keeps e d).2 e'⟩

/-! ## Looking -/

/-- while a device is only looked at, its events and its journal stay as they are -/
def watch (E : Device.Events δ) (J : Device.Journal δ) (start : δ) : Device.Watch δ where
  holds d := E.status d = E.status start ∧ E.value d = E.value start ∧ J.log d = J.log start
  complete e _ := E.status start e ≠ .pending
  poll e h := ⟨(E.poll_keeps e _).1.trans h.1, (E.poll_keeps e _).2.trans h.2.1, (J.poll e _).trans h.2.2⟩
  seen {d e} h hcomplete := by
    rw [E.poll, h.1] at hcomplete
    exact bne_iff_ne.1 hcomplete
  lasts _ _ h := h

theorem watch_start (E : Device.Events δ) (J : Device.Journal δ) (d : δ) : (E.watch J d).holds d := ⟨rfl, rfl, rfl⟩

theorem watch_keeps (h : (E.watch J d).holds d') (e : EventId) : E.Keeps e d d' := keeps_of_eq h.1 h.2.1 e

theorem watch_broken (h : E.status d e = .failed) : (E.watch J d).Broken e := by
  intro d' h'
  rw [E.poll, h'.1, h]
  rfl

theorem watch_ready (h : E.status d e ≠ .pending) : (E.watch J d).Ready e := by
  intro d' h'
  rw [E.poll, h'.1]
  exact bne_iff_ne.2 h

end Device.Events

/-! ## Devices with a journal -/

namespace Journaled

variable {δ : Type} [Device δ]

theorem ends_submit {command : Command} {s : Journaled δ} {Q : EventId → Journaled δ → Prop}
    {R : Stop DeviceError → Journaled δ → Prop}
    (h : Ends (Device.submit command) s.device (fun a d' => ∀ log, Q a ⟨d', log⟩)
      fun stop d' => ∀ log, R stop ⟨d', log⟩) : Ends (Device.submit command) s Q R := by
  have hexec : (Device.submit command).exec s = (((Device.submit command).exec s.device).1,
      ⟨((Device.submit command).exec s.device).2, s.log ++ [⟨command, ((Device.submit command).exec s.device).1⟩]⟩) :=
      rfl
  unfold Ends at h ⊢
  rw [hexec]
  generalize (Device.submit command : Step DeviceError δ EventId).exec s.device = answered at h ⊢
  obtain ⟨answer, d'⟩ := answered
  cases answer <;> exact h _

/-- a journal beside a device leaves its events as they are -/
def events (E : Device.Events δ) : Device.Events (Journaled δ) where
  status s := E.status s.device
  value s := E.value s.device
  poll e s := E.poll e s.device
  poll_keeps e s := E.poll_keeps e s.device
  take e s := E.take e s.device
  take_keeps e s := E.take_keeps e s.device
  submit command s := ends_submit ((E.submit command s.device).imp (fun _ _ h _ => h) fun _ _ h _ => h)

theorem keeps_events {E : Device.Events δ} {e : EventId} {d d' : δ} (h : E.Keeps e d d') (log log' : List Submission) :
    (events E).Keeps e ⟨d, log⟩ ⟨d', log'⟩ := ⟨h.done, h.failed⟩

end Journaled

/-! ## Simulated accelerators -/

namespace EventBoard

variable {b : EventBoard Bytes} {e i : EventId} {s : EventStatus} {v : Option Bytes}

def value (b : EventBoard Bytes) (e : EventId) : Option Bytes := b.cells[e]?.bind (·.value)

theorem exists_cell_of_done (h : b.status i = .done) : ∃ v, b.cells[i]? = some ⟨.done, v⟩ := by
  unfold status at h
  split at h
  · next cell hcell => exact ⟨cell.value, by rw [hcell, ← h]⟩
  · cases h

/-- a new event leaves what is done -/
theorem cells_issue_of_done (h : b.status i = .done) : b.issue.2.cells[i]? = b.cells[i]? := by
  obtain ⟨v, hcell⟩ := exists_cell_of_done h
  have hlt := (Array.getElem?_eq_some_iff.1 hcell).1
  rw [issue, Array.getElem?_push, if_neg hlt.ne]

/-- an event is resolved once -/
theorem cells_resolve_of_resolved (h : b.status i ≠ .pending) : (b.resolve e s v).cells[i]? = b.cells[i]? := by
  simp only [resolve, Array.getElem?_modify]
  split_ifs with he
  · cases hcell : b.cells[i]? with
    | none => rfl
    | some cell =>
      have hresolved : cell.status ≠ .pending := by
        rw [status, hcell] at h
        exact h
      rw [Option.map_some, if_neg hresolved]
  · rfl

theorem take_fst (b : EventBoard Bytes) (e : EventId) :
    (b.take e).1 = if b.status e = .done then b.value e else none := by
  unfold take status value
  split
  · next hcell => simp [hcell]
  · next hother =>
    split_ifs with hdone
    · split at hdone
      · next cell hcell => exact absurd (by rw [hcell, ← hdone]) (hother cell.value)
      · cases hdone
    · rfl

theorem status_take (b : EventBoard Bytes) (e : EventId) : (b.take e).2.status = b.status := by
  funext i
  unfold take
  split
  · simp only [status, Array.getElem?_modify]
    split_ifs with he
    · cases b.cells[i]? <;> rfl
    · rfl
  · rfl

theorem value_of_value_take {bytes : Bytes} (h : (b.take e).2.value i = some bytes) : b.value i = some bytes := by
  unfold take at h
  split at h
  · simp only [value, Array.getElem?_modify] at h
    split_ifs at h with he
    · cases hcell : b.cells[i]? with
      | none | some cell => simp [hcell] at h
    · exact h
  · exact h

end EventBoard

namespace Accelerator

variable {κ : Type} [Kernel κ] {d : Accelerator κ}

/-- what is done on the first board is so on the second -/
def Outlasts (b b' : EventBoard Bytes) : Prop := ∀ e, b.status e = .done → b'.cells[e]? = b.cells[e]?

omit [Kernel κ] in
theorem Outlasts.fades {b b' : EventBoard Bytes} (h : Outlasts b b') {e : EventId} (hdone : b.status e = .done) :
    b'.status e = .done ∧ ∀ bytes, b'.value e = some bytes → b.value e = some bytes := by
  have hcells := h e hdone
  refine ⟨?_, fun bytes hbytes => ?_⟩
  · rw [EventBoard.status, hcells]
    exact hdone
  · rwa [EventBoard.value, hcells] at hbytes

/-- a command is carried out under a new event -/
theorem outlasts_execute (d : Accelerator κ) (event : EventId) (command : Command) :
    Outlasts d.events ({ d with events := d.events.issue.2 }.execute event command).2.events := by
  intro e hdone
  have hissued := EventBoard.cells_issue_of_done hdone
  have hresolved : d.events.issue.2.status e ≠ .pending := by
    rw [EventBoard.status, hissued]
    change d.events.status e ≠ .pending
    rw [hdone]
    decide
  unfold execute
  split <;> exact (EventBoard.cells_resolve_of_resolved hresolved).trans hissued

/-- a transfer may be refused, and does not fault -/
theorem execute_transfer (d : Accelerator κ) (event : EventId) (command : Command) (h : command.isLaunch = false) :
    ∃ done, (d.execute event command).1 = .ok done := by
  have htarget : ∀ {id offset length stop}, d.machine.target id offset length = .error stop →
      ∃ e, stop = .error e := by
    intro id offset length stop hstop
    unfold Machine.target at hstop
    split at hstop
    · cases hstop
      exact ⟨_, rfl⟩
    · split_ifs at hstop
      cases hstop
      exact ⟨_, rfl⟩
  have hperform : Safe (Machine.perform command) d.machine fun _ _ => True := by
    cases command with
    | write id offset data =>
      refine ends_bind (ends_get (ends_bind (ends_except (fun _ _ => ?_) fun _ => htarget)))
      exact ends_bind (ends_set (ends_pure trivial))
    | read id offset length =>
      exact ends_bind (ends_get (ends_bind (ends_except (fun _ _ => ends_pure trivial) fun _ => htarget)))
    | launch args => cases h
  unfold execute
  split
  · exact ⟨_, rfl⟩
  · exact ⟨_, rfl⟩
  · exact ⟨_, rfl⟩
  · next f machine hfault =>
    obtain ⟨e, he⟩ := hperform.of_error hfault
    cases he

def deviceEvents : Device.Events (Accelerator κ) where
  status d := d.events.status
  value d := d.events.value
  poll _ _ := rfl
  poll_keeps _ _ := ⟨rfl, rfl⟩
  take e d := d.events.take_fst e
  take_keeps e d := ⟨d.events.status_take e, fun _ _ => EventBoard.value_of_value_take⟩
  submit command d := by
    have hkept := d.outlasts_execute d.events.cells.size command
    have htransfer := { d with events := d.events.issue.2 }.execute_transfer d.events.cells.size command
    refine ends_bind (ends_get ?_)
    dsimp only [EventBoard.issue] at hkept htransfer ⊢
    generalize ({ d with events := ⟨d.events.cells.push {}⟩ } : Accelerator κ).execute
      d.events.cells.size command = executed at hkept htransfer ⊢
    obtain ⟨answer, d'⟩ := executed
    match d.mode with
    | .immediate =>
      refine ends_bind (ends_set (ends_bind (ends_checked (fun _ _ => ends_pure ?_) fun f hfault => ?_)))
      · exact fun e => hkept.fades
      · intro hcommand
        obtain ⟨done, hdone⟩ := htransfer hcommand
        cases hfault.symm.trans hdone
    | .worker true =>
      cases answer with
      | ok done | error f => exact ends_bind (ends_set (ends_pure fun e => hkept.fades))
    | .stepped false =>
      refine ends_bind (ends_set (ends_pure fun e => Outlasts.fades fun e hdone => ?_))
      exact EventBoard.cells_issue_of_done hdone
    | .worker false | .stepped true => exact ends_fail fun _ => ⟨_, rfl⟩

/-- resolving one event leaves the finished ones -/
theorem keeps_resolve (d : Accelerator κ) (event : EventId) (s : EventStatus) (v : Option Bytes)
    (queue : List (EventId × Command)) (e : EventId) :
    deviceEvents.Keeps e d { d with queue, events := d.events.resolve event s v } := by
  refine ⟨fun hdone => Outlasts.fades (fun e hdone => ?_) hdone, fun hfailed => ?_⟩
  · exact EventBoard.cells_resolve_of_resolved (by rw [hdone]; decide)
  · have hfailed : d.events.status e = .failed := hfailed
    change EventBoard.status _ e = .failed
    rw [EventBoard.status, EventBoard.cells_resolve_of_resolved (by rw [hfailed]; decide)]
    exact hfailed

/-- a command that is answered leaves the finished ones -/
theorem keeps_answerNext (d : Accelerator κ) (bytes : Bytes) (e : EventId) :
    deviceEvents.Keeps e d (d.answerNext bytes).2 := by
  unfold answerNext
  split
  · exact Device.Events.keeps_of_eq rfl rfl e
  · exact keeps_resolve d _ _ _ _ e

end Accelerator

end Dataflow
