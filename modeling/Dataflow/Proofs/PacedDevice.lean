import Dataflow.Proofs.DeviceQueue

/-!
Devices that let an accelerator carry out any number of queued commands before each operation (`Device.Paces`).

Between two operations all promises are kept, and what was complete still is (`Accelerator.Serves`).
-/

namespace Dataflow

namespace Accelerator

variable {κ : Type} [Kernel κ] {d d0 : Accelerator κ} {m m' : Machine κ} {P F : List Promise} {e : EventId}
  {v : Option Bytes} {c : Command}

/-- the device keeps its promises, and is the device `d0` at a later moment -/
structure Serves (d d0 : Accelerator κ) (m : Machine κ) (P : List Promise) : Prop where
  owes : d.Owes m P
  later : d0.Later d

theorem Serves.perm {P' : List Promise} (h : d.Serves d0 m P) (hp : P.Perm P') : d.Serves d0 m P' :=
  ⟨h.owes.perm hp, h.later⟩

theorem Serves.forget (h : d.Serves d0 m ((e, v) :: F)) (hs : d0.events.status e = .done) : d.Serves d0 m F :=
  ⟨h.owes.forget (h.later.complete e hs), h.later⟩

theorem Serves.work (h : d.Serves d0 m P) (n : Nat) : (d.stepQueue n).2.Serves d0 m P := by
  obtain ⟨results, d', hqueue, howes, hlater⟩ := h.owes.stepQueue n
  rw [hqueue]
  exact ⟨howes, h.later.trans hlater⟩

theorem Serves.submit (h : d.Serves d0 m P) (hc : m.Performs c v m') :
    Step.Yields (Device.submit c : Step DeviceError (Accelerator κ) EventId) d fun e d' =>
      d'.Serves d0 m' ((e, v) :: P) :=
  (h.owes.submit hc).mono fun _ _ ⟨ho, hl⟩ => ⟨ho, h.later.trans hl⟩

theorem Serves.take (h : d.Serves d0 m ((e, v) :: F)) (hs : d0.events.status e = .done) :
    ∃ d', (Device.take e : StateM (Accelerator κ) (Option Bytes)).run d = (v, d') ∧ d'.Serves d0 m F := by
  obtain ⟨events, htake, ho, hl⟩ := h.owes.take (h.later.complete e hs)
  refine ⟨{ d with events }, ?_, ho, h.later.trans hl⟩
  change ((d.events.take e).1, ({ d with events := (d.events.take e).2 } : Accelerator κ)) = _
  rw [htake]

end Accelerator

/-- the accelerator inside a device, which may carry out queued commands whenever the device is asked for something -/
structure Device.Paces {δ κ : Type} [Device δ] [Kernel κ] (core : δ → Accelerator κ) : Prop where
  allocate : ∀ d bytes, ∃ n,
    Prod.map id core ((Device.allocate bytes).exec d) = (Device.allocate bytes).exec ((core d).stepQueue n).2
  submit : ∀ d command, ∃ n,
    Prod.map id core ((Device.submit command).exec d) = (Device.submit command).exec ((core d).stepQueue n).2
  poll : ∀ d event, ∃ n,
    Prod.map id core ((Device.poll event).run d) = (Device.poll event).run ((core d).stepQueue n).2
  take : ∀ d event, ∃ n,
    Prod.map id core ((Device.take event).run d) = (Device.take event).run ((core d).stepQueue n).2

/-- an accelerator works when it is told to, and never besides -/
theorem Accelerator.paces {κ : Type} [Kernel κ] : Device.Paces fun d : Accelerator κ => d :=
  ⟨fun _ _ => ⟨0, rfl⟩, fun _ _ => ⟨0, rfl⟩, fun _ _ => ⟨0, rfl⟩, fun _ _ => ⟨0, rfl⟩⟩

namespace Device.Paces

variable {δ κ : Type} [Device δ] [Kernel κ] {core : δ → Accelerator κ} {d : δ} {d0 : Accelerator κ} {m m' : Machine κ}
  {P F : List Promise} {e : EventId} {v : Option Bytes} {c : Command}

theorem submit_yields (hcore : Paces core) (h : (core d).Serves d0 m P) (hc : m.Performs c v m') :
    Step.Yields (Device.submit c) d fun e d' => (core d').Serves d0 m' ((e, v) :: P) := by
  obtain ⟨n, hsubmit⟩ := hcore.submit d c
  obtain ⟨e, d1, hexec, h1⟩ := ((h.work n).submit hc).exec
  rw [hexec] at hsubmit
  obtain ⟨hanswer, rfl⟩ := Prod.mk.inj hsubmit
  exact Step.ends_exec (Prod.ext hanswer rfl) h1

theorem take_eq (hcore : Paces core) (h : (core d).Serves d0 m ((e, v) :: F)) (hs : d0.events.status e = .done) :
    ∃ d', (Device.take e).run d = (v, d') ∧ (core d').Serves d0 m F := by
  obtain ⟨n, htake⟩ := hcore.take d e
  obtain ⟨d1, hrun, h1⟩ := (h.work n).take hs
  rw [hrun] at htake
  obtain ⟨hanswer, rfl⟩ := Prod.mk.inj htake
  exact ⟨_, Prod.ext hanswer rfl, h1⟩

/-- polling answers the status as it is when the answer is given -/
theorem poll_eq (hcore : Paces core) (e : EventId) (h : (core d).Serves d0 m P) :
    ∃ d', (Device.poll e).run d = ((core d').events.status e, d') ∧ (core d').Serves d0 m P := by
  obtain ⟨n, hpoll⟩ := hcore.poll d e
  obtain ⟨hanswer, hd1⟩ := Prod.mk.inj hpoll
  have hd1 : core ((Device.poll e).run d).2 = ((core d).stepQueue n).2 := hd1
  refine ⟨((Device.poll e).run d).2, Prod.ext ?_ rfl, by rw [hd1]; exact h.work n⟩
  rw [hd1]
  exact hanswer

end Device.Paces

/-! ## A pace given in advance -/

/-- an accelerator, with the number of queued commands that it carries out before each of the next operations -/
structure Paced (κ : Type) where
  device : Accelerator κ
  pace : List Nat := []

namespace Paced

variable {κ : Type} [Kernel κ]

/-- the device carries out as many commands as are due -/
def work (d : Paced κ) : Paced κ := ⟨(d.device.stepQueue (d.pace.headD 0)).2, d.pace.tail⟩

/-- an operation of the accelerator, after the commands that are due -/
def after {α : Type} (op : StateM (Accelerator κ) α) : StateM (Paced κ) α := fun d =>
  let (answer, device) := op.run d.work.device
  (answer, { d.work with device })

instance : Device (Paced κ) where
  allocate bytes := ExceptT.mk (after (Device.allocate bytes).run)
  submit command := ExceptT.mk (after (Device.submit command).run)
  poll event := after (Device.poll event)
  take event := after (Device.take event)

theorem paces : Device.Paces fun d : Paced κ => d.device :=
  ⟨fun d _ => ⟨d.pace.headD 0, rfl⟩, fun d _ => ⟨d.pace.headD 0, rfl⟩, fun d _ => ⟨d.pace.headD 0, rfl⟩,
    fun d _ => ⟨d.pace.headD 0, rfl⟩⟩

end Paced

end Dataflow
