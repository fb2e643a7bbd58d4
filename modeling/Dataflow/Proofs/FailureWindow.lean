import Dataflow.Proofs.BridgeHistory
import Dataflow.Proofs.BridgeService
import Dataflow.Proofs.DeviceEvents

/-!
What a bridge notices of a failure while its device gets on between any two looks of a step.

- `Bridge.failed_launch_ends_bridge`: a failure is acted upon if it was there when the step began. No action of a
  history, and so no booking, was taken while a command in flight had failed, and a bridge with such a command
  terminates in its next step, with its launch, its phase, its records and its open ports as they were.
- Witness `Bridge.failed_launch_ends_bridge_in_time`.
- Counterexample `Bridge.failed_launch_booked`: a launch that fails between the two looks of one step is booked.

Premises: an event that has failed stays so (`Device.Verdicts`).
-/

namespace Dataflow

/-- commands in flight, on a device that may get on whenever it is looked at -/
structure Device.Verdicts (δ : Type) [Device δ] where
  status : δ → EventId → EventStatus
  /-- a look shows how far the command has come -/
  poll : ∀ e d, ((Device.poll e).run d).1 = status ((Device.poll e).run d).2 e
  /-- a verdict is final -/
  lasts : ∀ {e d} e', status d e ≠ .pending → status ((Device.poll e').run d).2 e = status d e

namespace Device

variable {δ : Type} [Device δ]

/-- while a command has failed -/
def Verdicts.watch (V : Verdicts δ) (e : EventId) : Watch δ where
  holds d := V.status d e = .failed
  complete _ _ := True
  poll e' h := by rw [V.lasts e' (by rw [h]; decide), h]
  seen _ _ := trivial
  lasts _ _ _ := trivial

theorem Verdicts.watch_broken (V : Verdicts δ) (e : EventId) : (V.watch e).Broken e := by
  intro d h
  rw [V.poll e d, (V.watch e).poll e h]
  rfl

end Device

/-! ## Commands carried out in order -/

namespace Accelerator

variable {κ : Type} [Kernel κ] {e : EventId}

/-- carrying out a command changes no verdict -/
theorem status_execute (d : Accelerator κ) (event : EventId) (command : Command) (h : d.events.status e ≠ .pending) :
    (d.execute event command).2.events.status e = d.events.status e := by
  have hresolve : ∀ s v, (d.events.resolve event s v).status e = d.events.status e := by
    intro s v
    rw [EventBoard.status, EventBoard.cells_resolve_of_resolved h]
    rfl
  unfold execute
  split <;> exact hresolve _ _

theorem status_stepQueue (n : Nat) (d : Accelerator κ) (h : d.events.status e ≠ .pending) :
    (d.stepQueue n).2.events.status e = d.events.status e := by
  induction n generalizing d with
  | zero => rfl
  | succ n ih =>
    unfold stepQueue
    split
    · rfl
    · next event command queue hqueue =>
      have hexecute := status_execute { d with queue } event command h
      split
      · next hfault =>
        rw [hfault] at hexecute
        exact hexecute
      · next hdone =>
        rw [hdone] at hexecute
        rw [← hexecute] at h
        exact (ih _ h).trans hexecute

end Accelerator

/-- a device that carries out the commands of an accelerator in order, at moments of its own choosing -/
def Device.Paces.verdicts {δ κ : Type} [Device δ] [Kernel κ] {core : δ → Accelerator κ} (h : Device.Paces core) :
    Device.Verdicts δ where
  status d := (core d).events.status
  poll e d := by
    obtain ⟨n, hpoll⟩ := h.poll d e
    obtain ⟨hanswer, hcore⟩ := Prod.mk.inj hpoll
    have hcore : core ((Device.poll e).run d).2 = ((core d).stepQueue n).2 := hcore
    rw [hcore]
    exact hanswer
  lasts {e d} e' hfinal := by
    obtain ⟨n, hpoll⟩ := h.poll d e'
    obtain ⟨-, hcore⟩ := Prod.mk.inj hpoll
    have hcore : core ((Device.poll e').run d).2 = ((core d).stepQueue n).2 := hcore
    rw [hcore]
    exact (core d).status_stepQueue n hfinal

namespace Bridge

variable {δ : Type} [Device δ] {V : Device.Verdicts δ} {b : Bridge δ} {ports : Ports} {e : EventId}

/-! ## Steps -/

/-- once a command in flight has failed, a step stops and leaves all but the device as it is -/
theorem step_refuses (ports : Ports) (mayLaunch : Bool) (he : e ∈ b.inFlight)
    (hfailed : V.status b.device e = .failed) : Step.Ends (step mayLaunch) (b, ports) (fun _ _ => False)
      fun stop s' => (∃ error, stop = .error error) ∧ ∃ d, s' = ({ b with device := d }, ports) := by
  refine Step.ends_bind ((guards_guardFailures (W := V.watch e) hfailed).imp ?_ ?_)
  · rintro - _ ⟨-, hsound⟩
    exact (hsound e he (V.watch_broken e)).elim
  · rintro stop _ ⟨hstop, ⟨d, rfl, -⟩, -⟩
    exact ⟨hstop, d, rfl⟩

/-- so a call that takes a step terminates, with its launch, its phase and its records as they were -/
theorem act_refuses (hworks : b.failed = false) (he : e ∈ b.inFlight) (hfailed : V.status b.device e = .failed)
    {maxLoops : Nat} (hloops : 0 < maxLoops) : b.takenBy maxLoops ports = [] ∧
      ∃ d, b.act maxLoops ports = ⟨{ b with device := d, failed := true }, ports, .ok .terminate⟩ := by
  obtain ⟨n, rfl⟩ := Nat.exists_eq_succ_of_ne_zero hloops.ne'
  obtain ⟨hact, htaken⟩ := act_of_works hworks (n + 1) ports
  rw [hact, htaken, stepLoop, taken]
  have hstep := step_refuses ports true he hfailed
  unfold Step.Ends at hstep
  generalize (step true).exec (b, ports) = ended at hstep
  obtain ⟨answer, s'⟩ := ended
  cases answer with
  | ok action => exact hstep.elim
  | error stop =>
    obtain ⟨⟨error, rfl⟩, d, rfl⟩ := hstep
    exact ⟨rfl, d, rfl⟩

/-! ## Histories -/

/-- No action is taken with a command in flight that had failed when the step began. -/
theorem failed_launch_ends_bridge {ins outs : List LinkPort} {history : List (Taken δ)} (V : Device.Verdicts δ)
    (h : HasHistory ins outs b history) :
    (∀ t ∈ history, ∀ e ∈ t.before.inFlight, V.status t.before.device e ≠ .failed) ∧
      ∀ e ∈ b.inFlight, V.status b.device e = .failed → b.failed = false →
        ∀ (maxLoops : Nat) (ports : Ports), 0 < maxLoops →
        b.takenBy maxLoops ports = [] ∧
          ∃ d, b.act maxLoops ports = ⟨{ b with device := d, failed := true }, ports, .ok .terminate⟩ := by
  refine ⟨fun t ht e he hfailed => ?_, fun e he hfailed hworks maxLoops ports hloops =>
    act_refuses hworks he hfailed hloops⟩
  obtain ⟨mayLaunch, ports, ports', hexec⟩ := h.exec_of_mem ht
  exact (step_refuses _ mayLaunch he hfailed).of_ok hexec

/-- an accelerator with a kernel that fails its first launch, with the numbers of commands that it carries out before
each of the operations on it -/
def failingDevice (pace : List Nat) : Paced StockKernel :=
  ⟨Accelerator.create (.script [[.fail "broken"]] #[]) (.stepped false), pace⟩

/-- The device gets on while nobody looks: the write has gone through and the launch has failed before the next call,
which terminates. -/
theorem failed_launch_ends_bridge_in_time :
    ∃ b launched lost : Bridge (Paced StockKernel), Bridge.create "link" (failingDevice [])
    [⟨"in", 1, 2⟩] [⟨"out", 1, 2⟩] = .ok b ∧
      launched = (b.act 1 Ports.oneToken).actor ∧
      lost = { launched with device := { device := (launched.device.device.stepQueue 2).2 } } ∧
      HasHistory [⟨"in", 1, 2⟩] [⟨"out", 1, 2⟩] lost (b.takenBy 1 Ports.oneToken) ∧ lost.kernel = some 1 ∧
      Paced.paces.verdicts.status lost.device 1 = .failed ∧
      ∃ d, lost.act 1 Ports.oneToken = ⟨{ lost with device := d, failed := true }, Ports.oneToken, .ok .terminate⟩ := by
  obtain ⟨b, hb⟩ : ∃ b, create "link" (failingDevice []) [⟨"in", 1, 2⟩] [⟨"out", 1, 2⟩] = .ok b := ⟨_, rfl⟩
  have hcalls := eq_of_map_toOption hb (fun b =>
      let launched := (b.act 1 Ports.oneToken).actor
      ((b.act 1 Ports.oneToken).exit.toOption, launched.kernel, launched.failed,
        (launched.device.device.stepQueue 2).2.events.status 1))
    (show _ = some (some .yield, some 1, false, .failed) by decide +kernel)
  simp only [Prod.mk.injEq] at hcalls
  obtain ⟨hexit, hkernel, hworks, hstatus⟩ := hcalls
  have hhistory : HasHistory _ _ (b.act 1 Ports.oneToken).actor ([] ++ b.takenBy 1 Ports.oneToken) :=
    (HasHistory.created (by decide) hb).called 1 Ports.oneToken (eq_ok_of_toOption hexit)
  have hlost := hhistory.moved { device := ((b.act 1 Ports.oneToken).actor.device.device.stepQueue 2).2 }
  have hends := (failed_launch_ends_bridge Paced.paces.verdicts hlost).2 1
    (mem_inFlight.2 (.inl hkernel)) hstatus hworks 1 Ports.oneToken (by decide)
  exact ⟨b, _, _, hb, rfl, rfl, hlost, hkernel, hstatus, hends.2⟩

/-- The device carries out all four commands between the guard and the look at the launch. The launch has failed, and it
is booked: its event is given up, the call is recorded, and the bridge goes on. -/
theorem failed_launch_booked :
    ∃ b launched booked : Bridge (Paced StockKernel),
      Bridge.create "link" (failingDevice (List.replicate 12 0 ++ [4])) [⟨"in", 1, 2⟩] [⟨"out", 1, 2⟩] = .ok b ∧
      launched = (b.act 1 Ports.oneToken).actor ∧ booked = (launched.act 1 Ports.oneToken).actor ∧
      HasHistory [⟨"in", 1, 2⟩] [⟨"out", 1, 2⟩] booked (b.takenBy 1 Ports.oneToken ++
        launched.takenBy 1 Ports.oneToken) ∧
      launched.kernel = some 1 ∧ Paced.paces.verdicts.status launched.device 1 = .pending ∧
      (launched.takenBy 1 Ports.oneToken).map (·.action) = [.updateIndices] ∧
      Paced.paces.verdicts.status booked.device 1 = .failed ∧ booked.failed = false ∧ booked.kernel = none ∧
      booked.phase = .pollRead ∧ booked.profile.calls = [⟨1, [0], [0]⟩] := by
  obtain ⟨b, hb⟩ : ∃ b, create "link" (failingDevice (List.replicate 12 0 ++ [4])) [⟨"in", 1, 2⟩] [⟨"out", 1, 2⟩] =
      .ok b := ⟨_, rfl⟩
  have hcalls := eq_of_map_toOption hb (fun b =>
      let launched := (b.act 1 Ports.oneToken).actor
      ((b.act 1 Ports.oneToken).exit.toOption, (launched.act 1 Ports.oneToken).exit.toOption, launched.kernel,
        launched.device.device.events.status 1, (launched.takenBy 1 Ports.oneToken).map (·.action)))
    (show _ = some (some .yield, some .yield, some 1, .pending, [.updateIndices]) by decide +kernel)
  have hbooked := eq_of_map_toOption hb (fun b =>
      let booked := ((b.act 1 Ports.oneToken).actor.act 1 Ports.oneToken).actor
      (booked.device.device.events.status 1, booked.failed, booked.kernel, booked.phase, booked.profile.calls))
    (show _ = some (.failed, false, none, .pollRead, [⟨1, [0], [0]⟩]) by decide +kernel)
  simp only [Prod.mk.injEq] at hcalls hbooked
  obtain ⟨hexit, hexit', hkernel, hpending, hactions⟩ := hcalls
  obtain ⟨hfailed, hworks, hnone, hphase, hrecords⟩ := hbooked
  have hhistory : HasHistory _ _ (b.act 1 Ports.oneToken).actor ([] ++ b.takenBy 1 Ports.oneToken) :=
    (HasHistory.created (by decide) hb).called 1 Ports.oneToken (eq_ok_of_toOption hexit)
  have hhistory' := hhistory.called 1 Ports.oneToken (eq_ok_of_toOption hexit')
  exact ⟨b, _, _, hb, rfl, rfl, hhistory', hkernel, hpending, hactions, hfailed, hworks, hnone, hphase, hrecords⟩

end Bridge

end Dataflow
