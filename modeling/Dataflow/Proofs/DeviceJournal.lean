import Dataflow.Proofs.DeviceTrail

/-!
What a bridge asks of its device, with the answers (`Device.Journal`).

A call submits one launch at most, and a call in which a command was refused terminates (`Bridge.stepLoop_asked`).
-/

namespace Dataflow

open List

/-- a command that was submitted, and what the device answered -/
structure Submission where
  command : Command
  answer : Except (Stop DeviceError) EventId

namespace Submission

/-- the device gave an ordinary error instead of an event -/
def isRefused (s : Submission) : Bool :=
  match s.answer with
  | .error (.error _) => true
  | _ => false

end Submission

/-- a record of all submissions to a device, oldest first -/
structure Device.Journal (δ : Type) [Device δ] where
  log : δ → List Submission
  submit : ∀ command d, log ((Device.submit command).exec d).2 =
    log d ++ [⟨command, ((Device.submit command : Step DeviceError δ EventId).exec d).1⟩]
  poll : ∀ e d, log ((Device.poll e).run d).2 = log d
  take : ∀ e d, log ((Device.take e).run d).2 = log d

/-! ## A journal for any device -/

/-- a device, and a record of all submissions to it -/
structure Journaled (δ : Type) where
  device : δ
  log : List Submission := []

namespace Journaled

variable {δ : Type} [Device δ]

instance : Device (Journaled δ) where
  allocate bytes := Step.zoom (·.device) (fun s device => { s with device }) (Device.allocate bytes)
  submit command := ExceptT.mk fun s =>
    let answer := (Device.submit command).exec s.device
    (answer.1, ⟨answer.2, s.log ++ [⟨command, answer.1⟩]⟩)
  poll e := fun s => (((Device.poll e).run s.device).1, { s with device := ((Device.poll e).run s.device).2 })
  take e := fun s => (((Device.take e).run s.device).1, { s with device := ((Device.take e).run s.device).2 })

def journal (δ : Type) [Device δ] : Device.Journal (Journaled δ) where
  log := Journaled.log
  submit _ _ := rfl
  poll _ _ := rfl
  take _ _ := rfl

end Journaled

namespace Device.Journal

variable {δ : Type} [Device δ] {J : Device.Journal δ}

/-! ## What was asked -/

def launches (J : Device.Journal δ) (d : δ) : Nat := (J.log d).countP (·.command.isLaunch)

/-- from `d` to `d'` no more than `n` launches were submitted, and a command was refused only if `refusal` -/
def Asked (J : Device.Journal δ) (n : Nat) (refusal : Prop) (d d' : δ) : Prop :=
  ∃ posted, J.log d' = J.log d ++ posted ∧ posted.countP (·.command.isLaunch) ≤ n ∧
    ∀ s ∈ posted, s.isRefused = true → refusal

variable {n m : Nat} {P Q : Prop} {d d' d'' : δ}

theorem asked_of_log (h : J.log d' = J.log d) : J.Asked n P d d' := ⟨[], by simpa using h, by simp, by simp⟩

theorem Asked.refl (d : δ) : J.Asked n P d d := asked_of_log rfl

theorem Asked.trans (h1 : J.Asked n False d d') (h2 : J.Asked m P d' d'') : J.Asked (n + m) P d d'' := by
  obtain ⟨first, hfirst, hcount1, hrefused1⟩ := h1
  obtain ⟨second, hsecond, hcount2, hrefused2⟩ := h2
  refine ⟨first ++ second, by rw [hsecond, hfirst, append_assoc], ?_, fun s hs hrefused => ?_⟩
  · rw [countP_append]
    exact Nat.add_le_add hcount1 hcount2
  · rcases mem_append.1 hs with hs | hs
    · exact (hrefused1 s hs hrefused).elim
    · exact hrefused2 s hs hrefused

theorem Asked.mono (h : J.Asked n P d d') (hn : n ≤ m) (hP : P → Q) : J.Asked m Q d d' := by
  obtain ⟨posted, hlog, hcount, hrefused⟩ := h
  exact ⟨posted, hlog, hcount.trans hn, fun s hs hr => hP (hrefused s hs hr)⟩

theorem Asked.launches (h : J.Asked n P d d') : J.launches d' ≤ J.launches d + n := by
  obtain ⟨posted, hlog, hcount, -⟩ := h
  rw [Journal.launches, hlog, countP_append]
  exact Nat.add_le_add_left hcount _

/-- launches are counted, and a refused command ends an operation with an ordinary error -/
def trail (J : Device.Journal δ) : Device.Trail δ where
  leads n := J.Asked n False
  stops n stop := J.Asked n (∃ e, stop = .error e)
  refl := .refl
  trans := .trans
  mono hn h := h.mono hn id
  halts _ := .refl
  leads_stops := .trans
  stops_mono hn h := h.mono hn id
  poll e d := asked_of_log (J.poll e d)
  take e d := asked_of_log (J.take e d)
  submit command d := by
    have hlog := J.submit command d
    have hcount : ∀ answer, [Submission.mk command answer].countP (·.command.isLaunch) ≤ command.isLaunch.toNat := by
      intro answer
      rw [countP_singleton]
      cases command.isLaunch <;> rfl
    unfold Step.Ends
    generalize (Device.submit command : Step DeviceError δ EventId).exec d = answered at hlog ⊢
    obtain ⟨answer, d'⟩ := answered
    cases answer with
    | ok event => exact ⟨_, hlog, hcount _, fun s hs hrefused => by cases mem_singleton.1 hs; cases hrefused⟩
    | error stop =>
      refine ⟨_, hlog, hcount _, fun s hs hrefused => ?_⟩
      cases mem_singleton.1 hs
      cases stop with
      | error e => exact ⟨e, rfl⟩
      | fault f => cases hrefused

end Device.Journal

namespace Bridge

open Device.Journal

variable {δ : Type} [Device δ] {J : Device.Journal δ}

/-- the steps of a call submit one launch at most, and end in termination if a command is refused -/
theorem stepLoop_asked (n fired : Nat) (mayLaunch : Bool) (b : Bridge δ) (ports : Ports) :
    J.Asked mayLaunch.toNat ((stepLoop n fired mayLaunch b ports).exit = .ok .terminate) b.device
      (stepLoop n fired mayLaunch b ports).actor.device := by
  fun_induction stepLoop n fired mayLaunch b ports with
  | case1 => exact .refl _
  | case2 n fired mayLaunch b ports action b' ports' hexec ih =>
    obtain ⟨hasked, hstart⟩ := (step_follows (T := deviceTrail J.trail) mayLaunch (b, ports)).of_ok hexec
    refine (Asked.trans hasked ih).mono ?_ id
    by_cases hlaunch : action = .startKernel
    · subst hlaunch
      simp [launchesOf, hstart rfl]
    · simp [launchesOf, hlaunch, bne_iff_ne.2 hlaunch]
  | case3 n fired mayLaunch b ports b' ports' hexec =>
    have hasked := ((step_follows (T := deviceTrail J.trail) mayLaunch (b, ports)).of_ok hexec).1
    exact Asked.mono hasked (Nat.zero_le _) False.elim
  | case4 n fired mayLaunch b ports e b' ports' hexec =>
    have hasked := (step_follows (T := deviceTrail J.trail) mayLaunch (b, ports)).of_error hexec
    exact Asked.mono hasked le_rfl fun _ => rfl
  | case5 n fired mayLaunch b ports f b' ports' hexec =>
    have hasked := (step_follows (T := deviceTrail J.trail) mayLaunch (b, ports)).of_error hexec
    exact Asked.mono hasked le_rfl fun herror => by simp at herror

theorem act_asked (maxLoops : Nat) (b : Bridge δ) (ports : Ports) :
    J.Asked 1 ((b.act maxLoops ports).exit = .ok .terminate) b.device (b.act maxLoops ports).actor.device := by
  unfold act
  split
  · exact .refl _
  · exact stepLoop_asked maxLoops 0 true b ports

end Bridge

end Dataflow
