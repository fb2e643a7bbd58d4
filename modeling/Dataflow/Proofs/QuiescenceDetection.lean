import Dataflow.Network.Builder
import Dataflow.Proofs.QuietAttempt
import Dataflow.Proofs.ThreadQuiescence

/-!
Quiescence is never detected too early, in whatever order the threads take their steps.

- `quiescence_is_never_premature`: when a thread has found the notes of all partitions equal to the epoch
  (`Crew.AllAgreed`), every instance is terminated, or waits for ports each of which still has what the instance saw
  there. No thread has fired anything since it last ended a pass; and whatever steps follow, nothing moves and nobody
  fires again: attempts are only counted as skipped (`Crew.Still`).
- Witness `quiescence_is_never_premature_round_trip`.

Premises: actors work through their ports, and the run is orderly (`Crew.orderly`).
-/

namespace Dataflow

/-! ## Orderly runs -/

namespace Crew

section Orderly

variable {σ : Type} [Behaviour σ] {config : RunConfig} {c : Crew σ} {p : Nat} {t : Thread}

/-- the answer to the attempt that a thread makes next, if it makes one -/
def due? (config : RunConfig) (c : Crew σ) (p : Nat) : Option (Checked Attempt) :=
  match c.threads[p]? with
  | some ⟨.passing _ next _, _⟩ =>
    (c.network.at? p next).map fun inst => (inst.attempt c.network.wires config.loopMax).2.2
  | _ => none

/-- every attempt made along a schedule is answered and orderly -/
def orderly (config : RunConfig) : Crew σ → List Nat → Bool
  | _, [] => true
  | c, p :: schedule =>
    (match c.due? config p with
      | none => true
      | some (.error _) => false
      | some (.ok answer) => answer.orderly) && orderly config (c.step config p) schedule

theorem due?_eq_some {seen next : Nat} {progress : Bool} {inst : Instance σ} (ht : c.threads[p]? = some t)
    (hstage : t.stage = .passing seen next progress) (hat : c.network.at? p next = some inst) :
    c.due? config p = some (inst.attempt c.network.wires config.loopMax).2.2 := by
  obtain ⟨stage, stats⟩ := t
  subst hstage
  rw [due?, ht]
  simp [hat]

/-- an orderly run keeps the invariant of the threads -/
theorem Watched.orderly {Conf : Nat → Prop} {schedule : List Nat} (hports : Behaviour.ThroughPorts σ)
    (h : c.Watched (fun _ => True) Conf) (horderly : c.orderly config schedule = true) :
    ∃ Conf', (c.after config schedule).Watched (fun _ => True) Conf' := by
  induction schedule generalizing c Conf with
  | nil => exact ⟨Conf, h⟩
  | cons p schedule ih =>
    rw [orderly, Bool.and_eq_true] at horderly
    obtain ⟨hnow, hlater⟩ := horderly
    obtain ⟨Conf', h'⟩ := h.step config p fun t seen next progress inst ht hstage hat => by
      rw [due?_eq_some ht hstage hat] at hnow
      match hattempt : inst.attempt c.network.wires config.loopMax with
      | (wires, inst', .error f) =>
        rw [hattempt] at hnow
        cases hnow
      | (wires, inst', .ok answer) =>
        rw [hattempt] at hnow
        refine ⟨wires, inst', answer, hattempt, trivial, fun hidle => ?_⟩
        obtain ⟨hown, hlevels⟩ := Instance.attempt_rests hports hattempt hnow hidle
        exact ⟨hown, fun p' k' x _ _ hx => hx.congr hlevels rfl rfl rfl rfl⟩
    exact ih h' hlater

end Orderly

/-! ## Standing still -/

variable {σ : Type} {c c' c'' : Crew σ} {p : Nat} {t t' : Thread}

/-- from `c` to `c'` nothing moved and nobody fired; instances differ at most in how often they were skipped -/
structure Still (c c' : Crew σ) : Prop where
  wires : c'.network.wires = c.network.wires
  records : c'.records = c.records
  instances : ∀ ⦃p k⦄ ⦃inst'⦄, c'.network.at? p k = some inst' →
    ∃ inst skipped, c.network.at? p k = some inst ∧ inst' = { inst with stats := { inst.stats with skipped } }
  threads : ∀ ⦃p : Nat⦄ ⦃t'⦄, c'.threads[p]? = some t' →
    ∃ t, c.threads[p]? = some t ∧ t'.stats.firings = t.stats.firings

theorem Still.refl (c : Crew σ) : c.Still c :=
  ⟨rfl, rfl, fun _ _ inst h => ⟨inst, inst.stats.skipped, h, rfl⟩, fun _ t h => ⟨t, h, rfl⟩⟩

theorem Still.trans (h : c.Still c') (h' : c'.Still c'') : c.Still c'' := by
  refine ⟨h'.wires.trans h.wires, h'.records.trans h.records, fun p k inst'' hat => ?_, fun p t'' ht => ?_⟩
  · obtain ⟨inst', n', hat', rfl⟩ := h'.instances hat
    obtain ⟨inst, n, hbefore, rfl⟩ := h.instances hat'
    exact ⟨inst, n', hbefore, rfl⟩
  · obtain ⟨t', ht', hfirings'⟩ := h'.threads ht
    obtain ⟨t, ht, hfirings⟩ := h.threads ht'
    exact ⟨t, ht, hfirings'.trans hfirings⟩

theorem Still.allIdle (h : c.Still c') (hidle : c.AllIdle) : c'.AllIdle := by
  intro p k inst' hat
  obtain ⟨inst, n, hbefore, rfl⟩ := h.instances hat
  rw [h.wires]
  exact (hidle hbefore).congr rfl rfl rfl rfl rfl

theorem still_of_set (ht : c.threads[p]? = some t) (hnetwork : c'.network = c.network)
    (hrecords : c'.records = c.records) (hthreads : c'.threads = c.threads.set p t')
    (hfirings : t'.stats.firings = t.stats.firings) : c.Still c' := by
  refine ⟨by rw [hnetwork], hrecords, fun q k inst hat => ?_, fun q s hs => ?_⟩
  · rw [hnetwork] at hat
    exact ⟨inst, inst.stats.skipped, hat, rfl⟩
  · rw [hthreads] at hs
    rcases getElem?_set_cases hs with ⟨rfl, rfl⟩ | ⟨-, hs⟩
    · exact ⟨t, ht, hfirings⟩
    · exact ⟨s, hs, rfl⟩

variable [Behaviour σ]

theorem AllIdle.attempt {seen next : Nat} {progress : Bool} (h : c.AllIdle) (ht : c.threads[p]? = some t)
    (loopMax : Nat) : c.Still (c.attempt loopMax p t seen next progress) := by
  unfold Crew.attempt
  split
  · exact still_of_set ht rfl rfl rfl rfl
  next part hpart =>
  split
  · exact still_of_set ht rfl rfl rfl rfl
  next inst hinst =>
  have hat : c.network.at? p next = some inst := by rw [Network.at?, hpart]; exact hinst
  obtain ⟨skipped, hattempt⟩ := (h hat).attempt loopMax
  simp only [hattempt]
  rw [← Network.replace_eq hpart]
  refine ⟨Network.replace_wires, ?_, fun q k x hx => ?_, ?_⟩
  · simp [goto, PassTally.ofAttempt]
  · rcases Network.at?_replace hx with ⟨rfl, rfl, rfl⟩ | ⟨-, hx⟩
    · exact ⟨inst, skipped, hat, rfl⟩
    · exact ⟨x, x.stats.skipped, hx, rfl⟩
  · refine fun q s hs => ?_
    rcases getElem?_set_cases hs with ⟨rfl, rfl⟩ | ⟨-, hs⟩
    · exact ⟨t, ht, rfl⟩
    · exact ⟨s, hs, rfl⟩

/-- with everybody idle, no step of any thread moves or fires anything -/
theorem AllIdle.step (h : c.AllIdle) (config : RunConfig) (p : Nat) : c.Still (c.step config p) := by
  unfold Crew.step
  split
  · exact .refl c
  next t ht =>
  split
  · split
    · exact still_of_set ht rfl rfl rfl rfl
    split
    · exact still_of_set ht rfl rfl rfl rfl
    · exact still_of_set ht rfl rfl rfl rfl
  · exact still_of_set ht rfl rfl rfl rfl
  · exact h.attempt ht config.loopMax
  · exact still_of_set ht rfl rfl rfl rfl
  · exact still_of_set ht rfl rfl rfl rfl
  · exact still_of_set ht rfl rfl rfl rfl
  · exact still_of_set ht rfl rfl rfl rfl
  · split
    · exact still_of_set ht rfl rfl rfl rfl
    · exact still_of_set ht rfl rfl rfl rfl
  · exact .refl c
  · exact .refl c

theorem AllIdle.after (h : c.AllIdle) (config : RunConfig) (schedule : List Nat) :
    c.Still (c.after config schedule) := by
  induction schedule generalizing c with
  | nil => exact .refl c
  | cons p schedule ih =>
    have hstep := h.step config p
    exact hstep.trans (ih (hstep.allIdle h))

end Crew

/-! ## Firings of a pass -/

/-- in a pass that has made progress, or faulted -/
def Stage.Stirred : Stage → Prop
  | .passing _ _ progress => progress = true
  | .faulted _ => True
  | _ => False

/-- `t'` comes later than `t`: if no pass has ended in between, then nothing has fired, or the stage shows that
something has -/
structure Thread.Later (t t' : Thread) : Prop where
  passes : t.stats.passes ≤ t'.stats.passes
  stirred : t'.stats.passes = t.stats.passes → t.stage.Stirred → t'.stage.Stirred
  fired : t'.stats.passes = t.stats.passes → t'.stats.firings = t.stats.firings ∨ t'.stage.Stirred

namespace Thread

variable {t t' t'' : Thread}

theorem Later.refl (t : Thread) : t.Later t := ⟨le_rfl, fun _ => id, fun _ => .inl rfl⟩

theorem Later.trans (h : t.Later t') (h' : t'.Later t'') : t.Later t'' := by
  have hpasses := h.passes
  have hpasses' := h'.passes
  refine ⟨hpasses.trans hpasses', fun heq hstirred => ?_, fun heq => ?_⟩
  · exact h'.stirred (by omega) (h.stirred (by omega) hstirred)
  · rcases h'.fired (by omega) with hsame' | hstirred
    · rcases h.fired (by omega) with hsame | hstirred
      · exact .inl (hsame'.trans hsame)
      · exact .inr (h'.stirred (by omega) hstirred)
    · exact .inr hstirred

/-- a step that is not an attempt -/
theorem later_goto {stage : Stage} (h : ¬ t.stage.Stirred) : t.Later { t with stage } :=
  ⟨le_rfl, fun _ hstirred => absurd hstirred h, fun _ => .inl rfl⟩

end Thread

namespace Crew

variable {σ : Type} {c c' : Crew σ} {p q : Nat} {t t' s : Thread}

theorem exists_later_of_set (ht : c.threads[p]? = some t) (hthreads : c'.threads = c.threads.set p t')
    (hlater : t.Later t') (hs : c.threads[q]? = some s) : ∃ s', c'.threads[q]? = some s' ∧ s.Later s' := by
  rw [hthreads]
  by_cases hq : p = q
  · subst hq
    rw [ht] at hs
    cases hs
    exact ⟨t', List.getElem?_set_self (lt_of_getElem? ht), hlater⟩
  · exact ⟨s, (List.getElem?_set_ne hq).trans hs, .refl s⟩

variable [Behaviour σ]

theorem attempt_later {loopMax seen next : Nat} {progress : Bool} (ht : c.threads[p]? = some t)
    (hstage : t.stage = .passing seen next progress) (hs : c.threads[q]? = some s) :
    ∃ s', (c.attempt loopMax p t seen next progress).threads[q]? = some s' ∧ s.Later s' := by
  have hend : ∃ s', (c.endPass p t seen progress).threads[q]? = some s' ∧ s.Later s' := by
    refine exists_later_of_set ht rfl ⟨Nat.le_succ _, fun heq => ?_, fun heq => ?_⟩ hs
    all_goals exact absurd heq (Nat.succ_ne_self _)
  unfold attempt
  split
  · exact hend
  split
  · exact hend
  next inst hinst =>
  match inst.attempt c.network.wires loopMax with
  | (wires, inst', .error f) =>
    exact exists_later_of_set ht rfl ⟨le_rfl, fun _ _ => trivial, fun _ => .inr trivial⟩ hs
  | (wires, inst', .ok answer) =>
    refine exists_later_of_set ht rfl ⟨le_rfl, fun _ hstirred => ?_, fun _ => ?_⟩ hs
    · rw [hstage] at hstirred
      have hprogress : progress = true := hstirred
      simp [Stage.Stirred, hprogress]
    · cases answer with
      | skipped => exact .inl rfl
      | ran exit firing =>
        by_cases hfired : firing.fired = 0
        · exact .inl (by simp [PassTally.ofAttempt, hfired])
        · exact .inr (by simp [Stage.Stirred, PassTally.ofAttempt, Attempt.madeProgress, hfired])

theorem step_later (config : RunConfig) (p : Nat) (hs : c.threads[q]? = some s) :
    ∃ s', (c.step config p).threads[q]? = some s' ∧ s.Later s' := by
  unfold step
  split
  · exact ⟨s, hs, .refl s⟩
  next t ht =>
  have hgoto : ∀ {c' : Crew σ} {stage}, ¬ t.stage.Stirred → c'.threads = c.threads.set p { t with stage } →
      ∃ s', c'.threads[q]? = some s' ∧ s.Later s' :=
    fun hcalm hthreads => exists_later_of_set ht hthreads (Thread.later_goto hcalm) hs
  split
  · next hstage =>
    have hcalm : ¬ t.stage.Stirred := by rw [hstage]; exact id
    split
    · exact hgoto hcalm rfl
    split
    · exact hgoto hcalm rfl
    · exact hgoto hcalm rfl
  · next hstage => exact hgoto (by rw [hstage]; exact id) rfl
  · next hstage => exact attempt_later ht hstage hs
  · next hstage => exact hgoto (by rw [hstage]; exact id) rfl
  · next hstage => exact hgoto (by rw [hstage]; exact id) rfl
  · next hstage => exact hgoto (by rw [hstage]; exact id) rfl
  · next hstage => exact hgoto (by rw [hstage]; exact id) rfl
  · next hstage =>
    have hcalm : ¬ t.stage.Stirred := by rw [hstage]; exact id
    split
    · exact hgoto hcalm rfl
    · exact hgoto hcalm rfl
  · exact ⟨s, hs, .refl s⟩
  · exact ⟨s, hs, .refl s⟩

theorem after_later (config : RunConfig) (schedule : List Nat) (hs : c.threads[q]? = some s) :
    ∃ s', (c.after config schedule).threads[q]? = some s' ∧ s.Later s' := by
  induction schedule generalizing c s with
  | nil => exact ⟨s, hs, .refl s⟩
  | cons p schedule ih =>
    obtain ⟨s1, hs1, hstep⟩ := step_later config p hs
    obtain ⟨s2, hs2, hrest⟩ := ih hs1
    exact ⟨s2, hs2, hstep.trans hrest⟩

theorem after_append (config : RunConfig) (c : Crew σ) (before rest : List Nat) :
    c.after config (before ++ rest) = (c.after config before).after config rest := by
  simp [after]

/-- the comparison that a thread makes has come to its end, and all notes agreed -/
def AllAgreed (c : Crew σ) (p : Nat) : Prop :=
  ∃ t e next, c.threads[p]? = some t ∧ t.stage = .comparing e next ∧ c.idleAt.length ≤ next

end Crew

/-- When a thread has found all partitions idle, everybody is idle and stays so. -/
theorem quiescence_is_never_premature {σ : Type} [Behaviour σ] (hports : Behaviour.ThroughPorts σ) {config : RunConfig}
    {n : Network σ} {schedule : List Nat} (horderly : (Crew.start n).orderly config schedule = true) {p : Nat}
    (hagreed : ((Crew.start n).after config schedule).AllAgreed p) :
    (∀ (q k : Nat) (inst : Instance σ), ((Crew.start n).after config schedule).network.at? q k = some inst →
      inst.terminated = true ∨ ∃ ports, inst.waiting = some ports ∧ ports ≠ [] ∧
        ∀ b ∈ ports, inst.availability ((Crew.start n).after config schedule).network.wires b.1 = .ok b.2) ∧
    (∀ before rest, before ++ rest = schedule → ∀ (q : Nat) (t t' : Thread),
      ((Crew.start n).after config before).threads[q]? = some t →
      ((Crew.start n).after config schedule).threads[q]? = some t' → t'.stats.passes = t.stats.passes →
      t'.stats.firings = t.stats.firings) ∧
    ∀ more, ((Crew.start n).after config schedule).Still
      (((Crew.start n).after config schedule).after config more) := by
  obtain ⟨Conf, hwatched⟩ := (Crew.watched_start trivial).orderly hports horderly
  obtain ⟨t, e, next, ht, hstage, hle⟩ := hagreed
  obtain ⟨hcalm, hidle⟩ := hwatched.detect ht hstage (List.getElem?_eq_none_iff.2 hle)
  refine ⟨fun q k inst hat => Instance.idle_iff.1 (hidle hat), ?_, hidle.after config⟩
  rintro before rest rfl q s s' hs hs' hpasses
  obtain ⟨s'', hs'', hlater⟩ := Crew.after_later config rest hs
  rw [← Crew.after_append, hs'] at hs''
  cases hs''
  -- a thread that is not dirty and has not faulted is not seen to have fired
  refine (hlater.fired hpasses).resolve_right fun hstirred => ?_
  have hclean := hcalm hs'
  have hbounded := hwatched.bounded hs'
  generalize s'.stage = stage at hstirred hclean hbounded
  cases stage with
  | passing seen next progress => exact hclean hstirred
  | faulted f => exact hbounded
  | _ => exact hstirred

/-! ## An instance -/

/-- three numbers go from one partition to another, are doubled there, and come back -/
def roundTrip : Builder Component where
  instances := [⟨"numbers", .source { feed := .range 1 3 }, some "left"⟩, ⟨"twice", .scale ⟨2⟩, some "right"⟩,
    ⟨"all", .sink {}, some "left"⟩]
  links := [⟨⟨0, 0⟩, ⟨1, 0⟩, some 1⟩, ⟨⟨1, 0⟩, ⟨2, 0⟩, some 2⟩]
  defaultDepth := 4

def roundTripNetwork : Network Component := (roundTrip.build none).toOption.getD ⟨[], [], []⟩

/-- after forty steps of each thread, the second has found all partitions idle while the first is in a pass -/
theorem quiescence_is_never_premature_round_trip :
    (Crew.start roundTripNetwork).orderly {} (List.replicate 40 [0, 1]).flatten = true ∧
      ((Crew.start roundTripNetwork).after {} (List.replicate 40 [0, 1]).flatten).AllAgreed 1 ∧
      ((Crew.start roundTripNetwork).after {} (List.replicate 40 [0, 1]).flatten).records.size = 9 ∧
      ∀ more, ((Crew.start roundTripNetwork).after {} (List.replicate 40 [0, 1]).flatten).Still
        (((Crew.start roundTripNetwork).after {} (List.replicate 40 [0, 1]).flatten).after {} more) := by
  have horderly : (Crew.start roundTripNetwork).orderly {} (List.replicate 40 [0, 1]).flatten = true :=
    by decide +kernel
  have hstage :
    (((Crew.start roundTripNetwork).after {} (List.replicate 40 [0, 1]).flatten).threads[1]?.map (·.stage)) =
      some (.comparing 7 2) := by decide +kernel
  obtain ⟨t, ht, hstage⟩ := Option.map_eq_some_iff.1 hstage
  have hagreed : ((Crew.start roundTripNetwork).after {} (List.replicate 40 [0, 1]).flatten).AllAgreed 1 :=
    ⟨t, 7, 2, ht, hstage, by decide +kernel⟩
  exact ⟨horderly, hagreed, by decide +kernel,
    (quiescence_is_never_premature Component.throughPorts horderly hagreed).2.2⟩

end Dataflow
