import Dataflow.Proofs.Settling
import Dataflow.Proofs.SplitRuns

/-!
Runs of library actors end. If every attempt is answered, and one that makes progress leaves less to do, a run ends
within as many rounds as there is to do, and one (`Network.Dwindles.run`).

- `library_runs_end`: the run ends by itself; no partition makes more passes than there are tokens to move
  (`Builder.workload`), and one, and with more fuel than that the result is always the same. All declared instances are
  still there; the outcome is `allTerminated` if every one of them came back with `terminate`, and `quiescent`
  otherwise.
- Witness `library_runs_end_fork`.

Premises: sources, scalers and sinks, however wired and placed; one thread, at least one loop per call, no pass limit.
-/

namespace Dataflow

open List

/-! ## Attempts that leave less to do -/

namespace Network

variable {σ : Type} [Behaviour σ]

/-- every attempt is answered and leaves no more to do, and less if it makes progress; `Q k` holds where `k` is left to
do -/
def Dwindles (loopMax : Nat) (Q : Nat → List Connection → List (Instance σ) → Prop) : Prop :=
  ∀ ⦃k⦄ ⦃wires⦄ ⦃before after⦄ ⦃inst⦄, Q k wires (before ++ inst :: after) →
    ∃ k' wires' inst' answer, inst.attempt wires loopMax = (wires', inst', .ok answer) ∧
    Q k' wires' (before ++ inst' :: after) ∧
      k' + answer.madeProgress.toNat ≤ k

variable {Q : Nat → List Connection → List (Instance σ) → Prop} {loopMax k : Nat} {wires : List Connection}
  {stats : List PartitionStats} {c : Nat} {s : Leg σ}

theorem toNat_or_le (a b : Bool) : (a || b).toNat ≤ a.toNat + b.toNat := by
  cases a <;> simp

/-- what is left to do is the state -/
def Dwindles.course (h : Dwindles loopMax Q) : Course σ loopMax where
  State := Nat
  holds := Q
  fit _ := True
  sure := True
  comes k k' progress _ _ := k' + progress.toNat ≤ k
  refl _ := le_rfl
  trans {_ _ _ p q _ _ _ _} h h' := by
    have hor := toNat_or_le p q
    omega
  attempt hQ _ := by
    obtain ⟨k', wires', inst', answer, hattempt, hQ', hless⟩ := h hQ
    exact .inr ⟨wires', inst', answer, hattempt, fun _ => ⟨k', hQ', hless⟩⟩

/-- a round is one pass more for every partition -/
theorem round_passes {partitions : List (Partition σ)} (h : ∀ s ∈ stats, s.passes ≤ c) :
    ∀ s ∈ (round loopMax wires partitions stats).stats, s.passes ≤ c + 1 := by
  have hstay : ∀ s ∈ stats, s.passes ≤ c + 1 := fun s hs => (h s hs).trans (Nat.le_succ c)
  induction partitions generalizing wires stats with
  | nil => exact hstay
  | cons p partitions ih =>
    cases stats with
    | nil => exact hstay
    | cons first stats =>
      obtain ⟨hfirst, hrest⟩ := forall_mem_cons.1 h
      cases hfault : (pass p.name loopMax wires p.instances).fault with
      | some f =>
        rw [Overlap.round_cons_fault hfault]
        exact hstay
      | none =>
        rw [Overlap.round_cons hfault]
        refine forall_mem_cons.2 ⟨Nat.succ_le_succ hfirst, ih hrest fun s hs => ?_⟩
        exact (hrest s hs).trans (Nat.le_succ c)

/-- one round: it leads to another leg with less to do, or ends the run -/
theorem Dwindles.leg (h : Dwindles loopMax Q) (heven : s.Even) (hQ : Q k s.network.wires s.network.instances) :
    ∃ k', Q k' (s.next loopMax).network.wires (s.next loopMax).network.instances ∧
      (s.round loopMax = .inr (s.next loopMax) ∧ k' < k ∨
        s.round loopMax = .inl ((s.next loopMax).finish
          (if (s.next loopMax).network.allTerminated then .allTerminated else .quiescent))) := by
  obtain ⟨k', hfault, hQ', hless⟩ := h.course.round [] s.network.partitions heven hQ
    (fun _ _ _ _ => trivial) (.inl trivial)
  refine ⟨k', hQ', ?_⟩
  rw [Leg.round_eq hfault]
  split
  · exact .inr rfl
  split
  · next hprogress =>
    have hprogress' : (round loopMax s.network.wires s.network.partitions s.stats).progress = true := hprogress
    rw [hprogress'] at hless
    exact .inl ⟨rfl, hless⟩
  · exact .inr rfl

/-- with more fuel than there is left to do, a run ends by itself -/
theorem Dwindles.run {config : RunConfig} (h : Dwindles config.loopMax Q) (hlimit : config.maxPasses = none)
    (heven : s.Even) (hpasses : ∀ p ∈ s.stats, p.passes ≤ c) (hQ : Q k s.network.wires s.network.instances) {fuel : Nat}
    (hfuel : k < fuel) (passes : Nat) :
    ∃ (last : Leg σ) (k' : Nat),
      s.run config fuel passes = last.finish (if last.network.allTerminated then .allTerminated else .quiescent) ∧
      Q k' last.network.wires last.network.instances ∧ ∀ p ∈ last.stats, p.passes ≤ c + k + 1 := by
  induction fuel generalizing k s c passes with
  | zero => exact absurd hfuel (Nat.not_lt_zero _)
  | succ fuel ih =>
    have hpasses' : ∀ p ∈ (s.next config.loopMax).stats, p.passes ≤ c + 1 := round_passes hpasses
    obtain ⟨k', hQ', ⟨hround, hless⟩ | hround⟩ := h.leg heven hQ
    · obtain ⟨last, k'', hrun, hQ'', hbound⟩ := ih (heven.next _) hpasses' hQ' (by omega) (passes + 1)
      refine ⟨last, k'', ?_, hQ'', fun p hp => (hbound p hp).trans (by omega)⟩
      rw [Leg.run, hlimit, hround]
      exact hrun
    · refine ⟨s.next config.loopMax, k', ?_, hQ', fun p hp => (hpasses' p hp).trans (by omega)⟩
      rw [Leg.run, hlimit, hround]
      rfl

end Network

/-! ## Attempts of stock actors -/

section Attempts

variable {σ : Type} [Behaviour σ] {wires wires' : List Connection} {maxLoops : Nat} {answer : Attempt}

/-- the last exit tells who has terminated -/
def Instance.Told (inst : Instance σ) : Prop := inst.terminated = true ↔ inst.lastExit = some .terminate

theorem Instance.attempt_told {inst inst' : Instance σ} (h : inst.attempt wires maxLoops = (wires', inst', .ok answer))
    (htold : inst.Told) : inst'.Told := by
  cases tries_of_attempt h with
  | ended | waits => exact htold
  | @calls _ _ exit hterm => cases exit <;> simp [Told, closePorts, book, hterm, Exit.kind]

/-- with a loop to make, a stock actor that yields has fired -/
theorem Component.fires_of_yield {actor : Component} (hplain : actor.plain = true) {ports : Ports}
    (hloops : 1 ≤ maxLoops) (h : (Behaviour.act maxLoops actor ports).exit = .ok .yield) :
    ports.actions.size < (Behaviour.act maxLoops actor ports).ports.actions.size := by
  have hall := (act_spends hplain h).all rfl
  omega

/-- an attempt of a stock actor that makes progress has fired -/
theorem Instance.attempt_fires {inst inst' : Instance Component} (hplain : inst.actor.plain = true)
    (hloops : 1 ≤ maxLoops) (h : inst.attempt wires maxLoops = (wires', inst', .ok answer))
    (hexact : ∀ exit firing, answer = .ran exit firing → firing.fired = firing.actions.size) :
    answer.madeProgress.toNat ≤ answer.fired := by
  cases tries_of_attempt h with
  | ended | waits => exact le_rfl
  | @calls ports turn exit _ _ _ hturn hexit =>
    subst hturn
    by_cases hsome : (Behaviour.act maxLoops inst.actor ports).ports.firing.fired = 0
    · have hnever : (exit == .yield) = false := by
        refine beq_eq_false_iff_ne.2 ?_
        rintro rfl
        have hlt := Component.fires_of_yield hplain hloops hexit
        rw [hexact _ _ rfl] at hsome
        exact absurd hsome (Nat.ne_of_gt (Nat.zero_lt_of_lt hlt))
      simp [Attempt.madeProgress, hsome, hnever]
    · exact (Bool.toNat_le _).trans (Nat.one_le_iff_ne_zero.2 hsome)

end Attempts

/-! ## Networks of stock actors -/

namespace Plan

variable {P : Plan} {A : Counts} {k loopMax : Nat} {wires : List Connection} {insts : List (Instance Component)}
  {inst : Instance Component}

/-- tokens of their streams that instances have not moved yet -/
def left (P : Plan) (insts : List (Instance Component)) : Nat :=
  (insts.map fun inst => (P.stream inst.id).length - inst.stats.firings).sum

/-- instances between two attempts, with so many tokens left to move -/
structure Underway (P : Plan) (k : Nat) (wires : List Connection) (insts : List (Instance Component)) : Prop where
  described : ∃ A, P.Describes A ⟨wires, Overlap.resting insts⟩
  left : P.left insts = k
  told : ∀ inst ∈ insts, inst.Told

theorem Describes.resting_of_mem (h : P.Describes A ⟨wires, Overlap.resting insts⟩)
    (hinst : inst ∈ insts) : P.Resting A inst := by
  obtain ⟨j, hj⟩ := getElem?_of_mem hinst
  have hworker : (Overlap.resting insts)[j]? = some ⟨inst, .resting⟩ := by simp [Overlap.resting, hj]
  exact h.stands hworker

theorem Plays.plain {i fired : Nat} {actor : Component} (h : P.Plays i fired actor) : actor.plain = true := by
  cases h <;> rfl

theorem dwindles (P : Plan) (hloops : 1 ≤ loopMax) : Network.Dwindles loopMax P.Underway := by
  rintro k wires before after inst ⟨⟨A, hA⟩, rfl, htold⟩
  have hmem : inst ∈ before ++ inst :: after := mem_append_right _ mem_cons_self
  have hrest := hA.resting_of_mem hmem
  obtain ⟨wires', inst', answer, hattempt, hexact, -⟩ := hrest.attempts hA.live loopMax
  have hworker : (Overlap.resting (before ++ inst :: after))[before.length]? = some ⟨inst, .resting⟩ :=
    by simp [Overlap.resting]
  have hput : Overlap.put wires' ⟨wires, Overlap.resting (before ++ inst :: after)⟩ before.length inst' .resting =
      ⟨wires', Overlap.resting (before ++ inst' :: after)⟩ := by
    simp [Overlap.put, Overlap.resting]
  obtain ⟨A', hA', -⟩ := hA.run (Overlap.attemptOps before.length loopMax)
  rw [Overlap.run_attempt hworker hattempt, hput] at hA'
  -- firings grow by what the attempt fired, and stay within the stream
  obtain ⟨hid, hfirings⟩ := Instance.attempt_counts hattempt
  have hfires := Instance.attempt_fires hrest.plays.plain hloops hattempt hexact
  have hfired := (hA'.resting_of_mem (mem_append_right before (mem_cons_self))).firings
  have hwithin := hA'.live.within inst'.id
  refine ⟨_, wires', inst', answer, hattempt, ⟨⟨A', hA'⟩, rfl, ?_⟩, ?_⟩
  · simp only [forall_mem_append, forall_mem_cons] at htold ⊢
    exact ⟨htold.1, Instance.attempt_told hattempt htold.2.1, htold.2.2⟩
  · rw [← hfired, hid] at hwithin
    simp only [left, map_append, map_cons, sum_append, sum_cons, hid]
    omega

end Plan

/-- tokens that all instances together can ever move -/
def Builder.workload (b : Builder Component) : Nat :=
  ((List.range b.instances.length).map fun i => (b.referenceStream i).length).sum

/-- a network that is built has all its tokens to move -/
theorem Builder.underway_of_build {b : Builder Component} {mapping : Option Mapping} {n : Network Component}
    (hmade : b.Made) (hlib : b.Library) (hbuild : b.build mapping = .ok n) :
    ∃ P : Plan, P.roles.length = b.instances.length ∧ P.Underway b.workload n.wires n.instances := by
  obtain ⟨P, hroles, hstream, hstart, -⟩ := hmade.exists_plan hlib rfl hbuild hbuild
  obtain ⟨ws, -, hbuilt⟩ := built_of_build hbuild
  refine ⟨P, by rw [hroles, hlib.length_roles], ⟨_, hstart⟩, ?_, fun inst hinst => ?_⟩
  · calc P.left n.instances
        = (n.instances.map fun inst => (b.referenceStream inst.id).length).sum := by
          refine congrArg sum (map_congr_left fun inst hinst => ?_)
          rw [(hstart.resting_of_mem hinst).firings, hstream]
          rfl
      _ = ((n.instances.map (·.id)).map fun i => (b.referenceStream i).length).sum := by rw [map_map]; rfl
      _ = b.workload := (hbuilt.ids.map _).sum_eq
  · obtain ⟨d, -, hplaced⟩ := hbuilt.placed inst hinst
    rw [Instance.Told, hplaced.fresh]
    simp

/-- whoever has terminated has said so -/
theorem Network.allTerminated_iff_told {σ : Type} {n : Network σ} (h : ∀ inst ∈ n.instances, inst.Told) :
    n.allTerminated = true ↔ ∀ inst ∈ n.instances, inst.lastExit = some .terminate := by
  rw [← Overlap.allTerminated_start, all_eq_true]
  simp only [Overlap.start, forall_mem_map]
  exact forall₂_congr h

/-- **Runs of library actors end**, and say how. -/
theorem library_runs_end {b : Builder Component} {mapping : Option Mapping} {n : Network Component} (hmade : b.Made)
    (hlib : b.Library) (hbuild : b.build mapping = .ok n) {config : RunConfig} (hloops : 1 ≤ config.loopMax)
    (hlimit : config.maxPasses = none) :
    ∃ result summary, (∀ fuel, b.workload < fuel → n.runInline config fuel = result) ∧
      result.ended = .finished summary ∧
      (∀ p ∈ summary.partitions, p.passes ≤ b.workload + 1) ∧
      (result.network.instances.map (·.id)).Perm (List.range b.instances.length) ∧
      (summary.outcome = .allTerminated ↔ ∀ inst ∈ result.network.instances, inst.lastExit = some .terminate) ∧
      (summary.outcome = .quiescent ↔ ∃ inst ∈ result.network.instances, inst.lastExit ≠ some .terminate) := by
  obtain ⟨P, hroles, hstart⟩ := Builder.underway_of_build hmade hlib hbuild
  have hfresh : ∀ p ∈ (Leg.start n).stats, p.passes ≤ 0 := by simp [Leg.start, Network.freshStats]
  obtain ⟨last, k, hrun, ⟨⟨A, hA⟩, -, htold⟩, hpasses⟩ :=
    (P.dwindles hloops).run hlimit (Leg.even_start n) hfresh hstart (Nat.lt_succ_self _) 0
  rw [← Leg.runInline_eq] at hrun
  have hids := hA.ids
  rw [hroles] at hids
  have hall := Network.allTerminated_iff_told htold
  generalize houtcome : (if last.network.allTerminated then RunOutcome.allTerminated else .quiescent) = outcome at hrun
  refine ⟨last.finish outcome, { outcome, partitions := last.stats }, fun fuel hfuel => ?_, rfl,
    fun p hp => (hpasses p hp).trans_eq (by rw [Nat.zero_add]), ?_, ?_, ?_⟩
  · obtain ⟨more, rfl⟩ := Nat.exists_eq_add_of_le (Nat.succ_le_of_lt hfuel)
    rw [Network.runInline_more (by rw [hrun]; exact RunEnd.noConfusion), hrun]
  · simpa [Overlap.resting, Leg.finish, Function.comp_def] using hids
  · simp [← houtcome, ← hall, Leg.finish]
  · have hrest : last.network.allTerminated = false ↔ ∃ inst ∈ last.network.instances,
      inst.lastExit ≠ some .terminate := by
      rw [← Bool.not_eq_true, hall]
      push Not
      rfl
    simp [← houtcome, hrest, Leg.finish]

/-- the fork has twenty tokens to move; it comes to rest before, because the sink that takes two of them stops its
source -/
theorem library_runs_end_fork :
    ∃ result summary, (∀ fuel, 20 < fuel → (forkNetwork none).runInline { loopMax := 1 } fuel = result) ∧
      result.ended = .finished summary ∧ summary.outcome = .quiescent ∧
      ∃ inst ∈ result.network.instances, inst.lastExit ≠ some .terminate := by
  have hbuild : (fork none).build none = .ok (forkNetwork none) := rfl
  obtain ⟨s, hs, hquiescent⟩ : ∃ s, ((forkNetwork none).runInline { loopMax := 1 } 21).ended = .finished s ∧
    s.outcome = .quiescent :=
    ⟨_, rfl, by decide +kernel⟩
  obtain ⟨result, summary, hrun, hended, -, -, -, hrest⟩ :=
    @library_runs_end _ none _ (fork_made none) (fork_library none) hbuild { loopMax := 1 } le_rfl rfl
  rw [hrun 21 (by decide), hended] at hs
  cases hs
  exact ⟨result, s, hrun, hended, hquiescent, hrest.1 hquiescent⟩

end Dataflow
