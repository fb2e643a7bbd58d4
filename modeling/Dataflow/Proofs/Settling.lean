import Dataflow.Proofs.EagerRuns

/-!
Networks that come to rest.

By the laws of `Settling` a call with progress lowers a bound, and one without leaves its instance stuck. So an eager
run ends with everybody stuck, within as many rounds as the bound says and one (`Settling.runEager`).
-/

namespace Dataflow

open List

variable {σ : Type}

/-- a way to describe networks in which every call with progress leaves less to do -/
structure Settling (σ : Type) [Behaviour σ] (loopMax : Nat) where
  State : Type
  holds : State → List Connection → List (Instance σ) → Prop
  /-- bound on the calls with progress that are left -/
  left : State → Nat
  /-- has nothing to do -/
  stuck : State → Instance σ → Prop
  attempt : ∀ {s wires before inst after}, holds s wires (before ++ inst :: after) → inst.waiting = none →
    ∃ s' wires' inst' answer, inst.attempt wires loopMax = (wires', inst', .ok answer) ∧
      holds s' wires' (before ++ inst' :: after) ∧
      (answer.madeProgress = true ∧ left s' < left s ∨ answer.madeProgress = false ∧ s' = s ∧ stuck s inst')
  /-- what instances wait for does not count -/
  forget : ∀ {s wires insts}, holds s wires insts → holds s wires (insts.map Instance.forget)
  /-- somebody never terminates -/
  running : ∀ {s wires insts}, holds s wires insts → ∃ inst ∈ insts, inst.terminated = false

theorem Partition.instances_forget (partitions : List (Partition σ)) :
    (partitions.map forget).flatMap (·.instances) = (partitions.flatMap (·.instances)).map Instance.forget := by
  rw [flatMap_map, map_flatMap]
  rfl

namespace Settling

variable [Behaviour σ] {loopMax : Nat} {wires : List Connection} {stats : List PartitionStats} {n : Network σ}
  {config : RunConfig}

/-- what some calls come to -/
def Comes (S : Settling σ loopMax) (s s' : S.State) (progress : Bool) (insts : List (Instance σ)) : Prop :=
  progress = true ∧ S.left s' < S.left s ∨ progress = false ∧ s' = s ∧ ∀ inst ∈ insts, S.stuck s inst

theorem Comes.append {S : Settling σ loopMax} {s s1 s2 : S.State} {progress progress' : Bool}
    {insts insts' : List (Instance σ)} (h : S.Comes s s1 progress insts) (h' : S.Comes s1 s2 progress' insts') :
    S.Comes s s2 (progress || progress') (insts ++ insts') := by
  rcases h with ⟨rfl, hless⟩ | ⟨rfl, rfl, hstuck⟩
  · refine .inl ⟨Bool.true_or _, ?_⟩
    rcases h' with ⟨-, hless'⟩ | ⟨-, rfl, -⟩
    · exact hless'.trans hless
    · exact hless
  · rw [Bool.false_or]
    rcases h' with hmore | ⟨hnone, hsame, hstuck'⟩
    · exact .inl hmore
    · exact .inr ⟨hnone, hsame, forall_mem_append.2 ⟨hstuck, hstuck'⟩⟩

/-- calls of instances that wait for nothing -/
def course (S : Settling σ loopMax) : Course σ loopMax where
  State := S.State
  holds := S.holds
  fit inst := inst.waiting = none
  sure := True
  comes s s' progress _ insts := S.Comes s s' progress insts
  refl _ := Or.inr ⟨rfl, rfl, fun _ hnone => absurd hnone not_mem_nil⟩
  trans h h' := h.append h'
  attempt h hfit := by
    obtain ⟨s', wires', inst', answer, hattempt, h', hcomes⟩ := S.attempt h hfit
    refine .inr ⟨wires', inst', answer, hattempt, fun _ => ⟨s', h', hcomes.imp_right fun ⟨hnone, hsame, hstuck⟩ => ?_⟩⟩
    exact ⟨hnone, hsame, forall_mem_singleton.2 hstuck⟩

/-- somebody is left who has not terminated -/
theorem not_allTerminated (S : Settling σ loopMax) {s : S.State} (h : S.holds s n.wires n.instances) :
    n.allTerminated = false := by
  obtain ⟨inst, hinst, hrunning⟩ := S.running h
  obtain ⟨p, hp, hmem⟩ := mem_flatMap.1 hinst
  refine all_eq_false.2 ⟨p, hp, fun hall => ?_⟩
  rw [all_eq_true.1 hall inst hmem] at hrunning
  cases hrunning

/-- with more fuel than there is left to do, an eager run comes to rest -/
theorem runRounds (S : Settling σ config.loopMax) (hlimit : config.maxPasses = none) (fuel passes : Nat)
    {s : S.State} (records : Array FiringRecord)
    (hstats : stats.length = n.partitions.length) (h : S.holds s n.wires n.instances) (hfuel : S.left s < fuel) :
    ∃ s' summary, (Network.runRounds Network.forget config fuel passes n stats records).ended = .finished summary ∧
      summary.outcome = .quiescent ∧
      S.holds s' (Network.runRounds Network.forget config fuel passes n stats records).network.wires
        (Network.runRounds Network.forget config fuel passes n stats records).network.instances ∧
      ∀ inst ∈ (Network.runRounds Network.forget config fuel passes n stats records).network.instances,
        S.stuck s' inst := by
  induction fuel generalizing s n stats passes records with
  | zero => exact absurd hfuel (Nat.not_lt_zero _)
  | succ fuel ih =>
    have hforgotten : S.holds s n.wires ([] ++ (n.partitions.map Partition.forget).flatMap (·.instances)) := by
      rw [nil_append, Partition.instances_forget]
      exact S.forget h
    have hlen : stats.length = (n.partitions.map Partition.forget).length := by rw [hstats, length_map]
    have hwaiting : ∀ p ∈ n.partitions.map Partition.forget, ∀ inst ∈ p.instances, inst.waiting = none := by
      simp [Partition.forget, Instance.forget]
    obtain ⟨s1, hfault, h1, hcomes⟩ := S.course.round [] _ hlen hforgotten hwaiting (.inl trivial)
    have hlen1 : (Network.round config.loopMax n.wires (n.partitions.map Partition.forget) stats).stats.length =
        (Network.round config.loopMax n.wires (n.partitions.map Partition.forget) stats).partitions.length :=
        Overlap.round_counts hlen
    rw [Network.runRounds, hlimit]
    dsimp only [Network.forget]
    generalize Network.round config.loopMax n.wires (n.partitions.map Partition.forget) stats =
      r at hfault h1 hcomes hlen1 ⊢
    have hnext : S.holds s1 r.wires (r.partitions.flatMap (·.instances)) := h1
    have hterm := S.not_allTerminated (n := { n with wires := r.wires, partitions := r.partitions }) hnext
    simp only [Option.any_none, Bool.false_eq_true, if_false, hfault, hterm]
    rcases hcomes with ⟨hprogress, hless⟩ | ⟨hnone, rfl, hstuck⟩
    · rw [if_pos hprogress]
      exact ih _ _ hlen1 hnext (by omega)
    · rw [if_neg (by rw [hnone]; exact Bool.false_ne_true)]
      exact ⟨s1, _, rfl, rfl, hnext, hstuck⟩

/-- an eager run comes to rest, with everybody stuck -/
theorem runEager (S : Settling σ config.loopMax) (hlimit : config.maxPasses = none) {s : S.State}
    (h : S.holds s n.wires n.instances) {fuel : Nat} (hfuel : S.left s < fuel) :
    ∃ s' summary, (n.runEager config fuel).ended = .finished summary ∧ summary.outcome = .quiescent ∧
      S.holds s' (n.runEager config fuel).network.wires (n.runEager config fuel).network.instances ∧
      ∀ inst ∈ (n.runEager config fuel).network.instances, S.stuck s' inst :=
  S.runRounds hlimit fuel 0 #[] (by rw [Network.freshStats, length_map]) h hfuel

end Settling

end Dataflow
