import Dataflow.Proofs.RunAccounting

/-!
A pass limit splits a run and changes nothing else. One round ends a `Leg` of a run or leads to the next (`Leg.round`),
and with earlier counters and records behind it a leg makes the same rounds (`Leg.round_after`).

- `pass_limits_split_runs`: take a run on one thread that comes back for its pass limit, and the run that goes on from
  there with another limit or with none. The run with both limits added comes back exactly if the second does. It leaves
  the same network, and its records are those of the first and then those of the second. It ends as the second does, and
  its counters are the sums of both. No run has two results.
- Witness `pass_limits_split_runs_fork`.
-/

namespace Dataflow

/-! ## Counters of two runs -/

/-- the counters of two runs of one partition -/
def PartitionStats.plus (a b : PartitionStats) : PartitionStats :=
  { a with passes := a.passes + b.passes, attempts := a.attempts + b.attempts, firings := a.firings + b.firings }

theorem PartitionStats.absorb_plus (a b : PartitionStats) (tally : PassTally) :
    (a.plus b).absorb tally = a.plus (b.absorb tally) := by
  simp [absorb, plus, Nat.add_assoc]

/-- the end of a run with the counters of an earlier one added -/
def RunEnd.after (stats : List PartitionStats) : RunEnd → RunEnd
  | .finished summary =>
    .finished { summary with partitions := List.zipWith PartitionStats.plus stats summary.partitions }
  | .stopped stop => .stopped stop
  | .unfinished => .unfinished

/-- what two runs leave behind: the network of the second, the records of both, and the end of the second with the
counters of both -/
def RunResult.after {σ : Type} (stats : List PartitionStats) (records : List FiringRecord)
    (r : RunResult σ) : RunResult σ :=
  ⟨r.network, records ++ r.records, r.ended.after stats⟩

theorem RunEnd.after_eq_unfinished {stats : List PartitionStats} {e : RunEnd} :
    e.after stats = .unfinished ↔ e = .unfinished := by
  cases e <;> simp [after]

/-! ## Rounds -/

/-- a run between two rounds -/
structure Leg (σ : Type) where
  network : Network σ
  stats : List PartitionStats
  records : List FiringRecord

namespace Leg

variable {σ : Type} [Behaviour σ] {config : RunConfig} {s : Leg σ} {stats : List PartitionStats}
  {records : List FiringRecord} {fuel loopMax : Nat} {summary : RunSummary}

def start (n : Network σ) : Leg σ := ⟨n, n.freshStats, []⟩

def finish (s : Leg σ) (outcome : RunOutcome) : RunResult σ :=
  ⟨s.network, s.records, .finished { outcome, partitions := s.stats }⟩

/-- a leg with an earlier run behind it -/
def after (stats : List PartitionStats) (records : List FiringRecord) (s : Leg σ) : Leg σ :=
  ⟨s.network, List.zipWith PartitionStats.plus stats s.stats, records ++ s.records⟩

/-- one pass over all partitions -/
def passes (loopMax : Nat) (s : Leg σ) : Network.Round σ :=
  Network.round loopMax s.network.wires s.network.partitions s.stats

/-- where they lead -/
def next (loopMax : Nat) (s : Leg σ) : Leg σ :=
  ⟨{ s.network with wires := (s.passes loopMax).wires, partitions := (s.passes loopMax).partitions },
    (s.passes loopMax).stats, s.records ++ (s.passes loopMax).records⟩

/-- one round: the run ends, or there is another leg -/
def round (loopMax : Nat) (s : Leg σ) : RunResult σ ⊕ Leg σ :=
  match (s.passes loopMax).fault with
  | some f => .inl ⟨(s.next loopMax).network, (s.next loopMax).records, .stopped (.fault f)⟩
  | none =>
    if (s.next loopMax).network.allTerminated then .inl ((s.next loopMax).finish .allTerminated)
    else if (s.passes loopMax).progress then .inr (s.next loopMax)
    else .inl ((s.next loopMax).finish .quiescent)

def run (config : RunConfig) : Nat → Nat → Leg σ → RunResult σ
  | 0, _, s => ⟨s.network, s.records, .unfinished⟩
  | fuel + 1, passes, s =>
    if config.maxPasses.any (· ≤ passes) then s.finish .passLimit
    else (s.round config.loopMax).elim id (run config fuel (passes + 1))

/-- these are the rounds of a run on one thread -/
theorem run_eq (config : RunConfig) (fuel passes : Nat) (s : Leg σ) :
    s.run config fuel passes = Network.runRounds id config fuel passes s.network s.stats s.records.toArray := by
  induction fuel generalizing passes s with
  | zero => simp [run, Network.runRounds]
  | succ fuel ih =>
    unfold run Network.runRounds
    split
    · simp [finish]
    simp only [round, next, Leg.passes, id]
    cases (Network.round config.loopMax s.network.wires s.network.partitions s.stats).fault with
    | some f => simp
    | none =>
      by_cases hall : ({ s.network with
          wires := (Network.round config.loopMax s.network.wires s.network.partitions s.stats).wires
          partitions := (Network.round config.loopMax s.network.wires s.network.partitions s.stats).partitions } :
            Network σ).allTerminated = true
      · simp [finish, hall]
      · by_cases hprogress : (Network.round config.loopMax s.network.wires s.network.partitions s.stats).progress = true
        · simp [hall, hprogress, ih]
        · simp [finish, hall, hprogress]

theorem runInline_eq (config : RunConfig) (fuel : Nat) (n : Network σ) :
    n.runInline config fuel = (start n).run config fuel 0 :=
  (run_eq config fuel 0 (start n)).symm

/-- more fuel keeps an answer -/
theorem run_more {passes : Nat} (h : (s.run config fuel passes).ended ≠ .unfinished) (more : Nat) :
    s.run config (fuel + more) passes = s.run config fuel passes := by
  induction fuel generalizing passes s with
  | zero => exact absurd rfl h
  | succ fuel ih =>
    rw [Nat.add_right_comm]
    unfold run at h ⊢
    split at h
    · next hlimit => rw [if_pos hlimit, if_pos hlimit]
    next hlimit =>
    rw [if_neg hlimit, if_neg hlimit]
    cases hround : s.round config.loopMax with
    | inl r => rfl
    | inr next =>
      rw [hround] at h
      exact ih h

/-! ## A run that goes on -/

theorem round_stats_length (loopMax : Nat) (wires : List Connection) (partitions : List (Partition σ))
    (stats : List PartitionStats) : (Network.round loopMax wires partitions stats).stats.length = stats.length := by
  induction partitions generalizing wires stats with
  | nil => rfl
  | cons p partitions ih =>
    cases stats with
    | nil => rfl
    | cons s stats =>
      cases hfault : (Network.pass p.name loopMax wires p.instances).fault with
      | some f => rw [Overlap.round_cons_fault hfault]
      | none =>
        rw [Overlap.round_cons hfault]
        exact congrArg (· + 1) (ih (Network.pass p.name loopMax wires p.instances).wires stats)

/-- counters of an earlier run change nothing in a round but the counters -/
theorem round_plus (loopMax : Nat) (wires : List Connection) (partitions : List (Partition σ))
    {earlier : List PartitionStats} (h : earlier.length = stats.length) :
    Network.round loopMax wires partitions (List.zipWith PartitionStats.plus earlier stats) =
      { Network.round loopMax wires partitions stats with
        stats := List.zipWith PartitionStats.plus earlier (Network.round loopMax wires partitions stats).stats } := by
  induction partitions generalizing wires earlier stats with
  | nil => rfl
  | cons p partitions ih =>
    cases earlier with
    | nil =>
      obtain rfl := List.eq_nil_of_length_eq_zero h.symm
      rfl
    | cons e earlier =>
      obtain ⟨s, stats, rfl⟩ := List.exists_cons_of_length_eq_add_one h.symm
      rw [List.zipWith_cons_cons]
      cases hfault : (Network.pass p.name loopMax wires p.instances).fault with
      | some f => rw [Overlap.round_cons_fault hfault, Overlap.round_cons_fault hfault]; rfl
      | none =>
        rw [Overlap.round_cons hfault, Overlap.round_cons hfault]
        dsimp only
        rw [ih _ (by simpa using h), PartitionStats.absorb_plus]
        rfl

theorem passes_after (loopMax : Nat) (records : List FiringRecord) (h : stats.length = s.stats.length) :
    (s.after stats records).passes loopMax =
      { s.passes loopMax with stats := List.zipWith PartitionStats.plus stats (s.passes loopMax).stats } :=
  round_plus loopMax s.network.wires s.network.partitions h

theorem next_after (loopMax : Nat) (records : List FiringRecord) (h : stats.length = s.stats.length) :
    (s.after stats records).next loopMax = (s.next loopMax).after stats records := by
  rw [next, passes_after loopMax records h]
  simp [after, next]

/-- a round with an earlier run behind it -/
theorem round_after (loopMax : Nat) (records : List FiringRecord) (h : stats.length = s.stats.length) :
    (s.after stats records).round loopMax = (s.round loopMax).map (RunResult.after stats records)
    (after stats records) := by
  rw [round, round, next_after loopMax records h, passes_after loopMax records h]
  cases (s.passes loopMax).fault with
  | some f => rfl
  | none =>
    have hsame : ((s.next loopMax).after stats records).network.allTerminated =
      (s.next loopMax).network.allTerminated := rfl
    simp only [hsame]
    split
    · rfl
    split <;> rfl

/-- a round without a fault -/
theorem round_eq (h : (s.passes loopMax).fault = none) :
    s.round loopMax = if (s.next loopMax).network.allTerminated then .inl ((s.next loopMax).finish .allTerminated)
      else if (s.passes loopMax).progress then .inr
      (s.next loopMax) else .inl ((s.next loopMax).finish .quiescent) := by
  rw [round, h]

theorem round_eq_inr {t : Leg σ} (h : s.round loopMax = .inr t) : t = s.next loopMax := by
  unfold round at h
  split at h
  · cases h
  split at h
  · cases h
  split at h
  · cases h
    rfl
  · cases h

/-- a round does not end a run for its limit -/
theorem round_eq_inl {r : RunResult σ} (h : s.round loopMax = .inl r)
    (hended : r.ended = .finished summary) : summary.outcome ≠ .passLimit := by
  unfold round at h
  split at h
  · cases h
    cases hended
  split at h
  · cases h
    cases hended
    simp
  split at h
  · cases h
  · cases h
    cases hended
    simp

theorem any_map_add (limit : Option Nat) (k passes : Nat) :
    (limit.map (k + ·)).any (· ≤ k + passes) = limit.any (· ≤ passes) := by
  cases limit <;> simp

/-- a run with an earlier run behind it, whose passes count as well -/
theorem run_after (limit : Option Nat) (fuel k passes : Nat) (records : List FiringRecord)
    (h : stats.length = s.stats.length) :
    (s.after stats records).run { config with maxPasses := limit.map (k + ·) } fuel (k + passes) =
      (s.run { config with maxPasses := limit } fuel passes).after stats records := by
  induction fuel generalizing passes s with
  | zero => rfl
  | succ fuel ih =>
    unfold run
    rw [any_map_add, round_after _ _ h]
    split
    · rfl
    cases hround : s.round config.loopMax with
    | inl r => rfl
    | inr t =>
      obtain rfl := round_eq_inr hround
      exact ih (passes + 1) (h.trans (round_stats_length config.loopMax _ _ _).symm)

/-- as many counters as partitions -/
def Even (s : Leg σ) : Prop := s.stats.length = s.network.partitions.length

omit [Behaviour σ] in
theorem even_start (n : Network σ) : (start n).Even := by simp [Even, start, Network.freshStats]

omit [Behaviour σ] in
/-- a leg is a start with what went before behind it -/
theorem Even.eq_after (h : s.Even) : s = (start s.network).after s.stats s.records := by
  have hstats : List.zipWith PartitionStats.plus s.stats s.network.freshStats = s.stats := by
    refine List.ext_getElem (by simpa [Network.freshStats] using h.le) fun i hi hi' => ?_
    simp [Network.freshStats, PartitionStats.plus]
  rw [after, start, hstats, List.append_nil]

theorem Even.next (h : s.Even) (loopMax : Nat) : (s.next loopMax).Even := Overlap.round_counts h

/-- a run that its limit ends stands between two rounds, and a run with a later limit goes on from there -/
theorem run_limit {k passes : Nat} (heven : s.Even)
    (hended : (s.run { config with maxPasses := some k } fuel passes).ended = .finished summary)
    (hlimit : summary.outcome = .passLimit) (hpasses : passes ≤ k) :
    ∃ m : Leg σ, m.Even ∧ s.run { config with maxPasses := some k } fuel passes = m.finish .passLimit ∧
      ∀ (limit : Option Nat) more, s.run { config with maxPasses := limit.map (k + ·) } (k - passes + more) passes =
        m.run { config with maxPasses := limit.map (k + ·) } more k := by
  induction fuel generalizing passes s with
  | zero => cases hended
  | succ fuel ih =>
    unfold run at hended
    split at hended
    · next hreached =>
      obtain rfl : passes = k := le_antisymm hpasses (by simpa using hreached)
      refine ⟨s, heven, ?_, fun limit more => ?_⟩
      · rw [run, if_pos hreached]
      · rw [Nat.sub_self, Nat.zero_add]
    next hbefore =>
    have hlt : passes < k := by simpa using hbefore
    cases hround : s.round config.loopMax with
    | inl r =>
      rw [hround] at hended
      exact absurd hlimit (round_eq_inl hround hended)
    | inr t =>
      rw [hround] at hended
      obtain rfl := round_eq_inr hround
      obtain ⟨m, hm, hrun, hmore⟩ := ih (heven.next config.loopMax) hended hlt
      refine ⟨m, hm, ?_, fun limit more => ?_⟩
      · rw [run, if_neg hbefore, hround]
        exact hrun
      · have hgoes : ¬ (limit.map (k + ·)).any (· ≤ passes) = true := by
          cases limit with
          | none => simp
          | some j => simpa using by omega
        have hfuel : k - passes + more = k - (passes + 1) + more + 1 := by omega
        rw [hfuel, run, if_neg hgoes, hround]
        exact hmore limit more

end Leg

/-! ## Two runs and one -/

namespace Network

variable {σ : Type} [Behaviour σ] {n : Network σ} {config : RunConfig} {r r' : RunResult σ}

/-- a run on one thread comes back with this result, however much fuel that takes -/
def Returns (n : Network σ) (config : RunConfig) (r : RunResult σ) : Prop :=
  ∃ fuel, n.runInline config fuel = r ∧ r.ended ≠ .unfinished

theorem runInline_more {fuel : Nat} (h : (n.runInline config fuel).ended ≠ .unfinished) (more : Nat) :
    n.runInline config (fuel + more) = n.runInline config fuel := by
  rw [Leg.runInline_eq] at h ⊢
  rw [Leg.run_more h, Leg.runInline_eq]

/-- a run comes back in one way only -/
theorem Returns.unique (h : n.Returns config r) (h' : n.Returns config r') : r = r' := by
  obtain ⟨fuel, rfl, hr⟩ := h
  obtain ⟨fuel', rfl, hr'⟩ := h'
  rw [← runInline_more hr fuel', Nat.add_comm, runInline_more hr' fuel]

end Network

/-- A run in two parts is the run with both limits added. -/
theorem pass_limits_split_runs {σ : Type} [Behaviour σ] {n : Network σ} {config : RunConfig} {k : Nat}
    {first : RunResult σ} {summary : RunSummary} (hfirst : n.Returns { config with maxPasses := some k } first)
    (hended : first.ended = .finished summary) (hlimit : summary.outcome = .passLimit) (limit : Option Nat) :
    (∀ whole, n.Returns { config with maxPasses := limit.map (k + ·) } whole ↔
      ∃ second, first.network.Returns { config with maxPasses := limit } second ∧
        whole = second.after summary.partitions first.records) ∧
    ∀ whole whole', n.Returns { config with maxPasses := limit.map (k + ·) } whole →
      n.Returns { config with maxPasses := limit.map (k + ·) } whole' → whole = whole' := by
  obtain ⟨fuel, rfl, -⟩ := hfirst
  rw [Leg.runInline_eq] at hended ⊢
  obtain ⟨m, hm, hrun, hmore⟩ := Leg.run_limit (Leg.even_start n) hended hlimit (Nat.zero_le k)
  rw [hrun] at hended ⊢
  cases hended
  -- with enough fuel for the first part, the whole run is the second with the first behind it
  have hwhole : ∀ more, n.runInline { config with maxPasses := limit.map (k + ·) } (k + more) =
      (m.network.runInline { config with maxPasses := limit } more).after m.stats m.records := by
    intro more
    have hlen : m.stats.length = (Leg.start m.network).stats.length := hm.trans (Leg.even_start m.network).symm
    calc n.runInline { config with maxPasses := limit.map (k + ·) } (k + more)
        = m.run { config with maxPasses := limit.map (k + ·) } more k := by
          rw [Leg.runInline_eq]
          exact hmore limit more
      _ = ((Leg.start m.network).after m.stats m.records).run
            { config with maxPasses := limit.map (k + ·) } more (k + 0) := by
          rw [← hm.eq_after, Nat.add_zero]
      _ = (m.network.runInline { config with maxPasses := limit } more).after m.stats m.records := by
          rw [Leg.run_after limit more k 0 m.records hlen, Leg.runInline_eq]
  refine ⟨fun whole => ⟨?_, ?_⟩, fun _ _ h h' => h.unique h'⟩
  · rintro ⟨more, rfl, hback⟩
    have heq := hwhole more
    rw [Nat.add_comm, Network.runInline_more hback] at heq
    refine ⟨_, ⟨more, rfl, fun hnot => hback ?_⟩, heq⟩
    rw [heq]
    exact RunEnd.after_eq_unfinished.2 hnot
  · rintro ⟨_, ⟨more, rfl, hback⟩, rfl⟩
    exact ⟨k + more, hwhole more, fun hnot => hback (RunEnd.after_eq_unfinished.1 hnot)⟩

/-- what goes on with the fork that was paused, one firing at a time -/
def forkContinued : RunResult Component := forkPaused.network.runInline { loopMax := 1 } 20

/-- the fork without a pause -/
def forkWhole : RunResult Component := (forkNetwork none).runInline { loopMax := 1 } 20

/-- four passes with eleven firings are one pass with four and three with seven -/
theorem pass_limits_split_runs_fork :
    forkWhole.network = forkContinued.network ∧ forkWhole.records = forkPaused.records ++ forkContinued.records ∧
    ∃ s t u, forkPaused.ended = .finished s ∧ forkContinued.ended = .finished t ∧ forkWhole.ended = .finished u ∧
      s.outcome = .passLimit ∧ t.outcome = .quiescent ∧ u.outcome = .quiescent ∧
      s.partitions.map (fun p => (p.passes, p.firings)) = [(1, 4)] ∧
      t.partitions.map (fun p => (p.passes, p.firings)) = [(3, 7)] ∧
      u.partitions.map (fun p => (p.passes, p.firings)) = [(4, 11)] ∧
      u.partitions = List.zipWith PartitionStats.plus s.partitions t.partitions := by
  obtain ⟨s, hs, hlimit, hcounts⟩ : ∃ s, forkPaused.ended = .finished s ∧ s.outcome = .passLimit ∧
      s.partitions.map (fun p => (p.passes, p.firings)) = [(1, 4)] := ⟨_, rfl, rfl, rfl⟩
  obtain ⟨t, ht, houtcome, hcounts'⟩ : ∃ t, forkContinued.ended = .finished t ∧ t.outcome = .quiescent ∧
      t.partitions.map (fun p => (p.passes, p.firings)) = [(3, 7)] := ⟨_, rfl, rfl, rfl⟩
  obtain ⟨u, hu, hsum⟩ : ∃ u, forkWhole.ended = .finished u ∧
      u.partitions.map (fun p => (p.passes, p.firings)) = [(4, 11)] := ⟨_, rfl, rfl⟩
  have hfirst : (forkNetwork none).Returns { loopMax := 1, maxPasses := some 1 } forkPaused := ⟨5, rfl, by simp [hs]⟩
  have hwhole : (forkNetwork none).Returns { loopMax := 1 } forkWhole := ⟨20, rfl, by simp [hu]⟩
  have hcontinued : forkPaused.network.Returns { loopMax := 1 } forkContinued := ⟨20, rfl, by simp [ht]⟩
  generalize forkWhole = whole at *
  obtain ⟨hiff, -⟩ := @pass_limits_split_runs _ _ _ { loopMax := 1 } 1 _ _ hfirst hs hlimit none
  obtain ⟨second, hsecond, rfl⟩ := (hiff whole).1 hwhole
  obtain rfl := hsecond.unique hcontinued
  have hended := hu
  rw [RunResult.after, ht] at hended
  cases hended
  exact ⟨rfl, rfl, s, t, _, hs, ht, hu, hlimit, houtcome, houtcome, hcounts, hcounts', hsum, rfl⟩

end Dataflow
