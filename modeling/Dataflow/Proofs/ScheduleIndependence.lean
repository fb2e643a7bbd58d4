import Dataflow.Proofs.CompleteRuns

/-!
The schedule does not matter. One complete run bounds every other: where everybody is held, the first instance to
overtake it has neither tokens nor room for one more firing.

- `schedule_does_not_matter`: any two complete runs (`Network.Completes`), of builders that differ only in hints and
  with any mappings, come to the same outcome, with the same totals and unread tokens on every connection, the same
  firings and ends of every instance and the same tokens in the sinks (`Overlap.Agrees`).
- Witness `schedule_does_not_matter_fork`.

Premises: sources, scalers and sinks (`Builder.Library`). The attempts of the threads overlap in any way (`Overlap`).
-/

namespace Dataflow

/-- two states that show the same at the end of a run -/
structure Overlap.Agrees (F F' : Overlap Component) : Prop where
  /-- tokens written, by connection -/
  produced : F.wires.map (·.produced) = F'.wires.map (·.produced)
  /-- tokens that each reader has not read, by connection -/
  pending : F.wires.map (·.pendingCounts) = F'.wires.map (·.pendingCounts)
  firings : ∀ i, F.firings? i = F'.firings? i
  terminated : ∀ i, F.terminated? i = F'.terminated? i
  tokens : ∀ i, F.tokens? i = F'.tokens? i

namespace Plan

variable {P : Plan} {f : Nat → Nat} {F F' : Overlap Component}

theorem Shows.workers (h : P.Shows f F) (h' : P.Shows f F') (i : Nat) : (F.worker? i = none ∧ F'.worker? i = none) ∨
    ∃ x x', F.worker? i = some x ∧ F'.worker? i = some x' ∧ x ∈ F.workers ∧ x' ∈ F'.workers ∧
    x.inst.id = i ∧ x'.inst.id = i := by
  by_cases hi : i ∈ List.range P.roles.length
  · obtain ⟨x, hx⟩ := Overlap.exists_worker? (h.ids.mem_iff.2 hi)
    obtain ⟨x', hx'⟩ := Overlap.exists_worker? (h'.ids.mem_iff.2 hi)
    obtain ⟨hmem, hid⟩ := Overlap.of_worker? hx
    obtain ⟨hmem', hid'⟩ := Overlap.of_worker? hx'
    exact .inr ⟨x, x', hx, hx', hmem, hmem', hid, hid'⟩
  · exact .inl ⟨Overlap.worker?_eq_none fun hmem => hi (h.ids.mem_iff.1 hmem),
      Overlap.worker?_eq_none fun hmem => hi (h'.ids.mem_iff.1 hmem)⟩

theorem Shows.agrees (h : P.Shows f F) (h' : P.Shows f F') : F.Agrees F' := by
  refine ⟨h.produced.trans h'.produced.symm, h.pending.trans h'.pending.symm, fun i => ?_, fun i => ?_, fun i => ?_⟩ <;>
    rcases h.workers h' i with ⟨hx, hx'⟩ | ⟨x, x', hx, hx', hmem, hmem', rfl, hid⟩
  · rw [Overlap.firings?, Overlap.firings?, hx, hx']
  · rw [Overlap.firings?, Overlap.firings?, hx, hx', Option.map_some, Option.map_some,
      h.firings x hmem, h'.firings x' hmem', hid]
  · rw [Overlap.terminated?, Overlap.terminated?, hx, hx']
  · have heq : x.inst.terminated = x'.inst.terminated := by
      rw [Bool.eq_iff_iff, h.terminated x hmem, h'.terminated x' hmem', hid]
    rw [Overlap.terminated?, Overlap.terminated?, hx, hx', Option.map_some, Option.map_some, heq]
  · rw [Overlap.tokens?, Overlap.tokens?, hx, hx']
  · rw [Overlap.tokens?, Overlap.tokens?, hx, hx', Option.bind_some, Option.bind_some,
      h.tokens x hmem, h'.tokens x' hmem', hid]

theorem Shows.all_terminated (h : P.Shows f F) :
    F.workers.all (·.inst.terminated) = true ↔ ∀ i < P.roles.length, P.Finished i (f i) := by
  rw [List.all_eq_true]
  constructor
  · intro hall i hi
    obtain ⟨x, hx, rfl⟩ := List.mem_map.1 (h.ids.mem_iff.2 (List.mem_range.2 hi))
    exact (h.terminated x hx).1 (hall x hx)
  · intro hall x hx
    exact (h.terminated x hx).2 (hall _ (List.mem_range.1 (h.ids.mem_iff.1 (List.mem_map_of_mem hx))))

theorem Shows.outcome_eq (h : P.Shows f F) (h' : P.Shows f F') : F.outcome = F'.outcome := by
  have heq : F.workers.all (·.inst.terminated) = F'.workers.all (·.inst.terminated) := by
    rw [Bool.eq_iff_iff, h.all_terminated, h'.all_terminated]
  rw [Overlap.outcome, Overlap.outcome, heq]

end Plan

/-- any two complete runs of a network of stock actors end alike, whatever the placement and the order of attempts -/
theorem schedule_does_not_matter {b b' : Builder Component} {mapping mapping' : Option Mapping}
    {n n' : Network Component} {F F' : Overlap Component} {outcome outcome' : RunOutcome} (hmade : b.Made)
    (hlib : b.Library) (hsame : b.unplaced = b'.unplaced) (hbuild : b.build mapping = .ok n)
    (hbuild' : b'.build mapping' = .ok n') (hrun : n.Completes F outcome) (hrun' : n'.Completes F' outcome') :
    F.Agrees F' ∧ outcome = outcome' := by
  obtain ⟨P, -, -, hstart, hstart'⟩ := hmade.exists_plan hlib hsame hbuild hbuild'
  obtain ⟨ops, rfl, hc, rfl⟩ := hstart.overlapping hrun
  obtain ⟨ops', rfl, hc', rfl⟩ := hstart'.overlapping hrun'
  obtain ⟨f, hshows, hshows'⟩ := hstart.fired_unique hstart' hc hc'
  exact ⟨hshows.agrees hshows', hshows.outcome_eq hshows'⟩

/-! ## An instance -/

/-- five numbers go to a sink that takes two of them, and doubled to a sink that takes all; the hint places the
scaler -/
def fork (hint : Option String) : Builder Component where
  instances := [⟨"numbers", .source { feed := .range 1 5 }, none⟩, ⟨"two", .sink { limit := some 2 }, none⟩,
    ⟨"twice", .scale ⟨2⟩, hint⟩, ⟨"all", .sink {}, none⟩]
  links := [⟨⟨0, 0⟩, ⟨1, 0⟩, some 1⟩, ⟨⟨0, 0⟩, ⟨2, 0⟩, none⟩, ⟨⟨2, 0⟩, ⟨3, 0⟩, some 1⟩]
  defaultDepth := 1

theorem fork_made (hint : Option String) : (fork hint).Made := Builder.made_of_again (b := fork hint) rfl

theorem fork_library (hint : Option String) : (fork hint).Library := by
  simp [Builder.Library, fork, Component.Stock, Feed.numbers, Word.size32]

def forkNetwork (hint : Option String) : Network Component := ((fork hint).build none).toOption.getD ⟨[], [], []⟩

/-- on one thread with one firing per call, or on two threads with as many as there can be: the sinks hold the same -/
theorem schedule_does_not_matter_fork :
    (Overlap.start ((forkNetwork none).run { loopMax := 1 } 20).network).Agrees
      (Overlap.start ((forkNetwork (some "apart")).run {} 100).network) := by
  have hinline : ∃ s, ((forkNetwork none).run { loopMax := 1 } 20).ended = .finished s ∧ s.outcome ≠ .passLimit :=
    ⟨_, rfl, by decide⟩
  have hthreaded : ∃ s, ((forkNetwork (some "apart")).run {} 100).ended = .finished s ∧ s.outcome ≠ .passLimit :=
    ⟨_, rfl, by decide⟩
  obtain ⟨s, hend, hlimit⟩ := hinline
  obtain ⟨s', hend', hlimit'⟩ := hthreaded
  have hsame : (fork none).unplaced = (fork (some "apart")).unplaced := rfl
  have hbuild : (fork none).build none = .ok (forkNetwork none) := rfl
  have hbuild' : (fork (some "apart")).build none = .ok (forkNetwork (some "apart")) := rfl
  exact (schedule_does_not_matter (fork_made none) (fork_library none) hsame hbuild hbuild'
    (Network.completes_of_run hend hlimit) (Network.completes_of_run hend' hlimit')).1

end Dataflow
