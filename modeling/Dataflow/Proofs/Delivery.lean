import Dataflow.Proofs.CompleteRuns

/-!
Everything arrives, in order. Where everybody is held, a reader that lags behind its writer could only be held by a
reader of its own that lags even more.

- `everything_arrives`: nobody ever faults; every sink holds at all times a first part of its reference stream
  (`Builder.referenceStream`), and at the end of a complete run (`Network.Completes`) all of it, with every source
  terminated and every token read.
- Witness `everything_arrives_doubling`.

Premises: sources, scalers and sinks (`Builder.Library`), and no sink with a limit (`Builder.Unlimited`). The attempts
of the threads overlap in any way (`Overlap`).
-/

namespace Dataflow

open List

def Builder.Unlimited (b : Builder Component) : Prop := ∀ d ∈ b.instances, ∀ s, d.actor = .sink s → s.limit = none

namespace Builder

variable {b : Builder Component} {i : Nat}

theorem Unlimited.roles (h : b.Unlimited) (hlib : b.Library) {limit : Nat} :
    b.roles[i]? ≠ some (.sink (some limit)) := by
  intro hrole
  obtain ⟨⟨name, actor, affinity⟩, hd, hactor⟩ := hlib.declared hrole
  cases actor with
  | source s | scale s => cases hactor
  | sink s =>
    have hnone := h _ (mem_of_getElem? hd) s rfl
    simp [Component.role?, hnone] at hactor
  | bridge b | script s => cases hactor

theorem Library.role_of_actor (hlib : b.Library) {c : Component} {role : Role} (h : b.actor? i = some c)
    (hrole : c.role? = some role) : b.roles[i]? = some role := by
  obtain ⟨d, hd, rfl⟩ := Option.map_eq_some_iff.1 h
  rw [hlib.getElem?_roles, hd]
  exact hrole

end Builder

namespace Plan

variable {P : Plan} {A : Counts} {F : Overlap Component}

theorem Describes.not_faulted (h : P.Describes A F) : ∀ x ∈ F.workers, ∀ f, x.activity ≠ .faulted f := by
  intro x hx f hfaulted
  obtain ⟨k, hk⟩ := getElem?_of_mem hx
  have hstands := h.stands hk
  rw [Stands, hfaulted] at hstands
  exact hstands

/-- what a state shows in which everything has arrived -/
structure Delivered (P : Plan) (F : Overlap Component) : Prop where
  tokens : ∀ {i limit}, P.roles[i]? = some (.sink limit) → F.tokens? i = some (P.stream i)
  sources : ∀ {i numbers}, P.roles[i]? = some (.source numbers) → F.terminated? i = some true
  read : ∀ c ∈ F.wires, ∀ k ∈ c.pendingCounts, k = 0

/-- without limited sinks, everything has been delivered in a complete state -/
theorem Describes.delivered (h : P.Describes A F) (hc : F.Complete) (hunlimited : P.Unlimited) : P.Delivered F := by
  have hheld := h.held hc
  have hshows := h.shows hc
  refine ⟨fun hi => ?_, fun hi => ?_, fun c hc' k hk => ?_⟩
  · rw [h.tokens? hi, h.bounded.delivered hunlimited hheld, take_length]
  · obtain ⟨x, hx, hmem, rfl⟩ := h.worker? hi
    have hdone := (finished_source_iff hi).2 (source_done_of_held hunlimited hheld hi)
    rw [Overlap.terminated?, hx, Option.map_some, (hshows.terminated x hmem).2 hdone]
  · have hmem : c.pendingCounts ∈ P.lanes.map fun L => L.readers.map fun j => (A L.writer).fired - (A j).fired := by
      rw [← hshows.pending]
      exact mem_map_of_mem hc'
    obtain ⟨L, hL, heq⟩ := mem_map.1 hmem
    rw [← heq] at hk
    obtain ⟨j, hj, rfl⟩ := mem_map.1 hk
    exact Nat.sub_eq_zero_of_le (caughtUp_of_held hunlimited hheld hL hj)

end Plan

/-- **Everything arrives** in a network of sources, scalers and unlimited sinks. -/
theorem everything_arrives {b : Builder Component} {mapping : Option Mapping} {n : Network Component} (hmade : b.Made)
    (hlib : b.Library) (hunlimited : b.Unlimited) (hbuild : b.build mapping = .ok n) :
    (∀ ops, (∀ x ∈ ((Overlap.start n).run ops).workers, ∀ f, x.activity ≠ .faulted f) ∧
      ∀ i s, b.actor? i = some (.sink s) →
        ∃ tokens, ((Overlap.start n).run ops).tokens? i = some tokens ∧ tokens <+: b.referenceStream i) ∧
    ∀ F outcome, n.Completes F outcome →
      (∀ i s, b.actor? i = some (.sink s) → F.tokens? i = some (b.referenceStream i)) ∧
      (∀ i s, b.actor? i = some (.source s) → F.terminated? i = some true) ∧
      ∀ c ∈ F.wires, ∀ k ∈ c.pendingCounts, k = 0 := by
  obtain ⟨P, hroles, hstream, hstart, -⟩ := hmade.exists_plan hlib rfl hbuild hbuild
  have hfree : P.Unlimited := fun {i limit} => by rw [hroles]; exact hunlimited.roles hlib
  have hrole : ∀ {i : Nat} {c : Component} {role : Role}, b.actor? i = some c → c.role? = some role →
      P.roles[i]? = some role := fun hi hc => by rw [hroles]; exact hlib.role_of_actor hi hc
  rw [← hstream]
  refine ⟨fun ops => ?_, fun F outcome hrun => ?_⟩
  · obtain ⟨A, hA, -⟩ := hstart.run ops
    exact ⟨hA.not_faulted, fun i s hs => ⟨_, hA.tokens? (hrole hs rfl), take_prefix _ _⟩⟩
  · obtain ⟨ops, rfl, hc, -⟩ := hstart.overlapping hrun
    obtain ⟨A, hA, -⟩ := hstart.run ops
    have hdone := hA.delivered hc hfree
    exact ⟨fun i s hs => hdone.tokens (hrole hs rfl), fun i s hs => hdone.sources (hrole hs rfl), hdone.read⟩

/-! ## An instance -/

/-- three numbers, doubled, over connections of one slot; the scaler has a partition of its own -/
def doubling : Builder Component where
  instances := [⟨"numbers", .source { feed := .range 1 3 }, none⟩, ⟨"twice", .scale ⟨2⟩, some "apart"⟩,
    ⟨"all", .sink {}, none⟩]
  links := [⟨⟨0, 0⟩, ⟨1, 0⟩, some 1⟩, ⟨⟨1, 0⟩, ⟨2, 0⟩, some 1⟩]

theorem doubling_made : doubling.Made := Builder.made_of_again (b := doubling) rfl

def doublingNetwork : Network Component := (doubling.build none).toOption.getD ⟨[], [], []⟩

/-- on two threads with one firing per call, the sink holds all three numbers in the end -/
theorem everything_arrives_doubling :
    (Overlap.start (doublingNetwork.run { loopMax := 1 } 200).network).tokens? 2 = some [2, 4, 6] := by
  have hlib : doubling.Library := by simp [Builder.Library, doubling, Component.Stock, Feed.numbers, Word.size32]
  have hunlimited : doubling.Unlimited := by
    intro d hd s hs
    simp only [doubling, mem_cons, not_mem_nil, or_false] at hd
    rcases hd with rfl | rfl | rfl <;> cases hs
    rfl
  have hrun : ∃ s, (doublingNetwork.run { loopMax := 1 } 200).ended = .finished s ∧ s.outcome ≠ .passLimit :=
    ⟨_, rfl, by decide⟩
  obtain ⟨s, hend, hlimit⟩ := hrun
  have hbuild : doubling.build none = .ok doublingNetwork := rfl
  have hends := (everything_arrives doubling_made hlib hunlimited hbuild).2 _ _ (Network.completes_of_run hend hlimit)
  exact (hends.1 2 {} rfl).trans rfl

end Dataflow
