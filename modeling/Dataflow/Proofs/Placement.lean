import Dataflow.Network.Builder
import Mathlib.Data.List.Nodup
import Mathlib.Data.List.Perm.Basic

/-!
Every instance is placed once (`Builder.placement_perm`). A mapping may name an instance twice, or name nobody: the
first place counts.
-/

namespace Dataflow

open List

abbrev Group.allMembers (groups : List Group) : List Nat := groups.flatMap (·.members)

namespace Group

theorem add_perm (name : String) (members : List Nat) (groups : List Group) :
    (allMembers (add name members groups)).Perm (allMembers groups ++ members) := by
  induction groups with
  | nil => simp [add, allMembers]
  | cons g rest ih =>
    unfold add
    split
    · simp only [allMembers, flatMap_cons, append_assoc]
      exact perm_append_comm.append_left g.members
    · simp only [allMembers, flatMap_cons, append_assoc]
      exact ih.append_left g.members

theorem byHint_perm (i : Nat) (hints : List (Option String)) (groups : List Group) :
    (allMembers (byHint i hints groups)).Perm (allMembers groups ++ range' i hints.length) := by
  induction hints generalizing i groups with
  | nil => simp [byHint]
  | cons hint rest ih =>
    have hadd := (add_perm (hint.getD defaultPartition) [i] groups).append_right (range' (i + 1) rest.length)
    rw [append_assoc] at hadd
    exact (ih (i + 1) _).trans hadd

end Group

namespace Mapping

theorem lastIndex?_lt {name : String} {i j : Nat} {names : List String} (h : lastIndex? name i names = some j) :
    j < i + names.length := by
  induction names generalizing i with
  | nil => cases h
  | cons n rest ih =>
    rw [length_cons]
    unfold lastIndex? at h
    split at h
    · next hrest =>
      cases h
      have := ih hrest
      omega
    · split at h
      · cases h
        omega
      · cases h

/-- positions of instances that are placed once, and nowhere before -/
structure Fresh (names : List String) (placed members : List Nat) : Prop where
  nodup : members.Nodup
  apart : ∀ i ∈ members, i ∉ placed
  bound : ∀ i ∈ members, i < names.length

theorem membersOf_fresh (names : List String) (placed : List Nat) (asked : List String) :
    Fresh names placed (membersOf names placed asked) := by
  induction asked generalizing placed with
  | nil => exact ⟨nodup_nil, by simp [membersOf], by simp [membersOf]⟩
  | cons name rest ih =>
    unfold membersOf
    split
    · next i hi =>
      have hlt := lastIndex?_lt hi
      rw [Nat.zero_add] at hlt
      split
      · exact ih placed
      · next hnew =>
        obtain ⟨hnodup, happart, hbound⟩ := ih (i :: placed)
        refine ⟨nodup_cons.2 ⟨fun hmem => happart i hmem mem_cons_self, hnodup⟩, ?_, ?_⟩
        · intro j hj
          rcases mem_cons.1 hj with rfl | hj
          · simpa using hnew
          · exact fun hmem => happart j hj (mem_cons_of_mem i hmem)
        · intro j hj
          rcases mem_cons.1 hj with rfl | hj
          · exact hlt
          · exact hbound j hj
    · exact ih placed

theorem place_fresh (names : List String) (placed : List Nat) (partitions : List PartitionSpec) :
    Fresh names placed (Group.allMembers (place names placed partitions)) := by
  induction partitions generalizing placed with
  | nil => exact ⟨nodup_nil, by simp [place, Group.allMembers], by simp [place, Group.allMembers]⟩
  | cons p rest ih =>
    obtain ⟨hnodup1, happart1, hbound1⟩ := membersOf_fresh names placed p.instances
    obtain ⟨hnodup2, happart2, hbound2⟩ := ih (membersOf names placed p.instances ++ placed)
    -- a group without members is left out, which changes no members
    have hmembers : Group.allMembers (place names placed (p :: rest)) = membersOf names placed p.instances ++
        Group.allMembers (place names (membersOf names placed p.instances ++ placed) rest) := by
      rw [place]
      split
      · next hempty => rw [isEmpty_iff.1 hempty]; rfl
      · rfl
    rw [hmembers]
    refine ⟨nodup_append.2 ⟨hnodup1, hnodup2, fun i hi j hj hij => ?_⟩, fun i hi => ?_, fun i hi => ?_⟩
    · exact happart2 j hj (mem_append_left _ (hij ▸ hi))
    · rcases mem_append.1 hi with hi | hi
      · exact happart1 i hi
      · exact fun hmem => happart2 i hi (mem_append_right _ hmem)
    · exact (mem_append.1 hi).elim (hbound1 i) (hbound2 i)

/-- positions that are listed once, followed by all others -/
theorem append_missing_perm {members : List Nat} {n : Nat} (hnodup : members.Nodup) (hbound : ∀ i ∈ members, i < n) :
    (members ++ (range n).filter fun i => !members.contains i).Perm (range n) := by
  have hdisjoint : ∀ i ∈ members, ∀ j ∈ (range n).filter fun i => !members.contains i, i ≠ j := by
    rintro i hi j hj rfl
    simp [hi] at hj
  refine (perm_ext_iff_of_nodup (nodup_append.2 ⟨hnodup, nodup_range.filter _, hdisjoint⟩)
    nodup_range).2 fun i => ?_
  rw [mem_append, mem_filter, mem_range]
  constructor
  · rintro (hi | hi)
    · exact hbound i hi
    · exact hi.1
  · intro hi
    by_cases hmem : i ∈ members
    · exact .inl hmem
    · exact .inr ⟨hi, by simpa using hmem⟩

theorem assign_perm (m : Mapping) (names : List String) :
    (Group.allMembers (m.assign names)).Perm (range names.length) := by
  obtain ⟨hnodup, -, hbound⟩ := place_fresh names [] m.partitions
  have hrange := append_missing_perm hnodup hbound
  unfold assign
  dsimp only
  split
  · next hempty => rwa [isEmpty_iff.1 hempty, append_nil] at hrange
  · exact (Group.add_perm _ _ _).trans hrange

end Mapping

/-- every instance is placed once, whatever places it -/
theorem Builder.placement_perm {σ : Type} [Behaviour σ] (b : Builder σ) (mapping : Option Mapping) :
    (Group.allMembers (b.placement mapping)).Perm (range b.instances.length) := by
  cases mapping with
  | some m => simpa [placement] using m.assign_perm (b.instances.map (·.name))
  | none => simpa [placement, range_eq_range'] using Group.byHint_perm 0 (b.instances.map (·.affinity)) []

end Dataflow
