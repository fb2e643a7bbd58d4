import Dataflow.Proofs.ConnectionLedger

/-!
The totals of a connection in unbounded numbers.

An end has moved so many tokens in all (`Tally.moved`) and may go up to a limit (`Tally.limit`), which moves of other
ends never lower. The wrapped totals give the same differences (`Connection.Counts`).
-/

namespace Dataflow

open List

inductive Side where
  | writer
  | reader (r : Nat)
deriving DecidableEq, Repr

/-- counts that never wrap -/
structure Tally where
  /-- tokens that the writer has published -/
  published : Nat
  /-- tokens released, by reader -/
  released : List Nat
deriving DecidableEq, Repr

namespace Tally

variable {t : Tally} {side side' : Side} {capacity n q : Nat}

/-- tokens that every reader has released -/
def slowest (t : Tally) : Nat := t.released.min?.getD 0

def Has (t : Tally) : Side → Prop
  | .writer => t.released ≠ []
  | .reader r => r < t.released.length

/-- tokens that an end has moved in all -/
def moved (t : Tally) : Side → Nat
  | .writer => t.published
  | .reader r => t.released.getD r 0

/-- how many an end may have moved, as things stand -/
def limit (t : Tally) (capacity : Nat) : Side → Nat
  | .writer => t.slowest + capacity
  | .reader _ => t.published

def move (t : Tally) (side : Side) (n : Nat) : Tally :=
  match side with
  | .writer => { t with published := t.published + n }
  | .reader r => { t with released := t.released.set r (t.released.getD r 0 + n) }

theorem slowest_spec (h : t.released ≠ []) : t.slowest ∈ t.released ∧ ∀ q ∈ t.released, t.slowest ≤ q := by
  obtain ⟨m, hm⟩ := Option.isSome_iff_exists.1 (isSome_min?_iff.2 h)
  rw [slowest, hm, Option.getD_some]
  exact min?_eq_some_iff.1 hm

theorem getD_mem {xs : List Nat} {r : Nat} (h : r < xs.length) : xs.getD r 0 ∈ xs := by
  rw [← getElem_eq_getD 0]
  exact getElem_mem h

theorem Has.readers (h : t.Has side) : t.released ≠ [] := by
  cases side with
  | writer => exact h
  | reader r => exact ne_nil_of_length_pos (Nat.zero_lt_of_lt h)

theorem Has.move (h : t.Has side') (side : Side) (n : Nat) : (t.move side n).Has side' := by
  cases side <;> cases side' <;> simpa [move, Has] using h

theorem moved_move_self (h : t.Has side) : (t.move side n).moved side = t.moved side + n := by
  cases side with
  | writer => rfl
  | reader r => simp [move, moved, getD_eq_getElem?_getD, getElem?_set_self h]

theorem moved_move_of_ne (h : side' ≠ side) : (t.move side n).moved side' = t.moved side' := by
  cases side with
  | writer =>
    cases side' with
    | writer => exact absurd rfl h
    | reader r => rfl
  | reader r =>
    cases side' with
    | writer => rfl
    | reader r' =>
      have hne : r ≠ r' := fun heq => h (by rw [heq])
      simp [move, moved, getD_eq_getElem?_getD, getElem?_set_ne hne]

/-- no move lowers a limit -/
theorem limit_le_move (h : t.Has side) : t.limit capacity side' ≤ (t.move side n).limit capacity side' := by
  cases side with
  | writer =>
    cases side' with
    | writer => exact le_rfl
    | reader r => exact Nat.le_add_right _ _
  | reader r =>
    cases side' with
    | reader r' => exact le_rfl
    | writer =>
      apply Nat.add_le_add_right
      obtain ⟨hmem, -⟩ := slowest_spec (h.move (.reader r) n).readers
      obtain ⟨-, hle⟩ := slowest_spec h.readers
      rcases mem_or_eq_of_mem_set hmem with hmem | heq
      · exact hle _ hmem
      · rw [heq]
        exact (hle _ (getD_mem h)).trans (Nat.le_add_right _ _)

/-- an end's own moves leave its limit -/
theorem limit_move_self : (t.move side n).limit capacity side = t.limit capacity side := by
  cases side <;> rfl

end Tally

/-- the totals of a connection are those of a tally -/
structure Connection.Counts (c : Connection) (t : Tally) : Prop where
  bounded : c.capacity ≤ Region.largestCapacity
  produced : c.produced = UInt32.ofNat t.published
  consumed : c.consumed = t.released.map UInt32.ofNat
  released_le : ∀ q ∈ t.released, q ≤ t.published
  /-- the writer is at most one lap ahead of every reader -/
  lap : ∀ q ∈ t.released, t.published ≤ q + c.capacity

namespace Connection

variable {c : Connection} {t : Tally} {v : PortView}

theorem Tracks.counts {l : Ledger} (h : c.Tracks l) : c.Counts ⟨l.published, l.released⟩ :=
  ⟨h.bounded, h.produced, h.consumed, h.released_le, fun q hq => h.published_le.trans (h.lap q hq)⟩

section

variable (h : c.Counts t)

include h

/-- levels decide what a connection counts -/
theorem Counts.congr {c' : Connection} (hcapacity : c'.capacity = c.capacity)
    (hproduced : c'.produced = c.produced) (hconsumed : c'.consumed = c.consumed) : c'.Counts t :=
  ⟨by rw [hcapacity]; exact h.bounded, by rw [hproduced]; exact h.produced, by rw [hconsumed]; exact h.consumed,
    h.released_le, by rw [hcapacity]; exact h.lap⟩

theorem Counts.moved_le {side : Side} (hside : t.Has side) : t.moved side ≤ t.limit c.capacity side := by
  cases side with
  | writer => exact h.lap _ (Tally.slowest_spec hside).1
  | reader r => exact h.released_le _ (Tally.getD_mem hside)

theorem Counts.word {q : Nat} (hq : q ∈ t.released) : t.published - q < Word.size32 := by
  have h1 := h.lap q hq
  have h2 := h.bounded
  simp only [Region.largestCapacity, Word.size32] at *
  omega

/-- what a reader finds is what it may still move -/
theorem Counts.available_eq {e : InputEnd} (hside : t.Has (.reader e.reader))
    (he : e.consumed = UInt32.ofNat (t.moved (.reader e.reader))) :
    c.available e = t.limit c.capacity (.reader e.reader) - t.moved (.reader e.reader) := by
  have hq := Tally.getD_mem hside
  rw [available, h.produced, he]
  exact toNat_sub_total (h.released_le _ hq) (h.word hq)

theorem Counts.backlog_eq (hside : t.Has .writer) : c.backlog (UInt32.ofNat t.published) = t.published - t.slowest := by
  obtain ⟨hmem, hle⟩ := Tally.slowest_spec hside
  have hmap : (c.consumed.map fun consumed => (UInt32.ofNat t.published - consumed).toNat) =
      t.released.map fun q => t.published - q := by
    rw [h.consumed, map_map]
    apply map_congr_left
    intro q hq
    exact toNat_sub_total (h.released_le q hq) (h.word hq)
  rw [backlog, hmap]
  apply le_antisymm
  · apply foldl_max_le (Nat.zero_le _)
    intro x hx
    obtain ⟨q, hq, rfl⟩ := mem_map.1 hx
    exact Nat.sub_le_sub_left (hle q hq) _
  · exact le_foldl_max (.inr (mem_map_of_mem hmem))

/-- what the writer finds is what it may still move -/
theorem Counts.rooms_eq (hside : t.Has .writer) {e : OutputEnd} (he : e.produced = UInt32.ofNat (t.moved .writer)) :
    c.rooms e = .ok (t.limit c.capacity .writer - t.moved .writer) := by
  have hmem := (Tally.slowest_spec hside).1
  have hlap := h.lap _ hmem
  have hle := h.released_le _ hmem
  have hroom : c.capacity - (t.published - t.slowest) = t.slowest + c.capacity - t.published := by omega
  rw [rooms, he, show t.moved .writer = t.published from rfl, h.backlog_eq hside, Word.sub_eq_ok (by omega), hroom]
  rfl

/-- a reader that closes its port has moved what its view has moved -/
theorem Counts.closeInput {e : InputEnd} (hside : t.Has (.reader e.reader))
    (he : e.consumed = UInt32.ofNat (t.moved (.reader e.reader)))
    (hlimit : t.moved (.reader e.reader) + v.moved ≤ t.limit c.capacity (.reader e.reader)) :
    (c.closeInput e v).1.Counts (t.move (.reader e.reader) v.moved) ∧
      (c.closeInput e v).2.consumed = UInt32.ofNat (t.moved (.reader e.reader) + v.moved) := by
  have hq := Tally.getD_mem hside
  have hcounts : ∀ {c' : Connection}, c'.capacity = c.capacity → c'.produced = c.produced →
      c'.consumed = c.consumed.set e.reader (UInt32.ofNat (t.moved (.reader e.reader) + v.moved)) →
      c'.Counts (t.move (.reader e.reader) v.moved) := by
    intro c' hcapacity hproduced hconsumed
    refine ⟨by rw [hcapacity]; exact h.bounded,
      by rw [hproduced]; exact h.produced, ?_, fun q' hq' => ?_, fun q' hq' => ?_⟩
    · rw [hconsumed, h.consumed, ← map_set]
      rfl
    · rcases mem_or_eq_of_mem_set hq' with hq' | rfl
      · exact h.released_le q' hq'
      · exact hlimit
    · rw [hcapacity]
      rcases mem_or_eq_of_mem_set hq' with hq' | rfl
      · exact h.lap q' hq'
      · have hlap := h.lap _ hq
        show t.published ≤ _
        omega
  unfold Connection.closeInput
  split
  · next hnone =>
    rw [hnone, Nat.add_zero] at hcounts ⊢
    refine ⟨hcounts rfl rfl ?_, he⟩
    have hget : c.consumed[e.reader]? = some (UInt32.ofNat (t.moved (.reader e.reader))) := by
      have hlt : e.reader < t.released.length := hside
      simp [h.consumed, Tally.moved, getD_eq_getElem?_getD, getElem?_eq_getElem hlt]
    obtain ⟨hlt, heq⟩ := List.getElem?_eq_some_iff.1 hget
    rw [← heq, set_getElem_self]
  · rw [he, ofNat_add_total]
    exact ⟨hcounts rfl rfl rfl, rfl⟩

/-- a writer that closes its port has moved what its view has moved -/
theorem Counts.closeOutput {e : OutputEnd} (hside : t.Has .writer) (he : e.produced = UInt32.ofNat (t.moved .writer))
    (hlimit : t.moved .writer + v.moved ≤ t.limit c.capacity .writer) :
    (c.closeOutput e v).1.Counts (t.move .writer v.moved) ∧
      (c.closeOutput e v).2.produced = UInt32.ofNat (t.moved .writer + v.moved) := by
  have hcounts : ∀ {c' : Connection}, c'.capacity = c.capacity → c'.consumed = c.consumed →
      c'.produced = UInt32.ofNat (t.moved .writer + v.moved) → c'.Counts (t.move .writer v.moved) := by
    intro c' hcapacity hconsumed hproduced
    refine ⟨by rw [hcapacity]; exact h.bounded, hproduced,
      by rw [hconsumed]; exact h.consumed, fun q hq => ?_, fun q hq => ?_⟩
    · exact (h.released_le q hq).trans (Nat.le_add_right _ _)
    · rw [hcapacity]
      exact hlimit.trans (Nat.add_le_add_right ((Tally.slowest_spec hside).2 q hq) _)
  unfold Connection.closeOutput
  split
  · next hnone =>
    rw [hnone, Nat.add_zero] at hcounts ⊢
    exact ⟨hcounts rfl rfl h.produced, he⟩
  · rw [he, ofNat_add_total]
    exact ⟨hcounts rfl rfl rfl, rfl⟩

end

/-- closing an end that has moved `n` tokens turns the connection and the end's total into these -/
structure Closes (c : Connection) (side : Side) (total : UInt32) (n : Nat) (c' : Connection)
    (total' : UInt32) : Prop where
  capacity : c'.capacity = c.capacity
  counts : ∀ {t}, c.Counts t → t.Has side → total = UInt32.ofNat (t.moved side) →
    t.moved side + n ≤ t.limit c.capacity side → c'.Counts (t.move side n) ∧ total' = UInt32.ofNat (t.moved side + n)

theorem closes_input (c : Connection) (e : InputEnd) (v : PortView) :
    c.Closes (.reader e.reader) e.consumed v.moved (c.closeInput e v).1 (c.closeInput e v).2.consumed where
  capacity := by unfold closeInput; split <;> rfl
  counts h hside he hlimit := h.closeInput hside he hlimit

theorem closes_output (c : Connection) (e : OutputEnd) (v : PortView) :
    c.Closes .writer e.produced v.moved (c.closeOutput e v).1 (c.closeOutput e v).2.produced where
  capacity := by unfold closeOutput; split <;> rfl
  counts h hside he hlimit := h.closeOutput hside he hlimit

end Connection

end Dataflow
