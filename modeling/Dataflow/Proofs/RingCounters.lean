import Mathlib.Data.List.Range
import Dataflow.Proofs.RingPosition

/-!
Ring positions against counters that never wrap.

- `Indices.match_unbounded_counters`: head and tail are counters reduced modulo the capacity. From the reduced indices
  come the distance of the counters, the slots that are left, the reduced index of the head moved on, the step itself as
  the distance moved, and the slots from tail to head in order; and all of it comes out the same when every operation on
  words is guarded, so none of them leaves its range.
- `Cursor.walk_is_modular`: a cursor that starts at slot zero can take any steps, and then stands at their sum reduced
  modulo the capacity. Its offset is negative and within the capacity; its slot, the slots left before the wrap and the
  slots ahead are those of the sum; and the next `n` slots come as two intervals apart from each other, in order, with
  the bytes of just these slots.
- Witnesses `Indices.match_unbounded_counters_largest`, `Cursor.walk_is_modular_seven`.

Premises: the capacity is a word, and for indices at least two; the counters are less than a lap apart and the step goes
into the free slots; a step of a cursor is one lap at most.
-/

namespace Dataflow

open List

/-! ## Slots and bytes in order -/

section Slots

variable {t n capacity : Nat}

theorem Addressable.of_word (hc : 0 < capacity) (hword : capacity < Word.size32) : Addressable capacity 1 := by
  refine ⟨hc, Nat.one_pos, ?_⟩
  simp only [Word.size32, Word.signedMax64] at *
  omega

/-- totals that do not pass the end of the storage have consecutive slots -/
theorem map_mod_range' (hend : t % capacity + n ≤ capacity) :
    (range' t n).map (· % capacity) = range' (t % capacity) n := by
  apply ext_getElem
  · simp
  · intro k hk _
    have hlt : k < n := by simpa using hk
    simp only [getElem_map, getElem_range', Nat.one_mul]
    rw [← Nat.mod_add_mod]
    exact Nat.mod_eq_of_lt (by omega)

/-- the two parts of a stretch have the slots of its totals, in order -/
theorem slotRuns_slots (t : Nat) (hc : 0 < capacity) (hn : n ≤ capacity) :
    (slotRuns t n capacity).slots = (range' t n).map (· % capacity) := by
  have hl := lead_le t n capacity
  have hsecond : (range' (t + lead t n capacity) (n - lead t n capacity)).map (· % capacity) =
      range' 0 (n - lead t n capacity) := by
    by_cases hlt : lead t n capacity < n
    · have h0 := lead_wraps hc hlt
      rw [map_mod_range' (by omega), h0]
    · rw [show n - lead t n capacity = 0 by omega]
      rfl
  calc _ = range' (t % capacity) (lead t n capacity) ++ range' 0 (n - lead t n capacity) := by
        simp [slotRuns, Runs.slots, Interval.slots, Interval.length]
    _ = (range' t (lead t n capacity) ++ range' (t + lead t n capacity) (n - lead t n capacity)).map
      (· % capacity) := by
        rw [map_append, map_mod_range' (lead_le_end hc), hsecond]
    _ = (range' t n).map (· % capacity) := by rw [range'_append_1, Nat.add_sub_cancel' hl]

/-- the bytes of consecutive slots are the bytes of each, one slot after the other -/
theorem range'_mul (start n tokenSize : Nat) :
    range' (start * tokenSize) (n * tokenSize) =
      (range' start n).flatMap fun slot => range' (slot * tokenSize) tokenSize := by
  induction n generalizing start with
  | zero => simp
  | succ n ih =>
    rw [range'_succ, flatMap_cons, ← ih, Nat.add_mul start, Nat.one_mul, range'_append_1, Nat.add_mul n, Nat.one_mul,
      Nat.add_comm tokenSize]

theorem Interval.slots_scaled (r : Interval) (tokenSize : Nat) :
    (⟨r.start * tokenSize, r.stop * tokenSize⟩ : Interval).slots =
      r.slots.flatMap fun slot => range' (slot * tokenSize) tokenSize := by
  simp only [Interval.slots, Interval.length, ← Nat.sub_mul, range'_mul]

end Slots

/-! ## Head and tail -/

namespace Indices

/-! The same arithmetic with every operation guarded: a difference below zero and a sum beyond its word are faults. -/

namespace Guarded

def freeSpace (head tail capacity : Nat) : Checked Nat :=
  if head = tail then
    Word.sub capacity 1
  else if head < tail then do
    let below ← Word.sub tail 1
    Word.sub below head
  else do
    let above ← Word.sub capacity head
    let around ← Word.add32 above tail
    Word.sub around 1

def occupied (head tail capacity : Nat) : Checked Nat :=
  if tail ≤ head then
    Word.sub head tail
  else do
    let above ← Word.sub capacity tail
    Word.add32 above head

/-- the sum has 64 bits, and the remainder goes back into 32 -/
def advance (index n capacity : Nat) : Checked Nat := do
  let sum ← Word.add64 index n
  return Word.low32 (← Word.rem sum capacity)

def span (start stop capacity : Nat) : Checked Runs := do
  let n ← occupied stop start capacity
  require (start < max capacity 1 ∧ n ≤ capacity)
  let last ← Word.add64 start n
  if capacity < last then
    let before ← Word.sub capacity start
    let rest ← Word.sub n before
    return ⟨⟨start, capacity⟩, ⟨0, rest⟩⟩
  else
    return ⟨⟨start, last⟩, ⟨0, 0⟩⟩

end Guarded

variable {head tail index n capacity : Nat}

theorem guarded_freeSpace (head tail : Nat) (hword : capacity < Word.size32) :
    Guarded.freeSpace head tail capacity = freeSpace head tail capacity := by
  unfold Guarded.freeSpace freeSpace
  split_ifs with heq hlt
  · rfl
  · rw [Word.sub_eq_ok (by omega), Checked.ok_bind]
  · by_cases hhead : head ≤ capacity
    · have hsum : capacity - head + tail < Word.size32 := by omega
      simp only [Word.sub_eq_ok hhead, Checked.ok_bind, Word.add32, hsum, if_true]
    · simp [Word.sub, hhead]

theorem guarded_occupied (head tail : Nat) (hword : capacity < Word.size32) :
    Guarded.occupied head tail capacity = occupied head tail capacity := by
  unfold Guarded.occupied occupied
  split_ifs with hle
  · exact Word.sub_eq_ok hle
  · by_cases htail : tail ≤ capacity
    · have hsum : capacity - tail + head < Word.size32 := by omega
      simp only [Word.sub_eq_ok htail, Checked.ok_bind, Word.add32, hsum, if_true, Checked.pure_eq]
    · simp [Word.sub, htail]

theorem guarded_advance (hindex : index < Word.size32) (hn : n < Word.size32) (hword : capacity < Word.size32) :
    Guarded.advance index n capacity = advance index n capacity := by
  have hsum : index + n < Word.size64 := by
    simp only [Word.size32, Word.size64] at *
    omega
  simp only [Guarded.advance, advance, Word.add64, hsum, if_true, Checked.ok_bind, Word.rem]
  split_ifs with h0
  · rfl
  · have hrest : (index + n) % capacity < Word.size32 := (Nat.mod_lt _ (Nat.pos_of_ne_zero h0)).trans hword
    simp [Word.low32, Nat.mod_eq_of_lt hrest]

theorem guarded_span (start stop : Nat) (hword : capacity < Word.size32) :
    Guarded.span start stop capacity = span start stop capacity := by
  simp only [Guarded.span, span, guarded_occupied stop start hword, Runs.split]
  cases occupied stop start capacity with
  | error f => rfl
  | ok n =>
    simp only [Checked.ok_bind]
    by_cases hreq : start < max capacity 1 ∧ n ≤ capacity
    · simp only [require_true hreq, Checked.ok_bind, Word.add64]
      split_ifs with hsum
      · simp only [Checked.ok_bind]
        split_ifs with hwrap
        · rw [Word.sub_eq_ok (by omega), Checked.ok_bind, Word.sub_eq_ok (by omega), Checked.ok_bind]
        · rfl
      · rfl
    · simp only [require_false hreq, Checked.error_bind]

/-- Levels, advance and span are those of the counters, and no word leaves its range on the way. -/
theorem match_unbounded_counters {capacity T H s : Nat} (hmin : 2 ≤ capacity) (hword : capacity < Word.size32)
    (horder : T ≤ H) (hlap : H ≤ T + capacity - 1) (hstep : s ≤ capacity - 1 - (H - T)) :
    occupied (H % capacity) (T % capacity) capacity = .ok (H - T) ∧
      freeSpace (H % capacity) (T % capacity) capacity = .ok (capacity - 1 - (H - T)) ∧
      advance (H % capacity) s capacity = .ok ((H + s) % capacity) ∧
      occupied ((H + s) % capacity) (H % capacity) capacity = .ok s ∧
      (∃ runs, span (T % capacity) (H % capacity) capacity = .ok runs ∧
        runs.slots = (range' T (H - T)).map (· % capacity)) ∧
      Guarded.occupied (H % capacity) (T % capacity) capacity = occupied (H % capacity) (T % capacity) capacity ∧
      Guarded.freeSpace (H % capacity) (T % capacity) capacity = freeSpace (H % capacity) (T % capacity) capacity ∧
      Guarded.advance (H % capacity) s capacity = advance (H % capacity) s capacity ∧
      Guarded.occupied ((H + s) % capacity) (H % capacity) capacity =
        occupied ((H + s) % capacity) (H % capacity) capacity ∧
      Guarded.span (T % capacity) (H % capacity) capacity = span (T % capacity) (H % capacity) capacity := by
  have hc : 0 < capacity := by omega
  have hhead : H % capacity < Word.size32 := (Nat.mod_lt H hc).trans hword
  have hmoved := occupied_mod (Nat.le_add_right H s) (show H + s < H + capacity by omega)
  rw [Nat.add_sub_cancel_left] at hmoved
  have hspan := span_mod horder (show H < T + capacity by omega)
  rw [Runs.split_mod (.of_word hc hword) (by omega)] at hspan
  exact ⟨occupied_mod horder (by omega), freeSpace_mod horder (by omega), advance_mod hc s, hmoved,
    ⟨_, hspan, slotRuns_slots T hc (by omega)⟩, guarded_occupied _ _ hword, guarded_freeSpace _ _ hword,
    guarded_advance hhead (by omega) hword, guarded_occupied _ _ hword, guarded_span _ _ hword⟩

/-- The largest capacity that is a word, with all slots but five in use and the counters far beyond any word. -/
theorem match_unbounded_counters_largest :
    2 ≤ 4294967295 ∧ 4294967295 < Word.size32 ∧
      freeSpace (1000004294967289 % 4294967295) (1000000000000000 % 4294967295) 4294967295 = .ok 5 ∧
      occupied ((1000004294967289 + 5) % 4294967295) (1000004294967289 % 4294967295) 4294967295 = .ok 5 := by
  obtain ⟨-, hfree, -, hmoved, -⟩ := @match_unbounded_counters 4294967295 1000000000000000 1000004294967289 5
    (by decide) (by decide) (by decide) (by decide) (by decide)
  exact ⟨by decide, by decide, hfree, hmoved⟩

end Indices

/-! ## Cursors -/

/-- two intervals apart from each other, both of them within `size` -/
structure Runs.Within (r : Runs) (size : Nat) : Prop where
  first : r.first.start ≤ r.first.stop ∧ r.first.stop ≤ size
  second : r.second.start ≤ r.second.stop ∧ r.second.stop ≤ size
  apart : r.second.stop ≤ r.first.start

namespace Cursor

/-- a cursor that is advanced again and again -/
def walk (c : Cursor) (steps : List Nat) (capacity : Nat) : Checked Cursor := steps.foldlM (·.advance · capacity) c

/-- the slots of a stretch ahead of a cursor, and their bytes -/
structure Announces (c : Cursor) (n capacity : Nat) (runs : Runs) : Prop where
  slots : runs.slots = (range n).map (c.peekSlot · capacity)
  within : runs.Within capacity
  /-- whatever the size of a token, as long as all bytes can be addressed -/
  bytes : ∀ tokenSize, capacity * tokenSize < Word.size64 → ∃ first second,
    runs.byteRanges tokenSize = .ok (first, second) ∧
    first.slots = runs.first.slots.flatMap (fun slot => range' (slot * tokenSize) tokenSize) ∧
    second.slots = runs.second.slots.flatMap (fun slot => range' (slot * tokenSize) tokenSize) ∧
    (⟨first, second⟩ : Runs).Within (capacity * tokenSize)

/-- the cursor is the total `t` reduced modulo the capacity, in all that it answers -/
structure Modular (c : Cursor) (t capacity : Nat) : Prop where
  pos : -(capacity : Int) ≤ c.pos ∧ c.pos ≤ -1
  slot : c.slot capacity = t % capacity
  untilWrap : c.untilWrap = capacity - c.slot capacity
  peekSlot : ∀ i ≤ capacity, c.peekSlot i capacity = (t + i) % capacity
  runs : ∀ n ≤ capacity, ∃ runs, c.runs n capacity = .ok runs ∧ c.Announces n capacity runs

variable {c : Cursor} {t n capacity : Nat}

/-- what one advance does, over any number of them -/
theorem At.walk {steps : List Nat} (h : c.At t capacity) (hc : 0 < capacity) (hsteps : ∀ n ∈ steps, n ≤ capacity) :
    ∃ c', c.walk steps capacity = .ok c' ∧ c'.At (t + steps.sum) capacity := by
  induction steps generalizing c t with
  | nil => exact ⟨c, rfl, h⟩
  | cons n steps ih =>
    obtain ⟨c1, hadvance, h1⟩ := h.advance hc (hsteps n mem_cons_self)
    obtain ⟨c2, hwalk, h2⟩ := ih h1 fun m hm => hsteps m (mem_cons_of_mem n hm)
    refine ⟨c2, ?_, ?_⟩
    · rw [walk, foldlM_cons, hadvance]
      exact hwalk
    · rwa [sum_cons, ← Nat.add_assoc]

theorem At.announces (h : c.At t capacity) (hc : 0 < capacity) (hn : n ≤ capacity) :
    c.Announces n capacity (slotRuns t n capacity) := by
  have hend := lead_le_end (t := t) (n := n) hc
  have hapart : n - lead t n capacity ≤ t % capacity := by
    unfold lead
    omega
  refine ⟨?_, ⟨⟨Nat.le_add_right _ _, hend⟩, ⟨Nat.zero_le _, ?_⟩, hapart⟩, fun tokenSize hfits => ?_⟩
  · rw [slotRuns_slots t hc hn, range'_eq_map_range, map_map]
    apply map_congr_left
    intro i hi
    exact (h.peekSlot hc ((mem_range.1 hi).le.trans hn)).symm
  · exact (Nat.sub_le _ _).trans hn
  · have hscale : ∀ {a b}, a ≤ b → a * tokenSize ≤ b * tokenSize := Nat.mul_le_mul_right _
    refine ⟨_, _, slotRuns_byteRanges hc hn hfits, Interval.slots_scaled ⟨_, _⟩ _, ?_,
      ⟨⟨hscale (Nat.le_add_right _ _), hscale hend⟩, ⟨Nat.zero_le _, hscale ((Nat.sub_le _ _).trans hn)⟩,
        hscale hapart⟩⟩
    rw [← Interval.slots_scaled]
    simp [slotRuns]

theorem At.modular (h : c.At t capacity) (hc : 0 < capacity) (hword : capacity < Word.size32) :
    c.Modular t capacity := by
  have ht := Nat.mod_lt t hc
  have hslot := h.slot
  have hpos : c.pos = (t % capacity : Nat) - (capacity : Int) := h
  refine ⟨by omega, hslot, ?_, fun i hi => h.peekSlot hc hi, fun n hn => ⟨_, ?_, h.announces hc hn⟩⟩
  · rw [hslot, untilWrap]
    omega
  · rw [runs, hslot, Runs.split_mod (.of_word hc hword) hn]

/-- A cursor that has been advanced any number of times stands at the total of its steps, modulo the capacity. -/
theorem walk_is_modular {capacity : Nat} (hc : 1 ≤ capacity) (hword : capacity < Word.size32) (steps : List Nat)
    (hsteps : ∀ n ∈ steps, n ≤ capacity) :
    ∃ c, (start capacity).walk steps capacity = .ok c ∧ c.Modular steps.sum capacity := by
  obtain ⟨c, hwalk, hat⟩ := (at_start capacity).walk hc hsteps
  rw [Nat.zero_add] at hat
  exact ⟨c, hwalk, hat.modular hc hword⟩

/-- Three slots, and more than two laps: the cursor stands at the second slot, and a full lap from there wraps. -/
theorem walk_is_modular_seven :
    1 ≤ 3 ∧ 3 < Word.size32 ∧ (∀ n ∈ [2, 3, 2], n ≤ 3) ∧
      ∃ c runs, (start 3).walk [2, 3, 2] 3 = .ok c ∧ c.slot 3 = 1 ∧ c.runs 3 3 = .ok runs ∧ c.Announces 3 3 runs := by
  obtain ⟨c, hwalk, hmodular⟩ := @walk_is_modular 3 (by decide) (by decide) [2, 3, 2] (by decide)
  obtain ⟨runs, hruns, hannounces⟩ := hmodular.runs 3 le_rfl
  exact ⟨by decide, by decide, by decide, c, runs, hwalk, hmodular.slot, hruns, hannounces⟩

end Cursor

end Dataflow
