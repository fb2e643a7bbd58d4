import Mathlib.Tactic.Linarith
import Mathlib.Tactic.Ring
import Dataflow.Ring.Cursor
import Dataflow.Ring.Indices

/-!
Ring positions against unbounded totals: the token with number `t` lives in slot `t % capacity`.

That goes for cursors (`Cursor.At`), for head and tail indices, and for a `stretch` of slots, cut at the end of the
storage into two byte intervals. No operation faults while the totals stay within one lap and the ring is `Addressable`.
-/

namespace Dataflow

variable {p : Prop} {α β : Type} {xs : List α} {i a b capacity : Nat} {x : α}

/-! ## Checked computations -/

@[simp] theorem require_true [Decidable p] (h : p) : require p = .ok () := by
  simp [require, h]

theorem require_false [Decidable p] (h : ¬ p) : require p = .error .contract := by
  simp [require, h]

@[simp] theorem Checked.ok_bind (a : α) (f : α → Checked β) : ((Except.ok a : Checked α) >>= f) = f a :=
  rfl

@[simp] theorem Checked.error_bind (e : Fault) (f : α → Checked β) :
    ((Except.error e : Checked α) >>= f) = .error e := rfl

@[simp] theorem Checked.pure_eq (a : α) : (pure a : Checked α) = .ok a := rfl

theorem fetch_eq_ok (h : xs[i]? = some x) : fetch xs i = .ok x := by
  simp [fetch, h]

theorem fetch_eq_some (h : fetch xs i = .ok x) : xs[i]? = some x := by
  unfold fetch at h
  split at h
  · next heq =>
    cases h
    exact heq
  · cases h

theorem lt_of_getElem? (h : xs[i]? = some x) : i < xs.length := (List.getElem?_eq_some_iff.1 h).1

theorem Word.sub_eq_ok (h : b ≤ a) : Word.sub a b = .ok (a - b) := by
  simp [Word.sub, h]

theorem Word.mul64_eq_ok (h : a * b < Word.size64) : Word.mul64 a b = .ok (a * b) := by
  simp [Word.mul64, h]

/-! ## One lap -/

theorem add_mod_lap {t d : Nat} (hc : 0 < capacity) (hd : d ≤ capacity) :
    (t + d) % capacity =
      if t % capacity + d < capacity then t % capacity + d else t % capacity + d - capacity := by
  have ht := Nat.mod_lt t hc
  rw [← Nat.mod_add_mod]
  split_ifs with h
  · exact Nat.mod_eq_of_lt h
  · rw [Nat.mod_eq_sub_mod (by omega)]
    by_cases hfull : t % capacity + d - capacity < capacity
    · exact Nat.mod_eq_of_lt hfull
    · omega

theorem mod_ne_of_lap {j : Nat} (hlt : i < j) (hlap : j < i + capacity) : i % capacity ≠ j % capacity := by
  have hc : 0 < capacity := by omega
  obtain ⟨d, rfl⟩ : ∃ d, j = i + d := ⟨j - i, by omega⟩
  rw [add_mod_lap hc (by omega)]
  split_ifs <;> omega

/-- a ring that has slots, tokens with a size, and bytes that can all be addressed -/
structure Addressable (capacity tokenSize : Nat) : Prop where
  slots : 0 < capacity
  token : 0 < tokenSize
  fits : capacity * tokenSize ≤ Word.signedMax64

namespace Addressable

variable {tokenSize : Nat}

theorem capacity_le (g : Addressable capacity tokenSize) : capacity ≤ Word.signedMax64 :=
  le_trans (Nat.le_mul_of_pos_right capacity g.token) g.fits

/-- slots of the ring have byte offsets below 2^64 -/
theorem scaled_lt (g : Addressable capacity tokenSize) {n : Nat} (h : n ≤ capacity) : n * tokenSize < Word.size64 := by
  have h1 : n * tokenSize ≤ capacity * tokenSize := Nat.mul_le_mul_right _ h
  have h2 := g.fits
  simp only [Word.signedMax64, Word.size64] at *
  omega

end Addressable

/-! ## Cursors -/

namespace Cursor

/-- the cursor stands at the slot of token number `total` -/
def At (c : Cursor) (total capacity : Nat) : Prop := c.pos = (total % capacity : Nat) - (capacity : Int)

variable {c : Cursor} {t n : Nat}

theorem at_start (capacity : Nat) : (start capacity).At 0 capacity := by
  simp [At, start]

section

variable (h : c.At t capacity)

include h

theorem At.unique {c' : Cursor} (h' : c'.At t capacity) : c = c' := by
  cases c
  cases c'
  exact congrArg mk (h.trans h'.symm)

theorem At.slot : c.slot capacity = t % capacity := by
  unfold At at h
  simp only [Cursor.slot, h]
  omega

theorem At.peekSlot (hc : 0 < capacity) (hn : n ≤ capacity) : c.peekSlot n capacity = (t + n) % capacity := by
  unfold At at h
  rw [add_mod_lap hc hn]
  simp only [Cursor.peekSlot, fold, h]
  split_ifs <;> omega

theorem At.advance (hc : 0 < capacity) (hn : n ≤ capacity) :
    ∃ c', c.advance n capacity = .ok c' ∧ c'.At (t + n) capacity := by
  refine ⟨⟨fold (c.pos + n) capacity⟩, by simp [Cursor.advance, require_true hn], ?_⟩
  unfold At at h ⊢
  rw [add_mod_lap hc hn]
  simp only [fold, h]
  split_ifs <;> omega

end

end Cursor

/-! ## Head and tail -/

namespace Indices

variable {head tail : Nat}

theorem occupied_mod (htail : tail ≤ head) (hlap : head < tail + capacity) :
    occupied (head % capacity) (tail % capacity) capacity = .ok (head - tail) := by
  have hc : 0 < capacity := by omega
  have ht := Nat.mod_lt tail hc
  obtain ⟨d, rfl⟩ : ∃ d, head = tail + d := ⟨head - tail, by omega⟩
  rw [add_mod_lap hc (by omega)]
  unfold occupied
  split_ifs
  · congr 1; omega
  · omega
  · omega
  · rw [Word.sub_eq_ok (by omega)]
    simp only [Checked.ok_bind, Checked.pure_eq]
    congr 1; omega

theorem freeSpace_mod (htail : tail ≤ head) (hlap : head < tail + capacity) :
    freeSpace (head % capacity) (tail % capacity) capacity = .ok (capacity - 1 - (head - tail)) := by
  have hc : 0 < capacity := by omega
  have hh := Nat.mod_lt head hc
  obtain ⟨d, rfl⟩ : ∃ d, head = tail + d := ⟨head - tail, by omega⟩
  rw [add_mod_lap hc (by omega)] at hh ⊢
  unfold freeSpace
  by_cases hlt : tail % capacity + d < capacity
  · simp only [hlt, ite_true] at hh ⊢
    by_cases hd : d = 0
    · rw [if_pos (by omega), Word.sub_eq_ok (by omega)]
      congr 1; omega
    · rw [if_neg (by omega), if_neg (by omega), Word.sub_eq_ok (by omega)]
      simp only [Checked.ok_bind]
      rw [Word.sub_eq_ok (by omega)]
      congr 1; omega
  · simp only [hlt, ite_false] at hh ⊢
    rw [if_neg (by omega), if_pos (by omega), Word.sub_eq_ok (by omega)]
    congr 1; omega

/-- two slots are less than one lap apart, and both levels come from that distance -/
theorem exists_gap (hhead : head < capacity) (htail : tail < capacity) :
    ∃ n < capacity, (tail + n) % capacity = head ∧ occupied head tail capacity = .ok n ∧
      freeSpace head tail capacity = .ok (capacity - 1 - n) := by
  obtain ⟨n, hn, rfl⟩ : ∃ n < capacity, (tail + n) % capacity = head := by
    by_cases h : tail ≤ head
    · exact ⟨head - tail, by omega, by rw [Nat.add_sub_cancel' h, Nat.mod_eq_of_lt hhead]⟩
    · refine ⟨head + capacity - tail, by omega, ?_⟩
      rw [Nat.add_sub_cancel' (by omega), Nat.add_mod_right, Nat.mod_eq_of_lt hhead]
  have hoccupied := occupied_mod (Nat.le_add_right tail n) (show tail + n < tail + capacity by omega)
  have hfree := freeSpace_mod (Nat.le_add_right tail n) (show tail + n < tail + capacity by omega)
  rw [Nat.mod_eq_of_lt htail, Nat.add_sub_cancel_left] at hoccupied hfree
  exact ⟨n, hn, rfl, hoccupied, hfree⟩

theorem advance_mod (hc : 0 < capacity) (n : Nat) :
    advance (tail % capacity) n capacity = .ok ((tail + n) % capacity) := by
  simp [advance, Word.rem, Nat.pos_iff_ne_zero.1 hc]

theorem span_mod (htail : tail ≤ head) (hlap : head < tail + capacity) :
    span (tail % capacity) (head % capacity) capacity = Runs.split (tail % capacity) (head - tail) capacity := by
  simp [span, occupied_mod htail hlap]

end Indices

/-! ## Stretches -/

/-- tokens of a stretch of `n` from total `t` on that come before the end of the storage -/
def lead (t n capacity : Nat) : Nat := min n (capacity - t % capacity)

/-- the byte intervals of a stretch of `n` tokens from total `t` on -/
def stretch (t n capacity tokenSize : Nat) : Interval × Interval :=
  (⟨t % capacity * tokenSize, (t % capacity + lead t n capacity) * tokenSize⟩,
    ⟨0, (n - lead t n capacity) * tokenSize⟩)

/-- the slots of a stretch of `n` tokens from total `t` on -/
def slotRuns (t n capacity : Nat) : Runs :=
  ⟨⟨t % capacity, t % capacity + lead t n capacity⟩, ⟨0, n - lead t n capacity⟩⟩

section Stretch

variable {t n tokenSize : Nat}

theorem lead_le (t n capacity : Nat) : lead t n capacity ≤ n := min_le_left _ _

/-- the bytes before and after the end of the storage are all bytes -/
theorem lead_mul (t n capacity tokenSize : Nat) :
    lead t n capacity * tokenSize + (n - lead t n capacity) * tokenSize = n * tokenSize := by
  rw [← Nat.add_mul, Nat.add_sub_cancel' (lead_le ..)]

theorem lead_le_end (hc : 0 < capacity) : t % capacity + lead t n capacity ≤ capacity := by
  have := Nat.mod_lt t hc
  unfold lead; omega

/-- a stretch that goes on past the end of the storage goes on at slot zero -/
theorem lead_wraps (hc : 0 < capacity) (hlt : lead t n capacity < n) : (t + lead t n capacity) % capacity = 0 := by
  have ht := Nat.mod_lt t hc
  have hl : lead t n capacity = capacity - t % capacity := by unfold lead at *; omega
  rw [hl, add_mod_lap hc (by omega)]
  split_ifs <;> omega

@[simp] theorem stretch_fst_length : (stretch t n capacity tokenSize).1.length = lead t n capacity * tokenSize := by
  simp [stretch, Interval.length, Nat.add_mul]

@[simp] theorem stretch_snd_length :
    (stretch t n capacity tokenSize).2.length = (n - lead t n capacity) * tokenSize := by
  simp [stretch, Interval.length]

theorem Runs.split_mod (g : Addressable capacity tokenSize) (hn : n ≤ capacity) :
    Runs.split (t % capacity) n capacity = .ok (slotRuns t n capacity) := by
  have ht := Nat.mod_lt t g.slots
  have hcap := g.capacity_le
  have hsum : t % capacity + n < Word.size64 := by simp only [Word.signedMax64, Word.size64] at *; omega
  have hstart : t % capacity < max capacity 1 ∧ n ≤ capacity := ⟨by omega, hn⟩
  simp only [Runs.split, require_true hstart, Word.add64, hsum, if_true, Checked.ok_bind, Checked.pure_eq]
  unfold slotRuns lead
  split_ifs
  · rw [Nat.min_eq_right (by omega), Nat.add_sub_cancel' ht.le]
  · rw [Nat.min_eq_left (by omega), Nat.sub_self]

theorem slotRuns_byteRanges (hc : 0 < capacity) (hn : n ≤ capacity) (hfits : capacity * tokenSize < Word.size64) :
    (slotRuns t n capacity).byteRanges tokenSize = .ok (stretch t n capacity tokenSize) := by
  have hscaled : ∀ {m}, m ≤ capacity → Word.mul64 m tokenSize = .ok (m * tokenSize) := fun hm =>
    Word.mul64_eq_ok (lt_of_le_of_lt (Nat.mul_le_mul_right _ hm) hfits)
  have ht := Nat.mod_lt t hc
  simp only [slotRuns, Runs.byteRanges, Interval.scale, hscaled ht.le, hscaled (lead_le_end hc),
    hscaled (Nat.zero_le _),
    hscaled ((Nat.sub_le _ _).trans hn), Checked.ok_bind, Checked.pure_eq, stretch, Nat.zero_mul]

/-- the two byte intervals that a ring computes for a stretch -/
theorem split_byteRanges (g : Addressable capacity tokenSize) (hn : n ≤ capacity) :
    (do (← Runs.split (t % capacity) n capacity).byteRanges tokenSize) = .ok (stretch t n capacity tokenSize) := by
  rw [Runs.split_mod g hn, Checked.ok_bind, slotRuns_byteRanges g.slots hn (g.scaled_lt le_rfl)]

end Stretch

end Dataflow
