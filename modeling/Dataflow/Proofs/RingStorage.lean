import Mathlib.Data.List.TakeDrop
import Dataflow.Block
import Dataflow.Proofs.RingPosition

/-!
A block of bytes used as a ring: byte number `j` of a stream lives at offset `j % size`.

`Block.Keeps size stream lo`: the block still holds every byte from number `lo` on. Storing the next bytes keeps this
within one lap (`Keeps.store`), and whatever lies in the window can be read back (`Keeps.slice`).
-/

namespace Dataflow

open List

namespace Block

variable {b : Block} {stream bytes more : Bytes} {size lo offset d : Nat}

/-! ## Single bytes -/

theorem byteAt_insert (b : Block) (offset : Nat) (x : UInt8) (j : Nat) :
    ({ b with cells := b.cells.insert offset x } : Block).byteAt j = if offset = j then x else b.byteAt j := by
  simp [byteAt, Std.TreeMap.getD_insert]

@[simp] theorem store_size (b : Block) (offset : Nat) (bytes : Bytes) : (b.store offset bytes).size = b.size := by
  induction bytes generalizing b offset with
  | nil => rfl
  | cons x rest ih => simp [store, ih]

/-- bytes outside the stored interval are left alone -/
theorem byteAt_store_outside (b : Block) {j : Nat} (bytes : Bytes) (h : j < offset ∨ offset + bytes.length ≤ j) :
    (b.store offset bytes).byteAt j = b.byteAt j := by
  induction bytes generalizing b offset with
  | nil => rfl
  | cons x rest ih =>
    simp only [length_cons] at h
    rw [store, ih _ (by omega), byteAt_insert, if_neg (by omega)]

/-- bytes inside the stored interval are the new ones -/
theorem byteAt_store_inside (b : Block) (offset : Nat) {k : Nat} (bytes : Bytes) (h : k < bytes.length) :
    (b.store offset bytes).byteAt (offset + k) = bytes[k] := by
  induction bytes generalizing b offset k with
  | nil => simp at h
  | cons x rest ih =>
    cases k with
    | zero => rw [store, byteAt_store_outside _ _ (by omega), byteAt_insert]; simp
    | succ k =>
      have hk : k < rest.length := by simpa using h
      have := ih { b with cells := b.cells.insert offset x } (offset + 1) hk
      rw [store, show offset + (k + 1) = offset + 1 + k by omega, this]
      rfl

@[simp] theorem slice_length (b : Block) (offset n : Nat) : (b.slice offset n).length = n := by
  simp [slice]

theorem slice_getElem (b : Block) (offset n k : Nat) (h : k < (b.slice offset n).length) :
    (b.slice offset n)[k] = b.byteAt (offset + k) := by
  simp [slice]

theorem store_append (b : Block) (offset : Nat) (xs ys : Bytes) :
    b.store offset (xs ++ ys) = (b.store offset xs).store (offset + xs.length) ys := by
  induction xs generalizing b offset with
  | nil => rfl
  | cons x xs ih => rw [cons_append, store, ih, store, length_cons, Nat.add_right_comm, Nat.add_assoc]

/-- what was stored is read back -/
theorem slice_store (b : Block) (offset : Nat) (bytes : Bytes) :
    (b.store offset bytes).slice offset bytes.length = bytes := by
  apply ext_getElem
  · simp
  · intro k h1 h2
    rw [slice_getElem, byteAt_store_inside _ _ _ h2]

theorem read_eq_ok {n : Nat} (h : offset + n ≤ b.size) : b.read offset n = .ok (b.slice offset n) := by
  simp [read, h]

theorem write_eq_ok (h : offset + bytes.length ≤ b.size) :
    b.write offset bytes = .ok (b.store offset bytes) := by
  simp [write, h]

/-! ## Streams -/

/-- as a ring of `size` bytes, the block holds the stream from byte number `lo` on -/
def Keeps (b : Block) (size : Nat) (stream : Bytes) (lo : Nat) : Prop :=
  ∀ j h, lo ≤ j → b.byteAt (j % size) = stream[j]

theorem keeps_nil (b : Block) (size lo : Nat) : b.Keeps size [] lo := by
  intro j h; simp at h

theorem Keeps.mono {lo' : Nat} (h : b.Keeps size stream lo) (hlo : lo ≤ lo') : b.Keeps size stream lo' :=
  fun j hj hl => h j hj (le_trans hlo hl)

/-- an earlier part of the stream is kept with the whole -/
theorem Keeps.append_left (h : b.Keeps size (stream ++ more) lo) : b.Keeps size stream lo := by
  intro j hj hl
  rw [h j (by rw [length_append]; omega) hl, getElem_append_left hj]

/-- a byte of a later part of the stream -/
theorem Keeps.byteAt_right (h : b.Keeps size (stream ++ more) lo) (hd : d < more.length)
    (hlo : lo ≤ stream.length + d) : b.byteAt ((stream.length + d) % size) = more[d] := by
  rw [h (stream.length + d) (by rw [length_append]; omega) hlo, getElem_append_right (Nat.le_add_right _ _)]
  simp

/-- the stream goes on with bytes that are in their places -/
theorem Keeps.append (more : Bytes) (h : b.Keeps size stream lo)
    (hmore : ∀ d hd, b.byteAt ((stream.length + d) % size) = more[d]) :
    b.Keeps size (stream ++ more) lo := by
  intro j hj hl
  by_cases hold : j < stream.length
  · rw [h j hold hl, getElem_append_left hold]
  · obtain ⟨d, rfl⟩ : ∃ d, j = stream.length + d := ⟨j - stream.length, by omega⟩
    rw [hmore d (by rw [length_append] at hj; omega), getElem_append_right (Nat.le_add_right _ _)]
    simp

/-- an empty window asks for nothing -/
theorem keeps_of_length_le (h : stream.length ≤ lo) : b.Keeps size stream lo :=
  fun j hj hl => absurd hj (by omega)

/-- the next bytes of the stream, stored in one piece, overwrite nothing of the window -/
theorem Keeps.store (h : b.Keeps size stream lo) (bytes : Bytes) (hend : stream.length % size + bytes.length ≤ size)
    (hlap : stream.length + bytes.length ≤ lo + size) :
    (b.store (stream.length % size) bytes).Keeps size (stream ++ bytes) lo := by
  intro j hj hlo
  rw [length_append] at hj
  have hmod : ∀ {k}, k < bytes.length → (stream.length + k) % size = stream.length % size + k := fun hk => by
    rw [← Nat.mod_add_mod]
    exact Nat.mod_eq_of_lt (by omega)
  by_cases hnew : stream.length ≤ j
  · -- a new byte: its offset lies in the stored interval, without a wrap
    obtain ⟨k, rfl⟩ : ∃ k, j = stream.length + k := ⟨j - stream.length, by omega⟩
    have hk : k < bytes.length := by omega
    rw [hmod hk, byteAt_store_inside _ _ _ hk, getElem_append_right (by omega)]
    simp
  · -- an old byte: less than one lap behind every new one
    have hold : j < stream.length := by omega
    rw [getElem_append_left hold, ← h j hold hlo]
    apply byteAt_store_outside
    by_contra hin
    obtain ⟨k, hk⟩ : ∃ k, j % size = stream.length % size + k := ⟨j % size - stream.length % size, by omega⟩
    have hmod' := hmod (show k < bytes.length by omega)
    have hne : j % size ≠ (stream.length + k) % size := mod_ne_of_lap (by omega) (by omega)
    omega

/-- a piece of the window that does not pass the end of the storage is read back -/
theorem Keeps.slice {p n : Nat} (h : b.Keeps size stream lo) (hlo : lo ≤ p) (hend : p % size + n ≤ size)
    (hn : p + n ≤ stream.length) : b.slice (p % size) n = (stream.drop p).take n := by
  apply ext_getElem
  · simp; omega
  · intro k h1 h2
    have hk : k < n := by simpa using h1
    have hmod : (p + k) % size = p % size + k := by
      rw [← Nat.mod_add_mod]; exact Nat.mod_eq_of_lt (by omega)
    rw [slice_getElem, ← hmod, h (p + k) (by omega) (by omega)]
    simp

/-! ## Stretches of tokens -/

variable {t n capacity tokenSize : Nat}

/-- the byte offset of a slot is the byte number of its token, brought into the ring -/
theorem scaled_mod (t capacity tokenSize : Nat) :
    t * tokenSize % (capacity * tokenSize) = t % capacity * tokenSize := Nat.mul_mod_mul_right _ _ _

/-- the first interval of a stretch stays before the end of the storage -/
theorem stretch_first_end (t n tokenSize : Nat) (hc : 0 < capacity) :
    t * tokenSize % (capacity * tokenSize) + lead t n capacity * tokenSize ≤ capacity * tokenSize := by
  rw [scaled_mod, ← Nat.add_mul]
  exact Nat.mul_le_mul_right _ (lead_le_end hc)

/-- the second interval of a stretch, if there is one, starts at slot zero -/
theorem stretch_second_start (tokenSize : Nat) (hc : 0 < capacity) (hlt : lead t n capacity < n) :
    (t + lead t n capacity) * tokenSize % (capacity * tokenSize) = 0 := by
  rw [scaled_mod, lead_wraps hc hlt, Nat.zero_mul]

theorem Keeps.slice_first (hc : 0 < capacity) (h : b.Keeps (capacity * tokenSize) stream lo) (hlo : lo ≤ t * tokenSize)
    (hhi : (t + n) * tokenSize ≤ stream.length) :
    b.slice (stretch t n capacity tokenSize).1.start (stretch t n capacity tokenSize).1.length =
      (stream.drop (t * tokenSize)).take (lead t n capacity * tokenSize) := by
  have hl : (t + lead t n capacity) * tokenSize ≤ (t + n) * tokenSize :=
    Nat.mul_le_mul_right _ (Nat.add_le_add_left (lead_le t n capacity) t)
  rw [stretch_fst_length, show (stretch t n capacity tokenSize).1.start = t * tokenSize % (capacity * tokenSize) from
    (scaled_mod t capacity tokenSize).symm]
  exact h.slice hlo (stretch_first_end _ _ _ hc) (by rw [← Nat.add_mul]; omega)

theorem Keeps.slice_second (hc : 0 < capacity) (hn : n ≤ capacity) (h : b.Keeps (capacity * tokenSize) stream lo)
    (hlo : lo ≤ t * tokenSize) (hhi : (t + n) * tokenSize ≤ stream.length) :
    b.slice (stretch t n capacity tokenSize).2.start (stretch t n capacity tokenSize).2.length =
      (stream.drop ((t + lead t n capacity) * tokenSize)).take ((n - lead t n capacity) * tokenSize) := by
  by_cases hlt : lead t n capacity < n
  · have hl := lead_le t n capacity
    have h0 := stretch_second_start tokenSize hc hlt
    have hle : t * tokenSize ≤ (t + lead t n capacity) * tokenSize := Nat.mul_le_mul_right _ (Nat.le_add_right _ _)
    have hsum : (t + lead t n capacity) * tokenSize + (n - lead t n capacity) * tokenSize = (t + n) * tokenSize := by
      rw [← Nat.add_mul]; congr 1; omega
    have hcap : (n - lead t n capacity) * tokenSize ≤ capacity * tokenSize := Nat.mul_le_mul_right _ (by omega)
    have := h.slice (p := (t + lead t n capacity) * tokenSize) (n := (n - lead t n capacity) * tokenSize)
      (by omega) (by rw [h0]; omega) (by omega)
    rwa [h0] at this
  · have h0 : n - lead t n capacity = 0 := by omega
    simp [h0, Block.slice]

/-- the two parts of a stretch end inside the storage -/
theorem stretch_fits (t tokenSize : Nat) (hc : 0 < capacity) (hn : n ≤ capacity) :
    (stretch t n capacity tokenSize).1.start + (stretch t n capacity tokenSize).1.length ≤ capacity * tokenSize ∧
      (stretch t n capacity tokenSize).2.start + (stretch t n capacity tokenSize).2.length ≤ capacity * tokenSize := by
  rw [stretch_fst_length, stretch_snd_length]
  have h1 := stretch_first_end t n tokenSize hc
  rw [scaled_mod] at h1
  have h2 : (n - lead t n capacity) * tokenSize ≤ capacity * tokenSize :=
    Nat.mul_le_mul_right _ (le_trans (Nat.sub_le _ _) hn)
  exact ⟨h1, by simpa [stretch] using h2⟩

section

variable (hc : 0 < capacity) (hsize : capacity * tokenSize ≤ b.size) (h : b.Keeps (capacity * tokenSize) stream lo)

include hc hsize h

/-- the two parts of a stretch inside the window are read back -/
theorem Keeps.read_parts (hn : n ≤ capacity) (hlo : lo ≤ t * tokenSize) (hhi : (t + n) * tokenSize ≤ stream.length) :
    b.read (stretch t n capacity tokenSize).1.start (stretch t n capacity tokenSize).1.length =
        .ok ((stream.drop (t * tokenSize)).take (lead t n capacity * tokenSize)) ∧
      b.read (stretch t n capacity tokenSize).2.start (stretch t n capacity tokenSize).2.length =
        .ok ((stream.drop ((t + lead t n capacity) * tokenSize)).take ((n - lead t n capacity) * tokenSize)) := by
  obtain ⟨h1, h2⟩ := stretch_fits t tokenSize hc hn
  rw [read_eq_ok (h1.trans hsize), read_eq_ok (h2.trans hsize), h.slice_first hc hlo hhi, h.slice_second hc hn hlo hhi]
  exact ⟨rfl, rfl⟩

/-- a stretch inside the window is read back whole -/
theorem Keeps.readRuns (hn : n ≤ capacity) (hlo : lo ≤ t * tokenSize) (hhi : (t + n) * tokenSize ≤ stream.length) :
    b.readRuns (stretch t n capacity tokenSize) = .ok ((stream.drop (t * tokenSize)).take (n * tokenSize)) := by
  obtain ⟨h1, h2⟩ := h.read_parts hc hsize hn hlo hhi
  simp only [Block.readRuns, h1, h2, Checked.ok_bind, Checked.pure_eq]
  rw [← lead_mul t n capacity, take_add, drop_drop, Nat.add_mul]

/-- a single token of the window is read back -/
theorem Keeps.read_token (hlo : lo ≤ t * tokenSize) (hhi : (t + 1) * tokenSize ≤ stream.length) :
    b.read (t % capacity * tokenSize) tokenSize = .ok ((stream.drop (t * tokenSize)).take tokenSize) := by
  have hend : t % capacity * tokenSize + tokenSize ≤ capacity * tokenSize := by
    calc t % capacity * tokenSize + tokenSize = (t % capacity + 1) * tokenSize := by ring
      _ ≤ capacity * tokenSize := Nat.mul_le_mul_right _ (Nat.mod_lt _ hc)
  have hslice := h.slice hlo (by rw [scaled_mod]; exact hend) (by rwa [Nat.add_mul, Nat.one_mul] at hhi)
  rw [read_eq_ok (le_trans hend hsize), ← hslice, scaled_mod]

end

/-- the block after a stretch was stored, both parts of it -/
def storeRuns (b : Block) (runs : Interval × Interval) (bytes : Bytes) : Block :=
  (b.store runs.1.start (bytes.take runs.1.length)).store runs.2.start ((bytes.drop runs.1.length).take runs.2.length)

@[simp] theorem storeRuns_size (b : Block) (runs : Interval × Interval) (bytes : Bytes) :
    (b.storeRuns runs bytes).size = b.size := by
  simp [storeRuns]

theorem storeRuns_nil (b : Block) (runs : Interval × Interval) : b.storeRuns runs [] = b := by
  simp [storeRuns, store]

/-- a stretch is stored token by token -/
theorem storeRuns_cons (b : Block) {token : Bytes} (rest : Bytes) (hn : n < capacity)
    (htoken : token.length = tokenSize) : b.storeRuns (stretch t (n + 1) capacity tokenSize) (token ++ rest) =
      (b.store (t % capacity * tokenSize) token).storeRuns (stretch (t + 1) n capacity tokenSize) rest := by
  have hslot := Nat.mod_lt t (Nat.zero_lt_of_lt hn)
  have hnext := add_mod_lap (t := t) (Nat.zero_lt_of_lt hn) (Nat.one_le_of_lt hn)
  simp only [storeRuns, stretch_fst_length, stretch_snd_length]
  by_cases hend : t % capacity + 1 < capacity
  · -- the next token lies in the same part
    rw [if_pos hend] at hnext
    have hlead : lead t (n + 1) capacity = lead (t + 1) n capacity + 1 := by
      unfold lead
      omega
    rw [hlead, Nat.add_sub_add_right, Nat.add_mul, Nat.one_mul, Nat.add_comm _ tokenSize, ← htoken,
      take_length_add_append, drop_length_add_append, store_append, htoken]
    simp [stretch, hnext, Nat.add_mul]
  · -- the token is the last before the end of the storage, and the rest is one part
    rw [if_neg hend] at hnext
    have hlead : lead t (n + 1) capacity = 1 ∧ lead (t + 1) n capacity = n := by
      unfold lead
      omega
    rw [hlead.1, hlead.2, Nat.one_mul, ← htoken, take_left, drop_left, Nat.add_sub_cancel,
      Nat.sub_self, Nat.zero_mul, take_zero]
    simp only [stretch, hnext, show t % capacity + 1 - capacity = 0 by omega, Nat.zero_mul, store, htoken]

/-- a stretch of a ring can be read, whatever the ring holds -/
theorem readRuns_stretch (hc : 0 < capacity) (hsize : capacity * tokenSize ≤ b.size) (hn : n ≤ capacity) :
    ∃ bytes, b.readRuns (stretch t n capacity tokenSize) = .ok bytes ∧ bytes.length = n * tokenSize := by
  obtain ⟨h1, h2⟩ := stretch_fits t tokenSize hc hn
  refine ⟨_, by simp only [readRuns, read_eq_ok (h1.trans hsize), read_eq_ok (h2.trans hsize)]; rfl, ?_⟩
  rw [length_append, slice_length, slice_length, stretch_fst_length, stretch_snd_length, lead_mul]

theorem writeRuns_stretch (hc : 0 < capacity) (hsize : capacity * tokenSize ≤ b.size) (hn : n ≤ capacity)
    (bytes : Bytes) :
    b.writeRuns (stretch t n capacity tokenSize) bytes = .ok (b.storeRuns (stretch t n capacity tokenSize) bytes) := by
  obtain ⟨h1, h2⟩ := stretch_fits t tokenSize hc hn
  have hfirst := length_take_le (stretch t n capacity tokenSize).1.length bytes
  have hsecond := length_take_le (stretch t n capacity tokenSize).2.length
    (bytes.drop (stretch t n capacity tokenSize).1.length)
  simp only [writeRuns, storeRuns]
  rw [write_eq_ok (by omega), Checked.ok_bind, write_eq_ok (by rw [store_size]; omega)]

/-- the next bytes of a stream, at most `n` tokens of them, stored as a stretch, overwrite nothing of the window -/
theorem Keeps.storeRuns (n : Nat) (bytes : Bytes) (hc : 0 < capacity) (h : b.Keeps (capacity * tokenSize) stream lo)
    (hlen : stream.length = t * tokenSize) (hn : n ≤ capacity)
    (hlap : (t + n) * tokenSize ≤ lo + capacity * tokenSize) :
    (b.storeRuns (stretch t n capacity tokenSize) bytes).Keeps (capacity * tokenSize)
      (stream ++ bytes.take (n * tokenSize)) lo := by
  have hl := lead_le t n capacity
  have hsum := lead_mul t n capacity tokenSize
  simp only [Block.storeRuns, stretch_fst_length, stretch_snd_length]
  rw [← hsum, take_add, ← append_assoc]
  set first := bytes.take (lead t n capacity * tokenSize) with hf
  set second := (bytes.drop (lead t n capacity * tokenSize)).take ((n - lead t n capacity) * tokenSize) with hs
  have hfirst : first.length = min (lead t n capacity * tokenSize) bytes.length := length_take
  have hsecond : second.length =
      min ((n - lead t n capacity) * tokenSize) (bytes.length - lead t n capacity * tokenSize) := by
    rw [hs, length_take, length_drop]
  have hend := stretch_first_end t n tokenSize hc
  have htotal : (t + n) * tokenSize = t * tokenSize + n * tokenSize := Nat.add_mul ..
  have hcap : (n - lead t n capacity) * tokenSize ≤ capacity * tokenSize := Nat.mul_le_mul_right _ (by omega)
  have hk1 := h.store first (by rw [hlen]; omega) (by rw [hlen]; omega)
  rw [hlen, scaled_mod] at hk1
  by_cases hmore : second = []
  · rw [hmore, append_nil]
    exact hk1
  · -- there is a second part, so the first one is full and ends at the end of the storage
    have hpos := length_pos_iff.2 hmore
    have hlt : lead t n capacity < n := by
      by_contra hnot
      rw [show n - lead t n capacity = 0 by omega, Nat.zero_mul] at hsecond
      omega
    have h0 : (stream ++ first).length % (capacity * tokenSize) = 0 := by
      rw [length_append, hlen, show first.length = lead t n capacity * tokenSize by omega, ← Nat.add_mul,
        stretch_second_start _ hc hlt]
    have hk2 := hk1.store second (by rw [h0]; omega) (by rw [length_append, hlen]; omega)
    rwa [h0] at hk2

/-- what lies ahead of the stored bytes, up to one lap, is left alone -/
theorem byteAt_storeRuns_ahead (hc : 0 < capacity)
    (hlo : (bytes.take (n * tokenSize)).length ≤ d) (hhi : d < capacity * tokenSize) :
    (b.storeRuns (stretch t n capacity tokenSize) bytes).byteAt ((t * tokenSize + d) % (capacity * tokenSize)) =
      b.byteAt ((t * tokenSize + d) % (capacity * tokenSize)) := by
  have hsize : 0 < capacity * tokenSize := by omega
  have hsum := lead_mul t n capacity tokenSize
  have hmod := add_mod_lap (t := t * tokenSize) hsize hhi.le
  have hstart : (stretch t n capacity tokenSize).1.start = t * tokenSize % (capacity * tokenSize) :=
    (scaled_mod t capacity tokenSize).symm
  rw [length_take] at hlo
  simp only [storeRuns, stretch_fst_length, stretch_snd_length, hstart]
  have hfirst := length_take (i := lead t n capacity * tokenSize) (l := bytes)
  have hsecond : ((bytes.drop (lead t n capacity * tokenSize)).take ((n - lead t n capacity) * tokenSize)).length =
      min ((n - lead t n capacity) * tokenSize) (bytes.length - lead t n capacity * tokenSize) := by
    rw [length_take, length_drop]
  have hwrap : (n - lead t n capacity) * tokenSize = 0 ∨
      t * tokenSize % (capacity * tokenSize) + lead t n capacity * tokenSize = capacity * tokenSize := by
    rcases Nat.lt_or_ge (lead t n capacity) n with hlt | hge
    · right
      have := Nat.mod_lt t hc
      rw [scaled_mod, ← Nat.add_mul, show t % capacity + lead t n capacity = capacity by unfold lead at hlt ⊢; omega]
    · left
      rw [show n - lead t n capacity = 0 by omega, Nat.zero_mul]
  have hzero : (stretch t n capacity tokenSize).2.start = 0 := rfl
  rw [hzero, byteAt_store_outside _ _ (by split_ifs at hmod <;> omega),
    byteAt_store_outside _ _ (by split_ifs at hmod <;> omega)]

end Block

end Dataflow
