import Dataflow.Channel.Port
import Dataflow.Proofs.RingStorage

/-!
A connection against its history.

The ledger has totals that never wrap; `Connection.Tracks` ties storage and wrapped totals to it. Each end is tied to it
on its own, its port closed (`Rests`) or open (`OutputEnd.Writes`, `InputEnd.Reads`); an open port may be stale, so it
promises only bounds that other ends cannot break.
-/

namespace Dataflow

open List

/-- what happened on a connection, in unbounded numbers -/
structure Ledger where
  /-- every byte written so far, published or not -/
  stream : Bytes
  /-- tokens written -/
  written : Nat
  /-- tokens published -/
  published : Nat
  /-- tokens released, by reader -/
  released : List Nat
deriving DecidableEq, Repr

namespace Ledger

def fresh (readers : Nat) : Ledger := ⟨[], 0, 0, List.replicate readers 0⟩

/-- the bytes that readers may see -/
def visible (l : Ledger) (tokenSize : Nat) : Bytes := l.stream.take (l.published * tokenSize)

/-- published tokens that the slowest reader has not released -/
def backlog (l : Ledger) : Nat := (l.released.map fun q => l.published - q).foldl max 0

/-- more bytes of `n` tokens -/
def write (l : Ledger) (n : Nat) (bytes : Bytes) : Ledger :=
  { l with stream := l.stream ++ bytes, written := l.written + n }

def publish (l : Ledger) : Ledger := { l with published := l.written }

/-- a reader has released so many tokens in all -/
def release (l : Ledger) (reader total : Nat) : Ledger := { l with released := l.released.set reader total }

end Ledger

variable {xs : List Nat} {a : Nat}

/-! ## Maxima and wrapped totals -/

theorem foldl_max_le {m : Nat} (ha : a ≤ m) (h : ∀ x ∈ xs, x ≤ m) : xs.foldl max a ≤ m := by
  induction xs generalizing a with
  | nil => exact ha
  | cons x xs ih =>
    exact ih (max_le ha (h x mem_cons_self)) fun y hy => h y (mem_cons_of_mem x hy)

theorem le_foldl_max {x : Nat} (h : x ≤ a ∨ x ∈ xs) : x ≤ xs.foldl max a := by
  induction xs generalizing a with
  | nil => simpa using h
  | cons y ys ih =>
    apply ih
    rcases h with h | h
    · exact .inl (le_trans h (le_max_left _ _))
    · rcases mem_cons.1 h with rfl | h
      · exact .inl (le_max_right _ _)
      · exact .inr h

/-- the maximum of a list is one of its members, or the start -/
theorem foldl_max_mem (xs : List Nat) (a : Nat) : xs.foldl max a = a ∨ xs.foldl max a ∈ xs := by
  induction xs generalizing a with
  | nil => exact .inl rfl
  | cons x xs ih =>
    rcases ih (max a x) with h | h
    · rw [foldl_cons, h]
      rcases max_choice a x with h' | h'
      · exact .inl h'
      · rw [h']; exact .inr mem_cons_self
    · exact .inr (mem_cons_of_mem x h)

/-- the difference of wrapped totals is the difference of the totals, while that is a word -/
theorem toNat_sub_total {p q : Nat} (hle : q ≤ p) (hlt : p - q < Word.size32) :
    (UInt32.ofNat p - UInt32.ofNat q).toNat = p - q := by
  rw [UInt32.toNat_sub]
  have hp : (UInt32.ofNat p).toNat = p % 2 ^ 32 := by simp
  have hq : (UInt32.ofNat q).toNat = q % 2 ^ 32 := by simp
  simp only [Word.size32] at hlt
  omega

theorem ofNat_add_total (p n : Nat) : UInt32.ofNat p + UInt32.ofNat n = UInt32.ofNat (p + n) := by
  simp

/-! ## The facts -/

/-- storage and totals of a connection are those of its ledger -/
structure Connection.Tracks (c : Connection) (l : Ledger) : Prop where
  ring : Addressable c.capacity c.tokenSize
  bounded : c.capacity ≤ Region.largestCapacity
  storage : c.capacity * c.tokenSize ≤ c.storage.size
  length : l.stream.length = l.written * c.tokenSize
  produced : c.produced = UInt32.ofNat l.published
  consumed : c.consumed = l.released.map UInt32.ofNat
  published_le : l.published ≤ l.written
  released_le : ∀ q ∈ l.released, q ≤ l.published
  /-- the writer is at most one lap ahead of every reader -/
  lap : ∀ q ∈ l.released, l.written ≤ q + c.capacity
  /-- every token that some reader has not released is still in its slot -/
  keeps : ∀ q ∈ l.released, c.storage.Keeps (c.capacity * c.tokenSize) l.stream (q * c.tokenSize)

/-- the writer's end while its port is closed -/
structure OutputEnd.Rests (e : OutputEnd) (capacity : Nat) (l : Ledger) : Prop where
  cursor : e.cursor.At l.written capacity
  produced : e.produced = UInt32.ofNat l.published
  settled : l.written = l.published

/-- the writer's end while its port is open with view `v` -/
structure OutputEnd.Writes (e : OutputEnd) (v : PortView) (capacity : Nat) (l : Ledger) : Prop where
  cursor : v.cursor.At l.written capacity
  produced : e.produced = UInt32.ofNat l.published
  moved : l.published + v.openedWith = l.written + v.available
  opened_le : v.openedWith ≤ capacity
  /-- what is left to write would reach no token that some reader has not released -/
  room : ∀ q ∈ l.released, l.written + v.available ≤ q + capacity

/-- a reader's end while its port is closed; it has released `q` tokens -/
structure InputEnd.Rests (e : InputEnd) (q capacity : Nat) (l : Ledger) : Prop where
  released : l.released[e.reader]? = some q
  consumed : e.consumed = UInt32.ofNat q
  cursor : e.cursor.At q capacity

/-- a reader's end while its port is open with view `v`; it has released `q` tokens -/
structure InputEnd.Reads (e : InputEnd) (v : PortView) (q capacity : Nat) (l : Ledger) : Prop where
  released : l.released[e.reader]? = some q
  consumed : e.consumed = UInt32.ofNat q
  cursor : v.cursor.At (q + v.moved) capacity
  available_le : v.available ≤ v.openedWith
  /-- what is left to read was published before the port was opened -/
  published : q + v.openedWith ≤ l.published

namespace Connection

variable {c : Connection} {l : Ledger} {v : PortView} {q n : Nat} {e : InputEnd}

/-! ## Levels -/

section

variable (h : c.Tracks l)

include h

theorem Tracks.released_lt (hq : q ∈ l.released) : l.published - q < Word.size32 := by
  have h1 := h.lap q hq
  have h2 := h.published_le
  have h3 := h.bounded
  simp only [Region.largestCapacity, Word.size32] at *
  omega

theorem Tracks.backlog_le : l.backlog ≤ c.capacity := by
  apply foldl_max_le (Nat.zero_le _)
  intro x hx
  obtain ⟨q, hq, rfl⟩ := mem_map.1 hx
  have h1 := h.lap q hq
  have h2 := h.published_le
  omega

/-- the backlog computed from wrapped totals is that of the ledger -/
theorem Tracks.backlog_eq : c.backlog (UInt32.ofNat l.published) = l.backlog := by
  unfold backlog Ledger.backlog
  rw [h.consumed, map_map]
  congr 1
  apply map_congr_left
  intro q hq
  exact toNat_sub_total (h.released_le q hq) (h.released_lt hq)

/-- the writer's room is the capacity less the largest backlog; the subtraction never underflows -/
theorem Tracks.rooms_eq {e : OutputEnd} (he : e.produced = UInt32.ofNat l.published) :
    c.rooms e = .ok (c.capacity - l.backlog) := by
  rw [rooms, he, h.backlog_eq, Word.sub_eq_ok h.backlog_le]

theorem Tracks.available_eq (hr : l.released[e.reader]? = some q)
    (he : e.consumed = UInt32.ofNat q) : c.available e = l.published - q := by
  have hq := mem_of_getElem? hr
  rw [available, h.produced, he, toNat_sub_total (h.released_le q hq) (h.released_lt hq)]

theorem Tracks.pending_eq {r : Nat} (hr : l.released[r]? = some q) : c.pending r = .ok (l.published - q) := by
  have hq := mem_of_getElem? hr
  have hc : c.consumed[r]? = some (UInt32.ofNat q) := by rw [h.consumed, getElem?_map, hr]; rfl
  simp only [pending, fetch_eq_ok hc, Checked.ok_bind, Checked.pure_eq, h.produced]
  rw [toNat_sub_total (h.released_le q hq) (h.released_lt hq)]

theorem Tracks.pendingCounts_eq : c.pendingCounts = l.released.map fun q => l.published - q := by
  rw [pendingCounts, h.consumed, map_map]
  apply map_congr_left
  intro q hq
  simp only [Function.comp, h.produced]
  exact toNat_sub_total (h.released_le q hq) (h.released_lt hq)

end

theorem backlog_ge (l : Ledger) (hq : q ∈ l.released) : l.published - q ≤ l.backlog :=
  le_foldl_max (.inr (mem_map_of_mem hq))

/-! ## Opening -/

section

variable (h : c.Tracks l)

include h

theorem Tracks.openOutput_eq {e : OutputEnd} (he : e.Rests c.capacity l) :
    c.openOutput e = .ok ⟨e.cursor, c.capacity - l.backlog, c.capacity - l.backlog⟩ := by
  simp [openOutput, h.rooms_eq he.produced]

theorem Tracks.writes_of_rests {e : OutputEnd} (he : e.Rests c.capacity l) :
    e.Writes ⟨e.cursor, c.capacity - l.backlog, c.capacity - l.backlog⟩ c.capacity l := by
  refine ⟨he.cursor, he.produced, by rw [he.settled], Nat.sub_le _ _, fun q hq => ?_⟩
  have h1 := backlog_ge l hq
  have h3 := h.backlog_le
  rw [he.settled]
  simp only
  omega

theorem Tracks.openInput_eq (he : e.Rests q c.capacity l) :
    c.openInput e = ⟨e.cursor, l.published - q, l.published - q⟩ := by
  simp [openInput, h.available_eq he.released he.consumed]

theorem Tracks.reads_of_rests (he : e.Rests q c.capacity l) :
    e.Reads ⟨e.cursor, l.published - q, l.published - q⟩ q c.capacity l := by
  have hq := h.released_le q (mem_of_getElem? he.released)
  refine ⟨he.released, he.consumed, by simpa [PortView.moved] using he.cursor, le_rfl, ?_⟩
  simp only
  omega

end

/-! ## Closing -/

/-- closing the writer's port publishes everything written, also when that is nothing new -/
theorem closeOutput_eq {e : OutputEnd} (h : c.Tracks l) (hw : e.Writes v c.capacity l) :
    c.closeOutput e v =
      ({ c with produced := UInt32.ofNat l.written }, ⟨v.cursor, UInt32.ofNat l.written⟩) := by
  have hm := hw.moved
  have hp := h.published_le
  have hmoved : v.moved = l.written - l.published := by unfold PortView.moved; omega
  unfold closeOutput
  split_ifs with h0
  · have : l.written = l.published := by omega
    rw [this, ← h.produced, show e.produced = c.produced from hw.produced.trans h.produced.symm]
  · have : UInt32.ofNat l.published + UInt32.ofNat v.moved = UInt32.ofNat l.written := by
      rw [ofNat_add_total, hmoved]; congr 1; omega
    simp only [hw.produced, this]

theorem Tracks.publish (h : c.Tracks l) : Tracks { c with produced := UInt32.ofNat l.written } l.publish :=
  { h with
    produced := rfl
    published_le := le_rfl
    released_le := fun q hq => le_trans (h.released_le q hq) h.published_le }

theorem rests_of_writes {e : OutputEnd} (hw : e.Writes v c.capacity l) :
    (⟨v.cursor, UInt32.ofNat l.written⟩ : OutputEnd).Rests c.capacity l.publish :=
  ⟨hw.cursor, rfl, rfl⟩

/-- closing a reader's port releases everything taken, also when that is nothing new -/
theorem closeInput_eq (h : c.Tracks l) (hr : e.Reads v q c.capacity l) :
    c.closeInput e v =
      ({ c with consumed := c.consumed.set e.reader (UInt32.ofNat (q + v.moved)) },
        ⟨e.reader, v.cursor, UInt32.ofNat (q + v.moved)⟩) := by
  unfold closeInput
  split_ifs with h0
  · have hc : c.consumed[e.reader]? = some (UInt32.ofNat q) := by
      rw [h.consumed, getElem?_map, hr.released]; rfl
    have hset : c.consumed.set e.reader (UInt32.ofNat q) = c.consumed := by
      obtain ⟨hlt, heq⟩ := List.getElem?_eq_some_iff.1 hc
      rw [← heq, set_getElem_self]
    rw [h0, Nat.add_zero, hset, ← hr.consumed]
  · simp only [hr.consumed, ofNat_add_total]

theorem Tracks.release (h : c.Tracks l) (hr : e.Reads v q c.capacity l) :
    Tracks { c with consumed := c.consumed.set e.reader (UInt32.ofNat (q + v.moved)) }
      (l.release e.reader (q + v.moved)) := by
  have hq := mem_of_getElem? hr.released
  have hm : q + v.moved ≤ l.published := by
    have := hr.published
    unfold PortView.moved; omega
  have hcase : ∀ x ∈ (l.release e.reader (q + v.moved)).released, x ∈ l.released ∨ x = q + v.moved :=
    fun x hx => mem_or_eq_of_mem_set hx
  refine { h with consumed := ?_, released_le := ?_, lap := ?_, keeps := ?_ }
  · simp only [h.consumed, Ledger.release, map_set]
  · intro x hx
    rcases hcase x hx with hx | rfl
    · exact h.released_le x hx
    · exact hm
  · intro x hx
    rcases hcase x hx with hx | rfl
    · exact h.lap x hx
    · exact le_trans (h.lap q hq) (Nat.add_le_add_right (Nat.le_add_right _ _) _)
  · intro x hx
    rcases hcase x hx with hx | rfl
    · exact h.keeps x hx
    · exact (h.keeps q hq).mono (Nat.mul_le_mul_right _ (Nat.le_add_right _ _))

theorem rests_of_reads (hr : e.Reads v q c.capacity l) :
    (⟨e.reader, v.cursor, UInt32.ofNat (q + v.moved)⟩ : InputEnd).Rests (q + v.moved) c.capacity
      (l.release e.reader (q + v.moved)) := by
  obtain ⟨hlt, -⟩ := List.getElem?_eq_some_iff.1 hr.released
  exact ⟨getElem?_set_self hlt, rfl, hr.cursor⟩

end Connection

/-! ## Creation -/

theorem isPowerOfTwo_two_pow (k : Nat) : Word.isPowerOfTwo (2 ^ k) = true := by
  simp [Word.isPowerOfTwo, Nat.log2_two_pow]

/-- no more is granted than can be addressed -/
theorem Region.le_of_grants {size : Nat} (h : Region.grants size) : size ≤ Word.signedMax64 := by
  simp only [Region.grants, decide_eq_true_eq] at h
  simp only [Word.signedMax64]
  omega

/-- what a channel needs to be created, and the storage that it gets -/
theorem Region.forTokens_eq_ok_iff {minimum tokenSize capacity readers : Nat} {b : Block} :
    Region.forTokens minimum tokenSize capacity readers = .ok b ↔
      (0 < tokenSize ∧ 0 < readers ∧ minimum ≤ capacity ∧ Word.isPowerOfTwo capacity = true ∧
        capacity ≤ Region.largestCapacity ∧ Region.grants (capacity * tokenSize) ∧
        readers * Region.readerBytes ≤ Word.signedMax64) ∧
      b = Block.zeroed (max (capacity * tokenSize) 1) := by
  unfold Region.forTokens
  by_cases h1 : tokenSize = 0
  · simp [h1]
  by_cases h2 : readers = 0
  · simp [h1, h2]
  by_cases h3 : capacity < minimum ∨ !Word.isPowerOfTwo capacity ∨ Region.largestCapacity < capacity
  · rw [if_neg h1, if_neg h2, if_pos h3]
    simp only [reduceCtorEq, false_iff]
    rintro ⟨⟨-, -, hmin, hpow, hlarge, -⟩, -⟩
    rcases h3 with h3 | h3 | h3
    · omega
    · simp [hpow] at h3
    · omega
  rw [if_neg h1, if_neg h2, if_neg h3]
  simp only [not_or, Nat.not_lt, Bool.not_eq_true, Bool.not_eq_false'] at h3
  by_cases hlim : Region.grants (capacity * tokenSize)
  · have hword : capacity * tokenSize < Word.size64 := (Region.le_of_grants hlim).trans_lt (by decide)
    simp only [Word.mul64_eq_ok hword, Region.allocate, hlim, if_true]
    split_ifs with hread
    · simp only [Except.ok.injEq]
      constructor
      · rintro rfl
        exact ⟨⟨by omega, by omega, h3.1, h3.2.1, h3.2.2, trivial, hread⟩, rfl⟩
      · exact fun h => h.2.symm
    · simp [hread]
  · simp only [hlim, Bool.false_eq_true, false_and, and_false, iff_false]
    unfold Word.mul64
    split
    · simp
    · next size hsize =>
      split_ifs at hsize
      cases hsize
      simp [Region.allocate, hlim]

namespace Connection

variable {tokenSize capacity readers : Nat} {c c' : Connection}

/-- a new connection keeps an empty ledger -/
theorem create_eq_ok (h : create tokenSize capacity readers = .ok c) :
    c.tokenSize = tokenSize ∧ c.capacity = capacity ∧ c.outputTaken = false ∧
      c.inputsTaken = replicate readers false ∧ c.Tracks (Ledger.fresh readers) := by
  unfold create at h
  cases hb : Region.forTokens 1 tokenSize capacity readers with
  | error e => simp [hb, bind, Except.bind] at h
  | ok b =>
    simp only [hb, bind, Except.bind, pure, Except.pure, Except.ok.injEq] at h
    obtain ⟨⟨hts, -, hcap, -, hlarge, hlim, -⟩, rfl⟩ := Region.forTokens_eq_ok_iff.1 hb
    subst h
    have hzero : ∀ q ∈ (Ledger.fresh readers).released, q = 0 := fun q hq => eq_of_mem_replicate hq
    refine ⟨rfl, rfl, rfl, rfl, ⟨hcap, hts, ?_⟩, hlarge, le_max_left _ _, ?_, rfl, ?_, le_rfl, ?_, ?_, ?_⟩
    · exact Region.le_of_grants hlim
    · simp [Ledger.fresh]
    · simp [Ledger.fresh]
    · exact fun q hq => (hzero q hq).le
    · exact fun q _ => Nat.zero_le _
    · exact fun q _ => Block.keeps_nil _ _ _

theorem takeOutput_eq_ok {e : OutputEnd} (h : c.takeOutput = .ok (e, c')) :
    e = ⟨Cursor.start c.capacity, 0⟩ ∧ c' = { c with outputTaken := true } := by
  unfold takeOutput at h
  split at h
  · cases h
  · cases h
    exact ⟨rfl, rfl⟩

theorem takeInput_eq_ok {e : InputEnd} {r : Nat} (h : c.takeInput r = .ok (e, c')) :
    e = ⟨r, Cursor.start c.capacity, 0⟩ ∧ c' = { c with inputsTaken := c.inputsTaken.set r true } := by
  unfold takeInput at h
  split at h
  · cases h
  · cases h
  · cases h
    exact ⟨rfl, rfl⟩

end Connection

/-! ## What other ends do -/

section Frame

variable {l : Ledger} {v : PortView} {q capacity r total : Nat} {e : InputEnd}

theorem InputEnd.Rests.publish (h : e.Rests q capacity l) : e.Rests q capacity l.publish :=
  ⟨h.released, h.consumed, h.cursor⟩

theorem InputEnd.Reads.publish (h : e.Reads v q capacity l) (hle : l.published ≤ l.written) :
    e.Reads v q capacity l.publish :=
  { h with published := le_trans h.published hle }

theorem InputEnd.Rests.release_other (h : e.Rests q capacity l) (hr : r ≠ e.reader) :
    e.Rests q capacity (l.release r total) :=
  ⟨by rw [Ledger.release, getElem?_set_ne hr]; exact h.released, h.consumed, h.cursor⟩

theorem InputEnd.Reads.release_other (h : e.Reads v q capacity l) (hr : r ≠ e.reader) :
    e.Reads v q capacity (l.release r total) :=
  { h with released := by rw [Ledger.release, getElem?_set_ne hr]; exact h.released }

theorem OutputEnd.Rests.release {e : OutputEnd} (h : e.Rests capacity l) : e.Rests capacity (l.release r total) :=
  ⟨h.cursor, h.produced, h.settled⟩

/-- a reader that moves on leaves the writer more room, never less -/
theorem OutputEnd.Writes.release {e : OutputEnd} (h : e.Writes v capacity l) (hr : l.released[r]? = some q)
    (hle : q ≤ total) : e.Writes v capacity (l.release r total) := by
  refine { h with room := fun x hx => ?_ }
  rcases mem_or_eq_of_mem_set hx with hx | rfl
  · exact h.room x hx
  · exact le_trans (h.room q (mem_of_getElem? hr)) (by omega)

theorem InputEnd.Rests.write (h : e.Rests q capacity l) (n : Nat) (bytes : Bytes) :
    e.Rests q capacity (l.write n bytes) := ⟨h.released, h.consumed, h.cursor⟩

theorem InputEnd.Reads.write (h : e.Reads v q capacity l) (n : Nat) (bytes : Bytes) :
    e.Reads v q capacity (l.write n bytes) :=
  ⟨h.released, h.consumed, h.cursor, h.available_le, h.published⟩

end Frame

end Dataflow
