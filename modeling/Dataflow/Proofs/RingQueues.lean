import Dataflow.Channel.TokenRing
import Dataflow.Proofs.ConnectionTransfer

/-!
A ring with one writer and many readers is as many queues. `Queues` has no indices to wrap and no storage to share.

- `TokenRing.run_agrees`: along any history the ring gives the answers of the queues.
- `ring_refines_queues`: a ring of any token size and any power-of-two capacity from two slots on can be created for any
  number of readers, and from then on answers as the queues do, each reader being shown the published tokens from the
  first that it has not released. It refuses only what the queues refuse; its levels are those of the queues; no reader
  is told of bytes stored ahead; and no word overflows.
- Witness `ring_refines_queues_two_slots`.

Premises: tokens that are not empty, a reader, 2 ^ 31 slots at most, and storage that can be had.
-/

namespace Dataflow

open List

/-- what can be done with a ring -/
inductive RingOp where
  | count (reader : Nat)
  | rooms
  | writeAddress
  | writeSlices (n : Nat)
  | fill (n : Nat) (bytes : Bytes)
  | publish (n : Nat)
  | write (bytes : Bytes)
  | push (p : Primitive) (value : p.Value)
  | readAddress (reader : Nat)
  | readSlices (reader n : Nat)
  | release (reader n : Nat)
  | read (reader length : Nat)
  | peek (reader : Nat) (p : Primitive) (offset : Nat)
  | pop (reader : Nat) (p : Primitive)

/-- the operations by which a reader looks at the ring -/
def RingOp.isReading : RingOp → Bool
  | .count _ | .readAddress _ | .readSlices _ _ | .read _ _ | .peek _ _ _ | .pop _ _ => true
  | _ => false

inductive RingAnswer where
  | done
  | number (n : Nat)
  | flag (b : Bool)
  | bytes (bytes : Bytes)
  /-- a stretch of slots, up to the end of the storage and from its start -/
  | parts (first second : Bytes)
  /-- how many tokens were read, and their bytes -/
  | tokens (n : Nat) (bytes : Bytes)
  | value (p : Primitive) (value : Option p.Value)

namespace TokenRing

def step (x : TokenRing) : RingOp → Checked (RingAnswer × TokenRing)
  | .count r => do return (.number (← x.count r), x)
  | .rooms => do return (.number (← x.rooms), x)
  | .writeAddress => do return (.bytes (← x.writeAddress), x)
  | .writeSlices n => do
    let (first, second) ← x.writeSlices n
    return (.parts first second, x)
  | .fill n bytes => do return (.done, ← x.fill n bytes)
  | .publish n => do return (.done, ← x.publish n)
  | .write bytes => do
    let (n, x) ← x.write bytes
    return (.number n, x)
  | .push p value => do
    let (pushed, x) ← x.push p value
    return (.flag pushed, x)
  | .readAddress r => do return (.bytes (← x.readAddress r), x)
  | .readSlices r n => do
    let (first, second) ← x.readSlices r n
    return (.parts first second, x)
  | .release r n => do return (.done, ← x.release r n)
  | .read r length => do
    let (n, bytes, x) ← x.read r length
    return (.tokens n bytes, x)
  | .peek r p offset => do return (.value p (← x.peek r p offset), x)
  | .pop r p => do
    let (value, x) ← x.pop r p
    return (.value p value, x)

def run (x : TokenRing) : List RingOp → Checked (List RingAnswer × TokenRing)
  | [] => .ok ([], x)
  | op :: ops => do
    let (answer, x) ← x.step op
    let (answers, x) ← x.run ops
    return (answer :: answers, x)

end TokenRing

/-! ## The queues -/

/-- a ring as its history -/
structure Queues where
  /-- the bytes of all tokens published -/
  stream : Bytes
  /-- tokens published -/
  published : Nat
  /-- tokens released, by reader -/
  released : List Nat
  /-- what the slots hold, from the next one to be written on, over one lap -/
  ahead : Bytes
deriving DecidableEq, Repr

namespace Queues

def backlog (q : Queues) : Nat := (q.released.map (q.published - ·)).foldl max 0

variable (tokenSize capacity : Nat)

/-- nothing published, all slots zero -/
def start (readers : Nat) : Queues := ⟨[], 0, List.replicate readers 0, List.replicate (capacity * tokenSize) 0⟩

/-- slots that the writer may fill: one stays free -/
def rooms (q : Queues) : Nat := capacity - 1 - q.backlog

/-- the bytes of `n` published tokens from number `k` on -/
def shown (q : Queues) (k n : Nat) : Bytes := (q.stream.drop (k * tokenSize)).take (n * tokenSize)

/-- bytes are stored into the next `n` slots, as many as fit -/
def fill (q : Queues) (n : Nat) (bytes : Bytes) : Queues :=
  { q with ahead := bytes.take (n * tokenSize) ++ q.ahead.drop (bytes.take (n * tokenSize)).length }

/-- the next `n` slots are published as they are -/
def publish (q : Queues) (n : Nat) : Queues :=
  { q with
    stream := q.stream ++ q.ahead.take (n * tokenSize)
    published := q.published + n
    ahead := q.ahead.drop (n * tokenSize) ++ q.ahead.take (n * tokenSize) }

def release (q : Queues) (reader total : Nat) : Queues := { q with released := q.released.set reader total }

/-- one operation, where it is allowed -/
def step (q : Queues) : RingOp → Option (RingAnswer × Queues)
  | .count r => do
    let c ← q.released[r]?
    some (.number (q.published - c), q)
  | .rooms => some (.number (q.rooms capacity), q)
  | .writeAddress => some (.bytes (q.ahead.take (lead q.published (q.rooms capacity) capacity * tokenSize)), q)
  | .writeSlices n =>
    let k := lead q.published n capacity
    if n ≤ q.rooms capacity then
      some (.parts (q.ahead.take (k * tokenSize)) ((q.ahead.drop (k * tokenSize)).take ((n - k) * tokenSize)), q)
    else none
  | .fill n bytes => if n ≤ q.rooms capacity then some (.done, q.fill tokenSize n bytes) else none
  | .publish n => if n ≤ q.rooms capacity then some (.done, q.publish tokenSize n) else none
  | .write bytes =>
    let n := min (Word.low32 (bytes.length / tokenSize)) (q.rooms capacity)
    some (.number n, (q.fill tokenSize n bytes).publish tokenSize n)
  | .push p value =>
    if p.size = tokenSize then
      if q.rooms capacity = 0 then some (.flag false, q)
      else some (.flag true, (q.fill tokenSize 1 (p.encode value)).publish tokenSize 1)
    else none
  | .readAddress r => do
    let c ← q.released[r]?
    some (.bytes (q.shown tokenSize c (lead c (q.published - c) capacity)), q)
  | .readSlices r n => do
    let c ← q.released[r]?
    let k := lead c n capacity
    if n ≤ q.published - c then some (.parts (q.shown tokenSize c k) (q.shown tokenSize (c + k) (n - k)), q) else none
  | .release r n => do
    let c ← q.released[r]?
    if n ≤ q.published - c then some (.done, q.release r (c + n)) else none
  | .read r length => do
    let c ← q.released[r]?
    let n := min (Word.low32 (length / tokenSize)) (q.published - c)
    some (.tokens n (q.shown tokenSize c n), q.release r (c + n))
  | .peek r p offset =>
    if p.size = tokenSize then do
      let c ← q.released[r]?
      some (.value p (if offset < q.published - c then some (p.ofToken (q.shown tokenSize (c + offset) 1)) else none),
        q)
    else none
  | .pop r p =>
    if p.size = tokenSize then do
      let c ← q.released[r]?
      if c < q.published then some (.value p (some (p.ofToken (q.shown tokenSize c 1))), q.release r (c + 1))
      else some (.value p none, q)
    else none

def run (q : Queues) : List RingOp → Option (List RingAnswer × Queues)
  | [] => some ([], q)
  | op :: ops => do
    let (answer, q) ← q.step tokenSize capacity op
    let (answers, q) ← q.run ops
    return (answer :: answers, q)

end Queues

/-! ## What relates the two -/

namespace TokenRing

/-- the ring is in the state that the queues say -/
structure Stores (x : TokenRing) (tokenSize capacity : Nat) (q : Queues) : Prop where
  tokenSize_eq : x.tokenSize = tokenSize
  capacity_eq : x.capacity = capacity
  ring : Addressable capacity tokenSize
  bounded : capacity ≤ Region.largestCapacity
  storage : capacity * tokenSize ≤ x.storage.size
  readers : q.released ≠ []
  head : x.head = q.published % capacity
  tails : x.tails = q.released.map (· % capacity)
  length : q.stream.length = q.published * tokenSize
  lap_length : q.ahead.length = capacity * tokenSize
  released_le : ∀ c ∈ q.released, c ≤ q.published
  /-- one slot stays free -/
  lap : ∀ c ∈ q.released, q.published < c + capacity
  /-- every token that some reader has not released is in its slot -/
  keeps : ∀ c ∈ q.released, x.storage.Keeps (capacity * tokenSize) q.stream (c * tokenSize)
  /-- the slots that come next hold what the queues say -/
  holds : x.storage.Keeps (capacity * tokenSize) (q.stream ++ q.ahead) (q.published * tokenSize)

variable {x x' : TokenRing} {tokenSize capacity n r c a : Nat} {q : Queues} {bytes : Bytes} {p : Primitive}
  {result : Checked (RingAnswer × TokenRing)}

/-! ## Indices -/

theorem mod_of_lap {b : Nat} (hb : b < capacity) (h : a = b ∨ a = b + capacity) : a % capacity = b := by
  rcases h with rfl | rfl
  · exact Nat.mod_eq_of_lt hb
  · rw [Nat.add_mod_right, Nat.mod_eq_of_lt hb]

/-- the distance of two indices and the free slots between them, in words, are those of the totals -/
theorem levels_mod {head tail : Nat} (hle : tail ≤ head) (hlap : head < tail + capacity) :
    (capacity + head % capacity - tail % capacity) % capacity = head - tail ∧
      (capacity + tail % capacity - head % capacity - 1) % capacity = capacity - 1 - (head - tail) := by
  have hc : 0 < capacity := by omega
  obtain ⟨d, rfl⟩ : ∃ d, head = tail + d := ⟨head - tail, by omega⟩
  rw [add_mod_lap hc (by omega)]
  constructor
  · exact mod_of_lap (by omega) (by split_ifs <;> omega)
  · exact mod_of_lap (by omega) (by split_ifs <;> omega)

/-- the sum of two indices of the largest ring is a word -/
theorem add32_index (hbounded : capacity ≤ Region.largestCapacity) (ha : a < capacity) :
    Word.add32 capacity a = .ok (capacity + a) := by
  have hword : capacity + a < Word.size32 := by
    simp only [Region.largestCapacity, Word.size32] at *
    omega
  simp [Word.add32, hword]

namespace Stores

section

variable (h : x.Stores tokenSize capacity q)

include h

theorem unread_eq (hc : c ∈ q.released) : x.unread (c % capacity) = .ok (q.published - c) := by
  have hslots := h.ring.slots
  have hh := Nat.mod_lt q.published hslots
  have ht := Nat.mod_lt c hslots
  rw [unread, h.capacity_eq, h.head, add32_index h.bounded hh, Checked.ok_bind,
    Word.sub_eq_ok (by omega), Checked.ok_bind, (levels_mod (h.released_le c hc) (h.lap c hc)).1]
  rfl

theorem roomBefore_eq (hc : c ∈ q.released) : x.roomBefore (c % capacity) = .ok (capacity - 1 - (q.published - c)) := by
  have hslots := h.ring.slots
  have hh := Nat.mod_lt q.published hslots
  have ht := Nat.mod_lt c hslots
  rw [roomBefore, h.capacity_eq, h.head, add32_index h.bounded ht, Checked.ok_bind, Word.sub_eq_ok (by omega),
    Checked.ok_bind, Word.sub_eq_ok (by omega), Checked.ok_bind, (levels_mod (h.released_le c hc) (h.lap c hc)).2]
  rfl

theorem fetch_tail (hr : q.released[r]? = some c) : fetch x.tails r = .ok (c % capacity) := by
  refine fetch_eq_ok ?_
  rw [h.tails, getElem?_map, hr]
  rfl

theorem no_tail (hr : q.released[r]? = none) : fetch x.tails r = .error .range := by
  rw [fetch, h.tails, getElem?_map, hr]
  rfl

theorem count_eq (hr : q.released[r]? = some c) : x.count r = .ok (q.published - c) := by
  rw [count, h.fetch_tail hr, Checked.ok_bind, h.unread_eq (mem_of_getElem? hr)]

end

end Stores

theorem foldl_min_sub (k a : Nat) (xs : List Nat) : (xs.map (k - ·)).foldl min (k - a) = k - xs.foldl max a := by
  induction xs generalizing a with
  | nil => rfl
  | cons x xs ih =>
    rw [map_cons, foldl_cons, foldl_cons, show min (k - a) (k - x) = k - max a x by omega, ih]

namespace Stores

theorem rooms_eq (h : x.Stores tokenSize capacity q) : x.rooms = .ok (q.rooms capacity) := by
  have hmap : x.tails.mapM x.roomBefore = .ok ((q.released.map (q.published - ·)).map (capacity - 1 - ·)) := by
    rw [h.tails, map_map]
    have hall : ∀ cs : List Nat, (∀ c ∈ cs, c ∈ q.released) → (cs.map (· % capacity)).mapM x.roomBefore =
        .ok (cs.map ((capacity - 1 - ·) ∘ (q.published - ·))) := by
      intro cs hcs
      induction cs with
      | nil => rfl
      | cons c cs ih =>
        rw [map_cons, mapM_cons, h.roomBefore_eq (hcs c mem_cons_self), Checked.ok_bind,
          ih fun c' hc' => hcs c' (mem_cons_of_mem c hc')]
        rfl
    exact hall q.released fun _ => id
  rw [rooms, hmap, Checked.ok_bind, Queues.rooms, Queues.backlog]
  obtain ⟨c, cs, hcs⟩ := exists_cons_of_ne_nil h.readers
  have hmin := foldl_min_sub (capacity - 1) (q.published - c) (cs.map (q.published - ·))
  simp only [hcs, map_cons, headD_cons, foldl_cons, min_self, hmin, Nat.zero_max, Checked.pure_eq]

theorem backlog_le (h : x.Stores tokenSize capacity q) : q.backlog ≤ capacity - 1 := by
  refine foldl_max_le (Nat.zero_le _) fun b hb => ?_
  obtain ⟨c, hc, rfl⟩ := mem_map.1 hb
  have := h.lap c hc
  omega

theorem le_backlog (hc : c ∈ q.released) : q.published - c ≤ q.backlog :=
  le_foldl_max (.inr (mem_map_of_mem hc))

section

variable (h : x.Stores tokenSize capacity q)

include h

/-- slots that may be filled end before the place of every reader, one lap on -/
theorem room (hn : n ≤ q.rooms capacity) (hc : c ∈ q.released) : q.published + n < c + capacity := by
  have hle := le_backlog hc
  have hbound := h.backlog_le
  have hslots := h.ring.slots
  unfold Queues.rooms at hn
  omega

theorem rooms_lt (hn : n ≤ q.rooms capacity) : n < capacity := by
  have hslots := h.ring.slots
  unfold Queues.rooms at hn
  omega

/-! ## Operations -/

theorem parts_eq (t : Nat) (hn : n ≤ capacity) : x.parts (t % capacity) n = .ok (stretch t n capacity tokenSize) := by
  rw [parts, h.capacity_eq, h.tokenSize_eq]
  exact split_byteRanges h.ring hn

section

variable (hn : n ≤ q.rooms capacity)

include hn

theorem writeParts_eq : x.writeParts n = .ok (stretch q.published n capacity tokenSize) := by
  rw [writeParts, h.rooms_eq, Checked.ok_bind, require_true hn, Checked.ok_bind, h.head,
    h.parts_eq q.published (h.rooms_lt hn).le]

/-- storing ahead of the write index changes what is ahead, and nothing that a reader has before it -/
theorem fill_ok (bytes : Bytes) :
    ∃ x', x.fill n bytes = .ok x' ∧ x'.Stores tokenSize capacity (q.fill tokenSize n bytes) := by
  have hcap := (h.rooms_lt hn).le
  set stored := bytes.take (n * tokenSize) with hstored
  have hshort : stored.length ≤ capacity * tokenSize :=
    (length_take_le _ _).trans (Nat.mul_le_mul_right _ hcap)
  refine ⟨{ x with storage := x.storage.storeRuns (stretch q.published n capacity tokenSize) bytes }, ?_, ?_⟩
  · rw [fill, h.writeParts_eq hn, Checked.ok_bind, Block.writeRuns_stretch h.ring.slots h.storage hcap bytes]
    rfl
  refine { h with storage := by simpa using h.storage, lap_length := ?_, keeps := fun c hc => ?_, holds := ?_ }
  · simp only [Queues.fill, ← hstored, length_append, length_drop, h.lap_length]
    omega
  · refine ((h.keeps c hc).storeRuns n bytes h.ring.slots h.length hcap ?_).append_left
    rw [← Nat.add_mul]
    exact Nat.mul_le_mul_right _ (h.room hn hc).le
  · -- what was stored is ahead now, and what lies beyond it is as it was
    have hnew : (x.storage.storeRuns (stretch q.published n capacity tokenSize) bytes).Keeps (capacity * tokenSize)
        (q.stream ++ stored) (q.published * tokenSize) := by
      refine (Block.keeps_of_length_le h.length.le).storeRuns n bytes h.ring.slots h.length hcap ?_
      rw [Nat.add_mul]
      exact Nat.add_le_add_left (Nat.mul_le_mul_right _ hcap) _
    have hbeyond := hnew.append (q.ahead.drop stored.length) fun d hd => ?_
    · rwa [append_assoc] at hbeyond
    · rw [length_drop, h.lap_length] at hd
      rw [length_append, Nat.add_assoc, h.length, Block.byteAt_storeRuns_ahead h.ring.slots
        (Nat.le_add_right stored.length d)
        (by omega), ← h.length, h.holds.byteAt_right (by rw [h.lap_length]; omega) (by rw [h.length]; omega),
        getElem_drop]

/-- publishing makes the next slots a part of the stream, as they are -/
theorem publish_ok : ∃ x', x.publish n = .ok x' ∧ x'.Stores tokenSize capacity (q.publish tokenSize n) := by
  have hcap := (h.rooms_lt hn).le
  have hshort : n * tokenSize ≤ capacity * tokenSize := Nat.mul_le_mul_right _ hcap
  have htake : (q.ahead.take (n * tokenSize)).length = n * tokenSize := by rw [length_take, h.lap_length]; omega
  refine ⟨{ x with head := (x.head + n) % capacity }, ?_, ?_⟩
  · rw [publish, h.rooms_eq, Checked.ok_bind, require_true hn, Checked.ok_bind, h.capacity_eq]
    rfl
  refine { h with head := ?_, length := ?_, lap_length := ?_, released_le := fun c hc => ?_, lap := fun c hc => ?_,
                  keeps := fun c hc => ?_, holds := ?_ }
  · rw [h.head, Nat.mod_add_mod]
    rfl
  · simp [Queues.publish, h.length, htake, Nat.add_mul]
  · simp only [Queues.publish, length_append, length_drop, htake, h.lap_length]
    omega
  · exact (h.released_le c hc).trans (Nat.le_add_right _ _)
  · exact h.room hn hc
  · refine (h.keeps c hc).append _ fun d hd => ?_
    rw [h.holds.byteAt_right (by rw [h.lap_length]; omega) (by rw [h.length]; omega), getElem_take]
  · -- one lap on, the slots just published come again
    have hlo : q.published * tokenSize ≤ (q.published + n) * tokenSize := Nat.mul_le_mul_right _ (Nat.le_add_right _ _)
    have hround := (h.holds.mono hlo).append (q.ahead.take (n * tokenSize)) fun d hd => ?_
    · rwa [← take_append_drop (n * tokenSize) q.ahead, append_assoc, append_assoc, ← append_assoc,
        take_append_drop] at hround
    · rw [htake] at hd
      rw [length_append, h.lap_length, Nat.add_right_comm, Nat.add_mod_right,
        h.holds.byteAt_right (by rw [h.lap_length]; omega) (by rw [h.length]; omega), getElem_take]

end

/-- a reader releases tokens that it has before it -/
theorem release_ok (hr : q.released[r]? = some c) (hn : n ≤ q.published - c) :
    ∃ x', x.release r n = .ok x' ∧ x'.Stores tokenSize capacity (q.release r (c + n)) := by
  have hc := mem_of_getElem? hr
  have hle := h.released_le c hc
  have hlap := h.lap c hc
  have hmem : ∀ {c'}, c' ∈ q.released.set r (c + n) → c' ∈ q.released ∨ c' = c + n := fun hc' =>
    (mem_or_eq_of_mem_set hc')
  refine ⟨{ x with tails := x.tails.set r ((c + n) % capacity) }, ?_, ?_⟩
  · rw [release, h.fetch_tail hr, Checked.ok_bind, h.unread_eq hc, Checked.ok_bind, require_true hn, Checked.ok_bind,
      h.capacity_eq, Nat.mod_add_mod]
    rfl
  refine { h with readers := ?_, tails := ?_, released_le := fun c' hc' => ?_, lap := fun c' hc' => ?_,
                  keeps := fun c' hc' => ?_ }
  · simpa [Queues.release] using h.readers
  · simp only [Queues.release, h.tails, map_set]
  · rcases hmem hc' with hc' | rfl
    · exact h.released_le c' hc'
    · simp only [Queues.release]
      omega
  · rcases hmem hc' with hc' | rfl
    · exact h.lap c' hc'
    · simp only [Queues.release]
      omega
  · rcases hmem hc' with hc' | rfl
    · exact h.keeps c' hc'
    · exact (h.keeps c hc).mono (Nat.mul_le_mul_right _ (Nat.le_add_right _ _))

/-- what is ahead makes a lap -/
theorem ahead_end (hn : n ≤ capacity) : (q.published + n) * tokenSize ≤ (q.stream ++ q.ahead).length := by
  rw [length_append, h.length, h.lap_length, ← Nat.add_mul]
  exact Nat.mul_le_mul_right _ (by omega)

/-- tokens of one reader, up to the end of the storage and from its start -/
theorem readSlices_eq (hr : q.released[r]? = some c) (hn : n ≤ q.published - c) :
    x.readSlices r n = .ok (q.shown tokenSize c (lead c n capacity),
      q.shown tokenSize (c + lead c n capacity) (n - lead c n capacity)) := by
  have hc := mem_of_getElem? hr
  have hle := h.released_le c hc
  have hlap := h.lap c hc
  have hcap : n ≤ capacity := by omega
  obtain ⟨hfirst, hsecond⟩ := (h.keeps c hc).read_parts h.ring.slots h.storage hcap le_rfl
    (h.length ▸ Nat.mul_le_mul_right _ (by omega))
  rw [readSlices, h.fetch_tail hr, Checked.ok_bind, h.unread_eq hc, Checked.ok_bind, require_true hn, Checked.ok_bind,
    h.parts_eq c hcap, Checked.ok_bind]
  simp only [hfirst, hsecond]
  rfl

/-- a reader takes what is unread and fits -/
theorem read_ok (hr : q.released[r]? = some c) (length : Nat)
    (hn : n = min (Word.low32 (length / tokenSize)) (q.published - c)) :
    ∃ x', x.read r length = .ok (n, q.shown tokenSize c n, x') ∧ x.release r n = .ok x' ∧
      x'.Stores tokenSize capacity (q.release r (c + n)) := by
  have hle : n ≤ q.published - c := hn ▸ min_le_right _ _
  obtain ⟨x', hrelease, h'⟩ := h.release_ok hr hle
  refine ⟨x', ?_, hrelease, h'⟩
  simp only [read, h.tokenSize_eq, h.count_eq hr, Checked.ok_bind, ← hn, h.readSlices_eq hr hle,
    hrelease, Checked.pure_eq]
  congr 2
  rw [Queues.shown, Queues.shown, Queues.shown, Nat.add_mul, ← drop_drop, ← take_add, lead_mul]

/-- the slots to be written next, up to the end of the storage and from its start -/
theorem writeSlices_eq (hn : n ≤ q.rooms capacity) :
    x.writeSlices n = .ok (q.ahead.take (lead q.published n capacity * tokenSize),
      (q.ahead.drop (lead q.published n capacity * tokenSize)).take
      ((n - lead q.published n capacity) * tokenSize)) := by
  have hcap := (h.rooms_lt hn).le
  obtain ⟨hfirst, hsecond⟩ := h.holds.read_parts h.ring.slots h.storage hcap le_rfl (h.ahead_end hcap)
  rw [writeSlices, h.writeParts_eq hn, Checked.ok_bind]
  simp only [hfirst, hsecond]
  rw [Nat.add_mul, ← drop_drop, ← h.length, drop_left]
  rfl

/-- the longest stretch that a reader can be shown in one piece -/
theorem readAddress_eq (hr : q.released[r]? = some c) :
    x.readAddress r = .ok (q.shown tokenSize c (lead c (q.published - c) capacity)) := by
  have hc := mem_of_getElem? hr
  have hle := h.released_le c hc
  have hlap := h.lap c hc
  have hfirst := ((h.keeps c hc).read_parts (n := q.published - c) h.ring.slots h.storage (by omega) le_rfl
    (h.length ▸ Nat.mul_le_mul_right _ (by omega))).1
  rw [stretch_fst_length] at hfirst
  rw [readAddress, h.fetch_tail hr, Checked.ok_bind, h.unread_eq hc, Checked.ok_bind, h.capacity_eq, h.tokenSize_eq,
    Nat.min_comm]
  exact hfirst

/-- the longest stretch that the writer can fill in one piece -/
theorem writeAddress_eq :
    x.writeAddress = .ok (q.ahead.take (lead q.published (q.rooms capacity) capacity * tokenSize)) := by
  have hcap := (h.rooms_lt le_rfl).le
  have hfirst := (h.holds.read_parts h.ring.slots h.storage hcap le_rfl (h.ahead_end hcap)).1
  rw [stretch_fst_length, ← h.length, drop_left] at hfirst
  rw [writeAddress, h.rooms_eq, Checked.ok_bind, h.capacity_eq, h.tokenSize_eq, h.head, Nat.min_comm]
  exact hfirst

theorem peek_eq (hp : p.size = tokenSize) (hr : q.released[r]? = some c) (offset : Nat) :
    x.peek r p offset =
      .ok (if offset < q.published - c then some (p.ofToken (q.shown tokenSize (c + offset) 1)) else none) := by
  have hc := mem_of_getElem? hr
  have hlap := h.lap c hc
  rw [peek, require_true (hp.trans h.tokenSize_eq.symm), Checked.ok_bind, h.fetch_tail hr, Checked.ok_bind,
    h.unread_eq hc, Checked.ok_bind]
  split_ifs with hfar hnear hnear
  · omega
  · rfl
  · have hlast : (c + offset + 1) * tokenSize ≤ q.stream.length := h.length ▸ Nat.mul_le_mul_right _ (by omega)
    have hword : c % capacity + offset < Word.size32 := by
      have ht := Nat.mod_lt c h.ring.slots
      have hbounded := h.bounded
      simp only [Region.largestCapacity, Word.size32] at *
      omega
    have hread := (h.keeps c hc).read_token h.ring.slots h.storage
      (Nat.mul_le_mul_right _ (Nat.le_add_right c offset)) hlast
    rw [Nat.add_mul, Nat.one_mul] at hlast
    have htoken : ((q.stream.drop ((c + offset) * tokenSize)).take tokenSize).length = p.size := by
      rw [length_take, length_drop, hp]
      omega
    simp [Word.add32, hword, h.capacity_eq, Nat.mod_add_mod, hp, hread, Primitive.decode_eq_ok htoken, Queues.shown]
  · omega

end

end Stores

/-! ## Steps and runs -/

/-- both sides refuse, or both go on with one answer -/
def Agrees (tokenSize capacity : Nat) (result : Checked (RingAnswer × TokenRing)) : Option (RingAnswer × Queues) → Prop
  | none => ∃ f, result = .error f
  | some (answer, q) => ∃ x, result = .ok (answer, x) ∧ x.Stores tokenSize capacity q

section

attribute [local simp] TokenRing.step

variable (h : x.Stores tokenSize capacity q)

include h

theorem write_agrees (bytes : Bytes) :
    Agrees tokenSize capacity (x.step (.write bytes)) (q.step tokenSize capacity (.write bytes)) := by
  set n := min (Word.low32 (bytes.length / tokenSize)) (q.rooms capacity) with hn
  have hle : n ≤ q.rooms capacity := min_le_right _ _
  obtain ⟨x1, hfill, h1⟩ := h.fill_ok hle (bytes.take (n * tokenSize))
  obtain ⟨x2, hpublish, h2⟩ := h1.publish_ok hle
  have htwice : q.fill tokenSize n (bytes.take (n * tokenSize)) = q.fill tokenSize n bytes := by
    simp [Queues.fill, take_take]
  rw [htwice] at h2
  simp only [step, write, h.rooms_eq, h.tokenSize_eq, Checked.ok_bind, ← hn]
  by_cases h0 : n = 0
  · refine ⟨x, ?_, ?_⟩
    · rw [if_pos h0, ← hn, h0]
      rfl
    · simpa [← hn, h0, Queues.fill, Queues.publish] using h
  · exact ⟨x2, by simp [h0, hfill, hpublish, ← hn], h2⟩

theorem push_agrees (p : Primitive) (value : p.Value) :
    Agrees tokenSize capacity (x.step (.push p value)) (q.step tokenSize capacity (.push p value)) := by
  simp only [step, push, Queues.step, h.tokenSize_eq]
  split_ifs with hp h0
  · exact ⟨x, by simp [hp, h.rooms_eq, h0], h⟩
  · have hle : 1 ≤ q.rooms capacity := Nat.one_le_iff_ne_zero.2 h0
    obtain ⟨x1, hfill, h1⟩ := h.fill_ok hle (p.encode value)
    obtain ⟨x2, hpublish, h2⟩ := h1.publish_ok hle
    exact ⟨x2, by simp [hp, h.rooms_eq, h0, hfill, hpublish], h2⟩
  · exact ⟨.contract, by simp [require_false hp]⟩

/-- an operation of a reader is refused where the ring has no such reader -/
theorem reader_agrees {f : Nat → Option (RingAnswer × Queues)}
    (hnone : fetch x.tails r = .error .range → result = .error .range)
    (hsome : ∀ {c}, q.released[r]? = some c → Agrees tokenSize capacity result (f c)) :
    Agrees tokenSize capacity result (q.released[r]? >>= f) := by
  cases hr : q.released[r]? with
  | none => exact ⟨.range, hnone (h.no_tail hr)⟩
  | some c => exact hsome hr

theorem read_agrees (r length : Nat) :
    Agrees tokenSize capacity (x.step (.read r length)) (q.step tokenSize capacity (.read r length)) := by
  refine reader_agrees h (fun hr => by simp [read, count, hr]) @fun c hr => ?_
  obtain ⟨x', hread, -, h'⟩ := h.read_ok hr length rfl
  exact ⟨x', by simp [hread], h'⟩

theorem pop_agrees (r : Nat) (p : Primitive) :
    Agrees tokenSize capacity (x.step (.pop r p)) (q.step tokenSize capacity (.pop r p)) := by
  simp only [Queues.step]
  split_ifs with hp
  · refine reader_agrees h (fun hr => by simp [pop, peek, hp, h.tokenSize_eq, hr])
      fun hr => ?_
    have hpeek := h.peek_eq hp hr 0
    split_ifs with hlt
    · obtain ⟨x', hrelease, h'⟩ := h.release_ok (n := 1) hr (by omega)
      rw [if_pos (by omega)] at hpeek
      exact ⟨x', by simp [pop, hpeek, hrelease], h'⟩
    · rw [if_neg (by omega)] at hpeek
      exact ⟨x, by simp [pop, hpeek], h⟩
  · exact ⟨.contract, by simp [pop, peek, h.tokenSize_eq, require_false hp]⟩

theorem step_agrees (op : RingOp) : Agrees tokenSize capacity (x.step op) (q.step tokenSize capacity op) := by
  have hrefuse : ∀ {n}, ¬ n ≤ q.rooms capacity → x.writeParts n = .error .contract := fun hn => by
    simp [writeParts, h.rooms_eq, require_false hn]
  cases op with
  | count r =>
    exact reader_agrees h (fun hr => by simp [count, hr])
      fun hr => ⟨x, by simp [h.count_eq hr], h⟩
  | rooms => exact ⟨x, by simp [h.rooms_eq], h⟩
  | writeAddress => exact ⟨x, by simp [h.writeAddress_eq], h⟩
  | writeSlices n =>
    simp only [Queues.step]
    split_ifs with hn
    · exact ⟨x, by simp [h.writeSlices_eq hn], h⟩
    · exact ⟨.contract, by simp [writeSlices, hrefuse hn]⟩
  | fill n bytes =>
    simp only [Queues.step]
    split_ifs with hn
    · obtain ⟨x', hfill, h'⟩ := h.fill_ok hn bytes
      exact ⟨x', by simp [hfill], h'⟩
    · exact ⟨.contract, by simp [fill, hrefuse hn]⟩
  | publish n =>
    simp only [Queues.step]
    split_ifs with hn
    · obtain ⟨x', hpublish, h'⟩ := h.publish_ok hn
      exact ⟨x', by simp [hpublish], h'⟩
    · exact ⟨.contract, by simp [publish, h.rooms_eq, require_false hn]⟩
  | write bytes => exact write_agrees h bytes
  | push p value => exact push_agrees h p value
  | readAddress r =>
    exact reader_agrees h (fun hr => by simp [readAddress, hr])
      fun hr => ⟨x, by simp [h.readAddress_eq hr], h⟩
  | readSlices r n =>
    refine reader_agrees h (fun hr => by simp [readSlices, hr]) fun hr => ?_
    split_ifs with hn
    · exact ⟨x, by simp [h.readSlices_eq hr hn], h⟩
    · refine ⟨.contract, ?_⟩
      simp [readSlices, h.fetch_tail hr, h.unread_eq (mem_of_getElem? hr), require_false hn]
  | release r n =>
    refine reader_agrees h (fun hr => by simp [release, hr]) fun hr => ?_
    split_ifs with hn
    · obtain ⟨x', hrelease, h'⟩ := h.release_ok hr hn
      exact ⟨x', by simp [hrelease], h'⟩
    · refine ⟨.contract, ?_⟩
      simp [release, h.fetch_tail hr, h.unread_eq (mem_of_getElem? hr), require_false hn]
  | read r length => exact read_agrees h r length
  | peek r p offset =>
    simp only [Queues.step]
    split_ifs with hp
    · exact reader_agrees h (fun hr => by simp [peek, hp, h.tokenSize_eq, hr])
        fun hr => ⟨x, by simp [h.peek_eq hp hr], h⟩
    · exact ⟨.contract, by simp [peek, h.tokenSize_eq, require_false hp]⟩
  | pop r p => exact pop_agrees h r p

theorem run_agrees (ops : List RingOp) :
    match q.run tokenSize capacity ops with
    | none => ∃ f, x.run ops = .error f
    | some (answers, q') => ∃ x', x.run ops = .ok (answers, x') ∧ x'.Stores tokenSize capacity q' := by
  induction ops generalizing x q with
  | nil => exact ⟨x, rfl, h⟩
  | cons op ops ih =>
    have hstep := step_agrees h op
    match hq : q.step tokenSize capacity op with
    | none =>
      rw [hq] at hstep
      obtain ⟨f, hf⟩ := hstep
      simp only [Queues.run, hq, Option.bind_eq_bind, Option.bind_none]
      exact ⟨f, by simp [-step, run, hf]⟩
    | some (answer, q1) =>
      rw [hq] at hstep
      obtain ⟨x1, hx1, h1⟩ := hstep
      have hrest := ih h1
      match hq1 : q1.run tokenSize capacity ops with
      | none =>
        rw [hq1] at hrest
        obtain ⟨f, hf⟩ := hrest
        simp only [Queues.run, hq, hq1, Option.bind_eq_bind, Option.bind_some, Option.bind_none]
        exact ⟨f, by simp [-step, run, hx1, hf]⟩
      | some (answers, q2) =>
        rw [hq1] at hrest
        obtain ⟨x2, hx2, h2⟩ := hrest
        simp only [Queues.run, hq, hq1, Option.bind_eq_bind, Option.bind_some]
        exact ⟨x2, by simp [-step, run, hx1, hx2], h2⟩

end

/-! ## Creation -/

/-- a ring can be had wherever there is storage for it, and starts with empty queues -/
theorem create_stores {readers : Nat} (hts : 0 < tokenSize) (hreaders : 0 < readers) (hmin : 2 ≤ capacity)
    (hpow : Word.isPowerOfTwo capacity = true) (hlarge : capacity ≤ Region.largestCapacity)
    (hlim : Region.grants (capacity * tokenSize)) (haddr : readers * Region.readerBytes ≤ Word.signedMax64) :
    ∃ x, create tokenSize capacity readers = .ok x ∧
      x.Stores tokenSize capacity (Queues.start tokenSize capacity readers) := by
  have hb := Region.forTokens_eq_ok_iff.2 ⟨⟨hts, hreaders, hmin, hpow, hlarge, hlim, haddr⟩, rfl⟩
  have hcreate : create tokenSize capacity readers = .ok ⟨tokenSize, capacity,
    Block.zeroed (max (capacity * tokenSize) 1), 0, replicate readers 0, false, replicate readers false⟩ := by
    simp only [create, hb, bind, Except.bind, pure, Except.pure]
  have hzero : ∀ c ∈ (Queues.start tokenSize capacity readers).released, c = 0 := fun c hc => (mem_replicate.1 hc).2
  refine ⟨_, hcreate, rfl, rfl, ⟨by omega, hts, ?_⟩, hlarge, le_max_left _ _, ?_,
    by simp [Queues.start], by simp [Queues.start],
    by simp [Queues.start], by simp [Queues.start], fun c hc => ?_, fun c hc => ?_,
    fun c hc => Block.keeps_nil _ _ _, ?_⟩
  · exact Region.le_of_grants hlim
  · simp only [Queues.start, ne_eq, replicate_eq_nil_iff]
    omega
  · rw [hzero c hc]
    exact Nat.zero_le _
  · rw [hzero c hc]
    simp only [Queues.start]
    omega
  · intro j hj _
    simp [Queues.start, Block.zeroed, Block.byteAt]

/-! ## What the queues show -/

/-- bytes stored ahead are in no answer that the queues give to a reader -/
theorem fill_step (q : Queues) (n : Nat) (bytes : Bytes) {op : RingOp} (hop : op.isReading = true) :
    ((q.fill tokenSize n bytes).step tokenSize capacity op).map Prod.fst =
    (q.step tokenSize capacity op).map Prod.fst := by
  have hshown (k m : Nat) : (q.fill tokenSize n bytes).shown tokenSize k m = q.shown tokenSize k m := rfl
  have hpublished : (q.fill tokenSize n bytes).published = q.published := rfl
  have hreleased : (q.fill tokenSize n bytes).released = q.released := rfl
  cases op with
  | count r | readAddress r | read r length | readSlices r m | peek r p offset | pop r p =>
    simp only [Queues.step, hshown, hpublished, hreleased, Option.bind_eq_bind]
    cases q.released[r]? with
    | none => rfl
    | some c => grind
  | _ => cases hop

theorem Agrees.answer {spec : Option (RingAnswer × Queues)}
    (h : Agrees tokenSize capacity result spec) : result.toOption.map Prod.fst = spec.map Prod.fst := by
  unfold Agrees at h
  split at h
  · obtain ⟨f, rfl⟩ := h
    rfl
  · obtain ⟨x, rfl, -⟩ := h
    rfl

/-- levels, what is seen of stored bytes, and words, as the queues have them -/
structure Sound (x : TokenRing) (capacity : Nat) (q : Queues) : Prop where
  /-- a reader has before it what is published and not released by it -/
  count : ∀ r c : Nat, q.released[r]? = some c → c ≤ q.published ∧ x.count r = .ok (q.published - c)
  /-- the writer may fill what the slowest reader leaves, and one slot stays free -/
  rooms : x.rooms = .ok (capacity - 1 - q.backlog)
  usable : ∀ r c : Nat, q.released[r]? = some c → q.published - c + (capacity - 1 - q.backlog) ≤ capacity - 1
  /-- no reader is told anything of bytes that are stored and not published -/
  unseen : ∀ n bytes x', x.fill n bytes = .ok x' → ∀ op : RingOp, op.isReading = true →
    (x'.step op).toOption.map Prod.fst = (x.step op).toOption.map Prod.fst
  /-- the sums and differences from which levels are computed are words -/
  levelWords : ∀ r tail : Nat, x.tails[r]? = some tail → capacity + x.head < Word.size32 ∧ tail ≤ capacity + x.head ∧
    capacity + tail < Word.size32 ∧ x.head + 1 ≤ capacity + tail
  /-- so are the sums by which indices advance -/
  headWord : ∀ n m : Nat, x.rooms = .ok m → n ≤ m → x.head + n < Word.size32
  tailWord : ∀ r tail n m : Nat, x.tails[r]? = some tail → x.count r = .ok m → n ≤ m → tail + n < Word.size32

theorem Stores.sound (h : x.Stores tokenSize capacity q) : x.Sound capacity q := by
  have hslots := h.ring.slots
  have hhead : x.head < capacity := h.head ▸ Nat.mod_lt _ hslots
  have hwords : capacity + capacity ≤ Word.size32 := by
    have := h.bounded
    simp only [Region.largestCapacity, Word.size32] at *
    omega
  have htail : ∀ {r tail : Nat}, x.tails[r]? = some tail → tail < capacity ∧ ∃ c, q.released[r]? = some c := by
    intro r tail ht
    rw [h.tails, getElem?_map] at ht
    obtain ⟨c, hc, rfl⟩ := Option.map_eq_some_iff.1 ht
    exact ⟨Nat.mod_lt _ hslots, c, hc⟩
  refine ⟨fun r c hr => ⟨h.released_le c (mem_of_getElem? hr), h.count_eq hr⟩, h.rooms_eq, fun r c hr => ?_,
    fun n bytes x' hfill op hop => ?_, fun r tail ht => ?_, fun n m hm hn => ?_, fun r tail n m ht hm hn => ?_⟩
  · have := le_backlog (mem_of_getElem? hr)
    have := h.backlog_le
    omega
  · have hn : n ≤ q.rooms capacity := by
      by_contra hn
      simp [fill, writeParts, h.rooms_eq, require_false hn] at hfill
    obtain ⟨x'', hfill', h'⟩ := h.fill_ok hn bytes
    rw [hfill] at hfill'
    cases hfill'
    rw [(step_agrees h' op).answer, (step_agrees h op).answer, fill_step q n bytes hop]
  · have := (htail ht).1
    omega
  · rw [h.rooms_eq] at hm
    cases hm
    have := h.rooms_lt hn
    omega
  · obtain ⟨hlt, c, hr⟩ := htail ht
    rw [h.count_eq hr] at hm
    cases hm
    have := h.lap c (mem_of_getElem? hr)
    omega

end TokenRing

/-- A ring answers as queues do, whatever its writer and its readers do. -/
theorem ring_refines_queues {tokenSize k readers : Nat} (hts : 0 < tokenSize) (hreaders : 0 < readers) (hk : 1 ≤ k)
    (hk' : k ≤ 31) (hlim : Region.grants (2 ^ k * tokenSize))
    (haddr : readers * Region.readerBytes ≤ Word.signedMax64) :
    ∃ x, TokenRing.create tokenSize (2 ^ k) readers = .ok x ∧ ∀ ops : List RingOp,
      match (Queues.start tokenSize (2 ^ k) readers).run tokenSize (2 ^ k) ops with
      | none => ∃ f, x.run ops = .error f
      | some (answers, q) => ∃ x', x.run ops = .ok (answers, x') ∧ x'.Sound (2 ^ k) q := by
  have hlarge : 2 ^ k ≤ Region.largestCapacity := Nat.pow_le_pow_right (by decide) hk'
  have hmin : 2 ≤ 2 ^ k := Nat.pow_le_pow_right (n := 2) (by decide) hk
  obtain ⟨x, hx, hstores⟩ := TokenRing.create_stores hts hreaders hmin (isPowerOfTwo_two_pow k) hlarge hlim haddr
  refine ⟨x, hx, fun ops => ?_⟩
  have hagrees := TokenRing.run_agrees hstores ops
  split at hagrees
  · next heq => exact hagrees
  · next heq =>
    obtain ⟨x', hrun, hstores'⟩ := hagrees
    exact ⟨x', hrun, hstores'.sound⟩

/-- Two slots, two readers. A value stored ahead is seen by nobody; published, it is read by one reader, and the ring
stays full until the other has released it. -/
theorem ring_refines_queues_two_slots :
    0 < 4 ∧ 0 < 2 ∧ 1 ≤ 1 ∧ 1 ≤ 31 ∧ Region.grants (2 ^ 1 * 4) ∧ 2 * Region.readerBytes ≤ Word.signedMax64 ∧
      ∃ x x', TokenRing.create 4 (2 ^ 1) 2 = .ok x ∧
        x.run [.fill 1 [7, 0, 0, 0], .count 0, .peek 0 .int32 0, .publish 1, .pop 0 .int32,
          .push .int32 (8 : Int32), .release 1 1, .write [9, 0, 0, 0, 1], .readSlices 1 1] =
          .ok ([.done, .number 0, .value .int32 none, .done, .value .int32 (some (7 : Int32)), .flag false, .done,
            .number 1, .parts [9, 0, 0, 0] []], x') := by
  obtain ⟨x, hx, hrun⟩ := @ring_refines_queues 4 1 2
    (by decide) (by decide) (by decide) (by decide) (by decide) (by decide)
  obtain ⟨x', hx', -⟩ := hrun [.fill 1 [7, 0, 0, 0], .count 0, .peek 0 .int32 0, .publish 1, .pop 0 .int32,
    .push .int32 (8 : Int32), .release 1 1, .write [9, 0, 0, 0, 1], .readSlices 1 1]
  exact ⟨by decide, by decide, by decide, by decide, by decide, by decide, x, x', hx, hx'⟩

end Dataflow
