import Dataflow.Proofs.ConnectionLedger

/-!
Reading and writing through an open port, against the ledger: within what the view allows, the next tokens of the stream
are appended or answered. Beyond it, every operation faults.
-/

namespace Dataflow

open List

/-! ## Bytes of values -/

theorem Bytes.length_ofNat (width n : Nat) : (Bytes.ofNat width n).length = width := by
  induction width generalizing n with
  | zero => rfl
  | succ width ih => simp [Bytes.ofNat, ih]

/-- reading back the bytes of a number that fits -/
theorem Bytes.toNat_ofNat {width n : Nat} (h : n < 256 ^ width) : Bytes.toNat (Bytes.ofNat width n) = n := by
  induction width generalizing n with
  | zero => simp only [pow_zero, Nat.lt_one_iff] at h; simp [Bytes.ofNat, Bytes.toNat, h]
  | succ width ih =>
    have hdiv : n / 256 < 256 ^ width := by
      rw [Nat.div_lt_iff_lt_mul (by decide)]; rwa [pow_succ] at h
    simp only [Bytes.ofNat, Bytes.toNat, ih hdiv, UInt8.toNat_ofNat']
    omega

namespace Primitive

@[simp] theorem length_encode (p : Primitive) (v : p.Value) : (p.encode v).length = p.size := Bytes.length_ofNat _ _

/-- the value that a token stands for -/
def ofToken (p : Primitive) (token : Bytes) : p.Value := p.ofPattern (Bytes.toNat token)

theorem decode_eq_ok {p : Primitive} {bytes : Bytes} (h : bytes.length = p.size) :
    p.decode bytes = .ok (p.ofToken bytes) := by
  simp [decode, ofToken, h, take_of_length_le h.le]

theorem pattern_lt (p : Primitive) (v : p.Value) : p.pattern v < 256 ^ p.size := by
  cases p with
  | bool => cases v <;> decide
  | int8 => exact UInt8.toNat_lt _
  | int16 => exact UInt16.toNat_lt _
  | int32 => exact UInt32.toNat_lt _
  | int64 => exact UInt64.toNat_lt _
  | uint8 => exact UInt8.toNat_lt _
  | uint16 => exact UInt16.toNat_lt _
  | uint32 => exact UInt32.toNat_lt _
  | uint64 => exact UInt64.toNat_lt _
  | float32 => exact UInt32.toNat_lt _
  | float64 => exact UInt64.toNat_lt _

theorem ofPattern_pattern (p : Primitive) (v : p.Value) : p.ofPattern (p.pattern v) = v := by
  cases p with
  | bool => cases v <;> rfl
  | _ => simp [ofPattern, pattern]

/-- a value survives its bytes -/
theorem ofToken_encode (p : Primitive) (v : p.Value) : p.ofToken (p.encode v) = v := by
  rw [ofToken, encode, Bytes.toNat_ofNat (p.pattern_lt v), p.ofPattern_pattern]

end Primitive

/-- the bytes of token number `t` -/
def Ledger.token (l : Ledger) (tokenSize t : Nat) : Bytes := (l.stream.drop (t * tokenSize)).take tokenSize

/-- the values of `n` tokens from number `t` on -/
def Ledger.values (l : Ledger) (p : Primitive) (t n : Nat) : List p.Value :=
  (List.range' t n).map fun k => p.ofToken (l.token p.size k)

namespace Connection

variable {c : Connection} {l : Ledger} {v : PortView} {q n t length offset : Nat} {bytes : Bytes} {cursor : Cursor}
  {p : Primitive} {answer : Checked (Connection × PortView)}

theorem tokensIn_mul_le (c : Connection) (length : Nat) : c.tokensIn length * c.tokenSize ≤ length :=
  le_trans (Nat.mul_le_mul_right _ (Nat.mod_le _ _)) (Nat.div_mul_le_self _ _)

/-- as long as the number of tokens is a word, all of them count -/
theorem tokensIn_eq (h : n < Word.size32) (hlen : length = n * c.tokenSize)
    (hts : 0 < c.tokenSize) : c.tokensIn length = n := by
  rw [tokensIn, Word.low32, hlen, Nat.mul_div_cancel _ hts, Nat.mod_eq_of_lt h]

/-! ## Moving a view -/

theorem skip_eq (hc : 0 < c.capacity) (hcur : v.cursor.At t c.capacity) (hn : n ≤ v.available) (hcap : n ≤ c.capacity) :
    ∃ cursor, c.skip v n = .ok { v with cursor, available := v.available - n } ∧ cursor.At (t + n) c.capacity := by
  obtain ⟨cursor, hadv, hat⟩ := hcur.advance hc hcap
  exact ⟨cursor, by simp [skip, require_true hn, hadv], hat⟩

theorem skip_fault (hn : v.available < n) : c.skip v n = .error .contract := by
  simp [skip, require_false (Nat.not_le.2 hn)]

theorem nextParts_eq (g : Addressable c.capacity c.tokenSize) (hcur : v.cursor.At t c.capacity)
    (hn : n ≤ v.available) (hcap : n ≤ c.capacity) :
    c.nextParts v n = .ok (stretch t n c.capacity c.tokenSize) := by
  have := split_byteRanges (t := t) g hcap
  simpa [nextParts, require_true hn, Cursor.runs, hcur.slot] using this

theorem nextParts_fault (hn : v.available < n) : c.nextParts v n = .error .contract := by
  simp [nextParts, require_false (Nat.not_le.2 hn)]

/-- a view that stands in the ring and announces at most one lap -/
structure Carries (c : Connection) (v : PortView) : Prop where
  geometry : Addressable c.capacity c.tokenSize
  word : c.capacity < Word.size32
  storage : c.capacity * c.tokenSize ≤ c.storage.size
  cursor : ∃ t, v.cursor.At t c.capacity
  available : v.available ≤ c.capacity

theorem Carries.tokensIn (h : c.Carries v) (hn : n ≤ v.available) : c.tokensIn (n * c.tokenSize) = n :=
  tokensIn_eq (lt_of_le_of_lt (hn.trans h.available) h.word) rfl h.geometry.token

theorem Carries.restore (h : c.Carries v) {storage : Block} (hsize : storage.size = c.storage.size) :
    ({ c with storage } : Connection).Carries v :=
  { h with storage := by rw [hsize]; exact h.storage }

/-- the part of a transfer that reading and writing share: where the tokens lie, and the view behind them -/
theorem Carries.next (h : c.Carries v) (hat : v.cursor.At t c.capacity) (hn : n ≤ v.available) :
    ∃ cursor, cursor.At (t + n) c.capacity ∧ c.nextParts v n = .ok (stretch t n c.capacity c.tokenSize) ∧
      c.skip v n = .ok { v with cursor, available := v.available - n } ∧
      c.Carries { v with cursor, available := v.available - n } := by
  have hcap := hn.trans h.available
  obtain ⟨cursor, hskip, hat'⟩ := skip_eq h.geometry.slots hat hn hcap
  refine ⟨cursor, hat', nextParts_eq h.geometry hat hn hcap, hskip, ?_⟩
  exact { h with cursor := ⟨t + n, hat'⟩, available := (Nat.sub_le _ _).trans h.available }

/-! ## Values and their bytes -/

/-- the answer to a writer that has stored these bytes into the next `n` slots, from total `t` on -/
def Stored (c : Connection) (v : PortView) (t n : Nat) (bytes : Bytes)
    (answer : Checked (Connection × PortView)) : Prop :=
  ∃ cursor, cursor.At (t + n) c.capacity ∧
    answer = .ok ({ c with storage := c.storage.storeRuns (stretch t n c.capacity c.tokenSize) bytes },
      { v with cursor, available := v.available - n })

theorem Stored.unique {answer' : Checked (Connection × PortView)} (h : c.Stored v t n bytes answer)
    (h' : c.Stored v t n bytes answer') : answer = answer' := by
  obtain ⟨cursor, hat, rfl⟩ := h
  obtain ⟨cursor', hat', rfl⟩ := h'
  rw [hat.unique hat']

theorem Carries.writeBytes_stored (h : c.Carries v) (hat : v.cursor.At t c.capacity) (hn : c.tokensIn bytes.length = n)
    (hle : n ≤ v.available) : c.Stored v t n bytes (c.writeBytes v bytes) := by
  obtain ⟨cursor, hat', hparts, hskip, -⟩ := h.next hat hle
  have hwrite := Block.writeRuns_stretch (t := t) h.geometry.slots h.storage (hle.trans h.available) bytes
  exact ⟨cursor, hat', by simp [writeBytes, hn, hparts, hwrite, hskip]⟩

/-- values written one after the other lie in the slots of a stretch -/
theorem Carries.writeEach_stored (values : List p.Value) (h : c.Carries v) (hat : v.cursor.At t c.capacity)
    (hp : p.size = c.tokenSize) (hle : values.length ≤ v.available) :
    c.Stored v t values.length (values.flatMap p.encode) (c.writeEach v p values) := by
  induction values generalizing c v t with
  | nil => exact ⟨v.cursor, hat, by simp [writeEach, Block.storeRuns_nil]⟩
  | cons value rest ih =>
    rw [length_cons] at hle
    have hslot : t % c.capacity * c.tokenSize + c.tokenSize ≤ c.storage.size := by
      calc t % c.capacity * c.tokenSize + c.tokenSize = (t % c.capacity + 1) * c.tokenSize := by ring
        _ ≤ c.capacity * c.tokenSize := Nat.mul_le_mul_right _ (Nat.mod_lt t h.geometry.slots)
        _ ≤ c.storage.size := h.storage
    have hlen : (p.encode value).length = c.tokenSize := (p.length_encode value).trans hp
    obtain ⟨cursor, hat1, -, hskip, h1⟩ := h.next (n := 1) hat (by omega)
    have hwrite :
      c.write v p value = .ok ({ c with storage := c.storage.store (t % c.capacity * c.tokenSize) (p.encode value) },
        { v with cursor, available := v.available - 1 }) := by
      have hfits : t % c.capacity * c.tokenSize + (p.encode value).length ≤ c.storage.size := by rwa [hlen]
      simp [write, require_true (show 0 < v.available by omega), hat.slot, hp, Block.write_eq_ok hfits, hskip]
    obtain ⟨cursor', hat2, hrest⟩ := ih (h1.restore (Block.store_size _ _ _)) hat1 hp (by simp only; omega)
    refine ⟨cursor', by rwa [length_cons, Nat.add_comm rest.length, ← Nat.add_assoc], ?_⟩
    rw [writeEach, hwrite, Checked.ok_bind, flatMap_cons, length_cons,
      Block.storeRuns_cons _ _ (by have := h.available; omega) hlen, Nat.add_comm rest.length, ← Nat.sub_sub]
    exact hrest

theorem length_flatMap_encode (values : List p.Value) : (values.flatMap p.encode).length = values.length * p.size := by
  simp only [length_flatMap, p.length_encode, map_const', sum_replicate_nat]

/-- writing values is writing their bytes -/
theorem Carries.writeEach_eq (values : List p.Value) (h : c.Carries v) (hp : p.size = c.tokenSize)
    (hle : values.length ≤ v.available) : c.writeEach v p values = c.writeBytes v (values.flatMap p.encode) := by
  obtain ⟨t, hat⟩ := h.cursor
  have hn : c.tokensIn (values.flatMap p.encode).length = values.length := by
    rw [length_flatMap_encode, hp, h.tokensIn hle]
  exact (h.writeEach_stored values hat hp hle).unique (h.writeBytes_stored hat hn hle)

/-! ## Writing -/

section Writes

variable {e : OutputEnd}

/-- the writer's view after it moved over `n` tokens -/
theorem writes_append (hw : e.Writes v c.capacity l) (hcur : cursor.At (l.written + n) c.capacity)
    (hn : n ≤ v.available) (bytes : Bytes) :
    e.Writes { v with cursor, available := v.available - n } c.capacity (l.write n bytes) := by
  have hm := hw.moved
  refine ⟨hcur, hw.produced, ?_, hw.opened_le, fun q hq => ?_⟩
  · simp only [Ledger.write]; omega
  · have := hw.room q hq
    simp only [Ledger.write]; omega

/-- what the view still allows is at most the capacity -/
theorem Tracks.writable_le (h : c.Tracks l) (hw : e.Writes v c.capacity l) : v.available ≤ c.capacity := by
  have h1 := hw.moved
  have h2 := hw.opened_le
  have h3 := h.published_le
  omega

/-- the answer to a writer that has moved over `n` tokens and left these bytes in them -/
abbrev Wrote (c : Connection) (e : OutputEnd) (v : PortView) (capacity : Nat) (l : Ledger) (n : Nat) (bytes : Bytes)
    (answer : Checked (Connection × PortView)) : Prop :=
  ∃ storage cursor, answer = .ok ({ c with storage }, { v with cursor, available := v.available - n }) ∧
    Tracks { c with storage } (l.write n bytes) ∧ e.Writes { v with cursor, available :=
      v.available - n } capacity (l.write n bytes)

theorem Tracks.carries (h : c.Tracks l) (hat : v.cursor.At t c.capacity)
    (hle : v.available ≤ c.capacity) : c.Carries v :=
  ⟨h.ring, lt_of_le_of_lt h.bounded (by decide), h.storage, ⟨t, hat⟩, hle⟩

/-- bytes stored from the end of the stream on go on with it -/
theorem Tracks.wrote (h : c.Tracks l) (hw : e.Writes v c.capacity l) (hle : n ≤ v.available)
    (hbytes : n * c.tokenSize ≤ bytes.length) (hstored : c.Stored v l.written n bytes answer) :
    c.Wrote e v c.capacity l n (bytes.take (n * c.tokenSize)) answer := by
  obtain ⟨cursor, hat, rfl⟩ := hstored
  have hroom : ∀ q ∈ l.released, l.written + n ≤ q + c.capacity :=
    fun q hq => le_trans (Nat.add_le_add_left hle _) (hw.room q hq)
  refine ⟨_, cursor, rfl, ?_, writes_append hw hat hle _⟩
  -- every reader's window keeps what it had, and goes on with the new tokens
  refine { h with
    storage := by simpa using h.storage
    length := by simp [Ledger.write, h.length, hbytes, Nat.add_mul]
    published_le := le_trans h.published_le (Nat.le_add_right _ _)
    lap := hroom
    keeps := fun q hq => ?_ }
  refine (h.keeps q hq).storeRuns n bytes h.ring.slots h.length (le_trans hle (h.writable_le hw)) ?_
  rw [← Nat.add_mul]
  exact Nat.mul_le_mul_right _ (hroom q hq)

theorem Tracks.writeBytes_ok (h : c.Tracks l) (hw : e.Writes v c.capacity l) (hn : c.tokensIn bytes.length = n)
    (hle : n ≤ v.available) : c.Wrote e v c.capacity l n (bytes.take (n * c.tokenSize)) (c.writeBytes v bytes) :=
  h.wrote hw hle (hn ▸ c.tokensIn_mul_le bytes.length)
    ((h.carries hw.cursor (h.writable_le hw)).writeBytes_stored hw.cursor hn hle)

theorem writeBytes_fault (hn : v.available < c.tokensIn bytes.length) : c.writeBytes v bytes = .error .contract := by
  simp [writeBytes, nextParts_fault hn]

theorem Tracks.writeEach_ok (values : List p.Value) (h : c.Tracks l)
    (hw : e.Writes v c.capacity l) (hp : p.size = c.tokenSize) (hle : values.length ≤ v.available) :
    c.Wrote e v c.capacity l values.length (values.flatMap p.encode) (c.writeEach v p values) := by
  have hlen := length_flatMap_encode values
  rw [hp] at hlen
  have hwrote := h.wrote hw hle hlen.ge
    ((h.carries hw.cursor (h.writable_le hw)).writeEach_stored values hw.cursor hp hle)
  rwa [take_of_length_le hlen.le] at hwrote

theorem Tracks.write_ok (h : c.Tracks l) (hw : e.Writes v c.capacity l)
    (hp : p.size = c.tokenSize) (hle : 0 < v.available) (value : p.Value) :
    c.Wrote e v c.capacity l 1 (p.encode value) (c.write v p value) := by
  have hone : c.writeEach v p [value] = c.write v p value := bind_pure _
  simpa [hone] using h.writeEach_ok [value] hw hp hle

theorem write_fault_size (hp : p.size ≠ c.tokenSize) (value : p.Value) : c.write v p value = .error .contract := by
  simp [write, require_false hp]

theorem write_fault_room (hp : p.size = c.tokenSize) (hle : v.available = 0) (value : p.Value) :
    c.write v p value = .error .contract := by
  simp [write, require_true hp, require_false (p := 0 < v.available) (by omega)]

theorem writeEach_fault (values : List p.Value) (hle : v.available < values.length) (h : c.Tracks l)
    (hw : e.Writes v c.capacity l) : ∃ f, c.writeEach v p values = .error f := by
  induction values generalizing c l v with
  | nil => simp at hle
  | cons value rest ih =>
    simp only [length_cons] at hle
    by_cases hp : p.size = c.tokenSize
    · by_cases h0 : v.available = 0
      · exact ⟨.contract, by simp [writeEach, write_fault_room hp h0]⟩
      · obtain ⟨storage, cursor, hwrite, ht, hw'⟩ := h.write_ok hw hp (by omega) value
        obtain ⟨f, hf⟩ := ih (by simp only; omega) ht hw'
        exact ⟨f, by simp [writeEach, hwrite, hf]⟩
    · exact ⟨.contract, by simp [writeEach, write_fault_size hp]⟩

theorem Tracks.writeRepeat_ok (values : List p.Value) (h : c.Tracks l)
    (hw : e.Writes v c.capacity l) (hp : p.size = c.tokenSize) (hle : values.length ≤ v.available) :
    c.Wrote e v c.capacity l values.length (values.flatMap p.encode) (c.writeRepeat v p values) := by
  have hlow : Word.low32 values.length ≤ v.available := le_trans (Nat.mod_le _ _) hle
  simpa only [writeRepeat, require_true hlow, Checked.ok_bind] using h.writeEach_ok values hw hp hle

theorem writeRepeat_fault (values : List p.Value) (h : c.Tracks l)
    (hw : e.Writes v c.capacity l) (hbad : v.available < values.length ∨ (values ≠ [] ∧ p.size ≠ c.tokenSize)) :
    ∃ f, c.writeRepeat v p values = .error f := by
  by_cases hlow : Word.low32 values.length ≤ v.available
  · obtain ⟨f, hf⟩ : ∃ f, c.writeEach v p values = .error f := by
      rcases hbad with hlt | ⟨hne, hp⟩
      · exact writeEach_fault values hlt h hw
      · obtain ⟨value, rest, rfl⟩ := exists_cons_of_ne_nil hne
        exact ⟨.contract, by simp [writeEach, write_fault_size hp]⟩
    exact ⟨f, by simp [writeRepeat, require_true hlow, hf]⟩
  · exact ⟨.contract, by simp [writeRepeat, require_false hlow]⟩

end Writes

/-! ## Reading -/

variable {e : InputEnd}

/-- a reader's view after it moved over `n` tokens -/
theorem reads_skip (hr : e.Reads v q c.capacity l) (hcur : cursor.At (q + v.moved + n) c.capacity)
    (hn : n ≤ v.available) : e.Reads { v with cursor, available := v.available - n } q c.capacity l := by
  have ha := hr.available_le
  refine ⟨hr.released, hr.consumed, ?_, by simp only; omega, hr.published⟩
  have : q + PortView.moved { v with cursor, available := v.available - n } = q + v.moved + n := by
    simp only [PortView.moved]; omega
  rwa [this]

/-- the answer to a reader that is told `x` and has moved over `n` tokens -/
abbrev Took {α : Type} (e : InputEnd) (v : PortView) (q capacity : Nat) (l : Ledger) (n : Nat) (x : α)
    (answer : Checked (α × PortView)) : Prop :=
  ∃ cursor, answer = .ok (x, { v with cursor, available := v.available - n }) ∧
    e.Reads { v with cursor, available := v.available - n } q capacity l

section Reads

variable (h : c.Tracks l) (hr : e.Reads v q c.capacity l)

include h hr

/-- what the view still allows is published, and at most one lap -/
theorem Tracks.readable :
    q + v.moved + v.available ≤ l.published ∧ v.available ≤ c.capacity := by
  have h1 := hr.available_le
  have h2 := hr.published
  have h3 := h.lap q (mem_of_getElem? hr.released)
  have h4 := h.published_le
  unfold PortView.moved
  omega

theorem Tracks.consume_ok (hle : n ≤ v.available) :
    ∃ cursor, c.skip v n = .ok { v with cursor, available := v.available - n } ∧
      e.Reads { v with cursor, available := v.available - n } q c.capacity l := by
  obtain ⟨cursor, hskip, hat⟩ := skip_eq h.ring.slots hr.cursor hle (le_trans hle (h.readable hr).2)
  exact ⟨cursor, hskip, reads_skip hr hat hle⟩

theorem Tracks.readBytes_ok (hn : c.tokensIn length = n) (hle : n ≤ v.available) :
    Took e v q c.capacity l n ((l.stream.drop ((q + v.moved) * c.tokenSize)).take (n * c.tokenSize))
    (c.readBytes v length) := by
  obtain ⟨hpub, hcap⟩ := h.readable hr
  obtain ⟨cursor, hskip, hr'⟩ := h.consume_ok hr hle
  have hq := mem_of_getElem? hr.released
  have hwritten := h.published_le
  have hread := (h.keeps q hq).readRuns (t := q + v.moved) h.ring.slots h.storage (le_trans hle hcap)
    (Nat.mul_le_mul_right _ (Nat.le_add_right _ _)) (by rw [h.length]; exact Nat.mul_le_mul_right _ (by omega))
  refine ⟨cursor, ?_, hr'⟩
  simp [readBytes, hn, nextParts_eq h.ring hr.cursor hle (le_trans hle hcap), hread, hskip]

section

variable (hp : p.size = c.tokenSize)

include hp

theorem Tracks.peek_ok (hlt : offset < v.available) :
    c.peek v p offset = .ok (p.ofToken (l.token c.tokenSize (q + v.moved + offset))) := by
  obtain ⟨hpub, hcap⟩ := h.readable hr
  have hq := mem_of_getElem? hr.released
  have hwritten := h.published_le
  set t := q + v.moved + offset
  have hlast : (t + 1) * c.tokenSize ≤ l.stream.length := h.length ▸ Nat.mul_le_mul_right _ (by omega)
  have hread := (h.keeps q hq).read_token h.ring.slots h.storage (Nat.mul_le_mul_right _ (by omega)) hlast
  rw [Nat.add_mul, Nat.one_mul] at hlast
  have htoken : (l.token c.tokenSize t).length = p.size := by
    simp only [Ledger.token, length_take, length_drop, hp]; omega
  have hpeek := hr.cursor.peekSlot h.ring.slots (by omega : offset ≤ c.capacity)
  simp only [peek, require_true hp, require_true hlt, Checked.ok_bind, hpeek]
  rw [hp, hread, Checked.ok_bind]
  exact Primitive.decode_eq_ok htoken

theorem Tracks.peekEach_ok (hle : offset + n ≤ v.available) :
    c.peekEach v p offset n = .ok (l.values p (q + v.moved + offset) n) := by
  induction n generalizing offset with
  | zero => rfl
  | succ n ih =>
    have hrest : c.peekEach v p (offset + 1) n = _ := ih (by omega)
    simp only [peekEach, h.peek_ok hr hp (by omega : offset < v.available), hrest, Checked.ok_bind, Checked.pure_eq]
    simp [Ledger.values, range'_succ, hp, Nat.add_assoc]

theorem Tracks.readRepeat_ok (hle : n ≤ v.available) :
    Took e v q c.capacity l n (l.values p (q + v.moved) n) (c.readRepeat v p n) := by
  obtain ⟨cursor, hskip, hr'⟩ := h.consume_ok hr hle
  have hlow : Word.low32 n ≤ v.available := le_trans (Nat.mod_le _ _) hle
  have hpeek : c.peekEach v p 0 n = .ok (l.values p (q + v.moved) n) := h.peekEach_ok hr hp (by omega)
  exact ⟨cursor, by simp [readRepeat, require_true hlow, hpeek, hskip], hr'⟩

theorem Tracks.read_ok (hle : 0 < v.available) :
    Took e v q c.capacity l 1 (p.ofToken (l.token c.tokenSize (q + v.moved))) (c.read v p) := by
  obtain ⟨cursor, hskip, hr'⟩ := h.consume_ok hr hle
  exact ⟨cursor, by simp [read, h.peek_ok hr hp hle, hskip], hr'⟩

end

end Reads

theorem readBytes_fault (hn : v.available < c.tokensIn length) : c.readBytes v length = .error .contract := by
  simp [readBytes, nextParts_fault hn]

theorem peek_fault (h : p.size ≠ c.tokenSize ∨ v.available ≤ offset) : c.peek v p offset = .error .contract := by
  by_cases hp : p.size = c.tokenSize
  · have : ¬ offset < v.available := by
      rcases h with h | h
      · exact absurd hp h
      · omega
    simp [peek, require_true hp, require_false this]
  · simp [peek, require_false hp]

theorem peekEach_fault (hle : v.available < offset + n) (hn : offset ≤ v.available) :
    ∃ f, c.peekEach v p offset n = .error f := by
  induction n generalizing offset with
  | zero => omega
  | succ n ih =>
    cases hpeek : c.peek v p offset with
    | error f => exact ⟨f, by simp [peekEach, hpeek]⟩
    | ok value =>
      have hlt : offset < v.available := by
        by_contra hge
        rw [peek_fault (.inr (by omega))] at hpeek
        cases hpeek
      obtain ⟨f, hf⟩ : ∃ f, c.peekEach v p (offset + 1) n = .error f := ih (by omega) (by omega)
      exact ⟨f, by simp [peekEach, hpeek, hf]⟩

theorem readRepeat_fault (h : v.available < n ∨ (n ≠ 0 ∧ p.size ≠ c.tokenSize)) :
    ∃ f, c.readRepeat v p n = .error f := by
  by_cases hlow : Word.low32 n ≤ v.available
  · obtain ⟨f, hf⟩ : ∃ f, c.peekEach v p 0 n = .error f := by
      rcases h with h | ⟨hn, hp⟩
      · exact peekEach_fault (by omega) (Nat.zero_le _)
      · obtain ⟨m, rfl⟩ := Nat.exists_eq_succ_of_ne_zero hn
        exact ⟨.contract, by simp [peekEach, peek_fault (.inl hp)]⟩
    exact ⟨f, by simp [readRepeat, require_true hlow, hf]⟩
  · exact ⟨.contract, by simp [readRepeat, require_false hlow]⟩

theorem read_fault (h : p.size ≠ c.tokenSize ∨ v.available = 0) : c.read v p = .error .contract := by
  simp [read, peek_fault (h.imp_right (fun h0 => h0.le))]

end Connection

end Dataflow
