import Dataflow.Proofs.FanOut
import Dataflow.Proofs.RingQueues

/-!
Access by values and access by bytes are one, for every primitive type and after any history of a connection or a ring.

- `typed_access_is_byte_access`: a value stored into a buffer is read back bit for bit, and the bytes beyond it are as
  they were. Writing values through an open port leaves connection and view as writing their bytes does, and reading or
  looking at values answers the values of the bytes that are read there, with the same view behind them. On a ring,
  pushing is writing the bytes of the value, and popping and looking ahead answer the values of the bytes that are read
  there, and nothing where there are none.
- Witness `typed_access_is_byte_access_wrapped`.

Premises: tokens of the size of the type.
-/

namespace Dataflow

open List

namespace Primitive

variable (p : Primitive)

/-- the first `n` values of a byte string -/
def decodeEach : Nat → Bytes → Checked (List p.Value)
  | 0, _ => .ok []
  | n + 1, bytes => do
    let value ← p.decode bytes
    return value :: (← decodeEach n (bytes.drop p.size))

/-- the values of a part of a stream are those of its tokens -/
theorem decodeEach_stream {stream : Bytes} {t n : Nat} (hend : (t + n) * p.size ≤ stream.length) :
    p.decodeEach n ((stream.drop (t * p.size)).take (n * p.size)) =
      .ok ((range' t n).map fun k => p.ofToken ((stream.drop (k * p.size)).take p.size)) := by
  induction n generalizing t with
  | zero => rfl
  | succ n ih =>
    have hlast : t * p.size + p.size + n * p.size ≤ stream.length := by
      calc t * p.size + p.size + n * p.size = (t + (n + 1)) * p.size := by ring
        _ ≤ stream.length := hend
    have hfirst : p.decode ((stream.drop (t * p.size)).take ((n + 1) * p.size)) =
        .ok (p.ofToken ((stream.drop (t * p.size)).take p.size)) := by
      rw [decode, if_pos, ofToken, take_take, Nat.min_eq_left]
      · exact Nat.le_mul_of_pos_left _ (Nat.succ_pos n)
      · rw [length_take, length_drop, Nat.add_mul]
        omega
    have hrest := @ih (t + 1) (by rw [Nat.add_right_comm]; exact hend)
    rw [decodeEach, hfirst, Checked.ok_bind, drop_take, drop_drop, Nat.add_mul n, Nat.one_mul, Nat.add_sub_cancel,
      show t * p.size + p.size = (t + 1) * p.size by ring, hrest, range'_succ]
    rfl

/-- a value stored at the start of a buffer is read back, and the rest of the buffer is as it was -/
theorem encodeInto_ok (value : p.Value) {buffer : Bytes} (hfits : p.size ≤ buffer.length) :
    ∃ after, p.encodeInto value buffer = .ok after ∧ after.length = buffer.length ∧ after.take p.size = p.encode value ∧
      after.drop p.size = buffer.drop p.size ∧ p.decode after = .ok value := by
  have hlen := p.length_encode value
  have htake : (p.encode value ++ buffer.drop p.size).take p.size = p.encode value := by rw [← hlen, take_left]
  refine ⟨p.encode value ++ buffer.drop p.size, if_pos hfits, ?_, htake, ?_, ?_⟩
  · rw [length_append, hlen, length_drop]
    omega
  · rw [← hlen, drop_left]
  · have hsize : p.size ≤ (p.encode value ++ buffer.drop p.size).length := by rw [length_append, hlen]; omega
    rw [decode, if_pos hsize, htake]
    exact congrArg Except.ok (p.ofToken_encode value)

end Primitive

variable {tokenSize capacity readers : Nat} {p : Primitive}

/-! ## Connections -/

namespace Connection

/-- values through an open input port: those of the bytes, with the view behind them; each of them can be looked at
before -/
def ReadsTyped (c : Connection) (v : PortView) (p : Primitive) (n : Nat) : Prop :=
  ∃ bytes values v', c.readBytes v (n * p.size) = .ok (bytes, v') ∧ p.decodeEach n bytes = .ok values ∧
    c.readRepeat v p n = .ok (values, v') ∧ (∀ offset < n, c.peek v p offset = fetch values offset) ∧
    (n = 1 → ∃ value, values = [value] ∧ c.read v p = .ok (value, v'))

/-- values through an open output port, all at once or one by one: connection and view are left as by their bytes -/
def WritesTyped (c : Connection) (v : PortView) (p : Primitive) (values : List p.Value) : Prop :=
  ∃ after, c.writeBytes v (values.flatMap p.encode) = .ok after ∧ c.writeRepeat v p values = .ok after ∧
    c.writeEach v p values = .ok after

variable {c : Connection} {l : Ledger} {v : PortView} {q n : Nat}

theorem Tracks.readsTyped {e : InputEnd} (h : c.Tracks l) (hr : e.Reads v q c.capacity l) (hp : p.size = c.tokenSize)
    (hle : n ≤ v.available) : c.ReadsTyped v p n := by
  have htokens := (h.carries hr.cursor (h.readable hr).2).tokensIn hle
  obtain ⟨cursor, hbytes, hr1⟩ := h.readBytes_ok hr htokens hle
  obtain ⟨cursor', hvalues, hr2⟩ := h.readRepeat_ok hr hp hle
  obtain rfl : cursor = cursor' := hr1.cursor.unique hr2.cursor
  have hpub := (h.readable hr).1
  have hwritten := h.published_le
  rw [← hp] at hbytes
  refine ⟨_, _, _, hbytes, p.decodeEach_stream ?_, hvalues, fun offset hoffset => ?_, ?_⟩
  · rw [h.length, hp]
    exact Nat.mul_le_mul_right _ (by omega)
  · rw [h.peek_ok hr hp (by omega), fetch_eq_ok]
    simp [Ledger.token, getElem?_range' hoffset, hp]
  · rintro rfl
    obtain ⟨cursor', hread, hr3⟩ := h.read_ok hr hp hle
    obtain rfl : cursor = cursor' := hr1.cursor.unique hr3.cursor
    exact ⟨_, by simp [Ledger.token, hp], hread⟩

theorem Tracks.writesTyped {e : OutputEnd} {values : List p.Value} (h : c.Tracks l) (hw : e.Writes v c.capacity l)
    (hp : p.size = c.tokenSize) (hle : values.length ≤ v.available) : c.WritesTyped v p values := by
  have heq := (h.carries hw.cursor (h.writable_le hw)).writeEach_eq values hp hle
  obtain ⟨storage, cursor, hwrite, -, -⟩ := h.writeEach_ok values hw hp hle
  have hlow : Word.low32 values.length ≤ v.available := le_trans (Nat.mod_le _ _) hle
  exact ⟨_, heq.symm.trans hwrite, by rw [writeRepeat, require_true hlow, Checked.ok_bind, hwrite], hwrite⟩

end Connection

namespace Exchange

variable {x : Exchange}

/-- values go through the open ports of an exchange as their bytes do -/
structure TypedAsBytes (x : Exchange) (p : Primitive) : Prop where
  write : ∀ v, x.writing = some v → ∀ values : List p.Value, values.length ≤ v.available → x.conn.WritesTyped v p values
  read : ∀ (r : Nat) e v, x.readers[r]? = some (e, some v) →
    ∀ n ≤ v.available, x.conn.ReadsTyped v p n

theorem follows_of_create (h : create tokenSize capacity readers = .ok x) :
    x.Follows tokenSize capacity (Tape.start readers) := by
  cases hb : Region.forTokens 1 tokenSize capacity readers with
  | error e => simp [create, Connection.create, hb, bind, Except.bind] at h
  | ok b =>
    obtain ⟨⟨hts, hreaders, hmin, hpow, hlarge, hlim, haddr⟩, -⟩ := Region.forTokens_eq_ok_iff.1 hb
    obtain ⟨y, hy, hfollows⟩ := create_follows hts hreaders hmin hpow hlarge hlim haddr
    cases h.symm.trans hy
    exact hfollows

theorem Follows.typedAsBytes {t : Tape} (h : x.Follows p.size capacity t) : x.TypedAsBytes p := by
  obtain rfl := h.capacity_eq
  have hp := h.tokenSize_eq.symm
  refine ⟨fun v hv values hle => ?_, fun r e v hv n hle => ?_⟩
  · rcases h.writer_cases with ⟨hclosed, -, -⟩ | ⟨v', hv', -, hw⟩
    · cases hv.symm.trans hclosed
    cases hv.symm.trans hv'
    exact h.tracks.writesTyped hw hp hle
  · rcases h.reader_cases r with ⟨hnone, -⟩ | ⟨e', q, hclosed, -⟩ | ⟨e', v', q, hv', -, -, hr⟩
    · cases hv.symm.trans hnone
    · cases hv.symm.trans hclosed
    cases hv.symm.trans hv'
    exact h.tracks.readsTyped hr hp hle

end Exchange

/-! ## Rings -/

namespace TokenRing

variable {x : TokenRing} {q : Queues}

/-- values go through a ring as their bytes do: what there is no room for or not enough of is refused in the same way -/
structure TypedAsBytes (x : TokenRing) (p : Primitive) : Prop where
  push : ∀ value : p.Value, ∃ pushed x', x.push p value = .ok (pushed, x') ∧
    x.write (p.encode value) = .ok (pushed.toNat, x')
  pop : ∀ r < x.tails.length, ∃ n bytes values x', x.read r p.size = .ok (n, bytes, x') ∧
    p.decodeEach n bytes = .ok values ∧ x.pop r p = .ok (values.head?, x')
  peek : ∀ r < x.tails.length, ∀ offset : Nat, ∃ n bytes values x',
    x.read r ((offset + 1) * p.size) = .ok (n, bytes, x') ∧
    p.decodeEach n bytes = .ok values ∧ x.peek r p offset = .ok values[offset]?

theorem stores_of_create (h : create tokenSize capacity readers = .ok x) :
    x.Stores tokenSize capacity (Queues.start tokenSize capacity readers) := by
  cases hb : Region.forTokens 2 tokenSize capacity readers with
  | error e => simp [create, hb, bind, Except.bind] at h
  | ok b =>
    obtain ⟨⟨hts, hreaders, hmin, hpow, hlarge, hlim, haddr⟩, -⟩ := Region.forTokens_eq_ok_iff.1 hb
    obtain ⟨y, hy, hstores⟩ := create_stores hts hreaders hmin hpow hlarge hlim haddr
    cases h.symm.trans hy
    exact hstores

variable {r c : Nat}

section

variable (h : x.Stores p.size capacity q)

include h

/-- what reading bytes answers, by its values -/
theorem Stores.read_values (hr : q.released[r]? = some c) (m : Nat) {n : Nat}
    (hn : n = min (Word.low32 m) (q.published - c)) :
    ∃ bytes x', x.read r (m * p.size) = .ok (n, bytes, x') ∧ x.release r n = .ok x' ∧
      p.decodeEach n bytes = .ok ((range' c n).map fun k => p.ofToken (q.shown p.size k 1)) := by
  have hle := h.released_le c (mem_of_getElem? hr)
  obtain ⟨x', hread, hrelease, -⟩ := h.read_ok (n := n) hr (m * p.size) (by rwa [Nat.mul_div_cancel _ h.ring.token])
  refine ⟨_, x', hread, hrelease, ?_⟩
  have hvalues := @Primitive.decodeEach_stream p q.stream c n (by
    rw [h.length]
    exact Nat.mul_le_mul_right _ (by omega))
  simpa only [Queues.shown, Nat.one_mul] using hvalues

theorem Stores.release_zero (hr : q.released[r]? = some c) : x.release r 0 = .ok x := by
  obtain rfl := h.capacity_eq
  obtain ⟨hlt, heq⟩ := List.getElem?_eq_some_iff.1 (fetch_eq_some (h.fetch_tail hr))
  have hset : x.tails.set r (c % x.capacity) = x.tails := by rw [← heq, set_getElem_self]
  simp only [release, h.fetch_tail hr, h.unread_eq (mem_of_getElem? hr), require_true (Nat.zero_le _), Checked.ok_bind,
    Nat.add_zero, Nat.mod_mod, hset, Checked.pure_eq]

theorem Stores.push_typed (value : p.Value) :
    ∃ pushed x', x.push p value = .ok (pushed, x') ∧ x.write (p.encode value) = .ok (pushed.toNat, x') := by
  have hone : Word.low32 ((p.encode value).length / x.tokenSize) = 1 := by
    rw [p.length_encode, h.tokenSize_eq, Nat.div_self h.ring.token]
    rfl
  have hp := h.tokenSize_eq.symm
  by_cases h0 : q.rooms capacity = 0
  · refine ⟨false, x, ?_, ?_⟩
    · simp [push, hp, h.rooms_eq, h0]
    · simp [write, h.rooms_eq, h0]
  · have hroom : 1 ≤ q.rooms capacity := Nat.one_le_iff_ne_zero.2 h0
    have hall : (p.encode value).take (1 * x.tokenSize) = p.encode value := by
      rw [Nat.one_mul, ← hp, ← p.length_encode value, take_length]
    obtain ⟨x1, hfill, h1⟩ := h.fill_ok hroom (p.encode value)
    obtain ⟨x2, hpublish, -⟩ := h1.publish_ok hroom
    refine ⟨true, x2, ?_, ?_⟩
    · simp [push, hp, h.rooms_eq, h0, hfill, hpublish]
    · rw [write, hone, h.rooms_eq, Checked.ok_bind, Nat.min_eq_left hroom, if_neg Nat.one_ne_zero, hall,
        hfill, Checked.ok_bind, hpublish]
      rfl

theorem Stores.typedAsBytes : x.TypedAsBytes p := by
  have hreader : ∀ {r}, r < x.tails.length → ∃ c, q.released[r]? = some c := fun hr => by
    rw [h.tails, length_map] at hr
    exact ⟨_, getElem?_eq_getElem hr⟩
  refine ⟨h.push_typed, fun r hr => ?_, fun r hr offset => ?_⟩
  · obtain ⟨c, hc⟩ := hreader hr
    obtain ⟨bytes, x', hread, hrelease, hvalues⟩ := h.read_values hc 1 rfl
    rw [Nat.one_mul] at hread
    refine ⟨_, bytes, _, x', hread, hvalues, ?_⟩
    have hpeek := h.peek_eq rfl hc 0
    by_cases hsome : 0 < q.published - c
    · have hmin : min (Word.low32 1) (q.published - c) = 1 := Nat.min_eq_left hsome
      rw [hmin] at hrelease
      rw [if_pos hsome] at hpeek
      simp [pop, hpeek, hrelease, hmin]
    · have hmin : min (Word.low32 1) (q.published - c) = 0 := by omega
      rw [hmin, h.release_zero hc] at hrelease
      cases hrelease
      rw [if_neg hsome] at hpeek
      simp [pop, hpeek, hmin]
  · obtain ⟨c, hc⟩ := hreader hr
    obtain ⟨bytes, x', hread, -, hvalues⟩ := h.read_values hc (offset + 1) rfl
    refine ⟨_, bytes, _, x', hread, hvalues, ?_⟩
    rw [h.peek_eq rfl hc offset]
    by_cases hnear : offset < q.published - c
    · have hword : offset + 1 < Word.size32 := by
        have hlap := h.lap c (mem_of_getElem? hc)
        have hbounded := h.bounded
        simp only [Region.largestCapacity, Word.size32] at *
        omega
      rw [if_pos hnear, Word.low32, Nat.mod_eq_of_lt hword, Nat.min_eq_left hnear]
      simp
    · rw [if_neg hnear, getElem?_eq_none]
      simp
      omega

end

end TokenRing

/-- Access by values stores and answers what access by their bytes does. -/
theorem typed_access_is_byte_access (p : Primitive) :
    (∀ (value : p.Value) (buffer : Bytes), p.size ≤ buffer.length → ∃ after, p.encodeInto value buffer = .ok after ∧
        after.length = buffer.length ∧ after.take p.size = p.encode value ∧ after.drop p.size = buffer.drop p.size ∧
        p.decode after = .ok value) ∧
      (∀ capacity readers x ops answers x', Exchange.create p.size capacity readers = .ok x →
        x.run ops = .ok (answers, x') → x'.TypedAsBytes p) ∧
      ∀ capacity readers x ops answers x', TokenRing.create p.size capacity readers = .ok x →
        x.run ops = .ok (answers, x') → x'.TypedAsBytes p := by
  refine ⟨fun value buffer hfits => p.encodeInto_ok value hfits, fun capacity readers x ops answers x' hx hrun => ?_,
    fun capacity readers x ops answers x' hx hrun => ?_⟩
  · rcases Exchange.run_agrees (Exchange.follows_of_create hx) ops with ⟨-, f, hf⟩ | ⟨answers', t, y, -, hy, hfollows⟩
    · cases hrun.symm.trans hf
    cases hrun.symm.trans hy
    exact hfollows.typedAsBytes
  · have hagrees := TokenRing.run_agrees (TokenRing.stores_of_create hx) ops
    split at hagrees
    · obtain ⟨f, hf⟩ := hagrees
      cases hrun.symm.trans hf
    · obtain ⟨y, hy, hstores⟩ := hagrees
      cases hrun.symm.trans hy
      exact hstores.typedAsBytes

/-- Four slots of two bytes each, three of them used and free again: a connection whose output port is open across the
wrap, and a ring in the same position. -/
theorem typed_access_is_byte_access_wrapped :
    ∃ x x' y y' answers answers', Exchange.create Primitive.int16.size 4 1 = .ok x ∧
      x.run [.openOutput, .write .int16 (1 : Int16), .writeBytes [2, 0, 3, 0], .closeOutput, .openInput 0, .consume 0 3,
        .closeInput 0, .openOutput] = .ok (answers, x') ∧ x'.TypedAsBytes .int16 ∧
      TokenRing.create Primitive.int16.size 4 1 = .ok y ∧
      y.run [.push .int16 (1 : Int16), .write [2, 0, 3, 0], .release 0 3] = .ok (answers', y') ∧
        y'.TypedAsBytes .int16 := by
  obtain ⟨-, hconnections, hrings⟩ := typed_access_is_byte_access .int16
  obtain ⟨x, hx, hfollows⟩ := @Exchange.create_follows 2 4 1
    (by decide) (by decide) (by decide) (by decide) (by decide) (by decide) (by decide)
  obtain ⟨y, hy, hstores⟩ := @TokenRing.create_stores 2 4 1
    (by decide) (by decide) (by decide) (by decide) (by decide) (by decide) (by decide)
  obtain ⟨y', hy', -⟩ := TokenRing.run_agrees hstores [.push .int16 (1 : Int16), .write [2, 0, 3, 0], .release 0 3]
  rcases Exchange.run_agrees hfollows [.openOutput, .write .int16 (1 : Int16), .writeBytes [2, 0, 3, 0], .closeOutput,
    .openInput 0, .consume 0 3, .closeInput 0, .openOutput] with ⟨hnone, -⟩ | ⟨answers, t, x', -, hx', -⟩
  · cases hnone
  exact ⟨x, x', y, y', answers, _, hx, hx', hconnections _ _ _ _ _ _ hx hx', hy, hy', hrings _ _ _ _ _ _ hy hy'⟩

end Dataflow
