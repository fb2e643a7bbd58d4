import Dataflow.Proofs.ConnectionTransfer

/-!
A connection is a first-in first-out channel with many readers, whatever its ports do in between.

Model: an `Exchange` is a connection with its ports, any of which may be open at the same time. A `Tape` has no slots,
cursors and wrapped totals.

- `Exchange.run_agrees`: along any history an exchange gives the answers of the tape, and refuses what the tape refuses.
- `connection_is_fan_out_fifo`: a connection of any power-of-two capacity can be created, and from then on answers as
  the tape does, refuses only what the tape refuses, has the levels of the tape, and overwrites no token that some
  reader still has to release.
- Witness `connection_is_fan_out_fifo_one_slot`.

Premises: tokens that are not empty, a reader, 2 ^ 31 slots at most, and storage that can be had.
-/

namespace Dataflow

open List

/-- what can be done at the ports of a connection -/
inductive PortOp where
  | openOutput
  | closeOutput
  | writeBytes (bytes : Bytes)
  | write (p : Primitive) (value : p.Value)
  | writeRepeat (p : Primitive) (values : List p.Value)
  | openInput (reader : Nat)
  | closeInput (reader : Nat)
  | readBytes (reader length : Nat)
  | read (reader : Nat) (p : Primitive)
  | readRepeat (reader : Nat) (p : Primitive) (n : Nat)
  | peek (reader : Nat) (p : Primitive) (offset : Nat)
  | consume (reader n : Nat)

inductive PortAnswer where
  | done
  /-- tokens that an opened port may move -/
  | level (tokens : Nat)
  | bytes (bytes : Bytes)
  | values (p : Primitive) (values : List p.Value)

/-! ## The exchange -/

/-- a connection with its ends, each with the view of its port while that is open -/
structure Exchange where
  conn : Connection
  output : OutputEnd
  writing : Option PortView
  readers : List (InputEnd × Option PortView)

namespace Exchange

/-- hands out the ends of `n` readers from number `r` on -/
def takeReaders (c : Connection) (r : Nat) : Nat → Except ChannelError (List InputEnd × Connection)
  | 0 => .ok ([], c)
  | n + 1 => do
    let (e, c) ← c.takeInput r
    let (rest, c) ← takeReaders c (r + 1) n
    return (e :: rest, c)

/-- a new connection, with all its ends handed out and no port open -/
def create (tokenSize capacity readers : Nat) : Except (Stop ChannelError) Exchange := do
  let c ← Connection.create tokenSize capacity readers
  let (output, c) ← c.takeOutput.mapError Stop.error
  let (inputs, c) ← (takeReaders c 0 readers).mapError Stop.error
  return ⟨c, output, none, inputs.map (·, none)⟩

/-- an operation through the writer's open port -/
def writeWith (x : Exchange) (op : PortView → Checked (Connection × PortView)) : Checked (PortAnswer × Exchange) :=
  match x.writing with
  | none => .error .contract
  | some v => do
    let (conn, v) ← op v
    return (.done, { x with conn, writing := some v })

/-- an operation through a reader's open port -/
def readWith (x : Exchange) (r : Nat) (op : PortView → Checked (PortAnswer × PortView)) :
    Checked (PortAnswer × Exchange) :=
  match x.readers[r]? with
  | some (e, some v) => do
    let (answer, v) ← op v
    return (answer, { x with readers := x.readers.set r (e, some v) })
  | _ => .error .contract

/-- one operation; a port that is open cannot be opened again, and a closed one is of no use -/
def step (x : Exchange) : PortOp → Checked (PortAnswer × Exchange)
  | .openOutput =>
    match x.writing with
    | some _ => .error .contract
    | none => do
      let v ← x.conn.openOutput x.output
      return (.level v.available, { x with writing := some v })
  | .closeOutput =>
    match x.writing with
    | none => .error .contract
    | some v =>
      let (conn, output) := x.conn.closeOutput x.output v
      return (.done, { x with conn, output, writing := none })
  | .writeBytes bytes => x.writeWith fun v => x.conn.writeBytes v bytes
  | .write p value => x.writeWith fun v => x.conn.write v p value
  | .writeRepeat p values => x.writeWith fun v => x.conn.writeRepeat v p values
  | .openInput r =>
    match x.readers[r]? with
    | some (e, none) =>
      let v := x.conn.openInput e
      return (.level v.available, { x with readers := x.readers.set r (e, some v) })
    | _ => .error .contract
  | .closeInput r =>
    match x.readers[r]? with
    | some (e, some v) =>
      let (conn, e) := x.conn.closeInput e v
      return (.done, { x with conn, readers := x.readers.set r (e, none) })
    | _ => .error .contract
  | .readBytes r length => x.readWith r fun v => do
    let (bytes, v) ← x.conn.readBytes v length
    return (.bytes bytes, v)
  | .read r p => x.readWith r fun v => do
    let (value, v) ← x.conn.read v p
    return (.values p [value], v)
  | .readRepeat r p n => x.readWith r fun v => do
    let (values, v) ← x.conn.readRepeat v p n
    return (.values p values, v)
  | .peek r p offset => x.readWith r fun v => do
    let value ← x.conn.peek v p offset
    return (.values p [value], v)
  | .consume r n => x.readWith r fun v => do
    let v ← x.conn.skip v n
    return (.done, v)

def run (x : Exchange) : List PortOp → Checked (List PortAnswer × Exchange)
  | [] => .ok ([], x)
  | op :: ops => do
    let (answer, x) ← x.step op
    let (answers, x) ← x.run ops
    return (answer :: answers, x)

end Exchange

/-! ## The tape -/

/-- what an open input port may do: the number of the next token, and how many are left to take -/
structure Reading where
  position : Nat
  left : Nat
deriving DecidableEq, Repr

/-- a connection as its history and its open ports -/
structure Tape where
  ledger : Ledger
  /-- tokens left to write, while the output port is open -/
  writing : Option Nat
  /-- the open input ports -/
  reading : List (Option Reading)
deriving DecidableEq, Repr

namespace Tape

variable (tokenSize capacity : Nat)

/-- nothing written, no port open -/
def start (readers : Nat) : Tape := ⟨Ledger.fresh readers, none, List.replicate readers none⟩

/-- the published bytes of `n` tokens from number `k` on -/
def shown (t : Tape) (k n : Nat) : Bytes := ((t.ledger.visible tokenSize).drop (k * tokenSize)).take (n * tokenSize)

def shownValues (t : Tape) (p : Primitive) (k n : Nat) : List p.Value :=
  (List.range' k n).map fun i => p.ofToken (t.shown p.size i 1)

/-- `n` tokens with these bytes come after everything written -/
def append (t : Tape) (n : Nat) (bytes : Bytes) : Option (PortAnswer × Tape) :=
  match t.writing with
  | some left => if n ≤ left then some (.done, { t with ledger := t.ledger.write n bytes, writing := some (left - n) })
    else none
  | none => none

/-- a reader looks at the next `look` tokens and moves over `n` of them -/
def take (t : Tape) (r look n : Nat) (answer : Nat → PortAnswer) : Option (PortAnswer × Tape) :=
  match t.reading[r]? with
  | some (some u) => if look ≤ u.left then
      some (answer u.position, { t with reading := t.reading.set r (some ⟨u.position + n, u.left - n⟩) })
    else none
  | _ => none

/-- one operation, where it is allowed -/
def step (t : Tape) : PortOp → Option (PortAnswer × Tape)
  | .openOutput =>
    match t.writing with
    | some _ => none
    | none =>
      let rooms := capacity - t.ledger.backlog
      some (.level rooms, { t with writing := some rooms })
  | .closeOutput =>
    match t.writing with
    | none => none
    | some _ => some (.done, { t with ledger := t.ledger.publish, writing := none })
  | .writeBytes bytes =>
    let n := Word.low32 (bytes.length / tokenSize)
    t.append n (bytes.take (n * tokenSize))
  | .write p value => if p.size = tokenSize then t.append 1 (p.encode value) else none
  | .writeRepeat p values =>
    if values = [] ∨ p.size = tokenSize then t.append values.length (values.flatMap p.encode) else none
  | .openInput r =>
    match t.reading[r]? with
    | some none => do
      let q ← t.ledger.released[r]?
      let unread := t.ledger.published - q
      some (.level unread, { t with reading := t.reading.set r (some ⟨q, unread⟩) })
    | _ => none
  | .closeInput r =>
    match t.reading[r]? with
    | some (some u) =>
      some (.done, { t with ledger := t.ledger.release r u.position, reading := t.reading.set r none })
    | _ => none
  | .readBytes r length =>
    let n := Word.low32 (length / tokenSize)
    t.take r n n fun k => .bytes (t.shown tokenSize k n)
  | .read r p => if p.size = tokenSize then t.take r 1 1 fun k => .values p (t.shownValues p k 1) else none
  | .readRepeat r p n =>
    if n = 0 ∨ p.size = tokenSize then t.take r n n fun k => .values p (t.shownValues p k n) else none
  | .peek r p offset =>
    if p.size = tokenSize then t.take r (offset + 1) 0 fun k => .values p (t.shownValues p (k + offset) 1) else none
  | .consume r n => t.take r n n fun _ => .done

def run (t : Tape) : List PortOp → Option (List PortAnswer × Tape)
  | [] => some ([], t)
  | op :: ops => do
    let (answer, t) ← t.step tokenSize capacity op
    let (answers, t) ← t.run ops
    return (answer :: answers, t)

end Tape

variable {tokenSize capacity k n r total : Nat} {e : InputEnd} {l : Ledger} {view : Option PortView}
  {u : Option Reading}

/-- below what is published, the shown bytes are those of the stream -/
theorem Tape.shown_eq (t : Tape) (h : k + n ≤ t.ledger.published) :
    t.shown tokenSize k n = (t.ledger.stream.drop (k * tokenSize)).take (n * tokenSize) := by
  have hle : k * tokenSize + n * tokenSize ≤ t.ledger.published * tokenSize := by
    rw [← Nat.add_mul]; exact Nat.mul_le_mul_right _ h
  rw [shown, Ledger.visible, drop_take, take_take, Nat.min_eq_left (by omega)]

theorem Tape.shownValues_eq (t : Tape) (p : Primitive) (h : k + n ≤ t.ledger.published) :
    t.shownValues p k n = t.ledger.values p k n := by
  apply map_congr_left
  intro i hi
  have := (mem_range'_1.1 hi).2
  rw [t.shown_eq (by omega), Nat.one_mul, Ledger.token]

/-! ## What relates the two -/

/-- the writer and its port, as the tape has them -/
def OutputEnd.Stands (e : OutputEnd) (capacity : Nat) (l : Ledger) : Option PortView → Option Nat → Prop
  | none, none => e.Rests capacity l
  | some v, some left => e.Writes v capacity l ∧ left = v.available
  | _, _ => False

def InputEnd.Stands (e : InputEnd) (capacity : Nat) (l : Ledger) : Option PortView → Option Reading → Prop
  | none, none => ∃ q, e.Rests q capacity l
  | some v, some u => ∃ q, e.Reads v q capacity l ∧ u = ⟨q + v.moved, v.available⟩
  | _, _ => False

section

variable (h : e.Stands capacity l view u)

include h

theorem InputEnd.Stands.publish (hle : l.published ≤ l.written) : e.Stands capacity l.publish view u := by
  match view, u, h with
  | none, none, ⟨q, h⟩ => exact ⟨q, h.publish⟩
  | some _, some _, ⟨q, h, hu⟩ => exact ⟨q, h.publish hle, hu⟩

theorem InputEnd.Stands.write (n : Nat) (bytes : Bytes) : e.Stands capacity (l.write n bytes) view u := by
  match view, u, h with
  | none, none, ⟨q, h⟩ => exact ⟨q, h.write n bytes⟩
  | some _, some _, ⟨q, h, hu⟩ => exact ⟨q, h.write n bytes, hu⟩

theorem InputEnd.Stands.release_other (hr : r ≠ e.reader) : e.Stands capacity (l.release r total) view u := by
  match view, u, h with
  | none, none, ⟨q, h⟩ => exact ⟨q, h.release_other hr⟩
  | some _, some _, ⟨q, h, hu⟩ => exact ⟨q, h.release_other hr, hu⟩

end

theorem OutputEnd.Stands.release {e : OutputEnd} {q : Nat}
    {left : Option Nat} (h : e.Stands capacity l view left) (hr : l.released[r]? = some q) (hle : q ≤ total) :
    e.Stands capacity (l.release r total) view left := by
  match view, left, h with
  | none, none, h => exact OutputEnd.Rests.release h
  | some _, some _, ⟨h, hleft⟩ => exact ⟨h.release hr hle, hleft⟩

namespace Exchange

/-- the exchange is in the state that the tape says -/
structure Follows (x : Exchange) (tokenSize capacity : Nat) (t : Tape) : Prop where
  tokenSize_eq : x.conn.tokenSize = tokenSize
  capacity_eq : x.conn.capacity = capacity
  tracks : x.conn.Tracks t.ledger
  writer : x.output.Stands capacity t.ledger x.writing t.writing
  count : x.readers.length = t.reading.length
  reader : ∀ {r} {e : InputEnd} {view u},
    x.readers[r]? = some (e, view) → t.reading[r]? = some u → e.reader = r ∧ e.Stands capacity t.ledger view u

/-- both sides refuse, or both go on with one answer -/
inductive Agrees (tokenSize capacity : Nat) : Checked (PortAnswer × Exchange) → Option (PortAnswer × Tape) → Prop
  | refused (f : Fault) : Agrees tokenSize capacity (.error f) none
  | answered (answer : PortAnswer) {x : Exchange} {t : Tape} (h : x.Follows tokenSize capacity t) :
    Agrees tokenSize capacity (.ok (answer, x)) (some (answer, t))

variable {x : Exchange} {t : Tape} {op : PortView → Checked (Connection × PortView)}

section

variable (h : x.Follows tokenSize capacity t)

include h

/-- the output port is closed on both sides, or open on both -/
theorem Follows.writer_cases :
    (x.writing = none ∧ t.writing = none ∧ x.output.Rests capacity t.ledger) ∨
      ∃ v, x.writing = some v ∧ t.writing = some v.available ∧ x.output.Writes v capacity t.ledger := by
  have hw := h.writer
  match hx : x.writing, ht : t.writing with
  | none, none => exact .inl ⟨rfl, rfl, by rwa [hx, ht] at hw⟩
  | none, some _ | some _, none => simp [hx, ht, OutputEnd.Stands] at hw
  | some v, some left =>
    rw [hx, ht] at hw
    obtain ⟨hw, rfl⟩ := hw
    exact .inr ⟨v, rfl, rfl, hw⟩

/-- there is no such reader, or its port is closed on both sides, or open on both -/
theorem Follows.reader_cases (r : Nat) :
    (x.readers[r]? = none ∧ t.reading[r]? = none) ∨
      (∃ e q, x.readers[r]? = some (e, none) ∧ t.reading[r]? = some none ∧ e.reader = r ∧
        e.Rests q capacity t.ledger) ∨
      ∃ e v q, x.readers[r]? = some (e, some v) ∧ t.reading[r]? = some (some ⟨q + v.moved, v.available⟩) ∧
        e.reader = r ∧ e.Reads v q capacity t.ledger := by
  match hx : x.readers[r]?, ht : t.reading[r]? with
  | none, none => exact .inl ⟨rfl, rfl⟩
  | none, some _ =>
    have h1 := getElem?_eq_none_iff.1 hx
    have h2 := lt_of_getElem? ht
    have h3 := h.count
    omega
  | some _, none =>
    have h1 := getElem?_eq_none_iff.1 ht
    have h2 := lt_of_getElem? hx
    have h3 := h.count
    omega
  | some (e, none), some (some _) | some (e, some _), some none => exact ((h.reader hx ht).2).elim
  | some (e, none), some none =>
    obtain ⟨he, q, hr⟩ := h.reader hx ht
    exact .inr (.inl ⟨e, q, rfl, rfl, he, hr⟩)
  | some (e, some v), some (some u) =>
    obtain ⟨he, q, hr, rfl⟩ := h.reader hx ht
    exact .inr (.inr ⟨e, v, q, rfl, rfl, he, hr⟩)

/-! ## Writing -/

theorem Follows.writeWith_refused (hbad : ∀ v, x.output.Writes v capacity t.ledger → ∃ f, op v = .error f) :
    Agrees tokenSize capacity (x.writeWith op) none := by
  unfold writeWith
  rcases h.writer_cases with ⟨hx, -, -⟩ | ⟨v, hx, -, hw⟩
  · rw [hx]; exact .refused _
  · obtain ⟨f, hf⟩ := hbad v hw
    simp only [hx, hf, Checked.error_bind]
    exact .refused f

/-- a write that appends `n` tokens where there is room for them, and faults where there is not -/
theorem Follows.writeWith {bytes : Bytes} (hok : ∀ v, x.output.Writes v capacity t.ledger → n ≤ v.available →
      x.conn.Wrote x.output v capacity t.ledger n bytes (op v))
    (hbad : ∀ v, x.output.Writes v capacity t.ledger → v.available < n → ∃ f, op v = .error f) :
    Agrees tokenSize capacity (x.writeWith op) (t.append n bytes) := by
  unfold Exchange.writeWith Tape.append
  rcases h.writer_cases with ⟨hx, ht, -⟩ | ⟨v, hx, ht, hw⟩
  · rw [hx, ht]; exact .refused _
  · by_cases hle : n ≤ v.available
    · obtain ⟨storage, cursor, hop, htracks, hw'⟩ := hok v hw hle
      simp only [hx, ht, hop, Checked.ok_bind, Checked.pure_eq, if_pos hle]
      exact .answered _ ⟨h.tokenSize_eq, h.capacity_eq, htracks, ⟨hw', rfl⟩, h.count,
        fun he hu => ⟨(h.reader he hu).1, (h.reader he hu).2.write n bytes⟩⟩
    · obtain ⟨f, hf⟩ := hbad v hw (by omega)
      simp only [hx, ht, hf, Checked.error_bind, if_neg hle]
      exact .refused f

/-! ## Reading -/

/-- a reader's end and port are replaced, and nothing else changes -/
theorem Follows.set_reader
    {u : Option Reading} (he : e.reader = r) (hs : e.Stands capacity t.ledger view u) :
    Follows { x with readers := x.readers.set r (e, view) } tokenSize capacity
      { t with reading := t.reading.set r u } := by
  refine ⟨h.tokenSize_eq, h.capacity_eq, h.tracks, h.writer, by simp [h.count], fun {r' e' view' u'} hx ht => ?_⟩
  by_cases hr : r = r'
  · subst hr
    simp only [getElem?_set, if_true] at hx ht
    split_ifs at hx ht
    cases hx; cases ht
    exact ⟨he, hs⟩
  · simp only [getElem?_set_ne hr] at hx ht
    exact h.reader hx ht

end

theorem readWith_refused (x : Exchange) (r : Nat) {op : PortView → Checked (PortAnswer × PortView)}
    (hbad : ∀ v, ∃ f, op v = .error f) : Agrees tokenSize capacity (x.readWith r op) none := by
  unfold readWith
  split
  · next e v _ =>
    obtain ⟨f, hf⟩ := hbad v
    simp only [hf, Checked.error_bind]
    exact .refused f
  · exact .refused _

section

variable (h : x.Follows tokenSize capacity t)

include h

/-- a read of the next `look` tokens that moves over `n` of them, and faults where there are not so many -/
theorem Follows.readWith (r : Nat) {op : PortView → Checked (PortAnswer × PortView)} {look : Nat}
    {answer : Nat → PortAnswer} (hok : ∀ e v q, e.Reads v q capacity t.ledger → look ≤ v.available →
      Connection.Took e v q capacity t.ledger n (answer (q + v.moved)) (op v))
    (hbad : ∀ v, v.available < look → ∃ f, op v = .error f) (hn : n ≤ look) :
    Agrees tokenSize capacity (x.readWith r op) (t.take r look n answer) := by
  unfold Exchange.readWith Tape.take
  rcases h.reader_cases r with ⟨hx, ht⟩ | ⟨e, q, hx, ht, -, -⟩ | ⟨e, v, q, hx, ht, he, hr⟩
  · rw [hx, ht]; exact .refused _
  · rw [hx, ht]; exact .refused _
  · by_cases hle : look ≤ v.available
    · obtain ⟨cursor, hop, hr'⟩ := hok e v q hr hle
      have ha := hr.available_le
      have hmoved : q + PortView.moved { v with cursor, available := v.available - n } = q + v.moved + n := by
        simp only [PortView.moved]; omega
      simp only [hx, ht, hop, Checked.ok_bind, Checked.pure_eq, if_pos hle]
      exact .answered _ (h.set_reader he ⟨q, hr', by rw [hmoved]⟩)
    · obtain ⟨f, hf⟩ := hbad v (by omega)
      simp only [hx, ht, hf, Checked.error_bind, if_neg hle]
      exact .refused f

/-! ## Opening and closing -/

theorem Follows.openOutput :
    Agrees tokenSize capacity (x.step .openOutput) (t.step tokenSize capacity .openOutput) := by
  obtain rfl := h.capacity_eq
  simp only [step, Tape.step]
  rcases h.writer_cases with ⟨hx, ht, hw⟩ | ⟨v, hx, ht, -⟩
  · simp only [hx, ht, h.tracks.openOutput_eq hw, Checked.ok_bind, Checked.pure_eq]
    exact .answered _ ⟨h.tokenSize_eq, rfl, h.tracks, ⟨h.tracks.writes_of_rests hw, rfl⟩, h.count, h.reader⟩
  · simp only [hx, ht]; exact .refused _

theorem Follows.closeOutput :
    Agrees tokenSize capacity (x.step .closeOutput) (t.step tokenSize capacity .closeOutput) := by
  obtain rfl := h.capacity_eq
  simp only [step, Tape.step]
  rcases h.writer_cases with ⟨hx, ht, -⟩ | ⟨v, hx, ht, hw⟩
  · simp only [hx, ht]; exact .refused _
  · simp only [hx, ht, Connection.closeOutput_eq h.tracks hw, Checked.pure_eq]
    exact .answered _ ⟨h.tokenSize_eq, rfl, h.tracks.publish, Connection.rests_of_writes hw, h.count,
      fun he hu => ⟨(h.reader he hu).1, (h.reader he hu).2.publish h.tracks.published_le⟩⟩

theorem Follows.openInput (r : Nat) :
    Agrees tokenSize capacity (x.step (.openInput r)) (t.step tokenSize capacity (.openInput r)) := by
  obtain rfl := h.capacity_eq
  simp only [step, Tape.step]
  rcases h.reader_cases r with ⟨hx, ht⟩ | ⟨e, q, hx, ht, he, hr⟩ | ⟨e, v, q, hx, ht, he, hr⟩
  · simp only [hx, ht]; exact .refused _
  · have hq : t.ledger.released[r]? = some q := he ▸ hr.released
    simp only [hx, ht, hq, h.tracks.openInput_eq hr, Checked.pure_eq, Option.bind_eq_bind, Option.bind_some]
    exact .answered _ (h.set_reader he ⟨q, h.tracks.reads_of_rests hr, by simp [PortView.moved]⟩)
  · simp only [hx, ht]; exact .refused _

theorem Follows.closeInput (r : Nat) :
    Agrees tokenSize capacity (x.step (.closeInput r)) (t.step tokenSize capacity (.closeInput r)) := by
  obtain rfl := h.capacity_eq
  simp only [step, Tape.step]
  rcases h.reader_cases r with ⟨hx, ht⟩ | ⟨e, q, hx, ht, -, -⟩ | ⟨e, v, q, hx, ht, rfl, hr⟩
  · simp only [hx, ht]; exact .refused _
  · simp only [hx, ht]; exact .refused _
  · simp only [hx, ht, Connection.closeInput_eq h.tracks hr, Checked.pure_eq]
    -- the tape with the release recorded; the reader's own place in it is overwritten next
    have hrest : ∀ {r' e' view u}, e.reader ≠ r' →
        x.readers[r']? = some (e', view) → t.reading[r']? = some u →
        e'.reader = r' ∧ e'.Stands x.conn.capacity (t.ledger.release e.reader (q + v.moved)) view u :=
      fun hne hx ht => ⟨(h.reader hx ht).1, (h.reader hx ht).2.release_other ((h.reader hx ht).1 ▸ hne)⟩
    refine .answered _ ⟨h.tokenSize_eq, rfl, h.tracks.release hr,
      h.writer.release hr.released (Nat.le_add_right _ _), by simp [h.count], fun {r' e' view' u'} hx' ht' => ?_⟩
    by_cases hne : e.reader = r'
    · subst hne
      simp only [getElem?_set, if_true] at hx' ht'
      split_ifs at hx' ht'
      cases hx'; cases ht'
      exact ⟨rfl, _, Connection.rests_of_reads hr⟩
    · simp only [getElem?_set_ne hne] at hx' ht'
      exact hrest hne hx' ht'

/-! ## Every operation, and every history -/

/-- each operation has the same effect on both sides -/
theorem step_agrees (op : PortOp) : Agrees tokenSize capacity (x.step op) (t.step tokenSize capacity op) := by
  obtain rfl := h.tokenSize_eq
  obtain rfl := h.capacity_eq
  cases op with simp only [step, Tape.step]
  | openOutput => exact h.openOutput
  | closeOutput => exact h.closeOutput
  | openInput r => exact h.openInput r
  | closeInput r => exact h.closeInput r
  | writeBytes bytes =>
    exact h.writeWith (fun v hw hle => h.tracks.writeBytes_ok hw rfl hle)
      fun v _ hlt => ⟨_, Connection.writeBytes_fault hlt⟩
  | write p value =>
    split_ifs with hp
    · exact h.writeWith (fun v hw hle => h.tracks.write_ok hw hp hle value)
        fun v _ hlt => ⟨_, Connection.write_fault_room hp (by omega) value⟩
    · exact h.writeWith_refused fun v _ => ⟨_, Connection.write_fault_size hp value⟩
  | writeRepeat p values =>
    split_ifs with hp
    · refine h.writeWith (fun v hw hle => ?_) fun v hw hlt => Connection.writeRepeat_fault values h.tracks hw (.inl hlt)
      rcases hp with rfl | hp
      · exact ⟨x.conn.storage, v.cursor, rfl, by simpa [Ledger.write] using h.tracks, by simpa [Ledger.write] using hw⟩
      · exact h.tracks.writeRepeat_ok values hw hp hle
    · exact h.writeWith_refused fun v hw => Connection.writeRepeat_fault values h.tracks hw (.inr (not_or.1 hp))
  | readBytes r length =>
    refine h.readWith r (fun e v q hr hle => ?_) (fun v hlt => ⟨.contract, ?_⟩) le_rfl
    · obtain ⟨cursor, hread, hr'⟩ := h.tracks.readBytes_ok hr rfl hle
      refine ⟨cursor, ?_, hr'⟩
      rw [t.shown_eq (le_trans (Nat.add_le_add_left hle _) (h.tracks.readable hr).1)]
      simp only [hread, Checked.ok_bind, Checked.pure_eq]
      rfl
    · simp [Connection.readBytes_fault hlt]
  | read r p =>
    split_ifs with hp
    · refine h.readWith r (fun e v q hr hle => ?_) (fun v hlt => ⟨.contract, ?_⟩) le_rfl
      · obtain ⟨cursor, hread, hr'⟩ := h.tracks.read_ok hr hp hle
        refine ⟨cursor, ?_, hr'⟩
        rw [t.shownValues_eq p (le_trans (Nat.add_le_add_left hle _) (h.tracks.readable hr).1)]
        simp [hread, Ledger.values, hp]
      · simp [Connection.read_fault (.inr (Nat.lt_one_iff.1 hlt))]
    · exact x.readWith_refused r fun v => ⟨.contract, by simp [Connection.read_fault (.inl hp)]⟩
  | readRepeat r p n =>
    split_ifs with hp
    · refine h.readWith r (fun e v q hr hle => ?_) (fun v hlt => ?_) le_rfl
      · rw [t.shownValues_eq p (le_trans (Nat.add_le_add_left hle _) (h.tracks.readable hr).1)]
        by_cases hsize : p.size = x.conn.tokenSize
        · obtain ⟨cursor, hread, hr'⟩ := h.tracks.readRepeat_ok hr hsize hle
          exact ⟨cursor, by simp [hread], hr'⟩
        · obtain rfl : n = 0 := hp.resolve_right hsize
          obtain ⟨cursor, hskip, hr'⟩ := h.tracks.consume_ok hr hle
          exact ⟨cursor, by simp [Connection.readRepeat, Connection.peekEach, Word.low32, hskip, Ledger.values], hr'⟩
      · obtain ⟨f, hf⟩ := Connection.readRepeat_fault (c := x.conn) (p := p) (.inl hlt)
        exact ⟨f, by simp [hf]⟩
    · refine x.readWith_refused r fun v => ?_
      obtain ⟨f, hf⟩ := Connection.readRepeat_fault (v := v) (.inr (not_or.1 hp))
      exact ⟨f, by simp [hf]⟩
  | peek r p offset =>
    split_ifs with hp
    · refine h.readWith r (fun e v q hr hle => ⟨v.cursor, ?_, hr⟩) (fun v hlt => ⟨.contract, ?_⟩) (Nat.zero_le _)
      · have := (h.tracks.readable hr).1
        rw [t.shownValues_eq p (by omega)]
        simp [h.tracks.peek_ok hr hp hle, Ledger.values, hp]
      · simp [Connection.peek_fault (.inr (Nat.le_of_lt_succ hlt))]
    · exact x.readWith_refused r fun v => ⟨.contract, by simp [Connection.peek_fault (.inl hp)]⟩
  | consume r n =>
    refine h.readWith r (fun e v q hr hle => ?_) (fun v hlt => ⟨.contract, ?_⟩) le_rfl
    · obtain ⟨cursor, hskip, hr'⟩ := h.tracks.consume_ok hr hle
      exact ⟨cursor, by simp [hskip], hr'⟩
    · simp [Connection.skip_fault hlt]

/-- a history has the same answers on both sides, and is refused on both or on none -/
theorem run_agrees (ops : List PortOp) :
    (t.run tokenSize capacity ops = none ∧ ∃ f, x.run ops = .error f) ∨
      ∃ answers t' x', t.run tokenSize capacity ops = some (answers, t') ∧ x.run ops = .ok (answers, x') ∧
        x'.Follows tokenSize capacity t' := by
  induction ops generalizing x t with
  | nil => exact .inr ⟨[], t, x, rfl, rfl, h⟩
  | cons op ops ih =>
    have hstep := step_agrees h op
    generalize hx : x.step op = rx at hstep
    generalize ht : t.step tokenSize capacity op = rt at hstep
    cases hstep with
    | refused f => exact .inl ⟨by simp [Tape.run, ht], f, by simp [run, hx]⟩
    | answered answer h' =>
      rcases ih h' with ⟨hrt, f, hrx⟩ | ⟨answers, t', x', hrt, hrx, hf⟩
      · exact .inl ⟨by simp [Tape.run, ht, hrt], f, by simp [run, hx, hrx]⟩
      · exact .inr ⟨answer :: answers, t', x', by simp [Tape.run, ht, hrt], by simp [run, hx, hrx], hf⟩

end

/-! ## A new exchange -/

/-- the ends of all readers can be had in order, and each starts at slot zero -/
theorem takeReaders_ok (c : Connection) (n : Nat) (pre : List Bool) (h : c.inputsTaken = pre ++ replicate n false) :
    ∃ taken, takeReaders c pre.length n =
      .ok ((range' pre.length n).map fun r => ⟨r, Cursor.start c.capacity, 0⟩, { c with inputsTaken := taken }) := by
  induction n generalizing c pre with
  | zero => exact ⟨c.inputsTaken, rfl⟩
  | succ n ih =>
    have hget : c.inputsTaken[pre.length]? = some false := by simp [h, replicate_succ]
    have hset : c.inputsTaken.set pre.length true = (pre ++ [true]) ++ replicate n false := by
      simp [h, replicate_succ]
    obtain ⟨taken, hrest⟩ := ih { c with inputsTaken := c.inputsTaken.set pre.length true } (pre ++ [true]) hset
    refine ⟨taken, ?_⟩
    simp only [length_append, length_singleton] at hrest
    simp only [takeReaders, Connection.takeInput, hget]
    rw [range'_succ]
    simp [bind, Except.bind, hrest, pure, Except.pure]

/-- an exchange can be had wherever the connection can, and starts as an empty tape -/
theorem create_follows {readers : Nat} (hts : 0 < tokenSize) (hreaders : 0 < readers) (hmin : 1 ≤ capacity)
    (hpow : Word.isPowerOfTwo capacity = true) (hlarge : capacity ≤ Region.largestCapacity)
    (hlim : Region.grants (capacity * tokenSize)) (haddr : readers * Region.readerBytes ≤ Word.signedMax64) :
    ∃ x, create tokenSize capacity readers = .ok x ∧ x.Follows tokenSize capacity (Tape.start readers) := by
  have hb := Region.forTokens_eq_ok_iff.2 ⟨⟨hts, hreaders, hmin, hpow, hlarge, hlim, haddr⟩, rfl⟩
  obtain ⟨c, hc⟩ : ∃ c, Connection.create tokenSize capacity readers = .ok c :=
    ⟨_, by simp only [Connection.create, hb, bind, Except.bind, pure, Except.pure]; rfl⟩
  obtain ⟨rfl, rfl, hout, hins, htracks⟩ := Connection.create_eq_ok hc
  obtain ⟨taken, htake⟩ := takeReaders_ok { c with outputTaken := true } readers [] (by simpa using hins)
  refine ⟨⟨{ c with outputTaken := true, inputsTaken := taken }, ⟨Cursor.start c.capacity, 0⟩, none,
    (range' 0 readers).map fun r => (⟨r, Cursor.start c.capacity, 0⟩, none)⟩, ?_, rfl, rfl, ?_, ?_, ?_, ?_⟩
  · simp only [length_nil] at htake
    simp [create, hc, Connection.takeOutput, hout, htake, bind, Except.bind, pure, Except.pure, Except.mapError,
      Function.comp_def]
  · exact { htracks with }
  · exact ⟨Cursor.at_start _, rfl, rfl⟩
  · simp [Tape.start]
  · intro r e view u hx ht
    simp only [getElem?_map, Option.map_eq_some_iff] at hx
    obtain ⟨r', hr', hx⟩ := hx
    obtain ⟨hlt, hr'⟩ := List.getElem?_eq_some_iff.1 hr'
    simp only [length_range'] at hlt
    obtain rfl : r = r' := by simpa using hr'
    cases hx
    obtain rfl : u = none := by
      simp only [Tape.start, getElem?_replicate, if_pos hlt] at ht
      exact (Option.some.inj ht).symm
    exact ⟨rfl, 0, by simp [Tape.start, Ledger.fresh, hlt], rfl, Cursor.at_start _⟩

/-- levels and storage as the tape has them -/
structure Sound (x : Exchange) (tokenSize capacity : Nat) (t : Tape) : Prop where
  /-- a reader has before it what is published and not released by it, at most one lap -/
  pending : ∀ r q : Nat, t.ledger.released[r]? = some q → q ≤ t.ledger.published ∧ t.ledger.published ≤ q + capacity ∧
    x.conn.pending r = .ok (t.ledger.published - q)
  /-- the writer may add what the slowest reader leaves -/
  rooms : t.ledger.backlog ≤ capacity ∧ x.conn.rooms x.output = .ok (capacity - t.ledger.backlog)
  /-- every token that a reader has not released is in its slot, published or not -/
  kept : ∀ r q : Nat, t.ledger.released[r]? = some q →
    x.conn.storage.Keeps (capacity * tokenSize) t.ledger.stream (q * tokenSize)

theorem Follows.sound (h : x.Follows tokenSize capacity t) : x.Sound tokenSize capacity t := by
  obtain rfl := h.tokenSize_eq
  obtain rfl := h.capacity_eq
  have hproduced : x.output.produced = UInt32.ofNat t.ledger.published := by
    rcases h.writer_cases with ⟨-, -, hw⟩ | ⟨v, -, -, hw⟩
    · exact hw.produced
    · exact hw.produced
  refine ⟨fun r q hq => ⟨?_, ?_, h.tracks.pending_eq hq⟩, ⟨h.tracks.backlog_le, h.tracks.rooms_eq hproduced⟩, ?_⟩
  · exact h.tracks.released_le q (mem_of_getElem? hq)
  · exact le_trans h.tracks.published_le (h.tracks.lap q (mem_of_getElem? hq))
  · exact fun r q hq => h.tracks.keeps q (mem_of_getElem? hq)

end Exchange

/-- A connection answers as a tape does, for any capacity, any readers and any use of its ports. -/
theorem connection_is_fan_out_fifo {tokenSize k readers : Nat} (hts : 0 < tokenSize) (hreaders : 0 < readers)
    (hk : k ≤ 31) (hlim : Region.grants (2 ^ k * tokenSize)) (haddr : readers * Region.readerBytes ≤ Word.signedMax64) :
    ∃ x, Exchange.create tokenSize (2 ^ k) readers = .ok x ∧ ∀ ops : List PortOp,
      match (Tape.start readers).run tokenSize (2 ^ k) ops with
      | none => ∃ f, x.run ops = .error f
      | some (answers, t) => ∃ x', x.run ops = .ok (answers, x') ∧ x'.Sound tokenSize (2 ^ k) t := by
  have hlarge : 2 ^ k ≤ Region.largestCapacity := Nat.pow_le_pow_right (by decide) hk
  obtain ⟨x, hx, hf⟩ := Exchange.create_follows hts hreaders Nat.one_le_two_pow
    (isPowerOfTwo_two_pow k) hlarge hlim haddr
  refine ⟨x, hx, fun ops => ?_⟩
  rcases Exchange.run_agrees hf ops with ⟨ht, hrun⟩ | ⟨answers, t, x', ht, hrun, hf'⟩
  · rw [ht]; exact hrun
  · rw [ht]; exact ⟨x', hrun, hf'.sound⟩

/-- One slot, two readers. Reader 0 opens its port while a value is written and sees nothing; reader 1 opens after the
writer has closed and reads it; the slot stays occupied until reader 0 has read it too. -/
theorem connection_is_fan_out_fifo_one_slot :
    0 < 4 ∧ 0 < 2 ∧ 0 ≤ 31 ∧ Region.grants (2 ^ 0 * 4) ∧ 2 * Region.readerBytes ≤ Word.signedMax64 ∧
      ∃ x x', Exchange.create 4 (2 ^ 0) 2 = .ok x ∧
        x.run [.openOutput, .write .int32 (7 : Int32), .openInput 0, .closeOutput, .openInput 1, .read 1 .int32,
          .closeInput 1, .closeInput 0, .openOutput, .openInput 0, .peek 0 .int32 0] =
          .ok ([.level 1, .done, .level 0, .done, .level 1, .values .int32 [(7 : Int32)],
            .done, .done, .level 0, .level 1, .values .int32 [(7 : Int32)]], x') := by
  obtain ⟨x, hx, hrun⟩ := @connection_is_fan_out_fifo 4 0 2
    (by decide) (by decide) (by decide) (by decide) (by decide)
  obtain ⟨x', hx', -⟩ := hrun [.openOutput, .write .int32 (7 : Int32), .openInput 0, .closeOutput, .openInput 1,
    .read 1 .int32, .closeInput 1, .closeInput 0, .openOutput, .openInput 0, .peek 0 .int32 0]
  exact ⟨by decide, by decide, by decide, by decide, by decide, x, x', hx, hx'⟩

end Dataflow
