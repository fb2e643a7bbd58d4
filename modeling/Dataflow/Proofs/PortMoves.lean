import Dataflow.Proofs.DeviceContract
import Dataflow.Proofs.OpenPorts
import Dataflow.Proofs.PortCycle

/-!
How the operations of one bridged port move its indices, whatever the device does.

An operation that answers keeps the indices inside the ring and moves them by the tokens it answers
(`BridgePort.Moved`). It stops for reasons that the terms of the device name, or because a read-back does not fit.
-/

namespace Dataflow

open Step

namespace Indices

/-- how many slots `b` is ahead of `a` in a ring -/
def distance (a b capacity : Nat) : Nat := (b + capacity - a) % capacity

variable {a b n capacity : Nat}

theorem distance_add (ha : a < capacity) (hn : n < capacity) : distance a ((a + n) % capacity) capacity = n := by
  have hc : 0 < capacity := by omega
  rw [distance, add_mod_lap hc hn.le, Nat.mod_eq_of_lt ha]
  split_ifs
  · rw [show a + n + capacity - a = n + capacity by omega, Nat.add_mod_right, Nat.mod_eq_of_lt hn]
  · rw [show a + n - capacity + capacity - a = n by omega, Nat.mod_eq_of_lt hn]

theorem distance_self (a capacity : Nat) : distance a a capacity = 0 := by
  simp [distance]

/-- two slots of a ring, by their distance -/
theorem exists_distance (ha : a < capacity) (hb : b < capacity) :
    distance a b capacity < capacity ∧ (a + distance a b capacity) % capacity = b ∧
      occupied b a capacity = .ok (distance a b capacity) := by
  obtain ⟨n, hn, rfl, hoccupied, -⟩ := exists_gap hb ha
  rw [distance_add ha hn]
  exact ⟨hn, rfl, hoccupied⟩

end Indices

namespace BridgePort

theorem Quiet.vacant {p : BridgePort} (h : p.Quiet) : p.Vacant := by
  intro slot
  cases slot with
  | first => exact h.first
  | second => exact h.second

/-! ## Indices and traffic -/

/-- a port of the same shape with these indices, `bytes` more of which have crossed the link -/
structure Moved (p q : BridgePort) (host device : Indices) (bytes : Nat) : Prop where
  spec : q.spec = p.spec
  data : q.data = p.data
  size : q.staging.size = p.staging.size
  host : q.host = host
  device : q.device = device
  bytes : q.bytesMoved = p.bytesMoved + bytes

variable {p q r : BridgePort} {host device host' device' : Indices} {m n a b start : Nat} {bytes : Bytes}

theorem Moved.refl (p : BridgePort) : Moved p p p.host p.device 0 := ⟨rfl, rfl, rfl, rfl, rfl, rfl⟩

theorem Moved.trans (h : Moved p q host device m) (h' : Moved q r host' device' n) : Moved p r host' device' (m + n) :=
  ⟨h'.spec.trans h.spec, h'.data.trans h.data, h'.size.trans h.size, h'.host, h'.device,
    by rw [h'.bytes, h.bytes, Nat.add_assoc]⟩

theorem Moved.then (h : Moved p q p.host p.device m) (h' : Moved q r q.host q.device n) :
    Moved p r p.host p.device (m + n) := by
  rw [h.host, h.device] at h'
  exact h.trans h'

theorem Moved.bounded (h : Moved p q host device n) (hp : p.Bounded)
    (hhost : host.head < p.spec.capacity ∧ host.tail < p.spec.capacity)
    (hdevice : device.head < p.spec.capacity ∧ device.tail < p.spec.capacity) : q.Bounded := by
  obtain ⟨hspec, -, hsize, rfl, rfl, -⟩ := h
  refine ⟨?_, ?_, ?_, ?_, ?_, ?_⟩ <;> rw [hspec]
  · exact hp.geometry
  · exact hsize.trans hp.size
  · exact hhost.1
  · exact hhost.2
  · exact hdevice.1
  · exact hdevice.2

def NoReads (p : BridgePort) : Prop := ∀ slot event start, p.transfer slot ≠ some (.fromDevice event start)

theorem Bounded.byteSpan (h : p.Bounded) (ha : a < p.spec.capacity) (hb : b < p.spec.capacity) :
    p.byteSpan a b = .ok (stretch a (Indices.distance a b p.spec.capacity) p.spec.capacity p.spec.tokenSize) := by
  obtain ⟨hlt, hsum, -⟩ := Indices.exists_distance ha hb
  have hspan := byteSpan_eq (t := a) h.geometry hlt
  rwa [Nat.mod_eq_of_lt ha, hsum] at hspan

/-- the two parts of the slots from `a` up to `b` hold their tokens and end inside the staging ring -/
theorem Bounded.parts (h : p.Bounded) (ha : a < p.spec.capacity) (hb : b < p.spec.capacity) :
    ∃ first second, p.byteSpan a b = .ok (first, second) ∧
      first.length + second.length = Indices.distance a b p.spec.capacity * p.spec.tokenSize ∧
      first.start + first.length ≤ p.staging.size ∧ second.start + second.length ≤ p.staging.size := by
  have hlt := (Indices.exists_distance ha hb).1
  have hfits := Block.stretch_fits a p.spec.tokenSize h.geometry.slots hlt.le
  rw [← h.size] at hfits
  have hlen : ∀ n, (stretch a n p.spec.capacity p.spec.tokenSize).1.length +
    (stretch a n p.spec.capacity p.spec.tokenSize).2.length = n * p.spec.tokenSize := fun n => by
    rw [stretch_fst_length, stretch_snd_length, lead_mul]
  exact ⟨_, _, h.byteSpan ha hb, hlen _, hfits⟩

theorem Bounded.acceptTail {tail : Nat} (h : p.Bounded) (htail : tail < p.spec.capacity) :
    p.acceptTail tail = .ok (Indices.distance p.device.tail tail p.spec.capacity,
      { p with host := { p.host with tail }, device := ⟨p.host.head, tail⟩ }) := by
  obtain ⟨-, -, hconsumed⟩ := Indices.exists_distance h.deviceTail htail
  simp [BridgePort.acceptTail, hconsumed]

/-! ## Transfers -/

section Transfers

variable {δ : Type} [Device δ] {T : Device.Terms δ} {reads : List (EventId × Nat)} {d : δ} {slot : TransferSlot}
  {part : Interval}

theorem ends_submit {s : BridgePort × δ} {command : Command} {Q : EventId → BridgePort × δ → Prop}
    (hcommand : command.isLaunch = false) (h : T.owes reads s.2)
    (hQ : ∀ event d', T.owes reads d' → Q event (s.1, d')) :
    Ends (onDevice (Device.submit command)) s Q fun stop _ => T.refuses stop :=
  ends_zoom ((T.submit command h).imp hQ fun _ _ hstop => hstop (.inl hcommand))

theorem pushPart_moves (hslot : p.transfer slot = none) (hpart : part.start + part.length ≤ p.staging.size)
    (h : T.owes reads d) : Ends (pushPart slot part) (p, d) (fun _ s' => Moved p s'.1 p.host p.device part.length ∧
      s'.1.indexRead = p.indexRead ∧
      (∀ event start, s'.1.transfer slot ≠ some (.fromDevice event start)) ∧
      (∀ other, other ≠ slot → s'.1.transfer other = p.transfer other) ∧ T.owes reads s'.2)
      fun stop _ => T.refuses stop := by
  unfold pushPart
  split_ifs with h0
  · refine ends_pure ⟨by rw [h0]; exact .refl p, rfl, fun event start hslot' => ?_, fun _ _ => rfl, h⟩
    rw [hslot] at hslot'
    cases hslot'
  · refine ends_thePort ?_
    refine ends_bind (ends_ok (Block.read_eq_ok hpart) ?_)
    refine ends_putPort ?_
    refine ends_bind (ends_submit rfl h fun event d' h' => ?_)
    refine ends_thePort ?_
    obtain ⟨q, hissue, htwin, hbytes, hself, hother⟩ :=
      issue_eq hslot (p.staging.slice part.start part.length).length (.toDevice event)
    refine ends_bind (ends_ok hissue ?_)
    refine ends_putPort ?_
    refine ends_pure ⟨⟨htwin.spec, htwin.data, by rw [htwin.staging], htwin.host, htwin.device, ?_⟩,
      htwin.indexRead, fun event' start ht => ?_, hother, h'⟩
    · rw [hbytes, Block.slice_length]
    · rw [hself] at ht
      cases ht

theorem writeToDevice_moves (hp : p.Bounded) (hvacant : p.Vacant) (ha : a < p.spec.capacity) (hb : b < p.spec.capacity)
    (h : T.owes reads d) : Ends (writeToDevice a b) (p, d) (fun _ s' =>
      Moved p s'.1 p.host p.device (Indices.distance a b p.spec.capacity * p.spec.tokenSize) ∧
      s'.1.indexRead = p.indexRead ∧ s'.1.NoReads ∧ T.owes reads s'.2) fun stop _ => T.refuses stop := by
  obtain ⟨first, second, hspan, hsum, h1, h2⟩ := hp.parts ha hb
  refine ends_thePort ?_
  refine ends_bind (ends_ok hspan ?_)
  refine ends_bind ((pushPart_moves (hvacant .first) h1 h).mono ?_)
  rintro - ⟨p1, d1⟩ ⟨hmoved1, hindex1, hreads1, hother1, howes1⟩
  have hsecond : p1.transfer .second = none := (hother1 .second (by decide)).trans (hvacant .second)
  refine ends_bind ((pushPart_moves hsecond (by rw [hmoved1.size]; exact h2) howes1).mono ?_)
  rintro - ⟨p2, d2⟩ ⟨hmoved2, hindex2, hreads2, hother2, howes2⟩
  refine ends_pure ⟨hsum ▸ hmoved1.then hmoved2, hindex2.trans hindex1, fun slot event start => ?_, howes2⟩
  cases slot with
  | first =>
    rw [hother2 .first (by decide)]
    exact hreads1 event start
  | second => exact hreads2 event start

/-- what is pulled has room where it will land -/
theorem pullPart_moves (hslot : p.transfer slot = none) (hpart : part.start + part.length ≤ p.staging.size)
    (hring : T.rings p.data) (h : T.owes reads d) :
    Ends (pullPart slot part) (p, d) (fun _ s' => Moved p s'.1 p.host p.device part.length ∧
      s'.1.indexRead = p.indexRead ∧
      (∀ other, other ≠ slot → s'.1.transfer other = p.transfer other) ∧
      ∃ reads', reads ⊆ reads' ∧ s'.1.Lands reads' slot ∧ T.owes reads' s'.2) fun stop _ => T.refuses stop := by
  unfold pullPart
  split_ifs with h0
  · exact ends_pure ⟨by rw [h0]; exact .refl p, rfl, fun _ _ => rfl, reads, List.Subset.refl _, lands_of_none hslot, h⟩
  · refine ends_thePort ?_
    refine ends_putPort ?_
    refine ends_bind (ends_zoom ((T.read part.start part.length h hring).mono fun event d' h' => ?_))
    refine ends_thePort ?_
    obtain ⟨q, hissue, htwin, hbytes, hself, hother⟩ :=
      issue_eq hslot part.length (.fromDevice event (Word.low32 (part.start / p.spec.tokenSize)))
    refine ends_bind (ends_ok hissue ?_)
    refine (ends_modify ⟨⟨htwin.spec, htwin.data, by rw [htwin.staging], htwin.host, htwin.device, hbytes⟩,
      htwin.indexRead, hother, (event, part.length) :: reads, List.subset_cons_self _ _, fun event' start ht => ?_, h'⟩)
    rw [hself] at ht
    cases ht
    have hstart : Word.low32 (part.start / p.spec.tokenSize) * p.spec.tokenSize ≤ part.start :=
      (Nat.mul_le_mul_right _ (Nat.mod_le _ _)).trans (Nat.div_mul_le_self _ _)
    refine ⟨part.length, List.mem_cons_self, ?_⟩
    rw [htwin.spec, htwin.staging]
    exact (Nat.add_le_add_right hstart _).trans hpart

theorem readFromDevice_moves (hp : p.Bounded) (hvacant : p.Vacant) (ha : a < p.spec.capacity) (hb : b < p.spec.capacity)
    (hring : T.rings p.data) (h : T.owes reads d) : Ends (readFromDevice a b) (p, d) (fun _ s' =>
      Moved p s'.1 p.host p.device (Indices.distance a b p.spec.capacity * p.spec.tokenSize) ∧
      s'.1.indexRead = p.indexRead ∧ ∃ reads', reads ⊆ reads' ∧ s'.1.Landing reads' ∧ T.owes reads' s'.2)
      fun stop _ => T.refuses stop := by
  obtain ⟨first, second, hspan, hsum, h1, h2⟩ := hp.parts ha hb
  refine ends_thePort ?_
  refine ends_bind (ends_ok hspan ?_)
  refine ends_bind ((pullPart_moves (hvacant .first) h1 hring h).mono ?_)
  rintro - ⟨p1, d1⟩ ⟨hmoved1, hindex1, hother1, reads1, hsub1, hlands1, howes1⟩
  refine (pullPart_moves ((hother1 .second (by decide)).trans (hvacant .second)) (by rw [hmoved1.size]; exact h2)
    (by rw [hmoved1.data]; exact hring) howes1).mono ?_
  rintro - ⟨p2, d2⟩ ⟨hmoved2, hindex2, hother2, reads2, hsub2, hlands2, howes2⟩
  refine ⟨hsum ▸ hmoved1.then hmoved2, hindex2.trans hindex1, reads2, List.Subset.trans hsub1 hsub2,
    fun slot => ?_, howes2⟩
  cases slot with
  | first => exact hlands1.congr hmoved2.spec hmoved2.size (hother2 .first (by decide)) hsub2
  | second => exact hlands2

variable {F : Prop}

/-- a transfer leaves its slot, and what a read brings lands in the staging ring, which keeps its size; where the terms
can be relied on and there is room for the read, only its failure stops this -/
theorem retire_moves (hp : p.Bounded) (hland : F → T.sure ∧ p.Lands reads slot) (h : T.owes reads d) :
    Ends (retire slot) (p, d) (fun _ s' => Moved p s'.1 p.host p.device 0 ∧ s'.1.transfer slot = none ∧
      (∀ other, other ≠ slot → s'.1.transfer other = p.transfer other) ∧
      s'.1.indexRead = p.indexRead ∧ T.owes reads s'.2) fun stop _ => F → T.refuses stop := by
  have hempty : Moved p (p.setTransfer slot none) p.host p.device 0 := by
    cases slot <;> exact ⟨rfl, rfl, rfl, rfl, rfl, rfl⟩
  have hself : (p.setTransfer slot none).transfer slot = none := by cases slot <;> rfl
  have hother : ∀ other, other ≠ slot → (p.setTransfer slot none).transfer other = p.transfer other := by
    intro other hne
    cases slot <;> cases other <;> first | rfl | exact absurd rfl hne
  have hindex : (p.setTransfer slot none).indexRead = p.indexRead := by cases slot <;> rfl
  refine ends_thePort ?_
  refine ends_putPort ?_
  match hslot : p.transfer slot with
  | none | some (.toDevice _) => exact ends_pure ⟨hempty, hself, hother, hindex, h⟩
  | some (.fromDevice event start) =>
    refine ends_bind (ends_zoom (ends_state ?_))
    match hbytes : ((Device.take event).run d).1 with
    | none => exact ends_fail fun _ => T.error _
    | some bytes =>
      have hfits : F → start * p.spec.tokenSize + bytes.length ≤ p.staging.size := by
        intro hF
        obtain ⟨n, hmem, hfits⟩ := (hland hF).2 event start hslot
        rwa [T.brings (hland hF).1 h hmem hbytes]
      have hword : F → Word.mul64 start p.spec.tokenSize = .ok (start * p.spec.tokenSize) := by
        intro hF
        have hbound := hp.geometry.scaled_lt le_rfl
        rw [← hp.size] at hbound
        exact Word.mul64_eq_ok (by have := hfits hF; omega)
      refine ends_bind (ends_checked (fun offset hoffset => ?_) fun f hf hF => ?_)
      · refine ends_bind (ends_checked (fun staging hstaging => (ends_modify ?_)) fun f hf hF => ?_)
        · have hsize : staging.size = (p.setTransfer slot none).staging.size := by
            unfold Block.write at hstaging
            split at hstaging <;> cases hstaging
            exact Block.store_size _ _ _
          refine ⟨⟨hempty.spec, hempty.data, hsize.trans hempty.size, hempty.host, hempty.device, hempty.bytes⟩, ?_,
            fun other hne => ?_, hindex, T.take event h⟩
          · rw [← hself]
            cases slot <;> rfl
          · rw [← hother other hne]
            cases other <;> rfl
        · cases (hword hF).symm.trans hoffset
          cases (Block.write_eq_ok (by rw [hempty.size]; exact hfits hF)).symm.trans hf
      · cases (hword hF).symm.trans hf

theorem retireTransfers_moves (hp : p.Bounded) (hland : F → T.sure ∧ p.Landing reads) (h : T.owes reads d) :
    Ends retireTransfers (p, d) (fun _ s' => Moved p s'.1 p.host p.device 0 ∧
      s'.1.Vacant ∧ s'.1.indexRead = p.indexRead ∧
      T.owes reads s'.2) fun stop _ => F → T.refuses stop := by
  refine ends_bind ((retire_moves hp (fun hF => ⟨(hland hF).1, (hland hF).2 .first⟩) h).mono ?_)
  rintro - ⟨p1, d1⟩ ⟨hmoved1, hfirst, hother1, hindex1, h1⟩
  refine (retire_moves (hp.congr hmoved1.spec hmoved1.size hmoved1.host hmoved1.device) (fun hF => ⟨(hland hF).1,
    ((hland hF).2 .second).congr hmoved1.spec hmoved1.size (hother1 .second (by decide))
    (List.Subset.refl _)⟩) h1).mono ?_
  rintro - ⟨p2, d2⟩ ⟨hmoved2, hsecond, hother2, hindex2, h2⟩
  refine ⟨hmoved1.then hmoved2, fun slot => ?_, hindex2.trans hindex1, h2⟩
  cases slot with
  | first => exact (hother2 .first (by decide)).trans hfirst
  | second => exact hsecond

/-- where no read is in flight, nothing can go wrong -/
theorem retire_noReads (h : p.NoReads) :
    Yields (retire slot) (p, d) fun _ s' => s' = (p.setTransfer slot none, d) := by
  refine ends_thePort ?_
  refine ends_putPort ?_
  match hslot : p.transfer slot with
  | none | some (.toDevice _) => exact ends_pure rfl
  | some (.fromDevice event start) => exact absurd hslot (h slot event start)

theorem retireTransfers_noReads (h : p.NoReads) :
    Yields retireTransfers (p, d) fun _ s' => s' = ({ p with firstTransfer := none, secondTransfer := none }, d) := by
  refine ends_bind ((retire_noReads h).mono ?_)
  rintro - _ rfl
  refine (retire_noReads fun slot event start => ?_).mono fun _ _ hs => hs
  cases slot with
  | first => exact nofun
  | second => exact h .second event start

end Transfers

/-! ## Booking -/

/-- a port after its index has been asked for -/
def Queried (p q : BridgePort) : Prop := ∃ event, q = { p with indexRead := some event }

/-- an input after a kernel has consumed `n` of its tokens -/
def Consumed (n : Nat) (p q : BridgePort) : Prop :=
  q.device.tail < p.spec.capacity ∧ n = Indices.distance p.device.tail q.device.tail p.spec.capacity ∧
    Moved p q ⟨p.host.head, q.device.tail⟩ ⟨p.host.head, q.device.tail⟩ 0 ∧ q.Quiet

/-- an output after a kernel has produced `n` tokens, which are being read back -/
def Produced (n : Nat) (p q : BridgePort) : Prop :=
  q.device.head < p.spec.capacity ∧ n = Indices.distance p.device.head q.device.head p.spec.capacity ∧
    Moved p q ⟨q.device.head, p.host.tail⟩ ⟨q.device.head, p.device.tail⟩ (n * p.spec.tokenSize) ∧ q.indexRead = none

section Booking

variable {δ : Type} [Device δ] {T : Device.Terms δ} {reads : List (EventId × Nat)} {d : δ}

theorem requestIndex_moves (hindex : p.indexRead = none) (h : T.owes reads d) :
    Ends requestIndex (p, d) (fun _ s' => Queried p s'.1 ∧ T.owes reads s'.2) fun stop _ => T.refuses stop := by
  refine ends_thePort ?_
  simp only [hindex, Option.isSome_none, Bool.false_eq_true, if_false]
  refine ends_bind (ends_submit rfl h fun event d' h' => ?_)
  exact ends_thePort (ends_modify ⟨⟨event, rfl⟩, h'⟩)

/-- an index that is taken lies in the ring -/
theorem takeIndex_moves (h : T.owes reads d) : Ends takeIndex (p, d) (fun index s' =>
    index < p.spec.capacity ∧ s'.1 = { p with indexRead := none } ∧ T.owes reads s'.2)
    fun stop _ => T.refuses stop := by
  refine ends_thePort ?_
  match p.indexRead with
  | none => exact ends_fail (T.error _)
  | some event =>
    refine ends_putPort ?_
    refine ends_bind (ends_zoom (ends_state ?_))
    match ((Device.take event).run d).1 with
    | none => exact ends_fail (T.error _)
    | some bytes =>
      dsimp only
      split
      · exact ends_bind (ends_fail (T.error _))
      · split
        · exact ends_bind (ends_fail (T.error _))
        · next hindex => exact ends_pure ⟨not_le.1 hindex, rfl, T.take event h⟩

/-- booking an input stops only for an index that is missing, short or outside the ring -/
theorem bookTail_moves (hp : p.Bounded) (hreads : p.NoReads) (h : T.owes reads d) :
    Ends (do
      let tail ← takeIndex
      retireTransfers
      let (consumed, port) ← (← thePort).acceptTail tail
      putPort port
      return consumed) (p, d) (fun n s' => Consumed n p s'.1 ∧ T.owes reads s'.2) fun stop _ => T.refuses stop := by
  refine ends_bind ((takeIndex_moves h).mono ?_)
  rintro tail ⟨p1, d1⟩ ⟨htail, rfl, h1⟩
  have hreads1 : NoReads { p with indexRead := none } := fun slot => by
    cases slot
    · exact hreads .first
    · exact hreads .second
  refine ends_bind ((retireTransfers_noReads hreads1).ends.mono ?_)
  rintro - _ rfl
  have hp1 : Bounded { p with indexRead := none, firstTransfer := none, secondTransfer := none } :=
    hp.congr rfl rfl rfl rfl
  refine ends_thePort ?_
  refine ends_bind (ends_ok (hp1.acceptTail htail) ?_)
  refine ends_putPort ?_
  refine ends_pure ?_
  exact ⟨⟨htail, rfl, ⟨rfl, rfl, rfl, rfl, rfl, rfl⟩, rfl, rfl, rfl⟩, h1⟩

/-- booking an output stops only for such an index, or because a read cannot be submitted -/
theorem bookHead_moves (hp : p.Bounded) (hvacant : p.Vacant) (hring : T.rings p.data) (h : T.owes reads d) :
    Ends (do
      let head ← takeIndex
      let produced ← acceptHead head
      return (produced, ← (← thePort).deviceFree)) (p, d) (fun booked s' => Produced booked.1 p s'.1 ∧
        ∃ reads', reads ⊆ reads' ∧ s'.1.Landing reads' ∧ T.owes reads' s'.2) fun stop _ => T.refuses stop := by
  refine ends_bind ((takeIndex_moves h).mono ?_)
  rintro head ⟨p1, d1⟩ ⟨hhead, rfl, h1⟩
  have hp1 : Bounded { p with indexRead := none } := hp.congr rfl rfl rfl rfl
  have hvacant1 : Vacant { p with indexRead := none } := fun slot => by rw [← hvacant slot]; cases slot <;> rfl
  obtain ⟨-, -, hproduced⟩ := Indices.exists_distance hp.deviceHead hhead
  refine ends_bind (ends_thePort ?_)
  refine ends_bind (ends_ok hproduced ?_)
  refine ends_bind ((readFromDevice_moves hp1 hvacant1 hp.deviceHead hhead hring h1).mono ?_)
  rintro - ⟨p2, d2⟩ ⟨hmoved, hindex, reads', hsub, hlanding, h2⟩
  refine ends_thePort ?_
  refine ends_putPort ?_
  refine ends_pure ?_
  have hbooked : Produced (Indices.distance p.device.head head p.spec.capacity) p
      { p2 with device := { p2.device with head }, host := { p2.host with head } } := by
    refine ⟨hhead, rfl, ⟨hmoved.spec, hmoved.data, hmoved.size, ?_, ?_, hmoved.bytes⟩, hindex⟩
    · rw [hmoved.host]
    · rw [hmoved.device]
  have hbounded := hbooked.2.2.1.bounded hp ⟨hhead, hp.hostTail⟩ ⟨hhead, hp.deviceTail⟩
  obtain ⟨free, hfree⟩ := hbounded.deviceFree
  refine ends_thePort ?_
  refine ends_bind (ends_ok hfree ?_)
  refine ends_pure ⟨hbooked, reads', hsub, fun slot => ?_, h2⟩
  exact (hlanding slot).congr rfl rfl (by cases slot <;> rfl) (List.Subset.refl _)

end Booking

/-! ## Staging -/

/-- an input after tokens have been staged and pushed, with the index not asked for yet -/
structure Sent (p q : BridgePort) : Prop where
  head : q.host.head < p.spec.capacity
  moved : Moved p q ⟨q.host.head, p.host.tail⟩ ⟨q.host.head, p.device.tail⟩
    (Indices.distance p.host.head q.host.head p.spec.capacity * p.spec.tokenSize)
  pushes : q.NoReads
  index : q.indexRead = none

/-- an output after tokens have been handed on -/
def HandedOn (p q : BridgePort) : Prop :=
  q.host.tail < p.spec.capacity ∧ Moved p q ⟨p.host.head, q.host.tail⟩ ⟨p.device.head, q.host.tail⟩ 0 ∧ q.Quiet

/-- what is staged is as many tokens as the head has moved -/
theorem stage_moves (hp : p.Bounded) (h : p.stage bytes = .ok (start, q)) :
    start = p.host.head ∧ q.host.head < p.spec.capacity ∧
      ∃ staging, staging.size = p.staging.size ∧ q = { p with staging, host :=
        { p.host with head := q.host.head } } := by
  obtain ⟨free, hfree, h⟩ := bind_eq_ok h
  obtain ⟨-, hfits, h⟩ := bind_eq_ok h
  obtain ⟨head, hhead, h⟩ := bind_eq_ok h
  obtain ⟨parts, hparts, h⟩ := bind_eq_ok h
  obtain ⟨staging, hstaging, h⟩ := bind_eq_ok h
  cases h
  have hslots := hp.geometry.slots
  have hlt : head < p.spec.capacity := by
    unfold Indices.advance Word.rem at hhead
    split at hhead <;> cases hhead
    exact Nat.mod_lt _ hslots
  refine ⟨rfl, hlt, staging, ?_, rfl⟩
  rw [hp.byteSpan hp.hostHead hlt] at hparts
  cases hparts
  rw [Block.writeRuns_stretch hslots hp.size.ge (Indices.exists_distance hp.hostHead hlt).1.le] at hstaging
  cases hstaging
  exact Block.storeRuns_size _ _ _

/-- whole tokens move the head by their number -/
theorem distance_of_stage (hp : p.Bounded) (hword : p.spec.capacity < Word.size32)
    (hlen : bytes.length = n * p.spec.tokenSize) (hn : n < p.spec.capacity) (h : p.stage bytes = .ok (start, q)) :
    Indices.distance p.host.head q.host.head p.spec.capacity = n := by
  have hcount : Word.low32 (bytes.length / p.spec.tokenSize) = n := by
    rw [hlen, Nat.mul_div_cancel _ hp.geometry.token, Word.low32, Nat.mod_eq_of_lt (lt_trans hn hword)]
  obtain ⟨stop, -, rfl, hadvance, -⟩ := hp.advance hp.hostHead hn
  obtain ⟨free, -, h⟩ := bind_eq_ok h
  obtain ⟨-, -, h⟩ := bind_eq_ok h
  obtain ⟨head, hhead, h⟩ := bind_eq_ok h
  obtain ⟨parts, -, h⟩ := bind_eq_ok h
  obtain ⟨staging, -, h⟩ := bind_eq_ok h
  cases h
  rw [hcount, hadvance] at hhead
  cases hhead
  exact Indices.distance_add hp.hostHead hn

/-- nothing is staged, and the head is told all the same -/
theorem Quiet.sent (h : p.Quiet) (hp : p.Bounded) : Sent p p.publishHead := by
  refine ⟨hp.hostHead, ⟨rfl, rfl, rfl, rfl, rfl, ?_⟩, fun slot event start ht => ?_, h.index⟩
  · change p.bytesMoved = _
    rw [publishHead, Indices.distance_self, Nat.zero_mul, Nat.add_zero]
  · cases (h.vacant slot).symm.trans (by cases slot <;> exact ht)

/-- whole tokens that fit are staged and pushed; the head, once told, has moved by their number -/
theorem push_moves {δ : Type} [Device δ] {T : Device.Terms δ} {reads : List (EventId × Nat)} {d : δ} {F : Prop}
    {free : Nat} (hp : p.Bounded) (hquiet : p.Quiet) (h : T.owes reads d)
    (hlen : F → bytes.length = n * p.spec.tokenSize) (hfree : p.hostFree = .ok free) (hn : n ≤ free) : Ends (do
      let (start, port) ← (← thePort).stage bytes
      putPort port
      let _ ← writeToDevice start port.host.head : Op δ Unit) (p,
      d) (fun _ t => Sent p t.1.publishHead ∧ T.owes reads t.2 ∧
        (F → p.spec.capacity < Word.size32 → Indices.distance p.host.head t.1.host.head p.spec.capacity = n))
      fun stop _ => F → T.refuses stop := by
  refine ends_thePort ?_
  refine ends_bind (ends_checked (fun staged hstaged => ?_) fun f hf hF => ?_)
  swap
  · obtain ⟨_, hstage⟩ := hp.stage hfree (hlen hF) hn
    cases hstage.symm.trans hf
  obtain ⟨start, q⟩ := staged
  obtain ⟨m, hm, -, hfree'⟩ := hp.host_levels
  cases hfree.symm.trans hfree'
  have hdistance := fun hF hword => distance_of_stage hp hword (hlen hF) (by omega) hstaged
  obtain ⟨rfl, hhead, staging, hsize, hq⟩ := stage_moves hp hstaged
  generalize q.host.head = head at hq hhead hdistance
  subst hq
  refine ends_putPort ?_
  have hp' : Bounded { p with staging, host := { p.host with head } } :=
    { hp with size := hsize.trans hp.size, hostHead := hhead }
  refine ends_bind ((writeToDevice_moves hp' hquiet.vacant hp.hostHead hhead h).imp ?_ fun _ _ hstop _ => hstop)
  rintro - ⟨q, d'⟩ ⟨hmoved, hindex, hreads, h'⟩
  have hhost : q.host = ⟨head, p.host.tail⟩ := hmoved.host
  have hdevice : q.device = p.device := hmoved.device
  have hbytes : q.bytesMoved = _ := hmoved.bytes
  refine ends_pure ⟨⟨?_, ⟨hmoved.spec, hmoved.data, hmoved.size.trans hsize, ?_, ?_, ?_⟩,
    fun slot => ?_, hindex.trans hquiet.index⟩, h', by rwa [hhost]⟩
  · rw [publishHead, hhost]
    exact hhead
  · rw [publishHead, hhost]
  · rw [publishHead, hhost, hdevice]
  · rw [publishHead, hhost, hbytes]
  · cases slot
    · exact hreads .first
    · exact hreads .second

/-- tokens that come out move the tail by their number -/
theorem distance_of_unstage {room : Nat} (hp : p.Bounded) (h : p.unstage room = .ok (bytes, q)) :
    bytes.length = Indices.distance p.host.tail q.host.tail p.spec.capacity * p.spec.tokenSize ∧
      Indices.distance p.host.tail q.host.tail p.spec.capacity ≤ room := by
  obtain ⟨m, hm, hpending, -⟩ := hp.host_levels
  obtain ⟨m', bytes', tail, hpending', hunstage, hlen, -, -⟩ := hp.unstage room
  cases hpending.symm.trans hpending'
  cases h.symm.trans hunstage
  have hlt : min m room < p.spec.capacity := by omega
  obtain ⟨stop, -, rfl, hadvance, -⟩ := hp.advance hp.hostTail hlt
  obtain ⟨pending, hpending'', h⟩ := bind_eq_ok h
  cases hpending.symm.trans hpending''
  obtain ⟨tail', htail', h⟩ := bind_eq_ok h
  obtain ⟨parts, -, h⟩ := bind_eq_ok h
  obtain ⟨read, -, h⟩ := bind_eq_ok h
  cases h
  cases hadvance.symm.trans htail'
  rw [hlen]
  rw [Indices.distance_add hp.hostTail hlt]
  exact ⟨rfl, min_le_right m room⟩

end BridgePort

end Dataflow
