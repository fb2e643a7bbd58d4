import Dataflow.Proofs.KernelProgram
import Dataflow.Proofs.PacedDevice
import Dataflow.Proofs.Polling

/-!
The operations of one bridged port.

On the host it stages the tokens from number `T` up to `H` of its stream (`BridgePort.Staged`). The lemma of each
operation says which answers the device owes after it.
-/

namespace Dataflow

open List Step

namespace BridgePort

/-! ## The staging ring -/

/-- the host stages the tokens of the stream from number `T` up to `H` -/
structure Staged (p : BridgePort) (X : Bytes) (T H : Nat) : Prop where
  geometry : Addressable p.spec.capacity p.spec.tokenSize
  word : p.spec.capacity < Word.size32
  size : p.staging.size = p.spec.capacity * p.spec.tokenSize
  length : X.length = H * p.spec.tokenSize
  order : T ≤ H ∧ H < T + p.spec.capacity
  head : p.host.head = H % p.spec.capacity
  tail : p.host.tail = T % p.spec.capacity
  deviceTail : p.device.tail = T % p.spec.capacity
  keeps : p.staging.Keeps (p.spec.capacity * p.spec.tokenSize) X (T * p.spec.tokenSize)

variable {p q : BridgePort} {X bytes : Bytes} {T H n t : Nat}

theorem Staged.pending (h : p.Staged X T H) : p.hostPending = .ok (H - T) := by
  rw [hostPending, h.head, h.tail, Indices.occupied_mod h.order.1 h.order.2]

theorem Staged.free (h : p.Staged X T H) : p.hostFree = .ok (p.spec.capacity - 1 - (H - T)) := by
  rw [hostFree, h.head, h.tail, Indices.freeSpace_mod h.order.1 h.order.2]

theorem byteSpan_eq (g : Addressable p.spec.capacity p.spec.tokenSize) (hn : n < p.spec.capacity) :
    p.byteSpan (t % p.spec.capacity) ((t + n) % p.spec.capacity) =
      .ok (stretch t n p.spec.capacity p.spec.tokenSize) := by
  obtain ⟨runs, hspan, hranges⟩ := KernelView.span_byteRanges (t := t) g hn
  simp [byteSpan, hspan, hranges]

/-- the bytes in the ring slots from the tail up to the head are the staged tokens -/
theorem Staged.contents (h : p.Staged X T H) :
    ∃ span, p.byteSpan p.host.tail p.host.head = .ok span ∧
    p.staging.readRuns span = .ok (X.drop (T * p.spec.tokenSize)) := by
  have hord := h.order
  have hsum : T + (H - T) = H := by omega
  have hspan := byteSpan_eq (t := T) (n := H - T) h.geometry (by omega)
  have hread := h.keeps.readRuns (n := H - T) h.geometry.slots h.size.ge (by omega) le_rfl
    (by rw [hsum, h.length])
  rw [hsum] at hspan
  refine ⟨_, by rw [h.head, h.tail, hspan], ?_⟩
  rw [hread, take_of_length_le]
  rw [length_drop, h.length, Nat.sub_mul]

/-- staging appends whole tokens to the stream -/
theorem Staged.stage (h : p.Staged X T H) (hlen : bytes.length = n * p.spec.tokenSize)
    (hn : n ≤ p.spec.capacity - 1 - (H - T)) :
    ∃ staging, p.stage bytes =
        .ok (H % p.spec.capacity, { p with staging, host := { p.host with head := (H + n) % p.spec.capacity } }) ∧
      Staged { p with staging, host := { p.host with head := (H + n) % p.spec.capacity } } (X ++ bytes) T (H + n) := by
  have hord := h.order
  have hword := h.word
  have hcount : Word.low32 (bytes.length / p.spec.tokenSize) = n := by
    rw [hlen, Nat.mul_div_cancel _ h.geometry.token, Word.low32, Nat.mod_eq_of_lt (by omega)]
  have htake : bytes.take (n * p.spec.tokenSize) = bytes := take_of_length_le hlen.le
  have hfits : n ≤ p.spec.capacity := by omega
  have hwrite := Block.writeRuns_stretch (t := H) h.geometry.slots h.size.ge hfits bytes
  have hkeeps := h.keeps.storeRuns n bytes h.geometry.slots h.length hfits
    (by rw [← Nat.add_mul]; exact Nat.mul_le_mul_right _ (by omega))
  have hsize := p.staging.storeRuns_size (stretch H n p.spec.capacity p.spec.tokenSize) bytes
  generalize p.staging.storeRuns _ bytes = staging at hwrite hkeeps hsize
  rw [htake] at hkeeps
  refine ⟨staging, ?_, h.geometry, h.word, hsize.trans h.size, ?_,
    by simp only; omega, rfl, h.tail, h.deviceTail, hkeeps⟩
  · simp [BridgePort.stage, hcount, h.free, require_true hn, h.head, Indices.advance_mod h.geometry.slots,
      byteSpan_eq h.geometry (show n < p.spec.capacity by omega), hwrite]
  · rw [length_append, h.length, hlen, Nat.add_mul]

/-- unstaging answers the oldest staged tokens -/
theorem Staged.unstage (h : p.Staged X T H) (room : Nat) :
    ∃ taken, taken = min (H - T) room ∧ p.unstage room =
        .ok ((X.drop (T * p.spec.tokenSize)).take (taken * p.spec.tokenSize),
          { p with host := { p.host with tail := (T + taken) % p.spec.capacity },
                   device := { p.device with tail := (T + taken) % p.spec.capacity } }) ∧
      Staged { p with host := { p.host with tail := (T + taken) % p.spec.capacity },
                      device := { p.device with tail := (T + taken) % p.spec.capacity } } X (T + taken) H := by
  have hord := h.order
  set taken := min (H - T) room
  have hread := h.keeps.readRuns (n := taken) h.geometry.slots h.size.ge (by omega) le_rfl
    (by rw [h.length]; exact Nat.mul_le_mul_right _ (by omega))
  refine ⟨taken, rfl, ?_, h.geometry, h.word, h.size, h.length, by simp only; omega, h.head, rfl, rfl,
    h.keeps.mono (Nat.mul_le_mul_right _ (Nat.le_add_right _ _))⟩
  simp [BridgePort.unstage, h.pending, h.tail, Indices.advance_mod h.geometry.slots,
    byteSpan_eq h.geometry (show taken < p.spec.capacity by omega), hread, taken]

/-! ## Single commands -/

section Commands

variable {δ κ : Type} [Device δ] [Kernel κ] {core : δ → Accelerator κ} (hcore : Device.Paces core) {s : BridgePort × δ}
  {d0 : Accelerator κ} {m m' : Machine κ} {P F : List Promise} {e : EventId} {v : Option Bytes} {c : Command}

include hcore

theorem yields_submit {Q : EventId → BridgePort × δ → Prop} (h : (core s.2).Serves d0 m P) (hc : m.Performs c v m')
    (hQ : ∀ e d', (core d').Serves d0 m' ((e, v) :: P) → Q e (s.1, d')) : Yields (onDevice (Device.submit c)) s Q :=
  ends_zoom ((hcore.submit_yields h hc).mono hQ)

theorem yields_take {Q : Option Bytes → BridgePort × δ → Prop} (h : (core s.2).Serves d0 m ((e, v) :: F))
    (hs : d0.events.status e = .done) (hQ : ∀ d', (core d').Serves d0 m F → Q v (s.1, d')) :
    Yields (onDevice (liftM (Device.take e : StateM δ (Option Bytes)))) s Q := by
  obtain ⟨d', htake, h'⟩ := hcore.take_eq h hs
  refine ends_zoom (ends_state ?_)
  rw [htake]
  exact hQ d' h'

end Commands

/-- the same port, but for its transfers and its counters -/
structure Twin (p q : BridgePort) : Prop where
  spec : q.spec = p.spec
  data : q.data = p.data
  index : q.index = p.index
  staging : q.staging = p.staging
  host : q.host = p.host
  device : q.device = p.device
  indexRead : q.indexRead = p.indexRead

theorem Twin.refl (p : BridgePort) : Twin p p := ⟨rfl, rfl, rfl, rfl, rfl, rfl, rfl⟩

theorem Twin.trans {r : BridgePort} (h1 : Twin p q) (h2 : Twin q r) : Twin p r :=
  ⟨h2.spec.trans h1.spec, h2.data.trans h1.data, h2.index.trans h1.index, h2.staging.trans h1.staging,
    h2.host.trans h1.host, h2.device.trans h1.device, h2.indexRead.trans h1.indexRead⟩

theorem Staged.congr (h : p.Staged X T H) (hspec : q.spec = p.spec) (hstaging : q.staging = p.staging)
    (hhost : q.host = p.host) (htail : q.device.tail = p.device.tail) : q.Staged X T H := by
  refine ⟨?_, ?_, ?_, ?_, ?_, ?_, ?_, ?_, ?_⟩ <;> rw [hspec]
  · exact h.geometry
  · exact h.word
  · rw [hstaging]; exact h.size
  · exact h.length
  · exact h.order
  · rw [hhost]; exact h.head
  · rw [hhost]; exact h.tail
  · rw [htail]; exact h.deviceTail
  · rw [hstaging]; exact h.keeps

theorem Staged.twin (h : p.Staged X T H) (ht : Twin p q) : q.Staged X T H :=
  h.congr ht.spec ht.staging ht.host (by rw [ht.device])

theorem twin_setTransfer (p : BridgePort) (slot : TransferSlot) (t : Option Transfer) :
    Twin p (p.setTransfer slot t) := by
  cases slot <;> exact ⟨rfl, rfl, rfl, rfl, rfl, rfl, rfl⟩

/-- an empty slot takes a transfer, and nothing but counters changes besides -/
theorem issue_eq {slot : TransferSlot} (h : p.transfer slot = none) (n : Nat) (t : Transfer) :
    ∃ q, issue { p with bytesMoved := p.bytesMoved + n } slot t = .ok q ∧ Twin p q ∧ q.bytesMoved = p.bytesMoved + n ∧
      q.transfer slot = some t ∧ ∀ other, other ≠ slot → q.transfer other = p.transfer other := by
  have hempty : { p with bytesMoved := p.bytesMoved + n }.transfer slot = none := h
  refine ⟨_, by rw [issue, hempty], ?_, ?_, ?_, ?_⟩
  · cases slot <;> exact ⟨rfl, rfl, rfl, rfl, rfl, rfl, rfl⟩
  · cases slot <;> rfl
  · cases slot <;> rfl
  · intro other hne
    cases slot <;> cases other <;> first | rfl | exact absurd rfl hne

/-! ## Pushing to the device -/

/-- a transfer slot that holds a write, or nothing -/
inductive Pushes : Option Transfer → List Promise → Prop
  | idle : Pushes none []
  | writing (e : EventId) : Pushes (some (.toDevice e)) [(e, none)]

/-- a transfer slot that holds a read of these bytes, to land at `slot`, or nothing if there are none -/
inductive Pulls (slot : Nat) (bytes : Bytes) : Option Transfer → List Promise → Prop
  | idle (h : bytes = []) : Pulls slot bytes none []
  | reading (e : EventId) : Pulls slot bytes (some (.fromDevice e slot)) [(e, some bytes)]

/-- one buffer has new contents, and nothing else differs -/
structure Rewrites {κ : Type} (m m' : Machine κ) (id : Nat) (b : Block) : Prop where
  kernel : m'.kernel = m.kernel
  self : m'.buffers[id]? = some b
  others : ∀ i, i ≠ id → m'.buffers[i]? = m.buffers[i]?

theorem rewrites_self {κ : Type} {m : Machine κ} {id : Nat} {b : Block} (hb : m.buffers[id]? = some b) (b' : Block) :
    Rewrites m { m with buffers := m.buffers.setIfInBounds id b' } id b' := by
  have hlt := (Array.getElem?_eq_some_iff.1 hb).1
  exact ⟨rfl, by simp [hlt], fun i hi => Array.getElem?_setIfInBounds_ne (Ne.symm hi)⟩

section Transfers

variable {δ κ : Type} [Device δ] [Kernel κ] {core : δ → Accelerator κ} (hcore : Device.Paces core) {d : δ}
  {d0 : Accelerator κ} {m : Machine κ} {P F : List Promise} {b : Block} {slot : TransferSlot} {part : Interval}
  {payload : Bytes} {start x : Nat}

include hcore in
theorem pushPart_yields (hslot : p.transfer slot = none) (hread : p.staging.read part.start part.length = .ok payload)
    (hlen : payload.length = part.length) (hb : m.buffers[p.data]? = some b) (hfits : part.start + part.length ≤ b.size)
    (hword : b.size < Word.size64) (h : (core d).Serves d0 m P) :
    Yields (pushPart slot part) (p, d) fun _ s' => ∃ P' m', Twin p s'.1 ∧ Pushes (s'.1.transfer slot) P' ∧
      (∀ other, other ≠ slot → s'.1.transfer other = p.transfer other) ∧ (core s'.2).Serves d0 m' (P' ++ P) ∧
      Rewrites m m' p.data (b.store part.start payload) := by
  unfold pushPart
  split_ifs with h0
  · have hnil : payload = [] := eq_nil_of_length_eq_zero (hlen.trans h0)
    exact ends_pure ⟨[], m, .refl p, by rw [hslot]; exact .idle, fun _ _ => rfl, h,
      rfl, by rw [hnil]; exact hb, fun _ _ => rfl⟩
  · refine ends_thePort ?_
    refine ends_bind (ends_ok hread ?_)
    refine ends_putPort ?_
    refine ends_bind (yields_submit hcore h (Machine.performs_write hb (by omega) (by omega)) fun e d' h' => ?_)
    refine ends_thePort ?_
    obtain ⟨q, hissue, htwin, -, hself, hother⟩ := issue_eq hslot payload.length (.toDevice e)
    refine ends_bind (ends_ok hissue ?_)
    refine ends_putPort ?_
    refine ends_pure ⟨[(e, none)], _, htwin, ?_, hother, h', rewrites_self hb _⟩
    rw [hself]
    exact .writing e

/-- the newest tokens of the staging ring, in the two parts that they are pushed in -/
theorem Staged.newest (hs : p.Staged (X ++ bytes) T (H + n)) (hX : X.length = H * p.spec.tokenSize) (hT : T ≤ H)
    (hn : n < p.spec.capacity) {span : Interval × Interval}
    (hspan : span = stretch H n p.spec.capacity p.spec.tokenSize) :
    p.staging.read span.1.start span.1.length = .ok (bytes.take span.1.length) ∧
      p.staging.read span.2.start span.2.length = .ok ((bytes.drop span.1.length).take span.2.length) := by
  have hread := hs.keeps.read_parts hs.geometry.slots hs.size.ge hn.le (Nat.mul_le_mul_right _ hT) hs.length.ge
  rw [Nat.add_mul H, ← drop_drop, ← hX, drop_left, ← stretch_fst_length, ← stretch_snd_length, ← hspan] at hread
  exact hread

include hcore in
/-- the newest tokens of the staging ring are pushed to the same place of the device ring -/
theorem writeToDevice_yields (hs : p.Staged (X ++ bytes) T (H + n)) (hX : X.length = H * p.spec.tokenSize) (hT : T ≤ H)
    (hn : n < p.spec.capacity) (hbytes : bytes.length = n * p.spec.tokenSize) (hfirst : p.firstTransfer = none)
    (hsecond : p.secondTransfer = none) (hb : m.buffers[p.data]? = some b)
    (hbsize : b.size = p.spec.capacity * p.spec.tokenSize) (h : (core d).Serves d0 m F) :
    Yields (writeToDevice (H % p.spec.capacity) ((H + n) % p.spec.capacity)) (p, d) fun _ s' =>
      ∃ P1 P2 m', Twin p s'.1 ∧ Pushes s'.1.firstTransfer P1 ∧ Pushes s'.1.secondTransfer P2 ∧
        (core s'.2).Serves d0 m' (P2 ++ (P1 ++ F)) ∧
        Rewrites m m' p.data (b.storeRuns (stretch H n p.spec.capacity p.spec.tokenSize) bytes) := by
  have hbword : b.size < Word.size64 := hbsize ▸ hs.geometry.scaled_lt le_rfl
  obtain ⟨h1, h2⟩ := Block.stretch_fits H p.spec.tokenSize hs.geometry.slots hn.le
  refine ends_thePort ?_
  refine ends_bind (ends_ok (byteSpan_eq hs.geometry hn) ?_)
  generalize hspan : stretch H n p.spec.capacity p.spec.tokenSize = span
  obtain ⟨hread1, hread2⟩ := hs.newest hX hT hn hspan.symm
  have hl := lead_le H n p.spec.capacity
  have hlen1 : span.1.length ≤ bytes.length := by
    rw [← hspan, stretch_fst_length, hbytes]; exact Nat.mul_le_mul_right _ hl
  have hlen2 : span.2.length ≤ (bytes.drop span.1.length).length := by
    rw [← hspan, stretch_fst_length, stretch_snd_length, length_drop, hbytes, Nat.sub_mul]
  rw [hspan, ← hbsize] at h1 h2
  refine ends_bind ((pushPart_yields hcore (show p.transfer .first = none from hfirst) hread1
      (by simpa using hlen1) hb h1 hbword h).mono ?_)
  rintro - ⟨p1, d1⟩ ⟨P1, m1, htwin1, hpush1, hother1, h1', hre1⟩
  have hsecond1 : p1.transfer .second = none := (hother1 .second (by decide)).trans hsecond
  refine ends_bind ((pushPart_yields hcore hsecond1 (by rw [htwin1.staging]; exact hread2) (by simpa using hlen2)
    (by rw [htwin1.data]; exact hre1.self) (by simpa using h2) (by simpa using hbword) h1').mono ?_)
  rintro - ⟨p2, d2⟩ ⟨P2, m2, htwin2, hpush2, hother2, h2', hre2⟩
  refine ends_pure ⟨P1, P2, m2, htwin1.trans htwin2, ?_, hpush2, h2', hre2.kernel.trans hre1.kernel, ?_, ?_⟩
  · have hkeep : p2.firstTransfer = p1.firstTransfer := hother2 .first (by decide)
    rw [hkeep]; exact hpush1
  · rw [htwin1.data] at hre2; exact hre2.self
  · intro i hi
    rw [htwin1.data] at hre2
    exact (hre2.others i hi).trans (hre1.others i hi)

/-! ## Pulling from the device -/

include hcore in
theorem pullPart_yields (hslot : p.transfer slot = none) (hb : m.buffers[p.data]? = some b)
    (hfits : part.start + part.length ≤ b.size) (hword : b.size < Word.size64)
    (hstart : Word.low32 (part.start / p.spec.tokenSize) = start) (h : (core d).Serves d0 m P) :
    Yields (pullPart slot part) (p, d) fun _ s' => ∃ P', Twin p s'.1 ∧
      Pulls start (b.slice part.start part.length) (s'.1.transfer slot) P' ∧
      (∀ other, other ≠ slot → s'.1.transfer other = p.transfer other) ∧ (core s'.2).Serves d0 m (P' ++ P) := by
  unfold pullPart
  split_ifs with h0
  · exact ends_pure ⟨[], .refl p, by rw [hslot]; exact .idle (by simp [Block.slice, h0]), fun _ _ => rfl, h⟩
  · refine ends_thePort ?_
    refine ends_putPort ?_
    refine ends_bind (yields_submit hcore h (Machine.performs_read hb (by omega) hfits) fun e d' h' => ?_)
    refine ends_thePort ?_
    obtain ⟨q, hissue, htwin, -, hself, hother⟩ :=
      issue_eq hslot part.length (.fromDevice e (Word.low32 (part.start / p.spec.tokenSize)))
    refine ends_bind (ends_ok hissue ?_)
    refine ends_modify ⟨[(e, some (b.slice part.start part.length))], htwin, ?_, hother, h'⟩
    rw [hself, hstart]
    exact .reading e

include hcore in
/-- the tokens from number `t` on are pulled from the device ring, in two parts if they pass its end -/
theorem readFromDevice_yields {A : Bytes} (g : Addressable p.spec.capacity p.spec.tokenSize)
    (hcap : p.spec.capacity < Word.size32) (hn : n < p.spec.capacity) (hfirst : p.firstTransfer = none)
    (hsecond : p.secondTransfer = none)
    (hring : HoldsRing m.buffers p.data p.spec.capacity p.spec.tokenSize A t)
    (hA : (t + n) * p.spec.tokenSize ≤ A.length) (h : (core d).Serves d0 m F) :
    Yields (readFromDevice (t % p.spec.capacity) ((t + n) % p.spec.capacity)) (p, d) fun _ s' =>
      ∃ P1 P2, Twin p s'.1 ∧
        Pulls (t % p.spec.capacity) ((A.drop (t * p.spec.tokenSize)).take (lead t n p.spec.capacity * p.spec.tokenSize))
          s'.1.firstTransfer P1 ∧
        Pulls 0 ((A.drop ((t + lead t n p.spec.capacity) * p.spec.tokenSize)).take
          ((n - lead t n p.spec.capacity) * p.spec.tokenSize)) s'.1.secondTransfer P2 ∧
        (core s'.2).Serves d0 m (P2 ++ (P1 ++ F)) := by
  obtain ⟨b, hb, hbsize, hkeeps⟩ := hring
  have hbword : b.size < Word.size64 := hbsize ▸ g.scaled_lt le_rfl
  have hslot := Nat.mod_lt t g.slots
  obtain ⟨h1, h2⟩ := Block.stretch_fits t p.spec.tokenSize g.slots hn.le
  rw [← hbsize] at h1 h2
  refine ends_thePort ?_
  refine ends_bind (ends_ok (byteSpan_eq g hn) ?_)
  have hstart : Word.low32 ((stretch t n p.spec.capacity p.spec.tokenSize).1.start / p.spec.tokenSize) =
      t % p.spec.capacity := by
    simp only [stretch, Nat.mul_div_cancel _ g.token, Word.low32]
    exact Nat.mod_eq_of_lt (by omega)
  refine ends_bind ((pullPart_yields hcore (show p.transfer .first = none from hfirst) hb h1 hbword hstart h).mono ?_)
  rintro - ⟨p1, d1⟩ ⟨P1, htwin1, hpull1, hother1, h1'⟩
  have hsecond1 : p1.transfer .second = none := (hother1 .second (by decide)).trans hsecond
  have hzero : Word.low32 ((stretch t n p.spec.capacity p.spec.tokenSize).2.start / p1.spec.tokenSize) = 0 := by
    simp [stretch, Word.low32]
  refine (pullPart_yields hcore hsecond1 (by rw [htwin1.data]; exact hb) h2 hbword hzero h1').mono ?_
  rintro - ⟨p2, d2⟩ ⟨P2, htwin2, hpull2, hother2, h2'⟩
  have hkeep : p2.firstTransfer = p1.firstTransfer := hother2 .first (by decide)
  refine ⟨P1, P2, htwin1.trans htwin2, ?_, ?_, h2'⟩
  · rw [← hkeeps.slice_first g.slots le_rfl hA]
    rw [hkeep]; exact hpull1
  · rw [← hkeeps.slice_second g.slots hn.le le_rfl hA]
    exact hpull2

/-! ## The published index -/

include hcore in
theorem requestIndex_yields (hnone : p.indexRead = none) (hword : HoldsWord m.buffers p.index x)
    (h : (core d).Serves d0 m P) :
    Yields requestIndex (p, d) fun _ s' =>
      ∃ e, s'.1 = { p with indexRead := some e } ∧ (core s'.2).Serves d0 m ((e, some (Bytes.ofNat 4 x)) :: P) := by
  obtain ⟨w, hw, hsize, hslice⟩ := hword
  refine ends_thePort ?_
  simp only [hnone, Option.isSome_none, Bool.false_eq_true, if_false]
  have hread : m.Performs (.read p.index 0 indexBytes) (some (w.slice 0 indexBytes)) m :=
    Machine.performs_read hw (by simp [indexBytes, Word.size64]) (by simp [indexBytes, hsize])
  refine ends_bind (yields_submit hcore h hread fun e d' h' => ?_)
  refine ends_thePort ?_
  exact ends_modify ⟨e, rfl, by simpa [indexBytes, hslice] using h'⟩

include hcore in
theorem takeIndex_yields {e : EventId} (hsome : p.indexRead = some e) (hx : x < p.spec.capacity)
    (hcap : p.spec.capacity < Word.size32) (hdone : d0.events.status e = .done)
    (h : (core d).Serves d0 m ((e, some (Bytes.ofNat 4 x)) :: F)) :
    Yields takeIndex (p, d) fun a s' => a = x ∧ s'.1 = { p with indexRead := none } ∧ (core s'.2).Serves d0 m F := by
  have hsmall : x < 256 ^ 4 := lt_trans hx hcap
  have hback : Bytes.toNat ((Bytes.ofNat 4 x).take indexBytes) = x := by
    rw [indexBytes, take_of_length_le (Bytes.length_ofNat 4 x).le, Bytes.toNat_ofNat hsmall]
  refine ends_thePort ?_
  simp only [hsome]
  refine ends_putPort ?_
  refine ends_bind (yields_take hcore h hdone fun d' h' => ?_)
  simp only [Bytes.length_ofNat, show ¬ 4 < indexBytes by decide, if_false, hback, Nat.not_le.2 hx]
  exact ends_pure ⟨rfl, rfl, h'⟩

/-! ## Emptying the slots -/

/-- a write that is done leaves its slot -/
theorem retire_push_yields (hpush : Pushes (p.transfer slot) P) (hdone : ∀ a ∈ P, d0.events.status a.1 = .done)
    (h : (core d).Serves d0 m (P ++ F)) :
    Yields (retire slot) (p, d) fun _ s' => s'.1 = p.setTransfer slot none ∧ (core s'.2).Serves d0 m F := by
  refine ends_thePort ?_
  refine ends_putPort ?_
  generalize ht : p.transfer slot = t at hpush
  cases hpush with
  | idle => exact ends_pure ⟨rfl, h⟩
  | writing e => exact ends_pure ⟨rfl, h.forget (hdone _ mem_cons_self)⟩

include hcore in
/-- a read that is done leaves its slot and lands in the staging ring -/
theorem retire_pull_yields (hpull : Pulls start bytes (p.transfer slot) P)
    (hdone : ∀ a ∈ P, d0.events.status a.1 = .done)
    (hword : start * p.spec.tokenSize < Word.size64) (hfits : start * p.spec.tokenSize + bytes.length ≤ p.staging.size)
    (h : (core d).Serves d0 m (P ++ F)) :
    Yields (retire slot) (p, d) fun _ s' =>
      s'.1 = { p.setTransfer slot none with staging := p.staging.store (start * p.spec.tokenSize) bytes } ∧
        (core s'.2).Serves d0 m F := by
  have hstaging : (p.setTransfer slot none).staging = p.staging := (twin_setTransfer p slot none).staging
  refine ends_thePort ?_
  refine ends_putPort ?_
  generalize ht : p.transfer slot = t at hpull
  cases hpull with
  | idle hnil =>
    refine ends_pure ⟨?_, h⟩
    rw [hnil, Block.store, ← hstaging]
  | reading e =>
    refine ends_bind (yields_take hcore h (hdone _ mem_cons_self) fun d' h' => ?_)
    have hwrite := Block.write_eq_ok (b := (p.setTransfer slot none).staging) (by rw [hstaging]; exact hfits)
    refine ends_bind (ends_ok (Word.mul64_eq_ok hword) (ends_bind (ends_ok hwrite ?_)))
    exact ends_modify ⟨by rw [hstaging], h'⟩

end Transfers

end BridgePort

end Dataflow
