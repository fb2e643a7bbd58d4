import Dataflow.Proofs.BridgePorts
import Dataflow.Proofs.DeviceTrail

/-!
One bridged port over any device.

`Device.Contract` is all that a bridge relies on; its operations are shown on weaker terms (`Device.Terms`), which may
say nothing at all. A port keeps its indices inside its ring (`BridgePort.Bounded`) and has room for every read in
flight (`BridgePort.Landing`).
-/

namespace Dataflow

open Step

/-- what a bridge relies on in a device -/
structure Device.Contract (δ : Type) [Device δ] where
  /-- buffers whose reads bring what was asked for -/
  rings : BufferId → Prop
  /-- the device is in a state to be used, and of each of these reads, given by event and length, that many bytes come
  back, if any do -/
  owes : List (EventId × Nat) → δ → Prop
  allocate : ∀ {reads d bytes id d'}, owes reads d → (Device.allocate bytes).exec d = (.ok id, d') → owes reads d'
  submit : ∀ {reads d} command, owes reads d → Safe (Device.submit command) d fun _ d' => owes reads d'
  read : ∀ {reads d buffer} offset n, owes reads d → rings buffer →
    Safe (Device.submit (.read buffer offset n)) d fun event d' => owes ((event, n) :: reads) d'
  poll : ∀ {reads d} event, owes reads d → owes reads ((Device.poll event).run d).2
  take : ∀ {reads d} event, owes reads d → owes reads ((Device.take event).run d).2
  brings : ∀ {reads d event n bytes}, owes reads d → (event, n) ∈ reads → ((Device.take event).run d).1 = some bytes →
    bytes.length = n

/-- on what terms a device is used: what it keeps to in any case, and for which reasons it refuses a transfer -/
structure Device.Terms (δ : Type) [Device δ] where
  rings : BufferId → Prop
  owes : List (EventId × Nat) → δ → Prop
  refuses : Stop DeviceError → Prop
  /-- a launch is refused as transfers are, and a read brings what it owes -/
  sure : Prop
  error : ∀ e, refuses (.error e)
  submit : ∀ {reads d} command, owes reads d → Ends (Device.submit command) d (fun _ d' => owes reads d')
    fun stop _ => command.isLaunch = false ∨ sure → refuses stop
  read : ∀ {reads d buffer} offset n, owes reads d → rings buffer →
    Ends (Device.submit (.read buffer offset n)) d (fun event d' => owes ((event, n) :: reads) d')
    fun stop _ => refuses stop
  poll : ∀ {reads d} event, owes reads d → owes reads ((Device.poll event).run d).2
  take : ∀ {reads d} event, owes reads d → owes reads ((Device.take event).run d).2
  brings : sure → ∀ {reads d event n bytes}, owes reads d → (event, n) ∈ reads →
    ((Device.take event).run d).1 = some bytes →
    bytes.length = n

namespace Device.Terms

variable {δ : Type} [Device δ]

/-- polling alone keeps to the terms -/
def watch (T : Device.Terms δ) (reads : List (EventId × Nat)) : Device.Watch δ where
  holds := T.owes reads
  complete _ _ := True
  poll e h := T.poll e h
  seen _ _ := trivial
  lasts _ _ _ := trivial

theorem exists_error (e : DeviceError) : ∃ e', Stop.error e = .error e' := ⟨e, rfl⟩

/-- any device keeps to terms that say nothing -/
def loose (δ : Type) [Device δ] : Device.Terms δ where
  rings _ := True
  owes _ _ := True
  refuses _ := True
  sure := False
  error _ := trivial
  submit _ _ := (gives_of_forall fun _ _ => trivial).imp (fun _ _ h => h) fun _ _ h _ => h
  read _ _ _ _ := gives_of_forall fun _ _ => trivial
  poll _ _ := trivial
  take _ _ := trivial
  brings := False.elim

theorem loose_owes (d : δ) : (loose δ).owes [] d := trivial

end Device.Terms

def Device.Contract.terms {δ : Type} [Device δ] (C : Device.Contract δ) : Device.Terms δ where
  rings := C.rings
  owes := C.owes
  refuses stop := ∃ e, stop = .error e
  sure := True
  error := Terms.exists_error
  submit command h := (C.submit command h).imp (fun _ _ h => h) fun _ _ h _ => h
  read := C.read
  poll := C.poll
  take := C.take
  brings _ := C.brings

namespace BridgePort

/-! ## The staging ring -/

/-- a staging ring of one lap, with all indices inside it -/
structure Bounded (p : BridgePort) : Prop where
  geometry : Addressable p.spec.capacity p.spec.tokenSize
  size : p.staging.size = p.spec.capacity * p.spec.tokenSize
  hostHead : p.host.head < p.spec.capacity
  hostTail : p.host.tail < p.spec.capacity
  deviceHead : p.device.head < p.spec.capacity
  deviceTail : p.device.tail < p.spec.capacity

variable {p q : BridgePort} {bytes : Bytes} {n a : Nat}

section

variable (h : p.Bounded)

include h

theorem Bounded.congr (hspec : q.spec = p.spec) (hsize : q.staging.size = p.staging.size)
    (hhost : q.host = p.host) (hdevice : q.device = p.device) : q.Bounded := by
  refine ⟨?_, ?_, ?_, ?_, ?_, ?_⟩ <;> rw [hspec]
  · exact h.geometry
  · rw [hsize]; exact h.size
  · rw [hhost]; exact h.hostHead
  · rw [hhost]; exact h.hostTail
  · rw [hdevice]; exact h.deviceHead
  · rw [hdevice]; exact h.deviceTail

theorem Bounded.host_levels :
    ∃ n < p.spec.capacity, p.hostPending = .ok n ∧ p.hostFree = .ok (p.spec.capacity - 1 - n) := by
  obtain ⟨n, hn, -, hpending, hfree⟩ := Indices.exists_gap h.hostHead h.hostTail
  exact ⟨n, hn, hpending, hfree⟩

theorem Bounded.deviceFree : ∃ n, p.deviceFree = .ok n := by
  obtain ⟨n, -, -, -, hfree⟩ := Indices.exists_gap h.deviceHead h.deviceTail
  exact ⟨_, hfree⟩

/-- an index moved on stays in the ring, and the slots it moved over are a stretch -/
theorem Bounded.advance (ha : a < p.spec.capacity) (hn : n < p.spec.capacity) :
    ∃ stop < p.spec.capacity, stop = (a + n) % p.spec.capacity ∧ Indices.advance a n p.spec.capacity = .ok stop ∧
      p.byteSpan a stop = .ok (stretch a n p.spec.capacity p.spec.tokenSize) := by
  have hadvance : Indices.advance (a % p.spec.capacity) n p.spec.capacity = .ok ((a + n) % p.spec.capacity) :=
    Indices.advance_mod h.geometry.slots n
  have hspan := byteSpan_eq (t := a) h.geometry hn
  rw [Nat.mod_eq_of_lt ha] at hadvance hspan
  exact ⟨_, Nat.mod_lt _ h.geometry.slots, rfl, hadvance, hspan⟩

/-- whole tokens that fit are staged -/
theorem Bounded.stage {free : Nat} (hfree : p.hostFree = .ok free)
    (hlen : bytes.length = n * p.spec.tokenSize) (hn : n ≤ free) : ∃ staged, p.stage bytes = .ok staged := by
  obtain ⟨m, hm, -, hfree'⟩ := h.host_levels
  rw [hfree] at hfree'
  cases hfree'
  have hcount : Word.low32 (bytes.length / p.spec.tokenSize) ≤ n := by
    rw [hlen, Nat.mul_div_cancel _ h.geometry.token]
    exact Nat.mod_le _ _
  generalize hk : Word.low32 (bytes.length / p.spec.tokenSize) = k at hcount
  have hlt : k < p.spec.capacity := by omega
  obtain ⟨stop, hstop, -, hadvance, hspan⟩ := h.advance h.hostHead hlt
  have hwrite := Block.writeRuns_stretch (t := p.host.head) h.geometry.slots h.size.ge hlt.le bytes
  simp only [BridgePort.stage, hk, hfree, require_true (hcount.trans hn), hadvance, hspan,
    hwrite, Checked.ok_bind, Checked.pure_eq]
  exact ⟨_, rfl⟩

/-- staged tokens come out, as many as there is room for, and the others stay staged -/
theorem Bounded.unstage (room : Nat) : ∃ m bytes tail, p.hostPending = .ok m ∧
      p.unstage room = .ok (bytes, { p with host := { p.host with tail }, device := { p.device with tail } }) ∧
      bytes.length = min m room * p.spec.tokenSize ∧ tail < p.spec.capacity ∧
      Indices.occupied p.host.head tail p.spec.capacity = .ok (m - room) := by
  obtain ⟨m, hm, hhead, hpending, -⟩ := Indices.exists_gap h.hostHead h.hostTail
  have hlt : min m room < p.spec.capacity := by omega
  obtain ⟨stop, hstop, hmod, hadvance, hspan⟩ := h.advance h.hostTail hlt
  obtain ⟨bytes, hread, hlen⟩ := Block.readRuns_stretch (t := p.host.tail) h.geometry.slots h.size.ge hlt.le
  refine ⟨m, bytes, stop, hpending, ?_, hlen, hstop, ?_⟩
  · simp [BridgePort.unstage, hostPending, hpending, hadvance, hspan, hread]
  · rw [← hhead, hmod, Indices.occupied_mod (by omega) (by omega)]
    congr 1
    omega

end

/-! ## What is in flight -/

/-- a read in this slot has room in the staging ring -/
def Lands (p : BridgePort) (reads : List (EventId × Nat)) (slot : TransferSlot) : Prop :=
  ∀ event start, p.transfer slot = some (.fromDevice event start) →
    ∃ n, (event, n) ∈ reads ∧ start * p.spec.tokenSize + n ≤ p.staging.size

/-- every read in flight has room in the staging ring -/
def Landing (p : BridgePort) (reads : List (EventId × Nat)) : Prop := ∀ slot, p.Lands reads slot

def Vacant (p : BridgePort) : Prop := ∀ slot, p.transfer slot = none

variable {reads reads' : List (EventId × Nat)} {slot : TransferSlot}

theorem lands_of_none (h : p.transfer slot = none) : p.Lands reads slot := by
  intro event start ht
  rw [h] at ht
  cases ht

theorem Lands.congr (h : p.Lands reads slot) (hspec : q.spec = p.spec) (hsize : q.staging.size = p.staging.size)
    (hslot : q.transfer slot = p.transfer slot) (hsub : reads ⊆ reads') : q.Lands reads' slot := by
  intro event start ht
  rw [hslot] at ht
  obtain ⟨n, hmem, hfits⟩ := h event start ht
  exact ⟨n, hsub hmem, by rw [hspec, hsize]; exact hfits⟩

end BridgePort

end Dataflow
