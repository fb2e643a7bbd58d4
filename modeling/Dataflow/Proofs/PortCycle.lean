import Dataflow.Proofs.BridgePorts

/-!
The operations on one bridged port in the course of a round, whatever kernel runs on the device and whenever it works.

An input stages the tokens from `T` up to `H`, and the kernel has read up to `R`; an output stages those from `D` up to
`N`, and fetches `n` more.
-/

namespace Dataflow

open List Step

/-- new tokens, stored in a ring behind those that are there -/
theorem HoldsRing.extend {κ : Type} {m m' : Machine κ} {id capacity tokenSize T H n : Nat} {X bytes : Bytes} {b : Block}
    (h : HoldsRing m.buffers id capacity tokenSize X T) (hb : m.buffers[id]? = some b)
    (hre : BridgePort.Rewrites m m' id (b.storeRuns (stretch H n capacity tokenSize) bytes))
    (hslots : 0 < capacity) (hX : X.length = H * tokenSize) (hlen : bytes.length = n * tokenSize)
    (hn : n ≤ capacity) (hlap : H + n ≤ T + capacity) :
    HoldsRing m'.buffers id capacity tokenSize (X ++ bytes) T := by
  obtain ⟨b', hb', hsize, hkeeps⟩ := h
  obtain rfl : b' = b := Option.some.inj (hb'.symm.trans hb)
  have hstored := hkeeps.storeRuns n bytes hslots hX hn (by rw [← Nat.add_mul]; exact Nat.mul_le_mul_right _ hlap)
  rw [take_of_length_le hlen.le] at hstored
  exact ⟨_, hre.self, by simp [hsize], hstored⟩

namespace BridgePort

/-- a port with no command in flight -/
structure Quiet (p : BridgePort) : Prop where
  first : p.firstTransfer = none
  second : p.secondTransfer = none
  index : p.indexRead = none

/-- both transfer slots hold writes, or nothing -/
def Pushing (p : BridgePort) (P : List Promise) : Prop :=
  ∃ P1 P2, Pushes p.firstTransfer P1 ∧ Pushes p.secondTransfer P2 ∧ P = P2 ++ P1

/-- a port with the same shape and the same buffers -/
structure Same (p q : BridgePort) : Prop where
  spec : q.spec = p.spec
  data : q.data = p.data
  index : q.index = p.index

def HasWord (buffers : Array Block) (id : Nat) : Prop := ∃ w, buffers[id]? = some w ∧ w.size = 4

theorem HasWord.of_holds {buffers : Array Block} {id x : Nat} (h : HoldsWord buffers id x) : HasWord buffers id := by
  obtain ⟨w, hw, hsize, -⟩ := h
  exact ⟨w, hw, hsize⟩

/-- the reads of `n` tokens from number `N` on are on their way, and the indices count them already -/
structure Fetching (p : BridgePort) (A : Bytes) (D N n : Nat) (P : List Promise) : Prop where
  geometry : Addressable p.spec.capacity p.spec.tokenSize
  word : p.spec.capacity < Word.size32
  size : p.staging.size = p.spec.capacity * p.spec.tokenSize
  length : A.length = (N + n) * p.spec.tokenSize
  order : D ≤ N ∧ N + n < D + p.spec.capacity
  head : p.host.head = (N + n) % p.spec.capacity
  tail : p.host.tail = D % p.spec.capacity
  deviceHead : p.device.head = (N + n) % p.spec.capacity
  deviceTail : p.device.tail = D % p.spec.capacity
  keeps : p.staging.Keeps (p.spec.capacity * p.spec.tokenSize) (A.take (N * p.spec.tokenSize)) (D * p.spec.tokenSize)
  noIndex : p.indexRead = none
  pulls : ∃ P1 P2,
    Pulls (N % p.spec.capacity) ((A.drop (N * p.spec.tokenSize)).take (lead N n p.spec.capacity * p.spec.tokenSize))
      p.firstTransfer P1 ∧
    Pulls 0 ((A.drop ((N + lead N n p.spec.capacity) * p.spec.tokenSize)).take
      ((n - lead N n p.spec.capacity) * p.spec.tokenSize)) p.secondTransfer P2 ∧
    P = P2 ++ P1

/-! ## Commands in flight -/

section Covers

variable {p : BridgePort} {P : List Promise} {t : Option Transfer}

/-- the answers promised are those of the commands in flight -/
def Covers (p : BridgePort) (P : List Promise) : Prop := ∀ e, e ∈ p.inFlight ↔ e ∈ P.map Prod.fst

theorem Pushes.events (h : Pushes t P) : t.toList.map Transfer.event = P.map Prod.fst := by
  cases h <;> rfl

theorem Pulls.events {start : Nat} {bytes : Bytes} (h : Pulls start bytes t P) :
    t.toList.map Transfer.event = P.map Prod.fst := by
  cases h <;> rfl

theorem Quiet.covers (h : p.Quiet) : p.Covers [] := by
  simp [Covers, inFlight, transferEvents, h.first, h.second, h.index]

theorem Pushing.covers {e : EventId} {v : Option Bytes} (h : p.Pushing P) (hi : p.indexRead = some e) :
    p.Covers ((e, v) :: P) := by
  obtain ⟨P1, P2, hpush1, hpush2, rfl⟩ := h
  intro x
  rw [inFlight, transferEvents, map_append, hpush1.events, hpush2.events, hi, map_cons, map_append]
  simp only [Option.toList_some, mem_append, mem_cons, not_mem_nil, or_false]
  tauto

theorem Fetching.covers {A : Bytes} {D N n : Nat} (h : p.Fetching A D N n P) : p.Covers P := by
  obtain ⟨P1, P2, hpull1, hpull2, rfl⟩ := h.pulls
  intro x
  rw [inFlight, transferEvents, map_append, hpull1.events, hpull2.events, h.noIndex, map_append]
  simp only [Option.toList_none, append_nil, mem_append]
  tauto

end Covers

/-! ## Inputs -/

section Input

variable {δ κ : Type} [Device δ] [Kernel κ] {core : δ → Accelerator κ} {d : δ} {d0 : Accelerator κ} {m : Machine κ}
  {P F : List Promise} {p : BridgePort} {X bytes : Bytes} {T H R n : Nat} {e : EventId}

/-- new input is staged and pushed to the device ring -/
theorem push_yields (hcore : Device.Paces core) (hs : p.Staged X T H)
    (hring : HoldsRing m.buffers p.data p.spec.capacity p.spec.tokenSize X T) (hq : p.Quiet)
    (hlen : bytes.length = n * p.spec.tokenSize) (hn : n ≤ p.spec.capacity - 1 - (H - T))
      (hd : (core d).Serves d0 m F) : Yields (do
        let (start, port) ← (← thePort).stage bytes
        putPort port
        let _ ← writeToDevice start port.host.head : Op δ Unit) (p, d) fun _ s' =>
      Same p s'.1 ∧ s'.1.device = p.device ∧ s'.1.indexRead = none ∧ s'.1.Staged (X ++ bytes) T (H + n) ∧
        ∃ m' P b, s'.1.Pushing P ∧ (core s'.2).Serves d0 m' (P ++ F) ∧ Rewrites m m' p.data b ∧
          HoldsRing m'.buffers p.data p.spec.capacity p.spec.tokenSize (X ++ bytes) T := by
  have hord := hs.order
  have hlap : H + n < T + p.spec.capacity := by omega
  obtain ⟨staging, hstage, hs1⟩ := hs.stage hlen hn
  obtain ⟨b, hb, hbsize, -⟩ := id hring
  refine ends_thePort ?_
  refine ends_bind (ends_ok hstage ?_)
  refine ends_putPort ?_
  refine ends_bind ((writeToDevice_yields hcore hs1 hs.length hord.1 (by simp only; omega) hlen hq.first hq.second hb
    hbsize hd).mono ?_)
  rintro - ⟨p1, d1⟩ ⟨P1, P2, m1, htwin, hpush1, hpush2, hd1, hre⟩
  refine ends_pure ⟨⟨htwin.spec, htwin.data, htwin.index⟩, htwin.device, htwin.indexRead.trans hq.index, hs1.twin htwin,
    m1, P2 ++ P1, _, ⟨P1, P2, hpush1, hpush2, rfl⟩, by rw [append_assoc]; exact hd1, hre, ?_⟩
  exact hring.extend hb hre hs.geometry.slots hs.length hlen (by omega) hlap.le

theorem Pushing.retire (h : p.Pushing P) (hdone : ∀ a ∈ P, d0.events.status a.1 = .done)
    (hd : (core d).Serves d0 m (P ++ F)) :
    Yields retireTransfers (p, d) fun _ s' =>
      s'.1 = { p with firstTransfer := none, secondTransfer := none } ∧ (core s'.2).Serves d0 m F := by
  obtain ⟨P1, P2, hpush1, hpush2, rfl⟩ := h
  have hd' : (core d).Serves d0 m (P1 ++ (P2 ++ F)) :=
    hd.perm (by rw [← append_assoc]; exact perm_append_comm.append_right F)
  refine ends_bind ((retire_push_yields (show Pushes (p.transfer .first) P1 from hpush1)
    (fun a ha => hdone a (mem_append_right _ ha)) hd').mono ?_)
  rintro - ⟨p1, d1⟩ ⟨rfl, hd1⟩
  exact retire_push_yields (show Pushes ((p.setTransfer .first none).transfer .second) P2 from hpush2)
    (fun a ha => hdone a (mem_append_left _ ha)) hd1

theorem bookTail_yields (hcore : Device.Paces core) (hs : p.Staged X T H) (hTR : T ≤ R) (hRH : R ≤ H)
    (hi : p.indexRead = some e) (hp : p.Pushing P) (he : d0.events.status e = .done)
    (hdone : ∀ a ∈ P, d0.events.status a.1 = .done)
    (hd : (core d).Serves d0 m ((e, some (Bytes.ofNat 4 (R % p.spec.capacity))) :: (P ++ F))) :
    Yields (do
        let tail ← takeIndex
        retireTransfers
        let (consumed, port) ← (← thePort).acceptTail tail
        putPort port
        return consumed : Op δ Nat) (p, d) fun consumed s' =>
      consumed = R - T ∧ Same p s'.1 ∧ s'.1.Staged X R H ∧ s'.1.device.head = H % p.spec.capacity ∧ s'.1.Quiet ∧
        (core s'.2).Serves d0 m F := by
  have hord := hs.order
  have hR : R % p.spec.capacity < p.spec.capacity := Nat.mod_lt _ hs.geometry.slots
  refine ends_bind ((takeIndex_yields hcore hi hR hs.word he hd).mono ?_)
  rintro _ ⟨p1, d1⟩ ⟨rfl, rfl, hd1⟩
  refine ends_bind ((Pushing.retire (p := { p with indexRead := none }) hp hdone hd1).mono ?_)
  rintro - ⟨p2, d2⟩ ⟨rfl, hd2⟩
  refine ends_thePort ?_
  have haccept : Indices.occupied (R % p.spec.capacity) p.device.tail p.spec.capacity = .ok (R - T) := by
    rw [hs.deviceTail, Indices.occupied_mod hTR (by omega)]
  refine ends_bind (ends_ok (by simp only [acceptTail, haccept]; rfl) ?_)
  refine ends_putPort (ends_pure ⟨rfl, ⟨rfl, rfl, rfl⟩, ?_, hs.head, ⟨rfl, rfl, rfl⟩, hd2⟩)
  exact ⟨hs.geometry, hs.word, hs.size, hs.length, by simp only; omega, hs.head, rfl, rfl,
    hs.keeps.mono (Nat.mul_le_mul_right _ hTR)⟩

end Input

/-! ## Outputs -/

section Output

variable {δ κ : Type} [Device δ] [Kernel κ] {core : δ → Accelerator κ} {d : δ} {d0 : Accelerator κ} {m : Machine κ}
  {P F : List Promise} {p : BridgePort} {A : Bytes} {D N n : Nat} {e : EventId}

theorem bookHead_yields (hcore : Device.Paces core) (hs : p.Staged (A.take (N * p.spec.tokenSize)) D N)
    (hhead : p.device.head = N % p.spec.capacity) (hlen : A.length = (N + n) * p.spec.tokenSize)
    (hlap : N + n < D + p.spec.capacity)
    (hring : HoldsRing m.buffers p.data p.spec.capacity p.spec.tokenSize A N) (hfirst : p.firstTransfer = none)
    (hsecond : p.secondTransfer = none) (hi : p.indexRead = some e) (he : d0.events.status e = .done)
    (hd : (core d).Serves d0 m ((e, some (Bytes.ofNat 4 ((N + n) % p.spec.capacity))) :: F)) :
    Yields (do
        let head ← takeIndex
        let produced ← acceptHead head
        return (produced, ← (← thePort).deviceFree) : Op δ (Nat × Nat)) (p, d) fun a s' =>
      a = (n, p.spec.capacity - 1 - (N + n - D)) ∧ Same p s'.1 ∧
        ∃ P, s'.1.Fetching A D N n P ∧ (core s'.2).Serves d0 m (P ++ F) := by
  have hord := hs.order
  have hhead' : (N + n) % p.spec.capacity < p.spec.capacity := Nat.mod_lt _ hs.geometry.slots
  refine ends_bind ((takeIndex_yields hcore hi hhead' hs.word he hd).mono ?_)
  rintro _ ⟨p1, d1⟩ ⟨rfl, rfl, hd1⟩
  have hproduced : Indices.occupied ((N + n) % p.spec.capacity) p.device.head p.spec.capacity = .ok n := by
    rw [hhead, Indices.occupied_mod (Nat.le_add_right N n) (by omega), Nat.add_sub_cancel_left]
  refine ends_bind (ends_thePort ?_)
  refine ends_bind (ends_ok hproduced ?_)
  have hread := readFromDevice_yields hcore (p := { p with indexRead := none }) (n := n) hs.geometry hs.word
    (by simp only; omega) hfirst hsecond hring (by simp only [hlen, le_refl]) hd1
  rw [show ({ p with indexRead := none } : BridgePort).device.head = N % p.spec.capacity from hhead]
  refine ends_bind (hread.mono ?_)
  rintro - ⟨⟨spec, data, index, staging, host, device, first, second, indexRead, moved, count⟩, d2⟩
    ⟨P1, P2, ⟨rfl, rfl, rfl, rfl, rfl, rfl, rfl⟩, hpull1, hpull2, hd2⟩
  refine ends_thePort (ends_putPort (ends_pure ?_))
  refine ends_thePort ?_
  have hfree : Indices.freeSpace ((N + n) % p.spec.capacity) p.device.tail p.spec.capacity =
      .ok (p.spec.capacity - 1 - (N + n - D)) := by
    rw [hs.deviceTail, Indices.freeSpace_mod (by omega) hlap]
  refine ends_bind (ends_ok hfree (ends_pure ?_))
  exact ⟨rfl, ⟨rfl, rfl, rfl⟩, P2 ++ P1,
    ⟨hs.geometry, hs.word, hs.size, hlen, ⟨hord.1, hlap⟩, rfl, hs.tail, rfl, hs.deviceTail,
    hs.keeps, rfl, P1, P2, hpull1, hpull2, rfl⟩, by rw [append_assoc]; exact hd2⟩

theorem Fetching.land (hcore : Device.Paces core) (h : p.Fetching A D N n P)
    (hdone : ∀ a ∈ P, d0.events.status a.1 = .done) (hd : (core d).Serves d0 m (P ++ F)) :
    Yields retireTransfers (p, d) fun _ s' =>
      Same p s'.1 ∧ s'.1.Staged A D (N + n) ∧ s'.1.device.head = (N + n) % p.spec.capacity ∧ s'.1.Quiet ∧
        (core s'.2).Serves d0 m F := by
  obtain ⟨P1, P2, hpull1, hpull2, rfl⟩ := h.pulls
  have hord := h.order
  have hc : 0 < p.spec.capacity := h.geometry.slots
  have hlen : A.length = N * p.spec.tokenSize + n * p.spec.tokenSize := by rw [h.length, Nat.add_mul]
  have hd' : (core d).Serves d0 m (P1 ++ (P2 ++ F)) :=
    hd.perm (by rw [← append_assoc]; exact perm_append_comm.append_right F)
  -- the two parts are those of one stretch, so together they extend what is staged
  obtain ⟨hfit1, hfit2⟩ := Block.stretch_fits N (n := n) p.spec.tokenSize hc (by omega)
  rw [stretch_fst_length] at hfit1
  rw [stretch_snd_length] at hfit2
  have hold : (A.take (N * p.spec.tokenSize)).length = N * p.spec.tokenSize := by rw [length_take, hlen]; omega
  have hnew : (A.drop (N * p.spec.tokenSize)).length = n * p.spec.tokenSize := by rw [length_drop, hlen]; omega
  have hlanded := h.keeps.storeRuns n (A.drop (N * p.spec.tokenSize)) hc hold (by omega)
    (by rw [← Nat.add_mul]; exact Nat.mul_le_mul_right _ (by omega))
  rw [take_of_length_le hnew.le, take_append_drop] at hlanded
  simp only [Block.storeRuns, stretch_fst_length, stretch_snd_length, drop_drop, ← Nat.add_mul] at hlanded
  refine ends_bind ((retire_pull_yields hcore (show Pulls _ _ (p.transfer .first) P1 from hpull1)
    (fun a ha => hdone a (mem_append_right _ ha)) (h.geometry.scaled_lt (Nat.mod_lt N hc).le) ?_ hd').mono ?_)
  · rw [h.size]
    exact le_trans (Nat.add_le_add_left (length_take_le _ _) _) hfit1
  rintro - ⟨p1, d1⟩ ⟨hp1, hd1⟩
  change p1 = _ at hp1
  rw [show p.secondTransfer = p1.transfer .second by rw [hp1]; rfl] at hpull2
  refine (retire_pull_yields hcore hpull2 (fun a ha => hdone a (mem_append_left _ ha))
    (by simp [Word.size64]) ?_ hd1).mono ?_
  · refine le_trans (Nat.add_le_add_left (length_take_le _ _) _) ?_
    simpa [hp1, h.size, stretch, setTransfer] using hfit2
  subst hp1
  rintro - ⟨p2, d2⟩ ⟨rfl, hd2⟩
  refine ⟨⟨rfl, rfl, rfl⟩,
    ⟨h.geometry, h.word, by simp [setTransfer, h.size], h.length, ⟨by omega, hord.2⟩, h.head, h.tail,
    h.deviceTail, ?_⟩, h.deviceHead, ⟨rfl, rfl, h.noIndex⟩, hd2⟩
  simpa [setTransfer, stretch] using hlanded

end Output

/-! ## New ports -/

/-- a port whose ring has just been reserved -/
structure New (p : BridgePort) : Prop where
  slots : 2 ≤ p.spec.capacity
  geometry : Addressable p.spec.capacity p.spec.tokenSize
  staging : p.staging = Block.zeroed (p.spec.capacity * p.spec.tokenSize)
  host : p.host = .zero
  device : p.device = .zero
  quiet : p.Quiet
  unmoved : p.bytesMoved = 0

section New

variable {δ : Type} [Device δ] {d d' : δ} {I : δ → Prop}

theorem exec_allocate {spec : LinkPort} {p : BridgePort} (h : (allocate spec).exec d = (.ok p, d')) :
    p.spec = spec ∧ p.New ∧ ∃ d1, (Device.allocate (spec.capacity * spec.tokenSize)).exec d = (.ok p.data, d1) ∧
      (Device.allocate indexBytes).exec d1 = (.ok p.index, d') := by
  unfold allocate at h
  dsimp only at h
  split at h
  · cases h
  split at h
  · cases h
  next hslots htoken =>
  obtain ⟨bytes, hbytes, h⟩ := exec_checked_bind_ok h
  obtain ⟨data, d1, hdata, h⟩ := exec_bind_ok h
  obtain ⟨index, d2, hindex, h⟩ := exec_bind_ok h
  split at h
  · cases h
  next hfits =>
  cases h
  have hbytes : bytes = spec.capacity * spec.tokenSize := by
    unfold Word.mul64 at hbytes
    split at hbytes <;> cases hbytes
    rfl
  subst hbytes
  refine ⟨rfl, ⟨not_lt.1 hslots, ⟨?_, Nat.pos_of_ne_zero htoken, not_lt.1 hfits⟩, rfl, rfl, rfl, ⟨rfl, rfl, rfl⟩, rfl⟩,
    d1, hdata, hindex⟩
  exact lt_of_lt_of_le Nat.two_pos (not_lt.1 hslots)

theorem exec_allocateAll {specs : List LinkPort} {ports : List BridgePort}
    (hI : ∀ {bytes d id d'}, I d → (Device.allocate bytes).exec d = (.ok id, d') → I d') (hd : I d)
    (h : (specs.mapM allocate).exec d = (.ok ports, d')) :
    ports.map (·.spec) = specs ∧ (∀ p ∈ ports, p.New) ∧ I d' := by
  induction specs generalizing d ports with
  | nil =>
    cases h
    exact ⟨rfl, by simp, hd⟩
  | cons spec specs ih =>
    rw [mapM_cons] at h
    obtain ⟨p, d1, hp, h⟩ := exec_bind_ok h
    obtain ⟨rest, d2, hrest, h⟩ := exec_bind_ok h
    cases h
    obtain ⟨rfl, hnew, d1', hdata, hindex⟩ := exec_allocate hp
    obtain ⟨rfl, hall, hlast⟩ := ih (hI (hI hd hdata) hindex) hrest
    exact ⟨rfl, forall_mem_cons.2 ⟨hnew, hall⟩, hlast⟩

end New

end BridgePort

namespace Bridge

variable {δ : Type} [Device δ] {name : String} {d : δ} {ins outs : List LinkPort} {b : Bridge δ}

theorem exec_create (h : create name d ins outs = .ok b) :
    ∃ d1, (ins.mapM BridgePort.allocate).exec d = (.ok b.inputs, d1) ∧
    (outs.mapM BridgePort.allocate).exec d1 = (.ok b.outputs, b.device) ∧
    b = { name, device := b.device, inputs := b.inputs, outputs := b.outputs
          profile := { name, visits := { init := 1 }, ports := LinkProfile.freshPorts b.inputs b.outputs } } := by
  unfold create at h
  dsimp only at h
  split at h
  · cases h
  next inputs outputs d' hexec =>
  cases h
  obtain ⟨_, d1, hins, hexec⟩ := exec_bind_ok hexec
  obtain ⟨_, _, houts, hexec⟩ := exec_bind_ok hexec
  cases hexec
  exact ⟨d1, hins, houts, rfl⟩

/-- a new bridge has new ports of the shapes asked for, over a device that has reserved memory -/
theorem new_of_create {I : δ → Prop}
    (hI : ∀ {bytes d id d'}, I d → (Device.allocate bytes).exec d = (.ok id, d') → I d') (hd : I d)
    (h : create name d ins outs = .ok b) : b.inputs.map (·.spec) = ins ∧ b.outputs.map (·.spec) = outs ∧
      (∀ p ∈ b.inputs, p.New) ∧ (∀ p ∈ b.outputs, p.New) ∧ I b.device := by
  obtain ⟨d1, hins, houts, -⟩ := exec_create h
  obtain ⟨hinSpecs, hin, hd1⟩ := BridgePort.exec_allocateAll hI hd hins
  obtain ⟨houtSpecs, hout, hd2⟩ := BridgePort.exec_allocateAll hI hd1 houts
  exact ⟨hinSpecs, houtSpecs, hin, hout, hd2⟩

end Bridge

end Dataflow
