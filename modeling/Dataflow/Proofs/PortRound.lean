import Dataflow.Proofs.PortTraffic

/-!
One bridged port through a whole round.

* input: idle, sent (writes are on their way), called (the launch as well), asked (the index as well), idle again;
* output: idle, called, asked, fetching (reads are on their way), idle again.

For each operation there is one lemma that takes the port from one state to the next, with any other promises left
alone.
-/

namespace Dataflow

open List Step

namespace BridgePort

/-- a condition on input `j`: the machine after all commands, the number, the port, the bytes taken from upstream, and
the promised answers -/
abbrev InputState (κ : Type) := Machine (Recorded κ) → Nat → BridgePort → Bytes → List Promise → Prop

/-- a condition on output `o`: the machine after all commands, the number, the port, the bytes that the kernel has
written, the number of tokens handed on, and the promised answers -/
abbrev OutputState (κ : Type) := Machine (Recorded κ) → Nat → BridgePort → Bytes → Nat → List Promise → Prop

/-! ## Input ports -/

section Input

variable {κ : Type} {d d0 : Accelerator (Recorded κ)} {m m' : Machine (Recorded κ)} {P F : List Promise} {j : Nat}
  {p : BridgePort} {X bytes : Bytes} {n : Nat}

/-- nothing is in flight, and the host knows how far the kernel has read -/
def InputIdle : InputState κ := fun m j p X P =>
  ∃ T H, p.Staged X T H ∧ m.InputLoaded j p.kernelArgs p.spec.tokenSize X T H ∧ p.Quiet ∧ P = []

/-- staged tokens are on their way, and a launch would find them -/
def InputSent : InputState κ := fun m j p X P =>
  ∃ T H, p.Staged X T H ∧ m.InputLoaded j p.kernelArgs p.spec.tokenSize X T H ∧ p.indexRead = none ∧ p.Pushing P

/-- a launch is on its way, too -/
def InputCalled : InputState κ := fun m j p X P =>
  ∃ T H, p.Staged X T H ∧ m.InputDrawn j p.kernelArgs p.spec.tokenSize X T H ∧ p.indexRead = none ∧ p.Pushing P

/-- the read of the index is on its way, too -/
def InputAsked : InputState κ := fun m j p X P =>
  ∃ T H R e P', p.Staged X T H ∧ T ≤ R ∧ R ≤ H ∧
    HoldsRing m.buffers p.data p.spec.capacity p.spec.tokenSize X R ∧
    m.kernel.received[j]? = some (X.take (R * p.spec.tokenSize)) ∧ HasWord m.buffers p.index ∧
    p.indexRead = some e ∧ p.Pushing P' ∧ P = (e, some (Bytes.ofNat 4 (R % p.spec.capacity))) :: P'

theorem InputSent.of_push {q : BridgePort} {T H : Nat} {b : Block} (hs : p.Staged X T H)
    (hl : m.InputLoaded j p.kernelArgs p.spec.tokenSize X T H) (hne : p.index ≠ p.data) (hsame : Same p q)
    (hs' : q.Staged (X ++ bytes) T (H + n)) (hhead : q.device.head = (H + n) % p.spec.capacity)
    (hi : q.indexRead = none) (hp : q.Pushing P) (hre : Rewrites m m' p.data b)
    (hring : HoldsRing m'.buffers p.data p.spec.capacity p.spec.tokenSize (X ++ bytes) T) :
    InputSent m' j q (X ++ bytes) P := by
  have hargs : q.kernelArgs = { p.kernelArgs with head := (H + n) % p.spec.capacity } := by
    rw [kernelArgs, hsame.data, hsame.index, hsame.spec, hhead, hs'.deviceTail, hsame.spec, ← hs.deviceTail]
    rfl
  refine ⟨T, H + n, hs', ?_, hi, hp⟩
  have hlength := hs'.length
  have horder := hs'.order
  rw [hsame.spec] at hlength horder
  rw [hargs, hsame.spec]
  refine ⟨hl.geometry, rfl, hl.tail, hlength, horder, hring, ?_, ?_⟩
  · rw [hre.kernel, hl.received, take_append_of_le_length]
    rw [hs.length]
    exact Nat.mul_le_mul_right _ hs.order.1
  · obtain ⟨w, hw, hw4⟩ := hl.word
    exact ⟨w, (hre.others _ hne).trans hw, hw4⟩

theorem InputSent.called (h : InputSent m j p X P)
    (hdraw : ∀ {tokenSize X T H}, m.InputLoaded j p.kernelArgs tokenSize X T H →
      m'.InputDrawn j p.kernelArgs tokenSize X T H) : InputCalled m' j p X P := by
  obtain ⟨T, H, hs, hl, hi, hp⟩ := h
  exact ⟨T, H, hs, hdraw hl, hi, hp⟩

variable [Programmed κ]

theorem InputCalled.ask (h : InputCalled m j p X P) (hd : d.Serves d0 m (P ++ F)) :
    Yields requestIndex (p, d) fun _ s' =>
      Same p s'.1 ∧ ∃ P', InputAsked m j s'.1 X P' ∧ s'.2.Serves d0 m (P' ++ F) := by
  obtain ⟨T, H, hs, ⟨R, hTR, hRH, hring, hrec, hword⟩, hi, hp⟩ := h
  refine (requestIndex_yields Accelerator.paces hi hword hd).mono ?_
  rintro - ⟨p1, d1⟩ ⟨e, rfl, hd1⟩
  obtain ⟨w, hw, hsize, -⟩ := hword
  exact ⟨⟨rfl, rfl, rfl⟩, _, ⟨T, H, R, e, P, hs.congr rfl rfl rfl rfl, hTR, hRH, hring, hrec, ⟨w, hw, hsize⟩, rfl, hp,
    rfl⟩, hd1⟩

theorem InputAsked.book (h : InputAsked m j p X P) (hdone : ∀ a ∈ P, d0.events.status a.1 = .done)
    (hd : d.Serves d0 m (P ++ F)) :
    Yields (do
        let tail ← takeIndex
        retireTransfers
        let (consumed, port) ← (← thePort).acceptTail tail
        putPort port
        return consumed : Op (Accelerator (Recorded κ)) Nat) (p, d) fun _ s' =>
      Same p s'.1 ∧ ∃ P', InputIdle m j s'.1 X P' ∧ s'.2.Serves d0 m (P' ++ F) := by
  obtain ⟨T, H, R, e, P', hs, hTR, hRH, hring, hrec, hword, hi, hp, rfl⟩ := h
  have hord := hs.order
  refine (bookTail_yields Accelerator.paces hs hTR hRH hi hp (hdone _ mem_cons_self)
    (fun a ha => hdone a (mem_cons_of_mem _ ha)) hd).mono ?_
  rintro consumed ⟨p1, d1⟩ ⟨-, hsame, hs1, hhead, hq1, hd1⟩
  refine ⟨hsame, [], ⟨R, H, hs1, ?_, hq1, rfl⟩, hd1⟩
  have hargs : p1.kernelArgs = ⟨p.data, p.index, p.spec.capacity, H % p.spec.capacity, R % p.spec.capacity⟩ := by
    rw [kernelArgs, hsame.data, hsame.index, hsame.spec, hhead, hs1.deviceTail, hsame.spec]
  rw [hargs, hsame.spec]
  exact ⟨hs.geometry, rfl, rfl, hs.length, ⟨hRH, by simp only; omega⟩, hring, hrec, hword⟩

end Input

/-! ## Output ports -/

section Output

variable {κ : Type} {d d0 : Accelerator (Recorded κ)} {m m' : Machine (Recorded κ)} {P F : List Promise} {o : Nat}
  {p : BridgePort} {A : Bytes} {D N N' : Nat}

/-- nothing is in flight, and the host stages what the kernel has written and nobody has been handed yet -/
def OutputIdle : OutputState κ := fun m o p A D P =>
  ∃ N, p.Staged A D N ∧ m.OutputLoaded o p.kernelArgs p.spec.tokenSize A D N ∧ p.Quiet ∧ P = []

/-- the kernel has written `N'` tokens, of which the host knows the first `N` -/
structure Ahead (m : Machine (Recorded κ)) (o : Nat) (p : BridgePort) (A : Bytes) (D N N' : Nat) : Prop where
  staged : p.Staged (A.take (N * p.spec.tokenSize)) D N
  head : p.device.head = N % p.spec.capacity
  length : A.length = N' * p.spec.tokenSize
  order : N ≤ N' ∧ N' < D + p.spec.capacity
  ring : HoldsRing m.buffers p.data p.spec.capacity p.spec.tokenSize A N
  accepted : m.kernel.accepted[o]? = some A

def OutputCalled : OutputState κ := fun m o p A D P =>
  ∃ N N', Ahead m o p A D N N' ∧ HoldsWord m.buffers p.index (N' % p.spec.capacity) ∧ p.Quiet ∧ P = []

def OutputAsked : OutputState κ := fun m o p A D P =>
  ∃ N N' e, Ahead m o p A D N N' ∧ HasWord m.buffers p.index ∧ p.firstTransfer = none ∧ p.secondTransfer = none ∧
    p.indexRead = some e ∧ P = [(e, some (Bytes.ofNat 4 (N' % p.spec.capacity)))]

/-- the reads of the new tokens are on their way; the indices count them already -/
def OutputFetching : OutputState κ := fun m o p A D P =>
  ∃ N n, p.Fetching A D N n P ∧ m.OutputLoaded o p.kernelArgs p.spec.tokenSize A D (N + n)

theorem OutputIdle.called (h : OutputIdle m o p A D P)
    (hgrow : ∀ {tokenSize A D N}, m.OutputLoaded o p.kernelArgs tokenSize A D N →
      m'.OutputGrown o p.kernelArgs tokenSize A D N) : ∃ A', A <+: A' ∧ OutputCalled m' o p A' D P := by
  obtain ⟨N, hs, hl, hq, rfl⟩ := h
  obtain ⟨A', N', hpre, hlen, hle, hlap, hring, hacc, hword⟩ := hgrow hl
  have hstaged : A'.take (N * p.spec.tokenSize) = A := by rw [← hs.length]; exact (prefix_iff_eq_take.1 hpre).symm
  exact ⟨A', hpre, N, N', ⟨by rw [hstaged]; exact hs, hl.head, hlen, ⟨hle, hlap⟩, hring, hacc⟩, hword, hq, rfl⟩

/-- what has been handed on was there before the launch -/
theorem OutputIdle.handed {A' : Bytes} (h : OutputIdle m o p A D P) (hpre : A <+: A') :
    A'.take (D * p.spec.tokenSize) = A.take (D * p.spec.tokenSize) := by
  obtain ⟨N, hs, -⟩ := h
  obtain ⟨rest, rfl⟩ := hpre
  rw [take_append_of_le_length]
  rw [hs.length]; exact Nat.mul_le_mul_right _ hs.order.1

variable [Programmed κ]

theorem OutputCalled.ask (h : OutputCalled m o p A D P) (hd : d.Serves d0 m (P ++ F)) :
    Yields requestIndex (p, d) fun _ s' =>
      Same p s'.1 ∧ ∃ P', OutputAsked m o s'.1 A D P' ∧ s'.2.Serves d0 m (P' ++ F) := by
  obtain ⟨N, N', ha, hword, hq, rfl⟩ := h
  refine (requestIndex_yields Accelerator.paces hq.index hword hd).mono ?_
  rintro - ⟨p1, d1⟩ ⟨e, rfl, hd1⟩
  obtain ⟨w, hw, hsize, -⟩ := hword
  exact ⟨⟨rfl, rfl, rfl⟩, _, ⟨N, N', e, ⟨ha.staged.congr rfl rfl rfl rfl, ha.head, ha.length, ha.order, ha.ring,
    ha.accepted⟩, ⟨w, hw, hsize⟩, hq.first, hq.second, rfl, rfl⟩, hd1⟩

theorem OutputAsked.book (h : OutputAsked m o p A D P) (hdone : ∀ a ∈ P, d0.events.status a.1 = .done)
    (hd : d.Serves d0 m (P ++ F)) :
    Yields (do
        let head ← takeIndex
        let produced ← acceptHead head
        return (produced, ← (← thePort).deviceFree) : Op (Accelerator (Recorded κ)) (Nat × Nat)) (p, d) fun _ s' =>
      Same p s'.1 ∧ ∃ P', OutputFetching m o s'.1 A D P' ∧ s'.2.Serves d0 m (P' ++ F) := by
  obtain ⟨N, N', e, ha, hword, hfirst, hsecond, hi, rfl⟩ := h
  have hord := ha.order
  have hDN := ha.staged.order.1
  obtain ⟨n, rfl⟩ : ∃ n, N' = N + n := ⟨N' - N, by omega⟩
  refine (bookHead_yields Accelerator.paces ha.staged ha.head ha.length hord.2 ha.ring hfirst hsecond hi
    (hdone _ mem_cons_self) hd).mono ?_
  rintro a ⟨p1, d1⟩ ⟨-, hsame, P, hf, hd1⟩
  refine ⟨hsame, P, ⟨N, n, hf, hf.geometry, hf.deviceHead, hf.deviceTail, hf.length,
    ⟨by omega, hf.order.2⟩, ?_, ha.accepted, ?_⟩, hd1⟩
  · obtain ⟨b, hb, hbsize, -⟩ := ha.ring
    rw [show p1.kernelArgs.data = p.data from hsame.data, show p1.kernelArgs.capacity =
      p1.spec.capacity from rfl, hsame.spec]
    exact ⟨b, hb, hbsize⟩
  · rw [show p1.kernelArgs.index = p.index from hsame.index]
    exact hword

theorem OutputFetching.land (h : OutputFetching m o p A D P) (hdone : ∀ a ∈ P, d0.events.status a.1 = .done)
    (hd : d.Serves d0 m (P ++ F)) :
    Yields retireTransfers (p, d) fun _ s' =>
      Same p s'.1 ∧ ∃ P', OutputIdle m o s'.1 A D P' ∧ s'.2.Serves d0 m (P' ++ F) := by
  obtain ⟨N, n, hf, hl⟩ := h
  refine (hf.land Accelerator.paces hdone hd).mono ?_
  rintro - ⟨p1, d1⟩ ⟨hsame, hs1, hhead1, hq1, hd1⟩
  refine ⟨hsame, [], ⟨N + n, hs1, ?_, hq1, rfl⟩, hd1⟩
  have hargs : p1.kernelArgs = p.kernelArgs := by
    rw [kernelArgs, kernelArgs, hsame.data, hsame.index, hsame.spec, hhead1, hs1.deviceTail, hsame.spec, hf.deviceHead,
      hf.deviceTail]
  rw [hargs, hsame.spec]
  exact hl

end Output

/-! ## Commands in flight -/

section Covers

variable {κ : Type} {m : Machine (Recorded κ)} {P : List Promise} {k : Nat} {p : BridgePort} {X A : Bytes} {D : Nat}

theorem InputIdle.covers (h : InputIdle m k p X P) : p.Covers P := by
  obtain ⟨_, _, _, _, hq, rfl⟩ := h
  exact hq.covers

theorem InputAsked.covers (h : InputAsked m k p X P) : p.Covers P := by
  obtain ⟨_, _, _, e, _, _, _, _, _, _, _, hi, hp, rfl⟩ := h
  exact hp.covers hi

theorem OutputIdle.covers (h : OutputIdle m k p A D P) : p.Covers P := by
  obtain ⟨_, _, _, hq, rfl⟩ := h
  exact hq.covers

theorem OutputAsked.covers (h : OutputAsked m k p A D P) : p.Covers P := by
  obtain ⟨_, _, e, _, _, hfirst, hsecond, hi, rfl⟩ := h
  simp [Covers, inFlight, transferEvents, hfirst, hsecond, hi]

theorem OutputFetching.covers (h : OutputFetching m k p A D P) : p.Covers P := by
  obtain ⟨_, _, hf, -⟩ := h
  exact hf.covers

/-- before the answer to a launch an output has nothing but its index in flight -/
theorem OutputAsked.inFlight_eq (h : OutputAsked m k p A D P) : p.inFlight = p.indexRead.toList := by
  obtain ⟨_, _, _, _, _, hfirst, hsecond, -⟩ := h
  simp [inFlight, transferEvents, hfirst, hsecond]

theorem OutputFetching.inFlight_eq (h : OutputFetching m k p A D P) : p.inFlight = p.transferEvents := by
  obtain ⟨_, _, hf, -⟩ := h
  simp [inFlight, hf.noIndex]

end Covers

/-! ## What other ports do -/

section Frame

variable {κ : Type} {m m' : Machine (Recorded κ)} {P : List Promise} {k tokenSize : Nat} {p : BridgePort} {X A : Bytes}
  {D : Nat}

/-- two machines do not differ in what concerns a port -/
structure Spares (p : BridgePort) (m m' : Machine (Recorded κ)) : Prop where
  data : m'.buffers[p.data]? = m.buffers[p.data]?
  index : m'.buffers[p.index]? = m.buffers[p.index]?
  kernel : m'.kernel = m.kernel

theorem Rewrites.spares {id : Nat} {b : Block} (h : Rewrites m m' id b) (hdata : p.data ≠ id) (hindex : p.index ≠ id) :
    p.Spares m m' := ⟨h.others _ hdata, h.others _ hindex, h.kernel⟩

theorem Spares.inputLoaded {T H : Nat} (h : p.Spares m m')
    (hl : m.InputLoaded k p.kernelArgs tokenSize X T H) : m'.InputLoaded k p.kernelArgs tokenSize X T H := by
  obtain ⟨hdata, hindex, hkernel⟩ := h
  exact { hl with
    storage := by obtain ⟨b, hb, h⟩ := hl.storage; exact ⟨b, hdata.trans hb, h⟩
    received := by rw [hkernel]; exact hl.received
    word := by obtain ⟨w, hw, h⟩ := hl.word; exact ⟨w, hindex.trans hw, h⟩ }

theorem Spares.outputLoaded {N : Nat} (h : p.Spares m m')
    (hl : m.OutputLoaded k p.kernelArgs tokenSize A D N) : m'.OutputLoaded k p.kernelArgs tokenSize A D N := by
  obtain ⟨hdata, hindex, hkernel⟩ := h
  exact { hl with
    storage := by obtain ⟨b, hb, h⟩ := hl.storage; exact ⟨b, hdata.trans hb, h⟩
    accepted := by rw [hkernel]; exact hl.accepted
    word := by obtain ⟨w, hw, h⟩ := hl.word; exact ⟨w, hindex.trans hw, h⟩ }

theorem InputIdle.frame (h : InputIdle m k p X P) (hm : p.Spares m m') : InputIdle m' k p X P := by
  obtain ⟨T, H, hs, hl, hq, hP⟩ := h
  exact ⟨T, H, hs, hm.inputLoaded hl, hq, hP⟩

theorem InputSent.frame (h : InputSent m k p X P) (hm : p.Spares m m') : InputSent m' k p X P := by
  obtain ⟨T, H, hs, hl, hi, hp⟩ := h
  exact ⟨T, H, hs, hm.inputLoaded hl, hi, hp⟩

theorem OutputIdle.frame (h : OutputIdle m k p A D P) (hm : p.Spares m m') : OutputIdle m' k p A D P := by
  obtain ⟨N, hs, hl, hq, hP⟩ := h
  exact ⟨N, hs, hm.outputLoaded hl, hq, hP⟩

end Frame

end BridgePort

end Dataflow
