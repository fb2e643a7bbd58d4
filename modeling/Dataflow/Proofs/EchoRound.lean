import Dataflow.Proofs.BridgeStep
import Dataflow.Proofs.EchoKernel

/-!
A bridge with one input and one output around the echo kernel, through a whole round, over a device that works when it
likes.

It has taken `H` tokens, the kernel has passed on `T` of them, and `D` have been handed on. It rests (`Rested`),
launches (`Launched`) and reads back (`Fetched`).
-/

namespace Dataflow

open List Step

namespace Step

variable {ε σ α : Type} {s : σ}

theorem ends_forM_one {f : Nat → Step ε σ PUnit} {Q : PUnit → σ → Prop} (h : Yields (f 0) s Q) :
    Yields ((range 1).forM f) s Q :=
  ends_bind (h.mono fun _ _ hq => ends_pure hq)

theorem ends_mapM_one {f : Nat → Step ε σ α} {Q : List α → σ → Prop} (h : Yields (f 0) s fun a s' => Q [a] s') :
    Yields ((range 1).mapM f) s Q := by
  exact ends_bind (h.mono fun _ _ hq => ends_bind (ends_pure (ends_pure hq)))

end Step

namespace Device.Paces

variable {δ κ : Type} [Device δ] [Kernel κ] {core : δ → Accelerator κ}

/-- while a device is only polled it keeps its promises, and what is promised does not fail -/
def watch (hcore : Paces core) (d0 : Accelerator κ) (m : Machine κ) (P : List Promise) : Watch δ where
  holds d := (core d).Serves d0 m P
  complete e d := e ∈ P.map Prod.fst → (core d).events.status e = .done
  poll {d} e h := by
    obtain ⟨d', hpoll, h'⟩ := hcore.poll_eq e h
    rw [hpoll]
    exact h'
  seen {d e} h hseen hmem := by
    obtain ⟨d', hpoll, h'⟩ := hcore.poll_eq e h
    rw [hpoll] at hseen ⊢
    obtain ⟨⟨e', v⟩, ha, rfl⟩ := mem_map.1 hmem
    rcases h'.owes.status ha with hs | hs
    · rw [hs] at hseen
      cases hseen
    · exact hs
  lasts {d e} e' h hcomplete hmem := by
    obtain ⟨d', hpoll, h'⟩ := hcore.poll_eq e' ⟨h.owes, .refl (core d)⟩
    rw [hpoll]
    exact h'.later.complete e (hcomplete hmem)

variable {hcore : Paces core} {d0 : Accelerator κ} {m : Machine κ} {P : List Promise} {e : EventId}

theorem watch_fails (h : (hcore.watch d0 m P).Fails e) : e ∉ P.map Prod.fst := by
  obtain ⟨d, hd, hfailed⟩ := h
  obtain ⟨d', hpoll, h'⟩ := hcore.poll_eq e hd
  rw [hpoll] at hfailed
  intro hmem
  obtain ⟨⟨e', v⟩, ha, rfl⟩ := mem_map.1 hmem
  rcases h'.owes.status ha with hs | hs
  · rw [hs] at hfailed
    cases hfailed
  · rw [hs] at hfailed
    cases hfailed

/-- a device that carries out commands at once is found to have done so -/
theorem watch_ready (hmode : d0.mode = .immediate) (he : e ∈ P.map Prod.fst) : (hcore.watch d0 m P).Ready e := by
  intro d hd
  obtain ⟨d', hpoll, h'⟩ := hcore.poll_eq e hd
  obtain ⟨a, ha, rfl⟩ := mem_map.1 he
  rw [hpoll, h'.owes.done_of_immediate (h'.later.mode.trans hmode) ha]
  rfl

end Device.Paces

namespace Bridge

open BridgePort

/-- the two ports of an echo bridge, for tokens of this size -/
structure Paired (tokenSize : Nat) (p q : BridgePort) : Prop where
  ports : EchoPorts p q
  size : p.spec.tokenSize = tokenSize
  inSlots : 2 ≤ p.spec.capacity
  outSlots : 2 ≤ q.spec.capacity

theorem Paired.outSize {tokenSize : Nat} {p q : BridgePort} (h : Paired tokenSize p q) : q.spec.tokenSize = tokenSize :=
  h.ports.size.trans h.size

theorem Paired.congr {tokenSize : Nat} {p p' q q' : BridgePort} (h : Paired tokenSize p q) (hp : Same p p')
    (hq : Same q q') : Paired tokenSize p' q' := by
  obtain ⟨⟨hsize, hin, hout, hword⟩, hts, hslots, hslots'⟩ := h
  refine ⟨⟨?_, ?_, ?_, ?_⟩, ?_, ?_, ?_⟩ <;>
    simp only [hp.spec, hp.data, hp.index, hq.spec, hq.data, hq.index] <;> assumption

section States

variable (perCall tokenSize : Nat)

/-- nothing is in flight; the rings hold what has been taken and not yet handed on -/
structure Rested (X : Bytes) (T H D : Nat) (m : Machine StockKernel) (p q : BridgePort) : Prop where
  paired : Paired tokenSize p q
  input : p.Staged X T H
  inHead : p.device.head = H % p.spec.capacity
  inQuiet : p.Quiet
  output : q.Staged (X.take (T * tokenSize)) D T
  outHead : q.device.head = T % q.spec.capacity
  outQuiet : q.Quiet
  echoes : ∃ lo, m.Echoes perCall p q X T lo

/-- launch `e` passes on `n` tokens, and both indices have been asked for -/
structure Launched (X : Bytes) (T H D n : Nat) (e : EventId) (m : Machine StockKernel) (P : List Promise)
    (p q : BridgePort) : Prop where
  paired : Paired tokenSize p q
  input : p.Staged X T H
  output : q.Staged (X.take (T * tokenSize)) D T
  outHead : q.device.head = T % q.spec.capacity
  outFirst : q.firstTransfer = none
  outSecond : q.secondTransfer = none
  room : T - D < q.spec.capacity - 1
  count : n = echoed perCall (H - T) (q.spec.capacity - 1 - (T - D))
  echoes : m.Echoes perCall p q X (T + n) T
  answers : ∃ e1 e2 P', p.indexRead = some e1 ∧ q.indexRead = some e2 ∧ p.Pushing P' ∧
    P = (e2, some (Bytes.ofNat 4 ((T + n) % q.spec.capacity))) ::
    (e1, some (Bytes.ofNat 4 ((T + n) % p.spec.capacity))) :: (e, none) :: P'

/-- the launch is booked, and the tokens from number `N` up to `T` are being read back -/
structure Fetched (X : Bytes) (N T H D : Nat) (m : Machine StockKernel) (P : List Promise)
    (p q : BridgePort) : Prop where
  paired : Paired tokenSize p q
  input : p.Staged X T H
  inHead : p.device.head = H % p.spec.capacity
  inQuiet : p.Quiet
  fetching : ∃ n, T = N + n ∧ q.Fetching (X.take (T * tokenSize)) D N n P
  echoes : m.Echoes perCall p q X T N

/-- where the bridge is in its round; `m` is the machine after all commands, and the promises are the answers to come -/
inductive Stage {δ : Type} (b : Bridge δ) (X : Bytes) (T H D : Nat) (m : Machine StockKernel) (p q : BridgePort) :
    List Promise → Prop
  | init (phase : b.phase = .init) (kernel : b.kernel = none) (stalled : b.stalled = true → T = H)
      (rested : Rested perCall tokenSize X T H D m p q) : Stage b X T H D m p q []
  | pollKernel {e : EventId} {n : Nat} {P : List Promise} (phase : b.phase = .pollKernel) (kernel : b.kernel = some e)
      (launched : Launched perCall tokenSize X T H D n e m P p q) : Stage b X T H D m p q P
  | pollRead {N : Nat} {P : List Promise} (phase : b.phase = .pollRead) (kernel : b.kernel = none)
      (stalled : b.stalled = true → T = H) (fetched : Fetched perCall tokenSize X N T H D m P p q) :
      Stage b X T H D m p q P

/-- a bridge with one input and one output around the echo kernel: it has taken the bytes `X`, which are `H` tokens, the
kernel has passed on `T` of them and `D` have been handed on -/
def Echoing {δ : Type} (core : δ → Accelerator StockKernel) (b : Bridge δ) (X : Bytes) (T H D : Nat) : Prop :=
  b.failed = false ∧ ∃ p q m P, b.inputs = [p] ∧ b.outputs = [q] ∧ (core b.device).Owes m P ∧
    Stage perCall tokenSize b X T H D m p q P

end States

section Facts

variable {perCall tokenSize : Nat} {δ : Type} {b : Bridge δ} {X : Bytes} {T H D n : Nat} {e : EventId}
  {m : Machine StockKernel} {P : List Promise} {p q : BridgePort}

/-- every command in flight is among those whose answers are to come -/
theorem Stage.inFlight (h : Stage perCall tokenSize b X T H D m p q P) :
    (∀ e, b.kernel = some e → e ∈ P.map Prod.fst) ∧ ∀ p' ∈ [p, q], ∀ e ∈ p'.inFlight, e ∈ P.map Prod.fst := by
  cases h with
  | init _ hk _ hr =>
    refine ⟨by simp [hk], fun p' hp' e he => ?_⟩
    rcases mem_pair.1 hp' with rfl | rfl
    · exact (hr.inQuiet.covers e).1 he
    · exact (hr.outQuiet.covers e).1 he
  | @pollKernel e0 n P _ hk hl =>
    obtain ⟨e1, e2, P', hi1, hi2, hpush, rfl⟩ := hl.answers
    refine ⟨fun e he => ?_, fun p' hp' e he => ?_⟩
    · obtain rfl : e0 = e := Option.some.inj (hk.symm.trans he)
      simp
    · rcases mem_pair.1 hp' with rfl | rfl
      · have hmem := (hpush.covers (v := none) hi1 e).1 he
        simp only [map_cons, mem_cons] at hmem ⊢
        tauto
      · obtain rfl : e = e2 := by
          simpa [BridgePort.inFlight, transferEvents, hl.outFirst, hl.outSecond, hi2] using he
        simp
  | pollRead _ hk _ hf =>
    refine ⟨by simp [hk], fun p' hp' e he => ?_⟩
    rcases mem_pair.1 hp' with rfl | rfl
    · have hnone := (hf.inQuiet.covers e).1 he
      simp at hnone
    · obtain ⟨n, -, hfetch⟩ := hf.fetching
      exact (hfetch.covers e).1 he

/-- the device may get on meanwhile -/
theorem Stage.withDevice (h : Stage perCall tokenSize b X T H D m p q P) (d : δ) :
    Stage perCall tokenSize { b with device := d } X T H D m p q P := by
  cases h with
  | init phase kernel stalled rested => exact .init phase kernel stalled rested
  | pollKernel phase kernel launched => exact .pollKernel phase kernel launched
  | pollRead phase kernel stalled fetched => exact .pollRead phase kernel stalled fetched

theorem Echoing.rested {core : δ → Accelerator StockKernel} (h : Echoing perCall tokenSize core b X T H D)
    (hphase : b.phase = .init) :
    ∃ p q m, b.inputs = [p] ∧ b.outputs = [q] ∧ b.kernel = none ∧ (b.stalled = true → T = H) ∧
      (core b.device).Owes m [] ∧
      Rested perCall tokenSize X T H D m p q := by
  obtain ⟨-, p, q, m, P, hin, hout, hd, hstage⟩ := h
  cases hstage with
  | init _ hk hstalled hr => exact ⟨p, q, m, hin, hout, hk, hstalled, hd, hr⟩
  | pollKernel hphase' | pollRead hphase' => cases hphase.symm.trans hphase'

end Facts

def put {δ : Type} (b : Bridge δ) (p q : BridgePort) (d : δ) :
    Bridge δ := { b with device := d, inputs := [p], outputs := [q] }

theorem put_self {δ : Type} {b : Bridge δ} {p q : BridgePort} (hin : b.inputs = [p]) (hout : b.outputs = [q]) :
    b.put p q b.device = b := by
  rw [put, ← hin, ← hout]

/-! ## The two connections -/

/-- what is known of the two connections of a bridge while its ports are open, and all connections as they were
before -/
structure Cabling extends Neighbours where
  inWire : Nat
  outWire : Nat
  apart : inWire ≠ outWire
  wires : List Connection

/-- over the open ports, the bridge has taken the bytes `X` from its input -/
def Cabling.Taken (N : Cabling) (tokenSize : Nat) (ports : Ports) (X : Bytes) : Prop :=
  ∃ e r c v l, ports.Draws 0 e r N.inWire c v l ∧ c.tokenSize = tokenSize ∧
    X = l.stream.take ((r + v.moved) * tokenSize) ∧
    N.source 0 e r c l

/-- over the open ports, the bridge has handed on the bytes `Y`; it writes to no other connection -/
def Cabling.Handed (N : Cabling) (tokenSize : Nat) (ports : Ports) (Y : Bytes) : Prop :=
  (∃ e c v l, ports.Fills 0 e N.outWire c v l ∧ c.tokenSize = tokenSize ∧ l.stream = Y ∧ N.sink 0 e c l) ∧
    ∀ w, w ≠ N.outWire → ports.wires[w]? = N.wires[w]?

section Steps

variable {δ : Type} [Device δ] {core : δ → Accelerator StockKernel} {perCall tokenSize : Nat} {N : Cabling}
  {b : Bridge δ} {ports : Ports} {p q : BridgePort} {d : δ} {m : Machine StockKernel} {P : List Promise} {X A Y : Bytes}
  {T H D M n : Nat} {e : EventId}

/-! ## Handing on -/

omit [Device δ] in
/-- as many staged tokens as there is room for are handed on -/
theorem hand_yields (hs : q.Staged A D M) (hsize : q.spec.tokenSize = tokenSize) (ht : N.Taken tokenSize ports X)
    (hh : N.Handed tokenSize ports (A.take (D * tokenSize))) :
    Yields freeUpOutputs (b.put p q d, ports) fun _ s' => ∃ taken stalled ports',
      (∀ room, ports.availableOut 0 = .ok room → taken = min (M - D) room) ∧
        s' = (({ b with stalled } : Bridge δ).put p (q.handedOn D taken) d, ports') ∧
        (stalled = true → b.stalled = true) ∧
        (q.handedOn D taken).Staged A (D + taken) M ∧ N.Taken tokenSize ports' X ∧
        N.Handed tokenSize ports' (A.take ((D + taken) * tokenSize)) := by
  obtain ⟨⟨e, c, v, l, hfills, hts, hstream, hsink⟩, hothers⟩ := hh
  obtain ⟨e', r, c', v', l', hdraws, hrest⟩ := ht
  refine ends_theBridge (ends_forM_one ?_)
  refine (freeUp_spec rfl hs hfills (hts.trans hsize.symm)).mono ?_
  rintro - _ ⟨taken, bytes, stalled, storage, v'', htaken, rfl, hstalled, htake, hs', hfills'⟩
  rw [hsize] at htake
  refine ⟨taken, stalled, _, fun room hroom => ?_, rfl, hstalled, hs',
    ⟨e', r, c', v', l', ⟨hdraws.port, ?_, hdraws.tracks, hdraws.reads⟩, hrest⟩,
    ⟨e, _, v'', _, hfills', hts, ?_, N.sink_write hfills.tracks hsink⟩, fun w hw => ?_⟩
  · cases hfills.availableOut.symm.trans hroom
    exact htaken
  · rw [getElem?_set_ne N.apart.symm]
    exact hdraws.wire
  · rw [htake, ← hstream]
    rfl
  · rw [getElem?_set_ne hw.symm]
    exact hothers w hw

/-- a rest between two rounds, with more of its output handed on -/
theorem Rested.handedOn {taken : Nat} (h : Rested perCall tokenSize X T H D m p q)
    (hs : (q.handedOn D taken).Staged (X.take (T * tokenSize)) (D + taken) T) :
    Rested perCall tokenSize X T H (D + taken) m p (q.handedOn D taken) := by
  have hsame : Same q (q.handedOn D taken) := ⟨rfl, rfl, rfl⟩
  obtain ⟨lo, hecho⟩ := h.echoes
  exact ⟨h.paired.congr ⟨rfl, rfl, rfl⟩ hsame, h.input, h.inHead, h.inQuiet, hs, h.outHead,
    ⟨h.outQuiet.first, h.outQuiet.second, h.outQuiet.index⟩, lo, hecho.congr ⟨rfl, rfl, rfl⟩ hsame⟩

/-- what has been handed on of the part that is passed on -/
theorem take_handed {D' : Nat} (hD : D' ≤ T) :
    (X.take (T * tokenSize)).take (D' * tokenSize) = X.take (D' * tokenSize) := by
  rw [take_take, min_eq_left (Nat.mul_le_mul_right _ hD)]

/-! ## Launching -/

section

variable (hcore : Device.Paces core)

include hcore

/-- new input is sent, the kernel is launched and its indices are asked for -/
theorem Rested.startKernel_yields (h : Rested perCall tokenSize X T H D m p q) (hroom : T - D < q.spec.capacity - 1)
    (hd : (core d).Owes m []) (ht : N.Taken tokenSize ports X) (hh : N.Handed tokenSize ports Y) :
    Yields startKernel (b.put p q d, ports) fun _ s' => ∃ b' more n0 n e m' P p' q' d' ports',
      (∀ level, ports.availableIn 0 = .ok level → n0 = min level (p.spec.capacity - 1 - (H - T))) ∧
        s' = (put b' p' q' d', ports') ∧ b'.kernel = some e ∧ b'.failed = b.failed ∧ b'.shouldRetry = false ∧
        Launched perCall tokenSize (X ++ more) T (H + n0) D n e m' P p' q' ∧ (core d').Serves (core d) m' P ∧
        N.Taken tokenSize ports' (X ++ more) ∧ N.Handed tokenSize ports' Y := by
  obtain ⟨e, r, c, v, l, hdraws, hts, hX, hsource⟩ := ht
  obtain ⟨⟨e', c', v', l', hfills, hrest⟩, hothers⟩ := hh
  obtain ⟨lo, hecho⟩ := h.echoes
  have hd0 : (core d).Serves (core d) m [] := ⟨hd, .refl _⟩
  refine ends_bind (ends_modify ?_)
  refine ends_theBridge (ends_bind (ends_forM_one ?_))
  refine (sendInput_spec hcore rfl h.input hecho.input h.inQuiet
    hdraws (hts.trans h.paired.size.symm) hd0).mono ?_
  rintro - _ ⟨n0, more, p1, d1, v1, hn0, rfl, hmore, hmoved, hdraws1, hsame, hs1, hhead1, hi1,
    m1, P, blk, hpush, hd1, hre, hring⟩
  -- the launch sees everything that was sent
  have hpaired : Paired tokenSize p1 q := h.paired.congr hsame ⟨rfl, rfl, rfl⟩
  have hout : q.Staged ((X ++ more).take (T * tokenSize)) D T := by
    rw [take_append_of_le_length]
    · exact h.output
    · rw [h.input.length, h.paired.size]
      exact Nat.mul_le_mul_right _ h.input.order.1
  have hecho1 : m1.Echoes perCall p1 q (X ++ more) T lo :=
    (hecho.push h.paired.ports h.input hre hring).congr hsame ⟨rfl, rfl, rfl⟩
  obtain ⟨n, hn⟩ : ∃ n, n = echoed perCall (H + n0 - T) (q.spec.capacity - 1 - (T - D)) := ⟨_, rfl⟩
  obtain ⟨m2, hperform, hecho2, hword, hword'⟩ := hecho1.launch hpaired.ports hs1 (by rw [hhead1, hsame.spec])
    (by rw [hpaired.outSize]; exact hout) h.outHead hn
  refine ends_theBridge (ends_bind ?_)
  refine ends_zoom ((hcore.submit_yields hd1 hperform).mono fun launch d2 hd2 => ?_)
  refine ends_bind (ends_forM_one (ends_onInput rfl ((requestIndex_yields hcore hi1 hword hd2).mono ?_)))
  rintro - ⟨p2, d3⟩ ⟨e1, hp2, hd3⟩
  obtain rfl : p2 = { p1 with indexRead := some e1 } := hp2
  refine ends_bind (ends_forM_one (ends_onOutput rfl
    ((requestIndex_yields hcore h.outQuiet.index hword' hd3).mono ?_)))
  rintro - ⟨q2, d4⟩ ⟨e2, hq2, hd4⟩
  obtain rfl : q2 = { q with indexRead := some e2 } := hq2
  rw [append_nil] at hd4
  have hlaunched : Launched perCall tokenSize (X ++ more) T (H + n0) D n launch m2 _ { p1 with indexRead := some e1 }
      { q with indexRead := some e2 } :=
    ⟨hpaired.congr ⟨rfl, rfl, rfl⟩ ⟨rfl, rfl, rfl⟩, hs1.congr rfl rfl rfl rfl, hout.congr rfl rfl rfl rfl, h.outHead,
      h.outQuiet.first, h.outQuiet.second, hroom, hn, hecho2.congr ⟨rfl, rfl, rfl⟩ ⟨rfl, rfl, rfl⟩, e1,
      e2, P, rfl, rfl, hpush, rfl⟩
  have htaken : X ++ more = l.stream.take ((r + v1.moved) * tokenSize) := by
    rw [hmoved, ← Nat.add_assoc, Nat.add_mul (r + v.moved), take_add, ← hX, hmore, hts]
  let b' : Bridge δ :=
    { b with
      shouldRetry := false
      kernel := some launch
      callIndex := b.callIndex + 1
      profile := { b.profile with kernelCalls := b.callIndex + 1 } }
  refine ends_modify ⟨b', more, n0, n, launch, m2, _, _, _, d4, _, fun level hlevel => ?_, rfl,
    rfl, rfl, rfl, hlaunched, hd4, ⟨e, r, c, v1, l, hdraws1, hts, htaken, hsource⟩,
    ⟨e', c', v', l', { hfills with }, hrest⟩, hothers⟩
  cases hdraws.availableIn.symm.trans hlevel
  exact hn0

/-! ## Looking -/

/-- no command in flight has failed -/
theorem guard_yields (hd : (core b.device).Owes m P) (hkernel : ∀ e, b.kernel = some e → e ∈ P.map Prod.fst)
    (hports : ∀ p ∈ b.inputs ++ b.outputs, ∀ e ∈ p.inFlight, e ∈ P.map Prod.fst) :
    Yields guardFailures (b, ports) fun _ s' => ∃ d', s' = ({ b with device := d' }, ports) ∧
      (core d').Serves (core b.device) m P := by
  refine (guards_guardFailures (W := hcore.watch (core b.device) m P) ⟨hd, .refl _⟩).imp ?_ ?_
  · rintro - _ ⟨⟨d', rfl, hleads⟩, -⟩
    exact ⟨d', rfl, hleads.holds⟩
  · rintro _ _ ⟨-, -, e, he, hfails⟩
    rcases mem_inFlight.1 he with he | ⟨p, hp, he⟩
    · exact Device.Paces.watch_fails hfails (hkernel e he)
    · exact Device.Paces.watch_fails hfails (hports p hp e he)

/-- a question whether all promised commands are complete is answered with yes when they are done, and with no only
where they are not carried out at once -/
def Answered (core : δ → Accelerator StockKernel) (b : Bridge δ) (ports : Ports) (p q : BridgePort) (d : δ)
    (m : Machine StockKernel) (P : List Promise) (a : Bool) (s' : Bridge δ × Ports) : Prop :=
  (∃ d', s' = (b.put p q d', ports) ∧ (core d').Serves (core d) m P ∧
      (a = true → ∀ a ∈ P, (core d').events.status a.1 = .done)) ∧ (a = false → (core d).mode ≠ .immediate)

theorem answered_of_settles {d' : δ} {es : List EventId} {a : Bool} (hevents : ∀ e, e ∈ es ↔ e ∈ P.map Prod.fst)
    (hholds : (hcore.watch (core d) m P).holds d') (ha : (hcore.watch (core d) m P).Settles es a d') :
    Answered core b ports p q d m P a (b.put p q d', ports) := by
  refine ⟨⟨d', rfl, hholds, fun hat x hx => ?_⟩, fun hno hmode => ?_⟩
  · have hmem : x.1 ∈ P.map Prod.fst := mem_map_of_mem hx
    exact ha.complete hat x.1 ((hevents x.1).2 hmem) hmem
  · have hyes := ha.prompt fun e he => Device.Paces.watch_ready hmode ((hevents e).1 he)
    exact Bool.false_ne_true (hno.symm.trans hyes)

/-- a launch that is found finished is over, with all transfers and both indices -/
theorem Launched.kernelFinished_yields (h : Launched perCall tokenSize X T H D n e m P p q)
    (hk : b.kernel = some e) (hd : (core d).Owes m P) :
    Yields kernelFinished (b.put p q d, ports) (Answered core b ports p q d m P) := by
  refine (looks_kernelFinished (b := b.put p q d) (W := hcore.watch (core d) m P) ⟨hd, .refl _⟩).mono ?_
  rintro a _ ⟨d', rfl, hleads, ha⟩
  refine answered_of_settles hcore (fun e' => ?_) hleads.holds (ha e hk)
  obtain ⟨e1, e2, P', hi1, hi2, hpush, rfl⟩ := h.answers
  have hin := hpush.covers (v := none) hi1 e'
  simp only [awaited, put, flatMap_cons, flatMap_nil, append_nil, mem_cons, mem_append, hin,
    hi2, Option.toList_some, map_cons]
  tauto

theorem Fetched.readsFinished_yields (h : Fetched perCall tokenSize X M T H D m P p q) (hd : (core d).Owes m P) :
    Yields readsFinished (b.put p q d, ports) (Answered core b ports p q d m P) := by
  refine (looks_readsFinished (b := b.put p q d) (W := hcore.watch (core d) m P) ⟨hd, .refl _⟩).mono ?_
  rintro a _ ⟨d', rfl, hleads, ha⟩
  refine answered_of_settles hcore (fun e => ?_) hleads.holds ha
  obtain ⟨n, -, hfetch⟩ := h.fetching
  simpa [put, BridgePort.inFlight, hfetch.noIndex] using hfetch.covers e

end

/-! ## Booking -/

/-- a launch that had room and passed on nothing has found no input -/
theorem Launched.idle (h : Launched perCall tokenSize X T H D n e m P p q) (hk : 1 ≤ perCall)
    (hn : n = 0) : T + n = H := by
  have hord := h.input.order
  have hroom := h.room
  have hcount := h.count
  unfold echoed at hcount
  omega

theorem Launched.bounds (h : Launched perCall tokenSize X T H D n e m P p q) :
    T + n ≤ H ∧ T + n < D + q.spec.capacity := by
  have hord := h.input.order
  have hord' := h.output.order
  have hcount := h.count
  unfold echoed at hcount
  omega

/-- what the kernel wrote to an output is booked, and the new tokens are asked for -/
theorem bookOutput_spec {o : Nat} {d0 : Accelerator StockKernel} {F : List Promise} (hcore : Device.Paces core)
    (hp : b.outputs[o]? = some q) (hs : q.Staged (A.take (M * q.spec.tokenSize)) D M)
    (hhead : q.device.head = M % q.spec.capacity) (hlen : A.length = (M + n) * q.spec.tokenSize)
    (hlap : M + n < D + q.spec.capacity)
    (hring : HoldsRing m.buffers q.data q.spec.capacity q.spec.tokenSize A M) (hfirst : q.firstTransfer = none)
    (hsecond : q.secondTransfer = none) (hi : q.indexRead = some e) (he : d0.events.status e = .done)
    (hd : (core b.device).Serves d0 m ((e, some (Bytes.ofNat 4 ((M + n) % q.spec.capacity))) :: F)) :
    Yields (bookOutput o) (b, ports) fun produced s' => produced = n ∧ ∃ shouldRetry q' d',
      (shouldRetry = true → b.shouldRetry = true ∨ q.spec.capacity - 1 - (M + n - D) = 0) ∧
      s' = ({ b with device := d', outputs := b.outputs.set o q', shouldRetry }, ports) ∧ Same q q' ∧
        ∃ P, q'.Fetching A D M n P ∧ (core d').Serves d0 m (P ++ F) := by
  refine ends_bind (ends_onOutput hp
    ((bookHead_yields hcore hs hhead hlen hlap hring hfirst hsecond hi he hd).mono ?_))
  rintro ⟨produced, free⟩ ⟨q', d'⟩ ⟨hanswer, hsame, hfetch⟩
  obtain ⟨hproduced, hfreeEq⟩ := Prod.mk.inj hanswer
  by_cases hfree : free = 0
  · simp only [hfree, if_true]
    exact ends_bind (ends_modify (ends_pure
      ⟨hproduced, true, q', d', fun _ => .inr (hfreeEq.symm.trans hfree), rfl, hsame, hfetch⟩))
  · simp only [hfree, if_false]
    exact ends_pure ⟨hproduced, b.shouldRetry, q', d', .inl, rfl, hsame, hfetch⟩

/-- what the launch did is booked, and its output is asked for -/
theorem Launched.updateIndices_yields (hcore : Device.Paces core) (hk : 1 ≤ perCall)
    (h : Launched perCall tokenSize X T H D n e m P p q) (hd : (core d).Owes m P)
    (hdone : ∀ a ∈ P, (core d).events.status a.1 = .done) :
    Yields updateIndices (b.put p q d, ports) fun _ s' => ∃ b' P' p' q' d',
      s' = (put b' p' q' d', ports) ∧ b'.kernel = none ∧ b'.failed = b.failed ∧ (b'.stalled = true → T + n = H) ∧
        (b'.shouldRetry = true → b.shouldRetry = true ∨ n ≠ 0) ∧
        Fetched perCall tokenSize X T (T + n) H D m P' p' q' ∧ (core d').Serves (core d) m P' := by
  obtain ⟨hTH, hlap⟩ := h.bounds
  obtain ⟨e1, e2, P', hi1, hi2, hpush, rfl⟩ := h.answers
  obtain ⟨hdone2, hdone1, hdone0, hdone'⟩ : (core d).events.status e2 = .done ∧ (core d).events.status e1 = .done ∧
      (core d).events.status e = .done ∧ ∀ a ∈ P', (core d).events.status a.1 = .done := by
    simpa only [forall_mem_cons] using hdone
  -- the launch itself has no answer to take, and the answer to the output can wait
  have hserves : (core d).Serves (core d) m ((e1, some (Bytes.ofNat 4 ((T + n) % p.spec.capacity))) ::
      (P' ++ [(e2, some (Bytes.ofNat 4 ((T + n) % q.spec.capacity)))])) := by
    generalize some (Bytes.ofNat 4 ((T + n) % p.spec.capacity)) = v1 at hd ⊢
    generalize some (Bytes.ofNat 4 ((T + n) % q.spec.capacity)) = v2 at hd ⊢
    have hperm : ((e2, v2) :: (e1, v1) :: (e, none) :: P').Perm ((e, none) :: (e2, v2) :: (e1, v1) :: P') :=
      ((Perm.swap (e, none) (e1, v1) P').cons (e2, v2)).trans (Perm.swap (e, none) (e2, v2) _)
    exact (Accelerator.Serves.forget ⟨hd.perm hperm, .refl _⟩ hdone0).perm
      (perm_append_singleton (e2, v2) ((e1, v1) :: P')).symm
  refine ends_theBridge (ends_bind (ends_mapM_one ?_))
  refine ends_onInput rfl
    ((bookTail_yields hcore h.input (Nat.le_add_right T n) hTH hi1 hpush hdone1 hdone' hserves).mono ?_)
  rintro consumed ⟨p1, d1⟩ ⟨hconsumed, hsame, hs1, hhead1, hq1, hd1⟩
  have htake : (X.take ((T + n) * q.spec.tokenSize)).take (T * q.spec.tokenSize) = X.take (T * q.spec.tokenSize) :=
    take_handed (Nat.le_add_right T n)
  have hout : q.Staged ((X.take ((T + n) * q.spec.tokenSize)).take (T * q.spec.tokenSize)) D T := by
    rw [htake, h.paired.outSize]
    exact h.output
  have hlen : (X.take ((T + n) * q.spec.tokenSize)).length = (T + n) * q.spec.tokenSize := by
    rw [length_take, h.input.length, h.paired.ports.size]
    exact min_eq_left (Nat.mul_le_mul_right _ hTH)
  refine ends_bind (ends_mapM_one ((bookOutput_spec hcore rfl hout h.outHead hlen hlap h.echoes.output h.outFirst
    h.outSecond hi2 hdone2 hd1).mono ?_))
  rintro produced _ ⟨rfl, shouldRetry, q1, d2, hretry, rfl, hsame', P2, hfetch, hd2⟩
  rw [append_nil] at hd2
  rw [h.paired.outSize] at hfetch
  have hfetched : Fetched perCall tokenSize X T (T + produced) H D m P2 p1 q1 :=
    ⟨h.paired.congr hsame hsame', hs1, hhead1.trans (by rw [hsame.spec]), hq1, ⟨produced, rfl, hfetch⟩,
      h.echoes.congr hsame hsame'⟩
  have hidle : CallRecord.isIdle ⟨b.callIndex, [consumed], [produced]⟩ = true → T + produced = H := by
    intro hrecord
    simp only [CallRecord.isIdle, all_cons, all_nil, Bool.and_true, Bool.and_eq_true, beq_iff_eq] at hrecord
    exact h.idle hk hrecord.2
  let record : CallRecord := ⟨b.callIndex, [consumed], [produced]⟩
  let b' : Bridge δ :=
    { b with
      shouldRetry
      kernel := none
      stalled := record.isIdle
      profile := b.profile.finish [p1] [q1] record }
  -- a launch has room, so the device is not full unless something was passed on
  have hmoved : shouldRetry = true → b.shouldRetry = true ∨ produced ≠ 0 := fun h' =>
    (hretry h').imp_right fun hfull => by have := h.room; omega
  exact ends_modify ⟨b', P2, p1, q1, d2, rfl, rfl, rfl, hidle, hmoved, hfetched, hd2⟩

/-! ## Collecting -/

theorem Fetched.collect_yields (hcore : Device.Paces core) (h : Fetched perCall tokenSize X M T H D m P p q)
    (hd : (core d).Owes m P) (hdone : ∀ a ∈ P, (core d).events.status a.1 = .done) (ht : N.Taken tokenSize ports Y)
    (hh : N.Handed tokenSize ports (X.take (D * tokenSize))) :
    Yields collect (b.put p q d, ports) fun _ s' => ∃ D' stalled q' d' ports',
      s' = (({ b with stalled } : Bridge δ).put p q' d', ports') ∧ (stalled = true → b.stalled = true) ∧ D ≤ D' ∧
        Rested perCall tokenSize X T H D' m p q' ∧ (core d').Serves (core d) m [] ∧ N.Taken tokenSize ports' Y ∧
        N.Handed tokenSize ports' (X.take (D' * tokenSize)) := by
  obtain ⟨n, rfl, hfetch⟩ := h.fetching
  have hserves : (core d).Serves (core d) m (P ++ []) := by
    rw [append_nil]
    exact ⟨hd, .refl _⟩
  refine ends_theBridge (ends_bind (ends_forM_one ?_))
  refine ends_onOutput rfl ((hfetch.land hcore hdone hserves).mono ?_)
  rintro - ⟨q1, d1⟩ ⟨hsame, hs1, hhead1, hq1, hd1⟩
  have hpaired : Paired tokenSize p q1 := h.paired.congr ⟨rfl, rfl, rfl⟩ hsame
  have hrested : Rested perCall tokenSize X (M + n) H D m p q1 :=
    ⟨hpaired, h.input, h.inHead, h.inQuiet, hs1, hhead1.trans (by rw [hsame.spec]), hq1, M,
      h.echoes.congr ⟨rfl, rfl, rfl⟩ hsame⟩
  rw [← take_handed hs1.order.1] at hh
  refine (hand_yields hs1 hpaired.outSize ht hh).mono ?_
  rintro - _ ⟨taken, stalled, ports', -, rfl, hstalled, hs2, ht2, hh2⟩
  rw [take_handed hs2.order.1] at hh2
  exact ⟨D + taken, stalled, _, d1, ports', rfl, hstalled, Nat.le_add_right D taken,
    hrested.handedOn hs2, hd1, ht2, hh2⟩

end Steps

end Bridge

end Dataflow
