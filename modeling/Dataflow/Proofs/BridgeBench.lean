import Dataflow.Network.Bench
import Dataflow.Proofs.BridgeStep

/-!
A bridge on the bench.

A `Trial` feeds, calls and drains a bridge and lets its device work, in any order, and notes what went in and out.
`Trial.Holds` says where the bytes are; no operation fails while it holds, and every operation keeps it
(`Trial.Holds.run`).
-/

namespace Dataflow

open List

/-! ## The connections of a bench -/

namespace Bench

variable {σ : Type} {b : Bench σ} {fed drained : List Bytes} {nin i j k o tokenSize q : Nat} {e g : InputEnd}
  {f : OutputEnd} {c c' : Connection} {l : Ledger} {ports : Ports} {actor : σ} {α : Type}

/-- the connection of input `j` between two operations: `q` tokens of what was fed have been taken -/
structure Inlet (b : Bench σ) (fed : List Bytes) (j tokenSize : Nat) (e : InputEnd) (f : OutputEnd) (q : Nat)
    (c : Connection) (l : Ledger) : Prop where
  reader : b.inst.inputs[j]? = some ⟨j, e⟩
  feeder : b.feeders[j]? = some f
  wire : b.wires[j]? = some c
  size : c.tokenSize = tokenSize
  tracks : c.Tracks l
  reads : e.Rests q c.capacity l
  feeds : f.Rests c.capacity l
  fed : fed[j]? = some l.stream

/-- the connection of output `o` between two operations: `q` tokens of what was handed on have been drained -/
structure Outlet (b : Bench σ) (drained : List Bytes) (nin o tokenSize : Nat) (f : OutputEnd) (g : InputEnd) (q : Nat)
    (c : Connection) (l : Ledger) : Prop where
  writer : b.inst.outputs[o]? = some ⟨nin + o, f⟩
  drain : b.drains[o]? = some g
  wire : b.wires[nin + o]? = some c
  size : c.tokenSize = tokenSize
  tracks : c.Tracks l
  writes : f.Rests c.capacity l
  drains : g.Rests q c.capacity l
  drained : drained[o]? = some (l.stream.take (q * tokenSize))

/-- a reader's window starts inside the stream -/
theorem stream_take_append (ht : c.Tracks l) (hq : q ∈ l.released) (bytes : Bytes) :
    (l.stream ++ bytes).take (q * c.tokenSize) = l.stream.take (q * c.tokenSize) := by
  rw [take_append_of_le_length]
  rw [ht.length]
  exact Nat.mul_le_mul_right _ (le_trans (ht.released_le q hq) ht.published_le)

/-! ### Feeding and draining -/

/-- the bench after input `i` was fed -/
def putFeed (b : Bench σ) (i : Nat) (c : Connection) (f : OutputEnd) : Bench σ :=
  { b with wires := b.wires.set i c, feeders := b.feeders.set i f }

/-- the bench after output `o` was drained -/
def putDrain (b : Bench σ) (nin o : Nat) (c : Connection) (g : InputEnd) : Bench σ :=
  { b with wires := b.wires.set (nin + o) c, drains := b.drains.set o g }

/-- what fits of the bytes fed is written and published -/
theorem Inlet.feed (h : b.Inlet fed i tokenSize e f q c l) (bytes : Bytes) :
    ∃ c' f' n, b.feed i bytes = .ok (n, b.putFeed i c' f') ∧
      (b.putFeed i c' f').Inlet (fed.modify i (· ++ bytes.take (n * c.tokenSize))) i tokenSize e f' q c'
        (l.write n (bytes.take (n * c.tokenSize))).publish := by
  have hopen := h.tracks.openOutput_eq h.feeds
  have hw := h.tracks.writes_of_rests h.feeds
  generalize hroom : c.capacity - l.backlog = room at hopen hw
  set n := min room (bytes.length / c.tokenSize) with hndef
  have hn : n ≤ room := min_le_left _ _
  have hlen : (bytes.take (n * c.tokenSize)).length = n * c.tokenSize := by
    rw [length_take, min_eq_left]
    exact le_trans (Nat.mul_le_mul_right _ (min_le_right _ _)) (Nat.div_mul_le_self _ _)
  obtain ⟨storage, cursor, hwrite, ht, hw⟩ :=
    h.tracks.writeBytes_ok hw (hlen ▸ Ports.tokensIn_mul h.tracks (by omega)) hn
  rw [take_of_length_le hlen.le] at ht hw
  have hclose := Connection.closeOutput_eq ht hw
  refine ⟨{ c with storage, produced := UInt32.ofNat (l.written + n) },
    ⟨cursor, UInt32.ofNat (l.written + n)⟩, n, ?_, h.reader,
    getElem?_set_self (lt_of_getElem? h.feeder), getElem?_set_self (lt_of_getElem? h.wire), h.size, ht.publish,
    (h.reads.write n _).publish, Connection.rests_of_writes hw, by simp [h.fed, Ledger.write, Ledger.publish]⟩
  simp only [Bench.feed, fetch_eq_ok h.wire, fetch_eq_ok h.feeder, hopen, Checked.ok_bind,
    ← hndef, hwrite, hclose, Checked.pure_eq]
  rfl

/-- feeding one input does not concern the other ports -/
theorem Inlet.putFeed (h : b.Inlet fed j tokenSize e f q c l) (hij : i ≠ j) (f' : OutputEnd) (g : Bytes → Bytes) :
    (b.putFeed i c' f').Inlet (fed.modify i g) j tokenSize e f q c l :=
  ⟨h.reader, (getElem?_set_ne hij).trans h.feeder, (getElem?_set_ne hij).trans h.wire,
    h.size, h.tracks, h.reads, h.feeds, by simp [hij, h.fed]⟩

theorem Outlet.putFeed (h : b.Outlet drained nin o tokenSize f g q c l) (hi : i < nin) (f' : OutputEnd) :
    (b.putFeed i c' f').Outlet drained nin o tokenSize f g q c l :=
  { h with wire := (getElem?_set_ne (by omega)).trans h.wire }

/-- the next tokens of the stream are drained and released -/
theorem Outlet.drain_ok (h : b.Outlet drained nin o tokenSize f g q c l)
    (hin : b.inst.inputs.length = nin) (most : Nat) :
    ∃ c' g' n bytes, b.drain o most = .ok (bytes, b.putDrain nin o c' g') ∧
      (b.putDrain nin o c' g').Outlet (drained.modify o (· ++ bytes)) nin o tokenSize f g' (q + n) c'
        (l.release g.reader (q + n)) := by
  subst hin
  have hopen := h.tracks.openInput_eq h.drains
  have hr := h.tracks.reads_of_rests h.drains
  generalize hroom : l.published - q = room at hopen hr
  set n := min most room with hndef
  have hn : n ≤ room := min_le_right _ _
  have hcap := (h.tracks.readable hr).2
  obtain ⟨cursor, hread, hr'⟩ := h.tracks.readBytes_ok hr (Ports.tokensIn_mul h.tracks (le_trans hn hcap)) hn
  have hmoved : PortView.moved { cursor, available := room - n, openedWith := room } = n := by
    simp only [PortView.moved]; omega
  have hstart : PortView.moved { cursor := g.cursor, available := room, openedWith := room } = 0 := by
    simp only [PortView.moved]; omega
  have hclose := Connection.closeInput_eq h.tracks hr'
  have ht := h.tracks.release hr'
  have hrest := Connection.rests_of_reads hr'
  simp only [hmoved] at hclose ht hrest
  rw [hstart, Nat.add_zero] at hread
  refine ⟨{ c with consumed := c.consumed.set g.reader (UInt32.ofNat (q + n)) },
    ⟨g.reader, cursor, UInt32.ofNat (q + n)⟩, n,
    (l.stream.drop (q * c.tokenSize)).take (n * c.tokenSize), ?_, h.writer, getElem?_set_self (lt_of_getElem? h.drain),
    getElem?_set_self (lt_of_getElem? h.wire), h.size, ht, h.writes.release, hrest,
    by simp [h.drained, Ledger.release, Nat.add_mul, take_add, h.size]⟩
  simp only [Bench.drain, fetch_eq_ok h.wire, fetch_eq_ok h.drain, hopen, Checked.ok_bind,
    ← hndef, hread, hclose, Checked.pure_eq]
  rfl

/-- draining one output does not concern the other ports -/
theorem Outlet.putDrain (h : b.Outlet drained nin k tokenSize f e q c l) (hok : o ≠ k) (g' : InputEnd)
    (more : Bytes → Bytes) : (b.putDrain nin o c' g').Outlet (drained.modify o more) nin k tokenSize f e q c l :=
  ⟨h.writer, (getElem?_set_ne hok).trans h.drain, (getElem?_set_ne (by omega)).trans h.wire,
    h.size, h.tracks, h.writes, h.drains, by simp [hok, h.drained]⟩

theorem Inlet.putDrain (h : b.Inlet fed j tokenSize e f q c l) (hj : j < nin) (g' : InputEnd) :
    (b.putDrain nin o c' g').Inlet fed j tokenSize e f q c l :=
  { h with wire := (getElem?_set_ne (by omega)).trans h.wire }

/-! ### Calling -/

/-- what the actor can rely on while its ports are open -/
def neighbours (b : Bench σ) (nin : Nat) (fed drained : List Bytes) : Bridge.Neighbours where
  source j e _ c l := b.inst.inputs[j]? = some ⟨j, e⟩ ∧
    ∃ f, b.feeders[j]? = some f ∧ f.Rests c.capacity l ∧ fed[j]? = some l.stream
  sink o e c l := b.inst.outputs[o]? = some ⟨nin + o, e⟩ ∧
    ∃ g q, b.drains[o]? = some g ∧ g.Rests q c.capacity l ∧ drained[o]? = some (l.stream.take (q * c.tokenSize))
  sink_write := by
    rintro o e c l storage n bytes ht ⟨hw, g, q, hg, hrest, hdrained⟩
    refine ⟨hw, g, q, hg, hrest.write n bytes, ?_⟩
    rw [hdrained]
    exact congrArg some (stream_take_append ht (mem_of_getElem? hrest.released) bytes).symm

theorem open_ok (b : Bench σ) (nin : Nat) (fed drained : List Bytes)
    (hin : ∀ j < b.inst.inputs.length, ∃ tokenSize e f q c l, b.Inlet fed j tokenSize e f q c l)
    (hout : ∀ o < b.inst.outputs.length, ∃ tokenSize f g q c l, b.Outlet drained nin o tokenSize f g q c l) :
    ∃ ports, b.inst.openPorts b.wires = .ok ports ∧
      (∀ {j tokenSize e f q c l}, b.Inlet fed j tokenSize e f q c l →
        ∃ v, ports.Draws j e q j c v l ∧ v.moved = 0 ∧ (b.neighbours nin fed drained).source j e q c l) ∧
      ∀ {o tokenSize f g q c l}, b.Outlet drained nin o tokenSize f g q c l →
        ∃ v, ports.Fills o f (nin + o) c v l ∧ (b.neighbours nin fed drained).sink o f c l := by
  obtain ⟨ins, outs, hopen⟩ := Instance.openPorts_ok (fun e he => by
    obtain ⟨j, hj⟩ := getElem?_of_mem he
    obtain ⟨_, _, _, _, c, _, h⟩ := hin j (lt_of_getElem? hj)
    rw [h.reader] at hj
    cases hj
    exact ⟨c, h.wire⟩) fun e he => by
    obtain ⟨o, ho⟩ := getElem?_of_mem he
    obtain ⟨_, _, _, _, c, _, h⟩ := hout o (lt_of_getElem? ho)
    rw [h.writer] at ho
    cases ho
    exact ⟨c, _, h.wire, h.tracks.openOutput_eq h.writes⟩
  obtain ⟨hins, houts, -, -⟩ := Instance.openPorts_eq_ok hopen
  refine ⟨_, hopen, fun h => ?_, fun h => ?_⟩
  · have hview := (Ports.openAll_spec hins).2 h.reader h.wire rfl
    rw [h.tracks.openInput_eq h.reads] at hview
    exact ⟨_, ⟨hview, h.wire, h.tracks, h.tracks.reads_of_rests h.reads⟩, by simp [PortView.moved], h.reader, _,
      h.feeder, h.feeds, h.fed⟩
  · have hview := (Ports.openAll_spec houts).2 h.writer h.wire (h.tracks.openOutput_eq h.writes)
    exact ⟨_, ⟨hview, h.wire, h.tracks, h.tracks.writes_of_rests h.writes⟩, h.writer, _, _, h.drain, h.drains,
      by rw [h.size]; exact h.drained⟩

def closed (b : Bench σ) (actor : σ) (ports : Ports) (exit : Exit) (waiting : Option (List (PortId × Nat)))
    (firing : Firing) : Bench σ :=
  { b with
    wires := (Instance.closePorts { b.inst with actor } ports).1
    inst := (Instance.closePorts { b.inst with actor } ports).2.book exit waiting firing }

/-- a call opens the ports, lets the actor act and closes them -/
theorem call_eq [Behaviour σ] {ports' : Ports} {exit : Exit} {maxLoops : Nat}
    (hopen : b.inst.openPorts b.wires = .ok ports)
    (hact : Behaviour.act maxLoops b.inst.actor ports = ⟨actor, ports', .ok exit⟩) :
    b.call maxLoops = .ok ((exit, ports'.firing), b.closed actor ports' exit
      (Instance.waitList ports' exit) ports'.firing) := by
  simp only [call, hopen, Checked.ok_bind, Instance.settle, hact]
  rfl

/-- ends that are numbered by their wires are on different wires -/
theorem wires_nodup {ends : List (Attached α)} {first : Nat}
    (h : ∀ {k e}, ends[k]? = some e → e.wire = first + k) : (ends.map (·.wire)).Nodup := by
  rw [nodup_iff_getElem?_ne_getElem?]
  intro a b hab hb heq
  rw [length_map] at hb
  have ha' := getElem?_eq_getElem (show a < ends.length by omega)
  have hb' := getElem?_eq_getElem hb
  rw [getElem?_map, getElem?_map, ha', hb'] at heq
  have h1 := h ha'
  have h2 := h hb'
  have : ends[a].wire = ends[b].wire := Option.some.inj heq
  omega

theorem length_le_of_getElem? {xs : List α} {n : Nat} (h : ∀ k < n, ∃ x, xs[k]? = some x) : n ≤ xs.length := by
  by_contra hlt
  obtain ⟨x, hx⟩ := h xs.length (by omega)
  simp at hx

/-- closed ports keep their ledgers: what was read has been taken, and everything written is handed on -/
theorem closed_spec (actor : σ) (ports : Ports) (fed drained : List Bytes) (hcount : b.inst.inputs.length = nin)
    (hdraws : ∀ j < nin, ∃ e q c v l, ports.Draws j e q j c v l ∧ (b.neighbours nin fed drained).source j e q c l)
    (hfills : ∀ o < b.inst.outputs.length, ∃ e c v l, ports.Fills o e (nin + o) c v l ∧
      (b.neighbours nin fed drained).sink o e c l)
    (exit : Exit) (waiting : Option (List (PortId × Nat))) (firing : Firing) :
    (b.closed actor ports exit waiting firing).inst.inputs.length = nin ∧
    (b.closed actor ports exit waiting firing).inst.outputs.length = b.inst.outputs.length ∧
    (∀ {j e q c v l}, ports.Draws j e q j c v l → (b.neighbours nin fed drained).source j e q c l → ∃ e' f c',
      (b.closed actor ports exit waiting firing).Inlet fed j c.tokenSize e' f (q + v.moved) c'
      (l.release e.reader (q + v.moved))) ∧
    ∀ {o e c v l}, ports.Fills o e (nin + o) c v l → (b.neighbours nin fed drained).sink o e c l → ∃ f g q c',
      (b.closed actor ports exit waiting firing).Outlet drained nin o c.tokenSize f g q c' l.publish := by
  have hinWire : ∀ {k e}, b.inst.inputs[k]? = some e →
      e.wire = 0 + k ∧ ∃ c, ports.wires[e.wire]? = some c := by
    intro k e he
    obtain ⟨_, _, c, _, _, hd, hreader, -⟩ := hdraws k (hcount ▸ lt_of_getElem? he)
    rw [hreader] at he
    cases he
    exact ⟨(Nat.zero_add k).symm, c, hd.wire⟩
  have houtWire : ∀ {k e}, b.inst.outputs[k]? = some e →
      e.wire = nin + k ∧ ∃ c, ports.wires[e.wire]? = some c := by
    intro k e he
    obtain ⟨_, c, _, _, hf, hwriter, -⟩ := hfills k (lt_of_getElem? he)
    rw [hwriter] at he
    cases he
    exact ⟨rfl, c, hf.wire⟩
  have happart : (b.inst.inputs.map (·.wire) ++ b.inst.outputs.map (·.wire)).Nodup := by
    refine nodup_append.2 ⟨wires_nodup fun he => (hinWire he).1, wires_nodup fun he => (houtWire he).1, ?_⟩
    intro x hx y hy hxy
    obtain ⟨e, he, rfl⟩ := mem_map.1 hx
    obtain ⟨e', he', rfl⟩ := mem_map.1 hy
    obtain ⟨k, hk⟩ := getElem?_of_mem he
    obtain ⟨k', hk'⟩ := getElem?_of_mem he'
    have h1 := (hinWire hk).1
    have h2 := (houtWire hk').1
    have h3 : k < nin := hcount ▸ lt_of_getElem? hk
    omega
  obtain ⟨wires, ins, outs, hclose, hinLen, houtLen, hins, houts⟩ := Instance.closePorts_apart
    { b.inst with actor } ports happart
    (length_le_of_getElem? fun k hk => by obtain ⟨_, _, _, _, _, hd, -⟩ := hdraws k (hcount ▸ hk); exact ⟨_, hd.port⟩)
    (length_le_of_getElem? fun k hk => by obtain ⟨_, _, _, _, hf, -⟩ := hfills k hk; exact ⟨_, hf.port⟩)
    (fun e he => by obtain ⟨k, hk⟩ := getElem?_of_mem he; exact (hinWire hk).2)
    (fun e he => by obtain ⟨k, hk⟩ := getElem?_of_mem he; exact (houtWire hk).2)
  rw [closed, hclose]
  refine ⟨hinLen.trans hcount, houtLen, fun hd hsource => ?_, fun hf hsink => ?_⟩
  · obtain ⟨hreader, f, hfeeder, hfeeds, hfed⟩ := hsource
    obtain ⟨hwire, hitem⟩ := hins hreader hd.port hd.wire
    rw [Connection.closeInput_eq hd.tracks hd.reads] at hwire hitem
    exact ⟨_, f, _, hitem, hfeeder, hwire, rfl, hd.tracks.release hd.reads,
      Connection.rests_of_reads hd.reads, hfeeds.release, hfed⟩
  · obtain ⟨hwriter, g, q, hdrain, hrests, hdrained⟩ := hsink
    obtain ⟨hwire, hitem⟩ := houts hwriter hf.port hf.wire
    rw [Connection.closeOutput_eq hf.tracks hf.writes] at hwire hitem
    exact ⟨_, g, q, _, hitem, hdrain, hwire, rfl, hf.tracks.publish, Connection.rests_of_writes hf.writes,
      hrests.publish, hdrained⟩

end Bench

/-! ## Trials -/

/-- what can be done to a bridge on the bench -/
inductive TrialOp where
  /-- feeds an input with as many whole tokens as fit -/
  | feed (input : Nat) (bytes : Bytes)
  /-- calls the bridge, for at most so many firings -/
  | call (maxLoops : Nat)
  /-- lets the device carry out up to so many queued commands -/
  | work (commands : Nat)
  /-- drains up to `most` tokens from an output -/
  | drain (output most : Nat)
deriving DecidableEq, Repr

def TrialOp.Within (inputs outputs : Nat) : TrialOp → Prop
  | .feed input _ => input < inputs
  | .drain output _ => output < outputs
  | .call _ | .work _ => True

/-- a bridge on the bench, with all bytes fed and drained so far -/
structure Trial (κ : Type) where
  bench : Bench (Bridge (Accelerator (Recorded κ)))
  /-- by input -/
  fed : List Bytes
  /-- by output -/
  drained : List Bytes

namespace Trial

variable {κ : Type} [Programmed κ]

def bridge (t : Trial κ) : Bridge (Accelerator (Recorded κ)) := t.bench.inst.actor

def kernel (t : Trial κ) : Recorded κ := t.bridge.device.machine.kernel

def start (bench : Bench (Bridge (Accelerator (Recorded κ)))) : Trial κ :=
  ⟨bench, List.replicate bench.feeders.length [], List.replicate bench.drains.length []⟩

def putDevice (t : Trial κ) (device : Accelerator (Recorded κ)) : Trial κ :=
  { t with bench := { t.bench with inst := { t.bench.inst with actor := { t.bridge with device } } } }

def step (t : Trial κ) : TrialOp → Checked (Trial κ)
  | .feed input bytes => do
    let c ← fetch t.bench.wires input
    let (n, bench) ← t.bench.feed input bytes
    return { t with bench, fed := t.fed.modify input (· ++ bytes.take (n * c.tokenSize)) }
  | .call maxLoops => do
    let (_, bench) ← t.bench.call maxLoops
    return { t with bench }
  | .work commands => do
    let (results, device) := t.bridge.device.stepQueue commands
    let _ ← results
    return t.putDevice device
  | .drain output most => do
    let (bytes, bench) ← t.bench.drain output most
    return { t with bench, drained := t.drained.modify output (· ++ bytes) }

def run : Trial κ → List TrialOp → Checked (Trial κ)
  | t, [] => .ok t
  | t, op :: ops => do (← t.step op).run ops

end Trial

namespace Bench

variable {σ : Type}

/-- the bytes on input `i` that the actor has not read yet -/
def unread (b : Bench σ) (i : Nat) : Checked Bytes := do
  let e ← fetch b.inst.inputs i
  let c ← fetch b.wires e.wire
  let view := c.openInput e.item
  return (← c.readBytes view (view.available * c.tokenSize)).1

/-- the bytes behind output `o` that have not been drained yet -/
def undrained (b : Bench σ) (o : Nat) : Checked Bytes := do
  let input ← fetch b.drains o
  let c ← fetch b.wires (b.inst.inputs.length + o)
  let view := c.openInput input
  return (← c.readBytes view (view.available * c.tokenSize)).1

end Bench

/-- the bytes in the staging slots from the tail up to the head -/
def BridgePort.stagedBytes (p : BridgePort) : Checked Bytes := do
  p.staging.readRuns (← p.byteSpan p.host.tail p.host.head)

namespace Trial

variable {κ : Type}

/-- input `j` of the trial: the kernel has read the beginning of what the bridge has taken from what was fed; in `init`
the rest is staged -/
def InputTransparent (t : Trial κ) (j : Nat) : Prop :=
  ∃ port fed consumed unread received, t.bridge.inputs[j]? = some port ∧ t.fed[j]? = some fed ∧
    t.bench.unread j = .ok unread ∧ fed = consumed ++ unread ∧ t.kernel.received[j]? = some received ∧
    received <+: consumed ∧
    (t.bridge.phase = .init → ∃ staged, port.stagedBytes = .ok staged ∧ consumed = received ++ staged)

/-- output `o` of the trial: what the bridge has handed on is the beginning of what the kernel has written; in `init`
the rest is staged -/
def OutputTransparent (t : Trial κ) (o : Nat) : Prop :=
  ∃ port drained undrained accepted, t.bridge.outputs[o]? = some port ∧ t.drained[o]? = some drained ∧
    t.bench.undrained o = .ok undrained ∧ t.kernel.accepted[o]? = some accepted ∧
    drained ++ undrained <+: accepted ∧
    (t.bridge.phase = .init → ∃ staged, port.stagedBytes = .ok staged ∧ accepted = drained ++ undrained ++ staged)

/-! ## The invariant -/

/-- the traffic of a trial between two operations -/
def traffic (t : Trial κ) (nin : Nat) : Traffic where
  taken j tokenSize X := j < nin ∧ ∃ e f q c l, t.bench.Inlet t.fed j tokenSize e f q c l ∧
    X = l.stream.take (q * tokenSize)
  handed o tokenSize Y := ∃ e g q c l, t.bench.Outlet t.drained nin o tokenSize e g q c l ∧ l.stream = Y ∧
    ∃ accepted, t.kernel.accepted[o]? = some accepted ∧ Y <+: accepted

variable {t : Trial κ} {nin nout i j o q : Nat} {e : InputEnd} {c : Connection} {l : Ledger} [Programmed κ]

/-- between two operations the bridge is in one of its phases, and every connection keeps its ledger -/
structure Holds (t : Trial κ) (nin nout : Nat) : Prop where
  inCount : t.bench.inst.inputs.length = nin
  outCount : t.bench.inst.outputs.length = nout
  phased : Bridge.Phased nin nout (t.traffic nin) t.bridge

/-! ## Feeding and draining -/

theorem Holds.feed (h : t.Holds nin nout) (hi : i < nin) (bytes : Bytes) :
    ∃ t', t.step (.feed i bytes) = .ok t' ∧ t'.Holds nin nout := by
  obtain ⟨p, X, got, -, ⟨-, e, f, q, c, l, hin, -⟩, -⟩ := h.phased.input hi
  obtain ⟨c', f', n, hfeed, -⟩ := hin.feed bytes
  refine ⟨{ t with bench := t.bench.putFeed i c' f', fed := t.fed.modify i (· ++ bytes.take (n * c.tokenSize)) }, ?_,
    h.inCount, h.outCount, h.phased.traffic ?_ ?_⟩
  · simp [step, fetch_eq_ok hin.wire, hfeed]
  · rintro j p X - ⟨hj, e1, f1, q1, c1, l1, hin1, hX⟩
    by_cases hij : i = j
    · -- the ledger of the fed input may be another one, but the step is the same
      subst hij
      obtain rfl := Option.some.inj (hin.wire.symm.trans hin1.wire)
      obtain ⟨c2, f2, n2, hfeed2, hin2⟩ := hin1.feed bytes
      rw [hfeed] at hfeed2
      obtain ⟨rfl, heq⟩ := Prod.mk.inj (Except.ok.inj hfeed2)
      rw [← heq] at hin2
      refine ⟨hj, e1, f2, q1, c2, _, hin2, ?_⟩
      rw [hX, ← hin1.size]
      exact (Bench.stream_take_append hin1.tracks (mem_of_getElem? hin1.reads.released) _).symm
    · exact ⟨hj, e1, f1, q1, c1, l1, hin1.putFeed hij f' _, hX⟩
  · rintro o p Y - ⟨e1, g1, q1, c1, l1, hout, hY⟩
    exact ⟨e1, g1, q1, c1, l1, hout.putFeed hi f', hY⟩

theorem Holds.drain (h : t.Holds nin nout) (ho : o < nout) (most : Nat) :
    ∃ t', t.step (.drain o most) = .ok t' ∧ t'.Holds nin nout := by
  obtain ⟨p, Y, -, ⟨e, g, q, c, l, hout, -⟩, -⟩ := h.phased.output ho
  obtain ⟨c', g', n, bytes, hdrain, -⟩ := hout.drain_ok h.inCount most
  refine ⟨{ t with bench := t.bench.putDrain nin o c' g', drained := t.drained.modify o (· ++ bytes) }, ?_, h.inCount,
    h.outCount, h.phased.traffic ?_ ?_⟩
  · simp [step, hdrain]
  · rintro j p X - ⟨hj, e1, f1, q1, c1, l1, hin, hX⟩
    exact ⟨hj, e1, f1, q1, c1, l1, hin.putDrain hj g', hX⟩
  · rintro k p Y - ⟨e1, g1, q1, c1, l1, hout1, hY⟩
    by_cases hok : o = k
    · subst hok
      obtain ⟨c2, g2, n2, bytes2, hdrain2, hout2⟩ := hout1.drain_ok h.inCount most
      rw [hdrain] at hdrain2
      obtain ⟨rfl, heq⟩ := Prod.mk.inj (Except.ok.inj hdrain2)
      rw [← heq] at hout2
      exact ⟨e1, g2, _, c2, _, hout2, hY⟩
    · exact ⟨e1, g1, q1, c1, l1, hout1.putDrain hok g' _, hY⟩

/-! ## Letting the device work -/

theorem Holds.work (h : t.Holds nin nout) (n : Nat) : ∃ t', t.step (.work n) = .ok t' ∧ t'.Holds nin nout := by
  obtain ⟨m, P, howes⟩ := h.phased.owes
  obtain ⟨results, d', hqueue, -, hlater⟩ := howes.stepQueue n
  refine ⟨t.putDevice d', by simp only [step, hqueue]; rfl, h.inCount, h.outCount, ?_⟩
  have hphased := h.phased.work fun howes1 => by
    obtain ⟨results1, d1, hqueue1, howes1', -⟩ := howes1.stepQueue n
    rw [hqueue] at hqueue1
    cases hqueue1
    exact howes1'
  refine hphased.traffic ?_ ?_
  · rintro j p X - ⟨hj, e1, f1, q1, c1, l1, hup, hX⟩
    exact ⟨hj, e1, f1, q1, c1, l1, { hup with }, hX⟩
  · rintro o p Y - ⟨e1, g1, q1, c1, l1, hdown, hY, accepted, hacc, hpre⟩
    obtain ⟨accepted', hacc', hpre'⟩ := hlater.reaches.grows.accepted hacc
    exact ⟨e1, g1, q1, c1, l1, { hdown with }, hY, accepted', hacc', hpre.trans hpre'⟩

/-! ## Calling -/

theorem Holds.open (h : t.Holds nin nout) : ∃ ports, t.bench.inst.openPorts t.bench.wires = .ok ports ∧
    Bridge.Phased nin nout ((t.bench.neighbours nin t.fed t.drained).traffic nin t.bridge.device ports) t.bridge := by
  obtain ⟨ports, hopen, hdraws, hfills⟩ := t.bench.open_ok nin t.fed t.drained
    (fun j hj => by
      obtain ⟨_, _, _, -, ⟨-, e, f, q, c, l, hin, -⟩, -⟩ := h.phased.input (h.inCount ▸ hj)
      exact ⟨_, e, f, q, c, l, hin⟩)
    (fun o ho => by
      obtain ⟨_, _, -, ⟨e, g, q, c, l, hout, -⟩, -⟩ := h.phased.output (h.outCount ▸ ho)
      exact ⟨_, e, g, q, c, l, hout⟩)
  refine ⟨ports, hopen, h.phased.traffic ?_ ?_⟩
  · rintro j p X - ⟨hj, e, f, q, c, l, hin, hX⟩
    obtain ⟨v, hd, hmoved, hsource⟩ := hdraws hin
    exact ⟨hj, e, q, c, v, l, hd, hin.size, by rw [hmoved]; exact hX, hsource⟩
  · rintro o p Y - ⟨e, g, q, c, l, hout, hY, hacc⟩
    obtain ⟨v, hf, hsink⟩ := hfills hout
    exact ⟨e, c, v, l, hf, hout.size, hY, hsink, hacc⟩

section

variable (hwithin : ∀ state : κ, (Programmed.program state).Within nin nout)

include hwithin

/-- after a call the ports are closed, and every connection keeps its ledger -/
theorem Holds.call (h : t.Holds nin nout) (maxLoops : Nat) :
    ∃ t', t.step (.call maxLoops) = .ok t' ∧ t'.Holds nin nout := by
  obtain ⟨ports0, hopen, hphased0⟩ := h.open
  obtain ⟨b', ports, exit, hact, hphased⟩ := Bridge.act_phased hwithin maxLoops hphased0
  have hcall := Bench.call_eq hopen hact
  obtain ⟨hin, hout, hins, houts⟩ := Bench.closed_spec b' ports t.fed t.drained h.inCount
    (fun j hj => by
      obtain ⟨_, _, _, -, ⟨-, e, q, c, v, l, hd, -, -, hsource⟩, -⟩ := hphased.input hj
      exact ⟨e, q, c, v, l, hd, hsource⟩)
    (fun o ho => by
      obtain ⟨_, _, -, ⟨e, c, v, l, hf, -, -, hsink, -⟩, -⟩ := hphased.output (h.outCount ▸ ho)
      exact ⟨e, c, v, l, hf, hsink⟩)
    exit (Instance.waitList ports exit) ports.firing
  refine ⟨{ t with bench := t.bench.closed b' ports exit (Instance.waitList ports exit) ports.firing },
    by simp [step, hcall], hin, hout.trans h.outCount, hphased.traffic ?_ ?_⟩
  · rintro j p X - ⟨hj, e, q, c, v, l, hd, hts, hX, hsource⟩
    obtain ⟨e', f, c', hinlet⟩ := hins hd hsource
    rw [hts] at hinlet
    exact ⟨hj, e', f, _, c', _, hinlet, hX⟩
  · rintro o p Y - ⟨e, c, v, l, hf, hts, hY, hsink, hacc⟩
    obtain ⟨f', g, q, c', houtlet⟩ := houts hf hsink
    rw [hts] at houtlet
    exact ⟨f', g, q, c', _, houtlet, hY, hacc⟩

theorem Holds.step {op : TrialOp} (h : t.Holds nin nout) (hop : op.Within nin nout) :
    ∃ t', t.step op = .ok t' ∧ t'.Holds nin nout := by
  cases op with
  | feed i bytes => exact h.feed hop bytes
  | call maxLoops => exact h.call hwithin maxLoops
  | work n => exact h.work n
  | drain o most => exact h.drain hop most

/-- no trial fails, and the invariant holds at its end -/
theorem Holds.run {ops : List TrialOp}
    (h : t.Holds nin nout) (hops : ∀ op ∈ ops, op.Within nin nout) : ∃ t', t.run ops = .ok t' ∧ t'.Holds nin nout := by
  induction ops generalizing t with
  | nil => exact ⟨t, rfl, h⟩
  | cons op ops ih =>
    obtain ⟨t1, hstep, h1⟩ := h.step hwithin (hops op mem_cons_self)
    obtain ⟨t2, hrun, h2⟩ := ih h1 fun op hop => hops op (mem_cons_of_mem _ hop)
    exact ⟨t2, by rw [run, hstep]; exact hrun, h2⟩

end

/-! ## What the invariant says of the bytes -/

/-- while the writer's port is closed, an opened input shows the whole stream from where its reader stands -/
theorem readBytes_unreleased (ht : c.Tracks l) (hr : e.Rests q c.capacity l) (hsettled : l.written = l.published) :
    ∃ view, c.readBytes (c.openInput e) ((c.openInput e).available * c.tokenSize) =
      .ok (l.stream.drop (q * c.tokenSize), view) := by
  have hreads := ht.reads_of_rests hr
  obtain ⟨cursor, hread, -⟩ := ht.readBytes_ok hreads (Ports.tokensIn_mul ht (ht.readable hreads).2) le_rfl
  simp only [PortView.moved, Nat.sub_self, Nat.add_zero] at hread
  rw [take_of_length_le (by rw [length_drop, ht.length, ← Nat.sub_mul, hsettled])] at hread
  exact ⟨_, by rw [ht.openInput_eq hr]; exact hread⟩

theorem Holds.inputTransparent (h : t.Holds nin nout) (hj : j < nin) : t.InputTransparent j := by
  obtain ⟨p, X, got, hp, ⟨-, e, f, q, c, l, hup, hX⟩, hgot, hpre, hstaged⟩ := h.phased.input hj
  obtain ⟨view, hread⟩ := readBytes_unreleased hup.tracks hup.reads hup.feeds.settled
  refine ⟨p, l.stream, X, l.stream.drop (q * c.tokenSize), got, hp, hup.fed, ?_, ?_, hgot, hpre, fun hinit => ?_⟩
  · simp only [Bench.unread, fetch_eq_ok hup.reader, fetch_eq_ok hup.wire, Checked.ok_bind, hread]
    rfl
  · rw [hX, ← hup.size, take_append_drop]
  · obtain ⟨span, staged, hspan, hread, hsplit⟩ := hstaged hinit
    exact ⟨staged, by simp [BridgePort.stagedBytes, hspan, hread], hsplit⟩

theorem Holds.outputTransparent (h : t.Holds nin nout) (ho : o < nout) : t.OutputTransparent o := by
  obtain ⟨p, Y, hp, ⟨e, g, q, c, l, hdown, hY, accepted, hacc, hpre⟩, hstaged⟩ := h.phased.output ho
  obtain ⟨view, hread⟩ := readBytes_unreleased hdown.tracks hdown.drains hdown.writes.settled
  have hall : l.stream.take (q * p.spec.tokenSize) ++ l.stream.drop (q * c.tokenSize) = Y := by
    rw [hdown.size, take_append_drop, hY]
  refine ⟨p, _, l.stream.drop (q * c.tokenSize), accepted, hp, hdown.drained, ?_, hacc, by rwa [hall], fun hinit => ?_⟩
  · simp only [Bench.undrained, h.inCount, fetch_eq_ok hdown.drain, fetch_eq_ok hdown.wire, Checked.ok_bind, hread]
    rfl
  · obtain ⟨span, staged, hspan, hread, hsplit⟩ := hstaged hinit
    refine ⟨staged, by simp [BridgePort.stagedBytes, hspan, hread], ?_⟩
    rw [hall]
    exact Option.some.inj (hacc.symm.trans hsplit)

end Trial

end Dataflow
