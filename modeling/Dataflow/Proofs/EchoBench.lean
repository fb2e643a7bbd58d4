import Dataflow.Proofs.BridgeBench
import Dataflow.Proofs.BridgeCreation
import Dataflow.Proofs.EchoCalls
import Dataflow.Proofs.QuietAttempt

/-!
An echo bridge never parks with work left.

Model: a bridge with one input and one output of the same token size over a new device, whose kernel passes on up to
`perCall` tokens in one launch, at least one. The states are those reached on the bench by feeding, calling, working and
draining (`Bench.Reaches`).

- `echo_bridge_parks_when_done`: if a call with at least one step blocks while the output has room, the input has no
  token left, all bytes fed have been handed on, in order, and no command is in flight.
- Witness `echo_bridge_parks_when_done_paced`: a device at a pace of its own.

Premises: commands are carried out at once, or in order at moments of the device's own choosing (`Device.Paces`);
capacities are words.
-/

namespace Dataflow

open List

/-! ## Reachable states -/

namespace Bench

variable {δ : Type}

def putDevice (b : Bench (Bridge δ)) (device : δ) : Bench (Bridge δ) :=
  { b with inst := { b.inst with actor := { b.inst.actor with device } } }

/-- a bridge with one input and one output is fed, called and drained, and its device carries out queued commands, in
any order; the bytes are all those fed and all those drained -/
inductive Reaches [Device δ] (core : δ → Accelerator StockKernel) (tokenSize : Nat) (new : Bench (Bridge δ)) :
    Bench (Bridge δ) → Bytes → Bytes → Prop
  | start : Reaches core tokenSize new new [] []
  | feed {b b' : Bench (Bridge δ)} {fed drained bytes : Bytes} {n : Nat}
      (before : Reaches core tokenSize new b fed drained)
      (h : b.feed 0 bytes = .ok (n, b')) : Reaches core tokenSize new b' (fed ++ bytes.take (n * tokenSize)) drained
  | call {b b' : Bench (Bridge δ)} {fed drained : Bytes} {maxLoops : Nat} {answer : Exit × Firing}
      (before : Reaches core tokenSize new b fed drained) (h : b.call maxLoops = .ok (answer, b')) :
      Reaches core tokenSize new b' fed drained
  | work {b : Bench (Bridge δ)} {fed drained : Bytes} {n : Nat} {device : δ}
      (before : Reaches core tokenSize new b fed drained)
      (h : core device = ((core b.inst.actor.device).stepQueue n).2) :
      Reaches core tokenSize new (b.putDevice device) fed drained
  | drain {b b' : Bench (Bridge δ)} {fed drained bytes : Bytes} {most : Nat}
      (before : Reaches core tokenSize new b fed drained)
      (h : b.drain 0 most = .ok (bytes, b')) : Reaches core tokenSize new b' fed (drained ++ bytes)

end Bench

namespace Bridge

variable {δ : Type} {core : δ → Accelerator StockKernel} {perCall tokenSize : Nat} {bench bench' : Bench (Bridge δ)}
  {fed drained bytes X : Bytes} {T H D n most : Nat}

/-- an echo bridge on the bench, between two operations -/
structure OnBench (core : δ → Accelerator StockKernel) (perCall tokenSize : Nat) (bench : Bench (Bridge δ))
    (fed drained X : Bytes) (T H D : Nat) : Prop where
  inCount : bench.inst.inputs.length = 1
  outCount : bench.inst.outputs.length = 1
  inlet : ∃ e f r c l, bench.Inlet [fed] 0 tokenSize e f r c l ∧ X = l.stream.take (r * tokenSize)
  outlet : ∃ f g r c l, bench.Outlet [drained] 1 0 tokenSize f g r c l ∧ l.stream = X.take (D * tokenSize)
  echoing : Echoing perCall tokenSize core bench.inst.actor X T H D

/-! ## Feeding, draining and working -/

section

variable (h : OnBench core perCall tokenSize bench fed drained X T H D)

include h

theorem OnBench.feed [Device δ] (hfeed : bench.feed 0 bytes = .ok (n, bench')) :
    OnBench core perCall tokenSize bench' (fed ++ bytes.take (n * tokenSize)) drained X T H D := by
  obtain ⟨e, f, r, c, l, hin, hX⟩ := h.inlet
  obtain ⟨f2, g, r2, c2, l2, hout, hY⟩ := h.outlet
  obtain ⟨c', f', n', hfeed', hin'⟩ := hin.feed bytes
  rw [hfeed'] at hfeed
  obtain ⟨rfl, rfl⟩ := Prod.mk.inj (Except.ok.inj hfeed)
  rw [hin.size] at hin'
  refine ⟨h.inCount, h.outCount, ⟨e, f', r, c', _, hin', ?_⟩,
    ⟨f2, g, r2, c2, l2, hout.putFeed one_pos f', hY⟩, h.echoing⟩
  rw [hX, ← hin.size]
  exact (Bench.stream_take_append hin.tracks (mem_of_getElem? hin.reads.released) _).symm

theorem OnBench.drain [Device δ] (hdrain : bench.drain 0 most = .ok (bytes, bench')) :
    OnBench core perCall tokenSize bench' fed (drained ++ bytes) X T H D := by
  obtain ⟨e, f, r, c, l, hin, hX⟩ := h.inlet
  obtain ⟨f2, g, r2, c2, l2, hout, hY⟩ := h.outlet
  obtain ⟨c', g', n', bytes', hdrain', hout'⟩ := hout.drain_ok h.inCount most
  rw [hdrain'] at hdrain
  obtain ⟨rfl, rfl⟩ := Prod.mk.inj (Except.ok.inj hdrain)
  exact ⟨h.inCount, h.outCount, ⟨e, f, r, c, l, hin.putDrain one_pos g', hX⟩, ⟨f2, g', _, c', _, hout', hY⟩, h.echoing⟩

theorem OnBench.work {device : δ} (hwork : core device = ((core bench.inst.actor.device).stepQueue n).2) :
    OnBench core perCall tokenSize (bench.putDevice device) fed drained X T H D := by
  obtain ⟨hins, houts, ⟨e, f, r, c, l, hin, hX⟩, ⟨f2, g, r2, c2, l2, hout, hY⟩, hfailed,
    p, q, m, P, hp, hq, hd, hstage⟩ := h
  obtain ⟨results, d', hqueue, hd', -⟩ := hd.stepQueue n
  rw [hqueue] at hwork
  exact ⟨hins, houts, ⟨e, f, r, c, l, { hin with }, hX⟩, ⟨f2, g, r2, c2, l2, { hout with }, hY⟩,
    hfailed, p, q, m, P, hp, hq, hwork ▸ hd', hstage.withDevice device⟩

end

/-! ## Calling -/

/-- what the bridge can rely on while its ports are open -/
def benchCabling (bench : Bench (Bridge δ)) (fed drained : Bytes) : Cabling :=
  { bench.neighbours 1 [fed] [drained] with inWire := 0, outWire := 1, apart := Nat.zero_ne_one, wires := bench.wires }

theorem OnBench.open (h : OnBench core perCall tokenSize bench fed drained X T H D) :
    ∃ ports, bench.inst.openPorts bench.wires = .ok ports ∧
      Running core perCall tokenSize (benchCabling bench fed drained) bench.inst.actor ports X T H D := by
  obtain ⟨hins, houts, ⟨e, f, r, c, l, hin, hX⟩, ⟨f', g, r', c', l', hout, hY⟩, hecho⟩ := h
  obtain ⟨ports, hopen, hdraws, hfills⟩ := bench.open_ok 1 [fed] [drained]
    (fun j hj => ⟨_, e, f, r, c, l, Nat.lt_one_iff.1 (hins ▸ hj) ▸ hin⟩)
    (fun o ho => ⟨_, f', g, r', c', l', Nat.lt_one_iff.1 (houts ▸ ho) ▸ hout⟩)
  obtain ⟨v, hd, hmoved, hsource⟩ := hdraws hin
  obtain ⟨v', hf, hsink⟩ := hfills hout
  obtain ⟨-, -, hwires, -⟩ := Instance.openPorts_eq_ok hopen
  exact ⟨ports, hopen, hecho, ⟨e, r, c, v, l, hd, hin.size, by rw [hmoved]; exact hX, hsource⟩,
    ⟨f', c', v', l', hf, hout.size, hY, hsink⟩, fun _ _ => by rw [hwires]; rfl⟩

/-- after a call the ports are closed, and both connections keep their ledgers -/
theorem OnBench.close {b : Bridge δ} {ports : Ports} (hin : bench.inst.inputs.length = 1)
    (hout : bench.inst.outputs.length = 1)
    (h : Running core perCall tokenSize (benchCabling bench fed drained) b ports X T H D) (exit : Exit)
    (waiting : Option (List (PortId × Nat))) (firing : Firing) :
    OnBench core perCall tokenSize (bench.closed b ports exit waiting firing) fed drained X T H D := by
  obtain ⟨hecho, ⟨e, r, c, v, l, hdraws, hts, hX, hsource⟩, ⟨e', c', v', l', hfills, hts', hY, hsink⟩, -⟩ := h
  obtain ⟨hins, houts, hinlet, houtlet⟩ := Bench.closed_spec b ports [fed] [drained] hin
    (fun j hj => ⟨e, r, c, v, l, Nat.lt_one_iff.1 hj ▸ ⟨hdraws, hsource⟩⟩)
    (fun o ho => ⟨e', c', v', l', Nat.lt_one_iff.1 (hout ▸ ho) ▸ ⟨hfills, hsink⟩⟩) exit waiting firing
  obtain ⟨e1, f1, c1, hinlet⟩ := hinlet hdraws hsource
  obtain ⟨f2, g2, r2, c2, houtlet⟩ := houtlet hfills hsink
  rw [hts] at hinlet
  rw [hts'] at houtlet
  exact ⟨hins, houts.trans hout, ⟨e1, f1, _, c1, _, hinlet, hX⟩, ⟨f2, g2, r2, c2, _, houtlet, hY⟩, hecho⟩

end Bridge

/-- closing ports that have just been opened leaves every port with what it had -/
theorem Bench.availability_closed {σ : Type} {b : Bench σ} {actor : σ} {ports : Ports}
    (hopen : b.inst.openPorts b.wires = .ok ports) (exit : Exit) (waiting : Option (List (PortId × Nat)))
    (firing : Firing) (port : PortId) :
    (b.closed actor ports exit waiting firing).inst.availability (b.closed actor ports exit waiting firing).wires port =
      .ok (ports.left port) := by
  obtain ⟨-, -, hwires, -⟩ := Instance.openPorts_eq_ok hopen
  obtain ⟨hin, hout⟩ := Instance.openPorts_still hopen
  obtain ⟨hsame, hinputs, houtputs⟩ := Instance.closePorts_still { b.inst with actor } hin hout
  rw [← hwires] at hopen
  exact Instance.availability_congr (congrArg _ hsame) hinputs houtputs (Instance.availability_eq_left hopen port)

namespace Bridge

/-! ## Parking -/

section Call

variable {δ : Type} [Device δ] {core : δ → Accelerator StockKernel} {perCall tokenSize : Nat}
  {bench bench' : Bench (Bridge δ)} {fed drained X : Bytes} {T H D maxLoops : Nat} {exit : Exit} {firing : Firing}

/-- a call that blocks has left the connections as they were, so what it saw through its ports is what there is -/
theorem OnBench.call (hcore : Device.Paces core) (hk : 1 ≤ perCall)
    (h : OnBench core perCall tokenSize bench fed drained X T H D)
    (hcall : bench.call maxLoops = .ok ((exit, firing), bench')) :
    ∃ X' T' H' D', OnBench core perCall tokenSize bench' fed drained X' T' H' D' ∧ ∀ blocked, exit = .block blocked →
      bench'.inst.actor.phase = .init ∧ (1 ≤ maxLoops → ∀ room,
        bench'.inst.availability bench'.wires (.output 0) = .ok room → 0 < room →
        bench'.inst.availability bench'.wires (.input 0) = .ok 0 ∧ D' = H') := by
  obtain ⟨ports, hopen, hrun⟩ := h.open
  obtain ⟨actor, ports', exit', X', T', H', D', hact, hrun', -, hrests⟩ := act_running hcore hk maxLoops hrun
  have hclosed := Bench.call_eq hopen hact
  rw [hcall] at hclosed
  obtain ⟨hanswer, rfl⟩ := Prod.mk.inj (Except.ok.inj hclosed)
  obtain ⟨rfl, rfl⟩ := Prod.mk.inj hanswer
  refine ⟨X', T', H', D', OnBench.close h.inCount h.outCount hrun' _ _ _, fun blocked hexit => ?_⟩
  subst hexit
  cases hrests with
  | blocks _ hunmoved _ hphase hexhausted =>
    obtain rfl := hunmoved.ports
    refine ⟨hphase, fun hloops room hroom hpos => ?_⟩
    obtain ⟨-, ⟨e, r, c, v, l, hdraws, -⟩, ⟨e', c', v', l', hfills, -⟩, -⟩ := hrun'
    rw [Bench.availability_closed hopen] at hroom ⊢
    have hleft : ports'.left (.input 0) = v.available := by simp [Ports.left, hdraws.port]
    have hleft' : ports'.left (.output 0) = v'.available := by simp [Ports.left, hfills.port]
    rw [hleft', ← hfills.availableOut] at hroom
    obtain ⟨hempty, hDH⟩ := hexhausted rfl hloops room hroom hpos
    rw [hleft, ← hdraws.availableIn]
    exact ⟨hempty, hDH⟩

end Call

/-- no command of the bridge is on its way, and the device has none left to carry out -/
structure NothingInFlight {δ : Type} (core : δ → Accelerator StockKernel) (b : Bridge δ) : Prop where
  kernel : b.kernel = none
  ports : ∀ p ∈ b.inputs ++ b.outputs, p.inFlight = []
  queue : (core b.device).queue = []

variable {δ : Type} {core : δ → Accelerator StockKernel} {perCall tokenSize : Nat} {bench : Bench (Bridge δ)}
  {fed drained X : Bytes} {T H D : Nat} {b : Bridge δ} {name : String} {device : δ} {mode : DeviceMode}
  {inPort outPort : LinkPort}

/-- between two rounds nothing is in flight -/
theorem Echoing.nothingInFlight (h : Echoing perCall tokenSize core b X T H D) (hphase : b.phase = .init) :
    NothingInFlight core b ∧ X.length = H * tokenSize := by
  obtain ⟨p, q, m, hin, hout, hk, -, hd, hr⟩ := h.rested hphase
  have hquiet : ∀ {p : BridgePort}, p.Quiet → p.inFlight = [] := fun hq => by
    simp [BridgePort.inFlight, BridgePort.transferEvents, hq.first, hq.second, hq.index]
  refine ⟨⟨hk, fun p' hp' => ?_, hd.queue_eq_nil⟩, by rw [hr.input.length, hr.paired.size]⟩
  rw [hin, hout] at hp'
  rcases mem_pair.1 hp' with rfl | rfl
  · exact hquiet hr.inQuiet
  · exact hquiet hr.outQuiet

/-- where the bytes are when all that was taken has been handed on and nothing is left to take -/
theorem OnBench.delivered [Device δ] (h : OnBench core perCall tokenSize bench fed drained X T H D)
    (hlength : X.length = H * tokenSize) (hempty : bench.inst.availability bench.wires (.input 0) = .ok 0)
    (hDH : D = H) : bench.unread 0 = .ok [] ∧ ∃ rest, bench.undrained 0 = .ok rest ∧ fed = drained ++ rest := by
  obtain ⟨hins, -, ⟨e, f, r, c, l, hin, hX⟩, ⟨f', g, r', c', l', hout, hY⟩, -⟩ := h
  have hfed : fed = l.stream := Option.some.inj hin.fed
  have hdrained : drained = _ := Option.some.inj hout.drained
  -- the reader has come to the end of the stream
  have hend : l.stream.length ≤ r * tokenSize := by
    have havailable := hin.tracks.available_eq hin.reads.released hin.reads.consumed
    simp only [Instance.availability, hin.reader, fetch_eq_ok hin.wire, Checked.ok_bind, havailable] at hempty
    have hpublished : l.published - r = 0 := Except.ok.inj hempty
    rw [hin.tracks.length, hin.size, hin.feeds.settled]
    exact Nat.mul_le_mul_right _ (by omega)
  obtain ⟨view, hunread⟩ := Trial.readBytes_unreleased hin.tracks hin.reads hin.feeds.settled
  obtain ⟨view', hundrained⟩ := Trial.readBytes_unreleased hout.tracks hout.drains hout.writes.settled
  have hall : l'.stream = fed := by
    rw [hY, hDH, ← hlength, take_length, hX, take_of_length_le hend, hfed]
  refine ⟨?_, l'.stream.drop (r' * c'.tokenSize), ?_, ?_⟩
  · rw [hin.size, drop_of_length_le hend] at hunread
    simp only [Bench.unread, fetch_eq_ok hin.reader, fetch_eq_ok hin.wire, Checked.ok_bind, hin.size, hunread]
    rfl
  · simp only [Bench.undrained, hins, fetch_eq_ok hout.drain, fetch_eq_ok hout.wire, Checked.ok_bind, hundrained]
    rfl
  · rw [← hall, hdrained, hout.size, take_append_drop]

/-! ## The beginning -/

theorem Rested.of_fresh {m : Machine StockKernel} {p q : BridgePort} {i j : Nat} (hkernel : m.kernel = .echo perCall)
    (hp : p.Fresh i m.buffers) (hq : q.Fresh j m.buffers) (hij : i + 1 < j)
    (hsize : q.spec.tokenSize = p.spec.tokenSize) (hpword : p.spec.capacity < Word.size32)
    (hqword : q.spec.capacity < Word.size32) : Rested perCall p.spec.tokenSize [] 0 0 0 m p q := by
  have hhead : ∀ {p : BridgePort} {i buffers}, p.Fresh i buffers → p.device.head = 0 % p.spec.capacity := by
    intro p i buffers h
    rw [h.device, Nat.zero_mod]
    rfl
  have hports : EchoPorts p q := by
    have hbuffers := And.intro (And.intro hp.data hp.index) (And.intro hq.data hq.index)
    refine ⟨hsize, ?_, ⟨?_, ?_⟩, ?_, ?_, ?_⟩ <;> grind
  have hechoes : m.Echoes perCall p q [] 0 0 := by
    refine ⟨hkernel, ⟨_, hp.data ▸ hp.ring, rfl, Block.keeps_nil _ _ _⟩, ⟨_, hq.data ▸ hq.ring, rfl, ?_⟩,
      ⟨_, hp.index ▸ hp.word, rfl⟩, _, hq.index ▸ hq.word, rfl⟩
    rw [take_nil]
    exact Block.keeps_nil _ _ _
  refine ⟨⟨hports, rfl, hp.slots, hq.slots⟩, hp.staged hpword, hhead hp, hp.quiet, ?_, hhead hq, hq.quiet, 0, hechoes⟩
  rw [take_nil]
  exact hq.staged hqword

section

variable [Device δ] (hcore : Device.Paces core)
  (hmode : mode = .immediate ∨ mode = .worker true ∨ mode = .stepped false)
  (hdevice : core device = Accelerator.create (.echo perCall) mode) (hsize : outPort.tokenSize = inPort.tokenSize)
  (hin : inPort.capacity < Word.size32) (hout : outPort.capacity < Word.size32)
  (hb : Bridge.create name device [inPort] [outPort] = .ok b)

include hcore hmode hdevice hsize hin hout hb

/-- a new echo bridge rests, on a device that works as it was told to -/
theorem Echoing.of_create : Echoing perCall inPort.tokenSize core b [] 0 0 0 ∧ (core b.device).mode = mode := by
  have hcreated := create_created hcore.reserves (by rw [hdevice]; rfl) hb
  obtain ⟨more, hreserved⟩ := hcreated.reserved
  rw [hdevice] at hreserved
  obtain ⟨p, hp, hpspec⟩ : ∃ p, b.inputs = [p] ∧ p.spec = inPort := by
    simpa [map_eq_singleton_iff] using hcreated.inputs
  obtain ⟨q, hq, hqspec⟩ : ∃ q, b.outputs = [q] ∧ q.spec = outPort := by
    simpa [map_eq_singleton_iff] using hcreated.outputs
  have hpf := hcreated.inFresh (j := 0) (by rw [hp]; rfl)
  have hqf := hcreated.outFresh (o := 0) (by rw [hq]; rfl)
  have hrested : Rested perCall inPort.tokenSize [] 0 0 0 (core b.device).machine p q := by
    subst hpspec hqspec
    exact Rested.of_fresh (by rw [hreserved]; rfl) hpf hqf (by simp) hsize hin hout
  have howes : (core b.device).Owes (core b.device).machine [] := by
    rw [hreserved]
    exact Accelerator.owes_new hmode more
  refine ⟨⟨hcreated.failed, p, q, _, [], hp, hq, howes,
    .init hcreated.phase hcreated.kernel (fun _ => rfl) hrested⟩, ?_⟩
  rw [hreserved]
  rfl

theorem OnBench.start (hbench : bench.New b) : OnBench core perCall inPort.tokenSize bench [] [] [] 0 0 0 := by
  have hcreated := create_created hcore.reserves (by rw [hdevice]; rfl) hb
  obtain ⟨c, e, f, hreader, hfeeder, hwire, hts, htracks, hf, he⟩ := hbench.input (hcreated.input_port (j := 0) rfl)
  obtain ⟨c', e', f', hwriter, hdrain, hwire', hts', htracks', hf', he'⟩ :=
    hbench.output (hcreated.output_port (o := 0) rfl)
  have hinCount : bench.inst.inputs.length = 1 := by
    simpa [Behaviour.interface, interface, hbench.inCount] using congrArg length hcreated.inputs
  have houtCount : bench.inst.outputs.length = 1 := by
    simpa [Behaviour.interface, interface, hbench.outCount] using congrArg length hcreated.outputs
  rw [hinCount] at hwriter hwire'
  refine ⟨hinCount, houtCount, ⟨e, f, 0, c, _, ⟨hreader, hfeeder, hwire, hts, htracks, he, hf, rfl⟩, by simp⟩,
    ⟨f', e', 0, c', _, ⟨hwriter, hdrain, hwire', hts'.trans hsize, htracks', hf', he', by simp⟩,
      by simp [Ledger.fresh]⟩, ?_⟩
  rw [hbench.holds]
  exact (Echoing.of_create hcore hmode hdevice hsize hin hout hb).1

end

/-- in every reachable state the bridge is somewhere in its round -/
theorem OnBench.reached [Device δ] {new : Bench (Bridge δ)} (hcore : Device.Paces core) (hk : 1 ≤ perCall)
    (hnew : OnBench core perCall tokenSize new [] [] [] 0 0 0)
    (h : Bench.Reaches core tokenSize new bench fed drained) :
    ∃ X T H D, OnBench core perCall tokenSize bench fed drained X T H D := by
  induction h with
  | start => exact ⟨[], 0, 0, 0, hnew⟩
  | feed _ hfeed ih =>
    obtain ⟨X, T, H, D, ih⟩ := ih
    exact ⟨X, T, H, D, ih.feed hfeed⟩
  | call _ hcall ih =>
    obtain ⟨X, T, H, D, ih⟩ := ih
    obtain ⟨X', T', H', D', h', -⟩ := ih.call hcore hk hcall
    exact ⟨X', T', H', D', h'⟩
  | work _ hwork ih =>
    obtain ⟨X, T, H, D, ih⟩ := ih
    exact ⟨X, T, H, D, ih.work hwork⟩
  | drain _ hdrain ih =>
    obtain ⟨X, T, H, D, ih⟩ := ih
    exact ⟨X, T, H, D, ih.drain hdrain⟩

end Bridge

/-- a call that blocks with room downstream leaves nothing upstream, on the device or in the staging rings -/
theorem echo_bridge_parks_when_done {δ : Type} [Device δ] {core : δ → Accelerator StockKernel}
    (hcore : Device.Paces core) {name : String} {device : δ} {mode : DeviceMode} {perCall : Nat}
    (inPort outPort : LinkPort) {inDepth outDepth : Nat} {b : Bridge δ} {new before after : Bench (Bridge δ)}
    {fed drained : Bytes} {maxLoops room : Nat} {blocked : List Blocked} {firing : Firing}
    (hmode : mode = .immediate ∨ mode = .worker true ∨ mode = .stepped false)
    (hdevice : core device = Accelerator.create (.echo perCall) mode) (hk : 1 ≤ perCall)
    (hsize : outPort.tokenSize = inPort.tokenSize) (hin : inPort.capacity < Word.size32)
    (hout : outPort.capacity < Word.size32) (hb : Bridge.create name device [inPort] [outPort] = .ok b)
    (hnew : Bench.create b [inDepth] [outDepth] = .ok new)
    (hreached : Bench.Reaches core inPort.tokenSize new before fed drained) (hloops : 1 ≤ maxLoops)
    (hcall : before.call maxLoops = .ok ((.block blocked, firing), after))
    (hroom : after.inst.availability after.wires (.output 0) = .ok room) (hpos : 0 < room) :
    after.inst.availability after.wires (.input 0) = .ok 0 ∧ after.unread 0 = .ok [] ∧
      (∃ rest, after.undrained 0 = .ok rest ∧ fed = drained ++ rest) ∧
      Bridge.NothingInFlight core after.inst.actor := by
  have hstart : Bridge.OnBench core perCall inPort.tokenSize new [] [] [] 0 0 0 := by
    have hcreated := Bridge.create_created hcore.reserves (by rw [hdevice]; rfl) hb
    have hinPorts : (Behaviour.interface b).inputs.length = 1 := by
      simpa [Behaviour.interface, Bridge.interface] using congrArg length hcreated.inputs
    have houtPorts : (Behaviour.interface b).outputs.length = 1 := by
      simpa [Behaviour.interface, Bridge.interface] using congrArg length hcreated.outputs
    exact .start hcore hmode hdevice hsize hin hout hb (Bench.create_eq_ok hnew hinPorts.symm houtPorts.symm)
  obtain ⟨X, T, H, D, hbefore⟩ := Bridge.OnBench.reached hcore hk hstart hreached
  obtain ⟨X', T', H', D', hafter, hblock⟩ := hbefore.call hcore hk hcall
  obtain ⟨hphase, hexhausted⟩ := hblock blocked rfl
  obtain ⟨hempty, hDH⟩ := hexhausted hloops room hroom hpos
  obtain ⟨hquiet, hlength⟩ := hafter.echoing.nothingInFlight hphase
  obtain ⟨hunread, hundrained⟩ := hafter.delivered hlength hempty hDH
  exact ⟨hempty, hunread, hundrained, hquiet⟩

/-- two tokens pass, one at a time, through a bridge whose device carries out one command whenever it is asked for
something and three more between two calls -/
theorem echo_bridge_parks_when_done_paced :
    ∃ (b : Bridge (Paced StockKernel)) (new before after : Bench (Bridge (Paced StockKernel))) (firing : Firing),
      Bridge.create "echo" ⟨Accelerator.create (.echo 1) (.stepped false), List.replicate 60 1⟩
      [⟨"in", 1, 2⟩] [⟨"out", 1, 2⟩] = .ok b ∧
      Bench.create b [4] [4] = .ok new ∧ Bench.Reaches (fun d => d.device) 1 new before [7, 8] [7] ∧
      before.call 8 = .ok ((.block [⟨.input 0, 1⟩], firing), after) ∧
      after.inst.availability after.wires (.output 0) = .ok 3 ∧
      after.inst.availability after.wires (.input 0) = .ok 0 ∧ after.unread 0 = .ok [] ∧
      (∃ rest, after.undrained 0 = .ok rest ∧ [7, 8] = [7] ++ rest) ∧
      Bridge.NothingInFlight (fun d => d.device) after.inst.actor := by
  have hrun : (do
      let b ← (Bridge.create "echo" (⟨Accelerator.create (.echo 1) (.stepped false), replicate 60 1⟩ :
        Paced StockKernel) [⟨"in", 1, 2⟩] [⟨"out", 1, 2⟩]).toOption
      let new ← (Bench.create b [4] [4]).toOption
      let fed ← (new.feed 0 [7, 8]).toOption
      let first ← (fed.2.call 8).toOption
      let second ← ((first.2.putDevice
        ⟨(first.2.inst.actor.device.device.stepQueue 3).2, first.2.inst.actor.device.pace⟩).call 8).toOption
      let third ← (second.2.call 8).toOption
      let drained ← (third.2.drain 0 1).toOption
      let last ← (drained.2.call 8).toOption
      let room ← (last.2.inst.availability last.2.wires (.output 0)).toOption
      return (fed.1, drained.1, last.1.1, room)) = some (2, [7], .block [⟨.input 0, 1⟩], 3) := by decide +kernel
  obtain ⟨b, hb, hrun⟩ := Option.bind_eq_some_iff.1 hrun
  obtain ⟨new, hnew, hrun⟩ := Option.bind_eq_some_iff.1 hrun
  obtain ⟨⟨n, fed⟩, hfed, hrun⟩ := Option.bind_eq_some_iff.1 hrun
  obtain ⟨⟨answer, first⟩, hfirst, hrun⟩ := Option.bind_eq_some_iff.1 hrun
  obtain ⟨⟨answer2, second⟩, hsecond, hrun⟩ := Option.bind_eq_some_iff.1 hrun
  obtain ⟨⟨answer3, third⟩, hthird, hrun⟩ := Option.bind_eq_some_iff.1 hrun
  obtain ⟨⟨bytes, before⟩, hdrain, hrun⟩ := Option.bind_eq_some_iff.1 hrun
  obtain ⟨⟨⟨exit, firing⟩, after⟩, hlast, hrun⟩ := Option.bind_eq_some_iff.1 hrun
  obtain ⟨room, hroom, hrun⟩ := Option.bind_eq_some_iff.1 hrun
  obtain ⟨rfl, rfl, rfl, rfl⟩ := hrun
  have hreached : Bench.Reaches (fun d : Paced StockKernel => d.device) 1 new before
    ([] ++ [7, 8].take (2 * 1)) ([] ++ [7]) :=
    .drain (.call (.call (.work (.call (.feed .start (eq_ok_of_toOption hfed)) (eq_ok_of_toOption hfirst)) rfl)
      (eq_ok_of_toOption hsecond)) (eq_ok_of_toOption hthird)) (eq_ok_of_toOption hdrain)
  have hb := eq_ok_of_toOption hb
  have hnew := eq_ok_of_toOption hnew
  have hlast := eq_ok_of_toOption hlast
  have hroom := eq_ok_of_toOption hroom
  have hword : 2 < Word.size32 := by decide
  exact ⟨b, new, before, after, firing, hb, hnew, hreached, hlast, hroom, echo_bridge_parks_when_done Paced.paces
    ⟨"in", 1, 2⟩ ⟨"out", 1, 2⟩ (.inr (.inr rfl)) rfl le_rfl rfl hword hword hb hnew hreached
    (by decide) hlast hroom (by decide)⟩

end Dataflow
