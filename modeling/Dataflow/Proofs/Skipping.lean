import Dataflow.Proofs.BridgePatience
import Dataflow.Proofs.EagerRuns

/-!
Passing over blocked instances cannot be observed. Stock actors and bridges (`Shipped`) keep the laws of `Patience`, and
so do actors that have these among their own (`Shipped.Hosts`).

- `skipping_is_unobservable`: where an instance is passed over since the ports that it waits for are unchanged, a call
  of it would leave the ports and, but for the counter of a sink, the actor with its device as they are, and block on
  the same ports. So a run that passes over nobody but those who have terminated leads to the same connections by the
  same calls that fire (`Network.runEager`).
- Witness `skipping_is_unobservable_relay`.

Premises: actors are as created (`Shipped.New`) and work through their ports; calls may fire.
-/

namespace Dataflow

open List

/-! ## Stock actors -/

section Stock

variable {n m : Nat} {p new : Ports} {named : List Blocked}

theorem Source.act_parks (s : Source) (hexit : (s.act n p).exit = .ok (.block named))
    (h : (s.act n p).ports.Resumes new named) (hm : 1 ≤ m) :
    (s.act n p).actor.act m new = ⟨(s.act n p).actor, new, .ok (.block named)⟩ := by
  obtain ⟨rfl, hnext, hroom⟩ := s.act_blocks hexit
  obtain ⟨value, hnext⟩ := Option.isSome_iff_exists.1 hnext
  have hroom : new.hasRoom 0 1 = .ok false := by
    rw [Ports.hasRoom, h.namedOut mem_cons_self, hroom]
    rfl
  obtain ⟨k, rfl⟩ := Nat.exists_eq_add_of_le' hm
  simp only [Source.act, hnext, hroom]
  rfl

theorem Scale.act_parks (s : Scale) (hexit : (s.act n p).exit = .ok (.block named))
    (h : (s.act n p).ports.Resumes new named) (hm : 1 ≤ m) :
    (s.act n p).actor.act m new = ⟨(s.act n p).actor, new, .ok (.block named)⟩ := by
  obtain ⟨k, rfl⟩ := Nat.exists_eq_add_of_le' hm
  rcases s.act_blocks hexit with ⟨rfl, hinput⟩ | ⟨rfl, hroom, level, hinput, hlevel⟩
  · have hinput : new.hasInput 0 1 = .ok false := by
      rw [Ports.hasInput, h.namedIn mem_cons_self, hinput]
      rfl
    simp only [Scale.act, hinput]
    rfl
  · -- the input is not named, but nobody else takes tokens from it
    obtain ⟨havailable, hleft⟩ := h.availableIn hinput
    have hmore := h.others (.input 0)
    have hinput : new.hasInput 0 1 = .ok true := by
      rw [Ports.hasInput, havailable]
      exact congrArg Except.ok (decide_eq_true (by omega))
    have hroom : new.hasRoom 0 1 = .ok false := by
      rw [Ports.hasRoom, h.namedOut mem_cons_self, hroom]
      rfl
    simp only [Scale.act, hinput, hroom]
    rfl

theorem Sink.act_parks (s : Sink) (hexit : (s.act n p).exit = .ok (.block named))
    (h : (s.act n p).ports.Resumes new named) (hm : 1 ≤ m) : (s.act n p).actor.act m new =
      ⟨{ (s.act n p).actor with blocks := (s.act n p).actor.blocks + 1 }, new, .ok (.block named)⟩ := by
  obtain ⟨rfl, hfull, hinput⟩ := s.act_blocks hexit
  have hinput : new.hasInput 0 1 = .ok false := by
    rw [Ports.hasInput, h.namedIn mem_cons_self, hinput]
    rfl
  obtain ⟨k, rfl⟩ := Nat.exists_eq_add_of_le' hm
  simp only [Sink.act, hfull, hinput]
  rfl

/-- a sink does the same whatever its counter says -/
theorem Sink.act_onBlocks (n : Nat) (s : Sink) (blocks : UInt32) (p : Ports) :
    (∃ blocks', (Sink.act n { s with blocks } p).actor = { (s.act n p).actor with blocks := blocks' }) ∧
      (Sink.act n { s with blocks } p).ports = (s.act n p).ports ∧
      (Sink.act n { s with blocks } p).exit = (s.act n p).exit := by
  induction n generalizing s p with
  | zero => exact ⟨⟨blocks, rfl⟩, rfl, rfl⟩
  | succ n ih =>
    have hfull : Sink.full { s with blocks } = s.full := rfl
    simp only [Sink.act, hfull]
    cases s.full with
    | true => exact ⟨⟨blocks, rfl⟩, rfl, rfl⟩
    | false =>
      cases p.hasInput 0 1 with
      | error f => exact ⟨⟨blocks, rfl⟩, rfl, rfl⟩
      | ok answer =>
        cases answer with
        | false => exact ⟨⟨blocks + 1, rfl⟩, rfl, rfl⟩
        | true =>
          cases p.read 0 .int32 with
          | error f => exact ⟨⟨blocks, rfl⟩, rfl, rfl⟩
          | ok read => exact ih { s with tokens := s.tokens.push read.1 } (read.2.fire 0)

end Stock

/-! ## The actors at hand, over any device -/

/-- a stock actor, or a bridge over a device of the kind `δ` -/
inductive Shipped (δ : Type) where
  | source (s : Source)
  | scale (s : Scale)
  | sink (s : Sink)
  | bridge (b : Bridge δ)

namespace Shipped

variable {δ : Type} {x y z : Shipped δ}

/-- an actor as it is before its first call -/
def New [Device δ] : Shipped δ → Prop
  | .bridge b => ∃ name device inputs outputs, Bridge.create name device inputs outputs = .ok b
  | _ => True

/-- the device of a bridge may do anything between two calls -/
inductive Drift : Shipped δ → Shipped δ → Prop where
  | refl (x : Shipped δ) : Drift x x
  | device (b : Bridge δ) (device : δ) : Drift (.bridge b) (.bridge { b with device })

/-- the actor without the counter of a sink -/
def uncounted : Shipped δ → Shipped δ
  | .sink s => .sink { s with blocks := 0 }
  | x => x

/-- what is known of an actor that has been called -/
def Fit : Shipped δ → Prop
  | .bridge b => b.Fit
  | _ => True

theorem Drift.trans (h : x.Drift y) (h' : y.Drift z) : x.Drift z := by
  cases h with
  | refl => exact h'
  | device b d =>
    cases h' with
    | refl => exact .device b d
    | device _ d' => exact .device b d'

theorem Fit.drift (h : x.Fit) (hdrift : x.Drift y) : y.Fit := by
  cases hdrift with
  | refl => exact h
  | device b d => exact Bridge.Fit.onDevice h d

/-- actors that differ in nothing but the counter are the same, or sinks -/
theorem eq_or_sink_of_uncounted (h : x.uncounted = y.uncounted) :
    x = y ∨ ∃ s blocks, x = .sink s ∧ y = .sink { s with blocks } := by
  cases x with
  | sink s =>
    cases y with
    | sink t =>
      simp only [uncounted, sink.injEq, Sink.mk.injEq] at h
      exact .inr ⟨s, t.blocks, rfl, by rw [h.1, h.2.1]⟩
    | source t | scale t | bridge t => cases h
  | source s | scale s | bridge s =>
    cases y with
    | sink t => cases h
    | source t | scale t | bridge t => exact .inl h

variable [Device δ] {n m : Nat} {p new : Ports} {named : List Blocked}

def interface : Shipped δ → Interface
  | .source _ => Source.interface
  | .scale _ => Scale.interface
  | .sink _ => Sink.interface
  | .bridge b => b.interface

def act (maxLoops : Nat) (x : Shipped δ) (ports : Ports) : Turn (Shipped δ) :=
  match x with
  | .source s => (s.act maxLoops ports).map .source
  | .scale s => (s.act maxLoops ports).map .scale
  | .sink s => (s.act maxLoops ports).map .sink
  | .bridge b => (b.act maxLoops ports).map .bridge

instance : Behaviour (Shipped δ) := ⟨interface, act⟩

theorem New.fit (h : x.New) : x.Fit := by
  cases x with
  | bridge b =>
    obtain ⟨name, device, inputs, outputs, hcreate⟩ := h
    exact .inr (Bridge.Fresh.of_create hcreate).regular
  | source s | scale s | sink s => trivial

theorem Fit.act (h : x.Fit) {exit : Exit} (hexit : (x.act n p).exit = .ok exit) : (x.act n p).actor.Fit := by
  cases x with
  | bridge b => exact Bridge.Fit.act h hexit
  | source s | scale s | sink s => trivial

/-- a call does the same whatever the counter says -/
theorem act_uncounted (n : Nat) (p : Ports) (h : x.uncounted = y.uncounted) :
    (x.act n p).actor.uncounted = (y.act n p).actor.uncounted ∧ (y.act n p).ports = (x.act n p).ports ∧
      (y.act n p).exit = (x.act n p).exit := by
  rcases eq_or_sink_of_uncounted h with rfl | ⟨s, blocks, rfl, rfl⟩
  · exact ⟨rfl, rfl, rfl⟩
  · obtain ⟨⟨blocks', hactor⟩, hports, hexit⟩ := s.act_onBlocks n blocks p
    refine ⟨?_, hports, hexit⟩
    change uncounted (.sink (s.act n p).actor) = uncounted (.sink (Sink.act n { s with blocks } p).actor)
    rw [hactor]
    rfl

/-- a call that blocked is followed by calls that block -/
theorem act_parks (h : x.Fit) (hn : 1 ≤ n) (hexit : (x.act n p).exit = .ok (.block named))
    (hdrift : (x.act n p).actor.Drift y) (hresumes : (x.act n p).ports.Resumes new named) (hm : 1 ≤ m) :
    ∃ z, y.act m new = ⟨z, new, .ok (.block named)⟩ ∧ y.uncounted = z.uncounted := by
  cases x with
  | source s =>
    cases hdrift
    exact ⟨_, congrArg (Turn.map source) (s.act_parks hexit hresumes hm), rfl⟩
  | scale s =>
    cases hdrift
    exact ⟨_, congrArg (Turn.map scale) (s.act_parks hexit hresumes hm), rfl⟩
  | sink s =>
    cases hdrift
    exact ⟨_, congrArg (Turn.map sink) (s.act_parks hexit hresumes hm), rfl⟩
  | bridge b =>
    have hparks := fun d => congrArg (Turn.map bridge) (Bridge.act_parks h hn hexit hresumes d hm)
    cases hdrift with
    | refl => exact ⟨_, hparks (b.act n p).actor.device, rfl⟩
    | device _ d => exact ⟨_, hparks d, rfl⟩

/-! ## Among other actors -/

/-- `f` puts the actors at hand among those of the kind `σ`, where they act as they do on their own -/
structure Hosts {σ : Type} [Behaviour σ] (f : Shipped δ → σ) : Prop where
  injective : Function.Injective f
  act : ∀ n x p, Behaviour.act n (f x) p = (x.act n p).map f

/-- an actor at hand changes by its device; nothing is said of others -/
def Drifts {σ : Type} (f : Shipped δ → σ) (a a' : σ) : Prop := ∀ x, a = f x → ∃ y, a' = f y ∧ x.Drift y

/-- actors at hand that differ in nothing but the counter of a sink -/
def Same {σ : Type} (f : Shipped δ → σ) (a a' : σ) : Prop := ∃ x y, a = f x ∧ a' = f y ∧ x.uncounted = y.uncounted

/-- the actors at hand are patient, wherever they are put -/
def Hosts.patience {σ : Type} [Behaviour σ] {f : Shipped δ → σ} (hf : Hosts f) : Patience σ where
  fit a := ∃ x, a = f x ∧ x.Fit
  drift := Drifts f
  same := Same f
  drift_refl a x hx := ⟨x, hx, .refl x⟩
  drift_trans hab hbc x hx := by
    obtain ⟨y, hy, hxy⟩ := hab x hx
    obtain ⟨z, hz, hyz⟩ := hbc y hy
    exact ⟨z, hz, hxy.trans hyz⟩
  same_refl := by
    rintro a ⟨x, rfl, -⟩
    exact ⟨x, x, rfl, rfl, rfl⟩
  same_trans := by
    rintro a b c ⟨x, y, rfl, rfl, hxy⟩ ⟨y', z, hy, rfl, hyz⟩
    cases hf.injective hy
    exact ⟨x, z, rfl, rfl, hxy.trans hyz⟩
  fit_drift := by
    rintro a b ⟨x, rfl, hx⟩ hdrift
    obtain ⟨y, rfl, hxy⟩ := hdrift x rfl
    exact ⟨y, rfl, hx.drift hxy⟩
  fit_act := by
    rintro n a p exit ⟨x, rfl, hx⟩ hexit
    rw [hf.act] at hexit ⊢
    exact ⟨_, rfl, hx.act hexit⟩
  same_act := by
    rintro a b n p ⟨x, y, rfl, rfl, hxy⟩
    rw [hf.act, hf.act]
    obtain ⟨hactor, hports, hexit⟩ := act_uncounted n p hxy
    exact ⟨⟨_, _, rfl, rfl, hactor⟩, hports, hexit⟩
  parks := by
    rintro n a b p new named ⟨x, rfl, hx⟩ hn hexit hdrift hresumes m hm
    rw [hf.act] at hexit hdrift hresumes
    obtain ⟨y, rfl, hxy⟩ := hdrift _ rfl
    obtain ⟨z, hz, hyz⟩ := act_parks hx hn hexit hxy hresumes hm
    exact ⟨f z, by rw [hf.act, hz]; rfl, y, z, rfl, rfl, hyz⟩

end Shipped

/-- a call that is not made would change nothing, and a run that makes it fires the same calls -/
theorem skipping_is_unobservable {δ σ : Type} [Device δ] [Behaviour σ] (hports : Behaviour.ThroughPorts σ)
    {f : Shipped δ → σ} (hf : Shipped.Hosts f) {b : Builder σ} (hmade : b.Made) {mapping : Option Mapping}
    {n : Network σ} (hbuild : b.build mapping = .ok n) :
    (∀ {k : Nat} {inst : Instance σ} {x : Shipped δ} {W : PortOverlap σ} {s : PortWorker σ},
      n.instances[k]? = some inst → inst.actor = f x → x.New →
      (PortOverlap.start n).Reaches 1 (Shipped.Drifts f) W → W.workers[k]? = some s → s.moment.idle = true →
      s.inst.stillBlocked W.wires = .ok true → ∀ maxLoops, 1 ≤ maxLoops →
      ∃ y z ports named, s.inst.actor = f y ∧ s.inst.openPorts W.wires = .ok ports ∧
        s.inst.waiting = some (named.map fun b => (b.port, ports.left b.port)) ∧
        Behaviour.act maxLoops s.inst.actor ports = ⟨f z, ports, .ok (.block named)⟩ ∧ z.uncounted = y.uncounted) ∧
    ((∀ inst ∈ n.instances, ∃ x : Shipped δ, inst.actor = f x ∧ x.New) →
      ∀ (config : RunConfig) (fuel : Nat), 1 ≤ config.loopMax →
      (n.runInline config fuel).Alike (Shipped.Same f) (n.runEager config fuel)) ∧
    ∀ (inst : Instance σ) (wires : List Connection) (maxLoops : Nat),
      (inst.forget.attempt wires maxLoops).2.2 = .ok .skipped → inst.terminated = true := by
  refine ⟨fun {k inst x W s} hinst hx hnew hreach hs hidle hblocked maxLoops hloops => ?_,
    fun hall config fuel hloops => ?_, Instance.attempt_forget⟩
  · have hsound := PortOverlap.sound_start hmade hbuild
    have hstart : (PortOverlap.start n).workers[k]? = some { inst } := by simp [PortOverlap.start, hinst]
    have hfit : hf.patience.fit inst.actor := ⟨x, hx, hnew.fit⟩
    have hrecalls := PortWorker.recalls_new hbuild (mem_of_getElem? hinst) hfit (PortOverlap.start n).wires
      (PortOverlap.start n).tally
    obtain ⟨s', hs', hrecalls'⟩ :=
      (PortOverlap.keeps_recalls hf.patience hports).reaches hports hsound hreach hstart hrecalls
    cases hs.symm.trans hs'
    obtain ⟨ports, named, actor, hopen, hwaiting, -, hact, y, z, hy, rfl, hyz⟩ :=
      hrecalls'.stays ((hsound.reaches hports hreach).holds hs) hidle hblocked hloops
    exact ⟨y, z, ports, named, hy, hopen, hwaiting, hact, hyz.symm⟩
  · refine Network.runEager_alike hf.patience hports hmade hbuild (fun inst hinst => ?_) hloops fuel
    obtain ⟨x, hx, hnew⟩ := hall inst hinst
    exact ⟨x, hx, hnew.fit⟩

/-! ## An instance -/

/-- a stock actor or a bridge over a simulated accelerator as a component -/
def Component.ofShipped : Shipped (Accelerator StockKernel) → Component
  | .source s => .source s
  | .scale s => .scale s
  | .sink s => .sink s
  | .bridge b => .bridge b

theorem Component.hosts_ofShipped : Shipped.Hosts Component.ofShipped where
  injective x y h := by cases x <;> cases y <;> cases h <;> rfl
  act n x p := by cases x <;> rfl

/-- an echo bridge with rings of two slots -/
def relayBridge : StockBridge :=
  (Bridge.create "echo" (Accelerator.create (.echo 1) .immediate) [⟨"in", 4, 2⟩] [⟨"out", 4, 2⟩]).toOption.get
    (by decide +kernel)

/-- three numbers through an echo bridge, over connections of one slot; the bridge has a partition of its own -/
def relay : Builder Component where
  instances := [⟨"numbers", .source { feed := .range 1 3 }, none⟩, ⟨"echo", .bridge relayBridge, some "apart"⟩,
    ⟨"all", .sink {}, none⟩]
  links := [⟨⟨0, 0⟩, ⟨1, 0⟩, some 1⟩, ⟨⟨1, 0⟩, ⟨2, 0⟩, some 1⟩]

theorem relay_made : relay.Made := Builder.made_of_again (b := relay) rfl

def relayNetwork : Network Component := (relay.build none).toOption.getD ⟨[], [], []⟩

/-- the relay when one number has come through and the next is held up behind it -/
def relayWaits : PortOverlap Component := (PortOverlap.start relayNetwork).run
  (List.replicate 6 (0, 8) ++ List.replicate 21 (2, 8) ++ List.replicate 6 (0, 8) ++ List.replicate 21 (2, 8))

/-- a bridge that waits for both of its ports would block on both again, and a run in which it is always asked fires the
same calls -/
theorem skipping_is_unobservable_relay :
    (∃ s ports z named, relayWaits.workers[2]? = some s ∧ s.inst.waiting = some [(.input 0, 0), (.output 0, 0)] ∧
      s.inst.stillBlocked relayWaits.wires = .ok true ∧ s.inst.openPorts relayWaits.wires = .ok ports ∧
      Behaviour.act 5 s.inst.actor ports = ⟨z, ports, .ok (.block named)⟩ ∧
      named.map (·.port) = [.input 0, .output 0]) ∧
    (relayNetwork.runEager {} 20).records = (relayNetwork.runInline {} 20).records ∧
    (relayNetwork.runEager {} 20).network.wires = (relayNetwork.runInline {} 20).network.wires := by
  have hbuild : relay.build none = .ok relayNetwork := rfl
  have hbridge : Shipped.New (.bridge relayBridge) :=
    ⟨"echo", Accelerator.create (.echo 1) .immediate, _, _, eq_ok_of_toOption (Option.some_get _).symm⟩
  have hinstances : relayNetwork.instances.map (·.actor) = [.source { feed := .range 1 3 },
    .sink {}, .bridge relayBridge] := rfl
  have hreach : (PortOverlap.start relayNetwork).Reaches 1 (Shipped.Drifts Component.ofShipped) relayWaits :=
    PortOverlap.reaches_run _ (by decide)
  have hs : relayWaits.workers[2]?.map
    (fun s => (s.moment.idle, s.inst.waiting, (s.inst.stillBlocked relayWaits.wires).toOption)) =
      some (true, some [(.input 0, 0), (.output 0, 0)], some true) := by decide +kernel
  obtain ⟨s, hs, hfacts⟩ := Option.map_eq_some_iff.1 hs
  simp only [Prod.mk.injEq] at hfacts
  obtain ⟨hidle, hwaiting, hblocked⟩ := hfacts
  have hblocked := eq_ok_of_toOption hblocked
  obtain ⟨hcall, hruns, -⟩ :=
    skipping_is_unobservable Component.throughPorts Component.hosts_ofShipped relay_made hbuild
  obtain ⟨inst, hinst, hactor⟩ := Option.map_eq_some_iff.1 ((getElem?_map ..).symm.trans (congrArg (·[2]?) hinstances))
  obtain ⟨y, z, ports, named, -, hopen, hnamed, hact, -⟩ :=
    hcall (x := .bridge relayBridge) hinst hactor hbridge hreach hs hidle hblocked 5 (by decide)
  refine ⟨⟨s, ports, _, named, hs, hwaiting, hblocked, hopen, hact, ?_⟩, ?_⟩
  · have hports := congrArg (map Prod.fst) (Option.some.inj (hnamed.symm.trans hwaiting))
    rw [map_map] at hports
    exact hports
  · have halike := hruns (fun inst hinst => ?_) {} 20 (by decide)
    · exact ⟨halike.records, halike.network.wires⟩
    · have hactor : inst.actor ∈ relayNetwork.instances.map (·.actor) := mem_map_of_mem hinst
      rw [hinstances] at hactor
      simp only [mem_cons, not_mem_nil, or_false] at hactor
      rcases hactor with h | h | h
      · exact ⟨.source _, h, trivial⟩
      · exact ⟨.sink _, h, trivial⟩
      · exact ⟨.bridge _, h, hbridge⟩

end Dataflow
