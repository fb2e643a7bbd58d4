import Dataflow.Proofs.QuiescenceDetection
import Dataflow.Proofs.StockCalls

/-!
A run on one thread that ends quiescent has come to rest.

- `inline_quiescence_is_a_fixpoint`: after such a run, from any state and with any settings, every instance is
  terminated or waits for ports each of which still has what the instance saw there. A further run, with any settings
  that allow a pass, makes one pass over each partition, calls nobody, changes nothing but the counts of passed over
  instances, and ends quiescent.
- Witness `inline_quiescence_is_a_fixpoint_round_trip`.

Premises: actors work through their ports, and are orderly (`Instance.Orderly`), as stock actors are
(`Component.orderly_plain`).
-/

namespace Dataflow

open List

/-! ## Orderly instances -/

/-- instances that satisfy `P` go on to satisfy it, and all their attempts with at most `loopMax` firings are orderly:
they move tokens only when they fire, and do not wait for an empty list of ports -/
def Instance.Orderly {σ : Type} [Behaviour σ] (loopMax : Nat) (P : Instance σ → Prop) : Prop :=
  ∀ inst wires, P inst → P (inst.attempt wires loopMax).2.1 ∧
    ∀ answer, (inst.attempt wires loopMax).2.2 = .ok answer → answer.orderly = true

/-- a call that fires whenever it touches its ports, and no more often than it may, makes an orderly attempt -/
theorem Instance.orderly_of_spends {σ : Type} [Behaviour σ] {loopMax : Nat} (hloops : loopMax < Word.size32)
    {P : σ → Prop}
    (hact : ∀ a p, P a → P (Behaviour.act loopMax a p).actor ∧ ∀ exit, (Behaviour.act loopMax a p).exit = .ok exit →
      p.Spends loopMax exit (Behaviour.act loopMax a p).ports ∧ exit ≠ .block []) :
    Instance.Orderly loopMax fun inst : Instance σ => P inst.actor := by
  intro inst wires hinst
  unfold Instance.attempt
  split
  · exact ⟨hinst, by rintro answer ⟨⟩; rfl⟩
  split
  · exact ⟨hinst, nofun⟩
  · exact ⟨hinst, by rintro answer ⟨⟩; rfl⟩
  split
  · exact ⟨hinst, nofun⟩
  next ports hopen =>
  obtain ⟨hactor, hspends⟩ := hact inst.actor ports hinst
  obtain ⟨hin, hout⟩ := Instance.openPorts_still hopen
  obtain ⟨-, -, -, hnone⟩ := Instance.openPorts_eq_ok hopen
  generalize Behaviour.act loopMax inst.actor ports = turn at hactor hspends
  unfold Instance.settle
  dsimp only
  split
  · exact ⟨hactor, nofun⟩
  next exit hexit =>
  refine ⟨hactor, ?_⟩
  rintro answer ⟨⟩
  obtain ⟨hports, hblock⟩ := hspends exit hexit
  rcases hports.stirs with hsame | hfired
  · -- freshly opened ports through which nothing went
    have hstill : ports.firing.movedTokens = false := by
      simp only [Firing.movedTokens, Ports.firing, Bool.or_eq_false_iff, any_map, any_eq_false, Function.comp_apply,
        bne_iff_ne, ne_eq, not_not]
      exact ⟨hin, hout⟩
    simp [Attempt.orderly, hsame, hstill, hblock]
  · have hmost : turn.ports.actions.size ≤ loopMax := by simpa [hnone] using hports.most
    have hsome : turn.ports.firing.fired ≠ 0 := by
      rw [Firing.fired_eq (hmost.trans_lt hloops)]
      exact Nat.ne_of_gt (Nat.zero_lt_of_lt hfired)
    simp [Attempt.orderly, hsome, hblock]

/-- a stock actor that works on its own ports only -/
def Component.plain : Component → Bool
  | .source _ | .scale _ | .sink _ => true
  | _ => false

variable {a : Component} {p : Ports}

theorem Component.act_spends (ha : a.plain = true) {n : Nat} {exit : Exit}
    (h : (Behaviour.act n a p).exit = .ok exit) : p.Spends n exit (Behaviour.act n a p).ports := by
  cases a with
  | source s | scale s | sink s => exact s.act_spends h
  | bridge b | script s => cases ha

theorem Component.act_ne_block_nil (ha : a.plain = true) {n : Nat} :
    (Behaviour.act n a p).exit ≠ .ok (.block []) := by
  intro h
  cases a with
  | source s | sink s => exact cons_ne_nil _ _ (s.act_blocks h).1.symm
  | scale s => rcases s.act_blocks h with h | h <;> exact cons_ne_nil _ _ h.1.symm
  | bridge b | script s => cases ha

theorem Component.plain_act (ha : a.plain = true) (n : Nat) (p : Ports) :
    (Behaviour.act n a p).actor.plain = true := by
  cases a with
  | source s | scale s | sink s => rfl
  | bridge b | script s => cases ha

theorem Component.orderly_plain {loopMax : Nat} (hloops : loopMax < Word.size32) :
    Instance.Orderly loopMax fun inst : Instance Component => inst.actor.plain = true := by
  refine Instance.orderly_of_spends hloops (P := fun a : Component => a.plain = true) fun a p ha => ?_
  refine ⟨plain_act ha loopMax p, fun exit hexit => ⟨act_spends ha hexit, ?_⟩⟩
  rintro rfl
  exact act_ne_block_nil ha hexit

namespace Network

/-- the network after a round in which everybody was passed over -/
def passedOver {σ : Type} (n : Network σ) : Network σ :=
  { n with partitions := n.partitions.map fun p => { p with instances := p.instances.map Instance.passedOver } }

variable {σ : Type} [Behaviour σ] {wires : List Connection} {n : Network σ}

/-! ## Rounds in which nobody can go on -/

theorem pass_idle (name : String) (loopMax : Nat) {insts : List (Instance σ)} (h : ∀ inst ∈ insts, inst.Idle wires) :
    pass name loopMax wires insts = ⟨wires, insts.map Instance.passedOver, {}, none⟩ := by
  induction insts with
  | nil => rfl
  | cons inst rest ih =>
    have hfirst := (h inst mem_cons_self).attempt_eq loopMax
    have hrest := ih fun x hx => h x (mem_cons_of_mem inst hx)
    rw [Overlap.pass_cons hfirst, hrest]
    rfl

theorem round_idle (loopMax : Nat) {partitions : List (Partition σ)} {stats : List PartitionStats}
    (hlen : stats.length = partitions.length) (h : ∀ p ∈ partitions, ∀ inst ∈ p.instances, inst.Idle wires) :
    round loopMax wires partitions stats =
      ⟨wires, partitions.map fun p => { p with instances := p.instances.map Instance.passedOver },
        stats.map fun s => { s with passes := s.passes + 1 }, false, [], none⟩ := by
  induction partitions generalizing stats with
  | nil =>
    obtain rfl := eq_nil_of_length_eq_zero hlen
    rfl
  | cons p partitions ih =>
    obtain ⟨s, stats, rfl⟩ := exists_cons_of_length_eq_add_one hlen
    have hpass := pass_idle p.name loopMax (h p mem_cons_self)
    have hrest := ih (by simpa using hlen) fun q hq => h q (mem_cons_of_mem p hq)
    rw [Overlap.round_cons (by rw [hpass]), hpass]
    simp only [hrest]
    rfl

omit [Behaviour σ] in
theorem allTerminated_passedOver (n : Network σ) : n.passedOver.allTerminated = n.allTerminated := by
  simp [allTerminated, passedOver, Partition.allTerminated, all_map, Function.comp_def, Instance.passedOver]

/-- with everybody idle and somebody not terminated, a run makes one round and calls nobody -/
theorem runInline_idle {config : RunConfig} (fuel : Nat) (hidle : ∀ inst ∈ n.instances, inst.Idle n.wires)
    (hall : n.allTerminated = false) (hlimit : config.maxPasses ≠ some 0) :
    n.runInline config (fuel + 1) = ⟨n.passedOver, [], .finished
      { outcome := .quiescent, partitions := n.partitions.map fun p => { name := p.name, passes := 1 } }⟩ := by
  have hlen : n.freshStats.length = n.partitions.length := by simp [freshStats]
  have hround := round_idle config.loopMax hlen fun p hp inst hinst =>
    hidle inst (mem_flatMap.2 ⟨p, hp, hinst⟩)
  have hpasses : config.maxPasses.any (· ≤ 0) = false := by
    cases hmax : config.maxPasses with
    | none => rfl
    | some most =>
      rw [hmax] at hlimit
      simpa [Nat.pos_iff_ne_zero] using hlimit
  have hall' := (allTerminated_passedOver n).trans hall
  unfold passedOver at hall'
  simp only [runInline, runRounds, id, hpasses, Bool.false_eq_true, if_false, hround, hall']
  simp [passedOver, freshStats, Function.comp_def]

end Network

/-! ## The last round -/

namespace Overlap

variable {σ : Type} [Behaviour σ] {loopMax : Nat}

theorem keeps_orderly {P : Instance σ → Prop} (hP : Instance.Orderly loopMax P) :
    Keeps loopMax false (fun F : Overlap σ => ∀ x ∈ F.workers, P x.inst) fun _ => True := by
  intro F k inst inst' wires answer hQ hworker hattempt _
  refine ⟨fun x hx => ?_, trivial⟩
  rcases mem_or_eq_of_mem_set hx with hx | rfl
  · exact hQ x hx
  · have hown := (hP inst F.wires (hQ _ (mem_of_getElem? hworker))).1
    rw [hattempt] at hown
    exact hown

/-- attempts of orderly instances without progress change no level, and each leaves its own instance idle at these
levels -/
theorem keeps_levels (hports : Behaviour.ThroughPorts σ) {P : Instance σ → Prop} (hP : Instance.Orderly loopMax P)
    (levels : List (Nat × UInt32 × List UInt32)) :
    Keeps loopMax true (fun F : Overlap σ => F.wires.map Connection.levels = levels ∧ ∀ x ∈ F.workers, P x.inst)
      fun inst => ∀ wires : List Connection, wires.map Connection.levels = levels → inst.Idle wires := by
  rintro F k inst inst' wires answer ⟨hlevels, hQ⟩ hworker hattempt hquiet
  have horderly : answer.orderly = true := by
    have hall := (hP inst F.wires (hQ _ (mem_of_getElem? hworker))).2
    rw [hattempt] at hall
    exact hall answer rfl
  obtain ⟨hidle, hsame⟩ := Instance.attempt_rests hports hattempt horderly (hquiet rfl)
  refine ⟨⟨hsame.trans hlevels, (keeps_orderly hP hQ hworker hattempt nofun).1⟩, fun wires' hwires' => ?_⟩
  exact hidle.congr (hwires'.trans (hsame.trans hlevels).symm) rfl rfl rfl rfl

end Overlap

/-- Quiescence is a fixpoint: a further run calls nobody and changes nothing that matters. -/
theorem inline_quiescence_is_a_fixpoint {σ : Type} [Behaviour σ] (hports : Behaviour.ThroughPorts σ)
    {P : Instance σ → Prop} {config : RunConfig} (hP : Instance.Orderly config.loopMax P) {fuel : Nat} {n : Network σ}
    {summary : RunSummary} (hn : ∀ inst ∈ n.instances, P inst)
    (hend : (n.runInline config fuel).ended = .finished summary) (hquiescent : summary.outcome = .quiescent) :
    (∀ inst ∈ (n.runInline config fuel).network.instances, inst.terminated = true ∨
      ∃ ports, inst.waiting = some ports ∧ ports ≠ [] ∧
        ∀ b ∈ ports, inst.availability (n.runInline config fuel).network.wires b.1 = .ok b.2) ∧
    ∀ (again : RunConfig) (fuel' : Nat), again.maxPasses ≠ some 0 →
      (n.runInline config fuel).network.runInline again (fuel' + 1) =
        ⟨(n.runInline config fuel).network.passedOver, [], .finished
          { outcome := .quiescent
            partitions := (n.runInline config fuel).network.partitions.map fun p =>
            { name := p.name, passes := 1 } }⟩ := by
  have hlen : n.freshStats.length = n.partitions.length := by simp [Network.freshStats]
  have hstart : ∀ x ∈ (Overlap.start n).workers, P x.inst := by
    intro x hx
    obtain ⟨inst, hinst, rfl⟩ := mem_map.1 hx
    exact hn inst hinst
  obtain ⟨before, stats, hbefore, hlast⟩ := (Overlap.keeps_orderly hP).inline hlen hstart hend (by simp [hquiescent])
  rw [← Network.runInline] at hlast
  generalize (n.runInline config fuel).network = m at hlast
  have hall : m.allTerminated = false := by
    have hended := hlast.ended
    cases hm : m.allTerminated with
    | false => rfl
    | true => simp [hm, hquiescent] at hended
  have hcalm : (Network.round config.loopMax before.wires before.partitions stats).progress = false := by
    have hended := hlast.ended
    rw [hall] at hended
    exact hended.2
  obtain ⟨⟨hlevels, -⟩, hrests⟩ := (Overlap.keeps_levels hports hP (before.wires.map Connection.levels)).round
    hlast.count hlast.fault (fun _ => hcalm) ⟨rfl, hbefore⟩
  have hidle : ∀ inst ∈ m.instances, inst.Idle m.wires := by
    intro inst hinst
    rw [Network.instances, hlast.partitions] at hinst
    rw [hlast.wires]
    exact hrests inst hinst _ hlevels
  exact ⟨fun inst hinst => Instance.idle_iff.1 (hidle inst hinst),
    fun again fuel' hlimit => Network.runInline_idle fuel' hidle hall hlimit⟩

/-- nine calls bring three numbers to the sink of the round trip; a run after that calls nobody -/
theorem inline_quiescence_is_a_fixpoint_round_trip :
    (roundTripNetwork.runInline {} 20).records.length = 9 ∧
      ((roundTripNetwork.runInline {} 20).network.runInline {} 1).records = [] ∧
      ((roundTripNetwork.runInline {} 20).network.runInline {} 1).network =
        (roundTripNetwork.runInline {} 20).network.passedOver := by
  have hend : ∃ s, (roundTripNetwork.runInline {} 20).ended = .finished s ∧ s.outcome = .quiescent :=
    ⟨_, rfl, by decide⟩
  obtain ⟨s, hend, hquiescent⟩ := hend
  have hplain : ∀ inst ∈ roundTripNetwork.instances, inst.actor.plain = true := by decide
  have hagain :=
    (inline_quiescence_is_a_fixpoint Component.throughPorts (Component.orderly_plain (by decide)) hplain hend
    hquiescent).2 {} 0 nofun
  exact ⟨by decide +kernel, by rw [hagain], by rw [hagain]⟩

end Dataflow
