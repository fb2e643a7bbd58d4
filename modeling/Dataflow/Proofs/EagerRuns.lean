import Dataflow.Proofs.Patience
import Dataflow.Proofs.PortAttempts

/-!
Runs that pass over nobody, as all instances forget what they wait for before each round.

If the actors are patient, connections and firing calls are those of a run that passes over the blocked
(`Network.runEager_alike`).
-/

namespace Dataflow

open List

variable {σ : Type}

/-! ## Eager runs -/

/-- the instance as if it waited for nothing -/
def Instance.forget (inst : Instance σ) : Instance σ := { inst with waiting := none }

def Partition.forget (p : Partition σ) : Partition σ := { p with instances := p.instances.map Instance.forget }

/-- everybody as if they waited for nothing -/
def Network.forget (n : Network σ) : Network σ := { n with partitions := n.partitions.map Partition.forget }

/-- runs all partitions on one thread and passes over nobody but those who have terminated -/
def Network.runEager [Behaviour σ] (config : RunConfig) (fuel : Nat) (n : Network σ) : RunResult σ :=
  runRounds forget config fuel 0 n n.freshStats #[]

variable {same : σ → σ → Prop} {n m : Network σ}

/-- an instance that has forgotten what it waits for is called -/
theorem Instance.attempt_forget [Behaviour σ] (inst : Instance σ) (wires : List Connection) (maxLoops : Nat)
    (h : (inst.forget.attempt wires maxLoops).2.2 = .ok .skipped) : inst.terminated = true := by
  unfold Instance.attempt at h
  split at h
  · assumption
  · dsimp only [Instance.stillBlocked, Instance.forget] at h
    split at h
    · cases h
    · unfold Instance.settle at h
      dsimp only at h
      split at h <;> cases h

/-! ## What two runs have in common -/

/-- the same but for how often it was called, what it waits for, and what no call depends on -/
structure Instance.Alike (same : σ → σ → Prop) (a b : Instance σ) : Prop where
  id : b.id = a.id
  name : b.name = a.name
  actor : same a.actor b.actor
  inputs : b.inputs = a.inputs
  outputs : b.outputs = a.outputs
  terminated : b.terminated = a.terminated
  lastExit : b.lastExit = a.lastExit
  firings : b.stats.firings = a.stats.firings

/-- the tally without the number of calls -/
def PassTally.uncounted (t : PassTally) : PassTally := { t with attempts := 0 }

def PartitionStats.uncounted (s : PartitionStats) : PartitionStats := { s with attempts := 0 }

def RunEnd.uncounted : RunEnd → RunEnd
  | .finished summary => .finished { summary with partitions := summary.partitions.map PartitionStats.uncounted }
  | other => other

/-- passes that differ only in how often instances were called -/
structure Pass.Alike (same : σ → σ → Prop) (p q : Pass σ) : Prop where
  wires : q.wires = p.wires
  instances : List.Forall₂ (Instance.Alike same) p.instances q.instances
  tally : q.tally.uncounted = p.tally.uncounted
  fault : q.fault = p.fault

/-- the same partition of instances that are alike -/
structure Partition.Alike (same : σ → σ → Prop) (p q : Partition σ) : Prop where
  name : q.name = p.name
  instances : List.Forall₂ (Instance.Alike same) p.instances q.instances

/-- the same connections, in the same state, between instances that are alike -/
structure Network.Alike (same : σ → σ → Prop) (n m : Network σ) : Prop where
  wires : m.wires = n.wires
  labels : m.labels = n.labels
  partitions : List.Forall₂ (Partition.Alike same) n.partitions m.partitions

structure Network.Round.Alike (same : σ → σ → Prop) (r r' : Network.Round σ) : Prop where
  wires : r'.wires = r.wires
  partitions : List.Forall₂ (Partition.Alike same) r.partitions r'.partitions
  stats : r'.stats.map PartitionStats.uncounted = r.stats.map PartitionStats.uncounted
  progress : r'.progress = r.progress
  records : r'.records = r.records
  fault : r'.fault = r.fault

/-- networks that are alike, the same calls that fired, and the same end -/
structure RunResult.Alike (same : σ → σ → Prop) (r r' : RunResult σ) : Prop where
  network : r.network.Alike same r'.network
  records : r'.records = r.records
  ended : r'.ended.uncounted = r.ended.uncounted

theorem Network.Alike.allTerminated (h : n.Alike same m) : m.allTerminated = n.allTerminated := by
  have hinstances : ∀ {xs ys}, List.Forall₂ (Instance.Alike same) xs ys →
      ys.all (·.terminated) = xs.all (·.terminated) := by
    intro xs ys hxs
    induction hxs with
    | nil => rfl
    | cons hfirst _ ih => rw [all_cons, all_cons, hfirst.terminated, ih]
  have hpartitions : ∀ {ps qs}, List.Forall₂ (Partition.Alike same) ps qs →
      qs.all (·.allTerminated) = ps.all (·.allTerminated) := by
    intro ps qs hps
    induction hps with
    | nil => rfl
    | cons hfirst _ ih =>
      rw [all_cons, all_cons, Partition.allTerminated, Partition.allTerminated, hinstances hfirst.instances, ih]
  exact hpartitions h.partitions

theorem Network.Alike.instances (h : n.Alike same m) : List.Forall₂ (Instance.Alike same) n.instances m.instances :=
  rel_flatMap h.partitions fun _ _ hp => hp.instances

/-- in networks that are alike, an instance is found in both or in none -/
theorem Network.Alike.find? (h : n.Alike same m) (i : Nat) :
    Option.Rel (Instance.Alike same) (n.instances.find? (·.id = i)) (m.instances.find? (·.id = i)) := by
  have hinstances := h.instances
  generalize n.instances = xs at hinstances ⊢
  generalize m.instances = ys at hinstances ⊢
  induction hinstances with
  | nil => exact .none
  | @cons a b _ _ hfirst _ ih =>
    by_cases hid : a.id = i
    · rw [find?_cons_of_pos (by simpa using hid), find?_cons_of_pos (by simpa [hfirst.id] using hid)]
      exact .some hfirst
    · rw [find?_cons_of_neg (by simpa using hid), find?_cons_of_neg (by simpa [hfirst.id] using hid)]
      exact ih

theorem Overlap.worker?_start (n : Network σ) (i : Nat) :
    (Overlap.start n).worker? i = (n.instances.find? (·.id = i)).map fun inst => { inst } := find?_map ..

/-- networks that are alike tell the same of who has terminated -/
theorem Network.Alike.terminated? (h : n.Alike same m) (i : Nat) :
    (Overlap.start n).terminated? i = (Overlap.start m).terminated? i := by
  rw [Overlap.terminated?, Overlap.terminated?, Overlap.worker?_start, Overlap.worker?_start]
  have hfound := h.find? i
  generalize n.instances.find? (·.id = i) = x at hfound ⊢
  generalize m.instances.find? (·.id = i) = y at hfound ⊢
  cases hfound with
  | none => rfl
  | some hinst => exact congrArg some hinst.terminated.symm

/-- if one of two runs that are alike has finished, so has the other -/
theorem RunResult.Alike.finished {r r' : RunResult σ} (h : r.Alike same r') {summary' : RunSummary}
    (hended : r'.ended = .finished summary') :
    ∃ summary, r.ended = .finished summary ∧ summary.outcome = summary'.outcome := by
  have hsame := h.ended
  rw [hended] at hsame
  cases hend : r.ended with
  | finished summary =>
    rw [hend] at hsame
    exact ⟨summary, rfl, (congrArg RunSummary.outcome (RunEnd.finished.inj hsame)).symm⟩
  | stopped e | unfinished => rw [hend] at hsame; cases hsame

section Attempts

variable {a b : Instance σ} {wires : List Connection}

theorem Instance.Alike.forget (h : a.Alike same b) : a.Alike same b.forget :=
  ⟨h.id, h.name, h.actor, h.inputs, h.outputs, h.terminated, h.lastExit, h.firings⟩

theorem Instance.Alike.openPorts (h : a.Alike same b) : b.openPorts wires = a.openPorts wires := by
  rw [Instance.openPorts, Instance.openPorts, h.inputs, h.outputs]

/-- turns with the same ports and the same exit are settled alike -/
theorem Instance.Alike.settle (h : a.Alike same b) {t u : Turn σ} (hactor : same t.actor u.actor)
    (hports : u.ports = t.ports) (hexit : u.exit = t.exit) :
    (b.settle u).1 = (a.settle t).1 ∧ (a.settle t).2.1.Alike same (b.settle u).2.1 ∧
      (b.settle u).2.2 = (a.settle t).2.2 := by
  simp only [Instance.settle, Instance.closePorts, hports, hexit, h.inputs, h.outputs]
  cases t.exit with
  | error f => exact ⟨rfl, ⟨h.id, h.name, hactor, rfl, rfl, h.terminated, h.lastExit, h.firings⟩, rfl⟩
  | ok exit =>
    refine ⟨rfl, ⟨h.id, h.name, hactor, rfl, rfl, ?_, rfl, ?_⟩, rfl⟩
    · simp only [Instance.book, h.terminated]
    · simp only [Instance.book, h.firings]

/-! ## Closing ports that were not used -/

theorem Ports.closeAll_unused {α : Type} {close : Connection → α → PortView → Connection × α} {ends : List (Attached α)}
    {views : List (Attached PortView)} (h : List.Forall₂ (fun e v => ∃ c, wires[e.wire]? = some c ∧
      close c e.item v.item = (c, e.item)) ends views) : closeAll close wires ends views = (wires, ends) := by
  induction h with
  | nil => rfl
  | cons hfirst _ ih =>
    obtain ⟨c, hc, hclose⟩ := hfirst
    simp only [closeAll, hc, hclose, set_of_getElem? hc, ih]

/-- ports that are closed as they were opened leave everything as it was -/
theorem Instance.closePorts_openPorts {ports : Ports} (h : a.openPorts wires = .ok ports) :
    a.closePorts ports = (wires, a) := by
  obtain ⟨hins, houts, hwires, -⟩ := Instance.openPorts_eq_ok h
  have hin : Ports.closeAll Connection.closeInput wires a.inputs ports.inputs = (wires, a.inputs) := by
    refine Ports.closeAll_unused ((forall₂_of_mapM hins).imp fun e v hopen => ?_)
    obtain ⟨c, hc, hopen⟩ := bind_eq_ok hopen
    cases hopen
    exact ⟨c, fetch_eq_some hc, by simp [Connection.closeInput, Connection.openInput, PortView.moved]⟩
  have hout : Ports.closeAll Connection.closeOutput wires a.outputs ports.outputs = (wires, a.outputs) := by
    refine Ports.closeAll_unused ((forall₂_of_mapM houts).imp fun e v hopen => ?_)
    obtain ⟨c, hc, hopen⟩ := bind_eq_ok hopen
    obtain ⟨view, hview, hopen⟩ := bind_eq_ok hopen
    obtain ⟨rooms, -, hview⟩ := bind_eq_ok hview
    cases hview
    cases hopen
    exact ⟨c, fetch_eq_some hc, by simp [Connection.closeOutput, PortView.moved]⟩
  simp only [Instance.closePorts, hwires, hin, hout]

end Attempts

variable {config : RunConfig}

/-! ## In step -/

/-- instances at rest that recall what they wait for -/
def Patience.Attends [Behaviour σ] (P : Patience σ) (wires : List Connection) (insts : List (Instance σ)) : Prop :=
  ∃ tally, PortOverlap.Sound ⟨wires, tally, insts.map fun inst => ({ inst } : PortWorker σ)⟩ ∧
    ∀ inst ∈ insts, PortWorker.Recalls P wires tally { inst }

namespace Patience

variable [Behaviour σ] {P : Patience σ} {wires : List Connection} {loopMax : Nat} {inst inst' : Instance σ}
  {ports : Ports} {t t' : PassTally} {insts insts' : List (Instance σ)} {stats stats' : List PartitionStats}

/-- what became of two attempts is the same but for how often an instance was called -/
structure Matches (P : Patience σ) (r r' : List Connection × Instance σ × Checked Attempt) : Prop where
  wires : r'.1 = r.1
  inst : r.2.1.Alike P.same r'.2.1
  answer : (∃ f, r.2.2 = .error f ∧ r'.2.2 = .error f) ∨ ∃ answer answer', r.2.2 = .ok answer ∧ r'.2.2 = .ok answer' ∧
    ∀ name, (PassTally.ofAttempt name r'.2.1 answer').uncounted = (PassTally.ofAttempt name r.2.1 answer).uncounted

/-- a call where there would have been a call -/
theorem matches_settle (h : inst.Alike P.same inst') : P.Matches
    (inst.settle (Behaviour.act loopMax inst.actor ports))
    (inst'.forget.settle (Behaviour.act loopMax inst'.actor ports)) := by
  obtain ⟨hactor, hturn, hexit⟩ := P.same_act loopMax ports h.actor
  obtain ⟨hwires, hinst, hanswer⟩ := h.forget.settle hactor hturn hexit
  refine ⟨hwires, hinst, ?_⟩
  cases hsettled : (inst.settle (Behaviour.act loopMax inst.actor ports)).2.2 with
  | error f => exact .inl ⟨f, rfl, hanswer.trans hsettled⟩
  | ok answer =>
    refine .inr ⟨answer, answer, rfl, hanswer.trans hsettled, fun name => ?_⟩
    cases answer with
    | skipped => rfl
    | ran exit firing => simp only [PassTally.ofAttempt, PassTally.recordOf, hinst.id, hinst.name]

/-- a call where there would have been none: it blocks, and leaves everything as it is -/
theorem matches_skipped {named : List Blocked} {actor : σ} (h : inst.Alike P.same inst')
    (hopen : inst.openPorts wires = .ok ports) (hexit : inst.lastExit = some .block)
    (hact : Behaviour.act loopMax inst.actor ports = ⟨actor, ports, .ok (.block named)⟩)
    (hsame : P.same inst.actor actor) :
    P.Matches (wires, { inst with stats := { inst.stats with skipped := inst.stats.skipped + 1 } }, .ok .skipped)
      (inst'.forget.settle (Behaviour.act loopMax inst'.actor ports)) := by
  obtain ⟨hactor, hturn, hanswer⟩ := P.same_act loopMax ports h.actor
  obtain ⟨-, -, -, hactions⟩ := Instance.openPorts_eq_ok hopen
  rw [hact] at hactor hturn hanswer
  have hclosed : ∀ {x : σ}, { inst'.forget with actor := x }.closePorts ports =
    (wires, { inst'.forget with actor := x }) :=
    fun {x} => Instance.closePorts_openPorts (by rw [← hopen]; exact h.openPorts)
  have hfired : ports.firing.fired = 0 := by simp [Firing.fired, Ports.firing, hactions, Word.low32]
  simp only [Instance.settle, hturn, hanswer, hclosed]
  refine ⟨rfl, ⟨h.id, h.name, P.same_trans hsame hactor, h.inputs, h.outputs, ?_, hexit.symm, ?_⟩,
    .inr ⟨_, _, rfl, rfl, fun name => ?_⟩⟩
  · have hblock : (Exit.block named == Exit.terminate) = false := beq_eq_false_iff_ne.2 fun h => by cases h
    simpa [Instance.book, Instance.forget, hblock] using h.terminated
  · simpa [Instance.book, Instance.forget, hfired] using h.firings
  · simp [PassTally.ofAttempt, PassTally.uncounted, Attempt.madeProgress, hfired]

/-- an attempt is matched by that of an instance that has forgotten what it waits for -/
theorem matches_attempt (hloops : 1 ≤ loopMax) {tally : Nat → Tally} (hholds : PortWorker.Holds { inst } wires tally)
    (hrecalls : PortWorker.Recalls P wires tally { inst }) (h : inst.Alike P.same inst') :
    P.Matches (inst.attempt wires loopMax) (inst'.forget.attempt wires loopMax) := by
  cases hterm : inst.terminated with
  | true =>
    have hterm' : inst'.forget.terminated = true := h.terminated.trans hterm
    rw [Instance.attempt, if_pos hterm, Instance.attempt, if_pos hterm']
    exact ⟨rfl, h.forget, .inr ⟨_, _, rfl, rfl, fun _ => rfl⟩⟩
  | false =>
    have hterm' : inst'.terminated = false := h.terminated.trans hterm
    obtain ⟨ports, hopen⟩ := hholds.openPorts
    have heager : inst'.forget.attempt wires loopMax = inst'.forget.settle
      (Behaviour.act loopMax inst'.actor ports) := by
      have hopen' : inst'.forget.openPorts wires = .ok ports := h.openPorts.trans hopen
      simp only [Instance.attempt, Instance.stillBlocked, hopen']
      simp [Instance.forget, hterm']
    obtain ⟨blocked, hblocked⟩ := Instance.stillBlocked_of_openPorts hopen
    cases blocked with
    | true =>
      obtain ⟨ports', named, actor, hopen', -, hexit, hact, hsame⟩ := hrecalls.stays hholds rfl hblocked hloops
      cases hopen.symm.trans hopen'
      have hlazy : inst.attempt wires loopMax =
          (wires, { inst with stats := { inst.stats with skipped := inst.stats.skipped + 1 } }, .ok .skipped) := by
        simp [Instance.attempt, hterm, hblocked]
      rw [hlazy, heager]
      exact matches_skipped h hopen hexit hact hsame
    | false =>
      have hlazy : inst.attempt wires loopMax = inst.settle (Behaviour.act loopMax inst.actor ports) := by
        simp [Instance.attempt, hterm, hblocked, hopen]
      rw [hlazy, heager]
      exact matches_settle h

/-! ### Passes, rounds and runs -/

theorem uncounted_append {s s' : PassTally} (hs : s'.uncounted = s.uncounted) (ht : t'.uncounted = t.uncounted) :
    (s'.append t').uncounted = (s.append t).uncounted := by
  simp only [PassTally.uncounted, PassTally.mk.injEq] at hs ht
  simp only [PassTally.uncounted, PassTally.append, hs, ht]

theorem uncounted_absorb {s s' : PartitionStats} (hs : s'.uncounted = s.uncounted)
    (ht : t'.uncounted = t.uncounted) : (s'.absorb t').uncounted = (s.absorb t).uncounted := by
  simp only [PassTally.uncounted, PassTally.mk.injEq] at ht
  simp only [PartitionStats.uncounted, PartitionStats.mk.injEq] at hs
  simp only [PartitionStats.uncounted, PartitionStats.absorb, hs, ht]

/-- what an attempt leads to is attended to -/
theorem Attends.attempt (hports : Behaviour.ThroughPorts σ) (hloops : 1 ≤ loopMax) {before after : List (Instance σ)}
    (h : P.Attends wires (before ++ inst :: after)) {wires' : List Connection} {answer : Attempt}
    (hattempt : inst.attempt wires loopMax = (wires', inst', .ok answer)) :
    P.Attends wires' (before ++ inst' :: after) := by
  obtain ⟨tally, hsound, hrecalls⟩ := h
  have hs : ((before ++ inst :: after).map fun inst => ({ inst } : PortWorker σ))[before.length]? = some { inst } :=
    by simp
  obtain ⟨tally', hreach, -⟩ := PortOverlap.reaches_attempt P.drift hports hsound hloops hs hattempt
  have hset : ((before ++ inst :: after).map fun inst => ({ inst } : PortWorker σ)).set before.length
    { inst := inst' } = (before ++ inst' :: after).map fun inst => ({ inst } : PortWorker σ) := by simp
  rw [hset] at hreach
  refine ⟨tally', hsound.reaches hports hreach, fun x hx => ?_⟩
  obtain ⟨k, hk⟩ := getElem?_of_mem hx
  have hlt : k < (before ++ inst :: after).length := by simpa using lt_of_getElem? hk
  have hold := getElem?_eq_getElem hlt
  obtain ⟨s, hs', hrecall⟩ := (PortOverlap.keeps_recalls P hports).reaches hports hsound hreach
    (by rw [getElem?_map, hold]; rfl) (hrecalls _ (mem_of_getElem? hold))
  rw [getElem?_map, hk] at hs'
  cases hs'
  exact hrecall

theorem alike_forget (h : List.Forall₂ (Instance.Alike P.same) insts insts') :
    List.Forall₂ (Instance.Alike P.same) insts (insts'.map Instance.forget) :=
  forall₂_map_right_iff.2 (h.imp fun _ _ h => h.forget)

section

variable (hports : Behaviour.ThroughPorts σ)

include hports

theorem alike_pass (hloops : 1 ≤ loopMax) (name : String)
    (h : List.Forall₂ (Instance.Alike P.same) insts insts') (before after : List (Instance σ))
    (hattends : P.Attends wires (before ++ insts ++ after)) :
    (Network.pass name loopMax wires insts).Alike P.same
      (Network.pass name loopMax wires (insts'.map Instance.forget)) ∧
      ((Network.pass name loopMax wires insts).fault = none →
        P.Attends (Network.pass name loopMax wires insts).wires
        (before ++ (Network.pass name loopMax wires insts).instances ++ after)) := by
  induction h generalizing wires before with
  | nil => exact ⟨⟨rfl, .nil, rfl, rfl⟩, fun _ => hattends⟩
  | @cons inst inst' rest rest' hfirst hrest ih =>
    rw [append_assoc, cons_append] at hattends
    have hattends' := hattends
    obtain ⟨tally, hsound, hrecalls⟩ := hattends
    have hs : ((before ++ inst :: (rest ++ after)).map fun inst => ({ inst } : PortWorker σ))[before.length]? =
      some { inst } := by simp
    have hmatches := matches_attempt hloops (hsound.holds hs) (hrecalls inst (by simp)) hfirst
    obtain ⟨hwires, hinst, hanswer⟩ := hmatches
    rw [map_cons]
    rcases hanswer with ⟨f, hf, hf'⟩ | ⟨answer, answer', hok, hok', htally⟩
    · have hlazy : inst.attempt wires loopMax = ((inst.attempt wires loopMax).1,
        (inst.attempt wires loopMax).2.1, .error f) := by
        rw [← hf]
      have heager : inst'.forget.attempt wires loopMax =
          ((inst.attempt wires loopMax).1, (inst'.forget.attempt wires loopMax).2.1, .error f) := by
        rw [← hf', ← hwires]
      rw [Overlap.pass_cons_error hlazy, Overlap.pass_cons_error heager]
      exact ⟨⟨rfl, .cons hinst (alike_forget hrest), rfl, rfl⟩, nofun⟩
    · have hlazy : inst.attempt wires loopMax = ((inst.attempt wires loopMax).1,
        (inst.attempt wires loopMax).2.1, .ok answer) := by
        rw [← hok]
      have heager : inst'.forget.attempt wires loopMax =
          ((inst.attempt wires loopMax).1, (inst'.forget.attempt wires loopMax).2.1, .ok answer') := by
        rw [← hok', ← hwires]
      rw [Overlap.pass_cons hlazy, Overlap.pass_cons heager]
      have hnext := hattends'.attempt hports hloops hlazy
      rw [← cons_append, ← singleton_append, ← append_assoc, ← append_assoc] at hnext
      obtain ⟨halike, hkept⟩ := ih _ hnext
      refine ⟨⟨halike.wires, .cons hinst halike.instances, uncounted_append (htally name) halike.tally, halike.fault⟩,
        fun hfault => ?_⟩
      simpa using hkept hfault

theorem alike_round (hloops : 1 ≤ loopMax)
    {partitions partitions' : List (Partition σ)} (h : List.Forall₂ (Partition.Alike P.same) partitions partitions')
    (hstats : stats'.map PartitionStats.uncounted = stats.map PartitionStats.uncounted) (before : List (Instance σ))
    (hattends : P.Attends wires (before ++ partitions.flatMap (·.instances))) :
    (Network.round loopMax wires partitions stats).Alike P.same
        (Network.round loopMax wires (partitions'.map Partition.forget) stats') ∧
      ((Network.round loopMax wires partitions stats).fault = none →
        P.Attends (Network.round loopMax wires partitions stats).wires
        (before ++ (Network.round loopMax wires partitions stats).partitions.flatMap (·.instances))) := by
  induction h generalizing wires stats stats' before with
  | nil => exact ⟨⟨rfl, .nil, hstats, rfl, rfl, rfl⟩, fun _ => hattends⟩
  | @cons p p' rest rest' hfirst hrest ih =>
    have hforget : List.Forall₂ (Partition.Alike P.same) rest (rest'.map Partition.forget) :=
      forall₂_map_right_iff.2 (hrest.imp fun _ _ h => ⟨h.name, alike_forget h.instances⟩)
    rw [map_cons]
    cases stats with
    | nil =>
      obtain rfl : stats' = [] := by simpa using hstats
      exact ⟨⟨rfl, .cons ⟨hfirst.name, alike_forget hfirst.instances⟩ hforget, rfl, rfl, rfl, rfl⟩, fun _ => hattends⟩
    | cons s stats =>
      obtain ⟨s', stats', rfl, hs, hstats⟩ := map_eq_cons_iff.1 hstats
      rw [flatMap_cons, ← append_assoc] at hattends
      obtain ⟨halike, hkept⟩ := alike_pass hports hloops p.name hfirst.instances before _ hattends
      have hpass : Network.pass p'.forget.name loopMax wires p'.forget.instances =
          Network.pass p.name loopMax wires (p'.instances.map Instance.forget) := by
        rw [show p'.forget.name = p.name from hfirst.name]
        rfl
      have hrecords := congrArg PassTally.records halike.tally
      cases hfault : (Network.pass p.name loopMax wires p.instances).fault with
      | some f =>
        rw [Overlap.round_cons_fault hfault, Overlap.round_cons_fault (by rw [hpass]; exact halike.fault.trans hfault)]
        simp only [hpass]
        refine ⟨⟨halike.wires, .cons ⟨hfirst.name, halike.instances⟩ hforget, ?_, rfl, hrecords, rfl⟩, nofun⟩
        simp only [map_cons, hs, hstats]
      | none =>
        rw [Overlap.round_cons hfault, Overlap.round_cons (by rw [hpass]; exact halike.fault.trans hfault)]
        simp only [hpass, halike.wires]
        obtain ⟨hmore, hkept'⟩ := ih hstats _ (hkept hfault)
        have hprogress := congrArg PassTally.progress halike.tally
        refine ⟨⟨hmore.wires, .cons ⟨hfirst.name, halike.instances⟩ hmore.partitions, ?_, ?_, ?_, hmore.fault⟩,
          fun h => ?_⟩
        · rw [map_cons, map_cons, hmore.stats, uncounted_absorb hs halike.tally]
        · exact congrArg₂ or hprogress hmore.progress
        · exact congrArg₂ (· ++ ·) hrecords hmore.records
        · simpa using hkept' h

/-- rounds in step until the run ends -/
theorem alike_runs (hloops : 1 ≤ config.loopMax) (fuel passes : Nat) {n n' : Network σ} (h : n.Alike P.same n')
    (hstats : stats'.map PartitionStats.uncounted = stats.map PartitionStats.uncounted) (records : Array FiringRecord)
    (hattends : P.Attends n.wires n.instances) :
    (Network.runRounds id config fuel passes n stats records).Alike P.same
      (Network.runRounds Network.forget config fuel passes n' stats' records) := by
  induction fuel generalizing passes n n' stats stats' records with
  | zero => exact ⟨h, rfl, rfl⟩
  | succ fuel ih =>
    obtain ⟨halike, hkept⟩ := alike_round hports hloops h.partitions hstats [] hattends
    unfold Network.runRounds
    split
    · exact ⟨h, rfl, congrArg (fun partitions => RunEnd.finished { outcome := .passLimit, partitions }) hstats⟩
    dsimp only [id, Network.forget]
    rw [h.wires]
    generalize Network.round config.loopMax n.wires n.partitions stats = r at halike hkept
    generalize Network.round config.loopMax n.wires (n'.partitions.map Partition.forget) stats' = r' at halike
    have hnext : Network.Alike P.same { n with wires := r.wires, partitions := r.partitions }
      { n' with wires := r'.wires, partitions := r'.partitions } := ⟨halike.wires, h.labels, halike.partitions⟩
    rw [halike.fault, halike.records, hnext.allTerminated, halike.progress]
    cases hfault : r.fault with
    | some f => exact ⟨hnext, rfl, rfl⟩
    | none =>
      dsimp only
      split
      · exact ⟨hnext, rfl,
          congrArg (fun partitions => RunEnd.finished { outcome := .allTerminated, partitions }) halike.stats⟩
      split
      · exact ih _ hnext halike.stats _ (hkept hfault)
      · exact ⟨hnext, rfl,
          congrArg (fun partitions => RunEnd.finished { outcome := .quiescent, partitions }) halike.stats⟩

end

end Patience

/-- an eager run of a built network of patient actors is like a run that passes over those who are blocked -/
theorem Network.runEager_alike [Behaviour σ] (P : Patience σ) (hports : Behaviour.ThroughPorts σ) {b : Builder σ}
    (hmade : b.Made) {mapping : Option Mapping} {n : Network σ} (hbuild : b.build mapping = .ok n)
    (hfit : ∀ inst ∈ n.instances, P.fit inst.actor) (hloops : 1 ≤ config.loopMax) (fuel : Nat) :
    (n.runInline config fuel).Alike P.same (n.runEager config fuel) := by
  have hself : n.Alike P.same n := by
    refine ⟨rfl, rfl, forall₂_same.2 fun p hp => ⟨rfl, forall₂_same.2 fun inst hinst => ?_⟩⟩
    have hmem : inst ∈ n.instances := mem_flatMap.2 ⟨p, hp, hinst⟩
    exact ⟨rfl, rfl, P.same_refl (hfit inst hmem), rfl, rfl, rfl, rfl, rfl⟩
  refine P.alike_runs hports hloops fuel 0 hself rfl #[] ?_
  exact ⟨_, PortOverlap.sound_start hmade hbuild, fun inst hinst => PortWorker.recalls_new hbuild hinst
    (hfit inst hinst) _ _⟩

end Dataflow
