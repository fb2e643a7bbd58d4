import Dataflow.Network.Run
import Dataflow.Proofs.OpenPorts

/-!
Attempts that overlap.

On a `Overlap` an attempt asks whether its instance still waits, opens the ports, calls the actor, and closes the ports;
between any two parts the others go on. A run on one thread leaves what some order of parts leaves
(`Overlap.Keeps.inline`).
-/

namespace Dataflow

open List

/-- an instance that cannot go on -/
def Instance.Idle {σ : Type} (inst : Instance σ) (wires : List Connection) : Prop :=
  inst.terminated = true ∨ inst.stillBlocked wires = .ok true

inductive Activity (σ : Type) where
  /-- between two attempts -/
  | resting
  /-- found able to go on -/
  | entered
  /-- with open ports -/
  | opened (ports : Ports)
  /-- called, with its ports still open -/
  | called (turn : Turn σ)
  | faulted (f : Fault)

structure Worker (σ : Type) where
  inst : Instance σ
  activity : Activity σ := .resting

/-- instances that work side by side on shared connections -/
structure Overlap (σ : Type) where
  wires : List Connection
  workers : List (Worker σ)

/-- a part of an attempt of one worker -/
inductive OverlapOp where
  | enter (worker : Nat)
  | open (worker : Nat)
  /-- with at most so many firings -/
  | call (worker maxLoops : Nat)
  | close (worker : Nat)
deriving DecidableEq, Repr

namespace Worker

variable {σ : Type}

/-- the actor at the moment, also in the middle of an attempt -/
def actor (w : Worker σ) : σ :=
  match w.activity with
  | .called turn => turn.actor
  | _ => w.inst.actor

end Worker

namespace Overlap

variable {σ : Type}

/-- the instances of a network, between two attempts -/
def start (n : Network σ) : Overlap σ := ⟨n.wires, n.instances.map fun inst => { inst }⟩

/-- a worker at another point, and other connections -/
def put (wires : List Connection) (F : Overlap σ) (k : Nat) (inst : Instance σ) (activity : Activity σ) : Overlap σ :=
  ⟨wires, F.workers.set k ⟨inst, activity⟩⟩

/-- asks a worker whether it can go on -/
def enter (F : Overlap σ) (k : Nat) (inst : Instance σ) : Overlap σ :=
  if inst.terminated then F
  else
    match inst.stillBlocked F.wires with
    | .error f => F.put F.wires k inst (.faulted f)
    | .ok true => F.put F.wires k { inst with stats := { inst.stats with skipped := inst.stats.skipped + 1 } } .resting
    | .ok false => F.put F.wires k inst .entered

/-- opens the ports of a worker -/
def openPorts (F : Overlap σ) (k : Nat) (inst : Instance σ) : Overlap σ :=
  match inst.openPorts F.wires with
  | .error f => F.put F.wires k inst (.faulted f)
  | .ok ports => F.put F.wires k inst (.opened ports)

/-- calls the actor of a worker; it works on the connections as they are now -/
def call [Behaviour σ] (maxLoops : Nat) (F : Overlap σ) (k : Nat) (inst : Instance σ) (ports : Ports) : Overlap σ :=
  let turn := Behaviour.act maxLoops inst.actor { ports with wires := F.wires }
  F.put turn.ports.wires k inst (.called turn)

/-- closes the ports of a worker on the connections as they are now, and books the call -/
def close (F : Overlap σ) (k : Nat) (inst : Instance σ) (turn : Turn σ) : Overlap σ :=
  match inst.settle { turn with ports := { turn.ports with wires := F.wires } } with
  | (wires, inst, .ok _) => F.put wires k inst .resting
  | (wires, inst, .error f) => F.put wires k inst (.faulted f)

/-- one part of an attempt; a part that is not due changes nothing -/
def step [Behaviour σ] (F : Overlap σ) : OverlapOp → Overlap σ
  | .enter k =>
    match F.workers[k]? with
    | some ⟨inst, .resting⟩ => F.enter k inst
    | _ => F
  | .open k =>
    match F.workers[k]? with
    | some ⟨inst, .entered⟩ => F.openPorts k inst
    | _ => F
  | .call k maxLoops =>
    match F.workers[k]? with
    | some ⟨inst, .opened ports⟩ => F.call maxLoops k inst ports
    | _ => F
  | .close k =>
    match F.workers[k]? with
    | some ⟨inst, .called turn⟩ => F.close k inst turn
    | _ => F

def run [Behaviour σ] (F : Overlap σ) (ops : List OverlapOp) : Overlap σ := ops.foldl step F

/-- nobody is in the middle of an attempt, and nobody can go on -/
def Complete (F : Overlap σ) : Prop :=
  ∀ w ∈ F.workers, w.activity = .resting ∧ w.inst.Idle F.wires

/-- the outcome of a run that ends here -/
def outcome (F : Overlap σ) : RunOutcome := if F.workers.all (·.inst.terminated) then .allTerminated else .quiescent

/-! ## Looking up instances -/

section Lookup

variable {F : Overlap σ} {i : Nat} {x : Worker σ}

def worker? (F : Overlap σ) (i : Nat) : Option (Worker σ) := F.workers.find? (·.inst.id = i)

def firings? (F : Overlap σ) (i : Nat) : Option Nat := (F.worker? i).map (·.inst.stats.firings)

def terminated? (F : Overlap σ) (i : Nat) : Option Bool := (F.worker? i).map (·.inst.terminated)

theorem of_worker? (h : F.worker? i = some x) : x ∈ F.workers ∧ x.inst.id = i :=
  ⟨mem_of_find?_eq_some h, by simpa using find?_some h⟩

theorem exists_worker? (h : i ∈ F.workers.map (·.inst.id)) : ∃ x, F.worker? i = some x := by
  obtain ⟨x, hx, rfl⟩ := mem_map.1 h
  exact Option.isSome_iff_exists.1 (find?_isSome.2 ⟨x, hx, by simp⟩)

theorem worker?_eq_none (h : i ∉ F.workers.map (·.inst.id)) : F.worker? i = none :=
  find?_eq_none.2 fun x hx hid => h (mem_map.2 ⟨x, hx, by simpa using hid⟩)

end Lookup

/-! ## Attempts without interruption -/

section Inline

variable {F : Overlap σ} {k : Nat} {inst : Instance σ} {wires : List Connection}

@[simp] theorem put_put (wires wires' : List Connection) (inst' : Instance σ) (a a' : Activity σ) :
    (F.put wires k inst a).put wires' k inst' a' = F.put wires' k inst' a' := by
  simp [put]

theorem put_self (h : F.workers[k]? = some ⟨inst, .resting⟩) : F.put F.wires k inst .resting = F := by
  obtain ⟨hlt, heq⟩ := List.getElem?_eq_some_iff.1 h
  rw [put, ← heq, set_getElem_self]

theorem workers_put {inst' : Instance σ} {a : Activity σ} (hk : k < F.workers.length) :
    (F.put wires k inst' a).workers[k]? = some ⟨inst', a⟩ := getElem?_set_self hk

variable [Behaviour σ]

theorem run_append (F : Overlap σ) (ops ops' : List OverlapOp) : F.run (ops ++ ops') = (F.run ops).run ops' :=
  foldl_append

theorem run_cons (F : Overlap σ) (op : OverlapOp) (ops : List OverlapOp) : F.run (op :: ops) = (F.step op).run ops :=
  rfl

/-- the parts of one attempt -/
def attemptOps (k maxLoops : Nat) : List OverlapOp := [.enter k, .open k, .call k maxLoops, .close k]

/-- an attempt without interruption does what its parts do one after the other -/
theorem run_attempt {maxLoops : Nat} {inst' : Instance σ} {answer : Attempt}
    (h : F.workers[k]? = some ⟨inst, .resting⟩)
    (ha : inst.attempt F.wires maxLoops = (wires, inst', .ok answer)) :
    F.run (attemptOps k maxLoops) = F.put wires k inst' .resting := by
  have hk := lt_of_getElem? h
  -- a worker that is at rest after `enter` stays at rest
  have hskip : ∀ {G : Overlap σ} {j}, G.workers[k]? = some ⟨j, .resting⟩ →
      G.run [.open k, .call k maxLoops, .close k] = G := by
    intro G j hG
    simp [run, step, hG]
  rw [attemptOps, run_cons]
  cases Instance.tries_of_attempt ha with
  | ended hterm =>
    have hstep : F.step (.enter k) = F := by simp [step, h, enter, hterm]
    rw [hstep, hskip h, put_self h]
  | waits hterm hblocked =>
    have hstep : F.step (.enter k) =
        F.put F.wires k { inst with stats := { inst.stats with skipped := inst.stats.skipped + 1 } } .resting := by
      simp [step, h, enter, hterm, hblocked]
    rw [hstep, hskip (workers_put hk)]
  | @calls ports turn exit hterm hfree hopen hturn hexit =>
    obtain ⟨-, -, hwires, -⟩ := Instance.openPorts_eq_ok hopen
    replace hwires : { ports with wires := F.wires } = ports := by rw [← hwires]
    have hstep1 : F.step (.enter k) = F.put F.wires k inst .entered := by simp [step, h, enter, hterm, hfree]
    have hstep2 : (F.put F.wires k inst .entered).step (.open k) = F.put F.wires k inst (.opened ports) := by
      simp only [step, workers_put hk, openPorts]
      rw [show (F.put F.wires k inst .entered).wires = F.wires from rfl, hopen]
      simp
    have hstep3 : (F.put F.wires k inst (.opened ports)).step (.call k maxLoops) =
        F.put turn.ports.wires k inst (.called turn) := by
      simp only [step, workers_put hk, call]
      rw [show (F.put F.wires k inst (.opened ports)).wires = F.wires from rfl, hwires, ← hturn, put_put]
    rw [hstep1, run_cons, hstep2, run_cons, hstep3]
    simp only [run, foldl_cons, foldl_nil, step, workers_put hk, close, Instance.settle, hexit]
    exact put_put _ _ _ _ _

/-! ## Runs on one thread -/

def resting (insts : List (Instance σ)) : List (Worker σ) := insts.map fun inst => { inst }

/-- `Q` is kept by every attempt without a fault, and `R` holds of an instance after its own; where `quiet` is asked
for, only attempts without progress have to do so -/
def Keeps (loopMax : Nat) (quiet : Bool) (Q : Overlap σ → Prop) (R : Instance σ → Prop) : Prop :=
  ∀ ⦃F⦄ ⦃k⦄ ⦃inst inst'⦄ ⦃wires⦄ ⦃answer⦄,
    Q F → F.workers[k]? = some ⟨inst, .resting⟩ → inst.attempt F.wires loopMax = (wires, inst', .ok answer) →
    (quiet = true → answer.madeProgress = false) → Q (F.put wires k inst' .resting) ∧ R inst'

variable {loopMax : Nat} {name : String} {wires' : List Connection} {inst' : Instance σ} {rest : List (Instance σ)}
  {f : Fault} {p : Partition σ} {partitions : List (Partition σ)} {s : PartitionStats} {stats : List PartitionStats}
  {records : Array FiringRecord}

theorem pass_cons {attempt : Attempt} (h : inst.attempt wires loopMax = (wires', inst', .ok attempt)) :
    Network.pass name loopMax wires (inst :: rest) =
      { Network.pass name loopMax wires' rest with
        instances := inst' :: (Network.pass name loopMax wires' rest).instances
        tally := (PassTally.ofAttempt name inst' attempt).append (Network.pass name loopMax wires' rest).tally } := by
  rw [Network.pass, h]

theorem pass_cons_error (h : inst.attempt wires loopMax = (wires', inst', .error f)) :
    Network.pass name loopMax wires (inst :: rest) = ⟨wires', inst' :: rest, {}, some f⟩ := by
  rw [Network.pass, h]

theorem round_cons (h : (Network.pass p.name loopMax wires p.instances).fault = none) :
    Network.round loopMax wires (p :: partitions) (s :: stats) =
      let pass := Network.pass p.name loopMax wires p.instances
      let more := Network.round loopMax pass.wires partitions stats
      { more with
        partitions := { p with instances := pass.instances } :: more.partitions
        stats := s.absorb pass.tally :: more.stats
        progress := pass.tally.progress || more.progress
        records := pass.tally.records ++ more.records } := by
  rw [Network.round]
  simp only [h]

theorem round_cons_fault (h : (Network.pass p.name loopMax wires p.instances).fault = some f) :
    Network.round loopMax wires (p :: partitions) (s :: stats) =
      let pass := Network.pass p.name loopMax wires p.instances
      ⟨pass.wires, { p with instances := pass.instances } :: partitions, s :: stats,
        true, pass.tally.records, some f⟩ := by
  rw [Network.round]
  simp only [h]

/-- a round without a fault begins with a pass without one -/
theorem pass_of_round (h : (Network.round loopMax wires (p :: partitions) (s :: stats)).fault = none) :
    (Network.pass p.name loopMax wires p.instances).fault = none := by
  rw [Network.round] at h
  split at h
  · cases h
  · assumption

end Inline

end Overlap

theorem PassTally.progress_ofAttempt {σ : Type} (name : String) (inst : Instance σ) (answer : Attempt) :
    (ofAttempt name inst answer).progress = answer.madeProgress := by
  cases answer <;> rfl

/-- a way to follow attempts from state to state -/
structure Course (σ : Type) [Behaviour σ] (loopMax : Nat) where
  State : Type
  holds : State → List Connection → List (Instance σ) → Prop
  /-- who may be called -/
  fit : Instance σ → Prop
  /-- no call faults -/
  sure : Prop
  /-- what attempts come to: whether there was progress, their records, and the instances after them -/
  comes : State → State → Bool → List FiringRecord → List (Instance σ) → Prop
  refl : ∀ s, comes s s false [] []
  trans : ∀ {s s1 s2 p q rs rs' xs ys}, comes s s1 p rs xs → comes s1 s2 q rs' ys →
    comes s s2 (p || q) (rs ++ rs') (xs ++ ys)
  attempt : ∀ {s wires before inst after}, holds s wires (before ++ inst :: after) → fit inst →
    (∃ wires' inst' f, inst.attempt wires loopMax = (wires', inst', .error f) ∧ ¬ sure) ∨
      ∃ wires' inst' answer, inst.attempt wires loopMax = (wires', inst', .ok answer) ∧ ∀ name, ∃ s',
        holds s' wires' (before ++ inst' :: after) ∧ comes s s' answer.madeProgress
        (PassTally.ofAttempt name inst' answer).records [inst']

namespace Course

variable {σ : Type} [Behaviour σ] {loopMax : Nat} {wires : List Connection} {stats : List PartitionStats}

theorem pass (C : Course σ loopMax) (name : String) {s : C.State} (before insts after : List (Instance σ))
    (h : C.holds s wires (before ++ insts ++ after)) (hfit : ∀ inst ∈ insts, C.fit inst)
    (hfault : C.sure ∨ (Network.pass name loopMax wires insts).fault = none) :
    ∃ s', (Network.pass name loopMax wires insts).fault = none ∧
      C.holds s' (Network.pass name loopMax wires insts).wires
      (before ++ (Network.pass name loopMax wires insts).instances ++ after) ∧
      C.comes s s' (Network.pass name loopMax wires insts).tally.progress
        (Network.pass name loopMax wires insts).tally.records (Network.pass name loopMax wires insts).instances := by
  induction insts generalizing s wires before with
  | nil => exact ⟨s, rfl, h, C.refl s⟩
  | cons inst rest ih =>
    obtain ⟨hfirst, hrest⟩ := forall_mem_cons.1 hfit
    rw [append_assoc, cons_append] at h
    rcases C.attempt h hfirst with ⟨wires1, inst1, f, hattempt, hunsure⟩ | ⟨wires1, inst1, answer, hattempt, hnext⟩
    · rw [Overlap.pass_cons_error hattempt] at hfault
      cases hfault.resolve_left hunsure
    · obtain ⟨s1, h1, hcomes⟩ := hnext name
      rw [← cons_append, ← singleton_append, ← append_assoc, ← append_assoc] at h1
      rw [Overlap.pass_cons hattempt] at hfault ⊢
      obtain ⟨s2, hnone, h2, hcomes'⟩ := ih _ h1 hrest hfault
      have hall := C.trans hcomes hcomes'
      rw [← PassTally.progress_ofAttempt name inst1] at hall
      exact ⟨s2, hnone, by simpa using h2, hall⟩

theorem round (C : Course σ loopMax) {s : C.State} (before : List (Instance σ)) (partitions : List (Partition σ))
    (hstats : stats.length = partitions.length) (h : C.holds s wires (before ++ partitions.flatMap (·.instances)))
    (hfit : ∀ p ∈ partitions, ∀ inst ∈ p.instances, C.fit inst)
    (hfault : C.sure ∨ (Network.round loopMax wires partitions stats).fault = none) :
    ∃ s', (Network.round loopMax wires partitions stats).fault = none ∧
      C.holds s' (Network.round loopMax wires partitions stats).wires
        (before ++ (Network.round loopMax wires partitions stats).partitions.flatMap (·.instances)) ∧
      C.comes s s' (Network.round loopMax wires partitions stats).progress
        (Network.round loopMax wires partitions stats).records
        ((Network.round loopMax wires partitions stats).partitions.flatMap (·.instances)) := by
  induction partitions generalizing s wires before stats with
  | nil => exact ⟨s, rfl, h, C.refl s⟩
  | cons p partitions ih =>
    obtain ⟨first, stats, rfl⟩ := exists_cons_of_length_eq_add_one hstats
    obtain ⟨hfirst, hrest⟩ := forall_mem_cons.1 hfit
    rw [flatMap_cons, ← append_assoc] at h
    obtain ⟨s1, hnone, h1, hcomes⟩ := C.pass p.name before p.instances _ h hfirst
      (hfault.imp_right Overlap.pass_of_round)
    rw [Overlap.round_cons hnone] at hfault ⊢
    obtain ⟨s2, hnone', h2, hcomes'⟩ := ih _ (by simpa using hstats) h1 hrest hfault
    refine ⟨s2, hnone', by simpa using h2, ?_⟩
    exact C.trans hcomes hcomes'

end Course

namespace Overlap

variable {σ : Type} [Behaviour σ] {quiet : Bool} {Q : Overlap σ → Prop} {R : Instance σ → Prop} {loopMax : Nat}
  {wires : List Connection} {partitions : List (Partition σ)} {stats : List PartitionStats} {config : RunConfig}
  {fuel passes : Nat} {n : Network σ} {records : Array FiringRecord} {summary : RunSummary}

/-- what every attempt keeps, as long as nothing has spoilt it -/
def Keeps.course (h : Keeps loopMax quiet Q R) : Course σ loopMax where
  State := Prop
  holds kept wires insts := kept → Q ⟨wires, resting insts⟩
  fit _ := True
  sure := False
  comes kept kept' progress _ insts := kept → (quiet = true → progress = false) → kept' ∧ ∀ inst ∈ insts, R inst
  refl _ hkept _ := ⟨hkept, by simp⟩
  trans h h' hkept hquiet := by
    obtain ⟨hkept', hR⟩ := h hkept fun hq => (Bool.or_eq_false_iff.1 (hquiet hq)).1
    obtain ⟨hkept'', hR'⟩ := h' hkept' fun hq => (Bool.or_eq_false_iff.1 (hquiet hq)).2
    exact ⟨hkept'', forall_mem_append.2 ⟨hR, hR'⟩⟩
  attempt {kept wires before inst after} hQ _ := by
    rcases hattempt : inst.attempt wires loopMax with ⟨wires', inst', f | answer⟩
    · exact .inl ⟨_, _, _, rfl, id⟩
    · have hworker : (resting (before ++ inst :: after))[before.length]? = some ⟨inst, .resting⟩ := by simp [resting]
      have hput : put wires' ⟨wires, resting (before ++ inst :: after)⟩ before.length inst' .resting =
          ⟨wires', resting (before ++ inst' :: after)⟩ := by
        simp [put, resting]
      refine .inr ⟨_, _, _, rfl, fun _ => ⟨kept ∧ (quiet = true → answer.madeProgress = false),
        fun hkept => ?_, fun hkept hquiet => ?_⟩⟩
      · exact hput ▸ (h (hQ hkept.1) hworker hattempt hkept.2).1
      · exact ⟨⟨hkept, hquiet⟩, forall_mem_singleton.2 (h (hQ hkept) hworker hattempt hquiet).2⟩

/-- what every attempt keeps, a round without a fault keeps -/
theorem Keeps.round (hkeeps : Keeps loopMax quiet Q R) (hlen : stats.length = partitions.length)
    (hfault : (Network.round loopMax wires partitions stats).fault = none)
    (hquiet : quiet = true → (Network.round loopMax wires partitions stats).progress = false)
    (h : Q ⟨wires, resting (partitions.flatMap (·.instances))⟩) :
    Q ⟨(Network.round loopMax wires partitions stats).wires,
        resting ((Network.round loopMax wires partitions stats).partitions.flatMap (·.instances))⟩ ∧
      ∀ inst ∈ (Network.round loopMax wires partitions stats).partitions.flatMap (·.instances), R inst := by
  obtain ⟨kept, -, hQ, hcomes⟩ := hkeeps.course.round [] partitions hlen (fun _ => h)
    (fun _ _ _ _ => trivial) (.inr hfault)
  obtain ⟨hkept, hR⟩ := hcomes trivial hquiet
  exact ⟨hQ hkept, hR⟩

theorem keeps_reached (F0 : Overlap σ) : Keeps loopMax false (fun F => ∃ ops, F0.run ops = F) fun _ => True := by
  rintro F k inst inst' wires answer ⟨ops, hops⟩ hworker hattempt -
  exact ⟨⟨ops ++ attemptOps k loopMax, by rw [run_append, hops, run_attempt hworker hattempt]⟩, trivial⟩

theorem round_counts (hlen : stats.length = partitions.length) :
    (Network.round loopMax wires partitions stats).stats.length =
      (Network.round loopMax wires partitions stats).partitions.length := by
  induction partitions generalizing wires stats with
  | nil => simpa [Network.round] using hlen
  | cons p partitions ih =>
    obtain ⟨s, stats, rfl⟩ := exists_cons_of_length_eq_add_one hlen
    unfold Network.round
    dsimp only
    split
    · simpa using hlen
    · simpa using ih (by simpa using hlen)

/-- a round from `before` without a fault, after which a run ends with an outcome -/
structure LastRound (config : RunConfig) (before : Network σ) (stats : List PartitionStats) (after : Network σ)
    (outcome : RunOutcome) : Prop where
  count : stats.length = before.partitions.length
  fault : (Network.round config.loopMax before.wires before.partitions stats).fault = none
  wires : after.wires = (Network.round config.loopMax before.wires before.partitions stats).wires
  partitions : after.partitions = (Network.round config.loopMax before.wires before.partitions stats).partitions
  ended : if after.allTerminated then outcome = .allTerminated
    else outcome = .quiescent ∧ (Network.round config.loopMax before.wires before.partitions stats).progress = false

/-- what every round without a fault keeps holds where a run on one thread ends, and before its last round unless it
ends at its pass limit -/
theorem runRounds_finished {I : Network σ → List PartitionStats → List FiringRecord → Prop}
    (hround : ∀ {n stats r records}, stats.length = n.partitions.length →
      Network.round config.loopMax n.wires n.partitions stats = r →
      r.fault = none → I n stats records → I { n with wires := r.wires, partitions := r.partitions } r.stats
      (records ++ r.records)) (hlen : stats.length = n.partitions.length) (hstart : I n stats records.toList)
    (h : (Network.runRounds id config fuel passes n stats records).ended = .finished summary) :
    I (Network.runRounds id config fuel passes n stats records).network summary.partitions
        (Network.runRounds id config fuel passes n stats records).records ∧
      (summary.outcome ≠ .passLimit → ∃ before stats' records', I before stats' records' ∧
        LastRound config before stats' (Network.runRounds id config fuel passes n stats records).network
        summary.outcome) := by
  induction fuel generalizing passes n stats records with
  | zero => cases h
  | succ fuel ih =>
    unfold Network.runRounds at h ⊢
    split at h
    · next hpasses =>
      cases h
      rw [if_pos hpasses]
      exact ⟨hstart, absurd rfl⟩
    next hpasses =>
    rw [if_neg hpasses]
    dsimp only [id] at h ⊢
    split at h
    · cases h
    next hfault =>
    have hnext := hround hlen rfl hfault hstart
    split at h
    · next hall =>
      cases h
      rw [if_pos hall]
      exact ⟨by simpa using hnext, fun _ => ⟨n, stats, _, hstart, hlen, hfault, rfl, rfl, by rw [if_pos hall]⟩⟩
    next hsome =>
    rw [if_neg hsome]
    split at h
    · next hprogress =>
      rw [if_pos hprogress]
      exact ih (round_counts hlen) (by simpa using hnext) h
    · next hidle =>
      cases h
      rw [if_neg hidle]
      refine ⟨by simpa using hnext, fun _ => ⟨n, stats, _, hstart, hlen, hfault, rfl, rfl, ?_⟩⟩
      rw [if_neg hsome]
      exact ⟨rfl, by simpa using hidle⟩

/-- what every attempt keeps holds before the last round of a run on one thread that does not end at its pass limit -/
theorem Keeps.inline (hkeeps : Keeps config.loopMax false Q R) (hlen : stats.length = n.partitions.length)
    (hstart : Q (start n)) (h : (Network.runRounds id config fuel passes n stats records).ended = .finished summary)
    (hlimit : summary.outcome ≠ .passLimit) : ∃ before stats', Q (start before) ∧
      LastRound config before stats'
      (Network.runRounds id config fuel passes n stats records).network summary.outcome := by
  obtain ⟨before, stats', -, hbefore, hlast⟩ := (runRounds_finished
    (fun hlen hr hfault hQ => by
      subst hr
      exact (hkeeps.round hlen hfault (by simp) hQ).1) hlen hstart h).2 hlimit
  exact ⟨before, stats', hbefore, hlast⟩

end Overlap

end Dataflow
