import Dataflow.Proofs.StockCalls
import Dataflow.Proofs.WakeUp

/-!
How often a sink waits in vain. Every attempt that ends in a block is paid for by a token, but for one: an unpaid one
leaves the sink waiting for a token (`PortWorker.Unpaid`), and a call that begins with a token takes it or ends for
good.

- `PortOverlap.sink_blocks_le`: in every network that can be built, whatever the other instances do between the parts of
  its attempts, a sink has ended at most one more attempt in a block than it has got tokens.
- Witness `PortOverlap.sink_blocks_le_doubling`.

Premises: actors work through their ports, the instance acts as a sink does (`embed`), and its calls may fire at all
(`PortOverlap.Blocks`).
-/

namespace Dataflow

open List

/-- a sink takes one token a firing -/
theorem Sink.act_tokens (n : Nat) (x : Sink) (p : Ports) :
    (x.act n p).actor.tokens.size + p.actions.size = x.tokens.size + (x.act n p).ports.actions.size := by
  fun_induction Sink.act n x p with
  | case6 n x p hfull hinput value q hread ih =>
    have hsize := Ports.size_actions_fire q 0
    rw [Ports.onInput_actions hread] at hsize
    rw [Array.size_push] at ih
    omega
  | case1 | case2 | case3 | case4 | case5 => rfl

/-- a call that is not the last one and began with a token has taken it -/
theorem Sink.act_takes {n : Nat} {x : Sink} {p : Ports} {exit : Exit} (hloops : 1 ≤ n)
    (hexit : (x.act n p).exit = .ok exit) (hlast : exit ≠ .terminate) (hinput : p.availableIn 0 ≠ .ok 0) :
    x.tokens.size < (x.act n p).actor.tokens.size := by
  have htokens := Sink.act_tokens n x p
  cases exit with
  | terminate => exact absurd rfl hlast
  | yield =>
    have hfired := (x.act_spends hexit).all rfl
    omega
  | block blocked =>
    rcases (x.act_spends hexit).stirs with hsame | hfired
    · exact absurd (hsame ▸ (x.act_blocks hexit).2.2) hinput
    · omega

variable {σ : Type}

namespace PortWorker

/-- one if an attempt has ended in a block from the first point to the second -/
def blockedSince (s s' : PortWorker σ) : Nat :=
  if s.inst.stats.attempts < s'.inst.stats.attempts ∧ s'.inst.lastExit = some .block then 1 else 0

theorem blockedSince_of_attempts {s s' : PortWorker σ} (h : s'.inst.stats.attempts = s.inst.stats.attempts) :
    s.blockedSince s' = 0 :=
  if_neg fun hmore => by omega

/-- what has to hold while one attempt more has ended in a block than tokens have come -/
def Unpaid (wires : List Connection) (tally : Nat → Tally) (s : PortWorker σ) : Prop :=
  match s.moment with
  | .resting => s.inst.terminated = true ∨ s.inst.waiting = some [(.input 0, 0)]
  | .comparing ports => s.inst.waiting = some [(.input 0, 0)] ∧ (ports = [] ∨ ports = [(.input 0, 0)])
  | .opening inputs _ => ∃ b, s.inst.portEnd? (.input 0) = some b ∧ b.moved tally < b.limit wires tally ∧
      ∀ v, inputs[0]? = some v → v.item.available ≠ 0
  | .closing _ exit _ _ => ∀ e, exit = .ok e → e = .terminate
  | .faulted _ => True

/-- a sink that has to show `owed` tokens, one of them later -/
structure Pays (embed : Sink → σ) (owed : Nat) (wires : List Connection) (tally : Nat → Tally) (s : PortWorker σ)
    (x : Sink) : Prop where
  actor : s.inst.actor = embed x
  owed_le : owed ≤ x.tokens.size + 1
  unpaid : x.tokens.size < owed → s.Unpaid wires tally
  records : ∀ {ports blocked i o}, s.moment = .closing ports (.ok (.block blocked)) i o →
    Instance.waitList ports (.block blocked) = some [(.input 0, 0)]

variable {embed : Sink → σ} {owed maxLoops : Nat} {wires wires' : List Connection} {tally tally' : Nat → Tally}
  {s s' : PortWorker σ} {x : Sink}

/-- where no attempt ends in a block, nothing more is owed -/
theorem Pays.unblocked (h : s'.Pays embed owed wires tally x) (hnone : s.blockedSince s' = 0) :
    ∃ y, s'.Pays embed (owed + s.blockedSince s') wires tally y := ⟨x, by rwa [hnone]⟩

section

variable (h : s.Pays embed owed wires tally x)

include h

/-- what others do only adds tokens -/
theorem Pays.others (hlater : ∀ {p b}, s.inst.portEnd? p = some b → b.Later wires tally wires' tally') :
    s.Pays embed owed wires' tally' x := by
  refine ⟨h.actor, h.owed_le, fun howed => ?_, h.records⟩
  have hunpaid := h.unpaid howed
  unfold Unpaid at hunpaid ⊢
  split at hunpaid
  · exact hunpaid
  · exact hunpaid
  · obtain ⟨b, hb, hlt, hviews⟩ := hunpaid
    exact ⟨b, hb, by rw [(hlater hb).moved]; exact hlt.trans_le (hlater hb).limit, hviews⟩
  · exact hunpaid
  · trivial

/-- an unpaid sink that begins an attempt looks at its input first -/
theorem Pays.enter (hmoment : s.moment = .resting) : s.enter.Pays embed owed wires tally x := by
  unfold PortWorker.enter
  split
  · exact h
  next hgoing =>
  have hwaits : x.tokens.size < owed → s.inst.waiting = some [(.input 0, 0)] := fun howed => by
    have hunpaid := h.unpaid howed
    rw [Unpaid, hmoment] at hunpaid
    exact hunpaid.resolve_left hgoing
  split
  · next p ports hports =>
    refine ⟨h.actor, h.owed_le, fun howed => ?_, fun hclosing => by cases hclosing⟩
    exact ⟨hwaits howed, .inr (Option.some.inj (hports.symm.trans (hwaits howed)))⟩
  · next hnone =>
    exact ⟨h.actor, h.owed_le, fun howed => absurd (hwaits howed) (hnone _ _), fun hclosing => by cases hclosing⟩

/-- an unpaid sink begins a call only if there is a token -/
theorem Pays.compare {ports : List (PortId × Nat)} (hs : s.Holds wires tally)
    (hmoment : s.moment = .comparing ports) : (s.compare wires ports).Pays embed owed wires tally x := by
  have hwaits : x.tokens.size < owed → s.inst.waiting = some [(.input 0, 0)] ∧ (ports = [] ∨ ports = [(.input 0, 0)]) :=
    fun howed => by
    have hunpaid := h.unpaid howed
    rwa [Unpaid, hmoment] at hunpaid
  cases ports with
  | nil => exact ⟨h.actor, h.owed_le, fun howed => .inr (hwaits howed).1, fun hclosing => by cases hclosing⟩
  | cons first rest =>
    obtain ⟨port, seen⟩ := first
    rw [PortWorker.compare]
    split
    · exact ⟨h.actor, h.owed_le, fun _ => trivial, fun hclosing => by cases hclosing⟩
    next now hnow =>
    refine ⟨h.actor, h.owed_le, fun howed => ?_,
      fun hclosing => by dsimp [goTo] at hclosing; split at hclosing <;> cases hclosing⟩
    obtain ⟨hwaiting, hports⟩ := hwaits howed
    obtain ⟨⟨rfl, rfl⟩, rfl⟩ : (port = .input 0 ∧ seen = 0) ∧ rest = [] := by simpa using hports
    by_cases hnone : now = 0
    · rw [if_pos hnone]
      exact ⟨hwaiting, .inl rfl⟩
    rw [if_neg hnone]
    cases hb : s.inst.portEnd? (.input 0) with
    | none =>
      have hend : s.inst.inputs[0]? = none := Option.map_eq_none_iff.1 hb
      rw [Instance.availability, hend] at hnow
      exact absurd (Except.ok.inj hnow).symm hnone
    | some b =>
      rw [Instance.availability_eq_limit hb (hs.portEnd hb)] at hnow
      have hnow := Except.ok.inj hnow
      exact ⟨b, hb, by omega, fun v hv => by cases hv⟩

end

section Calls

variable [Behaviour σ] (hact : ∀ n x ports, Behaviour.act n (embed x) ports = (Sink.act n x ports).map embed)

include hact

/-- an unpaid sink that is called takes a token, or ends for good -/
theorem Pays.calls {inputs outputs : List (Attached PortView)} (h : s.Pays embed owed wires tally x)
    (hloops : 1 ≤ maxLoops) (hmoment : s.moment = .opening inputs outputs)
    (hinputs : inputs.length = s.inst.inputs.length) :
    let turn := Behaviour.act maxLoops s.inst.actor { wires, inputs, outputs }
    ∃ y, PortWorker.Pays embed owed turn.ports.wires tally ⟨{ s.inst with actor := turn.actor },
      .closing turn.ports turn.exit 0 0⟩ y := by
  rw [h.actor, hact]
  have htokens := Sink.act_tokens maxLoops x { wires, inputs, outputs }
  have howed := h.owed_le
  generalize hturn : x.act maxLoops { wires, inputs, outputs } = turn at htokens
  have hgrows : x.tokens.size ≤ turn.actor.tokens.size := by
    simp only [size_toArray, length_nil] at htokens
    omega
  refine ⟨turn.actor, rfl, by omega, fun hmore exit hexit => ?_, fun {ports blocked i o} hclosing => ?_⟩
  · by_contra hlast
    have hunpaid := h.unpaid (by omega)
    rw [Unpaid, hmoment] at hunpaid
    obtain ⟨b, hb, -, hviews⟩ := hunpaid
    -- all inputs are open, the first one with a token
    obtain ⟨e, hend, -⟩ := Option.map_eq_some_iff.1 hb
    obtain ⟨v, hv⟩ : ∃ v, inputs[0]? = some v := ⟨_, getElem?_eq_getElem (hinputs ▸ lt_of_getElem? hend)⟩
    have hinput : Ports.availableIn { wires, inputs, outputs } 0 ≠ .ok 0 := fun hnone => by
      rw [Ports.availableIn, fetch_eq_ok hv] at hnone
      exact hviews v hv (Except.ok.inj hnone)
    have htaken := Sink.act_takes hloops (hturn ▸ hexit) hlast hinput
    rw [hturn] at htaken
    omega
  · obtain ⟨rfl, hexit, -, -⟩ : turn.ports = ports ∧ turn.exit = .ok (.block blocked) ∧ 0 = i ∧ 0 = o := by
      simpa [Turn.map] using hclosing
    obtain ⟨rfl, -, hnone⟩ := x.act_blocks (hturn ▸ hexit)
    rw [hturn] at hnone
    obtain ⟨v, hv, hnone⟩ := bind_eq_ok hnone
    have hview : turn.ports.view? (.input 0) = some v := fetch_eq_some hv
    have hleft : turn.ports.left (.input 0) = 0 := (Ports.left_of_view? hview).trans (Except.ok.inj hnone)
    simp [Instance.waitList, hleft]

/-- what one part of a sink's attempt costs and brings -/
theorem Pays.own (h : s.Pays embed owed wires tally x) (hloops : 1 ≤ maxLoops) (hs : s.Holds wires tally)
    (hbusy : s.moment.idle = false) (hadv : s.Advances wires tally maxLoops wires' tally' s') :
    ∃ y, s'.Pays embed (owed + s.blockedSince s') wires' tally' y := by
  cases hadv with
  | waits hidle =>
    rw [hidle] at hbusy
    cases hbusy
  | faults f =>
    exact Pays.unblocked ⟨h.actor, h.owed_le, fun _ => trivial, fun hclosing => by cases hclosing⟩
      (blockedSince_of_attempts rfl)
  | opens p hmoment hnext hb hlevel hwire hunused hviews hfits =>
    refine Pays.unblocked ⟨h.actor, h.owed_le, fun howed => ?_, fun hclosing => by cases hclosing⟩
      (blockedSince_of_attempts rfl)
    have hunpaid := h.unpaid howed
    rw [Unpaid, hmoment] at hunpaid
    obtain ⟨b, hinput, hlt, hopen⟩ := hunpaid
    refine ⟨b, hinput, hlt, fun v hv => ?_⟩
    have hview := (hviews (.input 0)).symm.trans hv
    split at hview
    · next hp =>
      subst hp
      cases hview
      rw [Instance.availability_eq_limit hinput (hs.portEnd hinput)] at hlevel
      have hlevel := Except.ok.inj hlevel
      omega
    · rw [hmoment] at hview
      exact hopen v hview
  | calls inputs outputs hmoment hinputs houtputs hturn =>
    subst hturn
    obtain ⟨y, hy⟩ := h.calls hact hloops hmoment hinputs
    exact hy.unblocked (blockedSince_of_attempts rfl)
  | closes q hmoment hb hv hc hcloses hown hothers hinst hviews hfits =>
    refine Pays.unblocked ⟨(congrArg (·.actor) hinst).trans h.actor, h.owed_le, fun howed => ?_, fun hclosing => ?_⟩
      (blockedSince_of_attempts (congrArg (·.stats.attempts) hinst))
    · have hunpaid := h.unpaid howed
      rwa [Unpaid, hmoment] at hunpaid
    · cases hclosing
      exact h.records hmoment
  | @books ports exit i o hmoment =>
    have howed := h.owed_le
    have hunpaid := h.unpaid
    rw [Unpaid, hmoment] at hunpaid
    cases exit with
    | block blocked =>
      -- this attempt is the one to be paid for next
      have hone : s.blockedSince ⟨s.inst.book (.block blocked) (Instance.waitList ports (.block blocked)) ports.firing,
        .resting⟩ = 1 :=
        if_pos ⟨Nat.lt_succ_self _, rfl⟩
      have hpaid : owed ≤ x.tokens.size := by
        by_contra hmore
        cases hunpaid (by omega) _ rfl
      exact ⟨x, h.actor, by omega, fun _ => .inr (h.records hmoment), fun hclosing => by cases hclosing⟩
    | terminate =>
      exact Pays.unblocked ⟨h.actor, howed, fun _ => .inl (Bool.or_true _), fun hclosing => by cases hclosing⟩
        (if_neg fun hblock => by cases hblock.2)
    | yield =>
      exact Pays.unblocked ⟨h.actor, howed, fun hmore => (by cases hunpaid hmore _ rfl),
        fun hclosing => by cases hclosing⟩ (if_neg fun hblock => by cases hblock.2)

end Calls

end PortWorker

namespace PortOverlap

variable [Behaviour σ] {W V : PortOverlap σ} {Drift : σ → σ → Prop} {k n : Nat} {s : PortWorker σ} {embed : Sink → σ}
  {x : Sink}

/-- the attempts at place `k` that end in a block from one state to the next -/
def blockedSince (W V : PortOverlap σ) (k : Nat) : Nat :=
  ((W.workers.zip V.workers)[k]?.map fun pair => pair.1.blockedSince pair.2).getD 0

/-- parts that leave a call at least one firing lead from `W` to another state, while the actors of other instances
change by `Drift` on their own; `n` attempts of the instance at place `k` end in a block -/
inductive Blocks (k : Nat) (Drift : σ → σ → Prop) (W : PortOverlap σ) : Nat → PortOverlap σ → Prop where
  | refl : Blocks k Drift W 0 W
  | step {V : PortOverlap σ} {n maxLoops : Nat} (h : Blocks k Drift W n V) (j : Nat) (hloops : 1 ≤ maxLoops) :
    Blocks k Drift W (n + V.blockedSince (V.step j maxLoops) k) (V.step j maxLoops)
  | drift {V : PortOverlap σ} {n j : Nat} {s : PortWorker σ} {actor : σ} (h : Blocks k Drift W n V) (hother : j ≠ k)
    (hs : V.workers[j]? = some s) (hdrift : Drift s.inst.actor actor) :
    Blocks k Drift W n (V.put j { s with inst := { s.inst with actor } })

theorem Blocks.reaches (h : W.Blocks k Drift n V) : W.Reaches 1 Drift V := by
  induction h with
  | refl => exact .refl
  | step _ j hloops ih => exact ih.step j hloops
  | drift _ _ hs hdrift ih => exact ih.drift hs hdrift

/-- a sink between two calls decides whether to begin another -/
theorem step_idle {maxLoops owed : Nat} (hk : W.workers[k]? = some s) (hs : s.Holds W.wires W.tally)
    (h : s.Pays embed owed W.wires W.tally x) (hidle : s.moment.idle = true) : ∃ s', W.step k maxLoops = W.put k s' ∧
      s'.inst.stats.attempts = s.inst.stats.attempts ∧ s'.Pays embed owed W.wires W.tally x := by
  cases hmoment : s.moment with
  | resting =>
    refine ⟨s.enter, by simp only [step, hk, advance, hmoment], ?_, h.enter hmoment⟩
    unfold PortWorker.enter
    split
    · rfl
    split <;> rfl
  | comparing ports =>
    refine ⟨s.compare W.wires ports, by simp only [step, hk, advance, hmoment], ?_, h.compare hs hmoment⟩
    unfold PortWorker.compare
    split
    · rfl
    split <;> rfl
  | opening | closing | faulted =>
    rw [hmoment] at hidle
    cases hidle

/-- over any overlap of attempts a sink keeps paying -/
theorem Blocks.pays (hports : Behaviour.ThroughPorts σ)
    (hact : ∀ n x ports, Behaviour.act n (embed x) ports = (Sink.act n x ports).map embed) (hW : W.Sound)
    (hs : W.workers[k]? = some s) {owed : Nat} (hpays : s.Pays embed owed W.wires W.tally x)
      (h : W.Blocks k Drift n V) : ∃ s' y, V.workers[k]? = some s' ∧ s'.Pays embed (owed + n) V.wires V.tally y := by
  induction h with
  | refl => exact ⟨s, x, hs, hpays⟩
  | @step V n maxLoops h j hloops ih =>
    obtain ⟨t, y, ht, hy⟩ := ih
    have hV := hW.reaches hports h.reaches
    -- it is enough to follow the one worker
    suffices hnext : ∃ t' z, (V.step j maxLoops).workers[k]? = some t' ∧
        t'.Pays embed (owed + n + t.blockedSince t') (V.step j maxLoops).wires (V.step j maxLoops).tally z by
      obtain ⟨t', z, ht', hz⟩ := hnext
      have hpair := getElem?_zip_eq_some (z := (t, t')).2 ⟨ht, ht'⟩
      have hsince : V.blockedSince (V.step j maxLoops) k = t.blockedSince t' := by rw [blockedSince, hpair]; rfl
      exact ⟨t', z, ht', by rwa [hsince, ← Nat.add_assoc]⟩
    by_cases hj : j = k
    · subst hj
      have hlt := lt_of_getElem? ht
      cases hidle : t.moment.idle with
      | true =>
        obtain ⟨t', hstep, hattempts, hz⟩ := step_idle ht (hV.holds ht) hy hidle
        obtain ⟨z, hz⟩ := hz.unblocked (PortWorker.blockedSince_of_attempts hattempts)
        rw [hstep]
        exact ⟨t', z, getElem?_set_self hlt, hz⟩
      | false =>
        obtain ⟨wires, tally, t', hstep, hadv⟩ := hV.step_eq ht maxLoops
        obtain ⟨z, hz⟩ := hy.own hact hloops (hV.holds ht) hidle hadv
        rw [hstep]
        exact ⟨t', z, getElem?_set_self hlt, hz⟩
    · have hnone : t.blockedSince t = 0 := PortWorker.blockedSince_of_attempts rfl
      rcases hV.step_cases j maxLoops with hstep | ⟨u, hu, wires, tally, u', hstep, hadv⟩
      · rw [hstep]
        exact ⟨t, y, ht, by rwa [hnone]⟩
      · have hlater : ∀ {p b}, t.inst.portEnd? p = some b → b.Later V.wires V.tally wires tally := fun hb =>
          hV.frame hports hu hadv ht hb fun heq => absurd heq.symm hj
        rw [hstep]
        exact ⟨t, y, (getElem?_set_ne hj).trans ht, by rw [hnone]; exact hy.others hlater⟩
  | @drift V n j t actor h hother ht hdrift ih =>
    obtain ⟨u, y, hu, hy⟩ := ih
    exact ⟨u, y, (getElem?_set_ne hother).trans hu, hy⟩

/-- **Blocking is bounded by what is received**, whatever goes on beside the sink. -/
theorem sink_blocks_le (hports : Behaviour.ThroughPorts σ)
    (hact : ∀ n x ports, Behaviour.act n (embed x) ports = (Sink.act n x ports).map embed) {b : Builder σ}
    (hmade : b.Made) {mapping : Option Mapping} {net : Network σ} (hbuild : b.build mapping = .ok net)
    (hs : (PortOverlap.start net).workers[k]? = some s) (hsink : s.inst.actor = embed x)
    (hrun : (PortOverlap.start net).Blocks k Drift n V) :
    ∃ s' y, V.workers[k]? = some s' ∧ s'.inst.actor = embed y ∧ x.tokens.size + n ≤ y.tokens.size + 1 := by
  have hmoment := (worker_start hs).2
  have hpays : s.Pays embed x.tokens.size (start net).wires (start net).tally x :=
    ⟨hsink, Nat.le_succ _, fun hless => absurd hless (Nat.lt_irrefl _),
      fun hclosing => by rw [hmoment] at hclosing; cases hclosing⟩
  obtain ⟨s', y, hs', hy⟩ := hrun.pays hports hact (sound_start hmade hbuild) hs hpays
  exact ⟨s', y, hs', hy.actor, hy.owed_le⟩

/-- the attempts at place `k` that end in a block during a run -/
def blockedIn (W : PortOverlap σ) (k : Nat) : List (Nat × Nat) → Nat
  | [] => 0
  | part :: parts => W.blockedSince (W.step part.1 part.2) k + (W.step part.1 part.2).blockedIn k parts

theorem Blocks.run (h : W.Blocks k Drift n V) {parts : List (Nat × Nat)} (hparts : ∀ part ∈ parts, 1 ≤ part.2) :
    W.Blocks k Drift (n + V.blockedIn k parts) (V.run parts) := by
  induction parts generalizing n V with
  | nil => exact h
  | cons part parts ih =>
    have hrest := ih (h.step part.1 (hparts part mem_cons_self))
      fun other hother => hparts other (mem_cons_of_mem part hother)
    rwa [Nat.add_assoc] at hrest

/-- the sink of the doubling network is tried too early, and again when its first number is there -/
def doublingTries : List (Nat × Nat) :=
  replicate 5 (1, 1) ++ replicate 5 (0, 1) ++ replicate 7 (2, 1) ++ replicate 6 (1, 2)

/-- it has ended both attempts in a block, so it has a number -/
theorem sink_blocks_le_doubling : (PortOverlap.start doublingNetwork).blockedIn 1 doublingTries = 2 ∧
    ∃ s y, ((PortOverlap.start doublingNetwork).run doublingTries).workers[1]? = some s ∧ s.inst.actor = .sink y ∧
    1 ≤ y.tokens.size := by
  have htwo : (start doublingNetwork).blockedIn 1 doublingTries = 2 := by decide +kernel
  obtain ⟨s, hs, hactor⟩ : ∃ s, (start doublingNetwork).workers[1]? = some s ∧ s.inst.actor = .sink {} := ⟨_, rfl, rfl⟩
  have hbuild : doubling.build none = .ok doublingNetwork := rfl
  have hrun : (start doublingNetwork).Blocks 1 (fun _ _ => False)
    (0 + (start doublingNetwork).blockedIn 1 doublingTries)
      ((start doublingNetwork).run doublingTries) := Blocks.refl.run (by decide)
  obtain ⟨s', y, hs', hy, hle⟩ := sink_blocks_le Component.throughPorts
    (fun _ _ _ => rfl) doubling_made hbuild hs hactor hrun
  refine ⟨htwo, s', y, hs', hy, ?_⟩
  rw [htwo] at hle
  simpa using hle

end PortOverlap

end Dataflow
