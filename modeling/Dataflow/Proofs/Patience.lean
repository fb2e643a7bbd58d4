import Dataflow.Proofs.PortEnds

/-!
Actors that block for as long as what they named stays as it is.

Every instance remembers the call that it waits since (`PortWorker.Recalls`); what its ports had left then is never more
than what they have now, so the laws of `Patience` apply (`PortWorker.Recalls.stays`).
-/

namespace Dataflow

open List

/-- what the ports `old` had left is still there: exactly, where a port is named -/
structure Ports.Resumes (old new : Ports) (named : List Blocked) : Prop where
  inputs : new.inputs.length = old.inputs.length
  outputs : new.outputs.length = old.outputs.length
  named : ∀ b ∈ named, new.left b.port = old.left b.port
  others : ∀ p, old.left p ≤ new.left p

namespace Ports.Resumes

variable {old new : Ports} {named : List Blocked} {i n tokens : Nat}

theorem availableIn (h : old.Resumes new named) (hold : old.availableIn i = .ok n) :
    new.availableIn i = .ok (new.left (.input i)) ∧ old.left (.input i) = n := by
  obtain ⟨v, hv, hn⟩ := bind_eq_ok hold
  cases hn
  have hget := fetch_eq_some hv
  have hlt : i < new.inputs.length := h.inputs ▸ lt_of_getElem? hget
  have hnew := getElem?_eq_getElem hlt
  exact ⟨by simp [availableIn, fetch_eq_ok hnew, left, hnew], by simp [left, hget]⟩

/-- views that have as much left at `i` tell the same of it -/
theorem fetch_available {vs ws : List (Attached PortView)} (hlen : ws.length = vs.length)
    (hleft : (ws[i]?.map (·.item.available)).getD 0 = (vs[i]?.map (·.item.available)).getD 0) :
    (return (← fetch ws i).item.available : Checked Nat) = return (← fetch vs i).item.available := by
  by_cases hlt : i < vs.length
  · have hold := getElem?_eq_getElem hlt
    have hnew := getElem?_eq_getElem (hlen ▸ hlt)
    simp only [hold, hnew, Option.map_some, Option.getD_some] at hleft
    simp [fetch_eq_ok hold, fetch_eq_ok hnew, hleft]
  · have hold := getElem?_eq_none_iff.2 (Nat.not_lt.1 hlt)
    have hnew : ws[i]? = none := getElem?_eq_none_iff.2 (hlen ▸ Nat.not_lt.1 hlt)
    simp only [fetch, hold, hnew]

/-- a named input has what it had -/
theorem namedIn (h : old.Resumes new named) (hnamed : ⟨.input i, tokens⟩ ∈ named) :
    new.availableIn i = old.availableIn i := fetch_available h.inputs (h.named _ hnamed)

/-- a named output has the room it had -/
theorem namedOut (h : old.Resumes new named) (hnamed : ⟨.output i, tokens⟩ ∈ named) :
    new.availableOut i = old.availableOut i := fetch_available h.outputs (h.named _ hnamed)

end Ports.Resumes

/-- the laws of actors that go on to block -/
structure Patience (σ : Type) [Behaviour σ] where
  /-- the actors that the laws are about -/
  fit : σ → Prop
  /-- how an actor may change on its own -/
  drift : σ → σ → Prop
  /-- actors that differ only in what no call depends on -/
  same : σ → σ → Prop
  drift_refl : ∀ a, drift a a
  drift_trans : ∀ {a b c}, drift a b → drift b c → drift a c
  same_refl : ∀ {a}, fit a → same a a
  same_trans : ∀ {a b c}, same a b → same b c → same a c
  fit_drift : ∀ {a b}, fit a → drift a b → fit b
  fit_act : ∀ {n a p exit}, fit a → (Behaviour.act n a p).exit = .ok exit →
    fit (Behaviour.act n a p).actor
  same_act : ∀ {a b} n p, same a b → same (Behaviour.act n a p).actor (Behaviour.act n b p).actor ∧
    (Behaviour.act n b p).ports = (Behaviour.act n a p).ports ∧ (Behaviour.act n b p).exit = (Behaviour.act n a p).exit
  /-- a call that blocked is followed by calls that block -/
  parks : ∀ {n a b p new named}, fit a → 1 ≤ n →
    (Behaviour.act n a p).exit = .ok (.block named) → drift (Behaviour.act n a p).actor b →
    (Behaviour.act n a p).ports.Resumes new named → ∀ m, 1 ≤ m →
    ∃ c, Behaviour.act m b new = ⟨c, new, .ok (.block named)⟩ ∧ same b c

/-- the actor, however it changes on its own, blocks on any ports like `old` -/
def Patience.Parked {σ : Type} [Behaviour σ] (P : Patience σ) (a : σ) (old : Ports) (named : List Blocked) : Prop :=
  ∀ {b new m}, P.drift a b → old.Resumes new named → 1 ≤ m →
    ∃ c, Behaviour.act m b new = ⟨c, new, .ok (.block named)⟩ ∧ P.same b c

namespace PortWorker

variable {σ : Type} [Behaviour σ] {P : Patience σ} {wires wires' : List Connection} {tally tally' : Nat → Tally}
  {s s' : PortWorker σ} {maxLoops : Nat} {old : Ports} {named : List Blocked} {exit : Checked Exit} {actor : σ}
  {p : PortId}

/-- the last call left the ports `old` and blocked; what a closed port had left, it still has -/
structure Remembers (P : Patience σ) (s : PortWorker σ) (wires : List Connection) (tally : Nat → Tally) (old : Ports)
    (named : List Blocked) : Prop where
  inputs : old.inputs.length = s.inst.inputs.length
  outputs : old.outputs.length = s.inst.outputs.length
  parked : P.Parked s.inst.actor old named
  left : ∀ {p b}, s.inst.portEnd? p = some b → s.moment.view? p = none →
    b.moved tally + old.left p ≤ b.limit wires tally

/-- the actor is fit, and an instance that waits remembers since when -/
inductive Recalls (P : Patience σ) (wires : List Connection) (tally : Nat → Tally) (s : PortWorker σ) : Prop where
  | idle (hidle : s.moment.idle = true) (hfit : P.fit s.inst.actor)
    (hwaits : ∀ {ports}, s.inst.waiting = some ports → ∃ old named,
      ports = named.map (fun b => (b.port, old.left b.port)) ∧ s.inst.lastExit = some .block ∧
        s.Remembers P wires tally old named)
  | opening {inputs outputs : List (Attached PortView)} (hmoment : s.moment = .opening inputs outputs)
    (hfit : P.fit s.inst.actor)
  | closing {ports : Ports} {exit : Checked Exit} {i o : Nat} (hmoment : s.moment = .closing ports exit i o)
    (hfit : ∀ {e}, exit = .ok e → P.fit s.inst.actor)
    (hwaits : ∀ {named}, exit = .ok (.block named) → s.Remembers P wires tally ports named)
  | faulted {f : Fault} (hmoment : s.moment = .faulted f)

/-! ## What an instance remembers -/

section

variable (h : s.Remembers P wires tally old named)

include h

/-- what leaves the ends of an instance, or raises their limits, leaves its memory -/
theorem Remembers.later (hlater : ∀ {p b}, s.inst.portEnd? p = some b → b.Later wires tally wires' tally') :
    s.Remembers P wires' tally' old named := by
  refine ⟨h.inputs, h.outputs, h.parked, fun hb hshut => ?_⟩
  rw [(hlater hb).moved]
  exact (h.left hb hshut).trans (hlater hb).limit

theorem Remembers.drift (hdrift : P.drift s.inst.actor actor) :
    Remembers P { s with inst := { s.inst with actor } } wires tally old named :=
  ⟨h.inputs, h.outputs, fun hdrift' => h.parked (P.drift_trans hdrift hdrift'), h.left⟩

/-- the memory of a call whose ports are all closed lasts into the time between two calls -/
theorem Remembers.rest (hshut : ∀ {p b}, s.inst.portEnd? p = some b → s.moment.view? p = none)
    (hinputs : s'.inst.inputs = s.inst.inputs) (houtputs : s'.inst.outputs = s.inst.outputs)
    (hactor : s'.inst.actor = s.inst.actor) : s'.Remembers P wires tally old named := by
  refine ⟨by rw [hinputs]; exact h.inputs, by rw [houtputs]; exact h.outputs, by rw [hactor]; exact h.parked, ?_⟩
  intro p b hb _
  have hb' : s.inst.portEnd? p = some b := by
    cases p with
    | input i => simpa [Instance.portEnd?, hinputs] using hb
    | output o => simpa [Instance.portEnd?, houtputs] using hb
  exact h.left hb' (hshut hb')

end

omit [Behaviour σ] in
/-- right after a call all ports are open -/
theorem view?_of_fits {ports : Ports} {b : PortEnd}
    (hinputs : ports.inputs.length = s.inst.inputs.length) (houtputs : ports.outputs.length = s.inst.outputs.length)
    (hb : s.inst.portEnd? p = some b) : (Moment.closing ports exit 0 0).view? p ≠ none := by
  cases p with
  | input i =>
    obtain ⟨e, he, -⟩ := Option.map_eq_some_iff.1 hb
    have hlt := lt_of_getElem? he
    simpa [Moment.view?] using hinputs ▸ hlt
  | output o =>
    obtain ⟨e, he, -⟩ := Option.map_eq_some_iff.1 hb
    have hlt := lt_of_getElem? he
    simpa [Moment.view?] using houtputs ▸ hlt

section Own

variable (hports : Behaviour.ThroughPorts σ) (hloops : 1 ≤ maxLoops) (hs : s.Holds wires tally)
  (hadv : s.Advances wires tally maxLoops wires' tally' s')
  (hframe : ∀ {p b}, s.inst.portEnd? p = some b → (s.moment.view? p = none ∨ s'.moment.view? p ≠ none) →
    b.Later wires tally wires' tally')

include hports hloops hs hadv hframe

omit hs in
/-- from the opening of the ports on -/
theorem Recalls.own_opening {inputs outputs : List (Attached PortView)} (hmoment : s.moment = .opening inputs outputs)
    (hfit : P.fit s.inst.actor) : s'.Recalls P wires' tally' := by
  cases hadv with
  | waits hidle =>
    rw [hmoment] at hidle
    cases hidle
  | faults f => exact .faulted rfl
  | opens => exact .opening rfl hfit
  | calls ins outs hmoment' hinputs houtputs hturn =>
    have hleads : Ports.Leads { wires, inputs := ins, outputs := outs } _ := hports maxLoops s.inst.actor _
    rw [← hturn] at hleads
    have hins := hleads.inputs.length_eq.symm.trans hinputs
    have houts := hleads.outputs.length_eq.symm.trans houtputs
    refine .closing rfl (fun hexit => ?_) fun hexit => ?_
    · subst hturn
      exact P.fit_act hfit hexit
    · refine ⟨hins, houts, fun hdrift hresumes hm => ?_, fun hb hshut => absurd hshut (view?_of_fits hins houts hb)⟩
      subst hturn
      exact P.parks hfit hloops hexit hdrift hresumes _ hm
  | closes q hmoment' | books hmoment' => cases hmoment.symm.trans hmoment'

omit hports hloops in
/-- from the end of a call to the closing of its last port -/
theorem Recalls.own_closing {ports : Ports} {i o : Nat} (hmoment : s.moment = .closing ports exit i o)
    (hfit : ∀ {e}, exit = .ok e → P.fit s.inst.actor)
    (hwaits : ∀ {named}, exit = .ok (.block named) → s.Remembers P wires tally ports named) :
    s'.Recalls P wires' tally' := by
  cases hadv with
  | waits hidle =>
    rw [hmoment] at hidle
    cases hidle
  | faults f => exact .faulted rfl
  | opens q hmoment' | calls ins outs hmoment' => cases hmoment.symm.trans hmoment'
  | @closes q b v _ _ _ _ _ _ _ _ _ inst hmoment' hb hv hc hcloses hown hothers hinst hviews hfits =>
    cases hmoment.symm.trans hmoment'
    have hactor : inst.actor = s.inst.actor := by rw [hinst]
    refine .closing rfl (fun hexit => by rw [hactor]; exact hfit hexit) fun hexit => ?_
    have hold := hwaits hexit
    refine ⟨hfits.1, hfits.2, by rw [hactor]; exact hold.parked, fun {p c} hc' hshut => ?_⟩
    by_cases hp : p = q
    · -- its own port: what the view has not moved is still below the limit
      subst hp
      cases hown.symm.trans hc'
      have hbears := hs.view hb hv
      obtain ⟨-, hmoved, hlimit⟩ := (hs.portEnd hb).close hc hcloses hbears.moved_le
      have hleft := Ports.left_of_view? (view?_of_closing hmoment hv)
      have hopened : v.item.moved + v.item.available = v.item.openedWith := Nat.sub_add_cancel hbears.available
      have hle := hbears.opened
      change b.moved _ + _ ≤ b.limit _ _
      omega
    · have hc' := hothers p hp ▸ hc'
      have hshut' : s.moment.view? p = none := by
        rw [hviews, if_neg hp] at hshut
        exact hshut
      have hlater := hframe hc' (.inl hshut')
      rw [hlater.moved]
      exact (hold.left hc' hshut').trans hlater.limit
  | books hmoment' hinputs houtputs =>
    cases hmoment.symm.trans hmoment'
    refine .idle rfl (hfit rfl) fun {list} hlist => ?_
    obtain ⟨named, rfl, rfl⟩ : ∃ named, ‹Exit› = .block named ∧ list = named.map
      fun b => (b.port, ports.left b.port) := by
      cases hexit : ‹Exit› with
      | terminate | yield =>
        rw [hexit] at hlist
        cases hlist
      | block named =>
        rw [hexit] at hlist
        exact ⟨named, rfl, (Option.some.inj hlist).symm⟩
    exact ⟨ports, named, rfl, rfl, (hwaits rfl).rest (view?_of_closed hmoment hinputs houtputs) rfl rfl rfl⟩

/-- whatever the instance does next, it recalls -/
theorem Recalls.own (h : s.Recalls P wires tally) : s'.Recalls P wires' tally' := by
  cases h with
  | idle hidle hfit hwaits =>
    have hshut : ∀ {p b}, s.inst.portEnd? p = some b → s.moment.view? p = none :=
      fun _ => Moment.view?_of_idle (.inl hidle) _
    cases hadv with
    | waits _ hnext =>
      rcases hnext with hnext | rfl
      · refine .idle hnext hfit fun hwaiting => ?_
        obtain ⟨old, named, hnamed, hexit, hold⟩ := hwaits hwaiting
        exact ⟨old, named, hnamed, hexit, hold.rest hshut rfl rfl rfl⟩
      · exact .opening rfl hfit
    | faults f => exact .faulted rfl
    | opens q hmoment | calls ins outs hmoment | closes q hmoment | books hmoment =>
      rw [hmoment] at hidle
      cases hidle
  | opening hmoment hfit => exact own_opening hports hloops hadv hframe hmoment hfit
  | closing hmoment hfit hwaits => exact own_closing hs hadv hframe hmoment hfit hwaits
  | faulted hmoment =>
    obtain ⟨f, hf⟩ := hadv.of_faulted hmoment
    exact .faulted hf

end Own

theorem Recalls.others (h : s.Recalls P wires tally)
    (hlater : ∀ {p b}, s.inst.portEnd? p = some b → b.Later wires tally wires' tally') :
    s.Recalls P wires' tally' := by
  cases h with
  | idle hidle hfit hwaits =>
    refine .idle hidle hfit fun hwaiting => ?_
    obtain ⟨old, named, hnamed, hexit, hold⟩ := hwaits hwaiting
    exact ⟨old, named, hnamed, hexit, hold.later hlater⟩
  | opening hmoment hfit => exact .opening hmoment hfit
  | closing hmoment hfit hwaits => exact .closing hmoment hfit fun hexit => (hwaits hexit).later hlater
  | faulted hmoment => exact .faulted hmoment

theorem Recalls.drift (h : s.Recalls P wires tally) (hdrift : P.drift s.inst.actor actor) :
    Recalls P wires tally { s with inst := { s.inst with actor } } := by
  cases h with
  | idle hidle hfit hwaits =>
    refine .idle hidle (P.fit_drift hfit hdrift) fun hwaiting => ?_
    obtain ⟨old, named, hnamed, hexit, hold⟩ := hwaits hwaiting
    exact ⟨old, named, hnamed, hexit, hold.drift hdrift⟩
  | opening hmoment hfit => exact .opening hmoment (P.fit_drift hfit hdrift)
  | closing hmoment hfit hwaits =>
    exact .closing hmoment (fun hexit => P.fit_drift (hfit hexit) hdrift) fun hexit => (hwaits hexit).drift hdrift
  | faulted hmoment => exact .faulted hmoment

/-! ## A call instead of a skip -/

/-- an instance that waits between two calls remembers since when -/
theorem Recalls.of_waiting (h : s.Recalls P wires tally) (hidle : s.moment.idle = true) {ports : List (PortId × Nat)}
    (hwaiting : s.inst.waiting = some ports) :
    ∃ old named, ports = named.map (fun b => (b.port, old.left b.port)) ∧ s.inst.lastExit = some .block ∧
      s.Remembers P wires tally old named := by
  cases h with
  | idle _ _ hwaits => exact hwaits hwaiting
  | opening hmoment | closing hmoment | faulted hmoment =>
    rw [hmoment] at hidle
    cases hidle

/-- ports that the instance does not have had nothing left -/
theorem Remembers.left_of_none (h : s.Remembers P wires tally old named) (hb : s.inst.portEnd? p = none) :
    old.left p = 0 := by
  cases p with
  | input i =>
    have hle := getElem?_eq_none_iff.1 (Option.map_eq_none_iff.1 hb)
    have hnone : old.inputs[i]? = none := getElem?_eq_none_iff.2 (h.inputs ▸ hle)
    simp [Ports.left, hnone]
  | output o =>
    have hle := getElem?_eq_none_iff.1 (Option.map_eq_none_iff.1 hb)
    have hnone : old.outputs[o]? = none := getElem?_eq_none_iff.2 (h.outputs ▸ hle)
    simp [Ports.left, hnone]

/-- instead of being passed over, the instance would block on the same ports and do nothing else -/
theorem Recalls.stays (h : s.Recalls P wires tally) (hs : s.Holds wires tally) (hidle : s.moment.idle = true)
    (hblocked : s.inst.stillBlocked wires = .ok true) (hloops : 1 ≤ maxLoops) :
    ∃ ports named actor, s.inst.openPorts wires = .ok ports ∧
      s.inst.waiting = some (named.map fun b => (b.port, ports.left b.port)) ∧ s.inst.lastExit = some .block ∧
      Behaviour.act maxLoops s.inst.actor ports = ⟨actor, ports, .ok (.block named)⟩ ∧ P.same s.inst.actor actor := by
  obtain ⟨list, hwaiting, -, hunchanged⟩ := Instance.stillBlocked_eq_true_iff.1 hblocked
  obtain ⟨old, named, rfl, hexit, hold⟩ := h.of_waiting hidle hwaiting
  obtain ⟨ports, hopen⟩ := hs.openPorts
  have hleft := Instance.availability_eq_left hopen
  obtain ⟨hins, houts, -, -⟩ := Instance.openPorts_eq_ok hopen
  have hnamed : ∀ b ∈ named, ports.left b.port = old.left b.port := by
    intro b hb
    have hnow := hunchanged _ (mem_map_of_mem hb)
    exact Except.ok.inj ((hleft b.port).symm.trans hnow)
  have hresumes : old.Resumes ports named := by
    refine ⟨(mapM_spec hins).1.trans hold.inputs.symm, (mapM_spec houts).1.trans hold.outputs.symm, hnamed, fun p => ?_⟩
    cases hb : s.inst.portEnd? p with
    | none => exact (hold.left_of_none hb).symm ▸ Nat.zero_le _
    | some b =>
      have hnow := Except.ok.inj ((hleft p).symm.trans (Instance.availability_eq_limit hb (hs.portEnd hb)))
      have hthen := hold.left hb (Moment.view?_of_idle (.inl hidle) p)
      omega
  obtain ⟨actor, hact, hsame⟩ := hold.parked (P.drift_refl _) hresumes hloops
  refine ⟨ports, named, actor, hopen, ?_, hexit, hact, hsame⟩
  rw [hwaiting]
  exact congrArg some (map_congr_left fun b hb => by rw [hnamed b hb])

end PortWorker

theorem PortOverlap.keeps_recalls {σ : Type} [Behaviour σ] (P : Patience σ) (hports : Behaviour.ThroughPorts σ) :
    PortOverlap.Keeps 1 P.drift fun wires tally s => s.Recalls P wires tally where
  own hloops hs hadv hframe h := h.own hports hloops hs hadv hframe
  others hlater h := h.others hlater
  drift hdrift h := h.drift hdrift

/-- an instance of a built network waits for nothing -/
theorem PortWorker.recalls_new {σ : Type} [Behaviour σ] {P : Patience σ} {b : Builder σ} {mapping : Option Mapping}
    {n : Network σ} (hbuild : b.build mapping = .ok n) {inst : Instance σ} (hinst : inst ∈ n.instances)
    (hfit : P.fit inst.actor) (wires : List Connection) (tally : Nat → Tally) :
    PortWorker.Recalls P wires tally { inst } := by
  obtain ⟨ws, -, hbuilt⟩ := Builder.built_of_build hbuild
  obtain ⟨d, -, hplaced⟩ := hbuilt.placed inst hinst
  refine .idle rfl hfit fun hwaiting => ?_
  have hfresh : inst.waiting = none := by rw [hplaced.fresh]
  cases hfresh.symm.trans hwaiting

end Dataflow
