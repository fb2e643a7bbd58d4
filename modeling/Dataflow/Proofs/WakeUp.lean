import Dataflow.Proofs.PortEnds
import Dataflow.Proofs.Delivery

/-!
No wake-up is lost.

Model: attempts in parts that overlap in any way (`PortOverlap`). An instance opens a port at the moment `W`, its call
ends and leaves it waiting for that port, and `W'` is a later moment before its next call.

- `no_wake_up_is_lost`: what the port has at `W'` differs from what was recorded if and only if, for an input, a token
  was published on its connection since `W`, whoever did so; and for an output, its room is above the room at `W` less
  what the instance has published since, which is so if and only if the slowest readers have released tokens since. What
  the port has only grows up to the next call, so it never comes back to what was recorded.
- `PortWorker.Follows` carries the proof: followed from the opening on, what the port has differs exactly if its limit
  has risen, and a limit never falls. The tallies are unbounded, while the totals that the instance compares are words
  that wrap.
- Witness `no_wake_up_is_lost_doubling`.

Premises: a built network of actors that work through their ports. The other instances may do anything, and between the
calls actors may drift.
-/

namespace Dataflow

open List

/-- what is recorded of a port is what the call left there -/
theorem Instance.mem_waitList {ports : Ports} {exit : Exit} {named : List (PortId × Nat)} {p : PortId} {seen : Nat}
    (h : Instance.waitList ports exit = some named) (hseen : (p, seen) ∈ named) : seen = ports.left p := by
  cases exit with
  | terminate | yield => cases h
  | block blocked =>
    cases h
    obtain ⟨x, -, hx⟩ := mem_map.1 hseen
    obtain ⟨rfl, rfl⟩ := Prod.mk.inj hx
    rfl

namespace PortWorker

variable {σ : Type} {s s' : PortWorker σ} {wires wires' : List Connection} {tally tally' : Nat → Tally} {maxLoops : Nat}
  {p : PortId} {reach calls : Nat}

/-! ## Open views -/

theorem view?_of_opensNext? (h : s.opensNext? = some p) : s.moment.view? p = none := by
  unfold opensNext? at h
  split at h
  · next hmoment =>
    rw [hmoment]
    split at h
    · cases h
      simp [Moment.view?]
    split at h
    · cases h
      simp [Moment.view?]
    · cases h
  · cases h

theorem portEnd?_of_opensNext? (h : s.opensNext? = some p) : ∃ b, s.inst.portEnd? p = some b := by
  unfold opensNext? at h
  split at h
  · split at h
    · next hlt =>
      cases h
      exact ⟨_, by rw [Instance.portEnd?, getElem?_eq_getElem hlt]; rfl⟩
    split at h
    · next hlt =>
      cases h
      exact ⟨_, by rw [Instance.portEnd?, getElem?_eq_getElem hlt]; rfl⟩
    · cases h
  · cases h

/-! ## From the opening of a port on -/

/-- the port `p` was opened in the call after `calls` others, when its end might move `reach` tokens in all -/
inductive Follows (p : PortId) (reach calls : Nat) (tally : Nat → Tally) (s : PortWorker σ) : Prop where
  | opened {b : PortEnd} {v : Attached PortView} (hcalls : s.inst.stats.attempts = calls)
      (hb : s.inst.portEnd? p = some b)
    (hv : s.moment.view? p = some v) (hreach : b.moved tally + v.item.openedWith = reach)
  | closed {b : PortEnd} {v : Attached PortView} {ports : Ports} {exit : Checked Exit} {i o : Nat}
    (hcalls : s.inst.stats.attempts = calls) (hb : s.inst.portEnd? p = some b)
    (hmoment : s.moment = .closing ports exit i o)
    (hshut : s.moment.view? p = none) (hv : ports.view? p = some v) (hreach : b.moved tally + v.item.available = reach)
  | waits {b : PortEnd} (hcalls : s.inst.stats.attempts = calls + 1) (hidle : s.moment.idle = true)
    (hb : s.inst.portEnd? p = some b)
    (hreach : ∀ {ports seen}, s.inst.waiting = some ports → (p, seen) ∈ ports →
      b.moved tally + seen = reach)
  | faulted {f : Fault} (hf : s.moment = .faulted f)
  /-- in the next call, or behind it -/
  | again (h : calls < s.inst.stats.attempts ∧ s.moment.idle = false ∨ calls + 1 < s.inst.stats.attempts)

variable [Behaviour σ]

/-- only the end of a call adds to the attempts, and only it ends the time with open ports -/
theorem Advances.attempts (h : s.Advances wires tally maxLoops wires' tally' s') :
    (s'.inst.stats.attempts = s.inst.stats.attempts ∧ (s.moment.idle = false → s'.moment.idle = false)) ∨
      s'.inst.stats.attempts = s.inst.stats.attempts + 1 := by
  cases h with
  | waits hidle => exact .inl ⟨rfl, fun hbusy => by rw [hidle] at hbusy; cases hbusy⟩
  | faults | opens | calls => exact .inl ⟨rfl, fun _ => rfl⟩
  | closes q hmoment hb hv hc hcloses hown hothers hinst =>
    rw [hinst]
    exact .inl ⟨rfl, fun _ => rfl⟩
  | books hmoment => exact .inr rfl

/-- an instance at rest touches nothing -/
theorem Advances.of_idle (h : s.Advances wires tally maxLoops wires' tally' s') (hidle : s.moment.idle = true) :
    tally' = tally ∧ s'.inst.portEnd? = s.inst.portEnd? ∧ s'.inst.waiting = s.inst.waiting ∧
      s'.inst.stats.attempts = s.inst.stats.attempts := by
  cases h with
  | waits | faults => exact ⟨rfl, rfl, rfl, rfl⟩
  | opens p hmoment | calls inputs outputs hmoment | closes q hmoment | books hmoment =>
    rw [hmoment] at hidle
    cases hidle

section Own

variable (hports : Behaviour.ThroughPorts σ) (hs : s.Holds wires tally)
  (hadv : s.Advances wires tally maxLoops wires' tally' s')
  (hframe : ∀ {p b}, s.inst.portEnd? p = some b → (s.moment.view? p = none ∨ s'.moment.view? p ≠ none) →
    b.Later wires tally wires' tally') {v : Attached PortView}

include hports hs hadv hframe

/-- an open port is followed through the parts of its own instance -/
theorem Follows.own_opened (hcalls : s.inst.stats.attempts = calls) (hb : s.inst.portEnd? p = some b)
    (hv : s.moment.view? p = some v) (hreach : b.moved tally + v.item.openedWith = reach) :
    s'.Follows p reach calls tally' := by
  cases hadv with
  | waits hidle =>
    rw [Moment.view?_of_idle (.inl hidle)] at hv
    cases hv
  | faults f => exact .faulted rfl
  | opens q hmoment hnext hbq hlevel hwire hunused hviews =>
    have hne : p ≠ q := by
      rintro rfl
      rw [view?_of_opensNext? hnext] at hv
      cases hv
    exact .opened hcalls hb ((hviews p).trans ((if_neg hne).trans hv)) hreach
  | calls inputs outputs hmoment hinputs houtputs hturn =>
    subst hturn
    have hleads := hports maxLoops s.inst.actor ⟨wires, inputs, outputs, #[]⟩
    obtain ⟨w, hw, hused⟩ := view?_called hmoment hleads hv
    exact .opened hcalls hb hw (by rw [hused.openedWith]; exact hreach)
  | closes q hmoment hbq hvq hc hcloses hown hothers hinst hviews =>
    have hcalls' := (congrArg (·.stats.attempts) hinst).trans hcalls
    by_cases hne : p = q
    · -- its own port: what went through the view is moved now
      subst hne
      cases hb.symm.trans hbq
      cases hv.symm.trans hvq
      have hbears := hs.view hb hv
      obtain ⟨-, hmoved, -⟩ := (hs.portEnd hb).close hc hcloses hbears.moved_le
      refine .closed hcalls' hown rfl ((hviews p).trans (if_pos rfl)) (view?_of_closing hmoment hv) ?_
      have hopened : v.item.moved + v.item.available = v.item.openedWith := Nat.sub_add_cancel hbears.available
      rw [← hreach, ← hopened, ← Nat.add_assoc, ← hmoved]
      rfl
    · have hlater := hframe hb (Moment.view?_kept hviews hne)
      exact .opened hcalls' ((hothers p hne).trans hb) ((hviews p).trans ((if_neg hne).trans hv))
        (by rw [hlater.moved]; exact hreach)
  | books hmoment hinputs houtputs =>
    rw [view?_of_closed hmoment hinputs houtputs hb] at hv
    cases hv

omit hports hs in
/-- a closed port is followed to the end of the call -/
theorem Follows.own_closed {ports : Ports} {exit : Checked Exit} {i o : Nat} (hcalls : s.inst.stats.attempts = calls)
    (hb : s.inst.portEnd? p = some b) (hmoment : s.moment = .closing ports exit i o) (hshut : s.moment.view? p = none)
    (hv : ports.view? p = some v) (hreach : b.moved tally + v.item.available = reach) :
    s'.Follows p reach calls tally' := by
  have hlater := hframe hb (.inl hshut)
  cases hadv with
  | waits hidle =>
    rw [hmoment] at hidle
    cases hidle
  | faults f => exact .faulted rfl
  | opens q hmoment' | calls inputs outputs hmoment' =>
    rw [hmoment] at hmoment'
    cases hmoment'
  | closes q hmoment' hbq hvq hc hcloses hown hothers hinst hviews =>
    have hcalls' := (congrArg (·.stats.attempts) hinst).trans hcalls
    have hne : p ≠ q := by
      rintro rfl
      rw [hshut] at hvq
      cases hvq
    cases hmoment.symm.trans hmoment'
    exact .closed hcalls' ((hothers p hne).trans hb) rfl ((hviews p).trans ((if_neg hne).trans hshut)) hv
      (by rw [hlater.moved]; exact hreach)
  | books hmoment' =>
    cases hmoment.symm.trans hmoment'
    refine .waits (by simp [Instance.book, hcalls]) rfl hb fun hwaiting hseen => ?_
    rw [Instance.mem_waitList hwaiting hseen, Ports.left_of_view? hv]
    exact hreach

/-- its own parts take nothing back from an end -/
theorem Advances.onward (hb : s.inst.portEnd? p = some b) :
    b.moved tally ≤ b.moved tally' ∧ b.limit wires tally ≤ b.limit wires' tally' := by
  by_cases hopen : s.moment.view? p = none ∨ s'.moment.view? p ≠ none
  · have hlater := hframe hb hopen
    exact ⟨hlater.moved.ge, hlater.limit⟩
  cases hadv with
  | waits | faults | opens | books => exact ⟨le_rfl, le_rfl⟩
  | calls inputs outputs hmoment hinputs houtputs hturn =>
    subst hturn
    have hlevels := (hports maxLoops s.inst.actor ⟨wires, inputs, outputs, #[]⟩).levels
    exact ⟨le_rfl, (PortEnd.later_of_levels (hs.portEnd hb) hlevels).limit⟩
  | closes q hmoment hbq hvq hc hcloses hown hothers hinst hviews =>
    have hp : p = q := Classical.byContradiction fun hne => hopen (Moment.view?_kept hviews hne)
    subst hp
    cases hb.symm.trans hbq
    obtain ⟨-, hmoved, hlimit⟩ := (hs.portEnd hb).close hc hcloses (hs.view hb hvq).moved_le
    exact ⟨hmoved ▸ Nat.le_add_right _ _, hlimit.ge⟩

/-- whatever the instance does next, the port is followed -/
theorem Follows.own (h : s.Follows p reach calls tally) : s'.Follows p reach calls tally' := by
  cases h with
  | opened hcalls hb hv hreach => exact own_opened hports hs hadv hframe hcalls hb hv hreach
  | closed hcalls hb hmoment hshut hv hreach => exact own_closed hadv hframe hcalls hb hmoment hshut hv hreach
  | waits hcalls hidle hb hreach =>
    obtain ⟨rfl, hportEnd, hwaiting, hattempts⟩ := hadv.of_idle hidle
    cases hbusy : s'.moment.idle with
    | true => exact .waits (hattempts.trans hcalls) hbusy (by rw [hportEnd]; exact hb) (by rw [hwaiting]; exact hreach)
    | false => exact .again (.inl ⟨by omega, hbusy⟩)
  | faulted hf =>
    obtain ⟨f, hf⟩ := hadv.of_faulted hf
    exact .faulted hf
  | again h =>
    rcases hadv.attempts with ⟨hattempts, hbusy⟩ | hattempts
    · exact .again (by rw [hattempts]; exact h.imp_left fun ⟨hlt, hs⟩ => ⟨hlt, hbusy hs⟩)
    · exact .again (.inr (by omega))

end Own

omit [Behaviour σ] in
theorem Follows.others (h : s.Follows p reach calls tally)
    (hlater : ∀ {p b}, s.inst.portEnd? p = some b → b.Later wires tally wires' tally') :
    s.Follows p reach calls tally' := by
  cases h with
  | opened hcalls hb hv hreach => exact .opened hcalls hb hv (by rw [(hlater hb).moved]; exact hreach)
  | closed hcalls hb hmoment hshut hv hreach =>
    exact .closed hcalls hb hmoment hshut hv (by rw [(hlater hb).moved]; exact hreach)
  | waits hcalls hidle hb hreach => exact .waits hcalls hidle hb (by rw [(hlater hb).moved]; exact hreach)
  | faulted hf => exact .faulted hf
  | again h => exact .again h

omit [Behaviour σ] in
theorem Follows.drift (h : s.Follows p reach calls tally) (actor : σ) :
    Follows p reach calls tally { s with inst := { s.inst with actor } } := by
  cases h with
  | opened hcalls hb hv hreach => exact .opened hcalls hb hv hreach
  | closed hcalls hb hmoment hshut hv hreach => exact .closed hcalls hb hmoment hshut hv hreach
  | waits hcalls hidle hb hreach => exact .waits hcalls hidle hb hreach
  | faulted hf => exact .faulted hf
  | again h => exact .again h

/-- the part that opens a port begins to follow it -/
theorem follows_of_opens {b : PortEnd} (hs : s.Holds wires tally)
    (hadv : s.Advances wires tally maxLoops wires' tally' s') (hnext : s.opensNext? = some p)
    (hb : s.inst.portEnd? p = some b) : s'.Follows p (b.limit wires tally) s.inst.stats.attempts tally' := by
  have hopening : ∃ inputs outputs, s.moment = .opening inputs outputs := by
    unfold opensNext? at hnext
    split at hnext
    · next inputs outputs hmoment => exact ⟨inputs, outputs, hmoment⟩
    · cases hnext
  obtain ⟨ins, outs, hopening⟩ := hopening
  cases hadv with
  | waits hidle =>
    rw [hopening] at hidle
    cases hidle
  | faults f => exact .faulted rfl
  | opens q hmoment hnext' hbq hlevel hwire hunused hviews =>
    cases hnext.symm.trans hnext'
    cases hb.symm.trans hbq
    have hlies := hs.portEnd hb
    rw [Instance.availability_eq_limit hb hlies] at hlevel
    have hopened := Except.ok.inj hlevel
    refine .opened rfl hb ((hviews p).trans (if_pos rfl)) ?_
    have hle := hlies.moved_le
    omega
  | calls inputs outputs hmoment hinputs houtputs =>
    simp [opensNext?, hmoment, hinputs, houtputs] at hnext
  | closes q hmoment | books hmoment => cases hopening.symm.trans hmoment

end PortWorker

namespace PortOverlap

variable {σ : Type} [Behaviour σ] {least : Nat} {Drift : σ → σ → Prop}

theorem keeps_follows (hports : Behaviour.ThroughPorts σ) (p : PortId) (reach calls : Nat) :
    Keeps least Drift fun _ tally s => s.Follows p reach calls tally where
  own _ hs hadv hframe h := h.own hports hs hadv hframe
  others hlater h := h.others hlater
  drift _ h := h.drift _

/-- the end of a port stays its end, and neither what it has moved nor its limit ever falls -/
theorem keeps_onward (hports : Behaviour.ThroughPorts σ) (p : PortId) (place : Nat × Side) (moved limit : Nat) :
    Keeps least Drift fun wires tally (s : PortWorker σ) =>
      ∃ b, s.inst.portEnd? p = some b ∧ b.place = place ∧ moved ≤ b.moved tally ∧ limit ≤ b.limit wires tally where
  own := by
    rintro wires wires' tally tally' s s' maxLoops - hs hadv hframe ⟨b, hb, rfl, hmoved, hlimit⟩
    have hplace := hadv.place p
    rw [hb] at hplace
    obtain ⟨b', hb', hplace⟩ := Option.map_eq_some_iff.1 hplace
    obtain ⟨hmoved', hlimit'⟩ := hadv.onward hports hs hframe hb
    refine ⟨b', hb', hplace, ?_, ?_⟩
    · rw [PortEnd.moved_of_place hplace]
      exact hmoved.trans hmoved'
    · rw [PortEnd.limit_of_place hplace]
      exact hlimit.trans hlimit'
  others := by
    rintro wires wires' tally tally' s hlater ⟨b, hb, hplace, hmoved, hlimit⟩
    exact ⟨b, hb, hplace, (hlater hb).moved ▸ hmoved, hlimit.trans (hlater hb).limit⟩
  drift := by
    rintro wires tally s actor - h
    exact h

/-- between two calls, the list of ports that an instance waits for stays -/
theorem keeps_waiting (calls : Nat) (waiting : Option (List (PortId × Nat))) :
    Keeps least Drift fun _ _ (s : PortWorker σ) => (s.inst.stats.attempts = calls ∧
      (s.moment.idle = true → s.inst.waiting = waiting)) ∨
      calls < s.inst.stats.attempts where
  own := by
    rintro wires wires' tally tally' s s' maxLoops - - hadv - (⟨hcalls, hwaiting⟩ | hlater)
    · cases hidle : s.moment.idle with
      | true =>
        obtain ⟨-, -, hsame, hattempts⟩ := hadv.of_idle hidle
        exact .inl ⟨hattempts.trans hcalls, fun _ => hsame.trans (hwaiting hidle)⟩
      | false =>
        rcases hadv.attempts with ⟨hattempts, hbusy⟩ | hattempts
        · exact .inl ⟨hattempts.trans hcalls, fun hidle' => by rw [hbusy hidle] at hidle'; cases hidle'⟩
        · exact .inr (by omega)
    · rcases hadv.attempts with ⟨hattempts, -⟩ | hattempts <;> exact .inr (by omega)
  others _ h := h
  drift _ h := h

section Since

variable {W W' : PortOverlap σ} {k maxLoops seen : Nat} {s s' : PortWorker σ} {p : PortId} {b : PortEnd}
  {ports : List (PortId × Nat)}

/-- a port keeps its end, which never goes back, and has what that may still move -/
theorem Sound.onward (hports : Behaviour.ThroughPorts σ) (h : W.Sound) (hW' : W.Reaches least Drift W')
    (hs : W.workers[k]? = some s) (hb : s.inst.portEnd? p = some b) (hs' : W'.workers[k]? = some s') :
    (∃ c, s'.inst.portEnd? p = some c ∧ c.place = b.place) ∧ b.moved W.tally ≤ b.moved W'.tally ∧
      b.limit W.wires W.tally ≤ b.limit W'.wires W'.tally ∧
      s'.inst.availability W'.wires p = .ok (b.limit W'.wires W'.tally - b.moved W'.tally) := by
  obtain ⟨t, ht, c, hc, hplace, hmoved, hlimit⟩ := (keeps_onward hports p b.place _ _).reaches hports h hW' hs
    ⟨b, hb, rfl, le_rfl, le_rfl⟩
  cases hs'.symm.trans ht
  have havailable := Instance.availability_eq_limit hc (((h.reaches hports hW').holds hs').portEnd hc)
  rw [PortEnd.limit_of_place hplace] at hlimit havailable
  rw [PortEnd.moved_of_place hplace] at hmoved havailable
  exact ⟨⟨c, hc, hplace⟩, hmoved, hlimit, havailable⟩

/-- followed from its opening to a later time between two calls, a port has moved what is missing from the limit at its
opening -/
theorem Sound.moved_since (hports : Behaviour.ThroughPorts σ) (h : W.Sound) (hs : W.workers[k]? = some s)
    (hopens : s.opensNext? = some p) (hb : s.inst.portEnd? p = some b)
    (hW' : (W.step k maxLoops).Reaches least Drift W') (hs' : W'.workers[k]? = some s') (hidle : s'.moment.idle = true)
    (hcalls : s'.inst.stats.attempts = s.inst.stats.attempts + 1) (hwaiting : s'.inst.waiting = some ports)
    (hseen : (p, seen) ∈ ports) : b.moved W'.tally + seen = b.limit W.wires W.tally := by
  obtain ⟨wires, tally, t, hstep, hadv⟩ := h.step_eq hs maxLoops
  have hsound := h.step hports k maxLoops
  have hk : (W.step k maxLoops).workers[k]? = some t := by
    rw [hstep]
    exact getElem?_set_self (lt_of_getElem? hs)
  have hfollows : t.Follows p (b.limit W.wires W.tally) s.inst.stats.attempts (W.step k maxLoops).tally := by
    rw [hstep]
    exact PortWorker.follows_of_opens (h.holds hs) hadv hopens hb
  have hplace := (hadv.place p).trans (congrArg _ hb)
  obtain ⟨c, hc, hplace⟩ := Option.map_eq_some_iff.1 hplace
  obtain ⟨t', ht', hfollows⟩ := (keeps_follows hports p _ _).reaches hports hsound hW' hk hfollows
  obtain ⟨t'', ht'', d, hd, hplace', -⟩ := (keeps_onward hports p c.place 0 0).reaches hports hsound hW' hk
    ⟨c, hc, rfl, Nat.zero_le _, Nat.zero_le _⟩
  cases hs'.symm.trans ht'
  cases hs'.symm.trans ht''
  cases hfollows with
  | waits _ _ hd' hreach =>
    cases hd.symm.trans hd'
    rw [← PortEnd.moved_of_place (hplace'.trans hplace)]
    exact hreach hwaiting hseen
  | opened hcalls' | closed hcalls' => omega
  | faulted hf =>
    rw [hf] at hidle
    cases hidle
  | again h =>
    rcases h with ⟨-, hbusy⟩ | hlt
    · rw [hidle] at hbusy
      cases hbusy
    · omega

end Since

end PortOverlap

/-- **No wake-up is lost**: a change at a port that an instance waits for shows, and stays. -/
theorem no_wake_up_is_lost {σ : Type} [Behaviour σ] (hports : Behaviour.ThroughPorts σ) {b : Builder σ} (hmade : b.Made)
    {mapping : Option Mapping} {n : Network σ} (hbuild : b.build mapping = .ok n) {Drift : σ → σ → Prop}
    {W W' : PortOverlap σ} {k maxLoops seen : Nat} {s s' : PortWorker σ} {port : PortId} {ports : List (PortId × Nat)}
    (hW : (PortOverlap.start n).Reaches 0 Drift W) (hs : W.workers[k]? = some s) (hopens : s.opensNext? = some port)
    (hW' : (W.step k maxLoops).Reaches 0 Drift W') (hs' : W'.workers[k]? = some s') (hidle : s'.moment.idle = true)
    (hcalls : s'.inst.stats.attempts = s.inst.stats.attempts + 1) (hwaiting : s'.inst.waiting = some ports)
    (hseen : (port, seen) ∈ ports) :
    ∃ now, s'.inst.availability W'.wires port = .ok now ∧
      (∀ i e, port = .input i → s.inst.inputs[i]? = some e →
        (now ≠ seen ↔ (W.tally e.wire).published < (W'.tally e.wire).published)) ∧
      (∀ o e, port = .output o → s.inst.outputs[o]? = some e → ∃ room own, s.inst.availability W.wires port = .ok room ∧
        (W'.tally e.wire).published = (W.tally e.wire).published + own ∧ room = seen + own ∧
        (now ≠ seen ↔ room - own < now) ∧
        (now ≠ seen ↔ (W.tally e.wire).slowest < (W'.tally e.wire).slowest)) ∧
      ∀ W'' s'', W'.Reaches 0 Drift W'' → W''.workers[k]? = some s'' → s''.moment.idle = true →
        s''.inst.stats.attempts = s'.inst.stats.attempts →
        ∃ later, s''.inst.availability W''.wires port = .ok later ∧ now ≤ later ∧ (now ≠ seen → later ≠ seen) := by
  have hsound := (PortOverlap.sound_start hmade hbuild).reaches hports hW
  obtain ⟨c, hc⟩ := PortWorker.portEnd?_of_opensNext? hopens
  have hreach : W.Reaches 0 Drift W' := (PortOverlap.Reaches.step .refl k (Nat.zero_le maxLoops)).trans hW'
  obtain ⟨⟨c', hc', hplace⟩, hmoved, hlimit, havailable⟩ := hsound.onward hports hreach hs hc hs'
  have hsince := hsound.moved_since hports hs hopens hc hW' hs' hidle hcalls hwaiting hseen
  have hcapacity := congrArg (·[c.wire]?) (hsound.capacities hports hreach)
  simp only [getElem?_map] at hcapacity
  refine ⟨_, havailable, fun i e hport he => ?_, fun o e hport he => ?_, fun W'' s'' hW'' hs'' hidle'' hcalls'' => ?_⟩
  · obtain rfl : c = ⟨e.wire, .reader e.item.reader, e.item.consumed⟩ := by
      rw [hport, Instance.portEnd?, he] at hc
      exact (Option.some.inj hc).symm
    have hW_limit : PortEnd.limit ⟨e.wire, .reader e.item.reader, e.item.consumed⟩ W.wires W.tally =
      (W.tally e.wire).published := rfl
    have hW'_limit : PortEnd.limit ⟨e.wire, .reader e.item.reader, e.item.consumed⟩ W'.wires W'.tally =
      (W'.tally e.wire).published := rfl
    omega
  · obtain rfl : c = ⟨e.wire, .writer, e.item.produced⟩ := by
      rw [hport, Instance.portEnd?, he] at hc
      exact (Option.some.inj hc).symm
    have hroom := Instance.availability_eq_limit hc ((hsound.holds hs).portEnd hc)
    simp only [PortEnd.limit, PortEnd.moved, Tally.limit, Tally.moved, hcapacity] at *
    exact ⟨_, (W'.tally e.wire).published - (W.tally e.wire).published, hroom, by omega, by omega, by omega, by omega⟩
  · -- the port is still waited for, so it is where it was
    have hwaits := (PortOverlap.keeps_waiting _ (some ports)).reaches hports (hsound.reaches hports hreach) hW'' hs'
      (.inl ⟨rfl, fun _ => hwaiting⟩)
    obtain ⟨t, ht, hwaits⟩ := hwaits
    cases hs''.symm.trans ht
    have hwaiting'' : s''.inst.waiting = some ports := by
      rcases hwaits with ⟨-, hwaits⟩ | hlt
      · exact hwaits hidle''
      · omega
    have hsince'' := hsound.moved_since hports hs hopens hc (hW'.trans hW'') hs'' hidle''
      (hcalls''.trans hcalls) hwaiting'' hseen
    obtain ⟨-, -, hlimit'', havailable''⟩ := (hsound.reaches hports hreach).onward hports hW'' hs' hc' hs''
    rw [PortEnd.limit_of_place hplace, PortEnd.limit_of_place hplace] at hlimit''
    rw [PortEnd.limit_of_place hplace, PortEnd.moved_of_place hplace] at havailable''
    exact ⟨_, havailable'', by omega, by omega⟩

/-- the doubling network when its scaler is about to open its input -/
def doublingOpens : PortOverlap Component := (PortOverlap.start doublingNetwork).run [(2, 1)]

/-- its input open, the scaler waits while the source publishes a number; then it goes on to the end of its call -/
def doublingWaits : PortOverlap Component :=
  (doublingOpens.step 2 1).run [(0, 1), (0, 1), (0, 1), (0, 1), (0, 1), (2, 1), (2, 1), (2, 1), (2, 1), (2, 1)]

/-- the number that came behind the back of the scaler is noticed -/
theorem no_wake_up_is_lost_doubling :
    ∃ s', doublingWaits.workers[2]? = some s' ∧ s'.inst.waiting = some [(.input 0, 0)] ∧
    ∃ now, s'.inst.availability doublingWaits.wires (.input 0) = .ok now ∧ now ≠ 0 := by
  have hbuild : doubling.build none = .ok doublingNetwork := rfl
  have hopens : (PortOverlap.start doublingNetwork).Reaches 0 (fun _ _ => False) doublingOpens :=
    PortOverlap.reaches_run _ fun _ _ => Nat.zero_le _
  have hwaits : (doublingOpens.step 2 1).Reaches 0 (fun _ _ => False) doublingWaits :=
    PortOverlap.reaches_run _ fun _ _ => Nat.zero_le _
  have hs :
    doublingOpens.workers[2]?.map (fun s => (s.opensNext?, s.inst.stats.attempts, s.inst.inputs[0]?.map (·.wire))) =
      some (some (.input 0), 0, some 0) := by decide +kernel
  have hs' : doublingWaits.workers[2]?.map (fun s => (s.moment.idle, s.inst.stats.attempts, s.inst.waiting)) =
      some (true, 1, some [(.input 0, 0)]) := by decide +kernel
  obtain ⟨s, hs, hfacts⟩ := Option.map_eq_some_iff.1 hs
  obtain ⟨s', hs', hfacts'⟩ := Option.map_eq_some_iff.1 hs'
  simp only [Prod.mk.injEq] at hfacts hfacts'
  obtain ⟨hnext, hcalls, hwire⟩ := hfacts
  obtain ⟨hidle, hcalls', hwaiting⟩ := hfacts'
  obtain ⟨e, he, hwire⟩ := Option.map_eq_some_iff.1 hwire
  obtain ⟨now, hnow, hinput, -⟩ :=
    no_wake_up_is_lost Component.throughPorts doubling_made hbuild hopens hs hnext hwaits hs' hidle
    (by rw [hcalls, hcalls']) hwaiting mem_cons_self
  refine ⟨s', hs', hwaiting, now, hnow, (hinput 0 e rfl he).2 ?_⟩
  rw [hwire]
  decide +kernel

end Dataflow
