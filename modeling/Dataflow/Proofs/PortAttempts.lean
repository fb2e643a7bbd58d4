import Dataflow.Proofs.PortEnds

/-!
Attempts, whole or in four parts, against attempts port by port.

- `PortOverlap.reaches_attempt`: without interruption these do what `Instance.attempt` does, and the tallies grow by
  exactly what the attempt reports (`PortOverlap.Moves`).
- `PortOverlap.shows_run`: whatever attempts in four parts come to, port by port it is reached as well.
-/

namespace Dataflow

open List

/-- tokens that went through a port in a call -/
def Firing.moved (f : Firing) : PortId → Nat
  | .input i => f.consumed.getD i 0
  | .output o => f.produced.getD o 0

def Attempt.moved : Attempt → PortId → Nat
  | .skipped, _ => 0
  | .ran _ firing, p => firing.moved p

/-- tokens that went through the open view of a port and are not published yet -/
def Moment.due (m : Moment) (p : PortId) : Nat := ((m.view? p).map (·.item.moved)).getD 0

theorem Moment.due_of_view? {m : Moment} {p : PortId} (h : m.view? p = none) : m.due p = 0 := by
  rw [due, h]
  rfl

theorem Moment.due_closing (ports : Ports) (exit : Checked Exit) (p : PortId) :
    (Moment.closing ports exit 0 0).due p = ports.firing.moved p := by
  cases p <;> simp [due, view?, Ports.firing, Firing.moved, getD_eq_getElem?_getD, getElem?_map]

namespace PortOverlap

variable {σ : Type} [Behaviour σ] {least k maxLoops : Nat} (Drift : σ → σ → Prop) {W : PortOverlap σ} {s : PortWorker σ}
  {inst inst' : Instance σ}

omit [Behaviour σ] in
@[simp] theorem put_put (W : PortOverlap σ) (s s' : PortWorker σ) : (W.put k s).put k s' = W.put k s' := by
  simp [put]

theorem reaches_advance (hs : W.workers[k]? = some s) (hloops : least ≤ maxLoops) :
    W.Reaches least Drift (W.advance k maxLoops s) := by
  have hstep : W.step k maxLoops = W.advance k maxLoops s := by rw [step, hs]
  rw [← hstep]
  exact .step .refl k hloops

section

variable (hk : k < W.workers.length)

include hk

omit [Behaviour σ] in
theorem workers_put (s : PortWorker σ) : (W.put k s).workers[k]? = some s := getElem?_set_self hk

/-! ## Comparing and opening -/

section

variable (hloops : least ≤ maxLoops)

include hloops

/-- all ports are compared, or the first that has changed is found -/
theorem reaches_compare {ports : List (PortId × Nat)} {answer : Bool} (h : inst.unchanged W.wires ports = .ok answer) :
    (W.put k ⟨inst, .comparing ports⟩).Reaches least Drift (W.put k (if answer then
      ⟨{ inst with stats := { inst.stats with skipped := inst.stats.skipped + 1 } }, .resting⟩ else
      ⟨inst, .opening [] []⟩)) := by
  induction ports with
  | nil =>
    cases h
    have hnext := reaches_advance Drift (workers_put hk ⟨inst, .comparing []⟩) hloops
    simpa [advance, PortWorker.compare] using hnext
  | cons first rest ih =>
    obtain ⟨port, seen⟩ := first
    obtain ⟨now, hnow, h⟩ := bind_eq_ok h
    have hnext := reaches_advance Drift (workers_put hk ⟨inst, .comparing ((port, seen) :: rest)⟩) hloops
    have hcompare : (W.put k ⟨inst, .comparing ((port, seen) :: rest)⟩).advance k maxLoops
      ⟨inst, .comparing ((port, seen) :: rest)⟩ =
        W.put k ⟨inst, if now = seen then .comparing rest else .opening [] []⟩ := by
      simp [advance, PortWorker.compare, PortWorker.goTo, put, hnow]
    rw [hcompare] at hnext
    split at h
    · next hsame =>
      rw [if_pos hsame] at hnext
      exact hnext.trans (ih h)
    · next hother =>
      cases h
      rw [if_neg hother] at hnext
      exact hnext

/-- the ports of one side behind `done` are opened in order; `point` is the moment with these of them open -/
theorem reaches_openAll (point : List (Attached PortView) → Moment)
    (all : List (Attached PortView)) (hnext : ∀ {done v rest}, all = done ++ v :: rest →
      (W.put k ⟨inst, point done⟩).advance k maxLoops ⟨inst, point done⟩ = W.put k ⟨inst, point (done ++ [v])⟩)
    (done rest : List (Attached PortView)) (hall : all = done ++ rest) :
    (W.put k ⟨inst, point done⟩).Reaches least Drift (W.put k ⟨inst, point all⟩) := by
  induction rest generalizing done with
  | nil =>
    rw [hall, append_nil]
    exact .refl
  | cons v rest ih =>
    have hfirst := reaches_advance Drift (workers_put hk ⟨inst, point done⟩) hloops
    rw [hnext hall] at hfirst
    exact hfirst.trans (ih (done ++ [v]) (by rw [hall, append_assoc, singleton_append]))

theorem reaches_openPorts {ports : Ports} (h : inst.openPorts W.wires = .ok ports) :
    (W.put k ⟨inst, .opening [] []⟩).Reaches least Drift (W.put k ⟨inst, .opening ports.inputs ports.outputs⟩) := by
  obtain ⟨hins, houts, -, -⟩ := Instance.openPorts_eq_ok h
  obtain ⟨hinputs, hin⟩ := mapM_spec hins
  obtain ⟨houtputs, hout⟩ := mapM_spec houts
  have hwires : ∀ s : PortWorker σ, (W.put k s).wires = W.wires := fun _ => rfl
  refine (reaches_openAll Drift hk hloops (.opening · []) ports.inputs (fun {done v rest} hall => ?_) [] _ rfl).trans
    (reaches_openAll Drift hk hloops (.opening ports.inputs ·) ports.outputs (fun {done v rest} hall => ?_) [] _ rfl)
  · obtain ⟨e, he⟩ : ∃ e, inst.inputs[done.length]? = some e := ⟨_, getElem?_eq_getElem (by simp [← hinputs, hall])⟩
    obtain ⟨_, hv, hopen⟩ := hin he
    obtain ⟨c, hc, hopen⟩ := bind_eq_ok hopen
    cases hopen
    obtain rfl : v = _ := by simpa [hall] using hv
    simp only [advance, he, PortWorker.openInput, hwires, hc]
    exact put_put _ _ _
  · have hnone : inst.inputs[ports.inputs.length]? = none := getElem?_eq_none_iff.2 hinputs.ge
    obtain ⟨e, he⟩ : ∃ e, inst.outputs[done.length]? = some e := ⟨_, getElem?_eq_getElem (by simp [← houtputs, hall])⟩
    obtain ⟨_, hv, hopen⟩ := hout he
    obtain ⟨c, hc, hopen⟩ := bind_eq_ok hopen
    obtain ⟨view, hview, hopen⟩ := bind_eq_ok hopen
    cases hopen
    obtain rfl : v = _ := by simpa [hall] using hv
    simp only [advance, hnone, he, PortWorker.openOutput, hwires, hc, Checked.ok_bind, hview]
    exact put_put _ _ _

end

end

/-! ## Closing -/

/-- from one state to the other, instance `k` has published what was due, and the others have published nothing -/
structure Publishes (k : Nat) (W W' : PortOverlap σ) : Prop where
  place : ∀ {s}, W.workers[k]? = some s → ∃ s', W'.workers[k]? = some s' ∧
    ∀ p, (s'.inst.portEnd? p).map PortEnd.place = (s.inst.portEnd? p).map PortEnd.place
  own : ∀ {s s' p b}, W.workers[k]? = some s → W'.workers[k]? = some s' →
    s.inst.portEnd? p = some b → b.moved W'.tally + s'.moment.due p = b.moved W.tally + s.moment.due p
  others : ∀ {j t p b}, j ≠ k → W.workers[j]? = some t → t.inst.portEnd? p = some b →
    W'.workers[j]? = some t ∧ b.moved W'.tally = b.moved W.tally

omit [Behaviour σ] in
theorem Publishes.refl (k : Nat) (W : PortOverlap σ) : W.Publishes k W := by
  refine ⟨fun hs => ⟨_, hs, fun _ => rfl⟩, fun hs hs' _ => ?_, fun _ hj _ => ⟨hj, rfl⟩⟩
  rw [hs] at hs'
  cases hs'
  rfl

omit [Behaviour σ] in
theorem Publishes.trans {W' W'' : PortOverlap σ} (h : W.Publishes k W')
    (h' : W'.Publishes k W'') : W.Publishes k W'' := by
  refine ⟨fun hs => ?_, fun {s s'' p b} hs hs'' hb => ?_, fun hne hj hb => ?_⟩
  · obtain ⟨s', hs', hplace⟩ := h.place hs
    obtain ⟨s'', hs'', hplace'⟩ := h'.place hs'
    exact ⟨s'', hs'', fun p => (hplace' p).trans (hplace p)⟩
  · obtain ⟨s', hs', hplace⟩ := h.place hs
    have hp := hplace p
    rw [hb] at hp
    obtain ⟨b', hb', heq⟩ := Option.map_eq_some_iff.1 hp
    have hsecond := h'.own hs' hs'' hb'
    rw [PortEnd.moved_of_place heq, PortEnd.moved_of_place heq] at hsecond
    exact hsecond.trans (h.own hs hs' hb)
  · obtain ⟨hj', hmoved⟩ := h.others hne hj hb
    obtain ⟨hj'', hmoved'⟩ := h'.others hne hj' hb
    exact ⟨hj'', hmoved'.trans hmoved⟩

/-- from one state to the other, instance `k` has moved so many tokens through its ports, and the others none -/
structure Moves (k : Nat) (W W' : PortOverlap σ) (n : PortId → Nat) : Prop where
  own : ∀ {s p b}, W.workers[k]? = some s → s.inst.portEnd? p = some b →
    b.moved W'.tally = b.moved W.tally + n p
  others : ∀ {j t p b}, j ≠ k → W.workers[j]? = some t → t.inst.portEnd? p = some b →
    b.moved W'.tally = b.moved W.tally

section Closing

variable {ports : Ports} {exit : Checked Exit}

section

variable (hports : Behaviour.ThroughPorts σ)

include hports

/-- a part that closes a port publishes what was due there -/
theorem Sound.publishes (h : W.Sound) {i o : Nat} (i' o' : Nat)
    (hs : W.workers[k]? = some ⟨inst, .closing ports exit i o⟩)
    (hs' : (W.advance k maxLoops ⟨inst, .closing ports exit i o⟩).workers[k]? =
      some ⟨inst', .closing ports exit i' o'⟩) :
    W.Publishes k (W.advance k maxLoops ⟨inst, .closing ports exit i o⟩) := by
  obtain ⟨wires, tally, s', heq, hadv⟩ : W.Proceeds k maxLoops _ _ := advance_cases hs (h.holds hs).fits
  have hlt := lt_of_getElem? hs
  rw [heq] at hs' ⊢
  obtain rfl := Option.some.inj ((getElem?_set_self hlt).symm.trans hs')
  have hplace := hadv.place
  refine ⟨fun hk => ⟨_, hs', fun p => ?_⟩, fun {s s' p b} hk hk' hb => ?_, fun hne hj hb => ?_⟩
  · obtain rfl := Option.some.inj (hs.symm.trans hk)
    exact hplace p
  · obtain rfl := Option.some.inj (hs.symm.trans hk)
    obtain rfl := Option.some.inj (hs'.symm.trans hk')
    have hframe := h.frame hports hs hadv hs hb
    cases hadv with
    | waits hidle => cases hidle
    | calls _ _ hmoment => cases hmoment
    | closes q hmoment hb' hv hc hcloses hown hothers hinst hviews hfits =>
      by_cases hp : p = q
      · subst hp
        obtain rfl := Option.some.inj (hb.symm.trans hb')
        have hheld := h.holds hs
        obtain ⟨-, hmoved, -⟩ := (hheld.portEnd hb).close hc hcloses (hheld.view hb hv).moved_le
        have hshut := (hviews p).trans (if_pos rfl)
        rw [Moment.due_of_view? hshut, Moment.due, hv]
        exact hmoved
      · have hkept : (Moment.closing ports exit i' o').due p = (Moment.closing ports exit i o).due p := by
          rw [Moment.due, hviews, if_neg hp]
          rfl
        rw [hkept, (hframe fun _ => Moment.view?_kept hviews hp).moved]
  · exact ⟨(getElem?_set_ne hne.symm).trans hj, (h.frame hports hs hadv hj hb fun heq => absurd heq hne).moved⟩

/-- the ends of one side behind `done` are closed in order; `point` is the instance with these ends, so many of them
closed -/
theorem reaches_closeAll (hloops : least ≤ maxLoops) {α : Type} (close : Connection → α → PortView → Connection × α)
    (point : List (Attached α) → Nat → PortWorker σ) (all : List (Attached PortView))
    (hpoint : ∀ ends n, ∃ inst i o, point ends n = ⟨inst, .closing ports exit i o⟩)
    (hnext : ∀ {W : PortOverlap σ} {done ends e v}, W.Sound →
      W.workers[k]? = some (point (done ++ e :: ends) done.length) → all[done.length]? = some v → ∃ c tally,
        W.wires[e.wire]? = some c ∧ W.advance k maxLoops (point (done ++ e :: ends) done.length) =
          ⟨W.wires.set e.wire (close c e.item v.item).1, tally,
            W.workers.set k (point (done ++ ⟨e.wire, (close c e.item v.item).2⟩ :: ends) (done.length + 1))⟩)
    (done ends : List (Attached α)) (seen views : List (Attached PortView)) (hsound : W.Sound)
    (hs : W.workers[k]? = some (point (done ++ ends) done.length)) (hviews : all = seen ++ views)
    (hseen : seen.length = done.length) (hlen : views.length = ends.length) :
    ∃ W', W.Reaches least Drift W' ∧ W.Publishes k W' ∧ W'.wires = (Ports.closeAll close W.wires ends views).1 ∧
      W'.workers = W.workers.set k (point (done ++ (Ports.closeAll close W.wires ends views).2) all.length) := by
  induction ends generalizing W done seen views with
  | nil =>
    obtain rfl := eq_nil_of_length_eq_zero hlen
    refine ⟨W, .refl, .refl k W, rfl, ?_⟩
    rw [hviews, append_nil, hseen]
    exact (set_of_getElem? hs).symm
  | cons e ends ih =>
    obtain ⟨v, views, rfl⟩ := exists_cons_of_length_eq_add_one hlen
    obtain ⟨c, tally, hc, hclosed⟩ := hnext (v := v) hsound hs (by simp [hviews, ← hseen])
    have hlt := lt_of_getElem? hs
    have hstep := reaches_advance Drift hs hloops
    have hsound' := hsound.reaches hports hstep
    have hpublishes : W.Publishes k (W.advance k maxLoops (point (done ++ e :: ends) done.length)) := by
      obtain ⟨inst, i, o, hself⟩ := hpoint (done ++ e :: ends) done.length
      obtain ⟨inst', i', o', hself'⟩ := hpoint (done ++ ⟨e.wire, (close c e.item v.item).2⟩ :: ends) (done.length + 1)
      rw [hself', hself] at hclosed
      rw [hself] at hs ⊢
      exact hsound.publishes hports i' o' hs (by rw [hclosed]; exact getElem?_set_self hlt)
    rw [hclosed] at hstep hsound' hpublishes
    obtain ⟨W', hrest, hmore, hwires, hworkers⟩ :=
      ih (done ++ [⟨e.wire, (close c e.item v.item).2⟩]) (seen ++ [v]) views hsound'
      (by simpa using getElem?_set_self hlt) (by simp [hviews]) (by simp [hseen]) (by simpa using hlen)
    refine ⟨W', hstep.trans hrest, hpublishes.trans hmore, ?_, ?_⟩
    · simpa [Ports.closeAll, hc] using hwires
    · simpa [Ports.closeAll, hc] using hworkers

theorem reaches_closePorts (hloops : least ≤ maxLoops) (hsound : W.Sound)
    (hs : W.workers[k]? = some ⟨inst, .closing ports exit 0 0⟩) :
    ∃ W', W.Reaches least Drift W' ∧ W.Publishes k W' ∧ W'.wires = (inst.closePorts { ports with wires := W.wires }).1 ∧
      W'.workers = W.workers.set k ⟨(inst.closePorts { ports with wires := W.wires }).2,
        .closing ports exit ports.inputs.length ports.outputs.length⟩ := by
  obtain ⟨hfitIn, hfitOut⟩ := (hsound.holds hs).fits
  obtain ⟨W1, hfirst, hpublishes, hwires, hworkers⟩ := reaches_closeAll Drift hports hloops Connection.closeInput
    (fun ends n => ⟨{ inst with inputs := ends }, .closing ports exit n 0⟩) ports.inputs (fun _ n => ⟨_, n, 0, rfl⟩)
    (fun {W done ends e v} hsound hs hv => by
      obtain ⟨c, hc, -⟩ := ((hsound.holds hs).portEnd (p := .input done.length) (by simp [Instance.portEnd?]; rfl)).wire
      have hzip : ((done ++ e :: ends).zip ports.inputs)[done.length]? = some (e, v) :=
      getElem?_zip_eq_some.2 ⟨by simp, hv⟩
      exact ⟨c, _, hc, by simp only [advance, hzip, closeInput, fetch_eq_ok hc]; simp; rfl⟩)
    [] inst.inputs [] ports.inputs hsound hs rfl rfl hfitIn
  set ins := (Ports.closeAll Connection.closeInput W.wires inst.inputs ports.inputs).2
  have hlt := lt_of_getElem? hs
  have hsound' := hsound.reaches hports hfirst
  have hs' : W1.workers[k]? = some ⟨{ inst with inputs := ins }, .closing ports exit ports.inputs.length 0⟩ := by
    rw [hworkers]
    exact getElem?_set_self hlt
  have hnone : (ins.zip ports.inputs)[ports.inputs.length]? = none :=
    getElem?_eq_none_iff.2 (by rw [length_zip]; exact min_le_right _ _)
  obtain ⟨W2, hsecond, hpublishes', hwires', hworkers'⟩ := reaches_closeAll Drift hports hloops Connection.closeOutput
    (fun ends n => ⟨{ inst with inputs := ins, outputs := ends }, .closing ports exit ports.inputs.length n⟩)
    ports.outputs (fun _ n => ⟨_, _, n, rfl⟩) (fun {W done ends e v} hsound hs hv => by
      obtain ⟨c, hc, -⟩ :=
      ((hsound.holds hs).portEnd (p := .output done.length) (by simp [Instance.portEnd?]; rfl)).wire
      have hzip : ((done ++ e :: ends).zip ports.outputs)[done.length]? = some (e, v) :=
      getElem?_zip_eq_some.2 ⟨by simp, hv⟩
      exact ⟨c, _, hc, by simp only [advance, hnone, hzip, closeOutput, fetch_eq_ok hc]; simp; rfl⟩)
    [] inst.outputs [] ports.outputs hsound' hs' rfl rfl hfitOut
  rw [hwires] at hwires' hworkers'
  rw [hworkers, set_set] at hworkers'
  refine ⟨W2, hfirst.trans hsecond, hpublishes.trans hpublishes', ?_⟩
  exact ⟨hwires', hworkers'⟩

end

end Closing

/-! ## Whole attempts -/

/-- an instance that has not terminated finds out whether it can go on -/
theorem reaches_enter (hs : W.workers[k]? = some ⟨inst, .resting⟩) (hloops : least ≤ maxLoops)
    (hterm : inst.terminated = false) {answer : Bool} (h : inst.stillBlocked W.wires = .ok answer) :
    W.Reaches least Drift (W.put k (if answer then
      ⟨{ inst with stats := { inst.stats with skipped := inst.stats.skipped + 1 } }, .resting⟩ else
      ⟨inst, .opening [] []⟩)) := by
  have henter := reaches_advance Drift hs hloops
  unfold Instance.stillBlocked at h
  split at h
  · next p ports hwaiting =>
    have hentered : W.advance k maxLoops ⟨inst, .resting⟩ = W.put k ⟨inst, .comparing (p :: ports)⟩ := by
      simp [advance, PortWorker.enter, hterm, hwaiting, PortWorker.goTo]
    rw [hentered] at henter
    exact henter.trans (reaches_compare Drift (lt_of_getElem? hs) hloops h)
  · next hwaiting =>
    cases h
    have hentered : W.advance k maxLoops ⟨inst, .resting⟩ = W.put k ⟨inst, .opening [] []⟩ := by
      simp only [advance, PortWorker.enter, hterm]
      rfl
    rw [hentered] at henter
    exact henter

theorem reaches_call (hloops : least ≤ maxLoops) {ports : Ports}
    (hs : W.workers[k]? = some ⟨inst, .opening ports.inputs ports.outputs⟩) (hopens : inst.Opens ports)
    {turn : Turn σ} (hturn : turn = Behaviour.act maxLoops inst.actor { ports with wires := W.wires }) :
    W.Reaches least Drift ⟨turn.ports.wires, W.tally,
      W.workers.set k ⟨{ inst with actor := turn.actor }, .closing turn.ports turn.exit 0 0⟩⟩ := by
  have hnoIn : inst.inputs[ports.inputs.length]? = none := getElem?_eq_none_iff.2 hopens.inputs.ge
  have hnoOut : inst.outputs[ports.outputs.length]? = none := getElem?_eq_none_iff.2 hopens.outputs.ge
  have hsame : (⟨W.wires, ports.inputs, ports.outputs, #[]⟩ : Ports) = { ports with wires := W.wires } := by
    rw [← hopens.actions]
  have hcall := reaches_advance Drift hs hloops
  simpa only [advance, hnoIn, hnoOut, call, hsame, ← hturn] using hcall

theorem reaches_finish (hloops : least ≤ maxLoops) {ports : Ports} {exit : Checked Exit}
    (hs : W.workers[k]? = some ⟨inst, .closing ports exit ports.inputs.length ports.outputs.length⟩) :
    W.Reaches least Drift
      (W.put k (PortWorker.finish ⟨inst, .closing ports exit ports.inputs.length ports.outputs.length⟩
      ports exit)) := by
  have hlast : ∀ {α : Type} (ends : List α) (views : List (Attached PortView)),
    (ends.zip views)[views.length]? = none := by
    intro α ends views
    exact getElem?_eq_none_iff.2 (by rw [length_zip]; exact min_le_right _ _)
  have hfinish := reaches_advance Drift hs hloops
  simpa only [advance, hlast] using hfinish

theorem reaches_attempt (hports : Behaviour.ThroughPorts σ) (hsound : W.Sound) (hloops : least ≤ maxLoops)
    (hs : W.workers[k]? = some ⟨inst, .resting⟩) {wires : List Connection} {answer : Attempt}
    (h : inst.attempt W.wires maxLoops = (wires, inst', .ok answer)) :
    ∃ tally, W.Reaches least Drift ⟨wires, tally, W.workers.set k ⟨inst', .resting⟩⟩ ∧
      W.Moves k ⟨wires, tally, W.workers.set k ⟨inst', .resting⟩⟩ answer.moved := by
  have hk := lt_of_getElem? hs
  cases Instance.tries_of_attempt h with
  | ended _ => exact ⟨W.tally, by rw [set_of_getElem? hs]; exact .refl, fun _ _ => rfl, fun _ _ _ => rfl⟩
  | waits hterm hblocked =>
    exact ⟨W.tally, reaches_enter Drift hs hloops hterm hblocked, fun _ _ => rfl, fun _ _ _ => rfl⟩
  | @calls ports turn exit hterm hfree hopen hturn hexit =>
    obtain ⟨-, -, hwires, -⟩ := Instance.openPorts_eq_ok hopen
    have hsame : { ports with wires := W.wires } = ports := by rw [← hwires]
    have hopened := (reaches_enter Drift hs hloops hterm hfree).trans (reaches_openPorts Drift hk hloops hopen)
    have hcalled := hopened.trans (reaches_call Drift hloops (workers_put hk _) (Instance.opens_of_openPorts hopen)
      (hturn.trans (congrArg (Behaviour.act maxLoops inst.actor) hsame.symm)))
    rw [put, set_set] at hcalled
    obtain ⟨⟨wires1, tally, workers1⟩, hclosed, hpublishes, hwires1, hworkers1⟩ :=
      reaches_closePorts Drift hports hloops (hsound.reaches hports hcalled) (getElem?_set_self hk)
    subst hwires1 hworkers1
    have hfinished :=
      (hcalled.trans hclosed).trans (reaches_finish Drift hloops (getElem?_set_self (by simpa using hk)))
    rw [set_set] at hpublishes
    rw [put, set_set, set_set, hexit] at hfinished
    refine ⟨tally, hfinished, fun {s p b} hk' hb => ?_, fun hne hj hb => ?_⟩
    · obtain rfl := Option.some.inj (hs.symm.trans hk')
      have hsum := hpublishes.own (getElem?_set_self hk) (getElem?_set_self hk) hb
      -- the port is shut, and nothing was due at the beginning but what the call moved
      have hnone :
        (Moment.closing turn.ports turn.exit turn.ports.inputs.length turn.ports.outputs.length).view? p = none := by
        cases p <;> simp [Moment.view?]
      rw [Moment.due_of_view? hnone, Moment.due_closing] at hsum
      exact hsum
    · exact (hpublishes.others hne ((getElem?_set_ne hne.symm).trans hj) hb).2

end PortOverlap

/-! ## Attempts in four parts -/

section FourParts

variable {σ : Type} {k : Nat} {W : PortOverlap σ} {F : Overlap σ} {inst : Instance σ}

/-- the point between two ports at which a worker stands between two of the four parts -/
def Worker.atPorts (w : Worker σ) : PortWorker σ :=
  match w.activity with
  | .resting => ⟨w.inst, .resting⟩
  | .entered => ⟨w.inst, .opening [] []⟩
  | .opened ports => ⟨w.inst, .opening ports.inputs ports.outputs⟩
  | .called turn => ⟨{ w.inst with actor := turn.actor }, .closing turn.ports turn.exit 0 0⟩
  | .faulted f => ⟨w.inst, .faulted f⟩

/-- port by port, everybody stands where the four parts have led -/
structure PortOverlap.Shows (W : PortOverlap σ) (F : Overlap σ) : Prop where
  wires : W.wires = F.wires
  workers : W.workers = F.workers.map Worker.atPorts
  opens : ∀ w ∈ F.workers, ∀ ports, w.activity = .opened ports → w.inst.Opens ports

namespace PortOverlap

theorem Shows.put (h : W.Shows F) (wires : List Connection) (tally : Nat → Tally) (inst : Instance σ) (a : Activity σ)
    (hopens : ∀ ports, a = .opened ports → inst.Opens ports) :
    (⟨wires, tally, W.workers.set k (Worker.atPorts ⟨inst, a⟩)⟩ : PortOverlap σ).Shows (F.put wires k inst a) := by
  refine ⟨rfl, ?_, fun w hw => ?_⟩
  · rw [h.workers, ← map_set]
    rfl
  · rcases mem_or_eq_of_mem_set hw with hold | rfl
    · exact h.opens w hold
    · exact hopens

theorem Shows.worker (h : W.Shows F) {w : Worker σ} (hw : F.workers[k]? = some w) : W.workers[k]? = some w.atPorts := by
  rw [h.workers, getElem?_map, hw]
  rfl

variable [Behaviour σ] (Drift : σ → σ → Prop)

theorem Shows.enter (hsound : W.Sound) (h : W.Shows F) (hw : F.workers[k]? = some ⟨inst, .resting⟩) :
    ∃ W', W.Reaches 0 Drift W' ∧ W'.Shows (F.enter k inst) := by
  have hs : W.workers[k]? = some ⟨inst, .resting⟩ := h.worker hw
  unfold Overlap.enter
  split
  · exact ⟨W, .refl, h⟩
  next hactive =>
  have hterm := Bool.eq_false_iff.2 hactive
  obtain ⟨ports, hopen⟩ := (hsound.holds hs).openPorts
  obtain ⟨answer, hanswer⟩ := Instance.stillBlocked_of_openPorts hopen
  have hreach := reaches_enter Drift hs (Nat.zero_le 0) hterm hanswer
  rw [← h.wires, hanswer]
  cases answer with
  | true =>
    exact ⟨_, hreach, h.put W.wires W.tally _ .resting fun _ ha => by cases ha⟩
  | false =>
    exact ⟨_, hreach, h.put W.wires W.tally inst .entered fun _ ha => by cases ha⟩

theorem Shows.openPorts (hsound : W.Sound) (h : W.Shows F) (hw : F.workers[k]? = some ⟨inst, .entered⟩) :
    ∃ W', W.Reaches 0 Drift W' ∧ W'.Shows (F.openPorts k inst) := by
  have hs : W.workers[k]? = some ⟨inst, .opening [] []⟩ := h.worker hw
  obtain ⟨ports, hopen⟩ := (hsound.holds hs).openPorts
  have hreach := reaches_openPorts Drift (lt_of_getElem? hs) (Nat.zero_le 0) hopen
  rw [PortOverlap.put, set_of_getElem? hs] at hreach
  refine ⟨_, hreach, ?_⟩
  rw [Overlap.openPorts, ← h.wires, hopen]
  exact h.put W.wires W.tally inst (.opened ports) fun _ ha => by cases ha; exact Instance.opens_of_openPorts hopen

theorem Shows.call (h : W.Shows F) (maxLoops : Nat) {ports : Ports} (hw : F.workers[k]? = some ⟨inst, .opened ports⟩) :
    ∃ W', W.Reaches 0 Drift W' ∧ W'.Shows (F.call maxLoops k inst ports) := by
  have hopens := h.opens _ (mem_of_getElem? hw) ports rfl
  refine ⟨_, reaches_call Drift (Nat.zero_le maxLoops) (h.worker hw) hopens rfl, ?_⟩
  rw [Overlap.call, ← h.wires]
  exact h.put _ W.tally inst (.called _) fun _ ha => by cases ha

section

variable (hports : Behaviour.ThroughPorts σ)

include hports

theorem Shows.close (hsound : W.Sound) (h : W.Shows F) {turn : Turn σ}
    (hw : F.workers[k]? = some ⟨inst, .called turn⟩) : ∃ W', W.Reaches 0 Drift W' ∧ W'.Shows (F.close k inst turn) := by
  have hs : W.workers[k]? = some ⟨{ inst with actor := turn.actor }, .closing turn.ports turn.exit 0 0⟩ := h.worker hw
  have hk := lt_of_getElem? hs
  obtain ⟨⟨wires, tally, workers⟩, hclosed, -, hwires, hworkers⟩ :=
    reaches_closePorts Drift hports (Nat.zero_le 0) hsound hs
  subst hwires hworkers
  have hfinished := hclosed.trans (reaches_finish Drift (Nat.zero_le 0) (getElem?_set_self hk))
  rw [PortOverlap.put, set_set] at hfinished
  refine ⟨_, hfinished, ?_⟩
  rw [Overlap.close, Instance.settle, ← h.wires]
  rcases turn with ⟨actor, ports, f | exit⟩
  · exact h.put _ tally _ (.faulted f) fun _ ha => by cases ha
  · exact h.put _ tally _ .resting fun _ ha => by cases ha

/-- each of the four parts is some parts port by port -/
theorem Shows.step (hsound : W.Sound) (h : W.Shows F) (op : OverlapOp) :
    ∃ W', W.Reaches 0 Drift W' ∧ W'.Shows (F.step op) := by
  cases op with
  | enter k =>
    dsimp only [Overlap.step]
    split
    · next hw => exact h.enter Drift hsound hw
    · exact ⟨W, .refl, h⟩
  | «open» k =>
    dsimp only [Overlap.step]
    split
    · next hw => exact h.openPorts Drift hsound hw
    · exact ⟨W, .refl, h⟩
  | call k maxLoops =>
    dsimp only [Overlap.step]
    split
    · next hw => exact h.call Drift maxLoops hw
    · exact ⟨W, .refl, h⟩
  | close k =>
    dsimp only [Overlap.step]
    split
    · next hw => exact h.close Drift hports hsound hw
    · exact ⟨W, .refl, h⟩

theorem Shows.run (hsound : W.Sound) (h : W.Shows F) (ops : List OverlapOp) :
    ∃ W', W.Reaches 0 Drift W' ∧ W'.Shows (F.run ops) := by
  induction ops generalizing W F with
  | nil => exact ⟨W, .refl, h⟩
  | cons op ops ih =>
    obtain ⟨W1, hfirst, h1⟩ := h.step Drift hports hsound op
    obtain ⟨W2, hrest, h2⟩ := ih (hsound.reaches hports hfirst) h1
    exact ⟨W2, hfirst.trans hrest, h2⟩

/-- whatever instances of a built network come to in attempts of four parts, they come to it port by port -/
theorem shows_run {b : Builder σ} (hmade : b.Made) {mapping : Option Mapping}
    {n : Network σ} (hbuild : b.build mapping = .ok n) (ops : List OverlapOp) :
    ∃ parts, ((start n).run parts).Shows ((Overlap.start n).run ops) := by
  have hstart : (start n).Shows (Overlap.start n) := by
    refine ⟨rfl, ?_, fun w hw ports ha => ?_⟩
    · simp [start, Overlap.start, Worker.atPorts]
    · obtain ⟨inst, -, rfl⟩ := mem_map.1 hw
      cases ha
  obtain ⟨W, hreach, hshows⟩ := hstart.run (fun _ _ => False) hports (sound_start hmade hbuild) ops
  obtain ⟨parts, rfl⟩ := hreach.exists_run
  exact ⟨parts, hshows⟩

end

end PortOverlap

end FourParts

end Dataflow
