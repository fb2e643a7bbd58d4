import Dataflow.Proofs.BridgeMoves
import Dataflow.Proofs.Patience

/-!
A bridge that blocks goes on to block, over any device.

It has no command in flight, so what a call does depends on the ports that it named alone (`Bridge.Rests.resumes`).
-/

namespace Dataflow

open List Step

namespace Bridge

open BridgePort

variable {δ : Type} {exit : Exit}

/-! ## Steps and calls -/

/-- a bridge that has failed does nothing more; any other is in the condition of its phase -/
def Fit (b : Bridge δ) : Prop := b.failed = true ∨ b.Regular

section Calls

variable {b : Bridge δ} {ports : Ports} [Device δ] {n : Nat} {named : List Blocked}

/-- the steps of a call leave a bridge that is fit -/
theorem stepLoop_fit (n fired : Nat) (mayLaunch : Bool) (h : b.Regular)
    (hexit : (stepLoop n fired mayLaunch b ports).exit = .ok exit) :
    (stepLoop n fired mayLaunch b ports).actor.Fit := by
  fun_induction stepLoop n fired mayLaunch b ports with
  | case1 => exact .inr h
  | case2 n fired mayLaunch b ports action b' ports' hexec ih =>
    exact ih (((step_moves mayLaunch h).of_ok hexec).1.stepped.regular h) hexit
  | case3 n fired mayLaunch b ports b' ports' hexec =>
    exact .inr (((step_moves mayLaunch h).of_ok hexec).1.stepped.regular h)
  | case4 => exact .inl rfl
  | case5 => cases hexit

/-- a call that has fired does not block -/
theorem stepLoop_of_fired (n : Nat) {fired : Nat} (mayLaunch : Bool) (hfired : 0 < fired) (named : List Blocked) :
    (stepLoop n fired mayLaunch b ports).exit ≠ .ok (.block named) := by
  have hrest : ∀ (b : Bridge δ) ports, b.restingExit ports fired ≠ .ok (.block named) := by
    intro b ports
    rw [restingExit, if_neg fun h => Nat.ne_of_gt hfired h.2]
    exact fun h => by cases h
  induction n generalizing fired mayLaunch b ports with
  | zero => exact hrest b ports
  | succ n ih =>
    unfold stepLoop
    generalize (step mayLaunch).exec (b, ports) = turn
    obtain ⟨answer, b1, ports1⟩ := turn
    cases answer with
    | ok action =>
      cases action with
      | none => exact hrest b1 ports1
      | some action =>
        refine ih _ (Nat.succ_pos fired) fun b ports => ?_
        rw [restingExit, if_neg fun h => Nat.succ_ne_zero fired h.2]
        exact fun h => by cases h
    | error stop => cases stop <;> exact fun h => by cases h

/-- a bridge that finds nothing to do on these ports, and names those it waits for -/
structure Rests (b : Bridge δ) (ports : Ports) (named : List Blocked) : Prop where
  works : b.failed = false
  regular : b.Regular
  phase : b.phase = .init
  keeps : b.canWriteToOutput ports = .ok false
  waits : b.shouldStart ports = .ok false
  names : b.idleExit ports = .ok (.block named)

/-- a call that finds nothing to do blocks and leaves all as it is -/
theorem Rests.act (h : b.Rests ports named) (hn : 1 ≤ n) : b.act n ports = ⟨b, ports, .ok (.block named)⟩ := by
  obtain ⟨k, rfl⟩ := Nat.exists_eq_add_of_le' hn
  have hstep : Yields (step true) (b, ports) fun action s' => action = none ∧ s' = (b, ports) := by
    refine ends_bind ((h.regular.guardFailures_quiet h.phase).mono ?_)
    rintro - _ rfl
    refine ends_bind (ends_get ?_)
    dsimp only
    rw [h.phase]
    refine ends_bind (ends_ok h.keeps ?_)
    exact ends_bind (ends_ok h.waits (ends_pure ⟨rfl, rfl⟩))
  obtain ⟨action, s', hexec, rfl, rfl⟩ := hstep.exec
  have hexit : b.restingExit ports 0 = .ok (.block named) := by rw [restingExit, if_pos ⟨h.phase, rfl⟩, h.names]
  simp only [act, h.works, stepLoop, hexec, hexit]
  rfl

/-- a call that blocks has found nothing to do -/
theorem rests_of_act (h : b.Fit) (hn : 1 ≤ n) (hexit : (b.act n ports).exit = .ok (.block named)) :
    b.Rests ports named := by
  obtain ⟨k, rfl⟩ := Nat.exists_eq_add_of_le' hn
  unfold act at hexit
  split at hexit
  · cases hexit
  next hworks =>
  have hregular := h.resolve_left hworks
  have hstep : Ends (step true) (b, ports) _ _ := step_moves true hregular
  unfold Ends at hstep
  unfold stepLoop at hexit
  generalize (step true).exec (b, ports) = turn at hstep hexit
  obtain ⟨answer, b1, ports1⟩ := turn
  cases answer with
  | ok action =>
    cases action with
    | some action => exact absurd hexit (stepLoop_of_fired k _ Nat.one_pos named)
    | none =>
      have hphase : b1.phase = .init := by
        by_contra hother
        dsimp only at hexit
        rw [restingExit, if_neg fun h => hother h.1] at hexit
        cases hexit
      obtain ⟨hsame, hkeeps, hwaits⟩ := hstep.2.2 rfl hphase
      cases hsame
      dsimp only at hexit
      rw [restingExit, if_pos ⟨hphase, rfl⟩] at hexit
      exact ⟨by simpa using hworks, hregular, hphase, hkeeps, hwaits rfl, hexit⟩
  | error stop => cases stop <;> cases hexit

end Calls

/-! ## What a bridge looks at before it blocks -/

section Conditions

variable {i o k : Nat} {old new : Ports} {ps : List BridgePort} {stuck : List Blocked} {p : BridgePort}

/-- an output that has tokens staged and no room is named -/
theorem mem_stuckOutputs (h : stuckOutputs old o ps = .ok stuck) (hk : ps[k]? = some p) :
    ∃ n, p.hostPending = .ok n ∧ (n ≠ 0 → old.availableOut (o + k) = .ok 0 → ⟨.output (o + k), 1⟩ ∈ stuck) := by
  induction ps generalizing o k stuck with
  | nil => cases hk
  | cons q rest ih =>
    obtain ⟨n, hn, h⟩ := bind_eq_ok h
    obtain ⟨isStuck, more, hmore, rfl, hstuck⟩ : ∃ isStuck more, stuckOutputs old (o + 1) rest = .ok more ∧
        stuck = (if isStuck = true then ⟨.output o, 1⟩ :: more else more) ∧
        (n ≠ 0 → old.availableOut o = .ok 0 → isStuck = true) := by
      by_cases h0 : n = 0
      · rw [if_pos h0] at h
        obtain ⟨_, ⟨⟩, h⟩ := bind_eq_ok h
        obtain ⟨more, hmore, h⟩ := bind_eq_ok h
        cases h
        exact ⟨false, more, hmore, rfl, absurd h0⟩
      · rw [if_neg h0] at h
        obtain ⟨room, hroom, h⟩ := bind_eq_ok h
        obtain ⟨_, ⟨⟩, h⟩ := bind_eq_ok h
        obtain ⟨more, hmore, h⟩ := bind_eq_ok h
        cases h
        refine ⟨decide (room = 0), more, hmore, rfl, fun _ hzero => ?_⟩
        cases hroom.symm.trans hzero
        rfl
    cases k with
    | zero =>
      cases hk
      refine ⟨n, hn, fun hne hroom => ?_⟩
      rw [if_pos (hstuck hne hroom)]
      exact mem_cons_self
    | succ k =>
      obtain ⟨n', hn', hmem⟩ := ih hmore hk
      refine ⟨n', hn', fun hne hroom => ?_⟩
      rw [show o + (k + 1) = o + 1 + k by omega] at hroom ⊢
      have hin := hmem hne hroom
      split
      · exact mem_cons_of_mem _ hin
      · exact hin

/-- only the room of outputs that have tokens staged is looked at -/
theorem stuckOutputs_congr (h : ∀ {k p}, ps[k]? = some p →
      p.hostPending = .ok 0 ∨ new.availableOut (o + k) = old.availableOut (o + k)) :
    stuckOutputs new o ps = stuckOutputs old o ps := by
  induction ps generalizing o with
  | nil => rfl
  | cons p rest ih =>
    have hrest := ih fun {k p'} hk => by
      rw [show o + 1 + k = o + (k + 1) by omega]
      exact h (show (p :: rest)[k + 1]? = some p' from hk)
    rcases h (show (p :: rest)[0]? = some p from rfl) with hnone | hsame
    · simp [stuckOutputs, hnone, hrest]
    · rw [Nat.add_zero] at hsame
      simp only [stuckOutputs, hsame, hrest]

variable {b : Bridge δ} {named : List Blocked} {d : δ}

/-- an output has nothing to hand on, or as little room as before -/
theorem Rests.output (h : b.Rests old named) (hresumes : old.Resumes new named) (hp : b.outputs[o]? = some p) :
    p.hostPending = .ok 0 ∨ new.availableOut o = old.availableOut o := by
  obtain ⟨stuck, hstuck, hnames⟩ := bind_eq_ok h.names
  cases hnames
  obtain ⟨n, hn, hmem⟩ := mem_stuckOutputs hstuck hp
  have htest := test_of_anyIndexed h.keeps hp
  simp only [Nat.zero_add, hn, Checked.ok_bind] at htest hmem
  by_cases h0 : n = 0
  · left
    rw [hn, h0]
  · right
    rw [if_neg h0] at htest
    obtain ⟨room, hroom, htest⟩ := bind_eq_ok htest
    have hzero : room = 0 := by simpa using htest
    rw [hzero] at hroom
    exact hresumes.namedOut (mem_append_right _ (hmem h0 hroom))

/-- an input has what it had -/
theorem Rests.input (h : b.Rests old named) (hresumes : old.Resumes new named) (hi : i < b.inputs.length) :
    new.availableIn i = old.availableIn i := by
  obtain ⟨stuck, -, hnames⟩ := bind_eq_ok h.names
  cases hnames
  exact hresumes.namedIn (mem_append_left _ (mem_map_of_mem (mem_range.2 hi)))

/-- as long as the named ports stay as they are, there is nothing to do, whatever the device has done meanwhile -/
theorem Rests.resumes (h : b.Rests old named) (hresumes : old.Resumes new named) :
    Rests { b with device := d } new named := by
  refine ⟨h.works, h.regular.onDevice d, h.phase, ?_, ?_, ?_⟩
  · rw [← h.keeps]
    refine anyIndexed_congr fun hp => ?_
    rw [Nat.zero_add]
    rcases h.output hresumes hp with hnone | hsame
    · simp [hnone]
    · simp only [hsame]
  · have hsend : b.canSendInput new = b.canSendInput old := by
      refine anyIndexed_congr fun hp => ?_
      rw [Nat.zero_add]
      simp only [stageable, h.input hresumes (lt_of_getElem? hp)]
    rw [← h.waits]
    change b.shouldStart new = b.shouldStart old
    simp only [shouldStart, hsend]
  · rw [← h.names]
    have hstuck : stuckOutputs new 0 b.outputs = stuckOutputs old 0 b.outputs := by
      refine stuckOutputs_congr fun hp => ?_
      rw [Nat.zero_add]
      exact h.output hresumes hp
    simp only [idleExit, hstuck]

end Conditions

/-! ## Patience -/

section Patience

variable {b : Bridge δ} {ports : Ports} {n : Nat}

theorem Fit.onDevice (h : b.Fit) (d : δ) : Fit { b with device := d } := h.imp_right (·.onDevice d)

variable [Device δ]

theorem Fit.act (h : b.Fit) (hexit : (b.act n ports).exit = .ok exit) : (b.act n ports).actor.Fit := by
  unfold Bridge.act at hexit ⊢
  split
  · exact h
  · next hworks =>
    rw [if_neg hworks] at hexit
    exact stepLoop_fit n 0 true (h.resolve_left hworks) hexit

/-- after a call that blocked, a bridge blocks as long as the ports that it named stay as they are -/
theorem act_parks {named : List Blocked} {new : Ports} (h : b.Fit) (hn : 1 ≤ n)
    (hexit : (b.act n ports).exit = .ok (.block named)) (hresumes : (b.act n ports).ports.Resumes new named) (d : δ)
    {m : Nat} (hm : 1 ≤ m) : act m { (b.act n ports).actor with device := d } new =
      ⟨{ (b.act n ports).actor with device := d }, new, .ok (.block named)⟩ := by
  have hrests := rests_of_act h hn hexit
  rw [hrests.act hn] at hresumes ⊢
  exact (hrests.resumes hresumes).act hm

end Patience

end Bridge

end Dataflow
