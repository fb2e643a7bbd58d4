import Dataflow.Proofs.BridgeHistory
import Dataflow.Proofs.BridgeService
import Dataflow.Proofs.DeviceJournal

/-!
The work of one call of a bridge, and the order of the actions over its whole life.

- `bridge_work_bounded`: launch, booking and collection follow each other, and output is handed on only in between
  (`Bridge.Orderly`). One call submits one launch at most and fires five actions at most, since every action lowers
  `Bridge.actionsLeft`. A call that may take six steps or more ends as one that may take six.
- Witness `bridge_work_bounded_five_actions`.

Premises: a journal of the device, and a history of calls from the creation on (`Bridge.HasHistory`). The device may do
anything before, between and during the calls.
-/

namespace Dataflow

open List

namespace Bridge

variable {δ : Type}

/-! ## The order of actions -/

/-- the actions that lead from phase to phase, one after the other -/
def roundAction (k : Nat) : BridgeAction :=
  if k % 3 = 0 then .startKernel else if k % 3 = 1 then .updateIndices else .collect

def rounds (word : List BridgeAction) : List BridgeAction := word.filter (· != .freeUp)

/-- launch, booking and collection follow each other, and output is handed on only before the first launch or between a
collection and the next launch -/
structure Orderly (word : List BridgeAction) : Prop where
  cyclic : rounds word = (List.range (rounds word).length).map roundAction
  handsOn : ∀ {before after}, word = before ++ .freeUp :: after →
    rounds before = [] ∨ (rounds before).getLast? = some .collect

/-- the actions taken since the last round was complete -/
def placeOf : LinkPhase → Nat
  | .init => 0
  | .pollKernel => 1
  | .pollRead => 2

variable {word : List BridgeAction}

theorem rounds_append (word more : List BridgeAction) : rounds (word ++ more) = rounds word ++ rounds more :=
  filter_append _ _

theorem Orderly.nil : Orderly [] := ⟨rfl, by simp⟩

theorem Orderly.next (h : Orderly word) {action : BridgeAction} (haction : action = roundAction (rounds word).length)
    (hround : action ≠ .freeUp) : Orderly (word ++ [action]) := by
  have hrounds : rounds (word ++ [action]) = rounds word ++ [action] := by
    simp [rounds, hround]
  refine ⟨?_, fun {before after} hsplit => ?_⟩
  · rw [hrounds, length_append, length_singleton, range_succ, map_append, ← h.cyclic, haction]
    rfl
  · -- the action that hands on stands further to the left
    rcases eq_nil_or_concat after with rfl | ⟨init, last, rfl⟩
    · exact absurd (append_inj' hsplit rfl).2 (by simp [hround])
    · rw [concat_eq_append, ← cons_append, ← append_assoc] at hsplit
      exact h.handsOn (append_inj' hsplit rfl).1

theorem Orderly.handOn (h : Orderly word) (hplace : (rounds word).length % 3 = 0) : Orderly (word ++ [.freeUp]) := by
  have hrounds : rounds (word ++ [.freeUp]) = rounds word := by
    simp [rounds]
  refine ⟨by rw [hrounds]; exact h.cyclic, fun {before after} hsplit => ?_⟩
  rcases eq_nil_or_concat after with rfl | ⟨init, last, rfl⟩
  · obtain rfl := (append_inj' hsplit rfl).1
    rcases Nat.eq_zero_or_pos (rounds word).length with hzero | hpos
    · exact .inl (length_eq_zero_iff.1 hzero)
    · obtain ⟨k, hk⟩ : ∃ k, (rounds word).length = k + 1 := ⟨_, (Nat.sub_add_cancel hpos).symm⟩
      refine .inr ?_
      rw [h.cyclic, hk, range_succ, map_append, map_singleton, getLast?_concat]
      have hlast : k % 3 = 2 := by omega
      simp [roundAction, hlast]
  · rw [concat_eq_append, ← cons_append, ← append_assoc] at hsplit
    exact h.handsOn (append_inj' hsplit rfl).1

/-- a history in good order, which has come to the phase of the bridge -/
def InOrder (b : Bridge δ) (history : List (Taken δ)) : Prop :=
  Orderly (history.map (·.action)) ∧ (rounds (history.map (·.action))).length % 3 = placeOf b.phase

theorem inOrder_lasting (ins outs : List LinkPort) : Lasting ins outs (InOrder : Bridge δ → List (Taken δ) → Prop) where
  fresh h := ⟨.nil, by rw [h.phase]; rfl⟩
  moved _ h := h
  stops _ hunder h := by
    have hphase := hunder.phase
    exact ⟨h.1, by rw [h.2, ← hphase]⟩
  takes {b b' history action} _ _ hstepped h := by
    obtain ⟨horder, hplace⟩ := h
    have hnext : ∀ {next}, action = roundAction (placeOf b.phase) → action ≠ .freeUp →
        placeOf next = (placeOf b.phase + 1) % 3 → Orderly (history.map (·.action) ++ [action]) ∧
          (rounds (history.map (·.action) ++ [action])).length % 3 = placeOf next := by
      intro next haction hround hnext
      refine ⟨horder.next ?_ hround, ?_⟩
      · rw [haction, ← hplace]
        simp only [roundAction, Nat.mod_mod]
      · rw [rounds_append, length_append, hnext, ← hplace]
        simp [rounds, hround]
    rw [InOrder, map_append, map_singleton]
    cases hstepped with
    | handsOn hphase h =>
      rw [hphase] at hplace
      refine ⟨horder.handOn hplace, ?_⟩
      rw [rounds_append, h.phase, hphase, ← hplace]
      simp [rounds]
    | starts hphase h | books hphase h | collects hphase h =>
        exact hnext (by rw [hphase]; rfl) (by decide) (by rw [hphase]; rfl)

/-! ## The actions of one call -/

/-- the actions that a call can still take -/
def actionsLeft (b : Bridge δ) (ports : Ports) (mayLaunch : Bool) : Nat :=
  3 * mayLaunch.toNat + match b.phase with
    | .init => match b.canWriteToOutput ports with
      | .ok false => 0
      | _ => 1
    | .pollKernel => 2
    | .pollRead => 1

theorem actionsLeft_le (b : Bridge δ) (ports : Ports) (mayLaunch : Bool) : b.actionsLeft ports mayLaunch ≤ 5 := by
  have hlaunch := mayLaunch.toNat_le
  unfold actionsLeft
  cases b.phase with
  | init =>
    dsimp only
    split <;> omega
  | pollKernel | pollRead =>
    dsimp only
    omega

variable {b b' : Bridge δ} {ports ports' : Ports} {action : BridgeAction} {mayLaunch : Bool}

/-- every action lowers what is left -/
theorem Advanced.actionsLeft_lt (h : Advanced (b, ports) (some action) (b', ports')) (hfits : b.Fits ports)
    (hlaunch : action = .startKernel → mayLaunch = true) (number : Nat) :
    b'.actionsLeft (ports'.fire number) (mayLaunch && action != .startKernel) < b.actionsLeft ports mayLaunch := by
  have hasked : action = .freeUp → b.canWriteToOutput ports = .ok true := fun haction => h.asked (congrArg some haction)
  have hdrained : action = .freeUp ∨ action = .collect → b'.canWriteToOutput (ports'.fire number) = .ok false :=
    fun haction => h.drained hfits (haction.imp (congrArg some) (congrArg some))
  have hmay : action ≠ .startKernel → (mayLaunch && action != .startKernel) = mayLaunch := by
    intro hother
    rw [bne_iff_ne.2 hother, Bool.and_true]
  have hstepped : b.StepsTo (some action) b' := h.stepped
  unfold actionsLeft
  cases hstepped with
  | handsOn hphase h =>
    rw [h.phase, hphase, hdrained (.inl rfl), hasked rfl, hmay (by decide)]
    exact Nat.lt_succ_self _
  | starts hphase h =>
    rw [hphase, hlaunch rfl]
    change 3 * 0 + 2 < 3 * 1 + _
    omega
  | books hphase h =>
    rw [hphase, hmay (by decide)]
    exact Nat.lt_succ_self _
  | collects hphase h =>
    rw [hphase, hdrained (.inr rfl), hmay (by decide)]
    exact Nat.lt_succ_self _

variable [Device δ]

/-- with more steps than actions left, a call stops by itself -/
theorem stepLoop_bounded {left : Nat} (fired : Nat) (hb : b.Regular) (hfits : b.Fits ports)
    (hleft : b.actionsLeft ports mayLaunch < left) (n : Nat) :
    (taken n mayLaunch b ports).length < left ∧
      stepLoop (left + n) fired mayLaunch b ports = stepLoop left fired mayLaunch b ports := by
  induction left generalizing fired mayLaunch b ports n with
  | zero => exact absurd hleft (Nat.not_lt_zero _)
  | succ left ih =>
    rw [Nat.add_right_comm]
    match hexec : (step mayLaunch).exec (b, ports) with
    | (.ok (some action), b', ports') =>
      obtain ⟨hadvanced, hlaunch, -⟩ := (step_moves mayLaunch hb).of_ok hexec
      have hlt := hadvanced.actionsLeft_lt hfits (fun haction => hlaunch (congrArg some haction)) action.number
      have hrest := ih (fired + 1) (hadvanced.stepped.regular hb) ((hadvanced.fits hfits).fire action.number)
        (lt_of_lt_of_le hlt (Nat.le_of_lt_succ hleft))
      refine ⟨?_, by simp only [stepLoop, hexec]; exact (hrest n).2⟩
      cases n with
      | zero => exact Nat.succ_pos left
      | succ n =>
        rw [taken_of_ok hexec, length_cons]
        exact Nat.succ_lt_succ (hrest n).1
    | (.ok none, b', ports') | (.error (.error e), b', ports') | (.error (.fault f), b', ports') =>
      refine ⟨?_, by simp only [stepLoop, hexec]⟩
      cases n <;> simp [taken, hexec]

/-- the actions that a call fires, by their numbers -/
theorem stepLoop_fires (n fired : Nat) (hb : b.Regular) : (stepLoop n fired mayLaunch b ports).ports.actions.toList =
    ports.actions.toList ++ (taken n mayLaunch b ports).map (·.action.number) := by
  fun_induction stepLoop n fired mayLaunch b ports with
  | case1 fired mayLaunch b ports => simp [taken]
  | case2 n fired mayLaunch b ports action b' ports' hexec ih =>
    obtain ⟨hadvanced, -⟩ := (step_moves mayLaunch hb).of_ok hexec
    rw [ih (hadvanced.stepped.regular hb), taken_of_ok hexec, Ports.fire, hadvanced.kept.actions]
    simp
  | case3 n fired mayLaunch b ports b' ports' hexec =>
    obtain ⟨hadvanced, -⟩ := (step_moves mayLaunch hb).of_ok hexec
    have hactions : ports'.actions = ports.actions := hadvanced.kept.actions
    simp [taken, hexec, hactions]
  | case4 n fired mayLaunch b ports e b' ports' hexec | case5 n fired mayLaunch b ports f b' ports' hexec =>
    have hactions : ports'.actions = ports.actions := ((step_moves mayLaunch hb).of_error hexec).kept.actions
    simp [taken, hexec, hactions]

end Bridge

/-- **A bridge does bounded work**, whatever its device does. -/
theorem bridge_work_bounded {δ : Type} [Device δ] (J : Device.Journal δ) {ins outs : List LinkPort} {b : Bridge δ}
    {history : List (Bridge.Taken δ)} (h : Bridge.HasHistory ins outs b history) :
    Bridge.Orderly (history.map (·.action)) ∧
      ∀ (ports : Ports), b.Fits ports → ∀ maxLoops,
        J.launches (b.act maxLoops ports).actor.device ≤ J.launches b.device + 1 ∧
        (b.act maxLoops ports).ports.actions.toList =
          ports.actions.toList ++ (b.takenBy maxLoops ports).map (·.action.number) ∧
        (b.takenBy maxLoops ports).length ≤ 5 ∧ (6 ≤ maxLoops → b.act maxLoops ports = b.act 6 ports) := by
  refine ⟨(h.lasting (Bridge.inOrder_lasting ins outs)).1.1, fun ports hfits maxLoops => ?_⟩
  refine ⟨(Bridge.act_asked maxLoops b ports).launches, ?_⟩
  unfold Bridge.act Bridge.takenBy
  cases hworks : b.failed with
  | true => simp
  | false =>
    have hregular := h.regular hworks
    have hleft : b.actionsLeft ports true < 6 := Nat.lt_succ_of_le (b.actionsLeft_le ports true)
    refine ⟨Bridge.stepLoop_fires maxLoops 0 hregular, ?_, fun hsix => ?_⟩
    · exact Nat.le_of_lt_succ (Bridge.stepLoop_bounded 0 hregular hfits hleft maxLoops).1
    · obtain ⟨more, rfl⟩ := Nat.exists_eq_add_of_le hsix
      exact (Bridge.stepLoop_bounded 0 hregular hfits hleft more).2

/-- The first call may take one step, and launches. The device has finished at once, so the second call books and
collects, finds another token, and goes round once more. -/
theorem bridge_work_bounded_five_actions :
    ∃ b called : Bridge (Journaled (Accelerator StockKernel)),
      Bridge.create "link" ⟨Accelerator.create (StockKernel.echo 1) .immediate, []⟩
      [⟨"in", 1, 2⟩] [⟨"out", 1, 2⟩] = .ok b ∧
      called = (b.act 1 Ports.oneToken).actor ∧ called.Fits Ports.oneToken ∧
      Bridge.HasHistory [⟨"in", 1, 2⟩] [⟨"out", 1, 2⟩] called (b.takenBy 1 Ports.oneToken) ∧
      (b.takenBy 1 Ports.oneToken).map (·.action) = [.startKernel] ∧
      (called.takenBy 9 Ports.oneToken).map (·.action) = [.updateIndices, .collect,
        .startKernel, .updateIndices, .collect] ∧
      Bridge.Orderly ((b.takenBy 1 Ports.oneToken).map (·.action)) ∧
      (Journaled.journal _).launches (called.act 9 Ports.oneToken).actor.device ≤
        (Journaled.journal _).launches called.device + 1 ∧
      (called.takenBy 9 Ports.oneToken).length ≤ 5 ∧ called.act 9 Ports.oneToken = called.act 6 Ports.oneToken := by
  obtain ⟨b, hb⟩ : ∃ b, Bridge.create "link" (⟨Accelerator.create (StockKernel.echo 1) .immediate, []⟩ : Journaled _)
    [⟨"in", 1, 2⟩] [⟨"out", 1, 2⟩] = .ok b := ⟨_, rfl⟩
  have hcalls := eq_of_map_toOption hb (fun b =>
      let called := (b.act 1 Ports.oneToken).actor
      (called.inputs.map (·.spec.tokenSize), called.outputs.map (·.spec.tokenSize),
        (b.act 1 Ports.oneToken).exit.toOption, (b.takenBy 1 Ports.oneToken).map (·.action),
        (called.takenBy 9 Ports.oneToken).map (·.action)))
    (show _ = some ([1], [1], some .yield, [.startKernel],
      [.updateIndices, .collect, .startKernel, .updateIndices, .collect]) by
      decide +kernel)
  simp only [Prod.mk.injEq] at hcalls
  obtain ⟨hin, hout, hexit, hfirst, hsecond⟩ := hcalls
  have hhistory : Bridge.HasHistory _ _ (b.act 1 Ports.oneToken).actor ([] ++ b.takenBy 1 Ports.oneToken) :=
    (Bridge.HasHistory.created (by decide) hb).called 1 Ports.oneToken (eq_ok_of_toOption hexit)
  have hfits : (b.act 1 Ports.oneToken).actor.Fits Ports.oneToken := by
    rw [Bridge.Fits, hin, hout]
    exact Ports.oneToken_ready
  obtain ⟨horder, hcall⟩ := bridge_work_bounded (Journaled.journal _) hhistory
  obtain ⟨hlaunches, -, hlength, hsix⟩ := hcall Ports.oneToken hfits 9
  exact ⟨b, _, hb, rfl, hfits, hhistory, hfirst, hsecond, horder, hlaunches, hlength, hsix (by decide)⟩

end Dataflow
