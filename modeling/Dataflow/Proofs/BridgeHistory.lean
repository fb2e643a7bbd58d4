import Dataflow.Proofs.BridgeMoves

/-!
The life of a bridge: all actions it has taken since it was created (`Bridge.HasHistory`).

What holds of a new bridge and is kept by every action and by every step that stops holds along it (`Bridge.Lasting`).
-/

namespace Dataflow

open List

namespace Bridge

variable {δ : Type}

/-- an action that a bridge took, and the bridge before and after it -/
structure Taken (δ : Type) where
  action : BridgeAction
  before : Bridge δ
  after : Bridge δ

theorem StepsTo.failed {b b' : Bridge δ} {action : Option BridgeAction} (h : b.StepsTo action b') :
    b'.failed = b.failed := by
  cases h with
  | waits d => rfl
  | handsOn hphase h | starts hphase h | books hphase h | collects hphase h => exact h.failed

/-- what lasts: a new bridge has it, and no change of the device, no action and no failure takes it away -/
structure Lasting (ins outs : List LinkPort) (I : Bridge δ → List (Taken δ) → Prop) : Prop where
  fresh : ∀ {b}, b.Fresh ins outs → I b []
  moved : ∀ {b history} d, I b history → I { b with device := d } history
  takes : ∀ {b b' history action}, b.Regular → b.failed = false →
    b.StepsTo (some action) b' → I b history → I b' (history ++ [⟨action, b, b'⟩])
  stops : ∀ {b b' ports ports' history}, b.failed = false →
    Underway (b, ports) (b', ports') → I b history → I { b' with failed := true } history

variable [Device δ]

/-- the actions that the steps of a call take, in order -/
def taken : Nat → Bool → Bridge δ → Ports → List (Taken δ)
  | 0, _, _, _ => []
  | n + 1, mayLaunch, b, ports =>
    match (step mayLaunch).exec (b, ports) with
    | (.ok (some action), b', ports') =>
      ⟨action, b, b'⟩ :: taken n (mayLaunch && action != .startKernel) b' (ports'.fire action.number)
    | _ => []

def takenBy (maxLoops : Nat) (b : Bridge δ) (ports : Ports) : List (Taken δ) :=
  if b.failed then [] else taken maxLoops true b ports

/-- a bridge with ports of these shapes and all actions it has taken; a call that faults is the end of it -/
inductive HasHistory (ins outs : List LinkPort) : Bridge δ → List (Taken δ) → Prop
  | created {name : String} {d : δ} {b : Bridge δ} (hwords : ∀ spec ∈ ins ++ outs, spec.capacity < Word.size32)
      (h : create name d ins outs = .ok b) : HasHistory ins outs b []
  | called {b : Bridge δ} {history : List (Taken δ)} (h : HasHistory ins outs b history)
      (maxLoops : Nat) (ports : Ports) {exit : Exit} (hexit : (b.act maxLoops ports).exit = .ok exit) :
      HasHistory ins outs (b.act maxLoops ports).actor (history ++ b.takenBy maxLoops ports)
  | moved {b : Bridge δ} {history : List (Taken δ)} (h : HasHistory ins outs b history) (d : δ) :
      HasHistory ins outs { b with device := d } history

variable {ins outs : List LinkPort} {I : Bridge δ → List (Taken δ) → Prop} {b : Bridge δ} {ports : Ports}
  {history : List (Taken δ)} {mayLaunch : Bool} {t : Taken δ} {n : Nat}

theorem taken_of_ok {action : BridgeAction} {s' : Bridge δ × Ports}
    (h : (step mayLaunch).exec (b, ports) = (.ok (some action), s')) : taken (n + 1) mayLaunch b ports =
      ⟨action, b, s'.1⟩ :: taken n (mayLaunch && action != .startKernel) s'.1 (s'.2.fire action.number) := by
  simp only [taken, h]

/-- every action of a call is that of a step -/
theorem exec_of_mem_taken (h : t ∈ taken n mayLaunch b ports) :
    ∃ mayLaunch ports ports', (step mayLaunch).exec (t.before, ports) = (.ok (some t.action), t.after, ports') := by
  fun_induction taken n mayLaunch b ports with
  | case1 => cases h
  | case2 n mayLaunch b ports action b' ports' hexec ih =>
    rcases mem_cons.1 h with rfl | h
    · exact ⟨mayLaunch, ports, ports', hexec⟩
    · exact ih h
  | case3 => cases h

/-- the steps of a call keep what lasts -/
theorem stepLoop_lasting (hI : Lasting ins outs I) (n fired : Nat) (mayLaunch : Bool) (hb : b.Regular)
    (hworks : b.failed = false) (h : I b history) {exit : Exit}
    (hexit : (stepLoop n fired mayLaunch b ports).exit = .ok exit) :
    I (stepLoop n fired mayLaunch b ports).actor (history ++ taken n mayLaunch b ports) ∧
      ((stepLoop n fired mayLaunch b ports).actor.failed = false →
        (stepLoop n fired mayLaunch b ports).actor.Regular) := by
  fun_induction stepLoop n fired mayLaunch b ports generalizing history with
  | case1 fired mayLaunch b ports =>
    rw [taken, append_nil]
    exact ⟨h, fun _ => hb⟩
  | case2 n fired mayLaunch b ports action b' ports' hexec ih =>
    obtain ⟨hadvanced, -⟩ := (step_moves mayLaunch hb).of_ok hexec
    have hlast := ih (hadvanced.stepped.regular hb) (hadvanced.stepped.failed.trans hworks)
      (hI.takes hb hworks hadvanced.stepped h) hexit
    rwa [append_assoc, singleton_append, ← taken_of_ok hexec] at hlast
  | case3 n fired mayLaunch b ports b' ports' hexec =>
    obtain ⟨⟨hstepped, -, -⟩, -⟩ := (step_moves mayLaunch hb).of_ok hexec
    simp only [taken, hexec, append_nil]
    cases hstepped with
    | waits d => exact ⟨hI.moved d h, fun _ => hb.onDevice d⟩
  | case4 n fired mayLaunch b ports e b' ports' hexec =>
    have hunder := (step_moves mayLaunch hb).of_error hexec
    simp only [taken, hexec, append_nil]
    exact ⟨hI.stops hworks hunder h, nofun⟩
  | case5 => cases hexit

/-- a bridge that has failed does nothing more -/
theorem act_of_failed (h : b.failed = true) (maxLoops : Nat) (ports : Ports) :
    b.act maxLoops ports = ⟨b, ports, .ok .terminate⟩ ∧ b.takenBy maxLoops ports = [] := by
  rw [act, takenBy, h]
  exact ⟨rfl, rfl⟩

/-- a call of a bridge that works is a loop of steps -/
theorem act_of_works (h : b.failed = false) (maxLoops : Nat) (ports : Ports) :
    b.act maxLoops ports = stepLoop maxLoops 0 true b ports ∧
    b.takenBy maxLoops ports = taken maxLoops true b ports := by
  rw [act, takenBy, h]
  exact ⟨rfl, rfl⟩

/-- what lasts holds of every bridge and its history, and a bridge that works is in the condition of its phase -/
theorem HasHistory.lasting (hI : Lasting ins outs I) (h : HasHistory ins outs b history) :
    I b history ∧ (b.failed = false → b.Regular) := by
  induction h with
  | created hwords h => exact ⟨hI.fresh (.of_create h), fun _ => (Fresh.of_create h).regular⟩
  | @called b history _ maxLoops ports exit hexit ih =>
    cases hfailed : b.failed with
    | true =>
      obtain ⟨hact, htaken⟩ := act_of_failed hfailed maxLoops ports
      rw [hact, htaken, append_nil]
      exact ih
    | false =>
      obtain ⟨hact, htaken⟩ := act_of_works hfailed maxLoops ports
      rw [hact] at hexit ⊢
      rw [htaken]
      exact stepLoop_lasting hI maxLoops 0 true (ih.2 hfailed) hfailed ih.1 hexit
  | moved _ d ih => exact ⟨hI.moved d ih.1, fun hworks => (ih.2 hworks).onDevice d⟩

section

variable (h : HasHistory ins outs b history)

include h

/-- every action of a history is that of a step -/
theorem HasHistory.exec_of_mem (ht : t ∈ history) :
    ∃ mayLaunch ports ports', (step mayLaunch).exec (t.before, ports) = (.ok (some t.action), t.after, ports') := by
  induction h with
  | created => cases ht
  | called _ maxLoops ports _ ih =>
    rcases mem_append.1 ht with ht | ht
    · exact ih ht
    · unfold takenBy at ht
      split at ht
      · cases ht
      · exact exec_of_mem_taken ht
  | moved _ _ ih => exact ih ht

theorem HasHistory.words : ∀ spec ∈ ins ++ outs, spec.capacity < Word.size32 := by
  induction h with
  | created hwords _ => exact hwords
  | called _ _ _ _ ih | moved _ _ ih => exact ih

theorem HasHistory.regular (hworks : b.failed = false) : b.Regular :=
  (h.lasting (I := fun _ _ => True) ⟨fun _ => trivial, fun _ _ => trivial, fun _ _ _ _ => trivial,
    fun _ _ _ => trivial⟩).2 hworks

end

end Bridge

end Dataflow
