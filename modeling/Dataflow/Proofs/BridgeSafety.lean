import Dataflow.Proofs.BridgeMoves

/-!
A bridge never faults, whatever its device does: while it works it is `Bridge.Sound`, and after a step that fails it
does nothing more.
-/

namespace Dataflow

open List Step

namespace Bridge

variable {δ : Type} [Device δ] {C : Device.Contract δ} {reads : List (EventId × Nat)} {b : Bridge δ} {open' : Ports}

/-- every port is in the condition of the phase, and the device keeps the contract -/
structure Serves (C : Device.Contract δ) (reads : List (EventId × Nat)) (b : Bridge δ) : Prop where
  regular : b.Regular
  owes : C.owes reads b.device
  rings : ∀ p ∈ b.outputs, C.rings p.data
  awaits : b.Awaits reads

/-- a bridge that has failed, or serves under the contract -/
def Sound (C : Device.Contract δ) (b : Bridge δ) : Prop := b.failed = true ∨ ∃ reads, b.Serves C reads

/-- a step does not fault, and a bridge that answers goes on to serve -/
theorem step_safe (mayLaunch : Bool) (h : b.Serves C reads) (hfits : b.Fits open') :
    Safe (step mayLaunch) (b, open') fun _ s' => s'.1.Fits s'.2 ∧ ∃ reads', s'.1.Serves C reads' := by
  refine (step_ends (T := C.terms) mayLaunch h.regular h.owes h.rings).imp ?_
    fun _ _ hstop => hstop.1 hfits ⟨trivial, h.awaits⟩
  rintro action ⟨b', ports'⟩ ⟨⟨hadvanced, -⟩, reads', howes, hawaits⟩
  have hdata := (hadvanced.stepped.map_eq (f := BridgePort.data) fun _ hdata => hdata).2
  refine ⟨hadvanced.fits hfits, reads', hadvanced.stepped.regular h.regular, howes, fun q hq => ?_, hawaits h.awaits⟩
  obtain ⟨p, hp, hpq⟩ := mem_map.1 (hdata ▸ mem_map_of_mem hq)
  exact hpq ▸ h.rings p hp

/-- any number of steps ends with an exit, and leaves the bridge sound -/
theorem stepLoop_safe (n fired : Nat) (mayLaunch : Bool) (h : b.Serves C reads) (hfits : b.Fits open') :
    ∃ exit, (stepLoop n fired mayLaunch b open').exit = .ok exit ∧
    (stepLoop n fired mayLaunch b open').actor.Sound C := by
  fun_induction stepLoop n fired mayLaunch b open' generalizing reads with
  | case1 fired mayLaunch b open' =>
    obtain ⟨exit, hexit, -⟩ := restingExit_ok fired fun _ => h.regular.levelled hfits
    exact ⟨exit, hexit, .inr ⟨reads, h⟩⟩
  | case2 n fired mayLaunch b open' action b' ports' hexec ih =>
    obtain ⟨hfits', reads', h'⟩ := (step_safe mayLaunch h hfits).of_ok hexec
    exact ih h' (hfits'.fire action.number)
  | case3 n fired mayLaunch b open' b' ports' hexec =>
    obtain ⟨hfits', reads', h'⟩ := (step_safe mayLaunch h hfits).of_ok hexec
    obtain ⟨exit, hexit, -⟩ := restingExit_ok fired fun _ => h'.regular.levelled hfits'
    exact ⟨exit, hexit, .inr ⟨reads', h'⟩⟩
  | case4 => exact ⟨.terminate, rfl, .inl rfl⟩
  | case5 n fired mayLaunch b open' f b' ports' hexec =>
    obtain ⟨_, hstop⟩ := (step_safe mayLaunch h hfits).of_error hexec
    cases hstop

theorem act_safe (h : b.Sound C) (hfits : b.Fits open') (maxLoops : Nat) :
    ∃ exit, (b.act maxLoops open').exit = .ok exit ∧ (b.act maxLoops open').actor.Sound C := by
  unfold act
  split_ifs with hfailed
  · exact ⟨.terminate, rfl, .inl hfailed⟩
  · obtain ⟨reads, h⟩ := h.resolve_left hfailed
    exact stepLoop_safe maxLoops 0 true h hfits

end Bridge

end Dataflow
