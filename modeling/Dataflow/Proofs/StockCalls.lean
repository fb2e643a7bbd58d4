import Dataflow.Network.Component
import Dataflow.Proofs.OpenPorts

/-!
How the calls of stock actors end.

A call that is answered has fired, or has left its ports as it found them. If it blocks, it names the one port that
keeps it from firing.
-/

namespace Dataflow

namespace Ports

variable {p q : Ports} {i o : Nat}

/-- whether an answered call has left its ports alone or fired -/
def Stirs (p q : Ports) : Prop := q = p ∨ p.actions.size < q.actions.size

theorem size_actions_fire (p : Ports) (action : Nat) : (p.fire action).actions.size = p.actions.size + 1 := by
  simp [fire]

theorem onInput_actions {α : Type} {f : Connection → PortView → Checked (α × PortView)} {a : α}
    (h : p.onInput i f = .ok (a, q)) : q.actions = p.actions := by
  obtain ⟨port, -, h⟩ := bind_eq_ok h
  obtain ⟨wire, -, h⟩ := bind_eq_ok h
  obtain ⟨⟨a', item⟩, -, h⟩ := bind_eq_ok h
  cases h
  rfl

theorem onOutput_actions {f : Connection → PortView → Checked (Connection × PortView)} (h : p.onOutput o f = .ok q) :
    q.actions = p.actions := by
  obtain ⟨port, -, h⟩ := bind_eq_ok h
  obtain ⟨wire, -, h⟩ := bind_eq_ok h
  obtain ⟨⟨wire', item⟩, -, h⟩ := bind_eq_ok h
  cases h
  rfl

theorem hasInput_eq_false (h : p.hasInput i 1 = .ok false) : p.availableIn i = .ok 0 := by
  obtain ⟨level, hlevel, h⟩ := bind_eq_ok h
  have : level = 0 := by simpa using h
  rw [hlevel, this]

theorem hasInput_eq_true (h : p.hasInput i 1 = .ok true) : ∃ level, p.availableIn i = .ok level ∧ 1 ≤ level := by
  obtain ⟨level, hlevel, h⟩ := bind_eq_ok h
  exact ⟨level, hlevel, by simpa using h⟩

theorem hasRoom_eq_false (h : p.hasRoom o 1 = .ok false) : p.availableOut o = .ok 0 := by
  obtain ⟨room, hroom, h⟩ := bind_eq_ok h
  have : room = 0 := by simpa using h
  rw [hroom, this]

end Ports

variable {n : Nat} {p : Ports} {exit : Exit} {blocked : List Blocked}

/-! ## Firing -/

/-- an answered call of at most `n` firings: if it yields, it has made them all -/
structure Ports.Spends (n : Nat) (exit : Exit) (p q : Ports) : Prop where
  stirs : p.Stirs q
  most : q.actions.size ≤ p.actions.size + n
  all : exit = .yield → p.actions.size + n ≤ q.actions.size

theorem Ports.spends_refl (p : Ports) (h : exit = .yield → n = 0) : p.Spends n exit p :=
  ⟨.inl rfl, Nat.le_add_right _ _, fun hyield => by rw [h hyield]; rfl⟩

/-- a firing, and whatever comes after it -/
theorem Ports.Spends.after {q r : Ports} {action : Nat} (h : (q.fire action).Spends n exit r)
    (hq : q.actions = p.actions) : p.Spends (n + 1) exit r := by
  have hsize := q.size_actions_fire action
  rw [hq] at hsize
  have hmost := h.most
  refine ⟨.inr ?_, by omega, fun hyield => ?_⟩
  · rcases h.stirs with rfl | hlt <;> omega
  · have hrest := h.all hyield
    omega

theorem Source.act_spends (s : Source) (h : (s.act n p).exit = .ok exit) : p.Spends n exit (s.act n p).ports := by
  fun_induction Source.act n s p with
  | case7 n s p value hnext hroom q hwrite emitted hemitted ih => exact (ih h).after (Ports.onOutput_actions hwrite)
  | case3 | case5 | case6 => cases h
  | case1 => exact Ports.spends_refl _ fun _ => rfl
  | case2 | case4 => exact Ports.spends_refl _ fun hyield => by cases h; cases hyield

theorem Scale.act_spends (s : Scale) (h : (s.act n p).exit = .ok exit) : p.Spends n exit (s.act n p).ports := by
  fun_induction Scale.act n s p with
  | case8 n s p hinput hroom value q hread q' hwrite ih =>
    exact (ih h).after ((Ports.onOutput_actions hwrite).trans (Ports.onInput_actions hread))
  | case2 | case4 | case6 | case7 => cases h
  | case1 => exact Ports.spends_refl _ fun _ => rfl
  | case3 | case5 => exact Ports.spends_refl _ fun hyield => by cases h; cases hyield

theorem Sink.act_spends (s : Sink) (h : (s.act n p).exit = .ok exit) : p.Spends n exit (s.act n p).ports := by
  fun_induction Sink.act n s p with
  | case6 n s p hfull hinput value q hread ih => exact (ih h).after (Ports.onInput_actions hread)
  | case3 | case5 => cases h
  | case1 => exact Ports.spends_refl _ fun _ => rfl
  | case2 | case4 => exact Ports.spends_refl _ fun hyield => by cases h; cases hyield

/-! ## Blocking -/

/-- a source that blocks has a number to emit and no room for it -/
theorem Source.act_blocks (s : Source) (h : (s.act n p).exit = .ok (.block blocked)) :
    blocked = [⟨.output 0, 1⟩] ∧ (s.act n p).actor.next?.isSome = true ∧ (s.act n p).ports.availableOut 0 = .ok 0 := by
  fun_induction Source.act n s p with
  | case1 s p => split at h <;> cases h
  | case4 n s p value hnext hroom =>
    cases h
    exact ⟨rfl, by simp [hnext], Ports.hasRoom_eq_false hroom⟩
  | case7 n s p value hnext hroom q hwrite emitted hemitted ih => exact ih h
  | case2 | case3 | case5 | case6 => cases h

/-- a scaler that blocks has no input, or has input and no room for its product -/
theorem Scale.act_blocks (s : Scale) (h : (s.act n p).exit = .ok (.block blocked)) :
    (blocked = [⟨.input 0, 1⟩] ∧ (s.act n p).ports.availableIn 0 = .ok 0) ∨
      (blocked = [⟨.output 0, 1⟩] ∧ (s.act n p).ports.availableOut 0 = .ok 0 ∧
        ∃ level, (s.act n p).ports.availableIn 0 = .ok level ∧ 1 ≤ level) := by
  fun_induction Scale.act n s p with
  | case3 n s p hinput =>
    cases h
    exact .inl ⟨rfl, Ports.hasInput_eq_false hinput⟩
  | case5 n s p hinput hroom =>
    cases h
    exact .inr ⟨rfl, Ports.hasRoom_eq_false hroom, Ports.hasInput_eq_true hinput⟩
  | case8 n s p hinput hroom value q hread q' hwrite ih => exact ih h
  | case1 | case2 | case4 | case6 | case7 => cases h

/-- a sink that blocks is not full and has no input -/
theorem Sink.act_blocks (s : Sink) (h : (s.act n p).exit = .ok (.block blocked)) :
    blocked = [⟨.input 0, 1⟩] ∧ (s.act n p).actor.full = false ∧ (s.act n p).ports.availableIn 0 = .ok 0 := by
  fun_induction Sink.act n s p with
  | case4 n s p hfull hinput =>
    cases h
    exact ⟨rfl, by simpa [Sink.full] using hfull, Ports.hasInput_eq_false hinput⟩
  | case6 n s p hfull hinput value q hread ih => exact ih h
  | case1 | case2 | case3 | case5 => cases h

end Dataflow
