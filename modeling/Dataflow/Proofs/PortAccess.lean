import Dataflow.Network.Component
import Dataflow.Proofs.DeviceTrail
import Dataflow.Proofs.OpenPorts

/-!
What a call can do through its ports: no total of a connection changes before they are closed (`Ports.Leads`). All calls
of the actors at hand keep to it (`Component.throughPorts`), also those that fault half-way.
-/

namespace Dataflow

open List

/-- what decides how many tokens the ends of a connection may move -/
def Connection.levels (c : Connection) : Nat × UInt32 × List UInt32 := (c.capacity, c.produced, c.consumed)

/-- `w` is what use has left of the view `v` -/
structure PortView.Used (v w : Attached PortView) : Prop where
  wire : w.wire = v.wire
  openedWith : w.item.openedWith = v.item.openedWith
  available : w.item.available ≤ v.item.available

theorem PortView.Used.refl (v : Attached PortView) : PortView.Used v v := ⟨rfl, rfl, le_rfl⟩

theorem PortView.Used.trans {u v w : Attached PortView} (h : PortView.Used u v) (h' : PortView.Used v w) :
    PortView.Used u w :=
  ⟨h'.wire.trans h.wire, h'.openedWith.trans h.openedWith, h'.available.trans h.available⟩

namespace Ports

/-- `q` is what work through the ports `p` may leave -/
structure Leads (p q : Ports) : Prop where
  levels : q.wires.map Connection.levels = p.wires.map Connection.levels
  inputs : List.Forall₂ PortView.Used p.inputs q.inputs
  outputs : List.Forall₂ PortView.Used p.outputs q.outputs

variable {p q r : Ports} {i o : Nat} {views views' : List (Attached PortView)} {v w : Attached PortView}

theorem Leads.refl (p : Ports) : p.Leads p :=
  ⟨rfl, forall₂_same.2 fun v _ => .refl v, forall₂_same.2 fun v _ => .refl v⟩

theorem Leads.trans (h : p.Leads q) (h' : q.Leads r) : p.Leads r := by
  have htrans : ∀ {xs ys zs}, List.Forall₂ PortView.Used xs ys →
      List.Forall₂ PortView.Used ys zs → List.Forall₂ PortView.Used xs zs := by
    intro xs ys zs hxy hyz
    induction hxy generalizing zs with
    | nil => exact hyz
    | cons hab _ ih =>
      cases hyz with
      | cons hbc hrest => exact .cons (hab.trans hbc) (ih hrest)
  exact ⟨h'.levels.trans h.levels, htrans h.inputs h'.inputs, htrans h.outputs h'.outputs⟩

theorem Leads.fire (h : p.Leads q) (action : Nat) : p.Leads (q.fire action) := ⟨h.levels, h.inputs, h.outputs⟩

/-- one view of a list is used -/
theorem used_set (hv : views[i]? = some v) (h : PortView.Used v w) :
    List.Forall₂ PortView.Used views (views.set i w) := by
  induction views generalizing i with
  | nil => cases hv
  | cons x rest ih =>
    cases i with
    | zero =>
      cases hv
      exact .cons h (forall₂_same.2 fun v _ => .refl v)
    | succ i => exact .cons (.refl x) (ih hv)

/-- the view in the same place after use -/
theorem exists_used (h : List.Forall₂ PortView.Used views views') (hv : views[i]? = some v) :
    ∃ w, views'[i]? = some w ∧ PortView.Used v w := by
  obtain ⟨hlt, rfl⟩ := List.getElem?_eq_some_iff.1 hv
  have hlt' := h.length_eq ▸ hlt
  exact ⟨views'[i], getElem?_eq_getElem hlt', h.get hlt hlt'⟩

/-- the view in the same place before use -/
theorem exists_unused (h : List.Forall₂ PortView.Used views views') (hw : views'[i]? = some w) :
    ∃ v, views[i]? = some v ∧ PortView.Used v w := by
  obtain ⟨hlt', rfl⟩ := List.getElem?_eq_some_iff.1 hw
  have hlt := h.length_eq ▸ hlt'
  exact ⟨views[i], getElem?_eq_getElem hlt, h.get hlt hlt'⟩

/-- work on one input leads on if it only uses up the view -/
theorem onInput_leads {α : Type} {f : Connection → PortView → Checked (α × PortView)} {a : α}
    (hf : ∀ c v a v', f c v = .ok (a, v') → v'.openedWith = v.openedWith ∧ v'.available ≤ v.available)
    (h : p.onInput i f = .ok (a, q)) : p.Leads q := by
  obtain ⟨port, hport, h⟩ := bind_eq_ok h
  obtain ⟨wire, -, h⟩ := bind_eq_ok h
  obtain ⟨⟨a', item⟩, hitem, h⟩ := bind_eq_ok h
  cases h
  obtain ⟨hopened, havail⟩ := hf wire port.item a item hitem
  exact ⟨rfl, used_set (fetch_eq_some hport) ⟨rfl, hopened, havail⟩, (Leads.refl p).outputs⟩

/-- work on one output leads on if it only fills slots and uses up the view -/
theorem onOutput_leads {f : Connection → PortView → Checked (Connection × PortView)}
    (hf : ∀ c v c' v', f c v = .ok (c', v') →
      c'.levels = c.levels ∧ v'.openedWith = v.openedWith ∧ v'.available ≤ v.available)
    (h : p.onOutput o f = .ok q) : p.Leads q := by
  obtain ⟨port, hport, h⟩ := bind_eq_ok h
  obtain ⟨wire, hwire, h⟩ := bind_eq_ok h
  obtain ⟨⟨wire', item⟩, hitem, h⟩ := bind_eq_ok h
  cases h
  obtain ⟨hlevels, hopened, havail⟩ := hf wire port.item wire' item hitem
  refine ⟨?_, (Leads.refl p).inputs, used_set (fetch_eq_some hport) ⟨rfl, hopened, havail⟩⟩
  have hget : (p.wires.map Connection.levels)[port.wire]? = some wire'.levels := by
    rw [getElem?_map, fetch_eq_some hwire, hlevels]
    rfl
  obtain ⟨hlt, heq⟩ := List.getElem?_eq_some_iff.1 hget
  rw [map_set, ← heq, set_getElem_self]

end Ports

namespace Connection

variable {c : Connection} {v v' : PortView} {n : Nat}

theorem skip_used (h : c.skip v n = .ok v') : v'.openedWith = v.openedWith ∧ v'.available ≤ v.available := by
  obtain ⟨-, -, h⟩ := bind_eq_ok h
  obtain ⟨cursor, -, h⟩ := bind_eq_ok h
  cases h
  exact ⟨rfl, Nat.sub_le v.available n⟩

end Connection

namespace Ports

variable {p q : Ports} {i o n : Nat} {bytes : Bytes} {t : Primitive} {value : t.Value}

theorem readBytes_leads (h : p.readBytes i n = .ok (bytes, q)) : p.Leads q := by
  refine onInput_leads (fun c v a v' hread => ?_) h
  obtain ⟨parts, -, hread⟩ := bind_eq_ok hread
  obtain ⟨_, -, hread⟩ := bind_eq_ok hread
  obtain ⟨v'', hskip, hread⟩ := bind_eq_ok hread
  cases hread
  exact Connection.skip_used hskip

theorem read_leads (h : p.read i t = .ok (value, q)) : p.Leads q := by
  refine onInput_leads (fun c v a v' hread => ?_) h
  obtain ⟨_, -, hread⟩ := bind_eq_ok hread
  obtain ⟨v'', hskip, hread⟩ := bind_eq_ok hread
  cases hread
  exact Connection.skip_used hskip

theorem writeBytes_leads (h : p.writeBytes o bytes = .ok q) : p.Leads q := by
  refine onOutput_leads (fun c v c' v' hwrite => ?_) h
  obtain ⟨parts, -, hwrite⟩ := bind_eq_ok hwrite
  obtain ⟨storage, -, hwrite⟩ := bind_eq_ok hwrite
  obtain ⟨v'', hskip, hwrite⟩ := bind_eq_ok hwrite
  cases hwrite
  exact ⟨rfl, Connection.skip_used hskip⟩

theorem write_leads (h : p.write o t value = .ok q) : p.Leads q := by
  refine onOutput_leads (fun c v c' v' hwrite => ?_) h
  obtain ⟨-, -, hwrite⟩ := bind_eq_ok hwrite
  obtain ⟨-, -, hwrite⟩ := bind_eq_ok hwrite
  obtain ⟨storage, -, hwrite⟩ := bind_eq_ok hwrite
  obtain ⟨v'', hskip, hwrite⟩ := bind_eq_ok hwrite
  cases hwrite
  exact ⟨rfl, Connection.skip_used hskip⟩

end Ports

/-- actors that touch connections through their ports only -/
def Behaviour.ThroughPorts (σ : Type) [Behaviour σ] : Prop :=
  ∀ maxLoops (actor : σ) (ports : Ports), ports.Leads (Behaviour.act maxLoops actor ports).ports

/-! ## Stock and scripted actors -/

theorem Source.act_leads (n : Nat) (s : Source) (p : Ports) : p.Leads (s.act n p).ports := by
  fun_induction Source.act n s p with
  | case6 n s p value hnext hroom q hwrite f hfault => exact Ports.write_leads hwrite
  | case7 n s p value hnext hroom q hwrite emitted hemitted ih => exact ((Ports.write_leads hwrite).fire 0).trans ih
  | _ => exact .refl _

theorem Scale.act_leads (n : Nat) (s : Scale) (p : Ports) : p.Leads (s.act n p).ports := by
  fun_induction Scale.act n s p with
  | case7 n s p hinput hroom value q hread f hwrite => exact Ports.read_leads hread
  | case8 n s p hinput hroom value q hread q' hwrite ih =>
    exact (((Ports.read_leads hread).trans (Ports.write_leads hwrite)).fire 0).trans ih
  | _ => exact .refl _

theorem Sink.act_leads (n : Nat) (s : Sink) (p : Ports) : p.Leads (s.act n p).ports := by
  fun_induction Sink.act n s p with
  | case6 n s p hfull hinput value q hread ih => exact ((Ports.read_leads hread).fire 0).trans ih
  | _ => exact .refl _

namespace Script

theorem takeFrom_leads (i : Nat) (take : List Nat) (s : Script) (p : Ports) : p.Leads (takeFrom i take s p).2.1 := by
  fun_induction takeFrom i take s p with
  | case3 i n rest s p size bytes q hread ih => exact (Ports.readBytes_leads hread).trans ih
  | _ => exact .refl _

theorem putTo_leads (o : Nat) (put : List Bytes) (p : Ports) : p.Leads (putTo o put p).1 := by
  fun_induction putTo o put p with
  | case3 o bytes rest p q hwrite ih => exact (Ports.writeBytes_leads hwrite).trans ih
  | _ => exact .refl _

theorem fire_leads (actions : List Nat) (p : Ports) : p.Leads (actions.foldl Ports.fire p) := by
  induction actions generalizing p with
  | nil => exact .refl p
  | cons action actions ih => exact ((Ports.Leads.refl p).fire action).trans (ih _)

theorem perform_leads (step : ScriptStep) (s : Script) (p : Ports) : p.Leads (perform step s p).ports := by
  have htake := takeFrom_leads 0 step.take s p
  unfold perform
  split
  · next heq => simpa only [heq] using htake
  · next s' q _ heq =>
    rw [heq] at htake
    have hput := putTo_leads 0 step.put q
    split
    · next heq => exact htake.trans (by simpa only [heq] using hput)
    · next r _ heq =>
      rw [heq] at hput
      exact (htake.trans hput).trans (fire_leads step.fire r)

theorem act_leads (n : Nat) (s : Script) (p : Ports) : p.Leads (s.act n p).ports := by
  unfold act
  split
  · exact .refl p
  split
  · exact .refl p
  · exact .refl p
  · split
    · exact .refl p
    · exact perform_leads _ _ p

end Script

/-! ## Bridges -/

namespace Bridge

open Step

variable {δ : Type} [Device δ]

/-- the open ports are led on -/
def Led (s s' : Bridge δ × Ports) : Prop := s.2.Leads s'.2

omit [Device δ] in
instance : IsPreorder (Bridge δ × Ports) Led where
  refl s := .refl s.2
  trans _ _ _ h h' := h.trans h'

def led : Trail δ := .ofRel Led fun _ w _ _ _ _ => .refl w

instance : Routine (led (δ := δ)) := ⟨Ports.readBytes_leads, Ports.writeBytes_leads⟩

instance : Free (led (δ := δ)) := ⟨fun {_ _ w} _ => .refl w⟩

theorem stepLoop_leads (n fired : Nat) (mayLaunch : Bool) (b : Bridge δ) (p : Ports) :
    p.Leads (stepLoop n fired mayLaunch b p).ports := by
  induction n generalizing fired mayLaunch b p with
  | zero => exact .refl p
  | succ n ih =>
    have hstep := step_follows (T := led) mayLaunch (b, p)
    unfold stepLoop
    split
    · next action b' q heq =>
      have hled : p.Leads q := (hstep.of_ok heq).1
      exact (hled.fire action.number).trans (ih _ _ _ _)
    · next heq => exact (hstep.of_ok heq).1
    · next heq => exact hstep.of_error heq
    · next heq => exact hstep.of_error heq

theorem act_leads (n : Nat) (b : Bridge δ) (p : Ports) : p.Leads (b.act n p).ports := by
  unfold act
  split
  · exact .refl p
  · exact stepLoop_leads n 0 true b p

end Bridge

/-- the actors at hand work through their ports -/
theorem Component.throughPorts : Behaviour.ThroughPorts Component := by
  intro n actor p
  cases actor with
  | source s => exact Source.act_leads n s p
  | scale s => exact Scale.act_leads n s p
  | sink s => exact Sink.act_leads n s p
  | bridge b => exact Bridge.act_leads n b p
  | script s => exact Script.act_leads n s p

end Dataflow
