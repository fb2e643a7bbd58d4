import Dataflow.Network.Basic
import Dataflow.Proofs.PortAccess
import Dataflow.Proofs.Tally
import Mathlib.Logic.Function.Basic

/-!
Attempts that overlap port by port.

On a `PortOverlap` every instance goes on in the smallest parts that others can get between: it compares one port it
waits for, opens one port, calls the actor, or closes one port. An open view never promises more than its end may move
(`PortOverlap.Sound`).
-/

namespace Dataflow

/-- the point that an attempt has reached -/
inductive Moment where
  /-- between two attempts -/
  | resting
  /-- these ports have still to be compared with what was seen there -/
  | comparing (ports : List (PortId × Nat))
  /-- these ports are open, inputs before outputs -/
  | opening (inputs outputs : List (Attached PortView))
  /-- called; so many inputs and outputs are closed -/
  | closing (ports : Ports) (exit : Checked Exit) (inputs outputs : Nat)
  | faulted (f : Fault)

namespace Moment

/-- whether no port is open and no call has gone wrong -/
def idle : Moment → Bool
  | .resting | .comparing _ => true
  | _ => false

/-- the view of a port that is open -/
def view? : Moment → PortId → Option (Attached PortView)
  | .opening inputs _, .input i => inputs[i]?
  | .opening _ outputs, .output o => outputs[o]?
  | .closing ports _ closed _, .input i => if closed ≤ i then ports.inputs[i]? else none
  | .closing ports _ _ closed, .output o => if closed ≤ o then ports.outputs[o]? else none
  | _, _ => none

end Moment

/-- an instance with its attempt -/
structure PortWorker (σ : Type) where
  inst : Instance σ
  moment : Moment := .resting

/-- instances that work side by side, port by port -/
structure PortOverlap (σ : Type) where
  wires : List Connection
  /-- by connection -/
  tally : Nat → Tally
  workers : List (PortWorker σ)

namespace PortWorker

variable {σ : Type}

def goTo (s : PortWorker σ) (moment : Moment) : PortWorker σ := { s with moment }

def enter (s : PortWorker σ) : PortWorker σ :=
  if s.inst.terminated then s
  else
    match s.inst.waiting with
    | some (p :: ports) => s.goTo (.comparing (p :: ports))
    | _ => s.goTo (.opening [] [])

/-- compares the next port with what was seen there -/
def compare (s : PortWorker σ) (wires : List Connection) : List (PortId × Nat) → PortWorker σ
  | [] => ⟨{ s.inst with stats := { s.inst.stats with skipped := s.inst.stats.skipped + 1 } }, .resting⟩
  | (port, seen) :: rest =>
    match s.inst.availability wires port with
    | .error f => s.goTo (.faulted f)
    | .ok now => s.goTo (if now = seen then .comparing rest else .opening [] [])

/-- opens an input after the views `inputs` -/
def openInput (s : PortWorker σ) (wires : List Connection) (e : Attached InputEnd)
    (inputs outputs : List (Attached PortView)) : PortWorker σ :=
  match fetch wires e.wire with
  | .error f => s.goTo (.faulted f)
  | .ok c => s.goTo (.opening (inputs ++ [⟨e.wire, c.openInput e.item⟩]) outputs)

/-- opens an output after the views `outputs` -/
def openOutput (s : PortWorker σ) (wires : List Connection) (e : Attached OutputEnd)
    (inputs outputs : List (Attached PortView)) : PortWorker σ :=
  match fetch wires e.wire >>= fun c => c.openOutput e.item with
  | .error f => s.goTo (.faulted f)
  | .ok v => s.goTo (.opening inputs (outputs ++ [⟨e.wire, v⟩]))

/-- the call is over and all ports are closed -/
def finish (s : PortWorker σ) (ports : Ports) : Checked Exit → PortWorker σ
  | .error f => s.goTo (.faulted f)
  | .ok exit => ⟨s.inst.book exit (Instance.waitList ports exit) ports.firing, .resting⟩

/-- the port that is opened next -/
def opensNext? (s : PortWorker σ) : Option PortId :=
  match s.moment with
  | .opening inputs outputs =>
    if inputs.length < s.inst.inputs.length then some (.input inputs.length)
    else if outputs.length < s.inst.outputs.length then some (.output outputs.length)
    else none
  | _ => none

end PortWorker

namespace PortOverlap

variable {σ : Type}

/-- the instances of a network, between two attempts -/
def start (n : Network σ) : PortOverlap σ :=
  ⟨n.wires, fun w => ⟨0, List.replicate ((n.wires[w]?.map (·.readers)).getD 0) 0⟩, n.instances.map fun inst => { inst }⟩

def put (W : PortOverlap σ) (k : Nat) (s : PortWorker σ) : PortOverlap σ := { W with workers := W.workers.set k s }

def closeInput (W : PortOverlap σ) (k : Nat) (s : PortWorker σ) (ports : Ports) (exit : Checked Exit) (i o : Nat)
    (e : Attached InputEnd) (v : PortView) : PortOverlap σ :=
  match fetch W.wires e.wire with
  | .error f => W.put k (s.goTo (.faulted f))
  | .ok c =>
    { wires := W.wires.set e.wire (c.closeInput e.item v).1
      tally := Function.update W.tally e.wire ((W.tally e.wire).move (.reader e.item.reader) v.moved)
      workers := W.workers.set k
        ⟨{ s.inst with inputs := s.inst.inputs.set i { e with item := (c.closeInput e.item v).2 } },
          .closing ports exit (i + 1) o⟩ }

def closeOutput (W : PortOverlap σ) (k : Nat) (s : PortWorker σ) (ports : Ports) (exit : Checked Exit) (i o : Nat)
    (e : Attached OutputEnd) (v : PortView) : PortOverlap σ :=
  match fetch W.wires e.wire with
  | .error f => W.put k (s.goTo (.faulted f))
  | .ok c =>
    { wires := W.wires.set e.wire (c.closeOutput e.item v).1
      tally := Function.update W.tally e.wire ((W.tally e.wire).move .writer v.moved)
      workers := W.workers.set k
        ⟨{ s.inst with outputs := s.inst.outputs.set o { e with item := (c.closeOutput e.item v).2 } },
          .closing ports exit i (o + 1)⟩ }

variable [Behaviour σ] {Drift : σ → σ → Prop} {least : Nat}

/-- calls the actor with its open ports; it works on the connections as they are now -/
def call (W : PortOverlap σ) (k maxLoops : Nat) (s : PortWorker σ)
    (inputs outputs : List (Attached PortView)) : PortOverlap σ :=
  let turn := Behaviour.act maxLoops s.inst.actor { wires := W.wires, inputs, outputs }
  { W with
    wires := turn.ports.wires
    workers := W.workers.set k ⟨{ s.inst with actor := turn.actor }, .closing turn.ports turn.exit 0 0⟩ }

/-- what worker `s` at place `k` does next -/
def advance (W : PortOverlap σ) (k maxLoops : Nat) (s : PortWorker σ) : PortOverlap σ :=
  match s.moment with
  | .resting => W.put k s.enter
  | .comparing ports => W.put k (s.compare W.wires ports)
  | .opening inputs outputs =>
    match s.inst.inputs[inputs.length]? with
    | some e => W.put k (s.openInput W.wires e inputs outputs)
    | none =>
      match s.inst.outputs[outputs.length]? with
      | some e => W.put k (s.openOutput W.wires e inputs outputs)
      | none => W.call k maxLoops s inputs outputs
  | .closing ports exit i o =>
    match (s.inst.inputs.zip ports.inputs)[i]? with
    | some (e, v) => W.closeInput k s ports exit i o e v.item
    | none =>
      match (s.inst.outputs.zip ports.outputs)[o]? with
      | some (e, v) => W.closeOutput k s ports exit i o e v.item
      | none => W.put k (s.finish ports exit)
  | .faulted _ => W

/-- the instance at place `k` goes on by one part; a call has at most `maxLoops` firings -/
def step (W : PortOverlap σ) (k maxLoops : Nat) : PortOverlap σ :=
  match W.workers[k]? with
  | none => W
  | some s => W.advance k maxLoops s

/-- parts in order, each given by place and firings -/
def run (W : PortOverlap σ) (parts : List (Nat × Nat)) : PortOverlap σ :=
  parts.foldl (fun W part => W.step part.1 part.2) W

/-- what parts with at least `least` firings lead to, while actors change by `Drift` on their own -/
inductive Reaches (least : Nat) (Drift : σ → σ → Prop) (W : PortOverlap σ) : PortOverlap σ → Prop where
  | refl : Reaches least Drift W W
  | step {W' : PortOverlap σ} (h : Reaches least Drift W W') (k : Nat) {maxLoops : Nat} (hloops : least ≤ maxLoops) :
    Reaches least Drift W (W'.step k maxLoops)
  | drift {W' : PortOverlap σ} {k : Nat} {s : PortWorker σ} {actor : σ} (h : Reaches least Drift W W')
      (hs : W'.workers[k]? = some s)
    (hdrift : Drift s.inst.actor actor) : Reaches least Drift W (W'.put k { s with inst := { s.inst with actor } })

theorem Reaches.trans {W W' W'' : PortOverlap σ} (h : W.Reaches least Drift W')
    (h' : W'.Reaches least Drift W'') : W.Reaches least Drift W'' := by
  induction h' with
  | refl => exact h
  | step _ k hloops ih => exact ih.step k hloops
  | drift _ hs hdrift ih => exact ih.drift hs hdrift

/-- where actors change in calls only, parts in some order lead everywhere -/
theorem Reaches.exists_run {W W' : PortOverlap σ} (h : W.Reaches 0 (fun _ _ => False) W') :
    ∃ parts, W.run parts = W' := by
  induction h with
  | refl => exact ⟨[], rfl⟩
  | step _ k _ ih =>
    obtain ⟨parts, rfl⟩ := ih
    exact ⟨parts ++ [(k, _)], List.foldl_append⟩
  | drift _ _ hdrift => exact hdrift.elim

theorem reaches_run (W : PortOverlap σ) {parts : List (Nat × Nat)}
    (hparts : ∀ part ∈ parts, least ≤ part.2) : W.Reaches least Drift (W.run parts) := by
  induction parts generalizing W with
  | nil => exact .refl
  | cons part parts ih =>
    have hfirst : W.Reaches least Drift (W.step part.1 part.2) := .step .refl part.1 (hparts part List.mem_cons_self)
    exact hfirst.trans (ih (W.step part.1 part.2) fun x hx => hparts x (List.mem_cons_of_mem part hx))

end PortOverlap

end Dataflow
