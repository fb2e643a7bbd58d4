import Dataflow.Proofs.Overlap
import Dataflow.Proofs.StreamPlan

/-!
Overlapping attempts of stock actors that follow a plan.

From the firings of each instance, and those whose tokens are released and published (`Progress`), follow the ledger of
every connection and the state of every actor (`Plan.Describes`).
-/

namespace Dataflow

open Function List

/-- how far an instance has come, in firings -/
structure Progress where
  /-- also those of a call whose ports are still open -/
  fired : Nat := 0
  /-- those whose input is released -/
  released : Nat := 0
  /-- those whose output is published -/
  published : Nat := 0
deriving DecidableEq, Repr

/-! ## Counts -/

/-- by instance -/
abbrev Counts := Nat → Progress

namespace Counts

def fire (A : Counts) (i : Nat) : Counts := update A i { A i with fired := (A i).fired + 1 }

def release (A : Counts) (i : Nat) : Counts := update A i { A i with released := (A i).fired }

def publish (A : Counts) (i : Nat) : Counts := update A i { A i with published := (A i).fired }

def settle (A : Counts) (i : Nat) : Counts := publish (release A i) i

section Fields

variable (A : Counts) (i j : Nat)

@[simp] theorem fire_released : (fire A i j).released = (A j).released := by
  by_cases h : j = i <;> simp [fire, update, h]

@[simp] theorem fire_published : (fire A i j).published = (A j).published := by
  by_cases h : j = i <;> simp [fire, update, h]

@[simp] theorem fire_fired_self : (fire A i i).fired = (A i).fired + 1 := by simp [fire]

@[simp] theorem release_fired : (release A i j).fired = (A j).fired := by
  by_cases h : j = i <;> simp [release, update, h]

@[simp] theorem release_published : (release A i j).published = (A j).published := by
  by_cases h : j = i <;> simp [release, update, h]

@[simp] theorem release_released_self : (release A i i).released = (A i).fired := by simp [release]

@[simp] theorem publish_fired : (publish A i j).fired = (A j).fired := by
  by_cases h : j = i <;> simp [publish, update, h]

@[simp] theorem publish_released : (publish A i j).released = (A j).released := by
  by_cases h : j = i <;> simp [publish, update, h]

@[simp] theorem publish_published_self : (publish A i i).published = (A i).fired := by simp [publish]

@[simp] theorem settle_fired : (settle A i j).fired = (A j).fired := by simp [settle]

@[simp] theorem settle_released_self : (settle A i i).released = (A i).fired := by simp [settle]

@[simp] theorem settle_published_self : (settle A i i).published = (A i).fired := by simp [settle]

end Fields

/-- instance `i` has gone on, and nobody else -/
structure Later (A A' : Counts) (i : Nat) : Prop where
  others : ∀ j, j ≠ i → A' j = A j
  fired : (A i).fired ≤ (A' i).fired
  released : (A i).released ≤ (A' i).released
  published : (A i).published ≤ (A' i).published

variable {A A' A'' : Counts} {i : Nat}

theorem Later.refl (A : Counts) (i : Nat) : Later A A i := ⟨fun _ _ => rfl, le_rfl, le_rfl, le_rfl⟩

theorem Later.trans (h : Later A A' i) (h' : Later A' A'' i) : Later A A'' i :=
  ⟨fun j hj => (h'.others j hj).trans (h.others j hj), h.fired.trans h'.fired, h.released.trans h'.released,
    h.published.trans h'.published⟩

theorem later_fire (A : Counts) (i : Nat) : Later A (fire A i) i :=
  ⟨fun j hj => by simp [fire, hj], by simp, by simp, by simp⟩

theorem later_release (h : (A i).released ≤ (A i).fired) : Later A (release A i) i :=
  ⟨fun j hj => by simp [release, hj], by simp, by simpa using h, by simp⟩

theorem later_publish (h : (A i).published ≤ (A i).fired) : Later A (publish A i) i :=
  ⟨fun j hj => by simp [publish, hj], by simp, by simp, by simpa using h⟩

theorem later_settle (hr : (A i).released ≤ (A i).fired) (hp : (A i).published ≤ (A i).fired) :
    Later A (settle A i) i :=
  (later_release hr).trans (later_publish (by simpa using hp))

theorem settle_eq_self (hr : (A i).released = (A i).fired) (hp : (A i).published = (A i).fired) : settle A i = A := by
  funext j
  by_cases hj : j = i
  · subst hj
    have heta : A j = ⟨(A j).fired, (A j).released, (A j).published⟩ := rfl
    rw [heta, hr, hp]
    simp [settle, publish, release]
  · simp [settle, publish, release, hj]

theorem Later.released_le (h : Later A A' i) (j : Nat) : (A j).released ≤ (A' j).released := by
  by_cases hj : j = i
  · exact hj ▸ h.released
  · rw [h.others j hj]

theorem Later.published_le (h : Later A A' i) (j : Nat) : (A j).published ≤ (A' j).published := by
  by_cases hj : j = i
  · exact hj ▸ h.published
  · rw [h.others j hj]

end Counts

namespace Plan

/-! ## Connections -/

/-- the bytes of numbers -/
def bytesOf (xs : List Int32) : Bytes := xs.flatMap fun x => Primitive.int32.encode x

/-- the ledger of a connection, by the counts of those who write and read it -/
def ledger (P : Plan) (A : Counts) (L : Lane) : Ledger where
  stream := bytesOf ((P.stream L.writer).take (A L.writer).fired)
  written := (A L.writer).fired
  published := (A L.writer).published
  released := L.readers.map fun j => (A j).released

/-- every connection keeps its ledger -/
structure Live (P : Plan) (A : Counts) (wires : List Connection) : Prop where
  count : wires.length = P.lanes.length
  tracks : ∀ {w : Nat} {c L}, wires[w]? = some c → P.lanes[w]? = some L → c.Tracks (P.ledger A L)
  capacity : ∀ {w : Nat} {c L}, wires[w]? = some c → P.lanes[w]? = some L → c.capacity = L.capacity
  size : ∀ c ∈ wires, c.tokenSize = 4
  within : ∀ i, (A i).fired ≤ (P.stream i).length

variable {P : Plan} {A A' : Counts} {i j w r : Nat} {L : Lane} {wires : List Connection}

theorem Live.wire (h : P.Live A wires) (hL : P.lanes[w]? = some L) : ∃ c, wires[w]? = some c := by
  obtain ⟨hlt, -⟩ := List.getElem?_eq_some_iff.1 hL
  exact ⟨_, getElem?_eq_getElem (h.count ▸ hlt)⟩

theorem ledger_released (P : Plan) (A : Counts) (hr : L.readers[r]? = some j) :
    (P.ledger A L).released[r]? = some (A j).released := by
  simp [ledger, hr]

theorem mem_ledger_released (P : Plan) (A : Counts) (hj : j ∈ L.readers) : (A j).released ∈ (P.ledger A L).released :=
  mem_map_of_mem hj

/-! ## Instances -/

/-- an input end between two attempts -/
def InputRests (P : Plan) (A : Counts) (i : Nat) (e : Attached InputEnd) : Prop :=
  ∃ L, P.lanes[e.wire]? = some L ∧ L.readers[e.item.reader]? = some i ∧
    e.item.Rests (A i).released L.capacity (P.ledger A L)

/-- an input end while its port is open; every firing has read a token -/
def InputOpen (P : Plan) (A : Counts) (i : Nat) (e : Attached InputEnd) (v : Attached PortView) : Prop :=
  ∃ L, P.lanes[e.wire]? = some L ∧ L.readers[e.item.reader]? = some i ∧ v.wire = e.wire ∧
    e.item.Reads v.item (A i).released L.capacity (P.ledger A L) ∧ (A i).released + v.item.moved = (A i).fired

def OutputRests (P : Plan) (A : Counts) (i : Nat) (e : Attached OutputEnd) : Prop :=
  ∃ L, P.lanes[e.wire]? = some L ∧ L.writer = i ∧ e.item.Rests L.capacity (P.ledger A L)

def OutputOpen (P : Plan) (A : Counts) (i : Nat) (e : Attached OutputEnd) (v : Attached PortView) : Prop :=
  ∃ L, P.lanes[e.wire]? = some L ∧ L.writer = i ∧ v.wire = e.wire ∧ e.item.Writes v.item L.capacity (P.ledger A L)

/-- the state of an actor after so many firings -/
inductive Plays (P : Plan) (i fired : Nat) : Component → Prop where
  | source {s : Source} (role : P.roles[i]? = some (.source s.feed.numbers)) (emitted : s.emitted = fired) :
    Plays P i fired (.source s)
  | scale {s : Scale} (role : P.roles[i]? = some (.scale s.factor)) : Plays P i fired (.scale s)
  | sink {s : Sink} (role : P.roles[i]? = some (.sink s.limit)) (tokens : s.tokens.toList = (P.stream i).take fired)
    (limit : ∀ m, s.limit = some m → fired ≤ m) : Plays P i fired (.sink s)

/-- a port that the instance has -/
def HasPort (P : Plan) (i : Nat) : PortId → Prop
  | .input k => k = 0 ∧ ∃ role, P.roles[i]? = some role ∧ role.reads = true
  | .output k => k = 0 ∧ ∃ role, P.roles[i]? = some role ∧ role.writes = true

/-- as many ends as the role has ports -/
def Ends {α β : Type} (P : Plan) (i : Nat) (inputs : List α) (outputs : List β) : Prop :=
  ∃ role, P.roles[i]? = some role ∧ inputs.length = role.reads.toNat ∧ outputs.length = role.writes.toNat

structure Resting (P : Plan) (A : Counts) (inst : Instance Component) : Prop where
  plays : P.Plays inst.id (A inst.id).fired inst.actor
  ends : P.Ends inst.id inst.inputs inst.outputs
  inputs : ∀ e ∈ inst.inputs, P.InputRests A inst.id e
  outputs : ∀ e ∈ inst.outputs, P.OutputRests A inst.id e
  released : (A inst.id).released = (A inst.id).fired
  published : (A inst.id).published = (A inst.id).fired
  firings : inst.stats.firings = (A inst.id).fired
  terminated : inst.terminated = true → P.Finished inst.id (A inst.id).fired
  /-- it waits for one port, which it found empty or full -/
  waiting : inst.waiting = none ∨
    ∃ port, inst.waiting = some [(port, 0)] ∧ P.HasPort inst.id port ∧ ¬ P.Finished inst.id (A inst.id).fired

/-- an instance with open ports, and its actor at the moment -/
structure Engaged (P : Plan) (A : Counts) (inst : Instance Component) (actor : Component) (ports : Ports) : Prop where
  plays : P.Plays inst.id (A inst.id).fired actor
  ends : P.Ends inst.id inst.inputs inst.outputs
  inputs : List.Forall₂ (P.InputOpen A inst.id) inst.inputs ports.inputs
  outputs : List.Forall₂ (P.OutputOpen A inst.id) inst.outputs ports.outputs
  released : (A inst.id).released ≤ (A inst.id).fired
  published : (A inst.id).published ≤ (A inst.id).fired
  firings : inst.stats.firings + ports.actions.size = (A inst.id).fired
  active : inst.terminated = false

/-- how a call of a stock actor ends -/
def Ended (P : Plan) (i fired : Nat) (ports : Ports) : Exit → Prop
  | .terminate => P.Finished i fired
  | .block blocked => ∃ port, blocked = [⟨port, 1⟩] ∧ ports.left port = 0 ∧ P.HasPort i port ∧ ¬ P.Finished i fired
  | .yield => True

/-- a worker at any point of its attempt -/
def Stands (P : Plan) (A : Counts) (w : Worker Component) : Prop :=
  match w.activity with
  | .resting => P.Resting A w.inst
  | .entered => P.Resting A w.inst ∧ w.inst.terminated = false
  | .opened ports => P.Engaged A w.inst w.inst.actor ports
  | .called turn => P.Engaged A w.inst turn.actor turn.ports ∧
    ∃ exit, turn.exit = .ok exit ∧ P.Ended w.inst.id (A w.inst.id).fired turn.ports exit
  | .faulted _ => False

structure Describes (P : Plan) (A : Counts) (F : Overlap Component) : Prop where
  live : P.Live A F.wires
  ids : (F.workers.map (·.inst.id)).Perm (List.range P.roles.length)
  stands : ∀ {k : Nat} {w}, F.workers[k]? = some w → P.Stands A w

/-! ## Ports by role -/

section Ports

variable {role : Role} {inst : Instance Component} {actor : Component} {ports : Ports}

theorem Ends.lengths {α β : Type} {inputs : List α} {outputs : List β} (h : P.Ends i inputs outputs)
    (hrole : P.roles[i]? = some role) : inputs.length = role.reads.toNat ∧ outputs.length = role.writes.toNat := by
  obtain ⟨role', hrole', hlen⟩ := h
  rw [hrole] at hrole'
  cases hrole'
  exact hlen

theorem forall₂_single {α β : Type} {R : α → β → Prop} {xs : List α} {ys : List β} (h : List.Forall₂ R xs ys)
    (hlen : xs.length = 1) : ∃ x y, xs = [x] ∧ ys = [y] ∧ R x y := by
  obtain ⟨x, rfl⟩ := length_eq_one_iff.1 hlen
  obtain ⟨y, rest, hy, hnil, rfl⟩ := forall₂_cons_left_iff.1 h
  rw [forall₂_nil_left_iff.1 hnil]
  exact ⟨x, y, rfl, rfl, hy⟩

theorem Engaged.input (h : P.Engaged A inst actor ports) (hrole : P.roles[inst.id]? = some role)
    (hreads : role.reads = true) : ∃ e v, inst.inputs = [e] ∧ ports.inputs = [v] ∧ P.InputOpen A inst.id e v :=
  forall₂_single h.inputs (by rw [(h.ends.lengths hrole).1, hreads]; rfl)

theorem Engaged.output (h : P.Engaged A inst actor ports) (hrole : P.roles[inst.id]? = some role)
    (hwrites : role.writes = true) :
    ∃ e v, inst.outputs = [e] ∧ ports.outputs = [v] ∧ P.OutputOpen A inst.id e v :=
  forall₂_single h.outputs (by rw [(h.ends.lengths hrole).2, hwrites]; rfl)

end Ports

/-! ## What the others do -/

section Frame

variable {e : Attached InputEnd} {e' : Attached OutputEnd} {v : Attached PortView}

theorem InputRests.frame (h : P.InputRests A i e) (hr : (A' i).released = (A i).released) : P.InputRests A' i e := by
  obtain ⟨L, hL, hreader, hrests⟩ := h
  rw [← hr] at hrests
  exact ⟨L, hL, hreader, P.ledger_released A' hreader, hrests.consumed, hrests.cursor⟩

theorem InputOpen.frame (h : P.InputOpen A i e v) (hr : (A' i).released = (A i).released)
    (hf : (A' i).fired = (A i).fired) (hp : ∀ k, (A k).published ≤ (A' k).published) : P.InputOpen A' i e v := by
  obtain ⟨L, hL, hreader, hwire, hreads, hmoved⟩ := h
  rw [← hr] at hreads hmoved
  exact ⟨L, hL, hreader, hwire, ⟨P.ledger_released A' hreader, hreads.consumed, hreads.cursor, hreads.available_le,
    le_trans hreads.published (hp L.writer)⟩, by rw [hmoved, hf]⟩

theorem OutputRests.frame (h : P.OutputRests A i e') (hf : (A' i).fired = (A i).fired)
    (hp : (A' i).published = (A i).published) : P.OutputRests A' i e' := by
  obtain ⟨L, hL, rfl, hrests⟩ := h
  have hw : (P.ledger A' L).written = (P.ledger A L).written := hf
  have hpub : (P.ledger A' L).published = (P.ledger A L).published := hp
  exact ⟨L, hL, rfl,
    by rw [hw]; exact hrests.cursor, by rw [hpub]; exact hrests.produced, by rw [hw, hpub]; exact hrests.settled⟩

theorem OutputOpen.frame (h : P.OutputOpen A i e' v) (hf : (A' i).fired = (A i).fired)
    (hp : (A' i).published = (A i).published) (hr : ∀ k, (A k).released ≤ (A' k).released) :
    P.OutputOpen A' i e' v := by
  obtain ⟨L, hL, rfl, hwire, hwrites⟩ := h
  have hw : (P.ledger A' L).written = (P.ledger A L).written := hf
  have hpub : (P.ledger A' L).published = (P.ledger A L).published := hp
  refine ⟨L, hL, rfl, hwire, by rw [hw]; exact hwrites.cursor, by rw [hpub]; exact hwrites.produced,
    by rw [hw, hpub]; exact hwrites.moved, hwrites.opened_le, fun q hq => ?_⟩
  obtain ⟨k, hk, rfl⟩ := mem_map.1 hq
  have hroom := hwrites.room _ (P.mem_ledger_released A hk)
  rw [hw]
  exact le_trans hroom (Nat.add_le_add_right (hr k) _)

variable {x : Worker Component} {inst : Instance Component} {actor : Component} {ports : Ports}

theorem Resting.frame (h : P.Resting A inst) (hl : Counts.Later A A' i) (hi : inst.id ≠ i) : P.Resting A' inst := by
  have heq := hl.others _ hi
  refine ⟨by rw [heq]; exact h.plays, h.ends, fun e he => (h.inputs e he).frame (by rw [heq]),
    fun e he => (h.outputs e he).frame (by rw [heq]) (by rw [heq]), ?_, ?_, ?_, ?_, ?_⟩ <;> rw [heq]
  · exact h.released
  · exact h.published
  · exact h.firings
  · exact h.terminated
  · exact h.waiting

theorem Engaged.frame (h : P.Engaged A inst actor ports) (hl : Counts.Later A A' i) (hi : inst.id ≠ i) :
    P.Engaged A' inst actor ports := by
  have heq := hl.others _ hi
  refine ⟨by rw [heq]; exact h.plays, h.ends,
    h.inputs.imp fun _ _ ho => ho.frame (by rw [heq]) (by rw [heq]) hl.published_le,
    h.outputs.imp fun _ _ ho => ho.frame (by rw [heq]) (by rw [heq]) hl.released_le, ?_, ?_, ?_, h.active⟩ <;> rw [heq]
  · exact h.released
  · exact h.published
  · exact h.firings

/-- what one instance does leaves the others as they are -/
theorem Stands.frame (h : P.Stands A x) (hl : Counts.Later A A' i) (hi : x.inst.id ≠ i) : P.Stands A' x := by
  obtain ⟨inst, activity⟩ := x
  cases activity with
  | resting => exact Resting.frame h hl hi
  | entered => exact ⟨h.1.frame hl hi, h.2⟩
  | opened ports => exact Engaged.frame h hl hi
  | called turn =>
    obtain ⟨hengaged, exit, hexit, hended⟩ := h
    exact ⟨hengaged.frame hl hi, exit, hexit, by rw [hl.others _ hi]; exact hended⟩
  | faulted f => exact h.elim

end Frame

/-! ## What the counts are like -/

section Numbers

variable {F : Overlap Component} {k : Nat} {x : Worker Component} {inst : Instance Component}

/-- every instance of the plan is there -/
theorem Describes.worker (h : P.Describes A F) {role : Role} (hi : P.roles[i]? = some role) :
    ∃ (k : Nat) (x : Worker Component), F.workers[k]? = some x ∧ x.inst.id = i := by
  have hmem : i ∈ F.workers.map (·.inst.id) :=
    h.ids.mem_iff.2 (mem_range.2 (lt_of_getElem? hi))
  obtain ⟨worker, hworker, rfl⟩ := mem_map.1 hmem
  obtain ⟨k, hk⟩ := getElem?_of_mem hworker
  exact ⟨k, worker, hk, rfl⟩

theorem Describes.id_lt (h : P.Describes A F) (hk : F.workers[k]? = some x) : x.inst.id < P.roles.length :=
  mem_range.1 (h.ids.mem_iff.1 (mem_map_of_mem (mem_of_getElem? hk)))

/-- the actor of a worker is in the state that the counts say -/
theorem Stands.plays (h : P.Stands A x) : P.Plays x.inst.id (A x.inst.id).fired x.actor := by
  obtain ⟨inst, activity⟩ := x
  cases activity with
  | resting => exact Resting.plays h
  | entered => exact h.1.plays
  | opened ports => exact Engaged.plays h
  | called turn => exact h.1.plays
  | faulted f => exact h.elim

theorem Stands.released_le (h : P.Stands A x) : (A x.inst.id).released ≤ (A x.inst.id).fired := by
  obtain ⟨inst, activity⟩ := x
  cases activity with
  | resting => exact (Resting.released h).le
  | entered => exact h.1.released.le
  | opened ports => exact Engaged.released h
  | called turn => exact h.1.released
  | faulted f => exact h.elim

/-- nobody is ahead of whom it reads from -/
theorem Live.released_le (h : P.Live A wires) (hL : L ∈ P.lanes) (hj : j ∈ L.readers) :
    (A j).released ≤ (A L.writer).published ∧ (A L.writer).published ≤ (A L.writer).fired ∧
      (A L.writer).fired ≤ (A j).released + L.capacity := by
  obtain ⟨w, hw⟩ := getElem?_of_mem hL
  obtain ⟨c, hc⟩ := h.wire hw
  have ht := h.tracks hc hw
  have hmem := P.mem_ledger_released A hj
  exact ⟨ht.released_le _ hmem, ht.published_le, h.capacity hc hw ▸ ht.lap _ hmem⟩

theorem Engaged.fed {actor : Component} {ports : Ports} (h : P.Engaged A inst actor ports) (hL : L ∈ P.lanes)
    (hj : inst.id ∈ L.readers) : (A inst.id).fired ≤ (A L.writer).published := by
  obtain ⟨role, hrole, hreads⟩ := P.reader_role L hL _ hj
  obtain ⟨e, v, -, -, L', hL', hreader, -, hr, hmoved⟩ := h.input hrole hreads
  obtain rfl := lane_unique hL (mem_of_getElem? hL') hj (mem_of_getElem? hreader)
  have h1 := hr.published
  have h2 : (P.ledger A L).published = (A L.writer).published := rfl
  simp only [PortView.moved] at hmoved
  omega

theorem Describes.bounded (h : P.Describes A F) : P.Bounded fun i => (A i).fired := by
  refine ⟨h.live.within, fun L hL j hj => ?_, fun L hL j hj => ?_, fun {i limit} hi => ?_⟩
  · obtain ⟨hrel, hpub, -⟩ := h.live.released_le hL hj
    obtain ⟨role, hrole, -⟩ := P.reader_role L hL j hj
    obtain ⟨k, ⟨inst, activity⟩, hk, rfl⟩ := h.worker hrole
    have hstands := h.stands hk
    refine le_trans ?_ hpub
    cases activity with
    | resting => exact (Resting.released hstands).symm.le.trans hrel
    | entered => exact hstands.1.released.symm.le.trans hrel
    | opened ports => exact Engaged.fed hstands hL hj
    | called turn => exact hstands.1.fed hL hj
    | faulted f => exact hstands.elim
  · obtain ⟨-, -, hroom⟩ := h.live.released_le hL hj
    obtain ⟨role, hrole, -⟩ := P.reader_role L hL j hj
    obtain ⟨k, worker, hk, rfl⟩ := h.worker hrole
    exact le_trans hroom (Nat.add_le_add_right (h.stands hk).released_le _)
  · obtain ⟨k, worker, hk, rfl⟩ := h.worker hi
    have hplays := (h.stands hk).plays
    generalize worker.actor = actor at hplays
    cases hplays with
    | source role | scale role => rw [role] at hi; cases hi
    | sink role tokens hlimit =>
      rw [role] at hi
      exact hlimit limit (by simpa using hi)

end Numbers

/-! ## Waiting -/

section Waiting

variable {F : Overlap Component} {inst : Instance Component} {port : PortId}

/-- a port at which nothing can be read, or nothing be written -/
def Dry (P : Plan) (A : Counts) (i : Nat) : PortId → Prop
  | .input _ => ∃ L ∈ P.lanes, i ∈ L.readers ∧ (A L.writer).published ≤ (A i).released
  | .output _ => ∃ L ∈ P.lanes, L.writer = i ∧ ∃ j ∈ L.readers, (A j).released + L.capacity ≤ (A i).published

theorem writer_lane_unique {L' : Lane} (hL : L ∈ P.lanes) (hL' : L' ∈ P.lanes)
    (hw : L.writer = L'.writer) : L = L' := by
  obtain ⟨w, hw1⟩ := getElem?_of_mem hL
  obtain ⟨w', hw2⟩ := getElem?_of_mem hL'
  obtain rfl := P.writer_unique hw1 hw2 hw
  rw [hw1] at hw2
  exact Option.some.inj hw2

/-- a connection is full when some reader is a whole lap behind -/
theorem capacity_le_backlog (P : Plan) (A : Counts) (hcap : 0 < L.capacity) :
    L.capacity ≤ (P.ledger A L).backlog ↔ ∃ j ∈ L.readers, (A j).released + L.capacity ≤ (A L.writer).published := by
  constructor
  · intro h
    rcases foldl_max_mem ((P.ledger A L).released.map fun q => (P.ledger A L).published - q) 0 with h0 | hmem
    · rw [Ledger.backlog, h0] at h
      omega
    · obtain ⟨q, hq, hqeq⟩ := mem_map.1 hmem
      obtain ⟨j, hj, rfl⟩ := mem_map.1 hq
      refine ⟨j, hj, ?_⟩
      rw [Ledger.backlog, ← hqeq] at h
      simp only [ledger] at h
      omega
  · rintro ⟨j, hj, hlap⟩
    have := Connection.backlog_ge (P.ledger A L) (P.mem_ledger_released A hj)
    simp only [ledger] at this ⊢
    omega

/-- what a port of an instance at rest has -/
theorem Resting.availability (h : P.Resting A inst) (hlive : P.Live A wires) (hport : P.HasPort inst.id port) :
    ∃ n, inst.availability wires port = .ok n ∧ (n = 0 ↔ P.Dry A inst.id port) := by
  cases port with
  | input k =>
    obtain ⟨rfl, role, hrole, hreads⟩ := hport
    have hlen := (h.ends.lengths hrole).1
    rw [hreads] at hlen
    obtain ⟨e, he⟩ := length_eq_one_iff.1 hlen
    obtain ⟨L, hL, hreader, hrests⟩ := h.inputs e (by rw [he]; exact mem_singleton_self e)
    obtain ⟨c, hc⟩ := hlive.wire hL
    have havail : c.available e.item = (A L.writer).published - (A inst.id).released :=
      (hlive.tracks hc hL).available_eq hrests.released hrests.consumed
    refine ⟨(A L.writer).published - (A inst.id).released,
      by simp [Instance.availability, he, fetch_eq_ok hc, havail], ?_⟩
    have hmem := mem_of_getElem? hreader
    constructor
    · exact fun h0 => ⟨L, mem_of_getElem? hL, hmem, Nat.le_of_sub_eq_zero h0⟩
    · rintro ⟨L', hL', hmem', hle⟩
      obtain rfl := lane_unique hL' (mem_of_getElem? hL) hmem' hmem
      exact Nat.sub_eq_zero_of_le hle
  | output k =>
    obtain ⟨rfl, role, hrole, hwrites⟩ := hport
    have hlen := (h.ends.lengths hrole).2
    rw [hwrites] at hlen
    obtain ⟨e, he⟩ := length_eq_one_iff.1 hlen
    obtain ⟨L, hL, hwriter, hrests⟩ := h.outputs e (by rw [he]; exact mem_singleton_self e)
    obtain ⟨c, hc⟩ := hlive.wire hL
    have hrooms := (hlive.tracks hc hL).rooms_eq hrests.produced
    rw [hlive.capacity hc hL] at hrooms
    refine ⟨L.capacity - (P.ledger A L).backlog, by simp [Instance.availability, he, fetch_eq_ok hc, hrooms], ?_⟩
    have hmem := mem_of_getElem? hL
    have hfull := P.capacity_le_backlog A (P.capacity_pos L hmem)
    rw [Nat.sub_eq_zero_iff_le, hfull, ← hwriter]
    constructor
    · exact fun hlap => ⟨L, hmem, rfl, hlap⟩
    · rintro ⟨L', hL', hw, hlap⟩
      obtain rfl := writer_lane_unique hL' hmem hw
      exact hlap

/-- an instance is still blocked when the port it waits for is -/
theorem Resting.stillBlocked (h : P.Resting A inst) (hlive : P.Live A wires) :
    ∃ b, inst.stillBlocked wires = .ok b ∧
    (b = true ↔ ∃ port, inst.waiting = some [(port, 0)] ∧ P.Dry A inst.id port) := by
  rcases h.waiting with hnone | ⟨port, hsome, hport, -⟩
  · exact ⟨false, by simp [Instance.stillBlocked, hnone], by simp [hnone]⟩
  · obtain ⟨n, havail, hdry⟩ := h.availability hlive hport
    by_cases h0 : n = 0
    · refine ⟨true, by simp [Instance.stillBlocked, hsome, Instance.unchanged, havail, h0], ?_⟩
      exact iff_of_true rfl ⟨port, hsome, hdry.1 h0⟩
    · refine ⟨false, by simp [Instance.stillBlocked, hsome, Instance.unchanged, havail, h0], ?_⟩
      refine iff_of_false (by decide) ?_
      rintro ⟨port', hsome', hdry'⟩
      rw [hsome] at hsome'
      cases hsome'
      exact h0 (hdry.2 hdry')

/-- in a complete state everybody is at rest -/
theorem Describes.resting (h : P.Describes A F) (hc : F.Complete) {role : Role} (hi : P.roles[i]? = some role) :
    ∃ x ∈ F.workers, x.inst.id = i ∧ P.Resting A x.inst ∧ x.inst.Idle F.wires := by
  obtain ⟨k, ⟨inst, activity⟩, hk, rfl⟩ := h.worker hi
  obtain ⟨hrest, hdone⟩ := hc _ (mem_of_getElem? hk)
  cases hrest
  exact ⟨_, mem_of_getElem? hk, rfl, h.stands hk, hdone⟩

/-- in a complete state everything is released and published -/
theorem Describes.settled (h : P.Describes A F) (hc : F.Complete) {role : Role} (hi : P.roles[i]? = some role) :
    (A i).released = (A i).fired ∧ (A i).published = (A i).fired := by
  obtain ⟨x, -, rfl, hrest, -⟩ := h.resting hc hi
  exact ⟨hrest.released, hrest.published⟩

/-- in a complete state everybody is held -/
theorem Describes.held (h : P.Describes A F) (hc : F.Complete) :
    ∀ i < P.roles.length, P.Held (fun i => (A i).fired) i := by
  intro i hi
  obtain ⟨x, -, rfl, hrest, hdone⟩ := h.resting hc (getElem?_eq_getElem hi)
  rcases hdone with hterm | hblocked
  · exact .inl (hrest.terminated hterm)
  · obtain ⟨b, hb, hwaits⟩ := hrest.stillBlocked h.live
    rw [hblocked] at hb
    obtain ⟨port, -, hdry⟩ := hwaits.1 (Except.ok.inj hb).symm
    have hown := h.settled hc (getElem?_eq_getElem hi)
    cases port with
    | input k =>
      obtain ⟨L, hL, hmem, hle⟩ := hdry
      obtain ⟨role, hrole, -⟩ := P.writer_role L hL
      exact .inr (.inl ⟨L, hL, hmem, by rw [(h.settled hc hrole).2, hown.1] at hle; exact hle⟩)
    | output k =>
      obtain ⟨L, hL, hwriter, j, hj, hle⟩ := hdry
      obtain ⟨role, hrole, -⟩ := P.reader_role L hL j hj
      exact .inr (.inr ⟨L, hL, hwriter, j, hj, by rw [(h.settled hc hrole).1, hown.2] at hle; exact hle⟩)

end Waiting

end Plan

end Dataflow
