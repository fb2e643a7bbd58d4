import Dataflow.Proofs.StockNetwork
import Dataflow.Proofs.ThreadQuiescence

/-!
Runs that end with every instance idle, whatever the schedule (`Network.Completes`).

All complete runs of a network have the same numbers of firings (`Plan.Describes.fired_unique`).
-/

namespace Dataflow

open List

/-! ## Threads as overlapping attempts -/

theorem exists_append_of_getElem? {α : Type} {xs : List α} {i : Nat} {x : α} (h : xs[i]? = some x) :
    ∃ l r, xs = l ++ x :: r ∧ l.length = i := by
  obtain ⟨hlt, rfl⟩ := List.getElem?_eq_some_iff.1 h
  exact ⟨xs.take i, xs.drop (i + 1), by simp, by simp [hlt.le]⟩

/-- an instance of a network has its place among the workers -/
theorem Overlap.start_at? {σ : Type} {n : Network σ} {p k : Nat} {inst : Instance σ} (h : n.at? p k = some inst) :
    ∃ j, (Overlap.start n).workers[j]? = some ⟨inst, .resting⟩ ∧
      ∀ wires inst', (Overlap.start n).put wires j inst' .resting = Overlap.start (n.replace p k wires inst') := by
  obtain ⟨part, hpart, hinst⟩ := Option.bind_eq_some_iff.1 h
  obtain ⟨l, r, hparts, rfl⟩ := exists_append_of_getElem? hpart
  obtain ⟨l', r', hinsts, rfl⟩ := exists_append_of_getElem? hinst
  refine ⟨(l.flatMap (·.instances)).length + l'.length, ?_, fun wires inst' => ?_⟩
  · simp [Overlap.start, Network.instances, hparts, hinsts]
  · rw [Network.replace_eq hpart]
    simp [Overlap.start, Overlap.put, Network.instances, hparts, hinsts]

namespace Plan

variable {P : Plan} {A : Counts} {n : Network Component}

/-- networks of stock actors, wherever attempts lead them -/
theorem Describes.restful (h : P.Describes A (Overlap.start n)) :
    Network.Restful fun n' => ∃ ops, (Overlap.start n).run ops = Overlap.start n' := by
  rintro n' p k inst ⟨ops, hops⟩ hat maxLoops
  obtain ⟨A', hA', -⟩ := h.run ops
  rw [hops] at hA'
  have hrest : ∀ {p k inst}, n'.at? p k = some inst → P.Resting A' inst := by
    intro p k inst hat
    obtain ⟨j, hj, -⟩ := Overlap.start_at? hat
    exact hA'.stands hj
  obtain ⟨wires, inst', answer, hattempt, -, hquiet⟩ := (hrest hat).attempts hA'.live maxLoops
  obtain ⟨j, hj, hput⟩ := Overlap.start_at? hat
  refine ⟨wires, inst', answer, hattempt, ⟨ops ++ Overlap.attemptOps j maxLoops, ?_⟩, fun hidle => ?_⟩
  · rw [Overlap.run_append, hops, Overlap.run_attempt hj hattempt, hput]
  · obtain ⟨-, hlive, hrest', hown⟩ := hquiet hidle
    refine ⟨(hrest'.idle_iff hlive).2 hown, fun p' k' x _ hx hxidle => ?_⟩
    exact ((hrest hx).idle_iff hlive).2 (((hrest hx).idle_iff hA'.live).1 hxidle)

/-- threads that end by themselves make a run of overlapping attempts, and end where nobody can go on -/
theorem Describes.threaded (h : P.Describes A (Overlap.start n)) {config : RunConfig} {schedule : List Nat}
    {summary : RunSummary} (hdone : ((Crew.start n).after config schedule).threads.all (·.done) = true)
    (hend : ((Crew.start n).after config schedule).ended = .finished summary) (hlimit : summary.outcome ≠ .passLimit) :
    ∃ ops, (Overlap.start n).run ops = Overlap.start ((Crew.start n).after config schedule).network ∧
      (Overlap.start ((Crew.start n).after config schedule).network).Complete ∧
      (Overlap.start ((Crew.start n).after config schedule).network).outcome = summary.outcome := by
  obtain ⟨Conf, hwatched⟩ := (Crew.watched_start ⟨[], rfl⟩).after h.restful config schedule
  obtain ⟨ops, hops⟩ := hwatched.good
  obtain ⟨hidle, houtcome⟩ := hwatched.ended hdone hend hlimit
  refine ⟨ops, hops, fun x hx => ?_, by rw [Overlap.outcome, Overlap.allTerminated_start, houtcome]⟩
  obtain ⟨inst, hinst, rfl⟩ := mem_map.1 hx
  exact ⟨rfl, hidle inst hinst⟩

end Plan

/-! ## Complete runs -/

/-- a run from the start of a network to a state in which nobody can go on, with its outcome -/
inductive Network.Completes {σ : Type} [Behaviour σ] (n : Network σ) : Overlap σ → RunOutcome → Prop where
  /-- attempts in any order; those of different instances may overlap -/
  | overlapping (ops : List OverlapOp) (h : ((Overlap.start n).run ops).Complete) :
    Completes n ((Overlap.start n).run ops) ((Overlap.start n).run ops).outcome
  /-- on one thread, without a pass limit that cuts the run off -/
  | inline {config : RunConfig} {fuel : Nat} {summary : RunSummary}
    (hend : (n.runInline config fuel).ended = .finished summary) (hlimit : summary.outcome ≠ .passLimit) :
    Completes n (Overlap.start (n.runInline config fuel).network) summary.outcome
  /-- one thread per partition, whose steps come in any order, without a pass limit that cuts the run off -/
  | threaded {config : RunConfig} {schedule : List Nat} {summary : RunSummary}
    (hdone : ((Crew.start n).after config schedule).threads.all (·.done) = true)
    (hend : ((Crew.start n).after config schedule).ended = .finished summary) (hlimit : summary.outcome ≠ .passLimit) :
    Completes n (Overlap.start ((Crew.start n).after config schedule).network) summary.outcome

/-- what `Network.run` makes of a network is among these -/
theorem Network.completes_of_run {σ : Type} [Behaviour σ] {n : Network σ} {config : RunConfig} {fuel : Nat}
    {summary : RunSummary} (hend : (n.run config fuel).ended = .finished summary)
    (hlimit : summary.outcome ≠ .passLimit) :
    n.Completes (Overlap.start (n.run config fuel).network) summary.outcome := by
  unfold Network.run at hend ⊢
  split at hend
  · next hone =>
    rw [if_pos hone]
    exact .inline hend hlimit
  · next hmany =>
    rw [if_neg hmany]
    obtain ⟨schedule, hcrew, hdone⟩ := Crew.run_eq_after config fuel (Crew.start n)
    simp only [Network.runThreaded] at hend ⊢
    split at hend
    · next hall =>
      rw [hcrew] at hend ⊢
      exact .threaded (hdone hall) hend hlimit
    · cases hend

def Overlap.tokens? (F : Overlap Component) (i : Nat) : Option (List Int32) :=
  (F.worker? i).bind fun x => x.actor.sink?.map (·.tokens.toList)

namespace Plan

variable {P : Plan} {A A' : Counts} {F : Overlap Component} {n n' : Network Component} {outcome : RunOutcome} {i : Nat}

/-- every complete run is one of overlapping attempts -/
theorem Describes.overlapping (h : P.Describes A (Overlap.start n)) (hrun : n.Completes F outcome) :
    ∃ ops, (Overlap.start n).run ops = F ∧ F.Complete ∧ F.outcome = outcome := by
  cases hrun with
  | overlapping ops hc => exact ⟨ops, rfl, hc, rfl⟩
  | inline hend hlimit => exact h.inline hend hlimit
  | threaded hdone hend hlimit => exact h.threaded hdone hend hlimit

/-! ## What a complete state shows -/

/-- the tokens of a sink after so many firings, if the instance is one -/
def tokens? (P : Plan) (i fired : Nat) : Option (List Int32) :=
  match P.roles[i]? with
  | some (.sink _) => some ((P.stream i).take fired)
  | _ => none

/-- what can be seen of a state at rest after so many firings of every instance -/
structure Shows (P : Plan) (f : Nat → Nat) (F : Overlap Component) : Prop where
  ids : (F.workers.map (·.inst.id)).Perm (List.range P.roles.length)
  produced : F.wires.map (·.produced) = P.lanes.map fun L => UInt32.ofNat (f L.writer)
  pending : F.wires.map (·.pendingCounts) = P.lanes.map fun L => L.readers.map fun j => f L.writer - f j
  firings : ∀ x ∈ F.workers, x.inst.stats.firings = f x.inst.id
  terminated : ∀ x ∈ F.workers, x.inst.terminated = true ↔ P.Finished x.inst.id (f x.inst.id)
  tokens : ∀ x ∈ F.workers, x.actor.sink?.map (·.tokens.toList) = P.tokens? x.inst.id (f x.inst.id)

theorem Plays.tokens {fired : Nat} {actor : Component} (h : P.Plays i fired actor) :
    actor.sink?.map (·.tokens.toList) = P.tokens? i fired := by
  cases h with
  | source role | scale role => simp [tokens?, role, Component.sink?]
  | sink role tokens => simp [tokens?, role, Component.sink?, tokens]

theorem Describes.worker? (h : P.Describes A F) {role : Role} (hi : P.roles[i]? = some role) :
    ∃ x, F.worker? i = some x ∧ x ∈ F.workers ∧ x.inst.id = i := by
  obtain ⟨x, hx⟩ := Overlap.exists_worker? (h.ids.mem_iff.2 (mem_range.2 (lt_of_getElem? hi)))
  exact ⟨x, hx, Overlap.of_worker? hx⟩

/-- at any time a sink holds a first part of its stream -/
theorem Describes.tokens? (h : P.Describes A F) {limit : Option Nat} (hi : P.roles[i]? = some (.sink limit)) :
    F.tokens? i = some ((P.stream i).take (A i).fired) := by
  obtain ⟨x, hx, hmem, rfl⟩ := h.worker? hi
  obtain ⟨k, hk⟩ := getElem?_of_mem hmem
  rw [Overlap.tokens?, hx, Option.bind_some, (h.stands hk).plays.tokens, tokens?, hi]

theorem Live.map_eq {wires : List Connection} {β : Type} {f : Connection → β} {g : Lane → β} (h : P.Live A wires)
    (heq : ∀ {w : Nat} {c L}, wires[w]? = some c → P.lanes[w]? = some L → f c = g L) :
    wires.map f = P.lanes.map g := by
  refine ext_getElem (by simp [h.count]) fun w hw hw' => ?_
  rw [length_map] at hw hw'
  rw [getElem_map, getElem_map]
  exact heq (getElem?_eq_getElem hw) (getElem?_eq_getElem hw')

theorem Describes.shows (h : P.Describes A F) (hc : F.Complete) : P.Shows (fun i => (A i).fired) F := by
  have hrests : ∀ x ∈ F.workers, P.Resting A x.inst ∧ P.Plays x.inst.id (A x.inst.id).fired x.actor ∧
      x.inst.Idle F.wires := by
    intro x hx
    obtain ⟨k, hk⟩ := getElem?_of_mem hx
    have hstands := h.stands hk
    obtain ⟨hrest, hdone⟩ := hc x hx
    have hplays := hstands.plays
    rw [Stands, hrest] at hstands
    exact ⟨hstands, hplays, hdone⟩
  refine ⟨h.ids, h.live.map_eq fun {w c L} hw hL => ?_, h.live.map_eq fun {w c L} hw hL => ?_,
    fun x hx => ?_, fun x hx => ?_, fun x hx => (hrests x hx).2.1.tokens⟩
  · obtain ⟨role, hrole, -⟩ := P.writer_role L (mem_of_getElem? hL)
    rw [(h.live.tracks hw hL).produced, ← (h.settled hc hrole).2]
    rfl
  · obtain ⟨role, hrole, -⟩ := P.writer_role L (mem_of_getElem? hL)
    rw [(h.live.tracks hw hL).pendingCounts_eq, ledger, map_map]
    refine map_congr_left fun j hj => ?_
    obtain ⟨role', hrole', -⟩ := P.reader_role L (mem_of_getElem? hL) j hj
    rw [Function.comp_apply, (h.settled hc hrole).2, (h.settled hc hrole').1]
  · exact (hrests x hx).1.firings
  · obtain ⟨hrest, -, hdone⟩ := hrests x hx
    refine ⟨hrest.terminated, fun hfinished => hdone.resolve_right fun hblocked => ?_⟩
    -- whoever waits is not done
    rcases hrest.waiting with hnone | ⟨port, -, -, hopen⟩
    · rw [Instance.stillBlocked, hnone] at hblocked
      cases hblocked
    · exact hopen hfinished

/-! ## All complete runs are alike -/

/-- all complete runs from the start make the same numbers of firings -/
theorem Describes.fired_unique (h : P.Describes (fun _ => {}) (Overlap.start n))
    (h' : P.Describes (fun _ => {}) (Overlap.start n')) {ops ops' : List OverlapOp}
    (hc : ((Overlap.start n).run ops).Complete) (hc' : ((Overlap.start n').run ops').Complete) :
    ∃ f, P.Shows f ((Overlap.start n).run ops) ∧ P.Shows f ((Overlap.start n').run ops') := by
  obtain ⟨A, hA, hleast⟩ := h.run ops
  obtain ⟨A', hA', hleast'⟩ := h'.run ops'
  have hle := hleast (fun i => (A' i).fired) (hA'.held hc') fun _ => Nat.zero_le _
  have hle' := hleast' (fun i => (A i).fired) (hA.held hc) fun _ => Nat.zero_le _
  have heq : (fun i => (A' i).fired) = fun i => (A i).fired := funext fun i => le_antisymm (hle' i) (hle i)
  refine ⟨fun i => (A i).fired, hA.shows hc, ?_⟩
  rw [← heq]
  exact hA'.shows hc'

end Plan

end Dataflow
