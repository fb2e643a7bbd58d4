import Dataflow.Proofs.Overlap
import Dataflow.Proofs.PortAccess

/-!
Attempts that move nothing leave all levels as they are, and their own instance terminated or waiting for ports that
still have what it saw there (`Instance.attempt_rests`).
-/

namespace Dataflow

open List

/-- moves tokens only when it fires, and does not wait for an empty list of ports -/
def Attempt.orderly : Attempt → Bool
  | .skipped => true
  | .ran exit firing => (!firing.movedTokens || firing.fired != 0) && exit != .block []

theorem Ports.closeAll_still {α β : Type} (close : Connection → α → PortView → Connection × α) (total : α → β)
    (hclose : ∀ c e v, v.moved = 0 → (close c e v).1 = c ∧ total (close c e v).2 = total e) (wires : List Connection)
    (ends : List (Attached α)) {views : List (Attached PortView)} (hviews : ∀ v ∈ views, v.item.moved = 0) :
    (closeAll close wires ends views).1 = wires ∧
      (closeAll close wires ends views).2.map (fun e => (e.wire, total e.item)) = ends.map
      fun e => (e.wire, total e.item) := by
  induction ends generalizing views with
  | nil => exact ⟨rfl, rfl⟩
  | cons e ends ih =>
    cases views with
    | nil => exact ⟨rfl, rfl⟩
    | cons v views =>
      rw [closeAll]
      split
      · exact ⟨rfl, rfl⟩
      next c hc =>
      obtain ⟨hsame, htotal⟩ := hclose c e.item v.item (hviews v mem_cons_self)
      obtain ⟨hlt, hget⟩ := List.getElem?_eq_some_iff.1 hc
      have hwires : wires.set e.wire (close c e.item v.item).1 = wires := by rw [hsame, ← hget, set_getElem_self]
      obtain ⟨hrest, hends⟩ := ih fun v' hv' => hviews v' (mem_cons_of_mem v hv')
      simp only [hwires]
      exact ⟨hrest, by simp only [map_cons, hends, htotal]⟩

namespace Instance

variable {σ : Type} {inst inst' : Instance σ} {wires wires' : List Connection}

theorem unchanged_eq_true_iff {ports : List (PortId × Nat)} :
    inst.unchanged wires ports = .ok true ↔ ∀ b ∈ ports, inst.availability wires b.1 = .ok b.2 := by
  induction ports with
  | nil => simp [unchanged]
  | cons b rest ih =>
    obtain ⟨port, seen⟩ := b
    simp only [unchanged, forall_mem_cons, ← ih]
    cases inst.availability wires port with
    | error f => simp
    | ok n => by_cases h : n = seen <;> simp [h]

theorem stillBlocked_eq_true_iff :
    inst.stillBlocked wires = .ok true ↔ ∃ ports, inst.waiting = some ports ∧ ports ≠ [] ∧
    ∀ b ∈ ports, inst.availability wires b.1 = .ok b.2 := by
  unfold stillBlocked
  split
  · next b ports hwait =>
    rw [unchanged_eq_true_iff]
    refine ⟨fun h => ⟨_, hwait, cons_ne_nil b ports, h⟩, ?_⟩
    rintro ⟨ports', hwait', -, h⟩
    rw [hwait] at hwait'
    cases hwait'
    exact h
  · next hnot =>
    refine ⟨nofun, ?_⟩
    rintro ⟨ports, hwait, hne, -⟩
    obtain ⟨b, rest, rfl⟩ := exists_cons_of_ne_nil hne
    exact absurd hwait (hnot b rest)

theorem idle_iff : inst.Idle wires ↔ inst.terminated = true ∨ ∃ ports, inst.waiting = some ports ∧ ports ≠ [] ∧
    ∀ b ∈ ports, inst.availability wires b.1 = .ok b.2 :=
  or_congr_right stillBlocked_eq_true_iff

theorem fetch_levels (hlevels : wires'.map Connection.levels = wires.map Connection.levels) {w : Nat} {c : Connection}
    (h : fetch wires w = .ok c) : ∃ c', fetch wires' w = .ok c' ∧ c'.levels = c.levels := by
  have hget : (wires'.map Connection.levels)[w]? = some c.levels := by
    rw [hlevels, getElem?_map, fetch_eq_some h]
    rfl
  rw [getElem?_map] at hget
  obtain ⟨c', hc', heq⟩ := Option.map_eq_some_iff.1 hget
  exact ⟨c', fetch_eq_ok hc', heq⟩

/-- what the end at a place may move, zero where there is none -/
def levelAt {α : Type} (level : Connection → α → Checked Nat) (wires : List Connection) (ends : List (Attached α))
    (i : Nat) : Checked Nat :=
  match ends[i]? with
  | none => .ok 0
  | some e => do level (← fetch wires e.wire) e.item

theorem availability_input (i : Nat) :
    inst.availability wires (.input i) = levelAt (fun c e => .ok (c.available e)) wires inst.inputs i := by
  simp only [availability, levelAt]
  cases inst.inputs[i]? <;> rfl

theorem availability_output (o : Nat) :
    inst.availability wires (.output o) = levelAt Connection.rooms wires inst.outputs o := by
  simp only [availability, levelAt]
  cases inst.outputs[o]? <;> rfl

section LevelAt

variable {α β : Type} {level : Connection → α → Checked Nat} {total : α → β} {ends ends' : List (Attached α)}
  {i n : Nat}

/-- levels and totals decide what an end may move -/
theorem levelAt_congr (hlevel : ∀ {c c' e e'}, Connection.levels c' = Connection.levels c → total e' = total e →
      level c' e' = level c e)
    (hlevels : wires'.map Connection.levels = wires.map Connection.levels)
    (hends : ends'.map (fun e => (e.wire, total e.item)) = ends.map fun e => (e.wire, total e.item))
    (h : levelAt level wires ends i = .ok n) : levelAt level wires' ends' i = .ok n := by
  have hget := congrArg (·[i]?) hends
  simp only [getElem?_map] at hget
  unfold levelAt at h ⊢
  split at h
  · next hnone =>
    rw [hnone, Option.map_none, Option.map_eq_none_iff] at hget
    rw [hget]
    exact h
  next e he =>
  rw [he] at hget
  obtain ⟨e', he', heq⟩ := Option.map_eq_some_iff.1 hget
  obtain ⟨hw, htotal⟩ := Prod.mk.inj heq
  obtain ⟨c, hc, hn⟩ := bind_eq_ok h
  obtain ⟨c', hc', hlev⟩ := fetch_levels hlevels hc
  simp only [he', hw, hc', Checked.ok_bind, hlevel hlev htotal]
  exact hn

/-- a view through which nothing moved still has what its end may move -/
theorem levelAt_of_views {views views' : List (Attached PortView)} (hlen : views.length = ends.length)
    (hviews : ∀ {i : Nat} {e}, ends[i]? = some e → ∃ (c : Connection) (v : Attached PortView),
      fetch wires e.wire = .ok c ∧ views[i]? = some v ∧ v.item.available = v.item.openedWith ∧
      level c e.item = .ok v.item.openedWith)
    (hused : List.Forall₂ PortView.Used views views') (hstill : ∀ v ∈ views', v.item.moved = 0) (i : Nat) :
    levelAt level wires ends i = .ok ((views'[i]?.map (·.item.available)).getD 0) := by
  unfold levelAt
  cases he : ends[i]? with
  | none =>
    have hnone : views'[i]? = none := by
      rw [getElem?_eq_none_iff, ← hused.length_eq, hlen]
      exact getElem?_eq_none_iff.1 he
    simp [hnone]
  | some e =>
    obtain ⟨c, v, hc, hv, hopen, hlevel⟩ := hviews he
    obtain ⟨w, hw, huse⟩ := Ports.exists_used hused hv
    have hmoved := hstill w (mem_of_getElem? hw)
    have hle := huse.available
    have hopened := huse.openedWith
    have hleft : v.item.openedWith = w.item.available := by
      unfold PortView.moved at hmoved
      omega
    simp [hw, hc, hlevel, hleft]

end LevelAt

/-- what a port has is decided by the levels of its connection and the total of its end -/
theorem availability_congr (hlevels : wires'.map Connection.levels = wires.map Connection.levels)
    (hin : inst'.inputs.map (fun e => (e.wire, e.item.consumed)) = inst.inputs.map fun e => (e.wire, e.item.consumed))
    (hout : inst'.outputs.map (fun e => (e.wire, e.item.produced)) = inst.outputs.map
      fun e => (e.wire, e.item.produced))
    {port : PortId} {n : Nat} (h : inst.availability wires port = .ok n) : inst'.availability wires' port = .ok n := by
  cases port with
  | input i =>
    rw [availability_input] at h ⊢
    refine levelAt_congr (fun hlev htotal => ?_) hlevels hin h
    simp only [Connection.levels, Prod.mk.injEq] at hlev
    simp only [Connection.available, hlev.2.1, htotal]
  | output o =>
    rw [availability_output] at h ⊢
    refine levelAt_congr (fun hlev htotal => ?_) hlevels hout h
    simp only [Connection.levels, Prod.mk.injEq] at hlev
    simp only [Connection.rooms, Connection.backlog, hlev.1, hlev.2.2, htotal]

/-- whoever is idle stays so while levels and totals stay -/
theorem Idle.congr (h : inst.Idle wires) (hlevels : wires'.map Connection.levels = wires.map Connection.levels)
    (hin : inst'.inputs = inst.inputs) (hout : inst'.outputs = inst.outputs) (hwait : inst'.waiting = inst.waiting)
    (hterminated : inst'.terminated = inst.terminated) : inst'.Idle wires' := by
  rw [idle_iff] at h ⊢
  rw [hwait, hterminated]
  refine h.imp_right ?_
  rintro ⟨ports, hports, hne, hall⟩
  exact ⟨ports, hports, hne, fun b hb => availability_congr hlevels (by rw [hin]) (by rw [hout]) (hall b hb)⟩

/-- closing ports through which nothing moved changes no total -/
theorem closePorts_still (inst : Instance σ) {ports : Ports} (hin : ∀ v ∈ ports.inputs, v.item.moved = 0)
    (hout : ∀ v ∈ ports.outputs, v.item.moved = 0) :
    (inst.closePorts ports).1 = ports.wires ∧
      (inst.closePorts ports).2.inputs.map (fun e => (e.wire, e.item.consumed)) =
        inst.inputs.map (fun e => (e.wire, e.item.consumed)) ∧
      (inst.closePorts ports).2.outputs.map (fun e => (e.wire, e.item.produced)) =
        inst.outputs.map fun e => (e.wire, e.item.produced) := by
  have hinputs := Ports.closeAll_still Connection.closeInput InputEnd.consumed
    (fun c e v hv => by simp [Connection.closeInput, hv]) ports.wires inst.inputs hin
  have houtputs := Ports.closeAll_still Connection.closeOutput OutputEnd.produced
    (fun c e v hv => by simp [Connection.closeOutput, hv]) ports.wires inst.outputs hout
  simp only [closePorts, hinputs.1]
  exact ⟨houtputs.1, hinputs.2, houtputs.2⟩

/-- ports through which nothing moved still have what they were opened with -/
theorem availability_of_left {ports q : Ports} (hopen : inst.openPorts wires = .ok ports) (hleads : ports.Leads q)
    (hin : ∀ v ∈ q.inputs, v.item.moved = 0) (hout : ∀ v ∈ q.outputs, v.item.moved = 0) (port : PortId) :
    inst.availability wires port = .ok (q.left port) := by
  obtain ⟨inputs, hinputs, hopen⟩ := bind_eq_ok hopen
  obtain ⟨outputs, houtputs, hopen⟩ := bind_eq_ok hopen
  cases hopen
  cases port with
  | input i =>
    rw [availability_input]
    refine levelAt_of_views (mapM_spec hinputs).1 (fun he => ?_)
      hleads.inputs hin i
    obtain ⟨v, hv, hfetch⟩ := (mapM_spec hinputs).2 he
    obtain ⟨c, hc, hfetch⟩ := bind_eq_ok hfetch
    cases hfetch
    exact ⟨c, _, hc, hv, rfl, rfl⟩
  | output o =>
    rw [availability_output]
    refine levelAt_of_views (mapM_spec houtputs).1 (fun he => ?_) hleads.outputs hout o
    obtain ⟨v, hv, hfetch⟩ := (mapM_spec houtputs).2 he
    obtain ⟨c, hc, hfetch⟩ := bind_eq_ok hfetch
    obtain ⟨view, hopen, hfetch⟩ := bind_eq_ok hfetch
    cases hfetch
    obtain ⟨rooms, hrooms, hopen⟩ := bind_eq_ok hopen
    cases hopen
    exact ⟨c, _, hc, hv, rfl, hrooms⟩

variable [Behaviour σ]

/-- an orderly attempt without progress leaves its instance idle and all levels as they are -/
theorem attempt_rests (hports : Behaviour.ThroughPorts σ) {maxLoops : Nat} {answer : Attempt}
    (h : inst.attempt wires maxLoops = (wires', inst', .ok answer)) (horderly : answer.orderly = true)
    (hidle : answer.madeProgress = false) :
    inst'.Idle wires' ∧ wires'.map Connection.levels = wires.map Connection.levels := by
  rcases tries_of_attempt h with hterm | ⟨-, hblocked⟩ | @⟨ports, turn, exit, -, -, hopen, hturn, hexit⟩
  · exact ⟨.inl hterm, rfl⟩
  · have hidle : inst.Idle wires := .inr hblocked
    exact ⟨hidle.congr rfl rfl rfl rfl rfl, rfl⟩
  have hleads := hports maxLoops inst.actor ports
  rw [← hturn] at hleads
  -- nothing fired, so nothing moved
  simp only [Attempt.madeProgress, Bool.or_eq_false_iff, bne_eq_false_iff_eq] at hidle
  simp only [Attempt.orderly, hidle.1, bne_self_eq_false, Bool.or_false,
    Bool.and_eq_true, Bool.not_eq_true'] at horderly
  obtain ⟨hstill, hlist⟩ := horderly
  simp only [Firing.movedTokens, Ports.firing, Bool.or_eq_false_iff, any_map, any_eq_false, Function.comp_apply,
    bne_iff_ne, ne_eq, not_not] at hstill
  obtain ⟨hin, hout⟩ := hstill
  obtain ⟨hwires, hinputs, houtputs⟩ := closePorts_still { inst with actor := turn.actor } hin hout
  have hwires' : ({ inst with actor := turn.actor }.closePorts turn.ports).1.map Connection.levels =
    wires.map Connection.levels := by
    obtain ⟨inputs, -, hopen'⟩ := bind_eq_ok hopen
    obtain ⟨outputs, -, hopen'⟩ := bind_eq_ok hopen'
    cases hopen'
    rw [hwires]
    exact hleads.levels
  refine ⟨?_, hwires'⟩
  rw [idle_iff]
  cases exit with
  | yield => simp at hidle
  | terminate => exact .inl (by simp [book])
  | block blocked =>
    refine .inr ⟨_, rfl, ?_, fun b hb => ?_⟩
    · simpa using hlist
    · obtain ⟨x, -, rfl⟩ := mem_map.1 hb
      exact availability_congr hwires' hinputs houtputs (availability_of_left hopen hleads hin hout x.port)

end Instance

end Dataflow
