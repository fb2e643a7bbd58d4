import Dataflow.Proofs.Settling
import Dataflow.Proofs.Station
import Mathlib.Algebra.Order.BigOperators.Group.Finset

/-!
Chains of stations.

The counts of the stations tell the history of every connection (`Line.Holds`), and a chain comes to rest
(`Line.settling`). At rest the sink has taken all that was sent, so there is room before it, and so on back to the
source (`Line.Holds.delivered`).
-/

namespace Dataflow

open List

/-- what comes to a station, if `stream j` is what station `j` gives on; what comes to the first is its own -/
def incoming (stream : Nat → List Int32) : Nat → List Int32
  | 0 => stream 0
  | j + 1 => stream j

/-- stations in a row; station `j` is the instance `id j`, and writes to connection `wire j` if it is not the last -/
structure Line (σ : Type) [Behaviour σ] where
  last : Nat
  id : Nat → Nat
  wire : Nat → Nat
  capacity : Nat → Nat
  stream : Nat → List Int32
  station : ∀ j, Station σ (incoming stream j) (stream j)
  id_inj : ∀ {i j}, i ≤ last → j ≤ last → id i = id j → i = j
  wire_inj : ∀ {i j}, i < last → j < last → wire i = wire j → i = j
  reads : ∀ {j}, j ≤ last → (station j).reads = decide (0 < j)
  writes : ∀ {j}, j ≤ last → (station j).writes = decide (j < last)
  short : ∀ j, (stream j).length < Word.size32

theorem Instance.attempt_of_call {σ : Type} [Behaviour σ] {inst : Instance σ} {wires wires' : List Connection}
    {loopMax : Nat} {ports ports' : Ports} {x : σ} {exit : Exit} {closed : Instance σ} (hterm : inst.terminated = false)
    (hwaiting : inst.waiting = none) (hopen : inst.openPorts wires = .ok ports)
    (hact : Behaviour.act loopMax inst.actor ports = ⟨x, ports', .ok exit⟩)
    (hclose : ({ inst with actor := x } : Instance σ).closePorts ports' = (wires', closed)) :
    inst.attempt wires loopMax =
      (wires', closed.book exit (waitList ports' exit) ports'.firing, .ok (.ran exit ports'.firing)) := by
  have hblocked : inst.stillBlocked wires = .ok false := by rw [stillBlocked, hwaiting]
  rw [attempt, if_neg (by rw [hterm]; exact Bool.false_ne_true)]
  simp only [hblocked, hopen, settle, hact, hclose]

namespace Line

variable {σ : Type} [Behaviour σ] {L : Line σ} {A : Nat → Count} {wires : List Connection} {insts : List (Instance σ)}
  {inst : Instance σ} {a : Count} {i j : Nat} {S : StationPorts} {wires' : List Connection} {inst' : Instance σ}
  {before after : List (Instance σ)} {loopMax : Nat}

theorem incoming_short (L : Line σ) (j : Nat) : (incoming L.stream j).length < Word.size32 := by
  cases j <;> exact L.short _

structure Stands (L : Line σ) (a : Count) (j : Nat) (inst : Instance σ) : Prop where
  first : j = 0 → inst.inputs = []
  input : ∀ {i}, j = i + 1 → ∃ e, inst.inputs = [⟨L.wire i, e⟩] ∧ e.Rests a.taken (L.capacity i) (.cable [] 0 0 a.taken)
  final : j = L.last → inst.outputs = []
  output : j < L.last → ∃ e, inst.outputs = [⟨L.wire j, e⟩] ∧ e.Rests (L.capacity j) (.cable [] a.given a.given 0)
  plays : (L.station j).plays a inst.actor
  terminated : inst.terminated = true → j = 0 ∧ a.given = a.taken

def Cabled (L : Line σ) (A : Nat → Count) (j : Nat) (c : Connection) : Prop :=
  c.tokenSize = 4 ∧ c.capacity = L.capacity j ∧ c.Tracks (.cable (L.stream j) (A j).given (A j).given (A (j + 1)).taken)

structure Holds (L : Line σ) (A : Nat → Count) (wires : List Connection) (insts : List (Instance σ)) : Prop where
  cable : ∀ {j}, j < L.last → ∃ c, wires[L.wire j]? = some c ∧ L.Cabled A j c
  stands : ∀ inst ∈ insts, ∃ j ≤ L.last, inst.id = L.id j ∧ L.Stands (A j) j inst
  present : ∀ {j}, j ≤ L.last → ∃ inst ∈ insts, inst.id = L.id j
  once : (insts.map (·.id)).Nodup

/-- a station that has nothing to do, given how far its neighbours are -/
structure Stuck (L : Line σ) (A : Nat → Count) (j : Nat) (inst : Instance σ) : Prop where
  held : (j < L.last → (A j).given - (A (j + 1)).taken < L.capacity j) →
    (∀ i, j = i + 1 → (A i).given ≤ (A j).taken) ∧ (A j).given = (A j).taken
  undone : j = 0 → inst.terminated = false → (A 0).given < (A 0).taken

/-! ## One call -/

/-- these are the ports of station `j` -/
structure Lies (L : Line σ) (A : Nat → Count) (wires : List Connection) (j : Nat) (inst : Instance σ)
    (S : StationPorts) : Prop where
  wires : S.wires = wires
  reads : S.inflow.isSome = (L.station j).reads
  writes : S.outflow.isSome = (L.station j).writes
  ready : S.Ready (incoming L.stream j) (L.stream j) inst (A j).taken (A j).given
  inflow : ∀ g ∈ S.inflow, ∃ i, j = i + 1 ∧ g.wire = L.wire i ∧ g.sent = (A i).given ∧
    g.connection.capacity = L.capacity i
  outflow : ∀ g ∈ S.outflow, j < L.last ∧ g.wire = L.wire j ∧ g.read = (A (j + 1)).taken ∧
    g.connection.capacity = L.capacity j

section

variable (h : L.Holds A wires insts) (hj : j ≤ L.last) (hstands : L.Stands (A j) j inst)

include h hj hstands

theorem Holds.exists_inflow :
    ∃ x : Option Inflow, x.isSome = decide (0 < j) ∧ inst.inputs = (x.toList.map fun g => ⟨g.wire, g.port⟩) ∧
      ∀ g ∈ x, (∃ i, j = i + 1 ∧ g.wire = L.wire i ∧ g.sent = (A i).given ∧ g.connection.capacity = L.capacity i) ∧
        g.released = (A j).taken ∧ wires[g.wire]? = some g.connection ∧
        g.connection.Tracks (.cable (incoming L.stream j) g.sent g.sent (A j).taken) ∧
        g.port.Rests (A j).taken g.connection.capacity (.cable (incoming L.stream j) g.sent g.sent (A j).taken) := by
  cases j with
  | zero => exact ⟨none, rfl, hstands.first rfl, fun g hg => by cases hg⟩
  | succ i =>
    obtain ⟨e, hinputs, he⟩ := hstands.input rfl
    obtain ⟨c, hc, hsize, hcapacity, htracks⟩ := h.cable hj
    refine ⟨some ⟨L.wire i, e, c, hsize, (A i).given, (A (i + 1)).taken⟩, by simp, hinputs, fun g hg => ?_⟩
    cases hg
    rw [← hcapacity] at he
    exact ⟨⟨i, rfl, rfl, rfl, hcapacity⟩, rfl, hc, htracks, he.released, he.consumed, he.cursor⟩

theorem Holds.exists_outflow :
    ∃ x : Option Outflow, x.isSome = decide (j < L.last) ∧ inst.outputs = (x.toList.map fun g => ⟨g.wire, g.port⟩) ∧
      ∀ g ∈ x, (j < L.last ∧ g.wire = L.wire j ∧ g.read = (A (j + 1)).taken ∧ g.connection.capacity = L.capacity j) ∧
        g.published = (A j).given ∧ wires[g.wire]? = some g.connection ∧
        g.connection.Tracks (.cable (L.stream j) (A j).given (A j).given g.read) ∧
        g.port.Rests g.connection.capacity (.cable (L.stream j) (A j).given (A j).given g.read) := by
  rcases hj.lt_or_eq with hlt | rfl
  · obtain ⟨e, houtputs, he⟩ := hstands.output hlt
    obtain ⟨c, hc, hsize, hcapacity, htracks⟩ := h.cable hlt
    refine ⟨some ⟨L.wire j, e, c, hsize, (A j).given, (A (j + 1)).taken⟩, by simp [hlt], houtputs, fun g hg => ?_⟩
    cases hg
    rw [← hcapacity] at he
    exact ⟨⟨hlt, rfl, rfl, hcapacity⟩, rfl, hc, htracks, he.cursor, he.produced, rfl⟩
  · exact ⟨none, by simp, hstands.final rfl, fun g hg => by cases hg⟩

/-- a station has its ports -/
theorem Holds.exists_ports : ∃ S : StationPorts, L.Lies A wires j inst S := by
  obtain ⟨inflow, hinSome, hinputs, hin⟩ := h.exists_inflow hj hstands
  obtain ⟨outflow, houtSome, houtputs, hout⟩ := h.exists_outflow hj hstands
  have hapart : ∀ g ∈ inflow, ∀ g' ∈ outflow, g.wire ≠ g'.wire := by
    intro g hg g' hg' heq
    obtain ⟨⟨i, rfl, hwire, -⟩, -⟩ := hin g hg
    obtain ⟨⟨hlt, hwire', -⟩, -⟩ := hout g' hg'
    have hsame := L.wire_inj (by omega) hlt (hwire.symm.trans (heq.trans hwire'))
    omega
  refine ⟨⟨inflow, outflow, wires, hapart⟩, rfl, hinSome.trans (L.reads hj).symm, houtSome.trans (L.writes hj).symm,
    ⟨hinputs, houtputs, fun g hg => (hin g hg).2.1, fun g hg => (hout g hg).2.1, fun g hg => (hin g hg).2.2,
      fun g hg => (hout g hg).2.2⟩, fun g hg => (hin g hg).1, fun g hg => (hout g hg).1⟩

end

theorem Lies.inflow_eq_none_iff (h : L.Lies A wires j inst S) (hj : j ≤ L.last) : S.inflow = none ↔ j = 0 := by
  rw [← Option.isNone_iff_eq_none, ← Option.not_isSome, h.reads, L.reads hj]
  simp

theorem Lies.outflow_eq_none_iff (h : L.Lies A wires j inst S) (hj : j ≤ L.last) : S.outflow = none ↔ j = L.last := by
  rw [← Option.isNone_iff_eq_none, ← Option.not_isSome, h.writes, L.writes hj]
  simp
  omega

/-- a station behind another one reads from the connection between them -/
theorem Lies.exists_inflow (h : L.Lies A wires (i + 1) inst S) (hi : i < L.last) :
    ∃ g ∈ S.inflow, g.wire = L.wire i ∧ g.sent = (A i).given ∧ g.connection.capacity = L.capacity i := by
  obtain ⟨g, hg⟩ := Option.isSome_iff_exists.1 (h.reads.trans ((L.reads hi).trans (decide_eq_true (Nat.succ_pos i))))
  obtain ⟨i', hi', hwire, hsent, hcapacity⟩ := h.inflow g hg
  obtain rfl : i = i' := Nat.succ.inj hi'
  exact ⟨g, hg, hwire, hsent, hcapacity⟩

section

variable (h : L.Lies A wires j inst S)

include h

/-- a station before another one writes to the connection between them -/
theorem Lies.exists_outflow (hj : j < L.last) :
    ∃ g ∈ S.outflow, g.wire = L.wire j ∧ g.read = (A (j + 1)).taken ∧ g.connection.capacity = L.capacity j := by
  obtain ⟨g, hg⟩ := Option.isSome_iff_exists.1 (h.writes.trans ((L.writes hj.le).trans (decide_eq_true hj)))
  exact ⟨g, hg, (h.outflow g hg).2⟩

theorem Lies.stands (hj : j ≤ L.last)
    (hshut : S.Shut (incoming L.stream j) (L.stream j) wires' inst'.inputs inst'.outputs a.taken a.given)
    (hplays : (L.station j).plays a inst'.actor)
    (hterminated : inst'.terminated = true → S.inflow = none ∧ a.given = a.taken) : L.Stands a j inst' := by
  refine ⟨fun hfirst => hshut.unread ((h.inflow_eq_none_iff hj).2 hfirst), fun hi => ?_,
    fun hlast => hshut.unwritten ((h.outflow_eq_none_iff hj).2 hlast), fun hlt => ?_, hplays,
    fun ht => (hterminated ht).imp_left (h.inflow_eq_none_iff hj).1⟩
  · subst hi
    obtain ⟨g, hg, hwire, -, hcapacity⟩ := h.exists_inflow hj
    obtain ⟨c, e, hinputs, -, -, -, -, hrests⟩ := hshut.source g hg
    rw [hwire] at hinputs
    rw [hcapacity] at hrests
    exact ⟨e, hinputs, hrests.released, hrests.consumed, hrests.cursor⟩
  · obtain ⟨g, hg, hwire, -, hcapacity⟩ := h.exists_outflow hlt
    obtain ⟨c, e, houtputs, -, -, -, -, hrests⟩ := hshut.target g hg
    rw [hwire] at houtputs
    rw [hcapacity] at hrests
    exact ⟨e, houtputs, hrests.cursor, hrests.produced, rfl⟩

/-- the connections after a call: those of the station have gone on with it, and the others are as they were -/
theorem Lies.cable {ins : List (Attached InputEnd)} {outs : List (Attached OutputEnd)}
    (hj : j ≤ L.last) (hshut : S.Shut (incoming L.stream j) (L.stream j) wires' ins outs a.taken a.given) {k : Nat}
    (hk : k < L.last) (hcable : ∃ c, wires[L.wire k]? = some c ∧ L.Cabled A k c) :
    ∃ c, wires'[L.wire k]? = some c ∧ L.Cabled (Function.update A j a) k c := by
  by_cases hkj : k = j
  · subst hkj
    obtain ⟨g, hg, hwire, hread, hcapacity⟩ := h.exists_outflow hk
    obtain ⟨c, e, -, hc, hsize, hcap, htracks, -⟩ := hshut.target g hg
    rw [hwire] at hc
    rw [hread] at htracks
    refine ⟨c, hc, hsize, hcap.trans hcapacity, ?_⟩
    rw [Function.update_self, Function.update_of_ne (by omega)]
    exact htracks
  · by_cases hbefore : j = k + 1
    · subst hbefore
      obtain ⟨g, hg, hwire, hsent, hcapacity⟩ := h.exists_inflow hk
      obtain ⟨c, e, -, hc, hsize, hcap, htracks, -⟩ := hshut.source g hg
      rw [hwire] at hc
      rw [hsent] at htracks
      refine ⟨c, hc, hsize, hcap.trans hcapacity, ?_⟩
      rw [Function.update_self, Function.update_of_ne hkj]
      exact htracks
    · obtain ⟨c, hc, hcabled⟩ := hcable
      refine ⟨c, ?_, ?_⟩
      · rw [hshut.others _ (fun g hg => ?_) fun g hg => ?_, h.wires]
        · exact hc
        · obtain ⟨i, hi, hwire, -⟩ := h.inflow g hg
          rw [hwire]
          exact fun heq => hbefore (by rw [hi, L.wire_inj (by omega) hk heq])
        · obtain ⟨hlt, hwire, -⟩ := h.outflow g hg
          rw [hwire]
          exact fun heq => hkj (L.wire_inj hk hlt heq.symm)
      · rw [Cabled, Function.update_of_ne hkj, Function.update_of_ne (fun heq => hbefore heq.symm)]
        exact hcabled

end

/-- the chain after a call of one station -/
theorem Holds.update (h : L.Holds A wires (before ++ inst :: after)) (hj : j ≤ L.last) (hid : inst.id = L.id j)
    (hid' : inst'.id = inst.id)
    (hcable : ∀ {k}, k < L.last → ∃ c, wires'[L.wire k]? = some c ∧ L.Cabled (Function.update A j a) k c)
    (hstands : L.Stands a j inst') : L.Holds (Function.update A j a) wires' (before ++ inst' :: after) := by
  have hids : (before ++ inst' :: after).map (·.id) = (before ++ inst :: after).map (·.id) := by simp [hid']
  refine ⟨hcable, fun x hx => ?_, fun {k} hk => ?_, by rw [hids]; exact h.once⟩
  · have hother : x ∈ before ++ after → ∃ k ≤ L.last, x.id = L.id k ∧ L.Stands (Function.update A j a k) k x :=
      fun hx => by
      have honce := h.once
      rw [map_append, map_cons, nodup_middle, nodup_cons, ← map_append] at honce
      have hne : x.id ≠ inst.id := fun heq => honce.1 (heq ▸ mem_map_of_mem hx)
      obtain ⟨k, hk, hxid, hx⟩ := h.stands x (by
        rcases mem_append.1 hx with hx | hx
        · exact mem_append_left _ hx
        · exact mem_append_right _ (mem_cons_of_mem _ hx))
      refine ⟨k, hk, hxid, ?_⟩
      rw [Function.update_of_ne fun heq => hne (by rw [hxid, hid, heq])]
      exact hx
    rcases mem_append.1 hx with hx | hx
    · exact hother (mem_append_left _ hx)
    · rcases mem_cons.1 hx with rfl | hx
      · exact ⟨j, hj, hid'.trans hid, by rw [Function.update_self]; exact hstands⟩
      · exact hother (mem_append_right _ hx)
  · obtain ⟨x, hx, hxid⟩ := h.present hk
    have hmem : L.id k ∈ (before ++ inst' :: after).map (·.id) := by
      rw [hids, ← hxid]
      exact mem_map_of_mem hx
    obtain ⟨y, hy, hyid⟩ := mem_map.1 hmem
    exact ⟨y, hy, hyid⟩

/-- bound on the calls that are left with something to do -/
def left (L : Line σ) (A : Nat → Count) : Nat := ∑ j ∈ Finset.range (L.last + 1), (A j).left

theorem left_update (hj : j ≤ L.last) (hless : a.left < (A j).left) : L.left (Function.update A j a) < L.left A := by
  refine Finset.sum_lt_sum (fun k _ => ?_) ⟨j, Finset.mem_range.2 (Nat.lt_succ_of_le hj),
    by rw [Function.update_self]; exact hless⟩
  by_cases hk : k = j
  · subst hk
    rw [Function.update_self]
    exact hless.le
  · rw [Function.update_of_ne hk]

/-- a station that is held has nothing to do, given how far its neighbours are -/
theorem Lies.stuck {ports : Ports} (h : L.Lies A wires j inst S) (hj : j ≤ L.last)
    (hlevel : ∀ g ∈ S.inflow, ports.availableIn 0 = .ok (g.sent - (A j).taken))
    (hroom : ∀ g ∈ S.outflow, ports.availableOut 0 = .ok (g.connection.capacity - ((A j).given - g.read)))
    (hheld : Held S ports (A j)) (hundone : S.inflow = none → inst'.terminated = false → (A j).given < (A j).taken) :
    L.Stuck A j inst' := by
  refine ⟨fun hfree => ?_, fun hfirst hrunning => ?_⟩
  · obtain ⟨hempty, hgiven⟩ := hheld fun hsome room hroom' => by
      obtain ⟨g, hg⟩ := Option.isSome_iff_exists.1 hsome
      obtain ⟨hlt, -, hread, hcapacity⟩ := h.outflow g hg
      cases (hroom g hg).symm.trans hroom'
      omega
    refine ⟨fun i hi => ?_, hgiven⟩
    subst hi
    obtain ⟨g, hg, -, hsent, -⟩ := h.exists_inflow hj
    have hnothing := Except.ok.inj ((hlevel g hg).symm.trans (hempty (Option.isSome_of_mem hg)))
    omega
  · subst hfirst
    exact hundone ((h.inflow_eq_none_iff hj).2 rfl) hrunning

theorem Holds.attempt (hloops : 1 ≤ loopMax) (h : L.Holds A wires (before ++ inst :: after))
    (hwaiting : inst.waiting = none) :
    ∃ A' wires' inst' answer, inst.attempt wires loopMax = (wires', inst', .ok answer) ∧
      L.Holds A' wires' (before ++ inst' :: after) ∧ (answer.madeProgress = true ∧ L.left A' < L.left A ∨
        answer.madeProgress = false ∧ A' = A ∧ ∀ j ≤ L.last, inst'.id = L.id j → L.Stuck A j inst') := by
  obtain ⟨j, hj, hid, hstands⟩ := h.stands inst (by simp)
  have hunique : ∀ {k}, k ≤ L.last → inst.id = L.id k → k = j := fun hk hkid => L.id_inj hk hj (hkid.symm.trans hid)
  cases hterm : inst.terminated with
  | true =>
    refine ⟨A, wires, inst, .skipped, by rw [Instance.attempt, if_pos hterm], h, .inr ⟨rfl, rfl, fun k hk hkid => ?_⟩⟩
    obtain rfl := hunique hk hkid
    obtain ⟨rfl, hdone⟩ := hstands.terminated hterm
    exact ⟨fun _ => ⟨fun i hi => by omega, hdone⟩, fun _ hrunning => by rw [hterm] at hrunning; cases hrunning⟩
  | false =>
    obtain ⟨S, hlies⟩ := h.exists_ports hj hstands
    obtain ⟨ports, hopen, hports, hlevel, hroom⟩ := hlies.ready.open
    obtain ⟨x, ports', exit, a, hact, hports', hplays, hgoes⟩ :=
      (L.station j).call hlies.reads hlies.writes hports hstands.plays hloops
    obtain ⟨wires', ins, outs, hclose, hshut⟩ := hports'.close hlies.ready x
    rw [hlies.wires] at hopen
    have hexit : (inst.terminated || exit == .terminate) = true → exit = .terminate := by
      rw [hterm, Bool.false_or]
      exact beq_iff_eq.1
    refine ⟨Function.update A j a, wires', _, _, Instance.attempt_of_call hterm hwaiting hopen hact hclose,
      h.update hj hid rfl (fun hk => hlies.cable hj hshut hk (h.cable hk))
        (hlies.stands hj hshut hplays fun ht => hgoes.done (hexit ht)), ?_⟩
    obtain ⟨-, -, -, hactions⟩ := Instance.openPorts_eq_ok hopen
    cases hgoes with
    | on hless hshown =>
      refine .inl ⟨?_, left_update hj hless⟩
      rcases hshown with rfl | ⟨hgrown, hmost⟩
      · simp [Attempt.madeProgress]
      · have hfired : ports'.firing.fired = ports'.actions.size := Firing.fired_eq (hmost.trans_lt (by
          rw [hactions, Array.size_empty, Nat.zero_add]
          exact L.incoming_short j))
        simp [Attempt.madeProgress, hfired, Nat.ne_of_gt (Nat.zero_lt_of_lt hgrown)]
    | stays hsame hstill hrests hheld _ hundone =>
      subst hsame hstill
      refine .inr ⟨by simp [Attempt.madeProgress, Ports.firing, Firing.fired, Word.low32, hactions, hrests],
        Function.update_eq_self j A, fun k hk hkid => ?_⟩
      obtain rfl := hunique hk hkid
      refine hlies.stuck hk hlevel hroom hheld fun hnone hrunning => hundone hnone fun hexit => ?_
      subst hexit
      simp [Instance.book] at hrunning

section

variable (h : L.Holds A wires insts)

include h

/-- what instances wait for does not count -/
theorem Holds.forget : L.Holds A wires (insts.map Instance.forget) := by
  refine ⟨h.cable, fun x hx => ?_, fun hj => ?_, by rw [map_map]; exact h.once⟩
  · obtain ⟨inst, hinst, rfl⟩ := mem_map.1 hx
    obtain ⟨j, hj, hid, hstands⟩ := h.stands inst hinst
    exact ⟨j, hj, hid, hstands.first, hstands.input, hstands.final, hstands.output, hstands.plays, hstands.terminated⟩
  · obtain ⟨inst, hinst, hid⟩ := h.present hj
    exact ⟨inst.forget, mem_map_of_mem hinst, hid⟩

theorem Holds.stands_of_id (hinst : inst ∈ insts)
    (hj : j ≤ L.last) (hid : inst.id = L.id j) : L.Stands (A j) j inst := by
  obtain ⟨k, hk, hkid, hstands⟩ := h.stands inst hinst
  obtain rfl := L.id_inj hk hj (hkid.symm.trans hid)
  exact hstands

theorem Holds.exists_stands (hj : j ≤ L.last) : ∃ inst ∈ insts, L.Stands (A j) j inst := by
  obtain ⟨inst, hinst, hid⟩ := h.present hj
  exact ⟨inst, hinst, h.stands_of_id hinst hj hid⟩

end

/-- a station is found by its instance -/
theorem Holds.exists_worker {n : Network σ} (h : L.Holds A n.wires n.instances) (hj : j ≤ L.last) :
    ∃ inst ∈ n.instances, inst.id = L.id j ∧ (Overlap.start n).worker? (L.id j) = some { inst } ∧
    L.Stands (A j) j inst := by
  rw [Overlap.worker?_start]
  cases hfind : n.instances.find? (·.id = L.id j) with
  | none =>
    obtain ⟨inst, hinst, hid⟩ := h.present hj
    exact absurd (decide_eq_true hid) (find?_eq_none.1 hfind inst hinst)
  | some inst =>
    have hinst := mem_of_find?_eq_some hfind
    have hid : inst.id = L.id j := by simpa using find?_some hfind
    exact ⟨inst, hinst, hid, rfl, h.stands_of_id hinst hj hid⟩

/-- a chain comes to rest; the last station never terminates -/
def settling (L : Line σ) (hlast : 0 < L.last) (hloops : 1 ≤ loopMax) : Settling σ loopMax where
  State := Nat → Count
  holds := L.Holds
  left := L.left
  stuck A inst := ∀ j ≤ L.last, inst.id = L.id j → L.Stuck A j inst
  attempt := Holds.attempt hloops
  forget := Holds.forget
  running h := by
    obtain ⟨inst, hinst, hstands⟩ := h.exists_stands le_rfl
    refine ⟨inst, hinst, Bool.eq_false_iff.2 fun hterm => ?_⟩
    have := (hstands.terminated hterm).1
    omega

/-! ## At rest -/

theorem Holds.taken_le (h : L.Holds A wires insts) (hi : i < L.last) : (A (i + 1)).taken ≤ (A i).given := by
  obtain ⟨c, -, -, -, htracks⟩ := h.cable hi
  exact htracks.released_le _ (mem_singleton_self _)

/-- a station with nothing to do has given on all that was sent to it, if the next one has taken all that it gave on -/
theorem Stuck.drained (hstuck : L.Stuck A j inst) (h : L.Holds A wires insts)
    (hnext : j < L.last → (A (j + 1)).taken = (A j).given) :
    (∀ i, j = i + 1 → (A i).given ≤ (A j).taken) ∧ (A j).given = (A j).taken := by
  refine hstuck.held fun hlt => ?_
  obtain ⟨c, -, -, hcapacity, htracks⟩ := h.cable hlt
  rw [hnext hlt, Nat.sub_self, ← hcapacity]
  exact htracks.ring.slots

/-- nobody has anything to do -/
def Rests (L : Line σ) (A : Nat → Count) (insts : List (Instance σ)) : Prop :=
  ∀ inst ∈ insts, ∀ j ≤ L.last, inst.id = L.id j → L.Stuck A j inst

/-- at rest, every station has given on as much as the last one has taken -/
theorem Holds.drained (h : L.Holds A wires insts) (hrests : L.Rests A insts) (hj : j ≤ L.last) :
    (j < L.last → (A (j + 1)).taken = (A j).given) ∧ (A j).given = (A j).taken ∧ (A j).taken = (A L.last).taken := by
  have hstuck : ∀ {k}, k ≤ L.last → ∃ inst, L.Stuck A k inst := fun {k} hk => by
    obtain ⟨inst, hinst, hid⟩ := h.present hk
    exact ⟨inst, hrests inst hinst k hk hid⟩
  -- from the last station back: the next one has taken everything, so there is room
  induction hj using Nat.decreasingInduction with
  | self =>
    obtain ⟨inst, hlast⟩ := hstuck le_rfl
    exact ⟨fun hlt => absurd hlt (lt_irrefl _), (hlast.drained h fun hlt => absurd hlt (lt_irrefl _)).2, rfl⟩
  | of_succ j hlt ih =>
    obtain ⟨hnext, heven, hall⟩ := ih
    obtain ⟨inst', hstuck'⟩ := hstuck (Nat.succ_le_of_lt hlt)
    have htaken : (A (j + 1)).taken = (A j).given := le_antisymm (h.taken_le hlt) ((hstuck'.drained h hnext).1 j rfl)
    obtain ⟨inst, hstuck⟩ := hstuck hlt.le
    have hgiven := (hstuck.drained h fun _ => htaken).2
    exact ⟨fun _ => htaken, hgiven, by rw [← hgiven, ← htaken, hall]⟩

/-- at rest, all that the source has came to the last station, and the source has terminated -/
theorem Holds.delivered (h : L.Holds A wires insts) (hrests : L.Rests A insts) :
    (A L.last).taken = (L.stream 0).length ∧ ∀ inst ∈ insts, inst.id = L.id 0 → inst.terminated = true := by
  obtain ⟨-, hgiven, htaken⟩ := h.drained hrests (Nat.zero_le L.last)
  obtain ⟨first, -, hstands⟩ := h.exists_stands (Nat.zero_le L.last)
  have hbegins := (L.station 0).begins (L.reads (Nat.zero_le _)) hstands.plays
  refine ⟨htaken.symm.trans hbegins, fun inst hinst hid => eq_true_of_ne_false fun hrunning => ?_⟩
  have := (hrests inst hinst 0 (Nat.zero_le _) hid).undone rfl hrunning
  omega

end Line

end Dataflow
