import Dataflow.Proofs.Chain
import Dataflow.Proofs.EchoStation
import Dataflow.Proofs.RunAccounting
import Dataflow.Proofs.Skipping

/-!
Chains of scalers and echo bridges deliver.

Model: a `Builder.Chain` of a source, relays (`Component.Relays`) and a sink. Each of them works as a station of a line
(`Component.Works`), also if those who are blocked are passed over.

- `bridged_chain_delivers`: however the links are sized and the instances grouped, a run on one thread comes to an end
  after finitely many rounds; nobody has anything left to do, the source has terminated, and the sink holds the numbers
  of the source, in order, each multiplied by all factors.
- Witness `bridged_chain_delivers_mill`: a chain with a scaler and a bridge, with one firing per call.
- Counterexample `chain_with_large_depth_or_overlong_source`: why both premises on sizes are needed.

Premises: a network is built, so no depth is above 2 ^ 31; the source has fewer than 2 ^ 32 numbers, since it counts
them in a word; a call may fire, and there is no pass limit.
-/

namespace Dataflow

open List

/-! ## Actors as stations -/

namespace Component

def factor? : Component → Option Int32
  | .scale s => some s.factor
  | _ => none

/-- what an actor gives on of what comes to it -/
def through (c : Component) (xs : List Int32) : List Int32 := c.factor?.elim xs fun f => xs.map (· * f)

/-- a scaler, or a new echo bridge for 32-bit numbers on a device that carries out commands at once -/
inductive Relays : Component → Prop where
  | scale (s : Scale) : Relays (.scale s)
  | echo {name : String} {perCall : Nat} {inPort outPort : LinkPort} {b : StockBridge} (hk : 1 ≤ perCall)
    (hcreate : Bridge.create name (Accelerator.create (.echo perCall) .immediate) [inPort] [outPort] = .ok b)
    (hinSize : inPort.tokenSize = 4) (houtSize : outPort.tokenSize = 4) (hin : inPort.capacity < Word.size32)
    (hout : outPort.capacity < Word.size32) : Relays (.bridge b)

/-- an actor that is at the start of a station; as long as it stays there, a sink shows what it has taken -/
structure Implements {s t : List Int32} (c : Component) (st : Station Component s t) (a : Count) : Prop where
  plays : st.plays a c
  given : a.given = 0
  taken : st.reads = true → a.taken = 0
  tokens : ∀ {a y}, st.plays a y → y.sink?.map (·.tokens.toList) = c.sink?.map fun _ => s.take a.taken

/-- an actor that works as a station with these streams and ports -/
structure Works (c : Component) (s t : List Int32) (reads writes : Bool) : Prop where
  inputs : (Behaviour.interface c).inputs.length = reads.toNat
  outputs : (Behaviour.interface c).outputs.length = writes.toNat
  sizes : ∀ port ∈ (Behaviour.interface c).outputs, port.tokenSize = 4
  shipped : ∃ x : Shipped (Accelerator StockKernel), c = ofShipped x ∧ x.New
  station : ∃ (st : Station Component s t) (a : Count), st.reads = reads ∧ st.writes = writes ∧ c.Implements st a

theorem works_source {x : Source} (hstart : x.emitted = 0) (hlength : x.feed.numbers.length < Word.size32) :
    (source x).Works x.feed.numbers x.feed.numbers false true := by
  refine ⟨rfl, rfl, fun port hport => by rw [mem_singleton.1 hport], ⟨.source x, rfl, trivial⟩,
    (Source.station x.feed hlength).among .source fun _ _ _ => rfl, x.count, rfl, rfl,
    ⟨x, rfl, rfl, by omega, rfl⟩, hstart, ?_, ?_⟩
  · exact fun h => by cases h
  · rintro a _ ⟨y, rfl, -⟩
    rfl

theorem works_sink {x : Sink} (hlimit : x.limit = none) (htokens : x.tokens = #[]) (s : List Int32) :
    (sink x).Works s s true false := by
  refine ⟨rfl, rfl, fun port hport => absurd hport not_mem_nil, ⟨.sink x, rfl, trivial⟩,
    (Sink.station s).among .sink fun _ _ _ => rfl, .even s.length 0, rfl, rfl,
    ⟨x, rfl, hlimit, 0, by rw [htokens]; rfl, rfl⟩, rfl, fun _ => rfl, ?_⟩
  rintro a _ ⟨y, rfl, -, k, hy, rfl⟩
  exact congrArg some hy

theorem Relays.works {c : Component} (h : c.Relays) (s : List Int32) : c.Works s (c.through s) true true := by
  cases h with
  | scale x =>
    refine ⟨rfl, rfl, fun port hport => by rw [mem_singleton.1 hport], ⟨.scale x, rfl, trivial⟩,
      (Scale.station x s).among .scale fun _ _ _ => rfl, .even s.length 0, rfl, rfl, ⟨x, rfl, rfl, 0, rfl⟩,
      rfl, fun _ => rfl, ?_⟩
    rintro a _ ⟨y, rfl, -⟩
    rfl
  | @echo name perCall inPort outPort b hk hcreate hinSize houtSize hin hout =>
    have hcreated := Bridge.create_created Accelerator.reserves trivial hcreate
    have hinputs : (Behaviour.interface (bridge b)).inputs.length = 1 := by
      simpa [Behaviour.interface, interface, Bridge.interface] using congrArg length hcreated.inputs
    have houtputs : (Behaviour.interface (bridge b)).outputs = [⟨outPort.name, outPort.tokenSize⟩] := by
      simpa [Behaviour.interface, interface, Bridge.interface] using
        congrArg (map fun spec => (⟨spec.name, spec.tokenSize⟩ : PortSpec)) hcreated.outputs
    refine ⟨hinputs, by rw [houtputs]; rfl, fun port hport => ?_, ⟨.bridge b, rfl, name, _, _, _, hcreate⟩,
      (Bridge.echoStation hk s).among .bridge fun _ _ _ => rfl, _, rfl, rfl,
      ⟨b, rfl, Bridge.echoStation_plays_new hk s hcreate hinSize houtSize hin hout⟩, rfl, fun _ => rfl, ?_⟩
    · rw [houtputs] at hport
      rw [mem_singleton.1 hport]
      exact houtSize
    · rintro a _ ⟨y, rfl, -⟩
      rfl

end Component

/-! ## Chains -/

namespace Builder

def factor? (b : Builder Component) (i : Nat) : Option Int32 := (b.actor? i).bind Component.factor?

/-- a source, scalers and echo bridges in any order, and a sink without a limit, each linked to the next. Nothing is
said of missing links: no network can be built as long as a port is not linked -/
structure Chain (b : Builder Component) (first : Nat) (s : Source) (middle : List Nat) (last : Nat) : Prop where
  once : (first :: (middle ++ [last])).Perm (List.range b.instances.length)
  links : ∀ link ∈ b.links, (link.source.inst, link.target.inst) ∈ (first :: (middle ++ [last])).zip (middle ++ [last])
  source : b.actor? first = some (.source s)
  start : s.emitted = 0
  relays : ∀ i ∈ middle, ∃ c, b.actor? i = some c ∧ c.Relays
  sink : ∃ t, b.actor? last = some (.sink t) ∧ t.limit = none ∧ t.tokens = #[]

/-- a chain whose source can count its numbers in a word -/
structure CountedChain (b : Builder Component) (first : Nat) (s : Source) (middle : List Nat) (last : Nat) : Prop
    extends b.Chain first s middle last where
  numbers : s.feed.numbers.length < Word.size32

/-- what comes out behind the source and the next `j` instances -/
def streamAfter (b : Builder Component) (s : Source) (middle : List Nat) (j : Nat) : List Int32 :=
  s.feed.numbers.map fun x => ((middle.take j).filterMap b.factor?).foldl (· * ·) x

theorem streamAfter_zero (b : Builder Component) (s : Source) (middle : List Nat) :
    b.streamAfter s middle 0 = s.feed.numbers := by
  simp [streamAfter]

theorem length_streamAfter (b : Builder Component) (s : Source) (middle : List Nat) (j : Nat) :
    (b.streamAfter s middle j).length = s.feed.numbers.length := length_map ..

theorem streamAfter_succ {b : Builder Component} {s : Source} {middle : List Nat} {j i : Nat} {c : Component}
    (hi : middle[j]? = some i) (hc : b.actor? i = some c) :
    b.streamAfter s middle (j + 1) = c.through (b.streamAfter s middle j) := by
  rw [streamAfter, take_add_one, hi, Option.toList_some, filterMap_append]
  cases hfactor : c.factor? with
  | none | some f => simp [streamAfter, Component.through, factor?, hc, hfactor]

namespace CountedChain

variable {b : Builder Component} {first last : Nat} {s : Source} {middle : List Nat} {ws : List Wire}
  {n : Network Component} {i i' j : Nat}

section

variable (h : b.CountedChain first s middle last)

include h

/-- the instance at each place works as a station between what comes to it and what it gives on -/
theorem works (hj : j ≤ middle.length + 1) :
    ∃ i c, (first :: (middle ++ [last]))[j]? = some i ∧ b.actor? i = some c ∧
    c.Works (incoming (b.streamAfter s middle) j)
      (b.streamAfter s middle j) (decide (0 < j)) (decide (j < middle.length + 1)) := by
  cases j with
  | zero =>
    refine ⟨first, _, rfl, h.source, ?_⟩
    rw [incoming, streamAfter_zero]
    simpa using Component.works_source h.start h.numbers
  | succ j =>
    rcases Nat.lt_or_eq_of_le (Nat.le_of_succ_le_succ hj) with hlt | rfl
    · have hi := getElem?_eq_getElem hlt
      obtain ⟨c, hc, hrelays⟩ := h.relays _ (mem_of_getElem? hi)
      refine ⟨_, c, by rw [getElem?_cons_succ, getElem?_append_left hlt, hi], hc, ?_⟩
      rw [incoming, streamAfter_succ hi hc]
      simpa [hlt] using hrelays.works _
    · obtain ⟨t, ht, hlimit, htokens⟩ := h.sink
      have hsame : b.streamAfter s middle (middle.length + 1) = b.streamAfter s middle middle.length := by
        rw [streamAfter, streamAfter, take_length, take_of_length_le (Nat.le_succ _)]
      refine ⟨last, _, by simp, ht, ?_⟩
      rw [incoming, hsame]
      simpa using Component.works_sink hlimit htokens _

theorem place_unique (hi : (first :: (middle ++ [last]))[i]? = some i')
    (hj : (first :: (middle ++ [last]))[j]? = some i') : i = j :=
  (getElem?_inj (lt_of_getElem? hi) (h.once.nodup_iff.2 nodup_range)).1 (hi.trans hj.symm)

theorem exists_place {d : Declared Component} (hd : b.instances[i]? = some d) :
    ∃ j, d.actor.Works (incoming (b.streamAfter s middle) j) (b.streamAfter s middle j) (decide (0 < j))
      (decide (j < middle.length + 1)) := by
  obtain ⟨j, hplace⟩ := getElem?_of_mem (h.once.mem_iff.2 (mem_range.2 (lt_of_getElem? hd)))
  have hj : j ≤ middle.length + 1 := by simpa [Nat.lt_succ_iff] using lt_of_getElem? hplace
  obtain ⟨i', c, hplace', hc, hworks⟩ := h.works hj
  cases hplace.symm.trans hplace'
  rw [actor?, hd] at hc
  cases hc
  exact ⟨j, hworks⟩

/-- a link leads from one place to the next -/
theorem exists_places {link : Link} (hlink : link ∈ b.links) :
    ∃ j, (first :: (middle ++ [last]))[j]? = some link.source.inst ∧
      (first :: (middle ++ [last]))[j + 1]? = some link.target.inst := by
  obtain ⟨j, hj⟩ := getElem?_of_mem (h.links link hlink)
  exact ⟨j, getElem?_zip_eq_some.1 hj⟩

/-! ## Connections -/

/-- what an instance writes to is read by the next one alone -/
theorem targets (hl : b.WellLinked) (hws : b.wires = .ok ws) {wire : Wire} (hwire : wire ∈ ws)
    (hi : (first :: (middle ++ [last]))[j]? = some i) (hi' : (first :: (middle ++ [last]))[j + 1]? = some i')
    (hsource : wire.source = ⟨i, 0⟩) : wire.targets = [⟨i', 0⟩] := by
  have hjoins := joins_of_wires hl hws
  have hall : ∀ p ∈ wire.targets, p = ⟨i', 0⟩ := by
    intro p hp
    obtain ⟨link, hlink, hfrom, rfl⟩ := hjoins.link_of_target hwire hp
    obtain ⟨k, hk, hk'⟩ := h.exists_places hlink
    rw [hfrom, hsource] at hk
    obtain rfl := h.place_unique hk hi
    have hinst : link.target.inst = i' := Option.some.inj (hk'.symm.trans hi')
    -- nobody on a chain has a second input
    obtain ⟨d, hd, hlt⟩ := hl.target link hlink
    obtain ⟨_, hworks⟩ := h.exists_place hd
    have hone := hworks.inputs.trans_le (Bool.toNat_le _)
    have hport : link.target.port = 0 := by omega
    rw [← hinst, ← hport]
  have hnodup : wire.targets.Nodup := by
    rw [hjoins.targets wire hwire]
    exact hl.once.sublist (filter_sublist.map _)
  have hrep := eq_replicate_of_mem hall
  rw [hrep, nodup_replicate] at hnodup
  have hpos := length_pos_of_ne_nil (targets_ne_nil hws hwire)
  rw [hrep, le_antisymm hnodup hpos]
  rfl

/-- an instance that is not the last writes to one connection, and the next one alone reads from it -/
theorem exists_wire (hl : b.WellLinked) (hws : b.wires = .ok ws) (hbuilt : b.Built ws n)
    (hj : j < middle.length + 1) : ∃ (w : Nat) (wire : Wire) (i i' : Nat), ws[w]? = some wire ∧
      (first :: (middle ++ [last]))[j]? = some i ∧ (first :: (middle ++ [last]))[j + 1]? = some i' ∧
      wire.source = ⟨i, 0⟩ ∧ wire.targets = [⟨i', 0⟩] ∧ wire.connection.tokenSize = 4 := by
  obtain ⟨i, c, hi, hc, hworks⟩ := h.works hj.le
  obtain ⟨i', c', hi', -, -⟩ := h.works (Nat.succ_le_of_lt hj)
  obtain ⟨d, hd, rfl⟩ := Option.map_eq_some_iff.1 hc
  -- the output has been linked, since the instance has been built
  obtain ⟨inst, hinst, rfl⟩ := mem_map.1 (hbuilt.ids.mem_iff.2 (mem_range.2 (lt_of_getElem? hd)))
  obtain ⟨d', hd', hplaced⟩ := hbuilt.placed inst hinst
  cases hd.symm.trans hd'
  obtain ⟨e, he⟩ := length_eq_one_iff.1 ((hplaced.outputs.trans hworks.outputs).trans (by rw [decide_eq_true hj]; rfl))
  obtain ⟨wire, hw, hsource, -⟩ := hplaced.output (k := 0) (by rw [he]; rfl)
  have hwire := mem_of_getElem? hw
  obtain ⟨d2, port, hd2, hport, hsize⟩ := (joins_of_wires hl hws).source wire hwire
  rw [hsource, hd] at hd2
  cases hd2
  exact ⟨e.wire, wire, inst.id, i', hw, hi, hi', hsource, h.targets hl hws hwire hi hi' hsource,
    hsize.trans (hworks.sizes port (mem_of_getElem? hport))⟩

end

/-! ## Lines -/

/-- the line runs along the instances `way` and their connections, and everybody is at the start -/
structure Follows (b : Builder Component) (way : List Nat) (ws : List Wire) (L : Line Component)
    (A : Nat → Count) : Prop where
  place : ∀ {j}, j ≤ L.last → way[j]? = some (L.id j)
  implements : ∀ {j}, j ≤ L.last → ∃ c, b.actor? (L.id j) = some c ∧
    c.Works (incoming L.stream j) (L.stream j) (decide (0 < j)) (decide (j < L.last)) ∧ c.Implements (L.station j) (A j)
  wire : ∀ {j}, j < L.last → ∃ wire, ws[L.wire j]? = some wire ∧ wire.connection.capacity = L.capacity j ∧
    wire.source = ⟨L.id j, 0⟩ ∧ wire.targets = [⟨L.id (j + 1), 0⟩] ∧ wire.connection.tokenSize = 4

/-- there is a line along every chain -/
theorem exists_line (h : b.CountedChain first s middle last) (hl : b.WellLinked) (hws : b.wires = .ok ws)
    (hbuilt : b.Built ws n) :
    ∃ (L : Line Component) (A : Nat → Count), L.last = middle.length + 1 ∧ L.stream = b.streamAfter s middle ∧
      Follows b (first :: (middle ++ [last])) ws L A := by
  -- beyond the end of the chain it does not matter what the line says
  have hstations : ∀ j, ∃ (st : Station Component (incoming (b.streamAfter s middle) j) (b.streamAfter s middle j))
    (a : Count) (i : Nat),
      j ≤ middle.length + 1 → ∃ c, (first :: (middle ++ [last]))[j]? = some i ∧ b.actor? i = some c ∧
        c.Works (incoming (b.streamAfter s middle) j) (b.streamAfter s middle j) (decide (0 < j))
        (decide (j < middle.length + 1)) ∧
        st.reads = decide (0 < j) ∧ st.writes = decide (j < middle.length + 1) ∧ c.Implements st a := by
    intro j
    by_cases hj : j ≤ middle.length + 1
    · obtain ⟨i, c, hi, hc, hworks⟩ := h.works hj
      obtain ⟨st, a, hreads, hwrites, himplements⟩ := hworks.station
      exact ⟨st, a, i, fun _ => ⟨c, hi, hc, hworks, hreads, hwrites, himplements⟩⟩
    · exact ⟨default, ⟨0, 0, 0⟩, 0, fun hle => absurd hle hj⟩
  choose station A id hstation using hstations
  have hwires : ∀ j, ∃ w capacity : Nat, j < middle.length + 1 → ∃ wire, ws[w]? = some wire ∧
      wire.connection.capacity = capacity ∧ wire.source = ⟨id j, 0⟩ ∧ wire.targets = [⟨id (j + 1), 0⟩] ∧
      wire.connection.tokenSize = 4 := by
    intro j
    by_cases hj : j < middle.length + 1
    · obtain ⟨w, wire, i, i', hw, hi, hi', hsource, htargets, hsize⟩ := h.exists_wire hl hws hbuilt hj
      obtain ⟨-, hid, -⟩ := hstation j hj.le
      obtain ⟨-, hid', -⟩ := hstation (j + 1) hj
      cases hi.symm.trans hid
      cases hi'.symm.trans hid'
      exact ⟨w, _, fun _ => ⟨wire, hw, rfl, hsource, htargets, hsize⟩⟩
    · exact ⟨0, 0, fun hlt => absurd hlt hj⟩
  choose wireOf capacity hwire using hwires
  have hid : ∀ {i j}, i ≤ middle.length + 1 → j ≤ middle.length + 1 → id i = id j → i = j := by
    intro i j hi hj heq
    obtain ⟨-, hi, -⟩ := hstation i hi
    obtain ⟨-, hj, -⟩ := hstation j hj
    rw [heq] at hi
    exact h.place_unique hi hj
  have hwireInj : ∀ {i j}, i < middle.length + 1 → j < middle.length + 1 → wireOf i = wireOf j → i = j := by
    intro i j hi hj heq
    obtain ⟨wire, hw, -, hsource, -⟩ := hwire i hi
    obtain ⟨wire', hw', -, hsource', -⟩ := hwire j hj
    rw [heq] at hw
    cases hw.symm.trans hw'
    exact hid hi.le hj.le (PortRef.mk.inj (hsource.symm.trans hsource')).1
  refine ⟨⟨middle.length + 1, id, wireOf, capacity, b.streamAfter s middle, station, hid, hwireInj, ?_, ?_, ?_⟩,
    A, rfl, rfl, fun {j} hj => ?_, fun {j} hj => ?_, fun {j} hj => hwire j hj⟩
  · intro j hj
    obtain ⟨c, -, -, -, hreads, -⟩ := hstation j hj
    exact hreads
  · intro j hj
    obtain ⟨c, -, -, -, -, hwrites, -⟩ := hstation j hj
    exact hwrites
  · exact fun j => (length_streamAfter ..).trans_lt h.numbers
  · obtain ⟨c, hi, -⟩ := hstation j hj
    exact hi
  · obtain ⟨c, -, hc, hworks, -, -, himplements⟩ := hstation j hj
    exact ⟨c, hc, hworks, himplements⟩

namespace Follows

variable {way : List Nat} {L : Line Component} {A : Nat → Count} {inst : Instance Component} {d : Declared Component}

section

variable (h : Follows b way ws L A)

include h

theorem given (hj : j ≤ L.last) : (A j).given = 0 := by
  obtain ⟨c, -, -, himplements⟩ := h.implements hj
  exact himplements.given

theorem taken (hj : j < L.last) : (A (j + 1)).taken = 0 := by
  obtain ⟨c, -, -, himplements⟩ := h.implements (Nat.succ_le_of_lt hj)
  exact himplements.taken ((L.reads (Nat.succ_le_of_lt hj)).trans (decide_eq_true (Nat.succ_pos j)))

theorem stands (hl : b.WellLinked) (hjoins : b.Joins ws) (hj : j ≤ L.last)
    (hid : inst.id = L.id j) (hd : b.instances[inst.id]? = some d) (hplaced : Placed ws d inst) :
    L.Stands (A j) j inst := by
  obtain ⟨c, hc, hworks, himplements⟩ := h.implements hj
  rw [← hid, actor?, hd] at hc
  cases hc
  have hins := hplaced.inputs.trans hworks.inputs
  have houts := hplaced.outputs.trans hworks.outputs
  have hfresh := hplaced.fresh
  refine ⟨fun hzero => ?_, fun {i} hi => ?_, fun hlast => ?_, fun hlt => ?_,
    by rw [hfresh]; exact himplements.plays, ?_⟩
  · rw [hzero] at hins
    exact length_eq_zero_iff.1 hins
  · subst hi
    obtain ⟨⟨w, e⟩, he⟩ := length_eq_one_iff.1 (hins.trans (by rw [decide_eq_true (Nat.succ_pos i)]; rfl))
    obtain ⟨wire, r, hw, htarget, hitem⟩ := hplaced.input (k := 0) (by rw [he]; rfl)
    obtain ⟨wire', hw', hcapacity, -, htargets, -⟩ := h.wire hj
    have htarget' : wire'.targets[0]? = some ⟨inst.id, 0⟩ := by rw [htargets, hid]; rfl
    obtain ⟨rfl, rfl⟩ := hjoins.target_unique hl hw hw' htarget htarget'
    cases hw.symm.trans hw'
    have hrests := (hjoins.fresh wire (mem_of_getElem? hw)).input hitem
    rw [htargets, hcapacity] at hrests
    rw [h.taken hj]
    exact ⟨e, he, hrests⟩
  · rw [hlast, decide_eq_false (lt_irrefl _)] at houts
    exact length_eq_zero_iff.1 houts
  · obtain ⟨⟨w, e⟩, he⟩ := length_eq_one_iff.1 (houts.trans (by rw [decide_eq_true hlt]; rfl))
    obtain ⟨wire, hw, hsource, rfl⟩ := hplaced.output (k := 0) (by rw [he]; rfl)
    obtain ⟨wire', hw', hcapacity, hsource', htargets, -⟩ := h.wire hlt
    obtain rfl := hjoins.source_unique hw hw' (by rw [hsource, hsource', hid])
    cases hw.symm.trans hw'
    have hrests := (hjoins.fresh wire (mem_of_getElem? hw)).output
    rw [htargets, hcapacity] at hrests
    rw [h.given hj]
    exact ⟨_, he, hrests⟩
  · rw [hfresh]
    exact fun hterm => by cases hterm

theorem holds (hway : way.Perm (range b.instances.length)) (hlast : way.length = L.last + 1)
    (hl : b.WellLinked) (hjoins : b.Joins ws) (hbuilt : b.Built ws n) : L.Holds A n.wires n.instances := by
  refine ⟨fun hj => ?_, fun inst hinst => ?_, fun hj => ?_, hbuilt.ids.nodup_iff.2 nodup_range⟩
  · obtain ⟨wire, hw, hcapacity, -, htargets, hsize⟩ := h.wire hj
    have htracks := (hjoins.fresh wire (mem_of_getElem? hw)).tracks
    rw [htargets] at htracks
    refine ⟨wire.connection, by rw [hbuilt.wires, getElem?_map, hw]; rfl, hsize, hcapacity, ?_⟩
    rw [h.given hj.le, h.taken hj]
    exact htracks
  · obtain ⟨d, hd, hplaced⟩ := hbuilt.placed inst hinst
    obtain ⟨j, hplace⟩ := getElem?_of_mem (hway.mem_iff.2 (mem_range.2 (lt_of_getElem? hd)))
    have hj : j ≤ L.last := by
      have hlt := lt_of_getElem? hplace
      omega
    have hid : inst.id = L.id j := Option.some.inj (hplace.symm.trans (h.place hj))
    exact ⟨j, hj, hid, h.stands hl hjoins hj hid hd hplaced⟩
  · have hmem := hbuilt.ids.mem_iff.2 (hway.mem_iff.1 (mem_of_getElem? (h.place hj)))
    obtain ⟨inst, hinst, hid⟩ := mem_map.1 hmem
    exact ⟨inst, hinst, hid⟩

end

end Follows

/-- at rest, the source has terminated and the sink holds everything -/
theorem delivered (h : b.CountedChain first s middle last) {L : Line Component} {A A' : Nat → Count}
    (hfollows : Follows b (first :: (middle ++ [last])) ws L A) (hlast : L.last = middle.length + 1)
    (hstream : L.stream = b.streamAfter s middle) (hholds : L.Holds A' n.wires n.instances)
    (hrests : L.Rests A' n.instances) : (Overlap.start n).terminated? first = some true ∧
      (Overlap.start n).tokens? last = some (s.feed.numbers.map
        fun x => (middle.filterMap b.factor?).foldl (· * ·) x) := by
  have hfirst : L.id 0 = first := Option.some.inj ((hfollows.place (Nat.zero_le _)).symm.trans rfl)
  have hfinal : L.id L.last = last := by
    refine Option.some.inj ((hfollows.place le_rfl).symm.trans ?_)
    rw [hlast]
    simp
  obtain ⟨htaken, hterminated⟩ := hholds.delivered hrests
  refine ⟨?_, ?_⟩
  · obtain ⟨inst, hinst, hid, hworker, -⟩ := hholds.exists_worker (Nat.zero_le _)
    rw [← hfirst, Overlap.terminated?, hworker]
    exact congrArg some (hterminated inst hinst hid)
  · obtain ⟨inst, -, -, hworker, hstands⟩ := hholds.exists_worker le_rfl
    obtain ⟨c, hc, -, himplements⟩ := hfollows.implements le_rfl
    obtain ⟨t, ht, -⟩ := h.sink
    rw [hfinal, ht] at hc
    cases hc
    have htokens := himplements.tokens hstands.plays
    rw [htaken, hlast, hstream, incoming, length_streamAfter, take_of_length_le (length_streamAfter ..).le, streamAfter,
      take_length] at htokens
    rw [← hfinal, Overlap.tokens?, hworker]
    exact htokens

end CountedChain

end Builder

/-- sinks that differ in their counters hold the same tokens -/
theorem Shipped.tokens_of_uncounted {x y : Shipped (Accelerator StockKernel)} (h : x.uncounted = y.uncounted) :
    (Component.ofShipped x).sink?.map (·.tokens.toList) = (Component.ofShipped y).sink?.map (·.tokens.toList) := by
  rcases eq_or_sink_of_uncounted h with rfl | ⟨s, blocks, rfl, rfl⟩
  · rfl
  · rfl

/-- networks that are alike tell the same of what sinks hold -/
theorem Network.Alike.tokens? {n m : Network Component} (h : n.Alike (Shipped.Same Component.ofShipped) m) (i : Nat) :
    (Overlap.start n).tokens? i = (Overlap.start m).tokens? i := by
  rw [Overlap.tokens?, Overlap.tokens?, Overlap.worker?_start, Overlap.worker?_start]
  have hfound := h.find? i
  generalize n.instances.find? (·.id = i) = u at hfound ⊢
  generalize m.instances.find? (·.id = i) = v at hfound ⊢
  cases hfound with
  | none => rfl
  | some hinst =>
    obtain ⟨x, y, hx, hy, hxy⟩ := hinst.actor
    have htokens := Shipped.tokens_of_uncounted hxy
    rw [← hx, ← hy] at htokens
    exact htokens

/-- **A chain delivers everything**, in order and scaled, and comes to rest. -/
theorem bridged_chain_delivers {b : Builder Component} (hmade : b.Made) {first last : Nat} {s : Source}
    {middle : List Nat} (hchain : b.Chain first s middle last) (hnumbers : s.feed.numbers.length < Word.size32)
    {mapping : Option Mapping} {n : Network Component} (hbuild : b.build mapping = .ok n) {config : RunConfig}
    (hloops : 1 ≤ config.loopMax) (hlimit : config.maxPasses = none) :
    ∃ rounds, ∀ fuel, rounds ≤ fuel → ∃ summary, (n.runInline config fuel).ended = .finished summary ∧
      summary.outcome = .quiescent ∧
      (Overlap.start (n.runInline config fuel).network).terminated? first = some true ∧
      (Overlap.start (n.runInline config fuel).network).tokens? last =
        some (s.feed.numbers.map fun x => (middle.filterMap b.factor?).foldl (· * ·) x) := by
  replace hchain : b.CountedChain first s middle last := ⟨hchain, hnumbers⟩
  have hl := hmade.wellLinked
  obtain ⟨ws, hws, hbuilt⟩ := Builder.built_of_build hbuild
  obtain ⟨L, A, hlast, hstream, hfollows⟩ := hchain.exists_line hl hws hbuilt
  have hstart := hfollows.holds hchain.once (by simp [hlast]) hl (Builder.joins_of_wires hl hws) hbuilt
  refine ⟨L.left A + 1, fun fuel hfuel => ?_⟩
  have hfit : ∀ inst ∈ n.instances, Component.hosts_ofShipped.patience.fit inst.actor := by
    intro inst hinst
    obtain ⟨d, hd, hplaced⟩ := hbuilt.placed inst hinst
    obtain ⟨j, hworks⟩ := hchain.exists_place hd
    obtain ⟨x, hx, hnew⟩ := hworks.shipped
    rw [hplaced.fresh]
    exact ⟨x, hx, hnew.fit⟩
  have halike :=
    Network.runEager_alike Component.hosts_ofShipped.patience Component.throughPorts hmade hbuild hfit hloops fuel
  obtain ⟨A', summary', hended, houtcome, hholds, hrests⟩ :=
    (L.settling (by omega) hloops).runEager hlimit hstart (Nat.lt_of_succ_le hfuel)
  obtain ⟨summary, hfinished, hsame⟩ := halike.finished hended
  obtain ⟨hsource, hsink⟩ := hchain.delivered hfollows hlast hstream hholds hrests
  exact ⟨summary, hfinished, hsame.trans houtcome, (halike.network.terminated? first).trans hsource,
    (halike.network.tokens? last).trans hsink⟩

/-! ## An instance -/

/-- three numbers, tripled, sent through an echo bridge and doubled, over connections of one slot; declared from the
sink on, with a partition of its own for the bridge -/
def mill : Builder Component where
  instances := [⟨"all", .sink {}, none⟩, ⟨"twice", .scale ⟨2⟩, none⟩, ⟨"echo", .bridge relayBridge, some "apart"⟩,
    ⟨"thrice", .scale ⟨3⟩, none⟩, ⟨"numbers", .source { feed := .values #[1, 2000000000, -3] }, none⟩]
  links := [⟨⟨1, 0⟩, ⟨0, 0⟩, some 1⟩, ⟨⟨2, 0⟩, ⟨1, 0⟩, some 1⟩, ⟨⟨3, 0⟩, ⟨2, 0⟩, some 1⟩, ⟨⟨4, 0⟩, ⟨3, 0⟩, some 1⟩]

theorem mill_made : mill.Made := Builder.made_of_again (b := mill) rfl

theorem mill_chain : mill.Chain 4 { feed := .values #[1, 2000000000, -3] } [3, 2, 1] 0 where
  once := by decide
  links := by decide
  source := rfl
  start := rfl
  relays := by
    have hcreate : Bridge.create "echo" (Accelerator.create (.echo 1) .immediate) [⟨"in", 4, 2⟩]
      [⟨"out", 4, 2⟩] = .ok relayBridge :=
      eq_ok_of_toOption (Option.some_get _).symm
    have hecho := Component.Relays.echo le_rfl hcreate rfl rfl (by decide) (by decide)
    simp only [mem_cons, not_mem_nil, or_false]
    rintro i (rfl | rfl | rfl)
    · exact ⟨_, rfl, .scale _⟩
    · exact ⟨_, rfl, hecho⟩
    · exact ⟨_, rfl, .scale _⟩
  sink := ⟨_, rfl, rfl, rfl⟩

/-- the network, placed by its hint -/
def millNetwork : Network Component := (mill.build none).toOption.getD ⟨[], [], []⟩

/-- with one firing per call, the sink comes to hold all three numbers; one of the products is too large for 32 bits -/
theorem bridged_chain_delivers_mill : ∃ rounds, ∀ fuel, rounds ≤ fuel → ∃ summary,
    (millNetwork.runInline { loopMax := 1 } fuel).ended = .finished summary ∧ summary.outcome = .quiescent ∧
    (Overlap.start (millNetwork.runInline { loopMax := 1 } fuel).network).terminated? 4 = some true ∧
    (Overlap.start (millNetwork.runInline { loopMax := 1 } fuel).network).tokens? 0 = some [6, -884901888, -18] := by
  have hbuild : mill.build none = .ok millNetwork := rfl
  have hloops : 1 ≤ ({ loopMax := 1 } : RunConfig).loopMax := le_rfl
  exact bridged_chain_delivers mill_made mill_chain (by decide) hbuild hloops rfl

/-! ## Beyond words -/

/-- more numbers than a word counts, so that there is always one to be sent -/
structure Source.Overlong (x : Source) : Prop where
  numbers : Word.size32 ≤ x.feed.numbers.length
  emitted : x.emitted < Word.size32

theorem Source.Overlong.next? {x : Source} (h : x.Overlong) : x.next? ≠ none := by
  rw [Source.next?_eq, ne_eq, getElem?_eq_none_iff, Nat.not_le]
  exact h.emitted.trans_le h.numbers

/-- such a source never says that it is done: the count of what it has sent overflows before -/
theorem Source.Overlong.act {x : Source} {n : Nat} {ports : Ports} {exit : Exit} (h : x.Overlong)
    (hexit : (x.act n ports).exit = .ok exit) : exit ≠ .terminate ∧ (x.act n ports).actor.Overlong := by
  fun_induction Source.act n x ports with
  | case1 x ports =>
    rw [if_neg (by simpa using h.next?)] at hexit
    cases hexit
    exact ⟨Exit.noConfusion, h⟩
  | case2 n x ports hnone => exact absurd hnone h.next?
  | case3 | case5 | case6 => cases hexit
  | case4 =>
    cases hexit
    exact ⟨Exit.noConfusion, h⟩
  | case7 n x ports value _ _ _ _ emitted hadd ih =>
    refine ih ⟨h.numbers, ?_⟩ hexit
    unfold Word.add32 at hadd
    split at hadd
    · next hlt => exact Except.ok.inj hadd ▸ hlt
    · cases hadd

/-- an instance that has not terminated, and will not -/
def Instance.Endless (inst : Instance Component) : Prop :=
  inst.terminated = false ∧ ∃ x : Source, inst.actor = .source x ∧ x.Overlong

theorem Instance.Endless.attempt {inst inst' : Instance Component} {wires wires' : List Connection} {maxLoops : Nat}
    {answer : Attempt} (h : inst.Endless)
    (hattempt : inst.attempt wires maxLoops = (wires', inst', .ok answer)) : inst'.Endless := by
  obtain ⟨hterm, x, hactor, hx⟩ := h
  cases tries_of_attempt hattempt with
  | ended | waits => exact ⟨hterm, x, hactor, hx⟩
  | @calls ports turn exit _ _ _ hturn hexit =>
    have hact : turn = (x.act maxLoops ports).map .source := by rw [hturn, hactor]; rfl
    rw [hact] at hexit
    obtain ⟨hgoes, hx'⟩ := hx.act hexit
    exact ⟨by simp [closePorts, book, hterm, hgoes], _, by rw [hact]; rfl, hx'⟩

/-- whatever runs are made of a network, a source with too many numbers does not terminate -/
theorem Builder.source_runs_on {b : Builder Component} {mapping : Option Mapping} {n m : Network Component}
    {first : Nat} {s : Source} {configs : List RunConfig} {records : List FiringRecord} {summaries : List RunSummary}
    (hbuild : b.build mapping = .ok n) (hsource : b.actor? first = some (.source s)) (hs : s.Overlong)
    (hruns : n.Runs configs m records summaries) : (Overlap.start m).terminated? first ≠ some true := by
  obtain ⟨ws, -, hbuilt⟩ := built_of_build hbuild
  have hendless := Network.Logs.runs (Q := fun _ insts _ => ∀ inst ∈ insts, inst.id = first → inst.Endless)
    (fun config _ wires wires' before after inst inst' records answer hQ hattempt name => ?_) hruns
    fun inst hinst hid => ?_
  · rw [Overlap.terminated?, Overlap.worker?_start]
    cases hfind : m.instances.find? (·.id = first) with
    | none => exact fun h => by cases h
    | some inst =>
      have hid : inst.id = first := by simpa using find?_some hfind
      simp [(hendless inst (mem_of_find?_eq_some hfind) hid).1]
  · simp only [forall_mem_append, forall_mem_cons] at hQ ⊢
    have hid := (Instance.attempt_counts hattempt).1
    exact ⟨hQ.1, fun hfirst => (hQ.2.1 (hid.symm.trans hfirst)).attempt hattempt, hQ.2.2⟩
  · obtain ⟨d, hd, hplaced⟩ := hbuilt.placed inst hinst
    rw [hid] at hd
    rw [actor?, hd] at hsource
    rw [hplaced.fresh]
    exact ⟨rfl, s, Option.some.inj hsource, hs⟩

/-- a source and a sink -/
def shortest (s : Source) (depth : Nat) : Builder Component where
  instances := [⟨"numbers", .source s, none⟩, ⟨"all", .sink {}, none⟩]
  links := [⟨⟨0, 0⟩, ⟨1, 0⟩, some depth⟩]

theorem shortest_chain {s : Source} {depth : Nat} (hs : s.emitted = 0) : (shortest s depth).Chain 0 s [] 1 where
  once := .refl _
  links := by simp [shortest]
  source := rfl
  start := hs
  relays := by simp
  sink := ⟨_, rfl, rfl, rfl⟩

theorem shortest_made (s : Source) (depth : Nat) :
    (shortest s depth).Made := Builder.made_of_again (b := shortest s depth) rfl

theorem Source.exists_length (k : Nat) : ∃ s : Source, s.emitted = 0 ∧ s.feed.numbers.length = k :=
  ⟨{ feed := .values (Array.replicate k 7) }, rfl, by simp [Feed.numbers]⟩

/-- Two chains that do not deliver. A depth above 2 ^ 31 is refused when the network is built. And a source of 2 ^ 32
numbers does not terminate in any run that comes to an end, since it counts what it has sent in a word. -/
theorem chain_with_large_depth_or_overlong_source :
    (∃ s : Source, s.feed.numbers = [1, 2, 3] ∧ (shortest s (2 ^ 31 + 1)).Made ∧
      (shortest s (2 ^ 31 + 1)).Chain 0 s [] 1 ∧
      (shortest s (2 ^ 31 + 1)).build none = .error (.error (.channel (.invalidCapacity (2 ^ 32) 1)))) ∧
    ∃ s : Source, s.feed.numbers.length = 2 ^ 32 ∧ (shortest s 1).Made ∧ (shortest s 1).Chain 0 s [] 1 ∧
      ∃ n, (shortest s 1).build none = .ok n ∧ ∀ config fuel summary,
      (n.runInline config fuel).ended = .finished summary →
        (Overlap.start (n.runInline config fuel).network).terminated? 0 ≠ some true := by
  refine ⟨⟨{ feed := .values #[1, 2, 3] }, rfl, shortest_made _ _, shortest_chain rfl, ?_⟩, ?_⟩
  · rfl
  · obtain ⟨s, hstart, hlength⟩ := Source.exists_length (2 ^ 32)
    obtain ⟨n, hbuild⟩ : ∃ n, (shortest s 1).build none = .ok n := ⟨_, rfl⟩
    have hlong : s.Overlong := ⟨hlength.ge, hstart ▸ (by decide : 0 < Word.size32)⟩
    exact ⟨s, hlength, shortest_made s 1, shortest_chain hstart, n, hbuild, fun config fuel summary hended =>
      Builder.source_runs_on hbuild rfl hlong (Network.Runs.none.more config fuel hended)⟩

end Dataflow
