import Dataflow.Proofs.PlanState

/-!
Calls of stock actors by a plan: after any call the actor, its ports and the connections are again as the counts have
them (`Plan.Engaged.call`).
-/

namespace Dataflow

open List

namespace Plan

variable {P : Plan} {A A' : Counts} {i : Nat} {L : Lane} {wires : List Connection} {ports : Ports} {xs : List Int32}
  {t : Nat} {x : Int32} {v : Attached PortView}

/-! ## Tokens of a stream -/

theorem bytesOf_drop (xs : List Int32) (t : Nat) : (bytesOf xs).drop (t * 4) = bytesOf (xs.drop t) := by
  induction t generalizing xs with
  | zero => simp
  | succ t ih =>
    cases xs with
    | nil => simp [bytesOf]
    | cons x xs =>
      have hx : (Primitive.int32.encode x).length = 4 := Primitive.int32.length_encode x
      rw [drop_succ_cons, ← ih, bytesOf, flatMap_cons, drop_append, hx,
        show (t + 1) * 4 = 4 + t * 4 by omega, Nat.add_sub_cancel_left, drop_of_length_le (by omega), nil_append,
        ← bytesOf]

theorem length_bytesOf (xs : List Int32) : (bytesOf xs).length = xs.length * 4 := by
  induction xs with
  | nil => rfl
  | cons x xs ih =>
    have hx : (Primitive.int32.encode x).length = 4 := Primitive.int32.length_encode x
    rw [bytesOf, flatMap_cons, length_append, ← bytesOf, ih, hx, length_cons]
    omega

theorem bytesOf_take (xs : List Int32) (t : Nat) : (bytesOf xs).take (t * 4) = bytesOf (xs.take t) := by
  rcases le_or_gt xs.length t with h | h
  · rw [take_of_length_le h, take_of_length_le (by rw [length_bytesOf]; omega)]
  · have hsplit : bytesOf xs = bytesOf (xs.take t) ++ bytesOf (xs.drop t) := by
      rw [bytesOf, bytesOf, bytesOf, ← flatMap_append, take_append_drop]
    rw [hsplit, take_left' (by rw [length_bytesOf, length_take, min_eq_left h.le])]

theorem bytesOf_take_succ (hx : xs[t]? = some x) :
    bytesOf (xs.take (t + 1)) = bytesOf (xs.take t) ++ Primitive.int32.encode x := by
  rw [take_add_one, hx, bytesOf, flatMap_append]
  simp [bytesOf]

theorem token_bytesOf {l : Ledger} (hstream : l.stream = bytesOf xs) (hx : xs[t]? = some x) :
    l.token 4 t = Primitive.int32.encode x := by
  obtain ⟨hlt, heq⟩ := List.getElem?_eq_some_iff.1 hx
  have hlen : (Primitive.int32.encode x).length = 4 := Primitive.int32.length_encode x
  rw [Ledger.token, hstream, bytesOf_drop, drop_eq_getElem_cons hlt, heq, bytesOf, flatMap_cons,
    take_append_of_le_length hlen.ge, take_of_length_le hlen.le]

/-- the tokens of a connection are those of its writer's stream -/
theorem ledger_token (P : Plan) (A : Counts) (hx : (P.stream L.writer)[t]? = some x)
    (ht : t < (A L.writer).fired) : (P.ledger A L).token 4 t = Primitive.int32.encode x := by
  have hstream : (P.ledger A L).stream = bytesOf ((P.stream L.writer).take (A L.writer).fired) := rfl
  exact token_bytesOf hstream (by rw [getElem?_take_of_lt ht, hx])

/-! ## One firing -/

/-- a firing takes the next token of the stream that it reads -/
theorem InputOpen.take {e : Attached InputEnd} (h : P.InputOpen A i e v) (hlive : P.Live A ports.wires)
    (hports : ports.inputs = [v]) (havail : 0 < v.item.available) :
    ∃ L v' x, L ∈ P.lanes ∧ i ∈ L.readers ∧ (P.stream L.writer)[(A i).fired]? = some x ∧
      ports.read 0 .int32 = .ok (x, { ports with inputs := [v'] }) ∧ P.InputOpen (Counts.fire A i) i e v' := by
  obtain ⟨L, hL, hreader, hwire, hreads, hmoved⟩ := h
  obtain ⟨c, hc⟩ := hlive.wire hL
  have ht := hlive.tracks hc hL
  have hcap := hlive.capacity hc hL
  have hdraws : ports.Draws 0 e.item (A i).released e.wire c v.item (P.ledger A L) :=
    ⟨by rw [hports, ← hwire]; rfl, hc, ht, hcap ▸ hreads⟩
  have hsize : Primitive.int32.size = c.tokenSize := (hlive.size c (mem_of_getElem? hc)).symm
  obtain ⟨v', hread, hmoved', hdraws'⟩ := hdraws.read hsize havail
  have hlt : (A i).fired < (A L.writer).fired := by
    have h1 := hreads.published
    have h2 := hreads.available_le
    have h3 := ht.published_le
    simp only [ledger] at h1 h3
    simp only [PortView.moved] at hmoved
    omega
  have hx := getElem?_eq_getElem (lt_of_lt_of_le hlt (hlive.within L.writer))
  rw [hmoved, ← hsize, show Primitive.int32.size = 4 from rfl, P.ledger_token A hx hlt,
    Primitive.ofToken_encode, hports] at hread
  refine ⟨L, ⟨e.wire, v'⟩, _, mem_of_getElem? hL, mem_of_getElem? hreader, hx, hread, L, hL, hreader, rfl, ?_, ?_⟩
  · have hr := hdraws'.reads
    rw [hcap] at hr
    rw [Counts.fire_released]
    refine ⟨by rw [P.ledger_released _ hreader, Counts.fire_released], hr.consumed, hr.cursor, hr.available_le, ?_⟩
    simpa [ledger] using hr.published
  · rw [Counts.fire_released, Counts.fire_fired_self, hmoved', ← hmoved, Nat.add_assoc]

theorem ledger_fire_other (P : Plan) (A : Counts) (hne : L.writer ≠ i) :
    P.ledger (Counts.fire A i) L = P.ledger A L := by
  have hwriter : Counts.fire A i L.writer = A L.writer := by simp [Counts.fire, hne]
  simp [ledger, hwriter]

/-- a firing appends the next token of the stream -/
theorem ledger_fire (P : Plan) (A : Counts) (hx : (P.stream L.writer)[(A L.writer).fired]? = some x) :
    P.ledger (Counts.fire A L.writer) L = (P.ledger A L).write 1 (Primitive.int32.encode x) := by
  simp only [ledger, Ledger.write, Counts.fire_fired_self, Counts.fire_published, Counts.fire_released]
  rw [bytesOf_take_succ hx]

theorem within_fire (hwithin : ∀ j, (A j).fired ≤ (P.stream j).length) (hx : (P.stream i)[(A i).fired]? = some x)
    (j : Nat) : (Counts.fire A i j).fired ≤ (P.stream j).length := by
  by_cases hj : j = i
  · subst hj
    rw [Counts.fire_fired_self]
    exact lt_of_getElem? hx
  · rw [(Counts.later_fire A i).others j hj]
    exact hwithin j

/-- a firing of an instance that has no output changes no connection -/
theorem Live.fire_unwritten (h : P.Live A wires) (hi : ∀ L ∈ P.lanes, L.writer ≠ i)
    (hx : (P.stream i)[(A i).fired]? = some x) : P.Live (Counts.fire A i) wires := by
  refine ⟨h.count, fun {w c L} hc hL => ?_, h.capacity, h.size, within_fire h.within hx⟩
  rw [P.ledger_fire_other A (hi L (mem_of_getElem? hL))]
  exact h.tracks hc hL

/-- one connection has changed, together with its own ledger only -/
theorem Live.set {w : Nat} {c c' : Connection} (h : P.Live A wires) (hL : P.lanes[w]? = some L)
    (hc : wires[w]? = some c) (ht : c'.Tracks (P.ledger A' L)) (hcap : c'.capacity = c.capacity)
    (hsize : c'.tokenSize = c.tokenSize)
    (hother : ∀ {w' L'}, w' ≠ w → P.lanes[w']? = some L' → P.ledger A' L' = P.ledger A L')
    (hwithin : ∀ j, (A' j).fired ≤ (P.stream j).length) : P.Live A' (wires.set w c') := by
  refine ⟨by rw [length_set, h.count], fun hc1 hL1 => ?_, fun hc1 hL1 => ?_, fun c1 hc1 => ?_, hwithin⟩
  · rcases getElem?_set_cases hc1 with ⟨rfl, rfl⟩ | ⟨hne, hc1⟩
    · rw [hL] at hL1
      cases hL1
      exact ht
    · rw [hother hne hL1]
      exact h.tracks hc1 hL1
  · rcases getElem?_set_cases hc1 with ⟨rfl, rfl⟩ | ⟨hne, hc1⟩
    · rw [hcap]
      exact h.capacity hc hL1
    · exact h.capacity hc1 hL1
  · rcases mem_or_eq_of_mem_set hc1 with hmem | rfl
    · exact h.size c1 hmem
    · rw [hsize]
      exact h.size c (mem_of_getElem? hc)

/-- a firing adds the next token of its own stream -/
theorem OutputOpen.put {e : Attached OutputEnd} (h : P.OutputOpen A i e v)
    (hlive : P.Live A ports.wires) (hports : ports.outputs = [v]) (havail : 0 < v.item.available)
    (hx : (P.stream i)[(A i).fired]? = some x) :
    ∃ wires v', ports.write 0 .int32 x = .ok { ports with wires, outputs := [v'] } ∧
      P.Live (Counts.fire A i) wires ∧ P.OutputOpen (Counts.fire A i) i e v' := by
  obtain ⟨L, hL, rfl, hwire, hwrites⟩ := h
  obtain ⟨c, hc⟩ := hlive.wire hL
  have ht := hlive.tracks hc hL
  have hcap := hlive.capacity hc hL
  have hfills : ports.Fills 0 e.item e.wire c v.item (P.ledger A L) :=
    ⟨by rw [hports, ← hwire]; rfl, hc, ht, hcap ▸ hwrites⟩
  have hsize : Primitive.int32.size = c.tokenSize := (hlive.size c (mem_of_getElem? hc)).symm
  obtain ⟨storage, v', hwrite, hfills'⟩ := hfills.write hsize havail x
  rw [hports] at hwrite
  rw [← P.ledger_fire A hx] at hfills'
  refine ⟨_, ⟨e.wire, v'⟩, hwrite, hlive.set hL hc hfills'.tracks rfl rfl (fun hne hL' => ?_)
    (within_fire hlive.within hx), L, hL, rfl, rfl, hcap ▸ hfills'.writes⟩
  exact P.ledger_fire_other A fun heq => hne (P.writer_unique hL' hL heq)

/-! ## Calls -/

/-- what a call of a stock actor leaves behind -/
structure Acted (P : Plan) (A : Counts) (inst : Instance Component) (ports : Ports) (turn : Turn Component)
    (A' : Counts) : Prop where
  later : Counts.Later A A' inst.id
  live : P.Live A' turn.ports.wires
  engaged : P.Engaged A' inst turn.actor turn.ports
  ended : ∃ exit, turn.exit = .ok exit ∧ P.Ended inst.id (A' inst.id).fired turn.ports exit
  grows : ports.actions.size ≤ turn.ports.actions.size
  /-- a call that fires nothing moves nothing -/
  quiet : turn.ports.actions.size = ports.actions.size → turn.ports = ports ∧ A' = A

variable {inst : Instance Component} {actor : Component} {exit : Exit} {turn : Turn Component} {ports' : Ports}
  {role : Role} {fired : Nat} {s : Sink}

theorem Engaged.stop (h : P.Engaged A inst actor ports) (hlive : P.Live A ports.wires)
    (hended : P.Ended inst.id (A inst.id).fired ports exit) : P.Acted A inst ports ⟨actor, ports, .ok exit⟩ A :=
  ⟨.refl A _, hlive, h, ⟨exit, rfl, hended⟩, le_rfl, fun _ => ⟨rfl, rfl⟩⟩

/-- a call that goes on after a firing -/
theorem Acted.after (h : P.Acted (Counts.fire A inst.id) inst ports' turn A')
    (hfired : ports'.actions.size = ports.actions.size + 1) : P.Acted A inst ports turn A' := by
  have hgrows := h.grows
  exact ⟨(Counts.later_fire A _).trans h.later, h.live, h.engaged, h.ended, by omega, fun hsame => by omega⟩

theorem hasRoom_eq (h : ports.outputs = [v]) : ports.hasRoom 0 1 = .ok (decide (1 ≤ v.item.available)) := by
  simp [Ports.hasRoom, Ports.availableOut, h, fetch]

theorem hasInput_eq (h : ports.inputs = [v]) : ports.hasInput 0 1 = .ok (decide (1 ≤ v.item.available)) := by
  simp [Ports.hasInput, Ports.availableIn, h, fetch]

theorem left_output (h : ports.outputs = [v]) : ports.left (.output 0) = v.item.available := by
  simp [Ports.left, h]

theorem left_input (h : ports.inputs = [v]) : ports.left (.input 0) = v.item.available := by
  simp [Ports.left, h]

section

variable (h : P.Engaged A inst actor ports)

include h

/-- an instance that has fired once more -/
theorem Engaged.fire {actor' : Component} {k : Nat} (hplays : P.Plays inst.id ((A inst.id).fired + 1) actor')
    (hins : List.Forall₂ (P.InputOpen (Counts.fire A inst.id) inst.id) inst.inputs ports'.inputs)
    (houts : List.Forall₂ (P.OutputOpen (Counts.fire A inst.id) inst.id) inst.outputs ports'.outputs)
    (hactions : ports'.actions = ports.actions) : P.Engaged (Counts.fire A inst.id) inst actor' (ports'.fire k) := by
  have h1 := h.released
  have h2 := h.published
  have h3 := h.firings
  refine ⟨by simpa using hplays, h.ends, hins, houts, ?_, ?_, ?_, h.active⟩
  · simp only [Counts.fire_released, Counts.fire_fired_self]; omega
  · simp only [Counts.fire_published, Counts.fire_fired_self]; omega
  · simp only [Ports.fire, hactions, Array.size_push, Counts.fire_fired_self]; omega

theorem Engaged.no_input (hrole : P.roles[inst.id]? = some role)
    (hreads : role.reads = false) : inst.inputs = [] ∧ ports.inputs = [] := by
  have hlen := (h.ends.lengths hrole).1
  have hsame := h.inputs.length_eq
  rw [hreads] at hlen
  exact ⟨eq_nil_of_length_eq_zero hlen, eq_nil_of_length_eq_zero (hsame ▸ hlen)⟩

theorem Engaged.no_output (hrole : P.roles[inst.id]? = some role)
    (hwrites : role.writes = false) : inst.outputs = [] ∧ ports.outputs = [] := by
  have hlen := (h.ends.lengths hrole).2
  have hsame := h.outputs.length_eq
  rw [hwrites] at hlen
  exact ⟨eq_nil_of_length_eq_zero hlen, eq_nil_of_length_eq_zero (hsame ▸ hlen)⟩

end

theorem finished_source_iff {numbers : List Int32} (h : P.roles[i]? = some (.source numbers)) :
    P.Finished i fired ↔ numbers.length ≤ fired := by
  simp [Finished, h]

theorem finished_sink_iff {limit : Option Nat} (h : P.roles[i]? = some (.sink limit)) :
    P.Finished i fired ↔ limit.any (· ≤ fired) = true := by
  cases limit <;> simp [Finished, h]

theorem source_acts (n : Nat) {s : Source} (hlive : P.Live A ports.wires) (h : P.Engaged A inst (.source s) ports) :
    ∃ A', P.Acted A inst ports ((s.act n ports).map .source) A' := by
  induction n generalizing s ports A with
  | zero =>
    refine ⟨A, h.stop hlive ?_⟩
    cases h.plays with
    | source role emitted =>
      cases hnext : s.next? with
      | none =>
        rw [Source.next?_eq, getElem?_eq_none_iff, emitted] at hnext
        exact (finished_source_iff role).2 hnext
      | some x => trivial
  | succ n ih =>
    cases h.plays with
    | source role emitted =>
      obtain ⟨hstream, hlen⟩ := P.stream_source role
      obtain ⟨e, v, he, hv, hout⟩ := h.output role rfl
      obtain ⟨hnoInst, hnoPorts⟩ := h.no_input role rfl
      unfold Source.act
      cases hnext : s.next? with
      | none =>
        rw [Source.next?_eq, getElem?_eq_none_iff, emitted] at hnext
        exact ⟨A, h.stop hlive ((finished_source_iff role).2 hnext)⟩
      | some x =>
        rw [Source.next?_eq] at hnext
        have hlt := lt_of_getElem? hnext
        rw [emitted] at hnext
        by_cases hroom : 1 ≤ v.item.available
        · obtain ⟨wires, v', hwrite, hlive', hout'⟩ := hout.put hlive hv hroom (hstream ▸ hnext)
          have hemit : Word.add32 s.emitted 1 = .ok (s.emitted + 1) := by
            unfold Word.add32
            rw [if_pos (by omega)]
          have hfired : P.Engaged (Counts.fire A inst.id) inst (.source { s with emitted := s.emitted + 1 })
              (Ports.fire { ports with wires, outputs := [v'] } 0) :=
            h.fire (.source role (by rw [emitted])) (by simp [hnoInst, hnoPorts])
              (by rw [he]; exact .cons hout' .nil) rfl
          obtain ⟨A', hA'⟩ := ih hlive' hfired
          refine ⟨A', ?_⟩
          simpa only [hasRoom_eq hv, hroom, decide_true, hwrite, hemit] using hA'.after (by simp [Ports.fire])
        · refine ⟨A, ?_⟩
          simp only [hasRoom_eq hv, hroom, decide_false]
          refine h.stop hlive ⟨.output 0, rfl, ?_, ⟨rfl, _, role, rfl⟩, ?_⟩
          · rw [left_output hv]
            omega
          · rw [finished_source_iff role]
            omega

/-- a sink holds as many tokens as it has fired -/
theorem full_iff (role : P.roles[i]? = some (.sink s.limit)) (tokens : s.tokens.toList = (P.stream i).take (A i).fired)
    (hwithin : (A i).fired ≤ (P.stream i).length) : s.full = true ↔ P.Finished i (A i).fired := by
  have hsize : s.tokens.size = (A i).fired := by
    rw [← Array.length_toList, tokens, length_take, min_eq_left hwithin]
  rw [finished_sink_iff role, Sink.full, hsize]

theorem sink_acts (n : Nat) (hlive : P.Live A ports.wires) (h : P.Engaged A inst (.sink s) ports) :
    ∃ A', P.Acted A inst ports ((s.act n ports).map .sink) A' := by
  induction n generalizing s ports A with
  | zero => exact ⟨A, h.stop hlive trivial⟩
  | succ n ih =>
    cases h.plays with
    | sink role tokens limit =>
      obtain ⟨e, v, he, hv, hin⟩ := h.input role rfl
      obtain ⟨hnoInst, hnoPorts⟩ := h.no_output role rfl
      have hfull := full_iff role tokens (hlive.within _)
      unfold Sink.act
      split
      · next hdone => exact ⟨A, h.stop hlive (hfull.1 hdone)⟩
      next hopen =>
      have hopen : ¬ P.Finished inst.id (A inst.id).fired := fun hdone => hopen (hfull.2 hdone)
      by_cases havail : 1 ≤ v.item.available
      · obtain ⟨L, v', x, hL, hreader, hx, hread, hin'⟩ := hin.take hlive hv havail
        -- what the sink collects is what passes through it
        rw [← show P.stream inst.id = P.stream L.writer from P.stream_reader role hL hreader] at hx
        have hunwritten : ∀ L ∈ P.lanes, L.writer ≠ inst.id := by
          intro L hL heq
          obtain ⟨role', hrole', hwrites⟩ := P.writer_role L hL
          rw [heq, role] at hrole'
          cases hrole'
          cases hwrites
        have hfired : P.Engaged (Counts.fire A inst.id) inst (.sink { s with tokens := s.tokens.push x })
            (Ports.fire { ports with inputs := [v'] } 0) := by
          refine h.fire (.sink role ?_ fun m hm => ?_) (by rw [he]; exact .cons hin' .nil)
            (by simp [hnoInst, hnoPorts]) rfl
          · rw [Array.toList_push, tokens, take_add_one, hx]
            rfl
          · by_contra hlt
            exact hopen ((finished_sink_iff role).2 (by rw [hm]; simpa using Nat.le_of_not_lt hlt))
        have hlive' : P.Live (Counts.fire A inst.id) (Ports.fire { ports with inputs := [v'] } 0).wires :=
          hlive.fire_unwritten hunwritten hx
        obtain ⟨A', hA'⟩ := ih hlive' hfired
        refine ⟨A', ?_⟩
        simpa only [hasInput_eq hv, havail, decide_true, hread] using hA'.after (by simp [Ports.fire])
      · have hwaits : P.Engaged A inst (.sink { s with blocks := s.blocks + 1 }) ports :=
          { h with plays := .sink role tokens limit }
        refine ⟨A, ?_⟩
        simp only [hasInput_eq hv, havail, decide_false]
        refine hwaits.stop hlive ⟨.input 0, rfl, ?_, ⟨rfl, _, role, rfl⟩, hopen⟩
        rw [left_input hv]
        omega

theorem scale_acts (n : Nat) {s : Scale} (hlive : P.Live A ports.wires) (h : P.Engaged A inst (.scale s) ports) :
    ∃ A', P.Acted A inst ports ((s.act n ports).map .scale) A' := by
  induction n generalizing ports A with
  | zero => exact ⟨A, h.stop hlive trivial⟩
  | succ n ih =>
    cases h.plays with
    | scale role =>
      obtain ⟨e, v, he, hv, hin⟩ := h.input role rfl
      obtain ⟨e', v', he', hv', hout⟩ := h.output role rfl
      have hopen : ¬ P.Finished inst.id (A inst.id).fired := by simp [Finished, role]
      unfold Scale.act
      by_cases havail : 1 ≤ v.item.available
      · by_cases hroom : 1 ≤ v'.item.available
        · obtain ⟨L, v1, x, hL, hreader, hx, hread, hin'⟩ := hin.take hlive hv havail
          have hx' : (P.stream inst.id)[(A inst.id).fired]? = some (x * s.factor) := by
            rw [P.stream_reader role hL hreader, Role.through, getElem?_map, hx]
            rfl
          have hlive1 : P.Live A { ports with inputs := [v1] }.wires := hlive
          obtain ⟨wires, v2, hwrite, hlive', hout'⟩ := hout.put hlive1 hv' hroom hx'
          have hfired : P.Engaged (Counts.fire A inst.id) inst (.scale s)
              (Ports.fire { ports with wires, inputs := [v1], outputs := [v2] } 0) :=
            h.fire (.scale role) (by rw [he]; exact .cons hin' .nil) (by rw [he']; exact .cons hout' .nil) rfl
          obtain ⟨A', hA'⟩ := ih hlive' hfired
          refine ⟨A', ?_⟩
          simpa only [hasInput_eq hv, havail, hasRoom_eq hv', hroom, decide_true, hread, hwrite] using
            hA'.after (by simp [Ports.fire])
        · refine ⟨A, ?_⟩
          simp only [hasInput_eq hv, havail, decide_true, hasRoom_eq hv', hroom, decide_false]
          refine h.stop hlive ⟨.output 0, rfl, ?_, ⟨rfl, _, role, rfl⟩, hopen⟩
          rw [left_output hv']
          omega
      · refine ⟨A, ?_⟩
        simp only [hasInput_eq hv, havail, decide_false]
        refine h.stop hlive ⟨.input 0, rfl, ?_, ⟨rfl, _, role, rfl⟩, hopen⟩
        rw [left_input hv]
        omega

theorem Engaged.call (h : P.Engaged A inst actor ports) (maxLoops : Nat) (hlive : P.Live A ports.wires) :
    ∃ A', P.Acted A inst ports (Behaviour.act maxLoops actor ports) A' := by
  cases hplays : h.plays with
  | source role emitted => exact source_acts maxLoops hlive h
  | scale role => exact scale_acts maxLoops hlive h
  | sink role tokens limit => exact sink_acts maxLoops hlive h

end Plan

end Dataflow
