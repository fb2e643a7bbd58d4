import Dataflow.Proofs.PlanCall

/-!
The ports of a station: a connection before it, one after it, or both.

Two counts describe its ports, open (`StationPorts.Open`) or at rest (`StationPorts.Ready`): the numbers taken so far,
and the numbers given on.
-/

namespace Dataflow

open List

open Plan (bytesOf)

/-- the history of a connection with one reader that carries the numbers `xs` -/
def Ledger.cable (xs : List Int32) (written published released : Nat) : Ledger :=
  ⟨bytesOf (xs.take written), written, published, [released]⟩

theorem Connection.Tracks.cable_le {c : Connection} {xs : List Int32} {written published released : Nat}
    (h : c.Tracks (.cable xs written published released)) (hsize : c.tokenSize = 4) : written ≤ xs.length := by
  have hlength := h.length
  rw [hsize, Ledger.cable, Plan.length_bytesOf, length_take] at hlength
  exact min_eq_left_iff.1 (Nat.eq_of_mul_eq_mul_right (by decide) hlength)

/-- the input of a station, as it was when its port was opened -/
structure Inflow where
  wire : Nat
  port : InputEnd
  connection : Connection
  size : connection.tokenSize = 4
  /-- numbers that have come -/
  sent : Nat
  /-- numbers that had been taken -/
  released : Nat

/-- the output of a station, as it was when its port was opened -/
structure Outflow where
  wire : Nat
  port : OutputEnd
  connection : Connection
  size : connection.tokenSize = 4
  /-- numbers that had been given on -/
  published : Nat
  /-- numbers that the next station has taken -/
  read : Nat

/-- the connections of a station when its ports were opened -/
structure StationPorts where
  inflow : Option Inflow
  outflow : Option Outflow
  wires : List Connection
  apart : ∀ g ∈ inflow, ∀ g' ∈ outflow, g.wire ≠ g'.wire

theorem Ports.hasInput_of_level {ports : Ports} {level : Nat} (hlevel : ports.availableIn 0 = .ok level) :
    ports.hasInput 0 1 = .ok (decide (0 < level)) := by
  rw [Ports.hasInput, hlevel]
  rfl

theorem Ports.hasRoom_of_room {ports : Ports} {room : Nat} (hroom : ports.availableOut 0 = .ok room) :
    ports.hasRoom 0 1 = .ok (decide (0 < room)) := by
  rw [Ports.hasRoom, hroom]
  rfl

namespace StationPorts

variable {S : StationPorts} {s t : List Int32} {ports : Ports} {taken given : Nat}

/-- over the open ports, so many numbers of `s` have been taken and so many of `t` given on; no other connection is
touched -/
structure Open (S : StationPorts) (s t : List Int32) (ports : Ports) (taken given : Nat) : Prop where
  drawn : ∀ g ∈ S.inflow, ∃ v, ports.Draws 0 g.port g.released g.wire g.connection v
    (.cable s g.sent g.sent g.released) ∧
    g.released + v.moved = taken
  filled : ∀ g ∈ S.outflow, ∃ storage v,
    ports.Fills 0 g.port g.wire { g.connection with storage } v (.cable t given g.published g.read)
  others : ∀ w, (∀ g ∈ S.outflow, g.wire ≠ w) → ports.wires[w]? = S.wires[w]?

section

variable (h : S.Open s t ports taken given)

include h

theorem Open.fire (action : Nat) : S.Open s t (ports.fire action) taken given := by
  refine ⟨fun g hg => ?_, fun g hg => ?_, h.others⟩
  · obtain ⟨v, hdraws, hmoved⟩ := h.drawn g hg
    exact ⟨v, { hdraws with }, hmoved⟩
  · obtain ⟨storage, v, hfills⟩ := h.filled g hg
    exact ⟨storage, v, { hfills with }⟩

/-- where nothing is given on, it does not matter how much -/
theorem Open.giveNothing (hout : S.outflow = none) (given' : Nat) : S.Open s t ports taken given' := by
  refine ⟨h.drawn, fun g hg => ?_, h.others⟩
  rw [hout] at hg
  cases hg

theorem Open.level (hin : S.inflow.isSome = true) : ∃ level, ports.availableIn 0 = .ok level := by
  obtain ⟨g, hg⟩ := Option.isSome_iff_exists.1 hin
  obtain ⟨v, hdraws, -⟩ := h.drawn g hg
  exact ⟨_, hdraws.availableIn⟩

theorem Open.room (hout : S.outflow.isSome = true) : ∃ room, ports.availableOut 0 = .ok room := by
  obtain ⟨g, hg⟩ := Option.isSome_iff_exists.1 hout
  obtain ⟨storage, v, hfills⟩ := h.filled g hg
  exact ⟨_, hfills.availableOut⟩

theorem Open.read {level : Nat} (hin : S.inflow.isSome = true) (hlevel : ports.availableIn 0 = .ok level)
    (hpos : 0 < level) :
    ∃ x ports', s[taken]? = some x ∧ ports.read 0 .int32 = .ok (x, ports') ∧ S.Open s t ports' (taken + 1) given ∧
      ports'.availableOut 0 = ports.availableOut 0 := by
  obtain ⟨g, hg⟩ := Option.isSome_iff_exists.1 hin
  obtain ⟨v, hdraws, rfl⟩ := h.drawn g hg
  cases hdraws.availableIn.symm.trans hlevel
  have hreadable : g.released + v.moved + v.available ≤ g.sent := (hdraws.tracks.readable hdraws.reads).1
  have hlt : g.released + v.moved < s.length := lt_of_lt_of_le (by omega) (hdraws.tracks.cable_le g.size)
  have hx := getElem?_eq_getElem hlt
  obtain ⟨v', hread, hmoved, hdraws'⟩ := hdraws.read (p := .int32) g.size.symm hpos
  have htake : (s.take g.sent)[g.released + v.moved]? = some s[g.released + v.moved] := by
    rw [getElem?_take_of_lt (by omega), hx]
  rw [g.size, Plan.token_bytesOf rfl htake, Primitive.ofToken_encode] at hread
  refine ⟨_, _, hx, hread, ⟨fun g' hg' => ?_, fun g' hg' => ?_, h.others⟩, rfl⟩
  · cases hg.symm.trans hg'
    exact ⟨v', hdraws', by rw [hmoved, Nat.add_assoc]⟩
  · obtain ⟨storage, v2, hfills⟩ := h.filled g' hg'
    exact ⟨storage, v2, { hfills with }⟩

theorem Open.write {room : Nat} {x : Int32} (hout : S.outflow.isSome = true)
    (hroom : ports.availableOut 0 = .ok room) (hpos : 0 < room) (hx : t[given]? = some x) :
    ∃ ports', ports.write 0 .int32 x = .ok ports' ∧ S.Open s t ports' taken (given + 1) := by
  obtain ⟨g, hg⟩ := Option.isSome_iff_exists.1 hout
  obtain ⟨storage, v, hfills⟩ := h.filled g hg
  cases hfills.availableOut.symm.trans hroom
  obtain ⟨storage', v', hwrite, hfills'⟩ := hfills.write (p := .int32) g.size.symm hpos x
  have hledger : (Ledger.cable t given g.published g.read).write 1 (Primitive.int32.encode x) =
      .cable t (given + 1) g.published g.read := by
    rw [Ledger.write, Ledger.cable, ← Plan.bytesOf_take_succ hx]
    rfl
  rw [hledger] at hfills'
  refine ⟨_, hwrite, fun g' hg' => ?_, fun g' hg' => ?_, fun w hw => ?_⟩
  · obtain ⟨v2, hdraws, hmoved⟩ := h.drawn g' hg'
    refine ⟨v2, ⟨hdraws.port, ?_, hdraws.tracks, hdraws.reads⟩, hmoved⟩
    rw [getElem?_set_ne (S.apart g' hg' g hg).symm]
    exact hdraws.wire
  · cases hg.symm.trans hg'
    exact ⟨storage', v', hfills'⟩
  · rw [getElem?_set_ne (hw g hg)]
    exact h.others w hw

end

/-! ## Opening and closing -/

/-- an instance at rest between these connections -/
structure Ready (S : StationPorts) (s t : List Int32) {σ : Type} (inst : Instance σ) (taken given : Nat) : Prop where
  inputs : inst.inputs = S.inflow.toList.map fun g => ⟨g.wire, g.port⟩
  outputs : inst.outputs = S.outflow.toList.map fun g => ⟨g.wire, g.port⟩
  released : ∀ g ∈ S.inflow, g.released = taken
  published : ∀ g ∈ S.outflow, g.published = given
  source : ∀ g ∈ S.inflow, S.wires[g.wire]? = some g.connection ∧ g.connection.Tracks (.cable s g.sent g.sent taken) ∧
    g.port.Rests taken g.connection.capacity (.cable s g.sent g.sent taken)
  target : ∀ g ∈ S.outflow, S.wires[g.wire]? = some g.connection ∧ g.connection.Tracks (.cable t given given g.read) ∧
    g.port.Rests g.connection.capacity (.cable t given given g.read)

variable {σ : Type} {inst : Instance σ} {taken' given' : Nat}

theorem backlog_cable (xs : List Int32) (written published released : Nat) :
    (Ledger.cable xs written published released).backlog = published - released := by
  simp [Ledger.cable, Ledger.backlog]

/-- the ports can be opened, and show what is there -/
theorem Ready.open (h : S.Ready s t inst taken given) :
    ∃ ports, inst.openPorts S.wires = .ok ports ∧ S.Open s t ports taken given ∧
    (∀ g ∈ S.inflow, ports.availableIn 0 = .ok (g.sent - taken)) ∧
    ∀ g ∈ S.outflow, ports.availableOut 0 = .ok (g.connection.capacity - (given - g.read)) := by
  obtain ⟨ins, hins, hin⟩ : ∃ ins, Ports.openAll (fun c e => .ok (c.openInput e)) S.wires inst.inputs = .ok ins ∧
      ∀ g ∈ S.inflow, ins = [⟨g.wire, ⟨g.port.cursor, g.sent - taken, g.sent - taken⟩⟩] := by
    rw [h.inputs]
    cases hflow : S.inflow with
    | none => exact ⟨[], rfl, fun g hg => by cases hg⟩
    | some g =>
      obtain ⟨hwire, htracks, hrests⟩ := h.source g hflow
      refine ⟨_, ?_, fun g' hg' => by cases hg'; rfl⟩
      have hview := htracks.openInput_eq hrests
      simp [Ports.openAll, fetch_eq_ok hwire, hview, Ledger.cable]
  obtain ⟨outs, houts, hout⟩ : ∃ outs, Ports.openAll Connection.openOutput S.wires inst.outputs = .ok outs ∧
      ∀ g ∈ S.outflow, outs = [⟨g.wire, ⟨g.port.cursor, g.connection.capacity - (given - g.read),
        g.connection.capacity - (given - g.read)⟩⟩] := by
    rw [h.outputs]
    cases hflow : S.outflow with
    | none => exact ⟨[], rfl, fun g hg => by cases hg⟩
    | some g =>
      obtain ⟨hwire, htracks, hrests⟩ := h.target g hflow
      refine ⟨_, ?_, fun g' hg' => by cases hg'; rfl⟩
      have hview := htracks.openOutput_eq hrests
      rw [backlog_cable] at hview
      simp [Ports.openAll, fetch_eq_ok hwire, hview]
  have hdrawn : ∀ g ∈ S.inflow, Ports.Draws ⟨S.wires, ins, outs, #[]⟩ 0 g.port g.released g.wire g.connection
      ⟨g.port.cursor, g.sent - taken, g.sent - taken⟩ (.cable s g.sent g.sent g.released) := by
    intro g hg
    obtain ⟨hwire, htracks, hrests⟩ := h.source g hg
    rw [h.released g hg]
    exact ⟨by rw [hin g hg]; rfl, hwire, htracks, htracks.reads_of_rests hrests⟩
  have hfilled : ∀ g ∈ S.outflow, Ports.Fills ⟨S.wires, ins, outs, #[]⟩ 0 g.port g.wire g.connection
      ⟨g.port.cursor, g.connection.capacity - (given - g.read), g.connection.capacity - (given - g.read)⟩
      (.cable t given g.published g.read) := by
    intro g hg
    obtain ⟨hwire, htracks, hrests⟩ := h.target g hg
    have hwrites := htracks.writes_of_rests hrests
    rw [h.published g hg]
    exact ⟨by rw [hout g hg]; rfl, hwire, htracks, hwrites⟩
  refine ⟨⟨S.wires, ins, outs, #[]⟩,
    by rw [Instance.openPorts, hins, houts]; rfl, ⟨fun g hg => ?_, fun g hg => ?_, fun _ _ => rfl⟩,
    fun g hg => (hdrawn g hg).availableIn, fun g hg => (hfilled g hg).availableOut⟩
  · exact ⟨_, hdrawn g hg, by rw [h.released g hg]; simp [PortView.moved]⟩
  · exact ⟨_, _, hfilled g hg⟩

/-- the connections after a call, and the ends of the instance on them -/
structure Shut (S : StationPorts) (s t : List Int32) (wires : List Connection) (ins : List (Attached InputEnd))
    (outs : List (Attached OutputEnd)) (taken given : Nat) : Prop where
  unread : S.inflow = none → ins = []
  unwritten : S.outflow = none → outs = []
  source : ∀ g ∈ S.inflow, ∃ c e, ins = [⟨g.wire, e⟩] ∧ wires[g.wire]? = some c ∧ c.tokenSize = 4 ∧
    c.capacity = g.connection.capacity ∧ c.Tracks (.cable s g.sent g.sent taken) ∧
    e.Rests taken g.connection.capacity (.cable s g.sent g.sent taken)
  target : ∀ g ∈ S.outflow, ∃ c e, outs = [⟨g.wire, e⟩] ∧ wires[g.wire]? = some c ∧ c.tokenSize = 4 ∧
    c.capacity = g.connection.capacity ∧ c.Tracks (.cable t given given g.read) ∧
    e.Rests g.connection.capacity (.cable t given given g.read)
  others : ∀ w, (∀ g ∈ S.inflow, g.wire ≠ w) → (∀ g ∈ S.outflow, g.wire ≠ w) → wires[w]? = S.wires[w]?

theorem Ready.nodup (h : S.Ready s t inst taken given) :
    (inst.inputs.map (·.wire) ++ inst.outputs.map (·.wire)).Nodup := by
  rw [h.inputs, h.outputs, map_map, map_map]
  cases hin : S.inflow with
  | none => cases S.outflow <;> simp
  | some g =>
    cases hout : S.outflow with
    | none => simp
    | some g' => simpa using S.apart g hin g' hout

section

variable (hready : S.Ready s t inst taken' given') (h : S.Open s t ports taken given)

include hready h

/-- every input of the instance has a view, over a connection that is there -/
theorem Open.inputs :
    inst.inputs.length ≤ ports.inputs.length ∧ ∀ e ∈ inst.inputs, ∃ c, ports.wires[e.wire]? = some c := by
  rw [hready.inputs]
  cases hin : S.inflow with
  | none => exact ⟨Nat.zero_le _, fun e he => absurd he not_mem_nil⟩
  | some g =>
    obtain ⟨v, hdraws, -⟩ := h.drawn g hin
    refine ⟨Nat.succ_le_of_lt (lt_of_getElem? hdraws.port), fun e he => ?_⟩
    obtain rfl := mem_singleton.1 he
    exact ⟨_, hdraws.wire⟩

/-- every output of the instance has a view, over a connection that is there -/
theorem Open.outputs :
    inst.outputs.length ≤ ports.outputs.length ∧ ∀ e ∈ inst.outputs, ∃ c, ports.wires[e.wire]? = some c := by
  rw [hready.outputs]
  cases hout : S.outflow with
  | none => exact ⟨Nat.zero_le _, fun e he => absurd he not_mem_nil⟩
  | some g =>
    obtain ⟨storage, v, hfills⟩ := h.filled g hout
    refine ⟨Nat.succ_le_of_lt (lt_of_getElem? hfills.port), fun e he => ?_⟩
    obtain rfl := mem_singleton.1 he
    exact ⟨_, hfills.wire⟩

/-- after a call the ports can be closed -/
theorem Open.close (actor : σ) : ∃ wires ins outs, ({ inst with actor } : Instance σ).closePorts ports =
    (wires, { inst with actor, inputs := ins, outputs := outs }) ∧
      S.Shut s t wires ins outs taken given := by
  obtain ⟨hinLength, hinWires⟩ := h.inputs hready
  obtain ⟨houtLength, houtWires⟩ := h.outputs hready
  obtain ⟨wires, ins, outs, hclose, hinCount, houtCount, hins, houts⟩ :=
    Instance.closePorts_apart { inst with actor } ports hready.nodup hinLength houtLength hinWires houtWires
  refine ⟨wires, ins, outs, hclose, fun hnone => ?_, fun hnone => ?_, fun g hg => ?_,
    fun g hg => ?_, fun w hin hout => ?_⟩
  · rw [hready.inputs, hnone] at hinCount
    exact length_eq_zero_iff.1 hinCount
  · rw [hready.outputs, hnone] at houtCount
    exact length_eq_zero_iff.1 houtCount
  · obtain ⟨v, hdraws, rfl⟩ := h.drawn g hg
    obtain ⟨hwire, hitem⟩ := hins (by rw [hready.inputs, Option.mem_def.1 hg]; rfl) hdraws.port hdraws.wire
    rw [Connection.closeInput_eq hdraws.tracks hdraws.reads] at hwire hitem
    have htracks := hdraws.tracks.release hdraws.reads
    have hrests := Connection.rests_of_reads hdraws.reads
    have hzero : g.port.reader = 0 := by simpa [Ledger.cable] using lt_of_getElem? hdraws.reads.released
    rw [hzero] at hwire hitem htracks hrests
    rw [hready.inputs, Option.mem_def.1 hg] at hinCount
    exact ⟨_, _, eq_singleton_of_getElem? hinCount hitem, hwire, g.size, rfl, htracks, hrests⟩
  · obtain ⟨storage, v, hfills⟩ := h.filled g hg
    obtain ⟨hwire, hitem⟩ := houts (by rw [hready.outputs, Option.mem_def.1 hg]; rfl) hfills.port
      hfills.wire
    rw [Connection.closeOutput_eq hfills.tracks hfills.writes] at hwire hitem
    rw [hready.outputs, Option.mem_def.1 hg] at houtCount
    exact ⟨_, _, eq_singleton_of_getElem? houtCount hitem, hwire, g.size, rfl, hfills.tracks.publish,
      Connection.rests_of_writes hfills.writes⟩
  · have hothers : ({ inst with actor } : Instance σ).closePorts ports |>.1[w]? = ports.wires[w]? := by
      refine Instance.closePorts_others ?_ ?_
      · rw [hready.inputs, map_map]
        rintro hmem
        obtain ⟨g, hg, rfl⟩ := mem_map.1 hmem
        exact hin g (Option.mem_toList.1 hg) rfl
      · rw [hready.outputs, map_map]
        rintro hmem
        obtain ⟨g, hg, rfl⟩ := mem_map.1 hmem
        exact hout g (Option.mem_toList.1 hg) rfl
    rw [hclose] at hothers
    exact hothers.trans (h.others w hout)

end

end StationPorts

end Dataflow
