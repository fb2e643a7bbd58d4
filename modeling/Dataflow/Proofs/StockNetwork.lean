import Dataflow.Proofs.PlanStep
import Dataflow.Proofs.ReferenceStream

/-!
A network of stock actors has a plan (`Builder.plan`), and stands at its start when it is built
(`Builder.Built.describes`), however its instances are placed (`Builder.Built.rehint`).
-/

namespace Dataflow

open List

/-- who writes and who reads a connection -/
def Wire.lane (wire : Wire) : Lane := ⟨wire.source.inst, wire.targets.map (·.inst), wire.connection.capacity⟩

namespace Builder

variable {b : Builder Component} {ws : List Wire} {wire : Wire} {w r i j : Nat} {L : Lane}

/-! ## Lanes -/

theorem getElem?_lanes (h : (ws.map Wire.lane)[w]? = some L) : ∃ wire, ws[w]? = some wire ∧ L = wire.lane := by
  rw [getElem?_map] at h
  obtain ⟨wire, hwire, rfl⟩ := Option.map_eq_some_iff.1 h
  exact ⟨wire, hwire, rfl⟩

section

variable (hj : b.Joins ws)

include hj

theorem Joins.writer (hlib : b.Library) (hw : wire ∈ ws) :
    wire.source = ⟨wire.lane.writer, 0⟩ ∧ ∃ role, b.roles[wire.lane.writer]? = some role ∧ role.writes = true := by
  obtain ⟨d, port, hd, hport, -⟩ := hj.source wire hw
  obtain ⟨hzero, hrole⟩ := hlib.output ⟨d, hd, lt_of_getElem? hport⟩
  exact ⟨by rw [← hzero]; rfl, hrole⟩

theorem Joins.reader (hl : b.WellLinked) (hlib : b.Library) (hw : wire ∈ ws) (hr : wire.lane.readers[r]? = some j) :
    wire.targets[r]? = some ⟨j, 0⟩ ∧ ∃ role, b.roles[j]? = some role ∧ role.reads = true := by
  simp only [Wire.lane, getElem?_map] at hr
  obtain ⟨p, hp, rfl⟩ := Option.map_eq_some_iff.1 hr
  obtain ⟨link, hlink, -, rfl⟩ := hj.link_of_target hw (mem_of_getElem? hp)
  obtain ⟨hzero, hrole⟩ := hlib.input (hl.target link hlink)
  exact ⟨by rw [hp, ← hzero], hrole⟩

/-- whoever reads a connection is fed by its writer -/
theorem Joins.feeder (hl : b.WellLinked) (hlib : b.Library) (hw : wire ∈ ws)
    (hr : j ∈ wire.lane.readers) : b.feeder? j = some wire.lane.writer := by
  obtain ⟨r, hr⟩ := getElem?_of_mem hr
  obtain ⟨htarget, -⟩ := hj.reader hl hlib hw hr
  obtain ⟨link, hlink, hsource, heq⟩ := hj.link_of_target hw (mem_of_getElem? htarget)
  rw [feeder_of_link hl hlink heq, hsource]
  rfl

/-- a way back runs along connections -/
theorem Back.fedBy {way : List Nat} (h : b.Back i way) : FedBy b.roles (ws.map Wire.lane) i := by
  induction h with
  | source h => exact .source h
  | @link i j _ h _ ih =>
    obtain ⟨link, hlink, htarget, rfl⟩ := link_of_feeder h
    obtain ⟨wire, hwire, hsource⟩ := hj.complete link hlink
    have hreads : i ∈ wire.lane.readers := by
      refine mem_map.2 ⟨link.target, ?_, by rw [htarget]⟩
      rw [hj.targets wire hwire]
      exact mem_map.2 ⟨link, mem_filter.2 ⟨hlink, by simp [hsource]⟩, rfl⟩
    have hwriter : wire.lane.writer = link.source.inst := by rw [Wire.lane, hsource]
    exact .reader (mem_map_of_mem hwire) hreads (hwriter ▸ ih)

end

/-! ## The plan -/

def plan (b : Builder Component) (ws : List Wire) (hl : b.WellLinked) (hj : b.Joins ws) (hlib : b.Library) : Plan where
  roles := b.roles
  lanes := ws.map Wire.lane
  stream := b.referenceStream
  capacity_pos := by
    intro L hL
    obtain ⟨wire, hwire, rfl⟩ := mem_map.1 hL
    exact (hj.fresh wire hwire).tracks.ring.slots
  writer_role := by
    intro L hL
    obtain ⟨wire, hwire, rfl⟩ := mem_map.1 hL
    exact (hj.writer hlib hwire).2
  reader_role := by
    intro L hL j hj'
    obtain ⟨wire, hwire, rfl⟩ := mem_map.1 hL
    obtain ⟨r, hr⟩ := getElem?_of_mem hj'
    exact (hj.reader hl hlib hwire hr).2
  writer_unique := by
    intro w w' L L' hw hw' heq
    obtain ⟨wire, hwire, rfl⟩ := getElem?_lanes hw
    obtain ⟨wire', hwire', rfl⟩ := getElem?_lanes hw'
    refine hj.source_unique hwire hwire' ?_
    rw [(hj.writer hlib (mem_of_getElem? hwire)).1, heq, ← (hj.writer hlib (mem_of_getElem? hwire')).1]
  reader_unique := by
    intro w w' r r' j L L' hw hw' hr hr'
    obtain ⟨wire, hwire, rfl⟩ := getElem?_lanes hw
    obtain ⟨wire', hwire', rfl⟩ := getElem?_lanes hw'
    exact hj.target_unique hl hwire hwire' (hj.reader hl hlib (mem_of_getElem? hwire) hr).1
      (hj.reader hl hlib (mem_of_getElem? hwire') hr').1
  stream_source := by
    intro i numbers h
    refine ⟨referenceStream_of_source hlib h, ?_⟩
    obtain ⟨⟨name, actor, affinity⟩, hd, hrole⟩ := hlib.declared h
    have hstock := hlib _ (mem_of_getElem? hd)
    cases actor with
    | source s => cases hrole; exact hstock.2
    | scale s | sink s | bridge b | script s => cases hrole
  stream_reader := by
    intro j role L hrole hL hj'
    obtain ⟨wire, hwire, rfl⟩ := mem_map.1 hL
    exact referenceStream_of_feeder hlib hl hrole (hj.feeder hl hlib hwire hj')
  stream_unfed := fun h => reference_of_not_back hlib hl fun ⟨_, hway⟩ => h (hway.fedBy hj)

/-! ## The start -/

theorem ledger_start (P : Plan) (wire : Wire) :
    P.ledger (fun _ => {}) wire.lane = Ledger.fresh wire.targets.length := by
  simp [Plan.ledger, Ledger.fresh, Plan.bytesOf, Wire.lane, Function.comp_def, map_const']

theorem plays_start {P : Plan} {actor : Component} {role : Role} (hstock : actor.Stock)
    (hrole : actor.role? = some role) (hi : P.roles[i]? = some role) : P.Plays i 0 actor := by
  cases actor with
  | source s => cases hrole; exact .source hi hstock.1
  | scale s => cases hrole; exact .scale hi
  | sink s => cases hrole; exact .sink hi (by rw [show s.tokens = #[] from hstock]; rfl) fun m _ => Nat.zero_le m
  | bridge b | script s => cases hrole

variable {n : Network Component}

theorem Placed.resting (hl : b.WellLinked) (hj : b.Joins ws) (hlib : b.Library) {d : Declared Component}
    {inst : Instance Component} (hd : b.instances[inst.id]? = some d) (h : Placed ws d inst) :
    (b.plan ws hl hj hlib).Resting (fun _ => {}) inst := by
  have hstock := hlib d (mem_of_getElem? hd)
  obtain ⟨role, hrole⟩ := hstock.role
  have hi : b.roles[inst.id]? = some role := by rw [hlib.getElem?_roles, hd]; exact hrole
  obtain ⟨hins, houts, -⟩ := Component.ports_of_role hrole
  have hfresh := h.fresh
  refine ⟨?_, ⟨role, hi, h.inputs.trans hins, h.outputs.trans houts⟩, fun e he => ?_,
    fun e he => ?_, rfl, rfl, ?_, ?_, ?_⟩
  · rw [hfresh]
    exact plays_start hstock hrole hi
  · obtain ⟨k, hk⟩ := getElem?_of_mem he
    obtain ⟨wire, r, hwire, htarget, hinput⟩ := h.input hk
    have hf := hj.fresh wire (mem_of_getElem? hwire)
    refine ⟨wire.lane, by rw [show (b.plan ws hl hj hlib).lanes = ws.map Wire.lane from rfl,
      getElem?_map, hwire]; rfl, ?_, ?_⟩
    · rw [hf.reader hinput, Wire.lane, getElem?_map, htarget]
      rfl
    · rw [ledger_start]
      exact hf.input hinput
  · obtain ⟨k, hk⟩ := getElem?_of_mem he
    obtain ⟨wire, hwire, hsource, hitem⟩ := h.output hk
    have hf := hj.fresh wire (mem_of_getElem? hwire)
    refine ⟨wire.lane, by rw [show (b.plan ws hl hj hlib).lanes = ws.map Wire.lane from rfl,
      getElem?_map, hwire]; rfl, ?_, ?_⟩
    · rw [Wire.lane, hsource]
    · rw [ledger_start, hitem]
      exact hf.output
  · rw [hfresh]
  · rw [hfresh]
    exact Bool.noConfusion
  · rw [hfresh]
    exact .inl rfl

/-- a built network stands at the start of its plan -/
theorem Built.describes (hl : b.WellLinked) (hj : b.Joins ws) (hlib : b.Library) (h : b.Built ws n) :
    (b.plan ws hl hj hlib).Describes (fun _ => {}) (Overlap.start n) := by
  have hwire : ∀ {w : Nat} {c}, n.wires[w]? = some c → ∃ wire, ws[w]? = some wire ∧ c = wire.connection := by
    intro w c hc
    rw [h.wires, getElem?_map] at hc
    obtain ⟨wire, hwire, rfl⟩ := Option.map_eq_some_iff.1 hc
    exact ⟨wire, hwire, rfl⟩
  have hboth : ∀ {w : Nat} {c L}, n.wires[w]? = some c → (ws.map Wire.lane)[w]? = some L →
      ∃ wire ∈ ws, c = wire.connection ∧ L = wire.lane := by
    intro w c L hc hL
    obtain ⟨wire, hwire, rfl⟩ := hwire hc
    obtain ⟨wire', hwire', rfl⟩ := getElem?_lanes hL
    rw [hwire] at hwire'
    cases hwire'
    exact ⟨wire, mem_of_getElem? hwire, rfl, rfl⟩
  refine ⟨⟨?_, fun hc hL => ?_, fun hc hL => ?_, fun c hc => ?_, fun _ => Nat.zero_le _⟩, ?_, fun hk => ?_⟩
  · simp [Overlap.start, h.wires, plan]
  · obtain ⟨wire, hmem, rfl, rfl⟩ := hboth hc hL
    rw [ledger_start]
    exact (hj.fresh wire hmem).tracks
  · obtain ⟨wire, -, rfl, rfl⟩ := hboth hc hL
    rfl
  · obtain ⟨w, hw⟩ := getElem?_of_mem hc
    obtain ⟨wire, hwire, rfl⟩ := hwire hw
    obtain ⟨d, port, hd, hport, hsize⟩ := hj.source wire (mem_of_getElem? hwire)
    obtain ⟨role, hrole⟩ := (hlib d (mem_of_getElem? hd)).role
    rw [hsize]
    exact (Component.ports_of_role hrole).2.2 port (mem_of_getElem? hport)
  · have hids : (Overlap.start n).workers.map (·.inst.id) = n.instances.map (·.id) :=
      by simp [Overlap.start, Function.comp_def]
    rw [hids, show (b.plan ws hl hj hlib).roles = b.roles from rfl, hlib.length_roles]
    exact h.ids
  · obtain ⟨inst, hinst, rfl⟩ := mem_map.1 (mem_of_getElem? hk)
    obtain ⟨d, hd, hplaced⟩ := h.placed inst hinst
    exact hplaced.resting hl hj hlib hd

/-- networks that are built of one builder, whatever the hints and mappings, stand at the start of one plan -/
theorem Made.exists_plan {b' : Builder Component} {n' : Network Component} {mapping mapping' : Option Mapping}
    (hmade : b.Made) (hlib : b.Library) (hsame : b.unplaced = b'.unplaced) (hbuild : b.build mapping = .ok n)
    (hbuild' : b'.build mapping' = .ok n') :
    ∃ P : Plan, P.roles = b.roles ∧ P.stream = b.referenceStream ∧ P.Describes (fun _ => {}) (Overlap.start n) ∧
      P.Describes (fun _ => {}) (Overlap.start n') := by
  obtain ⟨ws, hws, hbuilt⟩ := built_of_build hbuild
  obtain ⟨ws', hws', hbuilt'⟩ := built_of_build hbuild'
  rw [← wires_eq_of_unplaced hsame, hws] at hws'
  cases hws'
  have hl := hmade.wellLinked
  have hj := joins_of_wires hl hws
  exact ⟨b.plan ws hl hj hlib, rfl, rfl, hbuilt.describes hl hj hlib, (hbuilt'.rehint hsame).describes hl hj hlib⟩

end Builder

end Dataflow
