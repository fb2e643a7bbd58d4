import Dataflow.Proofs.PlanCall

/-!
Attempts of stock actors that overlap go by their plan.

Every part of an attempt keeps `Plan.Describes` (`Plan.Describes.step`), and one without progress leaves its instance
terminated or held (`Plan.Resting.attempts`). So a run on one thread that ends by itself ends where nobody can go on
(`Plan.Describes.inline`).
-/

namespace Dataflow

open List

/-! ## Opening -/

namespace Plan

variable {P : Plan} {A A' : Counts} {i k r : Nat} {L : Lane} {wires : List Connection} {ports : Ports}
  {inst inst' : Instance Component} {actor : Component} {exit : Exit} {role : Role} {e : Attached InputEnd}
  {v : Attached PortView} {views : List (Attached PortView)}

theorem InputRests.opens (h : P.InputRests A i e) (hlive : P.Live A wires) (hsettled : (A i).released = (A i).fired) :
    ∃ c, wires[e.wire]? = some c ∧ P.InputOpen A i e ⟨e.wire, c.openInput e.item⟩ := by
  obtain ⟨L, hL, hreader, hrests⟩ := h
  obtain ⟨c, hc⟩ := hlive.wire hL
  have ht := hlive.tracks hc hL
  rw [← hlive.capacity hc hL] at hrests
  have hopen := ht.openInput_eq hrests
  refine ⟨c, hc, L, hL, hreader, rfl, ?_, ?_⟩
  · rw [hopen, ← hlive.capacity hc hL]
    exact ht.reads_of_rests hrests
  · rw [hopen, ← hsettled]
    simp [PortView.moved]

theorem OutputRests.opens {e : Attached OutputEnd} (h : P.OutputRests A i e) (hlive : P.Live A wires) :
    ∃ c v, wires[e.wire]? = some c ∧ c.openOutput e.item = .ok v ∧ P.OutputOpen A i e ⟨e.wire, v⟩ := by
  obtain ⟨L, hL, hwriter, hrests⟩ := h
  obtain ⟨c, hc⟩ := hlive.wire hL
  have ht := hlive.tracks hc hL
  rw [← hlive.capacity hc hL] at hrests
  refine ⟨c, _, hc, ht.openOutput_eq hrests, L, hL, hwriter, rfl, ?_⟩
  rw [← hlive.capacity hc hL]
  exact ht.writes_of_rests hrests

/-- an instance at rest can open its ports -/
theorem Resting.opens (h : P.Resting A inst) (hlive : P.Live A wires) (hactive : inst.terminated = false) :
    ∃ ports, inst.openPorts wires = .ok ports ∧ P.Engaged A inst inst.actor ports := by
  obtain ⟨ins, outs, hopen⟩ := Instance.openPorts_ok (fun e he => by
    obtain ⟨c, hc, -⟩ := (h.inputs e he).opens hlive h.released
    exact ⟨c, hc⟩) fun e he => by
    obtain ⟨c, v, hc, hv, -⟩ := (h.outputs e he).opens hlive
    exact ⟨c, v, hc, hv⟩
  obtain ⟨hins, houts, -, -⟩ := Instance.openPorts_eq_ok hopen
  refine ⟨_, hopen, h.plays, h.ends, ?_, ?_, h.released.le, h.published.le, h.firings, hactive⟩
  · refine ((forall₂_and_left _ _).2 ⟨h.inputs, forall₂_of_mapM hins⟩).imp fun e v hev => ?_
    obtain ⟨c, hc, hopen⟩ := hev.1.opens hlive h.released
    have heq := hev.2
    rw [fetch_eq_ok hc] at heq
    cases heq
    exact hopen
  · refine ((forall₂_and_left _ _).2 ⟨h.outputs, forall₂_of_mapM houts⟩).imp fun e v hev => ?_
    obtain ⟨c, view, hc, hview, hopen⟩ := hev.1.opens hlive
    have heq := hev.2
    rw [fetch_eq_ok hc, Checked.ok_bind, hview] at heq
    cases heq
    exact hopen

/-! ## Closing -/

theorem ledger_release (P : Plan) (A : Counts) (hL : L ∈ P.lanes) (hr : L.readers[r]? = some i) :
    P.ledger (Counts.release A i) L = (P.ledger A L).release r (A i).fired := by
  have hreleased : L.readers.map (fun j => (Counts.release A i j).released) =
      (L.readers.map fun j => (A j).released).set r (A i).fired := by
    obtain ⟨w, hw⟩ := getElem?_of_mem hL
    refine ext_getElem? fun r' => ?_
    by_cases hrr : r' = r
    · subst hrr
      have hlt := lt_of_getElem? hr
      rw [getElem?_set_self (by simpa using hlt), getElem?_map, hr]
      simp
    · rw [getElem?_set_ne (Ne.symm hrr), getElem?_map, getElem?_map]
      cases hr' : L.readers[r']? with
      | none => rfl
      | some j =>
        have hj : j ≠ i := fun hji => hrr (P.reader_unique hw hw hr' (hji ▸ hr)).2
        simp [Counts.release, hj]
  simp only [ledger, Ledger.release, Counts.release_fired, Counts.release_published, hreleased]

theorem ledger_release_other (P : Plan) (A : Counts) (hi : i ∉ L.readers) :
    P.ledger (Counts.release A i) L = P.ledger A L := by
  have hreleased : L.readers.map (fun j => (Counts.release A i j).released) = L.readers.map
    fun j => (A j).released := by
    refine map_congr_left fun j hj => ?_
    have hne : j ≠ i := fun heq => hi (heq ▸ hj)
    simp [Counts.release, hne]
  simp only [ledger, Counts.release_fired, Counts.release_published, hreleased]

theorem ledger_publish (P : Plan) (A : Counts) : P.ledger (Counts.publish A L.writer) L = (P.ledger A L).publish := by
  simp [ledger, Ledger.publish]

theorem ledger_publish_other (P : Plan) (A : Counts) (hne : L.writer ≠ i) :
    P.ledger (Counts.publish A i) L = P.ledger A L := by
  have hwriter : Counts.publish A i L.writer = A L.writer := by simp [Counts.publish, hne]
  simp only [ledger, hwriter, Counts.publish_released]

/-- closing the input of an instance releases what it has fired -/
theorem InputOpen.closes (h : P.InputOpen A i e v) (hlive : P.Live A wires) :
    ∃ c, wires[e.wire]? = some c ∧ P.Live (Counts.release A i) (wires.set e.wire (c.closeInput e.item v.item).1) ∧
      P.InputRests (Counts.release A i) i ⟨e.wire, (c.closeInput e.item v.item).2⟩ := by
  obtain ⟨L, hL, hreader, -, hreads, hmoved⟩ := h
  obtain ⟨c, hc⟩ := hlive.wire hL
  have hmem := mem_of_getElem? hL
  have ht := hlive.tracks hc hL
  have hcap := hlive.capacity hc hL
  rw [← hcap] at hreads
  have hledger := P.ledger_release A hmem hreader
  rw [← hmoved] at hledger
  refine ⟨c, hc, ?_, L, hL, ?_, ?_⟩ <;> rw [Connection.closeInput_eq ht hreads]
  · refine hlive.set hL hc (hledger ▸ ht.release hreads) rfl rfl (fun hne hL' => ?_) (by simpa using hlive.within)
    refine P.ledger_release_other A fun hmem' => hne ?_
    obtain ⟨r', hr'⟩ := getElem?_of_mem hmem'
    exact (P.reader_unique hL' hL hr' hreader).1
  · exact hreader
  · rw [Counts.release_released_self, ← hmoved, hledger, ← hcap]
    exact Connection.rests_of_reads hreads

/-- closing the output of an instance publishes what it has fired -/
theorem OutputOpen.closes {e : Attached OutputEnd} (h : P.OutputOpen A i e v) (hlive : P.Live A wires) :
    ∃ c, wires[e.wire]? = some c ∧ P.Live (Counts.publish A i) (wires.set e.wire (c.closeOutput e.item v.item).1) ∧
      P.OutputRests (Counts.publish A i) i ⟨e.wire, (c.closeOutput e.item v.item).2⟩ := by
  obtain ⟨L, hL, rfl, -, hwrites⟩ := h
  obtain ⟨c, hc⟩ := hlive.wire hL
  have ht := hlive.tracks hc hL
  have hcap := hlive.capacity hc hL
  rw [← hcap] at hwrites
  refine ⟨c, hc, ?_, L, hL, rfl, ?_⟩ <;> rw [Connection.closeOutput_eq ht hwrites]
  · refine hlive.set hL hc (P.ledger_publish A ▸ ht.publish) rfl rfl (fun hne hL' => ?_) (by simpa using hlive.within)
    exact P.ledger_publish_other A fun heq => hne (P.writer_unique hL' hL heq)
  · rw [P.ledger_publish A, ← hcap]
    exact Connection.rests_of_writes hwrites

/-- nobody without an input reads a connection -/
theorem Live.release_unread (hlive : P.Live A wires) (hrole : P.roles[i]? = some role) (hreads : role.reads = false) :
    P.Live (Counts.release A i) wires := by
  refine ⟨hlive.count, fun {w c L} hc hL => ?_, hlive.capacity, hlive.size, by simpa using hlive.within⟩
  have hi : i ∉ L.readers := by
    intro hi
    obtain ⟨role', hrole', hreads'⟩ := P.reader_role L (mem_of_getElem? hL) i hi
    grind
  rw [P.ledger_release_other A hi]
  exact hlive.tracks hc hL

theorem Live.publish_unwritten (hlive : P.Live A wires) (hrole : P.roles[i]? = some role)
    (hwrites : role.writes = false) : P.Live (Counts.publish A i) wires := by
  refine ⟨hlive.count, fun {w c L} hc hL => ?_, hlive.capacity, hlive.size, by simpa using hlive.within⟩
  have hi : L.writer ≠ i := by
    obtain ⟨role', hrole', hwrites'⟩ := P.writer_role L (mem_of_getElem? hL)
    grind
  rw [P.ledger_publish_other A hi]
  exact hlive.tracks hc hL

/-- closing the one end of a kind that an instance may have -/
theorem closeAll_ok {α : Type} (close : Connection → α → PortView → Connection × α) {ends : List (Attached α)}
    {has : Bool} {Q : Attached α → Attached PortView → Prop} {R : Attached α → Prop} (hlen : ends.length = has.toNat)
    (hopen : List.Forall₂ Q ends views) (hnone : has = false → P.Live A' wires)
    (hone : ∀ {e v}, Q e v → ∃ c, wires[e.wire]? = some c ∧ P.Live A' (wires.set e.wire (close c e.item v.item).1) ∧
      R ⟨e.wire, (close c e.item v.item).2⟩) :
    ∃ wires' ends', Ports.closeAll close wires ends views = (wires', ends') ∧
      P.Live A' wires' ∧ ends'.length = ends.length ∧
      ∀ e ∈ ends', R e := by
  cases has with
  | false =>
    obtain rfl := eq_nil_of_length_eq_zero hlen
    exact ⟨wires, [], by simp [Ports.closeAll], hnone rfl, rfl, by simp⟩
  | true =>
    obtain ⟨e, v, rfl, rfl, he⟩ := forall₂_single hopen hlen
    obtain ⟨c, hc, hlive, hrests⟩ := hone he
    exact ⟨_, [⟨e.wire, (close c e.item v.item).2⟩],
      by simp only [Ports.closeAll, hc], hlive, rfl, by simpa using hrests⟩

theorem waiting_of_ended {fired : Nat} (h : P.Ended i fired ports exit) : Instance.waitList ports exit = none ∨
    ∃ port, Instance.waitList ports exit = some [(port, 0)] ∧ P.HasPort i port ∧ ¬ P.Finished i fired := by
  cases exit with
  | terminate | yield => exact .inl rfl
  | block blocked =>
    obtain ⟨port, rfl, hleft, hport, hopen⟩ := h
    exact .inr ⟨port, by simp [Instance.waitList, hleft], hport, hopen⟩

/-- a call fires no more often than there are tokens, so that no firing is lost in the count -/
theorem Engaged.fired_eq (h : P.Engaged A inst actor ports) (hlive : P.Live A wires) :
    ports.firing.fired = ports.actions.size := by
  have hfirings := h.firings
  have hwithin := hlive.within inst.id
  have hshort := P.stream_short inst.id
  exact Firing.fired_eq (by simp only [Ports.firing]; omega)

/-- a call is closed and booked -/
theorem Engaged.settles (h : P.Engaged A inst actor ports) (hlive : P.Live A ports.wires)
    (hended : P.Ended inst.id (A inst.id).fired ports exit) :
    ∃ wires inst', inst.settle ⟨actor, ports, .ok exit⟩ = (wires, inst', .ok (.ran exit ports.firing)) ∧
      inst'.id = inst.id ∧ P.Live (Counts.settle A inst.id) wires ∧ P.Resting (Counts.settle A inst.id) inst' ∧
      inst'.waiting = Instance.waitList ports exit ∧ inst'.terminated = (exit == .terminate) := by
  obtain ⟨role, hrole, hlenIn, hlenOut⟩ := h.ends
  obtain ⟨wires1, ins, hclose1, hlive1, hins, hrestIn⟩ := closeAll_ok Connection.closeInput hlenIn h.inputs
    (hlive.release_unread hrole) fun he => he.closes hlive
  have houts1 : List.Forall₂ (P.OutputOpen (Counts.release A inst.id) inst.id) inst.outputs ports.outputs :=
    h.outputs.imp fun _ _ ho => ho.frame (by simp) (by simp) (Counts.later_release h.released).released_le
  obtain ⟨wires2, outs, hclose2, hlive2, houts, hrestOut⟩ := closeAll_ok Connection.closeOutput hlenOut houts1
    (hlive1.publish_unwritten hrole) fun he => he.closes hlive1
  let closed : Instance Component := { inst with actor, inputs := ins, outputs := outs }
  refine ⟨wires2, closed.book exit (Instance.waitList ports exit) ports.firing,
    by simp only [Instance.settle, Instance.closePorts, hclose1, hclose2, closed], rfl, hlive2, ?_, rfl, ?_⟩
  · have hinRests : ∀ e ∈ ins, P.InputRests (Counts.settle A inst.id) inst.id e :=
      fun e he => (hrestIn e he).frame (by simp [Counts.settle])
    have hplays : P.Plays inst.id (Counts.settle A inst.id inst.id).fired actor := by simpa using h.plays
    have hfirings : inst.stats.firings + ports.firing.fired = (Counts.settle A inst.id inst.id).fired := by
      simpa [h.fired_eq hlive] using h.firings
    have hwaits := waiting_of_ended hended
    rw [← Counts.settle_fired A inst.id] at hwaits
    refine ⟨hplays, ⟨role, hrole, hins.trans hlenIn, houts.trans hlenOut⟩, hinRests,
      hrestOut, ?_, ?_, hfirings, ?_, hwaits⟩
    · exact (Counts.settle_released_self A inst.id).trans (Counts.settle_fired A inst.id inst.id).symm
    · exact (Counts.settle_published_self A inst.id).trans (Counts.settle_fired A inst.id inst.id).symm
    · intro hterm
      have hexit : exit = .terminate := by simpa [Instance.book, closed, h.active] using hterm
      subst hexit
      exact (Counts.settle_fired A inst.id inst.id).symm ▸ hended
  · simp [Instance.book, closed, h.active]

/-! ## Steps -/

variable {F : Overlap Component} {activity activity' : Activity Component} {turn : Turn Component}

theorem Describes.put (h : P.Describes A F) (hk : F.workers[k]? = some ⟨inst, activity⟩)
    (hl : Counts.Later A A' inst.id) (hlive : P.Live A' wires) (hid : inst'.id = inst.id)
    (hstands : P.Stands A' ⟨inst', activity'⟩) : P.Describes A' (F.put wires k inst' activity') := by
  have hkid : (F.workers.map (·.inst.id))[k]? = some inst.id := by rw [getElem?_map, hk]; rfl
  obtain ⟨hlt, hget⟩ := List.getElem?_eq_some_iff.1 hkid
  have hids : (F.put wires k inst' activity').workers.map (·.inst.id) = F.workers.map (·.inst.id) := by
    rw [Overlap.put, map_set, hid, ← hget, set_getElem_self]
  refine ⟨hlive, by rw [hids]; exact h.ids, fun {j x} hj => ?_⟩
  rcases getElem?_set_cases hj with ⟨rfl, rfl⟩ | ⟨hne, hj⟩
  · exact hstands
  · refine (h.stands hj).frame hl fun heq => hne ?_
    have hjid : (F.workers.map (·.inst.id))[j]? = some inst.id := by rw [getElem?_map, hj, ← heq]; rfl
    exact ((getElem?_inj hlt (h.ids.nodup_iff.2 nodup_range)).1 (hkid.trans hjid.symm)).symm

theorem Resting.skip (h : P.Resting A inst) :
    P.Resting A { inst with stats := { inst.stats with skipped := inst.stats.skipped + 1 } } := { h with }

theorem Engaged.rewire (h : P.Engaged A inst actor ports) (wires : List Connection) :
    P.Engaged A inst actor { ports with wires } := { h with }

section

variable (h : P.Describes A F)

include h

theorem Describes.enter (hk : F.workers[k]? = some ⟨inst, .resting⟩) : P.Describes A (F.enter k inst) := by
  have hrest : P.Resting A inst := h.stands hk
  unfold Overlap.enter
  split
  · exact h
  next hterm =>
  obtain ⟨b, hb, -⟩ := hrest.stillBlocked h.live
  rw [hb]
  cases b with
  | true => exact h.put hk (.refl A _) h.live rfl hrest.skip
  | false => exact h.put hk (.refl A _) h.live rfl ⟨hrest, by simpa using hterm⟩

theorem Describes.opens (hk : F.workers[k]? = some ⟨inst, .entered⟩) : P.Describes A (F.openPorts k inst) := by
  obtain ⟨hrest, hactive⟩ := h.stands hk
  obtain ⟨ports, hopen, hengaged⟩ := hrest.opens h.live hactive
  rw [Overlap.openPorts, hopen]
  exact h.put hk (.refl A _) h.live rfl hengaged

theorem Describes.calls (maxLoops : Nat) (hk : F.workers[k]? = some ⟨inst, .opened ports⟩) :
    ∃ A', P.Describes A' (F.call maxLoops k inst ports) ∧ Counts.Later A A' inst.id := by
  have hengaged : P.Engaged A inst inst.actor { ports with wires := F.wires } := Engaged.rewire (h.stands hk) F.wires
  obtain ⟨A', hacted⟩ := hengaged.call maxLoops h.live
  exact ⟨A', h.put hk hacted.later hacted.live rfl ⟨hacted.engaged, hacted.ended⟩, hacted.later⟩

theorem Describes.closes (hk : F.workers[k]? = some ⟨inst, .called turn⟩) :
    P.Describes (Counts.settle A inst.id) (F.close k inst turn) ∧ Counts.Later A (Counts.settle A inst.id) inst.id := by
  obtain ⟨hengaged, exit, hexit, hended⟩ := h.stands hk
  have hlater := Counts.later_settle hengaged.released hengaged.published
  have hended' : P.Ended inst.id (A inst.id).fired { turn.ports with wires := F.wires } exit := hended
  obtain ⟨wires, inst', hsettle, hid, hlive, hrest, -⟩ := (hengaged.rewire F.wires).settles h.live hended'
  refine ⟨?_, hlater⟩
  rw [Overlap.close, hexit, hsettle]
  exact h.put hk hlater hlive hid hrest

/-- every part of an attempt keeps to the plan -/
theorem Describes.step (op : OverlapOp) :
    ∃ A', P.Describes A' (F.step op) ∧ (A' = A ∨ ∃ i < P.roles.length, Counts.Later A A' i) := by
  cases op with
  | enter k =>
    simp only [Overlap.step]
    split
    · next inst hk => exact ⟨A, h.enter hk, .inl rfl⟩
    · exact ⟨A, h, .inl rfl⟩
  | «open» k =>
    simp only [Overlap.step]
    split
    · next inst hk => exact ⟨A, h.opens hk, .inl rfl⟩
    · exact ⟨A, h, .inl rfl⟩
  | call k maxLoops =>
    simp only [Overlap.step]
    split
    · next inst ports hk =>
      obtain ⟨A', hA', hlater⟩ := h.calls maxLoops hk
      exact ⟨A', hA', .inr ⟨inst.id, h.id_lt hk, hlater⟩⟩
    · exact ⟨A, h, .inl rfl⟩
  | close k =>
    simp only [Overlap.step]
    split
    · next inst turn hk =>
      obtain ⟨hA', hlater⟩ := h.closes hk
      exact ⟨_, hA', .inr ⟨inst.id, h.id_lt hk, hlater⟩⟩
    · exact ⟨A, h, .inl rfl⟩

/-- a run keeps to the plan, and never overtakes counts at which everybody is held -/
theorem Describes.run (ops : List OverlapOp) :
    ∃ A', P.Describes A' (F.run ops) ∧ ∀ G : Nat → Nat, (∀ i < P.roles.length, P.Held G i) →
      (∀ j, (A j).fired ≤ G j) → ∀ j, (A' j).fired ≤ G j := by
  induction ops generalizing A F with
  | nil => exact ⟨A, h, fun G _ hle => hle⟩
  | cons op ops ih =>
    obtain ⟨A1, h1, hstep⟩ := h.step op
    obtain ⟨A2, h2, hrun⟩ := ih h1
    refine ⟨A2, h2, fun G hheld hle => hrun G hheld ?_⟩
    rcases hstep with rfl | ⟨i, hi, hlater⟩
    · exact hle
    · -- only one count has grown, and that one is held by the others
      have hothers : ∀ j, j ≠ i → (A1 j).fired ≤ G j := fun j hj => by rw [hlater.others j hj]; exact hle j
      intro j
      by_cases hj : j = i
      · exact hj ▸ h1.bounded.le_of_held (hheld i hi) hothers
      · exact hothers j hj

end

/-! ## Runs on one thread -/

/-- an instance that has terminated, or found nothing at the port that it waits for -/
def Idle (P : Plan) (A : Counts) (inst : Instance Component) : Prop :=
  inst.terminated = true ∨ ∃ port, inst.waiting = some [(port, 0)] ∧ P.Dry A inst.id port

/-- an attempt does not fault, and no firing is lost in its count; without progress it changes no counts -/
theorem Resting.attempts (h : P.Resting A inst) (hlive : P.Live A wires) (maxLoops : Nat) :
    ∃ wires' inst' answer, inst.attempt wires maxLoops = (wires', inst', .ok answer) ∧
      (∀ exit firing, answer = .ran exit firing → firing.fired = firing.actions.size) ∧
      (answer.madeProgress = false → inst'.id = inst.id ∧ P.Live A wires' ∧ P.Resting A inst' ∧ P.Idle A inst') := by
  obtain ⟨b, hb, hblocked⟩ := h.stillBlocked hlive
  simp only [Instance.attempt, hb]
  split
  · next hterm => exact ⟨_, _, _, rfl, (fun _ _ h => by cases h), fun _ => ⟨rfl, hlive, h, .inl hterm⟩⟩
  next hactive =>
  cases b with
  | true => exact ⟨_, _, _, rfl, (fun _ _ h => by cases h), fun _ => ⟨rfl, hlive, h.skip, .inr (hblocked.1 rfl)⟩⟩
  | false =>
    obtain ⟨ports, hopen, hengaged⟩ := h.opens hlive (by simpa using hactive)
    simp only [hopen]
    obtain ⟨-, -, hwires, hactions⟩ := Instance.openPorts_eq_ok hopen
    rw [← hwires] at hlive
    obtain ⟨A', hacted⟩ := hengaged.call maxLoops hlive
    set turn := Behaviour.act maxLoops inst.actor ports with hturn
    obtain ⟨exit, hexit, hended⟩ := hacted.ended
    obtain ⟨wires1, inst1, hsettle, hid, hlive1, hrest1, hwaiting, hterm⟩ := hacted.engaged.settles hacted.live hended
    have heq : turn = ⟨turn.actor, turn.ports, .ok exit⟩ := by rw [← hexit]
    rw [heq, hsettle]
    refine ⟨_, _, _, rfl, fun _ _ h => by cases h; exact hacted.engaged.fired_eq hacted.live, fun hidle => ?_⟩
    -- nothing fired, so that the ports are as they were opened
    simp only [Attempt.madeProgress, Bool.or_eq_false_iff, hacted.engaged.fired_eq hacted.live, bne_eq_false_iff_eq,
      beq_eq_false_iff_ne] at hidle
    obtain ⟨hports, rfl⟩ := hacted.quiet (by rw [hidle.1, hactions]; rfl)
    rw [Counts.settle_eq_self h.released h.published] at hlive1 hrest1
    refine ⟨hid, hlive1, hrest1, ?_⟩
    cases exit with
    | terminate => exact .inl (by simpa using hterm)
    | yield => exact absurd rfl hidle.2
    | block blocked =>
      obtain ⟨port, rfl, hleft, hport, -⟩ := hended
      refine .inr ⟨port, by simpa [Instance.waitList, hleft] using hwaiting, ?_⟩
      rw [hwires] at hlive
      obtain ⟨n, havail, hdry⟩ := h.availability hlive hport
      rw [Instance.availability_eq_left hopen, ← hports, hleft] at havail
      rw [hid]
      exact hdry.1 (Except.ok.inj havail).symm

theorem keeps_idle (P : Plan) (A : Counts) (loopMax : Nat) :
    Overlap.Keeps loopMax true (fun F => P.Describes A F) (P.Idle A) := by
  intro F k inst inst' wires answer h hk ha hidle
  obtain ⟨wires1, inst1, answer1, hattempt, -, hquiet⟩ := Resting.attempts (h.stands hk) h.live loopMax
  rw [ha] at hattempt
  cases hattempt
  obtain ⟨hid, hlive, hrest, hwaits⟩ := hquiet (hidle rfl)
  exact ⟨h.put hk (.refl A _) hlive hid hrest, hwaits⟩

theorem Resting.idle_iff (h : P.Resting A inst) (hlive : P.Live A wires) : inst.Idle wires ↔ P.Idle A inst := by
  obtain ⟨b, hb, hblocked⟩ := h.stillBlocked hlive
  rw [Instance.Idle, Idle, hb, ← hblocked, Except.ok.injEq]

/-- where everybody is idle, the state is complete -/
theorem Describes.complete {n : Network Component} (h : P.Describes A (Overlap.start n))
    (hidle : ∀ inst ∈ n.instances, P.Idle A inst) : (Overlap.start n).Complete := by
  intro x hx
  obtain ⟨inst, hinst, rfl⟩ := mem_map.1 hx
  obtain ⟨k, hk⟩ := getElem?_of_mem hx
  have hrest : P.Resting A inst := h.stands hk
  exact ⟨rfl, (hrest.idle_iff h.live).2 (hidle inst hinst)⟩

end Plan

theorem Overlap.allTerminated_start {σ : Type} (n : Network σ) :
    (Overlap.start n).workers.all (·.inst.terminated) = n.allTerminated := by
  simp [Overlap.start, Network.allTerminated, Network.instances, Partition.allTerminated,
    all_flatMap, Function.comp_def]

/-- a run on one thread that ends by itself is a run of overlapping attempts, and ends where nobody can go on -/
theorem Plan.Describes.inline {P : Plan} {A : Counts} {n : Network Component} (h : P.Describes A (Overlap.start n))
    {config : RunConfig} {fuel : Nat} {summary : RunSummary}
    (hend : (n.runInline config fuel).ended = .finished summary) (hlimit : summary.outcome ≠ .passLimit) :
    ∃ ops, (Overlap.start n).run ops = Overlap.start (n.runInline config fuel).network ∧
      (Overlap.start (n.runInline config fuel).network).Complete ∧
      (Overlap.start (n.runInline config fuel).network).outcome = summary.outcome := by
  unfold Network.runInline at hend ⊢
  obtain ⟨before, stats, ⟨ops, hreach⟩, hlast⟩ := (Overlap.keeps_reached (Overlap.start n)).inline
    (by simp [Network.freshStats]) ⟨[], rfl⟩ hend hlimit
  set after := (Network.runRounds id config fuel 0 n n.freshStats #[]).network
  have hstart : Overlap.start after =
      ⟨(Network.round config.loopMax before.wires before.partitions stats).wires, Overlap.resting
        ((Network.round config.loopMax before.wires before.partitions stats).partitions.flatMap (·.instances))⟩ := by
    rw [← hlast.wires, ← hlast.partitions]
    rfl
  obtain ⟨⟨ops', hops'⟩, -⟩ := (Overlap.keeps_reached (Overlap.start n)).round hlast.count hlast.fault
    (by simp) ⟨ops, hreach⟩
  refine ⟨ops', by rw [hops', hstart], ?_⟩
  have hended := hlast.ended
  rw [Overlap.outcome, Overlap.allTerminated_start]
  by_cases hall : after.allTerminated = true
  · rw [if_pos hall] at hended ⊢
    refine ⟨fun x hx => ?_, hended.symm⟩
    rw [← Overlap.allTerminated_start, all_eq_true] at hall
    obtain ⟨inst, -, rfl⟩ := mem_map.1 hx
    exact ⟨rfl, .inl (hall _ hx)⟩
  · rw [if_neg hall] at hended ⊢
    obtain ⟨A', hA', -⟩ := h.run ops
    rw [hreach] at hA'
    obtain ⟨hdescribes, hidle⟩ := (keeps_idle P A' config.loopMax).round hlast.count hlast.fault (fun _ => hended.2) hA'
    rw [← hstart] at hdescribes
    rw [← hlast.partitions] at hidle
    exact ⟨hdescribes.complete hidle, hended.1.symm⟩

end Dataflow
