import Dataflow.Proofs.QuietAttempt
import Dataflow.Proofs.PortOverlap
import Dataflow.Proofs.Wiring

/-!
Ends that are held by one port each.

The part of one instance only raises the limits of the ends that others hold (`PortEnd.Later`), so no open view promises
too much (`PortOverlap.Sound.step`).
-/

namespace Dataflow

open Function List

/-- the end of a connection that a port holds, with its own total -/
structure PortEnd where
  wire : Nat
  side : Side
  total : UInt32
deriving DecidableEq

def Instance.portEnd? {σ : Type} (inst : Instance σ) : PortId → Option PortEnd
  | .input i => inst.inputs[i]?.map fun e => ⟨e.wire, .reader e.item.reader, e.item.consumed⟩
  | .output o => inst.outputs[o]?.map fun e => ⟨e.wire, .writer, e.item.produced⟩

namespace PortEnd

variable {b b' : PortEnd} {wires wires' : List Connection} {tally tally' : Nat → Tally} {v : Attached PortView}
  {n : Nat}

def place (b : PortEnd) : Nat × Side := (b.wire, b.side)

/-- tokens moved in all -/
def moved (b : PortEnd) (tally : Nat → Tally) : Nat := (tally b.wire).moved b.side

/-- how many it may have moved, as things stand -/
def limit (b : PortEnd) (wires : List Connection) (tally : Nat → Tally) : Nat :=
  (tally b.wire).limit ((wires[b.wire]?.map (·.capacity)).getD 0) b.side

theorem limit_of_place (h : b'.place = b.place) : b'.limit wires tally = b.limit wires tally := by
  obtain ⟨hw, hside⟩ := Prod.mk.inj h
  rw [limit, limit, hw, hside]

theorem moved_of_place (h : b'.place = b.place) : b'.moved tally = b.moved tally := by
  obtain ⟨hw, hside⟩ := Prod.mk.inj h
  rw [moved, moved, hw, hside]

/-- the totals are those of the tally -/
structure Lies (b : PortEnd) (wires : List Connection) (tally : Nat → Tally) : Prop where
  wire : ∃ c, wires[b.wire]? = some c ∧ c.Counts (tally b.wire)
  has : (tally b.wire).Has b.side
  total : b.total = UInt32.ofNat (b.moved tally)

/-- an open view of the end promises no more than the end may move -/
structure Bears (b : PortEnd) (wires : List Connection) (tally : Nat → Tally) (v : Attached PortView) : Prop where
  wire : v.wire = b.wire
  available : v.item.available ≤ v.item.openedWith
  opened : b.moved tally + v.item.openedWith ≤ b.limit wires tally

/-- what happened did not move the end; it may have raised its limit -/
structure Later (b : PortEnd) (wires : List Connection) (tally : Nat → Tally) (wires' : List Connection)
    (tally' : Nat → Tally) : Prop where
  lies : b.Lies wires' tally'
  moved : b.moved tally' = b.moved tally
  limit : b.limit wires tally ≤ b.limit wires' tally'

theorem Lies.moved_le (h : b.Lies wires tally) : b.moved tally ≤ b.limit wires tally := by
  obtain ⟨c, hc, hcounts⟩ := h.wire
  simpa [limit, moved, hc] using hcounts.moved_le h.has

theorem Later.refl (h : b.Lies wires tally) : b.Later wires tally wires tally := ⟨h, rfl, le_rfl⟩

theorem Bears.later (h : b.Bears wires tally v) (hlater : b.Later wires tally wires' tally') :
    b.Bears wires' tally' v :=
  ⟨h.wire, h.available, by rw [hlater.moved]; exact h.opened.trans hlater.limit⟩

/-- what went through a view fits below the limit -/
theorem Bears.moved_le (h : b.Bears wires tally v) : b.moved tally + v.item.moved ≤ b.limit wires tally :=
  (Nat.add_le_add_left (Nat.sub_le _ _) _).trans h.opened

/-- levels and tallies are all that counts -/
theorem later_of_levels (h : b.Lies wires tally)
    (hlevels : wires'.map Connection.levels = wires.map Connection.levels) : b.Later wires tally wires' tally := by
  obtain ⟨c, hc, hcounts⟩ := h.wire
  obtain ⟨c', hc', heq⟩ := Instance.fetch_levels hlevels (fetch_eq_ok hc)
  obtain ⟨hcapacity, hrest⟩ := Prod.mk.inj heq
  obtain ⟨hproduced, hconsumed⟩ := Prod.mk.inj hrest
  have hget := fetch_eq_some hc'
  refine ⟨⟨⟨c', hget, hcounts.congr hcapacity hproduced hconsumed⟩, h.has, h.total⟩, rfl, ?_⟩
  simp [limit, hc, hget, hcapacity]

section Close

attribute [local simp] moved limit

variable {c c' : Connection} {total : UInt32}

/-- the end itself, when its port is closed after `n` tokens -/
theorem Lies.close (h : b.Lies wires tally) (hc : wires[b.wire]? = some c)
    (hcloses : c.Closes b.side b.total n c' total) (hlimit : b.moved tally + n ≤ b.limit wires tally) :
    let tally' := update tally b.wire ((tally b.wire).move b.side n)
    PortEnd.Lies { b with total } (wires.set b.wire c') tally' ∧ b.moved tally' = b.moved tally + n ∧
      b.limit (wires.set b.wire c') tally' = b.limit wires tally := by
  obtain ⟨d, hd, hcounts⟩ := h.wire
  rw [hc] at hd
  cases hd
  have hlt := lt_of_getElem? hc
  simp only [limit, moved, hc, Option.map_some, Option.getD_some] at hlimit
  obtain ⟨hcounts', htotal⟩ := hcloses.counts hcounts h.has h.total hlimit
  refine ⟨⟨⟨c', getElem?_set_self hlt, ?_⟩, ?_, ?_⟩, ?_, ?_⟩
  · rw [update_self]
    exact hcounts'
  · rw [update_self]
    exact h.has.move b.side n
  · rw [htotal]
    simp [Tally.moved_move_self h.has]
  · simp [Tally.moved_move_self h.has]
  · simp [getElem?_set_self hlt, hc, hcloses.capacity, Tally.limit_move_self]

theorem later_of_close (h : b.Lies wires tally) (hb : b'.Lies wires tally) (hne : b'.place ≠ b.place)
    (hc : wires[b.wire]? = some c) (hcloses : c.Closes b.side b.total n c' total)
    (hlimit : b.moved tally + n ≤ b.limit wires tally) :
    b'.Later wires tally (wires.set b.wire c') (update tally b.wire ((tally b.wire).move b.side n)) := by
  by_cases hw : b'.wire = b.wire
  · -- the same connection, so another side of it
    have hside : b'.side ≠ b.side := fun hside => hne (by rw [place, place, hw, hside])
    obtain ⟨⟨⟨d, hd, hcounts⟩, -, -⟩, -, -⟩ := h.close hc hcloses hlimit
    rw [update_self] at hcounts
    have hcapacity : ((wires.set b.wire c')[b'.wire]?.map (·.capacity)).getD 0 =
      (wires[b'.wire]?.map (·.capacity)).getD 0 := by
      have hlt := lt_of_getElem? hc
      simp [hw, getElem?_set_self hlt, hc, hcloses.capacity]
    have hmoved : b'.moved (update tally b.wire ((tally b.wire).move b.side n)) = b'.moved tally := by
      simp [hw, Tally.moved_move_of_ne hside]
    refine ⟨⟨⟨d, by rw [hw]; exact hd, ?_⟩, ?_, ?_⟩, hmoved, ?_⟩
    · rw [hw, update_self]
      exact hcounts
    · rw [hw, update_self]
      have hhas := hb.has
      rw [hw] at hhas
      exact hhas.move b.side n
    · rw [hmoved]
      exact hb.total
    · rw [limit, limit, hcapacity, hw, update_self]
      exact Tally.limit_le_move h.has
  · have hmoved : b'.moved (update tally b.wire ((tally b.wire).move b.side n)) = b'.moved tally := by
      simp [update_of_ne hw]
    obtain ⟨d, hd, hcounts⟩ := hb.wire
    refine ⟨⟨⟨d, by rw [getElem?_set_ne (Ne.symm hw)]; exact hd, ?_⟩, ?_, ?_⟩, hmoved, ?_⟩
    · rw [update_of_ne hw]
      exact hcounts
    · rw [update_of_ne hw]
      exact hb.has
    · rw [hmoved]
      exact hb.total
    · simp [update_of_ne hw, getElem?_set_ne (Ne.symm hw)]

end Close

end PortEnd

variable {σ : Type} {p : PortId}

/-- what a port has is what its end may still move -/
theorem Instance.availability_eq_limit {inst : Instance σ} {b : PortEnd} {wires : List Connection}
    {tally : Nat → Tally} (hb : inst.portEnd? p = some b) (h : b.Lies wires tally) :
    inst.availability wires p = .ok (b.limit wires tally - b.moved tally) := by
  obtain ⟨c, hc, hcounts⟩ := h.wire
  cases p with
  | input i =>
    obtain ⟨e, he, rfl⟩ := Option.map_eq_some_iff.1 hb
    have havailable := hcounts.available_eq h.has h.total
    simp only [Instance.availability, he, fetch_eq_ok hc, Checked.ok_bind, havailable]
    simp [PortEnd.limit, PortEnd.moved, hc]
  | output o =>
    obtain ⟨e, he, rfl⟩ := Option.map_eq_some_iff.1 hb
    have hrooms := hcounts.rooms_eq h.has h.total
    simp only [Instance.availability, he, fetch_eq_ok hc, Checked.ok_bind, hrooms]
    simp [PortEnd.limit, PortEnd.moved, hc]

/-! ## Parts -/

def Ports.view? (ports : Ports) : PortId → Option (Attached PortView)
  | .input i => ports.inputs[i]?
  | .output o => ports.outputs[o]?

theorem Ports.left_of_view? {ports : Ports} {v : Attached PortView} (h : ports.view? p = some v) :
    ports.left p = v.item.available := by
  cases p <;> simp_all [Ports.view?, Ports.left]

/-- as many views as there are ends -/
def Moment.Fits (inst : Instance σ) : Moment → Prop
  | .opening inputs outputs => inputs.length ≤ inst.inputs.length ∧ outputs.length ≤ inst.outputs.length
  | .closing ports _ _ _ => ports.inputs.length = inst.inputs.length ∧ ports.outputs.length = inst.outputs.length
  | _ => True

attribute [local simp] Instance.portEnd?

namespace PortWorker

variable [Behaviour σ] {wires : List Connection} {tally : Nat → Tally} {s : PortWorker σ} {maxLoops : Nat}

/-- what the next part of an attempt can do to connections, tallies and its own worker -/
inductive Advances (wires : List Connection) (tally : Nat → Tally) (maxLoops : Nat) (s : PortWorker σ) :
    List Connection → (Nat → Tally) → PortWorker σ → Prop where
  /-- decides whether to go on -/
  | waits {moment : Moment} {skipped : Nat} (hidle : s.moment.idle = true)
    (hnext : moment.idle = true ∨ moment = .opening [] []) :
    Advances wires tally maxLoops s wires tally ⟨{ s.inst with stats := { s.inst.stats with skipped } }, moment⟩
  | faults (f : Fault) : Advances wires tally maxLoops s wires tally (s.goTo (.faulted f))
  | opens (p : PortId) {b : PortEnd} {v : Attached PortView}
      {inputs outputs inputs' outputs' : List (Attached PortView)}
    (hmoment : s.moment = .opening inputs outputs) (hnext : s.opensNext? = some p) (hb : s.inst.portEnd? p = some b)
    (hlevel : s.inst.availability wires p = .ok v.item.openedWith) (hwire : v.wire = b.wire)
    (hunused : v.item.available = v.item.openedWith)
    (hviews : ∀ p', (Moment.opening inputs' outputs').view? p' = if p' = p then some v else s.moment.view? p')
    (hfits : (Moment.opening inputs' outputs').Fits s.inst) :
    Advances wires tally maxLoops s wires tally (s.goTo (.opening inputs' outputs'))
  | calls (inputs outputs : List (Attached PortView)) {turn : Turn σ} (hmoment : s.moment = .opening inputs outputs)
    (hinputs : inputs.length = s.inst.inputs.length) (houtputs : outputs.length = s.inst.outputs.length)
    (hturn : turn = Behaviour.act maxLoops s.inst.actor { wires, inputs, outputs }) :
    Advances wires tally maxLoops s turn.ports.wires tally
      ⟨{ s.inst with actor := turn.actor }, .closing turn.ports turn.exit 0 0⟩
  | closes (p : PortId) {b : PortEnd} {v : Attached PortView} {ports : Ports} {exit : Checked Exit} {i o i' o' : Nat}
    {c c' : Connection} {total : UInt32} {inst : Instance σ} (hmoment : s.moment = .closing ports exit i o)
    (hb : s.inst.portEnd? p = some b) (hv : s.moment.view? p = some v) (hc : wires[b.wire]? = some c)
    (hcloses : c.Closes b.side b.total v.item.moved c' total) (hown : inst.portEnd? p = some { b with total })
    (hothers : ∀ p', p' ≠ p → inst.portEnd? p' = s.inst.portEnd? p')
    (hinst : inst = { s.inst with inputs := inst.inputs, outputs := inst.outputs })
    (hviews : ∀ p', (Moment.closing ports exit i' o').view? p' = if p' = p then none else s.moment.view? p')
    (hfits : (Moment.closing ports exit i' o').Fits inst) :
    Advances wires tally maxLoops s (wires.set b.wire c')
      (update tally b.wire ((tally b.wire).move b.side v.item.moved)) ⟨inst, .closing ports exit i' o'⟩
  | books {ports : Ports} {exit : Exit} {i o : Nat} (hmoment : s.moment = .closing ports (.ok exit) i o)
    (hinputs : s.inst.inputs.length ≤ i) (houtputs : s.inst.outputs.length ≤ o) :
    Advances wires tally maxLoops s wires tally ⟨s.inst.book exit (Instance.waitList ports exit) ports.firing, .resting⟩

section

variable {wires' : List Connection} {tally' : Nat → Tally} {s' : PortWorker σ}
  (hadv : s.Advances wires tally maxLoops wires' tally' s')

include hadv

/-- a worker that has faulted stays so -/
theorem Advances.of_faulted {f : Fault} (hf : s.moment = .faulted f) : ∃ f', s'.moment = .faulted f' := by
  cases hadv with
  | waits hidle =>
    rw [hf] at hidle
    cases hidle
  | faults f' => exact ⟨f', rfl⟩
  | opens q hmoment | calls inputs outputs hmoment | closes q hmoment | books hmoment => cases hf.symm.trans hmoment

theorem Advances.place (p : PortId) :
    (s'.inst.portEnd? p).map PortEnd.place = (s.inst.portEnd? p).map PortEnd.place := by
  cases hadv with
  | waits | faults | opens | books | calls => rfl
  | closes q hmoment hb hv hc hcloses hown hothers hinst hviews hfits =>
    by_cases hp : p = q
    · rw [hp, hown, hb]
      rfl
    · exact congrArg _ (hothers p hp)

end

section Views

variable {inputs outputs : List (Attached PortView)} {v : Attached PortView} {ports : Ports} {exit : Checked Exit}
  {i o : Nat}

theorem view?_openInput (p : PortId) : (Moment.opening (inputs ++ [v]) outputs).view? p =
    if p = .input inputs.length then some v else (Moment.opening inputs outputs).view? p := by
  cases p <;> grind [Moment.view?]

theorem view?_openOutput (p : PortId) : (Moment.opening inputs (outputs ++ [v])).view? p =
    if p = .output outputs.length then some v else (Moment.opening inputs outputs).view? p := by
  cases p <;> grind [Moment.view?]

theorem view?_closeInput (p : PortId) : (Moment.closing ports exit (i + 1) o).view? p =
    if p = .input i then none else (Moment.closing ports exit i o).view? p := by
  cases p <;> grind [Moment.view?]

theorem view?_closeOutput (p : PortId) : (Moment.closing ports exit i (o + 1)).view? p =
    if p = .output o then none else (Moment.closing ports exit i o).view? p := by
  cases p <;> grind [Moment.view?]

end Views

section Closing

variable {ports : Ports} {exit : Checked Exit} {i o : Nat} {b : PortEnd} {v : Attached PortView}

omit [Behaviour σ] in
/-- once all ports are closed, none of them has an open view -/
theorem view?_of_closed (hmoment : s.moment = .closing ports exit i o) (hinputs : s.inst.inputs.length ≤ i)
    (houtputs : s.inst.outputs.length ≤ o) (hb : s.inst.portEnd? p = some b) : s.moment.view? p = none := by
  rw [hmoment]
  cases p with
  | input j | output j =>
    obtain ⟨e, he, -⟩ := Option.map_eq_some_iff.1 hb
    have hlt := lt_of_getElem? he
    exact if_neg (by omega)

omit [Behaviour σ] in
theorem view?_of_closing (hmoment : s.moment = .closing ports exit i o) (h : s.moment.view? p = some v) :
    ports.view? p = some v := by
  rw [hmoment] at h
  cases p with
  | input j | output j => exact (Option.ite_none_right_eq_some.1 h).2

end Closing

section Ends

variable {inst : Instance σ} {i : Nat}

omit [Behaviour σ] in
theorem portEnd?_setInput {e : Attached InputEnd} {item : InputEnd} (he : inst.inputs[i]? = some e)
    (hreader : item.reader = e.item.reader) (p : PortId) :
    { inst with inputs := inst.inputs.set i { e with item } }.portEnd? p =
      if p = .input i then some ⟨e.wire, .reader e.item.reader, item.consumed⟩ else inst.portEnd? p := by
  have hlt := lt_of_getElem? he
  cases p with
  | output o => simp
  | input j =>
    by_cases hj : j = i
    · simp [hj, getElem?_set_self hlt, hreader]
    · simp [hj, getElem?_set_ne (Ne.symm hj)]

omit [Behaviour σ] in
theorem portEnd?_setOutput {e : Attached OutputEnd} {item : OutputEnd} (he : inst.outputs[i]? = some e) (p : PortId) :
    { inst with outputs := inst.outputs.set i { e with item } }.portEnd? p =
      if p = .output i then some ⟨e.wire, .writer, item.produced⟩ else inst.portEnd? p := by
  have hlt := lt_of_getElem? he
  cases p with
  | input j => simp
  | output j =>
    by_cases hj : j = i
    · simp [hj, getElem?_set_self hlt]
    · simp [hj, getElem?_set_ne (Ne.symm hj)]

end Ends

end PortWorker

theorem Connection.closeInput_reader (c : Connection) (e : InputEnd) (v : PortView) :
    (c.closeInput e v).2.reader = e.reader := by
  unfold Connection.closeInput
  split <;> rfl

namespace PortWorker

variable [Behaviour σ] {wires : List Connection} {tally : Nat → Tally} {s : PortWorker σ} {maxLoops : Nat}
  {inst : Instance σ} {inputs outputs : List (Attached PortView)}

theorem enter_advances (hidle : s.moment.idle = true) : s.Advances wires tally maxLoops wires tally s.enter := by
  unfold enter
  split
  · exact .waits hidle (.inl hidle)
  split
  · exact .waits hidle (.inl rfl)
  · exact .waits hidle (.inr rfl)

theorem compare_advances (hidle : s.moment.idle = true) (ports : List (PortId × Nat)) :
    s.Advances wires tally maxLoops wires tally (s.compare wires ports) := by
  cases ports with
  | nil => exact .waits hidle (.inl rfl)
  | cons first rest =>
    obtain ⟨port, seen⟩ := first
    rw [compare]
    split
    · exact .faults _
    next now _ =>
    by_cases hseen : now = seen
    · exact .waits hidle (.inl (by rw [if_pos hseen]; rfl))
    · exact .waits hidle (.inr (if_neg hseen))

theorem openInput_advances {e : Attached InputEnd} (he : inst.inputs[inputs.length]? = some e)
    (hfits : (Moment.opening inputs outputs).Fits inst) :
    Advances wires tally maxLoops ⟨inst, .opening inputs outputs⟩ wires tally
      (openInput ⟨inst, .opening inputs outputs⟩ wires e inputs outputs) := by
  have hlt : inputs.length < inst.inputs.length := lt_of_getElem? he
  unfold openInput
  split
  · exact .faults _
  next c hc =>
  refine .opens (.input inputs.length) (b := ⟨e.wire, .reader e.item.reader, e.item.consumed⟩) rfl ?_ ?_ ?_ rfl rfl
    view?_openInput ⟨by simp; omega, hfits.2⟩
  · simp [opensNext?, hlt]
  · simp [he]
  · simp [Instance.availability, he, hc, Connection.openInput]

theorem openOutput_advances {e : Attached OutputEnd} (hge : inst.inputs.length ≤ inputs.length)
    (he : inst.outputs[outputs.length]? = some e) (hfits : (Moment.opening inputs outputs).Fits inst) :
    Advances wires tally maxLoops ⟨inst, .opening inputs outputs⟩ wires tally
      (openOutput ⟨inst, .opening inputs outputs⟩ wires e inputs outputs) := by
  have hlt : outputs.length < inst.outputs.length := lt_of_getElem? he
  unfold openOutput
  split
  · exact .faults _
  next v hv =>
  obtain ⟨c, hc, hv⟩ := bind_eq_ok hv
  obtain ⟨rooms, hrooms, hv⟩ := bind_eq_ok hv
  cases hv
  refine .opens (.output outputs.length) (b := ⟨e.wire, .writer, e.item.produced⟩) rfl ?_ ?_ ?_ rfl rfl
    view?_openOutput ⟨hfits.1, by simp; omega⟩
  · simp [opensNext?, hlt, hge]
  · simp [he]
  · simp [Instance.availability, he, hc, hrooms]

end PortWorker

namespace PortOverlap

open PortWorker

variable [Behaviour σ] {W : PortOverlap σ} {k maxLoops : Nat} {s : PortWorker σ}

/-- `W'` is what the next part of worker `s` at place `k` makes of `W` -/
def Proceeds (W : PortOverlap σ) (k maxLoops : Nat) (s : PortWorker σ) (W' : PortOverlap σ) : Prop :=
  ∃ wires tally s', W' = ⟨wires, tally, W.workers.set k s'⟩ ∧ s.Advances W.wires W.tally maxLoops wires tally s'

section Closing

variable {inst : Instance σ} {ports : Ports} {exit : Checked Exit} {i o : Nat} {v : Attached PortView}

theorem closeInput_proceeds {e : Attached InputEnd} (he : inst.inputs[i]? = some e) (hv : ports.inputs[i]? = some v)
    (hfits : (Moment.closing ports exit i o).Fits inst) : W.Proceeds k maxLoops ⟨inst, .closing ports exit i o⟩
      (W.closeInput k ⟨inst, .closing ports exit i o⟩ ports exit i o e v.item) := by
  unfold closeInput
  split
  · exact ⟨W.wires, W.tally, _, rfl, .faults _⟩
  next c hc =>
  have hreader := c.closeInput_reader e.item v.item
  refine ⟨_, _, _, rfl, .closes (.input i) (b := ⟨e.wire, .reader e.item.reader, e.item.consumed⟩) rfl ?_ ?_
    (fetch_eq_some hc) (c.closes_input e.item v.item) ?_ ?_ rfl view?_closeInput ?_⟩
  · simp [he]
  · simp [Moment.view?, hv]
  · rw [portEnd?_setInput he hreader, if_pos rfl]
  · intro p' hp'
    rw [portEnd?_setInput he hreader, if_neg hp']
  · simpa [Moment.Fits] using hfits

theorem closeOutput_proceeds {e : Attached OutputEnd} (he : inst.outputs[o]? = some e) (hv : ports.outputs[o]? = some v)
    (hfits : (Moment.closing ports exit i o).Fits inst) : W.Proceeds k maxLoops ⟨inst, .closing ports exit i o⟩
      (W.closeOutput k ⟨inst, .closing ports exit i o⟩ ports exit i o e v.item) := by
  unfold closeOutput
  split
  · exact ⟨W.wires, W.tally, _, rfl, .faults _⟩
  next c hc =>
  refine ⟨_, _, _, rfl, .closes (.output o) (b := ⟨e.wire, .writer, e.item.produced⟩) rfl ?_ ?_
    (fetch_eq_some hc) (c.closes_output e.item v.item) ?_ ?_ rfl view?_closeOutput ?_⟩
  · simp [he]
  · simp [Moment.view?, hv]
  · rw [portEnd?_setOutput he, if_pos rfl]
  · intro p' hp'
    rw [portEnd?_setOutput he, if_neg hp']
  · simpa [Moment.Fits] using hfits

end Closing

theorem advance_cases (hk : W.workers[k]? = some s) (hfits : s.moment.Fits s.inst) :
    W.Proceeds k maxLoops s (W.advance k maxLoops s) := by
  obtain ⟨inst, moment⟩ := s
  cases moment with
  | resting => exact ⟨W.wires, W.tally, _, rfl, enter_advances rfl⟩
  | comparing ports => exact ⟨W.wires, W.tally, _, rfl, compare_advances rfl ports⟩
  | opening inputs outputs =>
    unfold advance
    dsimp only
    split
    · next e he => exact ⟨W.wires, W.tally, _, rfl, openInput_advances he hfits⟩
    next hin =>
    have hge := getElem?_eq_none_iff.1 hin
    split
    · next e he => exact ⟨W.wires, W.tally, _, rfl, openOutput_advances hge he hfits⟩
    next hout =>
    exact ⟨_, W.tally, _, rfl, .calls inputs outputs rfl (le_antisymm hfits.1 hge)
      (le_antisymm hfits.2 (getElem?_eq_none_iff.1 hout)) rfl⟩
  | closing ports exit i o =>
    unfold advance
    dsimp only
    split
    · next e v hzip =>
      obtain ⟨he, hv⟩ := getElem?_zip_eq_some.1 hzip
      exact closeInput_proceeds he hv hfits
    next hin =>
    split
    · next e v hzip =>
      obtain ⟨he, hv⟩ := getElem?_zip_eq_some.1 hzip
      exact closeOutput_proceeds he hv hfits
    next hout =>
    refine ⟨W.wires, W.tally, _, rfl, ?_⟩
    cases exit with
    | error f => exact .faults f
    | ok exit =>
      obtain ⟨hfitIn, hfitOut⟩ := hfits
      have hlenIn := getElem?_eq_none_iff.1 hin
      have hlenOut := getElem?_eq_none_iff.1 hout
      rw [length_zip, hfitIn, min_self] at hlenIn
      rw [length_zip, hfitOut, min_self] at hlenOut
      exact .books rfl hlenIn hlenOut
  | faulted f =>
    refine ⟨W.wires, W.tally, ⟨inst, .faulted f⟩, ?_, .faults f⟩
    rw [set_of_getElem? hk]
    rfl

end PortOverlap

/-! ## Soundness -/

/-- every end of an instance lies where the tallies say, and its open views promise no more than that -/
structure PortWorker.Holds (s : PortWorker σ) (wires : List Connection) (tally : Nat → Tally) : Prop where
  portEnd : ∀ {p b}, s.inst.portEnd? p = some b → b.Lies wires tally
  view : ∀ {p b v}, s.inst.portEnd? p = some b → s.moment.view? p = some v →
    b.Bears wires tally v
  fits : s.moment.Fits s.inst

/-- all instances hold their ends, each of them alone -/
structure PortOverlap.Sound (W : PortOverlap σ) : Prop where
  holds : ∀ {k : Nat} {s}, W.workers[k]? = some s → s.Holds W.wires W.tally
  alone : ∀ {k k' : Nat} {s s' p p' b b'}, W.workers[k]? = some s → W.workers[k']? = some s' →
    s.inst.portEnd? p = some b → s'.inst.portEnd? p' = some b' → b.place = b'.place → k = k' ∧ p = p'

namespace PortWorker

variable {wires : List Connection} {tally : Nat → Tally} {s : PortWorker σ}

/-- a worker whose ends are the same and whose ports are shut -/
theorem Holds.shut {s' : PortWorker σ} (h : s.Holds wires tally)
    (hportEnd : ∀ p, s'.inst.portEnd? p = s.inst.portEnd? p) (hshut : ∀ p, s'.moment.view? p = none)
    (hfits : s'.moment.Fits s'.inst) : s'.Holds wires tally := by
  refine ⟨fun hb => h.portEnd (hportEnd _ ▸ hb), fun _ hv => ?_, hfits⟩
  rw [hshut] at hv
  cases hv

/-- an instance that holds its ends can open its ports -/
theorem Holds.openPorts (h : s.Holds wires tally) : ∃ ports, s.inst.openPorts wires = .ok ports := by
  have hends : ∀ {p b}, s.inst.portEnd? p = some b → ∃ c, wires[b.wire]? = some c := by
    intro p b hb
    obtain ⟨c, hc, -⟩ := (h.portEnd hb).wire
    exact ⟨c, hc⟩
  have hin : ∀ e ∈ s.inst.inputs, ∃ c, wires[e.wire]? = some c := by
    intro e he
    obtain ⟨i, hi⟩ := getElem?_of_mem he
    exact hends (by rw [Instance.portEnd?, hi]; rfl)
  have hout : ∀ e ∈ s.inst.outputs, ∃ c v, wires[e.wire]? = some c ∧ c.openOutput e.item = .ok v := by
    intro e he
    obtain ⟨o, ho⟩ := getElem?_of_mem he
    have hb : s.inst.portEnd? (.output o) = some ⟨e.wire, .writer, e.item.produced⟩ :=
      by rw [Instance.portEnd?, ho]; rfl
    obtain ⟨c, hc⟩ := hends hb
    have hrooms := Instance.availability_eq_limit hb (h.portEnd hb)
    simp only [Instance.availability, ho, fetch_eq_ok hc, Checked.ok_bind] at hrooms
    exact ⟨c, _, hc, by rw [Connection.openOutput, hrooms]; rfl⟩
  obtain ⟨ins, outs, hopen⟩ := Instance.openPorts_ok hin hout
  exact ⟨_, hopen⟩

end PortWorker

variable {m : Moment}

theorem Moment.view?_of_idle (h : m.idle = true ∨ m = .opening [] []) (p : PortId) : m.view? p = none := by
  rcases h with h | rfl
  · cases m <;> cases p <;> first | rfl | cases h
  · cases p <;> rfl

/-- where one view is shut, the others stay as they are -/
theorem Moment.view?_kept {m' : Moment} {q : PortId} (hviews : ∀ p, m'.view? p = if p = q then none else m.view? p)
    (hp : p ≠ q) : m.view? p = none ∨ m'.view? p ≠ none := by
  rw [hviews, if_neg hp]
  exact Decidable.em _

section Calls

variable {s : PortWorker σ} {wires : List Connection} {inputs outputs : List (Attached PortView)} {ports : Ports}
  {exit : Checked Exit} {v : Attached PortView}

/-- a view after a call is what the call has left of one before -/
theorem PortWorker.view?_call (hmoment : s.moment = .opening inputs outputs)
    (hleads : Ports.Leads { wires, inputs, outputs } ports) (hv : (Moment.closing ports exit 0 0).view? p = some v) :
    ∃ u, s.moment.view? p = some u ∧ PortView.Used u v := by
  rw [hmoment]
  cases p with
  | input i => exact Ports.exists_unused hleads.inputs (by simpa [Moment.view?] using hv)
  | output o => exact Ports.exists_unused hleads.outputs (by simpa [Moment.view?] using hv)

/-- a call leaves something of every view -/
theorem PortWorker.view?_called (hmoment : s.moment = .opening inputs outputs)
    (hleads : Ports.Leads { wires, inputs, outputs } ports) (hv : s.moment.view? p = some v) :
    ∃ u, (Moment.closing ports exit 0 0).view? p = some u ∧ PortView.Used v u := by
  rw [hmoment] at hv
  cases p with
  | input i =>
    obtain ⟨u, hu, hused⟩ := Ports.exists_used hleads.inputs hv
    exact ⟨u, by simpa [Moment.view?] using hu, hused⟩
  | output o =>
    obtain ⟨u, hu, hused⟩ := Ports.exists_used hleads.outputs hv
    exact ⟨u, by simpa [Moment.view?] using hu, hused⟩

end Calls

namespace PortOverlap

variable [Behaviour σ] {W : PortOverlap σ} {k maxLoops : Nat} {s s' : PortWorker σ} {wires : List Connection}
  {tally : Nat → Tally} {least : Nat} {Drift : σ → σ → Prop} {W' : PortOverlap σ}

omit [Behaviour σ] in
/-- one instance moves on, the ends of the others keep what they had -/
theorem Sound.change (h : W.Sound) (hk : W.workers[k]? = some s)
    (hplace : ∀ p, (s'.inst.portEnd? p).map PortEnd.place = (s.inst.portEnd? p).map PortEnd.place)
    (hothers : ∀ {j t p b}, j ≠ k → W.workers[j]? = some t → t.inst.portEnd? p = some b →
      b.Later W.wires W.tally wires tally)
    (hown : s'.Holds wires tally) : PortOverlap.Sound ⟨wires, tally, W.workers.set k s'⟩ := by
  -- each worker now stands for one before with the same ends
  have hbefore : ∀ {j : Nat} {t p b}, (W.workers.set k s')[j]? = some t →
      t.inst.portEnd? p = some b → ∃ u b', W.workers[j]? = some u ∧ u.inst.portEnd? p = some b' ∧
      b'.place = b.place := by
    intro j t p b hj hb
    rcases getElem?_set_cases hj with ⟨rfl, rfl⟩ | ⟨-, hj⟩
    · have hp := hplace p
      rw [hb] at hp
      obtain ⟨b', hb', heq⟩ := Option.map_eq_some_iff.1 hp.symm
      exact ⟨s, b', hk, hb', heq⟩
    · exact ⟨t, b, hj, hb, rfl⟩
  refine ⟨fun hj => ?_, fun hj hj' hb hb' heq => ?_⟩
  · rcases getElem?_set_cases hj with ⟨rfl, rfl⟩ | ⟨hne, hj⟩
    · exact hown
    · exact ⟨fun hb => (hothers hne hj hb).lies, fun hb hv => ((h.holds hj).view hb hv).later (hothers hne hj hb),
        (h.holds hj).fits⟩
  · obtain ⟨u, c, hu, hc, hplace⟩ := hbefore hj hb
    obtain ⟨u', c', hu', hc', hplace'⟩ := hbefore hj' hb'
    exact h.alone hu hu' hc hc' (hplace.trans (heq.trans hplace'.symm))

/-- what a part of an attempt does to a sound state -/
theorem Sound.step_eq (h : W.Sound) (hk : W.workers[k]? = some s) (maxLoops : Nat) :
    W.Proceeds k maxLoops s (W.step k maxLoops) := by
  unfold step
  rw [hk]
  exact advance_cases hk (h.holds hk).fits

theorem Sound.step_cases (h : W.Sound) (k maxLoops : Nat) :
    W.step k maxLoops = W ∨ ∃ s, W.workers[k]? = some s ∧ W.Proceeds k maxLoops s (W.step k maxLoops) := by
  cases hk : W.workers[k]? with
  | none =>
    left
    rw [step, hk]
  | some s => exact .inr ⟨s, rfl, h.step_eq hk maxLoops⟩

omit [Behaviour σ] in
/-- how an actor changes on its own is of no concern to its ends -/
theorem Sound.drift (h : W.Sound) (hk : W.workers[k]? = some s) (actor : σ) :
    (W.put k { s with inst := { s.inst with actor } }).Sound := by
  refine h.change hk (fun _ => rfl) (fun _ hj hb => .refl ((h.holds hj).portEnd hb)) ?_
  have hs := h.holds hk
  refine ⟨hs.portEnd, hs.view, ?_⟩
  have hfits := hs.fits
  revert hfits
  cases s.moment <;> exact id

section

variable (hports : Behaviour.ThroughPorts σ) (h : W.Sound)

include hports h

section

variable (hk : W.workers[k]? = some s) (hadv : s.Advances W.wires W.tally maxLoops wires tally s')

include hk hadv

/-- a part leaves every end but the one that it closes -/
theorem Sound.frame {j : Nat} {t : PortWorker σ} {b : PortEnd}
    (hj : W.workers[j]? = some t) (hb : t.inst.portEnd? p = some b)
    (hopen : j = k → s.moment.view? p = none ∨ s'.moment.view? p ≠ none) : b.Later W.wires W.tally wires tally := by
  have hlies := (h.holds hj).portEnd hb
  cases hadv with
  | waits | faults | opens | books => exact .refl hlies
  | calls inputs outputs hmoment hinputs houtputs hturn =>
    subst hturn
    exact PortEnd.later_of_levels hlies (hports maxLoops s.inst.actor ⟨W.wires, inputs, outputs, #[]⟩).levels
  | closes p' hmoment hb' hv hc hcloses hown hothers hinst hviews hfits =>
    have hlimit := ((h.holds hk).view hb' hv).moved_le
    refine PortEnd.later_of_close ((h.holds hk).portEnd hb') hlies (fun hplace => ?_) hc hcloses hlimit
    obtain ⟨rfl, rfl⟩ := h.alone hj hk hb hb' hplace
    rcases hopen rfl with hshut | hkept
    · rw [hshut] at hv
      cases hv
    · exact hkept (by rw [hviews, if_pos rfl])

/-- after a part, its own instance still holds its ends -/
theorem Sound.own : s'.Holds wires tally := by
  have hs := h.holds hk
  have hframe : ∀ {p b}, s.inst.portEnd? p = some b → _ → b.Later W.wires W.tally wires tally :=
    fun hb hopen => h.frame hports hk hadv hk hb fun _ => hopen
  cases hadv with
  | waits hidle hnext =>
    refine hs.shut (fun _ => rfl) (Moment.view?_of_idle hnext) ?_
    rcases hnext with hnext | rfl
    · cases hm : ‹Moment› <;> first | trivial | (rw [hm] at hnext; cases hnext)
    · exact ⟨Nat.zero_le _, Nat.zero_le _⟩
  | faults f | books hmoment => exact hs.shut (fun _ => rfl) (fun p => by cases p <;> rfl) trivial
  | opens p hmoment hnext hb hlevel hwire hunused hviews hfits =>
    refine ⟨hs.portEnd, fun {p' b' v'} hb' hv' => ?_, hfits⟩
    have hv' := (hviews p').symm.trans hv'
    split at hv'
    · next hp =>
      cases hv'
      subst hp
      obtain rfl := Option.some.inj (hb.symm.trans hb')
      have hlies := hs.portEnd hb
      rw [Instance.availability_eq_limit hb hlies] at hlevel
      have hopened := Except.ok.inj hlevel
      have hle := hlies.moved_le
      exact ⟨hwire, hunused.le, by omega⟩
    · exact hs.view hb' hv'
  | calls inputs outputs hmoment hinputs houtputs hturn =>
    subst hturn
    have hleads := hports maxLoops s.inst.actor ⟨W.wires, inputs, outputs, #[]⟩
    have hlater : ∀ {p b}, s.inst.portEnd? p = some b → b.Later W.wires W.tally _ W.tally :=
      fun hb => PortEnd.later_of_levels (hs.portEnd hb) hleads.levels
    refine ⟨fun hb => (hlater hb).lies, fun hb hv => ?_, ?_⟩
    · obtain ⟨u, hu, hused⟩ := PortWorker.view?_call hmoment hleads hv
      have hbears := (hs.view hb hu).later (hlater hb)
      exact ⟨hused.wire.trans hbears.wire, hused.openedWith ▸ hused.available.trans hbears.available,
        hused.openedWith ▸ hbears.opened⟩
    · exact ⟨hleads.inputs.length_eq ▸ hinputs, hleads.outputs.length_eq ▸ houtputs⟩
  | closes q hmoment hb hv hc hcloses hown hothers hinst hviews hfits =>
    obtain ⟨hlies, -, -⟩ := (hs.portEnd hb).close hc hcloses (hs.view hb hv).moved_le
    refine ⟨fun {p' b'} hb' => ?_, fun {p' b' v'} hb' hv' => ?_, hfits⟩
    · by_cases hp' : p' = q
      · rw [hp', hown] at hb'
        cases hb'
        exact hlies
      · exact (hframe (hothers p' hp' ▸ hb') (Moment.view?_kept hviews hp')).lies
    · rw [hviews] at hv'
      split at hv'
      · cases hv'
      · next hp' =>
        have hb' := hothers p' hp' ▸ hb'
        exact (hs.view hb' hv').later (hframe hb' (Moment.view?_kept hviews hp'))

theorem Sound.advances : PortOverlap.Sound ⟨wires, tally, W.workers.set k s'⟩ :=
  h.change hk hadv.place (fun hne hj hb => h.frame hports hk hadv hj hb fun heq => absurd heq hne)
    (h.own hports hk hadv)

end

theorem Sound.step (k maxLoops : Nat) : (W.step k maxLoops).Sound := by
  rcases h.step_cases k maxLoops with hstep | ⟨s, hk, wires, tally, s', hstep, hadv⟩
  · rw [hstep]
    exact h
  · rw [hstep]
    exact h.advances hports hk hadv

theorem Sound.reaches (hreach : W.Reaches least Drift W') : W'.Sound := by
  induction hreach with
  | refl => exact h
  | step _ k _ ih => exact ih.step hports k _
  | drift _ hs _ ih => exact ih.drift hs _

theorem Sound.capacities (hreach : W.Reaches least Drift W') :
    W'.wires.map (·.capacity) = W.wires.map (·.capacity) := by
  induction hreach with
  | refl | drift => first | rfl | assumption
  | @step V hreach k maxLoops _ ih =>
    rcases (h.reaches hports hreach).step_cases k maxLoops with hstep | ⟨s, hk, wires, tally, s', hstep, hadv⟩
    · rw [hstep, ih]
    rw [hstep, ← ih]
    cases hadv with
    | waits | faults | opens | books => rfl
    | calls inputs outputs hmoment hinputs houtputs hturn =>
      subst hturn
      have hlevels := congrArg (map Prod.fst) (hports maxLoops s.inst.actor ⟨V.wires, inputs, outputs, #[]⟩).levels
      rw [map_map, map_map] at hlevels
      exact hlevels
    | closes q hmoment hb hv hc hcloses =>
      rw [map_set, hcloses.capacity]
      exact set_of_getElem? (by rw [getElem?_map, hc]; rfl)

end

/-- what one instance keeps through its own parts, through what others do to its ends, and through changes of its
actor -/
structure Keeps (least : Nat) (Drift : σ → σ → Prop)
    (P : List Connection → (Nat → Tally) → PortWorker σ → Prop) : Prop where
  own : ∀ {wires wires' tally tally' s s' maxLoops}, least ≤ maxLoops →
    s.Holds wires tally → s.Advances wires tally maxLoops wires' tally' s' →
    (∀ {p b}, s.inst.portEnd? p = some b → (s.moment.view? p = none ∨ s'.moment.view? p ≠ none) →
      b.Later wires tally wires' tally') → P wires tally s → P wires' tally' s'
  others : ∀ {wires wires' tally tally' s},
    (∀ {p b}, s.inst.portEnd? p = some b → b.Later wires tally wires' tally') → P wires tally s →
    P wires' tally' s
  drift : ∀ {wires tally s actor}, Drift s.inst.actor actor →
    P wires tally s → P wires tally { s with inst := { s.inst with actor } }

theorem Keeps.reaches {P : List Connection → (Nat → Tally) → PortWorker σ → Prop}
    (hkeeps : Keeps least Drift P) (hports : Behaviour.ThroughPorts σ) (h : W.Sound)
    (hreach : W.Reaches least Drift W') (hk : W.workers[k]? = some s) (hP : P W.wires W.tally s) :
    ∃ s', W'.workers[k]? = some s' ∧ P W'.wires W'.tally s' := by
  induction hreach with
  | refl => exact ⟨s, hk, hP⟩
  | @step V hreach j maxLoops hloops ih =>
    obtain ⟨u, hu, hPu⟩ := ih
    have hV := h.reaches hports hreach
    rcases hV.step_cases j maxLoops with hstep | ⟨t, hj, wires, tally, t', hstep, hadv⟩
    · rw [hstep]
      exact ⟨u, hu, hPu⟩
    rw [hstep]
    by_cases hjk : j = k
    · subst hjk
      rw [hj] at hu
      cases hu
      have hlt := lt_of_getElem? hj
      refine ⟨t', getElem?_set_self hlt, hkeeps.own hloops (hV.holds hj) hadv (fun hb hopen => ?_) hPu⟩
      exact hV.frame hports hj hadv hj hb fun _ => hopen
    · refine ⟨u, by rw [getElem?_set_ne hjk]; exact hu, hkeeps.others (fun hb => ?_) hPu⟩
      exact hV.frame hports hj hadv hu hb fun heq => absurd heq.symm hjk
  | @drift V j t actor hreach hj hdrift ih =>
    obtain ⟨u, hu, hPu⟩ := ih
    by_cases hjk : j = k
    · subst hjk
      rw [hj] at hu
      cases hu
      have hlt := lt_of_getElem? hj
      exact ⟨_, getElem?_set_self hlt, hkeeps.drift hdrift hPu⟩
    · exact ⟨u, (getElem?_set_ne hjk).trans hu, hPu⟩

/-! ## Built networks -/

section Start

variable {b : Builder σ} {ws : List Wire} {n : Network σ} {e : PortEnd}

omit [Behaviour σ] in
theorem worker_start (hk : (start n).workers[k]? = some s) : n.instances[k]? = some s.inst ∧ s.moment = .resting := by
  rw [start, getElem?_map] at hk
  obtain ⟨inst, hinst, rfl⟩ := Option.map_eq_some_iff.1 hk
  exact ⟨hinst, rfl⟩

/-- every port holds the end of a connection that building made for it -/
theorem portEnd_start (hbuilt : b.Built ws n) (hjoins : b.Joins ws)
    (hk : (start n).workers[k]? = some s) (he : s.inst.portEnd? p = some e) :
    ∃ wire, ws[e.wire]? = some wire ∧ e.total = 0 ∧
      ((∃ i r, p = .input i ∧ e.side = .reader r ∧ wire.targets[r]? = some ⟨s.inst.id, i⟩) ∨
        ∃ o, p = .output o ∧ e.side = .writer ∧ wire.source = ⟨s.inst.id, o⟩) := by
  obtain ⟨d, -, hplaced⟩ := hbuilt.placed s.inst (mem_of_getElem? (worker_start hk).1)
  cases p with
  | input i =>
    obtain ⟨x, hx, rfl⟩ := Option.map_eq_some_iff.1 he
    obtain ⟨wire, r, hwire, htarget, hitem⟩ := hplaced.input hx
    have hfresh := hjoins.fresh wire (mem_of_getElem? hwire)
    rw [← hfresh.reader hitem] at htarget
    exact ⟨wire, hwire, (hfresh.input hitem).consumed, .inl ⟨i, _, rfl, rfl, htarget⟩⟩
  | output o =>
    obtain ⟨x, hx, rfl⟩ := Option.map_eq_some_iff.1 he
    obtain ⟨wire, hwire, hsource, hitem⟩ := hplaced.output hx
    have hfresh := hjoins.fresh wire (mem_of_getElem? hwire)
    exact ⟨wire, hwire, hitem ▸ hfresh.output.produced, .inr ⟨o, rfl, rfl, hsource⟩⟩

theorem counts_start (hbuilt : b.Built ws n) (hjoins : b.Joins ws) {w : Nat}
    {wire : Wire} (hwire : ws[w]? = some wire) :
    n.wires[w]? = some wire.connection ∧ (start n).tally w = ⟨0, replicate wire.targets.length 0⟩ ∧
      wire.connection.Counts ((start n).tally w) := by
  have hget : n.wires[w]? = some wire.connection := by rw [hbuilt.wires, getElem?_map, hwire]; rfl
  have htracks := (hjoins.fresh wire (mem_of_getElem? hwire)).tracks
  have htally : (start n).tally w = ⟨0, replicate wire.targets.length 0⟩ := by
    simp [start, hget, Connection.readers, htracks.consumed, Ledger.fresh]
  exact ⟨hget, htally, by rw [htally]; exact htracks.counts⟩

theorem alone_start (hbuilt : b.Built ws n) (hjoins : b.Joins ws) {k' : Nat} {p' : PortId} {e' : PortEnd}
    (hk : (start n).workers[k]? = some s) (hk' : (start n).workers[k']? = some s') (he : s.inst.portEnd? p = some e)
    (he' : s'.inst.portEnd? p' = some e') (heq : e.place = e'.place) : k = k' ∧ p = p' := by
  obtain ⟨wire, hwire, -, hport⟩ := portEnd_start hbuilt hjoins hk he
  obtain ⟨wire', hwire', -, hport'⟩ := portEnd_start hbuilt hjoins hk' he'
  obtain ⟨hw, hside⟩ := Prod.mk.inj heq
  rw [hw, hwire'] at hwire
  cases hwire
  have hid : s.inst.id = s'.inst.id → k = k' := by
    intro hid
    have hnodup := hbuilt.ids.nodup_iff.2 nodup_range
    have hinst := (worker_start hk).1
    have hlt := lt_of_getElem? hinst
    refine (getElem?_inj (by simpa using hlt) hnodup).1 ?_
    rw [getElem?_map, getElem?_map, hinst, (worker_start hk').1, Option.map_some, Option.map_some, hid]
  rcases hport with ⟨i, r, rfl, hs, htarget⟩ | ⟨o, rfl, hs, hsource⟩
  · rcases hport' with ⟨i', r', rfl, hs', htarget'⟩ | ⟨o', rfl, hs', hsource'⟩
    · rw [hs, hs', Side.reader.injEq] at hside
      rw [hside, htarget', Option.some.injEq, PortRef.mk.injEq] at htarget
      exact ⟨hid htarget.1.symm, by rw [htarget.2]⟩
    · rw [hs, hs'] at hside
      cases hside
  · rcases hport' with ⟨i', r', rfl, hs', htarget'⟩ | ⟨o', rfl, hs', hsource'⟩
    · rw [hs, hs'] at hside
      cases hside
    · rw [hsource', PortRef.mk.injEq] at hsource
      exact ⟨hid hsource.1.symm, by rw [hsource.2]⟩

/-- a built network begins in order -/
theorem sound_start (hmade : b.Made) {mapping : Option Mapping}
    (hbuild : b.build mapping = .ok n) : (start n).Sound := by
  obtain ⟨ws, hws, hbuilt⟩ := Builder.built_of_build hbuild
  have hjoins := Builder.joins_of_wires hmade.wellLinked hws
  refine ⟨fun hk => ⟨fun he => ?_, fun he hv => ?_, ?_⟩, alone_start hbuilt hjoins⟩
  · obtain ⟨wire, hwire, htotal, hport⟩ := portEnd_start hbuilt hjoins hk he
    obtain ⟨hget, htally, hcounts⟩ := counts_start hbuilt hjoins hwire
    refine ⟨⟨wire.connection, hget, hcounts⟩, ?_, ?_⟩
    · rw [htally]
      rcases hport with ⟨i, r, -, hside, htarget⟩ | ⟨o, -, hside, -⟩
      · rw [hside]
        simpa [Tally.Has] using lt_of_getElem? htarget
      · rw [hside]
        simpa [Tally.Has] using Builder.targets_ne_nil hws (mem_of_getElem? hwire)
    · rw [htotal, PortEnd.moved, htally]
      rcases hport with ⟨i, r, -, hside, htarget⟩ | ⟨o, -, hside, -⟩
      · have hlt := lt_of_getElem? htarget
        simp [hside, Tally.moved, getD_eq_getElem?_getD, hlt]
      · rw [hside]
        rfl
  · rw [(worker_start hk).2] at hv
    cases hv
  · rw [(worker_start hk).2]
    trivial

end Start

end PortOverlap

end Dataflow
