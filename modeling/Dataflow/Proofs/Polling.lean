import Dataflow.Bridge.Link
import Dataflow.Proofs.Steps

/-!
Looking at a device without asking it for anything.

`Device.Watch` says what lasts between two looks, and what one knows of an event that was found complete. A yes to "is
it finished" is a yes for every event in question (`Watch.Settles`); a yes to "has it failed" needs an event that can be
found failed (`Watch.Fails`).
-/

namespace Dataflow

open List Step

namespace Device

/-- what lasts while a device is only polled -/
structure Watch (δ : Type) [Device δ] where
  holds : δ → Prop
  complete : EventId → δ → Prop
  poll : ∀ {d} e, holds d → holds ((Device.poll e).run d).2
  seen : ∀ {d e}, holds d → ((Device.poll e).run d).1.isComplete = true → complete e ((Device.poll e).run d).2
  lasts : ∀ {d e} e', holds d → complete e d → complete e ((Device.poll e').run d).2

namespace Watch

variable {δ : Type} [Device δ] {W : Watch δ} {d d' d'' : δ} {e : EventId}

/-- the event can be found failed -/
def Fails (W : Watch δ) (e : EventId) : Prop := ∃ d, W.holds d ∧ ((Device.poll e).run d).1.hasFailed = true

/-- the event is found failed at any moment -/
def Broken (W : Watch δ) (e : EventId) : Prop := ∀ ⦃d⦄, W.holds d → ((Device.poll e).run d).1.hasFailed = true

/-- the event is found complete at any moment -/
def Ready (W : Watch δ) (e : EventId) : Prop := ∀ ⦃d⦄, W.holds d → ((Device.poll e).run d).1.isComplete = true

/-- from one moment to a later one -/
structure Leads (W : Watch δ) (d d' : δ) : Prop where
  holds : W.holds d'
  complete : ∀ {e}, W.complete e d → W.complete e d'

theorem Leads.refl (h : W.holds d) : W.Leads d d := ⟨h, fun hc => hc⟩

theorem Leads.trans (h1 : W.Leads d d') (h2 : W.Leads d' d'') : W.Leads d d'' :=
  ⟨h2.holds, fun hc => h2.complete (h1.complete hc)⟩

theorem leads_poll (e : EventId) (h : W.holds d) : W.Leads d ((Device.poll e).run d).2 := ⟨W.poll e h, W.lasts e h⟩

variable {a : Bool} {events more : List EventId}

/-- what it means if the question whether these events are complete is answered with `a` -/
structure Settles (W : Watch δ) (events : List EventId) (a : Bool) (d : δ) : Prop where
  complete : a = true → ∀ e ∈ events, W.complete e d
  prompt : (∀ e ∈ events, W.Ready e) → a = true

theorem settles_poll (e : EventId) (h : W.holds d) :
    W.Settles [e] ((Device.poll e).run d).1.isComplete ((Device.poll e).run d).2 :=
  ⟨fun hc => by simpa using W.seen h hc, fun hready => hready e (mem_singleton_self e) h⟩

theorem settles_nil : W.Settles [] true d := ⟨by simp, fun _ => rfl⟩

/-- a no for some of the events -/
theorem Settles.no (h : W.Settles events false d) (hsub : events ⊆ more) (d' : δ) : W.Settles more false d' :=
  ⟨nofun, fun hready => h.prompt fun e he => hready e (hsub he)⟩

/-- a yes for some of the events, and later an answer for the others -/
theorem Settles.append (h : W.Settles events true d) (hl : W.Leads d d') (h' : W.Settles more a d') :
    W.Settles (events ++ more) a d' := by
  refine ⟨fun ha e he => ?_, fun hready => h'.prompt fun e he => hready e (mem_append_right _ he)⟩
  rcases mem_append.1 he with he | he
  · exact hl.complete (h.complete rfl e he)
  · exact h'.complete ha e he

theorem Settles.congr (h : W.Settles events a d) (heq : ∀ {e}, e ∈ events ↔ e ∈ more) : W.Settles more a d :=
  ⟨fun ha e he => h.complete ha e (heq.2 he), fun hready => h.prompt fun e he => hready e (heq.1 he)⟩

end Watch

end Device

namespace BridgePort

open Device

variable {δ : Type} {s : BridgePort × δ}

section Ends

variable {α : Type} {Q : α → BridgePort × δ → Prop} {E : Stop DeviceError → BridgePort × δ → Prop}

theorem ends_thePort {f : BridgePort → Op δ α} (h : Ends (f s.1) s Q E) : Ends (thePort >>= f) s Q E :=
  ends_bind (ends_bind (ends_get (ends_pure h)))

theorem ends_putPort {q : BridgePort} {f : Unit → Op δ α} (h : Ends (f ()) (q, s.2) Q E) :
    Ends (putPort q >>= f) s Q E :=
  ends_bind (ends_modify h)

end Ends

variable {α : Type} [Device δ] {W : Watch δ} {p : BridgePort}

/-- an operation on a port that only polls, with what its answers mean on the device they are given on -/
def Looks (W : Watch δ) (p : BridgePort) (op : Op δ α) (means : α → δ → Prop) : Prop :=
  ∀ ⦃d⦄, W.holds d → Yields op (p, d) fun a s' => s'.1 = p ∧ W.Leads d s'.2 ∧ means a s'.2

theorem looks_poll (e : EventId) : Looks W p (poll e) fun a d => W.Settles [e] a.isComplete d ∧
    (a.hasFailed = true → W.Fails e) ∧ (W.Broken e → a.hasFailed = true) := by
  intro d h
  exact ends_zoom
    (ends_state ⟨rfl, Watch.leads_poll e h, Watch.settles_poll e h, fun hfailed => ⟨d, h, hfailed⟩, fun hb => hb h⟩)

theorem looks_allComplete (events : List EventId) : Looks W p (allComplete events) (W.Settles events) := by
  induction events with
  | nil => exact fun d h => ends_pure ⟨rfl, .refl h, Watch.settles_nil⟩
  | cons e rest ih =>
    intro d h
    refine ends_bind ((looks_poll e h).mono ?_)
    rintro status ⟨p1, d1⟩ ⟨rfl, hl1, hfirst, -⟩
    cases hc : status.isComplete with
    | true =>
      rw [hc] at hfirst
      refine (ih hl1.holds).mono ?_
      rintro a s2 ⟨hp, hl2, hrest⟩
      exact ⟨hp, hl1.trans hl2, hfirst.append hl2 hrest⟩
    | false => exact ends_pure ⟨rfl, hl1, (hc ▸ hfirst).no (by simp) d1⟩

theorem looks_anyFailed (events : List EventId) : Looks W p (anyFailed events) fun a _ =>
    (a = true → ∃ e ∈ events, W.Fails e) ∧ ((∃ e ∈ events, W.Broken e) → a = true) := by
  induction events with
  | nil => exact fun d h => ends_pure ⟨rfl, .refl h, by simp⟩
  | cons e rest ih =>
    intro d h
    refine ends_bind ((looks_poll e h).mono ?_)
    rintro a ⟨p1, d1⟩ ⟨rfl, hl1, -, hfails, hbroken⟩
    split_ifs with hc
    · exact ends_pure ⟨rfl, hl1, fun _ => ⟨e, mem_cons_self, hfails hc⟩, fun _ => rfl⟩
    · refine (ih hl1.holds).mono ?_
      rintro a s2 ⟨hp, hl2, hrest, hrest'⟩
      refine ⟨hp, hl1.trans hl2, fun ha => ?_, fun ⟨e', he', hbroken'⟩ => ?_⟩
      · obtain ⟨e', he', hfails'⟩ := hrest ha
        exact ⟨e', mem_cons_of_mem _ he', hfails'⟩
      · rcases mem_cons.1 he' with rfl | he'
        · exact absurd (hbroken hbroken') hc
        · exact hrest' ⟨e', he', hbroken'⟩

/-- the events of all commands that the port has in flight -/
def inFlight (p : BridgePort) : List EventId := p.transferEvents ++ p.indexRead.toList

theorem looks_transfersDone : Looks W p transfersDone (W.Settles p.transferEvents) :=
  fun _ h => ends_thePort (looks_allComplete p.transferEvents h)

theorem looks_hasFailure : Looks W p hasFailure fun a _ =>
    (a = true → ∃ e ∈ p.inFlight, W.Fails e) ∧ ((∃ e ∈ p.inFlight, W.Broken e) → a = true) :=
  fun _ h => ends_thePort (looks_anyFailed p.inFlight h)

theorem looks_indexReady : Looks W p indexReady (W.Settles p.indexRead.toList) := by
  intro d h
  refine ends_thePort ?_
  cases p.indexRead with
  | none => exact ends_pure ⟨rfl, .refl h, Watch.settles_nil⟩
  | some e =>
    refine ends_bind ((looks_poll e h).mono ?_)
    rintro status s1 ⟨hp, hl1, hsettles, -⟩
    exact ends_pure ⟨hp, hl1, hsettles⟩

/-- index and transfers, one after the other -/
theorem looks_arrived : Looks W p (do if ← indexReady then transfersDone else return false) (W.Settles p.inFlight) := by
  intro d h
  refine ends_bind ((looks_indexReady h).mono ?_)
  rintro ready ⟨p1, d1⟩ ⟨rfl, hl1, hindex⟩
  cases ready with
  | false => exact ends_pure ⟨rfl, hl1, hindex.no (subset_append_right _ _) d1⟩
  | true =>
    refine (looks_transfersDone hl1.holds).mono ?_
    rintro a s2 ⟨hp, hl2, htransfers⟩
    refine ⟨hp, hl1.trans hl2, (hindex.append hl2 htransfers).congr fun {e} => ?_⟩
    rw [inFlight, mem_append, mem_append, or_comm]

end BridgePort

namespace Bridge

open Device BridgePort

/-! ## Operations on one port -/

section Single

variable {δ α : Type} {b : Bridge δ} {ports : Ports} {i : Nat} {p : BridgePort} {op : BridgePort.Op δ α}
  {Q : α → Bridge δ × Ports → Prop} {E : Stop DeviceError → Bridge δ × Ports → Prop} {s : Bridge δ × Ports}

theorem ends_theBridge {f : Bridge δ → Op δ α} (h : Ends (f s.1) s Q E) : Ends (theBridge >>= f) s Q E :=
  ends_bind (ends_bind (ends_get (ends_pure h)))

theorem ends_thePorts {f : Ports → Op δ α} (h : Ends (f s.2) s Q E) : Ends (thePorts >>= f) s Q E :=
  ends_bind (ends_bind (ends_get (ends_pure h)))

theorem ends_onInput (hp : b.inputs[i]? = some p)
    (h : Ends op (p, b.device) (fun a s' => Q a ({ b with device := s'.2, inputs := b.inputs.set i s'.1 }, ports))
      fun stop s' => E stop ({ b with device := s'.2, inputs := b.inputs.set i s'.1 }, ports)) :
    Ends (onInput i op) (b, ports) Q E :=
  ends_theBridge (ends_bind (ends_ok (fetch_eq_ok hp) (ends_zoom h)))

theorem ends_onOutput (hp : b.outputs[i]? = some p)
    (h : Ends op (p, b.device) (fun a s' => Q a ({ b with device := s'.2, outputs := b.outputs.set i s'.1 }, ports))
      fun stop s' => E stop ({ b with device := s'.2, outputs := b.outputs.set i s'.1 }, ports)) :
    Ends (onOutput i op) (b, ports) Q E :=
  ends_theBridge (ends_bind (ends_ok (fetch_eq_ok hp) (ends_zoom h)))

end Single

variable {δ α : Type} [Device δ] {W : Watch δ} {b : Bridge δ} {ports : Ports} {i : Nat} {p : BridgePort}
  {means : α → δ → Prop} {op : BridgePort.Op δ α} {β : Type}

/-- an operation that only polls: bridge and connections stay as they are, and the device gets on -/
def Looks (W : Watch δ) (b : Bridge δ) (ports : Ports) (op : Op δ α) (means : α → δ → Prop) : Prop :=
  ∀ ⦃d⦄, W.holds d → Yields op ({ b with device := d }, ports) fun a s' =>
    ∃ d', s' = ({ b with device := d' }, ports) ∧ W.Leads d d' ∧ means a d'

theorem looks_pure {a : α} (h : ∀ d, means a d) : Looks W b ports (pure a : Op δ α) means :=
  fun d hd => ends_pure ⟨d, rfl, .refl hd, h d⟩

theorem Looks.imp {op : Op δ α} {means' : α → δ → Prop} (h : Looks W b ports op means)
    (hmeans : ∀ a d, means a d → means' a d) : Looks W b ports op means' :=
  fun _ hd => (h hd).mono fun a _ ⟨d', hs, hl, ha⟩ => ⟨d', hs, hl, hmeans a d' ha⟩

/-- what the first answer means may be used for the second, at the moment it was given -/
theorem Looks.bind {op : Op δ α} {f : α → Op δ β} {means' : β → δ → Prop} (h : Looks W b ports op means)
    (hf : ∀ {a d}, means a d → Looks W b ports (f a) fun c d' => W.Leads d d' → means' c d') :
    Looks W b ports (op >>= f) means' := by
  intro d hd
  refine ends_bind ((h hd).mono ?_)
  rintro a _ ⟨d1, rfl, hl1, ha⟩
  refine (hf ha hl1.holds).mono ?_
  rintro c _ ⟨d2, rfl, hl2, hc⟩
  exact ⟨d2, rfl, hl1.trans hl2, hc hl2⟩

theorem looks_theBridge : Looks W b ports (theBridge : Op δ (Bridge δ)) fun a d => a = { b with device := d } :=
  fun d hd => ends_bind (ends_get (ends_pure ⟨d, rfl, .refl hd, rfl⟩))

theorem looks_poll (e : EventId) : Looks W b ports (poll e) fun a d => W.Settles [e] a.isComplete d ∧
    (a.hasFailed = true → W.Fails e) ∧ (W.Broken e → a.hasFailed = true) := by
  intro d h
  unfold poll onDevice
  exact ends_zoom (ends_state ⟨_, rfl, Watch.leads_poll e h, Watch.settles_poll e h, fun hfailed => ⟨d, h, hfailed⟩,
    fun hb => hb h⟩)

/-- a port is looked at where it is -/
theorem looks_onInput (hp : b.inputs[i]? = some p) (h : BridgePort.Looks W p op means) :
    Looks W b ports (onInput i op) means := by
  intro d hd
  refine ends_onInput hp ((h hd).mono ?_)
  rintro a ⟨p', d'⟩ ⟨rfl, hl, ha⟩
  obtain ⟨hlt, rfl⟩ := List.getElem?_eq_some_iff.1 hp
  exact ⟨d', by simp, hl, ha⟩

theorem looks_onOutput (hp : b.outputs[i]? = some p) (h : BridgePort.Looks W p op means) :
    Looks W b ports (onOutput i op) means := by
  intro d hd
  refine ends_onOutput hp ((h hd).mono ?_)
  rintro a ⟨p', d'⟩ ⟨rfl, hl, ha⟩
  obtain ⟨hlt, rfl⟩ := List.getElem?_eq_some_iff.1 hp
  exact ⟨d', by simp, hl, ha⟩

/-! ## All ports -/

/-- a first answer, and the second one after a yes -/
theorem Looks.andThen {op : Op δ Bool} {f : Bool → Op δ Bool} {events more : List EventId}
    (h : Looks W b ports op (W.Settles events)) (hno : f false = pure false)
    (hf : Looks W b ports (f true) (W.Settles more)) : Looks W b ports (op >>= f) (W.Settles (events ++ more)) := by
  refine h.bind fun {a d} ha => ?_
  cases a with
  | false => exact hno ▸ looks_pure fun d' _ => ha.no (subset_append_left _ _) d'
  | true => exact hf.imp fun _ _ ha' hl => ha.append hl ha'

/-- these numbers, asked one after the other -/
theorem looks_allOf {test : Nat → Op δ Bool} (events : Nat → List EventId) {is : List Nat}
    (h : ∀ i ∈ is, Looks W b ports (test i) (W.Settles (events i))) :
    Looks W b ports (allOf test is) (W.Settles (is.flatMap events)) := by
  induction is with
  | nil => exact looks_pure fun _ => Watch.settles_nil
  | cons i rest ih => exact (h i mem_cons_self).andThen rfl (ih fun k hk => h k (mem_cons_of_mem _ hk))

/-- the ports on one side of a bridge, and how to look at them -/
def Sees (W : Watch δ) (b : Bridge δ) (ports : Ports) (on : Nat → BridgePort.Op δ Bool → Op δ Bool)
    (side : List BridgePort) : Prop :=
  ∀ ⦃i p⦄, side[i]? = some p → ∀ {op means},
    BridgePort.Looks W p op means → Looks W b ports (on i op) means

theorem sees_inputs (b : Bridge δ) (ports : Ports) : Sees W b ports onInput b.inputs :=
  fun _ _ hp _ _ h => looks_onInput hp h

theorem sees_outputs (b : Bridge δ) (ports : Ports) : Sees W b ports onOutput b.outputs :=
  fun _ _ hp _ _ h => looks_onOutput hp h

variable {on : Nat → BridgePort.Op δ Bool → Op δ Bool} {side : List BridgePort} {e : EventId} {error : DeviceError}
  {guard : Op δ Unit} {events more : List EventId}

theorem Sees.all (h : Sees W b ports on side) {op : BridgePort.Op δ Bool} {events : BridgePort → List EventId}
    (hop : ∀ p, BridgePort.Looks W p op (W.Settles (events p))) :
    Looks W b ports (allOf (fun i => on i op) (range side.length)) (W.Settles (side.flatMap events)) := by
  refine (looks_allOf (fun i => (side[i]?).toList.flatMap events) fun i hi => ?_).imp
    fun a d ha => ha.congr fun {e} => ?_
  · have hp := getElem?_eq_getElem (mem_range.1 hi)
    have hlook := h hp (hop _)
    simpa only [hp, Option.toList_some, flatMap_cons, flatMap_nil, append_nil] using hlook
  · simp only [mem_flatMap, mem_range, Option.mem_toList]
    constructor
    · rintro ⟨i, -, p, hp, he⟩
      exact ⟨p, mem_of_getElem? hp, he⟩
    · rintro ⟨p, hp, he⟩
      obtain ⟨i, hi⟩ := getElem?_of_mem hp
      exact ⟨i, lt_of_getElem? hi, p, hi, he⟩

/-- the events of a launch, but for the kernel: the transfers and the indices of all ports -/
def awaited (b : Bridge δ) : List EventId :=
  b.inputs.flatMap BridgePort.inFlight ++ b.outputs.flatMap (·.indexRead.toList)

theorem looks_kernelFinished :
    Looks W b ports kernelFinished fun a d => ∀ e, b.kernel = some e → W.Settles (e :: b.awaited) a d := by
  refine looks_theBridge.bind ?_
  rintro _ d rfl
  cases hk : b.kernel with
  | none => exact looks_pure nofun
  | some event =>
    refine (looks_poll event).bind fun {status d1} hstatus => ?_
    cases hcomplete : status.isComplete with
    | false =>
      refine looks_pure fun d' _ _ e he => ?_
      cases he
      exact (hcomplete ▸ hstatus.1).no (by simp) d'
    | true =>
      refine Looks.imp (Looks.andThen ((sees_inputs b ports).all fun _ => looks_arrived) ?_
        ((sees_outputs b ports).all fun _ => looks_indexReady)) fun a d ha hl1 _ e he => ?_
      · rfl
      · cases he
        exact (hcomplete ▸ hstatus.1).append hl1 ha

theorem looks_readsFinished : Looks W b ports readsFinished (W.Settles (b.outputs.flatMap (·.transferEvents))) := by
  refine looks_theBridge.bind ?_
  rintro _ d rfl
  exact ((sees_outputs b ports).all fun _ => looks_transfersDone).imp fun _ _ ha _ => ha

/-! ## The guard -/

def inFlight (b : Bridge δ) : List EventId := b.kernel.toList ++ (b.inputs ++ b.outputs).flatMap BridgePort.inFlight

omit [Device δ] in
theorem mem_inFlight : e ∈ b.inFlight ↔ b.kernel = some e ∨ ∃ p ∈ b.inputs ++ b.outputs, e ∈ p.inFlight := by
  rw [inFlight, mem_append, Option.mem_toList, mem_flatMap]

/-- an operation that polls these events: it stops only for one that can be found failed, and does not answer if one is
always found so -/
def Guards (W : Watch δ) (b : Bridge δ) (ports : Ports) (op : Op δ Unit) (events : List EventId) : Prop :=
  ∀ ⦃d⦄, W.holds d → Ends op ({ b with device := d }, ports)
    (fun _ s' => (∃ d', s' = ({ b with device := d' }, ports) ∧ W.Leads d d') ∧ ∀ e ∈ events, ¬ W.Broken e)
    fun stop s' => (∃ e, stop = .error e) ∧ (∃ d', s' = ({ b with device := d' }, ports) ∧ W.Leads d d') ∧
      ∃ e ∈ events, W.Fails e

theorem guards_pure : Guards W b ports (pure ()) [] := fun d hd => ends_pure ⟨⟨d, rfl, .refl hd⟩, by simp⟩

theorem guards_fail (h : W.Fails e) : Guards W b ports (fail error) [e] :=
  fun d hd => ends_fail ⟨⟨_, rfl⟩, ⟨d, rfl, .refl hd⟩, e, mem_singleton_self e, h⟩

theorem Guards.bind {f : Unit → Op δ Unit} (h : Guards W b ports guard events)
    (hf : Guards W b ports (f ()) more) : Guards W b ports (guard >>= f) (events ++ more) := by
  intro d hd
  refine ends_bind ((h hd).imp ?_ ?_)
  · rintro - _ ⟨⟨d1, rfl, hl1⟩, hsound⟩
    refine (hf hl1.holds).imp ?_ ?_
    · rintro - _ ⟨⟨d2, rfl, hl2⟩, hsound'⟩
      refine ⟨⟨d2, rfl, hl1.trans hl2⟩, fun e he => ?_⟩
      rcases mem_append.1 he with he | he
      · exact hsound e he
      · exact hsound' e he
    · rintro stop _ ⟨hstop, ⟨d2, rfl, hl2⟩, e, he, hfails⟩
      exact ⟨hstop, ⟨d2, rfl, hl1.trans hl2⟩, e, mem_append_right _ he, hfails⟩
  · rintro stop _ ⟨hstop, hstate, e, he, hfails⟩
    exact ⟨hstop, hstate, e, mem_append_left _ he, hfails⟩

/-- an event that was found to be sound -/
theorem Guards.cons (h : Guards W b ports guard events) (he : ¬ W.Broken e) : Guards W b ports guard (e :: events) :=
  fun _ hd => (h hd).imp (fun _ _ ⟨hstate, hsound⟩ => ⟨hstate, forall_mem_cons.2 ⟨he, hsound⟩⟩)
    fun _ _ ⟨hstop, hstate, e, he, hfails⟩ => ⟨hstop, hstate, e, mem_cons_of_mem _ he, hfails⟩

theorem guards_forM {f : β → Op δ Unit} {events : β → List EventId} {xs : List β}
    (h : ∀ x ∈ xs, Guards W b ports (f x) (events x)) : Guards W b ports (xs.forM f) (xs.flatMap events) := by
  induction xs with
  | nil => exact guards_pure
  | cons x rest ih => exact (h x mem_cons_self).bind (ih fun y hy => h y (mem_cons_of_mem _ hy))

/-- a look, and then a guard -/
theorem Looks.guards {op : Op δ α} {f : α → Op δ Unit} (h : Looks W b ports op means)
    (hf : ∀ {a d}, means a d → Guards W b ports (f a) events) : Guards W b ports (op >>= f) events := by
  intro d hd
  refine ends_bind ((h hd).ends.mono ?_)
  rintro a _ ⟨d1, rfl, hl1, ha⟩
  refine (hf ha hl1.holds).imp ?_ ?_
  · rintro - _ ⟨⟨d2, rfl, hl2⟩, hsound⟩
    exact ⟨⟨d2, rfl, hl1.trans hl2⟩, hsound⟩
  · rintro stop _ ⟨hstop, ⟨d2, rfl, hl2⟩, hfails⟩
    exact ⟨hstop, ⟨d2, rfl, hl1.trans hl2⟩, hfails⟩

/-- the same events, listed in another way -/
theorem Guards.congr (h : Guards W b ports guard events) (heq : ∀ {e}, e ∈ events ↔ e ∈ more) :
    Guards W b ports guard more :=
  fun _ hd => (h hd).imp (fun _ _ ⟨hstate, hsound⟩ => ⟨hstate, fun e he => hsound e (heq.2 he)⟩)
    fun _ _ ⟨hstop, hstate, e, he, hfails⟩ => ⟨hstop, hstate, e, heq.1 he, hfails⟩

/-- a failure that is reported if a look says so -/
theorem Looks.guards_of_failure {op : Op δ Bool}
    (h : Looks W b ports op fun a _ => (a = true → ∃ e ∈ events, W.Fails e) ∧ ((∃ e ∈ events, W.Broken e) → a = true)) :
    Guards W b ports (do if ← op then fail error) events := by
  refine h.guards fun {a d} ha => ?_
  cases a with
  | false =>
    refine fun d hd => ends_pure ⟨⟨d, rfl, .refl hd⟩, fun e he hbroken => ?_⟩
    exact Bool.false_ne_true (ha.2 ⟨e, he, hbroken⟩)
  | true => exact fun d hd => ends_fail ⟨⟨_, rfl⟩, ⟨d, rfl, .refl hd⟩, ha.1 rfl⟩

theorem Sees.guards (h : Sees W b ports on side) :
    Guards W b ports (guardPorts on (side.map (·.spec.name))) (side.flatMap BridgePort.inFlight) := by
  have hone : ∀ named ∈ (side.map (·.spec.name)).zipIdx, Guards W b ports (do
      if ← on named.2 hasFailure then
        fail (.commandFailed s!"transfer on port `{named.1}` failed"))
        (side[named.2]?.toList.flatMap BridgePort.inFlight) := by
    intro named hnamed
    have hlt : named.2 < side.length := by simpa using snd_lt_of_mem_zipIdx hnamed
    have hp := getElem?_eq_getElem hlt
    rw [hp, Option.toList_some, flatMap_cons, flatMap_nil, append_nil]
    exact (h hp looks_hasFailure).guards_of_failure
  refine (guards_forM hone).congr fun {e} => ?_
  simp only [mem_flatMap, Option.mem_toList]
  constructor
  · rintro ⟨named, -, p, hp, he⟩
    exact ⟨p, mem_of_getElem? hp, he⟩
  · rintro ⟨p, hp, he⟩
    obtain ⟨i, hp⟩ := mem_iff_getElem?.1 hp
    exact ⟨(p.spec.name, i), mem_zipIdx_iff_getElem?.2 (by simp [hp]), p, hp, he⟩

/-- the guard looks at all commands in flight -/
theorem guards_guardFailures : Guards W b ports guardFailures b.inFlight := by
  refine looks_theBridge.guards ?_
  rintro _ d rfl
  have hports := (sees_inputs (W := W) b ports).guards.bind
    (f := fun _ => guardPorts onOutput (b.outputs.map (·.spec.name))) (sees_outputs b ports).guards
  rw [← flatMap_append] at hports
  unfold inFlight
  cases hk : b.kernel with
  | none => exact hports
  | some event =>
    refine (looks_poll event).guards fun {status d1} hstatus => ?_
    cases hfailed : status.hasFailed with
    | false => exact hports.cons fun hbroken => Bool.false_ne_true (hfailed.symm.trans (hstatus.2.2 hbroken))
    | true => exact (guards_fail (hstatus.2.1 hfailed)).bind hports

end Bridge

end Dataflow
