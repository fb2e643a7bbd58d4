import Dataflow.Proofs.StreamPlan
import Dataflow.Proofs.Wiring

/-!
What should arrive where.

From an instance the links lead back along one way. If it ends at a source, the numbers of that source, multiplied by
the factors on the way, are the `Builder.referenceStream`. A way back passes no instance twice
(`Builder.Back.length_le`).
-/

namespace Dataflow

open List

/-! ## Stock actors -/

namespace Component

def role? : Component → Option Role
  | .source s => some (.source s.feed.numbers)
  | .scale s => some (.scale s.factor)
  | .sink s => some (.sink s.limit)
  | .bridge _ | .script _ => none

/-- a stock actor that has not fired; a source has fewer numbers than its counter can count -/
def Stock : Component → Prop
  | .source s => s.emitted = 0 ∧ s.feed.numbers.length < Word.size32
  | .scale _ => True
  | .sink s => s.tokens = #[]
  | .bridge _ | .script _ => False

variable {c : Component}

theorem Stock.role (h : c.Stock) : ∃ role, c.role? = some role := by
  cases c with
  | source s | scale s | sink s => exact ⟨_, rfl⟩
  | bridge b | script s => exact h.elim

/-- a stock actor has the ports of its role, for 32-bit numbers -/
theorem ports_of_role {role : Role} (h : c.role? = some role) :
    (Behaviour.interface c).inputs.length = role.reads.toNat ∧
    (Behaviour.interface c).outputs.length = role.writes.toNat ∧
      ∀ port ∈ (Behaviour.interface c).outputs, port.tokenSize = 4 := by
  cases c with
  | source s | scale s => cases h; exact ⟨rfl, rfl, fun port hport => by rw [mem_singleton.1 hport]⟩
  | sink s => cases h; exact ⟨rfl, rfl, fun port hport => absurd hport not_mem_nil⟩
  | bridge b | script s => cases h

end Component

namespace Builder

/-- a network of stock actors only -/
def Library (b : Builder Component) : Prop := ∀ d ∈ b.instances, d.actor.Stock

/-- by instance -/
def roles (b : Builder Component) : List Role := b.instances.filterMap (·.actor.role?)

def actor? (b : Builder Component) (i : Nat) : Option Component := b.instances[i]?.map (·.actor)

/-- the instance that the first input of an instance is linked to -/
def feeder? (b : Builder Component) (i : Nat) : Option Nat := (b.links.find? (·.target = ⟨i, 0⟩)).map (·.source.inst)

/-- what an instance should see, if a source is less than so many links away -/
def reference (b : Builder Component) : Nat → Nat → List Int32
  | 0, _ => []
  | steps + 1, i =>
    match b.actor? i, b.feeder? i with
    | some (.source s), _ => s.feed.numbers
    | some (.scale s), some j => (b.reference steps j).map (· * s.factor)
    | some (.sink _), some j => b.reference steps j
    | _, _ => []

/-- the numbers of the source that links lead back to, multiplied by the factors on the way; none if there is no such
source -/
def referenceStream (b : Builder Component) (i : Nat) : List Int32 := b.reference b.instances.length i

variable {b : Builder Component} {i j steps : Nat} {role : Role} {p : PortRef} {numbers : List Int32}

/-! ## Roles -/

theorem filterMap_of_forall {α β : Type} {f : α → Option β} {xs : List α} (h : ∀ x ∈ xs, ∃ y, f x = some y) :
    (xs.filterMap f).length = xs.length ∧ ∀ i : Nat, (xs.filterMap f)[i]? = xs[i]?.bind f := by
  induction xs with
  | nil => simp
  | cons x xs ih =>
    obtain ⟨y, hy⟩ := h x mem_cons_self
    obtain ⟨hlen, hget⟩ := ih fun x' hx' => h x' (mem_cons_of_mem x hx')
    rw [filterMap_cons_some hy]
    refine ⟨by simp [hlen], fun i => ?_⟩
    cases i with
    | zero => simp [hy]
    | succ i => exact hget i

theorem Library.length_roles (hlib : b.Library) : b.roles.length = b.instances.length :=
  (filterMap_of_forall fun d hd => (hlib d hd).role).1

theorem Library.getElem?_roles (hlib : b.Library) (i : Nat) : b.roles[i]? = b.instances[i]?.bind (·.actor.role?) :=
  (filterMap_of_forall fun d hd => (hlib d hd).role).2 i

theorem Library.declared (hlib : b.Library) (h : b.roles[i]? = some role) :
    ∃ d, b.instances[i]? = some d ∧ d.actor.role? = some role := by
  rw [hlib.getElem?_roles] at h
  exact Option.bind_eq_some_iff.1 h

theorem lt_toNat {n : Nat} {x : Bool} : n < x.toNat ↔ n = 0 ∧ x = true := by
  cases x <;> simp

/-- a stock actor has no input but the first -/
theorem Library.input (hlib : b.Library) (h : b.HasInput p) :
    p.port = 0 ∧ ∃ role, b.roles[p.inst]? = some role ∧ role.reads = true := by
  obtain ⟨d, hd, hlt⟩ := h
  obtain ⟨role, hrole⟩ := (hlib d (mem_of_getElem? hd)).role
  rw [(Component.ports_of_role hrole).1, lt_toNat] at hlt
  exact ⟨hlt.1, role, by rw [hlib.getElem?_roles, hd]; exact hrole, hlt.2⟩

/-- a stock actor has no output but the first -/
theorem Library.output (hlib : b.Library) (h : b.HasOutput p) :
    p.port = 0 ∧ ∃ role, b.roles[p.inst]? = some role ∧ role.writes = true := by
  obtain ⟨d, hd, hlt⟩ := h
  obtain ⟨role, hrole⟩ := (hlib d (mem_of_getElem? hd)).role
  rw [(Component.ports_of_role hrole).2.1, lt_toNat] at hlt
  exact ⟨hlt.1, role, by rw [hlib.getElem?_roles, hd]; exact hrole, hlt.2⟩

/-! ## Ways back -/

theorem link_of_feeder (h : b.feeder? i = some j) : ∃ link ∈ b.links, link.target = ⟨i, 0⟩ ∧ link.source.inst = j := by
  obtain ⟨link, hfind, rfl⟩ := Option.map_eq_some_iff.1 h
  exact ⟨link, mem_of_find?_eq_some hfind, by simpa using find?_some hfind, rfl⟩

theorem feeder_of_link (hl : b.WellLinked) {link : Link} (hlink : link ∈ b.links) (htarget : link.target = ⟨i, 0⟩) :
    b.feeder? i = some link.source.inst := by
  cases hfind : b.links.find? (·.target = ⟨i, 0⟩) with
  | none => exact absurd htarget (by simpa using find?_eq_none.1 hfind link hlink)
  | some link' =>
    have htarget' : link'.target = ⟨i, 0⟩ := by simpa using find?_some hfind
    obtain rfl := hl.target_inj (mem_of_find?_eq_some hfind) hlink (htarget'.trans htarget.symm)
    rw [feeder?, hfind]
    rfl

/-- whoever is fed reads -/
theorem Library.reads_of_feeder (hlib : b.Library) (hl : b.WellLinked) (h : b.feeder? i = some j) :
    ∃ role, b.roles[i]? = some role ∧ role.reads = true := by
  obtain ⟨link, hlink, htarget, -⟩ := link_of_feeder h
  have hin := hl.target link hlink
  rw [htarget] at hin
  exact (hlib.input hin).2

/-- the instances on the way back from an instance to a source, both included -/
inductive Back (b : Builder Component) : Nat → List Nat → Prop where
  | source {i : Nat} {numbers : List Int32} (h : b.roles[i]? = some (.source numbers)) : Back b i [i]
  | link {i j : Nat} {way : List Nat} (h : b.feeder? i = some j) (hback : Back b j way) : Back b i (i :: way)

namespace Back

variable {way way' : List Nat}

/-- no source is fed -/
theorem source_unfed (hlib : b.Library) (hl : b.WellLinked) (h : b.roles[i]? = some (.source numbers)) :
    b.feeder? i = none := by
  cases hfeeder : b.feeder? i with
  | none => rfl
  | some j =>
    obtain ⟨role, hrole, hreads⟩ := hlib.reads_of_feeder hl hfeeder
    rw [h] at hrole
    cases hrole
    cases hreads

theorem unique (hlib : b.Library) (hl : b.WellLinked) (h : b.Back i way) (h' : b.Back i way') : way = way' := by
  induction h generalizing way' with
  | source hsource =>
    cases h' with
    | source _ => rfl
    | link hfeeder _ => rw [source_unfed hlib hl hsource] at hfeeder; cases hfeeder
  | link hfeeder _ ih =>
    cases h' with
    | source hsource => rw [source_unfed hlib hl hsource] at hfeeder; cases hfeeder
    | link hfeeder' hback' =>
      rw [hfeeder] at hfeeder'
      cases hfeeder'
      rw [ih hback']

theorem rest (h : b.Back i way) (hj : j ∈ way) : ∃ way', b.Back j way' ∧ way'.length ≤ way.length := by
  induction h with
  | source hsource =>
    obtain rfl := mem_singleton.1 hj
    exact ⟨_, .source hsource, le_rfl⟩
  | link hfeeder hback ih =>
    rcases mem_cons.1 hj with rfl | hj
    · exact ⟨_, .link hfeeder hback, le_rfl⟩
    · obtain ⟨way', hback', hle⟩ := ih hj
      exact ⟨way', hback', hle.trans (Nat.le_succ _)⟩

theorem nodup (hlib : b.Library) (hl : b.WellLinked) (h : b.Back i way) : way.Nodup := by
  induction h with
  | source _ => exact nodup_singleton _
  | link hfeeder hback ih =>
    refine nodup_cons.2 ⟨fun hmem => ?_, ih⟩
    obtain ⟨way', hback', hle⟩ := hback.rest hmem
    rw [hback'.unique hlib hl (.link hfeeder hback), length_cons] at hle
    exact Nat.not_succ_le_self _ hle

theorem lt (hlib : b.Library) (hl : b.WellLinked) (h : b.Back i way) : ∀ j ∈ way, j < b.instances.length := by
  have hroles : ∀ {j role}, b.roles[j]? = some role → j < b.instances.length := fun hj => by
    rw [← hlib.length_roles]
    exact lt_of_getElem? hj
  induction h with
  | source hsource =>
    intro j hj
    rw [mem_singleton.1 hj]
    exact hroles hsource
  | link hfeeder _ ih =>
    intro j hj
    rcases mem_cons.1 hj with rfl | hj
    · obtain ⟨role, hrole, -⟩ := hlib.reads_of_feeder hl hfeeder
      exact hroles hrole
    · exact ih j hj

theorem length_le (hlib : b.Library) (hl : b.WellLinked) (h : b.Back i way) : way.length ≤ b.instances.length := by
  have hsub : way ⊆ range b.instances.length := fun j hj => mem_range.2 (h.lt hlib hl j hj)
  simpa using (subperm_of_subset (h.nodup hlib hl) hsub).length_le

end Back

/-! ## Reference streams -/

section

variable (hlib : b.Library)

include hlib

theorem reference_source (h : b.roles[i]? = some (.source numbers)) : b.reference (steps + 1) i = numbers := by
  obtain ⟨⟨name, actor, affinity⟩, hd, hrole⟩ := hlib.declared h
  cases actor with
  | source s => cases hrole; simp [reference, actor?, hd]
  | scale s | sink s | bridge b | script s => cases hrole

theorem reference_fed (hl : b.WellLinked) (hrole : b.roles[i]? = some role)
    (h : b.feeder? i = some j) : b.reference (steps + 1) i = role.through (b.reference steps j) := by
  obtain ⟨⟨name, actor, affinity⟩, hd, hactor⟩ := hlib.declared hrole
  cases actor with
  | source s =>
    cases hactor
    rw [Back.source_unfed hlib hl hrole] at h
    cases h
  | scale s | sink s => cases hactor; simp [reference, actor?, hd, h, Role.through]
  | bridge b | script s => cases hactor

/-- further steps find nothing more -/
theorem reference_of_back (hl : b.WellLinked) {way : List Nat} (h : b.Back i way)
    (hle : way.length ≤ steps) : b.reference steps i = b.reference way.length i := by
  induction h generalizing steps with
  | source hsource =>
    obtain ⟨steps, rfl⟩ := Nat.exists_eq_add_of_le' hle
    exact (reference_source hlib hsource).trans (reference_source hlib hsource).symm
  | link hfeeder _ ih =>
    obtain ⟨steps, rfl⟩ := Nat.exists_eq_add_of_le' hle
    obtain ⟨role, hrole, -⟩ := hlib.reads_of_feeder hl hfeeder
    rw [length_cons, ← Nat.add_assoc, reference_fed hlib hl hrole hfeeder, reference_fed hlib hl hrole hfeeder,
      ih (Nat.le_add_left _ _)]

theorem reference_of_not_back (hl : b.WellLinked) (h : ¬ ∃ way, b.Back i way) : b.reference steps i = [] := by
  induction steps generalizing i with
  | zero => rfl
  | succ steps ih =>
    cases hfeeder : b.feeder? i with
    | some j =>
      obtain ⟨role, hrole, hreads⟩ := hlib.reads_of_feeder hl hfeeder
      rw [reference_fed hlib hl hrole hfeeder, ih fun hback => h (hback.imp' (i :: ·) fun _ hway => .link hfeeder hway)]
      exact eq_nil_of_length_eq_zero (Role.length_through hreads)
    | none =>
      cases hd : b.instances[i]? with
      | none => simp [reference, actor?, hd]
      | some d =>
        obtain ⟨name, actor, affinity⟩ := d
        cases actor with
        | source s => exact absurd ⟨_, .source (by rw [hlib.getElem?_roles, hd]; rfl)⟩ h
        | scale s | sink s => simp [reference, actor?, hd, hfeeder]
        | bridge b | script s => simp [reference, actor?, hd]

theorem referenceStream_of_source (h : b.roles[i]? = some (.source numbers)) : b.referenceStream i = numbers := by
  have hlt := lt_of_getElem? h
  rw [hlib.length_roles] at hlt
  obtain ⟨steps, hsteps⟩ := Nat.exists_eq_add_of_lt hlt
  rw [referenceStream, hsteps]
  exact reference_source hlib h

/-- reference streams follow the links -/
theorem referenceStream_of_feeder (hl : b.WellLinked) (hrole : b.roles[i]? = some role)
    (h : b.feeder? i = some j) : b.referenceStream i = role.through (b.referenceStream j) := by
  have hlt := lt_of_getElem? hrole
  rw [hlib.length_roles] at hlt
  obtain ⟨steps, hsteps⟩ := Nat.exists_eq_succ_of_ne_zero (Nat.ne_of_gt (Nat.zero_lt_of_lt hlt))
  have hfed : b.reference (steps + 1) i = role.through (b.reference steps j) := reference_fed hlib hl hrole h
  by_cases hback : ∃ way, b.Back j way
  · obtain ⟨way, hway⟩ := hback
    have hlen := (Back.link h hway).length_le hlib hl
    rw [length_cons] at hlen
    rw [referenceStream, referenceStream, reference_of_back hlib hl hway
      (show way.length ≤ b.instances.length by omega), hsteps, hfed, reference_of_back hlib hl hway (by omega)]
  · rw [referenceStream, referenceStream, hsteps, hfed, reference_of_not_back hlib hl hback,
      reference_of_not_back hlib hl hback]

end

end Builder

end Dataflow
