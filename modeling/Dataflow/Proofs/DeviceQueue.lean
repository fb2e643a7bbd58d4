import Mathlib.Data.List.Nodup
import Dataflow.Device.Accelerator
import Dataflow.Proofs.Steps

/-!
A device with commands on their way.

`Accelerator.Owes d m promises`: once all queued commands are carried out, the device is machine `m`; every promised
event is queued, or resolved with the promised answer. When commands are carried out never matters.
-/

namespace Dataflow

open List Step

/-- an event, and the answer that its command gives -/
abbrev Promise := EventId × Option Bytes

/-! ## Events -/

namespace EventBoard

variable {b : EventBoard Bytes} {e i : EventId} {v w : Option Bytes} {s : EventStatus}

theorem cells_issue (b : EventBoard Bytes) : b.issue.2.cells[b.cells.size]? = some ⟨.pending, none⟩ := by
  simp [issue]

theorem cells_issue_other (h : b.cells[i]? = some ⟨s, v⟩) : b.issue.2.cells[i]? = some ⟨s, v⟩ := by
  obtain ⟨hlt, hget⟩ := Array.getElem?_eq_some_iff.1 h
  simp [issue, Array.getElem?_push, hlt.ne, h]

attribute [local simp] Array.getElem?_modify

theorem cells_resolve (h : b.cells[e]? = some ⟨.pending, w⟩) : (b.resolve e .done v).cells[e]? = some ⟨.done, v⟩ := by
  simp [resolve, h]

theorem cells_resolve_other (h : i ≠ e) : (b.resolve e .done v).cells[i]? = b.cells[i]? := by
  simp [resolve, Ne.symm h]

theorem status_of_cell (h : b.cells[e]? = some ⟨s, v⟩) : b.status e = s := by
  simp [status, h]

theorem status_issue (h : b.status i = .done) : b.issue.2.status i = .done := by
  unfold status at h
  split at h
  · next cell hcell =>
    exact (status_of_cell (cells_issue_other hcell)).trans h
  · cases h

theorem status_resolve (h : b.status i = .done) : (b.resolve e .done v).status i = .done := by
  by_cases hi : i = e
  · subst hi
    unfold status at h
    split at h
    · next cell hcell => simp [status, resolve, hcell, h]
    · cases h
  · rw [status, cells_resolve_other hi]; exact h

theorem take_of_cell (h : b.cells[e]? = some ⟨.done, v⟩) :
    ∃ b', b.take e = (v, b') ∧ (∀ i, i ≠ e → b'.cells[i]? = b.cells[i]?) ∧ b'.status e = .done := by
  refine ⟨⟨b.cells.modify e fun cell => { cell with value := none }⟩, by simp [take, h], fun i hi => ?_, ?_⟩
  · simp [Ne.symm hi]
  · simp [status, h]

end EventBoard

/-! ## Carrying out -/

namespace Machine

variable {κ : Type} [Kernel κ] {m m1 m2 : Machine κ} {c : Command} {v : Option Bytes} {id offset : Nat} {b : Block}

def Performs (m : Machine κ) (c : Command) (v : Option Bytes) (m' : Machine κ) : Prop :=
  (perform c).exec m = (.ok v, m')

/-- queued commands are carried out in order, and these are their answers -/
inductive Carries : Machine κ → List (EventId × Command) → List Promise → Machine κ → Prop
  | nil (m : Machine κ) : Carries m [] [] m
  | cons {m m1 m2 : Machine κ} {e : EventId} {c : Command} {v : Option Bytes} {queue : List (EventId × Command)}
      {promises : List Promise} (h : m.Performs c v m1) (rest : Carries m1 queue promises m2) :
      Carries m ((e, c) :: queue) ((e, v) :: promises) m2

/-- some commands lead from one machine to the other -/
def Reaches (m m' : Machine κ) : Prop := ∃ queue promises, m.Carries queue promises m'

theorem Carries.concat {queue : List (EventId × Command)} {promises : List Promise} (h : m.Carries queue promises m1)
    {e : EventId} (hc : m1.Performs c v m2) : m.Carries (queue ++ [(e, c)]) (promises ++ [(e, v)]) m2 := by
  induction h with
  | nil m => exact .cons hc (.nil _)
  | cons hp _ ih => exact .cons hp (ih hc)

theorem Carries.trans {q1 q2 : List (EventId × Command)} {p1 p2 : List Promise} (h1 : m.Carries q1 p1 m1)
    (h2 : m1.Carries q2 p2 m2) : m.Carries (q1 ++ q2) (p1 ++ p2) m2 := by
  induction h1 with
  | nil m => exact h2
  | cons hp _ ih => exact .cons hp (ih h2)

theorem Reaches.refl (m : Machine κ) : m.Reaches m := ⟨[], [], .nil m⟩

theorem Reaches.trans (h1 : m.Reaches m1) (h2 : m1.Reaches m2) : m.Reaches m2 := by
  obtain ⟨q1, p1, h1⟩ := h1
  obtain ⟨q2, p2, h2⟩ := h2
  exact ⟨q1 ++ q2, p1 ++ p2, h1.trans h2⟩

theorem performs_write {data : Bytes} (hb : m.buffers[id]? = some b)
    (hword : offset + data.length < Word.size64) (hfits : offset + data.length ≤ b.size) :
    m.Performs (.write id offset data) none { m with buffers := m.buffers.setIfInBounds id (b.store offset data) } := by
  have ht : m.target id offset data.length = .ok b := by simp [target, hb, hword, hfits]
  have hyields : Yields (perform (.write id offset data)) m fun a m' =>
      a = none ∧ m' = { m with buffers := m.buffers.setIfInBounds id (b.store offset data) } := by
    refine ends_bind (ends_get ?_)
    refine ends_bind (ends_except_ok ht ?_)
    exact ends_bind (ends_set (ends_pure ⟨rfl, rfl⟩))
  obtain ⟨a, m', hm, rfl, rfl⟩ := hyields.exec
  exact hm

theorem performs_read {length : Nat} (hb : m.buffers[id]? = some b)
    (hword : offset + length < Word.size64) (hfits : offset + length ≤ b.size) :
    m.Performs (.read id offset length) (some (b.slice offset length)) m := by
  have ht : m.target id offset length = .ok b := by simp [target, hb, hword, hfits]
  have hyields : Yields (perform (.read id offset length)) m fun a m' => a = some (b.slice offset length) ∧ m' = m :=
    ends_bind (ends_get (ends_bind (ends_except_ok ht (ends_pure ⟨rfl, rfl⟩))))
  obtain ⟨a, m', hm, rfl, rfl⟩ := hyields.exec
  exact hm

theorem Performs.reaches (h : m.Performs c v m1) : m.Reaches m1 :=
  ⟨[(0, c)], [(0, v)], .cons h (.nil _)⟩

end Machine

namespace Accelerator

variable {κ : Type}

/-! ## Reserving buffers -/

def reserve (d : Accelerator κ) (more : Array Block) : Accelerator κ :=
  { d with machine := { d.machine with buffers := d.machine.buffers ++ more } }

@[simp] theorem reserve_buffers (d : Accelerator κ) (more : Array Block) :
    (d.reserve more).machine.buffers = d.machine.buffers ++ more := rfl

theorem reserve_reserve (d : Accelerator κ) (more more' : Array Block) :
    (d.reserve more).reserve more' = d.reserve (more ++ more') := by
  simp [reserve]

variable [Kernel κ] {d : Accelerator κ} {m m' : Machine κ} {P F : List Promise} {e : EventId} {v : Option Bytes}
  {c : Command} {a : Promise} {queued : List Promise}

theorem allocate_eq_ok {d' : Accelerator κ} {bytes id : Nat}
    (h : (Device.allocate bytes : Step DeviceError (Accelerator κ) BufferId).exec d = (.ok id, d')) :
    bytes ≤ Word.signedMax64 ∧ id = d.machine.buffers.size ∧ d' = d.reserve #[Block.zeroed bytes] := by
  change (allocate bytes).exec d = _ at h
  have h := exec_get_bind_ok h
  dsimp only at h
  split at h
  · obtain ⟨_, _, h1, -⟩ := exec_bind_ok h
    cases h1
  split at h
  · split at h
    · obtain ⟨_, _, h1, -⟩ := exec_bind_ok (exec_set_bind_ok h)
      cases h1
    · obtain ⟨_, _, h1, -⟩ := exec_bind_ok h
      cases h1
  · next hsmall =>
    cases exec_set_bind_ok h
    exact ⟨not_lt.1 hsmall, rfl, by simp [reserve]⟩

/-- the promises that are still queued, and those already kept -/
structure Due (d : Accelerator κ) (m : Machine κ) (P queued : List Promise) : Prop where
  accepts : d.mode = .immediate ∨ d.mode = .worker true ∨ d.mode = .stepped false
  prompt : d.mode ≠ .stepped false → d.queue = []
  carries : d.machine.Carries d.queue queued m
  pending : ∀ a ∈ queued, a ∈ P ∧ d.events.cells[a.1]? = some ⟨.pending, none⟩
  resolved : ∀ a ∈ P, a ∈ queued ∨ d.events.cells[a.1]? = some ⟨.done, a.2⟩
  distinct : (P.map Prod.fst).Nodup
  inOrder : (queued.map Prod.fst).Nodup

/-- once all commands are carried out the device is `m`, and these promises are kept -/
def Owes (d : Accelerator κ) (m : Machine κ) (P : List Promise) : Prop := ∃ queued, d.Due m P queued

/-- the device at a later moment: commands were carried out, and what was complete still is -/
structure Later (d d' : Accelerator κ) : Prop where
  mode : d'.mode = d.mode
  reaches : d.machine.Reaches d'.machine
  complete : ∀ e, d.events.status e = .done → d'.events.status e = .done

theorem Later.refl (d : Accelerator κ) : d.Later d := ⟨rfl, .refl _, fun _ h => h⟩

theorem Later.trans {d1 d2 : Accelerator κ} (h1 : d.Later d1) (h2 : d1.Later d2) : d.Later d2 :=
  ⟨h2.mode.trans h1.mode, h1.reaches.trans h2.reaches, fun e h => h2.complete e (h1.complete e h)⟩

theorem Owes.perm {P' : List Promise} (h : d.Owes m P) (hp : P.Perm P') : d.Owes m P' := by
  obtain ⟨queued, h⟩ := h
  exact ⟨queued, { h with
    pending := fun a ha => ⟨hp.subset (h.pending a ha).1, (h.pending a ha).2⟩
    resolved := fun a ha => h.resolved a (hp.symm.subset ha)
    distinct := (hp.map Prod.fst).nodup_iff.1 h.distinct }⟩

theorem Owes.reaches (h : d.Owes m P) : d.machine.Reaches m := by
  obtain ⟨queued, h⟩ := h
  exact ⟨d.queue, queued, h.carries⟩

/-- a device that owes no answer has nothing to do -/
theorem Owes.queue_eq_nil (h : d.Owes m []) : d.queue = [] := by
  obtain ⟨queued, h⟩ := h
  have hnone : queued = [] := by
    by_contra hne
    obtain ⟨a, rest, rfl⟩ := exists_cons_of_ne_nil hne
    exact absurd (h.pending a mem_cons_self).1 not_mem_nil
  have hcarries := h.carries
  rw [hnone] at hcarries
  generalize d.queue = queue at hcarries ⊢
  cases hcarries
  rfl

/-- a device that carries out commands at once has kept all promises -/
theorem Owes.done_of_immediate (h : d.Owes m P) (hmode : d.mode = .immediate) (ha : a ∈ P) :
    d.events.status a.1 = .done := by
  obtain ⟨queued, h⟩ := h
  have hcarries := h.carries
  rw [h.prompt (by rw [hmode]; exact fun hne => by cases hne)] at hcarries
  cases hcarries
  rcases h.resolved a ha with hq | hd
  · exact absurd hq not_mem_nil
  · exact EventBoard.status_of_cell hd

/-- every promised event is on the board -/
theorem Due.cell (h : d.Due m P queued) (ha : a ∈ P) : ∃ s w, d.events.cells[a.1]? = some ⟨s, w⟩ := by
  rcases h.resolved a ha with hq | hd
  · exact ⟨_, _, (h.pending a hq).2⟩
  · exact ⟨_, _, hd⟩

/-- a promised event is pending, or done; it never fails -/
theorem Owes.status (h : d.Owes m P) (ha : (e, v) ∈ P) : d.events.status e = .pending ∨ d.events.status e = .done := by
  obtain ⟨queued, h⟩ := h
  rcases h.resolved _ ha with hq | hd
  · exact .inl (EventBoard.status_of_cell (h.pending _ hq).2)
  · exact .inr (EventBoard.status_of_cell hd)

/-- a promise whose event is complete has been kept -/
theorem Due.kept (h : d.Due m P queued) (ha : (e, v) ∈ P) (hs : d.events.status e = .done) :
    (e, v) ∉ queued ∧ d.events.cells[e]? = some ⟨.done, v⟩ := by
  have hq : (e, v) ∉ queued := fun hq => by simp [EventBoard.status_of_cell (h.pending _ hq).2] at hs
  exact ⟨hq, (h.resolved _ ha).resolve_left hq⟩

/-- when every promised event is complete, all commands have been carried out -/
theorem Owes.settled (h : d.Owes m P) (hall : ∀ a ∈ P, d.events.status a.1 = .done) : d.machine = m := by
  obtain ⟨queued, h⟩ := h
  have hnone : queued = [] := by
    by_contra hne
    obtain ⟨a, rest, rfl⟩ := exists_cons_of_ne_nil hne
    have ha := h.pending a mem_cons_self
    have := hall a ha.1
    simp [EventBoard.status_of_cell ha.2] at this
  have hc := h.carries
  rw [hnone] at hc
  generalize d.queue = queue at hc
  cases hc
  rfl

/-- a promise that is kept and of no more use -/
theorem Owes.forget (h : d.Owes m ((e, v) :: F)) (hs : d.events.status e = .done) : d.Owes m F := by
  obtain ⟨queued, h⟩ := h
  have hq := (h.kept mem_cons_self hs).1
  refine ⟨queued, { h with
    pending := fun a ha => ⟨?_, (h.pending a ha).2⟩
    resolved := fun a ha => h.resolved a (mem_cons_of_mem _ ha)
    distinct := (nodup_cons.1 h.distinct).2 }⟩
  rcases mem_cons.1 (h.pending a ha).1 with rfl | hF
  · exact absurd ha hq
  · exact hF

/-- the answer of a promise that is kept can be taken -/
theorem Owes.take (h : d.Owes m ((e, v) :: F)) (hs : d.events.status e = .done) :
    ∃ events, d.events.take e = (v, events) ∧ Owes { d with events } m F ∧ d.Later { d with events } := by
  obtain ⟨queued, h⟩ := h
  obtain ⟨hq, hcell⟩ := h.kept mem_cons_self hs
  obtain ⟨events, htake, hother, hself⟩ := EventBoard.take_of_cell hcell
  have hfresh : ∀ a ∈ F, a.1 ≠ e := fun a ha heq =>
    (nodup_cons.1 h.distinct).1 (mem_map.2 ⟨a, ha, heq⟩)
  have hF : ∀ a ∈ queued, a ∈ F := fun a ha => by
    rcases mem_cons.1 (h.pending a ha).1 with rfl | hF
    · exact absurd ha hq
    · exact hF
  refine ⟨events, htake, ⟨queued, { h with
    pending := fun a ha => ⟨hF a ha, ?_⟩
    resolved := fun a ha => ?_
    distinct := (nodup_cons.1 h.distinct).2 }⟩, rfl, .refl _, fun i hi => ?_⟩
  · rw [hother a.1 (hfresh a (hF a ha))]; exact (h.pending a ha).2
  · rw [hother a.1 (hfresh a ha)]; exact h.resolved a (mem_cons_of_mem _ ha)
  · by_cases hie : i = e
    · rw [hie]; exact hself
    · unfold EventBoard.status at hi ⊢
      rwa [hother i hie]

/-! ## Working -/

theorem execute_eq (h : d.machine.Performs c v m') :
    d.execute e c = (.ok true, { d with machine := m', events := d.events.resolve e .done v }) := by
  unfold Machine.Performs at h
  cases v <;> simp [execute, h, EventBoard.fulfil, EventBoard.complete]

/-- carrying out the oldest queued command keeps all promises -/
theorem Owes.execute_next (h : d.Owes m P) {queue : List (EventId × Command)} (hq : d.queue = (e, c) :: queue) :
    ∃ d', ({ d with queue } : Accelerator κ).execute e c = (.ok true, d') ∧ d'.Owes m P ∧ d.Later d' := by
  obtain ⟨queued, h⟩ := h
  have hc := h.carries
  rw [hq] at hc
  generalize hm0 : d.machine = m0 at hc
  obtain _ | @⟨_, m1, _, _, _, v, _, promises, hp, hrest⟩ := hc
  have hnodup := nodup_cons.1 h.inOrder
  have hne : ∀ a ∈ promises, a.1 ≠ e := fun a ha heq => hnodup.1 (mem_map.2 ⟨a, ha, heq⟩)
  have hself := h.pending (e, v) mem_cons_self
  subst hm0
  refine ⟨_, execute_eq hp, ⟨promises, h.accepts, ?_, hrest, fun a ha => ?_, fun a ha => ?_, h.distinct, hnodup.2⟩,
    rfl, hp.reaches, fun i hi => EventBoard.status_resolve hi⟩
  · intro hmode
    have := h.prompt hmode
    simp [hq] at this
  · have := h.pending a (mem_cons_of_mem _ ha)
    exact ⟨this.1, by rw [EventBoard.cells_resolve_other (hne a ha)]; exact this.2⟩
  · by_cases hae : a.1 = e
    · -- events are promised once, so this is the command just carried out
      obtain rfl : a = (e, v) := inj_on_of_nodup_map h.distinct ha hself.1 hae
      exact .inr (EventBoard.cells_resolve hself.2)
    · rw [EventBoard.cells_resolve_other hae]
      rcases h.resolved a ha with hq | hd
      · rcases mem_cons.1 hq with rfl | hq
        · exact absurd rfl hae
        · exact .inl hq
      · exact .inr hd

/-- letting a device work keeps all promises -/
theorem Owes.stepQueue (n : Nat) (h : d.Owes m P) :
    ∃ results d', d.stepQueue n = (.ok results, d') ∧ d'.Owes m P ∧ d.Later d' := by
  induction n generalizing d with
  | zero => exact ⟨[], d, rfl, h, .refl _⟩
  | succ n ih =>
    rw [stepQueue]
    match hq : d.queue with
    | [] => exact ⟨[], d, rfl, h, .refl _⟩
    | (e, c) :: queue =>
      obtain ⟨d1, hexec, h1, hr1⟩ := h.execute_next hq
      obtain ⟨results, d2, hrest, h2, hr2⟩ := ih h1
      refine ⟨true :: results, d2, ?_, h2, hr1.trans hr2⟩
      simp only [hexec, hrest]
      rfl

/-! ## Submitting -/

section

variable (h : d.Due m P queued)

include h

/-- no promised event has the number that is issued next -/
theorem Due.fresh : ∀ a ∈ P, a.1 ≠ d.events.cells.size := by
  intro a ha heq
  obtain ⟨s, w, hcell⟩ := h.cell ha
  rw [heq] at hcell
  simp at hcell

theorem Due.distinct_cons (v : Option Bytes) : (((d.events.cells.size, v) :: P).map Prod.fst).Nodup :=
  nodup_cons.2 ⟨fun hmem => by
    obtain ⟨a, ha, heq⟩ := mem_map.1 hmem
    exact h.fresh a ha heq, h.distinct⟩

theorem Due.execute_now (hmode : d.mode ≠ .stepped false) (hc : m.Performs c v m') :
    ∃ d', ({ d with events := d.events.issue.2 } : Accelerator κ).execute d.events.cells.size c = (.ok true, d') ∧
      d'.Owes m' ((d.events.cells.size, v) :: P) ∧ d.Later d' := by
  -- nothing is queued, so the machine is the one that the command was promised for
  have hcarries := h.carries
  rw [h.prompt hmode] at hcarries
  generalize hm0 : d.machine = m0 at hcarries
  cases hcarries
  subst hm0
  refine ⟨_, execute_eq hc, ⟨[], h.accepts, fun _ => h.prompt hmode, ?_, by simp, fun a ha => ?_, h.distinct_cons v,
    nodup_nil⟩, rfl, hc.reaches, fun i hi => EventBoard.status_resolve (EventBoard.status_issue hi)⟩
  · simp only [h.prompt hmode]; exact .nil _
  · refine .inr ?_
    rcases mem_cons.1 ha with rfl | ha
    · exact EventBoard.cells_resolve d.events.cells_issue
    · rw [EventBoard.cells_resolve_other (h.fresh a ha)]
      exact EventBoard.cells_issue_other ((h.resolved a ha).resolve_left (by simp))

theorem Due.enqueue (hmode : d.mode = .stepped false) (hc : m.Performs c v m') :
    Owes { d with events := d.events.issue.2, queue := d.queue ++ [(d.events.cells.size, c)] } m'
      ((d.events.cells.size, v) :: P) := by
  refine ⟨queued ++ [(d.events.cells.size, v)], h.accepts, absurd hmode, h.carries.concat hc,
    fun a ha => ?_, fun a ha => ?_, h.distinct_cons v, ?_⟩
  · rcases mem_append.1 ha with ha | ha
    · have := h.pending a ha
      exact ⟨mem_cons_of_mem _ this.1, EventBoard.cells_issue_other this.2⟩
    · obtain rfl := mem_singleton.1 ha
      exact ⟨mem_cons_self, d.events.cells_issue⟩
  · rcases mem_cons.1 ha with rfl | ha
    · exact .inl (mem_append_right _ (mem_singleton_self _))
    · rcases h.resolved a ha with hq | hd
      · exact .inl (mem_append_left _ hq)
      · exact .inr (EventBoard.cells_issue_other hd)
  · rw [map_append, nodup_append]
    refine ⟨h.inOrder, by simp, fun x hx y hy => ?_⟩
    obtain ⟨a, ha, rfl⟩ := mem_map.1 hx
    obtain rfl : y = d.events.cells.size := by simpa using hy
    exact h.fresh a (h.pending a ha).1

end

/-- a command is taken; what it does comes after everything promised before -/
theorem Owes.submit (h : d.Owes m P) (hc : m.Performs c v m') :
    Yields (submit c) d fun e d' =>
      d'.Owes m' ((e, v) :: P) ∧ d.Later d' := by
  obtain ⟨queued, h⟩ := h
  refine ends_bind (ends_get ?_)
  simp only [EventBoard.issue]
  rcases h.accepts with hm | hm | hm
  · obtain ⟨d', hexec, ho, hr⟩ := h.execute_now (by simp [hm]) hc
    simp only [EventBoard.issue, hm] at hexec
    simp only [hm, hexec]
    refine ends_bind (ends_set ?_)
    refine ends_bind (ends_ok rfl ?_)
    exact ends_pure ⟨ho, hr⟩
  · obtain ⟨d', hexec, ho, hr⟩ := h.execute_now (by simp [hm]) hc
    simp only [EventBoard.issue, hm] at hexec
    simp only [hm, hexec]
    refine ends_bind (ends_set ?_)
    exact ends_pure ⟨ho, hr⟩
  · simp only [hm]
    refine ends_bind (ends_set ?_)
    exact ends_pure ⟨by simpa [EventBoard.issue, hm] using h.enqueue hm hc, hm.symm, .refl _,
      fun i hi => EventBoard.status_issue hi⟩

end Accelerator

end Dataflow
