import Dataflow.Network.Threads
import Dataflow.Proofs.Overlap

/-!
Threads do not stop too early.

A thread is dirty from its first attempt with progress until it has advanced the epoch; a partition is confirmed when it
has noted the current epoch. While nobody is dirty, all instances of confirmed partitions are idle; and if somebody is
dirty, somebody is who is not confirmed (`Crew.Watched`).
-/

namespace Dataflow

open List

variable {σ : Type} {inst : Instance σ} {wires : List Connection}

/-- an instance that was passed over; one that has terminated is not counted -/
def Instance.passedOver (inst : Instance σ) : Instance σ :=
  { inst with stats := { inst.stats with skipped := inst.stats.skipped + if inst.terminated then 0 else 1 } }

theorem Instance.Idle.attempt_eq [Behaviour σ] (h : inst.Idle wires)
    (maxLoops : Nat) : inst.attempt wires maxLoops = (wires, inst.passedOver, .ok .skipped) := by
  unfold Instance.attempt Instance.passedOver
  split
  · simp
  · next hactive => simp [h.resolve_left hactive, hactive]

/-- an attempt of an idle instance is skipped, and at most counted -/
theorem Instance.Idle.attempt [Behaviour σ] (h : inst.Idle wires) (maxLoops : Nat) :
    ∃ skipped, inst.attempt wires maxLoops = (wires, { inst with stats := { inst.stats with skipped } },
      .ok .skipped) :=
  ⟨_, h.attempt_eq maxLoops⟩

/-! ## Instances of a network -/

namespace Network

variable {n : Network σ} {p k p' k' : Nat}

def at? (n : Network σ) (p k : Nat) : Option (Instance σ) := n.partitions[p]?.bind (·.instances[k]?)

/-- the network after an attempt of one instance -/
def replace (n : Network σ) (p k : Nat) (wires : List Connection) (inst : Instance σ) : Network σ :=
  match n.partitions[p]? with
  | none => { n with wires }
  | some part => { n with wires, partitions := n.partitions.set p { part with instances := part.instances.set k inst } }

theorem replace_eq {part : Partition σ} (h : n.partitions[p]? = some part) : n.replace p k wires inst =
    { n with wires, partitions := n.partitions.set p { part with instances := part.instances.set k inst } } := by
  rw [replace, h]

@[simp] theorem replace_wires : (n.replace p k wires inst).wires = wires := by
  unfold replace
  split <;> rfl

@[simp] theorem length_replace : (n.replace p k wires inst).partitions.length = n.partitions.length := by
  unfold replace
  split <;> simp

theorem lt_of_at? (h : n.at? p k = some inst) : p < n.partitions.length := by
  obtain ⟨part, hpart, -⟩ := Option.bind_eq_some_iff.1 h
  exact lt_of_getElem? hpart

/-- an instance afterwards is the one that made the attempt, or stands where it stood -/
theorem at?_replace {x : Instance σ} (h : (n.replace p k wires inst).at? p' k' = some x) :
    (p' = p ∧ k' = k ∧ x = inst) ∨ (¬ (p' = p ∧ k' = k) ∧ n.at? p' k' = some x) := by
  unfold replace at h
  split at h
  · next hnone =>
    refine .inr ⟨?_, h⟩
    rintro ⟨rfl, -⟩
    simp only [at?, hnone] at h
    cases h
  next part hpart =>
  obtain ⟨part', hpart', hx⟩ := Option.bind_eq_some_iff.1 h
  rcases getElem?_set_cases hpart' with ⟨rfl, rfl⟩ | ⟨hne, hpart'⟩
  · rcases getElem?_set_cases hx with ⟨rfl, rfl⟩ | ⟨hne, hx⟩
    · exact .inl ⟨rfl, rfl, rfl⟩
    · exact .inr ⟨fun heq => hne heq.2, by rw [at?, hpart]; exact hx⟩
  · exact .inr ⟨fun heq => hne heq.1, by rw [at?, hpart']; exact hx⟩

variable [Behaviour σ]

/-- the attempt of one instance does not fault and keeps `Q`; without progress it leaves its own instance idle and wakes
nobody -/
def RestsAt (Q : Network σ → Prop) (n : Network σ) (p k : Nat) (inst : Instance σ) (maxLoops : Nat) : Prop :=
  ∃ wires inst' answer, inst.attempt n.wires maxLoops = (wires, inst', .ok answer) ∧ Q (n.replace p k wires inst') ∧
    (answer.madeProgress = false → inst'.Idle wires ∧
      ∀ ⦃p' k' x⦄, ¬ (p' = p ∧ k' = k) → n.at? p' k' = some x → x.Idle n.wires → x.Idle wires)

/-- attempts never fault, and one without progress leaves its own instance idle and wakes nobody -/
def Restful (Q : Network σ → Prop) : Prop :=
  ∀ ⦃n⦄ ⦃p k⦄ ⦃inst⦄, Q n → n.at? p k = some inst → ∀ maxLoops, n.RestsAt Q p k inst maxLoops

end Network

/-! ## Stages -/

namespace Stage

/-- has made progress, and not yet advanced the epoch -/
@[simp] def Dirty : Stage → Prop
  | .passing _ _ progress => progress = true
  | .marking | .advancing => True
  | _ => False

/-- will note epoch `e` if its pass goes on without progress -/
@[simp] def MayNote (e : Nat) : Stage → Prop
  | .passing seen _ progress => seen = e ∧ progress = false
  | .noting seen => seen = e
  | _ => False

/-- has attempted instance `k` without progress since it loaded epoch `e` -/
@[simp] def HasChecked (e k : Nat) : Stage → Prop
  | .passing seen next progress => seen = e ∧ progress = false ∧ k < next
  | .noting seen => seen = e
  | _ => False

/-- has loaded no epoch that is still to come, and has not faulted -/
@[simp] def Bounded (epoch : Nat) : Stage → Prop
  | .passing seen _ _ | .noting seen => seen ≤ epoch
  | .comparing e _ => e ≤ epoch
  | .faulted _ => False
  | _ => True

end Stage

namespace Crew

variable {stage : Stage}

def Calm (c : Crew σ) : Prop := ∀ ⦃p : Nat⦄ ⦃t⦄, c.threads[p]? = some t → ¬ t.stage.Dirty

/-- partition `q` has not noted epoch `e`, and never will -/
def Lost (c : Crew σ) (e q : Nat) : Prop :=
  q < c.idleAt.length ∧ c.idleAt[q]? ≠ some (some e) ∧ ∀ ⦃t⦄, c.threads[q]? = some t → ¬ t.stage.MayNote e

def AllIdle (c : Crew σ) : Prop :=
  ∀ ⦃p k⦄ ⦃inst⦄, c.network.at? p k = some inst → inst.Idle c.network.wires

/-- what the threads know of each other; `Conf` are the partitions that have noted the current epoch at some time -/
structure Watched (Q : Network σ → Prop) (Conf : Nat → Prop) (c : Crew σ) : Prop where
  good : Q c.network
  notes : c.idleAt.length = c.network.partitions.length
  count : c.threads.length ≤ c.network.partitions.length
  bounded : ∀ {p : Nat} {t}, c.threads[p]? = some t → t.stage.Bounded c.epoch
  noted : ∀ {p e}, c.idleAt[p]? = some (some e) → e ≤ c.epoch ∧ (e = c.epoch → Conf p)
  dirty : ¬ c.Calm → ∃ (q : Nat) (t : Thread), c.threads[q]? = some t ∧ t.stage.Dirty ∧ ¬ Conf q
  checked : c.Calm → ∀ {p k inst}, c.network.at? p k = some inst →
    (Conf p ∨ ∃ t, c.threads[p]? = some t ∧ t.stage.HasChecked c.epoch k) → inst.Idle c.network.wires
  compared : ∀ {p e next : Nat} {t}, c.threads[p]? = some t → t.stage = .comparing e next →
    if e = c.epoch then ∀ q < next, Conf q else ∃ q, next ≤ q ∧ c.Lost e q
  stopped : c.stopping = true → c.limitHit = false → c.Calm ∧ c.AllIdle
  finished : ∀ {p : Nat} {t}, c.threads[p]? = some t → t.stage = .finished → c.stopping = true

theorem not_mayNote_of_dirty {e : Nat} (h : stage.Dirty) : ¬ stage.MayNote e := by
  cases stage with
  | passing seen next progress =>
    rintro ⟨-, hp⟩
    rw [Stage.Dirty, hp] at h
    cases h
  | noting seen => exact h.elim
  | _ => exact id

theorem exists_dirty {c : Crew σ} (h : ¬ c.Calm) :
    ∃ (q : Nat) (t : Thread), c.threads[q]? = some t ∧ t.stage.Dirty := by
  simpa only [Calm, not_forall, not_not, exists_prop] using h

variable {Q : Network σ → Prop} {Conf : Nat → Prop} {c : Crew σ} {p : Nat} {t t' : Thread}

/-! ## Steps of one thread -/

/-- a thread goes to another stage, and changes nothing else -/
theorem Watched.move (h : c.Watched Q Conf) (ht : c.threads[p]? = some t) (hbounded : t'.stage.Bounded c.epoch)
    (hdirty : t'.stage.Dirty ↔ t.stage.Dirty)
    (hchecked : ∀ {k inst}, c.network.at? p k = some inst → t'.stage.HasChecked c.epoch k →
      t.stage.HasChecked c.epoch k ∨ inst.Idle c.network.wires)
    (hmay : ∀ {e}, t'.stage.MayNote e → t.stage.MayNote e ∨ e = c.epoch)
    (hcompared : ∀ {e next}, t'.stage = .comparing e next →
      if e = c.epoch then ∀ q < next, Conf q else ∃ q, next ≤ q ∧ c.Lost e q)
    (hfinished : t'.stage = .finished → c.stopping = true) :
    Watched Q Conf { c with threads := c.threads.set p t' } := by
  have hlt := lt_of_getElem? ht
  have hself : (c.threads.set p t')[p]? = some t' := getElem?_set_self hlt
  have hother : ∀ {q}, q ≠ p → (c.threads.set p t')[q]? = c.threads[q]? := fun hq => getElem?_set_ne (Ne.symm hq)
  have hcalm : Calm { c with threads := c.threads.set p t' } ↔ c.Calm := by
    constructor
    · intro hc q s hs
      by_cases hq : q = p
      · subst hq
        rw [ht] at hs
        cases hs
        exact fun hd => hc hself (hdirty.2 hd)
      · exact hc ((hother hq).trans hs)
    · intro hc q s hs
      rcases getElem?_set_cases hs with ⟨rfl, rfl⟩ | ⟨-, hs⟩
      · exact fun hd => hc ht (hdirty.1 hd)
      · exact hc hs
  have hlost : ∀ {e q}, e ≠ c.epoch → c.Lost e q → Lost { c with threads := c.threads.set p t' } e q := by
    rintro e q he ⟨hq, hnote, hmayNot⟩
    refine ⟨hq, hnote, fun s hs => ?_⟩
    rcases getElem?_set_cases hs with ⟨rfl, rfl⟩ | ⟨-, hs⟩
    · exact fun hm => (hmay hm).elim (hmayNot ht) he
    · exact hmayNot hs
  have hcompare : ∀ {e next}, (if e = c.epoch then ∀ q < next, Conf q else ∃ q, next ≤ q ∧ c.Lost e q) →
      if e = c.epoch then ∀ q < next, Conf q else ∃ q, next ≤ q ∧
      Lost { c with threads := c.threads.set p t' } e q := by
    intro e next hif
    split_ifs at hif ⊢ with he
    · exact hif
    · obtain ⟨q, hle, hq⟩ := hif
      exact ⟨q, hle, hlost he hq⟩
  refine ⟨h.good, h.notes,
    by simpa using h.count, fun hs => ?_, h.noted, fun hnot => ?_, fun hc {q k inst} hat hcases => ?_,
    fun hs hstage => ?_, fun hstop hlimit => ?_, fun hs hstage => ?_⟩
  · rcases getElem?_set_cases hs with ⟨rfl, rfl⟩ | ⟨-, hs⟩
    · exact hbounded
    · exact h.bounded hs
  · obtain ⟨q, s, hs, hd, hconf⟩ := h.dirty fun hc => hnot (hcalm.2 hc)
    by_cases hq : q = p
    · subst hq
      rw [ht] at hs
      cases hs
      exact ⟨q, t', hself, hdirty.2 hd, hconf⟩
    · exact ⟨q, s, (hother hq).trans hs, hd, hconf⟩
  · rcases hcases with hconf | ⟨s, hs, hk⟩
    · exact h.checked (hcalm.1 hc) hat (.inl hconf)
    · rcases getElem?_set_cases hs with ⟨rfl, rfl⟩ | ⟨-, hs⟩
      · exact (hchecked hat hk).elim (fun hk => h.checked (hcalm.1 hc) hat (.inr ⟨t, ht, hk⟩)) id
      · exact h.checked (hcalm.1 hc) hat (.inr ⟨s, hs, hk⟩)
  · rcases getElem?_set_cases hs with ⟨rfl, rfl⟩ | ⟨-, hs⟩
    · exact hcompare (hcompared hstage)
    · exact hcompare (h.compared hs hstage)
  · obtain ⟨hc, hidle⟩ := h.stopped hstop hlimit
    exact ⟨hcalm.2 hc, hidle⟩
  · rcases getElem?_set_cases hs with ⟨rfl, rfl⟩ | ⟨-, hs⟩
    · exact hfinished hstage
    · exact h.finished hs hstage

theorem Watched.note {seen : Nat} (h : c.Watched Q Conf) (ht : c.threads[p]? = some t)
    (hstage : t.stage = .noting seen) :
    Watched Q (fun q => Conf q ∨ q = p ∧ seen = c.epoch) { c with idleAt := c.idleAt.set p (some seen) } := by
  have hseen : seen ≤ c.epoch := by simpa [hstage] using h.bounded ht
  refine ⟨h.good,
    by simpa using h.notes, h.count, h.bounded, fun hq => ?_, fun hnot => ?_, fun hc {q k inst} hat hcases => ?_,
    fun hs hcompare => ?_, h.stopped, h.finished⟩
  · rcases getElem?_set_cases hq with ⟨rfl, heq⟩ | ⟨-, hq⟩
    · cases heq
      exact ⟨hseen, fun he => .inr ⟨rfl, he⟩⟩
    · exact ⟨(h.noted hq).1, fun he => .inl ((h.noted hq).2 he)⟩
  · obtain ⟨q, s, hs, hd, hconf⟩ := h.dirty hnot
    refine ⟨q, s, hs, hd, ?_⟩
    rintro (hq | ⟨rfl, -⟩)
    · exact hconf hq
    · rw [ht] at hs
      cases hs
      rw [hstage] at hd
      exact hd
  · rcases hcases with (hconf | ⟨rfl, he⟩) | hchecked
    · exact h.checked hc hat (.inl hconf)
    · exact h.checked hc hat (.inr ⟨t, ht, by rw [hstage]; exact he⟩)
    · exact h.checked hc hat (.inr hchecked)
  · have hif := h.compared hs hcompare
    split_ifs at hif ⊢ with he
    · exact fun q hq => .inl (hif q hq)
    · obtain ⟨q, hle, hlt, hnote, hmay⟩ := hif
      refine ⟨q, hle, by simpa using hlt, fun hq => ?_, hmay⟩
      rcases getElem?_set_cases hq with ⟨rfl, heq⟩ | ⟨-, hq⟩
      · cases heq
        exact hmay ht (by rw [hstage]; rfl)
      · exact hnote hq

theorem Watched.unnote (h : c.Watched Q Conf) (p : Nat) : Watched Q Conf { c with idleAt := c.idleAt.set p none } := by
  have hother : ∀ {q e : Nat}, (c.idleAt.set p none)[q]? = some (some e) → c.idleAt[q]? = some (some e) := by
    intro q e hq
    rcases getElem?_set_cases hq with ⟨-, heq⟩ | ⟨-, hq⟩
    · cases heq
    · exact hq
  refine ⟨h.good, by simpa using h.notes, h.count, h.bounded, fun hq => h.noted (hother hq), h.dirty, h.checked,
    fun hs hcompare => ?_, h.stopped, h.finished⟩
  have hif := h.compared hs hcompare
  split_ifs at hif ⊢ with he
  · exact hif
  · obtain ⟨q, hle, hlt, hnote, hmay⟩ := hif
    exact ⟨q, hle, by simpa using hlt, fun hq => hnote (hother hq), hmay⟩

theorem bounded_succ {epoch : Nat} (h : stage.Bounded epoch) : stage.Bounded (epoch + 1) := by
  cases stage with
  | passing seen next progress | noting seen | comparing e next => exact Nat.le_succ_of_le h
  | faulted f => exact h.elim
  | _ => trivial

/-- a dirty thread advances the epoch; nobody is confirmed any more -/
theorem Watched.advance (h : c.Watched Q Conf) (ht : c.threads[p]? = some t) (hdirty : t.stage.Dirty)
    (hready : t'.stage = .ready) :
    Watched Q (fun _ => False) { c with epoch := c.epoch + 1, threads := c.threads.set p t' } := by
  have hnot : ¬ c.Calm := fun hc => hc ht hdirty
  refine ⟨h.good, h.notes, by simpa using h.count, fun hs => ?_, fun hq => ?_, fun hnot' => ?_,
    fun hc {q k inst} hat hcases => ?_, fun {q e next s} hs hcompare => ?_, fun hstop hlimit => ?_,
    fun hs hfinished => ?_⟩
  · rcases getElem?_set_cases hs with ⟨rfl, rfl⟩ | ⟨-, hs⟩
    · rw [hready]
      trivial
    · exact bounded_succ (h.bounded hs)
  · have hle := (h.noted hq).1
    refine ⟨Nat.le_succ_of_le hle, fun he => ?_⟩
    simp only at he
    omega
  · obtain ⟨q, s, hs, hd⟩ := exists_dirty hnot'
    exact ⟨q, s, hs, hd, id⟩
  · -- no pass has loaded the new epoch
    obtain ⟨s, hs, hk⟩ := hcases.resolve_left id
    rcases getElem?_set_cases hs with ⟨rfl, rfl⟩ | ⟨-, hs⟩
    · rw [hready] at hk
      exact hk.elim
    · have hb := h.bounded hs
      generalize s.stage = stage at hk hb
      cases stage with
      | passing seen next progress =>
        have hseen : seen = c.epoch + 1 := hk.1
        rw [Stage.Bounded] at hb
        omega
      | noting seen =>
        have hseen : seen = c.epoch + 1 := hk
        rw [Stage.Bounded] at hb
        omega
      | _ => exact hk.elim
  · rcases getElem?_set_cases hs with ⟨rfl, rfl⟩ | ⟨-, hs⟩
    · rw [hready] at hcompare
      cases hcompare
    · have hle : e ≤ c.epoch := by simpa [hcompare] using h.bounded hs
      have hmay : ∀ {q : Nat}, (∀ ⦃s⦄, c.threads[q]? = some s → ¬ s.stage.MayNote e) →
          ∀ ⦃s⦄, (c.threads.set p t')[q]? = some s → ¬ s.stage.MayNote e := by
        intro q hq s hs
        rcases getElem?_set_cases hs with ⟨rfl, rfl⟩ | ⟨-, hs⟩
        · rw [hready]
          exact id
        · exact hq hs
      rw [if_neg (show ¬ e = c.epoch + 1 by omega)]
      have hif := h.compared hs hcompare
      split_ifs at hif with he
      · -- somebody is dirty who is not confirmed, and so has not been compared yet
        obtain ⟨q, s', hs', hd, hconf⟩ := h.dirty hnot
        have hlt := lt_of_getElem? hs'
        refine ⟨q, Nat.le_of_not_lt fun hq => hconf (hif q hq), ?_, fun hq => hconf ((h.noted hq).2 he),
          hmay fun s'' hs'' => ?_⟩
        · exact h.notes ▸ lt_of_lt_of_le hlt h.count
        · rw [hs'] at hs''
          cases hs''
          exact not_mayNote_of_dirty hd
      · obtain ⟨q, hle, hlt, hnote, hq⟩ := hif
        exact ⟨q, hle, hlt, hnote, hmay hq⟩
  · exact absurd (h.stopped hstop hlimit).1 hnot
  · rcases getElem?_set_cases hs with ⟨rfl, rfl⟩ | ⟨-, hs⟩
    · rw [hready] at hfinished
      cases hfinished
    · exact h.finished hs hfinished

/-! ## Attempts -/

section Attempts

variable {k seen next : Nat} {progress : Bool} {inst' : Instance σ}

section

variable (h : c.Watched Q Conf)

include h

theorem Watched.rest (hgood : Q (c.network.replace p k wires inst')) (hown : inst'.Idle wires)
    (hothers : ∀ ⦃p' k' x⦄, ¬ (p' = p ∧ k' = k) → c.network.at? p' k' = some x →
      x.Idle c.network.wires → x.Idle wires) :
    Watched Q Conf { c with network := c.network.replace p k wires inst' } := by
  have hidle : ∀ {p' k' x}, (c.network.replace p k wires inst').at? p' k' = some x →
      (c.network.at? p' k' = some x → x.Idle c.network.wires) → x.Idle wires := by
    intro p' k' x hx hbefore
    rcases Network.at?_replace hx with ⟨-, -, rfl⟩ | ⟨hne, hx⟩
    · exact hown
    · exact hothers hne hx (hbefore hx)
  refine ⟨hgood,
    by simpa using h.notes, by simpa using h.count, h.bounded, h.noted, h.dirty, fun hc {q j x} hx hcases => ?_,
    h.compared, fun hstop hlimit => ?_, h.finished⟩
  · rw [Network.replace_wires]
    exact hidle hx fun hx => h.checked hc hx hcases
  · obtain ⟨hc, hall⟩ := h.stopped hstop hlimit
    refine ⟨hc, fun q j x hx => ?_⟩
    rw [Network.replace_wires]
    exact hidle hx fun hx => hall hx

/-- an attempt with progress: whoever makes it was woken by a dirty thread, or is not confirmed -/
theorem Watched.stir (ht : c.threads[p]? = some t)
    (hstage : t.stage = .passing seen next progress) (hat : c.network.at? p next = some inst)
    (hactive : ¬ inst.Idle c.network.wires) (hgood : Q (c.network.replace p next wires inst'))
    (hstage' : t'.stage = .passing seen (next + 1) true) :
    Watched Q Conf { c with network := c.network.replace p next wires inst', threads := c.threads.set p t' } := by
  have hself : (c.threads.set p t')[p]? = some t' := getElem?_set_self (lt_of_getElem? ht)
  have hdirty : t'.stage.Dirty := by rw [hstage']; rfl
  have hseen : seen ≤ c.epoch := by simpa [hstage] using h.bounded ht
  refine ⟨hgood, by simpa using h.notes, by simpa using h.count, fun hs => ?_, h.noted, fun _ => ?_, fun hc => ?_,
    fun hs hcompare => ?_, fun hstop hlimit => ?_, fun hs hfinished => ?_⟩
  · rcases getElem?_set_cases hs with ⟨rfl, rfl⟩ | ⟨-, hs⟩
    · rw [hstage']
      exact hseen
    · exact h.bounded hs
  · by_cases hconf : Conf p
    · have hnot : ¬ c.Calm := fun hc => hactive (h.checked hc hat (.inl hconf))
      obtain ⟨q, s, hs, hd, hq⟩ := h.dirty hnot
      have hne : p ≠ q := fun heq => hq (heq ▸ hconf)
      exact ⟨q, s, (getElem?_set_ne hne).trans hs, hd, hq⟩
    · exact ⟨p, t', hself, hdirty, hconf⟩
  · exact absurd hdirty (hc hself)
  · rcases getElem?_set_cases hs with ⟨rfl, rfl⟩ | ⟨-, hs⟩
    · rw [hstage'] at hcompare
      cases hcompare
    · have hif := h.compared hs hcompare
      split_ifs at hif ⊢ with he
      · exact hif
      · obtain ⟨q, hle, hlt, hnote, hmay⟩ := hif
        refine ⟨q, hle, hlt, hnote, fun s hs => ?_⟩
        rcases getElem?_set_cases hs with ⟨rfl, rfl⟩ | ⟨-, hs⟩
        · exact not_mayNote_of_dirty hdirty
        · exact hmay hs
  · exact absurd ((h.stopped hstop hlimit).2 hat) hactive
  · rcases getElem?_set_cases hs with ⟨rfl, rfl⟩ | ⟨-, hs⟩
    · rw [hstage'] at hfinished
      cases hfinished
    · exact h.finished hs hfinished

theorem Watched.endPass (ht : c.threads[p]? = some t)
    (hstage : t.stage = .passing seen next progress) (hnone : ∀ {k inst}, c.network.at? p k = some inst → k < next) :
    (c.endPass p t seen progress).Watched Q Conf := by
  have hseen : seen ≤ c.epoch := by simpa [hstage] using h.bounded ht
  cases progress with
  | true => refine h.move ht ?_ ?_ ?_ ?_ ?_ ?_ <;> simp [hstage]
  | false =>
    refine h.move ht hseen ?_ (fun hat hk => .inl ?_) (fun hm => .inl ?_) ?_ ?_
    · simp [hstage]
    · rw [hstage]
      exact ⟨hk, rfl, hnone hat⟩
    · rw [hstage]
      exact ⟨hm, rfl⟩
    · simp
    · simp

theorem Watched.attempt [Behaviour σ] (loopMax : Nat) (ht : c.threads[p]? = some t)
    (hstage : t.stage = .passing seen next progress)
    (hrests : ∀ ⦃inst⦄, c.network.at? p next = some inst → c.network.RestsAt Q p next inst loopMax) :
    (c.attempt loopMax p t seen next progress).Watched Q Conf := by
  unfold Crew.attempt
  split
  · next hnone => exact h.endPass ht hstage fun hat => by simp [Network.at?, hnone] at hat
  next part hpart =>
  split
  · next hnone =>
    refine h.endPass ht hstage fun hat => ?_
    rw [Network.at?, hpart] at hat
    have hlt := lt_of_getElem? hat
    exact lt_of_lt_of_le hlt (getElem?_eq_none_iff.1 hnone)
  next inst hinst =>
  have hat : c.network.at? p next = some inst := by rw [Network.at?, hpart]; exact hinst
  obtain ⟨wires, inst', answer, hattempt, hgood, hquiet⟩ := hrests hat
  simp only [hattempt, PassTally.progress_ofAttempt, goto]
  rw [← Network.replace_eq hpart]
  cases hmade : answer.madeProgress with
  | false =>
    obtain ⟨hown, hothers⟩ := hquiet hmade
    have hrest := h.rest hgood hown hothers
    have hmove : ∀ {t'}, t'.stage = .passing seen (next + 1) (progress || false) →
        Watched Q Conf { c with network := c.network.replace p next wires inst', threads := c.threads.set p t' } := by
      intro t' hstage'
      rw [Bool.or_false] at hstage'
      refine hrest.move ht ?_ ?_ (fun {k x} hx hk => ?_) ?_ ?_ ?_ <;> rw [hstage'] at *
      · simpa [hstage] using h.bounded ht
      · rw [hstage]
        rfl
      · by_cases hkn : k = next
        · subst hkn
          right
          rcases Network.at?_replace hx with ⟨-, -, rfl⟩ | ⟨hne, -⟩
          · rw [Network.replace_wires]
            exact hown
          · exact absurd ⟨rfl, rfl⟩ hne
        · obtain ⟨hseen, hp, hlt⟩ := hk
          exact .inl (by rw [hstage]; exact ⟨hseen, hp, by omega⟩)
      · exact fun hm => .inl (by rw [hstage]; exact hm)
      · exact fun hcompare => by cases hcompare
      · exact fun hfinished => by cases hfinished
    exact { hmove rfl with }
  | true =>
    have hactive : ¬ inst.Idle c.network.wires := by
      intro hidle
      obtain ⟨skipped, hskip⟩ := hidle.attempt loopMax
      rw [hattempt] at hskip
      cases hskip
      cases hmade
    have hstir : ∀ {t'}, t'.stage = .passing seen (next + 1) (progress || true) →
        Watched Q Conf { c with network := c.network.replace p next wires inst', threads := c.threads.set p t' } :=
      fun hstage' => h.stir ht hstage hat hactive hgood (by rw [hstage', Bool.or_true])
    exact { hstir rfl with }

end

end Attempts

variable {e next : Nat}

/-! ## Runs -/

/-- when the notes of all partitions agree with the epoch, nobody can go on -/
theorem Watched.detect (h : c.Watched Q Conf) (ht : c.threads[p]? = some t) (hstage : t.stage = .comparing e next)
    (hnone : c.idleAt[next]? = none) : c.Calm ∧ c.AllIdle := by
  have hlen : c.network.partitions.length ≤ next := h.notes ▸ getElem?_eq_none_iff.1 hnone
  have hif := h.compared ht hstage
  split_ifs at hif with he
  · have hcalm : c.Calm := by
      by_contra hnot
      obtain ⟨q, s, hs, -, hq⟩ := h.dirty hnot
      have hlt := lt_of_getElem? hs
      exact hq (hif q (lt_of_lt_of_le hlt (h.count.trans hlen)))
    exact ⟨hcalm, fun q k inst hat => h.checked hcalm hat (.inl (hif q (lt_of_lt_of_le (Network.lt_of_at? hat) hlen)))⟩
  · obtain ⟨q, hle, hlt, -⟩ := hif
    rw [h.notes] at hlt
    omega

theorem Watched.compare {idle : Option Nat} (h : c.Watched Q Conf) (ht : c.threads[p]? = some t)
    (hstage : t.stage = .comparing e next) (hidle : c.idleAt[next]? = some idle) :
    (c.goto p t (if idle = some e then .comparing e (next + 1) else .ready)).Watched Q Conf := by
  have hle : e ≤ c.epoch := by simpa [hstage] using h.bounded ht
  split
  · next heq =>
    subst heq
    refine h.move ht hle ?_ ?_ ?_ (fun hcompare => ?_) ?_
    · simp [hstage]
    · simp
    · simp
    · cases hcompare
      have hif := h.compared ht hstage
      split_ifs at hif ⊢ with he
      · intro q hq
        rcases Nat.lt_succ_iff_lt_or_eq.1 hq with hq | rfl
        · exact hif q hq
        · exact (h.noted hidle).2 he
      · obtain ⟨q, hle, hlost⟩ := hif
        have hne : q ≠ next := fun heq => hlost.2.1 (heq ▸ hidle)
        exact ⟨q, by omega, hlost⟩
    · simp
  · refine h.move ht ?_ ?_ ?_ ?_ ?_ ?_ <;> simp [hstage]

/-- a step of a thread keeps the invariant, if the attempt that it makes is a good one -/
theorem Watched.step [Behaviour σ] (h : c.Watched Q Conf) (config : RunConfig) (p : Nat)
    (hrests : ∀ ⦃t seen next progress inst⦄, c.threads[p]? = some t → t.stage = .passing seen next progress →
      c.network.at? p next = some inst → c.network.RestsAt Q p next inst config.loopMax) :
    ∃ Conf', (c.step config p).Watched Q Conf' := by
  unfold Crew.step
  split
  · exact ⟨Conf, h⟩
  next t ht =>
  split
  · -- at the top of the loop
    next hstage =>
    split
    · next hstop =>
      refine ⟨Conf, h.move ht ?_ ?_ ?_ ?_ ?_ ?_⟩ <;> simp [hstage, hstop]
    split
    · have hlimit : Watched Q Conf { c with limitHit := true, stopping := true } :=
        { h with stopped := fun _ hfree => (Bool.noConfusion hfree), finished := fun _ _ => rfl }
      refine ⟨Conf, hlimit.move ht ?_ ?_ ?_ ?_ ?_ ?_⟩ <;> simp [hstage]
    · refine ⟨Conf, h.move ht ?_ ?_ ?_ ?_ ?_ ?_⟩ <;> simp [hstage]
  · next hstage =>
    refine ⟨Conf, h.move ht ?_ ?_ ?_ (fun hm => .inr ?_) ?_ ?_⟩
    · simp
    · simp [hstage]
    · simp
    · exact hm.1.symm
    · simp
    · simp
  · next seen next progress hstage => exact ⟨Conf, h.attempt config.loopMax ht hstage fun _ hat => hrests ht hstage hat⟩
  · next hstage =>
    refine ⟨Conf, (h.unnote p).move ht ?_ ?_ ?_ ?_ ?_ ?_⟩ <;> simp [hstage]
  · next hstage => exact ⟨_, h.advance ht (by rw [hstage]; trivial) rfl⟩
  · next seen hstage =>
    refine ⟨_, (h.note ht hstage).move ht ?_ ?_ ?_ ?_ ?_ ?_⟩ <;> simp [hstage]
  · next hstage =>
    refine ⟨Conf, h.move ht ?_ ?_ ?_ ?_ (fun hcompare => ?_) ?_⟩
    · simp
    · simp [hstage]
    · simp
    · simp
    · cases hcompare
      simp
    · simp
  · next e next hstage =>
    split
    · next hnone =>
      have hstop : Watched Q Conf { c with stopping := true } :=
        { h with stopped := fun _ _ => h.detect ht hstage hnone, finished := fun _ _ => rfl }
      refine ⟨Conf, hstop.move ht ?_ ?_ ?_ ?_ ?_ ?_⟩ <;> simp [hstage]
    · next idle hidle => exact ⟨Conf, h.compare ht hstage hidle⟩
  · exact ⟨Conf, h⟩
  · exact ⟨Conf, h⟩

theorem watched_start {n : Network σ} (h : Q n) : (start n).Watched Q fun _ => False := by
  have hready : ∀ {q : Nat} {s}, (start n).threads[q]? = some s → s.stage = .ready := by
    intro q s hs
    obtain ⟨stats, -, rfl⟩ := mem_map.1 (mem_of_getElem? hs)
    rfl
  have hcalm : (start n).Calm := fun q s hs => by rw [hready hs]; exact id
  have hcount : (start n).threads.length ≤ n.partitions.length := by
    have hle : (n.freshStats.takeWhile fun stats => isThreadName stats.name).length ≤ n.freshStats.length :=
      (takeWhile_sublist _).length_le
    simpa [start, Network.freshStats] using hle
  refine ⟨h, by simp [start], hcount, fun hs => by rw [hready hs]; trivial, fun hq => ?_, absurd hcalm,
    fun _ {q k inst} _ hcases => ?_, fun hs hcompare => ?_, Bool.noConfusion, fun hs hfinished => ?_⟩
  · simp only [start, getElem?_map] at hq
    obtain ⟨_, -, hnone⟩ := Option.map_eq_some_iff.1 hq
    cases hnone
  · obtain ⟨s, hs, hk⟩ := hcases.resolve_left id
    rw [hready hs] at hk
    exact hk.elim
  · rw [hready hs] at hcompare
    cases hcompare
  · rw [hready hs] at hfinished
    cases hfinished

variable [Behaviour σ]

def after (config : RunConfig) (c : Crew σ) (schedule : List Nat) : Crew σ :=
  schedule.foldl (fun c p => c.step config p) c

theorem Watched.after (hQ : Network.Restful Q) (h : c.Watched Q Conf) (config : RunConfig) (schedule : List Nat) :
    ∃ Conf', (c.after config schedule).Watched Q Conf' := by
  induction schedule generalizing c Conf with
  | nil => exact ⟨Conf, h⟩
  | cons p schedule ih =>
    obtain ⟨Conf', h'⟩ := h.step config p fun _ _ _ _ _ _ _ hat => hQ h.good hat config.loopMax
    exact ih h'

/-- threads that take turns make steps in some order -/
theorem run_eq_after (config : RunConfig) (fuel : Nat) (c : Crew σ) :
    ∃ schedule, (c.run config fuel).1 = c.after config schedule ∧
    ((c.run config fuel).2 = true → (c.after config schedule).threads.all (·.done) = true) := by
  induction fuel generalizing c with
  | zero => exact ⟨[], rfl, id⟩
  | succ fuel ih =>
    unfold run
    split
    · next hdone => exact ⟨[], rfl, fun _ => hdone⟩
    · obtain ⟨schedule, heq, hdone⟩ := ih (c.turn config)
      refine ⟨range c.threads.length ++ schedule, ?_, ?_⟩ <;> rw [after, foldl_append]
      · exact heq
      · exact hdone

end Crew

theorem Network.exists_at? {n : Network σ} {inst : Instance σ} (h : inst ∈ n.instances) :
    ∃ p k, n.at? p k = some inst := by
  obtain ⟨part, hpart, hinst⟩ := mem_flatMap.1 h
  obtain ⟨p, hp⟩ := getElem?_of_mem hpart
  obtain ⟨k, hk⟩ := getElem?_of_mem hinst
  exact ⟨p, k, by rw [at?, hp]; exact hk⟩

/-- threads that have all ended by themselves leave nobody who can go on -/
theorem Crew.Watched.ended {Q : Network σ → Prop} {Conf : Nat → Prop} {c : Crew σ} (h : c.Watched Q Conf)
    (hdone : c.threads.all (·.done) = true) {summary : RunSummary} (hend : c.ended = .finished summary)
    (hlimit : summary.outcome ≠ .passLimit) :
    (∀ inst ∈ c.network.instances, inst.Idle c.network.wires) ∧
      summary.outcome = if c.network.allTerminated then .allTerminated else .quiescent := by
  unfold Crew.ended at hend
  split at hend
  · cases hend
  next hcomplete =>
  split at hend
  · cases hend
  cases hend
  simp only [outcome] at hlimit ⊢
  split_ifs at hlimit ⊢ with hall hhit
  · refine ⟨fun inst hinst => .inl ?_, rfl⟩
    obtain ⟨part, hpart, hmem⟩ := mem_flatMap.1 hinst
    exact all_eq_true.1 (all_eq_true.1 hall part hpart) inst hmem
  · exact absurd rfl hlimit
  · refine ⟨fun inst hinst => ?_, rfl⟩
    obtain ⟨p, k, hat⟩ := Network.exists_at? hinst
    have hlt := Network.lt_of_at? hat
    have hcount : c.threads.length = c.network.partitions.length := by simpa [complete] using hcomplete
    have ht := getElem?_eq_getElem (hcount ▸ hlt)
    -- a thread that is done has found the run stopped
    have hstop : c.stopping = true := by
      refine h.finished ht ?_
      have hbounded := h.bounded ht
      have hthread := all_eq_true.1 hdone _ (mem_of_getElem? ht)
      unfold Thread.done at hthread
      split at hthread
      · assumption
      · next hfaulted => rw [hfaulted] at hbounded; exact hbounded.elim
      · cases hthread
    exact (h.stopped hstop (Bool.eq_false_iff.2 hhit)).2 hat

end Dataflow
