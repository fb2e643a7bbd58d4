import Dataflow.Proofs.BridgeStep
import Dataflow.Proofs.PortAccess
import Dataflow.Proofs.PortMoves
import Dataflow.Proofs.ReadyPorts
import Dataflow.Proofs.StockCalls

/-!
What one step of a bridge does, over any device.

A bridge whose ports are in the condition of its phase (`Bridge.Regular`) makes steps as in `Bridge.StepsTo` only, and
stays in that condition. A step that stops leaves phase, launch, counters and profile as they were (`Bridge.Underway`),
and stops only for a reason that the terms of the device name (`step_ends`).
-/

namespace Dataflow

open List Step Step.Way

namespace Ports

/-- ports that are as ready as those were, with the same actions fired -/
structure Kept (p q : Ports) : Prop where
  actions : q.actions = p.actions
  ready : ∀ {ins outs}, p.Ready ins outs → q.Ready ins outs

variable {p q r : Ports} {i o n : Nat} {bytes : Bytes}

theorem Kept.refl (p : Ports) : p.Kept p := ⟨rfl, id⟩

theorem Kept.trans (h : p.Kept q) (h' : q.Kept r) : p.Kept r :=
  ⟨h'.actions.trans h.actions, fun hp => h'.ready (h.ready hp)⟩

theorem kept_readBytes (h : p.readBytes i n = .ok (bytes, q)) : p.Kept q :=
  ⟨onInput_actions h, fun hp => hp.of_readBytes h⟩

theorem kept_writeBytes (h : p.writeBytes o bytes = .ok q) : p.Kept q :=
  ⟨onOutput_actions h, fun hp => hp.of_writeBytes h⟩

end Ports

theorem BridgePort.New.bounded {p : BridgePort} (h : p.New) : p.Bounded := by
  have hpos := h.geometry.slots
  refine ⟨h.geometry, by rw [h.staging]; rfl, ?_, ?_, ?_, ?_⟩
  · rwa [h.host]
  · rwa [h.host]
  · rwa [h.device]
  · rwa [h.device]

namespace Bridge

open BridgePort

variable {δ α β κ : Type}

/-! ## What an action changes at its end only -/

/-- the bridges of these states differ in their device, their ports and two flags at most, and the open ports are
kept -/
structure Underway (s s' : Bridge δ × Ports) : Prop where
  phase : s'.1.phase = s.1.phase
  kernel : s'.1.kernel = s.1.kernel
  callIndex : s'.1.callIndex = s.1.callIndex
  failed : s'.1.failed = s.1.failed
  profile : s'.1.profile = s.1.profile
  kept : s.2.Kept s'.2

instance : IsPreorder (Bridge δ × Ports) Underway where
  refl _ := ⟨rfl, rfl, rfl, rfl, rfl, .refl _⟩
  trans _ _ _ h h' := ⟨h'.phase.trans h.phase, h'.kernel.trans h.kernel, h'.callIndex.trans h.callIndex,
    h'.failed.trans h.failed, h'.profile.trans h.profile, h.kept.trans h'.kept⟩

def underway [Device δ] : Trail δ := .ofRel Underway fun _ w _ _ _ _ => ⟨rfl, rfl, rfl, rfl, rfl, .refl w⟩

instance [Device δ] : Routine (underway (δ := δ)) where
  read h := ⟨rfl, rfl, rfl, rfl, rfl, Ports.kept_readBytes h⟩
  write h := ⟨rfl, rfl, rfl, rfl, rfl, Ports.kept_writeBytes h⟩

/-- a part of an action, and then more: what went before lasts, and phase, launch and counters stay -/
theorem ends_bind_underway [Device δ] {n : Nat} {op : Op δ α} {f : α → Op δ β} {t s : Bridge δ × Ports}
    {R : α → Bridge δ × Ports → Prop} {Q : β → Bridge δ × Ports → Prop} {E : Stop DeviceError → Prop}
    (hs : Underway t s) (hop : Ends op s R fun stop _ => E stop) (hunder : Follows underway op n)
    (hf : ∀ a s', R a s' → Underway t s' → Ends (f a) s' Q fun stop s' => E stop ∧ Underway t s') :
    Ends (op >>= f) s Q fun stop s' => E stop ∧ Underway t s' :=
  ends_bind ((hop.and (hunder s)).imp (fun a s' h => hf a s' h.1 (trans_of Underway hs h.2))
    fun _ _ h => ⟨h.1, trans_of Underway hs h.2⟩)

/-! ## Conditions -/

section Conditions

variable {test test' : Nat → α → Checked Bool} {xs : List α} {i k : Nat}

theorem anyIndexed_congr (h : ∀ {k a}, xs[k]? = some a → test (i + k) a = test' (i + k) a) :
    anyIndexed test i xs = anyIndexed test' i xs := by
  induction xs generalizing i with
  | nil => rfl
  | cons a rest ih =>
    have hfirst := h (show (a :: rest)[0]? = some a from rfl)
    have hrest := ih fun {k a'} hk => by
      rw [show i + 1 + k = i + (k + 1) by omega]
      exact h (show (a :: rest)[k + 1]? = some a' from hk)
    simp only [Nat.add_zero] at hfirst
    simp only [anyIndexed, hfirst, hrest]

theorem test_of_anyIndexed (h : anyIndexed test i xs = .ok false) {a : α} (hk : xs[k]? = some a) :
    test (i + k) a = .ok false := by
  induction xs generalizing i k with
  | nil => cases hk
  | cons b rest ih =>
    obtain ⟨answer, hanswer, h⟩ := bind_eq_ok h
    cases answer with
    | true => cases h
    | false =>
      cases k with
      | zero =>
        cases hk
        exact hanswer
      | succ k =>
        rw [show i + (k + 1) = i + 1 + k by omega]
        exact ih h hk

theorem anyIndexed_eq_false (h : ∀ {k a}, xs[k]? = some a → test (i + k) a = .ok false) :
    anyIndexed test i xs = .ok false := by
  have hnone : anyIndexed (fun _ _ => .ok false) i xs = .ok false := by
    clear h
    induction xs generalizing i with
    | nil => rfl
    | cons a rest ih => exact ih
  exact (anyIndexed_congr h).trans hnone

end Conditions

/-! ## Port by port -/

/-- port by port, `R` holds between the ports before and after -/
structure Portwise (R : Nat → BridgePort → BridgePort → Prop) (ps qs : List BridgePort) : Prop where
  length : qs.length = ps.length
  each : ∀ {i p q}, ps[i]? = some p → qs[i]? = some q → R i p q

section Portwise

variable {R S : Nat → BridgePort → BridgePort → Prop} {ps qs rs : List BridgePort} {i : Nat} {p q : BridgePort}
  {E : Stop DeviceError → Prop} {b : Bridge δ} {w : Ports}

section

variable (h : Portwise R ps qs)

include h

theorem Portwise.before (hq : qs[i]? = some q) : ∃ p, ps[i]? = some p ∧ R i p q := by
  have hp := getElem?_eq_getElem (h.length ▸ lt_of_getElem? hq)
  exact ⟨_, hp, h.each hp hq⟩

theorem Portwise.after (hp : ps[i]? = some p) : ∃ q, qs[i]? = some q ∧ R i p q := by
  have hq := getElem?_eq_getElem (h.length.symm ▸ lt_of_getElem? hp)
  exact ⟨_, hq, h.each hp hq⟩

theorem Portwise.trans (h' : Portwise S qs rs) : Portwise (fun i p r => ∃ q, R i p q ∧ S i q r) ps rs := by
  refine ⟨h'.length.trans h.length, fun hp hr => ?_⟩
  obtain ⟨q, hq, hpq⟩ := h.after hp
  exact ⟨q, hpq, h'.each hq hr⟩

theorem Portwise.mono (hRS : ∀ {i p q}, ps[i]? = some p → R i p q → S i p q) : Portwise S ps qs :=
  ⟨h.length, fun hp hq => hRS hp (h.each hp hq)⟩

theorem Portwise.map_eq {f : BridgePort → κ} (hR : ∀ {i p q}, R i p q → f q = f p) : qs.map f = ps.map f := by
  refine ext_getElem? fun i => ?_
  rw [getElem?_map, getElem?_map]
  cases hq : qs[i]? with
  | none =>
    rw [getElem?_eq_none_iff, h.length, ← getElem?_eq_none_iff] at hq
    rw [hq]
  | some q =>
    obtain ⟨p, hp, hpq⟩ := h.before hq
    rw [hp, Option.map_some, Option.map_some, hR hpq]

theorem Portwise.forall_mem {P Q : BridgePort → Prop} (hP : ∀ p ∈ ps, P p)
    (hR : ∀ {i p q}, P p → R i p q → Q q) : ∀ q ∈ qs, Q q := by
  intro q hq
  obtain ⟨i, hi⟩ := getElem?_of_mem hq
  obtain ⟨p, hp, hpq⟩ := h.before hi
  exact hR (hP p (mem_of_getElem? hp)) hpq

end

/-- the ports of one side are worked on in order, and the others are left alone; `I i` holds before the turn of port
`i` -/
theorem ends_portwise {f : Nat → Op δ α} {R : Nat → α → BridgePort → BridgePort → Prop}
    (side other : Bridge δ → List BridgePort) (I : Nat → Bridge δ × Ports → Prop) (h0 : I 0 (b, w))
    (hf : ∀ {i p s}, (side b)[i]? = some p → (side s.1)[i]? = some p → I i s →
      Ends (f i) s (fun a s' => other s'.1 = other s.1 ∧ I (i + 1) s' ∧ ∃ q, R i a p q ∧ side s'.1 = (side s.1).set i q)
        fun stop _ => E stop) :
    Ends ((range (side b).length).mapM f) (b, w) (fun answers s' => other s'.1 = other b ∧ I (side b).length s' ∧
      answers.length = (side b).length ∧ Portwise (fun i p q => ∃ a, answers[i]? = some a ∧ R i a p q) (side b)
      (side s'.1)) fun stop _ => E stop := by
  -- after some answers: the ports they belong to have moved, the rest has not
  let Part : List α → Bridge δ × Ports → Prop := fun answers s => other s.1 = other b ∧ I answers.length s ∧
    Portwise (fun i p q => (∃ a, answers[i]? = some a ∧ R i a p q) ∨ (answers.length ≤ i ∧ q = p)) (side b) (side s.1)
  refine (ends_mapM_answers Part ⟨rfl, h0, rfl, fun hp hq => .inr ⟨Nat.zero_le _, ?_⟩⟩
    fun done s hlt hpart => ?_).mono ?_
  · exact Option.some.inj (hq.symm.trans hp)
  · obtain ⟨hother, hI, hports⟩ := hpart
    have hp := getElem?_eq_getElem hlt
    obtain ⟨q, hq, hdone | ⟨-, rfl⟩⟩ := hports.after hp
    · obtain ⟨a, ha, -⟩ := hdone
      exact absurd (lt_of_getElem? ha) (lt_irrefl _)
    · refine (hf hp hq hI).mono ?_
      rintro a s' ⟨hother', hI', q, hR, hside⟩
      refine ⟨hother'.trans hother, by rwa [length_append, length_singleton], by rw [hside, length_set, hports.length],
        fun hp' hr => ?_⟩
      rw [hside] at hr
      rcases getElem?_set_cases hr with ⟨rfl, rfl⟩ | ⟨hne, hr⟩
      · rw [hp] at hp'
        cases hp'
        exact .inl ⟨a, getElem?_concat_length, hR⟩
      · rcases hports.each hp' hr with ⟨a', ha', hR'⟩ | ⟨hle, rfl⟩
        · exact .inl ⟨a', by rw [getElem?_append_left (lt_of_getElem? ha')]; exact ha', hR'⟩
        · refine .inr ⟨?_, rfl⟩
          rw [length_append, length_singleton]
          omega
  · rintro answers s' ⟨hlen, hother, hI, hports⟩
    refine ⟨hother, hlen ▸ hI, hlen, hports.mono fun hp hpart => ?_⟩
    rcases hpart with hdone | ⟨hle, -⟩
    · exact hdone
    · exact absurd (lt_of_getElem? hp) (by omega)

theorem ends_portwise_forM {f : Nat → Op δ Unit} (side other : Bridge δ → List BridgePort)
    (I : Nat → Bridge δ × Ports → Prop) (h0 : I 0 (b, w))
    (hf : ∀ {i p s}, (side b)[i]? = some p → (side s.1)[i]? = some p → I i s →
      Ends (f i) s (fun _ s' => other s'.1 = other s.1 ∧ I (i + 1) s' ∧ ∃ q, R i p q ∧ side s'.1 = (side s.1).set i q)
        fun stop _ => E stop) :
    Ends ((range (side b).length).forM f) (b, w)
      (fun _ s' => other s'.1 = other b ∧ I (side b).length s' ∧ Portwise R (side b) (side s'.1))
      fun stop _ => E stop := by
  refine Ends.forM ((ends_portwise side other I h0 hf).mono fun answers s' h => ?_)
  refine ⟨h.1, h.2.1, h.2.2.2.mono fun _ hanswered => ?_⟩
  obtain ⟨_, _, hR⟩ := hanswered
  exact hR

end Portwise

/-! ## Single ports -/

section Single

variable {s : Bridge δ × Ports} {i : Nat} {p : BridgePort} {op : BridgePort.Op δ α} {R : α → BridgePort × δ → Prop}
  {E : Stop DeviceError → Prop} {F : Prop} {ins outs : List Nat}

theorem ends_atInput (hp : s.1.inputs[i]? = some p) (h : Ends op (p, s.1.device) R fun stop _ => E stop) :
    Ends (onInput i op) s (fun a s' => ∃ t, R a t ∧
      s' = ({ s.1 with device := t.2, inputs := s.1.inputs.set i t.1 }, s.2))
      fun stop _ => E stop := ends_onInput hp (h.mono fun _ t hR => ⟨t, hR, rfl⟩)

theorem ends_atOutput (hp : s.1.outputs[i]? = some p) (h : Ends op (p, s.1.device) R fun stop _ => E stop) :
    Ends (onOutput i op) s (fun a s' => ∃ t, R a t ∧
      s' = ({ s.1 with device := t.2, outputs := s.1.outputs.set i t.1 }, s.2))
      fun stop _ => E stop := ends_onOutput hp (h.mono fun _ t hR => ⟨t, hR, rfl⟩)

/-- nothing is left that this output could hand on -/
def Drained (w : Ports) (o : Nat) (p : BridgePort) : Prop :=
  ∃ m, p.hostPending = .ok m ∧ (m = 0 ∨ w.availableOut o = .ok 0)

/-- an output hands on what there is room for, and only then does a bridge that has stalled take heart again; what a
port that is ready takes from the staging ring, it takes from the room as well, so one of the two is used up -/
theorem freeUp_moves (hp : s.1.outputs[i]? = some p) (hbounded : p.Bounded) (hquiet : p.Quiet)
    (hready : F → s.2.Ready ins outs) (hsize : outs[i]? = some p.spec.tokenSize) :
    Ends (freeUp i) s (fun _ s' => s'.1.inputs = s.1.inputs ∧ s'.1.device = s.1.device ∧
        (F → s'.2.Ready ins outs ∧ ∀ o, o ≠ i → s'.2.availableOut o = s.2.availableOut o) ∧
        ∃ q, HandedOn p q ∧ s'.1.outputs = s.1.outputs.set i q ∧
        (s'.1.stalled = s.1.stalled ∨ q.host.tail ≠ p.host.tail) ∧
          (F → Drained s'.2 i q))
      fun _ _ => ¬ F := by
  refine ends_thePorts ?_
  refine ends_bind (ends_checked (fun room hroom => ?_) fun f hf hF => ?_)
  swap
  · obtain ⟨_, hroom⟩ := (hready hF).availableOut hsize
    cases hroom.symm.trans hf
  obtain ⟨m, bytes, tail, -, hunstage, hlen, htail, hleft⟩ := hbounded.unstage room
  refine ends_bind (ends_onOutput hp (ends_thePort ?_))
  refine ends_bind (ends_ok hunstage (ends_putPort (ends_pure ?_)))
  have hhanded : HandedOn p { p with host := { p.host with tail }, device := { p.device with tail } } :=
    ⟨htail, ⟨rfl, rfl, rfl, rfl, rfl, rfl⟩, hquiet.first, hquiet.second, hquiet.index⟩
  split
  · next hbytes =>
    have hwrites := fun hF => (hready hF).writeBytes hsize hroom hlen (min_le_right m room)
    refine ends_thePorts ?_
    refine ends_bind (ends_checked (fun w hwrite => ?_) fun f hf hF => ?_)
    · have hwritten : F → w.Ready ins outs ∧ w.availableOut i = .ok (room - min m room) ∧
          ∀ o, o ≠ i → w.availableOut o = s.2.availableOut o := by
        intro hF
        obtain ⟨_, hwrite', hwritten⟩ := hwrites hF
        cases hwrite.symm.trans hwrite'
        exact hwritten
      refine ends_modify ⟨rfl, rfl, fun hF => ⟨(hwritten hF).1, (hwritten hF).2.2⟩, _, hhanded, rfl, .inr ?_,
        fun hF => ⟨_, hleft, ?_⟩⟩
      · -- bytes came out, so the tail has moved
        rintro (hsame : tail = p.host.tail)
        have hnone := (distance_of_unstage hbounded hunstage).1
        rw [hsame, Indices.distance_self, Nat.zero_mul] at hnone
        simp [length_eq_zero_iff.1 hnone] at hbytes
      · rw [(hwritten hF).2.1]
        rcases le_total m room with hle | hle
        · exact .inl (Nat.sub_eq_zero_of_le hle)
        · exact .inr (by rw [min_eq_right hle, Nat.sub_self])
    · obtain ⟨_, hwrite, -⟩ := hwrites hF
      cases hwrite.symm.trans hf
  · next hempty =>
    refine ends_pure ⟨rfl, rfl, fun hF => ⟨hready hF, fun _ _ => rfl⟩, _, hhanded, rfl,
      .inl rfl, fun hF => ⟨_, hleft, ?_⟩⟩
    have hnone : min m room * p.spec.tokenSize = 0 := by
      rw [← hlen]
      simpa using hempty
    rcases Nat.mul_eq_zero.1 hnone with hmin | htoken
    · rw [hroom]
      rcases le_total m room with hle | hle
      · exact .inl (Nat.sub_eq_zero_of_le hle)
      · exact .inr (by rw [← hmin, min_eq_right hle])
    · exact absurd htoken hbounded.geometry.token.ne'

variable [Device δ] {T : Device.Terms δ} {reads : List (EventId × Nat)}

/-- an input stages what it can and pushes it; from a port that is ready it takes all that it has room for -/
theorem sendInput_moves (hp : s.1.inputs[i]? = some p) (hbounded : p.Bounded) (hquiet : p.Quiet)
    (hready : F → s.2.Ready ins outs) (hsize : ins[i]? = some p.spec.tokenSize) (h : T.owes reads s.1.device) :
    Ends (sendInput i) s (fun _ s' => s'.1.outputs = s.1.outputs ∧ T.owes reads s'.1.device ∧
      (F → s'.2.Ready ins outs) ∧
        (∀ j, j ≠ i → s'.2.availableIn j = s.2.availableIn j) ∧ ∃ q, Sent p q ∧ s'.1.inputs = s.1.inputs.set i q ∧
          (F → p.spec.capacity < Word.size32 →
            stageable p s.2 i = .ok (Indices.distance p.host.head q.host.head p.spec.capacity)))
      fun stop _ => F → T.refuses stop := by
  -- the head is told whether or not something was staged
  have hpublish : ∀ {s1 : Bridge δ × Ports} {q}, s1.1.inputs[i]? = some q →
      Ends (onInput i (do putPort (← thePort).publishHead)) s1
        (fun _ s' => s' = ({ s1.1 with inputs := s1.1.inputs.set i q.publishHead }, s1.2))
        fun stop _ => F → T.refuses stop := by
    intro s1 q hq
    have hput : Ends (do putPort (← thePort).publishHead : BridgePort.Op δ Unit) (q, s1.1.device)
        (fun _ t => t = (q.publishHead, s1.1.device)) fun stop _ => F → T.refuses stop := ends_thePort (ends_modify rfl)
    refine (ends_atInput hq hput).mono ?_
    rintro - _ ⟨_, rfl, rfl⟩
    rfl
  obtain ⟨m, hm, -, hfree⟩ := hbounded.host_levels
  refine ends_thePorts (ends_theBridge ?_)
  refine ends_bind (ends_ok (fetch_eq_ok hp) ?_)
  refine ends_bind (ends_checked (fun n hstage => ?_) fun f hf hF => ?_)
  swap
  · obtain ⟨level, hlevel⟩ := (hready hF).availableIn hsize
    simp [stageable, hlevel, hfree] at hf
  obtain ⟨level, hlevel, hn⟩ : ∃ level, s.2.availableIn i = .ok level ∧ n = min level (p.spec.capacity - 1 - m) := by
    obtain ⟨level, hlevel, hn⟩ := bind_eq_ok hstage
    rw [hfree] at hn
    cases hn
    exact ⟨level, hlevel, rfl⟩
  split_ifs with h0
  · refine ends_bind (ends_ok (Word.mul64_eq_ok (hbounded.geometry.scaled_lt (by omega))) ?_)
    have hreads := fun hF => (hready hF).readBytes hsize hlevel (n := n) (by omega)
    refine ends_bind (ends_checked (fun read hread => ?_) fun f hf hF => ?_)
    swap
    · obtain ⟨_, _, hread, -⟩ := hreads hF
      cases hread.symm.trans hf
    have hread' : F → read.1.length = n * p.spec.tokenSize ∧ read.2.Ready ins outs := by
      intro hF
      obtain ⟨_, _, hread', hlen, hready'⟩ := hreads hF
      cases hread.symm.trans hread'
      exact ⟨hlen, hready'⟩
    refine ends_bind (ends_modify ?_)
    refine ends_bind ((ends_atInput (s := (s.1, read.2)) hp
      (push_moves hbounded hquiet h (fun hF => (hread' hF).1) hfree (by omega))).mono ?_)
    rintro - _ ⟨⟨q, d'⟩, ⟨hsent, h', hdistance⟩, rfl⟩
    refine (hpublish (getElem?_set_self (lt_of_getElem? hp))).mono ?_
    rintro - _ rfl
    refine ⟨rfl, h', fun hF => (hread' hF).2, fun j hj => Ports.availableIn_of_readBytes hread hj, q.publishHead, hsent,
      set_set _, fun hF hword => ?_⟩
    rw [hstage]
    exact congrArg _ (hdistance hF hword).symm
  · refine (hpublish hp).mono ?_
    rintro - _ rfl
    refine ⟨rfl, h, hready, fun _ _ => rfl, _, hquiet.sent hbounded, rfl, fun _ _ => ?_⟩
    rw [hstage, not_not.1 h0]
    exact congrArg _ (Indices.distance_self _ _).symm

theorem bookOutput_moves {o : Nat} (ho : s.1.outputs[o]? = some p) (hp : p.Bounded) (hvacant : p.Vacant)
    (hring : T.rings p.data) (h : T.owes reads s.1.device) : Ends (bookOutput o) s
      (fun n s' => s'.1.inputs = s.1.inputs ∧ ∃ q, Produced n p q ∧ s'.1.outputs = s.1.outputs.set o q ∧
        ∃ reads', reads ⊆ reads' ∧ q.Landing reads' ∧ T.owes reads' s'.1.device)
      fun stop _ => T.refuses stop := by
  refine ends_bind ((ends_atOutput ho (bookHead_moves hp hvacant hring h)).mono ?_)
  rintro ⟨produced, free⟩ _ ⟨⟨q, d'⟩, ⟨hproduced, hreads⟩, rfl⟩
  dsimp only
  split_ifs
  · exact ends_bind (ends_modify (ends_pure ⟨rfl, q, hproduced, rfl, hreads⟩))
  · exact ends_pure ⟨rfl, q, hproduced, rfl, hreads⟩

end Single

/-! ## Whole actions -/

/-- an input after a launch: tokens were pushed, and the index has been asked for -/
def Fed (p q : BridgePort) : Prop := ∃ r, Sent p r ∧ Queried r q

/-- some output has handed a token on -/
def Released (ps qs : List BridgePort) : Prop :=
  ∃ (o : Nat) (p q : BridgePort), ps[o]? = some p ∧ qs[o]? = some q ∧ q.host.tail ≠ p.host.tail

structure Started (b b' : Bridge δ) : Prop where
  phase : b'.phase = b.phase
  kernel : ∃ event, b'.kernel = some event
  callIndex : b'.callIndex = b.callIndex + 1
  failed : b'.failed = b.failed
  profile : b'.profile = { b.profile with kernelCalls := b.callIndex + 1 }
  inputs : Portwise (fun _ => Fed) b.inputs b'.inputs
  outputs : Portwise (fun _ => Queried) b.outputs b'.outputs

structure Booked (b b' : Bridge δ) (consumed produced : List Nat) : Prop where
  phase : b'.phase = b.phase
  kernel : b'.kernel = none
  callIndex : b'.callIndex = b.callIndex
  failed : b'.failed = b.failed
  profile : b'.profile = b.profile.finish b'.inputs b'.outputs ⟨b.callIndex, consumed, produced⟩
  stalled : b'.stalled = CallRecord.isIdle ⟨b.callIndex, consumed, produced⟩
  inputs : Portwise (fun i p q => ∃ n, consumed[i]? = some n ∧ Consumed n p q) b.inputs b'.inputs
  outputs : Portwise (fun o p q => ∃ n, produced[o]? = some n ∧ Produced n p q) b.outputs b'.outputs
  inCount : consumed.length = b.inputs.length
  outCount : produced.length = b.outputs.length

/-- ports for all inputs and outputs of a bridge, with tokens of the same sizes -/
def Fits (b : Bridge δ) (open' : Ports) : Prop :=
  open'.Ready (b.inputs.map (·.spec.tokenSize)) (b.outputs.map (·.spec.tokenSize))

section Actions

variable {b : Bridge δ} {ports : Ports} {F G : Prop}

/-- after handing on, nothing is left to hand on; a bridge that has stalled stays so unless some output hands a token
on -/
theorem freeUpOutputs_moves (hout : ∀ p ∈ b.outputs, p.Bounded ∧ p.Quiet) (hfits : F → b.Fits ports) :
    Ends freeUpOutputs (b, ports) (fun _ s' => s'.1.inputs = b.inputs ∧ s'.1.device = b.device ∧
        Portwise (fun _ => HandedOn) b.outputs s'.1.outputs ∧
        (s'.1.stalled = b.stalled ∨ Released b.outputs s'.1.outputs) ∧
        (F → s'.1.canWriteToOutput s'.2 = .ok false))
      fun _ _ => ¬ F := by
  refine ends_theBridge ?_
  refine (ends_portwise_forM (R := fun _ => HandedOn) outputs inputs (fun k s => s.1.device = b.device ∧
    (s.1.stalled = b.stalled ∨ ∃ o p q, o < k ∧ b.outputs[o]? = some p ∧ s.1.outputs[o]? = some q ∧
      q.host.tail ≠ p.host.tail) ∧
    (F → b.Fits s.2 ∧ ∀ {o q}, o < k → s.1.outputs[o]? = some q → Drained s.2 o q))
    ⟨rfl, .inl rfl, fun hF => ⟨hfits hF, fun h => absurd h (Nat.not_lt_zero _)⟩⟩ fun {i p s} hp hi hI => ?_).mono ?_
  · obtain ⟨hdevice, hflag, hdrained⟩ := hI
    have hmem := hout p (mem_of_getElem? hp)
    refine (freeUp_moves hi hmem.1 hmem.2 (fun hF => (hdrained hF).1) (by rw [getElem?_map, hp]; rfl)).mono ?_
    rintro - s' ⟨hin, hdevice', hready, q, hhanded, hset, hflag', hself⟩
    have hother : ∀ {o r}, o < i → s.1.outputs[o]? = some r → s'.1.outputs[o]? = some r := fun ho hr => by
      rw [hset, getElem?_set_ne (Nat.ne_of_gt ho)]
      exact hr
    refine ⟨hin, ⟨hdevice'.trans hdevice, ?_, fun hF => ⟨(hready hF).1, fun {o r} ho hr => ?_⟩⟩, q, hhanded, hset⟩
    · rcases hflag' with hsame | hmoved
      · refine hflag.imp hsame.trans ?_
        rintro ⟨o, p, r, ho, hp', hr, hmoved⟩
        exact ⟨o, p, r, by omega, hp', hother ho hr, hmoved⟩
      · refine .inr ⟨i, p, q, Nat.lt_succ_self i, hp, ?_, hmoved⟩
        rw [hset, getElem?_set_self (lt_of_getElem? hi)]
    · rw [hset] at hr
      rcases getElem?_set_cases hr with ⟨rfl, rfl⟩ | ⟨hne, hr⟩
      · exact hself hF
      · obtain ⟨m, hpending, hnone⟩ := (hdrained hF).2 (by omega) hr
        exact ⟨m, hpending, hnone.imp_right ((hready hF).2 o hne).trans⟩
  · rintro - ⟨b', ports'⟩ ⟨hin, ⟨hdevice, hflag, hdrained⟩, hmoved⟩
    refine ⟨hin, hdevice, hmoved, hflag.imp_right fun ⟨o, p, q, _, hp, hq, hne⟩ => ⟨o, p, q, hp, hq, hne⟩, fun hF => ?_⟩
    refine anyIndexed_eq_false fun hp => ?_
    obtain ⟨m, hpending, hnone⟩ := (hdrained hF).2 (hmoved.length ▸ lt_of_getElem? hp) hp
    rw [Nat.zero_add, hpending, Checked.ok_bind]
    split_ifs with h0
    · rfl
    · rw [hnone.resolve_left h0, Checked.ok_bind]
      rfl

variable [Device δ] {T : Device.Terms δ} {reads : List (EventId × Nat)}

/-- all inputs stage what they can; where the open ports fit, that is all there is room for -/
theorem sendInputs_move (hin : ∀ p ∈ b.inputs, p.Bounded ∧ p.Quiet) (hfits : F → b.Fits ports)
    (h : T.owes reads b.device) : Ends ((range b.inputs.length).forM sendInput) (b, ports)
      (fun _ s' => s'.1.outputs = b.outputs ∧ T.owes reads s'.1.device ∧
        Portwise (fun i p q => Sent p q ∧ (F → p.spec.capacity < Word.size32 →
          stageable p ports i = .ok (Indices.distance p.host.head q.host.head p.spec.capacity))) b.inputs s'.1.inputs)
      fun stop _ => F → T.refuses stop := by
  refine (ends_portwise_forM inputs outputs (fun i s => T.owes reads s.1.device ∧
    (F → b.Fits s.2) ∧ ∀ j, i ≤ j → s.2.availableIn j = ports.availableIn j) ⟨h, hfits, fun _ _ => rfl⟩
    fun {i p s} hp hi hI => ?_).mono fun _ _ h => ⟨h.1, h.2.1.1, h.2.2⟩
  obtain ⟨howes, hready, hlevels⟩ := hI
  have hmem := hin p (mem_of_getElem? hp)
  refine (sendInput_moves hi hmem.1 hmem.2 hready (by rw [getElem?_map, hp]; rfl) howes).mono ?_
  rintro - s' ⟨hout, howes', hready', hothers, q, hsent, hset, hstaged⟩
  refine ⟨hout, ⟨howes', hready', fun j hj => (hothers j (by omega)).trans (hlevels j (by omega))⟩, q,
    ⟨hsent, fun hF hword => ?_⟩, hset⟩
  rw [← hstaged hF hword]
  simp only [stageable, hlevels i le_rfl]

theorem startKernel_moves (hin : ∀ p ∈ b.inputs, p.Bounded ∧ p.Quiet) (hout : ∀ p ∈ b.outputs, p.indexRead = none)
    (hfits : F → T.sure ∧ b.Fits ports) (h : T.owes reads b.device) :
    Ends startKernel (b, ports) (fun _ s' => Started b s'.1 ∧ T.owes reads s'.1.device ∧ ports.Kept s'.2)
      fun stop s' => (F → T.refuses stop) ∧ Underway (b, ports) s' := by
  refine ends_bind (ends_modify ?_)
  refine ends_theBridge ?_
  have hsend : Ends ((range b.inputs.length).forM sendInput) ({ b with shouldRetry := false }, ports) _ _ :=
    sendInputs_move (b := { b with shouldRetry := false }) hin (fun hF => (hfits hF).2) h
  refine ends_bind_underway ⟨rfl, rfl, rfl, rfl, rfl, .refl _⟩ hsend
    (follows_forM fun i _ => follows_sendInput i) ?_
  rintro - ⟨b1, ports1⟩ ⟨hout1, h1, hin1⟩ hunder1
  refine ends_theBridge ?_
  refine ends_bind_underway hunder1
    (ends_zoom ((T.submit (.launch ⟨b1.inputs.map kernelArgs, b1.outputs.map kernelArgs⟩) h1).imp
    (fun _ d h2 => ⟨rfl, rfl, h2⟩) fun _ _ hstop hF => hstop (.inr (hfits hF).1)))
    (R := fun _ s' => s'.1.inputs = b1.inputs ∧ s'.1.outputs = b1.outputs ∧ T.owes reads s'.1.device)
      (follows_submit _) ?_
  rintro kernel ⟨b2, ports2⟩ ⟨hin2, hout2, h2⟩ hunder2
  rw [← hin2, ← hout2]
  rw [← hin2] at hin1
  have hasks := ends_portwise_forM (f := fun i => onInput i requestIndex) (R := fun _ => Queried)
    (E := fun stop => F → T.refuses stop) inputs outputs
    (fun _ s => T.owes reads s.1.device) h2 fun hp hi h => by
      obtain ⟨_, -, hsent, -⟩ := hin1.before hp
      refine (ends_atInput hi ((requestIndex_moves hsent.index h).imp (fun _ _ h => h)
        fun _ _ hstop _ => hstop)).mono ?_
      rintro - _ ⟨⟨q, d⟩, ⟨hq, h'⟩, rfl⟩
      exact ⟨rfl, h', q, hq, rfl⟩
  refine ends_bind_underway hunder2 hasks (follows_forM fun i _ => follows_onInput i follows_requestIndex) ?_
  rintro - ⟨b3, ports3⟩ ⟨hout3, h3, hin3⟩ hunder3
  rw [← hout3]
  rw [hout2, hout1] at hout3
  have hasks' := ends_portwise_forM (f := fun o => onOutput o requestIndex) (R := fun _ => Queried)
    (E := fun stop => F → T.refuses stop) outputs inputs
    (fun _ s => T.owes reads s.1.device) h3 fun {o p s} hp ho h => by
      have hnone := hout p (hout3 ▸ mem_of_getElem? hp)
      refine (ends_atOutput ho ((requestIndex_moves hnone h).imp (fun _ _ h => h) fun _ _ hstop _ => hstop)).mono ?_
      rintro - _ ⟨⟨q, d⟩, ⟨hq, h'⟩, rfl⟩
      exact ⟨rfl, h', q, hq, rfl⟩
  refine ends_bind_underway hunder3 hasks' (follows_forM fun o _ => follows_onOutput o follows_requestIndex) ?_
  rintro - ⟨b4, ports4⟩ ⟨hin4, h4, hout4⟩ hunder4
  have hprofile : b4.profile = b.profile := hunder4.profile
  have hcall : b4.callIndex = b.callIndex := hunder4.callIndex
  refine ends_modify ⟨⟨hunder4.phase, ⟨kernel, rfl⟩, congrArg (· + 1) hcall, hunder4.failed, ?_, ?_, ?_⟩, h4,
    hunder4.kept⟩
  · simp only [hprofile, hcall]
  · rw [hin4]
    exact (hin1.mono fun _ h => h.1).trans hin3
  · rw [← hout3]
    exact hout4

/-- the booking of a finished launch; the read-backs that it starts have room where they land -/
theorem updateIndices_moves (hin : ∀ p ∈ b.inputs, p.Bounded ∧ p.NoReads) (hout : ∀ p ∈ b.outputs, p.Bounded ∧ p.Vacant)
    (hrings : ∀ p ∈ b.outputs, T.rings p.data) (h : T.owes reads b.device) :
    Ends updateIndices (b, ports) (fun _ s' => (∃ consumed produced, Booked b s'.1 consumed produced) ∧
      ports.Kept s'.2 ∧
        ∃ reads', T.owes reads' s'.1.device ∧ ∀ q ∈ s'.1.outputs, q.Landing reads')
      fun stop s' => T.refuses stop ∧ Underway (b, ports) s' := by
  refine ends_theBridge ?_
  have hins := ends_portwise (f := bookInput) (R := fun _ => Consumed) (w := ports)
    inputs outputs (fun _ s => T.owes reads s.1.device) h fun {i p s} hp hi h => by
      have hmem := hin p (mem_of_getElem? hp)
      refine (ends_atInput hi (bookTail_moves hmem.1 hmem.2 h)).mono ?_
      rintro n _ ⟨⟨q, d⟩, ⟨hq, h'⟩, rfl⟩
      exact ⟨rfl, h', q, hq, rfl⟩
  refine ends_bind_underway ⟨rfl, rfl, rfl, rfl, rfl, .refl _⟩ hins
    (follows_mapM fun i _ => follows_bookInput i) ?_
  rintro consumed ⟨b1, ports1⟩ ⟨hout1, h1, hcount1, hin1⟩ hunder1
  rw [← hout1] at hout hrings ⊢
  have houts := ends_portwise (f := bookOutput) (R := fun _ => Produced)
    outputs inputs (fun k s => ∃ reads, T.owes reads s.1.device ∧
      ∀ {o q}, o < k → s.1.outputs[o]? = some q → q.Landing reads) ⟨reads, h1, fun h => absurd h (Nat.not_lt_zero _)⟩
    fun {o p s} hp ho hI => by
      obtain ⟨reads1, h, hlanding⟩ := hI
      have hmem := mem_of_getElem? hp
      refine (bookOutput_moves ho (hout p hmem).1 (hout p hmem).2 (hrings p hmem) h).mono ?_
      rintro n s' ⟨hin', q, hq, hset, reads2, hsub, hlanding', h'⟩
      refine ⟨hin', ⟨reads2, h', fun hk hr => ?_⟩, q, hq, hset⟩
      rw [hset] at hr
      rcases getElem?_set_cases hr with ⟨rfl, rfl⟩ | ⟨hne, hr⟩
      · exact hlanding'
      · exact fun slot => (hlanding (by omega) hr slot).congr rfl rfl rfl hsub
  refine ends_bind_underway hunder1 houts (follows_mapM fun o _ => follows_bookOutput o) ?_
  rintro produced ⟨b2, ports2⟩ ⟨hin2, ⟨reads', h2, hlanding⟩, hcount2, hout2⟩ hunder2
  have hlands : ∀ q ∈ b2.outputs, q.Landing reads' := fun q hq => by
    obtain ⟨o, ho⟩ := getElem?_of_mem hq
    exact hlanding (hout2.length ▸ lt_of_getElem? ho) ho
  rw [hout1] at hcount2 hout2
  rw [← hin2] at hin1
  have hprofile : b2.profile = b.profile := hunder2.profile
  refine ends_modify ⟨⟨consumed, produced, hunder2.phase, rfl, hunder2.callIndex, hunder2.failed, ?_, rfl, hin1, hout2,
    hcount1, hcount2⟩, hunder2.kept, reads', h2, hlands⟩
  simp only [hprofile]

theorem collect_moves (hout : ∀ p ∈ b.outputs, p.Bounded ∧ p.indexRead = none)
    (hfits : F → b.Fits ports) (hlands : G → T.sure ∧ ∀ p ∈ b.outputs, p.Landing reads) (h : T.owes reads b.device) :
    Ends collect (b, ports) (fun _ s' => s'.1.inputs = b.inputs ∧ T.owes reads s'.1.device ∧
        Portwise (fun _ => HandedOn) b.outputs s'.1.outputs ∧
        (s'.1.stalled = b.stalled ∨ Released b.outputs s'.1.outputs) ∧
        (F → s'.1.canWriteToOutput s'.2 = .ok false))
      fun stop _ => F → G → T.refuses stop := by
  refine ends_theBridge ?_
  have hland := ends_portwise_forM (f := fun o => onOutput o retireTransfers)
    (R := fun _ p q => Moved p q p.host p.device 0 ∧ q.Quiet) outputs inputs
    (fun _ s => T.owes reads s.1.device ∧ s.1.stalled = b.stalled ∧ s.2 = ports) ⟨h, rfl, rfl⟩
      fun {o p s} hp ho hI => by
      have hmem := mem_of_getElem? hp
      refine (ends_atOutput ho (retireTransfers_moves (hout p hmem).1
        (fun hG => ⟨(hlands hG).1, (hlands hG).2 p hmem⟩) hI.1)).mono ?_
      rintro - _ ⟨⟨q, d⟩, ⟨hmoved, hvacant, hindex, h'⟩, rfl⟩
      exact ⟨rfl, ⟨h', hI.2⟩, q, ⟨hmoved, hvacant .first, hvacant .second, hindex.trans (hout p hmem).2⟩, rfl⟩
  refine ends_bind (hland.imp ?_ fun _ _ hstop _ => hstop)
  rintro - ⟨b1, ports1⟩ ⟨hin1, ⟨h1, hflag1, hports1⟩, hout1⟩
  dsimp only at hin1 h1 hflag1 hports1 hout1
  have hquiet : ∀ q ∈ b1.outputs, q.Bounded ∧ q.Quiet := hout1.forall_mem hout fun hp hpq =>
    ⟨hp.1.congr hpq.1.spec hpq.1.size hpq.1.host hpq.1.device, hpq.2⟩
  have hfits1 : F → b1.Fits ports1 := by
    intro hF
    rw [Fits, hin1, hports1, hout1.map_eq fun hpq => by rw [hpq.1.spec]]
    exact hfits hF
  refine (freeUpOutputs_moves hquiet hfits1).imp ?_ fun _ _ hstop hF _ => absurd hF hstop
  rintro - ⟨b2, ports2⟩ ⟨hin2, hdevice2, hout2, hflag2, hdrained⟩
  refine ⟨hin2.trans hin1, by rw [hdevice2]; exact h1, (hout1.trans hout2).mono fun _ hmoved => ?_, ?_, hdrained⟩
  · obtain ⟨r, ⟨hlanded, -⟩, htail, hhanded, hquiet⟩ := hmoved
    rw [hlanded.spec] at htail
    rw [hlanded.host, hlanded.device] at hhanded
    exact ⟨htail, hlanded.trans hhanded, hquiet⟩
  · -- landing does not move a tail, so the output that did let the token go
    refine hflag2.imp (fun hsame => hsame.trans hflag1) ?_
    rintro ⟨o, q, r, hq, hr, hmoved⟩
    obtain ⟨p, hp, hlanded, -⟩ := hout1.before hq
    exact ⟨o, p, r, hp, hr, by rwa [hlanded.host] at hmoved⟩

end Actions

/-! ## Steps -/

def InputRegular : LinkPhase → BridgePort → Prop
  | .init | .pollRead => Quiet
  | .pollKernel => fun p => p.NoReads ∧ p.indexRead.isSome = true

def OutputRegular : LinkPhase → BridgePort → Prop
  | .init => Quiet
  | .pollKernel => fun p => p.Vacant ∧ p.indexRead.isSome = true
  | .pollRead => (·.indexRead = none)

/-- every port has its indices in its ring and is in the condition of the phase, and a launch is in flight in
`pollKernel` only -/
structure Regular (b : Bridge δ) : Prop where
  inputs : ∀ p ∈ b.inputs, p.Bounded ∧ InputRegular b.phase p
  outputs : ∀ p ∈ b.outputs, p.Bounded ∧ OutputRegular b.phase p
  kernel : b.kernel.isSome = true ↔ b.phase = .pollKernel

structure HandsOn (b b' : Bridge δ) : Prop where
  phase : b'.phase = b.phase
  kernel : b'.kernel = b.kernel
  callIndex : b'.callIndex = b.callIndex
  failed : b'.failed = b.failed
  profile : b'.profile = b.profile
  inputs : b'.inputs = b.inputs
  outputs : Portwise (fun _ => HandedOn) b.outputs b'.outputs
  stalled : b'.stalled = b.stalled ∨ Released b.outputs b'.outputs

/-- all that one step can do -/
inductive StepsTo (b : Bridge δ) : Option BridgeAction → Bridge δ → Prop
  | waits (d : δ) : StepsTo b none { b with device := d }
  | handsOn {b' : Bridge δ} (hphase : b.phase = .init) (h : b.HandsOn b') : StepsTo b (some .freeUp) b'
  | starts {b' : Bridge δ} (hphase : b.phase = .init) (h : b.Started b') :
      StepsTo b (some .startKernel) { b' with phase := .pollKernel, profile := b'.profile.enter .init .pollKernel }
  | books {b' : Bridge δ} {consumed produced : List Nat} (hphase : b.phase = .pollKernel)
      (h : b.Booked b' consumed produced) :
      StepsTo b (some .updateIndices) { b' with phase := .pollRead, profile := b'.profile.enter .pollKernel .pollRead }
  | collects {b' : Bridge δ} (hphase : b.phase = .pollRead) (h : b.HandsOn b') :
      StepsTo b (some .collect) { b' with phase := .init, profile := b'.profile.enter .pollRead .init }

/-- all that a step that answers does to a bridge and its open ports -/
structure Advanced (s : Bridge δ × Ports) (action : Option BridgeAction) (s' : Bridge δ × Ports) : Prop where
  stepped : s.1.StepsTo action s'.1
  kept : s.2.Kept s'.2
  asked : action = some .freeUp → s.1.canWriteToOutput s.2 = .ok true
  drained : s.1.Fits s.2 → action = some .freeUp ∨ action = some .collect → s'.1.canWriteToOutput s'.2 = .ok false

/-- a step that finds nothing to do for its ports leaves all as it is -/
def StandsStill (mayLaunch : Bool) (s : Bridge δ × Ports) (action : Option BridgeAction)
    (s' : Bridge δ × Ports) : Prop :=
  action = none → s'.1.phase = .init →
    s' = s ∧ s.1.canWriteToOutput s.2 = .ok false ∧ (mayLaunch = true → s.1.shouldStart s.2 = .ok false)

/-- the read-backs that a bridge polls have room where they land -/
def Awaits (b : Bridge δ) (reads : List (EventId × Nat)) : Prop :=
  b.phase = .pollRead → ∀ p ∈ b.outputs, p.Landing reads

section Steps

variable {b b' : Bridge δ} {ports ports' : Ports} {action : Option BridgeAction} {d : δ} {s' : Bridge δ × Ports}

theorem HandsOn.of_underway (h : Underway (b, ports) (b', ports')) (hin : b'.inputs = b.inputs)
    (hout : Portwise (fun _ => HandedOn) b.outputs b'.outputs)
    (hflag : b'.stalled = b.stalled ∨ Released b.outputs b'.outputs) : b.HandsOn b' :=
  ⟨h.phase, h.kernel, h.callIndex, h.failed, h.profile, hin, hout, hflag⟩

/-- what the device did before does not matter -/
theorem StepsTo.onDevice (h : StepsTo { b with device := d } action b') : b.StepsTo action b' := by
  cases h with
  | waits d' => exact .waits d'
  | handsOn hphase h =>
    exact .handsOn hphase ⟨h.phase, h.kernel, h.callIndex, h.failed, h.profile, h.inputs, h.outputs, h.stalled⟩
  | starts hphase h => exact .starts hphase ⟨h.phase, h.kernel, h.callIndex, h.failed, h.profile, h.inputs, h.outputs⟩
  | books hphase h =>
    exact .books hphase
      ⟨h.phase, h.kernel, h.callIndex, h.failed, h.profile, h.stalled, h.inputs, h.outputs, h.inCount, h.outCount⟩
  | collects hphase h =>
    exact .collects hphase ⟨h.phase, h.kernel, h.callIndex, h.failed, h.profile, h.inputs, h.outputs, h.stalled⟩

theorem Advanced.waits (d : δ) : Advanced (b, ports) none ({ b with device := d }, ports) :=
  ⟨.waits d, .refl _, by simp, by simp⟩

theorem Underway.onDevice (h : Underway ({ b with device := d }, ports) s') : Underway (b, ports) s' :=
  ⟨h.phase, h.kernel, h.callIndex, h.failed, h.profile, h.kept⟩

theorem Regular.onDevice (h : b.Regular) (d : δ) : Regular { b with device := d } := ⟨h.inputs, h.outputs, h.kernel⟩

theorem HandsOn.bounded (h : b.HandsOn b') (hout : ∀ p ∈ b.outputs, p.Bounded) :
    ∀ q ∈ b'.outputs, q.Bounded ∧ q.Quiet :=
  h.outputs.forall_mem hout fun hp ⟨htail, hmoved, hquiet⟩ =>
    ⟨hmoved.bounded hp ⟨hp.hostHead, htail⟩ ⟨hp.deviceHead, htail⟩, hquiet⟩

section

variable (h : b.StepsTo action b')

include h

/-- every step leaves the ports in the condition of the phase that it enters -/
theorem StepsTo.regular (hb : b.Regular) : b'.Regular := by
  obtain ⟨hin, hout, hkernel⟩ := hb
  cases h with
  | waits d => exact ⟨hin, hout, hkernel⟩
  | handsOn hphase h =>
    refine ⟨?_, ?_, by rw [h.kernel, h.phase]; exact hkernel⟩
    · rw [h.inputs, h.phase]
      exact hin
    · rw [h.phase, hphase]
      exact h.bounded fun p hp => (hout p hp).1
  | starts hphase h =>
    rw [hphase] at hin hout
    refine ⟨h.inputs.forall_mem hin ?_, h.outputs.forall_mem hout ?_, ?_⟩
    · rintro _ p q ⟨hp, hquiet⟩ ⟨r, hsent, event, rfl⟩
      have hr : r.Bounded := hsent.moved.bounded hp ⟨hsent.head, hp.hostTail⟩ ⟨hsent.head, hp.deviceTail⟩
      refine ⟨hr.congr rfl rfl rfl rfl, fun slot => ?_, rfl⟩
      cases slot
      · exact hsent.pushes .first
      · exact hsent.pushes .second
    · rintro _ p q ⟨hp, hquiet⟩ ⟨event, rfl⟩
      refine ⟨hp.congr rfl rfl rfl rfl, fun slot => ?_, rfl⟩
      rw [← (Quiet.vacant hquiet) slot]
      cases slot <;> rfl
    · obtain ⟨event, hevent⟩ := h.kernel
      simp [hevent]
  | books hphase h =>
    refine ⟨h.inputs.forall_mem hin ?_, h.outputs.forall_mem hout ?_, by simp [h.kernel]⟩
    · rintro _ p q ⟨hp, -⟩ ⟨n, -, htail, -, hmoved, hquiet⟩
      exact ⟨hmoved.bounded hp ⟨hp.hostHead, htail⟩ ⟨hp.hostHead, htail⟩, hquiet⟩
    · rintro _ p q ⟨hp, -⟩ ⟨n, -, hhead, -, hmoved, hindex⟩
      exact ⟨hmoved.bounded hp ⟨hhead, hp.hostTail⟩ ⟨hhead, hp.deviceTail⟩, hindex⟩
  | collects hphase h =>
    have hnone : b.kernel = none := by
      rw [hphase] at hkernel
      simpa using hkernel
    refine ⟨?_, h.bounded fun p hp => (hout p hp).1, by simp [h.kernel, hnone]⟩
    rw [hphase] at hin
    rw [h.inputs]
    exact hin

/-- no step changes the shape of a port or its ring -/
theorem StepsTo.map_eq {f : BridgePort → κ} (hf : ∀ {p q}, q.spec = p.spec → q.data = p.data → f q = f p) :
    b'.inputs.map f = b.inputs.map f ∧ b'.outputs.map f = b.outputs.map f := by
  cases h with
  | waits d => exact ⟨rfl, rfl⟩
  | handsOn hphase h => exact ⟨by rw [h.inputs], h.outputs.map_eq fun hpq => hf hpq.2.1.spec hpq.2.1.data⟩
  | starts hphase h =>
    refine ⟨h.inputs.map_eq ?_, h.outputs.map_eq ?_⟩
    · rintro _ p q ⟨r, hsent, event, rfl⟩
      exact hf hsent.moved.spec hsent.moved.data
    · rintro _ p q ⟨event, rfl⟩
      exact hf rfl rfl
  | books hphase h =>
    refine ⟨h.inputs.map_eq ?_, h.outputs.map_eq ?_⟩
    · rintro _ p q ⟨n, -, -, -, hmoved, -⟩
      exact hf hmoved.spec hmoved.data
    · rintro _ p q ⟨n, -, -, -, hmoved, -⟩
      exact hf hmoved.spec hmoved.data
  | collects hphase h => exact ⟨by rw [h.inputs], h.outputs.map_eq fun hpq => hf hpq.2.1.spec hpq.2.1.data⟩

theorem StepsTo.specs :
    b'.inputs.map (·.spec) = b.inputs.map (·.spec) ∧ b'.outputs.map (·.spec) = b.outputs.map (·.spec) :=
  h.map_eq fun hspec _ => hspec

end

theorem Advanced.fits {s : Bridge δ × Ports} (h : Advanced s action s') (hfits : s.1.Fits s.2) : s'.1.Fits s'.2 := by
  obtain ⟨hin, hout⟩ := h.stepped.map_eq (f := fun p => p.spec.tokenSize) fun hspec _ => by rw [hspec]
  rw [Fits, hin, hout]
  exact h.kept.ready hfits

/-- where the open ports fit, a bridge knows all levels that it asks for -/
theorem Regular.levelled (h : b.Regular) (hfits : b.Fits ports) : b.Levelled ports := by
  refine ⟨fun {j p} hp => ?_, fun {o p} hp => ?_⟩
  · obtain ⟨n, -, hpending, hfree⟩ := (h.inputs p (mem_of_getElem? hp)).1.host_levels
    obtain ⟨level, hlevel⟩ := hfits.availableIn (by rw [getElem?_map, hp]; rfl)
    have hstage : stageable p ports j = .ok (min level (p.spec.capacity - 1 - n)) := by
      simp [stageable, hlevel, hfree]
    exact ⟨⟨n, hpending⟩, _, hstage⟩
  · have hbounded := (h.outputs p (mem_of_getElem? hp)).1
    obtain ⟨n, -, hpending, -⟩ := hbounded.host_levels
    exact ⟨⟨n, hpending⟩, hbounded.deviceFree, hfits.availableOut (by rw [getElem?_map, hp]; rfl)⟩

variable [Device δ] {T : Device.Terms δ} {reads : List (EventId × Nat)}

/-- a port with no command in flight has none that failed -/
theorem hasFailure_quiet {p : BridgePort} (hp : p.Quiet) :
    Yields hasFailure (p, d) fun failed s' => failed = false ∧ s' = (p, d) := by
  refine ends_thePort ?_
  have hnone : p.transferEvents ++ p.indexRead.toList = [] := by simp [transferEvents, hp.first, hp.second, hp.index]
  simp only [hnone]
  exact ends_pure ⟨rfl, rfl⟩

theorem guardPorts_quiet {on : Nat → BridgePort.Op δ Bool → Op δ Bool} {side : List BridgePort} {s : Bridge δ × Ports}
    (h : ∀ {i p}, side[i]? = some p →
      Yields (on i hasFailure) s fun failed s' => failed = false ∧ s' = s) :
    Yields (guardPorts on (side.map (·.spec.name))) s fun _ s' => s' = s := by
  refine (ends_mapM (· = s) rfl fun named hnamed s1 hs1 => ?_).forM
  subst hs1
  have hlt : named.2 < side.length := by simpa using snd_lt_of_mem_zipIdx hnamed
  refine ends_bind ((h (getElem?_eq_getElem hlt)).mono ?_)
  rintro - s2 ⟨rfl, rfl⟩
  exact ends_pure rfl

/-- with no command in flight there is nothing to look at -/
theorem Regular.guardFailures_quiet (h : b.Regular) (hphase : b.phase = .init) :
    Yields guardFailures (b, ports) fun _ s' => s' = (b, ports) := by
  obtain ⟨hin, hout, hkernel⟩ := h
  have hnone : b.kernel = none := by simpa [hphase] using hkernel
  rw [hphase] at hin hout
  have hins : Yields (guardPorts onInput (b.inputs.map (·.spec.name))) (b, ports) fun _ s' => s' = (b, ports) := by
    refine guardPorts_quiet fun {i p} hp => ends_onInput hp ((hasFailure_quiet (hin p (mem_of_getElem? hp)).2).mono ?_)
    rintro failed _ ⟨rfl, rfl⟩
    exact ⟨rfl, by rw [set_of_getElem? hp]⟩
  have houts : Yields (guardPorts onOutput (b.outputs.map (·.spec.name))) (b, ports) fun _ s' => s' = (b, ports) := by
    refine guardPorts_quiet fun {o p} hp => ends_onOutput hp
      ((hasFailure_quiet (hout p (mem_of_getElem? hp)).2).mono ?_)
    rintro failed _ ⟨rfl, rfl⟩
    exact ⟨rfl, by rw [set_of_getElem? hp]⟩
  refine ends_theBridge ?_
  simp only [hnone]
  refine ends_bind (hins.mono ?_)
  rintro - _ rfl
  exact houts

/-- looking at commands in flight leaves everything but the device -/
theorem guardFailures_moves (h : T.owes reads b.device) : Ends guardFailures (b, ports)
    (fun _ s' => ∃ d, s' = ({ b with device := d }, ports) ∧ T.owes reads d) fun stop s' => T.refuses stop ∧
    Underway (b, ports) s' := by
  refine (guards_guardFailures (W := T.watch reads) h).imp ?_ ?_
  · rintro - _ ⟨⟨d, rfl, hl⟩, -⟩
    exact ⟨d, rfl, hl.holds⟩
  · rintro _ _ ⟨⟨e, rfl⟩, ⟨d, rfl, -⟩, -⟩
    exact ⟨T.error e, rfl, rfl, rfl, rfl, rfl, .refl _⟩

omit [Device δ] in
/-- the ports while a launch is in flight -/
theorem Regular.launched (h : b.Regular) (hphase : b.phase = .pollKernel) :
    (∀ p ∈ b.inputs, p.Bounded ∧ p.NoReads) ∧ ∀ p ∈ b.outputs, p.Bounded ∧ p.Vacant := by
  obtain ⟨hin, hout, -⟩ := h
  simp only [hphase, InputRegular, OutputRegular] at hin hout
  exact ⟨fun p hp => ⟨(hin p hp).1, (hin p hp).2.1⟩, fun p hp => ⟨(hout p hp).1, (hout p hp).2.1⟩⟩

/-- how a step under these terms ends: in an action or in none, or it stops; and if the terms can be relied on and the
open ports fit, it stops only for a reason that the terms name -/
def StepEnds (T : Device.Terms δ) (reads : List (EventId × Nat)) (mayLaunch : Bool) (b : Bridge δ)
    (ports : Ports) : Prop :=
  Ends (step mayLaunch) (b, ports)
    (fun action s' => (Advanced (b, ports) action s' ∧ (action = some .startKernel → mayLaunch = true) ∧
      StandsStill mayLaunch (b, ports) action s') ∧ ∃ reads', T.owes reads' s'.1.device ∧
      (b.Awaits reads → s'.1.Awaits reads'))
    fun stop s' => (b.Fits ports → T.sure ∧ b.Awaits reads → T.refuses stop) ∧ Underway (b, ports) s'

section

variable {mayLaunch : Bool} (h : b.Regular) (howes : T.owes reads b.device)

include h howes

theorem stepEnds_init (hphase : b.phase = .init) : StepEnds T reads mayLaunch b ports := by
  have hin : ∀ p ∈ b.inputs, p.Bounded ∧ p.Quiet := by simpa only [hphase, InputRegular] using h.inputs
  have hout : ∀ p ∈ b.outputs, p.Bounded ∧ p.Quiet := by simpa only [hphase, OutputRegular] using h.outputs
  refine ends_bind ((h.guardFailures_quiet hphase).ends.mono ?_)
  rintro - _ rfl
  refine ends_bind (ends_get ?_)
  dsimp only
  rw [hphase]
  refine ends_bind (ends_checked (fun canWrite hcan => ?_) fun _ hf => ⟨fun hfits _ => ?_, refl_of Underway _⟩)
  swap
  · obtain ⟨_, hcan⟩ := canWriteToOutput_ok (h.levelled hfits)
    cases hcan.symm.trans hf
  cases canWrite with
  | true =>
    refine ends_bind (((freeUpOutputs_moves hout id).and (follows_freeUpOutputs (T := underway) (b, ports))).imp ?_
      fun _ _ hstop => ⟨fun hfits _ => absurd hfits hstop.1, hstop.2⟩)
    rintro - ⟨b2, ports2⟩ ⟨⟨hin2, hdevice2, hout2, hflag, hdrained⟩, hunder2⟩
    refine ends_pure ⟨⟨⟨.handsOn hphase (.of_underway hunder2 hin2 hout2 hflag), hunder2.kept, fun _ => hcan,
      fun hfits _ => hdrained hfits⟩, by simp, by simp [StandsStill]⟩, reads,
      by rw [hdevice2]; exact howes, fun _ hread => ?_⟩
    cases (hunder2.phase.trans hphase).symm.trans hread
  | false =>
    have hstays : b.Awaits reads := fun hread => by cases hphase.symm.trans hread
    cases mayLaunch with
    | false =>
      exact ends_pure ⟨⟨.waits b.device, by simp, fun _ _ => ⟨rfl, hcan, by simp⟩⟩, reads, howes, fun _ => hstays⟩
    | true =>
      refine ends_bind (ends_checked (fun start hstart => ?_) fun _ hf => ⟨fun hfits _ => ?_, refl_of Underway _⟩)
      swap
      · obtain ⟨_, hstart⟩ := shouldStart_ok (h.levelled hfits)
        cases hstart.symm.trans hf
      cases start with
      | false =>
        exact ends_pure ⟨⟨.waits b.device, by simp, fun _ _ => ⟨rfl, hcan, fun _ => hstart⟩⟩, reads,
          howes, fun _ => hstays⟩
      | true =>
        refine ends_bind ((startKernel_moves hin (fun p hp => (hout p hp).2.index) And.symm howes).imp ?_
          fun _ _ hstop => ⟨fun hfits hsure => hstop.1 ⟨hfits, hsure.1⟩, hstop.2⟩)
        rintro - ⟨b2, ports2⟩ ⟨hstarted, howes2, hkept⟩
        refine ends_bind
          (ends_modify (ends_pure ⟨⟨⟨?_, hkept, by simp, by simp⟩, fun _ => rfl, by simp [StandsStill]⟩, reads, howes2,
          fun _ => by simp [Awaits]⟩))
        exact .starts hphase hstarted

theorem stepEnds_pollKernel (hrings : ∀ p ∈ b.outputs, T.rings p.data) (hphase : b.phase = .pollKernel) :
    StepEnds T reads mayLaunch b ports := by
  obtain ⟨hin, hout⟩ := h.launched hphase
  refine ends_bind ((guardFailures_moves howes).imp ?_ fun _ _ hstop => ⟨fun _ _ => hstop.1, hstop.2⟩)
  rintro - s1 ⟨d1, hs1, howes1⟩
  have hphase1 : s1.1.phase = .pollKernel := by rw [hs1]; exact hphase
  refine ends_bind (ends_get ?_)
  dsimp only
  rw [hphase1]
  subst hs1
  refine ends_bind ((looks_kernelFinished (W := T.watch reads) howes1).ends.mono ?_)
  rintro finished _ ⟨d2, rfl, hl, -⟩
  cases finished with
  | false =>
    exact ends_pure ⟨⟨.waits d2, by simp, fun _ hinit => by cases hphase.symm.trans hinit⟩, reads, hl.holds, fun h => h⟩
  | true =>
    refine ends_bind ((updateIndices_moves (b := { b with device := d2 }) hin hout hrings hl.holds).imp ?_
      fun _ _ hstop => ⟨fun _ _ => hstop.1, hstop.2.onDevice⟩)
    rintro - ⟨b3, ports3⟩ ⟨⟨consumed, produced, hbooked⟩, hkept, reads', howes3, hlanding⟩
    refine ends_bind
      (ends_modify (ends_pure ⟨⟨⟨?_, hkept, by simp, by simp⟩, by simp, by simp [StandsStill]⟩, reads', howes3,
      fun _ _ => hlanding⟩))
    exact StepsTo.onDevice (d := d2) (.books hphase hbooked)

theorem stepEnds_pollRead (hphase : b.phase = .pollRead) : StepEnds T reads mayLaunch b ports := by
  have hout : ∀ p ∈ b.outputs, p.Bounded ∧ p.indexRead = none := by simpa only [hphase, OutputRegular] using h.outputs
  refine ends_bind ((guardFailures_moves howes).imp ?_ fun _ _ hstop => ⟨fun _ _ => hstop.1, hstop.2⟩)
  rintro - s1 ⟨d1, hs1, howes1⟩
  have hphase1 : s1.1.phase = .pollRead := by rw [hs1]; exact hphase
  refine ends_bind (ends_get ?_)
  dsimp only
  rw [hphase1]
  subst hs1
  refine ends_bind ((looks_readsFinished (W := T.watch reads) howes1).ends.mono ?_)
  rintro finished _ ⟨d2, rfl, hl, -⟩
  cases finished with
  | false =>
    exact ends_pure ⟨⟨.waits d2, by simp, fun _ hinit => by cases hphase.symm.trans hinit⟩, reads, hl.holds, fun h => h⟩
  | true =>
    refine ends_bind (((collect_moves (b := { b with device := d2 }) hout id
      (fun hG => ⟨hG.1, hG.2 hphase⟩) hl.holds).and
      (follows_collect (T := underway) ({ b with device := d2 }, ports))).imp ?_
      fun _ _ hstop => ⟨hstop.1, hstop.2.onDevice⟩)
    rintro - ⟨b3, ports3⟩ ⟨⟨hin3, howes3, hout3, hflag, hdrained⟩, hunder3⟩
    refine ends_bind (ends_modify
        (ends_pure ⟨⟨⟨?_, hunder3.kept, by simp, fun hfits _ => hdrained hfits⟩, by simp, by simp [StandsStill]⟩,
      reads, howes3, fun _ => by simp [Awaits]⟩))
    have hphase3 : b3.phase = .pollRead := hunder3.phase.trans hphase
    dsimp only
    rw [hphase3]
    exact StepsTo.onDevice (d := d2) (.collects hphase (.of_underway hunder3 hin3 hout3 hflag))

end

/-- a bridge in the condition of its phase makes no other steps -/
theorem step_ends (mayLaunch : Bool) (h : b.Regular) (howes : T.owes reads b.device)
    (hrings : ∀ p ∈ b.outputs, T.rings p.data) : StepEnds T reads mayLaunch b ports := by
  cases hphase : b.phase with
  | init => exact stepEnds_init h howes hphase
  | pollKernel => exact stepEnds_pollKernel h howes hrings hphase
  | pollRead => exact stepEnds_pollRead h howes hphase

theorem step_moves (mayLaunch : Bool) (h : b.Regular) : Ends (step mayLaunch) (b, ports)
    (fun action s' => Advanced (b, ports) action s' ∧ (action = some .startKernel → mayLaunch = true) ∧
      StandsStill mayLaunch (b, ports) action s')
    fun _ s' => Underway (b, ports) s' :=
  (step_ends mayLaunch h (Device.Terms.loose_owes _) fun _ _ => trivial).imp (fun _ _ hs => hs.1) fun _ _ hs => hs.2

end Steps

/-! ## Creation -/

/-- a bridge that has just been created with ports of these shapes -/
structure Fresh (ins outs : List LinkPort) (b : Bridge δ) : Prop where
  inSpecs : b.inputs.map (·.spec) = ins
  outSpecs : b.outputs.map (·.spec) = outs
  regular : b.Regular
  phase : b.phase = .init
  failed : b.failed = false
  callIndex : b.callIndex = 0
  profile : b.profile = { name := b.name, visits := { init := 1 }, ports := LinkProfile.freshPorts b.inputs b.outputs }
  unmoved : ∀ p ∈ b.inputs ++ b.outputs, p.bytesMoved = 0

theorem Fresh.of_create [Device δ] {name : String} {d : δ} {inputs outputs : List LinkPort} {b : Bridge δ}
    (h : create name d inputs outputs = .ok b) : b.Fresh inputs outputs := by
  obtain ⟨-, -, -, hb⟩ := exec_create h
  obtain ⟨rfl, rfl, hin, hout, -⟩ := new_of_create (fun _ _ => trivial) trivial h
  have hnew : ∀ p ∈ b.inputs ++ b.outputs, p.Bounded ∧ p.Quiet ∧ p.bytesMoved = 0 := by
    intro p hp
    have hnew := (mem_append.1 hp).elim (hin p) (hout p)
    exact ⟨hnew.bounded, hnew.quiet, hnew.unmoved⟩
  rw [hb]
  refine ⟨rfl, rfl, ⟨fun p hp => ?_, fun p hp => ?_, by simp⟩, rfl, rfl, rfl, rfl, fun p hp => (hnew p hp).2.2⟩
  · exact ⟨(hnew p (mem_append_left _ hp)).1, (hnew p (mem_append_left _ hp)).2.1⟩
  · exact ⟨(hnew p (mem_append_right _ hp)).1, (hnew p (mem_append_right _ hp)).2.1⟩

end Bridge

end Dataflow
