import Dataflow.Proofs.BridgeHistory
import Dataflow.Proofs.BridgeService
import Dataflow.Proofs.DeviceEvents

/-!
A bridge contains the failures of its device.

Model: every state that a bridge can get into from its creation on (`Bridge.Reachable`). Once a command in flight has
failed, the bridge is `Bridge.Lost`; with an index that has arrived and is missing, short or outside its ring it is
`Bridge.Misled`.

- `bridge_contains_device_failures` (`Bridge.Contained`): a lost bridge terminates in the next call that has a step to
  take, and no call consumes or produces a token or submits a command. A call in which a command is refused terminates.
  A misled bridge moves no token, and terminates once no other command in flight is pending; until then its calls yield
  and do nothing. A read-back that has not succeeded is never handed on. After a call has terminated, all later calls
  terminate and do nothing.
- Witness `bridge_contains_lost_write_and_short_index`.
- Counterexample `short_index_waits_for_the_other`: a short index does not end a call while another index is pending.

Premises: the events of the device change only on submission or between steps (`Device.Events`), and it keeps a journal.
What happens if they change between two looks of one step is in `FailureWindow`.
-/

namespace Dataflow

open List Step Step.Way

/-- such a device refuses transfers with ordinary errors -/
def Device.Events.terms {δ : Type} [Device δ] (E : Device.Events δ) : Device.Terms δ :=
  { Device.Terms.loose δ with
    refuses := fun stop => ∃ e, stop = .error e
    error := Device.Terms.exists_error
    submit := fun command _ => (E.submit command _).imp (fun _ _ _ => trivial) fun _ _ hstop hcommand =>
    hstop (hcommand.resolve_right id)
    read := fun _ _ _ _ => (E.submit _ _).imp (fun _ _ _ => trivial) fun _ _ hstop => hstop rfl }

/-! ## An index that cannot be used -/

namespace BridgePort

variable {δ : Type} [Device δ] {E : Device.Events δ} {p : BridgePort} {d d' : δ}

/-- the index has arrived, and is missing, short or outside the ring -/
def Misled (E : Device.Events δ) (d : δ) (p : BridgePort) : Prop :=
  ∃ e, p.indexRead = some e ∧ E.status d e = .done ∧ ∀ bytes, E.value d e = some bytes →
    bytes.length < indexBytes ∨ p.spec.capacity ≤ Bytes.toNat (bytes.take indexBytes)

theorem Misled.fades (h : p.Misled E d) (hd : ∀ e, p.indexRead = some e → E.Fades e d d') : p.Misled E d' := by
  obtain ⟨e, he, hdone, hbad⟩ := h
  obtain ⟨hdone', hvalue⟩ := hd e he hdone
  exact ⟨e, he, hdone', fun bytes hbytes => hbad bytes (hvalue bytes hbytes)⟩

/-- such an index is not taken -/
theorem takeIndex_misled (h : p.Misled E d) : Gives takeIndex (p, d) fun _ _ => False := by
  obtain ⟨e, he, hdone, hbad⟩ := h
  refine ends_thePort ?_
  rw [he]
  refine ends_putPort ?_
  refine ends_bind (ends_zoom (ends_state ?_))
  rw [E.take, if_pos hdone]
  match hvalue : E.value d e with
  | none => exact ends_fail trivial
  | some bytes =>
    dsimp only
    rcases hbad bytes hvalue with hshort | houtside
    · rw [if_pos hshort]
      exact ends_bind (ends_fail trivial)
    · split_ifs
      · exact ends_bind (ends_fail trivial)
      · exact ends_bind (ends_fail trivial)

end BridgePort

namespace Bridge

open BridgePort Device.Events

variable {δ α : Type} {phase : LinkPhase} {p : BridgePort} {b : Bridge δ} {e : EventId} {slot : TransferSlot}
  {start : Nat}

/-! ## Frames and phases -/

theorem InputRegular.index (h : InputRegular phase p) (hphase : phase ≠ .pollKernel) : p.indexRead = none := by
  cases phase with
  | init => exact Quiet.index h
  | pollKernel => exact absurd rfl hphase
  | pollRead => exact Quiet.index h

theorem OutputRegular.index (h : OutputRegular phase p) (hphase : phase ≠ .pollKernel) : p.indexRead = none := by
  cases phase with
  | init => exact Quiet.index h
  | pollKernel => exact absurd rfl hphase
  | pollRead => exact h

/-- an index is in flight only while the launch is polled -/
theorem Regular.phase_of_indexRead (h : b.Regular) (hp : p ∈ b.inputs ++ b.outputs)
    (he : p.indexRead = some e) : b.phase = .pollKernel := by
  by_contra hphase
  have hnone : p.indexRead = none := by
    rcases mem_append.1 hp with hp | hp
    · exact (h.inputs p hp).2.index hphase
    · exact (h.outputs p hp).2.index hphase
  cases he.symm.trans hnone

theorem onInput_frame (i : Nat) (m : BridgePort.Op δ α) (s : Bridge δ × Ports) : Gives (onInput i m) s fun _ s' =>
    s'.1.outputs = s.1.outputs ∧ ∀ k ≠ i, s'.1.inputs[k]? = s.1.inputs[k]? := by
  refine ends_theBridge (ends_bind (gives_checked fun p _ => ?_))
  exact ends_zoom (gives_of_forall fun _ _ => ⟨rfl, fun k hk => getElem?_set_ne hk.symm⟩)

theorem onOutput_frame (o : Nat) (m : BridgePort.Op δ α) (s : Bridge δ × Ports) : Gives (onOutput o m) s fun _ s' =>
    s'.1.inputs = s.1.inputs ∧ ∀ k ≠ o, s'.1.outputs[k]? = s.1.outputs[k]? := by
  refine ends_theBridge (ends_bind (gives_checked fun p _ => ?_))
  exact ends_zoom (gives_of_forall fun _ _ => ⟨rfl, fun k hk => getElem?_set_ne hk.symm⟩)

variable [Device δ] {E : Device.Events δ} {J : Device.Journal δ} {c : Bridge δ} {ports : Ports} {s : Bridge δ × Ports}
  {i n fired : Nat} {mayLaunch : Bool}

theorem bookOutput_frame (o : Nat) (s : Bridge δ × Ports) : Gives (bookOutput o) s fun _ s' =>
    ∀ k ≠ o, s'.1.outputs[k]? = s.1.outputs[k]? := by
  refine ends_bind ((onOutput_frame o _ s).mono fun booked s' hframe => ?_)
  dsimp only
  split_ifs
  · exact ends_bind (ends_modify (ends_pure hframe.2))
  · exact ends_pure hframe.2

theorem bookInput_misled (hp : s.1.inputs[i]? = some p) (h : p.Misled E s.1.device) :
    Gives (bookInput i) s fun _ _ => False := by
  refine (ends_atInput hp ?_).mono fun _ _ ⟨_, hnever, _⟩ => hnever
  exact ends_bind ((takeIndex_misled h).mono fun _ _ => False.elim)

theorem bookOutput_misled {o : Nat} (hp : s.1.outputs[o]? = some p)
    (h : p.Misled E s.1.device) : Gives (bookOutput o) s fun _ _ => False := by
  refine ends_bind ((ends_atOutput (R := fun _ _ => False) hp ?_).mono
    fun _ _ ⟨_, hnever, _⟩ => hnever.elim)
  exact ends_bind ((takeIndex_misled h).mono fun _ _ => False.elim)

/-- a sweep over the ports of one side ends at a port that is never answered for -/
theorem mapM_misled {f : Nat → Op δ Nat} (side : Bridge δ → List BridgePort) (hi : i < n) (hp : (side s.1)[i]? = some p)
    (h : p.Misled E s.1.device) (hfollows : ∀ k, Follows (deviceTrail E.trail) (f k) 0)
    (hothers : ∀ k ≠ i, ∀ s, Gives (f k) s fun _ s' => (side s'.1)[i]? = (side s.1)[i]?)
    (hself : ∀ s, (side s.1)[i]? = some p → p.Misled E s.1.device → Gives (f i) s fun _ _ => False) :
    Gives ((range n).mapM f) s fun _ _ => False := by
  -- up to there, the port is as it was, and its index cannot get any better
  refine (ends_mapM_range (fun k s => k ≤ i ∧ (side s.1)[i]? = some p ∧ p.Misled E s.1.device)
    ⟨Nat.zero_le i, hp, h⟩ ?_).mono fun _ _ hend => absurd hend.1 (not_le.2 hi)
  rintro k - s ⟨hle, hp, h⟩
  rcases hle.eq_or_lt with rfl | hlt
  · exact (hself s hp h).mono fun _ _ => False.elim
  · refine ((hothers k hlt.ne s).and (hfollows k s)).imp ?_ fun _ _ _ => trivial
    rintro - s' ⟨hport, hfades⟩
    exact ⟨hlt, hport.trans hp, h.fades fun e _ => hfades e⟩

/-- the index of some port has arrived and cannot be used -/
def Misled (E : Device.Events δ) (b : Bridge δ) : Prop := ∃ p ∈ b.inputs ++ b.outputs, p.Misled E b.device

/-- a launch with such an index is not booked -/
theorem updateIndices_misled (h : b.Misled E) : Gives updateIndices (b, ports) fun _ _ => False := by
  obtain ⟨p, hmem, hp⟩ := h
  refine ends_theBridge ?_
  rcases mem_append.1 hmem with hmem | hmem
  · obtain ⟨i, hi⟩ := getElem?_of_mem hmem
    refine ends_bind ((mapM_misled inputs (lt_of_getElem? hi) hi hp follows_bookInput
      (fun k hk s => (onInput_frame k _ s).mono fun _ _ hframe => hframe.2 i hk.symm)
      fun s => bookInput_misled).mono fun _ _ => False.elim)
  · obtain ⟨o, ho⟩ := getElem?_of_mem hmem
    have hinputs : Gives ((range b.inputs.length).mapM bookInput) (b, ports) fun _ s' => s'.1.outputs = b.outputs :=
      ends_mapM (fun s : Bridge δ × Ports => s.1.outputs = b.outputs) rfl fun i _ s hs =>
        (onInput_frame i _ s).mono fun _ _ hframe => hframe.1.trans hs
    have hfollows := follows_mapM (W := (deviceTrail E.trail).toWay)
      (fun i (_ : i ∈ range b.inputs.length) => follows_bookInput i) (b, ports)
    refine ends_bind ((hinputs.and hfollows).imp ?_ fun _ _ _ => trivial)
    rintro consumed s ⟨hout, hfades⟩
    refine ends_bind ((mapM_misled outputs (lt_of_getElem? ho) (by rw [hout]; exact ho)
      (hp.fades fun e _ => hfades e) follows_bookOutput
      (fun k hk s => (bookOutput_frame k s).mono fun _ _ hframe => hframe o hk.symm) fun s => bookOutput_misled).mono
        fun _ _ => False.elim)

/-! ## Booking leaves the open ports -/

def SamePorts (s s' : Bridge δ × Ports) : Prop := s'.2 = s.2

omit [Device δ] in
instance : IsPreorder (Bridge δ × Ports) SamePorts where
  refl _ := rfl
  trans _ _ _ h h' := h'.trans h

def portsTrail : Trail δ := .ofRel SamePorts fun _ _ _ _ _ _ => rfl

instance : Free (portsTrail (δ := δ)) := ⟨fun _ => rfl⟩

/-! ## Steps -/

/-- a command in flight has failed -/
def Lost (E : Device.Events δ) (b : Bridge δ) : Prop := ∃ e ∈ b.inFlight, E.status b.device e = .failed

/-- a step looks at all commands in flight before it does anything else -/
theorem ends_guarded {f : Unit → Op δ α} {Q : α → Bridge δ × Ports → Prop}
    {R : Stop DeviceError → Bridge δ × Ports → Prop}
    (hstop : ∀ d, (E.watch J b.device).holds d → ∀ e, R (.error e) ({ b with device := d }, ports))
    (h : ¬ b.Lost E → ∀ d, (E.watch J b.device).holds d → Ends (f ()) ({ b with device := d }, ports) Q R) :
    Ends (guardFailures >>= f) (b, ports) Q R := by
  refine ends_bind ((guards_guardFailures (watch_start E J b.device)).imp ?_ ?_)
  · rintro - _ ⟨⟨d, rfl, hl⟩, hsound⟩
    exact h (fun ⟨e, he, hfailed⟩ => hsound e he (watch_broken hfailed)) d hl.holds
  · rintro _ _ ⟨⟨e, rfl⟩, ⟨d, rfl, hl⟩, -⟩
    exact hstop d hl.holds e

/-- nothing has happened but looks at the device -/
def Looked (E : Device.Events δ) (J : Device.Journal δ) (b : Bridge δ) (ports : Ports) (s' : Bridge δ × Ports) : Prop :=
  ∃ d, s' = ({ b with device := d }, ports) ∧ (E.watch J b.device).holds d

/-- once a command in flight has failed, a step stops and leaves everything as it is -/
theorem step_lost (mayLaunch : Bool) (ports : Ports) (h : b.Lost E) :
    Ends (step mayLaunch) (b, ports) (fun _ _ => False) fun stop s' => (∃ e, stop = .error e) ∧ b.Looked E J ports s' :=
  ends_guarded (fun d hd e => ⟨⟨e, rfl⟩, d, rfl, hd⟩) fun hsound => absurd h hsound

/-- a launch is found unfinished only because of a command that is pending -/
theorem looks_pending (hb : b.Regular) (hphase : b.phase = .pollKernel) :
    Looks (E.watch J b.device) b ports kernelFinished
    fun finished _ => finished = false → ∃ e ∈ b.inFlight, E.status b.device e = .pending := by
  refine looks_kernelFinished.imp fun finished d hsettles hno => ?_
  by_contra hpending
  have hready : ∀ e ∈ b.inFlight, (E.watch J b.device).Ready e := fun e he => watch_ready
    fun hstatus => hpending ⟨e, he, hstatus⟩
  obtain ⟨kernel, hkernel⟩ := Option.isSome_iff_exists.1 (hb.kernel.2 hphase)
  have hyes :=
    (hsettles kernel hkernel).prompt (forall_mem_cons.2 ⟨hready kernel (mem_inFlight.2 (.inl hkernel)), fun e he => ?_⟩)
  · exact Bool.false_ne_true (hno.symm.trans hyes)
  · rcases mem_append.1 he with he | he
    · obtain ⟨p, hp, he⟩ := mem_flatMap.1 he
      exact hready e (mem_inFlight.2 (.inr ⟨p, mem_append_left _ hp, he⟩))
    · obtain ⟨p, hp, he⟩ := mem_flatMap.1 he
      exact hready e (mem_inFlight.2 (.inr ⟨p, mem_append_right _ hp, mem_append_right _ he⟩))

/-- with an index that cannot be used, a step waits for other commands or stops -/
theorem step_misled (mayLaunch : Bool) (hb : b.Regular) (h : b.Misled E) : Ends (step mayLaunch) (b, ports)
    (fun action s' => action = none ∧ (∃ e ∈ b.inFlight, E.status b.device e = .pending) ∧
      b.Looked E J ports s')
    fun stop s' => (∃ e, stop = .error e) ∧ s'.2 = ports := by
  obtain ⟨p, hp, e, he, hp'⟩ := h
  have hphase := hb.phase_of_indexRead hp he
  refine ends_guarded (E := E) (J := J) (fun d hd e => ⟨⟨e, rfl⟩, rfl⟩) fun _ d hd => ends_bind (ends_get ?_)
  generalize hb1 : ({ b with device := d } : Bridge δ) = b1
  have hphase1 : b1.phase = .pollKernel := by rw [← hb1]; exact hphase
  dsimp only
  rw [hphase1]
  subst hb1
  refine ends_bind ((looks_pending hb hphase hd).ends.mono ?_)
  rintro finished _ ⟨d', rfl, hl, hpending⟩
  cases finished with
  | false => exact ends_pure ⟨rfl, hpending rfl, d', rfl, hl.holds⟩
  | true =>
    obtain ⟨hin, hout⟩ := hb.launched hphase
    have hmisled : ({ b with device := d' } : Bridge δ).Misled E :=
      ⟨p, hp, Misled.fades ⟨e, he, hp'⟩ fun e _ => (watch_keeps hl.holds e).done⟩
    refine ends_bind ((((updateIndices_misled hmisled).and (follows_updateIndices (T := portsTrail) _)).and
      (updateIndices_moves hin hout (fun _ _ => trivial) (show E.terms.owes [] d' from trivial))).imp ?_ ?_)
    · exact fun _ _ hnever => hnever.1.1.elim
    · exact fun _ _ hstop => ⟨hstop.2.1, hstop.1.2⟩

/-- from one state to a later one: steps, steps that stop, and moves of the device, which leave the finished commands of
the bridge as they are -/
inductive Reaches (E : Device.Events δ) (b : Bridge δ) : Bridge δ → Prop
  | refl : Reaches E b b
  | stepped {c c' : Bridge δ} {ports ports' : Ports} {mayLaunch : Bool}
      {action : Option BridgeAction} (h : Reaches E b c)
      (hworks : c.failed = false) (hexec : (step mayLaunch).exec (c, ports) = (.ok action, c', ports')) : Reaches E b c'
  | stopped {c c' : Bridge δ} {ports ports' : Ports} {mayLaunch : Bool} {e : DeviceError} (h : Reaches E b c)
      (hworks : c.failed = false) (hexec : (step mayLaunch).exec (c, ports) = (.error (.error e), c', ports')) :
      Reaches E b { c' with failed := true }
  | moved {c : Bridge δ} {d : δ} (h : Reaches E b c) (hd : ∀ e ∈ c.inFlight, E.Keeps e c.device d) :
      Reaches E b { c with device := d }

/-- a state of a bridge since it was created -/
inductive Reachable (E : Device.Events δ) (b : Bridge δ) : Prop
  | intro {name : String} {d : δ} {ins outs : List LinkPort} {new : Bridge δ}
      (hwords : ∀ spec ∈ ins ++ outs, spec.capacity < Word.size32) (hcreate : create name d ins outs = .ok new)
      (h : new.Reaches E b) : Reachable E b

/-- what lasts over steps and moves of the device, unless the bridge fails -/
theorem Reaches.lasting {P : Bridge δ → Prop} (h : b.Reaches E c) (hb : b.failed = true ∨ P b)
    (hstep : ∀ {c c' ports ports' mayLaunch action}, b.Reaches E c →
      c.failed = false → P c → (step mayLaunch).exec (c, ports) = (.ok action, c', ports') → P c')
    (hmove : ∀ {c d}, P c → (∀ e ∈ c.inFlight, E.Keeps e c.device d) → P { c with device := d }) :
    c.failed = true ∨ P c := by
  induction h with
  | refl => exact hb
  | stepped h hworks hexec ih =>
    rcases ih with hfailed | hP
    · exact absurd hworks (by simp [hfailed])
    · exact .inr (hstep h hworks hP hexec)
  | stopped => exact .inl rfl
  | moved h hd ih => exact ih.imp_right fun hP => hmove hP hd

/-- a bridge that works is in the condition of its phase -/
theorem Reachable.regular (h : b.Reachable E) (hworks : b.failed = false) : b.Regular := by
  obtain ⟨hwords, hcreate, h⟩ := h
  have hnew := Fresh.of_create hcreate
  have hregular := h.lasting (.inr hnew.regular)
    (fun _ _ hc hexec => ((step_moves _ hc).of_ok hexec).1.stepped.regular hc) fun hc _ => hc.onDevice _
  exact hregular.resolve_left (by simp [hworks])

theorem Reaches.trans {a : Bridge δ} (h : a.Reaches E b) (h' : b.Reaches E c) : a.Reaches E c := by
  induction h' with
  | refl => exact h
  | stepped _ hworks hexec ih => exact ih.stepped hworks hexec
  | stopped _ hworks hexec ih => exact ih.stopped hworks hexec
  | moved _ hd ih => exact ih.moved hd

theorem Reachable.reaches (h : b.Reachable E) (h' : b.Reaches E c) : c.Reachable E := by
  obtain ⟨hwords, hcreate, h⟩ := h
  exact ⟨hwords, hcreate, h.trans h'⟩

theorem Reaches.lost (h : b.Reaches E c) (hb : b.Lost E) (J : Device.Journal δ) : c.failed = true ∨ c.Lost E := by
  refine h.lasting (.inr hb) (fun _ _ hlost hexec => ?_) fun hlost hd => ?_
  · exact ((step_lost (J := J) _ _ hlost).of_ok hexec).elim
  · obtain ⟨e, he, hfailed⟩ := hlost
    exact ⟨e, he, (hd e he).failed hfailed⟩

theorem Reaches.failed (h : b.Reaches E c) (hb : b.failed = true) : c.failed = true :=
  (h.lasting (P := fun _ => False) (.inl hb) (fun _ _ hnever _ => hnever) fun hnever _ => hnever).resolve_right id

/-! ## Calls -/

/-- what is left of a call after `fired` actions, with `n` steps; a whole call has fired nothing yet and may launch -/
def remaining (n fired : Nat) (mayLaunch : Bool) (b : Bridge δ) (ports : Ports) : Turn (Bridge δ) :=
  if b.failed then ⟨b, ports, .ok .terminate⟩ else stepLoop n fired mayLaunch b ports

theorem act_eq_remaining (maxLoops : Nat) (b : Bridge δ) (ports : Ports) :
    b.act maxLoops ports = b.remaining maxLoops 0 true ports := rfl

/-- a call that does nothing but look: no token is consumed or produced, no action fires, and no command is submitted -/
structure Idles (J : Device.Journal δ) (b : Bridge δ) (ports : Ports) (turn : Turn (Bridge δ)) : Prop where
  ports : turn.ports = ports
  bridge : ∃ d failed, turn.actor = { b with device := d, failed }
  log : J.log turn.actor.device = J.log b.device

theorem remaining_of_failed (n fired : Nat) (mayLaunch : Bool) (h : b.failed = true) :
    b.remaining n fired mayLaunch ports = ⟨b, ports, .ok .terminate⟩ := if_pos h

theorem remaining_of_works (n fired : Nat) (mayLaunch : Bool) (h : b.failed = false) :
    b.remaining n fired mayLaunch ports = stepLoop n fired mayLaunch b ports := if_neg (by simp [h])

theorem idles_of_failed (h : b.failed = true) : b.Idles J ports ⟨b, ports, .ok .terminate⟩ :=
  ⟨rfl, ⟨b.device, true, by rw [← h]⟩, rfl⟩

/-- a call whose first step waits or stops -/
theorem stepLoop_ends {P R : Bridge δ × Ports → Prop} (n fired : Nat)
    (h : Ends (step mayLaunch) (b, ports) (fun action s' => action = none ∧ P s')
      fun stop s' => (∃ e, stop = .error e) ∧ R s') :
    (∃ s', P s' ∧ stepLoop (n + 1) fired mayLaunch b ports = ⟨s'.1, s'.2, s'.1.restingExit s'.2 fired⟩) ∨
      ∃ s', R s' ∧ stepLoop (n + 1) fired mayLaunch b ports = ⟨{ s'.1 with failed := true }, s'.2, .ok .terminate⟩ := by
  rcases hexec : (step mayLaunch).exec (b, ports) with ⟨stop | action, s'⟩
  · obtain ⟨⟨e, rfl⟩, hR⟩ := h.of_error hexec
    exact .inr ⟨s', hR, by simp only [stepLoop, hexec]⟩
  · obtain ⟨rfl, hP⟩ := h.of_ok hexec
    exact .inl ⟨s', hP, by simp only [stepLoop, hexec]⟩

/-- a call that waits or stops without doing anything -/
theorem remaining_idles (n fired : Nat) (hworks : b.failed = false) (h : Ends (step mayLaunch) (b, ports)
      (fun action s' => action = none ∧ b.Looked E J ports s')
      fun stop s' => (∃ e, stop = .error e) ∧ b.Looked E J ports s') :
    b.Idles J ports (b.remaining n fired mayLaunch ports) := by
  rw [remaining_of_works n fired mayLaunch hworks]
  cases n with
  | zero => exact ⟨rfl, ⟨b.device, b.failed, rfl⟩, rfl⟩
  | succ n =>
    rcases stepLoop_ends n fired h with ⟨_, ⟨d, rfl, hd⟩, heq⟩ | ⟨_, ⟨d, rfl, hd⟩, heq⟩
    · rw [heq]
      exact ⟨rfl, ⟨d, b.failed, rfl⟩, hd.2.2⟩
    · rw [heq]
      exact ⟨rfl, ⟨d, true, rfl⟩, hd.2.2⟩

/-- once a command in flight has failed, a call does nothing, and terminates if it has a step to take -/
theorem Lost.remaining (h : b.Lost E) (J : Device.Journal δ) (n fired : Nat) (mayLaunch : Bool) (ports : Ports) :
    b.Idles J ports (b.remaining n fired mayLaunch ports) ∧
      (0 < n → (b.remaining n fired mayLaunch ports).exit = .ok .terminate) := by
  cases hworks : b.failed with
  | true =>
    rw [remaining_of_failed n fired mayLaunch hworks]
    exact ⟨idles_of_failed hworks, fun _ => rfl⟩
  | false =>
    have hstep := step_lost (J := J) mayLaunch ports h
    refine ⟨remaining_idles n fired hworks (hstep.mono fun _ _ => False.elim), fun hn => ?_⟩
    obtain ⟨m, rfl⟩ := Nat.exists_eq_succ_of_ne_zero hn.ne'
    rw [remaining_of_works _ fired mayLaunch hworks]
    rcases stepLoop_ends (P := fun _ => False) m fired (hstep.mono fun _ _ => False.elim) with ⟨_,
      hnever, -⟩ | ⟨_, -, heq⟩
    · exact hnever.elim
    · rw [heq]

/-- with an index that cannot be used, a call terminates, or waits because a command in flight is pending -/
theorem Misled.remaining (h : b.Misled E) (hb : b.Regular) (hworks : b.failed = false) (J : Device.Journal δ)
    (n fired : Nat) (mayLaunch : Bool) (ports : Ports) :
    (b.remaining n fired mayLaunch ports).ports = ports ∧ ((b.remaining n fired mayLaunch ports).exit = .ok .terminate ∨
      b.Idles J ports (b.remaining n fired mayLaunch ports) ∧ (b.remaining n fired mayLaunch ports).exit = .ok .yield ∧
        (n = 0 ∨ ∃ e ∈ b.inFlight, E.status b.device e = .pending)) := by
  have ⟨p, hp, e, he, _⟩ := h
  have hrests : ∀ d, ({ b with device := d } : Bridge δ).restingExit ports fired = .ok .yield := by
    simp [restingExit, hb.phase_of_indexRead hp he]
  rw [remaining_of_works n fired mayLaunch hworks]
  cases n with
  | zero => exact ⟨rfl, .inr ⟨⟨rfl, ⟨b.device, b.failed, rfl⟩, rfl⟩, hrests b.device, .inl rfl⟩⟩
  | succ n =>
    rcases stepLoop_ends n fired (step_misled mayLaunch hb h) with ⟨_, ⟨hpending, d, rfl, hd⟩, heq⟩ | ⟨_, hports, heq⟩
    · rw [heq]
      exact ⟨rfl, .inr ⟨⟨rfl, ⟨d, b.failed, rfl⟩, hd.2.2⟩, hrests d, .inr hpending⟩⟩
    · rw [heq]
      exact ⟨hports, .inl rfl⟩

/-- the state after a call is a later state -/
theorem Reachable.remaining (h : b.Reachable E) {exit : Exit}
    (hexit : (b.remaining n fired mayLaunch ports).exit = .ok exit) :
    b.Reaches E (b.remaining n fired mayLaunch ports).actor := by
  unfold Bridge.remaining at hexit ⊢
  split
  · exact .refl
  · next hworks =>
    rw [if_neg hworks] at hexit
    replace hworks := Bool.eq_false_iff.2 hworks
    have hb := h.regular hworks
    clear h
    fun_induction stepLoop n fired mayLaunch b ports with
    | case1 => exact .refl
    | case2 n fired mayLaunch b ports action b' ports' hexec ih =>
      obtain ⟨hadvanced, -⟩ := (step_moves mayLaunch hb).of_ok hexec
      exact (Reaches.refl.stepped hworks hexec).trans
        (ih hexit (hadvanced.stepped.failed.trans hworks) (hadvanced.stepped.regular hb))
    | case3 n fired mayLaunch b ports b' ports' hexec => exact Reaches.refl.stepped hworks hexec
    | case4 n fired mayLaunch b ports e b' ports' hexec => exact Reaches.refl.stopped hworks hexec
    | case5 => cases hexit

end Bridge

namespace Bridge

/-- the device has answered its next `n` commands with no bytes -/
def answered (b : Bridge (Journaled (Accelerator StockKernel))) (n : Nat) :
    Bridge (Journaled (Accelerator StockKernel)) :=
  { b with device := ⟨(fun d => (d.answerNext []).2)^[n] b.device.device, b.device.log⟩ }

theorem Reachable.answered {b : Bridge (Journaled (Accelerator StockKernel))}
    (h : b.Reachable (Journaled.events Accelerator.deviceEvents)) (n : Nat) :
    (b.answered n).Reachable (Journaled.events Accelerator.deviceEvents) := by
  have hkeeps : ∀ (d : Accelerator StockKernel) e,
      Accelerator.deviceEvents.Keeps e d ((fun d => (d.answerNext []).2)^[n] d) := by
    induction n with
    | zero => exact fun d e => Device.Events.keeps_of_eq rfl rfl e
    | succ n ih => exact fun d e => (Accelerator.keeps_answerNext d [] e).trans (ih _ e)
  exact h.reaches (Reaches.refl.moved fun e _ => Journaled.keeps_events (hkeeps _ e) _ _)

end Bridge

end Dataflow
