import Dataflow.Proofs.BridgeRound

/-!
What a bridge keeps from step to step.

`Bridge.Phased` names, in each of the three phases, the state of the ports and of the launch. Steps (`step_yields`) and
calls (`act_phased`) never fail, and keep it.
-/

namespace Dataflow

open List Step

namespace Bridge

open BridgePort

variable {κ : Type} [Programmed κ]

/-! ## The invariant -/

def inputState : LinkPhase → InputState κ
  | .init | .pollRead => InputIdle
  | .pollKernel => InputAsked

def outputState : LinkPhase → OutputState κ
  | .init => OutputIdle
  | .pollKernel => OutputAsked
  | .pollRead => OutputFetching

/-- all ports are in the states that belong to the phase, nothing has failed, and the device owes what is waited for -/
structure Phased (nin nout : Nat) (t : Traffic) (b : Bridge (Accelerator (Recorded κ))) : Prop where
  failed : b.failed = false
  kernel : b.kernel.isSome = true ↔ b.phase = .pollKernel
  round : ∃ m, Round nin nout b.device (b.kernel.toList.map (·, none)) t m (fun _ => inputState b.phase)
    (fun _ => outputState b.phase) b.device b.inputs b.outputs

section States

variable {phase : LinkPhase} {m : Machine (Recorded κ)} {k : Nat} {p : BridgePort} {X A : Bytes} {D : Nat}
  {P : List Promise}

omit [Programmed κ]

theorem covers_inputState (h : inputState phase m k p X P) : p.Covers P := by
  cases phase with
  | init => exact InputIdle.covers h
  | pollKernel => exact InputAsked.covers h
  | pollRead => exact InputIdle.covers h

theorem covers_outputState (h : outputState phase m k p A D P) : p.Covers P := by
  cases phase with
  | init => exact OutputIdle.covers h
  | pollKernel => exact OutputAsked.covers h
  | pollRead => exact OutputFetching.covers h

theorem received_inputState (h : inputState phase m k p X P) : ∃ R, m.kernel.received[k]? = some (X.take R) := by
  have hidle : InputIdle m k p X P → ∃ R, m.kernel.received[k]? = some (X.take R) :=
    fun ⟨_, _, _, hl, _⟩ => ⟨_, hl.received⟩
  cases phase with
  | init => exact hidle h
  | pollKernel =>
    obtain ⟨_, _, _, _, _, _, _, _, _, hrec, -⟩ := h
    exact ⟨_, hrec⟩
  | pollRead => exact hidle h

end States

section Moves

variable {nin nout : Nat} {d0 d : Accelerator (Recorded κ)} {K : List Promise} {t u : Traffic}
  {m : Machine (Recorded κ)} {SI : Nat → InputState κ} {SO : Nat → OutputState κ} {ins outs : List BridgePort}

theorem Round.traffic (h : Round nin nout d0 K t m SI SO d ins outs)
    (hin : ∀ {j p X}, ins[j]? = some p → t.taken j p.spec.tokenSize X → u.taken j p.spec.tokenSize X)
    (hout : ∀ {o p Y}, outs[o]? = some p → t.handed o p.spec.tokenSize Y → u.handed o p.spec.tokenSize Y) :
    Round nin nout d0 K u m SI SO d ins outs := by
  obtain ⟨PI, PO, hI, hO, hd⟩ := h
  exact ⟨PI, PO, hI.mono fun _ hp ⟨X, h, hS⟩ => ⟨X, hin hp h, hS⟩, hO.mono
    fun _ hp ⟨A, D, h, hS⟩ => ⟨A, D, hout hp h, hS⟩, hd⟩

/-- the moment to compare with is now -/
theorem Round.restart (h : Round nin nout d0 K t m SI SO d ins outs) : Round nin nout d K t m SI SO d ins outs := by
  obtain ⟨PI, PO, hI, hO, hd⟩ := h
  exact ⟨PI, PO, hI, hO, hd.owes, .refl d⟩

/-- what was handed on at an earlier moment is still accepted -/
theorem Neighbours.traffic_later {N : Neighbours} {ports : Ports} (hl : d0.Later d) {o tokenSize : Nat} {Y : Bytes}
    (h : (N.traffic nin d0 ports).handed o tokenSize Y) : (N.traffic nin d ports).handed o tokenSize Y := by
  obtain ⟨e, c, v, l, hf, hts, hstream, hsink, accepted, hacc, hpre⟩ := h
  obtain ⟨accepted', hacc', hpre'⟩ := hl.reaches.grows.accepted hacc
  exact ⟨e, c, v, l, hf, hts, hstream, hsink, accepted', hacc', hpre.trans hpre'⟩

/-- if everything is carried out, the machine is where the promises lead -/
theorem Round.settled (h : Round nin nout d0 [] t m SI SO d0 ins outs)
    (hin : ∀ {j p X P}, SI j m j p X P → ∀ a ∈ P, d0.events.status a.1 = .done)
    (hout : ∀ {o p A D P}, SO o m o p A D P → ∀ a ∈ P, d0.events.status a.1 = .done) : d0.machine = m := by
  obtain ⟨PI, PO, hI, hO, hd⟩ := h
  refine hd.owes.settled fun a ha => ?_
  rw [nil_append] at ha
  exact (mem_append.1 ha).elim (hI.forall_mem (fun ⟨_, _, hS⟩ => hin hS) a)
    (hO.forall_mem (fun ⟨_, _, _, hS⟩ => hout hS) a)

theorem Round.idle_settled (h : Round nin nout d0 [] t m (fun _ => InputIdle) (fun _ => OutputIdle) d0 ins outs) :
    d0.machine = m :=
  h.settled (fun ⟨_, _, _, _, _, hP⟩ a ha => by simp [hP] at ha) (fun ⟨_, _, _, _, hP⟩ a ha => by simp [hP] at ha)

end Moves

/-! ## Looking at events -/

/-- an accelerator that is only polled stays as it is -/
def still (d : Accelerator (Recorded κ)) : Device.Watch (Accelerator (Recorded κ)) where
  holds d' := d' = d
  complete e d' := d'.events.status e ≠ .pending
  poll _ h := h
  seen {d e} _ hseen := by
    have hcomplete : (d.events.status e).isComplete = true := hseen
    show d.events.status e ≠ .pending
    simpa [EventStatus.isComplete] using hcomplete
  lasts _ _ hcomplete := hcomplete

section Polls

variable {nin nout : Nat} {t : Traffic} {m : Machine (Recorded κ)} {b : Bridge (Accelerator (Recorded κ))}
  {ports : Ports} {e : EventId}

/-- a launch that is found finished is over, with all its transfers and indices -/
theorem kernelFinished_yields (hk : b.kernel = some e)
    (h : Round nin nout b.device [(e, none)] t m (fun _ => InputAsked)
      (fun _ => OutputAsked) b.device b.inputs b.outputs) : Yields kernelFinished (b, ports) fun a s' =>
      (a = true → Round nin nout b.device [] t m (fun _ => InputDone b.device InputAsked)
        (fun _ => OutputDone b.device OutputAsked) b.device b.inputs b.outputs) ∧ s' = (b, ports) := by
  refine (looks_kernelFinished (W := still b.device) rfl).mono ?_
  rintro a _ ⟨_, rfl, ⟨rfl, -⟩, ha⟩
  refine ⟨fun hat => ?_, rfl⟩
  obtain ⟨hlaunch, hports⟩ := forall_mem_cons.1 ((ha e hk).complete hat)
  refine (h.launch_done hlaunch).done InputAsked.covers OutputAsked.covers (fun {j p _ _} hp _ e' he' => ?_)
    fun {o p _ _ _} hp hasked e' he' => ?_
  · exact hports e' (mem_append_left _ (mem_flatMap.2 ⟨p, hp, he'⟩))
  · rw [hasked.inFlight_eq] at he'
    exact hports e' (mem_append_right _ (mem_flatMap.2 ⟨p, hp, he'⟩))

theorem readsFinished_yields
    (h : Round nin nout b.device [] t m (fun _ => InputIdle) (fun _ => OutputFetching) b.device b.inputs b.outputs) :
    Yields readsFinished (b, ports) fun a s' =>
      (a = true → Round nin nout b.device [] t m (fun _ => InputDone b.device InputIdle)
        (fun _ => OutputDone b.device OutputFetching) b.device b.inputs b.outputs) ∧ s' = (b, ports) := by
  refine (looks_readsFinished (W := still b.device) rfl).mono ?_
  rintro a _ ⟨_, rfl, ⟨rfl, -⟩, ha⟩
  refine ⟨fun hat => ?_, rfl⟩
  refine h.done InputIdle.covers OutputFetching.covers (fun _ hidle e he => ?_) fun {o p _ _ _} hp hfetch e he => ?_
  · obtain ⟨_, _, _, _, hquiet, -⟩ := hidle
    exact absurd ((hquiet.covers e).1 he) not_mem_nil
  · rw [hfetch.inFlight_eq] at he
    exact ha.complete hat e (mem_flatMap.2 ⟨p, hp, he⟩)

/-- with no failed command in flight, the guard lets everything pass -/
theorem guardFailures_yields (h : ∀ e ∈ b.inFlight, b.device.events.status e ≠ .failed) :
    Yields guardFailures (b, ports) fun _ s' => s' = (b, ports) := by
  refine (guards_guardFailures (W := still b.device) rfl).imp ?_ ?_
  · rintro - _ ⟨⟨_, rfl, rfl, -⟩, -⟩
    rfl
  · rintro _ _ ⟨-, -, e, he, _, rfl, hfailed⟩
    have hfailed : (b.device.events.status e).hasFailed = true := hfailed
    exact h e he (by simpa [EventStatus.hasFailed] using hfailed)

end Polls

/-! ## Conditions -/

theorem anyIndexed_ok {α : Type} {test : Nat → α → Checked Bool} {i : Nat} {xs : List α}
    (h : ∀ {k a}, xs[k]? = some a → ∃ r, test (i + k) a = .ok r) : ∃ r, anyIndexed test i xs = .ok r := by
  induction xs generalizing i with
  | nil => exact ⟨false, rfl⟩
  | cons a rest ih =>
    obtain ⟨r, hr⟩ := h (show (a :: rest)[0]? = some a from rfl)
    obtain ⟨r', hr'⟩ := ih fun {k a'} hk => by
      rw [show i + 1 + k = i + (k + 1) by omega]
      exact h (show (a :: rest)[k + 1]? = some a' from hk)
    rw [Nat.add_zero] at hr
    cases r with
    | true => exact ⟨true, by simp [anyIndexed, hr]⟩
    | false => exact ⟨r', by simp [anyIndexed, hr, hr']⟩

/-- the levels that the conditions of a bridge ask for can be computed -/
structure Levelled {δ : Type} (b : Bridge δ) (ports : Ports) : Prop where
  input : ∀ {j p}, b.inputs[j]? = some p → (∃ n, p.hostPending = .ok n) ∧ ∃ n, stageable p ports j = .ok n
  output : ∀ {o p}, b.outputs[o]? = some p →
    (∃ n, p.hostPending = .ok n) ∧ (∃ n, p.deviceFree = .ok n) ∧ ∃ n, ports.availableOut o = .ok n

section Conditions

variable {δ : Type} {b : Bridge δ} {ports : Ports} (h : b.Levelled ports)

include h

theorem canWriteToOutput_ok : ∃ r, b.canWriteToOutput ports = .ok r := by
  refine anyIndexed_ok fun hp => ?_
  obtain ⟨⟨n, hn⟩, -, a, ha⟩ := h.output hp
  rw [Nat.zero_add, hn, Checked.ok_bind]
  split_ifs
  · exact ⟨_, rfl⟩
  · exact ⟨_, by rw [ha]; rfl⟩

theorem shouldStart_ok : ∃ r, b.shouldStart ports = .ok r := by
  obtain ⟨space, hspace⟩ : ∃ r, b.hasOutputSpace = .ok r := by
    unfold hasOutputSpace
    split_ifs
    · exact ⟨_, rfl⟩
    · refine anyIndexed_ok fun hp => ?_
      obtain ⟨-, ⟨n, hn⟩, -⟩ := h.output hp
      exact ⟨_, by rw [hn]; rfl⟩
  obtain ⟨send, hsend⟩ : ∃ r, b.canSendInput ports = .ok r := by
    refine anyIndexed_ok fun hp => ?_
    obtain ⟨-, n, hn⟩ := h.input hp
    exact ⟨_, by rw [Nat.zero_add, hn]; rfl⟩
  obtain ⟨left, hleft⟩ : ∃ r, b.inputOnDevice = .ok r := by
    refine anyIndexed_ok fun hp => ?_
    obtain ⟨⟨n, hn⟩, -⟩ := h.input hp
    exact ⟨_, by rw [hn]; rfl⟩
  simp only [shouldStart, hspace, hsend, hleft, Checked.ok_bind, Checked.pure_eq]
  split_ifs <;> exact ⟨_, rfl⟩

/-- a call that finds nothing to do can always say what it waits for -/
theorem idleExit_ok : ∃ blocked, b.idleExit ports = .ok (.block blocked) := by
  have hstuck : ∀ o outs, (∀ {k p}, outs[k]? = some p → b.outputs[o + k]? = some p) →
      ∃ blocked, stuckOutputs ports o outs = .ok blocked := by
    intro o outs
    induction outs generalizing o with
    | nil => exact fun _ => ⟨[], rfl⟩
    | cons p rest ih =>
      intro hmem
      obtain ⟨⟨n, hn⟩, -, a, ha⟩ := h.output (hmem (show (p :: rest)[0]? = some p from rfl))
      obtain ⟨more, hmore⟩ := ih (o + 1) fun {k q} hq => by
        rw [show o + 1 + k = o + (k + 1) by omega]
        exact hmem (show (p :: rest)[k + 1]? = some q from hq)
      rw [Nat.add_zero] at ha
      simp only [stuckOutputs, hn, ha, hmore, Checked.ok_bind, Checked.pure_eq]
      split_ifs <;> exact ⟨_, rfl⟩
  obtain ⟨blocked, hblocked⟩ := hstuck 0 b.outputs fun hp => by rwa [Nat.zero_add]
  exact ⟨_, by simp only [idleExit, hblocked, Checked.ok_bind, Checked.pure_eq]; rfl⟩

end Conditions

/-- a call rests with an answer. It blocks between two rounds if it did nothing, and yields otherwise -/
theorem restingExit_ok {δ : Type} {b : Bridge δ} {ports : Ports} (fired : Nat)
    (h : b.phase = .init → b.Levelled ports) : ∃ exit, b.restingExit ports fired = .ok exit ∧
      (b.phase = .init ∧ fired = 0 ∧ (∃ blocked, exit = .block blocked) ∨
        ¬ (b.phase = .init ∧ fired = 0) ∧ exit = .yield) := by
  unfold restingExit
  split_ifs with hinit
  · obtain ⟨blocked, hblocked⟩ := idleExit_ok (h hinit.1)
    exact ⟨_, hblocked, .inl ⟨hinit.1, hinit.2, blocked, rfl⟩⟩
  · exact ⟨_, rfl, .inr ⟨hinit, rfl⟩⟩

theorem Round.levelled {nin nout : Nat} {d0 : Accelerator (Recorded κ)} {K : List Promise} {m : Machine (Recorded κ)}
    {N : Neighbours} {b : Bridge (Accelerator (Recorded κ))} {ports : Ports}
    (h : Round nin nout d0 K (N.traffic nin d0 ports) m (fun _ => InputIdle)
      (fun _ => OutputIdle) b.device b.inputs b.outputs) : b.Levelled ports := by
  obtain ⟨PI, PO, hI, hO, -⟩ := h
  refine ⟨fun {j p} hp => ?_, fun {o p} hp => ?_⟩
  · obtain ⟨X, ⟨-, e, q, c, v, l, hdraws, -⟩, T, H, hs, -⟩ := hI.each hp
    have hstage : stageable p ports j = .ok (min v.available (p.spec.capacity - 1 - (H - T))) := by
      simp [stageable, hdraws.availableIn, hs.free]
    exact ⟨⟨_, hs.pending⟩, _, hstage⟩
  · obtain ⟨A, D, ⟨e, c, v, l, hfills, -⟩, n, hs, hl, -⟩ := hO.each hp
    have hfree : p.deviceFree = .ok (p.spec.capacity - 1 - (n - D)) := by
      rw [deviceFree, show p.device.head = n % p.spec.capacity from hl.head, hs.deviceTail,
        Indices.freeSpace_mod hs.order.1 hs.order.2]
    exact ⟨⟨_, hs.pending⟩, ⟨_, hfree⟩, _, hfills.availableOut⟩

/-! ## Steps -/

section Steps

variable {nin nout : Nat} {d0 : Accelerator (Recorded κ)} {K : List Promise} {m : Machine (Recorded κ)} {N : Neighbours}
  {b0 : Bridge (Accelerator (Recorded κ))} {s : Bridge (Accelerator (Recorded κ)) × Ports} {SI : Nat → InputState κ}
  {SO : Nat → OutputState κ} {o : Nat}

theorem bookOutput_yields (ho : o < nout) (hS : SO o = OutputDone d0 OutputAsked)
    (h : Stands nin nout d0 K N b0 m SI SO s) :
    Yields (bookOutput o) s fun _ s' => Stands nin nout d0 K N b0 m SI (Function.update SO o OutputFetching) s' := by
  refine ends_bind ((h.onOutput (fun hdone hd => OutputAsked.book hdone.1 hdone.2 hd) ho hS).mono
    fun ⟨produced, free⟩ s1 h1 => ?_)
  by_cases hfree : free = 0
  · simp only [hfree, if_true]
    exact ends_bind (ends_modify (ends_pure ⟨h1.1, h1.2.trans ⟨rfl, rfl, rfl⟩⟩))
  · simp only [hfree, if_false]
    exact ends_pure h1

theorem updateIndices_yields
    (h : Stands nin nout d0 K N b0 m (fun _ => InputDone d0 InputAsked) (fun _ => OutputDone d0 OutputAsked) s) :
    Yields updateIndices s fun _ s' =>
      Stands nin nout d0 K N { b0 with kernel := none } m (fun _ => InputIdle) (fun _ => OutputFetching) s' := by
  refine ends_theBridge ?_
  simp only [h.1.counts.1, h.1.counts.2]
  refine ends_bind ((h.onInputs fun hdone hd => InputAsked.book hdone.1 hdone.2 hd).mono fun consumed s1 h1 => ?_)
  refine ends_bind ((Stands.outputs bookOutput_yields h1).mono fun produced s2 h2 => ?_)
  exact ends_modify ⟨h2.1, h2.2.phase, rfl, h2.2.failed⟩

theorem collect_yields (hm : d0.machine = m)
    (h : Stands nin nout d0 K N b0 m SI (fun _ => OutputDone d0 OutputFetching) s) :
    Yields collect s fun _ s' => Stands nin nout d0 K N b0 m SI (fun _ => OutputIdle) s' := by
  refine ends_theBridge ?_
  rw [h.1.counts.2]
  refine ends_bind ((Stands.outputs (fun ho hS hs =>
    hs.onOutput (fun hdone hd => OutputFetching.land hdone.1 hdone.2 hd) ho hS) h).forM.mono fun _ s1 h1 => ?_)
  exact freeUpOutputs_yields hm h1

theorem Phased.of_round {t : Traffic} {b : Bridge (Accelerator (Recorded κ))} {phase : LinkPhase}
    {kernel : Option EventId} (hfailed : b.failed = false) (hphase : b.phase = phase) (hkernel : b.kernel = kernel)
    (hlaunch : kernel.isSome = true ↔ phase = .pollKernel)
    (hr : Round nin nout b.device (kernel.toList.map (·, none)) t m (fun _ => inputState phase)
      (fun _ => outputState phase) b.device b.inputs b.outputs) : Phased nin nout t b := by
  subst hphase hkernel
  exact ⟨hfailed, hlaunch, m, hr⟩

/-- in whatever phase, what can be done to a round can be done to the invariant -/
theorem Phased.map {t u : Traffic} {b : Bridge (Accelerator (Recorded κ))} {d : Accelerator (Recorded κ)}
    (h : Phased nin nout t b) (hround : ∀ {K m SI SO}, Round nin nout b.device K t m SI SO b.device b.inputs b.outputs →
      Round nin nout d K u m SI SO d b.inputs b.outputs) : Phased nin nout u { b with device := d } := by
  obtain ⟨m, hr⟩ := h.round
  exact ⟨h.failed, h.kernel, m, hround hr⟩

/-- the invariant with other knowledge of the connections -/
theorem Phased.traffic {t u : Traffic} {b : Bridge (Accelerator (Recorded κ))} (h : Phased nin nout t b)
    (hin : ∀ {j p X}, b.inputs[j]? = some p → t.taken j p.spec.tokenSize X → u.taken j p.spec.tokenSize X)
    (hout : ∀ {o p Y}, b.outputs[o]? = some p → t.handed o p.spec.tokenSize Y → u.handed o p.spec.tokenSize Y) :
    Phased nin nout u b :=
  h.map fun hr => hr.traffic hin hout

/-- the end of a step is the beginning of the next one -/
theorem Stands.now (h : Stands nin nout d0 K N b0 m SI SO s) :
    Round nin nout s.1.device K (N.traffic nin s.1.device s.2) m SI SO s.1.device s.1.inputs s.1.outputs := by
  obtain ⟨_, _, _, _, hd⟩ := h.1
  exact h.1.restart.traffic (fun _ ht => ht) fun _ ht => Neighbours.traffic_later hd.later ht

variable {b : Bridge (Accelerator (Recorded κ))} {ports : Ports} {t : Traffic}

/-- in no phase has a command in flight failed -/
theorem Phased.guard (h : Phased nin nout t b) : Yields guardFailures (b, ports) fun _ s' => s' = (b, ports) := by
  obtain ⟨m, hr⟩ := h.round
  refine guardFailures_yields fun e he hfailed => ?_
  have hstatus : b.device.events.status e = .pending ∨ b.device.events.status e = .done := by
    rcases mem_inFlight.1 he with hk | ⟨p, hp, he⟩
    · obtain ⟨_, _, _, _, hd⟩ := hr
      exact hd.owes.status (mem_append_left _ (mem_map_of_mem (Option.mem_toList.2 hk)))
    · exact hr.status covers_inputState covers_outputState hp he
  rw [hfailed] at hstatus
  rcases hstatus with h | h <;> cases h

/-- a step does not fail, and afterwards all ports are again in the states of the phase -/
theorem step_yields (hwithin : ∀ state : κ, (Programmed.program state).Within nin nout) (mayLaunch : Bool)
    (h : Phased nin nout (N.traffic nin b.device ports) b) :
    Yields (step mayLaunch) (b, ports) fun _ s' => Phased nin nout (N.traffic nin s'.1.device s'.2) s'.1 := by
  refine ends_bind (h.guard.mono ?_)
  rintro - - rfl
  refine ends_bind (ends_get ?_)
  obtain ⟨hfailed, hkernel, m, hr⟩ := id h
  cases hb : b.phase with
  | init =>
    have hk : b.kernel = none := by simpa [hb] using hkernel
    simp only [hb, hk] at hr ⊢
    have hm : b.device.machine = m := hr.idle_settled
    have hstands : Stands nin nout b.device [] N b m (fun _ => InputIdle) (fun _ => OutputIdle) (b, ports) :=
      ⟨hr, .refl b⟩
    obtain ⟨canWrite, hcan⟩ := canWriteToOutput_ok hstands.1.levelled
    refine ends_bind (ends_ok hcan ?_)
    cases canWrite with
    | true =>
      refine ends_bind ((freeUpOutputs_yields hm hstands).mono fun _ s1 h1 => ends_pure ?_)
      exact .of_round (h1.2.failed.trans hfailed) (h1.2.phase.trans hb) (h1.2.kernel.trans hk) (by simp) h1.now
    | false =>
      cases mayLaunch with
      | false => exact ends_pure h
      | true =>
        obtain ⟨start, hstart⟩ := shouldStart_ok hstands.1.levelled
        refine ends_bind (ends_ok hstart ?_)
        cases start with
        | false => exact ends_pure h
        | true =>
          refine ends_bind ((startKernel_yields hwithin hstands).mono fun _ s1 ⟨m1, e, h1⟩ => ?_)
          exact ends_bind
            (ends_modify (ends_pure (.of_round (h1.2.failed.trans hfailed) rfl h1.2.kernel (by simp) h1.now)))
  | pollKernel =>
    obtain ⟨e, hk⟩ := Option.isSome_iff_exists.1 (hkernel.2 hb)
    simp only [hb, hk] at hr ⊢
    refine ends_bind ((kernelFinished_yields hk hr).mono fun a s1 ⟨ha, hs1⟩ => ?_)
    rw [hs1]
    cases a with
    | false => exact ends_pure h
    | true =>
      have hstands : Stands nin nout b.device [] N b m (fun _ => InputDone b.device InputAsked)
          (fun _ => OutputDone b.device OutputAsked) (b, ports) := ⟨ha rfl, .refl b⟩
      refine ends_bind ((updateIndices_yields hstands).mono fun _ s2 h2 => ?_)
      exact ends_bind (ends_modify (ends_pure (.of_round (h2.2.failed.trans hfailed) rfl h2.2.kernel (by simp) h2.now)))
  | pollRead =>
    have hk : b.kernel = none := by simpa [hb] using hkernel
    simp only [hb, hk] at hr ⊢
    refine ends_bind ((readsFinished_yields hr).mono fun a s1 ⟨ha, hs1⟩ => ?_)
    rw [hs1]
    cases a with
    | false => exact ends_pure h
    | true =>
      have hm : b.device.machine = m := (ha rfl).settled (fun hdone => hdone.2) fun hdone => hdone.2
      refine ends_bind ((collect_yields hm ⟨ha rfl, .refl b⟩).mono fun _ s2 h2 => ?_)
      refine ends_bind (ends_modify
          (ends_pure (.of_round (m := m) (h2.2.failed.trans hfailed) rfl (h2.2.kernel.trans hk) (by simp) ?_)))
      obtain ⟨PI, PO, hI, hO, hd⟩ := h2.now
      exact ⟨PI, PO, hI.mono fun _ _ ⟨X, htaken, hS⟩ => ⟨X, htaken, hS.1⟩, hO, hd⟩

/-! ## Calls -/

theorem Phased.levelled (h : Phased nin nout (N.traffic nin b.device ports) b)
    (hinit : b.phase = .init) : b.Levelled ports := by
  obtain ⟨m, hr⟩ := h.round
  rw [hinit] at hr
  exact hr.levelled

theorem stepLoop_phased (hwithin : ∀ state : κ, (Programmed.program state).Within nin nout) (n fired : Nat)
    (mayLaunch : Bool) (b : Bridge (Accelerator (Recorded κ))) (ports : Ports)
    (h : Phased nin nout (N.traffic nin b.device ports) b) :
    ∃ b' ports' exit, stepLoop n fired mayLaunch b ports = ⟨b', ports', .ok exit⟩ ∧
      Phased nin nout (N.traffic nin b'.device ports') b' := by
  induction n generalizing fired mayLaunch b ports with
  | zero =>
    obtain ⟨exit, hexit, -⟩ := restingExit_ok fired h.levelled
    exact ⟨b, ports, exit, by rw [stepLoop, hexit], h⟩
  | succ n ih =>
    obtain ⟨answer, ⟨b1, ports1⟩, hstep, h1⟩ := (step_yields hwithin mayLaunch h).exec
    cases answer with
    | none =>
      obtain ⟨exit, hexit, -⟩ := restingExit_ok fired h1.levelled
      refine ⟨b1, ports1, exit, ?_, h1⟩
      simp only [stepLoop, hstep, hexit]
    | some action =>
      have hfire : Phased nin nout (N.traffic nin b1.device (ports1.fire action.number)) b1 := by
        refine h1.traffic ?_ ?_
        · rintro j p X - ⟨hj, e, q, c, v, l, hdraws, hrest⟩
          exact ⟨hj, e, q, c, v, l, { hdraws with }, hrest⟩
        · rintro o p Y - ⟨e, c, v, l, hfills, hrest⟩
          exact ⟨e, c, v, l, { hfills with }, hrest⟩
      obtain ⟨b', ports', exit, hloop, h'⟩ := ih (fired + 1) (mayLaunch && action != .startKernel) b1 _ hfire
      exact ⟨b', ports', exit, by simp only [stepLoop, hstep, hloop], h'⟩

/-- a call keeps the invariant, and never terminates the bridge -/
theorem act_phased (hwithin : ∀ state : κ, (Programmed.program state).Within nin nout) (maxLoops : Nat)
    (h : Phased nin nout (N.traffic nin b.device ports) b) :
    ∃ b' ports' exit, b.act maxLoops ports = ⟨b', ports', .ok exit⟩ ∧
      Phased nin nout (N.traffic nin b'.device ports') b' := by
  obtain ⟨b', ports', exit, hloop, h'⟩ := stepLoop_phased hwithin maxLoops 0 true b ports h
  exact ⟨b', ports', exit, by simp [act, h.1, hloop], h'⟩

/-- commands that the device carries out between two calls change nothing for the ports -/
theorem Phased.work {d : Accelerator (Recorded κ)} (h : Phased nin nout t b)
    (howes : ∀ {m P}, b.device.Owes m P → d.Owes m P) : Phased nin nout t { b with device := d } := by
  refine h.map fun hr => ?_
  obtain ⟨PI, PO, hI, hO, hd⟩ := hr
  exact ⟨PI, PO, hI, hO, howes hd.owes, .refl d⟩

theorem Phased.owes (h : Phased nin nout t b) : ∃ m P, b.device.Owes m P := by
  obtain ⟨m, _, _, _, _, hd⟩ := h.round
  exact ⟨m, _, hd.owes⟩

/-! ## What the invariant says -/

section

variable (h : Phased nin nout t b)

include h

theorem Phased.settled (hr : Round nin nout b.device (b.kernel.toList.map (·, none)) t m
      (fun _ => inputState b.phase) (fun _ => outputState b.phase) b.device b.inputs b.outputs)
    (hinit : b.phase = .init) : b.device.machine = m := by
  have hk : b.kernel = none := by simpa [hinit] using h.kernel
  rw [hinit, hk] at hr
  exact hr.idle_settled

/-- what the kernel has read is the beginning of what was taken; in `init` the host stages the rest -/
theorem Phased.input {j : Nat} (hj : j < nin) : ∃ p X got, b.inputs[j]? = some p ∧ t.taken j p.spec.tokenSize X ∧
      b.device.machine.kernel.received[j]? = some got ∧ got <+: X ∧
      (b.phase = .init → ∃ span staged, p.byteSpan p.host.tail p.host.head = .ok span ∧
        p.staging.readRuns span = .ok staged ∧ X = got ++ staged) := by
  obtain ⟨m, hr⟩ := h.round
  obtain ⟨p, X, P, F, hp, htaken, hS, hd, -⟩ := hr.input hj
  obtain ⟨R, hR⟩ := received_inputState hS
  obtain ⟨got, hgot, hpre⟩ := hd.owes.reaches.grows.received_before hR
  refine ⟨p, X, got, hp, htaken, hgot, hpre.trans ( take_prefix _ _), fun hinit => ?_⟩
  rw [hinit] at hS
  obtain ⟨T, H, hs, hl, -⟩ := hS
  rw [h.settled hr hinit, hl.received] at hgot
  cases hgot
  obtain ⟨span, hspan, hstaged⟩ := hs.contents
  exact ⟨span, _, hspan, hstaged, (take_append_drop _ _).symm⟩

/-- what was handed on, and in `init` the rest of what the kernel has written -/
theorem Phased.output (ho : o < nout) : ∃ p Y, b.outputs[o]? = some p ∧ t.handed o p.spec.tokenSize Y ∧
      (b.phase = .init → ∃ span staged, p.byteSpan p.host.tail p.host.head = .ok span ∧
        p.staging.readRuns span = .ok staged ∧ b.device.machine.kernel.accepted[o]? = some (Y ++ staged)) := by
  obtain ⟨m, hr⟩ := h.round
  obtain ⟨p, A, D, P, F, hp, hhanded, hS, -⟩ := hr.output ho
  refine ⟨p, _, hp, hhanded, fun hinit => ?_⟩
  rw [hinit] at hS
  obtain ⟨n, hs, hl, -⟩ := hS
  obtain ⟨span, hspan, hstaged⟩ := hs.contents
  exact ⟨span, _, hspan, hstaged, by rw [h.settled hr hinit, hl.accepted, take_append_drop]⟩

end

end Steps

end Bridge

end Dataflow
