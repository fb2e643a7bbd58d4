import Dataflow.Proofs.EchoRound

/-!
The calls of an echo bridge.

A call keeps `Bridge.Running` (`act_running`). It blocks only between two rounds, and then nothing is left upstream of
the room downstream (`Rested.exhausted`). Every step that does something brings the end nearer (`Nearer`).
-/

namespace Dataflow

open Step

namespace Bridge

open BridgePort

/-! ## Conditions -/

theorem anyIndexed_one {α : Type} (test : Nat → α → Checked Bool) (i : Nat) (a : α) :
    anyIndexed test i [a] = test i a := by
  rw [anyIndexed]
  cases test i a with
  | error f => rfl
  | ok answer => cases answer <;> rfl

section Conditions

variable {δ : Type} {perCall tokenSize : Nat} {b : Bridge δ} {ports : Ports} {p q : BridgePort}
  {m : Machine StockKernel} {X : Bytes} {T H D level room : Nat}

section

variable (h : Rested perCall tokenSize X T H D m p q)

include h

theorem Rested.deviceFree_eq : q.deviceFree = .ok (q.spec.capacity - 1 - (T - D)) := by
  rw [deviceFree, h.outHead, h.output.deviceTail, Indices.freeSpace_mod h.output.order.1 h.output.order.2]

theorem Rested.canWrite_eq (hout : b.outputs = [q])
    (hroom : ports.availableOut 0 = .ok room) : b.canWriteToOutput ports = .ok (decide (T - D ≠ 0 ∧ room ≠ 0)) := by
  rw [canWriteToOutput, hout, anyIndexed_one, h.output.pending, Checked.ok_bind]
  split_ifs with hpending
  · simp [hpending]
  · simp [hpending, hroom]

theorem Rested.shouldStart_eq (hin : b.inputs = [p]) (hout : b.outputs = [q])
    (hlevel : ports.availableIn 0 = .ok level) :
    b.shouldStart ports = .ok (decide (q.spec.capacity - 1 - (T - D) ≠ 0) &&
      (decide (min level (p.spec.capacity - 1 - (H - T)) ≠ 0) || !b.stalled &&
        (b.shouldRetry || decide (H - T ≠ 0)))) := by
  have hspace : b.hasOutputSpace = .ok (decide (q.spec.capacity - 1 - (T - D) ≠ 0)) := by
    rw [hasOutputSpace, if_neg (by simp [hout]), hout, anyIndexed_one, h.deviceFree_eq]
    rfl
  have hsend : b.canSendInput ports = .ok (decide (min level (p.spec.capacity - 1 - (H - T)) ≠ 0)) := by
    rw [canSendInput, hin, anyIndexed_one]
    simp [stageable, hlevel, h.input.free]
  have hleft : b.inputOnDevice = .ok (decide (H - T ≠ 0)) := by
    rw [inputOnDevice, hin, anyIndexed_one, h.input.pending]
    rfl
  simp only [shouldStart, hspace, hsend, hleft, Checked.ok_bind]
  generalize decide (q.spec.capacity - 1 - (T - D) ≠ 0) = space
  generalize decide (min level (p.spec.capacity - 1 - (H - T)) ≠ 0) = send
  cases space <;> cases send <;> cases b.stalled <;> cases b.shouldRetry <;> rfl

/-- a launch is made only if an output slot is free on the device -/
theorem Rested.room_of_shouldStart (hin : b.inputs = [p]) (hout : b.outputs = [q])
    (hlevel : ports.availableIn 0 = .ok level) (hstart : b.shouldStart ports = .ok true) :
    T - D < q.spec.capacity - 1 := by
  have htrue := Except.ok.inj ((h.shouldStart_eq hin hout hlevel).symm.trans hstart)
  have hspace := of_decide_eq_true (Bool.and_eq_true_iff.1 htrue).1
  omega

end

/-- with room downstream, nothing is left to take and everything taken has been handed on -/
def Exhausted (ports : Ports) (H D : Nat) : Prop :=
  ∀ room, ports.availableOut 0 = .ok room → 0 < room → ports.availableIn 0 = .ok 0 ∧ D = H

/-- a rest that gives no reason to go on -/
theorem Rested.exhausted (h : Rested perCall tokenSize X T H D m p q) (hin : b.inputs = [p]) (hout : b.outputs = [q])
    (hstalled : b.stalled = true → T = H) (hlevel : ports.availableIn 0 = .ok level)
    (hwrite : b.canWriteToOutput ports = .ok false) (hstart : b.shouldStart ports = .ok false) :
    Exhausted ports H D := by
  intro room hroom hpos
  have hinSlots := h.paired.inSlots
  have houtSlots := h.paired.outSlots
  have hord := h.output.order.1
  -- everything passed on has been handed on, so the output ring of the device is empty
  have hDT : T - D = 0 := by
    have hfalse := Except.ok.inj ((h.canWrite_eq hout hroom).symm.trans hwrite)
    simp only [decide_eq_false_iff_not, not_and_or, not_not] at hfalse
    omega
  have hfalse := Except.ok.inj ((h.shouldStart_eq hin hout hlevel).symm.trans hstart)
  have hspace : decide (q.spec.capacity - 1 - (T - D) ≠ 0) = true := decide_eq_true (by omega)
  rw [hspace, Bool.true_and, Bool.or_eq_false_iff] at hfalse
  obtain ⟨hfits, hmore⟩ := hfalse
  have hTH : T = H := by
    cases hb : b.stalled with
    | true => exact hstalled hb
    | false =>
      rw [hb, Bool.not_false, Bool.true_and, Bool.or_eq_false_iff] at hmore
      have hleft := h.input.order.1
      have := of_decide_eq_false hmore.2
      omega
  have hfits := of_decide_eq_false hfits
  have hempty : level = 0 := by omega
  exact ⟨by rw [hlevel, hempty], by omega⟩

end Conditions

/-! ## The way to go -/

section Bounds

variable {δ : Type} {b b' b'' : Bridge δ} {ports ports' : Ports} {T H D T' H' D' T'' H'' D'' : Nat}

/-- a bound on the steps to come, if `total` tokens come in all -/
def stepsLeft (b : Bridge δ) (total T H D : Nat) : Nat :=
  6 * (total - T) + (total - D) + 3 * b.shouldRetry.toNat +
    match b.phase with
    | .init => 1
    | .pollKernel => if T = H then 3 else 0
    | .pollRead => 2

/-- something has been done -/
structure Nearer (b b' : Bridge δ) (T H D T' H' D' : Nat) : Prop where
  taken : H ≤ H'
  left : ∀ total, H' ≤ total → b'.stepsLeft total T' H' D' < b.stepsLeft total T H D

theorem Nearer.trans (h : Nearer b b' T H D T' H' D') (h' : Nearer b' b'' T' H' D' T'' H'' D'') :
    Nearer b b'' T H D T'' H'' D'' :=
  ⟨h.taken.trans h'.taken, fun total htotal => (h'.left total htotal).trans (h.left total (h'.taken.trans htotal))⟩

/-- nothing has been done, though the device may have got on -/
structure Unmoved (b b' : Bridge δ) (ports ports' : Ports) (T H D T' H' D' : Nat) : Prop where
  ports : ports' = ports
  passed : T' = T
  taken : H' = H
  handed : D' = D
  left : ∀ total, b'.stepsLeft total T' H' D' = b.stepsLeft total T H D

theorem Unmoved.trans {ports'' : Ports} (h : Unmoved b b' ports ports' T H D T' H' D')
    (h' : Unmoved b' b'' ports' ports'' T' H' D' T'' H'' D'') : Unmoved b b'' ports ports'' T H D T'' H'' D'' :=
  ⟨h'.ports.trans h.ports, h'.passed.trans h.passed, h'.taken.trans h.taken, h'.handed.trans h.handed,
    fun total => (h'.left total).trans (h.left total)⟩

theorem Nearer.unmoved (h : Nearer b b' T H D T' H' D') (h' : Unmoved b' b'' ports ports' T' H' D' T'' H'' D'') :
    Nearer b b'' T H D T'' H'' D'' :=
  ⟨h'.taken ▸ h.taken, fun total htotal => by rw [h'.left]; exact h.left total (h'.taken ▸ htotal)⟩

theorem Unmoved.nearer (h : Unmoved b b' ports ports' T H D T' H' D') (h' : Nearer b' b'' T' H' D' T'' H'' D'') :
    Nearer b b'' T H D T'' H'' D'' :=
  ⟨h.taken ▸ h'.taken, fun total htotal => by rw [← h.left]; exact h'.left total htotal⟩

theorem nearer_handed (hinit : b.phase = .init) (hinit' : b'.phase = .init) (hretry : b'.shouldRetry = b.shouldRetry)
    (hD : D < D') (hDH : D' ≤ H) : Nearer b b' T H D T H D' := by
  refine ⟨le_rfl, fun total htotal => ?_⟩
  simp only [stepsLeft, hinit, hinit', hretry]
  omega

/-- a launch that does not see all it is told to take has a reason to retry no more -/
theorem nearer_launched (hinit : b.phase = .init) (hphase : b'.phase = .pollKernel) (hretry : b'.shouldRetry = false)
    (hH : H ≤ H') (hidle : T = H' → b.shouldRetry = true) : Nearer b b' T H D T H' D := by
  refine ⟨hH, fun total _ => ?_⟩
  simp only [stepsLeft, hinit, hphase, hretry, Bool.toNat_false]
  split_ifs with hTH
  · rw [hidle hTH, Bool.toNat_true]
    omega
  · omega

theorem nearer_booked {n : Nat} (hphase : b.phase = .pollKernel) (hphase' : b'.phase = .pollRead) (hn : T + n ≤ H)
    (hidle : n = 0 → T + n = H) (hretry : b'.shouldRetry = true → b.shouldRetry = true ∨ n ≠ 0) :
    Nearer b b' T H D (T + n) H D := by
  refine ⟨le_rfl, fun total htotal => ?_⟩
  have hbit : b'.shouldRetry.toNat ≤ 1 := Bool.toNat_le _
  simp only [stepsLeft, hphase, hphase']
  split_ifs with hTH
  · have hkept : b'.shouldRetry.toNat ≤ b.shouldRetry.toNat := by
      cases hr : b'.shouldRetry with
      | false => exact Nat.zero_le _
      | true => rw [(hretry hr).resolve_right (by omega)]
    omega
  · omega

theorem nearer_collected (hphase : b.phase = .pollRead) (hinit : b'.phase = .init)
    (hretry : b'.shouldRetry = b.shouldRetry) (hD : D ≤ D') : Nearer b b' T H D T H D' := by
  refine ⟨le_rfl, fun total _ => ?_⟩
  simp only [stepsLeft, hphase, hinit, hretry]
  omega

end Bounds

/-! ## Steps -/

section Steps

variable {δ : Type} [Device δ] {core : δ → Accelerator StockKernel} {perCall tokenSize : Nat} {N : Cabling}
  {b : Bridge δ} {ports : Ports} {X : Bytes} {T H D : Nat}

/-- an echo bridge during a call -/
structure Running (core : δ → Accelerator StockKernel) (perCall tokenSize : Nat) (N : Cabling) (b : Bridge δ)
    (ports : Ports) (X : Bytes) (T H D : Nat) : Prop where
  echoing : Echoing perCall tokenSize core b X T H D
  taken : N.Taken tokenSize ports X
  handed : N.Handed tokenSize ports (X.take (D * tokenSize))

section

variable (h : Running core perCall tokenSize N b ports X T H D)

include h

omit [Device δ] in
theorem Running.levelled (hphase : b.phase = .init) : b.Levelled ports := by
  obtain ⟨p, q, m, hin, hout, -, -, -, hr⟩ := h.echoing.rested hphase
  obtain ⟨-, ⟨e, r, c, v, l, hdraws, -⟩, ⟨e', c', v', l', hfills, -⟩, -⟩ := h
  refine ⟨fun {j p'} hp => ?_, fun {o p'} hp => ?_⟩
  · obtain ⟨rfl, rfl⟩ : j = 0 ∧ p = p' := by simpa [hin, List.getElem?_singleton, and_comm] using hp
    have hstage : stageable p ports 0 = .ok (min v.available (p.spec.capacity - 1 - (H - T))) := by
      simp [stageable, hdraws.availableIn, hr.input.free]
    exact ⟨⟨_, hr.input.pending⟩, _, hstage⟩
  · obtain ⟨rfl, rfl⟩ : o = 0 ∧ q = p' := by simpa [hout, List.getElem?_singleton, and_comm] using hp
    exact ⟨⟨_, hr.output.pending⟩, ⟨_, hr.deviceFree_eq⟩, _, hfills.availableOut⟩

theorem Running.guard (hcore : Device.Paces core) :
    Yields guardFailures (b, ports) fun _ s' => ∃ b', s' = (b', ports) ∧
      Running core perCall tokenSize N b' ports X T H D ∧ (core b.device).Later (core b'.device) ∧
      Unmoved b b' ports ports T H D T H D := by
  obtain ⟨⟨hfailed, p, q, m, P, hin, hout, hd, hstage⟩, ht, hh⟩ := h
  obtain ⟨hkernel, hports⟩ := hstage.inFlight
  refine (guard_yields hcore hd hkernel (by rw [hin, hout]; exact hports)).mono ?_
  rintro - _ ⟨d, rfl, hd⟩
  exact ⟨_, rfl, ⟨⟨hfailed, p, q, m, P, hin, hout, hd.owes, hstage.withDevice d⟩, ht, hh⟩, hd.later,
    ⟨rfl, rfl, rfl, rfl, fun _ => rfl⟩⟩

omit [Device δ] in
theorem Running.freeUp (hphase : b.phase = .init)
    (hwrite : b.canWriteToOutput ports = .ok true) :
    Yields freeUpOutputs (b, ports) fun _ s' => ∃ D', Running core perCall tokenSize N s'.1 s'.2 X T H D' ∧
      s'.1.device = b.device ∧ Nearer b s'.1 T H D T H D' := by
  obtain ⟨p, q, m, hin, hout, hk, hstalled, hd, hr⟩ := h.echoing.rested hphase
  obtain ⟨⟨e, c, v, l, hfills, -⟩, -⟩ := id h.handed
  obtain ⟨hpending, hroom⟩ :=
    of_decide_eq_true (Except.ok.inj ((hr.canWrite_eq hout hfills.availableOut).symm.trans hwrite))
  have hh : N.Handed tokenSize ports ((X.take (T * tokenSize)).take (D * tokenSize)) := by
    rw [take_handed hr.output.order.1]
    exact h.handed
  rw [← put_self hin hout]
  refine (hand_yields hr.output hr.paired.outSize h.taken hh).mono ?_
  rintro - _ ⟨taken, stalled, ports', htaken, rfl, hstalled', hs, ht, hh⟩
  rw [take_handed hs.order.1] at hh
  have hpos : taken = min (T - D) v.available := htaken _ hfills.availableOut
  have hTH := hr.input.order.1
  refine ⟨D + taken, ⟨⟨h.echoing.1, p, q.handedOn D taken, m, [], rfl, rfl, hd, ?_⟩, ht, hh⟩, rfl,
    nearer_handed hphase hphase rfl (by omega) (by omega)⟩
  exact .init hphase hk (fun h => hstalled (hstalled' h)) (hr.handedOn hs)

theorem Running.startKernel (hcore : Device.Paces core)
    (hphase : b.phase = .init) (hstart : b.shouldStart ports = .ok true) :
    Yields startKernel (b, ports) fun _ s' => (core b.device).Later (core s'.1.device) ∧ ∃ X' H', ∀ profile,
      Running core perCall tokenSize N { s'.1 with phase := .pollKernel, profile } s'.2 X' T H' D ∧
        Nearer b { s'.1 with phase := .pollKernel, profile } T H D T H' D := by
  obtain ⟨p, q, m, hin, hout, -, -, hd, hr⟩ := h.echoing.rested hphase
  obtain ⟨e, r, c, v, l, hdraws, -⟩ := id h.taken
  have hroom := hr.room_of_shouldStart hin hout hdraws.availableIn hstart
  rw [← put_self hin hout]
  refine (hr.startKernel_yields hcore hroom hd h.taken h.handed).mono ?_
  rintro - _ ⟨b', more, n0, n, e, m', P, p', q', d', ports', hn0, rfl, hk, hfailed, hretry, hl, hd', ht, hh⟩
  have hTH := hr.input.order.1
  refine ⟨hd'.later, X ++ more, H + n0, fun _ =>
    ⟨⟨⟨hfailed.trans h.echoing.1, p', q', m', P, rfl, rfl, hd'.owes, .pollKernel rfl hk hl⟩, ht, ?_⟩,
      nearer_launched hphase rfl hretry (Nat.le_add_right H n0) fun hidle => ?_⟩⟩
  · rw [List.take_append_of_le_length]
    · exact hh
    · rw [hr.input.length, hr.paired.size]
      exact Nat.mul_le_mul_right _ (le_trans hr.output.order.1 hr.input.order.1)
  · -- a launch without input, on the device or upstream, is one that was to be retried
    have htrue := Except.ok.inj ((hr.shouldStart_eq hin hout hdraws.availableIn).symm.trans hstart)
    have hnothing : min v.available (p.spec.capacity - 1 - (H - T)) = 0 := by
      rw [← hn0 _ hdraws.availableIn]
      omega
    have hempty : H - T = 0 := by omega
    rw [hnothing, hempty] at htrue
    simp only [ne_eq, not_true_eq_false, decide_false, Bool.false_or, Bool.or_false] at htrue
    exact (Bool.and_eq_true_iff.1 (Bool.and_eq_true_iff.1 htrue).2).2

omit [Device δ] in
theorem Running.exhausted (hphase : b.phase = .init) (hwrite : b.canWriteToOutput ports = .ok false)
    (hstart : b.shouldStart ports = .ok false) : Exhausted ports H D := by
  obtain ⟨p, q, m, hin, hout, -, hstalled, -, hr⟩ := h.echoing.rested hphase
  obtain ⟨e, r, c, v, l, hdraws, -⟩ := h.taken
  exact hr.exhausted hin hout hstalled hdraws.availableIn hwrite hstart

end

/-- what a step comes to: something is done, or nothing; and nothing between two rounds only if nothing is left -/
inductive Stepped (core : δ → Accelerator StockKernel) (mayLaunch : Bool) (b b' : Bridge δ) (ports ports' : Ports)
    (T H D T' H' D' : Nat) : Bool → Prop where
  | did (later : (core b.device).Later (core b'.device)) (nearer : Nearer b b' T H D T' H' D') :
      Stepped core mayLaunch b b' ports ports' T H D T' H' D' true
  | nothing (later : (core b.device).Later (core b'.device)) (unmoved : Unmoved b b' ports ports' T H D T' H' D')
      (resting : (core b.device).mode = .immediate → b'.phase = .init)
      (exhausted : mayLaunch = true → b'.phase = .init → Exhausted ports' H' D') :
      Stepped core mayLaunch b b' ports ports' T H D T' H' D' false

theorem step_running (hcore : Device.Paces core) (hk : 1 ≤ perCall) (mayLaunch : Bool)
    (h : Running core perCall tokenSize N b ports X T H D) :
    Yields (step mayLaunch) (b, ports) fun a s' => ∃ X' T' H' D',
      Running core perCall tokenSize N s'.1 s'.2 X' T' H' D' ∧
      Stepped core mayLaunch b s'.1 ports s'.2 T H D T' H' D' a.isSome := by
  refine ends_bind ((h.guard hcore).mono ?_)
  rintro - _ ⟨b1, rfl, h1, hlater, hsame⟩
  refine ends_bind (ends_get ?_)
  obtain ⟨⟨hfailed, p, q, m, P, hin, hout, hd, hstage⟩, ht, hh⟩ := id h1
  cases id hstage with
  | init hphase =>
    simp only [hphase]
    obtain ⟨canWrite, hwrite⟩ := canWriteToOutput_ok (h1.levelled hphase)
    refine ends_bind (ends_ok hwrite ?_)
    cases canWrite with
    | true =>
      refine ends_bind ((h1.freeUp hphase hwrite).mono ?_)
      rintro - s' ⟨D', h', hdevice, hnearer⟩
      exact ends_pure ⟨X, T, H, D', h', .did (by rw [hdevice]; exact hlater) (hsame.nearer hnearer)⟩
    | false =>
      cases mayLaunch with
      | false => exact ends_pure ⟨X, T, H, D, h1, .nothing hlater hsame (fun _ => hphase) fun hmay => by cases hmay⟩
      | true =>
        obtain ⟨start, hstart⟩ := shouldStart_ok (h1.levelled hphase)
        refine ends_bind (ends_ok hstart ?_)
        cases start with
        | false =>
          exact ends_pure ⟨X, T, H, D, h1,
            .nothing hlater hsame (fun _ => hphase) fun _ _ => h1.exhausted hphase hwrite hstart⟩
        | true =>
          refine ends_bind ((h1.startKernel hcore hphase hstart).mono ?_)
          rintro - s' ⟨hlater', X', H', h'⟩
          obtain ⟨hrunning, hnearer⟩ := h' _
          exact ends_bind (ends_modify (ends_pure
            ⟨X', T, H', D, hrunning, .did (hlater.trans hlater') (hsame.nearer hnearer)⟩))
  | pollKernel hphase hk0 hl =>
    simp only [hphase]
    rw [← put_self hin hout]
    refine ends_bind ((hl.kernelFinished_yields hcore hk0 hd).mono ?_)
    rintro a _ ⟨⟨d1, rfl, hd1, hdone⟩, hbusy⟩
    cases a with
    | false =>
      exact ends_pure ⟨X, T, H, D, ⟨⟨hfailed, p, q, m, P, rfl, rfl, hd1.owes, .pollKernel hphase hk0 hl⟩, ht, hh⟩,
        .nothing (hlater.trans hd1.later) (hsame.trans ⟨rfl, rfl, rfl, rfl, fun _ => rfl⟩)
        (fun hmode => absurd (hlater.mode.trans hmode) (hbusy rfl)) fun _ hinit => by cases hphase.symm.trans hinit⟩
    | true =>
      refine ends_bind ((hl.updateIndices_yields hcore hk hd1.owes (hdone rfl)).mono ?_)
      rintro - _ ⟨b', P', p', q', d', rfl, hk', hfailed', hstalled', hretry', hf, hd'⟩
      exact ends_bind (ends_modify (ends_pure
        ⟨X, _, H, D,
          ⟨⟨hfailed'.trans hfailed, p', q', m, P', rfl, rfl, hd'.owes, .pollRead rfl hk' hstalled' hf⟩, ht, hh⟩,
          .did ((hlater.trans hd1.later).trans hd'.later)
          (hsame.nearer (nearer_booked hphase rfl hl.bounds.1 (hl.idle hk) hretry'))⟩))
  | pollRead hphase hk0 hstalled hf =>
    simp only [hphase]
    rw [← put_self hin hout]
    refine ends_bind ((hf.readsFinished_yields hcore hd).mono ?_)
    rintro a _ ⟨⟨d1, rfl, hd1, hdone⟩, hbusy⟩
    cases a with
    | false =>
      exact ends_pure
        ⟨X, T, H, D, ⟨⟨hfailed, p, q, m, P, rfl, rfl, hd1.owes, .pollRead hphase hk0 hstalled hf⟩, ht, hh⟩,
        .nothing (hlater.trans hd1.later) (hsame.trans ⟨rfl, rfl, rfl, rfl, fun _ => rfl⟩)
        (fun hmode => absurd (hlater.mode.trans hmode) (hbusy rfl)) fun _ hinit => by cases hphase.symm.trans hinit⟩
    | true =>
      refine ends_bind ((hf.collect_yields hcore hd1.owes (hdone rfl) ht hh).mono ?_)
      rintro - _ ⟨D', stalled, q', d', ports', rfl, hstalled', hD, hr, hd', ht', hh'⟩
      exact ends_bind (ends_modify (ends_pure
        ⟨X, T, H, D',
          ⟨⟨hfailed, p, q', m, [], rfl, rfl, hd'.owes, .init rfl hk0 (fun h => hstalled (hstalled' h)) hr⟩, ht', hh'⟩,
          .did ((hlater.trans hd1.later).trans hd'.later) (hsame.nearer (nearer_collected hphase rfl rfl hD))⟩))

/-! ## Calls -/

/-- how `n` steps of a call end, after `fired` that were done before -/
inductive Halts (core : δ → Accelerator StockKernel) (n fired : Nat) (mayLaunch : Bool) (b b' : Bridge δ)
    (ports ports' : Ports) (T H D T' H' D' : Nat) : Exit → Prop where
  | went (nearer : Nearer b b' T H D T' H' D') : Halts core n fired mayLaunch b b' ports ports' T H D T' H' D' .yield
  | waits (unmoved : Unmoved b b' ports ports' T H D T' H' D')
      (busy : fired = 0 → 0 < n → (core b.device).mode ≠ .immediate) :
      Halts core n fired mayLaunch b b' ports ports' T H D T' H' D' .yield
  | blocks (blocked : List Blocked) (unmoved : Unmoved b b' ports ports' T H D T' H' D') (fresh : fired = 0)
      (phase : b'.phase = .init) (exhausted : mayLaunch = true → 0 < n → Exhausted ports' H' D') :
      Halts core n fired mayLaunch b b' ports ports' T H D T' H' D' (.block blocked)

theorem stepLoop_running (hcore : Device.Paces core) (hk : 1 ≤ perCall) (n fired : Nat) (mayLaunch : Bool)
    (b : Bridge δ) (ports : Ports) (X : Bytes) (T H D : Nat) (h : Running core perCall tokenSize N b ports X T H D) :
    ∃ b' ports' exit X' T' H' D', stepLoop n fired mayLaunch b ports = ⟨b', ports', .ok exit⟩ ∧
      Running core perCall tokenSize N b' ports' X' T' H' D' ∧ (core b.device).Later (core b'.device) ∧
      Halts core n fired mayLaunch b b' ports ports' T H D T' H' D' exit := by
  induction n generalizing fired mayLaunch b ports X T H D with
  | zero =>
    obtain ⟨exit, hexit, hrest⟩ := restingExit_ok fired h.levelled
    refine ⟨b, ports, exit, X, T, H, D, by rw [stepLoop, hexit], h, .refl _, ?_⟩
    rcases hrest with ⟨hphase, hfired, blocked, rfl⟩ | ⟨-, rfl⟩
    · exact .blocks blocked ⟨rfl, rfl, rfl, rfl, fun _ => rfl⟩ hfired hphase fun _ hpos => absurd hpos (lt_irrefl 0)
    · exact .waits ⟨rfl, rfl, rfl, rfl, fun _ => rfl⟩ fun _ hpos => absurd hpos (lt_irrefl 0)
  | succ n ih =>
    obtain ⟨answer, ⟨b1, ports1⟩, hstep, X1, T1, H1, D1, h1, hstepped⟩ := (step_running hcore hk mayLaunch h).exec
    cases answer with
    | none =>
      obtain ⟨exit, hexit, hrest⟩ := restingExit_ok fired h1.levelled
      cases hstepped with
      | nothing hlater hunmoved hresting hexhausted =>
        refine ⟨b1, ports1, exit, X1, T1, H1, D1, by simp only [stepLoop, hstep, hexit], h1, hlater, ?_⟩
        rcases hrest with ⟨hphase, hfired, blocked, rfl⟩ | ⟨hbusy, rfl⟩
        · exact .blocks blocked hunmoved hfired hphase fun hmay _ => hexhausted hmay hphase
        · exact .waits hunmoved fun hfired _ himmediate => hbusy ⟨hresting himmediate, hfired⟩
    | some action =>
      have hfire : Running core perCall tokenSize N b1 (ports1.fire action.number) X1 T1 H1 D1 := by
        obtain ⟨hecho, ⟨e, r, c, v, l, hdraws, hrest⟩, ⟨e', c', v', l', hfills, hrest'⟩, hothers⟩ := h1
        exact ⟨hecho, ⟨e, r, c, v, l, { hdraws with }, hrest⟩,
          ⟨e', c', v', l', { hfills with }, hrest'⟩, hothers⟩
      obtain ⟨b', ports', exit, X', T', H', D', hloop, h', hlater', hrests⟩ :=
        ih (fired + 1) (mayLaunch && action != .startKernel) b1 _ X1 T1 H1 D1 hfire
      cases hstepped with
      | did hlater hnearer =>
        refine ⟨b', ports', exit, X', T', H', D', by simp only [stepLoop, hstep, hloop], h', hlater.trans hlater', ?_⟩
        cases hrests with
        | went hnearer' => exact .went (hnearer.trans hnearer')
        | waits hunmoved => exact .went (hnearer.unmoved hunmoved)
        | blocks blocked _ hfresh => exact absurd hfresh (Nat.succ_ne_zero fired)

/-- a call does not fail. It blocks only between two rounds, with its ports untouched, and, with room downstream, when
nothing is left to do -/
theorem act_running (hcore : Device.Paces core) (hk : 1 ≤ perCall) (maxLoops : Nat)
    (h : Running core perCall tokenSize N b ports X T H D) :
    ∃ b' ports' exit X' T' H' D', b.act maxLoops ports = ⟨b', ports', .ok exit⟩ ∧
      Running core perCall tokenSize N b' ports' X' T' H' D' ∧ (core b.device).Later (core b'.device) ∧
      Halts core maxLoops 0 true b b' ports ports' T H D T' H' D' exit := by
  have hfailed : b.failed = false := h.echoing.1
  rw [act, if_neg (by rw [hfailed]; exact Bool.false_ne_true)]
  exact stepLoop_running hcore hk maxLoops 0 true b ports X T H D h

end Steps

end Bridge

end Dataflow
