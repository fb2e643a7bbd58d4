import Dataflow.Proofs.DeviceJournal
import Dataflow.Proofs.ProfileBooks

/-!
No launch is futile.

- `Bridge.no_futile_launch`: whatever launch a call submits, there is room for output on the device, and if the last
  finished call consumed and produced nothing, a token has been handed on since that call was booked, or the launch
  stages a new one (`Bridge.Worthwhile`, `Bridge.Justified`).
- Witness `Bridge.no_futile_launch_another_token`.

Premises: a history from the creation on, over any device with a journal. Launches are taken from the journal, so those
of a step that stops afterwards count as well.
-/

namespace Dataflow

open List Step Step.Way

/-! ## Launches in the journal -/

namespace Device.Journal

variable {δ : Type} [Device δ] {J : Device.Journal δ} {P Q : KernelArgs → Prop} {d d' d'' : δ}

/-- from `d` to `d'`, only launches with such arguments were submitted -/
def Launched (J : Device.Journal δ) (P : KernelArgs → Prop) (d d' : δ) : Prop :=
  ∃ posted, J.log d' = J.log d ++ posted ∧ ∀ {args answer}, ⟨.launch args, answer⟩ ∈ posted → P args

theorem Launched.mono (h : J.Launched P d d') (hPQ : ∀ args, P args → Q args) : J.Launched Q d d' := by
  obtain ⟨posted, hlog, hargs⟩ := h
  exact ⟨posted, hlog, fun hmem => hPQ _ (hargs hmem)⟩

theorem Launched.trans (h : J.Launched P d d') (h' : J.Launched P d' d'') : J.Launched P d d'' := by
  obtain ⟨first, hfirst, hargs⟩ := h
  obtain ⟨second, hsecond, hargs'⟩ := h'
  exact ⟨first ++ second, by rw [hsecond, hfirst, append_assoc], fun hmem => (mem_append.1 hmem).elim hargs hargs'⟩

theorem launched_refl (d : δ) : J.Launched P d d := ⟨[], by simp, fun hmem => absurd hmem not_mem_nil⟩

theorem Asked.launched {R : Prop} (h : J.Asked 0 R d d') : J.Launched P d d' := by
  obtain ⟨posted, hlog, hcount, -⟩ := h
  refine ⟨posted, hlog, fun hmem => absurd hcount ?_⟩
  exact not_le.2 (countP_pos_iff.2 ⟨_, hmem, rfl⟩)

theorem launched_submit {args : KernelArgs} (h : P args) (d : δ) :
    J.Launched P d ((Device.submit (.launch args) : Step DeviceError δ EventId).exec d).2 := by
  refine ⟨_, J.submit _ d, fun hmem => ?_⟩
  cases mem_singleton.1 hmem
  exact h

/-- everything that was submitted is what this says -/
theorem Launched.of_log {posted : List Submission} (h : J.Launched P d d') (hlog : J.log d' = J.log d ++ posted)
    {args : KernelArgs} {answer : Except (Stop DeviceError) EventId}
    (hmem : ⟨.launch args, answer⟩ ∈ posted) : P args := by
  obtain ⟨posted', hlog', hargs⟩ := h
  cases append_cancel_left (hlog.symm.trans hlog')
  exact hargs hmem

end Device.Journal

/-! ## What a launch is good for -/

/-- the device has room for output somewhere, or there is none to make -/
def KernelArgs.HasRoom (args : KernelArgs) : Prop :=
  args.outputs = [] ∨ ∃ ring ∈ args.outputs, ∃ free,
    Indices.freeSpace ring.head ring.tail ring.capacity = .ok free ∧ free ≠ 0

namespace Bridge

open BridgePort Device.Journal

variable {δ : Type} {actions : List (Taken δ)} {action : BridgeAction}

/-- a launch with these arguments brings a token along that had not been staged before -/
def Feeds (b : Bridge δ) (args : KernelArgs) : Prop :=
  ∃ (i : Nat) (p : BridgePort) (ring : PortArgs), b.inputs[i]? = some p ∧ args.inputs[i]? = some ring ∧
    Indices.distance p.host.head ring.head p.spec.capacity ≠ 0

/-- there is room for output, and a bridge that has stalled has new input -/
structure Worthwhile (b : Bridge δ) (args : KernelArgs) : Prop where
  room : args.HasRoom
  feeds : b.stalled = true → b.Feeds args

section Conditions

variable {α : Type} {test : Nat → α → Checked Bool} {xs : List α} {i : Nat} {b : Bridge δ} {ports : Ports}

theorem exists_of_anyIndexed (h : anyIndexed test i xs = .ok true) :
    ∃ k a, xs[k]? = some a ∧ test (i + k) a = .ok true := by
  induction xs generalizing i with
  | nil => cases h
  | cons a rest ih =>
    obtain ⟨answer, hanswer, h⟩ := bind_eq_ok h
    cases answer with
    | true => exact ⟨0, a, rfl, hanswer⟩
    | false =>
      obtain ⟨k, a', hk, htest⟩ := ih h
      exact ⟨k + 1, a', hk, by rw [← htest]; congr 1; omega⟩

theorem exists_of_ne_zero {x : Checked Nat} (h : (do return (← x) ≠ 0 : Checked Bool) = .ok true) :
    ∃ n, x = .ok n ∧ n ≠ 0 := by
  obtain ⟨n, hn, h⟩ := bind_eq_ok h
  exact ⟨n, hn, by simpa using h⟩

theorem hasRoom_of_hasOutputSpace (h : b.hasOutputSpace = .ok true) (inputs : List PortArgs) :
    KernelArgs.HasRoom ⟨inputs, b.outputs.map kernelArgs⟩ := by
  unfold hasOutputSpace at h
  split at h
  · next hempty => exact .inl (by simpa using hempty)
  · obtain ⟨o, p, hp, htest⟩ := exists_of_anyIndexed h
    obtain ⟨free, hfree, hne⟩ := exists_of_ne_zero htest
    exact .inr ⟨p.kernelArgs, mem_map_of_mem (mem_of_getElem? hp), free, hfree, hne⟩

/-- a step launches if there is room for output, and new input or no stall -/
theorem of_shouldStart (h : b.shouldStart ports = .ok true) :
    b.hasOutputSpace = .ok true ∧ (b.canSendInput ports = .ok true ∨ b.stalled = false) := by
  obtain ⟨space, hspace, h⟩ := bind_eq_ok h
  cases space with
  | false => cases h
  | true =>
    refine ⟨hspace, ?_⟩
    obtain ⟨send, hsend, h⟩ := bind_eq_ok h
    cases send with
    | true => exact .inl hsend
    | false =>
      cases hstalled : b.stalled with
      | false => exact .inr rfl
      | true =>
        rw [hstalled] at h
        cases h

end Conditions

/-! ## Steps -/

section Steps

variable [Device δ] {J : Device.Journal δ} {b : Bridge δ} {ports : Ports} {P : KernelArgs → Prop}

/-- however it ends, an operation submits only such launches after `d` -/
def Launches {α : Type} (J : Device.Journal δ) (P : KernelArgs → Prop) (d : δ) (op : Op δ α)
    (s : Bridge δ × Ports) : Prop :=
  Ends op s (fun _ s' => J.Launched P d s'.1.device) fun _ s' => J.Launched P d s'.1.device

/-- an operation that submits no launch -/
theorem launched_of_follows {α : Type} {op : Op δ α} (h : Follows (deviceTrail J.trail) op 0) (s : Bridge δ × Ports) :
    Launches J P s.1.device op s :=
  (h s).imp (fun _ _ hasked => hasked.launched) fun _ _ hasked => hasked.launched

/-- an operation that submits no launch, and then more -/
theorem ends_bind_launched {α β : Type} {op : Op δ α} {f : α → Op δ β} {d : δ} {s : Bridge δ × Ports}
    {R : α → Bridge δ × Ports → Prop} (h : J.Launched P d s.1.device) (hop : Follows (deviceTrail J.trail) op 0)
    (hgives : Gives op s R) (hf : ∀ a s', R a s' → J.Launched P d s'.1.device → Launches J P d (f a) s') :
    Launches J P d (op >>= f) s :=
  ends_bind (((launched_of_follows hop s).and hgives).imp (fun a s' h' => hf a s' h'.2 (h.trans h'.1))
    fun _ _ h' => h.trans h'.1)

theorem launched_onDevice {args : KernelArgs} (h : P args) (s : Bridge δ × Ports) :
    Launches J P s.1.device (onDevice (Device.submit (.launch args))) s := by
  refine ends_zoom ?_
  have hlaunched := launched_submit (J := J) h s.1.device
  unfold Ends
  split
  · next hexec => rwa [hexec] at hlaunched
  · next hexec => rwa [hexec] at hlaunched

/-- a launch, where the conditions for it hold -/
theorem startKernel_launches (hin : ∀ p ∈ b.inputs, p.Bounded ∧ p.Quiet)
    (hwords : ∀ spec ∈ b.inputs.map (·.spec), spec.capacity < Word.size32) (hfits : b.Fits ports)
    (hstart : b.shouldStart ports = .ok true) : Launches J b.Worthwhile b.device startKernel (b, ports) := by
  obtain ⟨hspace, hcause⟩ := of_shouldStart hstart
  refine ends_bind (ends_modify ?_)
  refine ends_theBridge ?_
  have hsend : Ends ((range b.inputs.length).forM sendInput) ({ b with shouldRetry := false }, ports) _ _ :=
    sendInputs_move (F := True) (b := { b with shouldRetry := false }) hin (fun _ => hfits) (Device.Terms.loose_owes _)
  refine ends_bind_launched (launched_refl _)
    (follows_forM fun i _ => follows_sendInput i) (hsend.imp (fun _ _ h => h) fun _ _ _ => trivial) ?_
  rintro - ⟨b1, ports1⟩ ⟨hout1, -, hin1⟩ hlaunched1
  refine ends_theBridge ?_
  have hworth : b.Worthwhile ⟨b1.inputs.map kernelArgs, b1.outputs.map kernelArgs⟩ := by
    refine ⟨by rw [hout1]; exact hasRoom_of_hasOutputSpace hspace _, fun hstalled => ?_⟩
    obtain ⟨i, p, hp, htest⟩ := exists_of_anyIndexed (hcause.resolve_right (by simp [hstalled]))
    obtain ⟨n, hn, hne⟩ := exists_of_ne_zero htest
    rw [Nat.zero_add] at hn
    obtain ⟨q, hq, hsent, hstaged⟩ := hin1.after hp
    refine ⟨i, p, q.kernelArgs, hp, by rw [getElem?_map, hq]; rfl, ?_⟩
    have hhead : q.kernelArgs.head = q.host.head := by rw [kernelArgs, hsent.moved.device]
    rw [hhead]
    cases hn.symm.trans (hstaged trivial (hwords _ (mem_map_of_mem (mem_of_getElem? hp))))
    exact hne
  refine ends_bind ((launched_onDevice hworth _).imp (fun kernel s2 hlaunched2 => ?_) fun _ _ h => hlaunched1.trans h)
  refine (launched_of_follows (follows_requests _ _ ?_) s2).imp (fun _ _ h => (hlaunched1.trans hlaunched2).trans h)
    fun _ _ h => (hlaunched1.trans hlaunched2).trans h
  exact fun _ => rfl

/-- a step launches only in `init`, and only where it is worth while -/
theorem step_launches (mayLaunch : Bool) (hb : b.Regular)
    (hwords : ∀ spec ∈ b.inputs.map (·.spec), spec.capacity < Word.size32) (hfits : b.Fits ports) :
    Launches J (fun args => b.phase = .init ∧ b.Worthwhile args) b.device (step mayLaunch) (b, ports) := by
  refine ends_bind_launched (launched_refl _) follows_guardFailures
    ((guardFailures_moves (Device.Terms.loose_owes _)).imp (fun _ _ h => h) fun _ _ _ => trivial) ?_
  rintro - ⟨b1, ports1⟩ ⟨d, hs1, -⟩ hguarded
  obtain ⟨hb1, rfl⟩ := Prod.mk.inj hs1
  have hb' : b1.Regular := hb1 ▸ hb.onDevice d
  have hfits' : b1.Fits ports1 := hb1 ▸ hfits
  have hwords' : ∀ spec ∈ b1.inputs.map (·.spec), spec.capacity < Word.size32 := hb1 ▸ hwords
  -- it is enough to describe the rest of the step
  suffices hrest : Launches J (fun args => b1.phase = .init ∧ b1.Worthwhile args) b1.device _ (b1, ports1) by
    have hsame : ∀ args, b1.phase = .init ∧ b1.Worthwhile args → b.phase = .init ∧ b.Worthwhile args := by
      rintro args ⟨hphase, hroom, hfeeds⟩
      rw [hb1] at hphase hfeeds
      exact ⟨hphase, hroom, hfeeds⟩
    exact hrest.imp (fun _ _ h => hguarded.trans (h.mono hsame)) fun _ _ h => hguarded.trans (h.mono hsame)
  refine ends_bind (ends_get ?_)
  dsimp only
  match hphase : b1.phase with
  | .init =>
    have hin : ∀ p ∈ b1.inputs, p.Bounded ∧ p.Quiet := by simpa only [hphase, InputRegular] using hb'.inputs
    refine ends_bind (ends_checked (fun canWrite _ => ?_) fun _ _ => launched_refl _)
    cases canWrite with
    | true => exact launched_of_follows (follows_freeUpOutputs.bind fun _ => follows_pure _) _
    | false =>
      cases mayLaunch with
      | false => exact ends_pure (launched_refl _)
      | true =>
        refine ends_bind (ends_checked (fun start hstart => ?_) fun _ _ => launched_refl _)
        cases start with
        | false => exact ends_pure (launched_refl _)
        | true =>
          refine ends_bind ((startKernel_launches (J := J) hin hwords' hfits' hstart).imp
            (fun _ s2 h => ?_) fun _ s2 h => ?_)
          · exact ends_bind (ends_modify (ends_pure (h.mono fun _ hworth => ⟨rfl, hworth⟩)))
          · exact h.mono fun _ hworth => ⟨rfl, hworth⟩
  | .pollKernel =>
    refine launched_of_follows (follows_kernelFinished.bind fun finished => ?_) _
    cases finished with
    | false => exact follows_pure _
    | true =>
      exact follows_updateIndices.bind fun _ => Follows.bind (follows_change fun _ => rfl) fun _ => follows_pure _
  | .pollRead =>
    refine launched_of_follows (follows_readsFinished.bind fun finished => ?_) _
    cases finished with
    | false => exact follows_pure _
    | true => exact follows_collect.bind fun _ => Follows.bind (follows_change fun _ => rfl) fun _ => follows_pure _

end Steps

/-! ## The history of a stall -/

/-- a call in which the kernel consumed and produced nothing -/
def Taken.MovedNothing (t : Taken δ) : Prop := (∀ n ∈ t.consumed, n = 0) ∧ ∀ n ∈ t.produced, n = 0

/-- `t` books the last finished call of a history, and `since` are all actions after it -/
structure LastFinished (history : List (Taken δ)) (t : Taken δ) (since : List (Taken δ)) : Prop where
  cut : ∃ earlier, history = earlier ++ t :: since
  finished : t.action = .updateIndices
  last : ∀ u ∈ since, u.action ≠ .updateIndices

/-- by output, tokens handed on from the staging ring -/
def Taken.handedOn (t : Taken δ) : List Nat := movement (·.host.tail) t.before.outputs t.after.outputs

/-- one of these actions has handed a token on -/
def AnyHandedOn (actions : List (Taken δ)) : Prop := ∃ u ∈ actions, ∃ n ∈ u.handedOn, n ≠ 0

/-- between two launches: if the last finished call moved nothing, the bridge has stalled, unless a token has left
since -/
def StalledIfIdle (b : Bridge δ) (history : List (Taken δ)) : Prop :=
  b.failed = false → b.phase ≠ .pollKernel →
    ∀ {t since}, LastFinished history t since → t.MovedNothing → b.stalled = true ∨ AnyHandedOn since

section History

variable {b b' : Bridge δ} {history since : List (Taken δ)} {t u : Taken δ} {ins outs : List LinkPort}

/-- after the booking of a call, that call is the last one -/
theorem LastFinished.of_booking (h : LastFinished (history ++ [u]) t since) (hu : u.action = .updateIndices) :
    t = u ∧ since = [] := by
  obtain ⟨⟨earlier, hcut⟩, -, hlast⟩ := h
  rcases eq_nil_or_concat since with rfl | ⟨init, v, rfl⟩
  · exact ⟨(append_inj_right' hcut rfl |> singleton_inj.1).symm, rfl⟩
  · rw [concat_eq_append, ← cons_append, ← append_assoc] at hcut
    have hv := singleton_inj.1 (append_inj_right' hcut rfl)
    exact absurd hu (hv ▸ hlast v (by simp))

/-- any other action comes after the last call -/
theorem LastFinished.of_other (h : LastFinished (history ++ [u]) t since) (hu : u.action ≠ .updateIndices) :
    ∃ before, since = before ++ [u] ∧ LastFinished history t before := by
  obtain ⟨⟨earlier, hcut⟩, hfinished, hlast⟩ := h
  rcases eq_nil_or_concat since with rfl | ⟨init, v, rfl⟩
  · have hv := singleton_inj.1 (append_inj_right' hcut rfl)
    exact absurd hfinished (hv ▸ hu)
  · rw [concat_eq_append] at hcut hlast ⊢
    rw [← cons_append, ← append_assoc] at hcut
    obtain ⟨rfl, hv⟩ := append_inj' hcut rfl
    refine ⟨init, by rw [hv], ⟨earlier, rfl⟩, hfinished, fun w hw => hlast w (mem_append_left _ hw)⟩

/-- an output that lets a token go has a tail that moves -/
theorem AnyHandedOn.of_released (hout : ∀ p ∈ t.before.outputs, p.Bounded)
    (hmoved : Portwise (fun _ => HandedOn) t.before.outputs t.after.outputs)
    (h : Released t.before.outputs t.after.outputs) : AnyHandedOn [t] := by
  obtain ⟨o, p, q, hp, hq, hne⟩ := h
  refine ⟨t, mem_singleton_self t, Indices.distance p.host.tail q.host.tail p.spec.capacity, ?_, fun hzero => hne ?_⟩
  · refine mem_of_getElem? (i := o) ?_
    rw [Taken.handedOn, movement, getElem?_zipWith, hp, hq]
  · have htail := (hout p (mem_of_getElem? hp)).hostTail
    obtain ⟨-, hsum, -⟩ := Indices.exists_distance htail (hmoved.each hp hq).1
    rw [hzero, Nat.add_zero, Nat.mod_eq_of_lt htail] at hsum
    exact hsum.symm

theorem AnyHandedOn.mono {more : List (Taken δ)} (h : AnyHandedOn actions) (hsub : ∀ u ∈ actions, u ∈ more) :
    AnyHandedOn more := by
  obtain ⟨u, hu, hmoved⟩ := h
  exact ⟨u, hsub u hu, hmoved⟩

/-- handing on clears the flag only if a token leaves -/
theorem StalledIfIdle.handsOn (h : b.StalledIfIdle history) (hb : b.Regular) (hworks : b.failed = false)
    (hphase : b.phase ≠ .pollKernel) (haction : action ≠ .updateIndices) {c : Bridge δ} (hc : b.HandsOn c)
    (hout : b'.outputs = c.outputs) (hflag : b'.stalled = c.stalled) :
    b'.StalledIfIdle (history ++ [⟨action, b, b'⟩]) := by
  intro _ _ t since hlast hnothing
  obtain ⟨before, rfl, hbefore⟩ := hlast.of_other haction
  rcases h hworks hphase hbefore hnothing with hstalled | hdrained
  · rw [hflag]
    rcases hc.stalled with hsame | hreleased
    · exact .inl (hsame.trans hstalled)
    · rw [← hout] at hreleased
      have hreleased' : AnyHandedOn [⟨action, b, b'⟩] :=
        .of_released (fun p hp => (hb.outputs p hp).1) (by rw [hout]; exact hc.outputs) hreleased
      exact .inr (hreleased'.mono fun u hu => mem_append_right _ hu)
  · exact .inr (hdrained.mono fun u hu => mem_append_left _ hu)

/-- a bridge that works is stalled after an idle call, along its whole history -/
theorem stalledIfIdle_lasting : Lasting ins outs (StalledIfIdle : Bridge δ → List (Taken δ) → Prop) where
  fresh _ := by
    rintro - - t since ⟨⟨earlier, hcut⟩, -, -⟩
    exact absurd (congrArg length hcut) (by simp)
  moved _ h := h
  takes := by
    intro b b' history action hb hworks hstepped h
    cases hstepped with
    | handsOn hphase hc | collects hphase hc => exact h.handsOn hb hworks (by simp [hphase]) (by decide) hc rfl rfl
    | starts hphase hc => exact fun _ hpoll => absurd rfl hpoll
    | books hphase hc =>
      intro _ _ t since hlast hnothing
      obtain ⟨rfl, rfl⟩ := hlast.of_booking rfl
      left
      rw [hc.stalled, CallRecord.isIdle, hc.consumed_eq, hc.produced_eq, Bool.and_eq_true, all_eq_true, all_eq_true]
      exact ⟨fun n hn => beq_iff_eq.2 (hnothing.1 n hn), fun n hn => beq_iff_eq.2 (hnothing.2 n hn)⟩
  stops _ _ _ := fun hworks => by cases hworks

end History

/-! ## Calls -/

/-- of the actions of a call, those before it launches the kernel -/
def beforeLaunch (actions : List (Taken δ)) : List (Taken δ) := actions.takeWhile (·.action != .startKernel)

/-- the bridge that these actions lead to -/
def reached (b : Bridge δ) : List (Taken δ) → Bridge δ
  | [] => b
  | t :: rest => reached t.after rest

/-- a launch in a call of these actions has room for output, and after a call that moved nothing it comes with a new
token or after a token has left -/
structure Justified (b : Bridge δ) (history actions : List (Taken δ)) (args : KernelArgs) : Prop where
  room : args.HasRoom
  cause : ∀ {t since}, LastFinished (history ++ beforeLaunch actions) t since → t.MovedNothing →
    AnyHandedOn since ∨ (b.reached (beforeLaunch actions)).Feeds args

section Calls

variable {b : Bridge δ} {ports : Ports} {history : List (Taken δ)} {ins outs : List LinkPort} {args : KernelArgs}

/-- where a bridge launches at once -/
theorem Worthwhile.justified (h : b.Worthwhile args) (hstalls : b.StalledIfIdle history) (hworks : b.failed = false)
    (hphase : b.phase = .init) (hfirst : beforeLaunch actions = []) : b.Justified history actions args := by
  refine ⟨h.room, fun hlast hnothing => ?_⟩
  rw [hfirst, append_nil] at hlast
  rw [hfirst]
  rcases hstalls hworks (by simp [hphase]) hlast hnothing with hstalled | hdrained
  · exact .inr (h.feeds hstalled)
  · exact .inl hdrained

theorem Justified.cons {b' : Bridge δ} (haction : action ≠ .startKernel)
    (h : b'.Justified (history ++ [⟨action, b, b'⟩]) actions args) :
    b.Justified history (⟨action, b, b'⟩ :: actions) args := by
  have hbefore : beforeLaunch (⟨action, b, b'⟩ :: actions) = ⟨action, b, b'⟩ :: beforeLaunch actions := by
    rw [beforeLaunch, takeWhile_cons, if_pos (bne_iff_ne.2 haction)]
    rfl
  refine ⟨h.room, fun hlast => ?_⟩
  rw [hbefore, append_cons] at hlast
  rw [hbefore]
  exact h.cause hlast

variable [Device δ] {J : Device.Journal δ}

/-- all launches of the steps of a call -/
theorem stepLoop_launches (n fired : Nat) (mayLaunch : Bool) (hb : b.Regular) (hworks : b.failed = false)
    (hstalls : b.StalledIfIdle history) (hwords : ∀ spec ∈ b.inputs.map (·.spec), spec.capacity < Word.size32)
    (hfits : b.Fits ports) : J.Launched (b.Justified history (taken n mayLaunch b ports)) b.device
      (stepLoop n fired mayLaunch b ports).actor.device := by
  fun_induction stepLoop n fired mayLaunch b ports generalizing history with
  | case1 => exact launched_refl _
  | case2 n fired mayLaunch b ports action b' ports' hexec ih =>
    obtain ⟨hadvanced, -⟩ := (step_moves mayLaunch hb).of_ok hexec
    rw [taken_of_ok hexec]
    by_cases hlaunch : action = .startKernel
    · subst hlaunch
      have hstep := (step_launches (J := J) mayLaunch hb hwords hfits).of_ok hexec
      refine (hstep.mono fun args h => h.2.justified hstalls hworks h.1 rfl).trans (Asked.launched (stepLoop_asked n
        (fired + 1) (mayLaunch && BridgeAction.startKernel != .startKernel) b'
        (ports'.fire BridgeAction.startKernel.number) |>.mono ?_ id))
      simp
    · have hasked := ((step_follows (T := deviceTrail J.trail) mayLaunch (b, ports)).of_ok hexec).1
      have hnone : launchesOf (some action) = 0 := by simp [launchesOf, hlaunch]
      rw [hnone] at hasked
      refine (Asked.launched hasked).trans
        ((ih (hadvanced.stepped.regular hb) (hadvanced.stepped.failed.trans hworks) ?_ ?_ ?_).mono
        fun args h => h.cons hlaunch)
      · exact (@stalledIfIdle_lasting _ [] []).takes hb hworks hadvanced.stepped hstalls
      · rwa [hadvanced.stepped.specs.1]
      · exact Ports.Ready.fire (hadvanced.fits hfits) _
  | case3 n fired mayLaunch b ports b' ports' hexec =>
    exact Asked.launched ((step_follows (T := deviceTrail J.trail) mayLaunch (b, ports)).of_ok hexec).1
  | case4 n fired mayLaunch b ports e b' ports' hexec | case5 n fired mayLaunch b ports f b' ports' hexec =>
    have hstep := (step_launches (J := J) mayLaunch hb hwords hfits).of_error hexec
    simp only [taken, hexec]
    exact hstep.mono fun args h => h.2.justified hstalls hworks h.1 rfl

/-- No launch is futile, over any device and after any calls. -/
theorem no_futile_launch (J : Device.Journal δ) (h : HasHistory ins outs b history) (hfits : b.Fits ports)
    (maxLoops : Nat) {posted : List Submission}
    (hlog : J.log (b.act maxLoops ports).actor.device = J.log b.device ++ posted)
    {answer : Except (Stop DeviceError) EventId} (hlaunch : ⟨.launch args, answer⟩ ∈ posted) :
    b.Justified history (b.takenBy maxLoops ports) args := by
  cases hfailed : b.failed with
  | true =>
    rw [(act_of_failed hfailed maxLoops ports).1] at hlog
    exact (launched_refl (P := fun _ => False) b.device).of_log hlog hlaunch |>.elim
  | false =>
    obtain ⟨hact, htaken⟩ := act_of_works hfailed maxLoops ports
    rw [hact] at hlog
    rw [htaken]
    have hspecs := ((h.lasting (agrees_lasting ins outs)).1.works hfailed).2.1
    have hwords : ∀ spec ∈ b.inputs.map (·.spec), spec.capacity < Word.size32 := by
      rw [hspecs]
      exact fun spec hspec => h.words spec (mem_append_left _ hspec)
    exact (stepLoop_launches maxLoops 0 true (h.regular hfailed) hfailed
      (h.lasting stalledIfIdle_lasting).1 hwords hfits).of_log hlog hlaunch

end Calls

/-- The kernel may copy no token at all, so the first call moves nothing. No output has handed anything on when the
second call launches again: it has found another token to stage. -/
theorem no_futile_launch_another_token :
    ∃ (b called : Bridge (Journaled (Accelerator StockKernel)))
    (launched booked collected : Taken (Journaled (Accelerator StockKernel)))
      (posted : List Submission) (args : KernelArgs) (answer : Except (Stop DeviceError) EventId),
      Bridge.create "link" ⟨Accelerator.create (StockKernel.echo 0) .immediate, []⟩
        [⟨"in", 1, 3⟩] [⟨"out", 1, 3⟩] = .ok b ∧
      called = (b.act 9 Ports.oneToken).actor ∧ called.Fits Ports.oneToken ∧
      HasHistory [⟨"in", 1, 3⟩] [⟨"out", 1, 3⟩] called [launched, booked, collected] ∧
      LastFinished [launched, booked, collected] booked [collected] ∧ booked.MovedNothing ∧ ¬ AnyHandedOn [collected] ∧
      (called.act 9 Ports.oneToken).actor.device.log = called.device.log ++ posted ∧ ⟨.launch args, answer⟩ ∈ posted ∧
      called.Justified [launched, booked, collected] (called.takenBy 9 Ports.oneToken) args ∧ called.Feeds args := by
  obtain ⟨b, hb⟩ : ∃ b, create "link" (⟨Accelerator.create (StockKernel.echo 0) .immediate, []⟩ : Journaled _)
    [⟨"in", 1, 3⟩] [⟨"out", 1, 3⟩] = .ok b := ⟨_, rfl⟩
  have hcall := eq_of_map_toOption hb (fun b =>
      let called := (b.act 9 Ports.oneToken).actor
      (called.inputs.map (·.spec.tokenSize), called.outputs.map (·.spec.tokenSize),
        (b.act 9 Ports.oneToken).exit.toOption))
    (show _ = some ([1], [1], some .yield) by decide +kernel)
  have hfirst := eq_of_map_toOption hb (fun b =>
      (b.takenBy 9 Ports.oneToken).map fun t => (t.action, t.consumed ++ t.produced, t.handedOn))
    (show _ = some [(.startKernel, [0, 0], [0]), (.updateIndices, [0, 0], [0]), (.collect, [0, 0], [0])]
      by decide +kernel)
  have hsecond := eq_of_map_toOption hb (fun b =>
      let called := (b.act 9 Ports.oneToken).actor
      ((called.takenBy 9 Ports.oneToken).map (·.action),
        ((called.act 9 Ports.oneToken).actor.device.log.map (·.command)).drop
        (called.device.log.map (·.command)).length))
    (show _ = some ([.startKernel, .updateIndices, .collect],
        [.write 0 1 [0], .launch ⟨[⟨0, 1, 3, 2, 0⟩], [⟨2, 3, 3, 0, 0⟩]⟩, .read 1 0 4, .read 3 0 4]) by decide +kernel)
  simp only [Prod.mk.injEq] at hcall hsecond
  obtain ⟨hin, hout, hexit⟩ := hcall
  obtain ⟨hactions, hcommands⟩ := hsecond
  have hhistory : HasHistory _ _ (b.act 9 Ports.oneToken).actor ([] ++ b.takenBy 9 Ports.oneToken) :=
    (HasHistory.created (by decide) hb).called 9 Ports.oneToken (eq_ok_of_toOption hexit)
  have hfits : (b.act 9 Ports.oneToken).actor.Fits Ports.oneToken := by
    rw [Fits, hin, hout]
    exact Ports.oneToken_ready
  simp only [map_eq_cons_iff, map_eq_nil_iff, Prod.mk.injEq] at hfirst
  obtain ⟨launched, _, htaken, -, booked, _, rfl, ⟨hbook, hmoved, -⟩, collected, _, rfl, ⟨hcollect, -, hhanded⟩, rfl⟩ :=
    hfirst
  rw [nil_append, htaken] at hhistory
  -- the second call: its launch is in the journal, before all its actions
  obtain ⟨posted, hlog, -⟩ := act_asked (J := Journaled.journal _) 9 (b.act 9 Ports.oneToken).actor Ports.oneToken
  have hlog' : ((b.act 9 Ports.oneToken).actor.act 9 Ports.oneToken).actor.device.log =
    (b.act 9 Ports.oneToken).actor.device.log ++ posted := hlog
  rw [hlog', map_append, drop_left] at hcommands
  obtain ⟨⟨_, answer⟩, hlaunch, rfl⟩ : ∃ s ∈ posted, s.command = .launch ⟨[⟨0, 1, 3, 2, 0⟩], [⟨2, 3, 3, 0, 0⟩]⟩ :=
    mem_map.1 (by rw [hcommands]; simp)
  have hfirst' : beforeLaunch ((b.act 9 Ports.oneToken).actor.takenBy 9 Ports.oneToken) = [] := by
    obtain ⟨t, rest, htaken', ht, -⟩ := map_eq_cons_iff.1 hactions
    rw [htaken', beforeLaunch, takeWhile_cons, if_neg (by simp [ht])]
  have hlast : LastFinished [launched, booked, collected] booked [collected] :=
    ⟨⟨[launched], rfl⟩, hbook, fun u hu => by rw [mem_singleton.1 hu, hcollect]; decide⟩
  have hnothing : booked.MovedNothing := by
    have hzero : ∀ n ∈ booked.consumed ++ booked.produced, n = 0 := by rw [hmoved]; decide
    exact ⟨fun n hn => hzero n (mem_append_left _ hn), fun n hn => hzero n (mem_append_right _ hn)⟩
  have hkept : ¬ AnyHandedOn [collected] := by
    rintro ⟨u, hu, n, hn, hne⟩
    rw [mem_singleton.1 hu, hhanded] at hn
    exact hne (mem_singleton.1 hn)
  have hjustified := no_futile_launch (Journaled.journal _) hhistory hfits 9 hlog hlaunch
  have hcause := hjustified.cause (by rw [hfirst', append_nil]; exact hlast) hnothing
  rw [hfirst'] at hcause
  exact ⟨b, _, launched, booked, collected, posted, _, answer, hb, rfl, hfits, hhistory,
    hlast, hnothing, hkept, hlog', hlaunch, hjustified, hcause.resolve_left hkept⟩

end Bridge

end Dataflow
