import Dataflow.Proofs.Polling

/-!
Following a bridge through its operations.

A `Device.Trail` is a relation between the device before and after that submitting, polling and taking respect, by the
number of launches. Every operation of a bridge follows a `Bridge.Trail` (`step_follows`), as far as it does not notice
tokens (`Routine`) and the changes of the bridge itself (`Free`).
-/

namespace Dataflow

open List Step Step.Way

def Command.isLaunch : Command → Bool
  | .launch _ => true
  | _ => false

/-- what can be said of a device before and after an operation, by a bound on the launches in between -/
structure Device.Trail (δ : Type) [Device δ] extends Way DeviceError δ where
  submit : ∀ command, toWay.Follows (Device.submit command) command.isLaunch.toNat
  poll : ∀ e d, leads 0 d ((Device.poll e).run d).2
  take : ∀ e d, leads 0 d ((Device.take e).run d).2

namespace Device.Trail

variable {δ : Type} [Device δ]

def any : Device.Trail δ where
  toWay := @Way.ofRel _ _ (fun _ _ => True) { refl := fun _ => trivial, trans := fun _ _ _ _ _ => trivial }
  submit _ _ := gives_of_forall fun _ _ => trivial
  poll _ _ := trivial
  take _ _ := trivial

/-- a port and the device behind it -/
def onPort (T : Device.Trail δ) : Way DeviceError (BridgePort × δ) := T.comap Prod.snd

/-- the devices that the trail leads to without a launch -/
def watch (T : Device.Trail δ) (start : δ) : Watch δ where
  holds := T.leads 0 start
  complete _ _ := True
  poll e h := T.trans h (T.poll e _)
  seen _ _ := trivial
  lasts _ _ _ := trivial

end Device.Trail

/-! ## Ports -/

namespace BridgePort

variable {δ : Type} [Device δ] {T : Device.Trail δ}

theorem follows_submit {command : Command} (h : command.isLaunch = false) :
    T.onPort.Follows (onDevice (Device.submit command) : Op δ EventId) 0 :=
  follows_zoom (show T.toWay.Follows _ false.toNat from h ▸ T.submit command) (fun _ _ hd => hd) fun _ _ _ hd => hd

theorem follows_take (event : EventId) :
    T.onPort.Follows (onDevice (liftM (Device.take event : StateM δ (Option Bytes))) : Op δ (Option Bytes)) 0 :=
  follows_zoom (fun d => ends_state (T.take event d)) (fun _ _ hd => hd) fun _ _ _ hd => hd

theorem follows_thePort : T.onPort.Follows (thePort : Op δ BridgePort) 0 := follows_get.bind fun _ => follows_pure _

theorem follows_putPort (p : BridgePort) : T.onPort.Follows (putPort p : Op δ Unit) 0 :=
  follows_modify fun s => T.refl s.2

theorem follows_pushPart (slot : TransferSlot) (part : Interval) :
    T.onPort.Follows (pushPart slot part : Op δ (List EventId)) 0 := by
  unfold pushPart
  split_ifs
  · exact follows_pure _
  · refine follows_thePort.bind fun p => (follows_checked _).bind fun payload => (follows_putPort _).bind fun _ => ?_
    refine (follows_submit rfl).bind fun event => follows_thePort.bind fun p => ?_
    exact (follows_checked _).bind fun _ => (follows_putPort _).bind fun _ => follows_pure _

theorem follows_writeToDevice (start stop : Nat) :
    T.onPort.Follows (writeToDevice start stop : Op δ (List EventId)) 0 := by
  refine follows_thePort.bind fun p => (follows_checked _).bind fun parts => ?_
  obtain ⟨first, second⟩ := parts
  exact (follows_pushPart .first first).bind fun _ => (follows_pushPart .second second).bind fun _ => follows_pure _

theorem follows_pullPart (slot : TransferSlot) (part : Interval) :
    T.onPort.Follows (pullPart slot part : Op δ Unit) 0 := by
  unfold pullPart
  split_ifs
  · exact follows_pure _
  · refine follows_thePort.bind fun p => (follows_putPort _).bind fun _ => ?_
    refine (follows_submit rfl).bind fun event => follows_thePort.bind fun _ => ?_
    exact (follows_checked _).bind fun _ => follows_putPort _

theorem follows_readFromDevice (start stop : Nat) : T.onPort.Follows (readFromDevice start stop : Op δ Unit) 0 := by
  refine follows_thePort.bind fun p => (follows_checked _).bind fun parts => ?_
  obtain ⟨first, second⟩ := parts
  exact (follows_pullPart .first first).bind fun _ => follows_pullPart .second second

theorem follows_requestIndex : T.onPort.Follows (requestIndex : Op δ Unit) 0 := by
  refine follows_thePort.bind fun p => ?_
  have hask : T.onPort.Follows (do
      let event ← onDevice (Device.submit (.read p.index 0 indexBytes))
      putPort { ← thePort with indexRead := some event } : Op δ Unit) 0 :=
    (follows_submit rfl).bind fun event => follows_thePort.bind fun p => follows_putPort _
  split_ifs
  · exact (follows_throw _).bind fun _ => hask
  · exact hask

theorem follows_takeIndex : T.onPort.Follows (takeIndex : Op δ Nat) 0 := by
  refine follows_thePort.bind fun p => ?_
  match p.indexRead with
  | none => exact follows_fail _
  | some event =>
    refine (follows_putPort _).bind fun _ => (follows_take event).bind fun bytes? => ?_
    match bytes? with
    | none => exact follows_fail _
    | some bytes =>
      dsimp only
      split_ifs
      · exact (follows_fail _).bind fun _ => (follows_fail _).bind fun _ => follows_pure _
      · exact (follows_fail _).bind fun _ => follows_pure _
      · exact (follows_fail _).bind fun _ => follows_pure _
      · exact follows_pure _

theorem follows_retire (slot : TransferSlot) : T.onPort.Follows (retire slot : Op δ Unit) 0 := by
  refine follows_thePort.bind fun p => (follows_putPort _).bind fun _ => ?_
  match p.transfer slot with
  | none | some (.toDevice _) => exact follows_pure _
  | some (.fromDevice event start) =>
    refine (follows_take event).bind fun bytes? => ?_
    match bytes? with
    | none => exact follows_fail _
    | some bytes => exact (follows_checked _).bind fun _ => (follows_checked _).bind fun _ => follows_putPort _

theorem follows_retireTransfers : T.onPort.Follows (retireTransfers : Op δ Unit) 0 :=
  (follows_retire .first).bind fun _ => follows_retire .second

theorem follows_acceptHead (head : Nat) : T.onPort.Follows (acceptHead head : Op δ Nat) 0 :=
  follows_thePort.bind fun _ => (follows_checked _).bind fun _ => (follows_readFromDevice _ head).bind fun _ =>
    follows_thePort.bind fun _ => (follows_putPort _).bind fun _ => follows_pure _

end BridgePort

/-! ## Bridges -/

namespace Bridge

open BridgePort

variable {δ α : Type} [Device δ]

/-- what can be said of a bridge and its open ports before and after an operation: `device` is what is said of the
device alone, and work on the ports of the bridge is not noticed -/
structure Trail (δ : Type) [Device δ] extends Way DeviceError (Bridge δ × Ports) where
  device : Device.Trail δ
  work : ∀ {n d b w} inputs outputs shouldRetry, device.leads n b.device d →
    leads n (b, w) ({ b with device := d, inputs, outputs, shouldRetry }, w)
  work_stops : ∀ {n stop d b w} inputs outputs shouldRetry, device.stops n stop b.device d →
    stops n stop (b, w) ({ b with device := d, inputs, outputs, shouldRetry }, w)

/-- tokens that come and go are not noticed -/
class Routine (T : Trail δ) : Prop where
  read : ∀ {b w w' i n bytes}, w.readBytes i n = .ok (bytes, w') → T.leads 0 (b, w) (b, w')
  write : ∀ {b w w' o bytes}, w.writeBytes o bytes = .ok w' → T.leads 0 (b, w) ({ b with stalled := false }, w')

/-- of the bridge, nothing but the device is noticed -/
class Free (T : Trail δ) : Prop where
  change : ∀ {b b' w}, b'.device = b.device → T.leads 0 (b, w) (b', w)

/-- the trail of a relation that does not notice work on the device and the ports of a bridge -/
def Trail.ofRel (R : Bridge δ × Ports → Bridge δ × Ports → Prop) [IsPreorder (Bridge δ × Ports) R]
    (work : ∀ b w device inputs outputs shouldRetry, R (b, w) ({ b with device, inputs, outputs, shouldRetry }, w)) :
    Trail δ where
  toWay := .ofRel R
  device := .any
  work inputs outputs shouldRetry _ := work _ _ _ inputs outputs shouldRetry
  work_stops inputs outputs shouldRetry _ := work _ _ _ inputs outputs shouldRetry

def deviceTrail (T : Device.Trail δ) : Trail δ where
  toWay := T.comap fun s => s.1.device
  device := T
  work _ _ _ h := h
  work_stops _ _ _ h := h

instance (T : Device.Trail δ) : Routine (deviceTrail T) := ⟨fun _ => T.refl _, fun _ => T.refl _⟩

instance (T : Device.Trail δ) : Free (deviceTrail T) :=
  ⟨fun {b b' _} h => show T.leads 0 b.device b'.device from h ▸ T.refl _⟩

abbrev Follows (T : Trail δ) (op : Op δ α) (n : Nat) : Prop := T.toWay.Follows op n

variable {T : Trail δ} {n : Nat}

theorem follows_submit (command : Command) : Follows T (onDevice (Device.submit command)) command.isLaunch.toNat :=
  follows_zoom (T.device.submit command) (fun _ _ h => T.work _ _ _ h) fun _ _ _ h => T.work_stops _ _ _ h

theorem follows_theBridge : Follows T (theBridge : Op δ (Bridge δ)) 0 := follows_get.bind fun _ => follows_pure _

theorem follows_thePorts : Follows T (thePorts : Op δ Ports) 0 := follows_get.bind fun _ => follows_pure _

theorem follows_onInput (i : Nat) {op : BridgePort.Op δ α} (h : T.device.onPort.Follows op 0) :
    Follows T (onInput i op) 0 :=
  follows_theBridge.bind fun _ => (follows_checked _).bind fun _ =>
    follows_zoom h (fun _ _ hd => T.work _ _ _ hd) fun _ _ _ hd => T.work_stops _ _ _ hd

theorem follows_onOutput (o : Nat) {op : BridgePort.Op δ α} (h : T.device.onPort.Follows op 0) :
    Follows T (onOutput o op) 0 :=
  follows_theBridge.bind fun _ => (follows_checked _).bind fun _ =>
    follows_zoom h (fun _ _ hd => T.work _ _ _ hd) fun _ _ _ hd => T.work_stops _ _ _ hd

theorem follows_retry (shouldRetry : Bool) : Follows T (change fun b => { b with shouldRetry }) 0 :=
  follows_modify fun _ => T.work _ _ _ (T.device.refl _)

/-- an operation that only polls -/
theorem follows_of_looks {op : Op δ α} {means : Bridge δ → α → δ → Prop}
    (h : ∀ b ports, Looks (T.device.watch b.device) b ports op (means b)) : Follows T op 0 := by
  rintro ⟨b, ports⟩
  refine (h b ports (T.device.refl b.device)).ends.mono ?_
  rintro a _ ⟨d, rfl, hl, -⟩
  exact T.work _ _ _ hl.holds

theorem follows_kernelFinished : Follows T kernelFinished 0 := follows_of_looks fun _ _ => looks_kernelFinished

theorem follows_readsFinished : Follows T readsFinished 0 := follows_of_looks fun _ _ => looks_readsFinished

theorem follows_guardFailures : Follows T guardFailures 0 := by
  rintro ⟨b, ports⟩
  refine (guards_guardFailures (W := T.device.watch b.device) (T.device.refl b.device)).imp ?_ ?_
  · rintro - _ ⟨⟨d, rfl, hl⟩, -⟩
    exact T.work _ _ _ hl.holds
  · rintro stop _ ⟨-, ⟨d, rfl, hl⟩, -⟩
    exact T.work_stops _ _ _ (T.device.leads_stops hl.holds (T.device.halts stop d))

theorem follows_bookInput (i : Nat) : Follows T (bookInput i) 0 :=
  follows_onInput i (follows_takeIndex.bind fun _ => follows_retireTransfers.bind fun _ => follows_thePort.bind fun _ =>
    (follows_checked _).bind fun _ => (follows_putPort _).bind fun _ => follows_pure _)

theorem follows_bookOutput (o : Nat) : Follows T (bookOutput o) 0 := by
  refine (follows_onOutput o ?_).bind fun booked => ?_
  · exact follows_takeIndex.bind fun head => (follows_acceptHead head).bind fun _ => follows_thePort.bind fun _ =>
      (follows_checked _).bind fun _ => follows_pure _
  · dsimp only
    split_ifs
    · exact (follows_retry true).bind fun _ => follows_pure _
    · exact follows_pure _

/-- an operation without a launch, and then more -/
theorem ends_bind_follows {β : Type} {op : Op δ α} {f : α → Op δ β} {t s : Bridge δ × Ports}
    {Q : β → Bridge δ × Ports → Prop} (h : T.leads 0 t s) (hop : Follows T op 0)
    (hf : ∀ a s', T.leads 0 t s' → Ends (f a) s' Q fun stop s' => T.stops n stop t s') :
    Ends (op >>= f) s Q fun stop s' => T.stops n stop t s' :=
  ends_bind ((hop s).imp (fun a s' h' => hf a s' (T.trans h h'))
    fun _ _ h' => T.stops_mono (Nat.zero_le n) (T.leads_stops h h'))

section Routine

variable [Routine T]

theorem follows_freeUp (o : Nat) : Follows T (freeUp o) 0 := by
  refine follows_thePorts.bind fun ports => (follows_checked _).bind fun room => ?_
  refine (follows_onOutput o ?_).bind fun bytes => ?_
  · refine follows_thePort.bind fun p => (follows_checked _).bind fun staged => ?_
    exact (follows_putPort _).bind fun _ => follows_pure _
  split
  · intro s
    refine ends_thePorts (ends_bind (ends_checked (fun ports hwrite => ?_) fun _ _ => T.halts _ s))
    exact ends_modify (Routine.write hwrite)
  · exact follows_pure _

theorem follows_freeUpOutputs : Follows T (freeUpOutputs : Op δ Unit) 0 :=
  follows_theBridge.bind fun _ => follows_forM fun o _ => follows_freeUp o

theorem follows_sendInput (i : Nat) : Follows T (sendInput i) 0 := by
  have hpublish : Follows T (onInput i (do putPort (← thePort).publishHead) : Op δ Unit) 0 :=
    follows_onInput i (follows_thePort.bind fun p => follows_putPort _)
  intro s
  refine ends_thePorts (ends_theBridge (ends_bind (ends_checked (fun p _ => ?_) fun _ _ => T.halts _ s)))
  refine ends_bind (ends_checked (fun n _ => ?_) fun _ _ => T.halts _ s)
  split_ifs
  · refine ends_bind (ends_checked (fun size _ => ?_) fun _ _ => T.halts _ s)
    refine ends_bind (ends_checked (fun read hread => ?_) fun _ _ => T.halts _ s)
    refine ends_bind (ends_modify ?_)
    refine Ends.imp (Follows.bind (follows_onInput i ?_) (fun _ => hpublish) (s.1, read.2)) ?_ ?_
    · exact follows_thePort.bind fun p => (follows_checked _).bind fun staged => (follows_putPort _).bind fun _ =>
        (follows_writeToDevice _ _).bind fun _ => follows_pure _
    · exact fun _ _ h => T.trans (Routine.read hread) h
    · exact fun _ _ h => T.leads_stops (Routine.read hread) h
  · exact hpublish s

theorem follows_collect : Follows T (collect : Op δ Unit) 0 :=
  follows_theBridge.bind fun _ => (follows_forM fun o _ => follows_onOutput o follows_retireTransfers).bind fun _ =>
    follows_freeUpOutputs

end Routine

section Free

variable [Free T]

theorem follows_change {f : Bridge δ → Bridge δ} (hf : ∀ b, (f b).device = b.device) : Follows T (change f) 0 :=
  follows_modify fun s => Free.change (hf s.1)

theorem follows_updateIndices : Follows T (updateIndices : Op δ Unit) 0 :=
  follows_theBridge.bind fun _ => (follows_mapM fun i _ => follows_bookInput i).bind fun _ =>
    (follows_mapM fun o _ => follows_bookOutput o).bind fun _ => follows_change fun _ => rfl

/-- all that follows the launch -/
theorem follows_requests (inputs outputs : Nat) {f : Bridge δ → Bridge δ}
    (hf : ∀ b, (f b).device = b.device) : Follows T (do
    (range inputs).forM fun i => onInput i requestIndex
    (range outputs).forM fun o => onOutput o requestIndex
    change f) 0 :=
  (follows_forM fun i _ => follows_onInput i follows_requestIndex).bind fun _ =>
    (follows_forM fun o _ => follows_onOutput o follows_requestIndex).bind fun _ => follows_change hf

/-! ## Steps -/

/-- launches that an action submits -/
def launchesOf (action : Option BridgeAction) : Nat := if action = some .startKernel then 1 else 0

variable [Routine T]

/-- starting the kernel is one launch -/
theorem follows_startKernel : Follows T (startKernel : Op δ Unit) 1 := by
  refine (follows_retry false).bind fun _ => follows_theBridge.bind fun b => ?_
  refine (follows_forM fun i _ => follows_sendInput i).bind fun _ => follows_theBridge.bind fun b => ?_
  exact (follows_submit _).andThen fun kernel => follows_requests _ _ fun _ => rfl

/-- a step submits a launch only if it may, and answers that it did -/
theorem step_follows (mayLaunch : Bool) (s : Bridge δ × Ports) : Ends (step mayLaunch) s
    (fun action s' => T.leads (launchesOf action) s s' ∧ (action = some .startKernel → mayLaunch = true))
    fun stop s' => T.stops mayLaunch.toNat stop s s' := by
  have henter : ∀ {t phase action}, T.leads (launchesOf (some action)) s t →
      (action = .startKernel → mayLaunch = true) →
      Ends (do enter phase; return some action : Op δ (Option BridgeAction)) t
        (fun action s' => T.leads (launchesOf action) s s' ∧ (action = some .startKernel → mayLaunch = true))
        fun stop s' => T.stops mayLaunch.toNat stop s s' := by
    intro t phase action h hmay
    have hchange : T.leads 0 t ({ t.1 with phase, profile := t.1.profile.enter t.1.phase phase }, t.2) :=
      Free.change rfl
    exact ends_bind (ends_modify (ends_pure ⟨T.trans h hchange, fun heq => hmay (Option.some.inj heq)⟩))
  refine ends_bind_follows (T.refl s) follows_guardFailures fun _ s1 h1 => ends_bind (ends_get ?_)
  obtain ⟨b, ports⟩ := s1
  dsimp only
  match b.phase with
  | .init =>
    refine ends_bind_follows h1 (follows_checked _) fun canWrite s2 h2 => ?_
    cases canWrite with
    | true => exact ends_bind_follows h2 follows_freeUpOutputs fun _ s3 h3 => ends_pure ⟨h3, nofun⟩
    | false =>
      cases mayLaunch with
      | false => exact ends_pure ⟨h2, nofun⟩
      | true =>
        refine ends_bind_follows h2 (follows_checked _) fun start s3 h3 => ?_
        cases start with
        | false => exact ends_pure ⟨h3, nofun⟩
        | true =>
          exact ends_bind ((follows_startKernel s3).imp (fun _ s4 h4 => henter (T.trans h3 h4) fun _ => rfl)
            fun _ _ h4 => T.leads_stops h3 h4)
  | .pollKernel =>
    refine ends_bind_follows h1 follows_kernelFinished fun finished s2 h2 => ?_
    cases finished with
    | false => exact ends_pure ⟨h2, nofun⟩
    | true => exact ends_bind_follows h2 follows_updateIndices fun _ s3 h3 => henter h3 nofun
  | .pollRead =>
    refine ends_bind_follows h1 follows_readsFinished fun finished s2 h2 => ?_
    cases finished with
    | false => exact ends_pure ⟨h2, nofun⟩
    | true => exact ends_bind_follows h2 follows_collect fun _ s3 h3 => henter h3 nofun

end Free

end Bridge

end Dataflow
