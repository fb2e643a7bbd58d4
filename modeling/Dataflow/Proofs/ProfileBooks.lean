import Dataflow.Proofs.BridgeHistory
import Dataflow.Proofs.BridgeService

/-!
The profile of a bridge agrees with its history.

`LinkProfile.Exact` says what every entry is, from the ring indices before and after each action (`Bridge.movement`).
The invariant has three parts: `Bridge.Counts`, `Bridge.Traffic` and `LinkProfile.Noted`.

- `bridge_profile_is_exact`: after any sequence of calls the profile is exact.
- Witness `bridge_profile_is_exact_two_rounds`.

Premises: a history from the creation on (`Bridge.HasHistory`), over any device.
-/

namespace Dataflow

open List

namespace Bridge

variable {δ : Type}

/-! ## Figures from the history -/

/-- how far an index of each port has moved in its ring -/
def movement (index : BridgePort → Nat) (ps qs : List BridgePort) : List Nat :=
  List.zipWith (fun p q => Indices.distance (index p) (index q) p.spec.capacity) ps qs

/-- by input, tokens put into the staging ring -/
def Taken.staged (t : Taken δ) : List Nat := movement (·.host.head) t.before.inputs t.after.inputs

/-- by input, tokens that the kernel has consumed -/
def Taken.consumed (t : Taken δ) : List Nat := movement (·.device.tail) t.before.inputs t.after.inputs

/-- by output, tokens that the kernel has produced -/
def Taken.produced (t : Taken δ) : List Nat := movement (·.device.head) t.before.outputs t.after.outputs

def actionsOf (action : BridgeAction) (history : List (Taken δ)) : List (Taken δ) := history.filter (·.action == action)

/-- the records of all finished calls, numbered from one -/
def records (history : List (Taken δ)) : List CallRecord :=
  (actionsOf .updateIndices history).mapIdx fun k t => ⟨k + 1, t.consumed, t.produced⟩

/-- the sum of the entries at one place -/
def totalAt (i : Nat) (rows : List (List Nat)) : Nat := (rows.map (·.getD i 0)).sum

section Figures

variable {action : BridgeAction} {index : BridgePort → Nat} {ps qs : List BridgePort} {p q : BridgePort} {i : Nat}

theorem movement_getD (hp : ps[i]? = some p) (hq : qs[i]? = some q) :
    (movement index ps qs).getD i 0 = Indices.distance (index p) (index q) p.spec.capacity := by
  simp [movement, getD_eq_getElem?_getD, getElem?_zipWith, hp, hq]

theorem totalAt_append (i : Nat) (rows more : List (List Nat)) :
    totalAt i (rows ++ more) = totalAt i rows + totalAt i more := by
  simp [totalAt]

theorem actionsOf_concat (action : BridgeAction) (history : List (Taken δ)) (b b' : Bridge δ) :
    actionsOf action (history ++ [⟨action, b, b'⟩]) = actionsOf action history ++ [⟨action, b, b'⟩] := by
  simp [actionsOf, filter_append]

theorem actionsOf_concat_of_ne {other : BridgeAction} (h : other ≠ action)
    (history : List (Taken δ)) (b b' : Bridge δ) :
    actionsOf action (history ++ [⟨other, b, b'⟩]) = actionsOf action history := by
  simp [actionsOf, filter_append, h]

theorem records_length (history : List (Taken δ)) :
    (records history).length = (actionsOf .updateIndices history).length := by
  simp [records]

theorem records_concat (history : List (Taken δ)) (b b' : Bridge δ) : records (history ++ [⟨.updateIndices, b, b'⟩]) =
    records history ++ [⟨(records history).length + 1, movement (·.device.tail) b.inputs b'.inputs,
      movement (·.device.head) b.outputs b'.outputs⟩] := by
  rw [records_length, records, actionsOf_concat, mapIdx_concat]
  rfl

theorem records_concat_of_ne (h : action ≠ .updateIndices) (history : List (Taken δ)) (b b' : Bridge δ) :
    records (history ++ [⟨action, b, b'⟩]) = records history := by
  rw [records, actionsOf_concat_of_ne h]
  rfl

theorem length_actionsOf_concat (action other : BridgeAction) (history : List (Taken δ)) (b b' : Bridge δ) :
    (actionsOf action (history ++ [⟨other, b, b'⟩])).length =
      (actionsOf action history).length + if other = action then 1 else 0 := by
  split_ifs with h
  · rw [h, actionsOf_concat, length_append, length_singleton]
  · rw [actionsOf_concat_of_ne h, Nat.add_zero]

/-- the records are numbered from one on -/
theorem records_call (history : List (Taken δ)) :
    (records history).map (·.call) = range' 1 (records history).length := by
  refine ext_getElem? fun k => ?_
  rw [records_length, getElem?_map, records, getElem?_mapIdx]
  cases h : (actionsOf .updateIndices history)[k]? with
  | none => simpa using h
  | some t =>
    have hlt := lt_of_getElem? h
    rw [getElem?_eq_getElem (by simpa using hlt)]
    simp [Nat.add_comm]

end Figures

/-! ## What has crossed the link -/

/-- the bytes that have crossed the link at each port, by the tokens staged and produced -/
structure Traffic (b : Bridge δ) (history : List (Taken δ)) : Prop where
  pushed : ∀ {i p}, b.inputs[i]? = some p →
    p.bytesMoved = p.spec.tokenSize * totalAt i ((actionsOf .startKernel history).map Taken.staged)
  pulled : ∀ {o p}, b.outputs[o]? = some p →
    p.bytesMoved = p.spec.tokenSize * totalAt o ((records history).map (·.produced))

section Traffic

variable {b b' : Bridge δ} {history : List (Taken δ)} {action : BridgeAction} {consumed produced : List Nat}

theorem Booked.consumed_eq (h : b.Booked b' consumed produced) :
    consumed = movement (·.device.tail) b.inputs b'.inputs := by
  refine ext_getElem? fun i => ?_
  rw [movement, getElem?_zipWith]
  cases hp : b.inputs[i]? with
  | none =>
    rw [getElem?_eq_none_iff] at hp ⊢
    rw [h.inCount]
    exact hp
  | some p =>
    obtain ⟨q, hq, n, hn, -, rfl, -⟩ := h.inputs.after hp
    rw [hn, hq]

theorem Booked.produced_eq (h : b.Booked b' consumed produced) :
    produced = movement (·.device.head) b.outputs b'.outputs := by
  refine ext_getElem? fun o => ?_
  rw [movement, getElem?_zipWith]
  cases hp : b.outputs[o]? with
  | none =>
    rw [getElem?_eq_none_iff] at hp ⊢
    rw [h.outCount]
    exact hp
  | some p =>
    obtain ⟨q, hq, n, hn, -, rfl, -⟩ := h.outputs.after hp
    rw [hn, hq]

/-- no port has moved yet -/
theorem Traffic.fresh {ins outs : List LinkPort} (h : b.Fresh ins outs) : b.Traffic [] :=
  ⟨fun hp => h.unmoved _ (mem_append_left _ (mem_of_getElem? hp)),
    fun hp => h.unmoved _ (mem_append_right _ (mem_of_getElem? hp))⟩

/-- what a launch stages is pushed, what a booking finds is pulled, and nothing else crosses the link -/
theorem Traffic.step (h : b.Traffic history) (hstepped : b.StepsTo (some action) b') :
    b'.Traffic (history ++ [⟨action, b, b'⟩]) := by
  have hhanded : ∀ {c}, b.HandsOn c → action ≠ .startKernel → action ≠ .updateIndices → b'.inputs = c.inputs →
      b'.outputs = c.outputs → b'.Traffic (history ++ [⟨action, b, b'⟩]) := by
    intro c hc hstart hbook hin hout
    refine ⟨fun hq => ?_, fun hq => ?_⟩
    · rw [hin, hc.inputs] at hq
      rw [actionsOf_concat_of_ne hstart]
      exact h.pushed hq
    · rw [hout] at hq
      rw [records_concat_of_ne hbook]
      obtain ⟨p, hp, -, hmoved, -⟩ := hc.outputs.before hq
      rw [hmoved.bytes, hmoved.spec, Nat.add_zero]
      exact h.pulled hp
  cases hstepped with
  | handsOn hphase hc | collects hphase hc => exact hhanded hc (by decide) (by decide) rfl rfl
  | starts hphase hc =>
    refine ⟨fun hq => ?_, fun hq => ?_⟩
    · obtain ⟨p, hp, r, hsent, event, rfl⟩ := hc.inputs.before hq
      rw [actionsOf_concat, map_append, totalAt_append, map_singleton, Nat.mul_add, Taken.staged]
      simp only [totalAt, map_singleton, sum_singleton]
      rw [movement_getD hp hq]
      rw [hsent.moved.bytes, hsent.moved.spec, h.pushed hp, Nat.mul_comm (Indices.distance _ _ _)]
      rfl
    · obtain ⟨p, hp, event, rfl⟩ := hc.outputs.before hq
      have hpulled := h.pulled hp
      rw [records_concat_of_ne (by decide)]
      exact hpulled
  | books hphase hc =>
    refine ⟨fun hq => ?_, fun hq => ?_⟩
    · obtain ⟨p, hp, n, -, -, -, hmoved, -⟩ := hc.inputs.before hq
      rw [actionsOf_concat_of_ne (by decide), hmoved.bytes, hmoved.spec, Nat.add_zero]
      exact h.pushed hp
    · obtain ⟨p, hp, n, -, -, hn, hmoved, -⟩ := hc.outputs.before hq
      rw [records_concat, map_append, totalAt_append, map_singleton, Nat.mul_add, hmoved.bytes, hmoved.spec,
        h.pulled hp]
      simp only [totalAt, map_singleton, sum_singleton]
      rw [movement_getD hp hq, hn, Nat.mul_comm (Indices.distance _ _ _)]

end Traffic

end Bridge

namespace LinkProfile

open Bridge

variable {δ : Type} {inputs outputs : List BridgePort} {p : BridgePort}

/-! ## What the profile notes -/

theorem addTokens_getElem? (ports previous : List PortProfile) (moved : List Nat) (i : Nat) :
    (addTokens ports previous moved)[i]? =
      ports[i]?.map fun p => { p with tokens := (previous[i]?.map (·.tokens)).getD 0 + moved.getD i 0 } := by
  induction ports generalizing previous moved i with
  | nil => rfl
  | cons p ports ih =>
    cases i with
    | zero => cases previous <;> cases moved <;> rfl
    | succ i =>
      rw [addTokens, getElem?_cons_succ, ih, getElem?_cons_succ]
      cases previous <;> cases moved <;> rfl

theorem freshPorts_input {i : Nat} (h : inputs[i]? = some p) :
    (freshPorts inputs outputs)[i]? = some (portProfile .input p 0) := by
  rw [freshPorts, getElem?_append_left (by simpa using lt_of_getElem? h), getElem?_map, h]
  rfl

theorem freshPorts_output {o : Nat} (h : outputs[o]? = some p) :
    (freshPorts inputs outputs)[inputs.length + o]? = some (portProfile .output p 0) := by
  rw [freshPorts, getElem?_append_right (by simp), length_map, Nat.add_sub_cancel_left, getElem?_map, h]
  rfl

/-- the window moves on by one record -/
theorem remember_window (all : List CallRecord) (record : CallRecord) :
    remember (all.drop (all.length - recentCalls)) record = (all ++ [record]).drop
    ((all ++ [record]).length - recentCalls) := by
  rw [length_append, length_singleton]
  rcases Nat.lt_or_ge all.length recentCalls with hlt | hge
  · rw [Nat.sub_eq_zero_of_le hlt.le, Nat.sub_eq_zero_of_le hlt, drop_zero, drop_zero, remember, if_neg hlt.ne]
  · rw [remember, if_pos (by rw [length_drop]; omega), tail_drop, Nat.sub_add_comm hge,
      drop_append_of_le_length (by unfold recentCalls at *; omega)]

@[simp] theorem enter_calls (l : LinkProfile) (current next : LinkPhase) : (l.enter current next).calls = l.calls := by
  cases next <;> rfl

@[simp] theorem enter_idleCalls (l : LinkProfile) (current next : LinkPhase) :
    (l.enter current next).idleCalls = l.idleCalls := by
  cases next <;> rfl

@[simp] theorem enter_ports (l : LinkProfile) (current next : LinkPhase) : (l.enter current next).ports = l.ports := by
  cases next <;> rfl

/-- the records, and the traffic of ports of these shapes, as the history has them -/
structure Noted (ins outs : List LinkPort) (history : List (Taken δ)) (l : LinkProfile) : Prop where
  calls : l.calls = (records history).drop ((records history).length - recentCalls)
  idle : l.idleCalls = (records history).countP CallRecord.isIdle
  input : ∀ {i : Nat} {spec}, ins[i]? = some spec → ∃ transfers, l.ports[i]? = some
    { name := spec.name, direction := .input, transfers
      bytes := spec.tokenSize *
        totalAt i (((actionsOf .startKernel history).take (records history).length).map Taken.staged)
      tokens := totalAt i ((records history).map (·.consumed)) }
  output : ∀ {o spec}, outs[o]? = some spec → ∃ transfers, l.ports[ins.length + o]? = some
    { name := spec.name, direction := .output, transfers
      bytes := spec.tokenSize * totalAt o ((records history).map (·.produced))
      tokens := totalAt o ((records history).map (·.produced)) }

section Noted

variable {ins outs : List LinkPort} {history : List (Taken δ)} {l l' : LinkProfile} {b b' : Bridge δ}

/-- what is noted changes with a finished call only -/
theorem Noted.keep (h : l.Noted ins outs history) {action : BridgeAction} (haction : action ≠ .updateIndices)
    (hlaunched : (records history).length ≤ (actionsOf .startKernel history).length) (hcalls : l'.calls = l.calls)
    (hidle : l'.idleCalls = l.idleCalls) (hports : l'.ports = l.ports) :
    l'.Noted ins outs (history ++ [⟨action, b, b'⟩]) := by
  have hlaunches : (actionsOf .startKernel (history ++ [⟨action, b, b'⟩])).take (records history).length =
      (actionsOf .startKernel history).take (records history).length := by
    by_cases hstart : action = .startKernel
    · rw [hstart, actionsOf_concat, take_append_of_le_length hlaunched]
    · rw [actionsOf_concat_of_ne hstart]
  refine ⟨?_, ?_, ?_, ?_⟩ <;> rw [records_concat_of_ne haction]
  · rw [hcalls]
    exact h.calls
  · rw [hidle]
    exact h.idle
  · rw [hports, hlaunches]
    exact h.input
  · rw [hports]
    exact h.output

theorem exists_port {ps : List BridgePort} {specs : List LinkPort} {k : Nat} {spec : LinkPort}
    (h : ps.map (·.spec) = specs) (hspec : specs[k]? = some spec) : ∃ p, ps[k]? = some p ∧ p.spec = spec := by
  rw [← h, getElem?_map] at hspec
  exact Option.map_eq_some_iff.1 hspec

theorem Noted.fresh (h : b.Fresh ins outs) : b.profile.Noted ins outs ([] : List (Taken δ)) := by
  refine ⟨?_, ?_, fun hspec => ?_, fun hspec => ?_⟩ <;> rw [h.profile]
  · rfl
  · rfl
  · obtain ⟨p, hp, rfl⟩ := exists_port h.inSpecs hspec
    refine ⟨p.transferCount, ?_⟩
    have hunmoved := h.unmoved p (mem_append_left _ (mem_of_getElem? hp))
    simp [freshPorts_input hp, portProfile, hunmoved, totalAt, records, actionsOf]
  · obtain ⟨p, hp, rfl⟩ := exists_port h.outSpecs hspec
    refine ⟨p.transferCount, ?_⟩
    have hunmoved := h.unmoved p (mem_append_right _ (mem_of_getElem? hp))
    have hlen : ins.length = b.inputs.length := by rw [← h.inSpecs, length_map]
    rw [hlen]
    simp [freshPorts_output hp, portProfile, hunmoved, totalAt, records, actionsOf]

/-- a finished call is noted; `c` has the ports that the booking leaves -/
theorem Noted.finish {c : Bridge δ} (h : b.profile.Noted ins outs history) {consumed produced : List Nat}
    (hbooked : b.Booked b' consumed produced) (htraffic : c.Traffic (history ++ [⟨.updateIndices, b, c⟩]))
    (hcin : c.inputs = b'.inputs) (hcout : c.outputs = b'.outputs) (hins : b.inputs.map (·.spec) = ins)
    (houts : b.outputs.map (·.spec) = outs) (hnumber : b.callIndex = (records history).length + 1)
    (hlaunched : (actionsOf .startKernel history).length = (records history).length + 1) :
    b'.profile.Noted ins outs (history ++ [⟨.updateIndices, b, c⟩]) := by
  have hlen : b'.inputs.length = ins.length := by rw [hbooked.inputs.length, ← hins, length_map]
  have hcount : consumed.length = ins.length := by rw [hbooked.inCount, ← hins, length_map]
  have hrecords : records (history ++ [⟨.updateIndices, b, c⟩]) = records history ++
    [⟨b.callIndex, consumed, produced⟩] := by
    rw [records_concat, hcin, hcout, ← hbooked.consumed_eq, ← hbooked.produced_eq, hnumber]
  have hlaunches : actionsOf .startKernel (history ++ [⟨.updateIndices, b, c⟩]) = actionsOf .startKernel history :=
    actionsOf_concat_of_ne (by decide) history b c
  have hsum : ∀ k f r,
      totalAt k ((records history ++ [r]).map f) = totalAt k ((records history).map f) + (f r).getD k 0 := by
    intro k f r
    rw [map_append, totalAt_append]
    rfl
  have hall : ∀ r : CallRecord, (actionsOf .startKernel history).take (records history ++ [r]).length =
      actionsOf .startKernel history := by
    intro r
    rw [take_of_length_le]
    rw [hlaunched, length_append, length_singleton]
  refine ⟨?_, ?_, fun {i spec} hspec => ?_, fun hspec => ?_⟩ <;> rw [hbooked.profile, hrecords]
  · rw [← remember_window, ← h.calls]
    rfl
  · rw [countP_append, ← h.idle]
    simp only [LinkProfile.finish, countP_singleton]
    split_ifs <;> rfl
  · obtain ⟨p, hp, rfl⟩ := exists_port hins hspec
    obtain ⟨q, hq, n, -, -, -, hmoved, -⟩ := hbooked.inputs.after hp
    obtain ⟨transfers, hnoted⟩ := h.input hspec
    have hbytes := htraffic.pushed (hcin ▸ hq)
    rw [hlaunches, hmoved.spec] at hbytes
    refine ⟨q.transferCount, ?_⟩
    simp only [LinkProfile.finish]
    rw [addTokens_getElem?, freshPorts_input hq, hnoted, hlaunches, hsum, hall, ← hbytes]
    have hi : i < consumed.length := hcount ▸ lt_of_getElem? hspec
    simp [portProfile, hmoved.spec, getElem?_append_left hi]
  · obtain ⟨p, hp, rfl⟩ := exists_port houts hspec
    obtain ⟨q, hq, n, -, -, -, hmoved, -⟩ := hbooked.outputs.after hp
    obtain ⟨transfers, hnoted⟩ := h.output hspec
    have hbytes := htraffic.pulled (hcout ▸ hq)
    rw [hrecords, hmoved.spec] at hbytes
    refine ⟨q.transferCount, ?_⟩
    simp only [LinkProfile.finish]
    rw [← hbytes, hsum, addTokens_getElem?, hnoted, ← hlen, freshPorts_output hq, hlen, ← hcount]
    simp [portProfile, hmoved.spec, getElem?_append_right]

end Noted

end LinkProfile

namespace Bridge

open LinkProfile

variable {δ : Type} {ins outs : List LinkPort}

/-! ## Along a history -/

/-- the counters, as history and phase have them -/
structure Counts (b : Bridge δ) (history : List (Taken δ)) : Prop where
  callIndex : b.callIndex = b.profile.kernelCalls
  launched : (actionsOf .startKernel history).length = b.profile.kernelCalls
  finished : (actionsOf .updateIndices history).length = b.profile.visits.pollRead
  pollKernel : b.profile.visits.pollKernel = b.profile.kernelCalls
  init : b.profile.visits.init = b.profile.cycles + 1
  opened : b.profile.kernelCalls = b.profile.cycles + if b.phase = .init then 0 else 1
  closed : b.profile.visits.pollRead = b.profile.cycles + if b.phase = .pollRead then 1 else 0

/-- profile and history agree, and so do the ports of a bridge that works -/
structure Agrees (ins outs : List LinkPort) (b : Bridge δ) (history : List (Taken δ)) : Prop where
  counts : b.Counts history
  noted : b.profile.Noted ins outs history
  works : b.failed = false → b.Traffic history ∧ b.inputs.map (·.spec) = ins ∧ b.outputs.map (·.spec) = outs

section Agrees

variable {b b' : Bridge δ} {history : List (Taken δ)} {action : BridgeAction}

theorem Counts.fresh (h : b.Fresh ins outs) : b.Counts [] := by
  refine ⟨?_, ?_, ?_, ?_, ?_, ?_, ?_⟩ <;> simp [h.phase, h.profile, h.callIndex, actionsOf]

/-- every action moves the counters on with the phase -/
theorem Counts.step (h : b.Counts history) (hstepped : b.StepsTo (some action) b') :
    b'.Counts (history ++ [⟨action, b, b'⟩]) := by
  obtain ⟨hcall, hlaunched, hfinished, hkernel, hinit, hopened, hclosed⟩ := h
  cases hstepped with
  | handsOn hphase hc =>
    constructor <;> simp [length_actionsOf_concat, hc.profile, hc.callIndex, hc.phase] <;> omega
  | collects hphase hc | starts hphase hc =>
    simp only [hphase, reduceCtorEq, if_true, if_false] at hopened hclosed
    constructor <;> simp [length_actionsOf_concat, hc.profile, hc.callIndex, LinkProfile.enter] <;> omega
  | books hphase hc =>
    simp only [hphase, reduceCtorEq, if_false] at hopened hclosed
    constructor <;> simp [length_actionsOf_concat, hc.profile, hc.callIndex, LinkProfile.enter, finish] <;> omega

/-- every action keeps profile and history in agreement -/
theorem Agrees.step (h : b.Agrees ins outs history) (hworks : b.failed = false)
    (hstepped : b.StepsTo (some action) b') : b'.Agrees ins outs (history ++ [⟨action, b, b'⟩]) := by
  obtain ⟨hcounts, hnoted, hports⟩ := h
  obtain ⟨htraffic, hins, houts⟩ := hports hworks
  have htraffic' := htraffic.step hstepped
  have hspecs := hstepped.specs
  rw [hins, houts] at hspecs
  refine ⟨hcounts.step hstepped, ?_, fun _ => ⟨htraffic', hspecs⟩⟩
  have hle : (records history).length ≤ (actionsOf .startKernel history).length := by
    rw [records_length, hcounts.launched, hcounts.finished, hcounts.opened, hcounts.closed]
    cases b.phase <;> simp
  cases hstepped with
  | handsOn hphase hc =>
    exact hnoted.keep (by decide) hle (by rw [hc.profile]) (by rw [hc.profile]) (by rw [hc.profile])
  | collects hphase hc =>
    exact hnoted.keep (by decide) hle (by simp [hc.profile]) (by simp [hc.profile]) (by simp [hc.profile])
  | starts hphase hc =>
    exact hnoted.keep (by decide) hle (by simp [hc.profile]) (by simp [hc.profile]) (by simp [hc.profile])
  | books hphase hc =>
    -- one launch is in flight, and it is the one that is booked
    have hflight : (actionsOf .startKernel history).length = (records history).length + 1 := by
      rw [records_length, hcounts.launched, hcounts.finished, hcounts.opened, hcounts.closed]
      simp [hphase]
    have hnumber : b.callIndex = (records history).length + 1 := by
      rw [hcounts.callIndex, ← hcounts.launched, hflight]
    have hfinished := hnoted.finish hc htraffic' rfl rfl hins houts hnumber hflight
    refine ⟨?_, ?_, ?_, ?_⟩ <;> simp only [enter_calls, enter_idleCalls, enter_ports]
    · exact hfinished.calls
    · exact hfinished.idle
    · exact hfinished.input
    · exact hfinished.output

theorem agrees_lasting (ins outs : List LinkPort) :
    Lasting ins outs (Agrees ins outs : Bridge δ → List (Taken δ) → Prop) where
  fresh h := ⟨.fresh h, .fresh h, fun _ => ⟨.fresh h, h.inSpecs, h.outSpecs⟩⟩
  moved _ h :=
    ⟨⟨h.counts.callIndex, h.counts.launched, h.counts.finished, h.counts.pollKernel, h.counts.init, h.counts.opened,
      h.counts.closed⟩,
      h.noted, fun hworks => ⟨⟨(h.works hworks).1.pushed, (h.works hworks).1.pulled⟩, (h.works hworks).2⟩⟩
  takes _ hworks hstepped h := h.step hworks hstepped
  stops {b b' ports ports' history} _ hunder h := by
    have hphase : b'.phase = b.phase := hunder.phase
    have hcall : b'.callIndex = b.callIndex := hunder.callIndex
    have hprofile : b'.profile = b.profile := hunder.profile
    refine ⟨⟨?_, ?_, ?_, ?_, ?_, ?_, ?_⟩, ?_, nofun⟩ <;> dsimp only <;> rw [hprofile]
    · rw [hcall]
      exact h.counts.callIndex
    · exact h.counts.launched
    · exact h.counts.finished
    · exact h.counts.pollKernel
    · exact h.counts.init
    · rw [hphase]
      exact h.counts.opened
    · rw [hphase]
      exact h.counts.closed
    · exact h.noted

end Agrees

end Bridge

/-- what an exact profile says about a history, for ports of these shapes -/
structure LinkProfile.Exact {δ : Type} (ins outs : List LinkPort) (history : List (Bridge.Taken δ))
    (l : LinkProfile) : Prop where
  launched : (Bridge.actionsOf .startKernel history).length = l.kernelCalls
  pollKernel : l.visits.pollKernel = l.kernelCalls
  init : l.visits.init = l.cycles + 1
  order : l.cycles ≤ l.visits.pollRead ∧ l.visits.pollRead ≤ l.kernelCalls ∧ l.kernelCalls ≤ l.cycles + 1
  /-- every finished call has its record -/
  finished : (Bridge.records history).length = l.visits.pollRead
  /-- the last calls are kept -/
  calls : l.calls = (Bridge.records history).drop (l.visits.pollRead - min 64 l.visits.pollRead)
  /-- their numbers are consecutive and end with the number of finished calls -/
  numbers : l.calls.map (·.call) = List.range' (l.visits.pollRead - min 64 l.visits.pollRead + 1)
    (min 64 l.visits.pollRead)
  idle : l.idleCalls = (Bridge.records history).countP CallRecord.isIdle
  /-- tokens consumed, and bytes of the tokens staged, over all finished calls -/
  input : ∀ {i spec}, ins[i]? = some spec → ∃ port, l.ports[i]? = some port ∧
    port.tokens = Bridge.totalAt i ((Bridge.records history).map (·.consumed)) ∧
    port.bytes = spec.tokenSize * Bridge.totalAt i
      (((Bridge.actionsOf .startKernel history).take l.visits.pollRead).map Bridge.Taken.staged)
  /-- tokens produced, and their bytes, over all finished calls -/
  output : ∀ {o spec}, outs[o]? = some spec → ∃ port, l.ports[ins.length + o]? = some port ∧
    port.tokens = Bridge.totalAt o ((Bridge.records history).map (·.produced)) ∧
    port.bytes = spec.tokenSize * port.tokens

/-- **The profile is exact**, whatever the device does. -/
theorem bridge_profile_is_exact {δ : Type} [Device δ] {ins outs : List LinkPort} {b : Bridge δ}
    {history : List (Bridge.Taken δ)} (h : Bridge.HasHistory ins outs b history) :
    b.profile.Exact ins outs history := by
  obtain ⟨⟨-, hlaunched, hfinished, hkernel, hinit, hopened, hclosed⟩, hnoted, -⟩ :=
    (h.lasting (Bridge.agrees_lasting ins outs)).1
  have hrecords := (Bridge.records_length history).trans hfinished
  have hwindow : b.profile.calls = (Bridge.records history).drop
    (b.profile.visits.pollRead - min 64 b.profile.visits.pollRead) := by
    rw [hnoted.calls, hrecords, LinkProfile.recentCalls]
    congr 1
    omega
  refine ⟨hlaunched, hkernel, hinit, ⟨?_, ?_, ?_⟩, hrecords, hwindow, ?_, hnoted.idle, fun hspec => ?_,
    fun hspec => ?_⟩
  · omega
  · rw [hopened, hclosed]
    cases b.phase <;> simp
  · rw [hopened]
    split_ifs <;> omega
  · rw [hwindow, map_drop, Bridge.records_call, drop_range', hrecords]
    congr 1 <;> omega
  · obtain ⟨transfers, hport⟩ := hnoted.input hspec
    exact ⟨_, hport, rfl, by rw [← hrecords]⟩
  · obtain ⟨transfers, hport⟩ := hnoted.output hspec
    exact ⟨_, hport, rfl, rfl⟩

/-- One launch in the first call and one in the second have moved a token each. -/
theorem bridge_profile_is_exact_two_rounds :
    ∃ b first second : Bridge (Accelerator StockKernel),
      Bridge.create "link" (Accelerator.create (StockKernel.echo 1) .immediate) [⟨"in", 1, 2⟩] [⟨"out", 1, 2⟩] = .ok b ∧
      first = (b.act 1 Ports.oneToken).actor ∧ second = (first.act 9 Ports.oneToken).actor ∧
      Bridge.HasHistory [⟨"in", 1, 2⟩] [⟨"out", 1, 2⟩] second
        (b.takenBy 1 Ports.oneToken ++ first.takenBy 9 Ports.oneToken) ∧
      second.profile = { name := "link", kernelCalls := 2, cycles := 2, visits := ⟨3, 2, 2⟩,
                         ports := [⟨"in", .input, 2, 2, 2⟩, ⟨"out", .output, 2, 2, 2⟩], calls :=
                         [⟨1, [1], [1]⟩, ⟨2, [1], [1]⟩] } ∧
      second.profile.Exact [⟨"in", 1, 2⟩] [⟨"out", 1, 2⟩]
        (b.takenBy 1 Ports.oneToken ++ first.takenBy 9 Ports.oneToken) := by
  obtain ⟨b, hb⟩ : ∃ b, Bridge.create "link" (Accelerator.create (StockKernel.echo 1) .immediate)
    [⟨"in", 1, 2⟩] [⟨"out", 1, 2⟩] = .ok b := ⟨_, rfl⟩
  have hcalls := eq_of_map_toOption hb (fun b =>
      let first := (b.act 1 Ports.oneToken).actor
      ((b.act 1 Ports.oneToken).exit.toOption, (first.act 9 Ports.oneToken).exit.toOption,
        (first.act 9 Ports.oneToken).actor.profile))
    (show _ = some (some .yield, some .yield,
        { name := "link", kernelCalls := 2, cycles := 2, visits := ⟨3, 2, 2⟩,
          ports := [⟨"in", .input, 2, 2, 2⟩, ⟨"out", .output, 2, 2, 2⟩], calls :=
          [⟨1, [1], [1]⟩, ⟨2, [1], [1]⟩] }) by decide +kernel)
  simp only [Prod.mk.injEq] at hcalls
  obtain ⟨hfirst, hsecond, hprofile⟩ := hcalls
  have hhistory :=
    ((Bridge.HasHistory.created (by decide) hb).called 1 Ports.oneToken (eq_ok_of_toOption hfirst)).called 9
    Ports.oneToken (eq_ok_of_toOption hsecond)
  exact ⟨b, _, _, hb, rfl, rfl, hhistory, hprofile, bridge_profile_is_exact hhistory⟩

end Dataflow
