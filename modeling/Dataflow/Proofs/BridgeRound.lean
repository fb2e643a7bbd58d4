import Dataflow.Proofs.PortRound

/-!
A bridge through a whole round.

`Bridge.Round` says in which state every port is, and that the device owes exactly what ports and launch wait for. One
port at a time can be taken out, worked on and put back (`Round.input`, `Round.output`).
-/

namespace Dataflow

open Function List Step

/-- one part of a concatenation is brought to the front; the rest does not depend on it -/
theorem flatMap_range_focus {α : Type} (f : Nat → List α) {i n : Nat} (hi : i < n) :
    ∃ rest, ((range n).flatMap f).Perm (f i ++ rest) ∧
      ∀ x, ((range n).flatMap (update f i x)).Perm (x ++ rest) := by
  have hmem : i ∈ range n := mem_range.2 hi
  have hperm := perm_cons_erase hmem
  refine ⟨((range n).erase i).flatMap f, ?_, fun x => ?_⟩
  · simpa using hperm.flatMap_right f
  · have hrest : ((range n).erase i).flatMap (update f i x) = ((range n).erase i).flatMap f := by
      apply flatMap_congr
      intro k hk
      exact update_of_ne ((nodup_range.mem_erase_iff.1 hk).1) _ _
    have := hperm.flatMap_right (update f i x)
    rwa [flatMap_cons, update_self, hrest] at this

/-- where the bytes of a bridge come from and go to, by port number and token size -/
structure Traffic where
  /-- the bytes that the bridge has taken from an input -/
  taken : Nat → Nat → Bytes → Prop
  /-- the bytes that the bridge has handed on to an output -/
  handed : Nat → Nat → Bytes → Prop

namespace Traffic

variable {κ : Type} (t : Traffic) (m : Machine (Recorded κ))

/-- what holds of an input: bytes have been taken, and it is in its state -/
def takes (SI : Nat → BridgePort.InputState κ) (k : Nat) (p : BridgePort) (P : List Promise) : Prop :=
  ∃ X, t.taken k p.spec.tokenSize X ∧ SI k m k p X P

def hands (SO : Nat → BridgePort.OutputState κ) (k : Nat) (p : BridgePort) (P : List Promise) : Prop :=
  ∃ A D, t.handed k p.spec.tokenSize (A.take (D * p.spec.tokenSize)) ∧ SO k m k p A D P

end Traffic

namespace Bridge

open BridgePort

variable {κ : Type} [Programmed κ] {SO' : Nat → OutputState κ} {SI' : Nat → InputState κ}

/-- the ports of one side, with a pair of buffers each, and what they wait for -/
structure Row (n first : Nat) (T : Nat → BridgePort → List Promise → Prop) (P : Nat → List Promise)
    (ports : List BridgePort) : Prop where
  count : ports.length = n
  buffers : ∀ {k p}, ports[k]? = some p → p.data = 2 * (first + k) ∧ p.index = 2 * (first + k) + 1
  each : ∀ {k p}, ports[k]? = some p → T k p (P k)

section Row

variable {n first k : Nat} {T T' : Nat → BridgePort → List Promise → Prop} {P : Nat → List Promise}
  {ports : List BridgePort} {p : BridgePort} {a : Promise}

section

variable (h : Row n first T P ports)

include h

theorem Row.mono (hT : ∀ {k p}, k < n → ports[k]? = some p → T k p (P k) → T' k p (P k)) :
    Row n first T' P ports := ⟨h.count, h.buffers, fun hp => hT (h.count ▸ lt_of_getElem? hp) hp (h.each hp)⟩

theorem Row.mem (hp : ports[k]? = some p) (ha : a ∈ P k) : a ∈ (range n).flatMap P :=
  mem_flatMap.2 ⟨k, mem_range.2 (h.count ▸ lt_of_getElem? hp), ha⟩

theorem Row.forall_mem {R : Promise → Prop} (hT : ∀ {k p Q}, T k p Q → ∀ a ∈ Q, R a) :
    ∀ a ∈ (range n).flatMap P, R a := by
  intro a ha
  obtain ⟨k, hk, ha⟩ := mem_flatMap.1 ha
  exact hT (h.each (getElem?_eq_getElem (h.count.symm ▸ mem_range.1 hk))) a ha

/-- a port is taken out: it can be worked on, and put back in another state -/
theorem Row.focus (hk : k < n) : ∃ p rest, ports[k]? = some p ∧ T k p (P k) ∧ ((range n).flatMap P).Perm (P k ++ rest) ∧
      ∀ {U p' Q}, Same p p' → U k p' Q →
        (∀ {j q Q}, j ≠ k → ports[j]? = some q → T j q Q → U j q Q) →
        ∃ P', Row n first U P' (ports.set k p') ∧ ((range n).flatMap P').Perm (Q ++ rest) := by
  have hlt : k < ports.length := h.count.symm ▸ hk
  have hp : ports[k]? = some ports[k] := getElem?_eq_getElem hlt
  obtain ⟨rest, hfront, hback⟩ := flatMap_range_focus P hk
  refine ⟨ports[k], rest, hp, h.each hp, hfront, fun {U p' Q} hsame hQ hothers => ?_⟩
  refine ⟨update P k Q, ⟨by rw [length_set, h.count], fun hq => ?_, fun hq => ?_⟩, hback Q⟩
  · rcases getElem?_set_cases hq with ⟨rfl, rfl⟩ | ⟨-, hq⟩
    · rw [hsame.data, hsame.index]
      exact h.buffers hp
    · exact h.buffers hq
  · rcases getElem?_set_cases hq with ⟨rfl, rfl⟩ | ⟨hj, hq⟩
    · rwa [update_self]
    · rw [update_of_ne hj]
      exact hothers hj hq (h.each hq)

end

end Row

/-- the state of all ports, and what the device owes them and the launch -/
def Round (nin nout : Nat) (d0 : Accelerator (Recorded κ)) (K : List Promise) (t : Traffic) (m : Machine (Recorded κ))
    (SI : Nat → InputState κ) (SO : Nat → OutputState κ) (d : Accelerator (Recorded κ))
    (ins outs : List BridgePort) : Prop :=
  ∃ PI PO, Row nin 0 (t.takes m SI) PI ins ∧ Row nout nin (t.hands m SO) PO outs ∧
    d.Serves d0 m (K ++ ((List.range nin).flatMap PI ++ (List.range nout).flatMap PO))

section Focus

variable {nin nout : Nat} {d0 d : Accelerator (Recorded κ)} {K : List Promise} {t : Traffic} {m : Machine (Recorded κ)}
  {SI : Nat → InputState κ} {SO : Nat → OutputState κ} {ins outs : List BridgePort} {i o : Nat}

theorem Round.counts (h : Round nin nout d0 K t m SI SO d ins outs) : ins.length = nin ∧ outs.length = nout := by
  obtain ⟨PI, PO, hI, hO, -⟩ := h
  exact ⟨hI.count, hO.count⟩

theorem Round.congr
    (h : Round nin nout d0 K t m SI SO d ins outs) (hin : ∀ j < nin, SI j = SI' j) (hout : ∀ o < nout, SO o = SO' o) :
    Round nin nout d0 K t m SI' SO' d ins outs := by
  obtain ⟨PI, PO, hI, hO, hd⟩ := h
  refine ⟨PI, PO, hI.mono fun {j p} hj _ h => ?_, hO.mono fun {o p} ho _ h => ?_, hd⟩
  · rwa [Traffic.takes, ← hin j hj]
  · rwa [Traffic.hands, ← hout o ho]

theorem perm_focus {α : Type} {K L M P rest : List α} (hL : L.Perm (P ++ rest)) :
    (K ++ (L ++ M)).Perm (P ++ (rest ++ (K ++ M))) := by
  refine (perm_append_comm_assoc K L M).trans ((hL.append_right _).trans ?_)
  rw [append_assoc]

/-- input `i` is taken out: it can be worked on, and put back in another state -/
theorem Round.input (h : Round nin nout d0 K t m SI SO d ins outs) (hi : i < nin) :
    ∃ p X P F, ins[i]? = some p ∧ t.taken i p.spec.tokenSize X ∧ SI i m i p X P ∧ d.Serves d0 m (P ++ F) ∧
      ∀ {u d' m' p' X'}
        {P'} {S'}, Same p p' → u.taken i p'.spec.tokenSize X' → S' m' i p' X' P' →
        d'.Serves d0 m' (P' ++ F) →
        (∀ {j q Q}, j ≠ i → ins[j]? = some q → t.takes m SI j q Q → u.takes m' SI j q Q) →
        (∀ {o q Q}, outs[o]? = some q → t.hands m SO o q Q → u.hands m' SO o q Q) →
        Round nin nout d0 K u m' (update SI i S') SO d' (ins.set i p') outs := by
  obtain ⟨PI, PO, hI, hO, hd⟩ := h
  obtain ⟨p, rest, hp, ⟨X, htaken, hS⟩, hfront, hback⟩ := hI.focus hi
  refine ⟨p, X, PI i, _, hp, htaken, hS, hd.perm (perm_focus hfront), ?_⟩
  intro u d' m' p' X' P' S' hsame htaken' hS' hd' hins houts
  obtain ⟨PI', hI', hfront'⟩ := hback (U := u.takes m' (update SI i S')) hsame ⟨X', htaken', by rwa [update_self]⟩
    fun hj hq h => by simpa only [Traffic.takes, update_of_ne hj] using hins hj hq h
  exact ⟨PI', PO, hI', hO.mono fun _ hq => houts hq, hd'.perm (perm_focus hfront').symm⟩

/-- output `o` is taken out: it can be worked on, and put back in another state -/
theorem Round.output (h : Round nin nout d0 K t m SI SO d ins outs) (ho : o < nout) :
    ∃ p A D P F, outs[o]? = some p ∧ t.handed o p.spec.tokenSize (A.take (D * p.spec.tokenSize)) ∧ SO o m o p A D P ∧
      d.Serves d0 m (P ++ F) ∧
      ∀ {u d' p' D'}
        {P'} {S'}, Same p p' →
        u.handed o p'.spec.tokenSize (A.take (D' * p'.spec.tokenSize)) → S' m o p' A D' P' → d'.Serves d0 m (P' ++ F) →
        (∀ {j q X}, ins[j]? = some q → t.taken j q.spec.tokenSize X → u.taken j q.spec.tokenSize X) →
        (∀ {k q Y}, k ≠ o → outs[k]? = some q → t.handed k q.spec.tokenSize Y → u.handed k q.spec.tokenSize Y) →
        Round nin nout d0 K u m SI (update SO o S') d' ins (outs.set o p') := by
  obtain ⟨PI, PO, hI, hO, hd⟩ := h
  obtain ⟨p, rest, hp, ⟨A, D, hhanded, hS⟩, hfront, hback⟩ := hO.focus ho
  have hperm := fun {L P : List Promise} (hL : L.Perm (P ++ rest)) =>
    (perm_append_comm.append_left K).trans (perm_focus (M := (range nin).flatMap PI) hL)
  refine ⟨p, A, D, PO o, _, hp, hhanded, hS, hd.perm (hperm hfront), ?_⟩
  intro u d' p' D' P' S' hsame hhanded' hS' hd' hins houts
  obtain ⟨PO', hO', hfront'⟩ := hback (U := u.hands m (update SO o S')) hsame ⟨A, D', hhanded', by rwa [update_self]⟩
    fun hk hq ⟨A, D, h, hS⟩ => ⟨A, D, houts hk hq h, by rwa [update_of_ne hk]⟩
  exact ⟨PI, PO', hI.mono fun _ hq ⟨X, h, hS⟩ => ⟨X, hins hq h, hS⟩, hO', hd'.perm (hperm hfront').symm⟩

end Focus

variable {δ : Type}

/-- the same bridge, but for its ports, its device and its notes -/
structure Alike (b b' : Bridge δ) : Prop where
  phase : b'.phase = b.phase
  kernel : b'.kernel = b.kernel
  failed : b'.failed = b.failed

theorem Alike.refl (b : Bridge δ) : Alike b b := ⟨rfl, rfl, rfl⟩

theorem Alike.trans {b b' b'' : Bridge δ} (h1 : Alike b b') (h2 : Alike b' b'') : Alike b b'' :=
  ⟨h2.phase.trans h1.phase, h2.kernel.trans h1.kernel, h2.failed.trans h1.failed⟩

/-! ## Open ports -/

/-- what is known of the connections of a bridge while its ports are open -/
structure Neighbours where
  /-- of an input: number, end, tokens released, connection, ledger -/
  source : Nat → InputEnd → Nat → Connection → Ledger → Prop
  /-- of an output: number, end, connection, ledger -/
  sink : Nat → OutputEnd → Connection → Ledger → Prop
  /-- writing to an output does not invalidate it -/
  sink_write : ∀ {o e c l storage n bytes}, c.Tracks l → sink o e c l → sink o e { c with storage } (l.write n bytes)

/-- the traffic over the open ports of a call: input `j` is on connection `j`, the outputs follow the inputs. What has
been handed on, the kernel has written by now, on the device as it is -/
def Neighbours.traffic (N : Neighbours) (nin : Nat) (d0 : Accelerator (Recorded κ)) (ports : Ports) : Traffic where
  taken j tokenSize X := j < nin ∧ ∃ e q c v l, ports.Draws j e q j c v l ∧ c.tokenSize = tokenSize ∧
    X = l.stream.take ((q + v.moved) * tokenSize) ∧ N.source j e q c l
  handed o tokenSize Y := ∃ e c v l, ports.Fills o e (nin + o) c v l ∧ c.tokenSize = tokenSize ∧ l.stream = Y ∧
    N.sink o e c l ∧ ∃ accepted, d0.machine.kernel.accepted[o]? = some accepted ∧ Y <+: accepted

section Steps

variable {nin nout : Nat} {d0 : Accelerator (Recorded κ)} {K : List Promise} {m : Machine (Recorded κ)} {N : Neighbours}
  {b0 : Bridge (Accelerator (Recorded κ))} {s : Bridge (Accelerator (Recorded κ)) × Ports} {SI : Nat → InputState κ}
  {SO : Nat → OutputState κ} {i o : Nat}

/-- a bridge with its open ports: all ports are in these states, and phase, launch and failure are those of `b0` -/
def Stands (nin nout : Nat) (d0 : Accelerator (Recorded κ)) (K : List Promise) (N : Neighbours)
    (b0 : Bridge (Accelerator (Recorded κ))) (m : Machine (Recorded κ)) (SI : Nat → InputState κ)
    (SO : Nat → OutputState κ) (s : Bridge (Accelerator (Recorded κ)) × Ports) : Prop :=
  Round nin nout d0 K (N.traffic nin d0 s.2) m SI SO s.1.device s.1.inputs s.1.outputs ∧ Alike b0 s.1

/-! ## Handing on -/

theorem freeUp_yields (hm : d0.machine = m) (ho : o < nout)
    (h : Stands nin nout d0 K N b0 m SI (fun _ => OutputIdle) s) :
    Yields (freeUp o) s fun _ s' => Stands nin nout d0 K N b0 m SI (fun _ => OutputIdle) s' := by
  obtain ⟨b, ports⟩ := s
  obtain ⟨hr, hb⟩ := h
  obtain ⟨p, A, D, P, F, hp, ⟨e, c, v, l, hfills, hts, hstream, hsink, hacc⟩, ⟨M, hs, hl, hq, hP⟩, hd, hback⟩ :=
    hr.output ho
  have hconst : update (fun _ => @OutputIdle κ) o OutputIdle = fun _ => OutputIdle := update_eq_self o _
  refine (freeUp_spec hp hs hfills hts).mono ?_
  rintro - _ ⟨taken, bytes, stalled, storage, v', -, rfl, -, htake, hs', hfills'⟩
  refine ⟨?_, hb.trans ⟨rfl, rfl, rfl⟩⟩
  have hidle : OutputIdle m o (p.handedOn D taken) A (D + taken) P :=
    ⟨M, hs', ⟨hl.geometry, hl.head, rfl, hl.length, hs'.order, hl.storage, hl.accepted, hl.word⟩,
      ⟨hq.first, hq.second, hq.index⟩, hP⟩
  have hround := hback (u := N.traffic nin d0 { ports with
      wires := ports.wires.set (nin + o) { c with storage }, outputs := ports.outputs.set o ⟨nin + o, v'⟩ })
    (show Same p (p.handedOn D taken) from ⟨rfl, rfl, rfl⟩) ?_ hidle hd ?_ ?_
  · rwa [hconst] at hround
  · refine ⟨e, _, v', _, hfills', hts, ?_, N.sink_write hfills.tracks hsink, A, by rw [hm]; exact hl.accepted,
      take_prefix _ _⟩
    exact (congrArg (· ++ bytes) hstream).trans htake.symm
  · rintro j q X - ⟨hj, e', q', c', v'', l', hdraws, hrest⟩
    exact ⟨hj, e', q', c', v'', l', ⟨hdraws.port, by rw [getElem?_set_ne (by omega)]; exact hdraws.wire,
      hdraws.tracks, hdraws.reads⟩, hrest⟩
  · rintro k q Y hk - ⟨e', c', v'', l', hf, hrest⟩
    exact ⟨e', c', v'', l', ⟨by rw [getElem?_set_ne (by omega)]; exact hf.port,
      by rw [getElem?_set_ne (by omega)]; exact hf.wire, hf.tracks, hf.writes⟩, hrest⟩

theorem freeUpOutputs_yields (hm : d0.machine = m) (h : Stands nin nout d0 K N b0 m SI (fun _ => OutputIdle) s) :
    Yields freeUpOutputs s fun _ s' => Stands nin nout d0 K N b0 m SI (fun _ => OutputIdle) s' := by
  refine ends_theBridge ?_
  rw [h.1.counts.2]
  exact (ends_mapM (fun s => Stands nin nout d0 K N b0 m SI (fun _ => OutputIdle) s) h
    fun o ho s hs => freeUp_yields hm (mem_range.1 ho) hs).forM

/-! ## Sending -/

/-- an input state that other buffers do not matter to -/
def Framed (S : InputState κ) : Prop := ∀ {m m' j p X P}, S m j p X P → BridgePort.Spares p m m' → S m' j p X P

theorem sendInput_yields (hi : i < nin) (hframed : ∀ j < nin, Framed (SI j)) (hidle : SI i = InputIdle)
    (h : Stands nin nout d0 K N b0 m SI (fun _ => OutputIdle) s) :
    Yields (sendInput i) s fun _ s' =>
      ∃ m', Stands nin nout d0 K N b0 m' (update SI i InputSent) (fun _ => OutputIdle) s' := by
  obtain ⟨b, ports⟩ := s
  obtain ⟨hr, hb⟩ := h
  obtain ⟨p, X, P, F, hp, ⟨-, e, q, c, v, l, hdraws, hts, hX, hsource⟩, hS, hd, hback⟩ := hr.input hi
  rw [hidle] at hS
  obtain ⟨T, H, hs, hl, hq, rfl⟩ := hS
  obtain ⟨PI, PO, hI, hO, -⟩ := id hr
  have hids := hI.buffers hp
  refine (sendInput_spec Accelerator.paces hp hs hl.storage hq hdraws hts hd).mono ?_
  rintro - _ ⟨n, bytes, p', d', v', -, rfl, hbytes, hmoved, hdraws', hsame, hs', hhead, hindex,
    m', P', blk, hpush, hd', hre, hring⟩
  refine ⟨m', ?_, hb.trans ⟨rfl, rfl, rfl⟩⟩
  refine hback hsame ?_
    (InputSent.of_push hs hl (by grind) hsame hs' hhead hindex hpush hre hring) hd' ?_ ?_
  · refine ⟨hi, e, q, c, v', l, hdraws', hts.trans (congrArg LinkPort.tokenSize hsame.spec.symm), ?_, hsource⟩
    rw [hsame.spec, hmoved, ← Nat.add_assoc, Nat.add_mul (q + v.moved), take_add, ← hX, hbytes, hts]
  · rintro j q' P'' hj hq ⟨X', ⟨hjn, e', r, c', v'', l', hdr, hrest⟩, hSj⟩
    refine ⟨X', ⟨hjn, e', r, c', v'', l', ⟨by rw [getElem?_set_ne (Ne.symm hj)]; exact hdr.port, hdr.wire, hdr.tracks,
      hdr.reads⟩, hrest⟩, hframed j hjn hSj (hre.spares ?_ ?_)⟩
    · have := hI.buffers hq; grind
    · have := hI.buffers hq; grind
  · rintro o q' P'' hq ⟨A, D, ⟨e', c', v'', l', hf, hrest⟩, hSo⟩
    refine ⟨A, D, ⟨e', c', v'', l', { hf with }, hrest⟩, hSo.frame (hre.spares ?_ ?_)⟩
    · have := hO.buffers hq; grind
    · have := hO.buffers hq; grind

theorem Stands.congr (h : Stands nin nout d0 K N b0 m SI SO s)
    (hin : ∀ j < nin, SI j = SI' j) (hout : ∀ o < nout, SO o = SO' o) : Stands nin nout d0 K N b0 m SI' SO' s :=
  ⟨h.1.congr hin hout, h.2⟩

theorem sendInputs_yields (h : Stands nin nout d0 K N b0 m (fun _ => InputIdle) (fun _ => OutputIdle) s) :
    Yields ((range nin).forM sendInput) s fun _ s' =>
      ∃ m', Stands nin nout d0 K N b0 m' (fun _ => InputSent) (fun _ => OutputIdle) s' := by
  have hsweep := ends_sweep (x := @InputIdle κ)
    (I := fun SI s => (∀ j < nin, Framed (SI j)) ∧ ∃ m, Stands nin nout d0 K N b0 m SI (fun _ => OutputIdle) s)
    (fun f f' s heq ⟨hframed, m, hs⟩ =>
      ⟨fun j hj => heq j hj ▸ hframed j hj, m, hs.congr heq fun _ _ => rfl⟩)
    ⟨fun _ _ => InputIdle.frame, m, h⟩
    (fun i hi f s hidle ⟨hframed, m, hs⟩ => (sendInput_yields hi hframed hidle hs).mono
      fun _ s' hs' => ⟨fun j hj => ?_, hs'⟩)
  · exact hsweep.forM.mono fun _ s' hs' => hs'.2
  · by_cases hji : j = i
    · subst hji
      rw [update_self]
      exact InputSent.frame
    · rw [update_of_ne hji]
      exact hframed j hj

/-! ## Launching -/

/-- a launch finds every ring in order -/
theorem launch_yields (hwithin : ∀ state : κ, (Programmed.program state).Within nin nout)
    (h : Stands nin nout d0 [] N b0 m (fun _ => InputSent) (fun _ => OutputIdle) s) :
    Yields (onDevice (Device.submit
        (.launch ⟨s.1.inputs.map kernelArgs, s.1.outputs.map kernelArgs⟩))) s fun e s' =>
      ∃ m', Stands nin nout d0 [(e, none)] N b0 m' (fun _ => InputCalled) (fun _ => OutputCalled) s' := by
  obtain ⟨b, ports⟩ := s
  obtain ⟨hr, hb⟩ := h
  obtain ⟨PI, PO, hI, hO, hd⟩ := hr
  have hargs : ∀ {ports : List BridgePort} {k : Nat} {ring}, (ports.map kernelArgs)[k]? = some ring →
      ∃ p, ports[k]? = some p ∧ p.kernelArgs = ring := by
    intro ports k ring hring
    rw [getElem?_map] at hring
    exact Option.map_eq_some_iff.1 hring
  have hnum : KernelArgs.Numbered ⟨b.inputs.map kernelArgs, b.outputs.map kernelArgs⟩ := by
    refine ⟨fun hring => ?_, fun hring => ?_⟩
    · obtain ⟨p, hp, rfl⟩ := hargs hring
      simpa [kernelArgs] using hI.buffers hp
    · obtain ⟨p, hp, rfl⟩ := hargs hring
      simpa [kernelArgs, hI.count] using hO.buffers hp
  obtain ⟨m', hperf, hdrawn, hgrown⟩ := Machine.launch_performs hnum
    (by simpa [hI.count, hO.count] using hwithin)
    (fun hring => by
      obtain ⟨p, hp, rfl⟩ := hargs hring
      obtain ⟨X, -, T, H, -, hl, -⟩ := hI.each hp
      exact ⟨_, X, T, H, hl⟩)
    (fun hring => by
      obtain ⟨p, hp, rfl⟩ := hargs hring
      obtain ⟨A, D, -, n, -, hl, -⟩ := hO.each hp
      exact ⟨_, A, D, n, hl⟩)
  refine ends_zoom ((hd.submit hperf).mono fun e d' hd' => ⟨m', ?_, hb.trans ⟨rfl, rfl, rfl⟩⟩)
  refine ⟨PI, PO, hI.mono fun _ hp htakes => ?_, hO.mono fun _ hp hhands => ?_, hd'⟩
  · obtain ⟨X, htaken, hS⟩ := htakes
    exact ⟨X, htaken, hS.called (hdrawn (by rw [getElem?_map, hp]; rfl))⟩
  · obtain ⟨A, D, hhanded, hS⟩ := hhands
    obtain ⟨A', hpre, hcalled⟩ := hS.called (hgrown (by rw [getElem?_map, hp]; rfl))
    exact ⟨A', D, by rw [hS.handed hpre]; exact hhanded, hcalled⟩

/-! ## Operations that leave machine and connections alone -/

section Quietly

variable {α : Type} {op : BridgePort.Op (Accelerator (Recorded κ)) α}

/-- a loop that takes every input from one state to another -/
theorem Stands.onInputs {S T : InputState κ} (hop : ∀ {i p d X P F}, S m i p X P → d.Serves d0 m (P ++ F) →
      Yields op (p, d) fun _ s' => Same p s'.1 ∧ ∃ P', T m i s'.1 X P' ∧ s'.2.Serves d0 m (P' ++ F))
    (h : Stands nin nout d0 K N b0 m (fun _ => S) SO s) :
    Yields ((range nin).mapM fun i => onInput i op) s fun _ s' => Stands nin nout d0 K N b0 m (fun _ => T) SO s' := by
  refine ends_sweep (I := fun SI s => Stands nin nout d0 K N b0 m SI SO s)
    (fun _ _ _ heq hs => hs.congr heq fun _ _ => rfl) h ?_
  rintro i hi SI ⟨b, ports⟩ hS hs
  obtain ⟨p, X, P, F, hp, htaken, hSI, hd, hback⟩ := hs.1.input hi
  rw [hS] at hSI
  refine ends_onInput hp ((hop hSI hd).mono ?_)
  rintro - ⟨p1, d1⟩ ⟨hsame, P', hT, hd1⟩
  exact ⟨hback hsame (by rw [hsame.spec]; exact htaken) hT hd1 (fun _ _ h => h) (fun _ h => h),
    hs.2.trans ⟨rfl, rfl, rfl⟩⟩

theorem Stands.onOutput {S T : OutputState κ} (hop : ∀ {p d A D P F}, S m o p A D P → d.Serves d0 m (P ++ F) →
      Yields op (p, d) fun _ s' => Same p s'.1 ∧ ∃ P', T m o s'.1 A D P' ∧ s'.2.Serves d0 m (P' ++ F))
    (ho : o < nout) (hS : SO o = S) (h : Stands nin nout d0 K N b0 m SI SO s) :
    Yields (onOutput o op) s fun _ s' => Stands nin nout d0 K N b0 m SI (update SO o T) s' := by
  obtain ⟨p, A, D, P, F, hp, hhanded, hSO, hd, hback⟩ := h.1.output ho
  rw [hS] at hSO
  refine ends_onOutput hp ((hop hSO hd).mono ?_)
  rintro - ⟨p1, d1⟩ ⟨hsame, P', hT, hd1⟩
  exact ⟨hback hsame (by rw [hsame.spec]; exact hhanded) hT hd1 (fun _ h => h) (fun _ _ h => h),
    h.2.trans ⟨rfl, rfl, rfl⟩⟩

end Quietly

variable {α : Type} {g : Nat → Op (Accelerator (Recorded κ)) α}

/-- a loop that takes every output from one state to another -/
theorem Stands.outputs {S T : OutputState κ}
    (hg : ∀ {o SO s}, o < nout → SO o = S → Stands nin nout d0 K N b0 m SI SO s →
      Yields (g o) s fun _ s' => Stands nin nout d0 K N b0 m SI (update SO o T) s')
    (h : Stands nin nout d0 K N b0 m SI (fun _ => S) s) :
    Yields ((range nout).mapM g) s fun _ s' => Stands nin nout d0 K N b0 m SI (fun _ => T) s' :=
  ends_sweep
    (fun _ _ _ heq hs => hs.congr (fun _ _ => rfl) heq) h fun _ ho _ _ hS hs => hg ho hS hs

/-- from idle ports to a launch with everything asked for -/
theorem startKernel_yields (hwithin : ∀ state : κ, (Programmed.program state).Within nin nout)
    (h : Stands nin nout d0 [] N b0 m (fun _ => InputIdle) (fun _ => OutputIdle) s) :
    Yields startKernel s fun _ s' => ∃ m' e,
      Stands nin nout d0 [(e, none)] N { b0 with kernel := some e } m' (fun _ => InputAsked)
      (fun _ => OutputAsked) s' := by
  refine ends_bind (ends_modify (ends_theBridge ?_))
  simp only [h.1.counts.1]
  have h1 : Stands nin nout d0 [] N b0 m (fun _ => InputIdle) (fun _ => OutputIdle)
      ({ s.1 with shouldRetry := false }, s.2) := ⟨h.1, h.2.trans ⟨rfl, rfl, rfl⟩⟩
  refine ends_bind ((sendInputs_yields h1).mono fun _ s2 ⟨m2, h2⟩ => ?_)
  refine ends_theBridge (ends_bind ((launch_yields hwithin h2).mono fun e s3 ⟨m3, h3⟩ => ?_))
  rw [h2.1.counts.1, h2.1.counts.2]
  refine ends_bind ((h3.onInputs InputCalled.ask).forM.mono fun _ s4 h4 => ?_)
  refine ends_bind ((Stands.outputs (fun ho hS hs => hs.onOutput OutputCalled.ask ho hS) h4).forM.mono
    fun _ s5 h5 => ?_)
  exact ends_modify ⟨m3, e, h5.1, h5.2.phase, rfl, h5.2.failed⟩

end Steps

/-! ## Events -/

section Polls

variable {nin nout : Nat} {d0 d : Accelerator (Recorded κ)} {K : List Promise} {t : Traffic} {m : Machine (Recorded κ)}
  {SI : Nat → InputState κ} {SO : Nat → OutputState κ} {ins outs : List BridgePort} {e : EventId} {p : BridgePort}

/-- an input whose commands are all carried out -/
def InputDone (d0 : Accelerator (Recorded κ)) (S : InputState κ) : InputState κ := fun m j p X P =>
  S m j p X P ∧ ∀ a ∈ P, d0.events.status a.1 = .done

def OutputDone (d0 : Accelerator (Recorded κ)) (S : OutputState κ) : OutputState κ := fun m o p A D P =>
  S m o p A D P ∧ ∀ a ∈ P, d0.events.status a.1 = .done

theorem Round.status (h : Round nin nout d0 K t m SI SO d ins outs) (hin : ∀ {j p X P}, SI j m j p X P → p.Covers P)
    (hout : ∀ {o p A D P}, SO o m o p A D P → p.Covers P) (hp : p ∈ ins ++ outs) (he : e ∈ p.inFlight) :
    d.events.status e = .pending ∨ d.events.status e = .done := by
  obtain ⟨PI, PO, hI, hO, hd⟩ := h
  rcases mem_append.1 hp with hp | hp <;> obtain ⟨k, hk⟩ := getElem?_of_mem hp
  · obtain ⟨X, -, hS⟩ := hI.each hk
    obtain ⟨⟨e', v⟩, hv, rfl⟩ := mem_map.1 ((hin hS e).1 he)
    exact hd.owes.status (mem_append_right _ (mem_append_left _ (hI.mem hk hv)))
  · obtain ⟨A, D, -, hS⟩ := hO.each hk
    obtain ⟨⟨e', v⟩, hv, rfl⟩ := mem_map.1 ((hout hS e).1 he)
    exact hd.owes.status (mem_append_right _ (mem_append_right _ (hO.mem hk hv)))

/-- ports with nothing pending are done -/
theorem Round.done (h : Round nin nout d0 K t m SI SO d0 ins outs) (hin : ∀ {j p X P}, SI j m j p X P → p.Covers P)
    (hout : ∀ {o p A D P}, SO o m o p A D P → p.Covers P)
    (hins : ∀ {j p X P}, p ∈ ins → SI j m j p X P → ∀ e ∈ p.inFlight, d0.events.status e ≠ .pending)
    (houts : ∀ {o p A D P}, p ∈ outs → SO o m o p A D P → ∀ e ∈ p.inFlight, d0.events.status e ≠ .pending) :
    Round nin nout d0 K t m (fun j => InputDone d0 (SI j)) (fun o => OutputDone d0 (SO o)) d0 ins outs := by
  have hstatus := fun {p e} => h.status (p := p) (e := e) hin hout
  obtain ⟨PI, PO, hI, hO, hd⟩ := h
  refine ⟨PI, PO, hI.mono fun _ hp ⟨X, htaken, hS⟩ => ⟨X, htaken, hS, fun a ha => ?_⟩,
    hO.mono fun _ hp ⟨A, D, hhanded, hS⟩ => ⟨A, D, hhanded, hS, fun a ha => ?_⟩, hd⟩ <;> have hmem := mem_of_getElem? hp
  · have hflight := (hin hS a.1).2 (mem_map_of_mem ha)
    exact (hstatus (mem_append_left _ hmem) hflight).resolve_left (hins hmem hS _ hflight)
  · have hflight := (hout hS a.1).2 (mem_map_of_mem ha)
    exact (hstatus (mem_append_right _ hmem) hflight).resolve_left (houts hmem hS _ hflight)

/-- a launch that is not pending is over -/
theorem Round.launch_done (h : Round nin nout d0 [(e, none)] t m SI SO d0 ins outs)
    (hpoll : d0.events.status e ≠ .pending) : Round nin nout d0 [] t m SI SO d0 ins outs := by
  obtain ⟨PI, PO, hI, hO, hd⟩ := h
  exact ⟨PI, PO, hI, hO, hd.forget ((hd.owes.status mem_cons_self).resolve_left hpoll)⟩

end Polls

end Bridge

end Dataflow
