import Dataflow.Proofs.OpenPorts
import Dataflow.Proofs.PortCycle

/-!
Tokens between the connections of a bridge and its staging rings.

Handing on (`Bridge.freeUp_spec`) and sending (`Bridge.sendInput_spec`) move as many as there is room for, and leave all
other ports and connections alone.
-/

namespace Dataflow

open List Step

/-- the next tokens of an open input are there in full -/
theorem Ports.Draws.length_next {ports : Ports} {i w r n : Nat} {e : InputEnd} {c : Connection} {v : PortView}
    {l : Ledger} (h : ports.Draws i e r w c v l) (hn : n ≤ v.available) :
    ((l.stream.drop ((r + v.moved) * c.tokenSize)).take (n * c.tokenSize)).length = n * c.tokenSize := by
  have hreadable := (h.tracks.readable h.reads).1
  have hpublished := h.tracks.published_le
  have hle : (r + v.moved + n) * c.tokenSize ≤ l.stream.length := by
    rw [h.tracks.length]
    exact Nat.mul_le_mul_right _ (by omega)
  rw [Nat.add_mul] at hle
  rw [length_take, length_drop]
  omega

namespace BridgePort

variable {δ : Type} {p : BridgePort} {d : δ} {A : Bytes} {D M : Nat}

/-- the port after `taken` more tokens were handed on -/
def handedOn (p : BridgePort) (D taken : Nat) : BridgePort :=
  { p with host := { p.host with tail := (D + taken) % p.spec.capacity },
           device := { p.device with tail := (D + taken) % p.spec.capacity } }

/-- staged tokens are taken out, in order and as many as there is room for -/
theorem Staged.unstage_yields (hs : p.Staged A D M) (room : Nat) :
    Yields (do
        let (bytes, port) ← (← thePort).unstage room
        putPort port
        return bytes : Op δ Bytes) (p, d) fun bytes s' => ∃ taken, taken = min (M - D) room ∧
        s' = (p.handedOn D taken, d) ∧
      bytes.length = taken * p.spec.tokenSize ∧
      A.take ((D + taken) * p.spec.tokenSize) = A.take (D * p.spec.tokenSize) ++ bytes ∧
      (p.handedOn D taken).Staged A (D + taken) M := by
  have hord := hs.order
  obtain ⟨taken, htaken, hunstage, hs'⟩ := hs.unstage room
  refine ends_thePort (ends_bind (ends_ok hunstage ?_))
  refine ends_putPort (ends_pure ⟨taken, htaken, rfl, ?_, ?_, hs'⟩)
  · have hle : (D + taken) * p.spec.tokenSize ≤ M * p.spec.tokenSize := Nat.mul_le_mul_right _ (by omega)
    rw [Nat.add_mul] at hle
    simp only [length_take, length_drop, hs.length]
    omega
  · rw [Nat.add_mul, take_add]

end BridgePort

namespace Bridge

open BridgePort

section FreeUp

variable {δ : Type} {b : Bridge δ} {ports : Ports} {o w D M : Nat} {p : BridgePort} {A : Bytes} {e : OutputEnd}
  {c : Connection} {v : PortView} {l : Ledger}

/-- an output hands on what it has staged -/
theorem freeUp_spec (hp : b.outputs[o]? = some p) (hs : p.Staged A D M) (hfills : ports.Fills o e w c v l)
    (hsize : c.tokenSize = p.spec.tokenSize) :
    Yields (freeUp o) (b, ports) fun _ s' => ∃ taken bytes stalled storage v', taken = min (M - D) v.available ∧
      s' = ({ b with outputs := b.outputs.set o (p.handedOn D taken), stalled },
        { ports with wires := ports.wires.set w { c with storage }, outputs := ports.outputs.set o ⟨w, v'⟩ }) ∧
      (stalled = true → b.stalled = true) ∧
      A.take ((D + taken) * p.spec.tokenSize) = A.take (D * p.spec.tokenSize) ++ bytes ∧
      (p.handedOn D taken).Staged A (D + taken) M ∧ s'.2.Fills o e w { c with storage } v' (l.write taken bytes) := by
  refine ends_thePorts (ends_bind (ends_ok hfills.availableOut ?_))
  refine ends_bind (ends_onOutput hp ((hs.unstage_yields v.available).mono ?_))
  rintro bytes _ ⟨taken, htaken, rfl, hlen, htake, hs'⟩
  have hroom : taken ≤ v.available := htaken ▸ min_le_right _ _
  by_cases hnil : bytes = []
  · -- nothing was staged, or there is no room: the connection is left alone
    subst hnil
    have hzero : taken = 0 := by
      rcases Nat.mul_eq_zero.1 hlen.symm with h0 | h0
      · exact h0
      · exact absurd h0 hs.geometry.token.ne'
    subst hzero
    have hports : { ports with wires := ports.wires.set w c, outputs := ports.outputs.set o ⟨w, v⟩ } = ports := by
      rw [set_of_getElem? hfills.wire, set_of_getElem? hfills.port]
    refine ends_pure ⟨0, [], b.stalled, c.storage, v, htaken, Prod.ext rfl hports.symm, fun h => h, htake, hs', ?_⟩
    have hledger : l.write 0 [] = l := by simp [Ledger.write]
    rw [hledger]
    exact hfills
  · rw [← hsize] at hlen
    obtain ⟨storage, v', hwrite, hfills'⟩ := hfills.writeBytes hlen hroom
    have hempty : bytes.isEmpty = false := by simpa using hnil
    simp only [hempty, Bool.not_false, if_true]
    refine ends_thePorts (ends_bind (ends_ok hwrite (ends_modify ?_)))
    exact ⟨taken, bytes, false, storage, v', htaken, rfl, fun h => absurd h Bool.false_ne_true, htake, hs', hfills'⟩

end FreeUp

section SendInput

variable {δ κ : Type} [Device δ] [Kernel κ] {core : δ → Accelerator κ} {d0 : Accelerator κ} {m : Machine κ}
  {F : List Promise} {b : Bridge δ} {ports : Ports} {i w r T H : Nat} {p : BridgePort} {X : Bytes} {e : InputEnd}
  {c : Connection} {v : PortView} {l : Ledger}

/-- an input takes what fits and sends it to the device -/
theorem sendInput_spec (hcore : Device.Paces core) (hp : b.inputs[i]? = some p) (hs : p.Staged X T H)
    (hring : HoldsRing m.buffers p.data p.spec.capacity p.spec.tokenSize X T) (hq : p.Quiet)
    (hdraws : ports.Draws i e r w c v l) (hsize : c.tokenSize = p.spec.tokenSize) (hd : (core b.device).Serves d0 m F) :
    Yields (sendInput i) (b, ports) fun _ s' => ∃ n bytes p' d' v',
      n = min v.available (p.spec.capacity - 1 - (H - T)) ∧
      s' = ({ b with inputs := b.inputs.set i p', device := d' }, { ports with inputs := ports.inputs.set i ⟨w, v'⟩ }) ∧
      bytes = (l.stream.drop ((r + v.moved) * c.tokenSize)).take (n * c.tokenSize) ∧ v'.moved = v.moved + n ∧
      s'.2.Draws i e r w c v' l ∧ Same p p' ∧ p'.Staged (X ++ bytes) T (H + n) ∧
      p'.device.head = (H + n) % p.spec.capacity ∧ p'.indexRead = none ∧
      ∃ m' P blk, p'.Pushing P ∧ (core d').Serves d0 m' (P ++ F) ∧ Rewrites m m' p.data blk ∧
        HoldsRing m'.buffers p.data p.spec.capacity p.spec.tokenSize (X ++ bytes) T := by
  have hlt := lt_of_getElem? hp
  have hstage : stageable p ports i = .ok (min v.available (p.spec.capacity - 1 - (H - T))) := by
    simp [stageable, hdraws.availableIn, hs.free]
  generalize hn : min v.available (p.spec.capacity - 1 - (H - T)) = n at hstage
  have hword : n * p.spec.tokenSize < Word.size64 := hs.geometry.scaled_lt (by omega)
  refine ends_thePorts (ends_theBridge ?_)
  refine ends_bind (ends_ok (fetch_eq_ok hp) (ends_bind (ends_ok hstage ?_)))
  split_ifs with h0
  · -- new tokens: read, staged and pushed before the head is told
    have havail : n ≤ v.available := hn ▸ min_le_left _ _
    obtain ⟨v', hread, hmoved, hdraws'⟩ := hdraws.readBytes havail
    have hlen := hdraws.length_next havail
    rw [hsize] at hread hlen
    refine ends_bind (ends_ok (Word.mul64_eq_ok hword) ?_)
    refine ends_bind (ends_ok hread (ends_bind (ends_modify ?_)))
    refine ends_bind (ends_onInput hp ((push_yields hcore hs hring hq hlen (hn ▸ min_le_right _ _) hd).mono ?_))
    rintro - ⟨p1, d1⟩ ⟨hsame, hdevice, hindex, hs1, m', P, blk, hpush, hd1, hre, hring1⟩
    refine ends_onInput (getElem?_set_self hlt) (ends_thePort (ends_modify ?_))
    refine ⟨n, _, p1.publishHead, d1, v', rfl, ?_,
      by rw [hsize], hmoved, hdraws', ⟨hsame.spec, hsame.data, hsame.index⟩,
      hs1.congr rfl rfl rfl rfl, ?_, hindex, m', P, blk, hpush, hd1, hre, hring1⟩
    · simp
    · exact hs1.head.trans (by rw [hsame.spec])
  · -- nothing new
    have hzero : n = 0 := not_not.1 h0
    subst hzero
    obtain ⟨blk, hblk, -⟩ := id hring
    have hports : { ports with inputs := ports.inputs.set i ⟨w, v⟩ } = ports := by
      rw [set_of_getElem? hdraws.port]
    refine ends_onInput hp (ends_thePort (ends_modify ?_))
    refine ⟨0, [], p.publishHead, b.device, v, rfl, Prod.ext rfl hports.symm,
      by simp, rfl, hdraws, ⟨rfl, rfl, rfl⟩, ?_, hs.head,
      hq.index, m, [], blk, ⟨[], [], ?_, ?_, rfl⟩, hd, ⟨rfl, hblk, fun _ _ => rfl⟩, ?_⟩
    · rw [append_nil]
      exact hs.congr rfl rfl rfl rfl
    · rw [show p.publishHead.firstTransfer = none from hq.first]
      exact .idle
    · rw [show p.publishHead.secondTransfer = none from hq.second]
      exact .idle
    · rw [append_nil]
      exact hring

end SendInput

end Bridge

end Dataflow
