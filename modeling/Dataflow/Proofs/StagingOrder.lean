import Dataflow.Proofs.RingOwnership

/-!
The staging ring of a port as a queue, along any series of calls that stage or unstage tokens (`BridgePort.Passes`).

- `BridgePort.staging_keeps_order`: what came out, followed by what lies between tail and head, is what lay there at the
  start, followed by what went in, through any number of laps. Staged and free tokens are one less than the capacity.
  Every call answers; unstaging gives all that is asked for, up to what is there. The device tail follows the host tail,
  and the device head stays.
- Witness `BridgePort.staging_keeps_order_wrapped`.

Premises: indices within the ring (`Bounded`), a capacity that is a word, and a device tail at the host tail.
-/

namespace Dataflow

open List

namespace BridgePort

/-- the tokens of the next `n` slots to be unstaged -/
def queued (p : BridgePort) (n : Nat) : Bytes := p.staging.ringSlice p.host.tail n p.spec.capacity p.spec.tokenSize

/-- `p` becomes `q` by calls on its staging ring: in all of them `put` is staged, always whole tokens into free slots,
and `got` is unstaged -/
inductive Passes (p : BridgePort) : Bytes → Bytes → BridgePort → Prop
  | idle : Passes p [] [] p
  | stage {put got bytes : Bytes} {q q' : BridgePort} {n free head : Nat} : Passes p put got q →
      bytes.length = n * q.spec.tokenSize → q.hostFree = .ok free → n ≤ free → q.stage bytes = .ok (head, q') →
      Passes p (put ++ bytes) got q'
  | unstage {put got bytes : Bytes} {q q' : BridgePort} {room : Nat} : Passes p put got q →
      q.unstage room = .ok (bytes, q') →
      Passes p put (got ++ bytes) q'

variable {p q : BridgePort} {X put got : Bytes} {T H : Nat}

/-- the ring of a port between two calls, as a window of the laps through its bytes -/
theorem Bounded.staged (h : p.Bounded) (hword : p.spec.capacity < Word.size32)
    (hfollows : p.device.tail = p.host.tail) : ∃ X T H, p.Staged X T H := by
  have hhead := h.hostHead
  have htail := h.hostTail
  -- a head below the tail is one lap ahead of it
  obtain ⟨H, hmod, hord⟩ : ∃ H, p.host.head = H % p.spec.capacity ∧ p.host.tail ≤ H ∧
    H < p.host.tail + p.spec.capacity := by
    by_cases hle : p.host.tail ≤ p.host.head
    · exact ⟨p.host.head, (Nat.mod_eq_of_lt hhead).symm, hle, by omega⟩
    · exact ⟨p.host.head + p.spec.capacity, by rw [Nat.add_mod_right, Nat.mod_eq_of_lt hhead], by omega, by omega⟩
  refine ⟨p.staging.laps (p.spec.capacity * p.spec.tokenSize) (H * p.spec.tokenSize),
    p.host.tail, H, h.geometry, hword, h.size, by simp [Block.laps], hord, hmod, (Nat.mod_eq_of_lt htail).symm, ?_, ?_⟩
  · rw [hfollows, Nat.mod_eq_of_lt htail]
  · exact (Block.keeps_laps _ _ _).mono (Nat.zero_le _)

theorem Staged.queued (h : p.Staged X T H) : p.queued (H - T) = X.drop (T * p.spec.tokenSize) := by
  have hord := h.order
  rw [BridgePort.queued, h.tail, Block.ringSlice_mod, h.keeps.ringSlice h.geometry.slots le_rfl
    (by rw [h.length]; gcongr; omega), take_of_length_le]
  rw [length_drop, h.length, Nat.sub_mul]

/-- what is out and what is still in the ring are the stream from where the run began -/
theorem Passes.staged (hrun : p.Passes put got q) (h : p.Staged X T H) :
    ∃ T' H', q.Staged (X ++ put) T' H' ∧ q.spec = p.spec ∧
    q.device.head = p.device.head ∧ got ++ (X ++ put).drop (T' * p.spec.tokenSize) = (X ++ put).drop
      (T * p.spec.tokenSize) := by
  induction hrun with
  | idle => exact ⟨T, H, by simpa using h, rfl, rfl, by simp⟩
  | @stage put got bytes q q' n free head _ hlen hfree hn hcall ih =>
    obtain ⟨T1, H1, hq, hspec, hdevice, hout⟩ := ih
    rw [hq.free] at hfree
    cases hfree
    obtain ⟨staging, hstage, hq'⟩ := hq.stage hlen hn
    rw [hstage] at hcall
    cases hcall
    have hle : ∀ {t}, t ≤ H1 → t * p.spec.tokenSize ≤ (X ++ put).length := fun ht => by
      rw [hq.length, hspec]; gcongr
    have hT : T * p.spec.tokenSize ≤ (X ++ put).length := by
      rw [length_append, h.length]
      exact (Nat.mul_le_mul_right _ h.order.1).trans (Nat.le_add_right _ _)
    refine ⟨T1, H1 + n, by rwa [← append_assoc], hspec, hdevice, ?_⟩
    rw [← append_assoc X, drop_append_of_le_length (hle hq.order.1), drop_append_of_le_length hT, ← append_assoc, hout]
  | @unstage put got bytes q q' room _ hcall ih =>
    obtain ⟨T1, H1, hq, hspec, hdevice, hout⟩ := ih
    obtain ⟨taken, -, hunstage, hq'⟩ := hq.unstage room
    rw [hunstage] at hcall
    cases hcall
    refine ⟨T1 + taken, H1, hq', hspec, hdevice, ?_⟩
    rw [← hout, append_assoc, hspec, Nat.add_mul, ← drop_drop, take_append_drop]

/-- The staging ring hands its tokens on in order, at any capacity and token size. -/
theorem staging_keeps_order (hp : p.Bounded) (hword : p.spec.capacity < Word.size32)
    (hfollows : p.device.tail = p.host.tail) (hrun : p.Passes put got q) :
    ∃ before held free, p.hostPending = .ok before ∧ q.hostPending = .ok held ∧ q.hostFree = .ok free ∧
      held + free = p.spec.capacity - 1 ∧ got ++ q.queued held = p.queued before ++ put ∧
      (p.New → p.queued before = []) ∧
      q.spec = p.spec ∧ q.device = ⟨p.device.head, q.host.tail⟩ ∧
      (∀ bytes n, bytes.length = n * p.spec.tokenSize → n ≤ free → ∃ q', q.stage bytes = .ok (q.host.head, q') ∧
        q'.device = q.device) ∧
      ∀ room, ∃ bytes q', q.unstage room = .ok (bytes, q') ∧ bytes.length = min held room * p.spec.tokenSize := by
  obtain ⟨X, T, H, h⟩ := hp.staged hword hfollows
  obtain ⟨T', H', hq, hspec, hhead, hout⟩ := hrun.staged h
  have hord := hq.order
  rw [hspec] at hord
  refine ⟨H - T, H' - T', p.spec.capacity - 1 - (H' - T'), h.pending, hq.pending,
    by rw [← hspec]; exact hq.free, by omega, ?_, ?_, hspec, ?_, fun bytes n hlen hn => ?_, fun room => ?_⟩
  · rw [hq.queued, h.queued, hspec, hout, drop_append_of_le_length]
    rw [h.length]
    exact Nat.mul_le_mul_right _ h.order.1
  · intro hnew
    have hempty : Except.ok (H - T) = (.ok 0 : Checked Nat) :=
      h.pending.symm.trans (by rw [hostPending, hnew.host]; rfl)
    rw [Except.ok.inj hempty]
    rfl
  · rw [← hhead, hq.tail, ← hq.deviceTail]
  · rw [← hspec] at hlen hn
    obtain ⟨staging, hstage, -⟩ := hq.stage hlen hn
    rw [hq.head]
    exact ⟨_, hstage, rfl⟩
  · obtain ⟨taken, rfl, hunstage, -⟩ := hq.unstage room
    refine ⟨_, _, hunstage, ?_⟩
    rw [length_take, length_drop, hq.length, hspec, ← Nat.sub_mul, min_eq_left]
    exact Nat.mul_le_mul_right _ (min_le_left _ _)

/-- a new ring of three slots of two bytes -/
def smallRing : BridgePort := { spec := ⟨"samples", 2, 3⟩, data := 0, index := 1, staging := .zeroed 6 }

/-- the third token of a ring that holds two stands behind the wrap -/
theorem staging_keeps_order_wrapped : ∃ q, smallRing.Passes ([] ++ [1, 2, 3, 4] ++ [5, 6]) ([] ++ [1, 2]) q ∧
    q.hostPending = .ok 2 ∧ q.queued 2 = [3, 4, 5, 6] := by
  have hbounded : smallRing.Bounded :=
    ⟨⟨by decide, by decide, by decide⟩, rfl, by decide, by decide, by decide, by decide⟩
  obtain ⟨q, hrun, hheld⟩ : ∃ q, smallRing.Passes ([] ++ [1, 2, 3, 4] ++ [5, 6]) ([] ++ [1, 2]) q ∧
    q.hostPending = .ok 2 :=
    ⟨_, .stage (.unstage (.stage .idle (show _ = 2 * 2 from rfl) rfl (by decide) rfl) (show unstage _ 1 = _ from rfl))
      (show _ = 1 * 2 from rfl) rfl (by decide) rfl, rfl⟩
  obtain ⟨before, held, free, hbefore, hheld', -, -, horder, -⟩ := staging_keeps_order hbounded (by decide) rfl hrun
  cases hbefore
  cases hheld.symm.trans hheld'
  exact ⟨q, hrun, hheld, append_cancel_left horder⟩

end BridgePort

end Dataflow
