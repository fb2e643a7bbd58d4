import Dataflow.Proofs.PortCycle

/-!
One launch of the echo kernel, which passes on as many tokens as its budget, its input and its output allow (`echoed`).

The input ring holds the stream from token `T` up to `H`; of the output ring the bridge has handed on `D` tokens.
-/

namespace Dataflow

open List Step

/-- how many tokens one launch passes on -/
def echoed (perCall available space : Nat) : Nat := min (min perCall available) space

namespace KernelView

variable {k : KernelView} {ring ring' : PortArgs} {tokenSize T H D lo : Nat} {X : Bytes}

theorem echo_ok (perCall : Nat) (hargs : k.args = ⟨[ring], [ring']⟩) (hin : k.InputRing 0 ring tokenSize X T H)
    (hout : k.OutputRing 0 ring' tokenSize (X.take (T * tokenSize)) D lo T) (hdata : ring.data ≠ ring'.data)
    (hword : ring'.capacity < Word.size32) {n : Nat} (hn : n = echoed perCall (H - T) (ring'.capacity - 1 - (T - D))) :
    ∃ k', k.echo perCall = .ok k' ∧ k'.args = k.args ∧ k'.InputRing 0 ring tokenSize X (T + n) H ∧
      k'.OutputRing 0 ring' tokenSize (X.take ((T + n) * tokenSize)) D lo (T + n) ∧
      ∀ id, id ≠ ring'.data → k'.buffers[id]? = k.buffers[id]? := by
  obtain ⟨hn1, hn2⟩ : n ≤ H - T ∧ n ≤ ring'.capacity - 1 - (T - D) := by
    rw [hn, echoed]
    exact ⟨le_trans (min_le_left _ _) (min_le_right _ _), min_le_right _ _⟩
  obtain ⟨taken, htaken, hread, hin1⟩ := hin.read n
  obtain rfl : taken = n := htaken.trans (min_eq_left hn1)
  generalize hbytes : (X.drop (T * tokenSize)).take (taken * tokenSize) = bytes at hread
  set k1 : KernelView := { k with tails := k.tails.set 0 ((T + taken) % ring.capacity) }
  have hlen : bytes.length = taken * tokenSize := by
    rw [← hbytes, length_take, length_drop, hin.length, ← Nat.sub_mul]
    exact min_eq_left (Nat.mul_le_mul_right _ hn1)
  have hout1 : k1.OutputRing 0 ring' tokenSize (X.take (T * tokenSize)) D lo T := hout.frame rfl rfl rfl
  obtain ⟨written, b, hwritten, hwrite, -, -, hout2⟩ := hout1.write bytes
  obtain rfl : written = taken := by
    rw [hwritten, hlen, Nat.mul_div_cancel _ hin.geometry.token, Word.low32, Nat.mod_eq_of_lt (by omega)]
    exact min_eq_left hn2
  rw [take_of_length_le hlen.le, ← hbytes, ← take_add, ← Nat.add_mul] at hout2
  refine ⟨_, ?_, ?_, ?_, hout2, ?_⟩
  · have hcount : min perCall (min (H - T) (ring'.capacity - 1 - (T - D))) = written := by rw [hn, echoed, min_assoc]
    simp [echo, hargs, hin.size, hout.size, hin.available, hout.space, hcount, hread, hwrite]
  · rfl
  · exact hin1.frame rfl rfl (Array.getElem?_setIfInBounds_ne (Ne.symm hdata))
  · exact fun id hid => Array.getElem?_setIfInBounds_ne (Ne.symm hid)

/-- both indices of a launch are published, and no other buffer changes -/
theorem publish_ok {t h : Nat} (hargs : k.args = ⟨[ring], [ring']⟩) (htail : k.tails[0]? = some t)
    (hhead : k.heads[0]? = some h) (hin : BridgePort.HasWord k.buffers ring.index)
    (hout : BridgePort.HasWord k.buffers ring'.index) (hne : ring.index ≠ ring'.index) :
    Yields publish k fun _ k' => HoldsWord k'.buffers ring.index t ∧ HoldsWord k'.buffers ring'.index h ∧
      ∀ id, id ≠ ring.index → id ≠ ring'.index → k'.buffers[id]? = k.buffers[id]? := by
  have hwords : k.args.inputs.zip k.tails ++ k.args.outputs.zip k.heads = [(ring, t), (ring', h)] := by
    obtain ⟨tails, htails⟩ : ∃ rest, k.tails = t :: rest := by
      cases hk : k.tails with
      | nil => simp [hk] at htail
      | cons t' rest => exact ⟨rest, by simpa [hk] using htail⟩
    obtain ⟨heads, hheads⟩ : ∃ rest, k.heads = h :: rest := by
      cases hk : k.heads with
      | nil => simp [hk] at hhead
      | cons h' rest => exact ⟨rest, by simpa [hk] using hhead⟩
    simp [hargs, htails, hheads]
  refine ends_bind (ends_get ?_)
  rw [hwords]
  refine (publishWords_yields [(ring, t), (ring', h)] k (fun a ha => ?_) (by simpa using hne)).mono ?_
  · rcases mem_pair.1 ha with rfl | rfl
    · exact hin
    · exact hout
  · rintro - k' ⟨hkeep, hwritten⟩
    exact ⟨hwritten (ring, t) (by simp), hwritten (ring', h) (by simp), fun id h1 h2 => hkeep id (by simp [h1, h2])⟩

end KernelView

/-- the two ports of an echo bridge: tokens of one size, and four buffers -/
structure EchoPorts (p q : BridgePort) : Prop where
  size : q.spec.tokenSize = p.spec.tokenSize
  inWord : p.index ≠ p.data
  outData : q.data ≠ p.data ∧ q.data ≠ p.index
  outWord : q.index ≠ p.data ∧ q.index ≠ p.index ∧ q.index ≠ q.data

namespace Machine

open BridgePort

variable {m m' : Machine StockKernel} {perCall : Nat} {p q : BridgePort} {X bytes : Bytes} {T H D R lo n : Nat}

/-- the rings of an echo kernel between two launches: it has passed on `R` tokens of the stream, and the output ring
still holds those from number `lo` on -/
structure Echoes (m : Machine StockKernel) (perCall : Nat) (p q : BridgePort) (X : Bytes) (R lo : Nat) : Prop where
  kernel : m.kernel = .echo perCall
  input : HoldsRing m.buffers p.data p.spec.capacity p.spec.tokenSize X R
  output : HoldsRing m.buffers q.data q.spec.capacity q.spec.tokenSize (X.take (R * q.spec.tokenSize)) lo
  inWord : HasWord m.buffers p.index
  outWord : HasWord m.buffers q.index

theorem Echoes.congr {p' q' : BridgePort} (h : m.Echoes perCall p q X R lo) (hp : Same p p') (hq : Same q q') :
    m.Echoes perCall p' q' X R lo := by
  refine ⟨h.kernel, ?_, ?_, ?_, ?_⟩
  · rw [hp.data, hp.spec]
    exact h.input
  · rw [hq.data, hq.spec]
    exact h.output
  · rw [hp.index]
    exact h.inWord
  · rw [hq.index]
    exact h.outWord

theorem Echoes.push {b : Block} (h : m.Echoes perCall p q X T lo) (hpq : EchoPorts p q) (hs : p.Staged X T H)
    (hre : Rewrites m m' p.data b)
    (hring : HoldsRing m'.buffers p.data p.spec.capacity p.spec.tokenSize (X ++ bytes) T) :
    m'.Echoes perCall p q (X ++ bytes) T lo := by
  have htake : (X ++ bytes).take (T * q.spec.tokenSize) = X.take (T * q.spec.tokenSize) := by
    rw [take_append_of_le_length]
    rw [hs.length, hpq.size]
    exact Nat.mul_le_mul_right _ hs.order.1
  refine ⟨hre.kernel.trans h.kernel, hring, ?_, ?_, ?_⟩
  · obtain ⟨w, hw, hkeeps⟩ := h.output
    rw [htake]
    exact ⟨w, (hre.others _ hpq.outData.1).trans hw, hkeeps⟩
  · obtain ⟨w, hw, hsize⟩ := h.inWord
    exact ⟨w, (hre.others _ hpq.inWord).trans hw, hsize⟩
  · obtain ⟨w, hw, hsize⟩ := h.outWord
    exact ⟨w, (hre.others _ hpq.outWord.1).trans hw, hsize⟩

theorem Echoes.launch (h : m.Echoes perCall p q X T lo) (hpq : EchoPorts p q) (hs : p.Staged X T H)
    (hhead : p.device.head = H % p.spec.capacity) (hs' : q.Staged (X.take (T * q.spec.tokenSize)) D T)
    (hhead' : q.device.head = T % q.spec.capacity) (hn : n = echoed perCall (H - T) (q.spec.capacity - 1 - (T - D))) :
    ∃ m', m.Performs (.launch ⟨[p.kernelArgs], [q.kernelArgs]⟩) none m' ∧ m'.Echoes perCall p q X (T + n) T ∧
      HoldsWord m'.buffers p.index ((T + n) % p.spec.capacity) ∧
      HoldsWord m'.buffers q.index ((T + n) % q.spec.capacity) := by
  have hin : (KernelView.start m.buffers ⟨[p.kernelArgs], [q.kernelArgs]⟩).InputRing 0
    p.kernelArgs p.spec.tokenSize X T H :=
    ⟨rfl, by simp [KernelView.start, kernelArgs, hs.deviceTail], hs.geometry, hhead, hs.length, hs.order, h.input⟩
  have hout : (KernelView.start m.buffers ⟨[p.kernelArgs], [q.kernelArgs]⟩).OutputRing 0 q.kernelArgs p.spec.tokenSize
      (X.take (T * p.spec.tokenSize)) D T T := by
    obtain ⟨b, hb, hsize, -⟩ := h.output
    rw [← hpq.size]
    exact ⟨rfl, by simp [KernelView.start, kernelArgs, hhead'], hs'.geometry, hs'.deviceTail, hs'.length,
      ⟨hs'.order.1, le_rfl, hs'.order.2⟩, b, hb, hsize, Block.keeps_of_length_le hs'.length.le⟩
  obtain ⟨k1, hecho, hargs, hin1, hout1, hothers⟩ := KernelView.echo_ok perCall rfl hin hout
    (Ne.symm hpq.outData.1) hs'.word hn
  have hword : HasWord k1.buffers p.index := by
    obtain ⟨w, hw, hsize⟩ := h.inWord
    exact ⟨w, (hothers _ (Ne.symm hpq.outData.2)).trans hw, hsize⟩
  have hword' : HasWord k1.buffers q.index := by
    obtain ⟨w, hw, hsize⟩ := h.outWord
    exact ⟨w, (hothers _ hpq.outWord.2.2).trans hw, hsize⟩
  have hyields : Yields (perform (.launch ⟨[p.kernelArgs], [q.kernelArgs]⟩)) m
      fun a m' => a = none ∧ m'.kernel = m.kernel ∧ HoldsWord m'.buffers p.index ((T + n) % p.spec.capacity) ∧
        HoldsWord m'.buffers q.index ((T + n) % q.spec.capacity) ∧
        ∀ id, id ≠ p.index → id ≠ q.index → m'.buffers[id]? = k1.buffers[id]? := by
    refine ends_bind (ends_bind (ends_zoom ?_))
    refine ends_bind (ends_bind (ends_get ?_))
    simp only [h.kernel]
    refine ends_bind (ends_except_ok hecho (ends_set ?_))
    refine ends_zoom ((KernelView.publish_ok hargs hin1.tail hout1.head hword hword' (Ne.symm hpq.outWord.2.1)).mono ?_)
    rintro - k2 ⟨hholds, hholds', hkept⟩
    exact ends_modify (ends_pure ⟨rfl, rfl, hholds, hholds', hkept⟩)
  obtain ⟨a, m', hm, rfl, hkernel, hholds, hholds', hkept⟩ := hyields.exec
  refine ⟨m', hm, ⟨hkernel.trans h.kernel, ?_, ?_, .of_holds hholds, .of_holds hholds'⟩, hholds, hholds'⟩
  · obtain ⟨b, hb, hkeeps⟩ := hin1.storage
    exact ⟨b, (hkept _ (Ne.symm hpq.inWord) (Ne.symm hpq.outWord.1)).trans hb, hkeeps⟩
  · obtain ⟨b, hb, hkeeps⟩ := hout1.storage
    rw [hpq.size]
    exact ⟨b, (hkept _ hpq.outData.2 (Ne.symm hpq.outWord.2.2)).trans hb, hkeeps⟩

end Machine

end Dataflow
