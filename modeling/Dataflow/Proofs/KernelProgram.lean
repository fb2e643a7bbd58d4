import Dataflow.Proofs.ConnectionTransfer
import Dataflow.Proofs.DeviceQueue

/-!
Kernels that act through their view, and what one launch does.

A `KernelProgram` has no access to the rings but the view's own operations; `Recorded` keeps all bytes that it reads and
writes. A launch reads on in each input ring, appends to each output ring, and leaves everything else alone
(`Machine.launch_performs`).
-/

namespace Dataflow

open List Step

/-! ## Programs -/

/-- a computation on the rings of one launch, with the kernel's next state at its end -/
inductive KernelProgram (κ : Type) where
  | done (state : κ)
  /-- how many inputs and outputs there are -/
  | counts (next : Nat → Nat → KernelProgram κ)
  | available (port : Nat) (next : Nat → KernelProgram κ)
  | space (port : Nat) (next : Nat → KernelProgram κ)
  | inputSize (port : Nat) (next : Nat → KernelProgram κ)
  | outputSize (port : Nat) (next : Nat → KernelProgram κ)
  | read (port n : Nat) (next : Bytes → KernelProgram κ)
  | write (port : Nat) (bytes : Bytes) (next : Nat → KernelProgram κ)

class Programmed (κ : Type) where
  program : κ → KernelProgram κ

/-- a kernel with the bytes that went through it -/
structure Recorded (κ : Type) where
  state : κ
  /-- bytes read over all launches, by input -/
  received : List Bytes
  /-- bytes accepted over all launches, by output -/
  accepted : List Bytes

namespace KernelProgram

variable {κ : Type}

/-- all ports that the program names are there, whatever its rings hold -/
def Within (inputs outputs : Nat) : KernelProgram κ → Prop
  | done _ => True
  | counts next => (next inputs outputs).Within inputs outputs
  | available port next => port < inputs ∧ ∀ n, (next n).Within inputs outputs
  | space port next => port < outputs ∧ ∀ n, (next n).Within inputs outputs
  | inputSize port next => port < inputs ∧ ∀ n, (next n).Within inputs outputs
  | outputSize port next => port < outputs ∧ ∀ n, (next n).Within inputs outputs
  | read port _ next => port < inputs ∧ ∀ bytes, (next bytes).Within inputs outputs
  | write port _ next => port < outputs ∧ ∀ n, (next n).Within inputs outputs

/-- runs a program on its view and notes what it moves -/
def run : KernelProgram κ → Step DeviceError (Recorded κ × KernelView) Unit
  | done state => modify fun s => ({ s.1 with state }, s.2)
  | counts next => do
    let s ← get
    (next s.2.args.inputs.length s.2.args.outputs.length).run
  | available port next => do
    let s ← get
    let n ← s.2.inputAvailable port
    (next n).run
  | space port next => do
    let s ← get
    let n ← s.2.outputSpace port
    (next n).run
  | inputSize port next => do
    let s ← get
    let n ← s.2.inputTokenSize port
    (next n).run
  | outputSize port next => do
    let s ← get
    let n ← s.2.outputTokenSize port
    (next n).run
  | read port n next => do
    let s ← get
    let (bytes, view) ← s.2.readInput port n
    set ({ s.1 with received := s.1.received.modify port (· ++ bytes) }, view)
    (next bytes).run
  | write port bytes next => do
    let s ← get
    let size ← s.2.outputTokenSize port
    let (n, view) ← s.2.writeOutput port bytes
    set ({ s.1 with accepted := s.1.accepted.modify port (· ++ bytes.take (n * size)) }, view)
    (next n).run

end KernelProgram

instance {κ : Type} [Programmed κ] : Kernel (Recorded κ) where
  run := do
    let s ← get
    (Programmed.program s.1.state).run

/-! ## What is noted stays noted -/

namespace Recorded

variable {κ : Type} {r r1 r2 : Recorded κ}

/-- more bytes may have been noted, at the end of each list -/
structure Grows (r r' : Recorded κ) : Prop where
  received : ∀ {i : Nat} {x}, r.received[i]? = some x → ∃ x', r'.received[i]? = some x' ∧ x <+: x'
  accepted : ∀ {i : Nat} {x}, r.accepted[i]? = some x → ∃ x', r'.accepted[i]? = some x' ∧ x <+: x'
  inputs : r'.received.length = r.received.length

theorem Grows.refl (r : Recorded κ) : r.Grows r :=
  ⟨fun h => ⟨_, h, prefix_rfl⟩, fun h => ⟨_, h, prefix_rfl⟩, rfl⟩

theorem Grows.trans (h1 : r.Grows r1) (h2 : r1.Grows r2) : r.Grows r2 := by
  refine ⟨fun h => ?_, fun h => ?_, h2.inputs.trans h1.inputs⟩
  · obtain ⟨x1, hx1, hp1⟩ := h1.received h
    obtain ⟨x2, hx2, hp2⟩ := h2.received hx1
    exact ⟨x2, hx2, hp1.trans hp2⟩
  · obtain ⟨x1, hx1, hp1⟩ := h1.accepted h
    obtain ⟨x2, hx2, hp2⟩ := h2.accepted hx1
    exact ⟨x2, hx2, hp1.trans hp2⟩

/-- what has been read by the later moment was begun by the earlier one -/
theorem Grows.received_before {i : Nat} {x' : Bytes} (h : r.Grows r1) (hx' : r1.received[i]? = some x') :
    ∃ x, r.received[i]? = some x ∧ x <+: x' := by
  have hlt : i < r.received.length := h.inputs ▸ lt_of_getElem? hx'
  have hx := getElem?_eq_getElem hlt
  obtain ⟨y, hy, hpre⟩ := h.received hx
  rw [hx'] at hy
  cases hy
  exact ⟨_, hx, hpre⟩

theorem getElem?_modify_prefix {xs : List Bytes} {i k : Nat} {x : Bytes} (more : Bytes) (h : xs[i]? = some x) :
    ∃ x', (xs.modify k (· ++ more))[i]? = some x' ∧ x <+: x' := by
  by_cases hk : k = i
  · subst hk
    exact ⟨x ++ more, by simp [h], prefix_append _ _⟩
  · exact ⟨x, by simp [hk, h], prefix_rfl⟩

end Recorded

theorem KernelProgram.run_grows {κ : Type} (program : KernelProgram κ) {s s' : Recorded κ × KernelView} {a : Unit}
    (h : program.run.exec s = (.ok a, s')) : s.1.Grows s'.1 := by
  induction program generalizing s with
  | done state => cases h; exact ⟨fun h => ⟨_, h, prefix_rfl⟩, fun h => ⟨_, h, prefix_rfl⟩, rfl⟩
  | counts next ih => exact ih _ _ (exec_get_bind_ok h)
  | available port next ih | space port next ih =>
    obtain ⟨n, -, hrest⟩ := exec_checked_bind_ok (exec_get_bind_ok h)
    exact ih n hrest
  | inputSize port next ih | outputSize port next ih =>
    obtain ⟨n, -, hrest⟩ := exec_except_bind_ok (exec_get_bind_ok h)
    exact ih n hrest
  | read port n next ih =>
    obtain ⟨⟨bytes, view⟩, -, hset⟩ := exec_except_bind_ok (exec_get_bind_ok h)
    have hrest := ih _ (exec_set_bind_ok hset)
    refine Recorded.Grows.trans ?_ hrest
    exact ⟨Recorded.getElem?_modify_prefix bytes, fun hx => ⟨_, hx, prefix_rfl⟩, length_modify _ _ _⟩
  | write port bytes next ih =>
    obtain ⟨size, -, hwrite⟩ := exec_except_bind_ok (exec_get_bind_ok h)
    obtain ⟨⟨n, view⟩, -, hset⟩ := exec_except_bind_ok hwrite
    have hrest := ih _ (exec_set_bind_ok hset)
    refine Recorded.Grows.trans ?_ hrest
    exact ⟨fun hx => ⟨_, hx, prefix_rfl⟩, Recorded.getElem?_modify_prefix _, rfl⟩

namespace Machine

variable {κ : Type} [Programmed κ] {m m1 : Machine (Recorded κ)}

theorem Performs.grows {c : Command} {v : Option Bytes} (h : m.Performs c v m1) : m.kernel.Grows m1.kernel := by
  cases c with
  | write id offset data =>
    obtain ⟨b, -, hset⟩ := exec_except_bind_ok (exec_get_bind_ok h)
    cases exec_set_bind_ok hset
    exact .refl _
  | read id offset length =>
    obtain ⟨b, -, hrest⟩ := exec_except_bind_ok (exec_get_bind_ok h)
    cases hrest
    exact .refl _
  | launch args =>
    obtain ⟨_, _, hlaunch, hpure⟩ := exec_bind_ok h
    cases hpure
    obtain ⟨_, _, hkernel, hcount⟩ := exec_bind_ok hlaunch
    cases hcount
    obtain ⟨part, hpart, rfl⟩ := exec_zoom_ok hkernel
    obtain ⟨_, _, hrun, hpublish⟩ := exec_bind_ok hpart
    obtain ⟨view, -, rfl⟩ := exec_zoom_ok hpublish
    exact KernelProgram.run_grows _ (exec_get_bind_ok hrun)

theorem Reaches.grows (h : m.Reaches m1) : m.kernel.Grows m1.kernel := by
  obtain ⟨queue, promises, h⟩ := h
  induction h with
  | nil m => exact .refl _
  | cons hp _ ih => exact hp.grows.trans ih

end Machine

/-! ## Rings in a view -/

@[simp] theorem lift_checked_ok {ε α : Type} (a : α) :
    (liftM (Except.ok a : Checked α) : Except (Stop ε) α) = .ok a := rfl

@[simp] theorem except_ok_bind {ε α β : Type} (a : α) (f : α → Except (Stop ε) β) :
    ((Except.ok a : Except (Stop ε) α) >>= f) = f a := rfl

@[simp] theorem except_pure_eq {ε α : Type} (a : α) : (pure a : Except (Stop ε) α) = .ok a := rfl

/-- a buffer that holds the stream from token `lo` on, as a ring of `capacity` tokens -/
def HoldsRing (buffers : Array Block) (id capacity tokenSize : Nat) (stream : Bytes) (lo : Nat) : Prop :=
  ∃ b, buffers[id]? = some b ∧ b.size = capacity * tokenSize ∧ b.Keeps (capacity * tokenSize) stream (lo * tokenSize)

namespace KernelView

variable {k k' : KernelView} {j o n : Nat} {ring : PortArgs} {tokenSize R H D N lo : Nat} {X A bytes : Bytes}

/-- input `j` holds the stream up to token `H`, of which the kernel has read `R` tokens -/
structure InputRing (k : KernelView) (j : Nat) (ring : PortArgs) (tokenSize : Nat) (X : Bytes) (R H : Nat) : Prop where
  args : k.args.inputs[j]? = some ring
  tail : k.tails[j]? = some (R % ring.capacity)
  geometry : Addressable ring.capacity tokenSize
  head : ring.head = H % ring.capacity
  length : X.length = H * tokenSize
  order : R ≤ H ∧ H < R + ring.capacity
  storage : HoldsRing k.buffers ring.data ring.capacity tokenSize X R

/-- output `o` holds the stream from token `lo` up to `N`; the bridge has handed on `D` tokens of it -/
structure OutputRing (k : KernelView) (o : Nat) (ring : PortArgs) (tokenSize : Nat) (A : Bytes)
    (D lo N : Nat) : Prop where
  args : k.args.outputs[o]? = some ring
  head : k.heads[o]? = some (N % ring.capacity)
  geometry : Addressable ring.capacity tokenSize
  tail : ring.tail = D % ring.capacity
  length : A.length = N * tokenSize
  order : D ≤ lo ∧ lo ≤ N ∧ N < D + ring.capacity
  storage : HoldsRing k.buffers ring.data ring.capacity tokenSize A lo

theorem tokenSize_eq (g : Addressable ring.capacity tokenSize)
    (hs : HoldsRing k.buffers ring.data ring.capacity tokenSize X lo) : k.tokenSize ring = .ok tokenSize := by
  obtain ⟨b, hb, hsize, -⟩ := hs
  have hc := Nat.pos_iff_ne_zero.1 g.slots
  simp [KernelView.tokenSize, buffer, hb, Word.quot, hsize, hc, Nat.mul_div_cancel_left _ g.slots]

theorem InputRing.available (h : k.InputRing j ring tokenSize X R H) : k.inputAvailable j = .ok (H - R) := by
  simp [inputAvailable, fetch_eq_ok h.args, fetch_eq_ok h.tail, h.head, Indices.occupied_mod h.order.1 h.order.2]

theorem InputRing.size (h : k.InputRing j ring tokenSize X R H) : k.inputTokenSize j = .ok tokenSize := by
  simp [inputTokenSize, fetch_eq_ok h.args, tokenSize_eq h.geometry h.storage]

theorem OutputRing.space (h : k.OutputRing o ring tokenSize A D lo N) :
    k.outputSpace o = .ok (ring.capacity - 1 - (N - D)) := by
  have := h.order
  simp [outputSpace, fetch_eq_ok h.args, fetch_eq_ok h.head, h.tail,
    Indices.freeSpace_mod (show D ≤ N by omega) (show N < D + ring.capacity by omega)]

theorem OutputRing.size (h : k.OutputRing o ring tokenSize A D lo N) : k.outputTokenSize o = .ok tokenSize := by
  simp [outputTokenSize, fetch_eq_ok h.args, tokenSize_eq h.geometry h.storage]

/-- the byte intervals of `n` tokens from total `t` on, as a view computes them -/
theorem span_byteRanges {t capacity : Nat} (g : Addressable capacity tokenSize) (hn : n < capacity) :
    ∃ runs, Indices.span (t % capacity) ((t + n) % capacity) capacity = .ok runs ∧
      runs.byteRanges tokenSize = .ok (stretch t n capacity tokenSize) := by
  refine ⟨_, ?_, slotRuns_byteRanges g.slots hn.le (g.scaled_lt le_rfl)⟩
  rw [Indices.span_mod (by omega) (by omega), Nat.add_sub_cancel_left, Runs.split_mod g hn.le]

/-- a read answers the next tokens of the stream -/
theorem InputRing.read (h : k.InputRing j ring tokenSize X R H) (n : Nat) :
    ∃ taken, taken = min n (H - R) ∧ k.readInput j n =
        .ok ((X.drop (R * tokenSize)).take (taken * tokenSize),
          { k with tails := k.tails.set j ((R + taken) % ring.capacity) }) ∧
      InputRing { k with tails := k.tails.set j ((R + taken) % ring.capacity) } j ring tokenSize X (R + taken) H := by
  have hord := h.order
  obtain ⟨b, hb, hsize, hkeeps⟩ := h.storage
  refine ⟨min n (H - R), rfl, ?_, ?_⟩
  · obtain ⟨runs, hspan, hranges⟩ := span_byteRanges (t := R) (n := min n (H - R)) h.geometry (by omega)
    have hread := hkeeps.readRuns (n := min n (H - R)) h.geometry.slots hsize.ge (by omega) le_rfl
      (by rw [h.length]; exact Nat.mul_le_mul_right _ (by omega))
    simp [readInput, fetch_eq_ok h.args, fetch_eq_ok h.tail, h.available, tokenSize_eq h.geometry h.storage, buffer, hb,
      Indices.advance_mod h.geometry.slots, hspan, hranges, hread]
  · have hlt := lt_of_getElem? h.tail
    exact ⟨h.args, getElem?_set_self hlt, h.geometry, h.head, h.length, by omega,
      b, hb, hsize, hkeeps.mono (Nat.mul_le_mul_right _ (by omega))⟩

/-- a write appends the tokens that fit -/
theorem OutputRing.write (h : k.OutputRing o ring tokenSize A D lo N) (bytes : Bytes) :
    ∃ n b, n = min (Word.low32 (bytes.length / tokenSize)) (ring.capacity - 1 - (N - D)) ∧
      k.writeOutput o bytes = .ok (n,
        { k with buffers := k.buffers.setIfInBounds ring.data b, heads := k.heads.set o ((N + n) % ring.capacity) }) ∧
      n * tokenSize ≤ bytes.length ∧
      (∃ b0, k.buffers[ring.data]? = some b0 ∧ b = b0.storeRuns (stretch N n ring.capacity tokenSize) bytes) ∧
      OutputRing { k with buffers :=
        k.buffers.setIfInBounds ring.data b, heads := k.heads.set o ((N + n) % ring.capacity) }
        o ring tokenSize (A ++ bytes.take (n * tokenSize)) D lo (N + n) := by
  have hord := h.order
  have hts := Nat.pos_iff_ne_zero.1 h.geometry.token
  obtain ⟨b, hb, hsize, hkeeps⟩ := h.storage
  set n := min (Word.low32 (bytes.length / tokenSize)) (ring.capacity - 1 - (N - D)) with hn
  have hbytes : n * tokenSize ≤ bytes.length :=
    le_trans (Nat.mul_le_mul_right _ (le_trans (min_le_left _ _) (Nat.mod_le _ _))) (Nat.div_mul_le_self _ _)
  obtain ⟨runs, hspan, hranges⟩ := span_byteRanges (t := N) (n := n) h.geometry (by omega)
  have hwrite := Block.writeRuns_stretch (t := N) (n := n) h.geometry.slots hsize.ge (by omega) bytes
  have hkeeps' := hkeeps.storeRuns n bytes h.geometry.slots h.length (by omega)
    (by rw [← Nat.add_mul]; exact Nat.mul_le_mul_right _ (by omega))
  refine ⟨n, _, rfl, ?_, hbytes, ⟨b, hb, rfl⟩, h.args, ?_, h.geometry, h.tail,
    ?_, by omega, _, ?_, by simpa using hsize, hkeeps'⟩
  · simp [writeOutput, fetch_eq_ok h.args, fetch_eq_ok h.head, h.space, tokenSize_eq h.geometry h.storage, buffer, hb,
      Word.quot, hts, ← hn, Indices.advance_mod h.geometry.slots, hspan, hranges, hwrite]
  · exact getElem?_set_self (lt_of_getElem? h.head)
  · rw [length_append, h.length, length_take, Nat.min_eq_left hbytes, Nat.add_mul]
  · have hlt := (Array.getElem?_eq_some_iff.1 hb).1
    simp [hlt]

theorem InputRing.frame (h : k.InputRing j ring tokenSize X R H) (hargs : k'.args = k.args)
    (htail : k'.tails[j]? = k.tails[j]?) (hbuf : k'.buffers[ring.data]? = k.buffers[ring.data]?) :
    k'.InputRing j ring tokenSize X R H := by
  obtain ⟨b, hb, hsize, hkeeps⟩ := h.storage
  exact { h with args := by rw [hargs, h.args], tail := by rw [htail, h.tail]
                 storage := ⟨b, by rw [hbuf, hb], hsize, hkeeps⟩ }

theorem OutputRing.frame (h : k.OutputRing o ring tokenSize A D lo N) (hargs : k'.args = k.args)
    (hhead : k'.heads[o]? = k.heads[o]?) (hbuf : k'.buffers[ring.data]? = k.buffers[ring.data]?) :
    k'.OutputRing o ring tokenSize A D lo N := by
  obtain ⟨b, hb, hsize, hkeeps⟩ := h.storage
  exact { h with args := by rw [hargs, h.args], head := by rw [hhead, h.head]
                 storage := ⟨b, by rw [hbuf, hb], hsize, hkeeps⟩ }

end KernelView

/-- buffers are numbered by port, inputs first; each port has one for its tokens and one for its index -/
structure KernelArgs.Numbered (args : KernelArgs) : Prop where
  input : ∀ {j : Nat} {ring : PortArgs}, args.inputs[j]? = some ring → ring.data = 2 * j ∧ ring.index = 2 * j + 1
  output : ∀ {o : Nat} {ring : PortArgs}, args.outputs[o]? = some ring →
    ring.data = 2 * (args.inputs.length + o) ∧ ring.index = 2 * (args.inputs.length + o) + 1

/-! ## One launch -/

section Launch

variable {κ : Type} {s s1 s2 : Recorded κ × KernelView}

/-- what a kernel may have done between two moments of a launch: it has read on in its inputs and appended to its
outputs, each noted in full, and touched no other buffer -/
structure Launch (s s' : Recorded κ × KernelView) : Prop where
  args : s'.2.args = s.2.args
  input : ∀ {j ring tokenSize X R H}, s.2.InputRing j ring tokenSize X R H →
    s.1.received[j]? = some (X.take (R * tokenSize)) →
    ∃ R', R ≤ R' ∧ s'.2.InputRing j ring tokenSize X R' H ∧ s'.1.received[j]? = some (X.take (R' * tokenSize))
  output : ∀ {o ring tokenSize A D lo N}, s.2.OutputRing o ring tokenSize A D lo N → s.1.accepted[o]? = some A →
    ∃ A' N', A <+: A' ∧ s'.2.OutputRing o ring tokenSize A' D lo N' ∧ s'.1.accepted[o]? = some A'
  others : ∀ id, (∀ ring ∈ s.2.args.outputs, ring.data ≠ id) → s'.2.buffers[id]? = s.2.buffers[id]?

theorem Launch.trans (h1 : Launch s s1) (h2 : Launch s1 s2) : Launch s s2 := by
  refine ⟨h2.args.trans h1.args, fun h hr => ?_, fun h hr => ?_, fun id hid => ?_⟩
  · obtain ⟨R1, hle1, h, hr⟩ := h1.input h hr
    obtain ⟨R2, hle2, h, hr⟩ := h2.input h hr
    exact ⟨R2, le_trans hle1 hle2, h, hr⟩
  · obtain ⟨A1, N1, hp1, h, hr⟩ := h1.output h hr
    obtain ⟨A2, N2, hp2, h, hr⟩ := h2.output h hr
    exact ⟨A2, N2, hp1.trans hp2, h, hr⟩
  · rw [h2.others id (by rw [h1.args]; exact hid), h1.others id hid]

/-- every ring of a launch is there and has been noted in full -/
structure LaunchReady (s : Recorded κ × KernelView) : Prop where
  numbered : s.2.args.Numbered
  input : ∀ j < s.2.args.inputs.length, ∃ ring tokenSize X R H,
    s.2.InputRing j ring tokenSize X R H ∧ s.1.received[j]? = some (X.take (R * tokenSize))
  output : ∀ o < s.2.args.outputs.length, ∃ ring tokenSize A D lo N,
    s.2.OutputRing o ring tokenSize A D lo N ∧ s.1.accepted[o]? = some A

theorem LaunchReady.after (h : LaunchReady s) (hl : Launch s s1) : LaunchReady s1 := by
  refine ⟨by rw [hl.args]; exact h.numbered, fun j hj => ?_, fun o ho => ?_⟩
  · obtain ⟨ring, tokenSize, X, R, H, hring, hrec⟩ := h.input j (by rwa [hl.args] at hj)
    obtain ⟨R', -, hring', hrec'⟩ := hl.input hring hrec
    exact ⟨ring, tokenSize, X, R', H, hring', hrec'⟩
  · obtain ⟨ring, tokenSize, A, D, lo, N, hring, hrec⟩ := h.output o (by rwa [hl.args] at ho)
    obtain ⟨A', N', -, hring', hrec'⟩ := hl.output hring hrec
    exact ⟨ring, tokenSize, A', D, lo, N', hring', hrec'⟩

/-- one read of a kernel, noted -/
theorem LaunchReady.read (h : LaunchReady s) {j : Nat} (hj : j < s.2.args.inputs.length) (n : Nat) :
    ∃ bytes view, s.2.readInput j n = .ok (bytes, view) ∧
      Launch s ({ s.1 with received := s.1.received.modify j (· ++ bytes) }, view) := by
  obtain ⟨ring, tokenSize, X, R, H, hring, hrec⟩ := h.input j hj
  obtain ⟨taken, htaken, hread, hring'⟩ := hring.read n
  refine ⟨_, _, hread, rfl, fun {j' ring' tokenSize' X' R' H'} h' hr' => ?_, fun h' hr' => ?_, fun _ _ => rfl⟩
  · by_cases hjj : j' = j
    · subst hjj
      obtain ⟨taken', -, hread', hring''⟩ := h'.read n
      rw [hread] at hread'
      injection hread' with hpair
      injection hpair with hbytes hview
      refine ⟨R' + taken', Nat.le_add_right _ _, by rw [hview]; exact hring'', ?_⟩
      simp [hr', hbytes, Nat.add_mul, take_add]
    · have hne : j ≠ j' := fun heq => hjj heq.symm
      exact ⟨R', le_rfl, h'.frame rfl (getElem?_set_ne hne) rfl,
        by simp [hne, hr']⟩
  · exact ⟨_, _, prefix_rfl, h'.frame rfl rfl rfl, hr'⟩

/-- one write of a kernel, noted -/
theorem LaunchReady.write (h : LaunchReady s) {o : Nat} (ho : o < s.2.args.outputs.length) (bytes : Bytes) :
    ∃ size n view, s.2.outputTokenSize o = .ok size ∧ s.2.writeOutput o bytes = .ok (n, view) ∧
      Launch s ({ s.1 with accepted := s.1.accepted.modify o (· ++ bytes.take (n * size)) }, view) := by
  obtain ⟨ring, tokenSize, A, D, lo, N, hring, hrec⟩ := h.output o ho
  obtain ⟨n, b, -, hwrite, hbytes, -, hring'⟩ := hring.write bytes
  have hdata := (h.numbered.output hring.args).1
  refine ⟨tokenSize, n, _, hring.size, hwrite, rfl, fun {j' ring' tokenSize' X' R' H'} h' hr' => ?_,
    fun {o' ring' tokenSize' A' D' lo' N'} h' hr' => ?_, fun id hid => ?_⟩
  · have hdata' := (h.numbered.input h'.args).1
    have hlt := lt_of_getElem? h'.args
    have hids : ring.data ≠ ring'.data := by grind
    exact ⟨R', le_rfl, h'.frame rfl rfl (Array.getElem?_setIfInBounds_ne hids), hr'⟩
  · by_cases hoo : o' = o
    · subst hoo
      obtain ⟨n', b', -, hwrite', -, -, hring''⟩ := h'.write bytes
      rw [hwrite] at hwrite'
      injection hwrite' with hpair
      injection hpair with hn hview
      obtain rfl : tokenSize = tokenSize' := by
        have := hring.size.symm.trans h'.size
        injection this
      subst hn
      exact ⟨_, _, prefix_append _ _, by rw [hview]; exact hring'', by simp [hr']⟩
    · have hdata' := (h.numbered.output h'.args).1
      have hne : o ≠ o' := fun heq => hoo heq.symm
      have hids : ring.data ≠ ring'.data := by grind
      exact ⟨_, _, prefix_rfl,
        h'.frame rfl (getElem?_set_ne hne) (Array.getElem?_setIfInBounds_ne hids), by simp [hne, hr']⟩
  · exact Array.getElem?_setIfInBounds_ne (hid ring (mem_of_getElem? hring.args))

/-- a program that names only ports that are there runs to its end -/
theorem KernelProgram.run_yields (program : KernelProgram κ) (h : LaunchReady s)
    (hw : program.Within s.2.args.inputs.length s.2.args.outputs.length) :
    Yields program.run s fun _ s' => Launch s s' := by
  induction program generalizing s with
  | done state =>
    exact ends_modify ⟨rfl, fun h hr => ⟨_, le_rfl, h, hr⟩, fun h hr => ⟨_, _, prefix_rfl, h, hr⟩, fun _ _ => rfl⟩
  | counts next ih =>
    exact ends_bind (ends_get (ih _ _ h hw))
  | available port next ih =>
    obtain ⟨ring, tokenSize, X, R, H, hring, -⟩ := h.input port hw.1
    refine ends_bind (ends_get ?_)
    exact ends_bind (ends_ok hring.available (ih _ h (hw.2 _)))
  | space port next ih =>
    obtain ⟨ring, tokenSize, A, D, lo, N, hring, -⟩ := h.output port hw.1
    refine ends_bind (ends_get ?_)
    exact ends_bind (ends_ok hring.space (ih _ h (hw.2 _)))
  | inputSize port next ih =>
    obtain ⟨ring, tokenSize, X, R, H, hring, -⟩ := h.input port hw.1
    refine ends_bind (ends_get ?_)
    exact ends_bind (ends_except_ok hring.size (ih _ h (hw.2 _)))
  | outputSize port next ih =>
    obtain ⟨ring, tokenSize, A, D, lo, N, hring, -⟩ := h.output port hw.1
    refine ends_bind (ends_get ?_)
    exact ends_bind (ends_except_ok hring.size (ih _ h (hw.2 _)))
  | read port n next ih =>
    obtain ⟨bytes, view, hread, hl⟩ := h.read hw.1 n
    refine ends_bind (ends_get ?_)
    refine ends_bind (ends_except_ok hread ?_)
    refine ends_bind (ends_set ?_)
    have := ih bytes (h.after hl) (by rw [hl.args]; exact hw.2 bytes)
    exact this.mono fun _ s' hs' => hl.trans hs'
  | write port bytes next ih =>
    obtain ⟨size, n, view, hsize, hwrite, hl⟩ := h.write hw.1 bytes
    refine ends_bind (ends_get ?_)
    refine ends_bind (ends_except_ok hsize ?_)
    refine ends_bind (ends_except_ok hwrite ?_)
    refine ends_bind (ends_set ?_)
    have := ih n (h.after hl) (by rw [hl.args]; exact hw.2 n)
    exact this.mono fun _ s' hs' => hl.trans hs'

end Launch

/-! ## Publishing -/

/-- a buffer of one word that holds an index -/
def HoldsWord (buffers : Array Block) (id x : Nat) : Prop :=
  ∃ w, buffers[id]? = some w ∧ w.size = 4 ∧ w.slice 0 4 = Bytes.ofNat 4 x

/-- each word is stored at the front of its buffer, and nothing else changes -/
theorem KernelView.publishWords_stores (words : List (PortArgs × Nat)) (k : KernelView)
    (hwords : ∀ p ∈ words, ∃ w, k.buffers[p.1.index]? = some w ∧ 4 ≤ w.size) (hnodup : (words.map (·.1.index)).Nodup) :
    Yields (publishWords words) k fun _ k' =>
      (∀ id, id ∉ words.map (·.1.index) → k'.buffers[id]? = k.buffers[id]?) ∧
        ∀ p ∈ words, ∀ w, k.buffers[p.1.index]? = some w →
          k'.buffers[p.1.index]? = some (w.store 0 (Bytes.ofNat 4 p.2)) := by
  induction words generalizing k with
  | nil => exact ends_pure ⟨fun _ _ => rfl, by simp⟩
  | cons p rest ih =>
    obtain ⟨ring, x⟩ := p
    obtain ⟨hfresh, hrest⟩ := nodup_cons.1 hnodup
    obtain ⟨w, hw, hsize⟩ := hwords (ring, x) mem_cons_self
    have hbuffer : k.buffer ring.index = .ok w := by simp [buffer, hw]
    set k1 : KernelView := { k with buffers := k.buffers.setIfInBounds ring.index (w.store 0 (Bytes.ofNat 4 x)) }
    have hother : ∀ id, id ≠ ring.index → k1.buffers[id]? = k.buffers[id]? := fun id hid =>
      Array.getElem?_setIfInBounds_ne (Ne.symm hid)
    have hself : k1.buffers[ring.index]? = some (w.store 0 (Bytes.ofNat 4 x)) := by
      have hlt := (Array.getElem?_eq_some_iff.1 hw).1
      simp [k1, hlt]
    have hlater : ∀ p ∈ rest, k1.buffers[p.1.index]? = k.buffers[p.1.index]? := fun p hp =>
      hother p.1.index fun heq => hfresh (mem_map.2 ⟨p, hp, heq⟩)
    refine ends_bind (ends_get ?_)
    refine ends_bind (ends_except_ok hbuffer ?_)
    simp only [Nat.not_lt.2 hsize, if_false]
    refine ends_bind (ends_set ?_)
    refine (ih k1 (fun p hp => ?_) hrest).mono fun _ k' ⟨hkeep, hwritten⟩ => ⟨fun id hid => ?_, fun p hp v hv => ?_⟩
    · rw [hlater p hp]
      exact hwords p (mem_cons_of_mem _ hp)
    · simp only [map_cons, mem_cons, not_or] at hid
      rw [hkeep id hid.2, hother id hid.1]
    · rcases mem_cons.1 hp with rfl | hp
      · rw [hw] at hv
        cases hv
        rw [hkeep _ hfresh, hself]
      · exact hwritten p hp v (by rw [hlater p hp, hv])

theorem KernelView.publishWords_yields (words : List (PortArgs × Nat)) (k : KernelView)
    (hwords : ∀ p ∈ words, ∃ w, k.buffers[p.1.index]? = some w ∧ w.size = 4) (hnodup : (words.map (·.1.index)).Nodup) :
    Yields (publishWords words) k fun _ k' =>
      (∀ id, id ∉ words.map (·.1.index) → k'.buffers[id]? = k.buffers[id]?) ∧
        ∀ p ∈ words, HoldsWord k'.buffers p.1.index p.2 := by
  have hroom : ∀ p ∈ words, ∃ w, k.buffers[p.1.index]? = some w ∧ 4 ≤ w.size := fun p hp => by
    obtain ⟨w, hw, hsize⟩ := hwords p hp
    exact ⟨w, hw, hsize.ge⟩
  refine (publishWords_stores words k hroom hnodup).mono fun _ k' ⟨hkeep, hwritten⟩ => ⟨hkeep, fun p hp => ?_⟩
  obtain ⟨w, hw, hsize⟩ := hwords p hp
  refine ⟨_, hwritten p hp w hw, by simp [hsize], ?_⟩
  simpa [Bytes.length_ofNat] using w.slice_store 0 (Bytes.ofNat 4 p.2)

/-- words numbered by their places are all different -/
theorem nodup_of_numbered {rings : List PortArgs} {words : List Nat} {c : Nat}
    (h : ∀ {j : Nat} {ring : PortArgs}, rings[j]? = some ring → ring.index = 2 * (c + j) + 1) :
    ((rings.zip words).map (·.1.index)).Nodup := by
  rw [List.Nodup, pairwise_iff_getElem]
  intro i j hi hj hij
  simp only [length_map, length_zip] at hi hj
  have hfirst := h (getElem?_eq_getElem (i := i) (by omega))
  have hsecond := h (getElem?_eq_getElem (i := j) (by omega))
  simp only [getElem_map, getElem_zip, hfirst, hsecond]
  exact Nat.ne_of_lt (by omega)

/-- no two ports of a launch share a word -/
theorem KernelArgs.Numbered.words_nodup {args : KernelArgs} (h : args.Numbered) (tails heads : List Nat) :
    ((args.inputs.zip tails ++ args.outputs.zip heads).map (·.1.index)).Nodup := by
  rw [map_append, nodup_append]
  refine ⟨nodup_of_numbered fun hr => (h.input hr).2.trans (by rw [Nat.zero_add]),
    nodup_of_numbered fun hr => (h.output hr).2, fun x hx y hy => ?_⟩
  obtain ⟨⟨r, t⟩, hr, rfl⟩ := mem_map.1 hx
  obtain ⟨⟨r', t'⟩, hr', rfl⟩ := mem_map.1 hy
  obtain ⟨j, hj⟩ := getElem?_of_mem (of_mem_zip hr).1
  obtain ⟨o, ho⟩ := getElem?_of_mem (of_mem_zip hr').1
  have h1 := (h.input hj).2
  have h2 := (h.output ho).2
  grind

namespace Machine

variable {κ : Type} {m : Machine (Recorded κ)} {j o : Nat} {ring : PortArgs} {tokenSize T H D N : Nat} {X A : Bytes}

/-- an input ring before a launch: the kernel has read `T` of the `H` tokens of the stream -/
structure InputLoaded (m : Machine (Recorded κ)) (j : Nat) (ring : PortArgs) (tokenSize : Nat) (X : Bytes) (T H : Nat) :
    Prop where
  geometry : Addressable ring.capacity tokenSize
  head : ring.head = H % ring.capacity
  tail : ring.tail = T % ring.capacity
  length : X.length = H * tokenSize
  order : T ≤ H ∧ H < T + ring.capacity
  storage : HoldsRing m.buffers ring.data ring.capacity tokenSize X T
  received : m.kernel.received[j]? = some (X.take (T * tokenSize))
  word : ∃ w, m.buffers[ring.index]? = some w ∧ w.size = 4

/-- an output ring before a launch: the kernel has written `N` tokens, of which `D` have been handed on -/
structure OutputLoaded (m : Machine (Recorded κ)) (o : Nat) (ring : PortArgs)
    (tokenSize : Nat) (A : Bytes) (D N : Nat) : Prop where
  geometry : Addressable ring.capacity tokenSize
  head : ring.head = N % ring.capacity
  tail : ring.tail = D % ring.capacity
  length : A.length = N * tokenSize
  order : D ≤ N ∧ N < D + ring.capacity
  storage : ∃ b, m.buffers[ring.data]? = some b ∧ b.size = ring.capacity * tokenSize
  accepted : m.kernel.accepted[o]? = some A
  word : ∃ w, m.buffers[ring.index]? = some w ∧ w.size = 4

/-- an input ring after a launch: `R` tokens are read, and that is published -/
def InputDrawn (m : Machine (Recorded κ)) (j : Nat) (ring : PortArgs) (tokenSize : Nat) (X : Bytes)
    (T H : Nat) : Prop :=
  ∃ R, T ≤ R ∧ R ≤ H ∧ HoldsRing m.buffers ring.data ring.capacity tokenSize X R ∧
    m.kernel.received[j]? = some (X.take (R * tokenSize)) ∧ HoldsWord m.buffers ring.index (R % ring.capacity)

/-- an output ring after a launch: the stream has grown to `N'` tokens, the new ones are in the ring, and that is
published -/
def OutputGrown (m : Machine (Recorded κ)) (o : Nat) (ring : PortArgs) (tokenSize : Nat) (A : Bytes)
    (D N : Nat) : Prop :=
  ∃ A' N', A <+: A' ∧ A'.length = N' * tokenSize ∧ N ≤ N' ∧ N' < D + ring.capacity ∧
    HoldsRing m.buffers ring.data ring.capacity tokenSize A' N ∧ m.kernel.accepted[o]? = some A' ∧
    HoldsWord m.buffers ring.index (N' % ring.capacity)

theorem InputLoaded.viewed {args : KernelArgs} (h : m.InputLoaded j ring tokenSize X T H)
    (hargs : args.inputs[j]? = some ring) : (KernelView.start m.buffers args).InputRing j ring tokenSize X T H :=
  ⟨hargs, by simp [KernelView.start, hargs, h.tail], h.geometry, h.head, h.length, h.order, h.storage⟩

theorem OutputLoaded.viewed {args : KernelArgs} (h : m.OutputLoaded o ring tokenSize A D N)
    (hargs : args.outputs[o]? = some ring) : (KernelView.start m.buffers args).OutputRing o ring tokenSize A D N N := by
  obtain ⟨b, hb, hsize⟩ := h.storage
  exact ⟨hargs, by simp [KernelView.start, hargs, h.head], h.geometry, h.tail, h.length, ⟨h.order.1, le_rfl, h.order.2⟩,
    b, hb, hsize, Block.keeps_of_length_le h.length.le⟩

/-- the words of all ports are still there after the kernel, for none of them is a ring -/
theorem words_kept {s s' : Recorded κ × KernelView} (hnum : s.2.args.Numbered) (hl : Launch s s') {id : Nat}
    (hid : id % 2 = 1) : s'.2.buffers[id]? = s.2.buffers[id]? := by
  refine hl.others id fun ring hring heq => ?_
  obtain ⟨o, ho⟩ := getElem?_of_mem hring
  have := (hnum.output ho).1
  grind

section

variable [Programmed κ] {args : KernelArgs} (hnum : args.Numbered)
  (hwithin : ∀ state : κ, (Programmed.program state).Within args.inputs.length args.outputs.length)
  (hin : ∀ {j ring}, args.inputs[j]? = some ring → ∃ tokenSize X T H, m.InputLoaded j ring tokenSize X T H)
  (hout : ∀ {o ring}, args.outputs[o]? = some ring → ∃ tokenSize A D N, m.OutputLoaded o ring tokenSize A D N)

include hnum hwithin hin hout

/-- the kernel runs and publishes, and every ring comes out drawn or grown -/
theorem kernel_yields :
    Yields (do Kernel.run; zoom (·.2) (fun s view => (s.1, view)) KernelView.publish)
      (m.kernel, KernelView.start m.buffers args) fun _ s' => ∃ view : KernelView,
        Launch (m.kernel, KernelView.start m.buffers args) (s'.1, view) ∧
        (∀ id, id % 2 = 0 → s'.2.buffers[id]? = view.buffers[id]?) ∧
        ∀ p ∈ args.inputs.zip view.tails ++ args.outputs.zip view.heads, HoldsWord s'.2.buffers p.1.index p.2 := by
  have hready : LaunchReady (m.kernel, KernelView.start m.buffers args) := by
    refine ⟨hnum, fun j hj => ?_, fun o ho => ?_⟩
    · obtain ⟨tokenSize, X, T, H, hl⟩ := hin (getElem?_eq_getElem hj)
      exact ⟨_, tokenSize, X, T, H, hl.viewed (getElem?_eq_getElem hj), hl.received⟩
    · obtain ⟨tokenSize, A, D, N, hl⟩ := hout (getElem?_eq_getElem ho)
      exact ⟨_, tokenSize, A, D, N, N, hl.viewed (getElem?_eq_getElem ho), hl.accepted⟩
  have hrun := KernelProgram.run_yields (Programmed.program m.kernel.state) hready (hwithin _)
  refine ends_bind (ends_bind (ends_get (hrun.mono fun _ s1 hl => ?_)))
  have hargs : s1.2.args = args := hl.args
  have hwords : ∀ p ∈ args.inputs.zip s1.2.tails ++ args.outputs.zip s1.2.heads,
      (∃ w, s1.2.buffers[p.1.index]? = some w ∧ w.size = 4) ∧ p.1.index % 2 = 1 := by
    intro p hp
    rcases mem_append.1 hp with hp | hp
    · obtain ⟨j, hj⟩ := getElem?_of_mem (of_mem_zip hp).1
      obtain ⟨_, _, _, _, hl'⟩ := hin hj
      have hodd : p.1.index % 2 = 1 := by have := (hnum.input hj).2; grind
      exact ⟨by rw [words_kept hnum hl hodd]; exact hl'.word, hodd⟩
    · obtain ⟨o, ho⟩ := getElem?_of_mem (of_mem_zip hp).1
      obtain ⟨_, _, _, _, hl'⟩ := hout ho
      have hodd : p.1.index % 2 = 1 := by have := (hnum.output ho).2; grind
      exact ⟨by rw [words_kept hnum hl hodd]; exact hl'.word, hodd⟩
  refine ends_zoom (ends_bind (ends_get ?_))
  rw [hargs]
  refine (KernelView.publishWords_yields _ _ (fun p hp => (hwords p hp).1) (hnum.words_nodup _ _)).mono
    fun _ view' ⟨hkeep, hwritten⟩ => ⟨s1.2, hl, fun id hid => hkeep id fun hmem => ?_, hwritten⟩
  obtain ⟨p, hp, rfl⟩ := mem_map.1 hmem
  grind

/-- a launch goes through, and every ring comes out drawn or grown -/
theorem launch_performs :
    ∃ m' : Machine (Recorded κ), m.Performs (.launch args) none m' ∧
      (∀ {j ring tokenSize X T H}, args.inputs[j]? = some ring → m.InputLoaded j ring tokenSize X T H →
        m'.InputDrawn j ring tokenSize X T H) ∧
      ∀ {o ring tokenSize A D N}, args.outputs[o]? = some ring → m.OutputLoaded o ring tokenSize A D N →
        m'.OutputGrown o ring tokenSize A D N := by
  have hyields : Yields (perform (.launch args)) m fun a m' =>
      a = none ∧ ∃ view : KernelView, Launch (m.kernel, KernelView.start m.buffers args) (m'.kernel, view) ∧
        (∀ id, id % 2 = 0 → m'.buffers[id]? = view.buffers[id]?) ∧
        ∀ p ∈ args.inputs.zip view.tails ++ args.outputs.zip view.heads, HoldsWord m'.buffers p.1.index p.2 := by
    refine ends_bind (ends_bind (ends_zoom ((kernel_yields hnum hwithin hin hout).mono ?_)))
    intro _ s' hs'
    exact ends_modify (ends_pure ⟨rfl, hs'⟩)
  obtain ⟨a, m', hm, rfl, view, hl, heven, hwords⟩ := hyields.exec
  refine ⟨m', hm, fun {j ring tokenSize X T H} hargs hloaded => ?_, fun {o ring tokenSize A D N} hargs hloaded => ?_⟩
  · obtain ⟨R, hle, hring, hrec⟩ := hl.input (hloaded.viewed hargs) hloaded.received
    obtain ⟨b, hb, hsize, hkeeps⟩ := hring.storage
    have hdata : ring.data % 2 = 0 := by have := (hnum.input hargs).1; grind
    exact ⟨R, hle, hring.order.1, ⟨b, by rw [heven _ hdata]; exact hb, hsize, hkeeps⟩, hrec,
      hwords (ring, _) (mem_append_left _ (mem_of_getElem? (getElem?_zip_eq_some.2 ⟨hargs, hring.tail⟩)))⟩
  · obtain ⟨A', N', hpre, hring, hrec⟩ := hl.output (hloaded.viewed hargs) hloaded.accepted
    obtain ⟨b, hb, hsize, hkeeps⟩ := hring.storage
    have hdata : ring.data % 2 = 0 := by have := (hnum.output hargs).1; grind
    exact ⟨A', N', hpre, hring.length, hring.order.2.1, hring.order.2.2,
      ⟨b, by rw [heven _ hdata]; exact hb, hsize, hkeeps⟩, hrec,
      hwords (ring, _) (mem_append_right _ (mem_of_getElem? (getElem?_zip_eq_some.2 ⟨hargs, hring.head⟩)))⟩

end

end Machine

end Dataflow
