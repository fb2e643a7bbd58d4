import Dataflow.Proofs.PortMoves

/-!
What the calls of one launch may touch. From what the kernel has read and written so far (`RingUse`) follows what each
call answers (`KernelView.Carries.obey`).

- `Machine.launch_owns_its_rings`: every call answers, a read with the first unread tokens in ring order and a write
  with how many of its first tokens fit. A kernel that then returns leaves its new indices in the index words, its
  tokens in the slots from the old head of each output to the new one, and everything else as it was (`Published`); one
  that then stops with an error leaves every index word as it was (`Withheld`).
- Witness `Machine.launch_owns_its_rings_across_the_end`.

Premises: rings and index words that lie apart in the buffers (`KernelArgs.Owned`), and calls on ports that are there.
-/

namespace Dataflow

open Function List Step

/-! ## Slots of a ring -/

namespace Block

variable {b b1 b2 : Block} {t n m capacity tokenSize : Nat}

/-- the tokens of `n` slots from `start` on, in ring order -/
def ringSlice (b : Block) (start n capacity tokenSize : Nat) : Bytes :=
  (List.range n).flatMap fun i => b.slice ((start + i) % capacity * tokenSize) tokenSize

theorem ringSlice_succ (b : Block) (start n capacity tokenSize : Nat) :
    b.ringSlice start (n + 1) capacity tokenSize =
      b.ringSlice start n capacity tokenSize ++ b.slice ((start + n) % capacity * tokenSize) tokenSize := by
  simp [ringSlice, range_succ]

theorem ringSlice_mod (b : Block) (start n capacity tokenSize : Nat) :
    b.ringSlice (start % capacity) n capacity tokenSize = b.ringSlice start n capacity tokenSize := by
  simp [ringSlice]

/-- the slots of a window hold the window -/
theorem Keeps.ringSlice {stream : Bytes} {lo : Nat} (h : b.Keeps (capacity * tokenSize) stream lo) (hc : 0 < capacity)
    (hlo : lo ≤ t * tokenSize) (hhi : (t + n) * tokenSize ≤ stream.length) :
    b.ringSlice t n capacity tokenSize = (stream.drop (t * tokenSize)).take (n * tokenSize) := by
  induction n with
  | zero => simp [Block.ringSlice]
  | succ n ih =>
    have hbefore : (t + n) * tokenSize + tokenSize = (t + (n + 1)) * tokenSize := by ring
    have hend : (t + n) % capacity * tokenSize + tokenSize ≤ capacity * tokenSize := by
      rw [← Nat.succ_mul]
      exact Nat.mul_le_mul_right _ (Nat.mod_lt _ hc)
    have hslot := h.slice
      (hlo.trans (Nat.mul_le_mul_right _ (Nat.le_add_right _ _))) (by rwa [scaled_mod]) (by omega)
    rw [scaled_mod] at hslot
    rw [ringSlice_succ, ih (by omega), hslot, Nat.succ_mul, take_add, drop_drop, ← Nat.add_mul]

/-- the bytes met on the first `n` steps of endless laps through a block -/
def laps (b : Block) (size n : Nat) : Bytes := (List.range n).map fun j => b.byteAt (j % size)

theorem keeps_laps (b : Block) (size n : Nat) : b.Keeps size (b.laps size n) 0 := by
  intro j hj _
  simp [laps]

/-- nothing has changed but slots among the `n` from `start` on -/
structure ChangedWithin (b b' : Block) (start n capacity tokenSize : Nat) : Prop where
  size : b'.size = b.size
  bytes : ∀ offset, (∀ i < n, offset / tokenSize ≠ (start + i) % capacity) → b'.byteAt offset = b.byteAt offset

theorem ChangedWithin.refl (b : Block) (start n capacity tokenSize : Nat) :
    b.ChangedWithin b start n capacity tokenSize :=
  ⟨rfl, fun _ _ => rfl⟩

theorem ChangedWithin.trans (h1 : b.ChangedWithin b1 t n capacity tokenSize)
    (h2 : b1.ChangedWithin b2 (t + n) m capacity tokenSize) : b.ChangedWithin b2 t (n + m) capacity tokenSize := by
  refine ⟨h2.size.trans h1.size, fun offset hout => ?_⟩
  rw [h2.bytes offset fun i hi => ?_, h1.bytes offset fun i hi => hout i (by omega)]
  rw [Nat.add_assoc]
  exact hout (n + i) (by omega)

theorem ChangedWithin.mod (h : b.ChangedWithin b1 t n capacity tokenSize) :
    b.ChangedWithin b1 (t % capacity) n capacity tokenSize :=
  ⟨h.size, fun offset hout => h.bytes offset fun i hi => by rw [← Nat.mod_add_mod]; exact hout i hi⟩

/-- a stretch covers its own slots only, before and after the end of the storage -/
theorem slot_of_stretch (offset : Nat) (hc : 0 < capacity) (hs : 0 < tokenSize) (hn : n ≤ capacity)
    (h : (t % capacity * tokenSize ≤ offset ∧ offset < (t % capacity + lead t n capacity) * tokenSize) ∨
      offset < (n - lead t n capacity) * tokenSize) :
    ∃ i < n, offset / tokenSize = (t + i) % capacity := by
  have hl := lead_le t n capacity
  have hend := lead_le_end (t := t) (n := n) hc
  rw [← Nat.le_div_iff_mul_le hs, ← Nat.div_lt_iff_lt_mul hs, ← Nat.div_lt_iff_lt_mul hs] at h
  generalize offset / tokenSize = slot at h ⊢
  rcases h with ⟨hge, hlt⟩ | hlt
  · refine ⟨slot - t % capacity, by omega, ?_⟩
    rw [← Nat.mod_add_mod, Nat.add_sub_cancel' hge, Nat.mod_eq_of_lt (by omega)]
  · refine ⟨lead t n capacity + slot, by omega, ?_⟩
    rw [← Nat.add_assoc, ← Nat.mod_add_mod, lead_wraps hc (by omega), Nat.zero_add, Nat.mod_eq_of_lt (by omega)]

theorem storeRuns_changedWithin (b : Block) (bytes : Bytes) (hc : 0 < capacity)
    (hs : 0 < tokenSize) (hn : n ≤ capacity) :
    b.ChangedWithin (b.storeRuns (stretch t n capacity tokenSize) bytes) t n capacity tokenSize := by
  refine ⟨storeRuns_size _ _ _, fun offset hout => ?_⟩
  have hnot := mt (slot_of_stretch offset hc hs hn) fun ⟨i, hi, hslot⟩ => hout i hi hslot
  have hfirst := length_take_le (lead t n capacity * tokenSize) bytes
  have hsecond := length_take_le ((n - lead t n capacity) * tokenSize) (bytes.drop (lead t n capacity * tokenSize))
  rw [storeRuns, stretch_fst_length, stretch_snd_length, byteAt_store_outside _ _ (.inr ?_), byteAt_store_outside]
  · rw [Nat.add_mul] at hnot
    simp only [stretch]
    omega
  · simp only [stretch]
    omega

end Block

/-! ## Calls, by what has gone through the rings -/

namespace PortArgs

def held (ring : PortArgs) : Nat := Indices.distance ring.tail ring.head ring.capacity

def storage (ring : PortArgs) (buffers : Array Block) : Block := buffers[ring.data]?.getD (.zeroed 0)

def tokenBytes (ring : PortArgs) (buffers : Array Block) : Nat := (ring.storage buffers).size / ring.capacity

end PortArgs

/-- what a kernel has made of its rings since its launch, by port -/
structure RingUse where
  /-- tokens read from each input -/
  read : Nat → Nat := fun _ => 0
  /-- tokens written to each output -/
  written : Nat → Nat := fun _ => 0
  /-- the bytes of the tokens written -/
  accepted : Nat → Bytes := fun _ => []

namespace RingUse

def receive (t : RingUse) (port n : Nat) : RingUse :=
  { t with read := update t.read port (t.read port + n) }

def send (t : RingUse) (port n : Nat) (bytes : Bytes) : RingUse :=
  { t with
    written := update t.written port (t.written port + n)
    accepted := update t.accepted port (t.accepted port ++ bytes) }

variable (buffers : Array Block) (args : KernelArgs)

/-- what a call answers after the traffic so far, and the traffic after it -/
inductive Answers : RingUse → KernelCommand → KernelAnswer → RingUse → Prop
  | counts {t : RingUse} : Answers t .counts (.counts args.inputs.length args.outputs.length) t
  | available {t : RingUse} {port : Nat} {ring : PortArgs} (h : args.inputs[port]? = some ring) :
    Answers t (.available port) (.number (ring.held - t.read port)) t
  | space {t : RingUse} {port : Nat} {ring : PortArgs} (h : args.outputs[port]? = some ring) :
    Answers t (.space port) (.number (ring.capacity - 1 - ring.held - t.written port)) t
  | inputSize {t : RingUse} {port : Nat} {ring : PortArgs} (h : args.inputs[port]? = some ring) :
    Answers t (.inputSize port) (.number (ring.tokenBytes buffers)) t
  | outputSize {t : RingUse} {port : Nat} {ring : PortArgs} (h : args.outputs[port]? = some ring) :
    Answers t (.outputSize port) (.number (ring.tokenBytes buffers)) t
  /-- the first unread tokens, as many as asked for and there -/
  | read {t : RingUse} {port n taken : Nat} {ring : PortArgs} (h : args.inputs[port]? = some ring)
    (htaken : taken = min n (ring.held - t.read port)) :
    Answers t (.read port n)
      (.bytes ((ring.storage buffers).ringSlice (ring.tail + t.read port) taken ring.capacity
        (ring.tokenBytes buffers))) (t.receive port taken)
  /-- the first whole tokens, as many as fit; their number is a word of 32 bits -/
  | write {t : RingUse} {port n : Nat} {bytes : Bytes} {ring : PortArgs} (h : args.outputs[port]? = some ring)
    (hn : n = min (bytes.length / ring.tokenBytes buffers % 2 ^ 32) (ring.capacity - 1 - ring.held - t.written port)) :
    Answers t (.write port bytes) (.number n) (t.send port n (bytes.take (n * ring.tokenBytes buffers)))
  | copy {t t1 t2 : RingUse} {input output n written : Nat} {bytes : Bytes}
    (hread : Answers t (.read input n) (.bytes bytes) t1)
    (hwrite : Answers t1 (.write output bytes) (.number written) t2) :
    Answers t (.copy input output n) (.copied bytes written) t2

inductive Runs : RingUse → List KernelCommand → List KernelAnswer → RingUse → Prop
  | nil {t : RingUse} : Runs t [] [] t
  | cons {t t1 t2 : RingUse} {call : KernelCommand} {calls : List KernelCommand} {answer : KernelAnswer}
    {answers : List KernelAnswer} (h : Answers buffers args t call answer t1) (hrest : Runs t1 calls answers t2) :
    Runs t (call :: calls) (answer :: answers) t2

end RingUse

def KernelCommand.Within (args : KernelArgs) : KernelCommand → Prop
  | .counts => True
  | .available port | .inputSize port | .read port _ => port < args.inputs.length
  | .space port | .outputSize port | .write port _ => port < args.outputs.length
  | .copy input output _ => input < args.inputs.length ∧ output < args.outputs.length
  | .fail _ => False

/-! ## Rings that a launch may name -/

/-- a ring whose indices lie in it, with a block for its tokens and a word for its index -/
structure PortArgs.Laid (ring : PortArgs) (buffers : Array Block) : Prop where
  head : ring.head < ring.capacity
  tail : ring.tail < ring.capacity
  /-- indices are words of 32 bits -/
  indices : ring.capacity < 2 ^ 32
  /-- no block is larger than the address space -/
  tokens : ∃ b tokenSize, buffers[ring.data]? = some b ∧ 1 ≤ tokenSize ∧ b.size = ring.capacity * tokenSize ∧
    b.size ≤ Word.signedMax64
  word : ∃ w, buffers[ring.index]? = some w ∧ 4 ≤ w.size

/-- all rings of a launch are laid out, in buffers that are all different -/
structure KernelArgs.Owned (args : KernelArgs) (buffers : Array Block) : Prop where
  laid : ∀ ring ∈ args.inputs ++ args.outputs, ring.Laid buffers
  distinct : ((args.inputs ++ args.outputs).flatMap fun ring => [ring.data, ring.index]).Nodup

namespace PortArgs

variable {ring : PortArgs} {buffers : Array Block}

theorem Laid.geometry (h : ring.Laid buffers) : Addressable ring.capacity (ring.tokenBytes buffers) ∧
    buffers[ring.data]? = some (ring.storage buffers) ∧
    (ring.storage buffers).size = ring.capacity * ring.tokenBytes buffers := by
  obtain ⟨b, tokenSize, hb, hts, hsize, hfits⟩ := h.tokens
  have hpos : 0 < ring.capacity := by have := h.head; omega
  have hstorage : ring.storage buffers = b := by simp [storage, hb]
  have hbytes : ring.tokenBytes buffers = tokenSize := by
    rw [tokenBytes, hstorage, hsize, Nat.mul_div_cancel_left _ hpos]
  rw [hbytes, hstorage]
  exact ⟨⟨hpos, hts, hsize ▸ hfits⟩, hb, hsize⟩

theorem Laid.held (h : ring.Laid buffers) :
    ring.held < ring.capacity ∧ (ring.tail + ring.held) % ring.capacity = ring.head :=
  ⟨(Indices.exists_distance h.tail h.head).1, (Indices.exists_distance h.tail h.head).2.1⟩

end PortArgs

namespace KernelArgs

variable {args : KernelArgs} {buffers : Array Block} {i j o port : Nat} {r r' ring : PortArgs}

section

variable (h : args.Owned buffers)

include h

theorem Owned.input (hr : args.inputs[port]? = some ring) : ring.Laid buffers :=
  h.laid ring (mem_append_left _ (mem_of_getElem? hr))

theorem Owned.output (hr : args.outputs[port]? = some ring) : ring.Laid buffers :=
  h.laid ring (mem_append_right _ (mem_of_getElem? hr))

theorem Owned.apart (hi : (args.inputs ++ args.outputs)[i]? = some r) (hj : (args.inputs ++ args.outputs)[j]? = some r')
    (hij : i ≠ j) : r.data ≠ r'.data ∧ r.data ≠ r'.index ∧ r.index ≠ r'.data := by
  have hpair := (nodup_flatMap.1 h.distinct).2
  rw [pairwise_iff_getElem] at hpair
  obtain ⟨hi', rfl⟩ := List.getElem?_eq_some_iff.1 hi
  obtain ⟨hj', rfl⟩ := List.getElem?_eq_some_iff.1 hj
  rcases Nat.lt_or_gt_of_ne hij with hlt | hlt
  · have := hpair i j hi' hj' hlt
    simp [List.Disjoint, onFun] at this
    grind
  · have := hpair j i hj' hi' hlt
    simp [List.Disjoint, onFun] at this
    grind

/-- no port keeps its index in a ring -/
theorem Owned.index_ne (hr : r ∈ args.inputs ++ args.outputs)
    (hr' : r' ∈ args.inputs ++ args.outputs) : r'.data ≠ r.index := by
  obtain ⟨i, hi⟩ := getElem?_of_mem hr
  obtain ⟨j, hj⟩ := getElem?_of_mem hr'
  by_cases hij : i = j
  · subst hij
    rw [hi] at hj
    cases hj
    have := (nodup_flatMap.1 h.distinct).1 r hr
    simpa using this
  · exact (h.apart hi hj hij).2.2.symm

theorem Owned.input_ne_output (hr : args.inputs[i]? = some r)
    (hr' : args.outputs[o]? = some r') : r'.data ≠ r.data := by
  have hi := lt_of_getElem? hr
  refine (h.apart (i := i) (j := args.inputs.length + o) ?_ ?_ (by omega)).1.symm
  · rw [getElem?_append_left hi, hr]
  · rw [getElem?_append_right (by omega), Nat.add_sub_cancel_left, hr']

theorem Owned.output_ne_output (hr : args.outputs[i]? = some r) (hr' : args.outputs[j]? = some r')
    (hij : i ≠ j) : r.data ≠ r'.data := by
  refine (h.apart (i := args.inputs.length + i) (j := args.inputs.length + j) ?_ ?_ (by omega)).1
  · rw [getElem?_append_right (by omega), Nat.add_sub_cancel_left, hr]
  · rw [getElem?_append_right (by omega), Nat.add_sub_cancel_left, hr']

/-- the index words of all ports are different -/
theorem Owned.words_nodup : ((args.inputs ++ args.outputs).map (·.index)).Nodup := by
  refine h.distinct.sublist ?_
  induction args.inputs ++ args.outputs with
  | nil => simp
  | cons ring rings ih => simpa using (ih.cons_cons ring.index).cons ring.data

end

end KernelArgs

/-! ## Scripts -/

namespace StockKernel

variable {calls : List KernelCommand} {later : List (List KernelCommand)} {log log' : Array KernelAnswer}
  {k k' : KernelView}

/-- a call that answers is logged, and the rest goes on from there -/
theorem obeyAll_cons {call : KernelCommand} {answer : KernelAnswer} (h : k.obey call = .ok (answer, k')) :
    (obeyAll (call :: calls)).exec (log, k) = (obeyAll calls).exec (log.push answer, k') := by
  change (liftM (k.obey call) >>= fun answered => do
    set (log.push answered.1, answered.2)
    obeyAll calls : Step DeviceError (Array KernelAnswer × KernelView) Unit).exec (log, k) = _
  rw [h]
  rfl

/-- a script that fails after some calls has made those calls -/
theorem obeyAll_fail (reason : String) (rest : List KernelCommand)
    (h : (obeyAll calls).exec (log, k) = (.ok (), log', k')) :
    (obeyAll (calls ++ .fail reason :: rest)).exec (log, k) = (.error (.error (.commandFailed reason)), log', k') := by
  induction calls generalizing log k with
  | nil => cases h; rfl
  | cons call calls ih =>
    obtain ⟨⟨answer, k1⟩, hcall, hset⟩ := exec_except_bind_ok (exec_get_bind_ok h)
    rw [cons_append, obeyAll_cons hcall]
    exact ih (exec_set_bind_ok hset)

/-- a scripted kernel makes the calls of its script -/
theorem run_script {stop : Except (Stop DeviceError) Unit} (h : (obeyAll calls).exec (log, k) = (stop, log', k')) :
    run.exec (.script (calls :: later) log, k) = (stop, .script later log', k') := by
  change (fun s => (s.1, script later s.2.1, s.2.2)) ((obeyAll calls).exec (log, k)) = _
  rw [h]

end StockKernel

/-! ## One call -/

namespace KernelView

variable {k : KernelView} {buffers : Array Block} {args : KernelArgs} {t : RingUse} {port : Nat} {ring : PortArgs}

/-- the view of a kernel that has used its rings so far as `t` says. Totals start at the tail of each ring: an input is
a stream of laps through its block, an output's stream goes on behind what the ring held at the launch. -/
structure Carries (k : KernelView) (buffers : Array Block) (args : KernelArgs) (t : RingUse) : Prop where
  same : k.args = args
  tails : k.tails.length = args.inputs.length
  heads : k.heads.length = args.outputs.length
  input : ∀ {port ring}, args.inputs[port]? = some ring →
    k.InputRing port ring (ring.tokenBytes buffers)
      ((ring.storage buffers).laps (ring.capacity * ring.tokenBytes buffers)
        ((ring.tail + ring.held) * ring.tokenBytes buffers))
      (ring.tail + t.read port) (ring.tail + ring.held)
  output : ∀ {port ring}, args.outputs[port]? = some ring →
    k.OutputRing port ring (ring.tokenBytes buffers)
      (List.replicate ((ring.tail + ring.held) * ring.tokenBytes buffers) 0 ++ t.accepted port)
      ring.tail (ring.tail + ring.held) (ring.tail + ring.held + t.written port)
  slots : ∀ {port} {ring : PortArgs}, args.outputs[port]? = some ring → ∃ b, k.buffers[ring.data]? = some b ∧
    (ring.storage buffers).ChangedWithin b (ring.tail + ring.held) (t.written port) ring.capacity
    (ring.tokenBytes buffers)
  others : ∀ id, (∀ ring ∈ args.outputs, ring.data ≠ id) → k.buffers[id]? = buffers[id]?

theorem start_carries (h : args.Owned buffers) : (start buffers args).Carries buffers args {} := by
  refine ⟨rfl, by simp [start], by simp [start], fun hr => ?_, fun hr => ?_,
    fun hr => ?_, fun _ _ => rfl⟩
  · obtain ⟨hgeometry, hb, hsize⟩ := (h.input hr).geometry
    obtain ⟨hheld, hhead⟩ := (h.input hr).held
    refine ⟨hr, ?_, hgeometry, hhead.symm, by simp [Block.laps], ⟨by simp, by simp; omega⟩, _, hb, hsize, ?_⟩
    · simp [start, hr, Nat.mod_eq_of_lt (h.input hr).tail]
    · exact (Block.keeps_laps _ _ _).mono (Nat.zero_le _)
  · obtain ⟨hgeometry, hb, hsize⟩ := (h.output hr).geometry
    obtain ⟨hheld, hhead⟩ := (h.output hr).held
    refine ⟨hr, ?_, hgeometry, (Nat.mod_eq_of_lt (h.output hr).tail).symm, by simp, ⟨by simp, by simp, by simp; omega⟩,
      _, hb, hsize, Block.keeps_of_length_le (by simp)⟩
    simp [start, hr, hhead]
  · exact ⟨_, (h.output hr).geometry.2.1, .refl ..⟩

theorem Carries.read (hk : k.Carries buffers args t) (hr : args.inputs[port]? = some ring)
    (n : Nat) : ∃ bytes k' t', k.readInput port n = .ok (bytes, k') ∧
      RingUse.Answers buffers args t (.read port n) (.bytes bytes) t' ∧ k'.Carries buffers args t' := by
  have hring := hk.input hr
  obtain ⟨taken, htaken, hread, hring'⟩ := hring.read n
  rw [show ring.tail + ring.held - (ring.tail + t.read port) = ring.held - t.read port by omega] at htaken
  have hlast : ring.tail + t.read port + taken ≤ ring.tail + ring.held := by have := hring.order; omega
  have hbytes := (Block.keeps_laps (ring.storage buffers) (ring.capacity * ring.tokenBytes buffers)
    ((ring.tail + ring.held) * ring.tokenBytes buffers)).ringSlice (n := taken)
    hring.geometry.slots (Nat.zero_le _) (by rw [hring.length]; exact Nat.mul_le_mul_right _ hlast)
  rw [← hbytes] at hread
  refine ⟨_, _, _, hread, .read hr htaken, hk.same, by simpa using hk.tails, hk.heads, fun {port' ring'} hr' => ?_,
    fun hr' => (hk.output hr').frame rfl rfl rfl, hk.slots, hk.others⟩
  by_cases hport : port' = port
  · subst hport
    rw [hr] at hr'
    cases hr'
    simpa [RingUse.receive, Nat.add_assoc] using hring'
  · have hsame : (t.receive port taken).read port' = t.read port' := by simp [RingUse.receive, hport]
    rw [hsame]
    exact (hk.input hr').frame rfl (getElem?_set_ne (Ne.symm hport)) rfl

theorem Carries.write (h : args.Owned buffers) (hk : k.Carries buffers args t) (hr : args.outputs[port]? = some ring)
    (bytes : Bytes) : ∃ n k' t', k.writeOutput port bytes = .ok (n, k') ∧
      RingUse.Answers buffers args t (.write port bytes) (.number n) t' ∧ k'.Carries buffers args t' := by
  have hring := hk.output hr
  obtain ⟨n, b, hn, hwrite, -, ⟨b0, hb0, rfl⟩, hring'⟩ := hring.write bytes
  rw [show ring.capacity - 1 - (ring.tail + ring.held + t.written port - ring.tail) =
    ring.capacity - 1 - ring.held - t.written port by omega] at hn
  have hother : ∀ id, ring.data ≠ id → (k.buffers.setIfInBounds ring.data
      (b0.storeRuns (stretch (ring.tail + ring.held + t.written port) n ring.capacity (ring.tokenBytes buffers))
        bytes))[id]? =
      k.buffers[id]? := fun id hid => Array.getElem?_setIfInBounds_ne hid
  refine ⟨n, _, _, hwrite, .write hr hn, hk.same, hk.tails, by simpa using hk.heads, fun hr' => ?_,
    fun {port' ring'} hr' => ?_, fun {port' ring'} hr' => ?_, fun id hid => ?_⟩
  · exact (hk.input hr').frame rfl rfl (hother _ (h.input_ne_output hr' hr))
  · by_cases hport : port' = port
    · subst hport
      rw [hr] at hr'
      cases hr'
      simpa [RingUse.send, Nat.add_assoc] using hring'
    · simp only [RingUse.send, update_of_ne hport]
      exact (hk.output hr').frame rfl (getElem?_set_ne (Ne.symm hport))
        (hother _ (h.output_ne_output hr hr' (Ne.symm hport)))
  · by_cases hport : port' = port
    · subst hport
      rw [hr] at hr'
      cases hr'
      obtain ⟨b1, hb1, hchanged⟩ := hk.slots hr
      rw [hb0] at hb1
      cases hb1
      have hlt := (Array.getElem?_eq_some_iff.1 hb0).1
      refine ⟨_, Array.getElem?_setIfInBounds_self_of_lt hlt, ?_⟩
      simp only [RingUse.send, update_self]
      exact hchanged.trans (Block.storeRuns_changedWithin b0 bytes hring.geometry.slots hring.geometry.token (by omega))
    · obtain ⟨b1, hb1, hchanged⟩ := hk.slots hr'
      refine ⟨b1, by rw [hother _ (h.output_ne_output hr hr' (Ne.symm hport)), hb1], ?_⟩
      simpa only [RingUse.send, update_of_ne hport] using hchanged
  · rw [hother id (hid ring (mem_of_getElem? hr)), hk.others id hid]

attribute [local simp] KernelView.obey

/-- every call on a port that is there answers what the use of the rings so far says -/
theorem Carries.obey {call : KernelCommand} (h : args.Owned buffers) (hk : k.Carries buffers args t)
    (hcall : call.Within args) : ∃ answer k' t', k.obey call = .ok (answer, k') ∧
      RingUse.Answers buffers args t call answer t' ∧ k'.Carries buffers args t' := by
  have hinput : ∀ {port}, port < args.inputs.length → ∃ ring, args.inputs[port]? = some ring := fun hlt =>
    ⟨_, getElem?_eq_getElem hlt⟩
  have houtput : ∀ {port}, port < args.outputs.length → ∃ ring, args.outputs[port]? = some ring := fun hlt =>
    ⟨_, getElem?_eq_getElem hlt⟩
  cases call with
  | counts => exact ⟨_, k, t, rfl, by rw [hk.same]; exact .counts, hk⟩
  | available port =>
    obtain ⟨ring, hr⟩ := hinput hcall
    have hlevel := (hk.input hr).available
    rw [Nat.add_sub_add_left] at hlevel
    exact ⟨_, k, t, by simp [hlevel], .available hr, hk⟩
  | space port =>
    obtain ⟨ring, hr⟩ := houtput hcall
    have hlevel := (hk.output hr).space
    rw [Nat.add_assoc, Nat.add_sub_cancel_left, ← Nat.sub_sub] at hlevel
    exact ⟨_, k, t, by simp [hlevel], .space hr, hk⟩
  | inputSize port =>
    obtain ⟨ring, hr⟩ := hinput hcall
    exact ⟨_, k, t, by simp [(hk.input hr).size], .inputSize hr, hk⟩
  | outputSize port =>
    obtain ⟨ring, hr⟩ := houtput hcall
    exact ⟨_, k, t, by simp [(hk.output hr).size], .outputSize hr, hk⟩
  | read port n =>
    obtain ⟨ring, hr⟩ := hinput hcall
    obtain ⟨bytes, k', t', hread, hanswers, hk'⟩ := hk.read hr n
    exact ⟨_, k', t', by simp [hread], hanswers, hk'⟩
  | write port bytes =>
    obtain ⟨ring, hr⟩ := houtput hcall
    obtain ⟨n, k', t', hwrite, hanswers, hk'⟩ := hk.write h hr bytes
    exact ⟨_, k', t', by simp [hwrite], hanswers, hk'⟩
  | copy input output n =>
    obtain ⟨ring, hr⟩ := hinput hcall.1
    obtain ⟨ring', hr'⟩ := houtput hcall.2
    obtain ⟨bytes, k1, t1, hread, hanswers, hk1⟩ := hk.read hr n
    obtain ⟨written, k2, t2, hwrite, hanswers', hk2⟩ := hk1.write h hr' bytes
    exact ⟨_, k2, t2, by simp [hread, hwrite], .copy hanswers hanswers', hk2⟩
  | fail reason => exact hcall.elim

theorem Carries.obeyAll {calls : List KernelCommand} (h : args.Owned buffers) (hk : k.Carries buffers args t)
    (hcalls : ∀ call ∈ calls, call.Within args) (log : Array KernelAnswer) : ∃ answers k' t',
      (StockKernel.obeyAll calls).exec (log, k) = (.ok (), log ++ answers.toArray, k') ∧
      RingUse.Runs buffers args t calls answers t' ∧ k'.Carries buffers args t' := by
  induction calls generalizing k t log with
  | nil => exact ⟨[], k, t, by simp [StockKernel.obeyAll]; rfl, .nil, hk⟩
  | cons call calls ih =>
    obtain ⟨answer, k1, t1, hcall, hanswer, hk1⟩ := hk.obey h (hcalls call mem_cons_self)
    obtain ⟨answers, k2, t2, hrest, hruns, hk2⟩ :=
      ih hk1 (fun c hc => hcalls c (mem_cons_of_mem _ hc)) (log.push answer)
    refine ⟨answer :: answers, k2, t2, ?_, .cons hanswer hruns, hk2⟩
    rw [StockKernel.obeyAll_cons hcall, hrest]
    simp

end KernelView

/-! ## The end of a launch -/

/-- a word holds an index, and the rest of its buffer is as it was -/
def IndexStored (before after : Array Block) (id x : Nat) : Prop :=
  ∃ w w', before[id]? = some w ∧ after[id]? = some w' ∧ w'.size = w.size ∧ Bytes.toNat (w'.slice 0 4) = x ∧
    ∀ offset, 4 ≤ offset → w'.byteAt offset = w.byteAt offset

/-- the buffers after a launch whose kernel has returned -/
structure KernelArgs.Published (args : KernelArgs) (before after : Array Block) (t : RingUse) : Prop where
  inputWord : ∀ {port ring}, args.inputs[port]? = some ring →
    IndexStored before after ring.index ((ring.tail + t.read port) % ring.capacity)
  outputWord : ∀ {port ring}, args.outputs[port]? = some ring →
    IndexStored before after ring.index ((ring.head + t.written port) % ring.capacity)
  /-- the new tokens are in the slots from the old head to the new one, and no other slot has changed -/
  output : ∀ {port ring}, args.outputs[port]? = some ring → ∃ b b', before[ring.data]? = some b ∧
    after[ring.data]? = some b' ∧
    b'.ringSlice ring.head (t.written port) ring.capacity (ring.tokenBytes before) = t.accepted port ∧
    b.ChangedWithin b' ring.head (t.written port) ring.capacity (ring.tokenBytes before)
  input : ∀ ring ∈ args.inputs, after[ring.data]? = before[ring.data]?
  others : ∀ id, (∀ ring ∈ args.inputs ++ args.outputs, ring.data ≠ id ∧ ring.index ≠ id) → after[id]? = before[id]?

/-- the buffers after a launch whose kernel has stopped with an error -/
structure KernelArgs.Withheld (args : KernelArgs) (before after : Array Block) : Prop where
  words : ∀ ring ∈ args.inputs ++ args.outputs, after[ring.index]? = before[ring.index]?
  others : ∀ id, (∀ ring ∈ args.outputs, ring.data ≠ id) → after[id]? = before[id]?

namespace KernelView

variable {k : KernelView} {buffers : Array Block} {args : KernelArgs} {t : RingUse} {port : Nat} {ring : PortArgs}

theorem Carries.withheld (h : args.Owned buffers) (hk : k.Carries buffers args t) : args.Withheld buffers k.buffers :=
  ⟨fun _ hr => hk.others _ fun _ hr' => h.index_ne hr (mem_append_right _ hr'), hk.others⟩

/-- what an output's block holds when the kernel is done -/
theorem Carries.grown (h : args.Owned buffers) (hk : k.Carries buffers args t) (hr : args.outputs[port]? = some ring) :
    ∃ b, k.buffers[ring.data]? = some b ∧
      b.ringSlice ring.head (t.written port) ring.capacity (ring.tokenBytes buffers) = t.accepted port ∧
      (ring.storage buffers).ChangedWithin b ring.head (t.written port) ring.capacity (ring.tokenBytes buffers) := by
  obtain ⟨b, hb, hchanged⟩ := hk.slots hr
  have hring := hk.output hr
  obtain ⟨b', hb', -, hkeeps⟩ := hring.storage
  rw [hb] at hb'
  cases hb'
  have hlen := hring.length
  have htokens := hkeeps.ringSlice hring.geometry.slots le_rfl hlen.ge
  rw [length_append, length_replicate, Nat.add_mul _ (t.written port)] at hlen
  rw [drop_left' (by simp), take_of_length_le (by omega), ← Block.ringSlice_mod, (h.output hr).held.2] at htokens
  exact ⟨b, hb, htokens, (h.output hr).held.2 ▸ hchanged.mod⟩

/-- a published index can be read back from its word -/
theorem indexStored_of_store {before after : Array Block} {id x : Nat} {w : Block} (hw : before[id]? = some w)
    (hw' : after[id]? = some (w.store 0 (Bytes.ofNat 4 x))) (hx : x < 2 ^ 32) : IndexStored before after id x := by
  refine ⟨w, _, hw, hw', by simp, ?_, fun offset hoff => ?_⟩
  · have hslice := w.slice_store 0 (Bytes.ofNat 4 x)
    rw [Bytes.length_ofNat] at hslice
    rw [hslice, Bytes.toNat_ofNat (lt_of_lt_of_eq hx (by norm_num))]
  · exact Block.byteAt_store_outside _ _ (.inr (by simpa [Bytes.length_ofNat] using hoff))

/-- publishing stores every index in its word and touches nothing else -/
theorem Carries.publish (h : args.Owned buffers) (hk : k.Carries buffers args t) :
    Yields publish k fun _ k' => args.Published buffers k'.buffers t := by
  have hnames : (args.inputs.zip k.tails ++ args.outputs.zip k.heads).map (·.1.index) =
      (args.inputs ++ args.outputs).map (·.index) := by
    have hinputs := congrArg (map (·.index)) (map_fst_zip hk.tails.ge)
    have houtputs := congrArg (map (·.index)) (map_fst_zip hk.heads.ge)
    rw [map_map] at hinputs houtputs
    rw [map_append, map_append, ← hinputs, ← houtputs]
    rfl
  have hkept := hk.withheld h
  have hword : ∀ p ∈ args.inputs.zip k.tails ++ args.outputs.zip k.heads,
      ∃ w, buffers[p.1.index]? = some w ∧ k.buffers[p.1.index]? = some w ∧ 4 ≤ w.size := by
    intro p hp
    have hmem : p.1 ∈ args.inputs ++ args.outputs := by
      rcases mem_append.1 hp with hp | hp
      · exact mem_append_left _ (of_mem_zip hp).1
      · exact mem_append_right _ (of_mem_zip hp).1
    obtain ⟨w, hw, hsize⟩ := (h.laid p.1 hmem).word
    exact ⟨w, hw, by rw [hkept.words p.1 hmem, hw], hsize⟩
  refine ends_bind (ends_get ?_)
  rw [hk.same]
  refine (publishWords_stores _ _ (fun p hp => ?_) (hnames ▸ h.words_nodup)).mono fun _ k' ⟨hkeep, hstored⟩ => ?_
  · obtain ⟨w, -, hw, hsize⟩ := hword p hp
    exact ⟨w, hw, hsize⟩
  rw [hnames] at hkeep
  have hindex : ∀ {ring x}, (ring, x) ∈ args.inputs.zip k.tails ++ args.outputs.zip k.heads → x < 2 ^ 32 →
      IndexStored buffers k'.buffers ring.index x := by
    intro ring x hp hx
    obtain ⟨w, hbefore, hw, -⟩ := hword _ hp
    exact indexStored_of_store hbefore (hstored _ hp w hw) hx
  have hdata : ∀ id, (∀ ring ∈ args.inputs ++ args.outputs, ring.index ≠ id) → k'.buffers[id]? = k.buffers[id]? :=
    fun id hid => hkeep id fun hmem => by
      obtain ⟨ring, hr, rfl⟩ := mem_map.1 hmem
      exact hid ring hr rfl
  refine ⟨fun hr => ?_, fun hr => ?_, fun hr => ?_, fun ring hr => ?_, fun id hid => ?_⟩
  · have hring := hk.input hr
    refine hindex (mem_append_left _ (mem_of_getElem? (getElem?_zip_eq_some.2 ⟨hr, hring.tail⟩))) ?_
    exact (Nat.mod_lt _ hring.geometry.slots).trans (h.input hr).indices
  · have hring := hk.output hr
    have hhead := hring.head
    rw [← Nat.mod_add_mod, (h.output hr).held.2] at hhead
    refine hindex (mem_append_right _ (mem_of_getElem? (getElem?_zip_eq_some.2 ⟨hr, hhead⟩))) ?_
    exact (Nat.mod_lt _ hring.geometry.slots).trans (h.output hr).indices
  · obtain ⟨b, hb, htokens, hchanged⟩ := hk.grown h hr
    refine ⟨_, b, (h.output hr).geometry.2.1, ?_, htokens, hchanged⟩
    rw [hdata _ fun r' hr' => (h.index_ne hr' (mem_append_right _ (mem_of_getElem? hr))).symm, hb]
  · obtain ⟨port, hport⟩ := getElem?_of_mem hr
    have hsame : k.buffers[ring.data]? = buffers[ring.data]? := hk.others _ fun r' hr' => by
      obtain ⟨o, ho⟩ := getElem?_of_mem hr'
      exact h.input_ne_output hport ho
    rw [hdata _ fun r' hr' => (h.index_ne hr' (mem_append_left _ hr)).symm, hsame]
  · rw [hdata id fun r hr => (hid r hr).2, hk.others id fun r hr => (hid r (mem_append_right _ hr)).1]

end KernelView

namespace Machine

/-- **A launch touches only what it owns**, whatever sequence of calls its kernel makes. -/
theorem launch_owns_its_rings {κ : Type} [Kernel κ] {m : Machine κ} {args : KernelArgs} {calls : List KernelCommand}
    (h : args.Owned m.buffers) (hcalls : ∀ call ∈ calls, call.Within args) :
    ∃ answers view t, (StockKernel.obeyAll calls).exec (#[], KernelView.start m.buffers args) =
        (.ok (), answers.toArray, view) ∧
      RingUse.Runs m.buffers args {} calls answers t ∧
      (∀ kernel, Kernel.run.exec (m.kernel, KernelView.start m.buffers args) = (.ok (), kernel, view) →
        ∃ m', (launch args).exec m = (.ok (), m') ∧ m'.kernel = kernel ∧ m'.launches = m.launches + 1 ∧
          args.Published m.buffers m'.buffers t) ∧
      ∀ kernel stop, Kernel.run.exec (m.kernel, KernelView.start m.buffers args) = (.error stop, kernel, view) →
        ∃ m', (launch args).exec m = (.error stop, m') ∧ m'.kernel = kernel ∧ m'.launches = m.launches ∧
          args.Withheld m.buffers m'.buffers := by
  obtain ⟨answers, view, t, hexec, hruns, hview⟩ := (KernelView.start_carries h).obeyAll h hcalls #[]
  refine ⟨answers, view, t, by simpa using hexec, hruns, fun kernel hrun => ?_, fun kernel stop hrun => ?_⟩
  · have hyields : Yields (launch args) m fun _ m' => m'.kernel = kernel ∧
        m'.launches = m.launches + 1 ∧ args.Published m.buffers m'.buffers t := by
      refine ends_bind (ends_zoom (ends_bind (ends_exec hrun ?_)))
      refine ends_zoom ((hview.publish h).mono fun _ view' hpublished => ?_)
      exact ends_modify ⟨rfl, rfl, hpublished⟩
    obtain ⟨_, m', hlaunch, hm'⟩ := hyields.exec
    exact ⟨m', hlaunch, hm'⟩
  · have hstopped : Ends (launch args) m (fun _ _ => False) fun stop' m' => stop' = stop ∧ m'.kernel = kernel ∧
        m'.launches = m.launches ∧ args.Withheld m.buffers m'.buffers := by
      refine ends_bind (ends_zoom (ends_bind ?_))
      rw [Ends, hrun]
      exact ⟨rfl, rfl, rfl, hview.withheld h⟩
    rcases hlaunch : (launch args).exec m with ⟨answer | answer, m'⟩
    · obtain ⟨rfl, hm'⟩ := hstopped.of_error hlaunch
      exact ⟨m', rfl, hm'⟩
    · exact (hstopped.of_ok hlaunch).elim

/-- a ring that is read across the end of its storage, one with room for a single token, and tokens of two bytes -/
def crossedRings : KernelArgs := ⟨[⟨0, 1, 3, 1, 2⟩], [⟨3, 2, 3, 2, 1⟩]⟩

/-- three tokens in the first block; the index words are of different sizes -/
def crossedBuffers : Array Block :=
  #[(Block.zeroed 6).store 0 [1, 2, 3, 4, 5, 6], .zeroed 4, .zeroed 9, .zeroed 6]

theorem crossedRings_owned : crossedRings.Owned crossedBuffers := by
  refine ⟨fun ring hr => ?_, by decide⟩
  simp only [crossedRings, cons_append, nil_append, mem_cons, not_mem_nil, or_false] at hr
  rcases hr with rfl | rfl
  · exact ⟨by decide, by decide, by decide, ⟨_, 2, rfl, by decide, by decide, by decide⟩, ⟨_, rfl, by decide⟩⟩
  · exact ⟨by decide, by decide, by decide, ⟨_, 2, rfl, by decide, by decide, by decide⟩, ⟨_, rfl, by decide⟩⟩

/-- one token is read, one is passed on, and then the output is full -/
def crossedCalls : List KernelCommand := [.read 0 1, .copy 0 0 7, .write 0 [8, 8]]

theorem launch_owns_its_rings_across_the_end : crossedRings.Owned crossedBuffers ∧
    (∀ call ∈ crossedCalls, call.Within crossedRings) ∧
    (∃ answers t m', RingUse.Runs crossedBuffers crossedRings {} crossedCalls answers t ∧
      answers = [.bytes [5, 6], .copied [1, 2] 1, .number 0] ∧
      (launch crossedRings).exec ⟨StockKernel.script [crossedCalls] #[], crossedBuffers, 0⟩ = (.ok (), m') ∧
      crossedRings.Published crossedBuffers m'.buffers t) ∧
    ∃ m', (launch crossedRings).exec ⟨StockKernel.script [crossedCalls ++ [.fail "broken"]] #[], crossedBuffers, 0⟩ =
        (.error (.error (.commandFailed "broken")), m') ∧ crossedRings.Withheld crossedBuffers m'.buffers := by
  have hcalls : ∀ call ∈ crossedCalls, call.Within crossedRings := by
    simp [crossedCalls, KernelCommand.Within, crossedRings]
  refine ⟨crossedRings_owned, hcalls, ?_, ?_⟩
  · obtain ⟨answers, view, t, hexec, hruns, hreturned, -⟩ := launch_owns_its_rings
      (m := ⟨StockKernel.script [crossedCalls] #[], crossedBuffers, 0⟩) crossedRings_owned hcalls
    obtain ⟨m', hlaunch, -, -, hpublished⟩ := hreturned _ (StockKernel.run_script hexec)
    have hlog :
      ((StockKernel.obeyAll crossedCalls).exec (#[], KernelView.start crossedBuffers crossedRings)).2.1.toList =
        [.bytes [5, 6], .copied [1, 2] 1, .number 0] := by decide +kernel
    simp only [hexec] at hlog
    exact ⟨answers, t, m', hruns, hlog, hlaunch, hpublished⟩
  · obtain ⟨answers, view, t, hexec, -, -, hstopped⟩ := launch_owns_its_rings
      (m := ⟨StockKernel.script [crossedCalls ++ [.fail "broken"]] #[], crossedBuffers, 0⟩) crossedRings_owned hcalls
    obtain ⟨m', hlaunch, -, -, hwithheld⟩ :=
      hstopped _ _ (StockKernel.run_script (StockKernel.obeyAll_fail "broken" [] hexec))
    exact ⟨m', hlaunch, hwithheld⟩

end Machine

end Dataflow
