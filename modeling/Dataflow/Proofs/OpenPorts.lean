import Dataflow.Network.Instance
import Dataflow.Proofs.ConnectionTransfer
import Mathlib.Data.List.Forall2

/-!
The ports of one call.

`Ports.Draws` and `Ports.Fills` tie an open input or output to the ledger of its connection. With all ends on different
connections, each is closed once (`closeAll_spec`).
-/

namespace Dataflow

open List

variable {α : Type} {xs : List α} {i : Nat} {x : α}

/-! ## Lists -/

theorem set_of_getElem? (h : xs[i]? = some x) : xs.set i x = xs := by
  obtain ⟨hlt, rfl⟩ := List.getElem?_eq_some_iff.1 h
  exact set_getElem_self hlt

/-- an element of a changed list is the new one, or one of the others -/
theorem getElem?_set_cases {j : Nat} {a : α} (h : (xs.set i a)[j]? = some x) :
    (j = i ∧ x = a) ∨ (j ≠ i ∧ xs[j]? = some x) := by
  by_cases hj : j = i
  · subst hj
    have hlt : j < xs.length := by simpa using lt_of_getElem? h
    rw [getElem?_set_self hlt] at h
    exact .inl ⟨rfl, (Option.some.inj h).symm⟩
  · rw [getElem?_set_ne (Ne.symm hj)] at h
    exact .inr ⟨hj, h⟩

theorem forall₂_getElem? {β : Type} {R : α → β → Prop} {ys : List β} (h : List.Forall₂ R xs ys) {k : Nat}
    (hx : xs[k]? = some x) : ∃ y, ys[k]? = some y ∧ R x y := by
  induction h generalizing k with
  | nil => simp at hx
  | cons hfirst _ ih =>
    cases k with
    | zero => cases hx; exact ⟨_, rfl, hfirst⟩
    | succ k => exact ih hx

theorem findIdx?_of_mem {q : α → Bool} (hx : x ∈ xs) (hq : q x = true) :
    ∃ i y, xs.findIdx? q = some i ∧ xs[i]? = some y ∧ q y = true := by
  cases hfound : xs.findIdx? q with
  | none => exact absurd hq (by simp [findIdx?_eq_none_iff.1 hfound x hx])
  | some i =>
    obtain ⟨hlt, hqi, -⟩ := findIdx?_eq_some_iff_getElem.1 hfound
    exact ⟨i, _, rfl, getElem?_eq_getElem hlt, hqi⟩

theorem eq_singleton_of_getElem? (hlen : xs.length = 1) (h : xs[0]? = some x) : xs = [x] := by
  obtain ⟨y, rfl⟩ := length_eq_one_iff.1 hlen
  exact congrArg (fun y => [y]) (Option.some.inj h)

section Answers

variable {ε δ β : Type} {f : α → Except ε β} {r : Except ε α} {a : α} {g : ε → δ} {e : ε} {ys : List β} {b : β}

theorem eq_ok_of_toOption (h : r.toOption = some a) : r = .ok a := by
  cases r with
  | error e => cases h
  | ok b => exact congrArg Except.ok (Option.some.inj h)

theorem eq_of_map_toOption (hr : r = .ok a) (f : α → β) (h : r.toOption.map f = some b) : f a = b := by
  subst hr
  exact Option.some.inj h

theorem bind_eq_ok (h : (r >>= f) = .ok b) : ∃ a, r = .ok a ∧ f a = .ok b := by
  cases r with
  | error e => cases h
  | ok a => exact ⟨a, rfl, h⟩

theorem mapError_eq_ok (h : r.mapError g = .ok a) : r = .ok a := by
  cases r with
  | error e => cases h
  | ok b => cases h; rfl

theorem bind_eq_error (h : (r >>= f) = .error e) : r = .error e ∨ ∃ a, r = .ok a ∧ f a = .error e := by
  cases r with
  | error e' => cases h; exact .inl rfl
  | ok a => exact .inr ⟨a, rfl, h⟩

theorem mapError_eq_error {stop : δ} (h : r.mapError g = .error stop) : ∃ e, r = .error e ∧ stop = g e := by
  cases r with
  | error e => cases h; exact ⟨e, rfl, rfl⟩
  | ok a => cases h

theorem mapM_ok (h : ∀ x ∈ xs, ∃ y, f x = .ok y) : ∃ ys, xs.mapM f = .ok ys := by
  induction xs with
  | nil => exact ⟨[], rfl⟩
  | cons x xs ih =>
    obtain ⟨y, hy⟩ := h x mem_cons_self
    obtain ⟨ys, hys⟩ := ih fun x' hx' => h x' (mem_cons_of_mem x hx')
    exact ⟨y :: ys, by rw [mapM_cons, hy, hys]; rfl⟩

theorem mapM_cons_ok (h : (x :: xs).mapM f = .ok ys) :
    ∃ y rest, f x = .ok y ∧ xs.mapM f = .ok rest ∧ ys = y :: rest := by
  rw [mapM_cons] at h
  cases hy : f x with
  | error e => rw [hy] at h; cases h
  | ok y =>
    cases hys : xs.mapM f with
    | error e => rw [hy, hys] at h; cases h
    | ok rest =>
      rw [hy, hys] at h
      cases h
      exact ⟨y, rest, rfl, rfl, rfl⟩

/-- a list of answers has the answer for each element in its place -/
theorem mapM_spec (h : xs.mapM f = .ok ys) :
    ys.length = xs.length ∧ ∀ {i : Nat} {x}, xs[i]? = some x → ∃ y, ys[i]? = some y ∧ f x = .ok y := by
  induction xs generalizing ys with
  | nil => cases h; exact ⟨rfl, by simp⟩
  | cons x xs ih =>
    obtain ⟨y, rest, hy, hrest, rfl⟩ := mapM_cons_ok h
    obtain ⟨hlen, hget⟩ := ih hrest
    refine ⟨by simp [hlen], fun {i x'} hx' => ?_⟩
    cases i with
    | zero => cases hx'; exact ⟨y, rfl, hy⟩
    | succ i => exact hget hx'

theorem forall₂_of_mapM (h : xs.mapM f = .ok ys) : List.Forall₂ (fun x y => f x = .ok y) xs ys := by
  induction xs generalizing ys with
  | nil => cases h; exact .nil
  | cons x xs ih =>
    obtain ⟨y, rest, hy, hrest, rfl⟩ := mapM_cons_ok h
    exact .cons hy (ih hrest)

/-- every answer is the answer for some element -/
theorem exists_of_mapM {y : β} (h : xs.mapM f = .ok ys) (hy : y ∈ ys) : ∃ x ∈ xs, f x = .ok y := by
  obtain ⟨hlen, hget⟩ := mapM_spec h
  obtain ⟨i, hi⟩ := getElem?_of_mem hy
  have hlt := lt_of_getElem? hi
  have hx := getElem?_eq_getElem (hlen ▸ hlt)
  obtain ⟨y', hy', hfx⟩ := hget hx
  rw [hi] at hy'
  cases hy'
  exact ⟨_, mem_of_getElem? hx, hfx⟩

/-- the error of a list of answers is that of one of its elements -/
theorem exists_of_mapM_error (h : xs.mapM f = .error e) : ∃ x ∈ xs, f x = .error e := by
  induction xs with
  | nil => cases h
  | cons x xs ih =>
    rw [mapM_cons] at h
    rcases bind_eq_error h with hx | ⟨y, -, hrest⟩
    · exact ⟨x, mem_cons_self, hx⟩
    rcases bind_eq_error hrest with hxs | ⟨ys, -, hpure⟩
    · obtain ⟨x', hx', he⟩ := ih hxs
      exact ⟨x', mem_cons_of_mem x hx', he⟩
    · cases hpure

end Answers

theorem Firing.fired_eq {f : Firing} (h : f.actions.size < Word.size32) : f.fired = f.actions.size :=
  Nat.mod_eq_of_lt h

namespace Ports

variable {ports : Ports} {o w q n : Nat} {c : Connection} {l : Ledger} {v : PortView} {p : Primitive}

/-! ## An open input -/

/-- input `i` is open with view `v` of connection `w`, whose ledger is `l`; its end has released `q` tokens -/
structure Draws (ports : Ports) (i : Nat) (e : InputEnd) (q w : Nat) (c : Connection) (v : PortView)
    (l : Ledger) : Prop where
  port : ports.inputs[i]? = some ⟨w, v⟩
  wire : ports.wires[w]? = some c
  tracks : c.Tracks l
  reads : e.Reads v q c.capacity l

section Input

variable {e : InputEnd} {v' : PortView}

section

variable (h : ports.Draws i e q w c v l)

include h

theorem Draws.availableIn : ports.availableIn i = .ok v.available := by
  simp [Ports.availableIn, fetch_eq_ok h.port]

/-- a view on the same connection that has moved on by `n` tokens -/
theorem Draws.moved (hn : n ≤ v.available)
    (hopened : v'.openedWith = v.openedWith) (havail : v'.available = v.available - n) : v'.moved = v.moved + n := by
  have := h.reads.available_le
  simp only [PortView.moved, hopened, havail]
  omega

theorem Draws.set (hr : e.Reads v' q c.capacity l) :
    Draws { ports with inputs := ports.inputs.set i ⟨w, v'⟩ } i e q w c v' l :=
  ⟨getElem?_set_self (lt_of_getElem? h.port), h.wire, h.tracks, hr⟩

theorem Draws.onInput {f : Connection → PortView → Checked (α × PortView)} {a : α} (hf : f c v = .ok (a, v')) :
    ports.onInput i f = .ok (a, { ports with inputs := ports.inputs.set i ⟨w, v'⟩ }) := by
  simp [Ports.onInput, fetch_eq_ok h.port, fetch_eq_ok h.wire, hf]

end

/-- a number of tokens within the capacity is that of their bytes -/
theorem tokensIn_mul (ht : c.Tracks l) (hn : n ≤ c.capacity) : c.tokensIn (n * c.tokenSize) = n := by
  refine Connection.tokensIn_eq (lt_of_le_of_lt (le_trans hn ht.bounded) ?_) rfl ht.ring.token
  decide

/-- the next tokens of the stream are read as bytes -/
theorem Draws.readBytes (h : ports.Draws i e q w c v l) (hn : n ≤ v.available) :
    ∃ v', ports.readBytes i (n * c.tokenSize) =
        .ok ((l.stream.drop ((q + v.moved) * c.tokenSize)).take (n * c.tokenSize),
          { ports with inputs := ports.inputs.set i ⟨w, v'⟩ }) ∧ v'.moved = v.moved + n ∧
      Draws { ports with inputs := ports.inputs.set i ⟨w, v'⟩ } i e q w c v' l := by
  have hcap := le_trans hn (h.tracks.readable h.reads).2
  obtain ⟨cursor, hread, hr⟩ := h.tracks.readBytes_ok h.reads (tokensIn_mul h.tracks hcap) hn
  exact ⟨_, h.onInput hread, h.moved hn rfl rfl, h.set hr⟩

/-- the next token of the stream is read as a value -/
theorem Draws.read (h : ports.Draws i e q w c v l) (hp : p.size = c.tokenSize) (hn : 0 < v.available) :
    ∃ v', ports.read i p = .ok (p.ofToken (l.token c.tokenSize (q + v.moved)),
          { ports with inputs := ports.inputs.set i ⟨w, v'⟩ }) ∧ v'.moved = v.moved + 1 ∧
      Draws { ports with inputs := ports.inputs.set i ⟨w, v'⟩ } i e q w c v' l := by
  obtain ⟨cursor, hread, hr⟩ := h.tracks.read_ok h.reads hp hn
  exact ⟨_, h.onInput hread, h.moved hn rfl rfl, h.set hr⟩

end Input

/-! ## An open output -/

/-- output `o` is open with view `v` of connection `w`, whose ledger is `l` -/
structure Fills (ports : Ports) (o : Nat) (e : OutputEnd) (w : Nat) (c : Connection) (v : PortView)
    (l : Ledger) : Prop where
  port : ports.outputs[o]? = some ⟨w, v⟩
  wire : ports.wires[w]? = some c
  tracks : c.Tracks l
  writes : e.Writes v c.capacity l

section Output

variable {e : OutputEnd} {c' : Connection} {v' : PortView}

section

variable (h : ports.Fills o e w c v l)

include h

theorem Fills.availableOut : ports.availableOut o = .ok v.available := by
  simp [Ports.availableOut, fetch_eq_ok h.port]

theorem Fills.set {l' : Ledger} (ht : c'.Tracks l') (hw : e.Writes v' c'.capacity l') :
    Fills { ports with wires := ports.wires.set w c', outputs := ports.outputs.set o ⟨w, v'⟩ } o e w c' v' l' :=
  ⟨getElem?_set_self (lt_of_getElem? h.port),
    getElem?_set_self (lt_of_getElem? h.wire), ht, hw⟩

theorem Fills.onOutput {f : Connection → PortView → Checked (Connection × PortView)}
    (hf : f c v = .ok (c', v')) : ports.onOutput o f =
      .ok { ports with wires := ports.wires.set w c', outputs := ports.outputs.set o ⟨w, v'⟩ } := by
  simp [Ports.onOutput, fetch_eq_ok h.port, fetch_eq_ok h.wire, hf]

/-- whole tokens are appended to the stream -/
theorem Fills.writeBytes {bytes : Bytes} (hlen : bytes.length = n * c.tokenSize)
    (hn : n ≤ v.available) : ∃ storage v', ports.writeBytes o bytes =
        .ok { ports with wires := ports.wires.set w { c with storage }, outputs := ports.outputs.set o ⟨w, v'⟩ } ∧
      Fills { ports with wires := ports.wires.set w { c with storage }, outputs := ports.outputs.set o ⟨w, v'⟩ } o e w
        { c with storage } v' (l.write n bytes) := by
  have hcap := le_trans hn (h.tracks.writable_le h.writes)
  obtain ⟨storage, cursor, hwrite, ht, hw⟩ := h.tracks.writeBytes_ok h.writes (hlen ▸ tokensIn_mul h.tracks hcap) hn
  rw [take_of_length_le hlen.le] at ht hw
  exact ⟨storage, _, h.onOutput hwrite, h.set ht hw⟩

/-- a value is appended to the stream -/
theorem Fills.write (hp : p.size = c.tokenSize) (hn : 0 < v.available)
    (value : p.Value) : ∃ storage v', ports.write o p value =
        .ok { ports with wires := ports.wires.set w { c with storage }, outputs := ports.outputs.set o ⟨w, v'⟩ } ∧
      Fills { ports with wires := ports.wires.set w { c with storage }, outputs := ports.outputs.set o ⟨w, v'⟩ } o e w
        { c with storage } v' (l.write 1 (p.encode value)) := by
  obtain ⟨storage, cursor, hwrite, ht, hw⟩ := h.tracks.write_ok h.writes hp hn value
  exact ⟨storage, _, h.onOutput hwrite, h.set ht hw⟩

end

end Output

variable {wires : List Connection} {ends : List (Attached α)} {views : List (Attached PortView)}

/-! ## Opening -/

section Opening

variable {view : Connection → α → Checked PortView}

theorem openAll_ok (h : ∀ e ∈ ends, ∃ c v, wires[e.wire]? = some c ∧ view c e.item = .ok v) :
    ∃ views, openAll view wires ends = .ok views := by
  refine mapM_ok fun e he => ?_
  obtain ⟨c, v, hc, hv⟩ := h e he
  exact ⟨⟨e.wire, v⟩, by rw [fetch_eq_ok hc, Checked.ok_bind, hv]; rfl⟩

theorem openAll_spec (h : openAll view wires ends = .ok views) : views.length = ends.length ∧
      ∀ {i : Nat} {e c v}, ends[i]? = some e → wires[e.wire]? = some c → view c e.item = .ok v →
        views[i]? = some ⟨e.wire, v⟩ := by
  obtain ⟨hlen, hget⟩ := mapM_spec h
  refine ⟨hlen, fun he hc hv => ?_⟩
  obtain ⟨y, hy, heq⟩ := hget he
  rw [fetch_eq_ok hc, Checked.ok_bind, hv] at heq
  cases heq
  exact hy

end Opening

/-! ## Closing -/

/-- closing touches no other connections -/
theorem closeAll_others (close : Connection → α → PortView → Connection × α) (hw : w ∉ ends.map (·.wire)) :
    (closeAll close wires ends views).1[w]? = wires[w]? := by
  fun_induction closeAll close wires ends views with
  | case1 => rfl
  | case2 wires e ends v views c hc rest ih =>
    rw [map_cons, mem_cons, not_or] at hw
    exact (ih hw.2).trans (getElem?_set_ne (Ne.symm hw.1))
  | case3 => rfl

/-- what closing leaves of connections and ends, if the ends are on different connections -/
structure Closed (close : Connection → α → PortView → Connection × α) (wires wires' : List Connection)
    (ends ends' : List (Attached α)) (views : List (Attached PortView)) : Prop where
  length : ends'.length = ends.length
  others : ∀ w, w ∉ ends.map (·.wire) → wires'[w]? = wires[w]?
  wire : ∀ {i : Nat} {e v c}, ends[i]? = some e → views[i]? = some v →
    wires[e.wire]? = some c → wires'[e.wire]? = some (close c e.item v.item).1
  item : ∀ {i : Nat} {e v c}, ends[i]? = some e → views[i]? = some v →
    wires[e.wire]? = some c → ends'[i]? = some ⟨e.wire, (close c e.item v.item).2⟩

theorem closeAll_spec (close : Connection → α → PortView → Connection × α) (hnodup : (ends.map (·.wire)).Nodup)
    (hlen : ends.length ≤ views.length) (hwires : ∀ e ∈ ends, ∃ c, wires[e.wire]? = some c) :
    Closed close wires (closeAll close wires ends views).1 ends (closeAll close wires ends views).2 views := by
  induction ends generalizing wires views with
  | nil => exact ⟨rfl, fun _ _ => rfl, fun h => by simp at h, fun h => by simp at h⟩
  | cons e ends ih =>
    obtain ⟨v, views, rfl⟩ := exists_cons_of_length_pos (lt_of_lt_of_le (Nat.succ_pos _) hlen)
    obtain ⟨hfresh, hnodup⟩ := nodup_cons.1 hnodup
    obtain ⟨c, hc⟩ := hwires e mem_cons_self
    set wires1 := wires.set e.wire (close c e.item v.item).1
    have hother : ∀ w, w ≠ e.wire → wires1[w]? = wires[w]? := fun w hw => getElem?_set_ne (Ne.symm hw)
    have hself : wires1[e.wire]? = some (close c e.item v.item).1 :=
      getElem?_set_self (lt_of_getElem? hc)
    have hne : ∀ e' ∈ ends, e'.wire ≠ e.wire := fun e' he' heq => hfresh (mem_map.2 ⟨e', he', heq⟩)
    have hrest := ih hnodup (show ends.length ≤ views.length by simpa using hlen)
      fun e' he' => show ∃ c, wires1[e'.wire]? = some c by
        rw [hother _ (hne e' he')]; exact hwires e' (mem_cons_of_mem e he')
    have heq : closeAll close wires (e :: ends) (v :: views) =
        ((closeAll close wires1 ends views).1, ⟨e.wire, (close c e.item v.item).2⟩ ::
          (closeAll close wires1 ends views).2) := by
      simp [closeAll, hc, wires1]
    rw [heq]
    refine ⟨by simp [hrest.length], fun w hw => ?_, fun {i e' v' c'} he' hv' hc' => ?_,
      fun {i e' v' c'} he' hv' hc' => ?_⟩
    · simp only [map_cons, mem_cons, not_or] at hw
      rw [hrest.others w hw.2, hother w hw.1]
    · cases i with
      | zero =>
        cases he'; cases hv'
        rw [hc] at hc'; cases hc'
        rw [hrest.others _ hfresh, hself]
      | succ i => exact hrest.wire he' hv' (by rw [hother _ (hne e' (mem_of_getElem? he'))]; exact hc')
    · cases i with
      | zero =>
        cases he'; cases hv'
        rw [hc] at hc'; cases hc'
        rfl
      | succ i => exact hrest.item he' hv' (by rw [hother _ (hne e' (mem_of_getElem? he'))]; exact hc')

end Ports

/-- closing all ports of an instance that has no two ends on one connection -/
theorem Instance.closePorts_apart {σ : Type} (inst : Instance σ) (ports : Ports)
    (hnodup : (inst.inputs.map (·.wire) ++ inst.outputs.map (·.wire)).Nodup)
    (hin : inst.inputs.length ≤ ports.inputs.length) (hout : inst.outputs.length ≤ ports.outputs.length)
    (hinWires : ∀ e ∈ inst.inputs, ∃ c, ports.wires[e.wire]? = some c)
    (houtWires : ∀ e ∈ inst.outputs, ∃ c, ports.wires[e.wire]? = some c) :
    ∃ wires ins outs, inst.closePorts ports = (wires, { inst with inputs := ins, outputs := outs }) ∧
      ins.length = inst.inputs.length ∧ outs.length = inst.outputs.length ∧
      (∀ {i : Nat} {e v c}, inst.inputs[i]? = some e →
        ports.inputs[i]? = some v → ports.wires[e.wire]? = some c →
        wires[e.wire]? = some (c.closeInput e.item v.item).1 ∧
        ins[i]? = some ⟨e.wire, (c.closeInput e.item v.item).2⟩) ∧
      ∀ {o : Nat} {e v c}, inst.outputs[o]? = some e →
        ports.outputs[o]? = some v → ports.wires[e.wire]? = some c →
        wires[e.wire]? = some (c.closeOutput e.item v.item).1 ∧
          outs[o]? = some ⟨e.wire, (c.closeOutput e.item v.item).2⟩ := by
  obtain ⟨hnin, hnout, happart⟩ := nodup_append.1 hnodup
  have h1 := Ports.closeAll_spec Connection.closeInput hnin hin hinWires
  have hkept : ∀ e ∈ inst.outputs,
      (Ports.closeAll Connection.closeInput ports.wires inst.inputs ports.inputs).1[e.wire]? = ports.wires[e.wire]? :=
    fun e he => h1.others _ fun hmem => happart _ hmem _ (mem_map_of_mem he) rfl
  have h2 := Ports.closeAll_spec Connection.closeOutput hnout hout fun e he => by
    rw [hkept e he]; exact houtWires e he
  refine ⟨_, _, _, by simp only [closePorts]; rfl, h1.length, h2.length,
    fun he hv hc => ⟨?_, h1.item he hv hc⟩, fun he hv hc => ?_⟩
  · rw [h2.others _ fun hmem => happart _ (mem_map_of_mem (mem_of_getElem? he)) _ hmem rfl]
    exact h1.wire he hv hc
  · rw [← hkept _ (mem_of_getElem? he)] at hc
    exact ⟨h2.wire he hv hc, h2.item he hv hc⟩

namespace Instance

variable {σ : Type} {inst : Instance σ} {wires : List Connection} {ports : Ports}

theorem closePorts_others {w : Nat} (hin : w ∉ inst.inputs.map (·.wire)) (hout : w ∉ inst.outputs.map (·.wire)) :
    (inst.closePorts ports).1[w]? = ports.wires[w]? := by
  simp only [closePorts]
  rw [Ports.closeAll_others _ hout, Ports.closeAll_others _ hin]

theorem openPorts_ok (hin : ∀ e ∈ inst.inputs, ∃ c, wires[e.wire]? = some c)
    (hout : ∀ e ∈ inst.outputs, ∃ c v, wires[e.wire]? = some c ∧ c.openOutput e.item = .ok v) :
    ∃ ins outs, inst.openPorts wires = .ok ⟨wires, ins, outs, #[]⟩ := by
  obtain ⟨ins, hins⟩ : ∃ ins, Ports.openAll (fun c e => .ok (c.openInput e)) wires inst.inputs = .ok ins :=
    Ports.openAll_ok fun e he => (hin e he).imp fun _ hc => ⟨_, hc, rfl⟩
  obtain ⟨outs, houts⟩ := Ports.openAll_ok hout
  exact ⟨ins, outs, by rw [openPorts, hins, Checked.ok_bind, houts]; rfl⟩

theorem openPorts_eq_ok (h : inst.openPorts wires = .ok ports) :
    Ports.openAll (fun c e => .ok (c.openInput e)) wires inst.inputs = .ok ports.inputs ∧
      Ports.openAll Connection.openOutput wires inst.outputs = .ok ports.outputs ∧
      ports.wires = wires ∧ ports.actions = #[] := by
  obtain ⟨inputs, hin, h⟩ := bind_eq_ok h
  obtain ⟨outputs, hout, h⟩ := bind_eq_ok h
  cases h
  exact ⟨hin, hout, rfl, rfl⟩

/-- all ports of an instance are open, and no action was done there -/
structure Opens (inst : Instance σ) (ports : Ports) : Prop where
  inputs : ports.inputs.length = inst.inputs.length
  outputs : ports.outputs.length = inst.outputs.length
  actions : ports.actions = #[]

section

variable (h : inst.openPorts wires = .ok ports)

include h

theorem opens_of_openPorts : inst.Opens ports := by
  obtain ⟨hin, hout, -, hactions⟩ := openPorts_eq_ok h
  exact ⟨(mapM_spec hin).1, (mapM_spec hout).1, hactions⟩

/-- open ports have left what there was when they were opened -/
theorem availability_eq_left (port : PortId) : inst.availability wires port = .ok (ports.left port) := by
  obtain ⟨hin, hout, -, -⟩ := openPorts_eq_ok h
  cases port with
  | input i =>
    obtain ⟨hlen, hget⟩ := mapM_spec hin
    cases he : inst.inputs[i]? with
    | none =>
      have hnone := getElem?_eq_none (hlen.le.trans (getElem?_eq_none_iff.1 he))
      simp [availability, Ports.left, he, hnone]
    | some e =>
      obtain ⟨v, hv, hopen⟩ := hget he
      obtain ⟨c, hc, hopen⟩ := bind_eq_ok hopen
      cases hopen
      simp [availability, Ports.left, he, hv, hc, Connection.openInput]
  | output o =>
    obtain ⟨hlen, hget⟩ := mapM_spec hout
    cases he : inst.outputs[o]? with
    | none =>
      have hnone := getElem?_eq_none (hlen.le.trans (getElem?_eq_none_iff.1 he))
      simp [availability, Ports.left, he, hnone]
    | some e =>
      obtain ⟨v, hv, hopen⟩ := hget he
      obtain ⟨c, hc, hopen⟩ := bind_eq_ok hopen
      obtain ⟨view, hview, hopen⟩ := bind_eq_ok hopen
      obtain ⟨rooms, hrooms, hview⟩ := bind_eq_ok hview
      cases hview
      cases hopen
      simp [availability, Ports.left, he, hv, hc, hrooms]

/-- nothing has moved through ports that have just been opened -/
theorem openPorts_still : (∀ v ∈ ports.inputs, v.item.moved = 0) ∧ ∀ v ∈ ports.outputs, v.item.moved = 0 := by
  obtain ⟨hins, houts, -, -⟩ := openPorts_eq_ok h
  constructor
  · intro v hv
    obtain ⟨e, -, hview⟩ := exists_of_mapM hins hv
    obtain ⟨c, -, hview⟩ := bind_eq_ok hview
    cases hview
    exact Nat.sub_self _
  · intro v hv
    obtain ⟨e, -, hview⟩ := exists_of_mapM houts hv
    obtain ⟨c, -, hview⟩ := bind_eq_ok hview
    obtain ⟨view, hopened, hview⟩ := bind_eq_ok hview
    obtain ⟨rooms, -, hopened⟩ := bind_eq_ok hopened
    cases hopened
    cases hview
    exact Nat.sub_self _

/-- with ports that can be opened there is an answer to whether the instance is blocked -/
theorem stillBlocked_of_openPorts : ∃ answer, inst.stillBlocked wires = .ok answer := by
  have hlist : ∀ list, ∃ answer, inst.unchanged wires list = .ok answer := by
    intro list
    induction list with
    | nil => exact ⟨true, rfl⟩
    | cons first rest ih =>
      simp only [unchanged, availability_eq_left h, Checked.ok_bind]
      split
      · exact ih
      · exact ⟨false, rfl⟩
  unfold stillBlocked
  split
  · exact hlist _
  · exact ⟨false, rfl⟩

end

/-! ## Attempts -/

variable [Behaviour σ]

/-- how an attempt without a fault goes: the instance has terminated, waits on, or is called -/
inductive Tries (inst : Instance σ) (wires : List Connection) (maxLoops : Nat) :
    List Connection → Instance σ → Attempt → Prop where
  | ended (hterm : inst.terminated = true) : Tries inst wires maxLoops wires inst .skipped
  | waits (hterm : inst.terminated = false) (hblocked : inst.stillBlocked wires = .ok true) :
    Tries inst wires maxLoops wires { inst with stats :=
      { inst.stats with skipped := inst.stats.skipped + 1 } } .skipped
  | calls {ports : Ports} {turn : Turn σ} {exit : Exit} (hterm : inst.terminated = false)
    (hfree : inst.stillBlocked wires = .ok false) (hopen : inst.openPorts wires = .ok ports)
    (hturn : turn = Behaviour.act maxLoops inst.actor ports) (hexit : turn.exit = .ok exit) :
    Tries inst wires maxLoops ({ inst with actor := turn.actor }.closePorts turn.ports).1
      (({ inst with actor := turn.actor }.closePorts turn.ports).2.book exit
        (waitList turn.ports exit) turn.ports.firing) (.ran exit turn.ports.firing)

theorem tries_of_attempt {maxLoops : Nat} {wires' : List Connection} {inst' : Instance σ} {answer : Attempt}
    (h : inst.attempt wires maxLoops = (wires', inst', .ok answer)) :
    inst.Tries wires maxLoops wires' inst' answer := by
  unfold attempt at h
  split at h
  · next hterm =>
    cases h
    exact .ended hterm
  next hactive =>
  have hterm := Bool.eq_false_iff.2 hactive
  split at h
  · cases h
  · next hblocked =>
    cases h
    exact .waits hterm hblocked
  next hfree =>
  split at h
  · cases h
  next ports hopen =>
  unfold settle at h
  dsimp only at h
  split at h
  · cases h
  next exit hexit =>
  cases h
  exact .calls hterm hfree hopen rfl hexit

end Instance

end Dataflow
