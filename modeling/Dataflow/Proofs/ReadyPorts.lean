import Dataflow.Proofs.OpenPorts

/-!
Open ports that can be used up to what they announce (`Ports.Ready`), and stay so whatever is read or written.
-/

namespace Dataflow

open List

namespace Connection

variable {c : Connection} {v : PortView} {n : Nat} {bytes : Bytes}

theorem Carries.readBytes (h : c.Carries v) (hn : n ≤ v.available) :
    ∃ bytes cursor, c.readBytes v (n * c.tokenSize) = .ok (bytes, { v with cursor, available := v.available - n }) ∧
      bytes.length = n * c.tokenSize ∧ c.Carries { v with cursor, available := v.available - n } := by
  obtain ⟨t, hat⟩ := h.cursor
  obtain ⟨cursor, -, hparts, hskip, h'⟩ := h.next hat hn
  obtain ⟨bytes, hread, hlen⟩ := Block.readRuns_stretch (t := t) h.geometry.slots h.storage (hn.trans h.available)
  refine ⟨bytes, cursor, ?_, hlen, h'⟩
  simp [Connection.readBytes, h.tokensIn hn, hparts, hread, hskip]

theorem Carries.writeBytes (h : c.Carries v) (hlen : bytes.length = n * c.tokenSize) (hn : n ≤ v.available) :
    ∃ storage cursor, c.writeBytes v bytes = .ok ({ c with storage }, { v with cursor, available := v.available - n }) ∧
      storage.size = c.storage.size ∧ c.Carries { v with cursor, available := v.available - n } := by
  obtain ⟨t, hat⟩ := h.cursor
  obtain ⟨cursor, -, hparts, hskip, h'⟩ := h.next hat hn
  have hwrite := Block.writeRuns_stretch (t := t) h.geometry.slots h.storage (hn.trans h.available) bytes
  refine ⟨c.storage.storeRuns (stretch t n c.capacity c.tokenSize) bytes, cursor, ?_, Block.storeRuns_size _ _ _, h'⟩
  simp [Connection.writeBytes, hlen, h.tokensIn hn, hparts, hwrite, hskip]

/-- a request that is answered asks for what the view announces at most -/
theorem le_available_of_nextParts {parts : Interval × Interval}
    (h : c.nextParts v n = .ok parts) : n ≤ v.available := by
  by_contra hmore
  rw [nextParts_fault (not_le.1 hmore)] at h
  cases h

theorem Carries.of_readBytes {length : Nat} {w : PortView} (h : c.Carries v)
    (hread : c.readBytes v length = .ok (bytes, w)) : c.Carries w := by
  obtain ⟨parts, hparts, hread⟩ := bind_eq_ok hread
  obtain ⟨read, -, hread⟩ := bind_eq_ok hread
  obtain ⟨w', hskip, hread⟩ := bind_eq_ok hread
  cases hread
  obtain ⟨t, hat⟩ := h.cursor
  obtain ⟨cursor, -, -, hskip', hcarries⟩ := h.next hat (le_available_of_nextParts hparts)
  cases hskip.symm.trans hskip'
  exact hcarries

/-- what is written changes the contents of the ring alone -/
theorem of_writeBytes {c' : Connection} {w : PortView} (hwrite : c.writeBytes v bytes = .ok (c', w)) :
    (∃ storage, c' = { c with storage } ∧ storage.size = c.storage.size) ∧ (c.Carries v → c.Carries w) := by
  obtain ⟨parts, hparts, hwrite⟩ := bind_eq_ok hwrite
  obtain ⟨storage, hstorage, hwrite⟩ := bind_eq_ok hwrite
  obtain ⟨w', hskip, hwrite⟩ := bind_eq_ok hwrite
  cases hwrite
  refine ⟨⟨storage, rfl, ?_⟩, fun h => ?_⟩
  · obtain ⟨first, hfirst, hsecond⟩ := bind_eq_ok hstorage
    unfold Block.write at hfirst hsecond
    split at hfirst <;> cases hfirst
    split at hsecond <;> cases hsecond
    rw [Block.store_size, Block.store_size]
  · obtain ⟨t, hat⟩ := h.cursor
    obtain ⟨cursor, -, -, hskip', hcarries⟩ := h.next hat (le_available_of_nextParts hparts)
    cases hskip.symm.trans hskip'
    exact hcarries

end Connection

namespace Ports

/-- every one of these views is carried by its connection, and has tokens of the size given for it -/
def Carried (wires : List Connection) (views : List (Attached PortView)) (sizes : List Nat) : Prop :=
  ∀ ⦃i size : Nat⦄, sizes[i]? = some size →
    ∃ v c, views[i]? = some v ∧ wires[v.wire]? = some c ∧ c.tokenSize = size ∧ c.Carries v.item

section Carried

variable {wires : List Connection} {views : List (Attached PortView)} {sizes : List Nat} {i size w : Nat}

theorem Carried.set (h : Carried wires views sizes) {v : Attached PortView} {c : Connection} {item : PortView}
    (hv : views[i]? = some v) (hc : wires[v.wire]? = some c) (hitem : c.Carries v.item → c.Carries item) :
    Carried wires (views.set i { v with item }) sizes := by
  intro j size hsize
  obtain ⟨v', c', hv', hc', hsize', hcarries⟩ := h hsize
  by_cases hj : i = j
  · subst hj
    rw [hv] at hv'
    cases hv'
    rw [hc] at hc'
    cases hc'
    exact ⟨_, c, getElem?_set_self (lt_of_getElem? hv), hc, hsize', hitem hcarries⟩
  · exact ⟨v', c', by rw [getElem?_set_ne hj]; exact hv', hc', hsize', hcarries⟩

theorem Carried.restore (h : Carried wires views sizes) {c : Connection} {storage : Block} (hc : wires[w]? = some c)
    (hsize : storage.size = c.storage.size) : Carried (wires.set w { c with storage }) views sizes := by
  intro j size hj
  obtain ⟨v', c', hv', hc', hsize', hcarries⟩ := h hj
  by_cases hw : w = v'.wire
  · subst hw
    rw [hc] at hc'
    cases hc'
    exact ⟨v', _, hv', getElem?_set_self (lt_of_getElem? hc), hsize', hcarries.restore hsize⟩
  · exact ⟨v', c', hv', by rw [getElem?_set_ne hw]; exact hc', hsize', hcarries⟩

end Carried

/-- all ports can be used, and have tokens of the given sizes -/
structure Ready (p : Ports) (ins outs : List Nat) : Prop where
  inputs : Carried p.wires p.inputs ins
  outputs : Carried p.wires p.outputs outs

variable {p q : Ports} {ins outs : List Nat} {i o size n level : Nat} {bytes : Bytes}

theorem Ready.availableIn (h : p.Ready ins outs) (hi : ins[i]? = some size) : ∃ level, p.availableIn i = .ok level := by
  obtain ⟨v, -, hv, -⟩ := h.inputs hi
  exact ⟨_, by rw [Ports.availableIn, fetch_eq_ok hv]; rfl⟩

theorem Ready.availableOut (h : p.Ready ins outs) (ho : outs[o]? = some size) :
    ∃ level, p.availableOut o = .ok level := by
  obtain ⟨v, -, hv, -⟩ := h.outputs ho
  exact ⟨_, by rw [Ports.availableOut, fetch_eq_ok hv]; rfl⟩

theorem Ready.readBytes (h : p.Ready ins outs) (hi : ins[i]? = some size) (hlevel : p.availableIn i = .ok level)
    (hn : n ≤ level) :
    ∃ bytes p', p.readBytes i (n * size) = .ok (bytes, p') ∧ bytes.length = n * size ∧ p'.Ready ins outs := by
  obtain ⟨v, c, hv, hc, rfl, hcarries⟩ := h.inputs hi
  rw [Ports.availableIn, fetch_eq_ok hv] at hlevel
  cases hlevel
  obtain ⟨bytes, cursor, hread, hlen, hcarries'⟩ := hcarries.readBytes hn
  have hready : Ready
    { p with inputs := p.inputs.set i { v with item := { v.item with cursor, available := v.item.available - n } } }
      ins outs := ⟨h.inputs.set hv hc fun _ => hcarries', h.outputs⟩
  refine ⟨bytes, _, ?_, hlen, hready⟩
  simp [readBytes, onInput, fetch_eq_ok hv, fetch_eq_ok hc, hread]

/-- what is read from one port does not count at another -/
theorem availableIn_of_readBytes {j : Nat} (hread : p.readBytes i n = .ok (bytes, q)) (hj : j ≠ i) :
    q.availableIn j = p.availableIn j := by
  obtain ⟨v, -, hread⟩ := bind_eq_ok hread
  obtain ⟨c, -, hread⟩ := bind_eq_ok hread
  obtain ⟨⟨read, item⟩, -, hread⟩ := bind_eq_ok hread
  cases hread
  rw [availableIn, availableIn, fetch, fetch, getElem?_set_ne (Ne.symm hj)]

section

variable (h : p.Ready ins outs)

include h

/-- what is written is counted down at its port, and at no other -/
theorem Ready.writeBytes (ho : outs[o]? = some size) (hlevel : p.availableOut o = .ok level)
    (hlen : bytes.length = n * size) (hn : n ≤ level) : ∃ p', p.writeBytes o bytes = .ok p' ∧ p'.Ready ins outs ∧
      p'.availableOut o = .ok (level - n) ∧ ∀ o', o' ≠ o → p'.availableOut o' = p.availableOut o' := by
  obtain ⟨v, c, hv, hc, rfl, hcarries⟩ := h.outputs ho
  rw [Ports.availableOut, fetch_eq_ok hv] at hlevel
  cases hlevel
  obtain ⟨storage, cursor, hwrite, hsize, hcarries'⟩ := hcarries.writeBytes hlen hn
  have hready : Ready
      { p with
        wires := p.wires.set v.wire { c with storage }
        outputs :=
        p.outputs.set o { v with item := { v.item with cursor, available := v.item.available - n } } } ins outs :=
    ⟨h.inputs.restore hc hsize, (h.outputs.set hv hc fun _ => hcarries').restore hc hsize⟩
  refine ⟨_, ?_, hready, ?_, fun o' hne => ?_⟩
  · simp [writeBytes, onOutput, fetch_eq_ok hv, fetch_eq_ok hc, hwrite]
  · rw [Ports.availableOut, fetch_eq_ok (getElem?_set_self (lt_of_getElem? hv))]
    rfl
  · rw [Ports.availableOut, Ports.availableOut, fetch, fetch, getElem?_set_ne (Ne.symm hne)]

theorem Ready.of_readBytes (hread : p.readBytes i n = .ok (bytes, q)) : q.Ready ins outs := by
  obtain ⟨v, hv, hread⟩ := bind_eq_ok hread
  obtain ⟨c, hc, hread⟩ := bind_eq_ok hread
  obtain ⟨⟨read, item⟩, hitem, hread⟩ := bind_eq_ok hread
  cases hread
  exact ⟨h.inputs.set (fetch_eq_some hv) (fetch_eq_some hc) fun hcarries => hcarries.of_readBytes hitem, h.outputs⟩

theorem Ready.of_writeBytes (hwrite : p.writeBytes o bytes = .ok q) : q.Ready ins outs := by
  obtain ⟨v, hv, hwrite⟩ := bind_eq_ok hwrite
  obtain ⟨c, hc, hwrite⟩ := bind_eq_ok hwrite
  obtain ⟨⟨c', item⟩, hitem, hwrite⟩ := bind_eq_ok hwrite
  cases hwrite
  obtain ⟨⟨storage, rfl, hsize⟩, hcarries⟩ := Connection.of_writeBytes hitem
  exact ⟨h.inputs.restore (fetch_eq_some hc) hsize,
    (h.outputs.set (fetch_eq_some hv) (fetch_eq_some hc) hcarries).restore (fetch_eq_some hc) hsize⟩

theorem Ready.fire (action : Nat) : (p.fire action).Ready ins outs := ⟨h.inputs, h.outputs⟩

end

end Ports

end Dataflow
