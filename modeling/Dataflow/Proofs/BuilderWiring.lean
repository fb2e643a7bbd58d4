import Mathlib.Order.Bounds.Basic
import Dataflow.Proofs.FanOut
import Dataflow.Proofs.Wiring

/-!
What a sequence of calls on an empty builder wires (`Builder.after`), failing calls included.

- `Builder.wiring_is_exact`: building fails for want of a connection exactly if a declared port is meant by no accepted
  request (`Loose`), and succeeds otherwise. In a network that is built (`Exact`) every request has its own reader's
  end, numbered in the order of the requests for its output, at the input it means, of the connection that its output
  writes to; the sizes of tokens agree, no two ports share an end, and each connection has the least power of two that
  suffices for all its requests.
- Witness `Builder.wiring_is_exact_splitting`.

Premises: token sizes that are not zero, depths up to 2 ^ 31, and storage that can be had (`Allocatable`).
-/

namespace Dataflow

open List

/-! ## Calls -/

/-- a connection asked for, by names -/
structure Request where
  source : String
  sourcePort : String
  target : String
  targetPort : String
  /-- tokens asked for -/
  depth : Option Nat
deriving DecidableEq, Repr

inductive BuilderCall (σ : Type) where
  | add (name : String) (actor : σ) (affinity : Option String)
  | connect (request : Request)

namespace Builder

variable {σ : Type} [Behaviour σ] {b b' : Builder σ} {r : Request} {accepted : List Request} {link : Link} {p : PortRef}
  {inst port : String} {size : Nat} {ports : Interface → List PortSpec}

/-- one call on a builder and the requests it has accepted; a call that fails leaves both as they were -/
def call (s : Builder σ × List Request) : BuilderCall σ → Builder σ × List Request
  | .add name actor affinity =>
    match s.1.add name actor affinity with
    | .ok (_, b) => (b, s.2)
    | .error _ => s
  | .connect r =>
    match s.1.connect r.source r.sourcePort r.target r.targetPort r.depth with
    | .ok b => (b, s.2 ++ [r])
    | .error _ => s

/-- the builder after some calls, and the requests that were accepted, in order -/
def after (defaultDepth : Nat) (calls : List (BuilderCall σ)) : Builder σ × List Request :=
  calls.foldl call ({ defaultDepth }, [])

/-! ## Names -/

/-- the first port of a name at the instance of a name; `index` looks among the inputs or the outputs -/
def portNamed? (b : Builder σ) (index : Interface → String → Option Nat) (inst port : String) : Option PortRef :=
  (b.instances.findIdx? (·.name == inst)).bind fun i =>
    b.instances[i]?.bind fun d => (index (Behaviour.interface d.actor) port).map fun k => ⟨i, k⟩

def sourceOf? (b : Builder σ) (r : Request) : Option PortRef :=
  b.portNamed? Interface.outputIndex? r.source r.sourcePort

def targetOf? (b : Builder σ) (r : Request) : Option PortRef := b.portNamed? Interface.inputIndex? r.target r.targetPort

/-- bytes of one token at a declared port -/
def tokenSizeAt? (b : Builder σ) (ports : Interface → List PortSpec) (p : PortRef) : Option Nat :=
  b.instances[p.inst]?.bind fun d => (ports (Behaviour.interface d.actor))[p.port]?.map (·.tokenSize)

/-- the link that a request makes: between the ports it means, which agree on the size of tokens -/
structure Resolves (b : Builder σ) (r : Request) (link : Link) : Prop where
  source : b.sourceOf? r = some link.source
  target : b.targetOf? r = some link.target
  depth : link.depth = r.depth
  sizes : ∃ size, b.tokenSizeAt? Interface.outputs link.source = some size ∧
    b.tokenSizeAt? Interface.inputs link.target = some size

/-- a connection that is accepted is a link between the ports it means -/
theorem connect_resolves (h : b.connect r.source r.sourcePort r.target r.targetPort r.depth = .ok b') :
    ∃ link, b.Resolves r link ∧ b' = { b with links := b.links ++ [link] } := by
  obtain ⟨link, spec, spec', ⟨d, hinst, hd, hport, hspec⟩, ⟨d', hinst', hd', hport', hspec'⟩, hsize, -, hdepth, rfl⟩ :=
    connect_eq_ok h
  refine ⟨link, ⟨?_, ?_, hdepth, spec.tokenSize, ?_, ?_⟩, rfl⟩
  · simp [sourceOf?, portNamed?, Interface.outputIndex?, hinst, hd, hport]
  · simp [targetOf?, portNamed?, Interface.inputIndex?, hinst', hd', hport']
  · simp [tokenSizeAt?, hd, hspec]
  · simp [tokenSizeAt?, hd', hspec', hsize]

theorem portNamed?_append {index : Interface → String → Option Nat} (more : List (Declared σ))
    (h : b.portNamed? index inst port = some p) :
    ({ b with instances := b.instances ++ more } : Builder σ).portNamed? index inst port = some p := by
  simp only [portNamed?, Option.bind_eq_some_iff] at h ⊢
  obtain ⟨i, hi, d, hd, hp⟩ := h
  exact ⟨i, by simp [findIdx?_append, hi], d, getElem?_append_some hd, hp⟩

theorem tokenSizeAt?_append (more : List (Declared σ)) (h : b.tokenSizeAt? ports p = some size) :
    ({ b with instances := b.instances ++ more } : Builder σ).tokenSizeAt? ports p = some size := by
  simp only [tokenSizeAt?, Option.bind_eq_some_iff] at h ⊢
  obtain ⟨d, hd, hp⟩ := h
  exact ⟨d, getElem?_append_some hd, hp⟩

theorem mem_of_tokenSizeAt? (h : b.tokenSizeAt? ports p = some size) :
    ∃ d ∈ b.instances, ∃ port ∈ ports (Behaviour.interface d.actor), port.tokenSize = size := by
  simp only [tokenSizeAt?, Option.bind_eq_some_iff, Option.map_eq_some_iff] at h
  obtain ⟨d, hd, port, hport, rfl⟩ := h
  exact ⟨d, mem_of_getElem? hd, port, mem_of_getElem? hport, rfl⟩

theorem Resolves.append (h : b.Resolves r link) (more : List (Declared σ)) :
    ({ b with instances := b.instances ++ more } : Builder σ).Resolves r link := by
  obtain ⟨size, hout, hin⟩ := h.sizes
  exact ⟨portNamed?_append more h.source, portNamed?_append more h.target, h.depth, size, tokenSizeAt?_append more hout,
    tokenSizeAt?_append more hin⟩

/-- the links of a builder are those of the requests it has accepted, in order -/
structure Records (b : Builder σ) (accepted : List Request) : Prop where
  made : b.Made
  links : List.Forall₂ b.Resolves accepted b.links

theorem Records.call {s : Builder σ × List Request} (h : s.1.Records s.2) (c : BuilderCall σ) :
    (call s c).1.Records (call s c).2 := by
  obtain ⟨b, accepted⟩ := s
  cases c with
  | add name actor affinity =>
    cases hadd : b.add name actor affinity with
    | error e => simpa only [Builder.call, hadd] using h
    | ok answer =>
      simp only [Builder.call, hadd]
      refine ⟨h.made.add hadd, ?_⟩
      unfold add at hadd
      split at hadd
      · cases hadd
      · cases hadd
        exact h.links.imp fun _ _ hlink => hlink.append _
  | connect r =>
    cases hconnect : b.connect r.source r.sourcePort r.target r.targetPort r.depth with
    | error e => simpa only [Builder.call, hconnect] using h
    | ok b' =>
      simp only [Builder.call, hconnect]
      refine ⟨h.made.connect hconnect, ?_⟩
      obtain ⟨link, hlink, rfl⟩ := connect_resolves hconnect
      have hsame : ∀ {r' link'}, b.Resolves r' link' →
        ({ b with links := b.links ++ [link] } : Builder σ).Resolves r' link' :=
        fun h => ⟨h.source, h.target, h.depth, h.sizes⟩
      exact rel_append (h.links.imp fun _ _ h => hsame h) (.cons (hsame hlink) .nil)

theorem records_after (defaultDepth : Nat) (calls : List (BuilderCall σ)) :
    (after defaultDepth calls).1.Records (after defaultDepth calls).2 := by
  exact foldlRecOn (motive := fun s : Builder σ × List Request => s.1.Records s.2) calls call
    ⟨.empty defaultDepth, .nil⟩ fun _ h c _ => h.call c

/-! ## Depths -/

end Builder

/-- the least power of two that is at least every depth -/
def IsDepth (depths : List Nat) (c : Nat) : Prop := IsLeast {n | (∃ k, n = 2 ^ k) ∧ ∀ d ∈ depths, d ≤ n} c

theorem Word.powerOfTwo_isLeast (a : Nat) : IsLeast {n | (∃ k, n = 2 ^ k) ∧ a ≤ n} (Word.powerOfTwo a) := by
  unfold Word.powerOfTwo
  split
  · next h => exact ⟨⟨⟨0, rfl⟩, h⟩, fun n ⟨⟨k, hk⟩, _⟩ => hk ▸ Nat.one_le_two_pow⟩
  · next h =>
    have hne : a - 1 ≠ 0 := by omega
    refine ⟨⟨⟨_, rfl⟩, ?_⟩, ?_⟩
    · have : a - 1 < 2 ^ ((a - 1).log2 + 1) := Nat.lt_log2_self
      change a ≤ 2 ^ _
      omega
    · rintro n ⟨⟨k, rfl⟩, hle⟩
      have hlt : 2 ^ (a - 1).log2 < 2 ^ k := lt_of_le_of_lt (Nat.log2_self_le hne) (by omega)
      exact Nat.pow_le_pow_right (by norm_num) ((Nat.pow_lt_pow_iff_right (by norm_num)).1 hlt)

theorem isDepth_powerOfTwo (depths : List Nat) : IsDepth depths (Word.powerOfTwo (depths.foldl max 1)) := by
  obtain ⟨⟨hpow, hle⟩, hleast⟩ := Word.powerOfTwo_isLeast (depths.foldl max 1)
  refine ⟨⟨hpow, fun d hd => (le_foldl_max (.inr hd)).trans hle⟩, ?_⟩
  rintro n ⟨⟨k, rfl⟩, hall⟩
  exact hleast ⟨⟨k, rfl⟩, foldl_max_le Nat.one_le_two_pow hall⟩

theorem IsDepth.le_two_pow {depths : List Nat} {c k : Nat} (h : IsDepth depths c) (hall : ∀ d ∈ depths, d ≤ 2 ^ k) :
    c ≤ 2 ^ k :=
  h.2 ⟨⟨k, rfl⟩, hall⟩

namespace Builder

variable {σ : Type} {b : Builder σ} {links : List Link} {source : PortRef} {tokenSize c : Nat} {wire : Wire}

def depths (b : Builder σ) (links : List Link) : List Nat := links.map fun link => link.depth.getD b.defaultDepth

theorem depthOf_eq_ok (hc : IsDepth (b.depths links) c) (hword : c ≤ 2 ^ 63) : b.depthOf links = .ok c := by
  have heq : Word.powerOfTwo ((b.depths links).foldl max 1) = c := (isDepth_powerOfTwo _).unique hc
  have hlt : c < Word.size64 := lt_of_le_of_lt hword (by norm_num [Word.size64])
  simp only [depths] at heq
  simp [depthOf, heq, hlt]

theorem isDepth_of_depthOf (h : b.depthOf links = .ok c) : IsDepth (b.depths links) c := by
  simp only [depthOf] at h
  split at h
  · cases h
    exact isDepth_powerOfTwo _
  · cases h

/-! ## One connection -/

theorem takeInputs_eq (c : Connection) (r : Nat) (links : List Link) :
    takeInputs c r links = Exchange.takeReaders c r links.length := by
  induction links generalizing c r with
  | nil => rfl
  | cons link links ih => simp [takeInputs, Exchange.takeReaders, ih]

/-- an output with links gets its connection if there is storage for it -/
theorem wire_ok (source : PortRef) (hsize : 0 < tokenSize) (hlinks : links ≠ []) (hc : IsDepth (b.depths links) c)
    (hall : ∀ d ∈ b.depths links, d ≤ 2 ^ 31) (hlimit : Region.grants (c * tokenSize))
    (hreaders : links.length * Region.readerBytes ≤ Word.signedMax64) :
    ∃ wire, b.wire source tokenSize links = .ok wire := by
  obtain ⟨⟨k, rfl⟩, -⟩ := hc.1
  have hlarge : 2 ^ k ≤ Region.largestCapacity := hc.le_two_pow hall
  have hstorage := Region.forTokens_eq_ok_iff.2
    ⟨⟨hsize, length_pos_iff.2 hlinks, Nat.one_le_two_pow, isPowerOfTwo_two_pow k, hlarge, hlimit, hreaders⟩, rfl⟩
  obtain ⟨conn, hcreate⟩ : ∃ conn, Connection.create tokenSize (2 ^ k) links.length = .ok conn :=
    ⟨_, by simp only [Connection.create, hstorage, bind, Except.bind, pure, Except.pure]; rfl⟩
  obtain ⟨-, -, hout, hins, -⟩ := Connection.create_eq_ok hcreate
  obtain ⟨taken, htaken⟩ := Exchange.takeReaders_ok { conn with outputTaken := true } links.length
    [] (by simpa using hins)
  obtain ⟨⟨inputs, conn'⟩, htake⟩ : ∃ answer, takeInputs { conn with outputTaken := true } 0 links = .ok answer :=
    ⟨_, (takeInputs_eq _ _ _).trans htaken⟩
  have hlift : (liftM (Except.ok (2 ^ k) : Checked Nat) : Except (Stop NetworkError) Nat) = .ok (2 ^ k) := rfl
  refine ⟨⟨conn', ⟨Cursor.start conn.capacity, 0⟩, inputs, source, links.map (·.target)⟩, ?_⟩
  simp [wire, depthOf_eq_ok hc (hlarge.trans (by decide)), hlift, hcreate, Connection.takeOutput, hout,
    channelError, htake, bind, Except.bind, Except.mapError, pure, Except.pure]

/-! ## All connections -/

section Connections

variable [Behaviour σ] {ws : List Wire} {r : Request} {p : PortRef} {link : Link}

/-- a connection is made of all links of its output -/
theorem wire_of_mem (h : b.wires = .ok ws) (hwire : wire ∈ ws) :
    ∃ size, b.wire wire.source size (b.links.filter (·.source = wire.source)) = .ok wire := by
  obtain ⟨⟨source, size, links⟩, hx, hok⟩ := exists_of_mapM h hwire
  obtain ⟨p, -, hlinks⟩ := mem_filterMap.1 hx
  simp only [Option.ite_none_left_eq_some, Option.some.injEq, Prod.mk.injEq] at hlinks
  obtain ⟨-, rfl, -, rfl⟩ := hlinks
  obtain ⟨hsource, -⟩ := wire_eq_ok hok
  rw [hsource]
  exact ⟨size, hok⟩

theorem wires_ok (h : ∀ {source size}, (source, size) ∈ b.outputsOf →
    b.links.filter (·.source = source) ≠ [] → ∃ wire,
    b.wire source size (b.links.filter (·.source = source)) = .ok wire) : ∃ ws, b.wires = .ok ws := by
  refine mapM_ok fun x hx => ?_
  obtain ⟨p, hp, hlinks⟩ := mem_filterMap.1 hx
  simp only [Option.ite_none_left_eq_some, Option.some.injEq, List.isEmpty_iff] at hlinks
  obtain ⟨hne, rfl⟩ := hlinks
  exact h hp hne

theorem outputEnd?_of_link (hj : b.Joins ws) (hlink : link ∈ b.links) : outputEnd? ws link.source ≠ none := by
  obtain ⟨wire, hwire, hsource⟩ := hj.complete link hlink
  obtain ⟨w, wire', hw, hwire', -⟩ := findIdx?_of_mem (q := (·.source = link.source)) hwire (by simpa using hsource)
  simp [outputEnd?, hw, hwire']

theorem inputEnd?_of_link (h : b.wires = .ok ws) (hj : b.Joins ws) (hlink : link ∈ b.links) :
    inputEnd? ws link.target ≠ none := by
  obtain ⟨wire, hwire, hsource⟩ := hj.complete link hlink
  have htarget : link.target ∈ wire.targets := by
    rw [hj.targets wire hwire, hsource]
    exact mem_map_of_mem (mem_filter.2 ⟨hlink, by simp⟩)
  obtain ⟨w, wire', hw, hwire', htarget'⟩ :=
    findIdx?_of_mem (q := (·.targets.contains link.target)) hwire (by simpa using htarget)
  obtain ⟨r, q, hr, hq, -⟩ := findIdx?_of_mem (q := (· = link.target)) (by simpa using htarget') (by simp)
  -- there are as many ends as targets
  obtain ⟨size, hok⟩ := wire_of_mem h (mem_of_getElem? hwire')
  obtain ⟨-, htargets, -, -, -, -, hlen, -⟩ := wire_spec hok
  have hlt : r < wire'.inputs.length := by
    rw [hlen, ← length_map, ← htargets]
    exact lt_of_getElem? hq
  simp only [inputEnd?, hw, hwire', hr, getElem?_eq_getElem hlt, Option.bind_eq_bind, Option.bind_some, Option.pure_def,
    ne_eq, reduceCtorEq, not_false_eq_true]

end Connections

/-! ## Errors of a build -/

/-- ends are wanting only for a port that has none -/
theorem endsOf_eq_error {α : Type} {find : Nat → Option α} {fail : String → NetworkError} {k : Nat}
    {specs : List PortSpec} {e : NetworkError} (h : endsOf find fail k specs = .error e) :
    ∃ j port, specs[j]? = some port ∧ find (k + j) = none ∧ e = fail port.name := by
  induction specs generalizing k with
  | nil => cases h
  | cons port rest ih =>
    unfold endsOf at h
    split at h
    · next hnone =>
      cases h
      exact ⟨0, port, rfl, hnone, rfl⟩
    · rcases bind_eq_error h with hrest | ⟨_, -, hpure⟩
      · obtain ⟨j, port', hport', hnone, he⟩ := ih hrest
        exact ⟨j + 1, port', hport', by rw [← hnone]; congr 1; omega, he⟩
      · cases hpure

section Build

variable [Behaviour σ] {ws : List Wire} {mapping : Option Mapping} {p : PortRef}

theorem instantiate_eq_error {id : Nat} {d : Declared σ} {e : NetworkError} (h : instantiate ws id d = .error e) :
    ∃ port side, e = .unconnected d.name port side ∧
      ((∃ k < (Behaviour.interface d.actor).inputs.length, inputEnd? ws ⟨id, k⟩ = none) ∨
        ∃ k < (Behaviour.interface d.actor).outputs.length, outputEnd? ws ⟨id, k⟩ = none) := by
  rcases bind_eq_error h with hin | ⟨inputs, -, h1⟩
  · obtain ⟨k, port, hport, hnone, rfl⟩ := endsOf_eq_error hin
    rw [Nat.zero_add] at hnone
    exact ⟨_, _, rfl, .inl ⟨k, lt_of_getElem? hport, hnone⟩⟩
  rcases bind_eq_error h1 with hout | ⟨outputs, -, hpure⟩
  · obtain ⟨k, port, hport, hnone, rfl⟩ := endsOf_eq_error hout
    rw [Nat.zero_add] at hnone
    exact ⟨_, _, rfl, .inr ⟨k, lt_of_getElem? hport, hnone⟩⟩
  · cases hpure

/-- once all connections are made, a build fails only for a port without an end -/
theorem build_eq_error (hws : b.wires = .ok ws) {stop : Stop NetworkError} (h : b.build mapping = .error stop) :
    (∃ inst port side, stop = .error (.unconnected inst port side)) ∧
      ((∃ p, b.HasInput p ∧ inputEnd? ws p = none) ∨ ∃ p, b.HasOutput p ∧ outputEnd? ws p = none) := by
  rcases bind_eq_error h with hwires | ⟨ws', hws', h1⟩
  · rw [hws] at hwires
    cases hwires
  rw [hws] at hws'
  cases hws'
  rcases bind_eq_error h1 with hplaced | ⟨placed, -, hpure⟩
  · obtain ⟨e, he, rfl⟩ := mapError_eq_error hplaced
    obtain ⟨⟨d, id⟩, hd, hinst⟩ := exists_of_mapM_error he
    rw [mem_zipIdx_iff_getElem?] at hd
    obtain ⟨port, side, rfl, hnone⟩ := instantiate_eq_error hinst
    refine ⟨⟨_, _, _, rfl⟩, hnone.imp ?_ ?_⟩
    · rintro ⟨k, hk, hnone⟩
      exact ⟨⟨id, k⟩, ⟨d, hd, hk⟩, hnone⟩
    · rintro ⟨k, hk, hnone⟩
      exact ⟨⟨id, k⟩, ⟨d, hd, hk⟩, hnone⟩
  · cases hpure

end Build

/-! ## Networks -/

section Exact

variable [Behaviour σ]

/-- the accepted requests that mean an output, in order -/
def fan (b : Builder σ) (accepted : List Request) (p : PortRef) : List Request :=
  accepted.filter fun r => b.sourceOf? r = some p

def fanDepths (b : Builder σ) (accepted : List Request) (p : PortRef) : List Nat :=
  (b.fan accepted p).map fun r => r.depth.getD b.defaultDepth

/-- some declared port is meant by no accepted request -/
def Loose (b : Builder σ) (accepted : List Request) : Prop :=
  (∃ p, b.HasInput p ∧ ∀ r ∈ accepted, b.targetOf? r ≠ some p) ∨ ∃ p, b.HasOutput p ∧
    ∀ r ∈ accepted, b.sourceOf? r ≠ some p

end Exact

end Builder

namespace Network

variable {σ : Type}

def HoldsOutput (n : Network σ) (p : PortRef) (e : Attached OutputEnd) : Prop :=
  ∃ inst ∈ n.instances, inst.id = p.inst ∧ inst.outputs[p.port]? = some e

def HoldsInput (n : Network σ) (p : PortRef) (e : Attached InputEnd) : Prop :=
  ∃ inst ∈ n.instances, inst.id = p.inst ∧ inst.inputs[p.port]? = some e

end Network

namespace Builder

variable {σ : Type} [Behaviour σ] {b : Builder σ} {accepted : List Request} {ws : List Wire} {n : Network σ}
  {p q : PortRef} {r : Request} {mapping : Option Mapping}

/-- a network that is wired just as its builder was asked to -/
structure Exact (b : Builder σ) (accepted : List Request) (n : Network σ) : Prop where
  /-- every declared instance stands in the network once -/
  ids : (n.instances.map (·.id)).Perm (List.range b.instances.length)
  /-- with an end for each of its ports -/
  declared : ∀ inst ∈ n.instances, ∃ d, b.instances[inst.id]? = some d ∧ inst.name = d.name ∧ inst.actor = d.actor ∧
    inst.inputs.length = (Behaviour.interface d.actor).inputs.length ∧
    inst.outputs.length = (Behaviour.interface d.actor).outputs.length
  /-- every accepted request is one for an output, and every declared port is meant by one -/
  request : ∀ r ∈ accepted, ∃ p, r ∈ b.fan accepted p
  input : ∀ p, b.HasInput p → ∃ source, ∃ r ∈ b.fan accepted source, b.targetOf? r = some p
  output : ∀ p, b.HasOutput p → b.fan accepted p ≠ []
  /-- request number `k` for an output has reader `k` of the connection whose writer is that output -/
  joined : ∀ {p k r}, (b.fan accepted p)[k]? = some r →
    ∃ q w c size, b.targetOf? r = some q ∧ n.wires[w]? = some c ∧
      n.HoldsOutput p ⟨w, ⟨Cursor.start c.capacity, 0⟩⟩ ∧ n.HoldsInput q ⟨w, ⟨k, Cursor.start c.capacity, 0⟩⟩ ∧
      b.tokenSizeAt? Interface.outputs p = some size ∧ b.tokenSizeAt? Interface.inputs q = some size ∧
        c.tokenSize = size ∧
      c.readers = (b.fan accepted p).length ∧ IsDepth (b.fanDepths accepted p) c.capacity
  /-- every connection is that of an output -/
  wired : ∀ w < n.wires.length, ∃ p e, n.HoldsOutput p e ∧ e.wire = w
  /-- no two ports share an end -/
  outputs : ∀ {p p' e e'}, n.HoldsOutput p e → n.HoldsOutput p' e' → e.wire = e'.wire → p = p'
  inputs : ∀ {p p' e e'}, n.HoldsInput p e → n.HoldsInput p' e' → e.wire = e'.wire →
    e.item.reader = e'.item.reader → p = p'

/-! ### Ports and their ends -/

section

variable (hb : b.Built ws n)

include hb

theorem Built.output_held (hp : b.HasOutput p) : ∃ e, n.HoldsOutput p e := by
  obtain ⟨d, hd, hlt⟩ := hp
  obtain ⟨inst, hinst, hid, hplaced⟩ := hb.exists_instance hd
  exact ⟨_, inst, hinst, hid, getElem?_eq_getElem (hplaced.outputs ▸ hlt)⟩

theorem Built.input_held (hp : b.HasInput p) : ∃ e, n.HoldsInput p e := by
  obtain ⟨d, hd, hlt⟩ := hp
  obtain ⟨inst, hinst, hid, hplaced⟩ := hb.exists_instance hd
  exact ⟨_, inst, hinst, hid, getElem?_eq_getElem (hplaced.inputs ▸ hlt)⟩

/-- the end that an output holds is that of its own connection -/
theorem Built.wire_of_output {e : Attached OutputEnd} (h : n.HoldsOutput p e) :
    ∃ wire, ws[e.wire]? = some wire ∧ wire.source = p ∧ e.item = wire.output := by
  obtain ⟨inst, hinst, hid, he⟩ := h
  obtain ⟨d, -, hplaced⟩ := hb.placed inst hinst
  obtain ⟨wire, hwire, hsource, hitem⟩ := hplaced.output he
  exact ⟨wire, hwire, by rw [hsource, hid], hitem⟩

/-- the end that an input holds is that of its place among the targets -/
theorem Built.wire_of_input {e : Attached InputEnd} (h : n.HoldsInput p e) :
    ∃ (wire : Wire) (k : Nat), ws[e.wire]? = some wire ∧ wire.targets[k]? = some p ∧ wire.inputs[k]? = some e.item := by
  obtain ⟨inst, hinst, hid, he⟩ := h
  obtain ⟨d, -, hplaced⟩ := hb.placed inst hinst
  obtain ⟨wire, k, hwire, htarget, hitem⟩ := hplaced.input he
  exact ⟨wire, k, hwire, by rw [htarget, hid], hitem⟩

end

/-! ### Requests and their links -/

section

variable (h : b.Records accepted)

include h

theorem Records.link_of_request (hr : r ∈ accepted) : ∃ link ∈ b.links, b.Resolves r link := by
  obtain ⟨k, hk⟩ := getElem?_of_mem hr
  obtain ⟨link, hlink, hres⟩ := forall₂_getElem? h.links hk
  exact ⟨link, mem_of_getElem? hlink, hres⟩

theorem Records.request_of_link {link : Link} (hlink : link ∈ b.links) : ∃ r ∈ accepted, b.Resolves r link := by
  obtain ⟨k, hk⟩ := getElem?_of_mem hlink
  obtain ⟨r, hr, hres⟩ := forall₂_getElem? h.links.flip hk
  exact ⟨r, mem_of_getElem? hr, hres⟩

/-- the requests for an output and its links stand side by side -/
theorem Records.fan (p : PortRef) : List.Forall₂ b.Resolves (b.fan accepted p) (b.links.filter (·.source = p)) := by
  refine rel_filter (fun r link hres => ?_) h.links
  simp [hres.source]

theorem Records.fanDepths (p : PortRef) : b.depths (b.links.filter (·.source = p)) = b.fanDepths accepted p := by
  simp only [depths, Builder.fanDepths]
  rw [eq_comm, ← forall₂_eq_eq_eq, forall₂_map_left_iff, forall₂_map_right_iff]
  exact (h.fan p).imp fun _ _ hres => by rw [hres.depth]

end

/-! ### A network that is built -/

/-- request number `k` for an output has reader `k` of that output's connection, at the input it means -/
theorem Built.joined (hb : b.Built ws n) (h : b.Records accepted) (hws : b.wires = .ok ws) {k : Nat}
    (hr : (b.fan accepted p)[k]? = some r) : ∃ q w c size, b.targetOf? r = some q ∧ n.wires[w]? = some c ∧
      n.HoldsOutput p ⟨w, ⟨Cursor.start c.capacity, 0⟩⟩ ∧ n.HoldsInput q ⟨w, ⟨k, Cursor.start c.capacity, 0⟩⟩ ∧
      b.tokenSizeAt? Interface.outputs p = some size ∧ b.tokenSizeAt? Interface.inputs q = some size ∧
        c.tokenSize = size ∧
      c.readers = (b.fan accepted p).length ∧ IsDepth (b.fanDepths accepted p) c.capacity := by
  have hl := h.made.wellLinked
  have hj := joins_of_wires hl hws
  obtain ⟨link, hlink, hres⟩ := forall₂_getElem? (h.fan p) hr
  obtain ⟨hmem, hsource⟩ := mem_filter.1 (mem_of_getElem? hlink)
  obtain rfl : link.source = p := by simpa using hsource
  -- the ends that both ports hold are of one connection, and the input's is number `k`
  obtain ⟨⟨w, item⟩, hout⟩ := hb.output_held (hl.source link hmem)
  obtain ⟨wire, hwire, hwsource, rfl⟩ := hb.wire_of_output hout
  obtain ⟨⟨w', item'⟩, hin⟩ := hb.input_held (hl.target link hmem)
  obtain ⟨wire', k', hwire', htarget', hitem'⟩ := hb.wire_of_input hin
  have htarget : wire.targets[k]? = some link.target := by
    rw [hj.targets wire (mem_of_getElem? hwire), hwsource, getElem?_map, hlink]
    rfl
  obtain ⟨rfl, rfl⟩ := hj.target_unique hl hwire hwire' htarget htarget'
  rw [hwire] at hwire'
  cases hwire'
  -- what this connection is like
  obtain ⟨size, hok⟩ := wire_of_mem hws (mem_of_getElem? hwire)
  rw [hwsource] at hok
  obtain ⟨-, -, hdepth, -, htracks, houtput, -, hinput⟩ := wire_spec hok
  have hreaders : wire.connection.readers = (b.fan accepted link.source).length := by
    simpa [Ledger.fresh, Connection.readers, (h.fan _).length_eq] using congrArg length htracks.consumed
  obtain ⟨d, port, hd, hport, hsize⟩ := hj.source wire (mem_of_getElem? hwire)
  rw [hwsource] at hd hport
  obtain ⟨size', hsizeOut, hsizeIn⟩ := hres.sizes
  have hagree : wire.connection.tokenSize = size' := by
    rw [tokenSizeAt?, hd, Option.bind_some, hport] at hsizeOut
    exact hsize.trans (Option.some.inj hsizeOut)
  rw [houtput] at hout
  obtain rfl : item' = ⟨k, Cursor.start wire.connection.capacity, 0⟩ := hinput hitem'
  exact ⟨link.target, w, wire.connection, size', hres.target, by rw [hb.wires, getElem?_map, hwire]; rfl, hout, hin,
    hsizeOut, hsizeIn, hagree, hreaders, h.fanDepths _ ▸ isDepth_of_depthOf hdepth⟩

/-- a network that is built is wired just as was asked -/
theorem exact_of_build (h : b.Records accepted) (hbuild : b.build mapping = .ok n) : b.Exact accepted n := by
  obtain ⟨ws, hws, hb⟩ := built_of_build hbuild
  have hl := h.made.wellLinked
  have hj := joins_of_wires hl hws
  have hfan : ∀ {r p}, r ∈ accepted → b.sourceOf? r = some p → r ∈ b.fan accepted p := fun hr hsource =>
    mem_filter.2 ⟨hr, by simpa using hsource⟩
  refine ⟨hb.ids, fun inst hinst => ?_, fun r hr => ?_, fun p hp => ?_, fun p hp => ?_, fun hr => ?_, fun w hw => ?_,
    fun hp hp' hsame => ?_, fun hp hp' hsame hreader => ?_⟩
  · obtain ⟨d, hd, hplaced⟩ := hb.placed inst hinst
    exact ⟨d, hd, by rw [hplaced.fresh], by rw [hplaced.fresh], hplaced.inputs, hplaced.outputs⟩
  · obtain ⟨link, -, hres⟩ := h.link_of_request hr
    exact ⟨link.source, hfan hr hres.source⟩
  · obtain ⟨e, he⟩ := hb.input_held hp
    obtain ⟨wire, k, hwire, htarget, -⟩ := hb.wire_of_input he
    obtain ⟨link, hlink, -, rfl⟩ := hj.link_of_target (mem_of_getElem? hwire) (mem_of_getElem? htarget)
    obtain ⟨r, hr, hres⟩ := h.request_of_link hlink
    exact ⟨link.source, r, hfan hr hres.source, hres.target⟩
  · obtain ⟨e, he⟩ := hb.output_held hp
    obtain ⟨wire, hwire, rfl, -⟩ := hb.wire_of_output he
    obtain ⟨q, hq⟩ := exists_mem_of_ne_nil _ (targets_ne_nil hws (mem_of_getElem? hwire))
    obtain ⟨link, hlink, hsource, -⟩ := hj.link_of_target (mem_of_getElem? hwire) hq
    obtain ⟨r, hr, hres⟩ := h.request_of_link hlink
    exact ne_nil_of_mem (hfan hr (hsource ▸ hres.source))
  · exact hb.joined h hws hr
  · rw [hb.wires, length_map] at hw
    have hwire := getElem?_eq_getElem hw
    obtain ⟨d, port, hd, hport, -⟩ := hj.source _ (mem_of_getElem? hwire)
    obtain ⟨e, he⟩ := hb.output_held ⟨d, hd, lt_of_getElem? hport⟩
    obtain ⟨wire', hwire', hsource, -⟩ := hb.wire_of_output he
    exact ⟨_, e, he, hj.source_unique hwire' hwire hsource⟩
  · obtain ⟨wire, hwire, rfl, -⟩ := hb.wire_of_output hp
    obtain ⟨wire', hwire', rfl, -⟩ := hb.wire_of_output hp'
    rw [hsame, hwire'] at hwire
    cases hwire
    rfl
  · obtain ⟨wire, k, hwire, htarget, hitem⟩ := hb.wire_of_input hp
    obtain ⟨wire', k', hwire', htarget', hitem'⟩ := hb.wire_of_input hp'
    rw [hsame, hwire'] at hwire
    cases hwire
    have hfresh := hj.fresh _ (mem_of_getElem? hwire')
    rw [hfresh.reader hitem, hfresh.reader hitem'] at hreader
    subst hreader
    rw [htarget] at htarget'
    exact Option.some.inj htarget'

/-- there is storage for the connection of every output that was asked for, and a word for each of its readers -/
def Allocatable (b : Builder σ) (accepted : List Request) : Prop :=
  ∀ {p size c}, b.tokenSizeAt? Interface.outputs p = some size → b.fan accepted p ≠ [] →
    IsDepth (b.fanDepths accepted p) c →
      Region.grants (c * size) ∧ (b.fan accepted p).length * Region.readerBytes ≤ Word.signedMax64

theorem wires_of_allocatable (h : b.Records accepted) (hsizes : ∀ p, b.tokenSizeAt? Interface.outputs p ≠ some 0)
    (hdepths : ∀ r ∈ accepted, r.depth.getD b.defaultDepth ≤ 2 ^ 31) (hregions : b.Allocatable accepted) :
    ∃ ws, b.wires = .ok ws := by
  refine wires_ok fun {p size} hp hne => ?_
  obtain ⟨d, port, hd, hport, rfl⟩ := mem_outputsOf.1 hp
  have hsize : b.tokenSizeAt? Interface.outputs p = some port.tokenSize := by simp [tokenSizeAt?, hd, hport]
  have hpos : 0 < port.tokenSize := Nat.pos_of_ne_zero fun hzero => hsizes p (by rw [hsize, hzero])
  have hlen := (h.fan p).length_eq
  have hfan : b.fan accepted p ≠ [] := fun hnil => hne (eq_nil_of_length_eq_zero (by rw [← hlen, hnil]; rfl))
  have hc := isDepth_powerOfTwo (b.fanDepths accepted p)
  obtain ⟨hlimit, hreaders⟩ := hregions hsize hfan hc
  rw [← h.fanDepths] at hc hlimit
  refine wire_ok p hpos hne hc (fun d hd => ?_) hlimit (hlen ▸ hreaders)
  rw [h.fanDepths] at hd
  obtain ⟨r, hr, rfl⟩ := mem_map.1 hd
  exact hdepths r (mem_of_mem_filter hr)

/-- once all connections are made, a build that fails does so for want of a connection, and some port is loose -/
theorem loose_of_error (h : b.Records accepted) (hws : b.wires = .ok ws) {stop : Stop NetworkError}
    (herror : b.build mapping = .error stop) :
    (∃ inst port side, stop = .error (.unconnected inst port side)) ∧ b.Loose accepted := by
  have hj := joins_of_wires h.made.wellLinked hws
  obtain ⟨hstop, hnone⟩ := build_eq_error hws herror
  refine ⟨hstop, hnone.imp ?_ ?_⟩
  · rintro ⟨p, hp, hnone⟩
    refine ⟨p, hp, fun r hr htarget => ?_⟩
    obtain ⟨link, hlink, hres⟩ := h.link_of_request hr
    obtain rfl : link.target = p := Option.some.inj (hres.target.symm.trans htarget)
    exact inputEnd?_of_link hws hj hlink hnone
  · rintro ⟨p, hp, hnone⟩
    refine ⟨p, hp, fun r hr hsource => ?_⟩
    obtain ⟨link, hlink, hres⟩ := h.link_of_request hr
    obtain rfl : link.source = p := Option.some.inj (hres.source.symm.trans hsource)
    exact outputEnd?_of_link hj hlink hnone

/-- no port of a network that is wired as was asked is loose -/
theorem Exact.not_loose (h : b.Exact accepted n) : ¬ b.Loose accepted := by
  rintro (⟨p, hp, hnone⟩ | ⟨p, hp, hnone⟩)
  · obtain ⟨source, r, hr, htarget⟩ := h.input p hp
    exact hnone r (mem_of_mem_filter hr) htarget
  · obtain ⟨r, hr⟩ := exists_mem_of_ne_nil _ (h.output p hp)
    obtain ⟨hmem, hsource⟩ := mem_filter.1 hr
    exact hnone r hmem (by simpa using hsource)

/-- **Wiring is exact**, whatever was asked of the builder and in whatever order. -/
theorem wiring_is_exact (defaultDepth : Nat) (calls : List (BuilderCall σ)) (mapping : Option Mapping)
    (h : after defaultDepth calls = (b, accepted)) (hsizes : ∀ p, b.tokenSizeAt? Interface.outputs p ≠ some 0)
    (hdepths : ∀ r ∈ accepted, r.depth.getD b.defaultDepth ≤ 2 ^ 31) (hregions : b.Allocatable accepted) :
    ((∃ inst port side, b.build mapping = .error (.error (.unconnected inst port side))) ↔ b.Loose accepted) ∧
      (¬ b.Loose accepted → ∃ n, b.build mapping = .ok n) ∧ ∀ n, b.build mapping = .ok n → b.Exact accepted n := by
  have hrec : b.Records accepted := by simpa [h] using records_after defaultDepth calls
  obtain ⟨ws, hws⟩ := wires_of_allocatable hrec hsizes hdepths hregions
  refine ⟨⟨?_, fun hloose => ?_⟩, fun hloose => ?_, fun n hn => exact_of_build hrec hn⟩
  · rintro ⟨inst, port, side, herror⟩
    exact (loose_of_error hrec hws herror).2
  · cases hbuild : b.build mapping with
    | ok n => exact absurd hloose (exact_of_build hrec hbuild).not_loose
    | error stop =>
      obtain ⟨⟨inst, port, side, rfl⟩, -⟩ := loose_of_error hrec hws hbuild
      exact ⟨inst, port, side, rfl⟩
  · cases hbuild : b.build mapping with
    | ok n => exact ⟨n, rfl⟩
    | error stop => exact absurd (loose_of_error hrec hws hbuild).2 hloose

/-- one output with two readers; a second instance of a name, a port that is not there and a second link to an input are
refused -/
def splitting : List (BuilderCall Component) :=
  [.add "numbers" (.source { feed := .range 1 3 }) none, .add "left" (.sink {}) none, .add "numbers" (.sink {}) none,
    .connect ⟨"numbers", "out", "left", "in", some 3⟩, .connect ⟨"numbers", "in", "left", "in", none⟩,
    .add "right" (.sink {}) (some "apart"), .connect ⟨"numbers", "out", "right", "in", none⟩,
    .connect ⟨"numbers", "out", "left", "in", some 9⟩]

theorem wiring_is_exact_splitting :
    (after 6 splitting).2.length = 2 ∧ ¬ (after 6 splitting).1.Loose (after 6 splitting).2 ∧
    ∃ n, (after 6 splitting).1.build none = .ok n ∧ (after 6 splitting).1.Exact (after 6 splitting).2 n ∧
      n.wires.map (·.capacity) = [8] := by
  have hcount : (after 6 splitting).2.length = 2 := by decide +kernel
  have hasked : ∀ r ∈ (after 6 splitting).2, r.depth.getD (after 6 splitting).1.defaultDepth ≤ 2 ^ 3 :=
    by decide +kernel
  have hfour : ∀ d ∈ (after 6 splitting).1.instances, ∀ port ∈ (Behaviour.interface d.actor).outputs,
    port.tokenSize = 4 := by
    decide +kernel
  have hwired : ((after 6 splitting).1.build none).toOption.map (fun n => n.wires.map (·.capacity)) = some [8] := by
    decide +kernel
  generalize hcalls : after 6 splitting = s at *
  obtain ⟨b, accepted⟩ := s
  have hsize : ∀ {p size}, b.tokenSizeAt? Interface.outputs p = some size → size = 4 := by
    intro p size h
    obtain ⟨d, hd, port, hport, rfl⟩ := mem_of_tokenSizeAt? h
    exact hfour d hd port hport
  have hregions : b.Allocatable accepted := by
    intro p size c hp _ hc
    have hdepth : c ≤ 2 ^ 3 := hc.le_two_pow fun d hd => by
      obtain ⟨r, hr, rfl⟩ := mem_map.1 hd
      exact hasked r (mem_of_mem_filter hr)
    have hfan : (b.fan accepted p).length ≤ 2 := hcount ▸ length_filter_le _ _
    rw [hsize hp]
    exact ⟨decide_eq_true (by omega), (Nat.mul_le_mul_right _ hfan).trans (by decide)⟩
  obtain ⟨hloose, -, hexact⟩ := wiring_is_exact 6 splitting none hcalls (fun p h => absurd (hsize h) (by decide))
    (fun r hr => (hasked r hr).trans (by decide)) hregions
  obtain ⟨n, hn, hcapacity⟩ := Option.map_eq_some_iff.1 hwired
  have hbuilt : b.build none = .ok n := eq_ok_of_toOption hn
  refine ⟨hcount, fun h => ?_, n, hbuilt, hexact n hbuilt, hcapacity⟩
  obtain ⟨inst, port, side, herror⟩ := hloose.2 h
  rw [hbuilt] at herror
  cases herror

end Builder

end Dataflow
