import Dataflow.Proofs.OpenPorts
import Dataflow.Proofs.Placement

/-!
What building a network wires.

There is one connection for every output that has links, read by the targets of these links (`Builder.joins_of_wires`).
Every instance gets the ends of its own ports (`Builder.Placed`), and a built network holds every instance once
(`Builder.built_of_build`).
-/

namespace Dataflow

open List

namespace Builder

variable {σ : Type} [Behaviour σ] {b b' : Builder σ} {i size : Nat} {interface : Interface} {port : String}

/-! ## Builders by their operations -/

/-- what the operations of a builder make of an empty one -/
inductive Made : Builder σ → Prop where
  | empty (defaultDepth : Nat) : Made { defaultDepth }
  | add {b b' : Builder σ} {name : String} {actor : σ} {affinity : Option String} {i : Nat} (h : Made b)
    (hadd : b.add name actor affinity = .ok (i, b')) : Made b'
  | connect {b b' : Builder σ} {source sourcePort target targetPort : String} {depth : Option Nat} (h : Made b)
    (hconnect : b.connect source sourcePort target targetPort depth = .ok b') : Made b'
  | applySizes {b : Builder σ} (h : Made b) (m : Mapping) : Made (b.applySizes m)

theorem Made.foldlM {α : Type} {f : Builder σ → α → Except NetworkError (Builder σ)} {xs : List α} (hb : b.Made)
    (hf : ∀ {b b' x}, Made b → f b x = .ok b' → Made b') (h : xs.foldlM f b = .ok b') : b'.Made := by
  induction xs generalizing b with
  | nil =>
    cases h
    exact hb
  | cons x xs ih =>
    obtain ⟨c, hc, h⟩ := bind_eq_ok h
    exact ih (hf hb hc) h

/-- declares all instances of a builder again, and makes all its links again by the names of their ports -/
def again (b : Builder σ) : Except NetworkError (Builder σ) := do
  let declared ← b.instances.foldlM (fun c d => Prod.snd <$> c.add d.name d.actor d.affinity)
    { defaultDepth := b.defaultDepth }
  b.links.foldlM (fun c link =>
    let source := (b.outputNames? link.source).getD ("", "")
    let target := (b.inputNames? link.target).getD ("", "")
    c.connect source.1 source.2 target.1 target.2 link.depth) declared

theorem made_of_again (h : b.again = .ok b') : b'.Made := by
  obtain ⟨declared, hdeclared, h⟩ := bind_eq_ok h
  refine Made.foldlM (.foldlM (.empty _) (fun hc hadd => ?_) hdeclared) (fun hc hconnect => hc.connect hconnect) h
  obtain ⟨⟨i, c⟩, hnew, heq⟩ := bind_eq_ok hadd
  cases heq
  exact hc.add hnew

def HasOutput (b : Builder σ) (p : PortRef) : Prop :=
  ∃ d, b.instances[p.inst]? = some d ∧ p.port < (Behaviour.interface d.actor).outputs.length

def HasInput (b : Builder σ) (p : PortRef) : Prop :=
  ∃ d, b.instances[p.inst]? = some d ∧ p.port < (Behaviour.interface d.actor).inputs.length

/-- links join declared ports, and no two lead to one input -/
structure WellLinked (b : Builder σ) : Prop where
  source : ∀ link ∈ b.links, b.HasOutput link.source
  target : ∀ link ∈ b.links, b.HasInput link.target
  once : (b.links.map (·.target)).Nodup

/-- the names of an instance and of one of its ports lead to a declared port -/
def Finds (b : Builder σ) (ports : Interface → List PortSpec) (inst port : String) (p : PortRef)
    (spec : PortSpec) : Prop :=
  ∃ d, b.instances.findIdx? (·.name == inst) = some p.inst ∧ b.instances[p.inst]? = some d ∧
    (ports (Behaviour.interface d.actor)).findIdx? (·.name == port) = some p.port ∧
    (ports (Behaviour.interface d.actor))[p.port]? = some spec

theorem lookup_eq_ok {name : String} (h : b.lookup name = .ok (i, interface)) :
    b.instances.findIdx? (·.name == name) = some i ∧ ∃ d, b.instances[i]? = some d ∧
    interface = Behaviour.interface d.actor := by
  unfold lookup at h
  split at h
  · cases h
  next hfound =>
  split at h
  · cases h
  · next d hd =>
    cases h
    exact ⟨hfound, d, hd, rfl⟩

theorem portAt_eq_ok {ports : List PortSpec} {missing : NetworkError} {k : Nat}
    (h : portAt ports missing (ports.findIdx? (·.name == port)) = .ok (k, size)) :
    ∃ spec, ports.findIdx? (·.name == port) = some k ∧ ports[k]? = some spec ∧ spec.tokenSize = size := by
  unfold portAt at h
  split at h
  · cases h
  next hfound =>
  cases h
  have hlt := (findIdx?_eq_some_iff_getElem.1 hfound).1
  exact ⟨_, hfound, getElem?_eq_getElem hlt, by simp [hlt]⟩

/-- a connection that is accepted is a link between ports of one size, to an input that had none -/
theorem connect_eq_ok {source sourcePort target targetPort : String} {depth : Option Nat}
    (h : b.connect source sourcePort target targetPort depth = .ok b') :
    ∃ link spec spec', b.Finds Interface.outputs source sourcePort link.source spec ∧
      b.Finds Interface.inputs target targetPort link.target spec' ∧ spec.tokenSize = spec'.tokenSize ∧
      (∀ l ∈ b.links, l.target ≠ link.target) ∧ link.depth = depth ∧ b' = { b with links := b.links ++ [link] } := by
  obtain ⟨⟨src, sourceInterface⟩, hsrc, h1⟩ := bind_eq_ok h
  obtain ⟨⟨dst, targetInterface⟩, hdst, h2⟩ := bind_eq_ok h1
  obtain ⟨⟨output, sourceSize⟩, hout, h3⟩ := bind_eq_ok h2
  obtain ⟨⟨input, targetSize⟩, hin, h4⟩ := bind_eq_ok h3
  obtain ⟨hfound, d, hd, rfl⟩ := lookup_eq_ok hsrc
  obtain ⟨hfound', d', hd', rfl⟩ := lookup_eq_ok hdst
  obtain ⟨spec, houtput, hspec, rfl⟩ := portAt_eq_ok hout
  obtain ⟨spec', hinput, hspec', rfl⟩ := portAt_eq_ok hin
  dsimp only at h4
  split at h4
  · cases h4
  next hagree =>
  split at h4
  · cases h4
  next hfree =>
  cases h4
  refine ⟨⟨⟨src, output⟩, ⟨dst, input⟩, depth⟩, spec, spec', ⟨d, hfound, hd, houtput, hspec⟩,
    ⟨d', hfound', hd', hinput, hspec'⟩, not_not.1 hagree, fun l hl heq => ?_, rfl, rfl⟩
  exact hfree (any_eq_true.2 ⟨l, hl, by simpa using heq⟩)

theorem getElem?_append_some {α : Type} {xs ys : List α} {x : α} (h : xs[i]? = some x) : (xs ++ ys)[i]? = some x := by
  rw [getElem?_append_left (lt_of_getElem? h), h]

/-- a mapping changes nothing of a link but its depth -/
theorem applySizes_links (b : Builder σ) (m : Mapping) : ∃ f : Link → Link, (b.applySizes m).links = b.links.map f ∧
    ∀ link, (f link).source = link.source ∧ (f link).target = link.target := by
  refine ⟨_, rfl, fun link => ?_⟩
  split <;> exact ⟨rfl, rfl⟩

/-- the operations keep links in order -/
theorem Made.wellLinked (h : b.Made) : b.WellLinked := by
  induction h with
  | empty => exact ⟨by simp, by simp, by simp⟩
  | add _ hadd ih =>
    unfold Builder.add at hadd
    split at hadd
    · cases hadd
    · cases hadd
      refine ⟨fun link hlink => ?_, fun link hlink => ?_, ih.once⟩
      · obtain ⟨d, hd, hlt⟩ := ih.source link hlink
        exact ⟨d, getElem?_append_some hd, hlt⟩
      · obtain ⟨d, hd, hlt⟩ := ih.target link hlink
        exact ⟨d, getElem?_append_some hd, hlt⟩
  | @connect b _ _ _ _ _ _ _ hconnect ih =>
    obtain ⟨link, _, _, ⟨d, -, hd, -, hspec⟩, ⟨d', -, hd', -, hspec'⟩, -, hfree, -, rfl⟩ := connect_eq_ok hconnect
    have hmem : ∀ l ∈ b.links ++ [link], l ∈ b.links ∨ l = link := fun l hl => by simpa using hl
    refine ⟨fun l hl => ?_, fun l hl => ?_, ?_⟩
    · rcases hmem l hl with hl | rfl
      · exact ih.source l hl
      · exact ⟨d, hd, lt_of_getElem? hspec⟩
    · rcases hmem l hl with hl | rfl
      · exact ih.target l hl
      · exact ⟨d', hd', lt_of_getElem? hspec'⟩
    · simp only [map_append, map_cons, map_nil]
      refine nodup_append.2 ⟨ih.once, nodup_singleton _, ?_⟩
      intro t ht t' ht'
      obtain ⟨l, hl, rfl⟩ := mem_map.1 ht
      rw [mem_singleton.1 ht']
      exact hfree l hl
  | @applySizes b _ m ih =>
    obtain ⟨f, hlinks, hports⟩ := b.applySizes_links m
    refine ⟨fun link hlink => ?_, fun link hlink => ?_, ?_⟩
    · rw [hlinks] at hlink
      obtain ⟨l, hl, rfl⟩ := mem_map.1 hlink
      rw [(hports l).1]
      exact ih.source l hl
    · rw [hlinks] at hlink
      obtain ⟨l, hl, rfl⟩ := mem_map.1 hlink
      rw [(hports l).2]
      exact ih.target l hl
    · have htargets : (b.links.map f).map (·.target) = b.links.map (·.target) := by
        rw [map_map]
        exact map_congr_left fun l _ => (hports l).2
      rw [hlinks, htargets]
      exact ih.once

/-! ## Connections -/

end Builder

/-- a connection that nobody has used, with all its ends -/
structure Wire.Fresh (wire : Wire) : Prop where
  tracks : wire.connection.Tracks (Ledger.fresh wire.targets.length)
  output : wire.output.Rests wire.connection.capacity (Ledger.fresh wire.targets.length)
  reader : ∀ {r} {e : InputEnd}, wire.inputs[r]? = some e → e.reader = r
  input : ∀ {r : Nat} {e}, wire.inputs[r]? = some e →
    e.Rests 0 wire.connection.capacity (Ledger.fresh wire.targets.length)

namespace Builder

variable {σ : Type} {b b' : Builder σ} {ws : List Wire} {links : List Link}

theorem takeInputs_eq_ok {c c' : Connection} {r : Nat} {ends : List InputEnd}
    (h : takeInputs c r links = .ok (ends, c')) : (∃ taken, c' = { c with inputsTaken := taken }) ∧
      ends.length = links.length ∧
      ∀ {k} {e : InputEnd}, ends[k]? = some e → e = ⟨r + k, Cursor.start c.capacity, 0⟩ := by
  induction links generalizing c r ends with
  | nil =>
    cases h
    exact ⟨⟨_, rfl⟩, rfl, by simp⟩
  | cons link rest ih =>
    obtain ⟨⟨e0, c1⟩, htake, h1⟩ := bind_eq_ok h
    obtain ⟨⟨more, c2⟩, hrest, h2⟩ := bind_eq_ok h1
    cases h2
    obtain ⟨rfl, rfl⟩ := Connection.takeInput_eq_ok htake
    obtain ⟨⟨taken, rfl⟩, hlen, hends⟩ := ih hrest
    refine ⟨⟨taken, rfl⟩, by simp [hlen], fun {k e} hk => ?_⟩
    cases k with
    | zero => cases hk; rfl
    | succ k =>
      rw [hends hk]
      congr 1
      omega

variable {source : PortRef} {tokenSize : Nat} {wire : Wire}

/-- what an output's connection is like -/
theorem wire_spec (h : b.wire source tokenSize links = .ok wire) :
    wire.source = source ∧ wire.targets = links.map (·.target) ∧ b.depthOf links = .ok wire.connection.capacity ∧
      wire.connection.tokenSize = tokenSize ∧ wire.connection.Tracks (Ledger.fresh links.length) ∧
      wire.output = ⟨Cursor.start wire.connection.capacity, 0⟩ ∧ wire.inputs.length = links.length ∧
      ∀ {r} {e : InputEnd}, wire.inputs[r]? = some e → e = ⟨r, Cursor.start wire.connection.capacity, 0⟩ := by
  obtain ⟨depth, hlift, h1⟩ := bind_eq_ok h
  obtain ⟨c, hcreate, h2⟩ := bind_eq_ok h1
  obtain ⟨⟨output, c1⟩, hout, h3⟩ := bind_eq_ok h2
  obtain ⟨⟨inputs, c2⟩, hin, h4⟩ := bind_eq_ok h3
  cases h4
  obtain ⟨hsize, rfl, -, -, ht⟩ := Connection.create_eq_ok (mapError_eq_ok hcreate)
  obtain ⟨rfl, rfl⟩ := Connection.takeOutput_eq_ok (mapError_eq_ok hout)
  obtain ⟨⟨taken, rfl⟩, hlen, hends⟩ := takeInputs_eq_ok (mapError_eq_ok hin)
  refine ⟨rfl, rfl, ?_, hsize, { ht with }, rfl, hlen, fun he => by simpa using hends he⟩
  cases hd : b.depthOf links with
  | error f => rw [hd] at hlift; cases hlift
  | ok n => rw [hd] at hlift; cases hlift; rfl

theorem wire_eq_ok (h : b.wire source tokenSize links = .ok wire) :
    wire.source = source ∧ wire.targets = links.map (·.target) ∧
    wire.connection.tokenSize = tokenSize ∧ wire.Fresh := by
  obtain ⟨hsource, htargets, -, hsize, ht, hout, hlen, hends⟩ := wire_spec h
  have hcount : links.length = wire.targets.length := by rw [htargets, length_map]
  rw [hcount] at ht hlen
  refine ⟨hsource, htargets, hsize, ht,
    by rw [hout]; exact ⟨Cursor.at_start _, rfl, rfl⟩, fun he => by rw [hends he], fun {r e} he => ?_⟩
  have hlt : r < wire.targets.length := hlen ▸ lt_of_getElem? he
  rw [hends he]
  exact ⟨by simp [Ledger.fresh, hlt], rfl, Cursor.at_start _⟩

variable [Behaviour σ]

theorem mem_outputsOf {p : PortRef} {size : Nat} : (p, size) ∈ b.outputsOf ↔
    ∃ d port, b.instances[p.inst]? = some d ∧ (Behaviour.interface d.actor).outputs[p.port]? = some port ∧
      size = port.tokenSize := by
  simp only [outputsOf, mem_flatMap, mem_map, Prod.exists, mem_zipIdx_iff_getElem?, Prod.mk.injEq]
  constructor
  · rintro ⟨d, i, hd, port, o, hport, rfl, rfl⟩
    exact ⟨d, port, hd, hport, rfl⟩
  · rintro ⟨d, port, hd, hport, rfl⟩
    exact ⟨d, p.inst, hd, port, p.port, hport, rfl, rfl⟩

/-- no output is listed twice -/
theorem outputsOf_pairwise (b : Builder σ) : b.outputsOf.Pairwise fun x y => x.1 ≠ y.1 := by
  have hidx : ∀ {α : Type} (xs : List α), xs.zipIdx.Pairwise fun x y => x.2 ≠ y.2 := by
    intro α xs
    have hnodup : (xs.zipIdx.map Prod.snd).Nodup := by
      rw [zipIdx_map_snd]
      exact nodup_range'
    exact pairwise_map.1 hnodup
  refine pairwise_flatMap.2 ⟨fun x _ => ?_, (hidx b.instances).imp fun hne p hp q hq => ?_⟩
  · refine pairwise_map.2 ((hidx _).imp fun hne heq => hne ?_)
    exact (PortRef.mk.inj heq).2
  · obtain ⟨_, -, rfl⟩ := mem_map.1 hp
    obtain ⟨_, -, rfl⟩ := mem_map.1 hq
    exact fun heq => hne (PortRef.mk.inj heq).1

structure Joins (b : Builder σ) (ws : List Wire) : Prop where
  fresh : ∀ wire ∈ ws, wire.Fresh
  source : ∀ wire ∈ ws, ∃ d port, b.instances[wire.source.inst]? = some d ∧
    (Behaviour.interface d.actor).outputs[wire.source.port]? = some port ∧ wire.connection.tokenSize = port.tokenSize
  targets : ∀ wire ∈ ws, wire.targets = (b.links.filter (·.source = wire.source)).map (·.target)
  distinct : (ws.map (·.source)).Nodup
  complete : ∀ link ∈ b.links, ∃ wire ∈ ws, wire.source = link.source

theorem joins_of_wires (hl : b.WellLinked) (h : b.wires = .ok ws) : b.Joins ws := by
  unfold wires at h
  set linked := b.outputsOf.filterMap _ with hlinked
  have hmem : ∀ {source size links}, (source, size, links) ∈ linked ↔
      (source, size) ∈ b.outputsOf ∧ links = b.links.filter (·.source = source) ∧ links ≠ [] := by
    intro source size links
    simp only [hlinked, mem_filterMap, Prod.exists, Option.ite_none_left_eq_some, Option.some.injEq, Prod.mk.injEq,
      List.isEmpty_iff]
    constructor
    · rintro ⟨p, n, hp, hne, rfl, rfl, rfl⟩
      exact ⟨hp, rfl, hne⟩
    · rintro ⟨hp, rfl, hne⟩
      exact ⟨source, size, hp, hne, rfl, rfl, rfl⟩
  have hall : List.Forall₂ (fun x wire => wire.source = x.1 ∧ wire.targets = x.2.2.map (·.target) ∧
      wire.connection.tokenSize = x.2.1 ∧ wire.Fresh) linked ws :=
      (forall₂_of_mapM h).imp fun _ _ hwire => wire_eq_ok hwire
  have horigin : ∀ wire ∈ ws, ∃ size, (wire.source, size) ∈ b.outputsOf ∧
      wire.targets = (b.links.filter (·.source = wire.source)).map (·.target) ∧
      wire.connection.tokenSize = size ∧ wire.Fresh := by
    intro wire hwire
    obtain ⟨⟨source, size, links⟩, hx, hok⟩ := exists_of_mapM h hwire
    obtain ⟨rfl, htargets, hsize, hfresh⟩ := wire_eq_ok hok
    obtain ⟨hp, rfl, -⟩ := hmem.1 hx
    exact ⟨size, hp, htargets, hsize, hfresh⟩
  refine ⟨fun wire hwire => ?_, fun wire hwire => ?_, fun wire hwire => ?_, ?_, fun link hlink => ?_⟩
  · obtain ⟨-, -, -, -, hfresh⟩ := horigin wire hwire
    exact hfresh
  · obtain ⟨size, hp, -, rfl, -⟩ := horigin wire hwire
    exact mem_outputsOf.1 hp
  · obtain ⟨-, -, htargets, -, -⟩ := horigin wire hwire
    exact htargets
  · have hsources : linked.map (·.1) = ws.map (·.source) := by
      rw [← forall₂_eq_eq_eq, forall₂_map_left_iff, forall₂_map_right_iff]
      exact hall.imp fun _ _ hwire => hwire.1.symm
    rw [← hsources]
    refine pairwise_map.2 (b.outputsOf_pairwise.filterMap _ ?_)
    intro x y hne x' hx' y' hy'
    simp only [Option.ite_none_left_eq_some, Option.some.injEq] at hx' hy'
    rw [← hx'.2, ← hy'.2]
    exact hne
  · obtain ⟨d, hd, hlt⟩ := hl.source link hlink
    have hx : (link.source, _, b.links.filter (·.source = link.source)) ∈ linked :=
      hmem.2 ⟨mem_outputsOf.2 ⟨d, _, hd, getElem?_eq_getElem hlt, rfl⟩, rfl,
        ne_nil_of_mem (mem_filter.2 ⟨hlink, by simp⟩)⟩
    obtain ⟨k, hk⟩ := getElem?_of_mem hx
    obtain ⟨wire, hwire, hok⟩ := (mapM_spec h).2 hk
    exact ⟨wire, mem_of_getElem? hwire, (wire_eq_ok hok).1⟩

/-- every connection is read -/
theorem targets_ne_nil (h : b.wires = .ok ws) {wire : Wire} (hwire : wire ∈ ws) : wire.targets ≠ [] := by
  obtain ⟨⟨source, size, links⟩, hx, hok⟩ := exists_of_mapM h hwire
  obtain ⟨-, htargets, -, -⟩ := wire_eq_ok hok
  obtain ⟨p, -, hlinks⟩ := mem_filterMap.1 hx
  simp only [Option.ite_none_left_eq_some, Option.some.injEq, Prod.mk.injEq, List.isEmpty_iff] at hlinks
  obtain ⟨hne, -, -, rfl⟩ := hlinks
  rw [htargets]
  simpa using hne

section Ports

variable {w w' r r' : Nat} {wire' : Wire} {p : PortRef}

theorem Joins.source_unique (h : b.Joins ws) (hw : ws[w]? = some wire) (hw' : ws[w']? = some wire')
    (heq : wire.source = wire'.source) : w = w' := by
  have hk : (ws.map (·.source))[w]? = some wire.source := by rw [getElem?_map, hw]; rfl
  have hk' : (ws.map (·.source))[w']? = some wire.source := by rw [getElem?_map, hw', heq]; rfl
  exact (getElem?_inj (lt_of_getElem? hk) h.distinct).1 (hk.trans hk'.symm)

/-- the readers of a connection are the targets of links -/
theorem Joins.link_of_target (h : b.Joins ws) (hw : wire ∈ ws) (hp : p ∈ wire.targets) :
    ∃ link ∈ b.links, link.source = wire.source ∧ link.target = p := by
  rw [h.targets wire hw] at hp
  obtain ⟨link, hlink, rfl⟩ := mem_map.1 hp
  obtain ⟨hmem, hsource⟩ := mem_filter.1 hlink
  exact ⟨link, hmem, by simpa using hsource, rfl⟩

theorem WellLinked.target_inj (hl : b.WellLinked) {link link' : Link} (hmem : link ∈ b.links) (hmem' : link' ∈ b.links)
    (heq : link.target = link'.target) : link = link' :=
  inj_on_of_nodup_map hl.once hmem hmem' heq

/-- no input is read by two readers -/
theorem Joins.target_unique (h : b.Joins ws) (hl : b.WellLinked) (hw : ws[w]? = some wire) (hw' : ws[w']? = some wire')
    (hp : wire.targets[r]? = some p) (hp' : wire'.targets[r']? = some p) : w = w' ∧ r = r' := by
  obtain ⟨link, hlink, hsource, rfl⟩ := h.link_of_target (mem_of_getElem? hw) (mem_of_getElem? hp)
  obtain ⟨link', hlink', hsource', htarget⟩ := h.link_of_target (mem_of_getElem? hw') (mem_of_getElem? hp')
  obtain rfl := hl.target_inj hlink' hlink htarget
  obtain rfl := h.source_unique hw hw' (hsource.symm.trans hsource')
  rw [hw] at hw'
  cases hw'
  have hnodup : wire.targets.Nodup := by
    rw [h.targets wire (mem_of_getElem? hw)]
    exact hl.once.sublist (filter_sublist.map _)
  exact ⟨rfl, (getElem?_inj (lt_of_getElem? hp) hnodup).1 (hp.trans hp'.symm)⟩

end Ports

variable {p : PortRef} {d : Declared σ} {n : Network σ}

/-! ## Instances -/

theorem inputEnd?_eq_some {e : Attached InputEnd} (h : inputEnd? ws p = some e) :
    ∃ (wire : Wire) (r : Nat), ws[e.wire]? = some wire ∧ wire.targets[r]? = some p ∧ wire.inputs[r]? = some e.item := by
  simp only [inputEnd?, Option.bind_eq_bind, Option.bind_eq_some_iff, Option.pure_def, Option.some.injEq] at h
  obtain ⟨w, -, wire, hwire, r, hr, item, hitem, rfl⟩ := h
  obtain ⟨hlt, heq, -⟩ := findIdx?_eq_some_iff_getElem.1 hr
  refine ⟨wire, r, hwire, ?_, hitem⟩
  rw [getElem?_eq_getElem hlt]
  simpa using heq

theorem outputEnd?_eq_some {e : Attached OutputEnd} (h : outputEnd? ws p = some e) :
    ∃ wire, ws[e.wire]? = some wire ∧ wire.source = p ∧ e.item = wire.output := by
  simp only [outputEnd?, Option.bind_eq_bind, Option.bind_eq_some_iff, Option.pure_def, Option.some.injEq] at h
  obtain ⟨w, hw, wire, hwire, rfl⟩ := h
  obtain ⟨hlt, heq, -⟩ := findIdx?_eq_some_iff_getElem.1 hw
  rw [getElem?_eq_getElem hlt] at hwire
  cases hwire
  exact ⟨_, getElem?_eq_getElem hlt, by simpa using heq, rfl⟩

theorem endsOf_eq_ok {α : Type} {find : Nat → Option α} {fail : String → NetworkError} {k : Nat} {specs : List PortSpec}
    {ends : List α} (h : endsOf find fail k specs = .ok ends) :
    ends.length = specs.length ∧ ∀ {j e}, ends[j]? = some e → find (k + j) = some e := by
  induction specs generalizing k ends with
  | nil => cases h; exact ⟨rfl, by simp⟩
  | cons port rest ih =>
    unfold endsOf at h
    split at h
    · cases h
    next e he =>
    obtain ⟨more, hmore, h1⟩ := bind_eq_ok h
    cases h1
    obtain ⟨hlen, hfind⟩ := ih hmore
    refine ⟨by simp [hlen], fun {j x} hj => ?_⟩
    cases j with
    | zero => cases hj; exact he
    | succ j =>
      rw [show k + (j + 1) = k + 1 + j by omega]
      exact hfind hj

/-- a declared instance with the ends of its ports -/
structure Placed (ws : List Wire) (d : Declared σ) (inst : Instance σ) : Prop where
  inputs : inst.inputs.length = (Behaviour.interface d.actor).inputs.length
  outputs : inst.outputs.length = (Behaviour.interface d.actor).outputs.length
  input : ∀ {k e}, inst.inputs[k]? = some e →
    ∃ (wire : Wire) (r : Nat), ws[e.wire]? = some wire ∧ wire.targets[r]? = some ⟨inst.id, k⟩ ∧
    wire.inputs[r]? = some e.item
  output : ∀ {k} {e : Attached OutputEnd}, inst.outputs[k]? = some e →
    ∃ wire, ws[e.wire]? = some wire ∧ wire.source = ⟨inst.id, k⟩ ∧ e.item = wire.output
  fresh : inst = { id := inst.id, name := d.name, actor := d.actor, inputs := inst.inputs, outputs := inst.outputs }

theorem placed_of_instantiate {id : Nat} {inst : Instance σ} (h : instantiate ws id d = .ok inst) :
    inst.id = id ∧ Placed ws d inst := by
  obtain ⟨inputs, hin, h1⟩ := bind_eq_ok h
  obtain ⟨outputs, hout, h2⟩ := bind_eq_ok h1
  cases h2
  obtain ⟨hlenIn, hfindIn⟩ := endsOf_eq_ok hin
  obtain ⟨hlenOut, hfindOut⟩ := endsOf_eq_ok hout
  refine ⟨rfl, hlenIn, hlenOut, fun he => ?_, fun he => ?_, rfl⟩
  · have hfind := hfindIn he
    rw [Nat.zero_add] at hfind
    exact inputEnd?_eq_some hfind
  · have hfind := hfindOut he
    rw [Nat.zero_add] at hfind
    exact outputEnd?_eq_some hfind

/-- a network that is built of a builder over these connections -/
structure Built (b : Builder σ) (ws : List Wire) (n : Network σ) : Prop where
  wires : n.wires = ws.map (·.connection)
  ids : (n.instances.map (·.id)).Perm (List.range b.instances.length)
  placed : ∀ inst ∈ n.instances, ∃ d, b.instances[inst.id]? = some d ∧ Placed ws d inst

theorem built_of_build {mapping : Option Mapping} (h : b.build mapping = .ok n) :
    ∃ ws, b.wires = .ok ws ∧ b.Built ws n := by
  obtain ⟨ws, hws, h1⟩ := bind_eq_ok h
  obtain ⟨placed, hplaced, h2⟩ := bind_eq_ok h1
  cases h2
  obtain ⟨hlen, hget⟩ := mapM_spec (mapError_eq_ok hplaced)
  -- instance `i` stands at place `i`
  have hplace : ∀ {i}, i < b.instances.length → ∃ d inst, b.instances[i]? = some d ∧ placed[i]? = some inst ∧
      inst.id = i ∧ Placed ws d inst := by
    intro i hi
    have hd := getElem?_eq_getElem hi
    obtain ⟨inst, hinst, hok⟩ := hget (show b.instances.zipIdx[i]? = some (b.instances[i], i) by simp [hd])
    obtain ⟨hid, hp⟩ := placed_of_instantiate hok
    exact ⟨_, inst, hd, hinst, hid, hp⟩
  have hperm := b.placement_perm mapping
  have hinsts :
    Network.instances (⟨(b.placement mapping).map fun g => ⟨g.name, g.members.filterMap fun i => placed[i]?⟩,
      ws.map (·.connection), ws.map b.label⟩ : Network σ) = (Group.allMembers
      (b.placement mapping)).filterMap (placed[·]?) := by
    simp [Network.instances, flatMap_map, filterMap_flatMap]
  refine ⟨ws, hws, rfl, ?_, ?_⟩
  · rw [hinsts, map_filterMap]
    have hself : (Group.allMembers (b.placement mapping)).filterMap (fun i => placed[i]?.map (·.id)) =
        Group.allMembers (b.placement mapping) := by
      rw [filterMap_congr, filterMap_some]
      intro i hi
      obtain ⟨d, inst, -, hinst, rfl, -⟩ := hplace (mem_range.1 (hperm.mem_iff.1 hi))
      rw [hinst]
      rfl
    rw [hself]
    exact hperm
  · intro inst hinst
    rw [hinsts] at hinst
    obtain ⟨i, hi, hp⟩ := mem_filterMap.1 hinst
    obtain ⟨d, inst', hd, hinst', rfl, hplaced⟩ := hplace (mem_range.1 (hperm.mem_iff.1 hi))
    rw [hinst'] at hp
    cases hp
    exact ⟨d, hd, hplaced⟩

/-- every declared instance has its place -/
theorem Built.exists_instance (hb : b.Built ws n) {i : Nat} (hd : b.instances[i]? = some d) :
    ∃ inst ∈ n.instances, inst.id = i ∧ Placed ws d inst := by
  have hmem : i ∈ n.instances.map (·.id) :=
    hb.ids.mem_iff.2 (mem_range.2 (lt_of_getElem? hd))
  obtain ⟨inst, hinst, rfl⟩ := mem_map.1 hmem
  obtain ⟨d', hd', hplaced⟩ := hb.placed inst hinst
  rw [hd] at hd'
  cases hd'
  exact ⟨inst, hinst, rfl, hplaced⟩

/-! ## Hints -/

def unplaced (b : Builder σ) : Builder σ := { b with instances := b.instances.map fun d => { d with affinity := none } }

theorem outputsOf_unplaced (b : Builder σ) : b.unplaced.outputsOf = b.outputsOf := by
  simp [outputsOf, unplaced, zipIdx_map, flatMap_map]

/-- hints change no connection -/
theorem wires_unplaced (b : Builder σ) : b.unplaced.wires = b.wires := by
  simp only [wires, outputsOf_unplaced]
  rfl

theorem wires_eq_of_unplaced (h : b.unplaced = b'.unplaced) : b.wires = b'.wires := by
  rw [← wires_unplaced b, h, wires_unplaced]

/-- hints change no instance -/
theorem Built.rehint (hb : b'.Built ws n) (h : b.unplaced = b'.unplaced) : b.Built ws n := by
  have hinsts := congrArg instances h
  simp only [unplaced] at hinsts
  have hlen : b.instances.length = b'.instances.length := by simpa using congrArg length hinsts
  refine ⟨hb.wires, by rw [hlen]; exact hb.ids, fun inst hinst => ?_⟩
  obtain ⟨d', hd', hplaced⟩ := hb.placed inst hinst
  have hat := congrArg (·[inst.id]?) hinsts
  simp only [getElem?_map, hd', Option.map_some] at hat
  obtain ⟨d, hd, heq⟩ := Option.map_eq_some_iff.1 hat
  obtain ⟨hname, hactor, -⟩ := Declared.mk.inj heq
  refine ⟨d, hd, ?_⟩
  obtain ⟨hins, houts, hinput, houtput, hfresh⟩ := hplaced
  exact ⟨by rw [hactor]; exact hins, by rw [hactor]; exact houts, hinput, houtput, by rw [hname, hactor]; exact hfresh⟩

end Builder

end Dataflow
