import Dataflow.Proofs.BuilderWiring

/-!
What a build answers to any depth, for a builder with all its ports linked (`Builder.Ready`).

- `Builder.build_answers_depths`: the builder stays ready when a mapping sets depths and when the default depth is
  changed. Whatever the depths are, it is refused for its first output whose connection cannot be had
  (`Builder.Refused`), and builds if there is none. If no link asks for more than 2 ^ 63 tokens, the answer is a network
  or an error of a channel: a capacity that is invalid or storage that cannot be had. A capacity is invalid only for a
  connection that was asked to hold more than 2 ^ 31 tokens.
- Witness `Builder.build_answers_depths_pipe`.
- Counterexample `Builder.deepest_depth_overflows`: a depth above 2 ^ 63 is a fault.
-/

namespace Dataflow

open List

/-! ## The first error of a traversal -/

section Traversal

variable {ε α β : Type} {f : α → Except ε β} {e : ε}

theorem first_of_mapM_error {xs : List α} (h : xs.mapM f = .error e) :
    ∃ before x after, xs = before ++ x :: after ∧ (∀ y ∈ before, ∃ z, f y = .ok z) ∧ f x = .error e := by
  induction xs with
  | nil => cases h
  | cons x xs ih =>
    rw [mapM_cons] at h
    rcases bind_eq_error h with hx | ⟨z, hz, hrest⟩
    · exact ⟨[], x, xs, rfl, by simp, hx⟩
    rcases bind_eq_error hrest with hxs | ⟨zs, -, hpure⟩
    · obtain ⟨before, x', after, rfl, hbefore, hx'⟩ := ih hxs
      exact ⟨x :: before, x', after, rfl, forall_mem_cons.2 ⟨⟨z, hz⟩, hbefore⟩, hx'⟩
    · cases hpure

theorem mapM_error_of_first {before after : List α} {x : α} (hbefore : ∀ y ∈ before, ∃ z, f y = .ok z)
    (hx : f x = .error e) : (before ++ x :: after).mapM f = .error e := by
  induction before with
  | nil =>
    rw [nil_append, mapM_cons, hx]
    rfl
  | cons y before ih =>
    obtain ⟨⟨z, hz⟩, hbefore⟩ := forall_mem_cons.1 hbefore
    rw [cons_append, mapM_cons, hz, ih hbefore]
    rfl

end Traversal

/-! ## One connection -/

/-- why a connection of this depth and size of tokens cannot be had -/
inductive Refuses (c size : Nat) : Stop NetworkError → Prop where
  /-- more tokens than a channel holds -/
  | tooDeep (hdeep : 2 ^ 31 < c) (hword : c ≤ 2 ^ 63) : Refuses c size (.error (.channel (.invalidCapacity c 1)))
  /-- more bytes than can be had -/
  | tooLarge (hdepth : c ≤ 2 ^ 31) (hlarge : Region.grants (c * size) = false) :
    Refuses c size (.error (.channel (.allocationFailed (c * size) Region.alignment)))
  /-- a power of two that is no word -/
  | noWord (hdeep : 2 ^ 63 < c) : Refuses c size (.fault .overflow)

theorem refuses_or (c size : Nat) : (∃ stop, Refuses c size stop) ∨ c ≤ 2 ^ 31 ∧ Region.grants (c * size) := by
  by_cases hdepth : c ≤ 2 ^ 31
  · cases hlarge : Region.grants (c * size) with
    | false => exact .inl ⟨_, .tooLarge hdepth hlarge⟩
    | true => exact .inr ⟨hdepth, rfl⟩
  · by_cases hword : c ≤ 2 ^ 63
    · exact .inl ⟨_, .tooDeep (Nat.lt_of_not_le hdepth) hword⟩
    · exact .inl ⟨_, .noWord (Nat.lt_of_not_le hword)⟩

theorem IsDepth.exists_lt {depths : List Nat} {c k : Nat} (h : IsDepth depths c) (hlt : 2 ^ k < c) :
    ∃ d ∈ depths, 2 ^ k < d := by
  by_contra hnone
  push Not at hnone
  exact absurd (h.le_two_pow hnone) (Nat.not_le_of_lt hlt)

namespace Connection

variable {tokenSize readers k : Nat}

theorem create_tooDeep (hsize : 0 < tokenSize) (hreaders : 0 < readers) (hdeep : 2 ^ 31 < 2 ^ k) :
    create tokenSize (2 ^ k) readers = .error (.error (.invalidCapacity (2 ^ k) 1)) := by
  have hlarge : Region.largestCapacity < 2 ^ k := hdeep
  simp [create, Region.forTokens, hsize.ne', hreaders.ne', hlarge, bind, Except.bind]

theorem create_tooLarge (hsize : 0 < tokenSize) (hbound : tokenSize < 2 ^ 32) (hreaders : 0 < readers)
    (hdepth : 2 ^ k ≤ 2 ^ 31) (hlarge : Region.grants (2 ^ k * tokenSize) = false) :
    create tokenSize (2 ^ k) readers = .error (.error (.allocationFailed (2 ^ k * tokenSize) Region.alignment)) := by
  have hcapacity : ¬ (2 ^ k < 1 ∨ !Word.isPowerOfTwo (2 ^ k) ∨ Region.largestCapacity < 2 ^ k) := by
    simpa [isPowerOfTwo_two_pow, Region.largestCapacity] using hdepth
  have hword : 2 ^ k * tokenSize < Word.size64 := by
    calc 2 ^ k * tokenSize ≤ 2 ^ 31 * tokenSize := Nat.mul_le_mul_right _ hdepth
      _ < 2 ^ 31 * 2 ^ 32 := by omega
      _ < Word.size64 := by norm_num [Word.size64]
  have hpos : max (2 ^ k * tokenSize) 1 = 2 ^ k * tokenSize := max_eq_left (Nat.mul_pos (Nat.two_pow_pos k) hsize)
  rw [create, Region.forTokens, if_neg hsize.ne', if_neg hreaders.ne', if_neg hcapacity, Word.mul64_eq_ok hword]
  simp [Region.allocate, hpos, hlarge, bind, Except.bind]

end Connection

namespace Builder

variable {σ : Type} {b : Builder σ} {links : List Link} {source : PortRef} {tokenSize c : Nat}
  {stop : Stop NetworkError}

theorem depthOf_of_lt (hc : IsDepth (b.depths links) c) (hdeep : 2 ^ 63 < c) : b.depthOf links = .error .overflow := by
  have heq : Word.powerOfTwo ((b.depths links).foldl max 1) = c := (isDepth_powerOfTwo _).unique hc
  -- the next power of two is the first that is no word
  obtain ⟨⟨k, rfl⟩, -⟩ := hc.1
  have hk : 2 ^ 64 ≤ 2 ^ k := Nat.pow_le_pow_right (by norm_num) ((Nat.pow_lt_pow_iff_right (by norm_num)).1 hdeep)
  have hnot : ¬ 2 ^ k < Word.size64 := Nat.not_lt.2 hk
  simp only [depths] at heq
  simp [depthOf, heq, hnot]

theorem wire_of_create {e : Stop ChannelError} (hdepth : b.depthOf links = .ok c)
    (hcreate : Connection.create tokenSize c links.length = .error e) :
    b.wire source tokenSize links = .error (e.map .channel) := by
  have hlift : (liftM (Except.ok c : Checked Nat) : Except (Stop NetworkError) Nat) = .ok c := rfl
  simp only [wire, hdepth, hlift, hcreate, bind, Except.bind, Except.mapError]

/-- what stops the connection of one output -/
theorem wire_eq_error_iff (hsize : 0 < tokenSize) (hbound : tokenSize < 2 ^ 32) (hlinks : links ≠ [])
    (hreaders : links.length * Region.readerBytes ≤ Word.signedMax64) (hc : IsDepth (b.depths links) c) :
    b.wire source tokenSize links = .error stop ↔ Refuses c tokenSize stop := by
  have hpos := length_pos_iff.2 hlinks
  have hstop : ∀ {stop}, Refuses c tokenSize stop → b.wire source tokenSize links = .error stop := by
    intro stop hrefuses
    obtain ⟨⟨k, hk⟩, -⟩ := hc.1
    cases hrefuses with
    | tooDeep hdeep hword =>
      have hcreate := Connection.create_tooDeep hsize hpos (hk ▸ hdeep)
      exact wire_of_create (depthOf_eq_ok hc hword) (hk ▸ hcreate)
    | tooLarge hdepth hlarge =>
      have hcreate := Connection.create_tooLarge hsize hbound hpos (hk ▸ hdepth) (hk ▸ hlarge)
      exact wire_of_create (depthOf_eq_ok hc (hdepth.trans (by norm_num))) (hk ▸ hcreate)
    | noWord hdeep =>
      rw [wire, depthOf_of_lt hc hdeep]
      rfl
  refine ⟨fun h => ?_, hstop⟩
  rcases refuses_or c tokenSize with ⟨stop', hrefuses⟩ | ⟨hdepth, hlimit⟩
  · have heq := hstop hrefuses
    rw [h] at heq
    cases heq
    exact hrefuses
  · obtain ⟨wire, hok⟩ := wire_ok source hsize hlinks hc (fun d hd => (hc.1.2 d hd).trans hdepth) hlimit hreaders
    rw [h] at hok
    cases hok

/-! ## All connections -/

section Builds

variable [Behaviour σ] {ws : List Wire} {mapping : Option Mapping} {x : PortRef × Nat}

def linksOf (b : Builder σ) (source : PortRef) : List Link := b.links.filter (·.source = source)

/-- all declared ports are linked, whatever the depths, and every token has a size of 32 bits -/
structure Ready (b : Builder σ) : Prop where
  links : b.WellLinked
  inputs : ∀ p, b.HasInput p → ∃ link ∈ b.links, link.target = p
  outputs : ∀ p, b.HasOutput p → ∃ link ∈ b.links, link.source = p
  sizes : ∀ x ∈ b.outputsOf, 0 < x.2 ∧ x.2 < 2 ^ 32
  /-- a word for each link fits into memory, as the links themselves do -/
  fits : b.links.length * Region.readerBytes ≤ Word.signedMax64

/-- an output whose connection cannot be had, and why -/
def Refused (b : Builder σ) (x : PortRef × Nat) (stop : Stop NetworkError) : Prop :=
  ∃ c, IsDepth (b.depths (b.linksOf x.1)) c ∧ Refuses c x.2 stop

section

variable (h : b.Ready)

include h

theorem Ready.linksOf_ne_nil (hx : x ∈ b.outputsOf) : b.linksOf x.1 ≠ [] := by
  obtain ⟨d, port, hd, hport, -⟩ := mem_outputsOf.1 hx
  obtain ⟨link, hlink, hsource⟩ := h.outputs x.1 ⟨d, hd, lt_of_getElem? hport⟩
  exact ne_nil_of_mem (mem_filter.2 ⟨hlink, by simpa using hsource⟩)

/-- with all ports linked, every output gets a connection -/
theorem Ready.wires_eq : b.wires = b.outputsOf.mapM fun x => b.wire x.1 x.2 (b.linksOf x.1) := by
  unfold wires
  rw [filterMap_congr (g := fun x => some (x.1, x.2, b.linksOf x.1)), filterMap_eq_map', mapM_map]
  · rfl
  · intro x hx
    exact if_neg fun hempty => h.linksOf_ne_nil hx (isEmpty_iff.1 hempty)

theorem Ready.wire_eq_error_iff (hx : x ∈ b.outputsOf) :
    b.wire x.1 x.2 (b.linksOf x.1) = .error stop ↔ b.Refused x stop := by
  obtain ⟨hsize, hbound⟩ := h.sizes x hx
  have hreaders : (b.linksOf x.1).length * Region.readerBytes ≤ Word.signedMax64 :=
    (Nat.mul_le_mul_right _ (length_filter_le _ _)).trans h.fits
  have hiff : ∀ {c}, IsDepth (b.depths (b.linksOf x.1)) c →
      (b.wire x.1 x.2 (b.linksOf x.1) = .error stop ↔ Refuses c x.2 stop) := fun hc =>
    Builder.wire_eq_error_iff hsize hbound (h.linksOf_ne_nil hx) hreaders hc
  refine ⟨fun herror => ⟨_, isDepth_powerOfTwo _, (hiff (isDepth_powerOfTwo _)).1 herror⟩, ?_⟩
  rintro ⟨c, hc, hrefuses⟩
  exact (hiff hc).2 hrefuses

/-- an output that is not refused has its connection -/
theorem Ready.wire_eq_ok_iff (hx : x ∈ b.outputsOf) :
    (∃ wire, b.wire x.1 x.2 (b.linksOf x.1) = .ok wire) ↔ ∀ stop, ¬ b.Refused x stop := by
  simp only [← h.wire_eq_error_iff hx]
  cases b.wire x.1 x.2 (b.linksOf x.1) <;> simp

/-- once all connections are made, a build answers -/
theorem Ready.build_ok (hws : b.wires = .ok ws) : ∃ n, b.build mapping = .ok n := by
  cases hbuild : b.build mapping with
  | ok n => exact ⟨n, rfl⟩
  | error stop =>
    have hjoins := joins_of_wires h.links hws
    obtain ⟨-, ⟨p, hp, hnone⟩ | ⟨p, hp, hnone⟩⟩ := build_eq_error hws hbuild
    · obtain ⟨link, hlink, rfl⟩ := h.inputs p hp
      exact absurd hnone (inputEnd?_of_link hws hjoins hlink)
    · obtain ⟨link, hlink, rfl⟩ := h.outputs p hp
      exact absurd hnone (outputEnd?_of_link hjoins hlink)

theorem Ready.build_eq_error_iff : b.build mapping = .error stop ↔ b.wires = .error stop := by
  cases hws : b.wires with
  | error stop' =>
    have hbuild : b.build mapping = .error stop' := by
      rw [build, hws]
      rfl
    rw [hbuild]
    simp
  | ok ws =>
    obtain ⟨n, hbuild⟩ : ∃ n, b.build mapping = .ok n := h.build_ok hws
    simp [hbuild]

/-- which depths links ask for does not matter -/
theorem Ready.applySizes (m : Mapping) : (b.applySizes m).Ready := by
  obtain ⟨f, hlinks, hports⟩ := b.applySizes_links m
  have htargets : (b.links.map f).map (·.target) = b.links.map (·.target) := by
    rw [map_map]
    exact map_congr_left fun l _ => (hports l).2
  refine ⟨⟨?_, ?_, ?_⟩, fun p hp => ?_, fun p hp => ?_, h.sizes, ?_⟩
  · rw [hlinks]
    exact forall_mem_map.2 fun l hl => (hports l).1 ▸ h.links.source l hl
  · rw [hlinks]
    exact forall_mem_map.2 fun l hl => (hports l).2 ▸ h.links.target l hl
  · rw [hlinks, htargets]
    exact h.links.once
  · obtain ⟨l, hl, rfl⟩ := h.inputs p hp
    exact ⟨f l, hlinks ▸ mem_map_of_mem hl, (hports l).2⟩
  · obtain ⟨l, hl, rfl⟩ := h.outputs p hp
    exact ⟨f l, hlinks ▸ mem_map_of_mem hl, (hports l).1⟩
  · rw [hlinks, length_map]
    exact h.fits

theorem Ready.defaultDepth (depth : Nat) : ({ b with defaultDepth := depth } : Builder σ).Ready :=
  ⟨⟨h.links.source, h.links.target, h.links.once⟩, h.inputs, h.outputs, h.sizes, h.fits⟩

/-- a build is refused for the first output that is -/
theorem Ready.build_refused_iff : b.build mapping = .error stop ↔
    ∃ before x after, b.outputsOf = before ++ x :: after ∧ (∀ y ∈ before, ∀ stop', ¬ b.Refused y stop') ∧
    b.Refused x stop := by
  rw [h.build_eq_error_iff, h.wires_eq]
  constructor
  · intro herror
    obtain ⟨before, x, after, hsplit, hbefore, hx⟩ := first_of_mapM_error herror
    refine ⟨before, x, after, hsplit, fun y hy => ?_, ?_⟩
    · exact (h.wire_eq_ok_iff (hsplit ▸ mem_append_left _ hy)).1 (hbefore y hy)
    · exact (h.wire_eq_error_iff (hsplit ▸ mem_append_right _ mem_cons_self)).1 hx
  · rintro ⟨before, x, after, hsplit, hbefore, hx⟩
    have hall : ∀ y ∈ before, ∃ wire, b.wire y.1 y.2 (b.linksOf y.1) = .ok wire := fun y hy =>
      (h.wire_eq_ok_iff (hsplit ▸ mem_append_left _ hy)).2 (hbefore y hy)
    rw [hsplit]
    exact mapM_error_of_first hall ((h.wire_eq_error_iff (hsplit ▸ mem_append_right _ mem_cons_self)).2 hx)

theorem Ready.build_ok_iff : (∃ n, b.build mapping = .ok n) ↔ ∀ x ∈ b.outputsOf, ∀ stop, ¬ b.Refused x stop := by
  constructor
  · rintro ⟨n, hbuild⟩ x hx stop hrefused
    obtain ⟨ws, hws, -⟩ := built_of_build hbuild
    rw [h.wires_eq] at hws
    obtain ⟨k, hk⟩ := getElem?_of_mem hx
    obtain ⟨wire, -, hwire⟩ := (mapM_spec hws).2 hk
    exact (h.wire_eq_ok_iff hx).1 ⟨wire, hwire⟩ stop hrefused
  · intro hall
    obtain ⟨ws, hws⟩ := mapM_ok fun x hx => (h.wire_eq_ok_iff hx).2 (hall x hx)
    exact h.build_ok (h.wires_eq.trans hws)

end

end Builds

/-- Whatever the depths are, a ready builder builds or is refused for its first output without a connection. -/
theorem build_answers_depths {σ : Type} [Behaviour σ] {b : Builder σ} (h : b.Ready) :
    (∀ m, (b.applySizes m).Ready) ∧ (∀ depth, ({ b with defaultDepth := depth } : Builder σ).Ready) ∧
    ∀ mapping,
      ((∃ n, b.build mapping = .ok n) ↔ ∀ x ∈ b.outputsOf, ∀ stop, ¬ b.Refused x stop) ∧
      (∀ stop, b.build mapping = .error stop ↔ ∃ before x after, b.outputsOf = before ++ x :: after ∧
        (∀ y ∈ before, ∀ stop', ¬ b.Refused y stop') ∧ b.Refused x stop) ∧
      ((∀ link ∈ b.links, link.depth.getD b.defaultDepth ≤ 2 ^ 63) → (∃ n, b.build mapping = .ok n) ∨
        (∃ c, b.build mapping = .error (.error (.channel (.invalidCapacity c 1)))) ∨
        ∃ bytes, b.build mapping = .error (.error (.channel (.allocationFailed bytes Region.alignment)))) ∧
      ∀ c minimum, b.build mapping = .error (.error (.channel (.invalidCapacity c minimum))) →
        ∃ source, b.HasOutput source ∧ IsDepth (b.depths (b.linksOf source)) c ∧
          ∃ link ∈ b.links, link.source = source ∧ 2 ^ 31 < link.depth.getD b.defaultDepth := by
  refine ⟨h.applySizes, h.defaultDepth, fun mapping => ⟨h.build_ok_iff, fun _ => h.build_refused_iff, fun hdepths => ?_,
    fun c minimum herror => ?_⟩⟩
  · cases hbuild : b.build mapping with
    | ok n => exact .inl ⟨n, rfl⟩
    | error stop =>
      obtain ⟨before, x, after, -, -, c, hc, hrefuses⟩ := h.build_refused_iff.1 hbuild
      cases hrefuses with
      | tooDeep => exact .inr (.inl ⟨c, rfl⟩)
      | tooLarge => exact .inr (.inr ⟨_, rfl⟩)
      | noWord hdeep =>
        obtain ⟨d, hd, hlt⟩ := hc.exists_lt hdeep
        obtain ⟨link, hlink, rfl⟩ := mem_map.1 hd
        exact absurd hlt (Nat.not_lt.2 (hdepths link (mem_filter.1 hlink).1))
  · obtain ⟨before, x, after, hsplit, -, c', hc, hrefuses⟩ := h.build_refused_iff.1 herror
    cases hrefuses with
    | tooDeep hdeep =>
      obtain ⟨d, port, hd, hport, -⟩ := mem_outputsOf.1 (hsplit ▸ mem_append_right before (mem_cons_self))
      obtain ⟨depth, hdepth, hlt⟩ := hc.exists_lt hdeep
      obtain ⟨link, hlink, rfl⟩ := mem_map.1 hdepth
      obtain ⟨hmem, hsource⟩ := mem_filter.1 hlink
      exact ⟨x.1, ⟨d, hd, lt_of_getElem? hport⟩, hc, link, hmem, by simpa using hsource, hlt⟩

/-- numbers for one sink over a connection of a depth -/
def pipe (depth : Nat) : Builder Component where
  instances := [⟨"a", .source { feed := .range 0 3 }, none⟩, ⟨"b", .sink {}, none⟩]
  links := [⟨⟨0, 0⟩, ⟨1, 0⟩, some depth⟩]

theorem pipe_ready (depth : Nat) : (pipe depth).Ready := by
  have hout : ∀ p, (pipe depth).HasOutput p ↔ p = ⟨0, 0⟩ := by
    rintro ⟨_ | _ | i, port⟩ <;>
      simp [HasOutput, pipe, Behaviour.interface, Component.interface, Source.interface, Sink.interface]
  have hin : ∀ p, (pipe depth).HasInput p ↔ p = ⟨1, 0⟩ := by
    rintro ⟨_ | _ | i, port⟩ <;>
      simp [HasInput, pipe, Behaviour.interface, Component.interface, Source.interface, Sink.interface]
  have hlink : ∀ link ∈ (pipe depth).links, link.source = ⟨0, 0⟩ ∧ link.target = ⟨1, 0⟩ := by simp [pipe]
  refine ⟨⟨fun link hl => (hout _).2 (hlink link hl).1, fun link hl => (hin _).2 (hlink link hl).2, by simp [pipe]⟩,
    fun p hp => ?_, fun p hp => ?_, ?_, ?_⟩
  · exact ⟨_, mem_singleton_self _, ((hin p).1 hp).symm⟩
  · exact ⟨_, mem_singleton_self _, ((hout p).1 hp).symm⟩
  · change ∀ x ∈ [((⟨0, 0⟩ : PortRef), 4)], 0 < x.2 ∧ x.2 < 2 ^ 32
    simp
  · change 1 * Region.readerBytes ≤ Word.signedMax64
    decide

/-- any capacity that a channel can have is built if there is storage for it, and the next depth is an invalid one -/
theorem build_answers_depths_pipe : (∃ n, (pipe (2 ^ 2)).build none = .ok n) ∧
    (Region.grants (2 ^ 31 * 4) → ∃ n, (pipe (2 ^ 31)).build none = .ok n) ∧
    (pipe (2 ^ 31 + 1)).build none = .error (.error (.channel (.invalidCapacity (2 ^ 32) 1))) := by
  have hbuilds : ∀ c, IsDepth [c] c → c ≤ 2 ^ 31 → Region.grants (c * 4) → ∃ n, (pipe c).build none = .ok n := by
    intro c hdepth hle hgrants
    obtain ⟨-, -, hanswers⟩ := build_answers_depths (pipe_ready c)
    refine (hanswers none).1.2 fun x hx stop => ?_
    obtain rfl : x = (⟨0, 0⟩, 4) := mem_singleton.1 hx
    rintro ⟨c', hc', hrefuses⟩
    obtain rfl : c' = c := hc'.unique hdepth
    cases hrefuses with
    | tooDeep hdeep => omega
    | tooLarge _ hlarge => simp_all
    | noWord hdeep => omega
  obtain ⟨-, -, hnext⟩ := build_answers_depths (pipe_ready (2 ^ 31 + 1))
  have hdepth : IsDepth [2 ^ 31 + 1] (2 ^ 32) := isDepth_powerOfTwo [2 ^ 31 + 1]
  refine ⟨hbuilds _ (isDepth_powerOfTwo [2 ^ 2]) (by norm_num) rfl, hbuilds _ (isDepth_powerOfTwo [2 ^ 31]) le_rfl,
    ((hnext none).2.1 _).2 ⟨[], (⟨0, 0⟩, 4), [], rfl, by simp, _, hdepth, .tooDeep (by norm_num) (by norm_num)⟩⟩

/-- half of all words and one more: a depth that fits into a word, but its power of two does not -/
theorem deepest_depth_overflows : (pipe (2 ^ 63 + 1)).Ready ∧ 2 ^ 63 + 1 < Word.size64 ∧
    (pipe (2 ^ 63 + 1)).build none = .error (.fault .overflow) :=
  ⟨pipe_ready _, by decide, rfl⟩

end Builder

end Dataflow
