import Dataflow.Proofs.RunAccounting

/-!
Nobody is lost when instances are placed.

- `placement_loses_nobody`: the groups of a mapping, whatever it says, hold every instance once (`Group.Covers`), and
  none is empty. With distinct names each instance is in the first partition that names it, in the order of that
  partition, and those who are named nowhere are together in the default partition (`Mapping.Seats`). Groups by hints
  hold every instance once as well, together exactly with those that ask for the same (`Group.ByHints`). A builder has
  distinct names; what it builds has these groups as partitions, with the instances that were declared, and after any
  runs the report lists them all, in the order in which they were declared.
- Witness `placement_loses_nobody_crossed`.

Premises: actors work through their ports, which is what the report needs.
-/

namespace Dataflow

open List

/-! ## Groups -/

namespace Group

variable {groups : List Group} {name : String} {extra : List Nat} {n i : Nat} {hints : List (Option String)}

/-- groups of the first `n` positions: none is empty, and every position is in one of them, once -/
structure Covers (n : Nat) (groups : List Group) : Prop where
  nonempty : ∀ g ∈ groups, g.members ≠ []
  once : (allMembers groups).Perm (List.range n)

/-- more members for the first group of a name, or for a new group at the end -/
inductive Takes (name : String) (extra : List Nat) : List Group → List Group → Prop where
  | first {before after : List Group} {members : List Nat} (h : ∀ g ∈ before, g.name ≠ name) :
    Takes name extra (before ++ ⟨name, members⟩ :: after) (before ++ ⟨name, members ++ extra⟩ :: after)
  | new {groups : List Group} (h : ∀ g ∈ groups, g.name ≠ name) : Takes name extra groups (groups ++ [⟨name, extra⟩])

theorem takes_add (name : String) (extra : List Nat) (groups : List Group) :
    Takes name extra groups (add name extra groups) := by
  induction groups with
  | nil => exact @Takes.new _ _ [] (by simp)
  | cons g rest ih =>
    unfold add
    split
    · next hname =>
      subst hname
      exact @Takes.first _ _ [] _ _ (by simp)
    next hname =>
    generalize add name extra rest = rest' at ih
    cases ih with
    | @first before _ _ h => exact @Takes.first _ _ (g :: before) _ _ (forall_mem_cons.2 ⟨hname, h⟩)
    | new h => exact @Takes.new _ _ (g :: rest) (forall_mem_cons.2 ⟨hname, h⟩)

theorem Takes.nonempty {groups' : List Group} (h : Takes name extra groups groups') (hextra : extra ≠ [])
    (hall : ∀ g ∈ groups, g.members ≠ []) : ∀ g ∈ groups', g.members ≠ [] := by
  cases h with
  | first =>
    simp only [forall_mem_append, forall_mem_cons] at hall ⊢
    exact ⟨hall.1, by simpa using fun _ => hextra, hall.2.2⟩
  | new => exact forall_mem_append.2 ⟨hall, forall_mem_singleton.2 hextra⟩

/-! ### Hints -/

/-- the partition that an instance asks for -/
def wish (hints : List (Option String)) (i : Nat) : String := (hints.getD i none).getD defaultPartition

/-- instances share a group exactly if they ask for the same partition; each group lists its members as they were
declared -/
structure ByHints (hints : List (Option String)) (groups : List Group) : Prop where
  share : ∀ {i j}, i < hints.length → j < hints.length →
    ((∃ g ∈ groups, i ∈ g.members ∧ j ∈ g.members) ↔ wish hints i = wish hints j)
  named : ∀ g ∈ groups, ∀ i ∈ g.members, wish hints i = g.name
  order : ∀ g ∈ groups, g.members.Pairwise (· < ·)

/-- the groups of the first `n` positions by what they ask for -/
structure Sorted (wish : Nat → String) (n : Nat) (groups : List Group) : Prop where
  names : (groups.map (·.name)).Nodup
  members : ∀ g ∈ groups, g.members = (List.range n).filter (wish · = g.name)
  found : ∀ i < n, ∃ g ∈ groups, g.name = wish i

theorem filter_range_succ (p : Nat → Bool) (n : Nat) :
    (range (n + 1)).filter p = (range n).filter p ++ if p n then [n] else [] := by
  rw [range_succ, filter_append]
  cases h : p n <;> simp [h]

theorem Sorted.add {wish : Nat → String} (h : Sorted wish n groups) :
    Sorted wish (n + 1) (add (wish n) [n] groups) := by
  have hother : ∀ {g : Group}, g.members = (range n).filter (wish · = g.name) → g.name ≠ wish n →
      g.members = (range (n + 1)).filter (wish · = g.name) := by
    intro g hg hne
    rw [filter_range_succ, if_neg (by simpa using hne.symm), append_nil, hg]
  have htakes := takes_add (wish n) [n] groups
  generalize Group.add (wish n) [n] groups = groups' at htakes
  cases htakes with
  | @first before after members hbefore =>
    obtain ⟨hnodup, hmembers, hfound⟩ := h
    have hafter : ∀ g ∈ after, g.name ≠ wish n := by
      intro g hg heq
      rw [map_append, map_cons] at hnodup
      exact (nodup_cons.1 (nodup_append.1 hnodup).2.1).1 (mem_map.2 ⟨g, hg, heq⟩)
    simp only [forall_mem_append, forall_mem_cons] at hmembers
    refine ⟨by simpa using hnodup, ?_, fun i hi => ?_⟩
    · simp only [forall_mem_append, forall_mem_cons]
      refine ⟨fun g hg => hother (hmembers.1 g hg) (hbefore g hg), ?_,
        fun g hg => hother (hmembers.2.2 g hg) (hafter g hg)⟩
      rw [filter_range_succ, if_pos (by simp), ← hmembers.2.1]
    · rcases Nat.lt_succ_iff_lt_or_eq.1 hi with hi | rfl
      · obtain ⟨g, hg, hname⟩ := hfound i hi
        simp only [mem_append, mem_cons] at hg ⊢
        rcases hg with hg | rfl | hg
        · exact ⟨g, .inl hg, hname⟩
        · exact ⟨_, .inr (.inl rfl), hname⟩
        · exact ⟨g, .inr (.inr hg), hname⟩
      · exact ⟨_, mem_append_right _ mem_cons_self, rfl⟩
  | new hnew =>
    obtain ⟨hnodup, hmembers, hfound⟩ := h
    refine ⟨?_, ?_, fun i hi => ?_⟩
    · rw [map_append, map_singleton]
      refine nodup_append.2 ⟨hnodup, nodup_singleton _, ?_⟩
      intro a ha b hb
      obtain ⟨g, hg, rfl⟩ := mem_map.1 ha
      rw [mem_singleton.1 hb]
      exact hnew g hg
    · refine forall_mem_append.2 ⟨fun g hg => hother (hmembers g hg) (hnew g hg), forall_mem_singleton.2 ?_⟩
      -- whoever asked for it before would have made the group
      have hnone : (range n).filter (wish · = wish n) = [] := by
        refine filter_eq_nil_iff.2 fun i hi heq => ?_
        obtain ⟨g, hg, hname⟩ := hfound i (mem_range.1 hi)
        exact hnew g hg (hname.trans (by simpa using heq))
      rw [filter_range_succ, hnone, if_pos (by simp), nil_append]
    · rcases Nat.lt_succ_iff_lt_or_eq.1 hi with hi | rfl
      · obtain ⟨g, hg, hname⟩ := hfound i hi
        exact ⟨g, mem_append_left _ hg, hname⟩
      · exact ⟨_, mem_append_right _ (mem_singleton_self _), rfl⟩

theorem Sorted.byHint {rest : List (Option String)} (h : Sorted (wish hints) i groups) (hrest : hints.drop i = rest)
    (hi : i ≤ hints.length) : Sorted (wish hints) hints.length (byHint i rest groups) := by
  induction rest generalizing i groups with
  | nil =>
    have heq : i = hints.length := le_antisymm hi (drop_eq_nil_iff.1 hrest)
    exact heq ▸ h
  | cons hint rest ih =>
    have hget : hints[i]? = some hint := by rw [← head?_drop, hrest]; rfl
    have hlt := lt_of_getElem? hget
    have hwish : hint.getD defaultPartition = wish hints i := by rw [wish, getD_eq_getElem?_getD, hget]; rfl
    rw [byHint, hwish]
    refine ih h.add ?_ hlt
    rw [← drop_drop, hrest]
    rfl

theorem Sorted.byHints (h : Sorted (wish hints) hints.length groups) : ByHints hints groups := by
  have hmem : ∀ {g}, g ∈ groups → ∀ {i}, i ∈ g.members ↔ i < hints.length ∧ wish hints i = g.name := by
    intro g hg i
    simp [h.members g hg]
  refine ⟨fun {i j} hi hj => ⟨?_, fun heq => ?_⟩, fun g hg i hi => ((hmem hg).1 hi).2, fun g hg => ?_⟩
  · rintro ⟨g, hg, hgi, hgj⟩
    exact ((hmem hg).1 hgi).2.trans ((hmem hg).1 hgj).2.symm
  · obtain ⟨g, hg, hname⟩ := h.found i hi
    exact ⟨g, hg, (hmem hg).2 ⟨hi, hname.symm⟩, (hmem hg).2 ⟨hj, heq ▸ hname.symm⟩⟩
  · rw [h.members g hg]
    exact pairwise_lt_range.filter _

theorem sorted_byHint (hints : List (Option String)) : Sorted (wish hints) hints.length (byHint 0 hints []) := by
  refine Sorted.byHint ⟨by simp, by simp, by simp⟩ ?_ (Nat.zero_le _)
  exact drop_zero

theorem byHint_nonempty (i : Nat) (hints : List (Option String)) (h : ∀ g ∈ groups, g.members ≠ []) :
    ∀ g ∈ byHint i hints groups, g.members ≠ [] := by
  induction hints generalizing i groups with
  | nil => exact h
  | cons hint rest ih => exact ih (i + 1) ((takes_add _ _ groups).nonempty (cons_ne_nil _ _) h)

/-- grouping by hints loses nobody -/
theorem covers_byHint (hints : List (Option String)) : Covers hints.length (byHint 0 hints []) :=
  ⟨byHint_nonempty 0 hints (by simp), by simpa [range_eq_range'] using byHint_perm 0 hints []⟩

end Group

/-! ## Mappings -/

namespace Mapping

variable {m : Mapping} {names asked : List String} {placed : List Nat} {partitions : List PartitionSpec} {name : String}
  {i j k : Nat}

theorem place_nonempty (names : List String) (placed : List Nat) (partitions : List PartitionSpec) :
    ∀ g ∈ place names placed partitions, g.members ≠ [] := by
  induction partitions generalizing placed with
  | nil => simp [place]
  | cons p rest ih =>
    rw [place]
    split
    · exact ih _
    · next hsome => exact forall_mem_cons.2 ⟨by simpa using hsome, ih _⟩

/-- a mapping loses nobody -/
theorem covers_assign (m : Mapping) (names : List String) : Group.Covers names.length (m.assign names) := by
  refine ⟨?_, m.assign_perm names⟩
  have hplaced := place_nonempty names [] m.partitions
  unfold assign
  dsimp only
  split
  · exact hplaced
  · next hsome => exact (Group.takes_add _ _ _).nonempty (by simpa using hsome) hplaced

/-! ### Who sits where -/

/-- the first partition that names an instance -/
def home? (m : Mapping) (name : String) : Option Nat := m.partitions.findIdx? (·.instances.contains name)

/-- the instances that no partition names, as they were declared -/
def strangers (m : Mapping) (names : List String) : List Nat :=
  (List.range names.length).filter fun i => names[i]?.all fun name => (m.home? name).isNone

/-- the groups of those partitions that have members -/
def settled (partitions : List PartitionSpec) (rooms : List (List Nat)) : List Group :=
  (partitions.zip rooms).filterMap fun x => if x.2.isEmpty then none else some ⟨x.1.id, x.2⟩

/-- the groups of a mapping, where `rooms` has the members that each of its partitions names -/
structure Seats (m : Mapping) (names : List String) (rooms : List (List Nat)) (groups : List Group) : Prop where
  count : rooms.length = m.partitions.length
  /-- an instance sits in the first partition that names it -/
  home : ∀ {k room}, rooms[k]? = some room →
    ∀ i, i ∈ room ↔ ∃ name, names[i]? = some name ∧ m.home? name = some k
  /-- the members of a partition follow the order in which it first names them -/
  order : ∀ {k : Nat} {room p}, rooms[k]? = some room → m.partitions[k]? = some p →
    room.Pairwise fun i j => ∀ a b, names[i]? = some a → names[j]? = some b → p.instances.idxOf a < p.instances.idxOf b
  /-- those who are named nowhere go to the default partition, behind the members it has -/
  rest : if m.strangers names = [] then groups = settled m.partitions rooms
    else Group.Takes defaultPartition (m.strangers names) (settled m.partitions rooms) groups

theorem getElem?_of_lastIndex? (h : lastIndex? name k names = some j) : ∃ i, j = k + i ∧ names[i]? = some name := by
  induction names generalizing k with
  | nil => cases h
  | cons first rest ih =>
    unfold lastIndex? at h
    split at h
    · next hrest =>
      cases h
      obtain ⟨i, rfl, hi⟩ := ih hrest
      exact ⟨i + 1, by omega, hi⟩
    · split at h
      · next heq =>
        cases h
        exact ⟨0, rfl, congrArg some heq⟩
      · cases h

theorem not_mem_of_lastIndex? (h : lastIndex? name k names = none) : name ∉ names := by
  induction names generalizing k with
  | nil => exact not_mem_nil
  | cons first rest ih =>
    unfold lastIndex? at h
    split at h
    · cases h
    next hrest =>
    split at h
    · cases h
    next hne => exact fun hmem => (mem_cons.1 hmem).elim (fun heq => hne heq.symm) (ih hrest)

/-- with distinct names, the last position of a name is its only one -/
theorem lastIndex?_eq_some_iff (hnames : names.Nodup) : lastIndex? name 0 names = some i ↔ names[i]? = some name := by
  have hunique : ∀ {j}, names[i]? = some name → names[j]? = some name → i = j := fun hi hj =>
    (getElem?_inj (lt_of_getElem? hi) hnames).1 (hi.trans hj.symm)
  constructor
  · intro h
    obtain ⟨j, rfl, hj⟩ := getElem?_of_lastIndex? h
    rwa [Nat.zero_add]
  · intro hi
    cases hlast : lastIndex? name 0 names with
    | none => exact absurd (mem_of_getElem? hi) (not_mem_of_lastIndex? hlast)
    | some j =>
      obtain ⟨j, rfl, hj⟩ := getElem?_of_lastIndex? hlast
      rw [hunique hi hj, Nat.zero_add]

/-- a partition gets those whom it names and who have no place yet -/
theorem mem_membersOf (hnames : names.Nodup) :
    i ∈ membersOf names placed asked ↔ i ∉ placed ∧ ∃ name ∈ asked, names[i]? = some name := by
  induction asked generalizing placed with
  | nil => simp [membersOf]
  | cons first rest ih =>
    unfold membersOf
    split
    · next k hk =>
      have hk := (lastIndex?_eq_some_iff hnames).1 hk
      have hown : names[i]? = some first ↔ i = k := by
        refine ⟨fun hi => ?_, fun heq => heq ▸ hk⟩
        exact (getElem?_inj (lt_of_getElem? hi) hnames).1 (hi.trans hk.symm)
      split
      · next hplaced =>
        rw [ih, exists_mem_cons_iff, hown]
        have hk' : k ∈ placed := by simpa using hplaced
        constructor
        · rintro ⟨hnew, hrest⟩
          exact ⟨hnew, .inr hrest⟩
        · rintro ⟨hnew, rfl | hrest⟩
          · exact absurd hk' hnew
          · exact ⟨hnew, hrest⟩
      · next hplaced =>
        have hk' : k ∉ placed := by simpa using hplaced
        rw [mem_cons, ih, exists_mem_cons_iff, hown, mem_cons, not_or]
        constructor
        · rintro (rfl | ⟨⟨-, hnew⟩, hrest⟩)
          · exact ⟨hk', .inl rfl⟩
          · exact ⟨hnew, .inr hrest⟩
        · rintro ⟨hnew, rfl | hrest⟩
          · exact .inl rfl
          · by_cases heq : i = k
            · exact .inl heq
            · exact .inr ⟨⟨heq, hnew⟩, hrest⟩
    · next hnone =>
      have hunknown : names[i]? ≠ some first := fun hi => not_mem_of_lastIndex? hnone (mem_of_getElem? hi)
      rw [ih, exists_mem_cons_iff]
      simp [hunknown]

/-- members come in the order in which they are first named -/
theorem membersOf_order (hnames : names.Nodup) : (membersOf names placed asked).Pairwise fun i j =>
    ∀ a b, names[i]? = some a → names[j]? = some b → asked.idxOf a < asked.idxOf b := by
  induction asked generalizing placed with
  | nil => exact Pairwise.nil
  | cons first rest ih =>
    -- who is named later has moved by one place
    have hlater : ∀ {placed'}, (∀ i ∈ membersOf names placed' rest, names[i]? ≠ some first) →
        (membersOf names placed' rest).Pairwise fun i j =>
          ∀ a b, names[i]? = some a → names[j]? = some b → (first :: rest).idxOf a < (first :: rest).idxOf b := by
      intro placed' hne
      refine Pairwise.imp_of_mem (fun {i j} hi hj hlt a b ha hb => ?_) (@ih placed')
      have ha' : first ≠ a := fun heq => hne i hi (heq ▸ ha)
      have hb' : first ≠ b := fun heq => hne j hj (heq ▸ hb)
      rw [idxOf_cons_ne _ ha', idxOf_cons_ne _ hb']
      exact Nat.succ_lt_succ (hlt a b ha hb)
    unfold membersOf
    split
    · next k hk =>
      have hk := (lastIndex?_eq_some_iff hnames).1 hk
      have hother : ∀ {placed'}, k ∈ placed' → ∀ i ∈ membersOf names placed' rest, names[i]? ≠ some first := by
        intro placed' hk' i hi heq
        obtain rfl := (getElem?_inj (lt_of_getElem? heq) hnames).1 (heq.trans hk.symm)
        exact ((mem_membersOf hnames).1 hi).1 hk'
      split
      · next hplaced => exact hlater (hother (by simpa using hplaced))
      · have hrest := @hother (k :: placed) mem_cons_self
        refine pairwise_cons.2 ⟨fun j hj a b ha hb => ?_, hlater hrest⟩
        rw [hk] at ha
        cases ha
        have hne : first ≠ b := fun heq => hrest j hj (heq ▸ hb)
        rw [idxOf_cons_self, idxOf_cons_ne _ hne]
        exact Nat.succ_pos _
    · next hnone =>
      exact hlater fun i _ heq => not_mem_of_lastIndex? hnone (mem_of_getElem? heq)

theorem settled_cons (p : PartitionSpec) (partitions : List PartitionSpec) (room : List Nat) (rooms : List (List Nat)) :
    settled (p :: partitions) (room :: rooms) =
      if room.isEmpty then settled partitions rooms else ⟨p.id, room⟩ :: settled partitions rooms := by
  cases room <;> rfl

theorem mem_settled {rooms : List (List Nat)} (hcount : rooms.length = partitions.length) :
    i ∈ Group.allMembers (settled partitions rooms) ↔ ∃ room ∈ rooms, i ∈ room := by
  induction partitions generalizing rooms with
  | nil => simp [eq_nil_of_length_eq_zero hcount, settled]
  | cons p partitions ih =>
    obtain ⟨room, rooms, rfl⟩ := exists_cons_of_length_eq_add_one hcount
    have hrest := ih (by simpa using hcount)
    rw [settled_cons, exists_mem_cons_iff, ← hrest]
    split
    · next hempty => simp [isEmpty_iff.1 hempty]
    · simp [Group.allMembers]

/-- the places that partitions give, when some are taken already -/
theorem exists_rooms (hnames : names.Nodup) (placed : List Nat) (partitions : List PartitionSpec) :
    ∃ rooms, rooms.length = partitions.length ∧ place names placed partitions = settled partitions rooms ∧
      ∀ {k room}, rooms[k]? = some room →
        (∀ i, i ∈ room ↔ i ∉ placed ∧
          ∃ name, names[i]? = some name ∧ partitions.findIdx? (·.instances.contains name) = some k) ∧
        ∀ {p}, partitions[k]? = some p → room.Pairwise fun i j =>
          ∀ a b, names[i]? = some a → names[j]? = some b → p.instances.idxOf a < p.instances.idxOf b := by
  induction partitions generalizing placed with
  | nil => exact ⟨[], rfl, rfl, by simp⟩
  | cons p rest ih =>
    obtain ⟨rooms, hcount, hplace, hrooms⟩ := ih (membersOf names placed p.instances ++ placed)
    refine ⟨membersOf names placed p.instances :: rooms, by simp [hcount], by rw [place, settled_cons, hplace], ?_⟩
    intro k room hroom
    cases k with
    | zero =>
      cases hroom
      refine ⟨fun i => ?_, ?_⟩
      · rw [mem_membersOf hnames]
        simp [findIdx?_cons, and_comm]
      · intro p' hp
        cases hp
        exact membersOf_order hnames
    | succ k =>
      obtain ⟨hmem, horder⟩ := hrooms hroom
      refine ⟨fun i => ?_, horder⟩
      rw [hmem, mem_append, mem_membersOf hnames, not_or]
      constructor
      · rintro ⟨⟨hnot, hnew⟩, name, hname, hfirst⟩
        have hunnamed : name ∉ p.instances := fun h => hnot ⟨hnew, name, h, hname⟩
        exact ⟨hnew, name, hname, by simpa [findIdx?_cons, hunnamed] using hfirst⟩
      · rintro ⟨hnew, name, hname, hfirst⟩
        have hunnamed : name ∉ p.instances := by
          intro h
          simp [findIdx?_cons, h] at hfirst
        refine ⟨⟨?_, hnew⟩, name, hname, by simpa [findIdx?_cons, hunnamed] using hfirst⟩
        rintro ⟨-, name', hname', heq⟩
        rw [hname] at heq
        cases heq
        exact hunnamed hname'

/-- with distinct names, everybody sits where the mapping says -/
theorem seats_assign (m : Mapping) (hnames : names.Nodup) : ∃ rooms, m.Seats names rooms (m.assign names) := by
  obtain ⟨rooms, hcount, hplace, hrooms⟩ := exists_rooms hnames [] m.partitions
  have hhome : ∀ {k room}, rooms[k]? = some room →
      ∀ i, i ∈ room ↔ ∃ name, names[i]? = some name ∧ m.home? name = some k := by
    intro k room hroom i
    rw [(hrooms hroom).1 i]
    simp [home?]
  -- whoever has no room is named nowhere
  have hstrangers :
    ((List.range names.length).filter fun i => !(Group.allMembers (settled m.partitions rooms)).contains i) =
      m.strangers names := by
    refine filter_congr fun i hi => ?_
    have hname := getElem?_eq_getElem (mem_range.1 hi)
    rw [Bool.eq_iff_iff, Bool.not_eq_true', contains_eq_mem, decide_eq_false_iff_not,
      mem_settled hcount, hname, Option.all_some,
      Option.isNone_iff_eq_none, Option.eq_none_iff_forall_ne_some, not_exists]
    constructor
    · intro hnone k hk
      have hlt : k < rooms.length := hcount ▸ (findIdx?_eq_some_iff_getElem.1 hk).1
      exact hnone rooms[k] ⟨getElem_mem hlt, (hhome (getElem?_eq_getElem hlt) i).2 ⟨_, hname, hk⟩⟩
    · rintro hnone room ⟨hroom, hmem⟩
      obtain ⟨k, hk⟩ := getElem?_of_mem hroom
      obtain ⟨name, hname', hfirst⟩ := (hhome hk i).1 hmem
      rw [hname] at hname'
      cases hname'
      exact hnone k hfirst
  refine ⟨rooms, hcount, hhome, fun hroom hp => (hrooms hroom).2 hp, ?_⟩
  rw [assign, hplace, hstrangers]
  by_cases hnone : m.strangers names = []
  · rw [if_pos hnone, hnone]
    rfl
  · rw [if_neg hnone, if_neg (by simpa using hnone)]
    exact Group.takes_add _ _ _

end Mapping

/-! ## Built networks -/

namespace Builder

variable {σ : Type} [Behaviour σ] {b : Builder σ} {mapping : Option Mapping} {n : Network σ}

/-- a builder never holds two instances of one name -/
theorem Made.names_nodup (h : b.Made) : (b.instances.map (·.name)).Nodup := by
  induction h with
  | empty => exact nodup_nil
  | add _ hadd ih =>
    unfold Builder.add at hadd
    split at hadd
    · cases hadd
    next hnew =>
    cases hadd
    rw [map_append, map_singleton]
    refine nodup_append.2 ⟨ih, nodup_singleton _, ?_⟩
    intro a ha b hb heq
    obtain ⟨d, hd, rfl⟩ := mem_map.1 ha
    exact hnew (any_eq_true.2 ⟨d, hd, by simpa using heq.trans (mem_singleton.1 hb)⟩)
  | connect _ hconnect ih =>
    obtain ⟨link, _, _, -, -, -, -, -, rfl⟩ := connect_eq_ok hconnect
    exact ih
  | applySizes _ _ ih => exact ih

omit [Behaviour σ] in
theorem covers_placement (b : Builder σ) (mapping : Option Mapping) :
    Group.Covers b.instances.length (b.placement mapping) := by
  cases mapping with
  | some m => simpa [placement] using m.covers_assign (b.instances.map (·.name))
  | none => simpa [placement] using Group.covers_byHint (b.instances.map (·.affinity))

/-- the partitions of a network are the groups of its placement -/
theorem partitions_of_build (h : b.build mapping = .ok n) :
    n.partitions.map (fun p => (p.name, p.instances.map (·.id))) = (b.placement mapping).map
    fun g => (g.name, g.members) := by
  obtain ⟨ws, -, h1⟩ := bind_eq_ok h
  obtain ⟨placed, hplaced, h2⟩ := bind_eq_ok h1
  cases h2
  obtain ⟨-, hget⟩ := mapM_spec (mapError_eq_ok hplaced)
  rw [map_map]
  refine map_congr_left fun g hg => ?_
  have hself : g.members.filterMap (fun i => placed[i]?.map (·.id)) = g.members := by
    rw [filterMap_congr, filterMap_some]
    intro i hi
    have hlt : i < b.instances.length :=
      mem_range.1 ((b.placement_perm mapping).mem_iff.1 (mem_flatMap.2 ⟨g, hg, hi⟩))
    obtain ⟨inst, hinst, hok⟩ := hget (show b.instances.zipIdx[i]? = some (b.instances[i], i) by simp [hlt])
    rw [hinst, Option.map_some, (placed_of_instantiate hok).1]
  rw [Function.comp_apply, map_filterMap, hself]

end Builder

/-! ## Reports -/

section Roster

variable {σ : Type} [Behaviour σ] {wires wires' : List Connection} {inst inst' : Instance σ} {n m : Network σ}
  {records : List FiringRecord} {summaries : List RunSummary} {configs : List RunConfig}

theorem Ports.closeAll_readers {α : Type} {close : Connection → α → PortView → Connection × α}
    (hclose : ∀ c e v, (close c e v).1.readers = c.readers) (wires : List Connection) (ends : List (Attached α))
    (views : List (Attached PortView)) :
    (closeAll close wires ends views).1.map Connection.readers = wires.map Connection.readers := by
  induction ends generalizing wires views with
  | nil => rfl
  | cons e ends ih =>
    cases views with
    | nil => rfl
    | cons v views =>
      rw [closeAll]
      split
      · rfl
      next c hc =>
      have hget : (wires.map Connection.readers)[e.wire]? = some c.readers := by rw [getElem?_map, hc]; rfl
      obtain ⟨hlt, heq⟩ := List.getElem?_eq_some_iff.1 hget
      exact (ih _ views).trans (by rw [map_set, hclose, ← heq, set_getElem_self])

/-- an attempt leaves the instance its number and name, and every connection its readers -/
theorem Instance.attempt_roster (hports : Behaviour.ThroughPorts σ) {maxLoops : Nat} {answer : Checked Attempt}
    (h : inst.attempt wires maxLoops = (wires', inst', answer)) :
    (inst'.id, inst'.name) = (inst.id, inst.name) ∧ wires'.map Connection.readers = wires.map Connection.readers := by
  unfold Instance.attempt at h
  split at h
  · cases h
    exact ⟨rfl, rfl⟩
  split at h
  · cases h
    exact ⟨rfl, rfl⟩
  · cases h
    exact ⟨rfl, rfl⟩
  split at h
  · cases h
    exact ⟨rfl, rfl⟩
  next ports hopen =>
  obtain ⟨-, -, hwires, -⟩ := Instance.openPorts_eq_ok hopen
  have hlevels := (hports maxLoops inst.actor ports).levels
  rw [hwires] at hlevels
  generalize Behaviour.act maxLoops inst.actor ports = turn at h hlevels
  have hturn : turn.ports.wires.map Connection.readers = wires.map Connection.readers := by
    have hreaders := congrArg (map fun x : Nat × UInt32 × List UInt32 => x.2.2.length) hlevels
    rwa [map_map, map_map] at hreaders
  have hclosed : ({ inst with actor := turn.actor }.closePorts turn.ports).1.map Connection.readers =
      wires.map Connection.readers := by
    rw [← hturn]
    simp only [Instance.closePorts]
    rw [Ports.closeAll_readers, Ports.closeAll_readers]
    · intro c e v
      unfold Connection.closeInput
      split <;> simp [Connection.readers]
    · intro c e v
      unfold Connection.closeOutput
      split <;> rfl
  unfold Instance.settle at h
  dsimp only at h
  split at h
  · cases h
    exact ⟨rfl, hclosed⟩
  · cases h
    exact ⟨rfl, hclosed⟩

namespace Network

/-- runs leave everybody in place -/
theorem Runs.roster (hports : Behaviour.ThroughPorts σ) (h : n.Runs configs m records summaries) :
    m.instances.map (fun inst => (inst.id, inst.name)) = n.instances.map (fun inst => (inst.id, inst.name)) ∧
      m.wires.map Connection.readers = n.wires.map Connection.readers := by
  have hlogs : ∀ maxLoops, Logs maxLoops fun wires (insts : List (Instance σ)) (_ : List FiringRecord) =>
      insts.map (fun inst => (inst.id, inst.name)) = n.instances.map (fun inst => (inst.id, inst.name)) ∧
        wires.map Connection.readers = n.wires.map Connection.readers := by
    rintro maxLoops wires wires' before after inst inst' records answer ⟨hinsts, hwires⟩ hattempt -
    obtain ⟨hsame, hreaders⟩ := Instance.attempt_roster hports hattempt
    refine ⟨?_, hreaders.trans hwires⟩
    rw [← hinsts, map_append, map_append, map_cons, map_cons, hsame]
  exact Logs.runs (fun config _ => hlogs config.loopMax) h ⟨rfl, rfl⟩

theorem pendingFrom_ok {c : Connection} {source : String} {r : Nat} {targets : List String}
    (h : r + targets.length ≤ c.readers) : ∃ pending, pendingFrom c source r targets = .ok pending := by
  induction targets generalizing r with
  | nil => exact ⟨[], rfl⟩
  | cons target rest ih =>
    rw [length_cons] at h
    obtain ⟨more, hmore⟩ := ih (r := r + 1) (by omega)
    have hlt : r < c.consumed.length := by
      rw [Connection.readers] at h
      omega
    have hpending : c.pending r = .ok (c.produced - c.consumed[r]).toNat := by
      rw [Connection.pending, fetch_eq_ok (getElem?_eq_getElem hlt)]
      rfl
    rw [pendingFrom, hpending, Checked.ok_bind, hmore]
    exact ⟨_, rfl⟩

omit [Behaviour σ] in
/-- a report can be had if every label has as many targets as its connection has readers -/
theorem pendingTokens_ok (h : List.Forall₂ (fun (label : WireLabel) readers => label.targets.length = readers) n.labels
    (n.wires.map Connection.readers)) : ∃ pending, n.pendingTokens = .ok pending := by
  have hall : ∀ x ∈ n.wires.zip n.labels, ∃ pending, pendingFrom x.1 x.2.source 0 x.2.targets = .ok pending := by
    intro x hx
    obtain ⟨i, hi⟩ := getElem?_of_mem hx
    obtain ⟨hc, hlabel⟩ := getElem?_zip_eq_some.1 hi
    obtain ⟨readers, hreaders, hcount⟩ := forall₂_getElem? h hlabel
    rw [getElem?_map, hc] at hreaders
    cases hreaders
    exact pendingFrom_ok (by omega)
  obtain ⟨lists, hlists⟩ := mapM_ok hall
  exact ⟨lists.flatten, by rw [pendingTokens, hlists]; rfl⟩

/-- a report lists the instances by their numbers -/
theorem report_instances {names : List String} {pending : List PendingTokens} (hpending : n.pendingTokens = .ok pending)
    (hids : (n.instances.map (·.id)).Perm (range names.length))
    (hnames : ∀ inst ∈ n.instances, names[inst.id]? = some inst.name) :
    ∃ report, n.report = .ok report ∧ report.instances.map (·.name) = names := by
  set rows := n.partitions.flatMap fun p => p.instances.map fun i => (i.id, reportOf p.name i) with hrows
  set sorted := rows.mergeSort fun a b => a.1 ≤ b.1 with hsorted
  refine ⟨⟨sorted.map (·.2), pending⟩, by rw [report, hpending]; rfl, ?_⟩
  have hrow : ∀ row ∈ rows, names[row.1]? = some row.2.name := by
    intro row hrow
    obtain ⟨p, hp, hrow⟩ := mem_flatMap.1 hrow
    obtain ⟨inst, hinst, rfl⟩ := mem_map.1 hrow
    exact hnames inst (mem_flatMap.2 ⟨p, hp, hinst⟩)
  have hperm : sorted.Perm rows := mergeSort_perm _ _
  have horder : (sorted.map (·.1)).Pairwise (· ≤ ·) := by
    refine pairwise_map.2 ((pairwise_mergeSort ?_ ?_ rows).imp fun h => by simpa using h)
    · intro a b c hab hbc
      simp only [decide_eq_true_eq] at hab hbc ⊢
      exact hab.trans hbc
    · intro a b
      simpa using le_total a.1 b.1
  have hfirst : rows.map (·.1) = n.instances.map (·.id) := by
    simp [hrows, instances, map_flatMap, Function.comp_def]
  have hrange : sorted.map (·.1) = range names.length := by
    refine Perm.eq_of_pairwise (fun a b _ _ hab hba => le_antisymm hab hba) horder
      (pairwise_lt_range.imp Nat.le_of_lt) ?_
    exact (hperm.map _).trans (hfirst ▸ hids)
  have hsome : sorted.map (fun row => some row.2.name) = names.map some := by
    calc sorted.map (fun row => some row.2.name)
        = sorted.map (fun row => names[row.1]?) := map_congr_left fun row hmem => (hrow row (hperm.mem_iff.1 hmem)).symm
      _ = (sorted.map (·.1)).map (names[·]?) := by rw [map_map]; rfl
      _ = names.map some := by
        rw [hrange]
        exact ext_getElem (by simp) (by simp)
  rw [map_map]
  exact map_injective_iff.2 (Option.some_injective _) (by rw [map_map]; exact hsome)

end Network

/-- after any runs the report of a built network has its instances as they were declared -/
theorem Builder.report_of_runs (hports : Behaviour.ThroughPorts σ) {b : Builder σ} {mapping : Option Mapping}
    (hmade : b.Made) (hbuild : b.build mapping = .ok n) (hruns : n.Runs configs m records summaries) :
    ∃ report, m.report = .ok report ∧ report.instances.map (·.name) = b.instances.map (·.name) := by
  obtain ⟨ws, hws, hbuilt⟩ := built_of_build hbuild
  have hjoins := joins_of_wires hmade.wellLinked hws
  obtain ⟨hroster, hreaders⟩ := hruns.roster hports
  obtain ⟨pending, hpending⟩ : ∃ pending, m.pendingTokens = .ok pending := by
    refine Network.pendingTokens_ok ?_
    rw [hruns.labels, labels_of_build hws hbuild, hreaders, hbuilt.wires, map_map, forall₂_map_left_iff,
      forall₂_map_right_iff, forall₂_same]
    intro wire hwire
    simp [label, Connection.readers, (hjoins.fresh wire hwire).tracks.consumed, Ledger.fresh]
  have hnames : ∀ x ∈ n.instances.map (fun inst => (inst.id, inst.name)),
    (b.instances.map (·.name))[x.1]? = some x.2 := by
    intro x hx
    obtain ⟨inst, hinst, rfl⟩ := mem_map.1 hx
    obtain ⟨d, hd, hplaced⟩ := hbuilt.placed inst hinst
    rw [getElem?_map, hd, hplaced.fresh]
    rfl
  have hids : m.instances.map (·.id) = n.instances.map (·.id) := by
    simpa [Function.comp_def] using congrArg (map Prod.fst) hroster
  refine Network.report_instances hpending ?_ fun inst hinst => ?_
  · rw [hids, length_map]
    exact hbuilt.ids
  · exact hnames (inst.id, inst.name) (hroster ▸ mem_map_of_mem hinst)

end Roster

/-- **Placement loses nobody**, with a mapping or by hints. -/
theorem placement_loses_nobody {σ : Type} [Behaviour σ] (hports : Behaviour.ThroughPorts σ) :
    (∀ (m : Mapping) (names : List String), Group.Covers names.length (m.assign names) ∧
      (names.Nodup → ∃ rooms, m.Seats names rooms (m.assign names))) ∧
    (∀ hints : List (Option String), Group.Covers hints.length (Group.byHint 0 hints []) ∧
      Group.ByHints hints (Group.byHint 0 hints [])) ∧
    ∀ (b : Builder σ) (mapping : Option Mapping), Group.Covers b.instances.length (b.placement mapping) ∧
      (b.Made → (b.instances.map (·.name)).Nodup ∧ ∀ n, b.build mapping = .ok n →
        n.partitions.map (fun p => (p.name, p.instances.map (·.id))) =
          (b.placement mapping).map (fun g => (g.name, g.members)) ∧
        (n.instances.map (·.id)).Perm (List.range b.instances.length) ∧
        (∀ inst ∈ n.instances, ∃ d, b.instances[inst.id]? = some d ∧ inst.name = d.name ∧ inst.actor = d.actor) ∧
        ∀ configs m records summaries, n.Runs configs m records summaries →
          ∃ report, m.report = .ok report ∧ report.instances.map (·.name) = b.instances.map (·.name)) := by
  refine ⟨fun m names => ⟨m.covers_assign names, m.seats_assign⟩,
    fun hints => ⟨Group.covers_byHint hints, (Group.sorted_byHint hints).byHints⟩,
    fun b mapping => ⟨b.covers_placement mapping, fun hmade => ⟨hmade.names_nodup, fun n hbuild => ?_⟩⟩⟩
  obtain ⟨ws, -, hbuilt⟩ := Builder.built_of_build hbuild
  refine ⟨Builder.partitions_of_build hbuild, hbuilt.ids, fun inst hinst => ?_, fun configs m records summaries hruns =>
    Builder.report_of_runs hports hmade hbuild hruns⟩
  obtain ⟨d, hd, hplaced⟩ := hbuilt.placed inst hinst
  exact ⟨d, hd, congrArg Instance.name hplaced.fresh, congrArg Instance.actor hplaced.fresh⟩

/-- a mapping with a repeated partition, names that are unknown or repeated, and a default partition of its own -/
def crossed : Mapping where
  partitions := [{ id := "apart", instances := ["twice", "nobody", "twice"] },
    { id := "default", instances := ["all", "twice"] }, { id := "apart", instances := ["all"] }, { id := "spare" }]

def crossedNetwork : Network Component := ((fork none).build (some crossed)).toOption.getD ⟨[], [], []⟩

/-- `twice` sits apart; the unnamed two join `all`, which the default partition names itself -/
theorem placement_loses_nobody_crossed :
    (∃ rooms, crossed.Seats ["numbers", "two", "twice", "all"] rooms [⟨"apart", [2]⟩, ⟨"default", [3, 0, 1]⟩]) ∧
    crossedNetwork.partitions.map (fun p => (p.name, p.instances.map (·.id))) =
      [("apart", [2]), ("default", [3, 0, 1])] ∧
    ∃ s, (crossedNetwork.runInline {} 20).ended = .finished s ∧
      ∃ report, (crossedNetwork.runInline {} 20).network.report = .ok report ∧
        report.instances.map (·.name) = ["numbers", "two", "twice", "all"] := by
  obtain ⟨hmapping, -, hbuilder⟩ := placement_loses_nobody Component.throughPorts
  obtain ⟨-, hmade⟩ := hbuilder (fork none) (some crossed)
  have hbuild : (fork none).build (some crossed) = .ok crossedNetwork := rfl
  obtain ⟨hnames, hall⟩ := hmade (fork_made none)
  obtain ⟨hpartitions, -, -, hreport⟩ := hall crossedNetwork hbuild
  obtain ⟨s, hended⟩ : ∃ s, (crossedNetwork.runInline {} 20).ended = .finished s := ⟨_, rfl⟩
  exact ⟨(hmapping crossed _).2 hnames, hpartitions, s, hended, hreport _ _ _ _ (Network.Runs.none.more {} 20 hended)⟩

end Dataflow
