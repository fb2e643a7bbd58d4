import Dataflow.Network.MappingDocument
import Dataflow.Proofs.OpenPorts

/-!
The partitions of a document that is accepted.

- `Mapping.partitions_of_accepted`: behind the root, a partition tag gives exactly one partition if it is an empty
  element or if the next start or end tag of a partition is an end tag, and none otherwise (`Mapping.counted`). The
  instances of the partition are those named in between. So none is lost exactly if no partition starts before the one
  in front of it has ended and each has its end.
- Counterexample `Mapping.nested_partition_is_lost`: one that another starts in is lost, with its instances.
- Witness `Mapping.partitions_of_accepted_nested`: of two partition tags, one counts.
-/

namespace Dataflow

/-- the partition with more instances at the end -/
def PartitionSpec.adding (p : PartitionSpec) (names : List String) :
    PartitionSpec := { p with instances := p.instances ++ names }

namespace Mapping

open List Markup

/-! ## Partition tags -/

/-- the element that a start tag or an empty element stands for -/
def elementOf (content : List Char) : String := String.ofList (nameOf content)

/-- whether a tag is the start tag or the end tag of a partition -/
def isBoundary : Tag → Bool
  | .start content => elementOf content = "partition"
  | .empty _ => false
  | .close name => String.ofList name = "partition"

def isEnd : Tag → Bool
  | .close _ => true
  | _ => false

/-- the partition that a tag describes, as yet without instances -/
def described (content : List Char) : PartitionSpec :=
  let attributes := (attributes? content).getD []
  { id := (attributes.lookup "id").getD "", scheduling := attributes.lookup "scheduling" }

/-- the instance that a tag names -/
def namedInstance? : Tag → Option String
  | .start content | .empty content => if elementOf content =
      "instance" then ((attributes? content).getD []).lookup "id" else none
  | .close _ => none

/-- the instances named before the next boundary -/
def namesAhead (tags : List Tag) : List String := (tags.takeWhile (!isBoundary ·)).filterMap namedInstance?

/-- whether the next boundary is an end tag -/
def endsNext (tags : List Tag) : Bool := (tags.find? isBoundary).any isEnd

/-- every partition tag in order: what it describes, and whether it counts -/
def partitionTags : List Tag → List (PartitionSpec × Bool)
  | [] => []
  | .start content :: rest =>
    if elementOf content = "partition" then
      ((described content).adding (namesAhead rest), endsNext rest) :: partitionTags rest
    else partitionTags rest
  | .empty content :: rest =>
    if elementOf content = "partition" then (described content, true) :: partitionTags rest else partitionTags rest
  | .close _ :: rest => partitionTags rest

def counted (tags : List Tag) : List PartitionSpec := ((partitionTags tags).filter (·.2)).map (·.1)

/-- what becomes of an open partition in front of these tags -/
def closing (pending : Option PartitionSpec) (tags : List Tag) : List PartitionSpec :=
  if endsNext tags then (pending.map (·.adding (namesAhead tags))).toList else []

variable {r r' : Reading} {content : List Char} {tag : Tag} {tags : List Tag} {attributes : Attributes} {value : String}
  {done : List PartitionSpec} {pending : Option PartitionSpec} {isEmpty : Bool}

attribute [local simp] partitionTags closing

section

variable (helement : elementOf content = "partition")

include helement

theorem counted_start : counted (.start content :: tags) = closing (some (described content)) tags ++ counted tags := by
  unfold counted
  cases hend : endsNext tags <;> simp [helement, hend]

theorem counted_empty : counted (.empty content :: tags) = described content :: counted tags := by
  simp [counted, helement]

theorem closing_start : closing pending (.start content :: tags) = [] := by
  simp [endsNext, isBoundary, isEnd, helement]

end

theorem closing_close {name : List Char} (hname : String.ofList name = "partition") :
    closing pending (.close name :: tags) = pending.toList := by
  cases pending <;> simp [endsNext, isBoundary, isEnd, hname, namesAhead, PartitionSpec.adding]

theorem closing_inner (hinner : isBoundary tag = false) :
    closing pending (tag :: tags) = closing (pending.map (·.adding (namedInstance? tag).toList)) tags := by
  have hends : endsNext (tag :: tags) = endsNext tags := by simp [endsNext, hinner]
  have hnames : namesAhead (tag :: tags) = (namedInstance? tag).toList ++ namesAhead tags := by
    rw [namesAhead, takeWhile_cons_of_pos (by simp [hinner]), filterMap_cons]
    cases namedInstance? tag <;> rfl
  cases pending <;> simp [hends, hnames, PartitionSpec.adding]

theorem map_adding_nil (hunnamed : namedInstance? tag = none) :
    pending.map (·.adding (namedInstance? tag).toList) = pending := by
  cases pending <;> simp [hunnamed, PartitionSpec.adding]

/-! ## Reading -/

theorem attributesOf_eq_ok (h : attributesOf content = .ok attributes) :
    (attributes? content).getD [] = attributes := by
  unfold attributesOf at h
  split at h
  · next found hfound =>
    cases h
    rw [hfound]
    rfl
  · cases h

theorem required_eq_ok {element key : String} (h : required attributes element key = .ok value) :
    attributes.lookup key = some value := by
  unfold required at h
  split at h
  · next found hfound =>
    cases h
    exact hfound
  · cases h

/-- behind the root, with the partitions `done` and with `pending` still open -/
structure Reading.Has (r : Reading) (done : List PartitionSpec) (pending : Option PartitionSpec) : Prop where
  root : r.rootSeen = true
  done : r.mapping.partitions = done
  pending : r.pending = pending

section

variable (h : r.Has done pending)

include h

theorem Reading.Has.readPartition (hread : readPartition r content isEmpty = .ok r') :
    r'.Has (done ++ if isEmpty then [described content] else [])
    (if isEmpty then pending else some (described content)) := by
  obtain ⟨attributes, hattributes, hread⟩ := bind_eq_ok hread
  obtain ⟨id, hid, hread⟩ := bind_eq_ok hread
  have hdescribed : described content = { id, scheduling := attributes.lookup "scheduling" } := by
    simp [described, attributesOf_eq_ok hattributes, required_eq_ok hid]
  rw [hdescribed]
  cases isEmpty with
  | true =>
    cases hread
    exact ⟨h.root, congrArg (· ++ _) h.done, h.pending⟩
  | false =>
    cases hread
    exact ⟨h.root, h.done.trans (append_nil _).symm, rfl⟩

theorem Reading.Has.readInstance (helement : elementOf content = "instance")
    (htag : tag = .start content ∨ tag = .empty content) (hread : readInstance r content = .ok r') :
    r'.Has done (pending.map (·.adding (namedInstance? tag).toList)) := by
  obtain ⟨attributes, hattributes, hread⟩ := bind_eq_ok hread
  obtain ⟨id, hid, hread⟩ := bind_eq_ok hread
  have hnamed : namedInstance? tag = some id := by
    rcases htag with rfl | rfl <;> simp [namedInstance?, helement, attributesOf_eq_ok hattributes, required_eq_ok hid]
  cases hread
  rw [hnamed, ← h.pending]
  exact ⟨h.root, h.done, rfl⟩

theorem Reading.Has.readConnection (hread : readConnection r content = .ok r') : r'.Has done pending := by
  obtain ⟨attributes, -, hread⟩ := bind_eq_ok hread
  obtain ⟨raw, -, hread⟩ := bind_eq_ok hread
  obtain ⟨size, -, hread⟩ := bind_eq_ok hread
  obtain ⟨source, -, hread⟩ := bind_eq_ok hread
  obtain ⟨sourcePort, -, hread⟩ := bind_eq_ok hread
  obtain ⟨target, -, hread⟩ := bind_eq_ok hread
  obtain ⟨targetPort, -, hread⟩ := bind_eq_ok hread
  cases hread
  exact ⟨h.root, h.done, h.pending⟩

end

theorem readElement_of_root (hroot : r.rootSeen = true) : readElement r content isEmpty =
    if elementOf content = "partition" then readPartition r content isEmpty
    else if elementOf content = "instance" then readInstance r content
    else if elementOf content = "connection" then readConnection r content
    else .ok r := by
  rw [readElement, hroot]
  rfl

/-- an element that is no partition adds at most the name of an instance -/
theorem Reading.Has.readElement (h : r.Has done pending) (helement : elementOf content ≠ "partition")
    (htag : tag = .start content ∨ tag = .empty content) (hread : readElement r content isEmpty = .ok r') :
    r'.Has done (pending.map (·.adding (namedInstance? tag).toList)) := by
  rw [readElement_of_root h.root, if_neg helement] at hread
  split at hread
  · next hinstance => exact h.readInstance hinstance htag hread
  next hinstance =>
  have hunnamed : namedInstance? tag = none := by
    rcases htag with rfl | rfl <;> exact if_neg hinstance
  rw [map_adding_nil hunnamed]
  split at hread
  · exact h.readConnection hread
  · cases hread
    exact h

/-- reading on, the partitions that count are added -/
theorem Reading.Has.readTags (h : r.Has done pending) (hread : tags.foldlM readTag r = .ok r') :
    r'.mapping.partitions.Perm (done ++ closing pending tags ++ counted tags) := by
  induction tags generalizing r done pending with
  | nil =>
    cases hread
    simp [h.done, endsNext, counted]
  | cons tag rest ih =>
    obtain ⟨r1, htag, hrest⟩ := bind_eq_ok hread
    cases tag with
    | start content =>
      rw [readTag] at htag
      by_cases helement : elementOf content = "partition"
      · -- what was open is given up
        rw [readElement_of_root h.root, if_pos helement] at htag
        have h1 := ih (h.readPartition htag) hrest
        rw [closing_start helement, counted_start helement]
        simpa using h1
      · have h1 := ih (h.readElement helement (.inl rfl) htag) hrest
        have hcounted : counted (.start content :: rest) = counted rest := by simp [counted, helement]
        rwa [closing_inner (by simp [isBoundary, helement]), hcounted]
    | empty content =>
      rw [readTag] at htag
      by_cases helement : elementOf content = "partition"
      · rw [readElement_of_root h.root, if_pos helement] at htag
        have h1 := ih (h.readPartition htag) hrest
        have hunnamed : namedInstance? (.empty content) = none := by simp [namedInstance?, helement]
        rw [closing_inner rfl, counted_empty helement, map_adding_nil hunnamed]
        rw [if_pos rfl, if_pos rfl] at h1
        -- it is done before the one that it stands in
        refine h1.trans ?_
        rw [append_assoc, append_assoc, append_assoc, singleton_append]
        exact perm_middle.symm.append_left done
      · have h1 := ih (h.readElement helement (.inr rfl) htag) hrest
        have hcounted : counted (.empty content :: rest) = counted rest := by simp [counted, helement]
        rwa [closing_inner rfl, hcounted]
    | close name =>
      cases htag
      by_cases hname : String.ofList name = "partition"
      · have h1 : (readClose r name).Has (done ++ pending.toList) none := by
          rw [readClose, if_pos hname, ← h.pending, ← h.done]
          split
          · next spec hspec => exact ⟨h.root, by rw [hspec]; rfl, rfl⟩
          · next hspec => exact ⟨h.root, by rw [hspec]; simp, hspec⟩
        rw [closing_close hname]
        exact (ih h1 hrest).trans (.of_eq (by simp [counted]))
      · rw [readClose, if_neg hname] at hrest
        have h1 := ih h hrest
        rwa [closing_inner (by simp [isBoundary, hname]), map_adding_nil rfl]

/-! ## Accepted documents -/

/-- when a text is accepted -/
theorem parse_eq_ok_iff {text : String} {m : Mapping} : parse text = .ok m ↔
    (scan text).clean = true ∧ ∃ r, (scan text).tags.foldlM readTag {} = .ok r ∧ r.rootSeen = true ∧ r.mapping = m := by
  dsimp only [parse]
  cases (scan text).tags.foldlM readTag {} with
  | error e => simp [bind, Except.bind]
  | ok r =>
    cases (scan text).clean <;> cases hroot : r.rootSeen <;>
      simp [bind, Except.bind, pure, Except.pure, throw, throwThe, MonadExceptOf.throw, hroot]

/-- an end tag is never the first tag -/
theorem scanFrom_first {fuel : Nat} {cs : List Char}
    (h : (scanFrom fuel [] cs).tags = tag :: tags) : isEnd tag = false := by
  induction fuel generalizing cs with
  | zero => cases h
  | succ fuel ih =>
    unfold scanFrom at h
    split at h
    · cases h
    split at h
    · cases h
    · exact ih h
    split at h
    · cases h
    next hopen =>
    cases h
    cases tag with
    | start | empty => rfl
    | close => cases hopen

/-- Which partitions an accepted document has, from its tags in order. -/
theorem partitions_of_accepted {text : String} {m : Mapping} (h : parse text = .ok m) :
    ∃ root body content, (scan text).tags = root :: body ∧ (root = .start content ∨ root = .empty content) ∧
      elementOf content = "configuration" ∧ m.partitions.Perm (counted body) ∧
      (m.partitions.length = (partitionTags body).length ↔ ∀ tag ∈ partitionTags body, tag.2 = true) := by
  obtain ⟨-, r, hread, hseen, rfl⟩ := parse_eq_ok_iff.1 h
  cases htags : (scan text).tags with
  | nil =>
    rw [htags] at hread
    cases hread
    cases hseen
  | cons root body =>
    rw [htags, foldlM_cons] at hread
    obtain ⟨r1, hfirst, hbody⟩ := bind_eq_ok hread
    obtain ⟨content, isEmpty, hcontent, helement⟩ : ∃ content isEmpty, (root = .start content ∨ root = .empty content) ∧
        readElement {} content isEmpty = .ok r1 := by
      cases root with
      | start content => exact ⟨content, false, .inl rfl, hfirst⟩
      | empty content => exact ⟨content, true, .inr rfl, hfirst⟩
      | close name => cases scanFrom_first htags
    have hroot : elementOf content = "configuration" ∧ r1 = { rootSeen := true } := by
      unfold readElement at helement
      dsimp only at helement
      split at helement
      · split at helement
        · next hname =>
          cases helement
          exact ⟨hname, rfl⟩
        · cases helement
      · next hnot => exact absurd rfl hnot
    obtain ⟨hname, rfl⟩ := hroot
    have hstart : Reading.Has { rootSeen := true } [] none := ⟨rfl, rfl, rfl⟩
    have hperm : r.mapping.partitions.Perm (counted body) := by simpa [closing] using hstart.readTags hbody
    refine ⟨root, body, content, rfl, hcontent, hname, hperm, ?_⟩
    rw [hperm.length_eq, counted, length_map, length_filter_eq_length_iff]

/-- a well-formed document with one partition inside another -/
def nestedDocument : String := "<configuration><partition id=\"a\"><instance id=\"x\"/>" ++
  "<partition id=\"b\"><instance id=\"y\"/></partition></partition></configuration>"

/-- the outer partition and its instance are nowhere in the mapping -/
theorem nested_partition_is_lost : parse nestedDocument = .ok { partitions := [⟨"b", none, ["y"]⟩] } ∧
    partitionTags ((scan nestedDocument).tags.drop 1) = [(⟨"a", none, ["x"]⟩, false), (⟨"b", none, ["y"]⟩, true)] := by
  decide +kernel

/-- of the two partition tags in it, only one counts -/
theorem partitions_of_accepted_nested : ∃ body, (scan nestedDocument).tags.drop 1 = body ∧
    [⟨"b", none, ["y"]⟩].Perm (counted body) ∧ ¬ ∀ tag ∈ partitionTags body, tag.2 = true := by
  have hparse : parse nestedDocument = .ok { partitions := [⟨"b", none, ["y"]⟩] } := by decide +kernel
  have htwo : (partitionTags ((scan nestedDocument).tags.drop 1)).length = 2 := by decide +kernel
  obtain ⟨root, body, content, htags, -, -, hperm, hall⟩ := partitions_of_accepted hparse
  rw [htags] at htwo ⊢
  refine ⟨body, rfl, hperm, fun hcount => ?_⟩
  cases (hall.2 hcount).trans htwo

end Mapping

end Dataflow
