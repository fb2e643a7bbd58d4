import Dataflow.Proofs.DocumentPartitions
import Dataflow.Proofs.MarkupText

/-!
A mapping that is written down is read back.

Model: a `Mapping.Layout` has the documented elements in order, with any text between them and any white space before
attributes.

- `Mapping.parse_layout`: a mapping, whatever its strings and lists are, is read back from every text in the documented
  layout, and the document that is written is such a text. In what was read, the depth of a connection is that of the
  first entry with its four names.
- Witness `Mapping.parse_layout_awkward`.

Premises: depths of 64 bits.
-/

namespace Dataflow

open List Markup

/-! ## Depths -/

namespace Text

theorem le_ofDigitChars (digits : List Char) (acc : Nat) : acc ≤ Nat.ofDigitChars 10 digits acc := by
  induction digits generalizing acc with
  | nil => exact le_rfl
  | cons c digits ih =>
    rw [Nat.ofDigitChars_cons]
    exact le_trans (by omega) (ih _)

variable {digits : List Char}

theorem readDigits_eq {bound acc : Nat} {excess : IntegerError} (h : ∀ c ∈ digits, c.isDigit = true)
    (hbound : Nat.ofDigitChars 10 digits acc ≤ bound) :
    readDigits bound excess acc digits = .ok (Nat.ofDigitChars 10 digits acc) := by
  induction digits generalizing acc with
  | nil => rfl
  | cons c digits ih =>
    obtain ⟨hc, hdigits⟩ := forall_mem_cons.1 h
    have hnext : Nat.ofDigitChars 10 (c :: digits) acc = Nat.ofDigitChars 10 digits (acc * 10 + (c.toNat - 48)) := by
      rw [Nat.ofDigitChars_cons, Nat.mul_comm]
      rfl
    rw [hnext] at hbound ⊢
    have hle := (le_ofDigitChars digits _).trans hbound
    simp only [readDigits, digit?, hc, if_true, if_pos hle, ih hdigits hbound]

theorem dropWhile_digits (h : ∀ c ∈ digits, c.isDigit = true) : digits.dropWhile isBlank = digits := by
  cases digits with
  | nil => rfl
  | cons c digits =>
    have hc : 48 ≤ c.toNat ∧ c.toNat ≤ 57 := by
      have hdigit := h c mem_cons_self
      simp only [Char.isDigit, Bool.and_eq_true, decide_eq_true_eq] at hdigit
      exact ⟨UInt32.le_iff_toNat_le.1 hdigit.1, UInt32.le_iff_toNat_le.1 hdigit.2⟩
    refine dropWhile_cons_of_neg ?_
    simp only [isBlank, Bool.or_eq_true, Bool.and_eq_true, decide_eq_true_eq, beq_iff_eq]
    omega

theorem readUnsigned_repr {bound n : Nat} (h : n ≤ bound) : readUnsigned bound (trim n.repr) = .ok n := by
  have hdigits : ∀ c ∈ Nat.toDigits 10 n, c.isDigit = true :=
    fun c hc => Nat.isDigit_of_mem_toDigits (by decide) (by decide) hc
  have htrim : (trim n.repr).toList = Nat.toDigits 10 n := by
    rw [Nat.repr_eq_ofList_toDigits, trim, String.toList_ofList, String.toList_ofList, dropWhile_digits hdigits,
      dropWhile_digits fun c hc => hdigits c (mem_reverse.1 hc), reverse_reverse]
  have hvalue : readDigits bound .tooLarge 0 (Nat.toDigits 10 n) = .ok n := by
    rw [readDigits_eq hdigits (Nat.ofDigitChars_ten_toDigits.trans_le h), Nat.ofDigitChars_ten_toDigits]
  unfold readUnsigned
  rw [htrim]
  split
  · next hnil => exact absurd hnil Nat.toDigits_ne_nil
  · next hplus => cases hdigits '+' (by rw [hplus]; exact mem_cons_self)
  · exact hvalue

end Text

namespace Mapping

theorem sizeOf_repr {n : Nat} (h : n ≤ Word.max64) : sizeOf n.repr = .ok n := by
  rw [sizeOf, largestSize, Text.readUnsigned_repr h]

/-! ## Layouts -/

def partitionAttributes (p : PartitionSpec) : Attributes :=
  ("id", p.id) :: (p.scheduling.map fun s => ("scheduling", s)).toList

def instanceMark (id : String) : Mark := .empty "instance" [("id", id)]

def partitionMarks (p : PartitionSpec) : List Mark :=
  .start "partition" (partitionAttributes p) :: p.instances.map instanceMark ++ [.close "partition"]

/-- the elements of a partition; one without instances can be an empty element -/
inductive PartitionMarks (p : PartitionSpec) : List Mark → Prop
  | full : PartitionMarks p (partitionMarks p)
  | short : p.instances = [] → PartitionMarks p [.empty "partition" (partitionAttributes p)]

def connectionMark (c : ConnectionSize) : Mark :=
  .empty "connection" [("source", c.source), ("source-port", c.sourcePort), ("target", c.target),
    ("target-port", c.targetPort), ("size", toString c.size)]

/-- the elements of a document with these partitions and connections -/
def documentMarks (partitions connections : List Mark) : List Mark :=
  [.start "configuration" [], .start "partitioning" []] ++ partitions ++
    [.close "partitioning", .start "connections" []] ++ connections ++ [.close "connections", .close "configuration"]

/-- a text in the documented layout -/
def Layout (m : Mapping) (cs : List Char) : Prop :=
  ∃ parts, Forall₂ PartitionMarks m.partitions parts ∧
    Lays (documentMarks parts.flatten (m.connections.map connectionMark)) cs

variable {m : Mapping} {marks : List Mark} {p : PartitionSpec} {parts : List (List Mark)} {r r2 : Reading}

/-- the names and keys of documents -/
def vocabulary : List String :=
  ["configuration", "partitioning", "partition", "instance", "connections", "connection", "id",
    "scheduling", "source", "source-port", "target", "target-port", "size"]

theorem isName_of_mem {name : String} (h : name ∈ vocabulary) : IsName name := by
  have hall : vocabulary.all (fun name => !name.toList.isEmpty && name.toList.all isNameChar) = true :=
    by decide +kernel
  simpa [IsName] using all_eq_true.1 hall name h

theorem keyed_of_subset {keys : List String} (h : keys ⊆ vocabulary) (hnodup : keys.Nodup) : Keyed keys :=
  ⟨fun _ hkey => isName_of_mem (h hkey), hnodup⟩

attribute [local simp] PartitionSpec.adding vocabulary

theorem proper_partition (h : PartitionMarks p marks) : ∀ mark ∈ marks, mark.Proper := by
  have hname : IsName "partition" := isName_of_mem (by simp)
  have hkeys : Keyed ((partitionAttributes p).map Prod.fst) := by
    unfold partitionAttributes
    cases p.scheduling <;> exact keyed_of_subset (by simp) (by simp)
  cases h with
  | full =>
    simp only [partitionMarks, cons_append, forall_mem_cons, forall_mem_append, forall_mem_map]
    exact ⟨⟨hname, hkeys⟩, fun id _ => ⟨isName_of_mem (by simp), keyed_of_subset (by simp) (by simp)⟩, hname,
      by simp⟩
  | short => exact forall_mem_singleton.2 ⟨hname, hkeys⟩

theorem proper_partitions {ps : List PartitionSpec} (h : Forall₂ PartitionMarks ps parts) :
    ∀ mark ∈ parts.flatten, mark.Proper := by
  induction h with
  | nil => exact fun mark hmark => by cases hmark
  | cons hpart _ ih => exact forall_mem_append.2 ⟨proper_partition hpart, ih⟩

theorem proper_connection (c : ConnectionSize) : (connectionMark c).Proper :=
  ⟨isName_of_mem (by simp), keyed_of_subset (by simp) (by simp)⟩

/-- marks whose elements are all closed -/
def Balanced (marks : List Mark) : Prop := ∀ opened rest, Nests opened rest → Nests opened (marks ++ rest)

theorem balanced_empties {α : Type} (f : α → Mark) (h : ∀ a, ∃ name attributes, f a = .empty name attributes)
    (xs : List α) : Balanced (xs.map f) := by
  intro opened rest hrest
  induction xs with
  | nil => exact hrest
  | cons x xs ih =>
    obtain ⟨name, attributes, hx⟩ := h x
    rw [map_cons, hx]
    exact ih

theorem balanced_partition (h : PartitionMarks p marks) : Balanced marks := by
  intro opened rest hrest
  cases h with
  | full =>
    have hinner := balanced_empties instanceMark (fun id => ⟨_, _, rfl⟩) p.instances ("partition" :: opened)
      (.close "partition" :: rest) ⟨rfl, hrest⟩
    simpa [partitionMarks, Nests] using hinner
  | short => exact hrest

theorem balanced_partitions {ps : List PartitionSpec} (h : Forall₂ PartitionMarks ps parts) :
    Balanced parts.flatten := by
  intro opened rest hrest
  induction h with
  | nil => exact hrest
  | cons hpart _ ih =>
    rw [flatten_cons, append_assoc]
    exact balanced_partition hpart _ _ ih

theorem nests_document (h : Forall₂ PartitionMarks m.partitions parts) :
    Nests [] (documentMarks parts.flatten (m.connections.map connectionMark)) := by
  have hconnections := balanced_empties connectionMark (fun c => ⟨_, _, rfl⟩) m.connections
    ["connections", "configuration"] [.close "connections", .close "configuration"] ⟨rfl, rfl, trivial⟩
  have hpartitions := balanced_partitions h ["partitioning", "configuration"]
    (.close "partitioning" :: .start "connections" [] :: _) ⟨rfl, hconnections⟩
  simpa [documentMarks, Nests] using hpartitions

/-! ## Reading -/

/-- whatever tags mean the marks, reading them leads from one reading to the other -/
def Reads (marks : List Mark) (r r' : Reading) : Prop :=
  ∀ tags, Forall₂ Mark.Means marks tags → tags.foldlM readTag r = .ok r'

theorem Reads.cons {mark : Mark} (r1 : Reading) (h : ∀ tag, mark.Means tag → readTag r tag = .ok r1)
    (hrest : Reads marks r1 r2) : Reads (mark :: marks) r r2 := by
  rintro _ (_ | ⟨hmark, hmarks⟩)
  rw [foldlM_cons, h _ hmark]
  exact hrest _ hmarks

theorem Reads.nil : Reads [] r r := by
  rintro _ ⟨⟩
  rfl

theorem Reads.append {marks' : List Mark} {r1 : Reading} (h : Reads marks r r1) (h' : Reads marks' r1 r2) :
    Reads (marks ++ marks') r r2 := by
  intro tags htags
  rw [← take_append_drop marks.length tags, foldlM_append, h _ (forall₂_take_append _ _ _ htags.flip).flip]
  exact h' _ (forall₂_drop_append _ _ _ htags.flip).flip

variable {ps : List PartitionSpec} {cs : List ConnectionSize} {pending : Option PartitionSpec} {tag : Tag}
  {name : String} {attributes : Attributes} {content : List Char}

theorem elementOf_eq (h : nameOf content = name.toList) : elementOf content = name := by
  rw [elementOf, h, String.ofList_toList]

theorem readTag_root (h : (Mark.start "configuration" []).Means tag) : readTag {} tag = .ok { rootSeen := true } := by
  cases h with
  | start hname => simp [readTag, readElement, hname]

/-- an element that only holds others -/
theorem readTag_other (hroot : r.rootSeen = true) (h : (Mark.start name attributes).Means tag)
    (hname : name ∉ ["partition", "instance", "connection"]) : readTag r tag = .ok r := by
  cases h with
  | start hcontent =>
    rw [readTag, readElement_of_root hroot, elementOf_eq hcontent]
    simp_all

theorem readTag_close (h : (Mark.close name).Means tag) (hname : name ≠ "partition") : readTag r tag = .ok r := by
  cases h with
  | close => simp [readTag, readClose, hname]

theorem reads_instances (ids : List String) : Reads (ids.map instanceMark)
    ⟨⟨ps, cs⟩, true, some p⟩ ⟨⟨ps, cs⟩, true, some (p.adding ids)⟩ := by
  induction ids generalizing p with
  | nil => simpa using Reads.nil
  | cons id ids ih =>
    have hadding : p.adding (id :: ids) = (p.adding [id]).adding ids := by simp
    rw [hadding]
    refine .cons _ (fun tag hmeans => ?_) ih
    cases hmeans with
    | empty hname hattributes =>
      rw [readTag, readElement_of_root rfl, elementOf_eq hname]
      simp [readInstance, attributesOf, hattributes, required, bind, Except.bind, pure, Except.pure]

theorem readPartition_eq {isEmpty : Bool} (h : attributes? content = some (partitionAttributes p)) :
    readPartition r content isEmpty = .ok (if isEmpty then
      { r with mapping := { r.mapping with partitions := r.mapping.partitions ++ [{ p with instances := [] }] } }
      else { r with pending := some { p with instances := [] } }) := by
  have hscheduling : (partitionAttributes p).lookup "scheduling" = p.scheduling := by
    unfold partitionAttributes
    cases p.scheduling <;> simp [lookup_cons]
  have hid : (partitionAttributes p).lookup "id" = some p.id := rfl
  cases isEmpty <;> simp [readPartition, attributesOf, h, required, hid, hscheduling,
    bind, Except.bind, pure, Except.pure]

theorem reads_partition (h : PartitionMarks p marks) :
    Reads marks ⟨⟨ps, cs⟩, true, none⟩ ⟨⟨ps ++ [p], cs⟩, true, none⟩ := by
  cases h with
  | full =>
    refine .cons ⟨⟨ps, cs⟩, true, some { p with instances := [] }⟩ (fun tag hmeans => ?_)
      ((reads_instances p.instances).append ?_)
    · cases hmeans with
      | start hname hattributes =>
        rw [readTag, readElement_of_root rfl, elementOf_eq hname, if_pos rfl, readPartition_eq hattributes]
        rfl
    · rintro _ (_ | ⟨⟨⟩, ⟨⟩⟩)
      simp [readTag, readClose]
  | short hnone =>
    refine .cons ⟨⟨ps ++ [p], cs⟩, true, none⟩ (fun tag hmeans => ?_) .nil
    cases hmeans with
    | empty hname hattributes =>
      rw [readTag, readElement_of_root rfl, elementOf_eq hname, if_pos rfl, readPartition_eq hattributes]
      obtain ⟨id, scheduling, instances⟩ := p
      cases hnone
      rfl

theorem reads_partitions {qs : List PartitionSpec} (h : Forall₂ PartitionMarks qs parts) :
    Reads parts.flatten ⟨⟨ps, cs⟩, true, none⟩ ⟨⟨ps ++ qs, cs⟩, true, none⟩ := by
  induction h generalizing ps with
  | nil => simpa using Reads.nil
  | @cons q part qs parts hpart _ ih =>
    have hrest := @ih (ps ++ [q])
    rw [append_assoc, singleton_append] at hrest
    exact (reads_partition hpart).append hrest

theorem reads_connections {ds : List ConnectionSize} (h : ∀ c ∈ ds, c.size ≤ Word.max64) :
    Reads (ds.map connectionMark) ⟨⟨ps, cs⟩, true, pending⟩ ⟨⟨ps, cs ++ ds⟩, true, pending⟩ := by
  induction ds generalizing cs with
  | nil => simpa using Reads.nil
  | cons c ds ih =>
    obtain ⟨hc, hds⟩ := forall_mem_cons.1 h
    have hrest := @ih (cs ++ [c]) hds
    rw [append_assoc, singleton_append] at hrest
    refine .cons _ (fun tag hmeans => ?_) hrest
    cases hmeans with
    | empty hname hattributes =>
      rw [readTag, readElement_of_root rfl, elementOf_eq hname]
      simp [readConnection, attributesOf, hattributes, required, lookup_cons, sizeOf_repr hc,
        bind, Except.bind, pure, Except.pure]

/-- every layout is read as its mapping -/
theorem parse_of_layout {text : List Char} (hsizes : ∀ c ∈ m.connections, c.size ≤ Word.max64) (h : m.Layout text) :
    parse (String.ofList text) = .ok m := by
  obtain ⟨parts, hparts, hlays⟩ := h
  have hproper : ∀ mark ∈ documentMarks parts.flatten (m.connections.map connectionMark), mark.Proper := by
    have hpartitions := proper_partitions hparts
    have hconnections := forall_mem_map.2 fun c (_ : c ∈ m.connections) => proper_connection c
    have hnone : Keyed [] := keyed_of_subset (nil_subset _) nodup_nil
    have hnames : ∀ name ∈ vocabulary, IsName name := fun _ => isName_of_mem
    simp only [vocabulary, forall_mem_cons] at hnames
    simp only [documentMarks, forall_mem_append]
    refine ⟨⟨⟨⟨?_, hpartitions⟩, ?_⟩, hconnections⟩, ?_⟩ <;> simp [Mark.Proper, hnone, hnames]
  obtain ⟨tags, hscan, hmeans⟩ := scanFrom_of_lays hlays hproper (nests_document hparts) le_rfl
  have hreads : Reads (documentMarks parts.flatten (m.connections.map connectionMark)) {} ⟨m, true, none⟩ := by
    refine .append (.append
        (.append (.append (.cons _ (fun _ => readTag_root) (.cons _ (fun _ h => readTag_other rfl h (by decide)) .nil))
      (reads_partitions hparts)) (.cons _ (fun _ h => readTag_close h (by decide))
      (.cons _ (fun _ h => readTag_other rfl h (by decide)) .nil)))
      (reads_connections hsizes)) (.cons _ (fun _ h => readTag_close h (by decide))
      (.cons _ (fun _ h => readTag_close h (by decide)) .nil))
  have hfound : scan (String.ofList text) = ⟨tags, true⟩ := by rw [scan, String.toList_ofList]; exact hscan
  rw [parse_eq_ok_iff, hfound]
  exact ⟨rfl, _, hreads tags hmeans, rfl, rfl⟩

/-! ## The written document -/

/-- the text of a mark as it is written -/
def markText : Mark → List Char
  | .start name attributes => writeTag name attributes false
  | .empty name attributes => writeTag name attributes true
  | .close name => writeEnd name

theorem exists_writeTag (name : String) (attributes : Attributes) : ∃ cs, WritesAttributes attributes cs ∧
    ∀ isEmpty, writeTag name attributes isEmpty = '<' :: (name.toList ++ cs ++
      if isEmpty then ['/', '>'] else ['>']) := by
  refine ⟨attributes.flatMap _, ?_, fun isEmpty => by rw [writeTag]; rfl⟩
  induction attributes with
  | nil => exact .none fun c hc => by cases hc
  | cons a attributes ih =>
    have hgap : IsGap [' '] := by simp [IsGap, isSpace]
    simpa [writeAttribute] using @WritesAttributes.cons _ _ a.1 a.2 _ (by simp) hgap ih

theorem lays_markText (marks : List Mark) : Lays marks (marks.flatMap markText) := by
  induction marks with
  | nil => exact .done not_mem_nil
  | cons mark marks ih =>
    obtain ⟨text, hwrites, htext⟩ : ∃ text, mark.Writes text ∧ markText mark = '<' :: (text ++ ['>']) := by
      cases mark with
      | start name attributes =>
        obtain ⟨cs, hcs, htext⟩ := exists_writeTag name attributes
        exact ⟨_, .start hcs, htext false⟩
      | empty name attributes =>
        obtain ⟨cs, hcs, htext⟩ := exists_writeTag name attributes
        exact ⟨_, .empty hcs, by rw [markText, htext]; simp⟩
      | close name => exact ⟨_, .close, rfl⟩
    simpa [htext] using Lays.cons not_mem_nil hwrites ih

/-- the written document is a layout -/
theorem layout_render (m : Mapping) : m.Layout m.render.toList := by
  refine ⟨m.partitions.map partitionMarks, forall₂_map_right_iff.2 (forall₂_same.2 fun p _ => .full), ?_⟩
  have hpartition : ∀ p, (partitionMarks p).flatMap markText = writePartition p := fun p => by
    simp [partitionMarks, writePartition, flatMap_append, flatMap_map, markText, instanceMark, partitionAttributes]
  have hpartitions : (m.partitions.map partitionMarks).flatten.flatMap markText =
    m.partitions.flatMap writePartition := by
    rw [← flatMap_def, flatMap_assoc]
    simp only [hpartition]
  have hconnections : (m.connections.map connectionMark).flatMap markText = m.connections.flatMap writeConnection := by
    rw [flatMap_map]
    rfl
  have hlays :=
    lays_markText (documentMarks (m.partitions.map partitionMarks).flatten (m.connections.map connectionMark))
  rw [documentMarks] at hlays ⊢
  simp only [flatMap_append, hpartitions, hconnections] at hlays
  rw [render, String.toList_ofList]
  simpa [markText] using hlays

/-! ## Connections -/

/-- whether an entry has these four names -/
def Names (c : ConnectionSize) (source sourcePort target targetPort : String) : Prop :=
  c.source = source ∧ c.sourcePort = sourcePort ∧ c.target = target ∧ c.targetPort = targetPort

/-- the depth of a connection is that of the first entry with its names -/
theorem connectionSize?_eq_some_iff {source sourcePort target targetPort : String} {n : Nat} :
    m.connectionSize? source sourcePort target targetPort = some n ↔ ∃ before c after,
      m.connections = before ++ c :: after ∧ Names c source sourcePort target targetPort ∧ c.size = n ∧
      ∀ d ∈ before, ¬ Names d source sourcePort target targetPort := by
  simp only [connectionSize?, Option.map_eq_some_iff, find?_eq_some_iff_append, decide_eq_true_eq, Bool.not_eq_true',
    decide_eq_false_iff_not, Names]
  constructor
  · rintro ⟨c, ⟨hnames, before, after, hsplit, hbefore⟩, hsize⟩
    exact ⟨before, c, after, hsplit, hnames, hsize, hbefore⟩
  · rintro ⟨before, c, after, hsplit, hnames, hsize, hbefore⟩
    exact ⟨c, ⟨hnames, before, after, hsplit, hbefore⟩, hsize⟩

/-- Documents round-trip. -/
theorem parse_layout (m : Mapping) (hsizes : ∀ c ∈ m.connections, c.size ≤ Word.max64) :
    (∀ text, m.Layout text → parse (String.ofList text) = .ok m) ∧ m.Layout m.render.toList ∧
      ∃ read, parse m.render = .ok read ∧ read = m ∧ ∀ source sourcePort target targetPort n,
        read.connectionSize? source sourcePort target targetPort = some n ↔ ∃ before c after,
          m.connections = before ++ c :: after ∧ Names c source sourcePort target targetPort ∧ c.size = n ∧
          ∀ d ∈ before, ¬ Names d source sourcePort target targetPort := by
  have hread := parse_of_layout hsizes m.layout_render
  rw [String.ofList_toList] at hread
  exact ⟨fun text => parse_of_layout hsizes, m.layout_render, m, hread, rfl,
    fun _ _ _ _ _ => connectionSize?_eq_some_iff⟩

/-- markup characters in a name, a label without text, an empty partition and two entries for one connection -/
def awkwardMapping : Mapping where
  partitions := [⟨"<a & 'b'>", some "", ["\"x\"/>", ""]⟩, ⟨"", none, []⟩]
  connections := [⟨"\"x\"/>", "o", "", "i", Word.max64⟩, ⟨"\"x\"/>", "o", "", "i", 0⟩]

theorem parse_layout_awkward : parse awkwardMapping.render = .ok awkwardMapping ∧
    awkwardMapping.connectionSize? "\"x\"/>" "o" "" "i" = some Word.max64 := by
  obtain ⟨-, -, read, hread, rfl, hsize⟩ := parse_layout awkwardMapping (by decide)
  exact ⟨hread, (hsize _ _ _ _ _).2 ⟨[], _, _, rfl, by simp [Names], rfl, by simp⟩⟩

end Mapping

end Dataflow
