import Dataflow.Markup.Attribute
import Mathlib.Data.List.Forall2
import Mathlib.Data.List.Nodup

/-!
Written markup is read back.

A text lays out marks in order (`Markup.Lays`), with any text without an opening bracket between them. If the marks
nest, the scan finds their tags (`Markup.scanFrom_of_lays`).
-/

namespace Dataflow.Markup

open List

/-! ## Cutting -/

variable {c : Char} {cs rest before after gap : List Char}

theorem cutAt_append (h : c ∉ cs) : cutAt c (cs ++ c :: rest) = some (cs, rest) := by
  induction cs with
  | nil => simp [cutAt]
  | cons d cs ih =>
    rw [mem_cons, not_or] at h
    simp [cutAt, Ne.symm h.1, ih h.2]

theorem cutAt_eq_none (h : c ∉ cs) : cutAt c cs = none := by
  induction cs with
  | nil => rfl
  | cons d cs ih =>
    rw [mem_cons, not_or] at h
    simp [cutAt, Ne.symm h.1, ih h.2]

/-- a text in front of which the end of a tag is not looked for -/
def Enclosed (cs : List Char) : Prop :=
  ∀ rest before after : List Char, cutTag none rest = some (before, after) →
    cutTag none (cs ++ rest) = some (cs ++ before, after)

theorem Enclosed.append {ds : List Char} (h : Enclosed cs) (h' : Enclosed ds) : Enclosed (cs ++ ds) := by
  intro rest before after hcut
  rw [append_assoc, append_assoc]
  exact h _ _ _ (h' _ _ _ hcut)

theorem enclosed_plain (h : ∀ c ∈ cs, c ≠ '>' ∧ c ≠ '"' ∧ c ≠ '\'') : Enclosed cs := by
  intro rest before after hcut
  induction cs with
  | nil => exact hcut
  | cons c cs ih =>
    obtain ⟨hbracket, hquote, happ⟩ := h c mem_cons_self
    have hrest := ih fun d hd => h d (mem_cons_of_mem c hd)
    simp [cutTag, hquote, happ, hrest]

theorem enclosed_quoted (h : '"' ∉ cs) : Enclosed ('"' :: cs ++ ['"']) := by
  intro rest before after hcut
  have hinside : cutTag (some '"') (cs ++ '"' :: rest) = some (cs ++ '"' :: before, after) := by
    induction cs with
    | nil => simp [cutTag, hcut]
    | cons c cs ih =>
      rw [mem_cons, not_or] at h
      simp [cutTag, Ne.symm h.1, ih h.2]
  simpa [cutTag] using hinside

/-! ## Values -/

theorem not_mem_escape (value : List Char) : '"' ∉ escape value := by
  intro hmem
  obtain ⟨c, -, hc⟩ := mem_flatMap.1 hmem
  unfold escapeChar at hc
  split at hc
  case h_6 hquote => exact hquote (mem_singleton.1 hc).symm
  all_goals revert hc; decide

theorem unescape_escape (value : List Char) : unescape (escape value) = some value := by
  unfold unescape
  induction value with
  | nil => rfl
  | cons c value ih =>
    change unescapeFrom none (escapeChar c ++ escape value) = _
    unfold escapeChar
    split
    all_goals simp_all [unescapeFrom, entity?]

/-! ## Attributes -/

def isNameChar (c : Char) : Bool :=
  !isSpace c && c != '=' && c != '"' && c != '\'' && c != '>' && c != '/' && c != '!' && c != '?'

/-- a name or a key as documents have them -/
def IsName (name : String) : Prop := name.toList ≠ [] ∧ ∀ c ∈ name.toList, isNameChar c = true

def IsGap (gap : List Char) : Prop := ∀ c ∈ gap, isSpace c = true

/-- keys are names, and none comes twice -/
def Keyed (keys : List String) : Prop := (∀ key ∈ keys, IsName key) ∧ keys.Nodup

/-- the text of attributes in order, each behind white space -/
inductive WritesAttributes : Attributes → List Char → Prop
  | none {gap : List Char} : IsGap gap → WritesAttributes [] gap
  | cons {gap cs : List Char} {key value : String} {attributes : Attributes} : gap ≠ [] →
      IsGap gap → WritesAttributes attributes cs →
      WritesAttributes ((key, value) :: attributes)
        (gap ++ (key.toList ++ '=' :: '"' :: (escape value.toList ++ '"' :: cs)))

variable {attributes : Attributes} {key : String} {fuel : Nat}

theorem IsGap.dropWhile (h : IsGap gap) : (gap ++ cs).dropWhile isSpace = cs.dropWhile isSpace :=
  dropWhile_append_of_pos h

theorem not_endsKey (h : isNameChar c = true) : endsKey c = false := by
  simp_all [isNameChar, endsKey]

theorem readKey_append {first : Char} {key : List Char} (h : ∀ c ∈ key, isNameChar c = true) :
    readKey first (key ++ '=' :: rest) = some (first :: key, rest) := by
  have hkey : ∀ c ∈ key, (!endsKey c) = true := fun c hc => by rw [not_endsKey (h c hc)]; rfl
  rw [readKey, takeWhile_append_of_pos hkey, dropWhile_append_of_pos hkey]
  simp [endsKey, isSpace]

theorem readQuoted_append (value : List Char) :
    readQuoted ('"' :: (escape value ++ '"' :: rest)) = some (escape value, rest) :=
  cutAt_append (not_mem_escape value)

theorem readAttributes_of_writes {seen : List String} (h : WritesAttributes attributes cs)
    (hkeys : Keyed (attributes.map Prod.fst)) (hseen : ∀ key ∈ attributes.map Prod.fst, key ∉ seen)
    (hfuel : attributes.length ≤ fuel) : readAttributes fuel seen cs = some attributes := by
  induction h generalizing fuel seen with
  | @none gap hgap =>
    have hempty : (gap ++ []).dropWhile isSpace = [] := hgap.dropWhile
    rw [append_nil] at hempty
    unfold readAttributes
    rw [hempty]
  | @cons gap cs key value attributes hne hgap hmore ih =>
    obtain ⟨fuel, rfl⟩ : ∃ n, fuel = n + 1 := ⟨fuel - 1, by simp at hfuel; omega⟩
    obtain ⟨hname, hnames⟩ := forall_mem_cons.1 hkeys.1
    obtain ⟨hunseen, hseen⟩ := forall_mem_cons.1 hseen
    obtain ⟨hfirst, hmoreKeys⟩ := nodup_cons.1 hkeys.2
    have hrest : readAttributes fuel (key :: seen) cs = some attributes := by
      refine ih ⟨hnames, hmoreKeys⟩ (fun other hother hmem => ?_) (Nat.le_of_succ_le_succ hfuel)
      rcases mem_cons.1 hmem with rfl | hmem
      · exact hfirst hother
      · exact hseen other hother hmem
    cases hkey : key.toList with
    | nil => exact absurd hkey hname.1
    | cons first more =>
      have hchars := forall_mem_cons.1 (hkey ▸ hname.2)
      have hdrop : (gap ++ (first :: more ++ '=' :: '"' :: (escape value.toList ++ '"' :: cs))).dropWhile isSpace =
          first :: (more ++ '=' :: '"' :: (escape value.toList ++ '"' :: cs)) := by
        have hspace : isSpace first = false := (Bool.or_eq_false_iff.1 (not_endsKey hchars.1)).1
        rw [hgap.dropWhile, cons_append, dropWhile_cons_of_neg (by simp [hspace])]
      unfold readAttributes
      rw [hdrop]
      simp [readKey_append hchars.2, ← hkey, hunseen, readQuoted_append, unescape_escape, hrest]

/-! ## Tags -/

/-- a tag as it is meant -/
inductive Mark where
  | start (name : String) (attributes : Attributes)
  | empty (name : String) (attributes : Attributes)
  | close (name : String)

namespace Mark

/-- the text of a mark between its brackets -/
inductive Writes : Mark → List Char → Prop
  | start {name : String} {attributes : Attributes} {cs : List Char} : WritesAttributes attributes cs →
      Writes (start name attributes) (name.toList ++ cs)
  | empty {name : String} {attributes : Attributes} {cs : List Char} : WritesAttributes attributes cs →
      Writes (empty name attributes) (name.toList ++ cs ++ ['/'])
  | close {name : String} : Writes (close name) ('/' :: name.toList)

/-- with a name for a name, and fit keys -/
def Proper : Mark → Prop
  | start name attributes | empty name attributes => IsName name ∧ Keyed (attributes.map Prod.fst)
  | close name => IsName name

/-- a tag that says what the mark says -/
inductive Means : Mark → Tag → Prop
  | start {name : String} {attributes : Attributes} {content : List Char} : nameOf content = name.toList →
      attributes? content = some attributes → Means (start name attributes) (.start content)
  | empty {name : String} {attributes : Attributes} {content : List Char} : nameOf content = name.toList →
      attributes? content = some attributes → Means (empty name attributes) (.empty content)
  | close {name : String} : Means (close name) (.close name.toList)

end Mark

/-- marks in a text, with anything but opening brackets around them -/
inductive Lays : List Mark → List Char → Prop
  | done {gap : List Char} : '<' ∉ gap → Lays [] gap
  | cons {gap text cs : List Char} {mark : Mark} {marks : List Mark} : '<' ∉ gap → mark.Writes text → Lays marks cs →
      Lays (mark :: marks) (gap ++ '<' :: (text ++ '>' :: cs))

/-- with these elements open, every end tag closes the last one -/
def Nests : List String → List Mark → Prop
  | _, [] => True
  | opened, .start name _ :: marks => Nests (name :: opened) marks
  | opened, .empty _ _ :: marks => Nests opened marks
  | last :: opened, .close name :: marks => name = last ∧ Nests opened marks
  | [], .close _ :: _ => False

variable {name : String} {mark : Mark} {marks : List Mark}

/-- the text behind a name begins with white space -/
theorem WritesAttributes.head (h : WritesAttributes attributes cs) : cs.head?.all isSpace = true := by
  cases h with
  | none hgap => cases cs <;> simp_all [IsGap]
  | @cons gap cs key value attributes hne hgap hmore => cases gap <;> simp_all [IsGap]

theorem WritesAttributes.length_le (h : WritesAttributes attributes cs) : attributes.length ≤ cs.length := by
  induction h with
  | none => exact Nat.zero_le _
  | cons hne hgap hmore ih => simp; omega

theorem nameOf_append (h : IsName name) (hattributes : WritesAttributes attributes cs) :
    nameOf (name.toList ++ cs) = name.toList ∧ (name.toList ++ cs).dropWhile (!isSpace ·) = cs := by
  have hchars : ∀ c ∈ name.toList, (!isSpace c) = true := fun c hc => by
    rw [(Bool.or_eq_false_iff.1 (not_endsKey (h.2 c hc))).1]; rfl
  have hhead := hattributes.head
  rw [nameOf, takeWhile_append_of_pos hchars, dropWhile_append_of_pos hchars]
  cases cs <;> simp_all

theorem attributes?_append (h : IsName name) (hattributes : WritesAttributes attributes cs)
    (hkeys : Keyed (attributes.map Prod.fst)) : attributes? (name.toList ++ cs) = some attributes := by
  rw [attributes?, (nameOf_append h hattributes).2]
  refine readAttributes_of_writes hattributes hkeys (fun _ _ => not_mem_nil) ?_
  have hle := hattributes.length_le
  rw [length_append]
  omega

/-! ## Scanning -/

theorem IsName.enclosed (h : IsName name) : Enclosed name.toList :=
  enclosed_plain fun c hc => by have := h.2 c hc; simp_all [isNameChar]

theorem IsGap.enclosed (h : IsGap gap) : Enclosed gap :=
  enclosed_plain fun c hc => by have := h c hc; refine ⟨?_, ?_, ?_⟩ <;> rintro rfl <;> cases this

theorem WritesAttributes.enclosed (h : WritesAttributes attributes cs)
    (hnames : ∀ key ∈ attributes.map Prod.fst, IsName key) : Enclosed cs := by
  induction h with
  | none hgap => exact hgap.enclosed
  | @cons gap cs key value attributes hne hgap hmore ih =>
    obtain ⟨hname, hnames⟩ := forall_mem_cons.1 hnames
    have hsign : Enclosed ['='] := enclosed_plain (by simp)
    have hvalue := (enclosed_quoted (not_mem_escape value.toList)).append (ih hnames)
    simpa using hgap.enclosed.append (hname.enclosed.append (hsign.append hvalue))

theorem WritesAttributes.last (h : WritesAttributes attributes cs) : cs.getLast? ≠ some '/' := by
  induction h with
  | none hgap =>
    intro hlast
    cases hgap _ (mem_of_getLast? hlast)
  | @cons gap cs key value attributes hne hgap hmore ih =>
    cases hlast : cs.getLast? with
    | none => simp [getLast?_append, getLast?_cons, hlast]
    | some d =>
      simpa [getLast?_append, getLast?_cons, hlast] using ih

/-- an element is read up to its bracket -/
theorem readMarkup_element {content : List Char} (hfirst : content.head?.any isNameChar = true)
    (hcut : cutTag none (content ++ '>' :: rest) = some (content, rest)) : readMarkup (content ++ '>' :: rest) =
      some (some (if content.getLast? = some '/' then .empty content.dropLast else .start content), rest) := by
  unfold readMarkup
  split
  · simp_all
  iterate 3
    · next hhead =>
      cases content with
      | nil => cases hfirst
      | cons c cs =>
        cases (cons.inj hhead).1
        cases hfirst
  · rw [hcut]
    rfl

theorem trimEnd_name (h : IsName name) : trimEnd name.toList = name.toList := by
  have hkept : name.toList.reverse.dropWhile isSpace = name.toList.reverse := by
    cases hchars : name.toList.reverse with
    | nil => rfl
    | cons c more =>
      have hspace := not_endsKey (h.2 c (mem_reverse.1 (hchars ▸ mem_cons_self)))
      exact dropWhile_cons_of_neg (by simp [(Bool.or_eq_false_iff.1 hspace).1])
  simp [trimEnd, hkept]

theorem readMarkup_of_writes {text : List Char} (h : mark.Writes text) (hproper : mark.Proper) (rest : List Char) :
    ∃ tag, mark.Means tag ∧ readMarkup (text ++ '>' :: rest) = some (some tag, rest) := by
  have hclosed : cutTag none ('>' :: rest) = some ([], rest) := rfl
  have hfirst : ∀ {name cs}, IsName name → (name.toList ++ cs).head?.any isNameChar = true := by
    intro name cs hname
    cases hchars : name.toList with
    | nil => exact absurd hchars hname.1
    | cons c more => exact hname.2 c (by simp [hchars])
  cases h with
  | @start name attributes cs hattributes =>
    obtain ⟨hname, hkeys⟩ := hproper
    refine ⟨_, .start (nameOf_append hname hattributes).1 (attributes?_append hname hattributes hkeys), ?_⟩
    have henclosed := hname.enclosed.append (hattributes.enclosed hkeys.1)
    have hlast : (name.toList ++ cs).getLast? ≠ some '/' := by
      intro hslash
      rw [getLast?_append, Option.or_eq_some_iff] at hslash
      rcases hslash with hslash | ⟨-, hslash⟩
      · exact hattributes.last hslash
      · cases hname.2 _ (mem_of_getLast? hslash)
    rw [readMarkup_element (hfirst hname) (by simpa using henclosed _ _ _ hclosed), if_neg hlast]
  | @empty name attributes cs hattributes =>
    obtain ⟨hname, hkeys⟩ := hproper
    refine ⟨_, .empty (nameOf_append hname hattributes).1 (attributes?_append hname hattributes hkeys), ?_⟩
    have hslash : Enclosed ['/'] := enclosed_plain (by simp)
    have henclosed := (hname.enclosed.append (hattributes.enclosed hkeys.1)).append hslash
    rw [readMarkup_element (by rw [append_assoc]; exact hfirst hname) (by simpa using henclosed _ _ _ hclosed),
      if_pos (by simp)]
    simp
  | @close name =>
    refine ⟨_, .close, ?_⟩
    have hcut : upTo '>' (name.toList ++ '>' :: rest) = (name.toList, rest) := by
      have hchars : ∀ c ∈ name.toList, decide (c ≠ '>') = true :=
        fun c hc => by have := hproper.2 c hc; simp_all [isNameChar]
      rw [upTo, takeWhile_append_of_pos hchars, dropWhile_append_of_pos hchars]
      simp
    rw [cons_append, readMarkup, hcut]
    simp only [trimEnd_name hproper]

/-- the scan of a layout finds a tag for each mark -/
theorem scanFrom_of_lays {opened : List String} (h : Lays marks cs) (hproper : ∀ mark ∈ marks, mark.Proper)
    (hnests : Nests opened marks) (hfuel : cs.length ≤ fuel) :
    ∃ tags, scanFrom fuel (opened.map String.toList) cs = ⟨tags, true⟩ ∧ Forall₂ Mark.Means marks tags := by
  induction h generalizing opened fuel with
  | @done gap hgap =>
    refine ⟨[], ?_, .nil⟩
    cases fuel with
    | zero => cases gap <;> simp_all [scanFrom]
    | succ fuel => rw [scanFrom, cutAt_eq_none hgap]
  | @cons gap text cs mark marks hgap hwrites hlays ih =>
    obtain ⟨fuel, rfl⟩ : ∃ n, fuel = n + 1 := ⟨fuel - 1, by simp at hfuel; omega⟩
    obtain ⟨hmark, hproper⟩ := forall_mem_cons.1 hproper
    obtain ⟨tag, hmeans, hread⟩ := readMarkup_of_writes hwrites hmark cs
    have hfuel : cs.length ≤ fuel := by simp at hfuel; omega
    obtain ⟨opened', hopen, hnests⟩ : ∃ opened', openAfter (opened.map String.toList) tag =
      some (opened'.map String.toList) ∧
        Nests opened' marks := by
      cases hmeans with
      | @start name attributes content hname => exact ⟨name :: opened, by simp [openAfter, hname], hnests⟩
      | empty => exact ⟨opened, rfl, hnests⟩
      | close =>
        cases opened with
        | nil => cases hnests
        | cons last opened => exact ⟨opened, by simp [openAfter, hnests.1], hnests.2⟩
    obtain ⟨tags, hscan, hall⟩ := ih hproper hnests hfuel
    refine ⟨tag :: tags, ?_, .cons hmeans hall⟩
    rw [scanFrom, cutAt_append hgap]
    simp only [hread, hopen, hscan]

end Dataflow.Markup
