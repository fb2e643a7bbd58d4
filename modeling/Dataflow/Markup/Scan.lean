/-!
The tags of a markup text.

A scan lists start, empty and end tags in order and says whether the text ends cleanly. Text between tags is passed
over, and so are comments, character data sections, processing instructions and document type declarations. An end tag
has to name the element that was opened last; elements that are still open at the end of the text are no error. An end
tag or a processing instruction may lack its closing bracket if the text ends there, and so may a text end in an opening
bracket. The scan stops at the first other piece of markup that is malformed or not closed.
-/

namespace Dataflow.Markup

inductive Tag where
  /-- a start tag: its text between the angle brackets -/
  | start (content : List Char)
  /-- an empty element: its text without the final slash -/
  | empty (content : List Char)
  /-- an end tag: its name -/
  | close (name : List Char)
deriving DecidableEq, Repr

/-- the tags of a text, and whether the text ends cleanly after them -/
structure Scan where
  tags : List Tag
  clean : Bool
deriving DecidableEq, Repr

def isSpace (c : Char) : Bool := c = ' ' || c = '\r' || c = '\n' || c = '\t'

/-- the name at the front of a tag -/
def nameOf (content : List Char) : List Char := content.takeWhile (!isSpace ·)

/-- the text up to a character, and what follows it -/
def cutAt (c : Char) : List Char → Option (List Char × List Char)
  | [] => none
  | d :: rest => if d = c then some ([], rest) else (cutAt c rest).map fun (before, rest) => (d :: before, rest)

/-- the text up to a character or, if it is not there, to the end, and what follows it -/
def upTo (c : Char) (cs : List Char) : List Char × List Char := (cs.takeWhile (· ≠ c), (cs.dropWhile (· ≠ c)).drop 1)

/-- the text of a tag up to the closing bracket outside quotes, and what follows it; `quote` is the quote that is
open -/
def cutTag : Option Char → List Char → Option (List Char × List Char)
  | _, [] => none
  | none, '>' :: rest => some ([], rest)
  | none, c :: rest =>
    (cutTag (if c = '"' ∨ c = '\'' then some c else none) rest).map fun (before, rest) => (c :: before, rest)
  | some q, c :: rest =>
    (cutTag (if c = q then none else some q) rest).map fun (before, rest) => (c :: before, rest)

/-- the text up to a closing bracket that follows `mark`, and what comes after it; `seen` is the text so far, reversed,
of which at least `least` characters come first -/
def cutAfter (mark : List Char) (least : Nat) (seen : List Char) : List Char → Option (List Char × List Char)
  | [] => none
  | c :: rest =>
    if c = '>' ∧ least ≤ seen.length ∧ mark.isPrefixOf seen then some (seen.reverse, rest)
    else cutAfter mark least (c :: seen) rest

/-- the text up to the closing bracket that leaves no other bracket open, and what comes after it -/
def cutBalanced (seen : List Char) : Int → List Char → Option (List Char × List Char)
  | _, [] => none
  | balance, c :: rest =>
    if c = '>' ∧ balance = 0 then some (seen.reverse, rest)
    else
      cutBalanced (c :: seen) (if c = '<' then balance + 1 else if c = '>' then balance - 1 else balance) rest

/-- whether a text starts with a word, in either case -/
def startsWithWord (word : List Char) (cs : List Char) : Bool :=
  word.isPrefixOf ((cs.take word.length).map Char.toUpper)

/-- what follows a piece of markup that starts with an exclamation mark; the text begins with that mark -/
def skipDeclaration (cs : List Char) : Option (List Char) :=
  match cs with
  | '!' :: '-' :: _ => do
    let (body, rest) ← cutAfter ['-', '-'] 5 [] cs
    if ['!', '-', '-'].isPrefixOf body then return rest else none
  | '!' :: '[' :: _ => do
    let (body, rest) ← cutAfter [']', ']'] 0 [] cs
    if startsWithWord "![CDATA[".toList body then return rest else none
  | '!' :: 'D' :: _ | '!' :: 'd' :: _ => do
    let (body, rest) ← cutBalanced [] 0 cs
    if startsWithWord "!DOCTYPE".toList body ∧ (body.drop 8).any (!isSpace ·) then return rest else none
  | _ => none

/-- what follows a processing instruction; the text begins with its question mark -/
def skipInstruction (cs : List Char) : Option (List Char) :=
  let (body, rest) := upTo '>' cs
  if 2 < body.length ∧ body.getLast? = some '?' then some rest else none

/-- a name without the white space behind it; nothing but white space is kept -/
def trimEnd (name : List Char) : List Char :=
  let kept := (name.reverse.dropWhile isSpace).reverse
  if kept.isEmpty then name else kept

/-- one piece of markup and what follows it; the text begins behind the opening bracket -/
def readMarkup (cs : List Char) : Option (Option Tag × List Char) :=
  match cs with
  | [] => some (none, [])
  | '!' :: _ => (skipDeclaration cs).map fun rest => (none, rest)
  | '?' :: _ => (skipInstruction cs).map fun rest => (none, rest)
  | '/' :: rest =>
    let (name, rest) := upTo '>' rest
    some (some (.close (trimEnd name)), rest)
  | _ =>
    (cutTag none cs).map fun (content, rest) =>
      (some (if content.getLast? = some '/' then .empty content.dropLast else .start content), rest)

/-- the elements that are open after a tag, the last one first; none if the tag closes what is not open -/
def openAfter (opened : List (List Char)) : Tag → Option (List (List Char))
  | .start content => some (nameOf content :: opened)
  | .empty _ => some opened
  | .close name =>
    match opened with
    | [] => none
    | last :: opened => if last = name then some opened else none

/-- the tags of a text of at most `fuel` characters with these elements open -/
def scanFrom : Nat → List (List Char) → List Char → Scan
  | 0, _, cs => ⟨[], cs.isEmpty⟩
  | fuel + 1, opened, cs =>
    match cutAt '<' cs with
    | none => ⟨[], true⟩
    | some (_, rest) =>
      match readMarkup rest with
      | none => ⟨[], false⟩
      | some (none, rest) => scanFrom fuel opened rest
      | some (some tag, rest) =>
        match openAfter opened tag with
        | none => ⟨[], false⟩
        | some opened =>
          let scan := scanFrom fuel opened rest
          { scan with tags := tag :: scan.tags }

def scan (text : String) : Scan := scanFrom text.toList.length [] text.toList

end Dataflow.Markup
