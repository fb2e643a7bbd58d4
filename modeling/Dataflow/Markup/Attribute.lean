import Dataflow.Markup.Scan

/-!
The attributes of a tag: `key="value"` or `key='value'` with white space allowed around the sign. In a value the five
named entities and numbered characters are replaced. Beside the readers stands the writer of a value.
-/

namespace Dataflow.Markup

/-! ### Entities -/

/-- a number in a base below 17, of at most `limit` digits -/
def codeOf? (base limit : Nat) (digits : List Char) : Option Nat :=
  if digits.length ≤ limit then
    digits.foldlM (fun n c =>
      let d :=
        if c.isDigit then c.toNat - 48
        else if 'a' ≤ c ∧ c ≤ 'f' then c.toNat - 87
        else if 'A' ≤ c ∧ c ≤ 'F' then c.toNat - 55
        else base
      if d < base then some (n * base + d) else none) 0
  else none

/-- the character of a number other than zero -/
def charOf? (code : Nat) : Option Char :=
  if code ≠ 0 ∧ code.isValidChar then some (Char.ofNat code) else none

/-- the character that an entity stands for, by what is between `&` and `;` -/
def entity? : List Char → Option Char
  | '#' :: 'x' :: digits => (codeOf? 16 6 digits).bind charOf?
  | '#' :: digits => (codeOf? 10 7 digits).bind charOf?
  | ['l', 't'] => some '<'
  | ['g', 't'] => some '>'
  | ['a', 'm', 'p'] => some '&'
  | ['a', 'p', 'o', 's'] => some '\''
  | ['q', 'u', 'o', 't'] => some '"'
  | _ => none

/-- the value with its entities replaced; `name` holds what was read of an open entity, reversed -/
def unescapeFrom : Option (List Char) → List Char → Option (List Char)
  | none, [] => some []
  | some _, [] => none
  | none, c :: rest => if c = '&' then unescapeFrom (some []) rest else (unescapeFrom none rest).map (c :: ·)
  | some name, c :: rest =>
    if c = ';' then do
      let d ← entity? name.reverse
      return d :: (← unescapeFrom none rest)
    else if c = '&' then none
    else unescapeFrom (some (c :: name)) rest

def unescape (value : List Char) : Option (List Char) := unescapeFrom none value

/-- a character inside a quoted value -/
def escapeChar : Char → List Char
  | '<' => "&lt;".toList
  | '>' => "&gt;".toList
  | '&' => "&amp;".toList
  | '\'' => "&apos;".toList
  | '"' => "&quot;".toList
  | c => [c]

def escape (value : List Char) : List Char := value.flatMap escapeChar

/-! ### Attributes -/

/-- a character that ends a key -/
def endsKey (c : Char) : Bool := isSpace c || c = '='

/-- the key of an attribute and what follows the sign behind it; the character `first` belongs to the key whatever it
is -/
def readKey (first : Char) (cs : List Char) : Option (List Char × List Char) :=
  match (cs.dropWhile (!endsKey ·)).dropWhile isSpace with
  | '=' :: rest => some (first :: cs.takeWhile (!endsKey ·), rest)
  | _ => none

/-- a quoted value and what follows it -/
def readQuoted (cs : List Char) : Option (List Char × List Char) :=
  match cs.dropWhile isSpace with
  | '"' :: rest => cutAt '"' rest
  | '\'' :: rest => cutAt '\'' rest
  | _ => none

abbrev Attributes := List (String × String)

/-- the attributes in a text of at most `fuel` characters, no key twice and none of those `seen` -/
def readAttributes : Nat → List String → List Char → Option Attributes
  | fuel, seen, cs =>
    match cs.dropWhile isSpace with
    | [] => some []
    | c :: rest =>
      match fuel with
      | 0 => none
      | fuel + 1 => do
        let (key, rest) ← readKey c rest
        let key := String.ofList key
        if seen.contains key then none else do
          let (value, rest) ← readQuoted rest
          let value ← unescape value
          let more ← readAttributes fuel (key :: seen) rest
          return (key, String.ofList value) :: more

def attributes? (content : List Char) : Option Attributes :=
  readAttributes content.length [] (content.dropWhile (!isSpace ·))

def writeAttribute (key value : String) : List Char :=
  [' '] ++ key.toList ++ ['=', '"'] ++ escape value.toList ++ ['"']

end Dataflow.Markup
