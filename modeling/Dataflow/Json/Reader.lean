import Dataflow.Json.Value

/-!
Reads one JSON value from a text. White space is space, tab, line feed and carriage return. A string may not hold
control characters; one whose escapes do not pair up into characters is read as `garbled`, and so is an object with such
a key.
-/

namespace Dataflow

namespace JsonValue

def isSpace (c : Char) : Bool := c = ' ' || c = '\n' || c = '\t' || c = '\r'

/-- the text without the white space in front -/
def skipSpace (cs : List Char) : List Char := cs.dropWhile isSpace

/-! ### Strings -/

/-- one piece of a string: a character, or a code unit written by its number -/
inductive Piece where
  | char (c : Char)
  | codeUnit (n : Nat)

def hexValue? (c : Char) : Option Nat :=
  if c.isDigit then some (c.toNat - 48)
  else if 'a' ≤ c ∧ c ≤ 'f' then some (c.toNat - 87)
  else if 'A' ≤ c ∧ c ≤ 'F' then some (c.toNat - 55)
  else none

/-- the four digits of a code unit -/
def codeUnit? (a b c d : Char) : Option Nat := do
  return (((← hexValue? a) * 16 + (← hexValue? b)) * 16 + (← hexValue? c)) * 16 + (← hexValue? d)

/-- the character of a one-letter escape -/
def escape? : Char → Option Char
  | '"' => some '"'
  | '\\' => some '\\'
  | '/' => some '/'
  | 'b' => some (Char.ofNat 8)
  | 'f' => some (Char.ofNat 12)
  | 'n' => some '\n'
  | 'r' => some '\r'
  | 't' => some '\t'
  | _ => none

/-- the pieces up to the closing quote, and what follows it -/
def readPieces : List Char → Option (List Piece × List Char)
  | [] => none
  | '"' :: rest => some ([], rest)
  | '\\' :: 'u' :: a :: b :: c :: d :: rest => do
    let n ← codeUnit? a b c d
    let (pieces, rest) ← readPieces rest
    return (.codeUnit n :: pieces, rest)
  | '\\' :: e :: rest => do
    let c ← escape? e
    let (pieces, rest) ← readPieces rest
    return (.char c :: pieces, rest)
  | c :: rest => do
    guard (32 ≤ c.toNat)
    let (pieces, rest) ← readPieces rest
    return (.char c :: pieces, rest)

/-- the text of a string; two code units of a surrogate pair make one character -/
def textOf? : List Piece → Option (List Char)
  | [] => some []
  | .char c :: rest => (textOf? rest).map (c :: ·)
  | .codeUnit high :: .codeUnit low :: rest =>
    if 0xD800 ≤ high ∧ high < 0xDC00 then
      if 0xDC00 ≤ low ∧ low < 0xE000 then
        (textOf? rest).map (Char.ofNat (0x10000 + (high - 0xD800) * 0x400 + (low - 0xDC00)) :: ·)
      else none
    else if 0xDC00 ≤ high ∧ high < 0xE000 then none
    else (textOf? (.codeUnit low :: rest)).map (Char.ofNat high :: ·)
  | .codeUnit n :: rest =>
    if 0xD800 ≤ n ∧ n < 0xE000 then none else (textOf? rest).map (Char.ofNat n :: ·)

/-! ### Numbers -/

/-- one or more digits, and what follows them -/
def readDigits (cs : List Char) : Option (List Char × List Char) :=
  let digits := cs.takeWhile Char.isDigit
  if digits.isEmpty then none else some (digits, cs.dropWhile Char.isDigit)

/-- a whole number without superfluous zeros, and what follows it -/
def readWhole : List Char → Option (List Char × List Char)
  | '0' :: rest => some (['0'], rest)
  | cs => readDigits cs

def readFraction : List Char → Option (List Char × List Char)
  | '.' :: rest => (readDigits rest).map fun (digits, rest) => ('.' :: digits, rest)
  | cs => some ([], cs)

def readExponent : List Char → Option (List Char × List Char)
  | e :: s :: rest =>
    if e = 'e' ∨ e = 'E' then
      if s = '+' ∨ s = '-' then
        (readDigits rest).map fun (digits, rest) => (e :: s :: digits, rest)
      else
        (readDigits (s :: rest)).map fun (digits, rest) => (e :: digits, rest)
    else some ([], e :: s :: rest)
  | [e] => if e = 'e' ∨ e = 'E' then none else some ([], [e])
  | [] => some ([], [])

def readMagnitude (cs : List Char) : Option (List Char × List Char) := do
  let (whole, rest) ← readWhole cs
  let (fraction, rest) ← readFraction rest
  let (exponent, rest) ← readExponent rest
  return (whole ++ fraction ++ exponent, rest)

def readNumber : List Char → Option (List Char × List Char)
  | '-' :: rest => (readMagnitude rest).map fun (digits, rest) => ('-' :: digits, rest)
  | cs => readMagnitude cs

/-! ### Values -/

def ofPieces (pieces : List Piece) : JsonValue :=
  match textOf? pieces with
  | some cs => .string (String.ofList cs)
  | none => .garbled

/-- the key of a member with the colon behind it; no text if it is garbled -/
def readKey (cs : List Char) : Option (Option String × List Char) := do
  match skipSpace cs with
  | '"' :: rest =>
    let (pieces, rest) ← readPieces rest
    match skipSpace rest with
    | ':' :: rest => return ((textOf? pieces).map String.ofList, rest)
    | _ => none
  | _ => none

def ofMembers (members : List (Option String × JsonValue)) : JsonValue :=
  match members.mapM fun (key, v) => key.map (·, v) with
  | some members => .object members
  | none => .garbled

mutual

/-- a value; `fuel` bounds the number of values and separators inside it -/
def readValue : Nat → List Char → Option (JsonValue × List Char)
  | 0, _ => none
  | fuel + 1, cs =>
    match skipSpace cs with
    | 'n' :: 'u' :: 'l' :: 'l' :: rest => some (.null, rest)
    | 't' :: 'r' :: 'u' :: 'e' :: rest => some (.bool true, rest)
    | 'f' :: 'a' :: 'l' :: 's' :: 'e' :: rest => some (.bool false, rest)
    | '"' :: rest => (readPieces rest).map fun (pieces, rest) => (ofPieces pieces, rest)
    | '[' :: rest =>
      match skipSpace rest with
      | ']' :: rest => some (.array [], rest)
      | rest => (readItems fuel rest).map fun (items, rest) => (.array items, rest)
    | '\x7b' :: rest =>
      match skipSpace rest with
      | '\x7d' :: rest => some (.object [], rest)
      | rest => (readMembers fuel rest).map fun (members, rest) => (ofMembers members, rest)
    | cs => (readNumber cs).map fun (digits, rest) => (.number (String.ofList digits), rest)

/-- the items of an array up to its closing bracket -/
def readItems : Nat → List Char → Option (List JsonValue × List Char)
  | 0, _ => none
  | fuel + 1, cs => do
    let (v, rest) ← readValue fuel cs
    match skipSpace rest with
    | ',' :: rest =>
      let (more, rest) ← readItems fuel rest
      return (v :: more, rest)
    | ']' :: rest => return ([v], rest)
    | _ => none

/-- the members of an object up to its closing brace -/
def readMembers : Nat → List Char → Option (List (Option String × JsonValue) × List Char)
  | 0, _ => none
  | fuel + 1, cs => do
    let (key, rest) ← readKey cs
    let (v, rest) ← readValue fuel rest
    match skipSpace rest with
    | ',' :: rest =>
      let (more, rest) ← readMembers fuel rest
      return ((key, v) :: more, rest)
    | '\x7d' :: rest => return ([(key, v)], rest)
    | _ => none

end

/-- the value that a whole text stands for; no value has more parts than its text has characters -/
def parse? (text : String) : Option JsonValue := do
  let cs := text.toList
  let (v, rest) ← readValue (2 * cs.length + 2) cs
  if (skipSpace rest).isEmpty then return v else none

/-! ### Reading records -/

/-- the fields of a record: from an object, where unknown keys are passed over and no known key may repeat, or from an
array that lists the values in the order of the fields -/
def fields? (names : List String) : JsonValue → Option (List (String × JsonValue))
  | .object members =>
    let known := members.filter fun m => names.contains m.1
    if (known.map (·.1)).Nodup then some known else none
  | .array items => if items.length ≤ names.length then some (names.zip items) else none
  | _ => none

/-- a natural number that does not pass a limit, written in digits only -/
def nat? (limit : Nat) : JsonValue → Option Nat
  | .number literal =>
    if literal.toList.all Char.isDigit then
      let n := literal.toList.foldl (fun n c => n * 10 + (c.toNat - 48)) 0
      if n ≤ limit then some n else none
    else none
  | _ => none

def bool? : JsonValue → Option Bool
  | .bool b => some b
  | _ => none

def string? : JsonValue → Option String
  | .string s => some s
  | _ => none

/-- a value that may be absent -/
def nullable? {α : Type} (read : JsonValue → Option α) : JsonValue → Option (Option α)
  | .null => some none
  | v => (read v).map some

/-- a field that falls back to a default when it is not there -/
def fieldD? {α : Type} (fields : List (String × JsonValue)) (name : String) (read : JsonValue → Option α)
    (default : α) : Option α :=
  match fields.lookup name with
  | none => some default
  | some v => read v

/-- a field that has to be there -/
def field? {α : Type} (fields : List (String × JsonValue)) (name : String)
    (read : JsonValue → Option α) : Option α := do
  read (← fields.lookup name)

end JsonValue

end Dataflow
