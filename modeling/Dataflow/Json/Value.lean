/-!
JSON values and their two written forms: compact on one line, and laid out with two spaces per level.

Numbers keep the digits they were written with. A written string quotes `"`, `\` and the control characters and leaves
every other character as it is.
-/

namespace Dataflow

inductive JsonValue where
  | null
  | bool (b : Bool)
  /-- a number by its digits -/
  | number (literal : String)
  | string (s : String)
  /-- a string whose escapes stand for no text, or an object with such a key; it is written as an empty string -/
  | garbled
  | array (items : List JsonValue)
  | object (members : List (String × JsonValue))

namespace JsonValue

def nat (n : Nat) : JsonValue := .number (toString n)

def ofOption {α : Type} (f : α → JsonValue) : Option α → JsonValue
  | none => .null
  | some a => f a

def ofList {α : Type} (f : α → JsonValue) (items : List α) : JsonValue := .array (items.map f)

/-! ### Strings -/

/-- a hexadecimal digit in lower case -/
def hexDigit (n : Nat) : Char := if n < 10 then Char.ofNat (48 + n) else Char.ofNat (87 + n)

/-- a character inside a written string -/
def escapeChar (c : Char) : List Char :=
  if c = '"' then ['\\', '"']
  else if c = '\\' then ['\\', '\\']
  else if c = '\n' then ['\\', 'n']
  else if c = '\r' then ['\\', 'r']
  else if c = '\t' then ['\\', 't']
  else if c.toNat = 8 then ['\\', 'b']
  else if c.toNat = 12 then ['\\', 'f']
  else if c.toNat < 32 then ['\\', 'u', '0', '0', hexDigit (c.toNat / 16), hexDigit (c.toNat % 16)]
  else [c]

def quote (s : String) : String := "\"" ++ String.ofList (s.toList.flatMap escapeChar) ++ "\""

/-! ### Written forms -/

/-- pieces with a separator between them -/
def joinWith (separator : String) (pieces : List String) : String := String.intercalate separator pieces

mutual

def compact : JsonValue → String
  | .null => "null"
  | .bool b => if b then "true" else "false"
  | .number literal => literal
  | .string s => quote s
  | .garbled => quote ""
  | .array items => "[" ++ joinWith "," (compactItems items) ++ "]"
  | .object members => "\x7b" ++ joinWith "," (compactMembers members) ++ "\x7d"

def compactItems : List JsonValue → List String
  | [] => []
  | v :: rest => compact v :: compactItems rest

def compactMembers : List (String × JsonValue) → List String
  | [] => []
  | (key, v) :: rest => (quote key ++ ":" ++ compact v) :: compactMembers rest

end

/-- the white space in front of a line at a level -/
def indent (level : Nat) : String := String.ofList (List.replicate (2 * level) ' ')

/-- brackets around pieces, each on a line of its own -/
def laidOut (level : Nat) (opening closing : String) (pieces : List String) : String :=
  if pieces.isEmpty then
    opening ++ closing
  else
    let lines := pieces.map (("\n" ++ indent (level + 1)) ++ ·)
    opening ++ joinWith "," lines ++ "\n" ++ indent level ++ closing

mutual

/-- the laid-out form of a value that stands at a level -/
def prettyAt (level : Nat) : JsonValue → String
  | .null => "null"
  | .bool b => if b then "true" else "false"
  | .number literal => literal
  | .string s => quote s
  | .garbled => quote ""
  | .array items => laidOut level "[" "]" (prettyItems (level + 1) items)
  | .object members => laidOut level "\x7b" "\x7d" (prettyMembers (level + 1) members)

def prettyItems (level : Nat) : List JsonValue → List String
  | [] => []
  | v :: rest => prettyAt level v :: prettyItems level rest

def prettyMembers (level : Nat) : List (String × JsonValue) → List String
  | [] => []
  | (key, v) :: rest => (quote key ++ ": " ++ prettyAt level v) :: prettyMembers level rest

end

def pretty (v : JsonValue) : String := prettyAt 0 v

end JsonValue

end Dataflow
