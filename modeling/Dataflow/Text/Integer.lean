/-!
Decimal integers as they are written in parameters, options and documents: an optional sign and digits, nothing else,
inside the range of the type asked for. A minus sign is for signed types only.
-/

namespace Dataflow.Text

inductive IntegerError where
  | empty
  | invalidDigit
  | tooLarge
  | tooSmall
deriving DecidableEq, Repr

def IntegerError.message : IntegerError → String
  | empty => "cannot parse integer from empty string"
  | invalidDigit => "invalid digit found in string"
  | tooLarge => "number too large to fit in target type"
  | tooSmall => "number too small to fit in target type"

def digit? (c : Char) : Option Nat := if c.isDigit then some (c.toNat - 48) else none

/-- reads digits after `acc`, with magnitudes up to `bound`; the first bad digit or overflow from the left decides -/
def readDigits (bound : Nat) (excess : IntegerError) : Nat → List Char → Except IntegerError Nat
  | acc, [] => .ok acc
  | acc, c :: rest =>
    match digit? c with
    | none => .error .invalidDigit
    | some d => if acc * 10 + d ≤ bound then readDigits bound excess (acc * 10 + d) rest else .error excess

/-- a non-empty run of digits -/
def readMagnitude (bound : Nat) (excess : IntegerError) (digits : List Char) : Except IntegerError Nat :=
  if digits.isEmpty then .error .invalidDigit else readDigits bound excess 0 digits

/-- reads an unsigned integer of at most `max` -/
def readUnsigned (max : Nat) (s : String) : Except IntegerError Nat :=
  match s.toList with
  | [] => .error .empty
  | '+' :: digits => readMagnitude max .tooLarge digits
  | digits => readDigits max .tooLarge 0 digits

/-- reads a signed integer from `-(max + 1)` to `max` -/
def readSigned (max : Nat) (s : String) : Except IntegerError Int :=
  match s.toList with
  | [] => .error .empty
  | '+' :: digits => (readMagnitude max .tooLarge digits).map Int.ofNat
  | '-' :: digits => (readMagnitude (max + 1) .tooSmall digits).map fun n => -(n : Int)
  | digits => (readDigits max .tooLarge 0 digits).map Int.ofNat

end Dataflow.Text
