import Dataflow.Token

/-!
Bytes and numbers in lower-case hexadecimal digits.
-/

namespace Dataflow.Hex

def digit (c : Char) : Nat := if c.isDigit then c.toNat - 48 else c.toNat - 87

/-- a number with at least `width` digits, most significant first -/
def ofNat (width n : Nat) : String :=
  let digits := Nat.toDigits 16 n
  String.ofList (List.replicate (width - digits.length) '0' ++ digits)

/-- the number with these digits, most significant first -/
def toNat (digits : List Char) : Nat := digits.foldl (fun n c => n * 16 + digit c) 0

/-- two digits for every byte -/
def ofBytes (bytes : Bytes) : String := String.join (bytes.map fun b => ofNat 2 b.toNat)

/-- the bytes with these digits, two for each -/
def toBytes : List Char → Bytes
  | a :: b :: rest => UInt8.ofNat (toNat [a, b]) :: toBytes rest
  | _ => []

end Dataflow.Hex
