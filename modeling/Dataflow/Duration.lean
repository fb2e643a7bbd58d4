import Dataflow.Json.Value

/-!
Spans of time in nanoseconds, and their text in milliseconds.

The text goes through binary floating point with 53 bits of precision: whole seconds, plus the nanoseconds divided by
10^9, times 1000, each result rounded to the nearest such number and a tie to the even one. What is printed is that
number with three decimals, again rounded to the nearest and a tie to the even digit.
-/

namespace Dataflow

/-- a non-negative fraction -/
structure Ratio where
  num : Nat
  den : Nat
deriving DecidableEq, Repr

namespace Ratio

/-- the nearest whole number, a tie going to the even one -/
def round (r : Ratio) : Nat :=
  let q := r.num / r.den
  let twice := 2 * (r.num % r.den)
  if r.den < twice ∨ (twice = r.den ∧ q % 2 = 1) then q + 1 else q

/-- the number times a power of two -/
def scale (r : Ratio) (e : Int) : Ratio :=
  if 0 ≤ e then ⟨r.num * Nat.pow 2 e.toNat, r.den⟩ else ⟨r.num, r.den * Nat.pow 2 (-e).toNat⟩

def add (a b : Ratio) : Ratio := ⟨a.num * b.den + b.num * a.den, a.den * b.den⟩

def precision : Nat := 53

/-- the exponent `e` for which `2 ^ 52 ≤ r / 2 ^ e < 2 ^ 53` -/
def exponent (r : Ratio) : Int :=
  let e : Int := (r.num.log2 : Int) - r.den.log2 - (precision - 1)
  let s := r.scale (-e)
  if s.num < Nat.pow 2 (precision - 1) * s.den then e - 1 else e

/-- the nearest number with 53 bits, a tie going to the one whose last bit is zero -/
def nearest (r : Ratio) : Ratio :=
  if r.num = 0 then ⟨0, 1⟩
  else scale ⟨(r.scale (-r.exponent)).round, 1⟩ r.exponent

/-- the number with `places` decimals -/
def decimals (places : Nat) (r : Ratio) : String :=
  let n := round ⟨r.num * Nat.pow 10 places, r.den⟩
  let fraction := toString (n % Nat.pow 10 places)
  toString (n / Nat.pow 10 places) ++ "." ++ String.ofList (List.replicate (places - fraction.length) '0') ++ fraction

end Ratio

structure Duration where
  nanoseconds : Nat := 0
deriving DecidableEq, Repr

namespace Duration

def second : Nat := 1000000000

def secs (d : Duration) : Nat := d.nanoseconds / second

/-- nanoseconds beyond the whole seconds -/
def subsec (d : Duration) : Nat := d.nanoseconds % second

def add (a b : Duration) : Duration := ⟨a.nanoseconds + b.nanoseconds⟩

def seconds (d : Duration) : Ratio :=
  Ratio.nearest ((Ratio.nearest ⟨d.secs, 1⟩).add (Ratio.nearest ⟨d.subsec, second⟩))

/-- the span in milliseconds, with three decimals -/
def milliseconds (d : Duration) : String :=
  (Ratio.nearest ⟨d.seconds.num * 1000, d.seconds.den⟩).decimals 3

def toJson (d : Duration) : JsonValue := .object [("secs", .nat d.secs), ("nanos", .nat d.subsec)]

end Duration

end Dataflow
