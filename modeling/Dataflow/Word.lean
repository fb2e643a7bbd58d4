import Dataflow.Fault

/-!
Arithmetic on words of 32 and 64 bits: numbers in range, where a result that leaves the range is a fault.
-/

namespace Dataflow

namespace Word

def size32 : Nat := 4294967296

def size64 : Nat := 18446744073709551616

def max32 : Nat := 4294967295

def max64 : Nat := 18446744073709551615

def signedMax32 : Nat := 2147483647

def signedMax64 : Nat := 9223372036854775807

def add32 (a b : Nat) : Checked Nat := if a + b < size32 then .ok (a + b) else .error .overflow

def add64 (a b : Nat) : Checked Nat := if a + b < size64 then .ok (a + b) else .error .overflow

def mul64 (a b : Nat) : Checked Nat := if a * b < size64 then .ok (a * b) else .error .overflow

def sub (a b : Nat) : Checked Nat := if b ≤ a then .ok (a - b) else .error .overflow

def rem (a b : Nat) : Checked Nat := if b = 0 then .error .zeroDivisor else .ok (a % b)

def quot (a b : Nat) : Checked Nat := if b = 0 then .error .zeroDivisor else .ok (a / b)

def isPowerOfTwo (n : Nat) : Bool := n == Nat.pow 2 n.log2

/-- the least power of two that is not below a number -/
def powerOfTwo (n : Nat) : Nat := if n ≤ 1 then 1 else Nat.pow 2 ((n - 1).log2 + 1)

/-- the low 32 bits of a number -/
def low32 (n : Nat) : Nat := n % size32

end Word

end Dataflow
