import Dataflow.Word

/-!
Primitive tokens and their bytes. Every primitive takes a fixed number of bytes, least significant first. Real numbers
are kept by their bit patterns, so nothing about them is lost in transit.
-/

namespace Dataflow

abbrev Bytes := List UInt8

namespace Bytes

/-- the `width` low bytes of a number, least significant first -/
def ofNat : Nat → Nat → Bytes
  | 0, _ => []
  | width + 1, n => UInt8.ofNat n :: ofNat width (n / 256)

/-- the number with these bytes, least significant first -/
def toNat : Bytes → Nat
  | [] => 0
  | b :: rest => b.toNat + 256 * toNat rest

end Bytes

inductive Primitive where
  | int8 | int16 | int32 | int64 | uint8 | uint16 | uint32 | uint64
  /-- a single-precision number, by its bit pattern -/
  | float32
  /-- a double-precision number, by its bit pattern -/
  | float64
  | bool
deriving DecidableEq, Repr

namespace Primitive

abbrev Value : Primitive → Type
  | int8 => Int8
  | int16 => Int16
  | int32 => Int32
  | int64 => Int64
  | uint8 => UInt8
  | uint16 => UInt16
  | uint32 => UInt32
  | uint64 => UInt64
  | float32 => UInt32
  | float64 => UInt64
  | bool => Bool

def size : Primitive → Nat
  | int8 | uint8 | bool => 1
  | int16 | uint16 => 2
  | int32 | uint32 | float32 => 4
  | int64 | uint64 | float64 => 8

def name : Primitive → String
  | int8 => "i8"
  | int16 => "i16"
  | int32 => "i32"
  | int64 => "i64"
  | uint8 => "u8"
  | uint16 => "u16"
  | uint32 => "u32"
  | uint64 => "u64"
  | float32 => "f32"
  | float64 => "f64"
  | bool => "bool"

def all : List Primitive := [int8, int16, int32, int64, uint8, uint16, uint32, uint64, float32, float64, bool]

def ofName? (s : String) : Option Primitive := all.find? (·.name = s)

/-- the number that a value stands for; a real number by its bit pattern, a truth value as zero or one -/
def toInt : (p : Primitive) → p.Value → Int
  | int8, v => Int8.toInt v
  | int16, v => Int16.toInt v
  | int32, v => Int32.toInt v
  | int64, v => Int64.toInt v
  | uint8, v => UInt8.toNat v
  | uint16, v => UInt16.toNat v
  | uint32, v => UInt32.toNat v
  | uint64, v => UInt64.toNat v
  | float32, v => UInt32.toNat v
  | float64, v => UInt64.toNat v
  | bool, v => if v then 1 else 0

/-- the bit pattern of a value, as a number below `256 ^ size` -/
def pattern : (p : Primitive) → p.Value → Nat
  | int8, v => v.toUInt8.toNat
  | int16, v => v.toUInt16.toNat
  | int32, v => v.toUInt32.toNat
  | int64, v => v.toUInt64.toNat
  | uint8, v => UInt8.toNat v
  | uint16, v => UInt16.toNat v
  | uint32, v => UInt32.toNat v
  | uint64, v => UInt64.toNat v
  | float32, v => UInt32.toNat v
  | float64, v => UInt64.toNat v
  | bool, v => Bool.toNat v

/-- the value of a bit pattern; every pattern but zero is true -/
def ofPattern : (p : Primitive) → Nat → p.Value
  | int8, n => (UInt8.ofNat n).toInt8
  | int16, n => (UInt16.ofNat n).toInt16
  | int32, n => (UInt32.ofNat n).toInt32
  | int64, n => (UInt64.ofNat n).toInt64
  | uint8, n => UInt8.ofNat n
  | uint16, n => UInt16.ofNat n
  | uint32, n => UInt32.ofNat n
  | uint64, n => UInt64.ofNat n
  | float32, n => UInt32.ofNat n
  | float64, n => UInt64.ofNat n
  | bool, n => n != 0

def encode (p : Primitive) (v : p.Value) : Bytes := Bytes.ofNat p.size (p.pattern v)

/-- the value at the start of a byte string -/
def decode (p : Primitive) (bytes : Bytes) : Checked p.Value :=
  if p.size ≤ bytes.length then .ok (p.ofPattern (Bytes.toNat (bytes.take p.size))) else .error .range

/-- a buffer with a value stored at its start; the rest is left alone -/
def encodeInto (p : Primitive) (v : p.Value) (buffer : Bytes) : Checked Bytes :=
  if p.size ≤ buffer.length then .ok (p.encode v ++ buffer.drop p.size) else .error .range

end Primitive

end Dataflow
