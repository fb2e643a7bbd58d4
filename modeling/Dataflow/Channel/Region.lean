import Dataflow.Block
import Dataflow.Channel.Error

/-!
The storage of a channel: at least one byte, zeroed, aligned to a cache line. Whether there is any is for the platform
to say (`Region.grants`).
-/

namespace Dataflow

namespace Region

/-- every region starts at a multiple of this address -/
def alignment : Nat := 64

/-- the most tokens that a channel can hold -/
def largestCapacity : Nat := 2147483648

/-- bytes that the index or total of one reader takes -/
def readerBytes : Nat := 4

/-- the platform has storage of `size` bytes: a process has 47 bits of addresses -/
def grants (size : Nat) : Bool := max size 1 < 140737488355328

/-- storage of `size` bytes, and of one byte when none are asked for -/
def allocate (size : Nat) : Except ChannelError Block :=
  if grants size then .ok (Block.zeroed (max size 1))
  else .error (.allocationFailed (max size 1) alignment)

end Region

/-- the geometry that every channel checks first: tokens with a size, someone to read them, and a capacity that is a
power of two of at least `minimum`; once there is storage, more readers than can be addressed are a fault -/
def Region.forTokens (minimum tokenSize capacity readers : Nat) : Except (Stop ChannelError) Block :=
  if tokenSize = 0 then
    .error (.error .invalidTokenSize)
  else if readers = 0 then
    .error (.error .noReaders)
  else if capacity < minimum ∨ !Word.isPowerOfTwo capacity ∨ Region.largestCapacity < capacity then
    .error (.error (.invalidCapacity capacity minimum))
  else
    match Word.mul64 capacity tokenSize with
    | .error f => .error (.fault f)
    | .ok size =>
      match Region.allocate size with
      | .error e => .error (.error e)
      | .ok storage =>
        if readers * Region.readerBytes ≤ Word.signedMax64 then .ok storage else .error (.fault .overflow)

end Dataflow
