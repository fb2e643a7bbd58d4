/-!
What can go wrong when a channel is made or one of its ends is taken.
-/

namespace Dataflow

/-- an end of a channel that only one holder may have -/
inductive Endpoint where
  | writer
  | reader
  | output
  | input
deriving DecidableEq, Repr

def Endpoint.word : Endpoint → String
  | .writer => "writer"
  | .reader => "reader"
  | .output => "output"
  | .input => "input"

inductive ChannelError where
  | invalidCapacity (requested minimum : Nat)
  | invalidTokenSize
  | noReaders
  | allocationFailed (size alignment : Nat)
  | readerOutOfRange (index readers : Nat)
  | endpointTaken (which : Endpoint)
deriving DecidableEq, Repr

def ChannelError.message : ChannelError → String
  | invalidCapacity requested minimum =>
    s!"capacity {requested} must be a power of two of at least {minimum} tokens"
  | invalidTokenSize => "token size must be non-zero"
  | noReaders => "channel needs at least one reader"
  | allocationFailed size alignment =>
    s!"failed to allocate token region of {size} bytes aligned to {alignment}"
  | readerOutOfRange index readers => s!"reader {index} out of range for {readers} reader(s)"
  | endpointTaken which => which.word ++ " endpoint already taken"

end Dataflow
