import Dataflow.Text.Integer
import Dataflow.Word

/-!
The options of the command line.

An option is given as `--name value` or `--name=value`; a flag takes no value. A separate value may not begin with a
hyphen, unless the option takes negative numbers. Every option but a repeatable one is given at most once. Arguments are
read from left to right, and the first one that is wrong, or that asks for help or the version, decides.
-/

namespace Dataflow.CommandLine

structure Options where
  mapping : Option String := none
  loopMax : Option Nat := none
  depth : Option Nat := none
  useDefaultDepth : Bool := false
  statistics : Bool := false
  timing : Bool := false
  trace : Option String := none
  /-- instances that the trace is restricted to -/
  traceInstances : List String := []
  terminationReport : Bool := false
  /-- file for the profiles of bridges -/
  profile : Option String := none
  /-- file of the numbers that the source emits -/
  input : Option String := none
  /-- tokens of the source without such a file -/
  count : Nat := 1000
  maxPasses : Option Nat := none
  partitions : Nat := 1
  /-- sends the tokens through a bridge -/
  device : Bool := false
  /-- tokens that the kernel echoes per launch -/
  perCall : Option Nat := none
  scale : Int32 := 2
  stallTimeout : Option Nat := none
deriving DecidableEq, Repr

/-- what an option does with its value -/
inductive OptionForm where
  | flag (set : Options → Options)
  | value (set : String → Options → Option Options)
  /-- a value that may be left out, and what then stands for it -/
  | optional (missing : String) (set : String → Options → Option Options)

structure OptionSpec where
  name : String
  /-- how its value is called in the help -/
  valueName : String := ""
  help : String
  form : OptionForm
  repeatable : Bool := false
  takesNegative : Bool := false

/-- what the arguments ask for -/
inductive Request where
  | run (options : Options)
  | help
  | version
  | invalid
deriving DecidableEq, Repr

/-! ### Values -/

/-- a path, which may not be empty -/
def path? (s : String) : Option String := if s.isEmpty then none else some s

/-- a number of at most 32 bits without sign, read as a signed number of 64 bits -/
def word32? (s : String) : Option Nat :=
  match Text.readSigned Word.signedMax64 s with
  | .ok n => if 0 ≤ n ∧ n ≤ Word.max32 then some n.toNat else none
  | .error _ => none

/-- a number of at most 64 bits without sign -/
def word64? (s : String) : Option Nat := (Text.readUnsigned Word.max64 s).toOption

/-- a signed number of 32 bits -/
def int32? (s : String) : Option Int32 :=
  match Text.readSigned Word.signedMax64 s with
  | .ok n => if -(Word.signedMax32 : Int) - 1 ≤ n ∧ n ≤ Word.signedMax32 then some (Int32.ofInt n) else none
  | .error _ => none

/-! ### The table -/

/-- an option whose value goes through a reader -/
def withValue {α : Type} (read : String → Option α) (set : α → Options → Options) : OptionForm :=
  .value fun s o => (read s).map fun a => set a o

/-- all options in the order of the help -/
def table : List OptionSpec :=
  [ { name := "cfile", valueName := "<FILE>", help := "Partition mapping file (XML)"
      form := withValue path? fun a o => { o with mapping := some a } },
    { name := "loopmax", valueName := "<N>", help := "Maximum firings per action scheduler call"
      form := withValue word32? fun a o => { o with loopMax := some a } },
    { name := "depth", valueName := "<TOKENS>", help := "Default connection depth in tokens"
      form := withValue word64? fun a o => { o with depth := some a } },
    { name := "use-default-depth", help := "Ignore connection sizes from the mapping file"
      form := .flag fun o => { o with useDefaultDepth := true } },
    { name := "statistics", help := "Print per-partition statistics after the run"
      form := .flag fun o => { o with statistics := true } },
    { name := "timing", help := "Print wall-clock timing of network construction and execution"
      form := .flag fun o => { o with timing := true } },
    { name := "trace", valueName := "[<FILE>]", help := "Write a JSON-lines firing trace (default file `trace.jsonl`)"
      form := .optional "trace.jsonl" fun s o => (path? s).map fun a => { o with trace := some a } },
    { name := "trace-instance", valueName := "<NAME>", help := "Restrict the trace to this instance (repeatable)"
      form := withValue some fun a o => { o with traceInstances := o.traceInstances ++ [a] }
      repeatable := true },
    { name := "termination-report", help := "Print the network state once execution stops"
      form := .flag fun o => { o with terminationReport := true } },
    { name := "hardware-profile", valueName := "<FILE>", help := "Write device bridge profiles as JSON"
      form := withValue path? fun a o => { o with profile := some a } },
    { name := "i", valueName := "<FILE>", help := "Whitespace-separated integers fed by the source instead of a range"
      form := withValue path? fun a o => { o with input := some a } },
    { name := "l", valueName := "<N>"
      help := "Tokens emitted by the source when no input file is given [default: 1000]"
      form := withValue word32? fun a o => { o with count := a } },
    { name := "f", valueName := "<N>", help := "Scheduling passes per partition before the run is cut off"
      form := withValue word64? fun a o => { o with maxPasses := some a } },
    { name := "partitions", valueName := "<N>"
      help := "Spread the demo instances round-robin over this many partitions (ignored with --cfile) [default: 1]"
      form := withValue word64? fun a o => { o with partitions := a } },
    { name := "device", help := "Route the stream through a simulated device bridge"
      form := .flag fun o => { o with device := true } },
    { name := "per-call", valueName := "<N>", help := "Tokens the simulated kernel echoes per call"
      form := withValue word32? fun a o => { o with perCall := some a } },
    { name := "scale", valueName := "<SCALE>", help := "Factor applied by the scale stage [default: 2]"
      form := withValue int32? fun a o => { o with scale := a }
      takesNegative := true },
    { name := "stall-timeout-ms", valueName := "<MS>"
      help := "Milliseconds without progress before a partition reports a stall"
      form := withValue word64? fun a o => { o with stallTimeout := some a } } ]

/-! ### Reading arguments -/

/-- whether an argument can be the separate value of an option -/
def OptionSpec.accepts (spec : OptionSpec) (arg : String) : Bool :=
  match arg.toList with
  | '-' :: c :: rest => spec.takesNegative && (c :: rest).all Char.isDigit
  | _ => true

/-- the name of a long option and the value attached to it -/
def splitLong (body : List Char) : String × Option String :=
  let name := body.takeWhile (· ≠ '=')
  match body.dropWhile (· ≠ '=') with
  | _ :: value => (String.ofList name, some (String.ofList value))
  | [] => (String.ofList name, none)

/-- the options after one argument, and the arguments that remain -/
def OptionSpec.take (spec : OptionSpec) (attached : Option String) (rest : List String) (o : Options) :
    Option (Options × List String) :=
  match spec.form, attached with
  | .flag set, none => some (set o, rest)
  | .flag _, some _ => none
  | .value set, some v => (set v o).map fun o => (o, rest)
  | .optional _ set, some v => (set v o).map fun o => (o, rest)
  | .value set, none =>
    match rest with
    | v :: rest => if spec.accepts v then (set v o).map fun o => (o, rest) else none
    | [] => none
  | .optional missing set, none =>
    match rest with
    | v :: tail =>
      if spec.accepts v then (set v o).map fun o => (o, tail) else (set missing o).map fun o => (o, rest)
    | [] => (set missing o).map fun o => (o, [])

/-- reads at most `fuel` arguments; `seen` holds the names given so far -/
def readFrom : Nat → List String → List String → Options → Request
  | _, _, [], o => .run o
  | 0, _, _ :: _, _ => .invalid
  | fuel + 1, seen, arg :: rest, o =>
    match arg.toList with
    | ['-', '-'] => if rest.isEmpty then .run o else .invalid
    | '-' :: '-' :: body =>
      match splitLong body with
      | ("help", none) => .help
      | ("version", none) => .version
      | (name, attached) =>
        match table.find? (·.name = name) with
        | none => .invalid
        | some spec =>
          if seen.contains name && !spec.repeatable then .invalid
          else
            match spec.take attached rest o with
            | none => .invalid
            | some (o, rest) => readFrom fuel (name :: seen) rest o
    | '-' :: 'h' :: _ => .help
    | '-' :: 'V' :: _ => .version
    | _ => .invalid

def read (args : List String) : Request := readFrom args.length [] args {}

end Dataflow.CommandLine
