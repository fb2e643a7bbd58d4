import Dataflow.Bridge.ProfileDocument
import Dataflow.CommandLine.Help
import Dataflow.CommandLine.Host
import Dataflow.Network.Builder
import Dataflow.Network.Threads

/-!
One invocation of the command line: a network `source -> stage -> sink` is built and run, and what it did is printed.
The stage is a scaler or, on request, a bridge to a simulated accelerator that echoes the tokens.
-/

namespace Dataflow.CommandLine

/-- an error with what caused it, the nearest cause first -/
structure Failure where
  message : String
  causes : List String := []
deriving DecidableEq, Repr

namespace Failure

/-- a text with its second and later lines indented as far as `margin` -/
def indented (margin text : String) : String := String.intercalate ("\n" ++ margin) (text.splitOn "\n")

/-- the causes as indented lines, numbered if there are several -/
def causeLines (causes : List String) : String :=
  match causes with
  | [] => ""
  | [cause] => "\nCaused by:\n    " ++ indented "    " cause ++ "\n"
  | causes =>
    "\nCaused by:\n" ++ String.join (causes.zipIdx.map fun (cause, i) =>
      "    " ++ toString i ++ ": " ++ indented "       " cause ++ "\n")

def report (f : Failure) : String := "Error: " ++ f.message ++ "\n" ++ causeLines f.causes

def ofNetwork (e : NetworkError) : Failure := ⟨e.message, e.cause?.toList⟩

/-- a failure while doing something else -/
def during (f : Failure) (context : String) : Failure := ⟨context, f.message :: f.causes⟩

def ofFile (context : String) (e : FileError) : Failure := ⟨context, [e.message]⟩

end Failure

def runConfig (o : Options) : RunConfig :=
  let defaults : RunConfig := {}
  { loopMax := o.loopMax.getD defaults.loopMax
    stallTimeout := o.stallTimeout.getD defaults.stallTimeout
    maxPasses := o.maxPasses
    defaultDepth := o.depth.getD defaults.defaultDepth
    useDefaultDepth := o.useDefaultDepth }

/-- the partition hint of the instance at a place, if the options spread the instances -/
def hint (o : Options) (mapping : Option Mapping) (place : Nat) : Option String :=
  if mapping.isNone ∧ 1 < o.partitions then some s!"p{place % o.partitions}" else none

def readValues (path text : String) : Except Failure (List Int32) :=
  (Text.words text).mapM fun word =>
    match Text.readSigned Word.signedMax32 word with
    | .ok n => .ok (Int32.ofInt n)
    | .error e => .error ⟨s!"`{word}` in {path} is not an integer", [e.message]⟩

/-- the most tokens of a bridge's ring -/
def largestRing : Nat := 65536

def stage (o : Options) (config : RunConfig) : Except (Stop ActorError) Component :=
  if o.device then
    Registry.makeBridge "stage" 4 (max 2 (min config.defaultDepth largestRing)) (o.perCall.getD Word.max32) true
  else
    .ok (.scale ⟨o.scale⟩)

/-- the network for these options with a source of this feed -/
def buildNetwork (o : Options) (mapping : Option Mapping) (feed : Feed) :
    Except (Stop NetworkError) (Network Component) := do
  let config := runConfig o
  let stage ← (stage o config).mapError (Stop.map .actor)
  let b ← (do
    let b : Builder Component := { defaultDepth := config.defaultDepth }
    let (_, b) ← b.add "source" (.source { feed }) (hint o mapping 0)
    let (_, b) ← b.add "stage" stage (hint o mapping 1)
    let (_, b) ← b.add "sink" (.sink {}) (hint o mapping 2)
    let b ← b.connect "source" "out" "stage" "in" none
    b.connect "stage" "out" "sink" "in" none).mapError Stop.error
  let b := match mapping with
    | some m => if config.useDefaultDepth then b else b.applySizes m
    | none => b
  b.build mapping

/-- the line about what the sink received -/
def receivedLine (n : Network Component) : String :=
  let tokens := match (n.instance? "sink").map (·.actor) with
    | some (.sink s) => s.tokens
    | _ => #[]
  let sum : Int64 := tokens.foldl (fun sum v => sum + v.toInt64) 0
  s!"received {tokens.size} token(s), checksum {sum.toInt}\n"

/-- the line about the times that building and running took -/
def timingLine (construction execution : Duration) : String :=
  s!"network construction {construction.milliseconds} ms, execution {execution.milliseconds} ms\n"

/-- what the options ask to print after a run -/
def runReport (o : Options) (n : Network Component) (summary : RunSummary)
    (construction : Duration) : Checked String := do
  let report ← n.report
  return (if o.statistics then summary.text else "") ++
    (if o.timing then timingLine construction summary.elapsed else "") ++
    (if o.terminationReport then report.text else "")

def readMapping {m : Type → Type} [Monad m] [Host m] (path : String) : m (Except NetworkError Mapping) := do
  match ← Host.readFile path with
  | .ok text => return (Mapping.parse text).mapError .mapping
  | .error e => return .error (.mappingFile path e.message)

/-- an invocation that may stop early, keeping what was printed -/
abbrev Session (m : Type → Type) (α : Type) := ExceptT (Stop Failure) m α

namespace Session

variable {m : Type → Type} [Monad m] [Host m]

/-- goes on with a result or stops with its failure -/
def orStop {ε α : Type} (f : ε → Failure) (x : Except ε α) : Session m α :=
  match x with
  | .ok a => pure a
  | .error e => throw (.error (f e))

/-- goes on with a result or stops as it does -/
def orStopAs {ε α : Type} (f : ε → Failure) (x : Except (Stop ε) α) : Session m α :=
  match x with
  | .ok a => pure a
  | .error stop => throw (stop.map f)

/-- a request to the surroundings -/
def ask {α : Type} (request : m α) : Session m α := ExceptT.lift request

def print (text : String) : Session m Unit := ask (Host.print .output text)

def loadMapping (path : String) : Session m Mapping := do
  orStop (fun e => (Failure.ofNetwork e).during s!"failed to load mapping {path}") (← ask (readMapping path))

def feed (o : Options) : Session m Feed := do
  match o.input with
  | none => return .range 0 o.count
  | some path =>
    let text ← orStop (Failure.ofFile s!"failed to read input {path}") (← ask (Host.readFile path))
    return .values (← orStop id (readValues path text)).toArray

/-- loads the mapping and builds the network -/
def prepare (o : Options) : Session m (Network Component) := do
  let mapping ← match o.mapping with
    | some path => some <$> loadMapping path
    | none => pure none
  if o.partitions = 0 then
    throw (.error ⟨"--partitions must be at least 1", []⟩)
  if (runConfig o).loopMax = 0 then
    throw (.error ⟨"--loopmax must be at least 1", []⟩)
  orStopAs Failure.ofNetwork (buildNetwork o mapping (← feed o))

def writeFile (context path content : String) : Session m Unit := do
  orStop (Failure.ofFile context) (← ask (Host.writeFile path content))

/-- runs the network within `fuel` and writes the trace; only a trace file that cannot be made is a failure -/
def execute (o : Options) (fuel : Nat) (n : Network Component) : Session m (Network Component × RunSummary) := do
  if let some path := o.trace then
    writeFile s!"failed to create trace {path}" path ""
  let result := n.run (runConfig o) fuel
  if let some path := o.trace then
    let only := if o.traceInstances.isEmpty then none else some o.traceInstances
    let _ ← ask (Host.writeFile path (Trace.recordAll { only } result.records).text)
  match result.ended with
  | .finished summary => return (result.network, summary)
  | .stopped stop => throw (stop.map Failure.ofNetwork)
  | .unfinished => throw (.fault .contract)

def perform (o : Options) (fuel : Nat) : Session m Unit := do
  let started ← ask Host.now
  let n ← prepare o
  let built ← ask Host.now
  let (n, summary) ← execute o fuel n
  let ended ← ask Host.now
  print (receivedLine n)
  match runReport o n { summary with elapsed := ⟨ended - built⟩ } ⟨built - started⟩ with
  | .ok text => print text
  | .error f => throw (.fault f)
  if let some path := o.profile then
    let profiles := n.instances.filterMap (·.actor.profile?)
    writeFile s!"failed to write hardware profile {path}" path (LinkProfile.document profiles)

end Session

/-- answers an invocation whose run may take `fuel` rounds with its exit code -/
def invoke {m : Type → Type} [Monad m] [Host m] (fuel : Nat) (args : List String) : m Nat := do
  match read args with
  | .help =>
    Host.print .output helpText
    return 0
  | .version =>
    Host.print .output versionText
    return 0
  | .invalid =>
    Host.print .errors "error: invalid arguments; for more information, try '--help'\n"
    return 2
  | .run o =>
    match ← ExceptT.run (Session.perform o fuel : Session m Unit) with
    | .ok _ => return 0
    | .error (.error f) =>
      Host.print .errors f.report
      return 1
    | .error (.fault _) => return 101

end Dataflow.CommandLine
