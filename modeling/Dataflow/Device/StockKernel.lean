import Dataflow.Device.Kernel

/-!
Two kernels: an echo from input 0 to output 0 with a budget per launch, and a kernel that follows a prepared script, one
list of commands per launch, and logs what each command answered.
-/

namespace Dataflow

/-- one command of a scripted kernel -/
inductive KernelCommand where
  /-- how many inputs and outputs there are -/
  | counts
  | available (port : Nat)
  | space (port : Nat)
  | inputSize (port : Nat)
  | outputSize (port : Nat)
  | read (port n : Nat)
  | write (port : Nat) (bytes : Bytes)
  /-- reads from an input and writes what was read to an output -/
  | copy (input output n : Nat)
  | fail (reason : String)
deriving DecidableEq, Repr

/-- what a command of a scripted kernel answered -/
inductive KernelAnswer where
  | counts (inputs outputs : Nat)
  | number (n : Nat)
  | bytes (bytes : Bytes)
  | copied (bytes : Bytes) (written : Nat)
deriving DecidableEq, Repr

/-- the kernels at hand -/
inductive StockKernel where
  /-- copies input 0 to output 0, at most `perCall` tokens per launch -/
  | echo (perCall : Nat)
  /-- follows a script; the log is kept in order -/
  | script (launches : List (List KernelCommand)) (log : Array KernelAnswer)
deriving DecidableEq, Repr

namespace KernelView

def echo (perCall : Nat) (k : KernelView) : Except (Stop DeviceError) KernelView := do
  if k.args.inputs.isEmpty || k.args.outputs.isEmpty then
    return k
  let inSize ← k.inputTokenSize 0
  let outSize ← k.outputTokenSize 0
  if inSize ≠ outSize then
    throw (.error (.commandFailed s!"echo between token sizes {inSize} and {outSize}"))
  let n := min (min perCall (← k.inputAvailable 0)) (← k.outputSpace 0)
  let (tokens, k) ← k.readInput 0 n
  let (_, k) ← k.writeOutput 0 tokens
  return k

def obey (k : KernelView) : KernelCommand → Except (Stop DeviceError) (KernelAnswer × KernelView)
  | .counts => return (.counts k.args.inputs.length k.args.outputs.length, k)
  | .available port => do return (.number (← k.inputAvailable port), k)
  | .space port => do return (.number (← k.outputSpace port), k)
  | .inputSize port => do return (.number (← k.inputTokenSize port), k)
  | .outputSize port => do return (.number (← k.outputTokenSize port), k)
  | .read port n => do
    let (bytes, k) ← k.readInput port n
    return (.bytes bytes, k)
  | .write port bytes => do
    let (n, k) ← k.writeOutput port bytes
    return (.number n, k)
  | .copy input output n => do
    let (bytes, k) ← k.readInput input n
    let (written, k) ← k.writeOutput output bytes
    return (.copied bytes written, k)
  | .fail reason => throw (.error (.commandFailed reason))

end KernelView

namespace StockKernel

def obeyAll : List KernelCommand → Step DeviceError (Array KernelAnswer × KernelView) Unit
  | [] => pure ()
  | command :: rest => do
    let (log, k) ← get
    let (answer, k) ← k.obey command
    set (log.push answer, k)
    obeyAll rest

def run : Step DeviceError (StockKernel × KernelView) Unit := do
  let (kernel, k) ← get
  match kernel with
  | .echo perCall => set (kernel, ← k.echo perCall)
  | .script launches log =>
    Step.zoom (fun _ => (log, k)) (fun _ (log, k) => (.script launches.tail log, k)) (obeyAll (launches.headD []))

/-- the log of a scripted kernel, and the kernel with an empty log -/
def takeLog : StockKernel → List KernelAnswer × StockKernel
  | .echo perCall => ([], .echo perCall)
  | .script launches log => (log.toList, .script launches #[])

end StockKernel

instance : Kernel StockKernel := ⟨StockKernel.run⟩

end Dataflow
