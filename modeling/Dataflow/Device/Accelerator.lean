import Dataflow.Device.StockKernel

/-!
A simulated accelerator: buffers in memory and a kernel that runs on launch. It carries out each command either at once,
or on a worker that outlives neither a kernel's fault nor the work after it, or only when it is told to: then commands
wait in a queue and are carried out one at a time, in order.
-/

namespace Dataflow

inductive DeviceMode where
  /-- on submission -/
  | immediate
  /-- by a worker, as soon as they arrive, until a kernel faults -/
  | worker (alive : Bool)
  /-- when the queue is stepped; an offline device takes no commands -/
  | stepped (offline : Bool)
deriving DecidableEq, Repr

/-- buffers, kernel and completed launches -/
structure Machine (κ : Type) where
  kernel : κ
  buffers : Array Block := #[]
  launches : Nat := 0

structure Accelerator (κ : Type) where
  machine : Machine κ
  mode : DeviceMode
  events : EventBoard Bytes := {}
  /-- commands not carried out yet, oldest first -/
  queue : List (EventId × Command) := []

namespace Machine

variable {κ : Type}

/-- the bytes of a transfer have to lie inside its buffer -/
def target (m : Machine κ) (id offset length : Nat) : Except (Stop DeviceError) Block :=
  match m.buffers[id]? with
  | none => .error (.error (.invalidBuffer id))
  | some b =>
    if offset + length < Word.size64 ∧ offset + length ≤ b.size then .ok b
    else .error (.error (.outOfRange offset length b.size))

def launch [Kernel κ] (args : KernelArgs) : Step DeviceError (Machine κ) Unit := do
  Step.zoom (fun m => (m.kernel, KernelView.start m.buffers args))
    (fun m (kernel, view) => { m with kernel, buffers := view.buffers })
    (do Kernel.run; Step.zoom (·.2) (fun s view => (s.1, view)) KernelView.publish)
  modify fun m => { m with launches := m.launches + 1 }

/-- carries out one command; a read answers its bytes -/
def perform [Kernel κ] : Command → Step DeviceError (Machine κ) (Option Bytes)
  | .write id offset data => do
    let m ← get
    let b ← m.target id offset data.length
    set { m with buffers := m.buffers.setIfInBounds id (b.store offset data) }
    return none
  | .read id offset length => do
    let m ← get
    let b ← m.target id offset length
    return some (b.slice offset length)
  | .launch args => do
    launch args
    return none

end Machine

namespace Accelerator

variable {κ : Type} [Kernel κ]

def create (kernel : κ) (mode : DeviceMode) : Accelerator κ := { machine := { kernel }, mode }

/-- carries out a command and resolves its event; tells whether the command succeeded -/
def execute (d : Accelerator κ) (event : EventId) (command : Command) : Checked Bool × Accelerator κ :=
  match (Machine.perform command).exec d.machine with
  | (.ok (some bytes), machine) => (.ok true, { d with machine, events := d.events.fulfil event bytes })
  | (.ok none, machine) => (.ok true, { d with machine, events := d.events.complete event })
  | (.error (.error _), machine) => (.ok false, { d with machine, events := d.events.fail event })
  | (.error (.fault f), machine) => (.error f, { d with machine, events := d.events.fail event })

/-- reserves a zeroed buffer; one larger than the address space is a fault of whoever carries it out, and the worker
that does is lost -/
def allocate (bytes : Nat) : Step DeviceError (Accelerator κ) BufferId := do
  let d ← get
  if d.mode = .worker false then
    Step.fail .disconnected
  if bytes > Word.signedMax64 then
    if d.mode = .worker true then
      set { d with mode := .worker false }
      Step.fail .disconnected
    throw (.fault .overflow)
  set { d with machine := { d.machine with buffers := d.machine.buffers.push (Block.zeroed bytes) } }
  return d.machine.buffers.size

def submit (command : Command) : Step DeviceError (Accelerator κ) EventId := do
  let d ← get
  let (event, events) := d.events.issue
  let d := { d with events }
  match d.mode with
  | .immediate =>
    let (answer, d) := d.execute event command
    set d
    let _ ← answer
    return event
  | .worker true =>
    match d.execute event command with
    | (.ok _, d) => set d
    | (.error _, d) => set { d with mode := .worker false }
    return event
  | .stepped false =>
    set { d with queue := d.queue ++ [(event, command)] }
    return event
  | .worker false | .stepped true => Step.fail .disconnected

instance : Device (Accelerator κ) where
  allocate := allocate
  submit := submit
  poll e := do return (← get).events.status e
  take e := do
    let d ← get
    let (bytes, events) := d.events.take e
    set { d with events }
    return bytes

/-! ### The queue of a stepped device -/

/-- carries out up to `n` queued commands; tells for each whether it succeeded -/
def stepQueue : Nat → Accelerator κ → Checked (List Bool) × Accelerator κ
  | 0, d => (.ok [], d)
  | n + 1, d =>
    match d.queue with
    | [] => (.ok [], d)
    | (event, command) :: queue =>
      match { d with queue }.execute event command with
      | (.error f, d) => (.error f, d)
      | (.ok succeeded, d) =>
        let (rest, d) := stepQueue n d
        (rest.map (succeeded :: ·), d)

/-- removes the next command and fails its event; a command that is lost looks the same -/
def failNext (d : Accelerator κ) : Option Command × Accelerator κ :=
  match d.queue with
  | [] => (none, d)
  | (event, command) :: queue => (some command, { d with queue, events := d.events.fail event })

/-- removes the next command and answers it with the given bytes -/
def answerNext (d : Accelerator κ) (bytes : Bytes) : Bool × Accelerator κ :=
  match d.queue with
  | [] => (false, d)
  | (event, _) :: queue => (true, { d with queue, events := d.events.fulfil event bytes })

/-- whether the device takes commands -/
def setOffline (d : Accelerator κ) (offline : Bool) : Accelerator κ := { d with mode := .stepped offline }

end Accelerator

end Dataflow
