import Dusk.Model.Tcb

/-! The kernel's global state and `task/scheduler.rs`. A context switch leaves the
running syscall: the program stops with `switched`, and the next thread's saved
context is what the kernel continues with. -/

namespace Dusk

open Lib

inductive Status where
  | invalidArgument | badAddress | badFileDescriptor | noSuchTask | outOfMemory | badHandle
  deriving DecidableEq, Repr

/-- The two deliberate halts of the scheduler. -/
inductive Halt where
  | deadlock | allTasksExited
  deriving DecidableEq, Repr

/-- The places where the kernel panics: those of the memory subsystem, of
`task/scheduler.rs`, of the copies in `memory/user.rs` and of `syscall/table.rs`. -/
inductive KernelPanic where
  | memory (p : Panic)
  | noCurrentTask | noTasksToRun | readyQueueFull | missingTask | taskIndexOutOfBounds
  | switchToSelf | deadTaskScheduled | threadHandleRejected | addressSpaceHandleRejected
  | kernelSpaceUninitialized
  | nullPointer
  | selfTaskMissing | pushedHandleChanged | handleOccupied | insertedSpaceMissing
  | frameHandleChanged | targetSpaceMissing | impossibleMapError | outHandleChecked
  | unmapFailed | unmappedWrongFrame | sliceOutOfBounds
  | bootFailed
  deriving DecidableEq, Repr

/-- Why kernel code stops: an error status on its way to the caller, a switch to
another thread, one of the two halts, or a panic. -/
inductive Stop where
  | status (s : Status)
  | switched
  | halted (h : Halt)
  | panicked (p : KernelPanic)
  deriving DecidableEq, Repr

def MAX_TASKS : ℕ := 32
def MAX_ADDRESS_SPACES : ℕ := 32

structure ReadyQueue where
  entries : ℕ → ℕ
  head : ℕ
  len : ℕ

namespace ReadyQueue

def new : ReadyQueue := ⟨fun _ => 0, 0, 0⟩

def pushBack (q : ReadyQueue) (task : ℕ) : Bool × ReadyQueue :=
  if q.len = MAX_TASKS then (false, q)
  else
    let tail := (q.head + q.len) % MAX_TASKS
    (true, { q with entries := Function.update q.entries tail task, len := q.len + 1 })

def popFront (q : ReadyQueue) : Option ℕ × ReadyQueue :=
  if q.len = 0 then (none, q)
  else (some (q.entries q.head), { q with head := (q.head + 1) % MAX_TASKS, len := q.len - 1 })

/-- The inner loop of `remove`: `count` entries from position `j` move down. -/
def shiftDown (q : ReadyQueue) (j : ℕ) : ℕ → ReadyQueue
  | 0 => q
  | count + 1 =>
    let src := (q.head + j + 1) % MAX_TASKS
    let dst := (q.head + j) % MAX_TASKS
    shiftDown { q with entries := Function.update q.entries dst (q.entries src) } (j + 1) count

/-- The outer loop of `remove` over `count` positions from `i`. -/
def removeFrom (q : ReadyQueue) (task : ℕ) (i : ℕ) : ℕ → Bool × ReadyQueue
  | 0 => (false, q)
  | count + 1 =>
    if q.entries ((q.head + i) % MAX_TASKS) = task then
      let shifted := q.shiftDown i (q.len - 1 - i)
      (true, { shifted with len := q.len - 1 })
    else q.removeFrom task (i + 1) count

def remove (q : ReadyQueue) (task : ℕ) : Bool × ReadyQueue := q.removeFrom task 0 q.len

end ReadyQueue

structure Scheduler where
  current : Option ℕ
  tasks : Slots Tcb MAX_TASKS
  ready : ReadyQueue
  stackPool : KernelStackPool

def Scheduler.new : Scheduler := ⟨none, Slots.empty, ReadyQueue.new, KernelStackPool.new⟩

/-- An access of the kernel to user memory, with the machine and the current
task's address space at that moment. -/
structure UserAccess where
  write : Bool
  address : ℕ
  length : ℕ
  machine : Machine
  space : Option AddressSpace

structure Kernel where
  machine : Machine
  /-- `KERNEL_ADDRESS_SPACE`. -/
  kernelSpace : Option AddressSpace
  /-- `ADDRESS_SPACE_TABLE`. -/
  spaces : Slots AddressSpace MAX_ADDRESS_SPACES
  /-- `SCHEDULER`. -/
  sched : Scheduler
  /-- The restored context the kernel is about to continue with; nothing while the
  current task runs in user mode or makes a syscall. -/
  pending : Option ThreadContext
  accesses : List UserAccess
  /-- Whether this is a debug build, in which `core` checks the pointers it copies from. -/
  debugAssertions : Bool

/-- Programs of the kernel. -/
abbrev KM := Prog Kernel Stop

def panic {α : Type} (p : KernelPanic) : KM α := Prog.stop (.panicked p)

def fail {α : Type} (s : Status) : KM α := Prog.stop (.status s)

/-- Run a program of the memory subsystem. -/
def onMachine {α : Type} (p : MM α) : KM α :=
  Prog.zoom Kernel.machine (fun m k => { k with machine := m })
    (fun e => Stop.panicked (.memory e)) p

def modifySched (f : Scheduler → Scheduler) : KM Unit :=
  Prog.modify fun k => { k with sched := f k.sched }

def setTask (id : ℕ) (task : Option Tcb) : KM Unit :=
  modifySched fun s => { s with tasks := s.tasks.set id task }

/-- `tasks[id].as_mut().unwrap()`, which also checks the index. -/
def unwrapTask (id : ℕ) : KM Tcb := do
  let k ← Prog.get
  if id < MAX_TASKS then Prog.expect (.panicked .missingTask) (k.sched.tasks.get id)
  else panic .taskIndexOutOfBounds

namespace Scheduler

/-- `current()`. -/
def currentTask : KM ℕ := do
  let k ← Prog.get
  Prog.expect (.panicked .noCurrentTask) k.sched.current

def setState (id : ℕ) (state : ThreadState) : KM Unit := do
  let task ← unwrapTask id
  setTask id (some { task with state })

/-- `assert!(self.ready.push_back(id))`. -/
def pushReady (id : ℕ) : KM Unit := do
  let k ← Prog.get
  let (pushed, ready) := k.sched.ready.pushBack id
  modifySched fun s => { s with ready }
  Prog.assert (.panicked .readyQueueFull) pushed

def popReady : KM (Option ℕ) := do
  let k ← Prog.get
  let (next, ready) := k.sched.ready.popFront
  modifySched fun s => { s with ready }
  pure next

structure Switch where
  nextContext : ThreadContext
  nextAsId : ℕ
  nextKernelStack : ℕ
  activateAddressSpace : Bool

/-- `Switch::perform` up to the jump: install the address space and the kernel
stack, then continue with the next thread's context. -/
def Switch.perform (s : Switch) : KM Unit := do
  let k ← Prog.get
  if s.activateAddressSpace then
    match k.spaces.get s.nextAsId with
    | none => pure ()
    | some space => onMachine space.root.activate
  else pure ()
  onMachine (Prog.modify fun m => { m with kernelStackTop := s.nextKernelStack })
  Prog.modify fun k => { k with pending := some s.nextContext }

/-- `make_switch`, with the context the previous thread is saved with. -/
def makeSwitch (currentId nextId : ℕ) (saved : ThreadContext) : KM Switch := do
  Prog.assert (.panicked .switchToSelf) (currentId ≠ nextId)
  let current ← unwrapTask currentId
  setTask currentId (some { current with context := saved })
  let next ← unwrapTask nextId
  pure ⟨next.context, next.asId, next.kernelStack.top, next.asId ≠ current.asId⟩

/-- The common tail of the three switching operations: run `nextId`. -/
def switchTo (currentId nextId : ℕ) (saved : ThreadContext) : KM Unit := do
  setState nextId .running
  modifySched fun s => { s with current := some nextId }
  let switch ← makeSwitch currentId nextId saved
  switch.perform
  Prog.stop .switched

def addTask (task : Tcb) : KM (Except Tcb ℕ) := do
  let k ← Prog.get
  match k.sched.tasks.firstEmpty with
  | none => pure (.error task)
  | some id =>
    match HandleTable.push task.handles
        ⟨.thread id, Rights.READ ||| Rights.WRITE ||| Rights.EXECUTE⟩ with
    | none => panic .threadHandleRejected
    | some (_, handles) => do
      setTask id (some { task with id, handles, state := .ready })
      pushReady id
      pure (.ok id)

def start : KM Unit := do
  match ← popReady with
  | none => panic .noTasksToRun
  | some nextId => do
    let next ← unwrapTask nextId
    setState nextId .running
    modifySched fun s => { s with current := some nextId }
    let switch : Switch := ⟨next.context, next.asId, next.kernelStack.top, true⟩
    switch.perform
    Prog.stop .switched

/-- `with_kernel_address_space`. -/
def kernelAddressSpace : KM AddressSpace := do
  let k ← Prog.get
  Prog.expect (.panicked .kernelSpaceUninitialized) k.kernelSpace

def allocateKernelStack (space : AddressSpace) : KM (Except StackCreateError KernelStack) := do
  let k ← Prog.get
  let (stackPool, result) ← onMachine (k.sched.stackPool.allocate space)
  modifySched fun s => { s with stackPool }
  pure result

def removeTask (id : ℕ) : KM Bool := do
  let k ← Prog.get
  if k.sched.current = some id then pure false
  else match k.sched.tasks.get id with
    | none => pure false
    | some task => do
      setTask id none
      modifySched fun s => { s with ready := (s.ready.remove id).2 }
      let space ← kernelAddressSpace
      let stackPool ← onMachine (k.sched.stackPool.free space task.kernelStack)
      modifySched fun s => { s with stackPool }
      pure true

def blockCurrent (reason : BlockReason) (saved : ThreadContext) : KM Unit := do
  match ← popReady with
  | none => Prog.stop (.halted .deadlock)
  | some nextId => do
    let currentId ← currentTask
    setState currentId (.blocked reason)
    switchTo currentId nextId saved

def unblock (id : ℕ) : KM Unit := do
  let k ← Prog.get
  if id < MAX_TASKS then
    match k.sched.tasks.get id with
    | none => pure ()
    | some task =>
      match task.state with
      | .blocked _ => do
        setTask id (some { task with state := .ready })
        pushReady id
      | _ => pure ()
  else panic .taskIndexOutOfBounds

def yieldCurrent : KM Unit := do
  match ← popReady with
  | none => pure ()
  | some nextId => do
    let currentId ← currentTask
    setState currentId .ready
    pushReady currentId
    switchTo currentId nextId .afterYield

def exitCurrent {α : Type} (reason : ExitReason) : KM α := do
  let currentId ← currentTask
  match ← popReady with
  | none => Prog.stop (.halted .allTasksExited)
  | some nextId => do
    setState currentId (.dead reason)
    switchTo currentId nextId .afterExit
    panic .deadTaskScheduled

/-- `with_task(id, ..)`: the task, if the slot exists and is occupied. -/
def withTask (id : ℕ) : KM (Option Tcb) := do
  let k ← Prog.get
  pure (k.sched.tasks.get id)

end Scheduler

end Dusk
