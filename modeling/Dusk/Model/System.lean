import Dusk.Model.Boot

/-! The running system: what the current task can make the kernel do, and the runs
that follow from it. Interrupts leave the scheduler alone, so that the processor
changes hands only inside the kernel. -/

namespace Dusk

open Lib Scheduler

/-- The moves of the current task. -/
inductive Action where
  /-- `syscall` with these registers. -/
  | syscall (args : SyscallArgs)
  /-- An exception in user mode. -/
  | fault (f : Fault)
  /-- A store of the task itself. -/
  | store (address : ℕ) (value : Byte)
  /-- The kernel continues with the context it has restored. -/
  | resume
  deriving DecidableEq

/-- The calls that can be in progress when a task is resumed or returns. -/
inductive Call where
  | syscall (args : SyscallArgs)
  | recv (args : RecvArgs)
  deriving DecidableEq

/-- A call that has returned to user mode: who made it, its code, and the states at
the beginning and at the end of its last stretch in the kernel. -/
structure Completion where
  task : ℕ
  call : Call
  code : ℕ
  before : Kernel
  after : Kernel

/-- A store in user mode; it faults unless the page is writable for the task. -/
def userStore (address : ℕ) (value : Byte) : KM Unit := do
  let k ← Prog.get
  let permissions := k.machine.activeTable.mapping k.machine.mem address
  let target := k.machine.activeTable.toPhysical k.machine.mem address
  match permissions.any (fun p => p.userAccessible && p.writable), target with
  | true, some p => onMachine (modifyMem fun mem => mem.setByte p value)
  | _, _ => exitCurrent (.fault .segmentationFault)

/-- The kernel after a context switch, up to the return to user mode. -/
def resumeContext : KM (Option (Call × ℕ)) := do
  let k ← Prog.get
  match k.pending with
  | none => pure none
  | some context => do
    Prog.modify fun k => { k with pending := none }
    match context with
    | .userEntry _ _ => pure none
    | .afterYield => pure none
    | .afterRecvBlock args => do
      let code ← returning (sysRecvTail args)
      pure (some (.recv args, code))
    | .afterExit => panic .deadTaskScheduled

/-- The kernel code an action runs; the result is the call that has returned. -/
def Action.program : Action → KM (Option (Call × ℕ))
  | .syscall args => do
    let code ← handle args
    pure (some (.syscall args, code))
  | .fault f => do
    exitCurrent (.fault f)
    pure none
  | .store address value => do
    userStore address value
    pure none
  | .resume => resumeContext

/-- A task acts in user mode; a restored context can only be resumed. -/
def Action.enabled (a : Action) (k : Kernel) : Prop := a = .resume ↔ k.pending.isSome = true

instance (a : Action) (k : Kernel) : Decidable (a.enabled k) :=
  inferInstanceAs (Decidable (_ ↔ _))

/-- One move of the system: the state after it, and the call that has returned.
A halt or a panic has no next state. -/
def step (a : Action) (k : Kernel) : Option (Kernel × Option Completion) :=
  if a.enabled k then
    match a.program k with
    | .ok (some (call, code)) k' =>
      some (k', k.sched.current.map fun task => ⟨task, call, code, k, k'⟩)
    | .ok none k' => some (k', none)
    | .stop .switched k' => some (k', none)
    | .stop _ _ => none
  else none

/-- The states and the completed calls a list of actions leads to. -/
def run : List Action → Kernel → Option (Kernel × List Completion)
  | [], k => some (k, [])
  | a :: as, k =>
    match step a k with
    | none => none
    | some (k', done) =>
      (run as k').map fun (k'', trace) => (k'', done.toList ++ trace)

/-- `k` is reached from the start of the first task of boot `b`. -/
def Reachable (b : BootInfo) (k : Kernel) : Prop :=
  ∃ k₀ as trace, b.started = some k₀ ∧ run as k₀ = some (k, trace)

end Dusk
