import Dusk.Model.Asm

/-! Tasks at the level of the processor: each has a kernel stack, and the processor goes
from one to the other through the assembly. The Rust code between two pieces of assembly
may do whatever the calling convention and the ownership of memory allow. -/

namespace Dusk

open Lib Lib.X64

namespace Asm

/-- The registers of a task in user mode. -/
structure User where
  reg : Reg → ℕ
  rip : ℕ
  rflags : ℕ

def userOf (c : Cpu) : User := ⟨c.reg, c.ctl.rip, c.ctl.rflags⟩

/-- An index of `Scheduler.tasks`. -/
abbrev Slot := Fin MAX_TASKS

/-- Where the code and the data lie that the assembly names. -/
structure Places where
  mode : PagingMode
  cpuLocal : ℕ
  /-- `context` of the `Tcb` in a task slot. -/
  context : Slot → ℕ
  /-- `bootstrap_context` of `scheduler::start`, on the stack of `kernel_main`. -/
  bootContext : ℕ
  bootTop : ℕ
  syscallEntry : ℕ
  syscallDispatch : ℕ
  afterDispatch : ℕ
  handler : ℕ → ℕ
  interruptDispatch : ℕ
  afterInterrupt : ℕ
  switchContext : ℕ
  userThreadEntry : ℕ
  enterUser : ℕ

/-- What a task is doing. Ghosts record the registers in user mode when it entered the
kernel, and the state in which it called `switch_context`. -/
inductive Stage where
  /-- Made by `ThreadContext::new`. -/
  | fresh (entry userStack : ℕ)
  /-- At `user_thread_entry`. -/
  | starting (entry userStack : ℕ)
  | user
  /-- In `syscall_dispatch`. -/
  | serving (u : User)
  /-- In `switch_context`, called from `syscall_dispatch`. -/
  | parked (u : User) (caller : Reg → ℕ) (back : ℕ)
  /-- In `interrupt_dispatch`. -/
  | trapped (u : User)
  /-- It has left in `exit_current`. -/
  | gone

def Stage.Running : Stage → Prop
  | starting _ _ | user | serving _ | trapped _ => True
  | fresh _ _ | parked _ _ _ | gone => False

/-- What a task does when it is chosen; a task that is gone never is. -/
def Stage.woken : Stage → Option Stage
  | fresh entry userStack => some (starting entry userStack)
  | parked u _ _ => some (serving u)
  | starting _ _ | user | serving _ | trapped _ | gone => none

structure Thread where
  top : ℕ
  stage : Stage

/-- The kernel stack. -/
def Thread.Stack (t : Thread) (a : ℕ) : Prop := t.top - KERNEL_STACK_SIZE ≤ a ∧ a < t.top

structure System where
  cpu : Cpu
  current : Option Slot
  threads : Slot → Option Thread

variable (P : Places)

/-- SYSCALL, to the first instruction of `syscall_dispatch`. -/
def enterSyscall (c : Cpu) : Option Cpu :=
  (X64.run syscallEntry (syscall (init P.syscallEntry) c)).bind fun d =>
    d.call P.syscallDispatch P.afterDispatch

/-- From the `ret` of `syscall_dispatch` to user mode. -/
def leaveSyscall (c : Cpu) : Option Cpu :=
  (c.ret.bind (X64.run syscallExit)).bind (sysretq P.mode (init P.syscallEntry))

/-- An interrupt, to the first instruction of `interrupt_dispatch`. -/
def trap (vector : ℕ) (err : Bool) (errorCode : ℕ) (c : Cpu) : Option Cpu :=
  (enterInterrupt vector err (P.handler vector) errorCode c).bind fun d =>
    d.call P.interruptDispatch P.afterInterrupt

/-- From the `ret` of `interrupt_dispatch` to `iretq`. -/
def leaveInterrupt (c : Cpu) : Option Cpu := (c.ret.bind (X64.run interruptReturn)).bind iretq

/-- `Switch::perform` after the address space: `set_kernel_stack`, and the call of
`switch_context` with the place `back` to return to. -/
def performSwitch (previous next nextTop back : ℕ) (c : Cpu) : Option Cpu :=
  let d : Cpu :=
    { (c.set .rdi previous).set .rsi next with
      mem := Function.update c.mem P.cpuLocal nextTop
      ctl := { c.ctl with rsp0 := nextTop } }
  ((d.call P.switchContext back).bind (X64.run switchContext)).bind Cpu.ret

/-- `user_thread_entry`, to the first instruction of `enter_user`. -/
def beginThread (back : ℕ) (c : Cpu) : Option Cpu :=
  (X64.run userThreadEntry c).bind fun d => d.call P.enterUser back

namespace System

variable (s : System)

def Runs (i : Slot) (top : ℕ) (stage : Stage) : Prop :=
  s.current = some i ∧ s.threads i = some ⟨top, stage⟩

def put (i : Slot) (t : Option Thread) (c : Cpu) : System :=
  { s with cpu := c, threads := Function.update s.threads i t }

/-- In Rust code of the kernel. -/
def InKernel : Prop :=
  s.current = none ∨ ∃ i top u, s.Runs i top (.serving u) ∨ s.Runs i top (.trapped u)

/-- What the kernel keeps from user mode. -/
def Private (a : ℕ) : Prop :=
  a = P.cpuLocal ∨ (∃ i, a = P.context i) ∨ ∃ i t, s.threads i = some t ∧ t.Stack a

/-- What Rust code of the running task leaves alone: the stack pointers of the tasks and
of the processor, the stacks of others, and what the assembly has pushed. It writes the
field `rax` of its `SyscallFrame`. -/
def Kept (a : ℕ) : Prop :=
  a = P.cpuLocal ∨ (∃ i t, s.threads i = some t ∧ a = P.context i) ∨
    (∃ i t, s.threads i = some t ∧ s.current ≠ some i ∧ t.Stack a) ∨
    (∃ i top u, s.Runs i top (.serving u) ∧ top - 136 ≤ a ∧ a < top ∧
      a ≠ top - 128 + FRAME_RAX) ∨
    ∃ i top u, s.Runs i top (.trapped u) ∧ top - 184 ≤ a ∧ a < top

/-- No task has a part of this stack. -/
def Unused (top : ℕ) : Prop :=
  ∀ i t, s.threads i = some t → t.top ≤ top - KERNEL_STACK_SIZE ∨ top ≤ t.top - KERNEL_STACK_SIZE

end System

/-- The places can be told apart. -/
structure Places.Ok : Prop where
  localAligned : P.cpuLocal % 8 = 0
  localHigh : P.cpuLocal + 16 < ADDRESS_END
  contexts : ∀ i, Fits (P.context i) ∧ P.context i ≠ P.cpuLocal ∧ P.context i ≠ P.cpuLocal + 8
  inj : Function.Injective P.context
  boot : Fits P.bootContext ∧ P.bootContext ≠ P.cpuLocal ∧ ∀ i, P.context i ≠ P.bootContext
  bootStack : P.bootTop % 8 = 0 ∧ KERNEL_STACK_SIZE ≤ P.bootTop ∧ P.bootTop < ADDRESS_END ∧
    (P.cpuLocal + 16 ≤ P.bootTop - KERNEL_STACK_SIZE ∨ P.bootTop ≤ P.cpuLocal) ∧
    ∀ i, P.context i + 8 ≤ P.bootTop - KERNEL_STACK_SIZE ∨ P.bootTop ≤ P.context i

/-- A kernel stack below `top` has nothing else in it. -/
structure Places.Fit (top : ℕ) : Prop where
  aligned : top % 16 = 0
  low : KERNEL_STACK_SIZE ≤ top
  high : top < ADDRESS_END
  cpuLocal : P.cpuLocal + 16 ≤ top - KERNEL_STACK_SIZE ∨ top ≤ P.cpuLocal
  contexts : ∀ i, P.context i + 8 ≤ top - KERNEL_STACK_SIZE ∨ top ≤ P.context i
  bootContext : P.bootContext + 8 ≤ top - KERNEL_STACK_SIZE ∨ top ≤ P.bootContext
  boot : P.bootTop ≤ top - KERNEL_STACK_SIZE ∨ top ≤ P.bootTop - KERNEL_STACK_SIZE

/-- Moves of a task in user mode. -/
structure UserMove (s : System) (c : Cpu) : Prop where
  mem : ∀ a, s.Private P a → c.mem a = s.cpu.mem a
  ctl : ∃ rip rflags seg, rip ≤ USER_SPACE_END ∧ c.ctl = { s.cpu.ctl with rip, rflags, seg }

/-- Moves of Rust code in the kernel. -/
structure KernelMove (s : System) (c : Cpu) : Prop where
  mem : ∀ a, s.Kept P a → c.mem a = s.cpu.mem a
  ctl : ∃ rip rflags, c.ctl = { s.cpu.ctl with rip, rflags }

/-- The stack pointer is in the stack below `top`, under what lies in its last `used` bytes,
with room for a call of `switch_context`. -/
structure AtCall (top used : ℕ) (c : Cpu) : Prop where
  aligned : c.reg .rsp % 8 = 0
  room : top - KERNEL_STACK_SIZE + 56 ≤ c.reg .rsp
  below : c.reg .rsp + used ≤ top

/-- The compiled start of `enter_user`, which loads the operands. -/
structure Prologue (o : Operands) (top : ℕ) (c d : Cpu) : Prop where
  data : d.reg o.userDataSelector = USER_DATA_SELECTOR
  code : d.reg o.userCodeSelector = USER_CODE_SELECTOR
  ip : d.reg o.userInstructionPointer = c.reg .rdi
  sp : d.reg o.userStackPointer = c.reg .rsi
  free : o.userDataSelector ≠ .rsp ∧ o.userCodeSelector ≠ .rsp ∧
    o.userInstructionPointer ≠ .rsp ∧ o.userStackPointer ≠ .rsp
  stack : AtCall top 0 d
  mem : ∀ a, a < top - KERNEL_STACK_SIZE ∨ top ≤ a → d.mem a = c.mem a
  ctl : ∃ rip rflags, d.ctl = { c.ctl with rip, rflags }

inductive Step : System → System → Prop
  | user {s i top c} : s.Runs i top .user → UserMove P s c → Step s { s with cpu := c }
  | syscall {s i top c} : s.Runs i top .user → enterSyscall P s.cpu = some c →
      Step s (s.put i (some ⟨top, .serving (userOf s.cpu)⟩) c)
  /-- A double fault has a stack of its own. -/
  | interrupt {s i top vector err errorCode c} : s.Runs i top .user → (vector, err) ∈ stubs →
      vector ≠ 8 → trap P vector err errorCode s.cpu = some c →
      Step s (s.put i (some ⟨top, .trapped (userOf s.cpu)⟩) c)
  | kernel {s c} : s.InKernel → KernelMove P s c → Step s { s with cpu := c }
  /-- `ThreadContext::new` on a new stack, and the `Tcb` in its slot; the entry is a user
  address. -/
  | spawn {s i top entry userStack} : s.InKernel → s.threads i = none → P.Fit top →
      s.Unused top → entry < USER_SPACE_END → Step s (s.put i (some ⟨top, .fresh entry userStack⟩)
        { s.cpu with
          mem := Function.update (writeWords s.cpu.mem (top - 56)
            (contextWords P.userThreadEntry entry userStack)) (P.context i) (top - 56) })
  /-- `remove_task`. -/
  | remove {s i top entry userStack} : s.InKernel →
      s.threads i = some ⟨top, .fresh entry userStack⟩ → Step s (s.put i none s.cpu)
  /-- `scheduler::start`. -/
  | start {s j t stage back c} : s.current = none → s.threads j = some t →
      t.stage.woken = some stage → AtCall P.bootTop 0 s.cpu → s.cpu.reg .rsp ≤ P.bootContext →
      performSwitch P P.bootContext (P.context j) t.top back s.cpu = some c →
      Step s { s.put j (some ⟨t.top, stage⟩) c with current := some j }
  /-- `yield_current` and `block_current`. -/
  | switch {s i top u j t stage back c} : s.Runs i top (.serving u) → j ≠ i →
      s.threads j = some t → t.stage.woken = some stage → AtCall top 136 s.cpu →
      performSwitch P (P.context i) (P.context j) t.top back s.cpu = some c →
      Step s { (s.put i (some ⟨top, .parked u s.cpu.reg back⟩) c).put j (some ⟨t.top, stage⟩) c with
        current := some j }
  /-- `exit_current`. -/
  | exit {s i top u j t stage back c} : s.Runs i top (.serving u) ∨ s.Runs i top (.trapped u) →
      j ≠ i → s.threads j = some t → t.stage.woken = some stage → AtCall top 0 s.cpu →
      performSwitch P (P.context i) (P.context j) t.top back s.cpu = some c →
      Step s { (s.put i (some ⟨top, .gone⟩) c).put j (some ⟨t.top, stage⟩) c with
        current := some j }
  | enter {s i top entry userStack o back c d e} : s.Runs i top (.starting entry userStack) →
      beginThread P back s.cpu = some c → Prologue o top c d →
      (X64.run (enterUser o) d).bind iretq = some e → Step s (s.put i (some ⟨top, .user⟩) e)
  | sysret {s i top u c} : s.Runs i top (.serving u) → s.cpu.reg .rsp = top - 136 →
      leaveSyscall P s.cpu = some c → Step s (s.put i (some ⟨top, .user⟩) c)
  | iret {s i top u c} : s.Runs i top (.trapped u) → s.cpu.reg .rsp = top - 184 →
      leaveInterrupt s.cpu = some c → Step s (s.put i (some ⟨top, .user⟩) c)

/-- `kernel_main` before the first task, on its own stack. -/
structure Booted (s : System) : Prop where
  current : s.current = none
  threads : ∀ i, s.threads i = none
  gsBase : s.cpu.ctl.gsBase = P.cpuLocal
  kernelGsBase : s.cpu.ctl.kernelGsBase = 0

/-- The systems a boot leads to. -/
def Reached (s : System) : Prop := ∃ s₀, Booted P s₀ ∧ Relation.ReflTransGen (Step P) s₀ s

end Asm

end Dusk
