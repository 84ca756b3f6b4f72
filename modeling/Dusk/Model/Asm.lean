import Dusk.Lib.X64
import Dusk.Model.Syscall

/-! The assembly of the kernel: the entry of system calls, the switch between kernel
stacks, the first entry of a task into user mode, and the entry of interrupts. -/

namespace Dusk

open Lib Lib.X64

namespace Asm

def KERNEL_CODE_SELECTOR : ℕ := 1 * 8

def KERNEL_DATA_SELECTOR : ℕ := 2 * 8

def USER_DATA_SELECTOR : ℕ := (3 * 8) ||| 3

def USER_CODE_SELECTOR : ℕ := (4 * 8) ||| 3

def RFLAGS_MASK : ℕ := 0x257FD5

/-- The registers that `syscall::init` sets for the SYSCALL instruction. -/
structure Msrs where
  star : ℕ
  lstar : ℕ
  fmask : ℕ

/-- `syscall::init` with the address of `syscall_entry`. -/
def init (syscallEntry : ℕ) : Msrs :=
  ⟨(KERNEL_DATA_SELECTOR <<< 48) ||| (KERNEL_CODE_SELECTOR <<< 32), syscallEntry, RFLAGS_MASK⟩

/-- SYSCALL in ring 3. -/
def syscall (msrs : Msrs) (c : Cpu) : Cpu :=
  ((c.set .rcx c.ctl.rip).set .r11 c.ctl.rflags).withCtl { c.ctl with
    rip := msrs.lstar
    rflags := c.ctl.rflags ^^^ (c.ctl.rflags &&& msrs.fmask)
    cs := (msrs.star >>> 32) % 2 ^ 16 &&& 0xFFFC
    ss := (msrs.star >>> 32) % 2 ^ 16 + 8 }

/-- The flags SYSRET loads from R11. -/
def sysretFlags (r11 : ℕ) : ℕ := (r11 &&& 0x3C7FD7) ||| 2

/-- SYSRETQ in ring 0; it faults when RCX is not canonical. -/
def sysretq (mode : PagingMode) (msrs : Msrs) (c : Cpu) : Option Cpu :=
  if mode.isCanonical (c.reg .rcx) then
    some (c.withCtl { c.ctl with
      rip := c.reg .rcx
      rflags := sysretFlags (c.reg .r11)
      cs := ((msrs.star >>> 48) + 16) ||| 3
      ss := ((msrs.star >>> 48) + 8) ||| 3 })
  else none

/-- `syscall_entry`, to the call of `syscall_dispatch`. -/
def syscallEntry : List Instr :=
  [.swapgs,
    .storeGs 8 .rsp,
    .loadGs .rsp 0,
    .pushGs 8,
    .push .r11,
    .push .rcx,
    .push .rax,
    .push .rdi,
    .push .rsi,
    .push .rdx,
    .push .r10,
    .push .r8,
    .push .r9,
    .push .rbx,
    .push .rbp,
    .push .r12,
    .push .r13,
    .push .r14,
    .push .r15,
    .mov .rdi .rsp]

/-- `syscall_entry` after the call, to `sysretq`. -/
def syscallExit : List Instr :=
  [.pop .r15,
    .pop .r14,
    .pop .r13,
    .pop .r12,
    .pop .rbp,
    .pop .rbx,
    .pop .r9,
    .pop .r8,
    .pop .r10,
    .pop .rdx,
    .pop .rsi,
    .pop .rdi,
    .pop .rax,
    .pop .rcx,
    .pop .r11,
    .popGs 8,
    .loadGs .rsp 8,
    .swapgs]

/-- The fields of `SyscallFrame` that `syscall_dispatch` passes on to `handle`; the last
argument of `handle` is not used. -/
def dispatchArgs (mem : ℕ → ℕ) (frame : ℕ) : SyscallArgs :=
  ⟨.ofNat 64 (mem (frame + 96)), .ofNat 64 (mem (frame + 88)), .ofNat 64 (mem (frame + 80)),
    .ofNat 64 (mem (frame + 72)), .ofNat 64 (mem (frame + 64)), .ofNat 64 (mem (frame + 56))⟩

/-- Where `SyscallFrame` has its field `rax`. -/
def FRAME_RAX : ℕ := 96

def switchContext : List Instr :=
  [.push .rbp,
    .push .rbx,
    .push .r12,
    .push .r13,
    .push .r14,
    .push .r15,
    .store .rdi .rsp,
    .load .rsp .rsi,
    .pop .r15,
    .pop .r14,
    .pop .r13,
    .pop .r12,
    .pop .rbx,
    .pop .rbp]

/-- The quadwords `ThreadContext::new` writes, from the initial stack pointer on. -/
def contextWords (userThreadEntry entry userStack : ℕ) : List ℕ :=
  [0, 0, 0, entry, userStack, 0, userThreadEntry]

/-- `user_thread_entry`, to the call of `enter_user`. -/
def userThreadEntry : List Instr := [.mov .rdi .r12, .mov .rsi .rbx]

/-- The registers the compiler has chosen for the operands of `enter_user`. -/
structure Operands where
  userDataSelector : Reg
  userCodeSelector : Reg
  userInstructionPointer : Reg
  userStackPointer : Reg

/-- `enter_user`, to `iretq`. -/
def enterUser (o : Operands) : List Instr :=
  [.movSeg .ds o.userDataSelector,
    .movSeg .es o.userDataSelector,
    .movSeg .fs o.userDataSelector,
    .push o.userDataSelector,
    .push o.userStackPointer,
    .pushImm 0x202,
    .push o.userCodeSelector,
    .push o.userInstructionPointer,
    .clear .rax,
    .clear .rbx,
    .clear .rcx,
    .clear .rdx,
    .clear .rsi,
    .clear .rdi,
    .clear .rbp,
    .clear .r8,
    .clear .r9,
    .clear .r10,
    .clear .r11,
    .clear .r12,
    .clear .r13,
    .clear .r14,
    .clear .r15,
    .swapgs,
    .movSeg .gs o.userDataSelector]

/-- The vectors `idt_init` installs, and whether the stub is `stub_err!`. -/
def stubs : List (ℕ × Bool) :=
  [(0, false), (1, false), (2, false), (3, false), (6, false), (7, false), (8, true), (10, true),
    (11, true), (12, true), (13, true), (14, true), (16, false), (17, true), (18, false),
    (19, false), (0x80, false), (0xF1, false), (0xFD, false), (0xFE, false), (0xFF, false)]

/-- The vectors for which the processor pushes an error code. -/
def hasErrorCode (vector : ℕ) : Bool := vector ∈ [8, 10, 11, 12, 13, 14, 17, 21, 29, 30]

def stub (vector : ℕ) (err : Bool) : List Instr :=
  if err then [.pushImm vector] else [.pushImm 0, .pushImm vector]

/-- `interrupt_common`, to the call of `interrupt_dispatch`. -/
def interruptCommon : List Instr :=
  [.push .r15,
    .push .r14,
    .push .r13,
    .push .r12,
    .push .rbp,
    .push .rbx,
    .push .r11,
    .push .r10,
    .push .r9,
    .push .r8,
    .push .rdi,
    .push .rsi,
    .push .rdx,
    .push .rcx,
    .push .rax,
    .testByte 144 3,
    .jzOver .swapgs,
    .mov .rdi .rsp,
    .cld]

/-- `interrupt_common` after the call, to `iretq`. -/
def interruptReturn : List Instr :=
  [.testByte 144 3,
    .jzOver .swapgs,
    .pop .rax,
    .pop .rcx,
    .pop .rdx,
    .pop .rsi,
    .pop .rdi,
    .pop .r8,
    .pop .r9,
    .pop .r10,
    .pop .r11,
    .pop .rbx,
    .pop .rbp,
    .pop .r12,
    .pop .r13,
    .pop .r14,
    .pop .r15,
    .addImm .rsp 16]

/-- The processor delivers an interrupt through a gate without an interrupt stack. From
ring 3 it takes the stack of the task state segment. -/
def deliver (vector handler errorCode : ℕ) (c : Cpu) : Option Cpu :=
  let top := if c.ctl.cs % 4 = 3 then c.ctl.rsp0 else c.reg .rsp
  let words := [c.ctl.ss, c.reg .rsp, c.ctl.rflags, c.ctl.cs, c.ctl.rip] ++
    if hasErrorCode vector then [errorCode] else []
  ((c.set .rsp (top - top % 16)).pushAll words).map fun d => d.withCtl { d.ctl with
    rip := handler
    rflags := d.ctl.rflags ^^^ (d.ctl.rflags &&& 0x14300)
    cs := KERNEL_CODE_SELECTOR
    ss := if c.ctl.cs % 4 = 3 then 0 else d.ctl.ss }

/-- An interrupt, to the call of `interrupt_dispatch`. -/
def enterInterrupt (vector : ℕ) (err : Bool) (handler errorCode : ℕ) (c : Cpu) : Option Cpu :=
  (deliver vector handler errorCode c).bind fun d => X64.run (stub vector err ++ interruptCommon) d

end Asm

end Dusk
