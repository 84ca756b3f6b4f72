import Dusk.Model.Threads

/-! `userspace/dusk-sys`: the library through which programs make system calls. Each
function is one `asm!` block with the registers it loads and those it gives up, and what it
makes of the code in `rax`. -/

namespace Dusk

open Lib Lib.X64

namespace DuskSys

inductive Status where
  | invalidArgument | badAddress | badFileDescriptor | noSuchTask | outOfMemory | badHandle
  deriving DecidableEq, Repr

/-- `From<usize>`. -/
def Status.from (value : ℕ) : Status :=
  match value with
  | 1 => .invalidArgument
  | 2 => .badAddress
  | 3 => .badFileDescriptor
  | 4 => .noSuchTask
  | 5 => .outOfMemory
  | 6 => .badHandle
  | _ => .invalidArgument

/-- `SyscallNumber as usize`. -/
def code : SyscallNumber → Word
  | .yield => 1
  | .exit => 2
  | .write => 3
  | .send => 4
  | .recv => 5
  | .frameAlloc => 6
  | .frameDealloc => 7
  | .asCreate => 8
  | .map => 9
  | .unmap => 10
  | .taskCreate => 11

/-- A call of one of the functions. Addresses of their local variables are arguments. -/
inductive Request where
  | yield
  | debugWrite (buf len : Word)
  | exit (exitCode : Word)
  | send (destTaskId msg len : Word)
  | recv (buf len actualLen sender : Word)
  | frameAlloc (handle : Word)
  | frameDealloc (frameHandle : Word)
  | asCreate (handle : Word)
  | map (asHandle frameHandle virtualAddr permissions handle : Word)
  | unmap (mappingHandle : Word)
  | taskCreate (asHandle entry userStack handle : Word)
  deriving DecidableEq

/-- An operand `in` or `inlateout`: the register gets the value in its low bits, and what is
above them is not specified. -/
structure Operand where
  reg : Reg
  bits : ℕ
  value : ℕ

def usize (r : Reg) (v : Word) : Operand := ⟨r, 64, v.toNat⟩

/-- An integer literal without a type. -/
def literal (r : Reg) (v : ℕ) : Operand := ⟨r, 32, v⟩

/-- An `asm!` block around `syscall`. -/
structure Block where
  inputs : List Operand
  /-- The registers of `lateout` and `inlateout`. -/
  outputs : List Reg
  /-- Without `options(noreturn)`. -/
  returns : Bool

/-- The operands that most blocks end with. -/
def statusBlock (number : SyscallNumber) (inputs : List Operand) : Block :=
  ⟨inputs ++ [usize .rax (code number)], [.rax, .rcx, .r11], true⟩

def Request.block : Request → Block
  | .yield => ⟨[usize .rax 1], [.rcx, .r11], true⟩
  | .debugWrite buf len => statusBlock .write
      [literal .rdi 1, usize .rsi buf, usize .rdx len, literal .r10 0]
  | .exit exitCode => ⟨[usize .rdi exitCode, usize .rax (code .exit)], [], false⟩
  | .send destTaskId msg len =>
    statusBlock .send [usize .rdi destTaskId, usize .rsi msg, usize .rdx len]
  | .recv buf len actualLen sender => statusBlock .recv
      [usize .rdi buf, usize .rsi len, usize .rdx actualLen, usize .r10 sender]
  | .frameAlloc handle => statusBlock .frameAlloc [usize .rdi handle]
  | .frameDealloc frameHandle => statusBlock .frameDealloc [usize .rdi frameHandle]
  | .asCreate handle => statusBlock .asCreate [usize .rdi handle]
  | .map asHandle frameHandle virtualAddr permissions handle => statusBlock .map
      [usize .rdi asHandle, usize .rsi frameHandle, usize .rdx virtualAddr,
        usize .r10 permissions, usize .r8 handle]
  | .unmap mappingHandle => statusBlock .unmap [usize .rdi mappingHandle]
  | .taskCreate asHandle entry userStack handle => statusBlock .taskCreate
      [usize .rdi asHandle, usize .rsi entry, usize .rdx userStack, usize .r10 handle]

/-- The registers at the `syscall` of a block. -/
def Block.Loaded (b : Block) (reg : Reg → ℕ) : Prop :=
  ∀ o ∈ b.inputs, reg o.reg % 2 ^ o.bits = o.value

instance (b : Block) (reg : Reg → ℕ) : Decidable (b.Loaded reg) :=
  inferInstanceAs (Decidable (∀ o ∈ b.inputs, _))

/-- Nothing stands above the literals. -/
def Block.Whole (b : Block) (reg : Reg → ℕ) : Prop :=
  ∀ o ∈ b.inputs, reg o.reg % 2 ^ 64 = o.value

instance (b : Block) (reg : Reg → ℕ) : Decidable (b.Whole reg) :=
  inferInstanceAs (Decidable (∀ o ∈ b.inputs, _))

/-- What a function makes of the code in `rax`; `sys_yield` does not look at it. -/
def Request.result : Request → ℕ → Except Status Unit
  | .yield, _ => .ok ()
  | _, status => if status ≠ 0 then .error (.from status) else .ok ()

/-- What the function asks of the kernel. -/
def Request.program : Request → KM Unit
  | .yield => sysYield
  | .debugWrite buf len => sysWrite 1 buf.toNat len.toNat 0
  | .exit exitCode => sysExit exitCode.toNat
  | .send destTaskId msg len => sysSend destTaskId.toNat msg.toNat len.toNat
  | .recv buf len actualLen sender =>
    sysRecv ⟨buf.toNat, len.toNat, actualLen.toNat, sender.toNat⟩
  | .frameAlloc handle => sysFrameAlloc handle.toNat
  | .frameDealloc frameHandle => sysFrameDealloc frameHandle.toNat
  | .asCreate handle => sysAsCreate handle.toNat
  | .map asHandle frameHandle virtualAddr permissions handle =>
    sysMap asHandle.toNat frameHandle.toNat virtualAddr.toNat permissions.toNat handle.toNat
  | .unmap mappingHandle => sysUnmap mappingHandle.toNat
  | .taskCreate asHandle entry userStack handle =>
    sysTaskCreate asHandle.toNat entry.toNat userStack.toNat handle.toNat

/-- The registers that `handle` gets. -/
def callArgs (reg : Reg → ℕ) : SyscallArgs :=
  ⟨.ofNat 64 (reg .rax), .ofNat 64 (reg .rdi), .ofNat 64 (reg .rsi), .ofNat 64 (reg .rdx),
    .ofNat 64 (reg .r10), .ofNat 64 (reg .r8)⟩

/-- The codes that the kernel answers a request with: `handle` returns at once, or after
the task has been chosen again. -/
inductive Answer : Request → ℕ → Prop
  | returned {req reg k v k'} : req.block.Loaded reg → handle (callArgs reg) k = .ok v k' →
      Answer req v
  | yielded {k k'} : sysYield k = .stop .switched k' → Answer .yield 0
  | received {buf len actualLen sender k v k'} :
      returning (sysRecvTail ⟨buf.toNat, len.toNat, actualLen.toNat, sender.toNat⟩) k = .ok v k' →
      Answer (.recv buf len actualLen sender) v

/-- The names of the kernel for the same conditions. -/
def Status.ofKernel : Dusk.Status → Status
  | .invalidArgument => .invalidArgument
  | .badAddress => .badAddress
  | .badFileDescriptor => .badFileDescriptor
  | .noSuchTask => .noSuchTask
  | .outOfMemory => .outOfMemory
  | .badHandle => .badHandle

end DuskSys

end Dusk
