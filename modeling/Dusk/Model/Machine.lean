import Dusk.Model.Memory

/-! The machine state below the kernel's own tables: physical memory, the frame
allocator that lives in it, and the registers and caches of the processor. -/

namespace Dusk

open Lib

inductive PagingMode where
  | fourLevel | fiveLevel
  deriving DecidableEq, Repr

/-- `PagingConfig`; the width is in the range `detect_features_and_enable` accepts. -/
structure PagingConfig where
  physicalAddressBits : ℕ
  globalPages : Bool
  nxEnabled : Bool
  mode : PagingMode
  width : 12 ≤ physicalAddressBits ∧ physicalAddressBits ≤ 52
  deriving DecidableEq

namespace PagingConfig

theorem width_forty : 12 ≤ 40 ∧ 40 ≤ 52 := by decide

def physicalAddressMask (c : PagingConfig) : Word :=
  BitVec.ofNat 64 (2 ^ c.physicalAddressBits - 1) &&& ~~~0xFFF

def physicalAddressLimit (c : PagingConfig) : ℕ := 2 ^ c.physicalAddressBits

end PagingConfig

/-- The allocator's bitmap: two bits per frame, at a direct-map address. -/
structure Bitmap where
  start : ℕ
  frameCount : ℕ

structure FrameAllocator where
  bitmap : Bitmap
  nextSearch : ℕ
  allocatableFrames : ℕ
  freeFrames : ℕ
  directMap : DirectMap

/-- A cached translation of one page. -/
structure TlbEntry where
  page : ℕ
  frame : ℕ
  isGlobal : Bool
  deriving DecidableEq

/-- A page whose unmapping has completed and whose frame is handed back to its
owner, with the translations still cached at that moment. The pages of `sys_unmap` and
of the stacks that are freed are recorded; those a failed allocation of a stack takes
down again have never been used, and are not. -/
structure HandBack where
  page : ℕ
  frame : ℕ
  tlb : List TlbEntry

structure Machine where
  mem : PhysMem
  allocator : FrameAllocator
  /-- The processor's paging configuration and the root frame in CR3. -/
  paging : PagingConfig
  cr3 : ℕ
  /-- `BOOT_CPU.kernel_stack_top`, the same value as the TSS's first stack. -/
  kernelStackTop : ℕ
  tlb : List TlbEntry
  /-- The pages whose translation the processor caches at its `n`-th free moment.
  Nothing restricts this function: every behaviour of the cache is one of them. -/
  fills : ℕ → List ℕ
  moment : ℕ
  handBacks : List HandBack
  serial : List Byte

/-- Programs of the memory subsystem. -/
abbrev MM := Prog Machine Panic

/-- `a + b` with the overflow check of a debug build. -/
def addUsize (a b : ℕ) : MM ℕ := Prog.expect .arithmeticOverflow (checkedAdd a b)

/-- `a - b` with the overflow check of a debug build. -/
def subUsize (a b : ℕ) : MM ℕ := Prog.expect .arithmeticOverflow (checkedSub a b)

/-- Change physical memory. -/
def modifyMem (f : PhysMem → PhysMem) : MM Unit :=
  Prog.modify fun m => { m with mem := f m.mem }

def modifyAllocator (f : FrameAllocator → FrameAllocator) : MM Unit :=
  Prog.modify fun m => { m with allocator := f m.allocator }

end Dusk
