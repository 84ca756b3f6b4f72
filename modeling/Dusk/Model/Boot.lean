import Dusk.Model.Syscall
import Dusk.Model.Format

/-! The way from the boot loader to the first user task: `boot/limine.rs`,
`main.rs` and `task/bootstrap.rs`. The device registers behind the interrupt
controllers are not part of the model; their pages are. -/

namespace Dusk

open Lib Scheduler

/-- What the boot loader, the linker and the firmware hand to the kernel. -/
structure BootInfo where
  memoryMap : List MemoryRegion
  hhdmOffset : ℕ
  /-- The load address of the kernel image and the linker's symbols. -/
  physicalBase : ℕ
  virtualBase : ℕ
  textStart : ℕ
  textEnd : ℕ
  rodataStart : ℕ
  rodataEnd : ℕ
  dataStart : ℕ
  dataEnd : ℕ
  initramfs : InitramfsImage
  paging : PagingConfig
  /-- The local APIC's registers, unless they are reached as MSRs. -/
  localApic : Option ℕ
  ioApic : ℕ
  /-- The content of memory, and what the processor will cache. -/
  memory : PhysMem
  fills : ℕ → List ℕ
  debugAssertions : Bool

namespace BootInfo

def directMap (b : BootInfo) : DirectMap := ⟨b.hhdmOffset⟩

/-- The three segments of the kernel layout. -/
def textSegment (b : BootInfo) : KernelSegment :=
  ⟨b.physicalBase, b.textStart, b.textEnd - b.textStart, ⟨false, true, false⟩⟩

def rodataSegment (b : BootInfo) : KernelSegment :=
  ⟨b.physicalBase + (b.rodataStart - b.virtualBase), b.rodataStart, b.rodataEnd - b.rodataStart,
    ⟨false, false, false⟩⟩

def dataSegment (b : BootInfo) : KernelSegment :=
  ⟨b.physicalBase + (b.dataStart - b.virtualBase), b.dataStart, b.dataEnd - b.dataStart,
    ⟨true, false, false⟩⟩

end BootInfo

def LOCAL_APIC_VIRTUAL_ADDRESS : ℕ := 0xFFFF_FFFD_0000_0000
def IOAPIC_VIRTUAL_ADDRESS : ℕ := 0xFFFF_FFFD_1000_0000
def INITRAMFS_WINDOW : ℕ := 0x4000_0000

/-- A failed `expect` or `unwrap` on the way to the first task. -/
def bootExpect {ε α : Type} : Except ε α → KM α
  | .ok a => pure a
  | .error _ => panic .bootFailed

/-- The bytes the kernel reads through the direct map. -/
def Machine.directByte (m : Machine) (address : ℕ) : Byte :=
  m.mem.byte (m.allocator.directMap.physical address)

/-- The page loop of `load_elf` for one segment, `count` pages from `page`. -/
def loadPages (space : AddressSpace) (segment : Segment) (fileEnd page : ℕ) :
    ℕ → MM (Except Unit Unit)
  | 0 => pure (.ok ())
  | count + 1 => do
    match ← FrameAllocator.allocNozero with
    | none => pure (.error ())
    | some frame => do
      let m ← Prog.get
      match m.allocator.directMap.translate (startAddress frame) with
      | none => do
        FrameAllocator.dealloc frame
        pure (.error ())
      | some _ => do
        let copyStart := min (max page segment.address) (page + FRAME_SIZE)
        let copyEnd := max (min (page + FRAME_SIZE) fileEnd) copyStart
        let source := segment.data.start + (copyStart - segment.address)
        modifyMem fun mem => (mem.zeroFrame frame).overlay frame (copyStart - page)
          (copyEnd - copyStart) fun i => m.directByte (source + i)
        match ← space.map (startAddress frame) page
            ⟨segment.writable, segment.executable, true⟩ .writeBack with
        | .error _ => do
          FrameAllocator.dealloc frame
          pure (.error ())
        | .ok () => loadPages space segment fileEnd (page + FRAME_SIZE) count

/-- The segment loop of `load_elf` over `count` headers from `i`; the result says
whether the entry point has been seen in an executable segment. -/
def loadSegments (space : AddressSpace) (program : Elf) (i : ℕ) :
    ℕ → Bool → MM (Except Unit Bool)
  | 0, executableEntry => pure (.ok executableEntry)
  | count + 1, executableEntry => do
    let m ← Prog.get
    if Elf.headerType m.directByte program.headers i ≠ 1 then
      loadSegments space program (i + 1) count executableEntry
    else match program.segment m.directByte i with
    | none => pure (.error ())
    | some segment =>
      match checkedAdd segment.address segment.memorySize with
      | none => pure (.error ())
      | some stop =>
        if stop > USER_SPACE_END then pure (.error ())
        else if segment.memorySize = 0 then
          loadSegments space program (i + 1) count executableEntry
        else do
          let executableEntry := executableEntry
            || (segment.executable && decide (segment.address ≤ program.entry ∧ program.entry < stop))
          let pageStart := alignDownToFrame segment.address
          let fileEnd ← addUsize segment.address segment.data.length
          match ← loadPages space segment fileEnd pageStart
              ((stop - pageStart + (FRAME_SIZE - 1)) / FRAME_SIZE) with
          | .error () => pure (.error ())
          | .ok () => loadSegments space program (i + 1) count executableEntry

/-- `load_elf`; its errors only differ in the message of a boot panic. -/
def loadElf (bytes : Slice) (space : AddressSpace) : MM (Except Unit ℕ) := do
  let m ← Prog.get
  match Elf.parse m.directByte bytes with
  | none => pure (.error ())
  | some program => do
    match ← loadSegments space program 0 program.headerCount false with
    | .error () => pure (.error ())
    | .ok executableEntry =>
      if !executableEntry then pure (.error ()) else pure (.ok program.entry)

def spawn (name : String) (initramfs : InitramfsImage) (kernelAs : AddressSpace) : KM ℕ := do
  let k ← Prog.get
  let bytes ← Prog.expect (.panicked .bootFailed)
    (Cpio.findFile k.machine.directByte ⟨initramfs.start, initramfs.length⟩ name)
  let kernelStack ← (allocateKernelStack kernelAs >>= bootExpect)
  let k ← Prog.get
  let initramfsPhysicalAddr ← Prog.expect (.panicked .bootFailed)
    (kernelAs.toPhysical k.machine.mem initramfs.start)
  let addressSpace ← (onMachine kernelAs.newUser >>= bootExpect)
  let length ← onMachine (addUsize initramfs.length 0xFFF)
  onMachine (addressSpace.mapRange initramfsPhysicalAddr INITRAMFS_WINDOW
    (alignDownToFrame length) ⟨true, false, true⟩ .writeBack) >>= bootExpect
  let userStack ← (onMachine (UserStack.allocate addressSpace) >>= bootExpect)
  let entry ← (onMachine (loadElf bytes addressSpace) >>= bootExpect)
  let asId ← (insertAddressSpace addressSpace >>= bootExpect)
  let task ← Prog.expect (.panicked .addressSpaceHandleRejected)
    (Tcb.newUser asId kernelStack entry userStack.top)
  addTask task >>= bootExpect

/-- The two `map` calls of `init_interrupt_controller`. -/
def initInterruptController (b : BootInfo) (space : AddressSpace) : KM Unit := do
  match b.localApic with
  | none => pure ()
  | some address =>
    onMachine (space.map address LOCAL_APIC_VIRTUAL_ADDRESS ⟨true, false, false⟩ .uncacheable)
      >>= bootExpect
  onMachine (space.map b.ioApic IOAPIC_VIRTUAL_ADDRESS ⟨true, false, false⟩ .uncacheable)
    >>= bootExpect

/-- `_start` and `kernel_main`. What the processor cached from the boot loader's
tables is not global, so that nothing of it is left once CR3 is loaded. -/
def kernelMain (b : BootInfo) : KM Unit := do
  let allocator ← (onMachine (FrameAllocator.new b.memoryMap b.directMap) >>= bootExpect)
  onMachine (modifyAllocator fun _ => allocator)
  let addressSpace ← (onMachine (AddressSpace.newKernel b.directMap b.memoryMap b.textSegment
    b.rodataSegment b.dataSegment b.paging) >>= bootExpect)
  let kernelStack ← (allocateKernelStack addressSpace >>= bootExpect)
  let handoff ← onMachine FrameAllocator.alloc
  let handoffFrame ← Prog.expect (.panicked .bootFailed) handoff
  onMachine (Prog.modify fun m => { m with fills := b.fills })
  onMachine addressSpace.root.activate
  onMachine (Prog.modify fun m => { m with kernelStackTop := kernelStack.top })
  onMachine (FrameAllocator.dealloc handoffFrame)
  onMachine (FrameAllocator.reclaimRegions b.memoryMap .bootloaderReclaimable)
  initInterruptController b addressSpace
  let _ ← spawn "omega3.elf" b.initramfs addressSpace
  Prog.modify fun k => { k with kernelSpace := some addressSpace }
  start

/-- The kernel's statics and the processor before `_start`. -/
def BootInfo.initial (b : BootInfo) : Kernel where
  machine :=
    { mem := b.memory
      allocator := ⟨⟨0, 0⟩, 0, 0, 0, b.directMap⟩
      paging := b.paging
      cr3 := 0
      kernelStackTop := 0
      tlb := []
      fills := fun _ => []
      moment := 0
      handBacks := []
      serial := [] }
  kernelSpace := none
  spaces := Slots.empty
  sched := Scheduler.new
  pending := none
  accesses := []
  debugAssertions := b.debugAssertions

/-- The state in which the first user task starts, when the boot succeeds. -/
def BootInfo.started (b : BootInfo) : Option Kernel :=
  match kernelMain b b.initial with
  | .stop .switched k => some k
  | _ => none

end Dusk
