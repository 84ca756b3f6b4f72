import Dusk.Model.Paging

/-! `memory/address_space.rs` and `memory/stack.rs`: address spaces over page
tables, and the stacks mapped into them. -/

namespace Dusk

open Lib

/-- `USER_SPACE_END` of `memory/user.rs`. -/
def USER_SPACE_END : ℕ := 0x0000_8000_0000_0000

inductive MapError where
  | invalidVirtualAddress | virtualAddressUnaligned | physicalAddressTooLarge
  | physicalAddressUnaligned | rangeLengthUnaligned | addressOverflow | alreadyMapped
  | mappingConflict | unsupportedPermissions | outOfMemory | pageTableUnavailable
  | corruptedPageTable | invalidUserAddress | invalidUserMap
  deriving DecidableEq, Repr

def MapError.ofPageTable : PageTableMapError → MapError
  | .invalidVirtualAddress => .invalidVirtualAddress
  | .virtualAddressUnaligned => .virtualAddressUnaligned
  | .physicalAddressTooLarge => .physicalAddressTooLarge
  | .pageAlreadyMapped => .alreadyMapped
  | .hugePageConflict => .mappingConflict
  | .noExecuteUnsupported => .unsupportedPermissions
  | .outOfFrames => .outOfMemory
  | .pageTableOutsideDirectMap => .pageTableUnavailable
  | .invalidPageTableEntry => .corruptedPageTable

inductive UnmapError where
  | invalidVirtualAddress | virtualAddressUnaligned | notMapped | mappingConflict
  | pageTableUnavailable | corruptedPageTable | invalidUserAddress
  deriving DecidableEq, Repr

def UnmapError.ofPageTable : PageTableUnmapError → UnmapError
  | .invalidVirtualAddress => .invalidVirtualAddress
  | .virtualAddressUnaligned => .virtualAddressUnaligned
  | .pageNotMapped => .notMapped
  | .hugePageConflict => .mappingConflict
  | .pageTableOutsideDirectMap => .pageTableUnavailable
  | .invalidPageTableEntry => .corruptedPageTable

inductive AddressSpaceCreateError where
  | addressOutsideDirectMap | physicalAddressTooLarge | outOfMemory | map (e : MapError)
  deriving DecidableEq, Repr

def AddressSpaceCreateError.ofPageTable : PageTableCreateError → AddressSpaceCreateError
  | .physicalAddressTooLarge => .physicalAddressTooLarge
  | .outOfFrames => .outOfMemory

inductive AddressSpaceKind where
  | kernel | user
  deriving DecidableEq, Repr

structure AddressSpace where
  root : PageTable
  kind : AddressSpaceKind

namespace AddressSpace

def map (space : AddressSpace) (physicalAddr virtualAddr : ℕ) (permissions : PagePermissions)
    (cachePolicy : CachePolicy) : MM (Except MapError Unit) :=
  let isGlobal : Bool := space.kind = .kernel
  if space.kind = .user ∧ virtualAddr ≥ USER_SPACE_END then pure (.error .invalidUserAddress)
  else if space.kind = .user ∧ permissions.userAccessible = false then
    pure (.error .invalidUserMap)
  else match fromStartAddress physicalAddr with
    | none => pure (.error .physicalAddressUnaligned)
    | some frame => do
      match ← space.root.map virtualAddr frame permissions cachePolicy isGlobal with
      | .error e => pure (.error (MapError.ofPageTable e))
      | .ok () => pure (.ok ())

/-- The rollback of `map_range`: unmap the first `count` pages, last first. -/
def rollBackPages (space : AddressSpace) (virtualStart : ℕ) : ℕ → MM Unit
  | 0 => pure ()
  | count + 1 => do
    let address ← addUsize virtualStart (count * FRAME_SIZE)
    match ← space.root.unmap address with
    | .error _ => Prog.stop .rollBackMappedPage
    | .ok _ => space.rollBackPages virtualStart count

/-- The loop of `map_range` with `remaining` pages to go after `mapped` pages. -/
def mapPages (space : AddressSpace) (physicalStart virtualStart : ℕ)
    (permissions : PagePermissions) (cachePolicy : CachePolicy) :
    ℕ → ℕ → MM (Except MapError Unit)
  | 0, _ => pure (.ok ())
  | remaining + 1, mapped => do
    let physicalAddr ← addUsize physicalStart (mapped * FRAME_SIZE)
    let virtualAddr ← addUsize virtualStart (mapped * FRAME_SIZE)
    match ← space.map physicalAddr virtualAddr permissions cachePolicy with
    | .error e => do
      space.rollBackPages virtualStart mapped
      pure (.error e)
    | .ok () =>
      space.mapPages physicalStart virtualStart permissions cachePolicy remaining (mapped + 1)

def mapRange (space : AddressSpace) (physicalStart virtualStart length : ℕ)
    (permissions : PagePermissions) (cachePolicy : CachePolicy) : MM (Except MapError Unit) :=
  if length = 0 then pure (.ok ())
  else if physicalStart % FRAME_SIZE ≠ 0 then pure (.error .physicalAddressUnaligned)
  else if virtualStart % FRAME_SIZE ≠ 0 then pure (.error .virtualAddressUnaligned)
  else if length % FRAME_SIZE ≠ 0 then pure (.error .rangeLengthUnaligned)
  else if (checkedAdd physicalStart (length - FRAME_SIZE)).isNone then
    pure (.error .addressOverflow)
  else if (checkedAdd virtualStart (length - FRAME_SIZE)).isNone then
    pure (.error .addressOverflow)
  else space.mapPages physicalStart virtualStart permissions cachePolicy (length / FRAME_SIZE) 0

def unmap (space : AddressSpace) (virtualAddr : ℕ) : MM (Except UnmapError ℕ) :=
  if space.kind = .user ∧ virtualAddr ≥ 0x0000_8000_0000_0000 then
    pure (.error .invalidUserAddress)
  else do
    match ← space.root.unmap virtualAddr with
    | .error e => pure (.error (UnmapError.ofPageTable e))
    | .ok frame => pure (.ok frame)

def destroy (space : AddressSpace) : MM Unit :=
  match space.kind with
  | .kernel => space.root.destroy
  | .user => space.root.destroyUser

/-- The direct-map loop of `new_kernel`. -/
def mapRegions (space : AddressSpace) (directMap : DirectMap) (imageBase : ℕ) :
    List MemoryRegion → MM (Except AddressSpaceCreateError Unit)
  | [] => pure (.ok ())
  | region :: regions =>
    if region.kind = .reserved ∨ region.kind = .badMemory then
      space.mapRegions directMap imageBase regions
    else if region.kind = .kernelAndModules ∧ region.start = imageBase then
      space.mapRegions directMap imageBase regions
    else
      let cachePolicy : CachePolicy :=
        if region.kind = .mappedReserved ∨ region.kind = .framebuffer then .uncacheable
        else .writeBack
      match directMap.translate region.start with
      | none => pure (.error .addressOutsideDirectMap)
      | some virtualStart => do
        match ← space.mapRange region.start virtualStart region.length ⟨true, false, false⟩
            cachePolicy with
        | .error e => do
          space.destroy
          pure (.error (.map e))
        | .ok () => space.mapRegions directMap imageBase regions

/-- The kernel-image loop of `new_kernel`. Its debug assertion that the segments
are contiguous is not part of a release kernel and is left out, so that boots
without it are covered too. -/
def mapSegments (space : AddressSpace) :
    List KernelSegment → MM (Except AddressSpaceCreateError Unit)
  | [] => pure (.ok ())
  | segment :: segments => do
    match ← space.mapRange segment.physicalBase segment.virtualBase segment.length
        segment.permissions .writeBack with
    | .error e => do
      space.destroy
      pure (.error (.map e))
    | .ok () => space.mapSegments segments

def newKernel (directMap : DirectMap) (memoryRegions : List MemoryRegion)
    (text rodata data : KernelSegment) (config : PagingConfig) :
    MM (Except AddressSpaceCreateError AddressSpace) := do
  match ← PageTable.new directMap config with
  | .error e => pure (.error (AddressSpaceCreateError.ofPageTable e))
  | .ok root => do
    let space : AddressSpace := ⟨root, .kernel⟩
    match ← space.mapRegions directMap text.physicalBase memoryRegions with
    | .error e => pure (.error e)
    | .ok () =>
      match ← space.mapSegments [text, rodata, data] with
      | .error e => pure (.error e)
      | .ok () => pure (.ok space)

def newUser (space : AddressSpace) : MM (Except PageTableCreateError AddressSpace) := do
  match ← PageTable.new space.root.directMap space.root.config with
  | .error e => pure (.error e)
  | .ok userRoot => do
    space.root.copyKernelMappingsTo userRoot
    pure (.ok ⟨userRoot, .user⟩)

def toPhysical (space : AddressSpace) (mem : PhysMem) (virtualAddr : ℕ) : Option ℕ :=
  space.root.toPhysical mem virtualAddr

def mapping (space : AddressSpace) (mem : PhysMem) (virtualAddr : ℕ) : Option PagePermissions :=
  space.root.mapping mem virtualAddr

end AddressSpace

def GUARD_PAGES : ℕ := 1
def KERNEL_STACK_PAGES : ℕ := 8
def USER_STACK_PAGES : ℕ := 16
def KERNEL_STACK_SIZE : ℕ := KERNEL_STACK_PAGES * FRAME_SIZE
def USER_STACK_SIZE : ℕ := USER_STACK_PAGES * FRAME_SIZE
def KERNEL_SLOT_SIZE : ℕ := (KERNEL_STACK_PAGES + GUARD_PAGES) * FRAME_SIZE
def MAX_KERNEL_STACKS : ℕ := 64
def KERNEL_STACK_BASE : ℕ := 0xFFFF_FFFE_0000_0000
def USER_STACK_TOP : ℕ := 0x0000_7FFF_FFFF_F000

inductive StackCreateError where
  | addressOverflow | unalignedStackTop | outOfFrames | outOfStacks | guardPageMapped
  | map (e : MapError)
  deriving DecidableEq, Repr

structure StackMapping where
  guardPage : ℕ
  mappedStart : ℕ
  stackSize : ℕ
  top : ℕ
  deriving DecidableEq

/-- Record that the frame of an unmapped page goes back to its owner. -/
def handBack (page frame : ℕ) : MM Unit := Prog.modify fun m =>
  { m with handBacks := m.handBacks ++ [⟨page, frame, m.tlb⟩] }

namespace StackMapping

def rollback (space : AddressSpace) (mappedStart : ℕ) : ℕ → MM Unit
  | 0 => pure ()
  | pages + 1 => do
    let address ← addUsize mappedStart (pages * FRAME_SIZE)
    match ← space.unmap address with
    | .error _ => Prog.stop .rollBackStackMapping
    | .ok frame => do
      FrameAllocator.dealloc frame
      rollback space mappedStart pages

/-- The loop of `allocate` with `remaining` pages to go after `mapped` pages. -/
def allocatePages (space : AddressSpace) (mappedStart : ℕ) (permissions : PagePermissions) :
    ℕ → ℕ → MM (Except StackCreateError Unit)
  | 0, _ => pure (.ok ())
  | remaining + 1, mapped =>
    match checkedAdd mappedStart (mapped * FRAME_SIZE) with
    | none => pure (.error .addressOverflow)
    | some address => do
      match ← FrameAllocator.alloc with
      | none => do
        rollback space mappedStart mapped
        pure (.error .outOfFrames)
      | some frame => do
        match ← space.map (startAddress frame) address permissions .writeBack with
        | .error e => do
          FrameAllocator.dealloc frame
          rollback space mappedStart mapped
          pure (.error (.map e))
        | .ok () => allocatePages space mappedStart permissions remaining (mapped + 1)

def allocate (space : AddressSpace) (stackSize top : ℕ) (permissions : PagePermissions) :
    MM (Except StackCreateError StackMapping) :=
  if top % FRAME_SIZE ≠ 0 then pure (.error .unalignedStackTop)
  else match checkedSub top stackSize with
  | none => pure (.error .addressOverflow)
  | some mappedStart =>
    match checkedSub mappedStart FRAME_SIZE with
    | none => pure (.error .addressOverflow)
    | some guardPage => do
      let m ← Prog.get
      if (space.toPhysical m.mem guardPage).isSome then pure (.error .guardPageMapped)
      else do
        match ← allocatePages space mappedStart permissions (stackSize / FRAME_SIZE) 0 with
        | .error e => pure (.error e)
        | .ok () => do
          let m ← Prog.get
          Prog.assert .guardPageMapped (space.toPhysical m.mem guardPage).isNone
          pure (.ok ⟨guardPage, mappedStart, stackSize, top⟩)

/-- The loop of `destroy` over the first `pages` pages, last first. -/
def destroyPages (space : AddressSpace) (mappedStart : ℕ) : ℕ → MM Unit
  | 0 => pure ()
  | pages + 1 => do
    let address ← addUsize mappedStart (pages * FRAME_SIZE)
    match ← space.unmap address with
    | .error _ => Prog.stop .stackMappingMissing
    | .ok frame => do
      handBack address frame
      FrameAllocator.dealloc frame
      destroyPages space mappedStart pages

def destroy (stack : StackMapping) (space : AddressSpace) : MM Unit := do
  destroyPages space stack.mappedStart (stack.stackSize / FRAME_SIZE)
  let m ← Prog.get
  Prog.assert .guardPageMapped (space.toPhysical m.mem stack.guardPage).isNone

end StackMapping

/-- `KernelStack` wraps the mapping of its pages; so does `UserStack`. -/
abbrev KernelStack := StackMapping

def KernelStack.allocate (space : AddressSpace) (top : ℕ) :
    MM (Except StackCreateError KernelStack) :=
  StackMapping.allocate space KERNEL_STACK_SIZE top ⟨true, false, false⟩

def UserStack.allocate (space : AddressSpace) : MM (Except StackCreateError StackMapping) :=
  StackMapping.allocate space USER_STACK_SIZE USER_STACK_TOP ⟨true, false, true⟩

/-- A set bit marks a slot in use. -/
structure KernelStackPool where
  freeSlots : Word

namespace KernelStackPool

def new : KernelStackPool := ⟨0⟩

/-- The search loop of `allocate` over `count` slots from `slot`. -/
def findSlot (pool : KernelStackPool) (slot : ℕ) : ℕ → Option ℕ
  | 0 => none
  | count + 1 =>
    if pool.freeSlots &&& ((1 : Word) <<< slot) = 0 then some slot else pool.findSlot (slot + 1) count

def allocate (pool : KernelStackPool) (space : AddressSpace) :
    MM (KernelStackPool × Except StackCreateError KernelStack) :=
  match pool.findSlot 0 MAX_KERNEL_STACKS with
  | none => pure (pool, .error .outOfStacks)
  | some slot => do
    let top ← addUsize KERNEL_STACK_BASE ((slot + 1) * KERNEL_SLOT_SIZE)
    let stack ← KernelStack.allocate space top
    pure (⟨pool.freeSlots ||| ((1 : Word) <<< slot)⟩, stack)

def free (pool : KernelStackPool) (space : AddressSpace) (stack : KernelStack) :
    MM KernelStackPool := do
  let offset ← subUsize stack.top KERNEL_STACK_BASE
  let slot ← subUsize (offset / KERNEL_SLOT_SIZE) 1
  stack.destroy space
  Prog.assert .arithmeticOverflow (decide (slot < 64))
  pure ⟨pool.freeSlots &&& ~~~((1 : Word) <<< slot)⟩

end KernelStackPool

end Dusk
