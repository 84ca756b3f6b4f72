import Dusk.Model.Frame

/-! `arch/x86_64/paging.rs`: page-table entries, the walkers, `map`, `unmap` and
the destructors. Tables are frames of physical memory reached through the direct
map; the processor's translation cache is filled between any two changes. -/

namespace Dusk

open Lib

def PAGE_SIZE : ℕ := 4096

def PAGE_TABLE_ENTRIES : ℕ := 512

inductive PageTableLevel where
  | pml5 | pml4 | pdpt | pageDirectory
  deriving DecidableEq, Repr

namespace PageTableLevel

def shift : PageTableLevel → ℕ
  | pml5 => 48
  | pml4 => 39
  | pdpt => 30
  | pageDirectory => 21

def index (level : PageTableLevel) (address : ℕ) : ℕ := (address >>> level.shift) &&& 0x1FF

def largePageSize : PageTableLevel → Option ℕ
  | pdpt => some (1 <<< 30)
  | pageDirectory => some (1 <<< 21)
  | pml5 | pml4 => none

end PageTableLevel

namespace PagingMode

def virtualAddressBits : PagingMode → ℕ
  | fourLevel => 48
  | fiveLevel => 57

def intermediateLevels : PagingMode → List PageTableLevel
  | fourLevel => [.pml4, .pdpt, .pageDirectory]
  | fiveLevel => [.pml5, .pml4, .pdpt, .pageDirectory]

end PagingMode

def p1Index (addr : ℕ) : ℕ := (addr >>> 12) &&& 0x1FF

def pageOffset (addr : ℕ) : ℕ := addr &&& 0xFFF

inductive PageTableEntryError where
  | physicalAddressTooLarge | noExecuteUnsupported
  deriving DecidableEq, Repr

namespace PageTableEntry

def PRESENT : Word := 1 <<< 0
def WRITABLE : Word := 1 <<< 1
def USER_ACCESSIBLE : Word := 1 <<< 2
def WRITE_THROUGH : Word := 1 <<< 3
def CACHE_DISABLED : Word := 1 <<< 4
def HUGE_PAGE : Word := 1 <<< 7
def GLOBAL : Word := 1 <<< 8
def NX : Word := 1 <<< 63

/-- `flag` if the condition holds, and no bit otherwise. -/
def flagIf (c : Bool) (flag : Word) : Word := if c then flag else 0

def new (physicalAddress : ℕ) (permissions : PagePermissions) (cachePolicy : CachePolicy)
    (config : PagingConfig) (isGlobal : Bool) : Except PageTableEntryError Word :=
  if physicalAddress ≥ config.physicalAddressLimit then .error .physicalAddressTooLarge
  else if !permissions.executable && !config.nxEnabled then .error .noExecuteUnsupported
  else .ok (BitVec.ofNat 64 physicalAddress ||| PRESENT
    ||| flagIf permissions.writable WRITABLE
    ||| flagIf permissions.userAccessible USER_ACCESSIBLE
    ||| flagIf (!permissions.executable) NX
    ||| flagIf (isGlobal && config.globalPages) GLOBAL
    ||| flagIf (cachePolicy = .uncacheable) (CACHE_DISABLED ||| WRITE_THROUGH))

def newTable (frame : ℕ) (userAccessible : Bool) (config : PagingConfig) :
    Except PageTableEntryError Word :=
  if startAddress frame ≥ config.physicalAddressLimit then .error .physicalAddressTooLarge
  else .ok (BitVec.ofNat 64 (startAddress frame) ||| PRESENT ||| WRITABLE
    ||| flagIf userAccessible USER_ACCESSIBLE)

def null : Word := 0

def physicalAddress (e : Word) (config : PagingConfig) : ℕ :=
  (e &&& config.physicalAddressMask).toNat

def isPresent (e : Word) : Bool := e &&& PRESENT != 0

def writable (e : Word) : Bool := e &&& WRITABLE != 0

def executable (e : Word) : Bool := e &&& NX == 0

def isUserAccessible (e : Word) : Bool := e &&& USER_ACCESSIBLE != 0

def isHuge (e : Word) : Bool := e &&& HUGE_PAGE != 0

def isGlobal (e : Word) : Bool := e &&& GLOBAL != 0

def tableFrame (e : Word) (config : PagingConfig) : Option ℕ :=
  if !isPresent e || isHuge e then none else fromStartAddress (physicalAddress e config)

def leafFrame (e : Word) (config : PagingConfig) : Option ℕ :=
  if !isPresent e then none else fromStartAddress (physicalAddress e config)

def permissions (e : Word) : PagePermissions :=
  ⟨writable e, executable e, isUserAccessible e⟩

end PageTableEntry

inductive PageTableMapError where
  | invalidVirtualAddress | virtualAddressUnaligned | physicalAddressTooLarge
  | pageAlreadyMapped | hugePageConflict | noExecuteUnsupported | outOfFrames
  | pageTableOutsideDirectMap | invalidPageTableEntry
  deriving DecidableEq, Repr

inductive PageTableUnmapError where
  | invalidVirtualAddress | virtualAddressUnaligned | pageNotMapped | hugePageConflict
  | pageTableOutsideDirectMap | invalidPageTableEntry
  deriving DecidableEq, Repr

inductive PageTableCreateError where
  | physicalAddressTooLarge | outOfFrames
  deriving DecidableEq, Repr

structure EntryLocation where
  table : ℕ
  index : ℕ
  deriving DecidableEq

structure PageTable where
  directMap : DirectMap
  config : PagingConfig
  frame : ℕ

/-- The leaf entry the processor reaches for `address` from a table. -/
def walkLeaf (config : PagingConfig) (mem : PhysMem) (address : ℕ) :
    List PageTableLevel → ℕ → Option Word
  | [], table =>
    let entry := mem.word table (p1Index address)
    if PageTableEntry.isPresent entry then some entry else none
  | level :: levels, table =>
    (PageTableEntry.tableFrame (mem.word table (level.index address)) config).bind
      (walkLeaf config mem address levels)

/-- `is_canonical`: the address is its low bits, sign extended. -/
def PagingMode.isCanonical (mode : PagingMode) (addr : ℕ) : Bool :=
  let shift := 64 - mode.virtualAddressBits
  ((BitVec.ofNat 64 addr <<< shift).sshiftRight shift).toNat = addr

/-- The translation the processor may cache for a page under the active root. -/
def cachedTranslation (m : Machine) (address : ℕ) : Option TlbEntry :=
  if !m.paging.mode.isCanonical address then none
  else do
    let entry ← walkLeaf m.paging m.mem address m.paging.mode.intermediateLevels m.cr3
    let frame ← PageTableEntry.leafFrame entry m.paging
    pure ⟨alignDownToFrame address, frame, PageTableEntry.isGlobal entry⟩

/-- A moment in which the processor fills its translation cache. -/
def tick : MM Unit := Prog.modify fun m =>
  { m with
    tlb := (m.fills m.moment).filterMap (cachedTranslation m) ++ m.tlb
    moment := m.moment + 1 }

/-- Write one entry of a table. -/
def storeEntry (location : EntryLocation) (entry : Word) : MM Unit := do
  modifyMem fun mem => mem.setWord location.table location.index entry
  tick

def translateHugePage (entry : Word) (virtualAddr pageSize : ℕ) (config : PagingConfig) :
    Option ℕ :=
  let physicalBase := PageTableEntry.physicalAddress entry config
  checkedAdd (physicalBase - physicalBase % pageSize) (virtualAddr % pageSize)

/-- `permissions.x &= entry_permissions.x` for the three permissions. -/
def PagePermissions.meet (p q : PagePermissions) : PagePermissions :=
  ⟨p.writable && q.writable, p.executable && q.executable, p.userAccessible && q.userAccessible⟩

namespace PageTable

/-- `table`: the entries of a table, when its frame is inside the direct map. -/
def table (pt : PageTable) (mem : PhysMem) (frame : ℕ) : Option (ℕ → Word) :=
  (pt.directMap.translate (startAddress frame)).map fun _ => mem.word frame

/-- `table_mut(..).expect(..)[index] = entry`. -/
def writeEntry (pt : PageTable) (panic : Panic) (location : EntryLocation) (entry : Word) :
    MM Unit := do
  let _ ← Prog.expect panic (pt.directMap.translate (startAddress location.table))
  storeEntry location entry

def new (directMap : DirectMap) (config : PagingConfig) :
    MM (Except PageTableCreateError PageTable) := do
  match ← FrameAllocator.alloc with
  | none => pure (.error .outOfFrames)
  | some frame =>
    if startAddress frame ≥ config.physicalAddressLimit then do
      FrameAllocator.dealloc frame
      pure (.error .physicalAddressTooLarge)
    else pure (.ok ⟨directMap, config, frame⟩)

def isActive (pt : PageTable) (m : Machine) : Bool := m.cr3 = pt.frame

def isCanonical (pt : PageTable) (addr : ℕ) : Bool := pt.config.mode.isCanonical addr

def toPhysicalFrom (pt : PageTable) (mem : PhysMem) (address : ℕ) :
    List PageTableLevel → ℕ → Option ℕ
  | [], tableFrame => do
    let pageTable ← pt.table mem tableFrame
    let frame ← PageTableEntry.leafFrame (pageTable (p1Index address)) pt.config
    checkedAdd (startAddress frame) (pageOffset address)
  | level :: levels, tableFrame => do
    let entries ← pt.table mem tableFrame
    let entry := entries (level.index address)
    if !PageTableEntry.isPresent entry then none
    else if PageTableEntry.isHuge entry then do
      let pageSize ← level.largePageSize
      translateHugePage entry address pageSize pt.config
    else do
      let next ← PageTableEntry.tableFrame entry pt.config
      toPhysicalFrom pt mem address levels next

def toPhysical (pt : PageTable) (mem : PhysMem) (address : ℕ) : Option ℕ :=
  if !pt.isCanonical address then none
  else pt.toPhysicalFrom mem address pt.config.mode.intermediateLevels pt.frame

def mappingFrom (pt : PageTable) (mem : PhysMem) (address : ℕ) :
    List PageTableLevel → ℕ → PagePermissions → Option PagePermissions
  | [], tableFrame, permissions => do
    let pageTable ← pt.table mem tableFrame
    let entry := pageTable (p1Index address)
    if !PageTableEntry.isPresent entry then none
    else some (permissions.meet (PageTableEntry.permissions entry))
  | level :: levels, tableFrame, permissions => do
    let entries ← pt.table mem tableFrame
    let entry := entries (level.index address)
    if !PageTableEntry.isPresent entry then none
    else
      let permissions := permissions.meet (PageTableEntry.permissions entry)
      if PageTableEntry.isHuge entry then level.largePageSize.map fun _ => permissions
      else do
        let next ← PageTableEntry.tableFrame entry pt.config
        mappingFrom pt mem address levels next permissions

/-- `mapping`: the effective permissions of an address. -/
def mapping (pt : PageTable) (mem : PhysMem) (address : ℕ) : Option PagePermissions :=
  if !pt.isCanonical address then none
  else pt.mappingFrom mem address pt.config.mode.intermediateLevels pt.frame ⟨true, true, true⟩

def flushTlbIfActive (pt : PageTable) (page : ℕ) : MM Unit := do
  let m ← Prog.get
  if pt.isActive m then do
    Prog.modify fun m => { m with tlb := m.tlb.filter fun e => e.page ≠ page }
    tick
  else pure ()

/-- `activate`: load CR3, which drops every translation that is not global. -/
def activate (pt : PageTable) : MM Unit := do
  Prog.modify fun m => { m with cr3 := pt.frame, tlb := m.tlb.filter TlbEntry.isGlobal }
  tick

def applyUserUpgrades (pt : PageTable) : List EntryLocation → MM Unit
  | [] => pure ()
  | location :: upgrades => do
    let m ← Prog.get
    pt.writeEntry .tableLeftDirectMap location
      (m.mem.word location.table location.index ||| PageTableEntry.USER_ACCESSIBLE)
    pt.applyUserUpgrades upgrades

/-- Where the first loop of `map` ends: at the page table of the address, or at
the entry where the first missing table has to be published. -/
inductive MapWalk where
  | complete (pageTable : ℕ) (upgrades : List EntryLocation)
  | missing (location : EntryLocation) (below : List PageTableLevel)
      (upgrades : List EntryLocation)

def mapWalk (pt : PageTable) (mem : PhysMem) (address : ℕ) (userAccessible : Bool) :
    List PageTableLevel → ℕ → List EntryLocation → Except PageTableMapError MapWalk
  | [], tableFrame, upgrades => .ok (.complete tableFrame upgrades)
  | level :: levels, tableFrame, upgrades =>
    match pt.table mem tableFrame with
    | none => .error .pageTableOutsideDirectMap
    | some entries =>
      let location : EntryLocation := ⟨tableFrame, level.index address⟩
      let entry := entries (level.index address)
      if !PageTableEntry.isPresent entry then .ok (.missing location levels upgrades)
      else if PageTableEntry.isHuge entry then
        if level.largePageSize.isSome then .error .hugePageConflict
        else .error .invalidPageTableEntry
      else
        let upgrades := if userAccessible && !PageTableEntry.isUserAccessible entry
          then upgrades ++ [location] else upgrades
        match PageTableEntry.tableFrame entry pt.config with
        | none => .error .invalidPageTableEntry
        | some next => pt.mapWalk mem address userAccessible levels next upgrades

/-- The allocation loop of `map`: `count` private tables. The tables allocated
so far are returned also on an error, for the cleanup. -/
def allocPrivateTables (pt : PageTable) (userAccessible : Bool) :
    ℕ → MM (List ℕ × Except PageTableMapError Unit)
  | 0 => pure ([], .ok ())
  | count + 1 => do
    match ← FrameAllocator.alloc with
    | none => pure ([], .error .outOfFrames)
    | some frame =>
      match PageTableEntry.newTable frame userAccessible pt.config with
      | .error _ => pure ([frame], .error .physicalAddressTooLarge)
      | .ok _ => do
        let (tables, result) ← pt.allocPrivateTables userAccessible count
        pure (frame :: tables, result)

/-- The linking loop of `map`: each private table points to the next one, and the
last one holds the leaf. `below` are the levels of the tables after the first. -/
def linkPrivateTables (pt : PageTable) (address : ℕ) (userAccessible : Bool) (leafEntry : Word) :
    List ℕ → List PageTableLevel → MM (Except PageTableMapError Unit)
  | [], _ => pure (.ok ())
  | [table], _ =>
    match pt.directMap.translate (startAddress table) with
    | none => pure (.error .pageTableOutsideDirectMap)
    | some _ => do
      storeEntry ⟨table, p1Index address⟩ leafEntry
      pure (.ok ())
  | table :: child :: tables, level :: below =>
    match PageTableEntry.newTable child userAccessible pt.config with
    | .error _ => pure (.error .physicalAddressTooLarge)
    | .ok childEntry =>
      match pt.directMap.translate (startAddress table) with
      | none => pure (.error .pageTableOutsideDirectMap)
      | some _ => do
        storeEntry ⟨table, level.index address⟩ childEntry
        pt.linkPrivateTables address userAccessible leafEntry (child :: tables) below
  | _ :: _ :: _, [] => pure (.error .invalidPageTableEntry)

/-- The tail of `map` where tables are missing: allocate and link them privately,
then publish the first one with a single write. -/
def mapMissing (pt : PageTable) (address : ℕ) (userAccessible : Bool) (leafEntry : Word)
    (location : EntryLocation) (below : List PageTableLevel) (upgrades : List EntryLocation) :
    MM (Except PageTableMapError Unit) := do
  let (tables, allocated) ← pt.allocPrivateTables userAccessible (below.length + 1)
  let prepared : Except PageTableMapError Unit ← match allocated with
    | .error e => pure (.error e)
    | .ok () => pt.linkPrivateTables address userAccessible leafEntry tables below
  let publication : Except PageTableMapError Word := match prepared with
    | .error e => .error e
    | .ok () => match PageTableEntry.newTable (tables.headD 0) userAccessible pt.config with
      | .error _ => .error .physicalAddressTooLarge
      | .ok entry => .ok entry
  match publication with
  | .error e => do
    FrameAllocator.deallocAll tables.reverse
    pure (.error e)
  | .ok publicationEntry => do
    pt.applyUserUpgrades upgrades
    pt.writeEntry .tableLeftDirectMap location publicationEntry
    pt.flushTlbIfActive address
    pure (.ok ())

def map (pt : PageTable) (mappedAddr frame : ℕ) (permissions : PagePermissions)
    (cachePolicy : CachePolicy) (isGlobal : Bool) : MM (Except PageTableMapError Unit) :=
  if !pt.isCanonical mappedAddr then pure (.error .invalidVirtualAddress)
  else if mappedAddr % PAGE_SIZE ≠ 0 then pure (.error .virtualAddressUnaligned)
  else match PageTableEntry.new (startAddress frame) permissions cachePolicy pt.config isGlobal with
  | .error .physicalAddressTooLarge => pure (.error .physicalAddressTooLarge)
  | .error .noExecuteUnsupported => pure (.error .noExecuteUnsupported)
  | .ok leafEntry => do
    let m ← Prog.get
    match pt.mapWalk m.mem mappedAddr permissions.userAccessible
        pt.config.mode.intermediateLevels pt.frame [] with
    | .error e => pure (.error e)
    | .ok (.complete pageTable upgrades) =>
      match pt.table m.mem pageTable with
      | none => pure (.error .pageTableOutsideDirectMap)
      | some entries =>
        if PageTableEntry.isPresent (entries (p1Index mappedAddr)) then
          pure (.error .pageAlreadyMapped)
        else do
          pt.applyUserUpgrades upgrades
          pt.writeEntry .tableLeftDirectMap ⟨pageTable, p1Index mappedAddr⟩ leafEntry
          pt.flushTlbIfActive mappedAddr
          pure (.ok ())
    | .ok (.missing location below upgrades) =>
      pt.mapMissing mappedAddr permissions.userAccessible leafEntry location below upgrades

def getNextLevel (pt : PageTable) (mem : PhysMem) (parent index : ℕ) (level : PageTableLevel) :
    Except PageTableUnmapError ℕ :=
  match pt.table mem parent with
  | none => .error .pageTableOutsideDirectMap
  | some entries =>
    let entry := entries index
    if PageTableEntry.isHuge entry then
      if level.largePageSize.isSome then .error .hugePageConflict
      else .error .invalidPageTableEntry
    else match PageTableEntry.tableFrame entry pt.config with
      | none => .error .pageNotMapped
      | some frame => .ok frame

/-- The descent of `unmap`: the page table of the address, and the entries on the
way to it, deepest first. -/
def unmapWalk (pt : PageTable) (mem : PhysMem) (address : ℕ) :
    List PageTableLevel → ℕ → List EntryLocation →
      Except PageTableUnmapError (ℕ × List EntryLocation)
  | [], tableFrame, parents => .ok (tableFrame, parents)
  | level :: levels, tableFrame, parents =>
    match pt.getNextLevel mem tableFrame (level.index address) level with
    | .error e => .error e
    | .ok next =>
      pt.unmapWalk mem address levels next (⟨tableFrame, level.index address⟩ :: parents)

/-- `table.iter().all(|entry| !entry.is_present())`. -/
def isEmptyTable (mem : PhysMem) (frame : ℕ) : Bool :=
  (List.range PAGE_TABLE_ENTRIES).all fun i => !PageTableEntry.isPresent (mem.word frame i)

/-- The pruning loop of `unmap`: while the child table is empty, clear its entry in
the parent. Returns the tables to deallocate, deepest first. -/
def pruneTables (pt : PageTable) : List EntryLocation → ℕ → Bool → MM (List ℕ)
  | [], _, _ => pure []
  | parent :: parents, child, childIsEmpty =>
    if !childIsEmpty then pure []
    else do
      pt.writeEntry .tableLeftDirectMap parent PageTableEntry.null
      let m ← Prog.get
      let frames ← pt.pruneTables parents parent.table (isEmptyTable m.mem parent.table)
      pure (child :: frames)

def unmap (pt : PageTable) (mappedAddr : ℕ) : MM (Except PageTableUnmapError ℕ) :=
  if !pt.isCanonical mappedAddr then pure (.error .invalidVirtualAddress)
  else if mappedAddr % PAGE_SIZE ≠ 0 then pure (.error .virtualAddressUnaligned)
  else do
    let m ← Prog.get
    match pt.unmapWalk m.mem mappedAddr pt.config.mode.intermediateLevels pt.frame [] with
    | .error e => pure (.error e)
    | .ok (pageTable, parents) =>
      match pt.table m.mem pageTable with
      | none => pure (.error .pageTableOutsideDirectMap)
      | some entries =>
        match PageTableEntry.leafFrame (entries (p1Index mappedAddr)) pt.config with
        | none => pure (.error .pageNotMapped)
        | some frame => do
          storeEntry ⟨pageTable, p1Index mappedAddr⟩ PageTableEntry.null
          let m ← Prog.get
          let frames ← pt.pruneTables parents pageTable (isEmptyTable m.mem pageTable)
          pt.flushTlbIfActive mappedAddr
          FrameAllocator.deallocAll frames
          pure (.ok frame)

/-- `dest[256..512].copy_from_slice(&src[256..512])`. -/
def copyKernelMappingsTo (pt destination : PageTable) : MM Unit := do
  let _ ← Prog.expect .tableOutsideDirectMap (pt.directMap.translate (startAddress pt.frame))
  let _ ← Prog.expect .tableOutsideDirectMap
    (destination.directMap.translate (startAddress destination.frame))
  modifyMem fun mem =>
    let src := mem.word pt.frame
    let dest := mem.word destination.frame
    mem.setFrame destination.frame fun i => if 256 ≤ i ∧ i < 512 then src i else dest i
  tick

/-- The entry loop of the destructors over `count` entries from `idx`;
`destroyChild` takes down the subtree below an entry. -/
def destroyEntries (pt : PageTable) (destroyChild : ℕ → MM Unit) (table idx : ℕ) : ℕ → MM Unit
  | 0 => pure ()
  | count + 1 => do
    let _ ← Prog.expect .tableOutsideDirectMap (pt.directMap.translate (startAddress table))
    let m ← Prog.get
    let entry := m.mem.word table idx
    if !PageTableEntry.isPresent entry || PageTableEntry.isHuge entry then
      destroyEntries pt destroyChild table (idx + 1) count
    else do
      let child ← Prog.expect .invalidPageTableEntry (PageTableEntry.tableFrame entry pt.config)
      destroyChild child
      pt.writeEntry .tableOutsideDirectMap ⟨table, idx⟩ PageTableEntry.null
      FrameAllocator.dealloc child
      destroyEntries pt destroyChild table (idx + 1) count

/-- `destroy_children` of a table with `height` table levels below it. -/
def destroyChildren (pt : PageTable) : ℕ → ℕ → MM Unit
  | 0, _ => pure ()
  | height + 1, table =>
    pt.destroyEntries (pt.destroyChildren height) table 0 PAGE_TABLE_ENTRIES

def destroy (pt : PageTable) : MM Unit := do
  let m ← Prog.get
  Prog.assert .destroyActiveTable (!pt.isActive m)
  pt.destroyChildren pt.config.mode.intermediateLevels.length pt.frame
  FrameAllocator.dealloc pt.frame

def destroyUser (pt : PageTable) : MM Unit := do
  let m ← Prog.get
  Prog.assert .destroyActiveTable (!pt.isActive m)
  pt.destroyEntries (pt.destroyChildren (pt.config.mode.intermediateLevels.length - 1)) pt.frame 0 256
  FrameAllocator.dealloc pt.frame

end PageTable

end Dusk
