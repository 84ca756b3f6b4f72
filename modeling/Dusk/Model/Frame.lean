import Dusk.Model.Machine

/-! `memory/frame.rs`: the bitmap frame allocator. The bitmap is the bytes of
physical memory it occupies, read and written through the direct map. -/

namespace Dusk

open Lib

inductive FrameState where
  | reserved | free | allocated
  deriving DecidableEq, Repr

namespace FrameState

/-- `state as u8`. -/
def toBits : FrameState → Byte
  | reserved => 0b00
  | free => 0b01
  | allocated => 0b10

def ofBits (b : Byte) : Option FrameState :=
  if b = 0b00 then some reserved
  else if b = 0b01 then some free
  else if b = 0b10 then some allocated
  else none

end FrameState

namespace Bitmap

/-- The physical address of the byte that holds the state of frame `frameIdx`. -/
def byteAddress (b : Bitmap) (dm : DirectMap) (frameIdx : ℕ) : ℕ :=
  dm.physical (b.start + frameIdx / 4)

/-- The two bits stored for frame `frameIdx`. -/
def bitsOf (b : Bitmap) (dm : DirectMap) (mem : PhysMem) (frameIdx : ℕ) : Byte :=
  pair (mem.byte (b.byteAddress dm frameIdx)) (frameIdx % 4)

def state (b : Bitmap) (dm : DirectMap) (frameIdx : ℕ) : MM FrameState := do
  Prog.assert .frameIndexOutOfBounds (decide (frameIdx < b.frameCount))
  let m ← Prog.get
  Prog.expect .invalidFrameState (FrameState.ofBits (b.bitsOf dm m.mem frameIdx))

def setState (b : Bitmap) (dm : DirectMap) (frameIdx : ℕ) (state : FrameState) : MM Unit := do
  Prog.assert .frameIndexOutOfBounds (decide (frameIdx < b.frameCount))
  let address := b.byteAddress dm frameIdx
  modifyMem fun mem =>
    mem.setByte address (withPair (mem.byte address) (frameIdx % 4) state.toBits)

end Bitmap

inductive FrameAllocatorInitError where
  | addressOverflow | noUsableFrames | noBitmapStorage | bitmapOutsideDirectMap
  deriving DecidableEq, Repr

namespace FrameAllocator

def shouldTrack : MemoryRegionKind → Bool
  | .usable | .bootloaderReclaimable | .acpiReclaimable => true
  | _ => false

def canStoreBitmap (kind : MemoryRegionKind) : Bool := kind = .usable

def isInitiallyFree (kind : MemoryRegionKind) : Bool := kind = .usable

/-- The whole frames inside a region, as a half-open index range. -/
def usableFrameRange (region : MemoryRegion) : Except FrameAllocatorInitError (ℕ × ℕ) :=
  match checkedAdd region.start region.length with
  | none => .error .addressOverflow
  | some regionEnd =>
    match alignUpToFrame region.start with
    | none => .error .addressOverflow
    | some start => .ok (start / FRAME_SIZE, alignDownToFrame regionEnd / FRAME_SIZE)

/-- The first pass of `new`: one past the highest frame of a tracked region. -/
def highestFrame : List MemoryRegion → Option ℕ → Except FrameAllocatorInitError (Option ℕ)
  | [], highest => .ok highest
  | region :: regions, highest =>
    if !shouldTrack region.kind then highestFrame regions highest
    else match usableFrameRange region with
      | .error e => .error e
      | .ok (start, stop) =>
        if stop ≤ start then highestFrame regions highest
        else highestFrame regions (some (highest.elim stop fun current => max current stop))

/-- The second pass: the first usable region with room for the bitmap. -/
def bitmapStartFrame (bitmapFrameCount : ℕ) :
    List MemoryRegion → Except FrameAllocatorInitError (Option ℕ)
  | [] => .ok none
  | region :: regions =>
    if !canStoreBitmap region.kind then bitmapStartFrame bitmapFrameCount regions
    else match usableFrameRange region with
      | .error e => .error e
      | .ok (start, stop) =>
        if stop ≤ start then bitmapStartFrame bitmapFrameCount regions
        else if stop - start < bitmapFrameCount then bitmapStartFrame bitmapFrameCount regions
        else .ok (some start)

/-- The inner loop of the third pass over `count` frames from `frameIdx`: every
frame outside the bitmap's own storage becomes free. -/
def freeFrom (bitmap : Bitmap) (dm : DirectMap) (storageStart storageEnd : ℕ) (frameIdx : ℕ) :
    ℕ → ℕ → MM ℕ
  | 0, freed => pure freed
  | count + 1, freed =>
    if storageStart ≤ frameIdx ∧ frameIdx < storageEnd then
      freeFrom bitmap dm storageStart storageEnd (frameIdx + 1) count freed
    else do
      bitmap.setState dm frameIdx .free
      let freed ← addUsize freed 1
      freeFrom bitmap dm storageStart storageEnd (frameIdx + 1) count freed

def freeRegions (bitmap : Bitmap) (dm : DirectMap) (storageStart storageEnd : ℕ) :
    List MemoryRegion → ℕ → MM (Except FrameAllocatorInitError ℕ)
  | [], freed => pure (.ok freed)
  | region :: regions, freed =>
    if !isInitiallyFree region.kind then
      freeRegions bitmap dm storageStart storageEnd regions freed
    else match usableFrameRange region with
      | .error e => pure (.error e)
      | .ok (start, stop) => do
        let freed ← freeFrom bitmap dm storageStart storageEnd start (stop - start) freed
        freeRegions bitmap dm storageStart storageEnd regions freed

/-- `FrameAllocator::new`. -/
def new (regions : List MemoryRegion) (dm : DirectMap) :
    MM (Except FrameAllocatorInitError FrameAllocator) :=
  match highestFrame regions none with
  | .error e => pure (.error e)
  | .ok none => pure (.error .noUsableFrames)
  | .ok (some highest) =>
    let bitmapBytes := (highest + 3) / 4
    let bitmapFrameCount := (bitmapBytes + (FRAME_SIZE - 1)) / FRAME_SIZE
    if ¬ bitmapFrameCount * FRAME_SIZE < USIZE_END then pure (.error .addressOverflow)
    else match bitmapStartFrame bitmapFrameCount regions with
    | .error e => pure (.error e)
    | .ok none => pure (.error .noBitmapStorage)
    | .ok (some startFrame) =>
      match dm.translate (startAddress startFrame) with
      | none => pure (.error .bitmapOutsideDirectMap)
      | some bitmapVirtual => do
        modifyMem fun mem => mem.zeroFrames startFrame bitmapFrameCount
        let bitmap : Bitmap := ⟨bitmapVirtual, highest⟩
        match checkedAdd startFrame bitmapFrameCount with
        | none => pure (.error .addressOverflow)
        | some endFrame => do
          match ← freeRegions bitmap dm startFrame endFrame regions 0 with
          | .error e => pure (.error e)
          | .ok freed => pure (.ok ⟨bitmap, startFrame + bitmapFrameCount, freed, freed, dm⟩)

/-- `(start..start + count).find(|i| state(i) == Free)`. -/
def findFreeIn (bitmap : Bitmap) (dm : DirectMap) (start : ℕ) : ℕ → MM (Option ℕ)
  | 0 => pure none
  | count + 1 => do
    let state ← bitmap.state dm start
    if state = .free then pure (some start) else findFreeIn bitmap dm (start + 1) count

def findFreeFrame (a : FrameAllocator) : MM (Option ℕ) := do
  match ← findFreeIn a.bitmap a.directMap a.nextSearch (a.bitmap.frameCount - a.nextSearch) with
  | some index => pure (some index)
  | none => findFreeIn a.bitmap a.directMap 0 a.nextSearch

def allocNozero : MM (Option ℕ) := do
  let a ← Prog.gets Machine.allocator
  if a.freeFrames = 0 then pure none
  else match ← findFreeFrame a with
    | none => pure none
    | some frameIdx => do
      a.bitmap.setState a.directMap frameIdx .allocated
      let freeFrames ← subUsize a.freeFrames 1
      modifyAllocator fun a =>
        { a with freeFrames, nextSearch := min (frameIdx + 1) (USIZE_END - 1) }
      pure (some frameIdx)

def alloc : MM (Option ℕ) := do
  match ← allocNozero with
  | none => pure none
  | some frame => do
    let a ← Prog.gets Machine.allocator
    let _ ← Prog.expect .frameOutsideDirectMap (a.directMap.translate (startAddress frame))
    modifyMem fun mem => mem.zeroFrame frame
    pure (some frame)

def dealloc (frameIdx : ℕ) : MM Unit := do
  let a ← Prog.gets Machine.allocator
  match ← a.bitmap.state a.directMap frameIdx with
  | .allocated => do
    a.bitmap.setState a.directMap frameIdx .free
    let freeFrames ← addUsize a.freeFrames 1
    modifyAllocator fun a => { a with freeFrames, nextSearch := min a.nextSearch frameIdx }
  | .free => Prog.stop .freeFreeFrame
  | .reserved => Prog.stop .freeReservedFrame

/-- `dealloc` of several frames in turn. -/
def deallocAll : List ℕ → MM Unit
  | [] => pure ()
  | frame :: frames => do
    dealloc frame
    deallocAll frames

/-- The inner loop of `reclaim_regions`. -/
def reclaimFrom (frameIdx : ℕ) : ℕ → MM Unit
  | 0 => pure ()
  | count + 1 => do
    let a ← Prog.gets Machine.allocator
    let state ← a.bitmap.state a.directMap frameIdx
    if state ≠ .reserved then reclaimFrom (frameIdx + 1) count
    else do
      a.bitmap.setState a.directMap frameIdx .free
      let allocatableFrames ← addUsize a.allocatableFrames 1
      let freeFrames ← addUsize a.freeFrames 1
      modifyAllocator fun a =>
        { a with allocatableFrames, freeFrames, nextSearch := min a.nextSearch frameIdx }
      reclaimFrom (frameIdx + 1) count

def reclaimAll (regionKind : MemoryRegionKind) : List MemoryRegion → MM Unit
  | [] => pure ()
  | region :: regions =>
    if region.kind = regionKind then
      match usableFrameRange region with
      | .error _ => Prog.stop .invalidMemoryRegion
      | .ok (start, stop) => do
        reclaimFrom start (stop - start)
        reclaimAll regionKind regions
    else reclaimAll regionKind regions

def reclaimRegions (memoryMap : List MemoryRegion) (regionKind : MemoryRegionKind) : MM Unit :=
  match regionKind with
  | .bootloaderReclaimable | .acpiReclaimable => reclaimAll regionKind memoryMap
  | _ => pure ()

end FrameAllocator

end Dusk
