import Dusk.Model.AddressSpace

/-! Runs of the frame allocator after `FrameAllocator::new`, runs of one page table
that takes its frames from it while others do the same, runs of the user address spaces of
one kernel address space, and runs of the pool of kernel stacks. -/

namespace Dusk

open Lib

/-- What is done with the frame allocator. -/
inductive FrameOp where
  | alloc
  | allocNozero
  | dealloc (frame : ℕ)
  | reclaimRegions (kind : MemoryRegionKind)
  /-- The owner of a frame writes one of its words. -/
  | use (frame index : ℕ) (value : Word)
  deriving DecidableEq

/-- The machine, the frames that have been handed out and not given back, and the kinds
of regions for which `reclaim_regions` has been called. -/
structure Session where
  machine : Machine
  outstanding : Finset ℕ
  reclaimed : List MemoryRegionKind

namespace FrameOp

/-- Only frames that have been handed out are given back or written. -/
def Enabled (outstanding : Finset ℕ) : FrameOp → Prop
  | dealloc frame | use frame _ _ => frame ∈ outstanding
  | alloc | allocNozero | reclaimRegions _ => True

instance (outstanding : Finset ℕ) (op : FrameOp) : Decidable (op.Enabled outstanding) :=
  match op with
  | dealloc _ | use _ _ _ => inferInstanceAs (Decidable (_ ∈ outstanding))
  | alloc | allocNozero | reclaimRegions _ => inferInstanceAs (Decidable True)

def prog (memoryMap : List MemoryRegion) : FrameOp → MM (Option ℕ)
  | alloc => FrameAllocator.alloc
  | allocNozero => FrameAllocator.allocNozero
  | dealloc frame => do
    FrameAllocator.dealloc frame
    pure none
  | reclaimRegions kind => do
    FrameAllocator.reclaimRegions memoryMap kind
    pure none
  | use frame index value => do
    modifyMem fun mem => mem.setWord frame index value
    pure none

end FrameOp

namespace Session

/-- The session after an operation with its result. -/
def after (s : Session) : FrameOp → Option ℕ → Machine → Session
  | .alloc, result, machine | .allocNozero, result, machine =>
    { s with machine, outstanding := result.elim s.outstanding fun f => insert f s.outstanding }
  | .dealloc frame, _, machine => { s with machine, outstanding := s.outstanding.erase frame }
  | .reclaimRegions kind, _, machine => { s with machine, reclaimed := kind :: s.reclaimed }
  | .use _ _ _, _, machine => { s with machine }

/-- A successful `FrameAllocator::new`. -/
def start (memoryMap : List MemoryRegion) (dm : DirectMap) (m₀ : Machine) : Option Session :=
  match FrameAllocator.new memoryMap dm m₀ with
  | .ok (.ok allocator) m => some ⟨{ m with allocator }, ∅, []⟩
  | .ok (.error _) _ | .stop _ _ => none

/-- One operation; a panic has no next session. -/
def step (memoryMap : List MemoryRegion) (op : FrameOp) (s : Session) : Option Session :=
  if op.Enabled s.outstanding then
    match op.prog memoryMap s.machine with
    | .ok result machine => some (s.after op result machine)
    | .stop _ _ => none
  else none

def run (memoryMap : List MemoryRegion) : List FrameOp → Session → Option Session
  | [], s => some s
  | op :: ops, s => (s.step memoryMap op).bind (run memoryMap ops)

/-- The sessions that follow a successful `FrameAllocator::new` on the machine `m₀`. -/
def Reached (memoryMap : List MemoryRegion) (dm : DirectMap) (m₀ : Machine) (s : Session) : Prop :=
  ∃ s₀ ops, start memoryMap dm m₀ = some s₀ ∧ s₀.run memoryMap ops = some s

end Session

/-- What is done with one page table, and by others with the allocator. -/
inductive TableOp where
  | new
  | map (mappedAddr frame : ℕ) (permissions : PagePermissions) (cachePolicy : CachePolicy)
      (isGlobal : Bool)
  | unmap (mappedAddr : ℕ)
  | frames (op : FrameOp)
  deriving DecidableEq

/-- The session of the others, and the page table once it has been made. -/
structure TableSession where
  pool : Session
  table : Option PageTable

namespace TableSession

def withMachine (t : TableSession) (machine : Machine) : TableSession :=
  { t with pool := { t.pool with machine } }

/-- There is one page table, made before it is used. -/
def Enabled (t : TableSession) : TableOp → Prop
  | .new => t.table = none
  | .map _ _ _ _ _ | .unmap _ => t.table ≠ none
  | .frames op => op.Enabled t.pool.outstanding

/-- One operation; a panic has no next session. -/
def step (memoryMap : List MemoryRegion) (op : TableOp) (t : TableSession) : Option TableSession :=
  let m := t.pool.machine
  match op, t.table with
  | .new, none =>
    match PageTable.new m.allocator.directMap m.paging m with
    | .ok (.ok pt) m => some { t.withMachine m with table := some pt }
    | .ok (.error _) m => some (t.withMachine m)
    | .stop _ _ => none
  | .map mappedAddr frame permissions cachePolicy isGlobal, some pt =>
    match pt.map mappedAddr frame permissions cachePolicy isGlobal m with
    | .ok _ m => some (t.withMachine m)
    | .stop _ _ => none
  | .unmap mappedAddr, some pt =>
    match pt.unmap mappedAddr m with
    | .ok _ m => some (t.withMachine m)
    | .stop _ _ => none
  | .frames op, _ => (t.pool.step memoryMap op).map fun pool => { t with pool }
  | .new, some _ | .map _ _ _ _ _, none | .unmap _, none => none

def run (memoryMap : List MemoryRegion) : List TableOp → TableSession → Option TableSession
  | [], t => some t
  | op :: ops, t => (t.step memoryMap op).bind (run memoryMap ops)

/-- The sessions that follow a successful `FrameAllocator::new` on the machine `m₀`. -/
def Reached (memoryMap : List MemoryRegion) (dm : DirectMap) (m₀ : Machine) (t : TableSession) :
    Prop :=
  ∃ s₀ ops, Session.start memoryMap dm m₀ = some s₀ ∧ run memoryMap ops ⟨s₀, none⟩ = some t

end TableSession

/-- What is done with user address spaces, and by the owners of frames. -/
inductive SpaceOp where
  | newUser
  | map (index physicalAddr virtualAddr : ℕ) (permissions : PagePermissions)
      (cachePolicy : CachePolicy)
  | unmap (index virtualAddr : ℕ)
  | frames (op : FrameOp)
  deriving DecidableEq

/-- The session of the owners of frames, and the user address spaces in the order in which
they have been made. -/
structure SpaceSession where
  pool : Session
  spaces : List AddressSpace

namespace SpaceSession

def withMachine (s : SpaceSession) (machine : Machine) : SpaceSession :=
  { s with pool := { s.pool with machine } }

/-- One operation; a panic has no next session, and no regions are reclaimed any more. -/
def step (kernel : AddressSpace) (op : SpaceOp) (s : SpaceSession) : Option SpaceSession :=
  let m := s.pool.machine
  match op with
  | .newUser =>
    match kernel.newUser m with
    | .ok (.ok space) m => some { s.withMachine m with spaces := s.spaces ++ [space] }
    | .ok (.error _) m => some (s.withMachine m)
    | .stop _ _ => none
  | .map index physicalAddr virtualAddr permissions cachePolicy =>
    s.spaces[index]?.bind fun space =>
      match space.map physicalAddr virtualAddr permissions cachePolicy m with
      | .ok _ m => some (s.withMachine m)
      | .stop _ _ => none
  | .unmap index virtualAddr =>
    s.spaces[index]?.bind fun space =>
      match space.unmap virtualAddr m with
      | .ok _ m => some (s.withMachine m)
      | .stop _ _ => none
  | .frames (.reclaimRegions _) => none
  | .frames op => (s.pool.step [] op).map fun pool => { s with pool }

def run (kernel : AddressSpace) : List SpaceOp → SpaceSession → Option SpaceSession
  | [], s => some s
  | op :: ops, s => (s.step kernel op).bind (run kernel ops)

/-- The sessions that start without user address spaces on the machine `m₀`. -/
def Reached (kernel : AddressSpace) (m₀ : Machine) (s : SpaceSession) : Prop :=
  ∃ ops, run kernel ops ⟨⟨m₀, ∅, []⟩, []⟩ = some s

end SpaceSession

/-- What is done with the pool of kernel stacks. -/
inductive StackOp where
  | allocate
  | free (stack : KernelStack)
  deriving DecidableEq

/-- The pool, and the stacks that have been allocated and not freed, each with the slot
that `allocate` has found for it. -/
structure StackSession where
  machine : Machine
  pool : KernelStackPool
  live : List (ℕ × KernelStack)

namespace StackSession

/-- One operation; a panic has no next session, and only live stacks are freed. -/
def step (space : AddressSpace) (op : StackOp) (s : StackSession) : Option StackSession :=
  match op with
  | .allocate =>
    match s.pool.allocate space s.machine with
    | .ok (pool, .ok stack) machine =>
      let slots := (s.pool.findSlot 0 MAX_KERNEL_STACKS).toList
      some ⟨machine, pool, slots.map (·, stack) ++ s.live⟩
    | .ok (pool, .error _) machine => some ⟨machine, pool, s.live⟩
    | .stop _ _ => none
  | .free stack =>
    if s.live.any (·.2 = stack) then
      match s.pool.free space stack s.machine with
      | .ok pool machine => some ⟨machine, pool, s.live.filter (·.2 ≠ stack)⟩
      | .stop _ _ => none
    else none

def run (space : AddressSpace) : List StackOp → StackSession → Option StackSession
  | [], s => some s
  | op :: ops, s => (s.step space op).bind (run space ops)

/-- The sessions that start with an empty pool on the machine `m₀`. -/
def Reached (space : AddressSpace) (m₀ : Machine) (s : StackSession) : Prop :=
  ∃ ops, run space ops ⟨m₀, .new, []⟩ = some s

end StackSession

end Dusk
