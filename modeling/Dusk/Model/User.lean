import Dusk.Model.Scheduler

/-! `memory/user.rs`: the checks on user ranges and the copies between kernel and
user memory. A copy goes through the active page table, one byte at a time, and is
recorded with the state it happens in. -/

namespace Dusk

open Lib

/-- The page table the processor translates with. -/
def Machine.activeTable (m : Machine) : PageTable := ⟨m.allocator.directMap, m.paging, m.cr3⟩

/-- A load from a virtual address; nothing where the page is not mapped. -/
def Machine.loadByte (m : Machine) (address : ℕ) : Option Byte :=
  (m.activeTable.toPhysical m.mem address).map m.mem.byte

def Machine.loadBytes (m : Machine) (address : ℕ) : ℕ → Option (List Byte)
  | 0 => some []
  | n + 1 => do
    let b ← m.loadByte address
    let bs ← m.loadBytes (address + 1) n
    pure (b :: bs)

/-- The physical address a kernel store to a virtual address goes to. -/
def Machine.storeTarget (m : Machine) (address : ℕ) : Option ℕ :=
  if (m.activeTable.mapping m.mem address).any PagePermissions.writable then
    m.activeTable.toPhysical m.mem address
  else none

/-- Store bytes at consecutive virtual addresses. -/
def storeBytes (address : ℕ) : List Byte → MM Unit
  | [] => pure ()
  | b :: bs => do
    let m ← Prog.get
    let target ← Prog.expect .kernelPageFault (m.storeTarget address)
    modifyMem fun mem => mem.setByte target b
    storeBytes (address + 1) bs

/-- The bytes of a `usize`, little-endian. -/
def usizeBytes (v : ℕ) : List Byte := (List.range 8).map fun i => BitVec.ofNat 8 (v >>> (8 * i))

/-- The loop of `validate_user_range` over `count` pages from `page`. -/
def validatePages (asId : ℕ) (writable : Bool) (page : ℕ) : ℕ → KM Unit
  | 0 => pure ()
  | count + 1 => do
    let k ← Prog.get
    match k.spaces.get asId with
    | none => fail .badAddress
    | some space =>
      if (space.mapping k.machine.mem page).any fun permissions =>
          permissions.userAccessible && (!writable || permissions.writable) then
        validatePages asId writable (page + FRAME_SIZE) count
      else fail .badAddress

def validateUserRange (asId start len : ℕ) (writable : Bool) : KM Unit :=
  match checkedAdd start len with
  | none => fail .badAddress
  | some stop =>
    if start ≥ USER_SPACE_END ∨ stop > USER_SPACE_END then fail .badAddress
    else if len = 0 then pure ()
    else
      let pageStart := alignDownToFrame start
      validatePages asId writable pageStart ((stop - pageStart + (FRAME_SIZE - 1)) / FRAME_SIZE)

/-- The address space of the current task. -/
def Kernel.currentSpace (k : Kernel) : Option AddressSpace := do
  let id ← k.sched.current
  let task ← k.sched.tasks.get id
  k.spaces.get task.asId

/-- Record an access to user memory. -/
def recordAccess (write : Bool) (address length : ℕ) : KM Unit := Prog.modify fun k =>
  { k with accesses := k.accesses ++ [⟨write, address, length, k.machine, k.currentSpace⟩] }

/-- `end = start.checked_add(len)` and its bound, common to the copies. -/
def checkUserEnd (start len : ℕ) : KM Unit :=
  match checkedAdd start len with
  | none => fail .badAddress
  | some stop => if stop > USER_SPACE_END then fail .badAddress else pure ()

/-- `copy_nonoverlapping(ptr, .., len)`: in a debug build `core` rejects a null
pointer unless nothing is copied. -/
def checkPointer (ptr len : ℕ) : KM Unit := do
  let k ← Prog.get
  Prog.assert (.panicked .nullPointer) (!(k.debugAssertions && decide (ptr = 0 ∧ len ≠ 0)))

def copyFromUser (src len : ℕ) : KM (List Byte) := do
  checkUserEnd src len
  checkPointer src len
  recordAccess false src len
  let k ← Prog.get
  Prog.expect (.panicked (.memory .kernelPageFault)) (k.machine.loadBytes src len)

def copyToUser (dst : ℕ) (src : List Byte) : KM Unit := do
  checkUserEnd dst src.length
  checkPointer dst src.length
  recordAccess true dst src.length
  onMachine (storeBytes dst src)

/-- `copy_val_to_user` at `usize`, the only type it is used at. -/
def copyValToUser (dst val : ℕ) : KM Unit :=
  if dst % 8 ≠ 0 then fail .invalidArgument
  else do
    checkUserEnd dst 8
    checkPointer dst 8
    recordAccess true dst 8
    onMachine (storeBytes dst (usizeBytes val))

end Dusk
