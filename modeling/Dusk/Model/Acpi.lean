import Dusk.Model.Format

/-! `platform/acpi.rs`: the search for a table under the root table and the entries
of the MADT. The kernel reads physical memory through the direct map; a program keeps
the ranges it has read. -/

namespace Dusk

open Lib

namespace Acpi

inductive AcpiError where
  | invalidInput | addressOverflow | invalidSdtLength | invalidRootTableLength
  | malformedAcpiTable | malformedMadt | missingIoApic | multipleIoApicsUnsupported
  deriving DecidableEq, Repr

/-- A range of physical memory, read as an entry of the root table or otherwise. -/
structure Access where
  isRootEntry : Bool
  range : Slice
  deriving DecidableEq, Repr

abbrev AM := Prog (List Access) AcpiError

/-- Physical memory and where it is mapped. -/
structure Memory where
  byte : ℕ → Byte
  directMap : DirectMap

/-- The bytes from an address on. -/
def Memory.bytes (m : Memory) (address n : ℕ) : List Byte :=
  (⟨address, n⟩ : Slice).bytes m.byte 0 n

structure Sdt where
  physicalAddr : ℕ
  length : ℕ
  signature : List Byte
  deriving DecidableEq, Repr

inductive RootTable where
  | rsdt (sdt : Sdt)
  | xsdt (sdt : Sdt)

structure AcpiTables where
  memory : Memory
  root : RootTable

/-- `size_of::<SDTHeader>()`. -/
def SDT_HEADER_SIZE : ℕ := 36

/-- The little-endian field of `n` bytes at an offset of a packed structure. -/
def field (bytes : List Byte) (offset n : ℕ) : ℕ := leValue ((bytes.drop offset).take n)

namespace RootTable

def table : RootTable → Sdt
  | .rsdt sdt => sdt
  | .xsdt sdt => sdt

def entryWidth : RootTable → ℕ
  | .rsdt _ => 4
  | .xsdt _ => 8

def entryCount (root : RootTable) : AM ℕ := do
  let payloadLength ← Prog.expect .invalidSdtLength (checkedSub root.table.length SDT_HEADER_SIZE)
  if payloadLength % root.entryWidth ≠ 0 then Prog.stop .invalidRootTableLength
  else pure (payloadLength / root.entryWidth)

end RootTable

/-- `a + b`, or the error of an overflow. -/
def addAddress (a b : ℕ) : AM ℕ := Prog.expect .addressOverflow (checkedAdd a b)

/-- `read` of a value of `n` bytes. -/
def read (m : Memory) (isRootEntry : Bool) (physicalAddr n : ℕ) : AM (List Byte) := do
  let _ ← Prog.expect .addressOverflow (m.directMap.translate physicalAddr)
  Prog.modify fun log => log ++ [⟨isRootEntry, ⟨physicalAddr, n⟩⟩]
  pure (m.bytes physicalAddr n)

/-- The loop of `checksum_valid` over `count` bytes from `i`. -/
def sumFrom (m : Memory) (physicalAddr virtualAddr i : ℕ) : ℕ → Byte → AM Byte
  | 0, sum => pure sum
  | count + 1, sum => do
    let _ ← addAddress virtualAddr i
    Prog.modify fun log => log ++ [⟨false, ⟨physicalAddr + i, 1⟩⟩]
    sumFrom m physicalAddr virtualAddr (i + 1) count (sum + m.byte (physicalAddr + i))

def checksumValid (m : Memory) (physicalAddr length : ℕ) : AM Bool := do
  let virtualAddr ← Prog.expect .addressOverflow (m.directMap.translate physicalAddr)
  let sum ← sumFrom m physicalAddr virtualAddr 0 length 0
  pure (decide (sum = 0))

namespace AcpiTables

/-- The loop of `find_table` over `count` entries from `i`. -/
def findFrom (acpi : AcpiTables) (signature : List Byte) (entriesStart i : ℕ) :
    ℕ → AM (Option Sdt)
  | 0 => pure none
  | count + 1 => do
    let offset ← Prog.expect .addressOverflow (checkedMul i acpi.root.entryWidth)
    let entryAddr ← addAddress entriesStart offset
    let entry ← read acpi.memory true entryAddr acpi.root.entryWidth
    let physicalAddr := leValue entry
    let header ← read acpi.memory false physicalAddr SDT_HEADER_SIZE
    let length := field header 4 4
    if length < SDT_HEADER_SIZE then Prog.stop .invalidSdtLength
    else if header.take 4 ≠ signature then findFrom acpi signature entriesStart (i + 1) count
    else do
      let valid ← checksumValid acpi.memory physicalAddr length
      if valid = false then Prog.stop .malformedAcpiTable
      else pure (some ⟨physicalAddr, length, header.take 4⟩)

def findTable (acpi : AcpiTables) (signature : List Byte) : AM (Option Sdt) := do
  let root := acpi.root.table
  let entriesStart ← addAddress root.physicalAddr SDT_HEADER_SIZE
  let count ← acpi.root.entryCount
  findFrom acpi signature entriesStart 0 count

end AcpiTables

structure LocalApicEntry where
  processorId : ℕ
  id : ℕ
  flags : ℕ
  deriving DecidableEq, Repr

structure IoApicEntry where
  id : ℕ
  reserved : ℕ
  apicAddress : ℕ
  globalSystemInterruptBase : ℕ
  deriving DecidableEq, Repr

structure InterruptSourceOverride where
  bus : ℕ
  source : ℕ
  globalInterrupt : ℕ
  flags : ℕ
  deriving DecidableEq, Repr

structure IoApicNmiEntry where
  nmiSource : ℕ
  reserved : ℕ
  flags : ℕ
  globalSystemInterrupt : ℕ
  deriving DecidableEq, Repr

structure LocalApicNmiEntry where
  processorId : ℕ
  flags : ℕ
  lintNum : ℕ
  deriving DecidableEq, Repr

structure LocalApicAddressOverride where
  reserved : ℕ
  localApicAddress : ℕ
  deriving DecidableEq, Repr

structure LocalX2ApicEntry where
  reserved : ℕ
  localX2apicId : ℕ
  flags : ℕ
  acpiProcessorUid : ℕ
  deriving DecidableEq, Repr

inductive MadtEntry where
  | localApic (entry : LocalApicEntry)
  | ioApic (entry : IoApicEntry)
  | interruptSourceOverride (entry : InterruptSourceOverride)
  | ioApicNmi (entry : IoApicNmiEntry)
  | localApicNmi (entry : LocalApicNmiEntry)
  | localApicAddressOverride (entry : LocalApicAddressOverride)
  | localX2Apic (entry : LocalX2ApicEntry)
  | unknown (kind length : ℕ)
  deriving DecidableEq, Repr

/-- The kinds of entries that have a body: its size, and how it is read from the bytes. -/
def bodyOf : ℕ → Option (ℕ × (List Byte → MadtEntry))
  | 0 => some (6, fun b => .localApic ⟨field b 0 1, field b 1 1, field b 2 4⟩)
  | 1 => some (10, fun b => .ioApic ⟨field b 0 1, field b 1 1, field b 2 4, field b 6 4⟩)
  | 2 => some (8, fun b =>
      .interruptSourceOverride ⟨field b 0 1, field b 1 1, field b 2 4, field b 6 2⟩)
  | 3 => some (8, fun b => .ioApicNmi ⟨field b 0 1, field b 1 1, field b 2 2, field b 4 4⟩)
  | 4 => some (4, fun b => .localApicNmi ⟨field b 0 1, field b 1 2, field b 3 1⟩)
  | 5 => some (10, fun b => .localApicAddressOverride ⟨field b 0 2, field b 2 8⟩)
  | 9 => some (14, fun b =>
      .localX2Apic ⟨field b 0 2, field b 2 4, field b 6 4, field b 10 4⟩)
  | _ => none

structure MadtEntries where
  memory : Memory
  current : ℕ
  stop : ℕ

/-- `size_of::<MadtEntryHeader>()`. -/
def ENTRY_HEADER_SIZE : ℕ := 2

namespace MadtEntries

def readBody (entries : MadtEntries) (length size : ℕ) : AM (List Byte) := do
  if length < ENTRY_HEADER_SIZE + size then Prog.stop .malformedAcpiTable
  else do
    let bodyAddr ← addAddress entries.current ENTRY_HEADER_SIZE
    read entries.memory false bodyAddr size

/-- `read_next`: the entry and the address after it. -/
def readNext (entries : MadtEntries) : AM (MadtEntry × ℕ) := do
  let header ← read entries.memory false entries.current ENTRY_HEADER_SIZE
  let kind := field header 0 1
  let length := field header 1 1
  let entry ← match bodyOf kind with
    | some (size, decode) => do
      let body ← entries.readBody length size
      pure (decode body)
    | none => pure (.unknown kind length)
  let next ← addAddress entries.current length
  pure (entry, next)

/-- `next`, with the log of the accesses before and after. -/
def next (state : MadtEntries × List Access) :
    Option (Except AcpiError MadtEntry) × (MadtEntries × List Access) :=
  let (entries, log) := state
  let ended : MadtEntries := { entries with current := entries.stop }
  if entries.current = entries.stop then (none, (entries, log))
  else if entries.current > entries.stop then (some (.error .malformedAcpiTable), (ended, log))
  else
    let remaining := entries.stop - entries.current
    if remaining < ENTRY_HEADER_SIZE then (some (.error .malformedAcpiTable), (ended, log))
    else match read entries.memory false entries.current ENTRY_HEADER_SIZE log with
    | .stop error log => (some (.error error), (ended, log))
    | .ok header log =>
      let length := field header 1 1
      if length < ENTRY_HEADER_SIZE ∨ length > remaining then
        (some (.error .malformedAcpiTable), (ended, log))
      else match entries.readNext log with
      | .stop error log => (some (.error error), (ended, log))
      | .ok (entry, current) log => (some (.ok entry), ({ entries with current := current }, log))

end MadtEntries

structure Madt where
  acpi : AcpiTables
  table : Sdt
  localApicAddress : ℕ
  flags : ℕ

/-- `size_of::<SDTHeader>() + size_of::<MadtBody>()`. -/
def MADT_ENTRIES_OFFSET : ℕ := SDT_HEADER_SIZE + 8

namespace Madt

def parse (acpi : AcpiTables) (table : Sdt) : AM Madt := do
  if table.signature ≠ Cpio.strBytes "APIC" then Prog.stop .invalidInput
  else if table.length < MADT_ENTRIES_OFFSET then Prog.stop .malformedAcpiTable
  else do
    let bodyAddr ← addAddress table.physicalAddr SDT_HEADER_SIZE
    let body ← read acpi.memory false bodyAddr 8
    pure ⟨acpi, table, field body 0 4, field body 4 4⟩

def entries (madt : Madt) : AM MadtEntries := do
  let current ← addAddress madt.table.physicalAddr MADT_ENTRIES_OFFSET
  let stop ← addAddress madt.table.physicalAddr madt.table.length
  pure ⟨madt.acpi.memory, current, stop⟩

end Madt

end Acpi

end Dusk
