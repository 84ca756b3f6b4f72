import Dusk.Model.Format
import Dusk.Model.Tcb

/-! `userspace/omega3`: the archive and executable readers of the root server and
its loader. The server reads through raw pointers, so that its programs keep the
ranges they have read; what the system calls answer is left open. -/

namespace Dusk

open Lib

namespace Omega3

def INITRAMFS_START : ℕ := 0x4000_0000
def SELF_AS : ℕ := 0

/-- The sums of the server that the overflow checks of a debug build stop. -/
inductive Sum where
  | archiveOffset | segmentEnd | fileEnd | pageEnd | fileOffset
  deriving DecidableEq, Repr

/-- Why a program of the server does not return: an overflow, an `unwrap` of an
error, a write to a page that is not mapped, or a loop that has not ended yet. -/
inductive Stop where
  | overflow (sum : Sum)
  | unwrapped
  | fault
  | unfinished
  deriving DecidableEq, Repr

/-- A page of the new task: what `sys_map` was given, and the bytes of the frame. -/
structure Placed where
  space : ℕ
  page : ℕ
  permissions : ℕ
  content : ℕ → Byte

structure Server where
  memory : ℕ → Byte
  /-- The answers of the system calls, by the number of calls before. -/
  answers : ℕ → Option ℕ
  calls : ℕ
  /-- The bytes of the frame behind a handle, and the frame at the scratch page. -/
  frames : ℕ → ℕ → Byte
  scratch : Option ℕ
  reads : List Slice
  placed : List Placed

abbrev SM := Prog Server Stop

/-- `a + b` with the overflow check of a debug build. -/
def addUsize (sum : Sum) (a b : ℕ) : SM ℕ := Prog.expect (.overflow sum) (checkedAdd a b)

/-- `from_raw_parts(start, length)`, read in full. -/
def readRaw (start length : ℕ) : SM (List Byte) := fun s =>
  let range : Slice := ⟨start, length⟩
  .ok (range.bytes s.memory 0 length) { s with reads := s.reads ++ [range] }

open Cpio (HEADER_SIZE fromStrRadix isUtf8 trimEnd strBytes)

/-! `cpio.rs`. -/

/-- The loop of `find_file` from `offset`, for at most `fuel` iterations. -/
def findFrom (archive : ℕ) (target : List Byte) (offset : ℕ) : ℕ → SM (Option Slice)
  | 0 => Prog.stop .unfinished
  | fuel + 1 => do
    let header ← readRaw (archive + offset) HEADER_SIZE
    if header.take 6 ≠ strBytes "070701" then pure none
    else do
      let headerStart := offset
      let offset ← addUsize .archiveOffset offset HEADER_SIZE
      match fromStrRadix ((header.drop 54).take 8) with
      | none => pure none
      | some fileLen =>
        match fromStrRadix ((header.drop 94).take 8) with
        | none => pure none
        | some nameLen => do
          let nameBytes ← readRaw (archive + offset) nameLen
          if !isUtf8 nameBytes then pure none
          else
            let name := trimEnd nameBytes
            if name = strBytes "TRAILER!!!" then pure none
            else do
              let dataStart ← addUsize .archiveOffset headerStart
                ((HEADER_SIZE + nameLen + 3) / 4 * 4)
              if name = target then pure (some ⟨archive + dataStart, fileLen⟩)
              else do
                let next ← addUsize .archiveOffset dataStart ((fileLen + 3) / 4 * 4)
                findFrom archive target next fuel

def findFile (archive : ℕ) (target : String) (fuel : ℕ) : SM (Option Slice) :=
  findFrom archive (strBytes target) 0 fuel

/-! `elf.rs`. `ElfError` has one value, so that a failed read is `none`. -/

inductive ElfIsa where
  | none | sparc | x86 | mips | ppc | arm | superH | ia64 | amd64 | aarch64 | riscv
  deriving DecidableEq, Repr

def ElfIsa.fromU16 : ℕ → Option ElfIsa
  | 0x00 => some .none
  | 0x02 => some .sparc
  | 0x03 => some .x86
  | 0x08 => some .mips
  | 0x14 => some .ppc
  | 0x28 => some .arm
  | 0x2A => some .superH
  | 0x32 => some .ia64
  | 0x3E => some .amd64
  | 0xB7 => some .aarch64
  | 0xF3 => some .riscv
  | _ => Option.none

inductive ElfClass where
  | elf32 | elf64
  deriving DecidableEq, Repr

def ElfClass.fromU8 : ℕ → Option ElfClass
  | 1 => some .elf32
  | 2 => some .elf64
  | _ => none

def ElfClass.headerSize : ElfClass → ℕ
  | .elf32 => 52
  | .elf64 => 64

/-- The entry size `program_headers` expects. -/
def ElfClass.entrySize : ElfClass → ℕ
  | .elf32 => 32
  | .elf64 => 56

inductive Endianness where
  | little | big
  deriving DecidableEq, Repr

def Endianness.fromU8 : ℕ → Option Endianness
  | 1 => some .little
  | 2 => some .big
  | _ => none

/-- `from_le_bytes` and `from_be_bytes`. -/
def Endianness.value : Endianness → List Byte → ℕ
  | .little, bs => bs.foldr (fun b v => b.toNat + 256 * v) 0
  | .big, bs => bs.foldl (fun v b => 256 * v + b.toNat) 0

inductive ElfType where
  | relocatable | executable | sharedObject | core
  deriving DecidableEq, Repr

def ElfType.fromU16 : ℕ → Option ElfType
  | 1 => some .relocatable
  | 2 => some .executable
  | 3 => some .sharedObject
  | 4 => some .core
  | _ => none

structure ElfHeader where
  magic : List Byte
  elfClass : ElfClass
  endianness : Endianness
  version : ℕ
  osAbi : ℕ
  reserved : List Byte
  objectType : ElfType
  machine : ElfIsa
  version1 : ℕ
  entry : ℕ
  programHeaderOffset : ℕ
  sectionHeaderOffset : ℕ
  flags : ℕ
  headerSize : ℕ
  programHeaderEntrySize : ℕ
  programHeaderCount : ℕ
  sectionHeaderEntrySize : ℕ
  sectionHeaderCount : ℕ
  sectionNameIndex : ℕ
  deriving DecidableEq

/-- A cursor over a slice. Its methods return the cursor after the read. -/
structure Reader where
  bytes : Slice
  offset : ℕ
  endianness : Endianness

namespace Reader

def new (bytes : Slice) : Reader := ⟨bytes, 0, .little⟩

def setEndianness (r : Reader) (endianness : Endianness) : Reader :=
  { r with endianness := endianness }

def readArray (r : Reader) (memory : ℕ → Byte) (n : ℕ) : Option (List Byte × Reader) := do
  let stop ← checkedAdd r.offset n
  let range ← Elf.getRange r.bytes r.offset stop
  some (range.bytes memory 0 n, { r with offset := stop })

/-- `read_u8`, `read_u16`, `read_u32` and `read_u64`: a number of `n` bytes. -/
def readUint (r : Reader) (memory : ℕ → Byte) (n : ℕ) : Option (ℕ × Reader) :=
  (r.readArray memory n).map fun (bs, next) => (r.endianness.value bs, next)

def readU8 (r : Reader) (memory : ℕ → Byte) := r.readUint memory 1

def readU16 (r : Reader) (memory : ℕ → Byte) := r.readUint memory 2

def readU32 (r : Reader) (memory : ℕ → Byte) := r.readUint memory 4

def readU64 (r : Reader) (memory : ℕ → Byte) := r.readUint memory 8

def readWord (r : Reader) (memory : ℕ → Byte) : ElfClass → Option (ℕ × Reader)
  | .elf32 => r.readU32 memory
  | .elf64 => r.readU64 memory

end Reader

def ElfHeader.parse (memory : ℕ → Byte) (bytes : Slice) : Option ElfHeader := do
  let r := Reader.new bytes
  let (magic, r) ← r.readArray memory 4
  if magic ≠ [0x7f, 0x45, 0x4c, 0x46] then none
  else do
    let (byte, r) ← r.readU8 memory
    let elfClass ← ElfClass.fromU8 byte
    let (byte, r) ← r.readU8 memory
    let endianness ← Endianness.fromU8 byte
    let r := r.setEndianness endianness
    let (version, r) ← r.readU8 memory
    let (osAbi, r) ← r.readU8 memory
    let (reserved, r) ← r.readArray memory 8
    let (value, r) ← r.readU16 memory
    let objectType ← ElfType.fromU16 value
    let (value, r) ← r.readU16 memory
    let machine ← ElfIsa.fromU16 value
    let (version1, r) ← r.readU32 memory
    let (entry, r) ← r.readWord memory elfClass
    let (programHeaderOffset, r) ← r.readWord memory elfClass
    let (sectionHeaderOffset, r) ← r.readWord memory elfClass
    let (flags, r) ← r.readU32 memory
    let (headerSize, r) ← r.readU16 memory
    let (programHeaderEntrySize, r) ← r.readU16 memory
    let (programHeaderCount, r) ← r.readU16 memory
    let (sectionHeaderEntrySize, r) ← r.readU16 memory
    let (sectionHeaderCount, r) ← r.readU16 memory
    let (sectionNameIndex, _) ← r.readU16 memory
    if headerSize ≠ elfClass.headerSize then none
    else some ⟨magic, elfClass, endianness, version, osAbi, reserved, objectType, machine,
      version1, entry, programHeaderOffset, sectionHeaderOffset, flags, headerSize,
      programHeaderEntrySize, programHeaderCount, sectionHeaderEntrySize, sectionHeaderCount,
      sectionNameIndex⟩

inductive ProgramHeaderType where
  | null | load | dynamic | interpreter | note | shlib | phdr | gnuStack | relro
  | other (value : ℕ)
  deriving DecidableEq, Repr

def ProgramHeaderType.fromU32 : ℕ → ProgramHeaderType
  | 0 => .null
  | 1 => .load
  | 2 => .dynamic
  | 3 => .interpreter
  | 4 => .note
  | 5 => .shlib
  | 6 => .phdr
  | 0x6474e551 => .gnuStack
  | 0x6474e552 => .relro
  | value => .other value

structure ProgramHeader where
  segmentType : ProgramHeaderType
  flags : ℕ
  fileOffset : ℕ
  virtualAddress : ℕ
  physicalAddress : ℕ
  fileSize : ℕ
  memorySize : ℕ
  alignment : ℕ
  deriving DecidableEq

/-- `ProgramHeader::parse`: the flags are the second field of a 64-bit header and
the last but one of a 32-bit header. -/
def ProgramHeader.parse (memory : ℕ → Byte) (bytes : Slice) (elfClass : ElfClass)
    (endianness : Endianness) : Option ProgramHeader := do
  let r := (Reader.new bytes).setEndianness endianness
  let (value, r) ← r.readU32 memory
  let segmentType := ProgramHeaderType.fromU32 value
  let (flags, r) ← if elfClass = .elf64 then r.readU32 memory else some (0, r)
  let (fileOffset, r) ← r.readWord memory elfClass
  let (virtualAddress, r) ← r.readWord memory elfClass
  let (physicalAddress, r) ← r.readWord memory elfClass
  let (fileSize, r) ← r.readWord memory elfClass
  let (memorySize, r) ← r.readWord memory elfClass
  let (flags, r) ← if elfClass = .elf32 then r.readU32 memory else some (flags, r)
  let (alignment, _) ← r.readWord memory elfClass
  some ⟨segmentType, flags, fileOffset, virtualAddress, physicalAddress, fileSize,
    memorySize, alignment⟩

structure Elf where
  bytes : Slice
  header : ElfHeader
  deriving DecidableEq

structure ProgramHeaders where
  bytes : Slice
  elfClass : ElfClass
  endianness : Endianness
  entrySize : ℕ
  remaining : ℕ
  deriving DecidableEq

def Elf.parse (memory : ℕ → Byte) (bytes : Slice) : Option Elf :=
  (ElfHeader.parse memory bytes).map fun header => ⟨bytes, header⟩

def Elf.programHeaders (elf : Elf) : Option ProgramHeaders := do
  let offset := elf.header.programHeaderOffset
  let entrySize := elf.header.programHeaderEntrySize
  let count := elf.header.programHeaderCount
  if entrySize ≠ elf.header.elfClass.entrySize then none
  else do
    let tableSize ← checkedMul entrySize count
    let tableEnd ← checkedAdd offset tableSize
    let bytes ← Dusk.Elf.getRange elf.bytes offset tableEnd
    some ⟨bytes, elf.header.elfClass, elf.header.endianness, entrySize, count⟩

def Elf.entry (elf : Elf) : ℕ := elf.header.entry

/-- `ProgramHeaders::next`: the item, unless the headers are used up, and the rest. -/
def ProgramHeaders.next (memory : ℕ → Byte) (headers : ProgramHeaders) :
    Option (Option ProgramHeader) × ProgramHeaders :=
  if headers.remaining = 0 then (none, headers)
  else match Dusk.Elf.getRange headers.bytes 0 headers.entrySize with
  | none => (none, { headers with remaining := 0 })
  | some entry =>
    (some (ProgramHeader.parse memory entry headers.elfClass headers.endianness),
      { headers with
        bytes := headers.bytes.sub headers.entrySize (headers.bytes.length - headers.entrySize)
        remaining := headers.remaining - 1 })

/-- `ProgramHeaders::size_hint`. -/
def ProgramHeaders.sizeHint (headers : ProgramHeaders) : ℕ × Option ℕ :=
  (headers.remaining, some headers.remaining)

/-- The items a `for` loop over the headers sees. -/
def ProgramHeaders.items (memory : ℕ → Byte) (headers : ProgramHeaders) :
    List (Option ProgramHeader) :=
  go headers.remaining headers
where
  go : ℕ → ProgramHeaders → List (Option ProgramHeader)
    | 0, _ => []
    | n + 1, headers =>
      match headers.next memory with
      | (none, _) => []
      | (some item, rest) => item :: go n rest

/-! `main.rs`. -/

/-- The answer of a system call, unwrapped. -/
def call : SM ℕ := fun s =>
  match s.answers s.calls with
  | some handle => .ok handle { s with calls := s.calls + 1 }
  | none => .stop .unwrapped { s with calls := s.calls + 1 }

def sysFrameAlloc : SM ℕ := call

/-- `sys_map` of the frame at the scratch page, writable. -/
def mapScratch (frame : ℕ) : SM ℕ := do
  let mapping ← call
  Prog.modify fun s => { s with scratch := some frame }
  pure mapping

/-- `sys_unmap` of the mapping at the scratch page. -/
def unmapScratch (_mapping : ℕ) : SM Unit := do
  let _ ← call
  Prog.modify fun s => { s with scratch := none }

/-- `sys_map(target_as, frame, page, perms)`. The frame is not mapped for the
server any more, so that its bytes are what the new task will see. -/
def mapTarget (targetAs frame page permissions : ℕ) : SM Unit := do
  let _ ← call
  Prog.modify fun s =>
    { s with placed := s.placed ++ [⟨targetAs, page, permissions, s.frames frame⟩] }

/-- Bytes `offset .. offset + length` replaced. -/
def overwrite (content : ℕ → Byte) (offset length : ℕ) (value : ℕ → Byte) : ℕ → Byte := fun i =>
  if offset ≤ i ∧ i < offset + length then value (i - offset) else content i

/-- Bytes `offset .. offset + length` of the scratch page written. -/
def writeScratch (offset length : ℕ) (value : ℕ → Byte) : SM Unit := fun s =>
  match s.scratch with
  | none => .stop .fault s
  | some frame =>
    let content := overwrite (s.frames frame) offset length value
    .ok () { s with frames := Function.update s.frames frame content }

/-- `write_bytes` and `copy_nonoverlapping` of `load_elf` for one page. -/
def fillPage (elf : Elf) (header : ProgramHeader) (fileEnd page : ℕ) : SM Unit := do
  writeScratch 0 FRAME_SIZE fun _ => 0
  let pageEnd ← addUsize .pageEnd page FRAME_SIZE
  let copyStart := min (max page header.virtualAddress) pageEnd
  let copyEnd := max (min pageEnd fileEnd) copyStart
  if copyEnd > copyStart then do
    let pageOffset := copyStart - page
    let fileOffset ← addUsize .fileOffset header.fileOffset (copyStart - header.virtualAddress)
    let len := copyEnd - copyStart
    let data ← readRaw (elf.bytes.start + fileOffset) len
    writeScratch pageOffset len fun i => data.getD i 0
  else pure ()

/-- The body of the page loop of `load_elf`. -/
def loadPage (elf : Elf) (header : ProgramHeader) (targetAs permissions fileEnd page : ℕ) :
    SM Unit := do
  let frame ← sysFrameAlloc
  let scratchHandle ← mapScratch frame
  fillPage elf header fileEnd page
  unmapScratch scratchHandle
  mapTarget targetAs frame page permissions

/-- The page loop of `load_elf`, `count` pages from `page`. -/
def loadPages (elf : Elf) (header : ProgramHeader) (targetAs permissions fileEnd page : ℕ) :
    ℕ → SM Unit
  | 0 => pure ()
  | count + 1 => do
    loadPage elf header targetAs permissions fileEnd page
    loadPages elf header targetAs permissions fileEnd (page + FRAME_SIZE) count

def permissions (header : ProgramHeader) : ℕ :=
  (if header.flags.testBit 1 then 1 else 0) + (if header.flags.testBit 0 then 2 else 0)

/-- The pages of the range `page_start .. segment_end`. -/
def pageCount (pageStart segmentEnd : ℕ) : ℕ :=
  (segmentEnd - pageStart + (FRAME_SIZE - 1)) / FRAME_SIZE

/-- The body of the header loop of `load_elf`. -/
def loadHeader (elf : Elf) (targetAs : ℕ) (header : ProgramHeader) : SM Unit :=
  if header.segmentType ≠ .load ∨ header.memorySize = 0 then pure ()
  else do
    let segmentStart := header.virtualAddress
    let segmentEnd ← addUsize .segmentEnd segmentStart header.memorySize
    let fileEnd ← addUsize .fileEnd segmentStart header.fileSize
    let pageStart := alignDownToFrame segmentStart
    loadPages elf header targetAs (permissions header) fileEnd pageStart
      (pageCount pageStart segmentEnd)

def loadHeaders (elf : Elf) (targetAs : ℕ) : List (Option ProgramHeader) → SM Unit
  | [] => pure ()
  | none :: _ => Prog.stop .unwrapped
  | some header :: rest => do
    loadHeader elf targetAs header
    loadHeaders elf targetAs rest

def loadElf (elf : Elf) (targetAs : ℕ) : SM ℕ := do
  let s ← Prog.get
  let headers ← Prog.expect .unwrapped elf.programHeaders
  loadHeaders elf targetAs (headers.items s.memory)
  pure elf.entry

end Omega3

end Dusk
