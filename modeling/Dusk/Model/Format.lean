import Dusk.Model.Memory

/-! `format/cpio.rs` and `format/elf.rs`. A byte slice is a range of addresses; the
parsers read it through a function that gives the byte at an address. -/

namespace Dusk

open Lib

/-- `&[u8]`. -/
structure Slice where
  start : ℕ
  length : ℕ
  deriving DecidableEq, Repr

namespace Slice

/-- `s[from..from + len]`. -/
def sub (s : Slice) (offset length : ℕ) : Slice := ⟨s.start + offset, length⟩

/-- The bytes of `s[offset..offset + n]`. -/
def bytes (s : Slice) (read : ℕ → Byte) (offset n : ℕ) : List Byte :=
  (List.range n).map fun i => read (s.start + offset + i)

/-- `u16_at`, `u32_at` and `usize_at`: `n` bytes, little-endian. -/
def valueAt (s : Slice) (read : ℕ → Byte) (offset n : ℕ) : ℕ :=
  (s.bytes read offset n).foldr (fun b v => b.toNat + 256 * v) 0

end Slice

def checkedMul (a b : ℕ) : Option ℕ := if a * b < USIZE_END then some (a * b) else none

/-- `from_le_bytes`. -/
def leValue (bs : List Byte) : ℕ := bs.foldr (fun b v => b.toNat + 256 * v) 0

/-- The bytes of a little-endian field. -/
def leBytes (n v : ℕ) : List Byte := (List.range n).map fun i => BitVec.ofNat 8 (v >>> (8 * i))

namespace Cpio

/-- `size_of::<Header>()`. -/
def HEADER_SIZE : ℕ := 110

def hexDigit (b : Byte) : Option ℕ :=
  let c := b.toNat
  if 0x30 ≤ c ∧ c ≤ 0x39 then some (c - 0x30)
  else if 0x41 ≤ c ∧ c ≤ 0x46 then some (c - 0x41 + 10)
  else if 0x61 ≤ c ∧ c ≤ 0x66 then some (c - 0x61 + 10)
  else none

def hexDigits : List Byte → ℕ → Option ℕ
  | [], value => some value
  | b :: bs, value => (hexDigit b).bind fun d => hexDigits bs (16 * value + d)

/-- `usize::from_str_radix(.., 16)` of a field of eight bytes. -/
def fromStrRadix : List Byte → Option ℕ
  | [] => none
  | [b] => hexDigits [b] 0
  | b :: bs => if b = 0x2B then hexDigits bs 0 else hexDigits (b :: bs) 0

/-- Whether bytes are well-formed UTF-8, the check of `core::str::from_utf8`. -/
def isUtf8 : List Byte → Bool
  | [] => true
  | a :: bs =>
    let a := a.toNat
    let tail (b : Byte) : Bool := decide (0x80 ≤ b.toNat ∧ b.toNat ≤ 0xBF)
    if a < 0x80 then isUtf8 bs
    else if 0xC2 ≤ a ∧ a ≤ 0xDF then
      match bs with
      | b :: bs => tail b && isUtf8 bs
      | _ => false
    else if 0xE0 ≤ a ∧ a ≤ 0xEF then
      match bs with
      | b :: c :: bs =>
        decide ((if a = 0xE0 then 0xA0 else 0x80) ≤ b.toNat
          ∧ b.toNat ≤ (if a = 0xED then 0x9F else 0xBF)) && tail c && isUtf8 bs
      | _ => false
    else if 0xF0 ≤ a ∧ a ≤ 0xF4 then
      match bs with
      | b :: c :: d :: bs =>
        decide ((if a = 0xF0 then 0x90 else 0x80) ≤ b.toNat
          ∧ b.toNat ≤ (if a = 0xF4 then 0x8F else 0xBF)) && tail c && tail d && isUtf8 bs
      | _ => false
    else false

/-- `trim_end_matches('\0')`. -/
def trimEnd (bs : List Byte) : List Byte := (bs.reverse.dropWhile (· = 0)).reverse

/-- The bytes of a `&str`. -/
def strBytes (s : String) : List Byte :=
  s.toList.flatMap fun c => (String.utf8EncodeChar c).map UInt8.toBitVec

/-- How one iteration of the loop of `find_file` ends: without a file, at an entry
it cannot read or at the trailer, with one, or at the next offset. -/
inductive Entry where
  | refused
  | trailer
  | found (file : Slice)
  | skip (offset : ℕ)
  deriving DecidableEq, Repr

/-- The body of the loop of `find_file`. -/
def entry (read : ℕ → Byte) (archive : Slice) (target : List Byte) (offset : ℕ) : Entry :=
  if ¬ offset + HEADER_SIZE ≤ archive.length then .refused
  else if archive.bytes read offset 6 ≠ strBytes "070701" then .refused
  else match fromStrRadix (archive.bytes read (offset + 54) 8) with
  | none => .refused
  | some fileLen =>
    match fromStrRadix (archive.bytes read (offset + 94) 8) with
    | none => .refused
    | some nameLen =>
      if offset + HEADER_SIZE + nameLen > archive.length then .refused
      else
        let nameBytes := archive.bytes read (offset + HEADER_SIZE) nameLen
        if !isUtf8 nameBytes then .refused
        else
          let name := trimEnd nameBytes
          let dataStart := offset + (HEADER_SIZE + nameLen + 3) / 4 * 4
          if name = strBytes "TRAILER!!!" then .trailer
          else if dataStart + fileLen > archive.length then .refused
          else if name = target then .found (archive.sub dataStart fileLen)
          else .skip (dataStart + (fileLen + 3) / 4 * 4)

/-- The loop of `find_file` from `offset`. Each header advances it by more than
`HEADER_SIZE`, which bounds the number of iterations. -/
def findFrom (read : ℕ → Byte) (archive : Slice) (target : List Byte) (offset : ℕ) :
    ℕ → Entry
  | 0 => .refused
  | fuel + 1 => match entry read archive target offset with
    | .skip next => findFrom read archive target next fuel
    | result => result

/-- How the loop of `find_file` ends. -/
def search (read : ℕ → Byte) (archive : Slice) (target : String) : Entry :=
  findFrom read archive (strBytes target) 0 (archive.length / HEADER_SIZE + 1)

def findFile (read : ℕ → Byte) (archive : Slice) (target : String) : Option Slice :=
  match search read archive target with
  | .found file => some file
  | _ => none

end Cpio

structure Elf where
  bytes : Slice
  headers : Slice
  entry : ℕ

structure Segment where
  data : Slice
  address : ℕ
  memorySize : ℕ
  writable : Bool
  executable : Bool

namespace Elf

def MACHINE : ℕ := 62

/-- `s.get(from..to)`. -/
def getRange (s : Slice) (start stop : ℕ) : Option Slice :=
  if start ≤ stop ∧ stop ≤ s.length then some (s.sub start (stop - start)) else none

/-- The type field of program header `i`. -/
def headerType (read : ℕ → Byte) (headers : Slice) (i : ℕ) : ℕ :=
  headers.valueAt read (56 * i) 4

/-- `Elf::parse`; `ElfError` carries nothing. -/
def parse (read : ℕ → Byte) (bytes : Slice) : Option Elf := do
  let header ← getRange bytes 0 64
  if header.bytes read 0 7 ≠ [0x7f, 0x45, 0x4c, 0x46, 0x02, 0x01, 0x01]
      ∨ header.valueAt read 16 2 ≠ 2 ∨ header.valueAt read 18 2 ≠ MACHINE
      ∨ header.valueAt read 20 4 ≠ 1 ∨ header.valueAt read 52 2 ≠ 64
      ∨ header.valueAt read 54 2 ≠ 56 then none
  else do
    let offset := header.valueAt read 32 8
    let count := header.valueAt read 56 2
    let stop ← checkedAdd offset (count * 56)
    let headers ← getRange bytes offset stop
    if (List.range count).any fun i =>
        headerType read headers i = 2 || headerType read headers i = 3 then none
    else some ⟨bytes, headers, header.valueAt read 24 8⟩

def headerCount (elf : Elf) : ℕ := elf.headers.length / 56

def isPowerOfTwo (n : ℕ) : Bool := n ≠ 0 ∧ n &&& (n - 1) = 0

/-- One item of `segments`, for a header of the loadable type. -/
def segment (elf : Elf) (read : ℕ → Byte) (i : ℕ) : Option Segment := do
  let h := elf.headers.sub (56 * i) 56
  let offset := h.valueAt read 8 8
  let address := h.valueAt read 16 8
  let fileSize := h.valueAt read 32 8
  let memorySize := h.valueAt read 40 8
  let alignment := h.valueAt read 48 8
  if fileSize > memorySize
      ∨ (alignment > 1 ∧ (isPowerOfTwo alignment = false
        ∨ address % alignment ≠ offset % alignment)) then none
  else do
    let stop ← checkedAdd offset fileSize
    let data ← getRange elf.bytes offset stop
    let flags := h.valueAt read 4 4
    some ⟨data, address, memorySize, flags.testBit 1, flags.testBit 0⟩

end Elf

end Dusk
