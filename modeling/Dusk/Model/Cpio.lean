import Dusk.Model.Format

/-! `find_file` of `format/cpio.rs` with every slice, every raw read and every addition
of the source checked. -/

namespace Dusk

open Lib

namespace Cpio.Checked

/-- A slice out of range, an addition over 64 bits, or a loop that does not end. -/
inductive Fault where
  | outOfRange
  | overflow
  | endless
  deriving DecidableEq, Repr

/-- `&s[start..stop]`. -/
def index (s : Slice) (start stop : ℕ) : Except Fault Slice :=
  if start ≤ stop ∧ stop ≤ s.length then .ok (s.sub start (stop - start)) else .error .outOfRange

/-- `a + b`. -/
def add (a b : ℕ) : Except Fault ℕ :=
  if a + b < USIZE_END then .ok (a + b) else .error .overflow

/-- The fields of `Header` that `find_file` reads. -/
structure Header where
  magic : List Byte
  filesize : List Byte
  namesize : List Byte

/-- `Header::from_bytes`. -/
def Header.fromBytes (read : ℕ → Byte) (bytes : Slice) : Except Fault (Option Header) := do
  if bytes.length < HEADER_SIZE then return none
  -- the header is read through a pointer, which nothing but the test above bounds
  let raw ← index bytes 0 HEADER_SIZE
  let header : Header := ⟨raw.bytes read 0 6, raw.bytes read 54 8, raw.bytes read 94 8⟩
  if header.magic ≠ strBytes "070701" then return none
  return some header

/-- The loop of `find_file` from `offset`, for at most `fuel` iterations. -/
def findFrom (read : ℕ → Byte) (archive : Slice) (target : List Byte) (offset : ℕ) :
    ℕ → Except Fault (Option Slice)
  | 0 => .error .endless
  | fuel + 1 => do
    let headerEnd ← add offset HEADER_SIZE
    if ¬ headerEnd ≤ archive.length then return none
    if headerEnd > archive.length then return none
    let rest ← index archive offset archive.length
    let some header ← Header.fromBytes read rest | return none
    let headerStart := offset
    let offset ← add offset HEADER_SIZE
    if !isUtf8 header.filesize then return none
    let some fileLen := fromStrRadix header.filesize | return none
    if !isUtf8 header.namesize then return none
    let some nameLen := fromStrRadix header.namesize | return none
    let nameEnd ← add offset nameLen
    if nameEnd > archive.length then return none
    let nameSlice ← index archive offset nameEnd
    let nameBytes := nameSlice.bytes read 0 nameLen
    if !isUtf8 nameBytes then return none
    let name := trimEnd nameBytes
    if name = strBytes "TRAILER!!!" then return none
    let named ← add HEADER_SIZE nameLen
    let rounded ← add named 3
    let dataStart ← add headerStart (rounded / 4 * 4)
    let dataEnd ← add dataStart fileLen
    if dataEnd > archive.length then return none
    if name = target then
      let file ← index archive dataStart dataEnd
      return some file
    let paddedLen ← add fileLen 3
    let next ← add dataStart (paddedLen / 4 * 4)
    findFrom read archive target next fuel

/-- `find_file`. -/
def findFile (read : ℕ → Byte) (archive : Slice) (target : String) (fuel : ℕ) :
    Except Fault (Option Slice) :=
  findFrom read archive (strBytes target) 0 fuel

end Cpio.Checked

end Dusk
