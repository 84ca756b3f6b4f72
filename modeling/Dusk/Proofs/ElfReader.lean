import Dusk.Proofs.Omega3

/-! The server's ELF reader. Its cursor reads the fields of a header one after the
other, so that each of them stands at a fixed offset of the bytes. -/

namespace Dusk

open Lib

namespace Omega3

variable {memory : ℕ → Byte} {bytes : Slice} {endianness : Endianness}

namespace Reader

theorem readArray_eq {offset n : ℕ} (h : offset + n ≤ bytes.length)
    (hlen : bytes.length < USIZE_END) :
    (⟨bytes, offset, endianness⟩ : Reader).readArray memory n =
      some (bytes.bytes memory offset n, ⟨bytes, offset + n, endianness⟩) := by
  have hadd : checkedAdd offset n = some (offset + n) := if_pos (by omega)
  have hrange : Dusk.Elf.getRange bytes offset (offset + n) = some (bytes.sub offset n) := by
    unfold Dusk.Elf.getRange
    rw [if_pos ⟨by omega, h⟩, Nat.add_sub_cancel_left]
  simp [readArray, hadd, hrange, Slice.sub, Slice.bytes]

theorem readUint_eq {offset n : ℕ} (h : offset + n ≤ bytes.length)
    (hlen : bytes.length < USIZE_END) :
    (⟨bytes, offset, endianness⟩ : Reader).readUint memory n =
      some (endianness.value (bytes.bytes memory offset n), ⟨bytes, offset + n, endianness⟩) := by
  simp [readUint, readArray_eq h hlen]

end Reader

/-- A number of `n` bytes at an offset. -/
def fieldAt (memory : ℕ → Byte) (bytes : Slice) (endianness : Endianness) (offset n : ℕ) : ℕ :=
  endianness.value (bytes.bytes memory offset n)

/-- The fields of a 64-bit program header. -/
theorem ProgramHeader.parse_elf64 (hlen : bytes.length = 56) :
    ProgramHeader.parse memory bytes .elf64 endianness =
      let field := fieldAt memory bytes endianness
      some ⟨.fromU32 (field 0 4), field 4 4, field 8 8, field 16 8, field 24 8, field 32 8,
        field 40 8, field 48 8⟩ := by
  have hsmall : bytes.length < USIZE_END := by
    rw [hlen]
    decide
  simp (disch := omega) [ProgramHeader.parse, Reader.new, Reader.setEndianness, Reader.readU32,
    Reader.readWord, Reader.readU64, Reader.readUint_eq, fieldAt]

/-- The fields of a 32-bit program header. -/
theorem ProgramHeader.parse_elf32 (hlen : bytes.length = 32) :
    ProgramHeader.parse memory bytes .elf32 endianness =
      let field := fieldAt memory bytes endianness
      some ⟨.fromU32 (field 0 4), field 24 4, field 4 4, field 8 4, field 12 4, field 16 4,
        field 20 4, field 28 4⟩ := by
  have hsmall : bytes.length < USIZE_END := by
    rw [hlen]
    decide
  simp (disch := omega) [ProgramHeader.parse, Reader.new, Reader.setEndianness, Reader.readU32,
    Reader.readWord, Reader.readUint_eq, fieldAt]

/-- A program header of the expected size can be read. -/
theorem ProgramHeader.parse_isSome {elfClass : ElfClass} (hlen : bytes.length = elfClass.entrySize) :
    ∃ header, ProgramHeader.parse memory bytes elfClass endianness = some header := by
  cases elfClass with
  | elf32 => exact ⟨_, parse_elf32 hlen⟩
  | elf64 => exact ⟨_, parse_elf64 hlen⟩

namespace ProgramHeaders

/-- The bytes of header `i`. -/
def header (headers : ProgramHeaders) (i : ℕ) : Slice :=
  headers.bytes.sub (headers.entrySize * i) headers.entrySize

/-- The headers fill their table. -/
def Full (headers : ProgramHeaders) : Prop :=
  headers.entrySize = headers.elfClass.entrySize
    ∧ headers.bytes.length = headers.entrySize * headers.remaining

/-- The headers after the first. -/
structure Tail (headers rest : ProgramHeaders) : Prop where
  full : rest.Full
  remaining : rest.remaining + 1 = headers.remaining
  elfClass : rest.elfClass = headers.elfClass
  endianness : rest.endianness = headers.endianness
  header : ∀ i, rest.header i = headers.header (i + 1)
  inside : rest.bytes.Inside headers.bytes

/-- A call of `next` on a full table takes the first header off it. -/
theorem next_full {headers : ProgramHeaders} (h : headers.Full) (hpos : headers.remaining ≠ 0) :
    ∃ rest, headers.next memory = (some (ProgramHeader.parse memory (headers.header 0)
      headers.elfClass headers.endianness), rest) ∧ Tail headers rest := by
  obtain ⟨hsize, hfull⟩ := h
  obtain ⟨n, hn⟩ := Nat.exists_eq_succ_of_ne_zero hpos
  rw [hn, Nat.mul_succ] at hfull
  have hentry : Dusk.Elf.getRange headers.bytes 0 headers.entrySize =
      some (headers.header 0) := by
    unfold Dusk.Elf.getRange
    rw [if_pos ⟨Nat.zero_le _, by omega⟩]
    rfl
  refine ⟨{ headers with
      bytes := headers.bytes.sub headers.entrySize (headers.bytes.length - headers.entrySize)
      remaining := headers.remaining - 1 }, ?_, ?_⟩
  · unfold next
    rw [if_neg hpos, hentry]
  · refine ⟨⟨hsize, ?_⟩, ?_, rfl, rfl, fun i => ?_, ?_⟩
    · dsimp only [Slice.sub]
      rw [hn, Nat.succ_sub_one]
      omega
    · dsimp only
      omega
    · simp only [header, Slice.sub, Slice.mk.injEq, and_true]
      ring
    · constructor
      · exact Nat.le_add_right _ _
      · dsimp only [Slice.sub]
        omega

theorem items_go (headers : ProgramHeaders) (h : headers.Full) :
    items.go memory headers.remaining headers = (List.range headers.remaining).map fun i =>
      ProgramHeader.parse memory (headers.header i) headers.elfClass headers.endianness := by
  generalize hn : headers.remaining = n
  induction n generalizing headers with
  | zero => rfl
  | succ n ih =>
    obtain ⟨rest, hnext, htail⟩ := @next_full memory headers h (by omega)
    have hremaining := htail.remaining
    rw [items.go, hnext, List.range_succ_eq_map, List.map_cons, List.map_map]
    dsimp only
    rw [ih rest htail.full (by omega)]
    simp only [htail.header, htail.elfClass, htail.endianness]
    rfl

end ProgramHeaders

theorem Elf.parse_bytes {memory : ℕ → Byte} {bytes : Slice} {elf : Elf}
    (h : Elf.parse memory bytes = some elf) : elf.bytes = bytes := by
  unfold Elf.parse at h
  rw [Option.map_eq_some_iff] at h
  obtain ⟨header, -, rfl⟩ := h
  rfl

/-- What `program_headers` checks. -/
theorem Elf.programHeaders_some {elf : Elf} {headers : ProgramHeaders}
    (h : elf.programHeaders = some headers) :
    elf.header.programHeaderEntrySize = elf.header.elfClass.entrySize ∧
    let offset := elf.header.programHeaderOffset
    let size := elf.header.programHeaderEntrySize * elf.header.programHeaderCount
    offset + size ≤ elf.bytes.length ∧ headers = ⟨elf.bytes.sub offset size, elf.header.elfClass,
      elf.header.endianness, elf.header.programHeaderEntrySize, elf.header.programHeaderCount⟩ := by
  simp only [Elf.programHeaders, Option.bind_eq_bind, checkedAdd, checkedMul,
    Dusk.Elf.getRange, Option.bind_eq_some_iff, Option.ite_none_left_eq_some, Option.ite_none_right_eq_some,
    Option.some.injEq] at h
  obtain ⟨hsize, size, ⟨-, rfl⟩, stop, ⟨-, rfl⟩, bytes, ⟨⟨-, hstop⟩, rfl⟩, rfl⟩ := h
  exact ⟨not_not.mp hsize, hstop, by rw [Nat.add_sub_cancel_left]⟩

/-- The table that `program_headers` gives is full. -/
theorem Elf.programHeaders_full {elf : Elf} {headers : ProgramHeaders}
    (h : elf.programHeaders = some headers) : headers.Full := by
  obtain ⟨hsize, -, rfl⟩ := Elf.programHeaders_some h
  exact ⟨hsize, rfl⟩

/-- Every header of the table can be read. -/
theorem ProgramHeaders.items_isSome {headers : ProgramHeaders} (h : headers.Full)
    {item : Option ProgramHeader} (hitem : item ∈ headers.items memory) :
    ∃ header, item = some header := by
  unfold items at hitem
  rw [items_go headers h, List.mem_map] at hitem
  obtain ⟨i, -, rfl⟩ := hitem
  exact ProgramHeader.parse_isSome h.1

end Omega3

end Dusk
