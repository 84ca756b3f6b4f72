import Dusk.Proofs.ElfReader
import Dusk.Lib.Iter

/-! The server's ELF reader inverts the encoding of the specification, for both classes
and both byte orders, and on any other bytes stays inside the file. -/

namespace Dusk

open Lib

namespace Omega3

section Encoding

/-- The size of an address or an offset. -/
def ElfClass.wordSize : ElfClass → ℕ
  | .elf32 => 4
  | .elf64 => 8

def ElfClass.toU8 : ElfClass → ℕ
  | .elf32 => 1
  | .elf64 => 2

def Endianness.toU8 : Endianness → ℕ
  | .little => 1
  | .big => 2

/-- A number of `n` bytes. -/
def Endianness.bytes : Endianness → ℕ → ℕ → List Byte
  | .little, n, v => leBytes n v
  | .big, n, v => (leBytes n v).reverse

def ElfType.toU16 : ElfType → ℕ
  | .relocatable => 1
  | .executable => 2
  | .sharedObject => 3
  | .core => 4

def ElfIsa.toU16 : ElfIsa → ℕ
  | .none => 0x00
  | .sparc => 0x02
  | .x86 => 0x03
  | .mips => 0x08
  | .ppc => 0x14
  | .arm => 0x28
  | .superH => 0x2A
  | .ia64 => 0x32
  | .amd64 => 0x3E
  | .aarch64 => 0xB7
  | .riscv => 0xF3

def ProgramHeaderType.toU32 : ProgramHeaderType → ℕ
  | .null => 0
  | .load => 1
  | .dynamic => 2
  | .interpreter => 3
  | .note => 4
  | .shlib => 5
  | .phdr => 6
  | .gnuStack => 0x6474e551
  | .relro => 0x6474e552
  | .other value => value

/-- The bytes of an ELF header. -/
def ElfHeader.encode (h : ElfHeader) : List Byte :=
  let uint := h.endianness.bytes
  let word := h.endianness.bytes h.elfClass.wordSize
  h.magic ++ (uint 1 h.elfClass.toU8 ++ (uint 1 h.endianness.toU8 ++ (uint 1 h.version
    ++ (uint 1 h.osAbi ++ (h.reserved ++ (uint 2 h.objectType.toU16 ++ (uint 2 h.machine.toU16
    ++ (uint 4 h.version1 ++ (word h.entry ++ (word h.programHeaderOffset
    ++ (word h.sectionHeaderOffset ++ (uint 4 h.flags ++ (uint 2 h.headerSize
    ++ (uint 2 h.programHeaderEntrySize ++ (uint 2 h.programHeaderCount
    ++ (uint 2 h.sectionHeaderEntrySize ++ (uint 2 h.sectionHeaderCount
    ++ uint 2 h.sectionNameIndex)))))))))))))))))

/-- The fields have the values that the format has room for. -/
structure ElfHeader.Valid (h : ElfHeader) : Prop where
  magic : h.magic = [0x7f, 0x45, 0x4c, 0x46]
  version : h.version < 256 ^ 1
  osAbi : h.osAbi < 256 ^ 1
  reserved : h.reserved.length = 8
  version1 : h.version1 < 256 ^ 4
  entry : h.entry < 256 ^ h.elfClass.wordSize
  programHeaderOffset : h.programHeaderOffset < 256 ^ h.elfClass.wordSize
  sectionHeaderOffset : h.sectionHeaderOffset < 256 ^ h.elfClass.wordSize
  flags : h.flags < 256 ^ 4
  headerSize : h.headerSize = h.elfClass.headerSize
  programHeaderEntrySize : h.programHeaderEntrySize < 256 ^ 2
  programHeaderCount : h.programHeaderCount < 256 ^ 2
  sectionHeaderEntrySize : h.sectionHeaderEntrySize < 256 ^ 2
  sectionHeaderCount : h.sectionHeaderCount < 256 ^ 2
  sectionNameIndex : h.sectionNameIndex < 256 ^ 2

/-- The bytes of a program header; the flags stand where the class has them. -/
def ProgramHeader.encode (elfClass : ElfClass) (endianness : Endianness) (p : ProgramHeader) :
    List Byte :=
  let uint := endianness.bytes 4
  let word := endianness.bytes elfClass.wordSize
  match elfClass with
  | .elf32 => uint p.segmentType.toU32 ++ (word p.fileOffset ++ (word p.virtualAddress
      ++ (word p.physicalAddress ++ (word p.fileSize ++ (word p.memorySize ++ (uint p.flags
      ++ word p.alignment))))))
  | .elf64 => uint p.segmentType.toU32 ++ (uint p.flags ++ (word p.fileOffset
      ++ (word p.virtualAddress ++ (word p.physicalAddress ++ (word p.fileSize
      ++ (word p.memorySize ++ word p.alignment))))))

structure ProgramHeader.Valid (elfClass : ElfClass) (p : ProgramHeader) : Prop where
  known : ProgramHeaderType.fromU32 p.segmentType.toU32 = p.segmentType
  segmentType : p.segmentType.toU32 < 256 ^ 4
  flags : p.flags < 256 ^ 4
  fileOffset : p.fileOffset < 256 ^ elfClass.wordSize
  virtualAddress : p.virtualAddress < 256 ^ elfClass.wordSize
  physicalAddress : p.physicalAddress < 256 ^ elfClass.wordSize
  fileSize : p.fileSize < 256 ^ elfClass.wordSize
  memorySize : p.memorySize < 256 ^ elfClass.wordSize
  alignment : p.alignment < 256 ^ elfClass.wordSize

end Encoding

theorem ElfType.fromU16_toU16 (t : ElfType) : ElfType.fromU16 t.toU16 = some t := by
  cases t <;> rfl

theorem ElfIsa.fromU16_toU16 (isa : ElfIsa) : ElfIsa.fromU16 isa.toU16 = some isa := by
  cases isa <;> rfl

theorem Endianness.bytes_length (e : Endianness) (n v : ℕ) : (e.bytes n v).length = n := by
  cases e with
  | little => exact leBytes_length n v
  | big => rw [bytes, List.length_reverse, leBytes_length]

/-- The bytes of a number give it back in both orders. -/
theorem Endianness.value_bytes (e : Endianness) {n v : ℕ} (h : v < 256 ^ n) :
    e.value (e.bytes n v) = v := by
  cases e with
  | little => exact leValue_leBytes h
  | big =>
    rw [bytes, value, List.foldl_reverse]
    calc (leBytes n v).foldr (fun b v => 256 * v + b.toNat) 0 = leValue (leBytes n v) := by
          unfold leValue
          simp only [Nat.add_comm]
      _ = v := leValue_leBytes h

namespace Reader

variable {memory : ℕ → Byte} {r : Reader} {e : Endianness} {xs ys : List Byte}

/-- The bytes that a cursor has not read yet, and the order it reads them in. -/
structure Ahead (r : Reader) (memory : ℕ → Byte) (e : Endianness) (xs : List Byte) : Prop where
  order : r.endianness = e
  small : r.bytes.length < USIZE_END
  offset : r.offset ≤ r.bytes.length
  ahead : r.bytes.bytes memory r.offset (r.bytes.length - r.offset) = xs

theorem Ahead.readArray (h : r.Ahead memory e (xs ++ ys)) {n : ℕ} (hn : xs.length = n) :
    ∃ r', r.readArray memory n = some (xs, r') ∧ r'.Ahead memory e ys := by
  obtain ⟨bytes, offset, endianness⟩ := r
  obtain ⟨horder, hsmall, hoffset, hahead⟩ := h
  dsimp only at horder hsmall hoffset hahead
  have hlength : bytes.length - offset = n + ys.length := by
    have hcount := congrArg List.length hahead
    rw [List.length_append, hn] at hcount
    simpa [Slice.bytes] using hcount
  rw [hlength] at hahead
  refine ⟨⟨bytes, offset + n, endianness⟩, (readArray_eq (by omega) hsmall).trans ?_,
    ⟨horder, hsmall, ?_, ?_⟩⟩
  · rw [← bytes.bytes_take memory offset (Nat.le_add_right n ys.length), hahead, ← hn,
      List.take_left]
  · dsimp only
    omega
  · dsimp only
    rw [show bytes.length - (offset + n) = ys.length by omega,
      ← bytes.bytes_drop memory offset n, hahead, ← hn, List.drop_left]

/-- A read of bytes that are ahead, as the first step of a parser. -/
theorem Ahead.readArray_bind {α : Type} (h : r.Ahead memory e (xs ++ ys)) {n : ℕ}
    (hn : xs.length = n) {f : List Byte × Reader → Option α} {result : Option α}
    (hrest : ∀ r', r'.Ahead memory e ys → f (xs, r') = result) :
    (r.readArray memory n >>= f) = result := by
  obtain ⟨r', hread, h'⟩ := h.readArray hn
  rw [hread]
  exact hrest r' h'

/-- A read of a number that is ahead. -/
theorem Ahead.readUint_bind {α : Type} {n v : ℕ} (h : r.Ahead memory e (e.bytes n v ++ ys))
    (hv : v < 256 ^ n) {f : ℕ × Reader → Option α} {result : Option α}
    (hrest : ∀ r', r'.Ahead memory e ys → f (v, r') = result) :
    (r.readUint memory n >>= f) = result := by
  obtain ⟨r', hread, h'⟩ := h.readArray (e.bytes_length n v)
  rw [readUint, hread, h.order]
  change f (e.value (e.bytes n v), r') = result
  rw [e.value_bytes hv]
  exact hrest r' h'

theorem Ahead.readWord_bind {α : Type} {elfClass : ElfClass} {v : ℕ}
    (h : r.Ahead memory e (e.bytes elfClass.wordSize v ++ ys)) (hv : v < 256 ^ elfClass.wordSize)
    {f : ℕ × Reader → Option α} {result : Option α}
    (hrest : ∀ r', r'.Ahead memory e ys → f (v, r') = result) :
    (r.readWord memory elfClass >>= f) = result := by
  cases elfClass with
  | elf32 => exact h.readUint_bind hv hrest
  | elf64 => exact h.readUint_bind hv hrest

/-- A single byte is the same in both orders. -/
theorem Ahead.readU8_bind {α : Type} {e' : Endianness} {v : ℕ}
    (h : r.Ahead memory e (e'.bytes 1 v ++ ys)) (hv : v < 256 ^ 1)
    {f : ℕ × Reader → Option α} {result : Option α}
    (hrest : ∀ r', r'.Ahead memory e ys → f (v, r') = result) :
    (r.readU8 memory >>= f) = result := by
  have hsame : e'.bytes 1 v = e.bytes 1 v := by
    cases e <;> cases e' <;> rfl
  rw [hsame] at h
  exact h.readUint_bind hv hrest

theorem Ahead.setEndianness (h : r.Ahead memory e xs) (e' : Endianness) :
    (r.setEndianness e').Ahead memory e' xs :=
  ⟨rfl, h.small, h.offset, h.ahead⟩

end Reader

/-- Parsing an encoded header gives it back. -/
theorem ElfHeader.parse_encode {memory : ℕ → Byte} {file : Slice} {header : ElfHeader}
    {rest : List Byte} (hvalid : header.Valid) (hlength : file.length < USIZE_END)
    (hbytes : file.bytes memory 0 file.length = header.encode ++ rest) :
    ElfHeader.parse memory file = some header := by
  have h : (Reader.new file).Ahead memory .little (header.encode ++ rest) :=
    ⟨rfl, hlength, Nat.zero_le _, hbytes⟩
  unfold ElfHeader.encode at h
  simp only [List.append_assoc] at h
  unfold ElfHeader.parse
  refine h.readArray_bind (by rw [hvalid.magic]; rfl) fun r h => ?_
  dsimp only
  rw [if_neg (not_not.mpr hvalid.magic)]
  refine h.readU8_bind (by cases header.elfClass <;> decide) fun r h => ?_
  have hclass : ElfClass.fromU8 header.elfClass.toU8 = some header.elfClass := by
    cases header.elfClass <;> rfl
  dsimp only
  rw [hclass]
  refine h.readU8_bind (by cases header.endianness <;> decide) fun r h => ?_
  have hendianness : Endianness.fromU8 header.endianness.toU8 = some header.endianness := by
    cases header.endianness <;> rfl
  dsimp only
  rw [hendianness]
  replace h := h.setEndianness header.endianness
  refine h.readU8_bind hvalid.version fun r h => ?_
  refine h.readU8_bind hvalid.osAbi fun r h => ?_
  refine h.readArray_bind hvalid.reserved fun r h => ?_
  refine h.readUint_bind (by cases header.objectType <;> decide) fun r h => ?_
  dsimp only
  rw [ElfType.fromU16_toU16]
  refine h.readUint_bind (by cases header.machine <;> decide) fun r h => ?_
  dsimp only
  rw [ElfIsa.fromU16_toU16]
  refine h.readUint_bind hvalid.version1 fun r h => ?_
  refine h.readWord_bind hvalid.entry fun r h => ?_
  refine h.readWord_bind hvalid.programHeaderOffset fun r h => ?_
  refine h.readWord_bind hvalid.sectionHeaderOffset fun r h => ?_
  refine h.readUint_bind hvalid.flags fun r h => ?_
  refine h.readUint_bind ?_ fun r h => ?_
  · rw [hvalid.headerSize]
    cases header.elfClass <;> decide
  refine h.readUint_bind hvalid.programHeaderEntrySize fun r h => ?_
  refine h.readUint_bind hvalid.programHeaderCount fun r h => ?_
  refine h.readUint_bind hvalid.sectionHeaderEntrySize fun r h => ?_
  refine h.readUint_bind hvalid.sectionHeaderCount fun r h => ?_
  refine h.readUint_bind hvalid.sectionNameIndex fun r h => ?_
  exact if_neg (not_not.mpr hvalid.headerSize)

/-- Parsing an encoded program header gives it back. -/
theorem ProgramHeader.parse_encode {memory : ℕ → Byte} {bytes : Slice} {elfClass : ElfClass}
    {endianness : Endianness} {p : ProgramHeader} (hvalid : p.Valid elfClass)
    (hlength : bytes.length < USIZE_END)
    (hbytes : bytes.bytes memory 0 bytes.length = p.encode elfClass endianness) :
    ProgramHeader.parse memory bytes elfClass endianness = some p := by
  have h : ((Reader.new bytes).setEndianness endianness).Ahead memory endianness
      (p.encode elfClass endianness ++ []) :=
    ⟨rfl, hlength, Nat.zero_le _, by rw [List.append_nil]; exact hbytes⟩
  unfold ProgramHeader.parse
  cases elfClass with
  | elf32 =>
    unfold ProgramHeader.encode at h
    simp only [List.append_assoc] at h
    refine h.readUint_bind hvalid.segmentType fun r h => ?_
    refine h.readWord_bind hvalid.fileOffset fun r h => ?_
    refine h.readWord_bind hvalid.virtualAddress fun r h => ?_
    refine h.readWord_bind hvalid.physicalAddress fun r h => ?_
    refine h.readWord_bind hvalid.fileSize fun r h => ?_
    refine h.readWord_bind hvalid.memorySize fun r h => ?_
    refine h.readUint_bind hvalid.flags fun r h => ?_
    refine h.readWord_bind hvalid.alignment fun r h => ?_
    dsimp only
    rw [hvalid.known]
  | elf64 =>
    unfold ProgramHeader.encode at h
    simp only [List.append_assoc] at h
    refine h.readUint_bind hvalid.segmentType fun r h => ?_
    refine h.readUint_bind hvalid.flags fun r h => ?_
    refine h.readWord_bind hvalid.fileOffset fun r h => ?_
    refine h.readWord_bind hvalid.virtualAddress fun r h => ?_
    refine h.readWord_bind hvalid.physicalAddress fun r h => ?_
    refine h.readWord_bind hvalid.fileSize fun r h => ?_
    refine h.readWord_bind hvalid.memorySize fun r h => ?_
    refine h.readWord_bind hvalid.alignment fun r h => ?_
    dsimp only
    rw [hvalid.known]

theorem ProgramHeader.encode_length (elfClass : ElfClass) (endianness : Endianness)
    (p : ProgramHeader) : (p.encode elfClass endianness).length = elfClass.entrySize := by
  cases elfClass <;>
    simp [encode, ElfClass.wordSize, ElfClass.entrySize, Endianness.bytes_length]

namespace ProgramHeaders

variable {memory : ℕ → Byte} {headers : ProgramHeaders}

/-- A full table yields one item for each header it reports. -/
theorem yields_full (h : headers.Full) : ∃ last, Yields (next memory) headers
    ((List.range headers.remaining).map fun i => ProgramHeader.parse memory (headers.header i)
      headers.elfClass headers.endianness) last := by
  generalize hn : headers.remaining = n
  induction n generalizing headers with
  | zero => exact ⟨headers, .done (if_pos hn)⟩
  | succ n ih =>
    obtain ⟨rest, hnext, htail⟩ := @next_full memory headers h (by omega)
    have hremaining := htail.remaining
    obtain ⟨last, hyields⟩ := ih htail.full (by omega)
    simp only [htail.header, htail.elfClass, htail.endianness] at hyields
    rw [List.range_succ_eq_map, List.map_cons, List.map_map]
    exact ⟨last, .item hnext hyields⟩

/-- After any number of calls the table is full and inside the one at the start. -/
theorem iterate_full (h : headers.Full) (k : ℕ) :
    ((fun s => (next memory s).2)^[k] headers).Full
      ∧ ((fun s => (next memory s).2)^[k] headers).bytes.Inside headers.bytes := by
  induction k with
  | zero => exact ⟨h, Nat.le_refl _, Nat.le_refl _⟩
  | succ k ih =>
    rw [Function.iterate_succ_apply']
    generalize (fun s => (next memory s).2)^[k] headers = state at ih
    obtain ⟨hfull, hinside⟩ := ih
    by_cases hzero : state.remaining = 0
    · have hnext : next memory state = (none, state) := if_pos hzero
      rw [hnext]
      exact ⟨hfull, hinside⟩
    · obtain ⟨rest, hnext, htail⟩ := @next_full memory state hfull hzero
      rw [hnext]
      exact ⟨htail.full, htail.inside.trans hinside⟩

end ProgramHeaders

section Local

variable {memory other : ℕ → Byte} {file : Slice}

/-- Two memories with the same bytes in the file. -/
def Same (file : Slice) (memory other : ℕ → Byte) : Prop :=
  ∀ p, file.start ≤ p → p < file.start + file.length → memory p = other p

theorem Same.inside (h : Same file memory other) {bytes : Slice} (hinside : bytes.Inside file) :
    Same bytes memory other := by
  intro p hstart hend
  obtain ⟨hstart', hend'⟩ := hinside
  exact h p (by omega) (by omega)

/-- A cursor reads inside its bytes only. -/
theorem Same.readArray {r : Reader} (h : Same r.bytes memory other) (n : ℕ) :
    r.readArray memory n = r.readArray other n
      ∧ ∀ v, r.readArray memory n = some v → v.2.bytes = r.bytes := by
  unfold Reader.readArray Dusk.Elf.getRange
  cases hstop : checkedAdd r.offset n with
  | none => exact ⟨rfl, nofun⟩
  | some stop =>
    have hsum : stop = r.offset + n := by
      unfold checkedAdd at hstop
      split_ifs at hstop
      exact (Option.some.inj hstop).symm
    by_cases hrange : r.offset ≤ stop ∧ stop ≤ r.bytes.length
    · simp only [Option.bind_eq_bind, Option.bind_some, if_pos hrange]
      constructor
      · congr 2
        unfold Slice.bytes
        apply List.map_congr_left
        intro i hi
        rw [List.mem_range] at hi
        apply h
        · dsimp only [Slice.sub]
          omega
        · dsimp only [Slice.sub]
          omega
      · intro v hv
        cases hv
        rfl
    · simp only [Option.bind_eq_bind, Option.bind_some, if_neg hrange, Option.bind_none]
      exact ⟨trivial, nofun⟩

/-- A read as the first step of a parser that goes on inside the same bytes. -/
theorem Same.readArray_bind {α : Type} (h : Same file memory other) {r : Reader}
    (hr : r.bytes = file) {n : ℕ} {f g : List Byte × Reader → Option α}
    (hrest : ∀ bs r', r'.bytes = file → f (bs, r') = g (bs, r')) :
    (r.readArray memory n >>= f) = (r.readArray other n >>= g) := by
  subst hr
  obtain ⟨heq, hsame⟩ := h.readArray n
  rw [← heq]
  cases hread : r.readArray memory n with
  | none => rfl
  | some v => exact hrest v.1 v.2 (hsame v hread)

theorem Same.readUint_bind {α : Type} (h : Same file memory other) {r : Reader}
    (hr : r.bytes = file) {n : ℕ} {f g : ℕ × Reader → Option α}
    (hrest : ∀ v r', r'.bytes = file → f (v, r') = g (v, r')) :
    (r.readUint memory n >>= f) = (r.readUint other n >>= g) := by
  subst hr
  obtain ⟨heq, hsame⟩ := h.readArray n
  unfold Reader.readUint
  rw [← heq]
  cases hread : r.readArray memory n with
  | none => rfl
  | some v => exact hrest _ v.2 (hsame v hread)

theorem Same.readWord_bind {α : Type} (h : Same file memory other) {r : Reader}
    (hr : r.bytes = file) {elfClass : ElfClass} {f g : ℕ × Reader → Option α}
    (hrest : ∀ v r', r'.bytes = file → f (v, r') = g (v, r')) :
    (r.readWord memory elfClass >>= f) = (r.readWord other elfClass >>= g) := by
  cases elfClass with
  | elf32 => exact h.readUint_bind hr hrest
  | elf64 => exact h.readUint_bind hr hrest

/-- The header depends on bytes of the file only. -/
theorem Same.parse (h : Same file memory other) :
    ElfHeader.parse memory file = ElfHeader.parse other file := by
  unfold ElfHeader.parse
  refine h.readArray_bind rfl fun magic r hr => ?_
  dsimp only
  by_cases hmagic : magic = [0x7f, 0x45, 0x4c, 0x46]
  swap
  · rw [if_pos hmagic, if_pos hmagic]
  rw [if_neg (not_not.mpr hmagic), if_neg (not_not.mpr hmagic)]
  refine h.readUint_bind hr fun byte r hr => ?_
  dsimp only
  cases ElfClass.fromU8 byte with
  | none => rw [Option.bind_eq_bind, Option.bind_eq_bind, Option.bind_none, Option.bind_none]
  | some elfClass =>
    rw [Option.bind_eq_bind, Option.bind_eq_bind, Option.bind_some, Option.bind_some]
    refine h.readUint_bind hr fun byte r hr => ?_
    dsimp only
    cases Endianness.fromU8 byte with
    | none => rw [Option.bind_eq_bind, Option.bind_eq_bind, Option.bind_none, Option.bind_none]
    | some endianness =>
      rw [Option.bind_eq_bind, Option.bind_eq_bind, Option.bind_some, Option.bind_some]
      replace hr : (r.setEndianness endianness).bytes = file := hr
      refine h.readUint_bind hr fun version r hr => ?_
      refine h.readUint_bind hr fun osAbi r hr => ?_
      refine h.readArray_bind hr fun reserved r hr => ?_
      refine h.readUint_bind hr fun value r hr => ?_
      dsimp only
      cases ElfType.fromU16 value with
      | none => rw [Option.bind_eq_bind, Option.bind_eq_bind, Option.bind_none, Option.bind_none]
      | some objectType =>
        rw [Option.bind_eq_bind, Option.bind_eq_bind, Option.bind_some, Option.bind_some]
        refine h.readUint_bind hr fun value r hr => ?_
        dsimp only
        cases ElfIsa.fromU16 value with
        | none => rw [Option.bind_none, Option.bind_none]
        | some machine =>
          rw [Option.bind_some, Option.bind_some]
          refine h.readUint_bind hr fun version1 r hr => ?_
          refine h.readWord_bind hr fun entry r hr => ?_
          refine h.readWord_bind hr fun programHeaderOffset r hr => ?_
          refine h.readWord_bind hr fun sectionHeaderOffset r hr => ?_
          refine h.readUint_bind hr fun flags r hr => ?_
          refine h.readUint_bind hr fun headerSize r hr => ?_
          refine h.readUint_bind hr fun programHeaderEntrySize r hr => ?_
          refine h.readUint_bind hr fun programHeaderCount r hr => ?_
          refine h.readUint_bind hr fun sectionHeaderEntrySize r hr => ?_
          refine h.readUint_bind hr fun sectionHeaderCount r hr => ?_
          refine h.readUint_bind hr fun sectionNameIndex r hr => ?_
          rfl

/-- A program header depends on its own bytes only. -/
theorem Same.parse_programHeader {bytes : Slice} (h : Same bytes memory other)
    (elfClass : ElfClass) (endianness : Endianness) :
    ProgramHeader.parse memory bytes elfClass endianness
      = ProgramHeader.parse other bytes elfClass endianness := by
  have hr : ((Reader.new bytes).setEndianness endianness).bytes = bytes := rfl
  unfold ProgramHeader.parse
  refine h.readUint_bind hr fun value r hr => ?_
  cases elfClass with
  | elf32 =>
    refine h.readWord_bind hr fun fileOffset r hr => ?_
    refine h.readWord_bind hr fun virtualAddress r hr => ?_
    refine h.readWord_bind hr fun physicalAddress r hr => ?_
    refine h.readWord_bind hr fun fileSize r hr => ?_
    refine h.readWord_bind hr fun memorySize r hr => ?_
    refine h.readUint_bind hr fun flags r hr => ?_
    refine h.readWord_bind hr fun alignment r hr => ?_
    rfl
  | elf64 =>
    refine h.readUint_bind hr fun flags r hr => ?_
    refine h.readWord_bind hr fun fileOffset r hr => ?_
    refine h.readWord_bind hr fun virtualAddress r hr => ?_
    refine h.readWord_bind hr fun physicalAddress r hr => ?_
    refine h.readWord_bind hr fun fileSize r hr => ?_
    refine h.readWord_bind hr fun memorySize r hr => ?_
    refine h.readWord_bind hr fun alignment r hr => ?_
    rfl

/-- A call of `next` depends on the bytes of the table only. -/
theorem Same.next {headers : ProgramHeaders} (h : Same headers.bytes memory other) :
    headers.next memory = headers.next other := by
  unfold ProgramHeaders.next
  cases hrange : Dusk.Elf.getRange headers.bytes 0 headers.entrySize with
  | none => rfl
  | some entry =>
    have hinside : entry.Inside headers.bytes := by
      unfold Dusk.Elf.getRange at hrange
      split_ifs at hrange with hbounds
      cases hrange
      constructor
      · exact Nat.le_add_right _ _
      · dsimp only [Slice.sub]
        omega
    dsimp only
    rw [(h.inside hinside).parse_programHeader]

end Local

/-- An element of a list of encodings of the same length. -/
theorem take_drop_flatMap {α : Type} {f : α → List Byte} {k : ℕ} (hf : ∀ a, (f a).length = k)
    (xs : List α) {i : ℕ} (hi : i < xs.length) :
    ((xs.flatMap f).drop (k * i)).take k = f xs[i] := by
  induction xs generalizing i with
  | nil => simp at hi
  | cons x xs ih =>
    rw [List.flatMap_cons]
    cases i with
    | zero =>
      rw [Nat.mul_zero, List.drop_zero, ← hf x, List.take_left]
      rfl
    | succ i =>
      have hdrop : (f x ++ xs.flatMap f).drop k = xs.flatMap f := List.drop_left' (hf x)
      rw [Nat.mul_succ, Nat.add_comm, ← List.drop_drop, hdrop, ih (Nat.lt_of_succ_lt_succ hi)]
      rfl

/-- The program headers of an encoded table are read back in order. -/
theorem Elf.programHeaders_encode {memory : ℕ → Byte} {elf : Elf} {entries : List ProgramHeader}
    (hlength : elf.bytes.length < USIZE_END)
    (hsize : elf.header.programHeaderEntrySize = elf.header.elfClass.entrySize)
    (hcount : elf.header.programHeaderCount = entries.length)
    (hvalid : ∀ entry ∈ entries, entry.Valid elf.header.elfClass)
    (hinside : elf.header.programHeaderOffset + elf.header.elfClass.entrySize * entries.length
      ≤ elf.bytes.length)
    (hbytes : elf.bytes.bytes memory elf.header.programHeaderOffset
        (elf.header.elfClass.entrySize * entries.length)
      = entries.flatMap (ProgramHeader.encode elf.header.elfClass elf.header.endianness)) :
    ∃ headers last, elf.programHeaders = some headers
      ∧ Yields (ProgramHeaders.next memory) headers (entries.map some) last := by
  generalize hheaders : (⟨elf.bytes.sub elf.header.programHeaderOffset
      (elf.header.elfClass.entrySize * entries.length), elf.header.elfClass,
      elf.header.endianness, elf.header.elfClass.entrySize, entries.length⟩ : ProgramHeaders)
    = headers
  have hsome : elf.programHeaders = some headers := by
    have hmul : checkedMul elf.header.elfClass.entrySize entries.length
        = some (elf.header.elfClass.entrySize * entries.length) := if_pos (by omega)
    have hadd : checkedAdd elf.header.programHeaderOffset
        (elf.header.elfClass.entrySize * entries.length)
        = some (elf.header.programHeaderOffset
          + elf.header.elfClass.entrySize * entries.length) := if_pos (by omega)
    have hget : Dusk.Elf.getRange elf.bytes elf.header.programHeaderOffset
        (elf.header.programHeaderOffset + elf.header.elfClass.entrySize * entries.length)
        = some (elf.bytes.sub elf.header.programHeaderOffset
          (elf.header.elfClass.entrySize * entries.length)) := by
      unfold Dusk.Elf.getRange
      rw [if_pos ⟨by omega, hinside⟩, Nat.add_sub_cancel_left]
    simp [Elf.programHeaders, hsize, hcount, hmul, hadd, hget, hheaders]
  have hfull : headers.Full := Elf.programHeaders_full hsome
  obtain ⟨last, hyields⟩ := @ProgramHeaders.yields_full memory headers hfull
  refine ⟨headers, last, hsome, ?_⟩
  have hitems : ((List.range headers.remaining).map fun i => ProgramHeader.parse memory
      (headers.header i) headers.elfClass headers.endianness) = entries.map some := by
    subst hheaders
    apply List.ext_getElem
    · simp
    intro i hi hi'
    have hlt : i < entries.length := by simpa using hi'
    rw [List.getElem_map, List.getElem_map, List.getElem_range]
    apply ProgramHeader.parse_encode (hvalid _ (List.getElem_mem hlt))
    · dsimp only [ProgramHeaders.header, Slice.sub]
      cases elf.header.elfClass <;> decide
    · have hmul : elf.header.elfClass.entrySize * i + elf.header.elfClass.entrySize
          ≤ elf.header.elfClass.entrySize * entries.length := by
        rw [← Nat.mul_succ]
        exact Nat.mul_le_mul_left _ hlt
      have hlengths := ProgramHeader.encode_length elf.header.elfClass elf.header.endianness
      have hslice := take_drop_flatMap hlengths entries hlt
      rw [← hbytes, Slice.bytes_slice _ _ _ hmul] at hslice
      rw [← hslice]
      unfold ProgramHeaders.header
      dsimp only
      rw [Slice.sub_bytes, Slice.sub_bytes, Nat.add_zero]
      rfl
  rw [← hitems]
  exact hyields

/-- The server's ELF reader. An encoded header is read back, and so are the program headers
of an encoded table. In any other file the table that `program_headers` gives lies inside the
file, yields only headers and as many of them as it reports, and nothing outside is read. -/
theorem elf_reader_inverts (memory : ℕ → Byte) (file : Slice) (hlength : file.length ≤ ISIZE_MAX) :
    (∀ header rest, header.Valid → file.bytes memory 0 file.length = header.encode ++ rest →
      Elf.parse memory file = some ⟨file, header⟩)
    ∧ (∀ (elf : Elf) (entries : List ProgramHeader), Elf.parse memory file = some elf →
      elf.header.programHeaderEntrySize = elf.header.elfClass.entrySize →
      elf.header.programHeaderCount = entries.length →
      (∀ entry ∈ entries, entry.Valid elf.header.elfClass) →
      elf.header.programHeaderOffset + elf.header.elfClass.entrySize * entries.length
        ≤ file.length →
      file.bytes memory elf.header.programHeaderOffset
          (elf.header.elfClass.entrySize * entries.length)
        = entries.flatMap (ProgramHeader.encode elf.header.elfClass elf.header.endianness) →
      ∃ headers last, elf.programHeaders = some headers
        ∧ Yields (ProgramHeaders.next memory) headers (entries.map some) last)
    ∧ (∀ (elf : Elf) headers, Elf.parse memory file = some elf → elf.programHeaders = some headers →
      ∀ calls, ∃ state, (fun s => (ProgramHeaders.next memory s).2)^[calls] headers = state
        ∧ state.bytes.Inside file
        ∧ ∃ items last, Yields (ProgramHeaders.next memory) state items last
          ∧ state.sizeHint = (items.length, some items.length)
          ∧ ∀ item ∈ items, item.isSome = true)
    ∧ ∀ other, Same file memory other → Elf.parse memory file = Elf.parse other file
      ∧ ∀ headers : ProgramHeaders, headers.bytes.Inside file →
        headers.next memory = headers.next other := by
  have hsmall : file.length < USIZE_END := by
    simp only [ISIZE_MAX] at hlength
    simp only [USIZE_END]
    omega
  refine ⟨?_, ?_, ?_, ?_⟩
  · intro header rest hvalid hbytes
    rw [Elf.parse, ElfHeader.parse_encode hvalid hsmall hbytes, Option.map_some]
  · intro elf entries helf hsize hcount hvalid hinside hbytes
    have hfile : elf.bytes = file := Elf.parse_bytes helf
    subst hfile
    exact Elf.programHeaders_encode hsmall hsize hcount hvalid hinside hbytes
  · intro elf headers helf hheaders calls
    have hfile : elf.bytes = file := Elf.parse_bytes helf
    subst hfile
    have hfull := Elf.programHeaders_full hheaders
    obtain ⟨hstate, hinside⟩ := @ProgramHeaders.iterate_full memory headers hfull calls
    obtain ⟨last, hyields⟩ := @ProgramHeaders.yields_full memory _ hstate
    have htable : headers.bytes.Inside elf.bytes := by
      obtain ⟨-, hend, rfl⟩ := Elf.programHeaders_some hheaders
      refine ⟨Nat.le_add_right _ _, ?_⟩
      dsimp only [Slice.sub] at hend ⊢
      omega
    refine ⟨_, rfl, hinside.trans htable, _, last, hyields, ?_, ?_⟩
    · unfold ProgramHeaders.sizeHint
      rw [List.length_map, List.length_range]
    · intro item hitem
      rw [List.mem_map] at hitem
      obtain ⟨i, -, rfl⟩ := hitem
      rw [Option.isSome_iff_exists]
      exact ProgramHeader.parse_isSome hstate.1
  · intro other hsame
    refine ⟨?_, fun headers hinside => (hsame.inside hinside).next⟩
    rw [Elf.parse, Elf.parse, hsame.parse]

/-- A 32-bit big-endian file with one segment. -/
def smallHeader : ElfHeader :=
  ⟨[0x7f, 0x45, 0x4c, 0x46], .elf32, .big, 1, 0, List.replicate 8 0, .executable, .ppc, 1,
    0x400000, 52, 0, 0, 52, 32, 1, 0, 0, 0⟩

def smallSegment : ProgramHeader := ⟨.load, 5, 0, 0x400000, 0x400000, 84, 84, 4096⟩

def smallFile (p : ℕ) : Byte := (smallHeader.encode ++ smallSegment.encode .elf32 .big).getD p 0

theorem elf_reader_inverts_small :
    Elf.parse smallFile ⟨0, 84⟩ = some ⟨⟨0, 84⟩, smallHeader⟩
    ∧ ∃ headers last, (⟨⟨0, 84⟩, smallHeader⟩ : Elf).programHeaders = some headers
      ∧ Yields (ProgramHeaders.next smallFile) headers [some smallSegment] last := by
  obtain ⟨hheader, hentries, -⟩ := elf_reader_inverts smallFile ⟨0, 84⟩ (by decide)
  have hparse := hheader smallHeader (smallSegment.encode .elf32 .big)
    (by constructor <;> decide) (by decide +kernel)
  exact ⟨hparse, hentries _ [smallSegment] hparse rfl rfl
    (by simpa using by constructor <;> decide) (by decide) (by decide +kernel)⟩

end Omega3

end Dusk
