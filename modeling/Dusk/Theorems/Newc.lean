import Dusk.Model.Cpio
import Dusk.Theorems.Archive

/-! The kernel's reader of the boot archive: it has no fault on any bytes, and on an
encoded archive it finds the first file with the name. -/

namespace Dusk

open Lib

namespace Cpio

/-- The file that an iteration of the loop ends with. -/
def Entry.answer : Entry → Option Slice
  | .found file => some file
  | _ => none

theorem hexDigit_lt {b : Byte} {d : ℕ} (h : hexDigit b = some d) : d < 16 ∧ b.toNat < 0x80 := by
  unfold hexDigit at h
  dsimp only at h
  split_ifs at h with hdec hupper hlower
  · cases h
    omega
  · cases h
    omega
  · cases h
    omega

theorem hexDigits_lt {bs : List Byte} {start v : ℕ} (h : hexDigits bs start = some v) :
    v < (start + 1) * 16 ^ bs.length ∧ ∀ b ∈ bs, b.toNat < 0x80 := by
  induction bs generalizing start with
  | nil =>
    cases h
    simp
  | cons b bs ih =>
    unfold hexDigits at h
    rw [Option.bind_eq_some_iff] at h
    obtain ⟨d, hd, hrest⟩ := h
    obtain ⟨hvalue, hsmall⟩ := ih hrest
    obtain ⟨hdigit, hbyte⟩ := hexDigit_lt hd
    constructor
    · have hstart : 16 * start + d + 1 ≤ (start + 1) * 16 := by omega
      calc v < (16 * start + d + 1) * 16 ^ bs.length := hvalue
        _ ≤ (start + 1) * 16 * 16 ^ bs.length := Nat.mul_le_mul_right _ hstart
        _ = (start + 1) * 16 ^ (bs.length + 1) := by rw [pow_succ]; ring
    · rw [List.forall_mem_cons]
      exact ⟨hbyte, hsmall⟩

/-- A number that is read is one of bytes below 128, and has as many digits as there are bytes. -/
theorem fromStrRadix_lt {bs : List Byte} {v : ℕ} (h : fromStrRadix bs = some v) :
    v < 16 ^ bs.length ∧ ∀ b ∈ bs, b.toNat < 0x80 := by
  unfold fromStrRadix at h
  split at h
  · cases h
  · obtain ⟨hv, hb⟩ := hexDigits_lt h
    exact ⟨by simpa using hv, hb⟩
  · rename_i b bs _
    split_ifs at h with hplus
    · obtain ⟨hv, hb⟩ := hexDigits_lt h
      refine ⟨?_, ?_⟩
      · calc v < 16 ^ bs.length := by simpa using hv
          _ ≤ 16 ^ (bs.length + 1) := Nat.pow_le_pow_right (by decide) (Nat.le_succ _)
      · rw [List.forall_mem_cons]
        exact ⟨by rw [hplus]; decide, hb⟩
    · obtain ⟨hv, hb⟩ := hexDigits_lt h
      exact ⟨by simpa using hv, hb⟩

theorem isUtf8_of_ascii {bs : List Byte} (h : ∀ b ∈ bs, b.toNat < 0x80) : isUtf8 bs = true := by
  induction bs with
  | nil => rfl
  | cons b bs ih =>
    rw [List.forall_mem_cons] at h
    unfold isUtf8
    dsimp only
    rw [if_pos h.1]
    exact ih h.2

namespace Checked

theorem add_ok {a b : ℕ} (h : a + b < USIZE_END) : add a b = .ok (a + b) := if_pos h

theorem index_ok {s : Slice} {start stop : ℕ} (h : start ≤ stop) (h' : stop ≤ s.length) :
    index s start stop = .ok (s.sub start (stop - start)) := if_pos ⟨h, h'⟩

/-- A header that fits is read inside the archive. -/
theorem fromBytes_ok {read : ℕ → Byte} {a : Slice} {offset : ℕ}
    (h : offset + HEADER_SIZE ≤ a.length) :
    Header.fromBytes read (a.sub offset (a.length - offset)) = .ok
      (if a.bytes read offset 6 ≠ strBytes "070701" then none else
        some ⟨a.bytes read offset 6, a.bytes read (offset + 54) 8,
          a.bytes read (offset + 94) 8⟩) := by
  have hlength : (a.sub offset (a.length - offset)).length = a.length - offset := rfl
  unfold Header.fromBytes
  rw [hlength, if_neg (by omega), index_ok (Nat.zero_le _) (by rw [hlength]; omega)]
  simp only [Except.bind, bind, Slice.sub_bytes, Nat.add_zero, Nat.zero_add]
  split_ifs
  · rfl
  · rfl

variable {read : ℕ → Byte} {a : Slice} {target : List Byte}

/-- One iteration: it is the unchecked one, whatever the bytes. -/
theorem findFrom_succ (hlength : a.length ≤ ISIZE_MAX) {offset fuel : ℕ}
    (hoffset : offset ≤ a.length + 3) :
    findFrom read a target offset (fuel + 1) =
      match entry read a target offset with
      | .skip next => findFrom read a target next fuel
      | result => .ok result.answer := by
  have hmax : a.length + HEADER_SIZE + 2 ^ 40 < USIZE_END := by
    simp only [ISIZE_MAX] at hlength
    simp only [HEADER_SIZE, USIZE_END]
    omega
  unfold entry
  conv_lhs => unfold findFrom
  rw [add_ok (by simp only [HEADER_SIZE] at hmax ⊢; omega)]
  by_cases hheader : offset + HEADER_SIZE ≤ a.length
  swap
  · simp only [Except.bind, bind, if_pos hheader]
    rfl
  simp only [Except.bind, bind, if_neg (not_not.mpr hheader), if_neg (not_lt.mpr hheader)]
  rw [index_ok (by omega) (Nat.le_refl _)]
  dsimp only
  rw [fromBytes_ok hheader]
  by_cases hmagic : a.bytes read offset 6 = strBytes "070701"
  swap
  · rw [if_pos hmagic, if_pos hmagic]
    rfl
  rw [if_neg (not_not.mpr hmagic), if_neg (not_not.mpr hmagic)]
  dsimp only
  cases hfile : fromStrRadix (a.bytes read (offset + 54) 8) with
  | none =>
    dsimp only
    split_ifs
    · rfl
    · rfl
  | some fileLen =>
    obtain ⟨hfileLen, hfileAscii⟩ := fromStrRadix_lt hfile
    rw [isUtf8_of_ascii hfileAscii]
    dsimp only
    rw [if_neg (by decide)]
    cases hname : fromStrRadix (a.bytes read (offset + 94) 8) with
    | none =>
      dsimp only
      split_ifs
      · rfl
      · rfl
    | some nameLen =>
      obtain ⟨hnameLen, hnameAscii⟩ := fromStrRadix_lt hname
      rw [Slice.bytes_length] at hfileLen hnameLen
      rw [isUtf8_of_ascii hnameAscii]
      dsimp only
      rw [if_neg (by decide), add_ok (by omega)]
      by_cases hfits : offset + HEADER_SIZE + nameLen ≤ a.length
      swap
      · rw [if_pos (by omega)]
        dsimp only
        rw [if_pos (by omega)]
        rfl
      rw [if_neg (by omega)]
      dsimp only
      rw [if_neg (by omega), index_ok (by omega) (by omega)]
      dsimp only
      rw [Slice.sub_bytes, Nat.add_zero]
      cases isUtf8 (a.bytes read (offset + HEADER_SIZE) nameLen) with
      | false => rfl
      | true =>
      have htrue : ¬ (!true) = true := by decide
      rw [if_neg htrue, if_neg htrue]
      generalize trimEnd (a.bytes read (offset + HEADER_SIZE) nameLen) = name
      by_cases htrailer : name = strBytes "TRAILER!!!"
      · rw [if_pos htrailer, if_pos htrailer]
        rfl
      rw [if_neg htrailer, if_neg htrailer]
      have hround : offset + (HEADER_SIZE + nameLen + 3) / 4 * 4 ≤ a.length + 3 := by omega
      rw [add_ok (by omega)]
      dsimp only
      rw [add_ok (by omega)]
      dsimp only
      rw [add_ok (by omega)]
      dsimp only
      rw [add_ok (by omega)]
      dsimp only
      generalize offset + (HEADER_SIZE + nameLen + 3) / 4 * 4 = dataStart at hround
      by_cases hdata : dataStart + fileLen > a.length
      · rw [if_pos hdata, if_pos hdata]
        rfl
      rw [if_neg hdata, if_neg hdata]
      by_cases htarget : name = target
      · rw [if_pos htarget, if_pos htarget, index_ok (by omega) (by omega), Nat.add_sub_cancel_left]
        rfl
      · rw [if_neg htarget, if_neg htarget, add_ok (by omega)]
        dsimp only
        rw [add_ok (by omega)]

/-- Enough iterations: the answer of the unchecked loop. -/
theorem findFrom_eq (hlength : a.length ≤ ISIZE_MAX) (extra : ℕ) {offset fuel : ℕ}
    (hoffset : offset ≤ a.length + 3) (hfuel : a.length < offset + HEADER_SIZE * (fuel + 1)) :
    findFrom read a target offset (fuel + extra + 1)
      = .ok (Cpio.findFrom read a target offset (fuel + 1)).answer := by
  induction fuel generalizing offset with
  | zero =>
    rw [findFrom_succ hlength hoffset, Cpio.findFrom]
    have hrefused : entry read a target offset = .refused := by
      unfold entry
      rw [if_pos (by omega)]
    rw [hrefused]
  | succ fuel ih =>
    rw [findFrom_succ hlength hoffset, Cpio.findFrom]
    cases hentry : entry read a target offset with
    | refused => rfl
    | trailer => rfl
    | found file => rfl
    | skip next =>
      obtain ⟨fileLen, nameLen, hread, hcases⟩ := entry_cases (h := by rw [hentry]; simp)
      rw [hentry] at hcases
      obtain ⟨-, heq⟩ | ⟨-, -, -, heq⟩ | ⟨-, hdata, -, heq⟩ := hcases
      · cases heq
      · cases heq
      · cases heq
        have hround : HEADER_SIZE ≤ (HEADER_SIZE + nameLen + 3) / 4 * 4 := by omega
        rw [Nat.add_right_comm fuel 1 extra]
        exact ih (by omega) (by rw [Nat.mul_succ] at hfuel; omega)

end Checked

/-- A file that is found lies inside the archive. -/
theorem findFrom_inside {read : ℕ → Byte} {a : Slice} {target : List Byte} {offset fuel : ℕ}
    {file : Slice} (h : findFrom read a target offset fuel = .found file) : file.Inside a := by
  induction fuel generalizing offset with
  | zero => cases h
  | succ fuel ih =>
    unfold findFrom at h
    cases hentry : entry read a target offset with
    | refused =>
      rw [hentry] at h
      cases h
    | trailer =>
      rw [hentry] at h
      cases h
    | skip next =>
      rw [hentry] at h
      exact ih h
    | found file' =>
      rw [hentry] at h
      cases h
      obtain ⟨fileLen, nameLen, -, hcases⟩ := entry_cases (h := by rw [hentry]; simp)
      rw [hentry] at hcases
      obtain ⟨-, heq⟩ | ⟨-, hdata, -, heq⟩ | ⟨-, -, -, heq⟩ := hcases
      · cases heq
      · cases heq
        constructor
        · exact Nat.le_add_right _ _
        · dsimp only [Slice.sub]
          omega
      · cases heq

section Utf8

theorem strBytes_eq (s : String) :
    strBytes s = (s.toList.flatMap String.utf8EncodeChar).map UInt8.toBitVec := by
  unfold strBytes
  rw [List.map_flatMap]

/-- Two strings with the same bytes are one. -/
theorem strBytes_injective : Function.Injective strBytes := by
  intro s t h
  rw [strBytes_eq, strBytes_eq] at h
  have hbytes : Function.Injective UInt8.toBitVec := fun _ _ => UInt8.toBitVec_inj.mp
  have hlist := List.map_injective_iff.mpr hbytes h
  have hencode : s.toList.utf8Encode = t.toList.utf8Encode := congrArg List.toByteArray hlist
  rw [← String.toByteArray_ofList, ← String.toByteArray_ofList, String.ofList_toList,
    String.ofList_toList] at hencode
  exact String.toByteArray_inj.mp hencode

/-- The value of a byte of an encoded character. -/
theorem toNat_ofNat_byte {n : ℕ} (h : n < 256) : (UInt8.ofNat n).toBitVec.toNat = n := by
  simp
  omega

/-- `from_utf8` gets past an encoded character. -/
theorem isUtf8_encodeChar (c : Char) (bs : List Byte) :
    isUtf8 ((String.utf8EncodeChar c).map UInt8.toBitVec ++ bs) = isUtf8 bs := by
  have hvalid : c.val.toNat < 0xD800 ∨ 0xDFFF < c.val.toNat ∧ c.val.toNat < 0x110000 := c.valid
  unfold String.utf8EncodeChar
  generalize c.val.toNat = v at hvalid
  dsimp only
  -- one case for each number of bytes
  by_cases hone : v ≤ 0x7F
  · rw [if_pos hone]
    simp only [List.map_cons, List.map_nil, List.cons_append, List.nil_append]
    conv_lhs => unfold isUtf8
    rw [toNat_ofNat_byte (by omega)]
    dsimp only
    rw [if_pos (by omega)]
  rw [if_neg hone]
  by_cases htwo : v ≤ 0x7FF
  · rw [if_pos htwo]
    simp only [List.map_cons, List.map_nil, List.cons_append, List.nil_append]
    conv_lhs => unfold isUtf8
    rw [toNat_ofNat_byte (by omega)]
    dsimp only
    rw [toNat_ofNat_byte (by omega), if_neg (by omega), if_pos (by omega)]
    rw [decide_eq_true (by omega), Bool.true_and]
  rw [if_neg htwo]
  by_cases hthree : v ≤ 0xFFFF
  · rw [if_pos hthree]
    simp only [List.map_cons, List.map_nil, List.cons_append, List.nil_append]
    conv_lhs => unfold isUtf8
    rw [toNat_ofNat_byte (by omega)]
    dsimp only
    rw [toNat_ofNat_byte (by omega), toNat_ofNat_byte (by omega), if_neg (by omega),
      if_neg (by omega), if_pos (by omega), decide_eq_true (by split_ifs <;> omega),
      decide_eq_true (by omega), Bool.true_and, Bool.true_and]
  · rw [if_neg hthree]
    simp only [List.map_cons, List.map_nil, List.cons_append, List.nil_append]
    conv_lhs => unfold isUtf8
    rw [toNat_ofNat_byte (by omega)]
    dsimp only
    rw [toNat_ofNat_byte (by omega), toNat_ofNat_byte (by omega), toNat_ofNat_byte (by omega),
      if_neg (by omega), if_neg (by omega), if_neg (by omega), if_pos (by omega),
      decide_eq_true (by split_ifs <;> omega), decide_eq_true (by omega),
      decide_eq_true (by omega), Bool.true_and, Bool.true_and, Bool.true_and]

theorem isUtf8_strBytes (s : String) (bs : List Byte) :
    isUtf8 (strBytes s ++ bs) = isUtf8 bs := by
  unfold strBytes
  induction s.toList with
  | nil => rfl
  | cons c cs ih => rw [List.flatMap_cons, List.append_assoc, isUtf8_encodeChar, ih]

/-- The last byte of an encoded character is zero only for the character zero. -/
theorem getLast_encodeChar {c : Char} (h : c ≠ '\x00') :
    ((String.utf8EncodeChar c).map UInt8.toBitVec).getLast? ≠ some 0 := by
  have hvalid : c.val.toNat < 0xD800 ∨ 0xDFFF < c.val.toNat ∧ c.val.toNat < 0x110000 := c.valid
  have hzero : c.val.toNat ≠ 0 := fun hc => h (Char.ext (UInt32.toNat_inj.mp hc))
  unfold String.utf8EncodeChar
  generalize c.val.toNat = v at hvalid hzero
  have hbyte (n : ℕ) (hn : n < 256) (hpos : n ≠ 0) : (UInt8.ofNat n).toBitVec ≠ 0 := by
    intro heq
    have hnat := congrArg BitVec.toNat heq
    rw [toNat_ofNat_byte hn] at hnat
    exact hpos hnat
  dsimp only
  split_ifs with hone htwo hthree
  · simpa using hbyte _ (by omega) hzero
  · simpa using hbyte (v % 64 + 128) (by omega) (by omega)
  · simpa using hbyte (v % 64 + 128) (by omega) (by omega)
  · simpa using hbyte (v % 64 + 128) (by omega) (by omega)

/-- A name that does not end in a NUL keeps its bytes when the one after it is trimmed. -/
theorem trimEnd_name {s : String} (h : s.toList.getLast? ≠ some '\x00') :
    trimEnd (strBytes s ++ [0]) = strBytes s := by
  have hlast : (strBytes s).getLast? ≠ some 0 := by
    obtain hnil | ⟨cs, c, hcs⟩ := s.toList.eq_nil_or_concat
    · unfold strBytes
      rw [hnil]
      simp
    · unfold strBytes
      rw [hcs] at h ⊢
      have hc : c ≠ '\x00' := fun hc => h (by simp [hc])
      have hne : (String.utf8EncodeChar c).map UInt8.toBitVec ≠ [] := by
        simp
      rw [List.concat_eq_append, List.flatMap_append, List.flatMap_singleton, List.getLast?_append_of_ne_nil _ hne]
      exact getLast_encodeChar hc
  unfold trimEnd
  rw [List.reverse_append, List.reverse_singleton, List.singleton_append,
    List.dropWhile_cons_of_pos (by decide)]
  rw [List.getLast?_eq_head?_reverse] at hlast
  cases hrev : (strBytes s).reverse with
  | nil => simpa using hrev.symm
  | cons b bs =>
    rw [hrev] at hlast
    rw [List.dropWhile_cons_of_neg (by simpa using hlast), ← hrev, List.reverse_reverse]

end Utf8

section Newc

/-- A file of an archive: the name and the data, the numbers in the other fields of the
header, and the case of the digits. -/
structure File where
  name : String
  data : List Byte
  fields : ℕ → BitVec 32
  upper : Bool

def hexChar (upper : Bool) (d : ℕ) : Byte :=
  BitVec.ofNat 8 (if d < 10 then 0x30 + d else if upper then 0x37 + d else 0x57 + d)

/-- A number as eight hexadecimal digits. -/
def hexField (upper : Bool) (v : ℕ) : List Byte :=
  (List.range 8).map fun i => hexChar upper (v / 16 ^ (7 - i) % 16)

namespace File

/-- The bytes of the name with the NUL after it. -/
def nameBytes (file : File) : List Byte := strBytes file.name ++ [0]

/-- The number in a field of the header, `c_ino` being the first. -/
def number (file : File) (i : ℕ) : ℕ :=
  if i = 6 then file.data.length
  else if i = 11 then file.nameBytes.length
  else (file.fields i).toNat

def header (file : File) : List Byte :=
  strBytes "070701" ++ (List.range 13).flatMap fun i => hexField file.upper (file.number i)

end File

/-- The bytes up to the next multiple of four. -/
def padding (n : ℕ) : List Byte := List.replicate ((n + 3) / 4 * 4 - n) 0

/-- A file in the newc format. -/
def File.encode (file : File) : List Byte :=
  file.header ++ file.nameBytes ++ padding (HEADER_SIZE + file.nameBytes.length)
    ++ file.data ++ padding file.data.length

/-- What the format can hold. -/
structure File.Valid (file : File) : Prop where
  last : file.name.toList.getLast? ≠ some '\x00'
  nameSize : file.nameBytes.length < 2 ^ 32
  dataSize : file.data.length < 2 ^ 32

/-- Files laid end to end, then the trailer, then anything. -/
def encode (files : List File) (trailer : File) (rest : List Byte) : List Byte :=
  files.flatMap File.encode ++ (trailer.encode ++ rest)

theorem hexDigit_hexChar (upper : Bool) {d : ℕ} (h : d < 16) :
    hexDigit (hexChar upper d) = some d := by
  cases upper <;> interval_cases d <;> rfl

theorem hexChar_ne_plus (upper : Bool) {d : ℕ} (h : d < 16) : hexChar upper d ≠ 0x2B := by
  cases upper <;> interval_cases d <;> decide

theorem hexDigits_cons (upper : Bool) {d : ℕ} (h : d < 16) (bs : List Byte) (v : ℕ) :
    hexDigits (hexChar upper d :: bs) v = hexDigits bs (16 * v + d) := by
  rw [hexDigits, hexDigit_hexChar upper h, Option.bind_some]

/-- The reader gives back the number of a field. -/
theorem fromStrRadix_hexField (upper : Bool) {v : ℕ} (h : v < 2 ^ 32) :
    fromStrRadix (hexField upper v) = some v := by
  have hdigit (n : ℕ) : n % 16 < 16 := Nat.mod_lt _ (by decide)
  have hlist : hexField upper v = [hexChar upper (v / 268435456 % 16),
      hexChar upper (v / 16777216 % 16), hexChar upper (v / 1048576 % 16),
      hexChar upper (v / 65536 % 16), hexChar upper (v / 4096 % 16), hexChar upper (v / 256 % 16),
      hexChar upper (v / 16 % 16), hexChar upper (v / 1 % 16)] := rfl
  rw [hlist, fromStrRadix, if_neg (hexChar_ne_plus upper (hdigit _))]
  · rw [hexDigits_cons _ (hdigit _), hexDigits_cons _ (hdigit _), hexDigits_cons _ (hdigit _),
      hexDigits_cons _ (hdigit _), hexDigits_cons _ (hdigit _), hexDigits_cons _ (hdigit _),
      hexDigits_cons _ (hdigit _), hexDigits_cons _ (hdigit _), hexDigits]
    congr 1
    omega
  · exact nofun

theorem hexField_length (upper : Bool) (v : ℕ) : (hexField upper v).length = 8 := by
  simp [hexField]

theorem padding_length (n : ℕ) : n + (padding n).length = (n + 3) / 4 * 4 := by
  rw [padding, List.length_replicate]
  omega

end Newc

section Newc

variable {read : ℕ → Byte} {a : Slice} {target : List Byte} {offset : ℕ} {file : File}
  {rest : List Byte}

/-- A part of the bytes from `offset` on. -/
theorem bytes_middle {x y z : List Byte}
    (h : a.bytes read offset (a.length - offset) = x ++ (y ++ z)) {k n : ℕ}
    (hk : x.length = k) (hn : y.length = n) : a.bytes read (offset + k) n = y := by
  have hlength : a.length - offset = k + (n + z.length) := by
    rw [← a.bytes_length read offset (a.length - offset), h]
    simp [hk, hn]
  rw [hlength] at h
  rw [← a.bytes_slice read offset (show k + n ≤ k + (n + z.length) by omega), h, ← hk,
    List.drop_left, ← hn, List.take_left]

namespace File

/-- The header up to the size of the data, between the sizes, and the rest. -/
theorem header_eq (file : File) : ∃ x y z, x.length = 48 ∧ y.length = 32 ∧ z.length = 8
    ∧ file.header = strBytes "070701" ++ (x ++ (hexField file.upper file.data.length
      ++ (y ++ (hexField file.upper file.nameBytes.length ++ z)))) := by
  refine ⟨(List.range 6).flatMap fun i => hexField file.upper (file.number i),
    ((List.range 4).map (· + 7)).flatMap fun i => hexField file.upper (file.number i),
    hexField file.upper (file.number 12), ?_, ?_, hexField_length _ _, ?_⟩
  · simp [List.length_flatMap, hexField_length]
  · simp [List.length_flatMap, hexField_length, Function.comp_def]
  · have hrange : List.range 13 = List.range 6 ++ ([6] ++ ((List.range 4).map (· + 7)
        ++ ([11] ++ [12]))) := by decide
    unfold header
    rw [hrange, List.flatMap_append, List.flatMap_append, List.flatMap_append,
      List.flatMap_append, List.flatMap_singleton, List.flatMap_singleton,
      List.flatMap_singleton]
    rfl

theorem header_length (file : File) : file.header.length = HEADER_SIZE := by
  obtain ⟨x, y, z, hx, hy, hz, heq⟩ := file.header_eq
  have hmagic : (strBytes "070701").length = 6 := by decide
  rw [heq]
  simp only [List.length_append, hexField_length, hx, hy, hz, hmagic]
  rfl

/-- Where the data of a file stands. -/
def dataOffset (file : File) : ℕ := (HEADER_SIZE + file.nameBytes.length + 3) / 4 * 4

/-- What stands before the data. -/
def front (file : File) : List Byte :=
  file.header ++ (file.nameBytes ++ padding (HEADER_SIZE + file.nameBytes.length))

theorem encode_eq (file : File) :
    file.encode = file.front ++ (file.data ++ padding file.data.length) := by
  unfold encode front
  simp only [List.append_assoc]

theorem front_length (file : File) : file.front.length = file.dataOffset := by
  have hpad := padding_length (HEADER_SIZE + file.nameBytes.length)
  unfold front dataOffset
  rw [List.length_append, List.length_append, file.header_length]
  omega

theorem encode_length (file : File) :
    file.encode.length = file.dataOffset + (file.data.length + 3) / 4 * 4 := by
  rw [file.encode_eq, List.length_append, List.length_append, file.front_length,
    padding_length]

end File

/-- The bytes of a file in the archive: the header is readable, and the data are there. -/
theorem readable_of_encode (hvalid : file.Valid)
    (h : a.bytes read offset (a.length - offset) = file.encode ++ rest) :
    Readable read a offset file.data.length file.nameBytes.length
      ∧ a.bytes read (offset + HEADER_SIZE) file.nameBytes.length = file.nameBytes
      ∧ a.bytes read (offset + file.dataOffset) file.data.length = file.data
      ∧ offset + file.encode.length ≤ a.length := by
  have hlength : a.length - offset = file.encode.length + rest.length := by
    rw [← a.bytes_length read offset (a.length - offset), h, List.length_append]
  have hencode := file.encode_length
  have hnamed : HEADER_SIZE + file.nameBytes.length ≤ file.dataOffset := by
    unfold File.dataOffset
    omega
  have hpos : 0 < HEADER_SIZE := by decide
  rw [file.encode_eq, List.append_assoc, List.append_assoc] at h
  have hdata := bytes_middle h file.front_length rfl
  unfold File.front at h
  rw [List.append_assoc, List.append_assoc] at h
  have hname := bytes_middle h file.header_length rfl
  obtain ⟨x, y, z, hx, hy, hz, heq⟩ := file.header_eq
  have hmagic : (strBytes "070701").length = 6 := by decide
  rw [heq] at h
  simp only [List.append_assoc] at h
  have hbegin := bytes_middle (x := []) h rfl hmagic
  rw [← List.append_assoc] at h
  have hfileField := bytes_middle h (k := 54) (by simp [hmagic, hx]) (hexField_length _ _)
  rw [← List.append_assoc, ← List.append_assoc] at h
  have hnameField := bytes_middle h (k := 94) (by simp [hmagic, hx, hy, hexField_length])
    (hexField_length _ _)
  refine ⟨⟨by omega, hbegin, ?_, ?_, by omega, ?_⟩, hname, hdata, by omega⟩
  · rw [hfileField, fromStrRadix_hexField _ hvalid.dataSize]
  · rw [hnameField, fromStrRadix_hexField _ hvalid.nameSize]
  · rw [hname, File.nameBytes, isUtf8_strBytes]
    decide

/-- The iteration at a file of the archive. -/
theorem entry_encode (hvalid : file.Valid)
    (h : a.bytes read offset (a.length - offset) = file.encode ++ rest) :
    entry read a target offset =
      if strBytes file.name = strBytes "TRAILER!!!" then .trailer
      else if strBytes file.name = target then .found (a.sub (offset + file.dataOffset)
        file.data.length)
      else .skip (offset + file.encode.length) := by
  obtain ⟨hread, hname, -, hfits⟩ := readable_of_encode hvalid h
  have hheader := hread.header
  have hnameFits := hread.name
  have hlength := file.encode_length
  have htrim : trimEnd file.nameBytes = strBytes file.name := trimEnd_name hvalid.last
  have hround : offset + (HEADER_SIZE + file.nameBytes.length + 3) / 4 * 4
      = offset + file.dataOffset := rfl
  unfold entry
  rw [if_neg (not_not.mpr hheader), if_neg (not_not.mpr hread.magic), hread.fileField]
  dsimp only
  rw [hread.nameField]
  dsimp only
  rw [if_neg (not_lt.mpr hnameFits), hread.utf8, hname, htrim, hround, hlength,
    if_neg (show ¬ (!true) = true by decide),
    if_neg (show ¬ offset + file.dataOffset + file.data.length > a.length by omega), add_assoc]

/-- The loop over the files that are left: the data of the first one with the name. -/
theorem findFrom_encode {files : List File} {trailer : File} {t : String} {fuel : ℕ}
    (hvalid : ∀ file ∈ files, file.Valid ∧ file.name ≠ "TRAILER!!!")
    (htrailer : trailer.Valid ∧ trailer.name = "TRAILER!!!") (hfuel : files.length < fuel)
    (h : a.bytes read offset (a.length - offset) = encode files trailer rest) :
    (findFrom read a (strBytes t) offset fuel).answer.map
        (fun slice => slice.bytes read 0 slice.length)
      = (files.find? (·.name = t)).map (·.data) := by
  obtain ⟨fuel, rfl⟩ := Nat.exists_eq_succ_of_ne_zero (Nat.ne_zero_of_lt hfuel)
  induction files generalizing offset fuel with
  | nil =>
    rw [encode, List.flatMap_nil, List.nil_append] at h
    rw [findFrom, entry_encode htrailer.1 h, htrailer.2, if_pos rfl]
    rfl
  | cons file files ih =>
    rw [List.forall_mem_cons] at hvalid
    obtain ⟨⟨hfile, hname⟩, hfiles⟩ := hvalid
    rw [encode, List.flatMap_cons, List.append_assoc] at h
    rw [findFrom, entry_encode hfile h, if_neg (fun heq => hname (strBytes_injective heq))]
    obtain ⟨-, -, hdata, hfits⟩ := readable_of_encode hfile h
    by_cases htarget : file.name = t
    · rw [if_pos (congrArg strBytes htarget), List.find?_cons_of_pos (by simpa using htarget)]
      rw [Option.map_some]
      dsimp only [Entry.answer]
      rw [Option.map_some, Slice.sub_bytes, Nat.add_zero]
      exact congrArg some hdata
    · rw [if_neg (fun heq => htarget (strBytes_injective heq)),
        List.find?_cons_of_neg (by simpa using htarget)]
      dsimp only
      rw [List.length_cons] at hfuel
      obtain ⟨fuel, rfl⟩ := Nat.exists_eq_succ_of_ne_zero (show fuel ≠ 0 by omega)
      refine ih hfiles ?_ fuel (by omega)
      have hlength : a.length - offset = file.encode.length
          + (a.length - (offset + file.encode.length)) := by omega
      rw [hlength] at h
      rw [← a.bytes_drop read offset, h, List.drop_left]
      rfl

/-- An archive of whole files holds at least the header of each. -/
theorem files_length (files : List File) :
    files.length * HEADER_SIZE ≤ (files.flatMap File.encode).length := by
  induction files with
  | nil => simp
  | cons file files ih =>
    have hencode := file.encode_length
    have hnamed : HEADER_SIZE ≤ file.dataOffset := by
      unfold File.dataOffset
      omega
    rw [List.flatMap_cons, List.length_append, List.length_cons, Nat.succ_mul]
    omega

end Newc

/-- On an archive of files and a trailer, `find_file` gives the data of the first file with
the name, or none; on any bytes it ends without a fault, with a slice of the archive if any. -/
theorem find_file_inverts_newc (read : ℕ → Byte) (a : Slice) (hlength : a.length ≤ ISIZE_MAX)
    (t : String) :
    ∃ answer, (∀ fuel > a.length / HEADER_SIZE, Checked.findFile read a t fuel = .ok answer)
      ∧ (∀ slice, answer = some slice → slice.Inside a)
      ∧ ∀ (files : List File) (trailer : File) (rest : List Byte),
        (∀ file ∈ files, file.Valid ∧ file.name ≠ "TRAILER!!!") →
        trailer.Valid ∧ trailer.name = "TRAILER!!!" →
        a.bytes read 0 a.length = encode files trailer rest →
        answer.map (fun slice => slice.bytes read 0 slice.length)
          = (files.find? (·.name = t)).map (·.data) := by
  refine ⟨(findFrom read a (strBytes t) 0 (a.length / HEADER_SIZE + 1)).answer, ?_, ?_, ?_⟩
  · intro fuel hfuel
    obtain ⟨extra, rfl⟩ := Nat.exists_eq_add_of_lt hfuel
    refine Checked.findFrom_eq hlength extra (Nat.zero_le _) ?_
    rw [Nat.zero_add]
    exact Nat.lt_mul_div_succ _ (by decide)
  · intro slice hslice
    cases hfind : findFrom read a (strBytes t) 0 (a.length / HEADER_SIZE + 1) with
    | found file =>
      rw [hfind] at hslice
      cases hslice
      exact findFrom_inside hfind
    | refused =>
      rw [hfind] at hslice
      cases hslice
    | trailer =>
      rw [hfind] at hslice
      cases hslice
    | skip next =>
      rw [hfind] at hslice
      cases hslice
  · intro files trailer rest hvalid htrailer hbytes
    refine findFrom_encode hvalid htrailer ?_ hbytes
    have hfiles := files_length files
    have htotal := congrArg List.length hbytes
    rw [Slice.bytes_length, encode, List.length_append] at htotal
    rw [Nat.lt_succ_iff, Nat.le_div_iff_mul_le (by decide)]
    omega

/-- The file `f` of three bytes. -/
def smallFile : File := ⟨"f", [97, 98, 99], fun _ => 0, true⟩

def smallTrailer : File := ⟨"TRAILER!!!", [], fun _ => 1, false⟩

theorem find_file_inverts_newc_small :
    ∃ slice, Checked.findFile ((encode [smallFile] smallTrailer [7]).getD · 0) ⟨0, 241⟩ "f" 3
        = .ok (some slice)
      ∧ slice.bytes ((encode [smallFile] smallTrailer [7]).getD · 0) 0 slice.length
        = [97, 98, 99] := by
  obtain ⟨answer, hrun, -, hfound⟩ := find_file_inverts_newc
    ((encode [smallFile] smallTrailer [7]).getD · 0) ⟨0, 241⟩ (by decide) "f"
  have hdata := hfound [smallFile] smallTrailer [7]
    (by simpa using ⟨⟨by decide, by decide, by decide⟩, by decide⟩)
    ⟨⟨by decide, by decide, by decide⟩, rfl⟩ (by decide +kernel)
  cases answer with
  | none => cases hdata
  | some slice => exact ⟨slice, hrun 3 (by decide), Option.some.inj hdata⟩

end Cpio

end Dusk
