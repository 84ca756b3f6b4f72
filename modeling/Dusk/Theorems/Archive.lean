import Dusk.Proofs.Omega3

/-! The two readers of the boot archive. The server's reader has none of the
kernel's length checks; along a search that the kernel's reader accepts it makes
the same steps and stays inside the archive. -/

namespace Dusk

open Lib

namespace Cpio

variable {read : ℕ → Byte} {a : Slice} {target : List Byte} {offset : ℕ}

/-- What an entry that the kernel's reader gets past has been checked for. -/
structure Readable (read : ℕ → Byte) (a : Slice) (offset fileLen nameLen : ℕ) : Prop where
  header : offset + HEADER_SIZE ≤ a.length
  magic : a.bytes read offset 6 = strBytes "070701"
  fileField : fromStrRadix (a.bytes read (offset + 54) 8) = some fileLen
  nameField : fromStrRadix (a.bytes read (offset + 94) 8) = some nameLen
  name : offset + HEADER_SIZE + nameLen ≤ a.length
  utf8 : isUtf8 (a.bytes read (offset + HEADER_SIZE) nameLen) = true

/-- The iteration by the three ways it can end other than in a refusal. -/
theorem entry_cases (h : entry read a target offset ≠ .refused) :
    ∃ fileLen nameLen, Readable read a offset fileLen nameLen ∧
      let name := trimEnd (a.bytes read (offset + HEADER_SIZE) nameLen)
      let dataStart := offset + (HEADER_SIZE + nameLen + 3) / 4 * 4
      (name = strBytes "TRAILER!!!" ∧ entry read a target offset = .trailer) ∨
      (name ≠ strBytes "TRAILER!!!" ∧ dataStart + fileLen ≤ a.length ∧ name = target ∧
        entry read a target offset = .found (a.sub dataStart fileLen)) ∨
      (name ≠ strBytes "TRAILER!!!" ∧ dataStart + fileLen ≤ a.length ∧ name ≠ target ∧
        entry read a target offset = .skip (dataStart + (fileLen + 3) / 4 * 4)) := by
  generalize hresult : entry read a target offset = result at h ⊢
  unfold entry at hresult
  by_cases hheader : offset + HEADER_SIZE ≤ a.length
  swap
  · rw [if_pos hheader] at hresult
    exact absurd hresult.symm h
  rw [if_neg (not_not.mpr hheader)] at hresult
  by_cases hmagic : a.bytes read offset 6 = strBytes "070701"
  swap
  · rw [if_pos hmagic] at hresult
    exact absurd hresult.symm h
  rw [if_neg (not_not.mpr hmagic)] at hresult
  cases hfile : fromStrRadix (a.bytes read (offset + 54) 8) with
  | none =>
    rw [hfile] at hresult
    exact absurd hresult.symm h
  | some fileLen =>
    cases hlen : fromStrRadix (a.bytes read (offset + 94) 8) with
    | none =>
      rw [hfile, hlen] at hresult
      exact absurd hresult.symm h
    | some nameLen =>
      simp only [hfile, hlen] at hresult
      by_cases hname : offset + HEADER_SIZE + nameLen ≤ a.length
      swap
      · rw [if_pos (by omega)] at hresult
        exact absurd hresult.symm h
      rw [if_neg (by omega)] at hresult
      by_cases hutf : isUtf8 (a.bytes read (offset + HEADER_SIZE) nameLen) = true
      swap
      · rw [if_pos (by simpa using hutf)] at hresult
        exact absurd hresult.symm h
      rw [if_neg (by simpa using hutf)] at hresult
      refine ⟨fileLen, nameLen, ⟨hheader, hmagic, hfile, hlen, hname, hutf⟩, ?_⟩
      split_ifs at hresult with htrailer hdata htarget
      · exact .inl ⟨htrailer, hresult.symm⟩
      · exact absurd hresult.symm h
      · exact .inr (.inl ⟨htrailer, by omega, htarget, hresult.symm⟩)
      · exact .inr (.inr ⟨htrailer, by omega, htarget, hresult.symm⟩)

end Cpio

namespace Omega3

open Cpio (Entry entry entry_cases HEADER_SIZE trimEnd strBytes)

/-- The memory holds the bytes of `a` from `address` on. -/
def Begins (memory : ℕ → Byte) (address : ℕ) (read : ℕ → Byte) (a : Slice) : Prop :=
  ∀ i < a.length, memory (address + i) = read (a.start + i)

/-- The program has read some ranges, each inside `s`, and has changed nothing. -/
def ReadsInside (s : Slice) (old new : Server) : Prop :=
  ∃ ranges : List Slice, new = { old with reads := old.reads ++ ranges }
    ∧ ∀ range ∈ ranges, range.Inside s

theorem ReadsInside.trans {s : Slice} {x y z : Server} (h : ReadsInside s x y)
    (h' : ReadsInside s y z) : ReadsInside s x z := by
  obtain ⟨ranges, rfl, hranges⟩ := h
  obtain ⟨more, rfl, hmore⟩ := h'
  refine ⟨ranges ++ more, ?_, fun range hrange => ?_⟩
  · rw [List.append_assoc]
  · rw [List.mem_append] at hrange
    exact hrange.elim (hranges range) (hmore range)

theorem ReadsInside.memory {s : Slice} {x y : Server} (h : ReadsInside s x y) :
    y.memory = x.memory := by
  obtain ⟨ranges, rfl, -⟩ := h
  rfl

variable {read : ℕ → Byte} {a : Slice} {target : List Byte} {archive : ℕ}

theorem Begins.bytes {memory : ℕ → Byte} (h : Begins memory archive read a) {offset n : ℕ}
    (hn : offset + n ≤ a.length) :
    (⟨archive + offset, n⟩ : Slice).bytes memory 0 n = a.bytes read offset n := by
  unfold Slice.bytes
  apply List.map_congr_left
  intro i hi
  rw [List.mem_range] at hi
  have heq := h (offset + i) (by omega)
  simpa [add_assoc] using heq

/-- A raw read of bytes of the archive gives them, and stays inside. -/
theorem Begins.read_sat {server : Server} (h : Begins server.memory archive read a)
    {offset n : ℕ} (hn : offset + n ≤ a.length) {E : Stop → Server → Prop} :
    (readRaw (archive + offset) n).Sat server (fun bytes server' =>
      bytes = a.bytes read offset n ∧ ReadsInside ⟨archive, a.length⟩ server server') E := by
  rw [sat_readRaw]
  refine ⟨h.bytes hn, [⟨archive + offset, n⟩], rfl, fun range hrange => ?_⟩
  rw [List.mem_singleton] at hrange
  subst hrange
  constructor <;> dsimp only <;> omega

/-- The answer of the server's reader where the kernel's search ends in a file. -/
def relocate (archive : ℕ) (a : Slice) : Entry → Option Slice
  | .found file => some ⟨archive + (file.start - a.start), file.length⟩
  | _ => none

theorem relocate_found (archive : ℕ) (a : Slice) (offset length : ℕ) :
    relocate archive a (.found (a.sub offset length)) =
      some ((⟨archive, a.length⟩ : Slice).sub offset length) := by
  simp [relocate, Slice.sub]

/-- Along a search that the kernel's reader does not refuse, the server's loop gives
the same answer from the bytes of the archive. -/
theorem findFrom_sat (hlen : a.length ≤ ISIZE_MAX) (extra : ℕ) {fuel offset : ℕ} {server : Server}
    (hbegin : Begins server.memory archive read a)
    (h : Cpio.findFrom read a target offset fuel ≠ .refused) :
    (findFrom archive target offset (fuel + extra)).Sat server (fun answer server' =>
      answer = relocate archive a (Cpio.findFrom read a target offset fuel)
        ∧ ReadsInside ⟨archive, a.length⟩ server server') Prog.never := by
  induction fuel generalizing offset server with
  | zero => exact absurd rfl h
  | succ fuel ih =>
    rw [Nat.succ_add_eq_add_succ, Nat.add_succ]
    have hentry : entry read a target offset ≠ .refused := by
      intro hrefused
      rw [Cpio.findFrom, hrefused] at h
      exact h rfl
    obtain ⟨fileLen, nameLen, hread, hcases⟩ := entry_cases hentry
    unfold findFrom
    rw [Prog.sat_bind]
    refine (hbegin.read_sat hread.header).mono ?_ (fun _ _ => False.elim)
    intro header server₁ h₁
    obtain ⟨rfl, h₁⟩ := h₁
    have hbegin₁ : Begins server₁.memory archive read a := h₁.memory ▸ hbegin
    have hsmall : a.length + HEADER_SIZE < USIZE_END := by
      simp only [ISIZE_MAX] at hlen
      simp only [HEADER_SIZE, USIZE_END]
      omega
    have hheader := hread.header
    have hname := hread.name
    rw [Slice.bytes_take _ _ _ (by decide), hread.magic, if_neg (not_not.mpr rfl), Prog.sat_bind,
      sat_addUsize_of_lt (by omega), Slice.bytes_slice _ _ _ (by decide), hread.fileField,
      Slice.bytes_slice _ _ _ (by decide), hread.nameField]
    dsimp only
    rw [Prog.sat_bind]
    refine (hbegin₁.read_sat hname).mono ?_ (fun _ _ => False.elim)
    intro nameBytes server₂ h₂
    obtain ⟨rfl, h₂⟩ := h₂
    have hinside := h₁.trans h₂
    rw [hread.utf8, if_neg (by decide), Cpio.findFrom]
    obtain ⟨htrailer, heq⟩ | ⟨htrailer, hdata, htarget, heq⟩ | ⟨htrailer, hdata, htarget, heq⟩ :=
      hcases
    · rw [if_pos htrailer, heq]
      exact ⟨rfl, hinside⟩
    · rw [if_neg htrailer, heq, Prog.sat_bind, sat_addUsize_of_lt (by omega), if_pos htarget]
      exact ⟨(relocate_found ..).symm, hinside⟩
    · rw [Cpio.findFrom, heq] at h
      rw [if_neg htrailer, heq, Prog.sat_bind, sat_addUsize_of_lt (by omega), if_neg htarget,
        Prog.sat_bind, sat_addUsize_of_lt (by simp only [HEADER_SIZE] at hsmall; omega)]
      have hbegin₂ : Begins server₂.memory archive read a := h₂.memory ▸ hbegin₁
      refine (ih hbegin₂ h).mono ?_ (fun _ _ => False.elim)
      intro answer server₃ h₃
      exact ⟨h₃.1, hinside.trans h₃.2⟩

/-- The server's `find_file` ends with `answer`, and every range it reads lies in the
first `length` bytes from `archive` on. -/
def Finds (server : Server) (archive length : ℕ) (target : String) (answer : Option Slice) :
    Prop :=
  ∃ enough, ∀ fuel ≥ enough, ∃ server', findFile archive target fuel server = .ok answer server'
    ∧ ReadsInside ⟨archive, length⟩ server server'

/-- Where the kernel's `find_file` gives a slice of the archive, the server's gives the
slice at the same offset; where the kernel's ends at the trailer, the server's gives none. -/
theorem find_file_agrees (read : ℕ → Byte) (a : Slice) (hlen : a.length ≤ ISIZE_MAX)
    (target : String) (server : Server) (archive : ℕ)
    (hbegin : Begins server.memory archive read a) :
    (∀ offset length, Cpio.findFile read a target = some (a.sub offset length) →
      Finds server archive a.length target
        (some ((⟨archive, a.length⟩ : Slice).sub offset length)))
    ∧ (Cpio.search read a target = .trailer → Finds server archive a.length target none) := by
  have hfinds (h : Cpio.search read a target ≠ .refused) : Finds server archive a.length target
      (relocate archive a (Cpio.search read a target)) := by
    refine ⟨a.length / HEADER_SIZE + 1, fun fuel hfuel => ?_⟩
    obtain ⟨extra, rfl⟩ := Nat.exists_eq_add_of_le hfuel
    obtain ⟨answer, server', heq, rfl, hreads⟩ := (findFrom_sat hlen extra hbegin h).finishes
    exact ⟨server', heq, hreads⟩
  constructor
  · intro offset length hfile
    have hsearch : Cpio.search read a target = .found (a.sub offset length) := by
      unfold Cpio.findFile at hfile
      split at hfile
      case h_1 file heq => rw [heq, Option.some.inj hfile]
      case h_2 => cases hfile
    rw [hsearch, relocate_found] at hfinds
    exact hfinds (fun h => by cases h)
  · intro htrailer
    rw [htrailer] at hfinds
    exact hfinds (fun h => by cases h)

/-- An archive of one file `f` of three bytes. -/
def smallArchive : List Byte :=
  (["070701", "00000000", "00000000", "00000000", "00000000", "00000000", "00000000", "00000003",
    "00000000", "00000000", "00000000", "00000000", "00000002", "00000000", "f\x00", "abc\x00",
    "070701", "00000000", "00000000", "00000000", "00000000", "00000000", "00000000", "00000000",
    "00000000", "00000000", "00000000", "00000000", "0000000B", "00000000",
    "TRAILER!!!\x00"].map strBytes).flatten

/-- The server with the archive in its window. -/
def smallServer : Server where
  memory := fun p => smallArchive.getD (p - INITRAMFS_START) 0
  answers := some
  calls := 0
  frames := fun _ _ => 0
  scratch := none
  reads := []
  placed := []

theorem find_file_agrees_small :
    Cpio.findFile (smallArchive.getD · 0) ⟨0, 237⟩ "f" = some ⟨112, 3⟩
      ∧ Cpio.search (smallArchive.getD · 0) ⟨0, 237⟩ "g" = .trailer
      ∧ Finds smallServer INITRAMFS_START 237 "f" (some ⟨INITRAMFS_START + 112, 3⟩)
      ∧ Finds smallServer INITRAMFS_START 237 "g" none := by
  have hbegin : Begins smallServer.memory INITRAMFS_START (smallArchive.getD · 0) ⟨0, 237⟩ := by
    intro i _
    simp [smallServer]
  have hfile : Cpio.findFile (smallArchive.getD · 0) ⟨0, 237⟩ "f" = some ⟨112, 3⟩ := by
    decide +kernel
  have hnone : Cpio.search (smallArchive.getD · 0) ⟨0, 237⟩ "g" = .trailer := by
    decide +kernel
  refine ⟨hfile, hnone, ?_, ?_⟩
  · exact (find_file_agrees _ _ (by decide) _ _ _ hbegin).1 112 3 hfile
  · exact (find_file_agrees _ _ (by decide) _ _ _ hbegin).2 hnone

end Omega3

end Dusk
