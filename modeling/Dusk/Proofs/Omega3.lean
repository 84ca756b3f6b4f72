import Dusk.Model.Omega3

/-! The programs of the root server, by what one page of its loader does: how it
ends, the range of the image it reads and the bytes it leaves in the new page. -/

namespace Dusk

open Lib

namespace Slice

/-- The range lies inside `s`. -/
def Inside (range s : Slice) : Prop :=
  s.start ≤ range.start ∧ range.start + range.length ≤ s.start + s.length

theorem Inside.trans {r s t : Slice} (h : r.Inside s) (h' : s.Inside t) : r.Inside t :=
  ⟨h'.1.trans h.1, h.2.trans h'.2⟩

theorem bytes_length (s : Slice) (read : ℕ → Byte) (offset n : ℕ) :
    (s.bytes read offset n).length = n := by
  simp [bytes]

theorem sub_bytes (s : Slice) (read : ℕ → Byte) (start length offset n : ℕ) :
    (s.sub start length).bytes read offset n = s.bytes read (start + offset) n := by
  unfold bytes sub
  simp [add_assoc]

theorem bytes_take (s : Slice) (read : ℕ → Byte) (offset : ℕ) {j n : ℕ} (h : j ≤ n) :
    (s.bytes read offset n).take j = s.bytes read offset j := by
  unfold bytes
  rw [← List.map_take, List.take_range, min_eq_left h]

theorem bytes_drop (s : Slice) (read : ℕ → Byte) (offset k n : ℕ) :
    (s.bytes read offset (k + n)).drop k = s.bytes read (offset + k) n := by
  unfold bytes
  rw [← List.map_drop, List.range_add, List.drop_append_of_le_length (by simp)]
  simp [Function.comp_def, add_assoc]

/-- The bytes `k .. k + j` of the first `n`. -/
theorem bytes_slice (s : Slice) (read : ℕ → Byte) (offset : ℕ) {k j n : ℕ} (h : k + j ≤ n) :
    ((s.bytes read offset n).drop k).take j = s.bytes read (offset + k) j := by
  obtain ⟨r, rfl⟩ := Nat.exists_eq_add_of_le (Nat.le_of_add_right_le h)
  rw [bytes_drop, bytes_take _ _ _ (by omega)]

end Slice

theorem leValue_cons (b : Byte) (bs : List Byte) :
    leValue (b :: bs) = b.toNat + 256 * leValue bs := rfl

theorem leBytes_succ (n v : ℕ) :
    leBytes (n + 1) v = BitVec.ofNat 8 v :: leBytes n (v / 256) := by
  unfold leBytes
  rw [List.range_succ_eq_map, List.map_cons, List.map_map]
  congr 1
  apply List.map_congr_left
  intro i _
  simp only [Function.comp_apply, Nat.shiftRight_eq_div_pow, Nat.div_div_eq_div_mul]
  congr 2
  rw [Nat.succ_eq_add_one, Nat.mul_add, Nat.pow_add, mul_comm]

theorem leBytes_length (n v : ℕ) : (leBytes n v).length = n := by simp [leBytes]

/-- The bytes of a number give it back. -/
theorem leValue_leBytes {n v : ℕ} (h : v < 256 ^ n) : leValue (leBytes n v) = v := by
  induction n generalizing v with
  | zero =>
    rw [pow_zero, Nat.lt_one_iff] at h
    subst h
    rfl
  | succ n ih =>
    have hdiv : v / 256 < 256 ^ n := by
      rw [pow_succ] at h
      exact Nat.div_lt_of_lt_mul (by rw [mul_comm]; exact h)
    rw [leBytes_succ, leValue_cons, ih hdiv, BitVec.toNat_ofNat]
    omega

/-- The largest length a Rust slice can have. -/
def ISIZE_MAX : ℕ := 2 ^ 63 - 1

namespace Omega3

theorem sat_readRaw {start length : ℕ} {server : Server} {Q : List Byte → Server → Prop}
    {E : Stop → Server → Prop} :
    (readRaw start length).Sat server Q E ↔
      Q ((⟨start, length⟩ : Slice).bytes server.memory 0 length)
        { server with reads := server.reads ++ [⟨start, length⟩] } := Iff.rfl

theorem sat_addUsize {sum : Sum} {x y : ℕ} {server : Server} {Q : ℕ → Server → Prop}
    {E : Stop → Server → Prop} :
    (addUsize sum x y).Sat server Q E ↔
      (x + y < USIZE_END → Q (x + y) server) ∧ (USIZE_END ≤ x + y → E (.overflow sum) server) := by
  unfold addUsize checkedAdd
  split_ifs with h
  · simp [h, not_le.mpr h]
  · simp [h, not_lt.mp h]

theorem sat_addUsize_of_lt {sum : Sum} {x y : ℕ} (h : x + y < USIZE_END) {server : Server}
    {Q : ℕ → Server → Prop} {E : Stop → Server → Prop} :
    (addUsize sum x y).Sat server Q E ↔ Q (x + y) server := by
  simp [sat_addUsize, h, not_le.mpr h]

/-- A call counts, and stops the server where it is refused. -/
theorem call_sat (s : Server) :
    call.Sat s (fun _ s' => s' = { s with calls := s.calls + 1 })
      (fun stop s' => s' = { s with calls := s.calls + 1 } ∧ stop = .unwrapped
        ∧ ∃ n, s.answers n = none) := by
  unfold call Prog.Sat
  dsimp only
  cases h : s.answers s.calls with
  | none => exact ⟨rfl, rfl, _, h⟩
  | some handle => rfl

theorem sat_writeScratch {server : Server} {frame : ℕ} (h : server.scratch = some frame)
    {offset length : ℕ} {value : ℕ → Byte} {Q : Unit → Server → Prop}
    {E : Stop → Server → Prop} :
    (writeScratch offset length value).Sat server Q E ↔
      let content := overwrite (server.frames frame) offset length value
      Q () { server with frames := Function.update server.frames frame content } := by
  simp only [writeScratch, Prog.Sat, h]

namespace ProgramHeader

variable (header : ProgramHeader)

/-- The part of a page that comes from the file. -/
def copyStart (page : ℕ) : ℕ := min (max page header.virtualAddress) (page + FRAME_SIZE)

def copyEnd (page : ℕ) : ℕ :=
  max (min (page + FRAME_SIZE) (header.virtualAddress + header.fileSize)) (header.copyStart page)

/-- The offset in the image of the bytes for a page. -/
def source (page : ℕ) : ℕ := header.fileOffset + (header.copyStart page - header.virtualAddress)

/-- The ranges of the image at `image` that the page is read from. -/
def pageReads (image page : ℕ) : List Slice :=
  if header.copyStart page < header.copyEnd page then
    [⟨image + header.source page, header.copyEnd page - header.copyStart page⟩]
  else []

/-- The content of a page of the new task. -/
def pageBytes (memory : ℕ → Byte) (image page : ℕ) : ℕ → Byte := fun i =>
  if header.copyStart page ≤ page + i ∧ page + i < header.copyEnd page then
    memory (image + (header.fileOffset + (page + i - header.virtualAddress)))
  else 0

theorem copyStart_eq {page : ℕ} (h : header.copyStart page < header.copyEnd page) :
    header.copyStart page = max page header.virtualAddress := by
  unfold copyEnd copyStart at *
  omega

theorem page_le_copyStart (page : ℕ) : page ≤ header.copyStart page := by
  unfold copyStart
  omega

/-- Zeroing the page and then copying the bytes of the image over it gives the page. -/
theorem pageBytes_copied (memory : ℕ → Byte) (image page : ℕ) (old : ℕ → Byte)
    (h : header.copyStart page < header.copyEnd page) {i : ℕ} (hi : i < FRAME_SIZE) :
    overwrite (overwrite old 0 FRAME_SIZE fun _ => 0) (header.copyStart page - page)
        (header.copyEnd page - header.copyStart page)
        (fun j => ((⟨image + header.source page, header.copyEnd page - header.copyStart page⟩ :
          Slice).bytes memory 0 (header.copyEnd page - header.copyStart page)).getD j 0) i
      = header.pageBytes memory image page i := by
  have hpage := header.page_le_copyStart page
  have hstart := header.copyStart_eq h
  unfold overwrite pageBytes
  by_cases hcopied : header.copyStart page ≤ page + i ∧ page + i < header.copyEnd page
  · rw [if_pos (by omega), if_pos hcopied]
    have hlt : i - (header.copyStart page - page)
        < header.copyEnd page - header.copyStart page := by omega
    have haddr : image + header.source page + (i - (header.copyStart page - page))
        = image + (header.fileOffset + (page + i - header.virtualAddress)) := by
      unfold source
      omega
    simp [Slice.bytes, List.getD_eq_getElem?_getD, hlt, haddr]
  · rw [if_neg (by omega), if_neg hcopied, if_pos (by omega)]

theorem pageBytes_zero (memory : ℕ → Byte) (image page : ℕ) (old : ℕ → Byte)
    (h : ¬ header.copyStart page < header.copyEnd page) {i : ℕ} (hi : i < FRAME_SIZE) :
    overwrite old 0 FRAME_SIZE (fun _ => 0) i = header.pageBytes memory image page i := by
  unfold overwrite pageBytes
  rw [if_pos (by omega), if_neg (by omega)]

/-- No sum that `load_elf` forms for the page overflows. -/
structure Fits (page : ℕ) : Prop where
  pageEnd : page + FRAME_SIZE < USIZE_END
  source : header.copyStart page < header.copyEnd page → header.source page < USIZE_END

end ProgramHeader

section Page

variable (elf : Elf) (header : ProgramHeader) (targetAs permissions page : ℕ)

/-- The page has been loaded and mapped. -/
structure PageLoaded (s s' : Server) : Prop where
  fits : header.Fits page
  memory : s'.memory = s.memory
  answers : s'.answers = s.answers
  reads : s'.reads = s.reads ++ header.pageReads elf.bytes.start page
  placed : ∃ content, s'.placed = s.placed ++ [⟨targetAs, page, permissions, content⟩]
    ∧ ∀ i < FRAME_SIZE, content i = header.pageBytes s.memory elf.bytes.start page i

/-- The server stopped at the page: at a refused call or at a sum that overflows. -/
structure PageStopped (s : Server) (stop : Stop) (s' : Server) : Prop where
  reads : s'.reads = s.reads
    ∨ (header.Fits page ∧ s'.reads = s.reads ++ header.pageReads elf.bytes.start page)
  cause : (stop = .unwrapped ∧ ∃ n, s.answers n = none)
    ∨ (stop = .overflow .pageEnd ∧ USIZE_END ≤ page + FRAME_SIZE)
    ∨ (stop = .overflow .fileOffset ∧ page + FRAME_SIZE < USIZE_END
      ∧ header.copyStart page < header.copyEnd page ∧ USIZE_END ≤ header.source page)

variable {elf header targetAs permissions page}

/-- `fillPage` with a frame at the scratch page: the frame gets the bytes of the page. -/
theorem fillPage_sat {s : Server} {frame : ℕ} (hscratch : s.scratch = some frame) :
    (fillPage elf header (header.virtualAddress + header.fileSize) page).Sat s
      (fun _ s' => header.Fits page ∧ ∃ content,
        s' = { s with frames := Function.update s.frames frame content
                      reads := s.reads ++ header.pageReads elf.bytes.start page }
        ∧ ∀ i < FRAME_SIZE, content i = header.pageBytes s.memory elf.bytes.start page i)
      (fun stop s' => s'.reads = s.reads ∧
        ((stop = .overflow .pageEnd ∧ USIZE_END ≤ page + FRAME_SIZE)
          ∨ (stop = .overflow .fileOffset ∧ page + FRAME_SIZE < USIZE_END
            ∧ header.copyStart page < header.copyEnd page ∧ USIZE_END ≤ header.source page))) := by
  unfold fillPage
  rw [Prog.sat_bind, sat_writeScratch hscratch, Prog.sat_bind, sat_addUsize]
  refine ⟨fun hpage => ?_, fun hover => ⟨rfl, .inl ⟨rfl, hover⟩⟩⟩
  change Prog.Sat (if header.copyStart page < header.copyEnd page then _ else _) _ _ _
  by_cases hcopy : header.copyStart page < header.copyEnd page
  · rw [if_pos hcopy, Prog.sat_bind, sat_addUsize]
    refine ⟨fun hsource => ?_, fun hover => ⟨rfl, .inr ⟨rfl, hpage, hcopy, hover⟩⟩⟩
    rw [Prog.sat_bind, sat_readRaw]
    refine (sat_writeScratch (by exact hscratch)).mpr ?_
    refine ⟨⟨hpage, fun _ => hsource⟩, _, ?_,
      fun i hi => header.pageBytes_copied s.memory elf.bytes.start page (s.frames frame) hcopy hi⟩
    dsimp only
    rw [Function.update_idem, Function.update_self, ProgramHeader.pageReads, if_pos hcopy]
    rfl
  · rw [if_neg hcopy, Prog.sat_pure]
    refine ⟨⟨hpage, fun h => absurd h hcopy⟩, _, ?_,
      fun i hi => header.pageBytes_zero s.memory elf.bytes.start page (s.frames frame) hcopy hi⟩
    rw [ProgramHeader.pageReads, if_neg hcopy, List.append_nil]

/-- One page of the loader. -/
theorem loadPage_sat (s : Server) :
    (loadPage elf header targetAs permissions (header.virtualAddress + header.fileSize) page).Sat s
      (fun _ s' => PageLoaded elf header targetAs permissions page s s')
      (PageStopped elf header page s) := by
  unfold loadPage sysFrameAlloc mapScratch unmapScratch mapTarget
  simp only [Prog.sat_bind, Prog.sat_modify, Prog.sat_pure]
  have hstop (stop : Stop) (t s' : Server) (hreads : t.reads = s.reads
      ∨ (header.Fits page ∧ t.reads = s.reads ++ header.pageReads elf.bytes.start page))
      (hanswers : t.answers = s.answers) (h : s' = { t with calls := t.calls + 1 }
        ∧ stop = .unwrapped ∧ ∃ n, t.answers n = none) : PageStopped elf header page s stop s' := by
    obtain ⟨rfl, hstop, n, hn⟩ := h
    exact ⟨hreads, .inl ⟨hstop, n, hanswers ▸ hn⟩⟩
  refine (call_sat s).mono ?_ (fun stop s' => hstop stop s s' (.inl rfl) rfl)
  intro frame s₁ h₁
  refine (call_sat s₁).mono ?_ (fun stop s' => hstop stop s₁ s' (.inl ?_) ?_)
  · intro mapping s₂ h₂
    -- A state that is written out would let the elaborator run the program.
    generalize ht : ({ s₂ with scratch := some frame } : Server) = t
    have hscratch : t.scratch = some frame := by rw [← ht]
    have hreads : t.reads = s.reads := by rw [← ht, h₂, h₁]
    have hanswers : t.answers = s.answers := by rw [← ht, h₂, h₁]
    have hmemory : t.memory = s.memory := by rw [← ht, h₂, h₁]
    have hplaced : t.placed = s.placed := by rw [← ht, h₂, h₁]
    refine (fillPage_sat hscratch).mono ?_ ?_
    · intro _ s₃ h₃
      obtain ⟨hfits, content, h₃, hcontent⟩ := h₃
      have hreads₃ : s₃.reads = s.reads ++ header.pageReads elf.bytes.start page := by
        rw [h₃, ← hreads]
      refine (call_sat s₃).mono ?_ (fun stop s' => hstop stop s₃ s' (.inr ⟨hfits, hreads₃⟩) ?_)
      · intro _ s₄ h₄
        generalize hu : ({ s₄ with scratch := none } : Server) = u
        have hreads₄ : u.reads = s.reads ++ header.pageReads elf.bytes.start page := by
          rw [← hu, h₄, hreads₃]
        have hanswers₄ : u.answers = s.answers := by rw [← hu, h₄, h₃, hanswers]
        refine (call_sat u).mono ?_ (fun stop s' =>
          hstop stop u s' (.inr ⟨hfits, hreads₄⟩) hanswers₄)
        intro _ s₅ h₅
        subst h₅
        refine ⟨hfits, ?_, hanswers₄, hreads₄, content, ?_, ?_⟩
        · rw [← hu, h₄, h₃, hmemory]
        · rw [← hu, h₄, h₃, ← hplaced]
          dsimp only
          rw [Function.update_self]
        · rw [← hmemory]
          exact hcontent
      · rw [h₃, hanswers]
    · intro stop s' h
      exact ⟨.inl (h.1.trans hreads), .inr h.2⟩
  · rw [h₁]
  · rw [h₁]

end Page

end Omega3

end Dusk
