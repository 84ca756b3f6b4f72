import Dusk.Proofs.ElfReader

/-! The loader of the root server. Its parser checks the bounds of the header table
only, so that whether the loader stays inside the image is up to the headers. -/

namespace Dusk

open Lib

namespace Omega3

/-- Every range that has been read lies inside the image. -/
def Safe (elf : Elf) (s : Server) : Prop := ∀ range ∈ s.reads, range.Inside elf.bytes

/-- The server stopped inside the image, and at none of the sums for a segment. -/
def Fine (elf : Elf) (stop : Stop) (s : Server) : Prop :=
  Safe elf s ∧ stop ≠ .overflow .segmentEnd ∧ stop ≠ .overflow .fileEnd
    ∧ stop ≠ .overflow .fileOffset

/-- Whatever the system calls answer, `load_elf` copies from inside the image, and the
sums for the ends of a segment and for the file offset do not overflow. -/
def LoadsInside (memory : ℕ → Byte) (elf : Elf) : Prop :=
  ∀ targetAs server, server.memory = memory → server.reads = [] →
    (loadElf elf targetAs).Sat server (fun _ server' => Safe elf server') (Fine elf)

namespace ProgramHeader

/-- The header is not skipped by `load_elf`. -/
def Loaded (header : ProgramHeader) : Prop :=
  header.segmentType = .load ∧ header.memorySize ≠ 0

/-- The first page, and the end of the last one. -/
def pageStart (header : ProgramHeader) : ℕ := alignDownToFrame header.virtualAddress

def pagesEnd (header : ProgramHeader) : ℕ :=
  header.pageStart + FRAME_SIZE
    * pageCount header.pageStart (header.virtualAddress + header.memorySize)

/-- The segment has no byte in the last page of the address space. -/
def BelowTop (header : ProgramHeader) : Prop :=
  header.virtualAddress + header.memorySize ≤ USIZE_END - FRAME_SIZE

/-- How much of the file `load_elf` copies: what falls into the pages of the segment.
The last page of the address space has no end, and nothing is copied to it. -/
def copied (header : ProgramHeader) : ℕ :=
  min header.fileSize (min header.pagesEnd (USIZE_END - FRAME_SIZE) - header.virtualAddress)

/-- The condition on a header under which it is loaded from inside the image. -/
structure Contained (header : ProgramHeader) (bytes : Slice) : Prop where
  segmentEnd : header.virtualAddress + header.memorySize < USIZE_END
  fileEnd : header.virtualAddress + header.fileSize < USIZE_END
  file : 0 < header.copied → header.fileOffset + header.copied ≤ bytes.length

end ProgramHeader

/-- The log of reads only grows. -/
def Grows {α : Type} (p : SM α) : Prop :=
  ∀ s, p.Sat s (fun _ s' => s.reads ⊆ s'.reads) (fun _ s' => s.reads ⊆ s'.reads)

/-- No system call is refused. -/
def Server.Granting (s : Server) : Prop := ∀ n, s.answers n ≠ none

section Grows

variable {α β : Type}

theorem grows_pure (a : α) : Grows (pure a) := fun s => List.Subset.refl s.reads

theorem grows_stop (stop : Stop) : Grows (Prog.stop stop : SM α) :=
  fun s => List.Subset.refl s.reads

theorem Grows.bind {p : SM α} {f : α → SM β} (hp : Grows p) (hf : ∀ a, Grows (f a)) :
    Grows (p >>= f) := by
  intro s
  rw [Prog.sat_bind]
  refine (hp s).mono (fun a s₁ h₁ => ?_) (fun _ _ h => h)
  exact (hf a s₁).mono (fun _ _ h => List.Subset.trans h₁ h)
    (fun _ _ h => List.Subset.trans h₁ h)

/-- A run that ends inside the image has been inside it before. -/
theorem Grows.safe {p : SM α} (hp : Grows p) {elf : Elf} {s : Server}
    (h : p.Sat s (fun _ s' => Safe elf s') (Fine elf)) : Safe elf s := by
  intro range hrange
  generalize hrun : p s = outcome
  cases outcome with
  | ok a s' => exact h.of_ok hrun range ((hp s).of_ok hrun hrange)
  | stop stop s' => exact (h.of_stop hrun).1 range ((hp s).of_stop hrun hrange)

variable (elf : Elf) (header : ProgramHeader) (targetAs permissions : ℕ)

theorem loadPages_grows (page count : ℕ) : Grows (loadPages elf header targetAs permissions
    (header.virtualAddress + header.fileSize) page count) := by
  induction count generalizing page with
  | zero => exact grows_pure ()
  | succ count ih =>
    refine Grows.bind (fun s => ?_) (fun _ => ih _)
    refine (loadPage_sat s).mono (fun _ s' h => ?_) (fun _ s' h => ?_)
    · rw [h.reads]
      exact List.subset_append_left _ _
    · obtain hreads | ⟨-, hreads⟩ := h.reads
      · rw [hreads]
        exact List.Subset.refl _
      · rw [hreads]
        exact List.subset_append_left _ _

theorem loadHeader_grows : Grows (loadHeader elf targetAs header) := by
  unfold loadHeader
  split_ifs
  · exact grows_pure ()
  · intro s
    rw [Prog.sat_bind, sat_addUsize]
    refine ⟨fun _ => ?_, fun _ => List.Subset.refl _⟩
    rw [Prog.sat_bind, sat_addUsize]
    exact ⟨fun _ => loadPages_grows elf header targetAs _ _ _ s, fun _ => List.Subset.refl _⟩

theorem loadHeaders_grows (items : List (Option ProgramHeader)) :
    Grows (loadHeaders elf targetAs items) := by
  induction items with
  | nil => exact grows_pure ()
  | cons item rest ih =>
    cases item with
    | none => exact grows_stop _
    | some header => exact (loadHeader_grows elf header targetAs).bind fun _ => ih

end Grows

section Header

variable {elf : Elf} {header : ProgramHeader} {targetAs permissions : ℕ}

namespace ProgramHeader

theorem pagesEnd_spec (header : ProgramHeader) :
    header.pageStart % FRAME_SIZE = 0 ∧ header.pageStart ≤ header.virtualAddress
      ∧ header.pagesEnd % FRAME_SIZE = 0
      ∧ header.virtualAddress + header.memorySize ≤ header.pagesEnd
      ∧ header.pagesEnd < header.virtualAddress + header.memorySize + FRAME_SIZE := by
  simp only [pageStart, pagesEnd, pageCount, alignDownToFrame, FRAME_SIZE]
  omega

/-- The end of a copy, from the start of the segment, where a page has an end. -/
theorem copyEnd_le {page : ℕ} (hcopy : header.copyStart page < header.copyEnd page)
    (haligned : page % FRAME_SIZE = 0) (hend : page + FRAME_SIZE ≤ header.pagesEnd)
    (hfits : page + FRAME_SIZE < USIZE_END) :
    header.copyEnd page - header.virtualAddress ≤ header.copied := by
  have hstart := header.copyStart_eq hcopy
  unfold copyEnd copied at *
  simp only [FRAME_SIZE, USIZE_END] at *
  omega

/-- A header that meets the condition: no page of it is read from outside the image,
and no file offset overflows. -/
theorem Contained.page (h : header.Contained elf.bytes) (hlen : elf.bytes.length < USIZE_END)
    {page : ℕ} (hcopy : header.copyStart page < header.copyEnd page)
    (haligned : page % FRAME_SIZE = 0) (hend : page + FRAME_SIZE ≤ header.pagesEnd)
    (hfits : page + FRAME_SIZE < USIZE_END) :
    header.source page < USIZE_END
      ∧ header.source page + (header.copyEnd page - header.copyStart page) ≤ elf.bytes.length := by
  have hle := copyEnd_le hcopy haligned hend hfits
  have hstart := header.copyStart_eq hcopy
  have hfile := h.file (by omega)
  unfold source
  omega

end ProgramHeader

theorem safe_append {ranges more : List Slice} {s' : Server} (hs : ∀ r ∈ ranges, r.Inside elf.bytes)
    (hmore : ∀ r ∈ more, r.Inside elf.bytes) (h : s'.reads = ranges ++ more) : Safe elf s' := by
  intro range hrange
  rw [h, List.mem_append] at hrange
  exact hrange.elim (hs range) (hmore range)

theorem pageReads_inside (h : header.Contained elf.bytes) (hlen : elf.bytes.length < USIZE_END)
    {page : ℕ} (haligned : page % FRAME_SIZE = 0) (hend : page + FRAME_SIZE ≤ header.pagesEnd)
    (hfits : header.Fits page) :
    ∀ range ∈ header.pageReads elf.bytes.start page, range.Inside elf.bytes := by
  intro range hrange
  unfold ProgramHeader.pageReads at hrange
  split_ifs at hrange with hcopy
  · rw [List.mem_singleton] at hrange
    subst hrange
    have hpage := (h.page hlen hcopy haligned hend hfits.pageEnd).2
    constructor <;> dsimp only <;> omega
  · cases hrange

/-- The page loop of a header that meets the condition. It ends only below the top. -/
theorem loadPages_safe (h : header.Contained elf.bytes) (hlen : elf.bytes.length < USIZE_END)
    {page count : ℕ} (haligned : page % FRAME_SIZE = 0)
    (hend : page + FRAME_SIZE * count = header.pagesEnd) {s : Server} (hs : Safe elf s) :
    (loadPages elf header targetAs permissions (header.virtualAddress + header.fileSize) page
      count).Sat s (fun _ s' => Safe elf s' ∧ (0 < count → header.pagesEnd < USIZE_END))
      (Fine elf) := by
  induction count generalizing page s with
  | zero => exact ⟨hs, fun h => absurd h (by omega)⟩
  | succ count ih =>
    have hpage : page + FRAME_SIZE ≤ header.pagesEnd := by
      rw [← hend, Nat.mul_succ]
      omega
    unfold loadPages
    rw [Prog.sat_bind]
    refine (loadPage_sat s).mono (fun _ s' hloaded => ?_) (fun stop s' hstopped => ?_)
    · have hs' := safe_append hs (pageReads_inside h hlen haligned hpage hloaded.fits) hloaded.reads
      refine (ih (by simp [haligned]) (by rw [← hend, Nat.mul_succ]; omega) hs').mono ?_
        (fun _ _ hfine => hfine)
      intro _ s'' hrest
      refine ⟨hrest.1, fun _ => ?_⟩
      obtain rfl | hcount := Nat.eq_zero_or_pos count
      · rw [← hend]
        exact hloaded.fits.pageEnd
      · exact hrest.2 hcount
    · have hs' : Safe elf s' := by
        obtain hreads | ⟨hfits, hreads⟩ := hstopped.reads
        · exact fun range hrange => hs range (hreads ▸ hrange)
        · exact safe_append hs (pageReads_inside h hlen haligned hpage hfits) hreads
      refine ⟨hs', ?_⟩
      obtain ⟨rfl, -⟩ | ⟨rfl, -⟩ | ⟨rfl, hfits, hcopy, hover⟩ := hstopped.cause
      · simp
      · simp
      · exact absurd (h.page hlen hcopy haligned hpage hfits).1 (by omega)

/-- The page loop where every call is granted: it ends, or stops at a sum. -/
theorem loadPages_granted {page count : ℕ} {s : Server} (hs : s.Granting) :
    (loadPages elf header targetAs permissions (header.virtualAddress + header.fileSize) page
      count).Sat s (fun _ s' => s'.Granting)
      (fun stop _ => stop = .overflow .fileOffset
        ∨ (stop = .overflow .pageEnd ∧ USIZE_END ≤ page + FRAME_SIZE * count)) := by
  induction count generalizing page s with
  | zero => exact hs
  | succ count ih =>
    unfold loadPages
    rw [Prog.sat_bind]
    refine (loadPage_sat s).mono (fun _ s' hloaded => ?_) (fun stop s' hstopped => ?_)
    · refine (ih (by rw [Server.Granting, hloaded.answers]; exact hs)).mono (fun _ _ h => h) ?_
      intro stop s'' h
      refine h.imp_right fun h => ⟨h.1, ?_⟩
      rw [Nat.mul_succ]
      omega
    · obtain ⟨-, n, hn⟩ | ⟨hstop, hover⟩ | ⟨hstop, -⟩ := hstopped.cause
      · exact absurd hn (hs n)
      · refine .inr ⟨hstop, ?_⟩
        rw [Nat.mul_succ]
        omega
      · exact .inl hstop

/-- If the page loop stays inside the image where every call is granted, then the ranges
of all its pages that have an end lie inside. -/
theorem loadPages_needs {page count : ℕ} {s : Server} (hs : s.Granting)
    (h : (loadPages elf header targetAs permissions (header.virtualAddress + header.fileSize) page
      count).Sat s (fun _ s' => Safe elf s') (Fine elf)) :
    ∀ k < count, page + FRAME_SIZE * k + FRAME_SIZE < USIZE_END →
      ∀ range ∈ header.pageReads elf.bytes.start (page + FRAME_SIZE * k),
        range.Inside elf.bytes := by
  induction count generalizing page s with
  | zero => exact fun k hk => absurd hk (by omega)
  | succ count ih =>
    unfold loadPages at h
    rw [Prog.sat_bind] at h
    intro k hk hfits
    have hpage := @loadPage_sat elf header targetAs permissions page s
    generalize hrun : loadPage elf header targetAs permissions
      (header.virtualAddress + header.fileSize) page s = outcome
    cases outcome with
    | ok _ s' =>
      have hloaded := hpage.of_ok hrun
      have hrest := h.of_ok hrun
      cases k with
      | zero =>
        intro range hrange
        refine (loadPages_grows elf header targetAs permissions _ count).safe hrest range ?_
        rw [hloaded.reads]
        exact List.mem_append_right _ hrange
      | succ k =>
        have hgrant : s'.Granting := by
          rw [Server.Granting, hloaded.answers]
          exact hs
        have hshift : page + FRAME_SIZE * (k + 1) = page + FRAME_SIZE + FRAME_SIZE * k := by ring
        rw [hshift] at hfits ⊢
        exact ih hgrant hrest k (by omega) hfits
    | stop stop s' =>
      have hstopped := hpage.of_stop hrun
      have hfine := h.of_stop hrun
      obtain ⟨-, n, hn⟩ | ⟨-, hover⟩ | ⟨hstop, -⟩ := hstopped.cause
      · exact absurd hn (hs n)
      · exact absurd hfits (by omega)
      · exact absurd hstop hfine.2.2.2

/-- The file bytes of all pages together: if the range of every page lies inside, then
so does everything that is copied. -/
theorem copied_inside (h : ∀ k < pageCount header.pageStart
      (header.virtualAddress + header.memorySize),
      header.pageStart + FRAME_SIZE * k + FRAME_SIZE < USIZE_END →
      ∀ range ∈ header.pageReads elf.bytes.start (header.pageStart + FRAME_SIZE * k),
        range.Inside elf.bytes) (hcopied : 0 < header.copied) :
    header.fileOffset + header.copied ≤ elf.bytes.length := by
  obtain ⟨haligned, hstart, hendAligned, -⟩ := header.pagesEnd_spec
  -- The page of the last byte copied.
  generalize hk : (header.virtualAddress + header.copied - 1 - header.pageStart) / FRAME_SIZE = k
  generalize hpage : header.pageStart + FRAME_SIZE * k = page
  have hlast : page ≤ header.virtualAddress + header.copied - 1
      ∧ header.virtualAddress + header.copied - 1 < page + FRAME_SIZE
      ∧ page % FRAME_SIZE = 0 := by
    simp only [FRAME_SIZE] at *
    omega
  have hle : header.virtualAddress + header.copied ≤ header.pagesEnd
      ∧ header.virtualAddress + header.copied ≤ USIZE_END - FRAME_SIZE
      ∧ header.copied ≤ header.fileSize := by
    unfold ProgramHeader.copied at hcopied ⊢
    omega
  have hin : page + FRAME_SIZE ≤ header.pagesEnd := by
    simp only [FRAME_SIZE] at *
    omega
  have hcount : k < pageCount header.pageStart (header.virtualAddress + header.memorySize) := by
    unfold ProgramHeader.pagesEnd at hin
    rw [← hpage, add_assoc, Nat.add_le_add_iff_left, ← Nat.mul_succ] at hin
    exact Nat.le_of_mul_le_mul_left hin (by decide)
  have hfits : page + FRAME_SIZE < USIZE_END := by
    simp only [FRAME_SIZE, USIZE_END] at *
    omega
  have hcopyStart : header.copyStart page = max page header.virtualAddress := by
    unfold ProgramHeader.copyStart
    omega
  have hcopyEnd : header.virtualAddress + header.copied ≤ header.copyEnd page := by
    unfold ProgramHeader.copyEnd
    omega
  have hcopy : header.copyStart page < header.copyEnd page := by omega
  have hinside := h k hcount (hpage ▸ hfits)
  rw [hpage, ProgramHeader.pageReads, if_pos hcopy] at hinside
  have hrange := (hinside _ List.mem_cons_self).2
  dsimp only [ProgramHeader.source] at hrange
  omega

theorem loadHeader_safe (hlen : elf.bytes.length < USIZE_END)
    (h : header.Loaded → header.Contained elf.bytes) {s : Server} (hs : Safe elf s) :
    (loadHeader elf targetAs header).Sat s
      (fun _ s' => Safe elf s' ∧ (header.Loaded → header.BelowTop)) (Fine elf) := by
  unfold loadHeader
  by_cases hskip : header.segmentType ≠ .load ∨ header.memorySize = 0
  · rw [if_pos hskip]
    exact ⟨hs, fun hloaded => absurd hloaded.1 (hskip.resolve_right hloaded.2)⟩
  · rw [if_neg hskip]
    rw [not_or, not_not] at hskip
    have hcontained := h hskip
    obtain ⟨haligned, -, hendAligned, hpos, -⟩ := header.pagesEnd_spec
    rw [Prog.sat_bind, sat_addUsize_of_lt hcontained.segmentEnd, Prog.sat_bind,
      sat_addUsize_of_lt hcontained.fileEnd]
    refine (loadPages_safe hcontained hlen haligned rfl hs).mono ?_ (fun _ _ hfine => hfine)
    intro _ s' hsafe
    refine ⟨hsafe.1, fun _ => ?_⟩
    have hcount : 0 < pageCount header.pageStart
        (header.virtualAddress + header.memorySize) := by
      have := hskip.2
      simp only [pageCount, ProgramHeader.pageStart, alignDownToFrame, FRAME_SIZE]
      omega
    have htop := hsafe.2 hcount
    unfold ProgramHeader.BelowTop
    simp only [FRAME_SIZE, USIZE_END] at *
    omega

theorem loadHeader_granted {s : Server} (hs : s.Granting) :
    (loadHeader elf targetAs header).Sat s (fun _ s' => s'.Granting)
      (fun stop _ => stop = .overflow .segmentEnd ∨ stop = .overflow .fileEnd
        ∨ stop = .overflow .fileOffset ∨ (header.Loaded ∧ ¬ header.BelowTop)) := by
  unfold loadHeader
  by_cases hskip : header.segmentType ≠ .load ∨ header.memorySize = 0
  · rw [if_pos hskip]
    exact hs
  · rw [if_neg hskip]
    rw [not_or, not_not] at hskip
    rw [Prog.sat_bind, sat_addUsize]
    refine ⟨fun _ => ?_, fun _ => .inl rfl⟩
    rw [Prog.sat_bind, sat_addUsize]
    refine ⟨fun _ => ?_, fun _ => .inr (.inl rfl)⟩
    refine (loadPages_granted hs).mono (fun _ _ h => h) ?_
    intro stop _ h
    refine .inr (.inr (h.imp_right fun h => ⟨hskip, fun htop => ?_⟩))
    obtain ⟨-, -, hendAligned, -, hbelow⟩ := header.pagesEnd_spec
    have hover : USIZE_END ≤ header.pagesEnd := h.2
    unfold ProgramHeader.BelowTop at htop
    simp only [FRAME_SIZE, USIZE_END] at *
    omega

theorem loadHeader_needs {s : Server} (hs : s.Granting) (hloaded : header.Loaded)
    (h : (loadHeader elf targetAs header).Sat s (fun _ s' => Safe elf s') (Fine elf)) :
    header.Contained elf.bytes := by
  unfold loadHeader at h
  rw [if_neg (by rw [not_or, not_not]; exact hloaded), Prog.sat_bind, sat_addUsize] at h
  have hsegment : header.virtualAddress + header.memorySize < USIZE_END := by
    by_contra hover
    exact (h.2 (not_lt.mp hover)).2.1 rfl
  replace h := h.1 hsegment
  rw [Prog.sat_bind, sat_addUsize] at h
  have hfile : header.virtualAddress + header.fileSize < USIZE_END := by
    by_contra hover
    exact (h.2 (not_lt.mp hover)).2.2.1 rfl
  exact ⟨hsegment, hfile, copied_inside (loadPages_needs hs (h.1 hfile))⟩

end Header

section Headers

variable {elf : Elf} {targetAs : ℕ}

/-- No header before ends in the last page, where the loader stops. -/
def Reached (earlier : List (Option ProgramHeader)) : Prop :=
  ∀ header, some header ∈ earlier → header.Loaded → header.BelowTop

/-- Every header that the loader comes to meets the condition. -/
def AllContained (bytes : Slice) (items : List (Option ProgramHeader)) : Prop :=
  ∀ earlier header later, items = earlier ++ some header :: later → Reached earlier →
    header.Loaded → header.Contained bytes

theorem AllContained.tail {bytes : Slice} {header : ProgramHeader}
    {items : List (Option ProgramHeader)} (h : AllContained bytes (some header :: items))
    (htop : header.Loaded → header.BelowTop) : AllContained bytes items := by
  intro earlier next later heq hreached
  refine h (some header :: earlier) next later (by rw [heq, List.cons_append]) ?_
  intro other hother
  rw [List.mem_cons] at hother
  obtain heq | hother := hother
  · cases heq
    exact htop
  · exact hreached other hother

theorem loadHeaders_safe (hlen : elf.bytes.length < USIZE_END)
    {items : List (Option ProgramHeader)} (h : AllContained elf.bytes items) {s : Server}
    (hs : Safe elf s) :
    (loadHeaders elf targetAs items).Sat s (fun _ s' => Safe elf s') (Fine elf) := by
  induction items generalizing s with
  | nil => exact hs
  | cons item rest ih =>
    cases item with
    | none => exact ⟨hs, by simp, by simp, by simp⟩
    | some header =>
      unfold loadHeaders
      rw [Prog.sat_bind]
      have hheader : header.Loaded → header.Contained elf.bytes :=
        h [] header rest rfl (fun _ h => absurd h List.not_mem_nil)
      refine (loadHeader_safe hlen hheader hs).mono ?_ (fun _ _ hfine => hfine)
      intro _ s' hs'
      exact ih (h.tail hs'.2) hs'.1

theorem loadHeaders_needs {items : List (Option ProgramHeader)}
    (hsome : ∀ item ∈ items, ∃ header, item = some header) {s : Server} (hs : s.Granting)
    (h : (loadHeaders elf targetAs items).Sat s (fun _ s' => Safe elf s') (Fine elf)) :
    AllContained elf.bytes items := by
  induction items generalizing s with
  | nil =>
    intro earlier header later heq
    cases earlier <;> cases heq
  | cons item rest ih =>
    obtain ⟨first, rfl⟩ := hsome _ List.mem_cons_self
    unfold loadHeaders at h
    rw [Prog.sat_bind] at h
    intro earlier header later heq hreached hloaded
    cases earlier with
    | nil =>
      cases heq
      refine loadHeader_needs hs hloaded (h.mono (fun _ s' hrest => ?_) (fun _ _ hfine => hfine))
      exact (loadHeaders_grows elf targetAs rest).safe hrest
    | cons other earlier =>
      cases heq
      have hgranted := @loadHeader_granted elf first targetAs s hs
      generalize hrun : loadHeader elf targetAs first s = outcome
      cases outcome with
      | ok _ s' =>
        have hrest := ih (fun item hitem => hsome item (List.mem_cons_of_mem _ hitem))
          (hgranted.of_ok hrun) (h.of_ok hrun)
        exact hrest earlier header later rfl
          (fun other hother => hreached other (List.mem_cons_of_mem _ hother)) hloaded
      | stop stop s' =>
        have hfine := (h.of_stop hrun).2
        obtain hstop | hstop | hstop | ⟨hfirst, htop⟩ := hgranted.of_stop hrun
        · exact absurd hstop hfine.1
        · exact absurd hstop hfine.2.1
        · exact absurd hstop hfine.2.2
        · exact absurd (hreached first List.mem_cons_self hfirst) htop

end Headers

section Image

variable {memory : ℕ → Byte} {elf : Elf} {headers : ProgramHeaders}

theorem LoadsInside.allContained (hheaders : elf.programHeaders = some headers)
    (h : LoadsInside memory elf) : AllContained elf.bytes (headers.items memory) := by
  have hsome (item : Option ProgramHeader) (hitem : item ∈ headers.items memory) :
      ∃ header, item = some header :=
    ProgramHeaders.items_isSome (Elf.programHeaders_full hheaders) hitem
  -- Where every call is granted, nothing but the headers can stop the loader.
  let server : Server := ⟨memory, fun _ => some 0, 0, fun _ _ => 0, none, [], []⟩
  have hrun := h 0 server rfl rfl
  unfold loadElf at hrun
  rw [Prog.sat_bind, Prog.sat_get, hheaders, Prog.sat_bind, Prog.sat_expect_some,
    Prog.sat_bind] at hrun
  exact loadHeaders_needs hsome (fun _ => Option.some_ne_none 0) hrun

theorem AllContained.loadsInside (hlen : elf.bytes.length < USIZE_END)
    (hheaders : elf.programHeaders = some headers)
    (h : AllContained elf.bytes (headers.items memory)) : LoadsInside memory elf := by
  intro targetAs server hmemory hreads
  have hs : Safe elf server := by
    rw [Safe, hreads]
    exact fun _ h => absurd h List.not_mem_nil
  unfold loadElf
  rw [Prog.sat_bind, Prog.sat_get, hheaders, Prog.sat_bind, Prog.sat_expect_some, Prog.sat_bind,
    hmemory]
  exact loadHeaders_safe hlen h hs

end Image

/-- For every image whose header and header table the parser accepts, the loader stays
inside the image and forms its sums without overflow if and only if every loaded header
that it comes to has its ends and its part of the file in range. -/
theorem load_elf_inside_iff (memory : ℕ → Byte) (bytes : Slice) (hlen : bytes.length ≤ ISIZE_MAX)
    (elf : Elf) (helf : Elf.parse memory bytes = some elf) (headers : ProgramHeaders)
    (hheaders : elf.programHeaders = some headers) :
    LoadsInside memory elf ↔ AllContained bytes (headers.items memory) := by
  obtain rfl := Elf.parse_bytes helf
  have hsmall : elf.bytes.length < USIZE_END := by
    simp only [ISIZE_MAX, USIZE_END] at *
    omega
  exact ⟨fun h => h.allContained hheaders, fun h => h.loadsInside hsmall hheaders⟩

/-- An image of 120 bytes with one segment of `size` bytes, all of them from the file. -/
def segmentImage (size : ℕ) : List Byte :=
  [0x7f, 0x45, 0x4c, 0x46, 2, 1, 1, 0] ++ leBytes 8 0 ++ leBytes 2 2 ++ leBytes 2 62
    ++ leBytes 4 1 ++ leBytes 8 0x400000 ++ leBytes 8 64 ++ leBytes 8 0 ++ leBytes 4 0
    ++ leBytes 2 64 ++ leBytes 2 56 ++ leBytes 2 1 ++ leBytes 6 0
    ++ leBytes 4 1 ++ leBytes 4 5 ++ leBytes 8 0 ++ leBytes 8 0x400000 ++ leBytes 8 0x400000
    ++ leBytes 8 size ++ leBytes 8 size ++ leBytes 8 4096

def segmentMemory (size : ℕ) : ℕ → Byte := fun p => (segmentImage size).getD p 0

/-- What the parser makes of it. -/
def segmentElf : Elf :=
  ⟨⟨0, 120⟩, ⟨[0x7f, 0x45, 0x4c, 0x46], .elf64, .little, 1, 0, leBytes 8 0, .executable, .amd64,
    1, 0x400000, 64, 0, 0, 64, 56, 1, 0, 0, 0⟩⟩

def segmentHeaders : ProgramHeaders := ⟨⟨64, 56⟩, .elf64, .little, 56, 1⟩

def segmentHeader (size : ℕ) : ProgramHeader :=
  ⟨.load, 5, 0, 0x400000, 0x400000, size, size, 4096⟩

theorem load_elf_inside_iff_small :
    Elf.parse (segmentMemory 120) ⟨0, 120⟩ = some segmentElf
      ∧ segmentElf.programHeaders = some segmentHeaders
      ∧ LoadsInside (segmentMemory 120) segmentElf := by
  have helf : Elf.parse (segmentMemory 120) ⟨0, 120⟩ = some segmentElf := by decide +kernel
  have hheaders : segmentElf.programHeaders = some segmentHeaders := by decide +kernel
  have hitems : segmentHeaders.items (segmentMemory 120) = [some (segmentHeader 120)] := by
    decide +kernel
  refine ⟨helf, hheaders, ?_⟩
  rw [load_elf_inside_iff _ _ (by decide) _ helf _ hheaders, hitems]
  intro earlier header later heq _ _
  cases earlier with
  | nil =>
    obtain rfl : segmentHeader 120 = header := Option.some.inj (List.cons.inj heq).1
    exact ⟨by decide, by decide, fun _ => by decide⟩
  | cons first earlier =>
    have hlength := congrArg List.length heq
    simp at hlength

/-- The segment is longer than the image: the loader reads past its end. -/
theorem load_elf_overruns :
    ¬ ∀ (memory : ℕ → Byte) (bytes : Slice) (elf : Elf), bytes.length ≤ ISIZE_MAX →
      Elf.parse memory bytes = some elf → elf.programHeaders ≠ none → LoadsInside memory elf := by
  intro h
  have helf : Elf.parse (segmentMemory 512) ⟨0, 120⟩ = some segmentElf := by decide +kernel
  have hheaders : segmentElf.programHeaders = some segmentHeaders := by decide +kernel
  have hitems : segmentHeaders.items (segmentMemory 512) = [some (segmentHeader 512)] := by
    decide +kernel
  have hinside := h _ _ _ (by decide) helf (by rw [hheaders]; exact Option.some_ne_none _)
  have hcontained := hinside.allContained hheaders
  rw [hitems] at hcontained
  have hheader := hcontained [] (segmentHeader 512) [] rfl (fun _ h => absurd h List.not_mem_nil)
    ⟨rfl, by decide⟩
  exact absurd (hheader.file (by decide)) (by decide)

end Omega3

end Dusk
