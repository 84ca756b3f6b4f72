import Dusk.Proofs.Tree

/-! The invariant of the memory subsystem, and how it survives the elementary edits
of page tables: a private write, a leaf, a chain of new tables, an empty table, a
root. The cached translations of user pages are those of the active root; while a
page is being unmapped it is exempt. -/

namespace Dusk

open Lib Radix

theorem owned_of_imp {mode : PagingMode} {kroot r i : ℕ} {p : List ℕ}
    (h : p = [] → r = kroot ∨ i < 256) : (pteShape mode kroot).Owned r p i := h

/-- A cached translation of a user page is a leaf of the active root. -/
def Cached (L : Layout) (m : Machine) (t : TlbEntry) : Prop :=
  t.page % FRAME_SIZE = 0 ∧ t.isGlobal = false ∧
    ∃ e, LeafAt L m m.cr3 (pagePath m.paging.mode t.page) e ∧ entryFrame m.paging e = t.frame

/-- What is open while page tables are being changed: cached translations of `pages`
may be stale and the tables of `empty` may have no entry. In a `mixed` forest user pages
and kernel pages may lie anywhere. -/
structure Exempt where
  pages : ℕ → Prop
  empty : ℕ → Prop
  mixed : Prop

/-- Nothing is open. -/
def steady (mixed : Prop) : Exempt := ⟨fun _ => False, fun _ => False, mixed⟩

abbrev noPages : Exempt := steady False

/-- The page tables themselves, whatever they are used for. -/
structure PtInv (empty : ℕ → Prop) (L : Layout) (m : Machine) : Prop where
  alloc : AllocInv L m
  tree : Tree L m
  kroot : L.role L.kroot = .table L.kroot []
  shared : ∀ r, L.role r = .table r [] → ∀ i, 256 ≤ i → i < 512 →
    m.mem.word r i = m.mem.word L.kroot i
  zero : ∀ f r p i, L.role f = .table r p → i < 512 →
    PageTableEntry.isPresent (m.mem.word f i) = false → m.mem.word f i = PageTableEntry.null
  full : ∀ f r p, L.role f = .table r p → p ≠ [] → ¬ empty f →
    ∃ i < 512, PageTableEntry.isPresent (m.mem.word f i) = true
  closed : Closed L m

/-- User pages and their tables are kept apart from the kernel's, and the processor
caches no user page that is not mapped. -/
structure Halves (pages : ℕ → Prop) (L : Layout) (m : Machine) : Prop where
  lower : ∀ r q e i, LeafAt L m r q e → q.getLast? = some i → i < 256 →
    r ≠ L.kroot ∧ PageTableEntry.isGlobal e = false
  flags : ∀ f r p i, L.role f = .table r p → p.length < m.paging.mode.intermediateLevels.length →
    i < 512 → (p = [] → r = L.kroot ∨ i < 256) →
    PageTableEntry.isPresent (m.mem.word f i) = true →
    PageTableEntry.isUserAccessible (m.mem.word f i) = decide (r ≠ L.kroot)
  active : L.role m.cr3 = .table m.cr3 [] ∨ ∀ n, m.fills n = []
  tlb : ∀ t ∈ m.tlb, t.page < USER_SPACE_END → ¬ pages t.page → Cached L m t

structure MemInv (X : Exempt) (L : Layout) (m : Machine) : Prop extends PtInv X.empty L m where
  bound : ¬ X.mixed → startAddress m.frameCount ≤ m.paging.physicalAddressLimit
  halves : ¬ X.mixed → Halves X.pages L m

/-- What the edits of page tables leave alone besides memory. -/
structure Regs (m m' : Machine) : Prop where
  cr3 : m'.cr3 = m.cr3
  kernelStackTop : m'.kernelStackTop = m.kernelStackTop
  paging : m'.paging = m.paging
  fills : m'.fills = m.fills
  handBacks : m'.handBacks = m.handBacks
  serial : m'.serial = m.serial
  directMap : m'.allocator.directMap = m.allocator.directMap
  bitmap : m'.allocator.bitmap = m.allocator.bitmap

theorem Regs.refl (m : Machine) : Regs m m := ⟨rfl, rfl, rfl, rfl, rfl, rfl, rfl, rfl⟩

theorem Regs.trans {m m' m'' : Machine} (h : Regs m m') (h' : Regs m' m'') : Regs m m'' :=
  ⟨h'.cr3.trans h.cr3, h'.kernelStackTop.trans h.kernelStackTop, h'.paging.trans h.paging,
    h'.fills.trans h.fills, h'.handBacks.trans h.handBacks, h'.serial.trans h.serial,
    h'.directMap.trans h.directMap, h'.bitmap.trans h.bitmap⟩

theorem AllocOnly.regs {m m' : Machine} (h : AllocOnly m m') : Regs m m' := by
  rw [AllocOnly] at h
  constructor <;> rw [h]

theorem AllocOnly.tlb {m m' : Machine} (h : AllocOnly m m') : m'.tlb = m.tlb := by
  rw [AllocOnly] at h
  rw [h]

theorem Regs.table {m m' : Machine} (h : Regs m m') (r : ℕ) : m'.table r = m.table r := by
  rw [Machine.table, Machine.table, h.directMap, h.paging]

/-- The machine after its free moment. -/
def Machine.ticked (m : Machine) : Machine :=
  { m with
    tlb := (m.fills m.moment).filterMap (cachedTranslation m) ++ m.tlb
    moment := m.moment + 1 }

theorem ticked_regs (m : Machine) : Regs m m.ticked := ⟨rfl, rfl, rfl, rfl, rfl, rfl, rfl, rfl⟩

@[simp] theorem ticked_mem (m : Machine) : m.ticked.mem = m.mem := rfl

theorem withMem_regs (m : Machine) (mem : PhysMem) : Regs m (m.withMem mem) :=
  ⟨rfl, rfl, rfl, rfl, rfl, rfl, rfl, rfl⟩

section Programs

variable {m : Machine} {E : Panic → Machine → Prop}

@[simp] theorem sat_tick {Q : Unit → Machine → Prop} : tick.Sat m Q E ↔ Q () m.ticked := Iff.rfl

@[simp] theorem sat_storeEntry {Q : Unit → Machine → Prop} (location : EntryLocation)
    (e : Word) : (storeEntry location e).Sat m Q E ↔
      Q () (m.withMem (m.mem.setWord location.table location.index e)).ticked := Iff.rfl

end Programs

theorem word_setWord_eq (mem : PhysMem) (f i : ℕ) (e : Word) :
    (mem.setWord f i e).word = write mem.word f i e := by
  funext g j
  simp [write]

variable {X X' : Exempt} {L L' : Layout} {m m' : Machine}

namespace PtInv

variable {empty empty' : ℕ → Prop}

/-- Registers and caches do not matter. -/
theorem registers (h : PtInv empty L m) (hm : m'.mem = m.mem) (ha : m'.allocator = m.allocator)
    (hp : m'.paging = m.paging) : PtInv empty L m' := by
  obtain ⟨halloc, htree, hkroot, hshared, hzero, hfull, hclosed⟩ := h
  refine ⟨halloc.congr ha (fun _ _ => by rw [hm]), ?_, hkroot, ?_, ?_, ?_, ?_⟩
  · rw [Tree, hm, hp]
    exact htree
  · rw [hm]
    exact hshared
  · rw [hm]
    exact hzero
  · rw [hm]
    exact hfull
  · unfold Closed UserPath LeafAt
    rw [hm, hp]
    exact hclosed

/-- A table is empty no longer. -/
theorem refill (h : PtInv empty L m)
    (hfull : ∀ f r p, L.role f = .table r p → p ≠ [] → ¬ empty' f → empty f →
      ∃ i < 512, PageTableEntry.isPresent (m.mem.word f i) = true) : PtInv empty' L m := by
  refine { h with full := ?_ }
  intro f r p hf hp hne
  by_cases he : empty f
  · exact hfull f r p hf hp hne he
  · exact h.full f r p hf hp he

end PtInv

/-- The tables above a leaf. -/
theorem leaf_ancestor (ht : Tree L m) {r i j : ℕ} {p q : List ℕ} {e : Word}
    (hl : LeafAt L m r (j :: p) e) (hs : (i :: q) <:+ p) :
    ∃ f g, L.role f = .table r q ∧ L.role g = .table r (i :: q) := by
  obtain ⟨_, _, _, t, htab, _⟩ := hl
  obtain ⟨pre, rfl⟩ := hs
  obtain ⟨g, hg⟩ := ht.ancestor htab
  obtain ⟨_, _, f, hf, _⟩ := ht.up g r i q hg
  exact ⟨f, g, Layout.typing_some.mp hf, Layout.typing_some.mp hg⟩

/-- The way to a leaf stays user accessible where its tables and their user bits stay. -/
theorem UserPath.keep (ht : Tree L m) (ht' : Tree L' m') {r j : ℕ} {p : List ℕ} {e : Word}
    (hl : LeafAt L m r (j :: p) e) (hu : UserPath L m r p)
    (hkeep : ∀ f g i q, (i :: q) <:+ p → L.role f = .table r q → L.role g = .table r (i :: q) →
      L'.role f = .table r q ∧ (PageTableEntry.isUserAccessible (m.mem.word f i) = true →
        PageTableEntry.isUserAccessible (m'.mem.word f i) = true)) :
    UserPath L' m' r p := by
  intro i q f hs hf
  obtain ⟨f₀, g, hf₀, hg⟩ := leaf_ancestor ht hl hs
  obtain ⟨hrole, huser⟩ := hkeep f₀ g i q hs hf₀ hg
  rw [ht'.unique (Layout.typing_some.mpr hf) (Layout.typing_some.mpr hrole)]
  exact huser (hu i q f₀ hs hf₀)

namespace MemInv

theorem addr_lt (h : MemInv X L m) (hx : ¬ X.mixed) {f : ℕ} (hf : (L.role f).state ≠ .reserved) :
    startAddress f < m.paging.physicalAddressLimit := by
  have hlt := h.alloc.lt_of_allocated hf
  have hb := h.bound hx
  simp only [startAddress, FRAME_SIZE] at hb ⊢
  omega

theorem lower (h : MemInv noPages L m) : ∀ r q e i, LeafAt L m r q e → q.getLast? = some i →
    i < 256 → r ≠ L.kroot ∧ PageTableEntry.isGlobal e = false := (h.halves id).lower

theorem active (h : MemInv noPages L m) :
    L.role m.cr3 = .table m.cr3 [] ∨ ∀ n, m.fills n = [] := (h.halves id).active

theorem tlb (h : MemInv noPages L m) {t : TlbEntry} (ht : t ∈ m.tlb)
    (hp : t.page < USER_SPACE_END) : Cached L m t := (h.halves id).tlb t ht hp id

/-- Registers and caches change. -/
theorem registers (h : MemInv X L m) (hm : m'.mem = m.mem) (ha : m'.allocator = m.allocator)
    (hp : m'.paging = m.paging)
    (hactive : ¬ X.mixed → L.role m'.cr3 = .table m'.cr3 [] ∨ ∀ n, m'.fills n = [])
    (htlb : ¬ X.mixed → ∀ t ∈ m'.tlb, t.page < USER_SPACE_END → ¬ X.pages t.page → Cached L m' t) :
    MemInv X L m' := by
  refine ⟨h.toPtInv.registers hm ha hp, ?_, ?_⟩
  · rw [Machine.frameCount, ha, hp]
    exact h.bound
  intro hx
  obtain ⟨hlower, hflags, _, _⟩ := h.halves hx
  refine ⟨?_, ?_, hactive hx, htlb hx⟩
  · unfold LeafAt
    rw [hm, hp]
    exact hlower
  · rw [hm, hp]
    exact hflags

/-- A root that the invariant knows keeps its place under the same typing. -/
theorem role_of_typing (hT : L'.typing = L.typing) {f r : ℕ} {p : List ℕ} :
    L'.role f = .table r p ↔ L.role f = .table r p := by
  rw [← Layout.typing_some, ← Layout.typing_some, hT]

/-- The processor caches only leaves of the active root. -/
theorem tick (h : MemInv X L m) : MemInv X L m.ticked := by
  refine h.registers rfl rfl rfl (fun hx => (h.halves hx).active) ?_
  intro hx t ht hpage hX
  rcases List.mem_append.mp ht with ht | ht
  · obtain ⟨a, ha, hcached⟩ := List.mem_filterMap.mp ht
    rcases (h.halves hx).active with hcr3 | hfills
    · rw [cachedTranslation] at hcached
      split_ifs at hcached with hcan
      simp only [Option.bind_eq_bind, Option.bind_eq_some_iff, Option.pure_def,
        Option.some_inj] at hcached
      obtain ⟨e, hwalk, frame, hframe, rfl⟩ := hcached
      have halt : a < USER_SPACE_END := by
        simp only [USER_SPACE_END, alignDownToFrame, FRAME_SIZE] at hpage ⊢
        omega
      have hroot := rootIndex_user m.paging.mode halt
      have hleaf := (walkLeaf_iff h.tree hcr3 (.inr hroot) e).mp hwalk
      refine ⟨?_, ((h.halves hx).lower _ _ _ _ hleaf (pagePath_getLast _ _) hroot).2, e, ?_, ?_⟩
      · simp only [alignDownToFrame, FRAME_SIZE]
        omega
      · show LeafAt L m m.cr3 (pagePath m.paging.mode (alignDownToFrame a)) e
        rwa [pagePath_alignDown]
      · rw [leafFrame_eq] at hframe
        split_ifs at hframe
        exact Option.some.inj hframe
    · rw [hfills] at ha
      cases ha
  · exact (h.halves hx).tlb t ht hpage hX

/-- Frames that are not tables change, or change their use among such. -/
theorem retype (h : MemInv X L m) (hT : L'.typing = L.typing) (hk : L'.kroot = L.kroot)
    (halloc : AllocInv L' m') (hregs : Regs m m') (htlb : m'.tlb = m.tlb)
    (hwords : ∀ f r p, L.role f = .table r p → m'.mem.word f = m.mem.word f) :
    MemInv X L' m' := by
  have hleaf : ∀ r q e, LeafAt L' m' r q e ↔ LeafAt L m r q e := by
    intro r q e
    rw [LeafAt, LeafAt, hT, hk, hregs.paging]
    apply Leaf.congr
    intro f r p i hf _ _
    rw [hwords f r p (Layout.typing_some.mp hf)]
  have hrole : ∀ {f r p}, L'.role f = .table r p ↔ L.role f = .table r p := role_of_typing hT
  have htree : Tree L' m' := by
    rw [Tree, hT, hk, hregs.paging]
    apply h.tree.congr
    intro f r p i hf _ _
    rw [hwords f r p (Layout.typing_some.mp hf)]
  refine ⟨⟨halloc, htree, ?_, ?_, ?_, ?_, ?_⟩, ?_, ?_⟩
  · rw [hk, hrole]
    exact h.kroot
  · intro r hr i hi hi'
    rw [hrole] at hr
    rw [hk, hwords r r [] hr, hwords L.kroot L.kroot [] h.kroot]
    exact h.shared r hr i hi hi'
  · intro f r p i hf
    rw [hrole] at hf
    rw [hwords f r p hf]
    exact h.zero f r p i hf
  · intro f r p hf
    rw [hrole] at hf
    rw [hwords f r p hf]
    exact h.full f r p hf
  · intro r i p e hl hu
    rw [hleaf] at hl
    refine (h.closed r i p e hl hu).keep h.tree htree hl ?_
    intro f g i q _ hf _
    exact ⟨hrole.mpr hf, fun hu => by rwa [hwords f r q hf]⟩
  · rw [Machine.frameCount, hregs.bitmap, hregs.paging]
    exact h.bound
  · intro hx
    obtain ⟨hlower, hflags, hactive, htlbs⟩ := h.halves hx
    refine ⟨?_, ?_, ?_, ?_⟩
    · intro r q e i hl
      rw [hleaf] at hl
      rw [hk]
      exact hlower r q e i hl
    · intro f r p i hf hp hi ho
      rw [hrole] at hf
      rw [hregs.paging] at hp
      rw [hk] at ho ⊢
      rw [hwords f r p hf]
      exact hflags f r p i hf hp hi ho
    · rw [hregs.cr3, hregs.fills, hrole]
      exact hactive
    · intro t ht hp hX
      rw [htlb] at ht
      obtain ⟨hal, hg, e, he, hfr⟩ := htlbs t ht hp hX
      refine ⟨hal, hg, e, ?_, by rw [hregs.paging, hfr]⟩
      rw [hleaf, hregs.cr3, hregs.paging]
      exact he

/-- Writes to frames that hold neither tables nor the bitmap. -/
theorem writeData (h : MemInv X L m) (mem : PhysMem)
    (hwords : ∀ f, (∃ r p, L.role f = .table r p) ∨ L.role f = .storage →
      mem.word f = m.mem.word f) : MemInv X L (m.withMem mem) := by
  refine h.retype rfl rfl ?_ (withMem_regs m mem) rfl (fun f r p hf => hwords f (.inl ⟨r, p, hf⟩))
  exact h.alloc.congr rfl (fun f hf => hwords f (.inr hf))

theorem typing_set_none {f : ℕ} {ρ : Role} (hf : L.typing f = none) (hρ : ρ.typing = none) :
    (L.set f ρ).typing = L.typing := by
  rw [Layout.typing_set, hρ, ← hf, Function.update_eq_self]

/-- A frame that is not a table takes another role of the same state. -/
theorem retag (h : MemInv X L m) {f : ℕ} {o : Owner} (hf : L.role f = .data o) (o' : Owner) :
    MemInv X (L.set f (.data o')) m := by
  refine h.retype (typing_set_none ?_ rfl) rfl ?_ (Regs.refl m) rfl (fun _ _ _ _ => rfl)
  · simp [Layout.typing, hf, Role.typing]
  · exact h.alloc.retag (by simp [hf]) (by simp [hf, Role.state])

end MemInv

/-- The effect of an edit on the two halves, with the leaves it adds and removes. -/
theorem Halves.edit {pages pages' : ℕ → Prop} (h : Halves pages L m) (hk : L'.kroot = L.kroot)
    (hregs : Regs m m') (htlb : m'.tlb = m.tlb)
    (hroots : ∀ r, L'.role r = .table r [] ↔ L.role r = .table r [])
    (hnew : ∀ r q e, LeafAt L' m' r q e → LeafAt L m r q e ∨
      ∀ i, q.getLast? = some i → i < 256 → r ≠ L.kroot ∧ PageTableEntry.isGlobal e = false)
    (hflags : ∀ f r p i, L'.role f = .table r p → p.length < m.paging.mode.intermediateLevels.length →
      PageTableEntry.isPresent (m'.mem.word f i) = true →
      (L.role f = .table r p ∧ m'.mem.word f i = m.mem.word f i) ∨
        PageTableEntry.isUserAccessible (m'.mem.word f i) = decide (r ≠ L.kroot))
    (hold : ∀ v, v % FRAME_SIZE = 0 → v < USER_SPACE_END → ¬ pages' v → ∀ e,
      LeafAt L m m.cr3 (pagePath m.paging.mode v) e →
        LeafAt L' m' m.cr3 (pagePath m.paging.mode v) e)
    (hX : ∀ v, pages v → pages' v) : Halves pages' L' m' := by
  refine ⟨?_, ?_, ?_, ?_⟩
  · intro r q e i hl hq hi
    rw [hk]
    rcases hnew r q e hl with hl' | hn
    · exact h.lower r q e i hl' hq hi
    · exact hn i hq hi
  · intro f r p i hf hp hi ho hpres
    rw [hregs.paging] at hp
    rw [hk] at ho ⊢
    rcases hflags f r p i hf hp hpres with ⟨hf', he⟩ | hu
    · rw [he] at hpres ⊢
      exact h.flags f r p i hf' hp hi ho hpres
    · exact hu
  · rw [hregs.cr3, hregs.fills, hroots]
    exact h.active
  · intro t ht hp hx
    rw [htlb] at ht
    obtain ⟨hal, hg, e, he, hfr⟩ := h.tlb t ht hp (fun hXt => hx (hX _ hXt))
    refine ⟨hal, hg, e, ?_, by rw [hregs.paging, hfr]⟩
    rw [hregs.cr3, hregs.paging]
    exact hold t.page hal hp hx e he

/-- Write an entry of a leaf table. A present entry that is overwritten leaves the
cached translations of its page stale, and its table may be empty afterwards. -/
theorem MemInv.setLeaf (h : MemInv X L m) (X' : Exempt) (hmixed : X'.mixed = X.mixed)
    {f r i : ℕ} {p : List ℕ} (hf : L.role f = .table r p)
    (hp : p.length = m.paging.mode.intermediateLevels.length) (hi : i < 512) (e : Word)
    (hnull : PageTableEntry.isPresent e = false → e = PageTableEntry.null ∧ X'.empty f)
    (hclosed : PageTableEntry.isUserAccessible e = true → UserPath L m r p)
    (hnew : ¬ X.mixed → PageTableEntry.isPresent e = true → ∀ j, (i :: p).getLast? = some j →
      j < 256 → r ≠ L.kroot ∧ PageTableEntry.isGlobal e = false)
    (hold : PageTableEntry.isPresent (m.mem.word f i) = false ∨ (m.cr3 = r →
      ∀ v, v % FRAME_SIZE = 0 → v < USER_SPACE_END → pagePath m.paging.mode v = i :: p →
        X'.pages v))
    (hpages : ∀ v, X.pages v → X'.pages v) (hempty : ∀ g, X.empty g → X'.empty g) :
    MemInv X' L (m.withMem (m.mem.setWord f i e)) ∧
    ∀ r' q e', LeafAt L (m.withMem (m.mem.setWord f i e)) r' q e' ↔
      if r' = r ∧ q = i :: p then e' = e ∧ PageTableEntry.isPresent e = true
      else LeafAt L m r' q e' := by
  have htyped := Layout.typing_some.mpr hf
  have hpos := levels_pos m.paging.mode
  have hleaf : ∀ r' q e', LeafAt L (m.withMem (m.mem.setWord f i e)) r' q e' ↔
      if r' = r ∧ q = i :: p then e' = e ∧ PageTableEntry.isPresent e = true
      else LeafAt L m r' q e' := by
    intro r' q e'
    simp only [LeafAt, Machine.withMem, word_setWord_eq]
    exact Leaf.write_leaf h.tree htyped hp hi e
  -- only the leaf table is written, so that every inner table keeps its words
  have hinner : ∀ {g r' q}, L.role g = .table r' q →
      q.length < m.paging.mode.intermediateLevels.length → g ≠ f := by
    rintro g r' q hg hq rfl
    rw [hf] at hg
    cases hg
    omega
  have hroot : ∀ {r'}, L.role r' = .table r' [] → r' ≠ f := fun hr' => hinner hr' hpos
  have htree : Tree L (m.withMem (m.mem.setWord f i e)) := by
    rw [Tree]
    simp only [Machine.withMem, word_setWord_eq]
    apply h.tree.congr
    intro g r' p' j hg hlt _
    rw [write, if_neg]
    rintro ⟨he, _⟩
    exact hinner (Layout.typing_some.mp hg) hlt he
  have hpath : ∀ {r' j q e'}, LeafAt L m r' (j :: q) e' → UserPath L m r' q →
      UserPath L (m.withMem (m.mem.setWord f i e)) r' q := by
    intro r' j q e' hl hu
    refine hu.keep h.tree htree hl ?_
    intro g c i' q' hs hg hc
    refine ⟨hg, fun hu => ?_⟩
    have hdepth := h.tree.depth c _ _ (Layout.typing_some.mpr hc)
    rwa [Machine.withMem, PhysMem.frame_setWord _ (hinner hg (by simpa [pteShape] using hdepth))]
  refine ⟨⟨⟨?_, htree, h.kroot, ?_, ?_, ?_, ?_⟩, by rw [hmixed]; exact h.bound, ?_⟩, hleaf⟩
  · refine h.alloc.congr rfl ?_
    intro g hg
    apply PhysMem.frame_setWord
    rintro rfl
    rw [hf] at hg
    cases hg
  · intro r' hr' j hj hj'
    rw [Machine.withMem, PhysMem.frame_setWord _ (hroot hr'),
      PhysMem.frame_setWord _ (hroot h.kroot)]
    exact h.shared r' hr' j hj hj'
  · intro g r' q j hg hj
    rw [Machine.withMem, PhysMem.word_setWord]
    split_ifs
    · exact fun hd => (hnull hd).1
    · exact h.zero g r' q j hg hj
  · intro g r' q hg hq hne
    obtain ⟨j, hj, hpres⟩ := h.full g r' q hg hq (fun he => hne (hempty g he))
    by_cases hgf : g = f
    · refine ⟨i, hi, ?_⟩
      rw [Machine.withMem, PhysMem.word_setWord, if_pos ⟨hgf, rfl⟩]
      by_contra hd
      exact hne (hgf ▸ (hnull (by simpa using hd)).2)
    · refine ⟨j, hj, ?_⟩
      rwa [Machine.withMem, PhysMem.frame_setWord _ hgf]
  · intro r' j q e' hl hu
    rw [hleaf] at hl
    split_ifs at hl with hsame
    · obtain ⟨rfl, hq⟩ := hsame
      cases hq
      obtain ⟨rfl, hpres⟩ := hl
      intro i' q' g hs hg
      have hlt : q'.length < m.paging.mode.intermediateLevels.length := by
        have := hs.length_le
        simp only [List.length_cons] at this
        omega
      rw [Machine.withMem, PhysMem.frame_setWord _ (hinner hg hlt)]
      exact hclosed hu i' q' g hs hg
    · exact hpath hl (h.closed r' j q e' hl hu)
  · intro hx
    rw [hmixed] at hx
    refine (h.halves hx).edit rfl (withMem_regs _ _) rfl (fun _ => Iff.rfl) ?_ ?_ ?_ hpages
    · intro r' q e' hl
      rw [hleaf] at hl
      split_ifs at hl with hsame
      · obtain ⟨rfl, rfl⟩ := hsame
        obtain ⟨rfl, hpres⟩ := hl
        exact .inr (hnew hx hpres)
      · exact .inl hl
    · intro g r' q j hg hq _
      left
      exact ⟨hg, by rw [Machine.withMem, PhysMem.frame_setWord _ (hinner hg hq)]⟩
    · intro v hv hv' hxv e' hl
      rw [hleaf, if_neg]
      · exact hl
      rintro ⟨hr, hq⟩
      rcases hold with hdead | hstale
      · rw [hq, hr] at hl
        obtain ⟨_, _, hlive, he⟩ := (Leaf.of_table h.tree htyped).mp hl
        rw [← he] at hlive
        simp [pteCodec, hdead] at hlive
      · exact hxv (hstale hr v hv hv' hq)

/-- Give the frames of a chain their places below a path. -/
def Layout.publish (L : Layout) (r : ℕ) (q : List ℕ) : List ℕ → List ℕ → Layout
  | [], _ => L
  | g :: gs, is => match gs, is with
    | [], _ => L.set g (.table r q)
    | _ :: _, [] => L.set g (.table r q)
    | g' :: gs, i :: is => (L.set g (.table r q)).publish r (i :: q) (g' :: gs) is

theorem publish_typing (L : Layout) (r : ℕ) (q gs is : List ℕ) :
    (L.publish r q gs is).typing = chainTyping L.typing r q gs is := by
  induction gs generalizing L q is with
  | nil => rfl
  | cons g gs ih =>
    cases gs with
    | nil =>
      rw [Layout.publish, chainTyping, Layout.typing_set]
      rfl
    | cons g' gs =>
      cases is with
      | nil =>
        rw [Layout.publish, chainTyping, Layout.typing_set]
        rfl
      | cons i is =>
        rw [Layout.publish, chainTyping, ih, Layout.typing_set]
        rfl

@[simp] theorem publish_kroot (L : Layout) (r : ℕ) (q gs is : List ℕ) :
    (L.publish r q gs is).kroot = L.kroot := by
  induction gs generalizing L q is with
  | nil => rfl
  | cons g gs ih =>
    cases gs with
    | nil => rfl
    | cons g' gs =>
      cases is with
      | nil => rfl
      | cons i is => exact ih (L.set g (.table r q)) (i :: q) is

theorem publish_alloc (r : ℕ) (q : List ℕ) {gs : List ℕ} (is : List ℕ) (h : AllocInv L m)
    (hgs : ∀ g ∈ gs, (L.role g).state = .allocated) : AllocInv (L.publish r q gs is) m := by
  have hstep : ∀ {L : Layout} {g : ℕ} {q : List ℕ}, AllocInv L m →
      (L.role g).state = .allocated → AllocInv (L.set g (.table r q)) m := by
    intro L g q h hg
    refine h.retag ?_ (by rw [hg]; rfl)
    intro hs
    simp [hs, Role.state] at hg
  induction gs generalizing L q is with
  | nil => exact h
  | cons g gs ih =>
    have hg := hstep (q := q) h (hgs g (by simp))
    cases gs with
    | nil => exact hg
    | cons g' gs =>
      cases is with
      | nil => exact hg
      | cons i is =>
        refine ih (i :: q) is hg ?_
        intro x hx
        by_cases hxg : x = g
        · rw [hxg, Layout.set_role_self]
          rfl
        · rw [Layout.set_role_of_ne L hxg]
          exact hgs x (by simp [hx])

/-- The frames of a chain become tables below its path, and no others do. -/
theorem publish_role (L : Layout) (r : ℕ) (q gs is : List ℕ) (hlen : gs.length = is.length + 1)
    (hq : q ≠ []) (f : ℕ) :
    (f ∉ gs → (L.publish r q gs is).role f = L.role f) ∧
    (f ∈ gs → ∃ p, p ≠ [] ∧ (L.publish r q gs is).role f = .table r p) := by
  induction gs generalizing L q is with
  | nil => simp at hlen
  | cons g gs ih =>
    cases gs with
    | nil =>
      constructor
      · intro hf
        exact Layout.set_role_of_ne L (by simpa using hf) _
      · intro hf
        simp only [List.mem_singleton] at hf
        exact ⟨q, hq, by rw [hf, Layout.publish, Layout.set_role_self]⟩
    | cons g' gs =>
      cases is with
      | nil => simp at hlen
      | cons i is =>
        obtain ⟨hout, hin⟩ := ih (L.set g (.table r q)) (i :: q) is
          (by simpa using hlen) (by simp)
        constructor
        · intro hf
          rw [Layout.publish, hout (fun h => hf (by simp [h])),
            Layout.set_role_of_ne L (fun h => hf (by simp [h]))]
        · intro hf
          rw [Layout.publish]
          by_cases hmem : f ∈ g' :: gs
          · exact hin hmem
          · have hfg : f = g := by
              rcases List.mem_cons.mp hf with h | h
              · exact h
              · exact absurd h hmem
            exact ⟨q, hq, by rw [hout hmem, hfg, Layout.set_role_self]⟩

/-- The root entries of a kernel table only change while there is no user root. -/
def RootFree (L : Layout) (r : ℕ) (p : List ℕ) : Prop :=
  p ≠ [] ∨ r ≠ L.kroot ∨ ∀ r', L.role r' = .table r' [] → r' = L.kroot

/-- The shared entries of the roots survive a write at a place a forest owns. -/
theorem MemInv.shared_write (h : MemInv X L m) {f r i : ℕ} {p : List ℕ}
    (hf : L.role f = .table r p) (ho : p = [] → r = L.kroot ∨ i < 256)
    (hfree : RootFree L r p) (e : Word) {r' : ℕ} (hr' : L.role r' = .table r' []) {j : ℕ}
    (hj : 256 ≤ j) (hj' : j < 512) :
    (m.mem.setWord f i e).word r' j = (m.mem.setWord f i e).word L.kroot j := by
  have hfr : p = [] → f = r := fun hp => h.tree.root f r (Layout.typing_some.mpr (hp ▸ hf))
  rcases hfree with hp | hr | hall
  · have hne : ∀ {x}, L.role x = .table x [] → x ≠ f := by
      rintro x hx rfl
      rw [hf] at hx
      cases hx
      exact hp rfl
    rw [PhysMem.frame_setWord _ (hne hr'), PhysMem.frame_setWord _ (hne h.kroot)]
    exact h.shared r' hr' j hj hj'
  · by_cases hp : p = []
    · have hlt : i < 256 := (ho hp).resolve_left hr
      simp only [PhysMem.word_setWord]
      rw [if_neg (by rintro ⟨_, rfl⟩; omega), if_neg (by rintro ⟨_, rfl⟩; omega)]
      exact h.shared r' hr' j hj hj'
    · have hne : ∀ {x}, L.role x = .table x [] → x ≠ f := by
        rintro x hx rfl
        rw [hf] at hx
        cases hx
        exact hp rfl
      rw [PhysMem.frame_setWord _ (hne hr'), PhysMem.frame_setWord _ (hne h.kroot)]
      exact h.shared r' hr' j hj hj'
  · rw [hall r' hr']

/-- Publish a chain of private tables with one write. -/
theorem MemInv.attachChain (h : MemInv X L m) (user : Bool) {f r i : ℕ} {p : List ℕ}
    (hf : L.role f = .table r p) (hi : i < 512) (ho : p = [] → r = L.kroot ∨ i < 256)
    (hfree : RootFree L r p) (hdead : PageTableEntry.isPresent (m.mem.word f i) = false)
    {g : ℕ} {gs is : List ℕ}
    (hc : Chain (pteCodec m.paging) (pteShape m.paging.mode L.kroot) m.mem.word (g :: gs) is)
    (hlen : p.length + 1 + is.length = m.paging.mode.intermediateLevels.length)
    (hgs : gs.length = is.length) (hnd : (g :: gs).Nodup)
    (hspare : ∀ x ∈ g :: gs, L.role x = .data .spare)
    (hlim : ∀ x ∈ g :: gs, startAddress x < m.paging.physicalAddressLimit)
    (hzero : ∀ x ∈ g :: gs, ∀ j < 512, PageTableEntry.isPresent (m.mem.word x j) = false →
      m.mem.word x j = PageTableEntry.null)
    (hfull : ∀ x ∈ g :: gs, ∃ j < 512, PageTableEntry.isPresent (m.mem.word x j) = true)
    (huser : ∀ x ∈ g :: gs, ∀ j, PageTableEntry.isPresent (m.mem.word x j) = true →
      PageTableEntry.isUserAccessible (m.mem.word x j) = user)
    (hpath : user = true → UserPath L m r p) (hstrict : ¬ X.mixed → user = decide (r ≠ L.kroot))
    (hnew : ¬ X.mixed → ∀ j e, PageTableEntry.isPresent e = true →
      m.mem.word ((g :: gs).getLast (by simp)) j = e →
      ∀ y, (j :: (is.reverse ++ i :: p)).getLast? = some y → y < 256 →
        r ≠ L.kroot ∧ PageTableEntry.isGlobal e = false) :
    let m' := m.withMem (m.mem.setWord f i (tableWord user g))
    MemInv X (L.publish r (i :: p) (g :: gs) is) m' ∧
    ∀ r' q e, LeafAt (L.publish r (i :: p) (g :: gs) is) m' r' q e ↔ LeafAt L m r' q e ∨
      ∃ j < 512, r' = r ∧ q = j :: (is.reverse ++ i :: p) ∧
        PageTableEntry.isPresent e = true ∧ m.mem.word ((g :: gs).getLast (by simp)) j = e := by
  intro m'
  have htyped := Layout.typing_some.mpr hf
  have hspareT : ∀ x ∈ g :: gs, L.typing x = none ∧ (pteCodec m.paging).valid x := by
    intro x hx
    refine ⟨by simp [Layout.typing, hspare x hx, Role.typing], ?_⟩
    exact hlim x hx
  have hvalid : startAddress g < m.paging.physicalAddressLimit := (hspareT g (by simp)).2
  have hlinks : (pteCodec m.paging).links g (tableWord user g) := ⟨user, rfl⟩
  obtain ⟨hforest, hleaf⟩ := h.tree.attach_chain htyped hi (owned_of_imp ho)
    (by simp [pteCodec, hdead]) hc (by simpa [pteShape] using hlen) hnd hspareT hlinks
  have htree : Tree (L.publish r (i :: p) (g :: gs) is) m' := by
    rw [Tree]
    simp only [m', Machine.withMem, word_setWord_eq, publish_typing, publish_kroot]
    exact hforest
  have hleaf' : ∀ r' q e, LeafAt (L.publish r (i :: p) (g :: gs) is) m' r' q e ↔
      LeafAt L m r' q e ∨ ∃ j < 512, r' = r ∧ q = j :: (is.reverse ++ i :: p) ∧
        PageTableEntry.isPresent e = true ∧
        m.mem.word ((g :: gs).getLast (by simp)) j = e := by
    intro r' q e
    simp only [LeafAt, m', Machine.withMem, word_setWord_eq, publish_typing, publish_kroot]
    exact hleaf r' q e
  have hroles := fun x => publish_role L r (i :: p) (g :: gs) is (by simp [hgs]) (by simp) x
  have hfnot : f ∉ g :: gs := by
    intro hmem
    rw [hspare f hmem] at hf
    cases hf
  have hchain : ∀ {x}, x ∈ g :: gs → m'.mem.word x = m.mem.word x := by
    intro x hx
    apply PhysMem.frame_setWord
    rintro rfl
    exact hfnot hx
  have hword : ∀ x j, m'.mem.word x j = if x = f ∧ j = i then tableWord user g else m.mem.word x j :=
    fun x j => PhysMem.word_setWord _ _ _ _ _ _
  have hnochild : ∀ {x}, L.role x ≠ .table r (i :: p) := by
    intro x hx
    have hlive := h.tree.child_live htyped (Layout.typing_some.mpr hx)
    simp [pteCodec, hdead] at hlive
  refine ⟨⟨⟨?_, htree, ?_, ?_, ?_, ?_, ?_⟩, h.bound, ?_⟩, hleaf'⟩
  · have halloc := publish_alloc r (i :: p) is h.alloc
      (fun x hx => by rw [hspare x hx]; rfl)
    refine halloc.congr rfl ?_
    intro x hx
    apply PhysMem.frame_setWord
    rintro rfl
    rw [(hroles x).1 hfnot, hf] at hx
    cases hx
  · rw [publish_kroot, (hroles L.kroot).1]
    · exact h.kroot
    · intro hmem
      have hk := h.kroot
      rw [hspare _ hmem] at hk
      cases hk
  · intro r' hr' j hj hj'
    by_cases hmem : r' ∈ g :: gs
    · obtain ⟨p', hne, hp'⟩ := (hroles r').2 hmem
      rw [hp'] at hr'
      cases hr'
      exact absurd rfl hne
    · rw [(hroles r').1 hmem] at hr'
      rw [publish_kroot]
      exact h.shared_write hf ho hfree _ hr' hj hj'
  · intro x r' q j hx hj hd
    by_cases hmem : x ∈ g :: gs
    · rw [hchain hmem] at hd ⊢
      exact hzero x hmem j hj hd
    · rw [(hroles x).1 hmem] at hx
      rw [hword] at hd ⊢
      split_ifs at hd ⊢ with hxi
      · rw [tableWord_isPresent _ hvalid] at hd
        cases hd
      · exact h.zero x r' q j hx hj hd
  · intro x r' q hx hq hne
    by_cases hmem : x ∈ g :: gs
    · rw [hchain hmem]
      exact hfull x hmem
    · rw [(hroles x).1 hmem] at hx
      obtain ⟨j, hj, hpres⟩ := h.full x r' q hx hq hne
      refine ⟨j, hj, ?_⟩
      rw [hword]
      split_ifs
      · exact tableWord_isPresent _ hvalid
      · exact hpres
  · intro r' j q e hl hu
    rcases (hleaf' r' (j :: q) e).mp hl with hl₀ | ⟨j', _, rfl, hq, hpres, he⟩
    · refine (h.closed r' j q e hl₀ hu).keep h.tree htree hl₀ ?_
      intro x c i' q' hs hx hchild
      have hmem : x ∉ g :: gs := by
        intro hmem
        rw [hspare x hmem] at hx
        cases hx
      refine ⟨by rw [(hroles x).1 hmem, hx], fun hux => ?_⟩
      rw [hword, if_neg]
      · exact hux
      rintro ⟨rfl, rfl⟩
      rw [hf] at hx
      cases hx
      exact hnochild hchild
    · cases hq
      have huser' : user = true := by
        rw [← huser _ (List.getLast_mem (List.cons_ne_nil g gs)) j (by rw [he]; exact hpres), he, hu]
      -- the entries on the way: in the chain, the one just written, or those above it
      intro i' q' x hs hx
      obtain ⟨x', c, hx', hchild⟩ := leaf_ancestor htree hl hs
      have hxx : x' = x := htree.unique (Layout.typing_some.mpr hx') (Layout.typing_some.mpr hx)
      subst hxx
      have hlive : PageTableEntry.isPresent (m'.mem.word x' i') = true :=
        htree.child_live (Layout.typing_some.mpr hx') (Layout.typing_some.mpr hchild)
      by_cases hmem : x' ∈ g :: gs
      · rw [hchain hmem] at hlive ⊢
        rw [huser x' hmem i' hlive, huser']
      · rw [(hroles x').1 hmem] at hx
        rw [hword] at hlive ⊢
        split_ifs at hlive ⊢ with hxi
        · rw [tableWord_isUserAccessible _ hvalid, huser']
        · obtain ⟨hi', howned, _⟩ := htree.up c _ _ _ (Layout.typing_some.mpr hchild)
          have hdepth : (i' :: q').length ≤ m.paging.mode.intermediateLevels.length :=
            htree.depth c _ _ (Layout.typing_some.mpr hchild)
          rw [publish_kroot] at howned
          obtain ⟨c₀, hc₀, _⟩ := h.tree.down x' r' q' i' (Layout.typing_some.mpr hx)
            (by simpa [pteShape] using hdepth) hi' howned hlive
          refine hpath huser' i' q' x' ?_ hx
          rcases List.suffix_or_suffix_of_suffix hs (List.suffix_append is.reverse (i :: p)) with
            hle | ⟨pre, hge⟩
          · rcases List.suffix_cons_iff.mp hle with heq | hle'
            · cases heq
              exact absurd ⟨h.tree.unique (Layout.typing_some.mpr hx) htyped, rfl⟩ hxi
            · exact hle'
          · rw [← hge] at hc₀
            obtain ⟨a, ha⟩ := h.tree.ancestor hc₀
            exact absurd (Layout.typing_some.mp ha) hnochild
  · intro hx
    refine (h.halves hx).edit (by simp) (withMem_regs _ _) rfl ?_ ?_ ?_ ?_ (fun v hv => hv)
    · intro r'
      by_cases hmem : r' ∈ g :: gs
      · obtain ⟨p', hne, hp'⟩ := (hroles r').2 hmem
        rw [hp', hspare r' hmem]
        simp [hne]
      · rw [(hroles r').1 hmem]
    · intro r' q e hl
      rcases (hleaf' r' q e).mp hl with hl' | ⟨j, hj, rfl, rfl, hpres, he⟩
      · exact .inl hl'
      · exact .inr (hnew hx j e hpres he)
    · intro x r' q j hxr _ hpres
      by_cases hmem : x ∈ g :: gs
      · right
        obtain ⟨p', _, hp'⟩ := (hroles x).2 hmem
        rw [hp'] at hxr
        cases hxr
        have hpres' : PageTableEntry.isPresent (m'.mem.word x j) = true := hpres
        rw [hchain hmem] at hpres'
        show PageTableEntry.isUserAccessible (m'.mem.word x j) = _
        rw [hchain hmem, huser x hmem j hpres', hstrict hx]
      · rw [(hroles x).1 hmem] at hxr
        show (_ ∧ m'.mem.word x j = _) ∨ PageTableEntry.isUserAccessible (m'.mem.word x j) = _
        rw [hword]
        split_ifs with hxi
        · right
          obtain ⟨rfl, rfl⟩ := hxi
          rw [hf] at hxr
          cases hxr
          rw [tableWord_isUserAccessible _ hvalid, hstrict hx]
        · exact .inl ⟨hxr, rfl⟩
    · intro v _ _ _ e hl
      exact (hleaf' _ _ e).mpr (.inl hl)

/-- Other tables than before may be empty. -/
def Exempt.withEmpty (X : Exempt) (empty : ℕ → Prop) : Exempt := { X with empty }

/-- Take an empty table out of its parent; its frame is spare from then on, and the
parent may be empty now. -/
theorem MemInv.detachTable (h : MemInv X L m) {f g r i : ℕ} {p : List ℕ}
    (hf : L.role f = .table r p) (hg : L.role g = .table r (i :: p)) (hfree : RootFree L r p)
    (hempty : ∀ j < 512, PageTableEntry.isPresent (m.mem.word g j) = false)
    (hX : ∀ x, X.empty x → x = g) :
    let m' := m.withMem (m.mem.setWord f i PageTableEntry.null)
    MemInv (X.withEmpty fun x => x = f) (L.set g (.data .spare)) m' ∧
    ∀ r' q e, LeafAt (L.set g (.data .spare)) m' r' q e ↔ LeafAt L m r' q e := by
  intro m'
  have htf := Layout.typing_some.mpr hf
  have htg := Layout.typing_some.mpr hg
  obtain ⟨_, ho, _⟩ := h.tree.up g r i p htg
  have hdead : ∀ j < 512, ¬ (pteCodec m.paging).live (m.mem.word g j) := by
    intro j hj
    simp [pteCodec, hempty j hj]
  have hfg : f ≠ g := by
    rintro rfl
    rw [hf] at hg
    simp at hg
  have htyping : (L.set g (.data .spare)).typing = Function.update L.typing g none :=
    Layout.typing_set L g _
  have hleaf : ∀ r' q e, LeafAt (L.set g (.data .spare)) m' r' q e ↔ LeafAt L m r' q e := by
    intro r' q e
    simp only [LeafAt, m', Machine.withMem, word_setWord_eq, htyping, Layout.set_kroot]
    exact Leaf.detach h.tree htf htg hdead _
  have htree : Tree (L.set g (.data .spare)) m' := by
    rw [Tree]
    simp only [m', Machine.withMem, word_setWord_eq, htyping, Layout.set_kroot]
    exact h.tree.detach htf htg (by simp [pteCodec, null_isPresent]) (fun _ => hdead)
  have hrole : ∀ {x r' q}, (L.set g (.data .spare)).role x = .table r' q →
      x ≠ g ∧ L.role x = .table r' q := by
    intro x r' q hx
    have hxg : x ≠ g := by
      rintro rfl
      rw [Layout.set_role_self] at hx
      cases hx
    exact ⟨hxg, by rwa [Layout.set_role_of_ne L hxg] at hx⟩
  have hword : ∀ x j, m'.mem.word x j =
      if x = f ∧ j = i then PageTableEntry.null else m.mem.word x j :=
    fun x j => PhysMem.word_setWord _ _ _ _ _ _
  refine ⟨⟨⟨?_, htree, ?_, ?_, ?_, ?_, ?_⟩, h.bound, ?_⟩, hleaf⟩
  · have halloc := h.alloc.retag (f := g) (ρ := .data .spare) (by simp [hg])
      (by simp [hg, Role.state])
    refine halloc.congr rfl ?_
    intro x hx
    apply PhysMem.frame_setWord
    rintro rfl
    rw [Layout.set_role_of_ne L hfg, hf] at hx
    cases hx
  · rw [Layout.set_kroot, Layout.set_role_of_ne, h.kroot]
    rintro rfl
    have hk := h.kroot
    rw [hg] at hk
    simp at hk
  · intro r' hr' j hj hj'
    exact h.shared_write hf ho hfree _ (hrole hr').2 hj hj'
  · intro x r' q j hx hj hd
    rw [hword] at hd ⊢
    split_ifs at hd ⊢
    · rfl
    · exact h.zero x r' q j (hrole hx).2 hj hd
  · intro x r' q hx hq hne
    obtain ⟨hxg, hx'⟩ := hrole hx
    obtain ⟨j, hj, hpres⟩ := h.full x r' q hx' hq (fun he => hxg (hX x he))
    refine ⟨j, hj, ?_⟩
    rw [hword, if_neg (fun hxi => hne hxi.1)]
    exact hpres
  · intro r' j q e hl hu
    have hl₀ := (hleaf r' (j :: q) e).mp hl
    refine (h.closed r' j q e hl₀ hu).keep h.tree htree hl₀ ?_
    intro x c i' q' hs hx hchild
    have hxg : x ≠ g := by
      rintro rfl
      rw [hg] at hx
      cases hx
      obtain ⟨hi', _, _⟩ := h.tree.up c _ _ _ (Layout.typing_some.mpr hchild)
      exact hdead i' hi' (h.tree.child_live htg (Layout.typing_some.mpr hchild))
    refine ⟨by rw [Layout.set_role_of_ne L hxg, hx], fun hux => ?_⟩
    rw [hword, if_neg]
    · exact hux
    rintro ⟨rfl, rfl⟩
    rw [hf] at hx
    cases hx
    obtain ⟨pre, rfl⟩ := hs
    obtain ⟨y, hy, hlive⟩ := h.tree.live_entry hl₀ htg
    exact hdead y hy hlive
  · intro hx
    refine (h.halves hx).edit rfl (withMem_regs _ _) rfl ?_ ?_ ?_ ?_ (fun v hv => hv)
    · intro r'
      by_cases hr' : r' = g
      · subst hr'
        rw [Layout.set_role_self, hg]
        simp
      · rw [Layout.set_role_of_ne L hr']
    · intro r' q e hl
      exact .inl ((hleaf r' q e).mp hl)
    · intro x r' q j hxr _ hpres
      left
      refine ⟨(hrole hxr).2, ?_⟩
      have hpres' : PageTableEntry.isPresent (m'.mem.word x j) = true := hpres
      show m'.mem.word x j = m.mem.word x j
      rw [hword] at hpres' ⊢
      split_ifs at hpres' ⊢
      · rw [null_isPresent] at hpres'
        cases hpres'
      · rfl
    · intro v _ _ _ e hl
      exact (hleaf _ _ e).mpr hl

/-- Make the entry of a table user accessible, in a mixed forest. -/
theorem MemInv.upgrade (h : MemInv X L m) (hmixed : X.mixed) {f g r i : ℕ} {p : List ℕ}
    (hf : L.role f = .table r p) (hg : L.role g = .table r (i :: p)) (hfree : RootFree L r p) :
    let m' := m.withMem (m.mem.setWord f i (tableWord true g))
    MemInv X L m' ∧ ∀ r' q e, LeafAt L m' r' q e ↔ LeafAt L m r' q e := by
  intro m'
  have htf := Layout.typing_some.mpr hf
  have htg := Layout.typing_some.mpr hg
  obtain ⟨_, ho, _⟩ := h.tree.up g r i p htg
  have hvalid : startAddress g < m.paging.physicalAddressLimit := h.tree.valid g _ _ htg
  have hdepth := h.tree.depth g _ _ htg
  have htree : Tree L m' := by
    rw [Tree]
    simp only [m', Machine.withMem, word_setWord_eq]
    exact h.tree.relink htf htg ⟨true, rfl⟩
  have hword : ∀ x j, m'.mem.word x j =
      if x = f ∧ j = i then tableWord true g else m.mem.word x j :=
    fun x j => PhysMem.word_setWord _ _ _ _ _ _
  have hleaf : ∀ r' q e, LeafAt L m' r' q e ↔ LeafAt L m r' q e := by
    intro r' q e
    simp only [LeafAt, m', Machine.withMem, word_setWord_eq]
    apply Leaf.congr
    intro x r'' p' j hx hp' _
    rw [write, if_neg]
    rintro ⟨rfl, _⟩
    rw [htf] at hx
    cases hx
    simp only [List.length_cons] at hdepth
    omega
  refine ⟨⟨⟨?_, htree, h.kroot, ?_, ?_, ?_, ?_⟩, h.bound, fun hx => absurd hmixed hx⟩, hleaf⟩
  · refine h.alloc.congr rfl ?_
    intro x hx
    apply PhysMem.frame_setWord
    rintro rfl
    rw [hf] at hx
    cases hx
  · intro r' hr' j hj hj'
    exact h.shared_write hf ho hfree _ hr' hj hj'
  · intro x r' q j hx hj hd
    rw [hword] at hd ⊢
    split_ifs at hd ⊢
    · rw [tableWord_isPresent _ hvalid] at hd
      cases hd
    · exact h.zero x r' q j hx hj hd
  · intro x r' q hx hq hne
    obtain ⟨j, hj, hpres⟩ := h.full x r' q hx hq hne
    refine ⟨j, hj, ?_⟩
    rw [hword]
    split_ifs
    · exact tableWord_isPresent _ hvalid
    · exact hpres
  · intro r' j q e hl hu
    have hl₀ := (hleaf r' (j :: q) e).mp hl
    refine (h.closed r' j q e hl₀ hu).keep h.tree htree hl₀ ?_
    intro x c i' q' _ hx _
    refine ⟨hx, fun hux => ?_⟩
    rw [hword]
    split_ifs
    · exact tableWord_isUserAccessible _ hvalid
    · exact hux

end Dusk
