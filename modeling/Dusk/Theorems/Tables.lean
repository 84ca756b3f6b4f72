import Dusk.Proofs.Intact

/-! One page table over whole runs: the shape of its tables, exact accounting of their
frames, and what `map` and `unmap` do to translations. -/

namespace Dusk

open Lib Radix FrameAllocator

variable {memoryMap : List MemoryRegion} {dm : DirectMap} {m₀ m' : Machine} {t : TableSession}
  {pt : PageTable} {L : Layout}

/-- The tables below the root form a tree, and their frames are what the page table has
taken from the allocator and not returned. -/
structure PageTable.WellFormed (pt : PageTable) (t : TableSession) : Prop where
  allocated : ∀ path f, pt.Node t.pool.machine.mem path f →
    t.pool.machine.frameState f = some .allocated
  /-- A table is reached on one path. -/
  path_unique : ∀ path path' f, pt.Node t.pool.machine.mem path f →
    pt.Node t.pool.machine.mem path' f → path = path'
  used : ∀ path f, pt.Node t.pool.machine.mem path f → path ≠ [] →
    ∃ i < PAGE_TABLE_ENTRIES, PageTableEntry.isPresent (t.pool.machine.mem.word f i) = true
  /-- A table exists exactly where some page below it is mapped. -/
  exists_iff : ∀ path, path ≠ [] → path.length ≤ pt.config.mode.intermediateLevels.length →
    ((∃ f, pt.Node t.pool.machine.mem path f) ↔ pt.Leads t.pool.machine.mem path)
  /-- The entries above the leaf tables. -/
  intermediate : ∀ path f i, pt.Node t.pool.machine.mem path f →
    path.length < pt.config.mode.intermediateLevels.length → i < PAGE_TABLE_ENTRIES →
    PageTableEntry.isPresent (t.pool.machine.mem.word f i) = true →
    PageTableEntry.writable (t.pool.machine.mem.word f i) = true ∧
    PageTableEntry.executable (t.pool.machine.mem.word f i) = true ∧
    PageTableEntry.isHuge (t.pool.machine.mem.word f i) = false ∧
    ∃ g, pt.Node t.pool.machine.mem (path ++ [i]) g
  /-- Above a table its entry is present. -/
  linked : ∀ path i f g, pt.Node t.pool.machine.mem path f →
    pt.Node t.pool.machine.mem (path ++ [i]) g →
    PageTableEntry.isPresent (t.pool.machine.mem.word f i) = true
  /-- Above a user page every entry is user accessible. -/
  user : ∀ path f i, pt.Node t.pool.machine.mem path f →
    path.length = pt.config.mode.intermediateLevels.length → i < PAGE_TABLE_ENTRIES →
    PageTableEntry.isPresent (t.pool.machine.mem.word f i) = true →
    PageTableEntry.isUserAccessible (t.pool.machine.mem.word f i) = true →
    ∀ q j g, q ++ [j] <+: path → pt.Node t.pool.machine.mem q g →
      PageTableEntry.isUserAccessible (t.pool.machine.mem.word g j) = true
  zero : ∀ path f i, pt.Node t.pool.machine.mem path f → i < PAGE_TABLE_ENTRIES →
    PageTableEntry.isPresent (t.pool.machine.mem.word f i) = false →
    t.pool.machine.mem.word f i = 0
  /-- What is allocated and not held by others are the tables. -/
  taken : ∀ f, t.pool.machine.frameState f = some .allocated ∧ f ∉ t.pool.outstanding ↔
    ∃ path, pt.Node t.pool.machine.mem path f

theorem TableInv.node_next (h : TableInv memoryMap L t) (hpt : t.table = some pt) {path : List ℕ}
    {i g : ℕ} : pt.Node t.pool.machine.mem (path ++ [i]) g ↔
      L.role g = .table L.kroot (i :: path.reverse) := by
  rw [h.node_iff hpt, List.reverse_append, List.reverse_singleton, List.singleton_append]

theorem TableInv.wellFormed (h : TableInv memoryMap L t) (hpt : t.table = some pt) :
    pt.WellFormed t := by
  have hinv := h.inv hpt
  have hconfig := h.config_eq hpt
  have hnode : ∀ {path f}, pt.Node t.pool.machine.mem path f ↔
      L.role f = .table L.kroot path.reverse := h.node_iff hpt
  have hintact := hinv.intact (h.root pt hpt)
  refine ⟨hintact.allocated, hintact.path_unique, hintact.used, ?_, ?_, ?_, hintact.user,
    hintact.zero, ?_⟩
  · intro path hne hlen
    rw [hconfig] at hlen
    simp only [hnode]
    exact (h.leads_iff hpt hne hlen).symm
  · intro path f i hf hlen hi hpres
    obtain ⟨g, user, he, hlim, hg⟩ := hintact.link hf hlen hi hpres
    have hperm := tableWord_permissions user hlim
    rw [PageTableEntry.permissions, PagePermissions.mk.injEq] at hperm
    rw [he]
    exact ⟨hperm.1, hperm.2.1, tableWord_isHuge user hlim, g, hg⟩
  · intro path i f g hf hg
    exact hinv.tree.child_live (Layout.typing_some.mpr (hnode.mp hf))
      (Layout.typing_some.mpr ((h.node_next hpt).mp hg))
  · intro f
    rw [hinv.alloc.frameState_allocated, h.pool.held]
    constructor
    · rintro ⟨hstate, hdata⟩
      cases hrole : L.role f with
      | table r p =>
        obtain rfl := h.sole f r p hrole
        exact ⟨p.reverse, hnode.mpr (by rw [List.reverse_reverse, hrole])⟩
      | data o => exact absurd ⟨o, hrole⟩ hdata
      | other | window | storage | free =>
        rw [hrole] at hstate
        cases hstate
    · rintro ⟨path, hf⟩
      rw [hnode.mp hf]
      exact ⟨rfl, by simp⟩

section Runs

variable (hpair : memoryMap.Pairwise (MemoryRegion.Disjoint (shouldTrack · = true)))
  (hdirect : ∀ region ∈ memoryMap, shouldTrack region.kind = true → ∀ x, region.Has x →
    (dm.translate x).isSome = true)
  (ht : TableSession.Reached memoryMap dm m₀ t) (hpt : t.table = some pt)

include hpair hdirect ht hpt

/-- Whatever has been done to a page table, it is well formed, and nothing that can be
done next panics. -/
theorem page_table_well_formed :
    pt.WellFormed t ∧ ∀ op, t.Enabled op → ∃ t', t.step memoryMap op = some t' := by
  obtain ⟨L, h⟩ := ht.inv hpair hdirect
  refine ⟨h.wellFormed hpt, fun op hop => ?_⟩
  obtain ⟨t', _, hstep, _⟩ := h.step hpair hop
  exact ⟨t', hstep⟩

end Runs

/-- A kernel page and a user page in one table, of which the first is unmapped again. -/
theorem page_table_well_formed_small : ∃ t pt,
    TableSession.Reached smallMap smallDirectMap (smallMachine .fiveLevel) t ∧
    t.table = some pt ∧ pt.toPhysical t.pool.machine.mem 0x2FFF = some 0xAFFF ∧
    pt.WellFormed t := by
  have hrun : (smallTable .fiveLevel [.new, .map 0x1000 9 ⟨true, false, false⟩ .writeBack false,
      .map 0x2000 10 ⟨true, true, true⟩ .uncacheable true,
      .map 0x2000 11 ⟨true, true, true⟩ .writeBack false, .unmap 0x1000]).any
      (fun t => t.table.any fun pt =>
        pt.toPhysical t.pool.machine.mem 0x2FFF = some 0xAFFF) = true := by decide +kernel
  obtain ⟨t, pt, ht, hpt, htest⟩ := smallTable_some hrun
  exact ⟨t, pt, ht, hpt, by simpa using htest,
    (page_table_well_formed smallMap_disjoint smallMap_direct ht hpt).1⟩

end Dusk
