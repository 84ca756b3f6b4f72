import Dusk.Proofs.Intact

/-! What `map` and `unmap` do to one page table: the translation of the page, of every
other address, and the frames they take and give back. -/

namespace Dusk

open Lib Radix FrameAllocator

variable {memoryMap : List MemoryRegion} {dm : DirectMap} {m₀ m' : Machine} {t : TableSession}
  {pt : PageTable} {L L' : Layout} {va frame : ℕ} {permissions : PagePermissions}
  {cachePolicy : CachePolicy} {isGlobal : Bool}

/-- The checks that `map` makes on its arguments. -/
structure PageTable.ChecksPass (pt : PageTable) (va frame : ℕ) (permissions : PagePermissions) :
    Prop where
  canonical : pt.isCanonical va = true
  aligned : va % PAGE_SIZE = 0
  limit : startAddress frame < pt.config.physicalAddressLimit
  execute : permissions.executable = true ∨ pt.config.nxEnabled = true

/-- A huge page lies on the way to an address. -/
def PageTable.HugeOnPath (pt : PageTable) (mem : PhysMem) (va : ℕ) : Prop :=
  ∃ path i f, path ++ [i] <+: tableIndices pt.config.mode va ∧ pt.Node mem path f ∧
    PageTableEntry.isHuge (mem.word f i) = true

namespace TableInv

theorem freeFrameSet_eq (h : TableInv memoryMap L t) :
    t.pool.machine.freeFrameSet = L.freeSet t.pool.machine.frameCount := by
  unfold Machine.freeFrameSet Layout.freeSet
  ext f
  rw [Finset.mem_filter, Finset.mem_filter, h.pool.alloc.frameState_free, Role.state_free]

/-- The new leaf is read back at every address of its page. -/
theorem map_reads (hpt : t.table = some pt)
    (h' : TableInv memoryMap L' (t.withMachine m'))
    (hpost : MapPost True L t.pool.machine L.kroot va frame
      (leafWord frame permissions cachePolicy (isGlobal && t.pool.machine.paging.globalPages))
      (.ok ()) L' m') {d : ℕ} (hd : d < PAGE_SIZE) :
    pt.toPhysical m'.mem (va + d) = some (startAddress frame + d) ∧
      pt.mapping m'.mem (va + d) = some permissions := by
  obtain ⟨hc, hal, hlimit, _, hleaf⟩ := hpost.done rfl
  have hregs := hpost.edit.regs
  rw [← hregs.paging] at hc hlimit hleaf
  have hl := (hleaf L'.kroot (pagePath m'.paging.mode va) _).mpr (by
    rw [if_pos ⟨hpost.edit.kroot, rfl⟩])
  exact (h'.inv hpt).reads_page (h'.root pt hpt) hc hal hlimit hl hd

/-- Two addresses of different pages, one of them at the start of its page. -/
theorem path_ne {mode : PagingMode} {a : ℕ} (hc : mode.isCanonical va = true)
    (ha : mode.isCanonical a = true) (hne : a / PAGE_SIZE ≠ va / PAGE_SIZE) :
    pagePath mode a ≠ pagePath mode va :=
  fun he => hne (page_of_pagePath ha hc he)

/-- Well-formed tables hold no huge pages. -/
theorem not_huge (h : TableInv memoryMap L t) (hpt : t.table = some pt) :
    ¬ pt.HugeOnPath t.pool.machine.mem va := by
  have hinv := h.inv hpt
  rintro ⟨path, i, f, hinit, hf, hhuge⟩
  rw [h.config_eq hpt] at hinit
  have hlen := hinit.length_le
  rw [List.length_append, List.length_singleton, tableIndices_length] at hlen
  have hi : i < 512 := tableIndices_lt (hinit.subset (by simp))
  rcases child_cases hinv.tree ((h.node_iff hpt).mp hf) (by simpa using hlen) hi
    (fun _ => .inl rfl) with hdead | ⟨g, user, hg, he, hlim⟩
  · rw [hinv.zero f _ _ i ((h.node_iff hpt).mp hf) hi hdead] at hhuge
    cases hhuge
  · rw [he, tableWord_isHuge user hlim] at hhuge
    cases hhuge

theorem checksPass_iff (h : TableInv memoryMap L t) (hpt : t.table = some pt) :
    pt.ChecksPass va frame permissions ↔ MapChecks t.pool.machine va frame
      (leafWord frame permissions cachePolicy
        (isGlobal && t.pool.machine.paging.globalPages)) := by
  have hconfig := h.config_eq hpt
  constructor
  · rintro ⟨hc, hal, hlim, hx⟩
    rw [PageTable.isCanonical, hconfig] at hc
    rw [hconfig] at hlim hx
    exact ⟨hc, hal, hlim, by rwa [executable_leafWord _ _ _ hlim]⟩
  · rintro ⟨hc, hal, hlim, hx⟩
    rw [executable_leafWord _ _ _ hlim] at hx
    rw [← hconfig] at hc hlim hx
    exact ⟨hc, hal, hlim, hx⟩

/-- Why `map` has refused a page that passes the checks. -/
theorem refused_cases {r : ℕ} {m : Machine} {e : Word} {err : PageTableMapError}
    (h : MapRefused L m r va frame e err) (hchecks : MapChecks m va frame e) :
    (err = .pageAlreadyMapped ∧ ∃ e', LeafAt L m r (pagePath m.paging.mode va) e') ∨
    (∀ e', ¬ LeafAt L m r (pagePath m.paging.mode va) e') ∧
      ((err = .outOfFrames ∧ m.allocator.freeFrames < m.missing r va) ∨
        ∃ f, L.role f = .free ∧ m.paging.physicalAddressLimit ≤ startAddress f) := by
  obtain ⟨hc, hal, hlim, hx⟩ := hchecks
  cases h with
  | notCanonical hn => simp [hc] at hn
  | unaligned hn => exact absurd hal hn
  | tooLarge hn => omega
  | tableTooLarge _ hno hf hn => exact .inr ⟨hno, .inr ⟨_, hf, hn⟩⟩
  | noExecute hn hnx => simp [hn, hnx] at hx
  | mapped _ hl => exact .inl ⟨rfl, _, hl⟩
  | outOfFrames _ hno hfew => exact .inr ⟨hno, .inl ⟨rfl, hfew⟩⟩

/-- The tables that an unmapped page leaves without use are what becomes free. -/
theorem released_iff (h : TableInv memoryMap L t) (hpt : t.table = some pt)
    (h' : TableInv memoryMap L' (t.withMachine m'))
    (hpost : UnmapPost True L t.pool.machine L.kroot va L' m') {g : ℕ} :
    L'.role g = .free ↔ L.role g = .free ∨
      ∃ path ≠ [], pt.Node t.pool.machine.mem path g ∧ ¬ pt.Leads m'.mem path := by
  have hinv := h.inv hpt
  -- Tables that stay are the same frames, so that what leads to a page keeps its table.
  have hleads : ∀ {path}, path ≠ [] → pt.Node t.pool.machine.mem path g →
      (pt.Leads m'.mem path ↔ L'.role g = .table L.kroot path.reverse) := by
    intro path hne hg
    have hrole := (h.node_iff hpt).mp hg
    have hlen : path.length ≤ t.pool.machine.paging.mode.intermediateLevels.length := by
      simpa [pteShape] using hinv.tree.depth g _ _ (Layout.typing_some.mpr hrole)
    have hlen' : path.length ≤
        (t.withMachine m').pool.machine.paging.mode.intermediateLevels.length := by
      show path.length ≤ m'.paging.mode.intermediateLevels.length
      rwa [hpost.edit.regs.paging]
    have hiff := h'.leads_iff hpt hne hlen'
    rw [hpost.edit.kroot] at hiff
    refine hiff.trans ⟨?_, fun hg' => ⟨g, hg'⟩⟩
    rintro ⟨f, hf⟩
    have hold := (hpost.kept f (by rw [hf]; simp)).symm.trans hf
    rwa [hinv.tree.unique (Layout.typing_some.mpr hrole) (Layout.typing_some.mpr hold)]
  constructor
  · intro hfree
    rcases hpost.edit.roles g with hsame | ⟨hlent, _⟩
    · exact .inl (hsame ▸ hfree)
    · rcases hlent with hold | ⟨p, hp, hrole⟩
      · exact .inl hold
      · have hnode : pt.Node t.pool.machine.mem p.reverse g :=
          (h.node_iff hpt).mpr (by rwa [List.reverse_reverse])
        have hne : p.reverse ≠ [] := by simpa using hp
        refine .inr ⟨p.reverse, hne, hnode, ?_⟩
        rw [hleads hne hnode, hfree]
        simp
  · intro hg
    by_contra hne
    have hkept := hpost.kept g hne
    rcases hg with hfree | ⟨path, hp, hnode, hno⟩
    · exact hne (hkept.trans hfree)
    · exact hno ((hleads hp hnode).mpr (hkept.trans ((h.node_iff hpt).mp hnode)))

theorem frameCount_eq (hregs : Regs t.pool.machine m') :
    m'.frameCount = t.pool.machine.frameCount := by
  unfold Machine.frameCount
  rw [hregs.bitmap]

theorem mem_freeFrameSet (h : TableInv memoryMap L t) {g : ℕ} :
    g ∈ t.pool.machine.freeFrameSet ↔ L.role g = .free := by
  unfold Machine.freeFrameSet
  rw [Finset.mem_filter, h.pool.alloc.frameState_free, Finset.mem_range, and_iff_right_iff_imp]
  intro hg
  exact h.pool.alloc.lt_of_allocated (by rw [hg]; nofun)

/-- The frames that `unmap` has released, as a set of their own. -/
theorem released (h : TableInv memoryMap L t) (hpt : t.table = some pt)
    (h' : TableInv memoryMap L' (t.withMachine m'))
    (hpost : UnmapPost True L t.pool.machine L.kroot va L' m') :
    ∃ released : Finset ℕ,
      (∀ g, g ∈ released ↔
        ∃ path ≠ [], pt.Node t.pool.machine.mem path g ∧ ¬ pt.Leads m'.mem path) ∧
      (∀ g, g ∈ m'.freeFrameSet ↔ g ∈ t.pool.machine.freeFrameSet ∨ g ∈ released) ∧
      m'.allocator.freeFrames = t.pool.machine.allocator.freeFrames + released.card ∧
      ∀ f, f ∉ released → m'.frameState f = t.pool.machine.frameState f := by
  have hfree : ∀ g, g ∈ t.pool.machine.freeFrameSet ↔ L.role g = .free := fun g =>
    h.mem_freeFrameSet
  have hfree' : ∀ g, g ∈ m'.freeFrameSet ↔ L'.role g = .free := fun g => h'.mem_freeFrameSet
  have hsub : t.pool.machine.freeFrameSet ⊆ m'.freeFrameSet := by
    intro g hg
    rw [hfree', h.released_iff hpt h' hpost]
    exact .inl ((hfree g).mp hg)
  have hmem : ∀ g, g ∈ m'.freeFrameSet \ t.pool.machine.freeFrameSet ↔
      ∃ path ≠ [], pt.Node t.pool.machine.mem path g ∧ ¬ pt.Leads m'.mem path := by
    intro g
    rw [Finset.mem_sdiff, hfree', hfree, h.released_iff hpt h' hpost]
    constructor
    · rintro ⟨hold | hnew, hno⟩
      · exact absurd hold hno
      · exact hnew
    · rintro ⟨path, hne, hnode, hno⟩
      refine ⟨.inr ⟨path, hne, hnode, hno⟩, ?_⟩
      rw [(h.node_iff hpt).mp hnode]
      nofun
  refine ⟨m'.freeFrameSet \ t.pool.machine.freeFrameSet, hmem, ?_, ?_, ?_⟩
  · intro g
    rw [Finset.mem_sdiff]
    have hg := @hsub g
    tauto
  · have hcard := Finset.card_sdiff_add_card_eq_card hsub
    have hcount : m'.allocator.freeFrames = m'.freeFrameSet.card := by
      have hset := h'.freeFrameSet_eq
      simp only [TableSession.withMachine] at hset
      rw [hset]
      exact h'.pool.alloc.count
    rw [hcount, ← hcard, h.freeFrameSet_eq, h.pool.alloc.count, Nat.add_comm]
  · intro f hf
    refine h.pool.alloc.frameState_congr h'.pool.alloc (frameCount_eq hpost.edit.regs) ?_
    rw [hmem, not_exists] at hf
    by_cases hrole : L'.role f = .free
    · rcases (h.released_iff hpt h' hpost).mp hrole with hold | ⟨path, hnew⟩
      · rw [hrole, hold]
      · exact absurd hnew (hf path)
    · rw [hpost.kept f hrole]

/-- What is read after the page has been unmapped. -/
theorem unmapped (h : TableInv memoryMap L t) (hpt : t.table = some pt)
    (h' : TableInv memoryMap L' (t.withMachine m'))
    (hpost : UnmapPost True L t.pool.machine L.kroot va L' m') {e : Word}
    (hl : LeafAt L t.pool.machine L.kroot (pagePath t.pool.machine.paging.mode va) e)
    (hva : t.pool.machine.paging.mode.isCanonical va = true ∧ va % PAGE_SIZE = 0) :
    pt.toPhysical t.pool.machine.mem va =
        some (startAddress (entryFrame t.pool.machine.paging e)) ∧
      (∀ d < PAGE_SIZE, pt.toPhysical m'.mem (va + d) = none) ∧
      ∀ a, a / PAGE_SIZE ≠ va / PAGE_SIZE → pt.SameAt t.pool.machine.mem m'.mem a := by
  refine ⟨?_, ?_, ?_⟩
  · have hoffset : pageOffset va = 0 := by rw [pageOffset_eq]; exact hva.2
    rw [h.toPhysical_eq hpt hva.1, (h.leaf_iff hpt e).mpr hl, Option.map_some, hoffset,
      Nat.add_zero]
  · intro d hd
    rw [← Option.not_isSome_iff_eq_none]
    intro hsome
    obtain ⟨_, e', he'⟩ := (h'.mapped_iff hpt).mp hsome
    have hpath : pagePath (t.withMachine m').pool.machine.paging.mode (va + d) =
        pagePath t.pool.machine.paging.mode va := by
      show pagePath m'.paging.mode (va + d) = _
      rw [hpost.edit.regs.paging, pagePath_add _ hva.2 hd]
    rw [hpath, hpost.edit.kroot] at he'
    exact ((hpost.leaf _ _ _).mp he').2 ⟨rfl, rfl⟩
  · intro a ha
    refine (h.inv hpt).sameAt (h'.inv hpt) hpost.edit.regs.sameTables hpost.edit.kroot
      (h.root pt hpt) fun hca e => ?_
    rw [hpost.leaf, and_iff_left]
    exact fun he => path_ne hva.1 hca ha he.2

end TableInv

section Runs

variable (hpair : memoryMap.Pairwise (MemoryRegion.Disjoint (shouldTrack · = true)))
  (hdirect : ∀ region ∈ memoryMap, shouldTrack region.kind = true → ∀ x, region.Has x →
    (dm.translate x).isSome = true)
  (ht : TableSession.Reached memoryMap dm m₀ t) (hpt : t.table = some pt)

include hpair hdirect ht hpt

/-- A page that `map` has mapped is translated to its frame with its permissions, and
every other address is read as before. -/
theorem map_translates (hmap : pt.map va frame permissions cachePolicy isGlobal t.pool.machine =
      .ok (.ok ()) m') :
    (∀ d < PAGE_SIZE, pt.toPhysical m'.mem (va + d) = some (startAddress frame + d) ∧
      pt.mapping m'.mem (va + d) = some permissions) ∧
    ∀ a, a / PAGE_SIZE ≠ va / PAGE_SIZE → pt.SameAt t.pool.machine.mem m'.mem a := by
  obtain ⟨L, h⟩ := ht.inv hpair hdirect
  have hsat : (pt.map va frame permissions cachePolicy isGlobal).Sat t.pool.machine
      (fun res m' => ∃ L', TableInv memoryMap L' (t.withMachine m') ∧
        MapPost True L t.pool.machine L.kroot va frame (leafWord frame permissions cachePolicy
          (isGlobal && t.pool.machine.paging.globalPages)) res L' m') Prog.never :=
    h.map_sat hpt fun res L' m' hpost h' => ⟨L', h', hpost⟩
  obtain ⟨L', h', hpost⟩ := hsat.of_ok hmap
  refine ⟨fun d hd => TableInv.map_reads hpt h' hpost hd, fun a ha => ?_⟩
  obtain ⟨hc, _, _, _, hleaf⟩ := hpost.done rfl
  refine (h.inv hpt).sameAt (h'.inv hpt) hpost.edit.regs.sameTables hpost.edit.kroot
    (h.root pt hpt) fun hca e => ?_
  rw [hleaf, if_neg]
  exact fun he => TableInv.path_ne hc hca ha he.2

omit hpair hdirect ht hpt in
/-- A page is mapped beside another. -/
theorem map_translates_small : ∃ t pt m',
    TableSession.Reached smallMap smallDirectMap (smallMachine .fourLevel) t ∧
    t.table = some pt ∧
    pt.map 0x2000 10 ⟨true, true, true⟩ .writeBack false t.pool.machine = .ok (.ok ()) m' ∧
    pt.toPhysical m'.mem 0x2FFF = some 0xAFFF ∧
    pt.SameAt t.pool.machine.mem m'.mem 0x1000 := by
  have hrun : (smallTable .fourLevel [.new, .map 0x1000 9 ⟨true, false, false⟩ .writeBack false]).any
      (fun t => t.table.any fun pt =>
        match pt.map 0x2000 10 ⟨true, true, true⟩ .writeBack false t.pool.machine with
        | .ok (.ok ()) _ => true
        | .ok (.error _) _ | .stop _ _ => false) = true := by decide +kernel
  obtain ⟨t, pt, ht, hpt, htest⟩ := smallTable_some hrun
  split at htest
  · rename_i m' hmap
    have hread := map_translates smallMap_disjoint smallMap_direct ht hpt hmap
    exact ⟨t, pt, m', ht, hpt, hmap, (hread.1 0xFFF (by decide)).1, hread.2 0x1000 (by decide)⟩
  · cases htest
  · cases htest

/-- `map` returns. Where it fails, the tables and the free frames are as before; it fails
because the page is mapped, or because frames are missing for its tables, exactly when
that is so. -/
theorem map_fails_cleanly (va frame : ℕ) (permissions : PagePermissions)
    (cachePolicy : CachePolicy) (isGlobal : Bool) :
    ∃ res m', pt.map va frame permissions cachePolicy isGlobal t.pool.machine = .ok res m' ∧
      (∀ err, res = .error err →
        (∀ path x, pt.Node t.pool.machine.mem path (x / FRAME_SIZE) →
          m'.mem.byte x = t.pool.machine.mem.byte x) ∧
        m'.freeFrameSet = t.pool.machine.freeFrameSet ∧
        m'.allocator.freeFrames = t.pool.machine.allocator.freeFrames) ∧
      (res = .error .pageAlreadyMapped ↔
        pt.ChecksPass va frame permissions ∧ pt.HasLeaf t.pool.machine.mem va) ∧
      ((∀ f ∈ t.pool.machine.freeFrameSet, startAddress f < pt.config.physicalAddressLimit) →
        (res = .error .outOfFrames ↔ pt.ChecksPass va frame permissions ∧
          ¬ pt.HasLeaf t.pool.machine.mem va ∧ ¬ pt.HugeOnPath t.pool.machine.mem va ∧
          t.pool.machine.freeFrameSet.card < missingFrom pt.config t.pool.machine.mem va
            pt.config.mode.intermediateLevels pt.frame)) := by
  obtain ⟨L, h⟩ := ht.inv hpair hdirect
  have hsat : (pt.map va frame permissions cachePolicy isGlobal).Sat t.pool.machine
      (fun res m' => ∃ L', TableInv memoryMap L' (t.withMachine m') ∧
        MapPost True L t.pool.machine L.kroot va frame (leafWord frame permissions cachePolicy
          (isGlobal && t.pool.machine.paging.globalPages)) res L' m') Prog.never :=
    h.map_sat hpt fun res L' m' hpost h' => ⟨L', h', hpost⟩
  obtain ⟨res, m', hrun, L', h', hpost⟩ := hsat.finishes
  have hchecks : pt.ChecksPass va frame permissions ↔ MapChecks t.pool.machine va frame
      (leafWord frame permissions cachePolicy (isGlobal && t.pool.machine.paging.globalPages)) :=
    h.checksPass_iff hpt
  have hleaf := h.hasLeaf_iff hpt (a := va)
  have hcount : t.pool.machine.freeFrameSet.card = t.pool.machine.allocator.freeFrames := by
    rw [h.freeFrameSet_eq]
    exact h.pool.alloc.count.symm
  have hmissing : missingFrom pt.config t.pool.machine.mem va pt.config.mode.intermediateLevels
      pt.frame = t.pool.machine.missing L.kroot va := by
    rw [h.root pt hpt]
    rfl
  refine ⟨res, m', hrun, ?_, ?_, ?_⟩
  · intro err herr
    obtain ⟨rfl, _, _, hwords⟩ := hpost.failed err herr
    have hframes : m'.frameCount = t.pool.machine.frameCount :=
      TableInv.frameCount_eq hpost.edit.regs
    refine ⟨?_, ?_, ?_⟩
    · intro path x hx
      have hrole := (h.node_iff hpt).mp hx
      exact PhysMem.byte_congr (hwords _ (by rw [hrole]; simp) (by rw [hrole]; simp))
    · have hset := h'.freeFrameSet_eq
      simp only [TableSession.withMachine] at hset
      rw [hset, h.freeFrameSet_eq, hframes]
    · have hset := h'.pool.alloc.count
      simp only [TableSession.withMachine] at hset
      rw [hset, h.pool.alloc.count, hframes]
  · rw [hchecks, hleaf]
    constructor
    · intro hres
      cases (hpost.failed _ hres).2.1 with
      | mapped hc hl => exact ⟨hc, _, hl⟩
    · rintro ⟨hc, e', hl⟩
      cases res with
      | ok u => exact absurd hl ((hpost.done rfl).2.2.2.1 e')
      | error err =>
        rcases TableInv.refused_cases (hpost.failed err rfl).2.1 hc with ⟨rfl, _⟩ | ⟨hno, _⟩
        · rfl
        · exact absurd hl (hno e')
  · intro hlimit
    rw [hchecks, hleaf, hcount, hmissing]
    constructor
    · intro hres
      cases (hpost.failed _ hres).2.1 with
      | outOfFrames hc hno hfew => exact ⟨hc, fun hl => hl.elim hno, h.not_huge hpt, hfew⟩
    · rintro ⟨hc, hno, _, hfew⟩
      cases res with
      | ok u =>
        have hroom := (hpost.room rfl).1
        omega
      | error err =>
        rcases TableInv.refused_cases (hpost.failed err rfl).2.1 hc with
          ⟨_, hl⟩ | ⟨_, ⟨rfl, _⟩ | ⟨f, hf, hlarge⟩⟩
        · exact absurd hl hno
        · rfl
        · have hmem : f ∈ t.pool.machine.freeFrameSet := by
            rw [h.freeFrameSet_eq, Layout.freeSet, Finset.mem_filter, Finset.mem_range, hf]
            exact ⟨h.pool.alloc.lt_of_allocated (by rw [hf]; decide), rfl⟩
          have hlt := hlimit f hmem
          rw [h.config_eq hpt] at hlt
          omega

omit hpair hdirect ht hpt in
/-- Two frames are left, and the way to the page needs three tables. -/
theorem map_fails_cleanly_small : ∃ t pt m',
    TableSession.Reached smallMap smallDirectMap (smallMachine .fourLevel) t ∧
    t.table = some pt ∧
    pt.map 0x1000 9 ⟨true, true, true⟩ .writeBack false t.pool.machine =
      .ok (.error .outOfFrames) m' ∧
    m'.freeFrameSet = t.pool.machine.freeFrameSet := by
  have hrun : (smallTable .fourLevel (.new :: List.replicate 16 (.frames .alloc))).any
      (fun t => t.table.any fun pt =>
        match pt.map 0x1000 9 ⟨true, true, true⟩ .writeBack false t.pool.machine with
        | .ok (.error .outOfFrames) _ => t.pool.machine.allocator.freeFrames = 2
        | .ok _ _ | .stop _ _ => false) = true := by decide +kernel
  obtain ⟨t, pt, ht, hpt, htest⟩ := smallTable_some hrun
  split at htest
  · rename_i m' hmap
    obtain ⟨res, m'', hmap', hclean, _⟩ := map_fails_cleanly smallMap_disjoint smallMap_direct ht hpt
      0x1000 9 ⟨true, true, true⟩ .writeBack false
    rw [hmap, Outcome.ok.injEq] at hmap'
    obtain ⟨rfl, rfl⟩ := hmap'
    exact ⟨t, pt, m', ht, hpt, hmap, (hclean _ rfl).2.1⟩
  · cases htest
  · cases htest

/-- `unmap` of a canonical page returns. It succeeds exactly where the page has a leaf,
takes out that leaf and the tables that lead nowhere then, and changes nothing where it
fails. -/
theorem unmap_exact (hc : pt.isCanonical va = true) (hal : va % PAGE_SIZE = 0) :
    ∃ res m', pt.unmap va t.pool.machine = .ok res m' ∧
      ((∃ f, res = .ok f) ↔ pt.HasLeaf t.pool.machine.mem va) ∧
      (∀ err, res = .error err → m' = t.pool.machine) ∧
      ∀ f, res = .ok f →
        pt.toPhysical t.pool.machine.mem va = some (startAddress f) ∧
        (∀ d < PAGE_SIZE, pt.toPhysical m'.mem (va + d) = none) ∧
        (∀ a, a / PAGE_SIZE ≠ va / PAGE_SIZE → pt.SameAt t.pool.machine.mem m'.mem a) ∧
        ∃ released : Finset ℕ,
          (∀ g, g ∈ released ↔
            ∃ path ≠ [], pt.Node t.pool.machine.mem path g ∧ ¬ pt.Leads m'.mem path) ∧
          (∀ g, g ∈ m'.freeFrameSet ↔ g ∈ t.pool.machine.freeFrameSet ∨ g ∈ released) ∧
          m'.allocator.freeFrames = t.pool.machine.allocator.freeFrames + released.card ∧
          (f ∉ released → m'.frameState f = t.pool.machine.frameState f) := by
  obtain ⟨L, h⟩ := ht.inv hpair hdirect
  have hva : t.pool.machine.paging.mode.isCanonical va = true ∧ va % PAGE_SIZE = 0 := by
    rw [← h.config_eq hpt]
    exact ⟨hc, hal⟩
  have hsat : (pt.unmap va).Sat t.pool.machine (fun res m' =>
      (∃ e L', res = .ok (entryFrame t.pool.machine.paging e) ∧
        LeafAt L t.pool.machine L.kroot (pagePath t.pool.machine.paging.mode va) e ∧
        UnmapPost True L t.pool.machine L.kroot va L' m' ∧
        TableInv memoryMap L' (t.withMachine m')) ∨
      ∃ err, res = .error err ∧ m' = t.pool.machine ∧
        ∀ e, ¬ LeafAt L t.pool.machine L.kroot (pagePath t.pool.machine.paging.mode va) e)
      Prog.never :=
    h.unmap_sat hpt (fun e L' m' hl _ hpost h' => .inl ⟨e, L', rfl, hl, hpost, h'⟩)
      fun err hno => .inr ⟨err, rfl, rfl, hno hva⟩
  obtain ⟨res, m', hrun, ⟨e, L', rfl, hl, hpost, h'⟩ | ⟨err, rfl, rfl, hno⟩⟩ := hsat.finishes
  · refine ⟨_, m', hrun, ?_, nofun, ?_⟩
    · rw [h.hasLeaf_iff hpt]
      exact iff_of_true ⟨_, rfl⟩ ⟨e, hl⟩
    · intro f hf
      cases hf
      obtain ⟨hphys, hgone, hothers⟩ := h.unmapped hpt h' hpost hl hva
      obtain ⟨released, hmem, hfree, hcount, hrest⟩ := h.released hpt h' hpost
      exact ⟨hphys, hgone, hothers, released, hmem, hfree, hcount, hrest _⟩
  · refine ⟨_, _, hrun, ?_, fun _ _ => rfl, nofun⟩
    rw [h.hasLeaf_iff hpt]
    exact iff_of_false nofun fun ⟨e, he⟩ => hno e he

end Runs

/-- The last page of a table takes the table with it, and leaves its frame. -/
theorem unmap_exact_small : ∃ t pt m',
    TableSession.Reached smallMap smallDirectMap (smallMachine .fourLevel) t ∧
    t.table = some pt ∧ pt.unmap 0x1000 t.pool.machine = .ok (.ok 3) m' ∧
    pt.toPhysical m'.mem 0x1FFF = none ∧
    m'.freeFrameSet = t.pool.machine.freeFrameSet ∪ {4, 5, 6} := by
  have hrun : (smallTable .fourLevel
      [.new, .frames .alloc, .map 0x1000 3 ⟨true, false, false⟩ .writeBack false]).any
      (fun t => t.table.any fun pt =>
        match pt.unmap 0x1000 t.pool.machine with
        | .ok (.ok f) m => f = 3 ∧ pt.isCanonical 0x1000 = true ∧
          m.freeFrameSet = t.pool.machine.freeFrameSet ∪ {4, 5, 6}
        | .ok (.error _) _ | .stop _ _ => false) = true := by decide +kernel
  obtain ⟨t, pt, ht, hpt, htest⟩ := smallTable_some hrun
  split at htest
  · rename_i f m' hunmap
    obtain ⟨rfl, hc, hfree⟩ := of_decide_eq_true htest
    obtain ⟨res, m'', hunmap', _, _, hread⟩ := unmap_exact smallMap_disjoint smallMap_direct ht hpt
      hc (by decide)
    rw [hunmap, Outcome.ok.injEq] at hunmap'
    obtain ⟨rfl, rfl⟩ := hunmap'
    exact ⟨t, pt, m', ht, hpt, hunmap, (hread _ rfl).2.1 0xFFF (by decide), hfree⟩
  · cases htest
  · cases htest

/-- The frame of a page is free after `unmap` where it is one of the tables that have
become useless. -/
theorem unmap_frees_its_leaf : ∃ t pt m',
    TableSession.Reached smallMap smallDirectMap (smallMachine .fourLevel) t ∧
    t.table = some pt ∧ pt.isCanonical 0x1000 = true ∧
    pt.unmap 0x1000 t.pool.machine = .ok (.ok 5) m' ∧
    t.pool.machine.frameState 5 = some .allocated ∧ m'.frameState 5 = some .free := by
  have hrun : (smallTable .fourLevel [.new, .map 0x1000 5 ⟨true, true, true⟩ .writeBack false]).any
      (fun t => t.table.any fun pt =>
        match pt.unmap 0x1000 t.pool.machine with
        | .ok (.ok f) m => f = 5 ∧ pt.isCanonical 0x1000 = true ∧
          t.pool.machine.frameState 5 = some .allocated ∧ m.frameState 5 = some .free
        | .ok (.error _) _ | .stop _ _ => false) = true := by decide +kernel
  obtain ⟨t, pt, ht, hpt, htest⟩ := smallTable_some hrun
  split at htest
  · rename_i f m' hunmap
    obtain ⟨rfl, hc, hbefore, hafter⟩ := of_decide_eq_true htest
    exact ⟨t, pt, m', ht, hpt, hc, hunmap, hbefore, hafter⟩
  · cases htest
  · cases htest

end Dusk
