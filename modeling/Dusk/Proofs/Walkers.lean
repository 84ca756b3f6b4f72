import Dusk.Proofs.MemInv

/-! The four walks over a page table in any memory: each finds a page exactly where the
descent ends at a present leaf or at a huge page, and what it finds is the same for all
addresses of a page. -/

namespace Dusk

open Lib

variable {pt : PageTable} {mem : PhysMem} {va d : ℕ}

/-- The descent for an address ends at a present leaf or at a huge page. -/
def PageTable.Reaches (pt : PageTable) (mem : PhysMem) (va : ℕ) : List PageTableLevel → ℕ → Prop
  | [], f => ∃ entries, pt.table mem f = some entries ∧
      PageTableEntry.isPresent (entries (p1Index va)) = true
  | level :: levels, f => ∃ entries, pt.table mem f = some entries ∧
      PageTableEntry.isPresent (entries (level.index va)) = true ∧
      if PageTableEntry.isHuge (entries (level.index va)) = true then level.largePageSize.isSome = true
      else pt.Reaches mem va levels (entryFrame pt.config (entries (level.index va)))

/-- A present entry that is not huge has a frame. -/
theorem tableFrame_of_present {e : Word} (config : PagingConfig)
    (hp : PageTableEntry.isPresent e = true) (hh : PageTableEntry.isHuge e = false) :
    PageTableEntry.tableFrame e config = some (entryFrame config e) := by
  rw [PageTableEntry.tableFrame, fromStartAddress, physicalAddress_aligned]
  simp [hp, hh, entryFrame]

section Page

theorem index_add (level : PageTableLevel) (hal : va % PAGE_SIZE = 0) (hd : d < PAGE_SIZE) :
    level.index (va + d) = level.index va := by
  rw [level_index_eq, level_index_eq]
  simp only [PAGE_SIZE] at hal hd
  cases level <;> simp only [PageTableLevel.shift] <;> omega

theorem p1Index_add (hal : va % PAGE_SIZE = 0) (hd : d < PAGE_SIZE) :
    p1Index (va + d) = p1Index va := by
  rw [p1Index_eq, p1Index_eq]
  simp only [PAGE_SIZE] at hal hd
  omega

theorem pageOffset_add (hal : va % PAGE_SIZE = 0) (hd : d < PAGE_SIZE) :
    pageOffset (va + d) = pageOffset va + d := by
  rw [pageOffset_eq, pageOffset_eq]
  simp only [PAGE_SIZE] at hal hd
  omega

/-- A huge page is translated at every address. -/
theorem huge_translates (e : Word) (config : PagingConfig) {level : PageTableLevel} {pageSize : ℕ}
    (hsize : level.largePageSize = some pageSize) :
    translateHugePage e va pageSize config = some (PageTableEntry.physicalAddress e config -
      PageTableEntry.physicalAddress e config % pageSize + va % pageSize) := by
  have hlt : PageTableEntry.physicalAddress e config < 2 ^ 64 := BitVec.isLt _
  rw [translateHugePage, checkedAdd, if_pos]
  simp only [USIZE_END]
  cases level with
  | pml5 | pml4 => cases hsize
  | pdpt | pageDirectory =>
    cases hsize
    simp only [Nat.shiftLeft_eq]
    omega

theorem huge_add (e : Word) (config : PagingConfig) {level : PageTableLevel} {pageSize : ℕ}
    (hsize : level.largePageSize = some pageSize) (hal : va % PAGE_SIZE = 0) (hd : d < PAGE_SIZE) :
    translateHugePage e (va + d) pageSize config =
      (translateHugePage e va pageSize config).map (· + d) := by
  rw [huge_translates e config hsize, huge_translates e config hsize, Option.map_some,
    Option.some.injEq, Nat.add_assoc]
  congr 1
  simp only [PAGE_SIZE] at hal hd
  cases level with
  | pml5 | pml4 => cases hsize
  | pdpt | pageDirectory =>
    cases hsize
    simp only [Nat.shiftLeft_eq]
    omega

theorem toPhysicalFrom_add (hal : va % PAGE_SIZE = 0) (hd : d < PAGE_SIZE)
    (levels : List PageTableLevel) (f : ℕ) :
    pt.toPhysicalFrom mem (va + d) levels f = (pt.toPhysicalFrom mem va levels f).map (· + d) := by
  induction levels generalizing f with
  | nil =>
    rw [PageTable.toPhysicalFrom, PageTable.toPhysicalFrom, p1Index_add hal hd]
    cases pt.table mem f with
    | none => rfl
    | some entries =>
      simp only [Option.bind_eq_bind, Option.bind_some, leafFrame_eq]
      cases PageTableEntry.isPresent (entries (p1Index va)) with
      | false => rfl
      | true =>
        simp only [if_true, Option.bind_some, checkedAdd_entry, Option.map_some]
        rw [pageOffset_add hal hd, Nat.add_assoc]
  | cons level levels ih =>
    rw [PageTable.toPhysicalFrom, PageTable.toPhysicalFrom, index_add level hal hd]
    cases pt.table mem f with
    | none => rfl
    | some entries =>
      simp only [Option.bind_eq_bind, Option.bind_some]
      cases PageTableEntry.isPresent (entries (level.index va)) with
      | false => rfl
      | true =>
        cases PageTableEntry.isHuge (entries (level.index va)) with
        | true =>
          cases hsize : level.largePageSize with
          | none => rfl
          | some pageSize => exact huge_add _ _ hsize hal hd
        | false =>
          cases PageTableEntry.tableFrame (entries (level.index va)) pt.config with
          | none => rfl
          | some next => exact ih next

theorem mappingFrom_add (hal : va % PAGE_SIZE = 0) (hd : d < PAGE_SIZE)
    (levels : List PageTableLevel) (f : ℕ) (permissions : PagePermissions) :
    pt.mappingFrom mem (va + d) levels f permissions = pt.mappingFrom mem va levels f permissions := by
  induction levels generalizing f permissions with
  | nil => rw [PageTable.mappingFrom, PageTable.mappingFrom, p1Index_add hal hd]
  | cons level levels ih =>
    rw [PageTable.mappingFrom, PageTable.mappingFrom, index_add level hal hd]
    simp only [ih]

/-- All addresses of a canonical page are translated with it. -/
theorem toPhysical_add (hc : pt.isCanonical va = true) (hal : va % PAGE_SIZE = 0)
    (hd : d < PAGE_SIZE) :
    pt.toPhysical mem (va + d) = (pt.toPhysical mem va).map (· + d) := by
  have hcd : pt.isCanonical (va + d) = true := canonical_add hc hal hd
  simp only [PageTable.toPhysical, hc, hcd, Bool.not_true, Bool.false_eq_true, if_false]
  exact toPhysicalFrom_add hal hd _ _

/-- All addresses of a canonical page have its permissions. -/
theorem mapping_add (hc : pt.isCanonical va = true) (hal : va % PAGE_SIZE = 0)
    (hd : d < PAGE_SIZE) : pt.mapping mem (va + d) = pt.mapping mem va := by
  have hcd : pt.isCanonical (va + d) = true := canonical_add hc hal hd
  simp only [PageTable.mapping, hc, hcd, Bool.not_true, Bool.false_eq_true, if_false]
  exact mappingFrom_add hal hd _ _ _

end Page

section Reaches

theorem toPhysicalFrom_isSome (levels : List PageTableLevel) (f : ℕ) :
    (pt.toPhysicalFrom mem va levels f).isSome = true ↔ pt.Reaches mem va levels f := by
  induction levels generalizing f with
  | nil =>
    rw [PageTable.toPhysicalFrom, PageTable.Reaches]
    cases pt.table mem f with
    | none => simp
    | some entries =>
      simp only [Option.bind_eq_bind, Option.bind_some, leafFrame_eq, Option.some.injEq,
        exists_eq_left']
      cases PageTableEntry.isPresent (entries (p1Index va)) <;> simp [checkedAdd_entry]
  | cons level levels ih =>
    rw [PageTable.toPhysicalFrom, PageTable.Reaches]
    cases pt.table mem f with
    | none => simp
    | some entries =>
      simp only [Option.bind_eq_bind, Option.bind_some, Option.some.injEq, exists_eq_left']
      cases hp : PageTableEntry.isPresent (entries (level.index va)) with
      | false => simp
      | true =>
        cases hh : PageTableEntry.isHuge (entries (level.index va)) with
        | true =>
          cases hsize : level.largePageSize with
          | none => simp
          | some pageSize => simp [huge_translates _ _ hsize]
        | false => simp [tableFrame_of_present _ hp hh, ih]

theorem mappingFrom_isSome (levels : List PageTableLevel) (f : ℕ) (permissions : PagePermissions) :
    (pt.mappingFrom mem va levels f permissions).isSome = true ↔ pt.Reaches mem va levels f := by
  induction levels generalizing f permissions with
  | nil =>
    rw [PageTable.mappingFrom, PageTable.Reaches]
    cases pt.table mem f with
    | none => simp
    | some entries =>
      simp only [Option.bind_eq_bind, Option.bind_some, Option.some.injEq, exists_eq_left']
      cases PageTableEntry.isPresent (entries (p1Index va)) <;> simp
  | cons level levels ih =>
    rw [PageTable.mappingFrom, PageTable.Reaches]
    cases pt.table mem f with
    | none => simp
    | some entries =>
      simp only [Option.bind_eq_bind, Option.bind_some, Option.some.injEq, exists_eq_left']
      cases hp : PageTableEntry.isPresent (entries (level.index va)) with
      | false => simp
      | true =>
        cases hh : PageTableEntry.isHuge (entries (level.index va)) with
        | true => simp
        | false => simp [tableFrame_of_present _ hp hh, ih]

/-- Where the walk of `unmap` has found a page. -/
def PageTable.UnmapFinds (pt : PageTable) (mem : PhysMem) (va : ℕ) (levels : List PageTableLevel)
    (f : ℕ) (parents : List EntryLocation) : Prop :=
  (∃ pageTable parents' entries,
    pt.unmapWalk mem va levels f parents = .ok (pageTable, parents') ∧
    pt.table mem pageTable = some entries ∧
    PageTableEntry.isPresent (entries (p1Index va)) = true) ∨
  pt.unmapWalk mem va levels f parents = .error .hugePageConflict

/-- The entries of `levels` that the descent reads are zero where they are not present. -/
def PageTable.ZeroOn (pt : PageTable) (mem : PhysMem) (va : ℕ) : List PageTableLevel → ℕ → Prop
  | [], _ => True
  | level :: levels, f =>
    (PageTableEntry.isPresent (mem.word f (level.index va)) = false →
      mem.word f (level.index va) = 0) ∧
    ∀ next, PageTableEntry.tableFrame (mem.word f (level.index va)) pt.config = some next →
      pt.ZeroOn mem va levels next

theorem table_eq {f : ℕ} {entries : ℕ → Word} (h : pt.table mem f = some entries) :
    entries = mem.word f := by
  rw [PageTable.table, Option.map_eq_some_iff] at h
  obtain ⟨_, _, rfl⟩ := h
  rfl

theorem unmapFinds_iff (levels : List PageTableLevel) (f : ℕ) (parents : List EntryLocation)
    (hzero : pt.ZeroOn mem va levels f) :
    pt.UnmapFinds mem va levels f parents ↔ pt.Reaches mem va levels f := by
  induction levels generalizing f parents with
  | nil =>
    unfold PageTable.UnmapFinds
    simp only [PageTable.unmapWalk, PageTable.Reaches]
    simp
  | cons level levels ih =>
    unfold PageTable.UnmapFinds at ih ⊢
    rw [PageTable.unmapWalk, PageTable.Reaches, PageTable.getNextLevel]
    cases htable : pt.table mem f with
    | none => simp
    | some entries =>
      obtain rfl := table_eq htable
      simp only [Option.some.injEq, exists_eq_left']
      cases hp : PageTableEntry.isPresent (mem.word f (level.index va)) with
      | false =>
        -- `getNextLevel` looks at the huge bit first, which a zero entry does not have.
        have hh : PageTableEntry.isHuge (mem.word f (level.index va)) = false := by
          rw [hzero.1 hp]
          rfl
        simp [hh, tableFrame_of_not_present hp]
      | true =>
        cases hh : PageTableEntry.isHuge (mem.word f (level.index va)) with
        | true => cases level.largePageSize <;> simp
        | false =>
          have hframe := tableFrame_of_present pt.config hp hh
          simp only [hframe, Bool.false_eq_true, if_false, true_and]
          exact ih _ _ (hzero.2 _ hframe)

/-- Entries of the tables that are zero where they are not present. -/
theorem zeroOn_of (hzero : ∀ path f i, pt.Node mem path f → i < PAGE_TABLE_ENTRIES →
      PageTableEntry.isPresent (mem.word f i) = false → mem.word f i = 0)
    (levels : List PageTableLevel) {path : List ℕ} {f : ℕ} (hf : pt.Node mem path f)
    (hlen : path.length + levels.length ≤ pt.config.mode.intermediateLevels.length) :
    pt.ZeroOn mem va levels f := by
  induction levels generalizing path f with
  | nil => trivial
  | cons level levels ih =>
    rw [List.length_cons] at hlen
    refine ⟨hzero path f _ hf (level_index_lt level va), fun next hnext => ?_⟩
    obtain ⟨_, hlt, hat⟩ := hf
    have hlen' : (path ++ [level.index va]).length = path.length + 1 := by simp
    have hnode : pt.Node mem (path ++ [level.index va]) next := by
      refine ⟨by omega, ?_, ?_⟩
      · intro i hi
        rcases List.mem_append.mp hi with hi | hi
        · exact hlt i hi
        · rw [List.mem_singleton] at hi
          rw [hi]
          exact level_index_lt level va
      · rw [tableAt_append, hat]
        exact hnext
    exact ih hnode (by omega)

section Unmap

variable {m : Machine}

/-- `unmap` fails with nothing but a huge page on the way where its walk has found a page. -/
theorem unmap_found_iff (hc : pt.isCanonical va = true) (hal : va % PAGE_SIZE = 0) :
    (∀ e m', pt.unmap va m = .ok (.error e) m' → e = .hugePageConflict) ↔
      pt.UnmapFinds m.mem va pt.config.mode.intermediateLevels pt.frame [] := by
  have hsat : (∀ e m', pt.unmap va m = .ok (.error e) m' → e = .hugePageConflict) ↔
      (pt.unmap va).Sat m (fun r _ => ∀ e, r = .error e → e = .hugePageConflict)
        fun _ _ => True := by
    rw [Prog.sat_iff]
    constructor
    · rintro h
      exact ⟨fun r m' hrun e hr => h e m' (hr ▸ hrun), fun _ _ _ => trivial⟩
    · rintro ⟨h, _⟩ e m' hrun
      exact h _ m' hrun e rfl
  rw [hsat, PageTable.unmap, PageTable.UnmapFinds]
  simp only [hc, hal, Bool.not_true, Bool.false_eq_true, if_false, ne_eq, not_true_eq_false,
    Prog.sat_bind, Prog.sat_get]
  cases hwalk : pt.unmapWalk m.mem va pt.config.mode.intermediateLevels pt.frame [] with
  | error e => simp
  | ok w =>
    obtain ⟨t, parents⟩ := w
    cases htable : pt.table m.mem t with
    | none => simp [htable]
    | some entries =>
      cases hp : PageTableEntry.isPresent (entries (p1Index va)) with
      | false => simp [htable, hp, leafFrame_eq]
      | true =>
        refine iff_of_true ?_ (.inl ⟨t, parents, entries, rfl, htable, hp⟩)
        simp only [htable, leafFrame_eq, hp, if_true, Prog.sat_bind, Prog.sat_get, sat_storeEntry,
          Prog.sat_pure]
        -- Past the leaf `unmap` succeeds if it returns at all.
        refine Prog.sat_any _ (fun _ _ => ?_) fun _ _ => trivial
        refine Prog.sat_any _ (fun _ _ => ?_) fun _ _ => trivial
        refine Prog.sat_any _ (fun _ _ e he => ?_) fun _ _ => trivial
        cases he

end Unmap

/-- Where the walk of `map` has found a page. -/
def PageTable.MapFinds (pt : PageTable) (mem : PhysMem)
    (walk : Except PageTableMapError PageTable.MapWalk) (va : ℕ) : Prop :=
  (∃ pageTable upgrades entries, walk = .ok (.complete pageTable upgrades) ∧
    pt.table mem pageTable = some entries ∧
    PageTableEntry.isPresent (entries (p1Index va)) = true) ∨
  walk = .error .hugePageConflict

theorem mapFinds_iff (user : Bool) (levels : List PageTableLevel) (f : ℕ)
    (upgrades : List EntryLocation) :
    pt.MapFinds mem (pt.mapWalk mem va user levels f upgrades) va ↔
      pt.Reaches mem va levels f := by
  induction levels generalizing f upgrades with
  | nil =>
    unfold PageTable.MapFinds
    simp [PageTable.mapWalk, PageTable.Reaches]
  | cons level levels ih =>
    unfold PageTable.MapFinds at ih ⊢
    rw [PageTable.mapWalk, PageTable.Reaches]
    cases htable : pt.table mem f with
    | none => simp
    | some entries =>
      simp only [Option.some.injEq, exists_eq_left']
      cases hp : PageTableEntry.isPresent (entries (level.index va)) with
      | false => simp
      | true =>
        cases hh : PageTableEntry.isHuge (entries (level.index va)) with
        | true => cases level.largePageSize <;> simp
        | false =>
          simp only [tableFrame_of_present pt.config hp hh, Bool.not_true, Bool.false_eq_true,
            if_false, true_and]
          exact ih _ _

end Reaches

section Map

variable {m : Machine} {frame : ℕ} {permissions : PagePermissions} {cachePolicy : CachePolicy}
  {isGlobal : Bool}

/-- What `map` says of a page that is mapped already. -/
def PageTableMapError.Found (e : PageTableMapError) : Prop :=
  e = .pageAlreadyMapped ∨ e = .hugePageConflict

/-- No answer says that the page is mapped. -/
def NotFound : Except PageTableMapError Unit → Machine → Prop
  | .ok (), _ => True
  | .error e, _ => ¬ e.Found

theorem allocPrivateTables_notFound (user : Bool) (count : ℕ) (m : Machine) :
    (pt.allocPrivateTables user count).Sat m (fun r m' => NotFound r.2 m') fun _ _ => True := by
  induction count generalizing m with
  | zero =>
    rw [PageTable.allocPrivateTables, Prog.sat_pure]
    trivial
  | succ count ih =>
    rw [PageTable.allocPrivateTables, Prog.sat_bind]
    refine Prog.sat_any _ (fun result m₁ => ?_) fun _ _ => trivial
    cases result with
    | none => simp [NotFound, PageTableMapError.Found]
    | some f =>
      cases hnew : PageTableEntry.newTable f user pt.config with
      | error e => simp [hnew, NotFound, PageTableMapError.Found]
      | ok e =>
        simp only [hnew, Prog.sat_bind, Prog.sat_pure]
        exact ih m₁

theorem linkPrivateTables_notFound (va : ℕ) (user : Bool) (leafEntry : Word) (tables : List ℕ)
    (below : List PageTableLevel) (m : Machine) :
    (pt.linkPrivateTables va user leafEntry tables below).Sat m NotFound fun _ _ => True := by
  induction tables generalizing below m with
  | nil => simp [PageTable.linkPrivateTables, NotFound]
  | cons table tables ih =>
    cases tables with
    | nil =>
      rw [PageTable.linkPrivateTables]
      cases pt.directMap.translate (startAddress table) with
      | none => simp [NotFound, PageTableMapError.Found]
      | some _ => simp [NotFound]
    | cons child tables =>
      cases below with
      | nil => simp [PageTable.linkPrivateTables, NotFound, PageTableMapError.Found]
      | cons level below =>
        rw [PageTable.linkPrivateTables]
        cases PageTableEntry.newTable child user pt.config with
        | error e => simp [NotFound, PageTableMapError.Found]
        | ok e =>
          cases pt.directMap.translate (startAddress table) with
          | none => simp [NotFound, PageTableMapError.Found]
          | some _ =>
            simp only [Prog.sat_bind, sat_storeEntry]
            exact ih below _

theorem mapMissing_notFound (va : ℕ) (user : Bool) (leafEntry : Word) (location : EntryLocation)
    (below : List PageTableLevel) (upgrades : List EntryLocation) (m : Machine) :
    (pt.mapMissing va user leafEntry location below upgrades).Sat m NotFound fun _ _ => True := by
  rw [PageTable.mapMissing, Prog.sat_bind]
  refine (allocPrivateTables_notFound user _ m).mono ?_ fun _ _ h => h
  rintro ⟨tables, allocated⟩ m₁ hallocated
  cases allocated with
  | error e =>
    simp only [Prog.sat_bind, Prog.sat_pure]
    exact Prog.sat_any _ (fun _ _ => hallocated) fun _ _ => trivial
  | ok u =>
    simp only [Prog.sat_bind]
    refine (linkPrivateTables_notFound va user leafEntry tables below m₁).mono ?_ fun _ _ h => h
    intro prepared m₂ hprepared
    cases prepared with
    | error e =>
      simp only [Prog.sat_bind, Prog.sat_pure]
      exact Prog.sat_any _ (fun _ _ => hprepared) fun _ _ => trivial
    | ok u =>
      cases PageTableEntry.newTable (tables.headD 0) user pt.config with
      | error e =>
        simp only [Prog.sat_bind, Prog.sat_pure]
        refine Prog.sat_any _ (fun _ _ => ?_) fun _ _ => trivial
        simp [NotFound, PageTableMapError.Found]
      | ok e =>
        simp only [Prog.sat_bind, Prog.sat_pure]
        refine Prog.sat_any _ (fun _ _ => ?_) fun _ _ => trivial
        refine Prog.sat_any _ (fun _ _ => ?_) fun _ _ => trivial
        exact Prog.sat_any _ (fun _ _ => trivial) fun _ _ => trivial

theorem mapWalk_error {user : Bool} {levels : List PageTableLevel} {f : ℕ}
    {upgrades : List EntryLocation} {e : PageTableMapError}
    (h : pt.mapWalk mem va user levels f upgrades = .error e) : e ≠ .pageAlreadyMapped := by
  induction levels generalizing f upgrades with
  | nil => cases h
  | cons level levels ih =>
    rw [PageTable.mapWalk] at h
    cases htable : pt.table mem f with
    | none =>
      rw [htable] at h
      cases h
      nofun
    | some entries =>
      simp only [htable] at h
      cases hp : PageTableEntry.isPresent (entries (level.index va)) with
      | false => simp [hp] at h
      | true =>
        cases hh : PageTableEntry.isHuge (entries (level.index va)) with
        | true =>
          cases hsize : level.largePageSize <;> simp [hp, hh, hsize] at h <;> rw [← h] <;> nofun
        | false =>
          simp only [hp, hh, tableFrame_of_present pt.config hp hh, Bool.not_true,
            Bool.false_eq_true, if_false] at h
          exact ih h

/-- `map` past its checks: what it does is decided by its walk. -/
theorem map_walk {leafEntry : Word} (hc : pt.isCanonical va = true) (hal : va % PAGE_SIZE = 0)
    (hnew : PageTableEntry.new (startAddress frame) permissions cachePolicy pt.config isGlobal =
      .ok leafEntry) :
    pt.map va frame permissions cachePolicy isGlobal m =
      (match pt.mapWalk m.mem va permissions.userAccessible pt.config.mode.intermediateLevels
          pt.frame [] with
        | .error e => pure (.error e)
        | .ok (.complete pageTable upgrades) =>
          match pt.table m.mem pageTable with
          | none => pure (.error .pageTableOutsideDirectMap)
          | some entries =>
            if PageTableEntry.isPresent (entries (p1Index va)) then pure (.error .pageAlreadyMapped)
            else do
              pt.applyUserUpgrades upgrades
              pt.writeEntry .tableLeftDirectMap ⟨pageTable, p1Index va⟩ leafEntry
              pt.flushTlbIfActive va
              pure (.ok ())
        | .ok (.missing location below upgrades) =>
          pt.mapMissing va permissions.userAccessible leafEntry location below upgrades :
        MM (Except PageTableMapError Unit)) m := by
  rw [PageTable.map]
  simp only [hc, hal, hnew, Bool.not_true, Bool.false_eq_true, if_false, ne_eq,
    not_true_eq_false]
  rfl

/-- `map` with valid arguments finds a page mapped where the descent reaches one. -/
theorem map_found_iff (hc : pt.isCanonical va = true) (hal : va % PAGE_SIZE = 0)
    (hframe : startAddress frame < pt.config.physicalAddressLimit)
    (hx : permissions.executable = true ∨ pt.config.nxEnabled = true) :
    (∃ e m', pt.map va frame permissions cachePolicy isGlobal m = .ok (.error e) m' ∧ e.Found) ↔
      pt.Reaches m.mem va pt.config.mode.intermediateLevels pt.frame := by
  obtain ⟨leafEntry, hnew⟩ : ∃ e, PageTableEntry.new (startAddress frame) permissions cachePolicy
      pt.config isGlobal = .ok e := by
    rw [PageTableEntry.new, if_neg (by omega), if_neg]
    · exact ⟨_, rfl⟩
    · rcases hx with hx | hx <;> simp [hx]
  rw [← mapFinds_iff permissions.userAccessible _ _ []]
  rw [map_walk hc hal hnew]
  cases hwalk : pt.mapWalk m.mem va permissions.userAccessible
      pt.config.mode.intermediateLevels pt.frame [] with
  | error e =>
    have hne := mapWalk_error hwalk
    constructor
    · rintro ⟨e', m', hrun, rfl | rfl⟩
      · cases hrun
        exact absurd rfl hne
      · cases hrun
        exact .inr rfl
    · rintro (⟨_, _, _, hw, _⟩ | hw)
      · cases hw
      · cases hw
        exact ⟨_, m, rfl, .inr rfl⟩
  | ok w =>
    cases w with
    | complete t us =>
      cases htable : pt.table m.mem t with
      | none =>
        refine iff_of_false ?_ ?_
        · rintro ⟨e, m', hrun, rfl | rfl⟩ <;> simp only [htable] at hrun <;> cases hrun
        · rintro (⟨_, _, _, hw, ht, _⟩ | hw)
          · cases hw
            rw [htable] at ht
            cases ht
          · cases hw
      | some entries =>
        cases hp : PageTableEntry.isPresent (entries (p1Index va)) with
        | true =>
          refine iff_of_true ⟨.pageAlreadyMapped, m, ?_, .inl rfl⟩ (.inl ⟨t, us, entries, rfl, htable, hp⟩)
          simp only [htable, hp, if_true]
          rfl
        | false =>
          refine iff_of_false ?_ ?_
          · rintro ⟨e, m', hrun, hfound⟩
            have hsat : (do
                pt.applyUserUpgrades us
                pt.writeEntry .tableLeftDirectMap ⟨t, p1Index va⟩ leafEntry
                pt.flushTlbIfActive va
                pure (.ok ()) : MM (Except PageTableMapError Unit)).Sat m NotFound
                fun _ _ => True := by
              simp only [Prog.sat_bind, Prog.sat_pure]
              refine Prog.sat_any _ (fun _ _ => ?_) fun _ _ => trivial
              refine Prog.sat_any _ (fun _ _ => ?_) fun _ _ => trivial
              exact Prog.sat_any _ (fun _ _ => trivial) fun _ _ => trivial
            simp only [htable, hp, Bool.false_eq_true, if_false] at hrun
            exact hsat.of_ok hrun hfound
          · rintro (⟨_, _, _, hw, ht, hp'⟩ | hw)
            · cases hw
              rw [htable] at ht
              cases ht
              rw [hp] at hp'
              cases hp'
            · cases hw
    | missing location below us =>
      refine iff_of_false ?_ ?_
      · rintro ⟨e, m', hrun, hfound⟩
        exact (mapMissing_notFound va permissions.userAccessible leafEntry location below us m).of_ok
          hrun hfound
      · rintro (⟨_, _, _, hw, _⟩ | hw) <;> cases hw

end Map

end Dusk
