import Dusk.Proofs.Intact
import Dusk.Proofs.Stack

/-! When the pages of a stack can be made: the frames on offer have to suffice for the
pages and for the tables that are missing on the way to them. -/

namespace Dusk

open Lib Radix

variable {mixed : Prop} {L L' : Layout} {m m' : Machine} {r a va : ℕ}

/-- The free frames that allocations reach before one that no entry can name. -/
def Machine.offers (m : Machine) : Finset ℕ :=
  m.freeFrameSet.filter fun f => startAddress f < m.paging.physicalAddressLimit ∧
    (m.allocator.nextSearch ≤ f ∨ ∀ g ∈ m.freeFrameSet,
      m.allocator.nextSearch ≤ g → startAddress g < m.paging.physicalAddressLimit)

theorem AllocInv.offers_eq (h : AllocInv L m) : L.offers m = m.offers := by
  ext f
  simp only [h.mem_offers, Machine.offers, Finset.mem_filter, h.mem_freeFrameSet]

/-- The places below a table, on the way to a page, that have no table. -/
def missingPaths (config : PagingConfig) (mem : PhysMem) (indices : List ℕ) (f : ℕ) :
    Finset (List ℕ) :=
  indices.inits.toFinset.filter fun path => tableAt config mem path f = none

theorem mem_missingPaths {config : PagingConfig} {mem : PhysMem} {indices path : List ℕ} {f : ℕ} :
    path ∈ missingPaths config mem indices f ↔
      path <+: indices ∧ tableAt config mem path f = none := by
  rw [missingPaths, Finset.mem_filter, List.mem_toFinset, List.mem_inits]

theorem card_inits_toFinset (l : List ℕ) : l.inits.toFinset.card = l.length + 1 := by
  induction l with
  | nil => rfl
  | cons i l ih =>
    have hcons : (i :: l).inits.toFinset = insert [] (l.inits.toFinset.image (i :: ·)) := by
      ext path
      simp
    rw [hcons, Finset.card_insert_of_notMem (by simp),
      Finset.card_image_of_injective _ (List.cons_injective), ih, List.length_cons]

/-- As many tables are missing as there are places without one. -/
theorem card_missingPaths (config : PagingConfig) (mem : PhysMem) (va : ℕ)
    (levels : List PageTableLevel) (f : ℕ) :
    (missingPaths config mem (levels.map fun l => l.index va) f).card =
      missingFrom config mem va levels f := by
  induction levels generalizing f with
  | nil => rfl
  | cons level levels ih =>
    rw [missingFrom, List.map_cons]
    have hcons : ∀ path, tableAt config mem (level.index va :: path) f =
        (PageTableEntry.tableFrame (mem.word f (level.index va)) config).bind
          (tableAt config mem path) := fun _ => rfl
    cases htable : PageTableEntry.tableFrame (mem.word f (level.index va)) config with
    | none =>
      have himage : missingPaths config mem (level.index va :: levels.map fun l => l.index va) f =
          (levels.map fun l => l.index va).inits.toFinset.image (level.index va :: ·) := by
        ext path
        rw [mem_missingPaths]
        cases path with
        | nil => simp [tableAt]
        | cons i path =>
          simp only [List.cons_prefix_cons, Finset.mem_image, List.mem_toFinset, List.mem_inits]
          constructor
          · rintro ⟨⟨rfl, hp⟩, _⟩
            exact ⟨path, hp, rfl⟩
          · rintro ⟨path', hp, he⟩
            cases he
            exact ⟨⟨rfl, hp⟩, by rw [hcons, htable]; rfl⟩
      rw [himage, Finset.card_image_of_injective _ (List.cons_injective), card_inits_toFinset,
        List.length_map]
    | some g =>
      have himage : missingPaths config mem (level.index va :: levels.map fun l => l.index va) f =
          (missingPaths config mem (levels.map fun l => l.index va) g).image
            (level.index va :: ·) := by
        ext path
        rw [mem_missingPaths]
        cases path with
        | nil => simp [tableAt]
        | cons i path =>
          simp only [List.cons_prefix_cons, Finset.mem_image, mem_missingPaths]
          constructor
          · rintro ⟨⟨rfl, hp⟩, hnone⟩
            rw [hcons, htable] at hnone
            exact ⟨path, ⟨hp, hnone⟩, rfl⟩
          · rintro ⟨path', ⟨hp, hnone⟩, he⟩
            cases he
            exact ⟨⟨rfl, hp⟩, by rw [hcons, htable]; exact hnone⟩
      rw [himage, Finset.card_image_of_injective _ (List.cons_injective), ih]

/-- The places of the tables that have to be made for some pages. -/
def PageTable.missingTables (pt : PageTable) (mem : PhysMem) (pages : Finset ℕ) :
    Finset (List ℕ) :=
  pages.biUnion fun va => missingPaths pt.config mem (tableIndices pt.config.mode va) pt.frame

/-- A place on the way to a page has no table where nothing below it is mapped. -/
theorem MemInv.mem_missing (h : MemInv (steady mixed) L m) {path : List ℕ} :
    path ∈ missingPaths m.paging m.mem (tableIndices m.paging.mode va) L.kroot ↔
      path <+: tableIndices m.paging.mode va ∧ path ≠ [] ∧
        ∀ q e, ¬ LeafAt L m L.kroot (q ++ path.reverse) e := by
  rw [mem_missingPaths]
  refine and_congr_right fun hpre => ?_
  have hlen : path.length ≤ m.paging.mode.intermediateLevels.length := by
    have := hpre.length_le
    rwa [tableIndices_length] at this
  have hnode : ∀ f, tableAt m.paging m.mem path L.kroot = some f ↔
      L.role f = .table L.kroot path.reverse := by
    intro f
    rw [← node_iff h.tree h.kroot fun _ _ => .inl rfl]
    exact ⟨fun hf => ⟨hlen, fun i hi => tableIndices_lt (hpre.subset hi), hf⟩, fun hf => hf.2.2⟩
  constructor
  · intro hnone
    refine ⟨?_, fun q e hl => ?_⟩
    · rintro rfl
      cases hnone
    · obtain ⟨f, hf⟩ := table_above h.tree hl (by simpa using hlen)
      rw [(hnode f).mpr hf] at hnone
      cases hnone
  · rintro ⟨hne, hnone⟩
    by_contra hsome
    obtain ⟨f, hf⟩ := Option.ne_none_iff_exists'.mp hsome
    obtain ⟨q, e, hl⟩ := h.leaf_below ((hnode f).mp hf) (by simpa using hne)
    exact hnone q e hl

/-- The leaf that `map` adds takes the places above it from those without a table. -/
theorem MapPost.mem_missing {frame : ℕ} {e : Word} {va' : ℕ} {path : List ℕ}
    (h : MemInv (steady mixed) L m)
    (hpost : MapPost mixed L m L.kroot va frame e (.ok ()) L' m') :
    path ∈ missingPaths m.paging m'.mem (tableIndices m.paging.mode va') L.kroot ↔
      path ∈ missingPaths m.paging m.mem (tableIndices m.paging.mode va') L.kroot ∧
        path ∉ missingPaths m.paging m.mem (tableIndices m.paging.mode va) L.kroot := by
  obtain ⟨_, _, _, _, hleaf⟩ := hpost.done rfl
  have h' := @MemInv.mem_missing mixed L' m' va' hpost.inv path
  rw [hpost.edit.kroot, hpost.edit.regs.paging] at h'
  rw [h', h.mem_missing, h.mem_missing]
  constructor
  · rintro ⟨hpre, hne, hnone⟩
    have hold : ∀ q e', ¬ LeafAt L m L.kroot (q ++ path.reverse) e' := by
      intro q e' hl
      by_cases hq : q ++ path.reverse = pagePath m.paging.mode va
      · exact hnone q e ((hleaf _ _ _).mpr (by rw [if_pos ⟨rfl, hq⟩]))
      · exact hnone q e' ((hleaf _ _ _).mpr (by rwa [if_neg fun h => hq h.2]))
    refine ⟨⟨hpre, hne, hold⟩, ?_⟩
    rintro ⟨⟨rest, hrest⟩, _, _⟩
    have hpath : p1Index va :: rest.reverse ++ path.reverse = pagePath m.paging.mode va := by
      simp [pagePath, ← hrest]
    exact hnone (p1Index va :: rest.reverse) e ((hleaf _ _ _).mpr (by rw [if_pos ⟨rfl, hpath⟩]))
  · rintro ⟨⟨hpre, hne, hnone⟩, hnot⟩
    refine ⟨hpre, hne, fun q e' hl => ?_⟩
    rw [hleaf] at hl
    split_ifs at hl with hq
    · refine hnot ⟨?_, hne, hnone⟩
      have hlen : path.length ≤ (tableIndices m.paging.mode va).length := by
        have := hpre.length_le
        rwa [tableIndices_length] at this ⊢
      have hsuf : path.reverse <:+ (tableIndices m.paging.mode va).reverse :=
        List.suffix_of_suffix_length_le ⟨q, hq.2⟩
          ⟨[p1Index va], rfl⟩ (by simpa using hlen)
      exact List.reverse_suffix.mp hsuf
    · exact hnone q e' hl

/-- Mapping the first of some pages leaves the tables that the others need. -/
theorem MapPost.card_missing {frame : ℕ} {e : Word} (h : MemInv (steady mixed) L m)
    (hpost : MapPost mixed L m L.kroot va frame e (.ok ()) L' m') (pages : Finset ℕ) :
    ((m.table L.kroot).missingTables m.mem (insert va pages)).card =
      m.missing L.kroot va + ((m.table L.kroot).missingTables m'.mem pages).card := by
  have hsub : missingPaths m.paging m.mem (tableIndices m.paging.mode va) L.kroot ⊆
      (m.table L.kroot).missingTables m.mem (insert va pages) := by
    intro path hp
    exact Finset.mem_biUnion.mpr ⟨va, Finset.mem_insert_self va pages, hp⟩
  have hrest : (m.table L.kroot).missingTables m'.mem pages =
      (m.table L.kroot).missingTables m.mem (insert va pages) \
        missingPaths m.paging m.mem (tableIndices m.paging.mode va) L.kroot := by
    ext path
    simp only [PageTable.missingTables, Machine.table, Finset.mem_sdiff, Finset.mem_biUnion,
      Finset.mem_insert, hpost.mem_missing h]
    constructor
    · rintro ⟨va', hva', hp, hnot⟩
      exact ⟨⟨va', .inr hva', hp⟩, hnot⟩
    · rintro ⟨⟨va', rfl | hva', hp⟩, hnot⟩
      · exact absurd hp hnot
      · exact ⟨va', hva', hp, hnot⟩
  have hcard := card_missingPaths m.paging m.mem va m.paging.mode.intermediateLevels L.kroot
  rw [hrest, Machine.missing, ← hcard, Nat.add_comm]
  exact (Finset.card_sdiff_add_card_eq_card hsub).symm

/-- The `count` pages of a run from the `lo`-th on. -/
def runPages (start lo count : ℕ) : List ℕ := (List.range' lo count).map (pageAt start)

theorem runPages_succ (start lo count : ℕ) :
    runPages start lo (count + 1) = pageAt start lo :: runPages start (lo + 1) count := rfl

theorem mem_runPages {start lo count va : ℕ} :
    va ∈ runPages start lo count ↔ ∃ i, lo ≤ i ∧ i < lo + count ∧ pageAt start i = va := by
  simp only [runPages, List.mem_map, List.mem_range'_1, and_assoc]

/-- Pages can be mapped, the tables for them included, with frames left for `extra` other
uses. -/
structure Room (L : Layout) (m : Machine) (pages : List ℕ) (extra : ℕ) : Prop where
  nodup : pages.Nodup
  unmapped : ∀ va ∈ pages, ∀ e, ¬ LeafAt L m L.kroot (pagePath m.paging.mode va) e
  frames : extra + ((m.table L.kroot).missingTables m.mem pages.toFinset).card ≤ (L.offers m).card

/-- A page that address spaces accept. -/
def PagingMode.IsPage (mode : PagingMode) (va : ℕ) : Prop :=
  mode.isCanonical va = true ∧ va % FRAME_SIZE = 0

namespace Room

variable {pages : List ℕ} {extra frame f : ℕ} {e : Word} {m₁ : Machine}

theorem nil (h : extra ≤ (L.offers m).card) : Room L m [] extra :=
  ⟨List.nodup_nil, nofun, by simpa [PageTable.missingTables] using h⟩

/-- A page that passes the checks is refused only where there is no room. -/
theorem not_refused (hchecks : MapChecks m va frame e) {err : PageTableMapError}
    (hrefused : MapRefused L m L.kroot va frame e err) : ¬ Room L m (va :: pages) extra := by
  rintro ⟨_, hunmapped, hframes⟩
  obtain ⟨hc, hal, hlim, hx⟩ := hchecks
  have hmissing : m.missing L.kroot va ≤
      ((m.table L.kroot).missingTables m.mem (va :: pages).toFinset).card := by
    rw [Machine.missing, ← card_missingPaths]
    exact Finset.card_le_card fun path hp => Finset.mem_biUnion.mpr ⟨va, by simp, hp⟩
  cases hrefused with
  | notCanonical hn =>
    rw [hc] at hn
    cases hn
  | unaligned hn => exact hn hal
  | tooLarge hn => omega
  | tableTooLarge _ _ _ _ hoffers => omega
  | noExecute hnot hnx => simp [hnot, hnx] at hx
  | mapped _ hl => exact hunmapped va (by simp) _ hl
  | outOfFrames _ _ _ hoffers => omega

/-- Once the first page is mapped, there is room for all where there is room for the rest. -/
theorem mapped_iff (h : MemInv (steady mixed) L m)
    (hpages : ∀ va' ∈ va :: pages, m.paging.mode.IsPage va')
    (hpost : MapPost mixed L m L.kroot va frame e (.ok ()) L' m') :
    Room L m (va :: pages) extra ↔ Room L' m' pages extra := by
  have hp : m'.paging = m.paging := hpost.edit.regs.paging
  have hkroot : L'.kroot = L.kroot := hpost.edit.kroot
  have htable : m'.table L'.kroot = m.table L.kroot := by rw [hkroot, hpost.edit.regs.table]
  obtain ⟨_, _, _, hfresh, hleaf⟩ := hpost.done rfl
  obtain ⟨_, hspent, _⟩ := hpost.room rfl
  have hmissing := hpost.card_missing h pages.toFinset
  rw [← List.toFinset_cons] at hmissing
  have hpage := hpages va (by simp)
  have hother : ∀ va' ∈ pages, va' ≠ va → ∀ e',
      LeafAt L' m' L.kroot (pagePath m.paging.mode va') e' ↔
        LeafAt L m L.kroot (pagePath m.paging.mode va') e' := by
    intro va' hva' hne e'
    have hpage' := hpages va' (by simp [hva'])
    rw [hleaf, if_neg]
    rintro ⟨_, hpath⟩
    exact hne (pagePath_inj hpage'.1 hpage.1 hpage'.2 hpage.2 hpath)
  constructor
  · rintro ⟨hnodup, hunmapped, hframes⟩
    obtain ⟨hnot, hnodup⟩ := List.nodup_cons.mp hnodup
    refine ⟨hnodup, fun va' hva' e' hl => ?_, by rw [htable]; omega⟩
    have hne : va' ≠ va := by
      rintro rfl
      exact hnot hva'
    rw [hkroot, hp, hother va' hva' hne] at hl
    exact hunmapped va' (by simp [hva']) e' hl
  · rintro ⟨hnodup, hunmapped, hframes⟩
    rw [htable] at hframes
    rw [hkroot, hp] at hunmapped
    have hnot : va ∉ pages := by
      intro hmem
      exact hunmapped va hmem e ((hleaf _ _ _).mpr (by rw [if_pos ⟨rfl, rfl⟩]))
    refine ⟨List.nodup_cons.mpr ⟨hnot, hnodup⟩, fun va' hva' e' hl => ?_, by omega⟩
    rcases List.mem_cons.mp hva' with rfl | hmem
    · exact hfresh e' hl
    · have hne : va' ≠ va := by
        rintro rfl
        exact hnot hmem
      exact hunmapped va' hmem e' ((hother va' hmem hne e').mpr hl)

theorem missing_taken (h : MemInv (steady mixed) L m) (ht : Taken (steady mixed) L m f m₁)
    (pages : Finset ℕ) : (m.table L.kroot).missingTables m₁.mem pages =
      (m.table L.kroot).missingTables m.mem pages := by
  refine Finset.biUnion_congr rfl fun va _ => ?_
  ext path
  have h₁ := @MemInv.mem_missing mixed _ m₁ va ht.inv path
  rw [Layout.set_kroot, ht.only.regs.paging] at h₁
  refine (h₁.trans ?_).trans h.mem_missing.symm
  simp only [ht.leaf]

/-- One of the other uses takes its frame. -/
theorem taken_iff (h : MemInv (steady mixed) L m) (ht : Taken (steady mixed) L m f m₁)
    (hlim : startAddress f < m.paging.physicalAddressLimit) :
    Room L m pages (extra + 1) ↔ Room (L.set f (.data .spare)) m₁ pages extra := by
  have hp := ht.only.regs.paging
  have hcard := ht.takes.card_offers h.alloc rfl ht.inv.alloc hp hlim
  have hmissing := missing_taken h ht pages.toFinset
  have htable : m₁.table (L.set f (.data .spare)).kroot = m.table L.kroot := ht.only.regs.table _
  constructor
  · rintro ⟨hnodup, hunmapped, hframes⟩
    refine ⟨hnodup, fun va hva e hl => ?_, by rw [htable, hmissing]; omega⟩
    rw [Layout.set_kroot, hp, ht.leaf] at hl
    exact hunmapped va hva e hl
  · rintro ⟨hnodup, hunmapped, hframes⟩
    rw [htable, hmissing] at hframes
    refine ⟨hnodup, fun va hva e hl => ?_, by omega⟩
    refine hunmapped va hva e ?_
    rw [Layout.set_kroot, hp, ht.leaf]
    exact hl

theorem not_of_offers (hempty : L.offers m = ∅) : ¬ Room L m pages (extra + 1) := by
  intro hroom
  have hframes := hroom.frames
  rw [hempty, Finset.card_empty] at hframes
  omega

end Room

section Pages

variable {space : AddressSpace} {permissions : PagePermissions} {start lo hi : ℕ}

/-- The loop of `StackMapping::allocate` makes its pages where there is room for them. -/
theorem allocatePages_room {remaining : ℕ} (hkind : space.kind = .kernel)
    (hpage : ∀ i < hi, m.paging.mode.IsPage (pageAt start i))
    (hrun : Run mixed L m space L.kroot a start hi)
    (huser : ¬ mixed → permissions.userAccessible = false) (hn : lo + remaining = hi) :
    (StackMapping.allocatePages space start permissions remaining lo).Sat m
      (fun res _ => res = .ok () ↔
        (remaining ≠ 0 → permissions.executable = true ∨ m.paging.nxEnabled = true) ∧
          Room L m (runPages start lo remaining) remaining) (fun _ _ => True) := by
  induction remaining generalizing lo L m with
  | zero => exact iff_of_true rfl ⟨absurd rfl, Room.nil (Nat.zero_le _)⟩
  | succ remaining ih =>
    have hlt : lo < hi := by omega
    have hinv := hrun.realm.inv
    have hadd : checkedAdd start (lo * FRAME_SIZE) = some (pageAt start lo) :=
      if_pos (canonical_lt (hpage lo hlt).1)
    rw [runPages_succ]
    simp only [StackMapping.allocatePages, hadd, Prog.sat_bind]
    refine hinv.alloc_sat ?_ ?_
    · intro hno
      have hempty : L.offers m = ∅ :=
        Finset.eq_empty_of_forall_notMem fun f hf => hno f (hinv.alloc.mem_offers.mp hf).1
      simp only [Prog.sat_bind]
      exact Prog.sat_any _ (fun _ _ => iff_of_false nofun fun hroom =>
        Room.not_of_offers hempty hroom.2) fun _ _ => trivial
    · intro f m₁ ht _
      have hedit : Edit (fun ρ => ∀ r', ρ ≠ .table r' []) L.kroot L m (L.set f (.data .spare)) m₁ :=
        ht.edit nofun nofun
      have hrun₁ := hrun.edit ht.inv hedit (fun r' hno => hno r' rfl) le_rfl
        (.inr fun e hl => (ht.leaf _ _ _).mpr hl)
      have hp₁ := ht.only.regs.paging
      simp only [Prog.sat_bind]
      refine hrun₁.realm.map_sat (hrun₁.places lo hlt) (fun hx => by simpa using huser hx)
        (fun hk => by rw [hkind] at hk; cases hk) ?_
      intro res L₂ m₂ hpost _
      rw [hp₁] at hpost
      cases res with
      | error err =>
        obtain ⟨_, hrefused, _⟩ := hpost.failed err rfl
        have hno : ¬ ((remaining + 1 ≠ 0 → permissions.executable = true ∨
            m.paging.nxEnabled = true) ∧
            Room L m (pageAt start lo :: runPages start (lo + 1) remaining) (remaining + 1)) := by
          rintro ⟨hexec, hroom⟩
          by_cases hlim : startAddress f < m.paging.physicalAddressLimit
          · have hchecks : MapChecks m₁ (pageAt start lo) f (space.word m permissions .writeBack f) :=
              ⟨by rw [hp₁]; exact (hpage lo hlt).1, (hpage lo hlt).2, by rwa [hp₁], by
                rw [AddressSpace.word, executable_leafWord _ _ _ hlim, hp₁]
                exact hexec (Nat.succ_ne_zero _)⟩
            exact Room.not_refused hchecks hrefused ((Room.taken_iff hinv ht hlim).mp hroom)
          · exact Room.not_of_offers (ht.takes.next.offers_empty hinv.alloc (not_lt.mp hlim)) hroom
        dsimp only [Except.mapError]
        simp only [Prog.sat_bind]
        exact Prog.sat_any _ (fun _ s => Prog.sat_any _ (fun _ _ => iff_of_false nofun hno)
          fun _ _ => trivial) fun _ _ => trivial
      | ok _ =>
        have hp₂ := hpost.edit.regs.paging.trans hp₁
        have hkroot : L₂.kroot = L.kroot := hpost.edit.kroot
        obtain ⟨_, _, hlim, hfresh, hleaf⟩ := hpost.done rfl
        obtain ⟨_, _, hexec⟩ := hpost.room rfl
        rw [hp₁] at hlim hexec
        rw [executable_leafWord _ _ _ hlim] at hexec
        have hedit₂ : Edit (fun ρ => ∀ r', ρ ≠ .table r' []) L.kroot (L.set f (.data .spare)) m₁ L₂ m₂ :=
          hpost.edit.mono fun ρ hlent r' he => not_lent_root (he ▸ hlent)
        have hrun₂ := hrun₁.edit hpost.inv hedit₂ (fun r' hno => hno r' rfl) le_rfl
          (.inr fun e hl => ?leaf)
        case leaf =>
          rw [hleaf, if_neg]
          · exact hl
          · rintro ⟨_, hpath⟩
            exact hfresh e (hpath ▸ hl)
        rw [← hkroot] at hrun₂
        have hrest := ih (by rw [hp₂]; exact hpage) hrun₂ (show lo + 1 + remaining = hi by omega)
        refine hrest.mono (fun res _ hres => hres.trans ?_) fun _ _ h => h
        have hpages : ∀ va ∈ pageAt start lo :: runPages start (lo + 1) remaining,
            m₁.paging.mode.IsPage va := by
          rw [← runPages_succ, hp₁]
          intro va hva
          obtain ⟨i, _, hi, rfl⟩ := mem_runPages.mp hva
          exact hpage i (by omega)
        rw [hp₂, Room.taken_iff hinv ht hlim, Room.mapped_iff ht.inv hpages hpost]
        exact and_congr_left fun _ => iff_of_true (fun _ => hexec) fun _ => hexec

/-- `StackMapping::allocate` makes a stack where its guard page is free and there is room. -/
theorem StackMapping.allocate_room {stackSize top : ℕ} (hkind : space.kind = .kernel)
    (htop : top % FRAME_SIZE = 0) (hfits : stackSize + FRAME_SIZE ≤ top)
    (hpage : ∀ i < stackSize / FRAME_SIZE, m.paging.mode.IsPage (pageAt (top - stackSize) i))
    (hrun : Run mixed L m space L.kroot a (top - stackSize) (stackSize / FRAME_SIZE))
    (huser : ¬ mixed → permissions.userAccessible = false)
    {prog : MM (Except StackCreateError StackMapping)}
    (hprog : StackMapping.allocate space stackSize top permissions = prog) :
    prog.Sat m (fun res _ => (∃ stack, res = .ok stack) ↔
      space.toPhysical m.mem (top - stackSize - FRAME_SIZE) = none ∧
        (stackSize / FRAME_SIZE ≠ 0 → permissions.executable = true ∨ m.paging.nxEnabled = true) ∧
        Room L m (runPages (top - stackSize) 0 (stackSize / FRAME_SIZE)) (stackSize / FRAME_SIZE))
      (fun _ _ => True) := by
  subst hprog
  have hloop := allocatePages_room hkind hpage hrun huser (Nat.zero_add _)
  rw [StackMapping.allocate, if_neg (not_not.mpr htop), checkedSub, if_pos (by omega)]
  dsimp only
  rw [checkedSub, if_pos (by omega)]
  simp only [Prog.sat_bind, Prog.sat_get, Prog.sat_ite]
  refine ⟨fun hsome => ?_, fun hnone => ?_⟩
  · refine iff_of_false nofun fun hroom => ?_
    rw [hroom.1] at hsome
    cases hsome
  · rw [Bool.not_eq_true, Option.isSome_eq_false_iff, Option.isNone_iff_eq_none] at hnone
    refine hloop.mono (fun res m' hres => ?_) fun _ _ h => h
    cases res with
    | error err => exact iff_of_false nofun fun hroom => nomatch hres.mpr hroom.2
    | ok u =>
      have hroom := hres.mp rfl
      simp only [Prog.sat_bind, Prog.sat_get, Prog.sat_assert, Prog.sat_pure]
      split_ifs
      exact iff_of_true ⟨_, rfl⟩ ⟨hnone, hroom⟩

/-- `KernelStackPool::allocate` makes a stack where there is room in the first free slot. -/
theorem KernelStackPool.allocate_room {pool : KernelStackPool} {slot : ℕ}
    (hkind : space.kind = .kernel) (hfind : pool.findSlot 0 MAX_KERNEL_STACKS = some slot)
    (hrun : Run mixed L m space L.kroot a (slotBase slot + FRAME_SIZE) KERNEL_STACK_PAGES) :
    (pool.allocate space).Sat m (fun res _ => (∃ stack, res.2 = .ok stack) ↔
      space.toPhysical m.mem (slotBase slot) = none ∧ m.paging.nxEnabled = true ∧
        Room L m (runPages (slotBase slot + FRAME_SIZE) 0 KERNEL_STACK_PAGES) KERNEL_STACK_PAGES)
      (fun _ _ => True) := by
  obtain ⟨hslot, _⟩ := findSlot_some (by decide) hfind
  have hbounds := (slot_bounds (i := KERNEL_STACK_PAGES) hslot le_rfl).2
  have hadd := slot_add hslot
  have hpages : KERNEL_STACK_SIZE / FRAME_SIZE = KERNEL_STACK_PAGES := by decide
  simp only [KernelStackPool.allocate, hfind, Prog.sat_bind, addUsize, hadd, Prog.sat_expect_some,
    KernelStack.allocate, Prog.sat_pure]
  -- elaboration would run a program that is written out
  generalize hprog : StackMapping.allocate space _ _ _ = prog
  have hplace : Run mixed L m space L.kroot a
      (slotBase slot + FRAME_SIZE + KERNEL_STACK_SIZE - KERNEL_STACK_SIZE)
      (KERNEL_STACK_SIZE / FRAME_SIZE) := by
    rw [slot_top, hpages]
    exact hrun
  have haligned : (slotBase slot + FRAME_SIZE + KERNEL_STACK_SIZE) % FRAME_SIZE = 0 := by
    simp only [KERNEL_STACK_SIZE, KERNEL_STACK_PAGES, FRAME_SIZE] at hbounds ⊢
    omega
  have hroom := StackMapping.allocate_room hkind haligned (by omega) (by
    rw [slot_top, hpages]
    exact fun i hi =>
      have htakes := @slot_takes space m.paging.mode hkind slot i hslot hi
      ⟨htakes.canonical, htakes.aligned⟩) hplace (fun _ => rfl) hprog
  rw [slot_top, hpages, Nat.add_sub_cancel] at hroom
  refine hroom.mono (fun res _ hres => hres.trans ?_) fun _ _ h => h
  simp [KERNEL_STACK_PAGES]

/-- The pages of a range that pass the checks of `map`. -/
structure RangeFits (m : Machine) (permissions : PagePermissions) (phys start lo count : ℕ) :
    Prop where
  page : ∀ i, lo ≤ i → i < lo + count → m.paging.mode.IsPage (pageAt start i)
  limit : ∀ i, lo ≤ i → i < lo + count →
    startAddress (rangeFrame phys i) < m.paging.physicalAddressLimit
  execute : count ≠ 0 → permissions.executable = true ∨ m.paging.nxEnabled = true

theorem RangeFits.iff_of_paging {m₁ : Machine} (hp : m₁.paging = m.paging) {phys count : ℕ} :
    RangeFits m₁ permissions phys start lo count ↔ RangeFits m permissions phys start lo count := by
  constructor
  · rintro ⟨hpage, hlimit, hexec⟩
    exact ⟨by rwa [← hp], by rwa [← hp], by rwa [← hp]⟩
  · rintro ⟨hpage, hlimit, hexec⟩
    exact ⟨by rwa [hp], by rwa [hp], by rwa [hp]⟩

/-- The outcome of mapping some pages: all are mapped and what room is left shows, or there
was no room for them. -/
def RangeOutcome (space : AddressSpace) (L : Layout) (m : Machine) (fits : Prop) (pages : List ℕ)
    (res : Except MapError Unit) (m' : Machine) : Prop :=
  (∀ err, res = .error err → fits → ∀ rest extra, ¬ Room L m (pages ++ rest) extra) ∧
  (res = .ok () → fits ∧ ∃ L', Realm True L' m' space L'.kroot 0 ∧
    Edit (Role.Lent L.kroot) L.kroot L m L' m' ∧
    ∀ rest extra, (∀ va ∈ rest, m.paging.mode.IsPage va) →
      (Room L m (pages ++ rest) extra ↔ Room L' m' rest extra))

theorem RangeOutcome.nil {fits : Prop} (h : Realm True L m space L.kroot 0) (hfits : fits) :
    RangeOutcome space L m fits [] (.ok ()) m :=
  ⟨nofun, fun _ => ⟨hfits, L, h, Edit.refl _ _ _ _, fun _ _ _ => Iff.rfl⟩⟩

/-- One page, then the others. -/
theorem RangeOutcome.cons {fits fits' : Prop} {pages : List ℕ} {frame : ℕ} {e : Word} {m₁ m₂ : Machine}
    {L₁ : Layout} {res : Except MapError Unit} (h : MemInv (steady True) L m)
    (hpost : MapPost True L m L.kroot va frame e (.ok ()) L₁ m₁)
    (hrest : RangeOutcome space L₁ m₁ fits' pages res m₂) (hfits : fits ↔ fits')
    (hpages : fits → ∀ va' ∈ va :: pages, m.paging.mode.IsPage va') :
    RangeOutcome space L m fits (va :: pages) res m₂ := by
  have hp : m₁.paging = m.paging := hpost.edit.regs.paging
  refine ⟨fun err he hf rest extra hroom => ?_, fun he => ?_⟩
  · -- room for more pages is room for these
    have hroom' : Room L m (va :: pages) extra := by
      obtain ⟨hnodup, hunmapped, hframes⟩ := hroom
      refine ⟨(List.nodup_append.mp hnodup).1, fun va' hva' => hunmapped va' (List.mem_append_left _ hva'), ?_⟩
      refine le_trans (Nat.add_le_add_left (Finset.card_le_card ?_) extra) hframes
      refine Finset.biUnion_subset_biUnion_of_subset_left _ fun va' hva' => ?_
      rw [List.toFinset_append]
      exact Finset.mem_union_left _ hva'
    have hnone := hrest.1 err he (hfits.mp hf) [] extra
    rw [List.append_nil] at hnone
    exact hnone ((Room.mapped_iff h (hpages hf) hpost).mp hroom')
  · obtain ⟨hf', L₂, hrealm, hedit, hiff⟩ := hrest.2 he
    have hf := hfits.mpr hf'
    have hkroot : L₁.kroot = L.kroot := hpost.edit.kroot
    rw [hkroot] at hedit
    refine ⟨hf, L₂, hrealm, hpost.edit.trans hedit, fun rest extra hpage => ?_⟩
    have hall : ∀ va' ∈ va :: (pages ++ rest), m.paging.mode.IsPage va' := by
      intro va' hva'
      rw [← List.cons_append, List.mem_append] at hva'
      exact hva'.elim (hpages hf va') (hpage va')
    rw [List.cons_append, Room.mapped_iff h hall hpost]
    exact hiff rest extra (by rw [hp]; exact hpage)

/-- The loop of `map_range`. -/
theorem mapPages_room {phys : ℕ} {cachePolicy : CachePolicy} {remaining : ℕ}
    (hkind : space.kind = .kernel) (h : Realm True L m space L.kroot 0)
    (hphys : phys % FRAME_SIZE = 0) (hstart : start % FRAME_SIZE = 0)
    (hend : ∀ i < lo + remaining, pageAt phys i < USIZE_END ∧ pageAt start i < USIZE_END) :
    (space.mapPages phys start permissions cachePolicy remaining lo).Sat m
      (fun res m' => RangeOutcome space L m (RangeFits m permissions phys start lo remaining)
        (runPages start lo remaining) res m') (fun _ _ => True) := by
  induction remaining generalizing lo L m with
  | zero =>
    exact RangeOutcome.nil h ⟨fun i hi hi' => absurd hi' (by omega),
      fun i hi hi' => absurd hi' (by omega), absurd rfl⟩
  | succ remaining ih =>
    obtain ⟨hpa, hva⟩ := hend lo (by omega)
    have hframe : phys + lo * FRAME_SIZE = startAddress (rangeFrame phys lo) := by
      simp only [startAddress, rangeFrame, FRAME_SIZE] at hphys ⊢
      omega
    have hal : ∀ i, pageAt start i % FRAME_SIZE = 0 := by
      intro i
      simp only [pageAt, FRAME_SIZE] at hstart ⊢
      omega
    rw [runPages_succ]
    simp only [AddressSpace.mapPages, Prog.sat_bind, addUsize, checkedAdd, if_pos hpa, if_pos hva,
      Prog.sat_expect_some]
    rw [hframe]
    refine h.map_sat ⟨absurd trivial, .inl (h.rootFree trivial _)⟩ (absurd trivial)
      (fun hk => by rw [hkind] at hk; cases hk) ?_
    intro res L₁ m₁ hpost _
    cases res with
    | error err =>
      obtain ⟨_, hrefused, _⟩ := hpost.failed err rfl
      dsimp only [Except.mapError]
      simp only [Prog.sat_bind]
      refine Prog.sat_any _ (fun _ _ => ⟨fun _ _ hfits rest extra hroom => ?_, by simp⟩)
        fun _ _ => trivial
      have hlim := hfits.limit lo le_rfl (by omega)
      refine Room.not_refused ⟨(hfits.page lo le_rfl (by omega)).1, hal lo, hlim, ?_⟩ hrefused hroom
      rw [executable_leafWord _ _ _ hlim]
      exact hfits.execute (Nat.succ_ne_zero _)
    | ok _ =>
      have hp₁ : m₁.paging = m.paging := hpost.edit.regs.paging
      have hkroot : L₁.kroot = L.kroot := hpost.edit.kroot
      obtain ⟨hc, _, hlim, _⟩ := hpost.done rfl
      obtain ⟨_, _, hexec⟩ := hpost.room rfl
      rw [executable_leafWord _ _ _ hlim] at hexec
      have hrealm := h.mapped hpost
      rw [← hkroot] at hrealm
      have hrest := @ih L₁ m₁ (lo + 1) hrealm (fun i hi => hend i (by omega))
      refine hrest.mono (fun res m₂ hmapped => hmapped.cons h.inv hpost ?_ ?_) fun _ _ h => h
      · constructor
        · rintro ⟨hpage, hlimit, _⟩
          rw [RangeFits.iff_of_paging hp₁]
          exact ⟨fun i hi hi' => hpage i (by omega) (by omega),
            fun i hi hi' => hlimit i (by omega) (by omega), fun _ => hexec⟩
        · rw [RangeFits.iff_of_paging hp₁]
          rintro ⟨hpage, hlimit, _⟩
          refine ⟨fun i hi hi' => ?_, fun i hi hi' => ?_, fun _ => hexec⟩
          · rcases Nat.eq_or_lt_of_le hi with rfl | hi
            · exact ⟨hc, hal lo⟩
            · exact hpage i hi (by omega)
          · rcases Nat.eq_or_lt_of_le hi with rfl | hi
            · exact hlim
            · exact hlimit i hi (by omega)
      · rintro hfits va' hva'
        rw [← runPages_succ] at hva'
        obtain ⟨i, hi, hi', rfl⟩ := mem_runPages.mp hva'
        exact hfits.page i hi hi'

/-- The ranges that pass the checks of `map_range` and of `map`. -/
def RangeAccepted (m : Machine) (permissions : PagePermissions) (phys start length : ℕ) : Prop :=
  length = 0 ∨ phys % FRAME_SIZE = 0 ∧ start % FRAME_SIZE = 0 ∧ length % FRAME_SIZE = 0 ∧
    phys + (length - FRAME_SIZE) < USIZE_END ∧ start + (length - FRAME_SIZE) < USIZE_END ∧
    RangeFits m permissions phys start 0 (length / FRAME_SIZE)

/-- `AddressSpace::map_range`. -/
theorem mapRange_room {phys length : ℕ} {cachePolicy : CachePolicy} (hkind : space.kind = .kernel)
    (h : Realm True L m space L.kroot 0) :
    (space.mapRange phys start length permissions cachePolicy).Sat m
      (fun res m' => RangeOutcome space L m (RangeAccepted m permissions phys start length)
        (runPages start 0 (length / FRAME_SIZE)) res m') (fun _ _ => True) := by
  have hrefuse : ∀ err, ¬ RangeAccepted m permissions phys start length →
      RangeOutcome space L m (RangeAccepted m permissions phys start length)
        (runPages start 0 (length / FRAME_SIZE)) (.error err) m :=
    fun err hno => ⟨fun _ _ hfits => absurd hfits hno, nofun⟩
  rw [AddressSpace.mapRange]
  simp only [Prog.sat_ite]
  refine ⟨fun hz => ?_, fun hz => ⟨fun hphys => ?_, fun hphys => ⟨fun hal => ?_, fun hal =>
    ⟨fun hlen => ?_, fun hlen => ⟨fun hpe => ?_, fun hpe => ⟨fun hve => ?_, fun hve => ?_⟩⟩⟩⟩⟩⟩
  · subst hz
    exact RangeOutcome.nil h (.inl rfl)
  · exact hrefuse _ fun hacc => hphys (hacc.resolve_left hz).1
  · exact hrefuse _ fun hacc => hal (hacc.resolve_left hz).2.1
  · exact hrefuse _ fun hacc => hlen (hacc.resolve_left hz).2.2.1
  · refine hrefuse _ fun hacc => ?_
    rw [checkedAdd, if_pos (hacc.resolve_left hz).2.2.2.1] at hpe
    cases hpe
  · refine hrefuse _ fun hacc => ?_
    rw [checkedAdd, if_pos (hacc.resolve_left hz).2.2.2.2.1] at hve
    cases hve
  · rw [not_not] at hphys hal hlen
    have hsum : ∀ x, ¬ (checkedAdd x (length - FRAME_SIZE)).isNone = true →
        x + (length - FRAME_SIZE) < USIZE_END := by
      intro x hx
      rw [checkedAdd] at hx
      split_ifs at hx with hlt
      · exact hlt
      · simp at hx
    have hpsum := hsum phys hpe
    have hvsum := hsum start hve
    have hloop := @mapPages_room L m space permissions start 0 phys cachePolicy
      (length / FRAME_SIZE) hkind h hphys hal (fun i hi => by
        simp only [pageAt, FRAME_SIZE] at hi hpsum hvsum hlen ⊢
        omega)
    refine hloop.mono (fun res m' hout => ?_) fun _ _ h => h
    refine ⟨fun err he hacc => hout.1 err he (hacc.resolve_left hz).2.2.2.2.2, fun he => ?_⟩
    obtain ⟨hfits, hrest⟩ := hout.2 he
    exact ⟨.inr ⟨hphys, hal, hlen, hpsum, hvsum, hfits⟩, hrest⟩

end Pages

end Dusk
