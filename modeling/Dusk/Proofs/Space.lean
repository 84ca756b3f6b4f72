import Dusk.Proofs.Unmap

/-! Address spaces: `map` and `unmap` at the pages their callers use, and the
creation and destruction of user roots. -/

namespace Dusk

open Lib Radix

variable {L : Layout} {m : Machine} {r a va : ℕ} {space : AddressSpace}
  {E : Panic → Machine → Prop}

/-- An address space of the machine. -/
structure SpaceOf (L : Layout) (m : Machine) (space : AddressSpace) (r : ℕ) : Prop where
  root : space.root = m.table r
  typed : L.role r = .table r []
  kind : space.kind = if r = L.kroot then .kernel else .user

/-- A page of the half that a root manages. Where the root entries of the kernel are
shared, the page `a` keeps the one of this page in place. -/
structure Site (L : Layout) (m : Machine) (r a va : ℕ) : Prop where
  canonical : m.paging.mode.isCanonical va = true
  aligned : va % FRAME_SIZE = 0
  half : if r = L.kroot then 2 ^ 63 ≤ va else va < USER_SPACE_END
  anchor : RootFree L r [] ∨ (∃ e, LeafAt L m r (pagePath m.paging.mode a) e) ∧
    pagePath m.paging.mode a ≠ pagePath m.paging.mode va ∧
    rootIndex m.paging.mode a = rootIndex m.paging.mode va

/-- A page of a user root needs no anchor. -/
theorem Site.user (hr : r ≠ L.kroot) (hva : va < USER_SPACE_END) (hal : va % FRAME_SIZE = 0) :
    Site L m r a va :=
  ⟨user_canonical _ hva, hal, by rwa [if_neg hr], .inl (.inr (.inl hr))⟩

theorem Site.owned (h : Site L m r a va) :
    r = L.kroot ∨ rootIndex m.paging.mode va < 256 := by
  by_cases hr : r = L.kroot
  · exact .inl hr
  · have hhalf := h.half
    rw [if_neg hr] at hhalf
    exact .inr (rootIndex_user _ hhalf)

theorem Site.lower (h : Site L m r a va) (hi : rootIndex m.paging.mode va < 256) :
    r ≠ L.kroot := by
  intro hr
  have hhalf := h.half
  rw [if_pos hr] at hhalf
  have := rootIndex_upper h.canonical hhalf
  omega

theorem leaf_path {q : List ℕ} {e : Word} (hl : LeafAt L m r q e) :
    ∃ j p, q = j :: p ∧ p ≠ [] := by
  cases q with
  | nil => exact hl.elim
  | cons j p =>
    refine ⟨j, p, rfl, ?_⟩
    rintro rfl
    have := hl.2.1
    have := levels_pos m.paging.mode
    simp only [pteShape, List.length_nil] at *
    omega

/-- Below the root entry of a leaf there is a table. -/
theorem table_of_leaf (ht : Tree L m) {q : List ℕ} {e : Word} {i : ℕ} (hl : LeafAt L m r q e)
    (hq : q.getLast? = some i) : ∃ g, L.role g = .table r [i] := by
  obtain ⟨j, p, rfl, hne⟩ := leaf_path hl
  rw [List.getLast?_cons_of_ne_nil hne] at hq
  have hlast : p = p.dropLast ++ [i] := (List.dropLast_append_getLast? i hq).symm
  obtain ⟨_, _, _, t, htt, _⟩ := hl
  rw [hlast] at htt
  obtain ⟨g, hg⟩ := ht.ancestor htt
  exact ⟨g, Layout.typing_some.mp hg⟩

/-- No page of the kernel's own root is for user mode. -/
theorem MemInv.kernel_leaf (h : MemInv noPages L m) {q : List ℕ} {e : Word}
    (hl : LeafAt L m L.kroot q e) : PageTableEntry.isUserAccessible e = false := by
  by_contra hu
  rw [Bool.not_eq_false] at hu
  obtain ⟨j, p, rfl, hne⟩ := leaf_path hl
  have hlast : p = p.dropLast ++ [p.getLast hne] := (List.dropLast_append_getLast hne).symm
  have hs : [p.getLast hne] <:+ p := ⟨p.dropLast, hlast.symm⟩
  obtain ⟨f, g, hf, hg⟩ := leaf_ancestor h.tree hl hs
  have huser := h.closed L.kroot j p e hl hu _ [] f hs hf
  obtain ⟨hi, _, _⟩ := h.tree.up g _ _ _ (Layout.typing_some.mpr hg)
  have hlive := h.tree.child_live (Layout.typing_some.mpr hf) (Layout.typing_some.mpr hg)
  have hflag := (h.halves id).flags f L.kroot [] _ hf (levels_pos m.paging.mode) hi
    (fun _ => .inl rfl) hlive
  rw [huser] at hflag
  simp at hflag

theorem Site.safe (h : Site L m r a va) (ht : Tree L m) :
    RootSafe L r (rootIndex m.paging.mode va) := by
  rcases h.anchor with hfree | ⟨⟨e, hl⟩, _, hroot⟩
  · exact .inl hfree
  · rw [← hroot]
    exact .inr (table_of_leaf ht hl (pagePath_getLast _ _))

/-- A site survives what leaves its anchor in place. -/
theorem Site.congr {L' : Layout} {m' : Machine} (h : Site L m r a va) (hk : L'.kroot = L.kroot)
    (hp : m'.paging = m.paging)
    (hroots : ∀ r', L'.role r' = .table r' [] → L.role r' = .table r' [])
    (hl : ∀ e, LeafAt L m r (pagePath m.paging.mode a) e →
      LeafAt L' m' r (pagePath m.paging.mode a) e) : Site L' m' r a va := by
  refine ⟨by rw [hp, h.canonical], h.aligned, by rw [hk]; exact h.half, ?_⟩
  rw [hp]
  rcases h.anchor with hfree | ⟨⟨e, he⟩, hne, hroot⟩
  · left
    rcases hfree with hf | hf | hf
    · exact .inl hf
    · exact .inr (.inl (by rwa [hk]))
    · refine .inr (.inr ?_)
      intro r' hr'
      rw [hk]
      exact hf r' (hroots r' hr')
  · exact .inr ⟨⟨e, hl e he⟩, hne, hroot⟩

theorem SpaceOf.tableOf (h : SpaceOf L m space r) : TableOf m space.root := by
  rw [h.root]
  exact table_of m r

theorem SpaceOf.frame (h : SpaceOf L m space r) : space.root.frame = r := by
  rw [h.root]
  rfl

/-- An address space outlives what leaves its root in place. -/
theorem SpaceOf.congr {L' : Layout} {m' : Machine} (h : SpaceOf L m space r)
    (hk : L'.kroot = L.kroot) (hregs : Regs m m') (hrole : L'.role r = L.role r) :
    SpaceOf L' m' space r :=
  ⟨by rw [h.root, hregs.table], by rw [hrole, h.typed], by rw [hk]; exact h.kind⟩

theorem SpaceOf.edit {P : Role → Prop} {r₀ : ℕ} {L' : Layout} {m' : Machine}
    (h : SpaceOf L m space r) (he : Edit P r₀ L m L' m') (hP : ¬ P (.table r [])) :
    SpaceOf L' m' space r :=
  h.congr he.kroot he.regs (he.role_eq (by rwa [h.typed]))

/-- `AddressSpace::map` at a page of its half. -/
theorem AddressSpace.map_sat {Q : Except MapError Unit → Machine → Prop}
    (hs : SpaceOf L m space r) (h : MemInv noPages L m) (hsite : Site L m r a va)
    {frame : ℕ} {permissions : PagePermissions} {cachePolicy : CachePolicy}
    (huser : permissions.userAccessible = decide (r ≠ L.kroot))
    (hQ : ∀ res L' m', MapPost False L m r va frame (leafWord frame permissions cachePolicy
      (decide (r = L.kroot) && m.paging.globalPages)) res L' m' →
      Q (res.mapError MapError.ofPageTable) m') :
    (space.map (startAddress frame) va permissions cachePolicy).Sat m Q E := by
  have hglobal : decide (space.kind = .kernel) = decide (r = L.kroot) := by
    rw [hs.kind]
    by_cases hr : r = L.kroot <;> simp [hr]
  have hva : ¬ (space.kind = .user ∧ va ≥ USER_SPACE_END) := by
    rintro ⟨hkind, hge⟩
    rw [hs.kind] at hkind
    split_ifs at hkind with hr
    have hhalf := hsite.half
    rw [if_neg hr] at hhalf
    omega
  have hperm : ¬ (space.kind = .user ∧ permissions.userAccessible = false) := by
    rintro ⟨hkind, hacc⟩
    rw [hs.kind] at hkind
    split_ifs at hkind with hr
    rw [huser] at hacc
    simp [hr] at hacc
  rw [AddressSpace.map]
  simp only [hva, hperm, if_false, fromStartAddress_startAddress, Prog.sat_bind, hglobal]
  refine Dusk.map_sat hs.tableOf hs.frame h hs.typed (fun _ => ⟨hsite.owned, ?_,
    hsite.safe h.tree, fun _ => huser, False.elim⟩) ?_
  · intro _ hi
    have hne := hsite.lower hi
    exact ⟨hne, by simp [hne]⟩
  · intro res L' m' hpost
    have := hQ res L' m' hpost
    cases res <;> exact this

/-- `AddressSpace::unmap` of a mapped page of its half. -/
theorem AddressSpace.unmap_sat {Q : Except UnmapError ℕ → Machine → Prop}
    (hs : SpaceOf L m space r) (h : MemInv noPages L m) (hsite : Site L m r a va) {e : Word}
    (hleaf : LeafAt L m r (pagePath m.paging.mode va) e)
    (hQ : ∀ L' m', UnmapPost False L m r va L' m' → Q (.ok (entryFrame m.paging e)) m') :
    (space.unmap va).Sat m Q E := by
  have hva : ¬ (space.kind = .user ∧ va ≥ 0x0000_8000_0000_0000) := by
    rintro ⟨hkind, hge⟩
    rw [hs.kind] at hkind
    split_ifs at hkind with hr
    have hhalf := hsite.half
    rw [if_neg hr] at hhalf
    simp only [USER_SPACE_END] at hhalf
    omega
  rw [AddressSpace.unmap, if_neg hva, Prog.sat_bind]
  refine Dusk.unmap_sat hs.tableOf hs.frame h ⟨hsite.canonical, hsite.aligned⟩ hsite.owned
    hleaf ?_ ?_
  · rcases hsite.anchor with hfree | ⟨⟨e', hl⟩, hne, hroot⟩
    · exact .inl hfree
    · exact .inr ⟨_, e', hl, hne, by rw [pagePath_getLast, hroot]⟩
  · intro L' m' hpost
    exact hQ L' m' hpost

section Reading

variable {X : Exempt}

/-- Where an address of the half that a root manages is translated to. -/
theorem MemInv.toPhysical_eq (h : MemInv X L m) (hr : L.role r = .table r [])
    (hc : m.paging.mode.isCanonical va = true)
    (ho : r = L.kroot ∨ rootIndex m.paging.mode va < 256) :
    (m.table r).toPhysical m.mem va = (m.leaf r va).map fun e =>
      startAddress (entryFrame m.paging e) + pageOffset va := by
  rw [Dusk.toPhysical_eq h.alloc h.tree hr hc ho]
  cases m.leaf r va with
  | none => rfl
  | some e => exact checkedAdd_entry m.paging e va

theorem MemInv.leaf_iff (h : MemInv X L m) (hr : L.role r = .table r [])
    (ho : r = L.kroot ∨ rootIndex m.paging.mode va < 256) (e : Word) :
    m.leaf r va = some e ↔ LeafAt L m r (pagePath m.paging.mode va) e :=
  walkLeaf_iff h.tree hr ho e

theorem MemInv.toPhysical_none (h : MemInv X L m) (hr : L.role r = .table r [])
    (hc : m.paging.mode.isCanonical va = true)
    (ho : r = L.kroot ∨ rootIndex m.paging.mode va < 256) :
    (m.table r).toPhysical m.mem va = none ↔
      ∀ e, ¬ LeafAt L m r (pagePath m.paging.mode va) e := by
  rw [h.toPhysical_eq hr hc ho]
  cases hl : m.leaf r va with
  | none =>
    refine iff_of_true rfl ?_
    intro e he
    rw [← h.leaf_iff hr ho, hl] at he
    cases he
  | some e =>
    refine iff_of_false (by simp) ?_
    intro hnone
    exact hnone e ((h.leaf_iff hr ho e).mp hl)

/-- Two machines with the same tables and the same configuration. -/
structure SameTables (m m' : Machine) : Prop where
  paging : m'.paging = m.paging
  directMap : m'.allocator.directMap = m.allocator.directMap

theorem SameTables.table {m m' : Machine} (h : SameTables m m') (r : ℕ) :
    m'.table r = m.table r := by
  rw [Machine.table, Machine.table, h.paging, h.directMap]

theorem Regs.sameTables {m m' : Machine} (h : Regs m m') : SameTables m m' :=
  ⟨h.paging, h.directMap⟩

/-- Two machines read an address alike when they have the same leaf for it. -/
theorem reads_congr {X' : Exempt} {L' : Layout} {m' : Machine} {a : ℕ} (h : MemInv X L m)
    (h' : MemInv X' L' m')
    (ht : SameTables m m') (hk : L'.kroot = L.kroot) (hr : L.role r = .table r [])
    (hr' : L'.role r = .table r [])
    (ho : m.paging.mode.isCanonical a = true → r = L.kroot ∨ rootIndex m.paging.mode a < 256)
    (hl : ∀ e, LeafAt L' m' r (pagePath m.paging.mode a) e ↔
      LeafAt L m r (pagePath m.paging.mode a) e) :
    (m'.table r).toPhysical m'.mem a = (m.table r).toPhysical m.mem a ∧
    (m'.table r).mapping m'.mem a = (m.table r).mapping m.mem a := by
  by_cases hc : m.paging.mode.isCanonical a = true
  · have hc' : m'.paging.mode.isCanonical a = true := by rw [ht.paging, hc]
    have ho' : r = L'.kroot ∨ rootIndex m'.paging.mode a < 256 := by
      rw [hk, ht.paging]
      exact ho hc
    have hleaf : m'.leaf r a = m.leaf r a := by
      apply Option.ext
      intro e
      rw [h'.leaf_iff hr' ho', h.leaf_iff hr (ho hc), ht.paging]
      exact hl e
    rw [h'.toPhysical_eq hr' hc' ho', h.toPhysical_eq hr hc (ho hc),
      mapping_eq h'.alloc h'.tree h'.closed hr' hc' ho',
      mapping_eq h.alloc h.tree h.closed hr hc (ho hc), hleaf, ht.paging]
    exact ⟨rfl, rfl⟩
  · have hcan : ∀ x : Machine, x.paging = m.paging → (x.table r).isCanonical a = false := by
      intro x hx
      have : (x.table r).isCanonical a = x.paging.mode.isCanonical a := rfl
      rw [this, hx]
      simpa using hc
    simp [PageTable.toPhysical, PageTable.mapping, hcan m rfl, hcan m' ht.paging]

/-- The address has the same translation and the same effective permissions. -/
def PageTable.SameAt (pt : PageTable) (mem mem' : PhysMem) (a : ℕ) : Prop :=
  pt.toPhysical mem' a = pt.toPhysical mem a ∧ pt.mapping mem' a = pt.mapping mem a

/-- The one page table of a layout reads an address alike where the leaf of its page is
the same. -/
theorem MemInv.sameAt {X' : Exempt} {L' : Layout} {m' : Machine} {a : ℕ} {pt : PageTable}
    (h : MemInv X L m) (h' : MemInv X' L' m') (ht : SameTables m m') (hk : L'.kroot = L.kroot)
    (hpt : pt = m.table L.kroot)
    (hl : m.paging.mode.isCanonical a = true → ∀ e,
      LeafAt L' m' L.kroot (pagePath m.paging.mode a) e ↔
        LeafAt L m L.kroot (pagePath m.paging.mode a) e) : pt.SameAt m.mem m'.mem a := by
  have hkroot : L'.role L.kroot = .table L.kroot [] := by
    rw [← hk]
    exact h'.kroot
  by_cases hc : m.paging.mode.isCanonical a = true
  · have hreads := reads_congr h h' ht hk h.kroot hkroot (fun _ => .inl rfl) (hl hc)
    rwa [ht.table, ← hpt] at hreads
  · have hno : pt.isCanonical a = false := by
      rw [hpt]
      exact Bool.not_eq_true _ ▸ hc
    simp [PageTable.SameAt, PageTable.toPhysical, PageTable.mapping, hno]

/-- A leaf is read back at every address of its page. -/
theorem MemInv.reads_page {frame d : ℕ} {permissions : PagePermissions}
    {cachePolicy : CachePolicy} {isGlobal : Bool} {pt : PageTable} (h : MemInv X L m)
    (hpt : pt = m.table L.kroot) (hc : m.paging.mode.isCanonical va = true)
    (hal : va % FRAME_SIZE = 0) (hlimit : startAddress frame < m.paging.physicalAddressLimit)
    (hl : LeafAt L m L.kroot (pagePath m.paging.mode va)
      (leafWord frame permissions cachePolicy isGlobal)) (hd : d < FRAME_SIZE) :
    pt.toPhysical m.mem (va + d) = some (startAddress frame + d) ∧
      pt.mapping m.mem (va + d) = some permissions := by
  have hcanonical := canonical_add hc hal hd
  rw [← pagePath_add _ hal hd, ← h.leaf_iff h.kroot (.inl rfl)] at hl
  have hoffset : pageOffset (va + d) = d := by
    rw [pageOffset_eq]
    simp only [FRAME_SIZE] at hd hal
    omega
  rw [hpt, h.toPhysical_eq h.kroot hcanonical (.inl rfl),
    mapping_eq h.alloc h.tree h.closed h.kroot hcanonical (.inl rfl), hl, Option.map_some,
    Option.map_some, leafWord_permissions _ _ _ hlimit, leafWord_entryFrame _ _ _ hlimit, hoffset]
  exact ⟨rfl, rfl⟩

end Reading

section Roots

variable {X : Exempt} {f : ℕ}

/-- The leaves do not depend on the roots as such. -/
theorem leafAt_root {ρ : Role} (m' : Machine) (hf : L.typing f = none ∨ L.typing f = some (f, []))
    (hρ : ρ.typing = none ∨ ρ.typing = some (f, [])) (hp : m'.paging = m.paging)
    (hwords : ∀ g r p, g ≠ f → L.role g = .table r p → m'.mem.word g = m.mem.word g) (r : ℕ)
    (q : List ℕ) (e : Word) : LeafAt (L.set f ρ) m' r q e ↔ LeafAt L m r q e := by
  have hpos : 0 < (pteShape m.paging.mode L.kroot).height := levels_pos _
  rw [LeafAt, LeafAt, hp, Layout.set_kroot, Layout.typing_set]
  refine (Leaf.update_root hpos hf hρ).trans ?_
  apply Leaf.congr
  intro g r' p' i hg hlen _
  rw [hwords g r' p' ?_ (Layout.typing_some.mp hg)]
  rintro rfl
  rcases hf with hf | hf
  · rw [hf] at hg
    cases hg
  · rw [hf] at hg
    cases hg
    simp only [List.length_nil] at hlen
    omega

/-- A spare frame becomes a user root: its lower half is empty and its upper half is
the kernel's. -/
theorem MemInv.addRoot (h : MemInv X L m) (hx : ¬ X.mixed) (hf : L.role f = .data .spare)
    (ws : ℕ → Word) (hlow : ∀ i < 256, ws i = PageTableEntry.null)
    (hup : ∀ i, 256 ≤ i → i < 512 → ws i = m.mem.word L.kroot i) :
    MemInv X (L.set f (.table f [])) (m.withMem (m.mem.setFrame f ws)) ∧
    ∀ r q e, LeafAt (L.set f (.table f [])) (m.withMem (m.mem.setFrame f ws)) r q e ↔
      LeafAt L m r q e := by
  have hword : ∀ g, g ≠ f → (m.mem.setFrame f ws).word g = m.mem.word g := by
    intro g hg
    rw [PhysMem.word_setFrame, if_neg hg]
  have hself : (m.mem.setFrame f ws).word f = ws := by
    rw [PhysMem.word_setFrame, if_pos rfl]
  have hnone : L.typing f = none := by simp [Layout.typing, hf, Role.typing]
  have hleaf := leafAt_root (m := m) (m.withMem (m.mem.setFrame f ws)) (ρ := .table f [])
    (.inl hnone) (.inr rfl) rfl (fun g _ _ hg _ => hword g hg)
  have hkf : L.kroot ≠ f := by
    intro he
    have hk := h.kroot
    rw [he, hf] at hk
    cases hk
  have hold : ∀ {g r' q}, (L.set f (.table f [])).role g = .table r' q → g = f ∧ q = [] ∧ r' = f ∨
      g ≠ f ∧ L.role g = .table r' q := by
    intro g r' q hg
    by_cases hgf : g = f
    · rw [hgf, Layout.set_role_self] at hg
      cases hg
      exact .inl ⟨hgf, rfl, rfl⟩
    · rw [Layout.set_role_of_ne L hgf] at hg
      exact .inr ⟨hgf, hg⟩
  have htree : Tree (L.set f (.table f [])) (m.withMem (m.mem.setFrame f ws)) := by
    have htree : Forest (pteCodec m.paging) (pteShape m.paging.mode L.kroot)
        (m.mem.setFrame f ws).word L.typing := by
      refine h.tree.congr ?_
      intro g r' p' i hg _ _
      rw [hword]
      rintro rfl
      rw [hnone] at hg
      cases hg
    rw [Tree, Layout.typing_set]
    refine htree.addRoot hnone (h.addr_lt hx (by simp [hf, Role.state])) ?_
    intro i _ ho
    have hi : i < 256 := by
      rcases ho with he | hi
      · exact absurd he.symm hkf
      · exact hi
    simp [pteCodec, hself, hlow i hi, null_isPresent]
  refine ⟨⟨⟨?_, htree, ?_, ?_, ?_, ?_, ?_⟩, h.bound, ?_⟩, hleaf⟩
  · refine (h.alloc.retag (f := f) (ρ := .table f []) (by simp [hf])
      (by simp [hf, Role.state])).congr rfl ?_
    intro g hg
    apply hword
    rintro rfl
    rw [Layout.set_role_self] at hg
    cases hg
  · rw [Layout.set_kroot, Layout.set_role_of_ne L hkf]
    exact h.kroot
  · intro r' hr' i hi hi'
    rw [Layout.set_kroot]
    show (m.mem.setFrame f ws).word r' i = (m.mem.setFrame f ws).word L.kroot i
    rw [hword L.kroot hkf]
    by_cases hrf : r' = f
    · rw [hrf, hself]
      exact hup i hi hi'
    · rw [hword r' hrf]
      rw [Layout.set_role_of_ne L hrf] at hr'
      exact h.shared r' hr' i hi hi'
  · intro g r' q i hg hi hd
    replace hd : PageTableEntry.isPresent ((m.mem.setFrame f ws).word g i) = false := hd
    show (m.mem.setFrame f ws).word g i = PageTableEntry.null
    rcases hold hg with ⟨rfl, _, _⟩ | ⟨hgf, hg⟩
    · rw [hself] at hd ⊢
      by_cases hi' : i < 256
      · exact hlow i hi'
      · rw [hup i (by omega) hi] at hd ⊢
        exact h.zero _ _ _ i h.kroot hi hd
    · rw [hword g hgf] at hd ⊢
      exact h.zero g r' q i hg hi hd
  · intro g r' q hg hq hne
    rcases hold hg with ⟨_, hnil, _⟩ | ⟨hgf, hg⟩
    · exact absurd hnil hq
    · obtain ⟨i, hi, hpres⟩ := h.full g r' q hg hq hne
      exact ⟨i, hi, by rwa [Machine.withMem, hword g hgf]⟩
  · intro r' i q e hl hu
    have hl₀ := (hleaf r' (i :: q) e).mp hl
    refine (h.closed r' i q e hl₀ hu).keep h.tree htree hl₀ ?_
    intro g c i' q' _ hg _
    have hgf : g ≠ f := by
      rintro rfl
      rw [hf] at hg
      cases hg
    exact ⟨by rw [Layout.set_role_of_ne L hgf, hg], fun hug => by rwa [Machine.withMem, hword g hgf]⟩
  · intro hx
    obtain ⟨hlower, hflags, hactive, htlb⟩ := h.halves hx
    refine ⟨?_, ?_, ?_, ?_⟩
    · intro r' q e i hl
      exact hlower r' q e i ((hleaf r' q e).mp hl)
    · intro g r' q i hg hq hi ho hpres
      replace hpres : PageTableEntry.isPresent ((m.mem.setFrame f ws).word g i) = true := hpres
      show PageTableEntry.isUserAccessible ((m.mem.setFrame f ws).word g i) = decide (r' ≠ L.kroot)
      rcases hold hg with ⟨rfl, rfl, rfl⟩ | ⟨hgf, hg⟩
      · have hi' : i < 256 := (ho rfl).resolve_left (fun he => hkf he.symm)
        rw [hself, hlow i hi', null_isPresent] at hpres
        cases hpres
      · rw [hword g hgf] at hpres ⊢
        exact hflags g r' q i hg hq hi ho hpres
    · rcases hactive with hcr | hfills
      · left
        have hne : m.cr3 ≠ f := by
          intro he
          rw [he, hf] at hcr
          cases hcr
        show (L.set f (.table f [])).role m.cr3 = .table m.cr3 []
        rw [Layout.set_role_of_ne L hne]
        exact hcr
      · exact .inr hfills
    · intro t ht hpage hX
      obtain ⟨hal, hg, e, he, hfr⟩ := htlb t ht hpage hX
      exact ⟨hal, hg, e, (hleaf _ _ e).mpr he, hfr⟩

/-- A user root without tables of its own stops being one. -/
theorem MemInv.dropRoot (h : MemInv X L m) (hf : L.role f = .table f []) (hk : f ≠ L.kroot)
    (hcr : m.cr3 ≠ f)
    (hlow : ∀ i < 256, PageTableEntry.isPresent (m.mem.word f i) = false) :
    MemInv X (L.set f (.data .spare)) m ∧
    ∀ r q e, LeafAt (L.set f (.data .spare)) m r q e ↔ LeafAt L m r q e := by
  have hsome := Layout.typing_some.mpr hf
  have hleaf := leafAt_root (m := m) m (ρ := .data .spare) (.inr hsome) (.inl rfl) rfl
    (fun g _ _ _ _ => rfl)
  have hdead : ∀ i < (pteShape m.paging.mode L.kroot).width,
      (pteShape m.paging.mode L.kroot).own f i → ¬ (pteCodec m.paging).live (m.mem.word f i) := by
    intro i _ ho
    have hi : i < 256 := by
      rcases ho with he | hi
      · exact absurd he hk
      · exact hi
    simp [pteCodec, hlow i hi]
  have htree : Tree (L.set f (.data .spare)) m := by
    rw [Tree, Layout.typing_set]
    exact Forest.dropRoot h.tree hsome hdead
  have hold : ∀ {g r' q}, (L.set f (.data .spare)).role g = .table r' q → L.role g = .table r' q := by
    intro g r' q hg
    by_cases hgf : g = f
    · rw [hgf, Layout.set_role_self] at hg
      cases hg
    · rwa [Layout.set_role_of_ne L hgf] at hg
  refine ⟨⟨⟨?_, htree, ?_, ?_, ?_, ?_, ?_⟩, h.bound, ?_⟩, hleaf⟩
  · exact h.alloc.retag (by simp [hf]) (by simp [hf, Role.state])
  · rw [Layout.set_kroot, Layout.set_role_of_ne L hk.symm]
    exact h.kroot
  · intro r' hr' i hi hi'
    exact h.shared r' (hold hr') i hi hi'
  · intro g r' q i hg
    exact h.zero g r' q i (hold hg)
  · intro g r' q hg
    exact h.full g r' q (hold hg)
  · intro r' i q e hl hu
    have hl₀ := (hleaf r' (i :: q) e).mp hl
    refine (h.closed r' i q e hl₀ hu).keep h.tree htree hl₀ ?_
    intro g c i' q' _ hg hc
    refine ⟨?_, id⟩
    rw [Layout.set_role_of_ne, hg]
    rintro rfl
    rw [hf] at hg
    cases hg
    obtain ⟨hi', ho, _⟩ := h.tree.up c _ _ _ (Layout.typing_some.mpr hc)
    exact hdead i' hi' (ho rfl) (h.tree.child_live hsome (Layout.typing_some.mpr hc))
  · intro hx
    obtain ⟨hlower, hflags, hactive, htlb⟩ := h.halves hx
    refine ⟨?_, fun g r' q i hg => hflags g r' q i (hold hg), ?_, ?_⟩
    · intro r' q e i hl
      exact hlower r' q e i ((hleaf r' q e).mp hl)
    · rw [Layout.set_role_of_ne L hcr]
      exact hactive
    · intro t ht hpage hX
      obtain ⟨hal, hg, e, he, hfr⟩ := htlb t ht hpage hX
      exact ⟨hal, hg, e, (hleaf _ _ e).mpr he, hfr⟩

/-- The result of `new_user`: a root that was a free frame. -/
structure NewRoot (L : Layout) (m : Machine) (f : ℕ) (m' : Machine) : Prop where
  free : L.role f = .free
  inv : MemInv noPages (L.set f (.table f [])) m'
  regs : Regs m m'
  words : ∀ g, L.role g ≠ .storage → g ≠ f → m'.mem.word g = m.mem.word g
  low : ∀ i < 256, PageTableEntry.isPresent (m'.mem.word f i) = false
  leaf : ∀ r q e, LeafAt (L.set f (.table f [])) m' r q e ↔ LeafAt L m r q e

theorem newUser_sat {Q : Except PageTableCreateError AddressSpace → Machine → Prop}
    (hs : SpaceOf L m space r) (h : MemInv noPages L m) (hnone : Q (.error .outOfFrames) m)
    (hQ : ∀ f m', NewRoot L m f m' → Q (.ok ⟨m'.table f, .user⟩) m') :
    space.newUser.Sat m Q E := by
  rw [AddressSpace.newUser, hs.root, PageTable.new]
  simp only [Prog.sat_bind]
  refine h.alloc_sat (fun _ => hnone) ?_
  intro f m₁ hf hzero
  have hspare : (L.set f (.data .spare)).role f = .data .spare := Layout.set_role_self L f _
  have hregs := hf.only.regs
  have hlim : ¬ startAddress f ≥ (m.table r).config.physicalAddressLimit := by
    have := hf.inv.addr_lt id (f := f) (by simp [Role.state])
    rw [hregs.paging] at this
    exact not_le.mpr this
  have hrf : r ≠ f := by
    rintro rfl
    have := hf.free
    rw [hs.typed] at this
    cases this
  obtain ⟨v, hv⟩ := (table_of m₁ r).translate hf.inv.alloc (f := r)
    (by rw [Layout.set_role_of_ne L hrf, hs.typed]; simp [Role.state])
  obtain ⟨w, hw⟩ := (table_of m₁ r).translate hf.inv.alloc (f := f)
    (by rw [hspare]; simp [Role.state])
  have hdm : (m₁.table r).directMap = (m.table r).directMap := hregs.directMap
  rw [hdm] at hv hw
  simp only [hlim, if_false, Prog.sat_pure, PageTable.copyKernelMappingsTo, Prog.sat_bind]
  rw [show (m.table r).frame = r from rfl, hv, hw]
  simp only [Prog.sat_expect_some, modifyMem, Prog.sat_modify, sat_tick]
  obtain ⟨hinv, hleaf⟩ := hf.inv.addRoot id hspare
    (fun i => if 256 ≤ i ∧ i < 512 then m₁.mem.word r i else m₁.mem.word f i)
    (by
      intro i hi
      rw [if_neg (by omega), hzero]
      rfl)
    (by
      intro i hi hi'
      rw [if_pos ⟨hi, hi'⟩]
      exact hf.inv.shared r (by rw [Layout.set_role_of_ne L hrf, hs.typed]) i hi hi')
  rw [Layout.set_set] at hinv hleaf
  have hregs' : Regs m (m₁.withMem (m₁.mem.setFrame f fun i =>
      if 256 ≤ i ∧ i < 512 then m₁.mem.word r i else m₁.mem.word f i)).ticked :=
    hregs.trans ((withMem_regs _ _).trans (ticked_regs _))
  have hpost := hQ f _ ⟨hf.free, hinv.tick, hregs', ?_, ?_,
    fun r' q e => (hleaf r' q e).trans (hf.leaf r' q e)⟩
  · rw [hregs'.table] at hpost
    exact hpost
  · intro g hg hgf
    show (m₁.mem.setFrame f _).word g = m.mem.word g
    rw [PhysMem.word_setFrame, if_neg hgf]
    exact hf.words g hg hgf
  · intro i hi
    show PageTableEntry.isPresent ((m₁.mem.setFrame f _).word f i) = false
    rw [PhysMem.word_setFrame, if_pos rfl, if_neg (by omega), hzero]
    exact null_isPresent

theorem destroyEntries_empty {Q : Unit → Machine → Prop} {pt : PageTable} (hpt : TableOf m pt)
    (ha : AllocInv L m) (hf : (L.role f).state ≠ .reserved) (destroyChild : ℕ → MM Unit)
    (idx count : ℕ) (hlow : ∀ i, idx ≤ i → i < idx + count →
      PageTableEntry.isPresent (m.mem.word f i) = false) (hQ : Q () m) :
    (pt.destroyEntries destroyChild f idx count).Sat m Q E := by
  induction count generalizing idx with
  | zero => exact hQ
  | succ count ih =>
    obtain ⟨v, hv⟩ := hpt.translate ha hf
    simp only [PageTable.destroyEntries, hv, Prog.sat_bind, Prog.sat_expect_some, Prog.sat_get,
      hlow idx le_rfl (by omega), Bool.not_false, Bool.true_or, if_true]
    exact ih (idx + 1) (fun i hi hi' => hlow i (by omega) (by omega))

/-- `destroy` of a user address space in which nothing is mapped. -/
theorem destroyUser_sat {Q : Unit → Machine → Prop} (hs : SpaceOf L m space r)
    (h : MemInv noPages L m) (hk : r ≠ L.kroot) (hcr : m.cr3 ≠ r)
    (hlow : ∀ i < 256, PageTableEntry.isPresent (m.mem.word r i) = false)
    (hQ : ∀ m', MemInv noPages (L.set r .free) m' → Regs m m' →
      (∀ g, L.role g ≠ .storage → m'.mem.word g = m.mem.word g) →
      (∀ r' q e, LeafAt (L.set r .free) m' r' q e ↔ LeafAt L m r' q e) → Q () m') :
    space.destroy.Sat m Q E := by
  have hkind : space.kind = .user := by rw [hs.kind, if_neg hk]
  have hinactive : space.root.isActive m = false := by
    rw [PageTable.isActive, hs.frame]
    simpa using hcr
  rw [AddressSpace.destroy, hkind]
  simp only [PageTable.destroyUser, Prog.sat_bind, Prog.sat_get, Prog.sat_assert, hinactive,
    Bool.not_false, if_true, hs.frame]
  refine destroyEntries_empty hs.tableOf h.alloc (by simp [hs.typed, Role.state]) _ 0 256
    (fun i _ hi => hlow i (by omega)) ?_
  obtain ⟨hinv, hleaf⟩ := h.dropRoot hs.typed hk hcr hlow
  refine hinv.dealloc_sat (Layout.set_role_self L r _) ?_
  intro m' hg
  have hinv' := hg.inv
  have hleaf' := hg.leaf
  rw [Layout.set_set] at hinv' hleaf'
  refine hQ m' hinv' hg.only.regs ?_ (fun r' q e => (hleaf' r' q e).trans (hleaf r' q e))
  intro g hgs
  refine hg.words g ?_
  by_cases hgr : g = r
  · rw [hgr, Layout.set_role_self]
    simp
  · rwa [Layout.set_role_of_ne L hgr]

/-- A load of CR3 with a root. -/
theorem MemInv.activate (h : MemInv noPages L m) (hr : L.role r = .table r []) :
    MemInv noPages L
      ({ m with cr3 := r, tlb := m.tlb.filter TlbEntry.isGlobal } : Machine).ticked := by
  have hloaded : MemInv noPages L { m with cr3 := r, tlb := m.tlb.filter TlbEntry.isGlobal } := by
    refine h.registers rfl rfl rfl (fun _ => .inl hr) ?_
    intro _ t ht hpage _
    obtain ⟨htm, hg⟩ := List.mem_filter.mp ht
    obtain ⟨_, hng, _⟩ := h.tlb htm hpage
    rw [hng] at hg
    cases hg
  exact hloaded.tick

end Roots

/-- The layout with one more table, its root. -/
def Layout.rooted (L : Layout) (f : ℕ) : Layout := { L.set f (.table f []) with kroot := f }

section First

variable {f : ℕ} (hf : L.role f = .data .spare) (hnone : ∀ g r p, L.role g ≠ .table r p)

theorem rooted_role_self (L : Layout) (f : ℕ) : (L.rooted f).role f = .table f [] :=
  Layout.set_role_self L f _

theorem rooted_role_of_ne (L : Layout) {f g : ℕ} (h : g ≠ f) : (L.rooted f).role g = L.role g :=
  Layout.set_role_of_ne L h _

include hnone in
theorem rooted_role {g r : ℕ} {p : List ℕ} (hg : (L.rooted f).role g = .table r p) :
    g = f ∧ r = f ∧ p = [] := by
  by_cases hgf : g = f
  · rw [hgf, rooted_role_self] at hg
    cases hg
    exact ⟨hgf, rfl, rfl⟩
  · exact absurd ((Layout.set_role_of_ne L hgf _).symm.trans hg) (hnone g r p)

include hnone in
theorem rooted_leaf {q : List ℕ} {e : Word} : ¬ LeafAt (L.rooted f) m r q e := by
  intro hl
  obtain ⟨j, p, rfl, hne⟩ := leaf_path hl
  obtain ⟨_, _, _, t, ht, _⟩ := hl
  exact hne (rooted_role hnone (Layout.typing_some.mp ht)).2.2

include hf hnone in
/-- A zeroed frame is the first root. -/
theorem PtInv.first {empty : ℕ → Prop} (h : AllocInv L m)
    (hlim : startAddress f < m.paging.physicalAddressLimit) (hzero : ∀ i, m.mem.word f i = 0) :
    PtInv empty (L.rooted f) m := by
  have halloc : AllocInv (L.rooted f) m := by
    have := h.retag (f := f) (ρ := .table f []) (by simp [hf]) (by simp [hf, Role.state])
    exact ⟨this.start, this.stored, this.states, this.beyond, this.search, this.count,
      this.total, this.direct⟩
  refine ⟨halloc, ⟨?_, ?_, ?_, ?_, ?_⟩, rooted_role_self L f, ?_, ?_, ?_, ?_⟩
  · intro g r p hg
    obtain ⟨rfl, _, _⟩ := rooted_role hnone (Layout.typing_some.mp hg)
    exact hlim
  · intro g r hg
    obtain ⟨rfl, rfl, _⟩ := rooted_role hnone (Layout.typing_some.mp hg)
    rfl
  · intro g r p hg
    obtain ⟨_, _, rfl⟩ := rooted_role hnone (Layout.typing_some.mp hg)
    exact Nat.zero_le _
  · intro g r p i hg _ _ _ hlive
    obtain ⟨rfl, _, _⟩ := rooted_role hnone (Layout.typing_some.mp hg)
    rw [hzero] at hlive
    exact absurd hlive (by simp [pteCodec, PageTableEntry.isPresent])
  · intro g r i p hg
    obtain ⟨_, _, hp⟩ := rooted_role hnone (Layout.typing_some.mp hg)
    cases hp
  · intro r hr i _ _
    rw [(rooted_role hnone hr).1]
    rfl
  · intro g r p i hg _ _
    obtain ⟨rfl, _, _⟩ := rooted_role hnone hg
    exact hzero i
  · intro g r p hg hp
    exact absurd (rooted_role hnone hg).2.2 hp
  · intro r i p e hl
    exact absurd hl (rooted_leaf hnone)

end First

end Dusk
