import Dusk.Proofs.Space

/-! Runs of pages that are mapped one after the other and taken away again. What a run
took from the allocator for its tables goes back with its pages, because a table exists
exactly where a page below it is mapped. -/

namespace Dusk

open Lib Radix

variable {mixed : Prop} {L L' L₁ L₂ : Layout} {m m' m₁ m₂ : Machine} {r a va start n : ℕ}
  {space : AddressSpace} {P : Role → Prop} {E : Panic → Machine → Prop}

section Restore

variable {X X' : Exempt}

/-- Below a table that has to be in use there is a leaf. -/
theorem MemInv.leaf_below (h : MemInv (steady mixed) L m) {f : ℕ} {p : List ℕ}
    (hf : L.role f = .table r p) (hp : p ≠ []) : ∃ q e, LeafAt L m r (q ++ p) e := by
  refine h.tree.leaf_below ?_ (Layout.typing_some.mpr hf) hp
  intro g r' p' hg hp'
  exact h.full g r' p' (Layout.typing_some.mp hg) hp' id

/-- Above a leaf there are tables. -/
theorem table_above (ht : Tree L m) {q p : List ℕ} {e : Word} (hl : LeafAt L m r (q ++ p) e)
    (hlen : p.length ≤ m.paging.mode.intermediateLevels.length) :
    ∃ f, L.role f = .table r p := by
  cases q with
  | nil =>
    cases p with
    | nil => exact hl.elim
    | cons i p =>
      have hdepth : p.length = m.paging.mode.intermediateLevels.length := hl.2.1
      rw [List.length_cons] at hlen
      omega
  | cons j q =>
    obtain ⟨_, _, _, g, hg, _⟩ := hl
    obtain ⟨f, hf⟩ := ht.ancestor hg
    exact ⟨f, Layout.typing_some.mp hf⟩

/-- Free frames that became tables are free again when the leaves are as before, and the
tables that were there are in place. -/
theorem roles_restored (h : MemInv (steady mixed) L m) (h₁ : Tree L₁ m₁)
    (h' : MemInv (steady mixed) L' m') (hpaging : m'.paging = m.paging)
    (hup : ∀ f, L.role f ≠ .free → L₁.role f = L.role f)
    (hdown : ∀ f, L'.role f ≠ .free → L'.role f = L₁.role f)
    (hleaf : ∀ r q e, LeafAt L' m' r q e ↔ LeafAt L m r q e)
    (hrest : ∀ f, L.role f ≠ .free → L'.role f = .free → ∃ r p, p ≠ [] ∧ L.role f = .table r p)
    (hrest' : ∀ f, L.role f = .free → L'.role f ≠ .free → ∃ r p, p ≠ [] ∧ L'.role f = .table r p)
    (f : ℕ) : L'.role f = L.role f := by
  by_cases hf : L.role f = .free
  · by_contra hne
    rw [hf] at hne
    obtain ⟨r, p, hp, hrole⟩ := hrest' f hf hne
    obtain ⟨q, e, hl⟩ := h'.leaf_below hrole hp
    have hlen := h'.tree.depth f r p (Layout.typing_some.mpr hrole)
    obtain ⟨g, hg⟩ := table_above h.tree ((hleaf r _ e).mp hl) (by rw [← hpaging]; exact hlen)
    have hg₁ := (hup g (by rw [hg]; nofun)).trans hg
    have hf₁ := (hdown f hne).symm.trans hrole
    have heq := h₁.unique (Layout.typing_some.mpr hg₁) (Layout.typing_some.mpr hf₁)
    rw [heq, hf] at hg
    cases hg
  · by_cases hf' : L'.role f = .free
    · obtain ⟨r, p, hp, hrole⟩ := hrest f hf hf'
      obtain ⟨q, e, hl⟩ := h.leaf_below hrole hp
      have hlen := h.tree.depth f r p (Layout.typing_some.mpr hrole)
      obtain ⟨g, hg⟩ := table_above h'.tree ((hleaf r _ e).mpr hl) (by rw [hpaging]; exact hlen)
      have hg₁ := (hdown g (by rw [hg]; nofun)).symm.trans hg
      have hf₁ := (hup f hf).trans hrole
      have heq := h₁.unique (Layout.typing_some.mpr hg₁) (Layout.typing_some.mpr hf₁)
      rw [heq, hf'] at hg
      cases hg
    · rw [hdown f hf', hup f hf]

/-- A layout is determined by its roles, its first root and the place of the bitmap. -/
theorem layout_eq (hrole : ∀ f, L'.role f = L.role f) (hkroot : L'.kroot = L.kroot)
    (h : AllocInv L m) (h' : AllocInv L' m') (hregs : Regs m m') : L' = L := by
  have hstore : L'.store = L.store := by
    have hs := h.start
    have hs' := h'.start
    rw [hregs.bitmap, hregs.directMap, hs] at hs'
    simp only [startAddress, FRAME_SIZE] at hs'
    omega
  cases L
  cases L'
  simp only [Layout.mk.injEq]
  exact ⟨funext hrole, hkroot, hstore⟩

end Restore

/-- An address space in which pages are made and taken away. Where the root entries of
the kernel are shared, a leaf at the page `a` keeps one of them in place. -/
structure Realm (mixed : Prop) (L : Layout) (m : Machine) (space : AddressSpace) (r a : ℕ) :
    Prop where
  inv : MemInv (steady mixed) L m
  root : space.root = m.table r
  typed : L.role r = .table r []
  kind : ¬ mixed → space.kind = if r = L.kroot then .kernel else .user
  sole : mixed → r = L.kroot ∧ ∀ r', L.role r' = .table r' [] → r' = L.kroot
  anchor : RootFree L r [] ∨ ∃ e, LeafAt L m r (pagePath m.paging.mode a) e

/-- A place for a page in the half that a root manages. -/
structure Place (mixed : Prop) (L : Layout) (mode : PagingMode) (r a va : ℕ) : Prop where
  half : ¬ mixed → r = L.kroot → 2 ^ 63 ≤ va
  apart : RootFree L r [] ∨
    pagePath mode a ≠ pagePath mode va ∧ rootIndex mode a = rootIndex mode va

/-- The pages that an address space accepts. -/
structure AddressSpace.Takes (space : AddressSpace) (mode : PagingMode) (va : ℕ) : Prop where
  canonical : mode.isCanonical va = true
  aligned : va % FRAME_SIZE = 0
  low : space.kind = .user → va < USER_SPACE_END

/-- An edit keeps the roots. -/
theorem Edit.roots (h : Edit P r L m L' m') (hP : ∀ r', ¬ P (.table r' []))
    (r' : ℕ) (hr : L'.role r' = .table r' []) : L.role r' = .table r' [] := by
  rcases h.roles r' with he | ⟨_, hp'⟩
  · rw [← he, hr]
  · rw [hr] at hp'
    exact absurd hp' (hP r')

/-- Roots stay where they are. -/
theorem RootFree.edit (h : RootFree L r []) (he : Edit P r L m L' m')
    (hP : ∀ r', ¬ P (.table r' [])) : RootFree L' r [] := by
  rcases h with hp | hr | hroots
  · exact absurd rfl hp
  · exact .inr (.inl (by rwa [he.kroot]))
  · refine .inr (.inr fun r' hr' => ?_)
    rw [he.kroot]
    exact hroots r' (he.roots hP r' hr')

namespace Realm

theorem tableOf (h : Realm mixed L m space r a) : TableOf m space.root := by
  rw [h.root]
  exact table_of m r

theorem frame (h : Realm mixed L m space r a) : space.root.frame = r := by
  rw [h.root]
  rfl

theorem rootFree (h : Realm mixed L m space r a) (hx : mixed) (p : List ℕ) : RootFree L r p :=
  .inr (.inr (h.sole hx).2)

theorem owned (h : Realm mixed L m space r a) (hlow : space.kind = .user → va < USER_SPACE_END) :
    r = L.kroot ∨ rootIndex m.paging.mode va < 256 := by
  by_cases hx : mixed
  · exact .inl (h.sole hx).1
  · by_cases hr : r = L.kroot
    · exact .inl hr
    · exact .inr (rootIndex_user _ (hlow (by rw [h.kind hx, if_neg hr])))

/-- The address space after an edit that leaves its root and its anchor in place. -/
theorem edit (h : Realm mixed L m space r a) (hinv : MemInv (steady mixed) L' m')
    (he : Edit P r L m L' m') (hP : ∀ r', ¬ P (.table r' []))
    (hl : RootFree L r [] ∨ ∀ e, LeafAt L m r (pagePath m.paging.mode a) e →
      LeafAt L' m' r (pagePath m.paging.mode a) e) : Realm mixed L' m' space r a := by
  refine ⟨hinv, by rw [h.root, he.regs.table], ?_, ?_, ?_, ?_⟩
  · rw [he.role_eq (by rw [h.typed]; exact hP r), h.typed]
  · rw [he.kroot]
    exact h.kind
  · intro hx
    obtain ⟨hr, hroots⟩ := h.sole hx
    refine ⟨hr.trans he.kroot.symm, fun r' hr' => ?_⟩
    rw [he.kroot]
    exact hroots r' (he.roots hP r' hr')
  · rw [he.regs.paging]
    rcases hl with hfree | hl
    · exact .inl (hfree.edit he hP)
    · rcases h.anchor with hfree | ⟨e, hle⟩
      · exact .inl (hfree.edit he hP)
      · exact .inr ⟨e, hl e hle⟩

/-- `AddressSpace::map`: the address space refuses the page, or its page table is asked. -/
theorem map_sat {Q : Except MapError Unit → Machine → Prop} (h : Realm mixed L m space r a)
    (hp : Place mixed L m.paging.mode r a va) {frame : ℕ} {permissions : PagePermissions}
    {cachePolicy : CachePolicy}
    (huser : ¬ mixed → permissions.userAccessible = decide (r ≠ L.kroot))
    (hfail : space.kind = .user → ∀ err, Q (.error err) m)
    (hQ : ∀ res L' m', MapPost mixed L m r va frame (leafWord frame permissions cachePolicy
      (decide (space.kind = .kernel) && m.paging.globalPages)) res L' m' →
      (space.kind = .user → va < USER_SPACE_END) → Q (res.mapError MapError.ofPageTable) m') :
    (space.map (startAddress frame) va permissions cachePolicy).Sat m Q E := by
  rw [AddressSpace.map]
  simp only [fromStartAddress_startAddress, Prog.sat_ite, Prog.sat_bind]
  refine ⟨fun hk => hfail hk.1 _, fun hlow => ⟨fun hk => hfail hk.1 _, fun _ => ?_⟩⟩
  have hva : space.kind = .user → va < USER_SPACE_END := by
    intro hk
    by_contra hge
    exact hlow ⟨hk, by omega⟩
  refine Dusk.map_sat h.tableOf h.frame h.inv h.typed (fun hc => ⟨h.owned hva, ?_, ?_, huser,
    h.rootFree⟩) ?_
  · intro hx hi
    have hne : r ≠ L.kroot := by
      intro hr
      have hupper := rootIndex_upper hc (hp.half hx hr)
      omega
    exact ⟨hne, by simp [h.kind hx, hne]⟩
  · rcases hp.apart with hfree | ⟨_, hroot⟩
    · exact .inl hfree
    · rcases h.anchor with hfree | ⟨e, hl⟩
      · exact .inl hfree
      · rw [← hroot]
        exact .inr (table_of_leaf h.inv.tree hl (pagePath_getLast _ _))
  · intro res L' m' hpost
    have hres := hQ res L' m' hpost hva
    cases res <;> exact hres

/-- `PageTable::unmap` of a page that is mapped. -/
theorem rootUnmap_sat {Q : Except PageTableUnmapError ℕ → Machine → Prop}
    (h : Realm mixed L m space r a) (hp : Place mixed L m.paging.mode r a va)
    (htakes : space.Takes m.paging.mode va) {e : Word}
    (hleaf : LeafAt L m r (pagePath m.paging.mode va) e)
    (hQ : ∀ L' m', UnmapPost mixed L m r va L' m' → Q (.ok (entryFrame m.paging e)) m') :
    (space.root.unmap va).Sat m Q E := by
  refine Dusk.unmap_sat h.tableOf h.frame h.inv ⟨htakes.canonical, htakes.aligned⟩
    (h.owned htakes.low) hleaf ?_ hQ
  rcases hp.apart with hfree | ⟨hne, hroot⟩
  · exact .inl hfree
  · rcases h.anchor with hfree | ⟨e', hl⟩
    · exact .inl hfree
    · exact .inr ⟨_, e', hl, hne, by rw [pagePath_getLast, hroot]⟩

/-- `AddressSpace::unmap` of a page that is mapped. -/
theorem unmap_sat {Q : Except UnmapError ℕ → Machine → Prop}
    (h : Realm mixed L m space r a) (hp : Place mixed L m.paging.mode r a va)
    (htakes : space.Takes m.paging.mode va) {e : Word}
    (hleaf : LeafAt L m r (pagePath m.paging.mode va) e)
    (hQ : ∀ L' m', UnmapPost mixed L m r va L' m' → Q (.ok (entryFrame m.paging e)) m') :
    (space.unmap va).Sat m Q E := by
  have hva : ¬ (space.kind = .user ∧ va ≥ 0x0000_8000_0000_0000) := by
    rintro ⟨hk, hge⟩
    have hlt := htakes.low hk
    simp only [USER_SPACE_END] at hlt
    omega
  rw [AddressSpace.unmap, if_neg hva, Prog.sat_bind]
  exact h.rootUnmap_sat hp htakes hleaf hQ

/-- The address space after a page of it has gone. -/
theorem unmapped (h : Realm mixed L m space r a) (hp : Place mixed L m.paging.mode r a va)
    (hpost : UnmapPost mixed L m r va L' m') : Realm mixed L' m' space r a := by
  refine h.edit hpost.inv hpost.edit (fun r' => not_lent_root) ?_
  rcases hp.apart with hfree | ⟨hne, _⟩
  · exact .inl hfree
  · exact .inr fun e hl => (hpost.leaf _ _ _).mpr ⟨hl, fun hq => hne hq.2⟩

/-- The address space after a page has been added to it. -/
theorem mapped (h : Realm mixed L m space r a) {frame : ℕ} {e : Word}
    (hpost : MapPost mixed L m r va frame e (.ok ()) L' m') : Realm mixed L' m' space r a := by
  refine h.edit hpost.inv hpost.edit (fun r' => not_lent_root) (.inr fun e' hl => ?_)
  obtain ⟨_, _, _, hnone, hleaf⟩ := hpost.done rfl
  rw [hleaf, if_neg]
  · exact hl
  · rintro ⟨_, hq⟩
    rw [hq] at hl
    exact hnone e' hl

end Realm

theorem Place.edit (h : Place mixed L m.paging.mode r a va) (he : Edit P r L m L' m')
    (hP : ∀ r', ¬ P (.table r' [])) : Place mixed L' m'.paging.mode r a va := by
  refine ⟨by rw [he.kroot]; exact h.half, ?_⟩
  rw [he.regs.paging]
  exact h.apart.imp_left fun hfree => hfree.edit he hP

/-- The `i`-th page of a run. -/
abbrev pageAt (start i : ℕ) : ℕ := start + i * FRAME_SIZE

/-- Pages of a run have different paths. -/
theorem run_inj {mode : PagingMode} {i j : ℕ} (hi : space.Takes mode (pageAt start i))
    (hj : space.Takes mode (pageAt start j))
    (he : pagePath mode (pageAt start i) = pagePath mode (pageAt start j)) : i = j := by
  have := pagePath_inj hi.canonical hj.canonical hi.aligned hj.aligned he
  simp only [pageAt, FRAME_SIZE] at this
  omega

theorem canonical_lt {mode : PagingMode} (hc : mode.isCanonical va = true) : va < USIZE_END := by
  have hc := (isCanonical_iff _ _).mp hc
  have hl : mode.lowerEnd < 2 ^ 64 := by
    cases mode <;> norm_num [PagingMode.lowerEnd]
  simp only [USIZE_END]
  omega

/-- The first `n` pages of a run have been mapped, the `i`-th to the frame `frames i`, for
which the leaf is `word (frames i)`. -/
structure PagesAdded (mixed : Prop) (P : Role → Prop) (space : AddressSpace) (L : Layout)
    (m : Machine) (r start n : ℕ) (word : ℕ → Word) (frames : ℕ → ℕ) (L' : Layout)
    (m' : Machine) : Prop where
  inv : MemInv (steady mixed) L' m'
  edit : Edit P r L m L' m'
  kept : ∀ f, L.role f ≠ .free → L'.role f = L.role f
  takes : ∀ i < n, space.Takes m.paging.mode (pageAt start i)
  limit : ∀ i < n, startAddress (frames i) < m.paging.physicalAddressLimit
  fresh : ∀ i < n, ∀ e, ¬ LeafAt L m r (pagePath m.paging.mode (pageAt start i)) e
  leaf : ∀ r' q e, LeafAt L' m' r' q e ↔
    (r' = r ∧ ∃ i < n, q = pagePath m.paging.mode (pageAt start i) ∧
      e = word (frames i)) ∨ LeafAt L m r' q e

namespace PagesAdded

variable {word : ℕ → Word} {frames frames' : ℕ → ℕ}

theorem nil (h : MemInv (steady mixed) L m) :
    PagesAdded mixed P space L m r start 0 word frames L m :=
  ⟨h, Edit.refl _ _ _ _, fun _ _ => rfl, nofun, nofun, nofun, by simp⟩

theorem congr (h : PagesAdded mixed P space L m r start n word frames L' m')
    (he : ∀ i < n, frames' i = frames i) :
    PagesAdded mixed P space L m r start n word frames' L' m' := by
  refine ⟨h.inv, h.edit, h.kept, h.takes, fun i hi => by rw [he i hi]; exact h.limit i hi, h.fresh,
    fun r' q e => ?_⟩
  rw [h.leaf]
  refine or_congr_left (and_congr_right fun _ => exists_congr fun i => ?_)
  refine and_congr_right fun hi => ?_
  rw [he i hi]

/-- Something happens that does not concern the leaves. -/
theorem quiet (h : PagesAdded mixed P space L m r start n word frames L₁ m₁)
    (hinv : MemInv (steady mixed) L₂ m₂) (he : Edit P r L₁ m₁ L₂ m₂)
    (hkept : ∀ f, L₁.role f ≠ .free → L₂.role f = L₁.role f)
    (hleaf : ∀ r q e, LeafAt L₂ m₂ r q e ↔ LeafAt L₁ m₁ r q e) :
    PagesAdded mixed P space L m r start n word frames L₂ m₂ := by
  refine ⟨hinv, h.edit.trans he, ?_, h.takes, h.limit, h.fresh, ?_⟩
  · intro f hf
    rw [hkept f (by rwa [h.kept f hf]), h.kept f hf]
  · intro r' q e
    rw [hleaf, h.leaf]

/-- One more page. -/
theorem snoc (h : PagesAdded mixed P space L m r start n word frames L₁ m₁)
    (hP : ∀ ρ, Role.Lent r ρ → P ρ)
    (hmap : MapPost mixed L₁ m₁ r (pageAt start n) (frames n) (word (frames n)) (.ok ()) L' m')
    (htakes : space.Takes m.paging.mode (pageAt start n)) :
    PagesAdded mixed P space L m r start (n + 1) word frames L' m' := by
  obtain ⟨_, _, hlimit, hnone, hleaf⟩ := hmap.done rfl
  have hpaging := h.edit.regs.paging
  rw [hpaging] at hlimit hnone hleaf
  refine ⟨hmap.inv, h.edit.trans (hmap.edit.mono hP), ?_, ?_, ?_, ?_, ?_⟩
  · intro f hf
    rw [hmap.kept f (by rwa [h.kept f hf]), h.kept f hf]
  · intro i hi
    rcases Nat.lt_succ_iff_lt_or_eq.mp hi with hi | rfl
    · exact h.takes i hi
    · exact htakes
  · intro i hi
    rcases Nat.lt_succ_iff_lt_or_eq.mp hi with hi | rfl
    · exact h.limit i hi
    · exact hlimit
  · intro i hi e hl
    rcases Nat.lt_succ_iff_lt_or_eq.mp hi with hi | rfl
    · exact h.fresh i hi e hl
    · exact hnone e ((h.leaf _ _ _).mpr (.inr hl))
  · intro r' q e
    rw [hleaf]
    split_ifs with hq
    · obtain ⟨rfl, rfl⟩ := hq
      constructor
      · intro he
        exact .inl ⟨rfl, n, by omega, rfl, he⟩
      · rintro (⟨_, i, hi, hpath, rfl⟩ | hl)
        · have hin : i = n := by
            rcases Nat.lt_succ_iff_lt_or_eq.mp hi with hlt | heq
            · exact run_inj (h.takes i hlt) htakes hpath.symm
            · exact heq
          rw [hin]
        · exact absurd ((h.leaf _ _ _).mpr (.inr hl)) (hnone e)
    · rw [h.leaf]
      refine or_congr_left (and_congr_right fun hr => ?_)
      constructor
      · rintro ⟨i, hi, hpath⟩
        exact ⟨i, by omega, hpath⟩
      · rintro ⟨i, hi, hpath, he⟩
        rcases Nat.lt_succ_iff_lt_or_eq.mp hi with hi | rfl
        · exact ⟨i, hi, hpath, he⟩
        · exact absurd ⟨hr, hpath⟩ hq

/-- The leaf of a page of the run. -/
theorem page (h : PagesAdded mixed P space L m r start n word frames L' m') {i : ℕ} (hi : i < n) :
    LeafAt L' m' r (pagePath m.paging.mode (pageAt start i)) (word (frames i)) :=
  (h.leaf _ _ _).mpr (.inl ⟨rfl, i, hi, rfl, rfl⟩)

theorem realm (h : PagesAdded mixed P space L m r start n word frames L' m')
    (hs : Realm mixed L m space r a) (hP : ∀ r', ¬ P (.table r' [])) :
    Realm mixed L' m' space r a :=
  hs.edit h.inv h.edit hP (.inr fun _ hl => (h.leaf _ _ _).mpr (.inr hl))

end PagesAdded

/-- A run of `n` pages has been taken away. Tables have become free, and the frames of
`back`. -/
structure PagesGone (mixed : Prop) (P : Role → Prop) (L : Layout) (m : Machine)
    (r start n : ℕ) (back : ℕ → Prop) (L' : Layout) (m' : Machine) : Prop where
  inv : MemInv (steady mixed) L' m'
  edit : Edit P r L m L' m'
  kept : ∀ f, L'.role f ≠ .free → L'.role f = L.role f
  freed : ∀ f, L'.role f = .free →
    L.role f = .free ∨ (∃ p, p ≠ [] ∧ L.role f = .table r p) ∨ back f
  given : ∀ f, back f → L'.role f = .free
  leaf : ∀ r' q e, LeafAt L' m' r' q e ↔ LeafAt L m r' q e ∧
    ¬ (r' = r ∧ ∃ i < n, q = pagePath m.paging.mode (pageAt start i))

namespace PagesGone

variable {back back' : ℕ → Prop}

theorem nil (h : MemInv (steady mixed) L m) (hback : ∀ f, ¬ back f) :
    PagesGone mixed P L m r start 0 back L m :=
  ⟨h, Edit.refl _ _ _ _, fun _ _ => rfl, fun _ hf => .inl hf, fun f hf => absurd hf (hback f),
    by simp⟩

/-- The last page of a run, what happens to its frame, then the other pages. -/
theorem step (hP : ∀ ρ, Role.Lent r ρ → P ρ)
    (hu : UnmapPost mixed L m r (pageAt start n) L₁ m₁) (he : Edit P r L₁ m₁ L₂ m₂)
    (hkept : ∀ f, L₂.role f ≠ .free → L₂.role f = L₁.role f)
    (hfreed : ∀ f, L₂.role f = .free → L₁.role f = .free ∨ back' f)
    (hleaf : ∀ r q e, LeafAt L₂ m₂ r q e ↔ LeafAt L₁ m₁ r q e)
    (h : PagesGone mixed P L₂ m₂ r start n back L' m') (hback : ∀ f, back f → back' f)
    (hgiven : ∀ f, back' f → L₂.role f = .free ∨ back f) :
    PagesGone mixed P L m r start (n + 1) back' L' m' := by
  refine ⟨h.inv, (hu.edit.mono hP).trans (he.trans h.edit), ?_, ?_, ?_, ?_⟩
  · intro f hf
    have hf₂ := h.kept f hf
    have hf₁ := hkept f (by rwa [hf₂] at hf)
    rw [hf₂, hf₁] at hf
    rw [hf₂, hf₁, hu.kept f hf]
  · intro f hf
    have hold : ∀ f, L₁.role f = .free →
        L.role f = .free ∨ (∃ p, p ≠ [] ∧ L.role f = .table r p) ∨ back' f := by
      intro f hf₁
      rcases hu.edit.roles f with hsame | ⟨hlent, _⟩
      · exact .inl (hsame ▸ hf₁)
      · rcases hlent with hfree | htable
        · exact .inl hfree
        · exact .inr (.inl htable)
    rcases h.freed f hf with hf₂ | ⟨p, hp, hf₂⟩ | hb
    · rcases hfreed f hf₂ with hf₁ | hb
      · exact hold f hf₁
      · exact .inr (.inr hb)
    · have hf₁ := (hkept f (by rw [hf₂]; nofun)).symm.trans hf₂
      have hf₀ := (hu.kept f (by rw [hf₁]; nofun)).symm.trans hf₁
      exact .inr (.inl ⟨p, hp, hf₀⟩)
    · exact .inr (.inr (hback f hb))
  · intro f hf
    rcases hgiven f hf with hf₂ | hb
    · by_contra hne
      exact hne ((h.kept f hne).trans hf₂)
    · exact h.given f hb
  · intro r' q e
    have hpaging : m₂.paging = m.paging := he.regs.paging.trans hu.edit.regs.paging
    rw [h.leaf, hleaf, hu.leaf, hpaging, and_assoc]
    refine and_congr_right fun _ => ?_
    constructor
    · rintro ⟨hn, hrest⟩ ⟨hr, i, hi, hq⟩
      rcases Nat.lt_succ_iff_lt_or_eq.mp hi with hi | rfl
      · exact hrest ⟨hr, i, hi, hq⟩
      · exact hn ⟨hr, hq⟩
    · intro hnone
      refine ⟨fun ⟨hr, hq⟩ => hnone ⟨hr, n, by omega, hq⟩, ?_⟩
      rintro ⟨hr, i, hi, hq⟩
      exact hnone ⟨hr, i, by omega, hq⟩

end PagesGone

/-- The leaves are as they were. -/
structure Restored (mixed : Prop) (P : Role → Prop) (L : Layout) (m : Machine) (r : ℕ)
    (L' : Layout) (m' : Machine) : Prop where
  inv : MemInv (steady mixed) L' m'
  edit : Edit P r L m L' m'
  leaf : ∀ r' q e, LeafAt L' m' r' q e ↔ LeafAt L m r' q e

theorem Restored.refl (h : MemInv (steady mixed) L m) : Restored mixed P L m r L m :=
  ⟨h, Edit.refl _ _ _ _, fun _ _ _ => Iff.rfl⟩

/-- A run that is taken away again leaves everything in its place: the tables that were
made for it are free, and so are its frames. -/
theorem PagesAdded.undo {word : ℕ → Word} {frames : ℕ → ℕ} {back : ℕ → Prop}
    (h : MemInv (steady mixed) L m)
    (ha : PagesAdded mixed P space L m r start n word frames L₁ m₁)
    (hg : PagesGone mixed P L₁ m₁ r start n back L' m') (hback : ∀ f, back f → L.role f = .free)
    (hdata : ∀ f, L.role f = .free → P (L₁.role f) →
      L₁.role f = .free ∨ (∃ p, p ≠ [] ∧ L₁.role f = .table r p) ∨ back f) :
    Restored mixed P L m r L m' := by
  have hedit := ha.edit.trans hg.edit
  have hleaf : ∀ r' q e, LeafAt L' m' r' q e ↔ LeafAt L m r' q e := by
    intro r' q e
    rw [hg.leaf, ha.leaf, ha.edit.regs.paging]
    constructor
    · rintro ⟨⟨hr, i, hi, hq, _⟩ | hl, hnot⟩
      · exact absurd ⟨hr, i, hi, hq⟩ hnot
      · exact hl
    · intro hl
      refine ⟨.inr hl, ?_⟩
      rintro ⟨rfl, i, hi, rfl⟩
      exact ha.fresh i hi e hl
  have hroles := roles_restored h ha.inv.tree hg.inv hedit.regs.paging ha.kept hg.kept hleaf
    (fun f hf hf' => ?_) (fun f hf hf' => ?_)
  · obtain rfl : L' = L := layout_eq hroles hedit.kroot h.alloc hg.inv.alloc hedit.regs
    exact ⟨hg.inv, hedit, hleaf⟩
  · rcases hg.freed f hf' with hf₁ | ⟨p, hp, hf₁⟩ | hb
    · rw [ha.kept f hf] at hf₁
      exact absurd hf₁ hf
    · exact ⟨r, p, hp, (ha.kept f hf).symm.trans hf₁⟩
    · exact absurd (hback f hb) hf
  · have hf₁ := hg.kept f hf'
    have hP : P (L₁.role f) := by
      rcases ha.edit.roles f with hsame | ⟨_, hp⟩
      · rw [hf₁, hsame, hf] at hf'
        exact absurd rfl hf'
      · exact hp
    rcases hdata f hf hP with hfree | ⟨p, hp, htable⟩ | hb
    · rw [hf₁] at hf'
      exact absurd hfree hf'
    · exact ⟨r, p, hp, hf₁.trans htable⟩
    · exact absurd (hg.given f hb) hf'

section Range

variable {phys : ℕ} {permissions : PagePermissions} {cachePolicy : CachePolicy}

/-- The rollback of `map_range`. -/
theorem rollBackPages_sat {Q : Unit → Machine → Prop} (h : Realm mixed L m space r a)
    (hplaces : ∀ i < n, Place mixed L m.paging.mode r a (pageAt start i))
    (htakes : ∀ i < n, space.Takes m.paging.mode (pageAt start i))
    (hpages : ∀ i < n, ∃ e, LeafAt L m r (pagePath m.paging.mode (pageAt start i)) e)
    (hQ : ∀ L' m', PagesGone mixed (Role.Lent r) L m r start n (fun _ => False) L' m' → Q () m') :
    (space.rollBackPages start n).Sat m Q E := by
  induction n generalizing L m with
  | zero => exact hQ L m (PagesGone.nil h.inv fun _ => id)
  | succ n ih =>
    obtain ⟨e, hl⟩ := hpages n (by omega)
    have hadd : checkedAdd start (n * FRAME_SIZE) = some (pageAt start n) :=
      if_pos (canonical_lt (htakes n (by omega)).canonical)
    simp only [AddressSpace.rollBackPages, Prog.sat_bind, addUsize, hadd, Prog.sat_expect_some]
    refine h.rootUnmap_sat (hplaces n (by omega)) (htakes n (by omega)) hl ?_
    intro L₁ m₁ hu
    have hpaging := hu.edit.regs.paging
    refine ih (h.unmapped (hplaces n (by omega)) hu) ?_ ?_ ?_ ?_
    · intro i hi
      exact (hplaces i (by omega)).edit hu.edit fun _ => not_lent_root
    · intro i hi
      rw [hpaging]
      exact htakes i (by omega)
    · intro i hi
      obtain ⟨e', hl'⟩ := hpages i (by omega)
      rw [hpaging]
      refine ⟨e', (hu.leaf _ _ _).mpr ⟨hl', ?_⟩⟩
      rintro ⟨_, hq⟩
      have := run_inj (htakes i (by omega)) (htakes n (by omega)) hq
      omega
    · intro L' m' hgone
      exact hQ L' m' (PagesGone.step (fun _ h => h) hu (Edit.refl _ _ _ _) (fun _ _ => rfl)
        (fun _ hf => .inl hf) (fun _ _ _ => Iff.rfl) hgone (fun _ => id) fun _ => .inr)

/-- The leaves for frames that an address space maps. -/
def AddressSpace.word (space : AddressSpace) (m : Machine) (permissions : PagePermissions)
    (cachePolicy : CachePolicy) (f : ℕ) : Word :=
  leafWord f permissions cachePolicy (decide (space.kind = .kernel) && m.paging.globalPages)

/-- The frames of a range. -/
def rangeFrame (phys i : ℕ) : ℕ := phys / FRAME_SIZE + i

/-- A range that cannot be finished is taken back. -/
theorem PagesAdded.rollBack {Q : Except MapError Unit → Machine → Prop} {word : ℕ → Word}
    {frames : ℕ → ℕ} (h : Realm mixed L m space r a)
    (ha : PagesAdded mixed (Role.Lent r) space L m r start n word frames L₁ m₁)
    (hplaces : ∀ i < n, Place mixed L m.paging.mode r a (pageAt start i)) {err : MapError}
    (hQ : ∀ m', Restored mixed (Role.Lent r) L m r L m' → Q (.error err) m') :
    (do
      space.rollBackPages start n
      pure (.error err) : MM (Except MapError Unit)).Sat m₁ Q E := by
  have hpaging := ha.edit.regs.paging
  rw [Prog.sat_bind]
  refine rollBackPages_sat (ha.realm h fun _ => not_lent_root) ?_ ?_ ?_ ?_
  · intro i hi
    exact (hplaces i hi).edit ha.edit fun _ => not_lent_root
  · rw [hpaging]
    exact ha.takes
  · intro i hi
    rw [hpaging]
    exact ⟨_, ha.page hi⟩
  · intro L' m' hgone
    refine hQ m' (ha.undo h.inv hgone (fun _ => False.elim) fun f _ hlent => ?_)
    rcases hlent with hfree | htable
    · exact .inl hfree
    · exact .inr (.inl htable)

/-- The loop of `map_range`. -/
theorem mapPages_sat {Q : Except MapError Unit → Machine → Prop} {remaining : ℕ}
    (h : Realm mixed L m space r a) (hphys : phys % FRAME_SIZE = 0)
    (hend : ∀ i < n + remaining, pageAt phys i < USIZE_END ∧ pageAt start i < USIZE_END)
    (hplaces : ∀ i < n + remaining, Place mixed L m.paging.mode r a (pageAt start i))
    (huser : ¬ mixed → permissions.userAccessible = decide (r ≠ L.kroot))
    (ha : PagesAdded mixed (Role.Lent r) space L m r start n
      (space.word m permissions cachePolicy) (rangeFrame phys) L₁ m₁)
    (hok : ∀ L' m', PagesAdded mixed (Role.Lent r) space L m r start (n + remaining)
      (space.word m permissions cachePolicy) (rangeFrame phys) L' m' → Q (.ok ()) m')
    (herr : ∀ err m', Restored mixed (Role.Lent r) L m r L m' → Q (.error err) m') :
    (space.mapPages phys start permissions cachePolicy remaining n).Sat m₁ Q E := by
  induction remaining generalizing n L₁ m₁ with
  | zero => exact hok L₁ m₁ ha
  | succ remaining ih =>
    have hpaging := ha.edit.regs.paging
    obtain ⟨hpa, hva⟩ := hend n (by omega)
    have hframe : phys + n * FRAME_SIZE = startAddress (phys / FRAME_SIZE + n) := by
      simp only [startAddress, FRAME_SIZE] at hphys ⊢
      omega
    simp only [AddressSpace.mapPages, Prog.sat_bind, addUsize, checkedAdd, if_pos hpa, if_pos hva,
      Prog.sat_expect_some]
    rw [hframe]
    have hback : ∀ {err L₂ m₂}, PagesAdded mixed (Role.Lent r) space L m r start n
        (space.word m permissions cachePolicy) (rangeFrame phys) L₂ m₂ →
        (do
          space.rollBackPages start n
          pure (.error err) : MM (Except MapError Unit)).Sat m₂ Q E := fun ha₂ =>
      ha₂.rollBack h (fun i hi => hplaces i (by omega)) (herr _)
    refine (ha.realm h fun _ => not_lent_root).map_sat
      ((hplaces n (by omega)).edit ha.edit fun _ => not_lent_root)
      (fun hx => by rw [ha.edit.kroot]; exact huser hx) (fun _ err => hback ha) ?_
    intro res L₂ m₂ hpost hlow
    cases res with
    | ok u =>
      rw [hpaging] at hpost
      have htakes : space.Takes m.paging.mode (pageAt start n) := by
        obtain ⟨hc, hal, _⟩ := hpost.done rfl
        exact ⟨by rw [← hpaging]; exact hc, hal, hlow⟩
      have hsnoc := ha.snoc (fun _ h => h) hpost htakes
      refine ih ?_ ?_ hsnoc ?_
      · rwa [Nat.add_right_comm]
      · rwa [Nat.add_right_comm]
      · rwa [Nat.add_right_comm]
    | error err =>
      obtain ⟨rfl, _, hleaf, _⟩ := hpost.failed err rfl
      exact hback (ha.quiet hpost.inv hpost.edit (fun _ _ => rfl) hleaf)

/-- `AddressSpace::map_range`. -/
theorem mapRange_sat {Q : Except MapError Unit → Machine → Prop} {length : ℕ}
    (h : Realm mixed L m space r a)
    (hplaces : ∀ i < length / FRAME_SIZE, Place mixed L m.paging.mode r a (pageAt start i))
    (huser : ¬ mixed → permissions.userAccessible = decide (r ≠ L.kroot))
    (hok : ∀ L' m', PagesAdded mixed (Role.Lent r) space L m r start (length / FRAME_SIZE)
      (space.word m permissions cachePolicy) (rangeFrame phys) L' m' →
      (length ≠ 0 → phys % FRAME_SIZE = 0 ∧ start % FRAME_SIZE = 0) →
      length % FRAME_SIZE = 0 → Q (.ok ()) m')
    (herr : ∀ err m', Restored mixed (Role.Lent r) L m r L m' → Q (.error err) m') :
    (space.mapRange phys start length permissions cachePolicy).Sat m Q E := by
  have hrefuse : ∀ err, Q (.error err) m := fun err => herr err m (Restored.refl h.inv)
  rw [AddressSpace.mapRange]
  simp only [Prog.sat_ite]
  refine ⟨fun hz => ?_, fun hz => ⟨fun _ => hrefuse _, fun hphys => ⟨fun _ => hrefuse _,
    fun hal => ⟨fun _ => hrefuse _, fun hlen => ⟨fun _ => hrefuse _, fun hpe => ⟨fun _ => hrefuse _,
      fun hve => ?_⟩⟩⟩⟩⟩⟩
  · subst hz
    exact hok L m (PagesAdded.nil h.inv) (absurd rfl) rfl
  · rw [not_not] at hphys hal hlen
    have hfit : ∀ x, ¬ (checkedAdd x (length - FRAME_SIZE)).isNone = true →
        ∀ i < length / FRAME_SIZE, pageAt x i < USIZE_END := by
      intro x hx i hi
      rw [checkedAdd] at hx
      split_ifs at hx with hlt
      · simp only [pageAt, FRAME_SIZE] at hi hlt hlen ⊢
        omega
      · simp at hx
    refine mapPages_sat h hphys ?_ ?_ huser (PagesAdded.nil h.inv) ?_ herr
    · intro i hi
      rw [Nat.zero_add] at hi
      exact ⟨hfit phys hpe i hi, hfit start hve i hi⟩
    · rwa [Nat.zero_add]
    · rw [Nat.zero_add]
      exact fun L' m' hadd => hok L' m' hadd (fun _ => ⟨hphys, hal⟩) hlen

end Range

end Dusk
