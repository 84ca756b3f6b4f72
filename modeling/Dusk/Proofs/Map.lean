import Dusk.Proofs.Edit

/-! `PageTable::map`: it adds one leaf or changes nothing, keeps the memory
invariant, and never panics. -/

namespace Dusk

open Lib Radix

/-- A handle on the tables of this machine. -/
structure TableOf (m : Machine) (pt : PageTable) : Prop where
  directMap : pt.directMap = m.allocator.directMap
  config : pt.config = m.paging

theorem TableOf.regs {m m' : Machine} {pt : PageTable} (h : TableOf m pt) (hr : Regs m m') :
    TableOf m' pt := ⟨h.directMap.trans hr.directMap.symm, h.config.trans hr.paging.symm⟩

theorem table_of (m : Machine) (r : ℕ) : TableOf m (m.table r) := ⟨rfl, rfl⟩

variable {X : Exempt} {L : Layout} {m : Machine} {pt : PageTable} {r va : ℕ}
  {E : Panic → Machine → Prop}

theorem TableOf.translate (hpt : TableOf m pt) (ha : AllocInv L m) {f : ℕ}
    (hf : (L.role f).state ≠ .reserved) :
    ∃ v, pt.directMap.translate (startAddress f) = some v := by
  rw [hpt.directMap]
  exact ha.translate_some hf

theorem TableOf.entries (hpt : TableOf m pt) (ha : AllocInv L m) {f : ℕ} {p : List ℕ}
    (hf : L.role f = .table r p) : pt.table m.mem f = some (m.mem.word f) := by
  obtain ⟨v, hv⟩ := hpt.translate ha (f := f) (by simp [hf, Role.state])
  simp [PageTable.table, hv]

/-- The tables that are missing on the way to a page, from a table on. -/
def missingFrom (config : PagingConfig) (mem : PhysMem) (va : ℕ) : List PageTableLevel → ℕ → ℕ
  | [], _ => 0
  | level :: levels, f =>
    match PageTableEntry.tableFrame (mem.word f (level.index va)) config with
    | none => levels.length + 1
    | some g => missingFrom config mem va levels g

/-- The tables that are missing on the way to a page. -/
def Machine.missing (m : Machine) (r va : ℕ) : ℕ :=
  missingFrom m.paging m.mem va m.paging.mode.intermediateLevels r

/-- `us` are entries of tables that `map` has to make user accessible, and with them
all entries on the way to the table at `q` are. -/
structure Upgrades (L : Layout) (m : Machine) (r : ℕ) (user : Bool) (q : List ℕ)
    (us : List EntryLocation) : Prop where
  entries : ∀ u ∈ us, user = true ∧
    PageTableEntry.isUserAccessible (m.mem.word u.table u.index) = false ∧
    ∃ p g, L.role u.table = .table r p ∧ L.role g = .table r (u.index :: p)
  covers : user = true → ∀ i p f, (i :: p) <:+ q → L.role f = .table r p →
    PageTableEntry.isUserAccessible (m.mem.word f i) = true ∨ (⟨f, i⟩ : EntryLocation) ∈ us

theorem Upgrades.nil (user : Bool) : Upgrades L m r user [] [] :=
  ⟨by simp, fun _ i p f hs => by simp at hs⟩

/-- One step of the walk. -/
theorem Upgrades.step {user : Bool} {q : List ℕ} {us : List EntryLocation}
    (h : Upgrades L m r user q us) (ht : Tree L m) {f g i : ℕ} (hf : L.role f = .table r q)
    (hg : L.role g = .table r (i :: q)) :
    Upgrades L m r user (i :: q)
      (if user && !PageTableEntry.isUserAccessible (m.mem.word f i) then us ++ [⟨f, i⟩] else us) := by
  have hnew : ∀ {c}, c = (user && !PageTableEntry.isUserAccessible (m.mem.word f i)) →
      ∀ u ∈ (if c then us ++ [⟨f, i⟩] else us), u ∈ us ∨ c = true ∧ u = ⟨f, i⟩ := by
    intro c _ u hu
    cases c with
    | false => exact .inl hu
    | true =>
      rcases List.mem_append.mp hu with hu | hu
      · exact .inl hu
      · exact .inr ⟨rfl, by simpa using hu⟩
  refine ⟨?_, ?_⟩
  · intro u hu
    rcases hnew rfl u hu with hu | ⟨hc, rfl⟩
    · exact h.entries u hu
    · simp only [Bool.and_eq_true, Bool.not_eq_true'] at hc
      exact ⟨hc.1, hc.2, q, g, hf, hg⟩
  · intro huser i' p f' hs hf'
    rcases List.suffix_cons_iff.mp hs with heq | hs
    · cases heq
      rw [ht.unique (Layout.typing_some.mpr hf') (Layout.typing_some.mpr hf)]
      cases hu : PageTableEntry.isUserAccessible (m.mem.word f i) with
      | true => exact .inl rfl
      | false =>
        right
        simp [huser]
    · rcases h.covers huser i' p f' hs hf' with hu | hu
      · exact .inl hu
      · right
        split_ifs
        · exact List.mem_append_left _ hu
        · exact hu

/-- Where the walk of `map` ends. -/
theorem mapWalk_cases (hpt : TableOf m pt) (ha : AllocInv L m) (ht : Tree L m) (user : Bool)
    {f : ℕ} {p : List ℕ} (hf : L.role f = .table r p) (levels : List PageTableLevel)
    {us : List EntryLocation}
    (hlen : p.length + levels.length = m.paging.mode.intermediateLevels.length)
    (ho : p = [] → ∀ l ∈ levels.head?, r = L.kroot ∨ l.index va < 256)
    (hus : Upgrades L m r user p us) :
    (∃ t us', pt.mapWalk m.mem va user levels f us = .ok (.complete t us') ∧
      missingFrom m.paging m.mem va levels f = 0 ∧
      L.role t = .table r ((levels.map fun l => l.index va).reverse ++ p) ∧
      Upgrades L m r user ((levels.map fun l => l.index va).reverse ++ p) us') ∨
    ∃ f' pre level below us', levels = pre ++ level :: below ∧
      pt.mapWalk m.mem va user levels f us = .ok (.missing ⟨f', level.index va⟩ below us') ∧
      missingFrom m.paging m.mem va levels f = below.length + 1 ∧
      L.role f' = .table r ((pre.map fun l => l.index va).reverse ++ p) ∧
      PageTableEntry.isPresent (m.mem.word f' (level.index va)) = false ∧
      Upgrades L m r user ((pre.map fun l => l.index va).reverse ++ p) us' := by
  induction levels generalizing f p us with
  | nil => exact .inl ⟨f, us, rfl, rfl, by simpa using hf, by simpa using hus⟩
  | cons level levels ih =>
    have hlt : p.length < m.paging.mode.intermediateLevels.length := by
      simp only [List.length_cons] at hlen
      omega
    simp only [PageTable.mapWalk, hpt.entries ha hf, missingFrom]
    rcases child_cases ht hf hlt (level_index_lt level va) (fun h => ho h level (by simp)) with
      hdead | ⟨g, u, hg, he, hlim⟩
    · right
      exact ⟨f, [], level, levels, us, rfl, by simp [hdead],
        by simp [tableFrame_of_not_present hdead], by simpa using hf, hdead, by simpa using hus⟩
    · have hlim' : startAddress g < pt.config.physicalAddressLimit := by rwa [hpt.config]
      have hstep := hus.step ht hf hg
      generalize (if user && !PageTableEntry.isUserAccessible (m.mem.word f (level.index va))
        then us ++ [(⟨f, level.index va⟩ : EntryLocation)] else us) = us₁ at hstep ⊢
      simp only [he, tableWord_isPresent _ hlim, tableWord_isHuge _ hlim,
        tableWord_tableFrame _ hlim', tableWord_tableFrame _ hlim, Bool.not_true,
        Bool.false_eq_true, if_false]
      rcases ih hg (by simp only [List.length_cons] at hlen ⊢; omega) (by simp) hstep with
        ⟨t, us', hw, hmiss, htr, hus'⟩ | ⟨f', pre, l, below, us', hsplit, hw, hmiss, hf', hdead, hus'⟩
      · left
        exact ⟨t, us', hw, hmiss, by simpa using htr, by simpa using hus'⟩
      · right
        exact ⟨f', level :: pre, l, below, us', by rw [hsplit]; rfl, hw, hmiss, by simpa using hf',
          hdead, by simpa using hus'⟩

/-- What making the entries `us` user accessible does. -/
structure Upgraded (X : Exempt) (L : Layout) (m : Machine) (r : ℕ) (us : List EntryLocation)
    (m' : Machine) : Prop where
  inv : MemInv X L m'
  regs : Regs m m'
  allocator : m'.allocator = m.allocator
  words : ∀ g, (∀ p, L.role g ≠ .table r p) → m'.mem.word g = m.mem.word g
  leaf : ∀ r' q e, LeafAt L m' r' q e ↔ LeafAt L m r' q e
  present : ∀ f i, PageTableEntry.isPresent (m'.mem.word f i) =
    PageTableEntry.isPresent (m.mem.word f i)
  user : ∀ f i, PageTableEntry.isUserAccessible (m.mem.word f i) = true ∨
    (⟨f, i⟩ : EntryLocation) ∈ us → PageTableEntry.isUserAccessible (m'.mem.word f i) = true

theorem applyUserUpgrades_sat {Q : Unit → Machine → Prop} (hpt : TableOf m pt) (h : MemInv X L m)
    {us : List EntryLocation}
    (hus : ∀ u ∈ us, ∃ p g, L.role u.table = .table r p ∧ L.role g = .table r (u.index :: p))
    (hx : us = [] ∨ X.mixed ∧ ∀ p, RootFree L r p)
    (hQ : ∀ m', Upgraded X L m r us m' → Q () m') : (pt.applyUserUpgrades us).Sat m Q E := by
  induction us generalizing m Q with
  | nil =>
    exact hQ m ⟨h, Regs.refl m, rfl, fun _ _ => rfl, fun _ _ _ => Iff.rfl, fun _ _ => rfl,
      fun _ _ hu => by simpa using hu⟩
  | cons u us ih =>
    obtain ⟨hmixed, hfree⟩ := hx.resolve_left (by simp)
    obtain ⟨p, g, hu, hg⟩ := hus u (by simp)
    obtain ⟨b, hlink⟩ := h.tree.parent_links (Layout.typing_some.mpr hu) (Layout.typing_some.mpr hg)
    have hlim : startAddress g < m.paging.physicalAddressLimit :=
      h.tree.valid g _ _ (Layout.typing_some.mpr hg)
    obtain ⟨v, hv⟩ := hpt.translate h.alloc (f := u.table) (by simp [hu, Role.state])
    obtain ⟨hinv, hleaf⟩ := h.upgrade hmixed hu hg (hfree p)
    rw [PageTable.applyUserUpgrades]
    simp only [Prog.sat_bind, Prog.sat_get, PageTable.writeEntry, hv, Prog.sat_expect_some,
      sat_storeEntry, hlink, tableWord_upgrade]
    have hregs : Regs m (m.withMem (m.mem.setWord u.table u.index (tableWord true g))).ticked :=
      (withMem_regs _ _).trans (ticked_regs _)
    refine ih (hpt.regs hregs) hinv.tick (fun u' hu' => hus u' (by simp [hu']))
      (.inr ⟨hmixed, hfree⟩) ?_
    intro m' hup
    refine hQ m' ⟨hup.inv, hregs.trans hup.regs, hup.allocator, ?_, fun r' q e => (hup.leaf r' q e).trans
      (hleaf r' q e), ?_, ?_⟩
    · intro x hxt
      rw [hup.words x hxt]
      apply PhysMem.frame_setWord
      rintro rfl
      exact hxt p hu
    · intro f i
      rw [hup.present, ticked_mem, Machine.withMem, PhysMem.word_setWord]
      split_ifs with hfi
      · rw [tableWord_isPresent _ hlim, hfi.1, hfi.2, hlink, tableWord_isPresent _ hlim]
      · rfl
    · intro f i hor
      apply hup.user
      rw [ticked_mem, Machine.withMem, PhysMem.word_setWord]
      split_ifs with hfi
      · exact .inl (tableWord_isUserAccessible _ hlim)
      · rcases hor with hor | hor
        · exact .inl hor
        · rcases List.mem_cons.mp hor with heq | hor
          · exact absurd ⟨congrArg EntryLocation.table heq, congrArg EntryLocation.index heq⟩ hfi
          · exact .inr hor

/-- After the upgrades the whole way is user accessible. -/
theorem Upgraded.path {user : Bool} {q : List ℕ} {us : List EntryLocation} {m' : Machine}
    (h : Upgraded X L m r us m') (hus : Upgrades L m r user q us) (hu : user = true) :
    UserPath L m' r q := by
  intro i p f hs hf
  exact h.user f i (hus.covers hu i p f hs hf)

/-- Where user pages are kept apart nothing has to be upgraded. -/
theorem Upgrades.empty {user : Bool} {q : List ℕ} {us : List EntryLocation}
    (hus : Upgrades L m r user q us) (ht : Tree L m) {pages : ℕ → Prop} (h : Halves pages L m)
    (huser : user = decide (r ≠ L.kroot)) : us = [] := by
  refine List.eq_nil_iff_forall_not_mem.mpr ?_
  intro u hu
  obtain ⟨hyes, hno, p, g, hp, hg⟩ := hus.entries u hu
  obtain ⟨hi, ho, _⟩ := ht.up g r _ _ (Layout.typing_some.mpr hg)
  have hdepth : (u.index :: p).length ≤ m.paging.mode.intermediateLevels.length :=
    ht.depth g _ _ (Layout.typing_some.mpr hg)
  have hlive := ht.child_live (Layout.typing_some.mpr hp) (Layout.typing_some.mpr hg)
  have hflag := h.flags u.table r p u.index hp (by simpa using hdepth) hi ho hlive
  rw [hno, ← huser, hyes] at hflag
  cases hflag

theorem card_setAll {n : ℕ} {fs : List ℕ} (hnd : fs.Nodup) (hfree : ∀ f ∈ fs, L.role f = .free)
    (hlt : ∀ f ∈ fs, f < n) :
    ((L.setAll fs (.data .spare)).freeSet n).card + fs.length = (L.freeSet n).card := by
  have hsub : fs.toFinset ⊆ L.freeSet n := by
    intro f hf
    have hf := List.mem_toFinset.mp hf
    simpa [Layout.freeSet, hlt f hf, Role.state_free] using hfree f hf
  have heq : (L.setAll fs (.data .spare)).freeSet n = L.freeSet n \ fs.toFinset := by
    ext f
    simp only [Layout.freeSet, Finset.mem_filter, Finset.mem_sdiff, List.mem_toFinset]
    by_cases hf : f ∈ fs
    · simp [hf, Layout.setAll_role_of_mem hf, Role.state]
    · simp [hf, Layout.setAll_role_of_not_mem hf]
  rw [heq, Finset.card_sdiff_of_subset hsub, ← List.toFinset_card_of_nodup hnd]
  have := Finset.card_le_card hsub
  omega

/-- The frames `fs` have been taken and zeroed. -/
structure TablesTaken (X : Exempt) (L : Layout) (m : Machine) (fs : List ℕ) (m' : Machine) :
    Prop where
  inv : MemInv X (L.setAll fs (.data .spare)) m'
  nodup : fs.Nodup
  free : ∀ f ∈ fs, L.role f = .free
  only : AllocOnly m m'
  words : ∀ g, L.role g ≠ .storage → g ∉ fs → m'.mem.word g = m.mem.word g
  zero : ∀ f ∈ fs, ∀ i, m'.mem.word f i = 0
  leaf : ∀ r q e, LeafAt (L.setAll fs (.data .spare)) m' r q e ↔ LeafAt L m r q e

theorem TablesTaken.nil (h : MemInv X L m) : TablesTaken X L m [] m := by
  refine ⟨?_, List.nodup_nil, by simp, AllocOnly.refl m, fun _ _ _ => rfl, by simp, ?_⟩
  · rw [Layout.setAll_nil]
    exact h
  · intro r q e
    rw [Layout.setAll_nil]

/-- Why the allocation of private tables ends. -/
inductive TablesFound (L : Layout) (m : Machine) (fs : List ℕ) (count : ℕ) (m' : Machine) :
    Except PageTableMapError Unit → Prop where
  | all : fs.length = count → (∀ f ∈ fs, startAddress f < m.paging.physicalAddressLimit) →
      ((L.setAll fs (.data .spare)).offers m').card + count = (L.offers m).card →
      TablesFound L m fs count m' (.ok ())
  | outOfFrames : fs.length < count → (∀ f, (L.setAll fs (.data .spare)).role f ≠ .free) →
      (L.offers m).card < count → TablesFound L m fs count m' (.error .outOfFrames)
  | tooLarge {f : ℕ} : f ∈ fs → m.paging.physicalAddressLimit ≤ startAddress f →
      (L.offers m).card < count → TablesFound L m fs count m' (.error .physicalAddressTooLarge)

theorem TablesFound.cons {count : ℕ} {fs : List ℕ} {res : Except PageTableMapError Unit}
    {f : ℕ} {m₁ m' : Machine} (h : TablesFound (L.set f (.data .spare)) m₁ fs count m' res)
    (hp : m₁.paging = m.paging) (hlim : startAddress f < m.paging.physicalAddressLimit)
    (hcard : ((L.set f (.data .spare)).offers m₁).card + 1 = (L.offers m).card) :
    TablesFound L m (f :: fs) (count + 1) m' res := by
  cases h with
  | all hlen hall hoffers =>
    rw [hp] at hall
    rw [Layout.set_setAll] at hoffers
    refine .all (by simp [hlen]) ?_ (by omega)
    intro g hg
    rcases List.mem_cons.mp hg with rfl | hg
    · exact hlim
    · exact hall g hg
  | outOfFrames hlen hno hoffers =>
    refine .outOfFrames (by simpa using hlen) ?_ (by omega)
    rwa [Layout.set_setAll] at hno
  | tooLarge hmem hle hoffers =>
    rw [hp] at hle
    exact .tooLarge (List.mem_cons_of_mem f hmem) hle (by omega)

theorem allocPrivateTables_sat {Q : List ℕ × Except PageTableMapError Unit → Machine → Prop}
    (hpt : TableOf m pt) (h : MemInv X L m) (user : Bool) (count : ℕ)
    (hQ : ∀ fs res m', TablesTaken X L m fs m' → TablesFound L m fs count m' res →
      Q (fs, res) m') :
    (pt.allocPrivateTables user count).Sat m Q E := by
  induction count generalizing L m Q with
  | zero =>
    refine hQ [] (.ok ()) m (TablesTaken.nil h) (.all rfl (by simp) ?_)
    rw [Layout.setAll_nil]
    rfl
  | succ count ih =>
    rw [PageTable.allocPrivateTables, Prog.sat_bind]
    refine h.alloc_sat ?_ ?_
    · intro hno
      have hempty : L.offers m = ∅ :=
        Finset.eq_empty_of_forall_notMem fun f hf => hno f (h.alloc.mem_offers.mp hf).1
      refine hQ [] (.error .outOfFrames) m (TablesTaken.nil h) (.outOfFrames (by simp) ?_ ?_)
      · rw [Layout.setAll_nil]
        exact hno
      · simp [hempty]
    · intro f m₁ hf hzero
      have hpt₁ := hpt.regs hf.only.regs
      have hp₁ := hf.only.regs.paging
      by_cases hlim : startAddress f < m.paging.physicalAddressLimit
      · have hlim' : startAddress f < pt.config.physicalAddressLimit := by rwa [hpt.config]
        simp only [newTable_eq user hlim', Prog.sat_bind]
        refine ih hpt₁ hf.inv ?_
        intro fs res m' ht hres
        have hcard := hf.takes.card_offers h.alloc rfl hf.inv.alloc hp₁ hlim
        refine hQ (f :: fs) res m' ?_ (hres.cons hp₁ hlim hcard)
        have hnot : f ∉ fs := by
          intro hmem
          have := ht.free f hmem
          rw [Layout.set_role_self] at this
          cases this
        have hne : ∀ g, g ∉ f :: fs → g ≠ f ∧ g ∉ fs := fun g hg => by simpa using hg
        refine ⟨?_, List.nodup_cons.mpr ⟨hnot, ht.nodup⟩, ?_, hf.only.trans ht.only, ?_, ?_, ?_⟩
        · rw [← Layout.set_setAll]
          exact ht.inv
        · intro g hg
          rcases List.mem_cons.mp hg with rfl | hmem
          · exact hf.free
          · have hgf : g ≠ f := fun he => hnot (he ▸ hmem)
            rw [← Layout.set_role_of_ne L hgf (.data .spare)]
            exact ht.free g hmem
        · intro g hg hmem
          obtain ⟨hgf, hgs⟩ := hne g hmem
          rw [ht.words g (by rwa [Layout.set_role_of_ne L hgf]) hgs, hf.words g hg hgf]
        · intro g hg i
          rcases List.mem_cons.mp hg with rfl | hg
          · rw [ht.words g (by simp) hnot]
            exact hzero i
          · exact ht.zero g hg i
        · intro r q e
          rw [← Layout.set_setAll, ht.leaf, hf.leaf]
      · have hbig : pt.config.physicalAddressLimit ≤ startAddress f := by
          rw [hpt.config]
          omega
        simp only [newTable_error user hbig, Prog.sat_pure]
        have hempty := hf.takes.next.offers_empty h.alloc (not_lt.mp hlim)
        refine hQ [f] _ m₁ ?_ (.tooLarge List.mem_cons_self (not_lt.mp hlim) (by simp [hempty]))
        refine ⟨?_, List.nodup_singleton f, ?_, hf.only, ?_, ?_, ?_⟩
        · rw [← Layout.set_setAll, Layout.setAll_nil]
          exact hf.inv
        · intro g hg
          rw [List.mem_singleton.mp hg]
          exact hf.free
        · intro g hg hmem
          exact hf.words g hg (by simpa using hmem)
        · intro g hg i
          rw [List.mem_singleton.mp hg]
          exact hzero i
        · intro r q e
          rw [← Layout.set_setAll, Layout.setAll_nil, hf.leaf]

/-- A write into a table that has not been published. -/
theorem MemInv.writeSpare (h : MemInv X L m) {g : ℕ} (hg : L.role g = .data .spare) (i : ℕ)
    (e : Word) : MemInv X L (m.withMem (m.mem.setWord g i e)).ticked := by
  refine (h.writeData _ ?_).tick
  intro x hx
  apply PhysMem.frame_setWord
  rintro rfl
  rcases hx with ⟨r', p', hx⟩ | hx
  · rw [hg] at hx
    cases hx
  · rw [hg] at hx
    cases hx

/-- The table `x` has one entry. -/
def Single (m : Machine) (user : Bool) (x : ℕ) : Prop :=
  ∃ i < 512, ∃ e, PageTableEntry.isPresent e = true ∧ PageTableEntry.isUserAccessible e = user ∧
    ∀ j, m.mem.word x j = if j = i then e else PageTableEntry.null

theorem linkPrivateTables_sat (va : ℕ) {Q : Except PageTableMapError Unit → Machine → Prop}
    (hpt : TableOf m pt) (h : MemInv X L m) {user : Bool} {g : ℕ} {gs : List ℕ}
    {levels : List PageTableLevel} (hlen : gs.length = levels.length)
    (hspare : ∀ x ∈ g :: gs, L.role x = .data .spare) (hnd : (g :: gs).Nodup)
    (hlims : ∀ x ∈ g :: gs, startAddress x < m.paging.physicalAddressLimit)
    (hzero : ∀ x ∈ g :: gs, ∀ j, m.mem.word x j = 0) {leafEntry : Word}
    (hpres : PageTableEntry.isPresent leafEntry = true)
    (huser : PageTableEntry.isUserAccessible leafEntry = user)
    (hQ : ∀ m', MemInv X L m' → Regs m m' → m'.allocator = m.allocator →
      (∀ x, x ∉ g :: gs → m'.mem.word x = m.mem.word x) →
      Chain (pteCodec m.paging) (pteShape m.paging.mode L.kroot) m'.mem.word (g :: gs)
        (levels.map fun l => l.index va) →
      (∀ x ∈ g :: gs, Single m' user x) →
      (∀ j, m'.mem.word ((g :: gs).getLast (by simp)) j =
        if j = p1Index va then leafEntry else 0) → Q (.ok ()) m') :
    (pt.linkPrivateTables va user leafEntry (g :: gs) levels).Sat m Q E := by
  induction gs generalizing g levels m with
  | nil =>
    cases levels with
    | cons l ls => simp at hlen
    | nil =>
      obtain ⟨v, hv⟩ := hpt.translate h.alloc (f := g) (by simp [hspare g, Role.state])
      simp only [PageTable.linkPrivateTables, hv, Prog.sat_bind, sat_storeEntry, Prog.sat_pure]
      have hword : ∀ j, (m.withMem (m.mem.setWord g (p1Index va) leafEntry)).ticked.mem.word g j =
          if j = p1Index va then leafEntry else 0 := by
        intro j
        simp [Machine.withMem, hzero g]
      refine hQ _ (h.writeSpare (hspare g (by simp)) _ _)
        ((withMem_regs _ _).trans (ticked_regs _)) rfl ?_ trivial ?_ hword
      · intro x hx
        exact PhysMem.frame_setWord _ (by simpa using hx) _ _
      · intro x hx
        rw [List.mem_singleton.mp hx]
        exact ⟨p1Index va, p1Index_lt va, leafEntry, hpres, huser, hword⟩
  | cons g' gs ih =>
    cases levels with
    | nil => simp at hlen
    | cons l ls =>
      have hg := hspare g (by simp)
      obtain ⟨v, hv⟩ := hpt.translate h.alloc (f := g) (by simp [hg, Role.state])
      have hlim := hlims g' (by simp)
      have hlim' : startAddress g' < pt.config.physicalAddressLimit := by rwa [hpt.config]
      obtain ⟨hnot, hnd'⟩ := List.nodup_cons.mp hnd
      simp only [PageTable.linkPrivateTables, newTable_eq _ hlim', hv, Prog.sat_bind,
        sat_storeEntry]
      have hregs₁ : Regs m (m.withMem (m.mem.setWord g (l.index va) (tableWord user g'))).ticked :=
        (withMem_regs _ _).trans (ticked_regs _)
      refine ih (hpt.regs hregs₁) (h.writeSpare hg _ _) (by simpa using hlen)
        (fun x hx => hspare x (by simp [hx])) hnd' (fun x hx => hlims x (by simp [hx])) ?_ ?_
      · intro x hx j
        have hxg : x ≠ g := by
          rintro rfl
          exact hnot hx
        rw [ticked_mem, Machine.withMem, PhysMem.frame_setWord _ hxg]
        exact hzero x (by simp [hx]) j
      · intro m' hinv hregs halloc hsame hchain hsingle hlast
        have hword : ∀ j, m'.mem.word g j =
            if j = l.index va then tableWord user g' else 0 := by
          intro j
          rw [hsame g hnot]
          simp [Machine.withMem, hzero g]
        refine hQ m' hinv (hregs₁.trans hregs) halloc ?_ ?_ ?_ ?_
        · intro x hx
          rw [hsame x (fun h => hx (by simp [h]))]
          exact PhysMem.frame_setWord _ (fun h => hx (by simp [h])) _ _
        · refine ⟨⟨user, by rw [hword, if_pos rfl]⟩, ?_, level_index_lt l va, ?_⟩
          · intro j _ hj
            rw [hword, if_neg hj]
            exact (pteCodec m.paging).not_live_dead
          · have hp := hregs₁.paging
            rw [hp] at hchain
            exact hchain
        · intro x hx
          rcases List.mem_cons.mp hx with rfl | hx
          · exact ⟨l.index va, level_index_lt l va, _, tableWord_isPresent _ hlim,
              tableWord_isUserAccessible _ hlim, hword⟩
          · exact hsingle x hx
        · intro j
          have := hlast j
          simpa [List.getLast_cons (List.cons_ne_nil g' gs)] using this

/-- The flush at the end of `map` and `unmap`. -/
theorem flush_sat {Q : Unit → Machine → Prop} (h : MemInv X L m) (pt : PageTable) (page : ℕ)
    (hX : ∀ v, X.pages v → v = page ∧ m.cr3 = pt.frame) (hempty : ∀ f, ¬ X.empty f)
    (hQ : ∀ m', MemInv (steady X.mixed) L m' → Regs m m' → m'.mem = m.mem →
      m'.allocator = m.allocator → Q () m') :
    (pt.flushTlbIfActive page).Sat m Q E := by
  have hpt : PtInv (steady X.mixed).empty L m :=
    h.toPtInv.refill fun f _ _ _ _ _ he => absurd he (hempty f)
  simp only [PageTable.flushTlbIfActive, Prog.sat_bind, Prog.sat_get]
  by_cases hactive : m.cr3 = pt.frame
  · have hyes : pt.isActive m = true := by simpa [PageTable.isActive] using hactive
    rw [if_pos hyes]
    simp only [Prog.sat_bind, Prog.sat_modify, sat_tick]
    have hflushed : MemInv (steady X.mixed) L
        { m with tlb := m.tlb.filter fun e => e.page ≠ page } := by
      refine ⟨hpt.registers rfl rfl rfl, h.bound, ?_⟩
      intro hx
      obtain ⟨hlower, hflags, hact, htlb⟩ := h.halves hx
      refine ⟨hlower, hflags, hact, ?_⟩
      intro t ht hp _
      obtain ⟨htm, hne⟩ := List.mem_filter.mp ht
      exact htlb t htm hp (fun hx => by simp [(hX _ hx).1] at hne)
    exact hQ _ hflushed.tick ⟨rfl, rfl, rfl, rfl, rfl, rfl, rfl, rfl⟩ rfl rfl
  · have hno : ¬ pt.isActive m = true := by simpa [PageTable.isActive] using hactive
    rw [if_neg hno]
    refine hQ m ⟨hpt, h.bound, ?_⟩ (Regs.refl m) rfl rfl
    intro hx
    obtain ⟨hlower, hflags, hact, htlb⟩ := h.halves hx
    exact ⟨hlower, hflags, hact,
      fun t ht hp _ => htlb t ht hp (fun hv => hactive (hX _ hv).2)⟩

/-- The arguments of `map` pass its checks; `e` is the leaf to be written. -/
structure MapChecks (m : Machine) (va frame : ℕ) (e : Word) : Prop where
  canonical : m.paging.mode.isCanonical va = true
  aligned : va % PAGE_SIZE = 0
  limit : startAddress frame < m.paging.physicalAddressLimit
  execute : PageTableEntry.executable e = true ∨ m.paging.nxEnabled = true

/-- Why `map` can refuse a page. -/
inductive MapRefused (L : Layout) (m : Machine) (r va frame : ℕ) (e : Word) :
    PageTableMapError → Prop where
  | notCanonical : m.paging.mode.isCanonical va = false →
      MapRefused L m r va frame e .invalidVirtualAddress
  | unaligned : va % PAGE_SIZE ≠ 0 → MapRefused L m r va frame e .virtualAddressUnaligned
  | tooLarge : m.paging.physicalAddressLimit ≤ startAddress frame →
      MapRefused L m r va frame e .physicalAddressTooLarge
  | tableTooLarge {f : ℕ} : MapChecks m va frame e →
      (∀ e', ¬ LeafAt L m r (pagePath m.paging.mode va) e') → L.role f = .free →
      m.paging.physicalAddressLimit ≤ startAddress f → (L.offers m).card < m.missing r va →
      MapRefused L m r va frame e .physicalAddressTooLarge
  | noExecute : PageTableEntry.executable e = false → m.paging.nxEnabled = false →
      MapRefused L m r va frame e .noExecuteUnsupported
  | mapped {e' : Word} : MapChecks m va frame e → LeafAt L m r (pagePath m.paging.mode va) e' →
      MapRefused L m r va frame e .pageAlreadyMapped
  | outOfFrames : MapChecks m va frame e → (∀ e', ¬ LeafAt L m r (pagePath m.paging.mode va) e') →
      m.allocator.freeFrames < m.missing r va → (L.offers m).card < m.missing r va →
      MapRefused L m r va frame e .outOfFrames

/-- The result of `map`: nothing but free frames has changed, or one leaf is new. -/
structure MapPost (mixed : Prop) (L : Layout) (m : Machine) (r va frame : ℕ) (e : Word)
    (res : Except PageTableMapError Unit) (L' : Layout) (m' : Machine) : Prop where
  inv : MemInv (steady mixed) L' m'
  edit : Edit (Role.Lent r) r L m L' m'
  kept : ∀ f, L.role f ≠ .free → L'.role f = L.role f
  failed : ∀ err, res = .error err → L' = L ∧ MapRefused L m r va frame e err ∧
    (∀ r' q e', LeafAt L' m' r' q e' ↔ LeafAt L m r' q e') ∧
    ∀ f, L.role f ≠ .storage → L.role f ≠ .free → m'.mem.word f = m.mem.word f
  done : res = .ok () → m.paging.mode.isCanonical va = true ∧ va % PAGE_SIZE = 0 ∧
    startAddress frame < m.paging.physicalAddressLimit ∧
    (∀ e', ¬ LeafAt L m r (pagePath m.paging.mode va) e') ∧
    ∀ r' q e', LeafAt L' m' r' q e' ↔
      if r' = r ∧ q = pagePath m.paging.mode va then e' = e else LeafAt L m r' q e'
  room : res = .ok () → m.missing r va ≤ m.allocator.freeFrames ∧
    (L'.offers m').card + m.missing r va = (L.offers m).card ∧
    (PageTableEntry.executable e = true ∨ m.paging.nxEnabled = true)

theorem MapPost.refuse {mixed : Prop} (h : MemInv (steady mixed) L m) {frame : ℕ} {e : Word}
    {err : PageTableMapError} (herr : MapRefused L m r va frame e err) :
    MapPost mixed L m r va frame e (.error err) L m :=
  ⟨h, Edit.refl _ _ _ _, fun _ _ => rfl,
    fun err' he => by cases he; exact ⟨rfl, herr, fun _ _ _ => Iff.rfl, fun _ _ _ => rfl⟩,
    nofun, nofun⟩

/-- Tables that are not used are given back, and `map` has changed nothing. -/
theorem TablesTaken.giveBack_sat {mixed : Prop} {Q : Unit → Machine → Prop} {fs : List ℕ}
    {m₁ : Machine} (h : TablesTaken (steady mixed) L m fs m₁) {frame : ℕ} {e : Word}
    {err : PageTableMapError} (herr : MapRefused L m r va frame e err)
    (hQ : ∀ m', MapPost mixed L m r va frame e (.error err) L m' → Q () m') :
    (FrameAllocator.deallocAll fs.reverse).Sat m₁ Q E := by
  refine h.inv.deallocAll_sat (List.nodup_reverse.mpr h.nodup)
    (fun f hf => ⟨.spare, Layout.setAll_role_of_mem (List.mem_reverse.mp hf) _⟩) ?_
  intro m₂ h₂ honly₂ hwords₂ hleaf₂
  have hback : (L.setAll fs (.data .spare)).setAll fs.reverse .free = L := by
    simp only [Layout.setAll, List.mem_reverse]
    congr 1
    funext f
    by_cases hf : f ∈ fs
    · simp [hf, h.free f hf]
    · simp [hf]
  rw [hback] at h₂ hleaf₂
  have hkept : ∀ f, L.role f ≠ .storage → L.role f ≠ .free → m₂.mem.word f = m.mem.word f := by
    intro f hs hf
    have hmem : f ∉ fs := fun hm => hf (h.free f hm)
    rw [hwords₂ f (by rwa [Layout.setAll_role_of_not_mem hmem]), h.words f hs hmem]
  refine hQ m₂ ⟨h₂, ⟨(h.only.trans honly₂).regs, rfl, fun _ => .inl rfl,
    fun f hf hs _ => hkept f hs fun he => hf (.inl he)⟩, fun _ _ => rfl, ?_, by simp, by simp⟩
  intro err' he
  cases he
  exact ⟨rfl, herr, fun r' q e' => (hleaf₂ r' q e').trans (h.leaf r' q e'), hkept⟩

/-- A change of the root's own entries is harmless, or there is a table below the
root entry of the page already. -/
def RootSafe (L : Layout) (r i : ℕ) : Prop := RootFree L r [] ∨ ∃ g, L.role g = .table r [i]

theorem root_free_of_missing (ht : Tree L m) (hsafe : RootSafe L r (rootIndex m.paging.mode va))
    {f' : ℕ} {pre below : List PageTableLevel} {level : PageTableLevel}
    (hsplit : m.paging.mode.intermediateLevels = pre ++ level :: below)
    (hf' : L.role f' = .table r ((pre.map fun l => l.index va).reverse ++ []))
    (hdead : PageTableEntry.isPresent (m.mem.word f' (level.index va)) = false) :
    RootFree L r ((pre.map fun l => l.index va).reverse ++ []) := by
  rcases hsafe with hfree | ⟨g, hg⟩
  · rcases hfree with h | h | h
    · exact absurd rfl h
    · exact .inr (.inl h)
    · exact .inr (.inr h)
  · cases pre with
    | cons l pre => exact .inl (by simp)
    | nil =>
      have hroot : rootIndex m.paging.mode va = level.index va := by
        simp [rootIndex, tableIndices, hsplit]
      have hlive := ht.child_live (Layout.typing_some.mpr hf')
        (Layout.typing_some.mpr (hroot ▸ hg))
      simp [pteCodec, hdead] at hlive

/-- What the callers of `map` keep to: user pages go to user roots and the kernel's
pages to the kernel's root, unless there is one root only. -/
structure MapSite (mixed : Prop) (L : Layout) (m : Machine) (r va : ℕ) (user isGlobal : Bool) :
    Prop where
  owned : r = L.kroot ∨ rootIndex m.paging.mode va < 256
  lower : ¬ mixed → rootIndex m.paging.mode va < 256 → r ≠ L.kroot ∧ isGlobal = false
  safe : RootSafe L r (rootIndex m.paging.mode va)
  apart : ¬ mixed → user = decide (r ≠ L.kroot)
  sole : mixed → ∀ p, RootFree L r p

/-- The upgrades that a walk has collected can be made. -/
theorem MapSite.upgradable {mixed : Prop} {user isGlobal : Bool}
    (hsite : MapSite mixed L m r va user isGlobal) (h : MemInv (steady mixed) L m) {q : List ℕ}
    {us : List EntryLocation} (hus : Upgrades L m r user q us) :
    us = [] ∨ mixed ∧ ∀ p, RootFree L r p := by
  by_cases hx : mixed
  · exact .inr ⟨hx, hsite.sole hx⟩
  · exact .inl (hus.empty h.tree (h.halves hx) (hsite.apart hx))

theorem Upgrades.congr {user : Bool} {q : List ℕ} {us : List EntryLocation} {L' : Layout}
    {m' : Machine} (h : Upgrades L m r user q us)
    (hrole : ∀ f p, L'.role f = .table r p ↔ L.role f = .table r p)
    (hwords : ∀ f p, L.role f = .table r p → m'.mem.word f = m.mem.word f) :
    Upgrades L' m' r user q us := by
  refine ⟨?_, ?_⟩
  · intro u hu
    obtain ⟨hyes, hno, p, g, hp, hg⟩ := h.entries u hu
    exact ⟨hyes, by rwa [hwords _ p hp], p, g, (hrole _ _).mpr hp, (hrole _ _).mpr hg⟩
  · intro hyes i p f hs hf
    rw [hrole] at hf
    rw [hwords f p hf]
    exact h.covers hyes i p f hs hf

theorem RootFree.setAll {p : List ℕ} (h : RootFree L r p) (fs : List ℕ) :
    RootFree (L.setAll fs (.data .spare)) r p := by
  rcases h with h | h | h
  · exact .inl h
  · exact .inr (.inl h)
  · refine .inr (.inr ?_)
    intro r' hr'
    by_cases hmem : r' ∈ fs
    · rw [Layout.setAll_role_of_mem hmem] at hr'
      cases hr'
    · rw [Layout.setAll_role_of_not_mem hmem] at hr'
      exact h r' hr'

theorem mapMissing_sat {mixed : Prop} {Q : Except PageTableMapError Unit → Machine → Prop}
    (hpt : TableOf m pt) (h : MemInv (steady mixed) L m) {frame : ℕ} {leafEntry : Word}
    {user isGlobal : Bool} (hpres : PageTableEntry.isPresent leafEntry = true)
    (huser : PageTableEntry.isUserAccessible leafEntry = user)
    (hglobal : isGlobal = false → PageTableEntry.isGlobal leafEntry = false)
    (hsite : MapSite mixed L m r va user isGlobal) (hchecks : MapChecks m va frame leafEntry)
    {f' : ℕ} {pre below : List PageTableLevel} {level : PageTableLevel} {us : List EntryLocation}
    (hsplit : m.paging.mode.intermediateLevels = pre ++ level :: below)
    (hmissing : m.missing r va = below.length + 1)
    (hf' : L.role f' = .table r ((pre.map fun l => l.index va).reverse ++ []))
    (hdead : PageTableEntry.isPresent (m.mem.word f' (level.index va)) = false)
    (hus : Upgrades L m r user ((pre.map fun l => l.index va).reverse ++ []) us)
    (hQ : ∀ res L' m', MapPost mixed L m r va frame leafEntry res L' m' → Q res m') :
    (pt.mapMissing va user leafEntry ⟨f', level.index va⟩ below us).Sat m Q E := by
  have hpath : pagePath m.paging.mode va = p1Index va ::
      ((below.map fun l => l.index va).reverse ++ level.index va ::
        ((pre.map fun l => l.index va).reverse ++ [])) := by
    simp [pagePath, tableIndices, hsplit]
  have hlast : (pagePath m.paging.mode va).getLast? = some (rootIndex m.paging.mode va) :=
    pagePath_getLast _ _
  have hnoleaf : ∀ e', ¬ LeafAt L m r (pagePath m.paging.mode va) e' := by
    intro e' hl
    rw [hpath] at hl
    obtain ⟨_, _, _, t, ht, _⟩ := hl
    obtain ⟨g, hg⟩ := h.tree.ancestor ht
    have hlive := h.tree.child_live (Layout.typing_some.mpr hf') hg
    simp [pteCodec, hdead] at hlive
  have hup := hsite.upgradable h hus
  rw [PageTable.mapMissing, Prog.sat_bind]
  refine allocPrivateTables_sat hpt h _ _ ?_
  intro fs res m₁ htaken hres
  obtain ⟨h₁, hnd, hfree, honly, hwords, hzero, hleaf⟩ := id htaken
  have hfs : ∀ f ∈ fs, (L.setAll fs (.data .spare)).role f = .data .spare :=
    fun f hf => Layout.setAll_role_of_mem hf _
  have hcard := card_setAll hnd hfree
    (fun f hf => h.alloc.lt_of_allocated (f := f) (by simp [hfree f hf, Role.state]))
  rw [← h.alloc.count] at hcard
  -- the frames of the new tables were free, so that no table changes its role
  have hrole : ∀ f p, (L.setAll fs (.data .spare)).role f = .table r p ↔ L.role f = .table r p := by
    intro f p
    by_cases hmem : f ∈ fs
    · rw [hfs f hmem, hfree f hmem]
      simp
    · rw [Layout.setAll_role_of_not_mem hmem]
  rcases hres with ⟨hlen, hlims, hoffers⟩ | ⟨hlen, hno, hoffers⟩ | ⟨hmem, hbig, hoffers⟩
  · obtain ⟨g, gs, rfl⟩ : ∃ g gs, fs = g :: gs := by
      cases fs with
      | nil => simp at hlen
      | cons g gs => exact ⟨g, gs, rfl⟩
    have hgs : gs.length = below.length := by simpa using hlen
    have hpt₁ := hpt.regs honly.regs
    simp only [Prog.sat_bind]
    refine linkPrivateTables_sat va hpt₁ h₁ hgs hfs hnd
      (by rw [honly.regs.paging]; exact hlims) hzero hpres huser ?_
    intro m₂ h₂ hregs₂ halloc₂ hsame₂ hchain hsingle hlastw
    have hregs : Regs m m₂ := honly.regs.trans hregs₂
    have hpt₂ := hpt.regs hregs
    have htable : ∀ f p, L.role f = .table r p → f ∉ g :: gs ∧ m₂.mem.word f = m.mem.word f := by
      intro f p hf
      have hnot : f ∉ g :: gs := by
        intro hmem
        rw [hfree f hmem] at hf
        cases hf
      exact ⟨hnot, by rw [hsame₂ f hnot, hwords f (by simp [hf]) hnot]⟩
    have hlim' : startAddress g < pt.config.physicalAddressLimit := by
      rw [hpt.config]
      exact hlims g (by simp)
    simp only [List.headD_cons, newTable_eq _ hlim', Prog.sat_bind]
    have hus₂ := hus.congr hrole fun f p hf => (htable f p hf).2
    refine applyUserUpgrades_sat hpt₂ h₂ (fun u hu => (hus₂.entries u hu).2.2) ?_ ?_
    · exact hup.imp_right fun hx => ⟨hx.1, fun p => (hx.2 p).setAll _⟩
    intro m₃ hup₃
    have hregs₃ : Regs m m₃ := hregs.trans hup₃.regs
    have hp₃ : m₃.paging = m.paging := hregs₃.paging
    have hchain₃ : ∀ x ∈ g :: gs, m₃.mem.word x = m₂.mem.word x := by
      intro x hx
      refine hup₃.words x ?_
      intro p hp
      rw [hfs x hx] at hp
      cases hp
    have hsingle₃ : ∀ x ∈ g :: gs, Single m₃ user x := by
      intro x hx
      obtain ⟨i, hi, e, he, hu, hw⟩ := hsingle x hx
      exact ⟨i, hi, e, he, hu, fun j => by rw [hchain₃ x hx]; exact hw j⟩
    have hlastw₃ : ∀ j, m₃.mem.word ((g :: gs).getLast (by simp)) j =
        if j = p1Index va then leafEntry else 0 := by
      intro j
      rw [hchain₃ _ (List.getLast_mem _)]
      exact hlastw j
    have hf'₂ := (hrole f' _).mpr hf'
    obtain ⟨v, hv⟩ := (hpt.regs hregs₃).translate hup₃.inv.alloc (f := f')
      (by simp [hf'₂, Role.state])
    have howned : (pre.map fun l => l.index va).reverse ++ [] = [] →
        r = L.kroot ∨ level.index va < 256 := by
      intro hp
      have hpre : pre = [] := by simpa using hp
      have : rootIndex m.paging.mode va = level.index va := by
        simp [rootIndex, tableIndices, hsplit, hpre]
      rw [← this]
      exact hsite.owned
    obtain ⟨hinv₄, hleaf₄⟩ := hup₃.inv.attachChain user hf'₂ (level_index_lt level va) howned
      ((root_free_of_missing h.tree hsite.safe hsplit hf' hdead).setAll _)
      (by rw [hup₃.present, (htable f' _ hf').2, hdead])
      (show Chain _ _ _ _ (below.map fun l => l.index va) by
        rw [hp₃]
        rw [hregs₂.paging.symm.trans hregs.paging] at hchain
        exact hchain.congr fun x hx => hchain₃ x hx)
      (by
        have hl := congrArg List.length hsplit
        simp only [List.length_append, List.length_cons] at hl
        rw [hp₃]
        simp
        omega)
      (by simpa using hgs) hnd hfs (by rw [hp₃]; exact hlims)
      (by
        intro x hx j _ hd
        obtain ⟨i, _, e, he, _, hw⟩ := hsingle₃ x hx
        rw [hw] at hd ⊢
        split_ifs at hd ⊢
        · rw [he] at hd
          cases hd
        · rfl)
      (by
        intro x hx
        obtain ⟨i, hi, e, he, _, hw⟩ := hsingle₃ x hx
        exact ⟨i, hi, by rw [hw, if_pos rfl, he]⟩)
      (by
        intro x hx j hp
        obtain ⟨i, _, e, _, hu, hw⟩ := hsingle₃ x hx
        rw [hw] at hp ⊢
        split_ifs at hp ⊢
        · exact hu
        · rw [null_isPresent] at hp
          cases hp)
      (hup₃.path hus₂) hsite.apart
      (by
        intro hx j e' hp' he' y hy hy'
        rw [hlastw₃ j] at he'
        split_ifs at he' with hj
        · rw [hj] at hy
          rw [← hpath, hlast] at hy
          cases hy
          obtain ⟨hk, hg⟩ := hsite.lower hx hy'
          exact he' ▸ ⟨hk, hglobal hg⟩
        · rw [← he'] at hp'
          simp [null_isPresent, ← show PageTableEntry.null = (0 : Word) from rfl] at hp')
    simp only [PageTable.writeEntry, hv, Prog.sat_bind, Prog.sat_expect_some, sat_storeEntry]
    refine flush_sat hinv₄.tick pt va (fun v hv => hv.elim) (fun f hf => hf) ?_
    intro m₅ hinv₅ hregs₅ hmem₅ halloc₅
    have hroles := fun x => publish_role (L.setAll (g :: gs) (.data .spare)) r
      (level.index va :: ((pre.map fun l => l.index va).reverse ++ []))
      (g :: gs) (below.map fun l => l.index va) (by simp [hgs]) (by simp) x
    have hsame : _ = (L.setAll (g :: gs) (.data .spare)).offers m₁ :=
      h₁.alloc.offers_congr hinv₅.alloc (fun x => ?free)
        (hregs₅.paging.trans (hup₃.regs.paging.trans hregs₂.paging)) (by
          rw [halloc₅, ← halloc₂, ← hup₃.allocator]
          rfl)
    case free =>
      by_cases hmem : x ∈ g :: gs
      · obtain ⟨p', _, hrole'⟩ := (hroles x).2 hmem
        rw [hrole', hfs x hmem]
        simp
      · rw [(hroles x).1 hmem]
    refine hQ (.ok ()) _ m₅ ⟨hinv₅, ⟨?_, by simp, ?_, ?_⟩, ?_, by simp, fun _ =>
      ⟨hchecks.canonical, hchecks.aligned, hchecks.limit, hnoleaf, ?_⟩,
      fun _ => ⟨by omega, by rw [hsame, hmissing, hoffers], hchecks.execute⟩⟩
    · exact hregs₃.trans (((withMem_regs _ _).trans (ticked_regs _)).trans hregs₅)
    · intro x
      by_cases hmem : x ∈ g :: gs
      · obtain ⟨p', hp', hrole'⟩ := (hroles x).2 hmem
        exact .inr ⟨.inl (hfree x hmem), .inr ⟨p', hp', hrole'⟩⟩
      · left
        rw [(hroles x).1 hmem, Layout.setAll_role_of_not_mem hmem]
    · intro x hx hs hr'
      have hmem : x ∉ g :: gs := fun hm => hx (.inl (hfree x hm))
      have hnot : ∀ p, L.role x ≠ .table r p := by
        intro p hp
        by_cases hnil : p = []
        · exact hr' (hnil ▸ hp)
        · exact hx (.inr ⟨p, hnil, hp⟩)
      have hxf : x ≠ f' := by
        rintro rfl
        exact hnot _ hf'
      rw [hmem₅, ticked_mem, Machine.withMem, PhysMem.frame_setWord _ hxf,
        hup₃.words x (fun p hp => hnot p ((hrole x p).mp hp)), hsame₂ x hmem, hwords x hs hmem]
    · intro x hx
      have hmem : x ∉ g :: gs := fun hm => hx (hfree x hm)
      rw [(hroles x).1 hmem, Layout.setAll_role_of_not_mem hmem]
    · intro r' q e'
      have hl₅ : LeafAt ((L.setAll (g :: gs) (.data .spare)).publish r
          (level.index va :: ((pre.map fun l => l.index va).reverse ++ [])) (g :: gs)
          (below.map fun l => l.index va)) m₅ r' q e' ↔ _ :=
        (leafAt_congr rfl rfl (by rw [hregs₅.paging]; rfl)
          (fun f _ _ _ => by rw [hmem₅]; rfl) r' q e').trans (hleaf₄ r' q e')
      have hl₂ : LeafAt (L.setAll (g :: gs) (.data .spare)) m₂ r' q e' ↔ LeafAt L m r' q e' := by
        refine (leafAt_congr rfl rfl hregs₂.paging ?_ r' q e').trans (hleaf r' q e')
        intro f r'' p'' hf
        apply hsame₂
        intro hmem
        rw [hfs f hmem] at hf
        cases hf
      rw [hl₅, hup₃.leaf, hl₂, hpath]
      constructor
      · rintro (hl | ⟨j, _, rfl, rfl, hp', he'⟩)
        · rw [if_neg]
          · exact hl
          rintro ⟨rfl, rfl⟩
          exact hnoleaf e' (hpath ▸ hl)
        · rw [hlastw₃ j] at he'
          split_ifs at he' with hj
          · rw [if_pos ⟨rfl, by rw [hj]⟩]
            exact he'.symm
          · rw [← he'] at hp'
            simp [null_isPresent, ← show PageTableEntry.null = (0 : Word) from rfl] at hp'
      · intro hl
        split_ifs at hl with hsame
        · obtain ⟨rfl, rfl⟩ := hsame
          right
          exact ⟨p1Index va, p1Index_lt va, rfl, rfl, hl ▸ hpres,
            by rw [hlastw₃, if_pos rfl, hl]⟩
        · exact .inl hl
  · have hnone : (L.setAll fs (.data .spare)).freeSet m.frameCount = ∅ := by
      refine Finset.filter_eq_empty_iff.mpr ?_
      intro f _ hf
      exact hno f (Role.state_free.mp hf)
    rw [hnone, Finset.card_empty] at hcard
    simp only [Prog.sat_bind, Prog.sat_pure]
    exact htaken.giveBack_sat (.outOfFrames hchecks hnoleaf (by omega) (by omega)) (hQ _ L)
  · simp only [Prog.sat_bind, Prog.sat_pure]
    exact htaken.giveBack_sat (.tableTooLarge hchecks hnoleaf (hfree _ hmem) hbig (by omega))
      (hQ _ L)

/-- The write of `map` where the page table exists already. -/
theorem mapComplete_sat {mixed : Prop} {Q : Except PageTableMapError Unit → Machine → Prop}
    (hpt : TableOf m pt) (h : MemInv (steady mixed) L m) {frame : ℕ} {leafEntry : Word}
    {user isGlobal : Bool} (hpres : PageTableEntry.isPresent leafEntry = true)
    (huser : PageTableEntry.isUserAccessible leafEntry = user)
    (hglobal : isGlobal = false → PageTableEntry.isGlobal leafEntry = false)
    (hsite : MapSite mixed L m r va user isGlobal) (hchecks : MapChecks m va frame leafEntry)
    {t : ℕ} {us : List EntryLocation}
    (ht : L.role t = .table r (tableIndices m.paging.mode va).reverse)
    (hmissing : m.missing r va = 0)
    (hdead : PageTableEntry.isPresent (m.mem.word t (p1Index va)) = false)
    (hus : Upgrades L m r user (tableIndices m.paging.mode va).reverse us)
    (hQ : ∀ res L' m', MapPost mixed L m r va frame leafEntry res L' m' → Q res m') :
    (do
      pt.applyUserUpgrades us
      pt.writeEntry .tableLeftDirectMap ⟨t, p1Index va⟩ leafEntry
      pt.flushTlbIfActive va
      pure (.ok ()) : MM (Except PageTableMapError Unit)).Sat m Q E := by
  have hne : (tableIndices m.paging.mode va).reverse ≠ [] := by
    intro he
    have := congrArg List.length he
    simp only [List.length_reverse, tableIndices_length, List.length_nil] at this
    have := levels_pos m.paging.mode
    omega
  have hnoleaf : ∀ e', ¬ LeafAt L m r (pagePath m.paging.mode va) e' := by
    intro e' hl
    obtain ⟨_, _, hlive, he⟩ := (Leaf.of_table h.tree (Layout.typing_some.mpr ht)).mp hl
    rw [← he] at hlive
    simp [pteCodec, hdead] at hlive
  rw [Prog.sat_bind]
  refine applyUserUpgrades_sat hpt h (fun u hu => (hus.entries u hu).2.2)
    (hsite.upgradable h hus) ?_
  intro m₁ hup
  have hpt₁ := hpt.regs hup.regs
  have hp₁ := hup.regs.paging
  obtain ⟨v, hv⟩ := hpt₁.translate hup.inv.alloc (f := t) (by simp [ht, Role.state])
  have hdead₁ : PageTableEntry.isPresent (m₁.mem.word t (p1Index va)) = false := by
    rw [hup.present, hdead]
  obtain ⟨hinv, hleaf⟩ := hup.inv.setLeaf (steady mixed) rfl ht (by simp [hp₁]) (p1Index_lt va)
    leafEntry
    (by
      intro hd
      rw [hpres] at hd
      cases hd)
    (by
      intro hu
      exact hup.path hus (by rw [← huser, hu]))
    (by
      intro hx _ j hj hj'
      have hlast : (pagePath m.paging.mode va).getLast? = some (rootIndex m.paging.mode va) :=
        pagePath_getLast _ _
      rw [pagePath, hj] at hlast
      cases hlast
      obtain ⟨hk, hg⟩ := hsite.lower hx hj'
      exact ⟨hk, hglobal hg⟩)
    (.inl hdead₁) (fun v hv => hv) (fun g hg => hg)
  simp only [Prog.sat_bind, Prog.sat_pure, PageTable.writeEntry, hv, Prog.sat_expect_some,
    sat_storeEntry]
  refine flush_sat hinv.tick pt va (fun v hv => hv.elim) (fun f hf => hf) ?_
  intro m₂ hinv₂ hregs₂ hmem₂ halloc₂
  have hregs : Regs m m₂ :=
    hup.regs.trans (((withMem_regs _ _).trans (ticked_regs _)).trans hregs₂)
  have hsame : L.offers m₂ = L.offers m :=
    h.alloc.offers_congr hinv₂.alloc (fun _ => Iff.rfl) hregs.paging (by
      rw [halloc₂, ← hup.allocator]
      rfl)
  refine hQ (.ok ()) L m₂ ⟨hinv₂, ⟨hregs, rfl, fun _ => .inl rfl, ?_⟩, fun _ _ => rfl, by simp,
    fun _ => ⟨hchecks.canonical, hchecks.aligned, hchecks.limit, hnoleaf, ?_⟩,
    fun _ => ⟨by omega, by rw [hsame, hmissing, Nat.add_zero], hchecks.execute⟩⟩
  · intro f hf _ hf'
    have hnot : ∀ p, L.role f ≠ .table r p := by
      intro p hp
      by_cases hnil : p = []
      · exact hf' (hnil ▸ hp)
      · exact hf (.inr ⟨p, hnil, hp⟩)
    rw [hmem₂, ticked_mem, Machine.withMem, PhysMem.frame_setWord, hup.words f hnot]
    rintro rfl
    exact hnot _ ht
  · intro r' q e'
    refine (leafAt_congr rfl rfl hregs₂.paging (fun f _ _ _ => by rw [hmem₂]) r' q e').trans ?_
    refine (hleaf r' q e').trans ?_
    rw [pagePath, hup.leaf]
    split_ifs with hsame
    · exact ⟨fun h => h.1, fun h => ⟨h, hpres⟩⟩
    · exact Iff.rfl

/-- `PageTable::map`. -/
theorem map_sat {mixed : Prop} {Q : Except PageTableMapError Unit → Machine → Prop}
    (hpt : TableOf m pt) (hroot : pt.frame = r) (h : MemInv (steady mixed) L m)
    (hr : L.role r = .table r []) {frame : ℕ} {permissions : PagePermissions}
    {cachePolicy : CachePolicy} {isGlobal : Bool}
    (hsite : m.paging.mode.isCanonical va = true →
      MapSite mixed L m r va permissions.userAccessible isGlobal)
    (hQ : ∀ res L' m', MapPost mixed L m r va frame
      (leafWord frame permissions cachePolicy (isGlobal && m.paging.globalPages)) res L' m' →
      Q res m') :
    (pt.map va frame permissions cachePolicy isGlobal).Sat m Q E := by
  have hcan : pt.isCanonical va = m.paging.mode.isCanonical va := by
    rw [PageTable.isCanonical, hpt.config]
  rw [PageTable.map, hcan]
  cases hc : m.paging.mode.isCanonical va with
  | false => exact hQ _ L m (MapPost.refuse h (.notCanonical hc))
  | true =>
    replace hsite := hsite hc
    simp only [Bool.not_true, Bool.false_eq_true, if_false]
    by_cases hal : va % PAGE_SIZE = 0
    · rw [if_neg (by simpa using hal), hpt.config]
      by_cases hlim : startAddress frame < m.paging.physicalAddressLimit
      · have hexec := executable_leafWord permissions cachePolicy
          (isGlobal && m.paging.globalPages) hlim
        cases hnew : PageTableEntry.new (startAddress frame) permissions cachePolicy m.paging
            isGlobal with
        | error err =>
          obtain ⟨rfl, hx, hnx⟩ := new_error hlim hnew
          exact hQ _ L m (MapPost.refuse h (.noExecute (by rw [hexec, hx]) hnx))
        | ok leafEntry =>
          obtain ⟨_, he⟩ := new_eq hnew
          rw [← he] at hQ hexec
          have hchecks : MapChecks m va frame leafEntry :=
            ⟨hc, hal, hlim, by rw [hexec]; exact new_execute hnew⟩
          have hpres : PageTableEntry.isPresent leafEntry = true := by
            rw [he]
            exact leafWord_isPresent _ _ _ hlim
          have huser : PageTableEntry.isUserAccessible leafEntry = permissions.userAccessible := by
            have hperm := leafWord_permissions permissions cachePolicy
              (isGlobal && m.paging.globalPages) hlim
            rw [he]
            exact congrArg PagePermissions.userAccessible hperm
          have hglobal : isGlobal = false → PageTableEntry.isGlobal leafEntry = false := by
            intro hg
            rw [he, leafWord_isGlobal _ _ _ hlim, hg, Bool.false_and]
          have hlevels : ∀ l ∈ m.paging.mode.intermediateLevels.head?,
              r = L.kroot ∨ l.index va < 256 := by
            intro l hl
            have : rootIndex m.paging.mode va = l.index va := by
              simp [rootIndex, tableIndices, Option.mem_def.mp hl]
            exact this ▸ hsite.owned
          simp only [Prog.sat_bind, Prog.sat_get, hroot]
          rcases mapWalk_cases hpt h.alloc h.tree permissions.userAccessible hr
              m.paging.mode.intermediateLevels (by simp) (fun _ => hlevels) (Upgrades.nil _) with
            ⟨t, us, hw, hmiss, ht, hus⟩ | ⟨f', pre, level, below, us, hsplit, hw, hmiss, hf', hdead, hus⟩
          · rw [List.append_nil] at ht hus
            simp only [hw, hpt.entries h.alloc ht]
            cases hdead : PageTableEntry.isPresent (m.mem.word t (p1Index va)) with
            | true =>
              have hl : LeafAt L m r (pagePath m.paging.mode va) (m.mem.word t (p1Index va)) :=
                ⟨p1Index_lt va, by simp [pteShape], hdead, t, Layout.typing_some.mpr ht, rfl⟩
              exact hQ _ L m (MapPost.refuse h (.mapped hchecks hl))
            | false =>
              simp only [Bool.false_eq_true, if_false]
              exact mapComplete_sat hpt h hpres huser hglobal hsite hchecks ht hmiss hdead hus hQ
          · simp only [hw]
            exact mapMissing_sat hpt h hpres huser hglobal hsite hchecks hsplit hmiss hf' hdead
              hus hQ
      · have hbig : PageTableEntry.new (startAddress frame) permissions cachePolicy m.paging
            isGlobal = .error .physicalAddressTooLarge := by
          rw [PageTableEntry.new, if_pos (not_lt.mp hlim)]
        rw [hbig]
        exact hQ _ L m (MapPost.refuse h (.tooLarge (not_lt.mp hlim)))
    · rw [if_pos (by simpa using hal)]
      exact hQ _ L m (MapPost.refuse h (.unaligned hal))

end Dusk
