import Dusk.Proofs.Map

/-! `PageTable::unmap`: it removes one leaf, prunes the tables that became empty and
releases their frames. -/

namespace Dusk

open Lib Radix

variable {X : Exempt} {L : Layout} {m : Machine} {pt : PageTable} {r va : ℕ}
  {E : Panic → Machine → Prop}

/-- The entries on the way to the table at a path, deepest first. -/
def Ancestors (L : Layout) (r : ℕ) : List ℕ → List EntryLocation → Prop
  | [], [] => True
  | i :: p, parent :: parents =>
    parent.index = i ∧ L.role parent.table = .table r p ∧ Ancestors L r p parents
  | _, _ => False

theorem Ancestors.set {p q : List ℕ} {parents : List EntryLocation} {c : ℕ} {ρ : Role}
    (h : Ancestors L r p parents) (hc : L.role c = .table r q) (hlen : p.length ≤ q.length) :
    Ancestors (L.set c ρ) r p parents := by
  induction parents generalizing p with
  | nil =>
    cases p with
    | nil => trivial
    | cons i p => exact h.elim
  | cons parent parents ih =>
    cases p with
    | nil => exact h.elim
    | cons i p =>
      obtain ⟨hi, hrole, hrest⟩ := h
      simp only [List.length_cons] at hlen
      refine ⟨hi, ?_, ih hrest (by omega)⟩
      rw [Layout.set_role_of_ne, hrole]
      rintro rfl
      rw [hrole] at hc
      cases hc
      omega

/-- Where the walk of `unmap` ends. -/
theorem unmapWalk_cases {empty : ℕ → Prop} (va : ℕ) (hpt : TableOf m pt) (h : PtInv empty L m)
    {f : ℕ} {p : List ℕ} (hf : L.role f = .table r p) (levels : List PageTableLevel)
    (hlen : p.length + levels.length = m.paging.mode.intermediateLevels.length)
    (ho : p = [] → ∀ l ∈ levels.head?, r = L.kroot ∨ l.index va < 256)
    (parents : List EntryLocation) (hanc : Ancestors L r p parents) :
    (∃ t parents', pt.unmapWalk m.mem va levels f parents = .ok (t, parents') ∧
      L.role t = .table r ((levels.map fun l => l.index va).reverse ++ p) ∧
      Ancestors L r ((levels.map fun l => l.index va).reverse ++ p) parents') ∨
    pt.unmapWalk m.mem va levels f parents = .error .pageNotMapped ∧
      ∀ t, L.role t ≠ .table r ((levels.map fun l => l.index va).reverse ++ p) := by
  induction levels generalizing f p parents with
  | nil => exact .inl ⟨f, parents, rfl, by simpa using hf, by simpa using hanc⟩
  | cons level levels ih =>
    have hlt : p.length < m.paging.mode.intermediateLevels.length := by
      simp only [List.length_cons] at hlen
      omega
    rw [List.map_cons, List.reverse_cons, List.append_assoc, List.singleton_append]
    simp only [PageTable.unmapWalk, PageTable.getNextLevel, hpt.entries h.alloc hf, hpt.config]
    rcases child_cases h.tree hf hlt (level_index_lt level va) (fun h => ho h level (by simp)) with
      hdead | ⟨g, user, hg, he, hlim⟩
    · right
      have hnull := h.zero f r p _ hf (level_index_lt level va) hdead
      refine ⟨?_, ?_⟩
      · rw [tableFrame_of_not_present hdead, hnull]
        rfl
      · intro t ht
        obtain ⟨g, hg⟩ := h.tree.ancestor (Layout.typing_some.mpr ht)
        have hlive := h.tree.child_live (Layout.typing_some.mpr hf) hg
        simp [pteCodec, hdead] at hlive
    · simp only [he, tableWord_isHuge _ hlim, tableWord_tableFrame _ hlim, Bool.false_eq_true,
        if_false]
      exact ih hg (by simp only [List.length_cons] at hlen ⊢; omega) (by simp) _ ⟨rfl, hf, hanc⟩

theorem isEmptyTable_iff (mem : PhysMem) (f : ℕ) :
    PageTable.isEmptyTable mem f = true ↔
      ∀ j < 512, PageTableEntry.isPresent (mem.word f j) = false := by
  simp [PageTable.isEmptyTable, PAGE_TABLE_ENTRIES]

/-- The root entry `x` of a kernel table stays: some leaf below it does. -/
def Pinned (L : Layout) (m : Machine) (r x : ℕ) : Prop :=
  RootFree L r [] ∨ ∃ q e, LeafAt L m r q e ∧ q.getLast? = some x

theorem RootFree.set (h : RootFree L r []) {c : ℕ} {o : Owner} :
    RootFree (L.set c (.data o)) r [] := by
  rcases h with h | h | h
  · exact .inl h
  · exact .inr (.inl h)
  · refine .inr (.inr ?_)
    intro r' hr'
    by_cases hc : r' = c
    · rw [hc, Layout.set_role_self] at hr'
      cases hr'
    · rw [Layout.set_role_of_ne L hc] at hr'
      exact h r' hr'

/-- An empty table hangs below an entry that may be cleared. -/
theorem rootFree_of_empty (ht : Tree L m) {c i : ℕ} {p : List ℕ}
    (hc : L.role c = .table r (i :: p))
    (hempty : ∀ j < 512, PageTableEntry.isPresent (m.mem.word c j) = false)
    (hpin : ∀ x ∈ (i :: p).getLast?, Pinned L m r x) : RootFree L r p := by
  cases p with
  | cons j p => exact .inl (by simp)
  | nil =>
    rcases hpin i (by simp) with hfree | ⟨q, e, hl, hq⟩
    · exact hfree
    · exfalso
      obtain ⟨j, q', rfl⟩ : ∃ j q', q = j :: q' := by
        cases q with
        | nil => simp at hq
        | cons j q' => exact ⟨j, q', rfl⟩
      have hlen : q'.length = m.paging.mode.intermediateLevels.length := hl.2.1
      have hne : q' ≠ [] := by
        intro h
        have := levels_pos m.paging.mode
        rw [h, List.length_nil] at hlen
        omega
      have hlast : q' = q'.dropLast ++ [i] := by
        rw [List.getLast?_cons_of_ne_nil hne] at hq
        exact (List.dropLast_append_getLast? i hq).symm
      rw [hlast] at hl
      obtain ⟨x, hx, hlive⟩ := ht.live_entry hl (Layout.typing_some.mpr hc)
      simp [pteCodec, hempty x hx] at hlive

/-- What the pruning loop has done when it has taken out the tables `fs`. -/
structure Pruned (X : Exempt) (L : Layout) (m : Machine) (r : ℕ) (fs : List ℕ)
    (m' : Machine) : Prop where
  inv : MemInv (X.withEmpty fun _ => False) (L.setAll fs (.data .spare)) m'
  nodup : fs.Nodup
  tables : ∀ f ∈ fs, ∃ p, p ≠ [] ∧ L.role f = .table r p
  regs : Regs m m'
  words : ∀ g, (∀ p, L.role g ≠ .table r p) → m'.mem.word g = m.mem.word g
  leaf : ∀ r' q e, LeafAt (L.setAll fs (.data .spare)) m' r' q e ↔ LeafAt L m r' q e

theorem Pruned.nil (h : MemInv X L m)
    (hfull : ∀ f r p, L.role f = .table r p → p ≠ [] → X.empty f →
      ∃ i < 512, PageTableEntry.isPresent (m.mem.word f i) = true) : Pruned X L m r [] m := by
  refine ⟨?_, List.nodup_nil, by simp, Regs.refl m, fun _ _ => rfl, ?_⟩
  · rw [Layout.setAll_nil]
    exact ⟨h.toPtInv.refill fun f r p hf hp _ he => hfull f r p hf hp he, h.bound, h.halves⟩
  · intro r' q e
    rw [Layout.setAll_nil]

/-- The table `c` comes out first, then those above it. -/
theorem Pruned.cons {c t i : ℕ} {p : List ℕ} (hc : L.role c = .table r (i :: p))
    (ht : L.role t = .table r p) {fs : List ℕ} {m' : Machine}
    (hleaf : ∀ r' q e, LeafAt (L.set c (.data .spare))
      (m.withMem (m.mem.setWord t i PageTableEntry.null)).ticked r' q e ↔ LeafAt L m r' q e)
    (h : Pruned (X.withEmpty fun x => x = t) (L.set c (.data .spare))
      (m.withMem (m.mem.setWord t i PageTableEntry.null)).ticked r fs m') :
    Pruned X L m r (c :: fs) m' := by
  have hnot : c ∉ fs := by
    intro hmem
    obtain ⟨p', _, hp'⟩ := h.tables c hmem
    rw [Layout.set_role_self] at hp'
    cases hp'
  have hinv := h.inv
  have hleaf' := h.leaf
  rw [Layout.set_setAll] at hinv hleaf'
  refine ⟨hinv, List.nodup_cons.mpr ⟨hnot, h.nodup⟩, ?_,
    ((withMem_regs _ _).trans (ticked_regs _)).trans h.regs, ?_,
    fun r' q e => (hleaf' r' q e).trans (hleaf r' q e)⟩
  · intro f hf
    rcases List.mem_cons.mp hf with rfl | hf
    · exact ⟨_, by simp, hc⟩
    · obtain ⟨p', hp', hrole⟩ := h.tables f hf
      have hfc : f ≠ c := fun he => hnot (he ▸ hf)
      exact ⟨p', hp', by rwa [Layout.set_role_of_ne L hfc] at hrole⟩
  · intro g hg
    have hgc : g ≠ c := by
      rintro rfl
      exact hg _ hc
    rw [h.words g (by rwa [Layout.set_role_of_ne L hgc])]
    apply PhysMem.frame_setWord
    rintro rfl
    exact hg _ ht

theorem pruneTables_sat {Q : List ℕ → Machine → Prop} (hpt : TableOf m pt) (h : MemInv X L m)
    {c : ℕ} {p : List ℕ} {parents : List EntryLocation} (hc : L.role c = .table r p)
    (hanc : Ancestors L r p parents) (hpin : ∀ x ∈ p.getLast?, Pinned L m r x) {empty : Bool}
    (hempty : empty = PageTable.isEmptyTable m.mem c) (hX : ∀ x, X.empty x → x = c)
    (hQ : ∀ fs m', Pruned X L m r fs m' → Q fs m') :
    (pt.pruneTables parents c empty).Sat m Q E := by
  induction parents generalizing X L m c p empty Q with
  | nil =>
    cases p with
    | cons i p => exact hanc.elim
    | nil =>
      -- the root may be empty
      refine hQ [] m (Pruned.nil h ?_)
      intro f r' p' hf hp' he
      rw [hX f he, hc] at hf
      cases hf
      exact absurd rfl hp'
  | cons parent parents ih =>
    cases p with
    | nil => exact hanc.elim
    | cons i p =>
      obtain ⟨hi, hparent, hrest⟩ := hanc
      cases empty with
      | false =>
        refine hQ [] m (Pruned.nil h ?_)
        intro f _ _ _ _ he
        rw [hX f he]
        by_contra hno
        have hall := (isEmptyTable_iff m.mem c).mpr fun j hj => by
          by_contra hp
          exact hno ⟨j, hj, by simpa using hp⟩
        rw [← hempty] at hall
        cases hall
      | true =>
        have hempty := (isEmptyTable_iff _ _).mp hempty.symm
        obtain ⟨hinv, hleaf⟩ := h.detachTable hparent hc
          (rootFree_of_empty h.tree hc hempty hpin) hempty hX
        obtain ⟨v, hv⟩ := hpt.translate h.alloc (f := parent.table)
          (by simp [hparent, Role.state])
        simp only [PageTable.pruneTables, Bool.not_true, Bool.false_eq_true, if_false,
          PageTable.writeEntry, hv, Prog.sat_bind, Prog.sat_expect_some, sat_storeEntry,
          Prog.sat_get, hi, Prog.sat_pure]
        have hne : parent.table ≠ c := by
          intro he
          rw [he, hc] at hparent
          simp at hparent
        refine ih (hpt.regs ((withMem_regs _ _).trans (ticked_regs _))) hinv.tick ?_
          (hrest.set hc (by simp)) ?_ rfl (fun x hx => hx) ?_
        · rwa [Layout.set_role_of_ne L hne]
        · intro x hx
          have hx' : x ∈ (i :: p).getLast? := by
            cases p with
            | nil => simp at hx
            | cons j p => rwa [List.getLast?_cons_cons]
          rcases hpin x hx' with hfree | ⟨q, e, hl, hq⟩
          · exact .inl hfree.set
          · exact .inr ⟨q, e, (hleaf r q e).mpr hl, hq⟩
        · intro fs m' hp
          exact hQ (c :: fs) m' (hp.cons hc hparent hleaf)

/-- The result of `unmap`: one leaf less. -/
structure UnmapPost (mixed : Prop) (L : Layout) (m : Machine) (r va : ℕ) (L' : Layout)
    (m' : Machine) : Prop where
  inv : MemInv (steady mixed) L' m'
  edit : Edit (Role.Lent r) r L m L' m'
  kept : ∀ f, L'.role f ≠ .free → L'.role f = L.role f
  leaf : ∀ r' q e, LeafAt L' m' r' q e ↔
    LeafAt L m r' q e ∧ ¬ (r' = r ∧ q = pagePath m.paging.mode va)

/-- `PageTable::unmap` of a mapped page. -/
theorem unmap_sat {mixed : Prop} {Q : Except PageTableUnmapError ℕ → Machine → Prop}
    (hpt : TableOf m pt) (hroot : pt.frame = r) (h : MemInv (steady mixed) L m) {e : Word}
    (hva : m.paging.mode.isCanonical va = true ∧ va % PAGE_SIZE = 0)
    (ho : r = L.kroot ∨ rootIndex m.paging.mode va < 256)
    (hleaf : LeafAt L m r (pagePath m.paging.mode va) e)
    (hpin : RootFree L r [] ∨ ∃ q e', LeafAt L m r q e' ∧ q ≠ pagePath m.paging.mode va ∧
      q.getLast? = some (rootIndex m.paging.mode va))
    (hQ : ∀ L' m', UnmapPost mixed L m r va L' m' → Q (.ok (entryFrame m.paging e)) m') :
    (pt.unmap va).Sat m Q E := by
  obtain ⟨hi, hlen, hlive, t, ht, he⟩ := hleaf
  have hpres : PageTableEntry.isPresent e = true := hlive
  have htr := Layout.typing_some.mp ht
  have hcan : pt.isCanonical va = true := by
    rw [PageTable.isCanonical, hpt.config, hva.1]
  have hr : L.role r = .table r [] := Layout.typing_some.mp (h.tree.root_typed ht)
  have hlevels : ∀ l ∈ m.paging.mode.intermediateLevels.head?,
      r = L.kroot ∨ l.index va < 256 := by
    intro l hl
    have hroot : rootIndex m.paging.mode va = l.index va := by
      simp [rootIndex, tableIndices, Option.mem_def.mp hl]
    rw [← hroot]
    exact ho
  obtain ⟨parents, hwalk, hanc⟩ : ∃ parents, pt.unmapWalk m.mem va
      m.paging.mode.intermediateLevels r [] = .ok (t, parents) ∧
      Ancestors L r (tableIndices m.paging.mode va).reverse parents := by
    have htr' : L.role t =
        .table r ((m.paging.mode.intermediateLevels.map fun l => l.index va).reverse ++ []) := by
      simpa [tableIndices] using htr
    rcases unmapWalk_cases va hpt h.toPtInv hr m.paging.mode.intermediateLevels (by simp)
        (fun _ => hlevels) [] trivial with ⟨t', parents, hw, ht', hanc⟩ | ⟨_, hno⟩
    · rw [h.tree.unique (Layout.typing_some.mpr ht') (Layout.typing_some.mpr htr')] at hw
      exact ⟨parents, hw, by simpa [tableIndices] using hanc⟩
    · exact absurd htr' (hno t)
  simp only [PageTable.unmap, hcan, Bool.not_true, Bool.false_eq_true, if_false, hva.2,
    ne_eq, not_true_eq_false, Prog.sat_bind, Prog.sat_get, hpt.config, hroot, hwalk,
    hpt.entries h.alloc htr, he, leafFrame_eq, hpres, if_true, sat_storeEntry]
  have hne : (tableIndices m.paging.mode va).reverse ≠ [] := by
    intro hnil
    have := levels_pos m.paging.mode
    rw [hnil, List.length_nil] at hlen
    simp only [pteShape] at hlen
    omega
  obtain ⟨hinv, hset⟩ := h.setLeaf ⟨fun v => v = va ∧ m.cr3 = r, fun x => x = t, mixed⟩ rfl htr
    (by simp) (p1Index_lt va) PageTableEntry.null (fun _ => ⟨rfl, rfl⟩)
    (fun hu => absurd hu (by decide)) (fun _ hp => absurd hp (by simp [null_isPresent]))
    (by
      right
      intro hcr v hv hv' hpath
      refine ⟨pagePath_inj (user_canonical _ hv') hva.1 hv hva.2 ?_, hcr⟩
      rw [hpath, pagePath])
    (fun v hv => hv.elim) (fun g hg => hg.elim)
  have hset' : ∀ r' q e', LeafAt L
      (m.withMem (m.mem.setWord t (p1Index va) PageTableEntry.null)).ticked r' q e' ↔
      LeafAt L m r' q e' ∧ ¬ (r' = r ∧ q = pagePath m.paging.mode va) := by
    intro r' q e'
    refine (hset r' q e').trans ?_
    rw [pagePath]
    split_ifs with hsame
    · simp [null_isPresent, hsame]
    · simp [hsame]
  have hregs₁ : Regs m (m.withMem (m.mem.setWord t (p1Index va) PageTableEntry.null)).ticked :=
    (withMem_regs _ _).trans (ticked_regs _)
  refine pruneTables_sat (hpt.regs hregs₁) hinv.tick htr (by simpa [tableIndices] using hanc) ?_ rfl
    (fun x hx => hx) ?_
  · intro x hx
    rcases hpin with hfree | ⟨q, e', hl, hq, hlast⟩
    · exact .inl hfree
    · right
      refine ⟨q, e', (hset' r q e').mpr ⟨hl, fun h => hq h.2⟩, ?_⟩
      rw [hlast, ← pagePath_getLast, pagePath, List.getLast?_cons_of_ne_nil hne]
      exact hx
  · rintro fs m₂ ⟨hinv₂, hnd, hfs, hregs₂, hwords₂, hleaf₂⟩
    have hspare : ∀ f ∈ fs, (L.setAll fs (.data .spare)).role f = .data .spare :=
      fun f hf => Layout.setAll_role_of_mem hf _
    refine flush_sat hinv₂ pt va ?_ (fun f hf => hf) ?_
    · rintro v ⟨rfl, hcr⟩
      exact ⟨rfl, by rw [hregs₂.cr3, hregs₁.cr3, hcr, hroot]⟩
    intro m₃ hinv₃ hregs₃ hmem₃ _
    refine hinv₃.deallocAll_sat hnd (fun f hf => ⟨.spare, hspare f hf⟩) ?_
    intro m₄ hinv₄ honly₄ hwords₄ hleaf₄
    have hback : (L.setAll fs (.data .spare)).setAll fs .free = L.setAll fs .free := by
      simp only [Layout.setAll]
      congr 1
      funext f
      by_cases hf : f ∈ fs <;> simp [hf]
    rw [hback] at hinv₄ hleaf₄
    have hregs : Regs m m₄ := hregs₁.trans (hregs₂.trans (hregs₃.trans honly₄.regs))
    refine hQ _ m₄ ⟨hinv₄, ⟨hregs, rfl, ?_, ?_⟩, ?_, ?_⟩
    · intro f
      by_cases hf : f ∈ fs
      · obtain ⟨p', hp', hrole⟩ := hfs f hf
        exact .inr ⟨.inr ⟨p', hp', hrole⟩, .inl (Layout.setAll_role_of_mem hf _)⟩
      · exact .inl (Layout.setAll_role_of_not_mem hf _)
    · intro f hf hs hr'
      have htab : ∀ p', L.role f ≠ .table r p' := by
        intro p' hp'
        by_cases hnil : p' = []
        · exact hr' (hnil ▸ hp')
        · exact hf (.inr ⟨p', hnil, hp'⟩)
      have hmem : f ∉ fs := by
        intro hmem
        obtain ⟨p', _, hp'⟩ := hfs f hmem
        exact htab p' hp'
      rw [hwords₄ f (by rwa [Layout.setAll_role_of_not_mem hmem]), hmem₃, hwords₂ f htab]
      apply PhysMem.frame_setWord
      rintro rfl
      exact htab _ htr
    · intro f hf
      refine Layout.setAll_role_of_not_mem (fun hmem => hf ?_) _
      exact Layout.setAll_role_of_mem hmem _
    · intro r' q e'
      rw [hleaf₄]
      refine (leafAt_congr rfl rfl hregs₃.paging (fun f _ _ _ => by rw [hmem₃]) r' q e').trans ?_
      exact (hleaf₂ r' q e').trans (hset' r' q e')

/-- `PageTable::unmap` of a page that is not mapped. -/
theorem unmap_none {empty : ℕ → Prop} {Q : Except PageTableUnmapError ℕ → Machine → Prop}
    (hpt : TableOf m pt) (hroot : pt.frame = r) (h : PtInv empty L m)
    (hr : L.role r = .table r []) (hva : m.paging.mode.isCanonical va = true ∧ va % PAGE_SIZE = 0)
    (ho : r = L.kroot ∨ rootIndex m.paging.mode va < 256)
    (hnone : ∀ e, ¬ LeafAt L m r (pagePath m.paging.mode va) e)
    (hQ : Q (.error .pageNotMapped) m) : (pt.unmap va).Sat m Q E := by
  have hcan : pt.isCanonical va = true := by
    rw [PageTable.isCanonical, hpt.config, hva.1]
  have hlevels : ∀ l ∈ m.paging.mode.intermediateLevels.head?,
      r = L.kroot ∨ l.index va < 256 := by
    intro l hl
    have hroot : rootIndex m.paging.mode va = l.index va := by
      simp [rootIndex, tableIndices, Option.mem_def.mp hl]
    rw [← hroot]
    exact ho
  simp only [PageTable.unmap, hcan, Bool.not_true, Bool.false_eq_true, if_false, hva.2,
    ne_eq, not_true_eq_false, Prog.sat_bind, Prog.sat_get, hpt.config, hroot]
  rcases unmapWalk_cases va hpt h hr m.paging.mode.intermediateLevels (by simp)
      (fun _ => hlevels) [] trivial with ⟨t, parents, hw, ht, _⟩ | ⟨hw, _⟩
  · rw [List.append_nil] at ht
    have hdead : PageTableEntry.isPresent (m.mem.word t (p1Index va)) = false := by
      by_contra hp
      refine hnone (m.mem.word t (p1Index va)) ⟨p1Index_lt va, by simp [pteShape], ?_, t,
        Layout.typing_some.mpr ht, rfl⟩
      simpa [pteCodec] using hp
    simp only [hw, hpt.entries h.alloc ht, leafFrame_eq, hdead, Bool.false_eq_true, if_false]
    exact hQ
  · simp only [hw]
    exact hQ

end Dusk
