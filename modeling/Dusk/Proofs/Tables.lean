import Dusk.Proofs.Pool
import Dusk.Proofs.Space

/-! Runs of one page table: its tables and the frames of the others are all that is
allocated, whatever order of calls, failed ones included. -/

namespace Dusk

open Lib Radix FrameAllocator

structure TableInv (memoryMap : List MemoryRegion) (L : Layout) (t : TableSession) : Prop where
  pool : PoolInv memoryMap L t.pool
  bare : t.table = none → ∀ f r p, L.role f ≠ .table r p
  mem : t.table ≠ none → MemInv (steady True) L t.pool.machine
  root : ∀ pt, t.table = some pt → pt = t.pool.machine.table L.kroot
  sole : ∀ f r p, L.role f = .table r p → r = L.kroot

/-- The page has a present 4 KiB leaf. -/
def PageTable.HasLeaf (pt : PageTable) (mem : PhysMem) (va : ℕ) : Prop :=
  ∃ f, pt.Node mem (tableIndices pt.config.mode va) f ∧
    PageTableEntry.isPresent (mem.word f (p1Index va)) = true

/-- Some page below these indices is mapped. -/
def PageTable.Leads (pt : PageTable) (mem : PhysMem) (path : List ℕ) : Prop :=
  ∃ va, path <+: tableIndices pt.config.mode va ∧ (pt.toPhysical mem va).isSome = true

namespace TableInv

variable {memoryMap : List MemoryRegion} {L L' : Layout} {t : TableSession} {m' : Machine}
  {pt : PageTable} {va frame : ℕ}

theorem rootFree (h : TableInv memoryMap L t) (p : List ℕ) : RootFree L L.kroot p :=
  .inr (.inr fun r hr => h.sole r r [] hr)

/-- The allocator is used by others. -/
theorem poolStep (h : TableInv memoryMap L t) {s : Session} (hs : PoolInv memoryMap L' s)
    (hstep : PoolStep L t.pool.machine L' s.machine) :
    TableInv memoryMap L' { t with pool := s } := by
  have hregs : Regs t.pool.machine s.machine := by
    rw [hstep.only]
    exact ⟨rfl, rfl, rfl, rfl, rfl, rfl, rfl, rfl⟩
  have htyping : L'.typing = L.typing := by
    funext f
    apply Option.ext
    rintro ⟨r, p⟩
    rw [Layout.typing_some, Layout.typing_some, hstep.tables]
  refine ⟨hs, ?_, ?_, ?_, ?_⟩
  · intro hnone f r p hf
    exact h.bare hnone f r p ((hstep.tables f r p).mp hf)
  · intro hsome
    exact (h.mem hsome).retype htyping hstep.kroot hs.alloc hregs (by rw [hstep.only]) hstep.words
  · intro pt hpt
    rw [h.root pt hpt, hregs.table, hstep.kroot]
  · intro f r p hf
    rw [hstep.kroot]
    exact h.sole f r p ((hstep.tables f r p).mp hf)

/-- The page table itself is changed. -/
theorem edit (h : TableInv memoryMap L t) (hpt : t.table = some pt)
    (hinv : MemInv (steady True) L' m')
    (he : Edit (Role.Lent L.kroot) L.kroot L t.pool.machine L' m') :
    TableInv memoryMap L' (t.withMachine m') := by
  have hregs := he.regs
  refine ⟨?_, ?_, fun _ => hinv, ?_, ?_⟩
  · refine h.pool.restate hinv.alloc hregs.bitmap hregs.directMap ?_ ?_ ?_
    · intro f hf
      rcases he.roles f with hsame | ⟨_, hlent⟩
      · rw [← hsame, hf]
      · rw [hf] at hlent
        exact absurd rfl (lent_state hlent)
    · intro f hf
      rcases he.roles f with hsame | ⟨hlent, _⟩
      · rwa [← hsame]
      · exact lent_state hlent
    · intro f
      rw [h.pool.held]
      refine exists_congr fun o => ?_
      rcases he.roles f with hsame | ⟨hlent, hlent'⟩
      · rw [hsame]
      · refine iff_of_false ?_ ?_
        · intro hf
          exact not_lent_data (hf ▸ hlent)
        · intro hf
          exact not_lent_data (hf ▸ hlent')
  · intro hnone
    rw [show t.table = none from hnone] at hpt
    cases hpt
  · intro pt' hpt'
    rw [he.kroot]
    exact (h.root pt' hpt').trans (hregs.table _).symm
  · intro f r p hf
    rw [he.kroot]
    rcases he.roles f with hsame | ⟨_, hlent⟩
    · exact h.sole f r p (by rw [← hsame, hf])
    · rw [hf] at hlent
      rcases hlent with hfree | ⟨q, _, htab⟩
      · cases hfree
      · cases htab
        rfl

/-- `PageTable::new`. -/
theorem new_sat (h : TableInv memoryMap L t) (hnone : t.table = none) :
    (PageTable.new t.pool.machine.allocator.directMap t.pool.machine.paging).Sat t.pool.machine
      (fun res m' => ∃ L', TableInv memoryMap L' (match res with
        | .ok pt => { t.withMachine m' with table := some pt }
        | .error _ => t.withMachine m')) Prog.never := by
  rw [PageTable.new, Prog.sat_bind]
  refine alloc_sat h.pool.alloc (fun _ => ⟨L, h⟩) ?_
  intro f m₁ ht ha honly hwords hzero
  have hf := ht.next.free
  have htab := h.bare hnone
  have hspare : ∀ g r p, (L.set f (.data .spare)).role g ≠ .table r p := by
    intro g r p hg
    by_cases hgf : g = f
    · rw [hgf, Layout.set_role_self] at hg
      cases hg
    · rw [Layout.set_role_of_ne L hgf] at hg
      exact htab g r p hg
  have hp₁ : m₁.paging = t.pool.machine.paging := by rw [honly]
  rw [Prog.sat_ite]
  refine ⟨fun hbig => ?_, fun hlim => ?_⟩
  · -- the frame is too high for an entry and goes back
    rw [Prog.sat_bind]
    refine dealloc_sat ha (by rw [Layout.set_role_self]; rfl) ?_
    intro m₂ ha₂ honly₂ hwords₂
    rw [Layout.set_set, Layout.set_eq L hf] at ha₂
    refine ⟨L, ?_⟩
    refine h.poolStep (s := { t.pool with machine := m₂ })
      (h.pool.restate ha₂ ?_ ?_ (fun _ h => h) (fun _ h => h) h.pool.held)
      ⟨?_, rfl, fun _ _ _ => Iff.rfl, fun g r p hg => absurd hg (htab g r p)⟩
    · rw [honly₂, honly]
    · rw [honly₂, honly]
    · show m₂ = _
      rw [honly₂, honly]
  · rw [Prog.sat_pure]
    have hpt : PtInv (steady True).empty ((L.set f (.data .spare)).rooted f) m₁ :=
      PtInv.first (Layout.set_role_self L f _) hspare ha (by rw [hp₁]; omega) hzero
    have hself := rooted_role_self (L.set f (.data .spare)) f
    have hother : ∀ g, g ≠ f → ((L.set f (.data .spare)).rooted f).role g = L.role g :=
      fun g hg => (rooted_role_of_ne _ hg).trans (Layout.set_role_of_ne L hg _)
    have hnever : ¬ (steady True).mixed → False := fun hx => hx trivial
    refine ⟨(L.set f (.data .spare)).rooted f, ?_, by simp,
      fun _ => ⟨hpt, fun hx => (hnever hx).elim, fun hx => (hnever hx).elim⟩, ?_, ?_⟩
    · refine h.pool.restate hpt.alloc (by rw [honly]) (by rw [honly]) ?_ ?_ ?_
      · intro g hg
        by_cases hgf : g = f
        · rw [hgf, hself] at hg
          cases hg
        · rwa [hother g hgf] at hg
      · intro g hg
        by_cases hgf : g = f
        · rw [hgf, hf]
          decide
        · rwa [hother g hgf] at hg
      · intro g
        rw [h.pool.held]
        by_cases hgf : g = f
        · rw [hgf, hself, hf]
          simp
        · rw [hother g hgf]
    · intro pt hpt'
      cases hpt'
      show _ = m₁.table f
      rw [honly.regs.table]
      rfl
    · intro g r p hg
      exact (rooted_role hspare hg).2.1

/-- `PageTable::map`. -/
theorem map_sat (h : TableInv memoryMap L t) (hpt : t.table = some pt)
    {permissions : PagePermissions} {cachePolicy : CachePolicy} {isGlobal : Bool}
    {Q : Except PageTableMapError Unit → Machine → Prop} {E : Panic → Machine → Prop}
    (hQ : ∀ res L' m', MapPost True L t.pool.machine L.kroot va frame
      (leafWord frame permissions cachePolicy (isGlobal && t.pool.machine.paging.globalPages))
      res L' m' → TableInv memoryMap L' (t.withMachine m') → Q res m') :
    (pt.map va frame permissions cachePolicy isGlobal).Sat t.pool.machine Q E := by
  have hmem := h.mem (by rw [hpt]; nofun)
  refine Dusk.map_sat (h.root pt hpt ▸ table_of _ _) (by rw [h.root pt hpt]; rfl) hmem
    hmem.kroot ?_ ?_
  · intro _
    exact ⟨.inl rfl, fun hx => absurd trivial hx, .inl (h.rootFree []),
      fun hx => absurd trivial hx, fun _ => h.rootFree⟩
  · intro res L' m' hpost
    exact hQ res L' m' hpost (h.edit hpt hpost.inv hpost.edit)

/-- `PageTable::unmap`: it removes the leaf of the page, or changes nothing. -/
theorem unmap_sat (h : TableInv memoryMap L t) (hpt : t.table = some pt)
    {Q : Except PageTableUnmapError ℕ → Machine → Prop} {E : Panic → Machine → Prop}
    (hdone : ∀ e L' m', LeafAt L t.pool.machine L.kroot (pagePath t.pool.machine.paging.mode va) e →
      t.pool.machine.paging.mode.isCanonical va = true ∧ va % PAGE_SIZE = 0 →
      UnmapPost True L t.pool.machine L.kroot va L' m' → TableInv memoryMap L' (t.withMachine m') →
      Q (.ok (entryFrame t.pool.machine.paging e)) m')
    (hfail : ∀ err, (t.pool.machine.paging.mode.isCanonical va = true ∧ va % PAGE_SIZE = 0 →
      ∀ e, ¬ LeafAt L t.pool.machine L.kroot (pagePath t.pool.machine.paging.mode va) e) →
      Q (.error err) t.pool.machine) :
    (pt.unmap va).Sat t.pool.machine Q E := by
  have hmem := h.mem (by rw [hpt]; simp)
  have hof : TableOf t.pool.machine pt := h.root pt hpt ▸ table_of _ _
  have hroot : pt.frame = L.kroot := by rw [h.root pt hpt]; rfl
  have hcan : pt.isCanonical va = t.pool.machine.paging.mode.isCanonical va := by
    rw [PageTable.isCanonical, hof.config]
  by_cases hva : t.pool.machine.paging.mode.isCanonical va = true ∧ va % PAGE_SIZE = 0
  · by_cases hleaf : ∃ e, LeafAt L t.pool.machine L.kroot
        (pagePath t.pool.machine.paging.mode va) e
    · obtain ⟨e, hl⟩ := hleaf
      refine Dusk.unmap_sat hof hroot hmem hva (.inl rfl) hl
        (.inl (h.rootFree [])) ?_
      intro L' m' hpost
      exact hdone e L' m' hl hva hpost (h.edit hpt hpost.inv hpost.edit)
    · exact Dusk.unmap_none hof hroot hmem.toPtInv hmem.kroot hva (.inl rfl)
        (not_exists.mp hleaf) (hfail _ fun _ => not_exists.mp hleaf)
  · have hstay : ∀ err, Q (.error err) t.pool.machine := fun err => hfail err fun h => absurd h hva
    rw [PageTable.unmap, hcan, Prog.sat_ite]
    refine ⟨fun _ => hstay _, fun hc => ?_⟩
    rw [Prog.sat_ite]
    refine ⟨fun _ => hstay _, fun hal => ?_⟩
    exact absurd ⟨by simpa using hc, not_not.mp hal⟩ hva

/-- An operation returns and keeps the invariant. -/
theorem step (h : TableInv memoryMap L t)
    (hpair : memoryMap.Pairwise (MemoryRegion.Disjoint (shouldTrack · = true))) {op : TableOp}
    (hop : t.Enabled op) : ∃ t' L', t.step memoryMap op = some t' ∧ TableInv memoryMap L' t' := by
  cases op with
  | new =>
    have hnone : t.table = none := hop
    obtain ⟨res, m', hrun, L', h'⟩ := (h.new_sat hnone).finishes
    simp only [TableSession.step, hnone, hrun]
    cases res with
    | ok pt => exact ⟨_, L', rfl, h'⟩
    | error e => exact ⟨_, L', rfl, h'⟩
  | map va frame permissions cachePolicy isGlobal =>
    obtain ⟨pt, hpt⟩ := Option.ne_none_iff_exists'.mp hop
    have hsat : (pt.map va frame permissions cachePolicy isGlobal).Sat t.pool.machine
        (fun _ m' => ∃ L', TableInv memoryMap L' (t.withMachine m')) Prog.never :=
      h.map_sat hpt fun _ L' _ _ h' => ⟨L', h'⟩
    obtain ⟨res, m', hrun, L', h'⟩ := hsat.finishes
    simp only [TableSession.step, hpt, hrun]
    exact ⟨_, L', rfl, h'⟩
  | unmap va =>
    obtain ⟨pt, hpt⟩ := Option.ne_none_iff_exists'.mp hop
    have hsat : (pt.unmap va).Sat t.pool.machine
        (fun _ m' => ∃ L', TableInv memoryMap L' (t.withMachine m')) Prog.never :=
      h.unmap_sat hpt (fun _ L' _ _ _ _ h' => ⟨L', h'⟩) fun _ _ => ⟨L, h⟩
    obtain ⟨res, m', hrun, L', h'⟩ := hsat.finishes
    simp only [TableSession.step, hpt, hrun]
    exact ⟨_, L', rfl, h'⟩
  | frames op =>
    have hen : op.Enabled t.pool.outstanding := hop
    obtain ⟨res, m', hrun, L', h', hkept⟩ := (FrameOp.sat h.pool hpair op hen).finishes
    have hm : (t.pool.after op res m').machine = m' := by cases op <;> rfl
    simp only [TableSession.step, Session.step, if_pos hen, hrun, Option.map_some]
    exact ⟨_, L', rfl, h.poolStep h' (by rw [hm]; exact hkept)⟩

section Reading

variable (h : TableInv memoryMap L t) (hpt : t.table = some pt) {path : List ℕ} {f : ℕ} {a : ℕ}

include h hpt

theorem inv : MemInv (steady True) L t.pool.machine := h.mem (by rw [hpt]; nofun)

theorem config_eq : pt.config = t.pool.machine.paging := by
  rw [h.root pt hpt]
  rfl

/-- The nodes of the page table are the frames that the layout calls so. -/
theorem node_iff : pt.Node t.pool.machine.mem path f ↔ L.role f = .table L.kroot path.reverse := by
  rw [h.root pt hpt]
  exact Dusk.node_iff (h.inv hpt).tree (h.inv hpt).kroot fun _ _ => .inl rfl

theorem toPhysical_eq (hc : t.pool.machine.paging.mode.isCanonical a = true) :
    pt.toPhysical t.pool.machine.mem a = (t.pool.machine.leaf L.kroot a).map fun e =>
      startAddress (entryFrame t.pool.machine.paging e) + pageOffset a := by
  rw [h.root pt hpt]
  exact (h.inv hpt).toPhysical_eq (h.inv hpt).kroot hc (.inl rfl)

theorem mapping_eq (hc : t.pool.machine.paging.mode.isCanonical a = true) :
    pt.mapping t.pool.machine.mem a =
      (t.pool.machine.leaf L.kroot a).map PageTableEntry.permissions := by
  have hinv := h.inv hpt
  rw [h.root pt hpt]
  exact Dusk.mapping_eq hinv.alloc hinv.tree hinv.closed hinv.kroot hc (.inl rfl)

theorem leaf_iff (e : Word) : t.pool.machine.leaf L.kroot a = some e ↔
    LeafAt L t.pool.machine L.kroot (pagePath t.pool.machine.paging.mode a) e :=
  (h.inv hpt).leaf_iff (h.inv hpt).kroot (.inl rfl) e

/-- Addresses that are not canonical are not mapped. -/
theorem canonical_of_toPhysical (ha : (pt.toPhysical t.pool.machine.mem a).isSome = true) :
    t.pool.machine.paging.mode.isCanonical a = true := by
  by_contra hc
  have hno : pt.isCanonical a = false := by
    rw [PageTable.isCanonical, h.config_eq hpt]
    simpa using hc
  simp [PageTable.toPhysical, hno] at ha

/-- A page is mapped where there is a leaf at its path. -/
theorem mapped_iff : (pt.toPhysical t.pool.machine.mem a).isSome = true ↔
    t.pool.machine.paging.mode.isCanonical a = true ∧
      ∃ e, LeafAt L t.pool.machine L.kroot (pagePath t.pool.machine.paging.mode a) e := by
  constructor
  · intro ha
    have hc := h.canonical_of_toPhysical hpt ha
    rw [h.toPhysical_eq hpt hc, Option.isSome_map] at ha
    obtain ⟨e, he⟩ := Option.isSome_iff_exists.mp ha
    exact ⟨hc, e, (h.leaf_iff hpt e).mp he⟩
  · rintro ⟨hc, e, he⟩
    rw [h.toPhysical_eq hpt hc, (h.leaf_iff hpt e).mpr he]
    rfl

/-- Mapped pages below some indices are leaves below the path. -/
theorem below_iff (hlen : path.length ≤ t.pool.machine.paging.mode.intermediateLevels.length) :
    (∃ va, path <+: tableIndices t.pool.machine.paging.mode va ∧
      (pt.toPhysical t.pool.machine.mem va).isSome = true) ↔
    ∃ q e, LeafAt L t.pool.machine L.kroot (q ++ path.reverse) e := by
  constructor
  · rintro ⟨va, ⟨s, hs⟩, hmapped⟩
    obtain ⟨_, e, he⟩ := (h.mapped_iff hpt).mp hmapped
    refine ⟨p1Index va :: s.reverse, e, ?_⟩
    rw [pagePath, ← hs, List.reverse_append] at he
    exact he
  · rintro ⟨q, e, he⟩
    have htotal : (q ++ path.reverse).length =
        t.pool.machine.paging.mode.intermediateLevels.length + 1 := by
      cases hq : q ++ path.reverse with
      | nil => rw [hq] at he; exact he.elim
      | cons i p =>
        rw [hq] at he
        rw [List.length_cons, he.2.1]
        rfl
    have hlt : ∀ i ∈ q ++ path.reverse, i < 512 := (h.inv hpt).tree.leaf_lt he
    obtain ⟨va, hc, _, hva⟩ := pagePath_surj t.pool.machine.paging.mode htotal hlt
    refine ⟨va, ?_, (h.mapped_iff hpt).mpr ⟨hc, e, by rw [hva]; exact he⟩⟩
    cases q with
    | nil =>
      simp only [List.nil_append, List.length_reverse] at htotal
      omega
    | cons j q =>
      rw [pagePath, List.cons_append, List.cons.injEq] at hva
      have hrev := congrArg List.reverse hva.2
      rw [List.reverse_reverse, List.reverse_append, List.reverse_reverse] at hrev
      exact ⟨q.reverse, hrev.symm⟩

/-- A table other than the root exists where some page below it is mapped. -/
theorem table_iff {p : List ℕ} (hp : p ≠ []) :
    (∃ f, L.role f = .table L.kroot p) ↔
      p.length ≤ t.pool.machine.paging.mode.intermediateLevels.length ∧
        ∃ q e, LeafAt L t.pool.machine L.kroot (q ++ p) e := by
  have hinv := h.inv hpt
  constructor
  · rintro ⟨f, hf⟩
    refine ⟨hinv.tree.depth f _ _ (Layout.typing_some.mpr hf), ?_⟩
    refine hinv.tree.leaf_below ?_ (Layout.typing_some.mpr hf) hp
    intro g r p' hg hp'
    exact hinv.full g r p' (Layout.typing_some.mp hg) hp' id
  · rintro ⟨hlen, q, e, hl⟩
    cases q with
    | nil =>
      cases p with
      | nil => exact absurd rfl hp
      | cons i p =>
        have hlen' : p.length = t.pool.machine.paging.mode.intermediateLevels.length := hl.2.1
        rw [List.length_cons] at hlen
        omega
    | cons j q =>
      obtain ⟨_, _, _, g, hg, _⟩ := hl
      obtain ⟨f, hf⟩ := hinv.tree.ancestor hg
      exact ⟨f, Layout.typing_some.mp hf⟩

theorem leads_iff (hne : path ≠ [])
    (hlen : path.length ≤ t.pool.machine.paging.mode.intermediateLevels.length) :
    pt.Leads t.pool.machine.mem path ↔ ∃ f, L.role f = .table L.kroot path.reverse := by
  unfold PageTable.Leads
  rw [h.config_eq hpt, h.below_iff hpt hlen, h.table_iff hpt (by simpa using hne)]
  simp [hlen]

/-- The leaf of a page, in its table. -/
theorem hasLeaf_iff : pt.HasLeaf t.pool.machine.mem a ↔
    ∃ e, LeafAt L t.pool.machine L.kroot (pagePath t.pool.machine.paging.mode a) e := by
  unfold PageTable.HasLeaf
  rw [h.config_eq hpt]
  simp only [h.node_iff hpt]
  constructor
  · rintro ⟨f, hf, hpres⟩
    exact ⟨_, p1Index_lt a, by simp [pteShape], hpres, f, Layout.typing_some.mpr hf, rfl⟩
  · rintro ⟨e, _, _, hpres, f, hf, rfl⟩
    exact ⟨f, Layout.typing_some.mp hf, hpres⟩

end Reading

end TableInv

variable {memoryMap : List MemoryRegion} {dm : DirectMap} {m₀ : Machine} {t t' : TableSession}
  {L : Layout}

theorem TableSession.enabled_of_step {op : TableOp} (h : t.step memoryMap op = some t') :
    t.Enabled op := by
  cases op with
  | new =>
    cases htab : t.table with
    | none => exact htab
    | some pt => simp [TableSession.step, htab] at h
  | map va frame permissions cachePolicy isGlobal =>
    intro hnone
    simp [TableSession.step, hnone] at h
  | unmap va =>
    intro hnone
    simp [TableSession.step, hnone] at h
  | frames op =>
    simp only [TableSession.step, Option.map_eq_some_iff] at h
    obtain ⟨s, hs, _⟩ := h
    rw [Session.step] at hs
    split_ifs at hs with hop
    exact hop

/-- The invariant over a whole run. -/
theorem TableSession.run_inv {ops : List TableOp} (hrun : t.run memoryMap ops = some t')
    (h : TableInv memoryMap L t)
    (hpair : memoryMap.Pairwise (MemoryRegion.Disjoint (shouldTrack · = true))) :
    ∃ L', TableInv memoryMap L' t' := by
  induction ops generalizing t L with
  | nil =>
    cases hrun
    exact ⟨L, h⟩
  | cons op ops ih =>
    obtain ⟨t₁, hstep, hrest⟩ := Option.bind_eq_some_iff.mp hrun
    obtain ⟨t₂, L₂, hstep', h₂⟩ := h.step hpair (TableSession.enabled_of_step hstep)
    rw [hstep, Option.some.injEq] at hstep'
    subst hstep'
    exact ih hrest h₂

/-- The invariant in every session with a page table. -/
theorem TableSession.Reached.inv (h : TableSession.Reached memoryMap dm m₀ t)
    (hpair : memoryMap.Pairwise (MemoryRegion.Disjoint (shouldTrack · = true)))
    (hdirect : ∀ region ∈ memoryMap, shouldTrack region.kind = true → ∀ x, region.Has x →
      (dm.translate x).isSome = true) : ∃ L, TableInv memoryMap L t := by
  obtain ⟨s₀, ops, hstart, hrun⟩ := h
  obtain ⟨L, hpool, htables⟩ := Session.start_inv hstart hpair hdirect
  refine TableSession.run_inv hrun (L := L) ⟨hpool, fun _ => htables, fun h => absurd rfl h, nofun, ?_⟩
    hpair
  intro f r p hf
  exact absurd hf (htables f r p)

/-- A run on a small machine. -/
def smallTable (mode : PagingMode) (ops : List TableOp) : Option TableSession :=
  (Session.start smallMap smallDirectMap (smallMachine mode)).bind fun s =>
    TableSession.run smallMap ops ⟨s, none⟩

theorem smallTable_reached {mode : PagingMode} {ops : List TableOp}
    (h : smallTable mode ops = some t) :
    TableSession.Reached smallMap smallDirectMap (smallMachine mode) t := by
  obtain ⟨s, hs, hrun⟩ := Option.bind_eq_some_iff.mp h
  exact ⟨s, ops, hs, hrun⟩

/-- A test of a run on a small machine, read as a statement. -/
theorem smallTable_some {mode : PagingMode} {ops : List TableOp}
    {test : TableSession → PageTable → Bool}
    (h : (smallTable mode ops).any (fun t => t.table.any (test t)) = true) :
    ∃ t pt, TableSession.Reached smallMap smallDirectMap (smallMachine mode) t ∧
      t.table = some pt ∧ test t pt = true := by
  obtain ⟨t, ht, htest⟩ := (Option.any_eq_true _ _).mp h
  obtain ⟨pt, hpt, htrue⟩ := (Option.any_eq_true _ _).mp htest
  exact ⟨t, pt, smallTable_reached ht, hpt, htrue⟩

end Dusk
