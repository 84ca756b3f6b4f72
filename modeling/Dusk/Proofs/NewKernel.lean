import Dusk.Proofs.Destroy
import Dusk.Proofs.KernelSpace
import Dusk.Proofs.Room

/-! `AddressSpace::new_kernel` from any allocator that keeps its books: which regions and
segments it maps, and what is left where it fails. -/

namespace Dusk

open Lib Radix

variable {L L' : Layout} {m m' : Machine} {space : AddressSpace} {dm : DirectMap}
  {imageBase : ℕ} {regions : List MemoryRegion} {region : MemoryRegion}
  {E : Panic → Machine → Prop}

instance (region : MemoryRegion) (imageBase : ℕ) : Decidable (region.Skipped imageBase) :=
  inferInstanceAs (Decidable (_ ∨ _))

/-- The pages of a region in the direct map. -/
def DirectMap.regionPages (dm : DirectMap) (imageBase : ℕ) (region : MemoryRegion) : List ℕ :=
  if region.Skipped imageBase then []
  else match dm.translate region.start with
    | none => []
    | some start => runPages start 0 (region.length / FRAME_SIZE)

/-- The frames that the one page table has, and those it can still get. -/
def Borrowed (L : Layout) (f : ℕ) : Prop := L.role f = .free ∨ ∃ p, L.role f = .table L.kroot p

theorem Edit.borrowed_iff (h : Edit (Role.Lent L.kroot) L.kroot L m L' m') {f : ℕ} :
    Borrowed L' f ↔ Borrowed L f := by
  unfold Borrowed
  rw [h.kroot]
  rcases h.roles f with hsame | ⟨hold, hnew⟩
  · rw [hsame]
  · have hlent : ∀ {ρ : Role}, Role.Lent L.kroot ρ → ρ = .free ∨ ∃ p, ρ = .table L.kroot p := by
      rintro ρ (hfree | ⟨p, _, hp⟩)
      · exact .inl hfree
      · exact .inr ⟨p, hp⟩
    exact iff_of_true (hlent hnew) (hlent hold)

/-- All that was borrowed is free again. -/
def Returned (L : Layout) (m' : Machine) : Prop :=
  ∃ L', AllocInv L' m' ∧ ∀ f, L'.role f = .free ↔ Borrowed L f

theorem Returned.edit (h : Returned L' m') {m₁ : Machine}
    (he : Edit (Role.Lent L.kroot) L.kroot L m L' m₁) : Returned L m' := by
  obtain ⟨L₂, ha, hfree⟩ := h
  exact ⟨L₂, ha, fun f => (hfree f).trans he.borrowed_iff⟩

/-- The failure path of `new_kernel` that takes the page table down. -/
theorem destroy_returned {Q : Except AddressSpaceCreateError Unit → Machine → Prop}
    (hE : ∀ p m', E p m') (hkind : space.kind = .kernel) (h : Realm True L m space L.kroot 0)
    {err : AddressSpaceCreateError} (hQ : ∀ m', Returned L m' → Q (.error err) m') :
    (do
      space.destroy
      pure (.error err) : MM (Except AddressSpaceCreateError Unit)).Sat m Q E := by
  rw [Prog.sat_bind, AddressSpace.destroy, hkind, h.root]
  by_cases hcr : m.cr3 = L.kroot
  · have hactive : (m.table L.kroot).isActive m = true := decide_eq_true hcr
    simp only [PageTable.destroy, Prog.sat_bind, Prog.sat_get, Prog.sat_assert, hactive,
      Bool.not_true, Bool.false_eq_true, if_false]
    exact hE _ _
  · refine destroy_sat h.inv.tree h.inv.alloc h.typed hcr rfl fun m' hr _ => hQ m' ⟨_, hr.alloc, ?_⟩
    intro f
    by_cases hf : f ∈ L.subtree L.kroot []
    · refine iff_of_true (raze_role_of_mem hf) (.inr ?_)
      obtain ⟨q, hq⟩ := hf
      exact ⟨_, hq⟩
    · rw [raze_role_of_not_mem hf]
      refine ⟨.inl, fun hb => hb.resolve_right ?_⟩
      rintro ⟨p, hp⟩
      exact hf ⟨p, by rwa [List.append_nil]⟩

/-- `new_kernel` comes to a region that starts outside the direct map. -/
def LeaksAt (L : Layout) (m : Machine) (dm : DirectMap) (imageBase : ℕ)
    (regions : List MemoryRegion) : Prop :=
  ∃ pre region post, regions = pre ++ region :: post ∧ ¬ region.Skipped imageBase ∧
    dm.translate region.start = none ∧
    (∀ x ∈ pre, ¬ x.Skipped imageBase → ∃ start, dm.translate x.start = some start ∧
      RangeAccepted m ⟨true, false, false⟩ x.start start x.length) ∧
    Room L m (pre.flatMap (dm.regionPages imageBase)) 0

theorem leaksAt_nil : ¬ LeaksAt L m dm imageBase [] := by
  rintro ⟨pre, region, post, he, _⟩
  simp at he

theorem leaksAt_skipped (hskip : region.Skipped imageBase) :
    LeaksAt L m dm imageBase (region :: regions) ↔ LeaksAt L m dm imageBase regions := by
  have hpages : dm.regionPages imageBase region = [] := if_pos hskip
  constructor
  · rintro ⟨pre, last, post, he, hlast, hnone, hpre, hroom⟩
    cases pre with
    | nil =>
      cases he
      exact absurd hskip hlast
    | cons x pre =>
      cases he
      rw [List.flatMap_cons, hpages, List.nil_append] at hroom
      exact ⟨pre, last, post, rfl, hlast, hnone, fun y hy => hpre y (by simp [hy]), hroom⟩
  · rintro ⟨pre, last, post, rfl, hlast, hnone, hpre, hroom⟩
    refine ⟨region :: pre, last, post, rfl, hlast, hnone, fun y hy hys => ?_, ?_⟩
    · rcases List.mem_cons.mp hy with rfl | hy
      · exact absurd hskip hys
      · exact hpre y hy hys
    · rwa [List.flatMap_cons, hpages, List.nil_append]

theorem leaksAt_outside (hskip : ¬ region.Skipped imageBase)
    (hnone : dm.translate region.start = none) : LeaksAt L m dm imageBase (region :: regions) :=
  ⟨[], region, regions, rfl, hskip, hnone, nofun, Room.nil (Nat.zero_le _)⟩

section Mapped

variable {start : ℕ} (hskip : ¬ region.Skipped imageBase)
  (htranslate : dm.translate region.start = some start)

include hskip htranslate

theorem regionPages_eq :
    dm.regionPages imageBase region = runPages start 0 (region.length / FRAME_SIZE) := by
  rw [DirectMap.regionPages, if_neg hskip, htranslate]

/-- A region inside the direct map is followed by the others. -/
theorem leaksAt_inside : LeaksAt L m dm imageBase (region :: regions) ↔
    RangeAccepted m ⟨true, false, false⟩ region.start start region.length ∧
    ∃ pre last post, regions = pre ++ last :: post ∧ ¬ last.Skipped imageBase ∧
      dm.translate last.start = none ∧
      (∀ x ∈ pre, ¬ x.Skipped imageBase → ∃ start, dm.translate x.start = some start ∧
        RangeAccepted m ⟨true, false, false⟩ x.start start x.length) ∧
      Room L m (runPages start 0 (region.length / FRAME_SIZE) ++
        pre.flatMap (dm.regionPages imageBase)) 0 := by
  constructor
  · rintro ⟨pre, last, post, he, hlast, hnone, hpre, hroom⟩
    cases pre with
    | nil =>
      cases he
      rw [htranslate] at hnone
      cases hnone
    | cons x pre =>
      cases he
      obtain ⟨start', hstart, hacc⟩ := hpre region (by simp) hskip
      rw [htranslate] at hstart
      cases hstart
      rw [List.flatMap_cons, regionPages_eq hskip htranslate] at hroom
      exact ⟨hacc, pre, last, post, rfl, hlast, hnone, fun y hy => hpre y (by simp [hy]), hroom⟩
  · rintro ⟨hacc, pre, last, post, rfl, hlast, hnone, hpre, hroom⟩
    refine ⟨region :: pre, last, post, rfl, hlast, hnone, fun y hy hys => ?_, ?_⟩
    · rcases List.mem_cons.mp hy with rfl | hy
      · exact ⟨start, htranslate, hacc⟩
      · exact hpre y hy hys
    · rwa [List.flatMap_cons, regionPages_eq hskip htranslate]

end Mapped

/-- Pages of regions that are accepted are pages. -/
theorem accepted_page {x : MemoryRegion} {va : ℕ} (hx : ¬ x.Skipped imageBase → ∃ start,
    dm.translate x.start = some start ∧
      RangeAccepted m ⟨true, false, false⟩ x.start start x.length)
    (hva : va ∈ dm.regionPages imageBase x) : m.paging.mode.IsPage va := by
  by_cases hskip : x.Skipped imageBase
  · rw [DirectMap.regionPages, if_pos hskip] at hva
    cases hva
  · obtain ⟨start, hstart, hacc⟩ := hx hskip
    rw [regionPages_eq hskip hstart] at hva
    obtain ⟨i, _, hi, rfl⟩ := mem_runPages.mp hva
    rcases hacc with hz | ⟨_, _, _, _, _, hfits⟩
    · rw [hz] at hi
      simp at hi
    · exact hfits.page i (Nat.zero_le i) hi

theorem RangeAccepted.iff_of_paging (hp : m'.paging = m.paging) {permissions : PagePermissions}
    {phys start length : ℕ} : RangeAccepted m' permissions phys start length ↔
      RangeAccepted m permissions phys start length := by
  unfold RangeAccepted
  rw [RangeFits.iff_of_paging hp]

/-- A range of addresses with the memory behind it. -/
structure Span where
  phys : ℕ
  start : ℕ
  length : ℕ
  permissions : PagePermissions

def Span.Maps (s : Span) (v p : ℕ) : Prop :=
  s.start ≤ v ∧ v < s.start + s.length ∧ p = s.phys + (v - s.start)

/-- An address space maps these spans and nothing else. -/
structure AddressSpace.Shows (space : AddressSpace) (m : Machine) (spans : List Span) : Prop where
  translates : ∀ v, m.paging.mode.isCanonical v = true → ∀ p,
    space.toPhysical m.mem v = some p ↔ ∃ s ∈ spans, s.Maps v p
  permits : ∀ s ∈ spans, ∀ v p, m.paging.mode.isCanonical v = true → s.Maps v p →
    space.mapping m.mem v = some s.permissions
  whole : ∀ s ∈ spans, s.length ≠ 0 → s.phys % FRAME_SIZE = 0 ∧ s.length % FRAME_SIZE = 0

/-- What a range that has been mapped adds. -/
structure SpanMapped (space : AddressSpace) (s : Span) (m m' : Machine) : Prop where
  paging : m'.paging = m.paging
  fresh : ∀ d < s.length, space.toPhysical m.mem (s.start + d) = none
  maps : MapsExactly space s.phys s.start s.length s.permissions m m'
  aligned : s.length ≠ 0 → s.phys % FRAME_SIZE = 0

theorem AddressSpace.Shows.add {spans : List Span} {s : Span} (h : space.Shows m spans)
    (hs : SpanMapped space s m m') : space.Shows m' (spans ++ [s]) := by
  have hinside : ∀ v, s.start ≤ v → v < s.start + s.length →
      space.toPhysical m.mem v = none ∧
      space.toPhysical m'.mem v = some (s.phys + (v - s.start)) ∧
      space.mapping m'.mem v = some s.permissions := by
    intro v hlo hhi
    have hd : v - s.start < s.length := by omega
    have hread := hs.maps.pages _ hd
    have hfresh := hs.fresh _ hd
    rw [Nat.add_sub_of_le hlo] at hread hfresh
    exact ⟨hfresh, hread⟩
  refine ⟨?_, ?_, ?_⟩
  · intro v hc p
    rw [hs.paging] at hc
    simp only [List.mem_append, List.mem_singleton, or_and_right, exists_or, exists_eq_left]
    rw [← h.translates v hc p]
    by_cases hv : s.start ≤ v ∧ v < s.start + s.length
    · obtain ⟨hbefore, hafter, _⟩ := hinside v hv.1 hv.2
      rw [hbefore, hafter, Option.some.injEq, or_iff_right (by nofun)]
      exact ⟨fun hp => ⟨hv.1, hv.2, hp.symm⟩, fun hp => hp.2.2.symm⟩
    · have hsame : space.toPhysical m'.mem v = space.toPhysical m.mem v :=
        (hs.maps.others v (by omega)).1
      rw [hsame, or_iff_left]
      exact fun hp => hv ⟨hp.1, hp.2.1⟩
  · intro s' hs' v p hc hmaps
    rw [hs.paging] at hc
    rcases List.mem_append.mp hs' with hold | hnew
    · by_cases hv : s.start ≤ v ∧ v < s.start + s.length
      · have hbefore := (h.translates v hc p).mpr ⟨s', hold, hmaps⟩
        rw [(hinside v hv.1 hv.2).1] at hbefore
        cases hbefore
      · have hsame : space.mapping m'.mem v = space.mapping m.mem v :=
          (hs.maps.others v (by omega)).2
        rw [hsame]
        exact h.permits s' hold v p hc hmaps
    · rw [List.mem_singleton] at hnew
      subst hnew
      exact (hinside v hmaps.1 hmaps.2.1).2.2
  · intro s' hs' hlen
    rcases List.mem_append.mp hs' with hold | hnew
    · exact h.whole s' hold hlen
    · rw [List.mem_singleton] at hnew
      subst hnew
      exact ⟨hs.aligned hlen, hs.maps.whole⟩

/-- The direct map of some regions. -/
def DirectMap.spans (dm : DirectMap) (imageBase : ℕ) (regions : List MemoryRegion) : List Span :=
  (regions.filter fun region => ¬ region.Skipped imageBase).map fun region =>
    ⟨region.start, region.start + dm.offset, region.length, ⟨true, false, false⟩⟩

def KernelSegment.span (segment : KernelSegment) : Span :=
  ⟨segment.physicalBase, segment.virtualBase, segment.length, segment.permissions⟩

/-- The outcome of the direct-map loop of `new_kernel`. -/
structure RegionsOutcome (space : AddressSpace) (L : Layout) (m : Machine) (dm : DirectMap)
    (imageBase : ℕ) (regions : List MemoryRegion) (res : Except AddressSpaceCreateError Unit)
    (m' : Machine) : Prop where
  failed : ∀ err, res = .error err →
    LeaksAt L m dm imageBase regions ∧ (∃ L', AllocInv L' m' ∧ L'.role L.kroot ≠ .free) ∨
    ¬ LeaksAt L m dm imageBase regions ∧ Returned L m'
  done : res = .ok () → ¬ LeaksAt L m dm imageBase regions ∧
    (∃ L', Realm True L' m' space L'.kroot 0 ∧ Edit (Role.Lent L.kroot) L.kroot L m L' m') ∧
    ∀ spans, space.Shows m spans → space.Shows m' (spans ++ dm.spans imageBase regions)

/-- A range that is refused leaves the page table as it was. -/
theorem mapRange_spans {phys start length : ℕ} {permissions : PagePermissions}
    {cachePolicy : CachePolicy} (h : Realm True L m space L.kroot 0) :
    (space.mapRange phys start length permissions cachePolicy).Sat m
      (fun res m' => (∀ err, res = .error err → Realm True L m' space L.kroot 0) ∧
        (res = .ok () → SpanMapped space ⟨phys, start, length, permissions⟩ m m')) Prog.never := by
  refine mapRange_sat h (fun i _ => ⟨absurd trivial, .inl (h.rootFree trivial _)⟩) (absurd trivial)
    ?_ ?_
  · intro L' m' hadd hal hlen
    refine ⟨by simp, fun _ => ⟨hadd.edit.regs.paging, fun d hd => ?_,
      hadd.mapsExactly h (fun hz => (hal hz).1) hlen, fun hz => (hal hz).1⟩⟩
    have hi : d / FRAME_SIZE < length / FRAME_SIZE := by
      simp only [FRAME_SIZE] at hlen hd ⊢
      omega
    have hbefore := hadd.unmapped_before h hi (Nat.mod_lt d (by decide))
    have hpage : pageAt start (d / FRAME_SIZE) + d % FRAME_SIZE = start + d := by
      simp only [pageAt, FRAME_SIZE]
      omega
    rwa [hpage] at hbefore
  · intro err m' hr
    exact ⟨fun _ _ => h.edit hr.inv hr.edit (fun _ => not_lent_root)
      (.inr fun e => (hr.leaf _ _ e).mpr), by simp⟩

theorem spans_skipped (hskip : region.Skipped imageBase) :
    dm.spans imageBase (region :: regions) = dm.spans imageBase regions := by
  unfold DirectMap.spans
  rw [List.filter_cons_of_neg (by simpa using hskip)]

theorem spans_inside (hskip : ¬ region.Skipped imageBase) {start : ℕ}
    (htranslate : dm.translate region.start = some start) (spans : List Span) :
    spans ++ dm.spans imageBase (region :: regions) =
      spans ++ [⟨region.start, start, region.length, ⟨true, false, false⟩⟩] ++
        dm.spans imageBase regions := by
  have hstart : region.start + dm.offset = start := by
    rw [DirectMap.translate, checkedAdd] at htranslate
    split_ifs at htranslate
    exact Option.some.inj htranslate
  unfold DirectMap.spans
  rw [List.filter_cons_of_pos (by simpa using hskip), List.map_cons, hstart, List.append_assoc]
  rfl

theorem mapRegions_outcome (hkind : space.kind = .kernel)
    (h : Realm True L m space L.kroot 0) :
    (space.mapRegions dm imageBase regions).Sat m
      (RegionsOutcome space L m dm imageBase regions)
      (fun _ _ => ¬ LeaksAt L m dm imageBase regions) := by
  induction regions generalizing L m with
  | nil =>
    refine ⟨by simp, fun _ => ⟨leaksAt_nil, ⟨L, h, Edit.refl _ _ _ _⟩, fun spans hs => ?_⟩⟩
    rwa [show dm.spans imageBase [] = [] from rfl, List.append_nil]
  | cons region regions ih =>
    have hskipped : region.Skipped imageBase →
        (space.mapRegions dm imageBase regions).Sat m
          (RegionsOutcome space L m dm imageBase (region :: regions))
          (fun _ _ => ¬ LeaksAt L m dm imageBase (region :: regions)) := by
      intro hskip
      rw [leaksAt_skipped hskip]
      refine (ih h).mono (fun res m' hout => ⟨?_, ?_⟩) fun _ _ h => h
      · rw [leaksAt_skipped hskip]
        exact hout.failed
      · rw [leaksAt_skipped hskip, spans_skipped hskip]
        exact hout.done
    rw [AddressSpace.mapRegions, Prog.sat_ite]
    refine ⟨fun hskip => hskipped (.inl hskip), fun hkind₁ => ?_⟩
    rw [Prog.sat_ite]
    refine ⟨fun hskip => hskipped (.inr hskip), fun hkind₂ => ?_⟩
    have hskip : ¬ region.Skipped imageBase := fun hs => hs.elim hkind₁ hkind₂
    dsimp only
    cases htranslate : dm.translate region.start with
    | none =>
      -- the tables that have been made so far stay behind
      refine ⟨fun _ _ => .inl ⟨leaksAt_outside hskip htranslate, L, h.inv.alloc, ?_⟩, by simp⟩
      rw [h.typed]
      simp
    | some start =>
      rw [Prog.sat_bind]
      refine ((mapRange_spans h).and (mapRange_room hkind h)).mono ?_ fun _ _ hpanic => hpanic.1.elim
      rintro res m₁ ⟨⟨hrestored, hspan⟩, hout⟩
      cases res with
      | error err =>
        have hleaks : ¬ LeaksAt L m dm imageBase (region :: regions) := by
          rw [leaksAt_inside hskip htranslate]
          rintro ⟨hacc, pre, last, post, _, _, _, _, hroom⟩
          exact hout.1 err rfl hacc _ 0 hroom
        exact destroy_returned (fun _ _ => hleaks) hkind (hrestored err rfl) fun m' hret =>
          ⟨fun _ _ => .inr ⟨hleaks, hret⟩, by simp⟩
      | ok u =>
        obtain ⟨hacc, L₁, hrealm, hedit, hiff⟩ := hout.2 rfl
        have hp : m₁.paging = m.paging := hedit.regs.paging
        have hleaks : LeaksAt L m dm imageBase (region :: regions) ↔
            LeaksAt L₁ m₁ dm imageBase regions := by
          rw [leaksAt_inside hskip htranslate]
          constructor
          · rintro ⟨_, pre, last, post, rfl, hlast, hnone, hpre, hroom⟩
            refine ⟨pre, last, post, rfl, hlast, hnone, ?_, (hiff _ 0 fun va hva => ?_).mp hroom⟩
            · simp only [RangeAccepted.iff_of_paging hp]
              exact hpre
            · obtain ⟨x, hx, hva⟩ := List.mem_flatMap.mp hva
              exact accepted_page (hpre x hx) hva
          · rintro ⟨pre, last, post, rfl, hlast, hnone, hpre, hroom⟩
            simp only [RangeAccepted.iff_of_paging hp] at hpre
            refine ⟨hacc, pre, last, post, rfl, hlast, hnone, hpre,
              (hiff _ 0 fun va hva => ?_).mpr hroom⟩
            obtain ⟨x, hx, hva⟩ := List.mem_flatMap.mp hva
            exact accepted_page (hpre x hx) hva
        rw [hleaks]
        refine (ih hrealm).mono (fun res m' hrest => ⟨fun err he => ?_, fun he => ?_⟩) fun _ _ h => h
        · rw [hleaks]
          rcases hrest.failed err he with ⟨hleak, L', ha, hroot⟩ | ⟨hleak, hret⟩
          · exact .inl ⟨hleak, L', ha, by rwa [hedit.kroot] at hroot⟩
          · exact .inr ⟨hleak, hret.edit hedit⟩
        · rw [hleaks]
          obtain ⟨hleak, ⟨L', hrealm', hedit'⟩, hshows⟩ := hrest.done he
          rw [hedit.kroot] at hedit'
          refine ⟨hleak, ⟨L', hrealm', hedit.trans hedit'⟩, fun spans hs => ?_⟩
          rw [spans_inside hskip htranslate]
          exact hshows _ (hs.add (hspan rfl))

/-- The kernel-image loop of `new_kernel` returns what was borrowed where it fails. -/
theorem mapSegments_outcome (hE : ∀ p m', E p m') (hkind : space.kind = .kernel)
    {segments : List KernelSegment} (h : Realm True L m space L.kroot 0) :
    (space.mapSegments segments).Sat m
      (fun res m' => (∀ err, res = .error err → Returned L m') ∧
        (res = .ok () →
          (∃ L', Realm True L' m' space L'.kroot 0 ∧ Edit (Role.Lent L.kroot) L.kroot L m L' m') ∧
          ∀ spans, space.Shows m spans →
            space.Shows m' (spans ++ segments.map KernelSegment.span))) E := by
  induction segments generalizing L m with
  | nil =>
    refine ⟨by simp, fun _ => ⟨⟨L, h, Edit.refl _ _ _ _⟩, fun spans hs => ?_⟩⟩
    rwa [List.map_nil, List.append_nil]
  | cons segment segments ih =>
    rw [AddressSpace.mapSegments, Prog.sat_bind]
    refine ((mapRange_spans h).and (mapRange_room hkind h)).mono ?_ fun _ _ _ => hE _ _
    rintro res m₁ ⟨⟨hrestored, hspan⟩, hout⟩
    cases res with
    | error err =>
      exact destroy_returned hE hkind (hrestored err rfl) fun m' hret => ⟨fun _ _ => hret, by simp⟩
    | ok u =>
      obtain ⟨_, L₁, hrealm, hedit, _⟩ := hout.2 rfl
      refine (ih hrealm).mono (fun res m' hrest => ⟨fun err he => (hrest.1 err he).edit hedit,
        fun he => ?_⟩) fun _ _ h => h
      obtain ⟨⟨L', hrealm', hedit'⟩, hshows⟩ := hrest.2 he
      rw [hedit.kroot] at hedit'
      refine ⟨⟨L', hrealm', hedit.trans hedit'⟩, fun spans hs => ?_⟩
      have := hshows _ (hs.add (hspan rfl))
      rwa [List.append_assoc] at this

/-- The places of the tables, the root apart, on the way to some pages. -/
def PagingMode.tablePaths (mode : PagingMode) (pages : Finset ℕ) : Finset (List ℕ) :=
  pages.biUnion fun va => (tableIndices mode va).inits.toFinset.erase []

/-- `new_kernel` gets to a region that starts outside the direct map: every region before it
is left out or can be mapped, and there are frames for the root and for the tables. -/
def Machine.LeaksRoot (m : Machine) (imageBase : ℕ) (regions : List MemoryRegion) : Prop :=
  ∃ pre region post, regions = pre ++ region :: post ∧ ¬ region.Skipped imageBase ∧
    m.allocator.directMap.translate region.start = none ∧
    (∀ x ∈ pre, ¬ x.Skipped imageBase → ∃ start,
      m.allocator.directMap.translate x.start = some start ∧
        RangeAccepted m ⟨true, false, false⟩ x.start start x.length) ∧
    (pre.flatMap (m.allocator.directMap.regionPages imageBase)).Nodup ∧
    (m.paging.mode.tablePaths
      (pre.flatMap (m.allocator.directMap.regionPages imageBase)).toFinset).card < m.offers.card

theorem Machine.LeaksRoot.offers (h : m.LeaksRoot imageBase regions) : m.offers ≠ ∅ := by
  obtain ⟨_, _, _, _, _, _, _, _, hframes⟩ := h
  intro hempty
  rw [hempty] at hframes
  exact absurd hframes (by simp)

section Root

variable {f : ℕ} (ht : L.Takes m f m') (h : AllocInv L m) (honly : AllocOnly m m')
  (ha : AllocInv (L.set f (.data .spare)) m') (hnone : ∀ g r p, L.role g ≠ .table r p)
  (hlim : startAddress f < m.paging.physicalAddressLimit) (hzero : ∀ i, m'.mem.word f i = 0)

/-- The layout with the new root. -/
def Layout.withRoot (L : Layout) (f : ℕ) : Layout := (L.set f (.data .spare)).rooted f

include hnone in
theorem withRoot_bare (g r : ℕ) (p : List ℕ) :
    (L.set f (.data .spare)).role g ≠ .table r p := by
  intro hg
  by_cases hgf : g = f
  · rw [hgf, Layout.set_role_self] at hg
    cases hg
  · rw [Layout.set_role_of_ne L hgf] at hg
    exact hnone g r p hg

include honly ha hnone hlim hzero in
theorem withRoot_realm : Realm True (L.withRoot f) m' ⟨m.table f, .kernel⟩ f 0 := by
  have hinv : PtInv (fun _ => False) (L.withRoot f) m' := by
    refine PtInv.first (Layout.set_role_self L f _) (withRoot_bare hnone) ha ?_ hzero
    rwa [honly.regs.paging]
  refine ⟨⟨hinv, absurd trivial, absurd trivial⟩, (honly.regs.table f).symm, hinv.kroot,
    absurd trivial, fun _ => ⟨rfl, fun r hr => ?_⟩, .inl ?_⟩
  · exact (rooted_role (withRoot_bare hnone) hr).1
  · exact .inr (.inr fun r hr => (rooted_role (withRoot_bare hnone) hr).1)

include ht hnone in
/-- What the new page table borrows are the frames that were free. -/
theorem borrowed_withRoot (g : ℕ) : Borrowed (L.withRoot f) g ↔ L.role g = .free := by
  unfold Borrowed
  by_cases hg : g = f
  · rw [hg]
    exact iff_of_true (.inr ⟨[], rooted_role_self _ f⟩) ht.next.free
  · rw [Layout.withRoot, rooted_role_of_ne _ hg, Layout.set_role_of_ne L hg, or_iff_left]
    rintro ⟨p, hp⟩
    exact hnone g _ p hp

include ht h honly ha hnone hlim hzero in
theorem leaksAt_withRoot (hdm : dm = m.allocator.directMap) :
    LeaksAt (L.withRoot f) m' dm imageBase regions ↔ m.LeaksRoot imageBase regions := by
  have hrealm := withRoot_realm honly ha hnone hlim hzero
  have hp : m'.paging = m.paging := honly.regs.paging
  have hcard : ((L.withRoot f).offers m').card + 1 = m.offers.card := by
    rw [← h.offers_eq, ← ht.card_offers h rfl ha hp hlim]
    refine congrArg (Finset.card · + 1) (ha.offers_congr hrealm.inv.alloc (fun g => ?_) rfl rfl)
    by_cases hg : g = f
    · rw [hg, Layout.withRoot, rooted_role_self, Layout.set_role_self]
      exact iff_of_false (by nofun) (by nofun)
    · rw [Layout.withRoot, rooted_role_of_ne _ hg]
  have hpaths : ∀ pages, (m'.table f).missingTables m'.mem pages =
      m.paging.mode.tablePaths pages := by
    intro pages
    unfold PageTable.missingTables PagingMode.tablePaths
    refine Finset.biUnion_congr rfl fun va _ => Finset.ext fun path => ?_
    have hmem := @MemInv.mem_missing _ _ _ va hrealm.inv path
    rw [hp] at hmem
    show path ∈ missingPaths m'.paging m'.mem (tableIndices m'.paging.mode va) f ↔ _
    rw [hp, show f = (L.withRoot f).kroot from rfl, hmem, Finset.mem_erase, List.mem_toFinset,
      List.mem_inits]
    constructor
    · exact fun hpath => ⟨hpath.2.1, hpath.1⟩
    · exact fun hpath => ⟨hpath.2, hpath.1, fun q e => rooted_leaf (withRoot_bare hnone)⟩
  unfold LeaksAt Machine.LeaksRoot
  rw [hdm]
  simp only [RangeAccepted.iff_of_paging hp]
  refine exists_congr fun pre => exists_congr fun region => exists_congr fun post =>
    and_congr_right fun _ => and_congr_right fun _ => and_congr_right fun _ =>
      and_congr_right fun _ => ?_
  constructor
  · rintro ⟨hnodup, _, hframes⟩
    rw [show (L.withRoot f).kroot = f from rfl, hpaths, Nat.zero_add] at hframes
    exact ⟨hnodup, by omega⟩
  · rintro ⟨hnodup, hframes⟩
    refine ⟨hnodup, fun _ _ e => rooted_leaf (withRoot_bare hnone), ?_⟩
    rw [show (L.withRoot f).kroot = f from rfl, hpaths, Nat.zero_add]
    omega

end Root

/-- The outcome of `new_kernel`: a failure keeps frames exactly where the root leaks, and a
success maps the direct map and the image. -/
structure KernelOutcome (m : Machine) (regions : List MemoryRegion) (segments : List KernelSegment)
    (imageBase : ℕ) (res : Except AddressSpaceCreateError AddressSpace) (m' : Machine) : Prop where
  failed : ∀ err, res = .error err →
    (m'.freeFrameSet = m.freeFrameSet ↔ ¬ m.LeaksRoot imageBase regions)
  done : ∀ space, res = .ok space → ¬ m.LeaksRoot imageBase regions ∧
    m'.paging = m.paging ∧ m'.SoundAllocator ∧ space.root.Intact m' ∧
    space.Shows m' (m.allocator.directMap.spans imageBase regions ++ segments.map KernelSegment.span)

theorem KernelOutcome.refused {segments : List KernelSegment} {err : AddressSpaceCreateError}
    (hfree : m'.freeFrameSet = m.freeFrameSet) (hleaks : ¬ m.LeaksRoot imageBase regions) :
    KernelOutcome m regions segments imageBase (.error err) m' :=
  ⟨fun _ _ => iff_of_true hfree hleaks, nofun⟩

theorem newKernel_outcome (h : AllocInv L m) (hnone : ∀ g r p, L.role g ≠ .table r p)
    (regions : List MemoryRegion) (text rodata data : KernelSegment) :
    (AddressSpace.newKernel m.allocator.directMap regions text rodata data m.paging).Sat m
      (KernelOutcome m regions [text, rodata, data] text.physicalBase)
      (fun _ _ => ¬ m.LeaksRoot text.physicalBase regions) := by
  simp only [AddressSpace.newKernel, PageTable.new, Prog.sat_bind]
  refine alloc_sat h (fun hfull => .refused rfl fun hleak => hleak.offers ?_) ?_
  · rw [← h.offers_eq, Finset.eq_empty_iff_forall_notMem]
    exact fun f hf => hfull f (h.mem_offers.mp hf).1
  intro f m₁ ht ha honly _ hzero
  rw [Prog.sat_ite]
  refine ⟨fun hlim => ?_, fun hlim => ?_⟩
  · -- a root that no entry can name goes back at once
    rw [Prog.sat_bind]
    refine dealloc_sat ha (by rw [Layout.set_role_self]; rfl) fun m' ha' _ _ => ?_
    refine .refused ?_ fun hleak => hleak.offers ?_
    · have hback : (L.set f (.data .spare)).set f .free = L := by
        rw [Layout.set_set, Layout.set, ← ht.next.free, Function.update_eq_self]
      rw [hback] at ha'
      exact h.freeFrameSet_congr ha'
    · rw [← h.offers_eq]
      exact ht.next.offers_empty h hlim
  rw [not_le] at hlim
  have hrealm := withRoot_realm honly ha hnone hlim hzero
  have hleaks : LeaksAt (L.withRoot f) m₁ m.allocator.directMap text.physicalBase regions ↔
      m.LeaksRoot text.physicalBase regions := leaksAt_withRoot ht h honly ha hnone hlim hzero rfl
  have hreturned : ∀ m', Returned (L.withRoot f) m' → m'.freeFrameSet = m.freeFrameSet := by
    rintro m' ⟨L', ha', hfree⟩
    ext g
    rw [ha'.mem_freeFrameSet, h.mem_freeFrameSet, hfree, borrowed_withRoot ht hnone]
  rw [Prog.sat_pure, Prog.sat_bind, ← hleaks]
  refine (mapRegions_outcome rfl hrealm).mono ?_ fun _ _ hpanic => hpanic
  intro res m₂ hout
  cases res with
  | error err =>
    refine ⟨fun _ _ => ?_, by simp⟩
    rw [← hleaks]
    rcases hout.failed err rfl with ⟨hleak, L', ha', hroot⟩ | ⟨hleak, hret⟩
    · refine iff_of_false (fun hfree => hroot ?_) (fun hn => hn hleak)
      rw [← ha'.mem_freeFrameSet, hfree, h.mem_freeFrameSet]
      exact ht.next.free
    · exact iff_of_true (hreturned _ hret) hleak
  | ok u =>
    obtain ⟨hleak, ⟨L₂, hrealm₂, hedit₂⟩, hshows₂⟩ := hout.done rfl
    dsimp only
    rw [Prog.sat_bind]
    refine (mapSegments_outcome (fun _ _ => hleak) rfl hrealm₂).mono ?_ fun _ _ hpanic => hpanic
    intro res m₃ hrest
    cases res with
    | error err =>
      refine ⟨fun _ _ => iff_of_true (hreturned _ ((hrest.1 err rfl).edit hedit₂)) ?_, by simp⟩
      rwa [← hleaks]
    | ok u =>
      obtain ⟨⟨L₃, hrealm₃, hedit₃⟩, hshows₃⟩ := hrest.2 rfl
      refine ⟨by simp, fun space hspace => ?_⟩
      cases hspace
      refine ⟨by rwa [← hleaks], ?_, hrealm₃.inv.alloc.soundAllocator,
        hrealm₃.inv.intact hrealm₃.root, hshows₃ _ ?_⟩
      · rw [hedit₃.regs.paging, hedit₂.regs.paging, honly.regs.paging]
      · refine hshows₂ [] ⟨fun v hc p => ?_, by simp, by simp⟩
        refine iff_of_false ?_ (by simp)
        rw [AddressSpace.toPhysical, hrealm.root, (hrealm.inv.toPhysical_none hrealm.typed hc
          (.inl rfl)).mpr fun e => rooted_leaf (withRoot_bare hnone)]
        simp

end Dusk
