import Dusk.Proofs.NewKernel

/-! The kernel address space: `AddressSpace::new_kernel` maps the direct map and the kernel
image and nothing else, and what it does with its frames where it fails. -/

namespace Dusk

open Lib FrameAllocator

variable {m m' : Machine} {space : AddressSpace} {regions : List MemoryRegion}
  {text rodata data : KernelSegment}

/-- The address lies in the direct map, with the memory of a region behind it. -/
def DirectMap.Reaches (dm : DirectMap) (imageBase : ℕ) (regions : List MemoryRegion) (v p : ℕ) :
    Prop :=
  ∃ region ∈ regions, ¬ region.Skipped imageBase ∧ region.Has p ∧ v = dm.offset + p

def KernelSegment.Has (segment : KernelSegment) (p : ℕ) : Prop :=
  segment.physicalBase ≤ p ∧ p < segment.physicalBase + segment.length

/-- The address lies in the segment, at the physical offset `p` of the segment. -/
def KernelSegment.Reaches (segment : KernelSegment) (v p : ℕ) : Prop :=
  segment.Has p ∧ v = segment.virtualBase + (p - segment.physicalBase)

theorem DirectMap.reaches_iff (dm : DirectMap) (imageBase v p : ℕ) :
    dm.Reaches imageBase regions v p ↔ ∃ s ∈ dm.spans imageBase regions, s.Maps v p := by
  unfold DirectMap.Reaches DirectMap.spans
  simp only [List.mem_map, List.mem_filter, decide_eq_true_eq, exists_exists_and_eq_and]
  refine exists_congr fun region => ?_
  rw [and_assoc]
  refine and_congr_right fun _ => and_congr_right fun _ => ?_
  simp only [Span.Maps, MemoryRegion.Has]
  omega

theorem KernelSegment.reaches_iff (segment : KernelSegment) (v p : ℕ) :
    segment.Reaches v p ↔ segment.span.Maps v p := by
  simp only [KernelSegment.Reaches, KernelSegment.Has, KernelSegment.span, Span.Maps]
  omega

/-- What `load_boot_info` gives to the segments of the image, and what the debug assertions
there and in `new_kernel` check of them. -/
structure ImageLayout (regions : List MemoryRegion) (text rodata data : KernelSegment) : Prop where
  disjoint : regions.Pairwise fun a b => ∀ x, ¬ (a.Has x ∧ b.Has x)
  rodata_base : rodata.physicalBase = text.physicalBase + text.length
  data_base : data.physicalBase = rodata.physicalBase + rodata.length
  union : ∃ region ∈ regions, region.kind = .kernelAndModules ∧
    region.start = text.physicalBase ∧ region.length = text.length + rodata.length + data.length
  text_permissions : text.permissions = ⟨false, true, false⟩
  rodata_permissions : rodata.permissions = ⟨false, false, false⟩
  data_permissions : data.permissions = ⟨true, false, false⟩

/-- The address space maps the direct map and the image. -/
structure KernelMapped (space : AddressSpace) (m' : Machine) (dm : DirectMap)
    (regions : List MemoryRegion) (text rodata data : KernelSegment) : Prop where
  translates : ∀ v p, m'.paging.mode.isCanonical v = true →
    (space.toPhysical m'.mem v = some p ↔ dm.Reaches text.physicalBase regions v p ∨
      ∃ segment ∈ [text, rodata, data], segment.Reaches v p)
  direct : ∀ v p, m'.paging.mode.isCanonical v = true → dm.Reaches text.physicalBase regions v p →
    space.mapping m'.mem v = some ⟨true, false, false⟩
  image : ∀ segment ∈ [text, rodata, data], ∀ v p, m'.paging.mode.isCanonical v = true →
    segment.Reaches v p → space.mapping m'.mem v = some segment.permissions
  /-- No frame of the text or of the read-only data has a writable mapping. -/
  constant : ImageLayout regions text rodata data → ∀ x, text.Has x ∨ rodata.Has x →
    ∀ v p, space.toPhysical m'.mem v = some p → p / FRAME_SIZE = x / FRAME_SIZE →
      ∃ permissions, space.mapping m'.mem v = some permissions ∧ permissions.writable = false

/-- Two regions of a list that are not the same have no byte in common. -/
theorem ImageLayout.apart (h : ImageLayout regions text rodata data) {a b : MemoryRegion}
    (ha : a ∈ regions) (hb : b ∈ regions) (hne : a ≠ b) (x : ℕ) : ¬ (a.Has x ∧ b.Has x) := by
  have hsymm : Std.Symm fun a b : MemoryRegion => ∀ x, ¬ (a.Has x ∧ b.Has x) :=
    ⟨fun a b h x hx => h x hx.symm⟩
  exact h.disjoint.forall ha hb hne x

/-- The region of the image is left out, so that no other one reaches its frames. -/
theorem ImageLayout.not_reaches (h : ImageLayout regions text rodata data) {dm : DirectMap}
    {v p : ℕ} (hp : text.Has p ∨ rodata.Has p) :
    ¬ dm.Reaches text.physicalBase regions v p := by
  rintro ⟨region, hregion, hskip, hhas, _⟩
  obtain ⟨image, himage, hkind, hstart, hlength⟩ := h.union
  have hne : region ≠ image := by
    rintro rfl
    exact hskip (.inr ⟨hkind, hstart⟩)
  refine h.apart hregion himage hne p ⟨hhas, ?_⟩
  have hro := h.rodata_base
  unfold KernelSegment.Has at hp
  unfold MemoryRegion.Has
  omega

theorem ImageLayout.writable (h : ImageLayout regions text rodata data) {segment : KernelSegment}
    (hs : segment ∈ [text, rodata, data]) {p : ℕ} (hp : text.Has p ∨ rodata.Has p)
    (hseg : segment.Has p) : segment.permissions.writable = false := by
  simp only [List.mem_cons, List.not_mem_nil, or_false] at hs
  rcases hs with rfl | rfl | rfl
  · rw [h.text_permissions]
  · rw [h.rodata_permissions]
  · have hro := h.rodata_base
    have hda := h.data_base
    unfold KernelSegment.Has at hp hseg
    omega

/-- The frames of a segment that has been mapped belong to it as a whole. -/
theorem KernelSegment.has_frame {segment : KernelSegment} {x p : ℕ}
    (hwhole : segment.length ≠ 0 → segment.physicalBase % FRAME_SIZE = 0 ∧
      segment.length % FRAME_SIZE = 0) (hx : segment.Has x)
    (hp : p / FRAME_SIZE = x / FRAME_SIZE) : segment.Has p := by
  unfold KernelSegment.Has at hx ⊢
  obtain ⟨hbase, hlen⟩ := hwhole (by omega)
  simp only [FRAME_SIZE] at hbase hlen hp
  omega

theorem AddressSpace.Shows.kernelMapped {dm : DirectMap} (hconfig : space.root.config = m'.paging)
    (h : space.Shows m' (dm.spans text.physicalBase regions ++
      [text, rodata, data].map KernelSegment.span)) :
    KernelMapped space m' dm regions text rodata data := by
  have htranslates : ∀ v p, m'.paging.mode.isCanonical v = true →
      (space.toPhysical m'.mem v = some p ↔ dm.Reaches text.physicalBase regions v p ∨
        ∃ segment ∈ [text, rodata, data], segment.Reaches v p) := by
    intro v p hc
    rw [h.translates v hc p, dm.reaches_iff]
    simp only [KernelSegment.reaches_iff, List.mem_append, or_and_right, exists_or, List.mem_map,
      exists_exists_and_eq_and]
  have himage : ∀ segment ∈ [text, rodata, data], ∀ v p, m'.paging.mode.isCanonical v = true →
      segment.Reaches v p → space.mapping m'.mem v = some segment.permissions := by
    intro segment hs v p hc hr
    rw [segment.reaches_iff] at hr
    exact h.permits segment.span (List.mem_append_right _ (List.mem_map_of_mem hs)) v p hc hr
  have hwhole : ∀ segment ∈ [text, rodata, data], segment.length ≠ 0 →
      segment.physicalBase % FRAME_SIZE = 0 ∧ segment.length % FRAME_SIZE = 0 :=
    fun segment hs => h.whole segment.span (List.mem_append_right _ (List.mem_map_of_mem hs))
  refine ⟨htranslates, ?_, himage, ?_⟩
  · intro v p hc hr
    obtain ⟨s, hs, hmaps⟩ := (dm.reaches_iff _ v p).mp hr
    rw [h.permits s (List.mem_append_left _ hs) v p hc hmaps]
    obtain ⟨region, _, rfl⟩ := List.mem_map.mp hs
    rfl
  · intro hlayout x hx v p hv hp
    have hhas : text.Has p ∨ rodata.Has p :=
      hx.imp (fun hx => KernelSegment.has_frame (hwhole text (by simp)) hx hp)
        (fun hx => KernelSegment.has_frame (hwhole rodata (by simp)) hx hp)
    have hc : m'.paging.mode.isCanonical v = true := by
      by_contra hn
      rw [AddressSpace.toPhysical, PageTable.toPhysical, PageTable.isCanonical, hconfig,
        Bool.eq_false_of_not_eq_true hn] at hv
      cases hv
    rcases (htranslates v p hc).mp hv with hdirect | ⟨segment, hs, hr⟩
    · exact absurd hdirect (hlayout.not_reaches hhas)
    · exact ⟨segment.permissions, himage segment hs v p hc hr, hlayout.writable hs hhas hr.1⟩

/-- `new_kernel` maps exactly the direct map and the kernel image. -/
theorem new_kernel_maps_exactly (ha : m.SoundAllocator)
    (hrun : AddressSpace.newKernel m.allocator.directMap regions text rodata data m.paging m =
      .ok (.ok space) m') :
    m'.paging = m.paging ∧
      KernelMapped space m' m.allocator.directMap regions text rodata data := by
  obtain ⟨L, h, hnone⟩ := ha.bare
  obtain ⟨_, hpaging, _, hintact, hshows⟩ :=
    ((newKernel_outcome h hnone regions text rodata data).of_ok hrun).done space rfl
  exact ⟨hpaging, hshows.kernelMapped hintact.config_eq⟩

section SmallImage

def smallText : KernelSegment := ⟨0x20000, 0xFFFF_FFFF_8000_0000, 0x1000, ⟨false, true, false⟩⟩

def smallRodata : KernelSegment := ⟨0x21000, 0xFFFF_FFFF_8000_1000, 0x1000, ⟨false, false, false⟩⟩

def smallData : KernelSegment := ⟨0x22000, 0xFFFF_FFFF_8000_2000, 0x1000, ⟨true, false, false⟩⟩

def smallRegions : List MemoryRegion :=
  [⟨0x1000, 0x2000, .usable⟩, ⟨0x20000, 0x3000, .kernelAndModules⟩]

theorem smallImage_layout : ImageLayout smallRegions smallText smallRodata smallData := by
  refine ⟨?_, rfl, rfl, ⟨⟨0x20000, 0x3000, .kernelAndModules⟩, by simp [smallRegions], rfl, rfl, rfl⟩,
    rfl, rfl, rfl⟩
  simp [smallRegions, MemoryRegion.Has]
  omega

/-- A small machine just after its allocator has been made. -/
theorem smallTable_fresh (mode : PagingMode) (test : Machine → Bool)
    (h : (smallTable mode []).any (fun t => test t.pool.machine) = true) :
    ∃ m : Machine, m.SoundAllocator ∧ test m = true := by
  obtain ⟨t, ht, htest⟩ := (Option.any_eq_true _ _).mp h
  obtain ⟨L, hinv⟩ := (smallTable_reached ht).inv smallMap_disjoint smallMap_direct
  exact ⟨t.pool.machine, hinv.pool.alloc.soundAllocator, htest⟩

end SmallImage

/-- Two pages of the direct map and an image of three pages. -/
theorem new_kernel_maps_exactly_small : ∃ m space m', m.SoundAllocator ∧
    AddressSpace.newKernel m.allocator.directMap smallRegions smallText smallRodata smallData
      m.paging m = .ok (.ok space) m' ∧
    KernelMapped space m' m.allocator.directMap smallRegions smallText smallRodata smallData ∧
    ImageLayout smallRegions smallText smallRodata smallData := by
  obtain ⟨m, ha, htest⟩ := smallTable_fresh .fourLevel (fun m =>
    match AddressSpace.newKernel m.allocator.directMap smallRegions smallText smallRodata smallData
      m.paging m with
    | .ok (.ok _) _ => true
    | _ => false) (by decide +kernel)
  split at htest
  case h_1 space m' hok =>
    exact ⟨m, space, m', ha, hok, (new_kernel_maps_exactly ha hok).2, smallImage_layout⟩
  case h_2 => cases htest

/-- `new_kernel` returns its frames where it fails, exactly unless it gets to a region that
starts outside the direct map. -/
theorem new_kernel_returns_frames_iff (ha : m.SoundAllocator) (regions : List MemoryRegion)
    (text rodata data : KernelSegment) :
    (∀ err m', AddressSpace.newKernel m.allocator.directMap regions text rodata data m.paging m =
      .ok (.error err) m' → m'.freeFrameSet = m.freeFrameSet) ↔
      ¬ m.LeaksRoot text.physicalBase regions := by
  obtain ⟨L, h, hnone⟩ := ha.bare
  have hout := newKernel_outcome h hnone regions text rodata data
  constructor
  · intro hreturns hleaks
    cases hrun : AddressSpace.newKernel m.allocator.directMap regions text rodata data m.paging m with
    | ok res m' =>
      cases res with
      | ok space => exact ((hout.of_ok hrun).done space rfl).1 hleaks
      | error err => exact ((hout.of_ok hrun).failed err rfl).mp (hreturns err m' hrun) hleaks
    | stop p m' => exact hout.of_stop hrun hleaks
  · intro hleaks err m' hrun
    exact ((hout.of_ok hrun).failed err rfl).mpr hleaks

/-- The direct map runs into itself, and all that was mapped goes back. -/
theorem new_kernel_returns_frames_small : ∃ m err m', m.SoundAllocator ∧
    AddressSpace.newKernel m.allocator.directMap (smallRegions ++ smallRegions) smallText smallRodata
      smallData m.paging m = .ok (.error err) m' ∧ m'.freeFrameSet = m.freeFrameSet ∧
    ¬ m.LeaksRoot smallText.physicalBase (smallRegions ++ smallRegions) := by
  obtain ⟨m, ha, htest⟩ := smallTable_fresh .fourLevel (fun m => m.allocator.directMap =
    smallDirectMap && match AddressSpace.newKernel m.allocator.directMap
        (smallRegions ++ smallRegions) smallText smallRodata smallData m.paging m with
      | .ok (.error _) _ => true
      | _ => false) (by decide +kernel)
  obtain ⟨hdm, htest⟩ := (Bool.and_eq_true _ _).mp htest
  have hleaks : ¬ m.LeaksRoot smallText.physicalBase (smallRegions ++ smallRegions) := by
    rintro ⟨pre, region, post, he, _, hnone, _⟩
    have hregion : region ∈ smallRegions ++ smallRegions := by
      rw [he]
      simp
    rw [of_decide_eq_true hdm] at hnone
    simp only [smallRegions, List.cons_append, List.nil_append, List.mem_cons, List.not_mem_nil,
      or_false] at hregion
    rcases hregion with rfl | rfl | rfl | rfl <;> exact absurd hnone (by decide)
  split at htest
  case h_1 err m' hfail =>
    exact ⟨m, err, m', ha, hfail,
      (new_kernel_returns_frames_iff ha _ smallText smallRodata smallData).mpr hleaks err m' hfail,
      hleaks⟩
  case h_2 => cases htest

/-- A region that starts at `2 ^ 47` has no place in the direct map: the root, and the tables
of the region before it, are lost. -/
theorem new_kernel_loses_root : ∃ m m', m.SoundAllocator ∧
    AddressSpace.newKernel m.allocator.directMap
      [⟨0x1000, 0x2000, .usable⟩, ⟨0x8000_0000_0000, 0x1000, .usable⟩] smallText smallRodata
      smallData m.paging m = .ok (.error .addressOutsideDirectMap) m' ∧
    m'.allocator.freeFrames + 4 = m.allocator.freeFrames ∧
    m'.freeFrameSet ≠ m.freeFrameSet := by
  obtain ⟨m, ha, htest⟩ := smallTable_fresh .fourLevel (fun m =>
    match AddressSpace.newKernel m.allocator.directMap
      [⟨0x1000, 0x2000, .usable⟩, ⟨0x8000_0000_0000, 0x1000, .usable⟩] smallText smallRodata
      smallData m.paging m with
    | .ok (.error .addressOutsideDirectMap) m' =>
      (m'.allocator.freeFrames + 4 = m.allocator.freeFrames : Bool) &&
        (List.range m.frameCount).any fun f =>
          m.frameState f = some .free && m'.frameState f = some .allocated
    | _ => false) (by decide +kernel)
  split at htest
  case h_1 m' hfail =>
    obtain ⟨hcount, hlost⟩ := (Bool.and_eq_true _ _).mp htest
    refine ⟨m, m', ha, hfail, of_decide_eq_true hcount, fun hsame => ?_⟩
    obtain ⟨f, hf, hlost⟩ := List.any_eq_true.mp hlost
    obtain ⟨hfree, hallocated⟩ := (Bool.and_eq_true _ _).mp hlost
    have hmem : f ∈ m'.freeFrameSet := by
      rw [hsame]
      exact Finset.mem_filter.mpr ⟨Finset.mem_range.mpr (List.mem_range.mp hf),
        of_decide_eq_true hfree⟩
    have := (Finset.mem_filter.mp hmem).2
    rw [of_decide_eq_true hallocated] at this
    cases this
  case h_2 => cases htest

end Dusk
