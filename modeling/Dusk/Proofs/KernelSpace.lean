import Dusk.Proofs.Stack
import Dusk.Proofs.Regions

/-! `AddressSpace::new_kernel` and the ranges mapped at boot. A boot that fails
panics, so that nothing is said of it here. -/

namespace Dusk

open Lib Radix

variable {L L' L'' L₁ : Layout} {m m' m'' m₁ : Machine} {r va pa start phys n : ℕ}
  {space : AddressSpace} {permissions : PagePermissions} {cachePolicy : CachePolicy}
  {E : Panic → Machine → Prop}

/-- A page mapped at boot. -/
structure Mapped (L : Layout) (m : Machine) (r va pa : ℕ) (L' : Layout) (m' : Machine) : Prop where
  inv : MemInv noPages L' m'
  edit : Edit (Role.Lent r) r L m L' m'
  canonical : m.paging.mode.isCanonical va = true
  aligned : va % FRAME_SIZE = 0
  user : r ≠ L.kroot → va < USER_SPACE_END
  page : ∃ e, LeafAt L' m' r (pagePath m.paging.mode va) e ∧
    entryFrame m.paging e = pa / FRAME_SIZE
  new : ∀ r' q e, LeafAt L' m' r' q e → LeafAt L m r' q e ∨
    r' = r ∧ q = pagePath m.paging.mode va
  fresh : ∀ e, ¬ LeafAt L m r (pagePath m.paging.mode va) e
  kept : ∀ r' q e, LeafAt L m r' q e → LeafAt L' m' r' q e

theorem AddressSpace.map_mapped {Q : Except MapError Unit → Machine → Prop}
    (hs : SpaceOf L m space r) (h : MemInv noPages L m) (hfree : RootFree L r [])
    (hhalf : r = L.kroot → 2 ^ 63 ≤ va)
    (huser : permissions.userAccessible = decide (r ≠ L.kroot))
    (herr : ∀ err m', Q (.error err) m')
    (hQ : ∀ L' m', Mapped L m r va pa L' m' → Q (.ok ()) m') :
    (space.map pa va permissions cachePolicy).Sat m Q E := by
  rw [AddressSpace.map]
  rw [Prog.sat_ite]
  refine ⟨fun _ => herr _ _, fun hva => ?_⟩
  rw [Prog.sat_ite]
  refine ⟨fun _ => herr _ _, fun _ => ?_⟩
  cases hframe : fromStartAddress pa with
  | none => exact herr _ _
  | some frame =>
    have hpa : frame = pa / FRAME_SIZE := by
      rw [fromStartAddress] at hframe
      split_ifs at hframe
      exact (Option.some.inj hframe).symm
    have huserva : r ≠ L.kroot → va < USER_SPACE_END := by
      intro hr
      by_contra hge
      exact hva ⟨by rw [hs.kind, if_neg hr], by omega⟩
    simp only [Prog.sat_bind]
    refine Dusk.map_sat hs.tableOf hs.frame h hs.typed ?_ ?_
    · intro hc
      refine ⟨?_, fun _ hi => ?_, .inl hfree, fun _ => huser, by simp⟩
      · by_cases hr : r = L.kroot
        · exact .inl hr
        · exact .inr (rootIndex_user _ (huserva hr))
      · have hr : r ≠ L.kroot := by
          intro hr
          have := rootIndex_upper hc (hhalf hr)
          omega
        refine ⟨hr, ?_⟩
        rw [hs.kind, if_neg hr]
        rfl
    · intro res L' m' hpost
      cases res with
      | error e => exact herr _ _
      | ok u =>
        obtain ⟨hc, hal, hlim, hnone, hleaf⟩ := hpost.done rfl
        have hself := (hleaf r (pagePath m.paging.mode va) _).mpr (by rw [if_pos ⟨rfl, rfl⟩])
        refine hQ L' m' ⟨hpost.inv, hpost.edit, hc, hal, huserva,
          ⟨_, hself, by rw [leafWord_entryFrame _ _ _ hlim, hpa]⟩, ?_, hnone, ?_⟩
        · intro r' q e hl
          rw [hleaf] at hl
          split_ifs at hl with hsame
          · exact .inr hsame
          · exact .inl hl
        · intro r' q e hl
          rw [hleaf, if_neg]
          · exact hl
          rintro ⟨rfl, rfl⟩
          exact hnone e hl

/-- The first `n` pages of a range are mapped. -/
structure RangeMapped (L : Layout) (m : Machine) (r start phys n : ℕ) (L' : Layout)
    (m' : Machine) : Prop where
  inv : MemInv noPages L' m'
  edit : Edit (Role.Lent r) r L m L' m'
  sites : ∀ i < n, m.paging.mode.isCanonical (start + i * FRAME_SIZE) = true ∧
    (start + i * FRAME_SIZE) % FRAME_SIZE = 0 ∧
    (r ≠ L.kroot → start + i * FRAME_SIZE < USER_SPACE_END)
  pages : ∀ i < n, ∃ e, LeafAt L' m' r (pagePath m.paging.mode (start + i * FRAME_SIZE)) e ∧
    entryFrame m.paging e = phys / FRAME_SIZE + i
  new : ∀ r' q e, LeafAt L' m' r' q e → LeafAt L m r' q e ∨
    r' = r ∧ ∃ i < n, q = pagePath m.paging.mode (start + i * FRAME_SIZE)
  kept : ∀ r' q e, LeafAt L m r' q e → LeafAt L' m' r' q e

namespace RangeMapped

theorem refl (h : MemInv noPages L m) : RangeMapped L m r start phys 0 L m :=
  ⟨h, Edit.refl _ _ _ _, by simp, by simp, fun _ _ _ hl => .inl hl, fun _ _ _ hl => hl⟩

theorem step (h : RangeMapped L m r start phys n L₁ m₁)
    (h₁ : Mapped L₁ m₁ r (start + n * FRAME_SIZE) (phys + n * FRAME_SIZE) L' m') :
    RangeMapped L m r start phys (n + 1) L' m' := by
  have hp := h.edit.regs.paging
  obtain ⟨inv, edit, hc, hal, huser, ⟨e, hl, he⟩, hnew, _, hkept⟩ := h₁
  rw [hp] at hc hl he hnew
  have hframe : (phys + n * FRAME_SIZE) / FRAME_SIZE = phys / FRAME_SIZE + n :=
    Nat.add_mul_div_right _ _ (by decide)
  refine ⟨inv, h.edit.trans edit, ?_, ?_, ?_, fun r' q e hl => hkept r' q e (h.kept r' q e hl)⟩
  · intro i hi
    rcases Nat.lt_succ_iff_lt_or_eq.mp hi with hi | rfl
    · exact h.sites i hi
    · exact ⟨hc, hal, fun hr => huser (by rwa [h.edit.kroot])⟩
  · intro i hi
    rcases Nat.lt_succ_iff_lt_or_eq.mp hi with hi | rfl
    · obtain ⟨e', hl', he'⟩ := h.pages i hi
      exact ⟨e', hkept _ _ _ hl', he'⟩
    · exact ⟨e, hl, by rw [he, hframe]⟩
  · intro r' q e' hl'
    rcases hnew r' q e' hl' with hl' | ⟨hr, hq⟩
    · rcases h.new r' q e' hl' with hl' | ⟨hr, i, hi, hq⟩
      · exact .inl hl'
      · exact .inr ⟨hr, i, by omega, hq⟩
    · exact .inr ⟨hr, n, by omega, hq⟩

end RangeMapped

theorem mapPages_mapped {Q : Except MapError Unit → Machine → Prop} (hE : ∀ p m', E p m')
    (hs : SpaceOf L m space r) (hfree : RootFree L r [])
    (huser : permissions.userAccessible = decide (r ≠ L.kroot))
    (herr : ∀ err m', Q (.error err) m') {remaining mapped : ℕ}
    (hhalf : ∀ i < mapped + remaining, r = L.kroot → 2 ^ 63 ≤ start + i * FRAME_SIZE)
    (h : RangeMapped L m r start phys mapped L₁ m₁)
    (hQ : ∀ L' m', RangeMapped L m r start phys (mapped + remaining) L' m' → Q (.ok ()) m') :
    (space.mapPages phys start permissions cachePolicy remaining mapped).Sat m₁ Q E := by
  induction remaining generalizing mapped L₁ m₁ with
  | zero => exact hQ L₁ m₁ h
  | succ remaining ih =>
    have hs₁ := hs.edit h.edit not_lent_root
    have hfree₁ := hfree.edit h.edit fun _ => not_lent_root
    simp only [AddressSpace.mapPages, Prog.sat_bind, addUsize]
    cases hphys : checkedAdd phys (mapped * FRAME_SIZE) with
    | none => exact hE _ _
    | some pa =>
      rw [Prog.sat_expect_some]
      cases hvirt : checkedAdd start (mapped * FRAME_SIZE) with
      | none => exact hE _ _
      | some va =>
        rw [checkedAdd] at hphys hvirt
        split_ifs at hphys hvirt
        cases hphys
        cases hvirt
        rw [Prog.sat_expect_some]
        refine AddressSpace.map_mapped hs₁ h.inv hfree₁ ?_ (by rw [h.edit.kroot, huser]) ?_ ?_
        · rw [h.edit.kroot]
          exact hhalf mapped (by omega)
        · intro err m'
          simp only [Prog.sat_bind]
          exact Prog.sat_any _ (fun _ _ => herr _ _) hE
        · intro L₂ m₂ hone
          refine ih (fun i hi => hhalf i (by omega)) (h.step hone) ?_
          intro L' m' hrest
          exact hQ L' m' (by rwa [Nat.add_right_comm] at hrest)

/-- `AddressSpace::map_range`. -/
theorem mapRange_mapped {Q : Except MapError Unit → Machine → Prop} (hE : ∀ p m', E p m')
    (hs : SpaceOf L m space r) (h : MemInv noPages L m) (hfree : RootFree L r [])
    (huser : permissions.userAccessible = decide (r ≠ L.kroot)) {length : ℕ}
    (hhalf : ∀ i < length / FRAME_SIZE, r = L.kroot → 2 ^ 63 ≤ start + i * FRAME_SIZE)
    (herr : ∀ err m', Q (.error err) m')
    (hQ : ∀ L' m', RangeMapped L m r start phys (length / FRAME_SIZE) L' m' →
      length % FRAME_SIZE = 0 →
      (length ≠ 0 → phys % FRAME_SIZE = 0 ∧ start % FRAME_SIZE = 0) → Q (.ok ()) m') :
    (space.mapRange phys start length permissions cachePolicy).Sat m Q E := by
  rw [AddressSpace.mapRange]
  simp only [Prog.sat_ite]
  refine ⟨fun hzero => ?_, fun _ => ⟨fun _ => herr _ _, fun hphys => ⟨fun _ => herr _ _,
    fun hvirt => ⟨fun _ => herr _ _, fun hlen => ⟨fun _ => herr _ _, fun _ => ⟨fun _ => herr _ _,
    fun _ => ?_⟩⟩⟩⟩⟩⟩
  · subst hzero
    exact hQ L m (RangeMapped.refl h) rfl (fun hne => absurd rfl hne)
  · rw [not_not] at hphys hvirt hlen
    refine mapPages_mapped hE hs hfree huser herr (by simpa using hhalf) (RangeMapped.refl h) ?_
    intro L' m' hr
    rw [Nat.zero_add] at hr
    exact hQ L' m' hr hlen fun _ => ⟨hphys, hvirt⟩

/-- The pages of the kernel's own half that are no kernel stacks. -/
def KernelPage (v : ℕ) : Prop := 2 ^ 63 ≤ v ∧ (v < KERNEL_STACK_BASE ∨ 2 ^ 64 - 2 ^ 31 ≤ v)

/-- Only the kernel has an address space, without kernel stacks. -/
structure KernelOnly (L : Layout) (m : Machine) : Prop where
  roots : ∀ r, L.role r = .table r [] → r = L.kroot
  leaves : ∀ r q e, LeafAt L m r q e → r = L.kroot ∧ ∃ v, KernelPage v ∧
    m.paging.mode.isCanonical v = true ∧ v % FRAME_SIZE = 0 ∧ q = pagePath m.paging.mode v

theorem KernelOnly.free (h : KernelOnly L m) : RootFree L L.kroot [] := .inr (.inr h.roots)

/-- The kernel's address space has grown. -/
structure Grown (L : Layout) (m : Machine) (L' : Layout) (m' : Machine) : Prop where
  inv : MemInv noPages L' m'
  edit : Edit (Role.Lent L.kroot) L.kroot L m L' m'
  only : KernelOnly L' m'
  kept : ∀ q e, LeafAt L m L.kroot q e → LeafAt L' m' L.kroot q e

namespace Grown

theorem refl (h : MemInv noPages L m) (ho : KernelOnly L m) : Grown L m L m :=
  ⟨h, Edit.refl _ _ _ _, ho, fun _ _ hl => hl⟩

theorem trans (h : Grown L m L' m') (h' : Grown L' m' L'' m'') : Grown L m L'' m'' := by
  have hk := h.edit.kroot
  have he := h'.edit
  rw [hk] at he
  refine ⟨h'.inv, h.edit.trans he, h'.only, fun q e hl => ?_⟩
  have := h'.kept q e (by rw [hk]; exact h.kept q e hl)
  rwa [hk] at this

theorem spaceOf (h : Grown L m L' m') (hs : SpaceOf L m space L.kroot) :
    SpaceOf L' m' space L'.kroot := by
  rw [h.edit.kroot]
  exact hs.edit h.edit not_lent_root

end Grown

theorem RangeMapped.grown (h : RangeMapped L m L.kroot start phys n L' m') (ho : KernelOnly L m)
    (hplace : ∀ i < n, KernelPage (start + i * FRAME_SIZE)) : Grown L m L' m' := by
  refine ⟨h.inv, h.edit, ⟨?_, ?_⟩, fun q e hl => h.kept _ q e hl⟩
  · intro r hr
    rw [h.edit.kroot]
    exact ho.roots r (h.edit.roots (fun _ => not_lent_root) r hr)
  · intro r q e hl
    rw [h.edit.kroot, h.edit.regs.paging]
    rcases h.new r q e hl with hl | ⟨rfl, i, hi, rfl⟩
    · exact ho.leaves r q e hl
    · obtain ⟨hc, hal, _⟩ := h.sites i hi
      exact ⟨rfl, _, hplace i hi, hc, hal, rfl⟩

/-- The pages of a region in the direct map. -/
structure DirectMapped (L : Layout) (m : Machine) (dm : DirectMap) (region : MemoryRegion) :
    Prop where
  whole : region.length % FRAME_SIZE = 0
  aligned : region.length ≠ 0 → region.start % FRAME_SIZE = 0 ∧
    (region.start + dm.offset) % FRAME_SIZE = 0
  pages : ∀ i < region.length / FRAME_SIZE, ∃ e, LeafAt L m L.kroot
    (pagePath m.paging.mode (region.start + dm.offset + i * FRAME_SIZE)) e ∧
    entryFrame m.paging e = region.start / FRAME_SIZE + i

theorem DirectMapped.grown {dm : DirectMap} {region : MemoryRegion}
    (h : DirectMapped L m dm region) (hg : Grown L m L' m') : DirectMapped L' m' dm region := by
  refine ⟨h.whole, h.aligned, fun i hi => ?_⟩
  obtain ⟨e, hl, he⟩ := h.pages i hi
  rw [hg.edit.kroot, hg.edit.regs.paging]
  exact ⟨e, hg.kept _ _ hl, he⟩

/-- The regions that the direct map leaves out. -/
def MemoryRegion.Skipped (region : MemoryRegion) (imageBase : ℕ) : Prop :=
  (region.kind = .reserved ∨ region.kind = .badMemory) ∨
    region.kind = .kernelAndModules ∧ region.start = imageBase

theorem page_of_length {x length i : ℕ} (hi : i < length / FRAME_SIZE) :
    x + i * FRAME_SIZE < x + length := by
  have := Nat.mul_le_of_le_div FRAME_SIZE (i + 1) length hi
  simp only [FRAME_SIZE] at this ⊢
  omega

theorem mapRegions_grown {Q : Except AddressSpaceCreateError Unit → Machine → Prop}
    (hE : ∀ p m', E p m') {dm : DirectMap} {imageBase : ℕ} {regions : List MemoryRegion}
    (hs : SpaceOf L m space L.kroot) (h : MemInv noPages L m) (ho : KernelOnly L m)
    (hhalf : 2 ^ 63 ≤ dm.offset)
    (hbelow : ∀ region ∈ regions, region.start + region.length + dm.offset ≤ KERNEL_STACK_BASE)
    (herr : ∀ err m', Q (.error err) m')
    (hQ : ∀ L' m', Grown L m L' m' → (∀ region ∈ regions, ¬ region.Skipped imageBase →
      DirectMapped L' m' dm region) → Q (.ok ()) m') :
    (space.mapRegions dm imageBase regions).Sat m Q E := by
  induction regions generalizing L m with
  | nil => exact hQ L m (Grown.refl h ho) (by simp)
  | cons region regions ih =>
    have hskip : region.Skipped imageBase →
        (space.mapRegions dm imageBase regions).Sat m Q E := by
      intro hsk
      refine ih hs h ho (fun r hr => hbelow r (by simp [hr])) ?_
      intro L' m' hg hd
      refine hQ L' m' hg ?_
      intro r hr hns
      rcases List.mem_cons.mp hr with rfl | hr
      · exact absurd hsk hns
      · exact hd r hr hns
    rw [AddressSpace.mapRegions]
    rw [Prog.sat_ite]
    refine ⟨fun hk => hskip (.inl hk), fun _ => ?_⟩
    rw [Prog.sat_ite]
    refine ⟨fun hk => hskip (.inr hk), fun _ => ?_⟩
    cases htrans : dm.translate region.start with
    | none => exact herr _ _
    | some virtualStart =>
      rw [DirectMap.translate, checkedAdd] at htrans
      split_ifs at htrans
      cases htrans
      simp only [Prog.sat_bind]
      have hplace : ∀ i < region.length / FRAME_SIZE,
          KernelPage (region.start + dm.offset + i * FRAME_SIZE) := by
        intro i hi
        have hlt := page_of_length (x := region.start + dm.offset) hi
        have := hbelow region (by simp)
        exact ⟨by omega, .inl (by omega)⟩
      refine mapRange_mapped hE hs h ho.free (by simp) (fun i hi _ => (hplace i hi).1) ?_ ?_
      · intro err m'
        simp only [Prog.sat_bind]
        exact Prog.sat_any _ (fun _ _ => herr _ _) hE
      · intro L₁ m₁ hr hwhole hal
        have hg := hr.grown ho hplace
        refine ih (hg.spaceOf hs) hg.inv hg.only (fun r hr => hbelow r (by simp [hr])) ?_
        intro L' m' hg' hd
        refine hQ L' m' (hg.trans hg') ?_
        intro r hr' hns
        rcases List.mem_cons.mp hr' with rfl | hr'
        · refine DirectMapped.grown ⟨hwhole, hal, fun i hi => ?_⟩ hg'
          rw [hg.edit.kroot, hg.edit.regs.paging]
          exact hr.pages i hi
        · exact hd r hr' hns

theorem mapSegments_grown {Q : Except AddressSpaceCreateError Unit → Machine → Prop}
    (hE : ∀ p m', E p m') {segments : List KernelSegment}
    (hs : SpaceOf L m space L.kroot) (h : MemInv noPages L m) (ho : KernelOnly L m)
    (htop : ∀ segment ∈ segments, 2 ^ 64 - 2 ^ 31 ≤ segment.virtualBase)
    (hperm : ∀ segment ∈ segments, segment.permissions.userAccessible = false)
    (herr : ∀ err m', Q (.error err) m')
    (hQ : ∀ L' m', Grown L m L' m' → (∀ segment ∈ segments, 0 < segment.length →
      m'.paging.mode.isCanonical segment.virtualBase = true ∧
      segment.virtualBase % FRAME_SIZE = 0 ∧
      ∃ e, LeafAt L' m' L'.kroot (pagePath m'.paging.mode segment.virtualBase) e) →
      Q (.ok ()) m') :
    (space.mapSegments segments).Sat m Q E := by
  induction segments generalizing L m with
  | nil => exact hQ L m (Grown.refl h ho) (by simp)
  | cons segment segments ih =>
    rw [AddressSpace.mapSegments]
    simp only [Prog.sat_bind]
    have hbase := htop segment (by simp)
    have hplace : ∀ i < segment.length / FRAME_SIZE,
        KernelPage (segment.virtualBase + i * FRAME_SIZE) :=
      fun i _ => ⟨by omega, .inr (by omega)⟩
    refine mapRange_mapped hE hs h ho.free (by simp [hperm segment])
      (fun i hi _ => (hplace i hi).1) ?_ ?_
    · intro err m'
      simp only [Prog.sat_bind]
      exact Prog.sat_any _ (fun _ _ => herr _ _) hE
    · intro L₁ m₁ hr hwhole _
      have hg := hr.grown ho hplace
      refine ih (hg.spaceOf hs) hg.inv hg.only (fun s hs => htop s (by simp [hs]))
        (fun s hs => hperm s (by simp [hs])) ?_
      intro L' m' hg' hd
      refine hQ L' m' (hg.trans hg') ?_
      intro s hs' hpos
      rcases List.mem_cons.mp hs' with rfl | hs'
      · have hn : 0 < s.length / FRAME_SIZE := by
          simp only [FRAME_SIZE] at hwhole ⊢
          omega
        obtain ⟨hc, hal, _⟩ := hr.sites 0 hn
        obtain ⟨e, hl, _⟩ := hr.pages 0 hn
        rw [Nat.zero_mul, Nat.add_zero] at hc hal hl
        have hregs := (hg.trans hg').edit.regs
        have hl' := hg'.kept _ e (by rw [hg.edit.kroot]; exact hl)
        rw [hregs.paging, hg'.edit.kroot]
        exact ⟨hc, hal, e, hl'⟩
      · exact hd s hs' hpos

section First

variable {f : ℕ} (hf : L.role f = .data .spare) (hnone : ∀ g r p, L.role g ≠ .table r p)

include hf hnone in
/-- The first root is the kernel's. -/
theorem MemInv.first (h : AllocInv L m)
    (hbound : startAddress m.frameCount ≤ m.paging.physicalAddressLimit)
    (hzero : ∀ i, m.mem.word f i = 0) (htlb : m.tlb = []) (hfills : ∀ n, m.fills n = []) :
    MemInv noPages (L.rooted f) m ∧ KernelOnly (L.rooted f) m := by
  have hlim : startAddress f < m.paging.physicalAddressLimit := by
    have hlt := h.lt_of_allocated (f := f) (by simp [hf, Role.state])
    simp only [startAddress, FRAME_SIZE] at hbound ⊢
    omega
  refine ⟨⟨PtInv.first hf hnone h hlim hzero, fun _ => hbound, fun _ => ⟨?_, ?_, .inr hfills, ?_⟩⟩,
    ?_, ?_⟩
  · intro r q e i hl
    exact absurd hl (rooted_leaf hnone)
  · intro g r p i hg _ _ _ hpres
    obtain ⟨rfl, _, _⟩ := rooted_role hnone hg
    rw [hzero] at hpres
    exact absurd hpres (by simp [PageTableEntry.isPresent])
  · intro t ht
    rw [htlb] at ht
    cases ht
  · intro r hr
    exact (rooted_role hnone hr).1
  · intro r q e hl
    exact absurd hl (rooted_leaf hnone)

end First

/-- Frames that the allocator does not manage keep their roles. -/
def SameReserved (L L' : Layout) : Prop :=
  ∀ f, (L.role f).state = .reserved ∨ (L'.role f).state = .reserved → L'.role f = L.role f

theorem SameReserved.trans (h : SameReserved L L') (h' : SameReserved L' L'') :
    SameReserved L L'' := by
  intro f hf
  rcases hf with hf | hf
  · have he := h f (.inl hf)
    rw [h' f (.inl (by rwa [he])), he]
  · have he := h' f (.inr hf)
    rw [he, h f (.inr (by rwa [← he]))]

theorem SameReserved.set {f : ℕ} {ρ : Role} (hf : (L.role f).state ≠ .reserved)
    (hρ : ρ.state ≠ .reserved) : SameReserved L (L.set f ρ) := by
  intro g hg
  by_cases hgf : g = f
  · subst hgf
    rw [Layout.set_role_self] at hg
    rcases hg with hg | hg
    · exact absurd hg hf
    · exact absurd hg hρ
  · exact Layout.set_role_of_ne L hgf ρ

theorem Edit.reserved {P : Role → Prop} (h : Edit P r L m L' m')
    (hP : ∀ ρ, P ρ → ρ.state ≠ .reserved) : SameReserved L L' := by
  intro f hf
  rcases h.roles f with he | ⟨hp, hp'⟩
  · exact he
  · rcases hf with hf | hf
    · exact absurd hf (hP _ hp)
    · exact absurd hf (hP _ hp')

/-- The roles that reclaiming moves. -/
def Role.Unmanaged (ρ : Role) : Prop := ρ = .free ∨ ρ.state = .reserved

/-- Reclaiming does not touch the page tables. -/
theorem Reclaimed.restored {P : ℕ → Prop} (h : Reclaimed P L m L' m') (hinv : MemInv noPages L m) :
    Restored False Role.Unmanaged L m r L' m' := by
  have hregs : Regs m m' := by
    rw [h.only]
    exact ⟨rfl, rfl, rfl, rfl, rfl, rfl, rfl, rfl⟩
  have hT : L'.typing = L.typing := by
    funext f
    rcases h.roles f with he | ⟨hfree, hres, _⟩
    · simp only [Layout.typing, he]
    · have hnone : L.typing f = none := by
        rw [Layout.typing_none]
        intro r p hr
        simp [hr, Role.state] at hres
      rw [hnone, Layout.typing, hfree]
      rfl
  have htab : ∀ g r p, L.role g = .table r p → m'.mem.word g = m.mem.word g :=
    fun g r p hg => h.words g (by simp [hg])
  refine ⟨hinv.retype hT h.kroot h.inv hregs (by rw [h.only]) htab, ⟨hregs, h.kroot, ?_, ?_⟩,
    leafAt_congr hT h.kroot hregs.paging htab⟩
  · intro f
    exact (h.roles f).imp_right fun hmoved => ⟨.inr hmoved.2.1, .inl hmoved.1⟩
  · intro f _ hs _
    exact h.words f hs

/-- What `new_kernel` leaves behind. -/
structure KernelMade (dm : DirectMap) (regions : List MemoryRegion) (text : KernelSegment)
    (L : Layout) (m : Machine) (L' : Layout) (m' : Machine) : Prop where
  inv : MemInv noPages L' m'
  only : KernelOnly L' m'
  regs : Regs m m'
  reserved : SameReserved L L'
  direct : ∀ region ∈ regions, ¬ region.Skipped text.physicalBase → DirectMapped L' m' dm region
  anchor : Anchor L' m' text.virtualBase

theorem newKernel_made {Q : Except AddressSpaceCreateError AddressSpace → Machine → Prop}
    (hE : ∀ p m', E p m') (h : AllocInv L m) (hnone : ∀ g r p, L.role g ≠ .table r p)
    (hbound : startAddress m.frameCount ≤ m.paging.physicalAddressLimit)
    (htlb : m.tlb = []) (hfills : ∀ n, m.fills n = []) (regions : List MemoryRegion)
    (text rodata data : KernelSegment) (hhalf : 2 ^ 63 ≤ m.allocator.directMap.offset)
    (hbelow : ∀ region ∈ regions,
      region.start + region.length + m.allocator.directMap.offset ≤ KERNEL_STACK_BASE)
    (htop : ∀ segment ∈ [text, rodata, data], 2 ^ 64 - 2 ^ 31 ≤ segment.virtualBase)
    (hperm : ∀ segment ∈ [text, rodata, data], segment.permissions.userAccessible = false)
    (hpos : 0 < text.length) (herr : ∀ err m', Q (.error err) m')
    (hQ : ∀ L' m', KernelMade m.allocator.directMap regions text L m L' m' →
      Q (.ok ⟨m'.table L'.kroot, .kernel⟩) m') :
    (AddressSpace.newKernel m.allocator.directMap regions text rodata data m.paging).Sat m Q E := by
  simp only [AddressSpace.newKernel, PageTable.new, Prog.sat_bind]
  refine alloc_sat h (fun _ => herr _ _) ?_
  intro f m₁ ht ha honly hwords hzero
  have hf := ht.next.free
  rw [Prog.sat_ite]
  refine ⟨fun _ => ?_, fun _ => ?_⟩
  · simp only [Prog.sat_bind]
    exact Prog.sat_any _ (fun _ _ => herr _ _) hE
  have hregs := honly.regs
  have hspare : ∀ g r p, (L.set f (.data .spare)).role g ≠ .table r p := by
    intro g r p hg
    by_cases hgf : g = f
    · rw [hgf, Layout.set_role_self] at hg
      cases hg
    · rw [Layout.set_role_of_ne L hgf] at hg
      exact hnone g r p hg
  obtain ⟨hinv, honlyK⟩ := MemInv.first (Layout.set_role_self L f _) hspare ha
    (by rw [Machine.frameCount, hregs.bitmap, hregs.paging]; exact hbound) hzero
    (by rw [honly.tlb, htlb]) (by rw [hregs.fills]; exact hfills)
  obtain ⟨L₁, hL₁⟩ : ∃ L₁ : Layout, L₁ = (L.set f (.data .spare)).rooted f := ⟨_, rfl⟩
  rw [← hL₁] at hinv honlyK
  have hkroot : L₁.kroot = f := by
    rw [hL₁]
    rfl
  have hres₁ : SameReserved L L₁ := by
    rw [hL₁, Layout.rooted, Layout.set_set]
    exact SameReserved.set (ρ := .table f []) (by simp [hf, Role.state]) (by simp [Role.state])
  have hs : SpaceOf L₁ m₁ ⟨m.table f, .kernel⟩ L₁.kroot := by
    refine ⟨?_, hinv.kroot, by rw [if_pos rfl]⟩
    rw [hkroot, hregs.table]
  simp only [Prog.sat_pure, Prog.sat_bind]
  refine mapRegions_grown hE hs hinv honlyK hhalf hbelow herr ?_
  intro L₂ m₂ hg₂ hdirect
  simp only [Prog.sat_bind]
  refine mapSegments_grown hE (hg₂.spaceOf hs) hg₂.inv hg₂.only htop hperm herr ?_
  intro L₃ m₃ hg₃ hseg
  have hg := hg₂.trans hg₃
  have hregs₃ := hregs.trans hg.edit.regs
  have hspace : (⟨m.table f, .kernel⟩ : AddressSpace) = ⟨m₃.table L₃.kroot, .kernel⟩ := by
    rw [hregs₃.table, hg.edit.kroot, hkroot]
  obtain ⟨hc, hal, hleaf⟩ := hseg text (by simp) hpos
  have hlt : text.virtualBase < 2 ^ 64 := by
    have htop' := htop text (by simp)
    rw [isCanonical_iff] at hc
    cases hm : m₃.paging.mode <;> rw [hm] at hc <;> simp only [PagingMode.lowerEnd] at hc <;> omega
  have := hQ L₃ m₃ ⟨hg.inv, hg.only, hregs₃, hres₁.trans (hg.edit.reserved fun _ => lent_state),
    fun region hr hns => (hdirect region hr hns).grown hg₃, ⟨htop text (by simp), hlt⟩, hal, hleaf⟩
  rw [← hspace] at this
  exact this

end Dusk
