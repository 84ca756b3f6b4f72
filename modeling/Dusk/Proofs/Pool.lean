import Dusk.Proofs.Regions
import Dusk.Model.Session

/-! Sessions of the frame allocator: the frames that have been handed out, those that
are left, and where all of them lie. -/

namespace Dusk

open Lib FrameAllocator

/-- The frames that hold the bitmap. -/
def Machine.BitmapFrame (m : Machine) (f : ℕ) : Prop :=
  ∃ i < m.frameCount, m.allocator.bitmap.byteAddress m.allocator.directMap i / FRAME_SIZE = f

/-- The frame is a whole frame of a usable region or of one that has been reclaimed. -/
def Session.Given (memoryMap : List MemoryRegion) (s : Session) (f : ℕ) : Prop :=
  ∃ region ∈ memoryMap, shouldTrack region.kind = true ∧
    (region.kind = .usable ∨ region.kind ∈ s.reclaimed) ∧ region.Covers f

/-- What operations on the allocator leave alone: page tables and registers. -/
structure PoolStep (L : Layout) (m : Machine) (L' : Layout) (m' : Machine) : Prop where
  only : m' = { m with
    mem := m'.mem
    allocator := { m.allocator with
      nextSearch := m'.allocator.nextSearch
      allocatableFrames := m'.allocator.allocatableFrames
      freeFrames := m'.allocator.freeFrames } }
  kroot : L'.kroot = L.kroot
  tables : ∀ f r p, L'.role f = .table r p ↔ L.role f = .table r p
  words : ∀ f r p, L.role f = .table r p → m'.mem.word f = m.mem.word f

structure PoolInv (memoryMap : List MemoryRegion) (L : Layout) (s : Session) : Prop where
  alloc : AllocInv L s.machine
  storage : ∀ f, L.role f = .storage → s.machine.BitmapFrame f ∧
    ∃ region ∈ memoryMap, region.kind = .usable ∧ region.Covers f
  managed : ∀ f, (L.role f).state ≠ .reserved → s.Given memoryMap f
  tracks : Tracks (shouldTrack · = true) memoryMap s.machine.frameCount
  held : ∀ f, f ∈ s.outstanding ↔ ∃ o, L.role f = .data o

section Inv

variable {memoryMap : List MemoryRegion} {dm : DirectMap} {L L' : Layout} {s : Session}
  {m₀ m' : Machine}

theorem PoolStep.refl (L : Layout) (m : Machine) : PoolStep L m L m :=
  ⟨rfl, rfl, fun _ _ _ => Iff.rfl, fun _ _ _ _ => rfl⟩

theorem PoolStep.bitmapFrame {m : Machine} (h : PoolStep L m L' m') (f : ℕ) :
    m'.BitmapFrame f ↔ m.BitmapFrame f := by
  rw [h.only]
  exact Iff.rfl

theorem PoolStep.frameCount {m : Machine} (h : PoolStep L m L' m') :
    m'.frameCount = m.frameCount := by
  rw [h.only]
  rfl

theorem AllocOnly.poolStep {m : Machine} (h : AllocOnly m m') {f : ℕ} {ρ : Role}
    (hf : ∀ r p, L.role f ≠ .table r p) (hρ : ∀ r p, ρ ≠ .table r p)
    (hwords : ∀ g r p, L.role g = .table r p → m'.mem.word g = m.mem.word g) :
    PoolStep L m (L.set f ρ) m' := by
  refine ⟨?_, rfl, ?_, hwords⟩
  · rw [h]
  · intro g r p
    by_cases hg : g = f
    · rw [hg, Layout.set_role_self]
      exact iff_of_false (hρ r p) (hf r p)
    · rw [Layout.set_role_of_ne L hg]

namespace PoolInv

/-- Frames change their use among what is managed. -/
theorem restate (h : PoolInv memoryMap L s) (hinv : AllocInv L' m')
    (hbitmap : m'.allocator.bitmap = s.machine.allocator.bitmap)
    (hdm : m'.allocator.directMap = s.machine.allocator.directMap)
    (hstorage : ∀ f, L'.role f = .storage → L.role f = .storage)
    (hmanaged : ∀ f, (L'.role f).state ≠ .reserved → (L.role f).state ≠ .reserved)
    {outstanding : Finset ℕ} (hheld : ∀ f, f ∈ outstanding ↔ ∃ o, L'.role f = .data o) :
    PoolInv memoryMap L' { s with machine := m', outstanding } := by
  refine ⟨hinv, ?_, fun f hf => h.managed f (hmanaged f hf), ?_, hheld⟩
  · intro f hf
    obtain ⟨hbm, hcov⟩ := h.storage f (hstorage f hf)
    refine ⟨?_, hcov⟩
    unfold Machine.BitmapFrame Machine.frameCount at hbm ⊢
    rw [hbitmap, hdm]
    exact hbm
  · show Tracks _ _ m'.frameCount
    rw [Machine.frameCount, hbitmap]
    exact h.tracks

theorem set (h : PoolInv memoryMap L s) {f : ℕ} {ρ : Role} (hf : (L.role f).state ≠ .reserved)
    (hρ : ρ.state ≠ .reserved) (hinv : AllocInv (L.set f ρ) m')
    (hstep : PoolStep L s.machine (L.set f ρ) m') {outstanding : Finset ℕ}
    (hheld : ∀ g, g ∈ outstanding ↔ ∃ o, (L.set f ρ).role g = .data o) :
    PoolInv memoryMap (L.set f ρ) { s with machine := m', outstanding } := by
  refine h.restate hinv (by rw [hstep.only]) (by rw [hstep.only]) ?_ ?_ hheld
  · intro g hg
    have hgf : g ≠ f := by
      rintro rfl
      rw [Layout.set_role_self] at hg
      rw [hg] at hρ
      exact hρ rfl
    rwa [Layout.set_role_of_ne L hgf] at hg
  · intro g hg
    by_cases hgf : g = f
    · rwa [hgf]
    · rwa [Layout.set_role_of_ne L hgf] at hg

theorem reclaimed (h : PoolInv memoryMap L s) {kind : MemoryRegionKind}
    (hkind : shouldTrack kind = true)
    (hr : Reclaimed (fun f => ∃ region ∈ memoryMap, region.kind = kind ∧ region.Covers f)
      L s.machine L' m') :
    PoolInv memoryMap L' { s with machine := m', reclaimed := kind :: s.reclaimed } ∧
      PoolStep L s.machine L' m' := by
  -- a frame that is reclaimed was reserved, and neither a table nor held
  have hrole : ∀ f ρ, ρ.state = .allocated → (L'.role f = ρ ↔ L.role f = ρ) := by
    intro f ρ hρ
    rcases hr.roles f with he | ⟨hfree, hres, _⟩
    · rw [he]
    · rw [hfree]
      refine iff_of_false ?_ ?_
      · rintro rfl
        cases hρ
      · rintro rfl
        rw [hρ] at hres
        cases hres
  have hstep : PoolStep L s.machine L' m' :=
    ⟨hr.only, hr.kroot, fun f r p => hrole f _ rfl, fun f r p hf => hr.words f (by simp [hf])⟩
  refine ⟨⟨hr.inv, ?_, ?_, ?_, ?_⟩, hstep⟩
  · intro f hf
    rw [hstep.bitmapFrame]
    exact h.storage f ((hr.storage_iff f).mp hf)
  · intro f hf
    rcases hr.roles f with he | ⟨_, _, _, region, hmem, hk, hcov⟩
    · rw [he] at hf
      obtain ⟨region, hmem, htrack, hk, hcov⟩ := h.managed f hf
      exact ⟨region, hmem, htrack, hk.imp_right (List.mem_cons_of_mem kind), hcov⟩
    · exact ⟨region, hmem, by rw [hk]; exact hkind, .inr (by simp [hk]), hcov⟩
  · show Tracks _ _ m'.frameCount
    rw [hstep.frameCount]
    exact h.tracks
  · intro f
    rw [h.held]
    exact exists_congr fun o => (hrole f (.data o) rfl).symm

/-- Regions that are reclaimed hold no part of the bitmap. -/
theorem not_storage (h : PoolInv memoryMap L s)
    (hpair : memoryMap.Pairwise (MemoryRegion.Disjoint (shouldTrack · = true)))
    {kind : MemoryRegionKind} (hkind : shouldTrack kind = true) (hne : kind ≠ .usable) :
    ∀ region ∈ memoryMap, region.kind = kind → ∀ f, region.Covers f → L.role f ≠ .storage := by
  intro region hmem hk f hcov hs
  obtain ⟨_, store, hstore, husable, hcov'⟩ := h.storage f hs
  have hdiff : region ≠ store := by
    rintro rfl
    exact hne (hk.symm.trans husable)
  exact hpair.forall hmem hstore hdiff (by rw [hk]; exact hkind) (by rw [husable]; rfl) _
    hcov.byte hcov'.byte

/-- A call of `reclaim_regions` that does nothing. -/
theorem mention (h : PoolInv memoryMap L s) (kind : MemoryRegionKind) :
    PoolInv memoryMap L { s with reclaimed := kind :: s.reclaimed } := by
  refine { h with managed := ?_ }
  intro f hf
  obtain ⟨region, hmem, htrack, hk, hcov⟩ := h.managed f hf
  exact ⟨region, hmem, htrack, hk.imp_right (List.mem_cons_of_mem kind), hcov⟩

theorem take (h : PoolInv memoryMap L s) {f : ℕ} (hf : L.role f = .free)
    (hinv : AllocInv (L.set f (.data .spare)) m') (honly : AllocOnly s.machine m')
    (hwords : ∀ g, L.role g ≠ .storage → g ≠ f → m'.mem.word g = s.machine.mem.word g) :
    PoolInv memoryMap (L.set f (.data .spare))
      { s with machine := m', outstanding := insert f s.outstanding } ∧
    PoolStep L s.machine (L.set f (.data .spare)) m' := by
  have hstep : PoolStep L s.machine (L.set f (.data .spare)) m' := by
    refine honly.poolStep (by simp [hf]) (by simp) ?_
    intro g r p hg
    refine hwords g (by simp [hg]) ?_
    rintro rfl
    rw [hf] at hg
    cases hg
  refine ⟨h.set (by simp [hf, Role.state]) (by simp [Role.state]) hinv hstep ?_, hstep⟩
  intro g
  rw [Finset.mem_insert, h.held]
  by_cases hg : g = f
  · simp [hg]
  · simp [hg, Layout.set_role_of_ne L hg]

theorem give (h : PoolInv memoryMap L s) {f : ℕ} {o : Owner} (hf : L.role f = .data o)
    (hinv : AllocInv (L.set f .free) m') (honly : AllocOnly s.machine m')
    (hwords : ∀ g, L.role g ≠ .storage → m'.mem.word g = s.machine.mem.word g) :
    PoolInv memoryMap (L.set f .free)
      { s with machine := m', outstanding := s.outstanding.erase f } ∧
    PoolStep L s.machine (L.set f .free) m' := by
  have hstep : PoolStep L s.machine (L.set f .free) m' :=
    honly.poolStep (by simp [hf]) (by simp) fun g r p hg => hwords g (by simp [hg])
  refine ⟨h.set (by simp [hf, Role.state]) (by simp [Role.state]) hinv hstep ?_, hstep⟩
  intro g
  rw [Finset.mem_erase, h.held]
  by_cases hg : g = f
  · simp [hg]
  · simp [hg, Layout.set_role_of_ne L hg]

end PoolInv

/-- An operation on the allocator returns and keeps the invariant. -/
theorem FrameOp.sat (h : PoolInv memoryMap L s)
    (hpair : memoryMap.Pairwise (MemoryRegion.Disjoint (shouldTrack · = true))) (op : FrameOp)
    (hop : op.Enabled s.outstanding) :
    (op.prog memoryMap).Sat s.machine
      (fun result m' => ∃ L', PoolInv memoryMap L' (s.after op result m') ∧
        PoolStep L s.machine L' m') Prog.never := by
  cases op with
  | alloc =>
    refine alloc_sat h.alloc (fun _ => ⟨L, h, PoolStep.refl _ _⟩) ?_
    intro f m' hf hinv honly hwords _
    exact ⟨_, h.take hf.next.free hinv honly hwords⟩
  | allocNozero =>
    refine allocNozero_sat h.alloc (fun _ => ⟨L, h, PoolStep.refl _ _⟩) ?_
    intro f m' hf hinv honly hwords
    exact ⟨_, h.take hf.next.free hinv honly fun g hg _ => hwords g hg⟩
  | dealloc f =>
    obtain ⟨o, ho⟩ := (h.held f).mp hop
    rw [FrameOp.prog, Prog.sat_bind]
    refine dealloc_sat h.alloc (by rw [ho]; rfl) ?_
    intro m' hinv honly hwords
    exact ⟨_, h.give ho hinv honly hwords⟩
  | reclaimRegions kind =>
    rw [FrameOp.prog, Prog.sat_bind]
    have hreclaim : shouldTrack kind = true → kind ≠ .usable →
        (reclaimAll kind memoryMap).Sat s.machine (fun _ m' => ∃ L',
          PoolInv memoryMap L' (s.after (.reclaimRegions kind) none m') ∧
          PoolStep L s.machine L' m') Prog.never := by
      intro hkind hne
      refine reclaimAll_sat h.alloc ?_ (h.not_storage hpair hkind hne) ?_
      · intro hno
        refine absurd ?_ hno
        intro region hmem hk
        exact h.tracks region hmem (by rw [hk]; exact hkind)
      · intro L' m' hr
        exact ⟨L', h.reclaimed hkind hr⟩
    have hskip : ∃ L', PoolInv memoryMap L' (s.after (.reclaimRegions kind) none s.machine) ∧
        PoolStep L s.machine L' s.machine := ⟨L, h.mention kind, PoolStep.refl _ _⟩
    cases kind with
    | bootloaderReclaimable => exact hreclaim rfl nofun
    | acpiReclaimable => exact hreclaim rfl nofun
    | usable | reserved | acpiNvs | badMemory | kernelAndModules | framebuffer | mappedReserved =>
      exact hskip
  | use f i w =>
    obtain ⟨o, ho⟩ := (h.held f).mp hop
    have hne : ∀ g, L.role g ≠ .data o → g ≠ f := by
      rintro g hg rfl
      exact hg ho
    rw [FrameOp.prog, Prog.sat_bind, modifyMem, Prog.sat_modify, Prog.sat_pure]
    have hstep : PoolStep L s.machine L
        { s.machine with mem := s.machine.mem.setWord f i w } :=
      ⟨rfl, rfl, fun _ _ _ => Iff.rfl,
        fun g r p hg => PhysMem.frame_setWord _ (hne g (by simp [hg])) _ _⟩
    refine ⟨L, { h with alloc := h.alloc.congr rfl ?_ }, hstep⟩
    intro g hg
    exact PhysMem.frame_setWord _ (hne g (by simp [hg])) _ _

/-- The invariant after `FrameAllocator::new`. -/
theorem Session.start_inv (h : Session.start memoryMap dm m₀ = some s)
    (hpair : memoryMap.Pairwise (MemoryRegion.Disjoint (shouldTrack · = true)))
    (hdirect : ∀ region ∈ memoryMap, shouldTrack region.kind = true → ∀ x, region.Has x →
      (dm.translate x).isSome) :
    ∃ L, PoolInv memoryMap L s ∧ ∀ f r p, L.role f ≠ .table r p := by
  have husable : memoryMap.Pairwise (MemoryRegion.Disjoint (· = .usable)) :=
    hpair.imp fun {x y} h hx hy => h (by rw [hx]; rfl) (by rw [hy]; rfl)
  have hsat : (FrameAllocator.new memoryMap dm).Sat m₀ (fun r m' => ∀ a, r = .ok a →
      ∃ L, PoolInv memoryMap L ⟨{ m' with allocator := a }, ∅, []⟩ ∧
        ∀ f r p, L.role f ≠ .table r p) Prog.never := by
    refine frameAllocatorNew_sat husable hdirect nofun ?_
    intro a L m' hnew a' he
    cases he
    have hroles := hnew.roles
    refine ⟨L, ⟨hnew.inv, ?_, ?_, hnew.tracks, ?_⟩, ?_⟩
    · intro f hf
      obtain ⟨i, hi, rfl⟩ := hnew.storage_byte hf
      refine ⟨⟨i, hi, hnew.inv.byteFrame_eq i⟩, ?_⟩
      rcases hroles _ with ho | ⟨_, hcov⟩
      · rw [hf] at ho
        cases ho
      · exact hcov
    · intro f hf
      rcases hroles f with ho | ⟨_, region, hmem, hk, hcov⟩
      · rw [ho] at hf
        exact absurd rfl hf
      · exact ⟨region, hmem, by rw [hk]; rfl, .inl hk, hcov⟩
    · intro f
      refine iff_of_false (by simp) ?_
      rintro ⟨o, ho⟩
      rcases hroles f with h | ⟨h | h, _⟩ <;> rw [ho] at h <;> cases h
    · intro f r p hf
      rcases hroles f with h | ⟨h | h, _⟩ <;> rw [hf] at h <;> cases h
  rw [Session.start] at h
  split at h
  · next a m hnew =>
    cases h
    exact hsat.of_ok hnew a rfl
  · cases h
  · cases h

/-- One operation of a session. -/
theorem Session.step_inv {op : FrameOp} {s' : Session} (hstep : s.step memoryMap op = some s')
    (h : PoolInv memoryMap L s)
    (hpair : memoryMap.Pairwise (MemoryRegion.Disjoint (shouldTrack · = true))) :
    ∃ L', PoolInv memoryMap L' s' ∧ PoolStep L s.machine L' s'.machine := by
  rw [Session.step] at hstep
  split_ifs at hstep with hop
  split at hstep
  · next result m hrun =>
    cases hstep
    have hm : (s.after op result m).machine = m := by cases op <;> rfl
    rw [hm]
    exact (FrameOp.sat h hpair op hop).of_ok hrun
  · cases hstep

/-- The invariant over a whole run of operations: where there is no page table, the
frames that are allocated are those that have been handed out. -/
theorem Session.run_inv {ops : List FrameOp} {s' : Session}
    (hrun : s.run memoryMap ops = some s') (h : PoolInv memoryMap L s)
    (htables : ∀ f r p, L.role f ≠ .table r p)
    (hpair : memoryMap.Pairwise (MemoryRegion.Disjoint (shouldTrack · = true))) :
    ∃ L', PoolInv memoryMap L' s' ∧ ∀ f r p, L'.role f ≠ .table r p := by
  induction ops generalizing s L with
  | nil =>
    cases hrun
    exact ⟨L, h, htables⟩
  | cons op ops ih =>
    obtain ⟨s₁, hstep, hrest⟩ := Option.bind_eq_some_iff.mp hrun
    obtain ⟨L₁, h₁, hkept⟩ := Session.step_inv hstep h hpair
    refine ih hrest h₁ ?_
    intro f r p hf
    exact htables f r p ((hkept.tables f r p).mp hf)

end Inv

section SmallMachine

/-- Twenty usable frames, and a part that the firmware gives up later. -/
def smallMap : List MemoryRegion :=
  [⟨0x1000, 0x14000, .usable⟩, ⟨0x15800, 0x2000, .acpiReclaimable⟩]

def smallDirectMap : DirectMap := ⟨0xFFFF_8000_0000_0000⟩

def smallMachine (mode : PagingMode) : Machine :=
  ⟨⟨.nil⟩, ⟨⟨0, 0⟩, 0, 0, 0, ⟨0⟩⟩, ⟨40, true, true, mode, PagingConfig.width_forty⟩, 0, 0, [],
    fun _ => [], 0, [], []⟩

theorem smallMap_disjoint :
    smallMap.Pairwise (MemoryRegion.Disjoint (shouldTrack · = true)) := by
  simp [smallMap, MemoryRegion.Disjoint, MemoryRegion.Has]
  omega

theorem smallMap_direct : ∀ region ∈ smallMap, shouldTrack region.kind = true →
    ∀ x, region.Has x → (smallDirectMap.translate x).isSome = true := by
  intro region hr _ x hx
  have hlt : x < 0x18000 := by
    simp only [smallMap, List.mem_cons, List.not_mem_nil, or_false] at hr
    rcases hr with rfl | rfl <;> simp only [MemoryRegion.Has] at hx <;> omega
  rw [DirectMap.translate, checkedAdd, if_pos]
  · rfl
  · simp only [smallDirectMap, USIZE_END]
    omega

end SmallMachine

end Dusk
