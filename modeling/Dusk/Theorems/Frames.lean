import Dusk.Proofs.Pool

/-! The frame allocator over whole sessions: what it hands out, where that lies, and
what its counters and its bitmap say. -/

namespace Dusk

open Lib FrameAllocator

variable {memoryMap : List MemoryRegion} {dm : DirectMap} {L : Layout} {s : Session}
  {m₀ m' : Machine} {f : ℕ}

/-- The result of an allocation from a session; `zero` tells whether the frame is
cleared. -/
structure Allocates (memoryMap : List MemoryRegion) (s : Session) (zero : Bool)
    (result : Option ℕ) (m' : Machine) : Prop where
  none_iff : result = none ↔ ∀ f, s.machine.frameState f ≠ some .free
  /-- The frame was free, is not outstanding, holds no part of the bitmap, and lies in a
  usable or reclaimed region as a whole. -/
  source : ∀ f, result = some f → s.machine.frameState f = some .free ∧ f ∉ s.outstanding ∧
    ¬ s.machine.BitmapFrame f ∧ s.Given memoryMap f
  zeroed : zero = true → ∀ x, result = some (x / FRAME_SIZE) → m'.mem.byte x = 0
  /-- No byte changes but those of the bitmap, and of the frame where it is cleared. -/
  others : ∀ x, ¬ s.machine.BitmapFrame (x / FRAME_SIZE) →
    (zero = true → result ≠ some (x / FRAME_SIZE)) → m'.mem.byte x = s.machine.mem.byte x

/-- The allocator is what it should be: a pool of whole frames. -/
structure SoundPool (memoryMap : List MemoryRegion) (s : Session) : Prop where
  states : ∀ f < s.machine.frameCount, (s.machine.frameState f).isSome = true
  allocated : ∀ f, s.machine.frameState f = some .allocated ↔ f ∈ s.outstanding
  freeFrames : s.machine.allocator.freeFrames = ((Finset.range s.machine.frameCount).filter
    fun f => s.machine.frameState f = some .free).card
  allocatableFrames : s.machine.allocator.allocatableFrames =
    ((Finset.range s.machine.frameCount).filter fun f =>
      s.machine.frameState f = some .free ∨ s.machine.frameState f = some .allocated).card
  nextSearch : s.machine.allocator.nextSearch ≤ s.machine.frameCount
  alloc : FrameAllocator.alloc.Sat s.machine (Allocates memoryMap s true) Prog.never
  allocNozero : FrameAllocator.allocNozero.Sat s.machine (Allocates memoryMap s false) Prog.never
  /-- No operation panics. -/
  returns : ∀ op : FrameOp, op.Enabled s.outstanding →
    ∃ result m', op.prog memoryMap s.machine = .ok result m'

namespace PoolInv

theorem bitmapFrame_iff (h : PoolInv memoryMap L s) :
    s.machine.BitmapFrame f ↔ L.role f = .storage := by
  refine ⟨?_, fun hf => (h.storage f hf).1⟩
  rintro ⟨i, hi, rfl⟩
  rw [h.alloc.byteFrame_eq]
  exact h.alloc.stored i hi

theorem allocates_none (h : PoolInv memoryMap L s) (hno : ∀ f, L.role f ≠ .free) (zero : Bool) :
    Allocates memoryMap s zero none s.machine := by
  refine ⟨iff_of_true rfl ?_, nofun, nofun, fun _ _ _ => rfl⟩
  intro f hf
  exact hno f (h.alloc.frameState_free.mp hf)

theorem allocates_some (h : PoolInv memoryMap L s) (hf : L.role f = .free) {zero : Bool}
    (hzero : zero = true → ∀ i, m'.mem.word f i = 0)
    (hwords : ∀ g, L.role g ≠ .storage → (zero = true → g ≠ f) →
      m'.mem.word g = s.machine.mem.word g) : Allocates memoryMap s zero (some f) m' := by
  refine ⟨iff_of_false (by simp) ?_, ?_, ?_, ?_⟩
  · intro hno
    exact hno f (h.alloc.frameState_free.mpr hf)
  · intro g hg
    cases hg
    refine ⟨h.alloc.frameState_free.mpr hf, ?_, ?_, h.managed f (by simp [hf, Role.state])⟩
    · rw [h.held]
      simp [hf]
    · rw [h.bitmapFrame_iff, hf]
      simp
  · intro hz x hx
    rw [Option.some.injEq] at hx
    rw [PhysMem.byte, ← hx, hzero hz]
    simp [lane]
  · intro x hbitmap hne
    refine PhysMem.byte_congr (hwords _ ?_ ?_)
    · rwa [h.bitmapFrame_iff] at hbitmap
    · intro hz hx
      exact hne hz (by rw [hx])

theorem sound (h : PoolInv memoryMap L s) (htables : ∀ f r p, L.role f ≠ .table r p)
    (hpair : memoryMap.Pairwise (MemoryRegion.Disjoint (shouldTrack · = true))) :
    SoundPool memoryMap s := by
  have hallocated : ∀ f, (L.role f).state = .allocated ↔ f ∈ s.outstanding := by
    intro f
    rw [h.held]
    cases hf : L.role f with
    | table r p => exact absurd hf (htables f r p)
    | other | window | storage | free | data => simp [Role.state]
  refine ⟨?_, ?_, ?_, ?_, h.alloc.search, ?_, ?_, ?_⟩
  · intro f hf
    rw [h.alloc.frameState_of_lt hf]
    rfl
  · intro f
    rw [h.alloc.frameState_allocated, hallocated]
  · rw [h.alloc.count, Layout.freeSet]
    congr 1
    ext f
    rw [Finset.mem_filter, Finset.mem_filter, h.alloc.frameState_free, Role.state_free]
  · rw [h.alloc.total, Layout.managedSet]
    congr 1
    ext f
    rw [Finset.mem_filter, Finset.mem_filter, h.alloc.frameState_free, ← Role.state_free,
      h.alloc.frameState_allocated]
    cases (L.role f).state <;> simp
  · refine alloc_sat h.alloc (fun hno => h.allocates_none hno true) ?_
    intro f m' hf _ _ hwords hzero
    exact h.allocates_some hf.next.free (fun _ => hzero) fun g hg hne => hwords g hg (hne rfl)
  · refine allocNozero_sat h.alloc (fun hno => h.allocates_none hno false) ?_
    intro f m' hf _ _ hwords
    exact h.allocates_some hf.next.free (by simp) fun g hg _ => hwords g hg
  · intro op hop
    obtain ⟨result, m', hrun, _⟩ := (FrameOp.sat h hpair op hop).finishes
    exact ⟨result, m', hrun⟩

end PoolInv

/-- Every session on a memory map whose tracked regions are disjoint and inside the
direct map has a sound allocator. -/
theorem frame_pool_sound
    (hpair : memoryMap.Pairwise (MemoryRegion.Disjoint (shouldTrack · = true)))
    (hdirect : ∀ region ∈ memoryMap, shouldTrack region.kind = true → ∀ x, region.Has x →
      (dm.translate x).isSome = true)
    (hs : Session.Reached memoryMap dm m₀ s) : SoundPool memoryMap s := by
  obtain ⟨s₀, ops, hstart, hrun⟩ := hs
  obtain ⟨L₀, h₀, htables₀⟩ := Session.start_inv hstart hpair hdirect
  obtain ⟨L, h, htables⟩ := Session.run_inv hrun h₀ htables₀ hpair
  exact h.sound htables hpair

/-- The frames of the firmware are reclaimed and handed out. -/
theorem frame_pool_sound_small : ∃ s, Session.Reached smallMap smallDirectMap
    (smallMachine .fourLevel) s ∧ s.outstanding = {2, 22} ∧ SoundPool smallMap s := by
  have hrun : ((Session.start smallMap smallDirectMap (smallMachine .fourLevel)).bind
      (Session.run smallMap ([.alloc, .reclaimRegions .acpiReclaimable] ++
        List.replicate 19 .allocNozero ++ (List.range 18).map fun i => .dealloc (i + 3)))).any
      (fun s => s.outstanding = {2, 22}) = true := by decide +kernel
  obtain ⟨s, hs, hout⟩ := (Option.any_eq_true _ _).mp hrun
  obtain ⟨s₀, hstart, hops⟩ := Option.bind_eq_some_iff.mp hs
  have hreached : Session.Reached smallMap smallDirectMap (smallMachine .fourLevel) s :=
    ⟨s₀, _, hstart, hops⟩
  exact ⟨s, hreached, by simpa using hout,
    frame_pool_sound smallMap_disjoint smallMap_direct hreached⟩

section Classify

variable {regions : List MemoryRegion} {m : Machine} {a : FrameAllocator}

/-- Where the bitmap is mapped makes no difference to the frames that hold it. -/
theorem setState_shift (start n f : ℕ) (state : FrameState) :
    Bitmap.setState ⟨start + dm.offset, n⟩ dm f state
      = Bitmap.setState ⟨start, n⟩ ⟨0⟩ f state := by
  have haddress : Bitmap.byteAddress ⟨start + dm.offset, n⟩ dm f
      = Bitmap.byteAddress ⟨start, n⟩ ⟨0⟩ f := by
    simp only [Bitmap.byteAddress, DirectMap.physical]
    omega
  unfold Bitmap.setState
  rw [haddress]

theorem freeFrom_shift (start n storageStart storageEnd i count freed : ℕ) :
    freeFrom ⟨start + dm.offset, n⟩ dm storageStart storageEnd i count freed
      = freeFrom ⟨start, n⟩ ⟨0⟩ storageStart storageEnd i count freed := by
  induction count generalizing i freed with
  | zero => rfl
  | succ count ih =>
    unfold freeFrom
    simp only [setState_shift, ih]

theorem freeRegions_shift (start n storageStart storageEnd freed : ℕ) :
    freeRegions ⟨start + dm.offset, n⟩ dm storageStart storageEnd regions freed
      = freeRegions ⟨start, n⟩ ⟨0⟩ storageStart storageEnd regions freed := by
  induction regions generalizing freed with
  | nil => rfl
  | cons region regions ih =>
    unfold freeRegions
    simp only [freeFrom_shift, ih]

/-- The allocator that is made with a direct map from address zero. -/
def FrameAllocator.unshift (a : FrameAllocator) (dm : DirectMap) : FrameAllocator :=
  { a with
    bitmap := ⟨a.bitmap.start - dm.offset, a.bitmap.frameCount⟩
    directMap := ⟨0⟩ }

/-- An allocator is the one that is made with a direct map from zero, with its bitmap moved. -/
theorem new_shift (h : FrameAllocator.new regions dm m = .ok (.ok a) m') :
    FrameAllocator.new regions ⟨0⟩ m = .ok (.ok (a.unshift dm)) m'
      ∧ dm.offset ≤ a.bitmap.start ∧ a.directMap = dm
      ∧ Tracks (shouldTrack · = true) regions a.bitmap.frameCount := by
  suffices hsat : (FrameAllocator.new regions dm).Sat m (fun r m' => ∀ a, r = .ok a →
      (FrameAllocator.new regions ⟨0⟩).Sat m (fun r' m'' => r' = .ok (a.unshift dm) ∧ m'' = m')
        Prog.never
      ∧ dm.offset ≤ a.bitmap.start ∧ a.directMap = dm
      ∧ Tracks (shouldTrack · = true) regions a.bitmap.frameCount) (fun _ _ => True) by
    obtain ⟨hzero, hrest⟩ := hsat.of_ok h a rfl
    obtain ⟨r, m'', hrun, rfl, rfl⟩ := hzero.finishes
    exact ⟨hrun, hrest⟩
  unfold FrameAllocator.new
  cases hhigh : highestFrame regions none with
  | error e => exact nofun
  | ok high =>
    cases high with
    | none => exact nofun
    | some highest =>
      dsimp only
      generalize ((highest + 3) / 4 + (FRAME_SIZE - 1)) / FRAME_SIZE = count
      by_cases hsize : count * FRAME_SIZE < USIZE_END
      swap
      · rw [if_pos hsize]
        exact nofun
      rw [if_neg (not_not.mpr hsize), if_neg (not_not.mpr hsize)]
      cases hstart : bitmapStartFrame count regions with
      | error e => exact nofun
      | ok found =>
        cases found with
        | none => exact nofun
        | some startFrame =>
          dsimp only
          cases htrans : dm.translate (startAddress startFrame) with
          | none => exact nofun
          | some bitmapVirtual =>
            have hvirtual : bitmapVirtual = startAddress startFrame + dm.offset
                ∧ startAddress startFrame + dm.offset < USIZE_END := by
              rw [DirectMap.translate, checkedAdd] at htrans
              split_ifs at htrans with hlt
              exact ⟨(Option.some.inj htrans).symm, hlt⟩
            obtain ⟨rfl, hlt⟩ := hvirtual
            have hzero : (⟨0⟩ : DirectMap).translate (startAddress startFrame)
                = some (startAddress startFrame) := by
              rw [DirectMap.translate, checkedAdd, Nat.add_zero, if_pos (by omega)]
            rw [hzero]
            dsimp only
            simp only [Prog.sat_bind, modifyMem, Prog.sat_modify]
            generalize { m with mem := m.mem.zeroFrames startFrame count } = m₁
            cases hend : checkedAdd startFrame count with
            | none => exact nofun
            | some endFrame =>
              dsimp only
              simp only [Prog.sat_bind, freeRegions_shift]
              rw [Prog.sat_iff]
              refine ⟨?_, fun _ _ _ => trivial⟩
              intro result m₂ hrun
              cases result with
              | error e => exact nofun
              | ok freed =>
                rw [Prog.sat_pure]
                intro a' ha'
                cases ha'
                refine ⟨?_, Nat.le_add_left _ _, rfl, (highestFrame_spec hhigh).1⟩
                rw [Prog.sat_of_ok hrun]
                simp only [FrameAllocator.unshift, Nat.add_sub_cancel]
                exact ⟨rfl, rfl⟩

/-- The state of a frame in the bitmap of an allocator. -/
def FrameAllocator.frameState (a : FrameAllocator) (mem : PhysMem) (f : ℕ) : Option FrameState :=
  FrameState.ofBits (a.bitmap.bitsOf a.directMap mem f)

/-- What `FrameAllocator::new` should have made, with its bitmap from frame `start` on. -/
structure FrameAllocator.Made (regions : List MemoryRegion) (dm : DirectMap) (m : Machine)
    (a : FrameAllocator) (m' : Machine) (start : ℕ) : Prop where
  bitmap : a.bitmap.start = startAddress start + dm.offset
  /-- A frame is free if it lies in one usable region as a whole and holds no part of the
  bitmap. -/
  free : ∀ f < a.bitmap.frameCount, a.frameState m'.mem f = some .free ↔
    (∃ region ∈ regions, region.kind = .usable ∧ region.Covers f)
      ∧ ¬ (start ≤ f ∧ f < start + storageCount a.bitmap.frameCount)
  others : ∀ f < a.bitmap.frameCount, a.frameState m'.mem f ≠ some .free →
    a.frameState m'.mem f = some .reserved
  allocatableFrames : a.allocatableFrames = a.freeFrames
  freeFrames : a.freeFrames = ((Finset.range a.bitmap.frameCount).filter
    fun f => a.frameState m'.mem f = some .free).card
  covered : ∀ region ∈ regions, shouldTrack region.kind = true → ∀ f, region.Covers f →
    f < a.bitmap.frameCount
  /-- The bitmap has room for four states a byte. -/
  room : a.bitmap.frameCount ≤ 4 * (storageCount a.bitmap.frameCount * FRAME_SIZE)
  inside : ∃ region ∈ regions, region.kind = .usable ∧ region.start ≤ startAddress start ∧
    startAddress (start + storageCount a.bitmap.frameCount) ≤ region.start + region.length
  /-- Nothing but the bitmap is written. -/
  written : m' = m.withMem m'.mem ∧ ∀ x,
    ¬ (startAddress start ≤ x ∧ x < startAddress (start + storageCount a.bitmap.frameCount)) →
    m'.mem.byte x = m.mem.byte x

theorem Classified.made {L : Layout} (h : Classified regions ⟨0⟩ m (a.unshift dm) L m')
    (hstart : dm.offset ≤ a.bitmap.start) (hdm : a.directMap = dm) :
    a.Made regions dm m m' L.store := by
  have hcount : (a.unshift dm).bitmap.frameCount = a.bitmap.frameCount := rfl
  have hstate : ∀ f < a.bitmap.frameCount, a.frameState m'.mem f = some (L.role f).state := by
    intro f hf
    have haddress : (a.unshift dm).bitmap.byteAddress (a.unshift dm).directMap f
        = a.bitmap.byteAddress a.directMap f := by
      rw [hdm]
      simp only [FrameAllocator.unshift, Bitmap.byteAddress, DirectMap.physical]
      omega
    have hbits := h.inv.states f hf
    change FrameState.ofBits ((a.unshift dm).bitmap.bitsOf (a.unshift dm).directMap m'.mem f)
      = _ at hbits
    rw [Bitmap.bitsOf, haddress] at hbits
    exact hbits
  have hfree : ∀ f < a.bitmap.frameCount,
      a.frameState m'.mem f = some .free ↔ L.role f = .free := by
    intro f hf
    rw [hstate f hf, Option.some.injEq, Role.state_free]
  have hstorage := h.storage
  rw [hcount] at hstorage
  have hpos : 0 < storageCount a.bitmap.frameCount := by
    have hpositive := h.positive
    rw [hcount] at hpositive
    simp only [storageCount, FRAME_SIZE]
    omega
  refine ⟨?_, ?_, ?_, h.counters.symm, ?_, ?_, ?_, ?_, h.memory, ?_⟩
  · have hbegin := h.inv.start
    change a.bitmap.start - dm.offset = startAddress L.store + 0 at hbegin
    omega
  · intro f hf
    rw [hfree f hf, ← hstorage]
    constructor
    · intro hrole
      refine ⟨?_, by rw [hrole]; simp⟩
      obtain hother | ⟨-, hcov⟩ := h.roles f
      · rw [hrole] at hother
        cases hother
      · exact hcov
    · intro hcov
      obtain ⟨⟨region, hmem, husable, hf⟩, hout⟩ := hcov
      exact h.free region hmem husable f hf hout
  · intro f hf hne
    rw [Ne, hfree f hf] at hne
    rw [hstate f hf]
    obtain hrole | ⟨hrole | hrole, -⟩ := h.roles f
    · rw [hrole]
      rfl
    · rw [hrole]
      rfl
    · exact absurd hrole hne
  · have hfreeFrames := h.inv.count
    change a.freeFrames = (L.freeSet a.bitmap.frameCount).card at hfreeFrames
    rw [hfreeFrames, Layout.freeSet]
    congr 1
    apply Finset.filter_congr
    intro f hf
    rw [hfree f (Finset.mem_range.mp hf), Role.state_free]
  · intro region hmem htrack f hf
    exact (h.tracks region hmem htrack).2 f hf
  · simp only [storageCount, FRAME_SIZE]
    omega
  · obtain ⟨region, hmem, husable, hcov⟩ := h.store
    have hfirst := hcov L.store ((hstorage _).mpr ⟨le_rfl, by omega⟩)
    have hlast := hcov (L.store + storageCount a.bitmap.frameCount - 1)
      ((hstorage _).mpr ⟨by omega, by omega⟩)
    refine ⟨region, hmem, husable, hfirst.1, ?_⟩
    have hend := hlast.2
    generalize storageCount a.bitmap.frameCount = count at hpos hend
    have hlastEnd : startAddress (L.store + count - 1) + FRAME_SIZE
        = startAddress (L.store + count) := by
      simp only [startAddress, FRAME_SIZE]
      omega
    rwa [hlastEnd] at hend
  · intro x hx
    refine PhysMem.byte_congr (h.words _ ?_)
    rw [Ne, hstorage]
    simp only [startAddress, FRAME_SIZE] at hx ⊢
    omega

/-- Every memory map with disjoint usable regions is classified as it should be. -/
theorem frame_allocator_classifies
    (hpair : regions.Pairwise (MemoryRegion.Disjoint (· = .usable)))
    (h : FrameAllocator.new regions dm m = .ok (.ok a) m') :
    ∃ start, a.Made regions dm m m' start := by
  obtain ⟨hzero, hstart, hdm, htracks⟩ := new_shift h
  have hdirect : ∀ region ∈ regions, shouldTrack region.kind = true → ∀ x, region.Has x →
      ((⟨0⟩ : DirectMap).translate x).isSome := by
    intro region hmem htrack x hx
    obtain ⟨⟨range, hrange⟩, -⟩ := htracks region hmem htrack
    have hend := usableFrameRange_end hrange
    have hlast := hx.2
    rw [DirectMap.translate, checkedAdd, Nat.add_zero, if_pos (by omega)]
    rfl
  have hsat : (FrameAllocator.new regions ⟨0⟩).Sat m (fun r m' => ∀ a, r = .ok a →
      ∃ L, Classified regions ⟨0⟩ m a L m') Prog.never :=
    frameAllocatorNew_sat hpair hdirect (by simp) fun a L m' hnew a' ha' => by
      cases ha'
      exact ⟨L, hnew⟩
  obtain ⟨L, hnew⟩ := hsat.of_ok hzero _ rfl
  exact ⟨L.store, hnew.made hstart hdm⟩

/-- The firmware's part is not free, nor is the first frame, which holds the bitmap. -/
theorem frame_allocator_classifies_small :
    ∃ (a : FrameAllocator) (m' : Machine) (start : ℕ),
      a.Made smallMap smallDirectMap (smallMachine .fourLevel) m' start ∧ a.freeFrames = 19 := by
  have husable : smallMap.Pairwise (MemoryRegion.Disjoint (· = .usable)) :=
    smallMap_disjoint.imp fun {x y} h hx hy => h (by rw [hx]; rfl) (by rw [hy]; rfl)
  have hrun : (match FrameAllocator.new smallMap smallDirectMap (smallMachine .fourLevel) with
      | .ok (.ok a) _ => decide (a.freeFrames = 19)
      | _ => false) = true := by decide +kernel
  split at hrun
  · next a m' hnew =>
    obtain ⟨start, hmade⟩ := frame_allocator_classifies husable hnew
    exact ⟨a, m', start, hmade, of_decide_eq_true hrun⟩
  · cases hrun

end Classify

end Dusk
