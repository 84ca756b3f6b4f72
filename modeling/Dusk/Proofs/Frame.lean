import Dusk.Model.Frame

/-! The frame allocator: every frame has one role, and the bitmap and the counters
of the allocator say the same as the roles. -/

namespace Dusk

open Lib

/-- What an allocated frame that is not a page table is used for. -/
inductive Owner where
  /-- The frame of a handle, mapped or not. -/
  | handle (task slot : ℕ)
  /-- A page of a kernel stack. -/
  | stack (page : ℕ)
  /-- A user page made at boot. -/
  | boot (page : ℕ)
  /-- Allocated and not placed yet. -/
  | spare
  deriving DecidableEq

inductive Role where
  /-- Not managed by the allocator. -/
  | other
  /-- A page of the boot archive, behind a page of its window. -/
  | window (page : ℕ)
  /-- Part of the allocator's bitmap. -/
  | storage
  | free
  /-- The table at a path below a root. -/
  | table (root : ℕ) (path : List ℕ)
  | data (owner : Owner)
  deriving DecidableEq

def Role.state : Role → FrameState
  | .free => .free
  | .table _ _ | .data _ => .allocated
  | .other | .window _ | .storage => .reserved

theorem Role.state_free {ρ : Role} : ρ.state = .free ↔ ρ = .free := by
  cases ρ <;> simp [Role.state]

/-- The use of physical memory: the role of every frame, the root of the kernel's
address space, and the first frame of the bitmap. -/
structure Layout where
  role : ℕ → Role
  kroot : ℕ
  store : ℕ

def Layout.set (L : Layout) (f : ℕ) (ρ : Role) : Layout :=
  { L with role := Function.update L.role f ρ }

@[simp] theorem Layout.set_role_self (L : Layout) (f : ℕ) (ρ : Role) : (L.set f ρ).role f = ρ :=
  Function.update_self _ _ _

theorem Layout.set_role_of_ne (L : Layout) {f g : ℕ} (h : g ≠ f) (ρ : Role) :
    (L.set f ρ).role g = L.role g := Function.update_of_ne h _ _

@[simp] theorem Layout.set_kroot (L : Layout) (f : ℕ) (ρ : Role) : (L.set f ρ).kroot = L.kroot :=
  rfl

@[simp] theorem Layout.set_store (L : Layout) (f : ℕ) (ρ : Role) : (L.set f ρ).store = L.store :=
  rfl

theorem Layout.set_set (L : Layout) (f : ℕ) (ρ ρ' : Role) : (L.set f ρ).set f ρ' = L.set f ρ' := by
  simp [Layout.set]

theorem Layout.set_eq (L : Layout) {f : ℕ} {ρ : Role} (h : L.role f = ρ) : L.set f ρ = L := by
  simp [Layout.set, ← h]

def Machine.frameCount (m : Machine) : ℕ := m.allocator.bitmap.frameCount

/-- The state of a tracked frame in the allocator's bitmap. -/
def Machine.frameState (m : Machine) (f : ℕ) : Option FrameState :=
  if f < m.frameCount then
    FrameState.ofBits (m.allocator.bitmap.bitsOf m.allocator.directMap m.mem f)
  else none

def Layout.freeSet (L : Layout) (n : ℕ) : Finset ℕ :=
  (Finset.range n).filter fun f => (L.role f).state = .free

/-- The frames the allocator has or has had to give. -/
def Layout.managedSet (L : Layout) (n : ℕ) : Finset ℕ :=
  (Finset.range n).filter fun f => (L.role f).state ≠ .reserved

def Machine.withMem (m : Machine) (mem : PhysMem) : Machine := { m with mem }

/-- The memory after the state of a frame has been written. -/
def Machine.withState (m : Machine) (f : ℕ) (s : FrameState) : PhysMem :=
  let address := m.allocator.bitmap.byteAddress m.allocator.directMap f
  m.mem.setByte address (withPair (m.mem.byte address) (f % 4) s.toBits)

structure AllocInv (L : Layout) (m : Machine) : Prop where
  start : m.allocator.bitmap.start = startAddress L.store + m.allocator.directMap.offset
  stored : ∀ f < m.frameCount, L.role (L.store + f / 4 / FRAME_SIZE) = .storage
  states : ∀ f < m.frameCount, FrameState.ofBits
    (m.allocator.bitmap.bitsOf m.allocator.directMap m.mem f) = some (L.role f).state
  beyond : ∀ f, m.frameCount ≤ f → (L.role f).state = .reserved
  search : m.allocator.nextSearch ≤ m.frameCount
  count : m.allocator.freeFrames = (L.freeSet m.frameCount).card
  total : m.allocator.allocatableFrames = (L.managedSet m.frameCount).card
  direct : startAddress m.frameCount + m.allocator.directMap.offset ≤ USIZE_END

/-- Only memory and the two cursors of the allocator differ. -/
def AllocOnly (m m' : Machine) : Prop :=
  m' = { m with
    mem := m'.mem
    allocator := { m.allocator with
      freeFrames := m'.allocator.freeFrames, nextSearch := m'.allocator.nextSearch } }

theorem AllocOnly.refl (m : Machine) : AllocOnly m m := rfl

theorem AllocOnly.trans {m m' m'' : Machine} (h : AllocOnly m m') (h' : AllocOnly m' m'') :
    AllocOnly m m'' := by
  unfold AllocOnly at *
  rw [h', h]

namespace AllocInv

variable {L : Layout} {m m' : Machine} {f : ℕ}

theorem lt_of_allocated (h : AllocInv L m) (hf : (L.role f).state ≠ .reserved) :
    f < m.frameCount := by
  by_contra hn
  exact hf (h.beyond f (by omega))

theorem translate_some (h : AllocInv L m) (hf : (L.role f).state ≠ .reserved) :
    ∃ v, m.allocator.directMap.translate (startAddress f) = some v := by
  have hlt := h.lt_of_allocated hf
  have hd := h.direct
  refine ⟨startAddress f + m.allocator.directMap.offset, ?_⟩
  rw [DirectMap.translate, checkedAdd, if_pos]
  simp only [startAddress, FRAME_SIZE] at hd ⊢
  omega

theorem frameState_of_lt (h : AllocInv L m) (hf : f < m.frameCount) :
    m.frameState f = some (L.role f).state := by
  rw [Machine.frameState, if_pos hf, h.states f hf]

/-- The bitmap tells the state of the frames that are managed. -/
theorem frameState_iff (h : AllocInv L m) {s : FrameState} (hs : s ≠ .reserved) :
    m.frameState f = some s ↔ (L.role f).state = s := by
  by_cases hf : f < m.frameCount
  · rw [h.frameState_of_lt hf, Option.some_inj]
  · rw [Machine.frameState, if_neg hf, h.beyond f (not_lt.mp hf)]
    exact ⟨nofun, fun hr => absurd hr.symm hs⟩

theorem frameState_free (h : AllocInv L m) : m.frameState f = some .free ↔ L.role f = .free :=
  (h.frameState_iff (s := .free) nofun).trans Role.state_free

theorem frameState_allocated (h : AllocInv L m) :
    m.frameState f = some .allocated ↔ (L.role f).state = .allocated :=
  h.frameState_iff nofun

theorem frameState_congr {L' : Layout} (h : AllocInv L m) (h' : AllocInv L' m')
    (hcount : m'.frameCount = m.frameCount) (hf : (L'.role f).state = (L.role f).state) :
    m'.frameState f = m.frameState f := by
  by_cases hlt : f < m.frameCount
  · rw [h.frameState_of_lt hlt, h'.frameState_of_lt (by rwa [hcount]), hf]
  · rw [Machine.frameState, Machine.frameState, if_neg hlt, hcount, if_neg hlt]

/-- The bitmap byte of a frame. -/
theorem byteAddress_eq (h : AllocInv L m) (f : ℕ) :
    m.allocator.bitmap.byteAddress m.allocator.directMap f = startAddress L.store + f / 4 := by
  rw [Bitmap.byteAddress, DirectMap.physical, h.start]
  omega

/-- The bitmap lies in storage frames, so that nothing else depends on other frames. -/
theorem congr (h : AllocInv L m) (halloc : m'.allocator = m.allocator)
    (hmem : ∀ f, L.role f = .storage → m'.mem.word f = m.mem.word f) : AllocInv L m' := by
  have hcount : m'.frameCount = m.frameCount := by rw [Machine.frameCount, halloc]; rfl
  refine ⟨?_, ?_, ?_, ?_, ?_, ?_, ?_, ?_⟩
  · rw [halloc]; exact h.start
  · rw [hcount]; exact h.stored
  · intro f hf
    rw [hcount] at hf
    rw [halloc, ← h.states f hf, Bitmap.bitsOf, Bitmap.bitsOf]
    congr 2
    apply PhysMem.byte_congr
    rw [h.byteAddress_eq]
    have hdiv : (startAddress L.store + f / 4) / FRAME_SIZE = L.store + f / 4 / FRAME_SIZE := by
      simp only [startAddress, FRAME_SIZE]
      omega
    rw [hdiv]
    exact hmem _ (h.stored f hf)
  · rw [hcount]; exact h.beyond
  · rw [hcount, halloc]; exact h.search
  · rw [hcount, halloc]; exact h.count
  · rw [hcount, halloc]; exact h.total
  · rw [hcount, halloc]; exact h.direct

/-- Frames outside the bitmap change their roles without changing their states. -/
theorem restate {L' : Layout} (h : AllocInv L m) (hstore : L'.store = L.store)
    (hstored : ∀ f, L.role f = .storage → L'.role f = .storage)
    (hstate : ∀ f, (L'.role f).state = (L.role f).state) : AllocInv L' m := by
  refine ⟨by rw [hstore]; exact h.start, ?_, ?_, ?_, h.search, ?_, ?_, h.direct⟩
  · intro g hg
    rw [hstore]
    exact hstored _ (h.stored g hg)
  · intro g hg
    rw [hstate g]
    exact h.states g hg
  · intro g hg
    rw [hstate g]
    exact h.beyond g hg
  · rw [h.count, Layout.freeSet, Layout.freeSet]
    simp only [hstate]
  · rw [h.total, Layout.managedSet, Layout.managedSet]
    simp only [hstate]

theorem retag (h : AllocInv L m) {ρ : Role} (hf : L.role f ≠ .storage)
    (hstate : ρ.state = (L.role f).state) : AllocInv (L.set f ρ) m := by
  refine h.restate rfl ?_ ?_
  · intro g hg
    rw [Layout.set_role_of_ne, hg]
    rintro rfl
    exact hf hg
  · intro g
    by_cases hg : g = f
    · rw [hg, Layout.set_role_self, hstate]
    · rw [Layout.set_role_of_ne L hg]

theorem ofBits_toBits (s : FrameState) : FrameState.ofBits s.toBits = some s := by
  cases s <;> rfl

theorem toBits_lt (s : FrameState) : s.toBits.toNat < 4 := by
  cases s <;> decide

/-- Where the bitmap byte of a frame lies. -/
theorem byteFrame_eq (h : AllocInv L m) (f : ℕ) :
    m.allocator.bitmap.byteAddress m.allocator.directMap f / FRAME_SIZE =
      L.store + f / 4 / FRAME_SIZE := by
  rw [h.byteAddress_eq]
  simp only [startAddress, FRAME_SIZE]
  omega

theorem withState_word (h : AllocInv L m) (hf : f < m.frameCount) (s : FrameState) {g : ℕ}
    (hg : L.role g ≠ .storage) : (m.withState f s).word g = m.mem.word g := by
  apply PhysMem.frame_setByte
  rw [h.byteFrame_eq]
  rintro rfl
  exact hg (h.stored f hf)

theorem withState_bits (h : AllocInv L m) (f : ℕ) (s : FrameState) (g : ℕ) :
    m.allocator.bitmap.bitsOf m.allocator.directMap (m.withState f s) g =
      if g = f then s.toBits
      else m.allocator.bitmap.bitsOf m.allocator.directMap m.mem g := by
  rw [Bitmap.bitsOf, Machine.withState, PhysMem.byte_setByte, h.byteAddress_eq, h.byteAddress_eq]
  by_cases hbyte : g / 4 = f / 4
  · rw [if_pos (by rw [hbyte]), pair_withPair _ _ _ _ (by omega) (toBits_lt s)]
    by_cases hg : g = f
    · rw [if_pos (by rw [hg]), if_pos hg]
    · rw [if_neg (by omega), if_neg hg, Bitmap.bitsOf, h.byteAddress_eq, hbyte]
  · rw [if_neg (by omega), if_neg (by rintro rfl; exact hbyte rfl), Bitmap.bitsOf,
      h.byteAddress_eq]

/-- A frame changes its role, and the bitmap and the counters with it. -/
theorem writeState (h : AllocInv L m) (hf : f < m.frameCount) (hs : L.role f ≠ .storage)
    (ρ : Role) {free next total : ℕ} (hnext : next ≤ m.frameCount)
    (hcount : free = ((L.set f ρ).freeSet m.frameCount).card)
    (htotal : total = ((L.set f ρ).managedSet m.frameCount).card) :
    AllocInv (L.set f ρ) { m with
      mem := m.withState f ρ.state
      allocator := { m.allocator with
        allocatableFrames := total, freeFrames := free, nextSearch := next } } := by
  refine ⟨h.start, ?_, ?_, ?_, hnext, hcount, htotal, h.direct⟩
  · intro g hg
    have hst := h.stored g hg
    rw [Layout.set_store, Layout.set_role_of_ne, hst]
    rintro rfl
    exact hs hst
  · intro g hg
    show FrameState.ofBits (m.allocator.bitmap.bitsOf m.allocator.directMap
      (m.withState f ρ.state) g) = _
    rw [h.withState_bits f ρ.state g]
    by_cases hgf : g = f
    · rw [if_pos hgf, hgf, Layout.set_role_self, ofBits_toBits]
    · rw [if_neg hgf, Layout.set_role_of_ne L hgf]
      exact h.states g hg
  · intro g hg
    have hgf : g ≠ f := by
      rintro rfl
      exact absurd hf (Nat.not_lt.mpr hg)
    rw [Layout.set_role_of_ne L hgf]
    exact h.beyond g hg

theorem card_take (hf : f < m.frameCount) (hfree : L.role f = .free) {ρ : Role}
    (hρ : ρ.state ≠ .free) :
    ((L.set f ρ).freeSet m.frameCount).card + 1 = (L.freeSet m.frameCount).card := by
  have hmem : f ∈ L.freeSet m.frameCount := by
    simpa [Layout.freeSet, hf, Role.state_free] using hfree
  have heq : (L.set f ρ).freeSet m.frameCount = (L.freeSet m.frameCount).erase f := by
    ext g
    simp only [Layout.freeSet, Finset.mem_filter, Finset.mem_erase]
    by_cases hg : g = f
    · simp [hg, hρ]
    · simp [hg, Layout.set_role_of_ne L hg]
  rw [heq, Finset.card_erase_add_one hmem]

theorem card_give (hf : f < m.frameCount) (hnot : (L.role f).state ≠ .free) :
    ((L.set f .free).freeSet m.frameCount).card = (L.freeSet m.frameCount).card + 1 := by
  have hmem : f ∉ L.freeSet m.frameCount := by
    simp [Layout.freeSet, hnot]
  have heq : (L.set f .free).freeSet m.frameCount = insert f (L.freeSet m.frameCount) := by
    ext g
    simp only [Layout.freeSet, Finset.mem_filter, Finset.mem_insert]
    by_cases hg : g = f
    · simp [hg, hf, Role.state]
    · simp [hg, Layout.set_role_of_ne L hg]
  rw [heq, Finset.card_insert_of_notMem hmem]

/-- A frame that stays with the allocator does not change what it manages. -/
theorem managedSet_set {ρ : Role} (hf : (L.role f).state ≠ .reserved) (hρ : ρ.state ≠ .reserved)
    (n : ℕ) : (L.set f ρ).managedSet n = L.managedSet n := by
  ext g
  simp only [Layout.managedSet, Finset.mem_filter]
  by_cases hg : g = f
  · simp [hg, hf, hρ]
  · simp [Layout.set_role_of_ne L hg]

theorem card_manage (hf : f < m.frameCount) (hres : (L.role f).state = .reserved) :
    ((L.set f .free).managedSet m.frameCount).card = (L.managedSet m.frameCount).card + 1 := by
  have hmem : f ∉ L.managedSet m.frameCount := by
    simp [Layout.managedSet, hres]
  have heq : (L.set f .free).managedSet m.frameCount = insert f (L.managedSet m.frameCount) := by
    ext g
    simp only [Layout.managedSet, Finset.mem_filter, Finset.mem_insert]
    by_cases hg : g = f
    · simp [hg, hf, Role.state]
    · simp [hg, Layout.set_role_of_ne L hg]
  rw [heq, Finset.card_insert_of_notMem hmem]

/-- The counters stay far from the end of the machine words. -/
theorem checkedAdd_one (h : AllocInv L m) {n : ℕ} (hn : n ≤ m.frameCount) :
    checkedAdd n 1 = some (n + 1) := by
  have hd := h.direct
  rw [checkedAdd, if_pos]
  simp only [startAddress, FRAME_SIZE] at hd
  unfold USIZE_END at *
  omega

theorem free_le (h : AllocInv L m) : m.allocator.freeFrames ≤ m.frameCount := by
  rw [h.count, Layout.freeSet]
  exact (Finset.card_filter_le _ _).trans (Finset.card_range _).le

theorem total_le (h : AllocInv L m) : m.allocator.allocatableFrames ≤ m.frameCount := by
  rw [h.total, Layout.managedSet]
  exact (Finset.card_filter_le _ _).trans (Finset.card_range _).le

/-- The counter shows whether a frame is left. -/
theorem no_free (h : AllocInv L m) (hzero : m.allocator.freeFrames = 0) (f : ℕ) :
    L.role f ≠ .free := by
  intro hf
  have hlt := h.lt_of_allocated (f := f) (by simp [hf, Role.state])
  have hempty : L.freeSet m.frameCount = ∅ := by
    rw [← Finset.card_eq_zero, ← h.count, hzero]
  have hmem : f ∈ L.freeSet m.frameCount := by
    simpa [Layout.freeSet, hlt, Role.state_free] using hf
  rw [hempty] at hmem
  cases hmem

end AllocInv

section Specs

variable {L : Layout} {m : Machine} {E : Panic → Machine → Prop}

theorem state_sat {Q : FrameState → Machine → Prop} (h : AllocInv L m) {f : ℕ}
    (hf : f < m.frameCount) (hQ : Q (L.role f).state m) :
    (m.allocator.bitmap.state m.allocator.directMap f).Sat m Q E := by
  have hlt : f < m.allocator.bitmap.frameCount := hf
  simp only [Bitmap.state, Prog.sat_bind, Prog.sat_assert, Prog.sat_get, hlt, decide_true,
    if_true, h.states f hf, Prog.sat_expect_some]
  exact hQ

theorem setState_sat {Q : Unit → Machine → Prop} {f : ℕ} (hf : f < m.frameCount)
    (s : FrameState) :
    (m.allocator.bitmap.setState m.allocator.directMap f s).Sat m Q E ↔
      Q () { m with mem := m.withState f s } := by
  have hlt : f < m.allocator.bitmap.frameCount := hf
  simp only [Bitmap.setState, Prog.sat_bind, Prog.sat_assert, hlt, decide_true, if_true]
  exact Iff.rfl

theorem findFreeIn_sat {Q : Option ℕ → Machine → Prop} (h : AllocInv L m) (start count : ℕ)
    (hle : start + count ≤ m.frameCount)
    (hnone : (∀ f, start ≤ f → f < start + count → L.role f ≠ .free) → Q none m)
    (hsome : ∀ f, L.role f = .free → start ≤ f →
      (∀ g, L.role g = .free → start ≤ g → f ≤ g) → Q (some f) m) :
    (FrameAllocator.findFreeIn m.allocator.bitmap m.allocator.directMap start count).Sat m Q E := by
  induction count generalizing start with
  | zero => exact hnone (fun f hf hf' => absurd hf' (by omega))
  | succ count ih =>
    rw [FrameAllocator.findFreeIn, Prog.sat_bind]
    apply state_sat h (by omega)
    by_cases hst : (L.role start).state = .free
    · rw [if_pos hst]
      exact hsome start (Role.state_free.mp hst) le_rfl fun g _ hg => hg
    · rw [if_neg hst]
      have hstart : ∀ f, L.role f = .free → f ≠ start := by
        rintro f hfree rfl
        exact hst (by rw [hfree]; rfl)
      refine ih (start + 1) (by omega) ?_ ?_
      · intro hno
        refine hnone fun f hf hf' hfree => ?_
        have := hstart f hfree
        exact hno f (by omega) (by omega) hfree
      · intro f hfree hf hfirst
        refine hsome f hfree (by omega) fun g hg hle => ?_
        have := hstart g hg
        exact hfirst g hg (by omega)

/-- The frame that the next allocation takes: the search goes on from the cursor and
starts again from the first frame when it finds none. -/
structure Layout.NextFree (L : Layout) (m : Machine) (f : ℕ) : Prop where
  free : L.role f = .free
  first : (m.allocator.nextSearch ≤ f ∧
      ∀ g, L.role g = .free → m.allocator.nextSearch ≤ g → f ≤ g) ∨
    ∀ g, L.role g = .free → g < m.allocator.nextSearch ∧ f ≤ g

theorem findFreeFrame_sat {Q : Option ℕ → Machine → Prop} (h : AllocInv L m)
    (hnone : (∀ f, L.role f ≠ .free) → Q none m)
    (hsome : ∀ f, L.NextFree m f → Q (some f) m) :
    (FrameAllocator.findFreeFrame m.allocator).Sat m Q E := by
  have hsearch := h.search
  rw [FrameAllocator.findFreeFrame, Prog.sat_bind]
  apply findFreeIn_sat h
  · unfold Machine.frameCount at *
    omega
  · intro hhigh
    have hbelow : ∀ f, L.role f = .free → f < m.allocator.nextSearch := by
      intro f hf
      have hlt := h.lt_of_allocated (f := f) (by simp [hf, Role.state])
      by_contra hfn
      exact hhigh f (by omega) (by unfold Machine.frameCount at *; omega) hf
    refine findFreeIn_sat h 0 _ (by simpa using hsearch) ?_ ?_
    · intro hlow
      exact hnone fun f hf => hlow f (by omega) (by have := hbelow f hf; omega) hf
    · intro f hf _ hfirst
      exact hsome f ⟨hf, .inr fun g hg => ⟨hbelow g hg, hfirst g hg (Nat.zero_le g)⟩⟩
  · exact fun f hf hle hfirst => hsome f ⟨hf, .inl ⟨hle, hfirst⟩⟩

/-- The frame is taken, and the cursor goes behind it. -/
structure Layout.Takes (L : Layout) (m : Machine) (f : ℕ) (m' : Machine) : Prop where
  next : L.NextFree m f
  cursor : m'.allocator.nextSearch = f + 1

/-- An allocation takes a free frame; it fails only where there is none, and then it
changes nothing. -/
theorem allocNozero_sat {Q : Option ℕ → Machine → Prop} (h : AllocInv L m)
    (hnone : (∀ f, L.role f ≠ .free) → Q none m)
    (hsome : ∀ f m', L.Takes m f m' → AllocInv (L.set f (.data .spare)) m' → AllocOnly m m' →
      (∀ g, L.role g ≠ .storage → m'.mem.word g = m.mem.word g) → Q (some f) m') :
    FrameAllocator.allocNozero.Sat m Q E := by
  rw [FrameAllocator.allocNozero, Prog.sat_bind, Prog.sat_gets]
  by_cases hzero : m.allocator.freeFrames = 0
  · rw [if_pos hzero]
    exact hnone (h.no_free hzero)
  rw [if_neg hzero, Prog.sat_bind]
  refine findFreeFrame_sat h (by exact hnone) ?_
  intro f hnext
  have hf := hnext.free
  have hlt : f < m.frameCount := h.lt_of_allocated (by simp [hf, Role.state])
  have hcard := AllocInv.card_take hlt hf (ρ := .data .spare) (by simp [Role.state])
  have hcount := h.count
  have hsub : checkedSub m.allocator.freeFrames 1 = some (m.allocator.freeFrames - 1) := by
    rw [checkedSub, if_pos (by omega)]
  simp only [Prog.sat_bind, setState_sat hlt, subUsize, hsub, Prog.sat_expect_some,
    modifyAllocator, Prog.sat_modify, Prog.sat_pure]
  have hbound : f + 1 < USIZE_END := by
    have hd := h.direct
    have := h.lt_of_allocated (f := f) (by simp [hf, Role.state])
    simp only [startAddress, FRAME_SIZE] at hd
    unfold USIZE_END at *
    omega
  have hcursor : min (f + 1) (USIZE_END - 1) = f + 1 := by omega
  refine hsome f _ ⟨hnext, hcursor⟩ (h.writeState hlt (by simp [hf]) (.data .spare) ?_ ?_ ?_) rfl ?_
  · omega
  · omega
  · rw [h.total, AllocInv.managedSet_set (by simp [hf, Role.state]) (by simp [Role.state])]
  · intro g hg
    exact h.withState_word hlt _ hg

theorem alloc_sat {Q : Option ℕ → Machine → Prop} (h : AllocInv L m)
    (hnone : (∀ f, L.role f ≠ .free) → Q none m)
    (hsome : ∀ f m', L.Takes m f m' → AllocInv (L.set f (.data .spare)) m' → AllocOnly m m' →
      (∀ g, L.role g ≠ .storage → g ≠ f → m'.mem.word g = m.mem.word g) →
      (∀ i, m'.mem.word f i = 0) → Q (some f) m') :
    FrameAllocator.alloc.Sat m Q E := by
  rw [FrameAllocator.alloc, Prog.sat_bind]
  refine allocNozero_sat h (by exact hnone) ?_
  intro f m₁ hf h₁ hregs hwords
  obtain ⟨v, hv⟩ := h₁.translate_some (f := f) (by simp [Role.state])
  simp only [Prog.sat_bind, Prog.sat_gets, hv, Prog.sat_expect_some, modifyMem, Prog.sat_modify,
    Prog.sat_pure]
  refine hsome f _ ⟨hf.next, hf.cursor⟩ (h₁.congr rfl ?_) ?_ ?_ ?_
  · intro g hg
    have hgf : g ≠ f := by
      rintro rfl
      simp at hg
    simp [hgf]
  · unfold AllocOnly at *
    rw [hregs]
  · intro g hg hgf
    rw [PhysMem.word_zeroFrame, if_neg hgf]
    exact hwords g hg
  · intro i
    simp

theorem dealloc_sat {Q : Unit → Machine → Prop} (h : AllocInv L m) {f : ℕ}
    (hf : (L.role f).state = .allocated)
    (hQ : ∀ m', AllocInv (L.set f .free) m' → AllocOnly m m' →
      (∀ g, L.role g ≠ .storage → m'.mem.word g = m.mem.word g) → Q () m') :
    (FrameAllocator.dealloc f).Sat m Q E := by
  have hlt : f < m.frameCount := h.lt_of_allocated (by simp [hf])
  rw [FrameAllocator.dealloc, Prog.sat_bind, Prog.sat_gets, Prog.sat_bind]
  apply state_sat h hlt
  rw [hf]
  have hcard := AllocInv.card_give (L := L) hlt (by simp [hf])
  have hcount := h.count
  have hadd := h.checkedAdd_one h.free_le
  simp only [Prog.sat_bind, setState_sat hlt, addUsize, hadd, Prog.sat_expect_some,
    modifyAllocator, Prog.sat_modify]
  have hsearch := h.search
  have hstore : L.role f ≠ .storage := by
    intro hs
    simp [hs, Role.state] at hf
  refine hQ _ (h.writeState hlt hstore .free ?_ ?_ ?_) rfl ?_
  · omega
  · omega
  · rw [h.total, AllocInv.managedSet_set (by simp [hf]) (by simp [Role.state])]
  · intro g hg
    exact h.withState_word hlt _ hg

end Specs

section Offers

variable {L : Layout} {m m' : Machine} {f : ℕ}

/-- The free frames that allocations reach before one that no entry can name. -/
def Layout.offers (L : Layout) (m : Machine) : Finset ℕ :=
  (L.freeSet m.frameCount).filter fun f => startAddress f < m.paging.physicalAddressLimit ∧
    (m.allocator.nextSearch ≤ f ∨ ∀ g ∈ L.freeSet m.frameCount,
      m.allocator.nextSearch ≤ g → startAddress g < m.paging.physicalAddressLimit)

theorem AllocInv.mem_freeSet (h : AllocInv L m) : f ∈ L.freeSet m.frameCount ↔ L.role f = .free := by
  rw [Layout.freeSet, Finset.mem_filter, Finset.mem_range, Role.state_free]
  exact and_iff_right_of_imp fun hf => h.lt_of_allocated (by simp [hf, Role.state])

theorem AllocInv.mem_offers (h : AllocInv L m) : f ∈ L.offers m ↔
    L.role f = .free ∧ startAddress f < m.paging.physicalAddressLimit ∧
      (m.allocator.nextSearch ≤ f ∨ ∀ g, L.role g = .free → m.allocator.nextSearch ≤ g →
        startAddress g < m.paging.physicalAddressLimit) := by
  simp only [Layout.offers, Finset.mem_filter, h.mem_freeSet]

theorem startAddress_le {f g : ℕ} (h : f ≤ g) : startAddress f ≤ startAddress g :=
  Nat.mul_le_mul_right _ h

/-- Where the next frame cannot be named, nothing is on offer. -/
theorem Layout.NextFree.offers_empty (hn : L.NextFree m f) (h : AllocInv L m)
    (hlim : m.paging.physicalAddressLimit ≤ startAddress f) : L.offers m = ∅ := by
  refine Finset.eq_empty_of_forall_notMem fun g hg => ?_
  obtain ⟨hfree, hlt, hreach⟩ := h.mem_offers.mp hg
  have hgf : g < f := by
    by_contra hle
    have := startAddress_le (not_lt.mp hle)
    omega
  rcases hn.first with ⟨hle, hfirst⟩ | hfirst
  · rcases hreach with hreach | hreach
    · have := hfirst g hfree hreach
      omega
    · have := hreach f hn.free hle
      omega
  · have := (hfirst g hfree).2
    omega

/-- A frame that is taken is no longer on offer, and the others still are. -/
theorem Layout.Takes.offers_eq (ht : L.Takes m f m') (h : AllocInv L m) {ρ : Role}
    (hρ : ρ.state = .allocated) (h' : AllocInv (L.set f ρ) m') (hp : m'.paging = m.paging)
    (hlim : startAddress f < m.paging.physicalAddressLimit) :
    f ∈ L.offers m ∧ (L.set f ρ).offers m' = (L.offers m).erase f := by
  have hfree := ht.next.free
  have hother : ∀ g, (L.set f ρ).role g = .free ↔ g ≠ f ∧ L.role g = .free := by
    intro g
    by_cases hg : g = f
    · rw [hg, Layout.set_role_self]
      refine iff_of_false ?_ fun hne => hne.1 rfl
      intro he
      rw [he] at hρ
      cases hρ
    · rw [Layout.set_role_of_ne L hg]
      exact (and_iff_right hg).symm
  have haddr : ∀ g, L.role g = .free → g ≤ f → startAddress g < m.paging.physicalAddressLimit :=
    fun g _ hg => (startAddress_le hg).trans_lt hlim
  refine ⟨h.mem_offers.mpr ⟨hfree, hlim, ?_⟩, ?_⟩
  · rcases ht.next.first with ⟨hle, _⟩ | hfirst
    · exact .inl hle
    · refine .inr fun g hg hge => ?_
      have := (hfirst g hg).1
      omega
  · ext g
    rw [Finset.mem_erase, h'.mem_offers, h.mem_offers, hother, hp, ht.cursor, and_assoc]
    refine and_congr_right fun hne => and_congr_right fun hg => and_congr_right fun hglim => ?_
    -- the frames behind the cursor are those that come up after `f`
    have hall : (∀ g, (L.set f ρ).role g = .free → f + 1 ≤ g →
          startAddress g < m.paging.physicalAddressLimit) ↔
        ∀ g, L.role g = .free → startAddress g < m.paging.physicalAddressLimit := by
      constructor
      · intro hall x hx
        by_cases hxf : x ≤ f
        · exact haddr x hx hxf
        · exact hall x ((hother x).mpr ⟨by omega, hx⟩) (by omega)
      · exact fun hall x hx _ => hall x ((hother x).mp hx).2
    rw [hall]
    rcases ht.next.first with ⟨hle, hfirst⟩ | hfirst
    · constructor
      · rintro (hge | hlims)
        · exact .inl (by omega)
        · exact .inr fun x hx _ => hlims x hx
      · rintro (hge | hlims)
        · have := hfirst g hg hge
          exact .inl (by omega)
        · by_cases hgf : f + 1 ≤ g
          · exact .inl hgf
          · refine .inr fun x hx => ?_
            by_cases hxn : m.allocator.nextSearch ≤ x
            · exact hlims x hx hxn
            · exact haddr x hx (by omega)
    · have hgf := (hfirst g hg).2
      refine iff_of_true (.inl (by omega)) (.inr fun x hx hxn => ?_)
      have := (hfirst x hx).1
      omega

theorem Layout.Takes.card_offers (ht : L.Takes m f m') (h : AllocInv L m) {ρ : Role}
    (hρ : ρ.state = .allocated) (h' : AllocInv (L.set f ρ) m') (hp : m'.paging = m.paging)
    (hlim : startAddress f < m.paging.physicalAddressLimit) :
    ((L.set f ρ).offers m').card + 1 = (L.offers m).card := by
  obtain ⟨hmem, heq⟩ := ht.offers_eq h hρ h' hp hlim
  rw [heq, Finset.card_erase_add_one hmem]

/-- What is on offer depends on the free frames, the cursor and the limit. -/
theorem AllocInv.offers_congr {L' : Layout} (h : AllocInv L m) (h' : AllocInv L' m')
    (hfree : ∀ f, L'.role f = .free ↔ L.role f = .free) (hp : m'.paging = m.paging)
    (hnext : m'.allocator.nextSearch = m.allocator.nextSearch) : L'.offers m' = L.offers m := by
  ext f
  simp only [h'.mem_offers, h.mem_offers, hfree, hp, hnext]

end Offers

end Dusk
