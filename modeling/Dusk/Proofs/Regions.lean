import Dusk.Proofs.Frame

/-! `FrameAllocator::new` and `reclaim_regions`, over a memory map whose regions do
not overlap: a frame is free only as a whole frame of a usable or reclaimed region. -/

namespace Dusk

open Lib FrameAllocator

/-- The byte lies in the region. -/
def MemoryRegion.Has (region : MemoryRegion) (x : ℕ) : Prop :=
  region.start ≤ x ∧ x < region.start + region.length

/-- The frame lies in the region as a whole. -/
def MemoryRegion.Covers (region : MemoryRegion) (f : ℕ) : Prop :=
  region.start ≤ startAddress f ∧ startAddress f + FRAME_SIZE ≤ region.start + region.length

/-- Regions of these kinds share no byte. -/
def MemoryRegion.Disjoint (P : MemoryRegionKind → Prop) (a b : MemoryRegion) : Prop :=
  P a.kind → P b.kind → ∀ x, a.Has x → ¬ b.Has x

instance (P : MemoryRegionKind → Prop) : Std.Symm (MemoryRegion.Disjoint P) :=
  ⟨fun _ _ h hb ha x hbx hax => h ha hb x hax hbx⟩

/-- The memory the kernel will hand out. -/
def MemoryRegion.Given (region : MemoryRegion) : Prop :=
  region.kind = .usable ∨ region.kind = .bootloaderReclaimable

/-- A region that the kernel hands out overlaps no other one. -/
def MemoryRegion.Apart (a b : MemoryRegion) : Prop :=
  a.Given ∨ b.Given → a.start + a.length ≤ b.start ∨ b.start + b.length ≤ a.start

instance : Std.Symm MemoryRegion.Apart := ⟨fun _ _ h hor => (h hor.symm).symm⟩

/-- A frame that the kernel hands out shares no byte with another region. -/
theorem MemoryRegion.Apart.covers {a b : MemoryRegion} (h : a.Apart b) (ha : a.Given) {f x : ℕ}
    (hf : a.Covers f) (hx : x / FRAME_SIZE = f) : ¬ b.Has x := by
  rintro ⟨hlo, hhi⟩
  have := h (.inl ha)
  simp only [MemoryRegion.Covers, startAddress, FRAME_SIZE] at hf hx
  omega

theorem MemoryRegion.Apart.disjoint {a b : MemoryRegion} (h : a.Apart b) :
    MemoryRegion.Disjoint (· = .usable) a b := by
  intro ha _ x hax hbx
  have := h (.inl (.inl ha))
  simp only [MemoryRegion.Has] at hax hbx
  omega

theorem MemoryRegion.Covers.byte {region : MemoryRegion} {f : ℕ} (h : region.Covers f) :
    region.Has (startAddress f) := by
  obtain ⟨hlo, hhi⟩ := h
  simp only [FRAME_SIZE] at hhi
  exact ⟨hlo, by omega⟩

theorem startAddress_div (f : ℕ) : startAddress f / FRAME_SIZE = f :=
  Nat.mul_div_cancel f (by decide)

/-- Different regions of a memory map have different frames to hand out. -/
theorem covers_unique {regions : List MemoryRegion} (h : regions.Pairwise MemoryRegion.Apart)
    {a b : MemoryRegion} (ha : a ∈ regions) (hb : b ∈ regions) (hgiven : a.Given)
    (hne : a.kind ≠ b.kind) {f x : ℕ} (hf : a.Covers f) (hx : x / FRAME_SIZE = f) :
    ¬ b.Has x :=
  (h.forall ha hb (fun he => hne (by rw [he]))).covers hgiven hf hx

theorem usableFrameRange_ok {region : MemoryRegion} {start stop : ℕ}
    (h : usableFrameRange region = .ok (start, stop)) (f : ℕ) :
    start ≤ f ∧ f < stop ↔ region.Covers f := by
  rw [usableFrameRange] at h
  cases hend : checkedAdd region.start region.length with
  | none => rw [hend] at h; cases h
  | some regionEnd =>
    rw [hend] at h
    cases hup : alignUpToFrame region.start with
    | none => simp [hup] at h
    | some up =>
      simp only [hup, Except.ok.injEq, Prod.mk.injEq] at h
      obtain ⟨rfl, rfl⟩ := h
      rw [checkedAdd] at hend
      split_ifs at hend
      cases hend
      rw [alignUpToFrame, checkedAdd] at hup
      split_ifs at hup
      · simp only [Option.map_some, Option.some.injEq] at hup
        subst hup
        simp only [MemoryRegion.Covers, alignDownToFrame, startAddress, FRAME_SIZE]
        omega
      · cases hup

theorem usableFrameRange_end {region : MemoryRegion} {range : ℕ × ℕ}
    (h : usableFrameRange region = .ok range) : region.start + region.length < USIZE_END := by
  rw [usableFrameRange, checkedAdd] at h
  by_contra hend
  rw [if_neg hend] at h
  cases h

/-- The whole frames of the regions of these kinds have their places in a bitmap of
`n` frames. -/
def Tracks (P : MemoryRegionKind → Prop) (regions : List MemoryRegion) (n : ℕ) : Prop :=
  ∀ region ∈ regions, P region.kind →
    (∃ range, usableFrameRange region = .ok range) ∧ ∀ f, region.Covers f → f < n

theorem Tracks.cons {P : MemoryRegionKind → Prop} {region : MemoryRegion}
    {regions : List MemoryRegion} {n : ℕ}
    (h : P region.kind →
      (∃ range, usableFrameRange region = .ok range) ∧ ∀ f, region.Covers f → f < n)
    (hs : Tracks P regions n) : Tracks P (region :: regions) n := by
  intro r hr hk
  rcases List.mem_cons.mp hr with rfl | hr
  · exact h hk
  · exact hs r hr hk

/-- The first pass finds the end of the tracked frames. -/
theorem highestFrame_spec {regions : List MemoryRegion} {highest : Option ℕ} {n : ℕ}
    (h : highestFrame regions highest = .ok (some n)) :
    Tracks (shouldTrack · = true) regions n ∧ (∀ c, highest = some c → c ≤ n) ∧
    (highest = some n ∨ ∃ region ∈ regions, shouldTrack region.kind = true ∧
      ∃ f, region.Covers f ∧ n = f + 1) := by
  induction regions generalizing highest with
  | nil =>
    rw [highestFrame, Except.ok.injEq] at h
    subst h
    exact ⟨fun r hr => by simp at hr, fun c hc => by cases hc; exact le_rfl, .inl rfl⟩
  | cons region regions ih =>
    rw [highestFrame] at h
    cases ht : shouldTrack region.kind with
    | false =>
      simp only [ht, Bool.not_false, if_true] at h
      obtain ⟨h₁, h₂, h₃⟩ := ih h
      refine ⟨h₁.cons fun htr => ?_, h₂, ?_⟩
      · rw [ht] at htr
        cases htr
      · exact h₃.imp_right fun ⟨r, hr, hf⟩ => ⟨r, List.mem_cons_of_mem _ hr, hf⟩
    | true =>
      simp only [ht, Bool.not_true, Bool.false_eq_true, if_false] at h
      cases hrange : usableFrameRange region with
      | error e => rw [hrange] at h; cases h
      | ok range =>
        obtain ⟨start, stop⟩ := range
        have hcov := usableFrameRange_ok hrange
        simp only [hrange] at h
        split_ifs at h with hle
        · obtain ⟨h₁, h₂, h₃⟩ := ih h
          refine ⟨h₁.cons fun _ => ⟨⟨_, hrange⟩, ?_⟩, h₂, ?_⟩
          · intro f hf
            have := (hcov f).mpr hf
            omega
          · exact h₃.imp_right fun ⟨r, hr, hf⟩ => ⟨r, List.mem_cons_of_mem _ hr, hf⟩
        · obtain ⟨h₁, h₂, h₃⟩ := ih h
          have hstop : stop ≤ n ∧ ∀ c, highest = some c → c ≤ n := by
            cases highest with
            | none => exact ⟨h₂ stop rfl, by simp⟩
            | some c =>
              have := h₂ (max c stop) rfl
              exact ⟨by omega, fun c' hc => by cases hc; omega⟩
          refine ⟨h₁.cons fun _ => ⟨⟨_, hrange⟩, ?_⟩, hstop.2, ?_⟩
          · intro f hf
            have := (hcov f).mpr hf
            omega
          · have hlast : region.Covers (stop - 1) := (hcov (stop - 1)).mp (by omega)
            rcases h₃ with h₃ | ⟨r, hr, hf⟩
            · rw [Option.some.injEq] at h₃
              cases highest with
              | none =>
                exact .inr ⟨region, by simp, ht, stop - 1, hlast, by simp at h₃; omega⟩
              | some c =>
                simp only [Option.elim_some] at h₃
                by_cases hc : n = c
                · exact .inl (by rw [hc])
                · exact .inr ⟨region, by simp, ht, stop - 1, hlast, by omega⟩
            · exact .inr ⟨r, List.mem_cons_of_mem _ hr, hf⟩

/-- The second pass finds frames of one usable region. -/
theorem bitmapStartFrame_spec {regions : List MemoryRegion} {count start : ℕ}
    (h : bitmapStartFrame count regions = .ok (some start)) :
    ∃ region ∈ regions, region.kind = .usable ∧
      ∀ f, start ≤ f → f < start + count → region.Covers f := by
  induction regions with
  | nil => simp [bitmapStartFrame] at h
  | cons region regions ih =>
    rw [bitmapStartFrame] at h
    have hrest : bitmapStartFrame count regions = .ok (some start) →
        ∃ r ∈ region :: regions, r.kind = .usable ∧
          ∀ f, start ≤ f → f < start + count → r.Covers f := by
      intro h
      obtain ⟨r, hr, hcov⟩ := ih h
      exact ⟨r, List.mem_cons_of_mem _ hr, hcov⟩
    split_ifs at h with hkind
    · exact hrest h
    · cases hrange : usableFrameRange region with
      | error e => rw [hrange] at h; cases h
      | ok range =>
        obtain ⟨s, stop⟩ := range
        simp only [hrange] at h
        split_ifs at h with hle hsmall
        · exact hrest h
        · exact hrest h
        · simp only [Except.ok.injEq, Option.some.injEq] at h
          subst h
          refine ⟨region, by simp, by simpa [canStoreBitmap] using hkind, ?_⟩
          intro f hf hf'
          exact (usableFrameRange_ok hrange f).mp (by omega)

section Free

variable {E : Panic → Machine → Prop} {L : Layout} {m : Machine} {bitmap : Bitmap}
  {dm : DirectMap} {next storageStart storageEnd : ℕ}

/-- The machine with the allocator that is being made. -/
def Machine.withAllocator (m : Machine) (a : FrameAllocator) : Machine := { m with allocator := a }

theorem setState_with {Q : Unit → Machine → Prop} (a : FrameAllocator) {f : ℕ}
    (hf : f < a.bitmap.frameCount) (s : FrameState) :
    (a.bitmap.setState a.directMap f s).Sat m Q E ↔
      Q () (m.withMem ((m.withAllocator a).withState f s)) := by
  simp only [Bitmap.setState, Prog.sat_bind, Prog.sat_assert, hf, decide_true, if_true]
  exact Iff.rfl

theorem freeFrom_sat {Q : ℕ → Machine → Prop} {i count freed : ℕ}
    (h : AllocInv L (m.withAllocator ⟨bitmap, next, freed, freed, dm⟩))
    (hrole : ∀ f, i ≤ f → f < i + count → f < bitmap.frameCount ∧
      L.role f = if storageStart ≤ f ∧ f < storageEnd then .storage else .other)
    (hQ : ∀ freed' L' m',
      AllocInv L' (m'.withAllocator ⟨bitmap, next, freed', freed', dm⟩) →
      m' = m.withMem m'.mem →
      (∀ f, L'.role f = if (i ≤ f ∧ f < i + count) ∧ ¬ (storageStart ≤ f ∧ f < storageEnd)
        then .free else L.role f) →
      (∀ g, L.role g ≠ .storage → m'.mem.word g = m.mem.word g) → Q freed' m') :
    (freeFrom bitmap dm storageStart storageEnd i count freed).Sat m Q E := by
  induction count generalizing L m i freed with
  | zero =>
    refine hQ freed L m h rfl ?_ (fun _ _ => rfl)
    intro f
    rw [if_neg (by omega)]
  | succ count ih =>
    obtain ⟨hlt, hi⟩ := hrole i le_rfl (by omega)
    rw [freeFrom]
    split_ifs with hstore
    · refine ih h (fun f hf hf' => hrole f (by omega) (by omega)) ?_
      intro freed' L' m' h' hm' hr' hw'
      refine hQ freed' L' m' h' hm' ?_ hw'
      intro f
      rw [hr']
      by_cases hfi : f = i
      · rw [if_neg (by omega), if_neg (by rw [hfi]; exact fun hc => hc.2 hstore)]
      · have hiff : (i + 1 ≤ f ∧ f < i + 1 + count) ↔ (i ≤ f ∧ f < i + (count + 1)) := by omega
        simp only [hiff]
    · rw [if_neg hstore] at hi
      simp only [Prog.sat_bind]
      refine (setState_with ⟨bitmap, next, freed, freed, dm⟩ hlt .free).mpr ?_
      have hlt' : i < (m.withAllocator ⟨bitmap, next, freed, freed, dm⟩).frameCount := hlt
      have hadd : checkedAdd freed 1 = some (freed + 1) := h.checkedAdd_one h.free_le
      rw [addUsize, hadd, Prog.sat_expect_some]
      have hnext := h.writeState hlt' (by simp [hi]) .free h.search
        (show freed + 1 = _ by
          rw [AllocInv.card_give hlt' (by simp [hi, Role.state]), ← h.count]; rfl)
        (show freed + 1 = _ by
          rw [AllocInv.card_manage hlt' (by simp [hi, Role.state]), ← h.total]; rfl)
      refine ih (L := L.set i .free) hnext ?_ ?_
      · intro f hf hf'
        rw [Layout.set_role_of_ne L (by omega)]
        exact hrole f (by omega) (by omega)
      · intro freed' L' m' h' hm' hr' hw'
        refine hQ freed' L' m' h' (by rw [hm']; rfl) ?_ ?_
        · intro f
          rw [hr']
          by_cases hfi : f = i
          · subst hfi
            rw [if_neg (by omega), Layout.set_role_self, if_pos ⟨by omega, hstore⟩]
          · have hiff : (i + 1 ≤ f ∧ f < i + 1 + count) ↔ (i ≤ f ∧ f < i + (count + 1)) := by omega
            simp only [hiff, Layout.set_role_of_ne L hfi]
        · intro g hg
          refine (hw' g ?_).trans (h.withState_word hlt' .free hg)
          by_cases hgi : g = i
          · rw [hgi, Layout.set_role_self]
            simp
          · rw [Layout.set_role_of_ne L hgi]
            exact hg

/-- The third pass so far: the whole frames of the usable regions outside the bitmap have
become free, and only the bitmap has been written. -/
structure Swept (regions : List MemoryRegion) (storageStart storageEnd : ℕ) (L : Layout)
    (m : Machine) (L' : Layout) (m' : Machine) : Prop where
  memory : m' = m.withMem m'.mem
  roles : ∀ f, L'.role f = L.role f ∨ L'.role f = .free ∧
    ∃ region ∈ regions, region.kind = .usable ∧ region.Covers f
  free : ∀ region ∈ regions, region.kind = .usable → ∀ f, region.Covers f →
    ¬ (storageStart ≤ f ∧ f < storageEnd) → L'.role f = .free
  words : ∀ g, L.role g ≠ .storage → m'.mem.word g = m.mem.word g

/-- The third pass frees the frames of the usable regions. -/
theorem freeRegions_sat {Q : Except FrameAllocatorInitError ℕ → Machine → Prop}
    {regions : List MemoryRegion} {freed : ℕ}
    (h : AllocInv L (m.withAllocator ⟨bitmap, next, freed, freed, dm⟩))
    (hpair : regions.Pairwise (MemoryRegion.Disjoint (· = .usable)))
    (hbound : ∀ region ∈ regions, region.kind = .usable → ∀ f, region.Covers f →
      f < bitmap.frameCount ∧
      L.role f = if storageStart ≤ f ∧ f < storageEnd then .storage else .other)
    (herr : ∀ err m', Q (.error err) m')
    (hQ : ∀ freed' L' m',
      AllocInv L' (m'.withAllocator ⟨bitmap, next, freed', freed', dm⟩) →
      Swept regions storageStart storageEnd L m L' m' → Q (.ok freed') m') :
    (freeRegions bitmap dm storageStart storageEnd regions freed).Sat m Q E := by
  induction regions generalizing L m freed with
  | nil =>
    exact hQ freed L m h ⟨rfl, fun f => .inl rfl, fun _ hr => by simp at hr, fun _ _ => rfl⟩
  | cons region regions ih =>
    obtain ⟨hhead, htail⟩ := List.pairwise_cons.mp hpair
    rw [freeRegions]
    split_ifs with hfree
    · refine ih h htail (fun r hr => hbound r (List.mem_cons_of_mem _ hr)) ?_
      intro freed' L' m' h' hs
      refine hQ freed' L' m' h' ⟨hs.memory, fun f => (hs.roles f).imp_right ?_, ?_, hs.words⟩
      · rintro ⟨hf, r, hr, hcov⟩
        exact ⟨hf, r, List.mem_cons_of_mem _ hr, hcov⟩
      · intro r hr hk
        rcases List.mem_cons.mp hr with rfl | hr
        · simp [isInitiallyFree, hk] at hfree
        · exact hs.free r hr hk
    · have hkind : region.kind = .usable := by simpa [isInitiallyFree] using hfree
      cases hrange : usableFrameRange region with
      | error e => exact herr _ _
      | ok range =>
        obtain ⟨start, stop⟩ := range
        have hcov := usableFrameRange_ok hrange
        have hin : ∀ f, start ≤ f → f < start + (stop - start) → region.Covers f :=
          fun f hf hf' => (hcov f).mp (by omega)
        simp only [Prog.sat_bind]
        refine freeFrom_sat h ?_ ?_
        · intro f hf hf'
          exact hbound region (by simp) hkind f (hin f hf hf')
        · intro freed₁ L₁ m₁ h₁ hm₁ hr₁ hw₁
          have hkeep : ∀ r ∈ regions, r.kind = .usable → ∀ f, r.Covers f →
              L₁.role f = L.role f := by
            intro r hr hk f hf
            rw [hr₁, if_neg]
            rintro ⟨⟨hf₁, hf₂⟩, _⟩
            exact hhead r hr hkind hk _ (hin f hf₁ hf₂).byte hf.byte
          refine ih h₁ htail ?_ ?_
          · intro r hr hk f hf
            obtain ⟨hlt, hrole⟩ := hbound r (List.mem_cons_of_mem _ hr) hk f hf
            exact ⟨hlt, by rw [hkeep r hr hk f hf, hrole]⟩
          · intro freed' L' m' h' hs
            refine hQ freed' L' m' h' ⟨by rw [hs.memory, hm₁]; rfl, ?_, ?_, ?_⟩
            · intro f
              rcases hs.roles f with hf | ⟨hf, r, hr, hk, hc⟩
              · rw [hr₁] at hf
                split_ifs at hf with hcond
                · exact .inr ⟨hf, region, by simp, hkind, hin f hcond.1.1 hcond.1.2⟩
                · exact .inl hf
              · exact .inr ⟨hf, r, List.mem_cons_of_mem _ hr, hk, hc⟩
            · intro r hr hk f hf hout
              rcases List.mem_cons.mp hr with rfl | hr
              · rcases hs.roles f with he | ⟨he, _⟩
                · have hrange := (hcov f).mpr hf
                  rw [he, hr₁, if_pos ⟨by omega, hout⟩]
                · exact he
              · exact hs.free r hr hk f hf hout
            · intro g hg
              refine (hs.words g ?_).trans (hw₁ g hg)
              rw [hr₁]
              split_ifs
              · simp
              · exact hg

end Free

section New

variable {E : Panic → Machine → Prop} {m : Machine} {dm : DirectMap}

/-- A bitmap of zeroes: every frame is reserved. -/
theorem AllocInv.fresh (m : Machine) (dm : DirectMap) (startFrame highest : ℕ)
    (hdirect : startAddress highest + dm.offset ≤ USIZE_END)
    (hfits : startFrame + ((highest + 3) / 4 + (FRAME_SIZE - 1)) / FRAME_SIZE ≤ highest) :
    AllocInv ⟨fun f => if startFrame ≤ f ∧
        f < startFrame + ((highest + 3) / 4 + (FRAME_SIZE - 1)) / FRAME_SIZE then .storage
        else .other, 0, startFrame⟩
      ((m.withMem (m.mem.zeroFrames startFrame
        (((highest + 3) / 4 + (FRAME_SIZE - 1)) / FRAME_SIZE))).withAllocator
          ⟨⟨startAddress startFrame + dm.offset, highest⟩,
            startFrame + ((highest + 3) / 4 + (FRAME_SIZE - 1)) / FRAME_SIZE, 0, 0, dm⟩) := by
  obtain ⟨count, hcount⟩ : ∃ count, count =
    ((highest + 3) / 4 + (FRAME_SIZE - 1)) / FRAME_SIZE := ⟨_, rfl⟩
  rw [← hcount] at hfits ⊢
  have hin : ∀ f < highest, f / 4 / FRAME_SIZE < count := by
    intro f hf
    rw [hcount]
    simp only [FRAME_SIZE]
    omega
  refine ⟨rfl, ?_, ?_, ?_, hfits, ?_, ?_, hdirect⟩
  · intro f hf
    exact if_pos ⟨Nat.le_add_right _ _, Nat.add_lt_add_left (hin f hf) _⟩
  · intro f hf
    have hbyte : (m.mem.zeroFrames startFrame count).byte
        (Bitmap.byteAddress ⟨startAddress startFrame + dm.offset, highest⟩ dm f) = 0 := by
      have haddr : Bitmap.byteAddress ⟨startAddress startFrame + dm.offset, highest⟩ dm f =
          startAddress startFrame + f / 4 := by
        simp only [Bitmap.byteAddress, DirectMap.physical]
        omega
      have hframe : (startAddress startFrame + f / 4) / FRAME_SIZE =
          startFrame + f / 4 / FRAME_SIZE := by
        simp only [startAddress, FRAME_SIZE]
        omega
      rw [haddr, PhysMem.byte, hframe, PhysMem.word_zeroFrames,
        if_pos ⟨Nat.le_add_right _ _, Nat.add_lt_add_left (hin f hf) _⟩]
      simp [lane]
    have hzero : pair (0 : Byte) (f % 4) = 0 := by simp [pair]
    show FrameState.ofBits (pair ((m.mem.zeroFrames startFrame count).byte
      (Bitmap.byteAddress ⟨startAddress startFrame + dm.offset, highest⟩ dm f)) (f % 4)) = _
    rw [hbyte, hzero]
    simp only
    split_ifs <;> rfl
  · intro f _
    simp only
    split_ifs <;> rfl
  · show 0 = _
    symm
    rw [Finset.card_eq_zero, Layout.freeSet, Finset.filter_eq_empty_iff]
    intro f _
    simp only
    split_ifs <;> simp [Role.state]
  · show 0 = _
    symm
    rw [Finset.card_eq_zero, Layout.managedSet, Finset.filter_eq_empty_iff]
    intro f _
    simp only
    split_ifs <;> simp [Role.state]

/-- The number of frames that hold the states of `n` frames. -/
def storageCount (n : ℕ) : ℕ := ((n + 3) / 4 + (FRAME_SIZE - 1)) / FRAME_SIZE

/-- The allocator over the tracked regions of a memory map. The role of a frame is
fixed by the regions that cover it, and the bitmap ends where they end. -/
structure Classified (regions : List MemoryRegion) (dm : DirectMap) (m : Machine)
    (a : FrameAllocator) (L : Layout) (m' : Machine) : Prop where
  inv : AllocInv L (m'.withAllocator a)
  direct : a.directMap = dm
  memory : m' = m.withMem m'.mem
  roles : ∀ f, L.role f = .other ∨ (L.role f = .storage ∨ L.role f = .free) ∧
    ∃ region ∈ regions, region.kind = .usable ∧ region.Covers f
  storage : ∀ f, L.role f = .storage ↔
    L.store ≤ f ∧ f < L.store + storageCount a.bitmap.frameCount
  store : ∃ region ∈ regions, region.kind = .usable ∧ ∀ f, L.role f = .storage → region.Covers f
  free : ∀ region ∈ regions, region.kind = .usable → ∀ f, region.Covers f →
    L.role f ≠ .storage → L.role f = .free
  words : ∀ g, L.role g ≠ .storage → m'.mem.word g = m.mem.word g
  counters : a.freeFrames = a.allocatableFrames
  positive : 0 < a.bitmap.frameCount
  tracks : Tracks (shouldTrack · = true) regions a.bitmap.frameCount
  last : ∃ region ∈ regions, shouldTrack region.kind = true ∧
    startAddress a.bitmap.frameCount ≤ region.start + region.length

/-- Every frame of the bitmap holds the state of a frame. -/
theorem Classified.storage_byte {regions : List MemoryRegion} {a : FrameAllocator} {L : Layout}
    {m' : Machine} (h : Classified regions dm m a L m') {f : ℕ} (hf : L.role f = .storage) :
    ∃ i < a.bitmap.frameCount, f = L.store + i / 4 / FRAME_SIZE := by
  rw [h.storage, storageCount] at hf
  refine ⟨(f - L.store) * FRAME_SIZE * 4, ?_, ?_⟩
  · simp only [FRAME_SIZE] at hf ⊢
    omega
  · simp only [FRAME_SIZE]
    omega

theorem frameAllocatorNew_sat {Q : Except FrameAllocatorInitError FrameAllocator → Machine → Prop}
    {regions : List MemoryRegion}
    (hpair : regions.Pairwise (MemoryRegion.Disjoint (· = .usable)))
    (hdirect : ∀ region ∈ regions, shouldTrack region.kind = true → ∀ x, region.Has x →
      (dm.translate x).isSome)
    (herr : ∀ err m', Q (.error err) m')
    (hQ : ∀ a L m', Classified regions dm m a L m' → Q (.ok a) m') :
    (FrameAllocator.new regions dm).Sat m Q E := by
  rw [FrameAllocator.new]
  cases hhigh : highestFrame regions none with
  | error e => exact herr _ _
  | ok high =>
    cases high with
    | none => exact herr _ _
    | some highest =>
      obtain ⟨htracked, _, hlast⟩ := highestFrame_spec hhigh
      obtain ⟨last, hlastmem, hlasttrack, f₀, hf₀, rfl⟩ :
          ∃ region ∈ regions, shouldTrack region.kind = true ∧
            ∃ f, region.Covers f ∧ highest = f + 1 := by
        rcases hlast with hl | hl
        · cases hl
        · exact hl
      have hends : startAddress (f₀ + 1) ≤ last.start + last.length := by
        have := hf₀.2
        simp only [startAddress, FRAME_SIZE] at this ⊢
        omega
      have hdirect' : startAddress (f₀ + 1) + dm.offset ≤ USIZE_END := by
        have hlastByte : last.Has (startAddress (f₀ + 1) - 1) := by
          obtain ⟨hlo, hhi⟩ := hf₀
          simp only [MemoryRegion.Has, startAddress, FRAME_SIZE] at hlo hhi ⊢
          omega
        have htrans := hdirect last hlastmem hlasttrack _ hlastByte
        rw [DirectMap.translate, checkedAdd] at htrans
        split_ifs at htrans with hlt
        · omega
        · cases htrans
      simp only
      obtain ⟨count, hcount⟩ : ∃ count, count =
        ((f₀ + 1 + 3) / 4 + (FRAME_SIZE - 1)) / FRAME_SIZE := ⟨_, rfl⟩
      have hpos : 0 < count := by
        rw [hcount]
        simp only [FRAME_SIZE]
        omega
      rw [← hcount]
      rw [Prog.sat_ite]
      refine ⟨fun _ => herr _ _, fun _ => ?_⟩
      cases hstart : bitmapStartFrame count regions with
      | error e => exact herr _ _
      | ok found =>
        cases found with
        | none => exact herr _ _
        | some startFrame =>
          obtain ⟨store, hstore, husable, hcov⟩ := bitmapStartFrame_spec hstart
          dsimp only
          cases htrans : dm.translate (startAddress startFrame) with
          | none => exact herr _ _
          | some bitmapVirtual =>
            have hvirtual : bitmapVirtual = startAddress startFrame + dm.offset := by
              rw [DirectMap.translate, checkedAdd] at htrans
              split_ifs at htrans
              exact (Option.some.inj htrans).symm
            subst hvirtual
            simp only [Prog.sat_bind, modifyMem, Prog.sat_modify]
            cases hend : checkedAdd startFrame count with
            | none => exact herr _ _
            | some endFrame =>
              have hendFrame : endFrame = startFrame + count := by
                rw [checkedAdd] at hend
                split_ifs at hend
                exact (Option.some.inj hend).symm
              subst hendFrame
              have hcovers : ∀ region ∈ regions, region.kind = .usable → ∀ f,
                  region.Covers f → f < f₀ + 1 := by
                intro region hr hk f hf
                exact (htracked region hr (by rw [hk]; rfl)).2 f hf
              have hfits : startFrame + count ≤ f₀ + 1 := by
                have := hcovers store hstore husable (startFrame + count - 1)
                  (hcov _ (by omega) (by omega))
                omega
              have hinv := AllocInv.fresh m dm startFrame (f₀ + 1)
                hdirect'
                (by rw [← hcount]; exact hfits)
              rw [← hcount] at hinv
              simp only [Prog.sat_bind]
              refine freeRegions_sat hinv hpair ?_ (fun err m' => herr err m') ?_
              · intro region hr hk f hf
                exact ⟨hcovers region hr hk f hf, rfl⟩
              · intro freed L m' h' hs
                have hstart : L.store = startFrame := by
                  have := h'.start
                  simp only [Machine.withAllocator, startAddress, FRAME_SIZE] at this
                  omega
                have hstorage : ∀ f, L.role f = .storage ↔
                    L.store ≤ f ∧ f < L.store + count := by
                  intro f
                  rw [hstart]
                  constructor
                  · intro hf
                    rcases hs.roles f with he | ⟨he, -⟩
                    · rw [hf] at he
                      dsimp only at he
                      split_ifs at he with hin
                      exact hin
                    · rw [hf] at he
                      cases he
                  · intro hin
                    have hstored := h'.stored ((f - startFrame) * FRAME_SIZE * 4) (by
                      change (f - startFrame) * FRAME_SIZE * 4 < f₀ + 1
                      simp only [FRAME_SIZE] at hcount ⊢
                      omega)
                    have hindex : L.store + (f - startFrame) * FRAME_SIZE * 4 / 4 / FRAME_SIZE = f := by
                      rw [hstart]
                      simp only [FRAME_SIZE]
                      omega
                    rwa [hindex] at hstored
                refine hQ _ L m' ⟨h', rfl, by rw [hs.memory]; rfl, ?_, ?_, ?_, ?_, ?_, rfl,
                  Nat.succ_pos _, htracked, ⟨last, hlastmem, hlasttrack, hends⟩⟩
                · intro f
                  rcases hs.roles f with hf | ⟨hf, hcov'⟩
                  · rw [hf]
                    simp only
                    split_ifs with hin
                    · exact .inr ⟨.inl rfl, store, hstore, husable, hcov f hin.1 hin.2⟩
                    · exact .inl rfl
                  · exact .inr ⟨.inr hf, hcov'⟩
                · rw [storageCount, ← hcount]
                  exact hstorage
                · refine ⟨store, hstore, husable, fun f hf => ?_⟩
                  rw [hstorage, hstart] at hf
                  exact hcov f hf.1 hf.2
                · intro region hr hk f hf hout
                  rw [Ne, hstorage, hstart] at hout
                  exact hs.free region hr hk f hf hout
                · intro g hg
                  rw [Ne, hstorage, hstart] at hg
                  have hother : ¬ (if startFrame ≤ g ∧ g < startFrame + count then Role.storage
                      else Role.other) = .storage := by
                    rw [if_neg hg]
                    simp
                  refine (hs.words g hother).trans ?_
                  rw [PhysMem.word_zeroFrames, if_neg hg]

end New

section Reclaim

variable {E : Panic → Machine → Prop} {P : ℕ → Prop} {L L' L'' : Layout} {m m' m'' : Machine}

/-- The effect of reclaiming: some reserved frames outside the bitmap become free. -/
structure Reclaimed (P : ℕ → Prop) (L : Layout) (m : Machine) (L' : Layout) (m' : Machine) :
    Prop where
  inv : AllocInv L' m'
  only : m' = { m with
    mem := m'.mem
    allocator := { m.allocator with
      nextSearch := m'.allocator.nextSearch
      allocatableFrames := m'.allocator.allocatableFrames
      freeFrames := m'.allocator.freeFrames } }
  kroot : L'.kroot = L.kroot
  words : ∀ g, L.role g ≠ .storage → m'.mem.word g = m.mem.word g
  roles : ∀ f, L'.role f = L.role f ∨
    L'.role f = .free ∧ (L.role f).state = .reserved ∧ L.role f ≠ .storage ∧ P f

namespace Reclaimed

theorem refl (h : AllocInv L m) : Reclaimed P L m L m :=
  ⟨h, rfl, rfl, fun _ _ => rfl, fun _ => .inl rfl⟩

theorem storage_iff (h : Reclaimed P L m L' m') (f : ℕ) :
    L'.role f = .storage ↔ L.role f = .storage := by
  rcases h.roles f with he | ⟨hfree, _, hs, _⟩
  · rw [he]
  · simp [hfree, hs]

theorem trans (h : Reclaimed P L m L' m') (h' : Reclaimed P L' m' L'' m'') :
    Reclaimed P L m L'' m'' := by
  refine ⟨h'.inv, ?_, h'.kroot.trans h.kroot, ?_, ?_⟩
  · rw [h'.only, h.only]
  · intro g hg
    rw [h'.words g (fun hs => hg ((h.storage_iff g).mp hs)), h.words g hg]
  · intro f
    rcases h'.roles f with he | ⟨hfree, hres, hs, hP⟩
    · rw [he]
      exact h.roles f
    · rcases h.roles f with he' | ⟨hfree', hf⟩
      · rw [he'] at hres hs
        exact .inr ⟨hfree, hres, hs, hP⟩
      · exact .inr ⟨hfree, hf⟩

theorem mono {P' : ℕ → Prop} (h : Reclaimed P L m L' m') (hP : ∀ f, P f → P' f) :
    Reclaimed P' L m L' m' :=
  ⟨h.inv, h.only, h.kroot, h.words,
    fun f => (h.roles f).imp_right fun ⟨h₁, h₂, h₃, h₄⟩ => ⟨h₁, h₂, h₃, hP f h₄⟩⟩

theorem frameCount (h : Reclaimed P L m L' m') : m'.frameCount = m.frameCount := by
  rw [h.only]
  rfl

/-- One frame is reclaimed. -/
theorem single (h : AllocInv L m) {f : ℕ} (hf : f < m.frameCount)
    (hs : (L.role f).state = .reserved) (hstore : L.role f ≠ .storage) (hP : P f) :
    Reclaimed P L m (L.set f .free) { m with
      mem := m.withState f .free
      allocator := { m.allocator with
        allocatableFrames := m.allocator.allocatableFrames + 1
        freeFrames := m.allocator.freeFrames + 1
        nextSearch := min m.allocator.nextSearch f } } := by
  refine ⟨h.writeState hf hstore .free ?_ ?_ ?_, rfl, rfl, ?_, ?_⟩
  · exact (min_le_left _ _).trans h.search
  · rw [AllocInv.card_give hf (by simp [hs]), ← h.count]
  · rw [AllocInv.card_manage hf hs, ← h.total]
  · intro g hg
    exact h.withState_word hf _ hg
  · intro g
    by_cases hg : g = f
    · rw [hg, Layout.set_role_self]
      exact .inr ⟨rfl, hs, hstore, hP⟩
    · exact .inl (Layout.set_role_of_ne L hg _)

end Reclaimed

theorem reclaimFrom_sat {Q : Unit → Machine → Prop} {i count : ℕ} (h : AllocInv L m)
    (hpanic : ∀ f, i ≤ f → f < i + count → m.frameCount ≤ f → ∀ p m', E p m')
    (hstore : ∀ f, i ≤ f → f < i + count → L.role f ≠ .storage)
    (hP : ∀ f, i ≤ f → f < i + count → P f)
    (hQ : ∀ L' m', Reclaimed P L m L' m' → Q () m') :
    (reclaimFrom i count).Sat m Q E := by
  induction count generalizing L m i with
  | zero => exact hQ L m (Reclaimed.refl h)
  | succ count ih =>
    have hstore' : ∀ f, i + 1 ≤ f → f < i + 1 + count → L.role f ≠ .storage :=
      fun f hf hf' => hstore f (by omega) (by omega)
    have hP' : ∀ f, i + 1 ≤ f → f < i + 1 + count → P f :=
      fun f hf hf' => hP f (by omega) (by omega)
    simp only [reclaimFrom, Prog.sat_bind, Prog.sat_gets]
    by_cases hlt : i < m.frameCount
    · refine state_sat h hlt ?_
      rw [Prog.sat_ite]
      refine ⟨fun _ => ?_, fun hs => ?_⟩
      · exact ih h (fun f hf hf' => hpanic f (by omega) (by omega)) hstore' hP' hQ
      · rw [not_not] at hs
        simp only [Prog.sat_bind, setState_sat hlt, addUsize, h.checkedAdd_one h.total_le,
          h.checkedAdd_one h.free_le, Prog.sat_expect_some, modifyAllocator, Prog.sat_modify]
        have hone := Reclaimed.single h hlt hs (hstore i le_rfl (by omega))
          (hP i le_rfl (by omega))
        refine ih hone.inv ?_ ?_ hP' ?_
        · intro f hf hf' hc
          rw [hone.frameCount] at hc
          exact hpanic f (by omega) (by omega) hc
        · intro f hf hf' hfs
          exact hstore' f hf hf' ((hone.storage_iff f).mp hfs)
        · intro L' m' hr
          exact hQ L' m' (hone.trans hr)
    · have hno : ¬ i < m.allocator.bitmap.frameCount := hlt
      simp only [Bitmap.state, Prog.sat_bind, Prog.sat_assert, hno, decide_false,
        Bool.false_eq_true, if_false]
      exact hpanic i le_rfl (by omega) (by omega) _ _

/-- Reclaiming frees frames of the given regions and no others, and it stops only at a
region that the bitmap does not track. -/
theorem reclaimAll_sat {Q : Unit → Machine → Prop} {kind : MemoryRegionKind}
    {regions : List MemoryRegion} (h : AllocInv L m)
    (hpanic : ¬ Tracks (· = kind) regions m.frameCount → ∀ p m', E p m')
    (hstore : ∀ region ∈ regions, region.kind = kind → ∀ f, region.Covers f →
      L.role f ≠ .storage)
    (hQ : ∀ L' m', Reclaimed (fun f => ∃ region ∈ regions, region.kind = kind ∧ region.Covers f)
      L m L' m' → Q () m') : (reclaimAll kind regions).Sat m Q E := by
  induction regions generalizing L m with
  | nil => exact hQ L m (Reclaimed.refl h)
  | cons region regions ih =>
    have hrest : ∀ f, (∃ region ∈ regions, region.kind = kind ∧ region.Covers f) →
        ∃ r ∈ region :: regions, r.kind = kind ∧ r.Covers f :=
      fun f ⟨r, hr, hf⟩ => ⟨r, List.mem_cons_of_mem _ hr, hf⟩
    have hpanic' : ¬ Tracks (· = kind) regions m.frameCount → ∀ p m', E p m' :=
      fun hn => hpanic fun ht => hn fun r hr => ht r (List.mem_cons_of_mem _ hr)
    rw [reclaimAll, Prog.sat_ite]
    refine ⟨fun hkind => ?_, fun _ => ?_⟩
    · cases hrange : usableFrameRange region with
      | error e =>
        refine hpanic (fun ht => ?_) _ _
        obtain ⟨⟨range, hr⟩, _⟩ := ht region (by simp) hkind
        rw [hrange] at hr
        cases hr
      | ok range =>
        obtain ⟨start, stop⟩ := range
        have hcov := usableFrameRange_ok hrange
        have hin : ∀ f, start ≤ f → f < start + (stop - start) → region.Covers f :=
          fun f hf hf' => (hcov f).mp (by omega)
        simp only [Prog.sat_bind]
        refine reclaimFrom_sat (P := fun f => ∃ r ∈ region :: regions, r.kind = kind ∧ r.Covers f)
          h ?_ (fun f hf hf' => hstore region (by simp) hkind f (hin f hf hf'))
          (fun f hf hf' => ⟨region, List.mem_cons_self, hkind, hin f hf hf'⟩) ?_
        · intro f hf hf' hc
          refine hpanic fun ht => ?_
          have := (ht region (by simp) hkind).2 f (hin f hf hf')
          omega
        intro L₁ m₁ h₁
        refine ih h₁.inv ?_ ?_ ?_
        · rw [h₁.frameCount]
          exact hpanic'
        · intro r' hr' hk f hf hs
          exact hstore r' (List.mem_cons_of_mem _ hr') hk f hf ((h₁.storage_iff f).mp hs)
        · intro L' m' hr
          exact hQ L' m' (h₁.trans (hr.mono hrest))
    · refine ih h hpanic' (fun r' hr' => hstore r' (List.mem_cons_of_mem _ hr')) ?_
      intro L' m' hr
      exact hQ L' m' (hr.mono hrest)

end Reclaim

end Dusk
