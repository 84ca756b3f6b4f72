import Dusk.Proofs.KernelSpace
import Dusk.Model.Boot

/-! The user pages of the first task: the window on the boot archive, the stack and
the segments of the program. -/

namespace Dusk

open Lib Radix

variable {L L' L'' L₁ : Layout} {m m' m'' m₁ : Machine} {r start phys n : ℕ}
  {space : AddressSpace} {E : Panic → Machine → Prop}

/-- A page that the boot makes for the user is the only one for its frame. -/
def BootPage (L : Layout) (m : Machine) (e : Word) (v : ℕ) : Prop :=
  v < USER_SPACE_END ∧ v % FRAME_SIZE = 0 ∧
    (L.role (entryFrame m.paging e) = .data (.boot v) ∨
      L.role (entryFrame m.paging e) = .window v)

/-- The user pages are those of the root `r`. -/
def BootUser (r : ℕ) (L : Layout) (m : Machine) : Prop :=
  ∀ r' q e i, LeafAt L m r' q e → q.getLast? = some i → i < 256 →
    r' = r ∧ ∃ v, q = pagePath m.paging.mode v ∧ BootPage L m e v

/-- The root `r` has got more user pages. -/
structure Furnished (r : ℕ) (L : Layout) (m : Machine) (L' : Layout) (m' : Machine) : Prop where
  inv : MemInv noPages L' m'
  regs : Regs m m'
  kroot : L'.kroot = L.kroot
  roots : ∀ r', L.role r' = .table r' [] → L'.role r' = .table r' []
  kstack : ∀ f v, L.role f = .data (.stack v) → L'.role f = .data (.stack v)
  kernel : ∀ q e, LeafAt L' m' L.kroot q e ↔ LeafAt L m L.kroot q e
  user : BootUser r L' m'

namespace Furnished

theorem refl (h : MemInv noPages L m) (hu : BootUser r L m) : Furnished r L m L m :=
  ⟨h, Regs.refl m, rfl, fun _ h => h, fun _ _ h => h, fun _ _ => Iff.rfl, hu⟩

theorem trans (h : Furnished r L m L' m') (h' : Furnished r L' m' L'' m'') :
    Furnished r L m L'' m'' := by
  refine ⟨h'.inv, h.regs.trans h'.regs, h'.kroot.trans h.kroot,
    fun r' hr => h'.roots r' (h.roots r' hr), fun f v hf => h'.kstack f v (h.kstack f v hf), ?_,
    h'.user⟩
  intro q e
  have := h'.kernel q e
  rw [h.kroot] at this
  exact this.trans (h.kernel q e)

theorem spaceOf (h : Furnished r L m L' m') (hs : SpaceOf L m space r) :
    SpaceOf L' m' space r :=
  ⟨by rw [hs.root, h.regs.table], h.roots r hs.typed, by rw [h.kroot]; exact hs.kind⟩

end Furnished

/-- New pages do not disturb the old ones. -/
theorem BootUser.extend (h : BootUser r L m) (hp : m'.paging = m.paging)
    (hnew : ∀ r' q e, LeafAt L' m' r' q e → LeafAt L m r' q e ∨
      r' = r ∧ ∃ v, q = pagePath m.paging.mode v ∧ BootPage L' m' e v)
    (hroles : ∀ v e, LeafAt L m r (pagePath m.paging.mode v) e → BootPage L m e v →
      L'.role (entryFrame m.paging e) = L.role (entryFrame m.paging e)) : BootUser r L' m' := by
  intro r' q e i hl hq hi
  rcases hnew r' q e hl with hl | ⟨rfl, v, rfl, hpage⟩
  · obtain ⟨rfl, v, rfl, hpage⟩ := h r' q e i hl hq hi
    refine ⟨rfl, v, by rw [hp], hpage.1, hpage.2.1, ?_⟩
    rw [hp, hroles v e hl hpage]
    exact hpage.2.2
  · exact ⟨rfl, v, by rw [hp], hpage⟩

section Window

/-- Frames become pages of the window. -/
def Layout.window (L : Layout) (first n start : ℕ) : Layout :=
  { L with
    role := fun f => if first ≤ f ∧ f < first + n then .window (start + (f - first) * FRAME_SIZE)
      else L.role f }

theorem window_role_of_not (L : Layout) {first n start f : ℕ} (hf : ¬ (first ≤ f ∧ f < first + n)) :
    (L.window first n start).role f = L.role f := if_neg hf

theorem window_role (L : Layout) {first n start i : ℕ} (hi : i < n) :
    (L.window first n start).role (first + i) = .window (start + i * FRAME_SIZE) := by
  simp only [Layout.window]
  rw [if_pos ⟨Nat.le_add_right _ _, Nat.add_lt_add_left hi _⟩, Nat.add_sub_cancel_left]

variable (hother : ∀ i < n, L.role (phys / FRAME_SIZE + i) = .other)

include hother

/-- Frames of the archive are mapped for the user. -/
theorem RangeMapped.furnished (h : RangeMapped L m r start phys n L₁ m₁) (hr : r ≠ L.kroot)
    (hu : BootUser r L m) : Furnished r L m (L₁.window (phys / FRAME_SIZE) n start) m₁ := by
  have hp := h.edit.regs.paging
  have hother₁ : ∀ f, phys / FRAME_SIZE ≤ f ∧ f < phys / FRAME_SIZE + n → L₁.role f = .other := by
    intro f hf
    have := hother (f - phys / FRAME_SIZE) (by omega)
    rw [Nat.add_sub_cancel' hf.1] at this
    rw [h.edit.role_eq (by rw [this]; exact fun h => absurd rfl (lent_state h)), this]
  have hkeep : ∀ f, L₁.role f ≠ .other →
      (L₁.window (phys / FRAME_SIZE) n start).role f = L₁.role f := by
    intro f hf
    exact window_role_of_not L₁ fun hin => hf (hother₁ f hin)
  have hT : (L₁.window (phys / FRAME_SIZE) n start).typing = L₁.typing := by
    funext f
    by_cases hf : L₁.role f = .other
    · simp only [Layout.typing, Layout.window, hf]
      split_ifs <;> rfl
    · rw [Layout.typing, hkeep f hf, Layout.typing]
  have halloc : AllocInv (L₁.window (phys / FRAME_SIZE) n start) m₁ := by
    refine h.inv.alloc.restate rfl (fun f hf => by rw [hkeep f (by simp [hf]), hf]) ?_
    intro f
    by_cases hf : L₁.role f = .other
    · simp only [Layout.window, hf]
      split_ifs <;> rfl
    · rw [hkeep f hf]
  have hleaf := leafAt_congr (m := m₁) hT rfl rfl (fun _ _ _ _ => rfl)
  refine ⟨h.inv.retype hT rfl halloc (Regs.refl m₁) rfl (fun _ _ _ _ => rfl), h.edit.regs,
    h.edit.kroot, ?_, ?_, ?_, ?_⟩
  · intro r' hr'
    have he := h.edit.role_eq (f := r') (by rw [hr']; exact not_lent_root)
    rw [hkeep r' (by rw [he, hr']; simp), he, hr']
  · intro f v hf
    have he := h.edit.role_eq (f := f) (by rw [hf]; exact not_lent_data)
    rw [hkeep f (by rw [he, hf]; simp), he, hf]
  · intro q e
    rw [hleaf]
    refine ⟨fun hl => ?_, fun hl => h.kept _ q e hl⟩
    rcases h.new _ q e hl with hl | ⟨hk, _⟩
    · exact hl
    · exact absurd hk.symm hr
  · refine hu.extend hp ?_ ?_
    · intro r' q e hl
      rw [hleaf] at hl
      rcases h.new r' q e hl with hold | ⟨rfl, i, hi, rfl⟩
      · exact .inl hold
      · obtain ⟨_, hal, hlt⟩ := h.sites i hi
        obtain ⟨e', hl', he'⟩ := h.pages i hi
        have hee : e = e' := Leaf.unique h.inv.tree hl hl'
        refine .inr ⟨rfl, _, rfl, hlt hr, hal, .inr ?_⟩
        rw [hp, hee, he', window_role L₁ hi]
    · intro v e _ hpage
      have hheld : ¬ Role.Lent r (L.role (entryFrame m.paging e)) ∧
          L.role (entryFrame m.paging e) ≠ .other := by
        rcases hpage.2.2 with hrole | hrole <;> rw [hrole]
        · exact ⟨not_lent_data, by simp⟩
        · exact ⟨fun h => absurd rfl (lent_state h), by simp⟩
      have he := h.edit.role_eq hheld.1
      rw [hkeep _ (by rw [he]; exact hheld.2), he]

end Window

theorem owner_boot_injective : Function.Injective Owner.boot := fun _ _ h => Owner.boot.inj h

/-- A run of fresh pages for the user. -/
theorem StackMade.furnished {word : ℕ → Word} {frames : ℕ → ℕ}
    (h : StackMade False Owner.boot space L m r start n word n frames L' m')
    (hr : r ≠ L.kroot) (hsites : ∀ i < n, pageAt start i < USER_SPACE_END) (hu : BootUser r L m) : Furnished r L m L' m' := by
  have hp := h.added.edit.regs.paging
  refine ⟨h.added.inv, h.added.edit.regs, h.added.edit.kroot, ?_, ?_, ?_, ?_⟩
  · intro r' hr'
    rw [h.added.edit.role_eq (by rw [hr']; exact not_runRole_root), hr']
  · intro f v hf
    rw [h.added.edit.role_eq, hf]
    rw [hf]
    rintro (hl | ⟨i, _, hl⟩)
    · exact not_lent_data hl
    · cases hl
  · intro q e
    exact h.outside _ q e fun hk => hr hk.1.symm
  · refine hu.extend hp ?_ ?_
    · intro r' q e hl
      by_cases hin : r' = r ∧ ∃ i < n, q = pagePath m.paging.mode (pageAt start i)
      · obtain ⟨rfl, i, hi, rfl⟩ := hin
        obtain ⟨e', hl', hrole⟩ := h.pages hi
        rw [hp] at hl'
        have hee : e = e' := Leaf.unique h.added.inv.tree hl hl'
        exact .inr ⟨rfl, _, rfl, hsites i hi, (h.added.takes i hi).aligned,
          .inl (by rw [hee]; exact hrole)⟩
      · exact .inl ((h.outside r' q e hin).mp hl)
    · intro v e hl hpage
      refine h.added.edit.role_eq ?_
      rintro (hlent | ⟨i, hi, hrole⟩)
      · rcases hpage.2.2 with hb | hb <;> rw [hb] at hlent
        · exact not_lent_data hlent
        · exact absurd rfl (lent_state hlent)
      · rcases hpage.2.2 with hb | hb
        · rw [hb] at hrole
          cases hrole
          exact h.added.fresh i hi e hl
        · rw [hb] at hrole
          cases hrole

/-- `UserStack::allocate` in a new address space. -/
theorem userStack_furnished {Q : Except StackCreateError StackMapping → Machine → Prop}
    (hs : SpaceOf L m space r) (h : MemInv noPages L m) (hr : r ≠ L.kroot) (hu : BootUser r L m)
    (herr : ∀ err m', Q (.error err) m')
    (hQ : ∀ stack L' m', Furnished r L m L' m' → Q (.ok stack) m') :
    (UserStack.allocate space).Sat m Q E := by
  have hlt : ∀ i < USER_STACK_SIZE / FRAME_SIZE,
      pageAt (USER_STACK_TOP - USER_STACK_SIZE) i < USER_SPACE_END := by
    intro i hi
    simp only [pageAt, USER_STACK_PAGES, USER_STACK_TOP, USER_STACK_SIZE, FRAME_SIZE,
      USER_SPACE_END] at *
    omega
  have hrun : Run False L m space r 0 (USER_STACK_TOP - USER_STACK_SIZE)
      (USER_STACK_SIZE / FRAME_SIZE) :=
    ⟨⟨h, hs.root, hs.typed, fun _ => hs.kind, False.elim, .inl (.inr (.inl hr))⟩,
      fun i hi => ⟨fun _ hk => absurd hk hr, .inl (.inr (.inl hr))⟩⟩
  have hva : USER_STACK_TOP - USER_STACK_SIZE - FRAME_SIZE < USER_SPACE_END := by decide
  rw [UserStack.allocate]
  generalize hprog : StackMapping.allocate space _ _ _ = prog
  refine StackMapping.allocate_sat owner_boot_injective (by decide) hrun (fun _ => by simp [hr])
    (fun _ => .inr (rootIndex_user _ hva)) ?_ (fun err m' _ _ => herr err m') hprog
  intro frames L' m' hmade _ _ _ _ _
  exact hQ _ L' m' (hmade.furnished hr hlt hu)

/-- One page of a segment: a frame is taken, filled and mapped. -/
theorem Taken.furnished {f page : ℕ} (h : Taken noPages L m f m₁) {mem : PhysMem}
    (hmem : ∀ g, g ≠ f → mem.word g = m₁.mem.word g) (hr : r ≠ L.kroot) (hu : BootUser r L m)
    (hmap : Mapped (L.set f (.data (.boot page))) (m₁.withMem mem) r page (startAddress f) L' m') :
    Furnished r L m L' m' := by
  have hrole : ∀ {g}, ¬ Role.Lent r ((L.set f (.data (.boot page))).role g) →
      L'.role g = (L.set f (.data (.boot page))).role g := fun hg => hmap.edit.role_eq hg
  have hother : ∀ {g}, L.role g ≠ .free → ¬ Role.Lent r (L.role g) → L'.role g = L.role g := by
    intro g hfree hg
    have hgf : g ≠ f := by
      rintro rfl
      exact hfree h.free
    have hset := Layout.set_role_of_ne L hgf (.data (.boot page))
    rw [hrole (by rwa [hset]), hset]
  have hregs : Regs m (m₁.withMem mem) := h.only.regs.trans (withMem_regs _ _)
  have hp : m'.paging = m.paging := hmap.edit.regs.paging.trans hregs.paging
  have hleaf : ∀ r' q e, LeafAt (L.set f (.data (.boot page))) (m₁.withMem mem) r' q e ↔
      LeafAt L m r' q e := by
    intro r' q e
    rw [← h.leaf_owned (.boot page) r' q e]
    refine leafAt_congr (by rfl) (by rfl) (by rfl) ?_ r' q e
    intro g r'' p hg
    refine hmem g ?_
    rintro rfl
    rw [Layout.set_role_self] at hg
    cases hg
  obtain ⟨e₀, hl₀, he₀⟩ := hmap.page
  rw [startAddress_div] at he₀
  refine ⟨hmap.inv, hregs.trans hmap.edit.regs, hmap.edit.kroot, ?_, ?_, ?_, ?_⟩
  · intro r' hr'
    rw [hother (by rw [hr']; simp) (by rw [hr']; exact not_lent_root), hr']
  · intro g v hg
    rw [hother (by rw [hg]; simp) (by rw [hg]; exact not_lent_data), hg]
  · intro q e
    rw [← hleaf]
    refine ⟨fun hl => ?_, fun hl => hmap.kept _ q e hl⟩
    rcases hmap.new _ q e hl with hl | ⟨hk, _⟩
    · exact hl
    · exact absurd hk.symm hr
  · refine hu.extend hp ?_ ?_
    · intro r' q e hl
      rcases hmap.new r' q e hl with hold | ⟨rfl, rfl⟩
      · exact .inl ((hleaf r' q e).mp hold)
      · have hee : e = e₀ := Leaf.unique hmap.inv.tree hl hl₀
        have hpaging : (m₁.withMem mem).paging = m.paging := hregs.paging
        refine .inr ⟨rfl, page, by rw [hpaging], hmap.user hr, hmap.aligned, .inl ?_⟩
        rw [hmap.edit.regs.paging, hee, he₀, hrole, Layout.set_role_self]
        rw [Layout.set_role_self]
        exact not_lent_data
    · intro v e _ hpage
      rcases hpage.2.2 with hb | hb
      · exact hother (by rw [hb]; simp) (by rw [hb]; exact not_lent_data)
      · exact hother (by rw [hb]; simp) (by rw [hb]; exact fun h => absurd rfl (lent_state h))

section Program

variable (hE : ∀ p m', E p m') (hr : r ≠ L.kroot)

include hE hr

theorem loadPages_furnished {Q : Except Unit Unit → Machine → Prop} {segment : Segment}
    {fileEnd page count : ℕ} (hs : SpaceOf L m space r) (h : MemInv noPages L m)
    (hu : BootUser r L m) (herr : ∀ err m', Q (.error err) m')
    (hQ : ∀ L' m', Furnished r L m L' m' → Q (.ok ()) m') :
    (loadPages space segment fileEnd page count).Sat m Q E := by
  induction count generalizing L m page with
  | zero => exact hQ L m (Furnished.refl h hu)
  | succ count ih =>
    rw [loadPages, Prog.sat_bind]
    refine h.allocNozero_sat (fun _ => herr _ _) ?_
    intro f m₁ htaken
    simp only [Prog.sat_bind, Prog.sat_get]
    cases htrans : m₁.allocator.directMap.translate (startAddress f) with
    | none =>
      simp only [Prog.sat_bind]
      exact Prog.sat_any _ (fun _ _ => herr _ _) hE
    | some v =>
      simp only [Prog.sat_bind, modifyMem, Prog.sat_modify]
      generalize hmem : PhysMem.overlay (m₁.mem.zeroFrame f) f _ _ _ = mem
      have hwords : ∀ g, g ≠ f → mem.word g = m₁.mem.word g := by
        intro g hg
        rw [← hmem, PhysMem.word_overlay_of_ne _ hg, PhysMem.word_zeroFrame, if_neg hg]
      have hset : ∀ g, (L.set f (.data (.boot page))).role g = .storage ∨
          (∃ r p, (L.set f (.data (.boot page))).role g = .table r p) → g ≠ f := by
        rintro g hg rfl
        rw [Layout.set_role_self] at hg
        rcases hg with hg | ⟨_, _, hg⟩ <;> cases hg
      have hinv : MemInv noPages (L.set f (.data (.boot page))) (m₁.withMem mem) :=
        (htaken.owned (.boot page)).writeData mem fun g hg => hwords g (hset g hg.symm)
      have hs₁ : SpaceOf (L.set f (.data (.boot page))) (m₁.withMem mem) space r := by
        refine hs.congr rfl (htaken.only.regs.trans (withMem_regs _ _)) ?_
        refine Layout.set_role_of_ne L ?_ _
        rintro rfl
        have := htaken.free
        rw [hs.typed] at this
        cases this
      refine AddressSpace.map_mapped (m := m₁.withMem mem) hs₁ hinv (.inr (.inl hr))
        (fun hk => absurd hk hr) (by simp [hr]) ?_ ?_
      · intro err m'
        simp only [Prog.sat_bind]
        exact Prog.sat_any _ (fun _ _ => herr _ _) hE
      · intro L₂ m₂ hmap
        have hfur := htaken.furnished hwords hr hu hmap
        refine ih (by rwa [hfur.kroot]) (hfur.spaceOf hs) hfur.inv hfur.user ?_
        intro L' m' hrest
        exact hQ L' m' (hfur.trans hrest)

theorem loadSegments_furnished {Q : Except Unit Bool → Machine → Prop} {program : Elf}
    {i count : ℕ} {executableEntry : Bool} (hs : SpaceOf L m space r) (h : MemInv noPages L m)
    (hu : BootUser r L m) (herr : ∀ err m', Q (.error err) m')
    (hQ : ∀ b L' m', Furnished r L m L' m' → Q (.ok b) m') :
    (loadSegments space program i count executableEntry).Sat m Q E := by
  induction count generalizing L m i executableEntry with
  | zero => exact hQ _ L m (Furnished.refl h hu)
  | succ count ih =>
    rw [loadSegments]
    simp only [Prog.sat_bind, Prog.sat_get, Prog.sat_ite]
    refine ⟨fun _ => ih hr hs h hu hQ, fun _ => ?_⟩
    cases program.segment m.directByte i with
    | none => exact herr _ _
    | some segment =>
      dsimp only
      cases checkedAdd segment.address segment.memorySize with
      | none => exact herr _ _
      | some stop =>
        simp only [Prog.sat_ite, Prog.sat_bind, addUsize]
        refine ⟨fun _ => herr _ _, fun _ => ⟨fun _ => ih hr hs h hu hQ, fun _ => ?_⟩⟩
        cases checkedAdd segment.address segment.data.length with
        | none => exact hE _ _
        | some fileEnd =>
          rw [Prog.sat_expect_some]
          refine loadPages_furnished hE hr hs h hu (fun _ _ => herr _ _) ?_
          intro L₁ m₁ hfur
          refine ih (by rwa [hfur.kroot]) (hfur.spaceOf hs) hfur.inv hfur.user ?_
          intro b L' m' hrest
          exact hQ b L' m' (hfur.trans hrest)

theorem loadElf_furnished {Q : Except Unit ℕ → Machine → Prop} {bytes : Slice}
    (hs : SpaceOf L m space r) (h : MemInv noPages L m) (hu : BootUser r L m)
    (herr : ∀ err m', Q (.error err) m')
    (hQ : ∀ entry L' m', Furnished r L m L' m' → Q (.ok entry) m') :
    (loadElf bytes space).Sat m Q E := by
  rw [loadElf]
  simp only [Prog.sat_bind, Prog.sat_get]
  cases Elf.parse m.directByte bytes with
  | none => exact herr _ _
  | some program =>
    simp only [Prog.sat_bind]
    refine loadSegments_furnished hE hr hs h hu (fun _ _ => herr _ _) ?_
    intro b L' m' hfur
    cases b with
    | false => exact herr _ _
    | true => exact hQ _ L' m' hfur

end Program

end Dusk
