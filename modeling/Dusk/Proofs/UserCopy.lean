import Dusk.Proofs.Switches
import Dusk.Model.Syscall

/-! `memory/user.rs`: a range that has been validated is accessed as validated, and a
copy to user memory changes user pages only. -/

namespace Dusk

open Lib Radix

section Machine

variable {X : Exempt} {L L' : Layout} {m m' : Machine} {r a : ℕ} {w : Bool}
  {E : Panic → Machine → Prop}

/-- The page of an address is mapped for user mode, writable if asked for. -/
def PageOk (L : Layout) (m : Machine) (r a : ℕ) (w : Bool) : Prop :=
  ∃ e, LeafAt L m r (pagePath m.paging.mode a) e ∧
    (PageTableEntry.permissions e).userAccessible = true ∧
    (w = true → (PageTableEntry.permissions e).writable = true)

theorem PageOk.congr (h : PageOk L m r a w) (hp : m'.paging = m.paging)
    (hl : ∀ e, LeafAt L m r (pagePath m.paging.mode a) e →
      LeafAt L' m' r (pagePath m.paging.mode a) e) : PageOk L' m' r a w := by
  obtain ⟨e, he, hu, hw⟩ := h
  exact ⟨e, by rw [hp]; exact hl e he, hu, hw⟩

theorem mapping_any (h : MemInv X L m) (hr : L.role r = .table r [])
    (ha : a < USER_SPACE_END) (w : Bool) :
    ((m.table r).mapping m.mem a).any (fun p => p.userAccessible && (!w || p.writable)) = true ↔
      PageOk L m r a w := by
  have ho : r = L.kroot ∨ rootIndex m.paging.mode a < 256 := .inr (rootIndex_user _ ha)
  have hleaf := h.leaf_iff hr ho
  rw [mapping_eq h.alloc h.tree h.closed hr (user_canonical _ ha) ho]
  cases hl : m.leaf r a with
  | none =>
    refine iff_of_false (by simp) ?_
    rintro ⟨e, he, _⟩
    rw [← hleaf, hl] at he
    cases he
  | some e =>
    have he := (hleaf e).mp hl
    constructor
    · intro hany
      refine ⟨e, he, ?_⟩
      cases w <;> simpa using hany
    · rintro ⟨e', he', hu, hw⟩
      rw [← hleaf, hl] at he'
      cases he'
      cases w with
      | false => simp [hu]
      | true => simpa [hu] using hw

/-- Where an address of an accessible page is. -/
theorem PageOk.toPhysical (hp : PageOk L m r a w) (h : MemInv X L m) (hr : L.role r = .table r [])
    (ha : a < USER_SPACE_END) :
    ∃ e, LeafAt L m r (pagePath m.paging.mode a) e ∧ (m.table r).toPhysical m.mem a =
      some (startAddress (entryFrame m.paging e) + pageOffset a) := by
  obtain ⟨e, hl, _⟩ := hp
  have ho : r = L.kroot ∨ rootIndex m.paging.mode a < 256 := .inr (rootIndex_user _ ha)
  refine ⟨e, hl, ?_⟩
  rw [h.toPhysical_eq hr (user_canonical _ ha) ho, (h.leaf_iff hr ho e).mpr hl]
  rfl

theorem loadBytes_some (h : MemInv X L m) (hr : L.role m.cr3 = .table m.cr3 []) {n : ℕ}
    (hpages : ∀ i < n, a + i < USER_SPACE_END ∧ PageOk L m m.cr3 (a + i) w) :
    ∃ bytes, m.loadBytes a n = some bytes ∧ bytes.length = n := by
  induction n generalizing a with
  | zero => exact ⟨[], rfl, rfl⟩
  | succ n ih =>
    obtain ⟨ha, hok⟩ := hpages 0 (by omega)
    obtain ⟨e, _, hphys⟩ := hok.toPhysical h hr ha
    obtain ⟨bytes, hload, hlen⟩ := ih (a := a + 1) (by
      intro i hi
      have := hpages (i + 1) (by omega)
      rwa [Nat.add_comm i 1, ← Nat.add_assoc] at this)
    rw [Nat.add_zero] at hphys
    refine ⟨m.mem.byte (startAddress (entryFrame m.paging e) + pageOffset a) :: bytes, ?_,
      by simp [hlen]⟩
    have hbyte : m.loadByte a =
        some (m.mem.byte (startAddress (entryFrame m.paging e) + pageOffset a)) := by
      rw [Machine.loadByte, show m.activeTable = m.table m.cr3 from rfl, hphys]
      rfl
    simp [Machine.loadBytes, hbyte, hload]

/-- The result of a copy to user memory. -/
structure Stored (L : Layout) (m : Machine) (a : ℕ) (bytes : List Byte) (m' : Machine) : Prop where
  only : m' = m.withMem m'.mem
  inv : MemInv noPages L m'
  words : ∀ f, ¬ (L.role f).Held → m'.mem.word f = m.mem.word f
  others : ∀ p, (∀ i < bytes.length, m.activeTable.toPhysical m.mem (a + i) ≠ some p) →
    m'.mem.byte p = m.mem.byte p
  stored : (∀ i j p, i < bytes.length → j < bytes.length →
      m.activeTable.toPhysical m.mem (a + i) = some p →
      m.activeTable.toPhysical m.mem (a + j) = some p → i = j) →
    ∀ i (hi : i < bytes.length) p, m.activeTable.toPhysical m.mem (a + i) = some p →
      m'.mem.byte p = bytes.get ⟨i, hi⟩

theorem Role.Held.not_table {ρ : Role} (h : ρ.Held) : (∀ r p, ρ ≠ .table r p) ∧ ρ ≠ .storage := by
  rcases h with ⟨_, _, rfl⟩ | ⟨_, rfl⟩ | ⟨_, rfl⟩ <;> simp

theorem table_not_held {f : ℕ} {p : List ℕ} (hf : L.role f = .table r p) :
    ¬ (L.role f).Held := fun h => h.not_table.1 r p hf

/-- A byte written to a frame that holds no table. -/
theorem MemInv.writeByte (h : MemInv X L m) {p : ℕ} (hp : (L.role (p / FRAME_SIZE)).Held)
    (b : Byte) : MemInv X L (m.withMem (m.mem.setByte p b)) := by
  refine h.writeData _ ?_
  intro f hf
  apply PhysMem.frame_setByte
  rintro rfl
  obtain ⟨ht, hs⟩ := hp.not_table
  rcases hf with ⟨r, q, hf⟩ | hf
  · exact ht r q hf
  · exact hs hf

theorem frame_of_phys (f a : ℕ) : (startAddress f + pageOffset a) / FRAME_SIZE = f := by
  rw [pageOffset_eq]
  simp only [startAddress, FRAME_SIZE]
  omega

/-- Leaves survive a write outside the tables. -/
theorem leafAt_words (hp : m'.paging = m.paging)
    (hwords : ∀ f, ¬ (L.role f).Held → m'.mem.word f = m.mem.word f) (r : ℕ) (q : List ℕ)
    (e : Word) : LeafAt L m' r q e ↔ LeafAt L m r q e :=
  leafAt_congr rfl rfl hp (fun f _ _ hf => hwords f (table_not_held hf)) r q e

theorem storeBytes_sat {Q : Unit → Machine → Prop} (h : MemInv noPages L m)
    (hr : L.role m.cr3 = .table m.cr3 []) (hk : m.cr3 ≠ L.kroot) {bytes : List Byte}
    (hpages : ∀ i < bytes.length, a + i < USER_SPACE_END ∧ PageOk L m m.cr3 (a + i) true)
    (hheld : ∀ b e, b < USER_SPACE_END → LeafAt L m m.cr3 (pagePath m.paging.mode b) e →
      (L.role (entryFrame m.paging e)).Held)
    (hQ : ∀ m', Stored L m a bytes m' → Q () m') :
    (storeBytes a bytes).Sat m Q E := by
  induction bytes generalizing a m with
  | nil => exact hQ m ⟨rfl, h, fun _ _ => rfl, fun _ _ => rfl, fun _ i hi => absurd hi (by simp)⟩
  | cons b bytes ih =>
    obtain ⟨ha, hok⟩ := hpages 0 (by simp)
    rw [Nat.add_zero] at ha hok
    obtain ⟨e, hl, hphys⟩ := hok.toPhysical h hr ha
    have hactive : m.activeTable = m.table m.cr3 := rfl
    have htarget : m.storeTarget a =
        some (startAddress (entryFrame m.paging e) + pageOffset a) := by
      have hany := (mapping_any h hr ha true).mpr hok
      have hw : ((m.table m.cr3).mapping m.mem a).any PagePermissions.writable = true := by
        cases hm : (m.table m.cr3).mapping m.mem a with
        | none => rw [hm] at hany; cases hany
        | some p =>
          rw [hm] at hany
          simp only [Option.any_some, Bool.not_true, Bool.false_or, Bool.and_eq_true] at hany ⊢
          exact hany.2
      rw [Machine.storeTarget, hactive, if_pos hw, hphys]
    simp only [storeBytes, Prog.sat_bind, Prog.sat_get, htarget, Prog.sat_expect_some, modifyMem,
      Prog.sat_modify]
    have hframe : (L.role ((startAddress (entryFrame m.paging e) + pageOffset a) /
        FRAME_SIZE)).Held := by
      rw [frame_of_phys]
      exact hheld a e ha hl
    obtain ⟨p, hp⟩ : ∃ p, p = startAddress (entryFrame m.paging e) + pageOffset a := ⟨_, rfl⟩
    rw [← hp] at hframe hphys
    rw [← hp]
    have h₁ := h.writeByte hframe b
    have hwords₁ : ∀ f, ¬ (L.role f).Held → (m.mem.setByte p b).word f = m.mem.word f := by
      intro f hf
      apply PhysMem.frame_setByte
      rintro rfl
      exact hf hframe
    have hleaf₁ : ∀ r q e, LeafAt L (m.withMem (m.mem.setByte p b)) r q e ↔ LeafAt L m r q e :=
      leafAt_words rfl hwords₁
    have hphys₁ : ∀ x, x < USER_SPACE_END →
        (m.withMem (m.mem.setByte p b)).activeTable.toPhysical (m.mem.setByte p b) x =
          m.activeTable.toPhysical m.mem x := by
      intro x hx
      exact (reads_congr h h₁ ⟨rfl, rfl⟩ rfl hr hr (fun _ => .inr (rootIndex_user _ hx))
        (fun e => hleaf₁ _ _ e)).1
    have hnext : ∀ i, a + 1 + i = a + (i + 1) := fun i => by omega
    refine ih h₁ hr hk ?_ ?_ ?_
    · intro i hi
      obtain ⟨hb, hok'⟩ := hpages (i + 1) (by simpa using hi)
      rw [hnext]
      exact ⟨hb, hok'.congr rfl fun e he => (hleaf₁ _ _ e).mpr he⟩
    · intro x e' hx hl'
      exact hheld x e' hx ((hleaf₁ _ _ e').mp hl')
    · intro m' hst
      refine hQ m' ⟨?_, hst.inv, ?_, ?_, ?_⟩
      · rw [hst.only]
        rfl
      · intro f hf
        rw [hst.words f hf]
        exact hwords₁ f hf
      · intro x hx
        rw [hst.others x]
        · show (m.mem.setByte p b).byte x = m.mem.byte x
          rw [PhysMem.byte_setByte, if_neg]
          rintro rfl
          refine hx 0 (by simp) ?_
          rw [Nat.add_zero]
          exact hphys
        · intro i hi
          have := hx (i + 1) (by simpa using hi)
          rw [hnext]
          intro he
          refine this ?_
          rw [← hphys₁ _ (hpages (i + 1) (by simpa using hi)).1]
          exact he
      · intro hinj i hi x hx
        cases i with
        | zero =>
          rw [Nat.add_zero, hactive, hphys] at hx
          cases hx
          rw [hst.others p]
          · show (m.mem.setByte p b).byte p = b
            rw [PhysMem.byte_setByte, if_pos rfl]
          · intro i hi' he
            have hi'' : i + 1 < (b :: bytes).length := by simpa using hi'
            rw [hnext] at he
            have he' : m.activeTable.toPhysical m.mem (a + (i + 1)) = some p := by
              rw [← hphys₁ _ (hpages (i + 1) hi'').1]
              exact he
            have := hinj 0 (i + 1) p (by simp) hi'' (by rw [Nat.add_zero]; exact hphys) he'
            omega
        | succ i =>
          have hi' : i < bytes.length := by simpa using hi
          refine (hst.stored ?_ i hi' x ?_).trans rfl
          · intro i₁ j₁ y hi₁ hj₁ h₁' h₂'
            rw [hnext] at h₁' h₂'
            have hb₁ : i₁ + 1 < (b :: bytes).length := by simpa using hi₁
            have hb₂ : j₁ + 1 < (b :: bytes).length := by simpa using hj₁
            have := hinj (i₁ + 1) (j₁ + 1) y hb₁ hb₂
              ((hphys₁ _ (hpages (i₁ + 1) hb₁).1).symm.trans h₁')
              ((hphys₁ _ (hpages (j₁ + 1) hb₂).1).symm.trans h₂')
            omega
          · rw [hnext]
            exact (hphys₁ _ (hpages (i + 1) hi).1).trans hx

end Machine

section Kernel

variable {B : BootPages} {L : Layout} {k k' : Kernel} {E : Stop → Kernel → Prop}

/-- A range of user memory in which every page is accessible. -/
def UserRange (L : Layout) (m : Machine) (r start len : ℕ) (w : Bool) : Prop :=
  start + len ≤ USER_SPACE_END ∧ ∀ i < len, PageOk L m r (start + i) w

theorem UserRange.congr {L' : Layout} {m m' : Machine} {r start len : ℕ} {w : Bool}
    (h : UserRange L m r start len w) (hp : m'.paging = m.paging)
    (hl : ∀ q e i, q.getLast? = some i → i < 256 → LeafAt L m r q e → LeafAt L' m' r q e) :
    UserRange L' m' r start len w := by
  refine ⟨h.1, fun i hi => (h.2 i hi).congr hp fun e he => ?_⟩
  exact hl _ e _ (pagePath_getLast _ _) (rootIndex_user _ (by have := h.1; omega)) he

theorem UserRange.sub {m : Machine} {r start len : ℕ} {w : Bool}
    (h : UserRange L m r start len w) {offset n : ℕ} (hn : offset + n ≤ len) :
    UserRange L m r (start + offset) n w := by
  refine ⟨by have := h.1; omega, fun i hi => ?_⟩
  rw [Nat.add_assoc]
  exact h.2 (offset + i) (by omega)

theorem UserRange.pages {m : Machine} {r start len : ℕ} {w : Bool}
    (h : UserRange L m r start len w) :
    ∀ i < len, start + i < USER_SPACE_END ∧ PageOk L m r (start + i) w :=
  fun i hi => ⟨by have := h.1; omega, h.2 i hi⟩

/-- An address in a page that has been checked. -/
theorem pageOk_of_page {m : Machine} {r a : ℕ} {w : Bool}
    (h : PageOk L m r (alignDownToFrame a) w) : PageOk L m r a w := by
  obtain ⟨e, hl, hperm⟩ := h
  exact ⟨e, by rwa [pagePath_alignDown] at hl, hperm⟩

theorem ResInv.mapping_any (h : ResInv B L k) {asId r a : ℕ} {space : AddressSpace}
    (hs : k.spaces.get asId = some space) (hr : space.root.frame = r)
    (ha : a < USER_SPACE_END) (w : Bool) :
    (space.mapping k.machine.mem a).any (fun p => p.userAccessible && (!w || p.writable)) = true ↔
      PageOk L k.machine r a w := by
  obtain ⟨hne, hsp⟩ := h.spaces.live asId space hs
  rw [AddressSpace.mapping, hsp.root, ← hr]
  exact Dusk.mapping_any h.mem hsp.typed ha w

theorem validatePages_sat {Q : Unit → Kernel → Prop} (h : ResInv B L k) {asId r : ℕ}
    (hr : k.rootOf asId = some r) {w : Bool} {page count : ℕ} (hal : page % FRAME_SIZE = 0)
    (hend : page + count * FRAME_SIZE ≤ USER_SPACE_END)
    (hok : (∀ i < count, PageOk L k.machine r (page + i * FRAME_SIZE) w) → Q () k)
    (hbad : E (.status .badAddress) k) : (validatePages asId w page count).Sat k Q E := by
  obtain ⟨space, hs, hroot⟩ := Kernel.rootOf_some.mp hr
  induction count generalizing page with
  | zero => exact hok (by simp)
  | succ count ih =>
    simp only [validatePages, Prog.sat_bind, Prog.sat_get, hs]
    have hmul : (count + 1) * FRAME_SIZE = count * FRAME_SIZE + FRAME_SIZE := Nat.succ_mul _ _
    have hpos : 0 < FRAME_SIZE := by decide
    have hpage : page < USER_SPACE_END := by omega
    have hany := h.mapping_any hs hroot hpage w
    rw [Prog.sat_ite]
    refine ⟨fun hyes => ?_, fun _ => hbad⟩
    refine ih (by rw [Nat.add_mod_right]; exact hal) (by omega) ?_
    intro hrest
    refine hok ?_
    intro i hi
    cases i with
    | zero =>
      rw [Nat.zero_mul, Nat.add_zero]
      exact hany.mp hyes
    | succ i =>
      have := hrest i (by omega)
      rwa [Nat.succ_mul, Nat.add_comm (i * FRAME_SIZE), ← Nat.add_assoc]

theorem validateUserRange_sat {Q : Unit → Kernel → Prop} (h : ResInv B L k) {asId r : ℕ}
    (hr : k.rootOf asId = some r) {start len : ℕ} {w : Bool}
    (hok : UserRange L k.machine r start len w → Q () k) (hbad : E (.status .badAddress) k) :
    (validateUserRange asId start len w).Sat k Q E := by
  rw [validateUserRange]
  cases hadd : checkedAdd start len with
  | none => exact hbad
  | some stop =>
    have hstop : stop = start + len := by
      rw [checkedAdd] at hadd
      split_ifs at hadd
      exact (Option.some.inj hadd).symm
    subst hstop
    simp only
    split_ifs with hrange hlen
    · exact hbad
    · refine hok ⟨?_, fun i hi => absurd hi (by omega)⟩
      omega
    · have hend : start + len ≤ USER_SPACE_END := by omega
      refine validatePages_sat h hr ?_ ?_ ?_ hbad
      · simp only [alignDownToFrame, FRAME_SIZE]
        omega
      · simp only [alignDownToFrame, FRAME_SIZE, USER_SPACE_END] at hend ⊢
        omega
      · intro hpages
        refine hok ⟨hend, fun i hi => pageOk_of_page ?_⟩
        have := hpages ((start + i - alignDownToFrame start) / FRAME_SIZE) (by
          simp only [alignDownToFrame, FRAME_SIZE]
          omega)
        have haddr : alignDownToFrame start +
            (start + i - alignDownToFrame start) / FRAME_SIZE * FRAME_SIZE =
              alignDownToFrame (start + i) := by
          simp only [alignDownToFrame, FRAME_SIZE]
          omega
        rwa [haddr] at this

/-- The two results of the check. -/
theorem validateUserRange_result (h : ResInv B L k) {asId r : ℕ} (hr : k.rootOf asId = some r)
    (start len : ℕ) (w : Bool) :
    (validateUserRange asId start len w k = .ok () k ∧ UserRange L k.machine r start len w) ∨
    validateUserRange asId start len w k = .stop (.status .badAddress) k := by
  have hsat := validateUserRange_sat (Q := fun _ k' => k' = k ∧ UserRange L k.machine r start len w)
    (E := fun e k' => e = .status .badAddress ∧ k' = k) h hr (fun hrange => ⟨rfl, hrange⟩)
    ⟨rfl, rfl⟩
  rw [Prog.Sat] at hsat
  cases hv : validateUserRange asId start len w k with
  | ok u k' =>
    rw [hv] at hsat
    obtain ⟨rfl, hrange⟩ := hsat
    exact .inl ⟨rfl, hrange⟩
  | stop e k' =>
    rw [hv] at hsat
    obtain ⟨rfl, rfl⟩ := hsat
    exact .inr rfl

/-- The current task, seen by its own syscall. -/
structure Running (k : Kernel) (cur : ℕ) (task : Tcb) : Prop where
  current : k.sched.current = some cur
  get : k.sched.tasks.get cur = some task
  root : k.rootOf task.asId = some k.machine.cr3
  top : k.machine.kernelStackTop = task.kernelStack.top

theorem TasksInv.current (h : TasksInv k) : ∃ cur task, Running k cur task := by
  obtain ⟨cur, task, hc, ht, hr, hk⟩ := h.cpu
  exact ⟨cur, task, hc, ht, hr, hk⟩

theorem Running.currentSpace {cur : ℕ} {task : Tcb} (h : Running k cur task) :
    ∃ space, k.currentSpace = some space ∧ k.spaces.get task.asId = some space ∧
      space.root.frame = k.machine.cr3 := by
  obtain ⟨space, hs, hroot⟩ := Kernel.rootOf_some.mp h.root
  refine ⟨space, ?_, hs, hroot⟩
  simp [Kernel.currentSpace, h.current, h.get, hs]

/-- A user page is the frame of a handle or one of the boot's. -/
theorem ResInv.leaf_held (h : ResInv B L k) {r a : ℕ} {e : Word} (ha : a < USER_SPACE_END)
    (hl : LeafAt L k.machine r (pagePath k.machine.paging.mode a) e) :
    (L.role (entryFrame k.machine.paging e)).Held := by
  obtain ⟨v, _, _, _, hcase⟩ := h.pages.user r _ e _ hl (pagePath_getLast _ _)
    (rootIndex_user _ ha)
  rcases hcase with ⟨t, i, id, rights, hh, _⟩ | ⟨_, hb⟩
  · exact .inl ⟨t, i, (h.pages.mappings t i _ id v rights hh).1⟩
  · obtain ⟨_, _, _, hrole⟩ := h.pages.boot v e hb
    rcases hrole with hrole | hrole
    · exact .inr (.inl ⟨v, hrole⟩)
    · exact .inr (.inr ⟨v, hrole⟩)

/-- Record an access of the kernel. -/
def Kernel.logged (k : Kernel) (write : Bool) (address length : ℕ) : Kernel :=
  { k with accesses := k.accesses ++ [⟨write, address, length, k.machine, k.currentSpace⟩] }

theorem KInv.logged (h : KInv B L k) {write : Bool} {start len : ℕ}
    (hrange : UserRange L k.machine k.machine.cr3 start len write) :
    KInv B L (k.logged write start len) := by
  obtain ⟨cur, task, hrun⟩ := h.tasks.current
  obtain ⟨space, hspace, hs, hroot⟩ := hrun.currentSpace
  refine ⟨?_, ?_, h.handles.same (fun _ => rfl) (fun _ _ => rfl), ?_, h.logs.handBacks⟩
  · exact h.res.quiet h.res.mem ⟨rfl, rfl⟩ rfl ⟨rfl, rfl, fun _ => rfl, rfl⟩ (fun _ _ => rfl)
  · exact h.tasks.congr rfl rfl (fun _ _ h => h) rfl rfl rfl (fun _ => rfl)
  · intro a ha
    rcases List.mem_append.mp ha with ha | ha
    · exact h.logs.accesses a ha
    · rw [List.mem_singleton] at ha
      subst ha
      refine ⟨space, hspace, ?_, fun i hi => ?_⟩
      · rw [(h.res.spaces.live _ _ hs).2.root, hroot]
      obtain ⟨hlt, hok⟩ := hrange.pages i hi
      exact ⟨hlt, (h.res.mapping_any hs hroot hlt write).mpr hok⟩

theorem checkUserEnd_sat {Q : Unit → Kernel → Prop} {start len : ℕ}
    (h : start + len ≤ USER_SPACE_END) (hQ : Q () k) : (checkUserEnd start len).Sat k Q E := by
  have hadd : checkedAdd start len = some (start + len) := by
    refine if_pos ?_
    simp only [USER_SPACE_END, USIZE_END] at *
    omega
  rw [checkUserEnd, hadd]
  simp only [gt_iff_lt, not_lt.mpr h, if_false]
  exact hQ

theorem checkPointer_sat {Q : Unit → Kernel → Prop} {ptr len : ℕ} (hQ : Q () k)
    (hnull : k.debugAssertions = true → ptr = 0 → len ≠ 0 → E (.panicked .nullPointer) k) :
    (checkPointer ptr len).Sat k Q E := by
  simp only [checkPointer, Prog.sat_bind, Prog.sat_get, Prog.sat_assert]
  by_cases hbad : k.debugAssertions = true ∧ ptr = 0 ∧ len ≠ 0
  · have : (!(k.debugAssertions && decide (ptr = 0 ∧ len ≠ 0))) = false := by
      simp [hbad.1, hbad.2.1, hbad.2.2]
    rw [this]
    exact hnull hbad.1 hbad.2.1 hbad.2.2
  · have : (!(k.debugAssertions && decide (ptr = 0 ∧ len ≠ 0))) = true := by
      cases hd : k.debugAssertions with
      | false => rfl
      | true =>
        have hn : ¬ (ptr = 0 ∧ len ≠ 0) := fun h => hbad ⟨hd, h⟩
        simp [hn]
    rw [this]
    exact hQ

theorem copyFromUser_sat {Q : List Byte → Kernel → Prop} (h : KInv B L k) {src len : ℕ}
    (hrange : UserRange L k.machine k.machine.cr3 src len false)
    (hnull : k.debugAssertions = true → src = 0 → len ≠ 0 → E (.panicked .nullPointer) k)
    (hQ : ∀ bytes, k.machine.loadBytes src len = some bytes → bytes.length = len →
      KInv B L (k.logged false src len) → Q bytes (k.logged false src len)) :
    (copyFromUser src len).Sat k Q E := by
  obtain ⟨cur, task, hrun⟩ := h.tasks.current
  have hroot := h.res.spaces.root hrun.root
  obtain ⟨bytes, hload, hlen⟩ := loadBytes_some h.res.mem hroot.2 hrange.pages
  simp only [copyFromUser, Prog.sat_bind]
  refine checkUserEnd_sat hrange.1 (checkPointer_sat ?_ hnull)
  simp only [recordAccess, Prog.sat_modify, Prog.sat_get]
  show (Prog.expect _ (k.machine.loadBytes src len)).Sat _ _ _
  rw [hload, Prog.sat_expect_some]
  exact hQ bytes hload hlen (h.logged hrange)

/-- The kernel after a copy to user memory. -/
theorem KInv.stored (h : KInv B L k) (k' : Kernel) {dst : ℕ} {bytes : List Byte}
    (hst : Stored L k.machine dst bytes k'.machine)
    (hk' : k' = { k with machine := k'.machine }) : KInv B L k' := by
  have hsame : SameTables k.machine k'.machine := by
    rw [hst.only]
    exact ⟨rfl, rfl⟩
  rw [hk']
  refine ⟨?_, ?_, ?_, ?_⟩
  · exact h.res.memory hst.inv (RolesKept.refl L) hsame (leafAt_words hsame.paging hst.words)
      ⟨rfl, rfl, fun _ => rfl, rfl⟩ (fun _ _ => rfl)
  · exact h.tasks.congr (by rw [hst.only]; rfl) (by rw [hst.only]; rfl) (fun _ _ h => h) rfl rfl
      rfl (fun _ => rfl)
  · exact h.handles.same (fun _ => rfl) (fun _ _ => rfl)
  · exact h.logs.congr rfl (by rw [hst.only]; rfl)

theorem storeUser_sat {Q : Unit → Kernel → Prop} (h : KInv B L k) {dst : ℕ} {bytes : List Byte}
    (hrange : UserRange L k.machine k.machine.cr3 dst bytes.length true)
    (hQ : ∀ m, Stored L k.machine dst bytes m → KInv B L { k with machine := m } →
      Q () { k with machine := m }) :
    (onMachine (storeBytes dst bytes)).Sat k Q E := by
  obtain ⟨cur, task, hrun⟩ := h.tasks.current
  have hroot := h.res.spaces.root hrun.root
  rw [sat_onMachine]
  refine storeBytes_sat h.res.mem hroot.2 hroot.1 hrange.pages
    (fun b e hb hl => h.res.leaf_held hb hl) ?_
  intro m hst
  exact hQ m hst (h.stored { k with machine := m } hst rfl)

theorem copyToUser_sat {Q : Unit → Kernel → Prop} (h : KInv B L k) {dst : ℕ} {src : List Byte}
    (hrange : UserRange L k.machine k.machine.cr3 dst src.length true)
    (hnull : k.debugAssertions = true → dst = 0 → src.length ≠ 0 →
      E (.panicked .nullPointer) k)
    (hQ : ∀ m, Stored L k.machine dst src m →
      KInv B L { k.logged true dst src.length with machine := m } →
      Q () { k.logged true dst src.length with machine := m }) :
    (copyToUser dst src).Sat k Q E := by
  simp only [copyToUser, Prog.sat_bind]
  refine checkUserEnd_sat hrange.1 (checkPointer_sat ?_ hnull)
  simp only [recordAccess, Prog.sat_modify]
  exact storeUser_sat (h.logged hrange) hrange (fun m hst hinv => hQ m hst hinv)

/-- A pointer to a `usize` that has been checked. -/
theorem copyValToUser_sat {Q : Unit → Kernel → Prop} (h : KInv B L k) {dst val : ℕ}
    (hal : dst % 8 = 0) (hne : dst ≠ 0)
    (hrange : UserRange L k.machine k.machine.cr3 dst 8 true)
    (hQ : ∀ m, Stored L k.machine dst (usizeBytes val) m →
      KInv B L { k.logged true dst 8 with machine := m } →
      Q () { k.logged true dst 8 with machine := m }) :
    (copyValToUser dst val).Sat k Q E := by
  have hlen : (usizeBytes val).length = 8 := by simp [usizeBytes]
  rw [copyValToUser, if_neg (by simpa using hal)]
  simp only [Prog.sat_bind]
  refine checkUserEnd_sat hrange.1 (checkPointer_sat ?_ (fun _ h0 _ => absurd h0 hne))
  simp only [recordAccess, Prog.sat_modify]
  exact storeUser_sat (h.logged hrange) (by rw [hlen]; exact hrange)
    (fun m hst hinv => hQ m hst hinv)

end Kernel

end Dusk
