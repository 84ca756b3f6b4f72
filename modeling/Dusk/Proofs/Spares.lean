import Dusk.Proofs.Step

/-! What a move of the current task does to the frames of other address spaces: no frame
that is held, and that the active root does not map, is written. -/

namespace Dusk

open Lib Radix Scheduler

variable {B : BootPages} {L L' : Layout} {k k' : Kernel} {m m' : Machine} {f : ℕ}

/-- A frame of a handle or of the boot that the active root does not map. -/
structure Elsewhere (L : Layout) (m : Machine) (f : ℕ) : Prop where
  held : (L.role f).Held
  unmapped : ∀ a e, a < USER_SPACE_END → LeafAt L m m.cr3 (pagePath m.paging.mode a) e →
    entryFrame m.paging e ≠ f

/-- A range of user pages of the active root, all of them with other frames. -/
def Clear (f : ℕ) (L : Layout) (m : Machine) (start len : ℕ) : Prop :=
  ∀ i < len, start + i < USER_SPACE_END ∧ ∃ e,
    LeafAt L m m.cr3 (pagePath m.paging.mode (start + i)) e ∧
    (L.role (entryFrame m.paging e)).Held ∧ entryFrame m.paging e ≠ f

theorem UserRange.clear {start len : ℕ} {w : Bool} (h : KInv B L k)
    (hf : Elsewhere L k.machine f)
    (hrange : UserRange L k.machine k.machine.cr3 start len w) : Clear f L k.machine start len := by
  intro i hi
  obtain ⟨ha, e, hl, _⟩ := hrange.pages i hi
  exact ⟨ha, e, hl, h.res.leaf_held ha hl, hf.unmapped _ e ha hl⟩

theorem Clear.congr {start len : ℕ} (h : Clear f L m start len) (hregs : Regs m m')
    (hleaf : ∀ q e i, q.getLast? = some i → i < 256 → LeafAt L m m.cr3 q e →
      LeafAt L' m' m.cr3 q e)
    (hroles : ∀ g, (L.role g).Held → L'.role g = L.role g) : Clear f L' m' start len := by
  intro i hi
  obtain ⟨ha, e, hl, hheld, hne⟩ := h i hi
  refine ⟨ha, e, ?_, ?_, ?_⟩
  · rw [hregs.cr3, hregs.paging]
    exact hleaf _ e _ (pagePath_getLast _ _) (rootIndex_user _ ha) hl
  · rw [hregs.paging, hroles _ hheld]
    exact hheld
  · rw [hregs.paging]
    exact hne

theorem storeBytes_words (h : MemInv noPages L m) (hr : L.role m.cr3 = .table m.cr3 []) {a : ℕ}
    {bytes : List Byte} (hclear : Clear f L m a bytes.length) :
    (storeBytes a bytes).Sat m (fun _ m' => m'.mem.word f = m.mem.word f)
      (fun _ m' => m'.mem.word f = m.mem.word f) := by
  induction bytes generalizing a m with
  | nil => exact rfl
  | cons b bytes ih =>
    obtain ⟨ha, e, hl, hheld, hne⟩ := hclear 0 (by simp)
    rw [Nat.add_zero] at ha hl
    have ho : m.cr3 = L.kroot ∨ rootIndex m.paging.mode a < 256 := .inr (rootIndex_user _ ha)
    have hphys : (m.table m.cr3).toPhysical m.mem a =
        some (startAddress (entryFrame m.paging e) + pageOffset a) := by
      rw [h.toPhysical_eq hr (user_canonical _ ha) ho, (h.leaf_iff hr ho e).mpr hl]
      rfl
    simp only [storeBytes, Prog.sat_bind, Prog.sat_get]
    cases htarget : m.storeTarget a with
    | none => exact rfl
    | some p =>
      have hp : p = startAddress (entryFrame m.paging e) + pageOffset a := by
        rw [Machine.storeTarget] at htarget
        split_ifs at htarget
        exact Option.some.inj (htarget.symm.trans hphys)
      have hframe : p / FRAME_SIZE = entryFrame m.paging e := by rw [hp, frame_of_phys]
      rw [← hframe] at hheld hne
      simp only [Prog.sat_expect_some, modifyMem, Prog.sat_modify]
      have hwords : ∀ g, g ≠ p / FRAME_SIZE → (m.mem.setByte p b).word g = m.mem.word g :=
        fun g hg => PhysMem.frame_setByte _ hg b
      have hleaf : ∀ r q e, LeafAt L (m.withMem (m.mem.setByte p b)) r q e ↔ LeafAt L m r q e :=
        leafAt_words rfl fun g hg => hwords g (by rintro rfl; exact hg hheld)
      refine (ih (h.writeByte hheld b) hr ?_).mono ?_ ?_
      · intro i hi
        obtain ⟨ha', e', hl', hheld', hne'⟩ := hclear (i + 1) (by simpa using hi)
        rw [Nat.add_assoc, Nat.add_comm 1 i]
        exact ⟨ha', e', (hleaf _ _ e').mpr hl', hheld', hne'⟩
      · intro _ m' hm'
        exact hm'.trans (hwords f (Ne.symm hne))
      · intro _ m' hm'
        exact hm'.trans (hwords f (Ne.symm hne))

/-- The frame has the same content. -/
def SameFrame (f : ℕ) (k k' : Kernel) : Prop := k'.machine.mem.word f = k.machine.mem.word f

theorem Refused.same (h : Refused B L k k') (hf : (L.role f).Held) : SameFrame f k k' := by
  refine h.words f hf.not_table.2 ?_
  rcases hf with ⟨_, _, hf⟩ | ⟨_, hf⟩ | ⟨_, hf⟩ <;> simp [hf]

theorem Edit.same {P : Role → Prop} {r : ℕ} (h : Edit P r L m L' m') (hP : ∀ ρ, Role.Held ρ → ¬ P ρ)
    (hf : (L.role f).Held) : m'.mem.word f = m.mem.word f :=
  h.words f (hP _ hf) hf.not_table.2 (hf.not_table.1 _ _)

theorem Switched.same {cur next : ℕ} {state : ThreadState} {saved : ThreadContext}
    (h : Switched k cur state saved next k') : SameFrame f k k' := by
  obtain ⟨_, _, _, _, _, _, _, _, hm⟩ := h.tasks
  rw [SameFrame, hm, (installed_mem k _ _).1]

section Copies

variable {k₁ : Kernel} {dst : ℕ}

theorem storeUser_same {bytes : List Byte} (hsame : SameFrame f k k₁)
    (h : MemInv noPages L k₁.machine) (hr : L.role k₁.machine.cr3 = .table k₁.machine.cr3 [])
    (hclear : Clear f L k₁.machine dst bytes.length) :
    (onMachine (storeBytes dst bytes)).Sat k₁ (fun _ => SameFrame f k) (fun _ => SameFrame f k) := by
  rw [sat_onMachine]
  exact (storeBytes_words h hr hclear).mono (fun _ _ hw => hw.trans hsame)
    fun _ _ hw => hw.trans hsame

/-- The checks and the record of a copy, and what comes after them. -/
theorem prepared_same {α : Type} (hsame : SameFrame f k k₁) (write : Bool) (ptr len : ℕ)
    {body : KM α}
    (hbody : body.Sat (k₁.logged write ptr len) (fun _ => SameFrame f k)
      (fun _ => SameFrame f k)) :
    (do
      checkUserEnd ptr len
      checkPointer ptr len
      recordAccess write ptr len
      body : KM α).Sat k₁ (fun _ => SameFrame f k) (fun _ => SameFrame f k) := by
  simp only [Prog.sat_bind]
  have hend : (checkUserEnd ptr len).Sat k₁ (fun _ k' => k' = k₁) (fun _ k' => k' = k₁) := by
    unfold checkUserEnd
    split
    · exact rfl
    · rw [Prog.sat_ite]
      exact ⟨fun _ => rfl, fun _ => rfl⟩
  refine hend.mono ?_ ?_
  · rintro _ _ rfl
    simp only [checkPointer, Prog.sat_bind, Prog.sat_get, Prog.sat_assert]
    split
    · exact hbody
    · exact hsame
  · rintro _ _ rfl
    exact hsame

theorem copyToUser_same {bytes : List Byte} (hsame : SameFrame f k k₁)
    (h : MemInv noPages L k₁.machine) (hr : L.role k₁.machine.cr3 = .table k₁.machine.cr3 [])
    (hclear : Clear f L k₁.machine dst bytes.length) :
    (copyToUser dst bytes).Sat k₁ (fun _ => SameFrame f k) (fun _ => SameFrame f k) :=
  prepared_same hsame true dst bytes.length (storeUser_same hsame h hr hclear)

theorem copyVal_same {val : ℕ} (hsame : SameFrame f k k₁)
    (h : MemInv noPages L k₁.machine) (hr : L.role k₁.machine.cr3 = .table k₁.machine.cr3 [])
    (hclear : Clear f L k₁.machine dst 8) :
    (copyValToUser dst val).Sat k₁ (fun _ => SameFrame f k) (fun _ => SameFrame f k) := by
  unfold copyValToUser
  rw [Prog.sat_ite]
  refine ⟨fun _ => hsame, fun _ => prepared_same hsame true dst 8 (storeUser_same hsame h hr ?_)⟩
  rwa [show (usizeBytes val).length = 8 by simp [usizeBytes]]

end Copies

section Calls

theorem Role.Held.not_free {ρ : Role} (h : ρ.Held) : ρ ≠ .free := by
  rcases h with ⟨_, _, rfl⟩ | ⟨_, rfl⟩ | ⟨_, rfl⟩ <;> simp

theorem Role.Held.ne_free {g : ℕ} (hf : (L.role f).Held) (hg : L.role g = .free) : f ≠ g := by
  rintro rfl
  exact hf.not_free hg

/-- A free frame has been given a role. -/
theorem held_set {g : ℕ} (hfree : L.role g = .free) (ρ : Role) :
    ∀ f, (L.role f).Held → (L.set g ρ).role f = L.role f :=
  fun _ hf => Layout.set_role_of_ne L (hf.ne_free hfree) ρ

theorem root_set {r g : ℕ} (hroot : L.role r = .table r []) (hfree : L.role g = .free) (ρ : Role) :
    (L.set g ρ).role r = .table r [] := by
  rw [Layout.set_role_of_ne L, hroot]
  rintro rfl
  rw [hfree] at hroot
  cases hroot

theorem KInv.cr3_role (h : KInv B L k) : L.role k.machine.cr3 = .table k.machine.cr3 [] := by
  obtain ⟨cur, task, hrun⟩ := h.tasks.current
  exact (h.res.spaces.root hrun.root).2

/-- The last copy of a syscall, where user pages are as at its beginning. -/
theorem copyVal_last {k₁ : Kernel} {start val : ℕ} (h : KInv B L k) (hf : Elsewhere L k.machine f)
    (hrange : UserRange L k.machine k.machine.cr3 start 8 true)
    (hinv : MemInv noPages L' k₁.machine) (hregs : Regs k.machine k₁.machine)
    (hcr3 : L'.role k.machine.cr3 = .table k.machine.cr3 [])
    (hleaf : ∀ q e i, q.getLast? = some i → i < 256 → LeafAt L k.machine k.machine.cr3 q e →
      LeafAt L' k₁.machine k.machine.cr3 q e)
    (hroles : ∀ g, (L.role g).Held → L'.role g = L.role g)
    (hsame : SameFrame f k k₁) :
    (copyValToUser start val).Sat k₁ (fun _ => SameFrame f k) (fun _ => SameFrame f k) := by
  refine copyVal_same hsame hinv ?_ ((hrange.clear h hf).congr hregs hleaf hroles)
  rw [hregs.cr3]
  exact hcr3

/-- A copy of a word that cannot fail. -/
theorem copyVal_step {k₁ : Kernel} {dst val : ℕ} {Q : Unit → Kernel → Prop}
    {E : Stop → Kernel → Prop} (h : KInv B L k₁) (hsame : SameFrame f k k₁) (hne : dst ≠ 0)
    (hok : dst % 8 = 0 ∧ UserRange L k₁.machine k₁.machine.cr3 dst 8 true)
    (hclear : Clear f L k₁.machine dst 8)
    (hQ : ∀ k₂, UserWrite B L k₁ dst (usizeBytes val) k₂ → SameFrame f k k₂ → Q () k₂) :
    (copyValToUser dst val).Sat k₁ Q E := by
  have hwrite : (copyValToUser dst val).Sat k₁
      (fun _ k₂ => UserWrite B L k₁ dst (usizeBytes val) k₂) Prog.never :=
    copyVal_write h hne hok fun _ hw => hw
  refine (hwrite.and (copyVal_same hsame h.res.mem h.cr3_role hclear)).mono
    (fun _ k₂ hq => hQ k₂ hq.1 hq.2) fun _ _ hq => hq.1.elim

variable (h : KInv B L k) (hf : Elsewhere L k.machine f)

include h hf

theorem sysFrameAlloc_same (outHandle : ℕ) :
    (sysFrameAlloc outHandle).Sat k (fun _ => SameFrame f k) (fun _ => SameFrame f k) := by
  obtain ⟨cur, task, hrun⟩ := h.tasks.current
  have hroot := (h.res.spaces.root hrun.root).2
  have hstay : SameFrame f k k := rfl
  rw [sysFrameAlloc, Prog.sat_bind]
  refine requireOutHandle_sat (fun hne hal => ?_) hstay
  rw [Prog.sat_bind, sat_selfTask hrun, Prog.sat_bind]
  refine validateUserRange_sat h.res hrun.root (fun hrange => ?_) hstay
  rw [Prog.sat_bind, sat_onMachine]
  refine h.res.mem.alloc_sat (fun _ => hstay) ?_
  intro g m₁ ht _
  have hregs := ht.only.regs
  have hrun₁ : Running { k with machine := m₁ } cur task :=
    ⟨hrun.current, hrun.get, hrun.root.trans (by rw [hregs.cr3]),
      hregs.kernelStackTop.trans hrun.top⟩
  simp only [Prog.sat_bind]
  rw [sat_selfTask hrun₁]
  cases hpush : HandleTable.push task.handles
      ⟨.frame g, Rights.READ ||| Rights.WRITE ||| Rights.EXECUTE ||| Rights.MAP⟩ with
  | none =>
    simp only [Prog.sat_bind, sat_onMachine, sat_fail]
    refine ht.inv.dealloc_sat (Layout.set_role_self L g _) ?_
    intro m₂ hg
    exact (ht.undo hg).2.2.1 f hf.held.not_table.2 hf.held.not_free
  | some pushed =>
    obtain ⟨i, handles⟩ := pushed
    simp only [Prog.sat_bind]
    rw [sat_setHandles hrun₁]
    exact copyVal_last h hf hrange ht.inv hregs (root_set hroot ht.free _)
      (fun q e _ _ _ hl => (ht.leaf _ q e).mpr hl) (held_set ht.free _)
      (ht.words f hf.held.not_table.2 (hf.held.ne_free ht.free))

theorem sysFrameDealloc_same (frameHandleId : ℕ) :
    (sysFrameDealloc frameHandleId).Sat k (fun _ => SameFrame f k) (fun _ => SameFrame f k) := by
  obtain ⟨cur, task, hrun⟩ := h.tasks.current
  have hstay : SameFrame f k k := rfl
  rw [sysFrameDealloc, Prog.sat_bind, sat_selfTask hrun]
  cases htake : HandleTable.take task.handles frameHandleId with
  | none => exact hstay
  | some taken =>
    obtain ⟨⟨object, rights⟩, handles⟩ := taken
    obtain ⟨hi, hget, rfl⟩ := take_some htake
    simp only [Prog.sat_bind]
    rw [sat_setHandles hrun]
    cases object with
    | frame g =>
      simp only [sat_onMachine]
      have hrole := h.res.pages.frames cur frameHandleId g rights (by rw [hrun.handleAt, hget])
      refine h.res.mem.dealloc_sat hrole ?_
      intro m₁ hg
      exact hg.words f hf.held.not_table.2
    | addressSpace _ | mapping _ _ _ | thread _ =>
      simp only [Prog.sat_bind]
      rw [sat_putBack hrun hget]
      exact hstay

theorem destroyNew_same {g : ℕ} {m₁ : Machine} {k₁ : Kernel} (hn : NewRoot L k.machine g m₁)
    (hm : k₁.machine = m₁) :
    (onMachine (AddressSpace.destroy ⟨m₁.table g, .user⟩)).Sat k₁ (fun _ => SameFrame f k)
      (fun _ => SameFrame f k) := by
  rw [sat_onMachine, hm]
  exact destroyNew_sat h hn fun m₂ ha => ha.same hf.held

theorem sysAsCreate_same (outHandle : ℕ) :
    (sysAsCreate outHandle).Sat k (fun _ => SameFrame f k) (fun _ => SameFrame f k) := by
  obtain ⟨cur, task, hrun⟩ := h.tasks.current
  have hroot := (h.res.spaces.root hrun.root).2
  have hstay : SameFrame f k k := rfl
  obtain ⟨callerAs, hcaller, hframe⟩ := Kernel.rootOf_some.mp hrun.root
  rw [sysAsCreate, Prog.sat_bind]
  refine requireOutHandle_sat (fun hne hal => ?_) hstay
  rw [Prog.sat_bind, sat_selfTask hrun, Prog.sat_bind]
  refine validateUserRange_sat h.res hrun.root (fun hrange => ?_) hstay
  simp only [Prog.sat_bind, Prog.sat_get, hcaller]
  rw [sat_onMachine]
  refine newUser_sat (h.res.spaces.live _ _ hcaller).2 h.res.mem hstay ?_
  intro g m₁ hn
  have hregs := hn.regs
  simp only [Prog.sat_bind, insertAddressSpace, Prog.sat_get]
  cases hfirst : k.spaces.firstEmpty with
  | none =>
    simp only [Prog.sat_pure, Prog.sat_bind, sat_fail]
    exact destroyNew_same h hf hn rfl
  | some asId =>
    obtain ⟨hlt, hnone⟩ := Slots.firstEmpty_some hfirst
    simp only [Prog.sat_pure, Prog.sat_bind, Prog.sat_modify]
    obtain ⟨k₁, hk₁⟩ : ∃ k₁ : Kernel, k₁ = { k with
        machine := m₁
        spaces := k.spaces.set asId (some ⟨m₁.table g, .user⟩) } := ⟨_, rfl⟩
    have hm₁ : k₁.machine = m₁ := by rw [hk₁]
    have hrun₁ : Running k₁ cur task := by
      refine ⟨by rw [hk₁]; exact hrun.current, by rw [hk₁]; exact hrun.get, ?_, ?_⟩
      · rw [hm₁, hregs.cr3]
        refine Kernel.rootOf_some.mpr ⟨callerAs, ?_, hframe⟩
        rw [hk₁]
        show (k.spaces.set asId _).get task.asId = some callerAs
        rw [Slots.get_set _ hlt, if_neg, hcaller]
        rintro rfl
        rw [hnone] at hcaller
        cases hcaller
      · rw [hm₁]
        exact hregs.kernelStackTop.trans hrun.top
    rw [← hk₁, sat_selfTask hrun₁]
    cases hpush : HandleTable.push task.handles
        ⟨.addressSpace asId, Rights.READ ||| Rights.WRITE ||| Rights.EXECUTE⟩ with
    | none =>
      have hget : k₁.spaces.get asId = some ⟨m₁.table g, .user⟩ := by
        rw [hk₁]
        exact Slots.get_set_self _ hlt _
      simp only [removeAddressSpace, Prog.sat_bind, Prog.sat_get, Prog.sat_modify, Prog.sat_pure,
        hget, Prog.sat_expect_some, sat_fail]
      exact destroyNew_same h hf hn hm₁
    | some pushed =>
      obtain ⟨i, handles⟩ := pushed
      simp only [Prog.sat_bind]
      rw [sat_setHandles hrun₁]
      have hn₁ : NewRoot L k.machine g k₁.machine := by
        rw [hm₁]
        exact hn
      exact copyVal_last h hf hrange hn₁.inv hn₁.regs (root_set hroot hn.free _)
        (fun q e _ _ _ hl => (hn₁.leaf _ q e).mpr hl) (held_set hn.free _)
        (hn₁.words f hf.held.not_table.2 (hf.held.ne_free hn.free))

theorem sysMap_same (asHandle frameHandle va permissions outHandle : ℕ) :
    (sysMap asHandle frameHandle va permissions outHandle).Sat k (fun _ => SameFrame f k)
      (fun _ => SameFrame f k) := by
  refine sysMap_cases h (fun s k' hr => hr.same hf.held)
    fun {cur task g asId rights r e L' m'} hout hrange hdone _ => ?_
  have hclear := (hrange.clear h hf).congr hdone.post.edit.regs
    (fun _ _ _ _ _ hl => hdone.leaf hl) fun g hg => hdone.post.kept g hg.not_free
  exact copyVal_step (hdone.inv h) (hdone.post.edit.same (fun _ => not_lent_held) hf.held) hout.1
    ⟨hout.2, hdone.range hrange⟩ hclear fun _ _ hsame => hsame

theorem sysUnmap_same (mappingHandle : ℕ) :
    (sysUnmap mappingHandle).Sat k (fun _ => SameFrame f k) (fun _ => SameFrame f k) :=
  sysUnmap_cases h (fun _ _ => rfl) fun hdone =>
    hdone.post.edit.same (fun _ => not_lent_held) hf.held

theorem sysWrite_same (fd bufPtr len outPtr : ℕ) :
    (sysWrite fd bufPtr len outPtr).Sat k (fun _ => SameFrame f k) (fun _ => SameFrame f k) := by
  obtain ⟨cur, task, hrun⟩ := h.tasks.current
  have hstay : SameFrame f k k := rfl
  simp only [sysWrite, Prog.sat_bind, sat_require]
  refine ⟨fun hfd => ?_, fun _ => hstay⟩
  rw [sat_selfTask hrun]
  refine validateUserRange_sat h.res hrun.root (fun hrange => ?_) hstay
  refine validateOptional_sat h.res hrun.root (fun hout => ?_) (fun _ _ => hstay)
  have hwrote : ∀ k', Wrote k k' → SameFrame f k k' := by
    intro k' hw
    rw [hw]
    rfl
  refine writeChunks_sat h hrange (by omega) (by omega) (fun k' _ hw _ _ _ => hwrote k' hw) ?_
  intro n k' hinv hw
  rw [Prog.sat_ite]
  refine ⟨fun hne => ?_, fun _ => hwrote k' hw⟩
  obtain ⟨hal, hrange'⟩ := hout hne
  have hclear₀ := hrange'.clear h hf
  have hclear : Clear f L k'.machine outPtr 8 := by
    rw [hw]
    exact hclear₀
  exact copyVal_same (hwrote k' hw) hinv.res.mem hinv.cr3_role hclear

end Calls

section Receive

variable {k₁ : Kernel} {dst : ℕ}

theorem UserWrite.elsewhere {bytes : List Byte} (h : UserWrite B L k dst bytes k')
    (hf : Elsewhere L k.machine f) : Elsewhere L k'.machine f := by
  have hmachine : k'.machine = k.machine.withMem k'.machine.mem := by
    conv_lhs => rw [h.only]
  have hcr3 : k'.machine.cr3 = k.machine.cr3 := by rw [hmachine]; rfl
  have hpaging : k'.machine.paging = k.machine.paging := by rw [hmachine]; rfl
  refine ⟨hf.held, fun a e ha hl => ?_⟩
  rw [hcr3, hpaging] at hl
  rw [hpaging]
  exact hf.unmapped a e ha ((leafAt_words hpaging h.words _ _ e).mp hl)

theorem copyToUser_step {bytes : List Byte} {Q : Unit → Kernel → Prop}
    {E : Stop → Kernel → Prop} (h : KInv B L k₁) (hf : Elsewhere L k₁.machine f)
    (hsame : SameFrame f k k₁) (hne : dst ≠ 0)
    (hrange : UserRange L k₁.machine k₁.machine.cr3 dst bytes.length true)
    (hQ : ∀ k₂, UserWrite B L k₁ dst bytes k₂ → SameFrame f k k₂ → Q () k₂) :
    (copyToUser dst bytes).Sat k₁ Q E := by
  have hwrite : (copyToUser dst bytes).Sat k₁ (fun _ k₂ => UserWrite B L k₁ dst bytes k₂)
      Prog.never := copyToUser_write h hne hrange fun _ hw => hw
  refine (hwrite.and (copyToUser_same hsame h.res.mem h.cr3_role (hrange.clear h hf))).mono
    (fun _ k₂ hq => hQ k₂ hq.1 hq.2) fun _ _ hq => hq.1.elim

theorem recvCopies_same (h : KInv B L k₁) (hf : Elsewhere L k₁.machine f)
    (hsame : SameFrame f k k₁) {args : RecvArgs} (msg : Message) (hout : args.outPtr ≠ 0)
    (hdata : UserRange L k₁.machine k₁.machine.cr3 args.outPtr args.maxLen true)
    (hlen : args.outActualLen ≠ 0 → args.outActualLen % 8 = 0 ∧
      UserRange L k₁.machine k₁.machine.cr3 args.outActualLen 8 true)
    (hsender : args.outSender ≠ 0 → args.outSender % 8 = 0 ∧
      UserRange L k₁.machine k₁.machine.cr3 args.outSender 8 true) :
    (do
      copyToUser args.outPtr ((List.range (min msg.length args.maxLen)).map msg.data)
      if args.outActualLen ≠ 0 then copyValToUser args.outActualLen msg.length else pure ()
      if args.outSender ≠ 0 then copyValToUser args.outSender msg.sender else pure ()
      : KM Unit).Sat k₁ (fun _ => SameFrame f k) (fun _ => SameFrame f k) := by
  obtain ⟨bytes, hbytes⟩ : ∃ bytes, bytes =
    (List.range (min msg.length args.maxLen)).map msg.data := ⟨_, rfl⟩
  have hn : bytes.length ≤ args.maxLen := by simp [hbytes]
  rw [← hbytes]
  simp only [Prog.sat_bind]
  have hsub : UserRange L k₁.machine k₁.machine.cr3 args.outPtr bytes.length true := by
    have := @UserRange.sub _ _ _ _ _ _ hdata 0 bytes.length (by omega)
    rwa [Nat.add_zero] at this
  have hlast : ∀ k₂, KInv B L k₂ → Elsewhere L k₂.machine f → SameFrame f k k₂ →
      (args.outSender ≠ 0 → args.outSender % 8 = 0 ∧
        UserRange L k₂.machine k₂.machine.cr3 args.outSender 8 true) →
      (if args.outSender ≠ 0 then copyValToUser args.outSender msg.sender
        else pure () : KM Unit).Sat k₂ (fun _ => SameFrame f k) (fun _ => SameFrame f k) := by
    intro k₂ h₂ hf₂ hsame₂ hrange₂
    rw [Prog.sat_ite]
    exact ⟨fun hne => copyVal_same hsame₂ h₂.res.mem h₂.cr3_role ((hrange₂ hne).2.clear h₂ hf₂),
      fun _ => hsame₂⟩
  refine copyToUser_step h hf hsame hout hsub ?_
  intro k₂ h₂ hsame₂
  have hf₂ := h₂.elsewhere hf
  rw [Prog.sat_ite]
  refine ⟨fun hne => ?_, fun _ => ?_⟩
  · rw [Prog.sat_bind]
    have hrange := h₂.range (hlen hne).2
    refine copyVal_step h₂.inv hsame₂ hne ⟨(hlen hne).1, hrange⟩ (hrange.clear h₂.inv hf₂) ?_
    intro k₃ h₃ hsame₃
    exact hlast k₃ h₃.inv (h₃.elsewhere hf₂) hsame₃ fun hne' =>
      ⟨(hsender hne').1, h₃.range (h₂.range (hsender hne').2)⟩
  · exact hlast k₂ h₂.inv hf₂ hsame₂ fun hne' => ⟨(hsender hne').1, h₂.range (hsender hne').2⟩

theorem sysRecvTail_same {cur : ℕ} {task : Tcb} (h : KInv B L k) (hf : Elsewhere L k.machine f)
    (hrun : Running k cur task) (hp : k.pending = none) (hbox : task.mailbox.len ≠ 0)
    {args : RecvArgs} (hout : args.outPtr ≠ 0) :
    (sysRecvTail args).Sat k (fun _ => SameFrame f k) (fun _ => SameFrame f k) := by
  have hstay : SameFrame f k k := rfl
  have hok := h.tasks.mail cur task hrun.get
  rw [sysRecvTail]
  simp only [Prog.sat_bind]
  rw [sat_selfTask hrun]
  refine validateUserRange_sat h.res hrun.root (fun hdata => ?_) hstay
  refine validateOptional_sat h.res hrun.root (fun hlen => ?_) (fun _ _ => hstay)
  refine validateOptional_sat h.res hrun.root (fun hsender => ?_) (fun _ _ => hstay)
  rw [sat_currentTask hrun.current, sat_selfTask hrun]
  obtain ⟨msg, hpop, hmsg, hok', hqueue⟩ := hok.pop hbox
  simp only [hpop, Prog.sat_bind, sat_setTask, Prog.sat_assert]
  have hle : min msg.length args.maxLen ≤ MAX_MSG_SIZE := by omega
  rw [if_pos (by simpa using hle)]
  obtain ⟨k₁, hk₁⟩ : ∃ k₁, k₁ = k.putTask cur { task with mailbox := task.mailbox.pop.2 } := ⟨_, rfl⟩
  have hrunning : task.state = .running := by
    obtain ⟨t, ht, hst⟩ := h.tasks.sched.current_get hrun.current
    rw [hrun.get] at ht
    cases ht
    exact hst
  have hinv₁ : KInv B L k₁ := by
    refine h.retask { task with mailbox := task.mailbox.pop.2 } hrun.get rfl rfl rfl hok' ?_
      (fun c hc => by rw [hp] at hc; cases hc) hk₁ (hk₁ ▸ h.tasks.sched.setMail hrun.get _)
    rw [Tcb.Suspended]
    simp only [hrunning]
  have hm₁ : k₁.machine = k.machine := by rw [hk₁]; rfl
  have hprog := recvCopies_same (k := k) hinv₁ (by rw [hm₁]; exact hf)
    (by rw [SameFrame, hm₁]) msg hout (by rw [hm₁]; exact hdata) (by rw [hm₁]; exact hlen)
    (by rw [hm₁]; exact hsender)
  simp only [Prog.sat_bind] at hprog
  rw [hk₁] at hprog
  exact hprog

theorem sysRecv_same (h : KInv B L k) (hf : Elsewhere L k.machine f) (hp : k.pending = none)
    (args : RecvArgs) :
    (sysRecv args).Sat k (fun _ => SameFrame f k) (fun _ => SameFrame f k) := by
  obtain ⟨cur, task, hrun⟩ := h.tasks.current
  have hstay : SameFrame f k k := rfl
  rw [sysRecv]
  simp only [Prog.sat_bind, sat_require]
  refine ⟨fun hout => ?_, fun _ => hstay⟩
  rw [sat_selfTask hrun, Prog.sat_ite]
  refine ⟨fun _ => ?_, fun hbox => sysRecvTail_same h hf hrun hp hbox hout⟩
  exact blockCurrent_sat h.tasks.sched hrun.current _ _ (fun _ => hstay) fun _ _ hsw => hsw.same

end Receive

section Create

theorem allocateKernelStack_same (h : ResInv B L k) (hf : (L.role f).Held) :
    (allocateKernelStack ⟨k.machine.table L.kroot, .kernel⟩).Sat k (fun _ => SameFrame f k)
      (fun _ => SameFrame f k) := by
  have hs : SpaceOf L k.machine ⟨k.machine.table L.kroot, .kernel⟩ L.kroot :=
    ⟨rfl, h.mem.kroot, by simp⟩
  simp only [allocateKernelStack, Prog.sat_bind, Prog.sat_get, sat_onMachine]
  refine KernelStackPool.allocate_sat (fun _ => h.kstacks.anchor.run hs h.mem) ?_ ?_ ?_
  · intro slot pool frames L' m _ _ _ _ hp _
    exact hp.added.edit.same (fun ρ hρ => not_slotRole_held hρ) hf
  · intro err slot pool m _ _ _ _ hr
    exact hr.edit.same (fun ρ hρ => not_slotRole_held hρ) hf
  · exact fun _ => rfl

theorem sysTaskCreate_same (h : KInv B L k) (hf : Elsewhere L k.machine f)
    (asHandle entry userStack outTaskHandle : ℕ) :
    (sysTaskCreate asHandle entry userStack outTaskHandle).Sat k (fun _ => SameFrame f k)
      (fun _ => SameFrame f k) := by
  obtain ⟨cur, task, hrun⟩ := h.tasks.current
  have hstay : SameFrame f k k := rfl
  rw [sysTaskCreate, Prog.sat_bind]
  refine checkTaskCreate_sat h hrun asHandle entry userStack outTaskHandle
    (fun asId r hr hne hal hrange => ?_) (fun _ => hstay)
  simp only [kernelAddressSpace, Prog.sat_bind, Prog.sat_get, h.res.spaces.kernel,
    Prog.sat_expect_some]
  have hfound : (allocateKernelStack ⟨k.machine.table L.kroot, .kernel⟩).Sat k
      (fun res k₁ => ∀ stack, res = .ok stack → ∃ slot L₁, stack = stackAt slot ∧
        ResInv B L₁ k₁ ∧ StackChange L k L₁ k₁ ∧ StackReady L₁ k₁.machine slot ∧
        StackTaken L k slot L₁ k₁ ∧ ∀ t s, k₁.stackOf t = some s → s ≠ stackAt slot)
      Prog.never := by
    refine allocateKernelStack_sat h.res ?_ ?_
    · intro slot L₁ k₁ hres hchange hready htaken hfresh stack hstack
      cases hstack
      exact ⟨slot, L₁, rfl, hres, hchange, hready, htaken, hfresh⟩
    · intro err L₁ k₁ _ _ stack hstack
      cases hstack
  refine (hfound.and (allocateKernelStack_same h.res hf.held)).mono ?_ fun _ _ hq => hq.1.elim
  rintro res k₁ ⟨hfound₁, hsame₁⟩
  cases res with
  | error err => exact hsame₁
  | ok stack =>
    obtain ⟨slot, L₁, rfl, hres₁, hchange, hready, htaken, hfresh⟩ := hfound₁ stack rfl
    obtain ⟨frames, hmade⟩ := htaken.made
    have hroles : ∀ g, (L.role g).Held → L₁.role g = L.role g :=
      fun g hg => hmade.added.kept g hg.not_free
    have hheld₁ : (L₁.role f).Held := by
      rw [hroles f hf.held]
      exact hf.held
    have hk₁ := hchange.kinv h hres₁
    have hr₁ : k₁.rootOf asId = some r := by
      rw [hchange.only]
      exact hr
    have hrun₁ : Running k₁ cur task := by
      refine ⟨by rw [hchange.only]; exact hrun.current, by rw [hchange.tasks, hrun.get], ?_, ?_⟩
      · rw [hchange.regs.cr3, hchange.only]
        exact hrun.root
      · rw [hchange.regs.kernelStackTop, hrun.top]
    simp only [newUser_eq, Prog.sat_expect_some, Prog.sat_bind]
    refine addTask_added hk₁.tasks.sched (newUser_eq asId _ entry userStack) (fun _ => hsame₁) ?_
    intro id t k₂ hadd
    have hk₂ := hadd.kinv hk₁ hr₁ hready htaken.used hfresh
    have hrun₂ := hadd.running hrun₁
    have hm₂ : k₂.machine = k₁.machine := by rw [hadd.only]
    have hsame₂ : SameFrame f k k₂ := by
      rw [SameFrame, hm₂]
      exact hsame₁
    simp only [Prog.sat_bind]
    rw [sat_selfTask hrun₂]
    cases hpush : HandleTable.push task.handles
        ⟨.thread id, Rights.READ ||| Rights.WRITE ||| Rights.EXECUTE⟩ with
    | none =>
      simp only [Prog.sat_bind]
      refine hadd.removeTask_sat hk₁ hk₂ hrun₁ ?_
      intro _ L₃ k₃ _ _ _ hreturned
      obtain ⟨hb, hgone⟩ := hreturned.gone
      exact (hgone.edit.same (fun ρ hρ => not_slotRole_held hρ) hheld₁).trans hsame₂
    | some pushed =>
      obtain ⟨i, handles⟩ := pushed
      obtain ⟨hi, hempty, rfl⟩ := push_some hpush
      simp only [Prog.sat_bind]
      rw [sat_setHandles hrun₂]
      have hinv₃ := handOver_kinv hk₂ hrun₂ (by rw [hadd.get, if_pos rfl]) hi hempty
      have hclear : Clear f L₁ k₂.machine outTaskHandle 8 := by
        rw [hm₂]
        exact (hrange.clear h hf).congr hchange.regs
          (fun q e i hq hi hl => (hchange.user _ q e i hq hi).mpr hl) hroles
      exact copyVal_same hsame₂ hinv₃.res.mem hinv₃.cr3_role hclear

end Create

section Moves

variable (h : KInv B L k) (hf : Elsewhere L k.machine f)

include h

theorem exitCurrent_same {α : Type} (reason : ExitReason) :
    (exitCurrent reason : KM α).Sat k (fun _ => SameFrame f k) (fun _ => SameFrame f k) := by
  obtain ⟨cur, task, hrun⟩ := h.tasks.current
  exact exitCurrent_sat h.tasks.sched hrun.current reason (fun _ => rfl) fun _ _ hsw => hsw.same

theorem sysYield_same :
    sysYield.Sat k (fun _ => SameFrame f k) (fun _ => SameFrame f k) := by
  obtain ⟨cur, task, hrun⟩ := h.tasks.current
  exact yieldCurrent_sat h.tasks.sched hrun.current (fun _ => rfl) fun _ _ hsw => hsw.same

theorem sysSend_same (dest msgPtr len : ℕ) :
    (sysSend dest msgPtr len).Sat k (fun _ => SameFrame f k) (fun _ => SameFrame f k) := by
  obtain ⟨cur, task, hrun⟩ := h.tasks.current
  have hstay : SameFrame f k k := rfl
  rw [sysSend]
  simp only [Prog.sat_bind, sat_require]
  refine ⟨fun hlen => ?_, fun _ => hstay⟩
  rw [sat_currentTask hrun.current, sat_selfTask hrun]
  refine validateUserRange_sat h.res hrun.root (fun hrange => ?_) hstay
  refine copyFromUser_sat h hrange (fun _ _ _ => hstay) ?_
  intro bytes _ _ hinv
  rw [sat_withTask]
  cases hget : (k.logged false msgPtr len).sched.tasks.get dest with
  | none => exact hstay
  | some destTask =>
    simp only [Prog.sat_bind, sat_setTask, sat_require]
    refine ⟨fun _ => ?_, fun _ => hstay⟩
    rw [Prog.sat_ite]
    refine ⟨fun _ => ?_, fun _ => hstay⟩
    exact unblock_sat (hinv.tasks.sched.setMail hget _) (Slots.lt_of_get hget) (fun _ => hstay)
      fun _ _ _ _ _ _ => hstay

include hf

theorem userStore_same (address : ℕ) (value : Byte) :
    (userStore address value).Sat k (fun _ => SameFrame f k) (fun _ => SameFrame f k) := by
  rw [userStore]
  simp only [Prog.sat_bind, Prog.sat_get]
  split
  next p hany hphys =>
    have hpage := h.res.user_page address true h.cr3_role (by
      simpa [Machine.activeTable, Machine.table] using hany)
    obtain ⟨e, hl, he⟩ := hpage.2.toPhysical h.res.mem h.cr3_role hpage.1
    change k.machine.activeTable.toPhysical k.machine.mem address = _ at he
    rw [hphys] at he
    cases he
    simp only [sat_onMachine, modifyMem, Prog.sat_modify]
    refine PhysMem.frame_setByte _ ?_ value
    rw [frame_of_phys]
    exact (hf.unmapped address e hpage.1 hl).symm
  next => exact exitCurrent_same h _

theorem dispatch_same (hp : k.pending = none) (a : SyscallArgs) :
    (dispatch a).Sat k (fun _ => SameFrame f k) (fun _ => SameFrame f k) := by
  rw [dispatch]
  cases SyscallNumber.tryFrom a.num.toNat with
  | none => exact exitCurrent_same h _
  | some number =>
    cases number with
    | yield => exact sysYield_same h
    | exit => exact exitCurrent_same h _
    | write => exact sysWrite_same h hf _ _ _ _
    | send => exact sysSend_same h _ _ _
    | recv => exact sysRecv_same h hf hp _
    | frameAlloc => exact sysFrameAlloc_same h hf _
    | frameDealloc => exact sysFrameDealloc_same h hf _
    | asCreate => exact sysAsCreate_same h hf _
    | map => exact sysMap_same h hf _ _ _ _ _
    | unmap => exact sysUnmap_same h hf _
    | taskCreate => exact sysTaskCreate_same h hf _ _ _ _

theorem resumeContext_same {context : ThreadContext} (hpend : k.pending = some context) :
    resumeContext.Sat k (fun _ => SameFrame f k) (fun _ => SameFrame f k) := by
  obtain ⟨cur, task, hrun⟩ := h.tasks.current
  have hres := h.tasks.pending context cur task hpend hrun.current hrun.get
  have hrun' : Running { k with pending := none } cur task :=
    ⟨hrun.current, hrun.get, hrun.root, hrun.top⟩
  simp only [resumeContext, Prog.sat_bind, Prog.sat_get, hpend, Prog.sat_modify]
  cases context with
  | userEntry entry stack => exact rfl
  | afterYield => exact rfl
  | afterExit => exact hres.elim
  | afterRecvBlock args =>
    rw [Prog.sat_bind, sat_returning]
    refine (sysRecvTail_same h.resumed hf hrun' rfl hres.2 hres.1).mono (fun _ _ hq => hq) ?_
    intro stop k' hq
    cases stop <;> exact hq

/-- However a move of the current task ends. -/
theorem program_same {a : Action} (hen : a.enabled k) :
    a.program.Sat k (fun _ => SameFrame f k) (fun _ => SameFrame f k) := by
  cases a with
  | syscall args =>
    have hp : k.pending = none := by
      rw [Action.enabled, iff_false_left (by simp)] at hen
      simpa using hen
    simp only [Action.program, Prog.sat_bind, handle, sat_returning]
    refine (dispatch_same h hf hp args).mono (fun _ _ hq => hq) ?_
    intro stop k' hq
    cases stop <;> exact hq
  | fault _ =>
    simp only [Action.program, Prog.sat_bind]
    exact exitCurrent_same h _
  | store address value =>
    simp only [Action.program, Prog.sat_bind]
    exact userStore_same h hf address value
  | resume =>
    obtain ⟨context, hc⟩ := Option.isSome_iff_exists.mp (hen.mp rfl)
    exact resumeContext_same h hf hc

theorem step_same {a : Action} {done : Option Completion} (hs : step a k = some (k', done)) :
    SameFrame f k k' := by
  rw [step] at hs
  split_ifs at hs with hen
  have hprog := program_same h hf hen
  rw [Prog.sat_iff] at hprog
  split at hs
  next call code k₁ hr =>
    cases hs
    exact hprog.1 _ _ hr
  next k₁ hr =>
    cases hs
    exact hprog.1 _ _ hr
  next k₁ hr =>
    cases hs
    exact hprog.2 _ _ hr
  next => cases hs

end Moves

end Dusk
