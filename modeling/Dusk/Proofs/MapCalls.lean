import Dusk.Proofs.Calls

/-! `sys_as_create`, `sys_map` and `sys_unmap`. -/

namespace Dusk

open Lib Radix Scheduler

variable {B : BootPages} {L L' : Layout} {k k' : Kernel} {null : Prop}

/-- An edit of a user half is none of the kernel's. -/
theorem Edit.calm (k' : Kernel) {r : ℕ} (hr : r ≠ L.kroot) {m : Machine}
    (he : Edit (Role.Lent r) r L k.machine L' m) (hm : k'.machine = m)
    (hd : k'.debugAssertions = k.debugAssertions) (ho : Others k k') : Calm L k L' k' := by
  refine ⟨he.kroot, ?_, fun b hb => .inl (he.regs.handBacks ▸ hm ▸ hb), hd, ho⟩
  intro f p hf
  have hlent : ¬ Role.Lent r (L.role f) := by
    rw [hf]
    rintro (h | ⟨p', _, h⟩)
    · cases h
    · cases h
      exact hr rfl
  refine ⟨by rw [he.role_eq hlent, hf], ?_⟩
  rw [hm]
  refine he.words f hlent (by simp [hf]) ?_
  rw [hf]
  intro h
  cases h
  exact hr rfl

section AsCreate

theorem NewRoot.calm {f : ℕ} (h : NewRoot L k.machine f k'.machine)
    (hd : k'.debugAssertions = k.debugAssertions) (ho : Others k k') :
    Calm L k (L.set f (.table f [])) k' := by
  refine ⟨rfl, ?_, fun b hb => .inl (h.regs.handBacks ▸ hb), hd, ho⟩
  intro g p hg
  have hgf : g ≠ f := by
    rintro rfl
    rw [h.free] at hg
    cases hg
  exact ⟨by rw [Layout.set_role_of_ne L hgf, hg], h.words g (by simp [hg]) hgf⟩

/-- A new address space that finds no place is taken down again. -/
theorem destroyNew_sat {Q : Unit → Machine → Prop} {E : Panic → Machine → Prop} (h : KInv B L k)
    {f : ℕ} {m₁ : Machine} (hn : NewRoot L k.machine f m₁)
    (hQ : ∀ m₂, Refused B L k { k with machine := m₂ } → Q () m₂) :
    (AddressSpace.destroy ⟨m₁.table f, .user⟩).Sat m₁ Q E := by
  obtain ⟨cur, task, hrun⟩ := h.tasks.current
  have hcr3 := (h.res.spaces.root hrun.root).2
  have hkf : f ≠ L.kroot := by
    rintro rfl
    have := h.res.mem.kroot
    rw [hn.free] at this
    cases this
  have hs : SpaceOf (L.set f (.table f [])) m₁ ⟨m₁.table f, .user⟩ f :=
    ⟨rfl, Layout.set_role_self L f _, by rw [Layout.set_kroot, if_neg hkf]⟩
  refine destroyUser_sat hs hn.inv hkf ?_ hn.low ?_
  · rw [hn.regs.cr3]
    intro he
    rw [he, hn.free] at hcr3
    cases hcr3
  · intro m₂ hinv hregs hwords hleaf
    have hback : (L.set f (.table f [])).set f .free = L := by
      rw [Layout.set_set]
      exact Layout.set_eq L hn.free
    rw [hback] at hinv hleaf
    refine hQ m₂ (h.restored hinv (hn.regs.trans hregs) ?_
      (fun r q e => (hleaf r q e).trans (hn.leaf r q e)))
    intro g hs' hfree
    have hgf : g ≠ f := by
      rintro rfl
      exact hfree hn.free
    rw [hwords g (by rwa [Layout.set_role_of_ne L hgf]), hn.words g hs' hgf]

theorem sysAsCreate_sat (h : KInv B L k) (outHandle : ℕ) :
    (sysAsCreate outHandle).Sat k (fun _ => After B L k) (Stops B L k null) := by
  obtain ⟨cur, task, hrun⟩ := h.tasks.current
  have hstay : Refused B L k k := Refused.refl h
  obtain ⟨callerAs, hcaller, hframe⟩ := Kernel.rootOf_some.mp hrun.root
  rw [sysAsCreate, Prog.sat_bind]
  refine requireOutHandle_sat (fun hne hal => ?_) hstay
  rw [Prog.sat_bind, sat_selfTask hrun, Prog.sat_bind]
  refine validateUserRange_sat h.res hrun.root (fun hrange => ?_) hstay
  simp only [Prog.sat_bind, Prog.sat_get, hcaller, sat_onMachine]
  refine newUser_sat (h.res.spaces.live _ _ hcaller).2 h.res.mem hstay ?_
  intro f m₁ hn
  have hregs := hn.regs
  simp only [Prog.sat_bind, insertAddressSpace, Prog.sat_get]
  cases hfirst : k.spaces.firstEmpty with
  | none =>
    simp only [Prog.sat_pure, Prog.sat_bind, sat_onMachine, sat_fail]
    exact destroyNew_sat h hn fun m₂ ha => ha
  | some asId =>
    obtain ⟨hlt, hnone⟩ := Slots.firstEmpty_some hfirst
    simp only [Prog.sat_pure, Prog.sat_bind, Prog.sat_modify]
    obtain ⟨k₁, hk₁⟩ : ∃ k₁ : Kernel, k₁ = { k with
        machine := m₁
        spaces := k.spaces.set asId (some ⟨m₁.table f, .user⟩) } := ⟨_, rfl⟩
    have hroot₁ : ∀ id r, k.rootOf id = some r → k₁.rootOf id = some r := by
      intro id r hr
      obtain ⟨s, hs, hsr⟩ := Kernel.rootOf_some.mp hr
      refine Kernel.rootOf_some.mpr ⟨s, ?_, hsr⟩
      rw [hk₁]
      show (k.spaces.set asId _).get id = some s
      rw [Slots.get_set _ hlt, if_neg, hs]
      rintro rfl
      rw [hnone] at hs
      cases hs
    have hcr3₁ : k₁.machine.cr3 = k.machine.cr3 := by
      rw [hk₁]
      exact hregs.cr3
    have hrun₁ : Running k₁ cur task := by
      refine ⟨by rw [hk₁]; exact hrun.current, by rw [hk₁]; exact hrun.get, ?_, ?_⟩
      · rw [hcr3₁]
        exact hroot₁ _ _ hrun.root
      · rw [hk₁]
        exact hregs.kernelStackTop.trans hrun.top
    rw [← hk₁, sat_selfTask hrun₁]
    cases hpush : HandleTable.push task.handles
        ⟨.addressSpace asId, Rights.READ ||| Rights.WRITE ||| Rights.EXECUTE⟩ with
    | none =>
      have hget : k₁.spaces.get asId = some ⟨m₁.table f, .user⟩ := by
        rw [hk₁]
        exact Slots.get_set_self _ hlt _
      simp only [removeAddressSpace, Prog.sat_bind, Prog.sat_get, Prog.sat_modify, Prog.sat_pure,
        hget, Prog.sat_expect_some, sat_onMachine, sat_fail]
      have hm₁ : k₁.machine = m₁ := by rw [hk₁]
      rw [hm₁]
      refine destroyNew_sat h hn fun m₂ ha => ?_
      have hspaces : k₁.spaces.set asId none = k.spaces := by
        rw [hk₁]
        show (k.spaces.set asId _).set asId none = k.spaces
        rw [Slots.set_set, Slots.set_self hnone]
      rw [hspaces, hk₁]
      exact ha
    | some pushed =>
      obtain ⟨i, handles⟩ := pushed
      obtain ⟨hi, hempty, rfl⟩ := push_some hpush
      simp only [Prog.sat_bind]
      rw [sat_setHandles hrun₁]
      have hn₁ : NewRoot L k.machine f k₁.machine := by
        rw [hk₁]
        exact hn
      have hinv₁ : KInv B (L.set f (.table f [])) k₁ := by
        refine h.rebuild (h.res.newSpace hn₁ hnone hlt ?_ ?_ ?_ ?_ ?_) hn₁.regs hroot₁
          ?_ ?_ ?_ ?_ (h.handles.same ?_ ?_) ?_
        all_goals rw [hk₁]
        · exact fun _ => rfl
        · exact fun _ _ => rfl
        · exact fun _ => rfl
        · exact fun _ => rfl
        · exact fun _ _ => rfl
      have hcores := Kernel.putTask_cores hrun₁.get (task.handles.set i
        (some ⟨.addressSpace asId, Rights.READ ||| Rights.WRITE ||| Rights.EXECUTE⟩))
      have hnew : k₁.rootOf asId = some f := by
        rw [hk₁, Kernel.rootOf]
        show ((k.spaces.set asId _).get asId).map _ = some f
        rw [Slots.get_set_self _ hlt]
        rfl
      have hinv₂ := hinv₁.putHandles hrun₁ (task.handles.set i
          (some ⟨.addressSpace asId, Rights.READ ||| Rights.WRITE ||| Rights.EXECUTE⟩))
        (hinv₁.res.setHandle rfl (Kernel.putTask_holders hrun₁.get _)
          (Kernel.putTask_handleAt hrun₁.get hi _)
          (by rw [hrun₁.handleAt, hempty]; simp) (by simp) (by simp)
          (by
            intro id rights he
            cases he
            exact ⟨f, hnew⟩))
        (hinv₁.handles.setHandle hcores (Kernel.putTask_handleAt hrun₁.get hi _)
          (by rw [hrun₁.handleAt, hempty]; simp) (by rw [hrun₁.handleAt, hempty]; simp) (by simp))
      have hothers : Others k k₁ := by
        refine .own hrun.current ?_ (fun t _ => by rw [hk₁])
        intro id s hs
        rw [hk₁]
        show (k.spaces.set asId _).get id = some s
        rw [Slots.get_set _ hlt, if_neg, hs]
        rintro rfl
        rw [hnone] at hs
        cases hs
      have hcalm : Calm L k (L.set f (.table f [])) (k₁.putTask cur { task with
          handles := task.handles.set i
            (some ⟨.addressSpace asId, Rights.READ ||| Rights.WRITE ||| Rights.EXECUTE⟩) }) :=
        (hn₁.calm (by rw [hk₁]) hothers).trans (Calm.same rfl rfl rfl
          (.own hrun₁.current (fun _ _ h => h)
            fun t ht => (Kernel.putTask_get hrun₁.get t).trans (if_neg ht))) (by rw [hk₁])
      have hmail : SameMail k k₁ := fun t => by rw [hk₁]; rfl
      refine copyVal_after hinv₂ hal hne ?_ hcalm (hmail.trans hcores.mail) (by rw [hk₁]; rfl)
      show UserRange (L.set f (.table f [])) k₁.machine k₁.machine.cr3 outHandle 8 true
      rw [hcr3₁]
      exact hrange.congr hn₁.regs.paging fun q e _ _ _ hl => (hn₁.leaf _ q e).mpr hl

end AsCreate

section Map

variable {E : Stop → Kernel → Prop} {cur : ℕ} {task : Tcb}

theorem checkMapHandles_sat {Q : ℕ → Kernel → Prop} {asHandle frameHandle : ℕ}
    {writable executable : Bool}
    (hok : ∀ asId asRights f rights,
      task.handles.get asHandle = some ⟨.addressSpace asId, asRights⟩ →
      task.handles.get frameHandle = some ⟨.frame f, rights⟩ → Q asId k)
    (hbad : ∀ s, E (.status s) k) :
    (checkMapHandles task asHandle frameHandle writable executable).Sat k Q E := by
  rw [checkMapHandles]
  cases has : task.handles.get asHandle with
  | none => exact hbad _
  | some handle =>
    obtain ⟨object, asRights⟩ := handle
    cases object with
    | addressSpace asId =>
      simp only [Prog.sat_bind, sat_require]
      refine ⟨fun _ => ?_, fun _ => hbad _⟩
      cases hf : task.handles.get frameHandle with
      | none => exact hbad _
      | some handle =>
        obtain ⟨object, rights⟩ := handle
        cases object with
        | frame f =>
          simp only [Prog.sat_bind, sat_require]
          exact ⟨fun _ => hok asId asRights f rights has hf, fun _ => hbad _⟩
        | addressSpace _ => exact hbad _
        | mapping _ _ _ => exact hbad _
        | thread _ => exact hbad _
    | frame _ => exact hbad _
    | mapping _ _ _ => exact hbad _
    | thread _ => exact hbad _

/-- `expect` of a copy that has been checked. -/
theorem sat_expectOk {α : Type} {Q : α → Kernel → Prop} (p : KernelPanic) (body : KM α) :
    (expectOk p body).Sat k Q E ↔ body.Sat k Q
      (fun stop => E (match stop with | .status _ => .panicked p | other => other)) := by
  rw [expectOk, Prog.sat_zoom]
  rfl

/-- The refusals that `sys_map` has not excluded are answered with a status. -/
theorem mapFailure_sat {Q : Unit → Kernel → Prop} {m : Machine} {r va frame : ℕ} {e : Word}
    {err : PageTableMapError} (herr : MapRefused L m r va frame e err) (hmem : MemInv noPages L m)
    (hcan : m.paging.mode.isCanonical va = true) (hal : va % PAGE_SIZE = 0)
    (hlim : startAddress frame < m.paging.physicalAddressLimit)
    (hbad : ∀ s, E (.status s) k) : (mapFailure (MapError.ofPageTable err)).Sat k Q E := by
  cases herr with
  | notCanonical h =>
    rw [hcan] at h
    cases h
  | unaligned h => exact absurd hal h
  | tooLarge h => exact absurd hlim (not_lt.mpr h)
  | tableTooLarge _ _ hfree h =>
    exact absurd (hmem.addr_lt id (by simp [hfree, Role.state])) (not_lt.mpr h)
  | noExecute => exact hbad _
  | mapped => exact hbad _
  | outOfFrames => exact hbad _

theorem Running.withMachine (h : Running k cur task) {m : Machine} (hregs : Regs k.machine m) :
    Running { k with machine := m } cur task :=
  ⟨h.current, h.get, h.root.trans (by rw [hregs.cr3]), hregs.kernelStackTop.trans h.top⟩

/-- The machine has changed, and the handle in a slot of the current task. -/
def Kernel.swapped (k : Kernel) (cur : ℕ) (task : Tcb) (i : ℕ) (handle : Handle) (m : Machine) :
    Kernel :=
  Kernel.putTask { k with machine := m } cur
    { task with handles := task.handles.set i (some handle) }

section Swapped

variable {i : ℕ} {handle : Handle} {m : Machine} (hrun : Running k cur task)

include hrun

theorem swapped_cores : SameCores k (k.swapped cur task i handle m) :=
  Kernel.putTask_cores (k := { k with machine := m }) hrun.get _

theorem swapped_handleAt (hi : i < MAX_HANDLES) (t j : ℕ) :
    (k.swapped cur task i handle m).handleAt t j =
      if t = cur ∧ j = i then some handle else k.handleAt t j :=
  Kernel.putTask_handleAt (k := { k with machine := m }) hrun.get hi _ t j

theorem swapped_others : Others k (k.swapped cur task i handle m) := by
  refine .own hrun.current (fun _ _ h => h) fun t ht => ?_
  exact (Kernel.putTask_get (k := { k with machine := m }) hrun.get t).trans (if_neg ht)

theorem swapped_holders : SameHolders k (k.swapped cur task i handle m) :=
  ⟨rfl, rfl, (swapped_cores hrun).stackOf, rfl⟩

end Swapped

/-- `sys_map` has mapped the frame `f` that is behind the handle in slot `i` of the current
task. -/
structure MapDone (L : Layout) (k : Kernel) (asHandle va i cur : ℕ) (task : Tcb) (f asId : ℕ)
    (rights : Rights) (r : ℕ) (e : Word) (L' : Layout) (m' : Machine) : Prop where
  run : Running k cur task
  target : ∃ asRights, task.handles.get asHandle = some ⟨.addressSpace asId, asRights⟩
  get : task.handles.get i = some ⟨.frame f, rights⟩
  root : k.rootOf asId = some r
  low : va < USER_SPACE_END
  aligned : va % FRAME_SIZE = 0
  entry : entryFrame k.machine.paging e = f
  post : MapPost False L k.machine r va f e (.ok ()) L' m'

namespace MapDone

variable {asHandle va i f asId r : ℕ} {rights : Rights} {e : Word} {m' : Machine}

theorem handle (h : MapDone L k asHandle va i cur task f asId rights r e L' m') :
    k.handleAt cur i = some ⟨.frame f, rights⟩ := by rw [h.run.handleAt, h.get]

theorem inv (h : MapDone L k asHandle va i cur task f asId rights r e L' m') (hk : KInv B L k) :
    KInv B L' (k.swapped cur task i ⟨.mapping f asId va, rights⟩ m') := by
  have hi := Slots.lt_of_get h.get
  have hh := h.handle
  exact hk.rebuild (hk.res.mapPage hh h.root h.low h.aligned h.entry h.post (swapped_holders h.run)
      (swapped_handleAt h.run hi)) h.post.edit.regs (fun _ _ hs => hs) rfl rfl rfl
    (swapped_cores h.run) (hk.handles.setHandle (swapped_cores h.run) (swapped_handleAt h.run hi)
      (by simp [hh]) (by simp [hh]) (by simp)) rfl

/-- What was mapped still is. -/
theorem leaf (h : MapDone L k asHandle va i cur task f asId rights r e L' m') {r' : ℕ}
    {q : List ℕ} {e' : Word} (hl : LeafAt L k.machine r' q e') : LeafAt L' m' r' q e' := by
  obtain ⟨_, _, _, hnone, hleaf⟩ := h.post.done rfl
  rw [hleaf, if_neg]
  · exact hl
  · rintro ⟨rfl, rfl⟩
    exact hnone e' hl

/-- The pages of the caller are where they were. -/
theorem range (h : MapDone L k asHandle va i cur task f asId rights r e L' m') {start len : ℕ}
    {w : Bool} (hrange : UserRange L k.machine k.machine.cr3 start len w) :
    UserRange L' m' m'.cr3 start len w := by
  rw [h.post.edit.regs.cr3]
  exact hrange.congr h.post.edit.regs.paging fun _ _ _ _ _ hl => h.leaf hl

end MapDone

/-- `sys_map` refuses, or maps and writes the handle to the output pointer. -/
theorem sysMap_cases {Q : Unit → Kernel → Prop} (h : KInv B L k)
    {asHandle frameHandle va permissions outHandle : ℕ}
    (hfail : ∀ s k', Refused B L k k' → E (.status s) k')
    (hdone : ∀ {cur task f asId rights r e L' m'}, outHandle ≠ 0 ∧ outHandle % 8 = 0 →
      UserRange L k.machine k.machine.cr3 outHandle 8 true →
      MapDone L k asHandle va frameHandle cur task f asId rights r e L' m' →
      ∀ E', (copyValToUser outHandle frameHandle).Sat
        (k.swapped cur task frameHandle ⟨.mapping f asId va, rights⟩ m') Q E') :
    (sysMap asHandle frameHandle va permissions outHandle).Sat k Q E := by
  obtain ⟨cur, task, hrun⟩ := h.tasks.current
  have hstay : ∀ s, E (.status s) k := fun s => hfail s k (Refused.refl h)
  rw [sysMap]
  simp only [Prog.sat_bind, sat_require]
  refine ⟨fun hout => ⟨fun hva => ?_, fun _ => hstay _⟩, fun _ => hstay _⟩
  cases hadd : checkedAdd va FRAME_SIZE with
  | none => exact hstay _
  | some stop =>
    have hstop : stop = va + FRAME_SIZE := by
      rw [checkedAdd] at hadd
      split_ifs at hadd
      exact (Option.some.inj hadd).symm
    simp only [Prog.sat_bind, sat_require]
    refine ⟨fun hend => ?_, fun _ => hstay _⟩
    have hlt : va < USER_SPACE_END := by
      have hpos : 0 < FRAME_SIZE := by decide
      omega
    rw [sat_selfTask hrun]
    refine validateUserRange_sat h.res hrun.root (fun hrange => ?_) (hstay _)
    refine checkMapHandles_sat (fun asId asRights f rights has hf => ?_) hstay
    rw [sat_selfTask hrun]
    have htake : HandleTable.take task.handles frameHandle =
        some (⟨.frame f, rights⟩, task.handles.set frameHandle none) := by
      rw [HandleTable.take, hf]
      rfl
    have hrole := h.res.pages.frames cur frameHandle f rights (by rw [hrun.handleAt, hf])
    obtain ⟨r, hr⟩ := h.res.pages.names cur asHandle asId asRights (by rw [hrun.handleAt, has])
    obtain ⟨space, hs, hsr⟩ := Kernel.rootOf_some.mp hr
    obtain ⟨hne, hsp⟩ := h.res.spaces.live asId space hs
    rw [hsr] at hne hsp
    simp only [htake, Prog.sat_bind]
    rw [sat_setHandles hrun, Prog.sat_get]
    show (Prog.expect _ (k.spaces.get asId)).Sat _ _ _
    rw [hs, Prog.sat_expect_some, sat_onMachine]
    refine AddressSpace.map_sat hsp h.res.mem (Site.user (a := 0) hne hlt hva.1)
      (by simp [hne]) ?_
    intro res L' m' hpost
    have hregs := hpost.edit.regs
    have hrun' := hrun.withMachine hregs
    have hlim : startAddress f < k.machine.paging.physicalAddressLimit :=
      h.res.mem.addr_lt id (by rw [hrole]; simp [Role.state])
    cases res with
    | error err =>
      obtain ⟨rfl, hrefused, hleaf, hwords⟩ := hpost.failed err rfl
      simp only [Except.mapError, Prog.sat_bind]
      refine (sat_putBack hrun' hf).mpr ?_
      rw [Prog.sat_expect_some]
      refine mapFailure_sat hrefused h.res.mem (user_canonical _ hlt) hva.1 hlim fun s => ?_
      exact hfail s _ (h.restored hpost.inv hregs hwords hleaf)
    | ok u =>
      simp only [Except.mapError, Prog.sat_bind]
      refine (sat_putOver hrun' (Slots.lt_of_get hf) _).mpr ?_
      rw [sat_expectOk]
      exact hdone hout hrange
        ⟨hrun, ⟨asRights, has⟩, hf, hr, hlt, hva.1, leafWord_entryFrame _ _ _ hlim, hpost⟩ _

theorem sysMap_sat (h : KInv B L k) (asHandle frameHandle va permissions outHandle : ℕ) :
    (sysMap asHandle frameHandle va permissions outHandle).Sat k (fun _ => After B L k)
      (Stops B L k null) := by
  refine sysMap_cases h (fun _ _ hr => hr)
    fun {cur task f asId rights r e L' m'} hout hrange hdone _ => ?_
  have hcalm := hdone.post.edit.calm
    (k.swapped cur task frameHandle ⟨.mapping f asId va, rights⟩ m')
    (h.res.spaces.root hdone.root).1 rfl rfl (swapped_others hdone.run)
  exact copyVal_after (hdone.inv h) hout.2 hout.1 (hdone.range hrange) hcalm
    (swapped_cores hdone.run).mail rfl

end Map

section Unmap

/-- What is still cached of an unmapped page leads elsewhere. -/
theorem handBack_clean (h : ResInv B L k) {t i f id r v : ℕ} {rights : Rights}
    (hh : k.handleAt t i = some ⟨.mapping f id v, rights⟩) (hr : k.rootOf id = some r)
    {m : Machine} (hpost : UnmapPost False L k.machine r v L' m) :
    (⟨v, f, m.tlb⟩ : HandBack).Clean := by
  intro entry hmem hpage hframe
  obtain ⟨_, hv, hal, _⟩ := h.pages.mappings t i f id v rights hh
  simp only at hpage hframe
  obtain ⟨_, _, e, hl, he⟩ := hpost.inv.tlb hmem (by rw [hpage]; exact hv)
  have hpaging := hpost.edit.regs.paging
  rw [hpaging, hpage] at hl
  rw [hpaging, hframe] at he
  obtain ⟨hl', hgone⟩ := (hpost.leaf _ _ _).mp hl
  obtain ⟨hroot, _⟩ := h.mapping_unique hh hr hl' hv hal he
  exact hgone ⟨hroot, rfl⟩

/-- The page of a mapping has been unmapped, and handed back. -/
def Machine.handedBack (m : Machine) (page frame : ℕ) : Machine :=
  m.withHandBacks (m.handBacks ++ [⟨page, frame, m.tlb⟩])

/-- `sys_unmap` has unmapped the page `v` of the handle in slot `i` of the current task. -/
structure UnmapDone (L : Layout) (k : Kernel) (i cur : ℕ) (task : Tcb) (f asId v : ℕ)
    (rights : Rights) (r : ℕ) (L' : Layout) (m' : Machine) : Prop where
  run : Running k cur task
  get : task.handles.get i = some ⟨.mapping f asId v, rights⟩
  root : k.rootOf asId = some r
  post : UnmapPost False L k.machine r v L' m'

namespace UnmapDone

variable {cur i f asId v r : ℕ} {task : Tcb} {rights : Rights} {m' : Machine}

theorem handle (h : UnmapDone L k i cur task f asId v rights r L' m') :
    k.handleAt cur i = some ⟨.mapping f asId v, rights⟩ := by rw [h.run.handleAt, h.get]

theorem handBacks (h : UnmapDone L k i cur task f asId v rights r L' m') {b : HandBack}
    (hb : b ∈ (m'.handedBack v f).handBacks) : b ∈ k.machine.handBacks ∨ b = ⟨v, f, m'.tlb⟩ := by
  change b ∈ m'.handBacks ++ _ at hb
  rw [h.post.edit.regs.handBacks] at hb
  exact (List.mem_append.mp hb).imp id List.mem_singleton.mp

theorem inv (h : UnmapDone L k i cur task f asId v rights r L' m') (hk : KInv B L k) :
    KInv B L' (k.swapped cur task i ⟨.frame f, rights⟩ (m'.handedBack v f)) := by
  have hi := Slots.lt_of_get h.get
  have hh := h.handle
  have hregs := h.post.edit.regs
  refine ⟨hk.res.unmapPage hh h.root h.post rfl (swapped_holders h.run)
      (swapped_handleAt h.run hi), ?_,
    hk.handles.setHandle (swapped_cores h.run) (swapped_handleAt h.run hi) (by simp [hh])
      (by simp [hh]) (by simp), hk.logs.accesses, ?_⟩
  · exact hk.tasks.congr hregs.cr3 hregs.kernelStackTop (fun _ _ hs => hs) rfl rfl rfl
      (swapped_cores h.run)
  · intro b hb hlt
    rcases h.handBacks hb with hold | rfl
    · exact hk.logs.handBacks b hold hlt
    · exact handBack_clean hk.res hh h.root h.post

end UnmapDone

/-- `sys_unmap` refuses and changes nothing, or unmaps the page of the mapping. -/
theorem sysUnmap_cases {Q : Unit → Kernel → Prop} {E : Stop → Kernel → Prop} (h : KInv B L k)
    {mappingHandle : ℕ}
    (hfail : (∀ cur f asId v rights, k.sched.current = some cur →
      k.handleAt cur mappingHandle ≠ some ⟨.mapping f asId v, rights⟩) → ∀ s, E (.status s) k)
    (hdone : ∀ {cur task f asId v rights r L' m'},
      UnmapDone L k mappingHandle cur task f asId v rights r L' m' →
      Q () (k.swapped cur task mappingHandle ⟨.frame f, rights⟩ (m'.handedBack v f))) :
    (sysUnmap mappingHandle).Sat k Q E := by
  obtain ⟨cur, task, hrun⟩ := h.tasks.current
  have hother : (∀ f asId v rights,
      task.handles.get mappingHandle ≠ some ⟨.mapping f asId v, rights⟩) →
      ∀ s, E (.status s) k := by
    intro hne
    refine hfail fun cur' f asId v rights hcur => ?_
    rw [hrun.current, Option.some.injEq] at hcur
    rw [← hcur, hrun.handleAt]
    exact hne f asId v rights
  rw [sysUnmap, Prog.sat_bind, sat_selfTask hrun]
  cases htake : HandleTable.take task.handles mappingHandle with
  | none =>
    refine hother (fun f asId v rights hget => ?_) _
    rw [HandleTable.take, hget] at htake
    cases htake
  | some taken =>
    obtain ⟨⟨object, rights⟩, handles⟩ := taken
    obtain ⟨hi, hget, rfl⟩ := take_some htake
    simp only [Prog.sat_bind]
    rw [sat_setHandles hrun]
    cases object with
    | mapping f asId v =>
      obtain ⟨_, hv, hal, r, e, hr, hl, he⟩ :=
        h.res.pages.mappings cur mappingHandle f asId v rights (by rw [hrun.handleAt, hget])
      obtain ⟨space, hs, hsr⟩ := Kernel.rootOf_some.mp hr
      obtain ⟨hne, hsp⟩ := h.res.spaces.live asId space hs
      rw [hsr] at hne hsp
      simp only [Prog.sat_bind, Prog.sat_get]
      have hs' : (k.putTask cur { task with
          handles := task.handles.set mappingHandle none }).spaces.get asId = some space := hs
      simp only [hs', Prog.sat_bind, sat_onMachine]
      refine AddressSpace.unmap_sat hsp h.res.mem (Site.user (a := 0) hne hv hal) hl ?_
      intro L' m' hpost
      replace hpost : UnmapPost False L k.machine r v L' m' := hpost
      have he' : entryFrame (k.putTask cur { task with
          handles := task.handles.set mappingHandle none }).machine.paging e = f := he
      simp only [Prog.sat_bind, sat_onMachine, handBack, Prog.sat_modify, he', if_true]
      have hregs := hpost.edit.regs
      have hrun' : Running { k with machine := m'.handedBack v f } cur task :=
        ⟨hrun.current, hrun.get, hrun.root.trans (by rw [← hregs.cr3]; rfl),
          hregs.kernelStackTop.trans hrun.top⟩
      exact (sat_putOver hrun' hi _).mpr (hdone ⟨hrun, hget, hr, hpost⟩)
    | frame _ | addressSpace _ | thread _ =>
      simp only [Prog.sat_bind]
      rw [sat_putBack hrun hget]
      exact hother (fun _ _ _ _ hm => by rw [hget] at hm; cases hm) _

theorem sysUnmap_sat (h : KInv B L k) (mappingHandle : ℕ) :
    (sysUnmap mappingHandle).Sat k (fun _ => After B L k) (Stops B L k null) := by
  refine sysUnmap_cases h (fun _ _ => Refused.refl h)
    fun {cur task f asId v rights r L' m'} hdone => ?_
  obtain ⟨_, hv, _⟩ := h.res.pages.mappings cur mappingHandle f asId v rights hdone.handle
  have hcalm := hdone.post.edit.calm { k with machine := m' } (h.res.spaces.root hdone.root).1
    rfl rfl (.tasks rfl rfl)
  refine ⟨L', hdone.inv h, ⟨hcalm.kroot, hcalm.tables, fun b hb => ?_, rfl,
    swapped_others hdone.run⟩, (swapped_cores hdone.run).mail⟩
  exact (hdone.handBacks hb).imp_right fun hb => by rw [hb]; exact hv

end Unmap

end Dusk
