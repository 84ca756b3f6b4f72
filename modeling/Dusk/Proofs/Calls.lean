import Dusk.Proofs.UserCopy

/-! What a syscall may do to the rest of the system, the helpers syscalls share, and
`sys_write`, `sys_frame_alloc` and `sys_frame_dealloc`. -/

namespace Dusk

open Lib Radix Scheduler

/-- The address spaces stay, and so do the handles of the other tasks. -/
structure Others (k k' : Kernel) : Prop where
  spaces : ∀ id s, k.spaces.get id = some s → k'.spaces.get id = some s
  handles : ∀ t i handle, k.sched.current ≠ some t → k.handleAt t i = some handle →
    k'.handleAt t i = some handle

theorem Others.trans {k k' k'' : Kernel} (h : Others k k') (h' : Others k' k'')
    (hcur : k'.sched.current = k.sched.current) : Others k k'' :=
  ⟨fun id s hs => h'.spaces id s (h.spaces id s hs), fun t i handle hne hh =>
    h'.handles t i handle (hcur ▸ hne) (h.handles t i handle hne hh)⟩

theorem Others.same {k k' : Kernel} (hspaces : k'.spaces = k.spaces)
    (hhandles : ∀ t i, k'.handleAt t i = k.handleAt t i) : Others k k' :=
  ⟨fun _ _ h => by rw [hspaces, h], fun _ _ _ _ h => by rw [hhandles, h]⟩

theorem Others.tasks {k k' : Kernel} (hspaces : k'.spaces = k.spaces)
    (htasks : k'.sched.tasks = k.sched.tasks) : Others k k' :=
  .same hspaces fun t i => by rw [Kernel.handleAt, Kernel.handleAt, htasks]

/-- The current task has another handle table. -/
theorem Others.own {k k' : Kernel} {cur : ℕ} (hcur : k.sched.current = some cur)
    (hspaces : ∀ id s, k.spaces.get id = some s → k'.spaces.get id = some s)
    (htasks : ∀ t, t ≠ cur → k'.sched.tasks.get t = k.sched.tasks.get t) : Others k k' := by
  refine ⟨hspaces, fun t i handle hne hh => ?_⟩
  rw [Kernel.handleAt, htasks t (fun he => hne (by rw [hcur, he]))]
  exact hh

/-- The kernel's tables are left alone, pages are handed back in user halves only, and
nobody else loses anything. -/
structure Calm (L : Layout) (k : Kernel) (L' : Layout) (k' : Kernel) : Prop where
  kroot : L'.kroot = L.kroot
  tables : ∀ f p, L.role f = .table L.kroot p → L'.role f = .table L.kroot p ∧
    k'.machine.mem.word f = k.machine.mem.word f
  handBacks : ∀ b ∈ k'.machine.handBacks, b ∈ k.machine.handBacks ∨ b.page < USER_SPACE_END
  debug : k'.debugAssertions = k.debugAssertions
  others : Others k k'

theorem Calm.refl (L : Layout) (k : Kernel) : Calm L k L k :=
  ⟨rfl, fun _ _ h => ⟨h, rfl⟩, fun _ h => .inl h, rfl, .tasks rfl rfl⟩

theorem Calm.trans {L L' L'' : Layout} {k k' k'' : Kernel} (h : Calm L k L' k')
    (h' : Calm L' k' L'' k'') (hcur : k'.sched.current = k.sched.current) : Calm L k L'' k'' := by
  refine ⟨h'.kroot.trans h.kroot, ?_, ?_, h'.debug.trans h.debug, h.others.trans h'.others hcur⟩
  · intro f p hf
    obtain ⟨hf₁, hw₁⟩ := h.tables f p hf
    obtain ⟨hf₂, hw₂⟩ := h'.tables f p (by rw [h.kroot]; exact hf₁)
    rw [h.kroot] at hf₂
    exact ⟨hf₂, hw₂.trans hw₁⟩
  · intro b hb
    rcases h'.handBacks b hb with hb | hb
    · exact h.handBacks b hb
    · exact .inr hb

/-- Memory and the log of handed back pages stay. -/
theorem Calm.same {L : Layout} {k k' : Kernel} (hm : k'.machine.mem = k.machine.mem)
    (hb : k'.machine.handBacks = k.machine.handBacks)
    (hd : k'.debugAssertions = k.debugAssertions) (ho : Others k k') : Calm L k L k' :=
  ⟨rfl, fun _ _ h => ⟨h, by rw [hm]⟩, fun _ h => .inl (hb ▸ h), hd, ho⟩

/-- The messages waiting for a task. -/
def Kernel.mailOf (k : Kernel) (t : ℕ) : List Message :=
  ((k.sched.tasks.get t).map fun task => task.mailbox.queue).getD []

/-- Nobody's mail changes. -/
def SameMail (k k' : Kernel) : Prop := ∀ t, k'.mailOf t = k.mailOf t

theorem SameMail.refl (k : Kernel) : SameMail k k := fun _ => rfl

theorem SameMail.trans {k k' k'' : Kernel} (h : SameMail k k') (h' : SameMail k' k'') :
    SameMail k k'' := fun t => (h' t).trans (h t)

theorem SameCores.mail {k k' : Kernel} (h : SameCores k k') : SameMail k k' := by
  intro t
  have := congrArg (Option.map fun task : Tcb => task.mailbox.queue) (h t)
  simp only [Option.map_map, Function.comp_def, Tcb.strip] at this
  rw [Kernel.mailOf, Kernel.mailOf, this]

/-- The invariant holds again, and the rest of the system has not noticed. -/
def After (B : BootPages) (L : Layout) (k k' : Kernel) : Prop :=
  ∃ L', KInv B L' k' ∧ Calm L k L' k' ∧ SameMail k k'

/-- A call was refused: every frame has its role as before, and only free frames and
the allocator's own storage may hold other bytes. -/
structure Refused (B : BootPages) (L : Layout) (k k' : Kernel) : Prop where
  inv : KInv B L k'
  regs : Regs k.machine k'.machine
  words : ∀ f, L.role f ≠ .storage → L.role f ≠ .free →
    k'.machine.mem.word f = k.machine.mem.word f
  only : k' = { k with machine := k'.machine, accesses := k'.accesses }

theorem Refused.calm {B : BootPages} {L : Layout} {k k' : Kernel} (h : Refused B L k k') :
    Calm L k L k' := by
  refine ⟨rfl, fun f p hf => ⟨hf, h.words f (by simp [hf]) (by simp [hf])⟩, ?_, ?_, ?_⟩
  · intro b hb
    exact .inl (h.regs.handBacks ▸ hb)
  · rw [h.only]
  · exact .tasks (by rw [h.only]) (by rw [h.only])

theorem Refused.after {B : BootPages} {L : Layout} {k k' : Kernel} (h : Refused B L k k') :
    After B L k k' :=
  ⟨L, h.inv, h.calm, fun t => by rw [Kernel.mailOf, Kernel.mailOf, h.only]⟩

theorem Refused.refl {B : BootPages} {L : Layout} {k : Kernel} (h : KInv B L k) :
    Refused B L k k := ⟨h, Regs.refl _, fun _ _ _ => rfl, rfl⟩

/-- How a syscall may stop: with a status, by giving up the processor, by a halt when
no task is ready, or by a copy from the null pointer in a debug build. -/
def Stops (B : BootPages) (L : Layout) (k : Kernel) (null : Prop) : Stop → Kernel → Prop
  | .status _, k' => Refused B L k k'
  | .switched, k' => After B L k k'
  | .halted _, k' => After B L k k' ∧ k'.sched.ready.ids = []
  | .panicked p, k' => p = .nullPointer ∧ k.debugAssertions = true ∧ null ∧ After B L k k'

variable {B : BootPages} {L : Layout} {k k' : Kernel} {null : Prop}

theorem After.refl (h : KInv B L k) : After B L k k := ⟨L, h, Calm.refl L k, SameMail.refl k⟩

theorem After.trans {L' : Layout} {k'' : Kernel} (hc : Calm L k L' k') (hm : SameMail k k')
    (hcur : k'.sched.current = k.sched.current) (h : After B L' k' k'') : After B L k k'' := by
  obtain ⟨L'', hinv, hc', hm'⟩ := h
  exact ⟨L'', hinv, hc.trans hc' hcur, hm.trans hm'⟩

theorem Stops.mono {null' : Prop} (hn : null → null') {stop : Stop} {k' : Kernel}
    (h : Stops B L k null stop k') : Stops B L k null' stop k' := by
  cases stop with
  | status s => exact h
  | switched => exact h
  | halted h₀ => exact h
  | panicked p => exact ⟨h.1, h.2.1, hn h.2.2.1, h.2.2.2⟩

section Helpers

variable {E : Stop → Kernel → Prop} {cur : ℕ} {task : Tcb}

@[simp] theorem sat_require {Q : Unit → Kernel → Prop} (c : Prop) [Decidable c] (s : Status) :
    (require c s).Sat k Q E ↔ (c → Q () k) ∧ (¬ c → E (.status s) k) := by
  rw [require, Prog.sat_ite]
  exact Iff.rfl

theorem sat_selfTask {Q : Tcb → Kernel → Prop} (h : Running k cur task) :
    selfTask.Sat k Q E ↔ Q task k := by
  rw [selfTask, Prog.sat_bind, sat_currentTask h.current, Prog.sat_bind, sat_withTask, h.get,
    Prog.sat_expect_some]

theorem sat_setHandles {Q : Unit → Kernel → Prop} (h : Running k cur task)
    (handles : HandleTable) : (setHandles handles).Sat k Q E ↔
      Q () (k.putTask cur { task with handles }) := by
  rw [setHandles, Prog.sat_bind, sat_currentTask h.current, Prog.sat_bind, sat_selfTask h,
    sat_setTask]
  rfl

/-- The current task with other handles. -/
theorem Running.putTask (h : Running k cur task) (handles : HandleTable) :
    Running (k.putTask cur { task with handles }) cur { task with handles } :=
  ⟨h.current, by rw [Kernel.putTask_get h.get, if_pos rfl], h.root, h.top⟩

theorem sat_putHandle {Q : Option Unit → Kernel → Prop} (h : Running k cur task) {id : ℕ}
    (hid : id < MAX_HANDLES) (hempty : task.handles.get id = none) (handle : Handle) :
    (putHandle id handle).Sat k Q E ↔
      Q (some ()) (k.putTask cur { task with handles := task.handles.set id (some handle) }) := by
  rw [putHandle, Prog.sat_bind, sat_currentTask h.current, Prog.sat_bind, sat_withTask, h.get]
  simp only [HandleTable.put, hid, hempty, and_self, if_true, Prog.sat_bind, sat_setTask,
    Prog.sat_pure]
  rfl

theorem push_some {t t' : HandleTable} {handle : Handle} {i : ℕ}
    (h : HandleTable.push t handle = some (i, t')) :
    i < MAX_HANDLES ∧ t.get i = none ∧ t' = t.set i (some handle) := by
  simp only [HandleTable.push, Option.map_eq_some_iff, Prod.mk.injEq] at h
  obtain ⟨j, hj, rfl, rfl⟩ := h
  obtain ⟨hlt, hnone⟩ := Slots.firstEmpty_some hj
  exact ⟨hlt, hnone, rfl⟩

theorem take_some {t t' : HandleTable} {handle : Handle} {i : ℕ}
    (h : HandleTable.take t i = some (handle, t')) :
    i < MAX_HANDLES ∧ t.get i = some handle ∧ t' = t.set i none := by
  simp only [HandleTable.take, Option.map_eq_some_iff, Prod.mk.injEq] at h
  obtain ⟨a, ha, rfl, rfl⟩ := h
  exact ⟨Slots.lt_of_get ha, ha, rfl⟩

theorem Running.handleAt (h : Running k cur task) (i : ℕ) :
    k.handleAt cur i = task.handles.get i := by
  rw [Kernel.handleAt, h.get]
  rfl

theorem putTask_putTask (k : Kernel) (id : ℕ) (t t' : Tcb) :
    (k.putTask id t).putTask id t' = k.putTask id t' := by
  simp only [Kernel.putTask, Slots.set_set]

theorem putTask_self (h : k.sched.tasks.get cur = some task) : k.putTask cur task = k := by
  rw [Kernel.putTask, Slots.set_self h]

/-- Another handle goes into the slot of one that was taken. -/
theorem sat_putOver {Q : Option Unit → Kernel → Prop} (h : Running k cur task) {id : ℕ}
    (hid : id < MAX_HANDLES) (handle : Handle) :
    (putHandle id handle).Sat (k.putTask cur { task with handles := task.handles.set id none })
      Q E ↔ Q (some ()) (k.putTask cur { task with
        handles := task.handles.set id (some handle) }) := by
  have hempty : (task.handles.set id none).get id = none := Slots.get_set_self _ hid _
  have hset : (task.handles.set id none).set id (some handle) = task.handles.set id (some handle) :=
    Slots.set_set _ _ _ _
  rw [sat_putHandle (h.putTask (task.handles.set id none)) hid hempty, putTask_putTask]
  rw [← hset]

/-- A handle that was taken goes back to its slot. -/
theorem sat_putBack {Q : Option Unit → Kernel → Prop} (h : Running k cur task) {id : ℕ}
    {handle : Handle} (hget : task.handles.get id = some handle) :
    (putHandle id handle).Sat (k.putTask cur { task with handles := task.handles.set id none })
      Q E ↔ Q (some ()) k := by
  have hset : task.handles.set id (some handle) = task.handles := Slots.set_self hget
  rw [sat_putOver h (Slots.lt_of_get hget)]
  simp only [hset]
  rw [putTask_self h.get]

/-- The same machine and another handle table of the current task. -/
theorem KInv.putHandles (h : KInv B L k) (hrun : Running k cur task) (handles : HandleTable)
    (hres : ResInv B L (k.putTask cur { task with handles }))
    (hhandles : HandlesInv (k.putTask cur { task with handles })) :
    KInv B L (k.putTask cur { task with handles }) :=
  ⟨hres, h.tasks.congr rfl rfl (fun _ _ h => h) rfl rfl rfl
    (Kernel.putTask_cores hrun.get handles), hhandles, h.logs.congr rfl rfl⟩

theorem validateOptional_sat {Q : Unit → Kernel → Prop} (h : ResInv B L k) {asId r : ℕ}
    (hr : k.rootOf asId = some r) {ptr : ℕ}
    (hok : (ptr ≠ 0 → ptr % 8 = 0 ∧ UserRange L k.machine r ptr 8 true) → Q () k)
    (hbad : ∀ s, s ≠ .noSuchTask → E (.status s) k) :
    (validateOptional asId ptr).Sat k Q E := by
  rw [validateOptional, Prog.sat_ite]
  constructor
  · intro hne
    rw [Prog.sat_bind, sat_require]
    refine ⟨fun hal => ?_, fun _ => hbad _ (by simp)⟩
    exact validateUserRange_sat h hr (fun hrange => hok fun _ => ⟨hal, hrange⟩) (hbad _ (by simp))
  · intro hz
    exact hok fun hne => absurd hne hz

theorem validateOptional_result (h : ResInv B L k) {asId r : ℕ} (hr : k.rootOf asId = some r)
    (ptr : ℕ) :
    (validateOptional asId ptr k = .ok () k ∧
      (ptr ≠ 0 → ptr % 8 = 0 ∧ UserRange L k.machine r ptr 8 true)) ∨
    ∃ s, validateOptional asId ptr k = .stop (.status s) k := by
  have hsat := validateOptional_sat (Q := fun _ k' => k' = k ∧
      (ptr ≠ 0 → ptr % 8 = 0 ∧ UserRange L k.machine r ptr 8 true))
    (E := fun e k' => (∃ s, e = .status s) ∧ k' = k) h hr (fun hok => ⟨rfl, hok⟩)
    (fun s _ => ⟨⟨s, rfl⟩, rfl⟩)
  rw [Prog.Sat] at hsat
  cases hv : validateOptional asId ptr k with
  | ok u k' =>
    rw [hv] at hsat
    obtain ⟨rfl, hok⟩ := hsat
    exact .inl ⟨rfl, hok⟩
  | stop e k' =>
    rw [hv] at hsat
    obtain ⟨⟨s, rfl⟩, rfl⟩ := hsat
    exact .inr ⟨s, rfl⟩

end Helpers

section Copies

variable {dst : ℕ} {bytes : List Byte} {m : Machine}

theorem Stored.calm (h : Stored L k.machine dst bytes k'.machine)
    (hd : k'.debugAssertions = k.debugAssertions) (ho : Others k k') : Calm L k L k' := by
  refine ⟨rfl, fun f p hf => ⟨hf, h.words f (table_not_held hf)⟩, ?_, hd, ho⟩
  intro b hb
  rw [h.only] at hb
  exact .inl hb

/-- The last copy of a syscall, seen from its beginning. -/
theorem copyVal_after {E : Stop → Kernel → Prop} {L' : Layout} (h : KInv B L' k') {val : ℕ}
    (hal : dst % 8 = 0) (hne : dst ≠ 0)
    (hrange : UserRange L' k'.machine k'.machine.cr3 dst 8 true) (hc : Calm L k L' k')
    (hm : SameMail k k') (hcur : k'.sched.current = k.sched.current) :
    (copyValToUser dst val).Sat k' (fun _ => After B L k) E := by
  refine copyValToUser_sat h hal hne hrange ?_
  intro m hst hinv
  exact After.trans hc hm hcur ⟨L', hinv, hst.calm rfl (.tasks rfl rfl), fun _ => rfl⟩

end Copies

section Write

/-- Only the serial line and the log of accesses differ. -/
def Wrote (k k' : Kernel) : Prop :=
  k' = { k with
    accesses := k'.accesses
    machine := { k.machine with serial := k'.machine.serial } }

theorem Wrote.calm (h : Wrote k k') : Calm L k L k' := by
  rw [h]
  exact Calm.same rfl rfl rfl (.tasks rfl rfl)

theorem KInv.serial (h : KInv B L k) (serial : List Byte) :
    KInv B L { k with machine := { k.machine with serial } } := by
  have hmem : MemInv noPages L { k.machine with serial } :=
    h.res.mem.registers rfl rfl rfl (fun hx => (h.res.mem.halves hx).active)
      (fun hx => (h.res.mem.halves hx).tlb)
  exact ⟨h.res.quiet hmem ⟨rfl, rfl⟩ rfl ⟨rfl, rfl, fun _ => rfl, rfl⟩ (fun _ _ => rfl),
    h.tasks.congr rfl rfl (fun _ _ h => h) rfl rfl rfl (fun _ => rfl),
    h.handles.same (fun _ => rfl) (fun _ _ => rfl), h.logs.congr rfl rfl⟩

theorem writeChunks_sat {Q : ℕ → Kernel → Prop} {E : Stop → Kernel → Prop} (h : KInv B L k)
    {bufPtr len : ℕ} (hrange : UserRange L k.machine k.machine.cr3 bufPtr len false)
    {count written : ℕ} (hcount : written + 128 * count < len + 128) (hle : written ≤ len)
    (hnull : ∀ k', KInv B L k' → Wrote k k' → k.debugAssertions = true → bufPtr = 0 → len ≠ 0 →
      E (.panicked .nullPointer) k')
    (hQ : ∀ n k', KInv B L k' → Wrote k k' → Q n k') :
    (writeChunks bufPtr len count written).Sat k Q E := by
  induction count generalizing k written with
  | zero => exact hQ written k h rfl
  | succ count ih =>
    have hn : written + min (len - written) 128 ≤ len := by omega
    have hend := hrange.1
    have hadd : checkedAdd bufPtr written = some (bufPtr + written) := by
      refine if_pos ?_
      simp only [USER_SPACE_END, USIZE_END] at *
      omega
    have hadd' : checkedAdd written (min (len - written) 128) =
        some (written + min (len - written) 128) := by
      refine if_pos ?_
      simp only [USER_SPACE_END, USIZE_END] at *
      omega
    simp only [writeChunks, Prog.sat_bind, sat_onMachine, addUsize, hadd, Prog.sat_expect_some]
    refine copyFromUser_sat h (hrange.sub hn) ?_ ?_
    · intro hd hz hlen
      exact hnull k h rfl hd (by omega) (by omega)
    · intro bytes _ _ hlog
      simp only [Prog.sat_modify, hadd', Prog.sat_expect_some]
      refine ih (hlog.serial (k.machine.serial ++ serialBytes bytes)) hrange (by omega) hn ?_ ?_
      · intro k' hinv hw
        exact hnull k' hinv (by rw [hw]; rfl)
      · intro n k' hinv hw
        exact hQ n k' hinv (by rw [hw]; rfl)

/-- A write that passes its checks with the null pointer and something to copy. -/
def NullWrite (k : Kernel) (fd bufPtr len outPtr : ℕ) : Prop :=
  (fd = 1 ∨ fd = 2) ∧ bufPtr = 0 ∧ len ≠ 0 ∧
    ∃ cur task, k.sched.current = some cur ∧ k.sched.tasks.get cur = some task ∧
      validateUserRange task.asId bufPtr len false k = .ok () k ∧
      validateOptional task.asId outPtr k = .ok () k

theorem sysWrite_sat (h : KInv B L k) (fd bufPtr len outPtr : ℕ) :
    (sysWrite fd bufPtr len outPtr).Sat k (fun _ => After B L k)
      (Stops B L k (NullWrite k fd bufPtr len outPtr)) := by
  obtain ⟨cur, task, hrun⟩ := h.tasks.current
  have hstay : Refused B L k k := Refused.refl h
  simp only [sysWrite, Prog.sat_bind, sat_require]
  refine ⟨fun hfd => ?_, fun _ => hstay⟩
  rw [sat_selfTask hrun]
  obtain ⟨hval, hrange⟩ | hval := validateUserRange_result h.res hrun.root bufPtr len false
  swap
  · rw [Prog.sat_of_stop hval]
    exact hstay
  rw [Prog.sat_of_ok hval]
  obtain ⟨hval', hout⟩ | ⟨s, hval'⟩ := validateOptional_result h.res hrun.root outPtr
  swap
  · rw [Prog.sat_of_stop hval']
    exact hstay
  rw [Prog.sat_of_ok hval']
  refine writeChunks_sat h hrange (by omega) (by omega) ?_ ?_
  · intro k' hinv hw hd hz hlen
    exact ⟨rfl, hd, ⟨hfd, hz, hlen, cur, task, hrun.current, hrun.get, hval, hval'⟩, L, hinv, hw.calm,
      fun t => by rw [hw]; rfl⟩
  · intro n k' hinv hw
    have hmail : SameMail k k' := fun t => by rw [hw]; rfl
    have hcur : k'.sched.current = k.sched.current := by rw [hw]
    rw [Prog.sat_ite]
    refine ⟨fun hne => ?_, fun _ => ⟨L, hinv, hw.calm, hmail⟩⟩
    obtain ⟨hal, hrange'⟩ := hout hne
    have hrange'' : UserRange L k'.machine k'.machine.cr3 outPtr 8 true := by
      rw [hw]
      exact hrange'
    exact copyVal_after hinv hal hne hrange'' hw.calm hmail hcur

end Write

section Frames

variable {L' : Layout} {f : ℕ}

/-- The invariant from its part about resources, when the tasks keep all but handles. -/
theorem KInv.rebuild (h : KInv B L k) (hres : ResInv B L' k') (hregs : Regs k.machine k'.machine)
    (hroot : ∀ id r, k.rootOf id = some r → k'.rootOf id = some r)
    (hcur : k'.sched.current = k.sched.current) (hready : k'.sched.ready = k.sched.ready)
    (hpending : k'.pending = k.pending) (hcores : SameCores k k') (hhandles : HandlesInv k')
    (hacc : k'.accesses = k.accesses) : KInv B L' k' :=
  ⟨hres, h.tasks.congr hregs.cr3 hregs.kernelStackTop hroot hcur hready hpending hcores,
    hhandles, h.logs.congr hacc hregs.handBacks⟩

theorem Taken.calm (h : Taken noPages L k.machine f k'.machine) (o : Owner)
    (hd : k'.debugAssertions = k.debugAssertions) (ho : Others k k') :
    Calm L k (L.set f (.data o)) k' := by
  refine ⟨rfl, ?_, fun b hb => .inl (h.only.regs.handBacks ▸ hb), hd, ho⟩
  intro g p hg
  have hgf : g ≠ f := by
    rintro rfl
    rw [h.free] at hg
    cases hg
  exact ⟨by rw [Layout.set_role_of_ne L hgf, hg], h.words g (by simp [hg]) hgf⟩

theorem Given.calm (h : Given noPages L k.machine f k'.machine) {o : Owner}
    (hf : L.role f = .data o) (hd : k'.debugAssertions = k.debugAssertions) (ho : Others k k') :
    Calm L k (L.set f .free) k' := by
  refine ⟨rfl, ?_, fun b hb => .inl (h.only.regs.handBacks ▸ hb), hd, ho⟩
  intro g p hg
  have hgf : g ≠ f := by
    rintro rfl
    rw [hf] at hg
    cases hg
  exact ⟨by rw [Layout.set_role_of_ne L hgf, hg], h.words g (by simp [hg])⟩

/-- An allocation that is undone. -/
theorem Taken.undo {m m₁ m₂ : Machine} (h : Taken noPages L m f m₁)
    (hg : Given noPages (L.set f (.data .spare)) m₁ f m₂) :
    MemInv noPages L m₂ ∧ Regs m m₂ ∧
      (∀ g, L.role g ≠ .storage → L.role g ≠ .free → m₂.mem.word g = m.mem.word g) ∧
      ∀ r q e, LeafAt L m₂ r q e ↔ LeafAt L m r q e := by
  have hback : (L.set f (.data .spare)).set f .free = L := by
    rw [Layout.set_set]
    exact Layout.set_eq L h.free
  have hinv := hg.inv
  have hleaf := hg.leaf
  rw [hback] at hinv hleaf
  refine ⟨hinv, h.only.regs.trans hg.only.regs, ?_,
    fun r q e => (hleaf r q e).trans (h.leaf r q e)⟩
  intro g hs hf
  have hgf : g ≠ f := by
    rintro rfl
    exact hf h.free
  rw [hg.words g (by rwa [Layout.set_role_of_ne L hgf]), h.words g hs hgf]

/-- Memory that was taken and given back. -/
theorem KInv.restored (h : KInv B L k) {m : Machine} (hinv : MemInv noPages L m)
    (hregs : Regs k.machine m)
    (hwords : ∀ g, L.role g ≠ .storage → L.role g ≠ .free →
      m.mem.word g = k.machine.mem.word g)
    (hleaf : ∀ r q e, LeafAt L m r q e ↔ LeafAt L k.machine r q e) :
    Refused B L k { k with machine := m } := by
  refine ⟨h.rebuild ?_ hregs (fun _ _ h => h) rfl rfl rfl (fun _ => rfl) ?_ rfl, hregs, hwords, rfl⟩
  · exact h.res.memory hinv (RolesKept.refl L) hregs.sameTables hleaf
      ⟨rfl, rfl, fun _ => rfl, rfl⟩ (fun _ _ => rfl)
  · exact h.handles.same (fun _ => rfl) (fun _ _ => rfl)

theorem requireOutHandle_sat {Q : Unit → Kernel → Prop} {E : Stop → Kernel → Prop}
    {outHandle : ℕ} (hok : outHandle ≠ 0 → outHandle % 8 = 0 → Q () k)
    (hbad : E (.status .invalidArgument) k) : (requireOutHandle outHandle).Sat k Q E := by
  simp only [requireOutHandle, Prog.sat_bind, sat_require]
  exact ⟨fun hne => ⟨fun hal => hok hne hal, fun _ => hbad⟩, fun _ => hbad⟩

theorem sysFrameAlloc_sat (h : KInv B L k) (outHandle : ℕ) :
    (sysFrameAlloc outHandle).Sat k (fun _ => After B L k) (Stops B L k null) := by
  obtain ⟨cur, task, hrun⟩ := h.tasks.current
  have hstay : Refused B L k k := Refused.refl h
  rw [sysFrameAlloc, Prog.sat_bind]
  refine requireOutHandle_sat (fun hne hal => ?_) hstay
  rw [Prog.sat_bind, sat_selfTask hrun, Prog.sat_bind]
  refine validateUserRange_sat h.res hrun.root (fun hrange => ?_) hstay
  rw [Prog.sat_bind, sat_onMachine]
  refine h.res.mem.alloc_sat (fun _ => hstay) ?_
  intro f m₁ ht _
  have hregs := ht.only.regs
  have hrun₁ : Running { k with machine := m₁ } cur task :=
    ⟨hrun.current, hrun.get, hrun.root.trans (by rw [hregs.cr3]),
      hregs.kernelStackTop.trans hrun.top⟩
  simp only [Prog.sat_bind]
  rw [sat_selfTask hrun₁]
  cases hpush : HandleTable.push task.handles
      ⟨.frame f, Rights.READ ||| Rights.WRITE ||| Rights.EXECUTE ||| Rights.MAP⟩ with
  | none =>
    simp only [Prog.sat_bind, sat_onMachine, sat_fail]
    refine ht.inv.dealloc_sat (Layout.set_role_self L f _) ?_
    intro m₂ hg
    obtain ⟨hinv, hregs₂, hwords, hleaf⟩ := ht.undo hg
    exact h.restored hinv hregs₂ hwords hleaf
  | some pushed =>
    obtain ⟨i, handles⟩ := pushed
    obtain ⟨hi, hempty, rfl⟩ := push_some hpush
    simp only [Prog.sat_bind]
    rw [sat_setHandles hrun₁]
    obtain ⟨k₂, hk₂⟩ : ∃ k₂, k₂ = Kernel.putTask { k with machine := m₁ } cur
        { task with handles := task.handles.set i (some ⟨.frame f,
          Rights.READ ||| Rights.WRITE ||| Rights.EXECUTE ||| Rights.MAP⟩) } := ⟨_, rfl⟩
    rw [← hk₂]
    have hm₂ : k₂.machine = m₁ := by rw [hk₂]; rfl
    have hcores : SameCores k k₂ := by
      rw [hk₂]
      exact Kernel.putTask_cores (k := { k with machine := m₁ }) hrun.get _
    have ht₂ : Taken noPages L k.machine f k₂.machine := by rwa [hm₂]
    have hset : ∀ t j, k₂.handleAt t j = if t = cur ∧ j = i then some ⟨.frame f,
        Rights.READ ||| Rights.WRITE ||| Rights.EXECUTE ||| Rights.MAP⟩ else k.handleAt t j := by
      rw [hk₂]
      exact Kernel.putTask_handleAt (k := { k with machine := m₁ }) hrun.get hi _
    have hslot : k.handleAt cur i = none := by rw [hrun.handleAt, hempty]
    have hinv₂ : KInv B (L.set f (.data (.handle cur i))) k₂ := by
      refine h.rebuild (h.res.frameAlloc (t := cur) (i := i) ht₂ hslot ?_ hset)
        (hm₂ ▸ hregs) ?_ ?_ ?_ ?_ hcores ?_ ?_
      · exact ⟨by rw [hk₂]; rfl, by rw [hk₂]; rfl, hcores.stackOf, by rw [hk₂]; rfl⟩
      · rw [hk₂]
        exact fun _ _ h => h
      pick_goal 4
      · exact h.handles.setHandle hcores hset (by simp [hslot]) (by simp [hslot]) (by simp)
      all_goals rw [hk₂]; rfl
    have hcalm : Calm L k (L.set f (.data (.handle cur i))) k₂ := by
      refine ht₂.calm _ (by rw [hk₂]; rfl) (.own hrun.current (by rw [hk₂]; exact fun _ _ h => h) ?_)
      intro t ht
      rw [hk₂, Kernel.putTask_get (k := { k with machine := m₁ }) hrun.get, if_neg ht]
    refine copyVal_after hinv₂ hal hne ?_ hcalm hcores.mail (by rw [hk₂]; rfl)
    rw [hm₂, hregs.cr3]
    exact hrange.congr hregs.paging fun q e _ _ _ hl => (ht.leaf_owned _ _ q e).mpr hl

theorem sysFrameDealloc_sat (h : KInv B L k) (frameHandleId : ℕ) :
    (sysFrameDealloc frameHandleId).Sat k (fun _ => After B L k) (Stops B L k null) := by
  obtain ⟨cur, task, hrun⟩ := h.tasks.current
  have hstay : Refused B L k k := Refused.refl h
  rw [sysFrameDealloc, Prog.sat_bind, sat_selfTask hrun]
  cases htake : HandleTable.take task.handles frameHandleId with
  | none => exact hstay
  | some taken =>
    obtain ⟨⟨object, rights⟩, handles⟩ := taken
    obtain ⟨hi, hget, rfl⟩ := take_some htake
    simp only [Prog.sat_bind]
    rw [sat_setHandles hrun]
    cases object with
    | frame f =>
      simp only [sat_onMachine]
      have hh : k.handleAt cur frameHandleId = some ⟨.frame f, rights⟩ := by
        rw [hrun.handleAt, hget]
      have hrole := h.res.pages.frames cur frameHandleId f rights hh
      refine h.res.mem.dealloc_sat hrole ?_
      intro m₁ hg
      obtain ⟨k₂, hk₂⟩ : ∃ k₂, k₂ = { Kernel.putTask k cur
        { task with handles := task.handles.set frameHandleId none } with machine := m₁ } :=
        ⟨_, rfl⟩
      rw [← hk₂]
      have hm₂ : k₂.machine = m₁ := by rw [hk₂]
      have hcores : SameCores k k₂ := by
        rw [hk₂]
        exact Kernel.putTask_cores hrun.get _
      have hg₂ : Given noPages L k.machine f k₂.machine := by rwa [hm₂]
      have hset : ∀ t j, k₂.handleAt t j =
          if t = cur ∧ j = frameHandleId then none else k.handleAt t j := by
        rw [hk₂]
        exact Kernel.putTask_handleAt hrun.get hi none
      have hothers : Others k k₂ := by
        refine .own hrun.current (by rw [hk₂]; exact fun _ _ h => h) fun t ht => ?_
        rw [hk₂]
        exact (Kernel.putTask_get hrun.get t).trans (if_neg ht)
      refine ⟨L.set f .free, h.rebuild (h.res.frameDealloc hh hg₂ ?_ hset) (hm₂ ▸ hg.only.regs) ?_
        ?_ ?_ ?_ hcores ?_ ?_, hg₂.calm hrole (by rw [hk₂]; rfl) hothers, hcores.mail⟩
      · exact ⟨by rw [hk₂]; rfl, by rw [hk₂]; rfl, hcores.stackOf, by rw [hk₂]; rfl⟩
      · rw [hk₂]
        exact fun _ _ h => h
      pick_goal 4
      · exact h.handles.setHandle hcores hset (by simp [hh]) (by simp [hh]) (by simp)
      all_goals rw [hk₂]; rfl
    | addressSpace id =>
      simp only [Prog.sat_bind]
      rw [sat_putBack hrun hget]
      exact hstay
    | mapping f id v =>
      simp only [Prog.sat_bind]
      rw [sat_putBack hrun hget]
      exact hstay
    | thread id =>
      simp only [Prog.sat_bind]
      rw [sat_putBack hrun hget]
      exact hstay

end Frames

end Dusk
