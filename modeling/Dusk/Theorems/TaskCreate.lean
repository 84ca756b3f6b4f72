import Dusk.Proofs.Views

/-! `sys_task_create` once the new task's kernel stack exists: a call that fails from then on
takes everything back, exactly when the task table had an empty slot. Otherwise the stack
is lost. -/

namespace Dusk

open Lib Radix Scheduler

variable {b : BootInfo} {B : BootPages} {L : Layout} {k k' : Kernel}
  {asHandle entry userStack outTaskHandle : ℕ}

/-- The stacks, the kernel's translations, the free frames, the tasks and the ready queue
are as before. -/
structure SpawnLeavesNothing (k k' : Kernel) : Prop where
  pool : k'.sched.stackPool = k.sched.stackPool
  translations : ∀ space, k.kernelSpace = some space → ∀ va,
    space.toPhysical k'.machine.mem va = space.toPhysical k.machine.mem va ∧
    space.mapping k'.machine.mem va = space.mapping k.machine.mem va
  frames : ∀ f, k'.machine.frameState f = k.machine.frameState f
  freeFrames : k'.machine.allocator.freeFrames = k.machine.allocator.freeFrames
  tasks : k'.sched.tasks = k.sched.tasks
  queue : k'.sched.ready.ids = k.sched.ready.ids

/-- A slot of the stack pool is in use, and the frames of a kernel stack are allocated, that
no task has. -/
structure SpawnLeaks (k k' : Kernel) : Prop where
  slot : ∃ slot, k.sched.stackPool.used slot = false ∧ ∀ s, k'.sched.stackPool.used s =
    (k.sched.stackPool.used s || decide (s = slot))
  frames : ∃ frames : ℕ → ℕ, (∀ i j, i < KERNEL_STACK_PAGES → j < KERNEL_STACK_PAGES →
    frames i = frames j → i = j) ∧ ∀ i < KERNEL_STACK_PAGES,
      k.machine.frameState (frames i) = some .free ∧
      k'.machine.frameState (frames i) = some .allocated
  tasks : k'.sched.tasks = k.sched.tasks
  queue : k'.sched.ready.ids = k.sched.ready.ids

/-- Nothing is left of a task that has been taken down again. -/
structure SpawnUndone (L : Layout) (k k' : Kernel) : Prop where
  mem : MemInv noPages L k'.machine
  tables : SameTables k.machine k'.machine
  bitmap : k'.machine.allocator.bitmap = k.machine.allocator.bitmap
  leaf : ∀ r q e, LeafAt L k'.machine r q e ↔ LeafAt L k.machine r q e
  pool : k'.sched.stackPool = k.sched.stackPool
  tasks : k'.sched.tasks = k.sched.tasks
  queue : k'.sched.ready.ids = k.sched.ready.ids

theorem KernelStackPool.ext_used {pool pool' : KernelStackPool}
    (h : ∀ s, pool'.used s = pool.used s) : pool' = pool := by
  cases pool
  cases pool'
  exact congrArg KernelStackPool.mk (BitVec.eq_of_getLsbD_eq fun i _ => h i)

theorem spawn_undone {L₁ L₃ : Layout} {k₁ k₂ k₃ : Kernel} {t : Tcb} {asId id slot : ℕ}
    (h : KInv B L k)
    (hchange : StackChange L k L₁ k₁) (htaken : StackTaken L k slot L₁ k₁)
    (hs : SchedInv k₁.sched) (hadd : Added k₁ asId (stackAt slot) id t k₂)
    (hrem : Removed k₂ id k₃) (hret : StackReturned L₁ k₂ slot L₃ k₃) : SpawnUndone L k k₃ := by
  obtain ⟨frames, hmade⟩ := htaken.made
  obtain ⟨hb, hgone⟩ := hret.gone
  have hm : k₂.machine = k₁.machine := by rw [hadd.only]
  have hpool₂ : k₂.sched.stackPool = k₁.sched.stackPool := by rw [hadd.only]
  rw [hm] at hgone
  have hrestored := (hmade.withHandBacks hb).undo (h.res.mem.withHandBacks hb)
    (by rw [SlotGone, hmade.added.edit.kroot] at hgone; exact hgone)
  refine ⟨hrestored.inv, ⟨hrestored.edit.regs.paging, hrestored.edit.regs.directMap⟩,
    hrestored.edit.regs.bitmap, hrestored.leaf, ?_, ?_, ?_⟩
  · refine KernelStackPool.ext_used fun s => ?_
    rw [hret.pool, hpool₂, htaken.pool]
    by_cases hslot : s = slot
    · rw [hslot, htaken.unused]
      simp
    · rw [decide_eq_false hslot, Bool.or_false, Bool.not_false, Bool.and_true]
  · rw [hrem.only, hadd.only]
    show (k₁.sched.tasks.set id (some t)).set id none = k.sched.tasks
    rw [Slots.set_set, Slots.set_self hadd.empty, hchange.only]
  · have hnot : id ∉ k₁.sched.ready.ids := by
      rw [hs.ready, Scheduler.stateOf, hadd.empty]
      simp
    have hqueue : k₁.sched.ready.ids = k.sched.ready.ids := by rw [hchange.only]
    rw [hrem.queue, hadd.queue, List.erase_append_right _ hnot, List.erase_cons_head,
      List.append_nil, hqueue]

theorem SpawnUndone.leavesNothing (h : SpawnUndone L k k') (hk : KInv B L k) :
    SpawnLeavesNothing k k' := by
  have hroot : L.role L.kroot = .table L.kroot [] := hk.res.mem.kroot
  have hcount : k'.machine.frameCount = k.machine.frameCount := by
    simp only [Machine.frameCount, h.bitmap]
  refine ⟨h.pool, ?_, ?_, ?_, h.tasks, h.queue⟩
  · intro space hspace va
    rw [hk.res.spaces.kernel] at hspace
    cases hspace
    have hreads := reads_congr (a := va) hk.res.mem h.mem h.tables rfl hroot hroot
      (fun _ => .inl rfl) (fun e => h.leaf _ _ e)
    rw [h.tables.table] at hreads
    exact hreads
  · intro f
    exact hk.res.mem.alloc.frameState_congr h.mem.alloc hcount rfl
  · rw [h.mem.alloc.count, hk.res.mem.alloc.count, hcount]

theorem StackTaken.leaks {L₁ : Layout} {k₁ : Kernel} {slot : ℕ} (htaken : StackTaken L k slot L₁ k₁)
    (hchange : StackChange L k L₁ k₁) (h : ResInv B L k) (h₁ : ResInv B L₁ k₁) :
    SpawnLeaks k k₁ := by
  obtain ⟨frames, hmade⟩ := htaken.made
  refine ⟨⟨slot, htaken.unused, htaken.pool⟩, ⟨frames, ?_, ?_⟩, ?_, ?_⟩
  · intro i j hi hj he
    exact hmade.frames_inj owner_stack_injective hi hj he
  · intro i hi
    rw [h.mem.alloc.frameState_free, h₁.mem.alloc.frameState_allocated, hmade.owned i hi]
    exact ⟨hmade.free i hi, rfl⟩
  · rw [hchange.only]
  · rw [hchange.only]

theorem SpawnLeaks.pool_ne (h : SpawnLeaks k k') : k'.sched.stackPool ≠ k.sched.stackPool := by
  obtain ⟨slot, hunused, hpool⟩ := h.slot
  intro hsame
  have hused := hpool slot
  rw [hsame, hunused] at hused
  simp at hused

/-- What the rest of the call does once the stack is made. -/
theorem taskCreate_outcome (h : KInv B L k)
    (hgranted : StackGranted k asHandle entry userStack outTaskHandle) :
    (sysTaskCreate asHandle entry userStack outTaskHandle).Sat k
      (fun _ _ => k.sched.tasks.firstEmpty ≠ none)
      (fun stop k' => (∃ s, stop = .status s) ∧
        ((k.sched.tasks.firstEmpty = none ∧ stop = .status .outOfMemory ∧ SpawnLeaks k k') ∨
          (k.sched.tasks.firstEmpty ≠ none ∧ SpawnUndone L k k'))) := by
  obtain ⟨cur, task, hrun⟩ := h.tasks.current
  obtain ⟨asId, checked, space, stack, k₁, hcheck, hspace, hstack⟩ := hgranted
  have hchecked := (checkTaskCreate_sat (Q := fun asId k' => k' = k ∧ (∃ r, k.rootOf asId = some r) ∧
      outTaskHandle ≠ 0 ∧ outTaskHandle % 8 = 0 ∧
      UserRange L k.machine k.machine.cr3 outTaskHandle 8 true)
    (E := fun _ _ => True) h hrun asHandle entry userStack outTaskHandle
    (fun asId r hr hne hal hrange => ⟨rfl, ⟨r, hr⟩, hne, hal, hrange⟩) (fun _ => trivial)).of_ok hcheck
  obtain ⟨hsame, ⟨r, hr⟩, hne, hal, hrange⟩ := hchecked
  rw [hsame] at hcheck hspace hstack
  rw [h.res.spaces.kernel] at hspace
  cases hspace
  obtain ⟨slot, L₁, rfl, hres₁, hchange, hready, htaken, hfresh⟩ :=
    (allocateKernelStack_sat (Q := fun res k' => ∀ s, res = .ok s → ∃ slot L', s = stackAt slot ∧
        ResInv B L' k' ∧ StackChange L k L' k' ∧ StackReady L' k'.machine slot ∧
        StackTaken L k slot L' k' ∧ ∀ t s, k'.stackOf t = some s → s ≠ stackAt slot)
      (E := fun _ _ => True) h.res
      (fun slot L' k' hres hchange hready htaken hfresh s hs =>
        ⟨slot, L', (Except.ok.inj hs).symm, hres, hchange, hready, htaken, hfresh⟩)
      (fun err L' k' _ _ s hs => by cases hs)).of_ok hstack stack rfl
  have hk₁ := hchange.kinv h hres₁
  have hr₁ : k₁.rootOf asId = some r := by
    rw [hchange.only]
    exact hr
  have hfirst₁ : k₁.sched.tasks.firstEmpty = k.sched.tasks.firstEmpty := by rw [hchange.only]
  have hrun₁ : Running k₁ cur task := by
    refine ⟨by rw [hchange.only]; exact hrun.current, by rw [hchange.tasks, hrun.get], ?_, ?_⟩
    · rw [hchange.regs.cr3, hchange.only]
      exact hrun.root
    · rw [hchange.regs.kernelStackTop, hrun.top]
  rw [sysTaskCreate, Prog.sat_bind, Prog.sat_of_ok hcheck, Prog.sat_bind]
  simp only [kernelAddressSpace, Prog.sat_bind, Prog.sat_get, h.res.spaces.kernel,
    Prog.sat_expect_some]
  rw [Prog.sat_of_ok hstack]
  simp only [newUser_eq, Prog.sat_expect_some, Prog.sat_bind]
  refine addTask_added hk₁.tasks.sched (newUser_eq asId _ entry userStack) ?_ ?_
  · intro hfull
    rw [hfirst₁] at hfull
    exact ⟨⟨_, rfl⟩, .inl ⟨hfull, rfl, htaken.leaks hchange h.res hres₁⟩⟩
  · intro id t k₂ hadd
    have hroom : k.sched.tasks.firstEmpty ≠ none := by
      rw [← hfirst₁, hadd.first]
      simp
    have hk₂ := hadd.kinv hk₁ hr₁ hready htaken.used hfresh
    have hrun₂ := hadd.running hrun₁
    simp only [Prog.sat_bind]
    rw [sat_selfTask hrun₂]
    cases hpush : HandleTable.push task.handles
        ⟨.thread id, Rights.READ ||| Rights.WRITE ||| Rights.EXECUTE⟩ with
    | none =>
      simp only [Prog.sat_bind]
      refine hadd.removeTask_sat hk₁ hk₂ hrun₁ ?_
      intro slot' L₃ k₃ _ hrem hslot hret
      rw [hadd.stack] at hslot
      cases stackAt_inj hslot
      exact ⟨⟨_, rfl⟩, .inr ⟨hroom, spawn_undone h hchange htaken hk₁.tasks.sched hadd hrem hret⟩⟩
    | some pushed =>
      obtain ⟨i, handles⟩ := pushed
      obtain ⟨hi, hempty, rfl⟩ := push_some hpush
      simp only [Prog.sat_bind]
      rw [sat_setHandles hrun₂]
      refine copyValToUser_sat (handOver_kinv hk₂ hrun₂ (by rw [hadd.get, if_pos rfl]) hi hempty)
        hal hne (hadd.userRange (hchange.userRange hrange)) ?_
      intro _ _ _
      exact hroom

theorem KInv.leavesNothing_iff (h : KInv B L k)
    (hgranted : StackGranted k asHandle entry userStack outTaskHandle) :
    (∀ s k', sysTaskCreate asHandle entry userStack outTaskHandle k = .stop (.status s) k' →
      SpawnLeavesNothing k k') ↔ k.sched.tasks.firstEmpty ≠ none := by
  have hout := taskCreate_outcome h hgranted
  constructor
  · intro hback hfull
    cases hcall : sysTaskCreate asHandle entry userStack outTaskHandle k with
    | ok _ _ => exact hout.of_ok hcall hfull
    | stop stop k' =>
      obtain ⟨⟨s, rfl⟩, ⟨_, _, hleaks⟩ | ⟨hroom, _⟩⟩ := hout.of_stop hcall
      · exact hleaks.pool_ne (hback s k' hcall).pool
      · exact hroom hfull
  · intro hroom s k' hstop
    obtain ⟨_, ⟨hfull, _⟩ | ⟨_, hundone⟩⟩ := hout.of_stop hstop
    · exact absurd hfull hroom
    · exact hundone.leavesNothing h

/-- In every reachable state, a call of `sys_task_create` that has made the kernel stack
leaves nothing behind when it fails, exactly when the task table has an empty slot. -/
theorem failed_create_leaves_nothing_iff (hok : b.Ok) (hr : Reachable b k)
    (hgranted : StackGranted k asHandle entry userStack outTaskHandle) :
    (∀ s k', sysTaskCreate asHandle entry userStack outTaskHandle k = .stop (.status s) k' →
      SpawnLeavesNothing k k') ↔ k.sched.tasks.firstEmpty ≠ none := by
  obtain ⟨B, L, h⟩ := hr.inv hok
  exact h.leavesNothing_iff hgranted

/-- So it takes everything back while there is an empty slot; and with a full task table it
always fails, and a kernel stack is lost. -/
theorem taskCreate_rollback (hok : b.Ok) (hr : Reachable b k)
    (hgranted : StackGranted k asHandle entry userStack outTaskHandle) :
    ((∀ s k', sysTaskCreate asHandle entry userStack outTaskHandle k = .stop (.status s) k' →
      SpawnLeavesNothing k k') ↔ k.sched.tasks.firstEmpty ≠ none) ∧
    (k.sched.tasks.firstEmpty = none → ∃ k',
      sysTaskCreate asHandle entry userStack outTaskHandle k = .stop (.status .outOfMemory) k' ∧
      SpawnLeaks k k') := by
  obtain ⟨B, L, h⟩ := hr.inv hok
  refine ⟨h.leavesNothing_iff hgranted, fun hfull => ?_⟩
  have hout := taskCreate_outcome h hgranted
  cases hcall : sysTaskCreate asHandle entry userStack outTaskHandle k with
  | ok _ _ => exact absurd hfull (hout.of_ok hcall)
  | stop stop k' =>
    obtain ⟨_, ⟨_, rfl, hleaks⟩ | ⟨hroom, _⟩⟩ := hout.of_stop hcall
    · exact ⟨k', rfl, hleaks⟩
    · exact absurd hfull hroom

section Runs

/-- The call fails after the kernel stack is made. -/
def failsWithStack (args : ℕ × ℕ × ℕ × ℕ) (k : Kernel) : Bool :=
  match checkTaskCreate args.1 args.2.1 args.2.2.1 args.2.2.2 k with
  | .ok _ checked =>
    match checked.kernelSpace.map fun space => allocateKernelStack space checked with
    | some (.ok (.ok _) _) =>
      match sysTaskCreate args.1 args.2.1 args.2.2.1 args.2.2.2 k with
      | .stop (.status _) _ => true
      | _ => false
    | _ => false
  | .stop _ _ => false

theorem failsWithStack_spec {args : ℕ × ℕ × ℕ × ℕ} (h : failsWithStack args k = true) :
    StackGranted k args.1 args.2.1 args.2.2.1 args.2.2.2 ∧
      ∃ s k', sysTaskCreate args.1 args.2.1 args.2.2.1 args.2.2.2 k = .stop (.status s) k' := by
  unfold failsWithStack at h
  split at h
  · rename_i asId checked hcheck
    split at h
    · rename_i stack k₁ hstack
      split at h
      · rename_i s k' hcall
        obtain ⟨space, hspace, hstack⟩ := Option.map_eq_some_iff.mp hstack
        exact ⟨⟨asId, checked, space, stack, k₁, hcheck, hspace, hstack⟩, s, k', hcall⟩
      · cases h
    · cases h
  · cases h

/-- The arguments of a call that makes a task like the first one. -/
def spawnArgs : ℕ × ℕ × ℕ × ℕ := (0, 0x400000, 0x7FFF_FFFF_F000, 0x7FFF_FFFF_E000)

theorem overfull_fails : (((smallBoot []).started.bind
    (run (.resume :: List.replicate 30 (.syscall ⟨6, 0x7FFF_FFFF_E000, 0, 0, 0, 0⟩)))).any
      fun r => failsWithStack spawnArgs r.1 && r.1.sched.tasks.firstEmpty.isSome) = true := by
  decide +kernel

theorem overfull_reachable : ∃ k, Reachable (smallBoot []) k ∧
    StackGranted k 0 0x400000 0x7FFF_FFFF_F000 0x7FFF_FFFF_E000 ∧
    k.sched.tasks.firstEmpty ≠ none ∧ ∃ s k',
      sysTaskCreate 0 0x400000 0x7FFF_FFFF_F000 0x7FFF_FFFF_E000 k = .stop (.status s) k' := by
  obtain ⟨k₀, k, trace, hk₀, hr, htest⟩ := run_of_any overfull_fails
  obtain ⟨hfails, hroom⟩ := Bool.and_eq_true_iff.mp htest
  obtain ⟨hgranted, hcall⟩ := failsWithStack_spec hfails
  exact ⟨k, ⟨k₀, _, trace, hk₀, hr⟩, hgranted, Option.isSome_iff_ne_none.mp hroom, hcall⟩

/-- The caller has no handle left for the new task. -/
theorem failed_create_overfull : ∃ k s k', Reachable (smallBoot []) k ∧
    sysTaskCreate 0 0x400000 0x7FFF_FFFF_F000 0x7FFF_FFFF_E000 k = .stop (.status s) k' ∧
    SpawnLeavesNothing k k' := by
  obtain ⟨k, hreach, hgranted, hroom, s, k', hcall⟩ := overfull_reachable
  exact ⟨k, s, k', hreach, hcall,
    (failed_create_leaves_nothing_iff (smallBoot_ok []) hreach hgranted).mpr hroom s k' hcall⟩

/-- A machine with two megabytes of memory. -/
def roomyBoot : BootInfo :=
  { smallBoot [] with
    memoryMap := [⟨0x8000, 0x3000, .kernelAndModules⟩, ⟨0xC000, 0x1000, .kernelAndModules⟩,
      ⟨0x10000, 0x1F0000, .usable⟩] }

theorem roomyBoot_ok : roomyBoot.Ok where
  apart := by simp [roomyBoot, MemoryRegion.Apart]
  physical := by simp [roomyBoot, smallBoot, PagingConfig.physicalAddressLimit]
  upper := by norm_num [roomyBoot, smallBoot]
  direct := by simp [roomyBoot, smallBoot, KERNEL_STACK_BASE]
  image := by simp [roomyBoot, smallBoot]
  text := by norm_num [roomyBoot, smallBoot]
  archive := by
    refine ⟨by norm_num [roomyBoot, smallBoot], ⟨0xC000, 0x1000, .kernelAndModules⟩,
      by simp [roomyBoot], rfl, ?_⟩
    simp [roomyBoot, smallBoot]

/-- The first task makes as many tasks as it has room for handles, and the second one makes
the last two that the task table has room for. -/
def crowd : List Action :=
  .resume :: (List.replicate 29 (.syscall ⟨11, 0, 0x400000, 0x7FFF_FFFF_F000, 0x7FFF_FFFF_E000, 0⟩) ++
    [.syscall ⟨1, 0, 0, 0, 0, 0⟩, .resume,
      .syscall ⟨11, 0, 0x400000, 0x7FFF_FFFF_F000, 0x7FFF_FFFF_E000, 0⟩,
      .syscall ⟨11, 0, 0x400000, 0x7FFF_FFFF_F000, 0x7FFF_FFFF_E000, 0⟩])

theorem crowd_fails : ((roomyBoot.started.bind (run crowd)).any fun r =>
    failsWithStack spawnArgs r.1 && r.1.sched.tasks.firstEmpty.isNone) = true := by
  decide +kernel

theorem crowd_reachable : ∃ k, Reachable roomyBoot k ∧
    StackGranted k 0 0x400000 0x7FFF_FFFF_F000 0x7FFF_FFFF_E000 ∧
    k.sched.tasks.firstEmpty = none ∧ ∃ s k',
      sysTaskCreate 0 0x400000 0x7FFF_FFFF_F000 0x7FFF_FFFF_E000 k = .stop (.status s) k' := by
  obtain ⟨k₀, k, trace, hk₀, hr, htest⟩ := run_of_any crowd_fails
  obtain ⟨hfails, hfull⟩ := Bool.and_eq_true_iff.mp htest
  obtain ⟨hgranted, hcall⟩ := failsWithStack_spec hfails
  exact ⟨k, ⟨k₀, _, trace, hk₀, hr⟩, hgranted, Option.isNone_iff_eq_none.mp hfull, hcall⟩

/-- A call that fails because of the task table keeps the stack. -/
theorem failed_create_keeps_stack : ∃ k s k', Reachable roomyBoot k ∧
    StackGranted k 0 0x400000 0x7FFF_FFFF_F000 0x7FFF_FFFF_E000 ∧
    sysTaskCreate 0 0x400000 0x7FFF_FFFF_F000 0x7FFF_FFFF_E000 k = .stop (.status s) k' ∧
    ¬ SpawnLeavesNothing k k' := by
  obtain ⟨k, hreach, hgranted, hfull, s, k', hcall⟩ := crowd_reachable
  obtain ⟨B, L, h⟩ := hreach.inv roomyBoot_ok
  obtain ⟨_, ⟨_, _, hleaks⟩ | ⟨hroom, _⟩⟩ := (taskCreate_outcome h hgranted).of_stop hcall
  · exact ⟨k, s, k', hreach, hgranted, hcall, fun hback => hleaks.pool_ne hback.pool⟩
  · exact absurd hfull hroom

/-- The task table is full. -/
theorem taskCreate_rollback_crowd : ∃ k k', Reachable roomyBoot k ∧
    StackGranted k 0 0x400000 0x7FFF_FFFF_F000 0x7FFF_FFFF_E000 ∧
    sysTaskCreate 0 0x400000 0x7FFF_FFFF_F000 0x7FFF_FFFF_E000 k =
      .stop (.status .outOfMemory) k' ∧ SpawnLeaks k k' := by
  obtain ⟨k, hreach, hgranted, hfull, _⟩ := crowd_reachable
  obtain ⟨k', hcall, hleaks⟩ := (taskCreate_rollback roomyBoot_ok hreach hgranted).2 hfull
  exact ⟨k, k', hreach, hgranted, hcall, hleaks⟩

end Runs

end Dusk
