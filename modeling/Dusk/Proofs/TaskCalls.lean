import Dusk.Proofs.Ipc

/-! `sys_task_create`: the only syscall that edits the kernel's own half. -/

namespace Dusk

open Lib Radix Scheduler

variable {B : BootPages} {L L' : Layout} {k k' k'' : Kernel} {cur id : ℕ} {task t : Tcb}

/-- A new task takes an empty slot. -/
theorem TasksInv.add (h : TasksInv k) (hempty : k.sched.tasks.get id = none)
    (hget : ∀ j, k'.sched.tasks.get j = if j = id then some t else k.sched.tasks.get j)
    (hs : SchedInv k'.sched) (hhome : ∃ r, k.rootOf t.asId = some r) (hmail : t.mailbox.Ok)
    (hsus : t.Suspended) (hm : k'.machine = k.machine) (hspaces : k'.spaces = k.spaces)
    (hcur : k'.sched.current = k.sched.current) (hpend : k'.pending = k.pending) :
    TasksInv k' := by
  have hroot : ∀ i, k'.rootOf i = k.rootOf i := fun i => by
    rw [Kernel.rootOf, hspaces, Kernel.rootOf]
  have hall : ∀ j u, k'.sched.tasks.get j = some u → u = t ∨ k.sched.tasks.get j = some u := by
    intro j u hu
    rw [hget] at hu
    split_ifs at hu with hj
    · cases hu
      exact .inl rfl
    · exact .inr hu
  have hother : ∀ {j u}, k.sched.tasks.get j = some u → k'.sched.tasks.get j = some u := by
    intro j u hu
    rw [hget, if_neg, hu]
    rintro rfl
    rw [hempty] at hu
    cases hu
  refine ⟨hs, ?_, ?_, ?_, ?_, ?_⟩
  · obtain ⟨c, u, hc, hu, hr, htop⟩ := h.cpu
    exact ⟨c, u, by rw [hcur, hc], hother hu, by rw [hroot, hm, hr], by rw [hm, htop]⟩
  · intro j u hu
    rw [hroot]
    rcases hall j u hu with rfl | hu
    · exact hhome
    · exact h.homes j u hu
  · intro j u hu
    rcases hall j u hu with rfl | hu
    · exact hmail
    · exact h.mail j u hu
  · intro j u hu
    rcases hall j u hu with rfl | hu
    · exact hsus
    · exact h.suspended j u hu
  · intro c i u hp hc hu
    rw [hpend] at hp
    rw [hcur] at hc
    obtain ⟨u', hu', _⟩ := h.sched.current_get hc
    rw [hother hu'] at hu
    cases hu
    exact h.pending c i _ hp hc hu'

/-- A task that is not running goes. -/
theorem TasksInv.drop (h : TasksInv k) (hne : k.sched.current ≠ some id)
    (hget : ∀ j, k'.sched.tasks.get j = if j = id then none else k.sched.tasks.get j)
    (hs : SchedInv k'.sched) (hcr3 : k'.machine.cr3 = k.machine.cr3)
    (htop : k'.machine.kernelStackTop = k.machine.kernelStackTop)
    (hspaces : k'.spaces = k.spaces)
    (hcur : k'.sched.current = k.sched.current) (hpend : k'.pending = k.pending) :
    TasksInv k' := by
  have hroot : ∀ i, k'.rootOf i = k.rootOf i := fun i => by
    rw [Kernel.rootOf, hspaces, Kernel.rootOf]
  have hall : ∀ {j u}, k'.sched.tasks.get j = some u → k.sched.tasks.get j = some u := by
    intro j u hu
    rw [hget] at hu
    split_ifs at hu with hj
    exact hu
  refine ⟨hs, ?_, ?_, ?_, ?_, ?_⟩
  · obtain ⟨c, u, hc, hu, hr, hu'⟩ := h.cpu
    refine ⟨c, u, by rw [hcur, hc], ?_, by rw [hroot, hcr3, hr], by rw [htop, hu']⟩
    rw [hget, if_neg, hu]
    rintro rfl
    exact hne hc
  · intro j u hu
    rw [hroot]
    exact h.homes j u (hall hu)
  · exact fun j u hu => h.mail j u (hall hu)
  · exact fun j u hu => h.suspended j u (hall hu)
  · intro c i u hp hc hu
    exact h.pending c i u (hpend ▸ hp) (hcur ▸ hc) (hall hu)

/-- The caller has no room for another handle although there is room for a task. -/
def Kernel.Cramped (k : Kernel) : Prop :=
  (∃ cur task, k.sched.current = some cur ∧ k.sched.tasks.get cur = some task ∧
    task.handles.firstEmpty = none) ∧ k.sched.tasks.firstEmpty ≠ none

/-- What `sys_task_create` leaves: kernel pages are handed back only to take a task
down again that finds no place in its creator's handle table. -/
structure Spawned (k : Kernel) (cramped : Prop) (k' : Kernel) : Prop where
  mail : SameMail k k'
  debug : k'.debugAssertions = k.debugAssertions
  handBacks : ∀ b ∈ k'.machine.handBacks, b ∈ k.machine.handBacks ∨ cramped
  others : Others k k'

theorem Spawned.refl (k : Kernel) (cramped : Prop) : Spawned k cramped k :=
  ⟨SameMail.refl k, rfl, fun _ hb => .inl hb, .tasks rfl rfl⟩

theorem Spawned.trans {cramped : Prop} (h : Spawned k cramped k')
    (h' : Spawned k' cramped k'') (hcur : k'.sched.current = k.sched.current) :
    Spawned k cramped k'' := by
  refine ⟨h.mail.trans h'.mail, h'.debug.trans h.debug, ?_, h.others.trans h'.others hcur⟩
  intro b hb
  rcases h'.handBacks b hb with hb | hc
  · exact h.handBacks b hb
  · exact .inr hc

theorem Spawned.quiet {cramped : Prop} (hm : SameMail k k')
    (hd : k'.debugAssertions = k.debugAssertions)
    (hb : k'.machine.handBacks = k.machine.handBacks) (ho : Others k k') : Spawned k cramped k' :=
  ⟨hm, hd, fun _ h => .inl (hb ▸ h), ho⟩

section Checks

variable {E : Stop → Kernel → Prop}

theorem checkTaskHandles_sat {Q : ℕ → Kernel → Prop} {asHandle : ℕ}
    (hok : ∀ asId rights, task.handles.get asHandle = some ⟨.addressSpace asId, rights⟩ →
      Q asId k) (hbad : ∀ s, E (.status s) k) : (checkTaskHandles task asHandle).Sat k Q E := by
  rw [checkTaskHandles]
  cases has : task.handles.get asHandle with
  | none => exact hbad _
  | some handle =>
    obtain ⟨object, rights⟩ := handle
    cases object with
    | addressSpace asId =>
      simp only [Prog.sat_bind, sat_require]
      exact ⟨fun _ => hok asId rights has, fun _ => hbad _⟩
    | frame _ => exact hbad _
    | mapping _ _ _ => exact hbad _
    | thread _ => exact hbad _

theorem checkTaskCreate_sat {Q : ℕ → Kernel → Prop} (h : KInv B L k) (hrun : Running k cur task)
    (asHandle entry userStack outTaskHandle : ℕ)
    (hok : ∀ asId r, k.rootOf asId = some r → outTaskHandle ≠ 0 → outTaskHandle % 8 = 0 →
      UserRange L k.machine k.machine.cr3 outTaskHandle 8 true → Q asId k)
    (hbad : ∀ s, E (.status s) k) :
    (checkTaskCreate asHandle entry userStack outTaskHandle).Sat k Q E := by
  rw [checkTaskCreate]
  simp only [Prog.sat_bind, sat_require]
  refine ⟨fun hne => ⟨fun _ => ⟨fun hal => ?_, fun _ => hbad _⟩, fun _ => hbad _⟩, fun _ => hbad _⟩
  rw [sat_selfTask hrun]
  refine validateUserRange_sat h.res hrun.root (fun hrange => ?_) (hbad _)
  refine checkTaskHandles_sat (fun asId rights has => ?_) hbad
  obtain ⟨r, hr⟩ := h.res.pages.names cur asHandle asId rights (by rw [hrun.handleAt, has])
  obtain ⟨space, hs, _⟩ := Kernel.rootOf_some.mp hr
  simp only [Prog.sat_get]
  refine ⟨fun _ => ?_, fun _ => hbad _⟩
  cases hsub : checkedSub userStack 1 with
  | none => exact hbad _
  | some stackProbe =>
    simp only [Prog.sat_bind]
    refine validateUserRange_sat h.res hr (fun _ => ?_) (hbad _)
    simp only [Prog.sat_get, hs, Prog.sat_bind, sat_require]
    exact ⟨fun _ => hok asId r hr hne.2.2 hal hrange, fun _ => hbad _⟩

end Checks

section Stacks

/-- Only the kernel's own half and the pool of kernel stacks differ. -/
structure StackChange (L : Layout) (k : Kernel) (L' : Layout) (k' : Kernel) : Prop where
  only : k' = { k with
    machine := k'.machine
    sched := { k.sched with stackPool := k'.sched.stackPool } }
  regs : Regs k.machine k'.machine
  user : ∀ r q e i, q.getLast? = some i → i < 256 →
    (LeafAt L' k'.machine r q e ↔ LeafAt L k.machine r q e)

theorem StackChange.tasks (h : StackChange L k L' k') (i : ℕ) :
    k'.sched.tasks.get i = k.sched.tasks.get i := by rw [h.only]

theorem StackChange.sameTasks (h : StackChange L k L' k') : SameTasks k k' :=
  ⟨by rw [h.only], by rw [h.only], fun t => by rw [h.only]; rfl, fun t i => by rw [h.only]; rfl⟩

theorem StackChange.spawned {cramped : Prop} (h : StackChange L k L' k') :
    Spawned k cramped k' :=
  .quiet (fun t => by rw [h.only]; rfl) (by rw [h.only]) h.regs.handBacks
    (.tasks (by rw [h.only]) (by rw [h.only]))

theorem StackChange.kinv (h : StackChange L k L' k') (hk : KInv B L k) (hres : ResInv B L' k') :
    KInv B L' k' :=
  hk.rebuild hres h.regs (by rw [h.only]; exact fun _ _ h => h) (by rw [h.only]) (by rw [h.only])
    (by rw [h.only]) (fun i => by rw [h.tasks])
    (hk.handles.same (fun i => by rw [h.tasks]) h.sameTasks.handleAt) (by rw [h.only])

/-- The kernel stack of a slot has been made. -/
structure StackTaken (L : Layout) (k : Kernel) (slot : ℕ) (L' : Layout) (k' : Kernel) : Prop where
  unused : k.sched.stackPool.used slot = false
  pool : ∀ s, k'.sched.stackPool.used s = (k.sched.stackPool.used s || decide (s = slot))
  made : ∃ frames, SlotMade False ⟨k.machine.table L.kroot, .kernel⟩ L k.machine slot frames L'
    k'.machine

/-- The kernel stack of a slot has been taken away. -/
structure StackReturned (L : Layout) (k : Kernel) (slot : ℕ) (L' : Layout) (k' : Kernel) :
    Prop where
  pool : ∀ s, k'.sched.stackPool.used s = (k.sched.stackPool.used s && !decide (s = slot))
  gone : ∃ hb, SlotGone False L (k.machine.withHandBacks hb) slot L' k'.machine

theorem StackTaken.used {slot : ℕ} (h : StackTaken L k slot L' k') :
    k'.sched.stackPool.used slot = true := by
  rw [h.pool, decide_eq_true rfl, Bool.or_true]

theorem allocateKernelStack_sat {Q : Except StackCreateError KernelStack → Kernel → Prop}
    {E : Stop → Kernel → Prop} (h : ResInv B L k)
    (hok : ∀ slot L' k', ResInv B L' k' → StackChange L k L' k' →
      StackReady L' k'.machine slot → StackTaken L k slot L' k' →
      (∀ t s, k'.stackOf t = some s → s ≠ stackAt slot) → Q (.ok (stackAt slot)) k')
    (herr : ∀ err L' k', ResInv B L' k' → StackChange L k L' k' → Q (.error err) k') :
    (allocateKernelStack ⟨k.machine.table L.kroot, .kernel⟩).Sat k Q E := by
  have hs : SpaceOf L k.machine ⟨k.machine.table L.kroot, .kernel⟩ L.kroot :=
    ⟨rfl, h.mem.kroot, by simp⟩
  simp only [allocateKernelStack, Prog.sat_bind, Prog.sat_get, sat_onMachine]
  refine KernelStackPool.allocate_sat (fun _ => h.kstacks.anchor.run hs h.mem) ?_ ?_ ?_
  · intro slot pool frames L' m _ hunused _ hused hp hready
    have hpool : ∀ s, pool.used s = true ↔ k.sched.stackPool.used s = true ∨ s = slot := by
      intro s
      rw [hused, Bool.or_eq_true, decide_eq_true_eq]
    have hchange : StackChange L k L'
        { k with machine := m, sched := { k.sched with stackPool := pool } } :=
      ⟨rfl, hp.added.edit.regs, SlotMade.user hready.bound hp⟩
    refine hok slot L' _ (h.stackMade hunused hp hready hpool hchange.sameTasks) hchange hready
      ⟨hunused, hused, frames, hp⟩ ?_
    intro t s ht he
    rw [hchange.sameTasks.stackOf] at ht
    obtain ⟨slot', rfl, _, hused⟩ := h.kstacks.ready t s ht
    rw [stackAt_inj he, hunused] at hused
    cases hused
  · intro err slot pool m hunused _ hused _ hr
    have hpool : ∀ s, k.sched.stackPool.used s = true → pool.used s = true := by
      intro s hs'
      rw [hused, hs', Bool.true_or]
    have hchange : StackChange L k L
        { k with machine := m, sched := { k.sched with stackPool := pool } } :=
      ⟨rfl, hr.edit.regs, fun r q e _ _ _ => hr.leaf r q e⟩
    exact herr err L _ (h.stackRestored hunused hr hpool hchange.sameTasks) hchange
  · exact fun _ => herr _ L k h ⟨rfl, Regs.refl _, fun _ _ _ _ _ _ => Iff.rfl⟩

end Stacks

section Tasks

/-- A task that has just been added. -/
structure Added (k : Kernel) (asId : ℕ) (stack : KernelStack) (id : ℕ) (t : Tcb) (k' : Kernel) :
    Prop where
  first : k.sched.tasks.firstEmpty = some id
  only : k' = { k with
    sched := { k.sched with
      tasks := k.sched.tasks.set id (some t)
      ready := k'.sched.ready } }
  queue : k'.sched.ready.ids = k.sched.ready.ids ++ [id]
  sched : SchedInv k'.sched
  space : t.asId = asId
  stack : t.kernelStack = stack
  state : t.state = .ready
  context : ∃ entry userStack, t.context = .userEntry entry userStack
  mailbox : t.mailbox = Mailbox.new
  handles : ∀ i, t.handles.get i =
    if i = 1 then some ⟨.thread id, Rights.READ ||| Rights.WRITE ||| Rights.EXECUTE⟩
    else if i = 0 then some ⟨.addressSpace asId, Rights.READ ||| Rights.WRITE ||| Rights.EXECUTE⟩
    else none

namespace Added

variable {asId : ℕ} {stack : KernelStack}

theorem objects (h : Added k asId stack id t k') {i : ℕ} {object : KernelObject} {rights : Rights}
    (hh : t.handles.get i = some ⟨object, rights⟩) :
    object = .addressSpace asId ∨ object = .thread id := by
  rw [h.handles] at hh
  split_ifs at hh
  · cases hh
    exact .inr rfl
  · cases hh
    exact .inl rfl

theorem empty (h : Added k asId stack id t k') : k.sched.tasks.get id = none :=
  (Slots.firstEmpty_some h.first).2

theorem get (h : Added k asId stack id t k') (j : ℕ) :
    k'.sched.tasks.get j = if j = id then some t else k.sched.tasks.get j := by
  rw [h.only]
  exact Slots.get_set _ (Slots.firstEmpty_some h.first).1 _ _

theorem mail (h : Added k asId stack id t k') : SameMail k k' := by
  intro j
  rw [Kernel.mailOf, h.get, Kernel.mailOf]
  split_ifs with hj
  · rw [hj, h.empty]
    simp [h.mailbox, Mailbox.new, Mailbox.queue]
  · rfl

theorem withKernel (h : Added k asId stack id t k') (kernelSpace : Option AddressSpace) :
    Added { k with kernelSpace } asId stack id t { k' with kernelSpace } :=
  ⟨h.first, by rw [h.only], h.queue, h.sched, h.space, h.stack, h.state, h.context, h.mailbox, h.handles⟩

theorem handleAt (h : Added k asId stack id t k') (j i : ℕ) :
    k'.handleAt j i = if j = id then t.handles.get i else k.handleAt j i := by
  rw [Kernel.handleAt, h.get, Kernel.handleAt]
  split_ifs <;> rfl

theorem others (h : Added k asId stack id t k') : Others k k' := by
  refine ⟨by rw [h.only]; exact fun _ _ h => h, fun j i handle _ hh => ?_⟩
  rw [h.handleAt, if_neg]
  · exact hh
  · rintro rfl
    rw [Kernel.handleAt, h.empty] at hh
    cases hh

theorem handlesInv (h : Added k asId stack id t k') (hk : HandlesInv k) : HandlesInv k' := by
  have hkeep : ∀ j task, k.sched.tasks.get j = some task → k'.sched.tasks.get j = some task := by
    intro j task hj
    rw [h.get, if_neg, hj]
    rintro rfl
    rw [h.empty] at hj
    cases hj
  have hself : k'.sched.tasks.get id = some t := by rw [h.get, if_pos rfl]
  refine ⟨?_, ?_⟩
  · intro j i id' rights hh
    rw [h.handleAt] at hh
    split_ifs at hh with hj
    · rcases h.objects hh with ho | ho
      · cases ho
      · cases ho
        exact ⟨t, hself⟩
    · obtain ⟨task, ht⟩ := hk.threads j i id' rights hh
      exact ⟨task, hkeep _ _ ht⟩
  · intro j task hj
    rw [h.handleAt, h.handleAt]
    rw [h.get] at hj
    split_ifs at hj ⊢ with hid
    · cases hj
      rw [h.handles, h.handles, hid, h.space]
      exact ⟨rfl, rfl⟩
    · exact hk.self j task hj

theorem suspended (h : Added k asId stack id t k') : t.Suspended := by
  obtain ⟨entry, userStack, hc⟩ := h.context
  rw [Tcb.Suspended, h.state]
  simp only [hc]
  trivial

theorem res {slot : ℕ} (h : Added k asId (stackAt slot) id t k') (hres : ResInv B L k)
    {r : ℕ} (hr : k.rootOf asId = some r) (hready : StackReady L k.machine slot)
    (hused : k.sched.stackPool.used slot = true)
    (hfresh : ∀ t s, k.stackOf t = some s → s ≠ stackAt slot) : ResInv B L k' := by
  refine hres.addTask t.handles.get h.empty hready hused hfresh (by rw [h.only])
    (by rw [h.only]) (by rw [h.only]) (by rw [h.only]) ?_ ?_ ?_
  · intro j
    rw [Kernel.stackOf, h.get, Kernel.stackOf]
    split_ifs
    · exact congrArg some h.stack
    · rfl
  · exact h.handleAt
  · intro i object rights hh
    rcases h.objects hh with ho | ho
    · exact .inl ⟨asId, r, ho, hr⟩
    · exact .inr ⟨id, ho⟩

theorem kinv {slot : ℕ} (h : Added k asId (stackAt slot) id t k') (hk : KInv B L k) {r : ℕ}
    (hr : k.rootOf asId = some r) (hready : StackReady L k.machine slot)
    (hused : k.sched.stackPool.used slot = true)
    (hfresh : ∀ t s, k.stackOf t = some s → s ≠ stackAt slot) : KInv B L k' := by
  refine ⟨h.res hk.res hr hready hused hfresh, ?_, h.handlesInv hk.handles,
    hk.logs.congr (by rw [h.only]) (by rw [h.only])⟩
  exact hk.tasks.add h.empty h.get h.sched ⟨r, by rw [h.space, hr]⟩
    (by rw [h.mailbox]; exact Mailbox.Ok.new) h.suspended (by rw [h.only]) (by rw [h.only])
    (by rw [h.only]) (by rw [h.only])

theorem running (h : Added k asId stack id t k') (hrun : Running k cur task) :
    Running k' cur task := by
  refine ⟨by rw [h.only, hrun.current], ?_, ?_, ?_⟩
  · rw [h.get, if_neg, hrun.get]
    rintro rfl
    have := hrun.get
    rw [h.empty] at this
    cases this
  · rw [h.only]
    exact hrun.root
  · rw [h.only]
    exact hrun.top

end Added

theorem newUser_eq (asId : ℕ) (stack : KernelStack) (entry userStack : ℕ) :
    Tcb.newUser asId stack entry userStack = some
      { id := 0
        asId
        state := .ready
        kernelStack := stack
        context := .userEntry entry userStack
        mailbox := Mailbox.new
        handles := HandleTable.new.set 0
          (some ⟨.addressSpace asId, Rights.READ ||| Rights.WRITE ||| Rights.EXECUTE⟩) } := rfl

theorem addTask_added {Q : Except Tcb ℕ → Kernel → Prop} {E : Stop → Kernel → Prop}
    (hs : SchedInv k.sched) {asId entry userStack : ℕ} {stack : KernelStack} {tcb : Tcb}
    (htcb : Tcb.newUser asId stack entry userStack = some tcb)
    (hfull : k.sched.tasks.firstEmpty = none → Q (.error tcb) k)
    (h : ∀ id t k', Added k asId stack id t k' → Q (.ok id) k') : (addTask tcb).Sat k Q E := by
  rw [newUser_eq] at htcb
  have hfirst : (HandleTable.new.set 0 (some ⟨.addressSpace asId,
      Rights.READ ||| Rights.WRITE ||| Rights.EXECUTE⟩)).firstEmpty = some 1 := rfl
  cases htcb
  refine addTask_sat hs _ hfull (.inr ?_) ?_
  · simp only [HandleTable.push, hfirst, Option.map_some]
    exact ⟨_, _, rfl⟩
  · intro id i handles ready hid hpush hqueue hs'
    simp only [HandleTable.push, hfirst, Option.map_some, Option.some.injEq,
      Prod.mk.injEq] at hpush
    obtain ⟨rfl, rfl⟩ := hpush
    refine h id _ _ ⟨hid, rfl, hqueue, hs', rfl, rfl, rfl, ⟨_, _, rfl⟩, rfl, ?_⟩
    intro i
    rw [Slots.get_set _ (by decide), Slots.get_set _ (by decide)]
    rfl

/-- A task is gone, and its kernel stack with it. -/
structure Removed (k : Kernel) (id : ℕ) (k' : Kernel) : Prop where
  queue : k'.sched.ready.ids = k.sched.ready.ids.erase id
  only : k' = { k with
    machine := k'.machine
    sched := { k.sched with
      tasks := k.sched.tasks.set id none
      ready := k'.sched.ready
      stackPool := k'.sched.stackPool } }
  mail : SameMail k k'

/-- A task that holds no pages, that nobody else has a handle of and that waits for no
mail is taken down. -/
theorem removeTask_kinv {Q : Bool → Kernel → Prop} {E : Stop → Kernel → Prop} (h : KInv B L k)
    (hget : k.sched.tasks.get id = some t) (hne : k.sched.current ≠ some id)
    (hobjects : ∀ i f id' v rights, k.handleAt id i ≠ some ⟨.mapping f id' v, rights⟩)
    (hthread : ∀ j i rights, k.handleAt j i = some ⟨.thread id, rights⟩ → j = id)
    (hmail : t.mailbox.queue = [])
    (hQ : ∀ slot L' k', KInv B L' k' → Removed k id k' → t.kernelStack = stackAt slot →
      StackReturned L k slot L' k' → Q true k') : (removeTask id).Sat k Q E := by
  refine removeTask_sat h.tasks.sched id ?_ ?_ ?_
  · rintro (hc | hn)
    · exact absurd hc hne
    · rw [hget] at hn
      cases hn
  · intro hn
    rw [h.res.spaces.kernel] at hn
    cases hn
  · intro t' space ready _ ht' hspace hqueue hsched
    rw [hget] at ht'
    cases ht'
    rw [h.res.spaces.kernel] at hspace
    cases hspace
    have hstack : k.stackOf id = some t.kernelStack := Kernel.stackOf_some.mpr ⟨t, hget, rfl⟩
    obtain ⟨slot, hslot, hready, _⟩ := h.res.kstacks.ready id _ hstack
    have hs : SpaceOf L k.machine ⟨k.machine.table L.kroot, .kernel⟩ L.kroot :=
      ⟨rfl, h.res.mem.kroot, by simp⟩
    rw [hslot]
    generalize hprog : KernelStackPool.free _ _ _ = prog
    refine KernelStackPool.free_sat rfl (h.res.kstacks.anchor.run hs h.res.mem hready.bound) hready
      ?_ hprog
    intro pool L' m hb hused hhanded hgone
    have hpool : ∀ s, s ≠ slot → pool.used s = k.sched.stackPool.used s := by
      intro s hne'
      rw [hused, decide_eq_false hne', Bool.not_false, Bool.and_true]
    obtain ⟨k', hk'⟩ : ∃ k' : Kernel, k' = { k with
        machine := m
        sched := { k.sched with
          tasks := k.sched.tasks.set id none, ready, stackPool := pool } } := ⟨_, rfl⟩
    rw [← hk']
    have hlt := Slots.lt_of_get hget
    have hgets : ∀ j, k'.sched.tasks.get j = if j = id then none else k.sched.tasks.get j := by
      intro j
      rw [hk']
      exact Slots.get_set _ hlt _ _
    have hhb : k'.machine.handBacks = hb := by
      rw [hk']
      exact hgone.edit.regs.handBacks
    have hhandles : ∀ j i, k'.handleAt j i = if j = id then none else k.handleAt j i := by
      intro j i
      rw [Kernel.handleAt, hgets, Kernel.handleAt]
      split_ifs <;> rfl
    have hres : ResInv B L' k' := by
      refine h.res.removeTask hb (by rw [hstack, hslot]) hready hobjects
        (by rw [hk']; exact hgone) (by rw [hk']; exact hpool) (by rw [hk']) (by rw [hk']) ?_ hhandles
      intro j
      rw [Kernel.stackOf, hgets, Kernel.stackOf]
      split_ifs <;> rfl
    have hnames : HandlesInv k' := by
      refine ⟨?_, ?_⟩
      · intro j i id' rights hh
        rw [hhandles] at hh
        split_ifs at hh with hj
        obtain ⟨task, ht⟩ := h.handles.threads j i id' rights hh
        refine ⟨task, ?_⟩
        rw [hgets, if_neg, ht]
        rintro rfl
        exact hj (hthread j i rights hh)
      · intro j task hj
        rw [hgets] at hj
        split_ifs at hj with hid
        rw [hhandles, hhandles, if_neg hid, if_neg hid]
        exact h.handles.self j task hj
    refine hQ slot L' k' ⟨hres, ?_, hnames, ⟨by rw [hk']; exact h.logs.accesses, ?_⟩⟩
      ⟨by rw [hk']; exact hqueue, by rw [hk'], ?_⟩ hslot
      ⟨by rw [hk']; exact hused, hb, by rw [hk']; exact hgone⟩
    · exact h.tasks.drop hne hgets (by rw [hk']; exact hsched pool)
        (by rw [hk']; exact hgone.edit.regs.cr3) (by rw [hk']; exact hgone.edit.regs.kernelStackTop)
        (by rw [hk']) (by rw [hk']) (by rw [hk'])
    · intro b hmem hlt'
      rw [hhb] at hmem
      rcases hhanded b hmem with hmem | ⟨i, hi, hpage⟩
      · exact h.logs.handBacks b hmem hlt'
      · have := (slot_bounds (i := i + 1) hready.bound hi).1
        rw [page_eq] at hpage
        rw [hpage] at hlt'
        simp only [USER_SPACE_END, KERNEL_STACK_BASE] at *
        omega
    · intro j
      rw [Kernel.mailOf, hgets, Kernel.mailOf]
      split_ifs with hj
      · rw [hj, hget]
        exact hmail.symm
      · rfl

end Tasks

theorem StackChange.userRange {start len : ℕ} {w : Bool} (h : StackChange L k L' k')
    (hrange : UserRange L k.machine k.machine.cr3 start len w) :
    UserRange L' k'.machine k'.machine.cr3 start len w := by
  rw [h.regs.cr3]
  exact hrange.congr h.regs.paging fun q e i hq hi hl => (h.user _ q e i hq hi).mpr hl

theorem Added.userRange {k₂ : Kernel} {asId id start len : ℕ} {stack : KernelStack} {t : Tcb}
    {w : Bool} (hadd : Added k asId stack id t k₂)
    (hrange : UserRange L k.machine k.machine.cr3 start len w) :
    UserRange L k₂.machine k₂.machine.cr3 start len w := by
  have hm : k₂.machine = k.machine := by rw [hadd.only]
  rw [hm]
  exact hrange

/-- A task that has just been added can be taken down again. -/
theorem Added.removeTask_sat {k₂ : Kernel} {asId id cur : ℕ} {stack : KernelStack} {t task : Tcb}
    {Q : Bool → Kernel → Prop} {E : Stop → Kernel → Prop}
    (hadd : Added k asId stack id t k₂) (h : KInv B L k) (h₂ : KInv B L k₂)
    (hrun : Running k cur task)
    (hQ : ∀ slot L' k', KInv B L' k' → Removed k₂ id k' → t.kernelStack = stackAt slot →
      StackReturned L k₂ slot L' k' → Q true k') : (removeTask id).Sat k₂ Q E := by
  have hidne : k₂.sched.current ≠ some id := by
    intro hc
    rw [(hadd.running hrun).current] at hc
    cases hc
    have := hrun.get
    rw [hadd.empty] at this
    cases this
  refine removeTask_kinv (t := t) h₂ (by rw [hadd.get, if_pos rfl]) hidne ?_ ?_
    (by rw [hadd.mailbox]; rfl) hQ
  · intro i f id' v rights hh
    rw [Kernel.handleAt, hadd.get, if_pos rfl] at hh
    rcases hadd.objects hh with ho | ho <;> cases ho
  · intro j i rights hh
    by_contra hj
    rw [hadd.handleAt, if_neg hj] at hh
    obtain ⟨task', ht'⟩ := h.handles.threads j i id rights hh
    rw [hadd.empty] at ht'
    cases ht'

/-- The running task gets the handle of a task that exists. -/
theorem handOver_kinv {cur id i : ℕ} {task t : Tcb} (h : KInv B L k) (hrun : Running k cur task)
    (hget : k.sched.tasks.get id = some t) (hi : i < MAX_HANDLES)
    (hempty : task.handles.get i = none) :
    KInv B L (k.putTask cur { task with
      handles := task.handles.set i
        (some ⟨.thread id, Rights.READ ||| Rights.WRITE ||| Rights.EXECUTE⟩) }) := by
  have hat := Kernel.putTask_handleAt hrun.get hi
    (some ⟨.thread id, Rights.READ ||| Rights.WRITE ||| Rights.EXECUTE⟩)
  refine h.putHandles hrun _ (h.res.setHandle rfl (Kernel.putTask_holders hrun.get _) hat
    (by rw [hrun.handleAt, hempty]; simp) (by simp) (by simp) (by simp)) ?_
  exact h.handles.addThread (Kernel.putTask_cores hrun.get _) hat
    (by rw [hrun.handleAt, hempty]) hget

/-- The checks of the call pass and the kernel stack is made. -/
def StackGranted (k : Kernel) (asHandle entry userStack outTaskHandle : ℕ) : Prop :=
  ∃ asId checked space stack k₁,
    checkTaskCreate asHandle entry userStack outTaskHandle k = .ok asId checked ∧
    checked.kernelSpace = some space ∧ allocateKernelStack space checked = .ok (.ok stack) k₁

/-- A new task's stop is a status. -/
def SpawnStops (B : BootPages) (k : Kernel) (cramped : Prop) (stop : Stop) (k' : Kernel) : Prop :=
  (∃ s, stop = .status s) ∧ (∃ L', KInv B L' k') ∧ Spawned k cramped k'

theorem sysTaskCreate_sat (cramped : Prop) (h : KInv B L k)
    (asHandle entry userStack outTaskHandle : ℕ) (hcramped : k.Cramped →
      StackGranted k asHandle entry userStack outTaskHandle → cramped) :
    (sysTaskCreate asHandle entry userStack outTaskHandle).Sat k
      (fun _ k' => (∃ L', KInv B L' k') ∧ Spawned k cramped k') (SpawnStops B k cramped) := by
  obtain ⟨cur, task, hrun⟩ := h.tasks.current
  have hstop : ∀ {L' k' s}, KInv B L' k' → Spawned k cramped k' →
      SpawnStops B k cramped (.status s) k' := fun hk hs => ⟨⟨_, rfl⟩, ⟨_, hk⟩, hs⟩
  rw [sysTaskCreate, Prog.sat_bind]
  have hcheck := checkTaskCreate_sat (E := SpawnStops B k cramped)
    (Q := fun asId k' => k' = k ∧ (∃ r, k.rootOf asId = some r) ∧ outTaskHandle ≠ 0 ∧
      outTaskHandle % 8 = 0 ∧ UserRange L k.machine k.machine.cr3 outTaskHandle 8 true) h hrun asHandle entry userStack
    outTaskHandle (fun asId r hr hne hal hrange => ⟨rfl, ⟨r, hr⟩, hne, hal, hrange⟩)
    (fun s => hstop h (Spawned.refl k _))
  rw [Prog.sat_iff] at hcheck ⊢
  refine ⟨?_, hcheck.2⟩
  intro asId k' hok
  obtain ⟨rfl, ⟨r, hr⟩, hne, hal, hrange⟩ := hcheck.1 asId k' hok
  simp only [kernelAddressSpace, Prog.sat_bind, Prog.sat_get, h.res.spaces.kernel,
    Prog.sat_expect_some]
  refine Prog.Sat.recall (allocateKernelStack_sat h.res ?_ ?_)
  · intro slot L₁ k₁ hres₁ hchange hready htaken hfresh hstack
    have hgranted : StackGranted k' asHandle entry userStack outTaskHandle :=
      ⟨asId, k', _, _, k₁, hok, h.res.spaces.kernel, hstack⟩
    have hused := htaken.used
    have hk₁ := hchange.kinv h hres₁
    have hr₁ : k₁.rootOf asId = some r := by
      rw [hchange.only]
      exact hr
    have hrun₁ : Running k₁ cur task := by
      refine ⟨by rw [hchange.only]; exact hrun.current, by rw [hchange.tasks, hrun.get], ?_, ?_⟩
      · rw [hchange.regs.cr3, hchange.only]
        exact hrun.root
      · rw [hchange.regs.kernelStackTop, hrun.top]
    simp only [newUser_eq, Prog.sat_expect_some, Prog.sat_bind]
    refine addTask_added hk₁.tasks.sched (newUser_eq asId _ entry userStack)
      (fun _ => hstop hk₁ hchange.spawned) ?_
    intro id t k₂ hadd
    have hk₂ := hadd.kinv hk₁ hr₁ hready hused hfresh
    have hrun₂ := hadd.running hrun₁
    have hsp₂ : ∀ {c : Prop}, Spawned k' c k₂ := fun {c} =>
      hchange.spawned.trans (.quiet hadd.mail (by rw [hadd.only]) (by rw [hadd.only]) hadd.others)
        (by rw [hchange.only])
    simp only [Prog.sat_bind]
    rw [sat_selfTask hrun₂]
    cases hpush : HandleTable.push task.handles
        ⟨.thread id, Rights.READ ||| Rights.WRITE ||| Rights.EXECUTE⟩ with
    | none =>
      simp only [HandleTable.push, Option.map_eq_none_iff] at hpush
      have hcr : k'.Cramped := by
        refine ⟨⟨cur, task, hrun.current, hrun.get, hpush⟩, ?_⟩
        have hfirst := hadd.first
        rw [hchange.only] at hfirst
        change k'.sched.tasks.firstEmpty = some id at hfirst
        simp [hfirst]
      simp only [Prog.sat_bind]
      refine hadd.removeTask_sat hk₁ hk₂ hrun₁ ?_
      intro _ L₃ k₃ hk₃ hrem _ _
      refine hstop hk₃ ⟨?_, ?_, fun b _ => .inr (hcramped hcr hgranted), ?_⟩
      · exact (hsp₂ (c := True)).mail.trans hrem.mail
      · rw [hrem.only]
        exact (hsp₂ (c := True)).debug
      · refine .tasks ?_ ?_
        · rw [hrem.only, hadd.only, hchange.only]
        · rw [hrem.only, hadd.only]
          show (k₁.sched.tasks.set id (some t)).set id none = k'.sched.tasks
          rw [Slots.set_set, Slots.set_self hadd.empty, hchange.only]
    | some pushed =>
      obtain ⟨i, handles⟩ := pushed
      obtain ⟨hi, hempty, rfl⟩ := push_some hpush
      simp only [Prog.sat_bind]
      rw [sat_setHandles hrun₂]
      have hcores := Kernel.putTask_cores hrun₂.get (task.handles.set i
        (some ⟨.thread id, Rights.READ ||| Rights.WRITE ||| Rights.EXECUTE⟩))
      have hinv₃ := handOver_kinv hk₂ hrun₂ (by rw [hadd.get, if_pos rfl]) hi hempty
      refine copyValToUser_sat hinv₃ hal hne ?_ ?_
      · exact hadd.userRange (hchange.userRange hrange)
      · intro m hst hinv
        refine ⟨⟨L₁, hinv⟩, hsp₂.trans (.quiet (hcores.mail.trans fun _ => rfl) rfl ?_ ?_) ?_⟩
        · rw [hst.only]
          rfl
        · exact .own hrun₂.current (fun _ _ h => h)
            fun j hj => (Kernel.putTask_get hrun₂.get j).trans (if_neg hj)
        · rw [hadd.only, hchange.only]
  · intro err L₁ k₁ hres₁ hchange _
    exact hstop (hchange.kinv h hres₁) hchange.spawned

end Dusk
