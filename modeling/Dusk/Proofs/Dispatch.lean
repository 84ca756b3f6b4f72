import Dusk.Proofs.Sched

/-! What the programs of `task/scheduler.rs` do to the kernel, under the scheduler
invariant. A context switch has one description, `Switched`, for all the operations
that end in one. -/

namespace Dusk

open Lib Scheduler

section Basics

variable {α : Type} {k : Kernel} {E : Stop → Kernel → Prop}

@[simp] theorem sat_panic {Q : α → Kernel → Prop} (p : KernelPanic) :
    (panic p : KM α).Sat k Q E ↔ E (.panicked p) k := Iff.rfl

@[simp] theorem sat_fail {Q : α → Kernel → Prop} (s : Status) :
    (fail s : KM α).Sat k Q E ↔ E (.status s) k := Iff.rfl

@[simp] theorem sat_onMachine {Q : α → Kernel → Prop} (p : MM α) :
    (onMachine p).Sat k Q E ↔
      p.Sat k.machine (fun a m => Q a { k with machine := m })
        (fun e m => E (.panicked (.memory e)) { k with machine := m }) :=
  Prog.sat_zoom _ _ _ _

@[simp] theorem sat_modifySched {Q : Unit → Kernel → Prop} (f : Scheduler → Scheduler) :
    (modifySched f).Sat k Q E ↔ Q () { k with sched := f k.sched } := Iff.rfl

@[simp] theorem sat_setTask {Q : Unit → Kernel → Prop} (id : ℕ) (t : Option Tcb) :
    (setTask id t).Sat k Q E ↔
      Q () { k with sched := { k.sched with tasks := k.sched.tasks.set id t } } := Iff.rfl

theorem sat_unwrapTask {Q : Tcb → Kernel → Prop} {id : ℕ} {t : Tcb}
    (h : k.sched.tasks.get id = some t) : (unwrapTask id).Sat k Q E ↔ Q t k := by
  have hid : id < MAX_TASKS := Slots.lt_of_get h
  simp [unwrapTask, hid, h]

theorem sat_currentTask {Q : ℕ → Kernel → Prop} {id : ℕ} (h : k.sched.current = some id) :
    currentTask.Sat k Q E ↔ Q id k := by
  simp [currentTask, h]

@[simp] theorem sat_withTask {Q : Option Tcb → Kernel → Prop} (id : ℕ) :
    (withTask id).Sat k Q E ↔ Q (k.sched.tasks.get id) k := Iff.rfl

theorem sat_setState {Q : Unit → Kernel → Prop} {id : ℕ} {t : Tcb}
    (h : k.sched.tasks.get id = some t) (state : ThreadState) :
    (setState id state).Sat k Q E ↔ Q () { k with sched :=
      { k.sched with tasks := k.sched.tasks.set id (some { t with state }) } } := by
  simp only [setState, Prog.sat_bind, sat_unwrapTask h, sat_setTask]

@[simp] theorem sat_popReady {Q : Option ℕ → Kernel → Prop} :
    popReady.Sat k Q E ↔ Q k.sched.ready.popFront.1
      { k with sched := { k.sched with ready := k.sched.ready.popFront.2 } } := Iff.rfl

theorem sat_pushReady {Q : Unit → Kernel → Prop} {id : ℕ}
    (h : (k.sched.ready.pushBack id).1 = true) :
    (pushReady id).Sat k Q E ↔ Q ()
      { k with sched := { k.sched with ready := (k.sched.ready.pushBack id).2 } } := by
  simp [pushReady, h]

end Basics

/-- The machine after CR3 has been loaded. -/
def Machine.activated (m : Machine) (pt : PageTable) : Machine :=
  let loaded := { m with cr3 := pt.frame, tlb := m.tlb.filter TlbEntry.isGlobal }
  { loaded with
    tlb := (m.fills m.moment).filterMap (cachedTranslation loaded) ++ loaded.tlb
    moment := m.moment + 1 }

@[simp] theorem sat_activate {m : Machine} {Q : Unit → Machine → Prop}
    {E : Panic → Machine → Prop} (pt : PageTable) :
    pt.activate.Sat m Q E ↔ Q () (m.activated pt) := Iff.rfl

/-- The machine a task is entered with. -/
def Kernel.installed (k : Kernel) (load : Bool) (task : Tcb) : Machine :=
  let m := match load, k.spaces.get task.asId with
    | true, some space => k.machine.activated space.root
    | _, _ => k.machine
  { m with kernelStackTop := task.kernelStack.top }

theorem sat_perform {k : Kernel} {Q : Unit → Kernel → Prop} {E : Stop → Kernel → Prop}
    (load : Bool) (task : Tcb) :
    (Switch.perform ⟨task.context, task.asId, task.kernelStack.top, load⟩).Sat k Q E ↔
      Q () { k with machine := k.installed load task, pending := some task.context } := by
  cases load with
  | false => exact Iff.rfl
  | true =>
    simp only [Switch.perform, Kernel.installed, Prog.sat_bind, Prog.sat_get, if_true]
    cases k.spaces.get task.asId <;> exact Iff.rfl

/-- `k'` is `k` after task `cur` has given the processor to task `next`. -/
structure Switched (k : Kernel) (cur : ℕ) (state : ThreadState) (saved : ThreadContext)
    (next : ℕ) (k' : Kernel) : Prop where
  sched : SchedInv k'.sched
  ne : next ≠ cur
  wasCurrent : k.sched.current = some cur
  current : k'.sched.current = some next
  pool : k'.sched.stackPool = k.sched.stackPool
  tasks : ∃ t n, k.sched.tasks.get cur = some t ∧ k.sched.tasks.get next = some n ∧
    n.state = .ready ∧
    k'.sched.tasks.get cur = some { t with state, context := saved } ∧
    k'.sched.tasks.get next = some { n with state := .running } ∧
    k'.pending = some n.context ∧
    k'.machine = k.installed (n.asId ≠ t.asId) n
  others : ∀ i, i ≠ cur → i ≠ next → k'.sched.tasks.get i = k.sched.tasks.get i
  frame : k'.kernelSpace = k.kernelSpace ∧ k'.spaces = k.spaces ∧ k'.accesses = k.accesses ∧
    k'.debugAssertions = k.debugAssertions

theorem switchTo_sat {k : Kernel} {cur next : ℕ} {t n : Tcb} {saved : ThreadContext}
    {Q : Unit → Kernel → Prop} {E : Stop → Kernel → Prop}
    (hcur : k.sched.tasks.get cur = some t) (hnext : k.sched.tasks.get next = some n)
    (hne : next ≠ cur)
    (h : E .switched
      { k with
        sched := { k.sched with
          current := some next
          tasks := (k.sched.tasks.set next (some { n with state := .running })).set cur
            (some { t with context := saved }) }
        machine := k.installed (n.asId ≠ t.asId) n
        pending := some n.context }) :
    (switchTo cur next saved).Sat k Q E := by
  have hlt : next < MAX_TASKS := Slots.lt_of_get hnext
  have hltc : cur < MAX_TASKS := Slots.lt_of_get hcur
  simp only [switchTo, makeSwitch, Prog.sat_bind, sat_setState hnext, sat_modifySched,
    Prog.sat_assert, Prog.sat_stop]
  rw [if_pos (by simpa using hne.symm), sat_unwrapTask (t := t)
    (by simp [Slots.get_set_of_ne _ hne.symm, hcur])]
  simp only [sat_setTask, Prog.sat_pure]
  rw [sat_unwrapTask (t := { n with state := .running })
    (by simp [Slots.get_set_of_ne _ hne, hlt])]
  exact (sat_perform _ { n with state := .running }).mpr h

section Operations

variable {k : Kernel} {cur : ℕ} {E : Stop → Kernel → Prop}

/-- The tail shared by the operations that give up the processor: the current task
has its new state and may be queued again. -/
theorem switchTo_switched {Q : Unit → Kernel → Prop} (hs : SchedInv k.sched)
    (hcur : k.sched.current = some cur) {t : Tcb} (ht : k.sched.tasks.get cur = some t)
    {next : ℕ} {rest : List ℕ} (hids : k.sched.ready.ids = next :: rest)
    {state : ThreadState} (hstate : state ≠ .running) {ready : ReadyQueue} (hq : ready.WF)
    (hids' : ready.ids = if state = .ready then rest ++ [cur] else rest) (saved : ThreadContext)
    (h : ∀ k', Switched k cur state saved next k' → E .switched k') :
    (switchTo cur next saved).Sat { k with sched := { k.sched with
      ready, tasks := k.sched.tasks.set cur (some { t with state }) } } Q E := by
  obtain ⟨n, hn, hready⟩ := hs.head_get hids
  have hrun : t.state = .running := by
    obtain ⟨t', ht', hr⟩ := hs.current_get hcur
    rw [ht] at ht'
    cases ht'
    exact hr
  have hne : next ≠ cur := by
    rintro rfl
    rw [ht] at hn
    cases hn
    rw [hrun] at hready
    cases hready
  have hltc : cur < MAX_TASKS := Slots.lt_of_get ht
  have hltn : next < MAX_TASKS := Slots.lt_of_get hn
  apply switchTo_sat (t := { t with state }) (n := n)
  · simp [hltc]
  · simp [Slots.get_set_of_ne _ hne, hn]
  · exact hne
  apply h
  have hget : ∀ i, i ≠ cur → i ≠ next →
      (((k.sched.tasks.set cur (some { t with state })).set next
        (some { n with state := .running })).set cur
        (some { t with state, context := saved })).get i = k.sched.tasks.get i := by
    intro i hi hi'
    rw [Slots.get_set_of_ne _ hi, Slots.get_set_of_ne _ hi', Slots.get_set_of_ne _ hi]
  refine ⟨?_, hne, hcur, rfl, rfl, ⟨t, n, ht, hn, hready, ?_, ?_, rfl, rfl⟩, hget,
    rfl, rfl, rfl, rfl⟩
  · apply hs.dispatch hcur hids hstate hq hids' rfl
    · intro i
      simp only [Scheduler.stateOf]
      by_cases hin : i = next
      · subst hin
        rw [if_pos rfl, Slots.get_set_of_ne _ hne, Slots.get_set_self _ hltn]
        rfl
      · by_cases hic : i = cur
        · subst hic
          rw [if_neg hin, if_pos rfl, Slots.get_set_self _ hltc]
          rfl
        · rw [if_neg hin, if_neg hic, hget i hic hin]
    · intro i u hu
      by_cases hic : i = cur
      · subst hic
        rw [Slots.get_set_self _ hltc] at hu
        cases hu
        exact hs.ids i t ht
      · by_cases hin : i = next
        · subst hin
          rw [Slots.get_set_of_ne _ hic, Slots.get_set_self _ hltn] at hu
          cases hu
          exact hs.ids i n hn
        · rw [hget i hic hin] at hu
          exact hs.ids i u hu
  · simp [hltc]
  · simp [Slots.get_set_of_ne _ hne, hltn]

theorem blockCurrent_sat {Q : Unit → Kernel → Prop} (hs : SchedInv k.sched)
    (hcur : k.sched.current = some cur) (reason : BlockReason) (saved : ThreadContext)
    (hempty : k.sched.ready.ids = [] → E (.halted .deadlock) k)
    (h : ∀ next k', Switched k cur (.blocked reason) saved next k' → E .switched k') :
    (blockCurrent reason saved).Sat k Q E := by
  simp only [blockCurrent, Prog.sat_bind, sat_popReady]
  by_cases hlen : k.sched.ready.len = 0
  · rw [ReadyQueue.popFront_empty hlen]
    exact hempty (List.length_eq_zero_iff.mp (by simpa using hlen))
  · obtain ⟨next, hpop, hq, hids⟩ := hs.queue.popFront hlen
    obtain ⟨t, ht, _⟩ := hs.current_get hcur
    rw [hpop]
    simp only [Prog.sat_bind]
    refine Iff.mpr (sat_currentTask (by exact hcur)) ?_
    refine Iff.mpr (sat_setState (by exact ht) _) ?_
    exact switchTo_switched hs hcur ht hids (by simp) hq (by simp) saved (h next)

theorem yieldCurrent_sat {Q : Unit → Kernel → Prop} (hs : SchedInv k.sched)
    (hcur : k.sched.current = some cur) (hempty : k.sched.ready.ids = [] → Q () k)
    (h : ∀ next k', Switched k cur .ready .afterYield next k' → E .switched k') :
    yieldCurrent.Sat k Q E := by
  simp only [yieldCurrent, Prog.sat_bind, sat_popReady]
  by_cases hlen : k.sched.ready.len = 0
  · rw [ReadyQueue.popFront_empty hlen]
    exact hempty (List.length_eq_zero_iff.mp (by simpa using hlen))
  · obtain ⟨next, hpop, hq, hids⟩ := hs.queue.popFront hlen
    obtain ⟨t, ht, _⟩ := hs.current_get hcur
    have hroom : k.sched.ready.popFront.2.len < MAX_TASKS := by
      have hle := hs.queue.len
      have hlen' := congrArg List.length hids
      simp only [ReadyQueue.ids_length, List.length_cons] at hlen'
      omega
    obtain ⟨hpushed, hq', hids'⟩ := hq.pushBack hroom cur
    rw [hpop]
    simp only [Prog.sat_bind]
    refine Iff.mpr (sat_currentTask (by exact hcur)) ?_
    refine Iff.mpr (sat_setState (by exact ht) _) ?_
    refine Iff.mpr (sat_pushReady (by exact hpushed)) ?_
    exact switchTo_switched hs hcur ht hids (by simp) hq' (by simpa using hids') _ (h next)

theorem exitCurrent_sat {α : Type} {Q : α → Kernel → Prop} (hs : SchedInv k.sched)
    (hcur : k.sched.current = some cur) (reason : ExitReason)
    (hempty : k.sched.ready.ids = [] → E (.halted .allTasksExited) k)
    (h : ∀ next k', Switched k cur (.dead reason) .afterExit next k' → E .switched k') :
    (exitCurrent reason : KM α).Sat k Q E := by
  simp only [exitCurrent, Prog.sat_bind]
  rw [sat_currentTask hcur, sat_popReady]
  by_cases hlen : k.sched.ready.len = 0
  · rw [ReadyQueue.popFront_empty hlen]
    exact hempty (List.length_eq_zero_iff.mp (by simpa using hlen))
  · obtain ⟨next, hpop, hq, hids⟩ := hs.queue.popFront hlen
    obtain ⟨t, ht, _⟩ := hs.current_get hcur
    rw [hpop]
    simp only [Prog.sat_bind]
    refine Iff.mpr (sat_setState (by exact ht) _) ?_
    exact switchTo_switched hs hcur ht hids (by simp) hq (by simp) _ (h next)

/-- Unblocking queues a blocked task and leaves every other one alone. -/
theorem unblock_sat {Q : Unit → Kernel → Prop} (hs : SchedInv k.sched) {i : ℕ}
    (hi : i < MAX_TASKS)
    (hnot : (∀ t reason, k.sched.tasks.get i = some t → t.state ≠ .blocked reason) → Q () k)
    (h : ∀ t reason ready, k.sched.tasks.get i = some t → t.state = .blocked reason →
      SchedInv { k.sched with
        tasks := k.sched.tasks.set i (some { t with state := .ready }), ready } →
      Q () { k with sched := { k.sched with
        tasks := k.sched.tasks.set i (some { t with state := .ready }), ready } }) :
    (unblock i).Sat k Q E := by
  simp only [unblock, Prog.sat_bind, Prog.sat_get, if_pos hi]
  cases hget : k.sched.tasks.get i with
  | none => exact hnot (by simp [hget])
  | some t =>
    have hother : (∀ reason, t.state ≠ .blocked reason) → Q () k := by
      intro hne
      apply hnot
      intro u reason hu
      rw [hget] at hu
      cases hu
      exact hne reason
    cases hst : t.state with
    | blocked reason =>
      have hstate : k.sched.stateOf i = some (.blocked reason) := by
        rw [Scheduler.stateOf_of_get hget, hst]
      obtain ⟨hpushed, hq, hids⟩ := hs.queue.pushBack (hs.room hi (by simp [hstate])) i
      simp only [hst, Prog.sat_bind, sat_setTask]
      refine Iff.mpr (sat_pushReady (by exact hpushed)) ?_
      refine h t reason _ hget hst ?_
      refine hs.enqueue (i := i) (by simp [hstate]) (by simp [hstate]) hq hids ?_ ?_ ?_
      · rfl
      · intro j
        simp only [Scheduler.stateOf, Slots.get_set _ hi]
        split_ifs
        · rfl
        · rfl
      · intro j u hu
        simp only [Slots.get_set _ hi] at hu
        split_ifs at hu with hj
        · cases hu
          exact hj ▸ hs.ids i t hget
        · exact hs.ids j u hu
    | ready => simpa only [hst, Prog.sat_pure] using hother (by simp [hst])
    | running => simpa only [hst, Prog.sat_pure] using hother (by simp [hst])
    | dead reason => simpa only [hst, Prog.sat_pure] using hother (by simp [hst])

theorem addTask_sat {Q : Except Tcb ℕ → Kernel → Prop} (hs : SchedInv k.sched) (task : Tcb)
    (hfull : k.sched.tasks.firstEmpty = none → Q (.error task) k)
    (hrejected : E (.panicked .threadHandleRejected) k ∨ ∃ i handles, HandleTable.push task.handles
      ⟨.thread 0, Rights.READ ||| Rights.WRITE ||| Rights.EXECUTE⟩ = some (i, handles))
    (h : ∀ id h handles ready, k.sched.tasks.firstEmpty = some id →
      HandleTable.push task.handles
        ⟨.thread id, Rights.READ ||| Rights.WRITE ||| Rights.EXECUTE⟩ = some (h, handles) →
      ready.ids = k.sched.ready.ids ++ [id] →
      SchedInv { k.sched with
        tasks := k.sched.tasks.set id (some { task with id, handles, state := .ready }), ready } →
      Q (.ok id) { k with sched := { k.sched with
        tasks := k.sched.tasks.set id (some { task with id, handles, state := .ready }),
        ready } }) :
    (addTask task).Sat k Q E := by
  simp only [addTask, Prog.sat_bind, Prog.sat_get]
  cases hfirst : k.sched.tasks.firstEmpty with
  | none => exact hfull hfirst
  | some id =>
    obtain ⟨hlt, hnone⟩ := Slots.firstEmpty_some hfirst
    have hstate : k.sched.stateOf id = none := by simp [Scheduler.stateOf, hnone]
    cases hpush : HandleTable.push task.handles
        ⟨.thread id, Rights.READ ||| Rights.WRITE ||| Rights.EXECUTE⟩ with
    | none =>
      rcases hrejected with hE | ⟨i, handles, hp⟩
      · simpa [hpush] using hE
      · simp only [HandleTable.push, Option.map_eq_none_iff] at hpush
        simp [HandleTable.push, hpush] at hp
    | some p =>
      obtain ⟨slot, handles⟩ := p
      obtain ⟨hpushed, hq, hids⟩ := hs.queue.pushBack (hs.room hlt (by simp [hstate])) id
      simp only [hpush, Prog.sat_bind, sat_setTask]
      refine Iff.mpr (sat_pushReady (by exact hpushed)) ?_
      refine h id slot handles _ hfirst hpush hids ?_
      refine hs.enqueue (i := id) (by simp [hstate]) (by simp [hstate]) hq hids ?_ ?_ ?_
      · rfl
      · intro j
        simp only [Scheduler.stateOf, Slots.get_set _ hlt]
        split_ifs
        · rfl
        · rfl
      · intro j u hu
        simp only [Slots.get_set _ hlt] at hu
        split_ifs at hu with hj
        · cases hu
          exact hj.symm
        · exact hs.ids j u hu

/-- The first dispatch; there is no task to switch away from. -/
theorem start_sat {Q : Unit → Kernel → Prop} (hs : SchedInv k.sched)
    (hcur : k.sched.current = none) (hempty : E (.panicked .noTasksToRun) k)
    (h : ∀ next n k', k.sched.tasks.get next = some n → n.state = .ready →
      SchedInv k'.sched → k'.sched.current = some next →
      k' = { k with
        sched := { k.sched with
          current := some next
          tasks := k.sched.tasks.set next (some { n with state := .running })
          ready := k'.sched.ready }
        machine := k.installed true n
        pending := some n.context } → E .switched k') :
    start.Sat k Q E := by
  simp only [start, Prog.sat_bind, sat_popReady]
  by_cases hlen : k.sched.ready.len = 0
  · rw [ReadyQueue.popFront_empty hlen]
    exact hempty
  · obtain ⟨next, hpop, hq, hids⟩ := hs.queue.popFront hlen
    obtain ⟨n, hn, hready⟩ := hs.head_get hids
    have hlt : next < MAX_TASKS := Slots.lt_of_get hn
    have hnd := hs.nodup
    rw [hids, List.nodup_cons] at hnd
    rw [hpop]
    simp only [Prog.sat_bind]
    refine Iff.mpr (sat_unwrapTask (by exact hn)) ?_
    refine Iff.mpr (sat_setState (by exact hn) _) ?_
    simp only [sat_modifySched]
    refine Iff.mpr (sat_perform true n) ?_
    refine h next n _ hn hready ?_ rfl rfl
    have hstate : ∀ i, Scheduler.stateOf { k.sched with
        current := some next
        tasks := k.sched.tasks.set next (some { n with state := .running })
        ready := k.sched.ready.popFront.2 } i =
          if i = next then some .running else k.sched.stateOf i := by
      intro i
      simp only [Scheduler.stateOf, Slots.get_set _ hlt]
      split_ifs
      · rfl
      · rfl
    refine ⟨hq, hnd.2, ?_, ?_, ?_⟩
    · intro i
      rw [hstate i]
      by_cases hin : i = next
      · subst hin
        simpa using hnd.1
      · rw [if_neg hin, ← hs.ready i, hids, List.mem_cons]
        simp [hin]
    · intro i
      rw [hstate i]
      by_cases hin : i = next
      · simp [hin]
      · rw [if_neg hin, hs.running i, hcur]
        simp [Ne.symm hin]
    · intro i u hu
      simp only [Slots.get_set _ hlt] at hu
      split_ifs at hu with hi
      · cases hu
        exact hi ▸ hs.ids next n hn
      · exact hs.ids i u hu

/-- Removing a task frees its kernel stack and leaves the scheduler consistent. -/
theorem removeTask_sat {Q : Bool → Kernel → Prop} (hs : SchedInv k.sched) (id : ℕ)
    (hnot : k.sched.current = some id ∨ k.sched.tasks.get id = none → Q false k)
    (huninit : k.kernelSpace = none → ∀ k', E (.panicked .kernelSpaceUninitialized) k')
    (h : ∀ t space ready, k.sched.current ≠ some id → k.sched.tasks.get id = some t →
      k.kernelSpace = some space → ready.ids = k.sched.ready.ids.erase id →
      (∀ pool, SchedInv { k.sched with
        tasks := k.sched.tasks.set id none, ready, stackPool := pool }) →
      (k.sched.stackPool.free space t.kernelStack).Sat k.machine
        (fun pool m => Q true { k with
          machine := m
          sched := { k.sched with
            tasks := k.sched.tasks.set id none, ready, stackPool := pool } })
        (fun e m => E (.panicked (.memory e)) { k with
          machine := m
          sched := { k.sched with tasks := k.sched.tasks.set id none, ready } })) :
    (removeTask id).Sat k Q E := by
  simp only [removeTask, Prog.sat_bind, Prog.sat_get]
  by_cases hcur : k.sched.current = some id
  · rw [if_pos hcur]
    exact hnot (.inl hcur)
  rw [if_neg hcur]
  cases hget : k.sched.tasks.get id with
  | none => exact hnot (.inr hget)
  | some t =>
    have hlt : id < MAX_TASKS := Slots.lt_of_get hget
    obtain ⟨-, hq, hids⟩ := hs.queue.remove id
    simp only [kernelAddressSpace, Prog.sat_bind, sat_setTask, sat_modifySched, Prog.sat_get]
    cases hspace : k.kernelSpace with
    | none => exact huninit hspace _
    | some space =>
      have hfree := h t space (k.sched.ready.remove id).2 hcur hget hspace hids
        (fun pool => hs.discard hcur hq hids rfl (fun j => Slots.get_set _ hlt j none))
      simpa only [Prog.sat_expect_some, sat_onMachine, Prog.sat_pure, Prog.sat_bind,
        hspace] using hfree

end Operations

end Dusk
