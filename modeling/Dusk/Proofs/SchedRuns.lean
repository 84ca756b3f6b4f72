import Dusk.Proofs.Dispatch

/-! Runs of the scheduler by itself: any sequence of its operations, on tasks and a
machine about which nothing is known. -/

namespace Dusk

open Lib Scheduler

inductive SchedOp where
  | addTask (task : Tcb)
  | start
  | yieldCurrent
  | blockCurrent (reason : BlockReason) (saved : ThreadContext)
  | unblock (id : ℕ)
  | removeTask (id : ℕ)
  | exitCurrent (reason : ExitReason)

namespace SchedOp

def isStart : SchedOp → Bool
  | start => true
  | _ => false

/-- The ids an operation is called with are below `MAX_TASKS`. -/
def inRange : SchedOp → Prop
  | unblock id => id < MAX_TASKS
  | removeTask id => id < MAX_TASKS
  | _ => True

def program : SchedOp → KM Unit
  | addTask task => do
    let _ ← Scheduler.addTask task
    pure ()
  | start => Scheduler.start
  | yieldCurrent => Scheduler.yieldCurrent
  | blockCurrent reason saved => Scheduler.blockCurrent reason saved
  | unblock id => Scheduler.unblock id
  | removeTask id => do
    let _ ← Scheduler.removeTask id
    pure ()
  | exitCurrent reason => Scheduler.exitCurrent reason

end SchedOp

/-- A sequence of operations; a switch is followed by what the next task does, and
a halt or a panic ends the run. -/
def schedRun : List SchedOp → Kernel → Option Kernel
  | [], k => some k
  | op :: ops, k =>
    match op.program k with
    | .ok _ k' => schedRun ops k'
    | .stop .switched k' => schedRun ops k'
    | .stop _ _ => none

/-- The assertions and unwraps of the scheduler that its invariant rules out. -/
def KernelPanic.ofScheduler : KernelPanic → Bool
  | .readyQueueFull | .missingTask | .taskIndexOutOfBounds | .switchToSelf
  | .deadTaskScheduled => true
  | _ => false

/-- What one operation may do from a state of the invariant. -/
structure SchedStep (k : Kernel) (op : SchedOp) (stop : Option Stop) (k' : Kernel) : Prop where
  safe : ∀ p, stop = some (.panicked p) → p.ofScheduler = false
  inv : stop = none ∨ stop = some .switched → SchedInv k'.sched
  started : stop = none ∨ stop = some .switched →
    (k'.sched.current.isSome ↔ k.sched.current.isSome ∨ op.isStart = true)
  dispatched : stop = some .switched → ∃ next t, k'.sched.current = some next ∧
    k.sched.tasks.get next = some t ∧ t.state = .ready

theorem SchedStep.of_switched {k k' : Kernel} {op : SchedOp} {cur next : ℕ} {st : ThreadState}
    {saved : ThreadContext} (h : Switched k cur st saved next k') :
    SchedStep k op (some .switched) k' := by
  obtain ⟨_, t, _, ht, hready, _⟩ := h.tasks
  refine ⟨by simp, fun _ => h.sched, fun _ => ?_, fun _ => ⟨next, t, h.current, ht, hready⟩⟩
  simp [h.wasCurrent, h.current]

theorem SchedStep.of_stop {k k' : Kernel} {op : SchedOp} {stop : Stop}
    (hsafe : ∀ p, stop = .panicked p → p.ofScheduler = false) (hne : stop ≠ .switched) :
    SchedStep k op (some stop) k' :=
  ⟨fun p hp => hsafe p (Option.some.inj hp), by simp [hne], by simp [hne], by simp [hne]⟩

theorem SchedStep.of_ok {k k' : Kernel} {op : SchedOp} (hs : SchedInv k'.sched)
    (hcur : k'.sched.current = k.sched.current) (hop : op.isStart = false) :
    SchedStep k op none k' :=
  ⟨by simp, fun _ => hs, fun _ => by simp [hcur, hop], by simp⟩

/-- The operations that need a current task panic without one, and do not touch
anything before that but the queue. -/
theorem sat_currentTask_none {k : Kernel} {Q : ℕ → Kernel → Prop} {E : Stop → Kernel → Prop}
    (h : k.sched.current = none) :
    currentTask.Sat k Q E ↔ E (.panicked .noCurrentTask) k := by
  simp [currentTask, h]

theorem schedOp_step {k : Kernel} (hs : SchedInv k.sched) (op : SchedOp) (hop : op.inRange)
    (hstart : op.isStart = true → k.sched.current = none) :
    op.program.Sat k (fun _ k' => SchedStep k op none k')
      (fun stop k' => SchedStep k op (some stop) k') := by
  have hquiet : ∀ op', op = op' → op'.isStart = false → SchedStep k op none k := by
    rintro op' rfl h
    exact SchedStep.of_ok hs rfl h
  have hhalt : ∀ h k', SchedStep k op (some (.halted h)) k' :=
    fun h k' => SchedStep.of_stop (by simp) (by simp)
  have hnone : ∀ k', SchedStep k op (some (.panicked .noCurrentTask)) k' :=
    fun k' => SchedStep.of_stop (by simp [KernelPanic.ofScheduler]) (by simp)
  cases op with
  | addTask task =>
    simp only [SchedOp.program, Prog.sat_bind, Prog.sat_pure]
    apply addTask_sat hs task
    · exact fun _ => hquiet _ rfl rfl
    · exact .inl (SchedStep.of_stop (by simp [KernelPanic.ofScheduler]) (by simp))
    · intro id h handles ready _ _ _ hinv
      exact SchedStep.of_ok hinv rfl rfl
  | start =>
    apply start_sat hs (hstart rfl)
    · exact SchedStep.of_stop (by simp [KernelPanic.ofScheduler]) (by simp)
    · intro next n k' hn hready hinv hcur _
      exact ⟨by simp, fun _ => hinv, fun _ => by simp [hcur, SchedOp.isStart],
        fun _ => ⟨next, n, hcur, hn, hready⟩⟩
  | yieldCurrent =>
    cases hcur : k.sched.current with
    | some cur =>
      apply yieldCurrent_sat hs hcur
      · exact fun _ => hquiet _ rfl rfl
      · exact fun next k' h => SchedStep.of_switched h
    | none =>
      simp only [SchedOp.program, yieldCurrent, Prog.sat_bind, sat_popReady]
      by_cases hlen : k.sched.ready.len = 0
      · rw [ReadyQueue.popFront_empty hlen]
        exact hquiet _ rfl rfl
      · obtain ⟨next, hpop, _⟩ := hs.queue.popFront hlen
        rw [hpop]
        simp only [Prog.sat_bind]
        exact Iff.mpr (sat_currentTask_none (by exact hcur)) (hnone _)
  | blockCurrent reason saved =>
    cases hcur : k.sched.current with
    | some cur =>
      apply blockCurrent_sat hs hcur
      · exact fun _ => hhalt _ _
      · exact fun next k' h => SchedStep.of_switched h
    | none =>
      simp only [SchedOp.program, blockCurrent, Prog.sat_bind, sat_popReady]
      by_cases hlen : k.sched.ready.len = 0
      · rw [ReadyQueue.popFront_empty hlen]
        exact hhalt _ _
      · obtain ⟨next, hpop, _⟩ := hs.queue.popFront hlen
        rw [hpop]
        simp only [Prog.sat_bind]
        exact Iff.mpr (sat_currentTask_none (by exact hcur)) (hnone _)
  | unblock id =>
    apply unblock_sat hs hop
    · exact fun _ => hquiet _ rfl rfl
    · intro t reason ready _ _ hinv
      exact SchedStep.of_ok hinv rfl rfl
  | removeTask id =>
    simp only [SchedOp.program, Prog.sat_bind, Prog.sat_pure]
    apply removeTask_sat hs id
    · exact fun _ => hquiet _ rfl rfl
    · exact fun _ k' => SchedStep.of_stop (by simp [KernelPanic.ofScheduler]) (by simp)
    · intro t space ready _ _ _ _ hinv
      rw [Prog.sat_iff]
      refine ⟨fun pool m _ => SchedStep.of_ok (hinv pool) rfl rfl, fun e m _ => ?_⟩
      exact SchedStep.of_stop (by simp [KernelPanic.ofScheduler]) (by simp)
  | exitCurrent reason =>
    cases hcur : k.sched.current with
    | some cur =>
      apply exitCurrent_sat hs hcur
      · exact fun _ => hhalt _ _
      · exact fun next k' h => SchedStep.of_switched h
    | none =>
      simp only [SchedOp.program, exitCurrent, Prog.sat_bind]
      exact Iff.mpr (sat_currentTask_none hcur) (hnone _)

theorem schedRun_inv {k : Kernel} (hs : SchedInv k.sched) (ops : List SchedOp)
    (hops : ∀ op ∈ ops, op.inRange)
    (honce : ops.countP SchedOp.isStart + (if k.sched.current.isSome then 1 else 0) ≤ 1)
    {k' : Kernel} (h : schedRun ops k = some k') :
    SchedInv k'.sched ∧
      (k'.sched.current.isSome ↔ k.sched.current.isSome ∨ ∃ op ∈ ops, op.isStart = true) := by
  induction ops generalizing k with
  | nil =>
    cases h
    exact ⟨hs, by simp⟩
  | cons op ops ih =>
    have hstart : op.isStart = true → k.sched.current = none := by
      intro hop
      rw [List.countP_cons_of_pos hop] at honce
      by_contra hne
      rw [if_pos (Option.isSome_iff_ne_none.mpr hne)] at honce
      omega
    have hstep := schedOp_step hs op (hops op (by simp)) hstart
    have hnext : ∀ k₁ stop, SchedStep k op stop k₁ → (stop = none ∨ stop = some .switched) →
        schedRun ops k₁ = some k' → SchedInv k'.sched ∧
          (k'.sched.current.isSome ↔
            k.sched.current.isSome ∨ ∃ o ∈ op :: ops, o.isStart = true) := by
      intro k₁ stop hst hgo hrun
      have hiff := hst.started hgo
      have hcount : ops.countP SchedOp.isStart +
          (if k₁.sched.current.isSome then 1 else 0) ≤ 1 := by
        by_cases hop : op.isStart = true
        · rw [List.countP_cons_of_pos hop] at honce
          rw [if_pos (hiff.mpr (.inr hop))]
          omega
        · rw [List.countP_cons_of_neg hop] at honce
          simp only [hop, Bool.false_eq_true, or_false] at hiff
          simpa only [hiff] using honce
      obtain ⟨hinv, hcur⟩ := ih (hst.inv hgo) (fun o ho => hops o (by simp [ho])) hcount hrun
      refine ⟨hinv, hcur.trans ?_⟩
      rw [hiff]
      simp only [List.mem_cons, exists_eq_or_imp, or_assoc]
    rw [schedRun] at h
    cases hp : op.program k with
    | ok a k₁ =>
      rw [hp] at h
      exact hnext k₁ none (hstep.of_ok hp) (.inl rfl) h
    | stop stop k₁ =>
      rw [hp] at h
      cases stop with
      | switched => exact hnext k₁ (some .switched) (hstep.of_stop hp) (.inr rfl) h
      | status s => cases h
      | halted x => cases h
      | panicked p => cases h

/-- The scheduler invariant over every run of its operations, and what follows from
it for the next operation. -/
theorem scheduler_runs (k₀ k : Kernel) (ops : List SchedOp) (hnew : k₀.sched = Scheduler.new)
    (hops : ∀ op ∈ ops, op.inRange) (honce : ops.countP SchedOp.isStart ≤ 1)
    (hrun : schedRun ops k₀ = some k) :
    k.sched.ready.ids.Nodup ∧
    (∀ i, i ∈ k.sched.ready.ids ↔ ∃ t, k.sched.tasks.get i = some t ∧ t.state = .ready) ∧
    ((∃ op ∈ ops, op.isStart = true) → ∃ cur, k.sched.current = some cur ∧
      (∃ t, k.sched.tasks.get cur = some t ∧ t.state = .running) ∧
      ∀ i t, k.sched.tasks.get i = some t → t.state = .running → i = cur) ∧
    (∀ i t, k.sched.tasks.get i = some t →
      (∃ reason, t.state = .blocked reason) ∨ (∃ reason, t.state = .dead reason) →
      i ∉ k.sched.ready.ids) ∧
    (∀ i t, k.sched.tasks.get i = some t → t.id = i) ∧
    ∀ op : SchedOp, op.inRange → (op.isStart = true → ∀ op' ∈ ops, op'.isStart = false) →
      ∀ stop k', op.program k = .stop stop k' →
        (∀ p, stop = .panicked p → p.ofScheduler = false) ∧
        (stop = .switched → ∃ next t, k'.sched.current = some next ∧
          k.sched.tasks.get next = some t ∧ t.state = .ready) := by
  have hnone : k₀.sched.current = none := by rw [hnew]; rfl
  obtain ⟨hinv, hcur⟩ := schedRun_inv (hnew ▸ SchedInv.new) ops hops
    (by simpa [hnone] using honce) hrun
  simp only [hnone, Option.isSome_none, Bool.false_eq_true, false_or] at hcur
  refine ⟨hinv.nodup, ?_, ?_, ?_, hinv.ids, ?_⟩
  · intro i
    rw [hinv.ready i, Scheduler.stateOf_some]
  · intro hstarted
    obtain ⟨cur, hc⟩ := Option.isSome_iff_exists.mp (hcur.mpr hstarted)
    refine ⟨cur, hc, hinv.current_get hc, ?_⟩
    intro i t ht hrunning
    have hi := (hinv.running i).mp (by rw [Scheduler.stateOf_of_get ht, hrunning])
    rw [hc] at hi
    exact (Option.some.inj hi).symm
  · intro i t ht hst hmem
    have hready := (hinv.ready i).mp hmem
    rw [Scheduler.stateOf_of_get ht, Option.some_inj] at hready
    rcases hst with ⟨reason, h⟩ | ⟨reason, h⟩
    · rw [h] at hready
      cases hready
    · rw [h] at hready
      cases hready
  · intro op hop hfirst stop k' hp
    have hstart : op.isStart = true → k.sched.current = none := by
      intro h
      by_contra hne
      obtain ⟨op', hmem, hs'⟩ := hcur.mp (Option.isSome_iff_ne_none.mpr hne)
      rw [hfirst h op' hmem] at hs'
      cases hs'
    have hstep := (schedOp_step hinv op hop hstart).of_stop hp
    exact ⟨fun p h => hstep.safe p (congrArg some h), fun h => hstep.dispatched (congrArg some h)⟩

/-- A kernel before its first task, and a task for it. -/
def freshKernel : Kernel where
  machine := ⟨⟨.nil⟩, ⟨⟨0, 0⟩, 0, 0, 0, ⟨0⟩⟩,
    ⟨40, true, true, .fourLevel, PagingConfig.width_forty⟩, 0, 0, [], fun _ => [], 0, [], []⟩
  kernelSpace := none
  spaces := Slots.empty
  sched := Scheduler.new
  pending := none
  accesses := []
  debugAssertions := true

def freshTask : Tcb :=
  ⟨0, 0, .ready, ⟨0, 0, 0, 0⟩, .userEntry 0 0, Mailbox.new, HandleTable.new⟩

/-- Three tasks start, wait, are woken and exit in turn. -/
def freshOps : List SchedOp :=
  [.addTask freshTask, .addTask freshTask, .addTask freshTask, .start, .yieldCurrent,
    .blockCurrent .recv .afterExit, .unblock 1, .exitCurrent .killed]

theorem scheduler_runs_fresh : ∃ k, schedRun freshOps freshKernel = some k ∧
    k.sched.ready.ids.Nodup ∧ k.sched.current = some 0 := by
  have hrun : ((schedRun freshOps freshKernel).map fun k => k.sched.current) = some (some 0) := by
    decide
  obtain ⟨k, hk, hcur⟩ := Option.map_eq_some_iff.mp hrun
  refine ⟨k, hk, ?_, hcur⟩
  have hops : ∀ op ∈ freshOps, op.inRange := by
    simp [freshOps, SchedOp.inRange, MAX_TASKS]
  exact (scheduler_runs freshKernel k freshOps rfl hops (by decide) hk).1

end Dusk
