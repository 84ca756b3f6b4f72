import Dusk.Proofs.Licence
import Dusk.Proofs.SchedRuns

/-! The order in which tasks get the processor: a ready task waits for those before it in
the queue, and for nobody else. -/

namespace Dusk

open Lib Scheduler

/-- The switches of a run. -/
def dispatches : List SchedOp → Kernel → ℕ
  | [], _ => 0
  | op :: ops, k =>
    match op.program k with
    | .ok _ k' => dispatches ops k'
    | .stop .switched k' => dispatches ops k' + 1
    | .stop _ _ => 0

/-- The queue and the current task stay, and nobody is switched to. -/
def still : Prog.Licence Kernel Stop where
  R k k' := k'.sched.ready = k.sched.ready ∧ k'.sched.current = k.sched.current
  E stop := stop ≠ .switched
  refl _ := ⟨rfl, rfl⟩
  trans _ _ _ h h' := ⟨h'.1.trans h.1, h'.2.trans h.2⟩

theorem still_edits : Edits still where
  panicked p := by simp [still]
  tasks _ _ := ⟨rfl, rfl⟩
  machine _ _ := ⟨rfl, rfl⟩
  pending _ _ := ⟨rfl, rfl⟩

/-- An operation that returns: tasks join the queue at its end, or one is taken out. -/
structure Queued (op : SchedOp) (k k' : Kernel) : Prop where
  wf : k'.sched.ready.WF
  ids : (∃ new, k'.sched.ready.ids = k.sched.ready.ids ++ new) ∨
    ∃ id, op = .removeTask id ∧ k'.sched.ready.ids = k.sched.ready.ids.erase id

/-- An operation that switches: the first task of the queue gets the processor. -/
structure Turned (k k' : Kernel) : Prop where
  wf : k'.sched.ready.WF
  ids : ∃ next rest new, k.sched.ready.ids = next :: rest ∧ k'.sched.ready.ids = rest ++ new ∧
    k'.sched.current = some next

section Operations

variable {k : Kernel}

theorem Queued.refl {op : SchedOp} (h : k.sched.ready.WF) : Queued op k k :=
  ⟨h, .inl ⟨[], (List.append_nil _).symm⟩⟩

theorem pushReady_queue (h : k.sched.ready.WF) (id : ℕ) :
    (pushReady id).Sat k (fun _ k' => k'.sched.ready.WF ∧
      k'.sched.ready.ids = k.sched.ready.ids ++ [id] ∧ k'.sched.current = k.sched.current)
      (fun stop _ => stop ≠ .switched) := by
  simp only [pushReady, Prog.sat_bind, Prog.sat_get, sat_modifySched, Prog.sat_assert]
  by_cases hlen : k.sched.ready.len < MAX_TASKS
  · obtain ⟨hpushed, hwf, hids⟩ := h.pushBack hlen id
    rw [if_pos hpushed]
    exact ⟨hwf, hids, trivial⟩
  · have hfull : k.sched.ready.len = MAX_TASKS := le_antisymm h.len (not_lt.mp hlen)
    rw [ReadyQueue.pushBack, if_pos hfull]
    simp

/-- The end of the operations that give up the processor. -/
theorem switchTo_queue (currentId nextId : ℕ) (saved : ThreadContext) :
    (switchTo currentId nextId saved).Sat k (fun _ _ => False) fun stop k' =>
      stop = .switched → k'.sched.ready = k.sched.ready ∧ k'.sched.current = some nextId := by
  have hstop : ∀ stop : Stop, ∀ k' : Kernel, still.E stop → stop = .switched →
      k'.sched.ready = k.sched.ready ∧ k'.sched.current = some nextId :=
    fun _ _ hne heq => absurd heq hne
  simp only [switchTo, Prog.sat_bind, sat_modifySched, Prog.sat_stop]
  refine ((still_edits.setState nextId .running) k).mono ?_ fun stop k' => hstop stop k'
  rintro _ k₁ ⟨hready₁, _⟩
  refine ((still_edits.makeSwitch currentId nextId saved) _).mono ?_ fun stop k' => hstop stop k'
  rintro s k₂ ⟨hready₂, hcurrent₂⟩
  refine ((still_edits.perform s) k₂).mono ?_ fun stop k' => hstop stop k'
  rintro _ k₃ ⟨hready₃, hcurrent₃⟩ _
  exact ⟨hready₃.trans (hready₂.trans hready₁), hcurrent₃.trans hcurrent₂⟩

/-- The operations that give up the processor begin by taking the first task of the queue. -/
theorem popReady_queue (h : k.sched.ready.WF) {α : Type} {f : Option ℕ → KM α}
    {Q : α → Kernel → Prop} {E : Stop → Kernel → Prop}
    (hnone : ∀ k', k'.sched = k.sched → (f none).Sat k' Q E)
    (hsome : ∀ next rest k', k.sched.ready.ids = next :: rest → k'.sched.ready.WF →
      k'.sched.ready.ids = rest → (f (some next)).Sat k' Q E) :
    (popReady >>= f).Sat k Q E := by
  rw [Prog.sat_bind, sat_popReady]
  by_cases hlen : k.sched.ready.len = 0
  · rw [ReadyQueue.popFront_empty hlen]
    exact hnone _ rfl
  · obtain ⟨next, hpop, hwf, hids⟩ := h.popFront hlen
    rw [hpop]
    exact hsome next _ _ hids hwf rfl

/-- Something that leaves the queue alone is done first. -/
theorem still_first {α β : Type} {p : KM α} (hp : Prog.Keeps still p) {f : α → KM β}
    {Q : β → Kernel → Prop} {E : Kernel → Prop}
    (hf : ∀ a k', still.R k k' → (f a).Sat k' Q fun stop k' => stop = .switched → E k') :
    (p >>= f).Sat k Q fun stop k' => stop = .switched → E k' := by
  rw [Prog.sat_bind]
  exact (hp k).mono hf fun _ _ hne heq => absurd heq hne

theorem switchTo_turned {k₀ : Kernel} {next : ℕ} {rest : List ℕ} (new : List ℕ)
    (hids : k₀.sched.ready.ids = next :: rest) (hwf : k.sched.ready.WF)
    (hrest : k.sched.ready.ids = rest ++ new) (currentId : ℕ) (saved : ThreadContext)
    {Q : Unit → Kernel → Prop} :
    (switchTo currentId next saved).Sat k Q fun stop k' => stop = .switched → Turned k₀ k' := by
  refine (switchTo_queue currentId next saved).mono (fun _ _ hf => hf.elim) fun stop k' hsw heq => ?_
  obtain ⟨hready, hcurrent⟩ := hsw heq
  exact ⟨by rw [hready]; exact hwf, next, rest, new, hids, by rw [hready, hrest], hcurrent⟩

theorem schedOp_queue (h : k.sched.ready.WF) (op : SchedOp) :
    op.program.Sat k (fun _ k' => Queued op k k') fun stop k' => stop = .switched → Turned k k' := by
  have hsame : ∀ k' : Kernel, k'.sched = k.sched → Queued op k k' := by
    intro k' hk'
    have hwf : k'.sched.ready.WF := by rw [hk']; exact h
    exact ⟨hwf, .inl ⟨[], by rw [hk', List.append_nil]⟩⟩
  have hpushed : ∀ id, ∀ k' : Kernel, k'.sched.ready = k.sched.ready → (pushReady id).Sat k'
      (fun _ k' => Queued op k k') fun stop k' => stop = .switched → Turned k k' := by
    intro id k' hk'
    refine (pushReady_queue (by rw [hk']; exact h) id).mono ?_ fun _ _ hne heq => absurd heq hne
    rintro _ k₁ ⟨hwf, hids, _⟩
    exact ⟨hwf, .inl ⟨[id], by rw [hids, hk']⟩⟩
  cases op with
  | yieldCurrent =>
    refine popReady_queue h hsame fun next rest k₁ hids hwf hrest => ?_
    refine still_first still_edits.currentTask fun cur k₂ hstill₂ => ?_
    refine still_first (still_edits.setState cur .ready) fun _ k₃ hstill₃ => ?_
    have hready : k₃.sched.ready = k₁.sched.ready := hstill₃.1.trans hstill₂.1
    rw [Prog.sat_bind]
    refine (pushReady_queue (by rw [hready]; exact hwf) cur).mono ?_
      fun _ _ hne heq => absurd heq hne
    rintro _ k₄ ⟨hwf₄, hids₄, _⟩
    refine switchTo_turned [cur] hids hwf₄ ?_ cur .afterYield
    rw [hids₄, hready, hrest]
  | blockCurrent reason saved =>
    refine popReady_queue h (fun _ _ => ?_) fun next rest k₁ hids hwf hrest => ?_
    · rw [Prog.sat_stop]
      simp
    refine still_first still_edits.currentTask fun cur k₂ hstill₂ => ?_
    refine still_first (still_edits.setState cur _) fun _ k₃ hstill₃ => ?_
    have hready : k₃.sched.ready = k₁.sched.ready := hstill₃.1.trans hstill₂.1
    exact switchTo_turned [] hids (by rw [hready]; exact hwf)
      (by rw [hready, hrest, List.append_nil]) cur saved
  | exitCurrent reason =>
    refine still_first still_edits.currentTask fun cur k₁ hstill₁ => ?_
    have hids₁ : k₁.sched.ready.ids = k.sched.ready.ids := by rw [hstill₁.1]
    refine popReady_queue (by rw [hstill₁.1]; exact h) (fun _ _ => ?_)
      fun next rest k₂ hids hwf hrest => ?_
    · rw [Prog.sat_stop]
      simp
    refine still_first (still_edits.setState cur _) fun _ k₃ hstill₃ => ?_
    rw [Prog.sat_bind]
    exact switchTo_turned [] (hids₁ ▸ hids) (by rw [hstill₃.1]; exact hwf)
      (by rw [hstill₃.1, hrest, List.append_nil]) cur .afterExit
  | start =>
    refine popReady_queue h (fun _ _ => ?_) fun next rest k₁ hids hwf hrest => ?_
    · rw [sat_panic]
      simp
    refine still_first (still_edits.unwrapTask next) fun n k₂ hstill₂ => ?_
    refine still_first (still_edits.setState next .running) fun _ k₃ hstill₃ => ?_
    rw [Prog.sat_bind, sat_modifySched]
    refine still_first (still_edits.perform _) fun _ k₄ hstill₄ => ?_
    have hready : k₄.sched.ready = k₁.sched.ready :=
      hstill₄.1.trans (hstill₃.1.trans hstill₂.1)
    intro _
    exact ⟨by rw [hready]; exact hwf, next, rest, [], hids, by rw [hready, hrest, List.append_nil],
      hstill₄.2⟩
  | addTask task =>
    simp only [SchedOp.program, Scheduler.addTask, Prog.sat_bind, Prog.sat_get]
    cases hfirst : k.sched.tasks.firstEmpty with
    | none => exact hsame k rfl
    | some id =>
      cases hpush : HandleTable.push task.handles
          ⟨.thread id, Rights.READ ||| Rights.WRITE ||| Rights.EXECUTE⟩ with
      | none =>
        simp [hpush]
      | some p =>
        obtain ⟨slot, handles⟩ := p
        simp only [hpush, Prog.sat_bind, sat_setTask]
        exact hpushed id _ rfl
  | unblock id =>
    simp only [SchedOp.program, Scheduler.unblock, Prog.sat_bind, Prog.sat_get]
    split
    · cases hget : k.sched.tasks.get id with
      | none => exact hsame k rfl
      | some task =>
        cases hstate : task.state with
        | blocked reason =>
          simp only [hstate, Prog.sat_bind, sat_setTask]
          exact hpushed id _ rfl
        | ready | running | dead =>
          simp only [hstate, Prog.sat_pure]
          exact hsame k rfl
    · simp
  | removeTask id =>
    simp only [SchedOp.program, Scheduler.removeTask, Prog.sat_bind, Prog.sat_get]
    split
    · exact hsame k rfl
    · cases hget : k.sched.tasks.get id with
      | none => exact hsame k rfl
      | some task =>
        obtain ⟨_, hwf, hids⟩ := h.remove id
        rw [Prog.sat_bind, sat_setTask, Prog.sat_bind, sat_modifySched]
        have hspace : Prog.Keeps still kernelAddressSpace :=
          Prog.keeps_get.bind fun _ => Prog.keeps_expect (still_edits.panicked _) _
        refine still_first hspace fun space k₁ hstill₁ => ?_
        refine still_first (still_edits.onMachine _) fun pool k₂ hstill₂ => ?_
        have hready : k₂.sched.ready = (k.sched.ready.remove id).2 := hstill₂.1.trans hstill₁.1
        rw [Prog.sat_bind, sat_modifySched, Prog.sat_pure, Prog.sat_pure]
        refine ⟨?_, .inr ⟨id, rfl, ?_⟩⟩
        · show k₂.sched.ready.WF
          rw [hready]
          exact hwf
        · show k₂.sched.ready.ids = _
          rw [hready, hids]

end Operations

/-- One operation of a run, before what follows it. -/
theorem schedRun_cons {op : SchedOp} {ops : List SchedOp} {k k' : Kernel}
    (hwf : k.sched.ready.WF) (h : schedRun (op :: ops) k = some k') :
    ∃ k₁, (∀ os, schedRun (op :: os) k = schedRun os k₁) ∧
      ((Queued op k k₁ ∧ ∀ os, dispatches (op :: os) k = dispatches os k₁) ∨
        (Turned k k₁ ∧ ∀ os, dispatches (op :: os) k = dispatches os k₁ + 1)) := by
  have hop := schedOp_queue hwf op
  rw [schedRun] at h
  cases hp : op.program k with
  | ok a k₁ =>
    exact ⟨k₁, fun os => by simp [schedRun, hp],
      .inl ⟨hop.of_ok hp, fun os => by simp [dispatches, hp]⟩⟩
  | stop stop k₁ =>
    rw [hp] at h
    cases stop with
    | switched =>
      exact ⟨k₁, fun os => by simp [schedRun, hp],
        .inr ⟨hop.of_stop hp rfl, fun os => by simp [dispatches, hp]⟩⟩
    | status | halted | panicked => cases h

theorem schedRun_wf {ops : List SchedOp} {k k' : Kernel} (hwf : k.sched.ready.WF)
    (h : schedRun ops k = some k') : k'.sched.ready.WF := by
  induction ops generalizing k with
  | nil =>
    cases h
    exact hwf
  | cons op ops ih =>
    obtain ⟨k₁, hrest, hstep⟩ := schedRun_cons hwf h
    rw [hrest] at h
    rcases hstep with ⟨hqueued, _⟩ | ⟨hturned, _⟩
    · exact ih hqueued.wf h
    · exact ih hturned.wf h

theorem mem_take_erase {l : List ℕ} {i id n : ℕ} (hne : i ≠ id) (h : i ∈ l.take n) :
    i ∈ (l.erase id).take n := by
  induction l generalizing n with
  | nil => simp at h
  | cons a l ih =>
    cases n with
    | zero => simp at h
    | succ n =>
      rw [List.take_succ_cons, List.mem_cons] at h
      by_cases ha : a = id
      · subst ha
        rw [List.erase_cons_head]
        have hmem : i ∈ l.take n := h.resolve_left hne
        exact (List.take_subset_take_left l (Nat.le_succ n)) hmem
      · rw [List.erase_cons_tail (by simpa using ha), List.take_succ_cons, List.mem_cons]
        exact h.imp_right ih

theorem mem_take_append {l new : List ℕ} {i n : ℕ} (h : i ∈ l.take n) : i ∈ (l ++ new).take n :=
  ((List.prefix_append l new).take n).subset h

/-- A run with enough switches comes to a task among the first `n` of the queue. -/
theorem ready_turn {ops : List SchedOp} {k k' : Kernel} {i n : ℕ} (hwf : k.sched.ready.WF)
    (hi : i ∈ k.sched.ready.ids.take n) (hrun : schedRun ops k = some k')
    (hcount : n ≤ dispatches ops k) : ∃ first last k'', ops = first ++ last ∧
      schedRun first k = some k'' ∧ dispatches first k ≤ n ∧
      (k''.sched.current = some i ∨ .removeTask i ∈ first) := by
  induction ops generalizing k n with
  | nil =>
    have hn : n = 0 := Nat.le_zero.mp hcount
    rw [hn, List.take_zero] at hi
    cases hi
  | cons op ops ih =>
    obtain ⟨k₁, hrest, hstep⟩ := schedRun_cons hwf hrun
    rw [hrest] at hrun
    rcases hstep with ⟨hqueued, hsame⟩ | ⟨hturned, hmore⟩
    · by_cases hop : op = .removeTask i
      · refine ⟨[op], ops, k₁, rfl, hrest [], ?_, .inr (by simp [hop])⟩
        rw [hsame]
        exact Nat.zero_le n
      have hi₁ : i ∈ k₁.sched.ready.ids.take n := by
        rcases hqueued.ids with ⟨new, hids⟩ | ⟨id, hid, hids⟩
        · rw [hids]
          exact mem_take_append hi
        · rw [hids]
          exact mem_take_erase (by rintro rfl; exact hop hid) hi
      rw [hsame] at hcount
      obtain ⟨first, last, k'', hsplit, hfirst, hle, hend⟩ := ih hqueued.wf hi₁ hrun hcount
      refine ⟨op :: first, last, k'', by rw [hsplit]; rfl, by rw [hrest, hfirst], ?_, ?_⟩
      · rw [hsame]
        exact hle
      · exact hend.imp_right (List.mem_cons_of_mem op)
    · obtain ⟨next, rest, new, hids, hids₁, hcurrent⟩ := hturned.ids
      rw [hmore] at hcount
      obtain ⟨m, rfl⟩ : ∃ m, n = m + 1 := by
        cases n with
        | zero => simp at hi
        | succ m => exact ⟨m, rfl⟩
      rw [hids, List.take_succ_cons, List.mem_cons] at hi
      by_cases hnext : i = next
      · refine ⟨[op], ops, k₁, rfl, hrest [], ?_, .inl (by rw [hcurrent, hnext])⟩
        rw [hmore]
        exact Nat.succ_le_succ (Nat.zero_le m)
      · have hi₁ : i ∈ k₁.sched.ready.ids.take m := by
          rw [hids₁]
          exact mem_take_append (hi.resolve_left hnext)
        obtain ⟨first, last, k'', hsplit, hfirst, hle, hend⟩ := ih hturned.wf hi₁ hrun (by omega)
        refine ⟨op :: first, last, k'', by rw [hsplit]; rfl, by rw [hrest, hfirst], ?_, ?_⟩
        · rw [hmore]
          omega
        · exact hend.imp_right (List.mem_cons_of_mem op)

/-- No starvation: a task with `p` others before it in the queue gets the processor by the
switch after `p` more, whatever operations follow in whatever order, unless it is removed. -/
theorem ready_task_runs {k₀ k k' : Kernel} {ops ops' : List SchedOp} {i p : ℕ}
    (hnew : k₀.sched = Scheduler.new) (hrun : schedRun ops k₀ = some k)
    (hi : k.sched.ready.ids[p]? = some i) (hrun' : schedRun ops' k = some k')
    (hcount : p < dispatches ops' k) : ∃ first last k'', ops' = first ++ last ∧
      schedRun first k = some k'' ∧ dispatches first k ≤ p + 1 ∧
      (k''.sched.current = some i ∨ .removeTask i ∈ first) := by
  have hwf₀ : k₀.sched.ready.WF := by
    rw [hnew]
    exact SchedInv.new.queue
  have hmem : i ∈ k.sched.ready.ids.take (p + 1) := by
    rw [List.mem_take_iff_getElem]
    obtain ⟨hlt, hget⟩ := List.getElem?_eq_some_iff.mp hi
    exact ⟨p, by omega, hget⟩
  exact ready_turn (schedRun_wf hwf₀ hrun) hmem hrun' hcount

/-- Three tasks, of which the last one waits for two switches. -/
theorem ready_task_runs_fresh : ∃ k k' first last k'',
    schedRun [.addTask freshTask, .addTask freshTask, .addTask freshTask, .start] freshKernel =
      some k ∧
    schedRun [.yieldCurrent, .unblock 1, .yieldCurrent] k = some k' ∧
    [SchedOp.yieldCurrent, .unblock 1, .yieldCurrent] = first ++ last ∧
    schedRun first k = some k'' ∧ dispatches first k ≤ 2 ∧
    (k''.sched.current = some 2 ∨ .removeTask 2 ∈ first) := by
  have hrun : ((schedRun [.addTask freshTask, .addTask freshTask, .addTask freshTask, .start]
      freshKernel).any fun k => decide (k.sched.ready.ids[1]? = some 2) &&
        decide (1 < dispatches [.yieldCurrent, .unblock 1, .yieldCurrent] k) &&
        (schedRun [.yieldCurrent, .unblock 1, .yieldCurrent] k).isSome) = true := by
    decide
  obtain ⟨k, hk, htest⟩ := (Option.any_eq_true _ _).mp hrun
  simp only [Bool.and_eq_true, decide_eq_true_eq] at htest
  obtain ⟨⟨hi, hcount⟩, hsome⟩ := htest
  obtain ⟨k', hk'⟩ := Option.isSome_iff_exists.mp hsome
  obtain ⟨first, last, k'', hsplit, hfirst, hle, hend⟩ := ready_task_runs rfl hk hi hk' hcount
  exact ⟨k, k', first, last, k'', hk, hk', hsplit, hfirst, hle, hend⟩

end Dusk
