import Dusk.Model.Scheduler
import Dusk.Lib.Ring

/-! The scheduler invariant: the ready queue holds exactly the ready tasks, once
each, and the running task is the current one. Every operation of
`task/scheduler.rs` keeps it, and its assertions hold. -/

namespace Dusk

open Lib

namespace ReadyQueue

/-- The queue read from its head. -/
def ids (q : ReadyQueue) : List ℕ := ringList MAX_TASKS q.entries q.head q.len

structure WF (q : ReadyQueue) : Prop where
  head : q.head < MAX_TASKS
  len : q.len ≤ MAX_TASKS

@[simp] theorem ids_length (q : ReadyQueue) : q.ids.length = q.len := ringList_length _ _ _ _

theorem WF.pushBack {q : ReadyQueue} (hq : q.WF) (hlen : q.len < MAX_TASKS) (i : ℕ) :
    (q.pushBack i).1 = true ∧ (q.pushBack i).2.WF ∧ (q.pushBack i).2.ids = q.ids ++ [i] := by
  have hne : q.len ≠ MAX_TASKS := by omega
  simp only [ReadyQueue.pushBack, if_neg hne]
  refine ⟨trivial, ⟨hq.head, hlen⟩, ?_⟩
  exact ringList_push q.entries q.head q.len i hlen

theorem popFront_empty {q : ReadyQueue} (h : q.len = 0) : q.popFront = (none, q) := by
  simp [popFront, h]

theorem WF.popFront {q : ReadyQueue} (hq : q.WF) (h : q.len ≠ 0) :
    ∃ next, q.popFront.1 = some next ∧ q.popFront.2.WF ∧ q.ids = next :: q.popFront.2.ids := by
  obtain ⟨len, hlen⟩ := Nat.exists_eq_succ_of_ne_zero h
  simp only [ReadyQueue.popFront, if_neg h]
  refine ⟨q.entries q.head, rfl, ⟨Nat.mod_lt _ (by decide), ?_⟩, ?_⟩
  · have := hq.len
    show q.len - 1 ≤ MAX_TASKS
    omega
  · show ringList MAX_TASKS q.entries q.head q.len = _
    rw [hlen, ringList_pop, Nat.mod_eq_of_lt hq.head]
    rfl

theorem shiftDown_eq (q : ReadyQueue) (j count : ℕ) :
    q.shiftDown j count = { q with entries := ringShift MAX_TASKS q.head q.entries j count } := by
  induction count generalizing q j with
  | zero => rfl
  | succ count ih => rw [shiftDown, ih, ringShift]

theorem WF.removeFrom {q : ReadyQueue} (hq : q.WF) (task : ℕ) {i count : ℕ}
    (hi : i + count = q.len) (hbefore : ∀ j < i, q.ids[j]? ≠ some task) :
    (q.removeFrom task i count).1 = decide (task ∈ q.ids)
      ∧ (q.removeFrom task i count).2.WF
      ∧ (q.removeFrom task i count).2.ids = q.ids.erase task := by
  induction count generalizing i with
  | zero =>
    have hnot : task ∉ q.ids := by
      intro hmem
      obtain ⟨j, hj, he⟩ := List.getElem_of_mem hmem
      have hji : j < i := by rw [ids_length] at hj; omega
      exact hbefore j hji (by rw [List.getElem?_eq_getElem hj, he])
    exact ⟨(decide_eq_false hnot).symm, hq, (List.erase_of_not_mem hnot).symm⟩
  | succ count ih =>
    have hget : q.ids[i]? = some (q.entries ((q.head + i) % MAX_TASKS)) :=
      ringList_getElem? (by omega)
    rw [ReadyQueue.removeFrom]
    split_ifs with heq
    · rw [heq] at hget
      rw [shiftDown_eq]
      refine ⟨(decide_eq_true (List.mem_of_getElem? hget)).symm, ⟨hq.head, ?_⟩, ?_⟩
      · have := hq.len
        show q.len - 1 ≤ MAX_TASKS
        omega
      · rw [erase_eq_eraseIdx hget hbefore]
        exact ringList_shift q.entries q.head q.len i (by omega) hq.len
    · apply ih (by omega)
      intro j hj
      rcases Nat.lt_succ_iff_lt_or_eq.mp hj with hj | rfl
      · exact hbefore j hj
      · rw [hget]
        intro he
        exact heq (Option.some.inj he)

theorem WF.remove {q : ReadyQueue} (hq : q.WF) (task : ℕ) :
    (q.remove task).1 = decide (task ∈ q.ids) ∧ (q.remove task).2.WF
      ∧ (q.remove task).2.ids = q.ids.erase task :=
  hq.removeFrom task (by omega) (by omega)

end ReadyQueue

/-- The state of the task in a slot. -/
def Scheduler.stateOf (s : Scheduler) (i : ℕ) : Option ThreadState :=
  (s.tasks.get i).map Tcb.state

structure SchedInv (s : Scheduler) : Prop where
  queue : s.ready.WF
  nodup : s.ready.ids.Nodup
  ready : ∀ i, i ∈ s.ready.ids ↔ s.stateOf i = some .ready
  running : ∀ i, s.stateOf i = some .running ↔ s.current = some i
  ids : ∀ i t, s.tasks.get i = some t → t.id = i

theorem Scheduler.stateOf_some {s : Scheduler} {i : ℕ} {st : ThreadState} :
    s.stateOf i = some st ↔ ∃ t, s.tasks.get i = some t ∧ t.state = st := by
  simp [Scheduler.stateOf]

theorem Scheduler.stateOf_of_get {s : Scheduler} {i : ℕ} {t : Tcb} (h : s.tasks.get i = some t) :
    s.stateOf i = some t.state := by
  simp [Scheduler.stateOf, h]

theorem Scheduler.stateOf_lt {s : Scheduler} {i : ℕ} {st : ThreadState}
    (h : s.stateOf i = some st) : i < MAX_TASKS := by
  obtain ⟨t, ht, _⟩ := Scheduler.stateOf_some.mp h
  exact Slots.lt_of_get ht

namespace SchedInv

variable {s s' : Scheduler}

theorem new : SchedInv Scheduler.new where
  queue := ⟨by decide, by decide⟩
  nodup := List.nodup_nil
  ready i := by simp [Scheduler.new, ReadyQueue.ids, ReadyQueue.new, Scheduler.stateOf]
  running i := by simp [Scheduler.new, Scheduler.stateOf]
  ids i t h := by simp [Scheduler.new] at h

theorem current_get (hs : SchedInv s) {cur : ℕ} (h : s.current = some cur) :
    ∃ t, s.tasks.get cur = some t ∧ t.state = .running :=
  Scheduler.stateOf_some.mp ((hs.running cur).mpr h)

theorem head_get (hs : SchedInv s) {next : ℕ} {rest : List ℕ}
    (h : s.ready.ids = next :: rest) : ∃ t, s.tasks.get next = some t ∧ t.state = .ready :=
  Scheduler.stateOf_some.mp ((hs.ready next).mp (by simp [h]))

/-- A task that is not ready leaves room in the queue for it. -/
theorem room (hs : SchedInv s) {i : ℕ} (hi : i < MAX_TASKS) (hn : s.stateOf i ≠ some .ready) :
    s.ready.len < MAX_TASKS := by
  have hnd : (i :: s.ready.ids).Nodup :=
    List.nodup_cons.mpr ⟨fun h => hn ((hs.ready i).mp h), hs.nodup⟩
  have hsub : i :: s.ready.ids ⊆ List.range MAX_TASKS := by
    intro j hj
    rcases List.mem_cons.mp hj with rfl | hj
    · exact List.mem_range.mpr hi
    · exact List.mem_range.mpr (Scheduler.stateOf_lt ((hs.ready j).mp hj))
  have hlen := (hnd.subperm hsub).length_le
  simpa [Nat.succ_le_iff] using hlen

/-- Another task takes over from the current one, which becomes `st`. -/
theorem dispatch (hs : SchedInv s) {cur next : ℕ} {rest : List ℕ} {st : ThreadState}
    (hcur : s.current = some cur) (hids : s.ready.ids = next :: rest) (hst : st ≠ .running)
    (hq : s'.ready.WF)
    (hids' : s'.ready.ids = if st = .ready then rest ++ [cur] else rest)
    (hcur' : s'.current = some next)
    (hstate : ∀ i, s'.stateOf i =
      if i = next then some .running else if i = cur then some st else s.stateOf i)
    (hid : ∀ i t, s'.tasks.get i = some t → t.id = i) : SchedInv s' := by
  have hnext : s.stateOf next = some .ready := (hs.ready next).mp (by simp [hids])
  have hrun : s.stateOf cur = some .running := (hs.running cur).mpr hcur
  have hne : cur ≠ next := by
    rintro rfl
    rw [hnext] at hrun
    cases hrun
  have hnd := hs.nodup
  rw [hids, List.nodup_cons] at hnd
  have hcurRest : cur ∉ rest := by
    intro h
    have := (hs.ready cur).mp (by simp [hids, h])
    rw [hrun] at this
    cases this
  have hrest : ∀ i, i ∈ rest ↔ s.stateOf i = some .ready ∧ i ≠ next := by
    intro i
    rw [← hs.ready i, hids, List.mem_cons]
    constructor
    · intro h
      exact ⟨.inr h, fun he => hnd.1 (he ▸ h)⟩
    · rintro ⟨rfl | h, hn⟩
      · exact absurd rfl hn
      · exact h
  refine ⟨hq, ?_, ?_, ?_, hid⟩
  · rw [hids']
    split_ifs
    · exact List.Nodup.append hnd.2 (List.nodup_singleton _)
        (by simpa [List.disjoint_singleton] using hcurRest)
    · exact hnd.2
  · intro i
    rw [hids', hstate i]
    by_cases hin : i = next
    · have hnot : i ∉ rest := hin ▸ hnd.1
      have hnc : i ≠ cur := hin ▸ hne.symm
      rw [if_pos hin]
      split_ifs <;> simp [hnot, hnc]
    · by_cases hic : i = cur
      · rw [if_neg hin, if_pos hic]
        split_ifs with h <;> simp [h, hcurRest, hic]
      · rw [if_neg hin, if_neg hic]
        split_ifs <;> simp [hrest, hin, hic]
  · intro i
    rw [hstate i, hcur', Option.some_inj]
    by_cases hin : i = next
    · simp [hin]
    · rw [if_neg hin]
      by_cases hic : i = cur
      · rw [if_pos hic, Option.some_inj]
        exact ⟨fun h => absurd h hst, fun h => absurd h.symm hin⟩
      · rw [if_neg hic, hs.running i, hcur, Option.some_inj]
        exact ⟨fun h => absurd h.symm hic, fun h => absurd h.symm hin⟩

/-- A task enters the queue. -/
theorem enqueue (hs : SchedInv s) {i : ℕ} (hn : s.stateOf i ≠ some .ready)
    (hr : s.stateOf i ≠ some .running) (hq : s'.ready.WF)
    (hids : s'.ready.ids = s.ready.ids ++ [i]) (hcur : s'.current = s.current)
    (hstate : ∀ j, s'.stateOf j = if j = i then some .ready else s.stateOf j)
    (hid : ∀ j t, s'.tasks.get j = some t → t.id = j) : SchedInv s' := by
  have hnot : i ∉ s.ready.ids := fun h => hn ((hs.ready i).mp h)
  refine ⟨hq, ?_, ?_, ?_, hid⟩
  · rw [hids]
    exact List.Nodup.append hs.nodup (List.nodup_singleton _)
      (by simpa [List.disjoint_singleton] using hnot)
  · intro j
    rw [hids, hstate j, List.mem_append, List.mem_singleton]
    by_cases hj : j = i
    · simp [hj]
    · simp [hj, hs.ready j]
  · intro j
    rw [hstate j, hcur]
    by_cases hj : j = i
    · subst hj
      rw [if_pos rfl]
      refine ⟨fun h => by simp at h, fun h => absurd ((hs.running j).mpr h) hr⟩
    · rw [if_neg hj]
      exact hs.running j

/-- Nothing the invariant speaks of changes. -/
theorem congr (hs : SchedInv s) (hready : s'.ready = s.ready) (hcur : s'.current = s.current)
    (hstate : ∀ i, s'.stateOf i = s.stateOf i)
    (hid : ∀ i t, s'.tasks.get i = some t → t.id = i) : SchedInv s' := by
  refine ⟨?_, ?_, ?_, ?_, hid⟩
  · rw [hready]; exact hs.queue
  · rw [hready]; exact hs.nodup
  · intro i; rw [hready, hstate]; exact hs.ready i
  · intro i; rw [hcur, hstate]; exact hs.running i

/-- A task other than the current one disappears. -/
theorem discard (hs : SchedInv s) {i : ℕ} (hcuri : s.current ≠ some i) (hq : s'.ready.WF)
    (hids : s'.ready.ids = s.ready.ids.erase i) (hcur : s'.current = s.current)
    (hget : ∀ j, s'.tasks.get j = if j = i then none else s.tasks.get j) : SchedInv s' := by
  have hstate : ∀ j, s'.stateOf j = if j = i then none else s.stateOf j := by
    intro j
    rw [Scheduler.stateOf, hget j]
    split_ifs
    · rfl
    · rfl
  refine ⟨hq, ?_, ?_, ?_, ?_⟩
  · rw [hids]
    exact hs.nodup.erase i
  · intro j
    rw [hids, hs.nodup.mem_erase_iff, hstate j, hs.ready j]
    by_cases hj : j = i <;> simp [hj]
  · intro j
    rw [hstate j, hcur]
    by_cases hj : j = i
    · subst hj
      rw [if_pos rfl]
      exact ⟨fun h => (Option.some_ne_none _ h.symm).elim, fun h => absurd h hcuri⟩
    · rw [if_neg hj]
      exact hs.running j
  · intro j t hj
    rw [hget j] at hj
    split_ifs at hj with h
    exact hs.ids j t hj

end SchedInv

end Dusk
