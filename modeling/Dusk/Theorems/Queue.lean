import Dusk.Proofs.Sched
import Dusk.Lib.Fifo

/-! The ready queue is a bounded list. Nothing is asked of the stale entries of the
ring, and a task may stand in the queue more than once. -/

namespace Dusk

open Lib

namespace ReadyQueue

/-- The three operations, with their answers. -/
def perform (q : ReadyQueue) : Fifo.Op ℕ → Fifo.Answer ℕ × ReadyQueue
  | .push task => (.pushed (q.pushBack task).1, (q.pushBack task).2)
  | .pop => (.popped q.popFront.1, q.popFront.2)
  | .remove task => (.removed (q.remove task).1, (q.remove task).2)

/-- Each operation answers and changes the queue as it does the list. -/
theorem WF.perform {q : ReadyQueue} (hq : q.WF) (op : Fifo.Op ℕ) :
    (q.perform op).2.WF
      ∧ ((q.perform op).1, (q.perform op).2.ids) = Fifo.perform MAX_TASKS q.ids op := by
  cases op with
  | push task =>
    unfold Fifo.perform
    rw [ids_length]
    split_ifs with hlen
    · obtain ⟨hdone, hwf, hids⟩ := hq.pushBack hlen task
      exact ⟨hwf, by simp only [ReadyQueue.perform, hdone, hids]⟩
    · have hfull : q.len = MAX_TASKS := le_antisymm hq.len (not_lt.mp hlen)
      have heq : q.pushBack task = (false, q) := by
        rw [ReadyQueue.pushBack, if_pos hfull]
      exact ⟨by rw [ReadyQueue.perform, heq]; exact hq, by simp only [ReadyQueue.perform, heq]⟩
  | pop =>
    unfold Fifo.perform
    by_cases hempty : q.len = 0
    · have heq := popFront_empty hempty
      have hids : q.ids = [] := by
        apply List.eq_nil_of_length_eq_zero
        rw [ids_length, hempty]
      refine ⟨by rw [ReadyQueue.perform, heq]; exact hq, ?_⟩
      simp only [ReadyQueue.perform, heq, hids, List.head?_nil, List.tail_nil]
    · obtain ⟨next, hnext, hwf, hids⟩ := hq.popFront hempty
      refine ⟨hwf, ?_⟩
      rw [hids]
      simp only [ReadyQueue.perform, hnext, List.head?_cons, List.tail_cons]
  | remove task =>
    obtain ⟨hdone, hwf, hids⟩ := hq.remove task
    exact ⟨hwf, by simp only [ReadyQueue.perform, Fifo.perform, hdone, hids]⟩

end ReadyQueue

/-- The ready queue refines the list of at most `MAX_TASKS` tasks: a full queue refuses
a task and stays as it is, every other operation does what it does to the list, and
over any run the tasks that have left the queue and those still in it are, in order,
the ones that entered it without those removed. -/
theorem ready_queue_refines (q : ReadyQueue) (hq : q.WF) :
    (∀ task, q.len = MAX_TASKS → q.pushBack task = (false, q))
    ∧ (∀ op, (q.perform op).2.WF
      ∧ ((q.perform op).1, (q.perform op).2.ids) = Fifo.perform MAX_TASKS q.ids op)
    ∧ ∀ ops, (Fifo.run ReadyQueue.perform q .empty ops).1.WF
      ∧ Fifo.Ordered q.ids (Fifo.run ReadyQueue.perform q .empty ops).2
        (Fifo.run ReadyQueue.perform q .empty ops).1.ids := by
  refine ⟨fun task hfull => by rw [ReadyQueue.pushBack, if_pos hfull], hq.perform, fun ops => ?_⟩
  exact Fifo.Ordered.run (fun _ op h => h.perform op) hq (Fifo.Ordered.start q.ids) ops

/-- A queue whose contents wrap around the end of the ring, a task removed in the wrap. -/
theorem ready_queue_refines_wrapped :
    let q : ReadyQueue := ⟨fun i => i, 30, 4⟩
    q.WF ∧ q.ids = [30, 31, 0, 1] ∧ (q.remove 31).2.ids = [30, 0, 1] ∧ (q.remove 31).2.WF := by
  have hq : (⟨fun i => i, 30, 4⟩ : ReadyQueue).WF := ⟨by decide, by decide⟩
  refine ⟨hq, by decide, ?_, ?_⟩
  · have heq := ((ready_queue_refines _ hq).2.1 (.remove 31)).2
    exact (congrArg Prod.snd heq).trans (by decide)
  · exact ((ready_queue_refines _ hq).2.1 (.remove 31)).1

end Dusk
