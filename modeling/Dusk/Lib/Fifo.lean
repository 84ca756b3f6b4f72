import Mathlib.Tactic

/-! A bounded first-in first-out list with removal, and the order in which elements
leave it. `Ordered` relates a run's log to the contents: what has left and what is
still there is what has entered, in order, without the elements removed. -/

namespace Lib

namespace Fifo

variable {α σ : Type}

inductive Op (α : Type) where
  | push (a : α)
  | pop
  | remove (a : α)

inductive Answer (α : Type) where
  | pushed (done : Bool)
  | popped (a : Option α)
  | removed (done : Bool)
  deriving DecidableEq

/-- The list of at most `n` elements. -/
def perform [DecidableEq α] (n : ℕ) (l : List α) : Op α → Answer α × List α
  | .push a => if l.length < n then (.pushed true, l ++ [a]) else (.pushed false, l)
  | .pop => (.popped l.head?, l.tail)
  | .remove a => (.removed (decide (a ∈ l)), l.erase a)

/-- The elements that entered, left and were removed, in this order each. -/
structure Log (α : Type) where
  entered : List α
  left : List α
  removed : List α

def Log.empty : Log α := ⟨[], [], []⟩

def Log.add (log : Log α) : Op α → Answer α → Log α
  | .push a, .pushed true => { log with entered := log.entered ++ [a] }
  | .pop, .popped (some a) => { log with left := log.left ++ [a] }
  | .remove a, .removed true => { log with removed := log.removed ++ [a] }
  | _, _ => log

/-- A run of any implementation `step` of the operations. -/
def run (step : σ → Op α → Answer α × σ) (s : σ) (log : Log α) : List (Op α) → σ × Log α
  | [] => (s, log)
  | op :: ops => run step (step s op).2 (log.add op (step s op).1) ops

structure Ordered (initial : List α) (log : Log α) (l : List α) : Prop where
  order : (log.left ++ l).Sublist (initial ++ log.entered)
  count : (log.left ++ l ++ log.removed).Perm (initial ++ log.entered)

theorem Ordered.start (l : List α) : Ordered l Log.empty l where
  order := by simp [Log.empty]
  count := by simp [Log.empty]

variable [DecidableEq α] {initial l : List α} {log : Log α}

theorem Ordered.perform (h : Ordered initial log l) (n : ℕ) (op : Op α) :
    Ordered initial (log.add op (perform n l op).1) (perform n l op).2 := by
  cases op with
  | push a =>
    unfold Fifo.perform
    split_ifs
    · constructor
      · simp only [Log.add, ← List.append_assoc]
        exact h.order.append (List.Sublist.refl [a])
      · have hcount := h.count.append_right [a]
        simp only [Log.add, List.append_assoc] at hcount ⊢
        refine List.Perm.trans ?_ hcount
        exact List.Perm.append_left _ (List.Perm.append_left _ List.perm_append_comm)
    · exact h
  | pop =>
    cases l with
    | nil => exact h
    | cons a l =>
      constructor
      · simpa [Fifo.perform, Log.add] using h.order
      · simpa [Fifo.perform, Log.add] using h.count
  | remove a =>
    by_cases hmem : a ∈ l
    · have hperm : (l.erase a ++ (log.removed ++ [a])).Perm (l ++ log.removed) := by
        refine List.Perm.trans ?_ ((List.perm_cons_erase hmem).symm.append_right log.removed)
        rw [← List.append_assoc]
        exact List.perm_append_singleton a _
      constructor
      · simp only [Fifo.perform, Log.add, hmem, decide_true]
        exact ((List.Sublist.refl log.left).append List.erase_sublist).trans h.order
      · simp only [Fifo.perform, Log.add, hmem, decide_true, List.append_assoc]
        have hcount := h.count
        rw [List.append_assoc] at hcount
        exact (hperm.append_left log.left).trans hcount
    · have heq : l.erase a = l := List.erase_of_not_mem hmem
      simpa [Fifo.perform, Log.add, hmem, heq] using h

/-- An implementation that answers as the list does keeps the order of its contents. -/
theorem Ordered.run {step : σ → Op α → Answer α × σ} {Inv : σ → Prop} {contents : σ → List α}
    {n : ℕ} (hstep : ∀ s op, Inv s → Inv (step s op).2
      ∧ ((step s op).1, contents (step s op).2) = Fifo.perform n (contents s) op)
    {s : σ} (hs : Inv s) (h : Ordered initial log (contents s)) (ops : List (Op α)) :
    Inv (run step s log ops).1
      ∧ Ordered initial (run step s log ops).2 (contents (run step s log ops).1) := by
  induction ops generalizing s log with
  | nil => exact ⟨hs, h⟩
  | cons op ops ih =>
    obtain ⟨hinv, heq⟩ := hstep s op hs
    have hnext := h.perform n op
    rw [← heq] at hnext
    exact ih hinv hnext

end Fifo

end Lib
