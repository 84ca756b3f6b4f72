import Mathlib.Tactic

/-! Tables of `n` slots, each empty or holding a value: the first empty slot, and
reading and writing single slots. Reading outside the table gives nothing. -/

namespace Lib

structure Slots (α : Type) (n : ℕ) where
  get : ℕ → Option α
  inBounds : ∀ i, n ≤ i → get i = none

namespace Slots

variable {α : Type} {n : ℕ}

def empty : Slots α n := ⟨fun _ => none, fun _ _ => rfl⟩

/-- Write slot `i`; outside the table this does nothing. -/
def set (t : Slots α n) (i : ℕ) (v : Option α) : Slots α n where
  get j := if j = i ∧ i < n then v else t.get j
  inBounds j hj := by
    rw [if_neg (by omega)]
    exact t.inBounds j hj

def firstEmpty (t : Slots α n) : Option ℕ := (List.range n).find? fun i => (t.get i).isNone

@[simp] theorem get_empty (i : ℕ) : (empty : Slots α n).get i = none := rfl

theorem get_set (t : Slots α n) {i : ℕ} (hi : i < n) (j : ℕ) (v : Option α) :
    (t.set i v).get j = if j = i then v else t.get j := by
  simp [set, hi]

@[simp] theorem get_set_self (t : Slots α n) {i : ℕ} (hi : i < n) (v : Option α) :
    (t.set i v).get i = v := by
  simp [set, hi]

theorem get_set_of_ne (t : Slots α n) {i j : ℕ} (h : j ≠ i) (v : Option α) :
    (t.set i v).get j = t.get j := by
  simp [set, h]

@[ext] theorem ext {t t' : Slots α n} (h : ∀ i, t.get i = t'.get i) : t = t' := by
  obtain ⟨get, _⟩ := t
  obtain ⟨get', _⟩ := t'
  have : get = get' := funext h
  subst this
  rfl

theorem set_set (t : Slots α n) (i : ℕ) (v w : Option α) : (t.set i v).set i w = t.set i w := by
  ext1 j
  simp only [set]
  by_cases hj : j = i ∧ i < n <;> simp [hj]

theorem set_self {t : Slots α n} {i : ℕ} {v : Option α} (h : t.get i = v) : t.set i v = t := by
  ext1 j
  simp only [set]
  by_cases hj : j = i ∧ i < n
  · rw [if_pos hj, hj.1, h]
  · rw [if_neg hj]

theorem lt_of_get {t : Slots α n} {i : ℕ} {a : α} (h : t.get i = some a) : i < n := by
  by_contra hn
  rw [t.inBounds i (by omega)] at h
  cases h

theorem firstEmpty_some {t : Slots α n} {i : ℕ} (h : t.firstEmpty = some i) :
    i < n ∧ t.get i = none := by
  have hmem := List.mem_of_find?_eq_some h
  have hp := List.find?_some h
  exact ⟨List.mem_range.mp hmem, by simpa using hp⟩

end Slots

end Lib
