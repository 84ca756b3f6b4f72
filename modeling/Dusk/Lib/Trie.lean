import Mathlib.Tactic

/-! A finite map on the natural numbers, kept as a binary trie over the digits
of the key. A lookup follows only as many constructors as the key has bits, so
closed programs over large sparse stores still evaluate in the kernel. -/

namespace Lib

/-- The binary digits of `k`, lowest first; `fuel` bounds their number. -/
def digits : ℕ → ℕ → List Bool
  | 0, _ => []
  | fuel + 1, k => if k = 0 then [] else (k % 2 == 1) :: digits fuel (k / 2)

def ofDigits : List Bool → ℕ
  | [] => 0
  | b :: bs => b.toNat + 2 * ofDigits bs

theorem ofDigits_digits (fuel k : ℕ) (h : k ≤ fuel) : ofDigits (digits fuel k) = k := by
  induction fuel generalizing k with
  | zero => simp [digits, ofDigits]; omega
  | succ fuel ih =>
    by_cases hk : k = 0
    · simp [digits, hk, ofDigits]
    · rw [digits, if_neg hk, ofDigits, ih (k / 2) (by omega)]
      rcases Nat.mod_two_eq_zero_or_one k with h0 | h1
      · simp [h0]; omega
      · simp [h1]; omega

theorem digits_inj {j k : ℕ} (h : digits j j = digits k k) : j = k := by
  rw [← ofDigits_digits j j le_rfl, h, ofDigits_digits k k le_rfl]

inductive Trie (α : Type) where
  | nil
  | node (value : Option α) (even odd : Trie α)

namespace Trie

variable {α : Type}

def get : Trie α → List Bool → Option α
  | nil, _ => none
  | node v _ _, [] => v
  | node _ e _, false :: ks => e.get ks
  | node _ _ o, true :: ks => o.get ks

def set (a : α) : List Bool → Trie α → Trie α
  | [], nil => node (some a) nil nil
  | [], node _ e o => node (some a) e o
  | false :: ks, nil => node none (set a ks nil) nil
  | false :: ks, node v e o => node v (set a ks e) o
  | true :: ks, nil => node none nil (set a ks nil)
  | true :: ks, node v e o => node v e (set a ks o)

theorem get_set_same (a : α) (ks : List Bool) (t : Trie α) : (set a ks t).get ks = some a := by
  induction ks generalizing t with
  | nil => cases t <;> rfl
  | cons k ks ih => cases t <;> cases k <;> exact ih _

theorem get_set_ne (a : α) {js ks : List Bool} (h : js ≠ ks) (t : Trie α) :
    (set a ks t).get js = t.get js := by
  induction ks generalizing t js with
  | nil =>
    cases js with
    | nil => exact absurd rfl h
    | cons j js => cases t <;> cases j <;> rfl
  | cons k ks ih =>
    cases js with
    | nil => cases t <;> cases k <;> rfl
    | cons j js =>
      by_cases hjk : j = k
      · subst hjk
        have hne : js ≠ ks := fun he => h (by rw [he])
        cases t <;> cases j <;> simp [set, get, ih hne]
      · cases t <;> cases j <;> cases k <;> simp_all [set, get]

def find (t : Trie α) (k : ℕ) : Option α := t.get (digits k k)

def insert (t : Trie α) (k : ℕ) (a : α) : Trie α := t.set a (digits k k)

theorem find_insert (t : Trie α) (j k : ℕ) (a : α) :
    (t.insert k a).find j = if j = k then some a else t.find j := by
  unfold find insert
  split_ifs with h
  · subst h; exact get_set_same a _ t
  · exact get_set_ne a (fun he => h (digits_inj he)) t

@[simp] theorem find_nil (k : ℕ) : (nil : Trie α).find k = none := rfl

end Trie

end Lib
