import Mathlib.Tactic

/-! Circular buffers: `ringList n e h len` is the queue held by the array `e` of
capacity `n` from position `h` on. Stale entries outside it are irrelevant. -/

namespace Lib

variable {α : Type}

def ringList (n : ℕ) (e : ℕ → α) (h len : ℕ) : List α :=
  (List.range len).map fun i => e ((h + i) % n)

@[simp] theorem ringList_zero (n : ℕ) (e : ℕ → α) (h : ℕ) : ringList n e h 0 = [] := rfl

@[simp] theorem ringList_length (n : ℕ) (e : ℕ → α) (h len : ℕ) :
    (ringList n e h len).length = len := by simp [ringList]

theorem ringList_getElem? {n : ℕ} {e : ℕ → α} {h len i : ℕ} (hi : i < len) :
    (ringList n e h len)[i]? = some (e ((h + i) % n)) := by
  simp [ringList, hi]

/-- Two positions of a window no longer than the buffer are different slots. -/
theorem ring_slot_inj {n h i j : ℕ} (hi : i < n) (hj : j < n)
    (he : (h + i) % n = (h + j) % n) : i = j := by
  have hmod : i ≡ j [MOD n] := Nat.ModEq.add_left_cancel' h he
  rwa [Nat.ModEq, Nat.mod_eq_of_lt hi, Nat.mod_eq_of_lt hj] at hmod

theorem ringList_push {n : ℕ} (e : ℕ → α) (h len : ℕ) (a : α) (hlen : len < n) :
    ringList n (Function.update e ((h + len) % n) a) h (len + 1) = ringList n e h len ++ [a] := by
  rw [ringList, List.range_succ, List.map_append]
  congr 1
  · apply List.map_congr_left
    intro i hi
    have hi := List.mem_range.mp hi
    rw [Function.update_of_ne]
    intro he
    have := ring_slot_inj (by omega) hlen he
    omega
  · simp

theorem ringList_pop {n : ℕ} (e : ℕ → α) (h len : ℕ) :
    ringList n e h (len + 1) = e (h % n) :: ringList n e ((h + 1) % n) len := by
  rw [ringList, List.range_succ_eq_map, List.map_cons, List.map_map]
  congr 1
  apply List.map_congr_left
  intro i _
  simp only [Function.comp_apply]
  congr 1
  rw [Nat.mod_add_mod]
  congr 1
  omega

/-- Move the entries after position `j` one position down, `count` of them. -/
def ringShift (n h : ℕ) (e : ℕ → α) (j : ℕ) : ℕ → ℕ → α
  | 0 => e
  | count + 1 =>
    ringShift n h (Function.update e ((h + j) % n) (e ((h + j + 1) % n))) (j + 1) count

theorem ringShift_apply {n h : ℕ} (e : ℕ → α) (j count k : ℕ) (hk : k < n)
    (hj : j + count < n) :
    ringShift n h e j count ((h + k) % n) =
      if j ≤ k ∧ k < j + count then e ((h + k + 1) % n) else e ((h + k) % n) := by
  induction count generalizing e j with
  | zero =>
    rw [if_neg (by omega)]
    rfl
  | succ count ih =>
    rw [ringShift, ih _ (j + 1) (by omega)]
    have hne : ∀ i, i < n → i ≠ j → (h + i) % n ≠ (h + j) % n :=
      fun i hi hij he => hij (ring_slot_inj hi (by omega) he)
    by_cases hkj : k = j
    · subst hkj
      rw [if_neg (by omega), if_pos ⟨le_rfl, by omega⟩, Function.update_self]
    · by_cases hin : j + 1 ≤ k ∧ k < j + 1 + count
      · rw [if_pos hin, if_pos ⟨by omega, by omega⟩, Function.update_of_ne]
        simpa [Nat.add_assoc] using hne (k + 1) (by omega) (by omega)
      · rw [if_neg hin, if_neg (by omega), Function.update_of_ne (hne k hk hkj)]

theorem ringList_shift {n : ℕ} (e : ℕ → α) (h len i : ℕ) (hi : i < len) (hlen : len ≤ n) :
    ringList n (ringShift n h e i (len - 1 - i)) h (len - 1) =
      (ringList n e h len).eraseIdx i := by
  apply List.ext_getElem?
  intro k
  rw [List.getElem?_eraseIdx]
  by_cases hk : k < len - 1
  · rw [ringList_getElem? hk, ringShift_apply e i _ k (by omega) (by omega)]
    by_cases hki : k < i
    · rw [if_neg (by omega), if_pos hki, ringList_getElem? (by omega)]
    · rw [if_pos ⟨by omega, by omega⟩, if_neg hki, ringList_getElem? (by omega), Nat.add_assoc]
  · rw [List.getElem?_eq_none (by simp; omega)]
    by_cases hki : k < i
    · omega
    · rw [if_neg hki, List.getElem?_eq_none (by simp; omega)]

/-- Erasing an element removes its first position. -/
theorem erase_eq_eraseIdx [DecidableEq α] {l : List α} {a : α} {i : ℕ} (h : l[i]? = some a)
    (hbefore : ∀ j < i, l[j]? ≠ some a) : l.erase a = l.eraseIdx i := by
  induction l generalizing i with
  | nil => simp at h
  | cons b l ih =>
    cases i with
    | zero =>
      obtain rfl : b = a := by simpa using h
      simp
    | succ i =>
      have hne : b ≠ a := fun heq => hbefore 0 (by omega) (by simp [heq])
      rw [List.erase_cons_tail (by simpa using hne), List.eraseIdx_cons_succ]
      rw [ih (by simpa using h) fun j hj => by simpa using hbefore (j + 1) (by omega)]

end Lib
