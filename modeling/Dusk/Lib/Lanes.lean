import Mathlib.Tactic

/-! Packed fields of machine words: the eight byte lanes of a 64-bit word, and
the four two-bit fields of a byte. -/

namespace Lib

abbrev Byte := BitVec 8

abbrev Word := BitVec 64

/-- Byte `k` of `w`, lowest first. -/
def lane (w : Word) (k : ℕ) : Byte := (w >>> (8 * k)).setWidth 8

/-- `w` with byte `k` replaced. -/
def withLane (w : Word) (k : ℕ) (b : Byte) : Word :=
  (w &&& ~~~((0xFF : Word) <<< (8 * k))) ||| (b.setWidth 64 <<< (8 * k))

/-- The word whose eight bytes are `f 0 .. f 7`. -/
def ofLanes (f : ℕ → Byte) : Word :=
  (List.range 8).foldl (fun w k => withLane w k (f k)) 0

theorem lane_getLsbD (w : Word) (k i : ℕ) (hi : i < 8) :
    (lane w k).getLsbD i = w.getLsbD (8 * k + i) := by
  simp [lane, hi]

theorem withLane_getLsbD (w : Word) (k i : ℕ) (b : Byte) (hk : k < 8) :
    (withLane w k b).getLsbD i =
      if 8 * k ≤ i ∧ i < 8 * k + 8 then b.getLsbD (i - 8 * k) else w.getLsbD i := by
  have hff : ∀ j, (0xFF : Word).getLsbD j = decide (j < 8) := by
    intro j
    by_cases hj : j < 64
    · interval_cases j <;> rfl
    · simp [BitVec.getLsbD_of_ge _ _ (Nat.le_of_not_lt hj)]; omega
  by_cases hi : i < 64
  · simp only [withLane, BitVec.getLsbD_or, BitVec.getLsbD_and, BitVec.getLsbD_not,
      BitVec.getLsbD_shiftLeft, BitVec.getLsbD_setWidth, hff, hi]
    by_cases h1 : 8 * k ≤ i
    · by_cases h2 : i < 8 * k + 8
      · have h3 : i - 8 * k < 8 := by omega
        have h4 : i - 8 * k < 64 := by omega
        simp [h1, h2, h3, h4, Nat.not_lt.mpr h1]
      · have hb : b.getLsbD (i - 8 * k) = false := BitVec.getLsbD_of_ge _ _ (by omega)
        have h3 : ¬ i - 8 * k < 8 := by omega
        simp [h1, h2, hb, h3]
    · simp [h1, Nat.lt_of_not_le h1]
  · rw [BitVec.getLsbD_of_ge _ _ (by omega), BitVec.getLsbD_of_ge w _ (by omega)]
    simp; omega

theorem lane_withLane (w : Word) (j k : ℕ) (b : Byte) (hk : k < 8) :
    lane (withLane w k b) j = if j = k then b else lane w j := by
  apply BitVec.eq_of_getLsbD_eq
  intro i hi
  rw [lane_getLsbD _ _ _ hi, withLane_getLsbD _ _ _ _ hk]
  by_cases hj : j = k
  · subst hj
    rw [if_pos ⟨by omega, by omega⟩, if_pos rfl]
    congr 1; omega
  · rw [if_neg (by omega), if_neg hj, lane_getLsbD _ _ _ hi]

theorem lane_foldl (f : ℕ → Byte) (n : ℕ) (hn : n ≤ 8) (j : ℕ) (w : Word) :
    lane ((List.range n).foldl (fun w k => withLane w k (f k)) w) j =
      if j < n then f j else lane w j := by
  induction n with
  | zero => simp
  | succ n ih =>
    rw [List.range_succ, List.foldl_append]
    simp only [List.foldl_cons, List.foldl_nil]
    rw [lane_withLane _ _ _ _ (by omega), ih (by omega)]
    by_cases hj : j = n
    · subst hj; simp
    · rw [if_neg hj]
      by_cases hlt : j < n
      · rw [if_pos hlt, if_pos (by omega)]
      · rw [if_neg hlt, if_neg (by omega)]

theorem lane_ofLanes (f : ℕ → Byte) (j : ℕ) (hj : j < 8) : lane (ofLanes f) j = f j := by
  rw [ofLanes, lane_foldl f 8 le_rfl, if_pos hj]

theorem word_ext {v w : Word} (h : ∀ k < 8, lane v k = lane w k) : v = w := by
  apply BitVec.eq_of_getLsbD_eq
  intro i hi
  have hl := congrArg (fun b : Byte => b.getLsbD (i % 8)) (h (i / 8) (by omega))
  simp only [lane_getLsbD _ _ _ (show i % 8 < 8 by omega)] at hl
  rwa [show 8 * (i / 8) + i % 8 = i by omega] at hl

/-- The two-bit field `k` of a byte. -/
def pair (b : Byte) (k : ℕ) : Byte := (b >>> (2 * k)) &&& 0b11

/-- `b` with the two-bit field `k` replaced by `v`. -/
def withPair (b : Byte) (k : ℕ) (v : Byte) : Byte :=
  (b &&& ~~~((0b11 : Byte) <<< (2 * k))) ||| (v <<< (2 * k))

theorem three_getLsbD (j : ℕ) : (0b11 : Byte).getLsbD j = decide (j < 2) := by
  by_cases hj : j < 8
  · interval_cases j <;> rfl
  · simp [BitVec.getLsbD_of_ge _ _ (Nat.le_of_not_lt hj)]; omega

theorem small_getLsbD (v : Byte) (j : ℕ) (hv : v.toNat < 4) (hj : 2 ≤ j) :
    v.getLsbD j = false := by
  apply Nat.testBit_lt_two_pow
  exact lt_of_lt_of_le hv (show 2 ^ 2 ≤ 2 ^ j from Nat.pow_le_pow_right (by omega) hj)

theorem withPair_getLsbD (b v : Byte) (k i : ℕ) (hk : k < 4) (hv : v.toNat < 4) :
    (withPair b k v).getLsbD i =
      if 2 * k ≤ i ∧ i < 2 * k + 2 then v.getLsbD (i - 2 * k) else b.getLsbD i := by
  by_cases hi : i < 8
  · simp only [withPair, BitVec.getLsbD_or, BitVec.getLsbD_and, BitVec.getLsbD_not,
      BitVec.getLsbD_shiftLeft, three_getLsbD, hi]
    by_cases h1 : 2 * k ≤ i
    · by_cases h2 : i < 2 * k + 2
      · have h3 : i - 2 * k < 2 := by omega
        simp [h1, h2, h3, Nat.not_lt.mpr h1]
      · have hz : v.getLsbD (i - 2 * k) = false := small_getLsbD v _ hv (by omega)
        have h3 : ¬ i - 2 * k < 2 := by omega
        simp [h1, h2, hz, h3]
    · simp [h1, Nat.lt_of_not_le h1]
  · rw [BitVec.getLsbD_of_ge _ _ (by omega), BitVec.getLsbD_of_ge b _ (by omega)]
    simp; omega

theorem pair_getLsbD (b : Byte) (k i : ℕ) :
    (pair b k).getLsbD i = (decide (i < 2) && b.getLsbD (2 * k + i)) := by
  rw [pair, BitVec.getLsbD_and, three_getLsbD, BitVec.getLsbD_ushiftRight, Bool.and_comm]

theorem pair_withPair (b v : Byte) (j k : ℕ) (hk : k < 4) (hv : v.toNat < 4) :
    pair (withPair b k v) j = if j = k then v else pair b j := by
  apply BitVec.eq_of_getLsbD_eq
  intro i hi
  rw [pair_getLsbD, withPair_getLsbD _ _ _ _ hk hv]
  by_cases hj : j = k
  · subst hj
    by_cases h2 : i < 2
    · simp [h2]
    · have hz : v.getLsbD i = false := small_getLsbD v _ hv (by omega)
      simp [h2, hz]
  · rw [if_neg hj, pair_getLsbD]
    by_cases h2 : i < 2
    · rw [if_neg (by omega)]
    · simp [h2]

end Lib
