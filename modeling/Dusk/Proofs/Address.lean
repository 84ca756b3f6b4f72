import Dusk.Model.AddressSpace

/-! Virtual addresses: the canonical ones, and the indices a page is reached by. -/

namespace Dusk

open Lib

theorem level_index_eq (level : PageTableLevel) (addr : ℕ) :
    level.index addr = addr / 2 ^ level.shift % 512 := by
  rw [PageTableLevel.index, Nat.shiftRight_eq_div_pow]
  exact Nat.and_two_pow_sub_one_eq_mod _ 9

theorem p1Index_eq (addr : ℕ) : p1Index addr = addr / 4096 % 512 := by
  rw [p1Index, Nat.shiftRight_eq_div_pow]
  exact Nat.and_two_pow_sub_one_eq_mod _ 9

theorem pageOffset_eq (addr : ℕ) : pageOffset addr = addr % 4096 := by
  exact Nat.and_two_pow_sub_one_eq_mod _ 12

theorem level_index_lt (level : PageTableLevel) (addr : ℕ) : level.index addr < 512 := by
  rw [level_index_eq]
  exact Nat.mod_lt _ (by decide)

theorem p1Index_lt (addr : ℕ) : p1Index addr < 512 := by
  rw [p1Index_eq]
  exact Nat.mod_lt _ (by decide)

/-- Sign extension from bit `64 - s` leaves a number alone if and only if the number
is below the sign bit or at the top of the address range. -/
theorem signExtended_iff (addr : ℕ) {s : ℕ} (hs : s = 16 ∨ s = 7) :
    ((BitVec.ofNat 64 addr <<< s).sshiftRight s).toNat = addr ↔
      addr < 2 ^ (63 - s) ∨ (2 ^ 64 - 2 ^ (63 - s) ≤ addr ∧ addr < 2 ^ 64) := by
  have hnat := BitVec.toInt_eq_toNat_cond ((BitVec.ofNat 64 addr <<< s).sshiftRight s)
  have hlt := ((BitVec.ofNat 64 addr <<< s).sshiftRight s).isLt
  have hint := BitVec.toInt_sshiftRight (x := BitVec.ofNat 64 addr <<< s) (n := s)
  rw [Int.shiftRight_eq_div_pow, BitVec.toInt_eq_toNat_cond (BitVec.ofNat 64 addr <<< s),
    BitVec.toNat_shiftLeft, BitVec.toNat_ofNat, Nat.shiftLeft_eq] at hint
  generalize ((BitVec.ofNat 64 addr <<< s).sshiftRight s).toInt = z at hnat hint
  generalize ((BitVec.ofNat 64 addr <<< s).sshiftRight s).toNat = n at hnat hlt ⊢
  rcases hs with rfl | rfl
  · norm_num at hnat hint hlt ⊢
    split_ifs at hnat hint <;> omega
  · norm_num at hnat hint hlt ⊢
    split_ifs at hnat hint <;> omega

/-- One past the lower canonical addresses. -/
def PagingMode.lowerEnd : PagingMode → ℕ
  | fourLevel => 2 ^ 47
  | fiveLevel => 2 ^ 56

theorem isCanonical_iff (mode : PagingMode) (addr : ℕ) :
    mode.isCanonical addr = true ↔
      addr < mode.lowerEnd ∨ (2 ^ 64 - mode.lowerEnd ≤ addr ∧ addr < 2 ^ 64) := by
  simp only [PagingMode.isCanonical, decide_eq_true_eq]
  cases mode with
  | fourLevel => exact signExtended_iff addr (.inl rfl)
  | fiveLevel => exact signExtended_iff addr (.inr rfl)

theorem user_canonical (mode : PagingMode) {addr : ℕ} (h : addr < USER_SPACE_END) :
    mode.isCanonical addr = true := by
  rw [isCanonical_iff]
  left
  cases mode <;> simp only [USER_SPACE_END, PagingMode.lowerEnd] at h ⊢ <;> omega

/-- The indices of the inner tables, outermost first. -/
def tableIndices (mode : PagingMode) (addr : ℕ) : List ℕ :=
  mode.intermediateLevels.map fun level => level.index addr

/-- The path of a page, deepest index first. -/
def pagePath (mode : PagingMode) (addr : ℕ) : List ℕ :=
  p1Index addr :: (tableIndices mode addr).reverse

/-- The index of a page in the root table. -/
def rootIndex (mode : PagingMode) (addr : ℕ) : ℕ := (tableIndices mode addr).headD 0

theorem tableIndices_lt {mode : PagingMode} {addr i : ℕ} (h : i ∈ tableIndices mode addr) :
    i < 512 := by
  obtain ⟨level, _, rfl⟩ := List.mem_map.mp h
  exact level_index_lt level addr

@[simp] theorem tableIndices_length (mode : PagingMode) (addr : ℕ) :
    (tableIndices mode addr).length = mode.intermediateLevels.length := by
  simp [tableIndices]

theorem levels_pos (mode : PagingMode) : 0 < mode.intermediateLevels.length := by
  cases mode <;> decide

/-- The inner indices of a page, the root's apart. -/
theorem tableIndices_eq (mode : PagingMode) (addr : ℕ) :
    tableIndices mode addr = rootIndex mode addr :: (tableIndices mode addr).tail := by
  cases mode <;> rfl

theorem pagePath_getLast (mode : PagingMode) (addr : ℕ) :
    (pagePath mode addr).getLast? = some (rootIndex mode addr) := by
  cases mode <;> rfl

theorem rootIndex_user (mode : PagingMode) {addr : ℕ} (h : addr < USER_SPACE_END) :
    rootIndex mode addr < 256 := by
  cases mode <;>
    simp only [rootIndex, tableIndices, PagingMode.intermediateLevels, List.map_cons,
      List.headD_cons, level_index_eq, PageTableLevel.shift, USER_SPACE_END] at h ⊢ <;> omega

theorem rootIndex_upper {mode : PagingMode} {addr : ℕ} (hc : mode.isCanonical addr = true)
    (h : 2 ^ 63 ≤ addr) : 256 ≤ rootIndex mode addr := by
  rw [isCanonical_iff] at hc
  cases mode <;>
    simp only [rootIndex, tableIndices, PagingMode.intermediateLevels, List.map_cons,
      List.headD_cons, level_index_eq, PageTableLevel.shift, PagingMode.lowerEnd] at hc ⊢ <;> omega

theorem rootIndex_lower {mode : PagingMode} {addr : ℕ} (hc : mode.isCanonical addr = true)
    (h : addr < 2 ^ 63) : rootIndex mode addr < 256 := by
  rw [isCanonical_iff] at hc
  cases mode <;>
    simp only [rootIndex, tableIndices, PagingMode.intermediateLevels, List.map_cons,
      List.headD_cons, level_index_eq, PageTableLevel.shift, PagingMode.lowerEnd] at hc ⊢ <;> omega

/-- A canonical page is determined by its path. -/
theorem pagePath_inj {mode : PagingMode} {a b : ℕ} (ha : mode.isCanonical a = true)
    (hb : mode.isCanonical b = true) (hpa : a % FRAME_SIZE = 0) (hpb : b % FRAME_SIZE = 0)
    (h : pagePath mode a = pagePath mode b) : a = b := by
  rw [isCanonical_iff] at ha hb
  cases mode <;>
    simp only [pagePath, tableIndices, PagingMode.intermediateLevels, List.map_cons, List.map_nil,
      List.reverse_cons, List.reverse_nil, List.nil_append, List.cons_append, List.cons.injEq,
      level_index_eq, p1Index_eq, PageTableLevel.shift, PagingMode.lowerEnd, FRAME_SIZE,
      and_true] at ha hb hpa hpb h <;> omega

/-- Every path is the path of a canonical page. -/
theorem pagePath_surj (mode : PagingMode) {q : List ℕ}
    (hlen : q.length = mode.intermediateLevels.length + 1) (hlt : ∀ i ∈ q, i < 512) :
    ∃ a, mode.isCanonical a = true ∧ a % FRAME_SIZE = 0 ∧ pagePath mode a = q := by
  cases mode with
  | fourLevel =>
    obtain ⟨i₁, i₂, i₃, i₄, rfl⟩ := List.length_eq_four.mp hlen
    simp only [List.mem_cons, List.not_mem_nil, or_false, forall_eq_or_imp, forall_eq] at hlt
    obtain ⟨h₁, h₂, h₃, h₄⟩ := hlt
    refine ⟨(if i₄ < 256 then 0 else 2 ^ 64 - 2 ^ 48) + i₄ * 2 ^ 39 + i₃ * 2 ^ 30 + i₂ * 2 ^ 21 +
      i₁ * 2 ^ 12, ?_⟩
    simp only [isCanonical_iff, pagePath, tableIndices, PagingMode.intermediateLevels,
      List.map_cons, List.map_nil, List.reverse_cons, List.reverse_nil, List.nil_append,
      List.cons_append, List.cons.injEq, level_index_eq, p1Index_eq, PageTableLevel.shift,
      PagingMode.lowerEnd, FRAME_SIZE, and_true]
    split_ifs <;> omega
  | fiveLevel =>
    have hlen : q.length = 5 := hlen
    match q, hlen, hlt with
    | [i₁, i₂, i₃, i₄, i₅], _, hlt =>
      simp only [List.mem_cons, List.not_mem_nil, or_false, forall_eq_or_imp, forall_eq] at hlt
      obtain ⟨h₁, h₂, h₃, h₄, h₅⟩ := hlt
      refine ⟨(if i₅ < 256 then 0 else 2 ^ 64 - 2 ^ 57) + i₅ * 2 ^ 48 + i₄ * 2 ^ 39 + i₃ * 2 ^ 30 +
        i₂ * 2 ^ 21 + i₁ * 2 ^ 12, ?_⟩
      simp only [isCanonical_iff, pagePath, tableIndices, PagingMode.intermediateLevels,
        List.map_cons, List.map_nil, List.reverse_cons, List.reverse_nil, List.nil_append,
        List.cons_append, List.cons.injEq, level_index_eq, p1Index_eq, PageTableLevel.shift,
        PagingMode.lowerEnd, FRAME_SIZE, and_true]
      split_ifs <;> omega

/-- The path depends on the page only. -/
theorem pagePath_alignDown (mode : PagingMode) (addr : ℕ) :
    pagePath mode (alignDownToFrame addr) = pagePath mode addr := by
  have hp : p1Index (alignDownToFrame addr) = p1Index addr := by
    simp only [p1Index_eq, alignDownToFrame, FRAME_SIZE]
    omega
  have hl : ∀ level : PageTableLevel, level.index (alignDownToFrame addr) = level.index addr := by
    intro level
    cases level <;>
      simp only [level_index_eq, PageTableLevel.shift, alignDownToFrame, FRAME_SIZE] <;> omega
  simp only [pagePath, tableIndices, hp, hl]

theorem alignDown_canonical {mode : PagingMode} {addr : ℕ} (h : mode.isCanonical addr = true) :
    mode.isCanonical (alignDownToFrame addr) = true := by
  rw [isCanonical_iff] at h ⊢
  cases mode <;> simp only [PagingMode.lowerEnd, alignDownToFrame, FRAME_SIZE] at h ⊢ <;> omega

/-- The addresses of a page. -/
theorem alignDown_add {addr d : ℕ} (ha : addr % FRAME_SIZE = 0) (hd : d < FRAME_SIZE) :
    alignDownToFrame (addr + d) = addr := by
  simp only [alignDownToFrame, FRAME_SIZE] at ha hd ⊢
  omega

theorem canonical_add {mode : PagingMode} {addr d : ℕ} (h : mode.isCanonical addr = true)
    (ha : addr % FRAME_SIZE = 0) (hd : d < FRAME_SIZE) : mode.isCanonical (addr + d) = true := by
  rw [isCanonical_iff] at h ⊢
  cases mode <;> simp only [PagingMode.lowerEnd, FRAME_SIZE] at h ha hd ⊢ <;> omega

theorem pagePath_add (mode : PagingMode) {addr d : ℕ} (ha : addr % FRAME_SIZE = 0)
    (hd : d < FRAME_SIZE) : pagePath mode (addr + d) = pagePath mode addr := by
  rw [← pagePath_alignDown, alignDown_add ha hd]

/-- Addresses of different pages have different paths. -/
theorem page_of_pagePath {mode : PagingMode} {a b : ℕ} (ha : mode.isCanonical a = true)
    (hb : mode.isCanonical b = true) (h : pagePath mode a = pagePath mode b) :
    a / FRAME_SIZE = b / FRAME_SIZE := by
  have hal : ∀ x, alignDownToFrame x % FRAME_SIZE = 0 := by
    intro x
    simp only [alignDownToFrame, FRAME_SIZE]
    omega
  have heq : alignDownToFrame a = alignDownToFrame b := by
    refine pagePath_inj (alignDown_canonical ha) (alignDown_canonical hb) (hal a) (hal b) ?_
    rw [pagePath_alignDown, pagePath_alignDown, h]
  simp only [alignDownToFrame, FRAME_SIZE] at heq ⊢
  omega

end Dusk
