import Dusk.Model.Paging

/-! Page-table entries as encodings: the frame, the permissions and the global flag
an entry was made from can be read back, for every physical address width. -/

namespace Dusk

open Lib

theorem and_flag (e : Word) {k : ℕ} (hk : k < 64) :
    (e &&& BitVec.twoPow 64 k != 0) = e.getLsbD k := by
  rw [BitVec.and_twoPow]
  have hne : BitVec.twoPow 64 k ≠ 0 := by
    intro h
    have := congrArg BitVec.toNat h
    rw [BitVec.toNat_twoPow_of_lt hk] at this
    simp at this
  cases h : e.getLsbD k
  · simp
  · simpa [bne_iff_ne] using hne

theorem flagIf_getLsbD (c : Bool) (flag : Word) (j : ℕ) :
    (PageTableEntry.flagIf c flag).getLsbD j = (c && flag.getLsbD j) := by
  cases c <;> simp [PageTableEntry.flagIf]

theorem mask_getLsbD (config : PagingConfig) (j : ℕ) :
    config.physicalAddressMask.getLsbD j =
      decide (12 ≤ j ∧ j < config.physicalAddressBits) := by
  have hw := config.width
  rw [PagingConfig.physicalAddressMask, BitVec.getLsbD_and, BitVec.getLsbD_ofNat,
    Nat.testBit_two_pow_sub_one, BitVec.getLsbD_not]
  have hlow : (0xFFF : Word).getLsbD j = decide (j < 12) := by
    have := Nat.testBit_two_pow_sub_one 12 j
    simpa [BitVec.getLsbD] using this
  rw [hlow]
  by_cases h64 : j < 64
  · by_cases h12 : j < 12
    · simp [h64, h12, Nat.not_le.mpr h12]
    · simp [h64, h12, Nat.le_of_not_lt h12]
  · have : ¬ j < config.physicalAddressBits := by omega
    simp [h64, this]

/-- The physical address is what an entry was made from, whatever the flags outside
the address field. -/
theorem physicalAddress_or {config : PagingConfig} {frame : ℕ}
    (hf : startAddress frame < config.physicalAddressLimit) {flags : Word}
    (hflags : ∀ j, 12 ≤ j → j < 52 → flags.getLsbD j = false) :
    PageTableEntry.physicalAddress (BitVec.ofNat 64 (startAddress frame) ||| flags) config =
      startAddress frame := by
  have hw := config.width
  apply Nat.eq_of_testBit_eq
  intro j
  change BitVec.getLsbD (_ &&& _) j = _
  rw [BitVec.getLsbD_and, BitVec.getLsbD_or, BitVec.getLsbD_ofNat, mask_getLsbD]
  by_cases hj : 12 ≤ j ∧ j < config.physicalAddressBits
  · have h64 : j < 64 := by omega
    rw [hflags j hj.1 (by omega)]
    simp [hj, h64]
  · have hzero : (startAddress frame).testBit j = false := by
      rcases Nat.lt_or_ge j 12 with h | h
      · have hmul : startAddress frame = 2 ^ 12 * frame := by
          simp [startAddress, FRAME_SIZE, Nat.mul_comm]
        rw [hmul, Nat.testBit_two_pow_mul]
        simp [Nat.not_le.mpr h]
      · apply Nat.testBit_lt_two_pow
        apply lt_of_lt_of_le hf
        exact Nat.pow_le_pow_right (by omega) (by omega)
    simp [hj, hzero]

theorem fromStartAddress_startAddress (frame : ℕ) :
    fromStartAddress (startAddress frame) = some frame := by
  simp [fromStartAddress, startAddress, FRAME_SIZE]

/-- The low bits of an address field are clear, so every present entry has a frame. -/
theorem physicalAddress_aligned (e : Word) (config : PagingConfig) :
    PageTableEntry.physicalAddress e config % FRAME_SIZE = 0 := by
  have hmod : PageTableEntry.physicalAddress e config % 2 ^ 12 = 0 := by
    apply Nat.eq_of_testBit_eq
    intro j
    rw [Nat.testBit_mod_two_pow, Nat.zero_testBit]
    rcases Nat.lt_or_ge j 12 with h | h
    · have : (PageTableEntry.physicalAddress e config).testBit j =
          BitVec.getLsbD (e &&& config.physicalAddressMask) j := rfl
      rw [this, BitVec.getLsbD_and, mask_getLsbD]
      simp [Nat.not_le.mpr h]
    · simp [Nat.not_lt.mpr h]
  exact hmod

/-- The entry of a child table. -/
def tableWord (user : Bool) (frame : ℕ) : Word :=
  BitVec.ofNat 64 (startAddress frame) |||
    (PageTableEntry.PRESENT ||| PageTableEntry.WRITABLE |||
      PageTableEntry.flagIf user PageTableEntry.USER_ACCESSIBLE)

/-- The flags of a leaf. -/
def leafFlags (permissions : PagePermissions) (cachePolicy : CachePolicy) (isGlobal : Bool) :
    Word :=
  PageTableEntry.PRESENT
    ||| PageTableEntry.flagIf permissions.writable PageTableEntry.WRITABLE
    ||| PageTableEntry.flagIf permissions.userAccessible PageTableEntry.USER_ACCESSIBLE
    ||| PageTableEntry.flagIf (!permissions.executable) PageTableEntry.NX
    ||| PageTableEntry.flagIf isGlobal PageTableEntry.GLOBAL
    ||| PageTableEntry.flagIf (cachePolicy = .uncacheable)
      (PageTableEntry.CACHE_DISABLED ||| PageTableEntry.WRITE_THROUGH)

def leafWord (frame : ℕ) (permissions : PagePermissions) (cachePolicy : CachePolicy)
    (isGlobal : Bool) : Word :=
  BitVec.ofNat 64 (startAddress frame) ||| leafFlags permissions cachePolicy isGlobal

theorem newTable_eq {config : PagingConfig} {frame : ℕ} (user : Bool)
    (hf : startAddress frame < config.physicalAddressLimit) :
    PageTableEntry.newTable frame user config = .ok (tableWord user frame) := by
  rw [PageTableEntry.newTable, if_neg (Nat.not_le.mpr hf), tableWord]
  simp only [BitVec.or_assoc]

theorem newTable_error {config : PagingConfig} {frame : ℕ} (user : Bool)
    (hf : config.physicalAddressLimit ≤ startAddress frame) :
    PageTableEntry.newTable frame user config = .error .physicalAddressTooLarge := by
  rw [PageTableEntry.newTable, if_pos hf]

theorem new_eq {config : PagingConfig} {frame : ℕ} {permissions : PagePermissions}
    {cachePolicy : CachePolicy} {isGlobal : Bool} {e : Word}
    (h : PageTableEntry.new (startAddress frame) permissions cachePolicy config isGlobal = .ok e) :
    startAddress frame < config.physicalAddressLimit ∧
      e = leafWord frame permissions cachePolicy (isGlobal && config.globalPages) := by
  rw [PageTableEntry.new] at h
  split_ifs at h with h1 h2
  refine ⟨Nat.not_le.mp h1, ?_⟩
  cases h
  simp only [leafWord, leafFlags, BitVec.or_assoc]

/-- A page that must not be executed needs the processor's support. -/
theorem new_execute {config : PagingConfig} {frame : ℕ} {permissions : PagePermissions}
    {cachePolicy : CachePolicy} {isGlobal : Bool} {e : Word}
    (h : PageTableEntry.new (startAddress frame) permissions cachePolicy config isGlobal = .ok e) :
    permissions.executable = true ∨ config.nxEnabled = true := by
  rw [PageTableEntry.new] at h
  split_ifs at h with h1 h2
  rw [Bool.and_eq_true, not_and_or] at h2
  simpa using h2

theorem new_error {config : PagingConfig} {frame : ℕ} {permissions : PagePermissions}
    {cachePolicy : CachePolicy} {isGlobal : Bool} {err : PageTableEntryError}
    (hf : startAddress frame < config.physicalAddressLimit)
    (h : PageTableEntry.new (startAddress frame) permissions cachePolicy config isGlobal =
      .error err) :
    err = .noExecuteUnsupported ∧ permissions.executable = false ∧ config.nxEnabled = false := by
  rw [PageTableEntry.new, if_neg (not_le.mpr hf)] at h
  split_ifs at h with h2
  cases h
  rw [Bool.and_eq_true] at h2
  exact ⟨rfl, by simpa using h2.1, by simpa using h2.2⟩

section Flags

/-- Bits below 12 and above 51 do not come from the frame. -/
theorem startAddress_getLsbD {config : PagingConfig} {frame : ℕ}
    (hf : startAddress frame < config.physicalAddressLimit) {j : ℕ} (hj : j < 12 ∨ 52 ≤ j) :
    (BitVec.ofNat 64 (startAddress frame)).getLsbD j = false := by
  have hw := config.width
  rw [BitVec.getLsbD_ofNat]
  have hzero : (startAddress frame).testBit j = false := by
    rcases hj with h | h
    · have hmul : startAddress frame = 2 ^ 12 * frame := by
        simp [startAddress, FRAME_SIZE, Nat.mul_comm]
      rw [hmul, Nat.testBit_two_pow_mul]
      simp [Nat.not_le.mpr h]
    · apply Nat.testBit_lt_two_pow
      apply lt_of_lt_of_le hf
      exact Nat.pow_le_pow_right (by omega) (by omega)
  simp [hzero]

theorem present_eq : PageTableEntry.PRESENT = BitVec.twoPow 64 0 := by decide
theorem writable_eq : PageTableEntry.WRITABLE = BitVec.twoPow 64 1 := by decide
theorem user_eq : PageTableEntry.USER_ACCESSIBLE = BitVec.twoPow 64 2 := by decide
theorem writeThrough_eq : PageTableEntry.WRITE_THROUGH = BitVec.twoPow 64 3 := by decide
theorem cacheDisabled_eq : PageTableEntry.CACHE_DISABLED = BitVec.twoPow 64 4 := by decide
theorem huge_eq : PageTableEntry.HUGE_PAGE = BitVec.twoPow 64 7 := by decide
theorem global_eq : PageTableEntry.GLOBAL = BitVec.twoPow 64 8 := by decide
theorem nx_eq : PageTableEntry.NX = BitVec.twoPow 64 63 := by decide

theorem isPresent_eq (e : Word) : PageTableEntry.isPresent e = e.getLsbD 0 := by
  rw [PageTableEntry.isPresent, present_eq, and_flag e (by decide)]

theorem pteWritable_eq (e : Word) : PageTableEntry.writable e = e.getLsbD 1 := by
  rw [PageTableEntry.writable, writable_eq, and_flag e (by decide)]

theorem isUserAccessible_eq (e : Word) : PageTableEntry.isUserAccessible e = e.getLsbD 2 := by
  rw [PageTableEntry.isUserAccessible, user_eq, and_flag e (by decide)]

theorem isHuge_eq (e : Word) : PageTableEntry.isHuge e = e.getLsbD 7 := by
  rw [PageTableEntry.isHuge, huge_eq, and_flag e (by decide)]

theorem isGlobal_eq (e : Word) : PageTableEntry.isGlobal e = e.getLsbD 8 := by
  rw [PageTableEntry.isGlobal, global_eq, and_flag e (by decide)]

theorem executable_eq (e : Word) : PageTableEntry.executable e = !e.getLsbD 63 := by
  have h := and_flag e (k := 63) (by decide)
  rw [PageTableEntry.executable, nx_eq, ← h, bne, Bool.not_not]

theorem tableFlags_getLsbD (user : Bool) (j : ℕ) :
    (PageTableEntry.PRESENT ||| PageTableEntry.WRITABLE |||
      PageTableEntry.flagIf user PageTableEntry.USER_ACCESSIBLE).getLsbD j =
      (decide (j = 0) || decide (j = 1) || (user && decide (j = 2))) := by
  simp only [BitVec.getLsbD_or, flagIf_getLsbD, present_eq, writable_eq, user_eq,
    BitVec.getLsbD_twoPow]
  simp [eq_comm]

theorem leafFlags_getLsbD (permissions : PagePermissions) (cachePolicy : CachePolicy)
    (isGlobal : Bool) (j : ℕ) :
    (leafFlags permissions cachePolicy isGlobal).getLsbD j =
      (decide (j = 0) || (permissions.writable && decide (j = 1))
        || (permissions.userAccessible && decide (j = 2))
        || (!permissions.executable && decide (j = 63)) || (isGlobal && decide (j = 8))
        || (decide (cachePolicy = .uncacheable) && (decide (j = 4) || decide (j = 3)))) := by
  simp only [leafFlags, BitVec.getLsbD_or, flagIf_getLsbD, present_eq, writable_eq, user_eq,
    nx_eq, global_eq, cacheDisabled_eq, writeThrough_eq, BitVec.getLsbD_twoPow]
  simp [eq_comm]

end Flags

section TableWord

variable {config : PagingConfig} {frame : ℕ} (user : Bool)
  (hf : startAddress frame < config.physicalAddressLimit)

include hf

theorem tableWord_getLsbD {j : ℕ} (hj : j < 12 ∨ 52 ≤ j) :
    (tableWord user frame).getLsbD j =
      (decide (j = 0) || decide (j = 1) || (user && decide (j = 2))) := by
  rw [tableWord, BitVec.getLsbD_or, startAddress_getLsbD hf hj, tableFlags_getLsbD,
    Bool.false_or]

theorem tableWord_isPresent : PageTableEntry.isPresent (tableWord user frame) = true := by
  rw [isPresent_eq, tableWord_getLsbD user hf (by omega)]
  simp

theorem tableWord_isHuge : PageTableEntry.isHuge (tableWord user frame) = false := by
  rw [isHuge_eq, tableWord_getLsbD user hf (by omega)]
  simp

theorem tableWord_permissions :
    PageTableEntry.permissions (tableWord user frame) = ⟨true, true, user⟩ := by
  rw [PageTableEntry.permissions, pteWritable_eq, executable_eq, isUserAccessible_eq,
    tableWord_getLsbD user hf (by omega), tableWord_getLsbD user hf (by omega),
    tableWord_getLsbD user hf (by omega)]
  simp

theorem tableWord_isUserAccessible :
    PageTableEntry.isUserAccessible (tableWord user frame) = user :=
  congrArg PagePermissions.userAccessible (tableWord_permissions user hf)

theorem tableWord_tableFrame :
    PageTableEntry.tableFrame (tableWord user frame) config = some frame := by
  rw [PageTableEntry.tableFrame, tableWord_isPresent user hf, tableWord_isHuge user hf]
  simp only [Bool.not_true, Bool.or_self, Bool.false_eq_true, if_false]
  rw [tableWord, physicalAddress_or hf, fromStartAddress_startAddress]
  intro j h1 h2
  rw [tableFlags_getLsbD]
  simp only [Bool.or_eq_false_iff, decide_eq_false_iff_not, Bool.and_eq_false_imp]
  omega

end TableWord

/-- Making the entry of a table user accessible. -/
theorem tableWord_upgrade (user : Bool) (frame : ℕ) :
    tableWord user frame ||| PageTableEntry.USER_ACCESSIBLE = tableWord true frame := by
  cases user <;> simp [tableWord, PageTableEntry.flagIf, BitVec.or_assoc]

section LeafWord

variable {config : PagingConfig} {frame : ℕ} (permissions : PagePermissions)
  (cachePolicy : CachePolicy) (isGlobal : Bool)
  (hf : startAddress frame < config.physicalAddressLimit)

include hf

theorem leafWord_getLsbD {j : ℕ} (hj : j < 12 ∨ 52 ≤ j) :
    (leafWord frame permissions cachePolicy isGlobal).getLsbD j =
      (leafFlags permissions cachePolicy isGlobal).getLsbD j := by
  rw [leafWord, BitVec.getLsbD_or, startAddress_getLsbD hf hj, Bool.false_or]

theorem leafWord_isPresent :
    PageTableEntry.isPresent (leafWord frame permissions cachePolicy isGlobal) = true := by
  rw [isPresent_eq, leafWord_getLsbD _ _ _ hf (by omega), leafFlags_getLsbD]
  simp

theorem leafWord_permissions :
    PageTableEntry.permissions (leafWord frame permissions cachePolicy isGlobal) =
      permissions := by
  rw [PageTableEntry.permissions, pteWritable_eq, executable_eq, isUserAccessible_eq,
    leafWord_getLsbD _ _ _ hf (by omega), leafWord_getLsbD _ _ _ hf (by omega),
    leafWord_getLsbD _ _ _ hf (by omega), leafFlags_getLsbD, leafFlags_getLsbD,
    leafFlags_getLsbD]
  simp

theorem executable_leafWord :
    PageTableEntry.executable (leafWord frame permissions cachePolicy isGlobal) =
      permissions.executable :=
  congrArg PagePermissions.executable (leafWord_permissions permissions cachePolicy isGlobal hf)

theorem leafWord_isGlobal :
    PageTableEntry.isGlobal (leafWord frame permissions cachePolicy isGlobal) = isGlobal := by
  rw [isGlobal_eq, leafWord_getLsbD _ _ _ hf (by omega), leafFlags_getLsbD]
  simp

theorem leafWord_leafFrame :
    PageTableEntry.leafFrame (leafWord frame permissions cachePolicy isGlobal) config =
      some frame := by
  rw [PageTableEntry.leafFrame, leafWord_isPresent _ _ _ hf]
  simp only [Bool.not_true, Bool.false_eq_true, if_false]
  rw [leafWord, physicalAddress_or hf, fromStartAddress_startAddress]
  intro j h1 h2
  rw [leafFlags_getLsbD]
  simp only [Bool.or_eq_false_iff, decide_eq_false_iff_not, Bool.and_eq_false_imp]
  omega

end LeafWord

theorem null_isPresent : PageTableEntry.isPresent PageTableEntry.null = false := by decide

theorem isPresent_of_tableFrame {e : Word} {config : PagingConfig} {frame : ℕ}
    (h : PageTableEntry.tableFrame e config = some frame) :
    PageTableEntry.isPresent e = true := by
  rw [PageTableEntry.tableFrame] at h
  split_ifs at h with hc
  simp only [Bool.or_eq_true, Bool.not_eq_true', not_or, Bool.not_eq_false] at hc
  exact hc.1

/-- The frame of a present entry. -/
def entryFrame (config : PagingConfig) (e : Word) : ℕ :=
  PageTableEntry.physicalAddress e config / FRAME_SIZE

theorem leafFrame_eq (e : Word) (config : PagingConfig) :
    PageTableEntry.leafFrame e config =
      if PageTableEntry.isPresent e then some (entryFrame config e) else none := by
  rw [PageTableEntry.leafFrame, fromStartAddress, physicalAddress_aligned]
  cases PageTableEntry.isPresent e <;> simp [entryFrame]

theorem leafWord_entryFrame {config : PagingConfig} {frame : ℕ} (permissions : PagePermissions)
    (cachePolicy : CachePolicy) (isGlobal : Bool)
    (hf : startAddress frame < config.physicalAddressLimit) :
    entryFrame config (leafWord frame permissions cachePolicy isGlobal) = frame := by
  have h := leafWord_leafFrame permissions cachePolicy isGlobal hf
  rw [leafFrame_eq, leafWord_isPresent _ _ _ hf] at h
  simpa using h

end Dusk
