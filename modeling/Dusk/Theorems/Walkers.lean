import Dusk.Proofs.Pool
import Dusk.Proofs.Walkers
import Dusk.Model.User

/-! The walks over a page table agree with each other in any memory, and with them the
check of user ranges is exact. -/

namespace Dusk

open Lib

variable {pt : PageTable} {m : Machine} {va frame : ℕ} {permissions : PagePermissions}

/-- A page is translated, has permissions, is found by `unmap`, which then returns no error
but a huge page's, and is refused by `map` in the same cases, and its addresses are all read
alike. -/
theorem walkers_agree (hzero : ∀ path f i, pt.Node m.mem path f → i < PAGE_TABLE_ENTRIES →
      PageTableEntry.isPresent (m.mem.word f i) = false → m.mem.word f i = 0)
    (hc : pt.isCanonical va = true) (hal : va % PAGE_SIZE = 0)
    (hframe : startAddress frame < pt.config.physicalAddressLimit)
    (hx : permissions.executable = true ∨ pt.config.nxEnabled = true)
    (cachePolicy : CachePolicy) (isGlobal : Bool) :
    [(pt.toPhysical m.mem va).isSome = true,
      (pt.mapping m.mem va).isSome = true,
      pt.UnmapFinds m.mem va pt.config.mode.intermediateLevels pt.frame [],
      ∃ e m', pt.map va frame permissions cachePolicy isGlobal m = .ok (.error e) m' ∧
        (e = .pageAlreadyMapped ∨ e = .hugePageConflict),
      ∀ e m', pt.unmap va m = .ok (.error e) m' → e = .hugePageConflict].TFAE ∧
    ∀ d < PAGE_SIZE, pt.toPhysical m.mem (va + d) = (pt.toPhysical m.mem va).map (· + d) ∧
      pt.mapping m.mem (va + d) = pt.mapping m.mem va := by
  have hphysical : (pt.toPhysical m.mem va).isSome = true ↔
      pt.Reaches m.mem va pt.config.mode.intermediateLevels pt.frame := by
    simp only [PageTable.toPhysical, hc, Bool.not_true, Bool.false_eq_true, if_false]
    exact toPhysicalFrom_isSome _ _
  have hmapping : (pt.mapping m.mem va).isSome = true ↔
      pt.Reaches m.mem va pt.config.mode.intermediateLevels pt.frame := by
    simp only [PageTable.mapping, hc, Bool.not_true, Bool.false_eq_true, if_false]
    exact mappingFrom_isSome _ _ _
  have hroot : pt.Node m.mem [] pt.frame := ⟨Nat.zero_le _, by simp, rfl⟩
  have hon : pt.ZeroOn m.mem va pt.config.mode.intermediateLevels pt.frame :=
    zeroOn_of hzero _ hroot (by simp)
  have hunmap := unmapFinds_iff pt.config.mode.intermediateLevels pt.frame [] hon
  have hmap : (∃ e m', pt.map va frame permissions cachePolicy isGlobal m = .ok (.error e) m' ∧
      (e = .pageAlreadyMapped ∨ e = .hugePageConflict)) ↔
      pt.Reaches m.mem va pt.config.mode.intermediateLevels pt.frame :=
    map_found_iff hc hal hframe hx
  refine ⟨?_, fun d hd => ⟨toPhysical_add hc hal hd, mapping_add hc hal hd⟩⟩
  tfae_have 1 ↔ 2 := hphysical.trans hmapping.symm
  tfae_have 1 ↔ 3 := hphysical.trans hunmap.symm
  tfae_have 1 ↔ 4 := hphysical.trans hmap.symm
  tfae_have 3 ↔ 5 := (unmap_found_iff hc hal).symm
  tfae_finish

/-- A memory with a huge page of 1 GiB, below the root in frame 2. -/
def hugeMemory : PhysMem := ((⟨.nil⟩ : PhysMem).setWord 2 0 0x3003).setWord 3 0 0x40000083

theorem walkers_agree_huge : ∃ (pt : PageTable) (m : Machine),
    pt.toPhysical m.mem 0x12345FFF = some 0x52345FFF ∧
    (∃ e m', pt.map 0x12345000 9 ⟨true, true, true⟩ .writeBack false m = .ok (.error e) m' ∧
      (e = .pageAlreadyMapped ∨ e = .hugePageConflict)) ∧
    pt.toPhysical m.mem (0x12345000 + 0xFFF) = (pt.toPhysical m.mem 0x12345000).map (· + 0xFFF) := by
  have hzero : ∀ (path : List ℕ) (f i : ℕ),
      PageTable.Node ⟨smallDirectMap, (smallMachine .fourLevel).paging, 2⟩ hugeMemory path f →
      i < PAGE_TABLE_ENTRIES → PageTableEntry.isPresent (hugeMemory.word f i) = false →
      hugeMemory.word f i = 0 := by
    intro path f i _ _ hp
    simp only [hugeMemory, PhysMem.word_setWord] at hp ⊢
    split_ifs at hp ⊢ with h3 h2
    · cases hp
    · cases hp
    · rfl
  have hagree := walkers_agree (m := { smallMachine .fourLevel with mem := hugeMemory }) hzero
    (by decide +kernel : PageTable.isCanonical _ 0x12345000 = true) (by decide)
    (by decide : startAddress 9 < _)
    (.inl rfl : (⟨true, true, true⟩ : PagePermissions).executable = true ∨ _) .writeBack false
  refine ⟨⟨smallDirectMap, (smallMachine .fourLevel).paging, 2⟩,
    { smallMachine .fourLevel with mem := hugeMemory }, by decide +kernel,
    (hagree.1.out 0 3).mp (by decide +kernel), (hagree.2 0xFFF (by decide)).1⟩

section UserRange

variable {k : Kernel} {asId start len : ℕ} {writable : Bool}

/-- The byte at an address can be read by user mode, and written where that is asked. -/
def AddressSpace.UserByte (space : AddressSpace) (mem : PhysMem) (writable : Bool) (x : ℕ) : Prop :=
  ∃ permissions, space.mapping mem x = some permissions ∧ permissions.userAccessible = true ∧
    (writable = true → permissions.writable = true)

theorem userByte_iff {space : AddressSpace} {mem : PhysMem} {x : ℕ} :
    ((space.mapping mem x).any fun permissions =>
      permissions.userAccessible && (!writable || permissions.writable)) = true ↔
      space.UserByte mem writable x := by
  unfold AddressSpace.UserByte
  rw [Option.any_eq_true]
  refine exists_congr fun permissions => and_congr_right fun _ => ?_
  cases writable <;> simp

/-- All bytes of a user page are alike. -/
theorem userByte_page {space : AddressSpace} {mem : PhysMem} {page d : ℕ}
    (hpage : page < USER_SPACE_END) (hal : page % PAGE_SIZE = 0) (hd : d < PAGE_SIZE) :
    space.UserByte mem writable (page + d) ↔ space.UserByte mem writable page := by
  unfold AddressSpace.UserByte AddressSpace.mapping
  rw [mapping_add (user_canonical _ hpage) hal hd]

/-- One turn of the check. -/
theorem validatePages_succ (page count : ℕ) : validatePages asId writable page (count + 1) k =
    (match k.spaces.get asId with
      | none => fail .badAddress
      | some space =>
        if (space.mapping k.machine.mem page).any fun permissions : PagePermissions =>
            permissions.userAccessible && (!writable || permissions.writable) then
          validatePages asId writable (page + FRAME_SIZE) count
        else fail .badAddress : KM Unit) k := rfl

/-- The loop of the check looks at the first byte of each of `count` pages. -/
theorem validatePages_iff (page count : ℕ) :
    (∃ k', validatePages asId writable page count k = .ok () k') ↔
      ∀ j < count, ∃ space, k.spaces.get asId = some space ∧
        space.UserByte k.machine.mem writable (page + FRAME_SIZE * j) := by
  induction count generalizing page with
  | zero => simpa [validatePages] using ⟨k, rfl⟩
  | succ count ih =>
    cases hget : k.spaces.get asId with
    | none =>
      refine iff_of_false ?_ ?_
      · rintro ⟨k', hrun⟩
        rw [validatePages_succ, hget] at hrun
        cases hrun
      · intro hall
        obtain ⟨space, hspace, _⟩ := hall 0 (Nat.succ_pos _)
        cases hspace
    | some space =>
      have hrun : validatePages asId writable page (count + 1) k =
          (if (space.mapping k.machine.mem page).any fun permissions =>
              permissions.userAccessible && (!writable || permissions.writable) then
            validatePages asId writable (page + FRAME_SIZE) count
          else fail .badAddress) k := by
        rw [validatePages_succ, hget]
      rw [hrun, Nat.forall_lt_succ_left']
      by_cases hbyte : space.UserByte k.machine.mem writable page
      · rw [if_pos (userByte_iff.mpr hbyte), ih, hget]
        simp only [Nat.mul_zero, Nat.add_zero, Option.some.injEq, exists_eq_left', hbyte, true_and,
          Nat.mul_add, Nat.mul_one]
        refine forall₂_congr fun j _ => ?_
        rw [Nat.add_assoc, Nat.add_comm FRAME_SIZE]
      · rw [if_neg fun h => hbyte (userByte_iff.mp h)]
        refine iff_of_false ?_ ?_
        · rintro ⟨k', hfail⟩
          cases hfail
        · rintro ⟨⟨space', hspace, hfirst⟩, _⟩
          cases hspace
          exact hbyte hfirst

/-- The first bytes of the pages of a range stand for all its bytes. -/
theorem pages_cover {space : AddressSpace} {mem : PhysMem} (hlen : len ≠ 0)
    (hend : start + len ≤ USER_SPACE_END) :
    (∀ j < (start + len - alignDownToFrame start + (FRAME_SIZE - 1)) / FRAME_SIZE,
      space.UserByte mem writable (alignDownToFrame start + FRAME_SIZE * j)) ↔
      ∀ x, start ≤ x → x < start + len → space.UserByte mem writable x := by
  have hstart : alignDownToFrame start = start - start % 4096 := rfl
  have hbyte : ∀ page x, page % 4096 = 0 → page ≤ x → x < page + 4096 → page < start + len →
      (space.UserByte mem writable x ↔ space.UserByte mem writable page) := by
    intro page x hal hle hlt hpage
    have hx : x = page + (x - page) := by omega
    rw [hx]
    exact userByte_page (by omega) hal (by simp only [PAGE_SIZE]; omega)
  simp only [FRAME_SIZE, hstart]
  constructor
  · intro hpages x hle hlt
    have hj : start - start % 4096 + 4096 * ((x - (start - start % 4096)) / 4096) ≤ x := by omega
    refine (hbyte _ x (by omega) hj (by omega) (by omega)).mpr (hpages _ ?_)
    omega
  · intro hall j hj
    have hx : max start (start - start % 4096 + 4096 * j) < start + len := by omega
    refine (hbyte _ (max start (start - start % 4096 + 4096 * j)) (by omega) (by omega) ?_
      (by omega)).mp (hall _ (by omega) hx)
    rcases Nat.eq_zero_or_pos j with rfl | hpos <;> omega

/-- `validate_user_range` accepts exactly the ranges of user space all of whose bytes are
mapped for user mode. -/
theorem validate_user_range_exact :
    (∃ k', validateUserRange asId start len writable k = .ok () k') ↔
      start + len < USIZE_END ∧ start < USER_SPACE_END ∧ start + len ≤ USER_SPACE_END ∧
      (0 < len → ∃ space, k.spaces.get asId = some space ∧
        ∀ x, start ≤ x → x < start + len → space.UserByte k.machine.mem writable x) := by
  unfold validateUserRange checkedAdd
  by_cases hover : start + len < USIZE_END
  · simp only [hover, if_true, true_and]
    by_cases hend : start ≥ USER_SPACE_END ∨ start + len > USER_SPACE_END
    · rw [if_pos hend]
      refine iff_of_false ?_ (by omega)
      rintro ⟨k', hfail⟩
      cases hfail
    · rw [if_neg hend]
      by_cases hlen : len = 0
      · rw [if_pos hlen]
        exact iff_of_true ⟨k, rfl⟩ ⟨by omega, by omega, by omega⟩
      · rw [if_neg hlen, validatePages_iff]
        have hlower : start < USER_SPACE_END ∧ start + len ≤ USER_SPACE_END := by omega
        cases hget : k.spaces.get asId with
        | none =>
          refine iff_of_false ?_ ?_
          · intro hpages
            obtain ⟨space, hspace, _⟩ := hpages 0 (by simp only [alignDownToFrame, FRAME_SIZE]; omega)
            cases hspace
          · rintro ⟨_, _, hspace⟩
            obtain ⟨space, hspace, _⟩ := hspace (Nat.pos_of_ne_zero hlen)
            cases hspace
        | some space =>
          simp only [Option.some.injEq, exists_eq_left', hlower, true_and,
            Nat.pos_of_ne_zero hlen, true_implies]
          exact pages_cover hlen hlower.2
  · simp only [hover, if_false, false_and, iff_false]
    rintro ⟨k', hfail⟩
    cases hfail

end UserRange

end Dusk
