import Dusk.Proofs.Acpi

/-! The search for a table is a search of the list of addresses in the root table; the
format of the root table only matters for how this list is read. -/

namespace Dusk

open Lib

namespace Acpi

/-- The signature and the length in the header of the table at an address. -/
def Memory.signatureAt (m : Memory) (address : ℕ) : List Byte :=
  (m.bytes address SDT_HEADER_SIZE).take 4

def Memory.lengthAt (m : Memory) (address : ℕ) : ℕ :=
  field (m.bytes address SDT_HEADER_SIZE) 4 4

/-- The sum of bytes. -/
def Memory.byteSum (m : Memory) (address n : ℕ) : ℕ := ((m.bytes address n).map BitVec.toNat).sum

namespace RootTable

/-- The number of entries, and where entry `i` stands. -/
def size (root : RootTable) : ℕ := (root.table.length - SDT_HEADER_SIZE) / root.entryWidth

def entryAddr (root : RootTable) (i : ℕ) : ℕ :=
  root.table.physicalAddr + SDT_HEADER_SIZE + i * root.entryWidth

/-- The addresses listed in the root table. -/
def addresses (root : RootTable) (m : Memory) : List ℕ :=
  (List.range root.size).map fun i => leValue (m.bytes (root.entryAddr i) root.entryWidth)

/-- The length is that of a header and a whole number of entries. -/
def WellFormed (root : RootTable) : Prop :=
  SDT_HEADER_SIZE ≤ root.table.length
    ∧ (root.table.length - SDT_HEADER_SIZE) % root.entryWidth = 0

/-- The root table lies in the direct map, and the end of it is an address. -/
def Mapped (root : RootTable) (m : Memory) : Prop :=
  root.table.physicalAddr + root.table.length + m.directMap.offset ≤ USIZE_END
    ∧ root.table.physicalAddr + root.table.length < USIZE_END

/-- An entry lies inside the root table. -/
theorem entry_inside (root : RootTable) (hlength : SDT_HEADER_SIZE ≤ root.table.length) {i : ℕ}
    (hi : i < root.size) : root.table.physicalAddr ≤ root.entryAddr i
      ∧ root.entryAddr i + root.entryWidth ≤ root.table.physicalAddr + root.table.length := by
  have hmul : (i + 1) * root.entryWidth ≤ root.table.length - SDT_HEADER_SIZE :=
    (Nat.mul_le_mul_right _ hi).trans (Nat.div_mul_le_self _ _)
  rw [Nat.succ_mul] at hmul
  unfold entryAddr
  omega

end RootTable

/-- What `find_table` makes of one listed address: an answer, or to go on. -/
def examine (m : Memory) (signature : List Byte) (address : ℕ) :
    Option (Except AcpiError (Option Sdt)) :=
  if USIZE_END ≤ address + m.directMap.offset then some (.error .addressOverflow)
  else if m.lengthAt address < SDT_HEADER_SIZE then some (.error .invalidSdtLength)
  else if m.signatureAt address ≠ signature then none
  else if USIZE_END ≤ address + m.directMap.offset + (m.lengthAt address - 1) then
    some (.error .addressOverflow)
  else if m.byteSum address (m.lengthAt address) % 256 ≠ 0 then
    some (.error .malformedAcpiTable)
  else some (.ok (some ⟨address, m.lengthAt address, signature⟩))

/-- The search over a list of addresses. -/
def searchList (m : Memory) (signature : List Byte) : List ℕ → Except AcpiError (Option Sdt)
  | [] => .ok none
  | address :: rest => (examine m signature address).getD (searchList m signature rest)

/-- The accesses to entries of the root table lie inside it. -/
def RootInside (root : RootTable) (accesses : List Access) : Prop :=
  ∀ access ∈ accesses, access.isRootEntry = true →
    access.range.Inside ⟨root.table.physicalAddr, root.table.length⟩

variable {m : Memory} {log : List Access}

theorem Memory.byteSum_succ (m : Memory) (address n : ℕ) :
    m.byteSum address (n + 1) = (m.byte address).toNat + m.byteSum (address + 1) n := by
  unfold Memory.byteSum
  rw [Nat.add_comm n 1, m.bytes_add, List.map_append, List.sum_append]
  simp [Memory.bytes, Slice.bytes]

/-- The checksum loop: the sum of the bytes, or an address that overflows. -/
theorem sumFrom_sat {physicalAddr virtualAddr i count : ℕ} {sum : Byte} :
    (sumFrom m physicalAddr virtualAddr i count sum).Sat log
      (fun result log' => (0 < count → virtualAddr + i + (count - 1) < USIZE_END)
        ∧ result.toNat = (sum.toNat + m.byteSum (physicalAddr + i) count) % 256
        ∧ ∃ accesses, log' = log ++ accesses ∧ ∀ access ∈ accesses, access.isRootEntry = false)
      (fun error log' => error = .addressOverflow ∧ 0 < count
        ∧ USIZE_END ≤ virtualAddr + i + (count - 1)
        ∧ ∃ accesses, log' = log ++ accesses
          ∧ ∀ access ∈ accesses, access.isRootEntry = false) := by
  induction count generalizing i sum log with
  | zero =>
    refine ⟨fun h => absurd h (by omega), ?_, [], (List.append_nil _).symm, fun _ h => by simp at h⟩
    have hlt := sum.isLt
    simp only [Memory.byteSum, Memory.bytes, Slice.bytes, List.range_zero, List.map_nil,
      List.sum_nil, Nat.add_zero]
    exact (Nat.mod_eq_of_lt hlt).symm
  | succ count ih =>
    unfold sumFrom
    rw [Prog.sat_bind, sat_addAddress]
    refine ⟨fun hfits => ?_, fun hover => ⟨rfl, by omega, by omega, [], (List.append_nil _).symm,
      fun _ h => by simp at h⟩⟩
    rw [Prog.sat_bind, Prog.sat_modify]
    have hnew (accesses : List Access) (h : ∀ access ∈ accesses, access.isRootEntry = false) :
        ∀ access ∈ [⟨false, ⟨physicalAddr + i, 1⟩⟩] ++ accesses, access.isRootEntry = false := by
      intro access hmem
      rw [List.mem_append, List.mem_singleton] at hmem
      obtain rfl | hmem := hmem
      · rfl
      · exact h access hmem
    refine ih.mono ?_ ?_
    · intro result log' h
      obtain ⟨hlast, hresult, accesses, rfl, hroot⟩ := h
      refine ⟨fun _ => ?_, ?_, _, List.append_assoc _ _ _, hnew accesses hroot⟩
      · obtain rfl | hpos := Nat.eq_zero_or_pos count
        · exact hfits
        · have := hlast hpos
          omega
      · rw [hresult, m.byteSum_succ, BitVec.toNat_add, add_assoc physicalAddr]
        omega
    · intro error log' h
      obtain ⟨herror, hpos, hlast, accesses, rfl, hroot⟩ := h
      exact ⟨herror, by omega, by omega, _, List.append_assoc _ _ _, hnew accesses hroot⟩

/-- A listed table whose header carries the signature. -/
theorem checksumValid_sat {physicalAddr length : ℕ} (hlength : 0 < length)
    (hmapped : physicalAddr + m.directMap.offset < USIZE_END) :
    (checksumValid m physicalAddr length).Sat log
      (fun valid log' => physicalAddr + m.directMap.offset + (length - 1) < USIZE_END
        ∧ (valid = true ↔ m.byteSum physicalAddr length % 256 = 0)
        ∧ ∃ accesses, log' = log ++ accesses ∧ ∀ access ∈ accesses, access.isRootEntry = false)
      (fun error log' => error = .addressOverflow
        ∧ USIZE_END ≤ physicalAddr + m.directMap.offset + (length - 1)
        ∧ ∃ accesses, log' = log ++ accesses
          ∧ ∀ access ∈ accesses, access.isRootEntry = false) := by
  have htranslate : m.directMap.translate physicalAddr
      = some (physicalAddr + m.directMap.offset) := if_pos hmapped
  unfold checksumValid
  rw [htranslate, Prog.sat_bind, Prog.sat_expect_some, Prog.sat_bind]
  refine sumFrom_sat.mono ?_ ?_
  · intro sum log' h
    obtain ⟨hlast, hsum, haccesses⟩ := h
    refine ⟨by simpa using hlast hlength, ?_, haccesses⟩
    change sum.toNat = (0 + m.byteSum physicalAddr length) % 256 at hsum
    rw [Nat.zero_add] at hsum
    rw [decide_eq_true_iff, ← hsum]
    exact ⟨fun h => by rw [h]; rfl, fun h => BitVec.eq_of_toNat_eq h⟩
  · intro error log' h
    obtain ⟨herror, -, hlast, haccesses⟩ := h
    exact ⟨herror, by simpa using hlast, haccesses⟩

theorem RootInside.append {root : RootTable} {xs ys : List Access} (hx : RootInside root xs)
    (hy : RootInside root ys) : RootInside root (xs ++ ys) := by
  intro access h
  rw [List.mem_append] at h
  exact h.elim (hx access) (hy access)

theorem RootInside.of_false {root : RootTable} {xs : List Access}
    (h : ∀ access ∈ xs, access.isRootEntry = false) : RootInside root xs := by
  intro access hmem htrue
  rw [h access hmem] at htrue
  cases htrue

namespace AcpiTables

variable {acpi : AcpiTables} {signature : List Byte}

/-- The loop of `find_table`: it searches the list of the addresses that it comes to,
unless an entry of the root table itself has no address, and it reads the root table only. -/
theorem findFrom_sat (hlength : SDT_HEADER_SIZE ≤ acpi.root.table.length) {i count : ℕ}
    (hcount : i + count = acpi.root.size) :
    (acpi.findFrom signature (acpi.root.table.physicalAddr + SDT_HEADER_SIZE) i count).Sat log
      (fun result log' => searchList acpi.memory signature
          ((acpi.root.addresses acpi.memory).drop i) = .ok result
        ∧ ∃ accesses, log' = log ++ accesses ∧ RootInside acpi.root accesses)
      (fun error log' => (searchList acpi.memory signature
          ((acpi.root.addresses acpi.memory).drop i) = .error error
          ∨ ¬ acpi.root.Mapped acpi.memory)
        ∧ ∃ accesses, log' = log ++ accesses ∧ RootInside acpi.root accesses) := by
  induction count generalizing i log with
  | zero =>
    have hdrop : (acpi.root.addresses acpi.memory).drop i = [] := by
      apply List.drop_eq_nil_of_le
      simp [RootTable.addresses]
      omega
    rw [hdrop]
    exact ⟨rfl, [], (List.append_nil _).symm, fun _ h => by simp at h⟩
  | succ count ih =>
    have hi : i < acpi.root.size := by omega
    obtain ⟨hstart, hend⟩ := acpi.root.entry_inside hlength hi
    have hwidth : 0 < acpi.root.entryWidth := by
      cases acpi.root <;> exact Nat.succ_pos _
    generalize haddress : leValue (acpi.memory.bytes (acpi.root.entryAddr i) acpi.root.entryWidth)
      = address
    have hdrop : (acpi.root.addresses acpi.memory).drop i
        = address :: (acpi.root.addresses acpi.memory).drop (i + 1) := by
      rw [List.drop_eq_getElem_cons (by simpa [RootTable.addresses] using hi)]
      simp [RootTable.addresses, haddress]
    have hunmapped (h : USIZE_END ≤ acpi.root.entryAddr i + acpi.memory.directMap.offset) :
        ¬ acpi.root.Mapped acpi.memory := by
      unfold RootTable.Mapped
      omega
    have hnone (error : AcpiError) (h : ¬ acpi.root.Mapped acpi.memory) :
        (searchList acpi.memory signature ((acpi.root.addresses acpi.memory).drop i) = .error error
          ∨ ¬ acpi.root.Mapped acpi.memory)
        ∧ ∃ accesses, log = log ++ accesses ∧ RootInside acpi.root accesses :=
      ⟨.inr h, [], (List.append_nil _).symm, fun _ h => by simp at h⟩
    unfold findFrom checkedMul
    rw [Prog.sat_bind]
    by_cases hmul : i * acpi.root.entryWidth < USIZE_END
    swap
    · rw [if_neg hmul]
      exact hnone _ (hunmapped (by unfold RootTable.entryAddr; omega))
    rw [if_pos hmul, Prog.sat_expect_some, Prog.sat_bind, sat_addAddress]
    refine ⟨fun _ => ?_, fun hover => hnone _ (hunmapped (by unfold RootTable.entryAddr; omega))⟩
    rw [Prog.sat_bind, sat_read]
    refine ⟨fun _ => ?_, fun hover => hnone _ (hunmapped hover)⟩
    have hroot : RootInside acpi.root
        [⟨true, ⟨acpi.root.entryAddr i, acpi.root.entryWidth⟩⟩] := by
      intro access hmem _
      rw [List.mem_singleton] at hmem
      subst hmem
      exact ⟨hstart, hend⟩
    have hheader : RootInside acpi.root [⟨false, ⟨address, SDT_HEADER_SIZE⟩⟩] :=
      RootInside.of_false fun access hmem => by rw [List.mem_singleton.mp hmem]
    have hentry : acpi.root.table.physicalAddr + SDT_HEADER_SIZE + i * acpi.root.entryWidth
        = acpi.root.entryAddr i := rfl
    have hlengthAt : field (acpi.memory.bytes address SDT_HEADER_SIZE) 4 4
        = acpi.memory.lengthAt address := rfl
    have hsignatureAt : (acpi.memory.bytes address SDT_HEADER_SIZE).take 4
        = acpi.memory.signatureAt address := rfl
    simp only [hdrop, hentry, haddress]
    rw [Prog.sat_bind, sat_read]
    refine ⟨fun hmapped => ?_, fun hover => ⟨.inl ?_, _, rfl, hroot⟩⟩
    swap
    · rw [searchList, examine, if_pos hover]
      rfl
    have hexamine : ¬ USIZE_END ≤ address + acpi.memory.directMap.offset := by omega
    rw [List.append_assoc]
    have hboth := hroot.append hheader
    generalize hlog : [(⟨true, ⟨acpi.root.entryAddr i, acpi.root.entryWidth⟩⟩ : Access)]
      ++ [⟨false, ⟨address, SDT_HEADER_SIZE⟩⟩] = first at hboth
    simp only [hlengthAt, hsignatureAt]
    by_cases hshort : acpi.memory.lengthAt address < SDT_HEADER_SIZE
    · rw [if_pos hshort]
      refine ⟨.inl ?_, first, rfl, hboth⟩
      rw [searchList, examine, if_neg hexamine, if_pos hshort]
      rfl
    rw [if_neg hshort]
    by_cases hsignature : acpi.memory.signatureAt address ≠ signature
    · have hsearch : searchList acpi.memory signature
          (address :: (acpi.root.addresses acpi.memory).drop (i + 1))
          = searchList acpi.memory signature ((acpi.root.addresses acpi.memory).drop (i + 1)) := by
        rw [searchList, examine, if_neg hexamine, if_neg hshort, if_pos hsignature]
        rfl
      rw [if_pos hsignature, hsearch]
      refine (ih (by omega)).mono ?_ ?_
      · intro result log' h
        obtain ⟨hresult, accesses, rfl, hinside⟩ := h
        exact ⟨hresult, _, List.append_assoc _ _ _, hboth.append hinside⟩
      · intro error log' h
        obtain ⟨herror, accesses, rfl, hinside⟩ := h
        exact ⟨herror, _, List.append_assoc _ _ _, hboth.append hinside⟩
    · rw [if_neg hsignature, Prog.sat_bind]
      have hpos : 0 < acpi.memory.lengthAt address := by
        unfold SDT_HEADER_SIZE at hshort
        omega
      refine (checksumValid_sat hpos hmapped).mono ?_ ?_
      · intro valid log' h
        obtain ⟨hlast, hvalid, accesses, rfl, hfalse⟩ := h
        have hinside := hboth.append (RootInside.of_false hfalse)
        cases valid with
        | false =>
          refine ⟨.inl ?_, _, List.append_assoc _ _ _, hinside⟩
          rw [searchList, examine, if_neg hexamine, if_neg hshort, if_neg hsignature,
            if_neg (by omega), if_pos (fun hzero => by simp at hvalid; exact hvalid hzero)]
          rfl
        | true =>
          refine ⟨?_, _, List.append_assoc _ _ _, hinside⟩
          rw [searchList, examine, if_neg hexamine, if_neg hshort, if_neg hsignature,
            if_neg (by omega), if_neg (not_not.mpr (hvalid.mp rfl)), ← not_not.mp hsignature]
          rfl
      · intro error log' h
        obtain ⟨rfl, hover, accesses, rfl, hfalse⟩ := h
        refine ⟨.inl ?_, _, List.append_assoc _ _ _, hboth.append (RootInside.of_false hfalse)⟩
        rw [searchList, examine, if_neg hexamine, if_neg hshort, if_neg hsignature, if_pos hover]
        rfl

/-- The whole of `find_table`: it searches the listed addresses, unless the root table has
a bad length or is not mapped. -/
theorem findTable_sat : (acpi.findTable signature).Sat log
    (fun result log' => searchList acpi.memory signature (acpi.root.addresses acpi.memory)
        = .ok result
      ∧ ∃ accesses, log' = log ++ accesses ∧ RootInside acpi.root accesses)
    (fun error log' => (acpi.root.WellFormed → acpi.root.Mapped acpi.memory →
        searchList acpi.memory signature (acpi.root.addresses acpi.memory) = .error error)
      ∧ ∃ accesses, log' = log ++ accesses ∧ RootInside acpi.root accesses) := by
  have hnone : ∃ accesses, log = log ++ accesses ∧ RootInside acpi.root accesses :=
    ⟨[], (List.append_nil _).symm, fun _ h => by simp at h⟩
  unfold findTable RootTable.entryCount checkedSub
  rw [Prog.sat_bind, sat_addAddress]
  refine ⟨fun _ => ?_, fun hover => ⟨fun hwell hmapped => ?_, hnone⟩⟩
  swap
  · unfold RootTable.WellFormed at hwell
    unfold RootTable.Mapped at hmapped
    omega
  rw [Prog.sat_bind, Prog.sat_bind]
  by_cases hlength : SDT_HEADER_SIZE ≤ acpi.root.table.length
  swap
  · rw [if_neg hlength]
    exact ⟨fun hwell => absurd hwell.1 hlength, hnone⟩
  rw [if_pos hlength, Prog.sat_expect_some]
  by_cases hwhole : (acpi.root.table.length - SDT_HEADER_SIZE) % acpi.root.entryWidth = 0
  swap
  · rw [if_pos hwhole]
    exact ⟨fun hwell => absurd hwell.2 hwhole, hnone⟩
  rw [if_neg (not_not.mpr hwhole), Prog.sat_pure]
  refine (findFrom_sat hlength (Nat.zero_add _)).mono ?_ ?_
  · intro result log' h
    exact h
  · intro error log' h
    exact ⟨fun _ hmapped => h.1.resolve_right (not_not.mpr hmapped), h.2⟩

end AcpiTables

section Search

variable {signature : List Byte} {address : ℕ} {addresses : List ℕ}

/-- The search goes on only past a table with another signature. -/
theorem examine_none (h : examine m signature address = none) :
    m.signatureAt address ≠ signature := by
  unfold examine at h
  split_ifs at h with _ _ hsignature
  exact hsignature

/-- An answer is a valid table with the signature. -/
theorem examine_ok {result : Option Sdt} (h : examine m signature address = some (.ok result)) :
    result = some ⟨address, m.lengthAt address, signature⟩
      ∧ m.signatureAt address = signature ∧ SDT_HEADER_SIZE ≤ m.lengthAt address
      ∧ m.byteSum address (m.lengthAt address) % 256 = 0 := by
  unfold examine at h
  split_ifs at h with _ hshort hsignature _ hsum
  · cases h
  · cases h
  · cases h
  · cases h
  · cases h
    exact ⟨rfl, not_not.mp hsignature, not_lt.mp hshort, not_not.mp hsum⟩

/-- The first listed table with the signature, which is valid. -/
def FirstTable (m : Memory) (signature : List Byte) (addresses : List ℕ) (table : Sdt) : Prop :=
  (∃ before after, addresses = before ++ table.physicalAddr :: after
    ∧ ∀ address ∈ before, m.signatureAt address ≠ signature)
  ∧ m.signatureAt table.physicalAddr = signature ∧ table.signature = signature
  ∧ m.lengthAt table.physicalAddr = table.length ∧ SDT_HEADER_SIZE ≤ table.length
  ∧ m.byteSum table.physicalAddr table.length % 256 = 0

/-- A list without the signature is searched to its end. -/
theorem searchList_none (h : searchList m signature addresses = .ok none) :
    ∀ address ∈ addresses, m.signatureAt address ≠ signature := by
  induction addresses with
  | nil => simp
  | cons address rest ih =>
    unfold searchList at h
    cases hexamine : examine m signature address with
    | none =>
      rw [hexamine] at h
      rw [List.forall_mem_cons]
      exact ⟨examine_none hexamine, ih h⟩
    | some answer =>
      rw [hexamine] at h
      change answer = .ok none at h
      subst h
      exact absurd (examine_ok hexamine).1 (by simp)

/-- A table that is found is the first one. -/
theorem searchList_some {table : Sdt} (h : searchList m signature addresses = .ok (some table)) :
    FirstTable m signature addresses table := by
  induction addresses with
  | nil => cases h
  | cons address rest ih =>
    unfold searchList at h
    cases hexamine : examine m signature address with
    | none =>
      rw [hexamine] at h
      obtain ⟨⟨before, after, hsplit, hbefore⟩, hvalid⟩ := ih h
      refine ⟨⟨address :: before, after, ?_, ?_⟩, hvalid⟩
      · rw [hsplit, List.cons_append]
      · rw [List.forall_mem_cons]
        exact ⟨examine_none hexamine, hbefore⟩
    | some answer =>
      rw [hexamine] at h
      change answer = .ok (some table) at h
      subst h
      obtain ⟨htable, hsignature, hlength, hsum⟩ := examine_ok hexamine
      cases htable
      exact ⟨⟨[], rest, rfl, by simp⟩, hsignature, rfl, rfl, hlength, hsum⟩

end Search

/-- The answer of a program, without what it has read. -/
def answer {α : Type} : Outcome (List Access) AcpiError α → Except AcpiError α
  | .ok a _ => .ok a
  | .stop error _ => .error error

theorem answer_findTable {acpi : AcpiTables} {signature : List Byte}
    (hwell : acpi.root.WellFormed) (hmapped : acpi.root.Mapped acpi.memory) :
    answer (acpi.findTable signature log)
      = searchList acpi.memory signature (acpi.root.addresses acpi.memory) := by
  cases hrun : acpi.findTable signature log with
  | ok result log' => exact (AcpiTables.findTable_sat.of_ok hrun).1.symm
  | stop error log' => exact ((AcpiTables.findTable_sat.of_stop hrun).1 hwell hmapped).symm

/-- Whatever is in memory, a table that is found is the first listed one with the signature
and is valid, none is found only where none is listed, entries are read only inside the root
table, and the two formats of it give the same answer for the same list. -/
theorem find_table_searches_addresses (m : Memory) (signature : List Byte) (log : List Access) :
    (∀ root : RootTable, (AcpiTables.findTable ⟨m, root⟩ signature).Sat log
      (fun result log' =>
        (∀ table, result = some table → FirstTable m signature (root.addresses m) table)
        ∧ (result = none → ∀ address ∈ root.addresses m, m.signatureAt address ≠ signature)
        ∧ ∃ accesses, log' = log ++ accesses ∧ RootInside root accesses)
      (fun _ log' => ∃ accesses, log' = log ++ accesses ∧ RootInside root accesses))
    ∧ ∀ rsdt xsdt : Sdt, (RootTable.rsdt rsdt).WellFormed → (RootTable.xsdt xsdt).WellFormed →
      (RootTable.rsdt rsdt).Mapped m → (RootTable.xsdt xsdt).Mapped m →
      (RootTable.rsdt rsdt).addresses m = (RootTable.xsdt xsdt).addresses m →
      answer (AcpiTables.findTable ⟨m, .rsdt rsdt⟩ signature log)
        = answer (AcpiTables.findTable ⟨m, .xsdt xsdt⟩ signature log) := by
  refine ⟨fun root => ?_, ?_⟩
  · refine AcpiTables.findTable_sat.mono ?_ ?_
    · intro result log' h
      obtain ⟨hsearch, haccesses⟩ := h
      refine ⟨?_, ?_, haccesses⟩
      · intro table htable
        subst htable
        exact searchList_some hsearch
      · intro hnone
        subst hnone
        exact searchList_none hsearch
    · intro error log' h
      exact h.2
  · intro rsdt xsdt hrsdt hxsdt hrsdtMapped hxsdtMapped hsame
    rw [answer_findTable hrsdt hrsdtMapped, answer_findTable hxsdt hxsdtMapped]
    exact congrArg (searchList m signature) hsame

/-- Two root tables, with four and with eight bytes for an address, that list one table of
no body; its last byte makes the sum zero. -/
def rootMemory : Memory :=
  ⟨fun p => if p = 0x1024 then 0x00 else if p = 0x1025 then 0x30
      else if p = 0x2024 then 0x00 else if p = 0x2025 then 0x30
      else if p = 0x3000 then 65 else if p = 0x3001 then 80 else if p = 0x3002 then 73
      else if p = 0x3003 then 67 else if p = 0x3004 then 36 else if p = 0x3023 then 191 else 0,
    ⟨0xFFFF_8000_0000_0000⟩⟩

theorem find_table_searches_addresses_small :
    answer (AcpiTables.findTable ⟨rootMemory, .rsdt ⟨0x1000, 40, []⟩⟩ (Cpio.strBytes "APIC") [])
      = .ok (some ⟨0x3000, 36, Cpio.strBytes "APIC"⟩)
    ∧ answer (AcpiTables.findTable ⟨rootMemory, .xsdt ⟨0x2000, 44, []⟩⟩ (Cpio.strBytes "APIC") [])
      = .ok (some ⟨0x3000, 36, Cpio.strBytes "APIC"⟩) := by
  have hsame := (find_table_searches_addresses rootMemory (Cpio.strBytes "APIC") []).2
    ⟨0x1000, 40, []⟩ ⟨0x2000, 44, []⟩ ⟨by decide, by decide⟩ ⟨by decide, by decide⟩
    ⟨by decide, by decide⟩ ⟨by decide, by decide⟩ (by decide +kernel)
  exact ⟨by decide +kernel, hsame.symm.trans (by decide +kernel)⟩

end Acpi

end Dusk
