import Dusk.Model.Acpi
import Dusk.Proofs.Omega3
import Dusk.Lib.Iter

/-! One step of the MADT iterator: it ends the iteration with an error, or decodes one
entry from its own bytes and moves behind it. -/

namespace Dusk

open Lib

namespace Acpi

theorem Memory.bytes_length (m : Memory) (address n : ℕ) : (m.bytes address n).length = n := by
  simp [Memory.bytes, Slice.bytes]

/-- Bytes `k .. k + j` of the bytes from an address on. -/
theorem Memory.bytes_slice (m : Memory) (address : ℕ) {k j n : ℕ} (h : k + j ≤ n) :
    ((m.bytes address n).drop k).take j = m.bytes (address + k) j := by
  unfold Memory.bytes
  rw [Slice.bytes_slice _ _ _ h]
  simp [Slice.bytes]

theorem Memory.bytes_add (m : Memory) (address j k : ℕ) :
    m.bytes address (j + k) = m.bytes address j ++ m.bytes (address + j) k := by
  simp [Memory.bytes, Slice.bytes, List.range_add, Function.comp_def, add_assoc]

theorem field_bytes (m : Memory) (address : ℕ) {offset n k : ℕ} (h : offset + k ≤ n) :
    field (m.bytes address n) offset k = leValue (m.bytes (address + offset) k) := by
  unfold field
  rw [m.bytes_slice address h]

theorem sat_addAddress {a b : ℕ} {log : List Access} {Q : ℕ → List Access → Prop}
    {E : AcpiError → List Access → Prop} :
    (addAddress a b).Sat log Q E ↔
      (a + b < USIZE_END → Q (a + b) log) ∧ (USIZE_END ≤ a + b → E .addressOverflow log) := by
  unfold addAddress checkedAdd
  split_ifs with h
  · simp [h, not_le.mpr h]
  · simp [h, not_lt.mp h]

theorem sat_read {m : Memory} {isRootEntry : Bool} {physicalAddr n : ℕ} {log : List Access}
    {Q : List Byte → List Access → Prop} {E : AcpiError → List Access → Prop} :
    (read m isRootEntry physicalAddr n).Sat log Q E ↔
      (physicalAddr + m.directMap.offset < USIZE_END →
        Q (m.bytes physicalAddr n) (log ++ [⟨isRootEntry, ⟨physicalAddr, n⟩⟩]))
      ∧ (USIZE_END ≤ physicalAddr + m.directMap.offset → E .addressOverflow log) := by
  unfold read DirectMap.translate checkedAdd
  rw [Prog.sat_bind]
  split_ifs with h
  · simp [h, not_le.mpr h]
  · simp [h, not_lt.mp h]

theorem read_ok {m : Memory} {isRootEntry : Bool} {physicalAddr n : ℕ} {log : List Access}
    (h : physicalAddr + m.directMap.offset < USIZE_END) :
    read m isRootEntry physicalAddr n log =
      .ok (m.bytes physicalAddr n) (log ++ [⟨isRootEntry, ⟨physicalAddr, n⟩⟩]) := by
  have hsat := (sat_read (Q := fun bytes log' => bytes = m.bytes physicalAddr n
    ∧ log' = log ++ [⟨isRootEntry, ⟨physicalAddr, n⟩⟩]) (E := Prog.never)).mpr
    ⟨fun _ => ⟨rfl, rfl⟩, fun hover => absurd h (by omega)⟩
  obtain ⟨bytes, log', heq, rfl, rfl⟩ := hsat.finishes
  exact heq

theorem read_stop {m : Memory} {isRootEntry : Bool} {physicalAddr n : ℕ} {log : List Access}
    (h : USIZE_END ≤ physicalAddr + m.directMap.offset) :
    read m isRootEntry physicalAddr n log = .stop .addressOverflow log := by
  have htranslate : m.directMap.translate physicalAddr = none := if_neg (by omega)
  unfold read
  rw [htranslate]
  rfl

/-- The entry that a chunk of the table stands for. -/
def decodeEntry (chunk : List Byte) : Except AcpiError MadtEntry :=
  match bodyOf (field chunk 0 1) with
  | some (size, decode) =>
    if field chunk 1 1 < ENTRY_HEADER_SIZE + size then .error .malformedAcpiTable
    else .ok (decode ((chunk.drop ENTRY_HEADER_SIZE).take size))
  | none => .ok (.unknown (field chunk 0 1) (field chunk 1 1))

/-- Accesses inside the range from `start` to `stop`. -/
def Within (start stop : ℕ) (accesses : List Access) : Prop :=
  ∀ access ∈ accesses, start ≤ access.range.start
    ∧ access.range.start + access.range.length ≤ stop

theorem Within.append {start stop : ℕ} {xs ys : List Access} (hx : Within start stop xs)
    (hy : Within start stop ys) : Within start stop (xs ++ ys) := by
  intro access h
  rw [List.mem_append] at h
  exact h.elim (hx access) (hy access)

theorem Within.mono {start stop start' stop' : ℕ} {xs : List Access} (h : Within start stop xs)
    (hstart : start' ≤ start) (hstop : stop ≤ stop') : Within start' stop' xs := by
  intro access hmem
  have := h access hmem
  omega

theorem Within.single {start stop : ℕ} {access : Access} (h : start ≤ access.range.start)
    (h' : access.range.start + access.range.length ≤ stop) : Within start stop [access] := by
  intro other hmem
  rw [List.mem_singleton] at hmem
  subst hmem
  exact ⟨h, h'⟩

namespace MadtEntries

variable {entries : MadtEntries} {log : List Access} {length : ℕ}

/-- `read_next` on an entry of `length` bytes: it decodes them, unless an address
leaves the direct map, and reads nothing else. -/
theorem readNext_sat (hlength : field (entries.memory.bytes entries.current length) 1 1 = length)
    (hmin : ENTRY_HEADER_SIZE ≤ length) (hstop : entries.current + length < USIZE_END) :
    entries.readNext.Sat log
      (fun result log' => decodeEntry (entries.memory.bytes entries.current length) = .ok result.1
        ∧ result.2 = entries.current + length
        ∧ ∃ accesses, log' = log ++ accesses
          ∧ Within entries.current (entries.current + length) accesses)
      (fun error log' => (decodeEntry (entries.memory.bytes entries.current length) = .error error
          ∨ USIZE_END ≤ entries.current + length + entries.memory.directMap.offset)
        ∧ ∃ accesses, log' = log ++ accesses
          ∧ Within entries.current (entries.current + length) accesses) := by
  unfold ENTRY_HEADER_SIZE at hmin
  have hheader (k : ℕ) (hk : k + 1 ≤ 2) : field (entries.memory.bytes entries.current 2) k 1
      = field (entries.memory.bytes entries.current length) k 1 := by
    rw [field_bytes _ _ hk, field_bytes _ _ (by omega)]
  unfold readNext ENTRY_HEADER_SIZE
  rw [Prog.sat_bind, sat_read]
  refine ⟨fun _ => ?_, fun hover => ⟨.inr (by omega), [], by simp, fun _ h => by simp at h⟩⟩
  have hfirst : Within entries.current (entries.current + length)
      [⟨false, ⟨entries.current, 2⟩⟩] := Within.single le_rfl (by dsimp only; omega)
  rw [hheader 0 (by omega), hheader 1 (by omega), hlength]
  unfold decodeEntry ENTRY_HEADER_SIZE
  rw [hlength]
  cases hbody : bodyOf (field (entries.memory.bytes entries.current length) 0 1) with
  | none =>
    dsimp only
    rw [hbody]
    dsimp only
    rw [Prog.sat_bind, Prog.sat_pure, Prog.sat_bind, sat_addAddress]
    exact ⟨fun _ => ⟨rfl, rfl, _, rfl, hfirst⟩, fun hover => absurd hover (by omega)⟩
  | some body =>
    obtain ⟨size, decode⟩ := body
    dsimp only
    rw [hbody]
    dsimp only
    rw [Prog.sat_bind]
    unfold readBody ENTRY_HEADER_SIZE
    by_cases hsize : length < 2 + size
    · rw [if_pos hsize, if_pos hsize]
      exact ⟨.inl rfl, _, rfl, hfirst⟩
    rw [if_neg hsize, if_neg hsize, Prog.sat_bind, sat_addAddress]
    refine ⟨fun _ => ?_, fun hover => absurd hover (by omega)⟩
    rw [sat_read]
    refine ⟨fun _ => ?_, fun hover => ⟨.inr (by omega), _, rfl, hfirst⟩⟩
    rw [Prog.sat_bind, Prog.sat_pure, Prog.sat_bind, sat_addAddress]
    refine ⟨fun _ => ?_, fun hover => absurd hover (by omega)⟩
    rw [Prog.sat_pure, entries.memory.bytes_slice _ (by omega)]
    refine ⟨rfl, rfl, _, List.append_assoc _ _ _, hfirst.append ?_⟩
    exact Within.single (by dsimp only; omega) (by dsimp only; omega)

/-- The iterator at its end. -/
def ended (entries : MadtEntries) : MadtEntries := { entries with current := entries.stop }

/-- The iterator at another address. -/
def moved (entries : MadtEntries) (current : ℕ) : MadtEntries := { entries with current := current }

/-- A step on an entry whose length byte fits the rest of the table. -/
theorem next_chunk (hlength : field (entries.memory.bytes entries.current length) 1 1 = length)
    (hmin : ENTRY_HEADER_SIZE ≤ length) (hle : entries.current + length ≤ entries.stop)
    (hstop : entries.stop < USIZE_END) (log : List Access) :
    ∃ accesses, Within entries.current entries.stop accesses ∧
      ((∃ entry, decodeEntry (entries.memory.bytes entries.current length) = .ok entry
          ∧ next (entries, log) =
            (some (.ok entry), (entries.moved (entries.current + length), log ++ accesses)))
      ∨ (∃ error, (decodeEntry (entries.memory.bytes entries.current length) = .error error
            ∨ USIZE_END ≤ entries.stop + entries.memory.directMap.offset)
          ∧ next (entries, log) = (some (.error error), (entries.ended, log ++ accesses)))) := by
  have hmin' := hmin
  unfold ENTRY_HEADER_SIZE at hmin'
  have hheader : field (entries.memory.bytes entries.current ENTRY_HEADER_SIZE) 1 1 = length := by
    rw [← hlength, field_bytes _ _ (by decide), field_bytes _ _ (by omega)]
  have hcond : ¬ (length < ENTRY_HEADER_SIZE ∨ length > entries.stop - entries.current) := by omega
  unfold next
  dsimp only
  rw [if_neg (by omega), if_neg (by omega), if_neg (by omega)]
  obtain hover | hfits := le_or_gt USIZE_END (entries.current + entries.memory.directMap.offset)
  · rw [read_stop hover]
    exact ⟨[], fun _ h => by simp at h, .inr ⟨_, .inr (by omega), by rw [List.append_nil]; rfl⟩⟩
  · rw [read_ok hfits]
    dsimp only
    rw [hheader, if_neg hcond]
    have hfirst : Within entries.current entries.stop
        [⟨false, ⟨entries.current, ENTRY_HEADER_SIZE⟩⟩] :=
      Within.single le_rfl (by dsimp only; omega)
    generalize hlog : log ++ [⟨false, ⟨entries.current, ENTRY_HEADER_SIZE⟩⟩] = log₁
    have hread := @readNext_sat entries log₁ length hlength hmin (by omega)
    generalize hrun : entries.readNext log₁ = outcome
    cases outcome with
    | ok result log₂ =>
      obtain ⟨hdecode, hnext, accesses, rfl, hwithin⟩ := hread.of_ok hrun
      refine ⟨_, hfirst.append (hwithin.mono le_rfl hle), .inl ⟨result.1, hdecode, ?_⟩⟩
      rw [← List.append_assoc, hlog, ← hnext]
      rfl
    | stop error log₂ =>
      obtain ⟨hdecode, accesses, rfl, hwithin⟩ := hread.of_stop hrun
      refine ⟨_, hfirst.append (hwithin.mono le_rfl hle),
        .inr ⟨error, hdecode.imp_right fun h => by omega, ?_⟩⟩
      rw [← List.append_assoc, hlog]
      rfl

/-- A step anywhere before the end. -/
theorem next_cases (hlt : entries.current < entries.stop) (hstop : entries.stop < USIZE_END)
    (log : List Access) :
    ∃ accesses, Within entries.current entries.stop accesses ∧
      ((∃ error, next (entries, log) = (some (.error error), (entries.ended, log ++ accesses)))
      ∨ (∃ length entry, ENTRY_HEADER_SIZE ≤ length ∧ entries.current + length ≤ entries.stop
          ∧ field (entries.memory.bytes entries.current length) 1 1 = length
          ∧ decodeEntry (entries.memory.bytes entries.current length) = .ok entry
          ∧ next (entries, log) =
            (some (.ok entry), (entries.moved (entries.current + length), log ++ accesses)))) := by
  by_cases hremaining : entries.stop - entries.current < ENTRY_HEADER_SIZE
  · refine ⟨[], fun _ h => by simp at h, .inl ⟨.malformedAcpiTable, ?_⟩⟩
    unfold next
    dsimp only
    rw [if_neg (by omega), if_neg (by omega), if_pos hremaining, List.append_nil]
    rfl
  obtain hover | hfits := le_or_gt USIZE_END (entries.current + entries.memory.directMap.offset)
  · refine ⟨[], fun _ h => by simp at h, .inl ⟨.addressOverflow, ?_⟩⟩
    unfold next
    dsimp only
    rw [if_neg (by omega), if_neg (by omega), if_neg hremaining, read_stop hover, List.append_nil]
    rfl
  generalize hlength : field (entries.memory.bytes entries.current ENTRY_HEADER_SIZE) 1 1 = length
  by_cases hbad : length < ENTRY_HEADER_SIZE ∨ length > entries.stop - entries.current
  · refine ⟨[⟨false, ⟨entries.current, ENTRY_HEADER_SIZE⟩⟩],
      Within.single le_rfl (by dsimp only; omega), .inl ⟨.malformedAcpiTable, ?_⟩⟩
    unfold next
    dsimp only
    rw [if_neg (by omega), if_neg (by omega), if_neg hremaining, read_ok hfits]
    dsimp only
    rw [hlength, if_pos hbad]
    rfl
  · have hmin : ENTRY_HEADER_SIZE ≤ length := by omega
    have hle : entries.current + length ≤ entries.stop := by omega
    have hlength' : field (entries.memory.bytes entries.current length) 1 1 = length := by
      unfold ENTRY_HEADER_SIZE at hmin
      rw [field_bytes _ _ (by omega)]
      rw [field_bytes _ _ (by decide)] at hlength
      exact hlength
    obtain ⟨accesses, hwithin, ⟨entry, hdecode, hnext⟩ | ⟨error, -, hnext⟩⟩ :=
      next_chunk hlength' hmin hle hstop log
    · exact ⟨accesses, hwithin, .inr ⟨length, entry, hmin, hle, hlength', hdecode, hnext⟩⟩
    · exact ⟨accesses, hwithin, .inl ⟨error, hnext⟩⟩

end MadtEntries

end Acpi

end Dusk
