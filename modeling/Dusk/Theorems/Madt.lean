import Dusk.Proofs.Acpi

/-! The entries of the MADT: the iterator ends, stays in the table and tiles it, and
which tables laid out as the ACPI specification says it decodes. -/

namespace Dusk

open Lib

namespace Acpi

/-- The items tile the table from `current` to `stop`: each entry has its own bytes,
and an error ends the list. -/
inductive Tiles (m : Memory) (stop : ℕ) : ℕ → List (Except AcpiError MadtEntry) → Prop
  | done : Tiles m stop stop []
  | error {current : ℕ} (error : AcpiError) : Tiles m stop current [.error error]
  | entry {current length : ℕ} {entry : MadtEntry} {items : List (Except AcpiError MadtEntry)}
      (hmin : ENTRY_HEADER_SIZE ≤ length)
      (hlength : field (m.bytes current length) 1 1 = length)
      (hdecode : decodeEntry (m.bytes current length) = .ok entry)
      (rest : Tiles m stop (current + length) items) : Tiles m stop current (.ok entry :: items)

/-- An error is the last item. -/
theorem Tiles.error_last {m : Memory} {stop current : ℕ}
    {items : List (Except AcpiError MadtEntry)} (h : Tiles m stop current items) :
    ∀ before error after, items = before ++ .error error :: after → after = [] := by
  induction h with
  | done =>
    intro before error after heq
    cases before <;> cases heq
  | error e =>
    intro before error after heq
    cases before with
    | nil =>
      cases heq
      rfl
    | cons item before =>
      have hlength := congrArg List.length heq
      simp at hlength
  | entry _ _ _ _ ih =>
    intro before error after heq
    cases before with
    | nil => cases heq
    | cons item before =>
      cases heq
      exact ih before error after rfl

/-- The chunks of the table that the entries were decoded from. -/
def Chunks (bytes : List Byte) (items : List (Except AcpiError MadtEntry)) : Prop :=
  ∃ chunks : List (List Byte), chunks.flatten = bytes
    ∧ (∀ chunk ∈ chunks, ENTRY_HEADER_SIZE ≤ chunk.length ∧ field chunk 1 1 = chunk.length)
    ∧ items = chunks.map decodeEntry

theorem Tiles.le {m : Memory} {stop current : ℕ} {items : List (Except AcpiError MadtEntry)}
    (h : Tiles m stop current items) (hok : ∀ error, .error error ∉ items) : current ≤ stop := by
  induction h with
  | done => exact le_rfl
  | error e => exact absurd List.mem_cons_self (hok e)
  | entry _ _ _ _ ih =>
    have hle := ih fun error hmem => hok error (List.mem_cons_of_mem _ hmem)
    omega

theorem Tiles.chunks {m : Memory} {stop current : ℕ} {items : List (Except AcpiError MadtEntry)}
    (h : Tiles m stop current items) (hok : ∀ error, .error error ∉ items) :
    Chunks (m.bytes current (stop - current)) items := by
  induction h with
  | done =>
    refine ⟨[], ?_, fun _ h => by simp at h, rfl⟩
    rw [Nat.sub_self]
    rfl
  | error e => exact absurd List.mem_cons_self (hok e)
  | @entry current length entry items hmin hlength hdecode rest ih =>
    have hrest : ∀ error, .error error ∉ items :=
      fun error hmem => hok error (List.mem_cons_of_mem _ hmem)
    have hle := rest.le hrest
    obtain ⟨chunks, hflatten, hchunks, hitems⟩ := ih hrest
    refine ⟨m.bytes current length :: chunks, ?_, ?_, ?_⟩
    · have hsplit : stop - current = length + (stop - (current + length)) := by omega
      rw [List.flatten_cons, hflatten, hsplit, m.bytes_add]
    · intro chunk hmem
      rw [List.mem_cons] at hmem
      obtain rfl | hmem := hmem
      · rw [m.bytes_length]
        exact ⟨hmin, hlength⟩
      · exact hchunks chunk hmem
    · rw [List.map_cons, hdecode, hitems]

/-- The iterator ends, and reads nothing but the rest of the table. -/
theorem MadtEntries.yields {entries : MadtEntries} (hle : entries.current ≤ entries.stop)
    (hstop : entries.stop < USIZE_END) (log : List Access) :
    ∃ items accesses, Yields MadtEntries.next (entries, log) items (entries.ended, log ++ accesses)
      ∧ Within entries.current entries.stop accesses
      ∧ Tiles entries.memory entries.stop entries.current items := by
  -- The distance to the end decreases with every entry.
  generalize hn : entries.stop - entries.current = n
  induction n using Nat.strong_induction_on generalizing entries log with
  | _ n ih =>
    have hended (log : List Access) : Yields MadtEntries.next (entries.ended, log) []
        (entries.ended, log) := by
      apply Yields.done
      unfold MadtEntries.next
      exact if_pos rfl
    obtain heq | hlt := hle.eq_or_lt
    · refine ⟨[], [], ?_, fun _ h => by simp at h, heq ▸ Tiles.done⟩
      have hself : entries.ended = entries := congrArg entries.moved heq.symm
      rw [List.append_nil, ← hself]
      exact hended log
    · obtain ⟨accesses, hwithin, ⟨error, hnext⟩ | ⟨length, entry, hmin, hfit, hlength, hdecode,
        hnext⟩⟩ := MadtEntries.next_cases hlt hstop log
      · exact ⟨[.error error], accesses, Yields.item hnext (hended _), hwithin, Tiles.error error⟩
      · have hpos : 0 < length := lt_of_lt_of_le (by decide) hmin
        obtain ⟨items, more, hyields, hmore, htiles⟩ := @ih
          (entries.stop - (entries.current + length)) (by omega)
          (entries.moved (entries.current + length)) hfit hstop (log ++ accesses) rfl
        refine ⟨.ok entry :: items, accesses ++ more, Yields.item hnext ?_,
          hwithin.append (hmore.mono (by dsimp only [MadtEntries.moved]; omega) le_rfl),
          Tiles.entry hmin hlength hdecode htiles⟩
        rw [← List.append_assoc]
        exact hyields

theorem Madt.parse_sat (acpi : AcpiTables) (table : Sdt) (log : List Access) :
    (Madt.parse acpi table).Sat log (fun madt _ => MADT_ENTRIES_OFFSET ≤ table.length
      ∧ madt.acpi = acpi ∧ madt.table = table) (fun _ _ => True) := by
  unfold Madt.parse
  simp only [Prog.sat_ite, Prog.sat_stop, Prog.sat_bind, sat_addAddress, sat_read, Prog.sat_pure,
    and_true, implies_true, true_and]
  intro _ hlength _ _
  exact not_lt.mp hlength

theorem Madt.entries_sat (madt : Madt) (log : List Access) :
    madt.entries.Sat log (fun entries _ => madt.table.physicalAddr + madt.table.length < USIZE_END
      ∧ entries = ⟨madt.acpi.memory, madt.table.physicalAddr + MADT_ENTRIES_OFFSET,
        madt.table.physicalAddr + madt.table.length⟩) (fun _ _ => True) := by
  unfold Madt.entries
  simp only [Prog.sat_bind, sat_addAddress, Prog.sat_pure, and_true, implies_true]
  exact fun _ hstop => hstop

/-- For every memory and every table that `Madt::parse` accepts, the iterator of
`entries` ends; what it reads lies behind the header and inside the table; an error is
its last item; and without an error the entries tile the table, each decoded from its
own bytes. -/
theorem madt_entries_tile (acpi : AcpiTables) (table : Sdt) (madt : Madt) (entries : MadtEntries)
    (log log₁ log₂ : List Access) (hparse : Madt.parse acpi table log = .ok madt log₁)
    (hentries : madt.entries log₁ = .ok entries log₂) :
    ∃ items accesses, Yields MadtEntries.next (entries, log₂) items
        (entries.ended, log₂ ++ accesses)
      ∧ Within (table.physicalAddr + MADT_ENTRIES_OFFSET) (table.physicalAddr + table.length)
        accesses
      ∧ (∀ before error after, items = before ++ .error error :: after → after = [])
      ∧ ((∀ error, .error error ∉ items) →
        Chunks (acpi.memory.bytes (table.physicalAddr + MADT_ENTRIES_OFFSET)
          (table.length - MADT_ENTRIES_OFFSET)) items) := by
  obtain ⟨hlength, rfl, rfl⟩ := (Madt.parse_sat acpi table log).of_ok hparse
  obtain ⟨hstop, rfl⟩ := (Madt.entries_sat madt log₁).of_ok hentries
  obtain ⟨items, accesses, hyields, hwithin, htiles⟩ :=
    @MadtEntries.yields ⟨madt.acpi.memory, _, _⟩ (Nat.add_le_add_left hlength _) hstop log₂
  refine ⟨items, accesses, hyields, hwithin, htiles.error_last, fun hok => ?_⟩
  have hchunks := htiles.chunks hok
  dsimp only at hchunks
  rwa [Nat.add_sub_add_left] at hchunks

/-- A memory that is empty but for some bytes at an address. -/
def memoryAt (address : ℕ) (bytes : List Byte) : Memory :=
  ⟨fun p => if p < address then 0 else bytes.getD (p - address) 0, ⟨0xFFFF_8000_0000_0000⟩⟩

/-- The tables of a machine with a MADT at `0x1000`. -/
def tablesAt (bytes : List Byte) : AcpiTables :=
  ⟨memoryAt 0x102C bytes, .xsdt ⟨0, 36, Cpio.strBytes "XSDT"⟩⟩

/-- A local APIC and an entry of a kind the kernel does not know. -/
theorem madt_entries_tile_small :
    ∃ items accesses, Yields MadtEntries.next
        (⟨(tablesAt [0, 8, 1, 2, 1, 0, 0, 0, 0x7F, 3, 5]).memory, 0x102C, 0x1037⟩,
          [⟨false, ⟨0x1024, 8⟩⟩]) items
        (⟨(tablesAt [0, 8, 1, 2, 1, 0, 0, 0, 0x7F, 3, 5]).memory, 0x1037, 0x1037⟩,
          [⟨false, ⟨0x1024, 8⟩⟩] ++ accesses)
      ∧ Within 0x102C 0x1037 accesses := by
  obtain ⟨items, accesses, hyields, hwithin, -⟩ := madt_entries_tile
    (tablesAt [0, 8, 1, 2, 1, 0, 0, 0, 0x7F, 3, 5]) ⟨0x1000, 55, Cpio.strBytes "APIC"⟩
    ⟨_, _, _, _⟩ ⟨_, _, _⟩ [] _ _ rfl rfl
  exact ⟨items, accesses, hyields, hwithin⟩

/-- An interrupt controller structure of the ACPI specification. -/
inductive Structure where
  | localApic (processorId id : BitVec 8) (flags : BitVec 32)
  | ioApic (id reserved : BitVec 8) (apicAddress gsiBase : BitVec 32)
  | interruptSourceOverride (bus source : BitVec 8) (gsi : BitVec 32) (flags : BitVec 16)
  | nmiSource (flags : BitVec 16) (gsi : BitVec 32)
  | localApicNmi (processorId : BitVec 8) (flags : BitVec 16) (lintNum : BitVec 8)
  | localApicAddressOverride (reserved : BitVec 16) (address : BitVec 64)
  | localX2Apic (reserved : BitVec 16) (id flags uid : BitVec 32)
  | other (kind : Byte) (payload : List Byte) (hkind : bodyOf kind.toNat = none)
      (hlength : payload.length ≤ 253)

namespace Structure

/-- The bytes of a field. -/
def le {w : ℕ} (v : BitVec w) : List Byte := leBytes (w / 8) v.toNat

/-- The type byte and the fields, in the order of the specification. -/
def parts : Structure → Byte × List Byte
  | .localApic processorId id flags => (0, le processorId ++ le id ++ le flags)
  | .ioApic id reserved apicAddress gsiBase =>
    (1, le id ++ le reserved ++ le apicAddress ++ le gsiBase)
  | .interruptSourceOverride bus source gsi flags =>
    (2, le bus ++ le source ++ le gsi ++ le flags)
  | .nmiSource flags gsi => (3, le flags ++ le gsi)
  | .localApicNmi processorId flags lintNum => (4, le processorId ++ le flags ++ le lintNum)
  | .localApicAddressOverride reserved address => (5, le reserved ++ le address)
  | .localX2Apic reserved id flags uid => (9, le reserved ++ le id ++ le flags ++ le uid)
  | .other kind payload _ _ => (kind, payload)

/-- The structure as it stands in a table. -/
def encode (s : Structure) : List Byte :=
  [s.parts.1, BitVec.ofNat 8 (2 + s.parts.2.length)] ++ s.parts.2

/-- The item is the structure, with its fields. -/
def Decodes : Structure → Except AcpiError MadtEntry → Prop
  | .localApic processorId id flags, item =>
    item = .ok (.localApic ⟨processorId.toNat, id.toNat, flags.toNat⟩)
  | .ioApic id reserved apicAddress gsiBase, item =>
    item = .ok (.ioApic ⟨id.toNat, reserved.toNat, apicAddress.toNat, gsiBase.toNat⟩)
  | .interruptSourceOverride bus source gsi flags, item =>
    item = .ok (.interruptSourceOverride ⟨bus.toNat, source.toNat, gsi.toNat, flags.toNat⟩)
  | .nmiSource flags gsi, item => ∃ nmiSource reserved,
    item = .ok (.ioApicNmi ⟨nmiSource, reserved, flags.toNat, gsi.toNat⟩)
  | .localApicNmi processorId flags lintNum, item =>
    item = .ok (.localApicNmi ⟨processorId.toNat, flags.toNat, lintNum.toNat⟩)
  | .localApicAddressOverride reserved address, item =>
    item = .ok (.localApicAddressOverride ⟨reserved.toNat, address.toNat⟩)
  | .localX2Apic reserved id flags uid, item =>
    item = .ok (.localX2Apic ⟨reserved.toNat, id.toNat, flags.toNat, uid.toNat⟩)
  | .other kind payload _ _, item => item = .ok (.unknown kind.toNat (2 + payload.length))

def isNmiSource : Structure → Bool
  | .nmiSource _ _ => true
  | _ => false

end Structure

theorem field_append_left {xs ys : List Byte} {offset n : ℕ} (h : offset + n ≤ xs.length) :
    field (xs ++ ys) offset n = field xs offset n := by
  unfold field
  rw [List.drop_append_of_le_length (by omega), List.take_append_of_le_length (by simp; omega)]

theorem field_append_right {xs ys : List Byte} {offset n : ℕ} (h : xs.length ≤ offset) :
    field (xs ++ ys) offset n = field ys (offset - xs.length) n := by
  unfold field
  rw [List.drop_append, List.drop_eq_nil_of_le h, List.nil_append]

theorem field_leBytes {n v : ℕ} (h : v < 256 ^ n) : field (leBytes n v) 0 n = v := by
  unfold field
  rw [List.drop_zero, List.take_of_length_le (le_of_eq (leBytes_length n v)), leValue_leBytes h]

namespace Structure

@[simp] theorem le_length {w : ℕ} (v : BitVec w) : (le v).length = w / 8 := leBytes_length _ _

theorem field_le {n w : ℕ} (hw : w = 8 * n) (v : BitVec w) : field (le v) 0 n = v.toNat := by
  subst hw
  unfold le
  rw [Nat.mul_div_cancel_left n (by decide)]
  apply field_leBytes
  have hlt := v.isLt
  rwa [pow_mul] at hlt

/-- The decoder on an entry with its length byte. -/
theorem decodeEntry_parts (kind : Byte) (body : List Byte) (h : 2 + body.length < 256) :
    decodeEntry ([kind, BitVec.ofNat 8 (2 + body.length)] ++ body) =
      match bodyOf kind.toNat with
      | some (size, decode) =>
        if body.length < size then .error .malformedAcpiTable else .ok (decode (body.take size))
      | none => .ok (.unknown kind.toNat (2 + body.length)) := by
  have hkind : field ([kind, BitVec.ofNat 8 (2 + body.length)] ++ body) 0 1 = kind.toNat := by
    simp [field, leValue]
  have hlength : field ([kind, BitVec.ofNat 8 (2 + body.length)] ++ body) 1 1
      = 2 + body.length := by
    simp [field, leValue, Nat.mod_eq_of_lt h]
  unfold decodeEntry ENTRY_HEADER_SIZE
  rw [hkind, hlength]
  cases bodyOf kind.toNat with
  | none => rfl
  | some found =>
    obtain ⟨size, decode⟩ := found
    dsimp only
    simp only [Nat.add_lt_add_iff_left]
    rfl

/-- An entry whose body has just the size of its kind. -/
theorem decodeEntry_of_size {kind : Byte} {body : List Byte} {size : ℕ}
    {decode : List Byte → MadtEntry} (hbody : bodyOf kind.toNat = some (size, decode))
    (hsize : body.length = size) (hlt : size < 254) :
    decodeEntry ([kind, BitVec.ofNat 8 (2 + body.length)] ++ body) = .ok (decode body) := by
  rw [decodeEntry_parts _ _ (by omega), hbody]
  dsimp only
  rw [if_neg (by omega), List.take_of_length_le (by omega)]

theorem decodes_encode (s : Structure) (h : s.isNmiSource = false) :
    s.Decodes (decodeEntry s.encode) := by
  unfold encode
  cases s with
  | localApic processorId id flags =>
    refine (decodeEntry_of_size rfl (by simp [parts]) (by decide)).trans ?_
    simp [parts, field_append_left, field_append_right, field_le]
  | ioApic id reserved apicAddress gsiBase =>
    refine (decodeEntry_of_size rfl (by simp [parts]) (by decide)).trans ?_
    simp [parts, field_append_left, field_append_right, field_le]
  | interruptSourceOverride bus source gsi flags =>
    refine (decodeEntry_of_size rfl (by simp [parts]) (by decide)).trans ?_
    simp [parts, field_append_left, field_append_right, field_le]
  | nmiSource flags gsi => cases h
  | localApicNmi processorId flags lintNum =>
    refine (decodeEntry_of_size rfl (by simp [parts]) (by decide)).trans ?_
    simp [parts, field_append_left, field_append_right, field_le]
  | localApicAddressOverride reserved address =>
    refine (decodeEntry_of_size rfl (by simp [parts]) (by decide)).trans ?_
    simp [parts, field_append_left, field_append_right, field_le]
  | localX2Apic reserved id flags uid =>
    refine (decodeEntry_of_size rfl (by simp [parts]) (by decide)).trans ?_
    simp [parts, field_append_left, field_append_right, field_le]
  | other kind payload hkind hlength =>
    refine (decodeEntry_parts _ _ (by simp only [parts]; omega)).trans ?_
    simp only [parts, hkind]

/-- The body that the kernel expects of an NMI source is two bytes longer than the
structure. -/
theorem nmiSource_refused (flags : BitVec 16) (gsi : BitVec 32) :
    decodeEntry (nmiSource flags gsi).encode = .error .malformedAcpiTable := by
  unfold encode
  refine (decodeEntry_parts _ _ (by simp [parts])).trans ?_
  simp [parts, bodyOf]

theorem parts_length (s : Structure) : s.parts.2.length ≤ 253 := by
  cases s with
  | other kind payload hkind hlength => exact hlength
  | _ => simp [parts]

theorem encode_length (s : Structure) : s.encode.length = 2 + s.parts.2.length := by
  simp only [encode, List.length_append, List.length_cons, List.length_nil]

theorem encode_field (s : Structure) : field s.encode 1 1 = s.encode.length := by
  have hlt : 2 + s.parts.2.length < 256 := by
    have := s.parts_length
    omega
  rw [encode_length]
  simp [encode, field, leValue, Nat.mod_eq_of_lt hlt]

end Structure

/-- The bytes from the iterator's position to its end are the structures. -/
structure MadtEntries.Lists (entries : MadtEntries) (structures : List Structure) : Prop where
  le : entries.current ≤ entries.stop
  bytes : entries.memory.bytes entries.current (entries.stop - entries.current) =
    structures.flatMap Structure.encode
  mapped : entries.stop + entries.memory.directMap.offset < USIZE_END

namespace MadtEntries.Lists

variable {entries : MadtEntries}

theorem head {s : Structure} {structures : List Structure} (h : entries.Lists (s :: structures)) :
    entries.current + s.encode.length ≤ entries.stop
      ∧ entries.memory.bytes entries.current s.encode.length = s.encode
      ∧ (entries.moved (entries.current + s.encode.length)).Lists structures := by
  have hbytes := h.bytes
  rw [List.flatMap_cons] at hbytes
  have hlength := congrArg List.length hbytes
  rw [Memory.bytes_length, List.length_append] at hlength
  have hle := h.le
  have hfit : entries.current + s.encode.length ≤ entries.stop := by omega
  have hsplit : entries.stop - entries.current
      = s.encode.length + (entries.stop - (entries.current + s.encode.length)) := by omega
  rw [hsplit, Memory.bytes_add] at hbytes
  obtain ⟨hfirst, hrest⟩ := List.append_inj hbytes (Memory.bytes_length _ _ _)
  exact ⟨hfit, hfirst, hfit, hrest, h.mapped⟩

/-- A step at a structure. -/
theorem next_eq {s : Structure} {structures : List Structure}
    (h : entries.Lists (s :: structures)) (log : List Access) :
    ∃ accesses,
      (∃ entry, decodeEntry s.encode = .ok entry ∧ next (entries, log) = (some (.ok entry),
        (entries.moved (entries.current + s.encode.length), log ++ accesses)))
      ∨ (∃ error, decodeEntry s.encode = .error error
        ∧ next (entries, log) = (some (.error error), (entries.ended, log ++ accesses))) := by
  obtain ⟨hfit, hbytes, -⟩ := h.head
  have hmapped := h.mapped
  have hlength : field (entries.memory.bytes entries.current s.encode.length) 1 1
      = s.encode.length := by rw [hbytes, s.encode_field]
  have hmin : ENTRY_HEADER_SIZE ≤ s.encode.length := by
    rw [s.encode_length]
    exact Nat.le_add_right _ _
  obtain ⟨accesses, -, hcases⟩ := next_chunk hlength hmin hfit (by omega) log
  rw [hbytes] at hcases
  refine ⟨accesses, hcases.imp_right ?_⟩
  intro ⟨error, hdecode, hnext⟩
  exact ⟨error, hdecode.resolve_right (by omega), hnext⟩

/-- Without an NMI source, every structure is decoded. -/
theorem yields {structures : List Structure} (h : entries.Lists structures)
    (hnmi : ∀ s ∈ structures, s.isNmiSource = false) (log : List Access) :
    ∃ items final, Yields next (entries, log) items final
      ∧ List.Forall₂ Structure.Decodes structures items := by
  induction structures generalizing entries log with
  | nil =>
    have hlength := congrArg List.length h.bytes
    rw [Memory.bytes_length] at hlength
    have hend : entries.current = entries.stop := le_antisymm h.le (Nat.sub_eq_zero_iff_le.mp hlength)
    refine ⟨[], (entries, log), Yields.done ?_, List.Forall₂.nil⟩
    unfold next
    exact if_pos hend
  | cons s structures ih =>
    have hdecodes := s.decodes_encode (hnmi s List.mem_cons_self)
    obtain ⟨-, -, hrest⟩ := h.head
    obtain ⟨accesses, ⟨entry, hdecode, hnext⟩ | ⟨error, hdecode, hnext⟩⟩ := h.next_eq log
    · obtain ⟨items, final, hyields, hall⟩ := ih hrest
        (fun other hother => hnmi other (List.mem_cons_of_mem _ hother)) (log ++ accesses)
      rw [hdecode] at hdecodes
      exact ⟨.ok entry :: items, final, Yields.item hnext hyields, List.Forall₂.cons hdecodes hall⟩
    · rw [hdecode] at hdecodes
      cases s <;> simp [Structure.Decodes] at hdecodes

/-- If all structures are decoded, none of them is an NMI source. -/
theorem no_nmi {structures : List Structure} (h : entries.Lists structures) {log : List Access}
    {items : List (Except AcpiError MadtEntry)} {final : MadtEntries × List Access}
    (hyields : Yields next (entries, log) items final)
    (hall : List.Forall₂ Structure.Decodes structures items) :
    ∀ s ∈ structures, s.isNmiSource = false := by
  induction structures generalizing entries log items with
  | nil => exact fun _ h => by simp at h
  | cons s structures ih =>
    obtain ⟨-, -, hrest⟩ := h.head
    cases hall with
    | cons hdecodes hall =>
      cases hyields with
      | item hitem hyields =>
        obtain ⟨accesses, ⟨entry, hdecode, hnext⟩ | ⟨error, hdecode, hnext⟩⟩ := h.next_eq log
        · rw [hnext] at hitem
          cases hitem
          intro other hother
          rw [List.mem_cons] at hother
          obtain rfl | hother := hother
          · cases other with
            | nmiSource flags gsi =>
              rw [Structure.nmiSource_refused] at hdecode
              cases hdecode
            | _ => rfl
          · exact ih hrest hyields hall other hother
        · rw [hnext] at hitem
          cases hitem
          cases s <;> simp [Structure.Decodes] at hdecodes

end MadtEntries.Lists

/-- `entries` yields exactly the structures, in order and without an error. -/
def Madt.Yields (madt : Madt) (structures : List Structure) : Prop :=
  ∀ log, ∃ entries log₁ items final, madt.entries log = .ok entries log₁
    ∧ Lib.Yields MadtEntries.next (entries, log₁) items final
    ∧ List.Forall₂ Structure.Decodes structures items

/-- For every list of structures laid out as the specification says, in a table inside
the direct map: the iterator yields them all if and only if none is an NMI source. -/
theorem madt_decodes_iff (madt : Madt) (structures : List Structure)
    (hlength : madt.table.length
      = MADT_ENTRIES_OFFSET + (structures.flatMap Structure.encode).length)
    (hbytes : madt.acpi.memory.bytes (madt.table.physicalAddr + MADT_ENTRIES_OFFSET)
      (structures.flatMap Structure.encode).length = structures.flatMap Structure.encode)
    (hmapped : madt.table.physicalAddr + madt.table.length
      + madt.acpi.memory.directMap.offset < USIZE_END) :
    madt.Yields structures ↔ ∀ s ∈ structures, s.isNmiSource = false := by
  have hentries (log : List Access) : madt.entries log = .ok ⟨madt.acpi.memory,
      madt.table.physicalAddr + MADT_ENTRIES_OFFSET,
      madt.table.physicalAddr + madt.table.length⟩ log := by
    have hfirst : checkedAdd madt.table.physicalAddr MADT_ENTRIES_OFFSET
        = some (madt.table.physicalAddr + MADT_ENTRIES_OFFSET) := if_pos (by omega)
    have hsecond : checkedAdd madt.table.physicalAddr madt.table.length
        = some (madt.table.physicalAddr + madt.table.length) := if_pos (by omega)
    unfold Madt.entries addAddress
    rw [hfirst, hsecond]
    rfl
  generalize hit : (⟨madt.acpi.memory, madt.table.physicalAddr + MADT_ENTRIES_OFFSET,
    madt.table.physicalAddr + madt.table.length⟩ : MadtEntries) = entries at hentries
  have hlists : entries.Lists structures := by
    rw [← hit]
    refine ⟨by dsimp only; omega, ?_, hmapped⟩
    dsimp only
    rw [hlength, Nat.add_sub_add_left, Nat.add_sub_cancel_left, hbytes]
  constructor
  · intro h
    obtain ⟨entries', log₁, items, final, heq, hyields, hall⟩ := h []
    rw [hentries] at heq
    cases heq
    exact hlists.no_nmi hyields hall
  · intro hnmi log
    obtain ⟨items, final, hyields, hall⟩ := hlists.yields hnmi log
    exact ⟨entries, log, items, final, hentries log, hyields, hall⟩

/-- A MADT at `0x1000` with the structures. -/
def madtOf (structures : List Structure) : Madt :=
  ⟨tablesAt (structures.flatMap Structure.encode),
    ⟨0x1000, MADT_ENTRIES_OFFSET + (structures.flatMap Structure.encode).length,
      Cpio.strBytes "APIC"⟩, 0xFEE0_0000, 1⟩

theorem madt_decodes_iff_small :
    (madtOf [.ioApic 1 0 0xFEC0_0000 0, .interruptSourceOverride 0 0 2 0]).Yields
      [.ioApic 1 0 0xFEC0_0000 0, .interruptSourceOverride 0 0 2 0] :=
  (madt_decodes_iff _ _ rfl (by decide +kernel) (by decide +kernel)).mpr
    (by simp [Structure.isNmiSource])

/-- A table of one NMI source: the only item is an error. -/
theorem nmi_source_not_decoded :
    ¬ ∀ (madt : Madt) (structures : List Structure),
      madt.table.length = MADT_ENTRIES_OFFSET + (structures.flatMap Structure.encode).length →
      madt.acpi.memory.bytes (madt.table.physicalAddr + MADT_ENTRIES_OFFSET)
        (structures.flatMap Structure.encode).length = structures.flatMap Structure.encode →
      madt.table.physicalAddr + madt.table.length
        + madt.acpi.memory.directMap.offset < USIZE_END →
      madt.Yields structures := by
  intro h
  obtain ⟨entries, log₁, items, final, hentries, hyields, hall⟩ :=
    h (madtOf [.nmiSource 0 2]) [.nmiSource 0 2] rfl (by decide +kernel) (by decide +kernel) []
  cases hentries
  cases hall with
  | cons hdecodes _ =>
    cases hyields with
    | item hnext _ =>
      obtain ⟨nmiSource, reserved, rfl⟩ := hdecodes
      have hrefused : (MadtEntries.next (⟨(madtOf [.nmiSource 0 2]).acpi.memory, 0x102C, 0x1034⟩,
          [])).1 = some (.error .malformedAcpiTable) := by decide +kernel
      cases hrefused.symm.trans (congrArg Prod.fst hnext)

end Acpi

end Dusk
