import Dusk.Model.IoApic

/-! The redirection table as a table of entries: every sequence of operations of the driver
does to it what the operations mean, and no entry is ever seen half-written. -/

namespace Dusk

open Lib

namespace IoApic

/-- A redirection entry, without the bits that are the device's. -/
structure Entry where
  vector : BitVec 8
  /-- The delivery mode and the destination mode. -/
  mode : BitVec 4
  activeLow : Bool
  level : Bool
  masked : Bool
  destination : BitVec 8
  deriving DecidableEq

def entryAt (low high : BitVec 32) : Entry :=
  ⟨low.setWidth 8, (low >>> 8).setWidth 4, low.getLsbD 13, low.getLsbD 15, low.getLsbD 16,
    (high >>> 24).setWidth 8⟩

/-- The redirection table in the registers of a device. -/
def table (regs : ℕ → BitVec 32) (index : ℕ) : Entry :=
  entryAt (regs (IOAPIC_REDIRECTION_BASE + index * 2))
    (regs (IOAPIC_REDIRECTION_BASE + index * 2 + 1))

/-- The entry of an interrupt: it has to be one of the device's, and to have a number. -/
def Driver.slot (a : Driver) (gsi : ℕ) : Except IoApicError ℕ :=
  if gsi < a.globalInterruptBase ∨ a.globalInterruptBase + a.redirectionEntryCount ≤ gsi then
    .error .gsiOutsideRange
  else if 120 ≤ gsi - a.globalInterruptBase then .error .invalidRedirectionIndex
  else .ok (gsi - a.globalInterruptBase)

def Op.gsi : Op → ℕ
  | .configureMasked gsi _ | .unmask gsi | .mask gsi => gsi

/-- `handles_gsi` says whether the interrupt is one of the device's. -/
theorem Driver.handlesGsi_iff (a : Driver) (gsi : ℕ) :
    a.handlesGsi gsi = true ↔ a.slot gsi ≠ .error .gsiOutsideRange := by
  unfold Driver.handlesGsi Driver.slot checkedSub
  by_cases hbase : a.globalInterruptBase ≤ gsi
  · by_cases hcount : gsi - a.globalInterruptBase < a.redirectionEntryCount
    · have hinside : ¬ (gsi < a.globalInterruptBase ∨
          a.globalInterruptBase + a.redirectionEntryCount ≤ gsi) := by omega
      rw [if_pos hbase, if_neg hinside]
      by_cases hwide : 120 ≤ gsi - a.globalInterruptBase <;> simp [hcount, hwide]
    · rw [if_pos hbase, if_pos (by omega)]
      simp [hcount]
  · rw [if_neg hbase, if_pos (by omega)]
    simp

/-- What an operation means for its entry. -/
def Op.effect : Op → Entry → Entry
  | .configureMasked _ config, _ =>
    ⟨config.vector, 0, config.polarity = .activeLow, config.trigger = .level, true,
      config.destination⟩
  | .unmask _, e => { e with masked := false }
  | .mask _, e => { e with masked := true }

/-- What an operation means for the table. -/
def Op.means (a : Driver) (op : Op) (t : ℕ → Entry) : Except IoApicError Unit × (ℕ → Entry) :=
  match a.slot op.gsi with
  | .error e => (.error e, t)
  | .ok index => (.ok (), Function.update t index (op.effect (t index)))

/-- What a sequence of operations means for the table. -/
def meaning (a : Driver) : List Op → (ℕ → Entry) → List (Except IoApicError Unit) × (ℕ → Entry)
  | [], t => ([], t)
  | op :: ops, t => ((op.means a t).1 :: (meaning a ops (op.means a t).2).1,
      (meaning a ops (op.means a t).2).2)

/-- The table after the first `n` operations. -/
def after (a : Driver) (ops : List Op) (t : ℕ → Entry) (n : ℕ) : ℕ → Entry :=
  (meaning a (ops.take n) t).2

/-- A table as it may be seen while the operations go on: every entry is as some number of
them leaves it, or as the next one does, or it is the entry of that one, and masked. -/
def Between (a : Driver) (ops : List Op) (t t' : ℕ → Entry) : Prop :=
  ∃ n, ∀ i, t' i = after a ops t n i ∨ t' i = after a ops t (n + 1) i ∨
    ∃ op, ops[n]? = some op ∧ a.slot op.gsi = .ok i ∧ (t' i).masked = true

/-- The operations have done to a device what they mean. -/
structure Refines (a : Driver) (ops : List Op) (d : Device)
    (r : List (Except IoApicError Unit) × Bus ℕ 32) : Prop where
  results : r.1 = (meaning a ops (table d.register)).1
  table : table r.2.device.register = (meaning a ops (table d.register)).2
  others : ∀ n < IOAPIC_REDIRECTION_BASE, r.2.device.register n = d.register n
  seen : ∀ d' ∈ r.2.seen, Between a ops (IoApic.table d.register) (IoApic.table d'.register)

theorem flag_getLsbD (c : Bool) {k : ℕ} (hk : k < 64) (i : ℕ) :
    ((if c then 1 else 0 : Word) <<< k).getLsbD i = (decide (i = k) && c) := by
  cases c with
  | false => simp
  | true =>
    have h : (if true = true then 1 else 0 : Word) <<< k = BitVec.twoPow 64 k := by
      rw [if_pos rfl]
      rfl
    rw [h, BitVec.getLsbD_twoPow]
    simp [hk, eq_comm]

theorem entryOf_eq (config : RedirectionConfig) : Driver.entryOf config =
    config.vector.setWidth 64 |||
      ((if decide (config.polarity = .activeLow) = true then 1 else 0 : Word) <<< 13) |||
      ((if decide (config.trigger = .level) = true then 1 else 0 : Word) <<< 15) |||
      ((if true = true then 1 else 0 : Word) <<< 16) |||
      (config.destination.setWidth 64 <<< 56) := by
  obtain ⟨vector, destination, polarity, trigger⟩ := config
  cases polarity <;> cases trigger <;> rfl

theorem entryOf_getLsbD (config : RedirectionConfig) (i : ℕ) :
    (Driver.entryOf config).getLsbD i = (config.vector.getLsbD i ||
      decide (i = 13) && decide (config.polarity = .activeLow) ||
      decide (i = 15) && decide (config.trigger = .level) || decide (i = 16) ||
      decide (i < 64) && !decide (i < 56) && config.destination.getLsbD (i - 56)) := by
  rw [entryOf_eq, BitVec.getLsbD_or, BitVec.getLsbD_or, BitVec.getLsbD_or, BitVec.getLsbD_or,
    flag_getLsbD _ (by decide), flag_getLsbD _ (by decide), flag_getLsbD _ (by decide),
    BitVec.getLsbD_shiftLeft, BitVec.getLsbD_setWidth, BitVec.getLsbD_setWidth, Bool.and_true]
  have hv : (decide (i < 64) && config.vector.getLsbD i) = config.vector.getLsbD i := by
    by_cases hi : i < 64
    · simp [hi]
    · simp [BitVec.getLsbD_of_ge config.vector i (by omega)]
  have hd : (decide (i - 56 < 64) && config.destination.getLsbD (i - 56)) =
      config.destination.getLsbD (i - 56) := by
    by_cases hi : i - 56 < 64
    · simp [hi]
    · simp [BitVec.getLsbD_of_ge config.destination (i - 56) (by omega)]
  rw [hv, hd]

theorem own_low (index : ℕ) : own (IOAPIC_REDIRECTION_BASE + index * 2) = 0x5000 := by
  unfold own IOAPIC_REDIRECTION_BASE IOAPIC_VERSION
  rw [if_neg (by omega), if_pos ⟨by omega, by omega⟩]

theorem own_high (index : ℕ) : own (IOAPIC_REDIRECTION_BASE + index * 2 + 1) = 0 := by
  unfold own IOAPIC_REDIRECTION_BASE IOAPIC_VERSION
  rw [if_neg (by omega), if_neg (by omega)]

theorem ownBits_getLsbD : ∀ i < 32, (0x5000 : BitVec 32).getLsbD i = decide (i = 12 ∨ i = 14) := by
  decide

/-- The low half of an entry after a write. -/
theorem merge_low_getLsbD (index : ℕ) (old v : BitVec 32) {i : ℕ} (hi : i < 32) (h12 : i ≠ 12)
    (h14 : i ≠ 14) :
    (Window.merge own (IOAPIC_REDIRECTION_BASE + index * 2) old v).getLsbD i = v.getLsbD i := by
  refine Window.merge_free hi ?_
  rw [own_low, ownBits_getLsbD i hi]
  simp [h12, h14]

theorem merge_high (index : ℕ) (old v : BitVec 32) :
    Window.merge own (IOAPIC_REDIRECTION_BASE + index * 2 + 1) old v = v := by
  refine BitVec.eq_of_getLsbD_eq fun i hi => Window.merge_free hi ?_
  rw [own_high]
  exact BitVec.getLsbD_zero

theorem masked_getLsbD : ∀ i < 32, MASKED.getLsbD i = decide (i = 16) := by decide

/-- An entry is made of the bits of its halves. -/
theorem entryAt_eq {low high : BitVec 32} {e : Entry} (hvector : ∀ i < 8, low.getLsbD i = e.vector.getLsbD i)
    (hmode : ∀ i < 4, low.getLsbD (8 + i) = e.mode.getLsbD i) (hpolarity : low.getLsbD 13 = e.activeLow)
    (htrigger : low.getLsbD 15 = e.level) (hmasked : low.getLsbD 16 = e.masked)
    (hdestination : ∀ i < 8, high.getLsbD (24 + i) = e.destination.getLsbD i) :
    entryAt low high = e := by
  have hv : low.setWidth 8 = e.vector := by
    refine BitVec.eq_of_getLsbD_eq fun i hi => ?_
    rw [BitVec.getLsbD_setWidth, hvector i hi, decide_eq_true hi, Bool.true_and]
  have hm : (low >>> 8).setWidth 4 = e.mode := by
    refine BitVec.eq_of_getLsbD_eq fun i hi => ?_
    rw [BitVec.getLsbD_setWidth, BitVec.getLsbD_ushiftRight, hmode i hi, decide_eq_true hi,
      Bool.true_and]
  have hd : (high >>> 24).setWidth 8 = e.destination := by
    refine BitVec.eq_of_getLsbD_eq fun i hi => ?_
    rw [BitVec.getLsbD_setWidth, BitVec.getLsbD_ushiftRight, hdestination i hi, decide_eq_true hi,
      Bool.true_and]
  rw [entryAt, hv, hm, hpolarity, htrigger, hmasked, hd]

theorem entryAt_bits (low high : BitVec 32) :
    (∀ i < 8, (entryAt low high).vector.getLsbD i = low.getLsbD i) ∧
    (∀ i < 4, (entryAt low high).mode.getLsbD i = low.getLsbD (8 + i)) ∧
    ∀ i < 8, (entryAt low high).destination.getLsbD i = high.getLsbD (24 + i) := by
  refine ⟨fun i hi => ?_, fun i hi => ?_, fun i hi => ?_⟩
  · simp [entryAt, hi]
  · simp [entryAt, hi]
  · simp [entryAt, hi]

/-- A write that changes the mask and nothing else. -/
theorem entryAt_masked (index : ℕ) (low high v : BitVec 32)
    (hv : ∀ i < 32, i ≠ 16 → v.getLsbD i = low.getLsbD i) :
    entryAt (Window.merge own (IOAPIC_REDIRECTION_BASE + index * 2) low v) high =
      { entryAt low high with masked := v.getLsbD 16 } := by
  have hbit : ∀ i < 32, i ≠ 12 → i ≠ 14 → i ≠ 16 →
      (Window.merge own (IOAPIC_REDIRECTION_BASE + index * 2) low v).getLsbD i =
        low.getLsbD i := by
    intro i hi h12 h14 h16
    rw [merge_low_getLsbD index low v hi h12 h14, hv i hi h16]
  obtain ⟨hvector, hmode, hdestination⟩ := entryAt_bits low high
  refine entryAt_eq (fun i hi => ?_) (fun i hi => ?_) ?_ ?_ ?_ fun i hi => ?_
  · rw [hbit i (by omega) (by omega) (by omega) (by omega), hvector i hi]
  · rw [hbit _ (by omega) (by omega) (by omega) (by omega), hmode i hi]
  · exact hbit 13 (by decide) (by decide) (by decide) (by decide)
  · exact hbit 15 (by decide) (by decide) (by decide) (by decide)
  · exact merge_low_getLsbD index low v (by decide) (by decide) (by decide)
  · exact (hdestination i hi).symm

/-- The entry that `configure_masked` leaves. -/
theorem entryAt_configured (index : ℕ) (old : BitVec 32) (gsi : ℕ) (config : RedirectionConfig)
    (e : Entry) :
    entryAt (Window.merge own (IOAPIC_REDIRECTION_BASE + index * 2) old
      ((Driver.entryOf config).setWidth 32 ||| MASKED))
      ((Driver.entryOf config >>> 32).setWidth 32) = (Op.configureMasked gsi config).effect e := by
  have hlow : ∀ i < 32, i ≠ 12 → i ≠ 14 → i ≠ 16 →
      (Window.merge own (IOAPIC_REDIRECTION_BASE + index * 2) old
        ((Driver.entryOf config).setWidth 32 ||| MASKED)).getLsbD i =
        (Driver.entryOf config).getLsbD i := by
    intro i hi h12 h14 h16
    rw [merge_low_getLsbD index _ _ hi h12 h14, BitVec.getLsbD_or, BitVec.getLsbD_setWidth,
      masked_getLsbD i hi]
    simp [hi, h16]
  have hout : ∀ i, 8 ≤ i → config.vector.getLsbD i = false :=
    fun i hi => BitVec.getLsbD_of_ge _ _ hi
  refine entryAt_eq (fun i hi => ?_) (fun i hi => ?_) ?_ ?_ ?_ fun i hi => ?_
  · rw [hlow i (by omega) (by omega) (by omega) (by omega), entryOf_getLsbD]
    simp [Op.effect, show i ≠ 13 by omega, show i ≠ 15 by omega, show i ≠ 16 by omega,
      show i < 56 by omega]
  · rw [hlow _ (by omega) (by omega) (by omega) (by omega), entryOf_getLsbD, hout _ (by omega)]
    simp [Op.effect, show 8 + i ≠ 13 by omega, show 8 + i ≠ 15 by omega,
      show 8 + i ≠ 16 by omega, show 8 + i < 56 by omega]
  · rw [hlow 13 (by decide) (by decide) (by decide) (by decide), entryOf_getLsbD,
      hout 13 (by decide)]
    simp [Op.effect]
  · rw [hlow 15 (by decide) (by decide) (by decide) (by decide), entryOf_getLsbD,
      hout 15 (by decide)]
    simp [Op.effect]
  · rw [merge_low_getLsbD index _ _ (by decide) (by decide) (by decide), BitVec.getLsbD_or,
      masked_getLsbD 16 (by decide)]
    simp [Op.effect]
  · rw [BitVec.getLsbD_setWidth, BitVec.getLsbD_ushiftRight, entryOf_getLsbD,
      hout _ (by omega)]
    have hsub : 32 + (24 + i) - 56 = i := by omega
    simp [Op.effect, hsub, show 24 + i < 32 by omega, show 32 + (24 + i) ≠ 13 by omega,
      show 32 + (24 + i) ≠ 15 by omega, show 32 + (24 + i) ≠ 16 by omega,
      show 32 + (24 + i) < 64 by omega, show ¬ 32 + (24 + i) < 56 by omega]

section Operations

variable {a : Driver} {b : Bus ℕ 32} {gsi index : ℕ}

theorem redirectionRegisters_sat {Q : ℕ × ℕ → Bus ℕ 32 → Prop} {E : IoApicError → Bus ℕ 32 → Prop}
    (hok : ∀ index, a.slot gsi = .ok index → Q (IOAPIC_REDIRECTION_BASE + index * 2,
      IOAPIC_REDIRECTION_BASE + index * 2 + 1) b)
    (herror : ∀ e, a.slot gsi = .error e → E e b) : (a.redirectionRegisters gsi).Sat b Q E := by
  simp only [Driver.redirectionRegisters, Driver.redirectionIndex, Driver.toRegister,
    Prog.sat_bind, checkedSub]
  unfold Driver.slot at hok herror
  by_cases hbase : a.globalInterruptBase ≤ gsi
  · rw [if_pos hbase, Prog.sat_expect_some]
    by_cases hcount : gsi - a.globalInterruptBase ≥ a.redirectionEntryCount
    · rw [if_pos hcount, Prog.sat_stop]
      exact herror _ (if_pos (by omega))
    · rw [if_neg hcount, Prog.sat_pure]
      have hinside : ¬ (gsi < a.globalInterruptBase ∨
          a.globalInterruptBase + a.redirectionEntryCount ≤ gsi) := by omega
      simp only [if_neg hinside] at hok herror
      by_cases hwide : 120 ≤ gsi - a.globalInterruptBase
      · have hhigh : ¬ IOAPIC_REDIRECTION_BASE + (gsi - a.globalInterruptBase) * 2 < 256 := by
          unfold IOAPIC_REDIRECTION_BASE
          omega
        rw [if_neg hhigh, Prog.sat_expect_none]
        exact herror _ (if_pos hwide)
      · have hhigh : IOAPIC_REDIRECTION_BASE + (gsi - a.globalInterruptBase) * 2 + 1 < 256 := by
          unfold IOAPIC_REDIRECTION_BASE
          omega
        rw [if_pos (by omega), Prog.sat_expect_some, if_pos hhigh, Prog.sat_expect_some,
          Prog.sat_pure]
        exact hok _ (if_neg hwide)
  · rw [if_neg hbase, Prog.sat_expect_none]
    exact herror _ (if_pos (by omega))

/-- Only this entry of the table may be affected. -/
theorem table_update {regs : ℕ → BitVec 32} {v : BitVec 32} {r : ℕ}
    (hr : r = IOAPIC_REDIRECTION_BASE + index * 2 ∨ r = IOAPIC_REDIRECTION_BASE + index * 2 + 1)
    {i : ℕ} (hi : i ≠ index) : table (Function.update regs r v) i = table regs i := by
  unfold table
  rw [Function.update_of_ne (by omega), Function.update_of_ne (by omega)]

/-- The low half of an entry has been written. -/
theorem table_low (regs : ℕ → BitVec 32) (v : BitVec 32) :
    table (Function.update regs (IOAPIC_REDIRECTION_BASE + index * 2) v) =
      Function.update (table regs) index
        (entryAt v (regs (IOAPIC_REDIRECTION_BASE + index * 2 + 1))) := by
  funext i
  by_cases hi : i = index
  · subst hi
    unfold table
    rw [Function.update_self, Function.update_self, Function.update_of_ne (by omega)]
  · rw [Function.update_of_ne hi, table_update (.inl rfl) hi]

/-- The high half of an entry has been written. -/
theorem table_high (regs : ℕ → BitVec 32) (v : BitVec 32) :
    table (Function.update regs (IOAPIC_REDIRECTION_BASE + index * 2 + 1) v) =
      Function.update (table regs) index
        (entryAt (regs (IOAPIC_REDIRECTION_BASE + index * 2)) v) := by
  funext i
  by_cases hi : i = index
  · subst hi
    unfold table
    rw [Function.update_self, Function.update_self, Function.update_of_ne (by omega)]
  · rw [Function.update_of_ne hi, table_update (.inr rfl) hi]

/-- The entry as it may be seen while an operation is under way. -/
def Passing (op : Op) (index : ℕ) (t t' : ℕ → Entry) : Prop :=
  (∀ i, i ≠ index → t' i = t i) ∧
    (t' index = t index ∨ t' index = op.effect (t index) ∨ (t' index).masked = true)

/-- What is seen of the device while an operation is under way. -/
def PassingFrom (op : Op) (index : ℕ) (b : Bus ℕ 32) (d : Device) : Prop :=
  Passing op index (table b.device.register) (table d.register)

/-- An operation has done to its entry what it means, and the entry was never seen as
anything but what it was, what it is now, or masked. -/
structure Applied (op : Op) (index : ℕ) (b b' : Bus ℕ 32) : Prop where
  table : table b'.device.register = Function.update (table b.device.register) index
    (op.effect (table b.device.register index))
  others : ∀ r < IOAPIC_REDIRECTION_BASE, b'.device.register r = b.device.register r
  seen : b.Shown (PassingFrom op index b) b'

theorem passing_same (op : Op) (t : ℕ → Entry) : Passing op index t t :=
  ⟨fun _ _ => rfl, .inl rfl⟩

theorem passing_done (op : Op) (t : ℕ → Entry) :
    Passing op index t (Function.update t index (op.effect (t index))) :=
  ⟨fun _ hi => Function.update_of_ne hi _ _, .inr (.inl (Function.update_self _ _ _))⟩

theorem passing_masked (op : Op) (t : ℕ → Entry) {e : Entry} (he : e.masked = true) :
    Passing op index t (Function.update t index e) := by
  refine ⟨fun _ hi => Function.update_of_ne hi _ _, .inr (.inr ?_)⟩
  rw [Function.update_self]
  exact he

/-- A write of the low half that changes the mask and nothing else. -/
theorem table_remask {regs : ℕ → BitVec 32} {v : BitVec 32}
    (hv : ∀ i < 32, i ≠ 16 →
      v.getLsbD i = (regs (IOAPIC_REDIRECTION_BASE + index * 2)).getLsbD i) :
    table (Window.store own regs (IOAPIC_REDIRECTION_BASE + index * 2) v) =
      Function.update (table regs) index { table regs index with masked := v.getLsbD 16 } := by
  rw [Window.store, table_low, entryAt_masked index _ _ v hv]
  rfl

theorem store_others {regs : ℕ → BitVec 32} {r q : ℕ} (v : BitVec 32) (h : q ≠ r) :
    Window.store own regs r v q = regs q := Function.update_of_ne h _ _

/-- The mask of the entry is read and written back. -/
theorem remask_sat (op : Op) (f : BitVec 32 → BitVec 32)
    (hf : ∀ low, ∀ i < 32, i ≠ 16 → (f low).getLsbD i = low.getLsbD i)
    (heffect : ∀ e low, op.effect e = { e with masked := (f low).getLsbD 16 })
    {Q : Unit → Bus ℕ 32 → Prop} {E : IoApicError → Bus ℕ 32 → Prop}
    (hQ : ∀ b', Applied op index b b' → Q () b') :
    (read (IOAPIC_REDIRECTION_BASE + index * 2)).Sat b (fun low b' =>
      (write (IOAPIC_REDIRECTION_BASE + index * 2) (f low)).Sat b' Q E) E := by
  have hsame : Passing op index (table b.device.register) (table b.device.register) :=
    passing_same op _
  have htable := table_remask (hf (b.device.register (IOAPIC_REDIRECTION_BASE + index * 2)))
  rw [← heffect (table b.device.register index)] at htable
  refine Window.read_sat (P := PassingFrom op index b) ⟨rfl, Bus.shown_refl⟩ hsame ?_
  intro b' hb'
  refine Window.write_sat hb' hsame ?_ ?_
  · unfold PassingFrom
    rw [htable]
    exact passing_done op _
  · intro b'' hb''
    refine hQ b'' ⟨hb''.registers ▸ htable, fun r hr => ?_, hb''.shown⟩
    rw [hb''.registers]
    exact store_others _ (by omega)

theorem or_masked_getLsbD (low : BitVec 32) {i : ℕ} (hi : i < 32) :
    (low ||| MASKED).getLsbD i = (low.getLsbD i || decide (i = 16)) := by
  rw [BitVec.getLsbD_or, masked_getLsbD i hi]

theorem and_unmasked_getLsbD (low : BitVec 32) {i : ℕ} (hi : i < 32) :
    (low &&& ~~~MASKED).getLsbD i = (low.getLsbD i && !decide (i = 16)) := by
  rw [BitVec.getLsbD_and, BitVec.getLsbD_not, masked_getLsbD i hi, decide_eq_true hi,
    Bool.true_and]

/-- The entry is masked, and then replaced. -/
theorem configure_sat (gsi : ℕ) (config : RedirectionConfig) {Q : Unit → Bus ℕ 32 → Prop}
    {E : IoApicError → Bus ℕ 32 → Prop}
    (hQ : ∀ b', Applied (.configureMasked gsi config) index b b' → Q () b') :
    (read (IOAPIC_REDIRECTION_BASE + index * 2)).Sat b (fun low b' =>
      (write (IOAPIC_REDIRECTION_BASE + index * 2) (low ||| MASKED)).Sat b' (fun _ b' =>
      (write (IOAPIC_REDIRECTION_BASE + index * 2 + 1)
        ((Driver.entryOf config >>> 32).setWidth 32)).Sat b' (fun _ b' =>
      (write (IOAPIC_REDIRECTION_BASE + index * 2)
        ((Driver.entryOf config).setWidth 32 ||| MASKED)).Sat b' Q E) E) E) E := by
  set low := b.device.register (IOAPIC_REDIRECTION_BASE + index * 2) with hlow
  have hsame : Passing (.configureMasked gsi config) index (table b.device.register)
    (table b.device.register) := passing_same _ _
  -- after the first write, the old entry is masked
  have hfirst : table (Window.store own b.device.register (IOAPIC_REDIRECTION_BASE + index * 2)
      (low ||| MASKED)) = Function.update (table b.device.register) index
        { table b.device.register index with masked := (low ||| MASKED).getLsbD 16 } := by
    refine table_remask fun i hi h16 => ?_
    rw [or_masked_getLsbD _ hi]
    simp [h16, hlow]
  have hmask : (low ||| MASKED).getLsbD 16 = true := by
    rw [or_masked_getLsbD _ (by decide)]
    simp
  -- after the second, the low half is the old one and the high half is the new one
  set regs := Window.store own b.device.register (IOAPIC_REDIRECTION_BASE + index * 2)
    (low ||| MASKED) with hregs
  have hsecond : table (Window.store own regs (IOAPIC_REDIRECTION_BASE + index * 2 + 1)
      ((Driver.entryOf config >>> 32).setWidth 32)) = Function.update (table b.device.register)
        index (entryAt (regs (IOAPIC_REDIRECTION_BASE + index * 2))
          ((Driver.entryOf config >>> 32).setWidth 32)) := by
    rw [Window.store, merge_high, table_high, hfirst, Function.update_idem]
  have hmasked : (entryAt (regs (IOAPIC_REDIRECTION_BASE + index * 2))
      ((Driver.entryOf config >>> 32).setWidth 32)).masked = true := by
    change (regs (IOAPIC_REDIRECTION_BASE + index * 2)).getLsbD 16 = true
    rw [hregs, Window.store, Function.update_self,
      merge_low_getLsbD index _ _ (by decide) (by decide) (by decide), hmask]
  set regs' := Window.store own regs (IOAPIC_REDIRECTION_BASE + index * 2 + 1)
    ((Driver.entryOf config >>> 32).setWidth 32) with hregs'
  have hhigh : regs' (IOAPIC_REDIRECTION_BASE + index * 2 + 1) =
      (Driver.entryOf config >>> 32).setWidth 32 := by
    rw [hregs', Window.store, Function.update_self, merge_high]
  have hthird : table (Window.store own regs' (IOAPIC_REDIRECTION_BASE + index * 2)
      ((Driver.entryOf config).setWidth 32 ||| MASKED)) = Function.update (table b.device.register)
        index ((Op.configureMasked gsi config).effect (table b.device.register index)) := by
    rw [Window.store, table_low, hhigh, hsecond, Function.update_idem, entryAt_configured]
  have hpassFirst : Passing (.configureMasked gsi config) index (table b.device.register)
      (table regs) := hfirst ▸ passing_masked _ _ hmask
  have hpassSecond : Passing (.configureMasked gsi config) index (table b.device.register)
      (table regs') := hsecond ▸ passing_masked _ _ hmasked
  have hpassThird : Passing (.configureMasked gsi config) index (table b.device.register)
      (table (Window.store own regs' (IOAPIC_REDIRECTION_BASE + index * 2)
        ((Driver.entryOf config).setWidth 32 ||| MASKED))) := hthird ▸ passing_done _ _
  refine Window.read_sat (P := PassingFrom (.configureMasked gsi config) index b)
    ⟨rfl, Bus.shown_refl⟩ hsame fun b₁ hb₁ => ?_
  refine Window.write_sat hb₁ hsame hpassFirst fun b₂ hb₂ => ?_
  refine Window.write_sat hb₂ hpassFirst hpassSecond fun b₃ hb₃ => ?_
  refine Window.write_sat hb₃ hpassSecond hpassThird fun b₄ hb₄ => ?_
  refine hQ b₄ ⟨hb₄.registers ▸ hthird, fun r hr => ?_, hb₄.shown⟩
  rw [hb₄.registers, store_others _ (by omega), store_others _ (by omega),
    store_others _ (by omega)]

theorem op_sat (op : Op) : (op.program a).Sat b
    (fun _ b' => ∃ index, a.slot op.gsi = .ok index ∧ Applied op index b b')
    fun e b' => a.slot op.gsi = .error e ∧ b' = b := by
  cases op with
  | mask gsi =>
    simp only [Op.program, Driver.mask, Prog.sat_bind]
    refine redirectionRegisters_sat (fun index hslot => ?_) fun e he => ⟨he, rfl⟩
    refine remask_sat (.mask gsi) (· ||| MASKED) ?_ ?_ fun b' happlied => ⟨index, hslot, happlied⟩
    · intro low i hi h16
      rw [or_masked_getLsbD _ hi]
      simp [h16]
    · intro e low
      rw [or_masked_getLsbD _ (by decide)]
      simp [Op.effect]
  | unmask gsi =>
    simp only [Op.program, Driver.unmask, Prog.sat_bind]
    refine redirectionRegisters_sat (fun index hslot => ?_) fun e he => ⟨he, rfl⟩
    refine remask_sat (.unmask gsi) (· &&& ~~~MASKED) ?_ ?_ fun b' happlied => ⟨index, hslot, happlied⟩
    · intro low i hi h16
      rw [and_unmasked_getLsbD _ hi]
      simp [h16]
    · intro e low
      rw [and_unmasked_getLsbD _ (by decide)]
      simp [Op.effect]
  | configureMasked gsi config =>
    simp only [Op.program, Driver.configureMasked, Prog.sat_bind]
    refine redirectionRegisters_sat (fun index hslot => ?_) fun e he => ⟨he, rfl⟩
    exact configure_sat gsi config fun b' happlied => ⟨index, hslot, happlied⟩

/-- A table as it may be seen while one operation is under way. -/
def UnderWay (a : Driver) (op : Op) (t t' : ℕ → Entry) : Prop :=
  ∀ i, t' i = t i ∨ t' i = (op.means a t).2 i ∨ (a.slot op.gsi = .ok i ∧ (t' i).masked = true)

theorem Passing.underWay {op : Op} {t t' : ℕ → Entry} (hslot : a.slot op.gsi = .ok index)
    (h : Passing op index t t') : UnderWay a op t t' := by
  intro i
  by_cases hi : i = index
  · subst hi
    rw [Op.means, hslot]
    dsimp only
    rw [Function.update_self]
    rcases h.2 with hsame | hdone | hmasked
    · exact .inl hsame
    · exact .inr (.inl hdone)
    · exact .inr (.inr ⟨rfl, hmasked⟩)
  · exact .inl (h.1 i hi)

theorem UnderWay.between {op : Op} {t t' : ℕ → Entry} (h : UnderWay a op t t') (ops : List Op) :
    Between a (op :: ops) t t' := by
  refine ⟨0, fun i => ?_⟩
  rcases h i with hsame | hdone | ⟨hslot, hmasked⟩
  · exact .inl hsame
  · exact .inr (.inl hdone)
  · exact .inr (.inr ⟨op, rfl, hslot, hmasked⟩)

theorem Between.cons {op : Op} {ops : List Op} {t t' : ℕ → Entry}
    (h : Between a ops (op.means a t).2 t') : Between a (op :: ops) t t' := by
  obtain ⟨n, hn⟩ := h
  exact ⟨n + 1, hn⟩

theorem Between.start {ops : List Op} {t : ℕ → Entry} : Between a ops t t := by
  refine ⟨0, fun i => .inl ?_⟩
  rw [after, List.take_zero]
  rfl

/-- One operation, and what is left of the run. -/
theorem run_cons (op : Op) (ops : List Op) : ∃ b',
    run a (op :: ops) b = ((op.means a (table b.device.register)).1 :: (run a ops b').1,
      (run a ops b').2) ∧
    table b'.device.register = (op.means a (table b.device.register)).2 ∧
    (∀ r < IOAPIC_REDIRECTION_BASE, b'.device.register r = b.device.register r) ∧
    b.Shown (fun d => UnderWay a op (table b.device.register) (table d.register)) b' := by
  have hop := op_sat (a := a) (b := b) op
  rw [run]
  unfold Prog.Sat at hop
  cases hrun : op.program a b with
  | ok u b' =>
    rw [hrun] at hop
    obtain ⟨index, hslot, happlied⟩ := hop
    have hmeans : op.means a (table b.device.register) = (.ok (), table b'.device.register) := by
      rw [Op.means, hslot, happlied.table]
    exact ⟨b', by rw [hmeans], by rw [hmeans], happlied.others,
      happlied.seen.mono fun d hd => hd.underWay hslot⟩
  | stop e b' =>
    rw [hrun] at hop
    obtain ⟨hslot, rfl⟩ := hop
    have hmeans : op.means a (table b'.device.register) = (.error e, table b'.device.register) := by
      rw [Op.means, hslot]
    exact ⟨b', by rw [hmeans], by rw [hmeans], fun _ _ => rfl, Bus.shown_refl⟩

theorem run_refines (ops : List Op) : ∀ b : Bus ℕ 32,
    (run a ops b).1 = (meaning a ops (table b.device.register)).1 ∧
    table (run a ops b).2.device.register = (meaning a ops (table b.device.register)).2 ∧
    (∀ r < IOAPIC_REDIRECTION_BASE,
      (run a ops b).2.device.register r = b.device.register r) ∧
    b.Shown (fun d => Between a ops (table b.device.register) (table d.register))
      (run a ops b).2 := by
  induction ops with
  | nil => exact fun b => ⟨rfl, rfl, fun _ _ => rfl, Bus.shown_refl⟩
  | cons op ops ih =>
    intro b
    obtain ⟨b', hrun, htable, hothers, hshown⟩ := run_cons (a := a) (b := b) op ops
    obtain ⟨ihresults, ihtable, ihothers, ihshown⟩ := ih b'
    rw [htable] at ihresults ihtable ihshown
    rw [hrun]
    refine ⟨congrArg _ ihresults, ihtable, fun r hr => (ihothers r hr).trans (hothers r hr), ?_⟩
    exact (hshown.mono fun d hd => hd.between ops).trans (ihshown.mono fun d hd => hd.cons)

theorem field_toNat (x : BitVec 32) {k : ℕ} {m : BitVec 32} (hm : m.toNat = 2 ^ k - 1) :
    (x &&& m).toNat = (x.setWidth k).toNat := by
  rw [BitVec.toNat_and, hm, Nat.and_two_pow_sub_one_eq_mod, BitVec.toNat_setWidth]

/-- The driver of a device, and every sequence of operations with it. -/
theorem ioApic_refines (expectedId base : ℕ) (d : Device) (ops : List Op) :
    (new expectedId base).Sat ⟨d, []⟩
      (fun a b => ((d.register IOAPIC_ID >>> 24).setWidth 4).toNat = expectedId ∧
        a = ⟨base, ((d.register IOAPIC_VERSION >>> 16).setWidth 8).toNat + 1⟩ ∧
        Refines a ops d (run a ops b))
      (fun e b => ((d.register IOAPIC_ID >>> 24).setWidth 4).toNat ≠ expectedId ∧
        e = .idMismatch expectedId ((d.register IOAPIC_ID >>> 24).setWidth 4).toNat ∧
        b.device.register = d.register) := by
  have hcount := field_toNat (d.register IOAPIC_VERSION >>> 16) (k := 8) (m := 0xFF) rfl
  have hid := field_toNat (d.register IOAPIC_ID >>> 24) (k := 4) (m := 0xF) rfl
  simp only [new, read, Prog.sat_bind]
  refine Window.read_sat (b := ⟨d, []⟩) (P := fun d' => d'.register = d.register)
    ⟨rfl, Bus.shown_refl⟩ rfl fun b₁ hb₁ => ?_
  refine Window.read_sat hb₁ rfl fun b₂ hb₂ => ?_
  rw [hcount, hid, Prog.sat_ite]
  refine ⟨fun hne => ⟨hne, rfl, hb₂.registers⟩, fun heq => ⟨not_not.mp heq, rfl, ?_⟩⟩
  obtain ⟨hresults, htable, hothers, hshown⟩ := run_refines (a := ⟨base, _⟩) ops b₂
  rw [hb₂.registers] at hresults htable hothers hshown
  refine ⟨hresults, htable, hothers, ?_⟩
  obtain ⟨new, hnew, hall⟩ := (hb₂.shown.mono fun d' hd' => hd' ▸ Between.start).trans hshown
  intro d' hd'
  rw [hnew, List.nil_append] at hd'
  exact hall d' hd'

end Operations

end IoApic

end Dusk
