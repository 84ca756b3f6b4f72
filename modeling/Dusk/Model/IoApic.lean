import Dusk.Lib.Window
import Dusk.Model.Acpi

/-! `arch/x86_64/io_apic.rs`: the redirection table of the I/O APIC, which is written
through a window of two registers. -/

namespace Dusk

open Lib

inductive InterruptPolarity where
  | activeHigh | activeLow
  deriving DecidableEq, Repr

inductive TriggerMode where
  | edge | level
  deriving DecidableEq, Repr

namespace IoApic

def IOAPIC_ID : ℕ := 0x00

def IOAPIC_VERSION : ℕ := 0x01

def IOAPIC_REDIRECTION_BASE : ℕ := 0x10

def MASKED : BitVec 32 := 1 <<< 16

/-- `InvalidRedirectionIndex` and the other errors; that of a page that cannot be mapped is
left to the address space. -/
inductive IoApicError where
  | idMismatch (expected actual : ℕ)
  | gsiOutsideRange
  | invalidRedirectionIndex
  deriving DecidableEq, Repr

structure RedirectionConfig where
  vector : BitVec 8
  destination : BitVec 8
  polarity : InterruptPolarity
  trigger : TriggerMode
  deriving DecidableEq

/-- `IoApic` without its address. -/
structure Driver where
  globalInterruptBase : ℕ
  redirectionEntryCount : ℕ
  deriving DecidableEq

/-- The bits that are the device's: the version, and in the low half of a redirection entry
the delivery status and the remote IRR. -/
def own (register : ℕ) : BitVec 32 :=
  if register = IOAPIC_VERSION then BitVec.allOnes 32
  else if IOAPIC_REDIRECTION_BASE ≤ register ∧ register % 2 = 0 then 0x5000
  else 0

abbrev Device := Window ℕ 32

abbrev IM := Prog (Bus ℕ 32) IoApicError

def read (register : ℕ) : IM (BitVec 32) := Window.read register

def write (register : ℕ) (value : BitVec 32) : IM Unit := Window.write own register value

/-- `new` after the mapping of the registers. -/
def new (expectedId globalInterruptBase : ℕ) : IM Driver := do
  let version ← read IOAPIC_VERSION
  let redirectionEntryCount := ((version >>> 16) &&& 0xFF).toNat + 1
  let idRegister ← read IOAPIC_ID
  let id := ((idRegister >>> 24) &&& 0xF).toNat
  if id ≠ expectedId then Prog.stop (.idMismatch expectedId id)
  else pure ⟨globalInterruptBase, redirectionEntryCount⟩

namespace Driver

variable (a : Driver)

def redirectionIndex (gsi : ℕ) : IM ℕ := do
  let index ← Prog.expect .gsiOutsideRange (checkedSub gsi a.globalInterruptBase)
  if index ≥ a.redirectionEntryCount then Prog.stop .gsiOutsideRange
  else pure index

def handlesGsi (gsi : ℕ) : Bool :=
  match checkedSub gsi a.globalInterruptBase with
  | some index => index < a.redirectionEntryCount
  | none => false

/-- `u8::try_from`. -/
def toRegister (n : ℕ) : IM ℕ :=
  Prog.expect .invalidRedirectionIndex (if n < 256 then some n else none)

def redirectionRegisters (gsi : ℕ) : IM (ℕ × ℕ) := do
  let index ← a.redirectionIndex gsi
  let lowRegister ← toRegister (IOAPIC_REDIRECTION_BASE + index * 2)
  let highRegister ← toRegister (IOAPIC_REDIRECTION_BASE + index * 2 + 1)
  pure (lowRegister, highRegister)

/-- The entry that `configure_masked` makes. -/
def entryOf (config : RedirectionConfig) : Word :=
  let entry : Word := config.vector.setWidth 64
  let entry := entry ||| (match config.polarity with
    | .activeHigh => 0 <<< 13
    | .activeLow => 1 <<< 13)
  let entry := entry ||| (match config.trigger with
    | .edge => 0 <<< 15
    | .level => 1 <<< 15)
  let entry := entry ||| (1 <<< 16)
  entry ||| (config.destination.setWidth 64 <<< 56)

def configureMasked (gsi : ℕ) (config : RedirectionConfig) : IM Unit := do
  let entry := entryOf config
  let (lowRegister, highRegister) ← a.redirectionRegisters gsi
  let oldLow ← read lowRegister
  write lowRegister (oldLow ||| MASKED)
  write highRegister ((entry >>> 32).setWidth 32)
  write lowRegister (entry.setWidth 32 ||| MASKED)

def unmask (gsi : ℕ) : IM Unit := do
  let (lowRegister, _) ← a.redirectionRegisters gsi
  let low ← read lowRegister
  write lowRegister (low &&& ~~~MASKED)

def mask (gsi : ℕ) : IM Unit := do
  let (lowRegister, _) ← a.redirectionRegisters gsi
  let low ← read lowRegister
  write lowRegister (low ||| MASKED)

end Driver

inductive Op where
  | configureMasked (gsi : ℕ) (config : RedirectionConfig)
  | unmask (gsi : ℕ)
  | mask (gsi : ℕ)

def Op.program (a : Driver) : Op → IM Unit
  | .configureMasked gsi config => a.configureMasked gsi config
  | .unmask gsi => a.unmask gsi
  | .mask gsi => a.mask gsi

/-- A sequence of operations with what they return; none of them panics. -/
def run (a : Driver) : List Op → Bus ℕ 32 → List (Except IoApicError Unit) × Bus ℕ 32
  | [], b => ([], b)
  | op :: ops, b =>
    match op.program a b with
    | .ok _ b' => let r := run a ops b'; (.ok () :: r.1, r.2)
    | .stop e b' => let r := run a ops b'; (.error e :: r.1, r.2)

end IoApic

end Dusk
