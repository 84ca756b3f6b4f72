import Dusk.Model.AddressSpace
import Dusk.Lib.Slots

/-! `task/tcb.rs`: thread control blocks, mailboxes and handle tables. -/

namespace Dusk

open Lib

inductive Fault where
  | segmentationFault | illegalInstruction | abort | badSystemCall
  deriving DecidableEq, Repr

inductive ExitReason where
  | exited (code : ℕ) | killed | fault (f : Fault)
  deriving DecidableEq, Repr

inductive BlockReason where
  | recv
  deriving DecidableEq, Repr

inductive ThreadState where
  | ready | running | blocked (reason : BlockReason) | dead (reason : ExitReason)
  deriving DecidableEq, Repr

def MAX_MSG_SIZE : ℕ := 128
def MAILBOX_CAPACITY : ℕ := 4

structure Message where
  sender : ℕ
  length : ℕ
  data : ℕ → Byte

structure Mailbox where
  messages : ℕ → Option Message
  head : ℕ
  len : ℕ

namespace Mailbox

def new : Mailbox := ⟨fun _ => none, 0, 0⟩

def pop (b : Mailbox) : Option Message × Mailbox :=
  if b.len = 0 then (none, b)
  else (b.messages b.head,
    { b with head := (b.head + 1) % MAILBOX_CAPACITY, len := b.len - 1 })

def push (b : Mailbox) (msg : Message) : Bool × Mailbox :=
  if b.len = MAILBOX_CAPACITY then (false, b)
  else
    let tail := (b.head + b.len) % MAILBOX_CAPACITY
    (true, { b with
      messages := Function.update b.messages tail (some msg)
      len := b.len + 1 })

end Mailbox

def MAX_HANDLES : ℕ := 32

inductive KernelObject where
  | addressSpace (id : ℕ)
  | frame (frame : ℕ)
  | mapping (frame addressSpace virtualAddr : ℕ)
  | thread (id : ℕ)
  deriving DecidableEq, Repr

/-- `Rights` is a set of bits in a `u32`. -/
abbrev Rights := BitVec 32

namespace Rights

def READ : Rights := 1 <<< 0
def WRITE : Rights := 1 <<< 1
def EXECUTE : Rights := 1 <<< 2
def MAP : Rights := 1 <<< 3

end Rights

structure Handle where
  object : KernelObject
  rights : Rights
  deriving DecidableEq

/-- `HandleTable`: `get` is the source's; the other operations follow. -/
abbrev HandleTable := Slots Handle MAX_HANDLES

namespace HandleTable

def new : HandleTable := Slots.empty

def push (t : HandleTable) (handle : Handle) : Option (ℕ × HandleTable) :=
  t.firstEmpty.map fun i => (i, t.set i (some handle))

def take (t : HandleTable) (id : ℕ) : Option (Handle × HandleTable) :=
  (t.get id).map fun handle => (handle, t.set id none)

def put (t : HandleTable) (id : ℕ) (handle : Handle) : Option HandleTable :=
  if id < MAX_HANDLES ∧ t.get id = none then some (t.set id (some handle)) else none

end HandleTable

structure RecvArgs where
  outPtr : ℕ
  maxLen : ℕ
  outActualLen : ℕ
  outSender : ℕ
  deriving DecidableEq

/-- What a suspended thread does when its saved context is restored: the content
of the kernel stack that `ThreadContext::rsp` points to. -/
inductive ThreadContext where
  | userEntry (entry stack : ℕ)
  | afterYield
  | afterRecvBlock (args : RecvArgs)
  | afterExit
  deriving DecidableEq

structure Tcb where
  id : ℕ
  asId : ℕ
  state : ThreadState
  kernelStack : KernelStack
  context : ThreadContext
  mailbox : Mailbox
  handles : HandleTable

/-- `Tcb::new_user`; the handle table is new, so its push cannot fail. -/
def Tcb.newUser (asId : ℕ) (kernelStack : KernelStack) (entry userStack : ℕ) : Option Tcb :=
  (HandleTable.push HandleTable.new
    ⟨.addressSpace asId, Rights.READ ||| Rights.WRITE ||| Rights.EXECUTE⟩).map fun (_, handles) =>
    { id := 0
      asId
      state := .ready
      kernelStack
      context := .userEntry entry userStack
      mailbox := Mailbox.new
      handles }

end Dusk
