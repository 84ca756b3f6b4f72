import Dusk.Model.User

/-! `syscall/mod.rs` and `syscall/table.rs`. A syscall that gives up the processor
is cut at the context switch; `sysRecvTail` is what is left of `sys_recv` then. The
kernel's own diagnostics on the serial line are not recorded. -/

namespace Dusk

open Lib Scheduler

/-- Fail with a status unless a condition holds. -/
def require (c : Prop) [Decidable c] (s : Status) : KM Unit := if c then pure () else fail s

/-- `body.expect(..)` of a `Result`: a status is a panic. -/
def expectOk {α : Type} (p : KernelPanic) (body : KM α) : KM α :=
  Prog.zoom id (fun k _ => k)
    (fun stop => match stop with | .status _ => .panicked p | other => other) body

/-- `with_task(current(), ..).expect("failed to resolve self task")`. -/
def selfTask : KM Tcb := do
  let id ← currentTask
  let task ← withTask id
  Prog.expect (.panicked .selfTaskMissing) task

/-- Replace the handle table of the current task. -/
def setHandles (handles : HandleTable) : KM Unit := do
  let id ← currentTask
  let task ← selfTask
  setTask id (some { task with handles })

/-- `with_task_mut(current(), |task| task.handles.put(..))`, where an occupied slot
is a panic. -/
def putHandle (id : ℕ) (handle : Handle) : KM (Option Unit) := do
  let currentId ← currentTask
  match ← withTask currentId with
  | none => pure none
  | some task =>
    match HandleTable.put task.handles id handle with
    | none => panic .handleOccupied
    | some handles => do
      setTask currentId (some { task with handles })
      pure (some ())

/-- The check of an output pointer to a `usize` that may be left out with 0. -/
def validateOptional (asId ptr : ℕ) : KM Unit :=
  if ptr ≠ 0 then do
    require (ptr % 8 = 0) .invalidArgument
    validateUserRange asId ptr 8 true
  else pure ()

def sysYield : KM Unit := yieldCurrent

def sysExit (exitCode : ℕ) : KM Unit := exitCurrent (.exited exitCode)

/-- What `serial::write_bytes` sends: a line feed follows a carriage return. -/
def serialBytes (bytes : List Byte) : List Byte :=
  bytes.flatMap fun b => if b = 0x0A then [0x0D, b] else [b]

/-- The loop of `sys_write` for `count` chunks. -/
def writeChunks (bufPtr len : ℕ) : ℕ → ℕ → KM ℕ
  | 0, written => pure written
  | count + 1, written => do
    let n := min (len - written) 128
    let src ← onMachine (addUsize bufPtr written)
    let chunk ← copyFromUser src n
    onMachine (Prog.modify fun m => { m with serial := m.serial ++ serialBytes chunk })
    let written ← onMachine (addUsize written n)
    writeChunks bufPtr len count written

def sysWrite (fd bufPtr len outPtr : ℕ) : KM Unit := do
  require (fd = 1 ∨ fd = 2) .badFileDescriptor
  let task ← selfTask
  validateUserRange task.asId bufPtr len false
  validateOptional task.asId outPtr
  let written ← writeChunks bufPtr len ((len + 127) / 128) 0
  if outPtr ≠ 0 then copyValToUser outPtr written else pure ()

def sysSend (destTaskId msgPtr len : ℕ) : KM Unit := do
  require (len ≤ MAX_MSG_SIZE) .invalidArgument
  let sender ← currentTask
  let task ← selfTask
  validateUserRange task.asId msgPtr len false
  let bytes ← copyFromUser msgPtr len
  let msg : Message := ⟨sender, len, fun i => bytes.getD i 0⟩
  match ← withTask destTaskId with
  | none => fail .noSuchTask
  | some destTask => do
    let (pushed, mailbox) := destTask.mailbox.push msg
    setTask destTaskId (some { destTask with mailbox })
    require (pushed = true) .outOfMemory
    if destTask.state = .blocked .recv then unblock destTaskId else pure ()

/-- `sys_recv` after the mailbox has been seen to hold a message, or after the task
that waited for one has been resumed. -/
def sysRecvTail (args : RecvArgs) : KM Unit := do
  let task ← selfTask
  validateUserRange task.asId args.outPtr args.maxLen true
  validateOptional task.asId args.outActualLen
  validateOptional task.asId args.outSender
  let id ← currentTask
  let task ← selfTask
  let (message, mailbox) := task.mailbox.pop
  setTask id (some { task with mailbox })
  match message with
  | none => fail .noSuchTask
  | some msg => do
    let n := min msg.length args.maxLen
    Prog.assert (.panicked .sliceOutOfBounds) (decide (n ≤ MAX_MSG_SIZE))
    copyToUser args.outPtr ((List.range n).map msg.data)
    if args.outActualLen ≠ 0 then copyValToUser args.outActualLen msg.length else pure ()
    if args.outSender ≠ 0 then copyValToUser args.outSender msg.sender else pure ()

def sysRecv (args : RecvArgs) : KM Unit := do
  require (args.outPtr ≠ 0) .invalidArgument
  let task ← selfTask
  if task.mailbox.len = 0 then blockCurrent .recv (.afterRecvBlock args)
  else sysRecvTail args

/-- The checks `sys_frame_alloc` and `sys_as_create` make on their output pointer. -/
def requireOutHandle (outHandle : ℕ) : KM Unit := do
  require (outHandle ≠ 0) .invalidArgument
  require (outHandle % 8 = 0) .invalidArgument

def sysFrameAlloc (outHandle : ℕ) : KM Unit := do
  requireOutHandle outHandle
  let task ← selfTask
  validateUserRange task.asId outHandle 8 true
  match ← onMachine FrameAllocator.alloc with
  | none => fail .outOfMemory
  | some frame => do
    let handle : Handle :=
      ⟨.frame frame, Rights.READ ||| Rights.WRITE ||| Rights.EXECUTE ||| Rights.MAP⟩
    let task ← selfTask
    match HandleTable.push task.handles handle with
    | none =>
      match handle.object with
      | .frame frame => do
        onMachine (FrameAllocator.dealloc frame)
        fail .outOfMemory
      | _ => panic .pushedHandleChanged
    | some (handleId, handles) => do
      setHandles handles
      copyValToUser outHandle handleId

def sysFrameDealloc (frameHandleId : ℕ) : KM Unit := do
  let task ← selfTask
  match HandleTable.take task.handles frameHandleId with
  | none => fail .badHandle
  | some (frameHandle, handles) => do
    setHandles handles
    match frameHandle.object with
    | .frame frame => onMachine (FrameAllocator.dealloc frame)
    | _ => do
      let _ ← putHandle frameHandleId frameHandle
      fail .invalidArgument

/-- `insert_address_space`. -/
def insertAddressSpace (space : AddressSpace) : KM (Except AddressSpace ℕ) := do
  let k ← Prog.get
  match k.spaces.firstEmpty with
  | none => pure (.error space)
  | some id => do
    Prog.modify fun k => { k with spaces := k.spaces.set id (some space) }
    pure (.ok id)

/-- `remove_address_space`. -/
def removeAddressSpace (id : ℕ) : KM (Option AddressSpace) := do
  let k ← Prog.get
  Prog.modify fun k => { k with spaces := k.spaces.set id none }
  pure (k.spaces.get id)

def sysAsCreate (outHandle : ℕ) : KM Unit := do
  requireOutHandle outHandle
  let task ← selfTask
  validateUserRange task.asId outHandle 8 true
  let k ← Prog.get
  match k.spaces.get task.asId with
  | none => fail .outOfMemory
  | some callerAs =>
    match ← onMachine callerAs.newUser with
    | .error _ => fail .outOfMemory
    | .ok newAs =>
      match ← insertAddressSpace newAs with
      | .error space => do
        onMachine space.destroy
        fail .outOfMemory
      | .ok asId => do
        let handle : Handle :=
          ⟨.addressSpace asId, Rights.READ ||| Rights.WRITE ||| Rights.EXECUTE⟩
        let task ← selfTask
        match HandleTable.push task.handles handle with
        | none =>
          match handle.object with
          | .addressSpace asId => do
            let removed ← removeAddressSpace asId
            let space ← Prog.expect (.panicked .insertedSpaceMissing) removed
            onMachine space.destroy
            fail .outOfMemory
          | _ => panic .pushedHandleChanged
        | some (handleId, handles) => do
          setHandles handles
          copyValToUser outHandle handleId

/-- The status `sys_map` answers a failed mapping with. -/
def mapFailure : MapError → KM Unit
  | .alreadyMapped | .unsupportedPermissions => fail .invalidArgument
  | .outOfMemory => fail .outOfMemory
  | _ => panic .impossibleMapError

/-- The handle checks of `sys_map`: the target address space. -/
def checkMapHandles (task : Tcb) (asHandle frameHandle : ℕ) (writable executable : Bool) :
    KM ℕ := do
  match task.handles.get asHandle with
  | none => fail .badHandle
  | some asHandle =>
    match asHandle.object with
    | .addressSpace asId => do
      require (asHandle.rights &&& Rights.WRITE ≠ 0) .invalidArgument
      match task.handles.get frameHandle with
      | none => fail .badHandle
      | some frameHandle =>
        match frameHandle.object with
        | .frame _ => do
          let requiredRights := Rights.READ ||| Rights.MAP
            ||| (if writable then Rights.WRITE else 0)
            ||| (if executable then Rights.EXECUTE else 0)
          require (frameHandle.rights &&& requiredRights = requiredRights) .invalidArgument
          pure asId
        | _ => fail .invalidArgument
    | _ => fail .invalidArgument

def sysMap (asHandle frameHandle virtualAddr permissions outHandle : ℕ) : KM Unit := do
  require (outHandle ≠ 0 ∧ outHandle % 8 = 0) .invalidArgument
  require (virtualAddr % FRAME_SIZE = 0 ∧ permissions >>> 2 = 0) .invalidArgument
  let writable := permissions.testBit 0
  let executable := permissions.testBit 1
  match checkedAdd virtualAddr FRAME_SIZE with
  | none => fail .invalidArgument
  | some stop => do
    require (stop ≤ USER_SPACE_END) .invalidArgument
    let task ← selfTask
    validateUserRange task.asId outHandle 8 true
    let asId ← checkMapHandles task asHandle frameHandle writable executable
    let task ← selfTask
    match HandleTable.take task.handles frameHandle with
    | none => fail .badHandle
    | some (⟨object, rights⟩, handles) => do
      setHandles handles
      match object with
      | .frame frame => do
        let k ← Prog.get
        let targetAs ← Prog.expect (.panicked .targetSpaceMissing) (k.spaces.get asId)
        match ← onMachine (targetAs.map (startAddress frame) virtualAddr
            ⟨writable, executable, true⟩ .writeBack) with
        | .ok () => do
          let _ ← putHandle frameHandle ⟨.mapping frame asId virtualAddr, rights⟩
          expectOk .outHandleChecked (copyValToUser outHandle frameHandle)
        | .error err => do
          let put ← putHandle frameHandle ⟨.frame frame, rights⟩
          Prog.expect (.panicked .selfTaskMissing) put
          mapFailure err
      | _ => panic .frameHandleChanged

def sysUnmap (mappingHandle : ℕ) : KM Unit := do
  let task ← selfTask
  match HandleTable.take task.handles mappingHandle with
  | none => fail .badHandle
  | some (⟨object, rights⟩, handles) => do
    setHandles handles
    match object with
    | .mapping frame addressSpace virtualAddr => do
      let k ← Prog.get
      match k.spaces.get addressSpace with
      | none => do
        let _ ← putHandle mappingHandle ⟨.mapping frame addressSpace virtualAddr, rights⟩
        fail .badHandle
      | some targetAs =>
        match ← onMachine (targetAs.unmap virtualAddr) with
        | .error _ => panic .unmapFailed
        | .ok unmappedFrame => do
          onMachine (handBack virtualAddr unmappedFrame)
          if unmappedFrame = frame then do
            let _ ← putHandle mappingHandle ⟨.frame frame, rights⟩
            pure ()
          else panic .unmappedWrongFrame
    | _ => do
      let put ← putHandle mappingHandle ⟨object, rights⟩
      Prog.expect (.panicked .selfTaskMissing) put
      fail .invalidArgument

/-- The handle checks of `sys_task_create`: the address space of the new task. -/
def checkTaskHandles (task : Tcb) (asHandle : ℕ) : KM ℕ :=
  match task.handles.get asHandle with
  | none => fail .badHandle
  | some asHandle =>
    match asHandle.object with
    | .addressSpace asId => do
      require (asHandle.rights &&& Rights.EXECUTE ≠ 0) .invalidArgument
      pure asId
    | _ => fail .invalidArgument

/-- What `sys_task_create` checks before it creates anything. -/
def checkTaskCreate (asHandle entry userStack outTaskHandle : ℕ) : KM ℕ := do
  require (entry ≠ 0 ∧ userStack ≠ 0 ∧ outTaskHandle ≠ 0) .invalidArgument
  require (entry < USER_SPACE_END ∧ userStack ≤ USER_SPACE_END) .badAddress
  require (outTaskHandle % 8 = 0) .invalidArgument
  let task ← selfTask
  validateUserRange task.asId outTaskHandle 8 true
  let asId ← checkTaskHandles task asHandle
  let k ← Prog.get
  require ((k.spaces.get asId).isSome) .badHandle
  match checkedSub userStack 1 with
  | none => fail .badAddress
  | some stackProbe => do
    validateUserRange asId stackProbe 1 true
    let k ← Prog.get
    match k.spaces.get asId with
    | none => fail .badHandle
    | some space => do
      require ((space.mapping k.machine.mem entry).any fun permissions =>
        permissions.userAccessible && permissions.executable) .badAddress
      pure asId

def sysTaskCreate (asHandle entry userStack outTaskHandle : ℕ) : KM Unit := do
  let asId ← checkTaskCreate asHandle entry userStack outTaskHandle
  let kernelAs ← kernelAddressSpace
  match ← allocateKernelStack kernelAs with
  | .error _ => fail .outOfMemory
  | .ok kernelStack => do
    let newTcb ← Prog.expect (.panicked .addressSpaceHandleRejected)
      (Tcb.newUser asId kernelStack entry userStack)
    match ← addTask newTcb with
    | .error _ => fail .outOfMemory
    | .ok newTaskId => do
      let handle : Handle := ⟨.thread newTaskId, Rights.READ ||| Rights.WRITE ||| Rights.EXECUTE⟩
      let task ← selfTask
      match HandleTable.push task.handles handle with
      | none => do
        let _ ← removeTask newTaskId
        fail .outOfMemory
      | some (handleId, handles) => do
        setHandles handles
        copyValToUser outTaskHandle handleId

inductive SyscallNumber where
  | yield | exit | write | send | recv | frameAlloc | frameDealloc | asCreate | map | unmap
  | taskCreate
  deriving DecidableEq, Repr

/-- `TryFrom<u64>`. -/
def SyscallNumber.tryFrom (val : ℕ) : Option SyscallNumber :=
  match val with
  | 1 => some .yield
  | 2 => some .exit
  | 3 => some .write
  | 4 => some .send
  | 5 => some .recv
  | 6 => some .frameAlloc
  | 7 => some .frameDealloc
  | 8 => some .asCreate
  | 9 => some .map
  | 10 => some .unmap
  | 11 => some .taskCreate
  | _ => none

/-- `err as u64`. -/
def Status.code : Status → ℕ
  | .invalidArgument => 1
  | .badAddress => 2
  | .badFileDescriptor => 3
  | .noSuchTask => 4
  | .outOfMemory => 5
  | .badHandle => 6

/-- The registers a syscall is made with. -/
structure SyscallArgs where
  num : Word
  arg0 : Word
  arg1 : Word
  arg2 : Word
  arg3 : Word
  arg4 : Word
  deriving DecidableEq

def SyscallArgs.recvArgs (a : SyscallArgs) : RecvArgs :=
  ⟨a.arg0.toNat, a.arg1.toNat, a.arg2.toNat, a.arg3.toNat⟩

/-- The body of `handle`. -/
def dispatch (a : SyscallArgs) : KM Unit :=
  match SyscallNumber.tryFrom a.num.toNat with
  | none => exitCurrent (.fault .badSystemCall)
  | some .yield => sysYield
  | some .exit => sysExit a.arg0.toNat
  | some .write => sysWrite a.arg0.toNat a.arg1.toNat a.arg2.toNat a.arg3.toNat
  | some .send => sysSend a.arg0.toNat a.arg1.toNat a.arg2.toNat
  | some .recv => sysRecv a.recvArgs
  | some .frameAlloc => sysFrameAlloc a.arg0.toNat
  | some .frameDealloc => sysFrameDealloc a.arg0.toNat
  | some .asCreate => sysAsCreate a.arg0.toNat
  | some .map =>
    sysMap a.arg0.toNat a.arg1.toNat a.arg2.toNat a.arg3.toNat a.arg4.toNat
  | some .unmap => sysUnmap a.arg0.toNat
  | some .taskCreate => sysTaskCreate a.arg0.toNat a.arg1.toNat a.arg2.toNat a.arg3.toNat

/-- `Ok(()) => 0, Err(err) => err as u64`. -/
def returning (body : KM Unit) : KM ℕ :=
  Prog.catching (fun stop => match stop with | .status s => some s.code | _ => none) (do
    body
    pure 0)

def handle (a : SyscallArgs) : KM ℕ := returning (dispatch a)

end Dusk
