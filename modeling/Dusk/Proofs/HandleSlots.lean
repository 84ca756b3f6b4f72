import Dusk.Lib.Keeps
import Dusk.Proofs.Step

/-! The slot of a handle: a move of any task leaves the handle where it is, unless its owner
takes it out. -/

namespace Dusk

open Lib Lib.Prog Scheduler

variable {B : BootPages} {L : Layout} {k k' : Kernel} {t i : ℕ} {handle : Handle}

/-- Task `t` has the handle in slot `i`. -/
def Kernel.Has (t i : ℕ) (handle : Handle) (k : Kernel) : Prop := k.handleAt t i = some handle

section Tasks

theorem has_same (htasks : k'.sched.tasks = k.sched.tasks) (h : k.Has t i handle) :
    k'.Has t i handle := by
  rw [Kernel.Has, Kernel.handleAt, htasks]
  exact h

theorem Kernel.Has.get {task : Tcb} (h : k.Has t i handle)
    (hget : k.sched.tasks.get t = some task) : task.handles.get i = some handle := by
  rw [Kernel.Has, Kernel.handleAt, hget] at h
  exact h

/-- A task is written back with at least its handle. -/
theorem setTask_has {id : ℕ} {task : Tcb} (task' : Tcb) (hget : k.sched.tasks.get id = some task)
    (hkeep : id = t → task.handles.get i = some handle → task'.handles.get i = some handle)
    (h : k.Has t i handle) : (setTask id (some task')).Leaves (Kernel.Has t i handle) k := by
  rw [Leaves, sat_setTask, Kernel.Has, Kernel.handleAt, Slots.get_set _ (Slots.lt_of_get hget)]
  by_cases hid : t = id
  · rw [if_pos hid]
    exact hkeep hid.symm (h.get (by rw [hid, hget]))
  · rw [if_neg hid]
    exact h

theorem onMachine_stays {α : Type} (p : MM α) : (onMachine p).Stays (Kernel.Has t i handle) :=
  stays_zoom (fun _ _ h => by exact h) p

theorem modifySched_stays {f : Scheduler → Scheduler} (hf : ∀ s, (f s).tasks = s.tasks) :
    (modifySched f).Stays (Kernel.Has t i handle) :=
  stays_modify fun k h => has_same (hf k.sched) h

theorem currentTask_reads : currentTask.Reads := reads_get.bind fun _ => reads_expect _ _

theorem withTask_reads (id : ℕ) : (withTask id).Reads := reads_get.bind fun _ => reads_pure _

theorem selfTask_reads : selfTask.Reads :=
  currentTask_reads.bind fun id => (withTask_reads id).bind fun _ => reads_expect _ _

variable {β : Type} {P : Kernel → Prop}

theorem currentTask_at {cur : ℕ} {f : ℕ → KM β} (hcur : k.sched.current = some cur)
    (hf : (f cur).Leaves P k) : (currentTask >>= f).Leaves P k := by
  rw [Leaves, sat_bind, sat_currentTask hcur]
  exact hf

theorem selfTask_at {cur : ℕ} {task : Tcb} {f : Tcb → KM β} (hcur : k.sched.current = some cur)
    (hget : k.sched.tasks.get cur = some task) (hf : (f task).Leaves P k) :
    (selfTask >>= f).Leaves P k := by
  rw [Leaves, sat_bind, selfTask, sat_bind, sat_currentTask hcur, sat_bind, sat_withTask, hget,
    sat_expect_some]
  exact hf

theorem currentTask_then {f : ℕ → KM β} (h : P k)
    (hf : ∀ cur, k.sched.current = some cur → (f cur).Leaves P k) :
    (currentTask >>= f).Leaves P k := by
  cases hcur : k.sched.current with
  | none =>
    simp only [Leaves, sat_bind, currentTask, sat_get, hcur, sat_expect_none]
    exact h
  | some cur => exact currentTask_at hcur (hf cur hcur)

theorem selfTask_then {f : Tcb → KM β} (h : P k)
    (hf : ∀ cur task, k.sched.current = some cur → k.sched.tasks.get cur = some task →
      (f task).Leaves P k) : (selfTask >>= f).Leaves P k := by
  cases hcur : k.sched.current with
  | none =>
    simp only [Leaves, sat_bind, selfTask, currentTask, sat_get, hcur, sat_expect_none]
    exact h
  | some cur =>
    cases hget : k.sched.tasks.get cur with
    | none =>
      simp only [Leaves, sat_bind, selfTask, currentTask, sat_get, hcur, sat_expect_some,
        sat_withTask, hget, sat_expect_none]
      exact h
    | some task => exact selfTask_at hcur hget (hf cur task hcur hget)

theorem pushReady_stays (id : ℕ) : (pushReady id).Stays (Kernel.Has t i handle) := by
  refine (reads_get _).bind fun k => ?_
  exact (modifySched_stays (f := fun s => { s with ready := (k.sched.ready.pushBack id).2 })
    fun _ => rfl).bind fun _ => reads_assert _ _ _

theorem unblock_stays (id : ℕ) : (unblock id).Stays (Kernel.Has t i handle) := by
  intro k h
  rw [unblock, Leaves]
  simp only [sat_bind, sat_get]
  split
  swap
  · exact h
  cases hget : k.sched.tasks.get id with
  | none => exact h
  | some task =>
    cases hstate : task.state with
    | blocked reason =>
      simp only [hstate]
      exact (setTask_has { task with state := .ready } hget (fun _ hkeep => hkeep) h).bind
        fun _ => pushReady_stays id
    | ready | running | dead _ =>
      simp only [hstate]
      exact h

end Tasks

section Copies

theorem require_reads (c : Prop) [Decidable c] (s : Status) : (require c s).Reads := by
  rw [require]
  split
  · exact reads_pure ()
  · exact reads_stop _

theorem validatePages_reads (asId : ℕ) (writable : Bool) (page count : ℕ) :
    (validatePages asId writable page count).Reads := by
  induction count generalizing page with
  | zero => exact reads_pure ()
  | succ count ih =>
    refine reads_get.bind fun k => ?_
    split
    · exact reads_stop _
    · split
      · exact ih _
      · exact reads_stop _

theorem validateUserRange_reads (asId start len : ℕ) (writable : Bool) :
    (validateUserRange asId start len writable).Reads := by
  rw [validateUserRange]
  split
  · exact reads_stop _
  · split
    · exact reads_stop _
    · split
      · exact reads_pure ()
      · exact validatePages_reads _ _ _ _

theorem validateOptional_reads (asId ptr : ℕ) : (validateOptional asId ptr).Reads := by
  rw [validateOptional]
  split
  · exact (require_reads _ _).bind fun _ => validateUserRange_reads _ _ _ _
  · exact reads_pure ()

theorem checkUserEnd_reads (start len : ℕ) : (checkUserEnd start len).Reads := by
  rw [checkUserEnd]
  split
  · exact reads_stop _
  · split
    · exact reads_stop _
    · exact reads_pure ()

theorem checkPointer_reads (ptr len : ℕ) : (checkPointer ptr len).Reads :=
  reads_get.bind fun _ => reads_assert _ _

theorem recordAccess_stays (write : Bool) (address len : ℕ) :
    (recordAccess write address len).Stays (Kernel.Has t i handle) :=
  stays_modify fun _ h => has_same (by rfl) h

theorem copyFromUser_stays (src len : ℕ) : (copyFromUser src len).Stays (Kernel.Has t i handle) :=
  (checkUserEnd_reads _ _ _).bind fun _ => (checkPointer_reads _ _ _).bind fun _ =>
    (recordAccess_stays _ _ _).bind fun _ => (reads_get _).bind fun _ => reads_expect _ _ _

theorem copyToUser_stays (dst : ℕ) (src : List Byte) :
    (copyToUser dst src).Stays (Kernel.Has t i handle) :=
  (checkUserEnd_reads _ _ _).bind fun _ => (checkPointer_reads _ _ _).bind fun _ =>
    (recordAccess_stays _ _ _).bind fun _ => onMachine_stays _

theorem copyValToUser_stays (dst val : ℕ) :
    (copyValToUser dst val).Stays (Kernel.Has t i handle) := by
  rw [copyValToUser]
  split
  · exact reads_stop _ _
  · exact (checkUserEnd_reads _ _ _).bind fun _ => (checkPointer_reads _ _ _).bind fun _ =>
      (recordAccess_stays _ _ _).bind fun _ => onMachine_stays _

theorem writeChunks_stays (bufPtr len count written : ℕ) :
    (writeChunks bufPtr len count written).Stays (Kernel.Has t i handle) := by
  induction count generalizing written with
  | zero => exact reads_pure _ _
  | succ count ih =>
    exact (onMachine_stays _).bind fun _ => (copyFromUser_stays _ _).bind fun _ =>
      (onMachine_stays _).bind fun _ => (onMachine_stays _).bind fun _ => ih _

end Copies

section Calls

theorem sysWrite_stays (fd bufPtr len outPtr : ℕ) :
    (sysWrite fd bufPtr len outPtr).Stays (Kernel.Has t i handle) := by
  refine (require_reads _ _ _).bind fun _ => (selfTask_reads _).bind fun task => ?_
  refine (validateUserRange_reads _ _ _ _ _).bind fun _ =>
    (validateOptional_reads _ _ _).bind fun _ => (writeChunks_stays _ _ _ _).bind fun written => ?_
  split
  · exact copyValToUser_stays _ _
  · exact reads_pure _ _

theorem sysSend_stays (dest msgPtr len : ℕ) :
    (sysSend dest msgPtr len).Stays (Kernel.Has t i handle) := by
  refine (require_reads _ _ _).bind fun _ => (currentTask_reads _).bind fun sender => ?_
  refine (selfTask_reads _).bind fun task => (validateUserRange_reads _ _ _ _ _).bind fun _ => ?_
  refine (copyFromUser_stays _ _).bind fun bytes => fun k h => ?_
  simp only [Leaves, sat_bind, sat_withTask]
  cases hget : k.sched.tasks.get dest with
  | none => exact h
  | some destTask =>
    -- the mail of the task is another, its handles are the same
    refine (setTask_has { destTask with mailbox := (destTask.mailbox.push
      ⟨sender, len, fun i => bytes.getD i 0⟩).2 } hget (fun _ hkeep => hkeep) h).bind fun _ => ?_
    refine (require_reads _ _ _).bind fun _ => ?_
    split
    · exact unblock_stays dest
    · exact reads_pure _ _

theorem sysRecvTail_stays (args : RecvArgs) :
    (sysRecvTail args).Stays (Kernel.Has t i handle) := by
  refine (selfTask_reads _).bind fun task => (validateUserRange_reads _ _ _ _ _).bind fun _ => ?_
  refine (validateOptional_reads _ _ _).bind fun _ =>
    (validateOptional_reads _ _ _).bind fun _ => ?_
  intro k h
  refine currentTask_then h fun cur hcur => selfTask_then h fun cur' task hcur' hget => ?_
  obtain rfl : cur = cur' := Option.some.inj (hcur.symm.trans hcur')
  generalize task.mailbox.pop = popped
  obtain ⟨message, mailbox⟩ := popped
  refine (setTask_has { task with mailbox } hget (fun _ hkeep => hkeep) h).bind fun _ => ?_
  cases message with
  | none => exact reads_stop _ _
  | some msg =>
    have hlast : (if args.outSender ≠ 0 then copyValToUser args.outSender msg.sender
        else Pure.pure () : KM Unit).Stays (Kernel.Has t i handle) := by
      split
      · exact copyValToUser_stays _ _
      · exact reads_pure _ _
    refine (reads_assert _ _ _).bind fun _ => (copyToUser_stays _ _).bind fun _ => ?_
    by_cases hlen : args.outActualLen ≠ 0
    · simp only [if_pos hlen]
      exact (copyValToUser_stays _ _).bind fun _ => hlast
    · simp only [if_neg hlen]
      exact hlast

end Calls

section Handles

variable {cur : ℕ} {task : Tcb}

theorem push_has {table table' : HandleTable} {new : Handle} {j : ℕ}
    (hpush : HandleTable.push table new = some (j, table')) (h : table.get i = some handle) :
    table'.get i = some handle := by
  obtain ⟨hj, hempty, rfl⟩ := push_some hpush
  rw [Slots.get_set_of_ne _ ?_, h]
  rintro rfl
  rw [hempty] at h
  cases h

theorem setHandles_has {handles : HandleTable} (hcur : k.sched.current = some cur)
    (hget : k.sched.tasks.get cur = some task)
    (hkeep : cur = t → task.handles.get i = some handle → handles.get i = some handle)
    (h : k.Has t i handle) : (setHandles handles).Leaves (Kernel.Has t i handle) k :=
  currentTask_at hcur (selfTask_at hcur hget
    (setTask_has { task with handles } hget hkeep h))

/-- A handle is put into an empty slot only. -/
theorem putHandle_stays (id : ℕ) (new : Handle) :
    (putHandle id new).Stays (Kernel.Has t i handle) := by
  intro k h
  refine currentTask_then h fun cur _ => ?_
  simp only [Leaves, sat_bind, sat_withTask]
  cases hget : k.sched.tasks.get cur with
  | none => exact h
  | some task =>
    dsimp only
    cases hput : HandleTable.put task.handles id new with
    | none => exact h
    | some handles =>
      refine (setTask_has { task with handles } hget (fun _ hkeep => ?_) h).bind fun _ =>
        reads_pure _ _
      simp only [HandleTable.put] at hput
      split_ifs at hput with hempty
      cases hput
      rw [Slots.get_set_of_ne _ ?_, hkeep]
      rintro rfl
      rw [hempty.2] at hkeep
      cases hkeep

/-- The end of a call that makes a handle. -/
theorem handOver_has {new : Handle} {j out : ℕ} {handles : HandleTable}
    (hcur : k.sched.current = some cur) (hget : k.sched.tasks.get cur = some task)
    (hpush : HandleTable.push task.handles new = some (j, handles)) (h : k.Has t i handle) :
    (setHandles handles >>= fun _ => copyValToUser out j).Leaves (Kernel.Has t i handle) k :=
  (setHandles_has hcur hget (fun _ => push_has hpush) h).bind fun _ => copyValToUser_stays _ _

theorem requireOutHandle_reads (outHandle : ℕ) : (requireOutHandle outHandle).Reads :=
  (require_reads _ _).bind fun _ => require_reads _ _

theorem sysFrameAlloc_stays (outHandle : ℕ) :
    (sysFrameAlloc outHandle).Stays (Kernel.Has t i handle) := by
  refine (requireOutHandle_reads _ _).bind fun _ => (selfTask_reads _).bind fun _ => ?_
  refine (validateUserRange_reads _ _ _ _ _).bind fun _ => (onMachine_stays _).bind fun res => ?_
  cases res with
  | none => exact reads_stop _ _
  | some frame =>
    refine fun k h => selfTask_then h fun cur task hcur hget => ?_
    cases hpush : HandleTable.push task.handles
        ⟨.frame frame, Rights.READ ||| Rights.WRITE ||| Rights.EXECUTE ||| Rights.MAP⟩ with
    | none => exact ((onMachine_stays _).bind fun _ => reads_stop _ _) k h
    | some pushed => exact handOver_has hcur hget hpush h

theorem insertAddressSpace_stays (space : AddressSpace) :
    (insertAddressSpace space).Stays (Kernel.Has t i handle) := by
  refine (reads_get _).bind fun k => ?_
  split
  · exact reads_pure _ _
  · exact (stays_modify fun _ h => has_same (by rfl) h).bind fun _ => reads_pure _ _

theorem removeAddressSpace_stays (id : ℕ) :
    (removeAddressSpace id).Stays (Kernel.Has t i handle) :=
  (reads_get _).bind fun _ => (stays_modify fun _ h => has_same (by rfl) h).bind fun _ =>
    reads_pure _ _

theorem sysAsCreate_stays (outHandle : ℕ) :
    (sysAsCreate outHandle).Stays (Kernel.Has t i handle) := by
  refine (requireOutHandle_reads _ _).bind fun _ => (selfTask_reads _).bind fun caller => ?_
  refine (validateUserRange_reads _ _ _ _ _).bind fun _ => (reads_get _).bind fun k => ?_
  cases k.spaces.get caller.asId with
  | none => exact reads_stop _ _
  | some callerAs =>
    refine (onMachine_stays _).bind fun res => ?_
    cases res with
    | error _ => exact reads_stop _ _
    | ok newAs =>
      refine (insertAddressSpace_stays _).bind fun inserted => ?_
      cases inserted with
      | error space => exact (onMachine_stays _).bind fun _ => reads_stop _ _
      | ok asId =>
        refine fun k h => selfTask_then h fun cur task hcur hget => ?_
        cases hpush : HandleTable.push task.handles
            ⟨.addressSpace asId, Rights.READ ||| Rights.WRITE ||| Rights.EXECUTE⟩ with
        | none =>
          exact ((removeAddressSpace_stays _).bind fun _ => (reads_expect _ _ _).bind fun _ =>
            (onMachine_stays _).bind fun _ => reads_stop _ _) k h
        | some pushed => exact handOver_has hcur hget hpush h

/-- A handle is taken out of another slot. -/
theorem take_has {id : ℕ} {taken : Handle} {handles : HandleTable}
    (hcur : k.sched.current = some cur) (hget : k.sched.tasks.get cur = some task)
    (htake : HandleTable.take task.handles id = some (taken, handles))
    (hother : ¬ (cur = t ∧ id = i)) (h : k.Has t i handle) :
    (setHandles handles).Leaves (Kernel.Has t i handle) k := by
  obtain ⟨_, _, rfl⟩ := take_some htake
  refine setHandles_has hcur hget (fun hct hkeep => ?_) h
  rw [Slots.get_set_of_ne _ (fun hi => hother ⟨hct, hi.symm⟩), hkeep]

theorem frameDealloc_tail (id : ℕ) (taken : Handle) : (match taken.object with
    | .frame frame => onMachine (FrameAllocator.dealloc frame)
    | _ => do
      let _ ← putHandle id taken
      fail .invalidArgument : KM Unit).Stays (Kernel.Has t i handle) := by
  split
  · exact onMachine_stays _
  · exact (putHandle_stays _ _).bind fun _ => reads_stop _ _

/-- A handle that is not a frame goes back where it was. -/
theorem sysFrameDealloc_leaves (hinv : KInv B L k) (hframe : ∀ f, handle.object ≠ .frame f)
    (id : ℕ) (h : k.Has t i handle) :
    (sysFrameDealloc id).Leaves (Kernel.Has t i handle) k := by
  obtain ⟨cur, task, hrun⟩ := hinv.tasks.current
  rw [sysFrameDealloc, Leaves, sat_bind, sat_selfTask hrun]
  cases htake : HandleTable.take task.handles id with
  | none => exact h
  | some pair =>
    obtain ⟨taken, handles⟩ := pair
    by_cases hown : cur = t ∧ id = i
    · obtain ⟨rfl, rfl⟩ := hown
      obtain ⟨_, hget, rfl⟩ := take_some htake
      obtain rfl : taken = handle := Option.some.inj (hget.symm.trans (h.get hrun.get))
      simp only [sat_bind]
      rw [sat_setHandles hrun]
      rw [sat_putBack hrun hget]
      exact h
    · exact (take_has hrun.current hrun.get htake hown h).bind fun _ => frameDealloc_tail id taken

theorem mapFailure_reads (err : MapError) : (mapFailure err).Reads := by
  unfold mapFailure
  split <;> exact reads_stop _

theorem sysMap_leaves (hframe : ∀ f, handle.object ≠ .frame f)
    (asHandle frameHandle va permissions outHandle : ℕ) :
    (sysMap asHandle frameHandle va permissions outHandle).Stays (Kernel.Has t i handle) := by
  intro k h
  rw [sysMap]
  refine (require_reads _ _).then h fun _ => (require_reads _ _).then h fun _ => ?_
  dsimp only
  split
  · exact h
  refine (require_reads _ _).then h fun _ => selfTask_then h fun cur task hcur hget => ?_
  refine (validateUserRange_reads _ _ _ _).then h fun _ => ?_
  rw [Leaves, sat_bind]
  refine checkMapHandles_sat (fun asId _ f rights _ hf => ?_) fun _ => h
  refine selfTask_at hcur hget ?_
  cases htake : HandleTable.take task.handles frameHandle with
  | none => exact h
  | some pair =>
    obtain ⟨⟨object, rights'⟩, handles⟩ := pair
    refine (take_has hcur hget htake ?_ h).bind fun _ => ?_
    · rintro ⟨rfl, rfl⟩
      obtain rfl := Option.some.inj (hf.symm.trans (h.get hget))
      exact hframe f rfl
    · cases object with
      | frame frame =>
        refine (reads_get _).bind fun _ => (reads_expect _ _ _).bind fun _ =>
          (onMachine_stays _).bind fun res => ?_
        cases res with
        | ok _ =>
          refine (putHandle_stays _ _).bind fun _ => fun k' h' => ?_
          rw [Leaves, sat_expectOk]
          exact (copyValToUser_stays _ _ k' h').mono (fun _ _ hq => hq) fun _ _ hq => hq
        | error err =>
          exact (putHandle_stays _ _).bind fun _ => (reads_expect _ _ _).bind fun _ =>
            mapFailure_reads _ _
      | addressSpace _ => exact reads_stop _ _
      | mapping _ _ _ => exact reads_stop _ _
      | thread _ => exact reads_stop _ _

theorem sysUnmap_leaves {id : ℕ} (hother : k.sched.current = some t → id ≠ i)
    (h : k.Has t i handle) : (sysUnmap id).Leaves (Kernel.Has t i handle) k := by
  rw [sysUnmap]
  refine selfTask_then h fun cur task hcur hget => ?_
  cases htake : HandleTable.take task.handles id with
  | none => exact h
  | some pair =>
    obtain ⟨⟨object, rights⟩, handles⟩ := pair
    refine (take_has hcur hget htake ?_ h).bind fun _ => ?_
    · rintro ⟨rfl, hi⟩
      exact hother hcur hi
    · cases object with
      | mapping frame asId va =>
        refine (reads_get _).bind fun k => ?_
        split
        · exact (putHandle_stays _ _).bind fun _ => reads_stop _ _
        · refine (onMachine_stays _).bind fun res => ?_
          split
          · exact reads_stop _ _
          · refine (onMachine_stays _).bind fun _ => ?_
            split
            · exact (putHandle_stays _ _).bind fun _ => reads_pure _ _
            · exact reads_stop _ _
      | frame _ | addressSpace _ | thread _ =>
        exact (putHandle_stays _ _).bind fun _ => (reads_expect _ _ _).bind fun _ =>
          reads_stop _ _

end Handles

section Create

theorem checkTaskCreate_reads (asHandle entry userStack outTaskHandle : ℕ) :
    (checkTaskCreate asHandle entry userStack outTaskHandle).Reads := by
  refine (require_reads _ _).bind fun _ => (require_reads _ _).bind fun _ =>
    (require_reads _ _).bind fun _ => selfTask_reads.bind fun task =>
    (validateUserRange_reads _ _ _ _).bind fun _ => ?_
  have hhandles : (checkTaskHandles task asHandle).Reads := by
    rw [checkTaskHandles]
    split
    · exact reads_stop _
    · split
      · exact (require_reads _ _).bind fun _ => reads_pure _
      · exact reads_stop _
  refine hhandles.bind fun asId => reads_get.bind fun _ => (require_reads _ _).bind fun _ => ?_
  split
  · exact reads_stop _
  · refine (validateUserRange_reads _ _ _ _).bind fun _ => reads_get.bind fun _ => ?_
    split
    · exact reads_stop _
    · exact (require_reads _ _).bind fun _ => reads_pure _

theorem allocateKernelStack_stays (space : AddressSpace) :
    (allocateKernelStack space).Stays (Kernel.Has t i handle) :=
  (reads_get _).bind fun _ => (onMachine_stays _).bind fun res =>
    (modifySched_stays (f := fun s => { s with stackPool := res.1 }) fun _ => rfl).bind fun _ =>
      reads_pure _ _

theorem kernelAddressSpace_reads : kernelAddressSpace.Reads :=
  reads_get.bind fun _ => reads_expect _ _

/-- A new task takes a slot that nobody is in. -/
theorem addTask_has (task : Tcb) (h : k.Has t i handle) :
    (addTask task).Sat k (fun res k' => k'.Has t i handle ∧ ∀ id, res = .ok id → id ≠ t)
      (fun _ => Kernel.Has t i handle) := by
  simp only [addTask, sat_bind, sat_get]
  cases hfirst : k.sched.tasks.firstEmpty with
  | none => exact ⟨h, fun _ hid => by cases hid⟩
  | some id =>
    obtain ⟨hlt, hempty⟩ := Slots.firstEmpty_some hfirst
    have hne : id ≠ t := by
      rintro rfl
      rw [Kernel.Has, Kernel.handleAt, hempty] at h
      cases h
    dsimp only
    cases HandleTable.push task.handles
        ⟨.thread id, Rights.READ ||| Rights.WRITE ||| Rights.EXECUTE⟩ with
    | none => exact h
    | some pushed =>
      obtain ⟨j, handles⟩ := pushed
      have hpush : (pushReady id).Stays (Kernel.Has t i handle) := pushReady_stays id
      simp only [sat_bind, sat_setTask]
      refine (hpush _ ?_).mono (fun _ _ h' => ⟨h', fun id' hid => ?_⟩) fun _ _ h' => h'
      · rw [Kernel.Has, Kernel.handleAt, Slots.get_set_of_ne _ hne.symm]
        exact h
      · cases hid
        exact hne

theorem discard_stays {id : ℕ} (hne : id ≠ t) :
    (setTask id none).Stays (Kernel.Has t i handle) := by
  intro k h
  rw [Leaves, sat_setTask, Kernel.Has, Kernel.handleAt, Slots.get_set_of_ne _ hne.symm]
  exact h

theorem removeTask_stays {id : ℕ} (hne : id ≠ t) :
    (removeTask id).Stays (Kernel.Has t i handle) := by
  refine (reads_get _).bind fun k => ?_
  split
  · exact reads_pure _ _
  · cases k.sched.tasks.get id with
    | none => exact reads_pure _ _
    | some task =>
      refine (discard_stays hne).bind fun _ =>
        (modifySched_stays (f := fun s => { s with ready := (s.ready.remove id).2 })
          fun _ => rfl).bind fun _ => (kernelAddressSpace_reads _).bind fun space =>
        (onMachine_stays _).bind fun pool => ?_
      exact (modifySched_stays (f := fun s => { s with stackPool := pool }) fun _ => rfl).bind
        fun _ => reads_pure _ _

theorem sysTaskCreate_stays (asHandle entry userStack outTaskHandle : ℕ) :
    (sysTaskCreate asHandle entry userStack outTaskHandle).Stays (Kernel.Has t i handle) := by
  refine (checkTaskCreate_reads _ _ _ _ _).bind fun asId =>
    (kernelAddressSpace_reads _).bind fun kernelAs =>
    (allocateKernelStack_stays _).bind fun res => ?_
  cases res with
  | error _ => exact reads_stop _ _
  | ok stack =>
    refine (reads_expect _ _ _).bind fun newTcb => fun k h => ?_
    rw [Leaves, sat_bind]
    refine (addTask_has newTcb h).mono ?_ fun _ _ h' => h'
    rintro res k' ⟨h', hne⟩
    cases res with
    | error _ => exact h'
    | ok id =>
      refine selfTask_then h' fun cur task hcur hget => ?_
      cases hpush : HandleTable.push task.handles
          ⟨.thread id, Rights.READ ||| Rights.WRITE ||| Rights.EXECUTE⟩ with
      | none => exact ((removeTask_stays (hne id rfl)).bind fun _ => reads_stop _ _) k' h'
      | some pushed => exact handOver_has hcur hget hpush h'

end Create

section Moves

/-- The current task unmaps the handle in slot `i`, and it is the task `t`. -/
def Action.Unmaps (t i : ℕ) : Action → Kernel → Prop
  | .syscall a, k => k.sched.current = some t ∧
      SyscallNumber.tryFrom a.num.toNat = some .unmap ∧ a.arg0.toNat = i
  | _, _ => False

variable (hinv : KInv B L k)

include hinv

theorem exitCurrent_leaves {α : Type} (reason : ExitReason) (h : k.Has t i handle) :
    (exitCurrent reason : KM α).Leaves (Kernel.Has t i handle) k := by
  obtain ⟨cur, task, hrun⟩ := hinv.tasks.current
  refine exitCurrent_sat hinv.tasks.sched hrun.current reason (fun _ => h) fun _ k' hsw => ?_
  exact (hsw.handleAt t i).trans h

theorem sysYield_leaves (h : k.Has t i handle) : sysYield.Leaves (Kernel.Has t i handle) k := by
  obtain ⟨cur, task, hrun⟩ := hinv.tasks.current
  refine yieldCurrent_sat hinv.tasks.sched hrun.current (fun _ => h) fun _ k' hsw => ?_
  exact (hsw.handleAt t i).trans h

theorem sysRecv_leaves (args : RecvArgs) (h : k.Has t i handle) :
    (sysRecv args).Leaves (Kernel.Has t i handle) k := by
  obtain ⟨cur, task, hrun⟩ := hinv.tasks.current
  refine (require_reads _ _).then h fun _ => selfTask_reads.then h fun receiver => ?_
  split
  · refine blockCurrent_sat hinv.tasks.sched hrun.current _ _ (fun _ => h) fun _ k' hsw => ?_
    exact (hsw.handleAt t i).trans h
  · exact sysRecvTail_stays args k h

theorem userStore_leaves (address : ℕ) (value : Byte) (h : k.Has t i handle) :
    (userStore address value).Leaves (Kernel.Has t i handle) k := by
  rw [userStore]
  refine reads_get.then h fun k₁ => ?_
  dsimp only
  split
  · exact onMachine_stays _ k h
  · exact exitCurrent_leaves hinv _ h

variable (hframe : ∀ f, handle.object ≠ .frame f)

include hframe

theorem dispatch_leaves {a : SyscallArgs} (hunmap : ¬ (Action.syscall a).Unmaps t i k)
    (h : k.Has t i handle) : (dispatch a).Leaves (Kernel.Has t i handle) k := by
  rw [dispatch]
  cases hnum : SyscallNumber.tryFrom a.num.toNat with
  | none => exact exitCurrent_leaves hinv _ h
  | some number =>
    cases number with
    | yield => exact sysYield_leaves hinv h
    | exit => exact exitCurrent_leaves hinv _ h
    | write => exact sysWrite_stays _ _ _ _ k h
    | send => exact sysSend_stays _ _ _ k h
    | recv => exact sysRecv_leaves hinv _ h
    | frameAlloc => exact sysFrameAlloc_stays _ k h
    | frameDealloc => exact sysFrameDealloc_leaves hinv hframe _ h
    | asCreate => exact sysAsCreate_stays _ k h
    | map => exact sysMap_leaves hframe _ _ _ _ _ k h
    | unmap => exact sysUnmap_leaves (fun hcur hi => hunmap ⟨hcur, hnum, hi⟩) h
    | taskCreate => exact sysTaskCreate_stays _ _ _ _ k h

/-- However a move ends, a handle other than a frame stays where it is. -/
theorem program_leaves {a : Action} (hunmap : ¬ a.Unmaps t i k) (h : k.Has t i handle) :
    a.program.Leaves (Kernel.Has t i handle) k := by
  cases a with
  | syscall args =>
    exact (dispatch_leaves hinv hframe hunmap h).bind (fun _ => reads_pure _ _) |>.catching.bind
      fun _ => reads_pure _ _
  | fault f => exact (exitCurrent_leaves hinv _ h).bind fun _ => reads_pure _ _
  | store address value =>
    exact (userStore_leaves hinv address value h).bind fun _ => reads_pure _ _
  | resume =>
    refine ((reads_get _).bind fun k => ?_ : resumeContext.Stays _) k h
    cases k.pending with
    | none => exact reads_pure _ _
    | some context =>
      refine (stays_modify fun _ h => has_same (by rfl) h).bind fun _ => ?_
      cases context with
      | userEntry _ _ => exact reads_pure _ _
      | afterYield => exact reads_pure _ _
      | afterRecvBlock args =>
        refine Stays.bind (fun k h => ?_) fun _ => reads_pure _ _
        exact ((sysRecvTail_stays args k h).bind fun _ => reads_pure _ _).catching
      | afterExit => exact reads_stop _ _

theorem step_keeps {a : Action} {done : Option Completion} (hs : step a k = some (k', done))
    (hunmap : ¬ a.Unmaps t i k) (h : k.Has t i handle) : k'.Has t i handle := by
  have hprog := program_leaves hinv hframe hunmap h
  rw [Leaves, sat_iff] at hprog
  rw [step] at hs
  split_ifs at hs
  split at hs
  next call code k₁ hr =>
    cases hs
    exact hprog.1 _ _ hr
  next k₁ hr =>
    cases hs
    exact hprog.1 _ _ hr
  next k₁ hr =>
    cases hs
    exact hprog.2 _ _ hr
  next => cases hs

end Moves

end Dusk
