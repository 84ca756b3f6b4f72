import Dusk.Proofs.TaskResources
import Dusk.Proofs.Sched
import Dusk.Lib.Ring

/-! The invariant of the running kernel: who holds which frames, what the tasks wait
for, whose address space is active, and what has been recorded. -/

namespace Dusk

open Lib Radix

/-- The messages of a mailbox, oldest first. -/
def Mailbox.queue (b : Mailbox) : List Message :=
  (ringList MAILBOX_CAPACITY b.messages b.head b.len).filterMap id

structure Mailbox.Ok (b : Mailbox) : Prop where
  head : b.head < MAILBOX_CAPACITY
  len : b.len ≤ MAILBOX_CAPACITY
  full : ∀ i < b.len, ∃ msg, b.messages ((b.head + i) % MAILBOX_CAPACITY) = some msg ∧
    msg.length ≤ MAX_MSG_SIZE

namespace Mailbox

theorem Ok.new : Mailbox.new.Ok := ⟨by decide, by decide, fun i hi => absurd hi (by simp [Mailbox.new])⟩

theorem push_full {b : Mailbox} (h : b.len = MAILBOX_CAPACITY) (msg : Message) :
    b.push msg = (false, b) := by
  rw [push, if_pos h]

theorem Ok.push {b : Mailbox} (hb : b.Ok) (h : b.len ≠ MAILBOX_CAPACITY) {msg : Message}
    (hmsg : msg.length ≤ MAX_MSG_SIZE) :
    (b.push msg).1 = true ∧ (b.push msg).2.Ok ∧ (b.push msg).2.queue = b.queue ++ [msg] ∧
      (b.push msg).2.len = b.len + 1 := by
  have hlen : b.len < MAILBOX_CAPACITY := lt_of_le_of_ne hb.len h
  rw [Mailbox.push, if_neg h]
  refine ⟨rfl, ⟨hb.head, hlen, ?_⟩, ?_, rfl⟩
  · intro i hi
    by_cases hil : i = b.len
    · refine ⟨msg, ?_, hmsg⟩
      simp [hil]
    · have hi' : i < b.len := by
        simp only at hi
        omega
      obtain ⟨old, hold, hlen'⟩ := hb.full i hi'
      refine ⟨old, ?_, hlen'⟩
      simp only
      rw [Function.update_of_ne, hold]
      intro he
      exact hil (ring_slot_inj (by omega) hlen he)
  · simp only [queue]
    rw [ringList_push _ _ _ _ hlen, List.filterMap_append]
    rfl

theorem Ok.pop {b : Mailbox} (hb : b.Ok) (h : b.len ≠ 0) :
    ∃ msg, b.pop.1 = some msg ∧ msg.length ≤ MAX_MSG_SIZE ∧ b.pop.2.Ok ∧
      b.queue = msg :: b.pop.2.queue := by
  obtain ⟨n, hn⟩ := Nat.exists_eq_succ_of_ne_zero h
  have hlen := hb.len
  obtain ⟨msg, hmsg, hle⟩ := hb.full 0 (by omega)
  have hhead : b.messages b.head = some msg := by
    rwa [Nat.add_zero, Nat.mod_eq_of_lt hb.head] at hmsg
  rw [Mailbox.pop, if_neg h]
  refine ⟨msg, hhead, hle, ⟨Nat.mod_lt _ (by decide), by simp only; omega, ?_⟩, ?_⟩
  · intro i hi
    simp only at hi ⊢
    obtain ⟨next, hnext, hle'⟩ := hb.full (i + 1) (by omega)
    refine ⟨next, ?_, hle'⟩
    rw [Nat.mod_add_mod, Nat.add_assoc, Nat.add_comm 1 i]
    exact hnext
  · have hn' : b.len - 1 = n := by omega
    simp only [queue, hn']
    rw [hn, ringList_pop, Nat.mod_eq_of_lt hb.head, hhead]
    rfl

theorem Ok.queue_length {b : Mailbox} (hb : b.Ok) : b.queue = [] ↔ b.len = 0 := by
  constructor
  · intro hq
    by_contra hne
    obtain ⟨msg, _, _, _, hcons⟩ := hb.pop hne
    rw [hq] at hcons
    cases hcons
  · intro hlen
    simp [queue, hlen]

end Mailbox

/-- A saved context that can be continued with this mailbox. -/
def Resumable (c : ThreadContext) (b : Mailbox) : Prop :=
  match c with
  | .afterExit => False
  | .afterRecvBlock args => args.outPtr ≠ 0 ∧ b.len ≠ 0
  | .userEntry _ _ | .afterYield => True

/-- What a task that is not running waits for. -/
def Tcb.Suspended (t : Tcb) : Prop :=
  match t.state with
  | .ready => Resumable t.context t.mailbox
  | .blocked .recv => (∃ args, t.context = .afterRecvBlock args ∧ args.outPtr ≠ 0) ∧
      t.mailbox.len = 0
  | .running | .dead _ => True

/-- The current task's address space and kernel stack are installed. -/
def CpuInv (k : Kernel) : Prop :=
  ∃ cur task, k.sched.current = some cur ∧ k.sched.tasks.get cur = some task ∧
    k.rootOf task.asId = some k.machine.cr3 ∧ k.machine.kernelStackTop = task.kernelStack.top

structure TasksInv (k : Kernel) : Prop where
  sched : SchedInv k.sched
  cpu : CpuInv k
  homes : ∀ t task, k.sched.tasks.get t = some task → ∃ r, k.rootOf task.asId = some r
  mail : ∀ t task, k.sched.tasks.get t = some task → task.mailbox.Ok
  suspended : ∀ t task, k.sched.tasks.get t = some task → task.Suspended
  pending : ∀ c cur task, k.pending = some c → k.sched.current = some cur →
    k.sched.tasks.get cur = some task → Resumable c task.mailbox

/-- The current task's address space was active, and each byte was in a page the task
may access this way. -/
def UserAccess.Ok (a : UserAccess) : Prop :=
  ∃ space, a.space = some space ∧ space.root = a.machine.table a.machine.cr3 ∧
    ∀ i < a.length, a.address + i < USER_SPACE_END ∧
      (space.mapping a.machine.mem (a.address + i)).any
        (fun p => p.userAccessible && (!a.write || p.writable)) = true

/-- No cached translation of the page leads to its old frame. -/
def HandBack.Clean (b : HandBack) : Prop := ∀ t ∈ b.tlb, t.page = b.page → t.frame ≠ b.frame

structure LogInv (k : Kernel) : Prop where
  accesses : ∀ a ∈ k.accesses, a.Ok
  handBacks : ∀ b ∈ k.machine.handBacks, b.page < USER_SPACE_END → b.Clean

/-- Handles name tasks that exist, and the first two handles of a task name its address
space and the task itself. -/
structure HandlesInv (k : Kernel) : Prop where
  threads : ∀ t i id rights, k.handleAt t i = some ⟨.thread id, rights⟩ →
    ∃ task, k.sched.tasks.get id = some task
  self : ∀ t task, k.sched.tasks.get t = some task →
    k.handleAt t 0 = some ⟨.addressSpace task.asId, Rights.READ ||| Rights.WRITE ||| Rights.EXECUTE⟩ ∧
    k.handleAt t 1 = some ⟨.thread t, Rights.READ ||| Rights.WRITE ||| Rights.EXECUTE⟩

structure KInv (B : BootPages) (L : Layout) (k : Kernel) : Prop where
  res : ResInv B L k
  tasks : TasksInv k
  handles : HandlesInv k
  logs : LogInv k

variable {B : BootPages} {L L' : Layout} {k k' : Kernel}

/-- A task without its handles. -/
def Tcb.strip (t : Tcb) : Tcb := { t with handles := HandleTable.new }

/-- Nothing but handles differs between the tasks. -/
def SameCores (k k' : Kernel) : Prop :=
  ∀ i, (k'.sched.tasks.get i).map Tcb.strip = (k.sched.tasks.get i).map Tcb.strip

theorem SameCores.get (h : SameCores k k') {i : ℕ} {t' : Tcb}
    (ht : k'.sched.tasks.get i = some t') :
    ∃ t, k.sched.tasks.get i = some t ∧ t' = { t with handles := t'.handles } := by
  have := h i
  rw [ht] at this
  cases hk : k.sched.tasks.get i with
  | none => rw [hk] at this; cases this
  | some t =>
    rw [hk] at this
    refine ⟨t, rfl, ?_⟩
    have hstrip : t'.strip = t.strip := by simpa using this
    obtain ⟨id, asId, state, kernelStack, context, mailbox, handles⟩ := t
    obtain ⟨id', asId', state', kernelStack', context', mailbox', handles'⟩ := t'
    simp only [Tcb.strip, Tcb.mk.injEq] at hstrip ⊢
    simp [hstrip]

theorem SameCores.symm (h : SameCores k k') : SameCores k' k := fun i => (h i).symm

theorem SameCores.trans {k'' : Kernel} (h : SameCores k k') (h' : SameCores k' k'') :
    SameCores k k'' := fun i => (h' i).trans (h i)

theorem SameCores.stackOf (h : SameCores k k') (t : ℕ) : k'.stackOf t = k.stackOf t := by
  have := congrArg (Option.map Tcb.kernelStack) (h t)
  simpa [Kernel.stackOf, Option.map_map, Function.comp_def, Tcb.strip] using this

theorem SameCores.stateOf (h : SameCores k k') (t : ℕ) :
    k'.sched.stateOf t = k.sched.stateOf t := by
  have := congrArg (Option.map Tcb.state) (h t)
  simpa [Scheduler.stateOf, Option.map_map, Function.comp_def, Tcb.strip] using this

/-- The tasks do not notice changes of handles and memory. -/
theorem TasksInv.congr (h : TasksInv k) (hcr3 : k'.machine.cr3 = k.machine.cr3)
    (htop : k'.machine.kernelStackTop = k.machine.kernelStackTop)
    (hroot : ∀ id r, k.rootOf id = some r → k'.rootOf id = some r)
    (hcur : k'.sched.current = k.sched.current) (hready : k'.sched.ready = k.sched.ready)
    (hpending : k'.pending = k.pending) (hcores : SameCores k k') : TasksInv k' := by
  refine ⟨?_, ?_, ?_, ?_, ?_, ?_⟩
  · refine h.sched.congr hready hcur hcores.stateOf ?_
    intro i t ht
    obtain ⟨t₀, h₀, he⟩ := hcores.get ht
    rw [he]
    exact h.sched.ids i t₀ h₀
  · obtain ⟨cur, task, hc, ht, hr, hk⟩ := h.cpu
    obtain ⟨task', ht', he⟩ := hcores.symm.get ht
    refine ⟨cur, task', by rw [hcur, hc], ht', ?_, ?_⟩
    · rw [hcr3]
      rw [he] at hr
      exact hroot _ _ hr
    · rw [htop, hk, he]
  · intro t task ht
    obtain ⟨t₀, h₀, he⟩ := hcores.get ht
    obtain ⟨r, hr⟩ := h.homes t t₀ h₀
    rw [he]
    exact ⟨r, hroot _ _ hr⟩
  · intro t task ht
    obtain ⟨t₀, h₀, he⟩ := hcores.get ht
    rw [he]
    exact h.mail t t₀ h₀
  · intro t task ht
    obtain ⟨t₀, h₀, he⟩ := hcores.get ht
    rw [he]
    exact h.suspended t t₀ h₀
  · intro c cur task hp hc ht
    obtain ⟨t₀, h₀, he⟩ := hcores.get ht
    rw [he]
    exact h.pending c cur t₀ (by rw [← hpending, hp]) (by rw [← hcur, hc]) h₀

theorem SameCores.homes (h : SameCores k k') (t : ℕ) :
    (k'.sched.tasks.get t).map Tcb.asId = (k.sched.tasks.get t).map Tcb.asId := by
  have := congrArg (Option.map Tcb.asId) (h t)
  simpa [Option.map_map, Function.comp_def, Tcb.strip] using this

/-- Handles that name tasks and address spaces stay. -/
theorem HandlesInv.congr (h : HandlesInv k)
    (hhomes : ∀ t, (k'.sched.tasks.get t).map Tcb.asId = (k.sched.tasks.get t).map Tcb.asId)
    (hthread : ∀ t i id rights, k'.handleAt t i = some ⟨.thread id, rights⟩ ↔
      k.handleAt t i = some ⟨.thread id, rights⟩)
    (hspace : ∀ t i id rights, k.handleAt t i = some ⟨.addressSpace id, rights⟩ →
      k'.handleAt t i = some ⟨.addressSpace id, rights⟩) : HandlesInv k' := by
  refine ⟨?_, ?_⟩
  · intro t i id rights hh
    obtain ⟨task, ht⟩ := h.threads t i id rights ((hthread t i id rights).mp hh)
    have hid := hhomes id
    rw [ht, Option.map_some] at hid
    obtain ⟨task', ht', _⟩ := Option.map_eq_some_iff.mp hid
    exact ⟨task', ht'⟩
  · intro t task ht
    have hid := hhomes t
    rw [ht, Option.map_some] at hid
    obtain ⟨task₀, ht₀, has⟩ := Option.map_eq_some_iff.mp hid.symm
    obtain ⟨h0, h1⟩ := h.self t task₀ ht₀
    rw [← has]
    exact ⟨hspace t 0 _ _ h0, (hthread t 1 _ _).mpr h1⟩

/-- One slot changes that names neither a task nor an address space, and that does not
come to name a task. -/
theorem HandlesInv.setHandle (h : HandlesInv k) (hcores : SameCores k k') {t i : ℕ}
    {new : Option Handle}
    (hhandles : ∀ t' i', k'.handleAt t' i' =
      if t' = t ∧ i' = i then new else k.handleAt t' i')
    (hthread : ∀ id rights, k.handleAt t i ≠ some ⟨.thread id, rights⟩)
    (hspace : ∀ id rights, k.handleAt t i ≠ some ⟨.addressSpace id, rights⟩)
    (hnew : ∀ id rights, new ≠ some ⟨.thread id, rights⟩) : HandlesInv k' := by
  refine h.congr hcores.homes ?_ ?_
  · intro t' i' id rights
    rw [hhandles]
    split_ifs with he
    · obtain ⟨rfl, rfl⟩ := he
      exact ⟨fun hn => absurd hn (hnew _ _), fun ho => absurd ho (hthread _ _)⟩
    · exact Iff.rfl
  · intro t' i' id rights hh
    rw [hhandles, if_neg ?_]
    · exact hh
    · rintro ⟨rfl, rfl⟩
      exact hspace _ _ hh

/-- An empty slot comes to name a task. -/
theorem HandlesInv.addThread (h : HandlesInv k) (hcores : SameCores k k') {t i id : ℕ}
    {rights : Rights} {task : Tcb}
    (hhandles : ∀ t' i', k'.handleAt t' i' =
      if t' = t ∧ i' = i then some ⟨.thread id, rights⟩ else k.handleAt t' i')
    (hempty : k.handleAt t i = none) (hid : k.sched.tasks.get id = some task) :
    HandlesInv k' := by
  have hkeep : ∀ t' i' handle, k.handleAt t' i' = some handle → k'.handleAt t' i' = some handle := by
    intro t' i' handle hh
    rw [hhandles, if_neg, hh]
    rintro ⟨rfl, rfl⟩
    rw [hempty] at hh
    cases hh
  have hexists : ∀ j task, k.sched.tasks.get j = some task →
      ∃ task', k'.sched.tasks.get j = some task' := by
    intro j task hj
    obtain ⟨task', hj', _⟩ := hcores.symm.get hj
    exact ⟨task', hj'⟩
  refine ⟨?_, ?_⟩
  · intro t' i' id' rights' hh
    rw [hhandles] at hh
    split_ifs at hh
    · cases hh
      exact hexists _ _ hid
    · obtain ⟨task', ht'⟩ := h.threads t' i' id' rights' hh
      exact hexists _ _ ht'
  · intro j task' hj
    obtain ⟨task₀, hj₀, he⟩ := hcores.get hj
    obtain ⟨h0, h1⟩ := h.self j task₀ hj₀
    rw [he]
    exact ⟨hkeep _ _ _ h0, hkeep _ _ _ h1⟩

theorem HandlesInv.same (h : HandlesInv k)
    (hhomes : ∀ t, (k'.sched.tasks.get t).map Tcb.asId = (k.sched.tasks.get t).map Tcb.asId)
    (hhandles : ∀ t i, k'.handleAt t i = k.handleAt t i) : HandlesInv k' :=
  h.congr hhomes (fun t i _ _ => by rw [hhandles]) (fun t i _ _ hh => by rw [hhandles, hh])

theorem LogInv.congr (h : LogInv k) (ha : k'.accesses = k.accesses)
    (hb : k'.machine.handBacks = k.machine.handBacks) : LogInv k' :=
  ⟨by rw [ha]; exact h.accesses, by rw [hb]; exact h.handBacks⟩

/-- Write the control block of a task. -/
def Kernel.putTask (k : Kernel) (id : ℕ) (t : Tcb) : Kernel :=
  { k with sched := { k.sched with tasks := k.sched.tasks.set id (some t) } }

namespace Kernel

variable {id : ℕ} {task new : Tcb}

theorem putTask_get (hid : k.sched.tasks.get id = some task) (i : ℕ) :
    (k.putTask id new).sched.tasks.get i =
      if i = id then some new else k.sched.tasks.get i :=
  Slots.get_set _ (Slots.lt_of_get hid) _ _

/-- A slot of the handle table of a task is written. -/
theorem putTask_handleAt (hid : k.sched.tasks.get id = some task) {i : ℕ} (hi : i < MAX_HANDLES)
    (v : Option Handle) (t j : ℕ) :
    (k.putTask id { task with handles := task.handles.set i v }).handleAt t j =
      if t = id ∧ j = i then v else k.handleAt t j := by
  rw [handleAt, putTask_get hid]
  by_cases ht : t = id
  · subst ht
    rw [if_pos rfl, Option.bind_some, Slots.get_set _ hi, handleAt, hid]
    by_cases hj : j = i <;> simp [hj]
  · rw [if_neg ht, if_neg (fun h => ht h.1), handleAt]

theorem putTask_cores (hid : k.sched.tasks.get id = some task) (handles : HandleTable) :
    SameCores k (k.putTask id { task with handles }) := by
  intro i
  rw [putTask_get hid]
  by_cases hi : i = id
  · rw [hi, if_pos rfl, hid]
    rfl
  · rw [if_neg hi]

theorem putTask_holders (hid : k.sched.tasks.get id = some task) (handles : HandleTable) :
    SameHolders k (k.putTask id { task with handles }) :=
  ⟨rfl, rfl, (putTask_cores hid handles).stackOf, rfl⟩

end Kernel

end Dusk
