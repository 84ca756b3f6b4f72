import Dusk.Proofs.MapCalls

/-! `sys_send` and `sys_recv`: what becomes of the messages, and what a receiver finds
in its buffers. -/

namespace Dusk

open Lib Radix Scheduler

variable {B : BootPages} {L L' : Layout} {k k' : Kernel} {null : Prop}

/-- The invariant holds again, and the kernel's tables are as before. -/
def Kept (B : BootPages) (L : Layout) (k k' : Kernel) : Prop :=
  ∃ L', KInv B L' k' ∧ Calm L k L' k'

theorem After.kept (h : After B L k k') : Kept B L k k' := by
  obtain ⟨L', hinv, hcalm, _⟩ := h
  exact ⟨L', hinv, hcalm⟩

theorem Kept.trans {L' : Layout} {k'' : Kernel} (hc : Calm L k L' k')
    (hcur : k'.sched.current = k.sched.current) (h : Kept B L' k' k'') : Kept B L k k'' := by
  obtain ⟨L'', hinv, hc'⟩ := h
  exact ⟨L'', hinv, hc.trans hc' hcur⟩

/-- A task keeps its handles. -/
theorem handleAt_retask {i : ℕ} {t t' : Tcb} {ready : ReadyQueue}
    (hget : k.sched.tasks.get i = some t) (hhandles : t'.handles = t.handles)
    (hk' : k' = { k with
      sched := { k.sched with tasks := k.sched.tasks.set i (some t'), ready } }) (j n : ℕ) :
    k'.handleAt j n = k.handleAt j n := by
  have hgets : k'.sched.tasks.get j = if j = i then some t' else k.sched.tasks.get j := by
    rw [hk']
    exact Slots.get_set _ (Slots.lt_of_get hget) _ _
  rw [Kernel.handleAt, Kernel.handleAt, hgets]
  split_ifs with hj
  · rw [hj, hget]
    simp [hhandles]
  · rfl

theorem Calm.retask {i : ℕ} {t : Tcb} (t' : Tcb) {ready : ReadyQueue}
    (hget : k.sched.tasks.get i = some t) (hhandles : t'.handles = t.handles)
    (hk' : k' = { k with
      sched := { k.sched with tasks := k.sched.tasks.set i (some t'), ready } }) :
    Calm L k L k' :=
  Calm.same (by rw [hk']) (by rw [hk']) (by rw [hk'])
    (.same (by rw [hk']) (handleAt_retask hget hhandles hk'))

/-- A task gets another mailbox, state or context. -/
theorem KInv.retask (h : KInv B L k) {i : ℕ} {t : Tcb} (t' : Tcb) {ready : ReadyQueue}
    (hget : k.sched.tasks.get i = some t) (hhandles : t'.handles = t.handles)
    (hstack : t'.kernelStack = t.kernelStack) (has : t'.asId = t.asId) (hmail : t'.mailbox.Ok)
    (hsus : t'.Suspended)
    (hpend : ∀ c, k.pending = some c → k.sched.current = some i → Resumable c t'.mailbox)
    (hk' : k' = { k with
      sched := { k.sched with tasks := k.sched.tasks.set i (some t'), ready } })
    (hs : SchedInv k'.sched) : KInv B L k' := by
  have hgets : ∀ j, k'.sched.tasks.get j = if j = i then some t' else k.sched.tasks.get j := by
    intro j
    rw [hk']
    exact Slots.get_set _ (Slots.lt_of_get hget) _ _
  have hall : ∀ j u, k'.sched.tasks.get j = some u → (j = i ∧ u = t') ∨
      (j ≠ i ∧ k.sched.tasks.get j = some u) := by
    intro j u hu
    rw [hgets] at hu
    split_ifs at hu with hj
    · cases hu
      exact .inl ⟨hj, rfl⟩
    · exact .inr ⟨hj, hu⟩
  have hat := handleAt_retask hget hhandles hk'
  refine ⟨?_, ⟨hs, ?_, ?_, ?_, ?_, ?_⟩, h.handles.same ?_ hat, ?_⟩
  · refine h.res.quiet (by rw [hk']; exact h.res.mem) (by rw [hk']; exact ⟨rfl, rfl⟩)
      (by rw [hk']) ⟨by rw [hk'], by rw [hk'], ?_, by rw [hk']⟩ hat
    intro j
    rw [Kernel.stackOf, Kernel.stackOf, hgets]
    split_ifs with hj
    · rw [hj, hget]
      exact congrArg some hstack
    · rfl
  · obtain ⟨cur, task, hc, ht, hr, htop⟩ := h.tasks.cpu
    by_cases hci : cur = i
    · subst hci
      rw [hget] at ht
      cases ht
      refine ⟨cur, t', by rw [hk', hc], by rw [hgets, if_pos rfl], ?_, ?_⟩
      · rw [has, hk']
        exact hr
      · rw [hstack, hk', htop]
    · refine ⟨cur, task, by rw [hk', hc], by rw [hgets, if_neg hci, ht], ?_, ?_⟩
      · rw [hk']
        exact hr
      · rw [hk', htop]
  · intro j u hu
    rcases hall j u hu with ⟨rfl, rfl⟩ | ⟨_, hu⟩
    · rw [has, hk']
      exact h.tasks.homes j t hget
    · rw [hk']
      exact h.tasks.homes j u hu
  · intro j u hu
    rcases hall j u hu with ⟨rfl, rfl⟩ | ⟨_, hu⟩
    · exact hmail
    · exact h.tasks.mail j u hu
  · intro j u hu
    rcases hall j u hu with ⟨rfl, rfl⟩ | ⟨_, hu⟩
    · exact hsus
    · exact h.tasks.suspended j u hu
  · intro c cur u hp hc hu
    rw [hk'] at hp hc
    rcases hall cur u hu with ⟨rfl, rfl⟩ | ⟨_, hu⟩
    · exact hpend c hp hc
    · exact h.tasks.pending c cur u hp hc hu
  · intro j
    rw [hgets]
    split_ifs with hj
    · rw [hj, hget]
      exact congrArg some has
    · rfl
  · exact h.logs.congr (by rw [hk']) (by rw [hk'])

/-- The mail after a task has got another control block. -/
theorem mailOf_set {i : ℕ} {t : Tcb} (t' : Tcb) {ready : ReadyQueue}
    (hget : k.sched.tasks.get i = some t)
    (hk' : k' = { k with
      sched := { k.sched with tasks := k.sched.tasks.set i (some t'), ready } }) (j : ℕ) :
    k'.mailOf j = if j = i then t'.mailbox.queue else k.mailOf j := by
  have hget' : k'.sched.tasks.get j = if j = i then some t' else k.sched.tasks.get j := by
    rw [hk']
    exact Slots.get_set _ (Slots.lt_of_get hget) _ _
  rw [Kernel.mailOf, hget']
  split_ifs <;> rfl

theorem mailOf_get {i : ℕ} {t : Tcb} (hget : k.sched.tasks.get i = some t) :
    k.mailOf i = t.mailbox.queue := by
  rw [Kernel.mailOf, hget]
  rfl

theorem Calm.logged (write : Bool) (address length : ℕ) :
    Calm L k L (k.logged write address length) := Calm.same rfl rfl rfl (.tasks rfl rfl)

section Send

/-- The message that a send of the current task makes. -/
def Kernel.outgoing (k : Kernel) (sender msgPtr len : ℕ) : Message :=
  ⟨sender, len, fun i => ((k.machine.loadBytes msgPtr len).getD []).getD i 0⟩

/-- A message of the current task has come to the end of a mailbox. -/
def Sent (k : Kernel) (dest msgPtr len : ℕ) (k' : Kernel) : Prop :=
  ∃ sender, k.sched.current = some sender ∧
    (k.machine.loadBytes msgPtr len).map List.length = some len ∧
    ∀ t, k'.mailOf t =
      if t = dest then k.mailOf t ++ [k.outgoing sender msgPtr len] else k.mailOf t

theorem SchedInv.setMail {i : ℕ} {t : Tcb} (h : SchedInv k.sched)
    (hget : k.sched.tasks.get i = some t) (mailbox : Mailbox) :
    SchedInv (k.putTask i { t with mailbox }).sched := by
  refine h.congr rfl rfl ?_ ?_
  · intro j
    rw [Scheduler.stateOf, Scheduler.stateOf, Kernel.putTask_get hget]
    split_ifs with hj
    · rw [hj, hget]
      rfl
    · rfl
  · intro j u hu
    rw [Kernel.putTask_get hget] at hu
    split_ifs at hu with hj
    · cases hu
      rw [hj]
      exact h.ids i t hget
    · exact h.ids j u hu

theorem resumable_push {c : ThreadContext} {b b' : Mailbox} (h : Resumable c b)
    (hlen : b'.len ≠ 0) : Resumable c b' := by
  cases c with
  | userEntry _ _ => trivial
  | afterYield => trivial
  | afterRecvBlock args => exact ⟨h.1, hlen⟩
  | afterExit => exact h

/-- A task that does not wait for a message is not disturbed by one. -/
theorem Tcb.Suspended.push {t : Tcb} {b : Mailbox} (h : t.Suspended) (hlen : b.len ≠ 0)
    (hnot : t.state ≠ .blocked .recv) : Tcb.Suspended { t with mailbox := b } := by
  rw [Tcb.Suspended] at h ⊢
  cases hst : t.state with
  | ready =>
    rw [hst] at h
    simpa only [hst] using resumable_push h hlen
  | running => simp only
  | blocked reason =>
    cases reason
    exact absurd hst hnot
  | dead reason => simp only

/-- A task that waits for a message can be resumed with one. -/
theorem Tcb.Suspended.wake {t : Tcb} {b : Mailbox} (h : t.Suspended) (hlen : b.len ≠ 0)
    (hst : t.state = .blocked .recv) : Tcb.Suspended { t with mailbox := b, state := .ready } := by
  rw [Tcb.Suspended, hst] at h
  obtain ⟨⟨args, hargs, hne⟩, _⟩ := h
  rw [Tcb.Suspended]
  simp only [hargs]
  exact ⟨hne, hlen⟩

/-- What `sys_send` does with a message it has copied. -/
theorem deliver_sat {E : Stop → Kernel → Prop} {Q : Unit → Kernel → Prop} (h : KInv B L k)
    {dest : ℕ} {destTask : Tcb} {msg : Message} (hget : k.sched.tasks.get dest = some destTask)
    (hmsg : msg.length ≤ MAX_MSG_SIZE) (hfull : E (.status .outOfMemory) k)
    (hQ : ∀ k', KInv B L k' → Calm L k L k' →
      (∀ t, k'.mailOf t = if t = dest then k.mailOf t ++ [msg] else k.mailOf t) → Q () k') :
    (do
      setTask dest (some { destTask with mailbox := (destTask.mailbox.push msg).2 })
      require ((destTask.mailbox.push msg).1 = true) .outOfMemory
      if destTask.state = .blocked .recv then unblock dest else pure () : KM Unit).Sat k Q E := by
  have hbox := h.tasks.mail dest destTask hget
  have hsus := h.tasks.suspended dest destTask hget
  simp only [Prog.sat_bind, sat_setTask, sat_require]
  by_cases hlen : destTask.mailbox.len = MAILBOX_CAPACITY
  · rw [Mailbox.push_full hlen]
    refine ⟨fun hf => absurd hf (by simp), fun _ => ?_⟩
    have hsame : k.putTask dest destTask = k := putTask_self hget
    show E (.status .outOfMemory) (k.putTask dest destTask)
    rw [hsame]
    exact hfull
  · obtain ⟨hpushed, hok, hqueue, hlen'⟩ := hbox.push hlen hmsg
    obtain ⟨box, hb⟩ : ∃ box, box = (destTask.mailbox.push msg).2 := ⟨_, rfl⟩
    rw [← hb] at hok hqueue hlen' ⊢
    have hne : box.len ≠ 0 := by omega
    refine ⟨fun _ => ?_, fun hf => absurd hpushed hf⟩
    show (if _ then _ else _ : KM Unit).Sat (k.putTask dest { destTask with mailbox := box }) Q E
    have hsched := h.tasks.sched.setMail hget box
    have hmail : ∀ {t' : Tcb} {k' : Kernel} {ready : ReadyQueue}, t'.mailbox = box →
        k' = { k with sched := { k.sched with tasks := k.sched.tasks.set dest (some t'), ready } } →
        ∀ t, k'.mailOf t = if t = dest then k.mailOf t ++ [msg] else k.mailOf t := by
      intro t' k' ready hbox' hk' t
      rw [mailOf_set t' hget hk', hbox', hqueue]
      split_ifs with ht
      · rw [ht, mailOf_get hget]
      · rfl
    rw [Prog.sat_ite]
    refine ⟨fun hst => ?_, fun hst => ?_⟩
    · have hget' : (k.putTask dest { destTask with mailbox := box }).sched.tasks.get dest =
          some { destTask with mailbox := box } := by
        rw [Kernel.putTask_get hget, if_pos rfl]
      refine unblock_sat hsched (Slots.lt_of_get hget) ?_ ?_
      · intro hnot
        exact absurd hst (hnot { destTask with mailbox := box } .recv hget')
      · intro t reason ready ht _ hs'
        rw [hget'] at ht
        cases ht
        have hset : (k.sched.tasks.set dest (some { destTask with mailbox := box })).set dest
            (some { destTask with mailbox := box, state := .ready }) = k.sched.tasks.set dest
            (some { destTask with mailbox := box, state := .ready }) := Slots.set_set _ _ _ _
        obtain ⟨k', hk'⟩ : ∃ k' : Kernel, k' = { k with sched := { k.sched with
            tasks := k.sched.tasks.set dest
              (some { destTask with mailbox := box, state := .ready }), ready } } := ⟨_, rfl⟩
        have hs'' : SchedInv k'.sched := by
          rw [hk']
          simp only [Kernel.putTask, hset] at hs'
          exact hs'
        have hinv : KInv B L k' := h.retask
          { destTask with mailbox := box, state := .ready } hget rfl rfl rfl hok
          (hsus.wake hne hst)
          (fun c hp hc => resumable_push (h.tasks.pending c dest destTask hp hc hget) hne) hk' hs''
        have hcalm : Calm L k L k' :=
          Calm.retask { destTask with mailbox := box, state := .ready } hget rfl hk'
        have := hQ k' hinv hcalm (hmail rfl hk')
        rw [hk'] at this
        simp only [Kernel.putTask, hset]
        exact this
    · have hinv : KInv B L (k.putTask dest { destTask with mailbox := box }) :=
        h.retask { destTask with mailbox := box } hget rfl rfl rfl hok (hsus.push hne hst)
          (fun c hp hc => resumable_push (h.tasks.pending c dest destTask hp hc hget) hne) rfl hsched
      exact hQ _ hinv (Calm.retask { destTask with mailbox := box } hget rfl rfl)
        (hmail rfl rfl)

/-- A send that passes its checks with the null pointer and something to copy. -/
def NullSend (k : Kernel) (msgPtr len : ℕ) : Prop :=
  len ≤ MAX_MSG_SIZE ∧ msgPtr = 0 ∧ len ≠ 0 ∧
    ∃ cur task, k.sched.current = some cur ∧ k.sched.tasks.get cur = some task ∧
      validateUserRange task.asId msgPtr len false k = .ok () k

theorem sysSend_sat (h : KInv B L k) (dest msgPtr len : ℕ) :
    (sysSend dest msgPtr len).Sat k (fun _ k' => Kept B L k k' ∧ Sent k dest msgPtr len k')
      (Stops B L k (NullSend k msgPtr len)) := by
  obtain ⟨cur, task, hrun⟩ := h.tasks.current
  have hstay : Refused B L k k := Refused.refl h
  rw [sysSend]
  simp only [Prog.sat_bind, sat_require]
  refine ⟨fun hlen => ?_, fun _ => hstay⟩
  rw [sat_currentTask hrun.current, sat_selfTask hrun]
  obtain ⟨hval, hrange⟩ | hval := validateUserRange_result h.res hrun.root msgPtr len false
  swap
  · rw [Prog.sat_of_stop hval]
    exact hstay
  rw [Prog.sat_of_ok hval]
  refine copyFromUser_sat h hrange (fun hd hz hl => ⟨rfl, hd, ?_, hstay.after⟩) ?_
  · exact ⟨hlen, hz, hl, cur, task, hrun.current, hrun.get, hval⟩
  intro bytes hload hbytes hinv
  rw [sat_withTask]
  have hcalm := Calm.logged (L := L) (k := k) false msgPtr len
  have hlog : Refused B L k (k.logged false msgPtr len) :=
    ⟨hinv, Regs.refl _, fun _ _ _ => rfl, rfl⟩
  cases hget : (k.logged false msgPtr len).sched.tasks.get dest with
  | none => exact hlog
  | some destTask =>
    refine deliver_sat hinv hget hlen hlog ?_
    intro k' hinv' hcalm' hmail
    refine ⟨⟨L, hinv', hcalm.trans hcalm' rfl⟩, cur, hrun.current, by rw [hload, ← hbytes]; rfl, ?_⟩
    intro t
    rw [hmail t, Kernel.outgoing, hload]
    rfl

end Send

section Delivery

variable {m m' : Machine} {a : ℕ}

theorem loadBytes_of {n : ℕ} {bytes : List Byte} (hlen : bytes.length = n)
    (h : ∀ i (hi : i < bytes.length), m.loadByte (a + i) = some (bytes.get ⟨i, hi⟩)) :
    m.loadBytes a n = some bytes := by
  induction bytes generalizing a n with
  | nil =>
    subst hlen
    rfl
  | cons b bytes ih =>
    subst hlen
    have hb : m.loadByte a = some b := h 0 (by simp)
    have hrest : m.loadBytes (a + 1) bytes.length = some bytes := by
      refine ih rfl ?_
      intro i hi
      have := h (i + 1) (by simpa using hi)
      rw [Nat.add_assoc, Nat.add_comm 1 i]
      exact this
    simp [Machine.loadBytes, hb, hrest]

theorem loadBytes_congr {n : ℕ} (h : ∀ i < n, m'.loadByte (a + i) = m.loadByte (a + i)) :
    m'.loadBytes a n = m.loadBytes a n := by
  induction n generalizing a with
  | zero => rfl
  | succ n ih =>
    have hrest : m'.loadBytes (a + 1) n = m.loadBytes (a + 1) n := by
      refine ih ?_
      intro i hi
      rw [Nat.add_assoc, Nat.add_comm 1 i]
      exact h (i + 1) (by omega)
    simp only [Machine.loadBytes, hrest, show m'.loadByte a = m.loadByte a from h 0 (by omega)]

/-- In the active address space every user address has a byte of its own. -/
theorem KInv.phys_inj (h : KInv B L k) {a b p : ℕ} (ha : a < USER_SPACE_END)
    (hb : b < USER_SPACE_END) (hpa : k.machine.activeTable.toPhysical k.machine.mem a = some p)
    (hpb : k.machine.activeTable.toPhysical k.machine.mem b = some p) : a = b := by
  obtain ⟨cur, task, hrun⟩ := h.tasks.current
  have hroot := (h.res.spaces.root hrun.root).2
  have hleaf : ∀ {x}, x < USER_SPACE_END →
      k.machine.activeTable.toPhysical k.machine.mem x = some p →
      ∃ e, LeafAt L k.machine k.machine.cr3
        (pagePath k.machine.paging.mode (alignDownToFrame x)) e ∧
        entryFrame k.machine.paging e = p / FRAME_SIZE ∧ p % FRAME_SIZE = x % FRAME_SIZE := by
    intro x hx hp
    have ho : k.machine.cr3 = L.kroot ∨ rootIndex k.machine.paging.mode x < 256 :=
      .inr (rootIndex_user _ hx)
    have heq := h.res.mem.toPhysical_eq hroot (user_canonical _ hx) ho
    change k.machine.activeTable.toPhysical k.machine.mem x = _ at heq
    rw [hp] at heq
    obtain ⟨e, he, hpe⟩ := Option.map_eq_some_iff.mp heq.symm
    rw [h.res.mem.leaf_iff hroot ho] at he
    refine ⟨e, by rwa [pagePath_alignDown], ?_, ?_⟩
    · rw [← hpe, frame_of_phys]
    · rw [← hpe, pageOffset_eq]
      simp only [startAddress, FRAME_SIZE]
      omega
  obtain ⟨e, hl, hf, hoff⟩ := hleaf ha hpa
  obtain ⟨e', hl', hf', hoff'⟩ := hleaf hb hpb
  have hdown : ∀ {x}, x < USER_SPACE_END →
      alignDownToFrame x < USER_SPACE_END ∧ alignDownToFrame x % FRAME_SIZE = 0 := by
    intro x hx
    simp only [alignDownToFrame, FRAME_SIZE]
    omega
  have hpage := (h.res.user_unique hl (hdown ha).1 (hdown ha).2 hl' (hdown hb).1 (hdown hb).2
    (hf'.trans hf.symm)).2
  simp only [alignDownToFrame, FRAME_SIZE] at *
  omega

/-- `bytes` have been written to user memory at `dst`. -/
structure UserWrite (B : BootPages) (L : Layout) (k : Kernel) (dst : ℕ) (bytes : List Byte)
    (k' : Kernel) : Prop where
  inv : KInv B L k'
  only : k' = { k with
    machine := k.machine.withMem k'.machine.mem
    accesses := k'.accesses }
  words : ∀ f, ¬ (L.role f).Held → k'.machine.mem.word f = k.machine.mem.word f
  load : k'.machine.loadBytes dst bytes.length = some bytes
  frame : ∀ b < USER_SPACE_END, (∀ i < bytes.length, b ≠ dst + i) →
    k'.machine.loadByte b = k.machine.loadByte b

namespace UserWrite

variable {dst : ℕ} {bytes : List Byte}

theorem calm (h : UserWrite B L k dst bytes k') : Calm L k L k' := by
  refine ⟨rfl, fun f p hf => ⟨hf, h.words f (table_not_held hf)⟩, ?_, by rw [h.only],
    .tasks (by rw [h.only]) (by rw [h.only])⟩
  intro b hb
  rw [h.only] at hb
  exact .inl hb

theorem current (h : UserWrite B L k dst bytes k') : k'.sched.current = k.sched.current := by
  rw [h.only]

theorem mail (h : UserWrite B L k dst bytes k') : SameMail k k' := by
  intro t
  rw [h.only]
  rfl

theorem range (h : UserWrite B L k dst bytes k') {start len : ℕ} {w : Bool}
    (hrange : UserRange L k.machine k.machine.cr3 start len w) :
    UserRange L k'.machine k'.machine.cr3 start len w := by
  have hp : k'.machine.paging = k.machine.paging := by rw [h.only]; rfl
  have hcr3 : k'.machine.cr3 = k.machine.cr3 := by rw [h.only]; rfl
  rw [hcr3]
  exact hrange.congr hp fun q e _ _ _ hl => (leafAt_words hp h.words _ q e).mpr hl

/-- What lies elsewhere is read as before. -/
theorem loadBytes (h : UserWrite B L k dst bytes k') {a n : ℕ} (hn : a + n ≤ USER_SPACE_END)
    (hapart : a + n ≤ dst ∨ dst + bytes.length ≤ a) :
    k'.machine.loadBytes a n = k.machine.loadBytes a n := by
  refine loadBytes_congr ?_
  intro i hi
  refine h.frame (a + i) (by omega) ?_
  intro j hj
  omega

end UserWrite

/-- A copy to a checked range is read back, and nothing else changes. -/
theorem Stored.userWrite (k' : Kernel) (h : KInv B L k) {dst : ℕ} {bytes : List Byte}
    (hrange : UserRange L k.machine k.machine.cr3 dst bytes.length true)
    (hst : Stored L k.machine dst bytes k'.machine)
    (hk' : k' = { k with machine := k'.machine, accesses := k'.accesses })
    (hinv : KInv B L k') : UserWrite B L k dst bytes k' := by
  obtain ⟨cur, task, hrun⟩ := h.tasks.current
  have hroot := (h.res.spaces.root hrun.root).2
  have hp : k'.machine.paging = k.machine.paging := by rw [hst.only]; rfl
  have hphys : ∀ x, x < USER_SPACE_END →
      k'.machine.activeTable.toPhysical k'.machine.mem x =
        k.machine.activeTable.toPhysical k.machine.mem x := by
    intro x hx
    have hcr3 : k'.machine.activeTable = k'.machine.table k.machine.cr3 := by
      rw [hst.only]
      rfl
    have hsame : SameTables k.machine k'.machine := by
      rw [hst.only]
      exact ⟨rfl, rfl⟩
    rw [hcr3]
    exact (reads_congr h.res.mem hst.inv hsame rfl hroot hroot
      (fun _ => .inr (rootIndex_user _ hx)) (fun e => leafAt_words hp hst.words _ _ e)).1
  have hinj : ∀ i j p, i < bytes.length → j < bytes.length →
      k.machine.activeTable.toPhysical k.machine.mem (dst + i) = some p →
      k.machine.activeTable.toPhysical k.machine.mem (dst + j) = some p → i = j := by
    intro i j p hi hj hpi hpj
    have := h.phys_inj (hrange.pages i hi).1 (hrange.pages j hj).1 hpi hpj
    omega
  refine ⟨hinv, by rw [hk']; congr 1; exact hst.only, hst.words, ?_, ?_⟩
  · refine loadBytes_of rfl ?_
    intro i hi
    obtain ⟨hlt, hok⟩ := hrange.pages i hi
    obtain ⟨e, _, he⟩ := hok.toPhysical h.res.mem hroot hlt
    change k.machine.activeTable.toPhysical k.machine.mem (dst + i) = _ at he
    rw [Machine.loadByte, hphys _ hlt, he]
    exact congrArg some (hst.stored hinj i hi _ he)
  · intro b hb hne
    rw [Machine.loadByte, Machine.loadByte, hphys b hb]
    cases hpb : k.machine.activeTable.toPhysical k.machine.mem b with
    | none => rfl
    | some p =>
      refine congrArg some (hst.others p ?_)
      intro i hi hpi
      exact hne i hi (h.phys_inj hb (hrange.pages i hi).1 hpb hpi)

variable {E : Stop → Kernel → Prop} {Q : Unit → Kernel → Prop} {dst : ℕ}

theorem copyToUser_write (h : KInv B L k) {bytes : List Byte} (hne : dst ≠ 0)
    (hrange : UserRange L k.machine k.machine.cr3 dst bytes.length true)
    (hQ : ∀ k', UserWrite B L k dst bytes k' → Q () k') : (copyToUser dst bytes).Sat k Q E := by
  refine copyToUser_sat h hrange (fun _ hz _ => absurd hz hne) ?_
  intro m hst hinv
  exact hQ _ (hst.userWrite { k.logged true dst bytes.length with machine := m } h hrange
    rfl hinv)

theorem copyVal_write (h : KInv B L k) {val : ℕ} (hne : dst ≠ 0)
    (hok : dst % 8 = 0 ∧ UserRange L k.machine k.machine.cr3 dst 8 true)
    (hQ : ∀ k', UserWrite B L k dst (usizeBytes val) k' → Q () k') :
    (copyValToUser dst val).Sat k Q E := by
  have hlen : (usizeBytes val).length = 8 := by simp [usizeBytes]
  refine copyValToUser_sat h hok.1 hne hok.2 ?_
  intro m hst hinv
  exact hQ _ (hst.userWrite { k.logged true dst 8 with machine := m } h
    (by rw [hlen]; exact hok.2) rfl hinv)

end Delivery

section Recv

variable {cur next : ℕ} {task : Tcb} {state : ThreadState} {saved : ThreadContext}

theorem installed_mem (k : Kernel) (load : Bool) (n : Tcb) :
    (k.installed load n).mem = k.machine.mem ∧
      (k.installed load n).handBacks = k.machine.handBacks := by
  cases load with
  | false => exact ⟨rfl, rfl⟩
  | true =>
    cases hs : k.spaces.get n.asId with
    | none => simp [Kernel.installed, hs]
    | some space => simp [Kernel.installed, hs, Machine.activated]

/-- A switch is none of the others' business. -/
theorem Switched.after (hsw : Switched k cur state saved next k') (h : KInv B L k)
    (hsus : ∀ t, k.sched.tasks.get cur = some t →
      Tcb.Suspended { t with state, context := saved }) : After B L k k' := by
  have hcalm : Calm L k L k' := by
    obtain ⟨t, n, _, _, _, _, _, _, hmach⟩ := hsw.tasks
    obtain ⟨hmem, hhb⟩ := installed_mem k (decide (n.asId ≠ t.asId)) n
    exact Calm.same (by rw [hmach, hmem]) (by rw [hmach, hhb]) hsw.frame.2.2.2
      (.same hsw.frame.2.1 hsw.handleAt)
  refine ⟨L, h.switched hsw hsus, hcalm, ?_⟩
  intro t
  have := hsw.map_eq (fun task => task.mailbox.queue) (fun _ _ _ => rfl) t
  rw [Kernel.mailOf, this, Kernel.mailOf]

/-- The bytes of a message. -/
def Message.payload (msg : Message) : List Byte := (List.range msg.length).map msg.data

/-- Two ranges of addresses do not overlap. -/
def Apart (a n b l : ℕ) : Prop := a + n ≤ b ∨ b + l ≤ a

/-- Three output buffers that do not overlap. -/
structure RecvArgs.Separate (args : RecvArgs) : Prop where
  actualLen : args.outActualLen ≠ 0
  sender : args.outSender ≠ 0
  data : Apart args.outPtr args.maxLen args.outActualLen 8 ∧
    Apart args.outPtr args.maxLen args.outSender 8
  values : Apart args.outActualLen 8 args.outSender 8

/-- Task `cur` has taken the oldest of its messages. -/
structure Received (k : Kernel) (args : RecvArgs) (cur : ℕ) (msg : Message) (k' : Kernel) :
    Prop where
  current : k.sched.current = some cur
  mail : ∃ rest, k.mailOf cur = msg :: rest ∧
    ∀ t, k'.mailOf t = if t = cur then rest else k.mailOf t
  delivered : args.Separate →
    k'.machine.loadBytes args.outPtr (min msg.length args.maxLen) =
      some (msg.payload.take args.maxLen) ∧
    k'.machine.loadBytes args.outActualLen 8 = some (usizeBytes msg.length) ∧
    k'.machine.loadBytes args.outSender 8 = some (usizeBytes msg.sender)

theorem payload_take (msg : Message) (n : ℕ) :
    (List.range (min msg.length n)).map msg.data = msg.payload.take n := by
  rw [Message.payload, ← List.map_take, List.take_range, Nat.min_comm]

/-- The three copies at the end of `sys_recv`. -/
theorem recvCopies_sat {E : Stop → Kernel → Prop} {Q : Unit → Kernel → Prop} (h : KInv B L k)
    {args : RecvArgs} (msg : Message) (hout : args.outPtr ≠ 0)
    (hdata : UserRange L k.machine k.machine.cr3 args.outPtr args.maxLen true)
    (hlen : args.outActualLen ≠ 0 → args.outActualLen % 8 = 0 ∧
      UserRange L k.machine k.machine.cr3 args.outActualLen 8 true)
    (hsender : args.outSender ≠ 0 → args.outSender % 8 = 0 ∧
      UserRange L k.machine k.machine.cr3 args.outSender 8 true)
    (hQ : ∀ k', KInv B L k' → Calm L k L k' → SameMail k k' → (args.Separate →
      k'.machine.loadBytes args.outPtr (min msg.length args.maxLen) =
        some (msg.payload.take args.maxLen) ∧
      k'.machine.loadBytes args.outActualLen 8 = some (usizeBytes msg.length) ∧
      k'.machine.loadBytes args.outSender 8 = some (usizeBytes msg.sender)) → Q () k') :
    (do
      copyToUser args.outPtr ((List.range (min msg.length args.maxLen)).map msg.data)
      if args.outActualLen ≠ 0 then copyValToUser args.outActualLen msg.length else pure ()
      if args.outSender ≠ 0 then copyValToUser args.outSender msg.sender else pure ()
      : KM Unit).Sat k Q E := by
  have hvlen : ∀ v, (usizeBytes v).length = 8 := fun v => by simp [usizeBytes]
  obtain ⟨bytes, hbytes⟩ : ∃ bytes, bytes =
    (List.range (min msg.length args.maxLen)).map msg.data := ⟨_, rfl⟩
  have hn : bytes.length = min msg.length args.maxLen := by simp [hbytes]
  have hn' : bytes.length ≤ args.maxLen := by omega
  rw [← hbytes]
  simp only [Prog.sat_bind]
  have hsub : UserRange L k.machine k.machine.cr3 args.outPtr bytes.length true := by
    have := @UserRange.sub _ _ _ _ _ _ hdata 0 bytes.length (by omega)
    rwa [Nat.add_zero] at this
  refine copyToUser_write h hout hsub ?_
  intro k₁ h₁
  have hend : args.outPtr + bytes.length ≤ USER_SPACE_END := hsub.1
  have hload₁ : k₁.machine.loadBytes args.outPtr (min msg.length args.maxLen) =
      some (msg.payload.take args.maxLen) := by
    rw [← payload_take, ← hbytes, ← hn]
    exact h₁.load
  rw [Prog.sat_ite]
  refine ⟨fun hne => ?_, fun hz => ?_⟩
  · rw [Prog.sat_bind]
    refine copyVal_write h₁.inv hne ⟨(hlen hne).1, h₁.range (hlen hne).2⟩ ?_
    intro k₂ h₂
    rw [Prog.sat_ite]
    refine ⟨fun hne' => ?_, fun hz => ?_⟩
    · refine copyVal_write h₂.inv hne'
        ⟨(hsender hne').1, h₂.range (h₁.range (hsender hne').2)⟩ ?_
      intro k₃ h₃
      refine hQ k₃ h₃.inv ((h₁.calm.trans h₂.calm h₁.current).trans h₃.calm (h₂.current.trans h₁.current))
        ((h₁.mail.trans h₂.mail).trans h₃.mail) ?_
      intro hsep
      have hapart := hsep.data
      have hvalues := hsep.values
      have hendLen := (hlen hne).2.1
      simp only [Apart] at hapart hvalues
      refine ⟨?_, ?_, ?_⟩
      · rw [h₃.loadBytes (by omega) (by rw [hvlen]; omega),
          h₂.loadBytes (by omega) (by rw [hvlen]; omega), hload₁]
      · rw [h₃.loadBytes hendLen (by rw [hvlen]; omega)]
        have := h₂.load
        rwa [hvlen] at this
      · have := h₃.load
        rwa [hvlen] at this
    · exact hQ k₂ h₂.inv (h₁.calm.trans h₂.calm h₁.current) (h₁.mail.trans h₂.mail)
        fun hsep => absurd hsep.sender hz
  · rw [Prog.sat_ite]
    refine ⟨fun hne' => ?_, fun _ => ?_⟩
    · refine copyVal_write h₁.inv hne' ⟨(hsender hne').1, h₁.range (hsender hne').2⟩ ?_
      intro k₂ h₂
      exact hQ k₂ h₂.inv (h₁.calm.trans h₂.calm h₁.current) (h₁.mail.trans h₂.mail)
        fun hsep => absurd hsep.actualLen hz
    · exact hQ k₁ h₁.inv h₁.calm h₁.mail fun hsep => absurd hsep.actualLen hz

theorem sysRecvTail_sat (h : KInv B L k) (hrun : Running k cur task) (hp : k.pending = none)
    (hbox : task.mailbox.len ≠ 0) {args : RecvArgs} (hout : args.outPtr ≠ 0) :
    (sysRecvTail args).Sat k (fun _ k' => Kept B L k k' ∧ ∃ msg, Received k args cur msg k')
      (fun stop k' => (∃ s, stop = .status s ∧ s ≠ .noSuchTask) ∧ Refused B L k k') := by
  have hstay : Refused B L k k := Refused.refl h
  have hok := h.tasks.mail cur task hrun.get
  rw [sysRecvTail]
  simp only [Prog.sat_bind]
  rw [sat_selfTask hrun]
  refine validateUserRange_sat h.res hrun.root (fun hdata => ?_) ⟨⟨_, rfl, by simp⟩, hstay⟩
  refine validateOptional_sat h.res hrun.root (fun hlen => ?_) (fun s hs => ⟨⟨s, rfl, hs⟩, hstay⟩)
  refine validateOptional_sat h.res hrun.root (fun hsender => ?_)
    (fun s hs => ⟨⟨s, rfl, hs⟩, hstay⟩)
  rw [sat_currentTask hrun.current, sat_selfTask hrun]
  obtain ⟨msg, hpop, hmsg, hok', hqueue⟩ := hok.pop hbox
  simp only [hpop, Prog.sat_bind, sat_setTask, Prog.sat_assert]
  have hle : min msg.length args.maxLen ≤ MAX_MSG_SIZE := by omega
  rw [if_pos (by simpa using hle)]
  obtain ⟨k₁, hk₁⟩ : ∃ k₁, k₁ = k.putTask cur { task with mailbox := task.mailbox.pop.2 } := ⟨_, rfl⟩
  have hrunning : task.state = .running := by
    obtain ⟨t, ht, hst⟩ := h.tasks.sched.current_get hrun.current
    rw [hrun.get] at ht
    cases ht
    exact hst
  have hinv₁ : KInv B L k₁ := by
    refine h.retask { task with mailbox := task.mailbox.pop.2 } hrun.get rfl rfl rfl hok' ?_
      (fun c hc => by rw [hp] at hc; cases hc) hk₁ (hk₁ ▸ h.tasks.sched.setMail hrun.get _)
    rw [Tcb.Suspended]
    simp only [hrunning]
  have hm₁ : k₁.machine = k.machine := by rw [hk₁]; rfl
  have hmail₁ := mailOf_set { task with mailbox := task.mailbox.pop.2 } hrun.get hk₁
  have hprog := recvCopies_sat (E := fun stop k' =>
    (∃ s, stop = .status s ∧ s ≠ .noSuchTask) ∧ Refused B L k k')
    (Q := fun _ k' => Kept B L k k' ∧ ∃ msg, Received k args cur msg k') hinv₁ msg hout
    (by rw [hm₁]; exact hdata) (by rw [hm₁]; exact hlen) (by rw [hm₁]; exact hsender) ?_
  · simp only [Prog.sat_bind] at hprog
    rw [hk₁] at hprog
    exact hprog
  · intro k' hinv hcalm hmail hdel
    have hcalm₁ : Calm L k L k₁ :=
      Calm.retask { task with mailbox := task.mailbox.pop.2 } hrun.get rfl hk₁
    refine ⟨⟨L, hinv, hcalm₁.trans hcalm (by rw [hk₁]; rfl)⟩, msg, hrun.current, ⟨task.mailbox.pop.2.queue, ?_, ?_⟩,
      hdel⟩
    · rw [mailOf_get hrun.get, hqueue]
    · intro t
      rw [hmail t, hmail₁ t]

theorem sysRecv_sat (null : Prop) (h : KInv B L k) (hrun : Running k cur task) (hp : k.pending = none)
    (args : RecvArgs) :
    (sysRecv args).Sat k (fun _ k' => Kept B L k k' ∧ ∃ msg, Received k args cur msg k')
      (fun stop k' => stop ≠ .status .noSuchTask ∧ Stops B L k null stop k') := by
  have hstay : Refused B L k k := Refused.refl h
  rw [sysRecv]
  simp only [Prog.sat_bind, sat_require]
  refine ⟨fun hout => ?_, fun _ => ⟨by simp, hstay⟩⟩
  rw [sat_selfTask hrun, Prog.sat_ite]
  refine ⟨fun hempty => ?_, fun hbox => ?_⟩
  · refine blockCurrent_sat h.tasks.sched hrun.current _ _ ?_ ?_
    · intro hids
      exact ⟨by simp, hstay.after, hids⟩
    · intro next k' hsw
      refine ⟨by simp, hsw.after h ?_⟩
      intro t ht
      rw [hrun.get] at ht
      cases ht
      exact ⟨⟨args, rfl, hout⟩, hempty⟩
  · refine (sysRecvTail_sat h hrun hp hbox hout).mono (fun _ _ hq => hq) ?_
    rintro stop k' ⟨⟨s, rfl, hs⟩, ha⟩
    exact ⟨by simpa using hs, ha⟩

end Recv

end Dusk
