import Dusk.Proofs.TaskCalls
import Dusk.Model.System

/-! One move of the system: every syscall, fault, store and resumption keeps the
invariant of the kernel. -/

namespace Dusk

open Lib Radix Scheduler

variable {B : BootPages} {L L' : Layout} {k k' : Kernel} {null : Prop}

section Halves

/-- Above the user half every address space is the kernel's. -/
theorem ResInv.upper (h : ResInv B L k) {r va : ℕ} (hr : L.role r = .table r [])
    (hi : 256 ≤ rootIndex k.machine.paging.mode va) :
    (k.machine.table r).toPhysical k.machine.mem va =
      (k.machine.table L.kroot).toPhysical k.machine.mem va ∧
    (k.machine.table r).mapping k.machine.mem va =
      (k.machine.table L.kroot).mapping k.machine.mem va := by
  refine from_shared h.mem.alloc hr h.mem.kroot (h.mem.shared r hr _ hi ?_)
  cases k.machine.paging.mode <;>
    simp only [rootIndex, tableIndices, PagingMode.intermediateLevels, List.map_cons,
      List.headD_cons] <;> exact level_index_lt _ _

/-- The kernel's own pages are not for user mode. -/
theorem ResInv.kernel_mapping (h : ResInv B L k) {va : ℕ} {p : PagePermissions}
    (hp : (k.machine.table L.kroot).mapping k.machine.mem va = some p) :
    p.userAccessible = false := by
  by_cases hc : k.machine.paging.mode.isCanonical va = true
  · rw [mapping_eq h.mem.alloc h.mem.tree h.mem.closed h.mem.kroot hc (.inl rfl)] at hp
    obtain ⟨e, hl, rfl⟩ := Option.map_eq_some_iff.mp hp
    exact h.mem.kernel_leaf ((h.mem.leaf_iff h.mem.kroot (.inl rfl) e).mp hl)
  · have hcan : (k.machine.table L.kroot).isCanonical va = false := by
      simpa [PageTable.isCanonical, Machine.table] using hc
    simp [PageTable.mapping, hcan] at hp

/-- What user mode may access lies below the end of user space. -/
theorem ResInv.user_page (h : ResInv B L k) {r : ℕ} (va : ℕ) (w : Bool)
    (hr : L.role r = .table r [])
    (hany : ((k.machine.table r).mapping k.machine.mem va).any
      (fun p => p.userAccessible && (!w || p.writable)) = true) :
    va < USER_SPACE_END ∧ PageOk L k.machine r va w := by
  have hc : k.machine.paging.mode.isCanonical va = true := by
    by_contra hc
    have hcan : (k.machine.table r).isCanonical va = false := by
      simpa [PageTable.isCanonical, Machine.table] using hc
    simp [PageTable.mapping, hcan] at hany
  have hi : rootIndex k.machine.paging.mode va < 256 := by
    by_contra hi
    rw [(h.upper hr (not_lt.mp hi)).2] at hany
    cases hp : (k.machine.table L.kroot).mapping k.machine.mem va with
    | none => rw [hp] at hany; cases hany
    | some p =>
      rw [hp] at hany
      simp [h.kernel_mapping hp] at hany
  have hlt : va < USER_SPACE_END := by
    have hmap := mapping_eq h.mem.alloc h.mem.tree h.mem.closed hr hc (.inr hi)
    rw [hmap] at hany
    cases hl : k.machine.leaf r va with
    | none => rw [hl] at hany; cases hany
    | some e =>
      rw [h.mem.leaf_iff hr (.inr hi)] at hl
      obtain ⟨v, hv, hal, hpath, _⟩ := h.pages.user r _ e _ hl (pagePath_getLast _ _) hi
      have hpage : alignDownToFrame va = v := by
        refine pagePath_inj (alignDown_canonical hc) (user_canonical _ hv) ?_ hal ?_
        · simp only [alignDownToFrame, FRAME_SIZE]
          omega
        · rw [pagePath_alignDown, hpath]
      simp only [alignDownToFrame, FRAME_SIZE, USER_SPACE_END] at *
      omega
  exact ⟨hlt, (Dusk.mapping_any h.mem hr hlt w).mp hany⟩

end Halves

section Switching

theorem sysYield_sat (h : KInv B L k) :
    sysYield.Sat k (fun _ => After B L k) (Stops B L k null) := by
  obtain ⟨cur, task, hrun⟩ := h.tasks.current
  refine yieldCurrent_sat h.tasks.sched hrun.current (fun _ => After.refl h) ?_
  intro next k' hsw
  exact hsw.after h fun t _ => trivial

theorem exitCurrent_after {α : Type} {Q : α → Kernel → Prop} {E : Stop → Kernel → Prop}
    (h : KInv B L k) (reason : ExitReason)
    (hhalt : k.sched.ready.ids = [] → E (.halted .allTasksExited) k)
    (hswitch : ∀ k', After B L k k' → E .switched k') :
    (exitCurrent reason : KM α).Sat k Q E := by
  obtain ⟨cur, task, hrun⟩ := h.tasks.current
  refine exitCurrent_sat h.tasks.sched hrun.current reason hhalt ?_
  intro next k' hsw
  exact hswitch k' (hsw.after h fun t _ => trivial)

theorem sysExit_sat (h : KInv B L k) (exitCode : ℕ) :
    (sysExit exitCode).Sat k (fun _ => After B L k) (Stops B L k null) :=
  exitCurrent_after h _ (fun hids => ⟨After.refl h, hids⟩) (fun _ ha => ha)

end Switching

section Store

theorem userStore_sat {Q : Unit → Kernel → Prop} {E : Stop → Kernel → Prop} (h : KInv B L k)
    (address : ℕ) (value : Byte) (hok : ∀ k', After B L k k' → Q () k')
    (hhalt : k.sched.ready.ids = [] → E (.halted .allTasksExited) k)
    (hswitch : ∀ k', After B L k k' → E .switched k') :
    (userStore address value).Sat k Q E := by
  obtain ⟨cur, task, hrun⟩ := h.tasks.current
  obtain ⟨hne, hroot⟩ := h.res.spaces.root hrun.root
  rw [userStore]
  simp only [Prog.sat_bind, Prog.sat_get]
  split
  next p hany hphys =>
    have hpage := h.res.user_page address true hroot (by
      simpa [Machine.activeTable, Machine.table] using hany)
    obtain ⟨e, hl, he⟩ := hpage.2.toPhysical h.res.mem hroot hpage.1
    change k.machine.activeTable.toPhysical k.machine.mem address = _ at he
    rw [hphys] at he
    cases he
    have hheld := h.res.leaf_held hpage.1 hl
    rw [← frame_of_phys (entryFrame k.machine.paging e) address] at hheld
    simp only [sat_onMachine, modifyMem, Prog.sat_modify]
    obtain ⟨p, hp⟩ : ∃ p, p =
      startAddress (entryFrame k.machine.paging e) + pageOffset address := ⟨_, rfl⟩
    rw [← hp] at hheld ⊢
    have hwords : ∀ f, ¬ (L.role f).Held →
        (k.machine.mem.setByte p value).word f = k.machine.mem.word f := by
      intro f hf
      apply PhysMem.frame_setByte
      rintro rfl
      exact hf hheld
    refine hok _ ⟨L, ?_, ⟨rfl, fun f q hf => ⟨hf, hwords f (table_not_held hf)⟩,
      fun b hb => .inl hb, rfl, .tasks rfl rfl⟩, fun _ => rfl⟩
    refine h.rebuild ?_ (withMem_regs _ _) (fun _ _ h => h) rfl rfl rfl (fun _ => rfl)
      (h.handles.same (fun _ => rfl) (fun _ _ => rfl)) rfl
    exact h.res.memory (h.res.mem.writeByte hheld value) (RolesKept.refl L) ⟨rfl, rfl⟩
      (leafAt_words rfl hwords) ⟨rfl, rfl, fun _ => rfl, rfl⟩ (fun _ _ => rfl)
  next => exact exitCurrent_after h _ hhalt hswitch

end Store

section Dispatch

/-- A syscall that copies from the null pointer in a debug build. -/
def SyscallArgs.NullCopy (a : SyscallArgs) (k : Kernel) : Prop :=
  k.debugAssertions = true ∧
  match SyscallNumber.tryFrom a.num.toNat with
  | some .write => NullWrite k a.arg0.toNat a.arg1.toNat a.arg2.toNat a.arg3.toNat
  | some .send => NullSend k a.arg1.toNat a.arg2.toNat
  | _ => False

def SyscallArgs.Creates (a : SyscallArgs) : Prop :=
  SyscallNumber.tryFrom a.num.toNat = some .taskCreate

/-- A task is created, with its kernel stack, although its creator has no slot left for the
handle. -/
def SyscallArgs.Overfull (a : SyscallArgs) (k : Kernel) : Prop :=
  a.Creates ∧ k.Cramped ∧
    StackGranted k a.arg0.toNat a.arg1.toNat a.arg2.toNat a.arg3.toNat

/-- What a call that has returned 0 has done with the mail. -/
def Call.Delivered (call : Call) (k k' : Kernel) : Prop :=
  match call with
  | .syscall a =>
    match SyscallNumber.tryFrom a.num.toNat with
    | some .send => Sent k a.arg0.toNat a.arg1.toNat a.arg2.toNat k'
    | some .recv => ∃ cur msg, Received k a.recvArgs cur msg k'
    | _ => SameMail k k'
  | .recv args => ∃ cur msg, Received k args cur msg k'

/-- The invariant holds again; only the creation of tasks touches the kernel's tables. -/
def Moved (B : BootPages) (L : Layout) (k : Kernel) (creates overfull : Prop) (k' : Kernel) :
    Prop :=
  ∃ L', KInv B L' k' ∧ (¬ creates → Calm L k L' k') ∧
    k'.debugAssertions = k.debugAssertions ∧ Others k k' ∧
    ∀ b ∈ k'.machine.handBacks, b ∈ k.machine.handBacks ∨ b.page < USER_SPACE_END ∨ overfull

theorem Kept.moved {creates overfull : Prop} (h : Kept B L k k') :
    Moved B L k creates overfull k' := by
  obtain ⟨L', hinv, hcalm⟩ := h
  exact ⟨L', hinv, fun _ => hcalm, hcalm.debug, hcalm.others,
    fun b hb => (hcalm.handBacks b hb).imp_right .inl⟩

theorem Spawned.moved {creates overfull : Prop} (hc : creates) (h : Spawned k overfull k')
    (hinv : ∃ L', KInv B L' k') : Moved B L k creates overfull k' := by
  obtain ⟨L', hinv⟩ := hinv
  exact ⟨L', hinv, fun hn => absurd hc hn, h.debug, h.others,
    fun b hb => (h.handBacks b hb).imp_right .inr⟩

/-- The ways a syscall stops. -/
def SyscallArgs.Ends (a : SyscallArgs) (B : BootPages) (L : Layout) (k : Kernel) :
    Stop → Kernel → Prop
  | .status s, k' => Moved B L k a.Creates (a.Overfull k) k' ∧ SameMail k k' ∧
      (¬ a.Creates → Refused B L k k') ∧ (SyscallNumber.tryFrom a.num.toNat = some .recv → s ≠ .noSuchTask)
  | .switched, k' => After B L k k'
  | .halted _, k' => After B L k k' ∧ k'.sched.ready.ids = []
  | .panicked p, k' => p = .nullPointer ∧ a.NullCopy k ∧ After B L k k'

theorem Stops.ends {a : SyscallArgs} {stop : Stop} (h : Stops B L k null stop k')
    (hnull : k.debugAssertions = true → null → a.NullCopy k)
    (hrecv : SyscallNumber.tryFrom a.num.toNat ≠ some .recv ∨ stop ≠ .status .noSuchTask) :
    a.Ends B L k stop k' := by
  cases stop with
  | status s =>
    refine ⟨(Refused.after h).kept.moved, ?_, fun _ => h, ?_⟩
    · obtain ⟨_, _, _, hmail⟩ := Refused.after h
      exact hmail
    · rintro hr rfl
      rcases hrecv with hrecv | hrecv
      · exact hrecv hr
      · exact hrecv rfl
  | switched => exact h
  | halted h₀ => exact h
  | panicked p =>
    obtain ⟨hp, hd, hn, ha⟩ := h
    exact ⟨hp, hnull hd hn, ha⟩

theorem After.mail (h : After B L k k') : SameMail k k' := by
  obtain ⟨_, _, _, hmail⟩ := h
  exact hmail

theorem dispatch_sat (h : KInv B L k) (hp : k.pending = none) (a : SyscallArgs) :
    (dispatch a).Sat k
      (fun _ k' => Moved B L k a.Creates (a.Overfull k) k' ∧ (Call.syscall a).Delivered k k')
      (a.Ends B L k) := by
  obtain ⟨cur, task, hrun⟩ := h.tasks.current
  rw [dispatch]
  cases hnum : SyscallNumber.tryFrom a.num.toNat with
  | none =>
    exact exitCurrent_after h _ (fun hids => ⟨After.refl h, hids⟩) (fun _ ha => ha)
  | some number =>
    have hquiet : ∀ {body : KM Unit}, number ≠ .send → number ≠ .recv →
        body.Sat k (fun _ => After B L k) (Stops B L k False) →
        body.Sat k (fun _ k' => Moved B L k a.Creates (a.Overfull k) k' ∧
          (Call.syscall a).Delivered k k') (a.Ends B L k) := by
      intro body hsend hrecv hbody
      refine hbody.mono (fun _ k' ha => ⟨ha.kept.moved, ?_⟩) (fun stop k' hs =>
        hs.ends (fun _ hn => hn.elim) (.inl (by simpa [hnum] using hrecv)))
      simp only [Call.Delivered, hnum]
      cases number <;> first | exact ha.mail | contradiction
    cases number with
    | yield => exact hquiet (by simp) (by simp) (sysYield_sat h)
    | exit => exact hquiet (by simp) (by simp) (sysExit_sat h _)
    | write =>
      refine (sysWrite_sat h _ _ _ _).mono (fun _ k' ha => ⟨ha.kept.moved, ?_⟩)
        (fun stop k' hs => hs.ends (fun hd hn => ?_) (.inl (by simp [hnum])))
      · simpa only [Call.Delivered, hnum] using ha.mail
      · exact ⟨hd, by simpa only [hnum] using hn⟩
    | send =>
      refine (sysSend_sat h _ _ _).mono (fun _ k' ha => ⟨ha.1.moved, ?_⟩)
        (fun stop k' hs => hs.ends (fun hd hn => ?_) (.inl (by simp [hnum])))
      · simpa only [Call.Delivered, hnum] using ha.2
      · exact ⟨hd, by simpa only [hnum] using hn⟩
    | recv =>
      refine (sysRecv_sat False h hrun hp _).mono (fun _ k' ha => ⟨ha.1.moved, ?_⟩)
        (fun stop k' hs => hs.2.ends (fun _ hn => hn.elim) (.inr hs.1))
      obtain ⟨msg, hmsg⟩ := ha.2
      simp only [Call.Delivered, hnum]
      exact ⟨cur, msg, hmsg⟩
    | frameAlloc => exact hquiet (by simp) (by simp) (sysFrameAlloc_sat h _)
    | frameDealloc => exact hquiet (by simp) (by simp) (sysFrameDealloc_sat h _)
    | asCreate => exact hquiet (by simp) (by simp) (sysAsCreate_sat h _)
    | map => exact hquiet (by simp) (by simp) (sysMap_sat h _ _ _ _ _)
    | unmap => exact hquiet (by simp) (by simp) (sysUnmap_sat h _)
    | taskCreate =>
      refine (sysTaskCreate_sat (a.Overfull k) h _ _ _ _
        (fun hcr hok => ⟨hnum, hcr, hok⟩)).mono ?_ ?_
      · intro _ k' hq
        refine ⟨hq.2.moved hnum hq.1, ?_⟩
        simpa only [Call.Delivered, hnum] using hq.2.mail
      · rintro stop k' ⟨⟨s, rfl⟩, hinv, hs⟩
        exact ⟨hs.moved hnum hinv, hs.mail, fun hn => absurd hnum hn, by simp [hnum]⟩

end Dispatch

section Moves

def Call.IsRecv : Call → Prop
  | .syscall a => SyscallNumber.tryFrom a.num.toNat = some .recv
  | .recv _ => True

/-- What a call has done, seen from the code it returns. -/
structure Call.Returned (call : Call) (code : ℕ) (k k' : Kernel) : Prop where
  delivered : code = 0 → call.Delivered k k'
  refused : code ≠ 0 → SameMail k k'
  found : call.IsRecv → code ≠ 4

theorem Status.code_pos (s : Status) : s.code ≠ 0 := by
  cases s <;> simp [Status.code]

theorem Status.code_four {s : Status} (h : s.code = 4) : s = .noSuchTask := by
  cases s <;> simp [Status.code] at h ⊢

def Action.Creates : Action → Prop
  | .syscall a => a.Creates
  | _ => False

def Action.Overfull : Action → Kernel → Prop
  | .syscall a, k => a.Overfull k
  | _, _ => False

def Action.NullCopy : Action → Kernel → Prop
  | .syscall a, k => a.NullCopy k
  | _, _ => False

/-- The ways a move ends without a return to user mode. -/
def Action.Ends (a : Action) (B : BootPages) (L : Layout) (k : Kernel) : Stop → Kernel → Prop
  | .status _, _ => False
  | .switched, k' => After B L k k'
  | .halted _, k' => After B L k k' ∧ k'.sched.ready.ids = []
  | .panicked p, k' => p = .nullPointer ∧ a.NullCopy k ∧ After B L k k'

/-- What a move has done when it returns to user mode. -/
def Action.Done (a : Action) (B : BootPages) (L : Layout) (k : Kernel) (r : Option (Call × ℕ))
    (k' : Kernel) : Prop :=
  Moved B L k a.Creates (a.Overfull k) k' ∧
  match r with
  | none => SameMail k k'
  | some (call, code) => call.Returned code k k'

theorem sat_returning {Q : ℕ → Kernel → Prop} {E : Stop → Kernel → Prop} (body : KM Unit) :
    (returning body).Sat k Q E ↔ body.Sat k (fun _ k' => Q 0 k') (fun stop k' =>
      match stop with
      | .status s => Q s.code k'
      | other => E other k') := by
  rw [returning, Prog.sat_catching, Prog.sat_bind]
  constructor
  · refine fun hs => hs.mono (fun _ _ hq => hq) ?_
    intro stop k' he
    cases stop <;> exact he
  · refine fun hs => hs.mono (fun _ _ hq => hq) ?_
    intro stop k' he
    cases stop <;> exact he

theorem handle_sat (h : KInv B L k) (hp : k.pending = none) (a : SyscallArgs) :
    (handle a).Sat k (fun code k' => Moved B L k a.Creates (a.Overfull k) k' ∧
      (Call.syscall a).Returned code k k') ((Action.syscall a).Ends B L k) := by
  rw [handle, sat_returning]
  refine (dispatch_sat h hp a).mono ?_ ?_
  · intro _ k' hq
    exact ⟨hq.1, fun _ => hq.2, fun hne => absurd rfl hne, fun _ => by simp⟩
  · intro stop k' hs
    cases stop with
    | status s =>
      obtain ⟨hmoved, hmail, _, hrecv⟩ := hs
      refine ⟨hmoved, fun hz => absurd hz s.code_pos, fun _ => hmail, ?_⟩
      intro hr hcode
      exact hrecv hr (Status.code_four hcode)
    | switched => exact hs
    | halted h₀ => exact hs
    | panicked p => exact hs

/-- The restored context is taken. -/
theorem KInv.resumed (h : KInv B L k) : KInv B L { k with pending := none } := by
  refine ⟨?_, ?_, h.handles.same (fun _ => rfl) (fun _ _ => rfl), h.logs.congr rfl rfl⟩
  · exact h.res.quiet h.res.mem ⟨rfl, rfl⟩ rfl ⟨rfl, rfl, fun _ => rfl, rfl⟩ (fun _ _ => rfl)
  · exact ⟨h.tasks.sched, h.tasks.cpu, h.tasks.homes, h.tasks.mail, h.tasks.suspended,
      fun _ _ _ hp => by cases hp⟩

theorem resumeContext_sat (h : KInv B L k) {context : ThreadContext}
    (hpend : k.pending = some context) :
    resumeContext.Sat k (Action.Done .resume B L k) (Action.Ends .resume B L k) := by
  obtain ⟨cur, task, hrun⟩ := h.tasks.current
  have hres := h.tasks.pending context cur task hpend hrun.current hrun.get
  have hinv := h.resumed
  have hcalm : Calm L k L { k with pending := none } := Calm.same rfl rfl rfl (.tasks rfl rfl)
  have hkept : Kept B L k { k with pending := none } := ⟨L, hinv, hcalm⟩
  have hrun' : Running { k with pending := none } cur task :=
    ⟨hrun.current, hrun.get, hrun.root, hrun.top⟩
  simp only [resumeContext, Prog.sat_bind, Prog.sat_get, hpend, Prog.sat_modify]
  cases context with
  | userEntry entry stack => exact ⟨hkept.moved, fun _ => rfl⟩
  | afterYield => exact ⟨hkept.moved, fun _ => rfl⟩
  | afterExit => exact hres.elim
  | afterRecvBlock args =>
    rw [Prog.sat_bind, sat_returning]
    refine (sysRecvTail_sat hinv hrun' rfl hres.2 hres.1).mono ?_ ?_
    · rintro _ k' ⟨hk, msg, hmsg⟩
      refine ⟨(Kept.trans hcalm rfl hk).moved, ?_, fun hne => absurd rfl hne, fun _ => by simp⟩
      exact fun _ => ⟨cur, msg, hmsg.current, hmsg.mail, hmsg.delivered⟩
    · rintro stop k' ⟨⟨s, rfl, hs⟩, ha⟩
      have hafter : After B L k k' := After.trans hcalm (fun _ => rfl) rfl ha.after
      refine ⟨hafter.kept.moved, fun hz => absurd hz s.code_pos, fun _ => hafter.mail, ?_⟩
      exact fun _ hcode => hs (Status.code_four hcode)

theorem program_sat (h : KInv B L k) {a : Action} (hen : a.enabled k) :
    a.program.Sat k (a.Done B L k) (a.Ends B L k) := by
  have hp : a ≠ .resume → k.pending = none := by
    intro hne
    rw [Action.enabled, iff_false_left hne] at hen
    simpa using hen
  cases a with
  | syscall args =>
    simp only [Action.program, Prog.sat_bind]
    exact (handle_sat h (hp (by simp)) args).mono (fun code k' hq => hq) (fun _ _ hs => hs)
  | fault f =>
    simp only [Action.program, Prog.sat_bind]
    exact exitCurrent_after h _ (fun hids => ⟨After.refl h, hids⟩) (fun _ ha => ha)
  | store address value =>
    simp only [Action.program, Prog.sat_bind]
    exact userStore_sat h address value (fun k' ha => ⟨ha.kept.moved, ha.mail⟩)
      (fun hids => ⟨After.refl h, hids⟩) (fun _ ha => ha)
  | resume =>
    have hsome : k.pending.isSome = true := hen.mp rfl
    obtain ⟨context, hc⟩ := Option.isSome_iff_exists.mp hsome
    exact resumeContext_sat h hc

/-- One move of the system. -/
theorem step_spec (h : KInv B L k) {a : Action} {done : Option Completion}
    (hs : step a k = some (k', done)) :
    Moved B L k a.Creates (a.Overfull k) k' ∧ (done = none → SameMail k k') ∧
    ∀ c, done = some c → c.before = k ∧ c.after = k' ∧ k.sched.current = some c.task ∧
      c.call.Returned c.code k k' := by
  obtain ⟨cur, task, hrun⟩ := h.tasks.current
  rw [step] at hs
  split_ifs at hs with hen
  have hprog := program_sat h hen
  rw [Prog.sat_iff] at hprog
  split at hs
  next call code k₁ hr =>
    obtain ⟨hmoved, hret⟩ := hprog.1 _ _ hr
    simp only [hrun.current, Option.map_some, Option.some.injEq, Prod.mk.injEq] at hs
    obtain ⟨rfl, rfl⟩ := hs
    refine ⟨hmoved, (fun hn => by cases hn), ?_⟩
    intro c hc
    cases hc
    exact ⟨rfl, rfl, hrun.current, hret⟩
  next k₁ hr =>
    obtain ⟨hmoved, hmail⟩ := hprog.1 _ _ hr
    cases hs
    exact ⟨hmoved, fun _ => hmail, fun c hc => by cases hc⟩
  next k₁ hr =>
    have ha : After B L k k₁ := hprog.2 _ _ hr
    cases hs
    exact ⟨ha.kept.moved, fun _ => ha.mail, fun c hc => by cases hc⟩
  next => cases hs

end Moves

section Runs

variable {P : Action → Kernel → Prop} {as : List Action} {trace : List Completion}

/-- Every move of the run meets a condition in the state it is made in. -/
def Along (P : Action → Kernel → Prop) : List Action → Kernel → Prop
  | [], _ => True
  | a :: as, k => P a k ∧ ∀ k' done, step a k = some (k', done) → Along P as k'

theorem along_of_forall (h : ∀ a ∈ as, ∀ k, P a k) : Along P as k := by
  induction as generalizing k with
  | nil => trivial
  | cons a as ih =>
    rw [List.forall_mem_cons] at h
    exact ⟨h.1 k, fun _ _ _ => ih h.2⟩

/-- What every move that meets the condition keeps is kept along the run. -/
theorem run_along {Q : Kernel → Prop} (h : KInv B L k)
    (hstep : ∀ {L k k' a done}, KInv B L k → P a k → step a k = some (k', done) → Q k → Q k')
    (hr : run as k = some (k', trace)) (hp : Along P as k) (hq : Q k) :
    ∃ L', KInv B L' k' ∧ Q k' := by
  induction as generalizing k L trace with
  | nil =>
    cases hr
    exact ⟨L, h, hq⟩
  | cons a as ih =>
    rw [run] at hr
    split at hr
    next => cases hr
    next k₁ done hs =>
      obtain ⟨⟨k₂, trace₂⟩, hr', heq⟩ := Option.map_eq_some_iff.mp hr
      cases heq
      obtain ⟨⟨L₁, h₁, _⟩, _⟩ := step_spec h hs
      exact ih h₁ hr' (hp.2 k₁ done hs) (hstep h hp.1 hs hq)

/-- What every move keeps is kept along every run. -/
theorem run_keeps {Q : Kernel → Prop} (h : KInv B L k)
    (hstep : ∀ {L k k' a done}, KInv B L k → step a k = some (k', done) → Q k → Q k')
    (hr : run as k = some (k', trace)) (hq : Q k) : ∃ L', KInv B L' k' ∧ Q k' :=
  run_along (P := fun _ _ => True) h (fun h _ => hstep h) hr
    (along_of_forall fun _ _ _ => trivial) hq

/-- The invariant along a run. -/
theorem run_inv (h : KInv B L k) (hr : run as k = some (k', trace)) : ∃ L', KInv B L' k' := by
  obtain ⟨L', h', _⟩ := run_keeps (Q := fun _ => True) h (fun _ _ _ => trivial) hr trivial
  exact ⟨L', h'⟩

end Runs

end Dusk
