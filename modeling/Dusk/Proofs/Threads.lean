import Dusk.Proofs.Asm

/-! The stacks of the tasks hold what the assembly has left there, whatever the others do
in the meantime. -/

namespace Dusk

open Lib Lib.X64

namespace Asm

variable {P : Places} {mem mem' : ℕ → ℕ} {top : ℕ}

/-- The `SyscallFrame` of a task at the end of its stack, without `rax`. -/
structure Frame (P : Places) (mem : ℕ → ℕ) (top : ℕ) (u : User) : Prop where
  low : Holds mem (top - 136) (P.afterDispatch :: lowRegs.map u.reg)
  tail : Holds mem (top - 24) u.tail
  rip : u.rip ≤ USER_SPACE_END

/-- What `switch_context` has left on the stack of its caller. -/
structure Suspended (mem : ℕ → ℕ) (context top : ℕ) (caller : Reg → ℕ) (back : ℕ) : Prop where
  context : mem context = caller .rsp - 56
  words : Holds mem (caller .rsp - 56) (calleeRegs.map caller ++ [back])
  aligned : caller .rsp % 8 = 0
  room : top - KERNEL_STACK_SIZE + 56 ≤ caller .rsp
  below : caller .rsp + 136 ≤ top

/-- The memory of a task. -/
def StageOk (P : Places) (mem : ℕ → ℕ) (i : Slot) (t : Thread) : Prop :=
  match t.stage with
  | .fresh entry userStack => mem (P.context i) = t.top - 56 ∧
      Holds mem (t.top - 56) (contextWords P.userThreadEntry entry userStack) ∧
      entry ≤ USER_SPACE_END
  | .starting entry _ => entry ≤ USER_SPACE_END
  | .serving u => Frame P mem t.top u
  | .parked u caller back => Frame P mem t.top u ∧
      Suspended mem (P.context i) t.top caller back
  | .trapped u => u.rip ≤ USER_SPACE_END ∧ ∃ vector e, Holds mem (t.top - 184)
      (P.afterInterrupt :: interruptWords u vector e USER_CODE_SELECTOR USER_DATA_SELECTOR)
  | .user | .gone => True

theorem Frame.congr {u : User} (h : Frame P mem top u) (hlow : KERNEL_STACK_SIZE ≤ top)
    (hsame : ∀ a, top - 136 ≤ a → a < top → a ≠ top - 128 + FRAME_RAX → mem' a = mem a) :
    Frame P mem' top u := by
  have hsize : KERNEL_STACK_SIZE = 32768 := rfl
  have hrax : FRAME_RAX = 96 := rfl
  refine ⟨h.low.congr ?_, h.tail.congr ?_, h.rip⟩
  · intro x hx hlt
    simp only [List.length_cons, List.length_map, lowRegs, List.length_nil] at hlt
    exact hsame x hx (by omega) (by omega)
  · intro x hx hlt
    simp only [User.tail, List.length_cons, List.length_nil] at hlt
    exact hsame x (by omega) (by omega) (by omega)

theorem Suspended.congr {context back : ℕ} {caller : Reg → ℕ}
    (h : Suspended mem context top caller back) (hcontext : mem' context = mem context)
    (hsame : ∀ a, top - KERNEL_STACK_SIZE ≤ a → a < top → mem' a = mem a) :
    Suspended mem' context top caller back := by
  have hroom := h.room
  have hbelow := h.below
  refine ⟨hcontext.trans h.context, h.words.congr ?_, h.aligned, hroom, hbelow⟩
  intro x hx hlt
  simp only [List.length_append, List.length_map, calleeRegs, List.length_cons,
    List.length_nil] at hlt
  exact hsame x (by omega) (by omega)

/-- The memory of a task is its stack and its stack pointer. -/
theorem StageOk.congr {i : Slot} {t : Thread} (h : StageOk P mem i t)
    (hlow : KERNEL_STACK_SIZE ≤ t.top) (hcontext : mem' (P.context i) = mem (P.context i))
    (hsame : ∀ a, t.Stack a → mem' a = mem a) : StageOk P mem' i t := by
  have hsize : KERNEL_STACK_SIZE = 32768 := rfl
  unfold Thread.Stack at hsame
  unfold StageOk at h ⊢
  split
  next entry userStack hstage =>
    rw [hstage] at h
    refine ⟨hcontext.trans h.1, h.2.1.congr ?_, h.2.2⟩
    intro x hx hlt
    simp only [contextWords, List.length_cons, List.length_nil] at hlt
    exact hsame x ⟨by omega, by omega⟩
  next hstage =>
    rw [hstage] at h
    exact h
  next u hstage =>
    rw [hstage] at h
    exact h.congr hlow fun a ha hlt _ => hsame a ⟨by omega, hlt⟩
  next u caller back hstage =>
    rw [hstage] at h
    exact ⟨h.1.congr hlow fun a ha hlt _ => hsame a ⟨by omega, hlt⟩,
      h.2.congr hcontext fun a ha hlt => hsame a ⟨ha, hlt⟩⟩
  next u hstage =>
    rw [hstage] at h
    obtain ⟨hrip, vector, e, hwords⟩ := h
    refine ⟨hrip, vector, e, hwords.congr ?_⟩
    intro x hx hlt
    simp only [interruptWords, interruptRegs, List.length_cons, List.length_append,
      List.length_map, List.length_nil] at hlt
    exact hsame x ⟨by omega, by omega⟩
  all_goals trivial

/-- The tasks, whoever runs. -/
structure Table (P : Places) (current : Option Slot) (threads : Slot → Option Thread) (mem : ℕ → ℕ) :
    Prop where
  fit : ∀ j t, threads j = some t → P.Fit t.top
  apart : ∀ j j' t t', threads j = some t → threads j' = some t' → j ≠ j' →
    t.top ≤ t'.top - KERNEL_STACK_SIZE ∨ t'.top ≤ t.top - KERNEL_STACK_SIZE
  ok : ∀ j t, threads j = some t → StageOk P mem j t
  idle : ∀ j t, threads j = some t → current ≠ some j → ¬ t.stage.Running

/-- Outside the stack of a task, its stack pointer and the data of the processor, memory is
as before. -/
def Local (P : Places) (i : Slot) (t : Thread) (mem mem' : ℕ → ℕ) : Prop :=
  ∀ a, ¬ t.Stack a → a ≠ P.cpuLocal → a ≠ P.cpuLocal + 8 → a ≠ P.context i → mem' a = mem a

section Table

variable {current current' : Option Slot} {threads : Slot → Option Thread} {i : Slot} {t t' : Thread}

/-- What is local to one task leaves the others alone. -/
theorem Table.others (h : Table P current threads mem) (hP : P.Ok) (hi : threads i = some t)
    (hlocal : Local P i t mem mem') {j : Slot} {tj : Thread} (hj : threads j = some tj) (hne : j ≠ i) :
    StageOk P mem' j tj := by
  have hfit := h.fit j tj hj
  have hfit_i := h.fit i t hi
  have hapart := h.apart j i tj t hj hi hne
  have hlow := hfit.low
  have hcpu := hfit.cpuLocal
  refine (h.ok j tj hj).congr hlow ?_ ?_
  · have hcontext := hfit_i.contexts j
    have hplace := hP.contexts j
    refine hlocal _ ?_ hplace.2.1 hplace.2.2 fun heq => hne (hP.inj heq)
    unfold Thread.Stack
    omega
  · intro a ha
    have hcontext := hfit.contexts i
    unfold Thread.Stack at ha
    refine hlocal a ?_ (by omega) (by omega) (by omega)
    unfold Thread.Stack
    omega

/-- A task goes on, on its stack. -/
theorem Table.put (h : Table P current threads mem) (hP : P.Ok) (hi : threads i = some t)
    (htop : t'.top = t.top) (hlocal : Local P i t mem mem') (hok : StageOk P mem' i t')
    (hidle : current' ≠ some i → ¬ t'.stage.Running)
    (hcurrent : ∀ j, j ≠ i → current' ≠ some j → current ≠ some j) :
    Table P current' (Function.update threads i (some t')) mem' := by
  have hget : ∀ j tj, Function.update threads i (some t') j = some tj →
      (j = i ∧ tj = t') ∨ (j ≠ i ∧ threads j = some tj) := by
    intro j tj hj
    by_cases hji : j = i
    · rw [hji, Function.update_self] at hj
      exact .inl ⟨hji, (Option.some.inj hj).symm⟩
    · rw [Function.update_of_ne hji] at hj
      exact .inr ⟨hji, hj⟩
  refine ⟨?_, ?_, ?_, ?_⟩
  · intro j tj hj
    rcases hget j tj hj with ⟨rfl, rfl⟩ | ⟨_, hj⟩
    · rw [htop]
      exact h.fit j t hi
    · exact h.fit j tj hj
  · intro j j' tj tj' hj hj' hne
    rcases hget j tj hj with ⟨rfl, rfl⟩ | ⟨_, hold⟩
    · rcases hget j' tj' hj' with ⟨rfl, _⟩ | ⟨_, hold'⟩
      · exact absurd rfl hne
      · rw [htop]
        exact h.apart j j' t tj' hi hold' hne
    · rcases hget j' tj' hj' with ⟨rfl, rfl⟩ | ⟨_, hold'⟩
      · rw [htop]
        exact h.apart j j' tj t hold hi hne
      · exact h.apart j j' tj tj' hold hold' hne
  · intro j tj hj
    rcases hget j tj hj with ⟨rfl, rfl⟩ | ⟨hji, hj⟩
    · exact hok
    · exact h.others hP hi hlocal hj hji
  · intro j tj hj hcur
    rcases hget j tj hj with ⟨rfl, rfl⟩ | ⟨hji, hj⟩
    · exact hidle hcur
    · exact h.idle j tj hj (hcurrent j hji hcur)

theorem Table.congr (h : Table P current threads mem)
    (hsame : ∀ j t, threads j = some t → mem' (P.context j) = mem (P.context j) ∧
      ∀ a, t.Stack a → mem' a = mem a) : Table P current threads mem' :=
  ⟨h.fit, h.apart, fun j t hj => (h.ok j t hj).congr (h.fit j t hj).low (hsame j t hj).1
    (hsame j t hj).2, h.idle⟩

/-- A new task. -/
theorem Table.add (h : Table P current threads mem) (hfit : P.Fit t.top)
    (hunused : ∀ j tj, threads j = some tj → tj.top ≤ t.top - KERNEL_STACK_SIZE ∨
      t.top ≤ tj.top - KERNEL_STACK_SIZE)
    (hsame : ∀ j tj, threads j = some tj → StageOk P mem' j tj) (hok : StageOk P mem' i t)
    (hidle : ¬ t.stage.Running) : Table P current (Function.update threads i (some t)) mem' := by
  have hget : ∀ j tj, Function.update threads i (some t) j = some tj →
      (j = i ∧ tj = t) ∨ threads j = some tj := by
    intro j tj hj
    by_cases hji : j = i
    · rw [hji, Function.update_self] at hj
      exact .inl ⟨hji, (Option.some.inj hj).symm⟩
    · rw [Function.update_of_ne hji] at hj
      exact .inr hj
  refine ⟨?_, ?_, ?_, ?_⟩
  · intro j tj hj
    rcases hget j tj hj with ⟨rfl, rfl⟩ | hold
    · exact hfit
    · exact h.fit j tj hold
  · intro j j' tj tj' hj hj' hne
    rcases hget j tj hj with ⟨rfl, rfl⟩ | hold
    · rcases hget j' tj' hj' with ⟨rfl, _⟩ | hold'
      · exact absurd rfl hne
      · exact (hunused j' tj' hold').symm
    · rcases hget j' tj' hj' with ⟨rfl, rfl⟩ | hold'
      · exact hunused j tj hold
      · exact h.apart j j' tj tj' hold hold' hne
  · intro j tj hj
    rcases hget j tj hj with ⟨rfl, rfl⟩ | hold
    · exact hok
    · exact hsame j tj hold
  · intro j tj hj hcur
    rcases hget j tj hj with ⟨rfl, rfl⟩ | hold
    · exact hidle
    · exact h.idle j tj hold hcur

theorem Table.erase (h : Table P current threads mem) :
    Table P current (Function.update threads i none) mem := by
  have hget : ∀ j tj, Function.update threads i none j = some tj → threads j = some tj := by
    intro j tj hj
    by_cases hji : j = i
    · rw [hji, Function.update_self] at hj
      cases hj
    · rwa [Function.update_of_ne hji] at hj
  exact ⟨fun j tj hj => h.fit j tj (hget j tj hj),
    fun j j' tj tj' hj hj' => h.apart j j' tj tj' (hget j tj hj) (hget j' tj' hj'),
    fun j tj hj => h.ok j tj (hget j tj hj), fun j tj hj => h.idle j tj (hget j tj hj)⟩

end Table

/-- The stack of a task that waits to be chosen. -/
structure Waiting (P : Places) (mem : ℕ → ℕ) (j : Slot) (t : Thread) (sp ra : ℕ) (f : Reg → ℕ) :
    Prop where
  context : mem (P.context j) = sp
  aligned : sp % 8 = 0
  room : t.top - KERNEL_STACK_SIZE ≤ sp
  below : sp + 56 ≤ t.top
  words : Holds mem sp (calleeRegs.map f ++ [ra])
  fresh : ∀ entry userStack, t.stage = .fresh entry userStack →
    f .r12 = entry ∧ f .rbx = userStack ∧ ra = P.userThreadEntry ∧ sp + 56 = t.top
  parked : ∀ u caller back, t.stage = .parked u caller back →
    f = caller ∧ ra = back ∧ sp + 56 = caller .rsp

theorem StageOk.waiting {j : Slot} {t : Thread} {stage : Stage} (h : StageOk P mem j t)
    (hfit : P.Fit t.top) (hw : t.stage.woken = some stage) :
    ∃ sp ra f, Waiting P mem j t sp ra f := by
  have hsize : KERNEL_STACK_SIZE = 32768 := rfl
  have hlow := hfit.low
  have hal := hfit.aligned
  obtain ⟨top, stage₀⟩ := t
  unfold StageOk at h
  cases stage₀ with
  | fresh entry userStack =>
    let f : Reg → ℕ := fun r => if r = .r12 then entry else if r = .rbx then userStack else 0
    have hwords : contextWords P.userThreadEntry entry userStack =
        calleeRegs.map f ++ [P.userThreadEntry] := rfl
    simp only [hwords] at h hlow hal ⊢
    refine ⟨top - 56, P.userThreadEntry, f, h.1, by omega, by simp only; omega, by simp only; omega,
      h.2.1, ?_, ?_⟩
    · intro entry' userStack' hstage
      cases hstage
      exact ⟨rfl, rfl, rfl, by simp only; omega⟩
    · intro u caller back hstage
      cases hstage
  | parked u caller back =>
    obtain ⟨_, hsus⟩ := h
    have hsal := hsus.aligned
    have hsroom := hsus.room
    have hsbelow := hsus.below
    simp only at hsroom hsbelow hlow
    refine ⟨caller .rsp - 56, back, caller, hsus.context, by omega, by simp only; omega,
      by simp only; omega, hsus.words, ?_, ?_⟩
    · intro entry userStack hstage
      cases hstage
    · intro u' caller' back' hstage
      cases hstage
      exact ⟨rfl, rfl, by omega⟩
  | starting | user | serving | trapped | gone => cases hw

theorem StageOk.woken {j : Slot} {t : Thread} {stage : Stage} (h : StageOk P mem j t)
    (hw : t.stage.woken = some stage) : StageOk P mem j ⟨t.top, stage⟩ := by
  obtain ⟨top, stage₀⟩ := t
  cases stage₀ with
  | fresh entry userStack =>
    cases hw
    exact h.2.2
  | parked u caller back =>
    cases hw
    exact h.1
  | starting | user | serving | trapped | gone => cases hw

/-- The processor in user mode. -/
structure UserCtl (P : Places) (top : ℕ) (k : Control) : Prop where
  cs : k.cs = USER_CODE_SELECTOR
  ss : k.ss = USER_DATA_SELECTOR
  gsBase : k.gsBase = 0
  kernelGsBase : k.kernelGsBase = P.cpuLocal
  rsp0 : k.rsp0 = top
  rip : k.rip ≤ USER_SPACE_END

/-- The processor in the kernel, on behalf of a task. -/
structure KernelCtl (P : Places) (top : ℕ) (k : Control) : Prop where
  gsBase : k.gsBase = P.cpuLocal
  kernelGsBase : k.kernelGsBase = 0
  rsp0 : k.rsp0 = top

/-- Memory has changed only in the last `n` bytes of a stack and in the scratch word of the
processor. -/
def Within (P : Places) (top n : ℕ) (mem mem' : ℕ → ℕ) : Prop :=
  ∀ a, a < top - n ∨ top ≤ a → a ≠ P.cpuLocal + 8 → mem' a = mem a

theorem Within.local {i : Slot} {n : ℕ} {stage : Stage} (h : Within P top n mem mem')
    (hn : n ≤ KERNEL_STACK_SIZE) : Local P i ⟨top, stage⟩ mem mem' := by
  intro a hstack _ hscratch _
  unfold Thread.Stack at hstack
  exact h a (by simp only at hstack; omega) hscratch

theorem Within.cpuLocal {n : ℕ} (h : Within P top n mem mem') (hfit : P.Fit top)
    (hn : n ≤ KERNEL_STACK_SIZE) : mem' P.cpuLocal = mem P.cpuLocal := by
  have hcpu := hfit.cpuLocal
  exact h _ (by omega) (by omega)

theorem Places.Fit.topOk (hfit : P.Fit top) (hP : P.Ok) : TopOk P.cpuLocal top :=
  ⟨hfit.aligned, hfit.low, hfit.high, hP.localAligned, hP.localHigh, hfit.cpuLocal⟩

theorem sysret_cs (lstar : ℕ) : (((init lstar).star >>> 48) + 16) ||| 3 = USER_CODE_SELECTOR := by
  show (((KERNEL_DATA_SELECTOR <<< 48 ||| KERNEL_CODE_SELECTOR <<< 32) >>> 48) + 16) ||| 3 = _
  decide

theorem sysret_ss (lstar : ℕ) : (((init lstar).star >>> 48) + 8) ||| 3 = USER_DATA_SELECTOR := by
  show (((KERNEL_DATA_SELECTOR <<< 48 ||| KERNEL_CODE_SELECTOR <<< 32) >>> 48) + 8) ||| 3 = _
  decide

section Calls

variable {c : Cpu} (hfit : P.Fit top)

include hfit

/-- A system call arrives in `syscall_dispatch`. -/
structure Arrived (P : Places) (top : ℕ) (c d : Cpu) : Prop where
  frame : Frame P d.mem top (userOf c)
  rax : d.mem (top - 128 + FRAME_RAX) = c.reg .rax
  rdi : d.reg .rdi = top - 128
  rsp : d.reg .rsp = top - 136
  mem : Within P top 136 c.mem d.mem
  ctl : KernelCtl P top d.ctl

theorem enterSyscall_run (hP : P.Ok) (hc : UserCtl P top c.ctl) (htop : c.mem P.cpuLocal = top) :
    ∃ d, enterSyscall P c = some d ∧ Arrived P top c d := by
  have hsize : KERNEL_STACK_SIZE = 32768 := rfl
  have hlow := hfit.low
  have hal := hfit.aligned
  have hhigh := hfit.high
  obtain ⟨d, hd, hent⟩ := syscallEntry_run P.syscallEntry (hfit.topOk hP) hc.kernelGsBase htop
  have hrsp := hent.rsp
  obtain ⟨e, he, hp⟩ := call_run (c := d) ⟨by omega, by omega, by omega⟩ P.syscallDispatch
    P.afterDispatch
  have hrsp_e := hp.rsp
  simp only [List.length_singleton] at hrsp_e
  have hrsp_e' : e.reg .rsp = top - 136 := by omega
  have hheld := hp.held
  simp only [List.reverse_singleton] at hheld
  rw [hrsp_e'] at hheld
  have hsame : ∀ a, top - 128 ≤ a → e.mem a = d.mem a := fun a ha => hp.rest a (.inr (by omega))
  have hframe := hent.frame.congr fun x hx _ => hsame x hx
  rw [holds_append, holds_append] at hframe
  obtain ⟨⟨hlowRegs, hrax, _⟩, htail⟩ := hframe
  refine ⟨e.withCtl { d.ctl with rip := P.syscallDispatch }, by rw [enterSyscall, hd, Option.bind_some, he],
    ⟨⟨hheld.1, ?_⟩, ?_, hc.rip⟩, hrax, ?_, ?_, ?_, ?_⟩
  · have hat : top - 136 + 8 = top - 128 := by omega
    rw [hat]
    exact hlowRegs
  · have hat : top - 128 + 8 * (lowRegs.map c.reg ++ [c.reg .rax]).length = top - 24 := by
      simp only [List.length_append, List.length_map, lowRegs, List.length_cons, List.length_nil]
      omega
    rw [hat] at htail
    exact htail
  · rw [Cpu.withCtl_reg, hp.regs _ (by decide), hent.rdi]
  · rw [Cpu.withCtl_reg, hrsp_e']
  · intro a ha hscratch
    rw [Cpu.withCtl_mem, hp.rest a (by omega), hent.rest a (by omega) hscratch]
  · rw [Cpu.withCtl_ctl, hent.ctl]
    exact ⟨hc.kernelGsBase, hc.gsBase, hc.rsp0⟩

/-- A system call has returned to user mode with the code `v`. -/
structure Returned (P : Places) (top v : ℕ) (u : User) (c d : Cpu) : Prop where
  regs : ∀ r, r ≠ .rax → r ≠ .rcx → r ≠ .r11 → d.reg r = u.reg r
  rax : d.reg .rax = v
  rcx : d.reg .rcx = u.rip
  r11 : d.reg .r11 = u.rflags
  rip : d.ctl.rip = u.rip
  rflags : d.ctl.rflags = sysretFlags u.rflags
  mem : ∀ a, a ≠ P.cpuLocal + 8 → d.mem a = c.mem a
  ctl : UserCtl P top d.ctl

/-- The way back to user mode, up to `sysretq`. -/
theorem exit_run (hP : P.Ok) {u : User} (hframe : Frame P c.mem top u)
    (hrsp : c.reg .rsp = top - 136) (hctl : KernelCtl P top c.ctl) :
    ∃ d, c.ret.bind (X64.run syscallExit) = some d ∧
      Restored P.cpuLocal (c.mem (top - 128 + FRAME_RAX)) u
        ((c.set .rsp (c.reg .rsp + 8)).withCtl { c.ctl with rip := c.mem (c.reg .rsp) }) d := by
  have hsize : KERNEL_STACK_SIZE = 32768 := rfl
  have hlow := hfit.low
  have hal := hfit.aligned
  have hhigh := hfit.high
  have hfits : Fits (c.reg .rsp) := ⟨by omega, by omega⟩
  have hret := ret_eq hfits
  let c₁ : Cpu :=
    (c.set .rsp (c.reg .rsp + 8)).withCtl { c.ctl with rip := c.mem (c.reg .rsp) }
  have hrsp₁ : c₁.reg .rsp = top - 128 := by
    rw [Cpu.withCtl_reg, Cpu.set_reg_self]
    omega
  have hwords : Holds c.mem (top - 128)
      (lowRegs.map u.reg ++ [c.mem (top - 128 + FRAME_RAX)] ++ u.tail) := by
    rw [holds_append, holds_append]
    have hat : top - 136 + 8 = top - 128 := by omega
    have hend : top - 128 + 8 * (lowRegs.map u.reg ++ [c.mem (top - 128 + FRAME_RAX)]).length =
        top - 24 := by
      simp only [List.length_append, List.length_map, lowRegs, List.length_cons, List.length_nil]
      omega
    have hregs := hframe.low.2
    rw [hat] at hregs
    rw [hend]
    exact ⟨⟨hregs, rfl, trivial⟩, hframe.tail⟩
  obtain ⟨d, hd, hres⟩ := syscallExit_run (c := c₁) (hfit.topOk hP) hctl.gsBase hrsp₁ hwords
  exact ⟨d, by rw [hret, Option.bind_some, hd], hres⟩

theorem leaveSyscall_run (hP : P.Ok) {u : User} (hframe : Frame P c.mem top u)
    (hrsp : c.reg .rsp = top - 136) (hctl : KernelCtl P top c.ctl) :
    if P.mode.isCanonical u.rip then
      ∃ d, leaveSyscall P c = some d ∧ Returned P top (c.mem (top - 128 + FRAME_RAX)) u c d
    else leaveSyscall P c = none := by
  obtain ⟨d, hd, hres⟩ := exit_run hfit hP hframe hrsp hctl
  have hrun : leaveSyscall P c = sysretq P.mode (init P.syscallEntry) d := by
    rw [leaveSyscall, hd, Option.bind_some]
  rw [hrun, sysretq, hres.rcx]
  split_ifs
  · refine ⟨_, rfl, ?_, hres.rax, hres.rcx, hres.r11, rfl, ?_, hres.rest, ?_⟩
    · intro r hrax hrcx hr11
      by_cases hr : r = .rsp
      · rw [Cpu.withCtl_reg, hr, hres.rsp]
      · refine hres.low r ?_
        cases r <;> first | exact absurd rfl hrax | exact absurd rfl hrcx |
          exact absurd rfl hr11 | exact absurd rfl hr | decide
    · rw [Cpu.withCtl_ctl, hres.r11]
    · rw [Cpu.withCtl_ctl, hres.ctl]
      exact ⟨sysret_cs _, sysret_ss _, hctl.kernelGsBase, hctl.gsBase, hctl.rsp0, hframe.rip⟩
  · rfl

/-- An interrupt arrives in `interrupt_dispatch`. -/
structure Caught (P : Places) (top : ℕ) (c d : Cpu) : Prop where
  frame : ∃ vector e, Holds d.mem (top - 184) (P.afterInterrupt ::
    interruptWords (userOf c) vector e USER_CODE_SELECTOR USER_DATA_SELECTOR)
  rsp : d.reg .rsp = top - 184
  rdi : d.reg .rdi = top - 176
  mem : Within P top 184 c.mem d.mem
  ctl : KernelCtl P top d.ctl

theorem trap_run (hc : UserCtl P top c.ctl) {vector : ℕ} {err : Bool} (errorCode : ℕ)
    (hstub : (vector, err) ∈ stubs) :
    ∃ d, trap P vector err errorCode c = some d ∧ Caught P top c d := by
  have hsize : KERNEL_STACK_SIZE = 32768 := rfl
  have hlow := hfit.low
  have hal := hfit.aligned
  have hhigh := hfit.high
  have htop : interruptTop c = top := by
    unfold interruptTop
    dsimp only
    rw [hc.cs, hc.rsp0, if_pos (by decide)]
    omega
  obtain ⟨d, e, hd, hint⟩ := enterInterrupt_run (c := c) (P.handler vector) errorCode hstub
    (by omega) (by omega)
  have hrsp := hint.rsp
  have hrdi := hint.rdi
  have hframe := hint.frame
  rw [htop] at hrsp hrdi hframe
  rw [hc.cs, hc.ss] at hframe
  obtain ⟨x, hx, hp⟩ := call_run (c := d) ⟨by omega, by omega, by omega⟩ P.interruptDispatch
    P.afterInterrupt
  have hrsp_x := hp.rsp
  simp only [List.length_singleton] at hrsp_x
  have hrsp_x' : x.reg .rsp = top - 184 := by omega
  have hheld := hp.held
  simp only [List.reverse_singleton] at hheld
  rw [hrsp_x'] at hheld
  refine ⟨x.withCtl { d.ctl with rip := P.interruptDispatch },
    by rw [trap, hd, Option.bind_some, hx], ⟨vector, e, hheld.1, ?_⟩, hrsp_x', ?_, ?_, ?_⟩
  · have hat : top - 184 + 8 = top - 176 := by omega
    rw [hat]
    exact hframe.congr fun a ha _ => hp.rest a (.inr (by omega))
  · rw [Cpu.withCtl_reg, hp.regs _ (by decide), hrdi]
  · intro a ha _
    rw [Cpu.withCtl_mem, hp.rest a (by omega), hint.rest a (by omega)]
  · refine ⟨?_, ?_, ?_⟩
    · show d.ctl.gsBase = _
      rw [hint.gsBase, hc.cs]
      exact hc.kernelGsBase
    · show d.ctl.kernelGsBase = _
      rw [hint.kernelGsBase, hc.cs]
      exact hc.gsBase
    · show d.ctl.rsp0 = _
      rw [hint.rsp0, hc.rsp0]

theorem leaveInterrupt_run {u : User} {vector e : ℕ}
    (hframe : Holds c.mem (top - 184) (P.afterInterrupt ::
      interruptWords u vector e USER_CODE_SELECTOR USER_DATA_SELECTOR))
    (hrip : u.rip ≤ USER_SPACE_END)
    (hrsp : c.reg .rsp = top - 184) (hctl : KernelCtl P top c.ctl) :
    ∃ d, leaveInterrupt c = some d ∧ userOf d = u ∧ d.mem = c.mem ∧ UserCtl P top d.ctl := by
  have hsize : KERNEL_STACK_SIZE = 32768 := rfl
  have hlow := hfit.low
  have hal := hfit.aligned
  have hhigh := hfit.high
  have hfits : Fits (c.reg .rsp) := ⟨by omega, by omega⟩
  have hret := ret_eq hfits
  let c₁ : Cpu :=
    (c.set .rsp (c.reg .rsp + 8)).withCtl { c.ctl with rip := c.mem (c.reg .rsp) }
  have hrsp₁ : c₁.reg .rsp = top - 176 := by
    rw [Cpu.withCtl_reg, Cpu.set_reg_self]
    omega
  have hwords := hframe.2
  have hat : top - 184 + 8 = top - 176 := by omega
  rw [hat] at hwords
  obtain ⟨d, hd, hregs, hmem, hdctl⟩ := interruptReturn_run (c := c₁) hrsp₁ (by omega) (by omega)
    hwords
  refine ⟨d, ?_, ?_, hmem, ?_⟩
  · rw [leaveInterrupt, hret, Option.bind_some]
    exact hd
  · unfold userOf
    rw [hdctl, funext hregs]
  · rw [hdctl]
    exact ⟨rfl, rfl, hctl.kernelGsBase, hctl.gsBase, hctl.rsp0, hrip⟩

end Calls

section Switching

/-- The words that a call of `switch_context` pushes are not at `a`. -/
def Spared (c : Cpu) (a : ℕ) : Prop := a < c.reg .rsp - 56 ∨ c.reg .rsp ≤ a

/-- One task has been left for another. -/
structure Resumed (P : Places) (previous nextTop sp ra back : ℕ) (f : Reg → ℕ) (c d : Cpu) :
    Prop where
  rsp : d.reg .rsp = sp + 56
  regs : ∀ r ∈ calleeRegs, d.reg r = f r
  words : Holds d.mem (c.reg .rsp - 56) (calleeRegs.map c.reg ++ [back])
  context : d.mem previous = c.reg .rsp - 56
  cpuLocal : d.mem P.cpuLocal = nextTop
  rest : ∀ a, Spared c a → a ≠ previous → a ≠ P.cpuLocal → d.mem a = c.mem a
  ctl : d.ctl = { c.ctl with rip := ra, rsp0 := nextTop }

theorem performSwitch_run {c : Cpu} {previous next nextTop sp ra back : ℕ} {f : Reg → ℕ}
    (hroom : c.Room 7) (hprevious : Fits previous ∧ Spared c previous ∧ previous ≠ P.cpuLocal)
    (hnext : Fits next ∧ Spared c next ∧ next ≠ P.cpuLocal) (hne : next ≠ previous)
    (hlocal : Spared c P.cpuLocal) (hsp : c.mem next = sp) (hal : sp % 8 = 0)
    (hhigh : sp + 56 < ADDRESS_END) (hsaved : Holds c.mem sp (calleeRegs.map f ++ [ra]))
    (hclear : ∀ a, sp ≤ a → a < sp + 56 → Spared c a ∧ a ≠ previous ∧ a ≠ P.cpuLocal) :
    ∃ d, performSwitch P previous next nextTop back c = some d ∧
      Resumed P previous nextTop sp ra back f c d := by
  have hlow := hroom.low
  have hral := hroom.aligned
  have hrhigh := hroom.high
  let c₀ : Cpu :=
    { (c.set .rdi previous).set .rsi next with
      mem := Function.update c.mem P.cpuLocal nextTop
      ctl := { c.ctl with rsp0 := nextTop } }
  have hreg₀ : ∀ r, r ≠ .rdi → r ≠ .rsi → c₀.reg r = c.reg r := by
    intro r hrdi hrsi
    have hset : c₀.reg r = ((c.set .rdi previous).set .rsi next).reg r := rfl
    rw [hset, Cpu.set_reg_of_ne _ _ hrsi, Cpu.set_reg_of_ne _ _ hrdi]
  have hrdi₀ : c₀.reg .rdi = previous := by
    have hset : c₀.reg .rdi = ((c.set .rdi previous).set .rsi next).reg .rdi := rfl
    rw [hset, Cpu.set_reg_of_ne _ _ (by decide), Cpu.set_reg_self]
  have hrsi₀ : c₀.reg .rsi = next := Cpu.set_reg_self (c.set .rdi previous) .rsi next
  have hrsp₀ : c₀.reg .rsp = c.reg .rsp := hreg₀ _ (by decide) (by decide)
  have hmem₀ : ∀ a, a ≠ P.cpuLocal → c₀.mem a = c.mem a := fun a ha => Function.update_of_ne ha _ _
  obtain ⟨d, hd, hp⟩ := call_run (c := c₀) ⟨by omega, by omega, by omega⟩ P.switchContext back
  have hrsp_d := hp.rsp
  simp only [List.length_singleton] at hrsp_d
  let c₁ : Cpu := d.withCtl { c₀.ctl with rip := P.switchContext }
  have hrsp₁ : c₁.reg .rsp = c.reg .rsp - 8 := by
    show d.reg .rsp = _
    omega
  have hreg₁ : ∀ r, r ≠ .rsp → c₁.reg r = c₀.reg r := hp.regs
  have hmem₁ : ∀ a, Spared c a → a ≠ P.cpuLocal → c₁.mem a = c.mem a := by
    intro a ha hl
    have hrest : d.mem a = c₀.mem a := hp.rest a (by unfold Spared at ha; omega)
    exact hrest.trans (hmem₀ a hl)
  have hclear₁ : ∀ a, Spared c a → Clear c₁ a := by
    intro a ha
    unfold Spared at ha
    unfold Clear
    omega
  have hrdi₁ : c₁.reg .rdi = previous := (hreg₁ _ (by decide)).trans hrdi₀
  have hrsi₁ : c₁.reg .rsi = next := (hreg₁ _ (by decide)).trans hrsi₀
  obtain ⟨e, he, hsw⟩ := switchContext_run (c := c₁) (f := f)
    ⟨by omega, by omega, by omega⟩ (by rw [hrdi₁]; exact hprevious.1)
    (by rw [hrdi₁]; exact hclear₁ _ hprevious.2.1) (by rw [hrsi₁]; exact hnext.1)
    (by rw [hrsi₁]; exact hclear₁ _ hnext.2.1) (by rw [hrsi₁, hrdi₁]; exact hne)
    (by rw [hrsi₁, hmem₁ _ hnext.2.1 hnext.2.2, hsp]) hal hhigh
    (hsaved.congr fun a ha hlt => hmem₁ a (hclear a ha hlt).1 (hclear a ha hlt).2.2)
    (fun a ha hlt => ⟨hclear₁ a (hclear a ha hlt).1, by rw [hrdi₁]; exact (hclear a ha hlt).2.1⟩)
  have hsub : c₁.reg .rsp - 48 = c.reg .rsp - 56 := by omega
  have hsaved' := hsw.saved
  have hcontext := hsw.context
  rw [hsub] at hsaved' hcontext
  rw [hrdi₁] at hcontext
  have hregs : calleeRegs.map c₁.reg = calleeRegs.map c.reg := by
    refine List.map_congr_left fun r hr => ?_
    have hcases : r ≠ .rsp ∧ r ≠ .rdi ∧ r ≠ .rsi := by
      refine ⟨?_, ?_, ?_⟩ <;> (rintro rfl; exact absurd hr (by decide))
    rw [hreg₁ r hcases.1, hreg₀ r hcases.2.1 hcases.2.2]
  have hrest : ∀ a, Spared c a → a ≠ previous → e.mem a = c₁.mem a := by
    intro a ha hprev
    exact hsw.rest a (hclear₁ a ha) (by rw [hrdi₁]; exact hprev)
  refine ⟨e, ?_, hsw.rsp, hsw.regs, ?_, hcontext, ?_, ?_, ?_⟩
  · show ((c₀.call P.switchContext back).bind _).bind _ = _
    rw [hd, Option.bind_some]
    exact he
  · rw [holds_append, ← hregs]
    refine ⟨hsaved', ?_, trivial⟩
    have hat : c.reg .rsp - 56 + 8 * (calleeRegs.map c₁.reg).length = d.reg .rsp := by
      simp only [List.length_map, calleeRegs, List.length_cons, List.length_nil]
      omega
    rw [hat]
    have hback : d.mem (d.reg .rsp) = back := hp.held.1
    rw [← hback]
    refine hsw.rest _ (.inr le_rfl) ?_
    rw [hrdi₁]
    have := hprevious.2.1
    unfold Spared at this
    show d.reg .rsp ≠ _
    omega
  · rw [hrest _ hlocal (fun h => hprevious.2.2 h.symm)]
    have hkeep : c₁.mem P.cpuLocal = c₀.mem P.cpuLocal :=
      hp.rest _ (by unfold Spared at hlocal; omega)
    rw [hkeep]
    exact Function.update_self _ _ _
  · intro a ha hprev hl
    rw [hrest a ha hprev, hmem₁ a ha hl]
  · rw [hsw.ctl]
    rfl

end Switching

section Beginning

variable {c d : Cpu} {entry userStack : ℕ} (hfit : P.Fit top)

include hfit

theorem beginThread_run (back : ℕ) (hrsp : c.reg .rsp = top) : ∃ d, beginThread P back c = some d ∧
    d.reg .rsp = top - 8 ∧ d.reg .rdi = c.reg .r12 ∧ d.reg .rsi = c.reg .rbx ∧
    (∀ a, a < top - KERNEL_STACK_SIZE ∨ top ≤ a → d.mem a = c.mem a) ∧
    d.ctl = { c.ctl with rip := P.enterUser } := by
  have hsize : KERNEL_STACK_SIZE = 32768 := rfl
  have hlow := hfit.low
  have hal := hfit.aligned
  have hhigh := hfit.high
  let c₁ : Cpu := (c.set .rdi (c.reg .r12)).set .rsi (c.reg .rbx)
  have hrun : X64.run userThreadEntry c = some c₁ := by
    simp only [userThreadEntry, X64.run, exec, Option.bind_some]
    rw [Cpu.set_reg_of_ne _ _ (by decide)]
  have hrsp₁ : c₁.reg .rsp = top := by
    rw [Cpu.set_reg_of_ne _ _ (by decide), Cpu.set_reg_of_ne _ _ (by decide), hrsp]
  obtain ⟨d, hd, hp⟩ := call_run (c := c₁) ⟨by omega, by omega, by omega⟩ P.enterUser back
  have hrsp_d := hp.rsp
  simp only [List.length_singleton] at hrsp_d
  refine ⟨d.withCtl { c₁.ctl with rip := P.enterUser }, by rw [beginThread, hrun, Option.bind_some, hd],
    ?_, ?_, ?_, ?_, rfl⟩
  · rw [Cpu.withCtl_reg]
    omega
  · rw [Cpu.withCtl_reg, hp.regs _ (by decide), Cpu.set_reg_of_ne _ _ (by decide),
      Cpu.set_reg_self]
  · rw [Cpu.withCtl_reg, hp.regs _ (by decide), Cpu.set_reg_self]
  · intro a ha
    exact hp.rest a (by omega)

/-- After the compiled start of `enter_user`, the task is in user mode. -/
theorem enter_run {o : Operands} (hrdi : c.reg .rdi = entry) (hrsi : c.reg .rsi = userStack)
    (hctl : KernelCtl P top c.ctl) (hentry : entry ≤ USER_SPACE_END) (hpro : Prologue o top c d) :
    ∃ e, (X64.run (enterUser o) d).bind iretq = some e ∧ FirstEntry entry userStack d e ∧
      UserCtl P top e.ctl ∧ ∀ a, a < top - KERNEL_STACK_SIZE ∨ top ≤ a → e.mem a = c.mem a := by
  have hsize : KERNEL_STACK_SIZE = 32768 := rfl
  have hlow := hfit.low
  have hhigh := hfit.high
  have hal := hpro.stack.aligned
  have hroom := hpro.stack.room
  have hbelow := hpro.stack.below
  obtain ⟨e, he, hfirst⟩ := enterUser_run (o := o) (c := d) ⟨by omega, by omega, by omega⟩
    ⟨hpro.data, hpro.code, hpro.ip.trans hrdi, hpro.sp.trans hrsi, hpro.free⟩
  obtain ⟨rip, rflags, hdctl⟩ := hpro.ctl
  refine ⟨e, he, hfirst, ⟨hfirst.cs, hfirst.ss, hfirst.gsBase, ?_, ?_, ?_⟩, ?_⟩
  · rw [hfirst.kernelGsBase, hdctl]
    exact hctl.gsBase
  · rw [hfirst.rsp0, hdctl]
    exact hctl.rsp0
  · rw [hfirst.rip]
    exact hentry
  · intro a ha
    rw [hfirst.rest a (by omega), hpro.mem a ha]

end Beginning

/-- The processor while a task runs. -/
def CpuOk (P : Places) (c : Cpu) (t : Thread) : Prop :=
  c.mem P.cpuLocal = t.top ∧ match t.stage with
    | .user => UserCtl P t.top c.ctl
    | .starting entry userStack => KernelCtl P t.top c.ctl ∧ c.reg .r12 = entry ∧
        c.reg .rbx = userStack ∧ c.reg .rsp = t.top
    | .serving _ | .trapped _ => KernelCtl P t.top c.ctl
    | .fresh _ _ | .parked _ _ _ | .gone => False

structure Inv (P : Places) (s : System) : Prop where
  table : Table P s.current s.threads s.cpu.mem
  running : ∀ i, s.current = some i → ∃ t, s.threads i = some t ∧ CpuOk P s.cpu t
  boot : s.current = none → s.cpu.ctl.gsBase = P.cpuLocal ∧ s.cpu.ctl.kernelGsBase = 0

section Steps

variable {s s' : System} {i j : Slot}

theorem Inv.cpu (h : Inv P s) {stage : Stage} (hr : s.Runs i top stage) :
    CpuOk P s.cpu ⟨top, stage⟩ := by
  obtain ⟨t, ht, hok⟩ := h.running i hr.1
  rw [hr.2] at ht
  cases ht
  exact hok

/-- The running task goes on. -/
theorem Inv.put (h : Inv P s) (hP : P.Ok) {stage stage' : Stage} (hr : s.Runs i top stage) {c : Cpu}
    (hlocal : Local P i ⟨top, stage⟩ s.cpu.mem c.mem) (hok : StageOk P c.mem i ⟨top, stage'⟩)
    (hcpu : CpuOk P c ⟨top, stage'⟩) : Inv P (s.put i (some ⟨top, stage'⟩) c) := by
  refine ⟨?_, ?_, ?_⟩
  · exact h.table.put hP hr.2 rfl hlocal hok (fun hne => absurd hr.1 hne) fun j _ hne => hne
  · intro j hj
    have hji : j = i := Option.some.inj (hj.symm.trans hr.1)
    exact ⟨⟨top, stage'⟩, by rw [hji]; exact Function.update_self _ _ _, hcpu⟩
  · intro hnone
    have hcur : (s.put i (some ⟨top, stage'⟩) c).current = some i := hr.1
    rw [hcur] at hnone
    cases hnone

theorem Inv.user (h : Inv P s) (hr : s.Runs i top .user) {c : Cpu} (hmove : UserMove P s c) :
    Inv P { s with cpu := c } := by
  have htable : Table P s.current s.threads c.mem := h.table.congr fun j t hj =>
    ⟨hmove.mem _ (.inr (.inl ⟨j, rfl⟩)), fun a ha => hmove.mem a (.inr (.inr ⟨j, t, hj, ha⟩))⟩
  refine ⟨htable, ?_, ?_⟩
  · intro j hj
    have hji : j = i := Option.some.inj (hj.symm.trans hr.1)
    obtain ⟨htop, hctl⟩ := h.cpu hr
    obtain ⟨rip, rflags, seg, hrip, hc⟩ := hmove.ctl
    refine ⟨⟨top, .user⟩, by rw [hji]; exact hr.2, (hmove.mem _ (.inl rfl)).trans htop, ?_⟩
    show UserCtl P top c.ctl
    rw [hc]
    exact ⟨hctl.cs, hctl.ss, hctl.gsBase, hctl.kernelGsBase, hctl.rsp0, hrip⟩
  · intro hnone
    rw [hr.1] at hnone
    cases hnone

theorem Inv.syscall (h : Inv P s) (hP : P.Ok) (hr : s.Runs i top .user) {c : Cpu}
    (hc : enterSyscall P s.cpu = some c) :
    Inv P (s.put i (some ⟨top, .serving (userOf s.cpu)⟩) c) := by
  have hfit := h.table.fit i _ hr.2
  obtain ⟨htop, hctl⟩ := h.cpu hr
  obtain ⟨d, hd, harr⟩ := enterSyscall_run hfit hP hctl htop
  cases hc.symm.trans hd
  refine h.put hP hr (harr.mem.local (by decide)) harr.frame ⟨?_, harr.ctl⟩
  exact (harr.mem.cpuLocal hfit (by decide)).trans htop

theorem Inv.interrupt (h : Inv P s) (hP : P.Ok) (hr : s.Runs i top .user) {c : Cpu}
    {vector errorCode : ℕ} {err : Bool} (hstub : (vector, err) ∈ stubs)
    (hc : trap P vector err errorCode s.cpu = some c) :
    Inv P (s.put i (some ⟨top, .trapped (userOf s.cpu)⟩) c) := by
  have hfit := h.table.fit i _ hr.2
  obtain ⟨htop, hctl⟩ := h.cpu hr
  obtain ⟨d, hd, hcaught⟩ := trap_run hfit hctl _ hstub
  cases hc.symm.trans hd
  refine h.put hP hr (hcaught.mem.local (by decide)) ⟨hctl.rip, hcaught.frame⟩ ⟨?_, hcaught.ctl⟩
  exact (hcaught.mem.cpuLocal hfit (by decide)).trans htop

theorem Inv.sysret (h : Inv P s) (hP : P.Ok) {u : User} (hr : s.Runs i top (.serving u)) {c : Cpu}
    (hrsp : s.cpu.reg .rsp = top - 136) (hc : leaveSyscall P s.cpu = some c) :
    Inv P (s.put i (some ⟨top, .user⟩) c) := by
  have hfit := h.table.fit i _ hr.2
  obtain ⟨htop, hctl⟩ := h.cpu hr
  have hret := leaveSyscall_run hfit hP (h.table.ok i _ hr.2) hrsp hctl
  split_ifs at hret
  · obtain ⟨d, hd, hdone⟩ := hret
    cases hc.symm.trans hd
    refine h.put hP hr (fun a _ _ hscratch _ => hdone.mem a hscratch) trivial ⟨?_, hdone.ctl⟩
    exact (hdone.mem _ (by omega)).trans htop
  · rw [hret] at hc
    cases hc

theorem Inv.iret (h : Inv P s) (hP : P.Ok) {u : User} (hr : s.Runs i top (.trapped u)) {c : Cpu}
    (hrsp : s.cpu.reg .rsp = top - 184) (hc : leaveInterrupt s.cpu = some c) :
    Inv P (s.put i (some ⟨top, .user⟩) c) := by
  have hfit := h.table.fit i _ hr.2
  obtain ⟨htop, hctl⟩ := h.cpu hr
  obtain ⟨hrip, vector, e, hframe⟩ := h.table.ok i _ hr.2
  obtain ⟨d, hd, _, hmem, huser⟩ := leaveInterrupt_run hfit hframe hrip hrsp hctl
  cases hc.symm.trans hd
  refine h.put hP hr (fun a _ _ _ _ => by rw [hmem]) trivial ⟨?_, huser⟩
  rw [hmem]
  exact htop

theorem Inv.enter (h : Inv P s) (hP : P.Ok) {entry userStack back : ℕ} {o : Operands} {c d e : Cpu}
    (hr : s.Runs i top (.starting entry userStack)) (hc : beginThread P back s.cpu = some c)
    (hpro : Prologue o top c d) (he : (X64.run (enterUser o) d).bind iretq = some e) :
    Inv P (s.put i (some ⟨top, .user⟩) e) := by
  have hfit := h.table.fit i _ hr.2
  have hlocal := hfit.cpuLocal
  obtain ⟨htop, hctl, hr12, hrbx, hrsp⟩ := h.cpu hr
  obtain ⟨c', hc', _, hrdi, hrsi, hmem, hctl'⟩ := beginThread_run hfit back hrsp
  cases hc.symm.trans hc'
  obtain ⟨e', he', _, huser, hrest⟩ := enter_run hfit (hrdi.trans hr12) (hrsi.trans hrbx)
    (by rw [hctl']; exact ⟨hctl.gsBase, hctl.kernelGsBase, hctl.rsp0⟩) (h.table.ok i _ hr.2) hpro
  cases he.symm.trans he'
  have hkeep : ∀ a, a < top - KERNEL_STACK_SIZE ∨ top ≤ a → e.mem a = s.cpu.mem a :=
    fun a ha => (hrest a ha).trans (hmem a ha)
  refine h.put hP hr ?_ trivial ⟨?_, huser⟩
  · intro a hstack _ _ _
    unfold Thread.Stack at hstack
    exact hkeep a (by simp only at hstack; omega)
  · exact (hkeep _ (by simp only at hlocal; omega)).trans htop

/-- Rust code of the kernel keeps the invariant. -/
theorem Inv.kernel (h : Inv P s) (hk : s.InKernel) {c : Cpu} (hmove : KernelMove P s c) :
    Inv P { s with cpu := c } := by
  obtain ⟨rip, rflags, hctl⟩ := hmove.ctl
  have hcontext : ∀ j t, s.threads j = some t → c.mem (P.context j) = s.cpu.mem (P.context j) :=
    fun j t hj => hmove.mem _ (.inr (.inl ⟨j, t, hj, rfl⟩))
  have hother : ∀ j t, s.threads j = some t → s.current ≠ some j → ∀ a, t.Stack a →
      c.mem a = s.cpu.mem a :=
    fun j t hj hne a ha => hmove.mem a (.inr (.inr (.inl ⟨j, t, hj, hne, ha⟩)))
  have hlocal := hmove.mem P.cpuLocal (.inl rfl)
  refine ⟨⟨h.table.fit, h.table.apart, ?_, h.table.idle⟩, ?_, ?_⟩
  · intro j t hj
    by_cases hcur : s.current = some j
    · rcases hk with hnone | ⟨i, top, u, hr | hr⟩
      · rw [hnone] at hcur
        cases hcur
      · cases hr.1.symm.trans hcur
        cases hr.2.symm.trans hj
        have hframe : Frame P s.cpu.mem top u := h.table.ok j _ hj
        exact hframe.congr (h.table.fit j _ hj).low fun a hlow hlt hrax =>
          hmove.mem a (.inr (.inr (.inr (.inl ⟨j, top, u, hr, hlow, hlt, hrax⟩))))
      · cases hr.1.symm.trans hcur
        cases hr.2.symm.trans hj
        obtain ⟨hrip, vector, e, hwords⟩ := h.table.ok j _ hj
        refine ⟨hrip, vector, e, hwords.congr fun a hlow hlt => ?_⟩
        have hlen : (P.afterInterrupt :: interruptWords u vector e USER_CODE_SELECTOR
          USER_DATA_SELECTOR).length = 23 := rfl
        have hfit := (h.table.fit j _ hj).low
        have hsize : KERNEL_STACK_SIZE = 32768 := rfl
        rw [hlen] at hlt
        simp only at hfit hlow hlt
        exact hmove.mem a (.inr (.inr (.inr (.inr ⟨j, top, u, hr, hlow, by omega⟩))))
    · exact (h.table.ok j t hj).congr (h.table.fit j t hj).low (hcontext j t hj)
        (hother j t hj hcur)
  · intro j hj
    obtain ⟨t, ht, htop, hcpu⟩ := h.running j hj
    refine ⟨t, ht, hlocal.trans htop, ?_⟩
    rcases hk with hnone | ⟨i, top, u, hr | hr⟩
    · rw [hnone] at hj
      cases hj
    all_goals
      cases hr.1.symm.trans hj
      cases hr.2.symm.trans ht
      show KernelCtl P top c.ctl
      rw [hctl]
      exact ⟨hcpu.gsBase, hcpu.kernelGsBase, hcpu.rsp0⟩
  · intro hnone
    show c.ctl.gsBase = _ ∧ c.ctl.kernelGsBase = _
    rw [hctl]
    exact h.boot hnone

theorem CpuOk.congr {c c' : Cpu} {t : Thread} (h : CpuOk P c t)
    (hmem : c'.mem P.cpuLocal = c.mem P.cpuLocal) (hreg : c'.reg = c.reg) (hctl : c'.ctl = c.ctl) :
    CpuOk P c' t := by
  unfold CpuOk at h ⊢
  rw [hmem, hreg, hctl]
  exact h

theorem Inv.spawn (h : Inv P s) (hP : P.Ok) {entry userStack : ℕ} (hnone : s.threads i = none)
    (hfit : P.Fit top) (hunused : s.Unused top) (hentry : entry < USER_SPACE_END) :
    Inv P (s.put i (some ⟨top, .fresh entry userStack⟩)
      { s.cpu with
        mem := Function.update (writeWords s.cpu.mem (top - 56)
          (contextWords P.userThreadEntry entry userStack)) (P.context i) (top - 56) }) := by
  have hsize : KERNEL_STACK_SIZE = 32768 := rfl
  have hlow := hfit.low
  have hlen : (contextWords P.userThreadEntry entry userStack).length = 7 := rfl
  have hcpu := hfit.cpuLocal
  have hctx := hfit.contexts
  have hplace := hP.contexts i
  generalize hmem : Function.update (writeWords s.cpu.mem (top - 56)
    (contextWords P.userThreadEntry entry userStack)) (P.context i) (top - 56) = mem'
  have hsame : ∀ a, a < top - KERNEL_STACK_SIZE ∨ top ≤ a → a ≠ P.context i →
      mem' a = s.cpu.mem a := by
    intro a ha hne
    rw [← hmem, Function.update_of_ne hne, writeWords_of_outside (by omega)]
  have hne : ∀ j t, s.threads j = some t → j ≠ i := by
    rintro j t hj rfl
    rw [hnone] at hj
    cases hj
  have hlocal : mem' P.cpuLocal = s.cpu.mem P.cpuLocal :=
    hsame _ (by omega) fun heq => hplace.2.1 heq.symm
  refine ⟨?_, ?_, ?_⟩
  · refine h.table.add (t := ⟨top, .fresh entry userStack⟩) hfit hunused ?_ ?_ id
    · intro j t hj
      have hfit_j := h.table.fit j t hj
      have happart := hunused j t hj
      have hctx_j := hfit_j.contexts i
      refine (h.table.ok j t hj).congr hfit_j.low ?_ ?_
      · exact hsame _ (by have := hctx j; omega) fun heq => hne j t hj (hP.inj heq)
      · intro a ha
        unfold Thread.Stack at ha
        exact hsame a (by omega) (by omega)
    · refine ⟨?_, ?_, hentry.le⟩
      · show mem' (P.context i) = top - 56
        rw [← hmem]
        exact Function.update_self _ _ _
      · show Holds mem' (top - 56) _
        refine Holds.congr (holds_writeWords : Holds (writeWords s.cpu.mem (top - 56) _) _ _)
          fun x hx hlt => ?_
        rw [← hmem]
        exact Function.update_of_ne (by have := hctx i; omega) _ _
  · intro j hj
    obtain ⟨t, ht, hok⟩ := h.running j hj
    refine ⟨t, ?_, hok.congr hlocal rfl rfl⟩
    show Function.update s.threads i _ j = _
    rw [Function.update_of_ne (hne j t ht)]
    exact ht
  · exact h.boot

theorem Inv.remove (h : Inv P s) {entry userStack : ℕ}
    (hi : s.threads i = some ⟨top, .fresh entry userStack⟩) : Inv P (s.put i none s.cpu) := by
  refine ⟨h.table.erase, ?_, h.boot⟩
  intro j hj
  obtain ⟨t, ht, hok⟩ := h.running j hj
  refine ⟨t, ?_, hok⟩
  show Function.update s.threads i none j = _
  rw [Function.update_of_ne, ht]
  rintro rfl
  cases hi.symm.trans ht
  exact hok.2

section Choosing

variable {t : Thread} {stage stage' : Stage} {sp ra used : ℕ} {f : Reg → ℕ} {back : ℕ}

/-- A task that waits can be chosen by the running task. -/
theorem Table.performSwitch {current : Option Slot} {threads : Slot → Option Thread} {c : Cpu}
    (h : Table P current threads c.mem) (hP : P.Ok) (hi : threads i = some ⟨top, stage⟩)
    (hj : threads j = some t) (hne : j ≠ i) (hwait : Waiting P c.mem j t sp ra f)
    (hcall : AtCall top used c) (back : ℕ) : ∃ d,
      Asm.performSwitch P (P.context i) (P.context j) t.top back c = some d ∧
        Resumed P (P.context i) t.top sp ra back f c d := by
  have hsize : KERNEL_STACK_SIZE = 32768 := rfl
  have hfit_i := h.fit i _ hi
  have hfit_j := h.fit j t hj
  have hlow := hfit_i.low
  have hhigh := hfit_i.high
  have hhigh_j := hfit_j.high
  have hlocal_i := hfit_i.cpuLocal
  have hlocal_j := hfit_j.cpuLocal
  have hctx_ii := hfit_i.contexts i
  have hctx_ij := hfit_i.contexts j
  have hctx_ji := hfit_j.contexts i
  have hapart := h.apart j i t _ hj hi hne
  have hal := hcall.aligned
  have hroom := hcall.room
  have hbelow := hcall.below
  have hwroom := hwait.room
  have hwbelow := hwait.below
  simp only at hlow hhigh hlocal_i hctx_ii hctx_ij hapart
  have hspared : ∀ a, a < top - KERNEL_STACK_SIZE ∨ top ≤ a → Spared c a := by
    intro a ha
    unfold Spared
    omega
  refine performSwitch_run ⟨hal, by omega, by omega⟩
    ⟨(hP.contexts i).1, hspared _ (by omega), (hP.contexts i).2.1⟩
    ⟨(hP.contexts j).1, hspared _ (by omega), (hP.contexts j).2.1⟩ (fun heq => hne (hP.inj heq))
    (hspared _ (by omega)) hwait.context hwait.aligned (by omega) hwait.words ?_
  intro a ha hlt
  exact ⟨hspared a (by omega), by omega, by omega⟩

/-- The processor after the choice of a task. -/
theorem Waiting.cpuOk {c d : Cpu} {previous : ℕ} (hwait : Waiting P c.mem j t sp ra f)
    (hw : t.stage.woken = some stage') (hres : Resumed P previous t.top sp ra back f c d)
    (hgs : c.ctl.gsBase = P.cpuLocal) (hkernel : c.ctl.kernelGsBase = 0) :
    CpuOk P d ⟨t.top, stage'⟩ := by
  have hctl : KernelCtl P t.top d.ctl := by
    rw [hres.ctl]
    exact ⟨hgs, hkernel, rfl⟩
  refine ⟨hres.cpuLocal, ?_⟩
  cases hstage : t.stage with
  | fresh entry userStack =>
    obtain ⟨hr12, hrbx, _, hsp⟩ := hwait.fresh entry userStack hstage
    rw [hstage] at hw
    cases hw
    exact ⟨hctl, (hres.regs _ (by decide)).trans hr12, (hres.regs _ (by decide)).trans hrbx,
      hres.rsp.trans hsp⟩
  | parked u caller back =>
    rw [hstage] at hw
    cases hw
    exact hctl
  | starting | user | serving | trapped | gone =>
    rw [hstage] at hw
    cases hw

/-- A choice of a task writes to the stack that is left and to its stack pointer. -/
theorem Resumed.local {c d : Cpu} (hres : Resumed P (P.context i) t.top sp ra back f c d)
    (hcall : AtCall top used c) : Local P i ⟨top, stage⟩ c.mem d.mem := by
  have hroom := hcall.room
  have hbelow := hcall.below
  intro a hstack hlocal _ hctx
  unfold Thread.Stack at hstack
  simp only at hstack
  exact hres.rest a (by unfold Spared; omega) hctx hlocal

/-- The tasks after the running task has been left in the stage `stage'`. -/
theorem Table.leave {threads : Slot → Option Thread} {mem : ℕ → ℕ} {left : Thread}
    (h : Table P (some i) threads mem) (hP : P.Ok) (hi : threads i = some ⟨top, stage⟩)
    (hj : threads j = some t) (hne : j ≠ i) (hw : t.stage.woken = some stage')
    (hlocal : Local P i ⟨top, stage⟩ mem mem') (htop : left.top = top)
    (hok : StageOk P mem' i left) (hidle : ¬ left.stage.Running) :
    Table P (some j) (Function.update (Function.update threads i (some left)) j
      (some ⟨t.top, stage'⟩)) mem' := by
  have hleft : Table P none (Function.update threads i (some left)) mem' :=
    h.put hP hi htop hlocal hok (fun _ => hidle) fun k hk _ heq => hk (Option.some.inj heq).symm
  have hj' : Function.update threads i (some left) j = some t := by
    rw [Function.update_of_ne hne, hj]
  refine hleft.put hP hj' rfl (fun _ _ _ _ _ => rfl) ((hleft.ok j t hj').woken hw)
    (fun hcur => absurd rfl hcur) ?_
  intro k _ _ heq
  cases heq

theorem Inv.switch (h : Inv P s) (hP : P.Ok) {u : User} (hr : s.Runs i top (.serving u)) (hne : j ≠ i)
    (hj : s.threads j = some t) (hw : t.stage.woken = some stage')
    (hcall : AtCall top 136 s.cpu) {c : Cpu}
    (hc : Asm.performSwitch P (P.context i) (P.context j) t.top back s.cpu = some c) :
    Inv P { (s.put i (some ⟨top, .parked u s.cpu.reg back⟩) c).put j (some ⟨t.top, stage'⟩) c with
      current := some j } := by
  have htable := h.table
  have hfit := htable.fit i _ hr.2
  have hctx := hfit.contexts i
  have hlocal := hfit.cpuLocal
  have hroom := hcall.room
  have hbelow := hcall.below
  obtain ⟨_, hctl⟩ := h.cpu hr
  obtain ⟨sp, ra, f, hwait⟩ := (htable.ok j t hj).waiting (htable.fit j t hj) hw
  obtain ⟨d, hd, hres⟩ := htable.performSwitch hP hr.2 hj hne hwait hcall back
  cases hc.symm.trans hd
  have hok : StageOk P c.mem i ⟨top, .parked u s.cpu.reg back⟩ := by
    have hframe : Frame P s.cpu.mem top u := htable.ok i _ hr.2
    simp only at hctx hlocal
    refine ⟨hframe.congr hfit.low ?_, hres.context, hres.words, hcall.aligned, hroom, hbelow⟩
    intro a ha hlt _
    exact hres.rest a (.inr (by omega)) (by omega) (by omega)
  rw [hr.1] at htable
  refine ⟨?_, ?_, by intro hnone; cases hnone⟩
  · exact htable.leave hP hr.2 hj hne hw (hres.local hcall) rfl hok id
  · intro k hk
    cases hk
    exact ⟨_, Function.update_self _ _ _, hwait.cpuOk hw hres hctl.gsBase hctl.kernelGsBase⟩

theorem Inv.exit (h : Inv P s) (hP : P.Ok) {u : User}
    (hr : s.Runs i top (.serving u) ∨ s.Runs i top (.trapped u)) (hne : j ≠ i)
    (hj : s.threads j = some t) (hw : t.stage.woken = some stage') (hcall : AtCall top 0 s.cpu)
    {c : Cpu} (hc : Asm.performSwitch P (P.context i) (P.context j) t.top back s.cpu = some c) :
    Inv P { (s.put i (some ⟨top, .gone⟩) c).put j (some ⟨t.top, stage'⟩) c with
      current := some j } := by
  have htable := h.table
  obtain ⟨stage, hrun, hctl⟩ : ∃ stage, s.Runs i top stage ∧ KernelCtl P top s.cpu.ctl := by
    rcases hr with hr | hr
    · exact ⟨_, hr, (h.cpu hr).2⟩
    · exact ⟨_, hr, (h.cpu hr).2⟩
  obtain ⟨sp, ra, f, hwait⟩ := (htable.ok j t hj).waiting (htable.fit j t hj) hw
  obtain ⟨d, hd, hres⟩ := htable.performSwitch hP hrun.2 hj hne hwait hcall back
  cases hc.symm.trans hd
  rw [hrun.1] at htable
  refine ⟨?_, ?_, by intro hnone; cases hnone⟩
  · exact htable.leave hP hrun.2 hj hne hw (hres.local hcall) rfl trivial id
  · intro k hk
    cases hk
    exact ⟨_, Function.update_self _ _ _, hwait.cpuOk hw hres hctl.gsBase hctl.kernelGsBase⟩

/-- `scheduler::start` can choose any task that waits. -/
theorem Inv.starts (h : Inv P s) (hP : P.Ok) (hj : s.threads j = some t)
    (hwait : Waiting P s.cpu.mem j t sp ra f) (hcall : AtCall P.bootTop 0 s.cpu)
    (hcontext : s.cpu.reg .rsp ≤ P.bootContext) (back : ℕ) : ∃ d,
      Asm.performSwitch P P.bootContext (P.context j) t.top back s.cpu = some d ∧
        Resumed P P.bootContext t.top sp ra back f s.cpu d := by
  have hsize : KERNEL_STACK_SIZE = 32768 := rfl
  have hfit := h.table.fit j t hj
  have hhigh_j := hfit.high
  have hlocal_j := hfit.cpuLocal
  have hboot := hfit.boot
  have hbootContext := hfit.bootContext
  obtain ⟨hbootFits, hbootLocal, hbootCtx⟩ := hP.boot
  obtain ⟨_, hbootLow, hbootHigh, hlocal, hctx⟩ := hP.bootStack
  have hctx_j := hctx j
  have hal := hcall.aligned
  have hroom := hcall.room
  have hbelow := hcall.below
  have hwroom := hwait.room
  have hwbelow := hwait.below
  have hspared : ∀ a, a < P.bootTop - KERNEL_STACK_SIZE ∨ P.bootTop ≤ a → Spared s.cpu a := by
    intro a ha
    unfold Spared
    omega
  refine performSwitch_run ⟨hal, by omega, by omega⟩ ⟨hbootFits, .inr hcontext, hbootLocal⟩
    ⟨(hP.contexts j).1, hspared _ (by omega), (hP.contexts j).2.1⟩ (hbootCtx j)
    (hspared _ (by omega)) hwait.context hwait.aligned (by omega) hwait.words ?_
  intro a ha hlt
  exact ⟨hspared a (by omega), by omega, by omega⟩

theorem Inv.start (h : Inv P s) (hP : P.Ok) (hnone : s.current = none) (hj : s.threads j = some t)
    (hw : t.stage.woken = some stage') (hcall : AtCall P.bootTop 0 s.cpu)
    (hcontext : s.cpu.reg .rsp ≤ P.bootContext) {c : Cpu}
    (hc : Asm.performSwitch P P.bootContext (P.context j) t.top back s.cpu = some c) :
    Inv P { s.put j (some ⟨t.top, stage'⟩) c with current := some j } := by
  have htable := h.table
  obtain ⟨sp, ra, f, hwait⟩ := (htable.ok j t hj).waiting (htable.fit j t hj) hw
  obtain ⟨d, hd, hres⟩ := h.starts hP hj hwait hcall hcontext back
  cases hc.symm.trans hd
  obtain ⟨_, hbootLocal, hbootCtx⟩ := hP.boot
  obtain ⟨_, _, _, hlocal, hctx⟩ := hP.bootStack
  have hroom := hcall.room
  have hbelow := hcall.below
  have hsame : Table P s.current s.threads c.mem := by
    refine htable.congr fun k tk hk => ?_
    have hfit := htable.fit k tk hk
    have hboot := hfit.boot
    have hbootContext := hfit.bootContext
    have hcpu := hfit.cpuLocal
    have hctx_k := hctx k
    refine ⟨hres.rest _ (by unfold Spared; omega) (hbootCtx k) (hP.contexts k).2.1, ?_⟩
    intro a ha
    unfold Thread.Stack at ha
    exact hres.rest a (by unfold Spared; omega) (by omega) (by omega)
  refine ⟨?_, ?_, by intro hcur; cases hcur⟩
  · refine hsame.put hP hj rfl (fun _ _ _ _ _ => rfl) ((hsame.ok j t hj).woken hw)
      (fun hcur => absurd rfl hcur) ?_
    intro k _ _
    rw [hnone]
    simp
  · intro k hk
    cases hk
    exact ⟨_, Function.update_self _ _ _,
      hwait.cpuOk hw hres (h.boot hnone).1 (h.boot hnone).2⟩

end Choosing

theorem Step.inv (h : Inv P s) (hP : P.Ok) (hs : Step P s s') : Inv P s' := by
  cases hs with
  | user hr hmove => exact h.user hr hmove
  | syscall hr hc => exact h.syscall hP hr hc
  | interrupt hr hstub _ hc => exact h.interrupt hP hr hstub hc
  | kernel hk hmove => exact h.kernel hk hmove
  | spawn _ hnone hfit hunused hentry => exact h.spawn hP hnone hfit hunused hentry
  | remove _ hi => exact h.remove hi
  | start hnone hj hw hcall hcontext hc => exact h.start hP hnone hj hw hcall hcontext hc
  | switch hr hne hj hw hcall hc => exact h.switch hP hr hne hj hw hcall hc
  | exit hr hne hj hw hcall hc => exact h.exit hP hr hne hj hw hcall hc
  | enter hr hc hpro he => exact h.enter hP hr hc hpro he
  | sysret hr hrsp hc => exact h.sysret hP hr hrsp hc
  | iret hr hrsp hc => exact h.iret hP hr hrsp hc

theorem Booted.inv (h : Booted P s) : Inv P s := by
  have hnone : ∀ j t, s.threads j ≠ some t := by
    intro j t hj
    rw [h.threads j] at hj
    cases hj
  refine ⟨⟨fun j t hj => absurd hj (hnone j t), fun j _ t _ hj => absurd hj (hnone j t),
    fun j t hj => absurd hj (hnone j t), fun j t hj => absurd hj (hnone j t)⟩, ?_,
    fun _ => ⟨h.gsBase, h.kernelGsBase⟩⟩
  intro i hi
  rw [h.current] at hi
  cases hi

theorem Reached.step (h : Reached P s) (hs : Step P s s') : Reached P s' := by
  obtain ⟨s₀, hboot, hrun⟩ := h
  exact ⟨s₀, hboot, hrun.tail hs⟩

theorem Reached.inv (h : Reached P s) (hP : P.Ok) : Inv P s := by
  obtain ⟨s₀, hboot, hrun⟩ := h
  induction hrun with
  | refl => exact hboot.inv
  | tail _ hs ih => exact hs.inv ih hP

/-- The start of `enter_user` that leaves its arguments where they are. -/
theorem exists_prologue {c : Cpu} (hfit : P.Fit top) (hrsp : c.reg .rsp = top - 8) :
    ∃ d, Prologue ⟨.rax, .rcx, .rdi, .rsi⟩ top c d := by
  have hsize : KERNEL_STACK_SIZE = 32768 := rfl
  have hlow := hfit.low
  have hal := hfit.aligned
  let d : Cpu := (c.set .rax USER_DATA_SELECTOR).set .rcx USER_CODE_SELECTOR
  have hreg : ∀ r, r ≠ .rax → r ≠ .rcx → d.reg r = c.reg r := by
    intro r hrax hrcx
    rw [Cpu.set_reg_of_ne _ _ hrcx, Cpu.set_reg_of_ne _ _ hrax]
  have hrsp_d := hreg .rsp (by decide) (by decide)
  refine ⟨d, ?_, Cpu.set_reg_self _ _ _, hreg .rdi (by decide) (by decide),
    hreg .rsi (by decide) (by decide), by decide, ⟨by omega, by omega, by omega⟩,
    fun _ _ => rfl, ⟨_, _, rfl⟩⟩
  exact (Cpu.set_reg_of_ne _ _ (by decide)).trans (Cpu.set_reg_self _ _ _)

/-- Nothing stops a new task on its way to user mode. -/
theorem Reached.enters (h : Reached P s) (hP : P.Ok) {entry userStack : ℕ}
    (hr : s.Runs i top (.starting entry userStack)) :
    ∃ s', Reached P s' ∧ s'.Runs i top .user ∧ s'.cpu.ctl.rip = entry ∧
      ∀ k, k ≠ i → s'.threads k = s.threads k := by
  have hinv := h.inv hP
  have hfit : P.Fit top := hinv.table.fit i _ hr.2
  obtain ⟨_, hctl, hr12, hrbx, hrsp⟩ := hinv.cpu hr
  obtain ⟨c, hc, hrsp_c, hrdi, hrsi, _, hctl'⟩ := beginThread_run hfit 0 hrsp
  obtain ⟨d, hpro⟩ := exists_prologue hfit hrsp_c
  obtain ⟨e, he, hfirst, _⟩ := enter_run hfit (hrdi.trans hr12) (hrsi.trans hrbx)
    (by rw [hctl']; exact ⟨hctl.gsBase, hctl.kernelGsBase, hctl.rsp0⟩)
    (hinv.table.ok i _ hr.2) hpro
  refine ⟨_, h.step (.enter hr hc hpro he), ⟨hr.1, Function.update_self _ _ _⟩, hfirst.rip, ?_⟩
  intro k hk
  exact Function.update_of_ne hk _ _

/-- The arguments of `handle` are the registers of the task. -/
theorem Arrived.args {c d : Cpu} (h : Arrived P top c d) (hfit : P.Fit top) :
    dispatchArgs d.mem (d.reg .rdi) = ⟨.ofNat 64 (c.reg .rax), .ofNat 64 (c.reg .rdi),
      .ofNat 64 (c.reg .rsi), .ofNat 64 (c.reg .rdx), .ofNat 64 (c.reg .r10),
      .ofNat 64 (c.reg .r8)⟩ := by
  have hsize : KERNEL_STACK_SIZE = 32768 := rfl
  have hlow := hfit.low
  have hat : top - 136 + 8 = top - 128 := by omega
  have hframe := h.frame.low.2
  rw [hat] at hframe
  simp only [lowRegs, List.map_cons, List.map_nil, Holds, userOf, Nat.add_assoc,
    Nat.reduceAdd] at hframe
  obtain ⟨_, _, _, _, _, _, _, hr8, hr10, hrdx, hrsi, hrdi, _⟩ := hframe
  have hrax := h.rax
  simp only [FRAME_RAX] at hrax
  simp only [dispatchArgs, h.rdi, hrax, hrdi, hrsi, hrdx, hr10, hr8]

theorem Reached.arrives (h : Reached P s) (hP : P.Ok) (hr : s.Runs i top .user) :
    ∃ c, enterSyscall P s.cpu = some c ∧ Arrived P top s.cpu c := by
  have hinv := h.inv hP
  obtain ⟨htop, hctl⟩ := hinv.cpu hr
  exact enterSyscall_run (hinv.table.fit i _ hr.2) hP hctl htop

theorem Reached.leaves (h : Reached P s) (hP : P.Ok) {u : User} (hr : s.Runs i top (.serving u))
    (hrsp : s.cpu.reg .rsp = top - 136) :
    if P.mode.isCanonical u.rip then ∃ c, leaveSyscall P s.cpu = some c ∧
      Returned P top (s.cpu.mem (top - 128 + FRAME_RAX)) u s.cpu c
    else leaveSyscall P s.cpu = none := by
  have hinv := h.inv hP
  exact leaveSyscall_run (hinv.table.fit i _ hr.2) hP (hinv.table.ok i _ hr.2) hrsp
    (hinv.cpu hr).2

/-- The address that a system call gives `sysretq` in `rcx`. -/
theorem Reached.sysretAddress (h : Reached P s) (hP : P.Ok) {u : User}
    (hr : s.Runs i top (.serving u)) (hrsp : s.cpu.reg .rsp = top - 136) :
    ∃ d, s.cpu.ret.bind (X64.run syscallExit) = some d ∧ d.reg .rcx = u.rip := by
  have hinv := h.inv hP
  obtain ⟨d, hd, hres⟩ := exit_run (hinv.table.fit i _ hr.2) hP (hinv.table.ok i _ hr.2) hrsp
    (hinv.cpu hr).2
  exact ⟨d, hd, hres.rcx⟩

theorem Reached.calls (h : Reached P s) (hP : P.Ok) (hr : s.Runs i top .user) :
    ∃ s', Reached P s' ∧ s'.Runs i top (.serving (userOf s.cpu)) ∧
      s'.cpu.reg .rsp = top - 136 ∧ ∀ k, k ≠ i → s'.threads k = s.threads k := by
  obtain ⟨c, hc, harr⟩ := h.arrives hP hr
  refine ⟨_, h.step (.syscall hr hc), ⟨hr.1, Function.update_self _ _ _⟩, harr.rsp, ?_⟩
  intro k hk
  exact Function.update_of_ne hk _ _

theorem Reached.traps (h : Reached P s) (hP : P.Ok) (hr : s.Runs i top .user) {vector : ℕ}
    {err : Bool} (errorCode : ℕ) (hstub : (vector, err) ∈ stubs) (hne : vector ≠ 8) :
    ∃ s', Reached P s' ∧ s'.Runs i top (.trapped (userOf s.cpu)) ∧
      s'.cpu.reg .rsp = top - 184 ∧ ∀ k, k ≠ i → s'.threads k = s.threads k := by
  have hinv := h.inv hP
  obtain ⟨c, hc, hcaught⟩ := trap_run (hinv.table.fit i _ hr.2) (hinv.cpu hr).2 errorCode hstub
  refine ⟨_, h.step (.interrupt hr hstub hne hc), ⟨hr.1, Function.update_self _ _ _⟩,
    hcaught.rsp, ?_⟩
  intro k hk
  exact Function.update_of_ne hk _ _

/-- The running task can always choose another one that waits. -/
theorem Reached.switches (h : Reached P s) (hP : P.Ok) {u : User} {t : Thread} {stage' : Stage}
    (hr : s.Runs i top (.serving u)) (hne : j ≠ i) (hj : s.threads j = some t)
    (hw : t.stage.woken = some stage') (hcall : AtCall top 136 s.cpu) (back : ℕ) :
    ∃ s', Reached P s' ∧ s'.Runs j t.top stage' ∧
      s'.threads i = some ⟨top, .parked u s.cpu.reg back⟩ := by
  have hinv := h.inv hP
  obtain ⟨sp, ra, f, hwait⟩ := (hinv.table.ok j t hj).waiting (hinv.table.fit j t hj) hw
  obtain ⟨c, hc, _⟩ := hinv.table.performSwitch hP hr.2 hj hne hwait hcall back
  refine ⟨_, h.step (.switch hr hne hj hw hcall hc), ⟨rfl, Function.update_self _ _ _⟩, ?_⟩
  exact (Function.update_of_ne hne.symm _ _).trans (Function.update_self _ _ _)

end Steps

end Asm

end Dusk
