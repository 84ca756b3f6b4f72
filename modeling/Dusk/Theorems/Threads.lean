import Dusk.Proofs.Threads
import Dusk.Proofs.Address

/-! The assembly under any interleaving of tasks: a system call and an interrupt give a task
its general registers back, and a call of `switch_context` returns to its caller. -/

namespace Dusk

open Lib Lib.X64

namespace Asm

variable {P : Places} {s : System} {i j : Slot} {top : ℕ} {u : User}

section Small

/-- A small memory: the data of the processor, the task table, the stack of `kernel_main`
and room for the stacks of the tasks. -/
def smallPlaces : Places where
  mode := .fourLevel
  cpuLocal := 0x1000
  context i := 0x2000 + 8 * i.val
  bootContext := 0x1FFF0
  bootTop := 0x20000
  syscallEntry := 0x3000
  syscallDispatch := 0x3100
  afterDispatch := 0x3200
  handler vector := 0x4000 + 16 * vector
  interruptDispatch := 0x3300
  afterInterrupt := 0x3400
  switchContext := 0x3500
  userThreadEntry := 0x3600
  enterUser := 0x3700

theorem smallPlaces_ok : smallPlaces.Ok where
  localAligned := rfl
  localHigh := by decide
  contexts i := by
    have := i.isLt
    simp only [smallPlaces, Fits, ADDRESS_END, MAX_TASKS] at this ⊢
    omega
  inj i j h := by
    simp only [smallPlaces] at h
    exact Fin.ext (by omega)
  boot := by
    refine ⟨by decide, by decide, fun i => ?_⟩
    have := i.isLt
    simp only [smallPlaces, MAX_TASKS] at this ⊢
    omega
  bootStack := by
    refine ⟨by decide, by decide, by decide, by decide, fun i => ?_⟩
    have hsize : KERNEL_STACK_SIZE = 32768 := rfl
    have := i.isLt
    simp only [smallPlaces, MAX_TASKS] at this ⊢
    omega

/-- The stack of a task slot. -/
def smallTop (i : ℕ) : ℕ := 0x100000 * (i + 1)

theorem smallTop_fit {i : ℕ} (hi : i < 2) : smallPlaces.Fit (smallTop i) := by
  have hsize : KERNEL_STACK_SIZE = 32768 := rfl
  have hend : ADDRESS_END = 2 ^ 64 := rfl
  unfold smallTop
  refine ⟨by omega, by omega, by omega, ?_, fun j => ?_, ?_, ?_⟩ <;> simp only [smallPlaces]
  · omega
  · have hlt := j.isLt
    have htasks : MAX_TASKS = 32 := rfl
    omega
  · omega
  · omega

def smallStart : System where
  cpu :=
    { reg := fun r => if r = .rsp then 0x1F000 else 0
      mem := fun _ => 0
      ctl := ⟨0, 2, KERNEL_CODE_SELECTOR, KERNEL_DATA_SELECTOR, fun _ => KERNEL_DATA_SELECTOR, 0x1000, 0, 0⟩
      zf := false }
  current := none
  threads _ := none

def slot₀ : Slot := ⟨0, Nat.zero_lt_succ 31⟩

def slot₁ : Slot := ⟨1, Nat.succ_lt_succ (Nat.zero_lt_succ 30)⟩

/-- `kernel_main` makes a task. -/
theorem small_spawn {s : System} (hs : Reached smallPlaces s) (hnone : s.current = none) {i : Slot}
    {top entry : ℕ} (userStack : ℕ) (hi : s.threads i = none) (hfit : smallPlaces.Fit top)
    (hunused : s.Unused top) (hentry : entry < USER_SPACE_END) : ∃ s', Reached smallPlaces s' ∧
      s'.current = none ∧ s'.cpu.reg = s.cpu.reg ∧
      s'.threads = Function.update s.threads i (some ⟨top, .fresh entry userStack⟩) :=
  ⟨_, hs.step (.spawn (.inl hnone) hi hfit hunused hentry), hnone, rfl, rfl⟩

/-- Two tasks have been made, and one of them is chosen. -/
theorem small_starting : ∃ s, Reached smallPlaces s ∧
    s.Runs slot₀ (smallTop 0) (.starting 0x400000 0x7000) ∧
    s.threads slot₁ = some ⟨smallTop 1, .fresh 0x500000 0x9000⟩ := by
  have hboot : Reached smallPlaces smallStart :=
    ⟨smallStart, ⟨rfl, fun _ => rfl, rfl, rfl⟩, .refl⟩
  have hunused₀ : smallStart.Unused (smallTop 0) := by
    intro k t hk
    cases hk
  have hentry₀ : 0x400000 < USER_SPACE_END := by decide
  have hentry₁ : 0x500000 < USER_SPACE_END := by decide
  obtain ⟨s₁, hs₁, hcurrent₁, hreg₁, hthreads₁⟩ := small_spawn hboot rfl (i := slot₀) 0x7000 rfl
    (smallTop_fit (by decide)) hunused₀ hentry₀
  have hunused₁ : s₁.Unused (smallTop 1) := by
    intro k t hk
    rw [hthreads₁] at hk
    by_cases hk₀ : k = slot₀
    · rw [hk₀, Function.update_self] at hk
      cases hk
      left
      decide
    · rw [Function.update_of_ne hk₀] at hk
      cases hk
  obtain ⟨s₂, hs₂, hcurrent₂, hreg₂, hthreads₂⟩ := small_spawn hs₁ hcurrent₁ (i := slot₁) 0x9000
    (by rw [hthreads₁]; rfl) (smallTop_fit (by decide)) hunused₁ hentry₁
  have hfirst : s₂.threads slot₀ = some ⟨smallTop 0, .fresh 0x400000 0x7000⟩ := by
    rw [hthreads₂, Function.update_of_ne (by decide), hthreads₁, Function.update_self]
  have hsecond : s₂.threads slot₁ = some ⟨smallTop 1, .fresh 0x500000 0x9000⟩ := by
    rw [hthreads₂, Function.update_self]
  have hrsp : s₂.cpu.reg .rsp = 0x1F000 := by
    rw [hreg₂, hreg₁]
    rfl
  have hcall : AtCall smallPlaces.bootTop 0 s₂.cpu := by
    refine ⟨?_, ?_, ?_⟩ <;> rw [hrsp] <;> decide
  have hcontext : s₂.cpu.reg .rsp ≤ smallPlaces.bootContext := by
    rw [hrsp]
    decide
  have hinv := hs₂.inv smallPlaces_ok
  obtain ⟨sp, ra, f, hwait⟩ := (hinv.table.ok slot₀ _ hfirst).waiting
    (hinv.table.fit slot₀ _ hfirst) rfl
  obtain ⟨c, hc, _⟩ := hinv.starts smallPlaces_ok hfirst hwait hcall hcontext 0
  exact ⟨_, hs₂.step (.start hcurrent₂ hfirst rfl hcall hcontext hc),
    ⟨rfl, Function.update_self slot₀ _ s₂.threads⟩, hsecond⟩

theorem small_user : ∃ s, Reached smallPlaces s ∧ s.Runs slot₀ (smallTop 0) .user ∧
    s.cpu.ctl.rip = 0x400000 ∧ s.threads slot₁ = some ⟨smallTop 1, .fresh 0x500000 0x9000⟩ := by
  obtain ⟨s, hs, hr, hother⟩ := small_starting
  obtain ⟨s', hs', hr', hrip, hsame⟩ := hs.enters smallPlaces_ok hr
  exact ⟨s', hs', hr', hrip, (hsame slot₁ (by decide)).trans hother⟩

theorem small_serving : ∃ s u, Reached smallPlaces s ∧ s.Runs slot₀ (smallTop 0) (.serving u) ∧
    u.rip = 0x400000 ∧ s.cpu.reg .rsp = smallTop 0 - 136 ∧
    s.threads slot₁ = some ⟨smallTop 1, .fresh 0x500000 0x9000⟩ := by
  obtain ⟨s, hs, hr, hrip, hother⟩ := small_user
  obtain ⟨s', hs', hr', hrsp, hsame⟩ := hs.calls smallPlaces_ok hr
  exact ⟨s', _, hs', hr', hrip, hrsp, (hsame slot₁ (by decide)).trans hother⟩

theorem smallTop_atCall {i used : ℕ} {c : Cpu} (h : c.reg .rsp = smallTop i - used)
    (hused : used % 8 = 0 ∧ used ≤ 184) : AtCall (smallTop i) used c := by
  have hsize : KERNEL_STACK_SIZE = 32768 := rfl
  unfold smallTop at h ⊢
  exact ⟨by omega, by omega, by omega⟩

theorem AtCall.weaken {used : ℕ} {c : Cpu} (h : AtCall top used c) : AtCall top 0 c :=
  ⟨h.aligned, h.room, (Nat.le_add_right _ used).trans h.below⟩

/-- The first task waits in `switch_context`, and the second one causes a page fault. -/
theorem small_parked : ∃ s u u' caller, Reached smallPlaces s ∧
    s.Runs slot₁ (smallTop 1) (.trapped u) ∧ s.cpu.reg .rsp = smallTop 1 - 184 ∧
    s.threads slot₀ = some ⟨smallTop 0, .parked u' caller 0x8000⟩ := by
  obtain ⟨s, u, hs, hr, _, hrsp, hother⟩ := small_serving
  obtain ⟨s₁, hs₁, hr₁, hparked⟩ := hs.switches smallPlaces_ok hr (by decide) hother rfl
    (smallTop_atCall hrsp (by decide)) 0x8000
  obtain ⟨s₂, hs₂, hr₂, _, hsame₂⟩ := hs₁.enters smallPlaces_ok hr₁
  obtain ⟨s₃, hs₃, hr₃, hrsp₃, hsame₃⟩ := hs₂.traps smallPlaces_ok hr₂ 4
    (by decide : (14, true) ∈ stubs) (by decide)
  refine ⟨s₃, userOf s₂.cpu, u, s.cpu.reg, hs₃, hr₃, hrsp₃, ?_⟩
  rw [hsame₃ slot₀ (by decide), hsame₂ slot₀ (by decide), hparked]

/-- A page fault. -/
theorem small_trapped : ∃ s u, Reached smallPlaces s ∧ s.Runs slot₀ (smallTop 0) (.trapped u) ∧
    u.rip = 0x400000 ∧ s.cpu.reg .rsp = smallTop 0 - 184 := by
  obtain ⟨s, hs, hr, hrip, _⟩ := small_user
  obtain ⟨s', hs', hr', hrsp, _⟩ := hs.traps smallPlaces_ok hr 4 (by decide : (14, true) ∈ stubs)
    (by decide)
  exact ⟨s', _, hs', hr', hrip, hrsp⟩

end Small

/-- An address the processor can return to, at the end of the user half. -/
theorem canonical_of_le (mode : PagingMode) {rip : ℕ} (h : rip ≤ USER_SPACE_END) :
    mode.isCanonical rip = true ↔ ¬ (mode = .fourLevel ∧ rip = USER_SPACE_END) := by
  have hend : USER_SPACE_END = 2 ^ 47 := rfl
  rw [isCanonical_iff]
  cases mode with
  | fourLevel =>
    simp only [PagingMode.lowerEnd, true_and]
    omega
  | fiveLevel =>
    simp only [PagingMode.lowerEnd, reduceCtorEq, false_and, not_false_iff, iff_true]
    omega

/-- Whatever the tasks do in the meantime, a system call returns with the general registers it
was made with, the code of the call in `rax`. It faults in one case: the call was made from the
last two bytes of the user half. -/
theorem syscall_transparent (hP : P.Ok) (h : Reached P s) (hr : s.Runs i top (.serving u))
    (hrsp : s.cpu.reg .rsp = top - 136) :
    if P.mode = .fourLevel ∧ u.rip = USER_SPACE_END then leaveSyscall P s.cpu = none
    else ∃ c, leaveSyscall P s.cpu = some c ∧
      Returned P top (s.cpu.mem (top - 128 + FRAME_RAX)) u s.cpu c := by
  have hframe : Frame P s.cpu.mem top u := (h.inv hP).table.ok i _ hr.2
  have hret := h.leaves hP hr hrsp
  have hcanonical := canonical_of_le P.mode hframe.rip
  split_ifs with hlast
  · rwa [if_neg (by rw [hcanonical]; exact fun hnot => hnot hlast)] at hret
  · rwa [if_pos (hcanonical.mpr hlast)] at hret

theorem syscall_transparent_small : ∃ s u c, Reached smallPlaces s ∧
    s.Runs slot₀ (smallTop 0) (.serving u) ∧ leaveSyscall smallPlaces s.cpu = some c ∧
    c.ctl.rip = 0x400000 ∧ ∀ r, r ≠ .rax → r ≠ .rcx → r ≠ .r11 → c.reg r = u.reg r := by
  obtain ⟨s, u, hs, hr, hrip, hrsp, _⟩ := small_serving
  have hret := syscall_transparent smallPlaces_ok hs hr hrsp
  have hlast : ¬ (smallPlaces.mode = .fourLevel ∧ u.rip = USER_SPACE_END) := by
    rw [hrip]
    decide
  rw [if_neg hlast] at hret
  obtain ⟨c, hc, hres⟩ := hret
  exact ⟨s, u, c, hs, hr, hc, hres.rip.trans hrip, hres.regs⟩

/-- A system call hands `handle` the registers of the task, and leaves the memory of the
other tasks alone. -/
theorem syscall_arrives (hP : P.Ok) (h : Reached P s) (hr : s.Runs i top .user) :
    ∃ c, enterSyscall P s.cpu = some c ∧
      dispatchArgs c.mem (c.reg .rdi) = ⟨.ofNat 64 (s.cpu.reg .rax), .ofNat 64 (s.cpu.reg .rdi),
        .ofNat 64 (s.cpu.reg .rsi), .ofNat 64 (s.cpu.reg .rdx), .ofNat 64 (s.cpu.reg .r10),
        .ofNat 64 (s.cpu.reg .r8)⟩ ∧
      ∀ k t a, s.threads k = some t → k ≠ i → t.Stack a → c.mem a = s.cpu.mem a := by
  have hinv := h.inv hP
  obtain ⟨c, hc, harr⟩ := h.arrives hP hr
  refine ⟨c, hc, harr.args (hinv.table.fit i _ hr.2), ?_⟩
  intro k t a hk hne ha
  have hcpu := (hinv.table.fit k t hk).cpuLocal
  have hapart := hinv.table.apart k i t _ hk hr.2 hne
  have hsize : KERNEL_STACK_SIZE = 32768 := rfl
  unfold Thread.Stack at ha
  simp only at hapart
  exact harr.mem a (by omega) (by omega)

theorem syscall_arrives_small : ∃ s c, Reached smallPlaces s ∧ s.Runs slot₀ (smallTop 0) .user ∧
    enterSyscall smallPlaces s.cpu = some c ∧
    (dispatchArgs c.mem (c.reg .rdi)).num = .ofNat 64 (s.cpu.reg .rax) := by
  obtain ⟨s, hs, hr, _⟩ := small_user
  obtain ⟨c, hc, hargs, _⟩ := syscall_arrives smallPlaces_ok hs hr
  exact ⟨s, c, hs, hr, hc, by rw [hargs]⟩

/-- A call of `switch_context` returns to its caller, with the registers that the calling
convention keeps, when the task is chosen again: by a task that yields or waits, or by one
that ends, in a system call or in an exception. -/
theorem switch_returns (hP : P.Ok) (h : Reached P s)
    (hr : s.Runs i top (.serving u) ∨ s.Runs i top (.trapped u)) (hne : j ≠ i)
    {top' back' : ℕ} {u' : User} {caller : Reg → ℕ}
    (hj : s.threads j = some ⟨top', .parked u' caller back'⟩) (hcall : AtCall top 0 s.cpu)
    (back : ℕ) :
    ∃ c, performSwitch P (P.context i) (P.context j) top' back s.cpu = some c ∧
      c.reg .rsp = caller .rsp ∧ (∀ r ∈ calleeRegs, c.reg r = caller r) ∧ c.ctl.rip = back' ∧
      c.mem P.cpuLocal = top' ∧ c.ctl.rsp0 = top' := by
  have hinv := h.inv hP
  obtain ⟨sp, ra, f, hwait⟩ := (hinv.table.ok j _ hj).waiting (hinv.table.fit j _ hj) rfl
  obtain ⟨rfl, rfl, hsp⟩ := hwait.parked u' caller back' rfl
  obtain ⟨stage, hi⟩ : ∃ stage, s.threads i = some ⟨top, stage⟩ :=
    hr.elim (fun hrun => ⟨_, hrun.2⟩) fun hrun => ⟨_, hrun.2⟩
  obtain ⟨c, hc, hres⟩ := hinv.table.performSwitch hP hi hj hne hwait hcall back
  refine ⟨c, hc, hres.rsp.trans hsp, hres.regs, ?_, hres.cpuLocal, ?_⟩
  · rw [hres.ctl]
  · rw [hres.ctl]

/-- The task that is chosen takes the place of one that has faulted. -/
theorem switch_returns_small : ∃ s c u caller, Reached smallPlaces s ∧ s.current = some slot₁ ∧
    s.threads slot₀ = some ⟨smallTop 0, .parked u caller 0x8000⟩ ∧
    performSwitch smallPlaces (smallPlaces.context slot₁) (smallPlaces.context slot₀) (smallTop 0) 0
      s.cpu = some c ∧ c.reg .rsp = caller .rsp ∧ c.ctl.rip = 0x8000 := by
  obtain ⟨s, u, u', caller, hs, hr, hrsp, hparked⟩ := small_parked
  obtain ⟨c, hc, hsp, _, hrip, _⟩ := switch_returns smallPlaces_ok hs (.inr hr) (by decide)
    hparked (smallTop_atCall hrsp (by decide)).weaken 0
  exact ⟨s, c, u', caller, hs, hr.1, hparked, hc, hsp, hrip⟩

/-- A new task reaches its entry with its own stack, cleared general registers and user selectors,
except that GS gets the null selector: its operand has been cleared before. -/
theorem first_entry (hP : P.Ok) (h : Reached P s) {entry userStack : ℕ} (back : ℕ) (o : Operands)
    (hr : s.Runs i top (.starting entry userStack)) : ∃ c, beginThread P back s.cpu = some c ∧
      ∀ d, Prologue o top c d → ∃ e, (X64.run (enterUser o) d).bind iretq = some e ∧
        FirstEntry entry userStack d e ∧ UserCtl P top e.ctl := by
  have hinv := h.inv hP
  have hfit := hinv.table.fit i _ hr.2
  obtain ⟨_, hctl, hr12, hrbx, hrsp⟩ := hinv.cpu hr
  obtain ⟨c, hc, _, hrdi, hrsi, _, hctl'⟩ := beginThread_run hfit back hrsp
  refine ⟨c, hc, fun d hpro => ?_⟩
  obtain ⟨e, he, hfirst, huser, _⟩ := enter_run hfit (hrdi.trans hr12) (hrsi.trans hrbx)
    (by rw [hctl']; exact ⟨hctl.gsBase, hctl.kernelGsBase, hctl.rsp0⟩)
    (hinv.table.ok i _ hr.2) hpro
  exact ⟨e, he, hfirst, huser⟩

theorem first_entry_small : ∃ s c d e, Reached smallPlaces s ∧
    s.Runs slot₀ (smallTop 0) (.starting 0x400000 0x7000) ∧
    beginThread smallPlaces 0x8000 s.cpu = some c ∧
    Prologue ⟨.rax, .rcx, .rdi, .rsi⟩ (smallTop 0) c d ∧
    (X64.run (enterUser ⟨.rax, .rcx, .rdi, .rsi⟩) d).bind iretq = some e ∧
    FirstEntry 0x400000 0x7000 d e := by
  obtain ⟨s, hs, hr, _⟩ := small_starting
  obtain ⟨c, hc, hpro⟩ := first_entry smallPlaces_ok hs 0x8000 ⟨.rax, .rcx, .rdi, .rsi⟩ hr
  have hinv := hs.inv smallPlaces_ok
  have hfit : smallPlaces.Fit (smallTop 0) := hinv.table.fit slot₀ _ hr.2
  obtain ⟨_, _, _, _, hrsp⟩ := hinv.cpu hr
  obtain ⟨c', hc', hrsp', _⟩ := beginThread_run hfit 0x8000 hrsp
  cases hc.symm.trans hc'
  obtain ⟨d, hd⟩ := exists_prologue hfit hrsp'
  obtain ⟨e, he, hfirst, _⟩ := hpro d hd
  exact ⟨s, c, d, e, hs, hr, hc, hd, he, hfirst⟩

/-- An interrupt of user mode that its handler returns from leaves no trace in the general
registers of the task, in memory and in the GS bases. -/
theorem interrupt_transparent (hP : P.Ok) (h : Reached P s) (hr : s.Runs i top (.trapped u))
    (hrsp : s.cpu.reg .rsp = top - 184) :
    ∃ c, leaveInterrupt s.cpu = some c ∧ userOf c = u ∧ c.mem = s.cpu.mem ∧
      UserCtl P top c.ctl := by
  have hinv := h.inv hP
  obtain ⟨hrip, vector, e, hframe⟩ := hinv.table.ok i _ hr.2
  exact leaveInterrupt_run (hinv.table.fit i _ hr.2) hframe hrip hrsp (hinv.cpu hr).2

theorem interrupt_transparent_small : ∃ s u c, Reached smallPlaces s ∧
    s.Runs slot₀ (smallTop 0) (.trapped u) ∧ leaveInterrupt s.cpu = some c ∧ userOf c = u ∧
    c.ctl.rip = 0x400000 := by
  obtain ⟨s, u, hs, hr, hrip, hrsp⟩ := small_trapped
  obtain ⟨c, hc, hsame, _⟩ := interrupt_transparent smallPlaces_ok hs hr hrsp
  refine ⟨s, u, c, hs, hr, hc, hsame, ?_⟩
  rw [← hrip, ← hsame]
  rfl

end Asm

end Dusk
