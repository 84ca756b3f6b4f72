import Dusk.Model.Threads

/-! What each piece of assembly does, from any state in which its stack has room. -/

namespace Dusk

open Lib Lib.X64

namespace Asm

/-- The registers of `SyscallFrame` below `rax`. -/
def lowRegs : List Reg :=
  [.r15, .r14, .r13, .r12, .rbp, .rbx, .r9, .r8, .r10, .rdx, .rsi, .rdi]

/-- The fields of `SyscallFrame` after `rax`. -/
def User.tail (u : User) : List ℕ := [u.rip, u.rflags, u.reg .rsp]

/-- The registers that are pushed as they are, the last one first. -/
def frameRegs : List Reg := lowRegs ++ [.rax, .rcx, .r11]

theorem syscallEntry_eq : syscallEntry =
    [.swapgs, .storeGs 8 .rsp, .loadGs .rsp 0, .pushGs 8] ++ frameRegs.reverse.map .push ++
      [.mov .rdi .rsp] := rfl

theorem syscallExit_eq : syscallExit =
    frameRegs.map .pop ++ [.popGs 8, .loadGs .rsp 8, .swapgs] := rfl

/-- The stack of a task while it makes a system call. -/
structure Entered (cpuLocal top lstar : ℕ) (c d : Cpu) : Prop where
  rsp : d.reg .rsp = top - 128
  rdi : d.reg .rdi = top - 128
  frame : Holds d.mem (top - 128) (lowRegs.map c.reg ++ [c.reg .rax] ++ (userOf c).tail)
  rest : ∀ a, a < top - 128 ∨ top ≤ a → a ≠ cpuLocal + 8 → d.mem a = c.mem a
  ctl : d.ctl = { (syscall (init lstar) c).ctl with
    gsBase := c.ctl.kernelGsBase, kernelGsBase := c.ctl.gsBase }

/-- A stack top of a task, apart from the data of the processor. -/
structure TopOk (cpuLocal top : ℕ) : Prop where
  aligned : top % 16 = 0
  low : KERNEL_STACK_SIZE ≤ top
  high : top < ADDRESS_END
  localAligned : cpuLocal % 8 = 0
  localHigh : cpuLocal + 16 < ADDRESS_END
  apart : cpuLocal + 16 ≤ top - KERNEL_STACK_SIZE ∨ top ≤ cpuLocal

theorem syscallEntry_run (lstar : ℕ) {cpuLocal top : ℕ} {c : Cpu} (h : TopOk cpuLocal top)
    (hgs : c.ctl.kernelGsBase = cpuLocal) (htop : c.mem cpuLocal = top) :
    ∃ d, X64.run syscallEntry (syscall (init lstar) c) = some d ∧
      Entered cpuLocal top lstar c d := by
  have hal := h.aligned
  have hlow := h.low
  have hhigh := h.high
  have hlocal := h.localAligned
  have hlocalHigh := h.localHigh
  have hapart := h.apart
  have hsize : KERNEL_STACK_SIZE = 32768 := rfl
  -- the state with the stack pointer of the kernel
  let c₁ : Cpu := (syscall (init lstar) c).withCtl { (syscall (init lstar) c).ctl with
    gsBase := cpuLocal, kernelGsBase := c.ctl.gsBase }
  let c₂ : Cpu := { c₁ with mem := Function.update c.mem (cpuLocal + 8) (c.reg .rsp) }
  have hfits : Fits cpuLocal := ⟨hlocal, by omega⟩
  have hfits8 : Fits (cpuLocal + 8) := ⟨by omega, by omega⟩
  have hscratch : c₂.mem (cpuLocal + 8) = c.reg .rsp := Function.update_self _ _ _
  have hother : ∀ a, a ≠ cpuLocal + 8 → c₂.mem a = c.mem a :=
    fun a ha => Function.update_of_ne ha _ _
  have hhead : X64.run [.swapgs, .storeGs 8 .rsp, .loadGs .rsp 0, .pushGs 8]
      (syscall (init lstar) c) = (c₂.set .rsp top).pushWord (c.reg .rsp) := by
    have hsp : (syscall (init lstar) c).reg .rsp = c.reg .rsp := rfl
    have hk : (syscall (init lstar) c).ctl.kernelGsBase = cpuLocal := hgs
    have htop₂ : c₂.mem cpuLocal = top := by rw [hother _ (by omega), htop]
    have h₁ : exec .swapgs (syscall (init lstar) c) = some c₁ := by
      rw [exec, hk]
      rfl
    have h₂ : exec (.storeGs 8 .rsp) c₁ = some c₂ := if_pos hfits8
    have h₃ : exec (.loadGs .rsp 0) c₂ = some (c₂.set .rsp top) := by
      rw [exec, Cpu.read, if_pos (show Fits (c₂.ctl.gsBase + 0) from hfits), ← htop₂]
      rfl
    have h₄ : exec (.pushGs 8) (c₂.set .rsp top) = (c₂.set .rsp top).pushWord (c.reg .rsp) := by
      rw [exec, Cpu.read, if_pos (show Fits ((c₂.set .rsp top).ctl.gsBase + 8) from hfits8),
        ← hscratch]
      rfl
    rw [X64.run, h₁, Option.bind_some, X64.run, h₂, Option.bind_some, X64.run, h₃,
      Option.bind_some, X64.run, h₄]
    exact Option.bind_fun_some _
  obtain ⟨d₁, hd₁, hp₁⟩ := pushWord_pushed (c := c₂.set .rsp top) ⟨by simp; omega, by simp; omega, by simp; omega⟩
    (c.reg .rsp)
  have hrsp₁ := hp₁.rsp
  simp only [Cpu.set_reg_self, List.length_singleton] at hrsp₁
  obtain ⟨d₂, hd₂, hp₂⟩ := pushAll_pushed (frameRegs.reverse.map d₁.reg) (c := d₁)
    ⟨by omega, by rw [hrsp₁]; simp [frameRegs, lowRegs]; omega, by omega⟩
  have hp := hp₁.trans hp₂ (by simp [frameRegs, lowRegs]; omega)
  have hrsp : d₂.reg .rsp = top - 128 := by
    rw [hp.rsp, Cpu.set_reg_self]
    simp [frameRegs, lowRegs]
  have hregs : ∀ r, r ≠ .rsp → d₁.reg r = (syscall (init lstar) c).reg r := by
    intro r hr
    rw [hp₁.regs r hr, Cpu.set_reg_of_ne _ _ hr]
    rfl
  have hwords : ([c.reg .rsp] ++ frameRegs.reverse.map d₁.reg).reverse =
      lowRegs.map c.reg ++ [c.reg .rax] ++ (userOf c).tail := by
    have hmap : frameRegs.map d₁.reg = frameRegs.map (syscall (init lstar) c).reg :=
      List.map_congr_left fun r hr => hregs r (by rintro rfl; exact absurd hr (by decide))
    rw [List.reverse_append, List.map_reverse, List.reverse_reverse, hmap]
    rfl
  refine ⟨d₂.set .rdi (d₂.reg .rsp), ?_, ?_, ?_, ?_, ?_, ?_⟩
  · rw [syscallEntry_eq, run_append, run_append, hhead, hd₁, Option.bind_some,
      run_pushes (by decide), hd₂]
    rfl
  · rw [Cpu.set_reg_of_ne _ _ (by decide), hrsp]
  · rw [Cpu.set_reg_self, hrsp]
  · rw [← hwords, ← hrsp]
    exact hp.held
  · intro a ha hne
    rw [Cpu.set_mem, hp.rest a (by rw [hrsp, Cpu.set_reg_self]; exact ha), Cpu.set_mem,
      hother a hne]
  · rw [Cpu.set_ctl, hp.ctl, hgs]
    rfl

/-- The registers of a task when it returns from a system call with the code `v`. -/
structure Restored (cpuLocal v : ℕ) (u : User) (c d : Cpu) : Prop where
  low : ∀ r ∈ lowRegs, d.reg r = u.reg r
  rax : d.reg .rax = v
  rcx : d.reg .rcx = u.rip
  r11 : d.reg .r11 = u.rflags
  rsp : d.reg .rsp = u.reg .rsp
  rest : ∀ a, a ≠ cpuLocal + 8 → d.mem a = c.mem a
  ctl : d.ctl = { c.ctl with gsBase := c.ctl.kernelGsBase, kernelGsBase := c.ctl.gsBase }

theorem syscallExit_run {cpuLocal top v : ℕ} {u : User} {c : Cpu} (h : TopOk cpuLocal top)
    (hgs : c.ctl.gsBase = cpuLocal) (hrsp : c.reg .rsp = top - 128)
    (hframe : Holds c.mem (top - 128) (lowRegs.map u.reg ++ [v] ++ u.tail)) :
    ∃ d, X64.run syscallExit c = some d ∧ Restored cpuLocal v u c d := by
  have hal := h.aligned
  have hlow := h.low
  have hhigh := h.high
  have hlocal := h.localAligned
  have hlocalHigh := h.localHigh
  have hsize : KERNEL_STACK_SIZE = 32768 := rfl
  have hfits8 : Fits (cpuLocal + 8) := ⟨by omega, by omega⟩
  -- what the frame holds for each register
  let f : Reg → ℕ := fun r => if r = .rax then v else if r = .rcx then u.rip
    else if r = .r11 then u.rflags else u.reg r
  have hwords : lowRegs.map u.reg ++ [v] ++ u.tail = frameRegs.map f ++ [u.reg .rsp] := by
    simp [lowRegs, frameRegs, User.tail, f]
  rw [hwords, holds_append] at hframe
  obtain ⟨hregs, huser, _⟩ := hframe
  have hlen : (frameRegs.map f).length = 15 := rfl
  rw [hlen] at huser
  obtain ⟨d, hd, hpop⟩ := pops_run frameRegs (f := f) (c := c) (by decide) (by omega)
    (by rw [hrsp]; simp [frameRegs, lowRegs]; omega) (by rw [hrsp]; exact hregs)
  have hrsp_d : d.reg .rsp = top - 8 := by
    rw [hpop.rsp, hrsp]
    simp [frameRegs, lowRegs]
    omega
  have hfits : Fits (d.reg .rsp) := ⟨by omega, by omega⟩
  have hgs_d : d.ctl.gsBase = cpuLocal := by rw [hpop.ctl, hgs]
  have hword : d.mem (d.reg .rsp) = u.reg .rsp := by
    rw [hpop.mem, hrsp_d, ← huser]
    congr 1
    omega
  let e : Cpu := { d.set .rsp (d.reg .rsp + 8) with
    mem := Function.update d.mem (cpuLocal + 8) (u.reg .rsp) }
  have h₁ : exec (.popGs 8) d = some e := by
    rw [exec, popWord_eq hfits, Option.bind_some, Cpu.set_ctl, hgs_d, hword]
    exact if_pos hfits8
  have h₂ : exec (.loadGs .rsp 8) e = some (e.set .rsp (u.reg .rsp)) := by
    have hgs_e : e.ctl.gsBase = cpuLocal := hgs_d
    have hmem_e : e.mem (cpuLocal + 8) = u.reg .rsp := Function.update_self _ _ _
    rw [exec, hgs_e, Cpu.read, if_pos hfits8, hmem_e, Option.map_some]
  have hreg : ∀ r ∈ frameRegs, (e.set .rsp (u.reg .rsp)).reg r = f r := by
    intro r hr
    have hne : r ≠ .rsp := by
      rintro rfl
      exact absurd hr (by decide)
    rw [Cpu.set_reg_of_ne _ _ hne, ← hpop.taken r hr]
    exact Cpu.set_reg_of_ne _ _ hne
  refine ⟨(e.set .rsp (u.reg .rsp)).withCtl { d.ctl with
    gsBase := d.ctl.kernelGsBase, kernelGsBase := d.ctl.gsBase }, ?_, ?_, ?_, ?_, ?_, ?_, ?_, ?_⟩
  · rw [syscallExit_eq, run_append, hd, Option.bind_some, X64.run, h₁, Option.bind_some, X64.run,
      h₂]
    rfl
  · intro r hr
    have hne : r ≠ .rax ∧ r ≠ .rcx ∧ r ≠ .r11 := by
      refine ⟨?_, ?_, ?_⟩ <;> (rintro rfl; exact absurd hr (by decide))
    rw [Cpu.withCtl_reg, hreg r (by simp [frameRegs, hr])]
    simp [f, hne]
  · rw [Cpu.withCtl_reg, hreg .rax (by decide)]
    rfl
  · rw [Cpu.withCtl_reg, hreg .rcx (by decide)]
    rfl
  · rw [Cpu.withCtl_reg, hreg .r11 (by decide)]
    rfl
  · rw [Cpu.withCtl_reg, Cpu.set_reg_self]
  · intro a ha
    rw [← hpop.mem]
    exact Function.update_of_ne ha _ _
  · rw [Cpu.withCtl_ctl, hpop.ctl]

/-- The registers `switch_context` keeps, in the order in which they lie on the stack. -/
def calleeRegs : List Reg := [.r15, .r14, .r13, .r12, .rbx, .rbp]

theorem switchContext_eq : switchContext =
    calleeRegs.reverse.map .push ++ [.store .rdi .rsp, .load .rsp .rsi] ++
      calleeRegs.map .pop := rfl

/-- `switch_context` has left one stack for another. -/
structure Switched (c : Cpu) (sp ra : ℕ) (f : Reg → ℕ) (d : Cpu) : Prop where
  rsp : d.reg .rsp = sp + 56
  regs : ∀ r ∈ calleeRegs, d.reg r = f r
  saved : Holds d.mem (c.reg .rsp - 48) (calleeRegs.map c.reg)
  context : d.mem (c.reg .rdi) = c.reg .rsp - 48
  rest : ∀ a, a < c.reg .rsp - 48 ∨ c.reg .rsp ≤ a → a ≠ c.reg .rdi → d.mem a = c.mem a
  ctl : d.ctl = { c.ctl with rip := ra }

/-- The words pushed are not at `a`. -/
def Clear (c : Cpu) (a : ℕ) : Prop := a < c.reg .rsp - 48 ∨ c.reg .rsp ≤ a

theorem switchContext_run {c : Cpu} {sp ra : ℕ} {f : Reg → ℕ} (hroom : c.Room 6)
    (hprev : Fits (c.reg .rdi)) (hprevClear : Clear c (c.reg .rdi))
    (hnext : Fits (c.reg .rsi)) (hnextClear : Clear c (c.reg .rsi)) (hne : c.reg .rsi ≠ c.reg .rdi)
    (hsp : c.mem (c.reg .rsi) = sp) (hal : sp % 8 = 0) (hhigh : sp + 56 < ADDRESS_END)
    (hsaved : Holds c.mem sp (calleeRegs.map f ++ [ra]))
    (hclear : ∀ a, sp ≤ a → a < sp + 56 → Clear c a ∧ a ≠ c.reg .rdi) :
    ∃ d, (X64.run switchContext c).bind Cpu.ret = some d ∧ Switched c sp ra f d := by
  have hlow := hroom.low
  have hlen : (calleeRegs.reverse.map c.reg).length = 6 := rfl
  obtain ⟨d₁, hd₁, hp⟩ := pushAll_pushed (calleeRegs.reverse.map c.reg) hroom
  have hrsp₁ := hp.rsp
  have hheld := hp.held
  rw [hlen] at hrsp₁
  rw [List.map_reverse, List.reverse_reverse] at hheld
  have hrdi : d₁.reg .rdi = c.reg .rdi := hp.regs _ (by decide)
  have hrsi : d₁.reg .rsi = c.reg .rsi := hp.regs _ (by decide)
  let d₂ : Cpu := { d₁ with mem := Function.update d₁.mem (c.reg .rdi) (d₁.reg .rsp) }
  have hmem₂ : ∀ a, Clear c a → a ≠ c.reg .rdi → d₂.mem a = c.mem a := by
    intro a ha hrdi'
    have hupdate : d₂.mem a = d₁.mem a := Function.update_of_ne hrdi' _ _
    refine hupdate.trans (hp.rest a ?_)
    rw [hrsp₁]
    exact ha
  have hstore : exec (.store .rdi .rsp) d₁ = some d₂ := by
    rw [exec, hrdi]
    exact if_pos hprev
  have hload : exec (.load .rsp .rsi) d₂ = some (d₂.set .rsp sp) := by
    have hrsi₂ : d₂.reg .rsi = c.reg .rsi := hrsi
    rw [exec, hrsi₂, Cpu.read, if_pos hnext, hmem₂ _ hnextClear hne, hsp, Option.map_some]
  have hheld₂ : Holds d₂.mem sp (calleeRegs.map f ++ [ra]) :=
    hsaved.congr fun x hx hlt => hmem₂ x (hclear x hx hlt).1 (hclear x hx hlt).2
  rw [holds_append] at hheld₂
  obtain ⟨hregs, hra, _⟩ := hheld₂
  obtain ⟨e, he, hpop⟩ := pops_run calleeRegs (f := f) (c := d₂.set .rsp sp) (by decide)
    (by rw [Cpu.set_reg_self]; exact hal)
    (by rw [Cpu.set_reg_self]; simp [calleeRegs]; omega) (by rw [Cpu.set_reg_self]; exact hregs)
  have hrsp_e : e.reg .rsp = sp + 48 := by
    rw [hpop.rsp, Cpu.set_reg_self]
    rfl
  have hfits : Fits (e.reg .rsp) := ⟨by omega, by omega⟩
  have hra_e : e.mem (e.reg .rsp) = ra := by
    rw [hpop.mem, hrsp_e]
    exact hra
  refine ⟨(e.set .rsp (e.reg .rsp + 8)).withCtl { e.ctl with rip := ra }, ?_, ?_, ?_, ?_, ?_, ?_, ?_⟩
  · rw [switchContext_eq, run_append, run_append, run_pushes (by decide), hd₁, Option.bind_some,
      X64.run, hstore, Option.bind_some, X64.run, hload, Option.bind_some, X64.run,
      Option.bind_some, he, Option.bind_some, ret_eq hfits, hra_e]
  · rw [Cpu.withCtl_reg, Cpu.set_reg_self, hrsp_e]
  · intro r hr
    have hne' : r ≠ .rsp := by
      rintro rfl
      exact absurd hr (by decide)
    rw [Cpu.withCtl_reg, Cpu.set_reg_of_ne _ _ hne', hpop.taken r hr]
  · show Holds e.mem _ _
    rw [hpop.mem, ← hrsp₁]
    refine hheld.congr fun x hx hlt => Function.update_of_ne ?_ _ _
    rintro rfl
    have hlen' : (calleeRegs.map c.reg).length = 6 := rfl
    rw [hlen'] at hlt
    unfold Clear at hprevClear
    omega
  · show e.mem _ = _
    rw [hpop.mem, ← hrsp₁]
    exact Function.update_self _ _ _
  · intro a ha hne'
    show e.mem a = c.mem a
    rw [hpop.mem]
    exact hmem₂ a ha hne'
  · rw [Cpu.withCtl_ctl, hpop.ctl]
    show { d₁.ctl with rip := ra } = _
    rw [hp.ctl]

/-- The registers that `enter_user` clears. -/
def clearedRegs : List Reg :=
  [.rax, .rbx, .rcx, .rdx, .rsi, .rdi, .rbp, .r8, .r9, .r10, .r11, .r12, .r13, .r14, .r15]

theorem mem_clearedRegs {r : Reg} (h : r ≠ .rsp) : r ∈ clearedRegs := by
  cases r <;> first | exact absurd rfl h | decide

theorem enterUser_eq (o : Operands) : enterUser o =
    [.movSeg .ds o.userDataSelector, .movSeg .es o.userDataSelector,
      .movSeg .fs o.userDataSelector] ++
    [.inl o.userDataSelector, .inl o.userStackPointer, .inr 0x202, .inl o.userCodeSelector,
      .inl o.userInstructionPointer].map (Sum.elim .push .pushImm) ++
    clearedRegs.map .clear ++ [.swapgs, .movSeg .gs o.userDataSelector] := rfl

/-- The operands of `enter_user` are in their registers, none of which is the stack pointer. -/
structure Operands.Loaded (o : Operands) (entry userStack : ℕ) (c : Cpu) : Prop where
  data : c.reg o.userDataSelector = USER_DATA_SELECTOR
  code : c.reg o.userCodeSelector = USER_CODE_SELECTOR
  ip : c.reg o.userInstructionPointer = entry
  sp : c.reg o.userStackPointer = userStack
  free : o.userDataSelector ≠ .rsp ∧ o.userCodeSelector ≠ .rsp ∧
    o.userInstructionPointer ≠ .rsp ∧ o.userStackPointer ≠ .rsp

/-- A task at its first instruction. -/
structure FirstEntry (entry userStack : ℕ) (c d : Cpu) : Prop where
  rsp : d.reg .rsp = userStack
  zero : ∀ r, r ≠ .rsp → d.reg r = 0
  rip : d.ctl.rip = entry
  rflags : d.ctl.rflags = 0x202
  cs : d.ctl.cs = USER_CODE_SELECTOR
  ss : d.ctl.ss = USER_DATA_SELECTOR
  data : ∀ s, s ≠ .gs → d.ctl.seg s = USER_DATA_SELECTOR
  /-- The operand of `mov gs` is one of the registers that have been cleared. -/
  gs : d.ctl.seg .gs = 0
  gsBase : d.ctl.gsBase = 0
  kernelGsBase : d.ctl.kernelGsBase = c.ctl.gsBase
  rsp0 : d.ctl.rsp0 = c.ctl.rsp0
  rest : ∀ a, a < c.reg .rsp - 40 ∨ c.reg .rsp ≤ a → d.mem a = c.mem a

theorem enterUser_run {o : Operands} {c : Cpu} {entry userStack : ℕ} (hroom : c.Room 5)
    (h : o.Loaded entry userStack c) :
    ∃ d, (X64.run (enterUser o) c).bind iretq = some d ∧ FirstEntry entry userStack c d := by
  obtain ⟨hdata, hcode, hip, hsp⟩ := h.free
  have hal := hroom.aligned
  have hlow := hroom.low
  have hhigh := hroom.high
  let segs : Control :=
    ((c.ctl.setSeg .ds USER_DATA_SELECTOR).setSeg .es USER_DATA_SELECTOR).setSeg .fs
      USER_DATA_SELECTOR
  let c₁ : Cpu := c.withCtl segs
  have hsegs : X64.run [.movSeg .ds o.userDataSelector, .movSeg .es o.userDataSelector,
      .movSeg .fs o.userDataSelector] c = some c₁ := by
    simp only [X64.run, exec, Option.bind_some, Cpu.withCtl_reg, Cpu.withCtl_ctl, h.data]
    rfl
  obtain ⟨c₂, hc₂, hp⟩ := pushAll_pushed
    [USER_DATA_SELECTOR, userStack, 0x202, USER_CODE_SELECTOR, entry] (c := c₁) ⟨hal, hlow, hhigh⟩
  have hsources : [Sum.inl o.userDataSelector, .inl o.userStackPointer, .inr 0x202,
      .inl o.userCodeSelector, .inl o.userInstructionPointer].map (Sum.elim c₁.reg id) =
      [USER_DATA_SELECTOR, userStack, 0x202, USER_CODE_SELECTOR, entry] := by
    simp only [List.map_cons, List.map_nil, Sum.elim_inl, Sum.elim_inr, id_eq, c₁,
      Cpu.withCtl_reg, h.data, h.code, h.ip, h.sp]
  obtain ⟨c₃, hc₃, hzero, hothers, hmem₃, hctl₃⟩ := clears_run clearedRegs c₂
  have hrsp₂ : c₂.reg .rsp = c.reg .rsp - 40 := hp.rsp
  have hrsp₃ : c₃.reg .rsp = c.reg .rsp - 40 := by rw [hothers _ (by decide), hrsp₂]
  let c₄ : Cpu := c₃.withCtl ({ c₃.ctl with
    gsBase := c₃.ctl.kernelGsBase, kernelGsBase := c₃.ctl.gsBase }.setSeg .gs 0)
  have hgs : X64.run [.swapgs, .movSeg .gs o.userDataSelector] c₃ = some c₄ := by
    simp only [X64.run, exec, Option.bind_some, Cpu.withCtl_reg, Cpu.withCtl_ctl,
      hzero _ (mem_clearedRegs hdata)]
    rfl
  have hheld : Holds c₄.mem (c₄.reg .rsp)
      [entry, USER_CODE_SELECTOR, 0x202, userStack, USER_DATA_SELECTOR] := by
    show Holds c₃.mem (c₃.reg .rsp) _
    rw [hmem₃, hrsp₃, ← hrsp₂]
    exact hp.held
  obtain ⟨d, hd, hrsp, hregs, hmem, hctl⟩ := iretq_eq (c := c₄)
    (by show c₃.reg .rsp % 8 = 0; omega) (by show c₃.reg .rsp + 40 < _; omega) hheld
  have hctl₄ : c₄.ctl = ({ segs with
      gsBase := segs.kernelGsBase, kernelGsBase := segs.gsBase }).setSeg .gs 0 := by
    show Control.setSeg _ _ _ = _
    rw [hctl₃, hp.ctl]
    rfl
  rw [hctl₄] at hctl
  refine ⟨d, ?_, hrsp, ?_, by rw [hctl], by rw [hctl], by rw [hctl], by rw [hctl], ?_, by rw [hctl]; rfl,
    by rw [hctl]; rfl, by rw [hctl]; rfl, by rw [hctl]; rfl, ?_⟩
  · rw [enterUser_eq, run_append, run_append, run_append, hsegs, Option.bind_some, run_pushSources,
      hsources, hc₂, Option.bind_some, hc₃, Option.bind_some, hgs, Option.bind_some, hd]
    simp [hdata.symm, hsp.symm, hcode.symm, hip.symm]
  · intro r hr
    rw [hregs r hr]
    exact hzero r (mem_clearedRegs hr)
  · intro s hs
    rw [hctl]
    cases s <;> first | exact absurd rfl hs | rfl
  · intro a ha
    rw [hmem]
    show c₃.mem a = _
    rw [hmem₃, hp.rest a (by rw [hrsp₂]; exact ha)]
    rfl

/-- The registers of `InterruptFrame`, in its order. -/
def interruptRegs : List Reg :=
  [.rax, .rcx, .rdx, .rsi, .rdi, .r8, .r9, .r10, .r11, .rbx, .rbp, .r12, .r13, .r14, .r15]

theorem mem_interruptRegs {r : Reg} (h : r ≠ .rsp) : r ∈ interruptRegs := by
  cases r <;> first | exact absurd rfl h | decide

theorem interruptCommon_eq : interruptCommon = interruptRegs.reverse.map .push ++
    [.testByte 144 3, .jzOver .swapgs, .mov .rdi .rsp, .cld] := rfl

theorem interruptReturn_eq : interruptReturn = [.testByte 144 3, .jzOver .swapgs] ++
    interruptRegs.map .pop ++ [.addImm .rsp 16] := rfl

/-- The GS bases change places for an interrupt of user mode. -/
def swapFor (cs : ℕ) (k : Control) : Control :=
  if cs % 4 = 0 then k else { k with gsBase := k.kernelGsBase, kernelGsBase := k.gsBase }

/-- The words of `InterruptFrame`. -/
def interruptWords (u : User) (vector e cs ss : ℕ) : List ℕ :=
  interruptRegs.map u.reg ++ [vector, e] ++ [u.rip, cs, u.rflags, u.reg .rsp, ss]

/-- The test of the code segment in the frame, and the exchange of the GS bases. -/
theorem testSwap_run {c : Cpu} {cs : ℕ} (hal : c.reg .rsp % 8 = 0)
    (hhigh : c.reg .rsp + 152 < ADDRESS_END) (hcs : c.mem (c.reg .rsp + 144) = cs) :
    ∃ zf, X64.run [.testByte 144 3, .jzOver .swapgs] c =
      some { c with ctl := swapFor cs c.ctl, zf } := by
  have hfits : Fits (c.reg .rsp + 144) := ⟨by omega, by omega⟩
  have hmask : cs % 256 &&& 3 = cs % 4 := by
    rw [show (3 : ℕ) = 2 ^ 2 - 1 from rfl, Nat.and_two_pow_sub_one_eq_mod]
    omega
  refine ⟨decide (cs % 4 = 0), ?_⟩
  simp only [X64.run, exec, Cpu.read, if_pos hfits, hcs, hmask, Option.map_some, Option.bind_some]
  by_cases hzero : cs % 4 = 0 <;> simp [hzero, swapFor, Cpu.withCtl]

theorem stubs_match {vector : ℕ} {err : Bool} (h : (vector, err) ∈ stubs) :
    hasErrorCode vector = err := by
  have hall : ∀ p ∈ stubs, hasErrorCode p.1 = p.2 := by decide
  exact hall _ h

/-- The stack an interrupt of the state `c` starts with. -/
def interruptTop (c : Cpu) : ℕ :=
  let top := if c.ctl.cs % 4 = 3 then c.ctl.rsp0 else c.reg .rsp
  top - top % 16

/-- The stack of an interrupt at the call of `interrupt_dispatch`. -/
structure Interrupted (vector e : ℕ) (c d : Cpu) : Prop where
  rsp : d.reg .rsp = interruptTop c - 176
  rdi : d.reg .rdi = interruptTop c - 176
  frame : Holds d.mem (interruptTop c - 176)
    (interruptWords (userOf c) vector e c.ctl.cs c.ctl.ss)
  rest : ∀ a, a < interruptTop c - 176 ∨ interruptTop c ≤ a → d.mem a = c.mem a
  cs : d.ctl.cs = KERNEL_CODE_SELECTOR
  gsBase : d.ctl.gsBase = (swapFor c.ctl.cs c.ctl).gsBase
  kernelGsBase : d.ctl.kernelGsBase = (swapFor c.ctl.cs c.ctl).kernelGsBase
  rsp0 : d.ctl.rsp0 = c.ctl.rsp0
  seg : d.ctl.seg = c.ctl.seg

/-- Whatever the vector, the frame has the same shape. -/
theorem enterInterrupt_run {c : Cpu} {vector : ℕ} {err : Bool} (handler errorCode : ℕ)
    (hstub : (vector, err) ∈ stubs) (hlow : 176 ≤ interruptTop c)
    (hhigh : interruptTop c < ADDRESS_END) :
    ∃ d e, enterInterrupt vector err handler errorCode c = some d ∧ Interrupted vector e c d := by
  have herr := stubs_match hstub
  have hal : interruptTop c % 16 = 0 := by
    unfold interruptTop
    dsimp only
    omega
  let hardware := [c.ctl.ss, c.reg .rsp, c.ctl.rflags, c.ctl.cs, c.ctl.rip] ++
    if err then [errorCode] else []
  let pushed : List (Reg ⊕ ℕ) := if err then [.inr vector] else [.inr 0, .inr vector]
  let c₁ : Cpu := c.set .rsp (interruptTop c)
  have hrsp₁ : c₁.reg .rsp = interruptTop c := Cpu.set_reg_self _ _ _
  have hhardware : hardware.length ≤ 6 := by
    simp only [hardware]
    split_ifs <;> simp
  have hlen : hardware.length + pushed.length = 7 := by
    simp only [hardware, pushed]
    split_ifs <;> rfl
  obtain ⟨c₂, hc₂, hp₂⟩ := pushAll_pushed hardware (c := c₁)
    ⟨by omega, by omega, by omega⟩
  let k : Control := { c.ctl with
    rip := handler
    rflags := c.ctl.rflags ^^^ (c.ctl.rflags &&& 0x14300)
    cs := KERNEL_CODE_SELECTOR
    ss := if c.ctl.cs % 4 = 3 then 0 else c.ctl.ss }
  have hdeliver : deliver vector handler errorCode c = some (c₂.withCtl k) := by
    unfold deliver
    dsimp only
    rw [herr]
    show ((c₁.pushAll hardware).map _) = _
    rw [hc₂, Option.map_some, hp₂.ctl]
    rfl
  have hrsp₂ := hp₂.rsp
  obtain ⟨c₃, hc₃, hp₃⟩ := pushAll_pushed (pushed.map (Sum.elim c₂.reg id)) (c := c₂.withCtl k)
    ⟨by rw [Cpu.withCtl_reg]; omega, by rw [Cpu.withCtl_reg, List.length_map]; omega,
      by rw [Cpu.withCtl_reg]; omega⟩
  have hstubRun : X64.run (stub vector err) (c₂.withCtl k) = some c₃ := by
    have hnot : Sum.inl Reg.rsp ∉ pushed := by
      simp only [pushed]
      split_ifs <;> simp
    have heq : stub vector err = pushed.map (Sum.elim .push .pushImm) := by
      simp only [stub, pushed]
      split_ifs <;> rfl
    rw [heq, run_pushSources _ hnot, Cpu.withCtl_reg, hc₃]
  have hp₁₃ := (hp₂.withCtl k).trans hp₃ (by
    rw [Cpu.withCtl_reg, List.length_map]
    omega)
  have hrsp₃ := hp₁₃.rsp
  rw [List.length_append, List.length_map, hlen, Cpu.withCtl_reg] at hrsp₃
  have hregsLen : (interruptRegs.reverse.map c₃.reg).length = 15 := rfl
  obtain ⟨c₄, hc₄, hp₄⟩ := pushAll_pushed (interruptRegs.reverse.map c₃.reg) (c := c₃)
    ⟨by omega, by omega, by omega⟩
  have hp := hp₁₃.trans hp₄ (by
    rw [List.length_append, List.length_map, hlen, hregsLen, Cpu.withCtl_reg]
    omega)
  have hrsp : c₄.reg .rsp = interruptTop c - 176 := by
    rw [hp₄.rsp, hregsLen]
    omega
  have hwords : (hardware ++ pushed.map (Sum.elim c₂.reg id) ++
      interruptRegs.reverse.map c₃.reg).reverse =
      interruptWords (userOf c) vector (if err then errorCode else 0) c.ctl.cs c.ctl.ss := by
    have hmap : interruptRegs.map c₃.reg = interruptRegs.map c.reg := by
      refine List.map_congr_left fun r hr => ?_
      have hne : r ≠ .rsp := by
        rintro rfl
        exact absurd hr (by decide)
      rw [hp₁₃.regs r hne]
      exact Cpu.set_reg_of_ne _ _ hne
    rw [List.reverse_append, List.map_reverse, List.reverse_reverse, hmap]
    cases err <;> rfl
  have hframe := hp.held
  rw [hwords, hrsp] at hframe
  have hcs : c₄.mem (c₄.reg .rsp + 144) = c.ctl.cs := by
    have htail := (holds_append.mp hframe).2
    rw [hrsp]
    exact htail.2.1
  obtain ⟨zf, hswap⟩ := testSwap_run (c := c₄) (by omega) (by omega) hcs
  have hctl : c₄.ctl = k := hp.ctl
  refine ⟨(({ c₄ with ctl := swapFor c.ctl.cs k, zf } : Cpu).set .rdi (c₄.reg .rsp)).withCtl
    { swapFor c.ctl.cs k with rflags := (swapFor c.ctl.cs k).rflags ^^^
      ((swapFor c.ctl.cs k).rflags &&& 0x400) }, _, ?_, ?_, ?_, hframe, ?_, ?_, ?_, ?_, ?_, ?_⟩
  · rw [enterInterrupt, hdeliver, Option.bind_some, run_append, hstubRun, Option.bind_some,
      interruptCommon_eq, run_append, run_pushes (by decide), hc₄, Option.bind_some,
      show [Instr.testByte 144 3, .jzOver .swapgs, .mov .rdi .rsp, .cld] =
        [.testByte 144 3, .jzOver .swapgs] ++ [.mov .rdi .rsp, .cld] from rfl,
      run_append, hswap, hctl]
    rfl
  · rw [Cpu.withCtl_reg, Cpu.set_reg_of_ne _ _ (by decide)]
    exact hrsp
  · rw [Cpu.withCtl_reg, Cpu.set_reg_self, hrsp]
  · intro a ha
    refine (hp.rest a ?_).trans rfl
    rw [hrsp, Cpu.withCtl_reg, hrsp₁]
    exact ha
  all_goals
    simp only [Cpu.withCtl_ctl, swapFor]
    split_ifs <;> rfl

/-- The return from an interrupt takes everything from the frame. -/
theorem interruptReturn_run {c : Cpu} {base vector e cs ss : ℕ} {u : User}
    (hrsp : c.reg .rsp = base) (hal : base % 8 = 0) (hhigh : base + 176 < ADDRESS_END)
    (h : Holds c.mem base (interruptWords u vector e cs ss)) :
    ∃ d, (X64.run interruptReturn c).bind iretq = some d ∧ (∀ r, d.reg r = u.reg r) ∧
      d.mem = c.mem ∧
      d.ctl = { swapFor cs c.ctl with rip := u.rip, cs, rflags := u.rflags, ss } := by
  obtain ⟨hhead, htail⟩ := holds_append.mp h
  obtain ⟨hregs, _⟩ := holds_append.mp hhead
  have hlen : (interruptRegs.map u.reg ++ [vector, e]).length = 17 := rfl
  have hregsLen : interruptRegs.length = 15 := rfl
  rw [hlen] at htail
  have hcs : c.mem (c.reg .rsp + 144) = cs := by
    rw [hrsp]
    exact htail.2.1
  obtain ⟨zf, hswap⟩ := testSwap_run (c := c) (by omega) (by omega) hcs
  let c₁ : Cpu := { c with ctl := swapFor cs c.ctl, zf }
  have hrsp₁ : c₁.reg .rsp = base := hrsp
  obtain ⟨c₂, hc₂, hpop⟩ := pops_run interruptRegs (f := u.reg) (c := c₁) (by decide)
    (by omega) (by omega) (by rw [hrsp₁]; exact hregs)
  have hrsp₂ := hpop.rsp
  let c₃ : Cpu := c₂.set .rsp (c₂.reg .rsp + 16)
  have hrsp₃ : c₃.reg .rsp = base + 136 := by
    rw [Cpu.set_reg_self]
    omega
  obtain ⟨d, hd, hdrsp, hdregs, hdmem, hdctl⟩ := iretq_eq (c := c₃) (by omega) (by omega)
    (by show Holds c₂.mem (c₃.reg .rsp) _; rw [hpop.mem, hrsp₃]; exact htail)
  refine ⟨d, ?_, ?_, ?_, ?_⟩
  · rw [interruptReturn_eq, run_append, run_append, hswap, Option.bind_some, hc₂, Option.bind_some]
    exact hd
  · intro r
    by_cases hr : r = .rsp
    · rw [hr, hdrsp]
    · rw [hdregs r hr, Cpu.set_reg_of_ne _ _ hr, hpop.taken r (mem_interruptRegs hr)]
  · rw [hdmem]
    exact hpop.mem
  · rw [hdctl, Cpu.set_ctl, hpop.ctl]

end Asm

end Dusk
