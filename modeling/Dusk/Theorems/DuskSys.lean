import Dusk.Model.DuskSys
import Dusk.Proofs.Licence
import Dusk.Proofs.Views
import Dusk.Theorems.Threads

/-! The system calls of a program, from the functions of the library to the kernel and
back. -/

namespace Dusk

open Lib Lib.X64 Asm

namespace DuskSys

/-- Nothing is reported to the caller. -/
def silent : Prog.Licence Kernel Stop where
  R _ _ := True
  E stop := ∀ s, stop ≠ .status s
  refl _ := trivial
  trans _ _ _ _ _ := trivial

theorem silent_edits : Edits silent where
  panicked p s := by simp
  tasks _ _ := trivial
  machine _ _ := trivial
  pending _ _ := trivial

theorem sysYield_silent : Prog.Keeps silent sysYield := by
  have hmodify : ∀ f : Kernel → Kernel, Prog.Keeps silent (Prog.modify f : KM Unit) :=
    fun f => Prog.keeps_modify fun _ => trivial
  have hpop : Prog.Keeps silent Scheduler.popReady :=
    Prog.keeps_get.bind fun _ => (hmodify _).bind fun _ => Prog.keeps_pure _
  have hpush : ∀ id, Prog.Keeps silent (Scheduler.pushReady id) := fun _ =>
    Prog.keeps_get.bind fun _ => (hmodify _).bind fun _ =>
      Prog.keeps_assert (silent_edits.panicked _) _
  have hswitch : ∀ currentId nextId saved,
      Prog.Keeps silent (Scheduler.switchTo currentId nextId saved) := fun _ _ _ =>
    (silent_edits.setState _ _).bind fun _ => (hmodify _).bind fun _ =>
      (silent_edits.makeSwitch _ _ _).bind fun s => (silent_edits.perform s).bind fun _ =>
        Prog.keeps_stop fun s hs => by cases hs
  refine hpop.bind fun next => ?_
  cases next with
  | none => exact Prog.keeps_pure ()
  | some nextId =>
    exact silent_edits.currentTask.bind fun _ => (silent_edits.setState _ _).bind fun _ =>
      (hpush _).bind fun _ => hswitch _ _ _

/-- A call is answered with 0 or with the code of a status. -/
theorem returning_code {body : KM Unit} {k k' : Kernel} {v : ℕ} (h : returning body k = .ok v k') :
    (v = 0 ∧ body k = .ok () k') ∨ ∃ s, v = Dusk.Status.code s ∧ body k = .stop (.status s) k' := by
  have hsat : (returning body).Sat k (fun v k' => (v = 0 ∧ body k = .ok () k') ∨
      ∃ s, v = Dusk.Status.code s ∧ body k = .stop (.status s) k') (fun _ _ => True) := by
    rw [sat_returning, Prog.sat_iff]
    refine ⟨fun _ k₁ hbody => .inl ⟨rfl, hbody⟩, ?_⟩
    intro stop k₁ hbody
    cases stop with
    | status s => exact .inr ⟨s, rfl, hbody⟩
    | switched | halted | panicked => trivial
  exact hsat.of_ok h

theorem Answer.code {req : Request} {v : ℕ} (h : Answer req v) :
    v = 0 ∨ ∃ s, v = Dusk.Status.code s := by
  cases h with
  | returned _ hret | received hret =>
    rcases returning_code hret with ⟨hv, _⟩ | ⟨s, hv, _⟩
    · exact .inl hv
    · exact .inr ⟨s, hv⟩
  | yielded _ => exact .inl rfl

/-- The library decodes every code as the status that the kernel means. -/
theorem result_code {req : Request} (hreq : req ≠ .yield) (s : Dusk.Status) :
    req.result s.code = .error (.ofKernel s) := by
  cases req <;> first | exact absurd rfl hreq | (cases s <;> rfl)

/-- The kernel reads the numbers of the library. -/
theorem tryFrom_code (n : SyscallNumber) : SyscallNumber.tryFrom (code n).toNat = some n := by
  cases n <;> rfl

theorem statusBlock_loaded {number : SyscallNumber} {inputs : List Operand} {reg : Reg → ℕ} :
    (statusBlock number inputs).Loaded reg ↔
      (∀ o ∈ inputs, reg o.reg % 2 ^ o.bits = o.value) ∧
        reg .rax % 2 ^ 64 = (code number).toNat := by
  simp only [Block.Loaded, statusBlock, List.forall_mem_append, List.forall_mem_singleton, usize]

/-- A literal in a register, with what stands above it. -/
theorem high_literal {n v : ℕ} (h : n % 2 ^ 32 = v) :
    n % 2 ^ 64 = n / 2 ^ 32 % 2 ^ 32 * 2 ^ 32 + v := by
  omega

/-- `debug_write` is the only function that loads literals. -/
theorem Request.whole {req : Request} {reg : Reg → ℕ} (h : req.block.Loaded reg)
    (hno : ∀ buf len, req ≠ .debugWrite buf len) : req.block.Whole reg := by
  have hbits : ∀ o ∈ req.block.inputs, o.bits = 64 := by
    cases req with
    | debugWrite buf len => exact absurd rfl (hno buf len)
    | _ => simp [Request.block, statusBlock, usize]
  intro o ho
  have hloaded := h o ho
  rwa [hbits o ho] at hloaded

theorem statusBlock_whole {number : SyscallNumber} {inputs : List Operand} {reg : Reg → ℕ} :
    (statusBlock number inputs).Whole reg ↔
      (∀ o ∈ inputs, reg o.reg % 2 ^ 64 = o.value) ∧
        reg .rax % 2 ^ 64 = (code number).toNat := by
  simp only [Block.Whole, statusBlock, List.forall_mem_append, List.forall_mem_singleton, usize]

/-- `handle` does what the function has loaded its registers for. -/
theorem Request.dispatch_eq {req : Request} {reg : Reg → ℕ} (h : req.block.Whole reg) :
    dispatch (callArgs reg) = req.program := by
  cases req with
  | yield =>
    have hrax : reg .rax % 2 ^ 64 = (code .yield).toNat := h _ (List.mem_singleton.mpr rfl)
    simp only [dispatch, callArgs, BitVec.toNat_ofNat, hrax, tryFrom_code, Request.program]
  | exit exitCode =>
    have hrdi : reg .rdi % 2 ^ 64 = exitCode.toNat := h (usize .rdi exitCode) List.mem_cons_self
    have hrax : reg .rax % 2 ^ 64 = (code .exit).toNat :=
      h (usize .rax (code .exit)) (List.mem_cons_of_mem _ List.mem_cons_self)
    simp only [dispatch, callArgs, BitVec.toNat_ofNat, hrax, tryFrom_code, Request.program, hrdi]
  | _ =>
    obtain ⟨hargs, hrax⟩ := statusBlock_whole.mp h
    simp only [List.forall_mem_cons, usize, literal] at hargs
    simp only [dispatch, callArgs, BitVec.toNat_ofNat, hrax, tryFrom_code, Request.program, hargs,
      SyscallArgs.recvArgs]

/-- What arrives of a `debug_write`, whatever stands above its literals. -/
theorem debugWrite_dispatch {buf len : Word} {reg : Reg → ℕ}
    (h : (Request.debugWrite buf len).block.Loaded reg) :
    dispatch (callArgs reg) = sysWrite (reg .rdi / 2 ^ 32 % 2 ^ 32 * 2 ^ 32 + 1) buf.toNat
      len.toNat (reg .r10 / 2 ^ 32 % 2 ^ 32 * 2 ^ 32) := by
  obtain ⟨hargs, hrax⟩ := statusBlock_loaded.mp h
  simp only [List.forall_mem_cons, usize, literal] at hargs
  obtain ⟨hrdi, hrsi, hrdx, hr10, _⟩ := hargs
  simp only [dispatch, callArgs, BitVec.toNat_ofNat, hrax, tryFrom_code, high_literal hrdi, hrsi,
    hrdx, high_literal hr10, Nat.add_zero]

/-- A file descriptor that the kernel does not know. -/
theorem sysWrite_refused {fd bufPtr len outPtr : ℕ} (h : ¬ (fd = 1 ∨ fd = 2)) :
    sysWrite fd bufPtr len outPtr = fail .badFileDescriptor := by
  rw [sysWrite, require, if_neg h]
  rfl

theorem Answer.yield {v : ℕ} (h : Answer .yield v) : v = 0 := by
  cases h with
  | returned hloaded hret =>
    rw [handle, Request.dispatch_eq (Request.whole hloaded (by simp))] at hret
    rcases returning_code hret with ⟨hv, _⟩ | ⟨s, _, hstop⟩
    · exact hv
    · exact absurd rfl ((sysYield_silent _).of_stop hstop s)
  | yielded _ => rfl

section Small

/-- The operands of a block in their registers. -/
def Block.load (b : Block) (r : Reg) : ℕ :=
  ((b.inputs.find? fun o => o.reg = r).map Operand.value).getD 0

/-- A task has loaded its registers. -/
theorem small_loaded (reg : Reg → ℕ) : ∃ s, Reached smallPlaces s ∧
    s.Runs slot₀ (smallTop 0) .user ∧ s.cpu.reg = reg ∧ s.cpu.ctl.rip = 0x400000 := by
  obtain ⟨s, hs, hr, hrip, _⟩ := small_user
  obtain ⟨_, hctl⟩ := (hs.inv smallPlaces_ok).cpu hr
  exact ⟨_, hs.step (.user hr (c := { s.cpu with reg }) ⟨fun _ _ => rfl, _, _, _, hctl.rip, rfl⟩),
    hr, rfl, hrip⟩

/-- The kernel has written the code of a call to the frame of the task. -/
theorem small_answered (reg : Reg → ℕ) (v : ℕ) : ∃ s u, Reached smallPlaces s ∧
    s.Runs slot₀ (smallTop 0) (.serving u) ∧ u.reg = reg ∧ u.rip = 0x400000 ∧
    s.cpu.reg .rsp = smallTop 0 - 136 ∧ s.cpu.mem (smallTop 0 - 128 + FRAME_RAX) = v := by
  obtain ⟨s₀, hs₀, hr₀, hreg, hrip⟩ := small_loaded reg
  obtain ⟨s, hs, hr, hrsp, _⟩ := hs₀.calls smallPlaces_ok hr₀
  have hinv := hs.inv smallPlaces_ok
  have hsize : KERNEL_STACK_SIZE = 32768 := rfl
  have htop : smallTop 0 = 0x100000 := rfl
  have hrax : FRAME_RAX = 96 := rfl
  let c : Cpu :=
    { s.cpu with mem := Function.update s.cpu.mem (smallTop 0 - 128 + FRAME_RAX) v }
  have hmove : KernelMove smallPlaces s c := by
    refine ⟨fun a ha => Function.update_of_ne ?_ _ _, _, _, rfl⟩
    rcases ha with rfl | ⟨i, t, ht, rfl⟩ | ⟨i, t, ht, hne, hstack⟩ | ⟨i, top, u, hrun, hlow, _, hother⟩ |
      ⟨i, top, u, hrun, _⟩
    · simp only [smallPlaces]
      omega
    · have hlt := i.isLt
      simp only [smallPlaces, MAX_TASKS] at hlt ⊢
      omega
    · have hapart := hinv.table.apart i slot₀ t _ ht hr.2 fun heq => hne (by rw [heq, hr.1])
      unfold Thread.Stack at hstack
      simp only at hapart
      omega
    · cases hrun.1.symm.trans hr.1
      cases hrun.2.symm.trans hr.2
      exact hother
    · cases hrun.1.symm.trans hr.1
      cases hrun.2.symm.trans hr.2
  refine ⟨_, _, hs.step (.kernel (.inr ⟨_, _, _, .inl hr⟩) hmove), hr, hreg, hrip, hrsp, ?_⟩
  exact Function.update_self (smallTop 0 - 128 + FRAME_RAX) v s.cpu.mem

end Small

section Calls

variable {P : Places} {s : System} {i : Slot} {top : ℕ} {u : User} {req : Request}

/-- Each function of the library, in any task and any interleaving, makes the kernel run the
call it stands for with its arguments; `debug_write` does if its registers hold nothing above
the two literals, which its `asm!` block leaves open. The kernel refuses it when there is
something above the file descriptor. -/
theorem request_arrives (hP : P.Ok) (h : Reached P s) (hr : s.Runs i top .user)
    (hloaded : req.block.Loaded s.cpu.reg) : ∃ c, enterSyscall P s.cpu = some c ∧
      ((∀ buf len, req ≠ .debugWrite buf len) ∨ req.block.Whole s.cpu.reg →
        handle (dispatchArgs c.mem (c.reg .rdi)) = returning req.program) ∧
      ∀ buf len, req = .debugWrite buf len →
        handle (dispatchArgs c.mem (c.reg .rdi)) = returning
          (sysWrite (s.cpu.reg .rdi / 2 ^ 32 % 2 ^ 32 * 2 ^ 32 + 1) buf.toNat len.toNat
            (s.cpu.reg .r10 / 2 ^ 32 % 2 ^ 32 * 2 ^ 32)) ∧
        (s.cpu.reg .rdi / 2 ^ 32 % 2 ^ 32 ≠ 0 →
          handle (dispatchArgs c.mem (c.reg .rdi)) = returning (fail .badFileDescriptor)) := by
  obtain ⟨c, hc, harr⟩ := h.arrives hP hr
  have hargs : dispatchArgs c.mem (c.reg .rdi) = callArgs s.cpu.reg :=
    harr.args ((h.inv hP).table.fit i _ hr.2)
  refine ⟨c, hc, ?_, ?_⟩
  · intro hwhole
    rw [handle, hargs, Request.dispatch_eq (hwhole.elim (Request.whole hloaded) id)]
  · rintro buf len rfl
    rw [handle, hargs, debugWrite_dispatch hloaded]
    refine ⟨rfl, fun hhigh => ?_⟩
    rw [sysWrite_refused (by omega)]

theorem request_arrives_map : ∃ s c, Reached smallPlaces s ∧ enterSyscall smallPlaces s.cpu = some c ∧
    handle (dispatchArgs c.mem (c.reg .rdi)) =
      returning (sysMap 0 2 0x500000 3 0x6FF8) := by
  let req : Request := .map 0 2 0x500000 3 0x6FF8
  obtain ⟨s, hs, hr, hreg, _⟩ := small_loaded req.block.load
  have hloaded : req.block.Loaded s.cpu.reg := by
    rw [hreg]
    decide
  obtain ⟨c, hc, hhandle, _⟩ := request_arrives smallPlaces_ok hs hr hloaded
  exact ⟨s, c, hs, hc, hhandle (.inl (by simp [req]))⟩

/-- What the block of a function promises about the registers holds when the task goes on,
for every function but `sys_yield`, whose block does not give up `rax`; and the result of
the function is what the kernel has answered. -/
theorem request_returns (hP : P.Ok) (h : Reached P s) (hr : s.Runs i top (.serving u))
    (hrsp : s.cpu.reg .rsp = top - 136) (hlast : ¬ (P.mode = .fourLevel ∧ u.rip = USER_SPACE_END))
    (hreturns : req.block.returns = true) (hloaded : req.block.Loaded u.reg)
    (hanswer : Answer req (s.cpu.mem (top - 128 + FRAME_RAX))) :
    ∃ c, leaveSyscall P s.cpu = some c ∧ c.ctl.rip = u.rip ∧
      ((∀ r ∉ req.block.outputs, c.reg r = u.reg r) ↔ req ≠ .yield) ∧
      ((c.reg .rax = 0 ∧ req.result (c.reg .rax) = .ok ()) ∨
        ∃ st : Dusk.Status, c.reg .rax = st.code ∧ req.result (c.reg .rax) = .error (.ofKernel st)) := by
  have hframe : Frame P s.cpu.mem top u := (h.inv hP).table.ok i _ hr.2
  have hret := h.leaves hP hr hrsp
  rw [if_pos ((canonical_of_le P.mode hframe.rip).mpr hlast)] at hret
  obtain ⟨c, hc, hres⟩ := hret
  refine ⟨c, hc, hres.rip, ?_, ?_⟩
  · by_cases hyield : req = .yield
    · subst hyield
      refine iff_of_false (fun hkept => ?_) (fun hne => hne rfl)
      have hrax : c.reg .rax = u.reg .rax := hkept .rax (by decide)
      have hone : u.reg .rax % 2 ^ 64 = 1 := hloaded _ (List.mem_singleton.mpr rfl)
      rw [← hrax, hres.rax, hanswer.yield] at hone
      cases hone
    · have houtputs : req.block.outputs = [.rax, .rcx, .r11] := by
        cases req <;> first | rfl | exact absurd rfl hyield | cases hreturns
      refine iff_of_true (fun r hout => ?_) hyield
      rw [houtputs] at hout
      simp only [List.mem_cons, List.not_mem_nil, or_false, not_or] at hout
      exact hres.regs r hout.1 hout.2.1 hout.2.2
  · rw [hres.rax]
    rcases hanswer.code with hzero | ⟨st, hst⟩
    · rw [hzero]
      exact .inl ⟨rfl, by cases req <;> rfl⟩
    · by_cases hyield : req = .yield
      · subst hyield
        exact .inl ⟨hanswer.yield, rfl⟩
      · rw [hst]
        exact .inr ⟨st, rfl, result_code hyield st⟩

/-- `sys_yield` finds 0 in `rax`, which its block has declared to stay 1. -/
theorem request_returns_yield : ∃ s u c, Reached smallPlaces s ∧
    s.Runs slot₀ (smallTop 0) (.serving u) ∧ Request.yield.block.Loaded u.reg ∧
    leaveSyscall smallPlaces s.cpu = some c ∧
    ¬ ∀ r ∉ Request.yield.block.outputs, c.reg r = u.reg r := by
  obtain ⟨s, u, hs, hr, hreg, hrip, hrsp, hcode⟩ := small_answered
    Request.yield.block.load 0
  have hloaded : Request.yield.block.Loaded u.reg := by
    rw [hreg]
    decide
  have hlast : ¬ (smallPlaces.mode = .fourLevel ∧ u.rip = USER_SPACE_END) := by
    rw [hrip]
    decide
  obtain ⟨k, _⟩ := smallBoot_reachable
  have hwhole : Request.yield.block.Whole Request.yield.block.load := by decide
  have hanswer : Answer .yield (s.cpu.mem (smallTop 0 - 128 + FRAME_RAX)) := by
    rw [hcode]
    -- no other task is ready
    refine @Answer.returned _ Request.yield.block.load { k with sched := Scheduler.new } _
      { k with sched := Scheduler.new } (by decide) ?_
    rw [handle, Request.dispatch_eq hwhole]
    rfl
  obtain ⟨c, hc, _, hkept, _⟩ := request_returns smallPlaces_ok hs hr hrsp hlast rfl hloaded hanswer
  exact ⟨s, u, c, hs, hr, hloaded, hc, fun hall => hkept.mp hall rfl⟩

end Calls

end DuskSys

end Dusk
