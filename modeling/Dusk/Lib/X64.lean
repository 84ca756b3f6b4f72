import Mathlib.Tactic

/-! The part of an x86-64 processor that entry and switch code uses: general registers,
quadwords in memory, the stack, the flags, selectors and the two GS bases.
Instructions run as in ring 0; an access that is not aligned, or that leaves the address
space, has no next state. Rules for runs of pushes and of pops are at the end. -/

namespace Lib

namespace X64

inductive Reg where
  | rax | rbx | rcx | rdx | rsi | rdi | rbp | rsp
  | r8 | r9 | r10 | r11 | r12 | r13 | r14 | r15
  deriving DecidableEq, Repr

inductive Seg where
  | ds | es | fs | gs
  deriving DecidableEq, Repr

/-- What is neither a general register nor memory. `rip` is the address of the instruction
after the one that runs. -/
structure Control where
  rip : ℕ
  rflags : ℕ
  cs : ℕ
  ss : ℕ
  seg : Seg → ℕ
  gsBase : ℕ
  kernelGsBase : ℕ
  /-- The stack for interrupts in ring 3, in the task state segment. -/
  rsp0 : ℕ

/-- `zf` is the outcome of the last `test`, which nothing but `jz` reads. -/
structure Cpu where
  reg : Reg → ℕ
  mem : ℕ → ℕ
  ctl : Control
  zf : Bool

inductive Instr where
  | push (r : Reg)
  | pushImm (v : ℕ)
  | pop (r : Reg)
  | mov (dst src : Reg)
  /-- `mov dst, [base]` -/
  | load (dst base : Reg)
  /-- `mov [base], src` -/
  | store (base src : Reg)
  | loadGs (dst : Reg) (disp : ℕ)
  | storeGs (disp : ℕ) (src : Reg)
  | pushGs (disp : ℕ)
  | popGs (disp : ℕ)
  | movSeg (s : Seg) (src : Reg)
  | addImm (r : Reg) (v : ℕ)
  /-- `xor r, r` -/
  | clear (r : Reg)
  /-- `test byte ptr [rsp + disp], mask` -/
  | testByte (disp mask : ℕ)
  /-- `jz` to the place after the instruction. -/
  | jzOver (i : Instr)
  | swapgs
  | cld
  deriving DecidableEq, Repr

def ADDRESS_END : ℕ := 2 ^ 64

/-- A quadword can be read and written here. -/
def Fits (a : ℕ) : Prop := a % 8 = 0 ∧ a + 8 < ADDRESS_END

instance (a : ℕ) : Decidable (Fits a) := inferInstanceAs (Decidable (_ ∧ _))

namespace Cpu

def set (c : Cpu) (r : Reg) (v : ℕ) : Cpu := { c with reg := Function.update c.reg r v }

def withCtl (c : Cpu) (ctl : Control) : Cpu := { c with ctl }

def read (c : Cpu) (a : ℕ) : Option ℕ := if Fits a then some (c.mem a) else none

def write (c : Cpu) (a v : ℕ) : Option Cpu :=
  if Fits a then some { c with mem := Function.update c.mem a v } else none

def pushWord (c : Cpu) (v : ℕ) : Option Cpu :=
  if 8 ≤ c.reg .rsp then (c.write (c.reg .rsp - 8) v).map fun d => d.set .rsp (c.reg .rsp - 8)
  else none

def popWord (c : Cpu) : Option (ℕ × Cpu) :=
  (c.read (c.reg .rsp)).map fun v => (v, c.set .rsp (c.reg .rsp + 8))

/-- Push several quadwords, the first one first. -/
def pushAll : List ℕ → Cpu → Option Cpu
  | [], c => some c
  | v :: vs, c => (c.pushWord v).bind (pushAll vs)

/-- `call` of code at `target`, to return to `back`. -/
def call (c : Cpu) (target back : ℕ) : Option Cpu :=
  (c.pushWord back).map fun d => d.withCtl { d.ctl with rip := target }

def ret (c : Cpu) : Option Cpu :=
  c.popWord.map fun p => p.2.withCtl { p.2.ctl with rip := p.1 }

end Cpu

/-- Loading a selector takes the base of its segment; the segments are flat. -/
def Control.setSeg (k : Control) (s : Seg) (v : ℕ) : Control :=
  { k with
    seg := Function.update k.seg s (v % 2 ^ 16)
    gsBase := if s = .gs then 0 else k.gsBase }

def exec : Instr → Cpu → Option Cpu
  | .push r, c => c.pushWord (c.reg r)
  | .pushImm v, c => c.pushWord v
  | .pop r, c => c.popWord.map fun p => p.2.set r p.1
  | .mov dst src, c => some (c.set dst (c.reg src))
  | .load dst base, c => (c.read (c.reg base)).map fun v => c.set dst v
  | .store base src, c => c.write (c.reg base) (c.reg src)
  | .loadGs dst disp, c => (c.read (c.ctl.gsBase + disp)).map fun v => c.set dst v
  | .storeGs disp src, c => c.write (c.ctl.gsBase + disp) (c.reg src)
  | .pushGs disp, c => (c.read (c.ctl.gsBase + disp)).bind fun v => c.pushWord v
  | .popGs disp, c => c.popWord.bind fun p => p.2.write (p.2.ctl.gsBase + disp) p.1
  | .movSeg s src, c => some (c.withCtl (c.ctl.setSeg s (c.reg src)))
  | .addImm r v, c => some (c.set r (c.reg r + v))
  | .clear r, c => some (c.set r 0)
  | .testByte disp mask, c =>
    (c.read (c.reg .rsp + disp)).map fun v => { c with zf := v % 256 &&& mask = 0 }
  | .jzOver i, c => if c.zf then some c else exec i c
  | .swapgs, c =>
    some (c.withCtl { c.ctl with gsBase := c.ctl.kernelGsBase, kernelGsBase := c.ctl.gsBase })
  | .cld, c => some (c.withCtl { c.ctl with rflags := c.ctl.rflags ^^^ (c.ctl.rflags &&& 0x400) })

def run : List Instr → Cpu → Option Cpu
  | [], c => some c
  | i :: is, c => (exec i c).bind (run is)

/-- `iretq`. -/
def iretq (c : Cpu) : Option Cpu :=
  c.popWord.bind fun (rip, c) => c.popWord.bind fun (cs, c) => c.popWord.bind fun (rflags, c) =>
    c.popWord.bind fun (rsp, c) => c.popWord.map fun (ss, c) =>
      (c.set .rsp rsp).withCtl { c.ctl with rip, cs, rflags, ss }

theorem run_append (is js : List Instr) (c : Cpu) :
    run (is ++ js) c = (run is c).bind (run js) := by
  induction is generalizing c with
  | nil => rfl
  | cons i is ih =>
    simp only [List.cons_append, run, Option.bind_assoc]
    congr 1
    funext d
    exact ih d

@[simp] theorem Cpu.set_mem (c : Cpu) (r : Reg) (v : ℕ) : (c.set r v).mem = c.mem := rfl

@[simp] theorem Cpu.set_ctl (c : Cpu) (r : Reg) (v : ℕ) : (c.set r v).ctl = c.ctl := rfl

@[simp] theorem Cpu.set_zf (c : Cpu) (r : Reg) (v : ℕ) : (c.set r v).zf = c.zf := rfl

@[simp] theorem Cpu.set_reg_self (c : Cpu) (r : Reg) (v : ℕ) : (c.set r v).reg r = v := by
  simp [Cpu.set]

@[simp] theorem Cpu.set_reg_of_ne (c : Cpu) {r r' : Reg} (v : ℕ) (h : r' ≠ r) :
    (c.set r v).reg r' = c.reg r' := by
  simp [Cpu.set, h]

@[simp] theorem Cpu.withCtl_reg (c : Cpu) (k : Control) : (c.withCtl k).reg = c.reg := rfl

@[simp] theorem Cpu.withCtl_mem (c : Cpu) (k : Control) : (c.withCtl k).mem = c.mem := rfl

@[simp] theorem Cpu.withCtl_ctl (c : Cpu) (k : Control) : (c.withCtl k).ctl = k := rfl

@[simp] theorem Cpu.set_set (c : Cpu) (r : Reg) (v w : ℕ) : (c.set r v).set r w = c.set r w := by
  simp [Cpu.set]

/-- The quadwords from an address on. -/
def Holds (mem : ℕ → ℕ) : ℕ → List ℕ → Prop
  | _, [] => True
  | a, v :: vs => mem a = v ∧ Holds mem (a + 8) vs

/-- Write quadwords from an address on. -/
def writeWords (mem : ℕ → ℕ) : ℕ → List ℕ → ℕ → ℕ
  | _, [] => mem
  | a, v :: vs => Function.update (writeWords mem (a + 8) vs) a v

section Holds

variable {mem mem' : ℕ → ℕ} {a : ℕ} {vs ws : List ℕ}

theorem holds_append : Holds mem a (vs ++ ws) ↔
    Holds mem a vs ∧ Holds mem (a + 8 * vs.length) ws := by
  induction vs generalizing a with
  | nil => simp [Holds]
  | cons v vs ih =>
    have hlen : a + 8 + 8 * vs.length = a + 8 * (vs.length + 1) := by omega
    simp only [List.cons_append, Holds, ih, List.length_cons, hlen, and_assoc]

theorem Holds.congr (h : Holds mem a vs)
    (hsame : ∀ x, a ≤ x → x < a + 8 * vs.length → mem' x = mem x) : Holds mem' a vs := by
  induction vs generalizing a with
  | nil => trivial
  | cons v vs ih =>
    simp only [List.length_cons] at hsame
    refine ⟨(hsame a le_rfl (by omega)).trans h.1, ih h.2 ?_⟩
    intro x hx hlt
    exact hsame x (by omega) (by omega)

theorem writeWords_of_outside {x : ℕ} (h : x < a ∨ a + 8 * vs.length ≤ x) :
    writeWords mem a vs x = mem x := by
  induction vs generalizing a with
  | nil => rfl
  | cons v vs ih =>
    simp only [List.length_cons] at h
    rw [writeWords, Function.update_of_ne (by omega), ih (by omega)]

theorem holds_writeWords : Holds (writeWords mem a vs) a vs := by
  induction vs generalizing a with
  | nil => trivial
  | cons v vs ih =>
    refine ⟨Function.update_self _ _ _, ih.congr fun x hx _ => ?_⟩
    exact Function.update_of_ne (by omega) _ _

end Holds

/-- There is room for `n` quadwords below the stack pointer. -/
structure Cpu.Room (c : Cpu) (n : ℕ) : Prop where
  aligned : c.reg .rsp % 8 = 0
  low : 8 * n ≤ c.reg .rsp
  high : c.reg .rsp < ADDRESS_END

/-- The quadwords `vs` have been pushed, in this order. -/
structure Pushed (c : Cpu) (vs : List ℕ) (d : Cpu) : Prop where
  rsp : d.reg .rsp = c.reg .rsp - 8 * vs.length
  regs : ∀ r, r ≠ .rsp → d.reg r = c.reg r
  held : Holds d.mem (d.reg .rsp) vs.reverse
  rest : ∀ a, a < d.reg .rsp ∨ c.reg .rsp ≤ a → d.mem a = c.mem a
  ctl : d.ctl = c.ctl

theorem pushWord_pushed {c : Cpu} (h : c.Room 1) (v : ℕ) :
    ∃ d, c.pushWord v = some d ∧ Pushed c [v] d := by
  have hlow := h.low
  have hal := h.aligned
  have hfits : Fits (c.reg .rsp - 8) := by
    have := h.high
    exact ⟨by omega, by omega⟩
  refine ⟨_, by rw [Cpu.pushWord, if_pos (by omega), Cpu.write, if_pos hfits]; rfl, ?_⟩
  refine ⟨by simp, fun r hr => by simp [hr], ?_, ?_, rfl⟩
  · simp [Holds]
  · intro a ha
    simp only [Cpu.set_reg_self, Cpu.set_mem] at ha ⊢
    exact Function.update_of_ne (by omega) _ _

theorem Pushed.trans {c d e : Cpu} {vs ws : List ℕ} (h : Pushed c vs d) (h' : Pushed d ws e)
    (hroom : 8 * (vs.length + ws.length) ≤ c.reg .rsp) : Pushed c (vs ++ ws) e := by
  have hd := h.rsp
  have he := h'.rsp
  refine ⟨?_, fun r hr => (h'.regs r hr).trans (h.regs r hr), ?_, ?_, h'.ctl.trans h.ctl⟩
  · rw [List.length_append]
    omega
  · rw [List.reverse_append, holds_append, List.length_reverse]
    refine ⟨h'.held, ?_⟩
    have hat : e.reg .rsp + 8 * ws.length = d.reg .rsp := by omega
    rw [hat]
    exact h.held.congr fun x hx _ => h'.rest x (.inr hx)
  · intro a ha
    rw [h'.rest a (by omega), h.rest a (by omega)]

theorem Pushed.withCtl {c d : Cpu} {vs : List ℕ} (h : Pushed c vs d) (k : Control) :
    Pushed (c.withCtl k) vs (d.withCtl k) :=
  ⟨h.rsp, h.regs, h.held, h.rest, rfl⟩

theorem pushAll_pushed (vs : List ℕ) {c : Cpu} (h : c.Room vs.length) :
    ∃ d, c.pushAll vs = some d ∧ Pushed c vs d := by
  induction vs generalizing c with
  | nil => exact ⟨c, rfl, by simp, fun _ _ => rfl, trivial, fun _ _ => rfl, rfl⟩
  | cons v vs ih =>
    have hlow := h.low
    have hal := h.aligned
    have hhigh := h.high
    simp only [List.length_cons] at hlow
    obtain ⟨d, hd, hpush⟩ := pushWord_pushed (c := c) ⟨hal, by omega, hhigh⟩ v
    have hrsp := hpush.rsp
    simp only [List.length_singleton] at hrsp
    obtain ⟨e, he, hrest⟩ := ih (c := d) ⟨by omega, by omega, by omega⟩
    refine ⟨e, ?_, hpush.trans hrest (by simp only [List.length_singleton]; omega)⟩
    rw [Cpu.pushAll, hd]
    exact he

theorem pushWord_regs {c d : Cpu} {v : ℕ} (h : c.pushWord v = some d) {r : Reg} (hr : r ≠ .rsp) :
    d.reg r = c.reg r := by
  unfold Cpu.pushWord Cpu.write at h
  split_ifs at h
  · cases h
    exact Cpu.set_reg_of_ne _ _ hr
  · cases h

/-- Registers and numbers are pushed with the values they have before the first push. -/
theorem run_pushSources (xs : List (Reg ⊕ ℕ)) (hxs : .inl .rsp ∉ xs) (c : Cpu) :
    run (xs.map (Sum.elim .push .pushImm)) c = c.pushAll (xs.map (Sum.elim c.reg id)) := by
  induction xs generalizing c with
  | nil => rfl
  | cons x xs ih =>
    simp only [List.mem_cons, not_or] at hxs
    have hstep : exec (Sum.elim .push .pushImm x) c = c.pushWord (Sum.elim c.reg id x) := by
      cases x <;> rfl
    rw [List.map_cons, List.map_cons, run, Cpu.pushAll, hstep]
    cases hpush : c.pushWord (Sum.elim c.reg id x) with
    | none => rfl
    | some d =>
      have hsame : xs.map (Sum.elim d.reg id) = xs.map (Sum.elim c.reg id) := by
        refine List.map_congr_left fun y hy => ?_
        cases y with
        | inl r => exact pushWord_regs hpush fun hr => hxs.2 (hr ▸ hy)
        | inr v => rfl
      rw [Option.bind_some, Option.bind_some, ih hxs.2, hsame]

theorem run_pushes {rs : List Reg} (hrs : .rsp ∉ rs) (c : Cpu) :
    run (rs.map .push) c = c.pushAll (rs.map c.reg) := by
  have h := run_pushSources (rs.map .inl) (by simpa using hrs) c
  rwa [List.map_map, List.map_map] at h

/-- A run of clears. -/
theorem clears_run (rs : List Reg) (c : Cpu) : ∃ d, run (rs.map .clear) c = some d ∧
    (∀ r ∈ rs, d.reg r = 0) ∧ (∀ r, r ∉ rs → d.reg r = c.reg r) ∧ d.mem = c.mem ∧
      d.ctl = c.ctl := by
  induction rs generalizing c with
  | nil => exact ⟨c, rfl, by simp, fun _ _ => rfl, rfl, rfl⟩
  | cons r rs ih =>
    obtain ⟨d, hd, hzero, hothers, hmem, hctl⟩ := ih (c.set r 0)
    refine ⟨d, hd, ?_, ?_, hmem, hctl⟩
    · intro r' hr'
      by_cases hin : r' ∈ rs
      · exact hzero r' hin
      · have hself : r' = r := by simpa [hin] using hr'
        rw [hothers r' hin, hself, Cpu.set_reg_self]
    · intro r' hr'
      simp only [List.mem_cons, not_or] at hr'
      rw [hothers r' hr'.2, Cpu.set_reg_of_ne _ _ hr'.1]

/-- Registers have been taken from the stack. -/
structure Popped (c : Cpu) (rs : List Reg) (f : Reg → ℕ) (d : Cpu) : Prop where
  rsp : d.reg .rsp = c.reg .rsp + 8 * rs.length
  taken : ∀ r ∈ rs, d.reg r = f r
  others : ∀ r, r ∉ rs → r ≠ .rsp → d.reg r = c.reg r
  mem : d.mem = c.mem
  ctl : d.ctl = c.ctl

theorem popWord_eq {c : Cpu} (h : Fits (c.reg .rsp)) :
    c.popWord = some (c.mem (c.reg .rsp), c.set .rsp (c.reg .rsp + 8)) := by
  rw [Cpu.popWord, Cpu.read, if_pos h]
  rfl

theorem call_run {c : Cpu} (h : c.Room 1) (target back : ℕ) :
    ∃ d, c.call target back = some (d.withCtl { c.ctl with rip := target }) ∧ Pushed c [back] d := by
  obtain ⟨d, hd, hp⟩ := pushWord_pushed h back
  refine ⟨d, ?_, hp⟩
  rw [Cpu.call, hd, Option.map_some, hp.ctl]

theorem ret_eq {c : Cpu} (h : Fits (c.reg .rsp)) : c.ret =
    some ((c.set .rsp (c.reg .rsp + 8)).withCtl { c.ctl with rip := c.mem (c.reg .rsp) }) := by
  rw [Cpu.ret, popWord_eq h]
  rfl

/-- A run of pops. -/
theorem pops_run (rs : List Reg) (hrs : .rsp ∉ rs) {f : Reg → ℕ} {c : Cpu}
    (hal : c.reg .rsp % 8 = 0) (hhigh : c.reg .rsp + 8 * rs.length < ADDRESS_END)
    (h : Holds c.mem (c.reg .rsp) (rs.map f)) :
    ∃ d, run (rs.map .pop) c = some d ∧ Popped c rs f d := by
  induction rs generalizing c with
  | nil => exact ⟨c, rfl, by simp, by simp, fun _ _ _ => rfl, rfl, rfl⟩
  | cons r rs ih =>
    simp only [List.mem_cons, not_or] at hrs
    simp only [List.length_cons] at hhigh
    obtain ⟨hr, hrest⟩ := h
    have hfits : Fits (c.reg .rsp) := ⟨hal, by omega⟩
    have hrsp : ((c.set .rsp (c.reg .rsp + 8)).set r (f r)).reg .rsp = c.reg .rsp + 8 := by
      rw [Cpu.set_reg_of_ne _ _ hrs.1, Cpu.set_reg_self]
    obtain ⟨d, hd, hpop⟩ := ih hrs.2 (c := (c.set .rsp (c.reg .rsp + 8)).set r (f r))
      (by rw [hrsp]; omega) (by rw [hrsp]; omega) (by rw [hrsp]; exact hrest)
    refine ⟨d, ?_, ?_, ?_, ?_, hpop.mem, hpop.ctl⟩
    · rw [List.map_cons, run, exec, popWord_eq hfits, hr]
      exact hd
    · rw [hpop.rsp, hrsp, List.length_cons]
      omega
    · intro r' hr'
      by_cases hin : r' ∈ rs
      · exact hpop.taken r' hin
      · have hself : r' = r := by simpa [hin] using hr'
        rw [hpop.others r' hin (by rw [hself]; exact fun h => hrs.1 h.symm), hself, Cpu.set_reg_self]
    · intro r' hr' hne
      simp only [List.mem_cons, not_or] at hr'
      rw [hpop.others r' hr'.2 hne, Cpu.set_reg_of_ne _ _ hr'.1, Cpu.set_reg_of_ne _ _ hne]

/-- `iretq` takes its five quadwords. -/
theorem iretq_eq {c : Cpu} {rip cs rflags rsp ss : ℕ} (hal : c.reg .rsp % 8 = 0)
    (hhigh : c.reg .rsp + 40 < ADDRESS_END)
    (h : Holds c.mem (c.reg .rsp) [rip, cs, rflags, rsp, ss]) :
    ∃ d, iretq c = some d ∧ d.reg .rsp = rsp ∧ (∀ r, r ≠ .rsp → d.reg r = c.reg r) ∧
      d.mem = c.mem ∧ d.ctl = { c.ctl with rip, cs, rflags, ss } := by
  obtain ⟨hrip, hcs, hflags, hrsp, hss, _⟩ := h
  have hnext : ∀ {x : ℕ}, c.reg .rsp ≤ x → x % 8 = 0 → x ≤ c.reg .rsp + 32 →
      (c.set .rsp x).popWord = some (c.mem x, c.set .rsp (x + 8)) := by
    intro x _ hx hle
    have hfits : Fits ((c.set .rsp x).reg .rsp) := by
      rw [Cpu.set_reg_self]
      exact ⟨hx, by omega⟩
    rw [popWord_eq hfits]
    simp
  have hfirst : Fits (c.reg .rsp) := ⟨hal, by omega⟩
  refine ⟨(c.set .rsp rsp).withCtl { c.ctl with rip, cs, rflags, ss }, ?_, by simp, ?_, rfl, rfl⟩
  · simp only [iretq, popWord_eq hfirst, Option.bind_some]
    rw [hnext (by omega) (by omega) (by omega), Option.bind_some,
      hnext (by omega) (by omega) (by omega), Option.bind_some,
      hnext (by omega) (by omega) (by omega), Option.bind_some,
      hnext (by omega) (by omega) (by omega), Option.map_some, hrip, hcs, hflags, hrsp, hss]
    simp
  · intro r hr
    simp [hr]

end X64

end Lib
