import Dusk.Proofs.Views

/-! Calls that fail: what a refused call leaves exactly as it was. -/

namespace Dusk

open Lib Radix

variable {b : BootInfo} {B : BootPages} {L : Layout} {k k' : Kernel}

/-- The byte of an address space at an address. -/
def AddressSpace.byteAt (s : AddressSpace) (mem : PhysMem) (va : ℕ) : Option Byte :=
  (s.toPhysical mem va).map mem.byte

/-- Nothing has happened that a task or a later call could see. -/
structure Unchanged (k k' : Kernel) : Prop where
  sched : k'.sched = k.sched
  spaces : k'.spaces = k.spaces
  kernelSpace : k'.kernelSpace = k.kernelSpace
  translations : ∀ s va, k.Live s → s.toPhysical k'.machine.mem va = s.toPhysical k.machine.mem va ∧
    s.mapping k'.machine.mem va = s.mapping k.machine.mem va
  memory : ∀ s va, k.Live s → va < 2 ^ 63 →
    s.byteAt k'.machine.mem va = s.byteAt k.machine.mem va
  frames : ∀ f, k'.machine.frameState f = k.machine.frameState f
  freeFrames : k'.machine.allocator.freeFrames = k.machine.allocator.freeFrames

namespace Refused

theorem live (h : Refused B L k k') (s : AddressSpace) : k'.Live s ↔ k.Live s := by
  rw [Kernel.Live, Kernel.Live, h.only]

theorem reads (h : Refused B L k k') (hk : KInv B L k) {s : AddressSpace} (hs : k.Live s)
    (va : ℕ) : s.root.SameAt k.machine.mem k'.machine.mem va :=
  hk.res.sameAt h.inv.res h.regs.sameTables rfl hs ((h.live s).mpr hs) fun _ r _ e =>
    leafAt_congr rfl rfl h.regs.paging (fun _ _ _ hf => h.words _ (by simp [hf]) (by simp [hf]))
      r _ e

theorem unchanged (h : Refused B L k k') (hk : KInv B L k) : Unchanged k k' := by
  obtain ⟨hframes, hfree⟩ := hk.res.sameFrames h.inv.res (by
    rw [Machine.frameCount, Machine.frameCount, h.regs.bitmap])
  refine ⟨by rw [h.only], by rw [h.only], by rw [h.only], fun s va hs => h.reads hk hs va, ?_,
    hframes, hfree⟩
  intro s va hs hva
  rw [AddressSpace.byteAt, AddressSpace.byteAt, AddressSpace.toPhysical, (h.reads hk hs va).1]
  cases hp : s.root.toPhysical k.machine.mem va with
  | none =>
    rw [AddressSpace.toPhysical, hp]
    rfl
  | some p =>
    have hheld := hk.res.user_role hs hva ⟨p, hp, rfl⟩
    rw [AddressSpace.toPhysical, hp, Option.map_some, Option.map_some]
    refine congrArg some (PhysMem.byte_congr (h.words _ ?_ ?_)) <;>
    · intro hrole
      rw [hrole] at hheld
      rcases hheld with ⟨_, _, ht⟩ | ⟨_, ht⟩ | ⟨_, ht⟩ <;> cases ht

end Refused

/-- A syscall other than the creation of a task that returns an error. -/
theorem handle_refused (h : KInv B L k) (hp : k.pending = none) {a : SyscallArgs}
    (ha : ¬ a.Creates) {code : ℕ} (hr : handle a k = .ok code k') (hcode : code ≠ 0) :
    Refused B L k k' := by
  have hsat : (handle a).Sat k (fun code k' => code ≠ 0 → Refused B L k k')
      (fun _ _ => True) := by
    rw [handle, sat_returning]
    refine (dispatch_sat h hp a).mono (fun _ _ _ hne => absurd rfl hne) ?_
    intro stop k₁ hend
    cases stop with
    | status s => exact fun _ => hend.2.2.1 ha
    | switched => trivial
    | halted _ => trivial
    | panicked _ => trivial
  exact hsat.of_ok hr hcode

/-- The calls that change nothing when they fail. -/
def SyscallArgs.Undone (a : SyscallArgs) : Prop :=
  SyscallNumber.tryFrom a.num.toNat ∈ [some .frameAlloc, some .frameDealloc, some .asCreate,
    some .map, some .unmap, some .send]

/-- What a computed step returns. -/
theorem step_returns {a : Action} {code : ℕ}
    (h : ((step a k).any fun r => r.2.any fun c => c.code == code) = true) :
    ∃ k' c, step a k = some (k', some c) ∧ c.code = code := by
  obtain ⟨⟨k', done⟩, hstep, hdone⟩ := (Option.any_eq_true _ _).mp h
  obtain ⟨c, rfl, hcode⟩ := (Option.any_eq_true _ _).mp hdone
  exact ⟨k', c, hstep, by simpa using hcode⟩

theorem step_handle {a : SyscallArgs} {c : Completion}
    (hs : step (.syscall a) k = some (k', some c)) :
    c.call = .syscall a ∧ handle a k = .ok c.code k' := by
  have hprog : ((Action.syscall a).program).Sat k
      (fun r k' => ∃ code, r = some (.syscall a, code) ∧ handle a k = .ok code k')
      (fun _ _ => True) := by
    simp only [Action.program, Prog.sat_bind]
    rw [Prog.sat_iff]
    exact ⟨fun code k' hr => ⟨code, rfl, hr⟩, fun _ _ _ => trivial⟩
  rw [step] at hs
  split_ifs at hs
  split at hs
  next call code k₁ hr =>
    obtain ⟨code', heq, hhandle⟩ := hprog.of_ok hr
    cases heq
    cases hcur : k.sched.current with
    | none => rw [hcur] at hs; cases hs
    | some cur => rw [hcur] at hs; cases hs; exact ⟨rfl, hhandle⟩
  next => cases hs
  next => cases hs
  next => cases hs

/-- A failed call changes nothing; a failed `sys_recv`, whether it has waited or not,
has consumed no message. -/
theorem failed_calls_change_nothing (hok : b.Ok) (hk : Reachable b k) :
    (∀ a code k', k.pending = none → a.Undone → handle a k = .ok code k' → code ≠ 0 →
      Unchanged k k') ∧
    ∀ a k' c, step a k = some (k', some c) → c.call.IsRecv → c.code ≠ 0 →
      ∀ t, k'.mailOf t = k.mailOf t := by
  obtain ⟨B, L, h⟩ := hk.inv hok
  constructor
  · intro a code k' hp ha hr hcode
    have hcreates : ¬ a.Creates := by
      intro hc
      rw [SyscallArgs.Undone, hc] at ha
      exact absurd ha (by decide)
    exact (handle_refused h hp hcreates hr hcode).unchanged h
  · intro a k' c hs _ hcode t
    obtain ⟨_, _, hdone⟩ := step_spec h hs
    obtain ⟨_, _, _, hret⟩ := hdone c rfl
    exact hret.refused hcode t

theorem tourMap_undone : tourMap.Undone := by
  rw [SyscallArgs.Undone]
  decide

/-- A `sys_map` that has taken its frame handle and puts it back, and a `sys_recv` whose
buffer is refused. -/
theorem failed_calls_change_nothing_small : ∃ k k₁ k₂ c, Reachable (smallBoot [0x700000]) k ∧
    handle tourMap k = .ok 1 k₁ ∧ Unchanged k k₁ ∧
    step (.syscall tourRecv) k = some (k₂, some c) ∧ c.code = 2 ∧
    ∀ t, k₂.mailOf t = k.mailOf t := by
  obtain ⟨k, hk, htoured⟩ := tour_reachable
  obtain ⟨hcalls, hrecvs⟩ := failed_calls_change_nothing (smallBoot_ok [0x700000]) hk
  obtain ⟨k₁, c₁, hstep₁, hcode₁⟩ := step_returns htoured.refused
  obtain ⟨k₂, c₂, hstep₂, hcode₂⟩ := step_returns htoured.unreceived
  obtain ⟨hcall₁, hhandle⟩ := step_handle hstep₁
  obtain ⟨hcall₂, _⟩ := step_handle hstep₂
  rw [hcode₁] at hhandle
  refine ⟨k, k₁, k₂, c₂, hk, hhandle, hcalls tourMap 1 k₁ htoured.pending tourMap_undone hhandle
    (by decide), hstep₂, hcode₂, hrecvs _ k₂ c₂ hstep₂ ?_ (by rw [hcode₂]; decide)⟩
  rw [hcall₂]
  exact rfl

end Dusk
