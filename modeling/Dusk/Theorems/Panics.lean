import Dusk.Proofs.Views

/-! Panics: the only panic a task can make the kernel reach is the check of a debug build
on the pointer that `sys_write` and `sys_send` copy from, which unlike the other calls do
not refuse the null pointer. -/

namespace Dusk

open Lib

variable {b : BootInfo} {B : BootPages} {L : Layout} {k : Kernel}

/-- A copy from the null pointer in a debug build. -/
theorem copyFromUser_null {Q : List Byte → Kernel → Prop} {E : Stop → Kernel → Prop} {len : ℕ}
    (hd : k.debugAssertions = true) (hpos : len ≠ 0) (hlen : len ≤ 128)
    (hE : E (.panicked .nullPointer) k) : (copyFromUser 0 len).Sat k Q E := by
  have hadd : checkedAdd 0 len = some len := by
    rw [checkedAdd, if_pos (by simp only [USIZE_END]; omega), Nat.zero_add]
  have hend : ¬ len > USER_SPACE_END := by
    simp only [USER_SPACE_END]
    omega
  rw [copyFromUser, Prog.sat_bind, checkUserEnd, hadd]
  simp only [if_neg hend, Prog.sat_pure, Prog.sat_bind, checkPointer, Prog.sat_get,
    Prog.sat_assert]
  simpa [hd, hpos] using hE

/-- The task a condition on the state speaks of is the running one. -/
theorem KInv.running_task (h : KInv B L k) {cur : ℕ} {task : Tcb} (hcur : k.sched.current = some cur)
    (htask : k.sched.tasks.get cur = some task) : Running k cur task := by
  obtain ⟨cur', task', hrun⟩ := h.tasks.current
  have hc := hrun.current
  rw [hcur, Option.some_inj] at hc
  subst hc
  have hg := hrun.get
  rw [htask, Option.some_inj] at hg
  subst hg
  exact hrun

theorem sysWrite_null {fd bufPtr len outPtr : ℕ} {E : Stop → Kernel → Prop} (h : KInv B L k)
    (hd : k.debugAssertions = true) (hnull : NullWrite k fd bufPtr len outPtr)
    (hE : E (.panicked .nullPointer) k) :
    (sysWrite fd bufPtr len outPtr).Sat k (fun _ _ => False) E := by
  obtain ⟨hfd, rfl, hlen, cur, task, hcur, htask, hval, hopt⟩ := hnull
  rw [sysWrite, Prog.sat_bind, sat_require]
  refine ⟨fun _ => ?_, fun hno => absurd hfd hno⟩
  rw [Prog.sat_bind, sat_selfTask (h.running_task hcur htask), Prog.sat_bind,
    Prog.sat_of_ok hval, Prog.sat_bind, Prog.sat_of_ok hopt, Prog.sat_bind]
  obtain ⟨n, hn⟩ : ∃ n, (len + 127) / 128 = n + 1 := ⟨(len + 127) / 128 - 1, by omega⟩
  rw [hn, writeChunks]
  have hadd : checkedAdd 0 0 = some 0 := by decide
  simp only [Prog.sat_bind, sat_onMachine, addUsize, hadd, Prog.sat_expect_some]
  exact copyFromUser_null hd (by omega) (by omega) hE

theorem sysSend_null {dest msgPtr len : ℕ} {E : Stop → Kernel → Prop} (h : KInv B L k)
    (hd : k.debugAssertions = true) (hnull : NullSend k msgPtr len)
    (hE : E (.panicked .nullPointer) k) :
    (sysSend dest msgPtr len).Sat k (fun _ _ => False) E := by
  obtain ⟨hmax, rfl, hlen, cur, task, hcur, htask, hval⟩ := hnull
  rw [sysSend, Prog.sat_bind, sat_require]
  refine ⟨fun _ => ?_, fun hno => absurd hmax hno⟩
  rw [Prog.sat_bind, sat_currentTask hcur, Prog.sat_bind,
    sat_selfTask (h.running_task hcur htask), Prog.sat_bind, Prog.sat_of_ok hval, Prog.sat_bind]
  exact copyFromUser_null hd hlen hmax hE

theorem handle_null (h : KInv B L k) {a : SyscallArgs} (hnull : a.NullCopy k) :
    ∃ k', handle a k = .stop (.panicked .nullPointer) k' := by
  obtain ⟨hd, hnull⟩ := hnull
  have hsat : (handle a).Sat k (fun _ _ => False) (fun stop _ => stop = .panicked .nullPointer) := by
    rw [handle, sat_returning, dispatch]
    split at hnull
    next heq => rw [heq]; exact sysWrite_null h hd hnull rfl
    next heq => rw [heq]; exact sysSend_null h hd hnull rfl
    next => exact hnull.elim
  cases hr : handle a k with
  | ok code k' => exact (hsat.of_ok hr).elim
  | stop stop k' => exact ⟨k', by rw [show stop = _ from hsat.of_stop hr]⟩

/-- In every reachable state the kernel panics, in a syscall from its beginning or in what
is left of one after a context switch, exactly if it copies from a null pointer that has
passed its checks, in a debug build. -/
theorem syscalls_do_not_panic (hok : b.Ok) (hk : Reachable b k) {a : Action}
    (hen : a.enabled k) :
    (∀ panic k', a.program k ≠ .stop (.panicked panic) k') ↔ ¬ a.NullCopy k := by
  obtain ⟨B, L, h⟩ := hk.inv hok
  constructor
  · intro hno hnull
    cases a with
    | syscall args =>
      obtain ⟨k', hr⟩ := handle_null h hnull
      refine hno .nullPointer k' ?_
      simp only [Action.program, Bind.bind, Prog.bind, hr]
    | fault _ => exact hnull
    | store _ _ => exact hnull
    | resume => exact hnull
  · intro hnull panic k' hr
    have hend := (program_sat h hen).of_stop hr
    exact hnull hend.2.1

section NullWrite

/-- A frame is allocated and mapped at address 0. -/
def nullRun : List Action :=
  [.resume, .syscall ⟨6, 0x7FFF_FFFF_E000, 0, 0, 0, 0⟩, .syscall ⟨9, 0, 2, 0, 0, 0x7FFF_FFFF_E000⟩]

/-- `write(1, 0, 1, 0)`. -/
def nullWrite : SyscallArgs := ⟨3, 1, 0, 1, 0, 0⟩

theorem nullRun_panics : (((smallBoot []).started.bind (run nullRun)).any fun r =>
    decide (r.1.pending = none) && match handle nullWrite r.1 with
      | .stop (.panicked .nullPointer) _ => true
      | _ => false) = true := by
  decide +kernel

theorem nullWrite_panics : ∃ k k', Reachable (smallBoot []) k ∧ k.pending = none ∧
    handle nullWrite k = .stop (.panicked .nullPointer) k' := by
  obtain ⟨k₀, k, trace, hk₀, hr, hp⟩ := run_of_any nullRun_panics
  rw [Bool.and_eq_true, decide_eq_true_eq] at hp
  refine ⟨k, ?_⟩
  split at hp
  next k' heq => exact ⟨k', ⟨k₀, nullRun, trace, hk₀, hr⟩, hp.1, heq⟩
  next => cases hp.2

/-- A task makes the kernel panic. -/
theorem write_panics : ¬ ∀ k a, Reachable (smallBoot []) k → k.pending = none →
    ∀ panic k', handle a k ≠ .stop (.panicked panic) k' := by
  obtain ⟨k, k', hk, hp, hr⟩ := nullWrite_panics
  intro hno
  exact hno k nullWrite hk hp _ k' hr

theorem syscalls_do_not_panic_small : ∃ k, Reachable (smallBoot []) k ∧
    (Action.syscall nullWrite).enabled k ∧
    ((∀ panic k', (Action.syscall nullWrite).program k ≠ .stop (.panicked panic) k') ↔
      ¬ (Action.syscall nullWrite).NullCopy k) := by
  obtain ⟨k, _, hk, hp, _⟩ := nullWrite_panics
  have hen : (Action.syscall nullWrite).enabled k := by simp [Action.enabled, hp]
  exact ⟨k, hk, hen, syscalls_do_not_panic (smallBoot_ok []) hk hen⟩

end NullWrite

end Dusk
