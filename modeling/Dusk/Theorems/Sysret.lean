import Dusk.Proofs.Views
import Dusk.Theorems.Threads

/-! The address that a system call returns to. The code of a task lies in the user half, so
that only the very last instruction of it has no canonical address after it. -/

namespace Dusk

open Lib Lib.X64 Asm

variable {b : BootInfo} {k : Kernel} {P : Places} {s : System} {i : Slot} {top : ℕ} {u : User}

/-- User mode may execute the byte at `a`. -/
def Kernel.Executable (k : Kernel) (a : ℕ) : Prop :=
  ((k.currentSpace.bind fun space => space.mapping k.machine.mem a).any fun permissions =>
    permissions.userAccessible && permissions.executable) = true

instance (k : Kernel) (a : ℕ) : Decidable (k.Executable a) := inferInstanceAs (Decidable (_ = _))

/-- The address in `rcx` when a system call reaches `sysretq`. -/
def sysretAddress (c : Cpu) : Option ℕ :=
  (c.ret.bind (X64.run syscallExit)).map fun d => d.reg .rcx

/-- Code is below the end of the user half. -/
theorem Reachable.executable_lt (hk : Reachable b k) (hok : b.Ok) {a : ℕ} (ha : k.Executable a) :
    a < USER_SPACE_END := by
  obtain ⟨B, L, h⟩ := hk.inv hok
  obtain ⟨cur, task, hrun⟩ := h.tasks.current
  obtain ⟨space, hspace, hs, hroot⟩ := hrun.currentSpace
  have hlive := h.res.live (.inr ⟨_, hs⟩)
  have hany : ((k.machine.table k.machine.cr3).mapping k.machine.mem a).any
      (fun p => p.userAccessible && (!false || p.writable)) = true := by
    rw [Kernel.Executable, hspace, Option.bind_some, AddressSpace.mapping, hlive.root,
      hroot] at ha
    obtain ⟨p, hp, hboth⟩ := (Option.any_eq_true _ _).mp ha
    rw [Bool.and_eq_true] at hboth
    rw [hp, Option.any_some, hboth.1]
    rfl
  exact (h.res.user_page a false (h.res.spaces.root hrun.root).2 hany).1

section Last

/-- The first instructions of the first task, and the last bytes of the user half. -/
def codeBytes : List ℕ := [0x400000, 0x400001, 0x7FFF_FFFF_FFFE, 0x7FFF_FFFF_FFFF]

/-- A frame is allocated and mapped at the last page of the user half, executable. -/
def lastRun : List Action :=
  [.resume, .syscall ⟨6, 0x7FFF_FFFF_E000, 0, 0, 0, 0⟩,
    .syscall ⟨9, 0, 2, 0x7FFF_FFFF_F000, 2, 0x7FFF_FFFF_E000⟩]

theorem lastRun_executable : (((smallBoot []).started.bind (run lastRun)).any fun r =>
    decide (r.1.machine.paging.mode = .fourLevel ∧
      ∀ a ∈ codeBytes, r.1.Executable a)) = true := by
  decide +kernel

/-- A task makes a system call just before the address `rip`. -/
theorem small_calls (rip : ℕ) (h : rip ≤ USER_SPACE_END) : ∃ s u, Reached smallPlaces s ∧
    s.Runs slot₀ (smallTop 0) (.serving u) ∧ u.rip = rip ∧
    s.cpu.reg .rsp = smallTop 0 - 136 := by
  obtain ⟨s, hs, hr, _⟩ := small_user
  have hmove : UserMove smallPlaces s { s.cpu with ctl := { s.cpu.ctl with rip } } :=
    ⟨fun _ _ => rfl, rip, _, _, h, rfl⟩
  obtain ⟨s', hs', hr', hrsp, _⟩ := (hs.step (.user hr hmove)).calls smallPlaces_ok hr
  exact ⟨s', _, hs', hr', rfl, hrsp⟩

theorem lastRun_reachable : ∃ k, Reachable (smallBoot []) k ∧
    k.machine.paging.mode = .fourLevel ∧
    ∀ a ∈ codeBytes, k.Executable a := by
  obtain ⟨k₀, k, trace, hk₀, hr, htest⟩ := run_of_any lastRun_executable
  exact ⟨k, ⟨k₀, lastRun, trace, hk₀, hr⟩, of_decide_eq_true htest⟩

end Last

end Dusk
