import Dusk.Proofs.Views

/-! Stale translations: when the frame of an unmapped page is handed back, the
processor has forgotten the page, unless a task is taken down again because its
creator has no room for the handle. -/

namespace Dusk

open Lib

variable {b : BootInfo} {k k₀ : Kernel}

/-- Only the rollback of a creation hands other pages back than those of users. -/
theorem step_handBacks {B : BootPages} {L : Layout} {k' : Kernel} {a : Action}
    {done : Option Completion} (h : KInv B L k) (hroom : ¬ a.Overfull k)
    (hs : step a k = some (k', done)) (hb : ∀ x ∈ k.machine.handBacks, x.page < USER_SPACE_END) :
    ∀ x ∈ k'.machine.handBacks, x.page < USER_SPACE_END := by
  obtain ⟨⟨_, _, _, _, _, hnew⟩, _⟩ := step_spec h hs
  intro x hx
  rcases hnew x hx with hold | huser | hover
  · exact hb x hold
  · exact huser
  · exact absurd hover hroom

/-- In every run without such a creation, nothing is left of a page that has been
handed back. -/
theorem no_stale_translation (as : List Action) (hok : b.Ok) (hk₀ : b.started = some k₀)
    {trace : List Completion} (hr : run as k₀ = some (k, trace))
    (hroom : Along (fun a k => ¬ a.Overfull k) as k₀) :
    ∀ x ∈ k.machine.handBacks, x.Clean := by
  obtain ⟨B, L, _, _, _, hbooted⟩ := kernelMain_booted hok hk₀
  have hnone : ∀ x ∈ k₀.machine.handBacks, x.page < USER_SPACE_END := by
    rw [hbooted.handBacks]
    nofun
  obtain ⟨L', h', hpages⟩ := run_along hbooted.inv step_handBacks hr hroom hnone
  intro x hx
  exact h'.logs.handBacks x hx (hpages x hx)

/-- A page is mapped and unmapped. -/
def unmapRun : List Action :=
  [.resume, .syscall ⟨6, 0x7FFF_FFFF_E000, 0, 0, 0, 0⟩,
    .syscall ⟨9, 0, 2, 0x700000, 1, 0x7FFF_FFFF_E000⟩, .syscall ⟨10, 2, 0, 0, 0, 0⟩]

theorem unmapRun_handsBack : (((smallBoot [0x700000]).started.bind (run unmapRun)).any fun r =>
    decide (r.1.machine.handBacks.map HandBack.page = [0x700000])) = true ∧
    (((smallBoot [0x700000]).started.bind (run (unmapRun.take 3))).any fun r =>
      r.1.machine.tlb.any fun t => t.page == 0x700000) = true := by
  decide +kernel

/-- The page is cached while it is mapped. -/
theorem no_stale_translation_small : ∃ k₀ k₁ k trace₁ trace,
    (smallBoot [0x700000]).started = some k₀ ∧
    run (unmapRun.take 3) k₀ = some (k₁, trace₁) ∧ (∃ t ∈ k₁.machine.tlb, t.page = 0x700000) ∧
    run unmapRun k₀ = some (k, trace) ∧ k.machine.handBacks.map HandBack.page = [0x700000] ∧
    ∀ x ∈ k.machine.handBacks, x.Clean := by
  obtain ⟨k₀, k, trace, hk₀, hr, hback⟩ := run_of_any unmapRun_handsBack.1
  obtain ⟨k₀', k₁, trace₁, hk₀', hr₁, hcached⟩ := run_of_any unmapRun_handsBack.2
  rw [hk₀] at hk₀'
  cases hk₀'
  obtain ⟨t, ht, hpage⟩ := List.any_eq_true.mp hcached
  have hnone : ∀ a ∈ unmapRun, ∀ k, ¬ a.Overfull k := by
    intro a ha k hover
    have hcreates : ∀ a ∈ unmapRun, ¬ a.Creates := by
      simp [unmapRun, Action.Creates, SyscallArgs.Creates, SyscallNumber.tryFrom]
    cases a with
    | syscall args => exact hcreates _ ha hover.1
    | fault _ => exact hover
    | store _ _ => exact hover
    | resume => exact hover
  exact ⟨k₀, k₁, k, trace₁, trace, hk₀, hr₁, ⟨t, ht, by simpa using hpage⟩, hr,
    of_decide_eq_true hback, no_stale_translation unmapRun (smallBoot_ok [0x700000]) hk₀ hr
      (along_of_forall hnone)⟩

section Stale

/-- The lowest page of the kernel stack of the second user task. -/
def secondStack : ℕ := KERNEL_STACK_BASE + 2 * KERNEL_SLOT_SIZE + FRAME_SIZE

/-- Fill the handle table with frames, then create a task. -/
def overfullRun : List Action :=
  .resume :: (List.replicate 30 (.syscall ⟨6, 0x7FFF_FFFF_E000, 0, 0, 0, 0⟩) ++
    [.syscall ⟨11, 0, 0x400000, 0x7FFF_FFFF_F000, 0x7FFF_FFFF_E000, 0⟩])

def HandBack.stale (x : HandBack) : Bool := x.tlb.any fun t => t.page == x.page && t.frame == x.frame

theorem HandBack.not_clean {x : HandBack} (h : x.stale = true) : ¬ x.Clean := by
  obtain ⟨t, ht, hsame⟩ := List.any_eq_true.mp h
  rw [Bool.and_eq_true, beq_iff_eq, beq_iff_eq] at hsame
  intro hclean
  exact hclean t ht hsame.1 hsame.2

theorem overfullRun_stale : (((smallBoot [secondStack]).started.bind (run overfullRun)).any
    fun r => r.1.machine.handBacks.any HandBack.stale) = true := by
  decide +kernel

/-- The page of a kernel stack is still cached when its frame is free again. -/
theorem stale_translation : ∃ k₀ k trace, (smallBoot [secondStack]).started = some k₀ ∧
    run overfullRun k₀ = some (k, trace) ∧ ∃ x ∈ k.machine.handBacks, ¬ x.Clean := by
  obtain ⟨k₀, k, trace, hk₀, hr, hany⟩ := run_of_any overfullRun_stale
  obtain ⟨x, hx, hstale⟩ := List.any_eq_true.mp hany
  exact ⟨k₀, k, trace, hk₀, hr, x, hx, HandBack.not_clean hstale⟩

end Stale

end Dusk
