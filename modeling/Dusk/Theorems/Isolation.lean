import Dusk.Proofs.Views

/-! Isolation: the kernel half of every address space is the kernel's, the active
address space is the current task's, and the kernel touches user memory only where the
task itself may. -/

namespace Dusk

open Lib Radix

variable {b : BootInfo} {B : BootPages} {L : Layout} {k k' : Kernel}

section KernelHalf

/-- Above the user half all address spaces agree, and user mode has no access. -/
def SharedHalf (k : Kernel) : Prop :=
  ∀ id s kernelAs v, k.spaces.get id = some s → k.kernelSpace = some kernelAs →
    kernelAs.root.isCanonical v = true → 2 ^ 63 ≤ v →
    s.toPhysical k.machine.mem v = kernelAs.toPhysical k.machine.mem v ∧
    s.mapping k.machine.mem v = kernelAs.mapping k.machine.mem v ∧
    ∀ p, s.mapping k.machine.mem v = some p → p.userAccessible = false

/-- The tables below the root entries from 256 on keep their frames and their content. -/
def HalfKept (k k' : Kernel) : Prop :=
  ∀ s i path f, k.Live s → 256 ≤ i → s.root.Node k.machine.mem (i :: path) f →
    k'.machine.frameState f = some .allocated ∧ k'.machine.mem.word f = k.machine.mem.word f

theorem ResInv.shared_half (h : ResInv B L k) : SharedHalf k := by
  intro id s kernelAs v hs hk hc hv
  rw [h.spaces.kernel] at hk
  cases hk
  obtain ⟨hne, hspace⟩ := h.spaces.live id s hs
  have hupper := h.upper hspace.typed (rootIndex_upper hc hv)
  simp only [AddressSpace.toPhysical, AddressSpace.mapping]
  rw [hspace.root]
  refine ⟨hupper.1, hupper.2, ?_⟩
  intro p hp
  rw [hupper.2] at hp
  exact h.kernel_mapping hp

theorem Calm.half_kept {L' : Layout} (h : ResInv B L k) (h' : ResInv B L' k')
    (hc : Calm L k L' k') : HalfKept k k' := by
  intro s i path f hs hi hn
  have hrole : L.role f = .table L.kroot (i :: path).reverse := by
    by_cases ho : s.Own (i :: path)
    · rcases ho with hkind | hlow
      · rw [← (h.live_kernel hs).mp hkind]
        exact h.node_own hs (.inl hkind) hn
      · exact absurd (hlow i rfl) (by omega)
    · exact h.node_own h.kernel_live (.inl rfl) (h.node_shared hs ho hn)
  obtain ⟨hrole', hwords⟩ := hc.tables f _ hrole
  have hlt := h'.mem.alloc.lt_of_allocated (f := f) (by rw [hrole']; nofun)
  refine ⟨?_, hwords⟩
  rw [h'.frameState hlt, hrole']
  rfl

/-- The kernel half in every reachable state, and over every move that does not create
a task: only the kernel stack of a new task changes the kernel's own tables. -/
theorem kernel_half (hok : b.Ok) (hk : Reachable b k) :
    SharedHalf k ∧ ∀ a k' done, step a k = some (k', done) → ¬ a.Creates → HalfKept k k' := by
  obtain ⟨B, L, h⟩ := hk.inv hok
  refine ⟨h.res.shared_half, ?_⟩
  intro a k' done hs ha
  obtain ⟨⟨L', h', hcalm, _⟩, _⟩ := step_spec h hs
  exact (hcalm ha).half_kept h.res h'.res

theorem kernel_half_small : ∃ k, Reachable (smallBoot [0x700000]) k ∧ Toured k ∧ SharedHalf k ∧
    ∀ a k' done, step a k = some (k', done) → ¬ a.Creates → HalfKept k k' := by
  obtain ⟨k, hk, htoured⟩ := tour_reachable
  exact ⟨k, hk, htoured, kernel_half (smallBoot_ok [0x700000]) hk⟩

end KernelHalf

section Active

/-- The kernel code of a move ends in `k'`, with a return, a switch, a halt or a panic. -/
def Action.Leads (a : Action) (k k' : Kernel) : Prop :=
  (∃ r, a.program k = .ok r k') ∨ ∃ stop, a.program k = .stop stop k'

theorem KInv.leads (h : KInv B L k) {a : Action} (hen : a.enabled k) (hl : a.Leads k k') :
    ∃ L', KInv B L' k' := by
  have hsat := program_sat h hen
  rcases hl with ⟨r, hr⟩ | ⟨stop, hs⟩
  · obtain ⟨⟨L', h', _⟩, _⟩ := hsat.of_ok hr
    exact ⟨L', h'⟩
  · have hend := hsat.of_stop hs
    cases stop with
    | status s => exact hend.elim
    | switched => obtain ⟨L', h', _⟩ := hend; exact ⟨L', h'⟩
    | halted halt => obtain ⟨⟨L', h', _⟩, _⟩ := hend; exact ⟨L', h'⟩
    | panicked p => obtain ⟨_, _, L', h', _⟩ := hend; exact ⟨L', h'⟩

theorem step_leads {a : Action} {done : Option Completion} (hs : step a k = some (k', done)) :
    a.enabled k ∧ a.Leads k k' := by
  rw [step] at hs
  split_ifs at hs with hen
  refine ⟨hen, ?_⟩
  split at hs
  next hr => cases hs; exact .inl ⟨_, hr⟩
  next hr => cases hs; exact .inl ⟨_, hr⟩
  next hr => cases hs; exact .inr ⟨_, hr⟩
  next => cases hs

/-- The address space and the kernel stack of the current task are installed. -/
def ActiveSpace (k : Kernel) : Prop :=
  ∃ cur task space, k.sched.current = some cur ∧ k.sched.tasks.get cur = some task ∧
    k.spaces.get task.asId = some space ∧ k.machine.cr3 = space.root.frame ∧
    k.machine.activeTable = space.root ∧ k.machine.kernelStackTop = task.kernelStack.top

theorem KInv.activeSpace (h : KInv B L k) : ActiveSpace k := by
  obtain ⟨cur, task, hcur, htask, hroot, htop⟩ := h.tasks.cpu
  obtain ⟨space, hs, hframe⟩ := Kernel.rootOf_some.mp hroot
  refine ⟨cur, task, space, hcur, htask, hs, hframe.symm, ?_, htop⟩
  rw [(h.res.spaces.live _ _ hs).2.root, hframe]
  rfl

/-- While a task executes, its address space is active; so it is at every access of
the kernel to user memory. -/
theorem active_space (hok : b.Ok) (hk : Reachable b k) :
    ActiveSpace k ∧ ∀ (a : Action) k', a.enabled k → a.Leads k k' → ActiveSpace k' ∧
      ∀ x ∈ k'.accesses, x.space.map AddressSpace.root = some x.machine.activeTable := by
  obtain ⟨B, L, h⟩ := hk.inv hok
  refine ⟨h.activeSpace, ?_⟩
  intro a k' hen hl
  obtain ⟨L', h'⟩ := h.leads hen hl
  refine ⟨h'.activeSpace, ?_⟩
  intro x hx
  obtain ⟨space, hs, hroot, _⟩ := h'.logs.accesses x hx
  rw [hs, Option.map_some, hroot]
  rfl

theorem active_space_small : ∃ k, Reachable (smallBoot [0x700000]) k ∧ Toured k ∧ ActiveSpace k ∧
    ∀ (a : Action) k', a.enabled k → a.Leads k k' → ActiveSpace k' ∧
      ∀ x ∈ k'.accesses, x.space.map AddressSpace.root = some x.machine.activeTable := by
  obtain ⟨k, hk, htoured⟩ := tour_reachable
  exact ⟨k, hk, htoured, active_space (smallBoot_ok [0x700000]) hk⟩

end Active

section Mediation

/-- Every byte of the access lies in a page of the current task that user mode may
access in the same way. -/
def UserAccess.Mediated (x : UserAccess) : Prop :=
  ∀ i < x.length, x.address + i < USER_SPACE_END ∧ ∃ space p, x.space = some space ∧
    space.mapping x.machine.mem (x.address + i) = some p ∧ p.userAccessible = true ∧
    (x.write = true → p.writable = true)

theorem UserAccess.Ok.mediated {x : UserAccess} (h : x.Ok) : x.Mediated := by
  obtain ⟨space, hs, _, hbytes⟩ := h
  intro i hi
  obtain ⟨hlt, hany⟩ := hbytes i hi
  refine ⟨hlt, ?_⟩
  cases hp : space.mapping x.machine.mem (x.address + i) with
  | none => rw [hp] at hany; cases hany
  | some p =>
    rw [hp, Option.any_some, Bool.and_eq_true] at hany
    refine ⟨space, p, hs, hp, hany.1, ?_⟩
    intro hw
    simpa [hw] using hany.2

/-- Every access to user memory, of every syscall and however it ends, is one the
current task may make itself. -/
theorem user_accesses_mediated (hok : b.Ok) (hk : Reachable b k) {a : Action}
    (hen : a.enabled k) (hl : a.Leads k k') : ∀ x ∈ k'.accesses, x.Mediated := by
  obtain ⟨B, L, h⟩ := hk.inv hok
  obtain ⟨L', h'⟩ := h.leads hen hl
  intro x hx
  exact (h'.logs.accesses x hx).mediated

/-- A call that reads the memory of its task, and writes to it. -/
theorem user_accesses_mediated_small : ∃ k k', Reachable (smallBoot [0x700000]) k ∧
    (Action.syscall tourWrite).enabled k ∧ (Action.syscall tourWrite).Leads k k' ∧
    k'.accesses.map UserAccess.write = k.accesses.map UserAccess.write ++ [false, true] ∧
    ∀ x ∈ k'.accesses, x.Mediated := by
  obtain ⟨k, hk, htoured⟩ := tour_reachable
  obtain ⟨⟨k', done⟩, hstep, hwrote⟩ := (Option.any_eq_true _ _).mp htoured.copies
  obtain ⟨hen, hleads⟩ := step_leads hstep
  exact ⟨k, k', hk, hen, hleads, by simpa using hwrote,
    user_accesses_mediated (smallBoot_ok [0x700000]) hk hen hleads⟩

end Mediation

end Dusk
