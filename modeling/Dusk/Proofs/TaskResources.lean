import Dusk.Proofs.Resources

/-! What tasks hold when they come and go: a kernel stack is made, given to a new task
or left over, and taken down with the task it belongs to. -/

namespace Dusk

open Lib Radix

variable {B : BootPages} {L L' : Layout} {k k' : Kernel} {slot : ℕ} {space : AddressSpace}
  {frames : ℕ → ℕ}

/-- The other parts of the kernel while a kernel stack changes. -/
structure SameTasks (k k' : Kernel) : Prop where
  kernelSpace : k'.kernelSpace = k.kernelSpace
  spaces : k'.spaces = k.spaces
  stackOf : ∀ t, k'.stackOf t = k.stackOf t
  handleAt : ∀ t h, k'.handleAt t h = k.handleAt t h

theorem SpacesInv.slotEdit (h : SpacesInv B L k) {m : Machine} (hm : SameTables k.machine m)
    (he : Edit (SlotRole L.kroot slot) L.kroot L m L' k'.machine)
    (hkernel : k'.kernelSpace = k.kernelSpace) (hspaces : k'.spaces = k.spaces) :
    SpacesInv B L' k' := by
  refine h.congr he.kroot (fun r => (he.regs.table r).trans (hm.table r)) ?_ hkernel hspaces
  intro r hr
  rw [he.role_eq (by rw [hr]; exact not_runRole_root), hr]

/-- The user halves do not see a kernel stack being made. -/
theorem SlotMade.user {m m' : Machine} (hslot : slot < 64)
    (hp : SlotMade False space L m slot frames L' m') (r : ℕ) (q : List ℕ) (e : Word) (i : ℕ)
    (hq : q.getLast? = some i) (hi : i < 256) : LeafAt L' m' r q e ↔ LeafAt L m r q e := by
  refine hp.outside r q e ?_
  rintro ⟨_, j, hj, he⟩
  rw [pageAt, page_eq] at he
  exact not_stack_path hslot hj hq hi he

/-- A kernel stack has been made; no task has it yet. -/
theorem StacksInv.made (h : StacksInv B L k) (hunused : k.sched.stackPool.used slot = false)
    (hp : SlotMade False space L k.machine slot frames L' k'.machine)
    (hready : StackReady L' k'.machine slot)
    (hpool : ∀ s, k'.sched.stackPool.used s = true ↔ k.sched.stackPool.used s = true ∨ s = slot)
    (hstacks : ∀ t, k'.stackOf t = k.stackOf t) : StacksInv B L' k' := by
  have hpaging := hp.added.edit.regs.paging
  have hslot := hready.bound
  have hother : ∀ {slot' i : ℕ}, slot' < 64 → i ≤ KERNEL_STACK_PAGES → slot' ≠ slot → ∀ e,
      (LeafAt L' k'.machine L.kroot
        (pagePath k.machine.paging.mode (slotBase slot' + i * FRAME_SIZE)) e ↔
      LeafAt L k.machine L.kroot
        (pagePath k.machine.paging.mode (slotBase slot' + i * FRAME_SIZE)) e) :=
    SlotMade.other hslot hp
  have hguard : ∀ e, ¬ LeafAt L' k'.machine L'.kroot
      (pagePath k'.machine.paging.mode (slotBase slot + 0 * FRAME_SIZE)) e := by
    intro e
    rw [Nat.zero_mul, Nat.add_zero]
    exact hready.guard e
  refine ⟨?_, ?_, ?_, ?_, ?_⟩
  · intro t s ht
    rw [hstacks] at ht
    obtain ⟨slot', he, hr, hused⟩ := h.ready t s ht
    have hne : slot' ≠ slot := by
      rintro rfl
      rw [hunused] at hused
      cases hused
    refine ⟨slot', he, hr.slotEdit hne hp.added.edit rfl ?_, (hpool slot').mpr (.inl hused)⟩
    intro i e hi
    exact hother hr.bound hi hne e
  · intro t t' s
    rw [hstacks, hstacks]
    exact h.inj t t' s
  · intro slot' i e hslot' hi hl
    by_cases hne : slot' = slot
    · subst hne
      cases i with
      | zero => exact absurd hl (hguard e)
      | succ i =>
        obtain ⟨e', hl', hrole⟩ := hready.pages i hi
        rw [page_eq] at hl' hrole
        have hee : e = e' := Leaf.unique hp.added.inv.tree hl hl'
        rw [hee, hrole]
    · rw [hp.added.edit.kroot, hpaging, hother hslot' hi hne] at hl
      have hrole := h.leaves slot' i e hslot' hi hl
      rw [hpaging, hp.added.edit.role_eq (by rw [hrole]; exact not_slotRole hi hne), hrole]
  · intro slot' i e hslot' hi hu
    have hne : slot' ≠ slot := by
      rintro rfl
      rw [(hpool slot').mpr (.inr rfl)] at hu
      cases hu
    have hu' : k.sched.stackPool.used slot' = false := by
      cases hc : k.sched.stackPool.used slot' with
      | false => rfl
      | true => rw [(hpool slot').mpr (.inl hc)] at hu; cases hu
    rw [hp.added.edit.kroot, hpaging, hother hslot' hi hne]
    exact h.unused slot' i e hslot' hi hu'
  · refine h.anchor.congr hp.added.edit.kroot hpaging ?_
    intro e hl
    refine (hp.outside _ _ e ?_).mpr hl
    rintro ⟨_, j, hj, he⟩
    rw [pageAt, page_eq] at he
    obtain ⟨_, hhi, hal⟩ := slot_bounds (i := j + 1) hslot hj
    have htop := h.anchor.top
    have := pagePath_inj (top_canonical _ (by omega) htop.2)
      (slot_canonical _ (i := j + 1) hslot hj) h.anchor.aligned hal he
    omega

namespace ResInv

theorem stackMade (h : ResInv B L k) (hunused : k.sched.stackPool.used slot = false)
    (hp : SlotMade False space L k.machine slot frames L' k'.machine)
    (hready : StackReady L' k'.machine slot)
    (hpool : ∀ s, k'.sched.stackPool.used s = true ↔ k.sched.stackPool.used s = true ∨ s = slot)
    (hs : SameTasks k k') : ResInv B L' k' :=
  ⟨hp.added.inv, h.spaces.slotEdit ⟨rfl, rfl⟩ hp.added.edit hs.kernelSpace hs.spaces,
    h.pages.slotEdit rfl hp.added.edit (SlotMade.user hready.bound hp) hs.spaces hs.handleAt,
    h.kstacks.made hunused hp hready hpool hs.stackOf⟩

/-- A kernel stack could not be made; its slot may stay marked. -/
theorem stackRestored (h : ResInv B L k) (hunused : k.sched.stackPool.used slot = false)
    (hr : Restored False (SlotRole L.kroot slot) L k.machine L.kroot L' k'.machine)
    (hpool : ∀ s, k.sched.stackPool.used s = true → k'.sched.stackPool.used s = true)
    (hs : SameTasks k k') : ResInv B L' k' := by
  have hpaging := hr.edit.regs.paging
  refine ⟨hr.inv, h.spaces.slotEdit ⟨rfl, rfl⟩ hr.edit hs.kernelSpace hs.spaces,
    h.pages.slotEdit rfl hr.edit (fun r q e _ _ _ => hr.leaf r q e) hs.spaces hs.handleAt,
    ?_, ?_, ?_, ?_, ?_⟩
  · intro t s ht
    rw [hs.stackOf] at ht
    obtain ⟨slot', he, hready, hused⟩ := h.kstacks.ready t s ht
    have hne : slot' ≠ slot := by
      rintro rfl
      rw [hunused] at hused
      cases hused
    exact ⟨slot', he, hready.slotEdit hne hr.edit rfl (fun i e _ => hr.leaf _ _ e),
      hpool slot' hused⟩
  · intro t t' s
    rw [hs.stackOf, hs.stackOf]
    exact h.kstacks.inj t t' s
  · intro slot' i e hslot' hi hl
    rw [hr.edit.kroot, hpaging, hr.leaf] at hl
    have hrole := h.kstacks.leaves slot' i e hslot' hi hl
    have hne : slot' ≠ slot := by
      rintro rfl
      exact h.kstacks.unused slot' i e hslot' hi hunused hl
    rw [hpaging, hr.edit.role_eq (by rw [hrole]; exact not_slotRole hi hne), hrole]
  · intro slot' i e hslot' hi hu
    have hu' : k.sched.stackPool.used slot' = false := by
      cases hc : k.sched.stackPool.used slot' with
      | false => rfl
      | true => rw [hpool slot' hc] at hu; cases hu
    rw [hr.edit.kroot, hpaging, hr.leaf]
    exact h.kstacks.unused slot' i e hslot' hi hu'
  · exact h.kstacks.anchor.congr hr.edit.kroot hpaging (fun e => (hr.leaf _ _ e).mpr)

/-- A task without frames starts with a stack that is in place. -/
theorem addTask (h : ResInv B L k) {id : ℕ} (handles : ℕ → Option Handle)
    (hempty : k.sched.tasks.get id = none) (hready : StackReady L k.machine slot)
    (hused : k.sched.stackPool.used slot = true)
    (hfresh : ∀ t s, k.stackOf t = some s → s ≠ stackAt slot)
    (hm : k'.machine = k.machine) (hkernel : k'.kernelSpace = k.kernelSpace)
    (hspaces : k'.spaces = k.spaces) (hpool : k'.sched.stackPool = k.sched.stackPool)
    (hstacks : ∀ t, k'.stackOf t = if t = id then some (stackAt slot) else k.stackOf t)
    (hhandles : ∀ t h, k'.handleAt t h = if t = id then handles h else k.handleAt t h)
    (hobjects : ∀ h object rights, handles h = some ⟨object, rights⟩ →
      (∃ id' r, object = .addressSpace id' ∧ k.rootOf id' = some r) ∨ ∃ t, object = .thread t) :
    ResInv B L k' := by
  have hnone : ∀ i, k.handleAt id i = none := by
    intro i
    rw [Kernel.handleAt, hempty]
    rfl
  have hnostack : k.stackOf id = none := by
    rw [Kernel.stackOf, hempty]
    rfl
  have hroot : ∀ id', k'.rootOf id' = k.rootOf id' := fun id' => by
    rw [Kernel.rootOf, hspaces, Kernel.rootOf]
  have hleaf : ∀ r q e, LeafAt L k'.machine r q e ↔ LeafAt L k.machine r q e :=
    fun r q e => by rw [hm]
  refine ⟨by rw [hm]; exact h.mem, ?_, ?_, ?_⟩
  · exact h.spaces.congr rfl (fun r => by rw [hm]) (fun r hr => hr) hkernel hspaces
  · refine h.pages.update (by rw [hm]) (fun id' r hr => by rw [hroot, hr]) (fun f _ => rfl)
      (fun r q e _ _ _ => hleaf r q e) ?_ ?_ ?_
    · intro t i f rights hh
      rw [hhandles] at hh
      split_ifs at hh with ht
      · rcases hobjects i _ _ hh with ⟨_, _, ho, _⟩ | ⟨_, ho⟩ <;> cases ho
      · exact h.pages.frames t i f rights hh
    · intro t i f id' v rights
      rw [hhandles]
      split_ifs with ht
      · rw [ht, hnone]
        refine iff_of_false ?_ (by simp)
        intro hh
        rcases hobjects i _ _ hh with ⟨_, _, ho, _⟩ | ⟨_, ho⟩ <;> cases ho
      · exact Iff.rfl
    · intro t i id' rights hh
      rw [hhandles] at hh
      rw [hroot]
      split_ifs at hh with ht
      · rcases hobjects i _ _ hh with ⟨id'', r, ho, hr⟩ | ⟨_, ho⟩
        · cases ho
          exact ⟨r, hr⟩
        · cases ho
      · exact h.pages.names t i id' rights hh
  · refine ⟨?_, ?_, ?_, ?_, ?_⟩
    · intro t s ht
      rw [hstacks] at ht
      split_ifs at ht with hti
      · cases ht
        exact ⟨slot, rfl, by rw [hm]; exact hready, by rw [hpool, hused]⟩
      · obtain ⟨slot', he, hr, hu⟩ := h.kstacks.ready t s ht
        exact ⟨slot', he, by rw [hm]; exact hr, by rw [hpool, hu]⟩
    · intro t t' s ht ht'
      rw [hstacks] at ht ht'
      split_ifs at ht ht' with h₁ h₂ h₂
      · rw [h₁, h₂]
      · cases ht
        exact absurd rfl (hfresh t' _ ht')
      · cases ht'
        exact absurd rfl (hfresh t _ ht)
      · exact h.kstacks.inj t t' s ht ht'
    · rw [hm]
      exact h.kstacks.leaves
    · rw [hm, hpool]
      exact h.kstacks.unused
    · rw [hm]
      exact h.kstacks.anchor

/-- A task without frames goes, and its kernel stack with it. -/
theorem removeTask (h : ResInv B L k) (hb : List HandBack) {id : ℕ} (hstack : k.stackOf id = some (stackAt slot))
    (hready : StackReady L k.machine slot)
    (hobjects : ∀ i f id' v rights, k.handleAt id i ≠ some ⟨.mapping f id' v, rights⟩)
    (hg : SlotGone False L (k.machine.withHandBacks hb) slot L' k'.machine)
    (hpool : ∀ s, s ≠ slot → k'.sched.stackPool.used s = k.sched.stackPool.used s)
    (hkernel : k'.kernelSpace = k.kernelSpace) (hspaces : k'.spaces = k.spaces)
    (hstacks : ∀ t, k'.stackOf t = if t = id then none else k.stackOf t)
    (hhandles : ∀ t h, k'.handleAt t h = if t = id then none else k.handleAt t h) :
    ResInv B L' k' := by
  have hpaging : k'.machine.paging = k.machine.paging := hg.edit.regs.paging
  have hslot := hready.bound
  have hroot : ∀ id', k'.rootOf id' = k.rootOf id' := fun id' => by
    rw [Kernel.rootOf, hspaces, Kernel.rootOf]
  have hleaf : ∀ r q e, LeafAt L' k'.machine r q e ↔ LeafAt L k.machine r q e ∧
      ¬ (r = L.kroot ∧ ∃ i < KERNEL_STACK_PAGES,
        q = pagePath k.machine.paging.mode (slotBase slot + FRAME_SIZE + i * FRAME_SIZE)) :=
    hg.leaf
  have hother : ∀ {slot' i : ℕ}, slot' < 64 → i ≤ KERNEL_STACK_PAGES → slot' ≠ slot → ∀ e,
      (LeafAt L' k'.machine L.kroot
        (pagePath k.machine.paging.mode (slotBase slot' + i * FRAME_SIZE)) e ↔
      LeafAt L k.machine L.kroot
        (pagePath k.machine.paging.mode (slotBase slot' + i * FRAME_SIZE)) e) :=
    SlotGone.other (m := k.machine.withHandBacks hb) hslot hg
  have hgone : ∀ i e, i ≤ KERNEL_STACK_PAGES → ¬ LeafAt L' k'.machine L.kroot
      (pagePath k.machine.paging.mode (slotBase slot + i * FRAME_SIZE)) e := by
    intro i e hi hl
    rw [hleaf] at hl
    cases i with
    | zero =>
      rw [Nat.zero_mul, Nat.add_zero] at hl
      exact hready.guard e hl.1
    | succ i => exact hl.2 ⟨rfl, i, hi, by rw [page_eq]⟩
  refine ⟨hg.inv, h.spaces.slotEdit (m := k.machine.withHandBacks hb) ⟨rfl, rfl⟩ hg.edit hkernel
    hspaces, ?_, ?_⟩
  · refine h.pages.update hpaging (fun id' r hr => by rw [hroot, hr])
      (fun f hf => hg.edit.role_eq (not_slotRole_held hf)) ?_ ?_ ?_ ?_
    · intro r q e i hq hi
      rw [hleaf]
      refine ⟨fun h => h.1, fun h => ⟨h, ?_⟩⟩
      rintro ⟨_, j, hj, he⟩
      rw [page_eq] at he
      exact not_stack_path hslot hj hq hi he
    · intro t i f rights hh
      rw [hhandles] at hh
      split_ifs at hh with ht
      have hrole := h.pages.frames t i f rights hh
      rw [hg.edit.role_eq (not_slotRole_held (by rw [hrole]; exact .inl ⟨t, i, rfl⟩)), hrole]
    · intro t i f id' v rights
      rw [hhandles]
      split_ifs with ht
      · rw [ht]
        exact iff_of_false (by simp) (hobjects i f id' v rights)
      · exact Iff.rfl
    · intro t i id' rights hh
      rw [hhandles] at hh
      split_ifs at hh with ht
      rw [hroot]
      exact h.pages.names t i id' rights hh
  · refine ⟨?_, ?_, ?_, ?_, ?_⟩
    · intro t s ht
      rw [hstacks] at ht
      split_ifs at ht with hti
      obtain ⟨slot', he, hr, hused⟩ := h.kstacks.ready t s ht
      have hne : slot' ≠ slot := by
        rintro rfl
        rw [he] at ht
        exact hti (h.kstacks.inj t id _ ht hstack)
      exact ⟨slot', he, hr.slotEdit hne hg.edit rfl
        (fun i e hi => hother hr.bound hi hne e), by rw [hpool slot' hne, hused]⟩
    · intro t t' s ht ht'
      rw [hstacks] at ht ht'
      split_ifs at ht ht' with h₁ h₂
      exact h.kstacks.inj t t' s ht ht'
    · intro slot' i e hslot' hi hl
      rw [hg.edit.kroot, hpaging] at hl
      by_cases hne : slot' = slot
      · subst hne
        exact absurd hl (hgone i e hi)
      · rw [hother hslot' hi hne] at hl
        have hrole := h.kstacks.leaves slot' i e hslot' hi hl
        rw [hpaging, hg.edit.role_eq (by rw [hrole]; exact not_slotRole hi hne), hrole]
    · intro slot' i e hslot' hi hu
      rw [hg.edit.kroot, hpaging]
      by_cases hne : slot' = slot
      · subst hne
        exact hgone i e hi
      · rw [hpool slot' hne] at hu
        rw [hother hslot' hi hne]
        exact h.kstacks.unused slot' i e hslot' hi hu
    · refine h.kstacks.anchor.congr hg.edit.kroot hpaging ?_
      intro e hl
      rw [hleaf]
      refine ⟨hl, ?_⟩
      rintro ⟨_, j, hj, he⟩
      rw [page_eq] at he
      obtain ⟨_, hhi, hal⟩ := slot_bounds (i := j + 1) hslot hj
      have htop := h.kstacks.anchor.top
      have := pagePath_inj (top_canonical _ (by omega) htop.2)
        (slot_canonical _ (i := j + 1) hslot hj) h.kstacks.anchor.aligned hal he
      omega

end ResInv

end Dusk
