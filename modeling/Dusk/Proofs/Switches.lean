import Dusk.Proofs.KernelInv

/-! Context switches keep the invariant of the kernel. -/

namespace Dusk

open Lib Radix Scheduler

variable {B : BootPages} {L : Layout} {k k' : Kernel} {cur next : ℕ} {state : ThreadState}
  {saved : ThreadContext}

/-- What becomes of a task in a switch. -/
theorem Switched.get (h : Switched k cur state saved next k') {i : ℕ} {task : Tcb}
    (hi : k'.sched.tasks.get i = some task) :
    ∃ t, k.sched.tasks.get i = some t ∧
      ((i = cur ∧ task = { t with state, context := saved }) ∨
       (i = next ∧ t.state = .ready ∧ task = { t with state := .running }) ∨
       (i ≠ cur ∧ i ≠ next ∧ task = t)) := by
  obtain ⟨t, n, ht, hn, hready, ht', hn', _, _⟩ := h.tasks
  by_cases hc : i = cur
  · subst hc
    rw [ht'] at hi
    cases hi
    exact ⟨t, ht, .inl ⟨rfl, rfl⟩⟩
  · by_cases hx : i = next
    · subst hx
      rw [hn'] at hi
      cases hi
      exact ⟨n, hn, .inr (.inl ⟨rfl, hready, rfl⟩)⟩
    · rw [h.others i hc hx] at hi
      exact ⟨task, hi, .inr (.inr ⟨hc, hx, rfl⟩)⟩

/-- A switch moves no task away and changes nothing of it but its state and context. -/
theorem Switched.map_eq {α : Type} (h : Switched k cur state saved next k') (f : Tcb → α)
    (hf : ∀ (t : Tcb) (s : ThreadState) (c : ThreadContext),
      f { t with state := s, context := c } = f t) (i : ℕ) :
    (k'.sched.tasks.get i).map f = (k.sched.tasks.get i).map f := by
  obtain ⟨t, n, ht, hn, _, ht', hn', _, _⟩ := h.tasks
  by_cases hc : i = cur
  · rw [hc, ht', ht]
    exact congrArg some (hf t state saved)
  · by_cases hx : i = next
    · rw [hx, hn', hn]
      exact congrArg some (hf n .running n.context)
    · rw [h.others i hc hx]

theorem Switched.handleAt (h : Switched k cur state saved next k') (t i : ℕ) :
    k'.handleAt t i = k.handleAt t i := by
  have := h.map_eq (fun task => task.handles) (fun _ _ _ => rfl) t
  simp only [Kernel.handleAt]
  cases hk : k'.sched.tasks.get t <;> cases hk' : k.sched.tasks.get t <;>
    simp_all

theorem Switched.stackOf (h : Switched k cur state saved next k') (t : ℕ) :
    k'.stackOf t = k.stackOf t := h.map_eq _ (fun _ _ _ => rfl) t

theorem Switched.rootOf (h : Switched k cur state saved next k') (id : ℕ) :
    k'.rootOf id = k.rootOf id := by
  rw [Kernel.rootOf, h.frame.2.1, Kernel.rootOf]

/-- The machine with another kernel stack installed. -/
theorem MemInv.installStack {X : Exempt} {m : Machine} (h : MemInv X L m) (top : ℕ) :
    MemInv X L { m with kernelStackTop := top } :=
  h.registers rfl rfl rfl (fun hx => (h.halves hx).active) (fun hx => (h.halves hx).tlb)

/-- Entering a task of a live address space. -/
theorem installed_spec (h : ResInv B L k) {n : Tcb} {r : ℕ}
    (hr : k.rootOf n.asId = some r) (load : Bool) (hcr3 : load = false → k.machine.cr3 = r) :
    MemInv noPages L (k.installed load n) ∧ (k.installed load n).cr3 = r ∧
    (k.installed load n).kernelStackTop = n.kernelStack.top ∧
    (k.installed load n).mem = k.machine.mem ∧
    (k.installed load n).handBacks = k.machine.handBacks ∧
    SameTables k.machine (k.installed load n) := by
  obtain ⟨s, hs, rfl⟩ := Kernel.rootOf_some.mp hr
  cases load with
  | false =>
    have hi : k.installed false n = { k.machine with kernelStackTop := n.kernelStack.top } := rfl
    rw [hi]
    exact ⟨h.mem.installStack _, hcr3 rfl, rfl, rfl, rfl, rfl, rfl⟩
  | true =>
    have hi : k.installed true n = { (({ k.machine with
        cr3 := s.root.frame, tlb := k.machine.tlb.filter TlbEntry.isGlobal } : Machine).ticked) with
          kernelStackTop := n.kernelStack.top } := by
      simp only [Kernel.installed, hs]
      rfl
    rw [hi]
    exact ⟨(h.mem.activate (h.spaces.live _ _ hs).2.typed).installStack _, rfl, rfl, rfl, rfl,
      rfl, rfl⟩

theorem KInv.switched (h : KInv B L k) (hsw : Switched k cur state saved next k')
    (hsus : ∀ t, k.sched.tasks.get cur = some t →
      Tcb.Suspended { t with state, context := saved }) : KInv B L k' := by
  obtain ⟨t, n, ht, hn, hready, ht', hn', hpend, hmach⟩ := hsw.tasks
  obtain ⟨hks, hsp, hacc, _⟩ := hsw.frame
  obtain ⟨r, hr⟩ := h.tasks.homes next n hn
  have hcpu : decide (n.asId ≠ t.asId) = false → k.machine.cr3 = r := by
    intro hload
    obtain ⟨c, task, hc, htask, hroot, _⟩ := h.tasks.cpu
    rw [hsw.wasCurrent] at hc
    cases hc
    rw [ht] at htask
    cases htask
    have hsame : n.asId = t.asId := by simpa using hload
    rw [hsame, hroot] at hr
    exact Option.some.inj hr
  obtain ⟨hmem, hcr3, htop, hwords, hhb, htables⟩ := installed_spec h.res hr _ hcpu
  rw [← hmach] at hmem hcr3 htop hwords hhb htables
  refine ⟨?_, ⟨hsw.sched, ?_, ?_, ?_, ?_, ?_⟩,
    h.handles.same (hsw.map_eq Tcb.asId fun _ _ _ => rfl) hsw.handleAt, h.logs.congr hacc hhb⟩
  · exact h.res.quiet hmem htables hwords ⟨hks, hsp, hsw.stackOf, hsw.pool⟩ hsw.handleAt
  · exact ⟨next, _, hsw.current, hn', by rw [hsw.rootOf, hcr3]; exact hr, htop⟩
  · intro i task hi
    obtain ⟨t₀, h₀, hcase⟩ := hsw.get hi
    obtain ⟨r₀, hr₀⟩ := h.tasks.homes i t₀ h₀
    refine ⟨r₀, ?_⟩
    rw [hsw.rootOf]
    rcases hcase with ⟨_, rfl⟩ | ⟨_, _, rfl⟩ | ⟨_, _, rfl⟩ <;> exact hr₀
  · intro i task hi
    obtain ⟨t₀, h₀, hcase⟩ := hsw.get hi
    have hm := h.tasks.mail i t₀ h₀
    rcases hcase with ⟨_, rfl⟩ | ⟨_, _, rfl⟩ | ⟨_, _, rfl⟩ <;> exact hm
  · intro i task hi
    obtain ⟨t₀, h₀, hcase⟩ := hsw.get hi
    rcases hcase with ⟨rfl, rfl⟩ | ⟨_, _, rfl⟩ | ⟨_, _, rfl⟩
    · exact hsus t₀ h₀
    · trivial
    · exact h.tasks.suspended i _ h₀
  · intro c i task hp hc hi
    rw [hpend] at hp
    cases hp
    rw [hsw.current] at hc
    cases hc
    rw [hn'] at hi
    cases hi
    have := h.tasks.suspended next n hn
    rw [Tcb.Suspended, hready] at this
    exact this

end Dusk
