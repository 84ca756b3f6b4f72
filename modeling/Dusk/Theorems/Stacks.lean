import Dusk.Proofs.Room

/-! Stacks in one address space: a stack is made as a whole or not at all, and goes
without a trace; the kernel's stacks keep to their places. -/

namespace Dusk

open Lib FrameAllocator

variable {m m' : Machine} {space : AddressSpace} {stackSize top : ℕ}
  {permissions : PagePermissions} {frames : ℕ → ℕ}

/-- A stack of whole pages has been mapped to fresh frames, and nothing else. -/
structure StackMapped (space : AddressSpace) (stackSize top : ℕ) (permissions : PagePermissions)
    (frames : ℕ → ℕ) (stack : StackMapping) (m m' : Machine) : Prop where
  fits : stackSize + PAGE_SIZE ≤ top
  shape : stack = ⟨top - stackSize - PAGE_SIZE, top - stackSize, stackSize, top⟩
  pages : ∀ i < stackSize / PAGE_SIZE, ∀ d < PAGE_SIZE,
    space.toPhysical m.mem (stack.mappedStart + i * PAGE_SIZE + d) = none ∧
    space.toPhysical m'.mem (stack.mappedStart + i * PAGE_SIZE + d) =
      some (startAddress (frames i) + d) ∧
    space.mapping m'.mem (stack.mappedStart + i * PAGE_SIZE + d) = some permissions
  /-- The frames are distinct, were free and are cleared. -/
  distinct : ∀ i j, i < stackSize / PAGE_SIZE → j < stackSize / PAGE_SIZE → frames i = frames j →
    i = j
  fresh : ∀ i < stackSize / PAGE_SIZE, frames i ∈ m.freeFrameSet ∧
    m'.frameState (frames i) = some .allocated
  zero : ∀ i < stackSize / PAGE_SIZE, ∀ x, x / FRAME_SIZE = frames i → m'.mem.byte x = 0
  guard : space.toPhysical m.mem stack.guardPage = none ∧
    ∀ d < PAGE_SIZE, stack.guardPage % PAGE_SIZE = 0 →
      space.toPhysical m'.mem (stack.guardPage + d) = none
  others : ∀ a, a < stack.mappedStart ∨
    stack.mappedStart + stackSize / PAGE_SIZE * PAGE_SIZE ≤ a → space.root.SameAt m.mem m'.mem a

section Allocate

variable {L L' : Layout} {own : ℕ → Owner} (h : Realm True L m space L.kroot 0)
  (hmade : StackMade True own space L m L.kroot (top - stackSize) (stackSize / FRAME_SIZE)
    (space.word m permissions .writeBack) (stackSize / FRAME_SIZE) frames L' m')

include h hmade

theorem StackMade.stackMapped (hown : Function.Injective own)
    (hzero : ∀ i < stackSize / FRAME_SIZE, ∀ j, m'.mem.word (frames i) j = 0)
    (hfits : stackSize + FRAME_SIZE ≤ top)
    (hguard : space.toPhysical m.mem (top - stackSize - FRAME_SIZE) = none)
    (hguard' : space.toPhysical m'.mem (top - stackSize - FRAME_SIZE) = none) :
    StackMapped space stackSize top permissions frames
      ⟨top - stackSize - FRAME_SIZE, top - stackSize, stackSize, top⟩ m m' := by
  have hadd := hmade.added
  refine ⟨hfits, rfl, ?_, ?_, ?_, ?_, ⟨hguard, ?_⟩, ?_⟩
  · intro i hi d hd
    exact ⟨hadd.unmapped_before h hi hd, hadd.reads h hi hd⟩
  · intro i j hi hj he
    exact hmade.frames_inj hown hi hj he
  · intro i hi
    rw [h.inv.alloc.mem_freeFrameSet, hadd.inv.alloc.frameState_allocated, hmade.owned i hi]
    exact ⟨hmade.free i hi, rfl⟩
  · intro i hi x hx
    rw [PhysMem.byte, hx, hzero i hi]
    simp [lane]
  · intro d hd hal
    have hrealm := hadd.realm h fun _ => not_runRole_root
    have hkroot : L.kroot = L'.kroot := hadd.edit.kroot.symm
    rw [hrealm.toPhysical_none fun _ => .inl hkroot] at hguard' ⊢
    rw [pagePath_add _ hal hd]
    intro hc
    refine hguard' ?_
    rw [isCanonical_iff] at hc ⊢
    cases hmode : m'.paging.mode <;>
      simp only [hmode, PagingMode.lowerEnd, PAGE_SIZE, FRAME_SIZE] at hc hd hal ⊢ <;> omega
  · intro a ha
    exact hadd.same_outside h ha

/-- A stack that has been used goes without a trace. -/
theorem StackMade.destroyed (hown : Function.Injective own)
    (hguard' : space.toPhysical m'.mem (top - stackSize - FRAME_SIZE) = none) {mem : PhysMem}
    (hmem : ∀ f, (∀ i < stackSize / FRAME_SIZE, f ≠ frames i) → mem.word f = m'.mem.word f) :
    (StackMapping.destroy ⟨top - stackSize - FRAME_SIZE, top - stackSize, stackSize, top⟩
      space).Sat (m'.withMem mem) (fun _ m'' => space.Unchanged m m'') Prog.never := by
  have hfree : RootFree L L.kroot [] := h.rootFree trivial []
  have hrun : Run True L m space L.kroot 0 (top - stackSize) (stackSize / FRAME_SIZE) :=
    ⟨h, fun _ _ => ⟨absurd trivial, .inl hfree⟩⟩
  have hused := hmade.written le_rfl hmem
  have hkroot : L.kroot = L'.kroot := hmade.added.edit.kroot.symm
  refine StackMapping.destroy_sat hown rfl (hused.run hrun) ?_ (fun i hi => hused.pages hi)
    (fun _ => .inl hkroot) ?_ ?_
  · rw [hused.added.edit.regs.paging]
    exact hused.added.takes
  · rw [(hused.run hrun).realm.toPhysical_none fun _ => .inl hkroot]
    rw [(hmade.run hrun).realm.toPhysical_none fun _ => .inl hkroot] at hguard'
    intro hc e hl
    rcases (hused.added.leaf _ _ _).mp hl with hnew | hold
    · exact hguard' hc e ((hmade.added.leaf _ _ _).mpr (.inl hnew))
    · exact hguard' hc e ((hmade.added.leaf _ _ _).mpr (.inr hold))
  · intro L'' m'' hb _ hgone
    have hrestored := (hused.withHandBacks hb).undo (h.inv.withHandBacks hb) hgone
    have hrealm : Realm True L (m.withHandBacks hb) space L.kroot 0 :=
      (hrun.withHandBacks hb).realm
    have hsame := hrestored.unchanged hrealm
    exact ⟨hsame.same, hsame.free⟩

end Allocate

/-- In an address space in order `StackMapping::allocate` returns. It maps the stack to
fresh frames, and `destroy` takes all of that back; or it fails, and nothing has changed. -/
theorem stack_allocate_atomic (ha : m.SoundAllocator) (hspace : space.root.Intact m)
    (stackSize : ℕ) (htop : top < USIZE_END) (permissions : PagePermissions) :
    ∃ res m', StackMapping.allocate space stackSize top permissions m = .ok res m' ∧
      (∀ stack, res = .ok stack → ∃ frames,
        StackMapped space stackSize top permissions frames stack m m' ∧
        ∀ mem : PhysMem,
          (∀ f, (∀ i < stackSize / PAGE_SIZE, f ≠ frames i) → mem.word f = m'.mem.word f) →
          ∃ m'', stack.destroy space (m'.withMem mem) = .ok () m'' ∧ space.Unchanged m m'') ∧
      ∀ err, res = .error err → space.Unchanged m m' := by
  obtain ⟨L, h⟩ := hspace.realm ha rfl
  have hfree : RootFree L L.kroot [] := h.rootFree trivial []
  generalize hprog : StackMapping.allocate space stackSize top permissions = prog
  have hsat : prog.Sat m (fun res m' =>
      (∀ stack, res = .ok stack → ∃ frames,
        StackMapped space stackSize top permissions frames stack m m' ∧
        ∀ mem : PhysMem,
          (∀ f, (∀ i < stackSize / PAGE_SIZE, f ≠ frames i) → mem.word f = m'.mem.word f) →
          ∃ m'', stack.destroy space (m'.withMem mem) = .ok () m'' ∧ space.Unchanged m m'') ∧
      ∀ err, res = .error err → space.Unchanged m m') Prog.never := by
    refine StackMapping.allocate_sat owner_stack_injective htop
      ⟨h, fun _ _ => ⟨absurd trivial, .inl hfree⟩⟩ (absurd trivial) (fun _ => .inl rfl) ?_ ?_ hprog
    · intro frames L' m' hmade hzero _ hfits hguard hguard'
      refine ⟨?_, fun err herr => by cases herr⟩
      intro stack hstack
      rw [Except.ok.injEq] at hstack
      subst hstack
      refine ⟨frames, hmade.stackMapped h owner_stack_injective hzero hfits hguard hguard', ?_⟩
      intro mem hmem
      obtain ⟨u, m'', hrun, hsame⟩ :=
        (hmade.destroyed h owner_stack_injective hguard' hmem).finishes
      exact ⟨m'', hrun, hsame⟩
    · intro err m' _ hr
      exact ⟨nofun, fun _ _ => hr.unchanged h⟩
  obtain ⟨res, m', hrun, hpost⟩ := hsat.finishes
  exact ⟨res, m', hrun, hpost⟩

/-- A stack of two pages beside a page that is mapped. -/
theorem stack_allocate_atomic_small : ∃ t pt stack frames m' m'',
    TableSession.Reached smallMap smallDirectMap (smallMachine .fourLevel) t ∧
    t.table = some pt ∧
    StackMapping.allocate ⟨pt, .user⟩ 0x2000 0x4000 ⟨true, false, true⟩ t.pool.machine =
      .ok (.ok stack) m' ∧
    StackMapped ⟨pt, .user⟩ 0x2000 0x4000 ⟨true, false, true⟩ frames stack t.pool.machine m' ∧
    stack.destroy ⟨pt, .user⟩ m' = .ok () m'' ∧
    AddressSpace.Unchanged ⟨pt, .user⟩ t.pool.machine m'' := by
  have hrun : (smallTable .fourLevel [.new, .map 0x4000 10 ⟨true, true, true⟩ .writeBack false]).any
      (fun t => t.table.any fun pt =>
        match StackMapping.allocate ⟨pt, .user⟩ 0x2000 0x4000 ⟨true, false, true⟩ t.pool.machine with
        | .ok (.ok _) _ => true
        | .ok (.error _) _ | .stop _ _ => false) = true := by decide +kernel
  obtain ⟨t, pt, ht, hpt, htest⟩ := smallTable_some hrun
  obtain ⟨ha, hintact⟩ := ht.intact smallMap_disjoint smallMap_direct hpt
  have hspace : (AddressSpace.mk pt .user).root.Intact t.pool.machine := hintact
  obtain ⟨res, m', hres, hok, _⟩ := stack_allocate_atomic ha hspace 0x2000
    (by decide : 0x4000 < USIZE_END) ⟨true, false, true⟩
  rw [hres] at htest
  cases res with
  | ok stack =>
    obtain ⟨frames, hmapped, hdestroy⟩ := hok stack rfl
    obtain ⟨m'', hgone, hsame⟩ := hdestroy m'.mem fun _ _ => rfl
    exact ⟨t, pt, stack, frames, m', m'', ht, hpt, hres, hmapped, hgone, hsame⟩
  | error err => cases htest

section Pool

variable {L : Layout} {s s' : StackSession} {slot : ℕ} {stack : KernelStack}

/-- The live stacks have their pages in slots of their own. -/
structure SlotsInv (space : AddressSpace) (L : Layout) (s : StackSession) : Prop where
  realm : Realm True L s.machine space L.kroot 0
  live : ∀ e ∈ s.live, e.2 = stackAt e.1 ∧ StackReady L s.machine e.1 ∧
    s.pool.used e.1 = true
  slots : (s.live.map Prod.fst).Nodup

theorem SlotsInv.run (h : SlotsInv space L s) (slot : ℕ) :
    Run True L s.machine space L.kroot 0 (slotBase slot + FRAME_SIZE) KERNEL_STACK_PAGES :=
  ⟨h.realm, fun _ _ => ⟨absurd trivial, .inl (h.realm.rootFree trivial [])⟩⟩

theorem SlotsInv.allocate_sat (h : SlotsInv space L s) :
    (s.pool.allocate space).Sat s.machine (fun res m' =>
      (∃ L', SlotsInv space L' (match res with
        | (pool, .ok stack) =>
          ⟨m', pool, (s.pool.findSlot 0 MAX_KERNEL_STACKS).toList.map (·, stack) ++ s.live⟩
        | (pool, .error _) => ⟨m', pool, s.live⟩)) ∧
      (res.2 = .error .outOfStacks ↔ ∀ i < 64, s.pool.used i = true)) Prog.never := by
  refine KernelStackPool.allocate_sat (fun slot _ => h.run slot) ?_ ?_ ?_
  · intro slot pool frames L' m' hfind hunused hslot hused hmade hready
    have hkroot := hmade.added.edit.kroot
    have hother : ∀ e ∈ s.live, e.1 ≠ slot := by
      rintro e he rfl
      rw [(h.live e he).2.2] at hunused
      cases hunused
    have hrealm := hmade.added.realm h.realm fun _ => not_runRole_root
    rw [← hkroot] at hrealm
    refine ⟨⟨L', hrealm, ?_, ?_⟩, iff_of_false (by simp) ?_⟩
    · simp only [hfind, Option.toList_some, List.map_cons, List.map_nil, List.singleton_append,
        List.mem_cons]
      rintro e (rfl | he)
      · exact ⟨rfl, hready, by rw [hused, decide_eq_true rfl, Bool.or_true]⟩
      · obtain ⟨hstack, hr, hu⟩ := h.live e he
        exact ⟨hstack, hr.slotEdit (hother e he) hmade.added.edit rfl
          fun i w hi => SlotMade.other hslot hmade hr.bound hi (hother e he) w,
          by rw [hused, hu, Bool.true_or]⟩
    · simp only [hfind, Option.toList_some, List.map_cons, List.map_nil, List.singleton_append,
        List.nodup_cons]
      refine ⟨?_, h.slots⟩
      intro hmem
      obtain ⟨e, he, rfl⟩ := List.mem_map.mp hmem
      exact hother e he rfl
    · intro hfull
      rw [hfull slot hslot] at hunused
      cases hunused
  · intro err slot pool m' hunused hslot hused hne hr
    refine ⟨⟨L, ?_, ?_, h.slots⟩, iff_of_false ?_ ?_⟩
    · exact h.realm.edit hr.inv hr.edit (fun _ => not_runRole_root)
        (.inr fun e => (hr.leaf _ _ e).mpr)
    · intro e he
      obtain ⟨hstack, hready, hu⟩ := h.live e he
      have hne' : e.1 ≠ slot := by
        rintro rfl
        rw [hu] at hunused
        cases hunused
      exact ⟨hstack, hready.slotEdit hne' hr.edit rfl fun _ w _ => hr.leaf _ _ w,
        by rw [hused, hu, Bool.true_or]⟩
    · simpa using hne
    · intro hfull
      rw [hfull slot hslot] at hunused
      cases hunused
  · intro hfull
    exact ⟨⟨L, h.realm, h.live, h.slots⟩, iff_of_true rfl hfull⟩

/-- A live stack goes, and its slot is the one that becomes free. -/
theorem SlotsInv.free_sat (h : SlotsInv space L s) (hkind : space.kind = .kernel)
    (hlive : (slot, stack) ∈ s.live) :
    (s.pool.free space stack).Sat s.machine (fun pool m' =>
      (∃ L', SlotsInv space L' ⟨m', pool, s.live.filter (·.2 ≠ stack)⟩) ∧
      ∀ i, pool.used i = (s.pool.used i && !decide (i = slot))) Prog.never := by
  obtain ⟨hstack, hready, _⟩ := h.live _ hlive
  generalize hprog : s.pool.free space stack = prog
  simp only at hstack hready
  rw [hstack] at hprog
  refine KernelStackPool.free_sat hkind (h.run slot) hready ?_ hprog
  intro pool L' m' hb hused _ hgone
  refine ⟨⟨L', ?_, ?_, ?_⟩, hused⟩
  · have hrealm := ((h.run slot).withHandBacks hb).gone hgone fun _ => not_runRole_root
    rw [← hgone.edit.kroot] at hrealm
    exact hrealm
  · intro e he
    obtain ⟨he, hne⟩ := List.mem_filter.mp he
    obtain ⟨hstack', hr, hu⟩ := h.live e he
    have hne' : e.1 ≠ slot := by
      rintro hes
      rw [hstack', hes, ← hstack] at hne
      simp at hne
    refine ⟨hstack', hr.slotEdit hne' hgone.edit rfl fun i w hi => ?_, ?_⟩
    · exact SlotGone.other (m := s.machine.withHandBacks hb) hready.bound hgone hr.bound hi hne' w
    · rw [hused, hu, decide_eq_false hne']
      rfl
  · exact h.slots.sublist (List.filter_sublist.map _)

theorem SlotsInv.step (h : SlotsInv space L s) (hkind : space.kind = .kernel) {op : StackOp}
    (hstep : s.step space op = some s') : ∃ L', SlotsInv space L' s' := by
  cases op with
  | allocate =>
    obtain ⟨⟨pool, res⟩, m', hrun, hinv, _⟩ := h.allocate_sat.finishes
    simp only [StackSession.step, hrun] at hstep
    cases res with
    | ok stack =>
      cases hstep
      exact hinv
    | error err =>
      cases hstep
      exact hinv
  | free stack =>
    simp only [StackSession.step] at hstep
    split_ifs at hstep with hlive
    obtain ⟨⟨slot, _⟩, hmem, he⟩ := List.any_eq_true.mp hlive
    have he := of_decide_eq_true he
    subst he
    obtain ⟨pool, m', hrun, hinv, _⟩ := (h.free_sat hkind hmem).finishes
    rw [hrun] at hstep
    cases hstep
    exact hinv

theorem SlotsInv.steps (h : SlotsInv space L s) (hkind : space.kind = .kernel) {ops : List StackOp}
    (hrun : s.run space ops = some s') : ∃ L', SlotsInv space L' s' := by
  induction ops generalizing s L with
  | nil =>
    cases hrun
    exact ⟨L, h⟩
  | cons op ops ih =>
    obtain ⟨s₁, hstep, hrest⟩ := Option.bind_eq_some_iff.mp hrun
    obtain ⟨L₁, h₁⟩ := h.step hkind hstep
    exact ih h₁ hrest

/-- The stacks of the pool keep to their places. -/
structure StacksApart (space : AddressSpace) (s : StackSession) : Prop where
  marked : ∀ e ∈ s.live, e.1 < MAX_KERNEL_STACKS ∧ s.pool.used e.1 = true
  slots : (s.live.map Prod.fst).Nodup
  apart : s.live.Pairwise fun e e' => e.2.top ≤ e'.2.mappedStart ∨ e'.2.top ≤ e.2.mappedStart
  mapped : ∀ e ∈ s.live, e.2.mappedStart + KERNEL_STACK_SIZE = e.2.top ∧
    ∀ a, e.2.mappedStart ≤ a → a < e.2.top → (space.toPhysical s.machine.mem a).isSome = true
  guard : ∀ e ∈ s.live, ∀ a, a < e.2.mappedStart → e.2.mappedStart ≤ a + PAGE_SIZE →
    space.toPhysical s.machine.mem a = none
  /-- `free` of a live stack returns, and clears the bit of its slot. -/
  free : ∀ slot stack, (slot, stack) ∈ s.live →
    ∃ pool m', s.pool.free space stack s.machine = .ok pool m' ∧
      ∀ i, pool.used i = (s.pool.used i && !decide (i = slot))
  allocate : ∃ pool res m', s.pool.allocate space s.machine = .ok (pool, res) m' ∧
    (res = .error .outOfStacks ↔ ∀ i < MAX_KERNEL_STACKS, s.pool.used i = true)

theorem SlotsInv.mapped (h : SlotsInv space L s) {slot a : ℕ}
    (hready : StackReady L s.machine slot) (hlo : slotBase slot + FRAME_SIZE ≤ a)
    (hhi : a < slotBase slot + FRAME_SIZE + KERNEL_STACK_SIZE) :
    (space.toPhysical s.machine.mem a).isSome = true := by
  have hi : (a - (slotBase slot + FRAME_SIZE)) / FRAME_SIZE < KERNEL_STACK_PAGES := by
    simp only [KERNEL_STACK_SIZE, KERNEL_STACK_PAGES, FRAME_SIZE] at *
    omega
  obtain ⟨e, hl, _⟩ := hready.pages _ hi
  rw [Option.isSome_iff_ne_none, Ne, h.realm.toPhysical_none fun _ => .inl rfl]
  intro hnone
  have hd : (a - (slotBase slot + FRAME_SIZE)) % FRAME_SIZE < FRAME_SIZE :=
    Nat.mod_lt _ (by decide)
  obtain ⟨_, _, hal⟩ := slot_bounds hready.bound (Nat.succ_le_of_lt hi)
  rw [page_eq] at hl
  have ha : slotBase slot + ((a - (slotBase slot + FRAME_SIZE)) / FRAME_SIZE + 1) * FRAME_SIZE +
      (a - (slotBase slot + FRAME_SIZE)) % FRAME_SIZE = a := by
    simp only [FRAME_SIZE] at *
    omega
  rw [← pagePath_add _ hal hd, Nat.succ_eq_add_one, ha] at hl
  refine hnone ?_ e hl
  have hc := canonical_add (slot_canonical s.machine.paging.mode hready.bound
    (Nat.succ_le_of_lt hi)) hal hd
  rwa [Nat.succ_eq_add_one, ha] at hc

theorem SlotsInv.guard (h : SlotsInv space L s) {slot a : ℕ}
    (hready : StackReady L s.machine slot) (hlo : slotBase slot ≤ a)
    (hhi : a < slotBase slot + FRAME_SIZE) : space.toPhysical s.machine.mem a = none := by
  rw [h.realm.toPhysical_none fun _ => .inl rfl]
  intro _ e hl
  have hal : slotBase slot % FRAME_SIZE = 0 := by
    have := (slot_bounds (i := 0) hready.bound (by decide)).2.2
    rwa [Nat.zero_mul, Nat.add_zero] at this
  have ha : a = slotBase slot + (a - slotBase slot) := by omega
  rw [ha, pagePath_add _ hal (by omega)] at hl
  exact hready.guard e hl

theorem SlotsInv.stacksApart (h : SlotsInv space L s) (hkind : space.kind = .kernel) :
    StacksApart space s := by
  refine ⟨?_, h.slots, ?_, ?_, ?_, ?_, ?_⟩
  · intro e he
    obtain ⟨_, hready, hu⟩ := h.live e he
    exact ⟨hready.bound, hu⟩
  · have hpair := List.pairwise_map.mp h.slots
    refine hpair.imp_of_mem ?_
    intro e e' he he' hne
    rw [(h.live e he).1, (h.live e' he').1]
    simp only [stackAt, slotBase, KERNEL_SLOT_SIZE, KERNEL_STACK_SIZE, KERNEL_STACK_PAGES,
      GUARD_PAGES, FRAME_SIZE]
    omega
  · intro e he
    obtain ⟨hstack, hready, _⟩ := h.live e he
    rw [hstack]
    exact ⟨rfl, fun a hlo hhi => h.mapped hready hlo hhi⟩
  · intro e he a hhi hlo
    obtain ⟨hstack, hready, _⟩ := h.live e he
    rw [hstack] at hlo hhi
    refine h.guard hready ?_ hhi
    simp only [stackAt, PAGE_SIZE, FRAME_SIZE] at hlo ⊢
    omega
  · intro slot stack hmem
    obtain ⟨pool, m', hrun, _, hused⟩ := (h.free_sat hkind hmem).finishes
    exact ⟨pool, m', hrun, hused⟩
  · obtain ⟨⟨pool, res⟩, m', hrun, _, hfull⟩ := h.allocate_sat.finishes
    exact ⟨pool, res, m', hrun, hfull⟩

/-- Whatever stacks are allocated and freed in a kernel address space in order, the live
ones keep to their own slots, with their guard pages unmapped. -/
theorem kernel_stacks_apart {m₀ : Machine} (ha : m₀.SoundAllocator)
    (hspace : space.root.Intact m₀) (hkind : space.kind = .kernel)
    (hs : StackSession.Reached space m₀ s) : StacksApart space s := by
  obtain ⟨L, h⟩ := hspace.realm ha rfl
  obtain ⟨ops, hrun⟩ := hs
  have hinit : SlotsInv space L ⟨m₀, .new, []⟩ := ⟨h, nofun, List.nodup_nil⟩
  obtain ⟨L', hinv⟩ := hinit.steps hkind hrun
  exact hinv.stacksApart hkind

end Pool

/-- A stack is made, there is no memory for a second one, and a third takes the slot of the
first, which has been freed. -/
theorem kernel_stacks_apart_small : ∃ t pt s,
    TableSession.Reached smallMap smallDirectMap (smallMachine .fourLevel) t ∧
    t.table = some pt ∧ StackSession.Reached ⟨pt, .kernel⟩ t.pool.machine s ∧
    s.live = [(0, stackAt 0)] ∧ s.pool.freeSlots = 0b11 ∧ StacksApart ⟨pt, .kernel⟩ s := by
  have hrun : (smallTable .fourLevel [.new]).any (fun t => t.table.any fun pt =>
      (StackSession.run ⟨pt, .kernel⟩ [.allocate, .allocate, .free (stackAt 0), .allocate]
        ⟨t.pool.machine, .new, []⟩).any fun s =>
          s.live = [(0, stackAt 0)] ∧ s.pool.freeSlots = 0b11) = true := by decide +kernel
  obtain ⟨t, pt, ht, hpt, htest⟩ := smallTable_some hrun
  obtain ⟨ha, hintact⟩ := ht.intact smallMap_disjoint smallMap_direct hpt
  have hspace : (AddressSpace.mk pt .kernel).root.Intact t.pool.machine := hintact
  obtain ⟨s, hs, hlive⟩ := (Option.any_eq_true _ _).mp htest
  have hreached : StackSession.Reached ⟨pt, .kernel⟩ t.pool.machine s := ⟨_, hs⟩
  obtain ⟨hlive, hpool⟩ := of_decide_eq_true hlive
  exact ⟨t, pt, s, ht, hpt, hreached, hlive, hpool,
    kernel_stacks_apart ha hspace rfl hreached⟩

section Failure

/-- A failed `allocate` leaves the pool, the translations and the free frames as they were. -/
def KernelStackPool.CostsNothing (pool : KernelStackPool) (space : AddressSpace) (m : Machine) :
    Prop :=
  ∀ pool' err m', pool.allocate space m = .ok (pool', .error err) m' →
    pool' = pool ∧ space.Unchanged m m'

/-- The stack of a slot can be made: its guard page and its pages are not mapped, the
processor can protect them from execution, and the frames that allocations reach suffice
for the pages and for the tables that are missing. -/
structure AddressSpace.StackRoom (space : AddressSpace) (m : Machine) (slot : ℕ) : Prop where
  guard : space.toPhysical m.mem (slotBase slot) = none
  pages : ∀ i < KERNEL_STACK_PAGES,
    space.toPhysical m.mem (pageAt (slotBase slot + FRAME_SIZE) i) = none
  execute : m.paging.nxEnabled = true
  frames : KERNEL_STACK_PAGES + (space.root.missingTables m.mem
    (runPages (slotBase slot + FRAME_SIZE) 0 KERNEL_STACK_PAGES).toFinset).card ≤ m.offers.card

theorem Realm.stackRoom_iff {L : Layout} (h : Realm True L m space L.kroot 0)
    (hkind : space.kind = .kernel) {slot : ℕ} (hslot : slot < 64) :
    space.StackRoom m slot ↔ space.toPhysical m.mem (slotBase slot) = none ∧
      m.paging.nxEnabled = true ∧
      Room L m (runPages (slotBase slot + FRAME_SIZE) 0 KERNEL_STACK_PAGES) KERNEL_STACK_PAGES := by
  have hpage : ∀ i < KERNEL_STACK_PAGES,
      (space.toPhysical m.mem (pageAt (slotBase slot + FRAME_SIZE) i) = none ↔ ∀ e,
        ¬ LeafAt L m L.kroot (pagePath m.paging.mode (pageAt (slotBase slot + FRAME_SIZE) i)) e) := by
    intro i hi
    rw [h.toPhysical_none fun _ => .inl rfl]
    exact forall_prop_of_true (slot_takes hkind hslot hi).canonical
  have hnodup : (runPages (slotBase slot + FRAME_SIZE) 0 KERNEL_STACK_PAGES).Nodup := by
    refine List.Nodup.map (fun i j he => ?_) List.nodup_range'
    simp only [pageAt, FRAME_SIZE] at he
    omega
  constructor
  · rintro ⟨hguard, hpages, hexec, hframes⟩
    refine ⟨hguard, hexec, hnodup, fun va hva => ?_, ?_⟩
    · obtain ⟨i, _, hi, rfl⟩ := mem_runPages.mp hva
      exact (hpage i (by omega)).mp (hpages i (by omega))
    · rw [← h.root, h.inv.alloc.offers_eq]
      exact hframes
  · rintro ⟨hguard, hexec, _, hunmapped, hframes⟩
    rw [← h.root, h.inv.alloc.offers_eq] at hframes
    refine ⟨hguard, fun i hi => (hpage i hi).mpr (hunmapped _ ?_), hexec, hframes⟩
    exact mem_runPages.mpr ⟨i, Nat.zero_le i, by omega, rfl⟩

/-- `KernelStackPool::allocate` returns. A failure costs nothing exactly where no slot is
free, or there is room for the stack in the first free one, so that nothing fails. -/
theorem failed_stack_costs_nothing_iff (ha : m.SoundAllocator) (hspace : space.root.Intact m)
    (hkind : space.kind = .kernel) (pool : KernelStackPool) :
    (∃ res m', pool.allocate space m = .ok res m') ∧
    (pool.CostsNothing space m ↔
      ∀ slot, pool.findSlot 0 MAX_KERNEL_STACKS = some slot → space.StackRoom m slot) := by
  obtain ⟨L, h⟩ := hspace.realm ha rfl
  have hrun : ∀ slot < 64,
      Run True L m space L.kroot 0 (slotBase slot + FRAME_SIZE) KERNEL_STACK_PAGES :=
    fun slot _ => ⟨h, fun i _ => ⟨fun hx => absurd trivial hx, .inl (h.rootFree trivial _)⟩⟩
  -- the slot is taken before the stack is made, and stays taken when that fails
  have hspec : (pool.allocate space).Sat m (fun res _ => ∀ err, res.2 = .error err →
      ∀ slot, pool.findSlot 0 MAX_KERNEL_STACKS = some slot → res.1 ≠ pool) Prog.never := by
    refine KernelStackPool.allocate_sat hrun (fun _ _ _ _ _ _ _ _ _ _ _ => nofun) ?_ ?_
    · intro err slot pool' m' hunused _ hused _ _ _ _ _ _ he
      have := hused slot
      rw [show pool' = pool from he, hunused, decide_eq_true rfl] at this
      cases this
    · intro hfull _ _ slot hfind
      obtain ⟨hslot, hunused⟩ := findSlot_some (by decide) hfind
      rw [hfull slot hslot] at hunused
      cases hunused
  obtain ⟨⟨pool', res⟩, m', hrun', hres⟩ := hspec.finishes
  refine ⟨⟨_, m', hrun'⟩, ?_, ?_⟩
  · intro hnothing slot hfind
    obtain ⟨hslot, _⟩ := findSlot_some (by decide) hfind
    have hroom := (KernelStackPool.allocate_room hkind hfind (hrun slot hslot)).of_ok hrun'
    rw [h.stackRoom_iff hkind hslot, ← hroom]
    cases res with
    | ok stack => exact ⟨stack, rfl⟩
    | error err => exact absurd (hnothing _ _ _ hrun').1 (hres err rfl slot hfind)
  · intro hroom pool'' err m'' hfail
    rw [hfail] at hrun'
    cases hrun'
    cases hfind : pool.findSlot 0 MAX_KERNEL_STACKS with
    | none =>
      have hpure : pool.allocate space m = .ok (pool, .error .outOfStacks) m := by
        rw [KernelStackPool.allocate, hfind]
        rfl
      rw [hpure] at hfail
      cases hfail
      exact ⟨rfl, fun _ => ⟨rfl, rfl⟩, rfl⟩
    | some slot =>
      obtain ⟨hslot, _⟩ := findSlot_some (by decide) hfind
      have hmade := (KernelStackPool.allocate_room hkind hfind (hrun slot hslot)).of_ok hfail
      obtain ⟨stack, hstack⟩ := hmade.mpr ((h.stackRoom_iff hkind hslot).mp (hroom slot hfind))
      cases hstack

end Failure

/-- A machine with room for a stack. -/
theorem failed_stack_costs_nothing_small : ∃ t pt,
    TableSession.Reached smallMap smallDirectMap (smallMachine .fourLevel) t ∧
    t.table = some pt ∧ KernelStackPool.new.CostsNothing ⟨pt, .kernel⟩ t.pool.machine ∧
    AddressSpace.StackRoom ⟨pt, .kernel⟩ t.pool.machine 0 := by
  have hrun : (smallTable .fourLevel [.new]).any (fun t => t.table.any fun pt =>
      match KernelStackPool.new.allocate ⟨pt, .kernel⟩ t.pool.machine with
      | .ok (_, .ok _) _ => true
      | _ => false) = true := by decide +kernel
  obtain ⟨t, pt, ht, hpt, htest⟩ := smallTable_some hrun
  obtain ⟨ha, hintact⟩ := ht.intact smallMap_disjoint smallMap_direct hpt
  have hspace : (AddressSpace.mk pt .kernel).root.Intact t.pool.machine := hintact
  have hnothing : KernelStackPool.new.CostsNothing ⟨pt, .kernel⟩ t.pool.machine := by
    intro pool' err m' hfail
    rw [hfail] at htest
    cases htest
  exact ⟨t, pt, ht, hpt, hnothing,
    (failed_stack_costs_nothing_iff ha hspace rfl .new).2.mp hnothing 0 (by decide)⟩

/-- A machine with too few free frames: the slot is lost. -/
theorem failed_stack_loses_slot : ∃ t pt pool' m',
    TableSession.Reached smallMap smallDirectMap (smallMachine .fourLevel) t ∧
    t.table = some pt ∧ t.pool.machine.SoundAllocator ∧ pt.Intact t.pool.machine ∧
    KernelStackPool.new.allocate ⟨pt, .kernel⟩ t.pool.machine =
      .ok (pool', .error .outOfFrames) m' ∧ pool'.freeSlots = 1 ∧
    ¬ KernelStackPool.new.CostsNothing ⟨pt, .kernel⟩ t.pool.machine := by
  have hrun : (smallTable .fourLevel (.new :: List.replicate 12 (.frames .alloc))).any (fun t =>
      t.table.any fun pt =>
        match KernelStackPool.new.allocate ⟨pt, .kernel⟩ t.pool.machine with
        | .ok (pool', .error .outOfFrames) _ => pool'.freeSlots = 1
        | _ => false) = true := by decide +kernel
  obtain ⟨t, pt, ht, hpt, htest⟩ := smallTable_some hrun
  obtain ⟨ha, hintact⟩ := ht.intact smallMap_disjoint smallMap_direct hpt
  split at htest
  case h_1 pool' m' hfail =>
    have hslots := of_decide_eq_true htest
    refine ⟨t, pt, pool', m', ht, hpt, ha, hintact, hfail, hslots, fun hnothing => ?_⟩
    rw [(hnothing _ _ _ hfail).1] at hslots
    cases hslots
  case h_2 => cases htest

end Dusk
