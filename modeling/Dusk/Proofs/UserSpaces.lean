import Dusk.Proofs.Space
import Dusk.Model.Session

/-! Runs of user address spaces that are made of one kernel address space, and of the
owners of the frames that are mapped there. -/

namespace Dusk

open Lib Radix

variable {L L' : Layout} {m : Machine} {r va : ℕ} {space kernel : AddressSpace}

/-- `AddressSpace::map` of a user address space, with any arguments. -/
theorem SpaceOf.userMap_sat (hs : SpaceOf L m space r) (hr : r ≠ L.kroot) (h : MemInv noPages L m)
    (physicalAddr va : ℕ) (permissions : PagePermissions) (cachePolicy : CachePolicy) :
    (space.map physicalAddr va permissions cachePolicy).Sat m
      (fun _ m' => ∃ L', MemInv noPages L' m' ∧ Edit (Role.Lent r) r L m L' m') Prog.never := by
  have hstay : ∃ L', MemInv noPages L' m ∧ Edit (Role.Lent r) r L m L' m :=
    ⟨L, h, Edit.refl _ _ _ _⟩
  have hkind : space.kind = .user := by rw [hs.kind, if_neg hr]
  simp only [AddressSpace.map, hkind, true_and]
  rw [Prog.sat_ite]
  refine ⟨fun _ => hstay, fun hva => ?_⟩
  rw [Prog.sat_ite]
  refine ⟨fun _ => hstay, fun hperm => ?_⟩
  have huser : permissions.userAccessible = true := by simpa using hperm
  cases fromStartAddress physicalAddr with
  | none => exact hstay
  | some frame =>
    simp only [Prog.sat_bind]
    have hroot := rootIndex_user m.paging.mode (not_le.mp hva)
    refine Dusk.map_sat hs.tableOf hs.frame h hs.typed ?_ ?_
    · intro _
      exact ⟨.inr hroot, fun _ _ => ⟨hr, rfl⟩, .inl (.inr (.inl hr)), fun _ => by simp [huser, hr],
        False.elim⟩
    · intro res L' m' hpost
      cases res <;> exact ⟨L', hpost.inv, hpost.edit⟩

/-- `AddressSpace::unmap` of a user address space, at any address. -/
theorem SpaceOf.userUnmap_sat (hs : SpaceOf L m space r) (hr : r ≠ L.kroot)
    (h : MemInv noPages L m) (va : ℕ) :
    (space.unmap va).Sat m
      (fun _ m' => ∃ L', MemInv noPages L' m' ∧ Edit (Role.Lent r) r L m L' m') Prog.never := by
  have hstay : ∃ L', MemInv noPages L' m ∧ Edit (Role.Lent r) r L m L' m :=
    ⟨L, h, Edit.refl _ _ _ _⟩
  have hkind : space.kind = .user := by rw [hs.kind, if_neg hr]
  simp only [AddressSpace.unmap, hkind, true_and]
  rw [Prog.sat_ite]
  refine ⟨fun _ => hstay, fun hlow => ?_⟩
  have hva : va < USER_SPACE_END := not_le.mp hlow
  have hcan := user_canonical m.paging.mode hva
  have hroot := rootIndex_user m.paging.mode hva
  rw [Prog.sat_bind]
  by_cases hal : va % PAGE_SIZE = 0
  · by_cases hleaf : ∃ e, LeafAt L m r (pagePath m.paging.mode va) e
    · obtain ⟨e, hl⟩ := hleaf
      refine Dusk.unmap_sat hs.tableOf hs.frame h ⟨hcan, hal⟩ (.inr hroot) hl
        (.inl (.inr (.inl hr))) ?_
      intro L' m' hpost
      exact ⟨L', hpost.inv, hpost.edit⟩
    · exact Dusk.unmap_none hs.tableOf hs.frame h.toPtInv hs.typed ⟨hcan, hal⟩ (.inr hroot)
        (not_exists.mp hleaf) hstay
  · have hcan' : space.root.isCanonical va = true := by
      rw [PageTable.isCanonical, hs.tableOf.config, hcan]
    simp only [PageTable.unmap, hcan', Bool.not_true, Bool.false_eq_true, if_false, ne_eq, hal,
      not_false_eq_true, if_true]
    exact hstay

/-- A frame that holds data or a root, and stays in this role when page tables change. -/
def Role.Fixed (ρ : Role) : Prop := (∃ o, ρ = .data o) ∨ ∃ r, ρ = .table r []

theorem Role.Fixed.not_lent {ρ : Role} (h : ρ.Fixed) : ¬ ρ.Lent r := by
  rcases h with ⟨o, rfl⟩ | ⟨r', rfl⟩
  · exact not_lent_data
  · exact not_lent_root

/-- Since the layout `L₀` of the machine `m₀`, a session has used frames that were free
then, for its roots and its owners. -/
structure SpaceSession.Inv (L₀ : Layout) (m₀ : Machine) (L : Layout) (s : SpaceSession) :
    Prop where
  mem : MemInv noPages L s.pool.machine
  regs : Regs m₀ s.pool.machine
  kroot : L.kroot = L₀.kroot
  fixed : ∀ f, (L₀.role f).Fixed → L.role f = L₀.role f
  held : ∀ f ∈ s.pool.outstanding, L.role f = .data .spare ∧ ¬ (L₀.role f).Fixed
  spaces : ∀ space ∈ s.spaces, ∃ r, SpaceOf L s.pool.machine space r ∧ ¬ (L₀.role r).Fixed
  apart : s.spaces.Pairwise fun space other => space.root.frame ≠ other.root.frame

namespace SpaceSession.Inv

variable {L₀ : Layout} {m₀ m' : Machine} {s : SpaceSession} {pool : Session}

/-- The root of a session's address space is not the kernel's. -/
theorem user (h : Inv L₀ m₀ L s) (hk : L₀.role L₀.kroot = .table L₀.kroot [])
    (hr : ¬ (L₀.role r).Fixed) : r ≠ L.kroot := by
  rintro rfl
  rw [h.kroot, hk] at hr
  exact hr (.inr ⟨_, rfl⟩)

/-- A frame that has no fixed role had none at the beginning. -/
theorem fresh (h : Inv L₀ m₀ L s) {f : ℕ} (hf : ¬ (L.role f).Fixed) : ¬ (L₀.role f).Fixed := by
  intro hfixed
  rw [h.fixed f hfixed] at hf
  exact hf hfixed

/-- Tables and owners change, and the roots stay. -/
theorem next (h : Inv L₀ m₀ L s) (hmem : MemInv noPages L' pool.machine)
    (hregs : Regs s.pool.machine pool.machine) (hk : L'.kroot = L.kroot)
    (hroles : ∀ f, (L.role f).Fixed → L'.role f = L.role f ∨
      (f ∈ s.pool.outstanding ∧ f ∉ pool.outstanding))
    (hheld : ∀ f ∈ pool.outstanding, f ∈ s.pool.outstanding ∨
      (¬ (L.role f).Fixed ∧ L'.role f = .data .spare)) :
    Inv L₀ m₀ L' { s with pool } := by
  refine ⟨hmem, h.regs.trans hregs, hk.trans h.kroot, ?_, ?_, ?_, h.apart⟩
  · intro f hf
    have hsame := h.fixed f hf
    rcases hroles f (hsame ▸ hf) with hrole | ⟨hout, _⟩
    · rw [hrole, hsame]
    · exact absurd hf (h.held f hout).2
  · intro f hf
    rcases hheld f hf with hout | ⟨hfree, hspare⟩
    · obtain ⟨hspare, hfresh⟩ := h.held f hout
      rcases hroles f (.inl ⟨_, hspare⟩) with hrole | ⟨_, hnot⟩
      · exact ⟨hrole.trans hspare, hfresh⟩
      · exact absurd hf hnot
    · exact ⟨hspare, h.fresh hfree⟩
  · intro space hspace
    obtain ⟨r, hs, hr⟩ := h.spaces space hspace
    have hrole : L'.role r = L.role r := by
      rcases hroles r (.inr ⟨r, hs.typed⟩) with hrole | ⟨hout, _⟩
      · exact hrole
      · have hspare := (h.held r hout).1
        rw [hs.typed] at hspare
        cases hspare
    exact ⟨r, hs.congr hk hregs hrole, hr⟩

/-- The tables of one address space change. -/
theorem edit (h : Inv L₀ m₀ L s) (hmem : MemInv noPages L' m')
    (he : Edit (Role.Lent r) r L s.pool.machine L' m') : Inv L₀ m₀ L' (s.withMachine m') :=
  h.next hmem he.regs he.kroot (fun _ hf => .inl (he.role_eq hf.not_lent)) fun _ hf => .inl hf

/-- `AddressSpace::new_user`. -/
theorem addSpace (h : Inv L₀ m₀ L s) {f : ℕ} (hnew : NewRoot L s.pool.machine f m') :
    Inv L₀ m₀ (L.set f (.table f []))
      { s.withMachine m' with spaces := s.spaces ++ [⟨m'.table f, .user⟩] } := by
  have hfree : ¬ (L.role f).Fixed := by
    rw [hnew.free]
    rintro (⟨_, hf⟩ | ⟨_, hf⟩) <;> cases hf
  have hne : ∀ g, (L.role g).Fixed → g ≠ f := by
    rintro g hg rfl
    exact hfree hg
  have h' : Inv L₀ m₀ (L.set f (.table f [])) (s.withMachine m') :=
    h.next hnew.inv hnew.regs rfl (fun g hg => .inl (Layout.set_role_of_ne L (hne g hg) _))
      fun _ hf => .inl hf
  have hkroot : f ≠ L.kroot := (hne _ (.inr ⟨_, h.mem.kroot⟩)).symm
  refine ⟨h'.mem, h'.regs, h'.kroot, h'.fixed, h'.held, ?_, ?_⟩
  · intro space hspace
    rcases List.mem_append.mp hspace with hold | hlast
    · exact h'.spaces space hold
    · obtain rfl := List.mem_singleton.mp hlast
      refine ⟨f, ⟨rfl, Layout.set_role_self L f _, ?_⟩, h.fresh hfree⟩
      rw [if_neg (show f ≠ (L.set f (.table f [])).kroot from hkroot)]
  · rw [List.pairwise_append]
    refine ⟨h.apart, List.pairwise_singleton _ _, ?_⟩
    intro space hspace other hother
    obtain rfl := List.mem_singleton.mp hother
    obtain ⟨r, hs, _⟩ := h.spaces space hspace
    rw [hs.frame]
    exact hne r (.inr ⟨r, hs.typed⟩)

/-- A frame is handed out. -/
theorem take (h : Inv L₀ m₀ L s) {f : ℕ} (ht : Taken noPages L s.pool.machine f m') :
    Inv L₀ m₀ (L.set f (.data .spare)) { s with
      pool := { s.pool with machine := m', outstanding := insert f s.pool.outstanding } } := by
  have hfree : ¬ (L.role f).Fixed := by
    rw [ht.free]
    rintro (⟨_, hf⟩ | ⟨_, hf⟩) <;> cases hf
  refine h.next ht.inv ht.only.regs rfl ?_ ?_
  · rintro g hg
    refine .inl (Layout.set_role_of_ne L ?_ _)
    rintro rfl
    exact hfree hg
  · intro g hg
    rcases Finset.mem_insert.mp hg with rfl | hout
    · exact .inr ⟨hfree, Layout.set_role_self L g _⟩
    · exact .inl hout

/-- A frame is given back. -/
theorem give (h : Inv L₀ m₀ L s) {f : ℕ} (hf : f ∈ s.pool.outstanding)
    (hg : Given noPages L s.pool.machine f m') :
    Inv L₀ m₀ (L.set f .free) { s with
      pool := { s.pool with machine := m', outstanding := s.pool.outstanding.erase f } } := by
  refine h.next hg.inv hg.only.regs rfl ?_ fun g hout => .inl (Finset.mem_of_mem_erase hout)
  intro g _
  by_cases hgf : g = f
  · exact .inr ⟨hgf ▸ hf, hgf ▸ Finset.notMem_erase g _⟩
  · exact .inl (Layout.set_role_of_ne L hgf _)

/-- The owner of a frame writes to it. -/
theorem use (h : Inv L₀ m₀ L s) {f i : ℕ} {w : Word} (hf : f ∈ s.pool.outstanding) :
    Inv L₀ m₀ L { s with
      pool := { s.pool with machine := s.pool.machine.withMem (s.pool.machine.mem.setWord f i w) } } := by
  refine h.next (h.mem.writeData _ ?_) (withMem_regs _ _) rfl (fun _ _ => .inl rfl)
    fun _ hout => .inl hout
  intro g hg
  refine PhysMem.frame_setWord _ ?_ _ _
  rintro rfl
  rw [(h.held g hf).1] at hg
  rcases hg with ⟨_, _, hg⟩ | hg <;> cases hg

/-- The owners of frames do something. -/
theorem frames (h : Inv L₀ m₀ L s) {op : FrameOp} (hop : ∀ kind, op ≠ .reclaimRegions kind)
    (hstep : s.pool.step [] op = some pool) : ∃ L', Inv L₀ m₀ L' { s with pool } := by
  rw [Session.step] at hstep
  split_ifs at hstep with hen
  have hsat : (op.prog []).Sat s.pool.machine (fun result m' =>
      ∃ L', Inv L₀ m₀ L' { s with pool := s.pool.after op result m' }) Prog.never := by
    cases op with
    | alloc =>
      exact h.mem.alloc_sat (fun _ => ⟨L, h⟩) fun f m' ht _ => ⟨_, h.take ht⟩
    | allocNozero =>
      exact h.mem.allocNozero_sat (fun _ => ⟨L, h⟩) fun f m' ht => ⟨_, h.take ht⟩
    | dealloc f =>
      rw [FrameOp.prog, Prog.sat_bind]
      exact h.mem.dealloc_sat (h.held f hen).1 fun m' hg => ⟨_, h.give hen hg⟩
    | reclaimRegions kind => exact absurd rfl (hop kind)
    | use f i w =>
      rw [FrameOp.prog, Prog.sat_bind, modifyMem, Prog.sat_modify, Prog.sat_pure]
      exact ⟨L, h.use hen⟩
  split at hstep
  · next result m' hrun =>
    cases hstep
    exact hsat.of_ok hrun
  · cases hstep

variable {op : SpaceOp} {s' : SpaceSession}

/-- One operation. -/
theorem step (h : Inv L₀ m₀ L s) (hk : L₀.role L₀.kroot = .table L₀.kroot [])
    (hkernel : SpaceOf L₀ m₀ kernel L₀.kroot) (hstep : s.step kernel op = some s') :
    ∃ L', Inv L₀ m₀ L' s' := by
  cases op with
  | newUser =>
    have hs : SpaceOf L s.pool.machine kernel L₀.kroot :=
      hkernel.congr h.kroot h.regs (h.fixed _ (.inr ⟨_, hk⟩))
    have hsat : (kernel.newUser).Sat s.pool.machine (fun res m' => ∃ L', Inv L₀ m₀ L' (match res with
        | .ok space => { s.withMachine m' with spaces := s.spaces ++ [space] }
        | .error _ => s.withMachine m')) Prog.never :=
      newUser_sat hs h.mem ⟨L, h⟩ fun f m' hnew => ⟨_, h.addSpace hnew⟩
    obtain ⟨res, m', hrun, hinv⟩ := hsat.finishes
    simp only [SpaceSession.step, hrun] at hstep
    cases res <;> cases hstep <;> exact hinv
  | map index physicalAddr virtualAddr permissions cachePolicy =>
    obtain ⟨space, hspace, hstep⟩ := Option.bind_eq_some_iff.mp hstep
    obtain ⟨r, hs, hr⟩ := h.spaces space (List.mem_of_getElem? hspace)
    obtain ⟨_, m', hrun, L', hmem, he⟩ := (hs.userMap_sat (h.user hk hr) h.mem physicalAddr
      virtualAddr permissions cachePolicy).finishes
    simp only [hrun, Option.some.injEq] at hstep
    exact ⟨L', hstep ▸ h.edit hmem he⟩
  | unmap index virtualAddr =>
    obtain ⟨space, hspace, hstep⟩ := Option.bind_eq_some_iff.mp hstep
    obtain ⟨r, hs, hr⟩ := h.spaces space (List.mem_of_getElem? hspace)
    obtain ⟨_, m', hrun, L', hmem, he⟩ :=
      (hs.userUnmap_sat (h.user hk hr) h.mem virtualAddr).finishes
    simp only [hrun, Option.some.injEq] at hstep
    exact ⟨L', hstep ▸ h.edit hmem he⟩
  | frames op =>
    cases op with
    | reclaimRegions kind => cases hstep
    | alloc | allocNozero | dealloc f | use f i w =>
      obtain ⟨pool, hpool, rfl⟩ := Option.map_eq_some_iff.mp hstep
      exact h.frames (fun _ he => by cases he) hpool

/-- A whole run. -/
theorem run (h : Inv L₀ m₀ L s) (hk : L₀.role L₀.kroot = .table L₀.kroot [])
    (hkernel : SpaceOf L₀ m₀ kernel L₀.kroot) {ops : List SpaceOp}
    (hrun : SpaceSession.run kernel ops s = some s') : ∃ L', Inv L₀ m₀ L' s' := by
  induction ops generalizing s L with
  | nil =>
    cases hrun
    exact ⟨L, h⟩
  | cons op ops ih =>
    obtain ⟨s₁, hstep, hrest⟩ := Option.bind_eq_some_iff.mp hrun
    obtain ⟨L₁, h₁⟩ := h.step hk hkernel hstep
    exact ih h₁ hrest

end SpaceSession.Inv

/-- Every session of a kernel address space in order. -/
theorem SpaceSession.Reached.inv {L₀ : Layout} {m₀ : Machine} {s : SpaceSession}
    (h : Reached kernel m₀ s) (hmem : MemInv noPages L₀ m₀)
    (hkernel : SpaceOf L₀ m₀ kernel L₀.kroot) : ∃ L, Inv L₀ m₀ L s := by
  obtain ⟨ops, hrun⟩ := h
  refine Inv.run ⟨hmem, Regs.refl _, rfl, fun _ _ => rfl, ?_, ?_, List.Pairwise.nil⟩ hmem.kroot
    hkernel hrun
  · intro f hf
    cases hf
  · intro space hspace
    cases hspace

end Dusk
