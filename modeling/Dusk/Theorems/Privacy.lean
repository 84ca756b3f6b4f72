import Dusk.Proofs.Spares
import Dusk.Theorems.Ownership

/-! The memory of an address space is safe from tasks of other address spaces: while only
they run, its pages stay where they are and keep their content. Accesses go by the page
tables; what the processor has cached of them is the subject of `Dusk.Theorems.Tlb`. -/

namespace Dusk

open Lib Radix

variable {b : BootInfo} {B : BootPages} {L : Layout} {k k' : Kernel} {id va p f : ℕ}
  {s : AddressSpace}

/-- The handle is the mapping of the page `page` in the address space `id`. -/
def Handle.maps (id page : ℕ) (handle : Handle) : Bool :=
  match handle.object with
  | .mapping _ as v => as == id && v == page
  | _ => false

/-- The current task is in the address space `id`, or holds the handle with which the page
`page` of it is unmapped. -/
def Kernel.touches (k : Kernel) (id page : ℕ) : Bool :=
  k.sched.current.any fun t => (k.sched.tasks.get t).any fun task =>
    task.asId == id || (List.range MAX_HANDLES).any fun i =>
      (task.handles.get i).any (Handle.maps id page)

theorem far_space {cur page : ℕ} {task : Tcb} (hrun : Running k cur task)
    (hfar : k.touches id page = false) : task.asId ≠ id := by
  rintro rfl
  simp [Kernel.touches, hrun.current, hrun.get] at hfar

theorem far_handle {cur i page : ℕ} {task : Tcb} {rights : Rights} (hrun : Running k cur task)
    (hfar : k.touches id page = false) : k.handleAt cur i ≠ some ⟨.mapping f id page, rights⟩ := by
  intro hh
  rw [hrun.handleAt] at hh
  have hi := Slots.lt_of_get hh
  simp only [Kernel.touches, hrun.current, hrun.get, Option.any_some, Bool.or_eq_false_iff,
    List.any_eq_false] at hfar
  have := hfar.2 i (List.mem_range.mpr hi)
  simp [hh, Handle.maps] at this

theorem user_low (hva : va < USER_SPACE_END) : va < 2 ^ 63 := by
  simp only [USER_SPACE_END] at hva
  omega

/-- The frame of a user page is in no other address space, so no one else writes to it. -/
theorem KInv.elsewhere {cur : ℕ} {task : Tcb} (h : KInv B L k) (hrun : Running k cur task)
    (hs : k.spaces.get id = some s) (hva : va < USER_SPACE_END) (hm : s.Maps k.machine.mem va f)
    (hne : task.asId ≠ id) : Elsewhere L k.machine f := by
  obtain ⟨_, hlt, e, hleaf, he, _⟩ := h.res.user_maps (.inr ⟨id, hs⟩) (user_low hva) hm
  refine ⟨he ▸ h.res.leaf_held hlt hleaf, ?_⟩
  intro a e' ha hl he'
  obtain ⟨s', hs', hroot⟩ := Kernel.rootOf_some.mp hrun.root
  have hphys := h.res.toPhysical_of_leaf (s := s') (.inr ⟨_, hs'⟩) (user_canonical _ ha)
    (.inr (rootIndex_user _ ha)) (by rw [hroot]; exact hl)
  have hm' : s'.Maps k.machine.mem a f := ⟨_, hphys, by rw [frame_of_phys, he']⟩
  exact hne (h.res.maps_once hs hs' (user_low hva) (user_low ha) hm hm').1.symm

/-- A page of an address space from the address space's own side: its space, its
translation and the byte behind it are as they were. -/
structure PageKept (id : ℕ) (s : AddressSpace) (va p : ℕ) (k k' : Kernel) : Prop where
  space : k'.spaces.get id = some s
  mapped : s.toPhysical k'.machine.mem va = some p
  byte : k'.machine.mem.byte p = k.machine.mem.byte p

theorem KInv.paging_eq {L' : Layout} (h : KInv B L k) (h' : KInv B L' k')
    (hs : k.spaces.get id = some s) (hs' : k'.spaces.get id = some s) :
    k'.machine.paging = k.machine.paging :=
  (congrArg PageTable.config (h'.res.live (.inr ⟨id, hs'⟩)).root).symm.trans
    (congrArg PageTable.config (h.res.live (.inr ⟨id, hs⟩)).root)

/-- One move of a task that does not touch the page. -/
theorem step_page (h : KInv B L k) (hs : k.spaces.get id = some s) (hva : va < USER_SPACE_END)
    (hp : s.toPhysical k.machine.mem va = some p)
    (hfar : k.touches id (alignDownToFrame va) = false) {a : Action} {done : Option Completion}
    (hstep : step a k = some (k', done)) : PageKept id s va p k k' := by
  obtain ⟨cur, task, hrun⟩ := h.tasks.current
  have hm : s.Maps k.machine.mem va (p / FRAME_SIZE) := ⟨p, hp, rfl⟩
  have hsame := step_same h (h.elsewhere hrun hs hva hm (far_space hrun hfar)) hstep
  obtain ⟨⟨L', h', _, _, hothers, _⟩, _⟩ := step_spec h hstep
  have hs' := hothers.spaces id s hs
  refine ⟨hs', ?_, PhysMem.byte_congr hsame⟩
  obtain ⟨_, _, e, hleaf, he, hwho⟩ := h.res.user_maps (.inr ⟨id, hs⟩) (user_low hva) hm
  -- the page is still there: its handle is another task's, or it was mapped at boot
  have hleaf' : ∃ e', LeafAt L' k'.machine s.root.frame
      (pagePath k'.machine.paging.mode (alignDownToFrame va)) e' ∧
      entryFrame k'.machine.paging e' = p / FRAME_SIZE := by
    rcases hwho with ⟨t, i, id', rights, hh, hid'⟩ | ⟨hroot, hb⟩
    · have hid : id' = id := h.res.spaces.inj id' id s.root.frame hid'
        (Kernel.rootOf_some.mpr ⟨s, hs, rfl⟩)
      rw [hid, he] at hh
      have hcur : k.sched.current ≠ some t := by
        intro hcur
        rw [hrun.current] at hcur
        cases hcur
        exact far_handle hrun hfar hh
      obtain ⟨_, _, _, r, e', hr, hl, he'⟩ :=
        h'.res.pages.mappings _ _ _ _ _ _ (hothers.handles t i _ hcur hh)
      rw [Kernel.rootOf_some.mpr ⟨s, hs', rfl⟩] at hr
      cases hr
      exact ⟨e', hl, he'⟩
    · obtain ⟨_, _, hl, _⟩ := h'.res.pages.boot _ e hb
      rw [← hroot] at hl
      exact ⟨e, hl, by rw [h.paging_eq h' hs hs', he]⟩
  obtain ⟨e', hl, he'⟩ := hleaf'
  rw [pagePath_alignDown] at hl hleaf
  have hold := h.res.toPhysical_of_leaf (.inr ⟨id, hs⟩) (user_canonical _ hva)
    (.inr (rootIndex_user _ hva)) hleaf
  rw [h'.res.toPhysical_of_leaf (.inr ⟨id, hs'⟩) (user_canonical _ hva)
    (.inr (rootIndex_user _ hva)) hl, he', ← he, ← hold, hp]

/-- While no task that touches a page runs, the page is kept. -/
theorem run_page (h : KInv B L k) (hs : k.spaces.get id = some s) (hva : va < USER_SPACE_END)
    (hp : s.toPhysical k.machine.mem va = some p) {as : List Action} {trace : List Completion}
    (hr : run as k = some (k', trace))
    (hfar : Along (fun _ k => k.touches id (alignDownToFrame va) = false) as k) :
    PageKept id s va p k k' := by
  obtain ⟨_, _, hkept⟩ := run_along h (Q := PageKept id s va p k) (fun h₁ hfar hstep hkept => by
    have hlater := step_page h₁ hkept.space hva hkept.mapped hfar hstep
    exact ⟨hlater.space, hlater.mapped, hlater.byte.trans hkept.byte⟩) hr hfar ⟨hs, hp, rfl⟩
  exact hkept

/-- In every run from a reachable state, a page of an address space changes neither its
frame nor, by accesses as the page tables have them, its content while the tasks that run
are of other address spaces and do not hold its mapping. -/
theorem page_untouched (hok : b.Ok) (hk : Reachable b k) (hs : k.spaces.get id = some s)
    (hva : va < USER_SPACE_END) (hp : s.toPhysical k.machine.mem va = some p) {as : List Action}
    {trace : List Completion} (hr : run as k = some (k', trace))
    (hfar : Along (fun _ k => k.touches id (alignDownToFrame va) = false) as k) :
    PageKept id s va p k k' := by
  obtain ⟨B, L, h⟩ := hk.inv hok
  exact run_page h hs hva hp hr hfar

/-- The first task maps a page in a second address space, and makes a task in its own that
then runs. -/
def guestRun : List Action :=
  [.resume, .syscall ⟨8, 0x7FFF_FFFF_E000, 0, 0, 0, 0⟩, .syscall ⟨6, 0x7FFF_FFFF_E000, 0, 0, 0, 0⟩,
    .syscall ⟨9, 2, 3, 0x600000, 1, 0x7FFF_FFFF_E000⟩,
    .syscall ⟨11, 0, 0x400000, 0x7FFF_FFFF_F000, 0x7FFF_FFFF_E000, 0⟩,
    .syscall ⟨1, 0, 0, 0, 0, 0⟩, .resume]

/-- It writes to its stack, and asks for a frame. -/
def guestMoves : List Action :=
  [.store 0x7FFF_FFFF_E000 7, .syscall ⟨6, 0x7FFF_FFFF_E000, 0, 0, 0, 0⟩]

theorem guestRun_far : (((smallBoot []).started.bind (run guestRun)).any fun r =>
    ((r.1.spaces.get 1).any fun s => (s.toPhysical r.1.machine.mem 0x600000).isSome) &&
    (!r.1.touches 1 0x600000 && (step (.store 0x7FFF_FFFF_E000 7) r.1).all fun r' =>
      !r'.1.touches 1 0x600000) && (run guestMoves r.1).isSome) = true := by
  decide +kernel

theorem page_untouched_guest : ∃ k s p k' trace, Reachable (smallBoot []) k ∧
    k.spaces.get 1 = some s ∧ s.toPhysical k.machine.mem 0x600000 = some p ∧
    run guestMoves k = some (k', trace) ∧ PageKept 1 s 0x600000 p k k' := by
  obtain ⟨k₀, k, trace₀, hk₀, hr₀, htest⟩ := run_of_any guestRun_far
  simp only [Bool.and_eq_true, Bool.not_eq_eq_eq_not, Bool.not_true] at htest
  obtain ⟨⟨hspace, hfar, hstep⟩, hmoves⟩ := htest
  obtain ⟨s, hs, hphys⟩ := (Option.any_eq_true _ _).mp hspace
  obtain ⟨p, hp⟩ := Option.isSome_iff_exists.mp hphys
  obtain ⟨⟨k', trace⟩, hr⟩ := Option.isSome_iff_exists.mp hmoves
  have hreach : Reachable (smallBoot []) k := ⟨k₀, guestRun, trace₀, hk₀, hr₀⟩
  have hlater : ∀ k₁ done, step (.store 0x7FFF_FFFF_E000 7) k = some (k₁, done) →
      k₁.touches 1 0x600000 = false := by
    intro k₁ done hk₁
    rw [hk₁] at hstep
    simpa using hstep
  exact ⟨k, s, p, k', trace, hreach, hs, hp, hr,
    page_untouched (smallBoot_ok []) hreach hs (by decide) hp hr
      ⟨hfar, fun k₁ done hk₁ => ⟨hlater k₁ done hk₁, fun _ _ _ => trivial⟩⟩⟩

end Dusk
