import Dusk.Proofs.PageRuns
import Dusk.Proofs.HandleSlots
import Dusk.Theorems.Refusals

/-! `sys_map` and `sys_unmap` undo each other: a frame handle gets through being a mapping,
whatever else is called in between. -/

namespace Dusk

open Lib Radix

variable {b : BootInfo} {B : BootPages} {L L₁ L₃ : Layout} {k k' k₁ : Kernel}
  {m m' m₁ m₂ m₃ : Machine} {r va f : ℕ} {e : Word}

section Layouts

/-- A page that is mapped and unmapped again leaves every table in its place. -/
theorem MapPost.undo (h : MemInv noPages L m) (hmap : MapPost False L m r va f e (.ok ()) L₁ m₁)
    (hregs : Regs m₁ m₂) (htree : Tree L₁ m₂)
    (hsame : ∀ r' q e', LeafAt L₁ m₂ r' q e' ↔ LeafAt L₁ m₁ r' q e')
    (hunmap : UnmapPost False L₁ m₂ r va L₃ m₃) :
    L₃ = L ∧ Regs m m₃ ∧ ∀ r' q e', LeafAt L₃ m₃ r' q e' ↔ LeafAt L m r' q e' := by
  have hall := (hmap.edit.regs.trans hregs).trans hunmap.edit.regs
  obtain ⟨_, _, _, hnone, hmapped⟩ := hmap.done rfl
  have hpaging : m₂.paging = m.paging := (hmap.edit.regs.trans hregs).paging
  have hleaf : ∀ r' q e', LeafAt L₃ m₃ r' q e' ↔ LeafAt L m r' q e' := by
    intro r' q e'
    rw [hunmap.leaf, hsame, hmapped, hpaging]
    split_ifs with hpage
    · refine iff_of_false (fun hl => hl.2 hpage) ?_
      rw [hpage.1, hpage.2]
      exact hnone e'
    · exact and_iff_left hpage
  have hroles := roles_restored h htree hunmap.inv hall.paging hmap.kept hunmap.kept hleaf
    (fun f hf hf' => ?_) (fun f hf hf' => ?_)
  · exact ⟨layout_eq hroles (hunmap.edit.kroot.trans hmap.edit.kroot) h.alloc hunmap.inv.alloc hall,
      hall, hleaf⟩
  · have hf₁ := hmap.kept f hf
    rcases hunmap.edit.roles f with hrole | ⟨hfree | ⟨p, hp, htable⟩, _⟩
    · exact absurd (hf₁.symm.trans (hrole.symm.trans hf')) hf
    · exact absurd (hf₁.symm.trans hfree) hf
    · exact ⟨r, p, hp, hf₁.symm.trans htable⟩
  · have hf₁ := hunmap.kept f hf'
    rcases hmap.edit.roles f with hrole | ⟨_, hfree | ⟨p, hp, htable⟩⟩
    · exact absurd (hf₁.trans (hrole.trans hf)) hf'
    · exact absurd (hf₁.trans hfree) hf'
    · exact ⟨r, p, hp, hf₁.trans htable⟩

end Layouts

section Calls

variable {t i id out : ℕ} {rights : Rights} {task task₁ : Tcb}

theorem UserWrite.handleAt {bytes : List Byte} (h : UserWrite B L k out bytes k') (t i : ℕ) :
    k'.handleAt t i = k.handleAt t i := by
  rw [h.only]
  rfl

/-- What `sys_map` has done when it returns 0. -/
theorem handle_map (h : KInv B L k) {a : SyscallArgs}
    (hmap : SyscallNumber.tryFrom a.num.toNat = some .map) (hcur : k.sched.current = some t) :
    (handle a).Sat k (fun code k₁ => code = 0 → ∃ task f id rights r e L₁ m₁,
      MapDone L k a.arg0.toNat a.arg2.toNat a.arg1.toNat t task f id rights r e L₁ m₁ ∧
      UserWrite B L₁ (k.swapped t task a.arg1.toNat ⟨.mapping f id a.arg2.toNat, rights⟩ m₁)
        a.arg4.toNat (usizeBytes a.arg1.toNat) k₁) (fun _ _ => True) := by
  rw [handle, sat_returning, dispatch, hmap]
  refine sysMap_cases h (fun s _ _ hz => absurd hz s.code_pos)
    fun {cur task f id rights r e L₁ m₁} hout hrange hdone _ => ?_
  obtain rfl : t = cur := Option.some.inj (hcur.symm.trans hdone.run.current)
  exact copyVal_write (hdone.inv h) hout.1 ⟨hout.2, hdone.range hrange⟩
    fun k₁ hw _ => ⟨task, f, id, rights, r, e, L₁, m₁, hdone, hw⟩

/-- `sys_unmap` of a mapping returns 0. -/
theorem handle_unmap (h : KInv B L k) {a : SyscallArgs}
    (hunmap : SyscallNumber.tryFrom a.num.toNat = some .unmap) (hcur : k.sched.current = some t)
    (hh : k.handleAt t a.arg0.toNat = some ⟨.mapping f id va, rights⟩) : ∃ task r L₁ m₁,
      UnmapDone L k a.arg0.toNat t task f id va rights r L₁ m₁ ∧
      handle a k = .ok 0 (k.swapped t task a.arg0.toNat ⟨.frame f, rights⟩
        (m₁.handedBack va f)) := by
  have hsat : (handle a).Sat k (fun code k' => ∃ task r L₁ m₁,
      UnmapDone L k a.arg0.toNat t task f id va rights r L₁ m₁ ∧ code = 0 ∧
      k' = k.swapped t task a.arg0.toNat ⟨.frame f, rights⟩ (m₁.handedBack va f))
      Prog.never := by
    rw [handle, sat_returning, dispatch, hunmap]
    refine sysUnmap_cases h (fun hno _ => absurd hh (hno t f id va rights hcur)) ?_
    intro cur task f' id' va' rights' r L₁ m₁ hdone
    obtain rfl : t = cur := Option.some.inj (hcur.symm.trans hdone.run.current)
    have heq := hdone.handle.symm.trans hh
    cases heq
    exact ⟨task, r, L₁, m₁, hdone, rfl, rfl⟩
  obtain ⟨code, k', hr, task, r, L₁, m₁, hdone, rfl, rfl⟩ := hsat.finishes
  exact ⟨task, r, L₁, m₁, hdone, hr⟩

/-- A call in user mode that returns is a step. -/
theorem step_of_handle {a : SyscallArgs} {code : ℕ} (hp : k.pending = none)
    (hcur : k.sched.current = some t) (hr : handle a k = .ok code k') :
    step (.syscall a) k = some (k', some ⟨t, .syscall a, code, k, k'⟩) := by
  have hprog : (Action.syscall a).program k = .ok (some (.syscall a, code)) k' := by
    show Prog.bind (handle a) _ k = _
    rw [Prog.bind, hr]
    rfl
  have hen : (Action.syscall a).enabled k := by simp [Action.enabled, hp]
  rw [step, if_pos hen, hprog, hcur]
  rfl

/-- The page `va` of the address space `id` has been unmapped, its frame is back in slot `i` of
task `t`, and nothing else has changed. -/
structure Unmapped (t i f id va : ℕ) (rights : Rights) (k k' : Kernel) : Prop where
  handle : k'.handleAt t i = some ⟨.frame f, rights⟩
  handles : ∀ t' i', ¬ (t' = t ∧ i' = i) → k'.handleAt t' i' = k.handleAt t' i'
  gone : ∀ s, k'.spaces.get id = some s → s.toPhysical k'.machine.mem va = none
  others : ∀ s a, k.Live s → ¬ (k.spaces.get id = some s ∧ alignDownToFrame a = va) →
    s.root.SameAt k.machine.mem k'.machine.mem a

theorem UnmapDone.unmapped (h : UnmapDone L k i t task f id va rights r L₁ m₁)
    (hk : KInv B L k) : Unmapped t i f id va rights k
      (k.swapped t task i ⟨.frame f, rights⟩ (m₁.handedBack va f)) := by
  have hinv := h.inv hk
  have hset : ∀ t' i', (k.swapped t task i ⟨.frame f, rights⟩ (m₁.handedBack va f)).handleAt t' i' =
      if t' = t ∧ i' = i then some ⟨.frame f, rights⟩ else k.handleAt t' i' :=
    swapped_handleAt h.run (Slots.lt_of_get h.get)
  obtain ⟨_, hv, hal, _⟩ := hk.res.pages.mappings t i f id va rights h.handle
  obtain ⟨s, hs, rfl⟩ := Kernel.rootOf_some.mp h.root
  have hregs := h.post.edit.regs
  refine ⟨by rw [hset, if_pos ⟨rfl, rfl⟩], fun t' i' hne => by rw [hset, if_neg hne], ?_, ?_⟩
  · intro s' hs'
    obtain rfl : s = s' := Option.some.inj (hs.symm.trans hs')
    have hlive := hinv.res.live (.inr ⟨id, hs'⟩)
    rw [AddressSpace.toPhysical, hlive.root, hinv.res.mem.toPhysical_none hlive.typed
      (user_canonical _ hv) (.inr (rootIndex_user _ hv))]
    intro e hl
    refine ((h.post.leaf _ _ e).mp hl).2 ⟨rfl, ?_⟩
    exact congrArg (fun p : PagingConfig => pagePath p.mode va) hregs.paging
  · intro s' a hs' hne
    refine hk.res.sameAt hinv.res ⟨hregs.paging, hregs.directMap⟩ h.post.edit.kroot hs' hs' ?_
    intro hc r' hr' e
    refine (h.post.leaf r' _ e).trans (and_iff_left ?_)
    rintro ⟨rfl, hpath⟩
    rcases hr' with hroot | ⟨hroot, _⟩
    · exact (hk.res.spaces.live id s hs).1 hroot
    · obtain rfl : s = s' := hk.res.live_ext (.inr ⟨id, hs⟩) hs' hroot
      refine hne ⟨hs, ?_⟩
      have hpage := page_of_pagePath hc (user_canonical _ hv) hpath
      simp only [alignDownToFrame, FRAME_SIZE] at hpage hal ⊢
      omega

/-- Every handle, every address space, every translation and every frame is as it was. -/
structure Reverted (k k' : Kernel) : Prop where
  sched : k'.sched = k.sched
  spaces : k'.spaces = k.spaces
  kernelSpace : k'.kernelSpace = k.kernelSpace
  translations : ∀ s a, k.Live s → s.root.SameAt k.machine.mem k'.machine.mem a
  frames : ∀ f, k'.machine.frameState f = k.machine.frameState f
  freeFrames : k'.machine.allocator.freeFrames = k.machine.allocator.freeFrames

/-- The first handle goes back into its slot. -/
theorem swapped_back {handle handle' : Handle} (hrun : Running k t task)
    (hget : task.handles.get i = some handle)
    (hsched : k₁.sched = (k.swapped t task i handle' m).sched)
    (hget₁ : k₁.sched.tasks.get t = some task₁) :
    (k₁.swapped t task₁ i handle m').sched = k.sched := by
  have htask := (Kernel.putTask_get (k := { k with machine := m }) hrun.get t).symm.trans
    (hsched ▸ hget₁)
  rw [if_pos rfl, Option.some.injEq] at htask
  subst htask
  have htasks : (k.sched.tasks.set t (some { task with
      handles := task.handles.set i (some handle') })).set t (some { task with
      handles := (task.handles.set i (some handle')).set i (some handle) }) = k.sched.tasks := by
    have hback : (task.handles.set i (some handle')).set i (some handle) = task.handles := by
      rw [Slots.set_set, Slots.set_self hget]
    rw [Slots.set_set, hback, Slots.set_self hrun.get]
  simp only [Kernel.swapped, Kernel.putTask] at hsched ⊢
  rw [hsched, htasks]

/-- A call that follows at once finds the tables of the mapping as they were made. -/
theorem MapDone.reverted {asHandle r₁ : ℕ} {bytes : List Byte} (h : KInv B L k)
    (hmap : MapDone L k asHandle va i t task f id rights r e L₁ m₁)
    (hw : UserWrite B L₁ (k.swapped t task i ⟨.mapping f id va, rights⟩ m₁) out bytes k₁)
    (hunmap : UnmapDone L₁ k₁ i t task₁ f id va rights r₁ L₃ m₃) :
    Reverted k (k₁.swapped t task₁ i ⟨.frame f, rights⟩ (m₃.handedBack va f)) := by
  have hsched : k₁.sched = (k.swapped t task i ⟨.mapping f id va, rights⟩ m₁).sched := by
    rw [hw.only]
  have hspaces : k₁.spaces = k.spaces := by
    rw [hw.only]
    rfl
  have hkernel : k₁.kernelSpace = k.kernelSpace := by
    rw [hw.only]
    rfl
  have hm₁ : Regs m₁ k₁.machine := by
    rw [hw.only]
    exact withMem_regs _ _
  obtain rfl : r₁ = r := by
    have hroot := hunmap.root
    rw [Kernel.rootOf, hspaces, ← Kernel.rootOf, hmap.root] at hroot
    exact (Option.some.inj hroot).symm
  obtain ⟨rfl, hregs, hleaf⟩ := hmap.post.undo h.res.mem hm₁ hw.inv.res.mem.tree
    (leafAt_words hm₁.paging hw.words) hunmap.post
  have hinv := hunmap.inv hw.inv
  have hcount : (m₃.handedBack va f).frameCount = k.machine.frameCount :=
    congrArg Bitmap.frameCount hregs.bitmap
  obtain ⟨hframes, hfree⟩ := h.res.sameFrames hinv.res hcount
  refine ⟨?_, hspaces, hkernel, fun s a hs => ?_, hframes, hfree⟩
  · exact swapped_back hmap.run hmap.get hsched hunmap.run.get
  · have hs' : (k₁.swapped t task₁ i ⟨.frame f, rights⟩ (m₃.handedBack va f)).Live s := by
      rcases hs with hs | ⟨id', hs⟩
      · exact .inl (hkernel.trans hs)
      · exact .inr ⟨id', (congrArg (fun x => x.get id') hspaces).trans hs⟩
    exact h.res.sameAt hinv.res ⟨hregs.paging, hregs.directMap⟩ rfl hs hs' fun _ r _ e =>
      hleaf r _ e

end Calls

section Runs

/-- A `sys_map` that succeeds turns the frame handle into the mapping and tells its slot. As
long as its task does not unmap it, whatever is called in between, `sys_unmap` brings the
frame back with its rights; at once, it reverts the `sys_map`. -/
theorem map_unmap_reverts (hok : b.Ok) (hk : Reachable b k) {a : SyscallArgs} {c : Completion}
    (hmap : SyscallNumber.tryFrom a.num.toNat = some .map)
    (hstep : step (.syscall a) k = some (k₁, some c)) (hcode : c.code = 0) :
    ∃ id f rights,
      (∃ asRights, k.handleAt c.task a.arg0.toNat = some ⟨.addressSpace id, asRights⟩) ∧
      k.handleAt c.task a.arg1.toNat = some ⟨.frame f, rights⟩ ∧
      k₁.handleAt c.task a.arg1.toNat = some ⟨.mapping f id a.arg2.toNat, rights⟩ ∧
      k₁.machine.loadBytes a.arg4.toNat 8 = some (usizeBytes a.arg1.toNat) ∧
      ∀ as k₂ trace u, run as k₁ = some (k₂, trace) →
        Along (fun x k => ¬ x.Unmaps c.task a.arg1.toNat k) as k₁ →
        k₂.sched.current = some c.task → k₂.pending = none →
        SyscallNumber.tryFrom u.num.toNat = some .unmap → u.arg0 = a.arg1 →
        ∃ k₃ c', step (.syscall u) k₂ = some (k₃, some c') ∧ c'.code = 0 ∧
          Unmapped c.task a.arg1.toNat f id a.arg2.toNat rights k₂ k₃ ∧
          (as = [] → Reverted k k₃) := by
  obtain ⟨B, L, h⟩ := hk.inv hok
  obtain ⟨_, hhandle⟩ := step_handle hstep
  rw [hcode] at hhandle
  obtain ⟨_, _, hc⟩ := step_spec h hstep
  obtain ⟨task, f, id, rights, r, e, L₁, m₁, hdone, hw⟩ :=
    (handle_map h hmap (hc c rfl).2.2.1).of_ok hhandle rfl
  obtain ⟨asRights, htarget⟩ := hdone.target
  have hmapping : k₁.handleAt c.task a.arg1.toNat = some ⟨.mapping f id a.arg2.toNat, rights⟩ := by
    rw [hw.handleAt, swapped_handleAt hdone.run (Slots.lt_of_get hdone.get), if_pos ⟨rfl, rfl⟩]
  refine ⟨id, f, rights, ⟨asRights, by rw [hdone.run.handleAt, htarget]⟩, hdone.handle, hmapping,
    by simpa [usizeBytes] using hw.load, ?_⟩
  intro as k₂ trace u hr hkeep hcur₂ hp₂ hunmap harg
  obtain ⟨L₂, h₂, hhas⟩ := run_along (Q := Kernel.Has c.task a.arg1.toNat
    ⟨.mapping f id a.arg2.toNat, rights⟩) hw.inv
    (fun h hn hs hh => step_keeps h (by simp) hs hn hh) hr hkeep hmapping
  rw [Kernel.Has] at hhas
  rw [← harg] at hhas ⊢
  obtain ⟨task₂, r₂, L₃, m₃, hdone₃, hr₃⟩ := handle_unmap h₂ hunmap hcur₂ hhas
  refine ⟨_, _, step_of_handle hp₂ hcur₂ hr₃, rfl, hdone₃.unmapped h₂, ?_⟩
  rintro rfl
  cases hr
  obtain ⟨task₁, r₁, L₃', m₃', hdone₃', hr₃'⟩ := handle_unmap hw.inv hunmap hcur₂ hhas
  rw [hr₃] at hr₃'
  injection hr₃' with _ heq
  rw [heq, harg]
  rw [harg] at hdone₃'
  exact hdone.reverted h hw hdone₃'

end Runs

section Example

/-- A frame is allocated. -/
def pairRun : List Action := [.resume, .syscall ⟨6, 0x7FFF_FFFF_E000, 0, 0, 0, 0⟩]

def pairMap : SyscallArgs := ⟨9, 0, 2, 0x700000, 1, 0x7FFF_FFFF_E000⟩

/-- Another frame is allocated, mapped and unmapped, and another task allocates one too. -/
def pairBetween : List Action :=
  [.syscall ⟨6, 0x7FFF_FFFF_E000, 0, 0, 0, 0⟩,
    .syscall ⟨9, 0, 3, 0x800000, 1, 0x7FFF_FFFF_E000⟩, .syscall ⟨10, 3, 0, 0, 0, 0⟩,
    .syscall ⟨11, 0, 0x400000, 0x7FFF_FFFF_F000, 0x7FFF_FFFF_E000, 0⟩,
    .syscall ⟨1, 0, 0, 0, 0, 0⟩, .resume, .syscall ⟨6, 0x7FFF_FFFF_E000, 0, 0, 0, 0⟩,
    .syscall ⟨1, 0, 0, 0, 0, 0⟩, .resume]

def pairUnmap : SyscallArgs := ⟨10, 2, 0, 0, 0, 0⟩

/-- The task 0 runs in user mode. -/
def Kernel.inFirst (k : Kernel) : Bool := decide (k.sched.current = some 0 ∧ k.pending = none)

theorem pairRun_maps : (((smallBoot []).started.bind (run pairRun)).any fun r =>
    (step (.syscall pairMap) r.1).any fun r₁ => r₁.2.any (fun c => c.code == 0 && c.task == 0) &&
      r₁.1.inFirst && (run pairBetween r₁.1).any fun r₂ => r₂.1.inFirst) = true := by
  decide +kernel

theorem map_unmap_reverts_small : ∃ k k₁ k₂ k₃ k₃' c trace id f rights,
    Reachable (smallBoot []) k ∧ step (.syscall pairMap) k = some (k₁, some c) ∧ c.code = 0 ∧
    k₁.handleAt 0 2 = some ⟨.mapping f id 0x700000, rights⟩ ∧
    (∃ c', step (.syscall pairUnmap) k₁ = some (k₃, some c')) ∧ Reverted k k₃ ∧
    run pairBetween k₁ = some (k₂, trace) ∧
    (∃ c', step (.syscall pairUnmap) k₂ = some (k₃', some c')) ∧
    Unmapped 0 2 f id 0x700000 rights k₂ k₃' := by
  obtain ⟨k₀, k, trace₀, hk₀, hr, hmaps⟩ := run_of_any pairRun_maps
  have hk : Reachable (smallBoot []) k := ⟨k₀, pairRun, trace₀, hk₀, hr⟩
  obtain ⟨⟨k₁, done⟩, hstep, hrest⟩ := (Option.any_eq_true _ _).mp hmaps
  simp only [Bool.and_eq_true] at hrest
  obtain ⟨⟨hdone, hfirst₁⟩, hbetween⟩ := hrest
  obtain ⟨c, rfl, hc⟩ := (Option.any_eq_true _ _).mp hdone
  obtain ⟨⟨k₂, trace⟩, hrun, hfirst₂⟩ := (Option.any_eq_true _ _).mp hbetween
  simp only [Bool.and_eq_true, beq_iff_eq] at hc
  obtain ⟨hcode, htask⟩ := hc
  have hfirst : ∀ {k : Kernel}, k.inFirst = true →
      k.sched.current = some c.task ∧ k.pending = none := fun hk => htask ▸ of_decide_eq_true hk
  obtain ⟨id, f, rights, _, _, hmapping, _, hafter⟩ :=
    map_unmap_reverts (smallBoot_ok []) hk (by decide) hstep hcode
  have hkeep : ∀ a ∈ pairBetween, ∀ k, ¬ a.Unmaps c.task pairMap.arg1.toNat k := by
    simp [pairBetween, Action.Unmaps, SyscallNumber.tryFrom, pairMap]
  obtain ⟨k₃, c₃, hs₃, _, _, hreverted⟩ := hafter [] k₁ [] pairUnmap rfl trivial
    (hfirst hfirst₁).1 (hfirst hfirst₁).2 (by decide) rfl
  obtain ⟨k₃', c₃', hs₃', _, hunmapped, _⟩ := hafter pairBetween k₂ trace pairUnmap hrun
    (along_of_forall hkeep) (hfirst hfirst₂).1 (hfirst hfirst₂).2 (by decide) rfl
  rw [htask] at hmapping hunmapped
  exact ⟨k, k₁, k₂, k₃, k₃', c, trace, id, f, rights, hk, hstep, hcode, hmapping, ⟨c₃, hs₃⟩,
    hreverted rfl, hrun, ⟨c₃', hs₃'⟩, hunmapped⟩

end Example

end Dusk
