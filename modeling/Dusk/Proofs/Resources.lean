import Dusk.Proofs.Stack
import Dusk.Proofs.Dispatch

/-! Who holds what: the frames of handles, of user pages and of kernel stacks. The
roles of the layout say it for every frame at once, so that no frame is held twice. -/

namespace Dusk

open Lib Radix

namespace Kernel

/-- The handle in a slot of a task. -/
def handleAt (k : Kernel) (t h : ℕ) : Option Handle :=
  (k.sched.tasks.get t).bind fun task => task.handles.get h

def stackOf (k : Kernel) (t : ℕ) : Option KernelStack :=
  (k.sched.tasks.get t).map Tcb.kernelStack

/-- The root of an address space. -/
def rootOf (k : Kernel) (id : ℕ) : Option ℕ := (k.spaces.get id).map fun s => s.root.frame

theorem handleAt_some {k : Kernel} {t h : ℕ} {handle : Handle} :
    k.handleAt t h = some handle ↔
      ∃ task, k.sched.tasks.get t = some task ∧ task.handles.get h = some handle := by
  simp [handleAt, Option.bind_eq_some_iff]

theorem stackOf_some {k : Kernel} {t : ℕ} {s : KernelStack} :
    k.stackOf t = some s ↔ ∃ task, k.sched.tasks.get t = some task ∧ task.kernelStack = s := by
  simp [stackOf]

theorem rootOf_some {k : Kernel} {id r : ℕ} :
    k.rootOf id = some r ↔ ∃ s, k.spaces.get id = some s ∧ s.root.frame = r := by
  simp [rootOf]

end Kernel

/-- What the boot has mapped: the user pages of the first task, below its root, and a
page of the kernel image. -/
structure BootPages where
  root : ℕ
  entry : ℕ → Option Word
  anchor : ℕ

/-- The leaf at `v` is what some handle stands for. -/
def Named (k : Kernel) (r v : ℕ) (e : Word) : Prop :=
  ∃ t h id rights, k.handleAt t h =
    some ⟨.mapping (entryFrame k.machine.paging e) id v, rights⟩ ∧ k.rootOf id = some r

/-- The address spaces. -/
structure SpacesInv (B : BootPages) (L : Layout) (k : Kernel) : Prop where
  kernel : k.kernelSpace = some ⟨k.machine.table L.kroot, .kernel⟩
  live : ∀ id s, k.spaces.get id = some s → s.root.frame ≠ L.kroot ∧
    SpaceOf L k.machine s s.root.frame
  inj : ∀ id id' r, k.rootOf id = some r → k.rootOf id' = some r → id = id'
  boot : ∃ id, k.rootOf id = some B.root

/-- Frame and mapping handles, and the pages of the user halves. -/
structure PagesInv (B : BootPages) (L : Layout) (k : Kernel) : Prop where
  frames : ∀ t h f rights, k.handleAt t h = some ⟨.frame f, rights⟩ →
    L.role f = .data (.handle t h)
  mappings : ∀ t h f id v rights, k.handleAt t h = some ⟨.mapping f id v, rights⟩ →
    L.role f = .data (.handle t h) ∧ v < USER_SPACE_END ∧ v % FRAME_SIZE = 0 ∧
    ∃ r e, k.rootOf id = some r ∧ LeafAt L k.machine r (pagePath k.machine.paging.mode v) e ∧
      entryFrame k.machine.paging e = f
  names : ∀ t h id rights, k.handleAt t h = some ⟨.addressSpace id, rights⟩ →
    ∃ r, k.rootOf id = some r
  user : ∀ r q e i, LeafAt L k.machine r q e → q.getLast? = some i → i < 256 →
    ∃ v < USER_SPACE_END, v % FRAME_SIZE = 0 ∧ q = pagePath k.machine.paging.mode v ∧
      (Named k r v e ∨ r = B.root ∧ B.entry v = some e)
  boot : ∀ v e, B.entry v = some e → v < USER_SPACE_END ∧ v % FRAME_SIZE = 0 ∧
    LeafAt L k.machine B.root (pagePath k.machine.paging.mode v) e ∧
    (L.role (entryFrame k.machine.paging e) = .data (.boot v) ∨
      L.role (entryFrame k.machine.paging e) = .window v)

/-- The kernel stacks of the tasks and the pool they come from. -/
structure StacksInv (B : BootPages) (L : Layout) (k : Kernel) : Prop where
  ready : ∀ t s, k.stackOf t = some s → ∃ slot, s = stackAt slot ∧
    StackReady L k.machine slot ∧ k.sched.stackPool.used slot = true
  inj : ∀ t t' s, k.stackOf t = some s → k.stackOf t' = some s → t = t'
  leaves : ∀ slot i e, slot < 64 → i ≤ KERNEL_STACK_PAGES →
    LeafAt L k.machine L.kroot (pagePath k.machine.paging.mode (slotBase slot + i * FRAME_SIZE)) e →
    L.role (entryFrame k.machine.paging e) = .data (.stack (slotBase slot + i * FRAME_SIZE))
  unused : ∀ slot i e, slot < 64 → i ≤ KERNEL_STACK_PAGES →
    k.sched.stackPool.used slot = false → ¬ LeafAt L k.machine L.kroot
      (pagePath k.machine.paging.mode (slotBase slot + i * FRAME_SIZE)) e
  anchor : Anchor L k.machine B.anchor

structure ResInv (B : BootPages) (L : Layout) (k : Kernel) : Prop where
  mem : MemInv noPages L k.machine
  spaces : SpacesInv B L k
  pages : PagesInv B L k
  kstacks : StacksInv B L k

variable {B : BootPages} {L L' : Layout} {k k' : Kernel}

namespace SpacesInv

theorem root (h : SpacesInv B L k) {id r : ℕ} (hr : k.rootOf id = some r) :
    r ≠ L.kroot ∧ L.role r = .table r [] := by
  obtain ⟨s, hs, rfl⟩ := Kernel.rootOf_some.mp hr
  obtain ⟨hne, hsp⟩ := h.live id s hs
  exact ⟨hne, hsp.typed⟩

theorem congr (h : SpacesInv B L k) (hk : L'.kroot = L.kroot)
    (htable : ∀ r, k'.machine.table r = k.machine.table r)
    (hroles : ∀ r, L.role r = .table r [] → L'.role r = .table r [])
    (hkernel : k'.kernelSpace = k.kernelSpace) (hspaces : k'.spaces = k.spaces) :
    SpacesInv B L' k' := by
  have hroot : ∀ id, k'.rootOf id = k.rootOf id := fun id => by
    rw [Kernel.rootOf, hspaces, Kernel.rootOf]
  refine ⟨?_, ?_, ?_, ?_⟩
  · rw [hkernel, htable, hk, h.kernel]
  · intro id s hs
    rw [hspaces] at hs
    obtain ⟨hne, hsp⟩ := h.live id s hs
    exact ⟨by rwa [hk], by rw [htable]; exact hsp.root, hroles _ hsp.typed,
      by rw [hk]; exact hsp.kind⟩
  · intro id id' r
    rw [hroot, hroot]
    exact h.inj id id' r
  · obtain ⟨id, hid⟩ := h.boot
    exact ⟨id, by rw [hroot, hid]⟩

end SpacesInv

/-- The roles of frames that user pages and handles rely on. -/
def Role.Held (ρ : Role) : Prop :=
  (∃ t h, ρ = .data (.handle t h)) ∨ (∃ v, ρ = .data (.boot v)) ∨ ∃ v, ρ = .window v

namespace PagesInv

/-- The user halves stay as they are, and handles that stand for no page may change. -/
theorem update (h : PagesInv B L k) (hp : k'.machine.paging = k.machine.paging)
    (hroot : ∀ id r, k.rootOf id = some r → k'.rootOf id = some r)
    (hroles : ∀ f, (L.role f).Held → L'.role f = L.role f)
    (hleaf : ∀ r q e i, q.getLast? = some i → i < 256 →
      (LeafAt L' k'.machine r q e ↔ LeafAt L k.machine r q e))
    (hframes : ∀ t h f rights, k'.handleAt t h = some ⟨.frame f, rights⟩ →
      L'.role f = .data (.handle t h))
    (hmaps : ∀ t h f id v rights, k'.handleAt t h = some ⟨.mapping f id v, rights⟩ ↔
      k.handleAt t h = some ⟨.mapping f id v, rights⟩)
    (hnames : ∀ t h id rights, k'.handleAt t h = some ⟨.addressSpace id, rights⟩ →
      ∃ r, k'.rootOf id = some r) : PagesInv B L' k' := by
  refine ⟨hframes, ?_, hnames, ?_, ?_⟩
  · intro t i f id v rights hh
    rw [hmaps] at hh
    obtain ⟨hrole, hv, hal, r, e, hr, hl, he⟩ := h.mappings t i f id v rights hh
    refine ⟨?_, hv, hal, r, e, hroot id r hr, ?_, by rw [hp, he]⟩
    · rw [hroles f (.inl ⟨t, i, hrole⟩), hrole]
    · rw [hp, hleaf r _ e _ (pagePath_getLast _ _) (rootIndex_user _ hv)]
      exact hl
  · intro r q e i hl hq hi
    rw [hleaf r q e i hq hi] at hl
    obtain ⟨v, hv, hal, hpath, hcase⟩ := h.user r q e i hl hq hi
    refine ⟨v, hv, hal, by rw [hp, hpath], ?_⟩
    rcases hcase with ⟨t, j, id, rights, hh, hr⟩ | hboot
    · left
      refine ⟨t, j, id, rights, ?_, hroot id r hr⟩
      rw [hmaps, hp, hh]
    · exact .inr hboot
  · intro v e hb
    obtain ⟨hv, hal, hl, hrole⟩ := h.boot v e hb
    refine ⟨hv, hal, ?_, ?_⟩
    · rw [hp, hleaf _ _ e _ (pagePath_getLast _ _) (rootIndex_user _ hv)]
      exact hl
    · rw [hp, hroles]
      · exact hrole
      · rcases hrole with hrole | hrole
        · exact .inr (.inl ⟨v, hrole⟩)
        · exact .inr (.inr ⟨v, hrole⟩)

theorem congr (h : PagesInv B L k) (hp : k'.machine.paging = k.machine.paging)
    (hroot : ∀ id r, k.rootOf id = some r → k'.rootOf id = some r)
    (hroles : ∀ f, (L.role f).Held → L'.role f = L.role f)
    (hleaf : ∀ r q e i, q.getLast? = some i → i < 256 →
      (LeafAt L' k'.machine r q e ↔ LeafAt L k.machine r q e))
    (hhandles : ∀ t h, k'.handleAt t h = k.handleAt t h) : PagesInv B L' k' := by
  refine h.update hp hroot hroles hleaf ?_ ?_ ?_
  · intro t i f rights hh
    rw [hhandles] at hh
    have hrole := h.frames t i f rights hh
    rw [hroles f (.inl ⟨t, i, hrole⟩), hrole]
  · intro t i f id v rights
    rw [hhandles]
  · intro t i id rights hh
    rw [hhandles] at hh
    obtain ⟨r, hr⟩ := h.names t i id rights hh
    exact ⟨r, hroot id r hr⟩

end PagesInv

theorem Anchor.congr {m m' : Machine} {a : ℕ} (h : Anchor L m a) (hk : L'.kroot = L.kroot)
    (hp : m'.paging = m.paging)
    (hleaf : ∀ e, LeafAt L m L.kroot (pagePath m.paging.mode a) e →
      LeafAt L' m' L.kroot (pagePath m.paging.mode a) e) : Anchor L' m' a := by
  obtain ⟨e, hl⟩ := h.leaf
  exact ⟨h.top, h.aligned, e, by rw [hk, hp]; exact hleaf e hl⟩

theorem StackReady.congr {m m' : Machine} {slot : ℕ} (h : StackReady L m slot)
    (hk : L'.kroot = L.kroot) (hp : m'.paging = m.paging)
    (hroles : ∀ f v, L.role f = .data (.stack v) → L'.role f = .data (.stack v))
    (hleaf : ∀ q e, LeafAt L' m' L.kroot q e ↔ LeafAt L m L.kroot q e) :
    StackReady L' m' slot := by
  refine ⟨h.bound, ?_, ?_⟩
  · intro i hi
    obtain ⟨e, hl, hrole⟩ := h.pages i hi
    rw [hk]
    exact ⟨e, by rw [hp, hleaf]; exact hl, by rw [hp]; exact hroles _ _ hrole⟩
  · intro e
    rw [hk, hp, hleaf]
    exact h.guard e

/-- The kernel half stays as it is, and the pool only grows. -/
theorem StacksInv.congr (h : StacksInv B L k) (hk : L'.kroot = L.kroot)
    (hp : k'.machine.paging = k.machine.paging)
    (hroles : ∀ f v, L.role f = .data (.stack v) → L'.role f = .data (.stack v))
    (hleaf : ∀ q e, LeafAt L' k'.machine L.kroot q e ↔ LeafAt L k.machine L.kroot q e)
    (hs : ∀ t, k'.stackOf t = k.stackOf t)
    (hpool : ∀ s, k.sched.stackPool.used s = true → k'.sched.stackPool.used s = true) :
    StacksInv B L' k' := by
  refine ⟨?_, ?_, ?_, ?_, h.anchor.congr hk hp fun e => (hleaf _ e).mpr⟩
  · intro t s ht
    rw [hs] at ht
    obtain ⟨slot, he, hready, hused⟩ := h.ready t s ht
    exact ⟨slot, he, hready.congr hk hp hroles hleaf, hpool slot hused⟩
  · intro t t' s
    rw [hs, hs]
    exact h.inj t t' s
  · intro slot i e hslot hi hl
    rw [hk, hp, hleaf] at hl
    rw [hp]
    exact hroles _ _ (h.leaves slot i e hslot hi hl)
  · intro slot i e hslot hi hunused
    rw [hk, hp, hleaf]
    refine h.unused slot i e hslot hi ?_
    cases hu : k.sched.stackPool.used slot with
    | false => rfl
    | true => rw [hpool slot hu] at hunused; cases hunused

/-- Frames in use keep their roles. -/
structure RolesKept (L L' : Layout) : Prop where
  kroot : L'.kroot = L.kroot
  roots : ∀ r, L.role r = .table r [] → L'.role r = .table r []
  held : ∀ f, (L.role f).Held → L'.role f = L.role f
  kstack : ∀ f v, L.role f = .data (.stack v) → L'.role f = .data (.stack v)

theorem RolesKept.refl (L : Layout) : RolesKept L L :=
  ⟨rfl, fun _ h => h, fun _ _ => rfl, fun _ _ h => h⟩

/-- The role of one frame that nobody uses changes. -/
theorem RolesKept.set {f : ℕ} {ρ : Role} (hroot : L.role f ≠ .table f [])
    (hheld : ¬ (L.role f).Held) (hstack : ∀ v, L.role f ≠ .data (.stack v)) :
    RolesKept L (L.set f ρ) := by
  have hne : ∀ {g}, (L.role g = L.role f → False) → (L.set f ρ).role g = L.role g := by
    intro g hg
    apply Layout.set_role_of_ne
    rintro rfl
    exact hg rfl
  refine ⟨rfl, ?_, ?_, ?_⟩
  · intro r hr
    rw [Layout.set_role_of_ne, hr]
    rintro rfl
    exact hroot hr
  · intro g hg
    exact hne fun he => hheld (he ▸ hg)
  · intro g v hg
    rw [hne, hg]
    intro he
    exact hstack v (he ▸ hg)

theorem RolesKept.trans {L'' : Layout} (h : RolesKept L L') (h' : RolesKept L' L'') :
    RolesKept L L'' := by
  refine ⟨h'.kroot.trans h.kroot, fun r hr => h'.roots r (h.roots r hr), ?_,
    fun f v hf => h'.kstack f v (h.kstack f v hf)⟩
  intro f hf
  have he := h.held f hf
  rw [h'.held f (by rwa [he]), he]

theorem not_lent_held {r : ℕ} {ρ : Role} (h : ρ.Held) : ¬ Role.Lent r ρ := by
  rintro (rfl | ⟨p, _, rfl⟩) <;> rcases h with ⟨_, _, h⟩ | ⟨_, h⟩ | ⟨_, h⟩ <;> cases h

theorem Edit.rolesKept {r : ℕ} {m m' : Machine} (h : Edit (Role.Lent r) r L m L' m') :
    RolesKept L L' := by
  refine ⟨h.kroot, ?_, fun f hf => h.role_eq (not_lent_held hf), ?_⟩
  · intro r' hr'
    rw [h.role_eq (by rw [hr']; exact not_lent_root), hr']
  · intro f v hf
    rw [h.role_eq (by rw [hf]; exact not_lent_data), hf]

/-- What the invariant reads of a kernel besides memory and handles. -/
structure SameHolders (k k' : Kernel) : Prop where
  kernelSpace : k'.kernelSpace = k.kernelSpace
  spaces : k'.spaces = k.spaces
  stackOf : ∀ t, k'.stackOf t = k.stackOf t
  pool : k'.sched.stackPool = k.sched.stackPool

theorem SameHolders.refl (k : Kernel) : SameHolders k k := ⟨rfl, rfl, fun _ => rfl, rfl⟩

theorem SameHolders.trans {k'' : Kernel} (h : SameHolders k k') (h' : SameHolders k' k'') :
    SameHolders k k'' :=
  ⟨h'.kernelSpace.trans h.kernelSpace, h'.spaces.trans h.spaces,
    fun t => (h'.stackOf t).trans (h.stackOf t), h'.pool.trans h.pool⟩

theorem SameHolders.rootOf (h : SameHolders k k') (id : ℕ) : k'.rootOf id = k.rootOf id := by
  rw [Kernel.rootOf, h.spaces, Kernel.rootOf]

namespace ResInv

/-- Memory changes without touching the leaves, and handles that stand for no page may
change too. -/
theorem update (h : ResInv B L k) (hmem : MemInv noPages L' k'.machine)
    (hkept : RolesKept L L') (ht : SameTables k.machine k'.machine)
    (hleaf : ∀ r q e, LeafAt L' k'.machine r q e ↔ LeafAt L k.machine r q e)
    (hs : SameHolders k k')
    (hframes : ∀ t h f rights, k'.handleAt t h = some ⟨.frame f, rights⟩ →
      L'.role f = .data (.handle t h))
    (hmaps : ∀ t h f id v rights, k'.handleAt t h = some ⟨.mapping f id v, rights⟩ ↔
      k.handleAt t h = some ⟨.mapping f id v, rights⟩)
    (hnames : ∀ t h id rights, k'.handleAt t h = some ⟨.addressSpace id, rights⟩ →
      ∃ r, k.rootOf id = some r) : ResInv B L' k' := by
  refine ⟨hmem, ?_, ?_, ?_⟩
  · exact h.spaces.congr hkept.kroot ht.table hkept.roots hs.kernelSpace hs.spaces
  · refine h.pages.update ht.paging (fun id r hr => by rw [hs.rootOf, hr]) hkept.held
      (fun r q e _ _ _ => hleaf r q e) hframes hmaps ?_
    intro t i id rights hh
    rw [hs.rootOf]
    exact hnames t i id rights hh
  · exact h.kstacks.congr hkept.kroot ht.paging hkept.kstack (fun q e => hleaf _ q e) hs.stackOf
      (fun s hu => by rw [hs.pool, hu])

/-- The same with the same handles. -/
theorem memory (h : ResInv B L k) (hmem : MemInv noPages L' k'.machine)
    (hkept : RolesKept L L') (ht : SameTables k.machine k'.machine)
    (hleaf : ∀ r q e, LeafAt L' k'.machine r q e ↔ LeafAt L k.machine r q e)
    (hs : SameHolders k k') (hhandles : ∀ t h, k'.handleAt t h = k.handleAt t h) :
    ResInv B L' k' := by
  refine h.update hmem hkept ht hleaf hs ?_ ?_ ?_
  · intro t i f rights hh
    rw [hhandles] at hh
    have hrole := h.pages.frames t i f rights hh
    rw [hkept.held f (.inl ⟨t, i, hrole⟩), hrole]
  · intro t i f id v rights
    rw [hhandles]
  · intro t i id rights hh
    rw [hhandles] at hh
    exact h.pages.names t i id rights hh

/-- Memory stays. -/
theorem quiet (h : ResInv B L k) (hmem : MemInv noPages L k'.machine)
    (ht : SameTables k.machine k'.machine) (hwords : k'.machine.mem = k.machine.mem)
    (hs : SameHolders k k') (hhandles : ∀ t h, k'.handleAt t h = k.handleAt t h) :
    ResInv B L k' :=
  h.memory hmem (RolesKept.refl L) ht
    (leafAt_congr rfl rfl ht.paging (fun _ _ _ _ => by rw [hwords])) hs hhandles

/-- A handle of a task changes, and neither the old nor the new one stands for a page. -/
theorem setHandle (h : ResInv B L k) {t i : ℕ} {new : Option Handle}
    (hm : k'.machine = k.machine) (hs : SameHolders k k')
    (hhandles : ∀ t' i', k'.handleAt t' i' =
      if t' = t ∧ i' = i then new else k.handleAt t' i')
    (hold : ∀ f id v rights, k.handleAt t i ≠ some ⟨.mapping f id v, rights⟩)
    (hframe : ∀ f rights, new ≠ some ⟨.frame f, rights⟩)
    (hmapping : ∀ f id v rights, new ≠ some ⟨.mapping f id v, rights⟩)
    (hname : ∀ id rights, new = some ⟨.addressSpace id, rights⟩ → ∃ r, k.rootOf id = some r) :
    ResInv B L k' := by
  refine h.update (by rw [hm]; exact h.mem) (RolesKept.refl L) ⟨by rw [hm], by rw [hm]⟩
    (fun r q e => by rw [hm]) hs ?_ ?_ ?_
  · intro t' i' f rights hh
    rw [hhandles] at hh
    split_ifs at hh with he
    · exact absurd hh (hframe f rights)
    · exact h.pages.frames t' i' f rights hh
  · intro t' i' f id v rights
    rw [hhandles]
    split_ifs with he
    · obtain ⟨rfl, rfl⟩ := he
      exact iff_of_false (hmapping f id v rights) (hold f id v rights)
    · exact Iff.rfl
  · intro t' i' id rights hh
    rw [hhandles] at hh
    split_ifs at hh with he
    · exact hname id rights hh
    · exact h.pages.names t' i' id rights hh

/-- A new frame goes into an empty slot. -/
theorem frameAlloc (h : ResInv B L k) {t i f : ℕ} {rights : Rights}
    (ht : Taken noPages L k.machine f k'.machine) (hempty : k.handleAt t i = none)
    (hs : SameHolders k k')
    (hhandles : ∀ t' i', k'.handleAt t' i' =
      if t' = t ∧ i' = i then some ⟨.frame f, rights⟩ else k.handleAt t' i') :
    ResInv B (L.set f (.data (.handle t i))) k' := by
  have hkept : RolesKept L (L.set f (.data (.handle t i))) := by
    refine RolesKept.set (by simp [ht.free]) ?_ (by simp [ht.free])
    rw [ht.free]
    rintro (⟨_, _, h⟩ | ⟨_, h⟩ | ⟨_, h⟩) <;> cases h
  refine h.update (ht.owned _) hkept ht.only.regs.sameTables (ht.leaf_owned _) hs ?_ ?_ ?_
  · intro t' i' f' rights' hh
    rw [hhandles] at hh
    split_ifs at hh with he
    · obtain ⟨rfl, rfl⟩ := he
      cases hh
      exact Layout.set_role_self L f _
    · have hrole := h.pages.frames t' i' f' rights' hh
      rw [hkept.held f' (.inl ⟨t', i', hrole⟩), hrole]
  · intro t' i' f' id v rights'
    rw [hhandles]
    split_ifs with he
    · obtain ⟨rfl, rfl⟩ := he
      rw [hempty]
      simp
    · exact Iff.rfl
  · intro t' i' id rights' hh
    rw [hhandles] at hh
    split_ifs at hh with he
    · simp at hh
    · exact h.pages.names t' i' id rights' hh

/-- A frame handle is given up and its frame released. -/
theorem frameDealloc (h : ResInv B L k) {t i f : ℕ} {rights : Rights}
    (hh : k.handleAt t i = some ⟨.frame f, rights⟩) (hg : Given noPages L k.machine f k'.machine)
    (hs : SameHolders k k')
    (hhandles : ∀ t' i', k'.handleAt t' i' =
      if t' = t ∧ i' = i then none else k.handleAt t' i') :
    ResInv B (L.set f .free) k' := by
  have hrole := h.pages.frames t i f rights hh
  have hne : ∀ {g}, L.role g ≠ .data (.handle t i) → (L.set f .free).role g = L.role g := by
    intro g hg'
    apply Layout.set_role_of_ne
    rintro rfl
    exact hg' hrole
  have hpages : ∀ t' i' g, ¬ (t' = t ∧ i' = i) → L.role g = .data (.handle t' i') →
      (L.set f .free).role g = .data (.handle t' i') := by
    intro t' i' g hti hg'
    rw [hne, hg']
    rw [hg']
    simpa using hti
  have hmapping : ∀ f id v rights, k.handleAt t i ≠ some ⟨.mapping f id v, rights⟩ := by
    rw [hh]
    simp
  refine ⟨hg.inv, ?_, ?_, ?_⟩
  · refine h.spaces.congr rfl hg.only.regs.sameTables.table ?_ hs.kernelSpace hs.spaces
    intro r hr
    rw [hne (by simp [hr]), hr]
  · refine ⟨?_, ?_, ?_, ?_, ?_⟩
    · intro t' i' f' rights' hh'
      rw [hhandles] at hh'
      split_ifs at hh' with he
      exact hpages t' i' f' he (h.pages.frames t' i' f' rights' hh')
    · intro t' i' f' id v rights' hh'
      rw [hhandles] at hh'
      split_ifs at hh' with he
      obtain ⟨hr', hv, hal, r, e, hr, hl, hf'⟩ := h.pages.mappings t' i' f' id v rights' hh'
      exact ⟨hpages t' i' f' he hr', hv, hal, r, e, by rw [hs.rootOf, hr],
        by rw [hg.only.regs.paging, hg.leaf]; exact hl, by rw [hg.only.regs.paging, hf']⟩
    · intro t' i' id rights' hh'
      rw [hhandles] at hh'
      split_ifs at hh' with he
      rw [hs.rootOf]
      exact h.pages.names t' i' id rights' hh'
    · intro r q e j hl hq hj
      rw [hg.leaf] at hl
      obtain ⟨v, hv, hal, hpath, hcase⟩ := h.pages.user r q e j hl hq hj
      refine ⟨v, hv, hal, by rw [hg.only.regs.paging, hpath], hcase.imp ?_ id⟩
      rintro ⟨t', i', id, rights', hh', hr⟩
      refine ⟨t', i', id, rights', ?_, by rw [hs.rootOf, hr]⟩
      rw [hhandles, if_neg, hg.only.regs.paging, hh']
      rintro ⟨rfl, rfl⟩
      exact hmapping _ _ _ _ hh'
    · intro v e hb
      obtain ⟨hv, hal, hl, hcase⟩ := h.pages.boot v e hb
      refine ⟨hv, hal, by rw [hg.only.regs.paging, hg.leaf]; exact hl, ?_⟩
      rw [hg.only.regs.paging, hne]
      · exact hcase
      · rcases hcase with hc | hc <;> simp [hc]
  · refine h.kstacks.congr rfl hg.only.regs.paging ?_ (fun q e => hg.leaf _ q e) hs.stackOf
      (fun s hu => by rw [hs.pool, hu])
    intro g v hg'
    rw [hne (by simp [hg']), hg']

/-- A frame handle turns into the mapping of a new page. -/
theorem mapPage (h : ResInv B L k) {t i f id r v : ℕ} {rights : Rights} {e : Word}
    (hh : k.handleAt t i = some ⟨.frame f, rights⟩) (hr : k.rootOf id = some r)
    (hv : v < USER_SPACE_END) (hal : v % FRAME_SIZE = 0)
    (he : entryFrame k.machine.paging e = f)
    (hpost : MapPost False L k.machine r v f e (.ok ()) L' k'.machine) (hs : SameHolders k k')
    (hhandles : ∀ t' i', k'.handleAt t' i' =
      if t' = t ∧ i' = i then some ⟨.mapping f id v, rights⟩ else k.handleAt t' i') :
    ResInv B L' k' := by
  have hrole := h.pages.frames t i f rights hh
  have hkept := hpost.edit.rolesKept
  have ht := hpost.edit.regs.sameTables
  have hne := (h.spaces.root hr).1
  obtain ⟨_, _, _, hnone, hleaf⟩ := hpost.done rfl
  have hold : ∀ t' i', ∀ f' id' v' rights', k.handleAt t' i' = some ⟨.mapping f' id' v', rights'⟩ →
      ¬ (t' = t ∧ i' = i) := by
    rintro t' i' f' id' v' rights' hh' ⟨rfl, rfl⟩
    rw [hh] at hh'
    cases hh'
  refine ⟨hpost.inv, ?_, ⟨?_, ?_, ?_, ?_, ?_⟩, ?_⟩
  · exact h.spaces.congr hkept.kroot ht.table hkept.roots hs.kernelSpace hs.spaces
  · intro t' i' f' rights' hh'
    rw [hhandles] at hh'
    split_ifs at hh' with hti
    · cases hh'
    · have hr' := h.pages.frames t' i' f' rights' hh'
      rw [hkept.held f' (.inl ⟨t', i', hr'⟩), hr']
  · intro t' i' f' id' v' rights' hh'
    rw [hhandles] at hh'
    split_ifs at hh' with hti
    · obtain ⟨rfl, rfl⟩ := hti
      cases hh'
      refine ⟨by rw [hkept.held f (.inl ⟨_, _, hrole⟩), hrole], hv, hal, r, e,
        by rw [hs.rootOf, hr], ?_, by rw [ht.paging, he]⟩
      rw [ht.paging, hleaf, if_pos ⟨rfl, rfl⟩]
    · obtain ⟨hr', hv', hal', r', e', hroot', hl, hf'⟩ :=
        h.pages.mappings t' i' f' id' v' rights' hh'
      refine ⟨by rw [hkept.held f' (.inl ⟨_, _, hr'⟩), hr'], hv', hal', r', e',
        by rw [hs.rootOf, hroot'], ?_, by rw [ht.paging, hf']⟩
      rw [ht.paging, hleaf, if_neg]
      · exact hl
      rintro ⟨rfl, hpath⟩
      rw [hpath] at hl
      exact hnone e' hl
  · intro t' i' id' rights' hh'
    rw [hhandles] at hh'
    rw [hs.rootOf]
    split_ifs at hh' with hti
    · cases hh'
    · exact h.pages.names t' i' id' rights' hh'
  · intro r' q e' j hl hq hj
    rw [hleaf] at hl
    split_ifs at hl with hnew
    · obtain ⟨rfl, rfl⟩ := hnew
      subst hl
      refine ⟨v, hv, hal, by rw [ht.paging], .inl ⟨t, i, id, rights, ?_, by rw [hs.rootOf, hr]⟩⟩
      rw [hhandles, if_pos ⟨rfl, rfl⟩, ht.paging, he]
    · obtain ⟨v', hv', hal', hpath, hcase⟩ := h.pages.user r' q e' j hl hq hj
      refine ⟨v', hv', hal', by rw [ht.paging, hpath], hcase.imp ?_ fun hb => hb⟩
      rintro ⟨t', i', id', rights', hh', hr'⟩
      refine ⟨t', i', id', rights', ?_, by rw [hs.rootOf, hr']⟩
      rw [hhandles, if_neg (hold _ _ _ _ _ _ hh'), ht.paging, hh']
  · intro v' e' hb
    obtain ⟨hv', hal', hl, hcase⟩ := h.pages.boot v' e' hb
    refine ⟨hv', hal', ?_, ?_⟩
    · rw [ht.paging, hleaf, if_neg]
      · exact hl
      rintro ⟨hroot, hpath⟩
      rw [hpath, hroot] at hl
      exact hnone e' hl
    · rw [ht.paging, hkept.held]
      · exact hcase
      · rcases hcase with hc | hc
        · exact .inr (.inl ⟨v', hc⟩)
        · exact .inr (.inr ⟨v', hc⟩)
  · refine h.kstacks.congr hkept.kroot ht.paging hkept.kstack ?_ hs.stackOf
      (fun s hu => by rw [hs.pool, hu])
    intro q e'
    rw [hleaf, if_neg]
    rintro ⟨hroot, _⟩
    exact hne hroot.symm

/-- Who a user page belongs to. -/
theorem leaf_owner (h : ResInv B L k) {r v : ℕ} {e : Word}
    (hl : LeafAt L k.machine r (pagePath k.machine.paging.mode v) e)
    (hv : v < USER_SPACE_END) (hal : v % FRAME_SIZE = 0) :
    (∃ t i id rights, k.handleAt t i =
      some ⟨.mapping (entryFrame k.machine.paging e) id v, rights⟩ ∧ k.rootOf id = some r ∧
      L.role (entryFrame k.machine.paging e) = .data (.handle t i)) ∨
    (r = B.root ∧ (L.role (entryFrame k.machine.paging e) = .data (.boot v) ∨
      L.role (entryFrame k.machine.paging e) = .window v)) := by
  obtain ⟨w, hw, hwal, hpath, hcase⟩ := h.pages.user r _ e _ hl (pagePath_getLast _ _)
    (rootIndex_user _ hv)
  have hwv : w = v :=
    (pagePath_inj (user_canonical _ hv) (user_canonical _ hw) hal hwal hpath).symm
  subst hwv
  rcases hcase with ⟨t, i, id, rights, hh, hr⟩ | ⟨hr, hb⟩
  · exact .inl ⟨t, i, id, rights, hh, hr, (h.pages.mappings t i _ id w rights hh).1⟩
  · exact .inr ⟨hr, (h.pages.boot w e hb).2.2.2⟩

/-- No frame is mapped for user mode at two places. -/
theorem user_unique (h : ResInv B L k) {r r' v v' : ℕ} {e e' : Word}
    (hl : LeafAt L k.machine r (pagePath k.machine.paging.mode v) e)
    (hv : v < USER_SPACE_END) (hal : v % FRAME_SIZE = 0)
    (hl' : LeafAt L k.machine r' (pagePath k.machine.paging.mode v') e')
    (hv' : v' < USER_SPACE_END) (hal' : v' % FRAME_SIZE = 0)
    (hf : entryFrame k.machine.paging e' = entryFrame k.machine.paging e) : r' = r ∧ v' = v := by
  have howner := h.leaf_owner hl hv hal
  have howner' := h.leaf_owner hl' hv' hal'
  rw [hf] at howner'
  rcases howner with ⟨t, i, id, rights, hh, hr, hrole⟩ | ⟨hr, hrole⟩
  · rcases howner' with ⟨t', i', id', rights', hh', hr', hrole'⟩ | ⟨_, hrole'⟩
    · rw [hrole] at hrole'
      cases hrole'
      rw [hh] at hh'
      cases hh'
      rw [hr] at hr'
      cases hr'
      exact ⟨rfl, rfl⟩
    · rw [hrole] at hrole'
      rcases hrole' with hc | hc <;> cases hc
  · rcases howner' with ⟨t', i', id', rights', _, _, hrole'⟩ | ⟨hr', hrole'⟩
    · rw [hrole'] at hrole
      rcases hrole with hc | hc <;> cases hc
    · refine ⟨hr'.trans hr.symm, ?_⟩
      rcases hrole with hc | hc <;> rcases hrole' with hc' | hc' <;> rw [hc] at hc' <;> cases hc'
      · rfl
      · rfl

/-- The leaf behind a mapping handle is nobody else's. -/
theorem mapping_unique (h : ResInv B L k) {t i f id r v : ℕ} {rights : Rights}
    (hh : k.handleAt t i = some ⟨.mapping f id v, rights⟩) (hr : k.rootOf id = some r)
    {r' v' : ℕ} {e' : Word}
    (hl : LeafAt L k.machine r' (pagePath k.machine.paging.mode v') e')
    (hv' : v' < USER_SPACE_END) (hal' : v' % FRAME_SIZE = 0)
    (hf : entryFrame k.machine.paging e' = f) : r' = r ∧ v' = v := by
  obtain ⟨_, hv, hal, r₀, e, hr₀, hl₀, he⟩ := h.pages.mappings t i f id v rights hh
  rw [hr] at hr₀
  cases hr₀
  exact h.user_unique hl₀ hv hal hl hv' hal' (hf.trans he.symm)

/-- A mapping handle turns back into a frame handle when its page is removed. -/
theorem unmapPage (h : ResInv B L k) {t i f id r v : ℕ} {rights : Rights}
    (hh : k.handleAt t i = some ⟨.mapping f id v, rights⟩) (hr : k.rootOf id = some r)
    {m' : Machine} (hpost : UnmapPost False L k.machine r v L' m') {hb : List HandBack}
    (hm' : k'.machine = m'.withHandBacks hb) (hs : SameHolders k k')
    (hhandles : ∀ t' i', k'.handleAt t' i' =
      if t' = t ∧ i' = i then some ⟨.frame f, rights⟩ else k.handleAt t' i') :
    ResInv B L' k' := by
  obtain ⟨hrole, hv, hal, r₀, e, hr₀, hl, he⟩ := h.pages.mappings t i f id v rights hh
  rw [hr] at hr₀
  cases hr₀
  have hkept := hpost.edit.rolesKept
  have hpaging : k'.machine.paging = k.machine.paging := by
    rw [hm']
    exact hpost.edit.regs.paging
  have htable : ∀ r, k'.machine.table r = k.machine.table r := by
    rw [hm']
    exact hpost.edit.regs.table
  have hne := (h.spaces.root hr).1
  have hleaf : ∀ r' q e', LeafAt L' k'.machine r' q e' ↔
      LeafAt L k.machine r' q e' ∧ ¬ (r' = r ∧ q = pagePath k.machine.paging.mode v) := by
    rw [hm']
    exact hpost.leaf
  have hother : ∀ t' i' f' id' v' rights', k.handleAt t' i' = some ⟨.mapping f' id' v', rights'⟩ →
      ¬ (t' = t ∧ i' = i) → k.rootOf id' = some r → pagePath k.machine.paging.mode v' ≠
        pagePath k.machine.paging.mode v := by
    intro t' i' f' id' v' rights' hh' hti hr' hpath
    obtain ⟨hrole', hv', hal', r', e', hroot', hl', hf'⟩ :=
      h.pages.mappings t' i' f' id' v' rights' hh'
    rw [hr'] at hroot'
    cases hroot'
    rw [hpath] at hl'
    have hee : e' = e := Leaf.unique h.mem.tree hl' hl
    rw [hee, he] at hf'
    rw [← hf', hrole] at hrole'
    cases hrole'
    exact hti ⟨rfl, rfl⟩
  refine ⟨by rw [hm']; exact hpost.inv.withHandBacks hb, ?_, ⟨?_, ?_, ?_, ?_, ?_⟩, ?_⟩
  · exact h.spaces.congr hkept.kroot htable hkept.roots hs.kernelSpace hs.spaces
  · intro t' i' f' rights' hh'
    rw [hhandles] at hh'
    split_ifs at hh' with hti
    · obtain ⟨rfl, rfl⟩ := hti
      cases hh'
      rw [hkept.held f (.inl ⟨_, _, hrole⟩), hrole]
    · have hr' := h.pages.frames t' i' f' rights' hh'
      rw [hkept.held f' (.inl ⟨t', i', hr'⟩), hr']
  · intro t' i' f' id' v' rights' hh'
    rw [hhandles] at hh'
    split_ifs at hh' with hti
    · cases hh'
    · obtain ⟨hr', hv', hal', r', e', hroot', hl', hf'⟩ :=
        h.pages.mappings t' i' f' id' v' rights' hh'
      refine ⟨by rw [hkept.held f' (.inl ⟨_, _, hr'⟩), hr'], hv', hal', r', e',
        by rw [hs.rootOf, hroot'], ?_, by rw [hpaging, hf']⟩
      rw [hpaging, hleaf]
      refine ⟨hl', ?_⟩
      rintro ⟨rfl, hpath⟩
      exact hother t' i' f' id' v' rights' hh' hti hroot' hpath
  · intro t' i' id' rights' hh'
    rw [hhandles] at hh'
    rw [hs.rootOf]
    split_ifs at hh' with hti
    · cases hh'
    · exact h.pages.names t' i' id' rights' hh'
  · intro r' q e' j hl' hq hj
    rw [hleaf] at hl'
    obtain ⟨hl', hgone⟩ := hl'
    obtain ⟨v', hv', hal', hpath, hcase⟩ := h.pages.user r' q e' j hl' hq hj
    refine ⟨v', hv', hal', by rw [hpaging, hpath], hcase.imp ?_ fun hb => hb⟩
    rintro ⟨t', i', id', rights', hh', hr'⟩
    refine ⟨t', i', id', rights', ?_, by rw [hs.rootOf, hr']⟩
    rw [hhandles, if_neg, hpaging, hh']
    rintro ⟨rfl, rfl⟩
    rw [hh] at hh'
    cases hh'
    rw [hr] at hr'
    cases hr'
    exact hgone ⟨rfl, hpath⟩
  · intro v' e' hbt
    obtain ⟨hv', hal', hl', hcase⟩ := h.pages.boot v' e' hbt
    refine ⟨hv', hal', ?_, ?_⟩
    · rw [hpaging, hleaf]
      refine ⟨hl', ?_⟩
      rintro ⟨hroot, hpath⟩
      rw [hpath, hroot] at hl'
      have hee : e' = e := Leaf.unique h.mem.tree hl' hl
      rw [hee, he, hrole] at hcase
      rcases hcase with hc | hc <;> cases hc
    · rw [hpaging, hkept.held]
      · exact hcase
      · rcases hcase with hc | hc
        · exact .inr (.inl ⟨v', hc⟩)
        · exact .inr (.inr ⟨v', hc⟩)
  · refine h.kstacks.congr hkept.kroot hpaging hkept.kstack ?_ hs.stackOf
      (fun s hu => by rw [hs.pool, hu])
    intro q e'
    rw [hleaf]
    refine ⟨fun h => h.1, fun h => ⟨h, ?_⟩⟩
    rintro ⟨hroot, _⟩
    exact hne hroot.symm

/-- A new address space gets an id. -/
theorem newSpace (h : ResInv B L k) {f id : ℕ} (hn : NewRoot L k.machine f k'.machine)
    (hid : k.spaces.get id = none) (hlt : id < MAX_ADDRESS_SPACES)
    (hspaces : k'.spaces = k.spaces.set id (some ⟨k'.machine.table f, .user⟩))
    (hkernel : k'.kernelSpace = k.kernelSpace) (hstacks : ∀ t, k'.stackOf t = k.stackOf t)
    (hpool : k'.sched.stackPool = k.sched.stackPool)
    (hhandles : ∀ t h, k'.handleAt t h = k.handleAt t h) :
    ResInv B (L.set f (.table f [])) k' := by
  have hkept : RolesKept L (L.set f (.table f [])) := by
    refine RolesKept.set (by simp [hn.free]) ?_ (by simp [hn.free])
    rw [hn.free]
    rintro (⟨_, _, h⟩ | ⟨_, h⟩ | ⟨_, h⟩) <;> cases h
  have htable := hn.regs.sameTables.table
  have hget : ∀ id', k'.spaces.get id' =
      if id' = id then some ⟨k'.machine.table f, .user⟩ else k.spaces.get id' := by
    intro id'
    rw [hspaces, Slots.get_set _ hlt]
  have hrootOf : ∀ id', k'.rootOf id' = if id' = id then some f else k.rootOf id' := by
    intro id'
    rw [Kernel.rootOf, hget]
    split_ifs <;> rfl
  have hmono : ∀ id' r, k.rootOf id' = some r → k'.rootOf id' = some r := by
    intro id' r hr
    rw [hrootOf, if_neg, hr]
    rintro rfl
    rw [Kernel.rootOf, hid] at hr
    cases hr
  have hfresh : ∀ id', k.rootOf id' ≠ some f := by
    intro id' hr
    have := (h.spaces.root hr).2
    rw [hn.free] at this
    cases this
  have hkf : f ≠ L.kroot := by
    rintro rfl
    have := h.mem.kroot
    rw [hn.free] at this
    cases this
  refine ⟨hn.inv, ⟨?_, ?_, ?_, ?_⟩, ?_, ?_⟩
  · rw [hkernel, htable, Layout.set_kroot, h.spaces.kernel]
  · intro id' s hs
    rw [hget] at hs
    split_ifs at hs with he
    · cases hs
      refine ⟨hkf, rfl, Layout.set_role_self L f _, ?_⟩
      rw [Layout.set_kroot, if_neg]
      exact hkf
    · obtain ⟨hne, hsp⟩ := h.spaces.live id' s hs
      exact ⟨hne, by rw [htable]; exact hsp.root, hkept.roots _ hsp.typed, hsp.kind⟩
  · intro id₁ id₂ r h₁ h₂
    rw [hrootOf] at h₁ h₂
    split_ifs at h₁ h₂ with he₁ he₂ he₂
    · rw [he₁, he₂]
    · cases h₁
      exact absurd h₂ (hfresh id₂)
    · cases h₂
      exact absurd h₁ (hfresh id₁)
    · exact h.spaces.inj id₁ id₂ r h₁ h₂
  · obtain ⟨id', hid'⟩ := h.spaces.boot
    exact ⟨id', hmono id' _ hid'⟩
  · exact h.pages.congr hn.regs.paging hmono hkept.held (fun r q e _ _ _ => hn.leaf r q e) hhandles
  · exact h.kstacks.congr hkept.kroot hn.regs.paging hkept.kstack (fun q e => hn.leaf _ q e)
      hstacks (fun s hu => by rw [hpool, hu])

end ResInv

theorem not_slotRole_held {kroot slot : ℕ} {ρ : Role} (h : ρ.Held) : ¬ SlotRole kroot slot ρ := by
  rintro (hl | ⟨j, _, rfl⟩)
  · exact not_lent_held h hl
  · rcases h with ⟨_, _, h⟩ | ⟨_, h⟩ | ⟨_, h⟩ <;> cases h

/-- The user halves do not see the pages of kernel stacks. -/
theorem not_stack_path {mode : PagingMode} {slot i j : ℕ} {q : List ℕ} (hs : slot < 64)
    (hi : i ≤ KERNEL_STACK_PAGES) (hq : q.getLast? = some j) (hj : j < 256) :
    q ≠ pagePath mode (slotBase slot + i * FRAME_SIZE) := by
  rintro rfl
  obtain ⟨hlo, hhi, _⟩ := slot_bounds hs hi
  rw [pagePath_getLast] at hq
  simp only [KERNEL_STACK_BASE] at hlo
  rw [rootIndex_top _ (by omega) (by omega)] at hq
  cases hq
  omega

/-- The part of an edit of kernel stacks that the user half sees. -/
theorem PagesInv.slotEdit (h : PagesInv B L k) {slot : ℕ} {m : Machine}
    (hm : m.paging = k.machine.paging)
    (he : Edit (SlotRole L.kroot slot) L.kroot L m L' k'.machine)
    (hleaf : ∀ r q e i, q.getLast? = some i → i < 256 →
      (LeafAt L' k'.machine r q e ↔ LeafAt L k.machine r q e))
    (hspaces : k'.spaces = k.spaces) (hhandles : ∀ t h, k'.handleAt t h = k.handleAt t h) :
    PagesInv B L' k' := by
  refine h.congr (he.regs.paging.trans hm) ?_
    (fun f hf => he.role_eq (not_slotRole_held hf)) hleaf hhandles
  intro id r hr
  rw [Kernel.rootOf, hspaces]
  exact hr

end Dusk
