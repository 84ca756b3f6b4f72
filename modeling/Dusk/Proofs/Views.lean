import Dusk.Proofs.Step
import Dusk.Proofs.Booted

/-! The invariant in the kernel's own terms: what the bitmap, the page-table walkers
and the handle tables of a reachable state say about the role of a frame. -/

namespace Dusk

open Lib Radix

/-- The address is translated into frame `f`. -/
def AddressSpace.Maps (s : AddressSpace) (mem : PhysMem) (va f : ℕ) : Prop :=
  ∃ p, s.toPhysical mem va = some p ∧ p / FRAME_SIZE = f

/-- The paths that are not shared with the kernel's tree. -/
def AddressSpace.Own (s : AddressSpace) (path : List ℕ) : Prop :=
  s.kind = .kernel ∨ ∀ i ∈ path.head?, i < 256

/-- The frame an object stands for. -/
def KernelObject.frameOf : KernelObject → Option ℕ
  | .frame f => some f
  | .mapping f _ _ => some f
  | .addressSpace _ | .thread _ => none

namespace Kernel

/-- The address spaces of the system. -/
def Live (k : Kernel) (s : AddressSpace) : Prop :=
  k.kernelSpace = some s ∨ ∃ id, k.spaces.get id = some s

/-- The handle in slot `h` of task `t` stands for frame `f`. -/
def Holds (k : Kernel) (t h f : ℕ) : Prop :=
  ∃ handle, k.handleAt t h = some handle ∧ handle.object.frameOf = some f

end Kernel

variable {b : BootInfo} {B : BootPages} {L : Layout} {k k' k₀ : Kernel} {s s' : AddressSpace}
  {path : List ℕ} {f va : ℕ}

/-- The invariant at every reachable state. -/
theorem Reachable.inv (h : Reachable b k) (hok : b.Ok) : ∃ B L, KInv B L k := by
  obtain ⟨k₀, as, trace, hk₀, hrun⟩ := h
  obtain ⟨B, L, id, asId, t, hbooted⟩ := kernelMain_booted hok hk₀
  obtain ⟨L', h'⟩ := run_inv hbooted.inv hrun
  exact ⟨B, L', h'⟩

theorem smallBoot_reachable : ∃ k, (smallBoot []).started = some k ∧ Reachable (smallBoot []) k := by
  obtain ⟨k, hk⟩ := smallBoot_starts
  exact ⟨k, hk, k, [], [], hk, rfl⟩

/-- What a computed run shows. -/
theorem run_of_any {as : List Action} {p : Kernel × List Completion → Bool}
    (h : ((b.started.bind (run as)).any p) = true) :
    ∃ k₀ k trace, b.started = some k₀ ∧ run as k₀ = some (k, trace) ∧ p (k, trace) = true := by
  obtain ⟨⟨k, trace⟩, hrun, hp⟩ := (Option.any_eq_true _ _).mp h
  obtain ⟨k₀, hk₀, hr⟩ := Option.bind_eq_some_iff.mp hrun
  exact ⟨k₀, k, trace, hk₀, hr, hp⟩

section Tour

/-- A run that meets every kind of object. The first task makes a second address space and
maps a page in it, maps and unmaps one in its own, writes, makes a task and waits for a
message; the second task makes a third, which waits too, wakes the first task up, sends
itself a message and allocates a frame. -/
def tour : List Action :=
  [.resume, .syscall ⟨8, 0x7FFF_FFFF_E000, 0, 0, 0, 0⟩, .syscall ⟨6, 0x7FFF_FFFF_E000, 0, 0, 0, 0⟩,
    .syscall ⟨9, 2, 3, 0x600000, 1, 0x7FFF_FFFF_E000⟩,
    .syscall ⟨6, 0x7FFF_FFFF_E000, 0, 0, 0, 0⟩,
    .syscall ⟨9, 0, 4, 0x700000, 1, 0x7FFF_FFFF_E000⟩, .syscall ⟨10, 4, 0, 0, 0, 0⟩,
    .syscall ⟨3, 1, 0x400000, 3, 0x7FFF_FFFF_E000, 0⟩,
    .syscall ⟨11, 0, 0x400000, 0x7FFF_FFFF_F000, 0x7FFF_FFFF_E000, 0⟩,
    .syscall ⟨5, 0x7FFF_FFFF_E000, 16, 0x7FFF_FFFF_E010, 0x7FFF_FFFF_E018, 0⟩, .resume,
    .syscall ⟨11, 0, 0x400000, 0x7FFF_FFFF_F000, 0x7FFF_FFFF_E000, 0⟩,
    .syscall ⟨1, 0, 0, 0, 0, 0⟩, .resume,
    .syscall ⟨5, 0x7FFF_FFFF_E000, 16, 0x7FFF_FFFF_E010, 0x7FFF_FFFF_E018, 0⟩, .resume,
    .syscall ⟨4, 0, 0x400000, 3, 0, 0⟩, .syscall ⟨4, 1, 0x400000, 3, 0, 0⟩,
    .syscall ⟨6, 0x7FFF_FFFF_E000, 0, 0, 0, 0⟩]

/-- A write that reads three bytes and stores how many it wrote. -/
def tourWrite : SyscallArgs := ⟨3, 1, 0x400000, 3, 0x7FFF_FFFF_E000, 0⟩

/-- The frame is mapped where a page is. -/
def tourMap : SyscallArgs := ⟨9, 0, 3, 0x400000, 0, 0x7FFF_FFFF_E000⟩

/-- A message is received where no page is. -/
def tourRecv : SyscallArgs := ⟨5, 0x500000, 16, 0, 0, 0⟩

/-- What there is at its end: the task 1 runs, the task 0 has been woken, the task 2 waits. -/
@[mk_iff]
structure Toured (k : Kernel) : Prop where
  pending : k.pending = none
  current : k.sched.current = some 1
  woken : (k.sched.tasks.get 0).any fun task => decide (task.state = .ready ∧
    task.context = .afterRecvBlock ⟨0x7FFF_FFFF_E000, 16, 0x7FFF_FFFF_E010, 0x7FFF_FFFF_E018⟩)
  waiting : (k.sched.tasks.get 2).any fun task => decide (task.state = .blocked .recv)
  space : (k.spaces.get 1).isSome
  mapping : (k.handleAt 0 3).map Handle.object = some (.mapping 72 1 0x600000)
  frame : (k.handleAt 0 4).map Handle.object = some (.frame 76)
  handBack : k.machine.handBacks.map HandBack.page = [0x700000]
  copies : (step (.syscall tourWrite) k).any fun r =>
    r.1.accesses.map UserAccess.write == k.accesses.map UserAccess.write ++ [false, true]
  refused : (step (.syscall tourMap) k).any fun r => r.2.any fun c => c.code == 1
  unreceived : (step (.syscall tourRecv) k).any fun r => r.2.any fun c => c.code == 2

instance (k : Kernel) : Decidable (Toured k) := decidable_of_iff _ (toured_iff k).symm

/-- The processor caches the page that is unmapped. -/
theorem tour_ends : (((smallBoot [0x700000]).started.bind (run tour)).any fun r =>
    decide (Toured r.1)) = true := by
  decide +kernel

theorem tour_spec : ∃ k₀ k trace, (smallBoot [0x700000]).started = some k₀ ∧
    run tour k₀ = some (k, trace) ∧ Toured k := by
  obtain ⟨k₀, k, trace, hk₀, hr, hend⟩ := run_of_any tour_ends
  exact ⟨k₀, k, trace, hk₀, hr, of_decide_eq_true hend⟩

theorem tour_reachable : ∃ k, Reachable (smallBoot [0x700000]) k ∧ Toured k := by
  obtain ⟨k₀, k, trace, hk₀, hr, htoured⟩ := tour_spec
  exact ⟨k, ⟨k₀, tour, trace, hk₀, hr⟩, htoured⟩

end Tour

namespace ResInv

theorem frameState (h : ResInv B L k) (hf : f < k.machine.frameCount) :
    k.machine.frameState f = some (L.role f).state := h.mem.alloc.frameState_of_lt hf

theorem free_iff (h : ResInv B L k) : k.machine.frameState f = some .free ↔ L.role f = .free :=
  h.mem.alloc.frameState_free

theorem live (h : ResInv B L k) (hs : k.Live s) : SpaceOf L k.machine s s.root.frame := by
  rcases hs with hs | ⟨id, hs⟩
  · rw [h.spaces.kernel] at hs
    cases hs
    exact ⟨rfl, h.mem.kroot, (if_pos rfl).symm⟩
  · exact (h.spaces.live id s hs).2

theorem kernel_live (h : ResInv B L k) :
    k.Live ⟨k.machine.table L.kroot, .kernel⟩ := .inl h.spaces.kernel

theorem live_kernel (h : ResInv B L k) (hs : k.Live s) :
    s.kind = .kernel ↔ s.root.frame = L.kroot := by
  rw [(h.live hs).kind]
  by_cases hr : s.root.frame = L.kroot <;> simp [hr]

/-- An address space is determined by its root. -/
theorem live_ext (h : ResInv B L k) (hs : k.Live s) (hs' : k.Live s')
    (heq : s.root.frame = s'.root.frame) : s = s' := by
  obtain ⟨root, kind⟩ := s
  obtain ⟨root', kind'⟩ := s'
  have h₁ := h.live hs
  have h₂ := h.live hs'
  have hroot : root = root' := by
    rw [show root = _ from h₁.root, show root' = _ from h₂.root]
    exact congrArg _ heq
  have hkind : kind = kind' := by
    have hk₁ := h₁.kind
    have hk₂ := h₂.kind
    simp only at heq hk₁ hk₂
    rw [hk₁, hk₂, heq]
  rw [hroot, hkind]

/-- The nodes of the part of a tree that is not shared. -/
theorem node_own (h : ResInv B L k) (hs : k.Live s) (ho : s.Own path)
    (hn : s.root.Node k.machine.mem path f) : L.role f = .table s.root.frame path.reverse := by
  obtain ⟨hlen, hlt, hat⟩ := hn
  have hs₁ := h.live hs
  have hconf : s.root.config = k.machine.paging := by rw [hs₁.root]; rfl
  rw [hconf] at hlen hat
  have hown : ∀ i ∈ path.head?,
      (pteShape k.machine.paging.mode L.kroot).Owned s.root.frame [] i := by
    intro i hi
    refine owned_of [] ?_
    rcases ho with hk | hlow
    · exact .inl ((h.live_kernel hs).mp hk)
    · exact .inr (hlow i hi)
  rw [tableAt_eq] at hat
  have hdown := (h.mem.tree.descend_iff (Layout.typing_some.mpr hs₁.typed) path
    (by simpa [pteShape] using hlen) hlt hown f).mp hat
  simpa using Layout.typing_some.mp hdown

/-- A node of the shared part is a node of the kernel's tree. -/
theorem node_shared (h : ResInv B L k) (hs : k.Live s) (ho : ¬ s.Own path)
    (hn : s.root.Node k.machine.mem path f) :
    (k.machine.table L.kroot).Node k.machine.mem path f := by
  obtain ⟨hlen, hlt, hat⟩ := hn
  have hs₁ := h.live hs
  have hconf : s.root.config = k.machine.paging := by rw [hs₁.root]; rfl
  rw [hconf] at hlen hat
  cases path with
  | nil => exact absurd (.inr (by simp)) ho
  | cons i is =>
    have hi : 256 ≤ i := by
      by_contra hi
      exact ho (.inr (by simpa using not_le.mp hi))
    refine ⟨hlen, hlt, ?_⟩
    have hword := h.mem.shared _ hs₁.typed i hi (hlt i (by simp))
    rw [tableAt, hword] at hat
    exact hat

/-- Every node is a table of the layout. -/
theorem node_role (h : ResInv B L k) (hs : k.Live s) (hn : s.root.Node k.machine.mem path f) :
    ∃ r p, L.role f = .table r p := by
  by_cases ho : s.Own path
  · exact ⟨_, _, h.node_own hs ho hn⟩
  · exact ⟨_, _, h.node_own h.kernel_live (.inl rfl) (h.node_shared hs ho hn)⟩

theorem holds_role (h : ResInv B L k) {t i : ℕ} (hh : k.Holds t i f) :
    L.role f = .data (.handle t i) := by
  obtain ⟨⟨object, rights⟩, hat, hframe⟩ := hh
  cases object with
  | addressSpace id => cases hframe
  | thread id => cases hframe
  | frame g => cases hframe; exact h.pages.frames t i f rights hat
  | mapping g id v => cases hframe; exact (h.pages.mappings t i f id v rights hat).1

theorem canonical_of_maps (h : ResInv B L k) (hs : k.Live s) (hm : s.Maps k.machine.mem va f) :
    k.machine.paging.mode.isCanonical va = true := by
  obtain ⟨p, hp, _⟩ := hm
  by_contra hc
  have hcan : s.root.isCanonical va = false := by
    rw [(h.live hs).root]
    simpa [PageTable.isCanonical, Machine.table] using hc
  simp [AddressSpace.toPhysical, PageTable.toPhysical, hcan] at hp

theorem leaf_of_maps (h : ResInv B L k) (hs : k.Live s)
    (ho : s.root.frame = L.kroot ∨ rootIndex k.machine.paging.mode va < 256)
    (hm : s.Maps k.machine.mem va f) :
    ∃ e, LeafAt L k.machine s.root.frame (pagePath k.machine.paging.mode va) e ∧
      entryFrame k.machine.paging e = f ∧ k.machine.paging.mode.isCanonical va = true := by
  have hs₁ := h.live hs
  have hc := h.canonical_of_maps hs hm
  obtain ⟨p, hp, hf⟩ := hm
  rw [AddressSpace.toPhysical, hs₁.root, h.mem.toPhysical_eq hs₁.typed hc ho] at hp
  obtain ⟨e, he, rfl⟩ := Option.map_eq_some_iff.mp hp
  refine ⟨e, (h.mem.leaf_iff hs₁.typed ho e).mp he, ?_, hc⟩
  rw [← hf, pageOffset_eq, startAddress, FRAME_SIZE]
  omega

theorem toPhysical_of_leaf (h : ResInv B L k) (hs : k.Live s)
    (hc : k.machine.paging.mode.isCanonical va = true)
    (ho : s.root.frame = L.kroot ∨ rootIndex k.machine.paging.mode va < 256) {e : Word}
    (hleaf : LeafAt L k.machine s.root.frame (pagePath k.machine.paging.mode va) e) :
    s.toPhysical k.machine.mem va =
      some (startAddress (entryFrame k.machine.paging e) + pageOffset va) := by
  have hs₁ := h.live hs
  rw [AddressSpace.toPhysical, hs₁.root, h.mem.toPhysical_eq hs₁.typed hc ho,
    (h.mem.leaf_iff hs₁.typed ho e).mpr hleaf]
  rfl

/-- What is mapped in a lower half: the page of a handle, or one of the boot. -/
theorem user_maps (h : ResInv B L k) (hs : k.Live s) (hva : va < 2 ^ 63)
    (hm : s.Maps k.machine.mem va f) :
    s.kind = .user ∧ alignDownToFrame va < USER_SPACE_END ∧
    ∃ e, LeafAt L k.machine s.root.frame (pagePath k.machine.paging.mode (alignDownToFrame va)) e ∧
      entryFrame k.machine.paging e = f ∧ (Named k s.root.frame (alignDownToFrame va) e ∨
        s.root.frame = B.root ∧ B.entry (alignDownToFrame va) = some e) := by
  have hc := h.canonical_of_maps hs hm
  have hi := rootIndex_lower hc hva
  obtain ⟨e, hleaf, hf, _⟩ := h.leaf_of_maps hs (.inr hi) hm
  have hlast := pagePath_getLast k.machine.paging.mode va
  have hr := (h.mem.lower _ _ _ _ hleaf hlast hi).1
  have hkind : s.kind = .user := by rw [(h.live hs).kind, if_neg hr]
  obtain ⟨v, hv, hal, hpath, hwho⟩ := h.pages.user _ _ _ _ hleaf hlast hi
  have hsame : alignDownToFrame va = v := by
    refine pagePath_inj (alignDown_canonical hc) (user_canonical _ hv) ?_ hal ?_
    · simp [alignDownToFrame, FRAME_SIZE]
      omega
    · rw [pagePath_alignDown, hpath]
  rw [← pagePath_alignDown] at hleaf
  rw [hsame] at hleaf ⊢
  exact ⟨hkind, hv, e, hleaf, hf, hwho⟩

/-- The frame behind a user page is held by a handle or by the boot. -/
theorem user_role (h : ResInv B L k) (hs : k.Live s) (hva : va < 2 ^ 63)
    (hm : s.Maps k.machine.mem va f) : (L.role f).Held := by
  obtain ⟨_, _, e, _, rfl, ⟨t, i, id, rights, hh, _⟩ | ⟨_, hb⟩⟩ := h.user_maps hs hva hm
  · exact .inl ⟨t, i, (h.pages.mappings t i _ id _ rights hh).1⟩
  · rcases (h.pages.boot _ e hb).2.2.2 with hr | hr
    · exact .inr (.inl ⟨_, hr⟩)
    · exact .inr (.inr ⟨_, hr⟩)

/-- An address space reads an address alike where the leaf of its page is the same, in its own
half or the kernel's. -/
theorem sameAt {L' : Layout} (h : ResInv B L k) (h' : ResInv B L' k')
    (ht : SameTables k.machine k'.machine) (hkroot : L'.kroot = L.kroot) (hs : k.Live s)
    (hs' : k'.Live s) (hleaf : k.machine.paging.mode.isCanonical va = true → ∀ r,
      r = L.kroot ∨ r = s.root.frame ∧ rootIndex k.machine.paging.mode va < 256 → ∀ e,
      LeafAt L' k'.machine r (pagePath k.machine.paging.mode va) e ↔
        LeafAt L k.machine r (pagePath k.machine.paging.mode va) e) :
    s.root.SameAt k.machine.mem k'.machine.mem va := by
  have hspace := h.live hs
  have hspace' := h'.live hs'
  by_cases hc : k.machine.paging.mode.isCanonical va = true
  · rw [PageTable.SameAt, hspace.root]
    by_cases hi : rootIndex k.machine.paging.mode va < 256
    · have hreads := reads_congr h.mem h'.mem ht hkroot hspace.typed hspace'.typed
        (fun _ => .inr hi) (hleaf hc _ (.inr ⟨rfl, hi⟩))
      rwa [ht.table] at hreads
    · -- the upper halves are those of the kernel's root
      have hup := h.upper hspace.typed (not_lt.mp hi)
      have hup' := h'.upper hspace'.typed (by rw [ht.paging]; exact not_lt.mp hi)
      have hreads := reads_congr h.mem h'.mem ht hkroot h.mem.kroot (hkroot ▸ h'.mem.kroot)
        (fun _ => .inl rfl) (hleaf hc _ (.inl rfl))
      rw [ht.table, hkroot, ht.table] at hup'
      rw [ht.table] at hreads
      rw [hup.1, hup.2, hup'.1, hup'.2]
      exact hreads
  · have hcan : s.root.isCanonical va = false := by
      rw [hspace.root]
      simpa [PageTable.isCanonical, Machine.table] using hc
    simp [PageTable.SameAt, PageTable.toPhysical, PageTable.mapping, hcan]

/-- One layout, one set of free frames. -/
theorem sameFrames (h : ResInv B L k) (h' : ResInv B L k')
    (hcount : k'.machine.frameCount = k.machine.frameCount) :
    (∀ f, k'.machine.frameState f = k.machine.frameState f) ∧
      k'.machine.allocator.freeFrames = k.machine.allocator.freeFrames := by
  refine ⟨fun f => ?_, by rw [h'.mem.alloc.count, h.mem.alloc.count, hcount]⟩
  by_cases hf : f < k.machine.frameCount
  · rw [h.frameState hf, h'.frameState (by rw [hcount]; exact hf)]
  · rw [Machine.frameState, Machine.frameState, if_neg hf, if_neg (by rw [hcount]; exact hf)]

/-- The frame behind a page of the kernel stacks. -/
theorem stack_role (h : ResInv B L k) (hlow : KERNEL_STACK_BASE ≤ va)
    (hhigh : va < KERNEL_STACK_BASE + MAX_KERNEL_STACKS * KERNEL_SLOT_SIZE)
    (hm : AddressSpace.Maps ⟨k.machine.table L.kroot, .kernel⟩ k.machine.mem va f) :
    ∃ page, L.role f = .data (.stack page) := by
  obtain ⟨e, hleaf, rfl, hc⟩ := h.leaf_of_maps h.kernel_live (.inl rfl) hm
  obtain ⟨slot, i, hslot, hi, heq⟩ : ∃ slot i, slot < 64 ∧ i ≤ KERNEL_STACK_PAGES ∧
      alignDownToFrame va = slotBase slot + i * FRAME_SIZE := by
    refine ⟨(va - KERNEL_STACK_BASE) / KERNEL_SLOT_SIZE,
      (va - KERNEL_STACK_BASE) % KERNEL_SLOT_SIZE / FRAME_SIZE, ?_, ?_, ?_⟩ <;>
    · simp only [alignDownToFrame, slotBase, KERNEL_STACK_BASE, KERNEL_SLOT_SIZE, FRAME_SIZE,
        KERNEL_STACK_PAGES, GUARD_PAGES, MAX_KERNEL_STACKS] at hlow hhigh ⊢
      omega
  rw [← pagePath_alignDown, heq] at hleaf
  exact ⟨_, h.kstacks.leaves slot i e hslot hi hleaf⟩

end ResInv

end Dusk
