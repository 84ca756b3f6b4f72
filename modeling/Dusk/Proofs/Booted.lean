import Dusk.Proofs.Spawn
import Dusk.Proofs.TaskCalls

/-! `kernel_main`: a boot that reaches the first user task establishes the invariant
of the kernel. -/

namespace Dusk

open Lib Radix Scheduler

/-- What the boot loader and the linker promise: memory that is handed out overlaps
nothing else, the direct map lies in the upper half below the kernel's own windows, the
image in the top two gigabytes, and the boot archive is a module of its own. -/
structure BootInfo.Ok (b : BootInfo) : Prop where
  apart : b.memoryMap.Pairwise MemoryRegion.Apart
  physical : ∀ region ∈ b.memoryMap,
    region.start + region.length ≤ b.paging.physicalAddressLimit
  upper : 2 ^ 63 ≤ b.hhdmOffset
  direct : ∀ region ∈ b.memoryMap, region.start + region.length + b.hhdmOffset ≤ KERNEL_STACK_BASE
  image : 2 ^ 64 - 2 ^ 31 ≤ b.textStart ∧ 2 ^ 64 - 2 ^ 31 ≤ b.rodataStart ∧
    2 ^ 64 - 2 ^ 31 ≤ b.dataStart
  text : b.textStart < b.textEnd
  archive : b.hhdmOffset ≤ b.initramfs.start ∧ ∃ region ∈ b.memoryMap,
    region.kind = .kernelAndModules ∧ region.start ≠ b.physicalBase ∧
    region.start + b.hhdmOffset ≤ b.initramfs.start ∧
    b.initramfs.start + b.initramfs.length ≤ region.start + region.length + b.hhdmOffset

variable {b : BootInfo} {L L' : Layout} {k k' : Kernel}

/-- The physical address of the boot archive. -/
def BootInfo.archiveStart (b : BootInfo) : ℕ := b.initramfs.start - b.hhdmOffset

/-- Before there are user pages, only a page of the image matters. -/
def BootInfo.pages (b : BootInfo) : BootPages := ⟨0, fun _ => none, b.textStart⟩

/-- The kernel between `new_kernel` and the first task. -/
structure Booting (b : BootInfo) (L : Layout) (k : Kernel) : Prop where
  mem : MemInv noPages L k.machine
  kstacks : StacksInv b.pages L k
  roots : ∀ r, L.role r = .table r [] → r = L.kroot
  upper : ∀ r q e i, LeafAt L k.machine r q e → q.getLast? = some i → 256 ≤ i
  other : ∀ x, b.archiveStart ≤ x → x < b.archiveStart + b.initramfs.length →
    L.role (x / FRAME_SIZE) = .other
  store : ∀ region ∈ b.memoryMap, region.kind = .bootloaderReclaimable → ∀ f, region.Covers f →
    L.role f ≠ .storage
  archive : 0 < b.initramfs.length →
    b.initramfs.start % FRAME_SIZE = b.archiveStart % FRAME_SIZE ∧ ∃ e,
    LeafAt L k.machine L.kroot (pagePath k.machine.paging.mode b.initramfs.start) e ∧
    entryFrame k.machine.paging e = b.archiveStart / FRAME_SIZE
  only : k = { b.initial with
    machine := k.machine
    sched := { Scheduler.new with stackPool := k.sched.stackPool } }
  handBacks : k.machine.handBacks = []

namespace Booting

theorem get (h : Booting b L k) (t : ℕ) : k.sched.tasks.get t = none := by
  rw [h.only]
  rfl

theorem stackOf (h : Booting b L k) (t : ℕ) : k.stackOf t = none := by
  rw [Kernel.stackOf, h.get]
  rfl

/-- A step of the boot: the kernel's half may grow. -/
theorem step (h : Booting b L k) (hinv : MemInv noPages L' k'.machine)
    (hkstacks : StacksInv b.pages L' k') (hk : L'.kroot = L.kroot)
    (hroots : ∀ r, L'.role r = .table r [] → L.role r = .table r [])
    (hp : k'.machine.paging = k.machine.paging)
    (hnew : ∀ r q e i, LeafAt L' k'.machine r q e → q.getLast? = some i →
      LeafAt L k.machine r q e ∨ 256 ≤ i)
    (hkept : ∀ q e, LeafAt L k.machine L.kroot q e → LeafAt L' k'.machine L.kroot q e)
    (hother : ∀ x, b.archiveStart ≤ x → x < b.archiveStart + b.initramfs.length →
      L.role (x / FRAME_SIZE) = .other → L'.role (x / FRAME_SIZE) = .other)
    (hstore : ∀ f, L'.role f = .storage → L.role f = .storage)
    (honly : k' = { k with
      machine := k'.machine
      sched := { k.sched with stackPool := k'.sched.stackPool } })
    (hhb : k'.machine.handBacks = k.machine.handBacks) : Booting b L' k' := by
  refine ⟨hinv, hkstacks, ?_, ?_, fun x hx hx' => hother x hx hx' (h.other x hx hx'), ?_, ?_, ?_,
    by rw [hhb, h.handBacks]⟩
  · intro r hr
    rw [hk]
    exact h.roots r (hroots r hr)
  · intro r q e i hl hq
    rcases hnew r q e i hl hq with hl | hi
    · exact h.upper r q e i hl hq
    · exact hi
  · intro region hr hkind f hcov hs
    exact h.store region hr hkind f hcov (hstore f hs)
  · intro hlen
    obtain ⟨hal, e, hl, he⟩ := h.archive hlen
    rw [hk, hp]
    exact ⟨hal, e, hkept _ e hl, he⟩
  · rw [honly, h.only]

/-- Another machine with the same tables and roles. -/
theorem remachine (h : Booting b L k) {m : Machine} (hinv : MemInv noPages L m)
    (hp : m.paging = k.machine.paging) (hmem : m.mem = k.machine.mem)
    (hhb : m.handBacks = k.machine.handBacks) : Booting b L { k with machine := m } := by
  have hleaf : ∀ r q e, LeafAt L m r q e ↔ LeafAt L k.machine r q e :=
    leafAt_congr rfl rfl hp (fun _ _ _ _ => by rw [hmem])
  exact h.step hinv (h.kstacks.congr rfl hp (fun _ _ h => h) (hleaf _) (fun _ => rfl)
    fun _ h => h) rfl (fun _ h => h) hp (fun r q e _ hl _ => .inl ((hleaf r q e).mp hl))
    (fun q e => (hleaf _ q e).mpr) (fun _ _ _ h => h) (fun _ h => h) rfl hhb

/-- A step in which only managed frames change their roles. -/
theorem grow (h : Booting b L k) (hinv : MemInv noPages L' k'.machine)
    (hkstacks : StacksInv b.pages L' k') (hk : L'.kroot = L.kroot)
    (hroots : ∀ r, L'.role r = .table r [] → L.role r = .table r [])
    (hregs : Regs k.machine k'.machine)
    (hnew : ∀ r q e i, LeafAt L' k'.machine r q e → q.getLast? = some i →
      LeafAt L k.machine r q e ∨ 256 ≤ i)
    (hkept : ∀ q e, LeafAt L k.machine L.kroot q e → LeafAt L' k'.machine L.kroot q e)
    (hreserved : SameReserved L L')
    (honly : k' = { k with
      machine := k'.machine
      sched := { k.sched with stackPool := k'.sched.stackPool } }) : Booting b L' k' := by
  refine h.step hinv hkstacks hk hroots hregs.paging hnew hkept ?_ ?_ honly hregs.handBacks
  · intro x _ _ hx
    rw [hreserved _ (.inl (by rw [hx]; rfl)), hx]
  · intro f hf
    rw [← hreserved f (.inr (by rw [hf]; rfl)), hf]

theorem spaceOf (h : Booting b L k) :
    SpaceOf L k.machine ⟨k.machine.table L.kroot, .kernel⟩ L.kroot :=
  ⟨rfl, h.mem.kroot, by simp⟩

end Booting

/-- No page outside the area of the kernel stacks is a page of one. -/
theorem kernelPage_not_slot {mode : PagingMode} {v slot i : ℕ} (hv : KernelPage v)
    (hc : mode.isCanonical v = true) (hal : v % FRAME_SIZE = 0) (hslot : slot < 64)
    (hi : i ≤ KERNEL_STACK_PAGES) :
    pagePath mode v ≠ pagePath mode (slotBase slot + i * FRAME_SIZE) := by
  intro he
  obtain ⟨hlo, hhi, hal'⟩ := slot_bounds hslot hi
  have := pagePath_inj hc (slot_canonical mode hslot hi) hal hal' he
  obtain ⟨_, hv⟩ := hv
  omega

theorem KernelOnly.not_slot {m : Machine} (h : KernelOnly L m) {slot i : ℕ} (hslot : slot < 64)
    (hi : i ≤ KERNEL_STACK_PAGES) (r : ℕ) (e : Word) :
    ¬ LeafAt L m r (pagePath m.paging.mode (slotBase slot + i * FRAME_SIZE)) e := by
  intro hl
  obtain ⟨_, v, hv, hc, hal, hq⟩ := h.leaves r _ e hl
  exact kernelPage_not_slot hv hc hal hslot hi hq.symm

/-- The frames of the archive are not handed out. -/
theorem BootInfo.Ok.archive_apart (h : b.Ok) {region : MemoryRegion} (hr : region ∈ b.memoryMap)
    (hgiven : region.Given) {x : ℕ} (hx : b.archiveStart ≤ x)
    (hx' : x < b.archiveStart + b.initramfs.length) : ¬ region.Covers (x / FRAME_SIZE) := by
  intro hcov
  obtain ⟨hoff, home, hhome, hkind, _, hlo, hhi⟩ := h.archive
  have hne : region.kind ≠ home.kind := by
    rw [hkind]
    rcases hgiven with hk | hk <;> rw [hk] <;> simp
  rw [BootInfo.archiveStart] at hx hx'
  exact covers_unique h.apart hr hhome hgiven hne hcov rfl ⟨by omega, by omega⟩

/-- The archive is read through the direct map. -/
theorem KernelMade.archive {m m' : Machine} {text : KernelSegment} (hok : b.Ok)
    (h : KernelMade b.directMap b.memoryMap text L m L' m')
    (htext : text.physicalBase = b.physicalBase) (hlen : 0 < b.initramfs.length) :
    b.initramfs.start % FRAME_SIZE = b.archiveStart % FRAME_SIZE ∧
    ∃ e, LeafAt L' m' L'.kroot (pagePath m'.paging.mode b.initramfs.start) e ∧
      entryFrame m'.paging e = b.archiveStart / FRAME_SIZE := by
  obtain ⟨hoff, region, hr, hkind, hne, hlo, hhi⟩ := hok.archive
  have hns : ¬ region.Skipped text.physicalBase := by
    rw [htext]
    rintro ((hk | hk) | ⟨_, hs⟩)
    · rw [hkind] at hk
      cases hk
    · rw [hkind] at hk
      cases hk
    · exact hne hs
  have hd := h.direct region hr hns
  have hdm : b.directMap.offset = b.hhdmOffset := rfl
  obtain ⟨hal, hal'⟩ := hd.aligned (by omega)
  have hwhole := hd.whole
  rw [hdm] at hal'
  obtain ⟨e, hl, he⟩ := hd.pages ((b.archiveStart - region.start) / FRAME_SIZE) (by
    rw [BootInfo.archiveStart]
    simp only [FRAME_SIZE] at hwhole ⊢
    omega)
  refine ⟨?_, e, ?_, ?_⟩
  · rw [BootInfo.archiveStart]
    simp only [FRAME_SIZE] at hal hal' ⊢
    omega
  · rw [← pagePath_alignDown]
    have hpage : alignDownToFrame b.initramfs.start = region.start + b.directMap.offset +
        (b.archiveStart - region.start) / FRAME_SIZE * FRAME_SIZE := by
      rw [hdm, BootInfo.archiveStart]
      simp only [alignDownToFrame, FRAME_SIZE] at hal hal' ⊢
      omega
    rw [hpage]
    exact hl
  · rw [he, BootInfo.archiveStart]
    simp only [FRAME_SIZE] at hal hal' ⊢
    omega

theorem slotRole_state {kroot slot : ℕ} {ρ : Role} (h : SlotRole kroot slot ρ) :
    ρ.state ≠ .reserved := by
  rcases h with h | ⟨i, _, rfl⟩
  · exact lent_state h
  · simp [Role.state]

/-- A frame is taken from the allocator. -/
theorem Booting.taken (h : Booting b L k) {f : ℕ} {m : Machine}
    (ht : Taken noPages L k.machine f m) :
    Booting b (L.set f (.data .spare)) { k with machine := m } := by
  have hrole : ∀ {g}, L.role g ≠ .free → (L.set f (.data .spare)).role g = L.role g := by
    intro g hg
    refine Layout.set_role_of_ne L ?_ _
    rintro rfl
    exact hg ht.free
  refine h.grow ht.inv (h.kstacks.congr rfl ht.only.regs.paging ?_ (ht.leaf _)
    (fun _ => rfl) fun _ h => h) rfl ?_ ht.only.regs
    (fun r q e _ hl _ => .inl ((ht.leaf r q e).mp hl)) (fun q e => (ht.leaf _ q e).mpr)
    (SameReserved.set (by simp [ht.free, Role.state]) (by simp [Role.state])) rfl
  · intro g v hg
    rw [hrole (by simp [hg]), hg]
  · intro r hr
    by_cases hrf : r = f
    · subst hrf
      rw [Layout.set_role_self] at hr
      cases hr
    · rwa [Layout.set_role_of_ne L hrf] at hr

/-- A spare frame goes back to the allocator. -/
theorem Booting.given (h : Booting b L k) {f : ℕ} {m : Machine} (hf : L.role f = .data .spare)
    (hg : Given noPages L k.machine f m) : Booting b (L.set f .free) { k with machine := m } := by
  refine h.grow hg.inv (h.kstacks.congr rfl hg.only.regs.paging ?_ (hg.leaf _)
    (fun _ => rfl) fun _ h => h) rfl ?_ hg.only.regs
    (fun r q e _ hl _ => .inl ((hg.leaf r q e).mp hl)) (fun q e => (hg.leaf _ q e).mpr)
    (SameReserved.set (by simp [hf, Role.state]) (by simp [Role.state])) rfl
  · intro g v hgr
    rw [Layout.set_role_of_ne, hgr]
    rintro rfl
    rw [hf] at hgr
    cases hgr
  · intro r hr
    by_cases hrf : r = f
    · subst hrf
      rw [Layout.set_role_self] at hr
      cases hr
    · rwa [Layout.set_role_of_ne L hrf] at hr

/-- CR3 is loaded; from now on the processor caches translations. -/
theorem Booting.entered (h : Booting b L k) (fills : ℕ → List ℕ) (top : ℕ) :
    Booting b L { k with
      machine := { ({ k.machine with
        fills, cr3 := L.kroot, tlb := k.machine.tlb.filter TlbEntry.isGlobal } : Machine).ticked with
          kernelStackTop := top } } := by
  have hloaded : MemInv noPages L { k.machine with
      fills, cr3 := L.kroot, tlb := k.machine.tlb.filter TlbEntry.isGlobal } := by
    refine h.mem.registers rfl rfl rfl (fun _ => .inl h.mem.kroot) ?_
    intro _ t ht hpage _
    obtain ⟨htm, hg⟩ := List.mem_filter.mp ht
    obtain ⟨_, hng, _⟩ := h.mem.tlb htm hpage
    rw [hng] at hg
    cases hg
  exact h.remachine (hloaded.tick.installStack top) rfl rfl rfl

/-- Regions of the boot loader are reclaimed. -/
theorem Booting.reclaimed (hok : b.Ok) (h : Booting b L k) {m : Machine}
    (hm : Reclaimed (fun f => ∃ region ∈ b.memoryMap,
      region.kind = .bootloaderReclaimable ∧ region.Covers f) L k.machine L' m) :
    Booting b L' { k with machine := m } := by
  have hr := hm.restored (r := L.kroot) h.mem
  have hkept : ∀ f, (L.role f).state = .allocated → L'.role f = L.role f := by
    intro f hf
    refine hr.edit.role_eq ?_
    rintro (hu | hu) <;> rw [hu] at hf <;> cases hf
  refine h.step hr.inv (h.kstacks.congr hr.edit.kroot hr.edit.regs.paging ?_ (hr.leaf _)
    (fun _ => rfl) fun _ h => h) hr.edit.kroot (hr.edit.roots ?_) hr.edit.regs.paging
    (fun r q e _ hl _ => .inl ((hr.leaf r q e).mp hl)) (fun q e => (hr.leaf _ q e).mpr) ?_ ?_ rfl
    hr.edit.regs.handBacks
  · intro f v hf
    rw [hkept f (by rw [hf]; rfl), hf]
  · rintro r' (hu | hu) <;> cases hu
  · intro x hx hx' hother
    rcases hm.roles (x / FRAME_SIZE) with he | ⟨_, _, _, region, hmem, hkind, hcov⟩
    · rw [he, hother]
    · exact absurd hcov (hok.archive_apart hmem (.inr hkind) hx hx')
  · intro f hf
    exact (hm.storage_iff f).mp hf

/-- A page of the kernel's windows is mapped. -/
theorem Booting.mapped (h : Booting b L k) {va pa : ℕ} {m : Machine} (hva : KernelPage va)
    (hm : Mapped L k.machine L.kroot va pa L' m) : Booting b L' { k with machine := m } := by
  have hp := hm.edit.regs.paging
  have hold : ∀ {slot i e}, slot < 64 → i ≤ KERNEL_STACK_PAGES →
      LeafAt L' m L.kroot (pagePath k.machine.paging.mode (slotBase slot + i * FRAME_SIZE)) e →
      LeafAt L k.machine L.kroot
        (pagePath k.machine.paging.mode (slotBase slot + i * FRAME_SIZE)) e := by
    intro slot i e hslot hi hl
    rcases hm.new _ _ e hl with hl | ⟨_, hq⟩
    · exact hl
    · exact absurd hq.symm (kernelPage_not_slot hva hm.canonical hm.aligned hslot hi)
  refine h.grow hm.inv ⟨?_, ?_, ?_, ?_, ?_⟩ hm.edit.kroot (hm.edit.roots fun _ => not_lent_root)
    hm.edit.regs ?_ (fun q e => hm.kept _ q e) (hm.edit.reserved fun _ => lent_state) rfl
  · intro t s ht
    have : k.stackOf t = some s := ht
    rw [h.stackOf] at this
    cases this
  · intro t t' s ht
    have : k.stackOf t = some s := ht
    rw [h.stackOf] at this
    cases this
  · intro slot i e hslot hi hl
    rw [hm.edit.kroot, hp] at hl
    have hrole := h.kstacks.leaves slot i e hslot hi (hold hslot hi hl)
    rw [hp, hm.edit.role_eq (by rw [hrole]; exact not_lent_data), hrole]
  · intro slot i e hslot hi hu hl
    rw [hm.edit.kroot, hp] at hl
    exact h.kstacks.unused slot i e hslot hi hu (hold hslot hi hl)
  · exact h.kstacks.anchor.congr hm.edit.kroot hp fun e => hm.kept _ _ e
  · intro r q e i hl hq
    rcases hm.new r q e hl with hl | ⟨_, rfl⟩
    · exact .inl hl
    · rw [pagePath_getLast] at hq
      cases hq
      exact .inr (rootIndex_upper hm.canonical hva.1)

/-- The first address space before it has pages. -/
theorem Booting.newRoot (h : Booting b L k) {f : ℕ} {m : Machine}
    (hn : NewRoot L k.machine f m) : f ≠ L.kroot ∧ BootUser f (L.set f (.table f [])) m ∧
      SpaceOf (L.set f (.table f [])) m ⟨m.table f, .user⟩ f := by
  have hne : f ≠ L.kroot := by
    rintro rfl
    have := hn.free
    rw [h.mem.kroot] at this
    cases this
  refine ⟨hne, ?_, rfl, Layout.set_role_self L f _, by rw [Layout.set_kroot, if_neg hne]⟩
  intro r q e i hl hq hi
  have := h.upper r q e i ((hn.leaf r q e).mp hl) hq
  omega

/-- Where the archive is. -/
theorem Booting.archive_toPhysical (h : Booting b L k) (hlen : 0 < b.initramfs.length) {p : ℕ}
    (hp : (k.machine.table L.kroot).toPhysical k.machine.mem b.initramfs.start = some p) :
    p = b.archiveStart := by
  obtain ⟨hal, e, hl, he⟩ := h.archive hlen
  have hc : k.machine.paging.mode.isCanonical b.initramfs.start = true := by
    by_contra hno
    have hcan : ¬ (k.machine.table L.kroot).isCanonical b.initramfs.start = true := hno
    simp [PageTable.toPhysical, hcan] at hp
  rw [h.mem.toPhysical_eq h.mem.kroot hc (.inl rfl),
    (h.mem.leaf_iff h.mem.kroot (.inl rfl) e).mpr hl, Option.map_some, Option.some.injEq, he,
    pageOffset_eq] at hp
  simp only [startAddress, FRAME_SIZE] at hp hal
  omega

/-- The pages behind the window are the archive's. -/
theorem Booting.window_other (h : Booting b L k) {i : ℕ} (hi : i * FRAME_SIZE < b.initramfs.length) :
    L.role (b.archiveStart / FRAME_SIZE + i) = .other := by
  have := h.other (b.archiveStart + i * FRAME_SIZE) (by omega) (by omega)
  rwa [Nat.add_mul_div_right _ _ (by decide : 0 < FRAME_SIZE)] at this

/-- The user pages of the root `r`, and a page of the image. -/
def BootInfo.firstPages (b : BootInfo) (m : Machine) (r : ℕ) : BootPages where
  root := r
  entry v := if v < USER_SPACE_END ∧ v % FRAME_SIZE = 0 then m.leaf r v else none
  anchor := b.textStart

theorem BootInfo.firstPages_entry {m : Machine} {r v : ℕ} {e : Word} :
    (b.firstPages m r).entry v = some e ↔
      v < USER_SPACE_END ∧ v % FRAME_SIZE = 0 ∧ m.leaf r v = some e := by
  simp only [BootInfo.firstPages]
  split_ifs with hv
  · simp [hv]
  · simp only [false_iff]
    exact fun h => hv ⟨h.1, h.2.1⟩

/-- The resources of the kernel when the first address space is furnished. -/
theorem Booting.furnished (h : Booting b L k) {f : ℕ} {m m' : Machine}
    (hn : NewRoot L k.machine f m) (hf : Furnished f (L.set f (.table f [])) m L' m') {id : ℕ}
    (hid : id < MAX_ADDRESS_SPACES) : ResInv (b.firstPages m' f) L' { k with
      machine := m'
      kernelSpace := some ⟨m'.table L'.kroot, .kernel⟩
      spaces := k.spaces.set id (some ⟨m'.table f, .user⟩) } := by
  obtain ⟨hne, _, hs⟩ := h.newRoot hn
  have hregs := hn.regs.trans hf.regs
  have hkroot : L'.kroot = L.kroot := hf.kroot
  have hget : ∀ id', (k.spaces.set id (some ⟨m'.table f, .user⟩)).get id' =
      if id' = id then some ⟨m'.table f, .user⟩ else none := by
    intro id'
    rw [Slots.get_set _ hid]
    split_ifs
    · rfl
    · rw [h.only]
      rfl
  obtain ⟨k', hk'⟩ : ∃ k' : Kernel, k' = { k with
      machine := m'
      kernelSpace := some ⟨m'.table L'.kroot, .kernel⟩
      spaces := k.spaces.set id (some ⟨m'.table f, .user⟩) } := ⟨_, rfl⟩
  rw [← hk']
  have hm' : k'.machine = m' := by rw [hk']
  have hroot : ∀ id', k'.rootOf id' = if id' = id then some f else none := by
    intro id'
    rw [Kernel.rootOf, hk', hget]
    split_ifs <;> rfl
  have hhandle : ∀ t i, k'.handleAt t i = none := by
    intro t i
    rw [Kernel.handleAt, hk', h.get]
    rfl
  have htyped : L'.role f = .table f [] := hf.roots f hs.typed
  have hleaf : ∀ q e, LeafAt L' m' L.kroot q e ↔ LeafAt L k.machine L.kroot q e := by
    intro q e
    exact (hf.kernel q e).trans (hn.leaf _ q e)
  refine ⟨by rw [hm']; exact hf.inv, ⟨by rw [hk'], ?_, ?_, ⟨id, by rw [hroot, if_pos rfl]; rfl⟩⟩,
    ⟨?_, ?_, ?_, ?_, ?_⟩, ?_⟩
  · intro id' s hs'
    rw [hk', hget] at hs'
    split_ifs at hs' with he
    cases hs'
    have hkf : (m'.table f).frame ≠ L'.kroot := by
      rw [hkroot]
      exact hne
    exact ⟨hkf, by rw [hm']; rfl, htyped, by rw [if_neg hkf]⟩
  · intro id₁ id₂ r h₁ h₂
    rw [hroot] at h₁ h₂
    split_ifs at h₁ h₂ with he₁ he₂
    rw [he₁, he₂]
  · intro t i f' rights hh
    rw [hhandle] at hh
    cases hh
  · intro t i f' id' v rights hh
    rw [hhandle] at hh
    cases hh
  · intro t i id' rights hh
    rw [hhandle] at hh
    cases hh
  · intro r q e i hl hq hi
    rw [hm'] at hl ⊢
    obtain ⟨rfl, v, rfl, hv, hal, _⟩ := hf.user r q e i hl hq hi
    refine ⟨v, hv, hal, rfl, .inr ⟨rfl, BootInfo.firstPages_entry.mpr ⟨hv, hal, ?_⟩⟩⟩
    exact (hf.inv.leaf_iff htyped (.inr (rootIndex_user _ hv)) e).mpr hl
  · intro v e he
    obtain ⟨hv, hal, hl⟩ := BootInfo.firstPages_entry.mp he
    have hl' := (hf.inv.leaf_iff htyped (.inr (rootIndex_user _ hv)) e).mp hl
    rw [hm']
    refine ⟨hv, hal, hl', ?_⟩
    obtain ⟨_, v', hq, hv', hal', hrole⟩ := hf.user f _ e _ hl' (pagePath_getLast _ _)
      (rootIndex_user _ hv)
    have hvv := pagePath_inj (user_canonical _ hv) (user_canonical _ hv') hal hal' hq
    rw [hvv]
    exact hrole
  · have hst : StacksInv b.pages L' k' := h.kstacks.congr hkroot (by rw [hm']; exact hregs.paging)
      (fun g v hg => hf.kstack g v ?_) (by rw [hm']; exact hleaf) (fun t => by rw [hk']; rfl)
      (fun _ hu => by rw [hk']; exact hu)
    · exact ⟨hst.ready, hst.inj, hst.leaves, hst.unused, hst.anchor⟩
    · rw [Layout.set_role_of_ne, hg]
      rintro rfl
      rw [hn.free] at hg
      cases hg

section Boot

variable {E : Stop → Kernel → Prop} (hE : ∀ p k', E (.panicked p) k')

include hE

theorem bootExpect_sat {ε α : Type} {Q : α → Kernel → Prop} {r : Except ε α}
    (hQ : ∀ a, r = .ok a → Q a k) : (bootExpect r).Sat k Q E := by
  cases r with
  | error e => exact hE _ _
  | ok a => exact hQ a rfl

/-- `_start` until the kernel's address space is made. -/
theorem newKernel_booting (hok : b.Ok) {Q : AddressSpace → Kernel → Prop}
    (hQ : ∀ L k, Booting b L k → Q ⟨k.machine.table L.kroot, .kernel⟩ k) :
    (do
      let allocator ← (onMachine (FrameAllocator.new b.memoryMap b.directMap) >>= bootExpect)
      onMachine (modifyAllocator fun _ => allocator)
      onMachine (AddressSpace.newKernel b.directMap b.memoryMap b.textSegment b.rodataSegment
        b.dataSegment b.paging) >>= bootExpect : KM AddressSpace).Sat b.initial Q E := by
  simp only [Prog.sat_bind, sat_onMachine]
  refine frameAllocatorNew_sat (hok.apart.imp MemoryRegion.Apart.disjoint) ?_ (fun _ _ => hE _ _) ?_
  · intro region hr _ x hx
    have hbelow := hok.direct region hr
    have htop : KERNEL_STACK_BASE < USIZE_END := by decide
    rw [DirectMap.translate, checkedAdd, if_pos]
    · rfl
    · have := hx.2
      simp only [BootInfo.directMap]
      omega
  · intro a L₀ m₀ hclassified
    have ha := hclassified.inv
    have hdm := hclassified.direct
    have hm₀ := hclassified.memory
    have hroles := hclassified.roles
    obtain ⟨last, hlast, -, hend⟩ := hclassified.last
    refine bootExpect_sat hE ?_
    intro a' he
    cases he
    simp only [modifyAllocator, Prog.sat_modify]
    have hnone : ∀ g r p, L₀.role g ≠ .table r p := by
      intro g r p hg
      rcases hroles g with h | ⟨h | h, _⟩ <;> rw [hg] at h <;> cases h
    have hpaging : (m₀.withAllocator a).paging = b.paging := by
      rw [hm₀]
      rfl
    have hdm' : (m₀.withAllocator a).allocator.directMap = b.directMap := hdm
    have hoffset : (m₀.withAllocator a).allocator.directMap.offset = b.hhdmOffset := by
      rw [hdm']
      rfl
    have hbound : startAddress (m₀.withAllocator a).frameCount ≤
        (m₀.withAllocator a).paging.physicalAddressLimit := by
      rw [hpaging]
      exact hend.trans (hok.physical last hlast)
    have hnew := newKernel_made (m := m₀.withAllocator a) (E := fun e m =>
        E (.panicked (.memory e)) { b.initial with machine := m })
      (Q := fun r m => (bootExpect r).Sat { b.initial with machine := m } Q E)
      (fun _ _ => hE _ _) ha hnone hbound (by rw [hm₀]; rfl) (by rw [hm₀]; exact fun _ => rfl)
      b.memoryMap b.textSegment b.rodataSegment b.dataSegment (by rw [hoffset]; exact hok.upper)
      (by rw [hoffset]; exact hok.direct) ?_ ?_ (Nat.sub_pos_of_lt hok.text) (fun _ _ => hE _ _) ?_
    · rw [hdm', hpaging] at hnew
      exact hnew
    · intro segment hs
      obtain ⟨h₁, h₂, h₃⟩ := hok.image
      rcases List.mem_cons.mp hs with rfl | hs
      · exact h₁
      rcases List.mem_cons.mp hs with rfl | hs
      · exact h₂
      rw [List.mem_singleton.mp hs]
      exact h₃
    · intro segment hs
      rcases List.mem_cons.mp hs with rfl | hs
      · rfl
      rcases List.mem_cons.mp hs with rfl | hs
      · rfl
      rw [List.mem_singleton.mp hs]
      rfl
    · intro L m hmade
      rw [hdm'] at hmade
      have hreserved : ∀ f, L₀.role f = .other ∨ L₀.role f = .storage → L.role f = L₀.role f := by
        intro f hf
        refine hmade.reserved f (.inl ?_)
        rcases hf with hf | hf <;> rw [hf] <;> rfl
      refine bootExpect_sat hE fun space hspace => ?_
      cases hspace
      refine hQ L { b.initial with machine := m } ⟨hmade.inv, ⟨?_, ?_, ?_, ?_, hmade.anchor⟩,
        hmade.only.roots, ?_, ?_, ?_, hmade.archive hok rfl, rfl, ?_⟩
      · intro t s ht
        cases ht
      · intro t t' s ht
        cases ht
      · intro slot i e hslot hi hl
        exact absurd hl (hmade.only.not_slot hslot hi _ e)
      · intro slot i e hslot hi _
        exact hmade.only.not_slot hslot hi _ e
      · intro r q e i hl hq
        obtain ⟨_, v, hv, hc, _, rfl⟩ := hmade.only.leaves r q e hl
        rw [pagePath_getLast] at hq
        cases hq
        exact rootIndex_upper hc hv.1
      · intro x hx hx'
        rcases hroles (x / FRAME_SIZE) with hf | ⟨_, region, hr, hk, hcov⟩
        · rw [hreserved _ (.inl hf), hf]
        · exact absurd hcov (hok.archive_apart hr (.inl hk) hx hx')
      · intro region hr hkind f hcov hs
        have hs₀ : L₀.role f = .storage := by
          rw [← hmade.reserved f (.inr (by rw [hs]; rfl)), hs]
        rcases hroles f with hf | ⟨_, store, hstore, hk, hcov'⟩
        · rw [hs₀] at hf
          cases hf
        · exact covers_unique hok.apart hr hstore (.inr hkind) (by rw [hk, hkind]; simp) hcov
            (startAddress_div f) hcov'.byte
      · show m.handBacks = []
        rw [hmade.regs.handBacks, hm₀]
        rfl

theorem allocateKernelStack_booting {Q : KernelStack → Kernel → Prop} (h : Booting b L k)
    (hQ : ∀ slot L' k', Booting b L' k' → L'.kroot = L.kroot → Regs k.machine k'.machine →
      StackReady L' k'.machine slot → k'.sched.stackPool.used slot = true →
      Q (stackAt slot) k') :
    (allocateKernelStack ⟨k.machine.table L.kroot, .kernel⟩ >>= bootExpect).Sat k Q E := by
  simp only [allocateKernelStack, Prog.sat_bind, Prog.sat_get, sat_onMachine]
  refine KernelStackPool.allocate_sat (fun _ => h.kstacks.anchor.run h.spaceOf h.mem) ?_
    (fun _ _ _ _ _ _ _ _ _ => hE _ _) (fun _ => hE _ _)
  intro slot pool frames L' m _ hunused _ hused hp hready
  have hpool : ∀ s, pool.used s = true ↔ k.sched.stackPool.used s = true ∨ s = slot := by
    intro s
    rw [hused, Bool.or_eq_true, decide_eq_true_eq]
  have hslot := hready.bound
  refine hQ slot L' { k with machine := m, sched := { k.sched with stackPool := pool } } ?_
    hp.added.edit.kroot hp.added.edit.regs hready ((hpool slot).mpr (.inr rfl))
  refine h.grow hp.added.inv (h.kstacks.made hunused hp hready hpool fun _ => rfl) hp.added.edit.kroot
    (hp.added.edit.roots fun _ => not_runRole_root) hp.added.edit.regs ?_ ?_
    (hp.added.edit.reserved fun _ => slotRole_state) rfl
  · intro r q e i hl hq
    by_cases hi : i < 256
    · exact .inl ((SlotMade.user hslot hp r q e i hq hi).mp hl)
    · exact .inr (by omega)
  · intro q e hl
    by_cases hin : ∃ i < KERNEL_STACK_PAGES,
        q = pagePath k.machine.paging.mode (slotBase slot + FRAME_SIZE + i * FRAME_SIZE)
    · obtain ⟨i, hi, rfl⟩ := hin
      exact absurd hl (hp.added.fresh i hi e)
    · exact (hp.outside _ q e fun h => hin h.2).mpr hl

/-- The handoff to the kernel's address space. -/
theorem handoff_booting {Q : Unit → Kernel → Prop} (hok : b.Ok) (h : Booting b L k)
    (stack : KernelStack)
    (hQ : ∀ L' k', Booting b L' k' → k'.machine.table L'.kroot = k.machine.table L.kroot →
      Q () k') :
    (do
      let handoff ← onMachine FrameAllocator.alloc
      let handoffFrame ← Prog.expect (.panicked .bootFailed) handoff
      onMachine (Prog.modify fun m => { m with fills := b.fills })
      onMachine (k.machine.table L.kroot).activate
      onMachine (Prog.modify fun m => { m with kernelStackTop := stack.top })
      onMachine (FrameAllocator.dealloc handoffFrame)
      onMachine (FrameAllocator.reclaimRegions b.memoryMap .bootloaderReclaimable) :
        KM Unit).Sat k Q E := by
  simp only [Prog.sat_bind, sat_onMachine]
  refine h.mem.alloc_sat (fun _ => hE _ _) ?_
  intro f m₁ htaken _
  rw [Prog.sat_expect_some]
  simp only [Prog.sat_modify, sat_activate]
  have h₂ := (h.taken htaken).entered b.fills stack.top
  refine h₂.mem.dealloc_sat (Layout.set_role_self L f _) ?_
  intro m₃ hgiven
  have h₃ := h₂.given (Layout.set_role_self L f _) hgiven
  refine reclaimAll_sat h₃.mem.alloc (fun _ _ _ => hE _ _) h₃.store ?_
  intro L' m' hreclaimed
  have hr := hreclaimed.restored (r := L.kroot) h₃.mem
  refine hQ L' _ (h₃.reclaimed hok hreclaimed) ?_
  rw [hr.edit.kroot]
  exact (hr.edit.regs.table _).trans ((hgiven.only.regs.table _).trans (htaken.only.regs.table _))

theorem map_booting {Q : Unit → Kernel → Prop} (h : Booting b L k) {space : AddressSpace}
    (hs : space = ⟨k.machine.table L.kroot, .kernel⟩) {va pa : ℕ} (hva : KernelPage va)
    {cachePolicy : CachePolicy}
    (hQ : ∀ L' k', Booting b L' k' → space = ⟨k'.machine.table L'.kroot, .kernel⟩ → Q () k') :
    (onMachine (space.map pa va ⟨true, false, false⟩ cachePolicy) >>= bootExpect).Sat k Q E := by
  simp only [Prog.sat_bind, sat_onMachine]
  refine AddressSpace.map_mapped (hs ▸ h.spaceOf) h.mem (.inr (.inr h.roots)) (fun _ => hva.1)
    (by simp) (fun _ _ => hE _ _) ?_
  intro L' m hm
  refine hQ L' _ (h.mapped hva hm) ?_
  rw [hs, hm.edit.kroot]
  exact congrArg (AddressSpace.mk · .kernel) (hm.edit.regs.table _).symm

theorem initInterruptController_booting {Q : Unit → Kernel → Prop} (h : Booting b L k)
    {space : AddressSpace} (hs : space = ⟨k.machine.table L.kroot, .kernel⟩)
    (hQ : ∀ L' k', Booting b L' k' → space = ⟨k'.machine.table L'.kroot, .kernel⟩ → Q () k') :
    (initInterruptController b space).Sat k Q E := by
  have hapic : KernelPage LOCAL_APIC_VIRTUAL_ADDRESS := ⟨by decide, .inl (by decide)⟩
  have hio : KernelPage IOAPIC_VIRTUAL_ADDRESS := ⟨by decide, .inl (by decide)⟩
  rw [initInterruptController]
  cases b.localApic with
  | none => exact map_booting hE h hs hio hQ
  | some address =>
    rw [Prog.sat_bind]
    refine map_booting hE h hs hapic ?_
    intro L' k' h' hs'
    exact map_booting hE h' hs' hio hQ

/-- The state before the first dispatch. -/
structure Loaded (b : BootInfo) (B : BootPages) (L : Layout) (id asId : ℕ) (t : Tcb)
    (k : Kernel) : Prop where
  res : ResInv B L k
  sched : SchedInv k.sched
  get : ∀ j, k.sched.tasks.get j = if j = id then some t else none
  space : t.asId = asId ∧ k.rootOf asId = some B.root
  context : ∃ entry userStack, t.context = .userEntry entry userStack
  mailbox : t.mailbox = Mailbox.new
  handles : ∀ i, t.handles.get i =
    if i = 1 then some ⟨.thread id, Rights.READ ||| Rights.WRITE ||| Rights.EXECUTE⟩
    else if i = 0 then some ⟨.addressSpace asId, Rights.READ ||| Rights.WRITE ||| Rights.EXECUTE⟩
    else none
  spaces : ∀ j s, k.spaces.get j = some s → j = asId
  rest : k.sched.current = none ∧ k.pending = none ∧ k.accesses = [] ∧
    k.machine.handBacks = [] ∧ k.debugAssertions = b.debugAssertions

theorem newUser_booting {Q : AddressSpace → Kernel → Prop} (h : Booting b L k)
    (hQ : ∀ f m, NewRoot L k.machine f m → Q ⟨m.table f, .user⟩ { k with machine := m }) :
    (onMachine (AddressSpace.newUser ⟨k.machine.table L.kroot, .kernel⟩) >>= bootExpect).Sat k Q
      E := by
  simp only [Prog.sat_bind, sat_onMachine]
  refine newUser_sat h.spaceOf h.mem (hE _ _) ?_
  intro f m hn
  exact bootExpect_sat hE fun space he => by
    cases he
    exact hQ f m hn

section Furnish

variable {space : AddressSpace} {r : ℕ} {m : Machine} (hs : SpaceOf L m space r)
  (hm : MemInv noPages L m) (hr : r ≠ L.kroot) (hu : BootUser r L m)

include hs hm hr hu

theorem window_furnished {Q : Unit → Kernel → Prop} {phys length : ℕ}
    (hother : phys % FRAME_SIZE = 0 → ∀ i < length / FRAME_SIZE,
      L.role (phys / FRAME_SIZE + i) = .other)
    (hQ : ∀ L' m', Furnished r L m L' m' → Q () { k with machine := m' }) :
    (onMachine (space.mapRange phys INITRAMFS_WINDOW length ⟨true, false, true⟩ .writeBack)
      >>= bootExpect).Sat { k with machine := m } Q E := by
  simp only [Prog.sat_bind, sat_onMachine]
  refine mapRange_mapped (fun _ _ => hE _ _) hs hm (.inr (.inl hr)) (by simp [hr])
    (fun _ _ hk => absurd hk hr) (fun _ _ => hE _ _) ?_
  intro L' m' hrange _ hal
  refine hQ _ m' (hrange.furnished (fun i hi => hother (hal ?_).1 i hi) hr hu)
  rintro rfl
  simp at hi

theorem userStack_booting {Q : StackMapping → Kernel → Prop}
    (hQ : ∀ stack L' m', Furnished r L m L' m' → Q stack { k with machine := m' }) :
    (onMachine (UserStack.allocate space) >>= bootExpect).Sat { k with machine := m } Q E := by
  simp only [Prog.sat_bind, sat_onMachine]
  exact userStack_furnished hs hm hr hu (fun _ _ => hE _ _) hQ

theorem loadElf_booting {Q : ℕ → Kernel → Prop} {bytes : Slice}
    (hQ : ∀ entry L' m', Furnished r L m L' m' → Q entry { k with machine := m' }) :
    (onMachine (loadElf bytes space) >>= bootExpect).Sat { k with machine := m } Q E := by
  simp only [Prog.sat_bind, sat_onMachine]
  exact loadElf_furnished (fun _ _ => hE _ _) hr hs hm hu (fun _ _ => hE _ _) hQ

end Furnish

/-- The first task is registered. -/
theorem addFirst_loaded {Q : ℕ → Kernel → Prop} (h : Booting b L k) {slot : ℕ}
    (hready : StackReady L k.machine slot) (hused : k.sched.stackPool.used slot = true)
    {f : ℕ} {m m' : Machine} (hn : NewRoot L k.machine f m)
    (hf : Furnished f (L.set f (.table f [])) m L' m') {entry top : ℕ}
    (hQ : ∀ B L' id asId t k', Loaded b B L' id asId t
      { k' with kernelSpace := some ⟨k.machine.table L.kroot, .kernel⟩ } → Q id k') :
    (do
      let asId ← (insertAddressSpace ⟨m.table f, .user⟩ >>= bootExpect)
      let task ← Prog.expect (.panicked .addressSpaceHandleRejected)
        (Tcb.newUser asId (stackAt slot) entry top)
      addTask task >>= bootExpect : KM ℕ).Sat { k with machine := m' } Q E := by
  simp only [insertAddressSpace, Prog.sat_bind, Prog.sat_get]
  cases hfirst : k.spaces.firstEmpty with
  | none => exact hE _ _
  | some asId =>
    obtain ⟨hlt, hnone⟩ := Slots.firstEmpty_some hfirst
    simp only [Prog.sat_bind, Prog.sat_modify, Prog.sat_pure]
    refine bootExpect_sat hE fun asId' he => ?_
    cases he
    have htcb := newUser_eq asId (stackAt slot) entry top
    generalize hnew : Tcb.newUser asId (stackAt slot) entry top = made at htcb
    rw [htcb, Prog.sat_expect_some]
    rw [htcb] at hnew
    have hregs := hn.regs.trans hf.regs
    have hspace : (⟨k.machine.table L.kroot, .kernel⟩ : AddressSpace) =
        ⟨m'.table L'.kroot, .kernel⟩ := by
      rw [hf.kroot, hregs.table]
      rfl
    have htable : m.table f = m'.table f := (hf.regs.table f).symm
    rw [htable]
    have hres := h.furnished hn hf hlt
    rw [← hspace] at hres
    refine addTask_added ?_ hnew (fun _ => hE _ _) ?_
    · have := SchedInv.new
      rw [h.only]
      exact this.congr rfl rfl (fun _ => rfl) this.ids
    intro id t k₇ hadd
    refine bootExpect_sat hE fun id' he => ?_
    cases he
    have hadd' := hadd.withKernel (some ⟨k.machine.table L.kroot, .kernel⟩)
    have hroot : Kernel.rootOf { k with
        machine := m'
        kernelSpace := some ⟨k.machine.table L.kroot, .kernel⟩
        spaces := k.spaces.set asId (some ⟨m'.table f, .user⟩) } asId = some f := by
      rw [Kernel.rootOf, Slots.get_set_self _ hlt]
      rfl
    have hready' : StackReady L' m' slot := by
      refine hready.congr hf.kroot hregs.paging (fun g v hg => hf.kstack g v ?_)
        fun q e => (hf.kernel q e).trans (hn.leaf _ q e)
      rw [Layout.set_role_of_ne, hg]
      rintro rfl
      rw [hn.free] at hg
      cases hg
    have hnostack : ∀ t' s, k.stackOf t' = some s → s ≠ stackAt slot := by
      intro t' s ht'
      rw [h.stackOf] at ht'
      cases ht'
    have hres' := hadd'.res hres hroot hready' hused hnostack
    refine hQ (b.firstPages m' f) L' id asId t k₇ ⟨hres', hadd.sched, ?_, ⟨hadd.space, ?_⟩,
      hadd.context, hadd.mailbox, hadd.handles, ?_, ?_⟩
    · intro j
      rw [hadd.get]
      split_ifs
      · rfl
      · exact h.get j
    · rw [hadd.only]
      exact hroot
    · intro j s hs
      rw [hadd.only] at hs
      by_contra hj
      have hget : (k.spaces.set asId (some ⟨m'.table f, .user⟩)).get j = some s := hs
      rw [Slots.get_set_of_ne _ hj, h.only] at hget
      cases hget
    · rw [hadd.only, h.only]
      refine ⟨rfl, rfl, rfl, ?_, rfl⟩
      exact hregs.handBacks.trans h.handBacks

theorem spawn_loaded {Q : ℕ → Kernel → Prop} (h : Booting b L k) {space : AddressSpace}
    (hs : space = ⟨k.machine.table L.kroot, .kernel⟩) {name : String}
    (hQ : ∀ B L' id asId t k', Loaded b B L' id asId t { k' with kernelSpace := some space } →
      Q id k') : (spawn name b.initramfs space).Sat k Q E := by
  rw [spawn, Prog.sat_bind, Prog.sat_get, Prog.sat_bind]
  cases Cpio.findFile k.machine.directByte ⟨b.initramfs.start, b.initramfs.length⟩ name with
  | none => exact hE _ _
  | some bytes =>
    rw [Prog.sat_expect_some, Prog.sat_bind]
    subst hs
    refine allocateKernelStack_booting hE h ?_
    intro slot L₁ k₁ h₁ hk₁ hregs₁ hready hused
    rw [Prog.sat_bind, Prog.sat_get, Prog.sat_bind]
    have htab : k.machine.table L.kroot = k₁.machine.table L₁.kroot := by
      rw [hk₁, hregs₁.table]
    rw [htab] at hQ ⊢
    cases hphys : AddressSpace.toPhysical ⟨k₁.machine.table L₁.kroot, .kernel⟩ k₁.machine.mem
        b.initramfs.start with
    | none => exact hE _ _
    | some phys =>
      rw [Prog.sat_expect_some, Prog.sat_bind]
      refine newUser_booting hE h₁ ?_
      intro f m₂ hn
      have hne := (h₁.newRoot hn).1
      have hu := (h₁.newRoot hn).2.1
      have hs₂ := (h₁.newRoot hn).2.2
      rw [Prog.sat_bind, sat_onMachine, addUsize]
      generalize hadd : checkedAdd b.initramfs.length 0xFFF = sum
      cases sum with
      | none => exact hE _ _
      | some length =>
        rw [Prog.sat_expect_some, Prog.sat_bind]
        have hlength : length = b.initramfs.length + 0xFFF := by
          rw [checkedAdd] at hadd
          split_ifs at hadd
          exact (Option.some.inj hadd).symm
        refine window_furnished hE hs₂ hn.inv hne hu ?_ ?_
        · intro hal i hi
          have hlt : i * FRAME_SIZE < b.initramfs.length := by
            rw [hlength] at hi
            simp only [alignDownToFrame, FRAME_SIZE] at hi ⊢
            omega
          have hp := h₁.archive_toPhysical (by omega) hphys
          have hrole := h₁.window_other hlt
          rw [hp, Layout.set_role_of_ne, hrole]
          rintro hf
          rw [hf, hn.free] at hrole
          cases hrole
        intro L₃ m₃ hf₃
        rw [Prog.sat_bind]
        refine userStack_booting hE (hf₃.spaceOf hs₂) hf₃.inv (by rwa [hf₃.kroot]) hf₃.user ?_
        intro stack L₄ m₄ hf₄
        rw [Prog.sat_bind]
        have hf := hf₃.trans hf₄
        refine loadElf_booting hE (hf.spaceOf hs₂) hf.inv (by rwa [hf.kroot]) hf.user ?_
        intro entry L₅ m₅ hf₅
        exact addFirst_loaded hE h₁ hready hused hn (hf.trans hf₅) hQ

end Boot

/-- The state in which the first user task `id` starts. -/
structure Booted (b : BootInfo) (B : BootPages) (L : Layout) (id asId : ℕ) (t : Tcb)
    (k : Kernel) : Prop where
  inv : KInv B L k
  get : ∀ j, k.sched.tasks.get j = if j = id then some t else none
  current : k.sched.current = some id
  space : t.asId = asId
  mailbox : t.mailbox = Mailbox.new
  handles : ∀ i, t.handles.get i =
    if i = 1 then some ⟨.thread id, Rights.READ ||| Rights.WRITE ||| Rights.EXECUTE⟩
    else if i = 0 then some ⟨.addressSpace asId, Rights.READ ||| Rights.WRITE ||| Rights.EXECUTE⟩
    else none
  spaces : ∀ j s, k.spaces.get j = some s → j = asId
  pending : ∃ entry userStack, k.pending = some (.userEntry entry userStack)
  accesses : k.accesses = []
  handBacks : k.machine.handBacks = []
  debug : k.debugAssertions = b.debugAssertions

theorem Loaded.start {B : BootPages} {id asId next : ℕ} {t n : Tcb}
    (h : Loaded b B L id asId t k) (hn : k.sched.tasks.get next = some n)
    (hs : SchedInv k'.sched) (hcur : k'.sched.current = some next)
    (honly : k' = { k with
      sched := { k.sched with
        current := some next
        tasks := k.sched.tasks.set next (some { n with state := .running })
        ready := k'.sched.ready }
      machine := k.installed true n
      pending := some n.context }) :
    Booted b B L id asId { t with state := .running } k' := by
  obtain ⟨rfl, rfl⟩ : next = id ∧ n = t := by
    rw [h.get] at hn
    split_ifs at hn with he
    exact ⟨he, (Option.some.inj hn).symm⟩
  obtain ⟨entry, userStack, hc⟩ := h.context
  have hroot : k.rootOf n.asId = some B.root := by
    rw [h.space.1]
    exact h.space.2
  obtain ⟨hmem, hcr3, htop, hwords, hhb, htables⟩ := installed_spec h.res hroot
    true (by simp)
  have hmach : k'.machine = k.installed true n := by rw [honly]
  rw [← hmach] at hmem hcr3 htop hwords hhb htables
  have hget : ∀ j, k'.sched.tasks.get j =
      if j = next then some { n with state := .running } else none := by
    intro j
    rw [honly]
    show (k.sched.tasks.set next _).get j = _
    rw [Slots.get_set _ (Slots.lt_of_get hn), h.get]
    split_ifs <;> rfl
  have hget' : ∀ {α : Type} (g : Tcb → Option α) (hg : g { n with state := .running } = g n) (j : ℕ),
      (k'.sched.tasks.get j).bind g = (k.sched.tasks.get j).bind g := by
    intro α g hg j
    rw [hget, h.get]
    split_ifs
    · exact hg
    · rfl
  have hrootOf : ∀ j, k'.rootOf j = k.rootOf j := fun j => by
    rw [Kernel.rootOf, honly, Kernel.rootOf]
  have htask : ∀ j u, k'.sched.tasks.get j = some u → u = { n with state := .running } := by
    intro j u hu
    rw [hget] at hu
    split_ifs at hu
    exact (Option.some.inj hu).symm
  have hmail : n.mailbox.Ok := by
    rw [h.mailbox]
    exact Mailbox.Ok.new
  obtain ⟨_, _, hacc, hhb₀, hdebug⟩ := h.rest
  have hacc' : k'.accesses = [] := by rw [honly]; exact hacc
  have hhb' : k'.machine.handBacks = [] := hhb.trans hhb₀
  have hat : ∀ i, k'.handleAt next i = n.handles.get i := by
    intro i
    rw [Kernel.handleAt, hget, if_pos rfl]
    rfl
  have hhandles : HandlesInv k' := by
    refine ⟨?_, ?_⟩
    · intro j i id rights hh
      obtain ⟨task, hj, hh'⟩ := Kernel.handleAt_some.mp hh
      have hu : task.handles.get i = n.handles.get i := by rw [htask j task hj]
      rw [hu, h.handles] at hh'
      split_ifs at hh'
      · cases hh'
        exact ⟨_, by rw [hget, if_pos rfl]⟩
      · cases hh'
    · intro j task hj
      have hnext : j = next := by
        rw [hget] at hj
        split_ifs at hj with he
        exact he
      rw [htask j task hj, hnext, hat, hat, h.handles, h.handles, h.space.1]
      exact ⟨rfl, rfl⟩
  refine ⟨⟨?_, ⟨hs, ?_, ?_, ?_, ?_, ?_⟩, hhandles, ⟨?_, ?_⟩⟩, hget, hcur, h.space.1, h.mailbox,
    h.handles, ?_,
    ⟨entry, userStack, by rw [honly, ← hc]⟩, hacc', hhb', by rw [honly]; exact hdebug⟩
  · refine h.res.quiet hmem htables hwords ⟨by rw [honly], by rw [honly], ?_, by rw [honly]⟩ ?_
    · intro j
      have := hget' (fun u => some u.kernelStack) rfl j
      simpa [Kernel.stackOf, Option.map_eq_bind, Function.comp_def] using this
    · intro j i
      exact hget' (fun u => u.handles.get i) rfl j
  · refine ⟨next, { n with state := .running }, hcur, by rw [hget, if_pos rfl], ?_, htop⟩
    rw [hrootOf, hcr3]
    exact hroot
  · intro j u hu
    rw [htask j u hu, hrootOf]
    exact ⟨_, hroot⟩
  · intro j u hu
    rw [htask j u hu]
    exact hmail
  · intro j u hu
    rw [htask j u hu]
    trivial
  · intro c cur u hp _ _
    have hpend : k'.pending = some n.context := by rw [honly]
    rw [hpend, hc] at hp
    cases hp
    trivial
  · rw [hacc']
    simp
  · rw [hhb']
    simp
  · intro j s hs
    rw [honly] at hs
    exact h.spaces j s hs

/-- What is asked of the end of the boot: nothing unless the first task is entered. -/
def BootEnd (b : BootInfo) (stop : Stop) (k : Kernel) : Prop :=
  stop = .switched → ∃ B L id asId t, Booted b B L id asId t k

theorem BootEnd.panicked (p : KernelPanic) (k : Kernel) : BootEnd b (.panicked p) k := by
  intro h
  cases h

/-- `kernel_main` from the new address space on. -/
def enterKernel (b : BootInfo) (name : String) (space : AddressSpace) : KM Unit := do
  let kernelStack ← (allocateKernelStack space >>= bootExpect)
  let handoff ← onMachine FrameAllocator.alloc
  let handoffFrame ← Prog.expect (.panicked .bootFailed) handoff
  onMachine (Prog.modify fun m => { m with fills := b.fills })
  onMachine space.root.activate
  onMachine (Prog.modify fun m => { m with kernelStackTop := kernelStack.top })
  onMachine (FrameAllocator.dealloc handoffFrame)
  onMachine (FrameAllocator.reclaimRegions b.memoryMap .bootloaderReclaimable)
  initInterruptController b space
  let _ ← spawn name b.initramfs space
  Prog.modify fun k => { k with kernelSpace := some space }
  start

theorem enterKernel_booted (hok : b.Ok) (h : Booting b L k) {name : String} {space : AddressSpace}
    (hs : space = ⟨k.machine.table L.kroot, .kernel⟩) :
    (enterKernel b name space).Sat k (fun _ _ => True) (BootEnd b) := by
  rw [enterKernel, Prog.sat_bind, hs]
  refine allocateKernelStack_booting BootEnd.panicked h ?_
  intro slot L₁ k₁ h₁ hk₁ hregs₁ _ _
  have hs₁ : space = ⟨k₁.machine.table L₁.kroot, .kernel⟩ := by
    rw [hs, hk₁, hregs₁.table]
  rw [← hs, hs₁]
  have hhandoff := handoff_booting (BootEnd.panicked (b := b)) hok h₁ (stackAt slot)
    (Q := fun _ k₂ => (do
      initInterruptController b ⟨k₁.machine.table L₁.kroot, .kernel⟩
      let _ ← spawn name b.initramfs ⟨k₁.machine.table L₁.kroot, .kernel⟩
      Prog.modify fun k => { k with kernelSpace := some ⟨k₁.machine.table L₁.kroot, .kernel⟩ }
      start : KM Unit).Sat k₂ (fun _ _ => True) (BootEnd b)) ?_
  · simp only [Prog.sat_bind] at hhandoff ⊢
    exact hhandoff
  intro L₂ k₂ h₂ htab
  rw [Prog.sat_bind, ← htab]
  refine initInterruptController_booting BootEnd.panicked h₂ rfl ?_
  intro L₃ k₃ h₃ hs₃
  rw [Prog.sat_bind]
  refine spawn_loaded BootEnd.panicked h₃ hs₃ ?_
  intro B L₄ id asId t k₄ hloaded
  rw [Prog.sat_bind, Prog.sat_modify]
  refine start_sat hloaded.sched hloaded.rest.1 (BootEnd.panicked _ _) ?_
  intro next n k₅ hn _ hsched hcur honly _
  exact ⟨B, L₄, id, asId, _, hloaded.start hn hsched hcur honly⟩

/-- A boot that reaches the first task establishes the invariant. -/
theorem kernelMain_booted (hok : b.Ok) (hk : b.started = some k) :
    ∃ B L id asId t, Booted b B L id asId t k := by
  have hsat : (kernelMain b).Sat b.initial (fun _ _ => True) (BootEnd b) := by
    have hfirst := newKernel_booting (BootEnd.panicked (b := b)) hok (Q := fun space k₁ =>
      (enterKernel b "omega3.elf" space).Sat k₁ (fun _ _ => True) (BootEnd b))
      (fun L k₁ h₁ => enterKernel_booted hok h₁ rfl)
    rw [kernelMain]
    simp only [enterKernel, Prog.sat_bind] at hfirst ⊢
    exact hfirst
  rw [BootInfo.started] at hk
  cases hrun : kernelMain b b.initial with
  | ok u k₁ => rw [hrun] at hk; cases hk
  | stop stop k₁ =>
    rw [hrun] at hk
    cases stop with
    | switched =>
      cases hk
      exact hsat.of_stop hrun rfl
    | _ => cases hk

section SmallBoot

/-- An executable of one page at `0x400000`. -/
def smallElf : List Byte :=
  [0x7f, 0x45, 0x4c, 0x46, 2, 1, 1, 0] ++ leBytes 8 0 ++ leBytes 2 2 ++ leBytes 2 62
    ++ leBytes 4 1 ++ leBytes 8 0x400000 ++ leBytes 8 64 ++ leBytes 8 0 ++ leBytes 4 0
    ++ leBytes 2 64 ++ leBytes 2 56 ++ leBytes 2 1 ++ leBytes 6 0
    ++ leBytes 4 1 ++ leBytes 4 5 ++ leBytes 8 0 ++ leBytes 8 0x400000 ++ leBytes 8 0x400000
    ++ leBytes 8 120 ++ leBytes 8 120 ++ leBytes 8 4096

/-- An archive that holds `omega3.elf`. -/
def smallArchive : List Byte :=
  (["070701", "00000000", "00000000", "00000000", "00000000", "00000000", "00000000", "00000078",
    "00000000", "00000000", "00000000", "00000000", "0000000B", "00000000",
    "omega3.elf"].map Cpio.strBytes).flatten ++ [0, 0, 0, 0] ++ smallElf

/-- A machine with half a megabyte of memory; the processor caches the pages of `fills`. -/
def smallBoot (fills : List ℕ) : BootInfo where
  memoryMap := [⟨0x8000, 0x3000, .kernelAndModules⟩, ⟨0xC000, 0x1000, .kernelAndModules⟩,
    ⟨0x10000, 0x70000, .usable⟩]
  hhdmOffset := 0xFFFF_8000_0000_0000
  physicalBase := 0x8000
  virtualBase := 0xFFFF_FFFF_8000_0000
  textStart := 0xFFFF_FFFF_8000_0000
  textEnd := 0xFFFF_FFFF_8000_1000
  rodataStart := 0xFFFF_FFFF_8000_1000
  rodataEnd := 0xFFFF_FFFF_8000_2000
  dataStart := 0xFFFF_FFFF_8000_2000
  dataEnd := 0xFFFF_FFFF_8000_3000
  initramfs := ⟨0xFFFF_8000_0000_C000, 244⟩
  paging := ⟨40, true, true, .fourLevel, PagingConfig.width_forty⟩
  localApic := some 0xFEE0_0000
  ioApic := 0xFEC0_0000
  memory := PhysMem.setFrame ⟨.nil⟩ 12 fun i => ofLanes fun k => smallArchive.getD (8 * i + k) 0
  fills := fun _ => fills
  debugAssertions := true

theorem smallBoot_ok (fills : List ℕ) : (smallBoot fills).Ok where
  apart := by simp [smallBoot, MemoryRegion.Apart]
  physical := by simp [smallBoot, PagingConfig.physicalAddressLimit]
  upper := by norm_num [smallBoot]
  direct := by simp [smallBoot, KERNEL_STACK_BASE]
  image := by simp [smallBoot]
  text := by norm_num [smallBoot]
  archive := by
    refine ⟨by norm_num [smallBoot], ⟨0xC000, 0x1000, .kernelAndModules⟩, by simp [smallBoot], rfl, ?_⟩
    simp [smallBoot]

theorem smallBoot_starts : ∃ k, (smallBoot []).started = some k :=
  Option.isSome_iff_exists.mp (by decide +kernel)

end SmallBoot

end Dusk
