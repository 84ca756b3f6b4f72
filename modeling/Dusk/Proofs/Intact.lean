import Dusk.Proofs.PageRuns
import Dusk.Proofs.Tables

/-! One address space by what the machine holds: a page table in order and an allocator
that keeps its books. Such a machine has a layout in which this page table is the only
one, whoever else uses the other frames, so that what is known of layouts holds for it. -/

namespace Dusk

open Lib Radix

variable {L L' : Layout} {m m' : Machine} {pt : PageTable} {space : AddressSpace} {f : ℕ}

/-- The frames that are free in the bitmap. -/
def Machine.freeFrameSet (m : Machine) : Finset ℕ :=
  (Finset.range m.frameCount).filter fun f => m.frameState f = some .free

/-- The allocator keeps its books: its bitmap can be read, does not offer its own
storage, and agrees with the counters. -/
structure Machine.SoundAllocator (m : Machine) : Prop where
  bitmap : ∃ store, m.allocator.bitmap.start = startAddress store + m.allocator.directMap.offset
  states : ∀ f < m.frameCount, (m.frameState f).isSome = true
  storage : ∀ f, m.BitmapFrame f → m.frameState f ≠ some .free ∧ m.frameState f ≠ some .allocated
  nextSearch : m.allocator.nextSearch ≤ m.frameCount
  freeFrames : m.allocator.freeFrames = m.freeFrameSet.card
  allocatableFrames : m.allocator.allocatableFrames = ((Finset.range m.frameCount).filter fun f =>
    m.frameState f = some .free ∨ m.frameState f = some .allocated).card
  direct : startAddress m.frameCount + m.allocator.directMap.offset ≤ USIZE_END

/-- The page table is in order. -/
structure PageTable.Intact (pt : PageTable) (m : Machine) : Prop where
  machine : pt = m.table pt.frame
  root : startAddress pt.frame < pt.config.physicalAddressLimit
  allocated : ∀ path f, pt.Node m.mem path f → m.frameState f = some .allocated
  /-- A table is reached on one path. -/
  path_unique : ∀ path path' f, pt.Node m.mem path f → pt.Node m.mem path' f → path = path'
  used : ∀ path f, pt.Node m.mem path f → path ≠ [] →
    ∃ i < PAGE_TABLE_ENTRIES, PageTableEntry.isPresent (m.mem.word f i) = true
  /-- The entries above the leaf tables. -/
  intermediate : ∀ path f i, pt.Node m.mem path f →
    path.length < pt.config.mode.intermediateLevels.length → i < PAGE_TABLE_ENTRIES →
    PageTableEntry.isPresent (m.mem.word f i) = true →
    ∃ g user, PageTableEntry.newTable g user pt.config = .ok (m.mem.word f i)
  /-- Above a user page every entry is user accessible. -/
  user : ∀ path f i, pt.Node m.mem path f →
    path.length = pt.config.mode.intermediateLevels.length → i < PAGE_TABLE_ENTRIES →
    PageTableEntry.isPresent (m.mem.word f i) = true →
    PageTableEntry.isUserAccessible (m.mem.word f i) = true →
    ∀ q j g, q ++ [j] <+: path → pt.Node m.mem q g →
      PageTableEntry.isUserAccessible (m.mem.word g j) = true
  zero : ∀ path f i, pt.Node m.mem path f → i < PAGE_TABLE_ENTRIES →
    PageTableEntry.isPresent (m.mem.word f i) = false → m.mem.word f i = 0

section Layouts

variable (ha : m.SoundAllocator)

include ha

/-- Such a machine keeps the books of every layout that tells the states of its frames. -/
theorem Machine.SoundAllocator.allocInv
    (hstore : m.allocator.bitmap.start = startAddress L.store + m.allocator.directMap.offset)
    (hstorage : ∀ f, m.BitmapFrame f → L.role f = .storage)
    (hstate : ∀ f < m.frameCount, m.frameState f = some (L.role f).state)
    (hbeyond : ∀ f, m.frameCount ≤ f → (L.role f).state = .reserved) : AllocInv L m := by
  have hbyte : ∀ i, m.allocator.bitmap.byteAddress m.allocator.directMap i / FRAME_SIZE =
      L.store + i / 4 / FRAME_SIZE := by
    intro i
    rw [Bitmap.byteAddress, hstore, DirectMap.physical]
    simp only [startAddress, FRAME_SIZE]
    omega
  refine ⟨hstore, ?_, ?_, hbeyond, ha.nextSearch, ?_, ?_, ha.direct⟩
  · intro f hf
    exact hstorage _ ⟨f, hf, hbyte f⟩
  · intro f hf
    rw [← if_pos (c := f < m.frameCount) (t := FrameState.ofBits _) (e := none) hf]
    exact hstate f hf
  · rw [ha.freeFrames]
    congr 1
    refine Finset.filter_congr fun f hf => ?_
    rw [hstate f (Finset.mem_range.mp hf), Option.some.injEq]
  · rw [ha.allocatableFrames]
    congr 1
    refine Finset.filter_congr fun f hf => ?_
    rw [hstate f (Finset.mem_range.mp hf), Option.some.injEq, Option.some.injEq]
    show _ ↔ (L.role f).state ≠ .reserved
    cases (L.role f).state <;> simp

open Classical in
/-- A layout without page tables. -/
theorem Machine.SoundAllocator.bare :
    ∃ L, AllocInv L m ∧ ∀ f r p, L.role f ≠ .table r p := by
  obtain ⟨store, hstore⟩ := ha.bitmap
  refine ⟨⟨fun f => if m.frameState f = some .free then .free
    else if m.frameState f = some .allocated then .data .spare
    else if m.BitmapFrame f then .storage else .other, 0, store⟩,
    ha.allocInv hstore (fun f hf => ?_) (fun f hf => ?_) fun f hf => ?_, fun f r p => ?_⟩
  · obtain ⟨hfree, hallocated⟩ := ha.storage f hf
    dsimp only
    rw [if_neg hfree, if_neg hallocated, if_pos hf]
  · obtain ⟨s, hs⟩ := Option.isSome_iff_exists.mp (ha.states f hf)
    dsimp only
    rw [hs]
    cases s with
    | reserved =>
      rw [if_neg (by nofun), if_neg (by nofun)]
      split_ifs <;> rfl
    | free => rfl
    | allocated => rfl
  · have hnone : m.frameState f = none := if_neg (by omega)
    dsimp only
    rw [hnone, if_neg (by nofun), if_neg (by nofun)]
    split_ifs <;> rfl
  · dsimp only
    split_ifs <;> nofun

end Layouts

section Sole

open Classical in
/-- The role of a frame where one page table is looked at alone. -/
noncomputable def PageTable.soleRole (pt : PageTable) (m : Machine) (f : ℕ) : Role :=
  if h : ∃ path, pt.Node m.mem path f then .table pt.frame h.choose.reverse
  else if m.frameState f = some .free then .free
  else if m.frameState f = some .allocated then .data .spare
  else if m.BitmapFrame f then .storage else .other

noncomputable def PageTable.soleLayout (pt : PageTable) (m : Machine) (store : ℕ) : Layout :=
  ⟨pt.soleRole m, pt.frame, store⟩

namespace PageTable.Intact

variable (h : pt.Intact m)

include h

theorem soleRole_table {r : ℕ} {p : List ℕ} :
    pt.soleRole m f = .table r p ↔ r = pt.frame ∧ pt.Node m.mem p.reverse f := by
  unfold PageTable.soleRole
  by_cases hf : ∃ path, pt.Node m.mem path f
  · rw [dif_pos hf, Role.table.injEq, eq_comm (a := r)]
    refine and_congr_right fun _ => ?_
    constructor
    · rintro rfl
      rw [List.reverse_reverse]
      exact hf.choose_spec
    · intro hp
      rw [h.path_unique _ _ f hf.choose_spec hp, List.reverse_reverse]
  · rw [dif_neg hf]
    refine iff_of_false ?_ fun hp => hf ⟨_, hp.2⟩
    split_ifs <;> nofun

theorem soleRole_state_of_node (hf : ∃ path, pt.Node m.mem path f) :
    (pt.soleRole m f).state = .allocated := by
  obtain ⟨path, hf⟩ := hf
  rw [h.soleRole_table.mpr ⟨rfl, by rwa [List.reverse_reverse]⟩]
  rfl

/-- The role tells the state in the bitmap. -/
theorem soleRole_state (hs : (m.frameState f).isSome = true) :
    m.frameState f = some (pt.soleRole m f).state := by
  by_cases hf : ∃ path, pt.Node m.mem path f
  · rw [h.soleRole_state_of_node hf]
    obtain ⟨path, hf⟩ := hf
    exact h.allocated path f hf
  · obtain ⟨s, hs⟩ := Option.isSome_iff_exists.mp hs
    unfold PageTable.soleRole
    rw [dif_neg hf, hs]
    cases s with
    | reserved =>
      rw [if_neg (by nofun), if_neg (by nofun)]
      split_ifs <;> rfl
    | free => rfl
    | allocated => rfl

theorem soleRole_storage (ha : m.SoundAllocator) (hf : m.BitmapFrame f) :
    pt.soleRole m f = .storage := by
  obtain ⟨hfree, hallocated⟩ := ha.storage f hf
  unfold PageTable.soleRole
  rw [dif_neg, if_neg hfree, if_neg hallocated, if_pos hf]
  rintro ⟨path, hnode⟩
  exact hallocated (h.allocated path f hnode)

theorem sole_alloc (ha : m.SoundAllocator) {store : ℕ}
    (hstore : m.allocator.bitmap.start = startAddress store + m.allocator.directMap.offset) :
    AllocInv (pt.soleLayout m store) m := by
  refine ha.allocInv hstore (fun f hf => h.soleRole_storage ha hf)
    (fun f hf => h.soleRole_state (ha.states f hf)) fun f hf => ?_
  have hnone : m.frameState f = none := if_neg (by omega)
  show (pt.soleRole m f).state = .reserved
  unfold PageTable.soleRole
  rw [dif_neg, hnone, if_neg (by nofun), if_neg (by nofun)]
  · split_ifs <;> rfl
  · rintro ⟨path, hnode⟩
    rw [h.allocated path f hnode] at hnone
    cases hnone

theorem config_eq : pt.config = m.paging := by
  rw [h.machine]
  rfl

/-- A present entry above the leaf tables is the entry of a table. -/
theorem link {path : List ℕ} {i : ℕ} (hf : pt.Node m.mem path f)
    (hlen : path.length < pt.config.mode.intermediateLevels.length) (hi : i < PAGE_TABLE_ENTRIES)
    (hpres : PageTableEntry.isPresent (m.mem.word f i) = true) :
    ∃ g user, m.mem.word f i = tableWord user g ∧
      startAddress g < pt.config.physicalAddressLimit ∧ pt.Node m.mem (path ++ [i]) g := by
  obtain ⟨g, user, he⟩ := h.intermediate path f i hf hlen hi hpres
  by_cases hg : startAddress g < pt.config.physicalAddressLimit
  · rw [newTable_eq user hg, Except.ok.injEq] at he
    refine ⟨g, user, he.symm, hg, PageTable.node_snoc.mpr ⟨f, hf, hlen, hi, ?_⟩⟩
    rw [← he, tableWord_tableFrame user hg]
  · rw [newTable_error user (by omega)] at he
    cases he

/-- The entry above a table. -/
theorem above {path : List ℕ} {i g : ℕ} (hg : pt.Node m.mem (path ++ [i]) g) :
    ∃ f user, pt.Node m.mem path f ∧ i < PAGE_TABLE_ENTRIES ∧
      m.mem.word f i = tableWord user g ∧ startAddress g < pt.config.physicalAddressLimit := by
  obtain ⟨f, hf, hlen, hi, hframe⟩ := PageTable.node_snoc.mp hg
  have hpres : PageTableEntry.isPresent (m.mem.word f i) = true := by
    by_contra hnot
    rw [tableFrame_of_not_present (Bool.not_eq_true _ ▸ hnot)] at hframe
    cases hframe
  obtain ⟨g', user, he, hlim, _⟩ := h.link hf hlen hi hpres
  rw [he, tableWord_tableFrame user hlim, Option.some.injEq] at hframe
  subst hframe
  exact ⟨f, user, hf, hi, he, hlim⟩

theorem limit {path : List ℕ} (hf : pt.Node m.mem path f) :
    startAddress f < pt.config.physicalAddressLimit := by
  rcases List.eq_nil_or_concat' path with rfl | ⟨path, i, rfl⟩
  · rw [PageTable.node_nil.mp hf]
    exact h.root
  · obtain ⟨_, _, _, _, _, hlim⟩ := h.above hf
    exact hlim

theorem sole_typing {r store : ℕ} {p : List ℕ} :
    (pt.soleLayout m store).typing f = some (r, p) ↔
      r = pt.frame ∧ pt.Node m.mem p.reverse f :=
  Layout.typing_some.trans h.soleRole_table

theorem sole_tree (store : ℕ) : Tree (pt.soleLayout m store) m := by
  have hconfig := h.config_eq
  refine ⟨?_, ?_, ?_, ?_, ?_⟩
  · intro f r p hf
    have := h.limit (h.sole_typing.mp hf).2
    rwa [hconfig] at this
  · intro f r hf
    obtain ⟨rfl, hnode⟩ := h.sole_typing.mp hf
    exact PageTable.node_nil.mp hnode
  · intro f r p hf
    have hlen := (h.sole_typing.mp hf).2.1
    rwa [List.length_reverse, hconfig] at hlen
  · intro f r p i hf hlen hi _ hlive
    obtain ⟨rfl, hnode⟩ := h.sole_typing.mp hf
    obtain ⟨g, user, he, _, hg⟩ := h.link hnode (by rwa [List.length_reverse, hconfig]) hi hlive
    refine ⟨g, h.sole_typing.mpr ⟨rfl, ?_⟩, user, he⟩
    rwa [List.reverse_cons]
  · intro g r i p hg
    obtain ⟨rfl, hnode⟩ := h.sole_typing.mp hg
    rw [List.reverse_cons] at hnode
    obtain ⟨f, user, hf, hi, he, _⟩ := h.above hnode
    exact ⟨hi, fun _ => .inl rfl, f, h.sole_typing.mpr ⟨rfl, hf⟩, user, he⟩

theorem sole_memInv (ha : m.SoundAllocator) {store : ℕ}
    (hstore : m.allocator.bitmap.start = startAddress store + m.allocator.directMap.offset) :
    MemInv (steady True) (pt.soleLayout m store) m := by
  have hconfig := h.config_eq
  have hrole : ∀ {f r p}, (pt.soleLayout m store).role f = .table r p ↔
      r = pt.frame ∧ pt.Node m.mem p.reverse f := h.soleRole_table
  refine ⟨⟨h.sole_alloc ha hstore, h.sole_tree store, ?_, ?_, ?_, ?_, ?_⟩, absurd trivial,
    absurd trivial⟩
  · exact hrole.mpr ⟨rfl, PageTable.node_nil.mpr rfl⟩
  · intro r hr i _ _
    rw [(hrole.mp hr).1]
    rfl
  · intro f r p i hf hi hpres
    exact h.zero _ f i (hrole.mp hf).2 hi hpres
  · intro f r p hf hp _
    exact h.used _ f (hrole.mp hf).2 (by simpa using hp)
  · rintro r i p e ⟨hi, hlen, hpres, f, hf, rfl⟩ huser j q g hq hg
    obtain ⟨rfl, hnode⟩ := h.sole_typing.mp hf
    have hlen' : p.reverse.length = pt.config.mode.intermediateLevels.length := by
      rw [List.length_reverse, hconfig]
      exact hlen
    refine h.user _ f i hnode hlen' hi hpres huser q.reverse j g ?_ (hrole.mp hg).2
    have hrev := List.reverse_prefix.mpr hq
    rwa [List.reverse_cons] at hrev

/-- What is known of layouts holds for an address space with this page table. -/
theorem realm (ha : m.SoundAllocator) (hroot : space.root = pt) :
    ∃ L, Realm True L m space L.kroot 0 := by
  obtain ⟨store, hstore⟩ := ha.bitmap
  have hinv := h.sole_memInv ha hstore
  have hroots : ∀ r, (pt.soleLayout m store).role r = .table r [] →
      r = (pt.soleLayout m store).kroot := fun r hr => (h.soleRole_table.mp hr).1
  exact ⟨pt.soleLayout m store, hinv, by rw [hroot]; exact h.machine, hinv.kroot, absurd trivial,
    fun _ => ⟨rfl, hroots⟩, .inl (.inr (.inr hroots))⟩

end PageTable.Intact

/-- The first page table of a layout is in order. -/
theorem MemInv.intact {mixed : Prop} (hinv : MemInv (steady mixed) L m)
    (hroot : pt = m.table L.kroot) : pt.Intact m := by
  have hnode : ∀ {path f}, pt.Node m.mem path f ↔ L.role f = .table L.kroot path.reverse := by
    intro path f
    rw [hroot]
    exact node_iff hinv.tree hinv.kroot fun _ _ => .inl rfl
  have hconfig : pt.config = m.paging := by
    rw [hroot]
    rfl
  refine ⟨by rw [hroot]; rfl, ?_, ?_, ?_, ?_, ?_, ?_, ?_⟩
  · have := hinv.tree.valid L.kroot L.kroot [] (Layout.typing_some.mpr hinv.kroot)
    rw [hroot]
    exact this
  · intro path f hf
    rw [hinv.alloc.frameState_allocated, hnode.mp hf]
    rfl
  · intro path path' f hf hf'
    have he := (hnode.mp hf).symm.trans (hnode.mp hf')
    rw [Role.table.injEq] at he
    exact List.reverse_injective he.2
  · intro path f hf hne
    exact hinv.full f _ _ (hnode.mp hf) (by simpa using hne) id
  · intro path f i hf hlen hi hpres
    rw [hconfig] at hlen
    rcases child_cases hinv.tree (hnode.mp hf) (by simpa using hlen) hi (fun _ => .inl rfl) with
      hdead | ⟨g, user, _, he, hlim⟩
    · rw [hdead] at hpres
      cases hpres
    · exact ⟨g, user, by rw [hconfig, newTable_eq user hlim, he]⟩
  · intro path f i hf hlen hi hpres huser q j g hq hg
    have hleaf : LeafAt L m L.kroot (i :: path.reverse) (m.mem.word f i) := by
      refine ⟨hi, ?_, hpres, f, Layout.typing_some.mpr (hnode.mp hf), rfl⟩
      rw [List.length_reverse, hlen, hconfig]
      rfl
    refine hinv.closed L.kroot i path.reverse _ hleaf huser j q.reverse g ?_ (hnode.mp hg)
    have hrev := List.reverse_suffix.mpr hq
    rwa [List.reverse_append, List.reverse_singleton, List.singleton_append] at hrev
  · intro path f i hf hi hpres
    exact hinv.zero f _ _ i (hnode.mp hf) hi hpres

end Sole

section Root

variable {r : ℕ} (h : MemInv noPages L m) (hr : L.role r = .table r [])

include h hr

/-- Below a root there are its own tables, and those of the kernel. -/
theorem MemInv.root_node {path : List ℕ} (hf : (m.table r).Node m.mem path f) :
    (path = [] ∧ f = r) ∨
    (∃ i ∈ path.head?, i < 256 ∧ L.role f = .table r path.reverse) ∨
    ∃ i ∈ path.head?, 256 ≤ i ∧ L.role f = .table L.kroot path.reverse := by
  cases path with
  | nil => exact .inl ⟨rfl, PageTable.node_nil.mp hf⟩
  | cons i path =>
    right
    by_cases hi : i < 256
    · refine .inl ⟨i, rfl, hi, (node_iff h.tree hr ?_).mp hf⟩
      rintro j ⟨⟩
      exact .inr hi
    · refine .inr ⟨i, rfl, by omega, (node_iff h.tree h.kroot fun _ _ => .inl rfl).mp ?_⟩
      obtain ⟨hlen, hlt, hat⟩ := hf
      refine ⟨hlen, hlt, ?_⟩
      have hword := h.shared r hr i (by omega) (hlt i (by simp))
      simp only [tableAt, Machine.table] at hat ⊢
      rwa [hword] at hat

/-- The tables below a root, by their roles. -/
theorem MemInv.root_role {path : List ℕ} (hf : (m.table r).Node m.mem path f) :
    L.role f = .table r path.reverse ∨ path ≠ [] ∧ L.role f = .table L.kroot path.reverse := by
  rcases h.root_node hr hf with ⟨rfl, rfl⟩ | ⟨_, _, _, hrole⟩ | ⟨i, hi, _, hrole⟩
  · exact .inl hr
  · exact .inl hrole
  · refine .inr ⟨?_, hrole⟩
    rintro rfl
    cases hi

/-- The entries of the tables below a root. -/
theorem MemInv.root_entry {path : List ℕ} {i : ℕ} (hf : (m.table r).Node m.mem path f)
    (hlen : path.length < m.paging.mode.intermediateLevels.length) (hi : i < 512)
    (hpres : PageTableEntry.isPresent (m.mem.word f i) = true) :
    ∃ g user, m.mem.word f i = tableWord user g ∧
      startAddress g < m.paging.physicalAddressLimit := by
  have hcase : ∀ {f r' : ℕ} {p : List ℕ}, L.role f = .table r' p →
      p.length < m.paging.mode.intermediateLevels.length → (p = [] → r' = L.kroot ∨ i < 256) →
      PageTableEntry.isPresent (m.mem.word f i) = true →
      ∃ g user, m.mem.word f i = tableWord user g ∧
        startAddress g < m.paging.physicalAddressLimit := by
    intro f r' p hf hp ho hpres
    rcases child_cases h.tree hf hp hi ho with hdead | ⟨g, user, _, he, hlim⟩
    · rw [hdead] at hpres
      cases hpres
    · exact ⟨g, user, he, hlim⟩
  rcases h.root_node hr hf with ⟨rfl, rfl⟩ | ⟨j, hj, _, hrole⟩ | ⟨_, _, _, hrole⟩
  · by_cases hlow : i < 256
    · exact hcase hr (levels_pos _) (fun _ => .inr hlow) hpres
    · rw [h.shared f hr i (by omega) hi] at hpres ⊢
      exact hcase h.kroot (levels_pos _) (fun _ => .inl rfl) hpres
  · refine hcase hrole (by simpa using hlen) (fun hp => ?_) hpres
    rw [List.reverse_eq_nil_iff] at hp
    subst hp
    cases hj
  · exact hcase hrole (by simpa using hlen) (fun _ => .inl rfl) hpres

/-- A page below a root that user mode can reach lies in its own half. -/
theorem MemInv.root_user {path : List ℕ} {i : ℕ} (hf : (m.table r).Node m.mem path f)
    (hlen : path.length = m.paging.mode.intermediateLevels.length) (hi : i < 512)
    (hpres : PageTableEntry.isPresent (m.mem.word f i) = true)
    (huser : PageTableEntry.isUserAccessible (m.mem.word f i) = true) {q : List ℕ} {j g : ℕ}
    (hq : q ++ [j] <+: path) (hg : (m.table r).Node m.mem q g) :
    PageTableEntry.isUserAccessible (m.mem.word g j) = true := by
  have hleaf : ∀ {r'}, L.role f = .table r' path.reverse →
      LeafAt L m r' (i :: path.reverse) (m.mem.word f i) := by
    intro r' hrole
    refine ⟨hi, ?_, hpres, f, Layout.typing_some.mpr hrole, rfl⟩
    rw [List.length_reverse, hlen]
    rfl
  rcases h.root_node hr hf with ⟨rfl, _⟩ | ⟨k, hk, hlow, hrole⟩ | ⟨_, _, _, hrole⟩
  · have := levels_pos m.paging.mode
    rw [List.length_nil] at hlen
    omega
  · refine h.closed r i path.reverse _ (hleaf hrole) huser j q.reverse g ?_ ?_
    · have hrev := List.reverse_suffix.mpr hq
      rwa [List.reverse_append, List.reverse_singleton, List.singleton_append] at hrev
    · rcases h.root_node hr hg with ⟨rfl, rfl⟩ | ⟨_, _, _, hrole'⟩ | ⟨k', hk', hup, _⟩
      · exact hr
      · exact hrole'
      · -- both paths begin with the same index
        obtain ⟨rest, rfl⟩ := hq
        cases q with
        | nil => cases hk'
        | cons x q =>
          cases hk
          cases hk'
          omega
  · have hkernel := h.kernel_leaf (hleaf hrole)
    rw [huser] at hkernel
    cases hkernel

/-- Seen from any root, the tables of both halves are in order. -/
theorem MemInv.root_intact : (m.table r).Intact m := by
  have htable : ∀ {path f}, (m.table r).Node m.mem path f →
      ∃ r', L.role f = .table r' path.reverse := by
    intro path f hf
    rcases h.root_role hr hf with hrole | ⟨_, hrole⟩
    · exact ⟨_, hrole⟩
    · exact ⟨_, hrole⟩
  refine ⟨rfl, h.tree.valid r r [] (Layout.typing_some.mpr hr), ?_, ?_, ?_, ?_, ?_, ?_⟩
  · intro path f hf
    obtain ⟨r', hrole⟩ := htable hf
    rw [h.alloc.frameState_allocated, hrole]
    rfl
  · intro path path' f hf hf'
    obtain ⟨r₁, hrole⟩ := htable hf
    obtain ⟨r₂, hrole'⟩ := htable hf'
    rw [hrole, Role.table.injEq] at hrole'
    exact List.reverse_injective hrole'.2
  · intro path f hf hp
    obtain ⟨r', hrole⟩ := htable hf
    exact h.full f _ _ hrole (by simpa using hp) id
  · intro path f i hf hlen hi hpres
    obtain ⟨g, user, he, hlim⟩ := h.root_entry hr hf hlen hi hpres
    exact ⟨g, user, (newTable_eq user hlim).trans (by rw [he])⟩
  · intro path f i hf hlen hi hpres huser q j g hq hg
    exact h.root_user hr hf hlen hi hpres huser hq hg
  · intro path f i hf hi hpres
    obtain ⟨r', hrole⟩ := htable hf
    exact h.zero f _ _ i hrole hi hpres

end Root

/-- The bitmap of a layout lies in its storage, so that it offers none of it. -/
theorem AllocInv.soundAllocator (h : AllocInv L m) : m.SoundAllocator := by
  refine ⟨⟨L.store, h.start⟩, ?_, ?_, h.search, ?_, ?_, h.direct⟩
  · intro f hf
    rw [h.frameState_of_lt hf]
    rfl
  · rintro f ⟨i, hi, rfl⟩
    rw [h.byteFrame_eq, Ne, h.frameState_free, Ne, h.frameState_allocated, h.stored i hi]
    exact ⟨nofun, nofun⟩
  · rw [h.count]
    congr 1
    refine Finset.filter_congr fun f _ => ?_
    rw [h.frameState_free, Role.state_free]
  · rw [h.total]
    congr 1
    refine Finset.filter_congr fun f _ => ?_
    rw [h.frameState_free, ← Role.state_free, h.frameState_allocated]
    cases (L.role f).state <;> simp

theorem AllocInv.mem_freeFrameSet (h : AllocInv L m) : f ∈ m.freeFrameSet ↔ L.role f = .free := by
  unfold Machine.freeFrameSet
  rw [Finset.mem_filter, h.frameState_free, Finset.mem_range, and_iff_right_iff_imp]
  intro hf
  exact h.lt_of_allocated (by rw [hf]; nofun)

/-- Machines of one layout have the same free frames. -/
theorem AllocInv.freeFrameSet_congr (h : AllocInv L m) (h' : AllocInv L m') :
    m'.freeFrameSet = m.freeFrameSet := by
  ext f
  rw [h.mem_freeFrameSet, h'.mem_freeFrameSet]

/-- An address space shows what it has shown before, and the free frames are the same. -/
structure AddressSpace.Unchanged (space : AddressSpace) (m m' : Machine) : Prop where
  same : ∀ a, space.root.SameAt m.mem m'.mem a
  free : m'.freeFrameSet = m.freeFrameSet

section Runs

variable {P : Role → Prop} {a start n i d x : ℕ} {permissions : PagePermissions}
  {cachePolicy : CachePolicy} {frames : ℕ → ℕ} (h : Realm True L m space L.kroot a)

include h

/-- What has been taken back is read as before. -/
theorem Restored.unchanged (hr : Restored True P L m L.kroot L m') : space.Unchanged m m' :=
  ⟨fun _ => h.inv.sameAt hr.inv hr.edit.regs.sameTables rfl h.root fun _ e => hr.leaf _ _ e,
    h.inv.alloc.freeFrameSet_congr hr.inv.alloc⟩

namespace PagesAdded

section Reading

variable (hadd : PagesAdded True P space L m L.kroot start n
  (space.word m permissions cachePolicy) frames L' m')

include hadd

/-- The pages of a run are translated to their frames. -/
theorem reads (hi : i < n) (hd : d < FRAME_SIZE) :
    space.toPhysical m'.mem (pageAt start i + d) = some (startAddress (frames i) + d) ∧
      space.mapping m'.mem (pageAt start i + d) = some permissions := by
  have hregs := hadd.edit.regs
  have htakes := hadd.takes i hi
  have hlimit := hadd.limit i hi
  have hroot : space.root = m'.table L'.kroot := by
    rw [h.root, hregs.table, hadd.edit.kroot]
  have hleaf := hadd.page hi
  rw [← hregs.paging] at htakes hlimit hleaf
  rw [← hadd.edit.kroot] at hleaf
  exact hadd.inv.reads_page hroot htakes.canonical htakes.aligned hlimit hleaf hd

/-- Before, they were not mapped. -/
theorem unmapped_before (hi : i < n) (hd : d < FRAME_SIZE) :
    space.toPhysical m.mem (pageAt start i + d) = none := by
  rw [AddressSpace.toPhysical, h.root, h.inv.toPhysical_none h.typed
    (canonical_add (hadd.takes i hi).canonical (hadd.takes i hi).aligned hd) (.inl rfl),
    pagePath_add _ (hadd.takes i hi).aligned hd]
  exact hadd.fresh i hi

/-- Addresses outside the run are read as before. -/
theorem same_outside (hx : x < start ∨ start + n * FRAME_SIZE ≤ x) :
    space.root.SameAt m.mem m'.mem x := by
  refine h.inv.sameAt hadd.inv hadd.edit.regs.sameTables hadd.edit.kroot h.root fun hc e => ?_
  rw [hadd.leaf, or_iff_right]
  rintro ⟨_, i, hi, hpath, _⟩
  have hpage := page_of_pagePath hc (hadd.takes i hi).canonical hpath
  have hal := (hadd.takes i hi).aligned
  simp only [pageAt, FRAME_SIZE] at hpage hal hx
  omega

end Reading

end PagesAdded

end Runs

/-- A range has been mapped, and nothing else. -/
structure MapsExactly (space : AddressSpace) (physicalStart virtualStart length : ℕ)
    (permissions : PagePermissions) (m m' : Machine) : Prop where
  whole : length % PAGE_SIZE = 0
  pages : ∀ d < length, space.toPhysical m'.mem (virtualStart + d) = some (physicalStart + d) ∧
    space.mapping m'.mem (virtualStart + d) = some permissions
  others : ∀ a, a < virtualStart ∨ virtualStart + length ≤ a → space.root.SameAt m.mem m'.mem a

theorem PagesAdded.mapsExactly {P : Role → Prop} {a physicalStart virtualStart length : ℕ}
    {permissions : PagePermissions} {cachePolicy : CachePolicy} (h : Realm True L m space L.kroot a)
    (hadd : PagesAdded True P space L m L.kroot virtualStart (length / FRAME_SIZE)
      (space.word m permissions cachePolicy) (rangeFrame physicalStart) L' m')
    (hal : length ≠ 0 → physicalStart % FRAME_SIZE = 0) (hlen : length % FRAME_SIZE = 0) :
    MapsExactly space physicalStart virtualStart length permissions m m' := by
  refine ⟨hlen, ?_, ?_⟩
  · intro d hd
    have hi : d / FRAME_SIZE < length / FRAME_SIZE := by
      simp only [FRAME_SIZE] at hlen ⊢
      omega
    have hread := hadd.reads h hi (Nat.mod_lt d (by decide))
    have hphys := hal (by omega)
    have hpage : pageAt virtualStart (d / FRAME_SIZE) + d % FRAME_SIZE = virtualStart + d := by
      simp only [pageAt, FRAME_SIZE]
      omega
    have hframe : startAddress (rangeFrame physicalStart (d / FRAME_SIZE)) + d % FRAME_SIZE =
        physicalStart + d := by
      simp only [rangeFrame, startAddress, FRAME_SIZE] at hphys ⊢
      omega
    rwa [hpage, hframe] at hread
  · intro a ha
    refine hadd.same_outside h ?_
    rwa [Nat.div_mul_cancel (Nat.dvd_of_mod_eq_zero hlen)]

/-- Whatever has been done to a page table, it is in order. -/
theorem TableSession.Reached.intact {memoryMap : List MemoryRegion} {dm : DirectMap}
    {m₀ : Machine} {t : TableSession} (h : TableSession.Reached memoryMap dm m₀ t)
    (hpair : memoryMap.Pairwise (MemoryRegion.Disjoint (FrameAllocator.shouldTrack · = true)))
    (hdirect : ∀ region ∈ memoryMap, FrameAllocator.shouldTrack region.kind = true →
      ∀ x, region.Has x → (dm.translate x).isSome = true) (hpt : t.table = some pt) :
    t.pool.machine.SoundAllocator ∧ pt.Intact t.pool.machine := by
  obtain ⟨L, hinv⟩ := h.inv hpair hdirect
  exact ⟨hinv.pool.alloc.soundAllocator, (hinv.inv hpt).intact (hinv.root pt hpt)⟩

end Dusk
