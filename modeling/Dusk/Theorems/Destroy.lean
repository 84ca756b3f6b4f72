import Dusk.Proofs.Destroy
import Dusk.Proofs.Intact
import Dusk.Proofs.Views
import Dusk.Proofs.Walkers

/-! `AddressSpace::destroy` of a page table in order: it gives back the tables that the
address space does not share with others, and nothing else. -/

namespace Dusk

open Lib Radix

variable {b : BootInfo} {L : Layout} {m m' : Machine} {mem mem' : PhysMem} {pt : PageTable}
  {space : AddressSpace} {k : Kernel} {f : ℕ}

section Reading

variable (hsame : ∀ path f, pt.Node mem path f → mem'.word f = mem.word f)

include hsame

theorem table_congr {path : List ℕ} (hf : pt.Node mem path f) :
    pt.table mem' f = pt.table mem f := by
  unfold PageTable.table
  rw [hsame path f hf]

theorem toPhysicalFrom_congr (a : ℕ) (levels : List PageTableLevel) {path : List ℕ}
    (hf : pt.Node mem path f)
    (hlen : path.length + levels.length ≤ pt.config.mode.intermediateLevels.length) :
    pt.toPhysicalFrom mem' a levels f = pt.toPhysicalFrom mem a levels f := by
  induction levels generalizing path f with
  | nil => simp only [PageTable.toPhysicalFrom, table_congr hsame hf]
  | cons level levels ih =>
    simp only [PageTable.toPhysicalFrom, table_congr hsame hf]
    cases htable : pt.table mem f with
    | none => rfl
    | some entries =>
      simp only [Option.bind_eq_bind, Option.bind_some]
      split
      · rfl
      · split
        · rfl
        · cases hnext : PageTableEntry.tableFrame (entries (level.index a)) pt.config with
          | none => rfl
          | some next =>
            rw [table_eq htable] at hnext
            simp only [List.length_cons] at hlen
            exact ih (PageTable.node_snoc.mpr ⟨f, hf, by omega, level_index_lt level a, hnext⟩)
              (by simp only [List.length_append, List.length_singleton]; omega)

theorem mappingFrom_congr (a : ℕ) (levels : List PageTableLevel) {path : List ℕ}
    (permissions : PagePermissions) (hf : pt.Node mem path f)
    (hlen : path.length + levels.length ≤ pt.config.mode.intermediateLevels.length) :
    pt.mappingFrom mem' a levels f permissions = pt.mappingFrom mem a levels f permissions := by
  induction levels generalizing path f permissions with
  | nil => simp only [PageTable.mappingFrom, table_congr hsame hf]
  | cons level levels ih =>
    simp only [PageTable.mappingFrom, table_congr hsame hf]
    cases htable : pt.table mem f with
    | none => rfl
    | some entries =>
      simp only [Option.bind_eq_bind, Option.bind_some]
      split
      · rfl
      · split
        · rfl
        · cases hnext : PageTableEntry.tableFrame (entries (level.index a)) pt.config with
          | none => rfl
          | some next =>
            rw [table_eq htable] at hnext
            simp only [List.length_cons] at hlen
            exact ih _ (PageTable.node_snoc.mpr ⟨f, hf, by omega, level_index_lt level a, hnext⟩)
              (by simp only [List.length_append, List.length_singleton]; omega)

/-- Memories that agree on the tables of a page table are read alike through it. -/
theorem sameAt_of_nodes (a : ℕ) : pt.SameAt mem mem' a := by
  have hroot : pt.Node mem [] pt.frame := PageTable.node_nil.mpr rfl
  have hlen : ([] : List ℕ).length + pt.config.mode.intermediateLevels.length ≤
      pt.config.mode.intermediateLevels.length := by simp
  constructor
  · simp only [PageTable.toPhysical, toPhysicalFrom_congr hsame a _ hroot hlen]
  · simp only [PageTable.mapping, mappingFrom_congr hsame a _ _ hroot hlen]

end Reading

/-- The tables of an address space that it does not share: those of the user half and the
root, or all tables of the kernel's. -/
def AddressSpace.Owns (space : AddressSpace) (mem : PhysMem) (f : ℕ) : Prop :=
  ∃ path, space.root.Node mem path f ∧ (space.kind = .user → ∀ i ∈ path.head?, i < 256)

/-- The tables of an address space have been given back, and nothing else has happened. -/
structure AddressSpace.TakenDown (space : AddressSpace) (m m' : Machine) : Prop where
  sound : m'.SoundAllocator
  freed : ∀ f, f ∈ m'.freeFrameSet ↔ f ∈ m.freeFrameSet ∨ space.Owns m.mem f
  /-- None of them was free before. -/
  once : ∀ f, space.Owns m.mem f → f ∉ m.freeFrameSet
  rest : ∀ f, ¬ space.Owns m.mem f → ¬ m.BitmapFrame f → m'.mem.word f = m.mem.word f
  /-- A page table that has none of these tables is read as before. -/
  others : ∀ pt : PageTable,
    (∀ path f, pt.Node m.mem path f → ¬ space.Owns m.mem f ∧ ¬ m.BitmapFrame f) →
    ∀ a, pt.SameAt m.mem m'.mem a

section TakeDown

variable (h : space.root.Intact m)

include h

/-- The tables of its own, by their roles where the page table is looked at alone. -/
theorem owns_iff (store : ℕ) : space.Owns m.mem f ↔ match space.kind with
    | .kernel => f ∈ (space.root.soleLayout m store).subtree space.root.frame []
    | .user => f ∈ insert space.root.frame
        ((space.root.soleLayout m store).below space.root.frame [] 0 256) := by
  have hrole : ∀ {f r p}, (space.root.soleLayout m store).role f = .table r p ↔
      r = space.root.frame ∧ space.root.Node m.mem p.reverse f := h.soleRole_table
  cases hkind : space.kind with
  | kernel =>
    constructor
    · rintro ⟨path, hf, _⟩
      refine ⟨path.reverse, hrole.mpr ⟨rfl, ?_⟩⟩
      rwa [List.append_nil, List.reverse_reverse]
    · rintro ⟨q, hq⟩
      exact ⟨_, (hrole.mp hq).2, by rw [hkind]; intro hu; cases hu⟩
  | user =>
    constructor
    · rintro ⟨path, hf, hlow⟩
      cases path with
      | nil => exact .inl (PageTable.node_nil.mp hf)
      | cons j path =>
        refine .inr ⟨j, Nat.zero_le j, hlow hkind j rfl, path.reverse, hrole.mpr ⟨rfl, ?_⟩⟩
        simpa using hf
    · rintro (rfl | ⟨j, _, hj, q, hq⟩)
      · exact ⟨[], PageTable.node_nil.mpr rfl, by simp⟩
      · have hf := (hrole.mp hq).2
        simp only [List.reverse_append, List.reverse_cons, List.reverse_nil, List.nil_append,
          List.singleton_append] at hf
        refine ⟨j :: q.reverse, hf, fun _ i hi => ?_⟩
        simp only [List.head?_cons, Option.mem_some_iff] at hi
        omega

/-- What the destructors have done, by roles. -/
theorem Razing.takenDown {S : Set ℕ} {store : ℕ} (ha : AllocInv (space.root.soleLayout m store) m)
    (hS : ∀ f, space.Owns m.mem f ↔ f ∈ S)
    (hraze : Razing (space.root.soleLayout m store) m space.root.frame S m')
    (hwithin : Within (space.root.soleLayout m store) S m m') : space.TakenDown m m' := by
  have hnode : ∀ {f}, space.Owns m.mem f →
      ∃ p, (space.root.soleLayout m store).role f = .table space.root.frame p := by
    rintro f ⟨path, hf, _⟩
    refine ⟨path.reverse, h.soleRole_table.mpr ⟨rfl, ?_⟩⟩
    rwa [List.reverse_reverse]
  have hrest : ∀ f, ¬ space.Owns m.mem f → ¬ m.BitmapFrame f → m'.mem.word f = m.mem.word f := by
    intro f hf hb
    refine hwithin f (fun hfS => hf ((hS f).mpr hfS)) ?_
    intro hstore
    change space.root.soleRole m f = .storage at hstore
    simp only [PageTable.soleRole, hb, if_false] at hstore
    split_ifs at hstore
  refine ⟨hraze.alloc.soundAllocator, ?_, ?_, hrest, ?_⟩
  · intro f
    rw [hraze.alloc.mem_freeFrameSet, ha.mem_freeFrameSet, hS]
    by_cases hf : f ∈ S
    · simp [raze_role_of_mem hf, hf]
    · simp [raze_role_of_not_mem hf, hf]
  · intro f hf hfree
    obtain ⟨p, hp⟩ := hnode hf
    rw [ha.mem_freeFrameSet, hp] at hfree
    cases hfree
  · intro pt hpt a
    exact sameAt_of_nodes (fun path f hf => hrest f (hpt path f hf).1 (hpt path f hf).2) a

theorem PageTable.Intact.destroy (ha : m.SoundAllocator) (hcr : m.cr3 ≠ space.root.frame) :
    ∃ m', space.destroy m = .ok () m' ∧ space.TakenDown m m' := by
  obtain ⟨store, hstore⟩ := ha.bitmap
  have halloc := h.sole_alloc ha hstore
  have htree := h.sole_tree store
  have hroot : (space.root.soleLayout m store).role space.root.frame =
      .table space.root.frame [] := h.soleRole_table.mpr ⟨rfl, PageTable.node_nil.mpr rfl⟩
  have howns : ∀ f, _ := fun f => owns_iff h (f := f) store
  have hsat : (space.destroy).Sat m (fun _ m' => space.TakenDown m m') Prog.never := by
    unfold AddressSpace.destroy
    cases hkind : space.kind with
    | kernel =>
      simp only [hkind] at howns ⊢
      rw [h.machine]
      exact destroy_sat htree halloc hroot hcr rfl fun m' hraze hwithin =>
        hraze.takenDown h halloc howns hwithin
    | user =>
      simp only [hkind] at howns ⊢
      rw [h.machine]
      exact destroyUserHalf_sat htree halloc hroot hcr fun m' hraze hwithin =>
        hraze.takenDown h halloc howns hwithin
  obtain ⟨_, m', hd, htaken⟩ := hsat.finishes
  exact ⟨m', hd, htaken⟩

/-- `AddressSpace::destroy` of an address space that is not active gives back exactly the
tables it does not share, each once. -/
theorem destroy_takesDown (ha : m.SoundAllocator) (hcr : m.cr3 ≠ space.root.frame) :
    ∃ m', space.destroy m = .ok () m' ∧ space.TakenDown m m' :=
  h.destroy ha hcr

end TakeDown

theorem destroy_takesDown_small : ∃ t pt m',
    TableSession.Reached smallMap smallDirectMap (smallMachine .fourLevel) t ∧
    t.table = some pt ∧ AddressSpace.destroy ⟨pt, .user⟩ t.pool.machine = .ok () m' ∧
    AddressSpace.TakenDown ⟨pt, .user⟩ t.pool.machine m' := by
  have hrun : (smallTable .fourLevel [.new, .map 0x2000 10 ⟨true, true, true⟩ .writeBack false]).any
      (fun t => t.table.any fun pt => decide (t.pool.machine.cr3 ≠ pt.frame)) = true := by
    decide +kernel
  obtain ⟨t, pt, ht, hpt, htest⟩ := smallTable_some hrun
  obtain ⟨ha, hintact⟩ := ht.intact smallMap_disjoint smallMap_direct hpt
  have hspace : (AddressSpace.mk pt .user).root.Intact t.pool.machine := hintact
  obtain ⟨m', hd, htaken⟩ := destroy_takesDown hspace ha (of_decide_eq_true htest)
  exact ⟨t, pt, m', ht, hpt, hd, htaken⟩

section Live

variable {B : BootPages} {id r : ℕ}

/-- The tables a user address space does not share, by their roles. -/
theorem SpaceOf.owned_role (h : MemInv noPages L m) (hs : SpaceOf L m space r) (hr : r ≠ L.kroot)
    (hf : space.Owns m.mem f) : ∃ p, L.role f = .table r p := by
  obtain ⟨path, hnode, hlow⟩ := hf
  have hkind : space.kind = .user := by rw [hs.kind, if_neg hr]
  rw [hs.root] at hnode
  rcases h.root_node hs.typed hnode with ⟨_, rfl⟩ | ⟨_, _, _, hrole⟩ | ⟨i, hi, hle, _⟩
  · exact ⟨[], hs.typed⟩
  · exact ⟨_, hrole⟩
  · have := hlow hkind i hi
    omega

/-- No other root has them. -/
theorem SpaceOf.not_owned_role (h : MemInv noPages L m) (hs : SpaceOf L m space r)
    (hr : r ≠ L.kroot) {r' : ℕ} {p : List ℕ} (hrole : L.role f = .table r' p) (hne : r' ≠ r) :
    ¬ space.Owns m.mem f ∧ ¬ m.BitmapFrame f := by
  constructor
  · intro hown
    obtain ⟨q, hq⟩ := hs.owned_role h hr hown
    rw [hq, Role.table.injEq] at hrole
    exact hne hrole.1.symm
  · intro hb
    refine (h.alloc.soundAllocator.storage f hb).2 (h.alloc.frameState_allocated.mpr ?_)
    rw [hrole]
    rfl

theorem SpaceOf.not_owned (h : MemInv noPages L m) (hs : SpaceOf L m space r) (hr : r ≠ L.kroot)
    {r' : ℕ} (hr' : L.role r' = .table r' []) (hne : r' ≠ r) {path : List ℕ}
    (hf : (m.table r').Node m.mem path f) : ¬ space.Owns m.mem f ∧ ¬ m.BitmapFrame f := by
  rcases h.root_role hr' hf with hrole | ⟨_, hrole⟩
  · exact hs.not_owned_role h hr hrole hne
  · exact hs.not_owned_role h hr hrole hr.symm

/-- In every reachable state, a user address space that is not active can be destroyed: its
own tables are given back, every other address space is read as before, and no frame
that a task holds is freed. -/
theorem destroy_spares_others (hok : b.Ok) (hreach : Reachable b k)
    (hspace : k.spaces.get id = some space) (hcr : k.machine.cr3 ≠ space.root.frame) :
    ∃ m', space.destroy k.machine = .ok () m' ∧ space.TakenDown k.machine m' ∧
      (∀ id' other, id' ≠ id → k.spaces.get id' = some other →
        ∀ a, other.root.SameAt k.machine.mem m'.mem a) ∧
      (∀ kernel, k.kernelSpace = some kernel →
        ∀ a, kernel.root.SameAt k.machine.mem m'.mem a) ∧
      ∀ t h f rights, (k.handleAt t h = some ⟨.frame f, rights⟩ ∨
        ∃ as v, k.handleAt t h = some ⟨.mapping f as v, rights⟩) → f ∉ m'.freeFrameSet := by
  obtain ⟨B, L, hinv⟩ := hreach.inv hok
  have hmem := hinv.res.mem
  obtain ⟨hne, hs⟩ := hinv.res.spaces.live id space hspace
  have hintact : space.root.Intact k.machine := by
    rw [hs.root]
    exact hmem.root_intact hs.typed
  obtain ⟨m', hd, htaken⟩ := hintact.destroy hmem.alloc.soundAllocator hcr
  refine ⟨m', hd, htaken, ?_, ?_, ?_⟩
  · intro id' other hid hother a
    obtain ⟨_, hs'⟩ := hinv.res.spaces.live id' other hother
    have hroots : other.root.frame ≠ space.root.frame := by
      intro heq
      exact hid (hinv.res.spaces.inj id' id space.root.frame
        (Kernel.rootOf_some.mpr ⟨other, hother, heq⟩) (Kernel.rootOf_some.mpr ⟨space, hspace, rfl⟩))
    refine htaken.others other.root ?_ a
    intro path f hf
    rw [hs'.root] at hf
    exact hs.not_owned hmem hne hs'.typed hroots hf
  · intro kernel hkernel a
    rw [hinv.res.spaces.kernel] at hkernel
    cases hkernel
    refine htaken.others _ ?_ a
    intro path f hf
    exact hs.not_owned hmem hne hmem.kroot hne.symm hf
  · intro t h f rights hheld hfree
    have hrole : L.role f = .data (.handle t h) := by
      rcases hheld with hh | ⟨as, v, hh⟩
      · exact hinv.res.pages.frames t h f rights hh
      · exact (hinv.res.pages.mappings t h f as v rights hh).1
    rw [htaken.freed, hmem.alloc.mem_freeFrameSet, hrole] at hfree
    rcases hfree with hfree | hown
    · cases hfree
    · obtain ⟨p, hp⟩ := hs.owned_role hmem hne hown
      rw [hrole] at hp
      cases hp

theorem asCreate_second : (((smallBoot []).started.bind
    (run [.resume, .syscall ⟨8, 0x7FFF_FFFF_E000, 0, 0, 0, 0⟩])).any fun r =>
      (r.1.spaces.get 1).any fun space => decide (r.1.machine.cr3 ≠ space.root.frame)) = true := by
  decide +kernel

/-- A task that has made a second address space. -/
theorem destroy_spares_others_second : ∃ k space m', Reachable (smallBoot []) k ∧
    k.spaces.get 1 = some space ∧ space.destroy k.machine = .ok () m' ∧
    space.TakenDown k.machine m' := by
  obtain ⟨k₀, k, trace, hk₀, hr, hany⟩ := run_of_any asCreate_second
  obtain ⟨space, hspace, hcr⟩ := (Option.any_eq_true _ _).mp hany
  have hreach : Reachable (smallBoot []) k := ⟨k₀, _, trace, hk₀, hr⟩
  obtain ⟨m', hd, htaken, _⟩ := destroy_spares_others (smallBoot_ok []) hreach hspace
    (of_decide_eq_true hcr)
  exact ⟨k, space, m', hreach, hspace, hd, htaken⟩

end Live

end Dusk
