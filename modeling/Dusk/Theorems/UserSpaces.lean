import Dusk.Proofs.UserSpaces
import Dusk.Theorems.Destroy

/-! The end of an address space that has been made with `new_user` and used in any way:
its own tables are given back, and everything that it shares stays as it is. -/

namespace Dusk

open Lib Radix FrameAllocator

variable {b : BootInfo} {B : BootPages} {L L₀ : Layout} {k : Kernel} {m m' : Machine}
  {kernel space : AddressSpace} {s : SpaceSession} {r : ℕ}

/-- What the end of an address space of a session does not touch: the tables it shares, the
other address spaces of the session and of the kernel, and every frame that has an owner. -/
structure SpaceSession.Spared (k : Kernel) (s : SpaceSession) (space : AddressSpace)
    (m' : Machine) : Prop where
  shared : ∀ path f, space.root.Node s.pool.machine.mem path f → (∃ i ∈ path.head?, 256 ≤ i) →
    m'.mem.word f = s.pool.machine.mem.word f
  spaces : ∀ other ∈ s.spaces, other ≠ space →
    ∀ a, other.root.SameAt s.pool.machine.mem m'.mem a
  live : ∀ other, k.Live other → ∀ a, other.root.SameAt s.pool.machine.mem m'.mem a
  outstanding : ∀ f ∈ s.pool.outstanding, f ∉ m'.freeFrameSet
  handles : ∀ t h f, k.Holds t h f → f ∉ m'.freeFrameSet

/-- A root that was there before the session. -/
theorem SpaceSession.Inv.old_root (h : Inv L₀ m L s) (hr : L₀.role r = .table r []) :
    L.role r = .table r [] := by
  rw [h.fixed r (.inr ⟨r, hr⟩), hr]

/-- The address spaces of a session are not the one that is active. -/
theorem SpaceSession.Inv.inactive (h : Inv L₀ m L s) (hcr3 : L₀.role m.cr3 = .table m.cr3 [])
    (hr : ¬ (L₀.role r).Fixed) : s.pool.machine.cr3 ≠ r := by
  rintro rfl
  rw [h.regs.cr3, hcr3] at hr
  exact hr (.inr ⟨_, rfl⟩)

/-- A frame that holds data is not given back with the tables. -/
theorem SpaceOf.data_kept {f : ℕ} {o : Owner} (h : MemInv noPages L m) (hs : SpaceOf L m space r)
    (hr : r ≠ L.kroot) (htaken : space.TakenDown m m') (hf : L.role f = .data o) :
    f ∉ m'.freeFrameSet := by
  intro hfree
  rw [htaken.freed, h.alloc.mem_freeFrameSet, hf] at hfree
  rcases hfree with hfree | hown
  · cases hfree
  · obtain ⟨p, hp⟩ := hs.owned_role h hr hown
    rw [hf] at hp
    cases hp

/-- The roots of two address spaces of a session differ. -/
theorem SpaceSession.Inv.roots_ne (h : Inv L₀ m L s) (hspace : space ∈ s.spaces)
    {other : AddressSpace} (hother : other ∈ s.spaces) (hne : other ≠ space) :
    other.root.frame ≠ space.root.frame := by
  have : Std.Symm fun space other : AddressSpace => space.root.frame ≠ other.root.frame :=
    ⟨fun _ _ hxy => hxy.symm⟩
  exact h.apart.forall hother hspace hne

theorem SpaceSession.Inv.spared (h : Inv L₀ k.machine L s) (hk : KInv B L₀ k)
    (hspace : space ∈ s.spaces) (hs : SpaceOf L s.pool.machine space r)
    (hr : ¬ (L₀.role r).Fixed) (htaken : space.TakenDown s.pool.machine m') :
    s.Spared k space m' := by
  have hmem := hk.res.mem
  have hne := h.user hmem.kroot hr
  -- another root and the tables below it are not taken down
  have hread : ∀ {r' : ℕ}, L.role r' = .table r' [] → r' ≠ r →
      ∀ a, (s.pool.machine.table r').SameAt s.pool.machine.mem m'.mem a :=
    fun hr' hrr => htaken.others _ fun _ _ hf => hs.not_owned h.mem hne hr' hrr hf
  have hold : ∀ {r' : ℕ}, L₀.role r' = .table r' [] →
      ∀ a, (k.machine.table r').SameAt s.pool.machine.mem m'.mem a := by
    intro r' hr' a
    rw [← h.regs.table r']
    refine hread (h.old_root hr') ?_ a
    rintro rfl
    exact hr (.inr ⟨_, hr'⟩)
  refine ⟨?_, ?_, ?_, ?_, ?_⟩
  · rintro path f hf ⟨i, hi, hle⟩
    rw [hs.root] at hf
    have hrole : L.role f = .table L.kroot path.reverse := by
      rcases h.mem.root_node hs.typed hf with ⟨rfl, _⟩ | ⟨j, hj, hlt, _⟩ | ⟨_, _, _, hrole⟩
      · cases hi
      · rw [Option.mem_unique hi hj] at hle
        omega
      · exact hrole
    obtain ⟨hown, hbitmap⟩ := hs.not_owned_role h.mem hne hrole hne.symm
    exact htaken.rest f hown hbitmap
  · intro other hother hdiff a
    obtain ⟨r', hs', _⟩ := h.spaces other hother
    have hroots := h.roots_ne hspace hother hdiff
    rw [hs'.frame, hs.frame] at hroots
    rw [hs'.root]
    exact hread hs'.typed hroots a
  · rintro other (hkernel | ⟨id, hid⟩) a
    · rw [hk.res.spaces.kernel] at hkernel
      cases hkernel
      exact hold hmem.kroot a
    · obtain ⟨_, hs'⟩ := hk.res.spaces.live id other hid
      rw [hs'.root]
      exact hold hs'.typed a
  · intro f hf
    exact hs.data_kept h.mem hne htaken (h.held f hf).1
  · intro t slot f hf
    have hrole := hk.res.holds_role hf
    refine hs.data_kept h.mem hne htaken (o := .handle t slot) ?_
    rw [h.fixed f (.inl ⟨_, hrole⟩), hrole]

/-- Two address spaces are made, one frame is mapped in both, and unmapped again in one. -/
def sharingOps : List SpaceOp :=
  [.newUser, .newUser, .frames .alloc, .map 0 0x49000 0x600000 ⟨true, false, true⟩ .writeBack,
    .map 1 0x49000 0x700000 ⟨false, false, true⟩ .writeBack,
    .map 1 0x49000 0x40000000 ⟨false, false, true⟩ .writeBack, .unmap 1 0x40000000]

theorem sharingOps_end : ((smallBoot []).started.any fun k => k.kernelSpace.any fun kernel =>
    (SpaceSession.run kernel sharingOps ⟨⟨k.machine, ∅, []⟩, []⟩).any fun s =>
      decide (0x49 ∈ s.pool.outstanding) && s.spaces.any fun space =>
        decide (space.toPhysical s.pool.machine.mem 0x700000 = some 0x49000)) = true := by
  decide +kernel

end Dusk
