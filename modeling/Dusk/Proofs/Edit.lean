import Dusk.Proofs.MemInv

/-! Allocation and release of frames under the memory invariant, and the relation
that says how far an operation on one address space may reach. -/

namespace Dusk

open Lib Radix

/-- The frames an address space borrows for its tables. -/
def Role.Lent (r : ℕ) (ρ : Role) : Prop := ρ = .free ∨ ∃ p, p ≠ [] ∧ ρ = .table r p

theorem not_lent_data {r : ℕ} {o : Owner} : ¬ Role.Lent r (.data o) := by
  rintro (h | ⟨p, _, h⟩) <;> cases h

theorem not_lent_root {r r' : ℕ} : ¬ Role.Lent r (.table r' []) := by
  rintro (h | ⟨p, hp, h⟩)
  · cases h
  · cases h
    exact hp rfl

theorem lent_state {r : ℕ} {ρ : Role} (h : Role.Lent r ρ) : ρ.state ≠ .reserved := by
  rcases h with rfl | ⟨p, _, rfl⟩ <;> simp [Role.state]

/-- An operation on the root `r` moves frames only between the roles of `P`, and
writes only to such frames, to the root and to the bitmap. -/
structure Edit (P : Role → Prop) (r : ℕ) (L : Layout) (m : Machine) (L' : Layout) (m' : Machine) :
    Prop where
  regs : Regs m m'
  kroot : L'.kroot = L.kroot
  roles : ∀ f, L'.role f = L.role f ∨ (P (L.role f) ∧ P (L'.role f))
  words : ∀ f, ¬ P (L.role f) → L.role f ≠ .storage → L.role f ≠ .table r [] →
    m'.mem.word f = m.mem.word f

namespace Edit

variable {P P' : Role → Prop} {r : ℕ} {L L' L'' : Layout} {m m' m'' : Machine}

theorem refl (P : Role → Prop) (r : ℕ) (L : Layout) (m : Machine) : Edit P r L m L m :=
  ⟨Regs.refl m, rfl, fun _ => .inl rfl, fun _ _ _ _ => rfl⟩

/-- A frame of no mobile role keeps its role. -/
theorem role_eq (h : Edit P r L m L' m') {f : ℕ} (hf : ¬ P (L.role f)) :
    L'.role f = L.role f := by
  rcases h.roles f with h | ⟨h, _⟩
  · exact h
  · exact absurd h hf

theorem trans (h : Edit P r L m L' m') (h' : Edit P r L' m' L'' m'') : Edit P r L m L'' m'' := by
  refine ⟨h.regs.trans h'.regs, h'.kroot.trans h.kroot, ?_, ?_⟩
  · intro f
    rcases h.roles f with he | ⟨hp, hp'⟩
    · rcases h'.roles f with he' | ⟨hq, hq'⟩
      · exact .inl (he'.trans he)
      · exact .inr ⟨he ▸ hq, hq'⟩
    · rcases h'.roles f with he' | ⟨_, hq'⟩
      · exact .inr ⟨hp, he' ▸ hp'⟩
      · exact .inr ⟨hp, hq'⟩
  · intro f hf hs ht
    have he := h.role_eq hf
    rw [h'.words f (by rwa [he]) (by rwa [he]) (by rwa [he]), h.words f hf hs ht]

theorem mono (h : Edit P r L m L' m') (hP : ∀ ρ, P ρ → P' ρ) : Edit P' r L m L' m' := by
  refine ⟨h.regs, h.kroot, ?_, fun f hf => h.words f (fun hp => hf (hP _ hp))⟩
  intro f
  rcases h.roles f with he | ⟨hp, hp'⟩
  · exact .inl he
  · exact .inr ⟨hP _ hp, hP _ hp'⟩

/-- The free moments of the processor are no edit. -/
theorem ticked (h : Edit P r L m L' m') : Edit P r L m L' m'.ticked :=
  ⟨h.regs.trans (ticked_regs m'), h.kroot, h.roles, h.words⟩

end Edit

/-- Give several frames the same role. -/
def Layout.setAll (L : Layout) (fs : List ℕ) (ρ : Role) : Layout :=
  { L with role := fun f => if f ∈ fs then ρ else L.role f }

theorem Layout.setAll_nil (L : Layout) (ρ : Role) : L.setAll [] ρ = L := by
  simp [Layout.setAll]

theorem Layout.set_setAll (L : Layout) (f : ℕ) (fs : List ℕ) (ρ : Role) :
    (L.set f ρ).setAll fs ρ = L.setAll (f :: fs) ρ := by
  simp only [Layout.setAll, Layout.set]
  congr 1
  funext g
  by_cases hg : g = f
  · subst hg
    simp
  · simp [hg]

theorem Layout.setAll_role_of_mem {L : Layout} {fs : List ℕ} {f : ℕ} (h : f ∈ fs) (ρ : Role) :
    (L.setAll fs ρ).role f = ρ := if_pos h

theorem Layout.setAll_role_of_not_mem {L : Layout} {fs : List ℕ} {f : ℕ} (h : f ∉ fs)
    (ρ : Role) : (L.setAll fs ρ).role f = L.role f := if_neg h

@[simp] theorem Layout.setAll_kroot (L : Layout) (fs : List ℕ) (ρ : Role) :
    (L.setAll fs ρ).kroot = L.kroot := rfl

/-- The leaves depend on the typing and on the words of the tables. -/
theorem leafAt_congr {L L' : Layout} {m m' : Machine} (hT : L'.typing = L.typing)
    (hk : L'.kroot = L.kroot) (hp : m'.paging = m.paging)
    (hwords : ∀ f r p, L.role f = .table r p → m'.mem.word f = m.mem.word f) (r : ℕ)
    (q : List ℕ) (e : Word) : LeafAt L' m' r q e ↔ LeafAt L m r q e := by
  rw [LeafAt, LeafAt, hT, hk, hp]
  apply Leaf.congr
  intro f r p i hf _ _
  rw [hwords f r p (Layout.typing_some.mp hf)]

section Specs

variable {X : Exempt} {L : Layout} {m : Machine} {E : Panic → Machine → Prop}

/-- What an allocation does to the memory invariant. -/
structure Taken (X : Exempt) (L : Layout) (m : Machine) (f : ℕ) (m' : Machine) : Prop where
  takes : L.Takes m f m'
  inv : MemInv X (L.set f (.data .spare)) m'
  only : AllocOnly m m'
  words : ∀ g, L.role g ≠ .storage → g ≠ f → m'.mem.word g = m.mem.word g
  leaf : ∀ r q e, LeafAt (L.set f (.data .spare)) m' r q e ↔ LeafAt L m r q e

theorem Taken.free {f : ℕ} {m' : Machine} (h : Taken X L m f m') : L.role f = .free :=
  h.takes.next.free

theorem MemInv.take (h : MemInv X L m) {f : ℕ} {m' : Machine} (ht : L.Takes m f m')
    (ha : AllocInv (L.set f (.data .spare)) m') (hregs : AllocOnly m m')
    (hwords : ∀ g, L.role g ≠ .storage → g ≠ f → m'.mem.word g = m.mem.word g) :
    Taken X L m f m' := by
  have hf := ht.next.free
  have hT : (L.set f (.data .spare)).typing = L.typing :=
    MemInv.typing_set_none (by simp [Layout.typing, hf, Role.typing]) rfl
  have htab : ∀ g r p, L.role g = .table r p → m'.mem.word g = m.mem.word g := by
    intro g r p hg
    refine hwords g (by simp [hg]) ?_
    rintro rfl
    rw [hf] at hg
    cases hg
  exact ⟨ht, h.retype hT rfl ha hregs.regs hregs.tlb htab, hregs, hwords,
    leafAt_congr hT rfl hregs.regs.paging htab⟩

theorem MemInv.alloc_sat {Q : Option ℕ → Machine → Prop} (h : MemInv X L m)
    (hnone : (∀ f, L.role f ≠ .free) → Q none m)
    (hsome : ∀ f m', Taken X L m f m' → (∀ i, m'.mem.word f i = 0) → Q (some f) m') :
    FrameAllocator.alloc.Sat m Q E :=
  Dusk.alloc_sat h.alloc hnone fun f m' hf ha hregs hwords hzero =>
    hsome f m' (h.take hf ha hregs hwords) hzero

theorem MemInv.allocNozero_sat {Q : Option ℕ → Machine → Prop} (h : MemInv X L m)
    (hnone : (∀ f, L.role f ≠ .free) → Q none m)
    (hsome : ∀ f m', Taken X L m f m' → Q (some f) m') :
    FrameAllocator.allocNozero.Sat m Q E :=
  Dusk.allocNozero_sat h.alloc hnone fun f m' hf ha hregs hwords =>
    hsome f m' (h.take hf ha hregs (fun g hg _ => hwords g hg))

/-- What a release does to the memory invariant. -/
structure Given (X : Exempt) (L : Layout) (m : Machine) (f : ℕ) (m' : Machine) : Prop where
  inv : MemInv X (L.set f .free) m'
  only : AllocOnly m m'
  words : ∀ g, L.role g ≠ .storage → m'.mem.word g = m.mem.word g
  leaf : ∀ r q e, LeafAt (L.set f .free) m' r q e ↔ LeafAt L m r q e

theorem MemInv.dealloc_sat {Q : Unit → Machine → Prop} (h : MemInv X L m) {f : ℕ} {o : Owner}
    (hf : L.role f = .data o) (hQ : ∀ m', Given X L m f m' → Q () m') :
    (FrameAllocator.dealloc f).Sat m Q E := by
  refine Dusk.dealloc_sat h.alloc (by simp [hf, Role.state]) ?_
  intro m' ha hregs hwords
  have hT : (L.set f .free).typing = L.typing :=
    MemInv.typing_set_none (by simp [Layout.typing, hf, Role.typing]) rfl
  have htab : ∀ g r p, L.role g = .table r p → m'.mem.word g = m.mem.word g :=
    fun g r p hg => hwords g (by simp [hg])
  exact hQ m' ⟨h.retype hT rfl ha hregs.regs hregs.tlb htab, hregs, hwords,
    leafAt_congr hT rfl hregs.regs.paging htab⟩

/-- Release several frames. -/
theorem MemInv.deallocAll_sat {Q : Unit → Machine → Prop} (h : MemInv X L m) {fs : List ℕ}
    (hnd : fs.Nodup) (hfs : ∀ f ∈ fs, ∃ o, L.role f = .data o)
    (hQ : ∀ m', MemInv X (L.setAll fs .free) m' → AllocOnly m m' →
      (∀ g, L.role g ≠ .storage → m'.mem.word g = m.mem.word g) →
      (∀ r q e, LeafAt (L.setAll fs .free) m' r q e ↔ LeafAt L m r q e) → Q () m') :
    (FrameAllocator.deallocAll fs).Sat m Q E := by
  induction fs generalizing L m with
  | nil =>
    refine hQ m ?_ (AllocOnly.refl m) (fun _ _ => rfl) ?_
    · rw [Layout.setAll_nil]
      exact h
    · intro r q e
      rw [Layout.setAll_nil]
  | cons f fs ih =>
    obtain ⟨o, hf⟩ := hfs f (by simp)
    obtain ⟨hnot, hnd'⟩ := List.nodup_cons.mp hnd
    rw [FrameAllocator.deallocAll, Prog.sat_bind]
    refine h.dealloc_sat hf ?_
    intro m₁ hg
    refine ih hg.inv hnd' ?_ ?_
    · intro g hgm
      have hgf : g ≠ f := by
        rintro rfl
        exact hnot hgm
      obtain ⟨o', ho'⟩ := hfs g (by simp [hgm])
      exact ⟨o', by rw [Layout.set_role_of_ne L hgf, ho']⟩
    · intro m₂ hinv honly hwords hleaf
      rw [Layout.set_setAll] at hinv hleaf
      refine hQ m₂ hinv (hg.only.trans honly) ?_ ?_
      · intro g hgs
        rw [hwords g ?_, hg.words g hgs]
        by_cases hgf : g = f
        · rw [hgf, Layout.set_role_self]
          simp
        · rwa [Layout.set_role_of_ne L hgf]
      · intro r q e
        rw [hleaf, hg.leaf]

end Specs

end Dusk
