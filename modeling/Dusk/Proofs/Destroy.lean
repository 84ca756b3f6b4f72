import Dusk.Proofs.Space

/-! The destructors of page tables: they give back the tables below a table, each once,
and write to no others. -/

namespace Dusk

open Lib Radix

variable {L : Layout} {m m' : Machine} {r : ℕ} {p : List ℕ} {S : Set ℕ} {pt : PageTable}
  {E : Panic → Machine → Prop}

open Classical in
/-- The frames of a set are free. -/
noncomputable def Layout.raze (L : Layout) (S : Set ℕ) : Layout :=
  { L with role := fun f => if f ∈ S then .free else L.role f }

theorem raze_role_of_mem {f : ℕ} (h : f ∈ S) : (L.raze S).role f = .free := if_pos h

theorem raze_role_of_not_mem {f : ℕ} (h : f ∉ S) : (L.raze S).role f = L.role f := if_neg h

@[simp] theorem raze_kroot : (L.raze S).kroot = L.kroot := rfl

theorem raze_empty : L.raze ∅ = L := by
  unfold Layout.raze
  simp

theorem raze_insert {f : ℕ} : (L.raze S).set f .free = L.raze (insert f S) := by
  unfold Layout.raze Layout.set
  congr 1
  funext g
  by_cases hg : g = f
  · rw [hg, Function.update_self, if_pos (Set.mem_insert f S)]
  · rw [Function.update_of_ne hg]
    dsimp only
    by_cases hS : g ∈ S
    · rw [if_pos hS, if_pos (Set.mem_insert_of_mem f hS)]
    · rw [if_neg hS, if_neg]
      rintro (hf | hf)
      · exact hg hf
      · exact hS hf

/-- The tables at a path of a root and below it. -/
def Layout.subtree (L : Layout) (r : ℕ) (p : List ℕ) : Set ℕ :=
  {f | ∃ q, L.role f = .table r (q ++ p)}

/-- The tables below some of the entries of the table at a path. -/
def Layout.below (L : Layout) (r : ℕ) (p : List ℕ) (idx stop : ℕ) : Set ℕ :=
  {f | ∃ j, idx ≤ j ∧ j < stop ∧ f ∈ L.subtree r (j :: p)}

theorem subtree_eq (ht : Tree L m) {g : ℕ} (hg : L.role g = .table r p) :
    L.subtree r p = insert g (L.below r p 0 512) := by
  ext f
  constructor
  · rintro ⟨q, hf⟩
    rcases List.eq_nil_or_concat q with rfl | ⟨q, j, rfl⟩
    · exact .inl (ht.unique (Layout.typing_some.mpr hf) (Layout.typing_some.mpr hg))
    · rw [List.concat_eq_append, List.append_assoc] at hf
      have hj : j < 512 := ht.path_lt (Layout.typing_some.mpr hf) j (by simp)
      exact .inr ⟨j, Nat.zero_le j, hj, q, hf⟩
  · rintro (rfl | ⟨j, _, _, q, hf⟩)
    · exact ⟨[], hg⟩
    · exact ⟨q ++ [j], by simpa using hf⟩

theorem not_mem_below {g idx stop : ℕ} (hg : L.role g = .table r p) :
    g ∉ L.below r p idx stop := by
  rintro ⟨j, _, _, q, hq⟩
  rw [hg, Role.table.injEq] at hq
  have := congrArg List.length hq.2
  simp only [List.length_append, List.length_cons] at this
  omega

theorem below_succ {idx stop : ℕ} (h : idx < stop) :
    L.below r p idx stop = L.subtree r (idx :: p) ∪ L.below r p (idx + 1) stop := by
  ext f
  constructor
  · rintro ⟨j, hle, hlt, hf⟩
    rcases Nat.eq_or_lt_of_le hle with rfl | hle
    · exact .inl hf
    · exact .inr ⟨j, hle, hlt, hf⟩
  · rintro (hf | ⟨j, hle, hlt, hf⟩)
    · exact ⟨idx, le_rfl, h, hf⟩
    · exact ⟨j, by omega, hlt, hf⟩

/-- Subtrees of different entries have nothing in common. -/
theorem subtree_disjoint {i j f : ℕ} (hi : f ∈ L.subtree r (i :: p))
    (hj : f ∈ L.subtree r (j :: p)) : i = j := by
  obtain ⟨q, hq⟩ := hi
  obtain ⟨q', hq'⟩ := hj
  rw [hq, Role.table.injEq] at hq'
  have hlen := congrArg List.length hq'.2
  simp only [List.length_append, List.length_cons] at hlen
  exact (List.cons.inj (List.append_inj hq'.2 (by omega)).2).1

/-- The tables of `S` have been given back. Besides the bitmap only tables of the root have
been written to. -/
structure Razing (L : Layout) (m : Machine) (r : ℕ) (S : Set ℕ) (m' : Machine) : Prop where
  alloc : AllocInv (L.raze S) m'
  regs : Regs m m'
  words : ∀ g, (∀ p, L.role g ≠ .table r p) → L.role g ≠ .storage →
    m'.mem.word g = m.mem.word g

/-- The tables of a set are as they were. -/
def Standing (m : Machine) (S T : Set ℕ) (m' : Machine) : Prop :=
  ∀ x ∈ T, x ∉ S ∧ m'.mem.word x = m.mem.word x

/-- Only tables of a set, and the bitmap, have been written to. -/
def Within (L : Layout) (T : Set ℕ) (m m' : Machine) : Prop :=
  ∀ x, x ∉ T → L.role x ≠ .storage → m'.mem.word x = m.mem.word x

theorem Within.trans {T T' : Set ℕ} {m'' : Machine} (h : Within L T m m')
    (h' : Within L T' m' m'') {U : Set ℕ} (hT : T ⊆ U) (hT' : T' ⊆ U) : Within L U m m'' :=
  fun x hx hs => (h' x (fun ht => hx (hT' ht)) hs).trans (h x (fun ht => hx (hT ht)) hs)

namespace Razing

/-- An entry of a table of the root is written. -/
theorem write (h : Razing L m r S m') {t : ℕ} (ht : L.role t = .table r p) (i : ℕ) (e : Word) :
    Razing L m r S (m'.withMem (m'.mem.setWord t i e)).ticked := by
  have hother : ∀ g, L.role g ≠ .table r p → (m'.mem.setWord t i e).word g = m'.mem.word g := by
    intro g hg
    apply PhysMem.frame_setWord
    rintro rfl
    exact hg ht
  refine ⟨h.alloc.congr rfl fun g hg => ?_,
    h.regs.trans ((withMem_regs _ _).trans (ticked_regs _)), ?_⟩
  · refine hother g fun hr => ?_
    by_cases hS : g ∈ S
    · rw [raze_role_of_mem hS] at hg
      cases hg
    · rw [raze_role_of_not_mem hS, hr] at hg
      cases hg
  · intro g hg hs
    exact (hother g (hg p)).trans (h.words g hg hs)

/-- A table that stands is given back. -/
theorem dealloc_sat {Q : Unit → Machine → Prop} (h : Razing L m r S m') {g : ℕ}
    (hg : L.role g = .table r p) (hS : g ∉ S)
    (hQ : ∀ m'', Razing L m r (insert g S) m'' → Within L ∅ m' m'' → Q () m'') :
    (FrameAllocator.dealloc g).Sat m' Q E := by
  have hrole : (L.raze S).role g = .table r p := by rw [raze_role_of_not_mem hS, hg]
  refine Dusk.dealloc_sat h.alloc (by rw [hrole]; rfl) ?_
  intro m'' ha honly hwords
  rw [raze_insert] at ha
  have hsame : ∀ x, L.role x ≠ .storage → m''.mem.word x = m'.mem.word x := by
    intro x hx
    refine hwords x ?_
    by_cases hxS : x ∈ S
    · rw [raze_role_of_mem hxS]
      nofun
    · rwa [raze_role_of_not_mem hxS]
  exact hQ m'' ⟨ha, h.regs.trans honly.regs, fun x hx hs => (hsame x hs).trans (h.words x hx hs)⟩
    fun x _ hs => hsame x hs

end Razing

section Loops

variable {t : ℕ} (ht : Tree L m) (hpt : TableOf m pt) (ha : AllocInv L m)

/-- What the destruction of the subtree below the table `g` at a path does. -/
def Destroys (L : Layout) (m : Machine) (r : ℕ) (p : List ℕ) (prog : MM Unit)
    (E : Panic → Machine → Prop) : Prop :=
  ∀ S m', Razing L m r S m' → Standing m S (L.subtree r p) m' →
    prog.Sat m' (fun _ m'' => Razing L m r (S ∪ L.below r p 0 512) m'' ∧
      Within L (L.subtree r p) m' m'') E

include ht hpt

/-- The entry loop of the destructors. -/
theorem destroyEntries_sat {destroyChild : ℕ → MM Unit} (htable : L.role t = .table r p)
    (hp : p.length < m.paging.mode.intermediateLevels.length)
    (hchild : ∀ g i, L.role g = .table r (i :: p) → Destroys L m r (i :: p) (destroyChild g) E)
    {idx count : ℕ} (hle : idx + count ≤ 512)
    (ho : p = [] → r = L.kroot ∨ idx + count ≤ 256) (h : Razing L m r S m') (hS : t ∉ S)
    (hstand : Standing m S (L.below r p idx (idx + count)) m')
    (hwords : ∀ i, idx ≤ i → m'.mem.word t i = m.mem.word t i) :
    (pt.destroyEntries destroyChild t idx count).Sat m' (fun _ m'' =>
      Razing L m r (S ∪ L.below r p idx (idx + count)) m'' ∧
      Within L (insert t (L.below r p idx (idx + count))) m' m'') E := by
  induction count generalizing idx S m' with
  | zero =>
    have hnone : L.below r p idx (idx + 0) = ∅ :=
      Set.eq_empty_of_forall_notMem fun x hx => by
        obtain ⟨j, hle, hlt, _⟩ := hx
        omega
    rw [hnone, Set.union_empty]
    exact ⟨h, fun _ _ _ => rfl⟩
  | succ count ih =>
    have hlt : idx < idx + (count + 1) := by omega
    have hsum : idx + (count + 1) = idx + 1 + count := by omega
    have hown : p = [] → r = L.kroot ∨ idx < 256 := fun hnil => (ho hnil).imp_right (by omega)
    have hown' : p = [] → r = L.kroot ∨ idx + 1 + count ≤ 256 := by rwa [hsum] at ho
    have hroleS : (L.raze S).role t = .table r p := by rw [raze_role_of_not_mem hS, htable]
    obtain ⟨v, hv⟩ := (hpt.regs h.regs).translate h.alloc (f := t) (by simp [hroleS, Role.state])
    rw [below_succ hlt] at hstand ⊢
    rw [hsum] at hstand ⊢
    simp only [PageTable.destroyEntries, hv, Prog.sat_bind, Prog.sat_expect_some, Prog.sat_get,
      hwords idx le_rfl]
    rcases child_cases ht htable hp (i := idx) (by omega) hown with hdead | ⟨g, user, hg, hw, hlim⟩
    · -- no table hangs at an entry that is not present
      have hnone : L.subtree r (idx :: p) = ∅ := by
        refine Set.eq_empty_of_forall_notMem fun x hx => ?_
        obtain ⟨q, hq⟩ := hx
        obtain ⟨c, hc⟩ := ht.ancestor (Layout.typing_some.mpr hq)
        have hlive := ht.child_live (Layout.typing_some.mpr htable) hc
        simp [pteCodec, hdead] at hlive
      rw [hnone, Set.empty_union] at hstand ⊢
      simp only [hdead, Bool.not_false, Bool.true_or, if_true]
      exact ih (by omega) hown' h hS hstand fun i hi => hwords i (by omega)
    · have hlim' : startAddress g < pt.config.physicalAddressLimit := by rwa [hpt.config]
      simp only [hw, tableWord_isPresent user hlim, tableWord_isHuge user hlim,
        tableWord_tableFrame user hlim', Bool.not_true, Bool.or_self, Bool.false_eq_true, if_false,
        Prog.sat_bind, Prog.sat_expect_some]
      refine (hchild g idx hg S m' h fun x hx => hstand x (.inl hx)).mono ?_ fun _ _ h => h
      rintro _ m₁ ⟨h₁, hwithin₁⟩
      have htsub : t ∉ L.subtree r (idx :: p) := fun hx =>
        not_mem_below htable ⟨idx, Nat.zero_le _, by omega, hx⟩
      have hS₁ : t ∉ S ∪ L.below r (idx :: p) 0 512 := by
        rintro (hx | ⟨j, _, _, q, hq⟩)
        · exact hS hx
        · exact htsub ⟨q ++ [j], by simpa using hq⟩
      have hroleS₁ : (L.raze (S ∪ L.below r (idx :: p) 0 512)).role t = .table r p := by
        rw [raze_role_of_not_mem hS₁, htable]
      obtain ⟨v₁, hv₁⟩ := (hpt.regs h₁.regs).translate h₁.alloc (f := t)
        (by simp [hroleS₁, Role.state])
      simp only [PageTable.writeEntry, hv₁, Prog.sat_bind, Prog.sat_expect_some, sat_storeEntry]
      have hg₁ : g ∉ S ∪ L.below r (idx :: p) 0 512 := by
        rintro (hx | hx)
        · exact (hstand g (.inl ⟨[], hg⟩)).1 hx
        · exact not_mem_below hg hx
      refine (h₁.write htable idx _).dealloc_sat hg hg₁ ?_
      intro m₂ h₂ hwithin₂
      have hset : insert g (S ∪ L.below r (idx :: p) 0 512) = S ∪ L.subtree r (idx :: p) := by
        rw [subtree_eq ht hg, Set.union_insert]
      rw [hset] at h₂
      have hword₂ : ∀ x, x ≠ t → x ∉ L.subtree r (idx :: p) → L.role x ≠ .storage →
          m₂.mem.word x = m'.mem.word x := by
        intro x hxt hx hs
        rw [hwithin₂ x (Set.notMem_empty x) hs, ticked_mem, Machine.withMem,
          PhysMem.frame_setWord _ hxt, hwithin₁ x hx hs]
      have hnext := ih (by omega) hown' h₂ ?_ ?_ ?_
      · rw [Set.union_assoc] at hnext
        refine hnext.mono (fun _ m₃ h₃ => ⟨h₃.1, fun x hx hs => ?_⟩) fun _ _ h => h
        rw [Set.mem_insert_iff, Set.mem_union, not_or, not_or] at hx
        obtain ⟨hxt, hsub, hrest⟩ := hx
        rw [h₃.2 x (by rw [Set.mem_insert_iff, not_or]; exact ⟨hxt, hrest⟩) hs]
        exact hword₂ x hxt hsub hs
      · rintro (hx | hx)
        · exact hS hx
        · exact htsub hx
      · rintro x ⟨j, hj, hlt', hx⟩
        have hne : x ∉ L.subtree r (idx :: p) := fun hx' => by
          have := subtree_disjoint hx hx'
          omega
        obtain ⟨hxS, hxw⟩ := hstand x (.inr ⟨j, hj, hlt', hx⟩)
        refine ⟨?_, ?_⟩
        · rintro (hx' | hx')
          · exact hxS hx'
          · exact hne hx'
        · obtain ⟨q, hq⟩ := hx
          rw [hword₂ x ?_ hne (by simp [hq]), hxw]
          rintro rfl
          exact not_mem_below htable ⟨j, Nat.zero_le j, by omega, q, hq⟩
      · intro i hi
        rw [hwithin₂ t (Set.notMem_empty t) (by simp [htable]), ticked_mem, Machine.withMem,
          PhysMem.word_setWord, if_neg (by omega), hwithin₁ t htsub (by simp [htable])]
        exact hwords i (by omega)

/-- `destroy_children` gives back the tables below a table. -/
theorem destroyChildren_sat (height : ℕ) {t : ℕ} {p : List ℕ} (htable : L.role t = .table r p)
    (hp : p.length + height = m.paging.mode.intermediateLevels.length)
    (ho : p = [] → r = L.kroot) : Destroys L m r p (pt.destroyChildren height t) E := by
  induction height generalizing t p with
  | zero =>
    intro S m' h _
    have hnone : L.below r p 0 512 = ∅ := by
      refine Set.eq_empty_of_forall_notMem fun x hx => ?_
      obtain ⟨j, _, _, q, hq⟩ := hx
      have := ht.depth _ _ _ (Layout.typing_some.mpr hq)
      simp only [pteShape, List.length_append, List.length_cons] at this
      omega
    rw [hnone, Set.union_empty]
    exact ⟨h, fun _ _ _ => rfl⟩
  | succ height ih =>
    intro S m' h hstand
    have hroot := hstand t ⟨[], htable⟩
    have hloop := @destroyEntries_sat L m m' r p S pt E t ht hpt (pt.destroyChildren height) htable
      (by omega) (fun g i hg => ih hg (by simp only [List.length_cons]; omega) (by simp)) 0 512
      (by omega) (fun hnil => .inl (ho hnil)) h hroot.1
      (fun x hx => hstand x (by
        obtain ⟨j, _, _, q, hq⟩ := hx
        exact ⟨q ++ [j], by simpa using hq⟩))
      fun i _ => by rw [hroot.2]
    rw [subtree_eq ht htable]
    exact hloop

end Loops

section Destructors

variable (ht : Tree L m) (ha : AllocInv L m) (hr : L.role r = .table r []) (hcr : m.cr3 ≠ r)

theorem Razing.refl (ha : AllocInv L m) : Razing L m r ∅ m :=
  ⟨by rwa [raze_empty], Regs.refl m, fun _ _ _ => rfl⟩

include ht ha hr hcr

/-- `PageTable::destroy` of the one page table gives back all its tables. -/
theorem destroy_sat {Q : Unit → Machine → Prop} (hk : r = L.kroot)
    (hQ : ∀ m', Razing L m r (L.subtree r []) m' → Within L (L.subtree r []) m m' → Q () m') :
    ((m.table r).destroy).Sat m Q E := by
  have hinactive : (m.table r).isActive m = false := decide_eq_false hcr
  simp only [PageTable.destroy, Prog.sat_bind, Prog.sat_get, Prog.sat_assert, hinactive,
    Bool.not_false, if_true]
  have hloop := destroyChildren_sat ht (table_of m r) m.paging.mode.intermediateLevels.length hr
    (by simp) (fun _ => hk) (E := E) ∅ m (Razing.refl ha) fun x _ => ⟨Set.notMem_empty x, rfl⟩
  rw [Set.empty_union] at hloop
  refine hloop.mono ?_ fun _ _ h => h
  rintro _ m₁ ⟨h₁, hwithin₁⟩
  refine h₁.dealloc_sat hr (not_mem_below hr) fun m₂ h₂ hwithin₂ => hQ m₂ ?_
    (hwithin₁.trans hwithin₂ le_rfl (Set.empty_subset _))
  rwa [subtree_eq ht hr]

/-- `PageTable::destroy_user` gives back the root and the tables of the user half. -/
theorem destroyUserHalf_sat {Q : Unit → Machine → Prop}
    (hQ : ∀ m', Razing L m r (insert r (L.below r [] 0 256)) m' →
      Within L (insert r (L.below r [] 0 256)) m m' → Q () m') :
    ((m.table r).destroyUser).Sat m Q E := by
  have hinactive : (m.table r).isActive m = false := decide_eq_false hcr
  have hlevels := levels_pos m.paging.mode
  simp only [PageTable.destroyUser, Prog.sat_bind, Prog.sat_get, Prog.sat_assert, hinactive,
    Bool.not_false, if_true]
  have hloop := @destroyEntries_sat L m m r [] ∅ (m.table r) E r ht (table_of m r)
    ((m.table r).destroyChildren (m.paging.mode.intermediateLevels.length - 1)) hr
    (by simpa using hlevels)
    (fun g i hg => destroyChildren_sat ht (table_of m r) _ hg
      (by simp only [List.length_cons, List.length_nil]; omega) (by simp))
    0 256 (by omega) (fun _ => .inr le_rfl) (Razing.refl ha) (Set.notMem_empty r)
    (fun x _ => ⟨Set.notMem_empty x, rfl⟩) (fun _ _ => rfl)
  rw [Set.empty_union] at hloop
  refine hloop.mono ?_ fun _ _ h => h
  rintro _ m₁ ⟨h₁, hwithin₁⟩
  exact h₁.dealloc_sat hr (not_mem_below hr) fun m₂ h₂ hwithin₂ => hQ m₂ h₂
    (hwithin₁.trans hwithin₂ le_rfl (Set.empty_subset _))

end Destructors

end Dusk
