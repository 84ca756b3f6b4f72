import Dusk.Proofs.PageRuns

/-! Stacks: runs of pages mapped one by one, with rollback, and the pool that gives
the kernel stacks their places. -/

namespace Dusk

open Lib Radix

variable {mixed : Prop} {L L' L₁ : Layout} {m m' m₁ : Machine} {r a va start n N : ℕ}
  {space : AddressSpace} {own : ℕ → Owner} {E : Panic → Machine → Prop}

/-- The page at `v` is mapped to a frame that is kept for it. -/
def PageOf (L : Layout) (m : Machine) (r : ℕ) (own : ℕ → Owner) (v : ℕ) : Prop :=
  ∃ e, LeafAt L m r (pagePath m.paging.mode v) e ∧ L.role (entryFrame m.paging e) = .data (own v)

/-- The roles that change when pages of a run are made or taken away. -/
def RunRole (r : ℕ) (own : ℕ → Owner) (start n : ℕ) (ρ : Role) : Prop :=
  Role.Lent r ρ ∨ ∃ i < n, ρ = .data (own (start + i * FRAME_SIZE))

theorem RunRole.mono {n' : ℕ} (hn : n ≤ n') {ρ : Role} (h : RunRole r own start n ρ) :
    RunRole r own start n' ρ := by
  rcases h with h | ⟨i, hi, h⟩
  · exact .inl h
  · exact .inr ⟨i, by omega, h⟩

theorem not_runRole_root {r' : ℕ} : ¬ RunRole r own start n (.table r' []) := by
  rintro (h | ⟨i, _, h⟩)
  · exact not_lent_root h
  · cases h

/-- A freshly allocated frame gets its owner. -/
theorem Taken.edit {X : Exempt} {f : ℕ} (h : Taken X L m f m') {P : Role → Prop} {o : Owner}
    (hfree : P .free) (ho : P (.data o)) : Edit P r L m (L.set f (.data o)) m' := by
  refine ⟨h.only.regs, rfl, ?_, ?_⟩
  · intro g
    by_cases hg : g = f
    · subst hg
      right
      rw [Layout.set_role_self, h.free]
      exact ⟨hfree, ho⟩
    · left
      rw [Layout.set_role_of_ne L hg]
  · intro g hg hs _
    refine h.words g hs ?_
    rintro rfl
    rw [h.free] at hg
    exact hg hfree

theorem Taken.owned {X : Exempt} {f : ℕ} (h : Taken X L m f m') (o : Owner) :
    MemInv X (L.set f (.data o)) m' := by
  have := h.inv.retag (Layout.set_role_self L f _) o
  rwa [Layout.set_set] at this

theorem Taken.leaf_owned {X : Exempt} {f : ℕ} (h : Taken X L m f m') (o : Owner) (r : ℕ)
    (q : List ℕ) (e : Word) : LeafAt (L.set f (.data o)) m' r q e ↔ LeafAt L m r q e := by
  have hT : (L.set f (.data o)).typing = (L.set f (.data .spare)).typing := by
    rw [Layout.typing_set, Layout.typing_set]
    rfl
  exact (leafAt_congr hT rfl rfl (fun _ _ _ _ => rfl) r q e).trans (h.leaf r q e)

/-- A frame goes back to the allocator. -/
theorem Given.edit {X : Exempt} {f : ℕ} (h : Given X L m f m') {P : Role → Prop}
    (hf : P (L.role f)) (hfree : P .free) : Edit P r L m (L.set f .free) m' := by
  refine ⟨h.only.regs, rfl, ?_, fun g _ hs _ => h.words g hs⟩
  intro g
  by_cases hg : g = f
  · subst hg
    right
    rw [Layout.set_role_self]
    exact ⟨hf, hfree⟩
  · left
    rw [Layout.set_role_of_ne L hg]

/-- The frames of the pages of a run. -/
def RunFrame (L : Layout) (m : Machine) (r start n f : ℕ) : Prop :=
  ∃ i < n, ∃ e, LeafAt L m r (pagePath m.paging.mode (pageAt start i)) e ∧
    f = entryFrame m.paging e

/-- A run of pages in an address space. -/
structure Run (mixed : Prop) (L : Layout) (m : Machine) (space : AddressSpace)
    (r a start n : ℕ) : Prop where
  realm : Realm mixed L m space r a
  places : ∀ i < n, Place mixed L m.paging.mode r a (pageAt start i)

theorem Run.edit {P : Role → Prop} {n' : ℕ} (h : Run mixed L m space r a start n)
    (hinv : MemInv (steady mixed) L' m') (he : Edit P r L m L' m')
    (hP : ∀ r', ¬ P (.table r' [])) (hn : n' ≤ n)
    (hl : RootFree L r [] ∨ ∀ e, LeafAt L m r (pagePath m.paging.mode a) e →
      LeafAt L' m' r (pagePath m.paging.mode a) e) : Run mixed L' m' space r a start n' :=
  ⟨h.realm.edit hinv he hP hl, fun i hi => (h.places i (by omega)).edit he hP⟩

/-- Nothing but the log of handed back pages differs. -/
def Machine.withHandBacks (m : Machine) (handBacks : List HandBack) : Machine :=
  { m with handBacks }

theorem MemInv.withHandBacks {X : Exempt} (h : MemInv X L m) (hb : List HandBack) :
    MemInv X L (m.withHandBacks hb) :=
  h.registers rfl rfl rfl (fun hx => (h.halves hx).active) (fun hx => (h.halves hx).tlb)

theorem Edit.withHandBacks {P : Role → Prop} (h : Edit P r L m L' m') (hb : List HandBack) :
    Edit P r L (m.withHandBacks hb) L' (m'.withHandBacks hb) :=
  ⟨⟨h.regs.cr3, h.regs.kernelStackTop, h.regs.paging, h.regs.fills, rfl, h.regs.serial,
    h.regs.directMap, h.regs.bitmap⟩, h.kroot, h.roles, h.words⟩

theorem UnmapPost.withHandBacks (h : UnmapPost mixed L m r va L' m') (hb : List HandBack) :
    UnmapPost mixed L (m.withHandBacks hb) r va L' (m'.withHandBacks hb) :=
  ⟨h.inv.withHandBacks hb, h.edit.withHandBacks hb, h.kept, h.leaf⟩

theorem Given.withHandBacks {X : Exempt} {f : ℕ} (h : Given X L m f m') (hb : List HandBack) :
    Given X L (m.withHandBacks hb) f (m'.withHandBacks hb) := by
  refine ⟨h.inv.withHandBacks hb, ?_, h.words, h.leaf⟩
  have := h.only
  rw [AllocOnly] at this ⊢
  rw [Machine.withHandBacks, this]
  rfl


section Shrink

variable {m₂ : Machine} {e : Word} (hown : Function.Injective own)
  (hrun : Run mixed L m space r a start (n + 1))
  (htakes : ∀ i < n + 1, space.Takes m.paging.mode (pageAt start i))
  (hpages : ∀ i < n + 1, PageOf L m r own (pageAt start i))
  (hl : LeafAt L m r (pagePath m.paging.mode (pageAt start n)) e)
  (hf : L.role (entryFrame m.paging e) = .data (own (pageAt start n)))
  (hu : UnmapPost mixed L m r (pageAt start n) L₁ m₁)
  (hg : Given (steady mixed) L₁ m₁ (entryFrame m.paging e) m₂)

include hf hu in
theorem shrink_role : L₁.role (entryFrame m.paging e) = .data (own (pageAt start n)) := by
  rw [hu.edit.role_eq (by rw [hf]; exact not_lent_data), hf]

include hf hu hg in
/-- The frame of the last page of a run goes back. -/
theorem shrink_edit (hN : n < N) : Edit (RunRole r own start N) r L₁ m₁
    (L₁.set (entryFrame m.paging e) .free) m₂ := by
  refine hg.edit ?_ (.inl (.inl rfl))
  rw [shrink_role hf hu]
  exact .inr ⟨n, hN, rfl⟩

include htakes hu hg in
theorem shrink_leaf {i : ℕ} (hi : i < n) (e' : Word) :
    LeafAt (L₁.set (entryFrame m.paging e) .free) m₂ r
      (pagePath m.paging.mode (pageAt start i)) e' ↔
    LeafAt L m r (pagePath m.paging.mode (pageAt start i)) e' := by
  rw [hg.leaf, hu.leaf, and_iff_left]
  rintro ⟨_, hq⟩
  have := run_inj (htakes i (by omega)) (htakes n (by omega)) hq
  omega

include hf hrun hu hg in
theorem shrink_run : Run mixed (L₁.set (entryFrame m.paging e) .free) m₂ space r a start n := by
  have hplace := hrun.places n (by omega)
  have hrun₁ : Run mixed L₁ m₁ space r a start n := by
    refine hrun.edit hu.inv hu.edit (fun _ => not_lent_root) (by omega) ?_
    rcases hplace.apart with hfree | ⟨hne, _⟩
    · exact .inl hfree
    · exact .inr fun e' hl' => (hu.leaf _ _ _).mpr ⟨hl', fun hq => hne hq.2⟩
  exact hrun₁.edit hg.inv (shrink_edit hf hu hg (Nat.lt_succ_self n)) (fun _ => not_runRole_root)
    le_rfl (.inr fun e' hl' => (hg.leaf _ _ _).mpr hl')

include hown hf htakes hpages hu hg in
theorem shrink_pages {i : ℕ} (hi : i < n) :
    PageOf (L₁.set (entryFrame m.paging e) .free) m₂ r own (pageAt start i) := by
  have hpaging : m₂.paging = m.paging := hg.only.regs.paging.trans hu.edit.regs.paging
  obtain ⟨e', hl', hrole⟩ := hpages i (by omega)
  have hne : entryFrame m.paging e' ≠ entryFrame m.paging e := by
    intro he
    rw [he, hf] at hrole
    have := hown (Role.data.inj hrole)
    simp only [pageAt, FRAME_SIZE] at this
    omega
  refine ⟨e', ?_, ?_⟩
  · rw [hpaging]
    exact (shrink_leaf htakes hu hg hi e').mpr hl'
  · rw [hpaging, Layout.set_role_of_ne L₁ hne,
      hu.edit.role_eq (by rw [hrole]; exact not_lent_data), hrole]

include hf hrun htakes hl hu hg in
/-- The last page of a run goes, then the others. -/
theorem shrink_gone (hN : n < N) (h : PagesGone mixed (RunRole r own start N)
      (L₁.set (entryFrame m.paging e) .free) m₂ r start n
      (RunFrame (L₁.set (entryFrame m.paging e) .free) m₂ r start n) L' m') :
    PagesGone mixed (RunRole r own start N) L m r start (n + 1) (RunFrame L m r start (n + 1))
      L' m' := by
  have hpaging : m₂.paging = m.paging := hg.only.regs.paging.trans hu.edit.regs.paging
  refine PagesGone.step (fun _ h => .inl h) hu (shrink_edit hf hu hg hN) ?_ ?_ hg.leaf h ?_ ?_
  · intro g hgne
    by_cases hgf : g = entryFrame m.paging e
    · rw [hgf, Layout.set_role_self] at hgne
      exact absurd rfl hgne
    · rw [Layout.set_role_of_ne L₁ hgf]
  · intro g hfree
    by_cases hgf : g = entryFrame m.paging e
    · exact .inr ⟨n, by omega, e, hl, hgf⟩
    · rw [Layout.set_role_of_ne L₁ hgf] at hfree
      exact .inl hfree
  · rintro g ⟨i, hi, e', hl', rfl⟩
    rw [hpaging] at hl' ⊢
    exact ⟨i, by omega, e', (shrink_leaf htakes hu hg hi e').mp hl', rfl⟩
  · rintro g ⟨i, hi, e', hl', rfl⟩
    rcases Nat.lt_succ_iff_lt_or_eq.mp hi with hi | rfl
    · refine .inr ⟨i, hi, e', ?_, by rw [hpaging]⟩
      rw [hpaging]
      exact (shrink_leaf htakes hu hg hi e').mpr hl'
    · rw [Leaf.unique hrun.realm.inv.tree hl' hl, Layout.set_role_self]
      exact .inl rfl

end Shrink

theorem rollback_sat {Q : Unit → Machine → Prop} (hown : Function.Injective own)
    (hrun : Run mixed L m space r a start n)
    (htakes : ∀ i < n, space.Takes m.paging.mode (pageAt start i))
    (hpages : ∀ i < n, PageOf L m r own (pageAt start i)) (hN : n ≤ N)
    (hQ : ∀ L' m', PagesGone mixed (RunRole r own start N) L m r start n
      (RunFrame L m r start n) L' m' → Q () m') :
    (StackMapping.rollback space start n).Sat m Q E := by
  induction n generalizing L m with
  | zero => exact hQ L m (PagesGone.nil hrun.realm.inv fun f ⟨i, hi, _⟩ => absurd hi (by omega))
  | succ n ih =>
    obtain ⟨e, hl, hf⟩ := hpages n (by omega)
    have hadd : checkedAdd start (n * FRAME_SIZE) = some (pageAt start n) :=
      if_pos (canonical_lt (htakes n (by omega)).canonical)
    simp only [StackMapping.rollback, Prog.sat_bind, addUsize, hadd, Prog.sat_expect_some]
    refine hrun.realm.unmap_sat (hrun.places n (by omega)) (htakes n (by omega)) hl ?_
    intro L₁ m₁ hu
    simp only [Prog.sat_bind]
    refine hu.inv.dealloc_sat (shrink_role hf hu) ?_
    intro m₂ hg
    have hpaging : m₂.paging = m.paging := hg.only.regs.paging.trans hu.edit.regs.paging
    refine ih (shrink_run hrun hf hu hg) ?_
      (fun i hi => shrink_pages hown htakes hpages hf hu hg hi) (by omega) ?_
    · rw [hpaging]
      exact fun i hi => htakes i (by omega)
    · intro L' m' hgone
      exact hQ L' m' (shrink_gone hrun htakes hl hf hu hg (by omega) hgone)

/-- Pages of a run have been handed back. -/
def Handed (m : Machine) (start n : ℕ) (hb : List HandBack) : Prop :=
  ∀ b ∈ hb, b ∈ m.handBacks ∨ ∃ i < n, b.page = start + i * FRAME_SIZE

theorem Run.withHandBacks (h : Run mixed L m space r a start n) (hb : List HandBack) :
    Run mixed L (m.withHandBacks hb) space r a start n :=
  ⟨⟨h.realm.inv.withHandBacks hb, h.realm.root, h.realm.typed, h.realm.kind, h.realm.sole,
    h.realm.anchor⟩, h.places⟩

theorem destroyPages_sat {Q : Unit → Machine → Prop} (hown : Function.Injective own)
    (hrun : Run mixed L m space r a start n)
    (htakes : ∀ i < n, space.Takes m.paging.mode (pageAt start i))
    (hpages : ∀ i < n, PageOf L m r own (pageAt start i)) (hN : n ≤ N)
    (hQ : ∀ L' m' hb, Handed m start n hb →
      PagesGone mixed (RunRole r own start N) L (m.withHandBacks hb) r start n
        (RunFrame L (m.withHandBacks hb) r start n) L' m' → Q () m') :
    (StackMapping.destroyPages space start n).Sat m Q E := by
  induction n generalizing L m with
  | zero =>
    exact hQ L m m.handBacks (fun b hb => .inl hb)
      (PagesGone.nil hrun.realm.inv fun f ⟨i, hi, _⟩ => absurd hi (by omega))
  | succ n ih =>
    obtain ⟨e, hl, hf⟩ := hpages n (by omega)
    have hadd : checkedAdd start (n * FRAME_SIZE) = some (pageAt start n) :=
      if_pos (canonical_lt (htakes n (by omega)).canonical)
    simp only [StackMapping.destroyPages, Prog.sat_bind, addUsize, hadd, Prog.sat_expect_some]
    refine hrun.realm.unmap_sat (hrun.places n (by omega)) (htakes n (by omega)) hl ?_
    intro L₁ m₁ hu
    simp only [Prog.sat_bind, handBack, Prog.sat_modify]
    let hb₁ : List HandBack :=
      m₁.handBacks ++ [⟨pageAt start n, entryFrame m.paging e, m₁.tlb⟩]
    have hu₁ := hu.withHandBacks hb₁
    refine hu₁.inv.dealloc_sat (shrink_role hf hu) ?_
    intro m₂ hg
    have hpaging : m₂.paging = m.paging := hg.only.regs.paging.trans hu.edit.regs.paging
    -- The log is as if it had been written before the page was unmapped.
    have hrun₁ := hrun.withHandBacks hb₁
    refine ih (shrink_run hrun₁ hf hu₁ hg) ?_
      (fun i hi => shrink_pages (m := m.withHandBacks hb₁) hown htakes hpages hf hu₁ hg hi)
      (by omega) ?_
    · rw [hpaging]
      exact fun i hi => htakes i (by omega)
    · intro L' m' hb hhb hgone
      refine hQ L' m' hb ?_ (shrink_gone (hrun.withHandBacks hb) htakes hl hf (hu.withHandBacks hb)
        (hg.withHandBacks hb) (by omega) hgone)
      intro b hmem
      rcases hhb b hmem with hmem | ⟨i, hi, hpage⟩
      · have hregs : m₂.handBacks = hb₁ := hg.only.regs.handBacks
        rw [hregs] at hmem
        rcases List.mem_append.mp hmem with hmem | hmem
        · rw [hu.edit.regs.handBacks] at hmem
          exact .inl hmem
        · rw [List.mem_singleton.mp hmem]
          exact .inr ⟨n, by omega, rfl⟩
      · exact .inr ⟨i, by omega, hpage⟩


/-- The first `n` pages of a stack have been made, each from a frame that was free. -/
structure StackMade (mixed : Prop) (own : ℕ → Owner) (space : AddressSpace) (L : Layout)
    (m : Machine) (r start N : ℕ) (word : ℕ → Word) (n : ℕ) (frames : ℕ → ℕ) (L' : Layout)
    (m' : Machine) : Prop where
  added : PagesAdded mixed (RunRole r own start N) space L m r start n word frames L' m'
  frame : ∀ i < n, entryFrame m.paging (word (frames i)) = frames i
  owned : ∀ i < n, L'.role (frames i) = .data (own (pageAt start i))
  free : ∀ i < n, L.role (frames i) = .free
  new : ∀ f o, L.role f = .free → L'.role f = .data o → ∃ i < n, f = frames i

namespace StackMade

variable {word : ℕ → Word} {frames : ℕ → ℕ}

theorem pages (h : StackMade mixed own space L m r start N word n frames L' m') {i : ℕ}
    (hi : i < n) : PageOf L' m' r own (pageAt start i) := by
  have hpaging := h.added.edit.regs.paging
  refine ⟨word (frames i), ?_, ?_⟩
  · rw [hpaging]
    exact h.added.page hi
  · rw [hpaging, h.frame i hi]
    exact h.owned i hi

theorem runFrame_iff (h : StackMade mixed own space L m r start N word n frames L' m') {f : ℕ} :
    RunFrame L' m' r start n f ↔ ∃ i < n, f = frames i := by
  have hpaging := h.added.edit.regs.paging
  unfold RunFrame
  rw [hpaging]
  constructor
  · rintro ⟨i, hi, e, hl, rfl⟩
    refine ⟨i, hi, ?_⟩
    rw [Leaf.unique h.added.inv.tree hl (h.added.page hi)]
    exact h.frame i hi
  · rintro ⟨i, hi, rfl⟩
    exact ⟨i, hi, _, h.added.page hi, (h.frame i hi).symm⟩

/-- What is not a page of the stack has not changed. -/
theorem outside (h : StackMade mixed own space L m r start N word n frames L' m') (r' : ℕ)
    (q : List ℕ) (e : Word)
    (hq : ¬ (r' = r ∧ ∃ i < n, q = pagePath m.paging.mode (pageAt start i))) :
    LeafAt L' m' r' q e ↔ LeafAt L m r' q e := by
  rw [h.added.leaf, or_iff_right]
  rintro ⟨hr, i, hi, he, _⟩
  exact hq ⟨hr, i, hi, he⟩

/-- A stack that is taken away again leaves everything in its place. -/
theorem undo (h : StackMade mixed own space L m r start N word n frames L₁ m₁)
    (hinv : MemInv (steady mixed) L m)
    (hg : PagesGone mixed (RunRole r own start N) L₁ m₁ r start n (RunFrame L₁ m₁ r start n) L' m') :
    Restored mixed (RunRole r own start N) L m r L m' := by
  refine h.added.undo hinv hg ?_ ?_
  · intro f hf
    obtain ⟨i, hi, rfl⟩ := h.runFrame_iff.mp hf
    exact h.free i hi
  · rintro f hf ((hfree | htable) | ⟨i, _, hdata⟩)
    · exact .inl hfree
    · exact .inr (.inl htable)
    · exact .inr (.inr (h.runFrame_iff.mpr (h.new f _ hf hdata)))

theorem run (h : StackMade mixed own space L m r start N word n frames L' m')
    (hrun : Run mixed L m space r a start N) : Run mixed L' m' space r a start N :=
  hrun.edit h.added.inv h.added.edit (fun _ => not_runRole_root) le_rfl
    (.inr fun _ hl => (h.added.leaf _ _ _).mpr (.inr hl))

/-- The rollback of `allocate` after `n` pages. -/
theorem rollback {Q : Except StackCreateError Unit → Machine → Prop}
    (hown : Function.Injective own) (hrun : Run mixed L m space r a start N)
    (h : StackMade mixed own space L m r start N word n frames L₁ m₁) (hn : n ≤ N)
    {err : StackCreateError}
    (hQ : ∀ m', Restored mixed (RunRole r own start N) L m r L m' → Q (.error err) m') :
    (do
      StackMapping.rollback space start n
      pure (.error err) : MM (Except StackCreateError Unit)).Sat m₁ Q E := by
  have hrun₁ := h.run hrun
  rw [Prog.sat_bind]
  refine rollback_sat hown ⟨hrun₁.realm, fun i hi => hrun₁.places i (by omega)⟩ ?_
    (fun i hi => h.pages hi) hn ?_
  · rw [h.added.edit.regs.paging]
    exact h.added.takes
  · intro L' m' hgone
    exact hQ m' (h.undo hrun.realm.inv hgone)

/-- One more page of a stack. -/
theorem snoc {L₂ L₃ : Layout} {m₂ m₃ : Machine} {f : ℕ}
    (h : StackMade mixed own space L m r start N word n frames L₁ m₁) (hn : n < N)
    (hL₂ : L₂ = L₁.set f (.data (own (pageAt start n))))
    (ht : Taken (steady mixed) L₁ m₁ f m₂) (hframe : entryFrame m.paging (word f) = f)
    (hmap : MapPost mixed L₂ m₂ r (pageAt start n) f (word f) (.ok ()) L₃ m₃)
    (htakes : space.Takes m.paging.mode (pageAt start n)) :
    StackMade mixed own space L m r start N word (n + 1) (Function.update frames n f) L₃ m₃ := by
  have hold : ∀ i < n, Function.update frames n f i = frames i := fun i hi =>
    Function.update_of_ne (by omega) _ _
  have hnew : Function.update frames n f n = f := Function.update_self ..
  have hrole₃ : ∀ {g o}, L₂.role g = .data o → L₃.role g = .data o := by
    intro g o hg
    rw [hmap.edit.role_eq (by rw [hg]; exact not_lent_data), hg]
  have hfree : L.role f = .free := by
    by_contra hne
    rw [← h.added.kept f hne] at hne
    exact hne ht.free
  have hadded₂ : PagesAdded mixed (RunRole r own start N) space L m r start n word
      (Function.update frames n f) L₂ m₂ := by
    refine (h.added.quiet ?_ ?_ ?_ ?_).congr hold
    · rw [hL₂]
      exact ht.owned _
    · rw [hL₂]
      exact ht.edit (.inl (.inl rfl)) (.inr ⟨n, hn, rfl⟩)
    · intro g hg
      rw [hL₂, Layout.set_role_of_ne]
      rintro rfl
      exact hg ht.free
    · rw [hL₂]
      exact ht.leaf_owned _
  have hmap' : MapPost mixed L₂ m₂ r (pageAt start n) (Function.update frames n f n)
      (word (Function.update frames n f n)) (.ok ()) L₃ m₃ := by
    rwa [hnew]
  refine ⟨hadded₂.snoc (fun _ h => .inl h) hmap' htakes, ?_, ?_, ?_, ?_⟩
  · intro i hi
    rcases Nat.lt_succ_iff_lt_or_eq.mp hi with hi | rfl
    · rw [hold i hi]
      exact h.frame i hi
    · rw [hnew]
      exact hframe
  · intro i hi
    apply hrole₃
    rw [hL₂]
    rcases Nat.lt_succ_iff_lt_or_eq.mp hi with hi | rfl
    · have hrole := h.owned i hi
      rw [hold i hi, Layout.set_role_of_ne, hrole]
      rintro hfi
      rw [hfi, ht.free] at hrole
      cases hrole
    · rw [hnew, Layout.set_role_self]
  · intro i hi
    rcases Nat.lt_succ_iff_lt_or_eq.mp hi with hi | rfl
    · rw [hold i hi]
      exact h.free i hi
    · rw [hnew]
      exact hfree
  · intro g o hg hdata
    have hg₂ : L₂.role g = .data o := by
      rcases hmap.edit.roles g with hsame | ⟨_, hlent⟩
      · rw [← hsame, hdata]
      · rw [hdata] at hlent
        exact absurd hlent not_lent_data
    by_cases hgf : g = f
    · exact ⟨n, by omega, by rw [hnew, hgf]⟩
    · rw [hL₂, Layout.set_role_of_ne L₁ hgf] at hg₂
      obtain ⟨i, hi, he⟩ := h.new g o hg hg₂
      exact ⟨i, by omega, by rw [hold i hi, he]⟩

/-- The log of handed back pages may have been longer from the start. -/
theorem withHandBacks (h : StackMade mixed own space L m r start N word n frames L' m')
    (hb : List HandBack) : StackMade mixed own space L (m.withHandBacks hb) r start N word n frames
      L' (m'.withHandBacks hb) :=
  ⟨⟨h.added.inv.withHandBacks hb, h.added.edit.withHandBacks hb, h.added.kept, h.added.takes,
    h.added.limit, h.added.fresh, h.added.leaf⟩, h.frame, h.owned, h.free, h.new⟩

theorem frames_inj (h : StackMade mixed own space L m r start N word n frames L' m')
    (hown : Function.Injective own) {i j : ℕ} (hi : i < n) (hj : j < n)
    (he : frames i = frames j) : i = j := by
  have hrole := h.owned i hi
  rw [he, h.owned j hj] at hrole
  have hpage := hown (Role.data.inj hrole)
  simp only [pageAt, FRAME_SIZE] at hpage
  omega

/-- The stack is used: its frames are written. -/
theorem written (h : StackMade mixed own space L m r start N word n frames L' m') (hn : n ≤ N)
    {mem : PhysMem} (hmem : ∀ f, (∀ i < n, f ≠ frames i) → mem.word f = m'.mem.word f) :
    StackMade mixed own space L m r start N word n frames L' (m'.withMem mem) := by
  have hwords : ∀ f, (∀ o, L'.role f ≠ .data o) → mem.word f = m'.mem.word f := by
    intro f hf
    refine hmem f fun i hi he => ?_
    exact hf _ (by rw [he, h.owned i hi])
  refine ⟨h.added.quiet ?_ ⟨withMem_regs _ _, rfl, fun _ => .inl rfl, ?_⟩ (fun _ _ => rfl) ?_,
    h.frame, h.owned, h.free, h.new⟩
  · refine h.added.inv.writeData mem fun f hf => hwords f fun o ho => ?_
    rcases hf with ⟨_, _, hf⟩ | hf
    · rw [ho] at hf
      cases hf
    · rw [ho] at hf
      cases hf
  · intro f hf _ _
    refine hmem f fun i hi he => hf ?_
    rw [he, h.owned i hi]
    exact .inr ⟨i, by omega, rfl⟩
  · refine leafAt_congr rfl rfl rfl fun f r' p hf => hwords f fun o ho => ?_
    rw [ho] at hf
    cases hf

/-- The pages of a stack stay zero while more are made. -/
theorem zero_snoc {L₂ L₃ : Layout} {m₂ m₃ : Machine} {f : ℕ} {e : Word}
    (h : StackMade mixed own space L m r start N word n frames L₁ m₁)
    (hL₂ : L₂ = L₁.set f (.data (own (pageAt start n))))
    (ht : Taken (steady mixed) L₁ m₁ f m₂) (hzero₂ : ∀ j, m₂.mem.word f j = 0)
    (hmap : MapPost mixed L₂ m₂ r (pageAt start n) f e (.ok ()) L₃ m₃)
    (hzero : ∀ i < n, ∀ j, m₁.mem.word (frames i) j = 0) {i : ℕ} (hi : i < n + 1) (j : ℕ) :
    m₃.mem.word (Function.update frames n f i) j = 0 := by
  have hwords : ∀ {g o}, L₂.role g = .data o → m₃.mem.word g = m₂.mem.word g := by
    intro g o hg
    refine hmap.edit.words g ?_ ?_ ?_
    · rw [hg]
      exact not_lent_data
    · rw [hg]
      nofun
    · rw [hg]
      nofun
  rcases Nat.lt_succ_iff_lt_or_eq.mp hi with hi | rfl
  · have hrole := h.owned i hi
    have hne : frames i ≠ f := by
      intro hfi
      rw [hfi, ht.free] at hrole
      cases hrole
    have hrole₂ : L₂.role (frames i) = .data (own (pageAt start i)) := by
      rw [hL₂, Layout.set_role_of_ne L₁ hne, hrole]
    rw [Function.update_of_ne (by omega), hwords hrole₂,
      ht.words (frames i) (by rw [hrole]; nofun) hne]
    exact hzero i hi j
  · rw [Function.update_self, hwords (by rw [hL₂, Layout.set_role_self])]
    exact hzero₂ j

end StackMade

/-- The loop of `StackMapping::allocate`. -/
theorem allocatePages_sat {Q : Except StackCreateError Unit → Machine → Prop}
    {permissions : PagePermissions} {frames : ℕ → ℕ} {remaining : ℕ}
    (hown : Function.Injective own) (hrun : Run mixed L m space r a start N)
    (huser : ¬ mixed → permissions.userAccessible = decide (r ≠ L.kroot))
    (hn : n + remaining = N) (hfit : ∀ i < N, pageAt start i < USIZE_END)
    (h : StackMade mixed own space L m r start N (space.word m permissions .writeBack) n frames L₁ m₁)
    (hzero : ∀ i < n, ∀ j, m₁.mem.word (frames i) j = 0)
    (hok : ∀ frames L' m', StackMade mixed own space L m r start N (space.word m permissions .writeBack) N frames L' m' →
      (∀ i < N, ∀ j, m'.mem.word (frames i) j = 0) → Q (.ok ()) m')
    (herr : ∀ err m', err ≠ .outOfStacks → Restored mixed (RunRole r own start N) L m r L m' →
      Q (.error err) m') :
    (StackMapping.allocatePages space start permissions remaining n).Sat m₁ Q E := by
  induction remaining generalizing n frames L₁ m₁ with
  | zero =>
    rw [Nat.add_zero] at hn
    subst hn
    exact hok frames L₁ m₁ h hzero
  | succ remaining ih =>
    have hlt : n < N := by omega
    have hadd : checkedAdd start (n * FRAME_SIZE) = some (pageAt start n) := if_pos (hfit n hlt)
    simp only [StackMapping.allocatePages, hadd, Prog.sat_bind]
    refine h.added.inv.alloc_sat ?_ ?_
    · exact fun _ => h.rollback hown hrun hlt.le fun m' => herr _ m' (by simp)
    · intro f m₂ ht hzero₂
      obtain ⟨L₂, hL₂⟩ : ∃ L₂, L₂ = L₁.set f (.data (own (pageAt start n))) := ⟨_, rfl⟩
      have hinv₂ : MemInv (steady mixed) L₂ m₂ := hL₂ ▸ ht.owned _
      have hedit₂ : Edit (RunRole r own start N) r L₁ m₁ L₂ m₂ := by
        rw [hL₂]
        exact ht.edit (.inl (.inl rfl)) (.inr ⟨n, hlt, rfl⟩)
      have hleaf₂ : ∀ r' q e', LeafAt L₂ m₂ r' q e' ↔ LeafAt L₁ m₁ r' q e' := by
        rw [hL₂]
        exact ht.leaf_owned _
      have hrun₂ : Run mixed L₂ m₂ space r a start N :=
        (h.run hrun).edit hinv₂ hedit₂ (fun _ => not_runRole_root) le_rfl
          (.inr fun e hl => (hleaf₂ _ _ _).mpr hl)
      have hkroot : L₂.kroot = L.kroot := hedit₂.kroot.trans h.added.edit.kroot
      have hpaging : m₂.paging = m.paging := hedit₂.regs.paging.trans h.added.edit.regs.paging
      -- The page is refused: its frame goes back, then the pages before it.
      have hback : ∀ {err : StackCreateError} {m₃ : Machine}, MemInv (steady mixed) L₂ m₃ →
          Edit (RunRole r own start N) r L₂ m₂ L₂ m₃ →
          (∀ r' q e', LeafAt L₂ m₃ r' q e' ↔ LeafAt L₂ m₂ r' q e') → err ≠ .outOfStacks →
          (do
            FrameAllocator.dealloc f
            StackMapping.rollback space start n
            pure (.error err) : MM (Except StackCreateError Unit)).Sat m₃ Q E := by
        intro err m₃ hinv₃ hedit₃ hleaf₃ hne
        have hrole₂ : L₂.role f = .data (own (pageAt start n)) := by
          rw [hL₂, Layout.set_role_self]
        rw [Prog.sat_bind]
        refine hinv₃.dealloc_sat hrole₂ ?_
        intro m₄ hg
        have hset : L₂.set f .free = L₁ := by
          rw [hL₂, Layout.set_set]
          exact Layout.set_eq L₁ ht.free
        have hinv₄ := hg.inv
        have hedit₄ := hedit₂.trans (hedit₃.trans (hg.edit (by
          rw [hrole₂]
          exact .inr ⟨n, hlt, rfl⟩) (.inl (.inl rfl))))
        have hleaf₄ := hg.leaf
        rw [hset] at hinv₄ hedit₄ hleaf₄
        have hmade₄ : StackMade mixed own space L m r start N (space.word m permissions .writeBack) n frames L₁ m₄ :=
          ⟨h.added.quiet hinv₄ hedit₄ (fun _ _ => rfl) fun r' q e' => by
              rw [hleaf₄, hleaf₃, hleaf₂],
            h.frame, h.owned, h.free, h.new⟩
        exact hmade₄.rollback hown hrun hlt.le fun m' => herr _ m' hne
      simp only [Prog.sat_bind]
      refine hrun₂.realm.map_sat (hrun₂.places n hlt) (fun hx => by rw [hkroot]; exact huser hx)
        (fun _ err => hback hinv₂ (Edit.refl _ _ _ _) (fun _ _ _ => Iff.rfl) (by simp)) ?_
      intro res L₃ m₃ hmap hlow
      rw [hpaging] at hmap
      cases res with
      | ok u =>
        obtain ⟨hc, hal, hlim, _⟩ := hmap.done rfl
        rw [hpaging] at hc hlim
        have hframe : entryFrame m.paging (space.word m permissions .writeBack f) = f :=
          leafWord_entryFrame _ _ _ hlim
        exact ih (by omega) (h.snoc hlt hL₂ ht hframe hmap ⟨hc, hal, hlow⟩)
          (fun i hi j => h.zero_snoc hL₂ ht hzero₂ hmap hzero hi j)
      | error err =>
        obtain ⟨rfl, _, hleaf₃, _⟩ := hmap.failed err rfl
        exact hback hmap.inv (hmap.edit.mono fun ρ h => .inl h) hleaf₃ (by simp)


theorem StackMade.nil {word : ℕ → Word} {frames : ℕ → ℕ} (h : MemInv (steady mixed) L m) :
    StackMade mixed own space L m r start N word 0 frames L m :=
  ⟨PagesAdded.nil h, nofun, nofun, nofun, fun f o hf hd => by rw [hf] at hd; cases hd⟩

/-- An address that no walk of the page table reaches. -/
theorem Realm.toPhysical_none (h : Realm mixed L m space r a)
    (ho : m.paging.mode.isCanonical va = true → r = L.kroot ∨ rootIndex m.paging.mode va < 256) :
    space.toPhysical m.mem va = none ↔ (m.paging.mode.isCanonical va = true →
      ∀ e, ¬ LeafAt L m r (pagePath m.paging.mode va) e) := by
  rw [AddressSpace.toPhysical, h.root]
  by_cases hc : m.paging.mode.isCanonical va = true
  · rw [h.inv.toPhysical_none h.typed hc (ho hc)]
    exact ⟨fun hn _ => hn, fun hn => hn hc⟩
  · refine iff_of_true ?_ fun hc' => absurd hc' hc
    have hc' : (m.table r).isCanonical va = false := Bool.not_eq_true _ ▸ hc
    rw [PageTable.toPhysical, hc']
    rfl

/-- `StackMapping::allocate`. -/
theorem StackMapping.allocate_sat {Q : Except StackCreateError StackMapping → Machine → Prop}
    {stackSize top : ℕ} {permissions : PagePermissions} (hown : Function.Injective own)
    (htop : top < USIZE_END) (hrun : Run mixed L m space r a (top - stackSize)
      (stackSize / FRAME_SIZE))
    (huser : ¬ mixed → permissions.userAccessible = decide (r ≠ L.kroot))
    (ho : m.paging.mode.isCanonical (top - stackSize - FRAME_SIZE) = true →
      r = L.kroot ∨ rootIndex m.paging.mode (top - stackSize - FRAME_SIZE) < 256)
    (hok : ∀ frames L' m', StackMade mixed own space L m r (top - stackSize)
        (stackSize / FRAME_SIZE) (space.word m permissions .writeBack) (stackSize / FRAME_SIZE) frames L' m' →
      (∀ i < stackSize / FRAME_SIZE, ∀ j, m'.mem.word (frames i) j = 0) →
      top % FRAME_SIZE = 0 → stackSize + FRAME_SIZE ≤ top →
      space.toPhysical m.mem (top - stackSize - FRAME_SIZE) = none →
      space.toPhysical m'.mem (top - stackSize - FRAME_SIZE) = none →
      Q (.ok ⟨top - stackSize - FRAME_SIZE, top - stackSize, stackSize, top⟩) m')
    (herr : ∀ err m', err ≠ .outOfStacks → Restored mixed
      (RunRole r own (top - stackSize) (stackSize / FRAME_SIZE)) L m r L m' → Q (.error err) m') {prog : MM (Except StackCreateError StackMapping)}
    (hprog : StackMapping.allocate space stackSize top permissions = prog) : prog.Sat m Q E := by
  subst hprog
  have hrefuse : ∀ err, err ≠ .outOfStacks → Q (.error err) m := fun err hne =>
    herr err m hne (Restored.refl hrun.realm.inv)
  rw [StackMapping.allocate]
  simp only [Prog.sat_ite]
  refine ⟨fun _ => hrefuse _ (by simp), fun hal => ?_⟩
  rw [not_not] at hal
  by_cases hsize : stackSize ≤ top
  · by_cases hguard : FRAME_SIZE ≤ top - stackSize
    · simp only [checkedSub, if_pos hsize, if_pos hguard, Prog.sat_bind, Prog.sat_get,
        Prog.sat_ite]
      refine ⟨fun _ => hrefuse _ (by simp), fun hnone => ?_⟩
      rw [Bool.not_eq_true, Option.isSome_eq_false_iff, Option.isNone_iff_eq_none] at hnone
      have hnil : StackMade mixed own space L m r (top - stackSize) (stackSize / FRAME_SIZE)
          (space.word m permissions .writeBack) 0 id L m := StackMade.nil hrun.realm.inv
      refine allocatePages_sat hown hrun huser (Nat.zero_add _) ?_ hnil (by simp) ?_ ?_
      · intro i hi
        simp only [pageAt, FRAME_SIZE, USIZE_END] at *
        omega
      · intro frames L' m' hmade hzero
        have hrun' := hmade.run hrun
        have hpaging := hmade.added.edit.regs.paging
        have hleaf := (hrun.realm.toPhysical_none ho).mp hnone
        have hgone : space.toPhysical m'.mem (top - stackSize - FRAME_SIZE) = none := by
          rw [hrun'.realm.toPhysical_none (by rw [hpaging, hmade.added.edit.kroot]; exact ho),
            hpaging]
          intro hc e hl
          rcases (hmade.added.leaf _ _ _).mp hl with ⟨_, i, hi, hpath, _⟩ | hl
          · have htakes := hmade.added.takes i hi
            have hi' := htakes.aligned
            have heq := pagePath_inj hc htakes.canonical (by
              simp only [pageAt, FRAME_SIZE] at hi' hguard ⊢
              omega) hi' hpath
            simp only [pageAt, FRAME_SIZE] at heq hguard
            omega
          · exact hleaf hc e hl
        simp only [Prog.sat_bind, Prog.sat_get, Prog.sat_assert, Prog.sat_pure, hgone,
          Option.isNone_none, if_true]
        exact hok frames L' m' hmade hzero hal (by omega) hnone hgone
      · exact herr
    · simp only [checkedSub, if_pos hsize, if_neg hguard]
      exact hrefuse _ (by simp)
  · simp only [checkedSub, if_neg hsize]
    exact hrefuse _ (by simp)

/-- The address space after the pages of a run have gone. -/
theorem Run.gone {P : Role → Prop} {back : ℕ → Prop} (h : Run mixed L m space r a start n)
    (hg : PagesGone mixed P L m r start n back L' m') (hP : ∀ r', ¬ P (.table r' [])) :
    Realm mixed L' m' space r a := by
  refine h.realm.edit hg.inv hg.edit hP ?_
  by_cases hfree : RootFree L r []
  · exact .inl hfree
  · refine .inr fun e hl => (hg.leaf _ _ _).mpr ⟨hl, ?_⟩
    rintro ⟨_, i, hi, hq⟩
    rcases (h.places i hi).apart with hf | ⟨hne, _⟩
    · exact hfree hf
    · exact hne hq

/-- `StackMapping::destroy`. -/
theorem StackMapping.destroy_sat {Q : Unit → Machine → Prop} {stack : StackMapping}
    (hown : Function.Injective own) (hn : n = stack.stackSize / FRAME_SIZE)
    (hrun : Run mixed L m space r a stack.mappedStart n)
    (htakes : ∀ i < n, space.Takes m.paging.mode (pageAt stack.mappedStart i))
    (hpages : ∀ i < n, PageOf L m r own (pageAt stack.mappedStart i))
    (ho : m.paging.mode.isCanonical stack.guardPage = true →
      r = L.kroot ∨ rootIndex m.paging.mode stack.guardPage < 256)
    (hguard : space.toPhysical m.mem stack.guardPage = none)
    (hQ : ∀ L' m' hb, Handed m stack.mappedStart n hb →
      PagesGone mixed (RunRole r own stack.mappedStart n) L (m.withHandBacks hb) r
        stack.mappedStart n (RunFrame L (m.withHandBacks hb) r stack.mappedStart n) L' m' →
      Q () m') : (stack.destroy space).Sat m Q E := by
  simp only [StackMapping.destroy, Prog.sat_bind, ← hn]
  refine destroyPages_sat hown hrun htakes hpages le_rfl ?_
  intro L' m' hb hhb hgone
  have hpaging : m'.paging = m.paging := hgone.edit.regs.paging
  have hnone : space.toPhysical m'.mem stack.guardPage = none := by
    have hrealm := (hrun.withHandBacks hb).gone hgone fun _ => not_runRole_root
    have hleaf := (hrun.realm.toPhysical_none ho).mp hguard
    rw [hrealm.toPhysical_none (by rw [hpaging, hgone.edit.kroot]; exact ho), hpaging]
    intro hc e hl
    exact hleaf hc e ((hgone.leaf _ _ _).mp hl).1
  simp only [Prog.sat_get, Prog.sat_assert, hnone, Option.isNone_none, if_true]
  exact hQ L' m' hb hhb hgone

/-- The place of a kernel stack. -/
def slotBase (slot : ℕ) : ℕ := KERNEL_STACK_BASE + slot * KERNEL_SLOT_SIZE

def stackAt (slot : ℕ) : KernelStack :=
  ⟨slotBase slot, slotBase slot + FRAME_SIZE, KERNEL_STACK_SIZE,
    slotBase slot + FRAME_SIZE + KERNEL_STACK_SIZE⟩

/-- The bits of the pool. -/
def KernelStackPool.used (pool : KernelStackPool) (slot : ℕ) : Bool := pool.freeSlots.getLsbD slot

theorem bit_clear (w : Word) {slot : ℕ} (h : slot < 64) :
    w &&& ((1 : Word) <<< slot) = 0 ↔ w.getLsbD slot = false := by
  have hone : (1 : Word) <<< slot = BitVec.twoPow 64 slot := rfl
  rw [hone, ← Bool.not_eq_true, ← and_flag w h]
  simp

theorem findSlot_some {pool : KernelStackPool} {slot count s : ℕ} (hc : slot + count ≤ 64)
    (h : pool.findSlot slot count = some s) : s < 64 ∧ pool.used s = false := by
  induction count generalizing slot with
  | zero => simp [KernelStackPool.findSlot] at h
  | succ count ih =>
    rw [KernelStackPool.findSlot] at h
    split_ifs at h with hclear
    · cases h
      exact ⟨by omega, (bit_clear _ (by omega)).mp hclear⟩
    · exact ih (by omega) h

theorem findSlot_none {pool : KernelStackPool} {slot count : ℕ} (hc : slot + count ≤ 64)
    (h : pool.findSlot slot count = none) {s : ℕ} (hs : slot ≤ s) (hlt : s < slot + count) :
    pool.used s = true := by
  induction count generalizing slot with
  | zero => omega
  | succ count ih =>
    rw [KernelStackPool.findSlot] at h
    split_ifs at h with hclear
    rcases Nat.eq_or_lt_of_le hs with rfl | hlt'
    · rw [bit_clear _ (by omega), Bool.not_eq_false] at hclear
      exact hclear
    · exact ih (by omega) h hlt' (by omega)

theorem used_allocate (pool : KernelStackPool) {slot : ℕ} (h : slot < 64) (s : ℕ) :
    KernelStackPool.used ⟨pool.freeSlots ||| ((1 : Word) <<< slot)⟩ s =
      (pool.used s || decide (s = slot)) := by
  simp only [KernelStackPool.used, BitVec.getLsbD_or, BitVec.getLsbD_shiftLeft]
  by_cases hs : s = slot
  · subst hs
    simp [h]
  · by_cases hlt : s < slot
    · simp [hs, hlt]
    · have hne : s - slot ≠ 0 := by omega
      simp [hs, hne]

theorem used_free (pool : KernelStackPool) (slot s : ℕ) :
    KernelStackPool.used ⟨pool.freeSlots &&& ~~~((1 : Word) <<< slot)⟩ s =
      (pool.used s && !decide (s = slot)) := by
  simp only [KernelStackPool.used, BitVec.getLsbD_and, BitVec.getLsbD_not,
    BitVec.getLsbD_shiftLeft]
  by_cases hs64 : s < 64
  · by_cases hs : s = slot
    · subst hs
      simp [hs64]
    · by_cases hlt : s < slot
      · simp [hs64, hs, hlt]
      · have hne : s - slot ≠ 0 := by omega
        simp [hs64, hs, hne]
  · rw [BitVec.getLsbD_of_ge _ _ (by omega)]
    simp

/-- A page of the kernel image, in the top two gigabytes. -/
structure Anchor (L : Layout) (m : Machine) (a : ℕ) : Prop where
  top : 2 ^ 64 - 2 ^ 31 ≤ a ∧ a < 2 ^ 64
  aligned : a % FRAME_SIZE = 0
  leaf : ∃ e, LeafAt L m L.kroot (pagePath m.paging.mode a) e

theorem rootIndex_top (mode : PagingMode) {va : ℕ} (h : 2 ^ 64 - 2 ^ 39 ≤ va)
    (hlt : va < 2 ^ 64) : rootIndex mode va = 511 := by
  cases mode <;>
    simp only [rootIndex, tableIndices, PagingMode.intermediateLevels, List.map_cons,
      List.headD_cons, level_index_eq, PageTableLevel.shift] <;> omega

theorem top_canonical (mode : PagingMode) {va : ℕ} (h : 2 ^ 64 - 2 ^ 39 ≤ va)
    (hlt : va < 2 ^ 64) : mode.isCanonical va = true := by
  rw [isCanonical_iff]
  right
  cases mode <;> simp only [PagingMode.lowerEnd] <;> omega

/-- The pages of the kernel stacks, the guard pages included. -/
theorem slot_bounds {slot i : ℕ} (hslot : slot < 64) (hi : i ≤ KERNEL_STACK_PAGES) :
    KERNEL_STACK_BASE ≤ slotBase slot + i * FRAME_SIZE ∧
    slotBase slot + i * FRAME_SIZE < 2 ^ 64 - 2 ^ 31 ∧
    (slotBase slot + i * FRAME_SIZE) % FRAME_SIZE = 0 := by
  simp only [slotBase, KERNEL_STACK_BASE, KERNEL_SLOT_SIZE, KERNEL_STACK_PAGES, GUARD_PAGES,
    FRAME_SIZE] at hi ⊢
  omega

theorem slot_canonical (mode : PagingMode) {slot i : ℕ} (hslot : slot < 64)
    (hi : i ≤ KERNEL_STACK_PAGES) :
    mode.isCanonical (slotBase slot + i * FRAME_SIZE) = true := by
  obtain ⟨hlo, hhi, _⟩ := slot_bounds hslot hi
  simp only [KERNEL_STACK_BASE] at hlo
  exact top_canonical mode (by omega) (by omega)

theorem page_eq (slot i : ℕ) :
    slotBase slot + FRAME_SIZE + i * FRAME_SIZE = slotBase slot + (i + 1) * FRAME_SIZE := by
  rw [Nat.add_mul, Nat.one_mul]
  omega

theorem slot_takes {mode : PagingMode} (hkind : space.kind = .kernel) {slot i : ℕ}
    (hslot : slot < 64) (hi : i < KERNEL_STACK_PAGES) :
    space.Takes mode (pageAt (slotBase slot + FRAME_SIZE) i) := by
  rw [pageAt, page_eq]
  exact ⟨slot_canonical _ hslot hi, (slot_bounds hslot hi).2.2, fun hk => by simp [hk] at hkind⟩

/-- The place of a kernel stack in the address space of the kernel. -/
theorem Anchor.run (h : Anchor L m a) (hs : SpaceOf L m space L.kroot) (hinv : MemInv noPages L m)
    {slot : ℕ} (hslot : slot < 64) :
    Run False L m space L.kroot a (slotBase slot + FRAME_SIZE) KERNEL_STACK_PAGES := by
  refine ⟨⟨hinv, hs.root, hs.typed, fun _ => hs.kind, False.elim, .inr h.leaf⟩, fun i hi => ?_⟩
  obtain ⟨hlo, hhi, hal⟩ := slot_bounds (i := i + 1) hslot (Nat.succ_le_of_lt hi)
  have htop := h.top
  simp only [KERNEL_STACK_BASE] at hlo
  rw [pageAt, page_eq]
  refine ⟨fun _ _ => by omega, .inr ⟨?_, ?_⟩⟩
  · intro he
    have := pagePath_inj (top_canonical _ (by omega) htop.2)
      (slot_canonical _ (i := i + 1) hslot hi) h.aligned hal he
    omega
  · rw [rootIndex_top _ (by omega) htop.2, rootIndex_top _ (by omega) (by omega)]

/-- The roles that change with the kernel stack of a slot. -/
abbrev SlotRole (kroot slot : ℕ) : Role → Prop :=
  RunRole kroot Owner.stack (slotBase slot + FRAME_SIZE) KERNEL_STACK_PAGES

/-- A kernel stack whose pages are in place. -/
structure StackReady (L : Layout) (m : Machine) (slot : ℕ) : Prop where
  bound : slot < 64
  pages : ∀ i < KERNEL_STACK_PAGES,
    PageOf L m L.kroot Owner.stack (slotBase slot + FRAME_SIZE + i * FRAME_SIZE)
  guard : ∀ e, ¬ LeafAt L m L.kroot (pagePath m.paging.mode (slotBase slot)) e

theorem owner_stack_injective : Function.Injective Owner.stack := fun _ _ h => Owner.stack.inj h

theorem slotBase_canonical (mode : PagingMode) {slot : ℕ} (hslot : slot < 64) :
    mode.isCanonical (slotBase slot) = true := by
  have := slot_canonical mode (i := 0) hslot (by decide)
  rwa [Nat.zero_mul, Nat.add_zero] at this

/-- The pages of a kernel stack have been made. -/
abbrev SlotMade (mixed : Prop) (space : AddressSpace) (L : Layout) (m : Machine) (slot : ℕ)
    (frames : ℕ → ℕ) (L' : Layout) (m' : Machine) : Prop :=
  StackMade mixed Owner.stack space L m L.kroot (slotBase slot + FRAME_SIZE) KERNEL_STACK_PAGES
    (space.word m ⟨true, false, false⟩ .writeBack) KERNEL_STACK_PAGES frames L' m'

/-- The pages of a kernel stack have been taken away, and their frames given back. -/
abbrev SlotGone (mixed : Prop) (L : Layout) (m : Machine) (slot : ℕ) (L' : Layout)
    (m' : Machine) : Prop :=
  PagesGone mixed (SlotRole L.kroot slot) L m L.kroot (slotBase slot + FRAME_SIZE)
    KERNEL_STACK_PAGES (RunFrame L m L.kroot (slotBase slot + FRAME_SIZE) KERNEL_STACK_PAGES) L' m'

theorem page_inj {slot slot' i i' : ℕ} (hi : i ≤ KERNEL_STACK_PAGES) (hi' : i' ≤ KERNEL_STACK_PAGES)
    (h : slotBase slot + i * FRAME_SIZE = slotBase slot' + i' * FRAME_SIZE) :
    slot = slot' ∧ i = i' := by
  simp only [slotBase, KERNEL_STACK_BASE, KERNEL_SLOT_SIZE, KERNEL_STACK_PAGES, GUARD_PAGES,
    FRAME_SIZE] at *
  omega

theorem stackAt_inj {slot slot' : ℕ} (h : stackAt slot = stackAt slot') : slot = slot' := by
  have := congrArg StackMapping.guardPage h
  simp only [stackAt] at this
  exact (page_inj (Nat.zero_le _) (Nat.zero_le _) (by simpa using this)).1

theorem stack_path_inj {mode : PagingMode} {slot slot' i i' : ℕ} (hs : slot < 64)
    (hs' : slot' < 64) (hi : i ≤ KERNEL_STACK_PAGES) (hi' : i' ≤ KERNEL_STACK_PAGES)
    (h : pagePath mode (slotBase slot + i * FRAME_SIZE) =
      pagePath mode (slotBase slot' + i' * FRAME_SIZE)) : slot = slot' ∧ i = i' :=
  page_inj hi hi' (pagePath_inj (slot_canonical _ hs hi) (slot_canonical _ hs' hi')
    (slot_bounds hs hi).2.2 (slot_bounds hs' hi').2.2 h)

/-- The pages of one kernel stack move no role of another's. -/
theorem not_slotRole {kroot slot slot' i : ℕ} (hi : i ≤ KERNEL_STACK_PAGES) (hne : slot' ≠ slot) :
    ¬ SlotRole kroot slot (.data (.stack (slotBase slot' + i * FRAME_SIZE))) := by
  rintro (h | ⟨j, hj, h⟩)
  · exact not_lent_data h
  · rw [page_eq] at h
    have := Owner.stack.inj (Role.data.inj h)
    exact hne (page_inj hi hj this).1

/-- The kernel stacks of other slots stay in place. -/
theorem StackReady.slotEdit {m m' m₀ : Machine} {slot slot' : ℕ} (h : StackReady L m slot')
    (hne : slot' ≠ slot) (he : Edit (SlotRole L.kroot slot) L.kroot L m₀ L' m')
    (hm : m₀.paging = m.paging)
    (hleaf : ∀ i e, i ≤ KERNEL_STACK_PAGES →
      (LeafAt L' m' L.kroot (pagePath m.paging.mode (slotBase slot' + i * FRAME_SIZE)) e ↔
        LeafAt L m L.kroot (pagePath m.paging.mode (slotBase slot' + i * FRAME_SIZE)) e)) :
    StackReady L' m' slot' := by
  have hp : m'.paging = m.paging := he.regs.paging.trans hm
  refine ⟨h.bound, ?_, ?_⟩
  · intro i hi
    obtain ⟨e, hl, hrole⟩ := h.pages i hi
    rw [page_eq] at hl hrole ⊢
    refine ⟨e, ?_, ?_⟩
    · rw [he.kroot, hp, hleaf (i + 1) e hi]
      exact hl
    · rw [hp, he.role_eq (by rw [hrole]; exact not_slotRole hi hne), hrole]
  · intro e
    have := hleaf 0 e (by decide)
    rw [Nat.zero_mul, Nat.add_zero] at this
    rw [he.kroot, hp, this]
    exact h.guard e

/-- A kernel stack is made beside the other slots. -/
theorem SlotMade.other {frames : ℕ → ℕ} {slot slot' i : ℕ} (hslot : slot < 64)
    (h : SlotMade mixed space L m slot frames L' m') (hslot' : slot' < 64)
    (hi : i ≤ KERNEL_STACK_PAGES) (hne : slot' ≠ slot) (e : Word) :
    LeafAt L' m' L.kroot (pagePath m.paging.mode (slotBase slot' + i * FRAME_SIZE)) e ↔
      LeafAt L m L.kroot (pagePath m.paging.mode (slotBase slot' + i * FRAME_SIZE)) e := by
  refine h.outside _ _ e ?_
  rintro ⟨_, j, hj, he⟩
  rw [pageAt, page_eq] at he
  exact hne (stack_path_inj hslot' hslot hi hj he).1

/-- A kernel stack is taken down beside the other slots. -/
theorem SlotGone.other {slot slot' i : ℕ} (hslot : slot < 64) (h : SlotGone mixed L m slot L' m')
    (hslot' : slot' < 64) (hi : i ≤ KERNEL_STACK_PAGES) (hne : slot' ≠ slot) (e : Word) :
    LeafAt L' m' L.kroot (pagePath m.paging.mode (slotBase slot' + i * FRAME_SIZE)) e ↔
      LeafAt L m L.kroot (pagePath m.paging.mode (slotBase slot' + i * FRAME_SIZE)) e := by
  rw [h.leaf, and_iff_left]
  rintro ⟨_, j, hj, he⟩
  rw [pageAt, page_eq] at he
  exact hne (stack_path_inj hslot' hslot hi hj he).1

theorem slot_top (slot : ℕ) :
    slotBase slot + FRAME_SIZE + KERNEL_STACK_SIZE - KERNEL_STACK_SIZE = slotBase slot + FRAME_SIZE :=
  Nat.add_sub_cancel _ _

/-- The top of the stack in a slot. -/
theorem slot_add {slot : ℕ} (hslot : slot < 64) :
    checkedAdd KERNEL_STACK_BASE ((slot + 1) * KERNEL_SLOT_SIZE) =
      some (slotBase slot + FRAME_SIZE + KERNEL_STACK_SIZE) := by
  rw [checkedAdd, if_pos] <;>
    simp only [slotBase, KERNEL_STACK_BASE, KERNEL_SLOT_SIZE, KERNEL_STACK_SIZE,
      KERNEL_STACK_PAGES, GUARD_PAGES, FRAME_SIZE, USIZE_END, Option.some.injEq] <;> omega

/-- `KernelStackPool::allocate`. -/
theorem KernelStackPool.allocate_sat
    {Q : KernelStackPool × Except StackCreateError KernelStack → Machine → Prop}
    {pool : KernelStackPool}
    (hrun : ∀ slot < 64,
      Run mixed L m space L.kroot a (slotBase slot + FRAME_SIZE) KERNEL_STACK_PAGES)
    (hok : ∀ slot pool' frames L' m', pool.findSlot 0 MAX_KERNEL_STACKS = some slot →
      pool.used slot = false → slot < 64 →
      (∀ s, pool'.used s = (pool.used s || decide (s = slot))) →
      SlotMade mixed space L m slot frames L' m' → StackReady L' m' slot → Q (pool', .ok (stackAt slot)) m')
    (herr : ∀ err slot pool' m', pool.used slot = false → slot < 64 →
      (∀ s, pool'.used s = (pool.used s || decide (s = slot))) → err ≠ .outOfStacks →
      Restored mixed (SlotRole L.kroot slot) L m L.kroot L m' → Q (pool', .error err) m')
    (hfull : (∀ slot < 64, pool.used slot = true) → Q (pool, .error .outOfStacks) m) :
    (pool.allocate space).Sat m Q E := by
  rw [KernelStackPool.allocate]
  cases hfind : pool.findSlot 0 MAX_KERNEL_STACKS with
  | none => exact hfull fun slot hslot => findSlot_none (by decide) hfind (by omega) (by simpa)
  | some slot =>
    obtain ⟨hslot, hunused⟩ := findSlot_some (by decide) hfind
    have hadd := slot_add hslot
    have hused := used_allocate pool hslot
    have hpages : KERNEL_STACK_SIZE / FRAME_SIZE = KERNEL_STACK_PAGES := by decide
    simp only [Prog.sat_bind, addUsize, hadd, Prog.sat_expect_some, KernelStack.allocate,
      Prog.sat_pure]
    -- elaboration would run a program that is written out
    generalize hprog : StackMapping.allocate space _ _ _ = prog
    have hplace : Run mixed L m space L.kroot a
        (slotBase slot + FRAME_SIZE + KERNEL_STACK_SIZE - KERNEL_STACK_SIZE)
        (KERNEL_STACK_SIZE / FRAME_SIZE) := by
      rw [slot_top, hpages]
      exact hrun slot hslot
    refine StackMapping.allocate_sat owner_stack_injective ?_ hplace (fun _ => by simp)
      (fun _ => .inl rfl) ?_ ?_ hprog
    · have := (slot_bounds (i := KERNEL_STACK_PAGES) hslot le_rfl).2.1
      simp only [KERNEL_STACK_SIZE, KERNEL_STACK_PAGES, FRAME_SIZE, USIZE_END] at *
      omega
    · rw [slot_top, hpages, Nat.add_sub_cancel]
      intro frames L' m' hmade hzero hal hle hguard hguard'
      refine hok slot _ frames L' m' hfind hunused hslot hused hmade ⟨hslot, ?_, ?_⟩
      · intro i hi
        rw [hmade.added.edit.kroot]
        exact hmade.pages hi
      · have hrealm := (hmade.run (hrun slot hslot)).realm
        rw [hmade.added.edit.kroot]
        exact (hrealm.toPhysical_none fun _ => .inl hmade.added.edit.kroot.symm).mp hguard'
          (slotBase_canonical _ hslot)
    · rw [slot_top, hpages]
      intro err m' hne hr
      exact herr err slot _ m' hunused hslot hused hne hr

/-- `KernelStackPool::free`. -/
theorem KernelStackPool.free_sat {Q : KernelStackPool → Machine → Prop} {pool : KernelStackPool}
    (hkind : space.kind = .kernel) {slot : ℕ}
    (hrun : Run mixed L m space L.kroot a (slotBase slot + FRAME_SIZE) KERNEL_STACK_PAGES)
    (hready : StackReady L m slot)
    (hQ : ∀ pool' L' m' hb, (∀ s, pool'.used s = (pool.used s && !decide (s = slot))) →
      Handed m (slotBase slot + FRAME_SIZE) KERNEL_STACK_PAGES hb →
      SlotGone mixed L (m.withHandBacks hb) slot L' m' → Q pool' m')
    {prog : MM KernelStackPool} (hprog : pool.free space (stackAt slot) = prog) :
    prog.Sat m Q E := by
  have hslot := hready.bound
  have hsub : checkedSub (stackAt slot).top KERNEL_STACK_BASE =
      some ((slot + 1) * KERNEL_SLOT_SIZE) := by
    rw [checkedSub, if_pos] <;>
      simp only [stackAt, slotBase, KERNEL_STACK_BASE, KERNEL_SLOT_SIZE, KERNEL_STACK_SIZE,
        KERNEL_STACK_PAGES, GUARD_PAGES, FRAME_SIZE, Option.some.injEq] <;> omega
  have hdiv : (slot + 1) * KERNEL_SLOT_SIZE / KERNEL_SLOT_SIZE = slot + 1 :=
    Nat.mul_div_cancel _ (by decide)
  have hsub' : checkedSub (slot + 1) 1 = some slot := by
    rw [checkedSub, if_pos (by omega), Nat.add_sub_cancel]
  rw [← hprog]
  simp only [KernelStackPool.free, Prog.sat_bind, subUsize, hsub, Prog.sat_expect_some, hdiv,
    hsub']
  refine StackMapping.destroy_sat owner_stack_injective
    (by decide : KERNEL_STACK_PAGES = KERNEL_STACK_SIZE / FRAME_SIZE) hrun
    (fun i hi => slot_takes hkind hslot hi) hready.pages (fun _ => .inl rfl) ?_ ?_
  · rw [hrun.realm.toPhysical_none fun _ => .inl rfl]
    exact fun _ => hready.guard
  · intro L' m' hb hhb hgone
    simp only [Prog.sat_assert, hslot, decide_true, if_true, Prog.sat_pure]
    exact hQ _ L' m' hb (used_free pool slot) hhb hgone

end Dusk
