import Mathlib.Tactic

/-! Forests of radix tables in a memory. A table is a row of the memory; an entry
of an inner table is dead or links to the row of a child table. A typing says, for
each row, of which root and at which path it is a table; it is a function of the
row, so that no row is a table in two places. Paths are kept deepest index first.
Entries of a root that the forest does not own are left to someone else. -/

namespace Lib

/-- How entries stand for child tables; several entries may link to one table. -/
structure Codec (E : Type) where
  /-- Rows that an entry can link to. -/
  valid : ℕ → Prop
  live : E → Prop
  dead : E
  links : ℕ → E → Prop
  decode : E → Option ℕ
  not_live_dead : ¬ live dead
  live_links : ∀ g e, valid g → links g e → live e
  decode_links : ∀ g e, valid g → links g e → decode e = some g
  live_of_decode : ∀ e g, decode e = some g → live e

namespace Radix

variable {E : Type}

abbrev Mem (E : Type) := ℕ → ℕ → E

abbrev Typing := ℕ → Option (ℕ × List ℕ)

def write (M : Mem E) (f i : ℕ) (e : E) : Mem E :=
  fun g j => if g = f ∧ j = i then e else M g j

/-- The shape of a forest: `width` entries a table, `height` levels of inner tables
above the leaf tables, and the root entries it owns. -/
structure Shape where
  width : ℕ
  height : ℕ
  own : ℕ → ℕ → Prop

/-- The entry `i` of the table at path `p` below `r` belongs to the forest. -/
def Shape.Owned (S : Shape) (r : ℕ) (p : List ℕ) (i : ℕ) : Prop := p = [] → S.own r i

structure Forest (C : Codec E) (S : Shape) (M : Mem E) (T : Typing) : Prop where
  valid : ∀ f r p, T f = some (r, p) → C.valid f
  root : ∀ f r, T f = some (r, []) → f = r
  depth : ∀ f r p, T f = some (r, p) → p.length ≤ S.height
  down : ∀ f r p i, T f = some (r, p) → p.length < S.height → i < S.width → S.Owned r p i →
    C.live (M f i) → ∃ g, T g = some (r, i :: p) ∧ C.links g (M f i)
  up : ∀ g r i p, T g = some (r, i :: p) →
    i < S.width ∧ S.Owned r p i ∧ ∃ f, T f = some (r, p) ∧ C.links g (M f i)

/-- A live entry of a leaf table, by its full path. -/
def Leaf (C : Codec E) (S : Shape) (M : Mem E) (T : Typing) (r : ℕ) : List ℕ → E → Prop
  | [], _ => False
  | i :: p, e => i < S.width ∧ p.length = S.height ∧ C.live e ∧
    ∃ f, T f = some (r, p) ∧ M f i = e

/-- Follow child entries along a list of indices. -/
def descend (C : Codec E) (M : Mem E) : List ℕ → ℕ → Option ℕ
  | [], f => some f
  | i :: is, f => (C.decode (M f i)).bind (descend C M is)

variable {C : Codec E} {S : Shape} {M M' : Mem E} {T T' : Typing}

namespace Forest

theorem unique (h : Forest C S M T) {r : ℕ} {p : List ℕ} {f g : ℕ} (hf : T f = some (r, p))
    (hg : T g = some (r, p)) : f = g := by
  induction p generalizing f g with
  | nil => rw [h.root f r hf, h.root g r hg]
  | cons i p ih =>
    obtain ⟨_, _, f₀, hf₀, hfe⟩ := h.up f r i p hf
    obtain ⟨_, _, g₀, hg₀, hge⟩ := h.up g r i p hg
    rw [ih hf₀ hg₀] at hfe
    have hdec := C.decode_links f _ (h.valid f _ _ hf) hfe
    rw [C.decode_links g _ (h.valid g _ _ hg) hge] at hdec
    exact (Option.some.inj hdec).symm

theorem ancestor (h : Forest C S M T) {r : ℕ} {q p : List ℕ} {g : ℕ}
    (hg : T g = some (r, q ++ p)) : ∃ f, T f = some (r, p) := by
  induction q generalizing g with
  | nil => exact ⟨g, hg⟩
  | cons i q ih =>
    obtain ⟨_, _, f, hf, _⟩ := h.up g r i (q ++ p) hg
    exact ih hf

theorem root_typed (h : Forest C S M T) {r : ℕ} {p : List ℕ} {g : ℕ} (hg : T g = some (r, p)) :
    T r = some (r, []) := by
  obtain ⟨f, hf⟩ := h.ancestor (q := p) (p := []) (by simpa using hg)
  have := h.root f r hf
  rwa [this] at hf

theorem path_lt (h : Forest C S M T) {r : ℕ} {p : List ℕ} {f : ℕ} (hf : T f = some (r, p)) :
    ∀ i ∈ p, i < S.width := by
  induction p generalizing f with
  | nil => simp
  | cons j p ih =>
    obtain ⟨hj, _, g, hg, _⟩ := h.up f r j p hf
    intro i hi
    rcases List.mem_cons.mp hi with rfl | hi
    · exact hj
    · exact ih hg i hi

theorem leaf_lt (h : Forest C S M T) {r : ℕ} {q : List ℕ} {e : E} (hl : Leaf C S M T r q e) :
    ∀ i ∈ q, i < S.width := by
  cases q with
  | nil => exact hl.elim
  | cons j p =>
    obtain ⟨hj, _, _, f, hf, _⟩ := hl
    intro i hi
    rcases List.mem_cons.mp hi with rfl | hi
    · exact hj
    · exact h.path_lt hf i hi

/-- The parent of a table, given the table at the parent's path. -/
theorem parent_links (h : Forest C S M T) {r i : ℕ} {p : List ℕ} {f g : ℕ}
    (hf : T f = some (r, p)) (hg : T g = some (r, i :: p)) : C.links g (M f i) := by
  obtain ⟨_, _, f', hf', he⟩ := h.up g r i p hg
  rwa [h.unique hf hf']

theorem child_live (h : Forest C S M T) {r i : ℕ} {p : List ℕ} {f g : ℕ}
    (hf : T f = some (r, p)) (hg : T g = some (r, i :: p)) : C.live (M f i) :=
  C.live_links g _ (h.valid g _ _ hg) (h.parent_links hf hg)

/-- The next table on a path, from its parent's entry. -/
theorem decode_child (h : Forest C S M T) {r i : ℕ} {p : List ℕ} {f g : ℕ}
    (hf : T f = some (r, p)) (hp : p.length < S.height) (hi : i < S.width)
    (ho : S.Owned r p i) : C.decode (M f i) = some g ↔ T g = some (r, i :: p) := by
  constructor
  · intro hd
    obtain ⟨g', hg', he⟩ := h.down f r p i hf hp hi ho (C.live_of_decode _ _ hd)
    rw [C.decode_links g' _ (h.valid g' _ _ hg') he] at hd
    cases hd
    exact hg'
  · intro hg
    exact C.decode_links g _ (h.valid g _ _ hg) (h.parent_links hf hg)

theorem descend_iff (h : Forest C S M T) {r : ℕ} {p : List ℕ} {f : ℕ} (hf : T f = some (r, p))
    (is : List ℕ) (hlen : p.length + is.length ≤ S.height) (his : ∀ i ∈ is, i < S.width)
    (ho : ∀ i ∈ is.head?, S.Owned r p i) (g : ℕ) :
    descend C M is f = some g ↔ T g = some (r, is.reverse ++ p) := by
  induction is generalizing f p with
  | nil =>
    simp only [descend, List.reverse_nil, List.nil_append, Option.some_inj]
    constructor
    · rintro rfl
      exact hf
    · intro hg
      exact h.unique hf hg
  | cons i is ih =>
    have hlt : p.length < S.height := by
      simp only [List.length_cons] at hlen
      omega
    have hi := his i (by simp)
    have hoi := ho i (by simp)
    have hrev : (i :: is).reverse ++ p = is.reverse ++ i :: p := by simp
    rw [hrev]
    simp only [descend, Option.bind_eq_some_iff]
    have hih : ∀ {g₁}, T g₁ = some (r, i :: p) →
        (descend C M is g₁ = some g ↔ T g = some (r, is.reverse ++ i :: p)) := by
      intro g₁ hg₁
      refine ih hg₁ ?_ (fun j hj => his j (by simp [hj])) (fun j _ => by simp [Shape.Owned])
      simp only [List.length_cons] at hlen ⊢
      omega
    constructor
    · rintro ⟨g₁, hd, hrest⟩
      exact (hih ((h.decode_child hf hlt hi hoi).mp hd)).mp hrest
    · intro hg
      obtain ⟨g₁, hg₁⟩ := h.ancestor hg
      exact ⟨g₁, (h.decode_child hf hlt hi hoi).mpr hg₁, (hih hg₁).mpr hg⟩

/-- Only the entries of inner tables matter. -/
theorem congr (h : Forest C S M T)
    (hM : ∀ f r p i, T f = some (r, p) → p.length < S.height → S.Owned r p i →
      M' f i = M f i) : Forest C S M' T where
  valid := h.valid
  root := h.root
  depth := h.depth
  down f r p i hf hp hi ho hl := by
    rw [hM f r p i hf hp ho] at hl ⊢
    exact h.down f r p i hf hp hi ho hl
  up g r i p hg := by
    obtain ⟨hi, ho, f, hf, he⟩ := h.up g r i p hg
    have hp : p.length < S.height := by
      have := h.depth g r _ hg
      simp only [List.length_cons] at this
      omega
    exact ⟨hi, ho, f, hf, by rwa [hM f r p i hf hp ho]⟩

/-- Publish a table that has no children yet. -/
theorem attach (h : Forest C S M T) {r i : ℕ} {p : List ℕ} {f g : ℕ} (hf : T f = some (r, p))
    (hp : p.length < S.height) (hi : i < S.width) (ho : S.Owned r p i)
    (hdead : ¬ C.live (M f i)) (hg : T g = none) (hvalid : C.valid g)
    (hempty : (i :: p).length < S.height → ∀ j < S.width, ¬ C.live (M g j)) {e : E}
    (hlink : C.links g e) :
    Forest C S (write M f i e) (Function.update T g (some (r, i :: p))) := by
  have hfg : f ≠ g := by
    rintro rfl
    rw [hf] at hg
    cases hg
  have hfree : ∀ g', T g' ≠ some (r, i :: p) := by
    intro g' hg'
    exact hdead (h.child_live hf hg')
  have hold : ∀ {x r' p'}, x ≠ g → Function.update T g (some (r, i :: p)) x = some (r', p') →
      T x = some (r', p') := by
    intro x r' p' hx hxt
    rwa [Function.update_of_ne hx] at hxt
  have hnew : ∀ {x}, x ≠ g → Function.update T g (some (r, i :: p)) x = T x :=
    fun hx => Function.update_of_ne hx _ _
  refine ⟨?_, ?_, ?_, ?_, ?_⟩
  · intro x r' p' hx
    by_cases hxg : x = g
    · exact hxg ▸ hvalid
    · exact h.valid x r' p' (hold hxg hx)
  · intro x r' hx
    by_cases hxg : x = g
    · subst hxg
      simp at hx
    · exact h.root x r' (hold hxg hx)
  · intro x r' p' hx
    by_cases hxg : x = g
    · subst hxg
      simp only [Function.update_self, Option.some_inj, Prod.mk.injEq] at hx
      rw [← hx.2]
      simpa using hp
    · exact h.depth x r' p' (hold hxg hx)
  · intro x r' p' j hx hp' hj ho' hl
    by_cases hxg : x = g
    · subst hxg
      simp only [Function.update_self, Option.some_inj, Prod.mk.injEq] at hx
      obtain ⟨rfl, rfl⟩ := hx
      rw [write, if_neg (by rintro ⟨rfl, _⟩; exact hfg rfl)] at hl
      exact absurd hl (hempty hp' j hj)
    · have hx' := hold hxg hx
      by_cases hxi : x = f ∧ j = i
      · obtain ⟨rfl, rfl⟩ := hxi
        rw [hf] at hx'
        cases hx'
        exact ⟨g, by simp, by simpa [write] using hlink⟩
      · rw [write, if_neg hxi] at hl ⊢
        obtain ⟨c, hc, he⟩ := h.down x r' p' j hx' hp' hj ho' hl
        have hcg : c ≠ g := by
          rintro rfl
          rw [hg] at hc
          cases hc
        exact ⟨c, by rw [hnew hcg, hc], he⟩
  · intro x r' j p' hx
    by_cases hxg : x = g
    · subst hxg
      simp only [Function.update_self, Option.some_inj, Prod.mk.injEq, List.cons.injEq] at hx
      obtain ⟨rfl, rfl, rfl⟩ := hx
      exact ⟨hi, ho, f, by rw [hnew hfg, hf], by simpa [write] using hlink⟩
    · obtain ⟨hj, ho', y, hy, he⟩ := h.up x r' j p' (hold hxg hx)
      have hyg : y ≠ g := by
        rintro rfl
        rw [hg] at hy
        cases hy
      refine ⟨hj, ho', y, by rw [hnew hyg, hy], ?_⟩
      rw [write, if_neg]
      · exact he
      rintro ⟨rfl, rfl⟩
      rw [hf] at hy
      cases hy
      exact hfree x (hold hxg hx)

/-- Another entry that links to the same child. -/
theorem relink (h : Forest C S M T) {r i : ℕ} {p : List ℕ} {f g : ℕ} (hf : T f = some (r, p))
    (hg : T g = some (r, i :: p)) {e : E} (hlink : C.links g e) :
    Forest C S (write M f i e) T := by
  refine ⟨h.valid, h.root, h.depth, ?_, ?_⟩
  · intro x r' p' j hx hp' hj ho' hl
    by_cases hxi : x = f ∧ j = i
    · obtain ⟨rfl, rfl⟩ := hxi
      rw [hf] at hx
      cases hx
      exact ⟨g, hg, by simpa [write] using hlink⟩
    · rw [write, if_neg hxi] at hl ⊢
      exact h.down x r' p' j hx hp' hj ho' hl
  · intro x r' j p' hx
    obtain ⟨hj, ho', y, hy, hye⟩ := h.up x r' j p' hx
    refine ⟨hj, ho', y, hy, ?_⟩
    by_cases hyi : y = f ∧ j = i
    · obtain ⟨rfl, rfl⟩ := hyi
      rw [hf] at hy
      cases hy
      rw [h.unique hx hg]
      simpa [write] using hlink
    · rwa [write, if_neg hyi]

/-- Take a table without children out of its parent. -/
theorem detach (h : Forest C S M T) {r i : ℕ} {p : List ℕ} {f g : ℕ} (hf : T f = some (r, p))
    (hg : T g = some (r, i :: p)) {e : E} (he : ¬ C.live e)
    (hempty : (i :: p).length < S.height → ∀ j < S.width, ¬ C.live (M g j)) :
    Forest C S (write M f i e) (Function.update T g none) := by
  have hchild : ∀ x j, T x ≠ some (r, j :: i :: p) := by
    intro x j hx
    have hdepth := h.depth x r _ hx
    obtain ⟨hj, _, _⟩ := h.up x r j (i :: p) hx
    exact hempty (by simp only [List.length_cons] at hdepth ⊢; omega) j hj (h.child_live hg hx)
  have hold : ∀ {x t}, Function.update T g none x = some t → x ≠ g ∧ T x = some t := by
    intro x t hx
    by_cases hxg : x = g
    · subst hxg
      simp at hx
    · rw [Function.update_of_ne hxg] at hx
      exact ⟨hxg, hx⟩
  have hpath : ∀ {x}, T x = some (r, i :: p) → x = g := fun hx => h.unique hx hg
  refine ⟨?_, ?_, ?_, ?_, ?_⟩
  · intro x r' p' hx
    exact h.valid x r' p' (hold hx).2
  · intro x r' hx
    exact h.root x r' (hold hx).2
  · intro x r' p' hx
    exact h.depth x r' p' (hold hx).2
  · intro x r' p' j hx hp' hj ho' hl
    obtain ⟨hxg, hx'⟩ := hold hx
    by_cases hxi : x = f ∧ j = i
    · rw [write, if_pos hxi] at hl
      exact absurd hl he
    · rw [write, if_neg hxi] at hl ⊢
      obtain ⟨c, hc, hce⟩ := h.down x r' p' j hx' hp' hj ho' hl
      have hcg : c ≠ g := by
        rintro rfl
        rw [hg] at hc
        cases hc
        exact hxi ⟨h.unique hx' hf, rfl⟩
      exact ⟨c, by rw [Function.update_of_ne hcg, hc], hce⟩
  · intro x r' j p' hx
    obtain ⟨hxg, hx'⟩ := hold hx
    obtain ⟨hj, ho', y, hy, hye⟩ := h.up x r' j p' hx'
    have hyg : y ≠ g := by
      rintro rfl
      rw [hg] at hy
      cases hy
      exact hchild x j hx'
    refine ⟨hj, ho', y, by rw [Function.update_of_ne hyg, hy], ?_⟩
    rw [write, if_neg]
    · exact hye
    rintro ⟨rfl, rfl⟩
    rw [hf] at hy
    cases hy
    exact hxg (hpath hx')

/-- A new root whose own entries are dead. -/
theorem addRoot (h : Forest C S M T) {r : ℕ} (hr : T r = none) (hvalid : C.valid r)
    (hempty : ∀ i < S.width, S.own r i → ¬ C.live (M r i)) :
    Forest C S M (Function.update T r (some (r, []))) := by
  have hold : ∀ {x t}, x ≠ r → Function.update T r (some (r, [])) x = some t → T x = some t := by
    intro x t hx hxt
    rwa [Function.update_of_ne hx] at hxt
  refine ⟨?_, ?_, ?_, ?_, ?_⟩
  · intro x r' p' hx
    by_cases hxr : x = r
    · exact hxr ▸ hvalid
    · exact h.valid x r' p' (hold hxr hx)
  · intro x r' hx
    by_cases hxr : x = r
    · subst hxr
      simpa using hx
    · exact h.root x r' (hold hxr hx)
  · intro x r' p' hx
    by_cases hxr : x = r
    · subst hxr
      simp only [Function.update_self, Option.some_inj, Prod.mk.injEq] at hx
      simp [← hx.2]
    · exact h.depth x r' p' (hold hxr hx)
  · intro x r' p' j hx hp' hj ho' hl
    by_cases hxr : x = r
    · subst hxr
      simp only [Function.update_self, Option.some_inj, Prod.mk.injEq] at hx
      obtain ⟨rfl, rfl⟩ := hx
      exact absurd hl (hempty j hj (ho' rfl))
    · obtain ⟨c, hc, he⟩ := h.down x r' p' j (hold hxr hx) hp' hj ho' hl
      have hcr : c ≠ r := by
        rintro rfl
        rw [hr] at hc
        cases hc
      exact ⟨c, by rw [Function.update_of_ne hcr, hc], he⟩
  · intro x r' j p' hx
    by_cases hxr : x = r
    · subst hxr
      simp at hx
    · obtain ⟨hj, ho', y, hy, he⟩ := h.up x r' j p' (hold hxr hx)
      have hyr : y ≠ r := by
        rintro rfl
        rw [hr] at hy
        cases hy
      exact ⟨hj, ho', y, by rw [Function.update_of_ne hyr, hy], he⟩

/-- Drop a root whose own entries are dead. -/
theorem dropRoot (h : Forest C S M T) {r : ℕ} (hr : T r = some (r, []))
    (hempty : ∀ i < S.width, S.own r i → ¬ C.live (M r i)) :
    Forest C S M (Function.update T r none) := by
  have hold : ∀ {x t}, Function.update T r none x = some t → x ≠ r ∧ T x = some t := by
    intro x t hx
    by_cases hxr : x = r
    · subst hxr
      simp at hx
    · rw [Function.update_of_ne hxr] at hx
      exact ⟨hxr, hx⟩
  refine ⟨?_, ?_, ?_, ?_, ?_⟩
  · intro x r' p' hx
    exact h.valid x r' p' (hold hx).2
  · intro x r' hx
    exact h.root x r' (hold hx).2
  · intro x r' p' hx
    exact h.depth x r' p' (hold hx).2
  · intro x r' p' j hx hp' hj ho' hl
    obtain ⟨_, hx'⟩ := hold hx
    obtain ⟨c, hc, he⟩ := h.down x r' p' j hx' hp' hj ho' hl
    have hcr : c ≠ r := by
      rintro rfl
      rw [hr] at hc
      cases hc
    exact ⟨c, by rw [Function.update_of_ne hcr, hc], he⟩
  · intro x r' j p' hx
    obtain ⟨_, hx'⟩ := hold hx
    obtain ⟨hj, ho', y, hy, he⟩ := h.up x r' j p' hx'
    have hyr : y ≠ r := by
      rintro rfl
      rw [hr] at hy
      cases hy
      exact hempty j hj (ho' rfl) (h.child_live hr hx')
    exact ⟨hj, ho', y, by rw [Function.update_of_ne hyr, hy], he⟩

/-- A leaf below the path of a table makes the table's own entry on the way live. -/
theorem live_entry (h : Forest C S M T) {r i : ℕ} {q p : List ℕ} {e : E} {g : ℕ}
    (hl : Leaf C S M T r (i :: (q ++ p)) e) (hg : T g = some (r, p)) :
    ∃ j < S.width, C.live (M g j) := by
  obtain ⟨hi, _, hlive, f, hf, he⟩ := hl
  rcases List.eq_nil_or_concat q with rfl | ⟨q', j, rfl⟩
  · have : f = g := h.unique hf hg
    subst this
    exact ⟨i, hi, he ▸ hlive⟩
  · obtain ⟨g₁, hg₁⟩ := h.ancestor (q := q') (p := j :: p) (by simpa using hf)
    exact ⟨j, (h.up g₁ r j p hg₁).1, h.child_live hg hg₁⟩

/-- Where no table is empty there is a leaf below every table but the root. -/
theorem leaf_below (h : Forest C S M T)
    (hfull : ∀ f r p, T f = some (r, p) → p ≠ [] → ∃ i < S.width, C.live (M f i)) {r : ℕ}
    {p : List ℕ} {f : ℕ} (hf : T f = some (r, p)) (hp : p ≠ []) :
    ∃ q e, Leaf C S M T r (q ++ p) e := by
  obtain ⟨n, hn⟩ : ∃ n, n = S.height - p.length := ⟨_, rfl⟩
  induction n generalizing p f with
  | zero =>
    obtain ⟨i, hi, hlive⟩ := hfull f r p hf hp
    have hdepth := h.depth f r p hf
    have hlen : p.length = S.height := by omega
    exact ⟨[i], M f i, hi, hlen, hlive, f, hf, rfl⟩
  | succ n ih =>
    obtain ⟨i, hi, hlive⟩ := hfull f r p hf hp
    obtain ⟨g, hg, _⟩ := h.down f r p i hf (by omega) hi (fun hnil => absurd hnil hp) hlive
    obtain ⟨q, e, hl⟩ := ih hg (by simp) (by simp only [List.length_cons]; omega)
    exact ⟨q ++ [i], e, by rwa [List.append_assoc]⟩

end Forest

namespace Leaf

theorem unique (h : Forest C S M T) {r : ℕ} {q : List ℕ} {e e' : E} (hl : Leaf C S M T r q e)
    (hl' : Leaf C S M T r q e') : e = e' := by
  cases q with
  | nil => exact hl.elim
  | cons i p =>
    obtain ⟨_, _, _, f, hf, he⟩ := hl
    obtain ⟨_, _, _, f', hf', he'⟩ := hl'
    rw [← he, ← he', h.unique hf hf']

/-- The leaf at a path, read from the leaf table of the path. -/
theorem of_table (h : Forest C S M T) {r i : ℕ} {p : List ℕ} {f : ℕ} (hf : T f = some (r, p))
    {e : E} : Leaf C S M T r (i :: p) e ↔
      i < S.width ∧ p.length = S.height ∧ C.live e ∧ M f i = e := by
  constructor
  · rintro ⟨hi, hp, hl, f', hf', he⟩
    exact ⟨hi, hp, hl, by rw [h.unique hf hf', he]⟩
  · rintro ⟨hi, hp, hl, he⟩
    exact ⟨hi, hp, hl, f, hf, he⟩

theorem root_typed (h : Forest C S M T) {r : ℕ} {q : List ℕ} {e : E} (hl : Leaf C S M T r q e) :
    T r = some (r, []) := by
  cases q with
  | nil => exact hl.elim
  | cons i p =>
    obtain ⟨_, _, _, f, hf, _⟩ := hl
    exact h.root_typed hf

/-- Only the entries of leaf tables matter. -/
theorem congr {r : ℕ} {q : List ℕ} {e : E}
    (hM : ∀ f r p i, T f = some (r, p) → p.length = S.height → i < S.width → M' f i = M f i) :
    Leaf C S M' T r q e ↔ Leaf C S M T r q e := by
  cases q with
  | nil => exact Iff.rfl
  | cons i p =>
    constructor
    · rintro ⟨hi, hp, hl, f, hf, he⟩
      exact ⟨hi, hp, hl, f, hf, by rw [← he, hM f r p i hf hp hi]⟩
    · rintro ⟨hi, hp, hl, f, hf, he⟩
      exact ⟨hi, hp, hl, f, hf, by rw [← he, hM f r p i hf hp hi]⟩

/-- Write an entry of a leaf table. -/
theorem write_leaf (h : Forest C S M T) {r i : ℕ} {p : List ℕ} {f : ℕ} (hf : T f = some (r, p))
    (hp : p.length = S.height) (hi : i < S.width) (e₀ : E) {r' : ℕ} {q : List ℕ} {e : E} :
    Leaf C S (write M f i e₀) T r' q e ↔
      if r' = r ∧ q = i :: p then e = e₀ ∧ C.live e₀ else Leaf C S M T r' q e := by
  cases q with
  | nil => simp [Leaf]
  | cons j q =>
    by_cases hsame : r' = r ∧ j :: q = i :: p
    · rw [if_pos hsame]
      obtain ⟨rfl, hq⟩ := hsame
      cases hq
      constructor
      · rintro ⟨_, _, hl, f', hf', he⟩
        have : f' = f := h.unique hf' hf
        subst this
        rw [write, if_pos ⟨rfl, rfl⟩] at he
        exact ⟨he.symm, he ▸ hl⟩
      · rintro ⟨rfl, hl⟩
        exact ⟨hi, hp, hl, f, hf, by simp [write]⟩
    · rw [if_neg hsame]
      have hwrite : ∀ f', T f' = some (r', q) → write M f i e₀ f' j = M f' j := by
        intro f' hf'
        rw [write, if_neg]
        rintro ⟨rfl, rfl⟩
        rw [hf] at hf'
        cases hf'
        exact hsame ⟨rfl, rfl⟩
      constructor
      · rintro ⟨hj, hq, hl, f', hf', he⟩
        exact ⟨hj, hq, hl, f', hf', by rw [← he, hwrite f' hf']⟩
      · rintro ⟨hj, hq, hl, f', hf', he⟩
        exact ⟨hj, hq, hl, f', hf', by rw [← he, hwrite f' hf']⟩

/-- Publishing a table adds the leaves it holds, if it is a leaf table. -/
theorem attach {r i : ℕ} {p : List ℕ} {f g : ℕ} (hf : T f = some (r, p))
    (hp : p.length < S.height) (hg : T g = none) (e₀ : E) {r' : ℕ} {q : List ℕ} {e : E} :
    Leaf C S (write M f i e₀) (Function.update T g (some (r, i :: p))) r' q e ↔
      Leaf C S M T r' q e ∨ ∃ j < S.width, r' = r ∧ q = j :: i :: p ∧
        (i :: p).length = S.height ∧ C.live e ∧ M g j = e := by
  have hfg : g ≠ f := by
    rintro rfl
    rw [hf] at hg
    cases hg
  have hwrite : ∀ x q j, T x = some (r', q) → q.length = S.height →
      write M f i e₀ x j = M x j := by
    intro x q j hx hq
    rw [write, if_neg]
    rintro ⟨rfl, _⟩
    rw [hf] at hx
    cases hx
    omega
  cases q with
  | nil => simp [Leaf]
  | cons j q =>
    constructor
    · rintro ⟨hj, hq, hl, x, hx, he⟩
      by_cases hxg : x = g
      · subst hxg
        simp only [Function.update_self, Option.some_inj, Prod.mk.injEq] at hx
        obtain ⟨rfl, rfl⟩ := hx
        rw [write, if_neg (by rintro ⟨h, _⟩; exact hfg h)] at he
        exact .inr ⟨j, hj, rfl, rfl, hq, hl, he⟩
      · rw [Function.update_of_ne hxg] at hx
        exact .inl ⟨hj, hq, hl, x, hx, by rw [← he, hwrite x q j hx hq]⟩
    · rintro (⟨hj, hq, hl, x, hx, he⟩ | ⟨j', hj, rfl, hq, hlen, hl, he⟩)
      · have hxg : x ≠ g := by
          rintro rfl
          rw [hg] at hx
          cases hx
        exact ⟨hj, hq, hl, x, by rw [Function.update_of_ne hxg, hx],
          by rw [hwrite x q j hx hq, he]⟩
      · cases hq
        exact ⟨hj, hlen, hl, g, by simp,
          by rw [write, if_neg (by rintro ⟨h, _⟩; exact hfg h), he]⟩

/-- Taking out a table without live entries removes no leaf. -/
theorem detach (h : Forest C S M T) {r i : ℕ} {p : List ℕ} {f g : ℕ} (hf : T f = some (r, p))
    (hg : T g = some (r, i :: p)) (hempty : ∀ j < S.width, ¬ C.live (M g j)) (e₀ : E)
    {r' : ℕ} {q : List ℕ} {e : E} :
    Leaf C S (write M f i e₀) (Function.update T g none) r' q e ↔ Leaf C S M T r' q e := by
  have hp : p.length < S.height := by
    have := h.depth g r _ hg
    simp only [List.length_cons] at this
    omega
  have hwrite : ∀ x q j, T x = some (r', q) → q.length = S.height →
      write M f i e₀ x j = M x j := by
    intro x q j hx hq
    rw [write, if_neg]
    rintro ⟨rfl, _⟩
    rw [hf] at hx
    cases hx
    omega
  cases q with
  | nil => exact Iff.rfl
  | cons j q =>
    constructor
    · rintro ⟨hj, hq, hl, x, hx, he⟩
      by_cases hxg : x = g
      · subst hxg
        simp at hx
      · rw [Function.update_of_ne hxg] at hx
        exact ⟨hj, hq, hl, x, hx, by rw [← he, hwrite x q j hx hq]⟩
    · rintro ⟨hj, hq, hl, x, hx, he⟩
      have hxg : x ≠ g := by
        rintro rfl
        exact hempty j hj (he ▸ hl)
      exact ⟨hj, hq, hl, x, by rw [Function.update_of_ne hxg, hx],
        by rw [hwrite x q j hx hq, he]⟩

/-- Roots that are not leaf tables can come and go. -/
theorem update_root {r : ℕ} (hH : 0 < S.height) (hr : T r = none ∨ T r = some (r, []))
    {t : Option (ℕ × List ℕ)} (ht : t = none ∨ t = some (r, [])) {r' : ℕ} {q : List ℕ} {e : E} :
    Leaf C S M (Function.update T r t) r' q e ↔ Leaf C S M T r' q e := by
  have hne : ∀ (q : List ℕ) t', q.length = S.height → (t' = none ∨ t' = some (r, [])) →
      t' ≠ some (r', q) := by
    rintro q t' hq (rfl | rfl) heq
    · cases heq
    · simp only [Option.some_inj, Prod.mk.injEq] at heq
      rw [← heq.2] at hq
      simp at hq
      omega
  cases q with
  | nil => exact Iff.rfl
  | cons j q =>
    constructor
    · rintro ⟨hj, hq, hl, x, hx, he⟩
      by_cases hxr : x = r
      · rw [hxr, Function.update_self] at hx
        exact absurd hx (hne q t hq ht)
      · rw [Function.update_of_ne hxr] at hx
        exact ⟨hj, hq, hl, x, hx, he⟩
    · rintro ⟨hj, hq, hl, x, hx, he⟩
      by_cases hxr : x = r
      · rw [hxr] at hx
        exact absurd hx (hne q _ hq hr)
      · exact ⟨hj, hq, hl, x, by rw [Function.update_of_ne hxr, hx], he⟩

end Leaf

/-- Tables linked one below the other, not yet published: each holds only the entry
of the next one, and the last one is a leaf table. -/
def Chain (C : Codec E) (S : Shape) (M : Mem E) : List ℕ → List ℕ → Prop
  | [_], [] => True
  | g :: g' :: gs, i :: is => C.links g' (M g i) ∧ (∀ j < S.width, j ≠ i → ¬ C.live (M g j)) ∧
    i < S.width ∧ Chain C S M (g' :: gs) is
  | _, _ => False

/-- The typing after a chain has been published at a path. -/
def chainTyping (T : Typing) (r : ℕ) (q : List ℕ) : List ℕ → List ℕ → Typing
  | [], _ => T
  | g :: gs, is => match gs, is with
    | [], _ => Function.update T g (some (r, q))
    | _ :: _, [] => Function.update T g (some (r, q))
    | g' :: gs, i :: is => chainTyping (Function.update T g (some (r, q))) r (i :: q) (g' :: gs) is

theorem write_comm (M : Mem E) {f g : ℕ} (h : f ≠ g) (i j : ℕ) (e e' : E) :
    write (write M f i e) g j e' = write (write M g j e') f i e := by
  funext x y
  simp only [write]
  by_cases hx : x = f ∧ y = i
  · rw [if_pos hx, if_neg (by rintro ⟨rfl, _⟩; exact h hx.1.symm), if_pos hx]
  · rw [if_neg hx, if_neg hx]

theorem write_write (M : Mem E) (f i : ℕ) (e e' : E) :
    write (write M f i e) f i e' = write M f i e' := by
  funext x y
  simp only [write]
  split_ifs <;> rfl

theorem write_self (M : Mem E) (f i : ℕ) {e : E} (h : M f i = e) : write M f i e = M := by
  funext x y
  simp only [write]
  split_ifs with hx
  · rw [hx.1, hx.2, h]
  · rfl

/-- A chain is in its own tables. -/
theorem Chain.congr {gs is : List ℕ} (hc : Chain C S M gs is) (hM : ∀ g ∈ gs, M' g = M g) :
    Chain C S M' gs is := by
  induction gs generalizing is with
  | nil => exact hc
  | cons g gs ih =>
    cases gs with
    | nil => cases is <;> exact hc
    | cons g' gs =>
      cases is with
      | nil => exact hc
      | cons j is =>
        obtain ⟨he, hd, hj, hrest⟩ := hc
        have hg := hM g (by simp)
        exact ⟨by rwa [hg], fun j' hj' hne => by rw [hg]; exact hd j' hj' hne, hj,
          ih hrest (fun x hx => hM x (by simp [hx]))⟩

/-- Writes to other tables do not touch a chain. -/
theorem Chain.write_ne {f i : ℕ} {e : E} {gs is : List ℕ} (hc : Chain C S M gs is)
    (hf : f ∉ gs) : Chain C S (write M f i e) gs is := by
  refine hc.congr ?_
  intro g hg
  funext j
  rw [write, if_neg]
  rintro ⟨rfl, _⟩
  exact hf hg

/-- Publish a chain with one write. -/
theorem Forest.attach_chain (h : Forest C S M T) {r i : ℕ} {p : List ℕ} {f : ℕ}
    (hf : T f = some (r, p)) (hi : i < S.width) (ho : S.Owned r p i)
    (hdead : ¬ C.live (M f i)) {g : ℕ} {gs is : List ℕ} (hc : Chain C S M (g :: gs) is)
    (hlen : p.length + 1 + is.length = S.height) (hnd : (g :: gs).Nodup)
    (hT : ∀ x ∈ g :: gs, T x = none ∧ C.valid x) {e₀ : E} (hlink : C.links g e₀) :
    Forest C S (write M f i e₀) (chainTyping T r (i :: p) (g :: gs) is) ∧
    ∀ r' q e, Leaf C S (write M f i e₀) (chainTyping T r (i :: p) (g :: gs) is) r' q e ↔
      Leaf C S M T r' q e ∨ ∃ j < S.width, r' = r ∧ q = j :: (is.reverse ++ i :: p) ∧
        C.live e ∧ M ((g :: gs).getLast (by simp)) j = e := by
  induction gs generalizing g i p f is M T e₀ with
  | nil =>
    cases is with
    | cons j is => exact hc.elim
    | nil =>
      obtain ⟨hg, hvalid⟩ := hT g (by simp)
      have hp : p.length + 1 = S.height := by simpa using hlen
      refine ⟨h.attach hf (by omega) hi ho hdead hg hvalid ?_ hlink, ?_⟩
      · intro hlt
        simp only [List.length_cons] at hlt
        omega
      · intro r' q e
        rw [chainTyping, Leaf.attach hf (by omega) hg]
        simp [hp]
  | cons g' gs ih =>
    cases is with
    | nil => exact hc.elim
    | cons j is =>
      obtain ⟨he, hd, hj, hrest⟩ := hc
      obtain ⟨hg, hvalid⟩ := hT g (by simp)
      have hlen' : p.length + 1 + (is.length + 1) = S.height := by simpa using hlen
      have hfg : f ≠ g := by
        rintro rfl
        rw [hf] at hg
        cases hg
      have hgne : g ∉ g' :: gs := (List.nodup_cons.mp hnd).1
      have hfne : f ∉ g' :: gs := by
        intro hmem
        rw [(hT f (by simp [hmem])).1] at hf
        cases hf
      -- first the table with its child entry cleared, then the rest of the chain below it
      have h₀ : Forest C S (write M g j C.dead) T := by
        apply h.congr
        intro x r' p' y hx _ _
        rw [write, if_neg]
        rintro ⟨rfl, _⟩
        rw [hg] at hx
        cases hx
      have h₁ : Forest C S (write (write M g j C.dead) f i e₀)
          (Function.update T g (some (r, i :: p))) := by
        refine h₀.attach hf (by omega) hi ho ?_ hg hvalid ?_ hlink
        · rwa [write, if_neg (by rintro ⟨h, _⟩; exact hfg h)]
        · intro _ y hy
          rw [write]
          split_ifs with hyj
          · exact C.not_live_dead
          · exact hd y hy (fun h => hyj ⟨rfl, h⟩)
      have hback : write (write (write M g j C.dead) f i e₀) g j (M g j) = write M f i e₀ := by
        rw [write_comm _ hfg, write_write, write_self _ _ _ rfl]
      obtain ⟨hforest, hleaf⟩ := ih (M := write (write M g j C.dead) f i e₀)
        (T := Function.update T g (some (r, i :: p))) (f := g) (i := j) (p := i :: p)
        h₁ (by simp) hj (by simp [Shape.Owned])
        (by rw [write, if_neg (by rintro ⟨h, _⟩; exact hfg h.symm), write, if_pos ⟨rfl, rfl⟩]
            exact C.not_live_dead)
        ((hrest.write_ne hgne).write_ne hfne) (by simp only [List.length_cons]; omega)
        (List.nodup_cons.mp hnd).2
        (by
          intro x hx
          have hxg : x ≠ g := by
            rintro rfl
            exact hgne hx
          rw [Function.update_of_ne hxg]
          exact hT x (by simp [hx])) he
      rw [hback] at hforest hleaf
      refine ⟨hforest, ?_⟩
      intro r' q e
      rw [chainTyping, hleaf, Leaf.attach hf (by omega) hg]
      have hlast : (g' :: gs).getLast (by simp) ∈ g' :: gs := List.getLast_mem _
      have hkeep : ∀ y, write (write M g j C.dead) f i e₀
          ((g' :: gs).getLast (by simp)) y = M ((g' :: gs).getLast (by simp)) y := by
        intro y
        rw [write, if_neg (by rintro ⟨h, _⟩; exact hfne (h ▸ hlast)),
          write, if_neg (by rintro ⟨h, _⟩; exact hgne (h ▸ hlast))]
      have hdeadleaf : Leaf C S (write M g j C.dead) T r' q e ↔ Leaf C S M T r' q e := by
        apply Leaf.congr
        intro x r'' p' y hx _ _
        rw [write, if_neg]
        rintro ⟨rfl, _⟩
        rw [hg] at hx
        cases hx
      rw [hdeadleaf]
      simp only [hkeep, List.reverse_cons, List.append_assoc, List.singleton_append,
        List.getLast_cons (List.cons_ne_nil g' gs)]
      constructor
      · rintro ((hl | ⟨y, _, _, _, hbad, _⟩) | hl)
        · exact .inl hl
        · simp only [List.length_cons] at hbad
          omega
        · exact .inr hl
      · rintro (hl | hl)
        · exact .inl (.inl hl)
        · exact .inr hl

end Radix

end Lib
