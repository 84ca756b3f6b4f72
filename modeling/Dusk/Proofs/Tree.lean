import Dusk.Proofs.Frame
import Dusk.Proofs.Entry
import Dusk.Proofs.Address
import Dusk.Lib.Radix

/-! Page tables as a radix forest over physical memory, and the walkers of
`paging.rs` and of the processor in terms of its leaves. -/

namespace Dusk

open Lib Radix

/-- Entries as links to tables, user accessible or not. -/
def pteCodec (config : PagingConfig) : Codec Word where
  valid g := startAddress g < config.physicalAddressLimit
  live e := PageTableEntry.isPresent e = true
  dead := PageTableEntry.null
  links g e := ∃ user, e = tableWord user g
  decode e := PageTableEntry.tableFrame e config
  not_live_dead := by simp [null_isPresent]
  live_links := by
    rintro g e h ⟨user, rfl⟩
    exact tableWord_isPresent _ h
  decode_links := by
    rintro g e h ⟨user, rfl⟩
    exact tableWord_tableFrame _ h
  live_of_decode _ _ h := isPresent_of_tableFrame h

/-- The upper half of a root belongs to the kernel's. -/
def pteShape (mode : PagingMode) (kroot : ℕ) : Shape where
  width := 512
  height := mode.intermediateLevels.length
  own r i := r = kroot ∨ i < 256

def Role.typing : Role → Option (ℕ × List ℕ)
  | .table r p => some (r, p)
  | _ => none

theorem Role.typing_some {ρ : Role} {r : ℕ} {p : List ℕ} :
    ρ.typing = some (r, p) ↔ ρ = .table r p := by
  cases ρ <;> simp [Role.typing]

def Layout.typing (L : Layout) : Typing := fun f => (L.role f).typing

theorem Layout.typing_some {L : Layout} {f r : ℕ} {p : List ℕ} :
    L.typing f = some (r, p) ↔ L.role f = .table r p := Role.typing_some

theorem Layout.typing_none {L : Layout} {f : ℕ} :
    L.typing f = none ↔ ∀ r p, L.role f ≠ .table r p := by
  simp only [Layout.typing]
  cases L.role f <;> simp [Role.typing]

theorem Layout.typing_set (L : Layout) (f : ℕ) (ρ : Role) :
    (L.set f ρ).typing = Function.update L.typing f ρ.typing := by
  funext g
  by_cases hg : g = f
  · rw [hg, Function.update_self, Layout.typing, Layout.set_role_self]
  · rw [Function.update_of_ne hg, Layout.typing, Layout.set_role_of_ne L hg, Layout.typing]

/-- Page tables form a forest in physical memory. -/
def Tree (L : Layout) (m : Machine) : Prop :=
  Forest (pteCodec m.paging) (pteShape m.paging.mode L.kroot) m.mem.word L.typing

/-- `e` is the present leaf at path `q` below the root `r`. -/
def LeafAt (L : Layout) (m : Machine) (r : ℕ) (q : List ℕ) (e : Word) : Prop :=
  Leaf (pteCodec m.paging) (pteShape m.paging.mode L.kroot) m.mem.word L.typing r q e

/-- The table of a role is in the lower half of an address space, or the kernel's. -/
theorem owned_of {L : Layout} {mode : PagingMode} {r i : ℕ} (p : List ℕ)
    (h : r = L.kroot ∨ i < 256) : (pteShape mode L.kroot).Owned r p i := fun _ => h

section Walk

variable {L : Layout} {m : Machine} {r va : ℕ}

theorem walkLeaf_eq (config : PagingConfig) (mem : PhysMem) (va : ℕ)
    (levels : List PageTableLevel) (f : ℕ) :
    walkLeaf config mem va levels f =
      (descend (pteCodec config) mem.word (levels.map fun l => l.index va) f).bind
        (fun t => if PageTableEntry.isPresent (mem.word t (p1Index va)) then
          some (mem.word t (p1Index va)) else none) := by
  induction levels generalizing f with
  | nil => rfl
  | cons level levels ih =>
    rw [walkLeaf, List.map_cons, descend, Option.bind_assoc]
    congr 1
    funext t
    exact ih t

/-- The processor finds exactly the leaves of the half a root owns. -/
theorem walkLeaf_iff (ht : Tree L m) (hr : L.role r = .table r [])
    (ho : r = L.kroot ∨ rootIndex m.paging.mode va < 256) (e : Word) :
    walkLeaf m.paging m.mem va m.paging.mode.intermediateLevels r = some e ↔
      LeafAt L m r (pagePath m.paging.mode va) e := by
  have hroot := Layout.typing_some.mpr hr
  have hdesc := fun g => ht.descend_iff hroot (tableIndices m.paging.mode va)
    (by simp [pteShape]) (fun i hi => tableIndices_lt hi)
    (by
      intro i hi
      rw [tableIndices_eq] at hi
      simp only [List.head?_cons, Option.mem_some_iff] at hi
      exact owned_of _ (hi ▸ ho)) g
  rw [walkLeaf_eq m.paging]
  constructor
  · intro h
    obtain ⟨t, htable, hentry⟩ := Option.bind_eq_some_iff.mp h
    split_ifs at hentry with hp
    cases hentry
    have htyped := (hdesc t).mp htable
    rw [List.append_nil] at htyped
    exact ⟨p1Index_lt va, by simp [pteShape], hp, t, htyped, rfl⟩
  · rintro ⟨_, _, hp, t, htyped, rfl⟩
    refine Option.bind_eq_some_iff.mpr ⟨t, (hdesc t).mpr (by simpa using htyped), ?_⟩
    exact if_pos hp

/-- The page table of a root on this machine. -/
def Machine.table (m : Machine) (r : ℕ) : PageTable := ⟨m.allocator.directMap, m.paging, r⟩

theorem table_entries (ha : AllocInv L m) {f : ℕ} {p : List ℕ} (hf : L.role f = .table r p)
    (r' : ℕ) : (m.table r').table m.mem f = some (m.mem.word f) := by
  obtain ⟨v, hv⟩ := ha.translate_some (f := f) (by simp [hf, Role.state])
  simp [PageTable.table, Machine.table, hv]

/-- The next table on the way to an address, or nothing where its entry is not present. -/
theorem child_cases (ht : Tree L m) {f : ℕ} {p : List ℕ} (hf : L.role f = .table r p)
    (hp : p.length < m.paging.mode.intermediateLevels.length) {i : ℕ} (hi : i < 512)
    (ho : p = [] → r = L.kroot ∨ i < 256) :
    PageTableEntry.isPresent (m.mem.word f i) = false ∨
      ∃ g user, L.role g = .table r (i :: p) ∧ m.mem.word f i = tableWord user g ∧
        startAddress g < m.paging.physicalAddressLimit := by
  by_cases hl : PageTableEntry.isPresent (m.mem.word f i) = true
  · obtain ⟨g, hg, user, he⟩ := ht.down f r p i (Layout.typing_some.mpr hf) hp hi ho hl
    exact .inr ⟨g, user, Layout.typing_some.mp hg, he, ht.valid g _ _ hg⟩
  · exact .inl (by simpa using hl)

theorem walkLeaf_cons (config : PagingConfig) (mem : PhysMem) (va : ℕ) (level : PageTableLevel)
    (levels : List PageTableLevel) (f : ℕ) :
    walkLeaf config mem va (level :: levels) f =
      (PageTableEntry.tableFrame (mem.word f (level.index va)) config).bind
        (walkLeaf config mem va levels) := rfl

theorem tableFrame_of_not_present {e : Word} {config : PagingConfig}
    (h : PageTableEntry.isPresent e = false) : PageTableEntry.tableFrame e config = none := by
  simp [PageTableEntry.tableFrame, h]

theorem checkedAdd_entry (config : PagingConfig) (e : Word) (va : ℕ) :
    checkedAdd (startAddress (entryFrame config e)) (pageOffset va) =
      some (startAddress (entryFrame config e) + pageOffset va) := by
  refine if_pos ?_
  have hal := physicalAddress_aligned e config
  have hlt : PageTableEntry.physicalAddress e config < 2 ^ 64 := BitVec.isLt _
  rw [pageOffset_eq]
  simp only [startAddress, entryFrame, FRAME_SIZE, USIZE_END] at hal ⊢
  omega

theorem toPhysicalFrom_eq (ha : AllocInv L m) (ht : Tree L m) {f : ℕ} {p : List ℕ}
    (hf : L.role f = .table r p) {levels : List PageTableLevel}
    (hlen : p.length + levels.length = m.paging.mode.intermediateLevels.length)
    (ho : p = [] → ∀ l ∈ levels.head?, r = L.kroot ∨ l.index va < 256) (r' : ℕ) :
    (m.table r').toPhysicalFrom m.mem va levels f =
      (walkLeaf m.paging m.mem va levels f).bind fun e =>
        checkedAdd (startAddress (entryFrame m.paging e)) (pageOffset va) := by
  induction levels generalizing f p with
  | nil =>
    simp only [PageTable.toPhysicalFrom, table_entries ha hf, walkLeaf]
    cases hp : PageTableEntry.isPresent (m.mem.word f (p1Index va)) <;>
      simp [leafFrame_eq, hp, Machine.table]
  | cons level levels ih =>
    have hlt : p.length < m.paging.mode.intermediateLevels.length := by
      simp only [List.length_cons] at hlen
      omega
    rw [walkLeaf_cons]
    simp only [PageTable.toPhysicalFrom, table_entries ha hf, Option.bind_eq_bind,
      Option.bind_some]
    rcases child_cases ht hf hlt (level_index_lt level va) (fun h => ho h level (by simp)) with
      hdead | ⟨g, user, hg, he, hlim⟩
    · simp [hdead, tableFrame_of_not_present hdead]
    · have hnext := ih hg (by simp only [List.length_cons] at hlen ⊢; omega) (by simp)
      simp only [he, tableWord_isPresent _ hlim, tableWord_isHuge _ hlim,
        tableWord_tableFrame _ hlim, Machine.table] at hnext ⊢
      simpa using hnext

/-- Every entry on the way to the table at `q` is user accessible. -/
def UserPath (L : Layout) (m : Machine) (r : ℕ) (q : List ℕ) : Prop :=
  ∀ i p f, (i :: p) <:+ q → L.role f = .table r p →
    PageTableEntry.isUserAccessible (m.mem.word f i) = true

/-- The user bits of the entries on the way to the leaf of an address. -/
def pathUser (config : PagingConfig) (mem : PhysMem) (va : ℕ) : List PageTableLevel → ℕ → Bool
  | [], _ => true
  | level :: levels, f =>
    PageTableEntry.isUserAccessible (mem.word f (level.index va)) &&
      (PageTableEntry.tableFrame (mem.word f (level.index va)) config).all
        (pathUser config mem va levels)

theorem mappingFrom_eq (ha : AllocInv L m) (ht : Tree L m) {f : ℕ} {p : List ℕ}
    (hf : L.role f = .table r p) {levels : List PageTableLevel}
    (hlen : p.length + levels.length = m.paging.mode.intermediateLevels.length)
    (ho : p = [] → ∀ l ∈ levels.head?, r = L.kroot ∨ l.index va < 256) (r' : ℕ)
    (permissions : PagePermissions) :
    (m.table r').mappingFrom m.mem va levels f permissions =
      (walkLeaf m.paging m.mem va levels f).map fun e =>
        (permissions.meet ⟨true, true, pathUser m.paging m.mem va levels f⟩).meet
          (PageTableEntry.permissions e) := by
  induction levels generalizing f p permissions with
  | nil =>
    simp only [PageTable.mappingFrom, table_entries ha hf, walkLeaf, pathUser]
    cases hp : PageTableEntry.isPresent (m.mem.word f (p1Index va)) <;>
      simp [hp, PagePermissions.meet]
  | cons level levels ih =>
    have hlt : p.length < m.paging.mode.intermediateLevels.length := by
      simp only [List.length_cons] at hlen
      omega
    rw [walkLeaf_cons, pathUser]
    simp only [PageTable.mappingFrom, table_entries ha hf, Option.bind_eq_bind,
      Option.bind_some]
    rcases child_cases ht hf hlt (level_index_lt level va) (fun h => ho h level (by simp)) with
      hdead | ⟨g, user, hg, he, hlim⟩
    · simp [hdead, tableFrame_of_not_present hdead]
    · have hnext := ih hg (by simp only [List.length_cons] at hlen ⊢; omega) (by simp)
        (permissions.meet ⟨true, true, user⟩)
      simp only [he, tableWord_isPresent _ hlim, tableWord_isHuge _ hlim,
        tableWord_permissions _ hlim, tableWord_tableFrame _ hlim, Machine.table] at hnext ⊢
      simp only [Option.bind_some, Bool.not_true, Bool.false_eq_true, if_false, hnext,
        tableWord_isUserAccessible _ hlim, Option.all_some]
      congr 1
      funext e
      simp [PagePermissions.meet, Bool.and_assoc]

theorem pathUser_of (ht : Tree L m) {f : ℕ} {p : List ℕ} (hf : L.role f = .table r p)
    {levels : List PageTableLevel}
    (hlen : p.length + levels.length = m.paging.mode.intermediateLevels.length)
    (ho : p = [] → ∀ l ∈ levels.head?, r = L.kroot ∨ l.index va < 256)
    (hu : UserPath L m r ((levels.map fun l => l.index va).reverse ++ p)) :
    pathUser m.paging m.mem va levels f = true := by
  induction levels generalizing f p with
  | nil => rfl
  | cons level levels ih =>
    have hlt : p.length < m.paging.mode.intermediateLevels.length := by
      simp only [List.length_cons] at hlen
      omega
    rw [List.map_cons, List.reverse_cons, List.append_assoc, List.singleton_append] at hu
    rw [pathUser, hu _ p f (List.suffix_append _ _) hf, Bool.true_and]
    rcases child_cases ht hf hlt (level_index_lt level va) (fun h => ho h level (by simp)) with
      hdead | ⟨g, user, hg, he, hlim⟩
    · rw [tableFrame_of_not_present hdead]
      rfl
    · rw [he, tableWord_tableFrame _ hlim, Option.all_some]
      exact ih hg (by simp only [List.length_cons] at hlen ⊢; omega) (by simp) hu

/-- The leaf an address is translated by. -/
def Machine.leaf (m : Machine) (r va : ℕ) : Option Word :=
  walkLeaf m.paging m.mem va m.paging.mode.intermediateLevels r

theorem toPhysical_eq (ha : AllocInv L m) (ht : Tree L m) (hr : L.role r = .table r [])
    (hc : m.paging.mode.isCanonical va = true)
    (ho : r = L.kroot ∨ rootIndex m.paging.mode va < 256) :
    (m.table r).toPhysical m.mem va = (m.leaf r va).bind fun e =>
      checkedAdd (startAddress (entryFrame m.paging e)) (pageOffset va) := by
  have hcan : (m.table r).isCanonical va = true := hc
  rw [PageTable.toPhysical, hcan]
  simp only [Bool.not_true, Bool.false_eq_true, if_false]
  refine toPhysicalFrom_eq ha ht hr (by simp [Machine.table]) ?_ r
  intro _ l hl
  cases hm : m.paging.mode <;>
    simp_all [Machine.table, PagingMode.intermediateLevels, rootIndex, tableIndices]

/-- The user bit of a leaf implies those of the entries above it. -/
def Closed (L : Layout) (m : Machine) : Prop :=
  ∀ r i p e, LeafAt L m r (i :: p) e → PageTableEntry.isUserAccessible e = true → UserPath L m r p

/-- The permissions of an address are those of its leaf. -/
theorem mapping_eq (ha : AllocInv L m) (ht : Tree L m) (hcl : Closed L m)
    (hr : L.role r = .table r []) (hc : m.paging.mode.isCanonical va = true)
    (ho : r = L.kroot ∨ rootIndex m.paging.mode va < 256) :
    (m.table r).mapping m.mem va = (m.leaf r va).map PageTableEntry.permissions := by
  have hcan : (m.table r).isCanonical va = true := hc
  have hlevels : ([] : List ℕ) = [] → ∀ l ∈ m.paging.mode.intermediateLevels.head?,
      r = L.kroot ∨ l.index va < 256 := by
    intro _ l hl
    cases hm : m.paging.mode <;>
      simp_all [PagingMode.intermediateLevels, rootIndex, tableIndices]
  rw [PageTable.mapping, hcan]
  simp only [Bool.not_true, Bool.false_eq_true, if_false]
  refine (mappingFrom_eq ha ht hr (by simp) hlevels r _).trans ?_
  rw [Machine.leaf]
  cases hl : walkLeaf m.paging m.mem va m.paging.mode.intermediateLevels r with
  | none => rfl
  | some e =>
    have hleaf := (walkLeaf_iff ht hr ho e).mp hl
    rw [Option.map_some, Option.map_some]
    cases hu : PageTableEntry.isUserAccessible e with
    | false => simp [PagePermissions.meet, PageTableEntry.permissions, hu]
    | true =>
      have hpath : pathUser m.paging m.mem va m.paging.mode.intermediateLevels r = true :=
        pathUser_of ht hr (by simp) hlevels (by simpa [tableIndices] using hcl _ _ _ _ hleaf hu)
      simp [PagePermissions.meet, hpath]

/-- Above the user half an address space is read through the kernel's tables. -/
theorem from_shared (ha : AllocInv L m) {k : ℕ} (hr : L.role r = .table r [])
    (hk : L.role k = .table k [])
    (hw : m.mem.word r (rootIndex m.paging.mode va) = m.mem.word k (rootIndex m.paging.mode va)) :
    (m.table r).toPhysical m.mem va = (m.table k).toPhysical m.mem va ∧
    (m.table r).mapping m.mem va = (m.table k).mapping m.mem va := by
  have htr := fun r' => table_entries ha hr r'
  have htk := fun r' => table_entries ha hk r'
  have hcfg : ∀ r', (m.table r').config = m.paging := fun _ => rfl
  constructor
  · simp only [PageTable.toPhysical, PageTable.isCanonical, hcfg]
    split_ifs
    · rfl
    · cases hm : m.paging.mode <;>
        simp only [hm, rootIndex, tableIndices, PagingMode.intermediateLevels, List.map_cons,
          List.headD_cons] at hw ⊢ <;>
        simp only [Machine.table, PageTable.toPhysicalFrom] at htr htk ⊢ <;>
        simp only [htr, htk, hw, Option.bind_eq_bind, Option.bind_some] <;> rfl
  · simp only [PageTable.mapping, PageTable.isCanonical, hcfg]
    split_ifs
    · rfl
    · cases hm : m.paging.mode <;>
        simp only [hm, rootIndex, tableIndices, PagingMode.intermediateLevels, List.map_cons,
          List.headD_cons] at hw ⊢ <;>
        simp only [Machine.table, PageTable.mappingFrom] at htr htk ⊢ <;>
        simp only [htr, htk, hw, Option.bind_eq_bind, Option.bind_some] <;> rfl

end Walk

section Nodes

/-- The table at a list of indices below a table. -/
def tableAt (config : PagingConfig) (mem : PhysMem) : List ℕ → ℕ → Option ℕ
  | [], f => some f
  | i :: is, f => (PageTableEntry.tableFrame (mem.word f i) config).bind (tableAt config mem is)

/-- `f` is the page-table node at the indices `path`. -/
def PageTable.Node (pt : PageTable) (mem : PhysMem) (path : List ℕ) (f : ℕ) : Prop :=
  path.length ≤ pt.config.mode.intermediateLevels.length ∧ (∀ i ∈ path, i < PAGE_TABLE_ENTRIES) ∧
    tableAt pt.config mem path pt.frame = some f

theorem tableAt_eq (config : PagingConfig) (mem : PhysMem) (path : List ℕ) (f : ℕ) :
    tableAt config mem path f = descend (pteCodec config) mem.word path f := by
  induction path generalizing f with
  | nil => rfl
  | cons i is ih => simp only [tableAt, descend, funext ih]; rfl

theorem tableAt_append (config : PagingConfig) (mem : PhysMem) (path : List ℕ) (i f : ℕ) :
    tableAt config mem (path ++ [i]) f = (tableAt config mem path f).bind fun g =>
      PageTableEntry.tableFrame (mem.word g i) config := by
  induction path generalizing f with
  | nil =>
    simp only [List.nil_append, tableAt, Option.bind_some]
    exact Option.bind_fun_some _
  | cons j path ih =>
    simp only [List.cons_append, tableAt, Option.bind_assoc]
    congr 1
    funext g
    exact ih g

/-- A node and the nodes its entries lead to. -/
theorem PageTable.node_snoc {pt : PageTable} {mem : PhysMem} {path : List ℕ} {i g : ℕ} :
    pt.Node mem (path ++ [i]) g ↔
      ∃ f, pt.Node mem path f ∧ path.length < pt.config.mode.intermediateLevels.length ∧
        i < PAGE_TABLE_ENTRIES ∧
        PageTableEntry.tableFrame (mem.word f i) pt.config = some g := by
  unfold PageTable.Node
  rw [List.length_append, List.length_singleton, tableAt_append, Option.bind_eq_some_iff]
  simp only [List.mem_append, List.mem_singleton]
  constructor
  · rintro ⟨hlen, hlt, f, hf, hg⟩
    exact ⟨f, ⟨by omega, fun j hj => hlt j (.inl hj), hf⟩, by omega, hlt i (.inr rfl), hg⟩
  · rintro ⟨f, ⟨_, hlt, hf⟩, hlen, hi, hg⟩
    refine ⟨by omega, ?_, f, hf, hg⟩
    rintro j (hj | rfl)
    · exact hlt j hj
    · exact hi

theorem PageTable.node_nil {pt : PageTable} {mem : PhysMem} {f : ℕ} :
    pt.Node mem [] f ↔ f = pt.frame := by
  simp [PageTable.Node, tableAt, eq_comm]

variable {L : Layout} {m : Machine} {r f : ℕ} {path : List ℕ}

/-- The nodes below a root are the tables of the forest, where it owns them. -/
theorem node_iff (ht : Tree L m) (hr : L.role r = .table r [])
    (ho : ∀ i ∈ path.head?, r = L.kroot ∨ i < 256) :
    (m.table r).Node m.mem path f ↔ L.role f = .table r path.reverse := by
  have hdown : path.length ≤ m.paging.mode.intermediateLevels.length →
      (∀ i ∈ path, i < 512) →
      (tableAt m.paging m.mem path r = some f ↔ L.role f = .table r path.reverse) := by
    intro hlen hlt
    rw [tableAt_eq, ht.descend_iff (Layout.typing_some.mpr hr) path (by simpa [pteShape] using hlen)
      hlt (fun i hi => owned_of [] (ho i hi)) f, List.append_nil, Layout.typing_some]
  constructor
  · rintro ⟨hlen, hlt, hat⟩
    exact (hdown hlen hlt).mp hat
  · intro hf
    have hT := Layout.typing_some.mpr hf
    have hlen : path.length ≤ m.paging.mode.intermediateLevels.length := by
      simpa [pteShape] using ht.depth f r _ hT
    have hlt : ∀ i ∈ path, i < 512 := by
      intro i hi
      exact ht.path_lt hT i (List.mem_reverse.mpr hi)
    exact ⟨hlen, hlt, (hdown hlen hlt).mpr hf⟩

end Nodes

end Dusk
