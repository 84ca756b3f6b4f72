import Dusk.Proofs.Views

/-! Who owns a frame: every tracked frame has one use, mapping handles and user pages
are the same thing seen from two sides, and handles name what exists. -/

namespace Dusk

open Lib Radix

variable {b : BootInfo} {B : BootPages} {L : Layout} {k k' k₀ : Kernel}

/-- Every frame has at most one role. -/
structure FrameOwnership (k : Kernel) : Prop where
  /-- A free frame is no table, and neither a handle, a user page nor a page of a kernel
  stack stands for it. -/
  free : ∀ f, k.machine.frameState f = some .free →
    (∀ s path, k.Live s → ¬ s.root.Node k.machine.mem path f) ∧ (∀ t h, ¬ k.Holds t h f) ∧
    (∀ s va, k.Live s → va < 2 ^ 63 → ¬ s.Maps k.machine.mem va f) ∧
    ∀ s va, k.kernelSpace = some s → KERNEL_STACK_BASE ≤ va →
      va < KERNEL_STACK_BASE + MAX_KERNEL_STACKS * KERNEL_SLOT_SIZE → ¬ s.Maps k.machine.mem va f
  /-- A frame is in one handle. -/
  single : ∀ t h t' h' f, k.Holds t h f → k.Holds t' h' f → t = t' ∧ h = h'
  /-- A table is in no handle and no user page, and it is reached on one path. -/
  tables : ∀ s path f, k.Live s → s.root.Node k.machine.mem path f →
    (∀ t h, ¬ k.Holds t h f) ∧
    (∀ s' va, k.Live s' → va < 2 ^ 63 → ¬ s'.Maps k.machine.mem va f) ∧
    ∃! place : AddressSpace × List ℕ, k.Live place.1 ∧ place.1.Own place.2 ∧
      place.1.root.Node k.machine.mem place.2 f
  /-- An address space is in one slot. -/
  spaces : ∀ id id' s, k.spaces.get id = some s → k.spaces.get id' = some s → id = id'

theorem ResInv.node_unique (h : ResInv B L k) {s s' : AddressSpace} {path path' : List ℕ} {f : ℕ}
    (hs : k.Live s) (hs' : k.Live s') (ho : s.Own path) (ho' : s'.Own path')
    (hn : s.root.Node k.machine.mem path f) (hn' : s'.root.Node k.machine.mem path' f) :
    s = s' ∧ path = path' := by
  have hrole := h.node_own hs ho hn
  rw [h.node_own hs' ho' hn', Role.table.injEq] at hrole
  exact ⟨h.live_ext hs hs' hrole.1.symm, (List.reverse_injective hrole.2).symm⟩

/-- Frame ownership in every reachable state. -/
theorem frame_ownership (hok : b.Ok) (hk : Reachable b k) : FrameOwnership k := by
  obtain ⟨B, L, hinv⟩ := hk.inv hok
  have h := hinv.res
  constructor
  · intro f hf
    have hrole := h.free_iff.mp hf
    refine ⟨?_, ?_, ?_, ?_⟩
    · intro s path hs hn
      obtain ⟨r, p, ht⟩ := h.node_role hs hn
      rw [hrole] at ht
      cases ht
    · intro t i hh
      have ht := h.holds_role hh
      rw [hrole] at ht
      cases ht
    · intro s va hs hva hm
      have ht := h.user_role hs hva hm
      rw [hrole] at ht
      rcases ht with ⟨_, _, ht⟩ | ⟨_, ht⟩ | ⟨_, ht⟩ <;> cases ht
    · intro s va hs hlow hhigh hm
      rw [h.spaces.kernel] at hs
      cases hs
      obtain ⟨page, ht⟩ := h.stack_role hlow hhigh hm
      rw [hrole] at ht
      cases ht
  · intro t i t' i' f hh hh'
    have ht := h.holds_role hh
    rw [h.holds_role hh'] at ht
    cases ht
    exact ⟨rfl, rfl⟩
  · intro s path f hs hn
    obtain ⟨r, p, hrole⟩ := h.node_role hs hn
    refine ⟨?_, ?_, ?_⟩
    · intro t i hh
      have ht := h.holds_role hh
      rw [hrole] at ht
      cases ht
    · intro s' va hs' hva hm
      have ht := h.user_role hs' hva hm
      rw [hrole] at ht
      rcases ht with ⟨_, _, ht⟩ | ⟨_, ht⟩ | ⟨_, ht⟩ <;> cases ht
    · obtain ⟨s₁, path₁, hs₁, ho₁, hn₁⟩ : ∃ s₁ path₁, k.Live s₁ ∧ s₁.Own path₁ ∧
          s₁.root.Node k.machine.mem path₁ f := by
        by_cases ho : s.Own path
        · exact ⟨s, path, hs, ho, hn⟩
        · exact ⟨_, path, h.kernel_live, .inl rfl, h.node_shared hs ho hn⟩
      refine ⟨(s₁, path₁), ⟨hs₁, ho₁, hn₁⟩, ?_⟩
      rintro ⟨s₂, path₂⟩ ⟨hs₂, ho₂, hn₂⟩
      obtain ⟨rfl, rfl⟩ := h.node_unique hs₂ hs₁ ho₂ ho₁ hn₂ hn₁
      rfl
  · intro id id' s hs hs'
    exact h.spaces.inj id id' s.root.frame (Kernel.rootOf_some.mpr ⟨s, hs, rfl⟩)
      (Kernel.rootOf_some.mpr ⟨s, hs', rfl⟩)

theorem frame_ownership_small :
    ∃ k, Reachable (smallBoot [0x700000]) k ∧ Toured k ∧ FrameOwnership k := by
  obtain ⟨k, hk, htoured⟩ := tour_reachable
  exact ⟨k, hk, htoured, frame_ownership (smallBoot_ok [0x700000]) hk⟩

section Mappings

/-- `k₀` is the state in which the first task starts, `k` a later one. -/
structure MappingHandles (k₀ k : Kernel) : Prop where
  /-- A mapping handle stands for a page that is mapped to its frame. -/
  mapped : ∀ t h f id v rights, k.handleAt t h = some ⟨.mapping f id v, rights⟩ →
    v % FRAME_SIZE = 0 ∧ ∃ s, k.spaces.get id = some s ∧
      s.toPhysical k.machine.mem v = some (startAddress f)
  /-- A page of a lower half was mapped at boot or has exactly one mapping handle. -/
  named : ∀ id s va f, k.spaces.get id = some s → va < 2 ^ 63 → s.Maps k.machine.mem va f →
    (k₀.spaces.get id = some s ∧ s.Maps k₀.machine.mem va f) ∨
    ∃! place : ℕ × ℕ, ∃ rights, k.handleAt place.1 place.2 =
      some ⟨.mapping f id (alignDownToFrame va), rights⟩
  /-- The kernel's own lower half is empty. -/
  kernel : ∀ s va f, k.kernelSpace = some s → va < 2 ^ 63 → ¬ s.Maps k.machine.mem va f
  /-- No frame is behind two user pages. -/
  once : ∀ id id' s s' va va' f, k.spaces.get id = some s → k.spaces.get id' = some s' →
    va < 2 ^ 63 → va' < 2 ^ 63 → s.Maps k.machine.mem va f → s'.Maps k.machine.mem va' f →
    id = id' ∧ alignDownToFrame va = alignDownToFrame va'
  /-- A move of another task does not remove the page of a handle. -/
  kept : ∀ a k' done t h f id v rights, step a k = some (k', done) → k.sched.current ≠ some t →
    k.handleAt t h = some ⟨.mapping f id v, rights⟩ →
    k'.handleAt t h = some ⟨.mapping f id v, rights⟩ ∧ ∃ s, k'.spaces.get id = some s ∧
      s.toPhysical k'.machine.mem v = some (startAddress f)

/-- A mapping handle stands for its page. -/
theorem ResInv.mapped (h : ResInv B L k) {t i f id v : ℕ} {rights : Rights}
    (hh : k.handleAt t i = some ⟨.mapping f id v, rights⟩) :
    v % FRAME_SIZE = 0 ∧ ∃ s, k.spaces.get id = some s ∧
      s.toPhysical k.machine.mem v = some (startAddress f) := by
  obtain ⟨_, hv, hal, r, e, hr, hleaf, hf⟩ := h.pages.mappings t i f id v rights hh
  obtain ⟨s, hs, rfl⟩ := Kernel.rootOf_some.mp hr
  refine ⟨hal, s, hs, ?_⟩
  rw [h.toPhysical_of_leaf (.inr ⟨id, hs⟩) (user_canonical _ hv)
    (.inr (rootIndex_user _ hv)) hleaf, hf, pageOffset_eq]
  simp only [FRAME_SIZE] at hal
  rw [hal, Nat.add_zero]

/-- Address spaces stay where they are. -/
theorem run_spaces {L₀ : Layout} (h : KInv B L₀ k₀) {as : List Action} {trace : List Completion}
    (hr : run as k₀ = some (k, trace)) {id : ℕ} {s : AddressSpace}
    (hs : k₀.spaces.get id = some s) : k.spaces.get id = some s := by
  obtain ⟨_, _, hkept⟩ := run_keeps (Q := fun k => k.spaces.get id = some s) h
    (fun h hstep hs => by
      obtain ⟨⟨_, _, _, _, hothers, _⟩, _⟩ := step_spec h hstep
      exact hothers.spaces id s hs) hr hs
  exact hkept

/-- A page of the boot is still mapped as it was when the first task started. -/
theorem boot_page {L₀ : Layout} (h₀ : KInv B L₀ k₀) (h : KInv B L k) {as : List Action}
    {trace : List Completion} (hr : run as k₀ = some (k, trace)) {id va : ℕ} {s : AddressSpace}
    (hs : k.spaces.get id = some s) (hroot : s.root.frame = B.root) (hva : va < USER_SPACE_END)
    {e : Word} (hb : B.entry (alignDownToFrame va) = some e) :
    k₀.spaces.get id = some s ∧ s.Maps k₀.machine.mem va (entryFrame k.machine.paging e) := by
  obtain ⟨id₀, hid₀⟩ := h₀.res.spaces.boot
  obtain ⟨s₀, hs₀, hroot₀⟩ := Kernel.rootOf_some.mp hid₀
  have hs₁ := run_spaces h₀ hr hs₀
  have hsame : s₀ = s := h.res.live_ext (.inr ⟨id₀, hs₁⟩) (.inr ⟨id, hs⟩) (hroot₀.trans hroot.symm)
  subst hsame
  have hid : id₀ = id := h.res.spaces.inj id₀ id B.root
    (Kernel.rootOf_some.mpr ⟨s₀, hs₁, hroot⟩) (Kernel.rootOf_some.mpr ⟨s₀, hs, hroot⟩)
  subst hid
  have hpaging : k.machine.paging = k₀.machine.paging := by
    have h₁ := congrArg PageTable.config (h.res.live (.inr ⟨id₀, hs⟩)).root
    have h₂ := congrArg PageTable.config (h₀.res.live (.inr ⟨id₀, hs₀⟩)).root
    exact h₁.symm.trans h₂
  obtain ⟨_, _, hleaf, _⟩ := h₀.res.pages.boot _ e hb
  rw [← hroot, pagePath_alignDown] at hleaf
  refine ⟨hs₀, _, h₀.res.toPhysical_of_leaf (.inr ⟨id₀, hs₀⟩) (user_canonical _ hva)
    (.inr (rootIndex_user _ hva)) hleaf, ?_⟩
  rw [hpaging, pageOffset_eq, startAddress, FRAME_SIZE]
  omega

/-- Two user pages with the same frame are the same page. -/
theorem ResInv.maps_once (h : ResInv B L k) {id id' va va' f : ℕ} {s s' : AddressSpace}
    (hs : k.spaces.get id = some s) (hs' : k.spaces.get id' = some s') (hva : va < 2 ^ 63)
    (hva' : va' < 2 ^ 63) (hm : s.Maps k.machine.mem va f) (hm' : s'.Maps k.machine.mem va' f) :
    id = id' ∧ alignDownToFrame va = alignDownToFrame va' := by
  have hid : ∀ {i i' : ℕ} {x x' : AddressSpace} {r : ℕ}, k.spaces.get i = some x →
      k.spaces.get i' = some x' → x.root.frame = r → x'.root.frame = r → i = i' :=
    fun hx hx' hr hr' => h.spaces.inj _ _ _ (Kernel.rootOf_some.mpr ⟨_, hx, hr⟩)
      (Kernel.rootOf_some.mpr ⟨_, hx', hr'⟩)
  obtain ⟨_, _, e, _, he, hwho⟩ := h.user_maps (.inr ⟨id, hs⟩) hva hm
  obtain ⟨_, _, e', _, he', hwho'⟩ := h.user_maps (.inr ⟨id', hs'⟩) hva' hm'
  generalize alignDownToFrame va = v at hwho ⊢
  generalize alignDownToFrame va' = v' at hwho' ⊢
  rcases hwho with ⟨t, i, j, rights, hh, hj⟩ | ⟨hr, hb⟩
  · rw [he] at hh
    have hrole := (h.pages.mappings _ _ _ _ _ _ hh).1
    rcases hwho' with ⟨t', i', j', rights', hh', hj'⟩ | ⟨hr', hb'⟩
    · rw [he'] at hh'
      have hrole' := (h.pages.mappings _ _ _ _ _ _ hh').1
      rw [hrole] at hrole'
      cases hrole'
      rw [hh] at hh'
      cases hh'
      rw [hj] at hj'
      exact ⟨hid hs hs' rfl (Option.some.inj hj').symm, rfl⟩
    · rcases (h.pages.boot _ _ hb').2.2.2 with hrole' | hrole' <;>
      · rw [he', hrole] at hrole'
        cases hrole'
  · rcases hwho' with ⟨t', i', j', rights', hh', hj'⟩ | ⟨hr', hb'⟩
    · rw [he'] at hh'
      have hrole' := (h.pages.mappings _ _ _ _ _ _ hh').1
      rcases (h.pages.boot _ _ hb).2.2.2 with hrole | hrole <;>
      · rw [he, hrole'] at hrole
        cases hrole
    · refine ⟨hid hs hs' hr hr', ?_⟩
      have hrole := (h.pages.boot _ _ hb).2.2.2
      have hrole' := (h.pages.boot _ _ hb').2.2.2
      rw [he] at hrole
      rw [he'] at hrole'
      rcases hrole with hrole | hrole <;> rw [hrole] at hrole'
      · rcases hrole' with hrole' | hrole' <;> cases hrole'
        rfl
      · rcases hrole' with hrole' | hrole' <;> cases hrole'
        rfl

/-- Mapping handles and user pages correspond, in every reachable state. -/
theorem mapping_handles (as : List Action) (hok : b.Ok) {trace : List Completion}
    (hk₀ : b.started = some k₀) (hr : run as k₀ = some (k, trace)) : MappingHandles k₀ k := by
  obtain ⟨B, L₀, _, _, _, hbooted⟩ := kernelMain_booted hok hk₀
  have h₀ := hbooted.inv
  obtain ⟨L, h⟩ := run_inv h₀ hr
  constructor
  · intro t i f id v rights hh
    exact h.res.mapped hh
  · intro id s va f hs hva hm
    obtain ⟨_, hlt, e, _, he, hwho⟩ := h.res.user_maps (.inr ⟨id, hs⟩) hva hm
    rcases hwho with ⟨t, i, id', rights, hh, hid'⟩ | ⟨hroot, hb⟩
    · right
      have hid : id' = id := h.res.spaces.inj id' id s.root.frame hid'
        (Kernel.rootOf_some.mpr ⟨s, hs, rfl⟩)
      rw [he, hid] at hh
      refine ⟨(t, i), ⟨rights, hh⟩, ?_⟩
      rintro ⟨t', i'⟩ ⟨rights', hh'⟩
      have hrole := (h.res.pages.mappings _ _ _ _ _ _ hh).1
      rw [(h.res.pages.mappings _ _ _ _ _ _ hh').1] at hrole
      cases hrole
      rfl
    · left
      rw [← he]
      refine boot_page h₀ h hr hs hroot ?_ hb
      simp only [alignDownToFrame, FRAME_SIZE, USER_SPACE_END] at hlt ⊢
      omega
  · intro s va f hs hva hm
    have hkind := (h.res.user_maps (.inl hs) hva hm).1
    rw [h.res.spaces.kernel] at hs
    cases hs
    cases hkind
  · intro id id' s s' va va' f hs hs' hva hva' hm hm'
    exact h.res.maps_once hs hs' hva hva' hm hm'
  · intro a k' done t i f id v rights hstep hcur hh
    obtain ⟨⟨L', h', _, _, hothers, _⟩, _⟩ := step_spec h hstep
    have hh' := hothers.handles t i _ hcur hh
    exact ⟨hh', (h'.res.mapped hh').2⟩

theorem mapping_handles_small : ∃ k₀ k trace, (smallBoot [0x700000]).started = some k₀ ∧
    run tour k₀ = some (k, trace) ∧ Toured k ∧ MappingHandles k₀ k := by
  obtain ⟨k₀, k, trace, hk₀, hr, htoured⟩ := tour_spec
  exact ⟨k₀, k, trace, hk₀, hr, htoured, mapping_handles tour (smallBoot_ok [0x700000]) hk₀ hr⟩

end Mappings

section Handles

/-- The handles of `dusk-sys` that a task finds in place. -/
def SELF_AS : ℕ := 0

def SELF_THREAD : ℕ := 1

/-- Handles name what exists, and the first two handles of a task are its own. -/
structure HandleTargets (k : Kernel) : Prop where
  spaces : ∀ t h id rights, k.handleAt t h = some ⟨.addressSpace id, rights⟩ →
    (k.spaces.get id).isSome = true
  mappings : ∀ t h f id v rights, k.handleAt t h = some ⟨.mapping f id v, rights⟩ →
    (k.spaces.get id).isSome = true
  threads : ∀ t h id rights, k.handleAt t h = some ⟨.thread id, rights⟩ →
    (k.sched.tasks.get id).isSome = true
  homes : ∀ t task, k.sched.tasks.get t = some task → (k.spaces.get task.asId).isSome = true
  selfAs : ∀ t task, k.sched.tasks.get t = some task →
    (task.handles.get SELF_AS).map Handle.object = some (.addressSpace task.asId)
  selfThread : ∀ t task, k.sched.tasks.get t = some task →
    (task.handles.get SELF_THREAD).map Handle.object = some (.thread task.id)

theorem spaces_isSome {id : ℕ} (h : ∃ r, k.rootOf id = some r) :
    (k.spaces.get id).isSome = true := by
  obtain ⟨r, hr⟩ := h
  obtain ⟨s, hs, _⟩ := Kernel.rootOf_some.mp hr
  rw [hs]
  rfl

theorem handle_targets (hok : b.Ok) (hk : Reachable b k) : HandleTargets k := by
  obtain ⟨B, L, h⟩ := hk.inv hok
  have hself : ∀ t task i, k.sched.tasks.get t = some task →
      k.handleAt t i = task.handles.get i := by
    intro t task i ht
    rw [Kernel.handleAt, ht]
    rfl
  constructor
  · intro t i id rights hh
    exact spaces_isSome (h.res.pages.names t i id rights hh)
  · intro t i f id v rights hh
    obtain ⟨_, _, _, r, _, hr, _⟩ := h.res.pages.mappings t i f id v rights hh
    exact spaces_isSome ⟨r, hr⟩
  · intro t i id rights hh
    obtain ⟨task, ht⟩ := h.handles.threads t i id rights hh
    rw [ht]
    rfl
  · intro t task ht
    exact spaces_isSome (h.tasks.homes t task ht)
  · intro t task ht
    rw [← hself t task _ ht, SELF_AS, (h.handles.self t task ht).1]
    rfl
  · intro t task ht
    rw [← hself t task _ ht, SELF_THREAD, (h.handles.self t task ht).2,
      h.tasks.sched.ids t task ht]
    rfl

theorem handle_targets_small :
    ∃ k, Reachable (smallBoot [0x700000]) k ∧ Toured k ∧ HandleTargets k := by
  obtain ⟨k, hk, htoured⟩ := tour_reachable
  exact ⟨k, hk, htoured, handle_targets (smallBoot_ok [0x700000]) hk⟩

end Handles

end Dusk
