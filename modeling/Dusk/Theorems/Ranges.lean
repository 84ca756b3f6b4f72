import Dusk.Proofs.Intact

/-! Ranges of pages in one address space: `map_range` maps all of a range or nothing. -/

namespace Dusk

open Lib FrameAllocator

variable {m m' : Machine} {space : AddressSpace} {physicalStart virtualStart length : ℕ}
  {permissions : PagePermissions} {cachePolicy : CachePolicy}

/-- In an address space in order `map_range` returns. Where it succeeds, the range and
nothing else has changed; where it fails, nothing has. -/
theorem map_range_all_or_nothing (ha : m.SoundAllocator) (hspace : space.root.Intact m)
    (physicalStart virtualStart length : ℕ) (permissions : PagePermissions)
    (cachePolicy : CachePolicy) :
    ∃ res m', space.mapRange physicalStart virtualStart length permissions cachePolicy m =
        .ok res m' ∧
      (res = .ok () →
        MapsExactly space physicalStart virtualStart length permissions m m') ∧
      ∀ err, res = .error err → space.Unchanged m m' := by
  obtain ⟨L, h⟩ := hspace.realm ha rfl
  have hfree : RootFree L L.kroot [] := h.rootFree trivial []
  have hsat : (space.mapRange physicalStart virtualStart length permissions cachePolicy).Sat m
      (fun res m' =>
        (res = .ok () → MapsExactly space physicalStart virtualStart length permissions m m') ∧
        ∀ err, res = .error err → space.Unchanged m m') Prog.never := by
    refine mapRange_sat h (fun i _ => ⟨absurd trivial, .inl hfree⟩) (absurd trivial) ?_ ?_
    · intro L' m' hadd hal hlen
      exact ⟨fun _ => hadd.mapsExactly h (fun hz => (hal hz).1) hlen, nofun⟩
    · intro err m' hr
      exact ⟨nofun, fun _ _ => hr.unchanged h⟩
  obtain ⟨res, m', hrun, hpost⟩ := hsat.finishes
  exact ⟨res, m', hrun, hpost⟩

/-- A range of two pages runs into a page that is mapped, and its first page is taken
back. -/
theorem map_range_all_or_nothing_small : ∃ t pt m',
    TableSession.Reached smallMap smallDirectMap (smallMachine .fourLevel) t ∧
    t.table = some pt ∧
    AddressSpace.mapRange ⟨pt, .user⟩ 0x9000 0x1000 0x2000 ⟨true, false, true⟩ .writeBack
      t.pool.machine = .ok (.error .alreadyMapped) m' ∧
    AddressSpace.Unchanged ⟨pt, .user⟩ t.pool.machine m' := by
  have hrun : (smallTable .fourLevel [.new, .map 0x2000 10 ⟨true, true, true⟩ .writeBack false]).any
      (fun t => t.table.any fun pt =>
        match AddressSpace.mapRange ⟨pt, .user⟩ 0x9000 0x1000 0x2000 ⟨true, false, true⟩ .writeBack
          t.pool.machine with
        | .ok (.error err) _ => decide (err = .alreadyMapped)
        | .ok (.ok _) _ | .stop _ _ => false) = true := by decide +kernel
  obtain ⟨t, pt, ht, hpt, htest⟩ := smallTable_some hrun
  obtain ⟨ha, hintact⟩ := ht.intact smallMap_disjoint smallMap_direct hpt
  have hspace : (AddressSpace.mk pt .user).root.Intact t.pool.machine := hintact
  obtain ⟨res, m', hres, _, herr⟩ := map_range_all_or_nothing ha hspace 0x9000 0x1000 0x2000
    ⟨true, false, true⟩ .writeBack
  rw [hres] at htest
  cases res with
  | ok u => cases htest
  | error err =>
    have herr' := of_decide_eq_true htest
    subst herr'
    exact ⟨t, pt, m', ht, hpt, hres, herr _ rfl⟩

end Dusk
