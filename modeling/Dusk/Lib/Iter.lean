import Mathlib.Tactic

/-! Iterators as step functions, and the items that one yields. -/

namespace Lib

variable {σ α : Type}

/-- Calling `next` from `s` on gives the items and then `none`, in state `s'`. -/
inductive Yields (next : σ → Option α × σ) : σ → List α → σ → Prop
  | done {s s' : σ} (h : next s = (none, s')) : Yields next s [] s'
  | item {s s₁ s' : σ} {a : α} {items : List α} (h : next s = (some a, s₁))
      (rest : Yields next s₁ items s') : Yields next s (a :: items) s'

/-- An iterator yields one list at most. -/
theorem Yields.unique {next : σ → Option α × σ} {s s₁ s₂ : σ} {items₁ items₂ : List α}
    (h₁ : Yields next s items₁ s₁) (h₂ : Yields next s items₂ s₂) :
    items₁ = items₂ ∧ s₁ = s₂ := by
  induction h₁ generalizing items₂ with
  | done h =>
    cases h₂ with
    | done h' => exact ⟨rfl, by rw [h] at h'; exact congrArg Prod.snd h'⟩
    | item h' _ =>
      rw [h] at h'
      cases h'
  | item h _ ih =>
    cases h₂ with
    | done h' =>
      rw [h] at h'
      cases h'
    | item h' rest =>
      rw [h] at h'
      cases h'
      obtain ⟨rfl, rfl⟩ := ih rest
      exact ⟨rfl, rfl⟩

end Lib
