import Dusk.Lib.Prog

/-! Programs that relate the states before and after them by a preorder, whatever they do
in between, and programs that leave a property of the state true. -/

namespace Lib

namespace Prog

variable {σ τ ε ε' α β : Type}

/-- What programs may do: relate states by `R`, and stop as `E` says. -/
structure Licence (σ ε : Type) where
  R : σ → σ → Prop
  E : ε → Prop
  refl : ∀ s, R s s
  trans : ∀ s t u, R s t → R t u → R s u

variable {L : Licence σ ε}

/-- The program stays within the licence. -/
def Keeps (L : Licence σ ε) (p : Prog σ ε α) : Prop :=
  ∀ s, p.Sat s (fun _ s' => L.R s s') fun e _ => L.E e

theorem Keeps.bind {p : Prog σ ε α} {f : α → Prog σ ε β} (hp : Keeps L p)
    (hf : ∀ a, Keeps L (f a)) : Keeps L (p >>= f) := by
  intro s
  rw [sat_bind]
  refine (hp s).mono (fun a t hst => ?_) fun _ _ h => h
  exact (hf a t).mono (fun _ u htu => L.trans s t u hst htu) fun _ _ h => h

theorem keeps_pure (a : α) : Keeps L (pure a : Prog σ ε α) := fun s => L.refl s

theorem keeps_get : Keeps L (Prog.get : Prog σ ε σ) := fun s => L.refl s

theorem keeps_modify {f : σ → σ} (h : ∀ s, L.R s (f s)) :
    Keeps L (Prog.modify f : Prog σ ε Unit) := h

theorem keeps_stop {e : ε} (h : L.E e) : Keeps L (Prog.stop e : Prog σ ε α) := fun _ => h

theorem keeps_expect {e : ε} (h : L.E e) (o : Option α) :
    Keeps L (Prog.expect e o : Prog σ ε α) := by
  cases o with
  | none => exact keeps_stop h
  | some a => exact keeps_pure a

theorem keeps_assert {e : ε} (h : L.E e) (b : Bool) :
    Keeps L (Prog.assert e b : Prog σ ε Unit) := by
  cases b with
  | false => exact keeps_stop h
  | true => exact keeps_pure ()

theorem keeps_zoom {view : σ → τ} {put : τ → σ → σ} {name : ε' → ε} (hput : ∀ s t, L.R s (put t s))
    (hname : ∀ e, L.E (name e)) (p : Prog τ ε' α) : Keeps L (zoom view put name p) := by
  intro s
  rw [sat_zoom]
  exact sat_any p (fun _ t => hput s t) fun e _ => hname e

section Leaves

/-- From `s` the program ends where `P` is true, however it ends. -/
def Leaves (P : σ → Prop) (s : σ) (p : Prog σ ε α) : Prop := p.Sat s (fun _ => P) fun _ => P

/-- The program leaves `P` true. -/
def Stays (P : σ → Prop) (p : Prog σ ε α) : Prop := ∀ s, P s → p.Leaves P s

/-- The program only reads. -/
def Reads (p : Prog σ ε α) : Prop := ∀ P : σ → Prop, p.Stays P

variable {P : σ → Prop} {s : σ}

theorem Leaves.bind {p : Prog σ ε α} {f : α → Prog σ ε β} (hp : p.Leaves P s)
    (hf : ∀ a, (f a).Stays P) : (p >>= f).Leaves P s := by
  rw [Leaves, sat_bind]
  exact Sat.mono hp (fun a t ht => hf a t ht) fun _ _ ht => ht

theorem Stays.bind {p : Prog σ ε α} {f : α → Prog σ ε β} (hp : p.Stays P)
    (hf : ∀ a, (f a).Stays P) : (p >>= f).Stays P := fun s hs => (hp s hs).bind hf

/-- After a reading program the state is as before. -/
theorem Reads.then {p : Prog σ ε α} {f : α → Prog σ ε β} (hp : p.Reads) (hs : P s)
    (hf : ∀ a, (f a).Leaves P s) : (p >>= f).Leaves P s := by
  rw [Leaves, sat_bind]
  refine Sat.mono (hp (fun t => t = s) s rfl) ?_ ?_
  · rintro a _ rfl
    exact hf a
  · rintro _ _ rfl
    exact hs

theorem Reads.bind {p : Prog σ ε α} {f : α → Prog σ ε β} (hp : p.Reads) (hf : ∀ a, (f a).Reads) :
    (p >>= f).Reads := fun P => (hp P).bind fun a => hf a P

theorem reads_pure (a : α) : (pure a : Prog σ ε α).Reads := fun _ _ hs => hs

theorem reads_get : (Prog.get : Prog σ ε σ).Reads := fun _ _ hs => hs

theorem reads_stop (e : ε) : (Prog.stop e : Prog σ ε α).Reads := fun _ _ hs => hs

theorem reads_expect (e : ε) (o : Option α) : (Prog.expect e o : Prog σ ε α).Reads := by
  cases o with
  | none => exact reads_stop e
  | some a => exact reads_pure a

theorem reads_assert (e : ε) (b : Bool) : (Prog.assert e b : Prog σ ε Unit).Reads := by
  cases b with
  | false => exact reads_stop e
  | true => exact reads_pure ()

theorem stays_modify {f : σ → σ} (h : ∀ s, P s → P (f s)) :
    (Prog.modify f : Prog σ ε Unit).Stays P := h

theorem stays_zoom {view : σ → τ} {put : τ → σ → σ} {name : ε' → ε}
    (hput : ∀ s t, P s → P (put t s)) (p : Prog τ ε' α) : (zoom view put name p).Stays P := by
  intro s hs
  rw [Leaves, sat_zoom]
  exact sat_any p (fun _ t => hput s t hs) fun _ t => hput s t hs

theorem Leaves.catching {handler : ε → Option α} {p : Prog σ ε α} (hp : p.Leaves P s) :
    (catching handler p).Leaves P s := by
  rw [Leaves, sat_catching]
  refine Sat.mono hp (fun _ _ ht => ht) fun e t ht => ?_
  split <;> exact ht

end Leaves

end Prog

end Lib
