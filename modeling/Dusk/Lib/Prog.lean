import Mathlib.Tactic

/-! Programs over a state that either finish with a value or stop early with a
reason, and the total-correctness judgment used for them. `Sat p s Q E` says
that `p`, started in `s`, finishes in a state satisfying `Q` or stops for a
reason satisfying `E`; with `E` constantly false it says that `p` never stops. -/

namespace Lib

/-- How a program ends; the state is kept also when it stops early. -/
inductive Outcome (σ ε α : Type) where
  | ok (a : α) (s : σ)
  | stop (e : ε) (s : σ)

def Prog (σ ε α : Type) := σ → Outcome σ ε α

namespace Prog

variable {σ τ ε ε' α β γ : Type}

def pure (a : α) : Prog σ ε α := fun s => .ok a s

def bind (p : Prog σ ε α) (f : α → Prog σ ε β) : Prog σ ε β := fun s =>
  match p s with
  | .ok a s' => f a s'
  | .stop e s' => .stop e s'

instance : Monad (Prog σ ε) where
  pure := Prog.pure
  bind := Prog.bind

def get : Prog σ ε σ := fun s => .ok s s

def gets (f : σ → α) : Prog σ ε α := fun s => .ok (f s) s

def modify (f : σ → σ) : Prog σ ε Unit := fun s => .ok () (f s)

def stop (e : ε) : Prog σ ε α := fun s => .stop e s

/-- `expect`: the value of an option, or the stop `e`. -/
def expect (e : ε) : Option α → Prog σ ε α
  | some a => Prog.pure a
  | none => Prog.stop e

/-- `assert!`. -/
def assert (e : ε) (b : Bool) : Prog σ ε Unit := if b then Prog.pure () else Prog.stop e

/-- Run a program on a component of a larger state, renaming its stops. -/
def zoom (view : σ → τ) (put : τ → σ → σ) (name : ε → ε') (p : Prog τ ε α) : Prog σ ε' α :=
  fun s => match p (view s) with
    | .ok a t => .ok a (put t s)
    | .stop e t => .stop (name e) (put t s)

/-- Handle some stops: where `handler` answers, the program finishes with that answer. -/
def catching (handler : ε → Option α) (p : Prog σ ε α) : Prog σ ε α := fun s =>
  match p s with
  | .ok a s' => .ok a s'
  | .stop e s' => match handler e with
    | some a => .ok a s'
    | none => .stop e s'

/-- The program finishes in `Q` or stops in `E`. -/
def Sat (p : Prog σ ε α) (s : σ) (Q : α → σ → Prop) (E : ε → σ → Prop) : Prop :=
  match p s with
  | .ok a s' => Q a s'
  | .stop e s' => E e s'

/-- No stop is allowed. -/
def never : ε → σ → Prop := fun _ _ => False

variable {s : σ} {Q Q' : α → σ → Prop} {E E' : ε → σ → Prop}

theorem Sat.mono {p : Prog σ ε α} (h : p.Sat s Q E) (hQ : ∀ a s', Q a s' → Q' a s')
    (hE : ∀ e s', E e s' → E' e s') : p.Sat s Q' E' := by
  unfold Sat at *
  cases hp : p s with
  | ok a s' => rw [hp] at h; exact hQ a s' h
  | stop e s' => rw [hp] at h; exact hE e s' h

/-- The consequence rule for programs that never stop. -/
theorem Sat.next {p : Prog σ ε α} (h : p.Sat s Q never) (hQ : ∀ a s', Q a s' → Q' a s') :
    p.Sat s Q' E :=
  h.mono hQ (fun _ _ hf => hf.elim)

theorem Sat.and {p : Prog σ ε α} (h : p.Sat s Q E) (h' : p.Sat s Q' E') :
    p.Sat s (fun a s' => Q a s' ∧ Q' a s') (fun e s' => E e s' ∧ E' e s') := by
  unfold Sat at *
  cases hp : p s with
  | ok a s' => rw [hp] at h h'; exact ⟨h, h'⟩
  | stop e s' => rw [hp] at h h'; exact ⟨h, h'⟩

theorem sat_iff {p : Prog σ ε α} :
    p.Sat s Q E ↔ (∀ a s', p s = .ok a s' → Q a s') ∧ (∀ e s', p s = .stop e s' → E e s') := by
  unfold Sat
  cases hp : p s with
  | ok a s' => simp
  | stop e s' => simp

theorem Sat.of_ok {p : Prog σ ε α} {a : α} {s' : σ} (h : p.Sat s Q E) (hp : p s = .ok a s') :
    Q a s' := (sat_iff.mp h).1 a s' hp

theorem Sat.of_stop {p : Prog σ ε α} {e : ε} {s' : σ} (h : p.Sat s Q E)
    (hp : p s = .stop e s') : E e s' := (sat_iff.mp h).2 e s' hp

/-- The result can be named while the program is run. -/
theorem Sat.recall {p : Prog σ ε α} (h : p.Sat s (fun a s' => p s = .ok a s' → Q a s') E) :
    p.Sat s Q E :=
  sat_iff.mpr ⟨fun _ _ hp => h.of_ok hp hp, fun _ _ hp => h.of_stop hp⟩

/-- A program that never stops finishes. -/
theorem Sat.finishes {p : Prog σ ε α} (h : p.Sat s Q never) : ∃ a s', p s = .ok a s' ∧ Q a s' := by
  unfold Sat at h
  cases hp : p s with
  | ok a s' => rw [hp] at h; exact ⟨a, s', rfl, h⟩
  | stop e s' => rw [hp] at h; exact h.elim

theorem sat_of_ok {p : Prog σ ε α} {a : α} {s' : σ} (hp : p s = .ok a s') :
    p.Sat s Q E ↔ Q a s' := by
  rw [Sat, hp]

theorem sat_of_stop {p : Prog σ ε α} {e : ε} {s' : σ} (hp : p s = .stop e s') :
    p.Sat s Q E ↔ E e s' := by
  rw [Sat, hp]

/-- Where every outcome is allowed, there is nothing to show. -/
theorem sat_any (p : Prog σ ε α) (hQ : ∀ a s', Q a s') (hE : ∀ e s', E e s') : p.Sat s Q E :=
  sat_iff.mpr ⟨fun a s' _ => hQ a s', fun e s' _ => hE e s'⟩

@[simp] theorem sat_pure (a : α) : (Pure.pure a : Prog σ ε α).Sat s Q E ↔ Q a s := Iff.rfl

@[simp] theorem sat_bind (p : Prog σ ε α) (f : α → Prog σ ε β) {R : β → σ → Prop} :
    (p >>= f).Sat s R E ↔ p.Sat s (fun a s' => (f a).Sat s' R E) E := by
  change (Prog.bind p f).Sat s R E ↔ _
  unfold Sat Prog.bind
  cases p s <;> rfl

@[simp] theorem sat_get {Q : σ → σ → Prop} : (get : Prog σ ε σ).Sat s Q E ↔ Q s s := Iff.rfl

@[simp] theorem sat_gets (f : σ → α) : (gets f : Prog σ ε α).Sat s Q E ↔ Q (f s) s := Iff.rfl

@[simp] theorem sat_modify (f : σ → σ) {Q : Unit → σ → Prop} :
    (modify f : Prog σ ε Unit).Sat s Q E ↔ Q () (f s) := Iff.rfl

@[simp] theorem sat_stop (e : ε) : (stop e : Prog σ ε α).Sat s Q E ↔ E e s := Iff.rfl

@[simp] theorem sat_expect_some (e : ε) (a : α) :
    (expect e (some a) : Prog σ ε α).Sat s Q E ↔ Q a s := Iff.rfl

@[simp] theorem sat_expect_none (e : ε) :
    (expect e (none : Option α) : Prog σ ε α).Sat s Q E ↔ E e s := Iff.rfl

@[simp] theorem sat_assert (e : ε) (b : Bool) {Q : Unit → σ → Prop} :
    (assert e b : Prog σ ε Unit).Sat s Q E ↔ if b then Q () s else E e s := by
  cases b <;> exact Iff.rfl

theorem sat_ite {c : Prop} [Decidable c] (p q : Prog σ ε α) :
    (if c then p else q).Sat s Q E ↔ (c → p.Sat s Q E) ∧ (¬ c → q.Sat s Q E) := by
  by_cases h : c <;> simp [h]

@[simp] theorem sat_zoom (view : σ → τ) (put : τ → σ → σ) (name : ε' → ε) (p : Prog τ ε' α) :
    (zoom view put name p).Sat s Q E ↔
      p.Sat (view s) (fun a t => Q a (put t s)) (fun e t => E (name e) (put t s)) := by
  unfold Sat zoom
  cases p (view s) <;> rfl

@[simp] theorem sat_catching (handler : ε → Option α) (p : Prog σ ε α) :
    (catching handler p).Sat s Q E ↔
      p.Sat s Q (fun e s' => match handler e with | some a => Q a s' | none => E e s') := by
  unfold Sat catching
  cases p s with
  | ok a s' => rfl
  | stop e s' => dsimp only; cases handler e <;> rfl

end Prog

end Lib
