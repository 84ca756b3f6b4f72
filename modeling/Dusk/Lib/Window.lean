import Dusk.Lib.Prog

/-! A device whose registers are reached through a select register and a data window. Some
bits of a register are the device's own, and a write leaves them alone. The states of the
device after each access are kept. -/

namespace Lib

structure Window (ι : Type) (w : ℕ) where
  selected : ι
  register : ι → BitVec w

/-- The device on its bus, with its states after the accesses so far. -/
structure Bus (ι : Type) (w : ℕ) where
  device : Window ι w
  seen : List (Window ι w)

/-- The device goes into a new state. -/
def Bus.add {ι : Type} {w : ℕ} (b : Bus ι w) (d : Window ι w) : Bus ι w := ⟨d, b.seen ++ [d]⟩

section Shown

variable {ι : Type} {w : ℕ} {P : Window ι w → Prop} {b b' : Bus ι w}

/-- Since `b`, the device has been seen in states with `P` only. -/
def Bus.Shown (P : Window ι w → Prop) (b b' : Bus ι w) : Prop :=
  ∃ new, b'.seen = b.seen ++ new ∧ ∀ d ∈ new, P d

theorem Bus.shown_refl : b.Shown P b := ⟨[], (List.append_nil _).symm, List.forall_mem_nil _⟩

theorem Bus.Shown.add (h : b.Shown P b') {d : Window ι w} (hd : P d) : b.Shown P (b'.add d) := by
  obtain ⟨new, hnew, hall⟩ := h
  refine ⟨new ++ [d], by rw [Bus.add, hnew, List.append_assoc], fun d' hd' => ?_⟩
  rcases List.mem_append.mp hd' with hd' | hd'
  · exact hall d' hd'
  · rw [List.mem_singleton.mp hd']
    exact hd

theorem Bus.Shown.mono {P' : Window ι w → Prop} (h : b.Shown P b') (hP : ∀ d, P d → P' d) :
    b.Shown P' b' := by
  obtain ⟨new, hnew, hall⟩ := h
  exact ⟨new, hnew, fun d hd => hP d (hall d hd)⟩

theorem Bus.Shown.trans {b'' : Bus ι w} (h : b.Shown P b') (h' : b'.Shown P b'') :
    b.Shown P b'' := by
  obtain ⟨new, hnew, hall⟩ := h
  obtain ⟨new', hnew', hall'⟩ := h'
  refine ⟨new ++ new', by rw [hnew', hnew, List.append_assoc], fun d hd => ?_⟩
  exact (List.mem_append.mp hd).elim (hall d) (hall' d)

/-- The device has these registers now, and since `b` it has been seen in states with `P`
only. -/
structure Bus.At (P : Window ι w → Prop) (b : Bus ι w) (regs : ι → BitVec w) (b' : Bus ι w) :
    Prop where
  registers : b'.device.register = regs
  shown : b.Shown P b'

end Shown

namespace Window

variable {ι ε : Type} {w : ℕ}

/-- What a register holds after `v` is written to it. -/
def merge (own : ι → BitVec w) (r : ι) (old v : BitVec w) : BitVec w :=
  (old &&& own r) ||| (v &&& ~~~own r)

/-- The registers after `v` has been written to one of them. -/
def store [DecidableEq ι] (own : ι → BitVec w) (regs : ι → BitVec w) (r : ι) (v : BitVec w) :
    ι → BitVec w := Function.update regs r (merge own r (regs r) v)

def access (f : Window ι w → Window ι w) : Prog (Bus ι w) ε Unit :=
  Prog.modify fun b => b.add (f b.device)

/-- Select a register and read it. -/
def read (r : ι) : Prog (Bus ι w) ε (BitVec w) := do
  access fun d => { d with selected := r }
  let b ← Prog.get
  pure (b.device.register b.device.selected)

/-- Select a register and write it. -/
def write [DecidableEq ι] (own : ι → BitVec w) (r : ι) (v : BitVec w) : Prog (Bus ι w) ε Unit := do
  access fun d => { d with selected := r }
  access fun d => { d with register := store own d.register d.selected v }

variable {own : ι → BitVec w}

section Rules

variable {P : Window ι w → Prop} {b b' : Bus ι w} {regs : ι → BitVec w} {r : ι}

theorem read_sat {Q : BitVec w → Bus ι w → Prop} {E : ε → Bus ι w → Prop} (h : b.At P regs b')
    (hselect : P ⟨r, regs⟩) (hQ : ∀ b'', b.At P regs b'' → Q (regs r) b'') :
    (read r : Prog (Bus ι w) ε (BitVec w)).Sat b' Q E := by
  obtain ⟨rfl, hshown⟩ := h
  exact hQ _ ⟨rfl, hshown.add hselect⟩

theorem write_sat [DecidableEq ι] {Q : Unit → Bus ι w → Prop} {E : ε → Bus ι w → Prop}
    {v : BitVec w} (h : b.At P regs b') (hselect : P ⟨r, regs⟩)
    (hstore : P ⟨r, store own regs r v⟩) (hQ : ∀ b'', b.At P (store own regs r v) b'' → Q () b'') :
    (write own r v : Prog (Bus ι w) ε Unit).Sat b' Q E := by
  obtain ⟨rfl, hshown⟩ := h
  exact hQ _ ⟨rfl, (hshown.add hselect).add hstore⟩

end Rules

/-- A bit of the driver. -/
theorem merge_free {r : ι} {old v : BitVec w} {i : ℕ} (hi : i < w)
    (h : (own r).getLsbD i = false) : (merge own r old v).getLsbD i = v.getLsbD i := by
  rw [merge, BitVec.getLsbD_or, BitVec.getLsbD_and, BitVec.getLsbD_and, BitVec.getLsbD_not, h,
    decide_eq_true hi]
  simp

end Window

end Lib
