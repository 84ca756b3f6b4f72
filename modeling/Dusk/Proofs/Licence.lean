import Dusk.Lib.Keeps
import Dusk.Model.Scheduler

/-! The pieces of `task/scheduler.rs` between the queue operations: they edit the tasks and
the machine, and may panic. -/

namespace Dusk

open Lib Lib.Prog Scheduler

/-- A licence to edit the tasks and the machine, and to panic. -/
structure Edits (L : Licence Kernel Stop) : Prop where
  panicked : ∀ p, L.E (.panicked p)
  tasks : ∀ k tasks, L.R k { k with sched := { k.sched with tasks } }
  machine : ∀ k m, L.R k { k with machine := m }
  pending : ∀ k pending, L.R k { k with pending }

namespace Edits

variable {L : Licence Kernel Stop} (h : Edits L)

include h

theorem onMachine {α : Type} (p : MM α) : Keeps L (onMachine p) :=
  keeps_zoom (fun k m => h.machine k m) (fun _ => h.panicked _) p

theorem currentTask : Keeps L currentTask :=
  keeps_get.bind fun _ => keeps_expect (h.panicked _) _

theorem unwrapTask (id : ℕ) : Keeps L (unwrapTask id) := by
  refine keeps_get.bind fun k => ?_
  split
  · exact keeps_expect (h.panicked _) _
  · exact keeps_stop (h.panicked _)

theorem setTask (id : ℕ) (t : Option Tcb) : Keeps L (setTask id t) :=
  keeps_modify fun k => h.tasks k _

theorem setState (id : ℕ) (state : ThreadState) : Keeps L (setState id state) :=
  (h.unwrapTask id).bind fun _ => h.setTask _ _

theorem perform (s : Switch) : Keeps L s.perform := by
  refine keeps_get.bind fun k => ?_
  have hlast : ∀ m : Machine → Machine,
      Keeps L (Dusk.onMachine (Prog.modify m) >>= fun _ =>
        Prog.modify fun k => { k with pending := some s.nextContext }) :=
    fun m => (h.onMachine _).bind fun _ => keeps_modify fun k => h.pending k _
  dsimp only
  split
  · split
    · exact hlast _
    · exact (h.onMachine _).bind fun _ => hlast _
  · exact hlast _

theorem makeSwitch (currentId nextId : ℕ) (saved : ThreadContext) :
    Keeps L (makeSwitch currentId nextId saved) :=
  (keeps_assert (h.panicked _) _).bind fun _ => (h.unwrapTask _).bind fun _ =>
    (h.setTask _ _).bind fun _ => (h.unwrapTask _).bind fun _ => keeps_pure _

end Edits

end Dusk
