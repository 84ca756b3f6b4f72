import Dusk.Proofs.Views

/-! Messages: what a task has received and what still waits for it is what has been
sent to it, in order; and no task waits for a message that is there. -/

namespace Dusk

open Lib

variable {b : BootInfo} {B : BootPages} {L : Layout} {k k' k₀ : Kernel} {R : ℕ}

section Delivery

/-- The buffers of a `sys_recv`. -/
def Call.recvArgs : Call → Option RecvArgs
  | .syscall a => if SyscallNumber.tryFrom a.num.toNat = some .recv then some a.recvArgs else none
  | .recv args => some args

namespace Completion

/-- The message of a successful `sys_send` to `R`: what the sender's buffer held. -/
def sent (R : ℕ) (c : Completion) : Option Message :=
  match c.call with
  | .syscall a =>
    if c.code = 0 ∧ SyscallNumber.tryFrom a.num.toNat = some .send ∧ a.arg0.toNat = R then
      some (c.before.outgoing c.task a.arg1.toNat a.arg2.toNat)
    else none
  | .recv _ => none

/-- The message that a successful `sys_recv` of `R` has consumed. -/
def received (R : ℕ) (c : Completion) : Option Message :=
  if c.code = 0 ∧ c.call.recvArgs.isSome ∧ c.task = R then (c.before.mailOf R).head? else none

end Completion

/-- The mail of a run from `k₀` to `k`. -/
structure MailExact (k₀ : Kernel) (trace : List Completion) (k : Kernel) : Prop where
  /-- What has been received, then what is waiting, is what has been sent. -/
  order : ∀ R, trace.filterMap (Completion.received R) ++ k.mailOf R =
    trace.filterMap (Completion.sent R)
  /-- A message has its sender, and the bytes the sender's buffer held. -/
  sends : ∀ c ∈ trace, ∀ a, c.call = .syscall a → ∀ R msg, c.sent R = some msg →
    msg.sender = c.task ∧ msg.length = a.arg2.toNat ∧
    c.before.machine.loadBytes a.arg1.toNat a.arg2.toNat = some msg.payload
  /-- A delivery reports sender and length, and copies what fits. -/
  deliveries : ∀ c ∈ trace, ∀ args msg, c.call.recvArgs = some args →
    c.received c.task = some msg → args.Separate →
    c.after.machine.loadBytes args.outPtr (min msg.length args.maxLen) =
      some (msg.payload.take args.maxLen) ∧
    c.after.machine.loadBytes args.outActualLen 8 = some (usizeBytes msg.length) ∧
    c.after.machine.loadBytes args.outSender 8 = some (usizeBytes msg.sender)
  /-- A successful `sys_recv` has consumed a message. -/
  consumed : ∀ c ∈ trace, c.code = 0 → c.call.recvArgs.isSome → (c.received c.task).isSome
  /-- A call that fails moves no message. -/
  failures : ∀ c ∈ trace, c.code ≠ 0 → ∀ t, c.after.mailOf t = c.before.mailOf t

theorem Completion.sent_eq {c : Completion} {a : SyscallArgs} (ha : c.call = .syscall a)
    {msg : Message} (hs : c.sent R = some msg) :
    c.code = 0 ∧ SyscallNumber.tryFrom a.num.toNat = some .send ∧ a.arg0.toNat = R ∧
      msg = c.before.outgoing c.task a.arg1.toNat a.arg2.toNat := by
  rw [Completion.sent, ha] at hs
  simp only at hs
  split_ifs at hs with hc
  exact ⟨hc.1, hc.2.1, hc.2.2, (Option.some.inj hs).symm⟩

theorem outgoing_payload {sender ptr len : ℕ}
    (h : (k.machine.loadBytes ptr len).map List.length = some len) :
    k.machine.loadBytes ptr len = some (k.outgoing sender ptr len).payload := by
  obtain ⟨bytes, hload, hlen⟩ := Option.map_eq_some_iff.mp h
  rw [Kernel.outgoing, Message.payload, hload]
  refine congrArg some (List.ext_getElem (by simp [hlen]) fun i hi _ => ?_)
  simp [hi]

/-- What `step_spec` says of a completed call. -/
structure Completion.Sound (c : Completion) : Prop where
  current : c.before.sched.current = some c.task
  returned : c.call.Returned c.code c.before c.after

namespace Completion.Sound

variable {c : Completion}

/-- A successful receive, whether it has waited or not. -/
theorem recv (h : c.Sound) (hcode : c.code = 0) {args : RecvArgs}
    (hargs : c.call.recvArgs = some args) :
    ∃ msg, Received c.before args c.task msg c.after := by
  have hdel := h.returned.delivered hcode
  obtain ⟨cur, msg, hrec⟩ : ∃ cur msg, Received c.before args cur msg c.after := by
    cases hcall : c.call with
    | syscall a =>
      rw [hcall, Call.recvArgs] at hargs
      split_ifs at hargs with hnum
      rw [hcall, Call.Delivered] at hdel
      simp only [hnum] at hdel
      cases hargs
      exact hdel
    | recv args' =>
      rw [hcall] at hargs hdel
      cases hargs
      exact hdel
  have hcur := hrec.current
  rw [h.current, Option.some_inj] at hcur
  subst hcur
  exact ⟨msg, hrec⟩

/-- One call, seen from the mail of `R`. -/
theorem order (h : c.Sound) (R : ℕ) :
    (c.received R).toList ++ c.after.mailOf R = c.before.mailOf R ++ (c.sent R).toList := by
  by_cases hcode : c.code = 0
  swap
  · have hr : c.received R = none := if_neg fun hc => hcode hc.1
    have hs : c.sent R = none := by
      rw [Completion.sent]
      split
      · exact if_neg fun hc => hcode hc.1
      · rfl
    rw [hr, hs, h.returned.refused hcode R]
    simp
  cases hargs : c.call.recvArgs with
  | some args =>
    obtain ⟨msg, hrec⟩ := h.recv hcode hargs
    obtain ⟨rest, hmail, hafter⟩ := hrec.mail
    have hs : c.sent R = none := by
      rw [Completion.sent]
      split
      next a ha =>
        refine if_neg fun hc => ?_
        rw [ha, Call.recvArgs, hc.2.1] at hargs
        cases hargs
      next => rfl
    rw [hs, hafter R, Completion.received]
    by_cases hR : R = c.task
    · subst hR
      simp [hcode, hargs, hmail]
    · simp [hR, Ne.symm hR]
  | none =>
    have hr : c.received R = none := if_neg fun hc => by simp [hargs] at hc
    rw [hr]
    have hdel := h.returned.delivered hcode
    cases hcall : c.call with
    | recv args => rw [hcall] at hargs; cases hargs
    | syscall a =>
      rw [hcall, Call.Delivered] at hdel
      rw [Completion.sent, hcall]
      simp only
      by_cases hsend : SyscallNumber.tryFrom a.num.toNat = some .send
      · rw [hsend] at hdel
        obtain ⟨sender, hcur, _, hafter⟩ := hdel
        rw [h.current, Option.some_inj] at hcur
        subst hcur
        rw [hafter R]
        by_cases hR : R = a.arg0.toNat
        · subst hR
          simp [hcode, hsend]
        · simp [hR, Ne.symm hR]
      · have hrecv : SyscallNumber.tryFrom a.num.toNat ≠ some .recv := by
          intro hrecv
          rw [hcall, Call.recvArgs, if_pos hrecv] at hargs
          cases hargs
        rw [if_neg fun hc => hsend hc.2.1]
        have hmail : SameMail c.before c.after := by
          split at hdel
          · exact absurd ‹_› hsend
          · exact absurd ‹_› hrecv
          · exact hdel
        simp [hmail R]

end Completion.Sound

/-- The completed calls of a run are sound, and the mail is in order. -/
theorem run_mail (h : KInv B L k₀) {as : List Action} {trace : List Completion}
    (hr : run as k₀ = some (k, trace)) :
    (∀ c ∈ trace, c.Sound) ∧ ∀ R, trace.filterMap (Completion.received R) ++ k.mailOf R =
      k₀.mailOf R ++ trace.filterMap (Completion.sent R) := by
  induction as generalizing k₀ L trace with
  | nil => cases hr; simp
  | cons a as ih =>
    rw [run] at hr
    split at hr
    next => cases hr
    next k₁ done hs =>
      obtain ⟨⟨k₂, trace₂⟩, hr', heq⟩ := Option.map_eq_some_iff.mp hr
      cases heq
      obtain ⟨⟨L₁, h₁, _⟩, hquiet, hdone⟩ := step_spec h hs
      obtain ⟨hsound, horder⟩ := ih h₁ hr'
      cases done with
      | none =>
        refine ⟨by simpa using hsound, fun R => ?_⟩
        rw [← hquiet rfl R]
        simpa using horder R
      | some c =>
        obtain ⟨rfl, rfl, hcur, hret⟩ := hdone c rfl
        have hc : c.Sound := ⟨hcur, hret⟩
        refine ⟨by simpa using ⟨hc, hsound⟩, fun R => ?_⟩
        have hone := hc.order R
        have hall := horder R
        have hcons : ∀ f : Completion → Option Message,
            ((some c).toList ++ trace₂).filterMap f = (f c).toList ++ trace₂.filterMap f := by
          intro f
          cases hf : f c <;> simp [hf]
        rw [hcons, hcons, List.append_assoc, horder R, ← List.append_assoc, hone,
          List.append_assoc]

/-- Along every run the mail is delivered in order, once and unaltered. -/
theorem mail_exact (hok : b.Ok) (hk₀ : b.started = some k₀) {as : List Action}
    {trace : List Completion} (hr : run as k₀ = some (k, trace)) : MailExact k₀ trace k := by
  obtain ⟨B, L, id, asId, t, hbooted⟩ := kernelMain_booted hok hk₀
  obtain ⟨hsound, horder⟩ := run_mail hbooted.inv hr
  constructor
  · intro R
    have hempty : k₀.mailOf R = [] := by
      rw [Kernel.mailOf, hbooted.get]
      split_ifs with hR
      · rw [Option.map_some, Option.getD_some, hbooted.mailbox, Mailbox.Ok.new.queue_length]
        rfl
      · rfl
    rw [horder R, hempty, List.nil_append]
  · intro c hc a ha R msg hs
    obtain ⟨hcode, hsend, _, rfl⟩ := Completion.sent_eq ha hs
    refine ⟨rfl, rfl, ?_⟩
    have hdel := (hsound c hc).returned.delivered hcode
    rw [ha, Call.Delivered, hsend] at hdel
    obtain ⟨_, _, hload, _⟩ := hdel
    exact outgoing_payload hload
  · intro c hc args msg hargs hrec hsep
    have hcode : c.code = 0 := by
      by_contra hcode
      rw [Completion.received, if_neg fun hc => hcode hc.1] at hrec
      cases hrec
    obtain ⟨msg', hmsg⟩ := (hsound c hc).recv hcode hargs
    have hsame : msg' = msg := by
      obtain ⟨rest, hmail, _⟩ := hmsg.mail
      rw [Completion.received, if_pos ⟨hcode, by simp [hargs], rfl⟩, hmail] at hrec
      exact Option.some.inj hrec
    subst hsame
    exact hmsg.delivered hsep
  · intro c hc hcode hsome
    obtain ⟨args, hargs⟩ := Option.isSome_iff_exists.mp hsome
    obtain ⟨msg, hmsg⟩ := (hsound c hc).recv hcode hargs
    obtain ⟨rest, hmail, _⟩ := hmsg.mail
    rw [Completion.received, if_pos ⟨hcode, hsome, rfl⟩, hmail]
    rfl
  · intro c hc hcode
    exact (hsound c hc).returned.refused hcode

/-- A task sends itself the three bytes at its entry point, and receives them. -/
def echoRun : List Action :=
  [.resume, .syscall ⟨4, 0, 0x400000, 3, 0, 0⟩,
    .syscall ⟨5, 0x7FFF_FFFF_E000, 16, 0x7FFF_FFFF_E010, 0x7FFF_FFFF_E018, 0⟩]

theorem echoRun_ends : (((smallBoot []).started.bind (run echoRun)).any fun r =>
    (r.2.filterMap (Completion.received 0)).length == 1) = true := by
  decide +kernel

theorem mail_exact_echo : ∃ k₀ k trace, (smallBoot []).started = some k₀ ∧
    run echoRun k₀ = some (k, trace) ∧ (trace.filterMap (Completion.received 0)).length = 1 ∧
    MailExact k₀ trace k := by
  obtain ⟨k₀, k, trace, hk₀, hr, hlen⟩ := run_of_any echoRun_ends
  exact ⟨k₀, k, trace, hk₀, hr, by simpa using hlen, mail_exact (smallBoot_ok []) hk₀ hr⟩

end Delivery

section WakeUps

/-- No task waits for a message that is there, and one that has been woken finds its
message. -/
structure WakeUps (k : Kernel) : Prop where
  waiting : ∀ t task, k.sched.tasks.get t = some task → task.state = .blocked .recv →
    task.mailbox.len = 0 ∧ ∃ args, task.context = .afterRecvBlock args
  woken : ∀ t task args, k.sched.tasks.get t = some task → task.state = .ready →
    task.context = .afterRecvBlock args → task.mailbox.len ≠ 0
  resumed : ∀ t task args, k.sched.current = some t → k.sched.tasks.get t = some task →
    k.pending = some (.afterRecvBlock args) → task.mailbox.len ≠ 0
  /-- A `sys_recv` does not return `NoSuchTask`. -/
  found : ∀ a k' c, step a k = some (k', some c) → c.call.recvArgs.isSome → c.code ≠ 4
  /-- At a deadlock every other task is dead or waits for a message. -/
  deadlock : ∀ (a : Action) k', a.enabled k → a.program k = .stop (.halted .deadlock) k' →
    ∀ t task, k'.sched.tasks.get t = some task → k'.sched.current ≠ some t →
      (∃ reason, task.state = .dead reason) ∨ task.state = .blocked .recv ∧ task.mailbox.len = 0

theorem TasksInv.waiting (h : TasksInv k) {t : ℕ} {task : Tcb}
    (ht : k.sched.tasks.get t = some task) (hst : task.state = .blocked .recv) :
    task.mailbox.len = 0 ∧ ∃ args, task.context = .afterRecvBlock args := by
  have hsus := h.suspended t task ht
  rw [Tcb.Suspended, hst] at hsus
  obtain ⟨⟨args, hargs, _⟩, hlen⟩ := hsus
  exact ⟨hlen, args, hargs⟩

/-- With an empty ready queue only dead and waiting tasks are left beside the current. -/
theorem TasksInv.stuck (h : TasksInv k) (hids : k.sched.ready.ids = []) {t : ℕ} {task : Tcb}
    (ht : k.sched.tasks.get t = some task) (hne : k.sched.current ≠ some t) :
    (∃ reason, task.state = .dead reason) ∨ task.state = .blocked .recv ∧ task.mailbox.len = 0 := by
  have hstate := Scheduler.stateOf_of_get ht
  cases hst : task.state with
  | ready =>
    rw [hst, ← h.sched.ready t, hids] at hstate
    cases hstate
  | running =>
    rw [hst, h.sched.running t] at hstate
    exact absurd hstate hne
  | blocked reason =>
    cases reason
    exact .inr ⟨rfl, (h.waiting ht hst).1⟩
  | dead reason => exact .inl ⟨reason, rfl⟩

theorem Call.isRecv_of_args {call : Call} (h : call.recvArgs.isSome) : call.IsRecv := by
  cases call with
  | syscall a =>
    rw [Call.recvArgs] at h
    split_ifs at h with hnum
    · exact hnum
    · cases h
  | recv args => trivial

/-- No wake-up is lost, in every reachable state. -/
theorem no_lost_wake_up (hok : b.Ok) (hk : Reachable b k) : WakeUps k := by
  obtain ⟨B, L, h⟩ := hk.inv hok
  constructor
  · intro t task ht hst
    exact h.tasks.waiting ht hst
  · intro t task args ht hst hctx
    have hsus := h.tasks.suspended t task ht
    rw [Tcb.Suspended, hst, hctx] at hsus
    exact hsus.2
  · intro t task args hcur ht hpend
    exact (h.tasks.pending _ t task hpend hcur ht).2
  · intro a k' c hs hrecv
    obtain ⟨_, _, hdone⟩ := step_spec h hs
    obtain ⟨_, _, _, hret⟩ := hdone c rfl
    exact hret.found (Call.isRecv_of_args hrecv)
  · intro a k' hen hstop t task ht hne
    obtain ⟨⟨L', h', _⟩, hids⟩ := (program_sat h hen).of_stop hstop
    exact h'.tasks.stuck hids ht hne

/-- One task waits, another has waited and has been woken. -/
theorem no_lost_wake_up_small :
    ∃ k, Reachable (smallBoot [0x700000]) k ∧ Toured k ∧ WakeUps k := by
  obtain ⟨k, hk, htoured⟩ := tour_reachable
  exact ⟨k, hk, htoured, no_lost_wake_up (smallBoot_ok [0x700000]) hk⟩

end WakeUps

end Dusk
