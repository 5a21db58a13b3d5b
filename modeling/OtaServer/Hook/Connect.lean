import OtaServer.Hook.DoIo

/-!
# Connecting (`connect_with_timeout` in `sherry/hook.cc`)

A fiber sets a timer, registers for `WRITE` and is suspended. The kernel makes or refuses the connection, the timer
expires, and other fibers close the descriptor, get its number for another socket and use that, in any order. The
callback of the timer may run on another thread: it tests, sets `cancelled` and cancels the event, and the call may go
on between these steps.

* `Connect`: a call and what is around it; `step?`: a step of anyone.
* `connect_safe`: what a call returns, and what it leaves behind, over every run.
-/

namespace Sherry

open Lib

/-- `EINPROGRESS`. -/
def einprogress : Nat := 115

/-- The connection, as the kernel knows it. Behind `close` the number may be that of another socket, with an error of
its own. -/
inductive ConnectLink where
  | inProgress
  | established
  | refused (errno : Nat)
  | closed
  | reopened (error : Option Nat)
  deriving DecidableEq

/-- What `connect_f` returns: 0, or -1 with `errno`. -/
def ConnectLink.ofRaw : Option Nat → ConnectLink
  | none => .established
  | some e => if e = einprogress then .inProgress else .refused e

/-- What is returned for `SO_ERROR`, which is 0 as long as nothing has failed. -/
def ConnectLink.result : ConnectLink → Option Nat
  | .inProgress | .established => none
  | .refused e => some e
  | .closed => some ebadf
  | .reopened error => error

/-- The number is no longer that of the connection. -/
def ConnectLink.isGone : ConnectLink → Bool
  | .closed | .reopened _ => true
  | _ => false

/-- Where the call is: before it, with its timer, behind `YieldToHold`, or back, with the connection at that time. -/
inductive ConnectPc where
  | start | armed | suspended
  | returned (result : Option Nat) (found : ConnectLink)
  deriving DecidableEq

/-- The call is over. -/
def ConnectPc.isReturned : ConnectPc → Bool
  | .returned _ _ => true
  | _ => false

/-- The timer, and its callback: it has tested `cancelled`, has set it, and is through. -/
inductive ConnectTimer where
  | unset | pending | tested | marked | over
  deriving DecidableEq

/-- Who has registered for `WRITE`: the call, or another one. -/
inductive ConnectWaiter where
  | call | other
  deriving DecidableEq

/-- A call of `connect_with_timeout`. -/
structure Connect where
  /-- `timeout_ms` is not -1. -/
  timed : Bool
  link : ConnectLink := .inProgress
  pc : ConnectPc := .start
  timer : ConnectTimer := .unset
  cancelled : Bool := false
  waiter : Option ConnectWaiter := none
  scheduled : Bool := false
  /-- `addEvent` has failed. -/
  unwatched : Bool := false
  /-- The callback was through before the event was registered. -/
  early : Bool := false
  /-- The callback was between its steps when the call returned. -/
  late : Bool := false
  /-- The number was that of another socket before the call returned. -/
  reused : Bool := false
  /-- The callback has cancelled the event of another call. -/
  disturbed : Bool := false

/-- A step: of the call, of the callback, of the kernel, or of another fiber. -/
inductive ConnectEvent where
  | begin (ctx : Option FdCtx) (raw : Option Nat)
  | register (ok : Bool)
  | resume
  | expire | mark | cancel
  | settle (raw : Option Nat)
  | report
  | close
  | reopen (error : Option Nat)
  | reuse

namespace Connect

/-- The event is taken out, and who waits for it is scheduled. -/
def wake (s : Connect) : Connect :=
  { s with waiter := none, scheduled := s.scheduled || s.waiter == some .call }

/-- `timer->cancel()`, and the return. -/
def finish (s : Connect) (result : Option Nat) : Connect :=
  { s with
    pc := .returned result s.link
    timer := if s.timer = .pending then .over else s.timer
    scheduled := false
    late := s.timer = .tested ∨ s.timer = .marked }

/-- The call up to `addConditionTimer`. -/
def begin (s : Connect) (ctx : Option FdCtx) (raw : Option Nat) : Connect :=
  if ctx.all (·.isClosed) then s.finish (some ebadf)
  else if ctx.any fun ctx => ctx.isSocket && !ctx.userNonblock && raw == some einprogress then
    { s with link := .inProgress, pc := .armed, timer := if s.timed then .pending else .unset }
  else { s with link := .ofRaw raw }.finish raw

/-- A step, if it is possible. `addEvent` ends the process if another fiber waits for the same event. -/
def step? (s : Connect) : ConnectEvent → Option Connect
  | .begin ctx raw => if s.pc = .start then some (s.begin ctx raw) else none
  | .register ok =>
    if s.pc = .armed ∧ s.waiter = none then
      if ok then some { s with pc := .suspended, waiter := some .call, early := s.timer = .over }
      else some ({ s with unwatched := true }.finish s.link.result)
    else none
  | .resume =>
    if s.pc = .suspended ∧ s.scheduled then
      some (s.finish (if s.cancelled then some etimedout else s.link.result))
    else none
  | .expire =>
    if s.timer = .pending then some { s with timer := if s.cancelled then .over else .tested } else none
  | .mark => if s.timer = .tested then some { s with timer := .marked, cancelled := true } else none
  | .cancel =>
    if s.timer = .marked then
      some { s.wake with timer := .over, disturbed := s.disturbed || s.waiter == some .other }
    else none
  | .settle raw =>
    if s.link = .inProgress ∧ s.pc ≠ .start ∧ raw ≠ some einprogress then some { s with link := .ofRaw raw } else none
  | .report => if s.link ≠ .inProgress then some s.wake else none
  | .close => some { s.wake with link := .closed }
  | .reopen error =>
    if s.link.isGone ∧ s.pc ≠ .start then
      some { s with link := .reopened error, reused := s.reused || !s.pc.isReturned }
    else none
  | .reuse =>
    if (s.pc.isReturned ∨ s.reused) ∧ s.waiter = none then some { s with waiter := some .other } else none

/-- What holds in every state. The fields from `start` on are for the others. -/
structure Safe (s : Connect) : Prop where
  /-- 0 is returned for a connection, or if `addEvent` has failed while there was none, or for another socket. -/
  ok : ∀ found, s.pc = .returned none found →
    found = .established ∨ found = .inProgress ∧ s.unwatched = true ∨ found = .reopened none
  /-- `ETIMEDOUT` comes from the callback, or from the kernel. -/
  timeout : ∀ found, s.pc = .returned (some etimedout) found →
    s.cancelled = true ∨ found = .refused etimedout ∨ found = .reopened (some etimedout)
  /-- Nothing is left behind. -/
  tidy : s.pc.isReturned = true → s.waiter ≠ some .call ∧ s.timer ≠ .pending
  /-- The fiber can be woken. -/
  awake : s.pc = .suspended → s.waiter = some .call ∨ s.scheduled = true
  /-- The time is limited, unless the callback was through before the event was registered. -/
  limit : s.pc = .suspended → s.timed = true → s.scheduled = false →
    s.timer = .pending ∨ s.timer = .tested ∨ s.timer = .marked ∨ s.early = true
  /-- The event of another call is cancelled only if the number was reused while this one was suspended, or by a
  callback that was under way when it returned. -/
  undisturbed : s.disturbed = true → s.reused = true ∨ s.late = true ∧ s.pc.isReturned = true
  start : s.pc = .start → s.timer = .unset ∧ s.waiter = none ∧ s.cancelled = false ∧ s.reused = false
  armed : s.pc = .armed → s.timed = true → s.timer ≠ .unset
  woken : s.scheduled = true →
    s.pc = .suspended ∧ s.waiter ≠ some .call ∧ (s.link ≠ .inProgress ∨ s.cancelled = true)
  call : s.waiter = some .call → s.pc = .suspended
  pending : s.timer = .pending → s.cancelled = false
  marked : s.timer = .marked → s.cancelled = true
  other : s.waiter = some .other → s.reused = true ∨ s.pc.isReturned = true
  underWay : s.pc.isReturned = true → s.timer = .tested ∨ s.timer = .marked → s.late = true

variable {s s' : Connect} {e : ConnectEvent}

/-- A result that is passed on says what the connection is. -/
theorem ofRaw_cases (raw : Option Nat) : raw = none ∧ ConnectLink.ofRaw raw = .established ∨
    raw = some einprogress ∨ ∃ e, raw = some e ∧ ConnectLink.ofRaw raw = .refused e := by
  cases raw with
  | none => exact .inl ⟨rfl, rfl⟩
  | some e =>
    by_cases he : e = einprogress
    · exact .inr (.inl (congrArg some he))
    · exact .inr (.inr ⟨e, rfl, if_neg he⟩)

theorem Safe.setLink (h : s.Safe) (link : ConnectLink) (hlink : s.scheduled = true → link ≠ .inProgress) :
    Safe { s with link } :=
  { h with woken := fun hs => ⟨(h.woken hs).1, (h.woken hs).2.1, .inl (hlink hs)⟩ }

theorem Safe.wake (h : s.Safe) (hw : s.link ≠ .inProgress ∨ s.cancelled = true) : s.wake.Safe := by
  refine { h with
    tidy := fun hpc => ⟨?_, (h.tidy hpc).2⟩, awake := fun hpc => .inr ?_
    limit := fun hpc htimed hs => h.limit hpc htimed ?_, start := fun hpc => ⟨(h.start hpc).1, rfl, (h.start hpc).2.2⟩
    woken := fun hs => ⟨?_, ?_, hw⟩, call := ?_, other := ?_ } <;>
  grind -linarith [Connect.wake, h.awake, h.woken, h.call]

theorem Safe.finish (h : s.Safe) {r : Option Nat} (hpc : s.pc.isReturned = false) (hw : s.waiter ≠ some .call)
    (hok : r = none → s.link = .established ∨ s.link = .inProgress ∧ s.unwatched = true ∨ s.link = .reopened none)
    (htime : r = some etimedout → s.cancelled = true ∨ s.link = .refused etimedout ∨
      s.link = .reopened (some etimedout)) : (s.finish r).Safe := by
  refine {
    ok := ?_, timeout := ?_, tidy := fun _ => ⟨hw, ?_⟩, awake := ?_, limit := ?_
    undisturbed := fun hd => .inl ((h.undisturbed hd).resolve_right (by simp [hpc]))
    start := ?_, armed := ?_, woken := ?_, call := (absurd · hw), pending := ?_, marked := fun ht => h.marked ?_
    other := fun _ => .inr rfl, underWay := ?_ } <;> grind -linarith [Connect.finish]

theorem Safe.begin (h : s.Safe) (hpc : s.pc = .start) (ctx : Option FdCtx) (raw : Option Nat) :
    (s.begin ctx raw).Safe := by
  obtain ⟨htimer, hwaiter, hcancelled, hreused⟩ := h.start hpc
  have hret : s.pc.isReturned = false := by simp [hpc, ConnectPc.isReturned]
  have hscheduled : s.scheduled ≠ true := fun hs => by simpa [hpc] using (h.woken hs).1
  unfold Connect.begin
  split
  · exact h.finish hret (by simp [hwaiter]) (by simp) (by simp [ebadf, etimedout])
  split
  · have hdisturbed : s.disturbed ≠ true := fun hd => by simpa [hreused, hret] using h.undisturbed hd
    constructor <;> grind -linarith [ConnectPc.isReturned]
  · refine (h.setLink _ (absurd · hscheduled)).finish hret (by simp [hwaiter]) ?_ ?_ <;>
      have := ofRaw_cases raw <;> grind -linarith [einprogress, etimedout]

theorem Safe.register (h : s.Safe) (hpc : s.pc = .armed) :
    Safe { s with pc := .suspended, waiter := some .call, early := s.timer = .over } := by
  have hret : s.pc.isReturned = false := by simp [hpc, ConnectPc.isReturned]
  refine { h with
    ok := ?_, timeout := ?_, tidy := ?_, awake := fun _ => .inl rfl
    limit := fun _ htimed _ => by have := h.armed hpc htimed; cases ht : s.timer <;> simp_all
    undisturbed := fun hd => .inl ((h.undisturbed hd).resolve_right (by simp [hret]))
    start := ?_, armed := ?_, woken := fun hs => by simpa [hpc] using (h.woken hs).1, call := fun _ => rfl
    other := ?_, underWay := ?_ } <;> simp [ConnectPc.isReturned]

theorem Safe.unwatch (h : s.Safe) (hpc : s.pc = .armed) (hw : s.waiter = none) :
    ({ s with unwatched := true }.finish s.link.result).Safe := by
  have hunwatched : Safe { s with unwatched := true } := { h with ok := fun found hf => by simp [hpc] at hf }
  refine hunwatched.finish (by simp [hpc, ConnectPc.isReturned]) (by simp [hw]) ?_ ?_ <;> cases hl : s.link <;>
    simp_all [ConnectLink.result, ebadf, etimedout]

theorem Safe.resume (h : s.Safe) (hpc : s.pc = .suspended) (hs : s.scheduled = true) :
    (s.finish (if s.cancelled then some etimedout else s.link.result)).Safe := by
  obtain ⟨-, hwaiter, hwoken⟩ := h.woken hs
  refine h.finish (by simp [hpc, ConnectPc.isReturned]) hwaiter ?_ ?_ <;> cases hl : s.link <;>
    grind -linarith [ConnectLink.result, ebadf, etimedout]

theorem Safe.expire (h : s.Safe) (ht : s.timer = .pending) : Safe { s with timer := .tested } := by
  refine { h with tidy := ?_, limit := ?_, start := ?_, armed := ?_, pending := ?_, marked := ?_, underWay := ?_ } <;>
    grind -linarith [h.tidy, h.start]

theorem Safe.mark (h : s.Safe) (ht : s.timer = .tested) : Safe { s with timer := .marked, cancelled := true } := by
  refine { h with
    timeout := fun _ _ => .inl rfl, tidy := ?_, limit := ?_, start := ?_, armed := ?_
    woken := fun hs => ⟨(h.woken hs).1, (h.woken hs).2.1, .inr rfl⟩
    pending := ?_, marked := fun _ => rfl, underWay := fun hpc _ => h.underWay hpc (.inl ht) } <;>
  grind -linarith [h.tidy, h.start]

theorem Safe.cancel (h : s.Safe) (ht : s.timer = .marked) :
    Safe { s.wake with timer := .over, disturbed := s.disturbed || s.waiter == some .other } := by
  have hw := h.wake (.inr (h.marked ht))
  have hother : s.waiter = some .other → s.reused = true ∨ s.late = true ∧ s.pc.isReturned = true := fun ho =>
    (h.other ho).imp_right fun hret => ⟨h.underWay hret (.inr ht), hret⟩
  refine { hw with
    tidy := ?_, limit := ?_, undisturbed := ?_, start := ?_, armed := ?_, pending := ?_, marked := ?_
    underWay := ?_ } <;>
  grind -linarith [Connect.wake, h.awake, h.start, h.undisturbed]

theorem Safe.reopen (h : s.Safe) (hpc : s.pc ≠ .start) (error : Option Nat) :
    Safe { s with link := .reopened error, reused := s.reused || !s.pc.isReturned } :=
  { h.setLink (.reopened error) (by simp) with
    undisturbed := fun hd => (h.undisturbed hd).imp_left (by simp +contextual)
    start := (absurd · hpc)
    other := fun ho => (h.other ho).imp_left (by simp +contextual) }

theorem Safe.reuse (h : s.Safe) (hr : s.pc.isReturned ∨ s.reused) (hw : s.waiter = none) :
    Safe { s with waiter := some .other } := by
  refine { h with
    tidy := ?_, awake := fun hpc => .inr ((h.awake hpc).resolve_left (by simp [hw])), start := ?_
    woken := fun hs => ⟨(h.woken hs).1, ?_, (h.woken hs).2.2⟩, call := ?_, other := fun _ => hr.symm } <;>
  grind -linarith [h.tidy, h.start, ConnectPc.isReturned]

theorem Safe.step (h : s.Safe) (hs : s.step? e = some s') : s'.Safe := by
  cases e <;> simp only [step?, Option.ite_none_right_eq_some, Option.some.injEq] at hs
  case register ok =>
    obtain ⟨⟨hpc, hw⟩, hs⟩ := hs
    cases ok <;> obtain rfl := Option.some.inj hs
    · exact h.unwatch hpc hw
    · exact h.register hpc
  case close =>
    obtain rfl := hs
    exact (h.setLink .closed (by simp)).wake (.inl (by simp))
  all_goals obtain ⟨hp, rfl⟩ := hs
  case begin ctx raw => exact h.begin hp ctx raw
  case resume => exact h.resume hp.1 hp.2
  case expire => simpa [h.pending hp] using h.expire hp
  case mark => exact h.mark hp
  case cancel => exact h.cancel hp
  case settle raw =>
    refine h.setLink _ fun _ => ?_
    rcases ofRaw_cases raw with ⟨-, hl⟩ | hl | ⟨e, -, hl⟩ <;> simp_all
  case report => exact h.wake (.inl hp)
  case reopen error => exact h.reopen hp.2 error
  case reuse => exact h.reuse hp.1 hp.2

end Connect

end Sherry
