import Mathlib.Logic.Function.Basic

/-!
# The events of an `IOManager` (`sherry/iomanager.h`, `sherry/iomanager.cc`)

A fiber or a callback waits for one of the two events of a descriptor. Each operation holds the mutex of the
descriptor from its first look at the context to its end.

* `FdContext`, `EventContext`: what is registered. `IOManager`: all contexts, and what `epoll` has.
* `epollCtl`: `epoll_ctl`, which may fail at any call.
* `addEvent`, `delEvent`, `cancelEvent`, `cancelAll`, `processEvent`: the operations. `none` is a failed assertion, or
  a call through a null pointer.
-/

namespace Sherry

/-- `IOManager::Event`, one of its bits. -/
inductive Event where
  | read | write
  deriving DecidableEq

/-- `IOManager::Event`, as a mask. -/
structure Events where
  read : Bool := false
  write : Bool := false
  deriving DecidableEq

namespace Events

/-- `events & event`. -/
def has (m : Events) : Event → Bool
  | .read => m.read
  | .write => m.write

/-- `events | event`, or `events & ~event`. -/
def set (m : Events) (e : Event) (b : Bool) : Events :=
  match e with
  | .read => { m with read := b }
  | .write => { m with write := b }

/-- The mask is `NONE`. -/
def isNone (m : Events) : Bool := !m.read && !m.write

/-- `events & real_events`. -/
def inter (m k : Events) : Events := ⟨m.read && k.read, m.write && k.write⟩

/-- `events & ~real_events`. -/
def diff (m k : Events) : Events := ⟨m.read && !k.read, m.write && !k.write⟩

/-- The number of bits that are set. -/
def bits (m : Events) : Nat := m.read.toNat + m.write.toNat

end Events

/-- The number of a call of `addEvent`, for the fiber or the callback that it registers. -/
abbrev ContId := Nat

/-- `FdContext::EventContext`. A scheduler is a number. -/
structure EventContext where
  scheduler : Option Nat := none
  fiber : Option ContId := none
  cb : Option ContId := none
  deriving DecidableEq

/-- `FdContext`. -/
structure FdContext where
  fd : Nat
  read : EventContext := {}
  write : EventContext := {}
  events : Events := {}

namespace FdContext

/-- `getContext`. -/
def getContext (ctx : FdContext) : Event → EventContext
  | .read => ctx.read
  | .write => ctx.write

/-- The context of an event is changed. -/
def setContext (ctx : FdContext) (e : Event) (ec : EventContext) : FdContext :=
  match e with
  | .read => { ctx with read := ec }
  | .write => { ctx with write := ec }

@[simp] theorem setContext_fd (ctx : FdContext) (e : Event) (ec : EventContext) :
    (ctx.setContext e ec).fd = ctx.fd := by
  cases e <;> rfl

end FdContext

/-- `EPOLL_CTL_ADD`, `EPOLL_CTL_MOD`, `EPOLL_CTL_DEL`. -/
inductive CtlOp where
  | add | mod | del

/-- What `epoll` has: the events it reports for a descriptor, if it has the descriptor. -/
abbrev Epoll := Nat → Option Events

/-- `epoll_ctl`. It fails if the descriptor is there (`EPOLL_CTL_ADD`) or is not there, and may fail at any call
(`ok`). -/
def epollCtl (epoll : Epoll) (op : CtlOp) (fd : Nat) (mask : Events) (ok : Bool) : Option Epoll :=
  if ok then
    match op, epoll fd with
    | .add, none => some (Function.update epoll fd (some mask))
    | .mod, some _ => some (Function.update epoll fd (some mask))
    | .del, some _ => some (Function.update epoll fd none)
    | _, _ => none
  else none

/-- `IOManager`, as far as events are concerned. -/
structure IOManager where
  /-- `m_fdContexts.size()`. -/
  size : Nat := 32
  ctxs : Nat → FdContext := fun i => { fd := i }
  epoll : Epoll := fun _ => none
  /-- `m_pendingEventCount`. A negative number is what has gone below 0. -/
  pendingEventCount : Int := 0
  /-- The number of continuations that were registered. -/
  added : Nat := 0
  /-- What was scheduled, with the scheduler. -/
  scheduled : List (Nat × ContId) := []
  /-- What was discarded. -/
  discarded : List ContId := []

/-- The events that `epoll_wait` reports for a descriptor. -/
structure Report where
  pollIn : Bool := false
  pollOut : Bool := false
  pollErr : Bool := false
  pollHup : Bool := false
  deriving DecidableEq

namespace IOManager

/-- The context of a descriptor is changed. -/
def setCtx (s : IOManager) (i : Nat) (ctx : FdContext) : IOManager :=
  { s with ctxs := Function.update s.ctxs i ctx }

/-- `contextResize`. A context that is cut off is lost, and a new one is made in its place later. -/
def contextResize (s : IOManager) (size : Nat) : IOManager :=
  { s with
    size
    ctxs := fun i => if i < s.size ∧ i < size then s.ctxs i else { fd := i } }

/-- `triggerEvent`. `schedule(&ctx.cb)` and `schedule(&ctx.fiber)` take what they are given. -/
def triggerEvent (s : IOManager) (i : Nat) (e : Event) : Option IOManager :=
  let ctx := s.ctxs i
  if ctx.events.has e then
    let ec := ctx.getContext e
    let ctx := { ctx with events := ctx.events.set e false }
    match ec.scheduler with
    | none => none
    | some scheduler =>
      match ec.cb with
      | some k => some { s.setCtx i (ctx.setContext e { ec with cb := none, scheduler := none }) with
          scheduled := (scheduler, k) :: s.scheduled }
      | none => some { s.setCtx i (ctx.setContext e { ec with fiber := none, scheduler := none }) with
          scheduled := ec.fiber.toList.map (fun k => (scheduler, k)) ++ s.scheduled }
  else none

/-- `triggerEvent` and `--m_pendingEventCount`. -/
def fire (s : IOManager) (i : Nat) (e : Event) : Option IOManager :=
  (s.triggerEvent i e).map fun s => { s with pendingEventCount := s.pendingEventCount - 1 }

/-- The two, where the event is to be triggered. -/
def fireIf (s : IOManager) (i : Nat) (e : Event) (b : Bool) : Option IOManager :=
  if b then s.fire i e else some s

/-- `addEvent` on a thread of `scheduler`, with a callback or for the current fiber. -/
def addEvent (s : IOManager) (fd : Nat) (e : Event) (scheduler : Nat) (cb ok : Bool) : Option (IOManager × Int) :=
  if fd < 1 then some (s, -1)
  else
    let s := if fd < s.size then s else s.contextResize (fd * 3 / 2)
    let ctx := s.ctxs fd
    if ctx.events.has e then none
    else
      let op := if ctx.events.isNone then .add else .mod
      match epollCtl s.epoll op fd (ctx.events.set e true) ok with
      | none => some (s, -1)
      | some epoll =>
        if ctx.getContext e = {} then
          let ec := if cb then { scheduler, cb := s.added } else { scheduler, fiber := s.added }
          some ({ s.setCtx fd ({ ctx with events := ctx.events.set e true }.setContext e ec) with
            epoll
            pendingEventCount := s.pendingEventCount + 1
            added := s.added + 1 }, 0)
        else none

/-- `delEvent`. -/
def delEvent (s : IOManager) (fd : Nat) (e : Event) (ok : Bool) : IOManager × Bool :=
  if s.size ≤ fd then (s, false)
  else
    let ctx := s.ctxs fd
    if ctx.events.has e then
      let new := ctx.events.set e false
      match epollCtl s.epoll (if new.isNone then .del else .mod) fd new ok with
      | none => (s, false)
      | some epoll =>
        let ec := ctx.getContext e
        ({ s.setCtx fd ({ ctx with events := new }.setContext e {}) with
          epoll
          pendingEventCount := s.pendingEventCount - 1
          discarded := (ec.cb <|> ec.fiber).toList ++ s.discarded }, true)
    else (s, false)

/-- `cancelEvent`. -/
def cancelEvent (s : IOManager) (fd : Nat) (e : Event) (ok : Bool) : Option (IOManager × Bool) :=
  if s.size ≤ fd then some (s, false)
  else
    let ctx := s.ctxs fd
    if ctx.events.has e then
      let new := ctx.events.set e false
      match epollCtl s.epoll (if new.isNone then .del else .mod) fd new ok with
      | none => some (s, false)
      | some epoll => (fire { s with epoll } fd e).map (·, true)
    else some (s, false)

/-- `cancelAll`. -/
def cancelAll (s : IOManager) (fd : Nat) (ok : Bool) : Option (IOManager × Bool) :=
  if s.size ≤ fd then some (s, false)
  else if (s.ctxs fd).events.isNone then some (s, false)
  else
    match epollCtl s.epoll .del fd {} ok with
    | none => some (s, false)
    | some epoll => do
      let s ← fireIf { s with epoll } fd .read (s.ctxs fd).events.read
      let s ← s.fireIf fd .write (s.ctxs fd).events.write
      if (s.ctxs fd).events.isNone then some (s, true) else none

/-- `real_events`. After an error, the events that are registered count as reported. -/
def realEvents (report : Report) (events : Events) : Events :=
  ⟨report.pollIn || ((report.pollErr || report.pollHup) && events.read),
    report.pollOut || ((report.pollErr || report.pollHup) && events.write)⟩

/-- The loop body of `idle` for an event that `epoll_wait` reported for the context `i`. -/
def processEvent (s : IOManager) (i : Nat) (report : Report) (ok : Bool) : Option IOManager :=
  let ctx := s.ctxs i
  let real := realEvents report ctx.events
  if (ctx.events.inter real).isNone then some s
  else
    let left := ctx.events.diff real
    match epollCtl s.epoll (if left.isNone then .del else .mod) ctx.fd left ok with
    | none => some s
    | some epoll => do
      let s ← fireIf { s with epoll } i .read real.read
      s.fireIf i .write real.write

end IOManager

/-- An operation, with what `epoll_ctl` and `epoll_wait` do. -/
inductive EventOp where
  | addEvent (fd : Nat) (e : Event) (scheduler : Nat) (cb ok : Bool)
  | delEvent (fd : Nat) (e : Event) (ok : Bool)
  | cancelEvent (fd : Nat) (e : Event) (ok : Bool)
  | cancelAll (fd : Nat) (ok : Bool)
  /-- `epoll_wait` reports events for the context `i`, and `idle` handles them. -/
  | deliver (i : Nat) (report : Report) (ok : Bool)

namespace IOManager

/-- An operation. -/
def run? (s : IOManager) : EventOp → Option IOManager
  | .addEvent fd e scheduler cb ok => (s.addEvent fd e scheduler cb ok).map Prod.fst
  | .delEvent fd e ok => some (s.delEvent fd e ok).1
  | .cancelEvent fd e ok => (s.cancelEvent fd e ok).map Prod.fst
  | .cancelAll fd ok => (s.cancelAll fd ok).map Prod.fst
  | .deliver i report ok => s.processEvent i report ok

/-- `epoll` may report these events for the context `i`. -/
def reports (s : IOManager) (i : Nat) (report : Report) : Bool :=
  match s.epoll i with
  | none => false
  | some mask => (!report.pollIn || mask.read) && (!report.pollOut || mask.write)

/-- `addEvent` is called for an event that is not registered, and `epoll` reports what it may. -/
def allowed (s : IOManager) : EventOp → Bool
  | .addEvent fd e _ _ _ => !(s.ctxs fd).events.has e
  | .deliver i report _ => s.reports i report
  | _ => true

end IOManager

end Sherry
