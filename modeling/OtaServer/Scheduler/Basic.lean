import OtaServer.Lib.Threads

/-!
# The scheduler (`sherry/scheduler.h`, `sherry/scheduler.cc`, `sherry/fiber.cc`, `sherry/iomanager.cc`)

Each worker runs `Scheduler::run`: it takes a task from the queue, swaps its fiber in, and looks at the state of the
fiber when it is back; without a task it runs `idle`, here that of `IOManager`. A `Scheduler` that is no `IOManager`
has no timers and no events, and `epoll_wait` returns at once.

* `scanQueue`: the loop over the queue under `m_mutex`. `scheduleAll`: `schedule`.
* `Pc`: where a worker is. Between two places it makes one read or write of what others see.
* `Worker.step?`: a step of a worker, in the parts `runStep?`, `taskStep?`, `idleStep?` and `stopStep?`. `outerStep?`:
  a step of another thread. `Scheduler.step?`: any step.
-/

namespace Sherry

open Lib

/-- `Fiber::State`. -/
inductive FiberState where
  | init | hold | exec | term | ready | except
  deriving DecidableEq

/-- `Fiber::m_id`. -/
abbrev FiberId := Nat

/-- The number of a callback: each call of `schedule` gives a new one. -/
abbrev CbId := Nat

/-- `Fiber`. -/
structure Fiber where
  state : FiberState := .init
  /-- `m_ctx` is the context of the last yield, or of the start. -/
  saved : Bool := true

/-- What `FiberAndThread` holds. -/
inductive Work where
  | cb (c : CbId)
  | fiber (f : FiberId)
  deriving DecidableEq

/-- `FiberAndThread`. The thread is a worker, or -1. -/
structure Task where
  work : Work
  thread : Option Nat
  deriving DecidableEq

/-- What `schedule` is called with. -/
inductive Req where
  /-- An empty `std::function` or a null fiber. -/
  | empty
  | cb
  | fiber (f : FiberId)

/-- What the workers and other threads share. -/
structure Shared where
  threadCount : Nat
  queue : List Task := []
  activeThreadCount : Nat := 0
  idleThreadCount : Nat := 0
  autoStop : Bool := false
  stopping : Bool := false
  /-- The number of timers in `m_timers`. -/
  timers : Nat := 0
  /-- The number of event bits that are set. -/
  events : Nat := 0
  pendingEventCount : Nat := 0
  /-- The unread bytes of the pipe. -/
  pipe : Nat := 0
  /-- Other threads that are about to test `hasIdleThreads` in `tickle`. -/
  tickling : Nat := 0
  /-- Other threads that are about to write the byte in `tickle`. -/
  writing : Nat := 0
  fibers : FiberId → Fiber := fun _ => {}
  /-- The number of fibers that were made. -/
  made : Nat := 0
  /-- The number of callbacks that were scheduled. -/
  scheduled : Nat := 0
  /-- Someone has the fiber and is going to schedule it once. -/
  given : FiberId → Bool := fun _ => false
  /-- Who took a callback from the queue. -/
  removedBy : CbId → Option Nat := fun _ => none
  /-- Who started a callback. -/
  startedBy : CbId → List Nat := fun _ => []
  /-- The tasks that were taken from the queue, with the worker, and the state of a fiber then. -/
  dequeued : List (Nat × Task × FiberState) := []
  /-- An assertion failed. -/
  aborted : Bool := false

namespace Shared

/-- Changes one fiber. -/
def setFiber (sh : Shared) (f : FiberId) (fiber : Fiber) : Shared :=
  { sh with fibers := fun g => if g = f then fiber else sh.fibers g }

/-- Who has been given the fiber has it, or has scheduled it. -/
def setGiven (sh : Shared) (f : FiberId) (v : Bool) : Shared :=
  { sh with given := fun g => if g = f then v else sh.given g }

/-- `m_state = state`. -/
def setState (sh : Shared) (f : FiberId) (state : FiberState) : Shared :=
  sh.setFiber f { sh.fibers f with state }

/-- `new Fiber(cb)`. -/
def newFiber (sh : Shared) : Shared := { sh.setFiber sh.made {} with made := sh.made + 1 }

/-- `scheduleNoLock`, without its result. -/
def scheduleNoLock (thread : Option Nat) (sh : Shared) : Req → Shared
  | .empty => sh
  | .cb => { sh with
      queue := sh.queue ++ [⟨.cb sh.scheduled, thread⟩]
      scheduled := sh.scheduled + 1 }
  | .fiber f => { sh.setGiven f false with queue := sh.queue ++ [⟨.fiber f, thread⟩] }

/-- `schedule` under the lock. -/
def scheduleAll (sh : Shared) (thread : Option Nat) (reqs : List Req) : Shared :=
  reqs.foldl (scheduleNoLock thread) sh

/-- `need_tickle`: the queue is empty when the first of the tasks is added. -/
def needTickle (sh : Shared) (reqs : List Req) : Bool := !reqs.isEmpty && sh.queue.isEmpty

/-- The fibers exist. -/
def knows (sh : Shared) (reqs : List Req) : Bool :=
  reqs.all fun
    | .fiber f => f < sh.made
    | _ => true

end Shared

/-- A task is for another thread. -/
def Task.elsewhere (t : Task) (me : Nat) : Bool := t.thread != none && t.thread != some me

/-- The state of the fiber of a task. A callback has none, which is like a new fiber. -/
def Task.state (fibers : FiberId → Fiber) (t : Task) : FiberState :=
  match t.work with
  | .cb _ => .init
  | .fiber f => (fibers f).state

/-- The loop over the queue: the task that is taken and what is left, and `tickle_me`. -/
def scanQueue (fibers : FiberId → Fiber) (me : Nat) : List Task → Option (Task × List Task) × Bool
  | [] => (none, false)
  | t :: ts =>
    if t.elsewhere me then
      ((scanQueue fibers me ts).1.map fun x => (x.1, t :: x.2), true)
    else if t.state fibers = .exec then
      ((scanQueue fibers me ts).1.map fun x => (x.1, t :: x.2), (scanQueue fibers me ts).2)
    else (some (t, ts), false)

/-! ## Workers -/

/-- The tests of `IOManager::stopping`, in order. -/
inductive StopTest where
  | timers | pending | autoStop | stopping | queue | active
  deriving DecidableEq

/-- Who calls `stopping`. -/
inductive StopCall where
  /-- `idle`. -/
  | idle
  /-- `stop`, where there are no threads. -/
  | first
  /-- `stop`, before it calls the root fiber. -/
  | second
  deriving DecidableEq

/-- Where a worker is. -/
inductive Pc where
  /-- The thread of the root fiber, before `stop`. -/
  | outside
  /-- `stop`, before `m_stopping = true`. -/
  | setStopping
  | scan
  /-- Behind the scan, with what was taken. -/
  | scanned (ft : Option Task)
  /-- `swapIn`, before its assertion. `cb` is the callback that the fiber is going to start. -/
  | swapIn (f : FiberId) (cb : Option CbId)
  /-- `swapIn`, before `m_state = EXEC`. -/
  | enter (f : FiberId) (cb : Option CbId)
  /-- In the fiber. `isCb`: it is `cb_fiber`. -/
  | inside (f : FiberId) (isCb : Bool)
  /-- In the fiber, before `swapOut`. -/
  | leaving (f : FiberId) (isCb : Bool)
  /-- Back from `swapIn`. -/
  | returned (f : FiberId) (isCb : Bool)
  /-- At the test for `READY`. -/
  | update (f : FiberId) (isCb : Bool)
  /-- At the test for `TERM` and `EXCEPT`. -/
  | updateEnd (f : FiberId) (isCb : Bool)
  /-- Before `m_state = HOLD`. -/
  | setHold (f : FiberId) (isCb : Bool)
  /-- A fiber was taken that had ended. -/
  | discard
  /-- Nothing was taken. -/
  | idleTest
  /-- In `stopping`. -/
  | test (call : StopCall) (t : StopTest)
  /-- In `epoll_wait`. -/
  | wait
  /-- Before `listExpiredCb`. -/
  | expired
  /-- In the loop over the events. -/
  | gotEvents
  /-- Back from `idle`. -/
  | idleOut
  /-- The loop has ended. -/
  | ended
  /-- In `tickle`, before `hasIdleThreads`. -/
  | tickle (next : Pc)
  /-- In `tickle`, before `write`. -/
  | write (next : Pc)
  /-- Before `--m_pendingEventCount`. -/
  | countDown (next : Pc)
  deriving DecidableEq

/-- The local state of a worker. -/
structure Worker where
  pc : Pc
  cbFiber : Option FiberId := none
  /-- `idle_fiber` is in the state `TERM`. -/
  idleTerm : Bool := false

/-- What a worker does where it has a choice: the code of a task, and what the kernel reports. -/
inductive Choice where
  /-- No choice. -/
  | go
  | stop
  | finish | throw | yieldReady | yieldHold
  | schedule (reqs : List Req) (thread : Option Nat)
  | newFiber
  /-- The fiber is registered for an event, or handed to another thread. -/
  | giveAway
  | addTimer (front : Bool)
  | cancelTimer
  | addEvent
  | delEvent
  /-- An event is cancelled, or reported. -/
  | trigger (req : Req)
  /-- Timers expire: how many callbacks there are, and how many timers are not recurring. -/
  | expire (cbs gone : Nat)
  /-- The pipe is read. -/
  | drain
  | done

/-- Before the next place, `tickle` is called if it is needed. -/
def Pc.tickled (need : Bool) (next : Pc) : Pc := if need then .tickle next else next

/-- A test of `stopping`. -/
def StopTest.holds (sh : Shared) : StopTest → Bool
  | .timers => sh.timers = 0
  | .pending => sh.pendingEventCount = 0
  | .autoStop => sh.autoStop
  | .stopping => sh.stopping
  | .queue => sh.queue = []
  | .active => sh.activeThreadCount = 0

/-- The next test. -/
def StopTest.next? : StopTest → Option StopTest
  | .timers => some .pending
  | .pending => some .autoStop
  | .autoStop => some .stopping
  | .stopping => some .queue
  | .queue => some .active
  | .active => none

/-- `tickle` is called a number of times. -/
def tickles (next : Pc) : Nat → Pc
  | 0 => next
  | k + 1 => .tickle (tickles next k)

/-- Where `stopping` returns to. -/
def StopCall.returned (sh : Shared) (w : Worker) (result : Bool) : StopCall → Worker
  | .idle => if result then { w with pc := .idleOut, idleTerm := true } else { w with pc := .wait }
  | .first =>
    { w with pc := if result then .ended else tickles (.test .second .timers) (sh.threadCount + 1) }
  | .second => { w with pc := if result then .ended else .scan }

namespace Worker

/-- `run`, but for `idle` and the code of the tasks. -/
def runStep? (me : Nat) (sh : Shared) (w : Worker) : Option (Shared × Worker) :=
  match w.pc with
  | .scan =>
    match scanQueue sh.fibers me sh.queue with
    | (none, tickleMe) => some (sh, { w with pc := .tickled tickleMe (.scanned none) })
    | (some (t, queue), tickleMe) => some
        ({ sh with
            queue
            activeThreadCount := sh.activeThreadCount + 1
            removedBy := fun c => if t.work = .cb c then some me else sh.removedBy c
            dequeued := (me, t, t.state sh.fibers) :: sh.dequeued },
          { w with pc := .tickled tickleMe (.scanned (some t)) })
  | .scanned none => some (sh, { w with pc := .idleTest })
  | .scanned (some ⟨.fiber f, _⟩) =>
    if (sh.fibers f).state = .term ∨ (sh.fibers f).state = .except then
      some (sh, { w with pc := .discard })
    else some (sh, { w with pc := .swapIn f none })
  | .scanned (some ⟨.cb c, _⟩) =>
    match w.cbFiber with
    | none => some (sh.newFiber, { w with pc := .swapIn sh.made (some c), cbFiber := some sh.made })
    | some f =>
      -- the assertion of `Fiber::reset`
      if (sh.fibers f).state = .term ∨ (sh.fibers f).state = .init ∨ (sh.fibers f).state = .except then
        some (sh.setFiber f {}, { w with pc := .swapIn f (some c) })
      else some ({ sh with aborted := true }, w)
  | .swapIn f cb =>
    if (sh.fibers f).state = .exec then some ({ sh with aborted := true }, w)
    else some (sh, { w with pc := .enter f cb })
  | .enter f cb => some
      ({ sh.setFiber f { state := .exec, saved := false } with
          startedBy := fun c => if cb = some c then me :: sh.startedBy c else sh.startedBy c },
        { w with pc := .inside f cb.isSome })
  | .leaving f isCb =>
    some (sh.setFiber f { sh.fibers f with saved := true }, { w with pc := .returned f isCb })
  | .returned f isCb =>
    some ({ sh with activeThreadCount := sh.activeThreadCount - 1 }, { w with pc := .update f isCb })
  | .update f isCb =>
    if (sh.fibers f).state = .ready then
      some (sh.scheduleAll none [.fiber f], { w with
        pc := .tickled (sh.needTickle [.fiber f]) .scan
        cbFiber := if isCb then none else w.cbFiber })
    else some (sh, { w with pc := .updateEnd f isCb })
  | .updateEnd f isCb =>
    if (sh.fibers f).state = .term ∨ (sh.fibers f).state = .except then
      -- `cb_fiber->reset(nullptr)`
      some (if isCb then sh.setFiber f {} else sh, { w with pc := .scan })
    else some (sh, { w with pc := .setHold f isCb })
  | .setHold f isCb =>
    some (sh.setState f .hold, { w with pc := .scan, cbFiber := if isCb then none else w.cbFiber })
  | .discard =>
    some ({ sh with activeThreadCount := sh.activeThreadCount - 1 }, { w with pc := .scan })
  | .tickle next =>
    some (sh, { w with pc := if 0 < sh.idleThreadCount then .write next else next })
  | .write next => some ({ sh with pipe := sh.pipe + 1 }, { w with pc := next })
  | .countDown next =>
    some ({ sh with pendingEventCount := sh.pendingEventCount - 1 }, { w with pc := next })
  | _ => none

/-- The code of a task, in its fiber. -/
def taskStep? (sh : Shared) (w : Worker) (f : FiberId) (isCb : Bool) : Choice → Option (Shared × Worker)
  | .finish => some (sh.setState f .term, { w with pc := .leaving f isCb })
  | .throw => some (sh.setState f .except, { w with pc := .leaving f isCb })
  | .yieldReady => some (sh.setState f .ready, { w with pc := .leaving f isCb })
  | .yieldHold => some (sh.setState f .hold, { w with pc := .leaving f isCb })
  | .schedule reqs thread =>
    if sh.knows reqs then
      some (sh.scheduleAll thread reqs, { w with pc := .tickled (sh.needTickle reqs) w.pc })
    else none
  | .newFiber => some (sh.newFiber.setGiven sh.made true, w)
  | .giveAway => some (sh.setGiven f true, w)
  | .addTimer front => some ({ sh with timers := sh.timers + 1 }, { w with pc := .tickled front w.pc })
  | .cancelTimer => if 0 < sh.timers then some ({ sh with timers := sh.timers - 1 }, w) else none
  | .addEvent => some
      ({ sh with events := sh.events + 1, pendingEventCount := sh.pendingEventCount + 1 }, w)
  | .delEvent =>
    if 0 < sh.events then
      some ({ sh with events := sh.events - 1, pendingEventCount := sh.pendingEventCount - 1 }, w)
    else none
  | .trigger req =>
    if sh.knows [req] ∧ 0 < sh.events then
      some ({ sh.scheduleAll none [req] with events := sh.events - 1 },
        { w with pc := .tickled (sh.needTickle [req]) (.countDown w.pc) })
    else none
  | _ => none

/-- `stop` of the thread of the root fiber, and `stopping`. -/
def stopStep? (sh : Shared) (w : Worker) (c : Choice) : Option (Shared × Worker) :=
  match w.pc, c with
  | .outside, .stop => some ({ sh with autoStop := true }, { w with pc := .setStopping })
  | .setStopping, .go => some ({ sh with stopping := true }, { w with
      pc := if sh.threadCount = 0 then .test .first .timers
        else tickles (.test .second .timers) (sh.threadCount + 1) })
  | .test call t, .go =>
    if t.holds sh then
      match t.next? with
      | some t' => some (sh, { w with pc := .test call t' })
      | none => some (sh, call.returned sh w true)
    else some (sh, call.returned sh w false)
  | _, _ => none

/-- `idle`, but for `stopping`. -/
def idleStep? (sh : Shared) (w : Worker) (c : Choice) : Option (Shared × Worker) :=
  match w.pc, c with
  | .idleTest, .go =>
    if w.idleTerm then some (sh, { w with pc := .ended })
    else some ({ sh with idleThreadCount := sh.idleThreadCount + 1 },
      { w with pc := .test .idle .timers })
  | .wait, .go => some (sh, { w with pc := .expired })
  | .expired, .expire cbs gone =>
    if gone ≤ cbs ∧ gone ≤ sh.timers then
      some ({ sh.scheduleAll none (List.replicate cbs .cb) with timers := sh.timers - gone },
        { w with pc := .tickled (sh.needTickle (List.replicate cbs .cb)) .gotEvents })
    else none
  | .gotEvents, .drain => some ({ sh with pipe := 0 }, w)
  | .gotEvents, .trigger req =>
    if sh.knows [req] ∧ 0 < sh.events then
      some ({ sh.scheduleAll none [req] with events := sh.events - 1 },
        { w with pc := .tickled (sh.needTickle [req]) (.countDown .gotEvents) })
    else none
  | .gotEvents, .done => some (sh, { w with pc := .idleOut })
  | .idleOut, .go =>
    some ({ sh with idleThreadCount := sh.idleThreadCount - 1 }, { w with pc := .scan })
  | _, _ => none

/-- A step of the worker with the thread id `me`. -/
def step? (me : Nat) (sh : Shared) (w : Worker) (c : Choice) : Option (Shared × Worker) :=
  if sh.aborted then none
  else
    match w.pc with
    | .inside f isCb => taskStep? sh w f isCb c
    | .outside | .setStopping | .test _ _ => stopStep? sh w c
    | .idleTest | .wait | .expired | .gotEvents | .idleOut => idleStep? sh w c
    | .ended => none
    | _ =>
      match c with
      | .go => runStep? me sh w
      | _ => none

end Worker

/-! ## Other threads -/

/-- A step of another thread. -/
inductive Outer where
  | schedule (reqs : List Req) (thread : Option Nat)
  /-- `tickle`, up to `hasIdleThreads`. -/
  | tickle
  /-- `tickle`, the byte. -/
  | write
  | newFiber
  | addTimer (front : Bool)
  | cancelTimer
  /-- `stop` where there is no root fiber, up to `m_autoStop = true`. -/
  | stop
  /-- `stop`, `m_stopping = true`, and the calls of `tickle` are next. -/
  | setStopping

/-- A step of a thread that is no worker, unless the process has ended. -/
def outerStep? (sh : Shared) (e : Outer) : Option Shared :=
  if sh.aborted then none
  else
    match e with
    | .schedule reqs thread =>
      if sh.knows reqs then
        some { sh.scheduleAll thread reqs with
          tickling := sh.tickling + if sh.needTickle reqs then 1 else 0 }
      else none
    | .tickle =>
      if 0 < sh.tickling then
        some { sh with
          tickling := sh.tickling - 1
          writing := sh.writing + if 0 < sh.idleThreadCount then 1 else 0 }
      else none
    | .write =>
      if 0 < sh.writing then some { sh with writing := sh.writing - 1, pipe := sh.pipe + 1 } else none
    | .newFiber => some (sh.newFiber.setGiven sh.made true)
    | .addTimer front => some { sh with
        timers := sh.timers + 1
        tickling := sh.tickling + if front then 1 else 0 }
    | .cancelTimer => if 0 < sh.timers then some { sh with timers := sh.timers - 1 } else none
    | .stop => some { sh with autoStop := true }
    | .setStopping =>
      if sh.autoStop then some { sh with stopping := true, tickling := sh.tickling + sh.threadCount }
      else none

/-! ## The scheduler -/

/-- A scheduler with `n` workers. -/
abbrev Scheduler (n : Nat) := Threads (Fin n) Shared Worker

namespace Scheduler

/-- A scheduler behind `start`. The first worker is the thread that made the scheduler if `useCaller`. -/
def new (n : Nat) (useCaller : Bool) : Scheduler n where
  shared := { threadCount := if useCaller then n - 1 else n }
  thread := fun i => { pc := if useCaller ∧ i.val = 0 then .outside else .scan }

/-- A step of a worker or of another thread. -/
abbrev SLabel (n : Nat) := Threads.Label (Fin n) Choice Outer

/-- A step of a worker, or of another thread. -/
def step? {n : Nat} : Scheduler n → SLabel n → Option (Scheduler n) :=
  Threads.step? (fun i => Worker.step? i.val) outerStep?

/-- The steps of a scheduler. -/
def Step {n : Nat} (s : Scheduler n) (l : SLabel n) (s' : Scheduler n) : Prop := step? s l = some s'

end Scheduler

/-! ## The queue -/

section

variable {fibers : FiberId → Fiber} {me : Nat} {queue rest : List Task} {t : Task} {tickleMe : Bool}

theorem scanQueue_some (h : scanQueue fibers me queue = (some (t, rest), tickleMe)) :
    (t.thread = none ∨ t.thread = some me) ∧ t.state fibers ≠ .exec ∧
      ∃ front back, queue = front ++ t :: back ∧ rest = front ++ back := by
  induction queue generalizing rest tickleMe with
  | nil => cases h
  | cons u us ih =>
    have htail : ∀ {b}, ((scanQueue fibers me us).1.map fun x => (x.1, u :: x.2), b) =
        (some (t, rest), tickleMe) → (t.thread = none ∨ t.thread = some me) ∧ t.state fibers ≠ .exec ∧
          ∃ front back, u :: us = front ++ t :: back ∧ rest = front ++ back := by
      intro b heq
      obtain ⟨hfst, -⟩ := Prod.mk.inj heq
      obtain ⟨⟨t', rest'⟩, hx, heq'⟩ := Option.map_eq_some_iff.mp hfst
      obtain ⟨rfl, rfl⟩ := Prod.mk.inj heq'
      obtain ⟨hthread, hstate, front, back, rfl, rfl⟩ := ih (Prod.ext hx rfl)
      exact ⟨hthread, hstate, u :: front, back, rfl, rfl⟩
    unfold scanQueue at h
    split at h
    · exact htail h
    · next helse =>
      split at h
      · exact htail h
      · next hexec =>
        cases h
        refine ⟨?_, hexec, [], us, rfl, rfl⟩
        simp only [Task.elsewhere, bne_iff_ne, ne_eq, Bool.and_eq_true, not_and, not_not] at helse
        by_cases hnone : t.thread = none
        · exact .inl hnone
        · exact .inr (helse hnone)

/-- Nothing is taken: every task is for another thread, or its fiber is executed. -/
theorem scanQueue_none (h : scanQueue fibers me queue = (none, tickleMe)) :
    ∀ t ∈ queue, t.elsewhere me = true ∨ t.state fibers = .exec := by
  induction queue generalizing tickleMe with
  | nil => exact fun _ ht => absurd ht List.not_mem_nil
  | cons u us ih =>
    have htail : (scanQueue fibers me us).1 = none →
        ∀ t ∈ us, t.elsewhere me = true ∨ t.state fibers = .exec := fun hnone =>
      ih (Prod.ext hnone rfl)
    unfold scanQueue at h
    split at h
    · next helse =>
      obtain ⟨hfst, -⟩ := Prod.mk.inj h
      intro t ht
      obtain rfl | ht := List.mem_cons.mp ht
      · exact .inl helse
      · exact htail (Option.map_eq_none_iff.mp hfst) t ht
    · split at h
      · next hexec =>
        obtain ⟨hfst, -⟩ := Prod.mk.inj h
        intro t ht
        obtain rfl | ht := List.mem_cons.mp ht
        · exact .inr hexec
        · exact htail (Option.map_eq_none_iff.mp hfst) t ht
      · cases h

end

namespace Shared

/-- The tasks that `schedule` adds, with the callbacks numbered from `k` on. -/
def newTasks (thread : Option Nat) : Nat → List Req → List Task
  | _, [] => []
  | k, .empty :: reqs => newTasks thread k reqs
  | k, .cb :: reqs => ⟨.cb k, thread⟩ :: newTasks thread (k + 1) reqs
  | k, .fiber f :: reqs => ⟨.fiber f, thread⟩ :: newTasks thread k reqs

/-- The number of callbacks that `schedule` adds. -/
def newCbs : List Req → Nat
  | [] => 0
  | .cb :: reqs => newCbs reqs + 1
  | _ :: reqs => newCbs reqs

/-- The fibers that `schedule` does not add. -/
def stillGiven (given : FiberId → Bool) (reqs : List Req) (f : FiberId) : Bool :=
  given f && reqs.all fun
    | .fiber g => f != g
    | _ => true

theorem scheduleAll_eq (sh : Shared) (thread : Option Nat) (reqs : List Req) : sh.scheduleAll thread reqs = { sh with
      queue := sh.queue ++ newTasks thread sh.scheduled reqs
      scheduled := sh.scheduled + newCbs reqs
      given := stillGiven sh.given reqs } := by
  induction reqs generalizing sh with
  | nil =>
    have hgiven : stillGiven sh.given [] = sh.given := funext fun f => Bool.and_true _
    simp only [scheduleAll, List.foldl_nil, newTasks, List.append_nil, newCbs, Nat.add_zero, hgiven]
  | cons req reqs ih =>
    rw [scheduleAll, List.foldl_cons, ← scheduleAll, ih]
    cases req with
    | empty => rfl
    | cb =>
      simp only [scheduleNoLock, newTasks, newCbs, List.append_assoc, List.singleton_append,
        Nat.add_assoc, Nat.add_comm 1]
      rfl
    | fiber f =>
      have hgiven : stillGiven (sh.setGiven f false).given reqs = stillGiven sh.given (.fiber f :: reqs) := by
        funext g
        by_cases hg : g = f
        · simp [stillGiven, setGiven, hg]
        · have hne : (g != f) = true := bne_iff_ne.mpr hg
          simp [stillGiven, setGiven, hg, hne]
      simp only [scheduleNoLock, newTasks, newCbs, List.append_assoc, List.singleton_append]
      rw [← hgiven]
      rfl

theorem thread_newTasks {thread : Option Nat} {k : Nat} {reqs : List Req} {t : Task}
    (h : t ∈ newTasks thread k reqs) : t.thread = thread := by
  induction reqs generalizing k with
  | nil => cases h
  | cons req reqs ih =>
    cases req with
    | empty => exact ih h
    | cb | fiber =>
      obtain rfl | h := List.mem_cons.mp h
      · rfl
      · exact ih h

end Shared

end Sherry
