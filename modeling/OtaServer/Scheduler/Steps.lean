import OtaServer.Scheduler.Basic

/-!
# The steps of a scheduler, one by one

* `LoopStep`: the steps of a worker, with what each of them reads and writes. `OuterStep`: the steps of another
  thread.
* `Scheduler.step_cases`: a step of `Scheduler.step?` is one of them. Every invariant is proved over them.
-/

namespace Sherry

open Lib

/-- How the code of a task leaves its fiber: the state it sets. -/
def Choice.leaves? : Choice → Option FiberState
  | .finish => some .term
  | .throw => some .except
  | .yieldReady => some .ready
  | .yieldHold => some .hold
  | _ => none

/-- The state of a fiber that has ended. -/
def FiberState.Ended (state : FiberState) : Prop := state = .term ∨ state = .except

instance (state : FiberState) : Decidable state.Ended := inferInstanceAs (Decidable (_ ∨ _))

/-- In the code of a task. -/
def Pc.InTask (p : Pc) : Prop := ∃ f isCb, p = .inside f isCb

theorem Pc.apply_tickled {α : Type} {g : Pc → α} (h : ∀ p, g (.tickle p) = g p) (need : Bool) (p : Pc) :
    g (tickled need p) = g p := by
  cases need
  · rfl
  · exact h p

theorem Pc.apply_tickles {α : Type} {g : Pc → α} (h : ∀ p, g (.tickle p) = g p) (p : Pc) (k : Nat) :
    g (tickles p k) = g p := by
  induction k with
  | zero => rfl
  | succ k ih => exact (h _).trans ih

/-- The steps of a worker. -/
inductive LoopStep (me : Nat) (sh : Shared) (w : Worker) : Choice → Shared → Worker → Prop where
  /-- Nothing is taken from the queue. -/
  | scanNone {tickleMe : Bool} (pc : w.pc = .scan)
    (scan : scanQueue sh.fibers me sh.queue = (none, tickleMe)) :
    LoopStep me sh w .go sh { w with pc := .tickled tickleMe (.scanned none) }
  /-- A task is taken from the queue. -/
  | scanSome {t : Task} {queue : List Task} {tickleMe : Bool} (pc : w.pc = .scan)
    (scan : scanQueue sh.fibers me sh.queue = (some (t, queue), tickleMe)) :
    LoopStep me sh w .go
      { sh with
        queue
        activeThreadCount := sh.activeThreadCount + 1
        removedBy := fun c => if t.work = .cb c then some me else sh.removedBy c
        dequeued := (me, t, t.state sh.fibers) :: sh.dequeued }
      { w with pc := .tickled tickleMe (.scanned (some t)) }
  | toIdle (pc : w.pc = .scanned none) : LoopStep me sh w .go sh { w with pc := .idleTest }
  | toDiscard {f : FiberId} {thread : Option Nat} (pc : w.pc = .scanned (some ⟨.fiber f, thread⟩))
    (ended : (sh.fibers f).state.Ended) : LoopStep me sh w .go sh { w with pc := .discard }
  | toFiber {f : FiberId} {thread : Option Nat} (pc : w.pc = .scanned (some ⟨.fiber f, thread⟩))
    (ended : ¬(sh.fibers f).state.Ended) : LoopStep me sh w .go sh { w with pc := .swapIn f none }
  | toNewCb {c : CbId} {thread : Option Nat} (pc : w.pc = .scanned (some ⟨.cb c, thread⟩))
    (cbFiber : w.cbFiber = none) :
    LoopStep me sh w .go sh.newFiber
      { w with pc := .swapIn sh.made (some c), cbFiber := some sh.made }
  | toCb {c : CbId} {thread : Option Nat} {f : FiberId} (pc : w.pc = .scanned (some ⟨.cb c, thread⟩))
    (cbFiber : w.cbFiber = some f)
    (state : (sh.fibers f).state = .term ∨ (sh.fibers f).state = .init ∨
      (sh.fibers f).state = .except) :
    LoopStep me sh w .go (sh.setFiber f {}) { w with pc := .swapIn f (some c) }
  /-- The assertion of `Fiber::reset` fails. -/
  | abortReset {c : CbId} {thread : Option Nat} {f : FiberId}
    (pc : w.pc = .scanned (some ⟨.cb c, thread⟩)) (cbFiber : w.cbFiber = some f)
    (state : ¬((sh.fibers f).state = .term ∨ (sh.fibers f).state = .init ∨
      (sh.fibers f).state = .except)) :
    LoopStep me sh w .go { sh with aborted := true } w
  /-- The assertion of `Fiber::swapIn` fails. -/
  | abortSwap {f : FiberId} {cb : Option CbId} (pc : w.pc = .swapIn f cb)
    (state : (sh.fibers f).state = .exec) : LoopStep me sh w .go { sh with aborted := true } w
  | swapIn {f : FiberId} {cb : Option CbId} (pc : w.pc = .swapIn f cb)
    (state : (sh.fibers f).state ≠ .exec) : LoopStep me sh w .go sh { w with pc := .enter f cb }
  | enter {f : FiberId} {cb : Option CbId} (pc : w.pc = .enter f cb) :
    LoopStep me sh w .go
      { sh.setFiber f { state := .exec, saved := false } with
        startedBy := fun c => if cb = some c then me :: sh.startedBy c else sh.startedBy c }
      { w with pc := .inside f cb.isSome }
  | save {f : FiberId} {isCb : Bool} (pc : w.pc = .leaving f isCb) :
    LoopStep me sh w .go (sh.setFiber f { sh.fibers f with saved := true })
      { w with pc := .returned f isCb }
  | back {f : FiberId} {isCb : Bool} (pc : w.pc = .returned f isCb) :
    LoopStep me sh w .go { sh with activeThreadCount := sh.activeThreadCount - 1 }
      { w with pc := .update f isCb }
  /-- A fiber that is ready is scheduled. -/
  | requeue {f : FiberId} {isCb : Bool} (pc : w.pc = .update f isCb)
    (state : (sh.fibers f).state = .ready) :
    LoopStep me sh w .go (sh.scheduleAll none [.fiber f])
      { w with
        pc := .tickled (sh.needTickle [.fiber f]) .scan
        cbFiber := if isCb then none else w.cbFiber }
  | notReady {f : FiberId} {isCb : Bool} (pc : w.pc = .update f isCb)
    (state : (sh.fibers f).state ≠ .ready) :
    LoopStep me sh w .go sh { w with pc := .updateEnd f isCb }
  | ended {f : FiberId} {isCb : Bool} (pc : w.pc = .updateEnd f isCb)
    (state : (sh.fibers f).state.Ended) :
    LoopStep me sh w .go (if isCb then sh.setFiber f {} else sh) { w with pc := .scan }
  | notEnded {f : FiberId} {isCb : Bool} (pc : w.pc = .updateEnd f isCb)
    (state : ¬(sh.fibers f).state.Ended) :
    LoopStep me sh w .go sh { w with pc := .setHold f isCb }
  | hold {f : FiberId} {isCb : Bool} (pc : w.pc = .setHold f isCb) :
    LoopStep me sh w .go (sh.setState f .hold)
      { w with pc := .scan, cbFiber := if isCb then none else w.cbFiber }
  | discard (pc : w.pc = .discard) :
    LoopStep me sh w .go { sh with activeThreadCount := sh.activeThreadCount - 1 }
      { w with pc := .scan }
  | tickle {next : Pc} (pc : w.pc = .tickle next) :
    LoopStep me sh w .go sh
      { w with pc := if 0 < sh.idleThreadCount then .write next else next }
  | write {next : Pc} (pc : w.pc = .write next) :
    LoopStep me sh w .go { sh with pipe := sh.pipe + 1 } { w with pc := next }
  | countDown {next : Pc} (pc : w.pc = .countDown next) :
    LoopStep me sh w .go { sh with pendingEventCount := sh.pendingEventCount - 1 }
      { w with pc := next }
  /-- The code of a task ends, throws or yields. -/
  | leave {f : FiberId} {isCb : Bool} {c : Choice} {state : FiberState} (pc : w.pc = .inside f isCb)
    (leaves : c.leaves? = some state) :
    LoopStep me sh w c (sh.setState f state) { w with pc := .leaving f isCb }
  | schedule {reqs : List Req} {thread : Option Nat} (pc : w.pc.InTask) (knows : sh.knows reqs) :
    LoopStep me sh w (.schedule reqs thread) (sh.scheduleAll thread reqs)
      { w with pc := .tickled (sh.needTickle reqs) w.pc }
  | newFiber (pc : w.pc.InTask) :
    LoopStep me sh w .newFiber (sh.newFiber.setGiven sh.made true) w
  | giveAway {f : FiberId} {isCb : Bool} (pc : w.pc = .inside f isCb) :
    LoopStep me sh w .giveAway (sh.setGiven f true) w
  | addTimer {front : Bool} (pc : w.pc.InTask) :
    LoopStep me sh w (.addTimer front) { sh with timers := sh.timers + 1 }
      { w with pc := .tickled front w.pc }
  | cancelTimer (pc : w.pc.InTask) (timers : 0 < sh.timers) :
    LoopStep me sh w .cancelTimer { sh with timers := sh.timers - 1 } w
  | addEvent (pc : w.pc.InTask) :
    LoopStep me sh w .addEvent
      { sh with events := sh.events + 1, pendingEventCount := sh.pendingEventCount + 1 } w
  | delEvent (pc : w.pc.InTask) (events : 0 < sh.events) :
    LoopStep me sh w .delEvent
      { sh with events := sh.events - 1, pendingEventCount := sh.pendingEventCount - 1 } w
  /-- An event is triggered, by a task or in `idle`. -/
  | trigger {req : Req} (pc : w.pc.InTask ∨ w.pc = .gotEvents) (knows : sh.knows [req])
    (events : 0 < sh.events) :
    LoopStep me sh w (.trigger req) { sh.scheduleAll none [req] with events := sh.events - 1 }
      { w with pc := .tickled (sh.needTickle [req]) (.countDown w.pc) }
  | stop (pc : w.pc = .outside) :
    LoopStep me sh w .stop { sh with autoStop := true } { w with pc := .setStopping }
  | setStopping (pc : w.pc = .setStopping) :
    LoopStep me sh w .go { sh with stopping := true }
      { w with
        pc := if sh.threadCount = 0 then .test .first .timers
          else tickles (.test .second .timers) (sh.threadCount + 1) }
  | testNext {call : StopCall} {t t' : StopTest} (pc : w.pc = .test call t) (holds : t.holds sh)
    (next : t.next? = some t') : LoopStep me sh w .go sh { w with pc := .test call t' }
  /-- `stopping` returns true. -/
  | testTrue {call : StopCall} {t : StopTest} (pc : w.pc = .test call t) (holds : t.holds sh)
    (next : t.next? = none) : LoopStep me sh w .go sh (call.returned sh w true)
  /-- `stopping` returns false. -/
  | testFalse {call : StopCall} {t : StopTest} (pc : w.pc = .test call t) (holds : t.holds sh = false) :
    LoopStep me sh w .go sh (call.returned sh w false)
  | finish (pc : w.pc = .idleTest) (idleTerm : w.idleTerm = true) :
    LoopStep me sh w .go sh { w with pc := .ended }
  | idle (pc : w.pc = .idleTest) (idleTerm : w.idleTerm = false) :
    LoopStep me sh w .go { sh with idleThreadCount := sh.idleThreadCount + 1 }
      { w with pc := .test .idle .timers }
  | wakeUp (pc : w.pc = .wait) : LoopStep me sh w .go sh { w with pc := .expired }
  | expire {cbs gone : Nat} (pc : w.pc = .expired) (gone_le : gone ≤ cbs ∧ gone ≤ sh.timers) :
    LoopStep me sh w (.expire cbs gone)
      { sh.scheduleAll none (List.replicate cbs .cb) with timers := sh.timers - gone }
      { w with pc := .tickled (sh.needTickle (List.replicate cbs .cb)) .gotEvents }
  | drain (pc : w.pc = .gotEvents) : LoopStep me sh w .drain { sh with pipe := 0 } w
  | done (pc : w.pc = .gotEvents) : LoopStep me sh w .done sh { w with pc := .idleOut }
  | idleOut (pc : w.pc = .idleOut) :
    LoopStep me sh w .go { sh with idleThreadCount := sh.idleThreadCount - 1 }
      { w with pc := .scan }

section

variable {me : Nat} {sh sh' : Shared} {w w' : Worker} {c : Choice}

theorem Worker.runStep?_steps (h : w.runStep? me sh = some (sh', w')) : LoopStep me sh w .go sh' w' := by
  cases hpc : w.pc with
  | scan =>
    simp only [runStep?, hpc] at h
    split at h
    · next hscan =>
      cases h
      exact .scanNone hpc hscan
    · next hscan =>
      cases h
      exact .scanSome hpc hscan
  | scanned ft =>
    -- nothing, a callback, or a fiber
    obtain _ | ⟨c | f, thread⟩ := ft
    · simp only [runStep?, hpc] at h
      cases h
      exact .toIdle hpc
    · simp only [runStep?, hpc] at h
      split at h
      · next hcb =>
        cases h
        exact .toNewCb hpc hcb
      · next f hcb =>
        split at h
        · next hstate =>
          cases h
          exact .toCb hpc hcb hstate
        · next hstate =>
          cases h
          exact .abortReset hpc hcb hstate
    · simp only [runStep?, hpc] at h
      split at h
      · next hended =>
        cases h
        exact .toDiscard hpc hended
      · next hended =>
        cases h
        exact .toFiber hpc hended
  | swapIn f cb =>
    simp only [runStep?, hpc] at h
    split at h
    · next hstate =>
      cases h
      exact .abortSwap hpc hstate
    · next hstate =>
      cases h
      exact .swapIn hpc hstate
  | update f isCb =>
    simp only [runStep?, hpc] at h
    split at h
    · next hstate =>
      cases h
      exact .requeue hpc hstate
    · next hstate =>
      cases h
      exact .notReady hpc hstate
  | updateEnd f isCb =>
    simp only [runStep?, hpc] at h
    split at h
    · next hstate =>
      cases h
      exact .ended hpc hstate
    · next hstate =>
      cases h
      exact .notEnded hpc hstate
  | enter | leaving | returned | setHold | discard | tickle | write | countDown =>
    simp only [runStep?, hpc] at h
    cases h
    first
      | exact .enter hpc | exact .save hpc | exact .back hpc | exact .hold hpc | exact .discard hpc
      | exact .tickle hpc | exact .write hpc | exact .countDown hpc
  | outside | setStopping | inside | idleTest | test | wait | expired | gotEvents | idleOut | ended =>
    simp only [runStep?, hpc] at h
    cases h

theorem Worker.taskStep?_steps {f : FiberId} {isCb : Bool} (hpc : w.pc = .inside f isCb)
    (h : w.taskStep? sh f isCb c = some (sh', w')) : LoopStep me sh w c sh' w' := by
  -- what the code of a task does, while its worker is inside the fiber
  have htask : w.pc.InTask := ⟨f, isCb, hpc⟩
  cases c with
  | finish | throw | yieldReady | yieldHold =>
    cases h
    exact .leave hpc rfl
  | schedule reqs thread =>
    simp only [taskStep?] at h
    split at h
    · next hknows =>
      cases h
      exact .schedule htask hknows
    · cases h
  | trigger req =>
    simp only [taskStep?] at h
    split at h
    · next hif =>
      cases h
      exact .trigger (.inl htask) hif.1 hif.2
    · cases h
  | newFiber =>
    cases h
    exact .newFiber htask
  | giveAway =>
    cases h
    exact .giveAway hpc
  | addTimer front =>
    cases h
    exact .addTimer htask
  | addEvent =>
    cases h
    exact .addEvent htask
  | cancelTimer =>
    simp only [taskStep?] at h
    split at h
    · next htimers =>
      cases h
      exact .cancelTimer htask htimers
    · cases h
  | delEvent =>
    simp only [taskStep?] at h
    split at h
    · next hevents =>
      cases h
      exact .delEvent htask hevents
    · cases h
  | go | stop | expire | drain | done => cases h

theorem Worker.stopStep?_steps (h : w.stopStep? sh c = some (sh', w')) : LoopStep me sh w c sh' w' := by
  unfold stopStep? at h
  split at h <;> rename_i hpc
  · cases h
    exact .stop hpc
  · cases h
    exact .setStopping hpc
  · split at h
    · next hholds =>
      split at h
      · next hnext =>
        cases h
        exact .testNext hpc hholds hnext
      · next hnext =>
        cases h
        exact .testTrue hpc hholds hnext
    · next hholds =>
      cases h
      exact .testFalse hpc (Bool.eq_false_iff.mpr hholds)
  · cases h

theorem Worker.idleStep?_steps (h : w.idleStep? sh c = some (sh', w')) : LoopStep me sh w c sh' w' := by
  unfold idleStep? at h
  split at h <;> rename_i hpc
  · split at h
    · next hterm =>
      cases h
      exact .finish hpc hterm
    · next hterm =>
      cases h
      exact .idle hpc (Bool.eq_false_iff.mpr hterm)
  · cases h
    exact .wakeUp hpc
  · split at h
    · next hgone =>
      cases h
      exact .expire hpc hgone
    · cases h
  · cases h
    exact .drain hpc
  · split at h
    · next hif =>
      cases h
      rw [← hpc]
      exact .trigger (.inr hpc) hif.1 hif.2
    · cases h
  · cases h
    exact .done hpc
  · cases h
    exact .idleOut hpc
  · cases h

/-- **A step of a worker** is one of `LoopStep`. -/
theorem Worker.step?_steps (h : w.step? me sh c = some (sh', w')) :
    sh.aborted = false ∧ LoopStep me sh w c sh' w' := by
  unfold step? at h
  split at h
  · cases h
  · next hab =>
    refine ⟨Bool.eq_false_iff.mpr hab, ?_⟩
    split at h
    · next hpc => exact taskStep?_steps hpc h
    · exact stopStep?_steps h
    · exact stopStep?_steps h
    · exact stopStep?_steps h
    · exact idleStep?_steps h
    · exact idleStep?_steps h
    · exact idleStep?_steps h
    · exact idleStep?_steps h
    · exact idleStep?_steps h
    · cases h
    · split at h
      · exact runStep?_steps h
      · cases h

end

/-- The steps of another thread. -/
inductive OuterStep (sh : Shared) : Outer → Shared → Prop where
  | schedule {reqs : List Req} {thread : Option Nat} (knows : sh.knows reqs) :
    OuterStep sh (.schedule reqs thread)
      { sh.scheduleAll thread reqs with
        tickling := sh.tickling + if sh.needTickle reqs then 1 else 0 }
  | tickle (tickling : 0 < sh.tickling) :
    OuterStep sh .tickle
      { sh with
        tickling := sh.tickling - 1
        writing := sh.writing + if 0 < sh.idleThreadCount then 1 else 0 }
  | write (writing : 0 < sh.writing) :
    OuterStep sh .write { sh with writing := sh.writing - 1, pipe := sh.pipe + 1 }
  | newFiber : OuterStep sh .newFiber (sh.newFiber.setGiven sh.made true)
  | addTimer {front : Bool} :
    OuterStep sh (.addTimer front)
      { sh with timers := sh.timers + 1, tickling := sh.tickling + if front then 1 else 0 }
  | cancelTimer (timers : 0 < sh.timers) :
    OuterStep sh .cancelTimer { sh with timers := sh.timers - 1 }
  | stop : OuterStep sh .stop { sh with autoStop := true }
  | setStopping (autoStop : sh.autoStop = true) :
    OuterStep sh .setStopping
      { sh with stopping := true, tickling := sh.tickling + sh.threadCount }

theorem outerStep?_steps {sh sh' : Shared} {e : Outer} (h : outerStep? sh e = some sh') :
    sh.aborted = false ∧ OuterStep sh e sh' := by
  unfold outerStep? at h
  split at h
  · cases h
  · next hab =>
    refine ⟨Bool.eq_false_iff.mpr hab, ?_⟩
    cases e with
    | schedule | tickle | write | cancelTimer | setStopping =>
      dsimp only at h
      split at h
      · next hif =>
        cases h
        first
          | exact .schedule hif | exact .tickle hif | exact .write hif | exact .cancelTimer hif
          | exact .setStopping hif
      · cases h
    | newFiber | addTimer | stop =>
      cases h
      first | exact .newFiber | exact .addTimer | exact .stop

/-- **A step of a scheduler** is one of `LoopStep` or of `OuterStep`. -/
theorem Scheduler.step_cases {n : Nat} {s s' : Scheduler n} {l : SLabel n} (h : Step s l s') :
    s.shared.aborted = false ∧
      ((∃ i c x, l = .thread i c ∧ LoopStep i s.shared (s.thread i) c x.1 x.2 ∧ s' = s.set i x) ∨
        ∃ e shared, l = .outer e ∧ OuterStep s.shared e shared ∧ s' = { s with shared }) := by
  obtain ⟨i, c, x, hl, hx, hs'⟩ | ⟨e, shared, hl, hx, hs'⟩ := Threads.step?_cases h
  · obtain ⟨hab, hstep⟩ := Worker.step?_steps hx
    exact ⟨hab, .inl ⟨i, c, x, hl, hstep, hs'⟩⟩
  · obtain ⟨hab, hstep⟩ := outerStep?_steps hx
    exact ⟨hab, .inr ⟨e, shared, hl, hstep, hs'⟩⟩

end Sherry
