import OtaServer.Scheduler.Tasks

/-!
# The end of a scheduler (`Scheduler::stop`, `Scheduler::stopping`, `IOManager::stopping`)

A worker ends when `stopping` has once returned true in its `idle`, and a later scan takes nothing. It reads what
`stopping` tests one after the other.

* `Pc.scans`: a worker is going to look at the queue before it ends. `ScanInv`: while the queue is not empty, some
  worker is.
* `Pc.tests`: a worker is going to test for timers or for events before it ends. `TestInv`: while there is a timer or
  an event, some worker is.
* `Scheduler.mindsNew`: a timer or an event is added only while some worker is going to test for it.
* `stop_leaves_nothing`: what is left when all workers have ended. `stop_leaves_timer`: a run in which a timer is
  added behind the test for timers.
-/

namespace Sherry

open Lib

namespace Pc

/-- The worker is going to look at the queue before it ends. -/
def scans (idleTerm : Bool) : Pc → Bool
  | ended => false
  | scanned ft => ft.isSome || !idleTerm
  | idleTest => !idleTerm
  | test call t => call == .idle || t != .active
  | tickle next | write next | countDown next => next.scans idleTerm
  | _ => true

/-- The worker has seen that `m_autoStop` is set. -/
def late : Pc → Bool
  | ended | setStopping => true
  | test call t => call != .idle || t == .stopping || t == .queue || t == .active
  | tickle next | write next | countDown next => next.late
  | _ => false

/-- The worker is in the fiber `f`. -/
def runs (f : FiberId) : Pc → Bool
  | inside g _ => g = f
  | tickle next | write next | countDown next => next.runs f
  | _ => false

/-- How often the worker is going to count down `m_pendingEventCount`. -/
def countDowns : Pc → Nat
  | countDown next => next.countDowns + 1
  | tickle next | write next => next.countDowns
  | _ => 0

end Pc

/-- What remains to be done when there is no task: timers, or events. -/
inductive Rest where
  | timers | events
  deriving DecidableEq

namespace Rest

/-- How much of it there is, as `stopping` sees it. -/
def count (sh : Shared) : Rest → Nat
  | timers => sh.timers
  | events => sh.pendingEventCount

/-- `stopping` is going to test for it, from the test `t` on. -/
def ahead : Rest → StopTest → Bool
  | timers, t => t == .timers
  | events, t => t == .timers || t == .pending

/-- The task adds one. -/
def addedBy : Rest → Choice → Bool
  | timers, .addTimer _ => true
  | events, .addEvent => true
  | _, _ => false

end Rest

/-- The worker is going to test for `rest` before it ends. -/
def Pc.tests (rest : Rest) : Pc → Bool
  | ended => false
  | test _ t => rest.ahead t
  | tickle next | write next | countDown next => next.tests rest
  | _ => true

namespace Worker

/-- The worker is going to look at the queue. -/
def scans (w : Worker) : Bool := w.pc.scans w.idleTerm

/-- The worker has seen that `m_autoStop` is set. -/
def late (w : Worker) : Bool := w.idleTerm || w.pc.late

/-- The worker is going to test for `rest`. -/
def tests (w : Worker) (rest : Rest) : Bool := !w.idleTerm && w.pc.tests rest

end Worker

/-! ## The queue -/

/-- What a step of a worker does to those who are going to look at the queue. -/
inductive ScanEffect (me : Nat) (sh : Shared) (w : Worker) (sh' : Shared) (w' : Worker) : Prop where
  | scans (scans : w'.scans = true)
  | same (queue : sh'.queue = sh.queue) (scans : w.scans = false)
  | empty (queue : sh'.queue = [])
  /-- The worker takes nothing from the queue. -/
  | missed (tickleMe : Bool) (queue : sh'.queue = sh.queue) (pc : w.pc = .scan)
    (scan : scanQueue sh.fibers me sh.queue = (none, tickleMe))

section

variable {me : Nat} {sh sh' : Shared} {w w' : Worker} {c : Choice}

theorem ScanEffect.keep (queue : sh'.queue = sh.queue) (scans : w'.scans = w.scans) : ScanEffect me sh w sh' w' := by
  cases hscans : w.scans with
  | true => exact .scans (scans.trans hscans)
  | false => exact .same queue hscans

theorem Worker.scans_of_inTask (h : w.pc.InTask) : w.scans = true := by
  obtain ⟨f, isCb, hpc⟩ := h
  rw [scans, hpc]
  rfl

theorem LoopStep.scans (h : LoopStep me sh w c sh' w') : ScanEffect me sh w sh' w' := by
  cases h with
  | scanNone pc scan => exact .missed _ rfl pc scan
  | scanSome | requeue | expire => exact .scans (Pc.apply_tickled (fun _ => rfl) _ _)
  | toIdle pc => exact .keep rfl (by rw [Worker.scans, Worker.scans, pc]; rfl)
  | abortReset | abortSwap => exact .keep rfl rfl
  | tickle pc =>
    refine .keep rfl ?_
    rw [Worker.scans, Worker.scans, pc]
    dsimp only
    split <;> rfl
  | write pc | countDown pc => exact .keep rfl (by rw [Worker.scans, Worker.scans, pc]; rfl)
  | schedule pc | addTimer pc =>
    exact .scans ((Pc.apply_tickled (fun _ => rfl) _ _).trans (Worker.scans_of_inTask pc))
  | newFiber pc | cancelTimer pc | addEvent pc | delEvent pc => exact .scans (Worker.scans_of_inTask pc)
  | giveAway pc | drain pc => exact .scans (by rw [Worker.scans, pc]; rfl)
  | trigger pc =>
    refine .scans ((Pc.apply_tickled (fun _ => rfl) _ _).trans ?_)
    obtain htask | hgot := pc
    · exact Worker.scans_of_inTask htask
    · show w.scans = true
      rw [Worker.scans, hgot]
      rfl
  | setStopping pc =>
    refine .scans ?_
    rw [Worker.scans]
    dsimp only
    split
    · rfl
    · exact Pc.apply_tickles (fun _ => rfl) _ _
  | @testNext call t t' pc holds next =>
    cases t with
    -- the queue was empty when `stopping` looked
    | queue => exact .empty (of_decide_eq_true holds)
    | timers | pending | autoStop | stopping =>
      cases next
      exact .scans (by simp [Worker.scans, Pc.scans])
    | active => cases next
  | @testTrue call t pc holds next =>
    -- only `idle` leads back to the queue after a `stopping` that holds
    obtain rfl : t = .active := by cases t <;> first | rfl | cases next
    cases call with
    | idle => exact .scans rfl
    | first | second => exact .same rfl (by rw [Worker.scans, pc]; rfl)
  | @testFalse call t pc holds =>
    cases call with
    | idle | second => exact .scans rfl
    | first => exact .scans (Pc.apply_tickles (fun _ => rfl) _ _)
  | finish pc idleTerm => exact .same rfl (by rw [Worker.scans, pc, idleTerm]; rfl)
  | toDiscard | toFiber | toNewCb | toCb | swapIn | enter | save | back | notReady | ended | notEnded
    | hold | discard | leave | stop | idle | wakeUp | done | idleOut => exact .scans rfl

theorem LoopStep.autoStop (h : LoopStep me sh w c sh' w') (hset : sh.autoStop = true) : sh'.autoStop = true := by
  cases h with
  | requeue | schedule | trigger | expire =>
    rw [Shared.scheduleAll_eq]
    exact hset
  | @ended f isCb => cases isCb <;> exact hset
  | stop => rfl
  | _ => exact hset

/-- A worker has seen that `m_autoStop` is set only when it is. -/
theorem LoopStep.late (h : LoopStep me sh w c sh' w') (hw : w.late = true → sh.autoStop = true)
    (hw' : w'.late = true) : sh'.autoStop = true := by
  by_cases hlate : w.late = true
  · exact h.autoStop (hw hlate)
  have hkeep : w'.late = w.late → sh'.autoStop = true := fun heq => absurd (heq ▸ hw') hlate
  -- the worker gets late by this step
  obtain ⟨hterm, hpc⟩ : w.idleTerm = false ∧ w.pc.late = false := by
    simpa [Worker.late] using hlate
  cases h with
  | stop => rfl
  | scanNone pc | scanSome pc | requeue pc | expire pc =>
    exact hkeep (congrArg (w.idleTerm || ·) ((Pc.apply_tickled (fun _ => rfl) _ _).trans (by rw [pc]; rfl)))
  | schedule | addTimer => exact hkeep (congrArg (w.idleTerm || ·) (Pc.apply_tickled (fun _ => rfl) _ _))
  | trigger => exact hkeep (congrArg (w.idleTerm || ·) (Pc.apply_tickled (fun _ => rfl) _ _))
  | tickle pc =>
    refine hkeep ?_
    rw [Worker.late, Worker.late, pc]
    dsimp only
    split <;> rfl
  | setStopping pc =>
    rw [pc] at hpc
    cases hpc
  | @testNext call t t' pc holds next =>
    rw [pc] at hpc
    cases t with
    | autoStop => exact holds
    | timers | pending =>
      cases next
      exact hkeep (by rw [Worker.late, Worker.late, pc]; rfl)
    | stopping | queue => simp [Pc.late] at hpc
    | active => cases next
  | @testTrue call t pc holds next =>
    obtain rfl : t = .active := by cases t <;> first | rfl | cases next
    rw [pc] at hpc
    simp [Pc.late] at hpc
  | @testFalse call t pc holds =>
    cases call with
    | idle =>
      rw [Worker.late] at hw'
      simp [StopCall.returned, hterm, Pc.late] at hw'
    | first | second =>
      rw [pc] at hpc
      simp [Pc.late] at hpc
  | finish pc idleTerm =>
    rw [hterm] at idleTerm
    cases idleTerm
  | abortReset | abortSwap | newFiber | giveAway | cancelTimer | addEvent | delEvent | drain =>
    exact hkeep rfl
  | toIdle pc | toDiscard pc | toFiber pc | toNewCb pc | toCb pc | swapIn pc | enter pc | save pc | back pc
    | notReady pc | ended pc | notEnded pc | hold pc | discard pc | write pc | countDown pc | leave pc
    | idle pc | wakeUp pc | done pc | idleOut pc =>
    exact hkeep (by rw [Worker.late, Worker.late, pc]; rfl)

theorem Shared.setFiber_exec {f g : FiberId} {fiber : Fiber}
    (h : ((sh.setFiber g fiber).fibers f).state = .exec) (hne : fiber.state ≠ .exec) :
    g ≠ f ∧ (sh.fibers f).state = .exec := by
  by_cases hfg : f = g
  · subst hfg
    rw [Shared.setFiber_self] at h
    exact absurd h hne
  · rw [Shared.setFiber_ne _ _ hfg] at h
    exact ⟨Ne.symm hfg, h⟩

theorem Choice.leaves?_ne_exec {state : FiberState} (h : c.leaves? = some state) : state ≠ .exec := by
  rintro rfl
  cases c <;> cases h

/-- A fiber that is executed is in the state `EXEC` since a worker entered it. -/
theorem LoopStep.exec (h : LoopStep me sh w c sh' w') {f : FiberId} (hexec : (sh'.fibers f).state = .exec) :
    w'.pc.runs f = true ∨ (sh.fibers f).state = .exec ∧ w.pc.runs f = false := by
  -- a step that the fiber has no part in
  have hkeep : (sh.fibers f).state = .exec → w'.pc.runs f = w.pc.runs f →
      w'.pc.runs f = true ∨ (sh.fibers f).state = .exec ∧ w.pc.runs f = false := by
    intro hold hruns
    cases hw : w.pc.runs f with
    | true => exact .inl (hruns.trans hw)
    | false => exact .inr ⟨hold, rfl⟩
  cases h with
  | scanNone pc | scanSome pc =>
    exact .inr ⟨hexec, by rw [pc]; rfl⟩
  | toNewCb pc | toCb pc =>
    exact .inr ⟨(Shared.setFiber_exec hexec nofun).2, by rw [pc]; rfl⟩
  | @enter g cb pc =>
    by_cases hfg : f = g
    · subst hfg
      exact .inl (decide_eq_true rfl)
    · rw [Shared.setFiber_ne _ _ hfg] at hexec
      exact .inr ⟨hexec, by rw [pc]; rfl⟩
  | @save g isCb pc =>
    refine .inr ⟨?_, by rw [pc]; rfl⟩
    by_cases hfg : f = g
    · subst hfg
      rw [Shared.setFiber_self] at hexec
      exact hexec
    · rw [Shared.setFiber_ne _ _ hfg] at hexec
      exact hexec
  | requeue pc | expire pc =>
    rw [Shared.scheduleAll_fibers] at hexec
    exact .inr ⟨hexec, by rw [pc]; rfl⟩
  | @ended g isCb pc =>
    refine .inr ⟨?_, by rw [pc]; rfl⟩
    cases isCb with
    | true => exact (Shared.setFiber_exec hexec nofun).2
    | false => exact hexec
  | hold pc => exact .inr ⟨(Shared.setFiber_exec hexec nofun).2, by rw [pc]; rfl⟩
  | leave pc leaves =>
    obtain ⟨hne, hold⟩ := Shared.setFiber_exec hexec (Choice.leaves?_ne_exec leaves)
    exact .inr ⟨hold, by rw [pc]; exact decide_eq_false hne⟩
  | schedule | trigger =>
    rw [Shared.scheduleAll_fibers] at hexec
    exact hkeep hexec (Pc.apply_tickled (fun _ => rfl) _ _)
  | newFiber => exact hkeep (Shared.setFiber_exec hexec nofun).2 rfl
  | addTimer => exact hkeep hexec (Pc.apply_tickled (fun _ => rfl) _ _)
  | tickle pc =>
    refine hkeep hexec ?_
    rw [pc]
    dsimp only
    split <;> rfl
  | write pc | countDown pc => exact hkeep hexec (by rw [pc]; rfl)
  | abortReset | abortSwap | giveAway | cancelTimer | addEvent | delEvent | drain => exact hkeep hexec rfl
  | toIdle pc | toDiscard pc | toFiber pc | swapIn pc | back pc | notReady pc | notEnded pc | discard pc
    | stop pc | setStopping pc | testNext pc | testTrue pc | testFalse pc | finish pc | idle pc | wakeUp pc
    | done pc | idleOut pc =>
    exact .inr ⟨hexec, by rw [pc]; rfl⟩

/-- The count of the events follows the worker, if it is not too small. -/
theorem LoopStep.pending (h : LoopStep me sh w c sh' w') (hle : sh.events + w.pc.countDowns ≤ sh.pendingEventCount) :
    sh'.pendingEventCount + sh.events + w.pc.countDowns = sh.pendingEventCount + sh'.events + w'.pc.countDowns := by
  -- an event that is triggered is counted down later, by its worker
  cases h with
  | scanNone pc | scanSome pc =>
    rw [Pc.apply_tickled (g := Pc.countDowns) fun _ => rfl, pc]
    rfl
  | requeue pc | expire pc =>
    rw [Pc.apply_tickled (g := Pc.countDowns) fun _ => rfl, pc, Shared.scheduleAll_eq]
    rfl
  | schedule =>
    rw [Pc.apply_tickled (g := Pc.countDowns) fun _ => rfl, Shared.scheduleAll_eq]
  | addTimer => rw [Pc.apply_tickled (g := Pc.countDowns) fun _ => rfl]
  | trigger pc knows events =>
    rw [Pc.apply_tickled (g := Pc.countDowns) fun _ => rfl, Shared.scheduleAll_eq]
    simp only [Pc.countDowns]
    omega
  | tickle pc =>
    rw [pc]
    dsimp only
    split <;> rfl
  | countDown pc =>
    rw [pc] at hle ⊢
    simp only [Pc.countDowns] at hle ⊢
    omega
  | addEvent =>
    dsimp only
    omega
  | delEvent pc events =>
    dsimp only
    omega
  | setStopping pc =>
    rw [pc]
    dsimp only
    split
    · rfl
    · rw [Pc.apply_tickles (g := Pc.countDowns) fun _ => rfl]
      rfl
  | @testTrue call t pc =>
    rw [pc]
    cases call <;> rfl
  | @testFalse call t pc =>
    rw [pc]
    cases call with
    | idle | second => rfl
    | first =>
      simp only [StopCall.returned]
      rw [if_neg Bool.false_ne_true, Pc.apply_tickles (g := Pc.countDowns) fun _ => rfl]
      rfl
  | @ended f isCb pc =>
    rw [pc]
    cases isCb <;> rfl
  | abortReset | abortSwap | newFiber | giveAway | cancelTimer | drain => rfl
  | toIdle pc | toDiscard pc | toFiber pc | toNewCb pc | toCb pc | swapIn pc | enter pc | save pc | back pc
    | notReady pc | notEnded pc | hold pc | discard pc | write pc | leave pc | stop pc | testNext pc
    | finish pc | idle pc | wakeUp pc | done pc | idleOut pc =>
    rw [pc]
    rfl

/-- `stopping` goes on with the next test: the test for `rest` is still ahead, or there is no `rest`. -/
theorem Rest.ahead_next {rest : Rest} {t t' : StopTest} (holds : t.holds sh = true)
    (next : t.next? = some t') (hcount : 0 < rest.count sh) : rest.ahead t' = rest.ahead t := by
  have hzero : ∀ {k : Nat}, decide (k = 0) = true → ¬0 < k := fun h => by
    rw [of_decide_eq_true h]
    exact Nat.lt_irrefl 0
  cases rest <;> cases t <;> cases next
  case timers.timers.refl => exact absurd hcount (hzero holds)
  case events.pending.refl => exact absurd hcount (hzero holds)
  all_goals rfl

theorem Rest.count_le (rest : Rest) (htimers : sh'.timers ≤ sh.timers)
    (hpending : sh'.pendingEventCount ≤ sh.pendingEventCount) : rest.count sh' ≤ rest.count sh := by
  cases rest
  · exact htimers
  · exact hpending

/-- While there is something left, a worker that is going to test for it still is, after its step. -/
theorem LoopStep.tests (h : LoopStep me sh w c sh' w') {rest : Rest} (hcount : 0 < rest.count sh') :
    w'.tests rest = true ∨ w.tests rest = false ∧ (0 < rest.count sh ∨ rest.addedBy c = true) := by
  -- most steps keep the tests of the worker, and what is left
  have hkeep : (0 < rest.count sh ∨ rest.addedBy c = true) → w'.tests rest = w.tests rest →
      w'.tests rest = true ∨
        w.tests rest = false ∧ (0 < rest.count sh ∨ rest.addedBy c = true) := by
    intro hold htests
    cases hw : w.tests rest with
    | true => exact .inl (htests.trans hw)
    | false => exact .inr ⟨rfl, hold⟩
  have htickled : ∀ {need : Bool} {p : Pc}, (!w.idleTerm && (Pc.tickled need p).tests rest) =
      (!w.idleTerm && p.tests rest) := congrArg (!w.idleTerm && ·) (Pc.apply_tickled (fun _ => rfl) _ _)
  cases h with
  | scanNone pc | scanSome pc =>
    refine hkeep (.inl hcount) (htickled.trans ?_)
    rw [Worker.tests, pc]
    rfl
  | requeue pc =>
    refine hkeep (.inl ?_) (htickled.trans ?_)
    · rw [Shared.scheduleAll_eq] at hcount
      exact hcount
    · rw [Worker.tests, pc]
      rfl
  | schedule | trigger =>
    refine hkeep (.inl ?_) htickled
    rw [Shared.scheduleAll_eq] at hcount
    exact hcount
  | expire pc =>
    refine hkeep (.inl ?_) (htickled.trans ?_)
    · rw [Shared.scheduleAll_eq] at hcount
      exact Nat.lt_of_lt_of_le hcount (rest.count_le (Nat.sub_le _ _) (Nat.le_refl _))
    · rw [Worker.tests, pc]
      rfl
  | addTimer =>
    refine hkeep ?_ htickled
    cases rest
    · exact .inr rfl
    · exact .inl hcount
  | addEvent =>
    refine hkeep ?_ rfl
    cases rest
    · exact .inl hcount
    · exact .inr rfl
  | cancelTimer =>
    refine hkeep (.inl ?_) rfl
    exact Nat.lt_of_lt_of_le hcount (rest.count_le (Nat.sub_le _ _) (Nat.le_refl _))
  | delEvent =>
    refine hkeep (.inl ?_) rfl
    exact Nat.lt_of_lt_of_le hcount (rest.count_le (Nat.le_refl _) (Nat.sub_le _ _))
  | countDown pc =>
    refine hkeep (.inl ?_) (by rw [Worker.tests, Worker.tests, pc]; rfl)
    exact Nat.lt_of_lt_of_le hcount (rest.count_le (Nat.le_refl _) (Nat.sub_le _ _))
  | tickle pc =>
    refine hkeep (.inl hcount) ?_
    rw [Worker.tests, Worker.tests, pc]
    dsimp only
    split <;> rfl
  | setStopping pc =>
    refine hkeep (.inl hcount) ?_
    rw [Worker.tests, Worker.tests, pc]
    refine congrArg (!w.idleTerm && ·) ?_
    dsimp only
    split
    · cases rest <;> rfl
    · rw [Pc.apply_tickles (g := Pc.tests rest) fun _ => rfl]
      cases rest <;> rfl
  | @testNext call t t' pc holds next =>
    refine hkeep (.inl hcount) ?_
    rw [Worker.tests, Worker.tests, pc]
    exact congrArg (!w.idleTerm && ·) (rest.ahead_next holds next hcount)
  | @testTrue call t pc holds next =>
    -- only the last test ends `stopping`, and the one for `rest` is before it
    obtain rfl : t = .active := by cases t <;> first | rfl | cases next
    refine .inr ⟨?_, .inl hcount⟩
    rw [Worker.tests, pc]
    cases rest <;> exact Bool.and_false _
  | @testFalse call t pc holds =>
    cases hterm : w.idleTerm with
    | true => exact .inr ⟨by rw [Worker.tests, hterm]; rfl, .inl hcount⟩
    | false =>
      -- a test has failed: the worker tests again
      refine .inl ?_
      cases call with
      | idle | second => simp [StopCall.returned, Worker.tests, hterm, Pc.tests]
      | first =>
        simp only [StopCall.returned, Worker.tests, hterm]
        rw [if_neg Bool.false_ne_true, Pc.apply_tickles (g := Pc.tests rest) fun _ => rfl]
        cases rest <;> rfl
  | finish pc idleTerm => exact .inr ⟨by rw [Worker.tests, idleTerm]; rfl, .inl hcount⟩
  | idle pc =>
    refine hkeep (.inl hcount) ?_
    rw [Worker.tests, Worker.tests, pc]
    cases rest <;> rfl
  | @ended f isCb pc =>
    refine hkeep (.inl ?_) (by rw [Worker.tests, Worker.tests, pc]; rfl)
    cases isCb <;> exact hcount
  | abortReset | abortSwap | newFiber | giveAway | drain => exact hkeep (.inl hcount) rfl
  | toIdle pc | toDiscard pc | toFiber pc | toNewCb pc | toCb pc | swapIn pc | enter pc | save pc | back pc
    | notReady pc | notEnded pc | hold pc | discard pc | write pc | leave pc | stop pc | wakeUp pc
    | done pc | idleOut pc =>
    exact hkeep (.inl hcount) (by rw [Worker.tests, Worker.tests, pc]; rfl)

/-- The tasks of the queue are for any worker. -/
theorem LoopStep.unpinned (h : LoopStep me sh w c sh' w') (hold : ∀ t ∈ sh.queue, t.thread = none)
    (hc : ∀ reqs thread, c = .schedule reqs thread → thread = none) : ∀ t ∈ sh'.queue, t.thread = none := by
  have hadd : ∀ {k : Nat} {reqs : List Req},
      ∀ t ∈ sh.queue ++ Shared.newTasks none k reqs, t.thread = none := by
    intro k reqs t ht
    obtain ht | ht := List.mem_append.mp ht
    · exact hold t ht
    · exact Shared.thread_newTasks ht
  cases h with
  | scanSome pc scan =>
    obtain ⟨-, -, front, back, hqueue, hrest⟩ := scanQueue_some scan
    intro t ht
    refine hold t ?_
    rw [hqueue]
    rw [hrest] at ht
    obtain ht | ht := List.mem_append.mp ht
    · exact List.mem_append_left _ ht
    · exact List.mem_append_right _ (List.mem_cons_of_mem _ ht)
  | requeue | trigger | expire =>
    rw [Shared.scheduleAll_eq]
    exact hadd
  | @schedule reqs thread =>
    rw [hc reqs thread rfl, Shared.scheduleAll_eq]
    exact hadd
  | @ended f isCb => cases isCb <;> exact hold
  | _ => exact hold

theorem Pc.scans_of_not_late {p : Pc} (h : p.late = false) : p.scans false = true := by
  induction p with
  | scanned ft => cases ft <;> rfl
  | test call t =>
    cases call with
    | idle => rfl
    | first | second => cases h
  | ended => cases h
  | tickle next ih | write next ih | countDown next ih => exact ih h
  | _ => rfl

/-- A worker that has not seen that `m_autoStop` is set is going to look at the queue. -/
theorem Worker.scans_of_not_late (h : w.late = false) : w.scans = true := by
  obtain ⟨hterm, hpc⟩ := Bool.or_eq_false_iff.mp h
  rw [scans, hterm]
  exact Pc.scans_of_not_late hpc

theorem Pc.scans_of_runs {f : FiberId} {idleTerm : Bool} {p : Pc} (h : p.runs f = true) :
    p.scans idleTerm = true := by
  induction p with
  | inside => rfl
  | tickle next ih | write next ih | countDown next ih => exact ih h
  | _ => cases h

end

namespace Scheduler

variable {n : Nat} {s s' : Scheduler n} {i : Fin n} {x : Shared × Worker} {l : SLabel n}

/-- Tasks are scheduled before `stop` or by the workers, and no task is for one thread. -/
def ownTasks (s : Scheduler n) : SLabel n → Bool
  | .outer (.schedule _ thread) => !s.shared.autoStop && thread.isNone
  | .thread _ (.schedule _ thread) => thread.isNone
  | _ => true

/-- A timer or an event is added only while some worker is going to test for it. -/
def mindsNew (s : Scheduler n) : SLabel n → Bool
  | .thread _ (.addTimer _) | .outer (.addTimer _) => decide (∃ i, (s.thread i).tests .timers = true)
  | .thread _ .addEvent => decide (∃ i, (s.thread i).tests .events = true)
  | _ => true

/-- What holds of the queue and of the workers that are going to look at it. -/
structure StopInv (s : Scheduler n) : Prop where
  unpinned : ∀ t ∈ s.shared.queue, t.thread = none
  late : ∀ i, (s.thread i).late = true → s.shared.autoStop = true
  exec : ∀ f, (s.shared.fibers f).state = .exec → ∃ i, (s.thread i).pc.runs f = true
  scans : s.shared.queue ≠ [] → ∃ i, (s.thread i).scans = true
  pending : s.shared.pendingEventCount = s.shared.events + ∑ i, (s.thread i).pc.countDowns

namespace StopInv

theorem new (n : Nat) (useCaller : Bool) : StopInv (Scheduler.new n useCaller) where
  unpinned := nofun
  late := by
    intro i hlate
    change Worker.late { pc := if _ then _ else _ } = true at hlate
    split at hlate <;> cases hlate
  exec := nofun
  scans := fun h => absurd rfl h
  pending := by
    have hsum : ∑ i, ((Scheduler.new n useCaller).thread i).pc.countDowns = 0 := by
      refine Finset.sum_eq_zero fun i _ => ?_
      show Pc.countDowns (if _ then _ else _) = 0
      split <;> rfl
    rw [hsum]
    rfl

/-- A worker that takes nothing from a queue that is not empty sees a fiber that another worker is in. -/
theorem exists_runs (hinv : StopInv s) {tickleMe : Bool}
    (scan : scanQueue s.shared.fibers i s.shared.queue = (none, tickleMe)) (hqueue : s.shared.queue ≠ []) :
    ∃ j f, (s.thread j).pc.runs f = true := by
  obtain ⟨t, ht⟩ := List.exists_mem_of_ne_nil _ hqueue
  obtain helse | hexec := scanQueue_none scan t ht
  · simp [Task.elsewhere, hinv.unpinned t ht] at helse
  · obtain ⟨d | f, thread⟩ := t
    · cases hexec
    · obtain ⟨j, hj⟩ := hinv.exec f hexec
      exact ⟨j, f, hj⟩

theorem worker {c : Choice} (hinv : StopInv s) (hown : s.ownTasks (.thread i c) = true)
    (h : LoopStep i s.shared (s.thread i) c x.1 x.2) : StopInv (s.set i x) where
  unpinned := by
    refine h.unpinned hinv.unpinned ?_
    rintro reqs thread rfl
    exact Option.isNone_iff_eq_none.mp hown
  late := by
    intro k hk
    by_cases hki : k = i
    · subst hki
      rw [Threads.set_thread_self] at hk
      exact h.late (hinv.late k) hk
    · rw [Threads.set_thread_ne hki] at hk
      exact h.autoStop (hinv.late k hk)
  exec := by
    intro f hf
    obtain hruns | ⟨hold, hnot⟩ := h.exec hf
    · exact ⟨i, by rw [Threads.set_thread_self]; exact hruns⟩
    · obtain ⟨j, hj⟩ := hinv.exec f hold
      refine Threads.exists_set_of_ne (P := fun w : Worker => w.pc.runs f = true) hj ?_
      rintro rfl
      rw [hj] at hnot
      cases hnot
  scans := by
    intro hqueue
    cases h.scans with
    | scans scans => exact ⟨i, by rw [Threads.set_thread_self]; exact scans⟩
    | empty queue => exact absurd queue hqueue
    | same queue scans =>
      obtain ⟨j, hj⟩ := hinv.scans (queue ▸ hqueue)
      refine Threads.exists_set_of_ne (P := fun w : Worker => w.scans = true) hj ?_
      rintro rfl
      rw [hj] at scans
      cases scans
    | missed tickleMe queue pc scan =>
      -- the worker in the fiber is going to scan the queue again
      obtain ⟨j, f, hj⟩ := hinv.exists_runs scan (queue ▸ hqueue)
      refine Threads.exists_set_of_ne (P := fun w : Worker => w.scans = true) (Pc.scans_of_runs hj) ?_
      rintro rfl
      rw [pc] at hj
      cases hj
  pending := by
    have hle := Threads.le_sum (s := s) (fun w => w.pc.countDowns) i
    have hold := hinv.pending
    have hstep := h.pending (by omega)
    have hsum := Threads.sum_set (s := s) (i := i) (x := x) fun w => w.pc.countDowns
    show x.1.pendingEventCount = x.1.events + _
    omega

theorem outer {e : Outer} {shared : Shared} (hn : 0 < n) (hinv : StopInv s)
    (hown : s.ownTasks (.outer e) = true) (h : OuterStep s.shared e shared) : StopInv { s with shared } := by
  cases h with
  | @schedule reqs thread =>
    rw [Shared.scheduleAll_eq]
    obtain ⟨hauto, hthread⟩ := Bool.and_eq_true_iff.mp hown
    obtain rfl := Option.isNone_iff_eq_none.mp hthread
    refine ⟨?_, hinv.late, hinv.exec, fun _ => ⟨⟨0, hn⟩, ?_⟩, hinv.pending⟩
    · intro t ht
      obtain ht | ht := List.mem_append.mp ht
      · exact hinv.unpinned t ht
      · exact Shared.thread_newTasks ht
    · -- `m_autoStop` is not set, and every worker is going to look at the queue
      refine Worker.scans_of_not_late (Bool.eq_false_iff.mpr fun hlate => ?_)
      rw [hinv.late _ hlate] at hauto
      cases hauto
  | newFiber =>
    exact ⟨hinv.unpinned, hinv.late, fun f hf => hinv.exec f (Shared.setFiber_exec hf nofun).2, hinv.scans,
      hinv.pending⟩
  | stop => exact ⟨hinv.unpinned, fun _ _ => rfl, hinv.exec, hinv.scans, hinv.pending⟩
  | _ => exact ⟨hinv.unpinned, hinv.late, hinv.exec, hinv.scans, hinv.pending⟩

theorem step (hn : 0 < n) (hinv : StopInv s) (hown : s.ownTasks l = true) (h : Step s l s') : StopInv s' := by
  obtain ⟨-, ⟨i, c, x, rfl, hstep, rfl⟩ | ⟨e, shared, rfl, hstep, rfl⟩⟩ := step_cases h
  · exact hinv.worker hown hstep
  · exact hinv.outer hn hown hstep

end StopInv

/-! ## Timers and events -/

/-- While there is a timer or an event, some worker is going to test for it. -/
def TestInv (s : Scheduler n) : Prop :=
  ∀ rest : Rest, 0 < rest.count s.shared → ∃ i, (s.thread i).tests rest = true

/-- Any step keeps the invariant, if it adds nothing that no worker is going to test for. -/
theorem TestInv.step (hinv : TestInv s) (hminds : s.mindsNew l = true) (h : Step s l s') : TestInv s' := by
  intro rest hcount
  obtain ⟨-, ⟨i, c, x, rfl, hstep, rfl⟩ | ⟨e, shared, rfl, hstep, rfl⟩⟩ := step_cases h
  · obtain htests | ⟨hnot, hold⟩ := hstep.tests hcount
    · exact ⟨i, by rw [Threads.set_thread_self]; exact htests⟩
    · have hexists : ∃ j, (s.thread j).tests rest = true := by
        obtain hold | hadded := hold
        · exact hinv rest hold
        · cases rest <;> cases c <;> first | exact of_decide_eq_true hminds | cases hadded
      obtain ⟨j, hj⟩ := hexists
      refine Threads.exists_set_of_ne (P := fun w : Worker => w.tests rest = true) hj ?_
      rintro rfl
      rw [hj] at hnot
      cases hnot
  · cases hstep with
    | schedule =>
      rw [Shared.scheduleAll_eq] at hcount
      exact hinv rest hcount
    | addTimer =>
      cases rest with
      | timers => exact of_decide_eq_true hminds
      | events => exact hinv .events hcount
    | cancelTimer =>
      exact hinv rest (Nat.lt_of_lt_of_le hcount (rest.count_le (Nat.sub_le _ _) (Nat.le_refl _)))
    | _ => exact hinv rest hcount

end Scheduler

/-- **The end.** When all workers have ended, the queue is empty and every callback was started, if tasks are
scheduled only before `stop` or by the workers. There is no timer and no registered event, if in addition one is
added only while some worker is going to test for it. -/
theorem stop_leaves_nothing (n : Nat) (useCaller : Bool) (hn : 0 < n)
    {r : List (Scheduler.SLabel n × Scheduler n)}
    (hr : Run Scheduler.Step (Scheduler.new n useCaller) r)
    (hown : Meets (fun s l => s.ownTasks l = true) (Scheduler.new n useCaller) r) {s : Scheduler n}
    (hs : s = lastState (Scheduler.new n useCaller) r) (hended : ∀ i, (s.thread i).pc = .ended) :
    s.shared.queue = [] ∧ (∀ c, c < s.shared.scheduled → s.shared.startedBy c ≠ []) ∧
      (Meets (fun s l => s.mindsNew l = true) (Scheduler.new n useCaller) r →
        s.shared.timers = 0 ∧ s.shared.events = 0) := by
  have htasks : TaskInv s := by
    rw [hs]
    exact Run.inv_last (fun _ _ _ hi hstep => hi.step hstep) hr (TaskInv.new n useCaller)
  have hstop : s.StopInv := by
    rw [hs]
    exact (Run.inv (fun _ _ _ hi hc hstep => hi.step hn hc hstep) hr hown
      (Scheduler.StopInv.new n useCaller)).last (Scheduler.StopInv.new n useCaller)
  have hqueue : s.shared.queue = [] := by
    by_contra hne
    obtain ⟨i, hi⟩ := hstop.scans hne
    rw [Worker.scans, hended i] at hi
    cases hi
  refine ⟨hqueue, ?_, ?_⟩
  · intro c hc
    obtain hmem | hrem := htasks.scheduled c hc
    · rw [hqueue] at hmem
      cases hmem
    · obtain ⟨k, hk⟩ := Option.isSome_iff_exists.mp hrem
      obtain ⟨-, i, -, hstart | hheld⟩ := htasks.removed c k hk
      · rw [hstart]
        exact List.cons_ne_nil _ _
      · rw [hended i] at hheld
        cases hheld
  · intro hminds
    have hnew : (Scheduler.new n useCaller).TestInv := by
      intro rest hcount
      cases rest <;> cases hcount
    have htest : s.TestInv := by
      rw [hs]
      exact (Run.inv (fun _ _ _ hi hc hstep => hi.step hc hstep) hr hminds hnew).last hnew
    -- no worker is going to test for anything
    have hnone : ∀ rest : Rest, rest.count s.shared = 0 := by
      intro rest
      refine Nat.eq_zero_of_not_pos fun hcount => ?_
      obtain ⟨i, hi⟩ := htest rest hcount
      rw [Worker.tests, hended i] at hi
      simp [Pc.tests] at hi
    have hpending : s.shared.pendingEventCount = 0 := hnone .events
    have hsum := hstop.pending
    exact ⟨hnone .timers, by omega⟩

/-- A callback is scheduled and a timer is added. The callback registers an event; the timer expires and the event is
reported, each with a callback of its own; then `stop` is called, and the worker ends. -/
def runAndStop : List (Scheduler.SLabel 1) :=
  [.outer (.schedule [.cb] none), .outer .tickle, .outer (.addTimer false)] ++ goes 4 ++
    [.thread 0 .addEvent, .thread 0 .finish] ++ goes 9 ++ [.thread 0 (.expire 1 1)] ++ goes 2 ++
    [.thread 0 (.trigger .cb)] ++ goes 1 ++ [.thread 0 .drain, .thread 0 .done] ++ goes 1 ++
    [.outer .stop, .outer .setStopping] ++ goes 4 ++ [.thread 0 .finish] ++ goes 8 ++ [.thread 0 .finish] ++ goes 17
where
  /-- The worker goes on. -/
  goes (k : Nat) : List (Scheduler.SLabel 1) := List.replicate k (.thread 0 .go)

theorem stop_leaves_nothing_one :
    ∃ r : List (Scheduler.SLabel 1 × Scheduler 1), Run Scheduler.Step (Scheduler.new 1 false) r ∧
      (lastState (Scheduler.new 1 false) r).shared.scheduled = 3 ∧
      (lastState (Scheduler.new 1 false) r).shared.queue = [] ∧
      (∀ c, c < 3 → (lastState (Scheduler.new 1 false) r).shared.startedBy c ≠ []) ∧
      (lastState (Scheduler.new 1 false) r).shared.timers = 0 ∧
      (lastState (Scheduler.new 1 false) r).shared.events = 0 := by
  obtain ⟨r, hr, hown, hminds, hended, hthree⟩ := exists_run_of_trace?
    (f := Scheduler.step?) (s := Scheduler.new 1 false) runAndStop
    (P := fun r => Meets (fun s l => s.ownTasks l = true) (Scheduler.new 1 false) r ∧
      Meets (fun s l => s.mindsNew l = true) (Scheduler.new 1 false) r ∧
      (∀ i, ((lastState (Scheduler.new 1 false) r).thread i).pc = .ended) ∧
      (lastState (Scheduler.new 1 false) r).shared.scheduled = 3) (by decide +kernel)
  obtain ⟨hqueue, hstarted, hrest⟩ := stop_leaves_nothing 1 false Nat.one_pos hr hown rfl hended
  exact ⟨r, hr, hthree, hqueue, fun c hc => hstarted c (hthree ▸ hc), hrest hminds⟩

/-- A timer is added when the worker has seen that there is none, and then `stop` is called. -/
theorem stop_leaves_timer :
    ∃ r : List (Scheduler.SLabel 1 × Scheduler 1), Run Scheduler.Step (Scheduler.new 1 false) r ∧
      Meets (fun s l => s.ownTasks l = true) (Scheduler.new 1 false) r ∧
      (∀ i, ((lastState (Scheduler.new 1 false) r).thread i).pc = .ended) ∧
      (lastState (Scheduler.new 1 false) r).shared.timers = 1 := by
  exact exists_run_of_trace?
    (List.replicate 4 (.thread 0 .go) ++ [.outer (.addTimer true), .outer .tickle, .outer .write, .outer .stop,
      .outer .setStopping, .outer .tickle, .outer .write] ++ List.replicate 9 (.thread 0 .go))
    (by decide +kernel)

end Sherry
