import Mathlib.Algebra.BigOperators.Group.Finset.Piecewise
import OtaServer.Scheduler.Fibers

/-!
# Tasks (`Scheduler::run`)

What becomes of the tasks of the queue, and of the counter of the active workers.

* `Pc.busy`: a worker has taken a task and is not yet back from it. `Pc.held?`: a callback that a worker has taken and
  not yet started.
* `TaskEffect`: what a step does to tasks. Every step of a worker has such an effect (`LoopStep.effect`).
* `TaskInv`: what holds of the tasks.
* `Worker.step?_held`: a worker that has taken a callback comes closer to its start with each step.
* `scheduler_tasks`: any run.
-/

namespace Sherry

open Lib

/-- The callback of a task. -/
def Task.cb? (t : Task) : Option CbId :=
  match t.work with
  | .cb c => some c
  | .fiber _ => none

namespace Pc

/-- A task was taken, and it is neither run to its end or its yield nor discarded. -/
def busy : Pc → Bool
  | scanned ft => ft.isSome
  | swapIn _ _ | enter _ _ | inside _ _ | leaving _ _ | returned _ _ | discard => true
  | tickle next | write next | countDown next => next.busy
  | _ => false

/-- A callback that was taken and not yet started. -/
def held? : Pc → Option CbId
  | scanned ft => ft.bind Task.cb?
  | swapIn _ cb | enter _ cb => cb
  | tickle next | write next | countDown next => next.held?
  | _ => none

@[simp] theorem busy_tickled (need : Bool) (p : Pc) : (tickled need p).busy = p.busy :=
  Pc.apply_tickled (fun _ => rfl) need p

@[simp] theorem held?_tickled (need : Bool) (p : Pc) : (tickled need p).held? = p.held? :=
  Pc.apply_tickled (fun _ => rfl) need p

@[simp] theorem busy_tickles (p : Pc) (k : Nat) : (tickles p k).busy = p.busy :=
  Pc.apply_tickles (fun _ => rfl) p k

@[simp] theorem held?_tickles (p : Pc) (k : Nat) : (tickles p k).held? = p.held? :=
  Pc.apply_tickles (fun _ => rfl) p k

@[simp] theorem busy_returned (call : StopCall) (sh : Shared) (w : Worker) (result : Bool) :
    (call.returned sh w result).pc.busy = false := by
  cases call <;> cases result <;> simp [StopCall.returned, busy]

@[simp] theorem held?_returned (call : StopCall) (sh : Shared) (w : Worker) (result : Bool) :
    (call.returned sh w result).pc.held? = none := by
  cases call <;> cases result <;> simp [StopCall.returned, held?]

end Pc

/-- The callbacks of the tasks. -/
def cbs (queue : List Task) : List CbId := queue.filterMap Task.cb?

theorem cbs_newTasks (thread : Option Nat) (k : Nat) (reqs : List Req) :
    cbs (Shared.newTasks thread k reqs) = List.range' k (Shared.newCbs reqs) := by
  induction reqs generalizing k with
  | nil => rfl
  | cons req reqs ih =>
    cases req with
    | empty => exact ih k
    | fiber f => exact ih k
    | cb =>
      show k :: cbs (Shared.newTasks thread (k + 1) reqs) = _
      rw [ih, Shared.newCbs, List.range'_succ]

/-- What a step does to the callbacks. -/
inductive TaskEffect (me : Nat) (sh : Shared) (p : Pc) (sh' : Shared) (p' : Pc) : Prop where
  /-- Callbacks are scheduled, or nothing changes. -/
  | grow (k : Nat) (queue : cbs sh'.queue = cbs sh.queue ++ List.range' sh.scheduled k)
    (scheduled : sh'.scheduled = sh.scheduled + k) (removedBy : sh'.removedBy = sh.removedBy)
    (startedBy : sh'.startedBy = sh.startedBy) (held : p'.held? = p.held?)
  /-- A callback is taken from the queue. -/
  | dequeue (c : CbId) (front back : List CbId) (queue : cbs sh.queue = front ++ c :: back)
    (rest : cbs sh'.queue = front ++ back) (scheduled : sh'.scheduled = sh.scheduled)
    (removedBy : sh'.removedBy = fun d => if c = d then some me else sh.removedBy d)
    (startedBy : sh'.startedBy = sh.startedBy) (free : p.held? = none) (held : p'.held? = some c)
  /-- A callback is started. -/
  | start (c : CbId) (queue : cbs sh'.queue = cbs sh.queue) (scheduled : sh'.scheduled = sh.scheduled)
    (removedBy : sh'.removedBy = sh.removedBy)
    (startedBy : sh'.startedBy = fun d => if c = d then me :: sh.startedBy d else sh.startedBy d)
    (held : p.held? = some c) (free : p'.held? = none)

section

variable {me : Nat} {sh sh' : Shared} {w w' : Worker} {c : Choice} {p p' : Pc}

theorem TaskEffect.quiet (queue : cbs sh'.queue = cbs sh.queue) (scheduled : sh'.scheduled = sh.scheduled)
    (removedBy : sh'.removedBy = sh.removedBy) (startedBy : sh'.startedBy = sh.startedBy)
    (held : p'.held? = p.held?) : TaskEffect me sh p sh' p' :=
  .grow 0 (by rw [queue, List.range'_zero, List.append_nil]) scheduled removedBy startedBy held

theorem TaskEffect.scheduleAll (thread : Option Nat) (reqs : List Req)
    (queue : sh'.queue = (sh.scheduleAll thread reqs).queue)
    (scheduled : sh'.scheduled = (sh.scheduleAll thread reqs).scheduled)
    (removedBy : sh'.removedBy = (sh.scheduleAll thread reqs).removedBy)
    (startedBy : sh'.startedBy = (sh.scheduleAll thread reqs).startedBy)
    (held : p'.held? = p.held?) : TaskEffect me sh p sh' p' := by
  rw [Shared.scheduleAll_eq] at queue scheduled removedBy startedBy
  refine .grow (Shared.newCbs reqs) ?_ scheduled removedBy startedBy held
  rw [queue, ← cbs_newTasks thread]
  exact List.filterMap_append

theorem TaskEffect.take {t : Task} {queue : List Task} {tickleMe : Bool}
    (hscan : scanQueue sh.fibers me sh.queue = (some (t, queue), tickleMe)) (hqueue : sh'.queue = queue)
    (scheduled : sh'.scheduled = sh.scheduled)
    (removedBy : sh'.removedBy = fun c => if t.work = .cb c then some me else sh.removedBy c)
    (startedBy : sh'.startedBy = sh.startedBy) (free : p.held? = none) (held : p'.held? = t.cb?) :
    TaskEffect me sh p sh' p' := by
  obtain ⟨-, -, front, back, hfront, hrest⟩ := scanQueue_some hscan
  have hnew : cbs sh'.queue = cbs front ++ cbs back := by
    rw [hqueue, hrest]
    exact List.filterMap_append
  have hold : cbs sh.queue = cbs front ++ cbs (t :: back) := by
    rw [hfront]
    exact List.filterMap_append
  obtain ⟨c | f, thread⟩ := t
  · refine .dequeue c (cbs front) (cbs back) hold hnew scheduled ?_ startedBy free held
    simpa only [Work.cb.injEq] using removedBy
  · refine .quiet (hnew.trans hold.symm) scheduled ?_ startedBy (held.trans free.symm)
    simpa only [reduceCtorEq, if_false] using removedBy

/-- **One step of a worker** has an effect on the callbacks. -/
theorem LoopStep.effect (h : LoopStep me sh w c sh' w') : TaskEffect me sh w.pc sh' w'.pc := by
  cases h with
  | scanNone pc =>
    rw [pc]
    exact .quiet rfl rfl rfl rfl (Pc.held?_tickled _ _)
  | scanSome pc scan =>
    rw [pc]
    exact .take scan rfl rfl rfl rfl rfl (Pc.held?_tickled _ _)
  | @enter f cb pc =>
    rw [pc]
    -- a callback starts when its fiber is entered
    cases cb with
    | none => exact .quiet rfl rfl rfl (by funext d; simp) rfl
    | some c => exact .start c rfl rfl rfl (by funext d; simp) rfl rfl
  | requeue pc | expire pc =>
    rw [pc]
    exact .scheduleAll _ _ rfl rfl rfl rfl (Pc.held?_tickled _ _)
  | schedule | trigger => exact .scheduleAll _ _ rfl rfl rfl rfl (Pc.held?_tickled _ _)
  | addTimer => exact .quiet rfl rfl rfl rfl (Pc.held?_tickled _ _)
  | @ended f isCb pc =>
    rw [pc]
    cases isCb <;> exact .quiet rfl rfl rfl rfl rfl
  | tickle pc =>
    rw [pc]
    refine .quiet rfl rfl rfl rfl ?_
    dsimp only
    split <;> rfl
  | setStopping pc =>
    rw [pc]
    refine .quiet rfl rfl rfl rfl ?_
    dsimp only
    split
    · rfl
    · exact Pc.held?_tickles _ _
  | testTrue pc | testFalse pc =>
    rw [pc]
    exact .quiet rfl rfl rfl rfl (Pc.held?_returned _ _ _ _)
  | abortReset | abortSwap | newFiber | giveAway | cancelTimer | addEvent | delEvent | drain =>
    exact .quiet rfl rfl rfl rfl rfl
  | toIdle pc | toDiscard pc | toFiber pc | toNewCb pc | toCb pc | swapIn pc | save pc | back pc
    | notReady pc | notEnded pc | hold pc | discard pc | write pc | countDown pc | leave pc | stop pc
    | testNext pc | finish pc | idle pc | wakeUp pc | done pc | idleOut pc =>
    rw [pc]
    exact .quiet rfl rfl rfl rfl rfl

/-- What is taken from the queue is for the worker that takes it, and is not executed. -/
def TakenOk (x : Nat × Task × FiberState) : Prop :=
  (x.2.1.thread = none ∨ x.2.1.thread = some x.1) ∧ x.2.2 ≠ .exec

theorem LoopStep.dequeued (h : LoopStep me sh w c sh' w') (hold : ∀ x ∈ sh.dequeued, TakenOk x) :
    ∀ x ∈ sh'.dequeued, TakenOk x := by
  cases h with
  | scanSome pc scan =>
    obtain ⟨hthread, hexec, -⟩ := scanQueue_some scan
    exact List.forall_mem_cons.mpr ⟨⟨hthread, hexec⟩, hold⟩
  | requeue | schedule | trigger | expire =>
    rw [Shared.scheduleAll_eq]
    exact hold
  | @ended f isCb => cases isCb <;> exact hold
  | _ => exact hold

/-- The counter follows the worker. The counter is not 0 when a busy worker subtracts. -/
theorem LoopStep.active (h : LoopStep me sh w c sh' w') (hpos : w.pc.busy.toNat ≤ sh.activeThreadCount) :
    sh'.activeThreadCount + w.pc.busy.toNat = sh.activeThreadCount + w'.pc.busy.toNat := by
  cases h with
  | scanNone pc => simp [pc, Pc.busy]
  | scanSome pc => simp [pc, Pc.busy]
  | back pc | discard pc =>
    rw [pc] at hpos ⊢
    exact Nat.sub_add_cancel hpos
  | requeue pc | expire pc => simp [pc, Shared.scheduleAll_eq, Pc.busy]
  | schedule | trigger => simp [Shared.scheduleAll_eq, Pc.busy]
  | addTimer => simp
  | @ended f isCb pc =>
    rw [pc]
    cases isCb <;> rfl
  | tickle pc =>
    rw [pc]
    dsimp only
    split <;> rfl
  | setStopping pc =>
    rw [pc]
    dsimp only
    split
    · rfl
    · rw [Pc.busy_tickles]
      rfl
  | testTrue pc | testFalse pc =>
    rw [pc, Pc.busy_returned]
    rfl
  | abortReset | abortSwap | newFiber | giveAway | cancelTimer | addEvent | delEvent | drain => rfl
  | toIdle pc | toDiscard pc | toFiber pc | toNewCb pc | toCb pc | swapIn pc | enter pc | save pc
    | notReady pc | notEnded pc | hold pc | write pc | countDown pc | leave pc | stop pc
    | testNext pc | finish pc | idle pc | wakeUp pc | done pc | idleOut pc =>
    rw [pc]
    rfl

end

/-- What holds of the tasks. -/
structure TaskInv {n : Nat} (s : Scheduler n) : Prop where
  active : s.shared.activeThreadCount = ∑ i, (s.thread i).pc.busy.toNat
  dequeued : ∀ x ∈ s.shared.dequeued, TakenOk x
  nodup : (cbs s.shared.queue).Nodup
  /-- A callback that is queued was not removed. -/
  queued : ∀ c ∈ cbs s.shared.queue, c < s.shared.scheduled ∧ s.shared.removedBy c = none
  /-- A callback that was scheduled is queued or was removed. -/
  scheduled : ∀ c, c < s.shared.scheduled → c ∈ cbs s.shared.queue ∨ (s.shared.removedBy c).isSome
  /-- A callback that was not removed was not started. -/
  unstarted : ∀ c, s.shared.removedBy c = none → s.shared.startedBy c = []
  holds : ∀ i c, (s.thread i).pc.held? = some c →
    s.shared.removedBy c = some i.val ∧ s.shared.startedBy c = []
  /-- A callback that was removed was started by the worker that removed it, or is going to be. -/
  removed : ∀ c k, s.shared.removedBy c = some k → c < s.shared.scheduled ∧
    ∃ i : Fin n, i.val = k ∧ (s.shared.startedBy c = [k] ∨ (s.thread i).pc.held? = some c)

namespace TaskInv

variable {n : Nat} {s : Scheduler n} {i : Fin n} {x : Shared × Worker}

theorem new (n : Nat) (useCaller : Bool) : TaskInv (Scheduler.new n useCaller) where
  active := by
    refine (Finset.sum_eq_zero fun i _ => ?_).symm
    show (Pc.busy (if _ then _ else _)).toNat = 0
    split <;> rfl
  dequeued := nofun
  nodup := List.nodup_nil
  queued := nofun
  scheduled := nofun
  unstarted := fun _ _ => rfl
  holds := by
    intro i c hheld
    change Pc.held? (if _ then _ else _) = _ at hheld
    split at hheld <;> cases hheld
  removed := nofun

theorem active_set {c : Choice} (hinv : TaskInv s) (h : LoopStep i s.shared (s.thread i) c x.1 x.2) :
    x.1.activeThreadCount = ∑ k, ((s.set i x).thread k).pc.busy.toNat := by
  have hle := Threads.le_sum (s := s) (fun w => w.pc.busy.toNat) i
  rw [← hinv.active] at hle
  have hactive := h.active hle
  have hsum := Threads.sum_set (s := s) (i := i) (x := x) fun w => w.pc.busy.toNat
  rw [← hinv.active] at hsum
  omega

theorem held?_set (s : Scheduler n) (i k : Fin n) (x : Shared × Worker) :
    ((s.set i x).thread k).pc.held? = if k = i then x.2.pc.held? else (s.thread k).pc.held? := by
  simp only [Threads.set]
  split <;> rfl

theorem grow {s' : Scheduler n} (hinv : TaskInv s)
    (hactive : s'.shared.activeThreadCount = ∑ k, (s'.thread k).pc.busy.toNat)
    (hdequeued : ∀ y ∈ s'.shared.dequeued, TakenOk y) {m : Nat}
    (queue : cbs s'.shared.queue = cbs s.shared.queue ++ List.range' s.shared.scheduled m)
    (scheduled : s'.shared.scheduled = s.shared.scheduled + m) (removedBy : s'.shared.removedBy = s.shared.removedBy)
    (startedBy : s'.shared.startedBy = s.shared.startedBy)
    (held : ∀ k, (s'.thread k).pc.held? = (s.thread k).pc.held?) : TaskInv s' := by
  refine ⟨hactive, hdequeued, ?_, ?_, ?_, ?_, ?_, ?_⟩
  · rw [queue]
    refine List.nodup_append.mpr ⟨hinv.nodup, List.nodup_range', ?_⟩
    intro a ha b hb
    exact Nat.ne_of_lt (Nat.lt_of_lt_of_le (hinv.queued a ha).1 (List.mem_range'_1.mp hb).1)
  · intro c hc
    rw [queue, List.mem_append, List.mem_range'_1] at hc
    rw [scheduled, removedBy]
    obtain hc | hc := hc
    · exact ⟨Nat.lt_add_right _ (hinv.queued c hc).1, (hinv.queued c hc).2⟩
    · refine ⟨hc.2, ?_⟩
      by_contra hne
      obtain ⟨k, hk⟩ := Option.ne_none_iff_exists'.mp hne
      exact absurd (hinv.removed c k hk).1 (Nat.not_lt.mpr hc.1)
  · intro c hc
    rw [scheduled] at hc
    rw [queue, removedBy, List.mem_append, List.mem_range'_1]
    by_cases hlt : c < s.shared.scheduled
    · obtain hmem | hrem := hinv.scheduled c hlt
      · exact .inl (.inl hmem)
      · exact .inr hrem
    · exact .inl (.inr ⟨Nat.le_of_not_lt hlt, hc⟩)
  · rw [removedBy, startedBy]
    exact hinv.unstarted
  · intro k c hk
    rw [held] at hk
    rw [removedBy, startedBy]
    exact hinv.holds k c hk
  · intro c k hk
    rw [removedBy] at hk
    rw [scheduled, startedBy]
    simp only [held]
    obtain ⟨hlt, hstart⟩ := hinv.removed c k hk
    exact ⟨Nat.lt_add_right _ hlt, hstart⟩

/-- Worker `i` takes callback `d` from the queue, and holds it. -/
theorem set_dequeue (hinv : TaskInv s)
    (hactive : x.1.activeThreadCount = ∑ k, ((s.set i x).thread k).pc.busy.toNat)
    (hdequeued : ∀ y ∈ x.1.dequeued, TakenOk y) {d : CbId} {front back : List CbId}
    (queue : cbs s.shared.queue = front ++ d :: back) (rest : cbs x.1.queue = front ++ back)
    (scheduled : x.1.scheduled = s.shared.scheduled)
    (removedBy : x.1.removedBy = fun c => if d = c then some i.val else s.shared.removedBy c)
    (startedBy : x.1.startedBy = s.shared.startedBy) (free : (s.thread i).pc.held? = none)
    (held : x.2.pc.held? = some d) : TaskInv (s.set i x) := by
  -- `d` was in the queue once, and is gone from the rest
  have hmiddle : (front ++ d :: back).Perm (d :: (front ++ back)) := List.perm_middle
  have hnodup : d ∉ front ++ back ∧ (front ++ back).Nodup := by
    have hnodup := hinv.nodup
    rw [queue] at hnodup
    exact List.nodup_cons.mp (hmiddle.nodup_iff.mp hnodup)
  have hmem : ∀ c, c ∈ cbs s.shared.queue ↔ c = d ∨ c ∈ front ++ back := by
    intro c
    rw [queue, hmiddle.mem_iff, List.mem_cons]
  obtain ⟨hlt, hnone⟩ := hinv.queued d ((hmem d).mpr (.inl rfl))
  have hne : ∀ {c}, c ∈ front ++ back → d ≠ c := fun hc heq => hnodup.1 (heq ▸ hc)
  refine ⟨hactive, hdequeued, ?_, ?_, ?_, ?_, ?_, ?_⟩
  · rw [Threads.set_shared, rest]
    exact hnodup.2
  · intro c hc
    rw [Threads.set_shared, rest] at hc
    rw [Threads.set_shared, scheduled, removedBy]
    dsimp only
    rw [if_neg (hne hc)]
    exact hinv.queued c ((hmem c).mpr (.inr hc))
  · intro c hc
    rw [Threads.set_shared, scheduled] at hc
    rw [Threads.set_shared, rest, removedBy]
    dsimp only
    split
    · exact .inr rfl
    · next hdc =>
      obtain hmemc | hrem := hinv.scheduled c hc
      · exact .inl (((hmem c).mp hmemc).resolve_left (Ne.symm hdc))
      · exact .inr hrem
  · intro c hc
    rw [Threads.set_shared, removedBy] at hc
    dsimp only at hc
    rw [Threads.set_shared, startedBy]
    split at hc
    · cases hc
    · exact hinv.unstarted c hc
  -- worker `i` holds `d`, and any other worker what it held
  · intro k c hk
    rw [held?_set] at hk
    rw [Threads.set_shared, removedBy, startedBy]
    dsimp only
    split at hk
    · next hki =>
      rw [held] at hk
      cases hk
      rw [if_pos rfl, hki]
      exact ⟨rfl, hinv.unstarted d hnone⟩
    · obtain ⟨hrem, hstart⟩ := hinv.holds k c hk
      rw [if_neg]
      · exact ⟨hrem, hstart⟩
      · rintro rfl
        rw [hnone] at hrem
        cases hrem
  · intro c k hk
    rw [Threads.set_shared, removedBy] at hk
    dsimp only at hk
    rw [Threads.set_shared, scheduled, startedBy]
    split at hk
    · next hdc =>
      rw [← hdc]
      refine ⟨hlt, i, Option.some.inj hk, .inr ?_⟩
      rw [held?_set, if_pos rfl, held]
    · obtain ⟨hltc, j, hj, hstart | hheldj⟩ := hinv.removed c k hk
      · exact ⟨hltc, j, hj, .inl hstart⟩
      · refine ⟨hltc, j, hj, .inr ?_⟩
        rw [held?_set, if_neg]
        · exact hheldj
        · rintro rfl
          rw [free] at hheldj
          cases hheldj

/-- Worker `i` starts callback `d`, which it holds. -/
theorem set_start (hinv : TaskInv s)
    (hactive : x.1.activeThreadCount = ∑ k, ((s.set i x).thread k).pc.busy.toNat)
    (hdequeued : ∀ y ∈ x.1.dequeued, TakenOk y) {d : CbId}
    (queue : cbs x.1.queue = cbs s.shared.queue) (scheduled : x.1.scheduled = s.shared.scheduled)
    (removedBy : x.1.removedBy = s.shared.removedBy)
    (startedBy : x.1.startedBy = fun c => if d = c then i.val :: s.shared.startedBy c
      else s.shared.startedBy c)
    (held : (s.thread i).pc.held? = some d) (free : x.2.pc.held? = none) : TaskInv (s.set i x) := by
  obtain ⟨hremoved, hunstarted⟩ := hinv.holds i d held
  have hstarted : ∀ c, x.1.startedBy c = if d = c then [i.val] else s.shared.startedBy c := by
    intro c
    rw [startedBy]
    dsimp only
    split
    · next hc => rw [← hc, hunstarted]
    · rfl
  -- no other worker holds the callback
  have hother : ∀ k c, ((s.set i x).thread k).pc.held? = some c →
      (s.thread k).pc.held? = some c ∧ d ≠ c := by
    intro k c hk
    rw [held?_set] at hk
    split at hk
    · rw [free] at hk
      cases hk
    · next hne =>
      refine ⟨hk, ?_⟩
      rintro rfl
      have hrem := (hinv.holds k d hk).1
      rw [hremoved] at hrem
      exact hne (Fin.ext (Option.some.inj hrem).symm)
  refine ⟨hactive, hdequeued, ?_, ?_, ?_, ?_, ?_, ?_⟩
  · rw [Threads.set_shared, queue]
    exact hinv.nodup
  · rw [Threads.set_shared, queue, scheduled, removedBy]
    exact hinv.queued
  · rw [Threads.set_shared, queue, scheduled, removedBy]
    exact hinv.scheduled
  · intro c hc
    rw [Threads.set_shared, removedBy] at hc
    rw [Threads.set_shared, hstarted, if_neg]
    · exact hinv.unstarted c hc
    · rintro rfl
      rw [hremoved] at hc
      cases hc
  · intro k c hk
    obtain ⟨hk, hne⟩ := hother k c hk
    rw [Threads.set_shared, removedBy, hstarted, if_neg hne]
    exact hinv.holds k c hk
  · intro c k hk
    rw [Threads.set_shared, removedBy] at hk
    rw [Threads.set_shared, scheduled, hstarted]
    obtain ⟨hlt, j, hj, hstart⟩ := hinv.removed c k hk
    refine ⟨hlt, j, hj, ?_⟩
    split
    · next hc =>
      rw [← hc, hremoved] at hk
      rw [Option.some.inj hk]
      exact .inl rfl
    · next hne =>
      obtain hstart | hheldj := hstart
      · exact .inl hstart
      · refine .inr ?_
        rw [held?_set, if_neg]
        · exact hheldj
        · rintro rfl
          rw [held] at hheldj
          exact hne (Option.some.inj hheldj)

theorem worker {c : Choice} (hinv : TaskInv s) (h : LoopStep i s.shared (s.thread i) c x.1 x.2) :
    TaskInv (s.set i x) := by
  have hactive := hinv.active_set h
  have hdequeued := h.dequeued hinv.dequeued
  cases h.effect with
  | grow m queue scheduled removedBy startedBy held =>
    refine hinv.grow hactive hdequeued queue scheduled removedBy startedBy fun k => ?_
    rw [held?_set]
    split
    · next hk => rw [hk, held]
    · rfl
  | dequeue d front back queue rest scheduled removedBy startedBy free held =>
    exact hinv.set_dequeue hactive hdequeued queue rest scheduled removedBy startedBy free held
  | start d queue scheduled removedBy startedBy held free =>
    exact hinv.set_start hactive hdequeued queue scheduled removedBy startedBy held free

theorem outer {e : Outer} {shared : Shared} (hinv : TaskInv s) (h : OuterStep s.shared e shared) :
    TaskInv { s with shared } := by
  cases h with
  | @schedule reqs thread knows =>
    rw [Shared.scheduleAll_eq]
    refine hinv.grow hinv.active hinv.dequeued ?_ rfl rfl rfl fun _ => rfl
    rw [← cbs_newTasks thread]
    exact List.filterMap_append
  | _ =>
    exact hinv.grow (m := 0) hinv.active hinv.dequeued (List.append_nil _).symm rfl rfl rfl fun _ => rfl

theorem step {s' : Scheduler n} {l : Scheduler.SLabel n} (hinv : TaskInv s)
    (h : Scheduler.Step s l s') : TaskInv s' := by
  obtain ⟨-, ⟨i, c, x, -, hstep, rfl⟩ | ⟨e, shared, -, hstep, rfl⟩⟩ := Scheduler.step_cases h
  · exact hinv.worker hstep
  · exact hinv.outer hstep

end TaskInv

/-! ## From the queue to the start -/

/-- The steps of a worker that has taken a callback, up to its start. -/
def Pc.toStart : Pc → Nat
  | scanned _ => 3
  | swapIn _ _ => 2
  | enter _ _ => 1
  | tickle next => next.toStart + 2
  | write next | countDown next => next.toStart + 1
  | _ => 0

/-- A worker that has taken a callback makes a step towards its start, or an assertion fails. -/
theorem Worker.step?_held (me : Nat) {sh : Shared} {w : Worker} {c : CbId}
    (hheld : w.pc.held? = some c) (hab : sh.aborted = false) :
    ∃ sh' w', w.step? me sh .go = some (sh', w') ∧ (sh'.aborted = true ∨
      w'.pc.held? = some c ∧ w'.pc.toStart < w.pc.toStart ∨ sh'.startedBy c = me :: sh.startedBy c) := by
  obtain ⟨pc, cbFiber, idleTerm⟩ := w
  cases pc with
  | scanned ft =>
    obtain _ | ⟨d | f, thread⟩ := ft
    · cases hheld
    · obtain rfl : d = c := Option.some.inj hheld
      cases cbFiber with
      | none =>
        exact ⟨_, _, by simp only [step?, hab, runStep?]; rfl, .inr (.inl ⟨rfl, by simp [Pc.toStart]⟩)⟩
      | some f =>
        by_cases hstate : (sh.fibers f).state = .term ∨ (sh.fibers f).state = .init ∨
            (sh.fibers f).state = .except
        · exact ⟨_, _, by simp only [step?, hab, runStep?, if_pos hstate]; rfl,
            .inr (.inl ⟨rfl, by simp [Pc.toStart]⟩)⟩
        -- the assertion of `Fiber::reset` fails
        · exact ⟨_, _, by simp only [step?, hab, runStep?, if_neg hstate]; rfl, .inl rfl⟩
    · cases hheld
  | swapIn f cb =>
    obtain rfl : cb = some c := hheld
    by_cases hstate : (sh.fibers f).state = .exec
    · exact ⟨_, _, by simp only [step?, hab, runStep?, if_pos hstate]; rfl, .inl rfl⟩
    · exact ⟨_, _, by simp only [step?, hab, runStep?, if_neg hstate]; rfl, .inr (.inl ⟨rfl, by simp [Pc.toStart]⟩)⟩
  | enter f cb =>
    obtain rfl : cb = some c := hheld
    exact ⟨_, _, by simp only [step?, hab, runStep?]; rfl, .inr (.inr (if_pos rfl))⟩
  | tickle next =>
    refine ⟨_, _, by simp only [step?, hab, runStep?]; rfl, .inr (.inl ?_)⟩
    dsimp only
    split
    · exact ⟨hheld, by simp [Pc.toStart]⟩
    · exact ⟨hheld, by simp [Pc.toStart]⟩
  | write next | countDown next =>
    refine ⟨_, _, by simp only [step?, hab, runStep?]; rfl, .inr (.inl ?_)⟩
    exact ⟨hheld, by simp [Pc.toStart]⟩
  | _ => cases hheld

namespace Scheduler

variable {n : Nat} {s : Scheduler n}

/-- No fiber gives itself away, and the fibers are scheduled as they are given. -/
def plain (s : Scheduler n) (l : SLabel n) : Bool :=
  s.disciplined l &&
    match l with
    | .thread _ .giveAway => false
    | _ => true

/-- What holds in a run in which no fiber gives itself away. -/
structure PlainInv (s : Scheduler n) : Prop where
  tasks : TaskInv s
  fibers : s.FibersInv 0
  aborted : s.shared.aborted = false

theorem PlainInv.new (n : Nat) (useCaller : Bool) : PlainInv (new n useCaller) :=
  ⟨TaskInv.new n useCaller, fibersInv_new n useCaller, rfl⟩

theorem PlainInv.step {s' : Scheduler n} {l : SLabel n} (hinv : PlainInv s) (hp : s.plain l = true)
    (h : Step s l s') : PlainInv s' := by
  obtain ⟨hd, hgive⟩ := Bool.and_eq_true_iff.mp hp
  refine ⟨hinv.tasks.step h, ?_, aborted_step hinv.fibers h⟩
  refine fibersInv_step (Nat.zero_le 1) hinv.fibers hd (fun hm => absurd hm (Nat.lt_irrefl 0)) ?_ h
  rintro i rfl
  cases hgive

/-- A worker that has taken a callback starts it by its own steps. -/
theorem PlainInv.exists_start (hinv : PlainInv s) {i : Fin n} {c : CbId} (hheld : (s.thread i).pc.held? = some c) :
    ∃ r : List (SLabel n × Scheduler n), Run Step s r ∧ (∀ x ∈ r, x.1 = .thread i .go) ∧
      (lastState s r).shared.startedBy c = [i.val] := by
  -- by induction on the number of steps up to the start
  induction hk : (s.thread i).pc.toStart using Nat.strong_induction_on generalizing s with
  | _ k ih =>
    obtain ⟨sh', w', hstep?, hcases⟩ := Worker.step?_held i.val hheld hinv.aborted
    have hstep : Step s (.thread i .go) (s.set i (sh', w')) := by
      show ((s.thread i).step? i.val s.shared .go).map (s.set i) = _
      rw [hstep?]
      rfl
    have hinv' := hinv.step rfl hstep
    obtain hab | ⟨hheld', hlt⟩ | hstart := hcases
    · have hnot : sh'.aborted = false := hinv'.aborted
      rw [hab] at hnot
      cases hnot
    · have hthread : (s.set i (sh', w')).thread i = w' := Threads.set_thread_self
      obtain ⟨r, hr, hall, hlast⟩ := ih w'.pc.toStart (hk ▸ hlt) hinv' (by rw [hthread]; exact hheld')
        (by rw [hthread])
      exact ⟨(.thread i .go, s.set i (sh', w')) :: r, ⟨hstep, hr⟩, List.forall_mem_cons.mpr ⟨rfl, hall⟩, hlast⟩
    · refine ⟨[(.thread i .go, s.set i (sh', w'))], ⟨hstep, trivial⟩, ?_, ?_⟩
      · exact List.forall_mem_cons.mpr ⟨rfl, nofun⟩
      · show sh'.startedBy c = [i.val]
        rw [hstart, (hinv.tasks.holds i c hheld).2]

end Scheduler

/-- **Tasks.** In any run, no callback is started twice, and one that was taken from the queue was started
by the worker that took it, or that worker is about to start it. Where no fiber gives itself away, that worker
does start it. What is taken from the queue is for the worker that takes it and is not executed, and
`m_activeThreadCount` is the number of workers with a task. -/
theorem scheduler_tasks (n : Nat) (useCaller : Bool) {r : List (Scheduler.SLabel n × Scheduler n)}
    (hr : Run Scheduler.Step (Scheduler.new n useCaller) r) {s : Scheduler n}
    (hs : s = lastState (Scheduler.new n useCaller) r) : (∀ c, (s.shared.startedBy c).length ≤ 1) ∧
    (∀ c, c < s.shared.scheduled → c ∈ cbs s.shared.queue ∨ ∃ i : Fin n, s.shared.removedBy c = some i.val ∧
        (s.shared.startedBy c = [i.val] ∨ (s.thread i).pc.held? = some c)) ∧
    (Meets (fun s l => s.plain l = true) (Scheduler.new n useCaller) r →
      s.shared.aborted = false ∧ ∀ i c, (s.thread i).pc.held? = some c →
        ∃ r' : List (Scheduler.SLabel n × Scheduler n), Run Scheduler.Step s r' ∧
          (∀ x ∈ r', x.1 = .thread i .go) ∧ (lastState s r').shared.startedBy c = [i.val]) ∧
    (∀ x ∈ s.shared.dequeued, (x.2.1.thread = none ∨ x.2.1.thread = some x.1) ∧ x.2.2 ≠ .exec) ∧
    s.shared.activeThreadCount = (Finset.univ.filter fun i => (s.thread i).pc.busy = true).card := by
  have hinv : TaskInv s := by
    rw [hs]
    exact Run.inv_last (fun _ _ _ hi hstep => hi.step hstep) hr (TaskInv.new n useCaller)
  refine ⟨?_, ?_, ?_, hinv.dequeued, ?_⟩
  · intro c
    cases hrem : s.shared.removedBy c with
    | none => simp [hinv.unstarted c hrem]
    | some k =>
      obtain ⟨-, i, -, hstart | hheld⟩ := hinv.removed c k hrem
      · simp [hstart]
      · simp [(hinv.holds i c hheld).2]
  · intro c hc
    obtain hmem | hrem := hinv.scheduled c hc
    · exact .inl hmem
    · obtain ⟨k, hk⟩ := Option.isSome_iff_exists.mp hrem
      obtain ⟨-, i, rfl, hstart⟩ := hinv.removed c k hk
      exact .inr ⟨i, hk, hstart⟩
  -- no fiber gives itself away, so no assertion fails
  · intro hplain
    have hreached : Reached Scheduler.PlainInv r :=
      Run.inv (fun _ _ _ hi hc hstep => hi.step hc hstep) hr hplain (Scheduler.PlainInv.new n useCaller)
    have hlast : Scheduler.PlainInv s := by
      rw [hs]
      exact hreached.last (Scheduler.PlainInv.new n useCaller)
    exact ⟨hlast.aborted, fun i c hheld => hlast.exists_start hheld⟩
  · rw [hinv.active, Finset.card_filter]
    refine Finset.sum_congr rfl fun i _ => ?_
    cases (s.thread i).pc.busy <;> rfl

/-- Two workers: the first passes over a callback that is bound to the second and takes another one, and the second
can start its own. -/
theorem scheduler_tasks_two : ∃ (r : List (Scheduler.SLabel 2 × Scheduler 2)) (s : Scheduler 2),
    Run Scheduler.Step (Scheduler.new 2 false) r ∧ s = lastState (Scheduler.new 2 false) r ∧
      s.shared.dequeued.map (fun x => (x.1, x.2.1.thread)) = [(1, some 1), (0, none)] ∧
      s.shared.activeThreadCount = (Finset.univ.filter fun i => (s.thread i).pc.busy = true).card ∧
      ∃ r', Run Scheduler.Step s r' ∧ (lastState s r').shared.startedBy 0 = [1] := by
  obtain ⟨r, hr, hplain, hdequeued, hheld⟩ := exists_run_of_trace? (f := Scheduler.step?) (s := Scheduler.new 2 false)
    [.outer (.schedule [.cb] (some 1)), .outer (.schedule [.cb] none), .thread 0 .go, .thread 1 .go]
    (P := fun r => Meets (fun s l => s.plain l = true) (Scheduler.new 2 false) r ∧
      (lastState (Scheduler.new 2 false) r).shared.dequeued.map (fun x => (x.1, x.2.1.thread)) =
        [(1, some 1), (0, none)] ∧
      ((lastState (Scheduler.new 2 false) r).thread 1).pc.held? = some 0) (by decide +kernel)
  obtain ⟨-, -, hstart, -, hactive⟩ := scheduler_tasks 2 false hr rfl
  obtain ⟨r', hr', -, hlast⟩ := (hstart hplain).2 1 0 hheld
  exact ⟨r, _, hr, rfl, hdequeued, hactive, r', hr', hlast⟩

end Sherry
