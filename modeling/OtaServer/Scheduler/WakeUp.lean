import OtaServer.Scheduler.Steps

/-!
# Wake-ups (`Scheduler::schedule`, `IOManager::tickle`, `IOManager::idle`)

A worker that has nothing to do waits in `epoll_wait` until a byte comes from the pipe, or a timeout.

* `Pc.notices`: a worker that is going to scan the queue, or to write to the pipe, before it waits.
  `Scheduler.Noticed`: someone is, or a byte is unread.
* `Scheduler.keepsNotice`: a step that does not leave a task that no one notices. A call of `schedule` on a queue that
  is not empty, a call of `tickle` that sees no idle worker, and a scan that takes nothing can, unless no worker is in
  its loop (`Scheduler.Away`).
* `wakeUp_kept`: any run with such steps. `wakeUp_lost`: a run where a worker is between its scan and
  `++m_idleThreadCount` when a task is scheduled.
-/

namespace Sherry

open Lib

/-- The worker is going to scan the queue or to write to the pipe before it waits. -/
def Pc.notices : Pc → Bool
  | scan | swapIn _ _ | enter _ _ | inside _ _ | leaving _ _ | returned _ _ | update _ _
  | updateEnd _ _ | setHold _ _ | discard | expired | gotEvents | idleOut => true
  | scanned ft => ft.isSome
  | tickle _ | write _ => true
  | countDown next => next.notices
  | _ => false

/-- The worker is not in its loop: it is the thread of the root fiber before it calls that, or has ended. -/
def Pc.absent : Pc → Bool
  | outside | setStopping | ended | test .first _ | test .second _ => true
  | tickle next | write next => next.absent
  | _ => false

/-- The step of the worker takes nothing from the queue, or writes nothing to the pipe. -/
def Pc.misses (me : Nat) (sh : Shared) : Pc → Bool
  | scan => (scanQueue sh.fibers me sh.queue).1.isNone && !(scanQueue sh.fibers me sh.queue).2
  | tickle next => sh.idleThreadCount == 0 && !next.notices
  | _ => false

/-- A task of the queue is for any worker. -/
def Shared.unpinned (sh : Shared) : Bool := sh.queue.any fun t => t.thread.isNone

/-- A byte is unread, or another thread is in `tickle`. -/
def Shared.tickled (sh : Shared) : Bool := 0 < sh.pipe || 0 < sh.tickling || 0 < sh.writing

namespace Scheduler

variable {n : Nat} {s s' : Scheduler n} {i : Fin n} {x : Shared × Worker} {l : SLabel n}

/-- Someone is going to look at the queue. -/
def Noticed (s : Scheduler n) : Prop :=
  s.shared.tickled = true ∨ ∃ i, (s.thread i).pc.notices = true

/-- Someone other than worker `i` is going to look at the queue. -/
def NoticedBut (s : Scheduler n) (i : Fin n) : Prop :=
  s.shared.tickled = true ∨ ∃ j, j ≠ i ∧ (s.thread j).pc.notices = true

/-- No worker is in its loop. -/
def Away (s : Scheduler n) : Prop := ∀ i, (s.thread i).pc.absent = true

instance : Decidable s.Away := inferInstanceAs (Decidable (∀ _, _))

instance : Decidable s.Noticed := inferInstanceAs (Decidable (_ ∨ _))

instance : Decidable (s.NoticedBut i) := inferInstanceAs (Decidable (_ ∨ _))

/-- A step that leaves no task that no one notices, if some worker is in its loop. -/
def watches (s : Scheduler n) : SLabel n → Bool
  | .thread i .go =>
    !(s.thread i).pc.misses i s.shared || !s.shared.unpinned || decide (s.NoticedBut i)
  | .outer (.schedule _ thread) => s.shared.queue.isEmpty || thread.isSome || decide s.Noticed
  | .outer .tickle =>
    0 < s.shared.idleThreadCount || !s.shared.unpinned ||
      decide (Noticed { s with shared := { s.shared with tickling := s.shared.tickling - 1 } })
  | _ => true

/-- A step does not leave a task that no one notices. -/
def keepsNotice (s : Scheduler n) (l : SLabel n) : Bool := s.watches l || decide s.Away

/-- A task for any worker is in the queue, every worker that runs is in `epoll_wait`, no byte is unread in the pipe,
and no call of `tickle` is under way. -/
structure Stuck (s : Scheduler n) : Prop where
  task : ∃ t ∈ s.shared.queue, t.thread = none
  waits : ∀ i, (s.thread i).pc = .wait ∨ (s.thread i).pc = .outside ∨ (s.thread i).pc = .ended
  some_wait : ∃ i, (s.thread i).pc = .wait
  pipe : s.shared.pipe = 0
  tickling : s.shared.tickling = 0
  writing : s.shared.writing = 0

end Scheduler

/-- What a step of a worker does to those who notice a task. -/
inductive NoticeEffect (me : Nat) (sh : Shared) (p : Pc) (c : Choice) (sh' : Shared) (p' : Pc) :
    Prop where
  /-- The worker notices. -/
  | notices (notices : p'.notices = true)
  /-- A byte is written. -/
  | writes (pipe : 0 < sh'.pipe)
  | same (queue : sh'.queue = sh.queue) (pipe : sh'.pipe = sh.pipe)
    (tickling : sh'.tickling = sh.tickling) (writing : sh'.writing = sh.writing)
    (misses : p.notices = true → c = .go ∧ p.misses me sh = true)

section

variable {me : Nat} {sh sh' : Shared} {w w' : Worker} {c : Choice}

theorem Pc.notices_tickled {p : Pc} (need : Bool) (h : p.notices = true) : (tickled need p).notices = true := by
  cases need
  · exact h
  · rfl

theorem Pc.InTask.notices {p : Pc} (h : p.InTask) : p.notices = true := by
  obtain ⟨f, isCb, rfl⟩ := h
  rfl

theorem LoopStep.notice (h : LoopStep me sh w c sh' w') : NoticeEffect me sh w.pc c sh' w'.pc := by
  cases h with
  | @scanNone tickleMe pc scan =>
    cases tickleMe with
    | true => exact .notices rfl
    | false =>
      refine .same rfl rfl rfl rfl fun _ => ⟨rfl, ?_⟩
      rw [pc]
      simp [Pc.misses, scan]
  | scanSome => exact .notices (Pc.notices_tickled _ rfl)
  | toIdle pc => exact .same rfl rfl rfl rfl (by rw [pc]; nofun)
  | abortReset pc => exact .notices (by rw [pc]; rfl)
  | abortSwap pc => exact .notices (by rw [pc]; rfl)
  | requeue => exact .notices (Pc.notices_tickled _ rfl)
  | @tickle next pc =>
    -- without an idle worker, `tickle` writes nothing
    by_cases hidle : 0 < sh.idleThreadCount
    · refine .notices ?_
      rw [if_pos hidle]
      rfl
    · dsimp only
      rw [if_neg hidle, pc]
      by_cases hnext : next.notices = true
      · exact .notices hnext
      · refine .same rfl rfl rfl rfl fun _ => ⟨rfl, ?_⟩
        simp [Pc.misses, Nat.eq_zero_of_not_pos hidle, hnext]
  | write => exact .writes (Nat.succ_pos _)
  | @countDown next pc =>
    by_cases hnext : next.notices = true
    · exact .notices hnext
    · exact .same rfl rfl rfl rfl (by rw [pc]; exact fun h => absurd h hnext)
  | schedule pc | addTimer pc => exact .notices (Pc.notices_tickled _ pc.notices)
  | newFiber pc | cancelTimer pc | addEvent pc | delEvent pc => exact .notices pc.notices
  | giveAway pc | drain pc => exact .notices (by rw [pc]; rfl)
  | trigger pc =>
    refine .notices (Pc.notices_tickled _ ?_)
    obtain htask | hgot := pc
    · exact htask.notices
    · show w.pc.notices = true
      rw [hgot]
      rfl
  | stop pc | setStopping pc | testNext pc | testTrue pc | testFalse pc | finish pc | idle pc =>
    exact .same rfl rfl rfl rfl (by rw [pc]; nofun)
  | expire => exact .notices (Pc.notices_tickled _ rfl)
  | toDiscard | toFiber | toNewCb | toCb | swapIn | enter | save | back | notReady | ended | notEnded
    | hold | discard | leave | wakeUp | done | idleOut => exact .notices rfl

theorem LoopStep.absent (h : LoopStep me sh w c sh' w') (hpc : w.pc.absent = true) :
    w'.pc.absent = true ∨ w'.pc.notices = true := by
  have htickles : (tickles (.test .second .timers) (sh.threadCount + 1)).absent = true :=
    Pc.apply_tickles (fun _ => rfl) _ _
  cases h with
  | stop => exact .inl rfl
  | setStopping | tickle =>
    dsimp only
    split <;> simp_all [Pc.absent]
  | @testNext call | @testTrue call | @testFalse call =>
    cases call <;> simp_all [Pc.absent, Pc.notices, StopCall.returned]
  | write pc => exact .inl (by simpa [pc, Pc.absent] using hpc)
  | schedule pc | newFiber pc | addTimer pc | cancelTimer pc | addEvent pc | delEvent pc =>
    obtain ⟨f, isCb, pc⟩ := pc
    simp [pc, Pc.absent] at hpc
  | trigger pc => obtain ⟨f, isCb, pc⟩ | pc := pc <;> simp [pc, Pc.absent] at hpc
  | _ pc => simp [pc, Pc.absent] at hpc

end

namespace Scheduler

variable {n : Nat} {s s' : Scheduler n} {i : Fin n} {x : Shared × Worker} {l : SLabel n}

/-- A task for any worker is noticed. -/
def NoticeInv (s : Scheduler n) : Prop := s.shared.unpinned = true → s.Noticed

theorem NoticeInv.worker {c : Choice} (hinv : NoticeInv s) (hk : s.watches (.thread i c) = true)
    (h : LoopStep i s.shared (s.thread i) c x.1 x.2) : NoticeInv (s.set i x) := by
  intro hunpinned
  cases h.notice with
  | notices hnotices => exact .inr ⟨i, by rw [Threads.set_thread_self]; exact hnotices⟩
  | writes hpipe =>
    refine .inl ?_
    simp [Shared.tickled, hpipe]
  | same queue pipe tickling writing misses =>
    have htickled : x.1.tickled = s.shared.tickled := by
      simp only [Shared.tickled, pipe, tickling, writing]
    have hold : s.shared.unpinned = true := by
      simpa only [Shared.unpinned, Threads.set_shared, queue] using hunpinned
    -- someone else notices the task
    have hbut : s.NoticedBut i := by
      by_cases hnotices : (s.thread i).pc.notices = true
      · obtain ⟨rfl, hmiss⟩ := misses hnotices
        simpa [watches, hmiss, hold] using hk
      · obtain htick | ⟨j, hj⟩ := hinv hold
        · exact .inl htick
        · refine .inr ⟨j, ?_, hj⟩
          rintro rfl
          exact hnotices hj
    obtain htick | ⟨j, hne, hj⟩ := hbut
    · exact .inl (htickled.trans htick)
    · exact .inr (Threads.exists_set_of_ne (P := fun w : Worker => w.pc.notices = true) hj hne)

theorem NoticeInv.outer {e : Outer} {shared : Shared} (hinv : NoticeInv s)
    (hk : s.watches (.outer e) = true) (h : OuterStep s.shared e shared) : NoticeInv { s with shared } := by
  intro hunpinned
  cases h with
  | @schedule reqs thread knows =>
    rw [Shared.scheduleAll_eq] at hunpinned ⊢
    by_cases hempty : s.shared.queue = []
    · by_cases hreqs : reqs = []
      · -- nothing is added to the empty queue
        subst hreqs
        simp [Shared.unpinned, hempty, Shared.newTasks] at hunpinned
      · refine .inl ?_
        have hneed : s.shared.needTickle reqs = true := by simp [Shared.needTickle, hempty, hreqs]
        simp [Shared.tickled, hneed]
    · have hnoticed : s.Noticed := by
        by_cases hold : s.shared.unpinned = true
        · exact hinv hold
        · -- the task that is for any worker is new
          have hthread : thread = none := by
            obtain ⟨t, ht, hnone⟩ := List.any_eq_true.mp hunpinned
            obtain ht | ht := List.mem_append.mp ht
            · exact absurd (List.any_eq_true.mpr ⟨t, ht, hnone⟩) hold
            · rw [← Shared.thread_newTasks ht]
              exact Option.isNone_iff_eq_none.mp hnone
          simpa [watches, hempty, hthread] using hk
      refine hnoticed.imp_left fun htick => ?_
      simp only [Shared.tickled, Bool.or_eq_true, decide_eq_true_eq] at htick ⊢
      omega
  | tickle tickling =>
    by_cases hidle : 0 < s.shared.idleThreadCount
    · refine .inl ?_
      simp [Shared.tickled, hidle]
    · have hold : s.shared.unpinned = true := hunpinned
      have hnoticed : Noticed { s with shared := { s.shared with tickling := s.shared.tickling - 1 } } := by
        simpa [watches, hidle, hold] using hk
      refine hnoticed.imp_left fun htick => ?_
      simp only [Shared.tickled, Bool.or_eq_true, decide_eq_true_eq] at htick ⊢
      omega
  | write =>
    refine .inl ?_
    simp [Shared.tickled]
  | newFiber | cancelTimer | stop => exact hinv hunpinned
  | addTimer | setStopping =>
    refine (hinv hunpinned).imp_left fun htick => ?_
    simp only [Shared.tickled, Bool.or_eq_true, decide_eq_true_eq] at htick ⊢
    omega

theorem NoticeInv.step (hinv : NoticeInv s) (hk : s.watches l = true) (h : Step s l s') : NoticeInv s' := by
  obtain ⟨-, ⟨i, c, x, rfl, hstep, rfl⟩ | ⟨e, shared, rfl, hstep, rfl⟩⟩ := step_cases h
  · exact hinv.worker hk hstep
  · exact hinv.outer hk hstep

/-- A worker that comes into its loop scans the queue first. -/
theorem Away.step (haway : s.Away) (h : Step s l s') : s'.Noticed ∨ s'.Away := by
  obtain ⟨-, ⟨i, c, x, rfl, hstep, rfl⟩ | ⟨e, shared, rfl, -, rfl⟩⟩ := step_cases h
  · obtain hpc | hpc := hstep.absent (haway i)
    · exact .inr (Threads.forall_set (P := fun w : Worker => w.pc.absent = true) haway hpc)
    · exact .inl (.inr ⟨i, by rwa [Threads.set_thread_self]⟩)
  · exact .inr haway

theorem notice_step (hinv : NoticeInv s ∨ s.Away) (hk : s.keepsNotice l = true) (h : Step s l s') :
    NoticeInv s' ∨ s'.Away := by
  by_cases haway : s.Away
  · exact (haway.step h).imp_left fun hnoticed _ => hnoticed
  · exact .inl ((hinv.resolve_right haway).step (by simpa [keepsNotice, haway] using hk) h)

/-- A task that someone notices does not wait with all workers. -/
theorem not_stuck (hinv : NoticeInv s ∨ s.Away) : ¬Stuck s := by
  intro hstuck
  obtain hinv | haway := hinv
  swap
  · obtain ⟨i, hi⟩ := hstuck.some_wait
    have := haway i
    rw [hi] at this
    cases this
  obtain ⟨t, ht, hnone⟩ := hstuck.task
  have hunpinned : s.shared.unpinned = true := List.any_eq_true.mpr ⟨t, ht, by rw [hnone]; rfl⟩
  obtain htick | ⟨i, hi⟩ := hinv hunpinned
  · simp [Shared.tickled, hstuck.pipe, hstuck.tickling, hstuck.writing] at htick
  · obtain h | h | h := hstuck.waits i <;> rw [h] at hi <;> cases hi

end Scheduler

/-- **Wake-ups.** No task is left with all workers in `epoll_wait`, in every run whose steps keep the
notice of the tasks. -/
theorem wakeUp_kept (n : Nat) (useCaller : Bool) {r : List (Scheduler.SLabel n × Scheduler n)}
    (hr : Run Scheduler.Step (Scheduler.new n useCaller) r)
    (hk : Meets (fun s l => s.keepsNotice l = true) (Scheduler.new n useCaller) r) :
    Reached (fun s => ¬s.Stuck) r := by
  have hinv : Reached (fun s => s.NoticeInv ∨ s.Away) r :=
    Run.inv (fun _ _ _ hi hc hstep => Scheduler.notice_step hi hc hstep) hr hk (.inl nofun)
  exact hinv.mono fun _ hs => Scheduler.not_stuck hs

/-- A worker finds nothing in the queue, and enters `epoll_wait`. -/
def goesIdle {n : Nat} (i : Fin n) : List (Scheduler.SLabel n) := List.replicate 6 (.thread i .go)

/-- A callback is scheduled, and `tickle` looks for an idle worker. -/
def schedules : List (Scheduler.SLabel 1) := [.outer (.schedule [.cb] none), .outer .tickle]

/-- The worker waits when the callback is scheduled, and there is a byte for it. -/
theorem wakeUp_kept_idle :
    ∃ r : List (Scheduler.SLabel 1 × Scheduler 1), Run Scheduler.Step (Scheduler.new 1 false) r ∧
      ((lastState (Scheduler.new 1 false) r).thread 0).pc = .wait ∧
      (lastState (Scheduler.new 1 false) r).shared.queue = [⟨.cb 0, none⟩] ∧ Reached (fun s => ¬s.Stuck) r := by
  obtain ⟨r, hr, hk, hpc, hqueue⟩ := exists_run_of_trace? (f := Scheduler.step?) (s := Scheduler.new 1 false)
    (goesIdle 0 ++ schedules ++ [.outer .write])
    (P := fun r => Meets (fun s l => s.keepsNotice l = true) (Scheduler.new 1 false) r ∧
      ((lastState (Scheduler.new 1 false) r).thread 0).pc = .wait ∧
      (lastState (Scheduler.new 1 false) r).shared.queue = [⟨.cb 0, none⟩]) (by decide +kernel)
  exact ⟨r, hr, hpc, hqueue, wakeUp_kept 1 false hr hk⟩

/-- The callback is scheduled when the worker has scanned the queue and is not yet counted as idle. -/
theorem wakeUp_lost : ∃ r : List (Scheduler.SLabel 1 × Scheduler 1), Run Scheduler.Step (Scheduler.new 1 false) r ∧
      ¬Reached (fun s => ¬s.Stuck) r := by
  obtain ⟨r, hr, hqueue, hpc, hpipe, htickling, hwriting⟩ := exists_run_of_trace?
    (f := Scheduler.step?) (s := Scheduler.new 1 false)
    (.thread 0 .go :: schedules ++ List.replicate 5 (.thread 0 .go))
    (P := fun r => (lastState (Scheduler.new 1 false) r).shared.queue = [⟨.cb 0, none⟩] ∧
      ((lastState (Scheduler.new 1 false) r).thread 0).pc = .wait ∧
      (lastState (Scheduler.new 1 false) r).shared.pipe = 0 ∧
      (lastState (Scheduler.new 1 false) r).shared.tickling = 0 ∧
      (lastState (Scheduler.new 1 false) r).shared.writing = 0) (by decide +kernel)
  refine ⟨r, hr, fun hkept => ?_⟩
  have hstart : ¬(Scheduler.new 1 false).Stuck := fun h => by
    obtain ⟨t, ht, -⟩ := h.task
    cases ht
  refine hkept.last (P := fun s => ¬Scheduler.Stuck s) hstart
    ⟨⟨⟨.cb 0, none⟩, ?_, rfl⟩, ?_, ⟨0, hpc⟩, hpipe, htickling, hwriting⟩
  · rw [hqueue]
    exact List.mem_singleton_self _
  · intro i
    obtain rfl : i = 0 := Subsingleton.elim i 0
    exact .inl hpc

end Sherry
