import OtaServer.Scheduler.Fibers

/-!
# Fibers that are bound to a thread (`Scheduler::schedule`, `Scheduler::run`)

The thread that a fiber is scheduled with is a field of its entry in the queue. `run` takes the entry out, and when
the fiber has called `YieldToReady` it schedules the fiber again, without a thread.

* `Pc.carries?`: the fiber that a worker has taken from the queue. `LoopStep.carries`, `LoopStep.mem_queue`: what a
  step does to it, and to the entries of a fiber.
* `bindsTo`: whoever schedules the fiber names the thread. `yields`: the fiber calls `YieldToReady`.
* `bound_executed`: a fiber that does not call `YieldToReady`, or whose thread is the only worker, is executed on that
  thread each time it is taken from the queue. `bound_resumed_elsewhere`: a run in which it is not.
-/

namespace Sherry

open Lib

/-- The fiber that a worker has taken from the queue, until the fiber returns. -/
def Pc.carries? : Pc → Option FiberId
  | scanned (some ⟨.fiber f, _⟩) => some f
  | swapIn f none | enter f none => some f
  | inside f false => some f
  | tickle next | write next | countDown next => next.carries?
  | _ => none

@[simp] theorem Pc.carries?_tickled (need : Bool) (p : Pc) : (tickled need p).carries? = p.carries? :=
  Pc.apply_tickled (fun _ => rfl) need p

theorem Pc.carries?_returned (call : StopCall) (sh : Shared) (w : Worker) (result : Bool) :
    (call.returned sh w result).pc.carries? = none := by
  cases call with
  | idle => cases result <;> rfl
  | first =>
    cases result with
    | false => exact Pc.apply_tickles (g := Pc.carries?) (fun _ => rfl) _ _
    | true => rfl
  | second => cases result <;> rfl

section

variable {me : Nat} {sh sh' : Shared} {w w' : Worker} {c : Choice} {f : FiberId}

/-- A worker gets a fiber from the queue only. -/
theorem LoopStep.carries (h : LoopStep me sh w c sh' w') (hf : w'.pc.carries? = some f) :
    w.pc.carries? = some f ∨ c = .go ∧ w.pc = .scan ∧ ∃ thread queue tickleMe,
      scanQueue sh.fibers me sh.queue = (some (⟨.fiber f, thread⟩, queue), tickleMe) := by
  cases h with
  | @scanSome t queue tickleMe pc scan =>
    -- the worker has got the fiber just now
    right
    rw [Pc.carries?_tickled] at hf
    obtain ⟨d | g, thread⟩ := t
    · cases hf
    · cases hf
      exact ⟨rfl, pc, thread, queue, tickleMe, scan⟩
  | scanNone pc | requeue pc | expire pc => simp [Pc.carries?] at hf
  | schedule | addTimer =>
    rw [Pc.carries?_tickled] at hf
    exact .inl hf
  | trigger =>
    rw [Pc.carries?_tickled] at hf
    exact .inl hf
  | @swapIn g cb pc | @enter g cb pc =>
    rw [pc]
    cases cb with
    | none => exact .inl hf
    | some d => cases hf
  | tickle pc =>
    rw [pc]
    refine .inl ?_
    dsimp only at hf
    split at hf <;> exact hf
  | setStopping pc =>
    dsimp only at hf
    split at hf
    · cases hf
    · rw [Pc.apply_tickles (g := Pc.carries?) (fun _ => rfl)] at hf
      cases hf
  | testTrue pc | testFalse pc =>
    rw [Pc.carries?_returned] at hf
    cases hf
  | abortReset | abortSwap | newFiber | giveAway | cancelTimer | addEvent | delEvent | drain => exact .inl hf
  | toFiber pc | write pc | countDown pc =>
    rw [pc]
    exact .inl hf
  | toIdle pc | toDiscard pc | toNewCb pc | toCb pc | save pc | back pc
    | notReady pc | notEnded pc | hold pc | discard pc | leave pc | stop pc | ended pc
    | testNext pc | finish pc | idle pc | wakeUp pc | done pc | idleOut pc => cases hf

/-- A new entry of a fiber comes from a call of `schedule` that names the fiber. -/
theorem Shared.mem_newTasks {thread : Option Nat} {k : Nat} {reqs : List Req} {u : Task}
    (hu : u ∈ newTasks thread k reqs) (hwork : u.work = .fiber f) :
    u.thread = thread ∧ f ∈ reqs.filterMap Req.fiber? := by
  refine ⟨thread_newTasks hu, ?_⟩
  have hcount : 0 < (newTasks thread k reqs).countP fun t => t.work = .fiber f :=
    List.countP_pos_iff.mpr ⟨u, hu, decide_eq_true hwork⟩
  rw [countP_newTasks] at hcount
  exact List.count_pos_iff.mp hcount

theorem Shared.mem_scheduleAll {thread : Option Nat} {reqs : List Req} {u : Task}
    (hu : u ∈ (sh.scheduleAll thread reqs).queue) (hwork : u.work = .fiber f) :
    u ∈ sh.queue ∨ u.thread = thread ∧ f ∈ reqs.filterMap Req.fiber? := by
  rw [scheduleAll_eq] at hu
  exact (List.mem_append.mp hu).imp_right fun hnew => mem_newTasks hnew hwork

/-- An entry of a fiber comes from a call of `schedule`, from an event, or from `YieldToReady`. -/
theorem LoopStep.mem_queue (h : LoopStep me sh w c sh' w') {u : Task} (hu : u ∈ sh'.queue)
    (hwork : u.work = .fiber f) : u ∈ sh.queue ∨ (u.thread = none ∧ (sh.fibers f).state = .ready) ∨
      (∃ reqs, c = .schedule reqs u.thread ∧ f ∈ reqs.filterMap Req.fiber?) ∨ c = .trigger (.fiber f) := by
  cases h with
  | scanSome pc scan =>
    obtain ⟨-, -, front, back, hfront, hrest⟩ := scanQueue_some scan
    dsimp only at hu
    rw [hrest] at hu
    rw [hfront]
    exact .inl ((List.mem_append.mp hu).elim (List.mem_append_left _)
      fun hb => List.mem_append_right _ (List.mem_cons_of_mem _ hb))
  | requeue pc state =>
    obtain hu | ⟨hthread, hmem⟩ := Shared.mem_scheduleAll hu hwork
    · exact .inl hu
    · cases List.mem_singleton.mp hmem
      exact .inr (.inl ⟨hthread, state⟩)
  | @schedule reqs thread =>
    obtain hu | ⟨rfl, hmem⟩ := Shared.mem_scheduleAll hu hwork
    · exact .inl hu
    · exact .inr (.inr (.inl ⟨reqs, rfl, hmem⟩))
  | @trigger req =>
    obtain hu | ⟨-, hmem⟩ := Shared.mem_scheduleAll hu hwork
    · exact .inl hu
    · cases req with
      | empty | cb => cases hmem
      | fiber g =>
        cases List.mem_singleton.mp hmem
        exact .inr (.inr (.inr rfl))
  | @expire cbs gone =>
    obtain hu | ⟨-, hmem⟩ := Shared.mem_scheduleAll hu hwork
    · exact .inl hu
    · obtain ⟨req, hreq, hfiber⟩ := List.mem_filterMap.mp hmem
      rw [List.eq_of_mem_replicate hreq] at hfiber
      cases hfiber
  | @ended g isCb =>
    cases isCb <;> exact .inl hu
  | _ => exact .inl hu

/-- A fiber gets ready by a call of `YieldToReady` only. -/
theorem LoopStep.ready (h : LoopStep me sh w c sh' w') (hready : (sh'.fibers f).state = .ready) :
    (sh.fibers f).state = .ready ∨ c = .yieldReady ∧ ∃ isCb, w.pc = .inside f isCb := by
  -- a fiber that is ready was so, or is the one that is set
  have hset : ∀ {g : FiberId} {fiber : Fiber}, ((sh.setFiber g fiber).fibers f).state = .ready →
      (sh.fibers f).state = .ready ∨ g = f ∧ fiber.state = .ready := by
    intro g fiber hg
    by_cases hgf : f = g
    · subst hgf
      rw [Shared.setFiber_self] at hg
      exact .inr ⟨rfl, hg⟩
    · rw [Shared.setFiber_ne sh fiber hgf] at hg
      exact .inl hg
  cases h with
  | toNewCb | newFiber => exact (hset hready).elim .inl fun hg => nomatch hg.2
  | toCb | enter | hold => exact (hset hready).elim .inl fun hg => nomatch hg.2
  | save =>
    refine (hset hready).elim .inl fun hg => ?_
    rw [← hg.1]
    exact .inl hg.2
  | @ended g isCb =>
    cases isCb with
    | false => exact .inl hready
    | true => exact (hset hready).elim .inl fun hg => nomatch hg.2
  | @leave g isCb c state pc leaves =>
    obtain hold | ⟨rfl, rfl⟩ := hset hready
    · exact .inl hold
    · cases c <;> cases leaves
      exact .inr ⟨rfl, isCb, pc⟩
  | requeue | schedule | trigger | expire =>
    rw [Shared.scheduleAll_eq] at hready
    exact .inl hready
  | _ => exact .inl hready

theorem OuterStep.mem_queue {e : Outer} (h : OuterStep sh e sh') {u : Task} (hu : u ∈ sh'.queue)
    (hwork : u.work = .fiber f) :
    u ∈ sh.queue ∨ ∃ reqs, e = .schedule reqs u.thread ∧ f ∈ reqs.filterMap Req.fiber? := by
  cases h with
  | @schedule reqs thread =>
    obtain hu | ⟨rfl, hmem⟩ := Shared.mem_scheduleAll hu hwork
    · exact .inl hu
    · exact .inr ⟨reqs, rfl, hmem⟩
  | _ => exact .inl hu

theorem OuterStep.ready {e : Outer} (h : OuterStep sh e sh') (hready : (sh'.fibers f).state = .ready) :
    (sh.fibers f).state = .ready := by
  cases h with
  | schedule =>
    rw [Shared.scheduleAll_eq] at hready
    exact hready
  | newFiber =>
    by_cases hf : f = sh.made
    · have hnew : ((sh.newFiber.setGiven sh.made true).fibers f).state = .init := by
        rw [hf]
        exact congrArg Fiber.state (Shared.setFiber_self sh sh.made {})
      rw [hnew] at hready
      cases hready
    · have hold : (sh.newFiber.setGiven sh.made true).fibers f = sh.fibers f := Shared.setFiber_ne sh {} hf
      rwa [hold] at hready
  | _ => exact hready

end

/-! ## Executions -/

namespace Scheduler

variable {n : Nat} {s s' : Scheduler n} {l : SLabel n} {f : FiberId} {t : Nat}

/-- Whoever schedules the fiber names the thread `t`. -/
def bindsTo (f : FiberId) (t : Nat) : SLabel n → Bool
  | .outer (.schedule reqs thread) | .thread _ (.schedule reqs thread) =>
    !(reqs.filterMap Req.fiber?).contains f || thread == some t
  | .thread _ (.trigger req) => req.fiber? != some f
  | _ => true

/-- The fiber calls `YieldToReady`. -/
def yields (f : FiberId) (s : Scheduler n) : SLabel n → Bool
  | .thread i .yieldReady =>
    match (s.thread i).pc with
    | .inside g _ => g == f
    | _ => false
  | _ => false

/-- The fiber is executed on the thread `t` only. A worker that starts a callback in the fiber has not taken the fiber
from the queue. -/
def ExecutedOn (f : FiberId) (t : Nat) (s : Scheduler n) : Prop :=
  ∀ i, (s.thread i).pc = .inside f false → i.val = t

/-- Without `YieldToReady`, the entries of the fiber name the thread, and no other worker has the fiber. -/
structure BoundInv (f : FiberId) (t : Nat) (s : Scheduler n) : Prop where
  queue : ∀ u ∈ s.shared.queue, u.work = .fiber f → u.thread = some t
  carries : ∀ i, (s.thread i).pc.carries? = some f → i.val = t
  state : (s.shared.fibers f).state ≠ .ready

theorem boundInv_new (useCaller : Bool) : BoundInv f t (new n useCaller) where
  queue _ hu := absurd hu List.not_mem_nil
  carries i hi := by
    have hpc : ((new n useCaller).thread i).pc.carries? = none := by
      show Pc.carries? (if _ then _ else _) = none
      split <;> rfl
    rw [hpc] at hi
    cases hi
  state h := by cases h

theorem BoundInv.executedOn (h : BoundInv f t s) : ExecutedOn f t s := by
  intro i hi
  refine h.carries i ?_
  rw [hi]
  rfl

theorem BoundInv.step (h : BoundInv f t s) (hbinds : bindsTo f t l = true) (hyields : yields f s l = false)
    (hs : Step s l s') : BoundInv f t s' := by
  obtain ⟨-, ⟨i, c, x, rfl, hstep, rfl⟩ | ⟨e, shared, rfl, hstep, rfl⟩⟩ := step_cases hs
  · refine ⟨fun u hu hwork => ?_, fun k hk => ?_, fun hready => ?_⟩
    · obtain hu | ⟨-, hready⟩ | ⟨reqs, rfl, hmem⟩ | rfl := hstep.mem_queue hu hwork
      · exact h.queue u hu hwork
      · exact absurd hready h.state
      · simpa [bindsTo, hmem] using hbinds
      · simp [bindsTo, Req.fiber?] at hbinds
    · by_cases hki : k = i
      · subst hki
        rw [Threads.set_thread_self] at hk
        obtain hk | ⟨-, -, thread, queue, tickleMe, hscan⟩ := hstep.carries hk
        · exact h.carries k hk
        · -- the entry names the thread `t`, and the worker takes no entry for another one
          obtain ⟨hthread, -, front, back, hqueue, -⟩ := scanQueue_some hscan
          have ht : thread = some t := h.queue ⟨.fiber f, thread⟩ (by rw [hqueue]; simp) rfl
          subst ht
          exact (Option.some.inj (hthread.resolve_left (Option.some_ne_none t))).symm
      · rw [Threads.set_thread_ne hki] at hk
        exact h.carries k hk
    · obtain hready | ⟨rfl, isCb, hpc⟩ := hstep.ready hready
      · exact h.state hready
      · simp [yields, hpc] at hyields
  · refine ⟨fun u hu hwork => ?_, h.carries, fun hready => h.state (hstep.ready hready)⟩
    obtain hu | ⟨reqs, rfl, hmem⟩ := hstep.mem_queue hu hwork
    · exact h.queue u hu hwork
    · simpa [bindsTo, hmem] using hbinds

end Scheduler

open Scheduler

/-- **Bound fibers.** Over every run in which whoever schedules the fiber names the thread `t`: if the fiber does
not call `YieldToReady`, or `t` is the only worker, the fiber is executed on `t` each time it is taken from the
queue. -/
theorem bound_executed {n : Nat} (useCaller : Bool) (f : FiberId) (t : Nat) {r : List (SLabel n × Scheduler n)}
    (hr : Run Step (new n useCaller) r) (hbinds : Meets (fun _ l => bindsTo f t l = true) (new n useCaller) r)
    (hyields : (n = 1 ∧ t = 0) ∨ Meets (fun s l => yields f s l = false) (new n useCaller) r) :
    Reached (ExecutedOn f t) r := by
  obtain ⟨rfl, rfl⟩ | hyields := hyields
  · exact reached_iff_forall.mpr fun x _ i _ => Nat.lt_one_iff.mp i.isLt
  · have hinv := hr.inv (I := BoundInv f t) (fun s l s' hi hc hs => hi.step hc.1 hc.2 hs) (hbinds.and hyields)
      (boundInv_new useCaller)
    exact hinv.mono fun _ hi => hi.executedOn

/-- Fiber 0 is scheduled with a thread, which executes it; it is held, and scheduled with that thread again. -/
def holdOnce {n : Nat} (i : Fin n) : List (SLabel n) :=
  [.outer .newFiber, .outer (.schedule [.fiber 0] (some i.val))] ++ List.replicate 4 (.thread i .go) ++
    [.thread i .giveAway, .thread i .yieldHold] ++ List.replicate 5 (.thread i .go) ++
    [.outer (.schedule [.fiber 0] (some i.val))] ++ List.replicate 4 (.thread i .go)

theorem bound_executed_again : ∃ r : List (SLabel 2 × Scheduler 2),
    Run Step (new 2 false) r ∧ ((lastState (new 2 false) r).thread 1).pc = .inside 0 false ∧
      (lastState (new 2 false) r).shared.dequeued.length = 2 ∧ Reached (ExecutedOn 0 1) r := by
  obtain ⟨r, hr, hpc, htwice, hbinds, hyields⟩ := exists_run_of_trace? (f := Scheduler.step?) (s := new 2 false)
    (holdOnce 1)
    (P := fun r => ((lastState (new 2 false) r).thread 1).pc = .inside 0 false ∧
      (lastState (new 2 false) r).shared.dequeued.length = 2 ∧
      Meets (fun _ l => bindsTo 0 1 l = true) (new 2 false) r ∧
      Meets (fun s l => yields 0 s l = false) (new 2 false) r) (by decide +kernel)
  exact ⟨r, hr, hpc, htwice, bound_executed false 0 1 hr hbinds (.inr hyields)⟩

/-- Fiber 0 is scheduled with a thread, which executes it until it calls `YieldToReady` and queues it again. -/
def yieldOn {n : Nat} (i : Fin n) : List (SLabel n) :=
  [.outer .newFiber, .outer (.schedule [.fiber 0] (some i.val)), .thread i .go, .thread i .go, .thread i .go,
    .thread i .go, .thread i .yieldReady, .thread i .go, .thread i .go, .thread i .go, .thread i .go]

/-- Thread 0 takes the fiber when it has called `YieldToReady`. -/
theorem bound_resumed_elsewhere : ∃ r : List (SLabel 2 × Scheduler 2),
    Run Step (new 2 false) r ∧ Meets (fun _ l => bindsTo 0 1 l = true) (new 2 false) r ∧
      ((lastState (new 2 false) r).thread 0).pc = .inside 0 false ∧ ¬ExecutedOn 0 1 (lastState (new 2 false) r) := by
  obtain ⟨r, hr, hbinds, hpc⟩ := exists_run_of_trace? (f := Scheduler.step?) (s := new 2 false)
    (yieldOn 1 ++ List.replicate 4 (.thread 0 .go))
    (P := fun r => Meets (fun _ l => bindsTo 0 1 l = true) (new 2 false) r ∧
      ((lastState (new 2 false) r).thread 0).pc = .inside 0 false) (by decide +kernel)
  exact ⟨r, hr, hbinds, hpc, fun hexec => Nat.zero_ne_one (hexec 0 hpc)⟩

end Sherry
