import OtaServer.Scheduler.FiberLife

/-!
# Fibers and the workers that execute them (`fiber.cc`, `Scheduler::run`)

* `Scheduler.view`: one fiber of a scheduler, in the terms of its life (`FiberView`).
* `disciplined`: a fiber is scheduled by one who was given it, once. `takenBack`: a fiber is taken from the queue only
  when no worker is on its way out of it.
* `Scheduler.move`: a step of the scheduler is a step in the life of each fiber.
* `fibers_hold`: any run with such steps. `fibers_notHeld`: a run where a fiber is taken too early.
-/

namespace Sherry

open Lib

/-- The fiber that `schedule` is called with. -/
def Req.fiber? : Req → Option FiberId
  | .fiber f => some f
  | _ => none

namespace Shared

/-- How often someone is going to run a fiber: it is queued, or someone is going to schedule it. -/
def owed (sh : Shared) (f : FiberId) : Nat :=
  sh.queue.countP (fun t => t.work = .fiber f) + (sh.given f).toNat

/-- Who calls `schedule` was given the fibers, and schedules each of them once. -/
def reqsOk (sh : Shared) (reqs : List Req) : Bool :=
  (reqs.filterMap Req.fiber?).all sh.given && decide (reqs.filterMap Req.fiber?).Nodup

variable {sh sh' : Shared} {f g : FiberId}

@[simp] theorem setFiber_self (sh : Shared) (f : FiberId) (fiber : Fiber) :
    (sh.setFiber f fiber).fibers f = fiber := if_pos rfl

theorem setFiber_ne (sh : Shared) (fiber : Fiber) (h : f ≠ g) :
    (sh.setFiber g fiber).fibers f = sh.fibers f := if_neg h

theorem scheduleAll_fibers (sh : Shared) (thread : Option Nat) (reqs : List Req) :
    (sh.scheduleAll thread reqs).fibers = sh.fibers := by rw [scheduleAll_eq]

theorem scheduleAll_made (sh : Shared) (thread : Option Nat) (reqs : List Req) :
    (sh.scheduleAll thread reqs).made = sh.made := by rw [scheduleAll_eq]

theorem reqsOk_cbs (sh : Shared) (k : Nat) : sh.reqsOk (List.replicate k .cb) = true := by
  have hnil : (List.replicate k Req.cb).filterMap Req.fiber? = [] := by
    induction k with
    | zero => rfl
    | succ k ih => exact ih
  simp [reqsOk, hnil]

theorem countP_newTasks (thread : Option Nat) (k : Nat) (reqs : List Req) (f : FiberId) :
    (newTasks thread k reqs).countP (fun t => t.work = .fiber f) = (reqs.filterMap Req.fiber?).count f := by
  induction reqs generalizing k with
  | nil => rfl
  | cons req reqs ih =>
    cases req with
    | empty => exact ih k
    | cb =>
      rw [newTasks, List.countP_cons_of_neg (by simp)]
      exact ih (k + 1)
    | fiber g => simp [newTasks, Req.fiber?, List.countP_cons, List.count_cons, ih k]

theorem stillGiven_eq (given : FiberId → Bool) (reqs : List Req) (f : FiberId) :
    stillGiven given reqs f = (given f && decide (f ∉ reqs.filterMap Req.fiber?)) := by
  refine congrArg (given f && ·) ?_
  induction reqs with
  | nil => rfl
  | cons req reqs ih =>
    rw [List.all_cons, ih]
    cases req with
    | empty => rfl
    | cb => rfl
    | fiber g =>
      show ((f != g) && decide (f ∉ reqs.filterMap Req.fiber?)) =
        decide (f ∉ g :: reqs.filterMap Req.fiber?)
      by_cases hfg : f = g
      · simp [hfg]
      · simp [hfg, bne_iff_ne.mpr hfg]

/-- Who was given a fiber schedules it: it is owed as before. -/
theorem owed_scheduleAll {reqs : List Req} (hok : sh.reqsOk reqs = true) (thread : Option Nat)
    (f : FiberId) : (sh.scheduleAll thread reqs).owed f = sh.owed f := by
  obtain ⟨hgiven, hnodup⟩ := Bool.and_eq_true_iff.mp hok
  rw [scheduleAll_eq, owed, owed, List.countP_append, countP_newTasks]
  dsimp only
  rw [stillGiven_eq]
  by_cases hf : f ∈ reqs.filterMap Req.fiber?
  · rw [List.count_eq_one_of_mem (of_decide_eq_true hnodup) hf, List.all_eq_true.mp hgiven f hf]
    simp [hf]
  · simp [List.count_eq_zero_of_not_mem hf, hf]

theorem owed_requeue (h : sh.owed f = 0) : (sh.scheduleAll none [.fiber f]).owed f = 1 := by
  obtain ⟨hqueue, hgiven⟩ := Nat.add_eq_zero_iff.mp h
  rw [scheduleAll_eq, owed, List.countP_append, hqueue, countP_newTasks]
  dsimp only
  rw [stillGiven_eq]
  simp [Req.fiber?]

theorem owed_requeue_ne (h : f ≠ g) : (sh.scheduleAll none [.fiber g]).owed f = sh.owed f := by
  rw [scheduleAll_eq, owed, owed, List.countP_append, countP_newTasks]
  dsimp only
  rw [stillGiven_eq]
  simp [Req.fiber?, h, Ne.symm h]

theorem owed_setGiven (h : sh.owed g = 0) : (sh.setGiven g true).owed g = 1 := by
  obtain ⟨hqueue, hgiven⟩ := Nat.add_eq_zero_iff.mp h
  show sh.queue.countP _ + (if g = g then true else sh.given g).toNat = 1
  rw [hqueue, if_pos rfl]
  rfl

theorem owed_setGiven_ne (h : f ≠ g) : (sh.setGiven g true).owed f = sh.owed f := by
  show sh.queue.countP _ + (if f = g then true else sh.given f).toNat = _
  rw [if_neg h]
  rfl

theorem owed_take {t : Task} {front back : List Task} (hqueue : sh.queue = front ++ t :: back)
    (hrest : sh'.queue = front ++ back) (hgiven : sh'.given = sh.given) (f : FiberId) :
    sh.owed f = sh'.owed f + if t.work = .fiber f then 1 else 0 := by
  rw [owed, owed, hqueue, hrest, hgiven, List.countP_append, List.countP_append, List.countP_cons]
  simp only [decide_eq_true_eq]
  omega

end Shared

/-- The fiber that a worker has a grip on. -/
def Pc.grip : Pc → Option (FiberId × Grip)
  | scanned (some ⟨.fiber f, _⟩) => some (f, .carries)
  | swapIn f none | enter f none => some (f, .carries)
  | swapIn f (some _) | enter f (some _) => some (f, .starts)
  | inside f isCb => some (f, .inside isCb)
  | leaving f isCb => some (f, .leaving isCb)
  | returned f isCb | update f isCb => some (f, .after isCb)
  | updateEnd f isCb => some (f, .unready isCb)
  | setHold f isCb => some (f, .holds isCb)
  | tickle next | write next | countDown next => next.grip
  | _ => none

/-- The grip of a worker on the fiber `f`. -/
def gripOn (f : FiberId) : Option (FiberId × Grip) → Grip
  | none => .free
  | some (g, grip) => if g = f then grip else .free

@[simp] theorem gripOn_self (f : FiberId) (grip : Grip) : gripOn f (some (f, grip)) = grip := if_pos rfl

theorem gripOn_ne {f g : FiberId} (h : g ≠ f) (grip : Grip) : gripOn f (some (g, grip)) = .free :=
  if_neg h

theorem gripOn_free {f g : FiberId} {o : Option (FiberId × Grip)} (ho : ∀ p ∈ o, p.1 = g) (h : f ≠ g) :
    gripOn f o = .free := by
  cases o with
  | none => rfl
  | some p => exact gripOn_ne (by rw [ho p rfl]; exact Ne.symm h) p.2

@[simp] theorem Pc.grip_tickled (need : Bool) (p : Pc) : (tickled need p).grip = p.grip :=
  Pc.apply_tickled (fun _ => rfl) need p

@[simp] theorem Pc.grip_tickles (p : Pc) (k : Nat) : (tickles p k).grip = p.grip :=
  Pc.apply_tickles (fun _ => rfl) p k

theorem Pc.grip_returned (call : StopCall) (sh : Shared) (w : Worker) (result : Bool) :
    (call.returned sh w result).pc.grip = none := by
  cases call <;> cases result <;> simp [StopCall.returned, grip]

theorem StopCall.returned_cbFiber (call : StopCall) (sh : Shared) (w : Worker) (result : Bool) :
    (call.returned sh w result).cbFiber = w.cbFiber := by
  cases call <;> cases result <;> rfl

namespace Scheduler

variable {n : Nat} {s : Scheduler n} {i : Fin n} {x : Shared × Worker} {f g : FiberId}

/-- One fiber of a scheduler. -/
def view (s : Scheduler n) (f : FiberId) : FiberView (Fin n) where
  owed := s.shared.owed f
  fiber := s.shared.fibers f
  made := decide (f < s.shared.made)
  grip := fun i => gripOn f (s.thread i).pc.grip
  cb := fun i => decide ((s.thread i).cbFiber = some f)

theorem view_set (s : Scheduler n) (i : Fin n) (x : Shared × Worker) (f : FiberId) :
    view (s.set i x) f =
      { owed := x.1.owed f
        fiber := x.1.fibers f
        made := decide (f < x.1.made)
        grip := Function.update (s.view f).grip i (gripOn f x.2.pc.grip)
        cb := Function.update (s.view f).cb i (decide (x.2.cbFiber = some f)) } := by
  have hgrip : (view (s.set i x) f).grip = Function.update (s.view f).grip i (gripOn f x.2.pc.grip) := by
    funext k
    by_cases hk : k = i
    · subst hk
      simp [view]
    · simp [view, Threads.set_thread_ne hk, hk]
  have hcb : (view (s.set i x) f).cb =
      Function.update (s.view f).cb i (decide (x.2.cbFiber = some f)) := by
    funext k
    by_cases hk : k = i
    · subst hk
      simp [view]
    · simp [view, Threads.set_thread_ne hk, hk]
  rw [← hgrip, ← hcb]
  rfl

theorem view_same (howed : x.1.owed f = s.shared.owed f) (hfiber : x.1.fibers f = s.shared.fibers f)
    (hmade : f < x.1.made ↔ f < s.shared.made) (hgrip : gripOn f x.2.pc.grip = gripOn f (s.thread i).pc.grip)
    (hcb : x.2.cbFiber = some f ↔ (s.thread i).cbFiber = some f) : view (s.set i x) f = s.view f := by
  have hg : Function.update (s.view f).grip i (gripOn f x.2.pc.grip) = (s.view f).grip :=
    Function.update_eq_self_iff.mpr hgrip
  have hc : Function.update (s.view f).cb i (decide (x.2.cbFiber = some f)) = (s.view f).cb :=
    Function.update_eq_self_iff.mpr (decide_eq_decide.mpr hcb)
  rw [view_set, hg, hc, howed, hfiber, decide_eq_decide.mpr hmade]
  rfl

/-- The fiber that a worker executes is not yet given away. -/
def keepsFiber (s : Scheduler n) (i : Fin n) : Bool :=
  match (s.thread i).pc with
  | .inside f _ => s.shared.owed f = 0
  | _ => true

/-- The fibers are scheduled as they are given: who schedules a fiber was given it, and a fiber that ends, throws,
yields with `YieldToReady` or gives itself away is not yet given away. -/
def disciplined (s : Scheduler n) : SLabel n → Bool
  | .outer (.schedule reqs _) | .thread _ (.schedule reqs _) => s.shared.reqsOk reqs
  | .thread _ (.trigger req) => s.shared.reqsOk [req]
  | .thread i .finish | .thread i .throw | .thread i .yieldReady | .thread i .giveAway => s.keepsFiber i
  | _ => true

/-- A fiber is taken from the queue only when no worker is on its way out of it. -/
def takenBack (s : Scheduler n) : SLabel n → Bool
  | .thread i .go =>
    match (s.thread i).pc, (scanQueue s.shared.fibers i s.shared.queue).1 with
    | .scan, some (⟨.fiber f, _⟩, _) => decide (∀ j, (gripOn f (s.thread j).pc.grip).isOut = false)
    | _, _ => true
  | _ => true

/-- What worker `i` takes from the queue, no worker is on its way out of. -/
theorem takenBack_scan {thread : Option Nat} {queue : List Task} {tickleMe : Bool}
    (h : s.takenBack (.thread i .go) = true) (hpc : (s.thread i).pc = .scan)
    (hscan : scanQueue s.shared.fibers i s.shared.queue = (some (⟨.fiber f, thread⟩, queue), tickleMe)) :
    ∀ j, (gripOn f (s.thread j).pc.grip).isOut = false := by
  simp only [takenBack, hpc, hscan] at h
  exact of_decide_eq_true h

variable {grip : Grip} {fiber : Fiber} {isCb : Bool} {w : Worker}

theorem owed_of_keepsFiber (h : s.keepsFiber i = true)
    (hpc : (s.thread i).pc = .inside f isCb) : s.shared.owed f = 0 := by
  simp only [keepsFiber, hpc] at h
  exact of_decide_eq_true h

variable {m : Nat} {c : Choice} {g' : Grip}

theorem move_same (howed : x.1.owed f = s.shared.owed f) (hfiber : x.1.fibers f = s.shared.fibers f)
    (hmade : f < x.1.made ↔ f < s.shared.made) (hgrip : gripOn f x.2.pc.grip = gripOn f (s.thread i).pc.grip)
    (hcb : x.2.cbFiber = some f ↔ (s.thread i).cbFiber = some f) : FiberMove m (s.view f) (view (s.set i x) f) := by
  rw [view_same howed hfiber hmade hgrip hcb]
  exact .same

theorem move_cb {owed : Nat} {made : Bool} {cb : Bool}
    (howed : x.1.owed f = owed) (hfiber : x.1.fibers f = fiber) (hmade : decide (f < x.1.made) = made)
    (hgrip : gripOn f x.2.pc.grip = grip) (hcb : decide (x.2.cbFiber = some f) = cb)
    (h : FiberMove m (s.view f)
      { owed
        fiber
        made
        grip := Function.update (s.view f).grip i grip
        cb := Function.update (s.view f).cb i cb }) :
    FiberMove m (s.view f) (view (s.set i x) f) := by
  rw [view_set, howed, hfiber, hmade, hgrip, hcb]
  exact h

/-- A step of worker `i` on the fiber `f` that keeps the `cb_fiber`. -/
theorem move_own {owed : Nat} (howed : x.1.owed f = owed)
    (hfiber : x.1.fibers f = fiber) (hmade : x.1.made = s.shared.made)
    (hgrip : gripOn f x.2.pc.grip = grip) (hcb : x.2.cbFiber = (s.thread i).cbFiber)
    (h : FiberMove m (s.view f)
      { s.view f with owed, fiber, grip := Function.update (s.view f).grip i grip }) :
    FiberMove m (s.view f) (view (s.set i x) f) := by
  refine move_cb howed hfiber (congrArg (fun k => decide (f < k)) hmade) hgrip
    (congrArg (fun o => decide (o = some f)) hcb) ?_
  have hself : Function.update (s.view f).cb i (decide ((s.thread i).cbFiber = some f)) =
      (s.view f).cb := Function.update_eq_self i _
  rw [hself]
  exact h

theorem grip_view (hpc : (s.thread i).pc.grip = some (f, g')) : (s.view f).grip i = g' := by
  show gripOn f (s.thread i).pc.grip = g'
  rw [hpc, gripOn_self]

/-- A worker that gives up its `cb_fiber` `g` is not concerned with the `cb_fiber` `f`. -/
theorem cbFiber_clear_iff (hinv : FiberInv m (s.view g))
    (hgrip : (s.thread i).pc.grip = some (g, g')) (hfree : g' ≠ .free) (hcb : g'.isCb = isCb) (hne : g ≠ f) :
    (if isCb then none else (s.thread i).cbFiber) = some f ↔ (s.thread i).cbFiber = some f := by
  cases isCb with
  | false => exact Iff.rfl
  | true =>
    obtain ⟨-, -, -, hcbs⟩ := hinv.of_grip (grip_view hgrip) hfree
    have hself : (s.thread i).cbFiber = some g := of_decide_eq_true ((hcbs i).mpr ⟨rfl, hcb⟩)
    rw [hself]
    simp [hne]

/-- A step of worker `i` that concerns one fiber. -/
theorem move_split (g : FiberId) (hpc : ∀ p ∈ (s.thread i).pc.grip, p.1 = g) (hpc' : ∀ p ∈ x.2.pc.grip, p.1 = g)
    (hother : ∀ f, f ≠ g → x.1.owed f = s.shared.owed f ∧ x.1.fibers f = s.shared.fibers f ∧
      (f < x.1.made ↔ f < s.shared.made) ∧ (x.2.cbFiber = some f ↔ (s.thread i).cbFiber = some f))
    (hown : FiberMove m (s.view g) (view (s.set i x) g)) : FiberMove m (s.view f) (view (s.set i x) f) := by
  by_cases hfg : f = g
  · rw [hfg]
    exact hown
  · obtain ⟨howed, hfiber, hmade, hcb⟩ := hother f hfg
    exact move_same howed hfiber hmade (by rw [gripOn_free hpc' hfg, gripOn_free hpc hfg]) hcb

/-- The same, if no fiber is queued or made and the worker keeps its `cb_fiber`. -/
theorem move_fiber (g : FiberId) (hpc : ∀ p ∈ (s.thread i).pc.grip, p.1 = g)
    (hpc' : ∀ p ∈ x.2.pc.grip, p.1 = g) (howed : ∀ f, x.1.owed f = s.shared.owed f)
    (hfibers : ∀ f, f ≠ g → x.1.fibers f = s.shared.fibers f) (hmade : x.1.made = s.shared.made)
    (hcb : x.2.cbFiber = (s.thread i).cbFiber) (hfiber : x.1.fibers g = fiber) (hgrip : gripOn g x.2.pc.grip = grip)
    (h : FiberMove m (s.view g) { s.view g with fiber, grip := Function.update (s.view g).grip i grip }) :
    FiberMove m (s.view f) (view (s.set i x) f) :=
  move_split g hpc hpc' (fun f hf => ⟨howed f, hfibers f hf, by rw [hmade], by rw [hcb]⟩)
    (move_own (howed g) hfiber hmade hgrip hcb h)

theorem move_scanSome {t : Task} {queue : List Task} {tickleMe : Bool} {sh : Shared}
    (hback : 0 < m → s.takenBack (.thread i .go) = true) (pc : (s.thread i).pc = .scan)
    (scan : scanQueue s.shared.fibers i s.shared.queue = (some (t, queue), tickleMe))
    (hsh : sh.queue = queue ∧ sh.given = s.shared.given ∧ sh.fibers = s.shared.fibers ∧ sh.made = s.shared.made)
    (hw : w.pc.grip = (Pc.scanned (some t)).grip ∧ w.cbFiber = (s.thread i).cbFiber) :
    FiberMove m (s.view f) (view (s.set i (sh, w)) f) := by
  obtain ⟨-, hexec, front, back, hqueue, hrest⟩ := scanQueue_some scan
  obtain ⟨hqueue', hgiven, hfibers, hmade⟩ := hsh
  obtain ⟨hpc', hcb⟩ := hw
  have hpc : (s.thread i).pc.grip = none := congrArg Pc.grip pc
  have howed := Shared.owed_take hqueue (hqueue'.trans hrest) hgiven
  obtain ⟨d | g, thread⟩ := t
  · refine move_same ?_ (by rw [hfibers]) (by rw [hmade]) (by rw [hpc, hpc']; rfl) (by rw [hcb])
    simpa using (howed f).symm
  · refine move_split g (by simp [hpc]) (by simp [hpc', Pc.grip]) (fun f hf => ⟨?_, by rw [hfibers], by rw [hmade],
      by rw [hcb]⟩) ?_
    · simpa [Ne.symm hf] using (howed f).symm
    · have hg := howed g
      rw [if_pos rfl] at hg
      refine move_own (Nat.eq_sub_of_add_eq hg.symm) (by rw [hfibers]; rfl) hmade
        (by rw [hpc']; exact gripOn_self g .carries) hcb (.take ?_ ?_ hexec fun hm => takenBack_scan (hback hm) pc
          scan)
      · show gripOn g (s.thread i).pc.grip = .free
        rw [hpc]
        rfl
      · show 0 < s.shared.owed g
        omega

theorem move_newFiber (s : Scheduler n) (f : FiberId) : FiberMove m (s.view f)
      (view { s with shared := s.shared.newFiber.setGiven s.shared.made true } f) := by
  by_cases hfg : s.shared.made = f
  · subst hfg
    have hmade : (s.view s.shared.made).made = false := decide_eq_false (Nat.lt_irrefl _)
    have honce : (s.view s.shared.made).owed = 0 →
        (s.shared.newFiber.setGiven s.shared.made true).owed s.shared.made = 1 := fun h =>
      Shared.owed_setGiven h
    have hmove := FiberMove.make (m := m) hmade honce
    have hfiber : (s.shared.newFiber.setGiven s.shared.made true).fibers s.shared.made = {} :=
      Shared.setFiber_self _ _ _
    have hnow : decide (s.shared.made < (s.shared.newFiber.setGiven s.shared.made true).made) = true :=
      decide_eq_true (Nat.lt_succ_self _)
    simpa only [view, hfiber, hnow] using hmove
  · have hfiber : (s.shared.newFiber.setGiven s.shared.made true).fibers f = s.shared.fibers f :=
      Shared.setFiber_ne _ _ (Ne.symm hfg)
    have howed : (s.shared.newFiber.setGiven s.shared.made true).owed f = s.shared.owed f :=
      Shared.owed_setGiven_ne (Ne.symm hfg)
    have hmade : f < (s.shared.newFiber.setGiven s.shared.made true).made ↔ f < s.shared.made :=
      ⟨fun h => Nat.lt_of_le_of_ne (Nat.le_of_lt_succ h) (Ne.symm hfg), Nat.lt_succ_of_lt⟩
    have hsame : view { s with shared := s.shared.newFiber.setGiven s.shared.made true } f = s.view f := by
      simp only [view, hfiber, howed, hmade]
    rw [hsame]
    exact .same

theorem move_toNewCb (hpc : (s.thread i).pc.grip = none) (hpc' : w.pc.grip = some (s.shared.made, .starts))
    (hnone : (s.thread i).cbFiber = none) (hcb : w.cbFiber = some s.shared.made) :
    FiberMove m (s.view f) (view (s.set i (s.shared.newFiber, w)) f) := by
  refine move_split s.shared.made (by simp [hpc]) (by simp [hpc']) (fun f hf => ⟨rfl, Shared.setFiber_ne _ _ hf,
    ⟨fun h => Nat.lt_of_le_of_ne (Nat.le_of_lt_succ h) hf, Nat.lt_succ_of_lt⟩, by simp [hnone, hcb, Ne.symm hf]⟩) ?_
  have hmade : (s.view s.shared.made).made = false := decide_eq_false (Nat.lt_irrefl _)
  have hgrip : (s.view s.shared.made).grip i = .free := by
    show gripOn _ (s.thread i).pc.grip = .free
    rw [hpc]
    rfl
  exact move_cb rfl (Shared.setFiber_self _ _ _) (decide_eq_true (Nat.lt_succ_self _)) (by rw [hpc', gripOn_self])
    (by simp [hcb]) (.makeCb hmade hgrip)

theorem move_ended (hpc : (s.thread i).pc.grip = some (g, .unready isCb))
    (hpc' : w.pc.grip = none) (hcb : w.cbFiber = (s.thread i).cbFiber) (state : (s.shared.fibers g).state.Ended) :
    FiberMove m (s.view f) (view (s.set i (if isCb then s.shared.setFiber g {} else s.shared, w)) f) := by
  have hmove := FiberMove.ended (m := m) (grip_view hpc) state
  refine move_fiber g (by simp [hpc]) (by simp [hpc']) ?_ ?_ ?_ hcb ?_ (by rw [hpc']; rfl) hmove <;> cases isCb
  · exact fun _ => rfl
  · exact fun _ => rfl
  · exact fun _ _ => rfl
  · exact fun _ hf => Shared.setFiber_ne _ _ hf
  · rfl
  · rfl
  · rfl
  · exact Shared.setFiber_self _ _ _

/-- The code of a task that ends, throws or yields with `YieldToReady` has not given its fiber away. -/
theorem owed_of_leaves {state : FiberState} (hd : s.disciplined (.thread i c) = true)
    (pc : (s.thread i).pc = .inside g isCb) (leaves : c.leaves? = some state) :
    state ≠ .exec ∧ state ≠ .init ∧ (state ≠ .hold → s.shared.owed g = 0) := by
  cases c <;> cases leaves
  case yieldHold => exact ⟨by simp, by simp, fun hhold => absurd rfl hhold⟩
  all_goals exact ⟨by simp, by simp, fun _ => owed_of_keepsFiber hd pc⟩

theorem move_giveAway (hd : s.disciplined (.thread i .giveAway) = true) (hm : 0 < m)
    (pc : (s.thread i).pc = .inside g isCb) :
    FiberMove m (s.view f) (view (s.set i (s.shared.setGiven g true, s.thread i)) f) := by
  have hgrip : (s.thread i).pc.grip = some (g, .inside isCb) := congrArg Pc.grip pc
  refine move_split g (by simp [hgrip]) (by simp [hgrip])
    (fun f hf => ⟨Shared.owed_setGiven_ne hf, rfl, Iff.rfl, Iff.rfl⟩) ?_
  rw [Threads.set_thread]
  refine .giveAway (grip_view hgrip) ?_
  show (s.shared.setGiven g true).owed g ≤ m
  rw [Shared.owed_setGiven (owed_of_keepsFiber hd pc)]
  exact hm

/-- **A step of a worker** is a step in the life of each fiber. -/
theorem move_worker (h : LoopStep i s.shared (s.thread i) c x.1 x.2)
    (hd : s.disciplined (.thread i c) = true) (hback : 0 < m → s.takenBack (.thread i c) = true)
    (hgive : c = .giveAway → 0 < m) (hinv : ∀ g, FiberInv m (s.view g)) (f : FiberId) :
    FiberMove m (s.view f) (view (s.set i x) f) := by
  obtain ⟨sh', w'⟩ := x
  dsimp only at h
  cases h with
  | scanSome pc scan => exact move_scanSome hback pc scan ⟨rfl, rfl, rfl, rfl⟩ ⟨Pc.grip_tickled _ _, rfl⟩
  | @toDiscard g thread pc ended =>
    exact move_fiber g (by simp [pc, Pc.grip]) (by simp [Pc.grip]) (fun _ => rfl) (fun _ _ => rfl) rfl rfl rfl rfl
      (.drop (grip_view (congrArg Pc.grip pc)))
  | toNewCb pc cbFiber => exact move_toNewCb (congrArg Pc.grip pc) rfl cbFiber rfl
  | @toCb d thread g pc cbFiber state =>
    refine move_fiber g (by simp [pc, Pc.grip]) (by simp [Pc.grip]) (fun _ => rfl)
      (fun _ hf => Shared.setFiber_ne _ _ hf) rfl rfl (Shared.setFiber_self _ _ _) (gripOn_self _ _)
      (.reuse ?_ (decide_eq_true cbFiber))
    show gripOn g (s.thread i).pc.grip = .free
    rw [pc]
    rfl
  | @enter g cb pc =>
    have hgrip : (s.view g).grip i = if cb.isSome then .starts else .carries := by
      cases cb <;> exact grip_view (congrArg Pc.grip pc)
    have hmove := FiberMove.enter (m := m) (v := s.view g) (i := i) (by cases cb <;> simp_all)
    have hisCb : ((s.view g).grip i).isCb = cb.isSome := by rw [hgrip]; cases cb <;> rfl
    rw [hisCb] at hmove
    exact move_fiber g (by cases cb <;> simp [pc, Pc.grip]) (by simp [Pc.grip]) (fun _ => rfl)
      (fun _ hf => Shared.setFiber_ne _ _ hf) rfl rfl (Shared.setFiber_self _ _ _) (gripOn_self _ _) hmove
  | @save g isCb pc =>
    exact move_fiber g (by simp [pc, Pc.grip]) (by simp [Pc.grip]) (fun _ => rfl)
      (fun _ hf => Shared.setFiber_ne _ _ hf) rfl rfl (Shared.setFiber_self _ _ _) (gripOn_self _ _)
      (.save (grip_view (congrArg Pc.grip pc)))
  | @requeue g isCb pc state =>
    have hpc : (s.thread i).pc.grip = some (g, .after isCb) := congrArg Pc.grip pc
    refine move_split g (by simp [hpc]) (by simp [Pc.grip]) (fun f hf => ⟨Shared.owed_requeue_ne hf,
      congrFun (Shared.scheduleAll_fibers _ _ _) f, Iff.rfl, cbFiber_clear_iff (hinv g) hpc (by simp) rfl hf.symm⟩) ?_
    refine move_cb rfl (congrFun (Shared.scheduleAll_fibers _ _ _) g) rfl (by rw [Pc.grip_tickled]; rfl) ?_
      (.requeue (grip_view hpc) state Shared.owed_requeue)
    cases isCb <;> simp [view]
  | @notReady g isCb pc state =>
    exact move_fiber g (by simp [pc, Pc.grip]) (by simp [Pc.grip]) (fun _ => rfl) (fun _ _ => rfl) rfl rfl rfl
      (gripOn_self _ _) (.notReady (grip_view (congrArg Pc.grip pc)) state)
  | ended pc state => exact move_ended (congrArg Pc.grip pc) rfl rfl state
  | @notEnded g isCb pc state =>
    exact move_fiber g (by simp [pc, Pc.grip]) (by simp [Pc.grip]) (fun _ => rfl) (fun _ _ => rfl) rfl rfl rfl
      (gripOn_self _ _) (.notEnded (grip_view (congrArg Pc.grip pc)))
  | @hold g isCb pc =>
    have hpc : (s.thread i).pc.grip = some (g, .holds isCb) := congrArg Pc.grip pc
    refine move_split g (by simp [hpc]) (by simp [Pc.grip]) (fun f hf => ⟨rfl, Shared.setFiber_ne _ _ hf, Iff.rfl,
      cbFiber_clear_iff (hinv g) hpc (by simp) rfl hf.symm⟩) ?_
    refine move_cb rfl (Shared.setFiber_self _ _ _) rfl rfl ?_ (.hold (grip_view hpc))
    cases isCb <;> simp [view]
  | @leave g isCb c state pc leaves =>
    obtain ⟨hexec, hinit, hkept⟩ := owed_of_leaves hd pc leaves
    exact move_fiber g (by simp [pc, Pc.grip]) (by simp [Pc.grip]) (fun _ => rfl)
      (fun _ hf => Shared.setFiber_ne _ _ hf) rfl rfl (Shared.setFiber_self _ _ _) (gripOn_self _ _)
      (.leave (grip_view (congrArg Pc.grip pc)) hexec hinit hkept)
  | giveAway pc => exact move_giveAway hd (hgive rfl) pc
  | newFiber pc =>
    rw [Threads.set_thread]
    exact move_newFiber s f
  -- who schedules was given the fibers, and they are owed as before
  | schedule pc knows =>
    exact move_same (Shared.owed_scheduleAll hd _ f) (congrFun (Shared.scheduleAll_fibers _ _ _) f)
      (iff_of_eq (congrArg (f < ·) (Shared.scheduleAll_made _ _ _))) (by rw [Pc.grip_tickled]) Iff.rfl
  | trigger pc knows events =>
    exact move_same (Shared.owed_scheduleAll hd _ f) (congrFun (Shared.scheduleAll_fibers _ _ _) f)
      (iff_of_eq (congrArg (f < ·) (Shared.scheduleAll_made _ _ _))) (by rw [Pc.grip_tickled]; rfl) Iff.rfl
  | @expire cbs gone pc gone_le =>
    exact move_same (Shared.owed_scheduleAll (Shared.reqsOk_cbs _ cbs) _ f)
      (congrFun (Shared.scheduleAll_fibers _ _ _) f) (iff_of_eq (congrArg (f < ·) (Shared.scheduleAll_made _ _ _)))
      (by rw [pc, Pc.grip_tickled]; rfl) Iff.rfl
  -- the other steps concern no fiber
  | scanNone pc => exact move_same rfl rfl Iff.rfl (by rw [pc, Pc.grip_tickled]; rfl) Iff.rfl
  | addTimer => exact move_same rfl rfl Iff.rfl (by rw [Pc.grip_tickled]) Iff.rfl
  | tickle pc =>
    refine move_same rfl rfl Iff.rfl ?_ Iff.rfl
    rw [pc]
    dsimp only
    split <;> rfl
  | setStopping pc =>
    refine move_same rfl rfl Iff.rfl ?_ Iff.rfl
    rw [pc]
    dsimp only
    split
    · rfl
    · rw [Pc.grip_tickles]
      rfl
  | testTrue pc | testFalse pc =>
    refine move_same rfl rfl Iff.rfl ?_ (by rw [StopCall.returned_cbFiber])
    rw [pc, Pc.grip_returned]
    rfl
  | @swapIn g cb pc =>
    refine move_same rfl rfl Iff.rfl ?_ Iff.rfl
    rw [pc]
    cases cb <;> rfl
  | abortReset | abortSwap | cancelTimer | addEvent | delEvent | drain =>
    exact move_same rfl rfl Iff.rfl rfl Iff.rfl
  | toIdle pc | toFiber pc | back pc | discard pc | write pc | countDown pc | stop pc | testNext pc
    | finish pc | idle pc | wakeUp pc | done pc | idleOut pc =>
    exact move_same rfl rfl Iff.rfl (by rw [pc]; rfl) Iff.rfl

/-- A step of another thread is a step in the life of each fiber. -/
theorem move_outer {e : Outer} {shared : Shared} (h : OuterStep s.shared e shared)
    (hd : s.disciplined (.outer e) = true) (f : FiberId) : FiberMove m (s.view f) (view { s with shared } f) := by
  cases h with
  | @schedule reqs thread knows =>
    have hsame : view { s with shared := { s.shared.scheduleAll thread reqs with
        tickling := s.shared.tickling + if s.shared.needTickle reqs then 1 else 0 } } f = s.view f := by
      have howed := Shared.owed_scheduleAll hd thread f
      simp only [view, Shared.scheduleAll_fibers, Shared.scheduleAll_made]
      rw [← howed]
      rfl
    rw [hsame]
    exact .same
  | newFiber => exact move_newFiber s f
  | tickle | write | addTimer | cancelTimer | stop | setStopping => exact .same

/-- What holds of the fibers of a scheduler. `m` is 0 if no fiber gives itself away. -/
def FibersInv (m : Nat) (s : Scheduler n) : Prop := ∀ f, FiberInv m (s.view f)

theorem fibersInv_new (n : Nat) (useCaller : Bool) : FibersInv m (new n useCaller) := by
  intro f
  refine .unmade rfl rfl ?_ fun _ => rfl
  intro j
  show gripOn f (Pc.grip (if _ then _ else _)) = .free
  split <;> rfl

/-- **One step** keeps what holds of the fibers. -/
theorem fibersInv_step {s' : Scheduler n} {l : SLabel n} (hm : m ≤ 1) (hinv : FibersInv m s)
    (hd : s.disciplined l = true) (hback : 0 < m → s.takenBack l = true)
    (hgive : ∀ i, l = .thread i .giveAway → 0 < m) (h : Step s l s') : FibersInv m s' := by
  intro f
  obtain ⟨-, ⟨i, c, x, rfl, hstep, rfl⟩ | ⟨e, shared, rfl, hstep, rfl⟩⟩ := step_cases h
  · exact (move_worker hstep hd hback (fun hc => hgive i (by rw [hc])) hinv f).inv hm (hinv f)
  · exact (move_outer hstep hd f).inv hm (hinv f)

/-- No assertion of a fiber fails. -/
theorem aborted_step {s' : Scheduler n} {l : SLabel n} (hinv : FibersInv m s) (h : Step s l s') :
    s'.shared.aborted = false := by
  obtain ⟨hab, ⟨i, c, x, rfl, hstep, rfl⟩ | ⟨e, shared, rfl, hstep, rfl⟩⟩ := step_cases h
  · obtain ⟨sh', w'⟩ := x
    dsimp only at hstep
    show sh'.aborted = false
    cases hstep with
    | @abortReset d thread f pc cbFiber state =>
      -- the `cb_fiber` of a worker that is about to start a callback is at its start
      exfalso
      have hcb : (s.view f).cb i = true := decide_eq_true cbFiber
      have hgrip : (s.view f).grip i = .free := by
        show gripOn f (s.thread i).pc.grip = .free
        rw [pc]
        rfl
      cases hinv f with
      | unmade _ _ _ hnone =>
        rw [hnone i] at hcb
        cases hcb
      | idle _ _ _ _ _ hidle =>
        obtain hnone | ⟨-, hinit, -⟩ := hidle
        · rw [hnone i] at hcb
          cases hcb
        · exact state (.inr (.inl hinit))
      | held k _ _ ok hheld =>
        obtain ⟨rfl, -⟩ := (hheld i).mp hcb
        rw [hgrip] at ok
        exact ok
    | @abortSwap f cb pc state =>
      exfalso
      cases cb <;> obtain ⟨-, -, ok, -⟩ := (hinv f).of_grip (grip_view (congrArg Pc.grip pc)) (by simp) <;>
        exact ok.2.2 state
    | requeue | schedule | trigger | expire =>
      rw [Shared.scheduleAll_eq]
      exact hab
    | @ended f isCb => cases isCb <;> exact hab
    | _ => exact hab
  · cases hstep with
    | schedule =>
      rw [Shared.scheduleAll_eq]
      exact hab
    | _ => exact hab

end Scheduler

/-- The worker has entered the fiber `f` and its context is not yet saved. -/
def Pc.executes (f : FiberId) : Pc → Bool
  | inside g _ | leaving g _ => g = f
  | tickle next | write next | countDown next => next.executes f
  | _ => false

/-- No fiber is executed by two workers, and a fiber is resumed after its context was saved. -/
structure FibersSafe {n : Nat} (s : Scheduler n) : Prop where
  one : ∀ i j f, (s.thread i).pc.executes f = true → (s.thread j).pc.executes f = true → i = j
  saved : ∀ i f cb, (s.thread i).pc = .enter f cb → (s.shared.fibers f).saved = true

theorem Pc.grip_of_executes {f : FiberId} {p : Pc} (h : p.executes f = true) : gripOn f p.grip ≠ .free := by
  induction p with
  | inside g isCb =>
    obtain rfl : g = f := of_decide_eq_true h
    rw [Pc.grip, gripOn_self]
    nofun
  | leaving g isCb =>
    obtain rfl : g = f := of_decide_eq_true h
    rw [Pc.grip, gripOn_self]
    nofun
  | tickle next ih | write next ih | countDown next ih => exact ih h
  | _ => cases h

theorem Scheduler.FibersInv.safe {n m : Nat} {s : Scheduler n} (h : s.FibersInv m) : FibersSafe s where
  one i j f hi hj := (h f).unique (Pc.grip_of_executes hi) (Pc.grip_of_executes hj)
  saved i f cb hpc := by
    cases cb <;> obtain ⟨-, -, ok, -⟩ := (h f).of_grip (grip_view (congrArg Pc.grip hpc)) (by simp) <;> exact ok.2.1

/-- **Fibers.** No fiber is executed by two workers or resumed before its context was saved, in every
run in which a fiber is taken from the queue only when no worker is on its way out of it. -/
theorem fibers_hold (n : Nat) (useCaller : Bool) {r : List (Scheduler.SLabel n × Scheduler n)}
    (hr : Run Scheduler.Step (Scheduler.new n useCaller) r)
    (hd : Meets (fun s l => s.disciplined l = true) (Scheduler.new n useCaller) r)
    (hback : Meets (fun s l => s.takenBack l = true) (Scheduler.new n useCaller) r) : Reached FibersSafe r := by
  have hinv : Reached (Scheduler.FibersInv 1) r := by
    refine Run.inv (fun s l s' hs hc hstep => ?_) hr (hd.and hback) (Scheduler.fibersInv_new n useCaller)
    exact Scheduler.fibersInv_step (Nat.le_refl 1) hs hc.1 (fun _ => hc.2) (fun _ _ => Nat.one_pos) hstep
  exact hinv.mono fun s hs => hs.safe

/-- A worker starts a callback, and its fiber gives itself away and yields with `YieldToHold`. -/
def handOver {n : Nat} (i : Fin n) : List (Scheduler.SLabel n) :=
  [.outer (.schedule [.cb] none), .thread i .go, .thread i .go, .thread i .go, .thread i .go,
    .thread i .giveAway, .thread i .yieldHold]

/-- The fiber is scheduled, and another worker takes it and swaps it in. -/
def takeOver {n : Nat} (i : Fin n) : List (Scheduler.SLabel n) :=
  [.outer (.schedule [.fiber 0] none), .thread i .go, .thread i .go, .thread i .go, .thread i .go]

/-- The first worker is out of the fiber before the second takes it. -/
theorem fibers_hold_handOver :
    ∃ r : List (Scheduler.SLabel 2 × Scheduler 2), Run Scheduler.Step (Scheduler.new 2 false) r ∧
      ((lastState (Scheduler.new 2 false) r).thread 1).pc = .inside 0 false ∧ Reached FibersSafe r := by
  obtain ⟨r, hr, hd, hback, hpc⟩ := exists_run_of_trace? (f := Scheduler.step?) (s := Scheduler.new 2 false)
    (handOver 0 ++ List.replicate 5 (.thread 0 .go) ++ takeOver 1)
    (P := fun r => Meets (fun s l => s.disciplined l = true) (Scheduler.new 2 false) r ∧
      Meets (fun s l => s.takenBack l = true) (Scheduler.new 2 false) r ∧
      ((lastState (Scheduler.new 2 false) r).thread 1).pc = .inside 0 false) (by decide +kernel)
  exact ⟨r, hr, hpc, fibers_hold 2 false hr hd hback⟩

/-- The second worker takes the fiber before the first has saved its context: both execute it. -/
theorem fibers_notHeld : ∃ r : List (Scheduler.SLabel 2 × Scheduler 2), Run Scheduler.Step (Scheduler.new 2 false) r ∧
      Meets (fun s l => s.disciplined l = true) (Scheduler.new 2 false) r ∧ ¬Reached FibersSafe r := by
  obtain ⟨r, hr, hd, hfirst, hsecond⟩ := exists_run_of_trace? (f := Scheduler.step?) (s := Scheduler.new 2 false)
    (handOver 0 ++ takeOver 1)
    (P := fun r => Meets (fun s l => s.disciplined l = true) (Scheduler.new 2 false) r ∧
      ((lastState (Scheduler.new 2 false) r).thread 0).pc.executes 0 = true ∧
      ((lastState (Scheduler.new 2 false) r).thread 1).pc.executes 0 = true) (by decide +kernel)
  refine ⟨r, hr, hd, fun hsafe => ?_⟩
  have hlast := hsafe.last (s := Scheduler.new 2 false) (Scheduler.fibersInv_new (m := 1) 2 false).safe
  cases hlast.one 0 1 0 hfirst hsecond

end Sherry
