import OtaServer.Ota.Notifier
import OtaServer.Timer.Expiry

/-!
# The timers of one notifier (`sherry/ota_notifier.cc`, `sherry/timer.cc`)

A notifier and the timer manager it shares with the rest of the program. Other parts of the program have timers of
their own in the manager, and the manager lets timers expire, at any time.

* `OTANotifier.setMessage`, `OTANotifier.start`, `OTANotifier.stop`: the calls, each under the notifier's mutex.
* `NotifierState.live`: the timers of the notifier that are in `m_timers`.
* `Owns`: the notifier's timers are the one that it remembers. `Owns.step`: a call of `start` on a notifier that
  remembers a timer breaks it, everything else keeps it.
* `oneTimer_iff`: there is never more than one timer, and none behind `stop`, exactly if `start` is only called on a
  notifier that remembers none.
-/

namespace Sherry

open Lib

/-! ## Model -/

namespace OTANotifier

/-- `set_message`. -/
def setMessage (n : OTANotifier) (msg : OTAMessage) : OTANotifier := { n with msg }

/-- `start`. The new timer is at the address `a`, and `cb` is the callback that publishes this notifier. -/
def start (cb : Nat) (n : OTANotifier) (m : TimerManager) (a now : Nat) : OTANotifier × TimerManager :=
  ({ n with timer := some a }, (m.insertTimer a (.make n.intervalMs cb true now)).1)

/-- `stop`. -/
def stop (n : OTANotifier) (m : TimerManager) : Option (OTANotifier × TimerManager) :=
  match n.timer with
  | some a => (m.cancel a).map fun x => ({ n with timer := none }, x.1)
  | none => some (n, m)

end OTANotifier

/-- A notifier, and the manager of its timers. -/
structure NotifierState where
  notifier : OTANotifier
  manager : TimerManager
  /-- Of the calls of `start` and `stop` the last one was `stop`. -/
  stopped : Bool := false

/-- A call on the notifier, or what the rest of the program does with the manager. -/
inductive NotifierOp where
  | setMessage (msg : OTAMessage)
  | start (a now : Nat)
  | stop
  | other (op : TimerOp)

/-- An operation of the rest of the program, which has no timer of the notifier and does not make one. -/
def TimerOp.leaves (cb : Nat) (m : TimerManager) : TimerOp → Bool
  | .addTimer _ _ cb' _ _ => cb' != cb
  | .cancel a | .refresh a _ | .reset a _ _ _ => (m.heap a).cb != some cb
  | .getNextTimer _ | .listExpiredCb _ _ => true

namespace NotifierState

/-- A notifier that has not been started, and a new manager. -/
def new (n : OTANotifier) (previouseTime : Nat) : NotifierState :=
  { notifier := n, manager := { previouseTime } }

/-- One operation. -/
def run? (cb : Nat) (w : NotifierState) : NotifierOp → Option NotifierState
  | .setMessage msg => some { w with notifier := w.notifier.setMessage msg }
  | .start a now =>
    let x := w.notifier.start cb w.manager a now
    some { notifier := x.1, manager := x.2, stopped := false }
  | .stop => (w.notifier.stop w.manager).map fun x => { notifier := x.1, manager := x.2, stopped := true }
  | .other op => (w.manager.run? op).map fun manager => { w with manager }

/-- New objects are at new addresses, and the rest of the program has only its own timers. -/
def allows (cb : Nat) (w : NotifierState) : NotifierOp → Bool
  | .setMessage _ | .stop => true
  | .start a _ => !w.manager.timers.contains a
  | .other op => w.manager.allocates op && op.leaves cb w.manager

/-- The timers of the notifier that are live. -/
def live (cb : Nat) (w : NotifierState) : List Nat :=
  w.manager.timers.filter fun a => (w.manager.heap a).cb == some cb

/-- At most one timer is live, and none behind `stop`. -/
def OneTimer (cb : Nat) (w : NotifierState) : Prop :=
  (w.live cb).length ≤ 1 ∧ (w.stopped = true → w.live cb = [])

/-- `start` is called only when the notifier remembers no timer. -/
def startsStopped (w : NotifierState) : NotifierOp → Bool
  | .start _ _ => w.notifier.timer == none
  | .setMessage _ | .stop | .other _ => true

end NotifierState

/-! ## Operations of the rest of the program -/

namespace TimerManager

/-- A timer has the callback `cb` before and behind an operation, or at neither time. -/
structure Timer.Kept (cb : Nat) (t t' : Timer) : Prop where
  calls : t'.cb = some cb ↔ t.cb = some cb
  recurring : t.cb = some cb → t'.recurring = t.recurring

theorem Timer.Kept.refl (cb : Nat) (t : Timer) : t.Kept cb t := ⟨Iff.rfl, fun _ => rfl⟩

theorem Timer.Kept.of_ne {cb : Nat} {t t' : Timer} (h : t.cb ≠ some cb) (h' : t'.cb ≠ some cb) : t.Kept cb t' :=
  ⟨iff_of_false h' h, fun heq => absurd heq h⟩

/-- A recurring timer that expires is live again. -/
theorem Timer.kept_fired {cb now : Nat} {t : Timer} (h : t.cb = some cb → t.recurring = true) :
    t.Kept cb (t.fired now) := by
  unfold fired
  split
  next => exact ⟨Iff.rfl, fun _ => rfl⟩
  next hrec => exact .of_ne (fun heq => hrec (h heq)) (Option.some_ne_none cb).symm

variable {s s' : TimerManager} {cb a : Nat} {op : TimerOp}

theorem kept_setTimer {t : Timer} (h : (s.heap a).cb ≠ some cb) (ht : t.cb ≠ some cb) (b : Nat) :
    (s.heap b).Kept cb ((s.setTimer a t).heap b) := by
  rw [setTimer_heap]
  split
  next heq =>
    rw [heq]
    exact .of_ne h ht
  next => exact .refl cb _

/-- **One operation.** -/
theorem kept_run? (h : Inv s) (hrec : ∀ b, (s.heap b).cb = some cb → (s.heap b).recurring = true)
    (halloc : s.allocates op = true) (hleaves : op.leaves cb s = true) (hs : s.run? op = some s') (b : Nat) :
    (s.heap b).Kept cb (s'.heap b) := by
  cases op with
  | addTimer a ms cb' recurring now =>
    cases hs
    have ha : a ∉ s.timers := by simpa [allocates] using halloc
    have hne : cb' ≠ cb := bne_iff_ne.mp hleaves
    -- the new timer has another callback
    refine kept_setTimer (fun heq => ha ((h.cb a).mp ?_)) (fun heq => hne (Option.some.inj heq)) b
    rw [heq]
    rfl
  | cancel a =>
    obtain ⟨x, hx, rfl⟩ := Option.map_eq_some_iff.mp hs
    have hne : (s.heap a).cb ≠ some cb := bne_iff_ne.mp hleaves
    by_cases hcb : (s.heap a).cb.isSome = true
    · rw [cancel_eq h hcb] at hx
      cases hx
      exact kept_setTimer hne (Option.some_ne_none cb).symm b
    · rw [cancel, if_neg hcb] at hx
      cases hx
      exact .refl cb _
  | refresh a now =>
    cases hs
    have hne : (s.heap a).cb ≠ some cb := bne_iff_ne.mp hleaves
    by_cases hcb : (s.heap a).cb.isSome = true
    · rw [refresh_eq now h hcb]
      exact kept_setTimer (s := { s with timers := s.timers.erase a })
        (t := { s.heap a with next := (now + (s.heap a).ms) % 2 ^ 64 }) hne hne b
    · rw [refresh, if_neg hcb]
      exact .refl cb _
  | reset a ms fromNow now =>
    cases hs
    have hne : (s.heap a).cb ≠ some cb := bne_iff_ne.mp hleaves
    rw [reset]
    split
    next => exact .refl cb _
    next =>
      by_cases hcb : (s.heap a).cb.isSome = true
      · obtain ⟨t, -, htcb, -, heq⟩ := resetLocked_eq ms now fromNow h hcb
        rw [heq]
        exact kept_setTimer (s := { s with timers := s.timers.erase a }) hne (htcb ▸ hne) b
      · rw [resetLocked, if_neg hcb]
        exact .refl cb _
  | getNextTimer now =>
    cases hs
    exact .refl cb _
  | listExpiredCb now tmp =>
    cases hs
    have htmp : tmp ∉ s.timers := by simpa [allocates] using halloc
    obtain ⟨-, hheap, -, -⟩ := listExpiredCb_spec now h htmp
    rw [hheap]
    split
    -- a timer that expires is recurring, so it stays
    next => exact Timer.kept_fired (hrec b)
    next => exact .refl cb _

end TimerManager

/-! ## Runs -/

namespace NotifierState

variable {cb : Nat} {w w' : NotifierState} {op : NotifierOp}

/-- The timers with the callback are recurring, and there is one exactly if the notifier remembers it. -/
structure Owns (cb : Nat) (w : NotifierState) : Prop where
  manager : w.manager.Inv
  recurring : ∀ a, (w.manager.heap a).cb = some cb → (w.manager.heap a).recurring = true
  timer : ∀ a, (w.manager.heap a).cb = some cb ↔ w.notifier.timer = some a
  stopped : w.stopped = true → w.notifier.timer = none

theorem mem_live (h : w.manager.Inv) {a : Nat} : a ∈ w.live cb ↔ (w.manager.heap a).cb = some cb := by
  rw [live, List.mem_filter, beq_iff_eq, ← h.cb, and_iff_right_iff_imp]
  intro heq
  rw [heq]
  rfl

theorem Owns.oneTimer (h : Owns cb w) : OneTimer cb w := by
  have hnodup : (w.live cb).Nodup := h.manager.sorted.nodup.sublist List.filter_sublist
  have hmem : ∀ a ∈ w.live cb, w.notifier.timer = some a := fun a ha =>
    (h.timer a).mp ((mem_live h.manager).mp ha)
  constructor
  · cases hlive : w.live cb with
    | nil => exact Nat.zero_le 1
    | cons a l =>
      rw [hlive] at hmem hnodup
      cases l with
      | nil => exact Nat.le_refl 1
      | cons b l =>
        have hab : a = b := Option.some.inj ((hmem a (by simp)).symm.trans (hmem b (by simp)))
        exact absurd (hab ▸ List.mem_cons_self) (List.nodup_cons.mp hnodup).1
  · intro hstopped
    refine List.eq_nil_iff_forall_not_mem.mpr fun a ha => ?_
    cases (h.stopped hstopped).symm.trans (hmem a ha)

theorem Owns.stop (h : Owns cb w) (hs : w.run? cb .stop = some w') : Owns cb w' := by
  obtain ⟨x, hx, rfl⟩ := Option.map_eq_some_iff.mp hs
  rw [OTANotifier.stop] at hx
  cases htimer : w.notifier.timer with
  | none =>
    rw [htimer] at hx
    cases hx
    exact ⟨h.manager, h.recurring, h.timer, fun _ => htimer⟩
  | some a =>
    rw [htimer] at hx
    obtain ⟨y, hy, rfl⟩ := Option.map_eq_some_iff.mp hx
    have hcb : (w.manager.heap a).cb = some cb := (h.timer a).mpr htimer
    have hsome : (w.manager.heap a).cb.isSome = true := by rw [hcb]; rfl
    obtain ⟨z, hz, hinv⟩ : ∃ z, w.manager.cancel a = some z ∧ TimerManager.Inv z.1 := h.manager.cancel
    cases hz.symm.trans hy
    rw [TimerManager.cancel_eq h.manager hsome] at hy
    cases hy
    have hnone : ∀ b, (((w.manager.setTimer a { w.manager.heap a with cb := none })).heap b).cb ≠ some cb := by
      intro b
      rw [TimerManager.setTimer_heap]
      split
      next => exact (Option.some_ne_none cb).symm
      next hne =>
        intro heq
        exact hne (Option.some.inj (htimer.symm.trans ((h.timer b).mp heq))).symm
    exact ⟨hinv, fun b heq => absurd heq (hnone b),
      fun b => iff_of_false (hnone b) (Option.some_ne_none b).symm, fun _ => rfl⟩

theorem start_manager {a now : Nat} (h : w.manager.Inv) (ha : a ∉ w.manager.timers)
    (hs : w.run? cb (.start a now) = some w') : w'.manager.Inv ∧
      ∀ b, w'.manager.heap b = if b = a then .make w.notifier.intervalMs cb true now else w.manager.heap b := by
  cases hs
  exact ⟨.insertTimer h.sorted ha (fun b _ => h.cb b) rfl, fun b => TimerManager.setTimer_heap ..⟩

theorem Owns.start (h : Owns cb w) {a now : Nat} (ha : a ∉ w.manager.timers) (hnone : w.notifier.timer = none)
    (hs : w.run? cb (.start a now) = some w') : Owns cb w' := by
  obtain ⟨hinv, hheap⟩ := start_manager h.manager ha hs
  have hno : ∀ b, (w.manager.heap b).cb ≠ some cb := by
    intro b heq
    cases hnone.symm.trans ((h.timer b).mp heq)
  have htimer : w'.notifier.timer = some a ∧ w'.stopped = false := by
    cases hs
    exact ⟨rfl, rfl⟩
  refine ⟨hinv, fun b heq => ?_, fun b => ?_, fun hstopped => ?_⟩
  · rw [hheap] at heq ⊢
    split at heq
    next hb => rw [if_pos hb, TimerManager.Timer.make]
    next => exact absurd heq (hno b)
  · rw [hheap, htimer.1]
    split
    next hb => exact iff_of_true rfl (hb ▸ rfl)
    next hb => exact iff_of_false (hno b) fun heq => hb (Option.some.inj heq).symm
  · cases htimer.2.symm.trans hstopped

theorem Owns.step (h : Owns cb w) (hallows : w.allows cb op = true) (hstarts : w.startsStopped op = true)
    (hs : w.run? cb op = some w') : Owns cb w' := by
  cases op with
  | setMessage msg =>
    cases hs
    exact ⟨h.manager, h.recurring, h.timer, h.stopped⟩
  | start a now =>
    have ha : a ∉ w.manager.timers := by simpa [allows] using hallows
    exact h.start ha (beq_iff_eq.mp hstarts) hs
  | stop => exact h.stop hs
  | other op =>
    obtain ⟨m, hm, rfl⟩ := Option.map_eq_some_iff.mp hs
    obtain ⟨halloc, hleaves⟩ := Bool.and_eq_true_iff.mp hallows
    obtain ⟨m', hm', hinv⟩ := h.manager.run? halloc
    cases hm'.symm.trans hm
    have hkept := TimerManager.kept_run? h.manager h.recurring halloc hleaves hm
    refine ⟨hinv, fun a heq => ?_, fun a => (hkept a).calls.trans (h.timer a), h.stopped⟩
    have hcb := (hkept a).calls.mp heq
    rw [(hkept a).recurring hcb]
    exact h.recurring a hcb

/-- `start` on a notifier that remembers a timer leaves two live ones. -/
theorem Owns.not_oneTimer (h : Owns cb w) {a now : Nat} (ha : a ∉ w.manager.timers)
    (htimer : w.notifier.timer ≠ none) (hs : w.run? cb (.start a now) = some w') : ¬ OneTimer cb w' := by
  obtain ⟨b, hb⟩ := Option.ne_none_iff_exists'.mp htimer
  have hcb := (h.timer b).mpr hb
  have hne : b ≠ a := by
    rintro rfl
    exact ha ((h.manager.cb b).mp (by rw [hcb]; rfl))
  obtain ⟨hinv, hheap⟩ := start_manager h.manager ha hs
  have hla : a ∈ w'.live cb := by
    rw [mem_live hinv, hheap, if_pos rfl, TimerManager.Timer.make]
  have hlb : b ∈ w'.live cb := by
    rw [mem_live hinv, hheap, if_neg hne, hcb]
  intro hone
  obtain ⟨c, hc⟩ := List.length_eq_one_iff.mp (Nat.le_antisymm hone.1 (List.length_pos_of_mem hla))
  rw [hc, List.mem_singleton] at hla hlb
  exact hne (hlb.trans hla.symm)

end NotifierState

open NotifierState

/-- Any sequence of calls, among anything that the rest of the program does with the manager: at most one timer is
live and none behind `stop`, exactly if no call of `start` finds a timer that the notifier remembers. -/
theorem oneTimer_iff (cb previouseTime : Nat) (n : OTANotifier) (hn : n.timer = none)
    {r : List (NotifierOp × NotifierState)}
    (hr : Run (fun w op w' => w.run? cb op = some w') (.new n previouseTime) r)
    (hallows : Meets (fun w op => w.allows cb op = true) (.new n previouseTime) r) :
    Reached (OneTimer cb) r ↔ Meets (fun w op => w.startsStopped op = true) (.new n previouseTime) r := by
  have hinit : Owns cb (.new n previouseTime) := by
    have hno : ∀ a, (({ previouseTime } : TimerManager).heap a).cb ≠ some cb := fun _ =>
      (Option.some_ne_none cb).symm
    refine ⟨TimerManager.inv_new previouseTime, fun a heq => absurd heq (hno a), fun a => ?_, fun _ => hn⟩
    refine iff_of_false (hno a) fun heq => ?_
    cases hn.symm.trans heq
  refine Run.reached_iff (I := Owns cb) (fun w op w' h hs => ?_) (fun w op w' h hc hs => h.step hs.1 hc hs.2)
    (hr.guarded hallows) hinit
  constructor
  · intro hone
    cases op with
    | start a now =>
      have ha : a ∉ w.manager.timers := by simpa [allows] using hs.1
      by_contra htimer
      refine h.not_oneTimer ha (fun hnone => htimer ?_) hs.2 hone
      rw [startsStopped, hnone, beq_self_eq_true]
    | setMessage msg | stop | other op => rfl
  · intro hc
    exact (h.step hs.1 hc hs.2).oneTimer

/-- A notifier that is started, is given a message, publishes, and is stopped and started again. -/
theorem oneTimer_iff_restart : ∃ r : List (NotifierOp × NotifierState), Run (fun w op w' => w.run? 7 op = some w')
      (.new { topic := str "t", intervalMs := 20 } 1000) r ∧
      r.length = 5 ∧ Reached (OneTimer 7) r := by
  obtain ⟨r, hr, hallows, hstarts, hlen⟩ := exists_run_of_trace?
    (f := NotifierState.run? 7) (s := .new { topic := str "t", intervalMs := 20 } 1000)
    [.start 8 1000, .setMessage {}, .other (.listExpiredCb 1030 5), .stop, .start 8 1040]
    (P := fun r => Meets (fun w op => w.allows 7 op = true) (.new { topic := str "t", intervalMs := 20 } 1000) r ∧
      Meets (fun w op => w.startsStopped op = true) (.new { topic := str "t", intervalMs := 20 } 1000) r ∧
      r.length = 5) (by decide +kernel)
  exact ⟨r, hr, hlen, (oneTimer_iff 7 1000 _ rfl hr hallows).mpr hstarts⟩

/-- The second call of `start` makes a second timer, and `stop` cancels only that one. -/
theorem oneTimer_start_twice : ∃ r : List (NotifierOp × NotifierState), Run (fun w op w' => w.run? 7 op = some w')
      (.new { topic := str "t", intervalMs := 20 } 1000) r ∧
    Meets (fun w op => w.allows 7 op = true)
      (.new { topic := str "t", intervalMs := 20 } 1000) r ∧
    r.map (fun x => (x.2.stopped, x.2.live 7)) = [(false, [8]), (false, [8, 9]), (true, [8])] ∧
    ¬ Reached (OneTimer 7) r := by
  obtain ⟨r, hr, hallows, hlive⟩ := exists_run_of_trace?
    (f := NotifierState.run? 7) (s := .new { topic := str "t", intervalMs := 20 } 1000)
    [.start 8 1000, .start 9 1001, .stop]
    (P := fun r => Meets (fun w op => w.allows 7 op = true) (.new { topic := str "t", intervalMs := 20 } 1000) r ∧
      r.map (fun x => (x.2.stopped, x.2.live 7)) = [(false, [8]), (false, [8, 9]), (true, [8])]) (by decide +kernel)
  refine ⟨r, hr, hallows, hlive, fun hreached => ?_⟩
  -- the second state has two live timers
  have hmem : (false, [8, 9]) ∈ r.map (fun x => (x.2.stopped, x.2.live 7)) := by
    rw [hlive]
    decide
  obtain ⟨x, hx, heq⟩ := List.mem_map.mp hmem
  have hone := (reached_iff_forall.mp hreached x hx).1
  have hlen : (x.2.live 7).length = 2 := congrArg (·.2.length) heq
  omega

end Sherry
