import OtaServer.Timer.Expiry

/-!
# Which timers are pending

A timer is pending from its creation until it is cancelled or, if it is not recurring, until it expires.

* `Expires`: what a call of `listExpiredCb` is to do with the timers that have expired. `listExpiredCb_expires`.
* `pendingIn`: whether a timer is pending, as its history says. `mem_run?`: this is what `m_timers` holds.
* `Tells`: `Timer::cancel`, `refresh` and `reset` return whether the timer is pending, and change nothing if it is
  not. `tells_iff`: they do, but for `reset` with the period that the timer has.
-/

namespace Sherry

open Lib

/-- The address of the timer that an operation makes. -/
def TimerOp.makes : TimerOp → Option Nat
  | .addTimer a _ _ _ _ => some a
  | _ => none

namespace TimerManager

variable {s s' : TimerManager} {a b now tmp : Nat} {op : TimerOp}

/-! ## History -/

/-- A pending timer expires when its deadline has come, or on a rollover. -/
def expires (s : TimerManager) (a now : Nat) : Bool :=
  detectClockRollover s.previouseTime now || decide ((s.heap a).next ≤ now)

/-- Whether the timer at `a` is pending behind an operation. -/
def pendingAfter (s : TimerManager) (a : Nat) (pending : Bool) : TimerOp → Bool
  | .addTimer b _ _ _ _ => b == a || pending
  | .cancel b => b != a && pending
  | .listExpiredCb now _ => pending && ((s.heap a).recurring || !s.expires a now)
  | .refresh _ _ | .reset _ _ _ _ | .getNextTimer _ => pending

/-- Whether the timer at `a` is pending behind a run. -/
def pendingIn (a : Nat) : TimerManager → Bool → List (TimerOp × TimerManager) → Bool
  | _, pending, [] => pending
  | s, pending, (op, s') :: r => pendingIn a s' (s.pendingAfter a pending op) r

theorem mem_expired_iff (h : Inv s) (htmp : tmp ∉ s.timers) :
    a ∈ s.expired now tmp ↔ a ∈ s.timers ∧ s.expires a now = true := by
  rw [expires, Bool.or_eq_true, decide_eq_true_eq]
  cases hroll : detectClockRollover s.previouseTime now with
  | false =>
    rw [expired_eq_due h.sorted htmp hroll, mem_due]
    simp
  | true =>
    rw [expired_of_rollover hroll]
    simp

theorem mem_cancel {x : TimerManager × Bool} (h : Inv s) (hx : s.cancel b = some x) :
    a ∈ x.1.timers ↔ a ≠ b ∧ a ∈ s.timers := by
  by_cases hb : (s.heap b).cb.isSome = true
  · rw [cancel_eq h hb] at hx
    cases hx
    exact (sorted_erase h.sorted b).2 a
  · rw [cancel, if_neg hb] at hx
    cases hx
    rw [h.cb b] at hb
    exact ⟨fun ha => ⟨fun heq => hb (heq ▸ ha), ha⟩, fun ha => ha.2⟩

theorem mem_put_erase (h : Inv s) (hb : b ∈ s.timers) (t : Timer) :
    a ∈ (put { s with timers := s.timers.erase b } b t).timers ↔ a ∈ s.timers := by
  obtain ⟨hsorted, hmem⟩ := sorted_erase h.sorted b
  rw [(put_spec (s := { s with timers := s.timers.erase b }) hsorted (h.erased b).1).2]
  dsimp only
  rw [hmem]
  by_cases hab : a = b
  · simp [hab, hb]
  · simp [hab]

theorem mem_refresh (now : Nat) (h : Inv s) : a ∈ (s.refresh b now).1.timers ↔ a ∈ s.timers := by
  by_cases hb : (s.heap b).cb.isSome = true
  · rw [refresh_eq now h hb]
    exact mem_put_erase h ((h.cb b).mp hb) _
  · rw [refresh, if_neg hb]

theorem mem_resetLocked (ms now : Nat) (fromNow : Bool) (h : Inv s) :
    a ∈ (s.resetLocked b ms fromNow now).1.timers ↔ a ∈ s.timers := by
  by_cases hb : (s.heap b).cb.isSome = true
  · obtain ⟨t, -, -, -, heq⟩ := resetLocked_eq ms now fromNow h hb
    rw [heq]
    exact mem_put_erase h ((h.cb b).mp hb) t
  · rw [resetLocked, if_neg hb]

/-- **One operation.** The set holds the timer behind it exactly if the history says so. -/
theorem mem_run? (h : Inv s) (halloc : s.allocates op = true) (hs : s.run? op = some s') :
    a ∈ s'.timers ↔ s.pendingAfter a (decide (a ∈ s.timers)) op = true := by
  cases op with
  | addTimer b ms cb recurring now =>
    cases hs
    have hb : b ∉ s.timers := by simpa [allocates] using halloc
    rw [pendingAfter, Bool.or_eq_true, beq_iff_eq, decide_eq_true_eq, eq_comm]
    exact (put_spec h.sorted hb).2 a
  | cancel b =>
    obtain ⟨x, hx, rfl⟩ := Option.map_eq_some_iff.mp hs
    rw [mem_cancel h hx, pendingAfter, Bool.and_eq_true, bne_iff_ne, decide_eq_true_eq, ne_comm]
  | refresh b now =>
    cases hs
    rw [mem_refresh now h, pendingAfter, decide_eq_true_eq]
  | reset b ms fromNow now =>
    cases hs
    rw [pendingAfter, decide_eq_true_eq, reset]
    split
    · rfl
    · exact mem_resetLocked ms now fromNow h
  | getNextTimer now =>
    cases hs
    rw [pendingAfter, decide_eq_true_eq]
    rfl
  | listExpiredCb now tmp =>
    cases hs
    have htmp : tmp ∉ s.timers := by simpa [allocates] using halloc
    obtain ⟨-, -, hmem, -⟩ := listExpiredCb_spec now h htmp
    rw [hmem, mem_expired_iff h htmp, pendingAfter, Bool.and_eq_true, Bool.or_eq_true, Bool.not_eq_true',
      decide_eq_true_eq]
    refine and_congr_right fun ha => ?_
    cases s.expires a now <;> simp [ha]

/-- **A run.** The timers in the set are the ones that are pending. -/
theorem mem_pendingIn {r : List (TimerOp × TimerManager)} {pending : Bool}
    (hr : Run (fun s op s' => s.run? op = some s') s r) (halloc : Meets (fun s op => s.allocates op = true) s r)
    (h : Inv s) (hp : pending = decide (a ∈ s.timers)) :
    Inv (lastState s r) ∧ (pendingIn a s pending r = true ↔ a ∈ (lastState s r).timers) := by
  induction r generalizing s pending with
  | nil =>
    refine ⟨h, ?_⟩
    rw [pendingIn, hp, decide_eq_true_eq]
    rfl
  | cons e r ih =>
    obtain ⟨op, s'⟩ := e
    obtain ⟨hs, hr⟩ := hr
    obtain ⟨hop, halloc⟩ := halloc
    obtain ⟨s'', hs'', hinv⟩ := h.run? hop
    obtain rfl : s' = s'' := Option.some.inj (hs.symm.trans hs'')
    refine ih hr halloc hinv ?_
    rw [hp, Bool.eq_iff_iff, ← mem_run? h hop hs, decide_eq_true_eq]

/-- A timer that is not in the set does not come back. -/
theorem notMem_lastState {r : List (TimerOp × TimerManager)} (hr : Run (fun s op s' => s.run? op = some s') s r)
    (halloc : Meets (fun s op => s.allocates op = true ∧ op.makes ≠ some a) s r) (h : Inv s)
    (ha : a ∉ s.timers) : a ∉ (lastState s r).timers := by
  have hgone : Reached (fun s => Inv s ∧ a ∉ s.timers) r := by
    refine hr.inv (fun s op s' hi hc hs => ?_) halloc ⟨h, ha⟩
    obtain ⟨s'', hs'', hinv⟩ := hi.1.run? hc.1
    obtain rfl : s' = s'' := Option.some.inj (hs.symm.trans hs'')
    refine ⟨hinv, ?_⟩
    rw [mem_run? hi.1 hc.1 hs, decide_eq_false hi.2]
    cases op with
    | addTimer b _ _ _ _ =>
      have hne : b ≠ a := fun heq => hc.2 (congrArg some heq)
      simpa [pendingAfter] using hne
    | cancel b => simp [pendingAfter]
    | listExpiredCb now tmp => simp [pendingAfter]
    | refresh | reset | getNextTimer => exact Bool.false_ne_true
  exact (hgone.last ⟨h, ha⟩).2

/-! ## What `listExpiredCb` is to do -/

/-- A call of `listExpiredCb` at `now`, when the timers of `l` have expired. -/
structure Expires (s : TimerManager) (now : Nat) (l : List Nat) (x : TimerManager × List (Option Nat)) : Prop where
  callbacks : x.2 = l.map fun a => (s.heap a).cb
  once : l.Nodup
  order : l.Pairwise fun a b => (s.heap a).next ≤ (s.heap b).next
  sorted : OrdSet.Sorted (less x.1.heap) x.1.timers
  timers : ∀ a, a ∈ x.1.timers ↔ a ∈ s.timers ∧ (a ∈ l → (s.heap a).recurring = true)
  kept : ∀ a, a ∉ l → x.1.heap a = s.heap a
  rearmed : ∀ a ∈ l, (s.heap a).recurring = true → x.1.heap a = { s.heap a with next := now + (s.heap a).ms }
  dropped : ∀ a ∈ l, (s.heap a).recurring = false → x.1.heap a = { s.heap a with cb := none }

theorem expires_expired (h : Inv s) (htmp : tmp ∉ s.timers) (hfit : ∀ a ∈ s.timers, now + (s.heap a).ms < 2 ^ 64) :
    Expires s now (s.expired now tmp) (s.listExpiredCb now tmp) := by
  obtain ⟨hcbs, hheap, hmem, -⟩ := listExpiredCb_spec now h htmp
  have hsub : (s.expired now tmp).Sublist s.timers := List.take_sublist _ _
  refine ⟨hcbs, h.sorted.nodup.sublist hsub, (pairwise_next h.sorted).sublist hsub, h.listExpiredCb.sorted, hmem,
    fun a ha => ?_, fun a ha hrec => ?_, fun a ha hrec => ?_⟩
  · rw [hheap, if_neg ha]
  · rw [hheap, if_pos ha, Timer.fired, if_pos hrec, Nat.mod_eq_of_lt (hfit a (hsub.subset ha))]
  · rw [hheap, if_pos ha, Timer.fired, if_neg (by simp [hrec])]

/-- A reading of the clock is a rollover if it is more than an hour before the previous one. -/
theorem detectClockRollover_eq (now : Nat) {previouseTime : Nat} (hhour : 3600000 ≤ previouseTime)
    (hprev : previouseTime < 2 ^ 64) :
    detectClockRollover previouseTime now = decide (now + 3600000 < previouseTime) := by
  rw [detectClockRollover, ← Bool.decide_and]
  exact decide_eq_decide.mpr (by omega)

end TimerManager

open TimerManager

/-- **Expiry.** The timers that are due expire, or on a rollover all timers; those of them that are not recurring
do not expire again, whatever is done. -/
theorem listExpiredCb_expires {s : TimerManager} {now tmp : Nat} (h : s.Inv) (htmp : tmp ∉ s.timers)
    (hhour : 3600000 ≤ s.previouseTime ∧ 3600000 ≤ now) (hprev : s.previouseTime < 2 ^ 64)
    (hfit : ∀ a ∈ s.timers, now + (s.heap a).ms < 2 ^ 64) :
    (s.previouseTime ≤ now + 3600000 → Expires s now (s.due now) (s.listExpiredCb now tmp)) ∧
      (now + 3600000 < s.previouseTime → Expires s now s.timers (s.listExpiredCb now tmp)) ∧
      ∀ a ∈ s.expired now tmp, (s.heap a).recurring = false → ∀ r : List (TimerOp × TimerManager),
        Run (fun s op s' => s.run? op = some s') (s.listExpiredCb now tmp).1 r →
        Meets (fun s op => s.allocates op = true ∧ op.makes ≠ some a) (s.listExpiredCb now tmp).1 r →
        ∀ now' tmp', a ∉ (lastState (s.listExpiredCb now tmp).1 r).expired now' tmp' := by
  have hexpires := expires_expired h htmp hfit
  have hroll := detectClockRollover_eq now hhour.1 hprev
  refine ⟨fun hnow => ?_, fun hnow => ?_, fun a ha hrec r hr halloc now' tmp' hmem => ?_⟩
  · rw [decide_eq_false (by omega)] at hroll
    rwa [expired_eq_due h.sorted htmp hroll] at hexpires
  · rw [decide_eq_true hnow] at hroll
    rwa [expired_of_rollover hroll] at hexpires
  · have hout : a ∉ (s.listExpiredCb now tmp).1.timers := by
      rw [hexpires.timers]
      exact fun hin => Bool.false_ne_true (hrec.symm.trans (hin.2 ha))
    exact notMem_lastState hr halloc h.listExpiredCb hout (List.mem_of_mem_take hmem)

/-- Three timers, of which one is not yet due. -/
theorem listExpiredCb_expires_two : ∃ s : TimerManager, s.Inv ∧ s.timers = [8, 3, 5] ∧ s.due 3600015 = [8, 3] ∧
      Expires s 3600015 (s.due 3600015) (s.listExpiredCb 3600015 4) := by
  obtain ⟨r, hr, halloc, htimers, hdue, hprev, hfit⟩ := exists_run_of_trace?
    (f := TimerManager.run?) (s := { previouseTime := 3600000 })
    [.addTimer 5 500 3 false 3600000, .addTimer 8 10 1 false 3600000, .addTimer 3 15 2 true 3600000]
    (P := fun r => Meets (fun s op => s.allocates op = true) { previouseTime := 3600000 } r ∧
      (lastState { previouseTime := 3600000 } r).timers = [8, 3, 5] ∧
      (lastState { previouseTime := 3600000 } r).due 3600015 = [8, 3] ∧
      (lastState { previouseTime := 3600000 } r).previouseTime = 3600000 ∧
      ∀ a ∈ [8, 3, 5], 3600015 + ((lastState { previouseTime := 3600000 } r).heap a).ms < 2 ^ 64) (by decide +kernel)
  rw [← htimers] at hfit
  obtain ⟨hinv, -⟩ := mem_pendingIn (a := 0) hr halloc (inv_new 3600000) rfl
  have htmp : 4 ∉ (lastState { previouseTime := 3600000 } r).timers := by
    rw [htimers]
    decide
  refine ⟨_, hinv, htimers, hdue, (listExpiredCb_expires hinv htmp ?_ ?_ hfit).1 ?_⟩
  all_goals
    rw [hprev]
    decide

/-! ## What the calls on a timer return -/

namespace TimerManager

/-- The calls on the timer at `a` return whether it is pending. If it is not, they change nothing. -/
structure Tells (s : TimerManager) (a ms now : Nat) (fromNow pending : Bool) : Prop where
  cancel : ∃ x, s.cancel a = some x ∧ x.2 = pending ∧ (x.2 = false → x.1 = s)
  refresh : (s.refresh a now).2 = pending ∧ ((s.refresh a now).2 = false → (s.refresh a now).1 = s)
  reset : (s.reset a ms fromNow now).2.1 = pending ∧
    ((s.reset a ms fromNow now).2.1 = false → (s.reset a ms fromNow now).1 = s)

theorem tells_of_isSome {s : TimerManager} {a : Nat} (ms now : Nat) (fromNow : Bool) (h : Inv s)
    (ha : (s.heap a).cb.isSome = true) : Tells s a ms now fromNow true where
  cancel := ⟨_, cancel_eq h ha, rfl, fun hno => Bool.noConfusion hno⟩
  refresh := by
    rw [refresh_eq now h ha]
    exact ⟨rfl, fun hno => Bool.noConfusion hno⟩
  reset := by
    rw [TimerManager.reset]
    split
    · exact ⟨rfl, fun hno => Bool.noConfusion hno⟩
    · obtain ⟨t, -, -, -, heq⟩ := resetLocked_eq ms now fromNow h ha
      rw [heq]
      exact ⟨rfl, fun hno => Bool.noConfusion hno⟩

/-- The timer has no callback: only `Timer::reset` to the period that it has does not see this. -/
theorem tells_of_not_isSome {s : TimerManager} {a ms now : Nat} {fromNow : Bool} (ha : ¬(s.heap a).cb.isSome = true) :
    Tells s a ms now fromNow false ↔ ¬(ms = (s.heap a).ms ∧ fromNow = false) := by
  constructor
  · intro htells hsame
    have hreset := htells.reset.1
    rw [TimerManager.reset, if_pos hsame] at hreset
    cases hreset
  · intro hother
    refine ⟨⟨_, if_neg ha, rfl, fun _ => rfl⟩, ?_, ?_⟩
    · rw [TimerManager.refresh, if_neg ha]
      exact ⟨rfl, fun _ => rfl⟩
    · rw [TimerManager.reset, if_neg hother, resetLocked, if_neg ha]
      exact ⟨rfl, fun _ => rfl⟩

end TimerManager

/-- **Return values.** For every history of a timer, the calls return whether it is pending, and change nothing if it
is not, exactly if it is pending or `reset` is not asked for the period that the timer has, from where it stands. -/
theorem tells_iff (previouseTime : Nat) {r : List (TimerOp × TimerManager)}
    (hr : Run (fun s op s' => s.run? op = some s') { previouseTime } r)
    (halloc : Meets (fun s op => s.allocates op = true) { previouseTime } r) (a ms now : Nat) (fromNow : Bool) :
    Tells (lastState { previouseTime } r) a ms now fromNow (pendingIn a { previouseTime } false r) ↔
      pendingIn a { previouseTime } false r = true ∨
        ¬(ms = ((lastState { previouseTime } r).heap a).ms ∧ fromNow = false) := by
  have hnew : false = decide (a ∈ ({ previouseTime } : TimerManager).timers) := rfl
  obtain ⟨hinv, hpending⟩ := mem_pendingIn hr halloc (inv_new previouseTime) hnew
  rw [← hinv.cb a] at hpending
  by_cases ha : ((lastState { previouseTime } r).heap a).cb.isSome = true
  · rw [hpending.mpr ha]
    exact iff_of_true (tells_of_isSome ms now fromNow hinv ha) (.inl rfl)
  · rw [Bool.not_eq_true _ |>.mp (mt hpending.mp ha), tells_of_not_isSome ha]
    exact ⟨.inr, fun h => h.resolve_left Bool.false_ne_true⟩

/-- A timer that has fired is reset to another period: `reset` returns false. -/
theorem tells_other_period : ∃ r : List (TimerOp × TimerManager),
    Run (fun s op s' => s.run? op = some s') { previouseTime := 1000 } r ∧
      pendingIn 8 { previouseTime := 1000 } false r = false ∧
      Tells (lastState { previouseTime := 1000 } r) 8 30 1050 false false := by
  obtain ⟨r, hr, halloc, hpending, hms⟩ := exists_run_of_trace?
    (f := TimerManager.run?) (s := { previouseTime := 1000 }) [.addTimer 8 20 1 false 1000, .listExpiredCb 1030 5]
    (P := fun r => Meets (fun s op => s.allocates op = true) { previouseTime := 1000 } r ∧
      pendingIn 8 { previouseTime := 1000 } false r = false ∧
      ((lastState { previouseTime := 1000 } r).heap 8).ms = 20) (by decide +kernel)
  have htells := (tells_iff 1000 hr halloc 8 30 1050 false).mpr (.inr (by rw [hms]; decide))
  rw [hpending] at htells
  exact ⟨r, hr, hpending, htells⟩

/-- A timer that was cancelled is reset to the period that it has: `reset` returns true. -/
theorem tells_fails : ∃ r : List (TimerOp × TimerManager),
    Run (fun s op s' => s.run? op = some s') { previouseTime := 1000 } r ∧
      Meets (fun s op => s.allocates op = true) { previouseTime := 1000 } r ∧
      pendingIn 8 { previouseTime := 1000 } false r = false ∧
      ((lastState { previouseTime := 1000 } r).reset 8 20 false 1010).2.1 = true ∧
      ¬Tells (lastState { previouseTime := 1000 } r) 8 20 1010 false false := by
  obtain ⟨r, hr, halloc, hpending, hreset⟩ := exists_run_of_trace?
    (f := TimerManager.run?) (s := { previouseTime := 1000 }) [.addTimer 8 20 1 false 1000, .cancel 8]
    (P := fun r => Meets (fun s op => s.allocates op = true) { previouseTime := 1000 } r ∧
      pendingIn 8 { previouseTime := 1000 } false r = false ∧
      ((lastState { previouseTime := 1000 } r).reset 8 20 false 1010).2.1 = true) (by decide +kernel)
  refine ⟨r, hr, halloc, hpending, hreset, fun htells => ?_⟩
  exact Bool.false_ne_true (htells.reset.1.symm.trans hreset)

end Sherry
