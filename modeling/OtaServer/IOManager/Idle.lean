import OtaServer.Lib.MachineInt
import OtaServer.Timer.Manager

/-!
# How long `IOManager::idle` waits (`sherry/iomanager.cc`)

`idle` asks `stopping` for the time up to the next timer, and passes at most three seconds of it to `epoll_wait`. It
compares that time as an `int`, and a wait that a signal interrupts starts from what the comparison has left.

* `stopping`, `clampTimeout`, `nextTimeout`, `idleTimeout`: the loop up to `epoll_wait`.
* `waits_iff`: the argument is within the bounds exactly if the time to the first timer does not become negative.
-/

namespace Sherry

open Lib

namespace IOManager

/-- `stopping(timeout)`: what it returns, and `timeout`. `scheduler` is what `Scheduler::stopping` returns. -/
def stopping (s : TimerManager) (now pendingEventCount : Nat) (scheduler : Bool) : Bool × Nat :=
  let timeout := (s.getNextTimer now).2
  (timeout == 2 ^ 64 - 1 && pendingEventCount == 0 && scheduler, timeout)

/-- `MAX_TIMEOUT`. -/
def maxTimeout : Nat := 3000

/-- `next_timeout` before a call of `epoll_wait`. -/
def clampTimeout (nextTimeout : Nat) : Nat :=
  if nextTimeout ≠ 2 ^ 64 - 1 then
    if toInt nextTimeout > maxTimeout then maxTimeout else nextTimeout
  else maxTimeout

/-- `next_timeout` at a call of `epoll_wait`, by the number of calls that a signal has interrupted. -/
def nextTimeout (timeout : Nat) : Nat → Nat
  | 0 => clampTimeout timeout
  | retries + 1 => clampTimeout (nextTimeout timeout retries)

/-- What `idle` passes to `epoll_wait`, unless it ends. -/
def idleTimeout (s : TimerManager) (now pendingEventCount : Nat) (scheduler : Bool) (retries : Nat) : Option Int :=
  let x := stopping s now pendingEventCount scheduler
  if x.1 then none else some (toInt (nextTimeout x.2 retries))

/-! ## One comparison -/

theorem toInt_clampTimeout {n : Nat} (h : n ≠ 2 ^ 64 - 1) : toInt (clampTimeout n) = min (toInt n) maxTimeout := by
  have hmax : toInt maxTimeout = maxTimeout := toInt_of_lt (by decide)
  rw [clampTimeout, if_pos h]
  split <;> omega

/-- A retry changes nothing. -/
theorem clampTimeout_idem (n : Nat) : clampTimeout (clampTimeout n) = clampTimeout n := by
  have hmax : clampTimeout maxTimeout = maxTimeout := by decide
  unfold clampTimeout
  split
  · split
    · exact hmax
    · rfl
  · exact hmax

theorem nextTimeout_eq (n retries : Nat) : nextTimeout n retries = clampTimeout n := by
  induction retries with
  | zero => rfl
  | succ k ih => rw [nextTimeout, ih, clampTimeout_idem]

/-- The bounds hold unless the time is negative as an `int`. -/
theorem clampTimeout_bounds (n : Nat) :
    0 ≤ toInt (clampTimeout n) ∧ toInt (clampTimeout n) ≤ maxTimeout ∧ toInt (clampTimeout n) ≤ n ↔
      n = 2 ^ 64 - 1 ∨ n % 2 ^ 32 < 2 ^ 31 := by
  by_cases h : n = 2 ^ 64 - 1
  · subst h
    decide
  · have hle := (toInt_bounds (Int.natCast_nonneg n)).2
    have hint := toInt_eq n
    rw [toInt_clampTimeout h]
    unfold maxTimeout
    split at hint <;> omega

/-! ## The loop -/

/-- Each argument of `epoll_wait` is between 0 and three seconds, and not behind the first timer. -/
def Waits (s : TimerManager) (now pendingEventCount : Nat) (scheduler : Bool) : Prop :=
  ∀ retries t, idleTimeout s now pendingEventCount scheduler retries = some t →
    0 ≤ t ∧ t ≤ 3000 ∧ (s.timers ≠ [] → t ≤ (s.getNextTimer now).2)

/-- The time to the first timer is not negative as an `int`. -/
def ShortDelay (s : TimerManager) (now : Nat) : Prop :=
  ∀ a ∈ s.timers.head?, (s.heap a).next - now = 2 ^ 64 - 1 ∨ ((s.heap a).next - now) % 2 ^ 32 < 2 ^ 31

theorem idleTimeout_eq_some {s : TimerManager} {now pendingEventCount : Nat} {scheduler : Bool} {retries : Nat}
    {t : Int} : idleTimeout s now pendingEventCount scheduler retries = some t ↔
      (stopping s now pendingEventCount scheduler).1 = false ∧ toInt (clampTimeout (s.getNextTimer now).2) = t := by
  rw [idleTimeout, Option.ite_none_left_eq_some, Option.some_inj, nextTimeout_eq, Bool.not_eq_true]
  rfl

theorem getNextTimer_of_head {s : TimerManager} {a : Nat} {l : List Nat} (h : s.timers = a :: l) (now : Nat) :
    (s.getNextTimer now).2 = (s.heap a).next - now := by
  rw [TimerManager.getNextTimer, h]
  dsimp only
  split <;> omega

/-- The wait is within its bounds exactly if the time to the first timer does not become negative. -/
theorem waits_iff (s : TimerManager) (now pendingEventCount : Nat) (scheduler : Bool) :
    Waits s now pendingEventCount scheduler ↔ ShortDelay s now := by
  unfold Waits ShortDelay
  simp only [idleTimeout_eq_some]
  cases hs : s.timers with
  | nil =>
    -- without a timer the time is the largest one, which the loop knows
    have hnext : (s.getNextTimer now).2 = 2 ^ 64 - 1 := by rw [TimerManager.getNextTimer, hs]
    refine iff_of_true ?_ (fun a ha => absurd ha (Option.not_mem_none a))
    rintro - t ⟨-, rfl⟩
    rw [hnext]
    exact ⟨by decide, by decide, fun h => absurd rfl h⟩
  | cons a l =>
    have hbounds := clampTimeout_bounds (s.getNextTimer now).2
    simp only [List.head?_cons, Option.mem_some_iff, forall_eq', ← getNextTimer_of_head hs now]
    rw [← hbounds]
    constructor
    · intro h
      cases hstop : (stopping s now pendingEventCount scheduler).1 with
      | false =>
        obtain ⟨h₀, h₁, h₂⟩ := h 0 _ ⟨hstop, rfl⟩
        exact ⟨h₀, h₁, h₂ (List.cons_ne_nil a l)⟩
      | true =>
        -- a loop that ends has found no timer, or one that is as far away as none
        rw [hbounds]
        simp only [stopping, Bool.and_eq_true, beq_iff_eq] at hstop
        exact .inl hstop.1.1
    · rintro ⟨h₀, h₁, h₂⟩ - t ⟨-, rfl⟩
      exact ⟨h₀, h₁, fun _ => h₂⟩

/-- A timer of 2^31 milliseconds, the only one: `epoll_wait` is to wait without end. -/
theorem waits_fails :
    let s := (TimerManager.insertTimer { previouseTime := 0 } 0 (.make (2 ^ 31) 0 false 0)).1
    (s.getNextTimer 0).2 = 2 ^ 31 ∧ idleTimeout s 0 0 false 0 = some (-2 ^ 31) ∧ ¬Waits s 0 0 false := by
  have hcall : idleTimeout (TimerManager.insertTimer { previouseTime := 0 } 0 (.make (2 ^ 31) 0 false 0)).1
      0 0 false 0 = some (-2 ^ 31) := by decide
  refine ⟨by decide, hcall, fun h => ?_⟩
  exact absurd (h 0 _ hcall).1 (by decide)

end IOManager

end Sherry
