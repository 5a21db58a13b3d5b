import OtaServer.Lib.MachineInt
import OtaServer.Timer.Manager

/-!
# `sleep`, `usleep` and `nanosleep` (`sherry/hook.cc`)

A hooked call arms a timer that schedules the calling fiber, and yields. Each of the three computes the period of the
timer in a type of its own.

* `SleepCall`: a call. `SleepCall.addTimerMs`: the `ms` that it passes to `addTimer`. `SleepCall.arm`: its timer.
* `sleeps_iff`: the period is long enough exactly if nothing is cut off on the way.
-/

namespace Sherry

open Lib

/-- A call of one of the hooks, with its argument. -/
inductive SleepCall where
  | sleep (seconds : UInt32)
  | usleep (usec : UInt32)
  | nanosleep (tvSec tvNsec : Nat)

namespace SleepCall

/-- What the call passes to `addTimer`. The product of `sleep` is one of `unsigned int`, and the `timeout_ms` of
`nanosleep` is an `int` that becomes a `uint64_t`. -/
def addTimerMs : SleepCall → Nat
  | sleep seconds => (seconds * 1000).toNat
  | usleep usec => (usec / 1000).toNat
  | nanosleep tvSec tvNsec => (toInt (tvSec * 1000 + tvNsec / 1000 / 1000 : Nat) % 2 ^ 64).toNat

/-- The timer of the call is made at `a`, to schedule `fiber`. -/
def arm (call : SleepCall) (s : TimerManager) (a fiber now : Nat) : TimerManager :=
  (s.insertTimer a (.make call.addTimerMs fiber false now)).1

/-- The duration that the call asks for, in nanoseconds. -/
def nanoseconds : SleepCall → Nat
  | sleep seconds => seconds.toNat * 10 ^ 9
  | usleep usec => usec.toNat * 10 ^ 3
  | nanosleep tvSec tvNsec => tvSec * 10 ^ 9 + tvNsec

/-- The duration in milliseconds, rounded up. -/
def requested (call : SleepCall) : Nat := (call.nanoseconds + (10 ^ 6 - 1)) / 10 ^ 6

/-- The arguments that the calls are specified for. -/
def Valid : SleepCall → Prop
  | sleep _ | usleep _ => True
  | nanosleep tvSec tvNsec => tvNsec < 10 ^ 9 ∧ tvSec * 10 ^ 9 + tvNsec < 2 ^ 63

/-- Nothing is cut off: the product of `sleep` fits, and the others ask for whole milliseconds, in `nanosleep` less
than 2^31 of them. A `timeout_ms` that is negative becomes a period that is longer than any. -/
def Fits : SleepCall → Prop
  | sleep seconds => seconds.toNat * 1000 < 2 ^ 32
  | usleep usec => usec.toNat % 1000 = 0
  | nanosleep tvSec tvNsec =>
    tvSec * 1000 + tvNsec / 10 ^ 6 < 2 ^ 31 ∧ tvNsec % 10 ^ 6 = 0 ∨
      2 ^ 31 ≤ (tvSec * 1000 + tvNsec / 10 ^ 6) % 2 ^ 32

/-! ## The three calls -/

theorem sleep_fits (seconds : UInt32) :
    (sleep seconds).requested ≤ (sleep seconds).addTimerMs ↔ (sleep seconds).Fits := by
  have hmul : (seconds * 1000).toNat = seconds.toNat * 1000 % 2 ^ 32 := UInt32.toNat_mul seconds 1000
  rw [requested, nanoseconds, addTimerMs, Fits, hmul]
  omega

theorem usleep_fits (usec : UInt32) : (usleep usec).requested ≤ (usleep usec).addTimerMs ↔ (usleep usec).Fits := by
  have hdiv : (usec / 1000).toNat = usec.toNat / 1000 := UInt32.toNat_div usec 1000
  rw [requested, nanoseconds, addTimerMs, Fits, hdiv]
  omega

/-- A negative `timeout_ms` becomes one of 2^64 - 2^31 and more. -/
theorem nanosleep_addTimerMs (tvSec tvNsec : Nat) :
    (nanosleep tvSec tvNsec).addTimerMs =
      let v := (tvSec * 1000 + tvNsec / 10 ^ 6) % 2 ^ 32
      if v < 2 ^ 31 then v else v + (2 ^ 64 - 2 ^ 32) := by
  rw [addTimerMs, toInt_eq, Nat.div_div_eq_div_mul]
  dsimp only
  split <;> split <;> omega

theorem nanosleep_fits {tvSec tvNsec : Nat} (h : (nanosleep tvSec tvNsec).Valid) :
    (nanosleep tvSec tvNsec).requested ≤ (nanosleep tvSec tvNsec).addTimerMs ↔ (nanosleep tvSec tvNsec).Fits := by
  obtain ⟨-, htotal⟩ := h
  rw [nanosleep_addTimerMs, requested, nanoseconds, Fits]
  dsimp only
  split <;> omega

/-! ## The period -/

/-- The timer that resumes the fiber has a period of at least the duration exactly if nothing is cut off. -/
theorem sleeps_iff (call : SleepCall) (h : call.Valid) (s : TimerManager) (a fiber now : Nat) :
    call.requested ≤ ((call.arm s a fiber now).heap a).ms ↔ call.Fits := by
  have hperiod : ((call.arm s a fiber now).heap a).ms = call.addTimerMs := by
    simp only [arm, TimerManager.insertTimer, TimerManager.put, TimerManager.setTimer, Function.update_self,
      TimerManager.Timer.make]
  rw [hperiod]
  cases call with
  | sleep seconds => exact sleep_fits seconds
  | usleep usec => exact usleep_fits usec
  | nanosleep tvSec tvNsec => exact nanosleep_fits h

/-- One second and a half. -/
theorem sleeps_half_second : 1500 ≤ (((nanosleep 1 500000000).arm { previouseTime := 0 } 0 0 0).heap 0).ms :=
  (sleeps_iff (nanosleep 1 500000000) ⟨by decide, by decide⟩ { previouseTime := 0 } 0 0 0).mpr
    (.inl ⟨by decide, by decide⟩)

/-- Of 1999 microseconds one millisecond is left, of 4294968 seconds 704 milliseconds, and of one nanosecond nothing.
-/
theorem sleeps_fails :
    let period := fun call : SleepCall => ((call.arm { previouseTime := 0 } 0 0 0).heap 0).ms
    ¬(usleep 1999).requested ≤ period (usleep 1999) ∧ ¬(sleep 4294968).requested ≤ period (sleep 4294968) ∧
      (nanosleep 0 1).Valid ∧ ¬(nanosleep 0 1).requested ≤ period (nanosleep 0 1) := by
  exact ⟨by decide, by decide, ⟨by decide, by decide⟩, by decide⟩

end SleepCall

end Sherry
