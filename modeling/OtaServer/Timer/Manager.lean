import OtaServer.Lib.OrdSet
import Mathlib.Algebra.Group.Nat.Defs
import Mathlib.Logic.Function.Basic

/-!
# Timers (`sherry/timer.h`, `sherry/timer.cc`)

`m_timers` is a `std::set` of pointers that is ordered by what they point to, so a timer has to be out of the set
while its deadline changes. Each function here is what the source does under one lock of the manager's mutex, with the
reading of the clock that it uses.

* `TimerManager`: the timers by their addresses, and `m_timers`. `less`: `Timer::Comparator`.
* `insertTimer`, `cancel`, `refresh`, `reset`, `getNextTimer`, `listExpiredCb`.
-/

namespace Sherry

open Lib

/-- `Timer`. A callback is a number; `none` is an empty function. -/
structure TimerManager.Timer where
  recurring : Bool := false
  ms : Nat := 0
  next : Nat := 0
  cb : Option Nat := none

/-- `TimerManager`. -/
structure TimerManager where
  /-- What is at an address, if a timer was ever made there. -/
  heap : Nat → TimerManager.Timer := fun _ => {}
  /-- `m_timers`, in its order. -/
  timers : List Nat := []
  tickled : Bool := false
  previouseTime : Nat

namespace TimerManager

/-- `Timer::Comparator`, for two pointers that are not null. -/
def less (heap : Nat → Timer) (a b : Nat) : Prop :=
  (heap a).next < (heap b).next ∨ ¬(heap b).next < (heap a).next ∧ a < b

instance (heap : Nat → Timer) : DecidableRel (less heap) := fun a b =>
  inferInstanceAs (Decidable ((heap a).next < (heap b).next ∨ ¬(heap b).next < (heap a).next ∧ a < b))

/-- The constructor of `Timer`. -/
def Timer.make (ms cb : Nat) (recurring : Bool) (now : Nat) : Timer :=
  { recurring, ms, cb := some cb, next := (now + ms) % 2 ^ 64 }

/-- A timer is changed. -/
def setTimer (s : TimerManager) (a : Nat) (t : Timer) : TimerManager :=
  { s with heap := Function.update s.heap a t }

/-- A timer is changed, and `m_timers.insert`. -/
def put (s : TimerManager) (a : Nat) (t : Timer) : TimerManager :=
  let s := s.setTimer a t
  { s with timers := (OrdSet.insert (less s.heap) a s.timers).1 }

/-- `addTimer(val, lock)` until it unlocks, for a timer `t` at the address `a`; and whether it then calls
`onTimerInsertedAtFront`. -/
def insertTimer (s : TimerManager) (a : Nat) (t : Timer) : TimerManager × Bool :=
  let atFront := (OrdSet.insert (less (s.setTimer a t).heap) a s.timers).2 == 0 && !s.tickled
  ({ s.put a t with tickled := atFront || s.tickled }, atFront)

/-- `find`, and `erase` if that was not the end. -/
def takeOut (s : TimerManager) (a : Nat) : Option TimerManager :=
  (OrdSet.erase s.timers (OrdSet.find (less s.heap) a s.timers)).map fun timers => { s with timers }

/-- `Timer::cancel`. It does not look whether `find` has found the timer: `none` is `erase` of the end. -/
def cancel (s : TimerManager) (a : Nat) : Option (TimerManager × Bool) :=
  if (s.heap a).cb.isSome then ((s.setTimer a { s.heap a with cb := none }).takeOut a).map (·, true)
  else some (s, false)

/-- `Timer::refresh`. -/
def refresh (s : TimerManager) (a now : Nat) : TimerManager × Bool :=
  if (s.heap a).cb.isSome then
    match s.takeOut a with
    | none => (s, false)
    | some s => (s.put a { s.heap a with next := (now + (s.heap a).ms) % 2 ^ 64 }, true)
  else (s, false)

/-- `Timer::reset` from its lock on: what it returns, and whether it calls `onTimerInsertedAtFront`. -/
def resetLocked (s : TimerManager) (a ms : Nat) (fromNow : Bool) (now : Nat) : TimerManager × Bool × Bool :=
  if (s.heap a).cb.isSome then
    match s.takeOut a with
    | none => (s, false, false)
    | some s =>
      let t := s.heap a
      let start := if fromNow then now else (t.next + 2 ^ 64 - t.ms) % 2 ^ 64
      let x := s.insertTimer a { t with ms, next := (start + ms) % 2 ^ 64 }
      (x.1, true, x.2)
  else (s, false, false)

/-- `Timer::reset`. -/
def reset (s : TimerManager) (a ms : Nat) (fromNow : Bool) (now : Nat) : TimerManager × Bool × Bool :=
  if ms = (s.heap a).ms ∧ fromNow = false then (s, true, false) else s.resetLocked a ms fromNow now

/-- `getNextTimer`. -/
def getNextTimer (s : TimerManager) (now : Nat) : TimerManager × Nat :=
  ({ s with tickled := false },
    match s.timers with
    | [] => 2 ^ 64 - 1
    | a :: _ => if (s.heap a).next ≤ now then 0 else (s.heap a).next - now)

/-- `detectClockRollover`, but for the new `m_previouseTime`. -/
def detectClockRollover (previouseTime now : Nat) : Bool :=
  decide (now < previouseTime) && decide (now < (previouseTime + 2 ^ 64 - 60 * 60 * 1000) % 2 ^ 64)

/-- The end of the timers that have expired. `tmp` is the address of `now_timer`. -/
def expiredEnd (s : TimerManager) (now tmp : Nat) (rollover : Bool) : Nat :=
  let it :=
    if rollover then s.timers.length
    else OrdSet.lowerBound (less (Function.update s.heap tmp { next := now })) tmp s.timers
  it + ((s.timers.drop it).takeWhile fun a => (s.heap a).next == now).length

/-- What `listExpiredCb` does with one of the timers that have expired. -/
def expire (now : Nat) (x : TimerManager × List (Option Nat)) (a : Nat) : TimerManager × List (Option Nat) :=
  let t := x.1.heap a
  (if t.recurring then x.1.put a { t with next := (now + t.ms) % 2 ^ 64 }
    else x.1.setTimer a { t with cb := none },
    x.2 ++ [t.cb])

/-- `listExpiredCb` from its lock on, and the callbacks. -/
def listExpiredCb (s : TimerManager) (now tmp : Nat) : TimerManager × List (Option Nat) :=
  match s.timers with
  | [] => (s, [])
  | first :: _ =>
    let rollover := detectClockRollover s.previouseTime now
    if !rollover && decide (now < (s.heap first).next) then ({ s with previouseTime := now }, [])
    else
      let it := s.expiredEnd now tmp rollover
      (s.timers.take it).foldl (expire now) ({ s with previouseTime := now, timers := s.timers.drop it }, [])

end TimerManager

/-- An operation, with its readings of the clock and the addresses of what it allocates. -/
inductive TimerOp where
  | addTimer (a ms cb : Nat) (recurring : Bool) (now : Nat)
  | cancel (a : Nat)
  | refresh (a now : Nat)
  | reset (a ms : Nat) (fromNow : Bool) (now : Nat)
  | getNextTimer (now : Nat)
  | listExpiredCb (now tmp : Nat)

namespace TimerManager

/-- An operation. -/
def run? (s : TimerManager) : TimerOp → Option TimerManager
  | .addTimer a ms cb recurring now => some (s.insertTimer a (.make ms cb recurring now)).1
  | .cancel a => (s.cancel a).map Prod.fst
  | .refresh a now => some (s.refresh a now).1
  | .reset a ms fromNow now => some (s.reset a ms fromNow now).1
  | .getNextTimer now => some (s.getNextTimer now).1
  | .listExpiredCb now tmp => some (s.listExpiredCb now tmp).1

/-- A new object is not where there is a timer that the set points to. -/
def allocates (s : TimerManager) : TimerOp → Bool
  | .addTimer a _ _ _ _ => !s.timers.contains a
  | .listExpiredCb _ tmp => !s.timers.contains tmp
  | _ => true

end TimerManager

end Sherry
