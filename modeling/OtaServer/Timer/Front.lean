import OtaServer.Lib.Threads
import OtaServer.Timer.Deadlines

/-!
# Is the waiting thread told of an earlier deadline?

Threads add, reset, refresh and cancel timers and list the expired ones, each call in the steps that the locks and the
readings of the clock cut it into. One of them waits until the deadline that `getNextTimer` has given it.

* `FrontSystem`: the threads, the clock, and what the waiting thread waits for.
* `FrontStep`: what a step does to the deadlines. `FrontInv`: while a timer is due before the waiting thread wakes, or
  `m_tickled` is set, `onTimerInsertedAtFront` has been called, or a thread is about to call it.
* `front_notified`: over all runs in which no stale reading of the clock is taken for a rollover.
-/

namespace Sherry

open Lib

/-- A `TimerManager` and the clock, and the waiting thread. -/
structure ClockedTimers where
  mgr : TimerManager
  clock : Nat
  /-- The waiting thread's last `getNextTimer` did not return 0: the deadline up to which it waits, if there was a
  timer. -/
  waiting : Option (Option Nat) := none
  /-- `onTimerInsertedAtFront` has been called since. -/
  notified : Bool := false

/-- Where a thread is. -/
inductive TimerPc where
  | out
  /-- `addTimer` has made its timer, and is to lock. -/
  | insert (t : TimerManager.Timer)
  /-- `Timer::reset` has something to do, and is to lock. -/
  | reset (a ms : Nat) (fromNow : Bool)
  /-- It has unlocked, and is to call `onTimerInsertedAtFront`. -/
  | notify
  /-- `listExpiredCb` has read the clock, and is to lock for reading. -/
  | expire (now : Nat)
  /-- It has seen that there are timers, and is to lock for writing. -/
  | expireLocked (now : Nat)

namespace TimerPc

/-- A call of `addTimer` or `Timer::reset` is in progress. -/
def inAddOrReset : TimerPc → Bool
  | .insert _ | .reset _ _ _ | .notify => true
  | _ => false

end TimerPc

/-- What a thread does next: it calls an operation, or goes on. -/
inductive TimerChoice where
  | addTimer (ms cb : Nat) (recurring : Bool)
  | cancel (a : Nat)
  | refresh (a : Nat)
  | reset (a ms : Nat) (fromNow : Bool)
  | getNextTimer
  | listExpiredCb
  /-- `a` is the address of what the call has made. -/
  | go (a : Nat)

namespace ClockedTimers

/-- A step of thread `i`; the waiting thread is `w`. -/
def step {n : Nat} (w i : Fin n) (s : ClockedTimers) : TimerPc → TimerChoice → Option (ClockedTimers × TimerPc)
  | .out, .addTimer ms cb recurring => some (s, .insert (.make ms cb recurring s.clock))
  | .out, .cancel a => (s.mgr.cancel a).map fun x => ({ s with mgr := x.1 }, .out)
  | .out, .refresh a => some ({ s with mgr := (s.mgr.refresh a s.clock).1 }, .out)
  | .out, .reset a ms fromNow =>
    some (s, if ms = (s.mgr.heap a).ms ∧ fromNow = false then .out else .reset a ms fromNow)
  | .out, .getNextTimer =>
    let x := s.mgr.getNextTimer s.clock
    if i = w then
      let deadline := if s.mgr.timers.isEmpty then none else some (s.clock + x.2)
      some ({ s with mgr := x.1, waiting := if x.2 = 0 then none else some deadline, notified := false }, .out)
    else some ({ s with mgr := x.1 }, .out)
  | .out, .listExpiredCb => some (s, .expire s.clock)
  | .insert t, .go a =>
    if s.mgr.timers.contains a then none
    else
      let x := s.mgr.insertTimer a t
      some ({ s with mgr := x.1 }, if x.2 then .notify else .out)
  | .reset a ms fromNow, .go _ =>
    let x := s.mgr.resetLocked a ms fromNow s.clock
    some ({ s with mgr := x.1 }, if x.2.2 then .notify else .out)
  | .notify, .go _ => some ({ s with notified := true }, .out)
  | .expire now, .go _ => some (s, if s.mgr.timers.isEmpty then .out else .expireLocked now)
  | .expireLocked now, .go tmp =>
    if s.mgr.timers.contains tmp then none
    else some ({ s with mgr := (s.mgr.listExpiredCb now tmp).1 }, .out)
  | _, _ => none

/-- The deadlines that a step computes are below 2^64. -/
def fits (s : ClockedTimers) : TimerPc → TimerChoice → Bool
  | .out, .addTimer ms _ _ => decide (s.clock + ms < 2 ^ 64)
  | .out, .refresh a => decide (s.clock + (s.mgr.heap a).ms < 2 ^ 64)
  | .reset a ms fromNow, _ =>
    let t := s.mgr.heap a
    decide ((if fromNow then s.clock else (t.next + 2 ^ 64 - t.ms) % 2 ^ 64) + ms < 2 ^ 64)
  | .expireLocked now, .go tmp =>
    (s.mgr.expired now tmp).all fun a =>
      !(s.mgr.heap a).recurring || decide (now + (s.mgr.heap a).ms < 2 ^ 64)
  | _, _ => true

/-- No reading of the clock is taken for a rollover such that a timer gets an earlier deadline. -/
def mindsClock (s : ClockedTimers) : TimerPc → Bool
  | .expireLocked now => !s.mgr.rearmsEarlier now
  | _ => true

/-- The clock goes on. -/
def tick (s : ClockedTimers) (ms : Nat) : Option ClockedTimers := some { s with clock := s.clock + ms }

/-- A deadline is before the one that is waited for. -/
def earlier (next : Nat) : Option Nat → Prop
  | none => True
  | some d => next < d

instance (next : Nat) : (d : Option Nat) → Decidable (earlier next d)
  | none => isTrue trivial
  | some d => inferInstanceAs (Decidable (next < d))

end ClockedTimers

/-- A `TimerManager` and the threads that use it. -/
abbrev FrontSystem (n : Nat) := Threads (Fin n) ClockedTimers TimerPc

namespace FrontSystem

/-- A step of a thread, or of time. -/
abbrev FLabel (n : Nat) := Threads.Label (Fin n) TimerChoice Nat

/-- A new manager. -/
def new (n now : Nat) : FrontSystem n := ⟨{ mgr := { previouseTime := now }, clock := now }, fun _ => .out⟩

/-- One step. -/
def step? {n : Nat} (w : Fin n) (s : FrontSystem n) (l : FLabel n) : Option (FrontSystem n) :=
  Threads.step? (ClockedTimers.step w) ClockedTimers.tick s l

/-- The deadlines that the step computes are below 2^64. -/
def fits {n : Nat} (s : FrontSystem n) : FLabel n → Bool
  | .thread i c => s.shared.fits (s.thread i) c
  | .outer _ => true

/-- The step takes no reading of the clock for a rollover such that a timer gets an earlier deadline. -/
def mindsClock {n : Nat} (s : FrontSystem n) : FLabel n → Bool
  | .thread i _ => s.shared.mindsClock (s.thread i)
  | .outer _ => true

end FrontSystem

open TimerManager (Keeps Inserts Spans)

/-- What a thread has read and made is good. -/
def TimerPc.Ok (clock : Nat) : TimerPc → Prop
  | .insert t => t.cb.isSome = true ∧ t.ms ≤ t.next ∧ t.next ≤ clock + t.ms
  | .expire now | .expireLocked now => now ≤ clock
  | _ => True

theorem TimerPc.Ok.mono {clock clock' : Nat} {pc : TimerPc} (h : pc.Ok clock) (hclock : clock ≤ clock') :
    pc.Ok clock' := by
  cases pc with
  | insert t => exact ⟨h.1, h.2.1, Nat.le_trans h.2.2 (Nat.add_le_add_right hclock _)⟩
  | expire now => exact Nat.le_trans h hclock
  | expireLocked now => exact Nat.le_trans h hclock
  | out => trivial
  | reset a ms fromNow => trivial
  | notify => trivial

namespace ClockedTimers

variable {n : Nat} {w i : Fin n} {s s' : ClockedTimers} {pc pc' : TimerPc} {c : TimerChoice}

/-- There is something of which the waiting thread is to be told. -/
def Pending (mgr : TimerManager) (deadline : Option Nat) : Prop :=
  mgr.tickled = true ∨ ∃ a ∈ mgr.timers, earlier (mgr.heap a).next deadline

theorem earlier.mono {m k : Nat} {deadline : Option Nat} (h : earlier k deadline) (hle : m ≤ k) :
    earlier m deadline := by
  cases deadline with
  | none => trivial
  | some d => exact Nat.lt_of_le_of_lt hle h

/-- What a step does to the deadlines. -/
inductive FrontStep (s : ClockedTimers) (pc : TimerPc) (s' : ClockedTimers) (pc' : TimerPc) : Prop where
  /-- Nothing gets earlier. -/
  | keep (hpc : pc ≠ .notify) (hwaiting : s'.waiting = s.waiting) (hnotified : s'.notified = s.notified)
      (hpending : ∀ d, Pending s'.mgr d → Pending s.mgr d)
  /-- A timer gets earlier, and is to be announced. -/
  | front (hpc : pc' = .notify)
  /-- The waiting thread calls `getNextTimer`. -/
  | wait (hpending : ∀ d, s'.waiting = some d → ¬Pending s'.mgr d)
  /-- `onTimerInsertedAtFront`. -/
  | notify (hnotified : s'.notified = true)

theorem Pending.of_keeps {mgr mgr' : TimerManager} {d : Option Nat} (hkeeps : Keeps mgr mgr')
    (h : Pending mgr' d) : Pending mgr d := by
  obtain htickled | ⟨a, ha, hearlier⟩ := h
  · exact .inl (hkeeps.tickled ▸ htickled)
  · exact .inr ⟨a, (hkeeps.later a ha).1, hearlier.mono (hkeeps.later a ha).2⟩

theorem Pending.of_inserts {mgr mgr' : TimerManager} {d : Option Nat} (hins : Inserts mgr mgr' false)
    (h : Pending mgr' d) : Pending mgr d := by
  obtain htickled | ⟨a, ha, hearlier⟩ := h
  · exact .inl (hins.tickled.symm.trans htickled)
  · obtain hfront | htickled | hfirst := hins.first
    · cases hfront
    · exact .inl htickled
    · obtain ⟨b, hb, hle⟩ := hfirst a ha
      exact .inr ⟨b, hb, hearlier.mono hle⟩

/-- An insertion is announced, or nothing gets earlier. -/
theorem FrontStep.of_inserts {mgr : TimerManager} {atFront : Bool} (hpc : pc ≠ .notify)
    (hins : Inserts s.mgr mgr atFront) :
    FrontStep s pc { s with mgr } (if atFront then .notify else .out) := by
  cases atFront with
  | true => exact .front rfl
  | false => exact .keep hpc rfl rfl fun _ => Pending.of_inserts hins

/-- `getNextTimer` gives the first deadline. -/
theorem not_pending_of_getNextTimer {now : Nat} {mgr : TimerManager} (h : mgr.Inv)
    (hnz : (mgr.getNextTimer now).2 ≠ 0) :
    ¬Pending (mgr.getNextTimer now).1
      (if mgr.timers.isEmpty then none else some (now + (mgr.getNextTimer now).2)) := by
  rintro (htickled | ⟨a, ha, hearlier⟩)
  · cases htickled
  · have hmem : a ∈ mgr.timers := ha
    have hsorted := h.sorted
    simp only [TimerManager.getNextTimer] at hnz hearlier
    cases htimers : mgr.timers with
    | nil =>
      rw [htimers] at hmem
      cases hmem
    | cons first rest =>
      rw [htimers] at hnz hearlier hmem hsorted
      dsimp only at hnz hearlier
      have hfirst : (mgr.heap first).next ≤ (mgr.heap a).next := by
        obtain rfl | hrest := List.mem_cons.mp hmem
        · exact Nat.le_refl _
        · have hless := (List.pairwise_cons.mp hsorted).1 a hrest
          rw [TimerManager.less] at hless
          omega
      split at hnz
      · exact hnz rfl
      · next hlt =>
        simp only [List.isEmpty_cons, Bool.false_eq_true, if_false, earlier, if_neg hlt] at hearlier
        omega

/-- The state of the timers that a step finds and leaves. -/
structure Good (s : ClockedTimers) (pc : TimerPc) : Prop where
  inv : s.mgr.Inv
  spans : Spans s.clock s.mgr
  pc : pc.Ok s.clock

/-- **One step** of a thread. -/
theorem step_good (h : Good s pc) (hfits : s.fits pc c = true) (hclock : s.mindsClock pc = true)
    (hstep : s.step w i pc c = some (s', pc')) : Good s' pc' ∧ s'.clock = s.clock ∧ FrontStep s pc s' pc' := by
  unfold step at hstep
  split at hstep
  · -- addTimer makes its timer
    next ms cb recurring =>
    cases hstep
    have hfit : s.clock + ms < 2 ^ 64 := of_decide_eq_true hfits
    refine ⟨⟨h.inv, h.spans, rfl, ?_⟩, rfl, .keep nofun rfl rfl fun _ => id⟩
    simp only [TimerManager.Timer.make, Nat.mod_eq_of_lt hfit]
    omega
  · -- cancel
    next a =>
    obtain ⟨x, hx, heq⟩ := Option.map_eq_some_iff.mp hstep
    cases heq
    obtain ⟨x', hx', hinv⟩ : ∃ x, s.mgr.cancel a = some x ∧ x.1.Inv := h.inv.cancel
    cases hx.symm.trans hx'
    obtain ⟨hkeeps, hsame⟩ := TimerManager.cancel_keeps h.inv hx
    refine ⟨⟨hinv, h.spans.of_same fun b hb => ⟨(hkeeps.later b hb).1, hsame b hb⟩, trivial⟩, rfl, ?_⟩
    exact .keep nofun rfl rfl fun _ => Pending.of_keeps hkeeps
  · -- refresh
    next a =>
    cases hstep
    obtain ⟨hkeeps, hspans⟩ := TimerManager.refresh_keeps h.inv h.spans (of_decide_eq_true hfits)
    exact ⟨⟨h.inv.refresh, hspans, trivial⟩, rfl, .keep nofun rfl rfl fun _ => Pending.of_keeps hkeeps⟩
  · -- the first test of reset
    cases hstep
    refine ⟨⟨h.inv, h.spans, ?_⟩, rfl, .keep nofun rfl rfl fun _ => id⟩
    split <;> trivial
  · -- getNextTimer
    split at hstep
    · cases hstep
      refine ⟨⟨⟨h.inv.sorted, h.inv.cb⟩, h.spans, trivial⟩, rfl, .wait fun d hd => ?_⟩
      dsimp only at hd
      split at hd
      · cases hd
      · next hnz =>
        cases hd
        exact not_pending_of_getNextTimer h.inv hnz
    · cases hstep
      refine ⟨⟨⟨h.inv.sorted, h.inv.cb⟩, h.spans, trivial⟩, rfl, .keep nofun rfl rfl fun d hd => ?_⟩
      exact hd.elim nofun .inr
  · -- listExpiredCb reads the clock
    cases hstep
    exact ⟨⟨h.inv, h.spans, Nat.le_refl _⟩, rfl, .keep nofun rfl rfl fun _ => id⟩
  · -- addTimer inserts its timer
    next t a =>
    split at hstep
    · cases hstep
    · next hnew =>
      cases hstep
      obtain ⟨hcb, hlow, hhigh⟩ := h.pc
      have ha : a ∉ s.mgr.timers := by simpa using hnew
      refine ⟨⟨.insertTimer h.inv.sorted ha (fun b _ => h.inv.cb b) hcb, ?_, ?_⟩, rfl, ?_⟩
      · exact h.spans.put h.inv.sorted ha hlow hhigh
      · split <;> trivial
      · exact .of_inserts nofun (TimerManager.insertTimer_inserts h.inv.sorted ha)
  · -- reset
    cases hstep
    refine ⟨⟨h.inv.resetLocked, ?_, ?_⟩, rfl, ?_⟩
    · exact TimerManager.resetLocked_spans h.inv h.spans (of_decide_eq_true hfits)
    · split <;> trivial
    · exact .of_inserts nofun (TimerManager.resetLocked_inserts h.inv)
  · -- onTimerInsertedAtFront
    cases hstep
    exact ⟨⟨h.inv, h.spans, trivial⟩, rfl, .notify rfl⟩
  · -- the first test of listExpiredCb
    cases hstep
    refine ⟨⟨h.inv, h.spans, ?_⟩, rfl, .keep nofun rfl rfl fun _ => id⟩
    split
    · trivial
    · exact h.pc
  · -- listExpiredCb
    next now tmp =>
    split at hstep
    · cases hstep
    · next hnew =>
      cases hstep
      have htmp : tmp ∉ s.mgr.timers := by simpa using hnew
      have hfit : ∀ a ∈ s.mgr.expired now tmp, (s.mgr.heap a).recurring = true →
          now + (s.mgr.heap a).ms < 2 ^ 64 := by
        intro a ha hrec
        have hone := List.all_eq_true.mp hfits a ha
        simpa [hrec] using hone
      have hearly : s.mgr.rearmsEarlier now = false := by simpa [mindsClock] using hclock
      obtain ⟨hkeeps, hspans⟩ :=
        TimerManager.listExpiredCb_keeps h.inv htmp h.spans h.pc hfit hearly
      refine ⟨⟨h.inv.listExpiredCb, hspans, trivial⟩, rfl, ?_⟩
      exact .keep nofun rfl rfl fun _ => Pending.of_keeps hkeeps
  · cases hstep

end ClockedTimers

namespace FrontSystem

open ClockedTimers (Pending)

variable {n : Nat} {w : Fin n} {s s' : FrontSystem n} {l : FLabel n}

/-- What holds in every state. -/
structure FrontInv (s : FrontSystem n) : Prop where
  good : ∀ i, s.shared.Good (s.thread i)
  told : ∀ d, s.shared.waiting = some d → Pending s.shared.mgr d →
    s.shared.notified = true ∨ ∃ i, s.thread i = .notify

/-- What a thread does leaves the waiting thread told. -/
theorem FrontInv.told_set {i : Fin n} {x : ClockedTimers × TimerPc} (h : FrontInv s)
    (hstep : ClockedTimers.FrontStep s.shared (s.thread i) x.1 x.2) (d : Option Nat)
    (hwaiting : x.1.waiting = some d) (hpending : Pending x.1.mgr d) :
    x.1.notified = true ∨ ∃ k, (s.set i x).thread k = .notify := by
  cases hstep with
  | keep hpc hsame hnotified hback =>
    rw [hsame] at hwaiting
    rw [hnotified]
    refine (h.told d hwaiting (hback d hpending)).imp_right fun hthread => ?_
    exact Threads.exists_set (P := (· = TimerPc.notify)) hthread fun heq => absurd heq hpc
  | front hpc => exact .inr ⟨i, by rw [Threads.set_thread_self, hpc]⟩
  | wait hnone => exact absurd hpending (hnone d hwaiting)
  | notify hnotified => exact .inl hnotified

theorem FrontInv.step (h : FrontInv s) (hfits : fits s l = true) (hclock : mindsClock s l = true)
    (hstep : step? w s l = some s') : FrontInv s' := by
  obtain ⟨i, c, ⟨x, pc'⟩, rfl, hx, rfl⟩ | ⟨ms, x, rfl, hx, rfl⟩ := Threads.step?_cases hstep
  · obtain ⟨hgood, hsame, hfront⟩ := ClockedTimers.step_good (h.good i) hfits hclock hx
    refine ⟨?_, h.told_set (x := (x, pc')) hfront⟩
    intro k
    refine ⟨hgood.inv, hgood.spans, ?_⟩
    by_cases hk : k = i
    · rw [hk, Threads.set_thread_self]
      exact hgood.pc
    · rw [Threads.set_thread_ne hk]
      show (s.thread k).Ok x.clock
      rw [hsame]
      exact (h.good k).pc
  · cases hx
    refine ⟨fun k => ⟨(h.good k).inv, (h.good k).spans.mono (Nat.le_add_right _ _), ?_⟩, h.told⟩
    exact (h.good k).pc.mono (Nat.le_add_right _ _)

theorem frontInv_new (now : Nat) : FrontInv (new n now) := by
  refine ⟨fun _ => ⟨TimerManager.inv_new now, nofun, trivial⟩, fun d hd => ?_⟩
  cases hd

end FrontSystem

/-- In every run whose deadlines are below 2^64 and in which no reading of the clock is taken for a rollover such that
a timer gets an earlier deadline: when the waiting thread waits until some deadline, no `addTimer` or `reset` is in
progress and a timer is due before, `onTimerInsertedAtFront` has been called since. -/
theorem front_notified (n now : Nat) (w : Fin n) {r : List (FrontSystem.FLabel n × FrontSystem n)}
    (hr : Run (fun s l s' => FrontSystem.step? w s l = some s') (FrontSystem.new n now) r)
    (hfits : Meets (fun s l => FrontSystem.fits s l = true) (FrontSystem.new n now) r)
    (hclock : Meets (fun s l => FrontSystem.mindsClock s l = true) (FrontSystem.new n now) r) :
    Reached (fun s : FrontSystem n => ∀ d, s.shared.waiting = some d → (∀ i, (s.thread i).inAddOrReset = false) →
      (∃ a ∈ s.shared.mgr.timers, ClockedTimers.earlier (s.shared.mgr.heap a).next d) →
      s.shared.notified = true) r := by
  have hinv := Run.inv (I := fun s : FrontSystem n => s.FrontInv)
    (fun _ _ _ hi hc hstep => hi.step hc.1 hc.2 hstep) hr (hfits.and hclock) (FrontSystem.frontInv_new now)
  refine hinv.mono fun s h d hwaiting hout hdue => ?_
  refine (h.told d hwaiting (.inr hdue)).resolve_right ?_
  rintro ⟨i, hi⟩
  have hnot := hout i
  rw [hi] at hnot
  cases hnot

/-- A second timer, which is due before the first, is announced. -/
theorem front_notified_add : ∃ r : List (FrontSystem.FLabel 2 × FrontSystem 2),
      Run (fun s l s' => FrontSystem.step? 0 s l = some s') (FrontSystem.new 2 1000) r ∧
        (lastState (FrontSystem.new 2 1000) r).shared.waiting = some (some 1100) ∧
        (lastState (FrontSystem.new 2 1000) r).shared.mgr.timers = [9, 4] ∧
        (lastState (FrontSystem.new 2 1000) r).shared.notified = true := by
  obtain ⟨r, hr, hfits, hclock, hwaiting, hout, htimers, hnext⟩ := exists_run_of_trace?
    (f := FrontSystem.step? 0) (s := FrontSystem.new 2 1000)
    [.thread 1 (.addTimer 100 0 false), .thread 1 (.go 4), .thread 1 (.go 0), .thread 0 .getNextTimer,
      .thread 1 (.addTimer 10 1 false), .thread 1 (.go 9), .thread 1 (.go 0)]
    (P := fun r => Meets (fun s l => FrontSystem.fits s l = true) (FrontSystem.new 2 1000) r ∧
      Meets (fun s l => FrontSystem.mindsClock s l = true) (FrontSystem.new 2 1000) r ∧
      (lastState (FrontSystem.new 2 1000) r).shared.waiting = some (some 1100) ∧
      (∀ i, ((lastState (FrontSystem.new 2 1000) r).thread i).inAddOrReset = false) ∧
      (lastState (FrontSystem.new 2 1000) r).shared.mgr.timers = [9, 4] ∧
      ((lastState (FrontSystem.new 2 1000) r).shared.mgr.heap 9).next = 1010) (by decide +kernel)
  refine ⟨r, hr, hwaiting, htimers, ?_⟩
  refine (front_notified 2 1000 0 hr hfits hclock).last nofun _ hwaiting hout ⟨9, ?_, ?_⟩
  · rw [htimers]
    exact List.mem_cons_self
  · rw [hnext]
    decide

/-- Thread 1 reads the clock in `listExpiredCb` and is held up for more than an hour. The waiting thread meanwhile
lists the expired timer, which is set anew, and waits for it. Then thread 1 takes its reading for a rollover, and sets
the timer to a deadline that has long passed. -/
theorem front_unnoticed : ∃ r : List (FrontSystem.FLabel 2 × FrontSystem 2),
      Run (fun s l s' => FrontSystem.step? 0 s l = some s') (FrontSystem.new 2 5000000) r ∧
        Meets (fun s l => FrontSystem.fits s l = true) (FrontSystem.new 2 5000000) r ∧
        (lastState (FrontSystem.new 2 5000000) r).shared.waiting = some (some 8600030) ∧
        (∀ i, ((lastState (FrontSystem.new 2 5000000) r).thread i).inAddOrReset = false) ∧
        (lastState (FrontSystem.new 2 5000000) r).shared.mgr.timers = [4] ∧
        ((lastState (FrontSystem.new 2 5000000) r).shared.mgr.heap 4).next = 5000010 ∧
        (lastState (FrontSystem.new 2 5000000) r).shared.notified = false := by
  exact exists_run_of_trace?
    [.thread 1 (.addTimer 10 0 true), .thread 1 (.go 4), .thread 1 (.go 0), .thread 1 .listExpiredCb,
      .thread 1 (.go 0), .outer 3600020, .thread 0 .listExpiredCb, .thread 0 (.go 0), .thread 0 (.go 7),
      .thread 0 .getNextTimer, .thread 1 (.go 7)] (by decide +kernel)

end Sherry
