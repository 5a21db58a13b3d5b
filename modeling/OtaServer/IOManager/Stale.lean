import OtaServer.IOManager.EventsInv

/-!
# Events that `epoll_wait` has returned and `idle` has not yet handled

Between the return of `epoll_wait` and the lock of the descriptor's mutex, other threads may delete, cancel and add
events, and other idle fibers may handle theirs.

* `IdleSystem`: the contexts, and the reports that the idle fibers still have in their arrays.
* `processEvent_iff`: when `triggerEvent` finds the bits it asserts. `stale_reports`: over all runs.
-/

namespace Sherry

open Lib

namespace IOManager

variable {s s' : IOManager} {i : Nat} {report : Report} {ok : Bool}

/-- Some of the events that `idle` takes as reported are registered, and some are not. -/
def partlyGone (s : IOManager) (i : Nat) (report : Report) : Bool :=
  let events := (s.ctxs i).events
  let real := realEvents report events
  !(events.inter real).isNone && (real.read && !events.read || real.write && !events.write)

/-- `epoll` knows a descriptor that has registered events. -/
theorem Inv.epollCtl_left (h : Inv s) (left : Events) (ok : Bool) (hsome : (s.ctxs i).events.isNone = false) :
    (epollCtl s.epoll (if left.isNone then .del else .mod) (s.ctxs i).fd left ok).isSome = ok := by
  have hepoll : s.epoll i = some (s.ctxs i).events := by
    rw [h.epoll i, Events.mask?, hsome]
    rfl
  rw [h.core.fd i]
  unfold epollCtl
  rw [hepoll]
  cases ok <;> cases left.isNone <;> rfl

theorem fireIf_unregistered {e : Event} {b : Bool} (he : (s.ctxs i).events.has e = false) (hb : b = true) :
    s.fireIf i e b = none := by
  rw [fireIf, if_pos hb, fire, triggerEvent]
  simp only [he]
  rfl

theorem fireIf_write (h : Core s) {b : Bool} (hfire : s.fireIf i .read b = some s') :
    (s'.ctxs i).events.write = (s.ctxs i).events.write := by
  have hb : b = true → (s.ctxs i).events.has .read = true := by
    intro hb
    by_contra hread
    rw [fireIf_unregistered (Bool.eq_false_iff.mpr hread) hb] at hfire
    cases hfire
  obtain ⟨s'', hfire'', -, -, hevents⟩ := fireIf_spec h hb
  cases hfire.symm.trans hfire''
  have hi := hevents i
  rw [if_pos rfl] at hi
  rw [hi]
  cases b <;> rfl

/-- A report of which part is gone fails the assertion of `triggerEvent`. -/
theorem processEvent_gone (h : Inv s) (hgone : s.partlyGone i report = true) :
    s.processEvent i report true = none := by
  rw [partlyGone, Bool.and_eq_true, Bool.not_eq_true'] at hgone
  obtain ⟨hinter, hmiss⟩ := hgone
  have hevents : (s.ctxs i).events.isNone = false := by
    simp only [Events.isNone, Events.inter] at hinter ⊢
    cases hread : (s.ctxs i).events.read <;> cases hwrite : (s.ctxs i).events.write <;>
      simp [hread, hwrite] at hinter ⊢
  unfold processEvent
  dsimp only
  rw [hinter, if_neg Bool.false_ne_true]
  obtain ⟨epoll, hepoll⟩ := Option.isSome_iff_exists.mp (h.epollCtl_left
    ((s.ctxs i).events.diff (realEvents report (s.ctxs i).events)) true hevents)
  rw [hepoll]
  have hcore : Core { s with epoll } :=
    ⟨h.core.size, h.core.fd, h.core.ctx, h.core.beyond, h.core.pending, h.core.tickets⟩
  simp only [Bool.or_eq_true, Bool.and_eq_true, Bool.not_eq_true'] at hmiss
  refine Option.bind_eq_none_iff.mpr fun s₁ hfire₁ => ?_
  obtain ⟨hreal, hread⟩ | ⟨hreal, hwrite⟩ := hmiss
  · have hnone := fireIf_unregistered (s := { s with epoll }) (e := .read) hread hreal
    cases hfire₁.symm.trans hnone
  · exact fireIf_unregistered (e := .write) ((fireIf_write hcore hfire₁).trans hwrite) hreal

/-- Any other report is handled, or `epoll_ctl` fails and it is passed over. -/
theorem processEvent_kept (h : Inv s) (hcond : s.partlyGone i report = false ∨ ok = false) :
    ∃ s', s.processEvent i report ok = some s' ∧ Inv s' := by
  cases hinter : ((s.ctxs i).events.inter (realEvents report (s.ctxs i).events)).isNone with
  | true =>
    refine ⟨s, ?_, h⟩
    rw [processEvent, if_pos hinter]
  | false =>
    obtain hgone | rfl := hcond
    · rw [partlyGone, hinter] at hgone
      simp only [Bool.not_false, Bool.true_and, Bool.or_eq_false_iff, Bool.and_eq_false_imp,
        Bool.not_eq_false'] at hgone
      exact processEvent_spec h hgone.1 hgone.2
    · refine ⟨s, ?_, h⟩
      simp only [processEvent, hinter, epollCtl]
      rfl

/-- **The loop body of `idle`** fails no assertion if and only if the events that it takes as reported are
all registered or none is, or `epoll_ctl` fails. -/
theorem processEvent_iff (h : Inv s) :
    (∃ s', s.processEvent i report ok = some s') ↔ s.partlyGone i report = false ∨ ok = false := by
  constructor
  · rintro ⟨s', hs'⟩
    cases hgone : s.partlyGone i report with
    | false => exact .inl rfl
    | true =>
      cases ok with
      | false => exact .inr rfl
      | true =>
        rw [processEvent_gone h hgone] at hs'
        cases hs'
  · intro hcond
    obtain ⟨s', hs', -⟩ := processEvent_kept h hcond
    exact ⟨s', hs'⟩

end IOManager

/-! ## Runs -/

/-- An `IOManager`, with what `epoll_wait` has returned and is not yet handled: a context, and the events. -/
structure IdleSystem where
  io : IOManager := {}
  inFlight : List (Nat × Report) := []

/-- A step of an operation or of an idle fiber. -/
inductive IdleLabel where
  | op (op : EventOp)
  /-- `epoll_wait` returns events for the context `i`. -/
  | wait (i : Nat) (report : Report)
  /-- An idle fiber handles what it has at `n`. -/
  | process (n : Nat) (ok : Bool)

namespace IdleSystem

/-- A step. `none` is also a failed assertion. -/
def step? (s : IdleSystem) : IdleLabel → Option IdleSystem
  | .op op => if s.io.allowed op then (s.io.run? op).map ({ s with io := · }) else none
  | .wait i report =>
    if s.io.reports i report then some { s with inFlight := (i, report) :: s.inFlight } else none
  | .process n ok =>
    match s.inFlight[n]? with
    | none => none
    | some (i, report) => (s.io.processEvent i report ok).map (⟨·, s.inFlight.eraseIdx n⟩)

variable {s s' : IdleSystem} {l : IdleLabel}

theorem step_inv (h : s.io.Inv) (hstep : s.step? l = some s') : s'.io.Inv := by
  cases l with
  | op op =>
    simp only [step?] at hstep
    split at hstep
    · next hallowed =>
      obtain ⟨io, hio, hinv⟩ := IOManager.run?_spec h hallowed
      rw [hio] at hstep
      cases hstep
      exact hinv
    · cases hstep
  | wait i report =>
    simp only [step?] at hstep
    split at hstep
    · cases hstep
      exact h
    · cases hstep
  | process n ok =>
    simp only [step?] at hstep
    split at hstep
    · cases hstep
    · next i report hn =>
      obtain ⟨io, hio, rfl⟩ := Option.map_eq_some_iff.mp hstep
      obtain ⟨io', hio', hinv⟩ :=
        IOManager.processEvent_kept h ((IOManager.processEvent_iff h).mp ⟨io, hio⟩)
      cases hio.symm.trans hio'
      exact hinv

end IdleSystem

/-- In every run the counter does not go below 0 and the operations fail no assertion. The handling of a report that
has been under way fails none if and only if its events are still all registered or all gone, or `epoll_ctl` fails. -/
theorem stale_reports {r : List (IdleLabel × IdleSystem)}
    (hr : Run (fun s l s' => s.step? l = some s') {} r) {s : IdleSystem} (hs : s = lastState {} r) :
    0 ≤ s.io.pendingEventCount ∧ (∀ op, s.io.allowed op = true → ∃ io, s.io.run? op = some io) ∧
      ∀ i report ok, (i, report) ∈ s.inFlight → ((∃ io, s.io.processEvent i report ok = some io) ↔
          s.io.partlyGone i report = false ∨ ok = false) := by
  have hinv : s.io.Inv := by
    rw [hs]
    exact Run.inv_last (I := fun s : IdleSystem => s.io.Inv) (fun _ _ _ => IdleSystem.step_inv) hr
      IOManager.inv_new
  refine ⟨?_, fun op hop => ?_, fun i report ok _ => IOManager.processEvent_iff hinv⟩
  · rw [hinv.core.pending]
    exact Int.natCast_nonneg _
  · obtain ⟨io, hio, -⟩ := IOManager.run?_spec hinv hop
    exact ⟨io, hio⟩

/-- A report for both events is handled. -/
theorem stale_reports_both : ∃ r : List (IdleLabel × IdleSystem), Run (fun s l s' => s.step? l = some s') {} r ∧
      (lastState {} r).inFlight = [(7, { pollIn := true, pollOut := true })] ∧
      ∃ io, (lastState {} r).io.processEvent 7 { pollIn := true, pollOut := true } true = some io := by
  obtain ⟨r, hr, hflight, hgone⟩ := exists_run_of_trace? (f := IdleSystem.step?) (s := {})
    [.op (.addEvent 7 .read 0 false true), .op (.addEvent 7 .write 0 false true),
      .wait 7 { pollIn := true, pollOut := true }]
    (P := fun r => (lastState {} r).inFlight = [(7, { pollIn := true, pollOut := true })] ∧
      (lastState {} r).io.partlyGone 7 { pollIn := true, pollOut := true } = false) (by decide +kernel)
  refine ⟨r, hr, hflight, ((stale_reports hr rfl).2.2 7 _ true ?_).mpr (.inl hgone)⟩
  rw [hflight]
  exact List.mem_singleton.mpr rfl

/-- Both events of a descriptor are reported. Before they are handled, the timer of the reader cancels its event. -/
theorem stale_report_fails : ∃ r : List (IdleLabel × IdleSystem), Run (fun s l s' => s.step? l = some s') {} r ∧
      (lastState {} r).inFlight = [(7, { pollIn := true, pollOut := true })] ∧
      (lastState {} r).io.processEvent 7 { pollIn := true, pollOut := true } true = none := by
  obtain ⟨r, hr, hflight, hnone⟩ := exists_run_of_trace? (f := IdleSystem.step?) (s := {})
    [.op (.addEvent 7 .read 0 false true), .op (.addEvent 7 .write 0 false true),
      .wait 7 { pollIn := true, pollOut := true }, .op (.cancelEvent 7 .read true)]
    (P := fun r => (lastState {} r).inFlight = [(7, { pollIn := true, pollOut := true })] ∧
      ((lastState {} r).io.processEvent 7 { pollIn := true, pollOut := true } true).isNone = true) (by decide +kernel)
  exact ⟨r, hr, hflight, Option.isNone_iff_eq_none.mp hnone⟩

end Sherry
