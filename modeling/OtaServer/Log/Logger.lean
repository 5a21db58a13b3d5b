import Mathlib.Logic.Function.Basic
import OtaServer.Lib.Run
import OtaServer.Log.Formatter

/-!
# Loggers and their appenders (`sherry/log.h`, `sherry/log.cc`)

A logger holds pointers to its appenders. An appender that has no formatter of its own gets a copy of the logger's.

* `LogAppender`, `Logger`: appenders are at addresses, formatters are values, since nothing changes a formatter.
* `LoggerState`: a logger and any number of appenders, with what was asked of them: the appenders that were added and
  not deleted, and the formatters that were set on appenders.
* `AppendersRight`: the list is the one asked for, and each appender in it formats with its own formatter or with the
  logger's.
* `appendersRight_iff`: this is so along a run exactly if every operation `keeps` it.
-/

namespace Sherry

open Lib

/-! ## Model -/

/-- `LogAppender`: a `FileLogAppender` with its file, or a `StdoutLogAppender`. -/
structure LogAppender where
  file : Option Bytes := none
  level : LogLevel := .unknow
  formatter : Option LogFormatter := none
  hasFormatter : Bool := false
  deriving DecidableEq

namespace LogAppender

/-- `setFormatter`. -/
def setFormatter (ap : LogAppender) (val : Option LogFormatter) : LogAppender :=
  { ap with formatter := val, hasFormatter := val.isSome }

/-- What `Logger::setFormatter` does with an appender. -/
def inherit (val : Option LogFormatter) (ap : LogAppender) : LogAppender :=
  if ap.hasFormatter then ap else { ap with formatter := val }

end LogAppender

/-- `Logger`. -/
structure Logger where
  name : Bytes
  level : LogLevel
  formatter : Option LogFormatter
  /-- `m_appenders`: addresses. -/
  appenders : List Nat
  deriving DecidableEq

namespace Logger

/-- The constructor. -/
def new (name : Bytes) : Logger where
  name := name
  level := .debug
  formatter := some (.init (str "%d%T%t%T%N%T%F%T[%p]%T[%c]%T%f:%l%T%m%n"))
  appenders := []

/-- `setFormatter(LogFormatter::ptr)`. -/
def setFormatter (l : Logger) (heap : Nat → LogAppender) (val : Option LogFormatter) : Logger × (Nat → LogAppender) :=
  ({ l with formatter := val },
    l.appenders.foldl (fun heap a => Function.update heap a ((heap a).inherit val)) heap)

/-- `setFormatter(const std::string&)`. -/
def setPattern (l : Logger) (heap : Nat → LogAppender) (val : Bytes) : Logger × (Nat → LogAppender) :=
  if (LogFormatter.init val).isError then (l, heap) else l.setFormatter heap (some (.init val))

/-- `addAppender`. The flag of the appender stays. -/
def addAppender (l : Logger) (heap : Nat → LogAppender) (a : Nat) : Logger × (Nat → LogAppender) :=
  ({ l with appenders := l.appenders ++ [a] },
    if (heap a).formatter = none then Function.update heap a { heap a with formatter := l.formatter } else heap)

/-- `delAppender`. The loop erases the first appender and does not look at the argument. -/
def delAppender (l : Logger) (_ : Nat) : Logger :=
  match l.appenders with
  | [] => l
  | _ :: rest => { l with appenders := rest }

/-- `clearAppenders`. -/
def clearAppenders (l : Logger) : Logger := { l with appenders := [] }

end Logger

/-- A logger and the appenders, and what was asked of them. -/
structure LoggerState where
  logger : Logger
  heap : Nat → LogAppender
  /-- The appenders that were added, without those that were passed to `delAppender`. -/
  added : List Nat
  /-- The formatter that was last set on an appender. -/
  own : Nat → Option LogFormatter

/-- The calls that change the appenders. -/
inductive LoggerOp where
  | addAppender (a : Nat)
  | delAppender (a : Nat)
  | setFormatter (val : Option LogFormatter)
  | setPattern (val : Bytes)
  /-- `LogAppender::setFormatter`. -/
  | appenderFormatter (a : Nat) (val : Option LogFormatter)

namespace LoggerState

/-- A new logger and new appenders. -/
def new (name : Bytes) (heap : Nat → LogAppender) : LoggerState where
  logger := .new name
  heap := heap
  added := []
  own := fun _ => none

/-- One operation. -/
def run (s : LoggerState) : LoggerOp → LoggerState
  | .addAppender a =>
    let x := s.logger.addAppender s.heap a
    { s with logger := x.1, heap := x.2, added := s.added ++ [a] }
  | .delAppender a => { s with logger := s.logger.delAppender a, added := s.added.erase a }
  | .setFormatter val =>
    let x := s.logger.setFormatter s.heap val
    { s with logger := x.1, heap := x.2 }
  | .setPattern val =>
    let x := s.logger.setPattern s.heap val
    { s with logger := x.1, heap := x.2 }
  | .appenderFormatter a val =>
    { s with heap := Function.update s.heap a ((s.heap a).setFormatter val), own := Function.update s.own a val }

/-- The list is the one asked for, and each appender in it has the formatter that was set on it or the logger's. -/
def AppendersRight (s : LoggerState) : Prop :=
  s.logger.appenders = s.added ∧ ∀ a ∈ s.added, (s.heap a).formatter = (s.own a).or s.logger.formatter

/-- `delAppender` gets the first appender, `addAppender` an appender whose formatter is its own or the logger's if it
has one, and no appender of the list loses its formatter while the logger has one. -/
def keeps (s : LoggerState) : LoggerOp → Prop
  | .addAppender a =>
    (s.heap a).hasFormatter = true ∨ (s.heap a).formatter = none ∨ (s.heap a).formatter = s.logger.formatter
  | .delAppender a => ∀ b ∈ s.logger.appenders.head?, b = a
  | .setFormatter _ | .setPattern _ => True
  | .appenderFormatter a val => val = none → a ∈ s.logger.appenders → s.logger.formatter = none

end LoggerState

/-! ## Operations -/

theorem LogAppender.inherit_inherit (val : Option LogFormatter) (ap : LogAppender) :
    (ap.inherit val).inherit val = ap.inherit val := by
  by_cases h : ap.hasFormatter = true <;> simp [inherit, h]

theorem LogAppender.inherit_formatter (val : Option LogFormatter) (ap : LogAppender) :
    (ap.inherit val).formatter = if ap.hasFormatter then ap.formatter else val := by
  unfold inherit
  split <;> rfl

theorem LogAppender.inherit_hasFormatter (val : Option LogFormatter) (ap : LogAppender) :
    (ap.inherit val).hasFormatter = ap.hasFormatter := by
  unfold inherit
  split <;> rfl

namespace Logger

variable (l : Logger) (heap : Nat → LogAppender)

theorem setFormatter_heap (val : Option LogFormatter) (b : Nat) :
    (l.setFormatter heap val).2 b = if b ∈ l.appenders then (heap b).inherit val else heap b := by
  unfold setFormatter
  dsimp only
  induction l.appenders generalizing heap with
  | nil => rfl
  | cons a rest ih =>
    rw [List.foldl_cons, ih, Function.update_apply]
    by_cases hb : b = a
    · subst hb
      simp [LogAppender.inherit_inherit]
    · simp [hb]

theorem addAppender_heap (a b : Nat) : (l.addAppender heap a).2 b =
    if b = a ∧ (heap a).formatter = none then { heap a with formatter := l.formatter } else heap b := by
  unfold addAppender
  dsimp only
  split
  next h =>
    rw [Function.update_apply]
    simp [h]
  next h => simp [h]

end Logger

/-- Erasing the first element is erasing `a` exactly if `a` is the first. -/
theorem tail_eq_erase_iff {l : List Nat} {a : Nat} : l.tail = l.erase a ↔ ∀ b ∈ l.head?, b = a := by
  cases l with
  | nil => simp
  | cons b l =>
    simp only [List.tail_cons, List.head?_cons, Option.mem_some_iff, forall_eq']
    constructor
    · intro h
      by_contra hne
      -- the two lists have different numbers of `b`
      rw [List.erase_cons_tail (by simpa using hne)] at h
      have hcount := congrArg (List.count b) h
      rw [List.count_cons_self, List.count_erase_of_ne hne] at hcount
      omega
    · rintro rfl
      rw [List.erase_cons_head]

namespace LoggerState

variable {s : LoggerState} {a : Nat} {val : Option LogFormatter}

/-- The flag says whether a formatter was set on the appender, and then the appender has it. -/
structure Flagged (s : LoggerState) : Prop where
  flag : ∀ a, (s.heap a).hasFormatter = (s.own a).isSome
  formatter : ∀ a f, s.own a = some f → (s.heap a).formatter = some f

theorem Flagged.eq_or (h : Flagged s) (hflag : (s.heap a).hasFormatter = true) :
    (s.heap a).formatter = (s.own a).or val := by
  rw [h.flag] at hflag
  obtain ⟨f, hf⟩ := Option.isSome_iff_exists.mp hflag
  rw [hf, h.formatter a f hf]
  rfl

theorem Flagged.own_eq_none (h : Flagged s) (hflag : ¬ (s.heap a).hasFormatter = true) : s.own a = none := by
  rwa [h.flag, Option.not_isSome_iff_eq_none] at hflag

theorem Flagged.setFormatter (h : Flagged s) (val : Option LogFormatter) : Flagged (s.run (.setFormatter val)) := by
  have hheap := s.logger.setFormatter_heap s.heap val
  constructor
  · intro b
    show ((s.logger.setFormatter s.heap val).2 b).hasFormatter = _
    rw [hheap]
    split
    · rw [LogAppender.inherit_hasFormatter]
      exact h.flag b
    · exact h.flag b
  · intro b f hf
    show ((s.logger.setFormatter s.heap val).2 b).formatter = _
    rw [hheap]
    split
    · rw [LogAppender.inherit_formatter, if_pos (by rw [h.flag, show s.own b = some f from hf]; rfl)]
      exact h.formatter b f hf
    · exact h.formatter b f hf

/-- **One operation** keeps the flags. -/
theorem Flagged.run (h : Flagged s) (op : LoggerOp) : Flagged (s.run op) := by
  cases op with
  | addAppender a =>
    have hheap := s.logger.addAppender_heap s.heap a
    constructor
    · intro b
      show ((s.logger.addAppender s.heap a).2 b).hasFormatter = _
      rw [hheap]
      split
      next hb =>
        rw [hb.1]
        exact h.flag a
      next => exact h.flag b
    · intro b f hf
      show ((s.logger.addAppender s.heap a).2 b).formatter = _
      rw [hheap, if_neg]
      · exact h.formatter b f hf
      -- an appender with a formatter of its own keeps it
      · rintro ⟨rfl, hnone⟩
        cases hnone.symm.trans (h.formatter b f hf)
  | delAppender a => exact ⟨h.flag, h.formatter⟩
  | setFormatter val => exact h.setFormatter val
  | setPattern val =>
    simp only [LoggerState.run, Logger.setPattern]
    split
    · exact h
    · exact h.setFormatter _
  | appenderFormatter a val =>
    constructor
    · intro b
      simp only [LoggerState.run, Function.update_apply]
      split
      · rfl
      · exact h.flag b
    · intro b f hf
      simp only [LoggerState.run, Function.update_apply] at hf ⊢
      split at hf
      next hb => rw [if_pos hb, ← hf]; rfl
      next hb => rw [if_neg hb]; exact h.formatter b f hf

/-! ## One operation -/

theorem addAppender_iff (hflag : Flagged s) (h : AppendersRight s) :
    AppendersRight (s.run (.addAppender a)) ↔ s.keeps (.addAppender a) := by
  have hheap := s.logger.addAppender_heap s.heap a
  constructor
  · rintro ⟨-, hright⟩
    have ha : ((s.logger.addAppender s.heap a).2 a).formatter = (s.own a).or s.logger.formatter :=
      hright a (List.mem_append_right _ List.mem_cons_self)
    by_cases hown : (s.heap a).hasFormatter = true
    · exact .inl hown
    · by_cases hnone : (s.heap a).formatter = none
      · exact .inr (.inl hnone)
      -- the appender comes with a formatter that it was given by another logger
      · rw [hheap, if_neg (fun hand => hnone hand.2), hflag.own_eq_none hown] at ha
        exact .inr (.inr ha)
  · intro hkeeps
    refine ⟨congrArg (· ++ [a]) h.1, fun b hb => ?_⟩
    show ((s.logger.addAppender s.heap a).2 b).formatter = (s.own b).or s.logger.formatter
    rw [hheap]
    split
    next hba =>
      rw [hba.1]
      cases hown : s.own a with
      | none => rfl
      | some f => cases hba.2.symm.trans (hflag.formatter a f hown)
    next hba =>
      rcases List.mem_append.mp hb with hb | hb
      · exact h.2 b hb
      · obtain rfl := List.mem_singleton.mp hb
        by_cases hown : (s.heap b).hasFormatter = true
        · exact hflag.eq_or hown
        · rw [hflag.own_eq_none hown]
          rcases hkeeps with hkeeps | hkeeps | hkeeps
          · exact absurd hkeeps hown
          · exact absurd ⟨rfl, hkeeps⟩ hba
          · exact hkeeps

theorem delAppender_iff (h : AppendersRight s) :
    AppendersRight (s.run (.delAppender a)) ↔ s.keeps (.delAppender a) := by
  have hlist : (s.logger.delAppender a).appenders = s.logger.appenders.tail := by
    unfold Logger.delAppender
    split <;> simp_all
  have hformatter : (s.logger.delAppender a).formatter = s.logger.formatter := by
    unfold Logger.delAppender
    split <;> rfl
  have hiff : s.logger.appenders.tail = s.added.erase a ↔ s.keeps (.delAppender a) := by
    rw [← h.1]
    exact tail_eq_erase_iff
  rw [← hiff]
  constructor
  · intro hright
    exact hlist.symm.trans hright.1
  · intro heq
    refine ⟨hlist.trans heq, fun b hb => ?_⟩
    show (s.heap b).formatter = (s.own b).or (s.logger.delAppender a).formatter
    rw [hformatter]
    exact h.2 b (List.mem_of_mem_erase hb)

theorem setFormatter_right (hflag : Flagged s) (h : AppendersRight s) (val : Option LogFormatter) :
    AppendersRight (s.run (.setFormatter val)) := by
  refine ⟨h.1, fun b hb => ?_⟩
  show ((s.logger.setFormatter s.heap val).2 b).formatter = (s.own b).or val
  rw [Logger.setFormatter_heap, if_pos (h.1 ▸ hb), LogAppender.inherit_formatter]
  split
  next hown => exact hflag.eq_or hown
  next hown => rw [hflag.own_eq_none hown, Option.none_or]

theorem appenderFormatter_iff (h : AppendersRight s) :
    AppendersRight (s.run (.appenderFormatter a val)) ↔ s.keeps (.appenderFormatter a val) := by
  constructor
  · rintro ⟨-, hright⟩ rfl ha
    have heq := hright a (h.1 ▸ ha)
    simp only [LoggerState.run, Function.update_self, Option.none_or] at heq
    exact heq.symm
  · intro hkeeps
    refine ⟨h.1, fun b hb => ?_⟩
    simp only [LoggerState.run, Function.update_apply]
    split
    next hba =>
      cases val with
      | none => exact (hkeeps rfl (by rw [h.1, ← hba]; exact hb)).symm
      | some f => rfl
    next => exact h.2 b hb

theorem run_iff (hflag : Flagged s) (h : AppendersRight s) (op : LoggerOp) :
    AppendersRight (s.run op) ↔ s.keeps op := by
  cases op with
  | addAppender a => exact addAppender_iff hflag h
  | delAppender a => exact delAppender_iff h
  | setFormatter val => exact iff_of_true (setFormatter_right hflag h val) trivial
  | setPattern val =>
    refine iff_of_true ?_ trivial
    simp only [LoggerState.run, Logger.setPattern]
    split
    · exact h
    · exact setFormatter_right hflag h _
  | appenderFormatter a val => exact appenderFormatter_iff h

end LoggerState

open LoggerState

/-- Any sequence of operations on a new logger and new appenders: the list and the formatters are right behind each of
them exactly if all of them keep it so. -/
theorem appendersRight_iff (name : Bytes) (heap : Nat → LogAppender)
    (hnew : ∀ a, (heap a).formatter = none ∧ (heap a).hasFormatter = false) (ops : List LoggerOp) :
    Reached AppendersRight (trace LoggerState.run (.new name heap) ops) ↔
      Meets keeps (.new name heap) (trace LoggerState.run (.new name heap) ops) := by
  refine Run.reached_iff (I := fun s => Flagged s ∧ AppendersRight s) (fun s op s' h hs => ?_)
    (fun s op s' h hkeeps hs => ?_) (run_trace _ _ _) ⟨⟨fun a => (hnew a).2, fun a f hf => ?_⟩, rfl, fun a ha => ?_⟩
  · rw [← hs]
    exact run_iff h.1 h.2 op
  · rw [← hs]
    exact ⟨h.1.run op, (run_iff h.1 h.2 op).mpr hkeeps⟩
  · cases hf
  · cases ha

/-- Two appenders, one with its own formatter. The first is deleted. -/
theorem appendersRight_iff_two : Reached AppendersRight (trace LoggerState.run (.new (str "system") fun _ => {})
    [.appenderFormatter 2 (some (.init (str "%m"))), .addAppender 1, .addAppender 2, .setPattern (str "%p%m"),
      .delAppender 1]) := by
  refine (appendersRight_iff (str "system") (fun _ => {}) (fun _ => ⟨rfl, rfl⟩) _).mpr
    ⟨fun hnone => absurd hnone (Option.some_ne_none _), .inr (.inl rfl), .inl rfl, trivial, fun b hb => ?_, trivial⟩
  cases hb
  rfl

/-- `delAppender` of the second appender erases the first one; an appender whose formatter is reset to null has none;
and an appender that is added again keeps the formatter that the logger had before. -/
theorem appendersRight_fails :
    (∃ s, s = [.addAppender 1, .addAppender 2, .delAppender 2].foldl LoggerState.run (.new (str "system") fun _ => {})
      ∧
      s.logger.appenders = [2] ∧ s.added = [1] ∧ ¬ AppendersRight s) ∧
    (∃ s, s = [.addAppender 1, .appenderFormatter 1 none].foldl LoggerState.run (.new (str "system") fun _ => {}) ∧
      s.added = [1] ∧ (s.heap 1).formatter = none ∧ s.logger.formatter ≠ none ∧ ¬ AppendersRight s) ∧
    ∃ s, s = [.addAppender 1, .delAppender 1, .setFormatter none, .addAppender 1].foldl LoggerState.run
        (.new (str "system") fun _ => {}) ∧
      s.added = [1] ∧ (s.heap 1).formatter ≠ none ∧ s.logger.formatter = none ∧ ¬ AppendersRight s := by
  refine ⟨⟨_, rfl, rfl, rfl, fun h => ?_⟩, ⟨_, rfl, rfl, rfl, Option.some_ne_none _, fun h => ?_⟩,
    ⟨_, rfl, rfl, Option.some_ne_none _, rfl, fun h => ?_⟩⟩
  · cases h.1
  · cases h.2 1 List.mem_cons_self
  · cases h.2 1 List.mem_cons_self

end Sherry
