import OtaServer.Log.Define
import OtaServer.Log.Logger

/-!
# Changing the loggers' configuration (`LogIniter` of `sherry/log.cc`)

The listener of `logs` goes through the new definitions and then through the old ones.

* `LoggerManager`: the loggers by name, and the appenders by address. `configure`, `disable`: what the two loops do
  for a definition. `LoggerManager.listener`: the listener.
* `Owned`: each appender belongs to one logger. `SameLogger`: a logger and its appenders are as before.
* `Configured`, `Disabled`: what is to become of a logger.
* `listener_iff`: the listener does all this and leaves the other loggers alone exactly if no definition is in both
  sets.
-/

namespace Sherry

open Lib

/-! ## Model -/

/-- `LoggerManager`, with the appenders. Addresses from `fresh` on are unused. -/
structure LoggerManager where
  loggers : Bytes → Option Logger
  heap : Nat → LogAppender
  fresh : Nat

namespace LoggerManager

/-- `getLogger`: the logger of this name, or a new one. -/
def getLogger (m : LoggerManager) (name : Bytes) : Logger := (m.loggers name).getD (.new name)

/-- A logger is changed, or put into the map. -/
def setLogger (m : LoggerManager) (l : Logger) (name : Bytes) : LoggerManager :=
  { m with loggers := Function.update m.loggers name (some l) }

end LoggerManager

/-- The appender that the listener makes; `none` is a call on a null pointer. -/
def LogAppenderDefine.make (a : LogAppenderDefine) : Option LogAppender := do
  let ap : LogAppender ←
    if a.type = 1 then some { file := some a.file } else if a.type = 2 then some {} else none
  let ap := { ap with level := a.level }
  return if a.formatter ≠ [] ∧ (LogFormatter.init a.formatter).isError = false
    then ap.setFormatter (some (.init a.formatter)) else ap

/-- The loop over the appenders of a definition. -/
def addAppenders : List LogAppenderDefine → Logger → (Nat → LogAppender) → Nat →
    Option (Logger × (Nat → LogAppender) × Nat)
  | [], l, heap, fresh => some (l, heap, fresh)
  | a :: as, l, heap, fresh => do
    let ap ← a.make
    let x := l.addAppender (Function.update heap fresh ap) fresh
    addAppenders as x.1 x.2 (fresh + 1)

namespace LoggerManager

/-- A definition of the first loop, for the logger that has been looked up. -/
def configure (m : LoggerManager) (d : LogDefine) : Option LoggerManager := do
  let l := { m.getLogger d.name with level := d.level }
  let x := if d.formatter ≠ [] then l.setPattern m.heap d.formatter else (l, m.heap)
  let (l, heap, fresh) ← addAppenders d.appenders x.1.clearAppenders x.2 m.fresh
  return { setLogger m l d.name with heap, fresh }

/-- A definition of the second loop. -/
def disable (m : LoggerManager) (d : LogDefine) : LoggerManager :=
  m.setLogger { (m.getLogger d.name).clearAppenders with level := .other 100 } d.name

/-- `std::set::find`. -/
def findDefine (s : LogDefines) (d : LogDefine) : Option LogDefine := s.defs[OrdSet.find LogDefine.less d s.defs]?

/-- The first loop for a definition. If it is in both sets no logger is looked up: `none` is a call on a null pointer.
-/
def configureOne (old : LogDefines) (m : LoggerManager) (d : LogDefine) : Option LoggerManager :=
  match findDefine old d with
  | none => m.configure d
  | some it => if d = it then none else m.configure d

/-- The listener. -/
def listener (m : LoggerManager) (old new : LogDefines) : Option LoggerManager :=
  (new.defs.foldlM (configureOne old) m).map fun m =>
    old.defs.foldl (fun m d => if (findDefine new d).isNone then m.disable d else m) m

end LoggerManager

/-! ## What is to become of the loggers -/

namespace LoggerManager

/-- An appender belongs to one logger, and there are no appenders at unused addresses. -/
structure Owned (m : LoggerManager) : Prop where
  used : ∀ name l, m.loggers name = some l → ∀ a ∈ l.appenders, a < m.fresh
  apart : ∀ name name' l l', m.loggers name = some l → m.loggers name' = some l' → name ≠ name' →
    ∀ a ∈ l.appenders, a ∉ l'.appenders

/-- The logger of this name has the same level, formatter and appenders as before. -/
def SameLogger (m m' : LoggerManager) (name : Bytes) : Prop :=
  m'.loggers name = m.loggers name ∧ ∀ l, m.loggers name = some l → ∀ a ∈ l.appenders, m'.heap a = m.heap a

/-- The formatter of a definition, if it has a valid one. -/
def ownFormatter (pattern : Bytes) : Option LogFormatter :=
  if pattern ≠ [] ∧ (LogFormatter.init pattern).isError = false then some (.init pattern) else none

/-- The appender of a definition, in a logger with a formatter. -/
def wanted (formatter : Option LogFormatter) (a : LogAppenderDefine) : LogAppender where
  file := if a.type = 1 then some a.file else none
  level := a.level
  formatter := (ownFormatter a.formatter).or formatter
  hasFormatter := (ownFormatter a.formatter).isSome

/-- The logger has the level and the appenders of the definition, and its formatter if that is valid. -/
def Configured (m m' : LoggerManager) (d : LogDefine) : Prop :=
  ∃ l, m'.loggers d.name = some l ∧ l.level = d.level ∧
    l.formatter = (ownFormatter d.formatter).or (m.getLogger d.name).formatter ∧
    l.appenders.map m'.heap = d.appenders.map (wanted l.formatter)

/-- The logger writes nothing any more. -/
def Disabled (m' : LoggerManager) (d : LogDefine) : Prop :=
  ∃ l, m'.loggers d.name = some l ∧ l.level = .other 100 ∧ l.appenders = []

/-- The listener returns, and has changed the loggers as the two sets say. -/
def Applies (old new : LogDefines) (m : LoggerManager) : Prop :=
  ∃ m', m.listener old new = some m' ∧
    (∀ d ∈ new.defs, d ∉ old.defs → Configured m m' d) ∧
    (∀ d ∈ old.defs, d.name ∉ new.defs.map (·.name) → Disabled m' d) ∧
    ∀ name, (∀ d ∈ new.defs, d ∉ old.defs → d.name ≠ name) →
      (∀ d ∈ old.defs, d.name ∉ new.defs.map (·.name) → d.name ≠ name) → SameLogger m m' name

/-! ## Appenders of a definition -/

theorem make_eq {a : LogAppenderDefine} (h : a.type = 1 ∨ a.type = 2) :
    a.make = some { wanted none a with formatter := ownFormatter a.formatter } := by
  obtain ⟨type, level, formatter, file⟩ := a
  by_cases hvalid : formatter ≠ [] ∧ (LogFormatter.init formatter).isError = false
  · have hown : ownFormatter formatter = some (.init formatter) := if_pos hvalid
    obtain rfl | rfl := h <;> simp [LogAppenderDefine.make, wanted, hown, hvalid, LogAppender.setFormatter]
  · have hown : ownFormatter formatter = none := if_neg hvalid
    obtain rfl | rfl := h <;> simp only [LogAppenderDefine.make, wanted, hown, if_neg hvalid] <;> rfl

theorem addAppender_update (l : Logger) (heap : Nat → LogAppender) (fresh b : Nat) (a : LogAppenderDefine) :
    (l.addAppender (Function.update heap fresh { wanted none a with formatter := ownFormatter a.formatter }) fresh).2
      b =
      if b = fresh then wanted l.formatter a else heap b := by
  rw [Logger.addAppender_heap, Function.update_self, Function.update_apply]
  by_cases hb : b = fresh
  · rw [if_pos hb, if_pos hb]
    cases hown : ownFormatter a.formatter <;> simp [hb, wanted, hown]
  · simp [hb]

/-- **The appenders of a definition** are at the next addresses. -/
theorem addAppenders_spec {as : List LogAppenderDefine} (h : ∀ a ∈ as, a.type = 1 ∨ a.type = 2) (l : Logger)
    (heap : Nat → LogAppender) (fresh : Nat) : ∃ heap', addAppenders as l heap fresh =
        some ({ l with appenders := l.appenders ++ List.range' fresh as.length }, heap', fresh + as.length) ∧
      (∀ b < fresh, heap' b = heap b) ∧
      (List.range' fresh as.length).map heap' = as.map (wanted l.formatter) := by
  induction as generalizing l heap fresh with
  | nil => exact ⟨heap, by simp [addAppenders], fun _ _ => rfl, rfl⟩
  | cons a as ih =>
    rw [List.forall_mem_cons] at h
    have hheap := fun b => addAppender_update l heap fresh b a
    obtain ⟨heap', heq, hbefore, hmap⟩ := ih h.2
      (l.addAppender (Function.update heap fresh { wanted none a with formatter := ownFormatter a.formatter })
        fresh).1
      (l.addAppender (Function.update heap fresh { wanted none a with formatter := ownFormatter a.formatter })
        fresh).2
      (fresh + 1)
    refine ⟨heap', ?_, fun b hb => ?_, ?_⟩
    · rw [addAppenders, make_eq h.1]
      simp only [Option.bind_eq_bind, Option.bind_some, heq]
      simp [Logger.addAppender, List.range'_succ, Nat.add_assoc, Nat.add_comm 1]
    · rw [hbefore b (by omega), hheap, if_neg (by omega)]
    · rw [List.length_cons, List.range'_succ, List.map_cons, List.map_cons, hmap, hbefore fresh (by omega), hheap,
        if_pos rfl]
      rfl

/-! ## One definition -/

theorem setPattern_spec (l : Logger) (heap : Nat → LogAppender) (pattern : Bytes) : ∃ heap',
    (if pattern ≠ [] then l.setPattern heap pattern else (l, heap)) =
      ({ l with formatter := (ownFormatter pattern).or l.formatter }, heap') ∧
    ∀ b ∉ l.appenders, heap' b = heap b := by
  unfold Logger.setPattern
  by_cases hvalid : pattern ≠ [] ∧ (LogFormatter.init pattern).isError = false
  · have hown : ownFormatter pattern = some (.init pattern) := if_pos hvalid
    rw [if_pos hvalid.1, if_neg (by simp [hvalid.2]), hown]
    refine ⟨_, rfl, fun b hb => ?_⟩
    exact (l.setFormatter_heap heap _ b).trans (if_neg hb)
  · have hown : ownFormatter pattern = none := if_neg hvalid
    rw [hown]
    refine ⟨heap, ?_, fun _ _ => rfl⟩
    split
    next hne =>
      have herr : (LogFormatter.init pattern).isError = true := by simpa [hne] using hvalid
      rw [if_pos herr]
      rfl
    next => rfl

variable {m m' m'' : LoggerManager} {d : LogDefine} {name : Bytes}

theorem appenders_getLogger {a : Nat} (ha : a ∈ (m.getLogger name).appenders) :
    ∃ l, m.loggers name = some l ∧ a ∈ l.appenders := by
  unfold getLogger at ha
  cases hl : m.loggers name with
  | none =>
    rw [hl] at ha
    cases ha
  | some l =>
    rw [hl] at ha
    exact ⟨l, rfl, ha⟩

theorem Owned.setLogger (h : Owned m) {l : Logger} {heap : Nat → LogAppender} {fresh : Nat} (hfresh : m.fresh ≤ fresh)
    (hl : ∀ a ∈ l.appenders, m.fresh ≤ a ∧ a < fresh) : Owned { m.setLogger l name with heap, fresh } := by
  have hcases : ∀ {name' l'}, (m.setLogger l name).loggers name' = some l' →
      (name' = name ∧ l' = l) ∨ (name' ≠ name ∧ m.loggers name' = some l') := by
    intro name' l' heq
    simp only [LoggerManager.setLogger, Function.update_apply] at heq
    split at heq
    next hname => exact .inl ⟨hname, (Option.some.inj heq).symm⟩
    next hname => exact .inr ⟨hname, heq⟩
  constructor
  · intro name' l' heq a ha
    obtain ⟨-, rfl⟩ | ⟨-, heq⟩ := hcases heq
    · exact (hl a ha).2
    · exact Nat.lt_of_lt_of_le (h.used name' l' heq a ha) hfresh
  · intro name₁ name₂ l₁ l₂ heq₁ heq₂ hne a ha ha'
    obtain ⟨rfl, rfl⟩ | ⟨-, heq₁'⟩ := hcases heq₁
    · obtain ⟨rfl, -⟩ | ⟨-, heq₂'⟩ := hcases heq₂
      · exact hne rfl
      · have hlt := h.used name₂ l₂ heq₂' a ha'
        have hle := (hl a ha).1
        omega
    · obtain ⟨-, rfl⟩ | ⟨-, heq₂'⟩ := hcases heq₂
      · have hlt := h.used name₁ l₁ heq₁' a ha
        have hle := (hl a ha').1
        omega
      · exact h.apart name₁ name₂ l₁ l₂ heq₁' heq₂' hne a ha ha'

theorem SameLogger.refl (m : LoggerManager) (name : Bytes) : SameLogger m m name := ⟨rfl, fun _ _ _ _ => rfl⟩

theorem SameLogger.trans (h : SameLogger m m' name) (h' : SameLogger m' m'' name) : SameLogger m m'' name := by
  refine ⟨h'.1.trans h.1, fun l hl a ha => ?_⟩
  rw [h'.2 l (h.1.trans hl) a ha, h.2 l hl a ha]

theorem Configured.same_right (h : Configured m m' d) (hsame : SameLogger m' m'' d.name) : Configured m m'' d := by
  obtain ⟨l, hl, hlevel, hformatter, happenders⟩ := h
  refine ⟨l, hsame.1.trans hl, hlevel, hformatter, ?_⟩
  rw [← happenders]
  exact List.map_congr_left (hsame.2 l hl)

theorem Configured.same_left (h : Configured m' m'' d) (hsame : SameLogger m m' d.name) : Configured m m'' d := by
  obtain ⟨l, hl, hlevel, hformatter, happenders⟩ := h
  refine ⟨l, hl, hlevel, ?_, happenders⟩
  rw [hformatter, getLogger, getLogger, hsame.1]

theorem Disabled.same_right (h : Disabled m' d) (hsame : SameLogger m' m'' d.name) : Disabled m'' d := by
  obtain ⟨l, hl, hlevel, happenders⟩ := h
  exact ⟨l, hsame.1.trans hl, hlevel, happenders⟩

/-- The logger of a definition when it has been configured. -/
def configured (m : LoggerManager) (d : LogDefine) : Logger :=
  { m.getLogger d.name with
    level := d.level
    formatter := (ownFormatter d.formatter).or (m.getLogger d.name).formatter
    appenders := List.range' m.fresh d.appenders.length }

theorem configure_eq (hd : ∀ a ∈ d.appenders, a.type = 1 ∨ a.type = 2) : ∃ heap, m.configure d =
      some { m.setLogger (m.configured d) d.name with heap, fresh := m.fresh + d.appenders.length } ∧
    (∀ a < m.fresh, a ∉ (m.getLogger d.name).appenders → heap a = m.heap a) ∧
    (m.configured d).appenders.map heap = d.appenders.map (wanted (m.configured d).formatter) := by
  obtain ⟨heap, hpattern, hheap⟩ := setPattern_spec { m.getLogger d.name with level := d.level } m.heap d.formatter
  obtain ⟨heap', hadd, hbefore, hmap⟩ := addAppenders_spec hd
    (Logger.clearAppenders { m.getLogger d.name with
      level := d.level
      formatter := (ownFormatter d.formatter).or (m.getLogger d.name).formatter }) heap m.fresh
  refine ⟨heap', ?_, fun a ha hnot => (hbefore a ha).trans (hheap a hnot), hmap⟩
  unfold configure
  dsimp only
  rw [hpattern, hadd]
  rfl

/-- **A definition of the first loop.** -/
theorem configure_spec (h : Owned m) (hd : ∀ a ∈ d.appenders, a.type = 1 ∨ a.type = 2) :
    ∃ m', m.configure d = some m' ∧ Owned m' ∧ Configured m m' d ∧ ∀ name, name ≠ d.name → SameLogger m m' name := by
  obtain ⟨heap, heq, hheap, hmap⟩ := configure_eq (m := m) hd
  refine ⟨_, heq, ?_, ⟨m.configured d, Function.update_self _ _ _, rfl, rfl, hmap⟩, fun name hname => ?_⟩
  · refine h.setLogger (Nat.le_add_right _ _) fun a ha => ?_
    have hrange : a ∈ List.range' m.fresh d.appenders.length := ha
    rwa [List.mem_range'_1] at hrange
  · refine ⟨Function.update_of_ne hname _ _, fun l hl a ha => ?_⟩
    -- the appender is older than the new ones, and not one of this logger
    refine hheap a (h.used name l hl a ha) fun ha' => ?_
    obtain ⟨l', hl', ha'⟩ := appenders_getLogger ha'
    exact h.apart name d.name l l' hl hl' hname a ha ha'

/-- **A definition of the second loop.** -/
theorem disable_spec (h : Owned m) (d : LogDefine) : Owned (m.disable d) ∧ Disabled (m.disable d) d ∧
    ∀ name, name ≠ d.name → SameLogger m (m.disable d) name := by
  have hown : Owned { m.setLogger { (m.getLogger d.name).clearAppenders with level := .other 100 } d.name with
      heap := m.heap
      fresh := m.fresh } := by
    refine h.setLogger (Nat.le_refl m.fresh) fun a ha => ?_
    cases ha
  exact ⟨hown, ⟨_, Function.update_self _ _ _, rfl, rfl⟩,
    fun name hname => ⟨Function.update_of_ne hname _ _, fun _ _ _ _ => rfl⟩⟩

/-! ## The loops -/

theorem findDefine_eq (s : LogDefines) (d : LogDefine) : findDefine s d = s.defs.find? fun e => e.name == d.name := by
  refine OrdSet.getElem?_find s.sorted (fun e _ => ?_) fun e e' h h' => List.lt_trans h h'
  rw [beq_iff_eq]
  constructor
  · intro heq
    simp only [LogDefine.less, heq]
    exact ⟨List.lt_irrefl _, List.lt_irrefl _⟩
  · rintro ⟨hle, hge⟩
    exact List.le_antisymm hge hle

theorem names_nodup (s : LogDefines) : (s.defs.map (·.name)).Nodup := by
  rw [List.Nodup, List.pairwise_map]
  refine s.sorted.imp fun {a b} hless heq => ?_
  rw [LogDefine.less, heq] at hless
  exact List.lt_irrefl _ hless

theorem findDefine_of_mem {s : LogDefines} (hd : d ∈ s.defs) : findDefine s d = some d := by
  rw [findDefine_eq]
  cases hfind : s.defs.find? fun e => e.name == d.name with
  | none => exact absurd (beq_self_eq_true d.name) (List.find?_eq_none.mp hfind d hd)
  | some e =>
    have hname : e.name = d.name := by simpa using List.find?_some hfind
    rw [List.inj_on_of_nodup_map (names_nodup s) (List.mem_of_find?_eq_some hfind) hd hname]

theorem findDefine_isNone_iff (s : LogDefines) (d : LogDefine) :
    (findDefine s d).isNone = true ↔ d.name ∉ s.defs.map (·.name) := by
  rw [findDefine_eq, Option.isNone_iff_eq_none, List.find?_eq_none]
  simp

variable {old : LogDefines} {ds : List LogDefine}

theorem configureOne_of_mem (hd : d ∈ old.defs) : configureOne old m d = none := by
  rw [configureOne, findDefine_of_mem hd]
  exact if_pos rfl

theorem configureOne_of_notMem (hd : d ∉ old.defs) : configureOne old m d = m.configure d := by
  unfold configureOne
  split
  next => rfl
  next it hit =>
    refine if_neg fun heq => hd ?_
    rw [heq]
    exact List.mem_of_getElem? hit

/-- **The first loop**, when no definition is in both sets. -/
theorem foldlM_configureOne (h : Owned m)
    (hds : (ds.map (·.name)).Nodup) (hvalid : ∀ d ∈ ds, ∀ a ∈ d.appenders, a.type = 1 ∨ a.type = 2)
    (hnew : ∀ d ∈ ds, d ∉ old.defs) : ∃ m', ds.foldlM (configureOne old) m = some m' ∧ Owned m' ∧
      (∀ d ∈ ds, Configured m m' d) ∧ ∀ name, name ∉ ds.map (·.name) → SameLogger m m' name := by
  induction ds generalizing m with
  | nil => exact ⟨m, rfl, h, fun d hd => absurd hd List.not_mem_nil, fun name _ => .refl m name⟩
  | cons d ds ih =>
    rw [List.map_cons, List.nodup_cons] at hds
    rw [List.forall_mem_cons] at hvalid hnew
    obtain ⟨m₁, heq₁, hown₁, hconf₁, hsame₁⟩ := configure_spec h hvalid.1
    obtain ⟨m', heq, hown, hconf, hsame⟩ := ih hown₁ hds.2 hvalid.2 hnew.2
    refine ⟨m', ?_, hown, List.forall_mem_cons.mpr ⟨?_, fun e he => ?_⟩, fun name hname => ?_⟩
    · rw [List.foldlM_cons, configureOne_of_notMem hnew.1, heq₁]
      exact heq
    · exact hconf₁.same_right (hsame d.name hds.1)
    · refine (hconf e he).same_left (hsame₁ e.name fun hname => hds.1 ?_)
      exact hname ▸ List.mem_map_of_mem he
    · rw [List.map_cons, List.mem_cons, not_or] at hname
      exact (hsame₁ name hname.1).trans (hsame name hname.2)

/-- A definition in both sets is a call on a null pointer. -/
theorem foldlM_configureOne_eq_none (hd : d ∈ ds) (hold : d ∈ old.defs) : ds.foldlM (configureOne old) m = none := by
  induction ds generalizing m with
  | nil => cases hd
  | cons e ds ih =>
    rw [List.foldlM_cons]
    rcases List.mem_cons.mp hd with rfl | hd
    · rw [configureOne_of_mem hold]
      rfl
    · cases configureOne old m e with
      | none => rfl
      | some m₁ => exact ih hd

/-- **The second loop.** -/
theorem foldl_disable (new : LogDefines) (h : Owned m) (hds : (ds.map (·.name)).Nodup) :
    ∃ m', ds.foldl (fun m d => if (findDefine new d).isNone then m.disable d else m) m = m' ∧
      (∀ d ∈ ds, d.name ∉ new.defs.map (·.name) → Disabled m' d) ∧
      ∀ name, (∀ d ∈ ds, d.name ∉ new.defs.map (·.name) → d.name ≠ name) → SameLogger m m' name := by
  induction ds generalizing m with
  | nil => exact ⟨m, rfl, fun d hd => absurd hd List.not_mem_nil, fun name _ => .refl m name⟩
  | cons d ds ih =>
    rw [List.map_cons, List.nodup_cons] at hds
    have hother : ∀ e ∈ ds, e.name ∉ new.defs.map (·.name) → e.name ≠ d.name := fun e he _ heq =>
      hds.1 (heq ▸ List.mem_map_of_mem he)
    rw [List.foldl_cons]
    by_cases hnone : (findDefine new d).isNone = true
    · obtain ⟨hown₁, hdis₁, hsame₁⟩ := disable_spec h d
      obtain ⟨m', heq, hdis, hsame⟩ := ih hown₁ hds.2
      refine ⟨m', by rw [if_pos hnone]; exact heq, List.forall_mem_cons.mpr ⟨fun _ => ?_, hdis⟩, fun name hname => ?_⟩
      · exact hdis₁.same_right (hsame d.name hother)
      · rw [List.forall_mem_cons] at hname
        have hne : name ≠ d.name := (hname.1 ((findDefine_isNone_iff new d).mp hnone)).symm
        exact (hsame₁ name hne).trans (hsame name hname.2)
    · obtain ⟨m', heq, hdis, hsame⟩ := ih h hds.2
      refine ⟨m', by rw [if_neg hnone]; exact heq, List.forall_mem_cons.mpr ⟨fun hname => ?_, hdis⟩,
        fun name hname => ?_⟩
      · exact absurd ((findDefine_isNone_iff new d).mpr hname) hnone
      · rw [List.forall_mem_cons] at hname
        exact hsame name hname.2

end LoggerManager

open LoggerManager

/-- Two sets of definitions with valid appenders: from every manager whose appenders belong to one logger each, the
listener returns, configures the loggers that are new or different, disables those that are gone and leaves the others
as they are, exactly if no definition is in both sets. -/
theorem listener_iff (old new : LogDefines) (hvalid : ∀ d ∈ new.defs, ∀ a ∈ d.appenders, a.type = 1 ∨ a.type = 2) :
    (∀ m, Owned m → Applies old new m) ↔ ∀ d ∈ new.defs, d ∉ old.defs := by
  constructor
  · intro h d hd hold
    have hempty : Owned ⟨fun _ => none, fun _ => {}, 0⟩ :=
      ⟨fun _ _ hl => absurd hl (Option.some_ne_none _).symm, fun _ _ _ _ hl => absurd hl (Option.some_ne_none _).symm⟩
    obtain ⟨m', heq, -⟩ := h _ hempty
    rw [listener, foldlM_configureOne_eq_none hd hold] at heq
    cases heq
  · intro hnew m hm
    obtain ⟨m₁, heq₁, hown, hconf, hsame₁⟩ := foldlM_configureOne hm (names_nodup new) hvalid hnew
    obtain ⟨m', heq, hdis, hsame⟩ := foldl_disable new hown (names_nodup old)
    refine ⟨m', by rw [listener, heq₁]; exact congrArg some heq, fun d hd _ => ?_, hdis, fun name hnamed hgone => ?_⟩
    · refine (hconf d hd).same_right (hsame d.name fun e he hname heq => hname ?_)
      exact heq ▸ List.mem_map_of_mem hd
    · refine SameLogger.trans (hsame₁ name fun hmem => ?_) (hsame name hgone)
      obtain ⟨d, hd, hname⟩ := List.mem_map.mp hmem
      exact hnamed d hd (hnew d hd) hname

/-- Two loggers with an appender each. -/
def twoLoggers : LoggerManager where
  loggers := fun name => if name = str "a" then some { Logger.new name with level := .info, appenders := [0] }
    else if name = str "b" then some { Logger.new name with level := .info, appenders := [1] } else none
  heap := fun _ => {}
  fresh := 2

/-- A logger that changes, one that is gone, and one that is new. -/
theorem listener_iff_change : Owned twoLoggers ∧ Applies
    ⟨[{ name := str "a", level := .info, appenders := [{ type := 2 }] },
      { name := str "b", level := .info, appenders := [{ type := 2 }] }], by decide⟩
    ⟨[{ name := str "a", level := .warn, formatter := str "%m", appenders := [{ type := 2 }] },
      { name := str "c", level := .debug }], by decide⟩ twoLoggers := by
  have howned : Owned twoLoggers := by constructor <;> grind [twoLoggers]
  exact ⟨howned, (listener_iff _ _ (by decide)).mpr (by decide) _ howned⟩

/-- A logger that does not change, next to one that does. -/
theorem listener_unchanged : LoggerManager.listener ⟨fun _ => none, fun _ => {}, 0⟩
    ⟨[{ name := str "a", level := .info }], by decide⟩
    ⟨[{ name := str "a", level := .info }, { name := str "b", level := .info }], by decide⟩ = none := rfl

end Sherry
