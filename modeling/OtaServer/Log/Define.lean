import OtaServer.Config.Load
import OtaServer.Lib.OrdSet
import OtaServer.Log.Formatter

/-!
# Logger definitions as text (`sherry/log.cc`)

`LexicalCast` between `std::set<LogDefine>` and a string goes through a tree of `yaml-cpp`.

* `LogDefines`: a set of definitions, ordered by name.
* `toYaml`, `fromYaml`: the two directions, between the set and the tree. `YamlCodec`: trees and texts.
* `readBack`: what becomes of a definition on the way there and back. `fromYaml_toYaml`.
* `lexicalCast_iff`: a set comes back exactly if its definitions are `Lasting`.
-/

namespace Sherry

open Lib

/-! ## Model -/

/-- `LogAppenderDefine`. The type is 1 for a file and 2 for the standard output. -/
structure LogAppenderDefine where
  type : Nat := 0
  level : LogLevel := .unknow
  formatter : Bytes := []
  file : Bytes := []
  deriving DecidableEq

/-- `LogDefine`. -/
structure LogDefine where
  name : Bytes
  level : LogLevel
  formatter : Bytes := []
  appenders : List LogAppenderDefine := []
  deriving DecidableEq

/-- `LogDefine::operator<`. -/
def LogDefine.less (a b : LogDefine) : Prop := a.name < b.name

instance : DecidableRel LogDefine.less := fun a b => inferInstanceAs (Decidable (a.name < b.name))

/-- `std::set<LogDefine>`. -/
structure LogDefines where
  defs : List LogDefine
  sorted : OrdSet.Sorted LogDefine.less defs

namespace Yaml

/-- A node that `operator[]` has been used on to set entries. -/
def ofEntries : List (Bytes × Yaml) → Yaml
  | [] => .null
  | e :: es => .map (e :: es)

/-- A node that `push_back` has been used on. -/
def ofItems : List Yaml → Yaml
  | [] => .null
  | y :: ys => .sequence (y :: ys)

/-- `node[key]`, if it is defined. -/
def get? (key : Bytes) : Yaml → Option Yaml
  | .map entries => (entries.find? (·.1 == key)).map (·.2)
  | .null | .scalar _ | .sequence _ => none

/-- `node[0]` to `node[node.size() - 1]`, of a sequence or an empty node. -/
def items : Yaml → List Yaml
  | .sequence ys => ys
  | .null | .scalar _ | .map _ => []

/-- `as<std::string>`; `none` is an exception. -/
def asString : Yaml → Option Bytes
  | .scalar text => some text
  | .null | .sequence _ | .map _ => none

end Yaml

/-- `na`. The level is written if the logger has one. -/
def appenderYaml (level : LogLevel) (a : LogAppenderDefine) : Yaml :=
  .ofEntries (
    (if a.type = 1 then [(str "type", .scalar (str "FileLogAppender")), (str "file", .scalar a.file)]
      else if a.type = 2 then [(str "type", .scalar (str "StdoutLogAppender"))]
      else []) ++
    (if level = .unknow then [] else [(str "level", .scalar a.level.toString)]) ++
    if a.formatter = [] then [] else [(str "formatter", .scalar a.formatter)])

/-- `n`. The formatter is written if it is empty. -/
def defineYaml (d : LogDefine) : Yaml :=
  .ofEntries (
    [(str "name", .scalar d.name)] ++
    (if d.level = .unknow then [] else [(str "level", .scalar d.level.toString)]) ++
    (if d.formatter = [] then [(str "formatter", .scalar d.formatter)] else []) ++
    if d.appenders = [] then [] else [(str "appenders", .ofItems (d.appenders.map (appenderYaml d.level)))])

/-- `LexicalCast<std::set<LogDefine>, std::string>`, the tree. -/
def toYaml (s : LogDefines) : Yaml := .ofItems (s.defs.map defineYaml)

/-- The text of an entry, or `other` if there is none. -/
def entryOr (n : Yaml) (key other : Bytes) : Option Bytes :=
  match n.get? key with
  | some x => x.asString
  | none => some other

/-- An appender of the tree; the inner `none` is one that is left out. -/
def readAppender (a : Yaml) : Option (Option LogAppenderDefine) :=
  match a.get? (str "type") with
  | none => some none
  | some x => do
    let type ← x.asString
    if type = str "FileLogAppender" then
      match a.get? (str "file") with
      | none => return none
      | some y => do
        let file ← y.asString
        let formatter ← entryOr a (str "formatter") []
        return some { type := 1, file, formatter }
    else if type = str "StdoutLogAppender" then return some { type := 2 }
    else return none

/-- A logger of the tree. One without appenders is not put into the set. -/
def readDefine (n : Yaml) : Option (Option LogDefine) :=
  match n.get? (str "name") with
  | none => some none
  | some x => do
    let name ← x.asString
    let level ← entryOr n (str "level") []
    let formatter ← entryOr n (str "formatter") []
    match n.get? (str "appenders") with
    | none => return none
    | some as => do
      let appenders ← as.items.mapM readAppender
      return some { name, level := .fromString level, formatter, appenders := appenders.filterMap id }

/-- `LexicalCast<std::string, std::set<LogDefine>>`, from the tree. -/
def fromYaml (node : Yaml) : Option (List LogDefine) := do
  let defs ← node.items.mapM readDefine
  return (defs.filterMap id).foldl (fun s d => (OrdSet.insert LogDefine.less d s).1) []

/-- How `yaml-cpp` prints trees to texts and loads them. -/
structure YamlCodec (Text : Type) where
  print : Yaml → Text
  load : Text → Yaml
  load_print : ∀ y, load (print y) = y

/-- The set comes back from its text. -/
def RoundTrips {Text : Type} (codec : YamlCodec Text) (s : LogDefines) : Prop :=
  fromYaml (codec.load (codec.print (toYaml s))) = some s.defs

/-- A file or the standard output, and a level with a name. -/
structure LogAppenderDefine.Valid (a : LogAppenderDefine) : Prop where
  type : a.type = 1 ∨ a.type = 2
  level : ∀ v, a.level ≠ .other v

/-- A level with a name, and valid appenders. -/
structure LogDefine.Valid (d : LogDefine) : Prop where
  level : ∀ v, d.level ≠ .other v
  appenders : ∀ a ∈ d.appenders, a.Valid

/-- An appender without a level of its own, which has a formatter only if it writes to a file. -/
def LogAppenderDefine.lasting (a : LogAppenderDefine) : Bool :=
  a.level == .unknow && (a.type != 2 || a.formatter == [] && a.file == [])

/-- A definition with appenders and without a formatter. -/
def LogDefine.lasting (d : LogDefine) : Bool :=
  d.formatter == [] && d.appenders != [] && d.appenders.all (·.lasting)

/-! ## There and back -/

/-- What becomes of an appender. -/
def LogAppenderDefine.readBack (a : LogAppenderDefine) : LogAppenderDefine :=
  if a.type = 1 then { type := 1, file := a.file, formatter := a.formatter } else { type := 2 }

/-- What becomes of a definition. -/
def LogDefine.readBack (d : LogDefine) : Option LogDefine :=
  if d.appenders = [] then none
  else some { name := d.name, level := d.level, formatter := [], appenders := d.appenders.map (·.readBack) }

theorem fromString_toString {level : LogLevel} (h : ∀ v, level ≠ .other v) :
    LogLevel.fromString (if level = .unknow then [] else level.toString) = level := by
  cases level with
  | other v => exact absurd rfl (h v)
  | unknow | debug | info | warn | error | fatal => decide

theorem readAppender_appenderYaml (level : LogLevel) {a : LogAppenderDefine} (h : a.Valid) :
    readAppender (appenderYaml level a) = some (some a.readBack) := by
  obtain ⟨type, alevel, formatter, file⟩ := a
  unfold appenderYaml LogAppenderDefine.readBack
  -- which entries there are does not change the ones that are read
  by_cases hlevel : level = .unknow <;> by_cases hformatter : formatter = [] <;> obtain rfl | rfl := h.type <;>
    simp only [hlevel, hformatter, if_true, if_false] <;> rfl

theorem reads_defineYaml (d : LogDefine) : (defineYaml d).get? (str "name") = some (.scalar d.name) ∧
    entryOr (defineYaml d) (str "level") [] = some (if d.level = .unknow then [] else d.level.toString) ∧
    entryOr (defineYaml d) (str "formatter") [] = some [] ∧
    (defineYaml d).get? (str "appenders") =
      if d.appenders = [] then none else some (.ofItems (d.appenders.map (appenderYaml d.level))) := by
  obtain ⟨name, level, formatter, appenders⟩ := d
  unfold defineYaml
  by_cases hlevel : level = .unknow <;> by_cases hformatter : formatter = [] <;>
    by_cases happenders : appenders = [] <;> simp only [hlevel, hformatter, happenders, if_true, if_false] <;>
    exact ⟨rfl, rfl, rfl, rfl⟩

theorem items_ofItems (ys : List Yaml) : (Yaml.ofItems ys).items = ys := by
  cases ys <;> rfl

theorem mapM_map_eq {α β γ : Type} {f : β → Option γ} {g : α → β} {k : α → γ} {l : List α}
    (h : ∀ x ∈ l, f (g x) = some (k x)) : (l.map g).mapM f = some (l.map k) := by
  induction l with
  | nil => rfl
  | cons x l ih =>
    rw [List.forall_mem_cons] at h
    simp [h.1, ih h.2]

theorem readDefine_defineYaml {d : LogDefine} (h : d.Valid) : readDefine (defineYaml d) = some d.readBack := by
  have hread : (d.appenders.map (appenderYaml d.level)).mapM readAppender =
      some (d.appenders.map fun a => some a.readBack) :=
    mapM_map_eq fun a ha => readAppender_appenderYaml d.level (h.appenders a ha)
  obtain ⟨hname, hlevel, hformatter, happs⟩ := reads_defineYaml d
  rw [readDefine, hname]
  simp only [Yaml.asString, hlevel, hformatter, happs, Option.bind_eq_bind, Option.bind_some]
  unfold LogDefine.readBack
  by_cases happenders : d.appenders = []
  · rw [if_pos happenders, if_pos happenders]
    rfl
  · rw [if_neg happenders, if_neg happenders]
    simp [items_ofItems, hread, fromString_toString h.level, List.filterMap_map]

theorem name_of_readBack {d e : LogDefine} (h : d.readBack = some e) : e.name = d.name := by
  unfold LogDefine.readBack at h
  split at h
  · cases h
  · cases h
    rfl

/-- **The set that comes back.** -/
theorem fromYaml_toYaml {s : LogDefines} (h : ∀ d ∈ s.defs, d.Valid) :
    fromYaml (toYaml s) = some (s.defs.filterMap (·.readBack)) := by
  have hread : (s.defs.map defineYaml).mapM readDefine = some (s.defs.map (·.readBack)) :=
    mapM_map_eq fun d hd => readDefine_defineYaml (h d hd)
  have hsorted : OrdSet.Sorted LogDefine.less ([] ++ s.defs.filterMap (·.readBack)) := by
    refine List.Pairwise.filterMap _ (fun d d' hless e he e' he' => ?_) s.sorted
    rw [LogDefine.less, name_of_readBack he, name_of_readBack he']
    exact hless
  rw [fromYaml, toYaml, items_ofItems, hread]
  simp only [Option.bind_eq_bind, Option.bind_some, List.filterMap_map, Function.id_comp]
  rw [OrdSet.foldl_insert hsorted]
  rfl

theorem filterMap_eq_self_iff {α : Type} {f : α → Option α} {l : List α} :
    l.filterMap f = l ↔ ∀ x ∈ l, f x = some x := by
  constructor
  · intro h
    induction l with
    | nil => simp
    | cons x l ih =>
      rw [List.filterMap_cons] at h
      split at h
      next hx =>
        have hlen := congrArg List.length h
        have hle := List.length_filterMap_le f l
        simp at hlen
        omega
      next y hx =>
        obtain ⟨rfl, hl⟩ := List.cons.inj h
        exact List.forall_mem_cons.mpr ⟨hx, ih hl⟩
  · intro h
    rw [List.filterMap_congr h]
    simp

theorem LogAppenderDefine.readBack_eq_iff {a : LogAppenderDefine} (h : a.Valid) :
    a.readBack = a ↔ a.lasting = true := by
  obtain ⟨type, level, formatter, file⟩ := a
  have hlevel : .unknow = level ↔ level = .unknow := eq_comm
  obtain rfl | rfl := h.type
  · simp [readBack, lasting, hlevel]
  · have hformatter : [] = formatter ↔ formatter = [] := eq_comm
    have hfile : [] = file ↔ file = [] := eq_comm
    simp [readBack, lasting, hlevel, hformatter, hfile]

theorem LogDefine.readBack_eq_iff {d : LogDefine} (h : d.Valid) : d.readBack = some d ↔ d.lasting = true := by
  have hmap : d.appenders.map (·.readBack) = d.appenders ↔ ∀ a ∈ d.appenders, a.lasting = true := by
    have hid : d.appenders.map (·.readBack) = d.appenders ↔ ∀ a ∈ d.appenders, a.readBack = a := by
      have := List.map_inj_left (f := (·.readBack)) (g := id) (l := d.appenders)
      rwa [List.map_id] at this
    rw [hid]
    exact forall₂_congr fun a ha => LogAppenderDefine.readBack_eq_iff (h.appenders a ha)
  obtain ⟨name, level, formatter, appenders⟩ := d
  by_cases happenders : appenders = []
  · simp [readBack, lasting, happenders]
  · have hformatter : [] = formatter ↔ formatter = [] := eq_comm
    simp [readBack, lasting, happenders, hmap, hformatter]

/-- Any set of definitions with known levels and appenders, and any faithful printing of trees: the set comes back
from its text exactly if all its definitions have appenders and no formatter, and their appenders have no levels and,
on the standard output, no formatters. -/
theorem lexicalCast_iff {Text : Type} (codec : YamlCodec Text) (s : LogDefines) (h : ∀ d ∈ s.defs, d.Valid) :
    RoundTrips codec s ↔ ∀ d ∈ s.defs, d.lasting = true := by
  rw [RoundTrips, codec.load_print, fromYaml_toYaml h, Option.some_inj, filterMap_eq_self_iff]
  exact forall₂_congr fun d hd => LogDefine.readBack_eq_iff (h d hd)

/-- A logger with a file and the standard output. -/
theorem lexicalCast_iff_file : RoundTrips (⟨id, id, fun _ => rfl⟩ : YamlCodec Yaml)
    ⟨[{ name := str "root", level := .info,
        appenders := [{ type := 1, file := str "a.log", formatter := str "%m" }, { type := 2 }] }],
      List.pairwise_singleton _ _⟩ := by
  refine (lexicalCast_iff _ _ fun d hd => ?_).mpr (by decide)
  obtain rfl := List.mem_singleton.mp hd
  refine ⟨fun v => LogLevel.noConfusion, fun a ha => ?_⟩
  rcases List.mem_pair.mp ha with rfl | rfl
  · exact ⟨.inl rfl, fun v => LogLevel.noConfusion⟩
  · exact ⟨.inr rfl, fun v => LogLevel.noConfusion⟩

/-- A logger without appenders is lost, and so are the formatter of a logger and the level of an appender. -/
theorem lexicalCast_loses :
    fromYaml (toYaml ⟨[{ name := str "a", level := .info }], List.pairwise_singleton _ _⟩) = some [] ∧
    fromYaml (toYaml ⟨[{
        name := str "b", level := .info, formatter := str "%m", appenders := [{ type := 2, level := .warn }] }],
        List.pairwise_singleton _ _⟩) =
      some [{ name := str "b", level := .info, formatter := [], appenders := [{ type := 2, level := .unknow }] }] ∧
    ¬ RoundTrips (⟨id, id, fun _ => rfl⟩ : YamlCodec Yaml)
      ⟨[{ name := str "a", level := .info }], List.pairwise_singleton _ _⟩ := by
  refine ⟨rfl, rfl, fun h => ?_⟩
  cases h

end Sherry
