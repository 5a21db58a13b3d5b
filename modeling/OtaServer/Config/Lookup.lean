import OtaServer.Config.Load
import OtaServer.Config.Var

/-!
# Looking up a configuration variable (`sherry/config.h`)

`Config::Lookup` with a default logs that a variable of the name and the type exists, but does not return it: it goes
on, and makes a new variable in its place. The pointers that were returned before keep the old one.

* `Config.lookup`: as the code has it. `Registry`: the variables, and the pointers that `Lookup` has returned.
* `Registry.Kept`: what a repeated lookup is to do. `Registry.Shared`: the pointers for a name are the variable that
  is registered under it. `lookup_kept_iff`.
-/

namespace Sherry

open Lib

variable {T V : Type}

namespace Config

variable {s : Config (ConfigVar T V)} {name : Bytes} {ty : T} {a : Nat} {dflt : V}

/-- The variable of the name has the type. -/
def Registered (s : Config (ConfigVar T V)) (name : Bytes) (ty : T) (a : Nat) : Prop :=
  s.lookupBase name = some a ∧ s.vars[a]?.map (·.ty) = some ty

/-- A new variable is put under the name, if the name is a valid one. -/
def create (s : Config (ConfigVar T V)) (name : Bytes) (ty : T) (dflt : V) :
    Config (ConfigVar T V) × Except Bytes (Option Nat) :=
  if h : validName name = true then (s.assign name { ty, val := dflt } h, .ok (some s.vars.length))
  else (s, .error name)

/-- `Config::Lookup(name, default_value)`: a pointer, the null pointer, or an exception. -/
def lookup [DecidableEq T] (s : Config (ConfigVar T V)) (name : Bytes) (ty : T) (dflt : V) :
    Config (ConfigVar T V) × Except Bytes (Option Nat) :=
  match s.lookupBase name with
  | some a =>
    -- a variable of the type is only logged
    if s.vars[a]?.map (·.ty) = some ty then s.create name ty dflt
    else (s, .ok none)
  | none => s.create name ty dflt

/-- A lookup makes a new variable, for a name that is free or has a variable of the type, or it changes nothing. -/
theorem lookup_cases [DecidableEq T] (s : Config (ConfigVar T V)) (name : Bytes) (ty : T) (dflt : V) :
    (∃ h, s.lookup name ty dflt = (s.assign name { ty, val := dflt } h, .ok (some s.vars.length)) ∧
        (s.lookupBase name = none ∨ ∃ a, s.Registered name ty a)) ∨
      (∃ e, s.lookup name ty dflt = (s, e) ∧ ∀ a, e ≠ .ok (some a)) ∧ ∀ a, ¬s.Registered name ty a := by
  have hcreate : (∃ h, s.create name ty dflt = (s.assign name { ty, val := dflt } h, .ok (some s.vars.length))) ∨
      s.create name ty dflt = (s, .error name) ∧ validName name = false := by
    unfold create
    split
    · next h => exact .inl ⟨h, rfl⟩
    · next h => exact .inr ⟨rfl, Bool.eq_false_iff.mpr h⟩
  unfold lookup
  split
  · next a ha =>
    split
    · next hty =>
      obtain ⟨h, hc⟩ | ⟨-, hinvalid⟩ := hcreate
      · exact .inl ⟨h, hc, .inr ⟨a, ha, hty⟩⟩
      · rw [s.valid ha] at hinvalid
        cases hinvalid
    · next hty =>
      refine .inr ⟨⟨_, rfl, fun _ h => ?_⟩, fun a' h => ?_⟩
      · cases h
      · cases ha.symm.trans h.1
        exact hty h.2
  · next hnone =>
    obtain ⟨h, hc⟩ | ⟨hc, -⟩ := hcreate
    · exact .inl ⟨h, hc, .inl hnone⟩
    · refine .inr ⟨⟨_, hc, fun _ h => ?_⟩, fun a h => ?_⟩
      · cases h
      · cases hnone.symm.trans h.1

end Config

/-- The variables, `s_fun_id` for each type, and the pointers that `Lookup` has returned, with their names. -/
structure Registry (T V : Type) where
  config : Config (ConfigVar T V)
  funId : T → Nat
  handles : List (Bytes × Nat)

/-- The calls on `Config`. -/
inductive ConfigOp (T V : Type) where
  | lookup (name : Bytes) (ty : T) (dflt : V)
  | loadFromYaml (throws : Nat → V → V → Bool) (root : Yaml)
  | setValue (throws : Nat → V → V → Bool) (a : Nat) (v : V)
  | addListener (a : Nat)

namespace Registry

/-- No variable and no pointer to one. -/
def empty : Registry T V := ⟨.empty, fun _ => 0, []⟩

/-- A pointer is returned for the name. -/
def returns (s : Registry T V) (name : Bytes) : Config (ConfigVar T V) × Except Bytes (Option Nat) → Registry T V
  | (config, .ok (some a)) => { s with config, handles := (name, a) :: s.handles }
  | (config, _) => { s with config }

/-- One call. -/
def step [DecidableEq T] [DecidableEq V] (print : Yaml → Bytes) (fromStr : T → Bytes → Option V) (s : Registry T V) :
    ConfigOp T V → Registry T V
  | .lookup name ty dflt => s.returns name (s.config.lookup name ty dflt)
  | .loadFromYaml throws root =>
    { s with config := (s.config.loadFromYaml print (ConfigVar.fromString fromStr throws) root).1 }
  | .setValue throws a v => { s with config := s.config.modify a (·.setValue throws v) }
  | .addListener a =>
    match s.config.vars[a]? with
    | some x =>
      { s with
        config := s.config.modify a fun x => { x with cbs := x.cbs ++ [s.funId x.ty + 1] }
        funId := fun ty => if ty = x.ty then s.funId ty + 1 else s.funId ty }
    | none => s

/-- A repeated lookup returns the variable that is registered, and leaves it as it is. -/
def Kept [DecidableEq T] (s : Registry T V) : ConfigOp T V → Prop
  | .lookup name ty dflt => ∀ a, s.config.Registered name ty a →
    (s.config.lookup name ty dflt).2 = .ok (some a) ∧
      (s.config.lookup name ty dflt).1.vars[a]? = s.config.vars[a]?
  | _ => True

/-- Every pointer that was returned for a name is the variable that is registered under it. -/
def Shared (s : Registry T V) : Prop := ∀ h ∈ s.handles, s.config.lookupBase h.1 = some h.2

/-- The lookup is not one of a variable that is registered. -/
def First (s : Registry T V) : ConfigOp T V → Prop
  | .lookup name ty _ => ∀ a, ¬s.config.Registered name ty a
  | _ => True

/-- What is registered was returned. -/
structure LookupInv (s : Registry T V) : Prop where
  shared : s.Shared
  returned : ∀ {name a}, s.config.lookupBase name = some a → (name, a) ∈ s.handles

variable {s s' : Registry T V}

theorem LookupInv.keep (h : LookupInv s) (hdatas : s'.config.datas = s.config.datas)
    (hhandles : s'.handles = s.handles) : LookupInv s' := by
  refine ⟨fun e he => ?_, fun {name a} ha => ?_⟩
  · rw [hhandles] at he
    rw [Config.lookupBase, hdatas]
    exact h.shared e he
  · rw [Config.lookupBase, hdatas] at ha
    rw [hhandles]
    exact h.returned ha

theorem LookupInv.assign {name : Bytes} {x : ConfigVar T V} (h : LookupInv s) (hvalid : validName name = true)
    (hfree : s.config.lookupBase name = none) :
    LookupInv { s with
      config := s.config.assign name x hvalid, handles := (name, s.config.vars.length) :: s.handles } := by
  refine ⟨fun e he => ?_, fun {name' a} ha => ?_⟩
  · obtain rfl | he := List.mem_cons.mp he
    · exact AList.lookup_insert _
    · have hold := h.shared e he
      have hne : e.1 ≠ name := by
        intro heq
        rw [heq, hfree] at hold
        cases hold
      exact (AList.lookup_insert_ne hne).trans hold
  · obtain ⟨rfl, rfl⟩ | hold := Config.lookup_insert_cases ha
    · exact List.mem_cons_self
    · exact List.mem_cons_of_mem _ (h.returned hold)

/-- A variable takes the place of another: the pointers to that one are left behind. -/
theorem LookupInv.not_shared {name : Bytes} {x : ConfigVar T V} {a : Nat} (h : LookupInv s)
    (hvalid : validName name = true) (ha : s.config.lookupBase name = some a) :
    ¬Shared { s with
      config := s.config.assign name x hvalid, handles := (name, s.config.vars.length) :: s.handles } := by
  intro hshared
  have hnew : (s.config.datas.insert name s.config.vars.length).lookup name = some a :=
    hshared (name, a) (List.mem_cons_of_mem _ (h.returned ha))
  rw [AList.lookup_insert] at hnew
  have := s.config.alive ha
  exact absurd (Option.some.inj hnew) (by omega)

section

variable [DecidableEq T] [DecidableEq V] {print : Yaml → Bytes} {fromStr : T → Bytes → Option V}

/-- A first lookup, or a step of another kind, keeps the pointers; any other lookup does not. -/
theorem LookupInv.step (h : LookupInv s) (op : ConfigOp T V) :
    (First s op → LookupInv (step print fromStr s op)) ∧ ((step print fromStr s op).Shared → First s op) := by
  cases op with
  | lookup name ty dflt =>
    rw [Registry.step]
    obtain ⟨hvalid, heq, hfree | ⟨a, ha⟩⟩ | ⟨⟨e, heq, he⟩, hfirst⟩ := s.config.lookup_cases name ty dflt
    · rw [heq]
      refine ⟨fun _ => h.assign hvalid hfree, fun _ a ha => ?_⟩
      cases hfree.symm.trans ha.1
    · rw [heq]
      exact ⟨fun hfirst => absurd ha (hfirst a), fun hshared => absurd hshared (h.not_shared hvalid ha.1)⟩
    · rw [heq]
      refine ⟨fun _ => ?_, fun _ => hfirst⟩
      rw [returns]
      · exact h.keep rfl rfl
      · exact he
  | loadFromYaml throws root =>
    exact ⟨fun _ => h.keep (Config.loadFromYaml_datas root) rfl, fun _ => trivial⟩
  | setValue throws a v => exact ⟨fun _ => h.keep rfl rfl, fun _ => trivial⟩
  | addListener a =>
    refine ⟨fun _ => ?_, fun _ => trivial⟩
    rw [Registry.step]
    split
    · exact h.keep rfl rfl
    · exact h

end

end Registry

/-- **A lookup is repeated.** Over a run, repeated lookups return the variable that is registered, and all pointers to
a name are that variable, exactly when no lookup is repeated. -/
theorem lookup_kept_iff [DecidableEq T] [DecidableEq V] (print : Yaml → Bytes) (fromStr : T → Bytes → Option V)
    {r : List (ConfigOp T V × Registry T V)}
    (hr : Run (fun s op s' => Registry.step print fromStr s op = s') .empty r) :
    Meets Registry.Kept .empty r ∧ Reached Registry.Shared r ↔ Meets Registry.First .empty r := by
  have hempty : Registry.LookupInv (.empty : Registry T V) :=
    ⟨fun e he => absurd he List.not_mem_nil, fun ha => absurd ha Config.not_lookup_empty⟩
  refine Run.meets_reached_iff (I := Registry.LookupInv) (fun s op s' hs hstep => ?_)
    (fun s op s' hs hfirst hstep => ?_) hr hempty
  · subst hstep
    refine ⟨fun h => (hs.step op).2 h.2, fun hfirst => ⟨?_, ((hs.step op).1 hfirst).shared⟩⟩
    cases op with
    | lookup name ty dflt => exact fun a ha => absurd ha (hfirst a)
    | loadFromYaml | setValue | addListener => trivial
  · subst hstep
    exact (hs.step op).1 hfirst

/-- Two names are looked up, and one of them is set. -/
theorem lookup_kept_two : ∃ r, Run (fun s op s' => Registry.step (fun _ => []) (fun _ text => some text) s op = s')
        (.empty : Registry Unit Bytes) r ∧ (lastState .empty r).handles.length = 2 ∧ Reached Registry.Shared r := by
  let ops : List (ConfigOp Unit Bytes) := [.lookup (str "p") () (str "1"), .setValue (fun _ _ _ => false) 0 (str "3"),
    .lookup (str "q") () (str "1")]
  have hr := run_trace (Registry.step (fun _ => []) (fun _ text => some text)) (.empty : Registry Unit Bytes) ops
  refine ⟨_, hr, by decide +kernel, ((lookup_kept_iff _ _ hr).mpr ⟨fun a ha => ?_, trivial, fun a ha => ?_,
    trivial⟩).2⟩
  · cases ha.1
  · cases ha.1

/-- `p` is looked up twice, and then loaded: the first pointer does not see the new value. -/
theorem lookup_twice_detached :
    ∃ r, Run (fun s op s' => Registry.step (fun _ => []) (fun _ text => some text) s op = s')
        (.empty : Registry Unit Bytes) r ∧ ¬Reached Registry.Shared r ∧
      (lastState .empty r).handles = [(str "p", 1), (str "p", 0)] ∧
      (lastState .empty r).config.vars.map (·.val) = [str "1", str "2"] := by
  let ops : List (ConfigOp Unit Bytes) := [.lookup (str "p") () (str "1"), .lookup (str "p") () (str "1"),
    .loadFromYaml (fun _ _ _ => false) (.map [(str "p", .scalar (str "2"))])]
  have hr := run_trace (Registry.step (fun _ => []) (fun _ text => some text)) (.empty : Registry Unit Bytes) ops
  refine ⟨_, hr, fun h => ?_, by decide +kernel, by decide +kernel⟩
  have hshared : (some 1 : Option Nat) = some 0 := h.2.1 (str "p", 0) (by decide +kernel)
  cases hshared

end Sherry
