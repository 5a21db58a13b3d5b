import Mathlib.Data.List.Induction
import OtaServer.Http.Message
import OtaServer.Lib.Updates

/-!
# Headers, parameters and cookies of a request (`sherry/http/http.h`, `sherry/http/http.cc`)

A request has three maps with the same comparator, and for each of them the same seven accessors.

* `StoredRequest`: the accessors as the code has them. `getParamAs`, `checkGetParamAs`, `getCookieAs` and
  `checkGetCookieAs` look into the map of the headers.
* `lastSet`: the value that a history of assignments and deletions left under a key, read off the history alone.
  `find?_run`: the maps hold just that.
* `Stored`: at every point of a history the four ways to read a store agree on that value, and an operation on another
  store changes none of them. `stored_iff` says for which stores, keys and histories.
-/

namespace Sherry.Http

open Lib

/-! ## The accessors of one map -/

namespace HeaderMap

variable {T : Type}

/-- The value of a key, or `dflt`. -/
def get (m : HeaderMap) (key dflt : Bytes) : Bytes := (m.find? key).getD dflt

/-- Whether the key is there, and what `*val` is then; `val` can be the null pointer. -/
def has (m : HeaderMap) (key : Bytes) (val : Option Bytes) : Bool × Option Bytes :=
  match m.find? key with
  | none => (false, val)
  | some v => (true, val.map fun _ => v)

/-- `getAs`. The cast is `none` where `boost::lexical_cast` throws. -/
def getAs (lexicalCast : Bytes → Option T) (m : HeaderMap) (key : Bytes) (dflt : T) : T :=
  match m.find? key with
  | none => dflt
  | some v => (lexicalCast v).getD dflt

/-- `checkGetAs`: what it returns, and what `val` is then. -/
def checkGetAs (lexicalCast : Bytes → Option T) (m : HeaderMap) (key : Bytes) (dflt : T) : Bool × T :=
  match m.find? key with
  | none => (false, dflt)
  | some v =>
    match lexicalCast v with
    | some x => (true, x)
    | none => (false, dflt)

end HeaderMap

/-- `HttpRequest` with the maps that its text does not have. -/
structure StoredRequest extends HttpRequest where
  params : HeaderMap := .empty
  cookies : HeaderMap := .empty

namespace StoredRequest

/-- A header, or `dflt`. -/
def getHeader (r : StoredRequest) (key dflt : Bytes) : Bytes := HeaderMap.get r.headers key dflt
/-- A parameter, or `dflt`. -/
def getParam (r : StoredRequest) (key dflt : Bytes) : Bytes := HeaderMap.get r.params key dflt
/-- A cookie, or `dflt`. -/
def getCookie (r : StoredRequest) (key dflt : Bytes) : Bytes := HeaderMap.get r.cookies key dflt

/-- Sets a header. -/
def setHeader (r : StoredRequest) (key val : Bytes) : StoredRequest := { r with headers := r.headers.set key val }
/-- Sets a parameter. -/
def setParam (r : StoredRequest) (key val : Bytes) : StoredRequest := { r with params := r.params.set key val }
/-- Sets a cookie. -/
def setCookie (r : StoredRequest) (key val : Bytes) : StoredRequest := { r with cookies := r.cookies.set key val }

/-- Deletes a header. -/
def delHeader (r : StoredRequest) (key : Bytes) : StoredRequest := { r with headers := r.headers.erase key }
/-- Deletes a parameter. -/
def delParam (r : StoredRequest) (key : Bytes) : StoredRequest := { r with params := r.params.erase key }
/-- Deletes a cookie. -/
def delCookie (r : StoredRequest) (key : Bytes) : StoredRequest := { r with cookies := r.cookies.erase key }

/-- Whether there is a header. -/
def hasHeader (r : StoredRequest) (key : Bytes) (val : Option Bytes) : Bool × Option Bytes :=
  HeaderMap.has r.headers key val
/-- Whether there is a parameter. -/
def hasParam (r : StoredRequest) (key : Bytes) (val : Option Bytes) : Bool × Option Bytes :=
  HeaderMap.has r.params key val
/-- Whether there is a cookie. -/
def hasCookie (r : StoredRequest) (key : Bytes) (val : Option Bytes) : Bool × Option Bytes :=
  HeaderMap.has r.cookies key val

section As

variable {T : Type} (lexicalCast : Bytes → Option T) (r : StoredRequest) (key : Bytes) (dflt : T)

/-- A header as a `T`, and whether it is one. -/
def checkGetHeaderAs : Bool × T := HeaderMap.checkGetAs lexicalCast r.headers key dflt
/-- A header as a `T`, or `dflt`. -/
def getHeaderAs : T := HeaderMap.getAs lexicalCast r.headers key dflt

-- these four are given `m_headers` in the source as well
/-- Reads a header, not a parameter. -/
def checkGetParamAs : Bool × T := HeaderMap.checkGetAs lexicalCast r.headers key dflt
/-- Reads a header, not a parameter. -/
def getParamAs : T := HeaderMap.getAs lexicalCast r.headers key dflt
/-- Reads a header, not a cookie. -/
def checkGetCookieAs : Bool × T := HeaderMap.checkGetAs lexicalCast r.headers key dflt
/-- Reads a header, not a cookie. -/
def getCookieAs : T := HeaderMap.getAs lexicalCast r.headers key dflt

end As

end StoredRequest

/-! ## Histories -/

/-- The three maps. -/
inductive Store where
  | header
  | param
  | cookie
  deriving DecidableEq

/-- A key: a text without a zero byte. -/
abbrev Key := { key : Bytes // 0 ∉ key }

/-- The keys are equal ignoring ASCII case. -/
def Key.Same (k k' : Key) : Prop := k.1.map toLower = k'.1.map toLower

instance Key.Same.decidable (k k' : Key) : Decidable (k.Same k') := inferInstanceAs (Decidable (_ = _))

/-- An operation on a request. -/
inductive StoreOp where
  | set (x : Store) (key : Key) (val : Bytes)
  | del (x : Store) (key : Key)

namespace StoreOp

/-- The map that a call changes. -/
def store : StoreOp → Store
  | set x _ _ | del x _ => x

/-- The effect of a call. -/
def step (r : StoredRequest) : StoreOp → StoredRequest
  | set .header key val => r.setHeader key val
  | set .param key val => r.setParam key val
  | set .cookie key val => r.setCookie key val
  | del .header key => r.delHeader key
  | del .param key => r.delParam key
  | del .cookie key => r.delCookie key

/-- The request after operations on a new one. -/
def run (ops : List StoreOp) : StoredRequest := ops.foldl step {}

/-- What an operation does to a store, with the key in lower case. -/
def update? (x : Store) : StoreOp → Option (Update Bytes Bytes)
  | set y key val => if y = x then some (.add (key.1.map toLower) val) else none
  | del y key => if y = x then some (.del (key.1.map toLower)) else none

end StoreOp

open StoreOp

/-- The value last set in a store under a key equal to `key` ignoring case, and not deleted since. -/
def lastSet (ops : List StoreOp) (x : Store) (key : Key) : Option Bytes :=
  lastAdded (ops.filterMap (update? x)) (key.1.map toLower)

variable {ops : List StoreOp} {op : StoreOp} {x : Store} {key : Key}

theorem lastSet_concat_set (ops : List StoreOp) (x : Store) (k key : Key) (val : Bytes) :
    lastSet (ops ++ [.set x k val]) x key = if k.Same key then some val else lastSet ops x key := by
  have hop : update? x (.set x k val) = some (.add (k.1.map toLower) val) := if_pos rfl
  rw [lastSet, List.filterMap_append, List.filterMap_cons_some hop, List.filterMap_nil, lastAdded_concat_add,
    ← lastSet]
  rfl

theorem lastSet_concat_del (ops : List StoreOp) (x : Store) (k key : Key) :
    lastSet (ops ++ [.del x k]) x key = if k.Same key then none else lastSet ops x key := by
  have hop : update? x (.del x k) = some (.del (k.1.map toLower)) := if_pos rfl
  rw [lastSet, List.filterMap_append, List.filterMap_cons_some hop, List.filterMap_nil, lastAdded_concat_del,
    ← lastSet]
  rfl

theorem lastSet_concat_of_ne (ops : List StoreOp) {op : StoreOp} (h : op.store ≠ x) (key : Key) :
    lastSet (ops ++ [op]) x key = lastSet ops x key := by
  have hop : update? x op = none := by
    cases op with
    | set y k val => exact if_neg h
    | del y k => exact if_neg h
  rw [lastSet, List.filterMap_append, List.filterMap_cons_none hop, List.filterMap_nil, List.append_nil, lastSet]

/-! ## What the maps hold -/

/-- The map of a store. -/
def StoredRequest.map (r : StoredRequest) : Store → HeaderMap
  | .header => r.headers
  | .param => r.params
  | .cookie => r.cookies

theorem map_step_set (r : StoredRequest) (x : Store) (k : Key) (val : Bytes) :
    ((StoreOp.set x k val).step r).map x = (r.map x).set k val := by
  cases x <;> rfl

theorem map_step_del (r : StoredRequest) (x : Store) (k : Key) :
    ((StoreOp.del x k).step r).map x = (r.map x).erase k := by
  cases x <;> rfl

theorem map_step_of_ne (r : StoredRequest) (h : op.store ≠ x) : (op.step r).map x = r.map x := by
  cases op with
  | set y k val => cases y <;> cases x <;> first | rfl | exact absurd rfl h
  | del y k => cases y <;> cases x <;> first | rfl | exact absurd rfl h

theorem run_concat (ops : List StoreOp) (op : StoreOp) : run (ops ++ [op]) = op.step (run ops) :=
  List.foldl_append

theorem find?_run (ops : List StoreOp) (x : Store) (key : Key) : ((run ops).map x).find? key = lastSet ops x key := by
  induction ops using List.reverseRecOn with
  | nil => cases x <;> rfl
  | append_singleton ops op ih =>
    rw [run_concat]
    by_cases h : op.store = x
    · subst h
      cases op with
      | set y k val =>
        rw [StoreOp.store, map_step_set, lastSet_concat_set, KeyMap.find?_set]
        simp only [caseKey_eq_iff k.2 key.2]
        exact if_congr Iff.rfl rfl ih
      | del y k =>
        rw [StoreOp.store, map_step_del, lastSet_concat_del, KeyMap.find?_erase]
        simp only [caseKey_eq_iff k.2 key.2]
        exact if_congr Iff.rfl rfl ih
    · rw [map_step_of_ne _ h, lastSet_concat_of_ne ops h, ih]

/-! ## What is read -/

/-- The four ways to read a key of a store, for every default and for every pointer. -/
structure Reads where
  get : Bytes → Bytes
  has : Option Bytes → Bool × Option Bytes
  getAs : Bytes → Bytes
  checkGetAs : Bytes → Bool × Bytes

/-- What reading a value, or its absence, gives. -/
def Reads.of (v : Option Bytes) : Reads where
  get := fun dflt => v.getD dflt
  has := fun val => (v.isSome, val.map fun old => v.getD old)
  getAs := fun dflt => v.getD dflt
  checkGetAs := fun dflt => (v.isSome, v.getD dflt)

/-- `boost::lexical_cast<std::string>` on a `std::string`. -/
def castString (v : Bytes) : Option Bytes := some v

/-- The four ways to read a key. -/
def StoredRequest.reads (r : StoredRequest) (x : Store) (key : Bytes) : Reads :=
  match x with
  | .header => ⟨r.getHeader key, r.hasHeader key, r.getHeaderAs castString key, r.checkGetHeaderAs castString key⟩
  | .param => ⟨r.getParam key, r.hasParam key, r.getParamAs castString key, r.checkGetParamAs castString key⟩
  | .cookie => ⟨r.getCookie key, r.hasCookie key, r.getCookieAs castString key, r.checkGetCookieAs castString key⟩

/-- The first two look into the map of the store, the others into the map of the headers. -/
theorem reads_eq_iff {r : StoredRequest} {x : Store} {key : Bytes} {v : Option Bytes} :
    r.reads x key = .of v ↔ (r.map x).find? key = v ∧ r.headers.find? key = v := by
  have hmaps : ∀ m : HeaderMap,
      (⟨m.get key, m.has key, HeaderMap.getAs castString r.headers key,
        HeaderMap.checkGetAs castString r.headers key⟩ : Reads) = .of v ↔
        m.find? key = v ∧ r.headers.find? key = v := by
    intro m
    constructor
    · intro h
      obtain ⟨hget, hhas, -, hcheck⟩ := Reads.mk.inj h
      have hhas := congrFun hhas none
      have hget := congrFun hget []
      have hcheck := congrFun hcheck []
      unfold HeaderMap.get at hget
      unfold HeaderMap.has at hhas
      unfold HeaderMap.checkGetAs at hcheck
      refine ⟨?_, ?_⟩
      · cases hm : m.find? key <;> cases v <;> simp_all
      · cases hm : r.headers.find? key <;> cases v <;> simp_all [castString]
    · rintro ⟨hm, hh⟩
      unfold HeaderMap.get HeaderMap.has HeaderMap.getAs HeaderMap.checkGetAs Reads.of
      rw [hm, hh]
      cases v with
      | none => simp
      | some v => simp [castString]
  cases x <;> exact hmaps _

/-- The four ways to read `key` from the store `x` agree on the value last set, at every point of a history, and an
operation on another store changes none of them. -/
structure Stored (ops : List StoreOp) (x : Store) (key : Key) : Prop where
  reads : ∀ before after, ops = before ++ after → (run before).reads x key = .of (lastSet before x key)
  others : ∀ before op after, ops = before ++ op :: after → op.store ≠ x →
    (run (before ++ [op])).reads x key = (run before).reads x key

/-- All four are right where the headers hold the same as the store. -/
theorem reads_run_iff :
    (run ops).reads x key = .of (lastSet ops x key) ↔ lastSet ops .header key = lastSet ops x key := by
  rw [reads_eq_iff, find?_run, ← find?_run ops .header]
  exact and_iff_right rfl

/-- It is enough that they are right at every point. -/
theorem Stored.of_reads
    (h : ∀ before after, ops = before ++ after → lastSet before .header key = lastSet before x key) :
    Stored ops x key := by
  have hreads : ∀ before after, ops = before ++ after → (run before).reads x key = .of (lastSet before x key) :=
    fun before after hops => reads_run_iff.mpr (h before after hops)
  refine ⟨hreads, fun before op after hops hop => ?_⟩
  rw [hreads before (op :: after) hops, hreads (before ++ [op]) after (by rw [hops, List.append_cons]),
    lastSet_concat_of_ne before hop]

/-- The history sets `key` neither in the headers nor in the store. -/
def Unset (ops : List StoreOp) (x : Store) (key : Key) : Prop :=
  ∀ y k val, StoreOp.set y k val ∈ ops → y = .header ∨ y = x → ¬k.Same key

theorem Unset.lastSet (h : Unset ops x key) {y : Store} (hy : y = .header ∨ y = x) : lastSet ops y key = none := by
  induction ops using List.reverseRecOn with
  | nil => rfl
  | append_singleton ops op ih =>
    have hrest := ih fun y' k val hmem => h y' k val (List.mem_append_left _ hmem)
    by_cases hop : op.store = y
    · subst hop
      cases op with
      | set y' k val =>
        have hne := h y' k val (List.mem_append_right _ List.mem_cons_self) hy
        exact (lastSet_concat_set ops y' k key val).trans ((if_neg hne).trans hrest)
      | del y' k =>
        refine (lastSet_concat_del ops y' k key).trans ?_
        split_ifs
        · rfl
        · exact hrest
    · rw [lastSet_concat_of_ne ops hop, hrest]

/-- The first assignment makes a difference between the headers and another store. -/
theorem unset_of_eq (hx : x ≠ .header)
    (h : ∀ before after, ops = before ++ after → lastSet before .header key = lastSet before x key) :
    Unset ops x key := by
  induction ops using List.reverseRecOn with
  | nil => exact fun _ _ _ hmem => absurd hmem List.not_mem_nil
  | append_singleton ops op ih =>
    have hrest : Unset ops x key :=
      ih fun before after hops => h before (after ++ [op]) (by rw [hops, List.append_assoc])
    intro y k val hmem hy hsame
    rcases List.mem_append.mp hmem with hmem | hmem
    · exact hrest y k val hmem hy hsame
    · obtain rfl := List.mem_singleton.mp hmem
      have heq := h _ [] (List.append_nil _).symm
      have hset : lastSet (ops ++ [.set y k val]) y key = some val := by
        rw [lastSet_concat_set, if_pos hsame]
      have hother : ∀ z, (z = .header ∨ z = x) → (StoreOp.set y k val).store ≠ z →
          lastSet (ops ++ [.set y k val]) z key = none := by
        intro z hz hne
        exact (lastSet_concat_of_ne ops hne key).trans (hrest.lastSet hz)
      rcases hy with rfl | rfl
      · rw [hset, hother x (.inr rfl) (Ne.symm hx)] at heq
        exact Option.some_ne_none _ heq
      · rw [hset, hother .header (.inl rfl) hx] at heq
        exact Option.some_ne_none _ heq.symm

/-- The stores behave so for the headers, and for a key of another store that is set neither there nor in the headers.
-/
theorem stored_iff (ops : List StoreOp) (x : Store) (key : Key) :
    Stored ops x key ↔ x = .header ∨ Unset ops x key := by
  constructor
  · intro h
    by_cases hx : x = .header
    · exact .inl hx
    · exact .inr (unset_of_eq hx fun before after hops => reads_run_iff.mp (h.reads before after hops))
  · rintro (rfl | h)
    · exact .of_reads fun _ _ _ => rfl
    · refine .of_reads fun before after hops => ?_
      have hbefore : Unset before x key := fun y k val hmem =>
        h y k val (hops ▸ List.mem_append_left after hmem)
      rw [hbefore.lastSet (.inl rfl), hbefore.lastSet (.inr rfl)]

theorem zero_notMem_id : 0 ∉ str "id" := by decide

/-- The key `id`. -/
def idKey : Key := ⟨str "id", zero_notMem_id⟩

/-- A parameter is set, and `getParamAs` does not find it. -/
theorem stored_fails : (run [.set .param idKey (str "7")]).getParam (str "id") [] = str "7" ∧
      (run [.set .param idKey (str "7")]).getParamAs castString (str "id") [] = [] ∧
      ¬Stored [.set .param idKey (str "7")] .param idKey := by
  refine ⟨by decide, by decide, fun h => ?_⟩
  have heq := reads_run_iff.mp (h.reads _ [] (List.append_nil _).symm)
  exact absurd heq (by decide)

end Sherry.Http
