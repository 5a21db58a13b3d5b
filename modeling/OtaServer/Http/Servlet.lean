import Mathlib.Data.List.AList
import Mathlib.Data.List.Induction
import OtaServer.Lib.Bytes
import OtaServer.Lib.Updates

/-!
# The servlet dispatch (`sherry/http/servlet.cc`)

`ServletDispatch` maps paths to servlets: an exact table, a list of glob patterns in the order they were added, and a
default. Each method holds the lock of the dispatch for its whole body.

* `ServletDispatch`, `DispatchCall`, `run`: as the code has them. `fnmatch` is a parameter.
* `lastServlet`, `liveGlobs`, `lastDefault`: what a history of calls left, read off the calls alone.
* `dispatchHolds_run`: the dispatch holds just that.
* `getMatchedServlet_run`: so the servlet of a path is the one last added for it, or the first live pattern's, or the
  default.
-/

namespace Sherry.Http

open Lib

/-- What a `Servlet::ptr` points to: the object of the constructor's default, one the caller passes (or the null
pointer), or the object made for a callback. -/
inductive ServletPtr (σ γ : Type) where
  | notFound
  | given (slt : σ)
  | function (cb : γ)

variable {σ γ : Type}

/-- `ServletDispatch`. -/
structure ServletDispatch (σ γ : Type) where
  datas : AList fun _ : Bytes => ServletPtr σ γ
  globs : List (Bytes × ServletPtr σ γ)
  default : ServletPtr σ γ

namespace ServletDispatch

/-- The constructor. -/
def new : ServletDispatch σ γ where
  datas := ∅
  globs := []
  default := .notFound

/-- A servlet for one URI. -/
def addServlet (d : ServletDispatch σ γ) (uri : Bytes) (slt : ServletPtr σ γ) : ServletDispatch σ γ :=
  { d with datas := d.datas.insert uri slt }

/-- The loop that takes out the first entry of a pattern. -/
def eraseGlob (d : ServletDispatch σ γ) (uri : Bytes) : ServletDispatch σ γ :=
  { d with globs := d.globs.eraseP fun e => e.1 = uri }

/-- A servlet for a pattern, in place of an older one for it. -/
def addGlobServlet (d : ServletDispatch σ γ) (uri : Bytes) (slt : ServletPtr σ γ) : ServletDispatch σ γ :=
  { d.eraseGlob uri with globs := (d.eraseGlob uri).globs ++ [(uri, slt)] }

/-- Takes the servlet of a URI away. -/
def delServlet (d : ServletDispatch σ γ) (uri : Bytes) : ServletDispatch σ γ :=
  { d with datas := d.datas.erase uri }

/-- Takes the servlet of a pattern away. -/
def delGlobServlet (d : ServletDispatch σ γ) (uri : Bytes) : ServletDispatch σ γ := d.eraseGlob uri

/-- The servlet for what nothing else matches. -/
def setDefault (d : ServletDispatch σ γ) (v : ServletPtr σ γ) : ServletDispatch σ γ := { d with default := v }

/-- The URI comes first, then the patterns in their order. -/
def getMatchedServlet (fnmatch : Bytes → Bytes → Int) (d : ServletDispatch σ γ) (uri : Bytes) : ServletPtr σ γ :=
  match d.datas.lookup uri with
  | some slt => slt
  | none =>
    match d.globs.find? fun e => fnmatch (cstr e.1) (cstr uri) = 0 with
    | some e => e.2
    | none => d.default

end ServletDispatch

open ServletDispatch

/-- A call on a dispatch. The methods that add are overloaded for callbacks. -/
inductive DispatchCall (σ γ : Type) where
  | addServlet (uri : Bytes) (slt : σ)
  | addServletCb (uri : Bytes) (cb : γ)
  | addGlobServlet (uri : Bytes) (slt : σ)
  | addGlobServletCb (uri : Bytes) (cb : γ)
  | delServlet (uri : Bytes)
  | delGlobServlet (uri : Bytes)
  | setDefault (v : σ)

namespace DispatchCall

/-- The effect of a call. -/
def step (d : ServletDispatch σ γ) : DispatchCall σ γ → ServletDispatch σ γ
  | addServlet uri slt => d.addServlet uri (.given slt)
  | addServletCb uri cb => d.addServlet uri (.function cb)
  | addGlobServlet uri slt => d.addGlobServlet uri (.given slt)
  | addGlobServletCb uri cb => d.addGlobServlet uri (.function cb)
  | delServlet uri => d.delServlet uri
  | delGlobServlet uri => d.delGlobServlet uri
  | setDefault v => d.setDefault (.given v)

/-- What a call adds to or deletes from the servlets of exact paths. -/
def path? : DispatchCall σ γ → Option (Update Bytes (ServletPtr σ γ))
  | addServlet uri slt => some (.add uri (.given slt))
  | addServletCb uri cb => some (.add uri (.function cb))
  | delServlet uri => some (.del uri)
  | _ => none

/-- What a call adds to or deletes from the patterns. -/
def glob? : DispatchCall σ γ → Option (Update Bytes (ServletPtr σ γ))
  | addGlobServlet uri slt => some (.add uri (.given slt))
  | addGlobServletCb uri cb => some (.add uri (.function cb))
  | delGlobServlet uri => some (.del uri)
  | _ => none

/-- The default that a call sets. -/
def default? : DispatchCall σ γ → Option (ServletPtr σ γ)
  | setDefault v => some (.given v)
  | _ => none

/-- The dispatch after calls on a new one. -/
def run (calls : List (DispatchCall σ γ)) : ServletDispatch σ γ := calls.foldl step new

end DispatchCall

open DispatchCall

/-! ## What a history leaves -/

/-- The servlet last added for exactly `path` and not deleted since. -/
def lastServlet (calls : List (DispatchCall σ γ)) (path : Bytes) : Option (ServletPtr σ γ) :=
  lastAdded (calls.filterMap path?) path

/-- The patterns that were added and not deleted since, in the order of the last addition of each. -/
def liveGlobs (calls : List (DispatchCall σ γ)) : List (Bytes × ServletPtr σ γ) := live (calls.filterMap glob?)

/-- The servlet that was last made the default. -/
def lastDefault (calls : List (DispatchCall σ γ)) : ServletPtr σ γ :=
  ((calls.filterMap default?).getLast?).getD .notFound

/-- A dispatch holds what a history left. -/
structure DispatchHolds (calls : List (DispatchCall σ γ)) (d : ServletDispatch σ γ) : Prop where
  datas : ∀ path, d.datas.lookup path = lastServlet calls path
  globs : d.globs = liveGlobs calls
  default : d.default = lastDefault calls

variable {calls : List (DispatchCall σ γ)} {d : ServletDispatch σ γ} {c : DispatchCall σ γ}

/-! ## One call -/

theorem datas_step (h : ∀ path, d.datas.lookup path = lastServlet calls path) (c : DispatchCall σ γ) (path : Bytes) :
    (c.step d).datas.lookup path = lastServlet (calls ++ [c]) path := by
  rw [lastServlet, List.filterMap_append]
  have hadd : ∀ uri slt, (d.datas.insert uri slt).lookup path =
      lastAdded (calls.filterMap path? ++ [.add uri slt]) path := by
    intro uri slt
    rw [lastAdded_concat_add, ← lastServlet, ← h]
    by_cases hp : uri = path
    · subst hp
      rw [AList.lookup_insert, if_pos rfl]
    · rw [AList.lookup_insert_ne (Ne.symm hp), if_neg hp]
  have hkept : d.datas.lookup path = lastAdded (calls.filterMap path? ++ []) path := by
    rw [List.append_nil, ← lastServlet, h]
  cases c with
  | addServlet uri slt => exact hadd uri _
  | addServletCb uri cb => exact hadd uri _
  | delServlet uri =>
    change (d.datas.erase uri).lookup path = lastAdded (calls.filterMap path? ++ [.del uri]) path
    rw [lastAdded_concat_del, ← lastServlet, ← h]
    by_cases hp : uri = path
    · subst hp
      rw [AList.lookup_erase, if_pos rfl]
    · rw [AList.lookup_erase_ne (Ne.symm hp), if_neg hp]
  | addGlobServlet | addGlobServletCb | delGlobServlet | setDefault => exact hkept

theorem globs_step (h : d.globs = liveGlobs calls) (c : DispatchCall σ γ) :
    (c.step d).globs = liveGlobs (calls ++ [c]) := by
  rw [liveGlobs, List.filterMap_append]
  have herase : ∀ uri, (d.eraseGlob uri).globs = live (calls.filterMap glob? ++ [.del uri]) := by
    intro uri
    rw [eraseGlob, h, live_concat_del]
    exact eraseP_eq_filter (nodup_live _)
  have hadd : ∀ uri slt, (d.addGlobServlet uri slt).globs = live (calls.filterMap glob? ++ [.add uri slt]) := by
    intro uri slt
    rw [ServletDispatch.addGlobServlet, herase, live_concat_del, live_concat_add]
  have hkept : d.globs = live (calls.filterMap glob? ++ []) := by
    rw [List.append_nil, h, liveGlobs]
  cases c with
  | addGlobServlet uri slt => exact hadd uri _
  | addGlobServletCb uri cb => exact hadd uri _
  | delGlobServlet uri => exact herase uri
  | addServlet | addServletCb | delServlet | setDefault => exact hkept

theorem default_step (h : d.default = lastDefault calls) (c : DispatchCall σ γ) :
    (c.step d).default = lastDefault (calls ++ [c]) := by
  rw [lastDefault, List.filterMap_append]
  cases c with
  | setDefault v =>
    change _ = ((calls.filterMap default? ++ [ServletPtr.given v]).getLast?).getD .notFound
    rw [List.getLast?_concat]
    rfl
  | addServlet | addServletCb | addGlobServlet | addGlobServletCb | delServlet | delGlobServlet =>
    change d.default = ((calls.filterMap default? ++ []).getLast?).getD .notFound
    rw [List.append_nil, h, lastDefault]

/-! ## All calls -/

theorem dispatchHolds_run (calls : List (DispatchCall σ γ)) : DispatchHolds calls (run calls) := by
  induction calls using List.reverseRecOn with
  | nil => exact ⟨fun path => AList.lookup_empty path, rfl, rfl⟩
  | append_singleton calls c ih =>
    rw [run, List.foldl_append, ← run]
    exact ⟨datas_step ih.datas c, globs_step ih.globs c, default_step ih.default c⟩

/-- After any calls, the servlet of a path is the one last added for exactly the path and not deleted since; if there
is none, the servlet of the first live pattern that matches it; if there is none either, the default. No pattern is
stored twice. -/
theorem getMatchedServlet_run (fnmatch : Bytes → Bytes → Int) (calls : List (DispatchCall σ γ)) (path : Bytes) :
    (run calls).getMatchedServlet fnmatch path = ((lastServlet calls path).getD <|
          ((liveGlobs calls).find? fun e => fnmatch (cstr e.1) (cstr path) = 0).elim (lastDefault calls) (·.2)) ∧
      ((run calls).globs.map Prod.fst).Nodup := by
  obtain ⟨hdatas, hglobs, hdefault⟩ := dispatchHolds_run calls
  refine ⟨?_, ?_⟩
  · rw [getMatchedServlet, hdatas, hglobs, hdefault]
    cases lastServlet calls path with
    | some slt => rfl
    | none => cases (liveGlobs calls).find? fun e => fnmatch (cstr e.1) (cstr path) = 0 <;> rfl
  · rw [hglobs]
    exact nodup_live _

end Sherry.Http
