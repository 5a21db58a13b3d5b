import Mathlib.Tactic.MkIffOfInductiveProp
import OtaServer.Http.Parser
import OtaServer.Lib.RagelLanguage

/-!
# The machine on the lines of a request

The states and actions of the request machine on the text of `HttpRequest::dump`. The machine reads the parts of a URI
without the characters of `more_delims`, whether `uri_relaxed` is set or not.

* `walk_method`, `uriMoves`, `walk_requestVersion`: the request line.
* `headerMoves`: a header line and the blank line.
-/

namespace Sherry.Http

open Lib Ragel

/-- The state of the machine behind a text. -/
def requestState (uriRelaxed : Bool) (t : String) : State Action :=
  (State.run (start (Grammar.main uriRelaxed)) (str t)).getD []

/-! ## The request line -/

/-- Behind the method. -/
def uriState (uriRelaxed : Bool) : State Action := requestState uriRelaxed "GET "
/-- Behind the `?`. -/
def queryState (uriRelaxed : Bool) : State Action := requestState uriRelaxed "GET /?"
/-- Behind the `#`. -/
def fragmentState (uriRelaxed : Bool) : State Action := requestState uriRelaxed "GET /#"
/-- Behind the URI. -/
def versionState : State Action := requestState false "GET / "
/-- Behind the request line. -/
def headersState : State Action := requestState false "GET / HTTP/1.1\r\n"

/-- The bytes of a method. -/
def methodByte (b : UInt8) : Bool := inRanges [(65, 90), (48, 57)] b

/-- `upper | digit`, in the machine. -/
def methodClass : Re (Nat × Action) := .alt (.cls [(65, 90)]) (.cls [(48, 57)])

/-- What is left of a request in its method, when `j` more bytes may follow there. Behind the method come the blank,
`k₁` and `k₂`. -/
def methodRest (k₁ k₂ : Re (Nat × Action)) (d : Nat × Action) (j : Nat) : Re (Nat × Action) :=
  .finish (.cat (.cat (.leave (.cat .eps (.upTo methodClass j)) (1, .requestMethod)) (.cat (.byte 32) k₁)) k₂) d

/-- A request line, or `s`. -/
def requestRest (k₁ k₂ s : Re (Nat × Action)) (d : Nat × Action) : Re (Nat × Action) :=
  .finish (.alt (.cat (.cat (.leave (.enter (.cat methodClass (.upTo methodClass 19)) (0, .mark))
    (1, .requestMethod)) (.cat (.byte 32) k₁)) k₂) s) d

/-- The machine at the start of a request. No byte of a method starts the second alternative. -/
theorem start_main (u : Bool) : ∃ (k₁ k₂ s : Re (Nat × Action)) (d : Nat × Action),
    start (Grammar.main u) = [requestRest k₁ k₂ s d] ∧ k₂.nullable = false ∧
    (s.uniform 65 90 = true ∧ s.step 65 = []) ∧ s.uniform 48 57 = true ∧ s.step 48 = [] :=
  ⟨_, _, _, _, rfl, rfl, ⟨rfl, rfl⟩, rfl, rfl⟩

section

variable {k₁ k₂ s : Re (Nat × Action)} {d : Nat × Action} {b : UInt8} {j : Nat}

theorem nullable_methodClass : methodClass.nullable = false := rfl

theorem nullable_blank : (Re.byte 32 : Re (Nat × Action)).nullable = false := rfl

theorem step_methodClass (h : methodByte b = true) : methodClass.step b = [⟨[], [], .eps⟩] := by
  have hor : (65 ≤ b ∧ b ≤ 90) ∨ (48 ≤ b ∧ b ≤ 57) := by simpa [methodByte, inRanges] using h
  rcases hor with hb | hb
  · have hdigit : ¬ (48 ≤ b ∧ b ≤ 57) := by grind -linarith
    simp [methodClass, Re.step, hb, hdigit]
  · have hupper : ¬ (65 ≤ b ∧ b ≤ 90) := by grind -linarith
    simp [methodClass, Re.step, hb, hupper]

theorem step_blank_of_methodByte (h : methodByte b = true) : (Re.byte 32 : Re (Nat × Action)).step b = [] := by
  have hne : ¬ (32 ≤ b ∧ b ≤ 32) := by
    rintro ⟨hlo, hhi⟩
    obtain rfl : b = 32 := UInt8.le_antisymm hhi hlo
    cases h
  simpa [Re.step, Re.byte] using hne

theorem step_methodRest (h : methodByte b = true) (hk₂ : k₂.nullable = false) :
    (methodRest k₁ k₂ d (j + 1)).step b = [⟨[], [], methodRest k₁ k₂ d j⟩] := by
  have hclass := Re.step_upTo_succ (k := j) rfl (step_methodClass h)
  have hblank := step_blank_of_methodByte h
  simp [methodRest, Re.step, Re.nullable, Re.leaving, hclass, hblank, hk₂, nullable_blank]

theorem step_methodRest_blank (hk₂ : k₂.nullable = false) : (methodRest k₁ k₂ d j).step 32 =
    [⟨[(1, .requestMethod)], [], .finish (.cat (.cat .eps k₁) k₂) d⟩] := by
  have hclass := Re.step_upTo_of_nil (r := methodClass) (b := 32) (k := j) rfl rfl
  have hleaving := Re.leaving_upTo nullable_methodClass j
  have hblank : (Re.byte 32 : Re (Nat × Action)).step 32 = [⟨[], [], .eps⟩] := rfl
  simp [methodRest, Re.step, Re.nullable, Re.leaving, hclass, hleaving, hblank, hk₂, Re.nullable_upTo, nullable_blank]

theorem step_requestRest (h : methodByte b = true) (hs : s.step b = []) (hk₂ : k₂.nullable = false) :
    (requestRest k₁ k₂ s d).step b = [⟨[(0, .mark)], [], methodRest k₁ k₂ d 19⟩] := by
  have hclass := step_methodClass h
  simp [requestRest, methodRest, Re.step, Re.nullable, hclass, hs, hk₂, nullable_methodClass]

theorem walk_methodRest {w : Bytes} (hw : ∀ b ∈ w, methodByte b = true) (hk₂ : k₂.nullable = false)
    (hlen : w.length ≤ j) : walk [methodRest k₁ k₂ d j] (w ++ [32]) =
      some ([.finish (.cat (.cat .eps k₁) k₂) d], List.replicate w.length [] ++ [[.requestMethod]]) := by
  induction w generalizing j with
  | nil => exact walk_cons (advance_single (step_methodRest_blank hk₂)) rfl
  | cons b w ih =>
    obtain ⟨j, rfl⟩ : ∃ i, j = i + 1 := Nat.exists_eq_succ_of_ne_zero (by rintro rfl; simp at hlen)
    rw [List.length_cons, Nat.add_le_add_iff_right] at hlen
    exact walk_cons (advance_single (step_methodRest (hw b List.mem_cons_self) hk₂))
      (ih (fun c hc => hw c (List.mem_cons_of_mem b hc)) hlen)

end

/-- A method: 1 to 20 upper-case letters or digits. -/
structure IsMethod (w : Bytes) : Prop where
  ne_nil : w ≠ []
  length_le : w.length ≤ 20
  bytes : ∀ b ∈ w, methodByte b = true

/-- A method and the blank behind it. The state is the same for all methods. -/
theorem walk_isMethod {u : Bool} {w : Bytes} (h : IsMethod w) : walk (start (Grammar.main u)) (w ++ [32]) =
      some (uriState u, [.mark] :: (List.replicate (w.length - 1) [] ++ [[.requestMethod]])) := by
  obtain ⟨k₁, k₂, s, d, hstart, hk₂, ⟨hupper, hupper'⟩, hdigit, hdigit'⟩ := start_main u
  have hsocket : ∀ b, methodByte b = true → s.step b = [] := by
    intro b hb
    have hor : (65 ≤ b ∧ b ≤ 90) ∨ (48 ≤ b ∧ b ≤ 57) := by simpa [methodByte, inRanges] using hb
    rcases hor with hb | hb
    · rw [Re.step_eq_of_uniform hupper hb.1 hb.2, hupper']
    · rw [Re.step_eq_of_uniform hdigit hb.1 hb.2, hdigit']
  have hwalk : ∀ {w : Bytes}, IsMethod w → walk (start (Grammar.main u)) (w ++ [32]) =
      some ([.finish (.cat (.cat .eps k₁) k₂) d],
        [.mark] :: (List.replicate (w.length - 1) [] ++ [[.requestMethod]])) := by
    intro w hw
    obtain ⟨b, w, rfl⟩ := List.exists_cons_of_ne_nil hw.ne_nil
    have hb := hw.bytes b List.mem_cons_self
    rw [hstart]
    exact walk_cons (advance_single (step_requestRest hb (hsocket b hb) hk₂))
      (walk_methodRest (fun c hc => hw.bytes c (List.mem_cons_of_mem b hc)) hk₂
        (Nat.le_of_succ_le_succ hw.length_le))
  have hget : uriState u = [.finish (.cat (.cat .eps k₁) k₂) d] := by
    have hrun := State.run_of_walk (hwalk (w := str "GET") ⟨by decide, by decide, by decide +kernel⟩)
    rw [uriState, requestState, show str "GET " = str "GET" ++ [32] from rfl, hrun, Option.getD_some]
  rw [hget]
  exact hwalk h

/-- A method with a name that has only letters. -/
theorem walk_method (u : Bool) : ∀ e ∈ httpMethodMap, e.1 ≠ .msearch → walk (start (Grammar.main u)) (e.2 ++ [32]) =
      some (uriState u, [.mark] :: (List.replicate (e.2.length - 1) [] ++ [[.requestMethod]])) := by
  have htable : ∀ e ∈ httpMethodMap, e.1 ≠ .msearch →
      e.2 ≠ [] ∧ e.2.length ≤ 20 ∧ ∀ b ∈ e.2, methodByte b = true := by decide +kernel
  intro e he hne
  obtain ⟨hnil, hlen, hbytes⟩ := htable e he hne
  exact walk_isMethod ⟨hnil, hlen, hbytes⟩

/-- What is left of an expression behind a text, and the state of the machine behind the text. -/
def pairAfter (r : Re Action) (s : State Action) (t : String) : Re Action × State Action :=
  ((r.after (str t)).headD .eps, (s.run (str t)).getD [])

/-- The states in a path. -/
def pathPairs (u : Bool) : List (Re Action × State Action) :=
  ["/", "/a", "/a/", "/%", "/%0"].map (pairAfter (Grammar.pathAbsolute false) (uriState u))

/-- The states in a query. -/
def queryPairs (u : Bool) : List (Re Action × State Action) :=
  ["a", "%", "%0"].map (pairAfter (Grammar.query false) (queryState u))

/-- The states in a fragment. -/
def fragmentPairs (u : Bool) : List (Re Action × State Action) :=
  ["a", "%", "%0"].map (pairAfter (Grammar.fragment false) (fragmentState u))

/-- The moves of the machine on the parts of a URI. -/
@[mk_iff]
structure UriMoves (u : Bool) : Prop where
  path : reads [.mark] (Grammar.pathAbsolute false) (uriState u) (pathPairs u) = true ∧
    closed (pathPairs u) = true ∧
    leaves 63 (pathPairs u) (queryState u, [.requestPath]) = true ∧
    leaves 35 (pathPairs u) (fragmentState u, [.requestPath, .requestUri]) = true ∧
    leaves 32 (pathPairs u) (versionState, [.requestPath, .requestUri]) = true
  query : reads [.startQuery] (Grammar.query false) (queryState u) (queryPairs u) = true ∧
    closed (queryPairs u) = true ∧
    leaves 35 (queryPairs u) (fragmentState u, [.queryString, .requestUri]) = true ∧
    leaves 32 (queryPairs u) (versionState, [.queryString, .requestUri]) = true
  fragment : reads [.mark] (Grammar.fragment false) (fragmentState u) (fragmentPairs u) = true ∧
    closed (fragmentPairs u) = true ∧
    leaves 32 (fragmentPairs u) (versionState, [.fragment]) = true

theorem uriMoves (u : Bool) : UriMoves u := by
  rw [uriMoves_iff]
  cases u <;> decide +kernel

theorem walk_requestVersion : ∀ v ∈ [str "HTTP/1.0\r\n", str "HTTP/1.1\r\n"], walk versionState v =
      some (headersState, [[.mark], [], [], [], [], [], [], [], [.httpVersion], []]) := by
  decide +kernel

/-! ## Header lines -/

/-- Behind a header line. -/
def nextHeader : State Action := requestState false "GET / HTTP/1.1\r\na:\r\n"
/-- In a name. -/
def nameState : State Action := requestState false "GET / HTTP/1.1\r\na"
/-- Behind the colon. -/
def colonState : State Action := requestState false "GET / HTTP/1.1\r\na:"
/-- Behind a blank in front of a value. -/
def padState : State Action := requestState false "GET / HTTP/1.1\r\na: "
/-- In a value. -/
def valueState : State Action := requestState false "GET / HTTP/1.1\r\na:b"
/-- Behind a blank in a value. -/
def blankState : State Action := requestState false "GET / HTTP/1.1\r\na:b "
/-- Behind the carriage return of a header line. -/
def lineCr : State Action := requestState false "GET / HTTP/1.1\r\na:\r"
/-- Behind the carriage return of the blank line. -/
def blankLineCr : State Action := requestState false "GET / HTTP/1.1\r\n\r"
/-- Behind the head. -/
def requestEnd : State Action := requestState false "GET / HTTP/1.1\r\n\r\n"

/-- The bytes of a token. -/
def tokenRanges : List (UInt8 × UInt8) :=
  [(33, 33), (35, 39), (42, 43), (45, 46), (48, 57), (65, 90), (94, 122), (124, 124), (126, 126)]

/-- The bytes of a value apart from the blank. -/
def visibleRanges : List (UInt8 × UInt8) := [(33, 126), (128, 255)]

/-- The moves of the machine on a header line. In front of the blank line a carriage return can also start a name. -/
@[mk_iff]
structure HeaderMoves : Prop where
  name : headersState.onRanges tokenRanges (nameState, [.startField]) = true ∧
    nextHeader.onRanges tokenRanges (nameState, [.startField]) = true ∧
    nameState.onRanges tokenRanges (nameState, []) = true ∧
    nameState.onRanges [(58, 58)] (colonState, [.writeField]) = true ∧
    colonState.onRanges [(32, 32)] (padState, [.startValue]) = true
  value : colonState.onRanges visibleRanges (valueState, [.startValue]) = true ∧
    padState.onRanges visibleRanges (valueState, [.startValue]) = true ∧
    valueState.onRanges visibleRanges (valueState, []) = true ∧
    blankState.onRanges visibleRanges (valueState, []) = true ∧
    valueState.onRanges [(32, 32)] (blankState, []) = true ∧
    blankState.onRanges [(32, 32)] (blankState, []) = true
  lineEnd : colonState.onRanges [(13, 13)] (lineCr, [.startValue, .writeValue]) = true ∧
    valueState.onRanges [(13, 13)] (lineCr, [.writeValue]) = true ∧
    blankState.onRanges [(13, 13)] (lineCr, [.writeValue]) = true ∧
    lineCr.onRanges [(10, 10)] (nextHeader, []) = true
  blankLine : nextHeader.onRanges [(13, 13)] (blankLineCr, [.startField]) = true ∧
    blankLineCr.onRanges [(10, 10)] (requestEnd, [.done]) = true ∧ requestEnd.final = true

theorem headerMoves : HeaderMoves := by
  rw [headerMoves_iff]
  decide +kernel

end Sherry.Http
