import Mathlib.Tactic.MkIffOfInductiveProp
import OtaServer.Http.Chunked
import OtaServer.Lib.RagelRun

/-!
# The machine on the lines of a response

`HttpResponse::dump` ends a header line with `"\n\r"`. The line feed ends the header, and the carriage return can only
be the start of the blank line behind the headers, so that the next byte is an error. The lines that it ends with
`"\r\n"` are read as they should be.

* `LineEnd`, `Reading`: no blank line has been read; then `done` has not run (`Reading.run`).
* `wrong_order_stops`: the machine stops behind the last header.
* `responseMoves`: the states and actions on the other lines.
-/

namespace Sherry.Http

open Lib Ragel

/-! ## Blank lines -/

section

variable {α : Type}

/-- A line feed can end the expression. -/
def endsLf (r : Re α) : Bool := (r.step 10).any (·.next.nullable)

/-- A carriage return and a line feed can end the expression. -/
def endsCrLf (r : Re α) : Bool := (r.step 13).any fun e => endsLf e.next

/-- The line feed and the carriage return only. -/
def lineBytes (rs : List (UInt8 × UInt8)) : Bool :=
  rs.all fun r => r.1 == r.2 && (r.1 == 10 || r.1 == 13)

theorem eq_of_lineBytes {rs : List (UInt8 × UInt8)} (h : lineBytes rs = true) {b : UInt8}
    (hb : inRanges rs b = true) : b = 10 ∨ b = 13 := by
  obtain ⟨r, hr, hin⟩ := List.any_eq_true.mp hb
  have hr := List.all_eq_true.mp h r hr
  simp only [Bool.and_eq_true, Bool.or_eq_true, beq_iff_eq, decide_eq_true_eq] at hr hin
  have heq : b = r.1 := UInt8.le_antisymm (hr.1 ▸ hin.2) hin.1
  exact hr.2.imp heq.trans heq.trans

end

/-- The machine behind the `H` of a response. -/
def responseState : State ClientAction := behind (start ClientGrammar.main) 72

/-- What is left of a response behind its `H`. -/
def responseThread : Re (Nat × ClientAction) := responseState.headD .eps

theorem advance_start_H :
    advance (start ClientGrammar.main) 72 = some ([responseThread], [.mark]) := by decide +kernel

theorem responseThread_finishes : ∃ r n, responseThread = .finish r (n, .done) ∧
    r.mentions (fun x => x.2 == .done) = false := by
  refine ⟨_, _, rfl, ?_⟩
  decide +kernel

theorem residuals_ends : responseThread.residuals.all (·.ends 10) = true := by decide +kernel

/-- Behind another byte than a line end no line feed and no carriage return with a line feed end the response. -/
theorem residuals_plain : (responseThread.residuals.all fun t => t.arrows.all fun x =>
    lineBytes x.1 || (!endsLf x.2.next && !endsCrLf x.2.next)) = true := by decide +kernel

/-- Nothing is left of any thread behind the end of a header line in the wrong order and the start of `connection`. -/
theorem residuals_wrong_order : (responseThread.residuals.all fun t => (t.after (str "\n\rco")).isEmpty) = true := by
  decide +kernel

/-- The end of what has been read: a byte inside a line, a carriage return behind such a byte, or another line end. -/
inductive LineEnd where
  | plain | cr | other
  deriving DecidableEq

namespace LineEnd

/-- One more byte, if it does not end a blank line. -/
def next (l : LineEnd) (b : UInt8) : Option LineEnd :=
  if b = 10 then if l = .other then none else some .other
  else if b = 13 then some (if l = .plain then .cr else .other)
  else some .plain

/-- A text without a blank line. -/
def follow (l : LineEnd) (w : Bytes) : Option LineEnd := w.foldlM next l

theorem eq_of_next_plain {l : LineEnd} {b : UInt8} (h : l.next b = some .plain) : b ≠ 10 ∧ b ≠ 13 := by
  unfold next at h
  split at h
  · split at h <;> cases h
  · split at h
    · split at h <;> cases h
    · exact ⟨‹_›, ‹_›⟩

theorem eq_of_next_cr {l : LineEnd} {b : UInt8} (h : l.next b = some .cr) : b = 13 ∧ l = .plain := by
  unfold next at h
  split at h
  · split at h <;> cases h
  · split at h
    · split at h
      · exact ⟨‹_›, ‹_›⟩
      · cases h
    · cases h

theorem follow_append (l : LineEnd) (v w : Bytes) :
    l.follow (v ++ w) = (l.follow v).bind (·.follow w) := List.foldlM_append

end LineEnd

/-- The threads of a response in which no blank line has been read. -/
structure Reading (l : LineEnd) (s : State ClientAction) : Prop where
  finishes : s.Finishes .done
  residual : ∀ r ∈ s, r ∈ responseThread.residuals
  plain : l = .plain → ∀ r ∈ s, endsLf r = false ∧ endsCrLf r = false
  cr : l = .cr → ∀ r ∈ s, endsLf r = false

/-- **One byte.** As long as there is no blank line, `done` does not run. -/
theorem Reading.advance {l l' : LineEnd} {s s' : State ClientAction} {b : UInt8}
    {as : List ClientAction} (h : Reading l s) (hl : l.next b = some l')
    (hadv : Ragel.advance s b = some (s', as)) : .done ∉ as ∧ Reading l' s' := by
  obtain ⟨hfin, hdone⟩ := h.finishes.advance hadv
  obtain ⟨es, hes, hnext, -⟩ := advance_eq_some hadv
  have hedge : ∀ r' ∈ s', ∃ r ∈ s, ∃ e ∈ r.step b, e.next = r' := by
    intro r' hr'
    obtain ⟨e, he, rfl⟩ := (hnext r').mp hr'
    obtain ⟨r, hr, hstep, -⟩ := hes e he
    exact ⟨r, hr, e, hstep, rfl⟩
  refine ⟨fun hmem => ?_, hfin, fun r' hr' => ?_, fun hl' r' hr' => ?_, fun hl' r' hr' => ?_⟩
  · obtain ⟨r', hr', hnull⟩ := List.any_eq_true.mp (hdone.mp hmem)
    obtain ⟨r, hr, e, he, rfl⟩ := hedge r' hr'
    obtain rfl := (Re.ends_step (List.all_eq_true.mp residuals_ends r (h.residual r hr)) he).2 hnull
    have hends : endsLf r = true := List.any_eq_true.mpr ⟨e, he, hnull⟩
    cases l with
    | plain => simp [(h.plain rfl r hr).1] at hends
    | cr => simp [h.cr rfl r hr] at hends
    | other => cases hl
  · obtain ⟨r, hr, e, he, rfl⟩ := hedge r' hr'
    exact Re.next_mem_residuals (h.residual r hr) he
  · obtain ⟨r, hr, e, he, rfl⟩ := hedge r' hr'
    obtain ⟨rs, harrow, hb⟩ := Re.mem_step_iff.mp he
    have hcheck := List.all_eq_true.mp
      (List.all_eq_true.mp residuals_plain r (h.residual r hr)) (rs, e) harrow
    simp only [Bool.or_eq_true, Bool.and_eq_true, Bool.not_eq_true'] at hcheck
    refine hcheck.resolve_left fun hline => ?_
    obtain ⟨hlf, hcr⟩ := LineEnd.eq_of_next_plain (hl' ▸ hl)
    exact (eq_of_lineBytes hline hb).elim hlf hcr
  · obtain ⟨r, hr, e, he, rfl⟩ := hedge r' hr'
    obtain ⟨rfl, hplain⟩ := LineEnd.eq_of_next_cr (hl' ▸ hl)
    have hcr := (h.plain hplain r hr).2
    simp only [endsCrLf, List.any_eq_false, Bool.not_eq_true] at hcr
    exact hcr e he

/-- **A text without a blank line.** -/
theorem Reading.run {l l' : LineEnd} {w : Bytes} {s : State ClientAction} (h : Reading l s)
    (hw : l.follow w = some l') : s.Quiet .done w ∧ ∀ s', s.run w = some s' → Reading l' s' := by
  induction w generalizing l s with
  | nil =>
    cases hw
    refine ⟨trivial, fun s' hs' => ?_⟩
    cases hs'
    exact h
  | cons b w ih =>
    obtain ⟨l₁, hl₁, hw⟩ := Option.bind_eq_some_iff.mp hw
    refine ⟨fun s₁ as hadv => ?_, fun s' hs' => ?_⟩
    · obtain ⟨hdone, h₁⟩ := h.advance hl₁ hadv
      exact ⟨hdone, (ih h₁ hw).1⟩
    · obtain ⟨⟨s₁, as⟩, hadv, hrun⟩ := Option.bind_eq_some_iff.mp hs'
      exact (ih (h.advance hl₁ hadv).2 hw).2 s' hrun

theorem reading_start : Reading .plain [responseThread] := by
  have hself := Re.self_mem_residuals responseThread
  refine ⟨fun r hr => ?_, fun r hr => ?_, fun _ r hr => ?_, fun h => nomatch h⟩ <;>
    obtain rfl := List.mem_singleton.mp hr
  · exact responseThread_finishes
  · exact hself
  · decide +kernel

/-- **The wrong order.** The machine stops behind a header line that ends with `"\n\r"` and in front of
`connection`, and `done` does not run before. -/
theorem wrong_order_stops {w : Bytes} (hw : LineEnd.follow .plain w = some .plain) :
    State.Quiet .done [responseThread] (w ++ str "\n\rco") ∧
      State.run [responseThread] (w ++ str "\n\rco") = none := by
  have hfollow : LineEnd.follow .plain (w ++ str "\n\rco") = some .plain := by
    rw [LineEnd.follow_append, hw]
    rfl
  refine ⟨(reading_start.run hfollow).1, ?_⟩
  rw [State.run_append]
  cases hrun : State.run [responseThread] w with
  | none => rfl
  | some s =>
    have hreading := (reading_start.run hw).2 s hrun
    refine State.run_eq_none (State.run_ne_nil (List.cons_ne_nil _ _) hrun) fun r hr => ?_
    exact List.isEmpty_iff.mp (List.all_eq_true.mp residuals_wrong_order r (hreading.residual r hr))

/-! ## A response without headers -/

/-- The state of the machine behind a text. -/
def stateAfter (t : String) : State ClientAction :=
  (State.run (start ClientGrammar.main) (str t)).getD []

/-- In front of the code. -/
def codeStart : State ClientAction := stateAfter "HTTP/1.1 "
/-- In the code. -/
def codeState : State ClientAction := stateAfter "HTTP/1.1 2"
/-- In front of the reason. -/
def reasonStart : State ClientAction := stateAfter "HTTP/1.1 2 "
/-- In the reason. -/
def reasonState : State ClientAction := stateAfter "HTTP/1.1 2 O"
/-- Behind the status line. -/
def lineStart : State ClientAction := stateAfter "HTTP/1.1 2 O\r\n"
/-- Behind `connection: close`. -/
def closeState : State ClientAction := stateAfter "HTTP/1.1 2 O\r\nconnection: close\r\n"
/-- Behind `connection: keep-alive`. -/
def openState : State ClientAction := stateAfter "HTTP/1.1 2 O\r\nconnection: keep-alive\r\n"
/-- In front of a length. -/
def lengthStart : State ClientAction := stateAfter "HTTP/1.1 2 O\r\ncontent-length: "
/-- In a length. -/
def lengthState : State ClientAction := stateAfter "HTTP/1.1 2 O\r\ncontent-length: 1"
/-- Behind the last carriage return. -/
def lastCr : State ClientAction := stateAfter "HTTP/1.1 2 O\r\n\r"

/-- The actions on a header line whose name has `k + 1` bytes and whose value `j + 1`. -/
def fieldActs (k j : Nat) : List (List ClientAction) :=
  [.startField] :: (List.replicate k [] ++ ([.writeField] :: [.startValue] :: [.startValue] ::
    (List.replicate j [] ++ [[.writeValue], []])))

/-- The moves of the machine on a response without headers of its own. The length can stand behind either line
`connection`, and behind `close` it runs `write_connection_close` as well. -/
@[mk_iff]
structure ResponseMoves : Prop where
  version : ∀ v ∈ [str "HTTP/1.0 ", str "HTTP/1.1 "],
    walk (start ClientGrammar.main) v =
      some (codeStart, [[.mark], [], [], [], [], [], [], [], [.httpVersion]])
  code : codeStart.onRanges [(48, 57)] (codeState, [.mark]) = true ∧
    codeState.onRanges [(48, 57)] (codeState, []) = true ∧
    advance codeState 32 = some (reasonStart, [.statusCode])
  reason : reasonStart.onRanges [(0, 9), (11, 12), (14, 255)] (reasonState, [.mark]) = true ∧
    reasonState.onRanges [(0, 9), (11, 12), (14, 255)] (reasonState, []) = true ∧
    walk reasonState (str "\r\n") = some (lineStart, [[.reasonPhrase], []])
  close : walk lineStart (str "connection: close\r\n") = some (closeState, fieldActs 9 4)
  keepAlive : walk lineStart (str "connection: keep-alive\r\n") = some (openState, fieldActs 9 9)
  openLength : walk openState (str "content-length: ") = some (lengthStart,
    [.startField] :: (List.replicate 13 [] ++ [[.writeField], [.startValue]]))
  closeLength : walk closeState (str "content-length: ") = some (lengthStart,
    [.writeConnectionClose, .startField] :: (List.replicate 13 [] ++ [[.writeField], [.startValue]]))
  digits : lengthStart.onRanges [(48, 57)] (lengthState, [.startValue]) = true ∧
    lengthState.onRanges [(48, 57)] (lengthState, []) = true
  lengthEnd : walk lengthState (str "\r\n") =
    some (openState, [[.writeContentLen, .writeValue], []])
  openLast : advance openState 13 = some (lastCr, [])
  closeLast : advance closeState 13 = some (lastCr, [.writeConnectionClose])
  last : advance lastCr 10 = some (sizeEnd, [.done])

set_option synthInstance.maxSize 1000 in
theorem responseMoves : ResponseMoves := by
  rw [responseMoves_iff]
  decide +kernel

end Sherry.Http
