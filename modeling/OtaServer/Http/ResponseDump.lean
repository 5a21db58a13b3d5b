import OtaServer.Http.ResponseLines

/-!
# Reading back a response

What the response parser makes of `HttpResponse::toString`.

* `exec_walk`: the run over a text, from the states and actions of the machine.
* `exec_plain`: the run over a response without headers.
* `response_readBack_iff`: the response is read back exactly if it has no headers and less than `2 ^ 31` bytes, which
  the parser compares as an `int`.
-/

namespace Sherry.Http

open Lib Ragel

/-- A response with a status of the table, a known version, and headers and a reason that can be written in a line.
The only reasons that are ever set are those that the parser has read. -/
structure Dumpable (r : HttpResponse) : Prop where
  status : ∃ e ∈ httpStatusMap, e.2.1 = r.status
  version : r.version = 0x10 ∨ r.version = 0x11
  reason : ∀ b ∈ r.reason, b ≠ 13 ∧ b ≠ 10
  names : ∀ e ∈ r.headers.entries, IsToken e.1 ∧ caseKey e.1 ≠ caseKey (str "connection") ∧
    caseKey e.1 ≠ caseKey (str "content-length")
  values : ∀ e ∈ r.headers.entries, ∀ b ∈ e.2, b ≠ 13 ∧ b ≠ 10

/-- The parser finishes on the text of the response in one buffer, without an error, with the status, the version and
the headers of the response, and the body is left. -/
def ReadsBack (lastChunk : Bool) (r : HttpResponse) : Prop :=
  ∃ p b, (HttpResponseParser.new lastChunk).execute ⟨r.toString, [0]⟩ = some (p, b) ∧
    p.hasError = false ∧ p.isFinished = true ∧ p.data.status = r.status ∧
    p.data.version = r.version ∧
    (∀ e ∈ r.headers.entries, p.data.headers.find? e.1 = some e.2) ∧ b.text = r.body

namespace HttpResponseParser

variable {memory rest w : Bytes} {p p' : HttpResponseParser} {n : Nat}

/-- A run in which `done` does not run and that ends with an error. -/
theorem exec_stops {s : State ClientAction} (hquiet : s.Quiet .done w)
    (hrun : s.run w = none) {fpc : Nat} (hcs : p.cs = some s)
    (h : exec memory fpc (w ++ rest) p = some (p', n)) : p'.cs = none := by
  induction w generalizing s fpc p with
  | nil => cases hrun
  | cons b w ih =>
    rw [List.cons_append, exec, hcs, Option.bind_some] at h
    cases hadv : advance s b with
    | none =>
      rw [hadv] at h
      cases h
      rfl
    | some out =>
      obtain ⟨s', as⟩ := out
      obtain ⟨hdone, hquiet'⟩ := hquiet s' as hadv
      rw [State.run, hadv] at hrun
      rw [hadv] at h
      dsimp only at h
      split at h
      · cases h
      · rw [if_neg hdone] at h
        exact ih hquiet' hrun rfl h

/-! ## The run over a fixed text -/

/-- The actions of the bytes from a position on. -/
def actsFrom (memory : Bytes) : Nat → HttpResponseParser → List (List ClientAction) → Option HttpResponseParser :=
  Ragel.actsFrom fun fpc p a => p.act memory fpc a

theorem act_withCs (memory : Bytes) (fpc : Nat) (p : HttpResponseParser) (a : ClientAction)
    (cs : Option (State ClientAction)) :
    act memory fpc { p with cs := cs } a = (p.act memory fpc a).map fun q => { q with cs := cs } := by
  cases a with
  | writeValue =>
    simp only [act, onResponseHttpField]
    split
    · rfl
    · cases substr memory p.fieldStart p.fieldLen with
      | none => rfl
      | some field => cases substr memory p.mark (distance p.mark fpc) <;> rfl
  | reasonPhrase =>
    simp only [act]
    cases substr memory p.mark (distance p.mark fpc) <;> rfl
  | httpVersion =>
    simp only [act, onResponseVersion, Option.map_some]
    split
    · rfl
    · split <;> rfl
  | chunkSize =>
    simp only [act]
    split <;> rfl
  | _ => rfl

theorem runner (memory : Bytes) : Runner HttpResponseParser.cs (fun p s => { p with cs := some s })
    (fun fpc p a => p.act memory fpc a) .done (exec memory) where
  byte hcs hadv hact hdone := exec_byte hcs hadv hact hdone rfl
  cs_setCs _ _ := rfl
  setCs_self h := by rw [← h]
  setCs_setCs _ _ _ := rfl
  act_setCs fpc p s a := act_withCs memory fpc p a (some s)

theorem exec_walk {s s' : State ClientAction}
    {ass : List (List ClientAction)} (hwalk : walk s w = some (s', ass))
    (hdone : ∀ as ∈ ass, .done ∉ as) {fpc : Nat} {q : HttpResponseParser} (hcs : p.cs = some s)
    (hacts : actsFrom memory fpc p ass = some p') (hq : { p' with cs := some s' } = q) :
    exec memory fpc (w ++ rest) p = exec memory (fpc + w.length) rest q :=
  hq ▸ (runner memory).walk hwalk hdone hcs hacts

/-! ## The lines of a response -/

theorem exec_version {v : UInt8} (hv : v = 0x10 ∨ v = 0x11)
    (hcs : p.cs = some (start ClientGrammar.main)) (tail rest : Bytes) :
    exec (versionText v ++ tail) 0 ((versionText v ++ str " ") ++ rest) p =
      exec (versionText v ++ tail) 9 rest { p with
        cs := some codeStart, mark := 0, data := { p.data with version := v } } := by
  have hmem : versionText v ++ str " " ∈ [str "HTTP/1.0 ", str "HTTP/1.1 "] := by
    rcases hv with rfl | rfl <;> decide
  have hversion : onResponseVersion { p with mark := 0 } (versionText v ++ tail) 8 =
      { p with mark := 0, data := { p.data with version := v } } := by
    rcases hv with rfl | rfl <;>
    · rw [onResponseVersion, strncmpEq_append (by decide), strncmpEq_append (by decide)]
      rfl
  have hlen : (versionText v ++ str " ").length = 9 := by
    rcases hv with rfl | rfl <;> decide
  have hacts : actsFrom (versionText v ++ tail) 0 p
      [[.mark], [], [], [], [], [], [], [], [.httpVersion]] =
        some { p with mark := 0, data := { p.data with version := v } } := by
    simp only [actsFrom, Ragel.actsFrom, act, List.foldlM_cons, List.foldlM_nil, Option.bind_some,
      Option.bind_eq_bind]
    exact congrArg some hversion
  rw [exec_walk (responseMoves.version _ hmem) (by decide) hcs hacts rfl, hlen]

theorem exec_code {ds : Bytes} (hne : ds ≠ []) (hds : ∀ b ∈ ds, 48 ≤ b ∧ b ≤ 57) (hcs : p.cs = some codeStart) :
    exec memory n (ds ++ 32 :: rest) p = exec memory (n + ds.length + 1) rest
      (onResponseStaus { p with cs := some reasonStart, mark := n } (memory.drop n)) := by
  obtain ⟨d, ds, rfl⟩ := List.exists_cons_of_ne_nil hne
  have hin : ∀ b ∈ d :: ds, inRanges [(48, 57)] b = true := fun b hb => by
    simp [inRanges, hds b hb]
  have hfirst : exec memory n (d :: (ds ++ 32 :: rest)) p =
      exec memory (n + 1) (ds ++ 32 :: rest) { p with cs := some codeState, mark := n } :=
    exec_byte hcs (advance_of_ranges responseMoves.code.1 (hin d List.mem_cons_self)) rfl (by simp) rfl
  have hloop : exec memory (n + 1) (ds ++ 32 :: rest) { p with cs := some codeState, mark := n } =
      exec memory (n + 1 + ds.length) (32 :: rest) { p with cs := some codeState, mark := n } :=
    exec_loop (fun b hb => advance_of_ranges responseMoves.code.2.1 (hin b (List.mem_cons_of_mem d hb))) rfl
  rw [List.cons_append, hfirst, hloop, exec_byte rfl responseMoves.code.2.2 rfl (by simp) rfl,
    List.length_cons, Nat.add_right_comm n 1, Nat.add_assoc n ds.length 1]
  rfl

theorem exec_reason (hne : w ≠ []) (hw : ∀ b ∈ w, b ≠ 13 ∧ b ≠ 10)
    (hmem : n + w.length ≤ memory.length) (hcs : p.cs = some reasonStart) :
    exec memory n (w ++ (str "\r\n" ++ rest)) p = exec memory (n + w.length + 2) rest
      (onResponseReason { p with cs := some lineStart, mark := n } ((memory.drop n).take w.length)) := by
  have hranges : ∀ b : UInt8, b ≠ 13 ∧ b ≠ 10 →
      inRanges [(0, 9), (11, 12), (14, 255)] b = true := by grind -linarith [inRanges]
  obtain ⟨x, w, rfl⟩ := List.exists_cons_of_ne_nil hne
  have hfirst : exec memory n (x :: (w ++ (str "\r\n" ++ rest))) p =
      exec memory (n + 1) (w ++ (str "\r\n" ++ rest)) { p with cs := some reasonState, mark := n } :=
    exec_byte hcs (advance_of_ranges responseMoves.reason.1 (hranges x (hw x List.mem_cons_self))) rfl
      (by simp) rfl
  have hloop : exec memory (n + 1) (w ++ (str "\r\n" ++ rest))
        { p with cs := some reasonState, mark := n } =
      exec memory (n + 1 + w.length) (str "\r\n" ++ rest)
        { p with cs := some reasonState, mark := n } :=
    exec_loop (fun b hb => advance_of_ranges responseMoves.reason.2.1
      (hranges b (hw b (List.mem_cons_of_mem x hb)))) rfl
  have hacts : actsFrom memory (n + 1 + w.length) { p with cs := some reasonState, mark := n }
      [[.reasonPhrase], []] = some (onResponseReason { p with cs := some reasonState, mark := n }
        ((memory.drop n).take (x :: w).length)) := by
    have hdist : distance n (n + 1 + w.length) = (x :: w).length := by
      rw [distance, if_pos (by omega), List.length_cons]
      omega
    simp only [actsFrom, Ragel.actsFrom, act, List.foldlM_cons, List.foldlM_nil, Option.bind_eq_bind,
      Option.pure_def, Option.bind_fun_some, hdist]
    rw [substr, if_pos hmem]
    rfl
  rw [List.cons_append, hfirst, hloop, exec_walk responseMoves.reason.2.2 (by decide) rfl hacts rfl,
    List.length_cons, Nat.add_right_comm n 1, Nat.add_assoc n w.length 1]
  rfl

/-- The line of the header `connection`. -/
def connectionLine (close : Bool) : Bytes :=
  str "connection: " ++ connectionText close ++ str "\r\n"

/-- What a header line leaves as it was, and the positions behind it. -/
structure Passed (p p' : HttpResponseParser) (n : Nat) : Prop where
  error : p'.error = p.error
  status : p'.data.status = p.data.status
  version : p'.data.version = p.data.version
  nread : p'.nread = p.nread
  inside : p'.Inside n

theorem Passed.trans {p'' : HttpResponseParser} {n' : Nat} (h : Passed p p' n)
    (h' : Passed p' p'' n') : Passed p p'' n' :=
  ⟨h'.error.trans h.error, h'.status.trans h.status, h'.version.trans h.version,
    h'.nread.trans h.nread, h'.inside⟩

theorem act_writeValue (hmark : p.mark ≤ n)
    (hn : n ≤ memory.length) (hfield : p.fieldStart + p.fieldLen ≤ memory.length) :
    ∃ r, p.act memory n .writeValue = some { p with data := r } ∧ r.status = p.data.status ∧
      r.version = p.data.version := by
  simp only [act, onResponseHttpField]
  split
  · exact ⟨p.data, rfl, rfl, rfl⟩
  · have hvalue : p.mark + distance p.mark n ≤ memory.length := by
      rw [distance, if_pos hmark]
      omega
    rw [substr, substr, if_pos hfield, if_pos hvalue]
    exact ⟨_, rfl, rfl, rfl⟩

theorem actsFrom_field {k j : Nat} (hmem : n + (k + j + 6) ≤ memory.length) (p : HttpResponseParser) :
    ∃ r, actsFrom memory n p (fieldActs k j) = some { p with
        fieldStart := n, fieldLen := k + 1, mark := n + (k + 3), data := r } ∧
      r.status = p.data.status ∧ r.version = p.data.version := by
  have hvalue : ∃ r, act memory (n + (k + 3) + 1 + j)
        { p with fieldStart := n, fieldLen := k + 1, mark := n + (k + 3) } .writeValue =
      some { p with fieldStart := n, fieldLen := k + 1, mark := n + (k + 3), data := r } ∧
      r.status = p.data.status ∧ r.version = p.data.version :=
    act_writeValue (by simp only; omega) (by omega) (by simp only; omega)
  obtain ⟨r, hr, hstatus, hversion⟩ := hvalue
  refine ⟨r, ?_, hstatus, hversion⟩
  have hlen : distance n (n + 1 + k) = k + 1 := by
    rw [distance, if_pos (by omega)]
    omega
  have hmark : n + 1 + k + 1 + 1 = n + (k + 3) := by omega
  simp only [actsFrom, fieldActs, Ragel.actsFrom, act, List.foldlM_cons, List.foldlM_nil,
    Option.bind_eq_bind, Option.bind_some, Option.pure_def, actsFrom_append, actsFrom_replicate,
    List.length_replicate, hlen, hmark, Option.bind_fun_some]
  exact hr

theorem exec_connection (close : Bool) (memory rest : Bytes)
    (hcs : p.cs = some lineStart) (hin : p.Inside n)
    (hmem : n + (connectionLine close).length ≤ memory.length) :
    ∃ p', exec memory n (connectionLine close ++ rest) p =
        exec memory (n + (connectionLine close).length) rest p' ∧
      p'.cs = some (if close then closeState else openState) ∧
      Passed p p' (n + (connectionLine close).length) := by
  have hbody := hin.bodyStart
  cases close with
  | true =>
    have hlen : (connectionLine true).length = 9 + 4 + 6 := by decide
    rw [hlen] at hmem ⊢
    obtain ⟨r, hacts, hstatus, hversion⟩ := actsFrom_field hmem p
    refine ⟨_, exec_walk responseMoves.close (by decide) hcs hacts rfl, rfl, rfl, hstatus, hversion, rfl, ?_⟩
    constructor <;> dsimp only <;> omega
  | false =>
    have hlen : (connectionLine false).length = 9 + 9 + 6 := by decide
    rw [hlen] at hmem ⊢
    obtain ⟨r, hacts, hstatus, hversion⟩ := actsFrom_field hmem p
    refine ⟨_, exec_walk responseMoves.keepAlive (by decide) hcs hacts rfl, rfl, rfl, hstatus, hversion, rfl, ?_⟩
    constructor <;> dsimp only <;> omega

theorem exec_length (close : Bool) (memory rest : Bytes) {ds : Bytes} (hne : ds ≠ [])
    (hds : ∀ b ∈ ds, 48 ≤ b ∧ b ≤ 57)
    (hcs : p.cs = some (if close then closeState else openState)) (hin : p.Inside n)
    (hmem : n + (str "content-length: " ++ ds ++ str "\r\n").length ≤ memory.length) :
    ∃ p', exec memory n ((str "content-length: " ++ ds ++ str "\r\n") ++ rest) p =
        exec memory (n + (str "content-length: " ++ ds ++ str "\r\n").length) rest p' ∧
      p'.cs = some openState ∧
      Passed p p' (n + (str "content-length: " ++ ds ++ str "\r\n").length) := by
  obtain ⟨d, ds, rfl⟩ := List.exists_cons_of_ne_nil hne
  have hbody := hin.bodyStart
  have hin' : ∀ b ∈ d :: ds, inRanges [(48, 57)] b = true := fun b hb => by
    simp [inRanges, hds b hb]
  have hlen : (str "content-length: " ++ (d :: ds) ++ str "\r\n").length = ds.length + 19 := by
    simp only [List.length_append, List.length_cons]
    exact Nat.add_comm 16 _ ▸ rfl
  have hsplit : (str "content-length: " ++ (d :: ds) ++ str "\r\n") ++ rest =
      str "content-length: " ++ (d :: (ds ++ (str "\r\n" ++ rest))) := by simp
  -- the parser in front of the digits, and in them
  let q₀ : HttpResponseParser := { p with cs := some lengthStart, fieldStart := n, fieldLen := 14, mark := n + 15 }
  let q : HttpResponseParser := { q₀ with cs := some lengthState, mark := n + 16 }
  let len := toInt (strtol 10 (memory.drop (n + 16)))
  have hname : exec memory n (str "content-length: " ++ (d :: (ds ++ (str "\r\n" ++ rest)))) p =
      exec memory (n + 16) (d :: (ds ++ (str "\r\n" ++ rest))) q₀ := by
    have hdist : distance n (n + 1 + 13) = 14 := by
      rw [distance, if_pos (by omega)]
      omega
    have hacts : ∀ first, first = [.startField] ∨ first = [.writeConnectionClose, .startField] →
        actsFrom memory n p (first :: (List.replicate 13 [] ++ [[.writeField], [.startValue]])) =
          some { p with fieldStart := n, fieldLen := 14, mark := n + 15 } := by
      rintro _ (rfl | rfl) <;>
      simp only [actsFrom, Ragel.actsFrom, act, List.foldlM_cons, List.foldlM_nil, Option.bind_eq_bind,
        Option.bind_some, Option.pure_def, actsFrom_append, actsFrom_replicate,
        List.length_replicate, hdist, Nat.add_assoc]
    cases close with
    | true =>
      rw [if_pos rfl] at hcs
      exact exec_walk responseMoves.closeLength (by decide) hcs (hacts _ (.inr rfl)) rfl
    | false =>
      rw [if_neg Bool.false_ne_true] at hcs
      exact exec_walk responseMoves.openLength (by decide) hcs (hacts _ (.inl rfl)) rfl
  have hfirst : exec memory (n + 16) (d :: (ds ++ (str "\r\n" ++ rest))) q₀ =
      exec memory (n + 17) (ds ++ (str "\r\n" ++ rest)) q :=
    exec_byte rfl (advance_of_ranges responseMoves.digits.1 (hin' d List.mem_cons_self)) rfl (by simp) rfl
  have hloop : exec memory (n + 17) (ds ++ (str "\r\n" ++ rest)) q =
      exec memory (n + 17 + ds.length) (str "\r\n" ++ rest) q :=
    exec_loop (fun b hb => advance_of_ranges responseMoves.digits.2
      (hin' b (List.mem_cons_of_mem d hb))) rfl
  rw [hlen] at hmem ⊢
  have hvalue : ∃ r, act memory (n + 17 + ds.length) { q with contentLen := len } .writeValue =
        some { q with contentLen := len, data := r } ∧
      r.status = p.data.status ∧ r.version = p.data.version :=
    act_writeValue (by dsimp only [q, q₀]; omega) (by omega) (by dsimp only [q, q₀]; omega)
  obtain ⟨r, hr, hstatus, hversion⟩ := hvalue
  have hacts : actsFrom memory (n + 17 + ds.length) q [[.writeContentLen, .writeValue], []] =
      some { q with contentLen := len, data := r } := by
    rw [actsFrom, Ragel.actsFrom, List.foldlM_cons]
    exact congrArg (fun x => Option.bind (Option.bind x some) some) hr
  have hend : n + 17 + ds.length + (str "\r\n").length = n + (ds.length + 19) := by
    have : (str "\r\n").length = 2 := rfl
    omega
  refine ⟨{ q with cs := some openState, contentLen := len, data := r }, ?_, rfl, rfl, hstatus, hversion, rfl, ?_⟩
  · rw [hsplit, hname, hfirst, hloop, exec_walk responseMoves.lengthEnd (by decide) rfl hacts rfl, hend]
  · constructor <;> dsimp only [q, q₀] <;> omega

theorem exec_last (close : Bool) (memory rest : Bytes) (n : Nat)
    (hcs : p.cs = some (if close then closeState else openState)) :
    exec memory n (str "\r\n" ++ rest) p =
      some ({ p with cs := some sizeEnd, bodyStart := n + 2 }, n + 2) := by
  have hfirst : exec memory n (13 :: 10 :: rest) p =
      exec memory (n + 1) (10 :: rest) { p with cs := some lastCr } := by
    cases close with
    | true =>
      rw [if_pos rfl] at hcs
      exact exec_byte hcs responseMoves.closeLast rfl (by simp) rfl
    | false =>
      rw [if_neg Bool.false_ne_true] at hcs
      exact exec_byte hcs responseMoves.openLast rfl (by simp) rfl
  exact hfirst.trans (exec_done rfl responseMoves.last rfl (by simp) rfl)

end HttpResponseParser

/-! ## Reading back -/

/-- The text behind the status. -/
def reasonText (r : HttpResponse) : Bytes :=
  if r.reason = [] then httpStatusToString r.status else r.reason

/-- The parser finds the statuses of the table by their codes. -/
theorem ofCode_of_mem : ∀ e ∈ httpStatusMap, e.2.1.code < 2 ^ 31 ∧ HttpStatus.ofCode e.2.1.code = e.2.1 := by
  have htable : ∀ e ∈ httpStatusMap, e.2.1.code = e.1 ∧ e.1 < 2 ^ 31 ∧ HttpStatus.ofCode e.1 = e.2.1 := by
    decide +kernel
  intro e he
  obtain ⟨hcode, hlt, hof⟩ := htable e he
  rw [hcode]
  exact ⟨hlt, hof⟩

/-- The texts of the table fit in a line, and so does the one for a status that is not there. -/
theorem httpStatusToString_line (s : HttpStatus) :
    httpStatusToString s ≠ [] ∧ ∀ b ∈ httpStatusToString s, b ≠ 13 ∧ b ≠ 10 := by
  have htable : (str "<unknown>" :: httpStatusMap.map (·.2.2)).all
      (fun t => t != [] && t.all fun b => b != 13 && b != 10) = true := by decide +kernel
  have hmem : httpStatusToString s ∈ str "<unknown>" :: httpStatusMap.map (·.2.2) := by
    unfold httpStatusToString
    cases hfind : httpStatusMap.find? (·.2.1 = s) with
    | none => exact List.mem_cons_self
    | some e => exact List.mem_cons_of_mem _ (List.mem_map_of_mem (List.mem_of_find?_eq_some hfind))
  simpa using List.all_eq_true.mp htable _ hmem

theorem reasonText_ne (r : HttpResponse) : reasonText r ≠ [] := by
  unfold reasonText
  split
  · exact (httpStatusToString_line r.status).1
  · assumption

namespace Dumpable

variable {r : HttpResponse}

theorem reasonText_line (h : Dumpable r) : ∀ b ∈ reasonText r, b ≠ 13 ∧ b ≠ 10 := by
  unfold reasonText
  split
  · exact (httpStatusToString_line r.status).2
  · exact h.reason

/-- The status that the parser reads from the digits of the code. -/
theorem onStatus (h : Dumpable r) (p : HttpResponseParser) (rest : Bytes) :
    p.onResponseStaus (dec r.status.code ++ 32 :: rest) =
      { p with data := { p.data with status := r.status } } := by
  obtain ⟨e, he, hs⟩ := h.status
  obtain ⟨hlt, hcode⟩ := ofCode_of_mem e he
  rw [hs] at hlt hcode
  have hvalue : valueOf 10 (dec r.status.code) < 2 ^ 63 := by
    rw [valueOf_dec]
    omega
  rw [HttpResponseParser.onResponseStaus, strtol_dec (dec_ne_nil _)
    (fun b hb => digitValue_lt_of_mem_dec hb) hvalue, valueOf_dec, toInt_of_lt hlt, hcode]

theorem dumped (h : Dumpable r) : r.headers.dumped = r.headers.entries := by
  rw [HeaderMap.dumped, List.filter_eq_self]
  intro e he
  simpa using (h.names e he).2.1

end Dumpable

/-- The line of the length of a body. -/
def lengthLine (body : Bytes) : Bytes :=
  if body = [] then [] else str "content-length: " ++ dec body.length ++ str "\r\n"

/-- The text behind the status line of a response without headers. -/
def plainTail (r : HttpResponse) : Bytes :=
  HttpResponseParser.connectionLine r.close ++ (lengthLine r.body ++ (str "\r\n" ++ r.body))

/-- The status line. -/
def statusLine (r : HttpResponse) : Bytes :=
  (versionText r.version ++ str " ") ++ (dec r.status.code ++ 32 :: (reasonText r ++ str "\r\n"))

variable {r : HttpResponse}

theorem Dumpable.versionText_length (h : Dumpable r) : (versionText r.version ++ str " ").length = 9 := by
  rcases h.version with hv | hv <;> rw [hv] <;> decide

theorem Dumpable.statusLine_length (h : Dumpable r) : (statusLine r).length =
    9 + (dec r.status.code).length + 1 + (reasonText r).length + 2 := by
  have hcrlf : (str "\r\n").length = 2 := rfl
  rw [statusLine, List.length_append, h.versionText_length]
  simp only [List.length_append, List.length_cons]
  omega

/-- A header line up to its end. -/
def headerText (e : Bytes × Bytes) : Bytes := e.1 ++ str ": " ++ e.2

theorem Dumpable.toString_eq (h : Dumpable r) : r.toString = statusLine r ++
    ((r.headers.entries.flatMap fun e => headerText e ++ str "\n\r") ++ plainTail r) := by
  have h32 : str " " = [32] := rfl
  simp only [HttpResponse.toString, HttpResponse.dumpHead, h.dumped, plainTail,
    HttpResponseParser.connectionLine, lengthLine, reasonText, h32, statusLine, headerText,
    List.append_assoc, List.nil_append, List.cons_append]

namespace HttpResponseParser

variable {p : HttpResponseParser} {r : HttpResponse}

theorem exec_lengthLine (close : Bool) (body memory rest : Bytes) {n : Nat}
    (hcs : p.cs = some (if close then closeState else openState)) (hin : p.Inside n)
    (hmem : n + (lengthLine body).length ≤ memory.length) :
    ∃ p', ∃ close' : Bool, exec memory n (lengthLine body ++ rest) p =
        exec memory (n + (lengthLine body).length) rest p' ∧
      p'.cs = some (if close' then closeState else openState) ∧
      Passed p p' (n + (lengthLine body).length) := by
  unfold lengthLine at hmem ⊢
  by_cases hbody : body = []
  · rw [if_pos hbody]
    exact ⟨p, close, rfl, hcs, rfl, rfl, rfl, rfl, hin⟩
  · rw [if_neg hbody] at hmem ⊢
    obtain ⟨p', hexec, hcs', hpass⟩ := exec_length close memory rest (dec_ne_nil body.length)
      (fun b hb => digit_of_mem_dec hb) hcs hin hmem
    exact ⟨p', false, hexec, hcs', hpass⟩

theorem exec_plainTail (r : HttpResponse) (memory : Bytes) {n : Nat} (hcs : p.cs = some lineStart) (hin : p.Inside n)
    (hmem : n + (plainTail r).length ≤ memory.length) :
    ∃ p' stop, exec memory n (plainTail r) p = some (p', stop) ∧ p'.cs = some sizeEnd ∧
      Passed p p' stop ∧ stop + r.body.length = n + (plainTail r).length := by
  have hcrlf : (str "\r\n").length = 2 := rfl
  simp only [plainTail, List.length_append] at hmem ⊢
  obtain ⟨p₁, hconn, hcs₁, hpass₁⟩ :=
    exec_connection r.close memory (lengthLine r.body ++ (str "\r\n" ++ r.body)) hcs hin (by omega)
  rw [hconn]
  obtain ⟨p₂, close', hlength, hcs₂, hpass₂⟩ :=
    exec_lengthLine r.close r.body memory (str "\r\n" ++ r.body) hcs₁ hpass₁.inside (by omega)
  rw [hlength, exec_last close' memory r.body _ hcs₂]
  refine ⟨_, _, rfl, rfl, (hpass₁.trans hpass₂).trans ⟨rfl, rfl, rfl, rfl, ?_⟩, by omega⟩
  have hin₂ := hpass₂.inside
  exact ⟨by have := hin₂.mark; dsimp only; omega, by have := hin₂.fieldStart; dsimp only; omega,
    by have := hin₂.fieldLen; dsimp only; omega, Nat.le_refl _⟩

theorem exec_statusLine (h : Dumpable r) (hcs : p.cs = some (start ClientGrammar.main)) (rest tail : Bytes) :
    ∃ text, exec (statusLine r ++ tail) 0 (statusLine r ++ rest) p =
      exec (statusLine r ++ tail) (statusLine r).length rest { p with
        cs := some lineStart, mark := 9 + (dec r.status.code).length + 1,
        data := { p.data with status := r.status, version := r.version, reason := text } } := by
  have hblank := h.versionText_length
  have hlen := h.statusLine_length
  have hcode : (statusLine r ++ tail).drop 9 = dec r.status.code ++
      32 :: (reasonText r ++ str "\r\n" ++ tail) := by
    rw [statusLine, List.append_assoc, List.drop_append_of_le_length (by omega), ← hblank,
      List.drop_length, List.nil_append, List.append_assoc, List.cons_append]
  have hversion : exec (statusLine r ++ tail) 0 (statusLine r ++ rest) p =
      exec (statusLine r ++ tail) 9
        (dec r.status.code ++ 32 :: (reasonText r ++ (str "\r\n" ++ rest))) { p with
          cs := some codeStart, mark := 0, data := { p.data with version := r.version } } := by
    have := exec_version h.version hcs
      (str " " ++ (dec r.status.code ++ 32 :: (reasonText r ++ str "\r\n")) ++ tail)
      (dec r.status.code ++ 32 :: (reasonText r ++ (str "\r\n" ++ rest)))
    simpa only [statusLine, List.append_assoc, List.cons_append] using this
  rw [hversion, exec_code (dec_ne_nil _) (fun b hb => digit_of_mem_dec hb) rfl, hcode, h.onStatus,
    exec_reason (reasonText_ne r) h.reasonText_line (by rw [List.length_append]; omega) rfl, hlen]
  exact ⟨_, rfl⟩

/-- **A response without headers.** -/
theorem exec_plain (h : Dumpable r) (hnone : r.headers.entries = []) (lastChunk : Bool) :
    ∃ p stop, exec (r.toString ++ [0]) 0 r.toString (.new lastChunk) = some (p, stop) ∧
      p.cs = some sizeEnd ∧ p.error = 0 ∧ p.data.status = r.status ∧ p.data.version = r.version ∧
      p.Inside stop ∧ stop + r.body.length = r.toString.length := by
  have htext : r.toString = statusLine r ++ plainTail r := by
    rw [h.toString_eq, hnone, List.flatMap_nil, List.nil_append]
  rw [htext, List.append_assoc]
  obtain ⟨text, hline⟩ := exec_statusLine h (p := .new lastChunk) rfl (plainTail r)
    (plainTail r ++ [0])
  rw [hline]
  have hlen := h.statusLine_length
  obtain ⟨p, stop, hexec, hcs, hpass, hstop⟩ := exec_plainTail r
    (statusLine r ++ (plainTail r ++ [0])) (n := (statusLine r).length)
    (p := { HttpResponseParser.new lastChunk with
        cs := some lineStart, mark := 9 + (dec r.status.code).length + 1,
        data := { status := r.status, version := r.version, reason := text } }) rfl
    (by constructor <;> simp [new, init] <;> omega)
    (by simp only [List.length_append]; omega)
  refine ⟨p, stop, hexec, hcs, hpass.error, hpass.status, hpass.version, hpass.inside, ?_⟩
  rw [List.length_append]
  omega

theorem readsBack_plain (h : Dumpable r) (hnone : r.headers.entries = [])
    (hlen : r.toString.length < 2 ^ 31) (lastChunk : Bool) : ReadsBack lastChunk r := by
  obtain ⟨p, stop, hexec, hcs, herr, hstatus, hversion, hin, hstop⟩ := exec_plain h hnone lastChunk
  have hzero : (HttpResponseParser.new lastChunk).nread + stop = stop := Nat.zero_add stop
  have hle : stop ≤ r.toString.length := by omega
  have hchecked : { p with nread := (HttpResponseParser.new lastChunk).nread + stop }.Checked
      r.toString.length := by
    rw [hzero]
    exact ⟨hle, (hin.mono hle).bodyStart, (hin.mono hle).mark, (hin.mono hle).fieldLen, (hin.mono hle).fieldStart⟩
  refine ⟨_, _, execute_eq hlen hexec hchecked, ?_, ?_, hstatus, hversion, ?_, ?_⟩
  · rw [hasError, herr, hcs]
    rfl
  · rw [isFinished, hcs]
    exact sizeEnd_finished
  · rw [hnone]
    exact fun e he => absurd he List.not_mem_nil
  · have hhead : stop = (r.dumpHead).length := by
      rw [HttpResponse.toString, List.length_append] at hstop
      omega
    have hdrop : r.toString.drop stop = r.body := by
      rw [hhead, HttpResponse.toString, List.drop_left]
    rw [hzero]
    exact hdrop

end HttpResponseParser

/-! ## Headers -/

theorem LineEnd.follow_line (l : LineEnd) {w : Bytes} (hne : w ≠ []) (hw : ∀ b ∈ w, b ≠ 13 ∧ b ≠ 10) :
    l.follow w = some .plain := by
  induction w generalizing l with
  | nil => exact absurd rfl hne
  | cons b w ih =>
    obtain ⟨hcr, hlf⟩ := hw b List.mem_cons_self
    have hnext : l.next b = some .plain := by rw [LineEnd.next, if_neg hlf, if_neg hcr]
    rw [LineEnd.follow, List.foldlM_cons, hnext]
    by_cases hnil : w = []
    · rw [hnil]
      rfl
    · exact ih .plain hnil fun b' hb' => hw b' (List.mem_cons_of_mem b hb')

theorem tokenByte_line : ∀ b : UInt8, tokenByte b = true → b ≠ 13 ∧ b ≠ 10 := by grind -linarith [tokenByte]

namespace Dumpable

variable {r : HttpResponse}

theorem headerText_ne (e : Bytes × Bytes) : headerText e ≠ [] := by
  rw [headerText]
  exact List.append_ne_nil_of_left_ne_nil (List.append_ne_nil_of_right_ne_nil _ (by decide)) _

theorem headerText_line (h : Dumpable r) {e : Bytes × Bytes} (he : e ∈ r.headers.entries) :
    ∀ b ∈ headerText e, b ≠ 13 ∧ b ≠ 10 := by
  intro b hb
  rw [headerText, List.mem_append, List.mem_append] at hb
  obtain (hb | hb) | hb := hb
  · exact tokenByte_line b ((h.names e he).1.2 b hb)
  · obtain rfl | rfl : b = 58 ∨ b = 32 := by simpa [str] using hb
    · decide
    · decide
  · exact h.values e he b hb

theorem follow_headers (h : Dumpable r) {es : List (Bytes × Bytes)} (hes : es ⊆ r.headers.entries) :
    LineEnd.follow .other (es.flatMap fun e => headerText e ++ str "\n\r") = some .other := by
  induction es with
  | nil => rfl
  | cons e es ih =>
    obtain ⟨he, hes⟩ := List.cons_subset.mp hes
    rw [List.flatMap_cons, LineEnd.follow_append, LineEnd.follow_append,
      LineEnd.follow_line _ (headerText_ne e) (h.headerText_line he)]
    exact ih hes

theorem follow_statusLine (h : Dumpable r) : LineEnd.follow .plain (statusLine r) = some .other := by
  have hversion : LineEnd.follow .plain (versionText r.version ++ str " ") = some .plain := by
    rcases h.version with hv | hv <;> rw [hv] <;> decide
  have hcode : ∀ b ∈ dec r.status.code, b ≠ 13 ∧ b ≠ 10 := fun b hb => by
    obtain ⟨hlo, -⟩ := digit_of_mem_dec hb
    exact ⟨fun heq => by rw [heq] at hlo; exact absurd hlo (by decide),
      fun heq => by rw [heq] at hlo; exact absurd hlo (by decide)⟩
  have hblank : LineEnd.follow .plain (str " ") = some .plain := by decide
  rw [statusLine, LineEnd.follow_append, hversion, Option.bind_some, LineEnd.follow_append,
    LineEnd.follow_line _ (dec_ne_nil _) hcode, Option.bind_some,
    show (32 :: (reasonText r ++ str "\r\n")) = str " " ++ (reasonText r ++ str "\r\n") from rfl,
    LineEnd.follow_append, hblank, Option.bind_some, LineEnd.follow_append,
    LineEnd.follow_line _ (reasonText_ne r) h.reasonText_line]
  decide

/-- The text of a response with headers: the last header line ends with `"\n\r"`, and in front of that there is no
blank line. -/
theorem toString_headers (h : Dumpable r) (hne : r.headers.entries ≠ []) :
    ∃ w rest, r.toString = 72 :: ((w ++ str "\n\rco") ++ rest) ∧ LineEnd.follow .plain w = some .plain := by
  -- the status line and all headers but the last, and the last header up to its end
  have hlast := List.getLast_mem hne
  have hfollow : LineEnd.follow .plain (statusLine r ++
      ((r.headers.entries.dropLast.flatMap fun e => headerText e ++ str "\n\r") ++
        headerText (r.headers.entries.getLast hne))) = some .plain := by
    rw [LineEnd.follow_append, h.follow_statusLine, Option.bind_some, LineEnd.follow_append,
      h.follow_headers (List.dropLast_subset _), Option.bind_some,
      LineEnd.follow_line _ (headerText_ne _) (h.headerText_line hlast)]
  obtain ⟨line, hline⟩ : ∃ line, statusLine r = 72 :: line := by
    rcases h.version with hv | hv <;> exact ⟨_, by rw [statusLine, hv]; rfl⟩
  rw [hline, List.cons_append] at hfollow
  obtain ⟨rest, hrest⟩ : ∃ rest, plainTail r = str "co" ++ rest := ⟨_, rfl⟩
  refine ⟨line ++ (_ ++ _), rest, ?_, hfollow⟩
  have hentries : (r.headers.entries.flatMap fun e => headerText e ++ str "\n\r") =
      (r.headers.entries.dropLast.flatMap fun e => headerText e ++ str "\n\r") ++
        (headerText (r.headers.entries.getLast hne) ++ str "\n\r") := by
    conv => lhs; rw [← List.dropLast_append_getLast hne]
    rw [List.flatMap_append, List.flatMap_singleton]
  have hlf : str "\n\rco" = str "\n\r" ++ str "co" := rfl
  rw [h.toString_eq, hentries, hrest, hline, hlf]
  simp only [List.append_assoc, List.cons_append]

end Dumpable

theorem HttpResponseParser.exec_of_execute {p p' : HttpResponseParser} {b b' : Buffer}
    (h : p.execute b = some (p', b')) : ∃ q stop, exec b.memory 0 b.text p = some (q, stop) ∧
      p' = { q with nread := p.nread + stop } := by
  unfold execute at h
  split at h
  · cases h
  · obtain ⟨⟨q, stop⟩, hexec, h⟩ := Option.bind_eq_some_iff.mp h
    dsimp only at h
    split at h
    · cases h
      exact ⟨q, stop, hexec, rfl⟩
    · cases h

theorem HttpResponseParser.length_lt_of_execute {p p' : HttpResponseParser} {b b' : Buffer}
    (h : p.execute b = some (p', b')) : b.text.length < 2 ^ 31 := by
  unfold execute at h
  split at h
  · cases h
  · rename_i hsmall
    exact Nat.lt_of_not_le fun hle => hsmall (.inr hle)

/-- A response with headers is not read back. -/
theorem not_readsBack_headers (h : Dumpable r) (hne : r.headers.entries ≠ [])
    (lastChunk : Bool) : ¬ ReadsBack lastChunk r := by
  rintro ⟨p, b, hexecute, herr, -⟩
  obtain ⟨w, rest, htext, hfollow⟩ := h.toString_headers hne
  obtain ⟨hquiet, hrun⟩ := wrong_order_stops hfollow
  obtain ⟨p', stop, hexec, rfl⟩ := HttpResponseParser.exec_of_execute hexecute
  have hfirst : HttpResponseParser.exec (r.toString ++ [0]) 0 r.toString (.new lastChunk) =
      HttpResponseParser.exec (r.toString ++ [0]) 1 ((w ++ str "\n\rco") ++ rest)
        { HttpResponseParser.new lastChunk with cs := some [responseThread], mark := 0 } := by
    conv => lhs; arg 3; rw [htext]
    exact HttpResponseParser.exec_byte rfl advance_start_H rfl (by simp) rfl
  have hcs := HttpResponseParser.exec_stops hquiet hrun rfl (hfirst.symm.trans hexec)
  rw [HttpResponseParser.hasError, hcs] at herr
  simp at herr

/-- **Reading back.** -/
theorem response_readBack_iff (lastChunk : Bool) (r : HttpResponse) (h : Dumpable r) :
    ReadsBack lastChunk r ↔ r.headers.entries = [] ∧ r.toString.length < 2 ^ 31 := by
  constructor
  · intro hback
    refine ⟨Classical.byContradiction fun hne => not_readsBack_headers h hne lastChunk hback, ?_⟩
    obtain ⟨p, b, hexecute, -⟩ := hback
    have hlt := HttpResponseParser.length_lt_of_execute hexecute
    exact hlt
  · rintro ⟨hnone, hlen⟩
    exact HttpResponseParser.readsBack_plain h hnone hlen lastChunk

/-- A response with a body and no headers. -/
def plainResponse : HttpResponse := { status := .notFound, version := 0x10, body := str "gone" }

theorem response_readBack_plain : ReadsBack false plainResponse :=
  (response_readBack_iff false plainResponse ⟨by decide +kernel, .inl rfl,
    fun _ h => (nomatch h), fun _ h => (nomatch h), fun _ h => (nomatch h)⟩).mpr
    ⟨rfl, by decide +kernel⟩

/-- A response with one header. -/
def headerResponse : HttpResponse := { headers := KeyMap.empty.set (str "a") (str "b") }

theorem response_header_error : Dumpable headerResponse ∧ ¬ReadsBack false headerResponse ∧
    ((HttpResponseParser.new false).execute ⟨headerResponse.toString, [0]⟩).map (·.1.hasError) = some true := by
  have hdump : Dumpable headerResponse := by
    refine ⟨by decide +kernel, .inr rfl, by simp [headerResponse], fun e he => ?_, fun e he => ?_⟩ <;>
      rw [List.mem_singleton.mp he]
    · exact ⟨⟨by decide, by decide +kernel⟩, by decide, by decide⟩
    · decide +kernel
  exact ⟨hdump, not_readsBack_headers hdump (by decide) false, by decide +kernel⟩

end Sherry.Http
