import OtaServer.Http.Message
import OtaServer.Lib.Number
import OtaServer.Lib.Separator

/-!
# The length that a response announces

Behind a response that keeps its connection the next one follows at once, so a client has to find in the head how long
the body is. `HttpResponse::dump` writes a `content-length` of its own exactly for a body that is not empty, and
writes the headers of the servlet as they are, a `Content-Length` too.

* `contentLengths`: the `content-length` fields in a text. A line ends with a line feed; since `dump` ends header
  lines with `"\n\r"`, a carriage return at the start of a line belongs to the line before.
* `Framed`: the head has exactly one such field, with the length of the body.
* `framed_iff`: the two cases in which it does.
-/

namespace Sherry.Http

open Lib

/-! ## Fields of a head -/

/-- A blank around the value of a field. -/
def isFieldBlank (b : UInt8) : Bool := b == 32 || b == 9 || b == 13

/-- A value without the blanks around it. -/
def trimField (value : Bytes) : Bytes :=
  ((value.dropWhile isFieldBlank).reverse.dropWhile isFieldBlank).reverse

/-- The name of a field: what is in front of the colon, without carriage returns at its start, in small letters. -/
def fieldName (line : Bytes) : Bytes :=
  ((line.takeWhile (· != 58)).dropWhile (· == 13)).map toLower

/-- The value of a field. Nothing if there is no colon. -/
def fieldValue (line : Bytes) : Option Bytes :=
  match line.dropWhile (· != 58) with
  | [] => none
  | _ :: value => some (trimField value)

/-- The number of a `content-length` line; `some none` if such a line has no number. -/
def lengthField (line : Bytes) : Option (Option Nat) :=
  if fieldName line = str "content-length" then (fieldValue line).map numeral else none

/-- The `content-length` fields of a text, line by line. -/
def contentLengths (text : Bytes) : List (Option Nat) :=
  (text.splitOnP (· == 10)).filterMap lengthField

theorem contentLengths_line (a b : Bytes) : contentLengths (a ++ 10 :: b) = contentLengths a ++ contentLengths b := by
  rw [contentLengths, List.splitOnP_append_cons a b rfl, List.filterMap_append]
  rfl

theorem contentLengths_of_notMem {line : Bytes} (h : 10 ∉ line) :
    contentLengths line = (lengthField line).toList := by
  rw [contentLengths, split_single h]
  cases hl : lengthField line with
  | none => simp [hl]
  | some n => simp [hl]

theorem lengthField_cr (line : Bytes) : lengthField (13 :: line) = lengthField line := by
  have hname : fieldName (13 :: line) = fieldName line := rfl
  have hvalue : fieldValue (13 :: line) = fieldValue line := rfl
  rw [lengthField, lengthField, hname, hvalue]

theorem contentLengths_cr (text : Bytes) : contentLengths (13 :: text) = contentLengths text := by
  rw [contentLengths, contentLengths, List.splitOnP_cons_eq_if_modifyHead, if_neg (by decide)]
  cases hs : text.splitOnP (· == 10) with
  | nil => exact absurd hs (List.splitOnP_ne_nil _ _)
  | cons line rest => rw [List.modifyHead_cons, List.filterMap_cons, List.filterMap_cons, lengthField_cr]

/-! ## The head of a response -/

/-- The text of the status line. -/
def statusText (r : HttpResponse) : Bytes :=
  versionText r.version ++ str " " ++ dec r.status.code ++ str " " ++
    (if r.reason = [] then httpStatusToString r.status else r.reason) ++ str "\r"

/-- The `content-length` fields that come from the reason and the headers. -/
def givenLengths (r : HttpResponse) : List (Option Nat) :=
  contentLengths (statusText r) ++
    r.headers.dumped.flatMap fun e => contentLengths (e.1 ++ str ": " ++ e.2)

/-- The head has exactly one `content-length`, the length of the body behind the blank line. -/
def Framed (r : HttpResponse) : Prop := contentLengths r.dumpHead = [some r.body.length]

instance (r : HttpResponse) : Decidable (Framed r) := inferInstanceAs (Decidable (_ = _))

theorem contentLengths_headers (es : List (Bytes × Bytes)) (rest : Bytes) :
    contentLengths (es.flatMap (fun e => e.1 ++ str ": " ++ e.2 ++ str "\n\r") ++ rest) =
      (es.flatMap fun e => contentLengths (e.1 ++ str ": " ++ e.2)) ++ contentLengths rest := by
  induction es with
  | nil => rfl
  | cons e es ih =>
    have hend : str "\n\r" = [10, 13] := by decide
    rw [List.flatMap_cons, List.flatMap_cons, hend, List.append_assoc _ _ rest, List.append_assoc _ [10, 13],
      List.cons_append, List.cons_append, List.nil_append, contentLengths_line, contentLengths_cr, ← hend, ih]
    exact (List.append_assoc ..).symm

theorem dropWhile_isFieldBlank {text : Bytes} (hne : text ≠ [])
    (h : ∀ b ∈ text, isFieldBlank b = false) (rest : Bytes) :
    (text ++ rest).dropWhile isFieldBlank = text ++ rest := by
  obtain ⟨b, text', rfl⟩ := List.exists_cons_of_ne_nil hne
  exact List.dropWhile_cons_of_neg (by simp [h b List.mem_cons_self])

theorem trimField_of_blanks {text tail : Bytes} (hne : text ≠ []) (h : ∀ b ∈ text, isFieldBlank b = false)
    (htail : ∀ b ∈ tail, isFieldBlank b = true) : trimField (32 :: (text ++ tail)) = text := by
  have hback : text.reverse.dropWhile isFieldBlank = text.reverse := by
    rw [← List.append_nil text.reverse]
    exact dropWhile_isFieldBlank (by simpa using hne) (by simpa using h) []
  rw [trimField, List.dropWhile_cons_of_pos rfl, dropWhile_isFieldBlank hne h, List.reverse_append,
    List.dropWhile_append_of_pos (by simpa using htail), hback, List.reverse_reverse]

theorem isFieldBlank_of_digit : ∀ b : UInt8, 48 ≤ b ∧ b ≤ 57 → isFieldBlank b = false ∧ b ≠ 10 := by
  grind -linarith [isFieldBlank]

theorem contentLengths_own (n : Nat) : contentLengths (str "content-length: " ++ dec n ++ str "\r") = [some n] := by
  have hdigit : ∀ b ∈ dec n, isFieldBlank b = false ∧ b ≠ 10 := fun b hb =>
    isFieldBlank_of_digit b (digit_of_mem_dec hb)
  have hline : 10 ∉ str "content-length: " ++ dec n ++ str "\r" := by
    have hfront : 10 ∉ str "content-length: " := by decide
    have hback : 10 ∉ str "\r" := by decide
    simp only [List.mem_append, not_or]
    exact ⟨⟨hfront, fun h => (hdigit 10 h).2 rfl⟩, hback⟩
  have hend : ∀ b ∈ [(13 : UInt8)], isFieldBlank b = true := List.forall_mem_singleton.mpr rfl
  have hname : fieldName (str "content-length: " ++ dec n ++ str "\r") = str "content-length" := rfl
  have hvalue : fieldValue (str "content-length: " ++ dec n ++ str "\r") =
      some (trimField (32 :: (dec n ++ [13]))) := rfl
  rw [contentLengths_of_notMem hline, lengthField, if_pos hname, hvalue,
    trimField_of_blanks (dec_ne_nil n) (fun b hb => (hdigit b hb).1) hend, Option.map_some,
    numeral_dec]
  rfl

theorem contentLengths_connection (close : Bool) :
    contentLengths (str "connection: " ++ connectionText close ++ str "\r") = [] := by
  cases close <;> decide +kernel

/-- What the head announces: what it was given, and the line for a body that is not empty. -/
theorem contentLengths_dumpHead (r : HttpResponse) :
    contentLengths r.dumpHead =
      givenLengths r ++ if r.body = [] then [] else [some r.body.length] := by
  have hend : str "\r\n" = str "\r" ++ [10] := by decide
  have hblank : contentLengths (str "\r" ++ [10]) = [] := by decide +kernel
  have hhead : r.dumpHead = statusText r ++ 10 ::
      (r.headers.dumped.flatMap (fun e => e.1 ++ str ": " ++ e.2 ++ str "\n\r") ++
        ((str "connection: " ++ connectionText r.close ++ str "\r") ++ 10 ::
          ((if r.body = [] then [] else str "content-length: " ++ dec r.body.length ++ str "\r" ++ [10]) ++
            (str "\r" ++ [10])))) := by
    rw [HttpResponse.dumpHead, hend]
    simp only [statusText, List.append_assoc, List.cons_append, List.nil_append]
  rw [hhead, contentLengths_line, contentLengths_headers, contentLengths_line, contentLengths_connection,
    List.nil_append, ← List.append_assoc, givenLengths]
  congr 1
  by_cases hb : r.body = []
  · rw [if_pos hb, if_pos hb, List.nil_append, hblank]
  · rw [if_neg hb, if_neg hb, List.append_assoc, List.singleton_append, contentLengths_line,
      contentLengths_own, hblank, List.append_nil]

/-- **Framing.** The head announces the body, and nothing else, exactly if the body is not empty and
neither the reason nor a header makes a `content-length` line, or the body is empty and together they make
one, with the number 0. -/
theorem framed_iff (r : HttpResponse) :
    Framed r ↔ givenLengths r = if r.body = [] then [some 0] else [] := by
  rw [Framed, contentLengths_dumpHead]
  by_cases hb : r.body = []
  · rw [if_pos hb, if_pos hb, hb, List.append_nil]
    rfl
  · rw [if_neg hb, if_neg hb]
    exact List.append_left_eq_self

/-- Neither an empty body nor a header `Content-Length` beside a body is framed. -/
theorem framed_fails : ¬ Framed { close := false } ∧
    ¬ Framed (HttpResponse.setHeader { close := false, body := str "ok" } (str "Content-Length") (str "2")) := by
  decide +kernel

/-! ## Heads without line feeds of their own -/

/-- The reason and the headers make no lines of their own. -/
structure PlainHead (r : HttpResponse) : Prop where
  reason : 10 ∉ r.reason
  names : ∀ e ∈ r.headers.entries, IsToken e.1
  values : ∀ e ∈ r.headers.entries, 10 ∉ e.2

instance (name : Bytes) : Decidable (IsToken name) := inferInstanceAs (Decidable (_ ∧ _))

variable {r : HttpResponse}

theorem PlainHead.setHeader (h : PlainHead r) {key val : Bytes} (hkey : IsToken key)
    (hval : 10 ∉ val) : PlainHead (r.setHeader key val) := by
  have hall : ∀ e ∈ (r.headers.set key val).entries, IsToken e.1 ∧ 10 ∉ e.2 :=
    forall_insertEntry (P := IsToken) (Q := (10 ∉ ·)) hkey hval fun e he => ⟨h.names e he, h.values e he⟩
  exact ⟨h.reason, fun e he => (hall e he).1, fun e he => (hall e he).2⟩

theorem tokenByte_plain : ∀ b : UInt8, tokenByte b = true → b ≠ 0 ∧ b ≠ 10 ∧ b ≠ 13 ∧ b ≠ 58 :=
  forall_byte (by decide +kernel)

theorem caseKey_eq_contentLength {name : Bytes} (h : 0 ∉ name) :
    caseKey name = caseKey (str "content-length") ↔ name.map toLower = str "content-length" := by
  have hlower : (str "content-length").map toLower = str "content-length" := by decide
  rw [caseKey_eq_iff h (by decide), hlower]

theorem contentLengths_header {name value : Bytes} (hname : IsToken name) (hvalue : 10 ∉ value) :
    contentLengths (name ++ str ": " ++ value) =
      if caseKey name = caseKey (str "content-length") then [numeral (trimField (32 :: value))] else [] := by
  have hplain := fun b hb => tokenByte_plain b (hname.2 b hb)
  have hcolon : ∀ b ∈ name, (b != 58) = true := fun b hb => by simpa using (hplain b hb).2.2.2
  have hline : 10 ∉ name ++ str ": " ++ value := by
    have hmid : 10 ∉ str ": " := by decide
    simp only [List.mem_append, not_or]
    exact ⟨⟨fun h => (hplain 10 h).2.1 rfl, hmid⟩, hvalue⟩
  have hsplit : name ++ str ": " ++ value = name ++ 58 :: 32 :: value := by
    rw [List.append_assoc]
    rfl
  have hfront : fieldName (name ++ 58 :: 32 :: value) = name.map toLower := by
    obtain ⟨b, name', rfl⟩ := List.exists_cons_of_ne_nil hname.1
    have hb := (hplain b List.mem_cons_self).2.2.1
    rw [fieldName, List.takeWhile_append_of_pos hcolon, List.takeWhile_cons_of_neg (by decide),
      List.append_nil, List.dropWhile_cons_of_neg (by simpa using hb)]
  have hback : fieldValue (name ++ 58 :: 32 :: value) = some (trimField (32 :: value)) := by
    rw [fieldValue, List.dropWhile_append_of_pos hcolon, List.dropWhile_cons_of_neg (by decide)]
  rw [contentLengths_of_notMem hline, lengthField, hsplit, hfront, hback]
  simp only [caseKey_eq_contentLength fun h => (hplain 0 h).1 rfl]
  split <;> rfl

theorem lf_notMem_httpStatusToString (s : HttpStatus) : 10 ∉ httpStatusToString s := by
  have hmap : ∀ e ∈ httpStatusMap, 10 ∉ e.2.2 := by decide +kernel
  have hnone : 10 ∉ str "<unknown>" := by decide
  unfold httpStatusToString
  cases hf : httpStatusMap.find? (·.2.1 = s) with
  | none => exact hnone
  | some e => exact hmap e (List.mem_of_find?_eq_some hf)

theorem contentLengths_statusText (h : 10 ∉ r.reason) : contentLengths (statusText r) = [] := by
  have hdec : ∀ n, 10 ∉ dec n := fun n hn => (isFieldBlank_of_digit 10 (digit_of_mem_dec hn)).2 rfl
  have hreason : 10 ∉ if r.reason = [] then httpStatusToString r.status else r.reason := by
    split
    · exact lf_notMem_httpStatusToString r.status
    · exact h
  have hline : 10 ∉ statusText r := by
    have h₁ : 10 ∉ str "HTTP/" := by decide
    have h₂ : 10 ∉ str "." := by decide
    have h₃ : 10 ∉ str " " := by decide
    have h₄ : 10 ∉ str "\r" := by decide
    simp only [statusText, versionText, List.mem_append, not_or]
    exact ⟨⟨⟨⟨⟨⟨⟨⟨h₁, hdec _⟩, h₂⟩, hdec _⟩, h₃⟩, hdec _⟩, h₃⟩, hreason⟩, h₄⟩
  have hname : fieldName (statusText r) ≠ str "content-length" := by
    intro heq
    exact absurd (List.cons.inj heq).1 (by decide)
  rw [contentLengths_of_notMem hline, lengthField, if_neg hname]
  rfl

/-- The map has at most one header `content-length`, in whatever case. -/
theorem givenLengths_of_plain (h : PlainHead r) : givenLengths r =
      ((r.headers.find? (str "content-length")).map fun v => numeral (trimField (32 :: v))).toList := by
  have hne : caseKey (str "connection") ≠ caseKey (str "content-length") := by decide
  have hdumped : ∀ e ∈ r.headers.dumped, contentLengths (e.1 ++ str ": " ++ e.2) =
      if caseKey e.1 = caseKey (str "content-length") then [numeral (trimField (32 :: e.2))] else [] := by
    intro e he
    have hmem := (List.mem_filter.mp he).1
    exact contentLengths_header (h.names e hmem) (h.values e hmem)
  rw [givenLengths, contentLengths_statusText h.reason, List.nil_append, List.flatMap_congr hdumped,
    ← r.headers.flatMap_key, HeaderMap.dumped]
  -- what `dump` leaves out is no `content-length`
  induction r.headers.entries with
  | nil => rfl
  | cons e es ih =>
    by_cases hk : caseKey e.1 = caseKey (str "connection")
    · rw [List.filter_cons_of_neg (by simpa using hk), List.flatMap_cons, ih, hk, if_neg hne, List.nil_append]
    · rw [List.filter_cons_of_pos (by simpa using hk), List.flatMap_cons, List.flatMap_cons, ih]
      congr

/-- A head without line feeds of its own announces the body exactly if the servlet sets a `Content-Length` for an
empty body, with the number 0, and none for another. -/
theorem framed_plain_iff (h : PlainHead r) :
    Framed r ↔ (r.headers.find? (str "content-length")).map (fun v => numeral (trimField (32 :: v))) =
      if r.body = [] then some (some 0) else none := by
  rw [Framed, contentLengths_dumpHead, givenLengths_of_plain h]
  cases r.headers.find? (str "content-length") <;> split <;> simp [*]

end Sherry.Http
