import OtaServer.Http.RequestLines
import OtaServer.Http.Segmentation

/-!
# Reading back a request

What the request parser makes of `HttpRequest::toString`.

* `Reads`: the parser reads a text, whatever is behind it, and changes the request. The parts of a request are put
  together by `Reads.append`.
* `executeAsserted`: a call with the assertions of `http_parser_execute`.
* `request_readBack_iff`: the request is read back exactly if its text has less than `2 ^ 31` bytes.
-/

namespace Sherry.Http

open Lib Ragel

/-- No control character. -/
def valueByte (b : UInt8) : Bool := 32 ≤ b && b ≠ 127

/-- A request with a method of letters, a known version, a URI of the grammar without `more_delims`, and headers that
can be written in a line. -/
structure RequestDumpable (r : HttpRequest) : Prop where
  method : ∀ b ∈ httpMethodToString r.method, 65 ≤ b ∧ b ≤ 90 ∨ 97 ≤ b ∧ b ≤ 122
  version : r.version = 0x10 ∨ r.version = 0x11
  path : r.path ∈ (Grammar.pathAbsolute false).language
  query : r.query ∈ (Grammar.query false).language
  fragment : r.fragment ∈ (Grammar.fragment false).language
  names : ∀ e ∈ r.headers.entries, IsToken e.1 ∧ caseKey e.1 ≠ caseKey (str "Connection") ∧
    caseKey e.1 ≠ caseKey (str "Content-Length")
  values : ∀ e ∈ r.headers.entries, (∀ b ∈ e.2, valueByte b = true) ∧ e.2.head? ≠ some 32

namespace HttpRequestParser

/-! ## Texts that the parser reads -/

theorem act_withCs (buffer : Bytes) (fpc : Nat) (p : HttpRequestParser) (a : Action) (cs : Option (State Action)) :
    act buffer fpc { p with cs := cs } a = (p.act buffer fpc a).map fun q => { q with cs := cs } := by
  cases a with
  | writeValue =>
    simp only [act]
    cases substr buffer p.mark fpc with
    | none => rfl
    | some value =>
      simp only [Option.map_some, onRequestHttpField]
      split <;> rfl
  | requestMethod =>
    simp only [act, onRequestMethod, Option.map_some]
    split <;> rfl
  | httpVersion =>
    simp only [act, onRequestVersion, Option.map_some]
    split
    · rfl
    · split <;> rfl
  | fragment | requestPath =>
    simp only [act]
    cases substr buffer p.mark fpc <;> rfl
  | queryString =>
    simp only [act]
    cases substr buffer p.queryStart fpc <;> rfl
  | _ => rfl

theorem runner (buffer : Bytes) : Runner HttpRequestParser.cs (fun p s => { p with cs := some s })
    (fun fpc p a => p.act buffer fpc a) .done (exec buffer) where
  byte hcs hadv hact hdone := by rw [exec_cons hcs hadv hact, if_neg hdone]
  cs_setCs _ _ := rfl
  setCs_self h := by rw [← h]
  setCs_setCs _ _ _ := rfl
  act_setCs fpc p s a := act_withCs buffer fpc p a (some s)

/-- In the state `s` the parser reads the text `t`, is in the state `s'` behind it, and has changed the request by
`f`. -/
def Reads (s : State Action) (t : Bytes) (s' : State Action) (f : HttpRequest → HttpRequest) : Prop :=
  ∀ (buffer : Bytes) (n : Nat) (rest : Bytes) (p : HttpRequestParser), buffer.drop n = t ++ rest →
    p.cs = some s → ∃ p', exec buffer n (t ++ rest) p = exec buffer (n + t.length) rest p' ∧
      p'.cs = some s' ∧ p'.error = p.error ∧ p'.data = f p.data

variable {as bs : List Action} {f : HttpRequest → HttpRequest} {t : Bytes} {s : State Action}

theorem Reads.append {s₁ s₂ : State Action} {t' : Bytes} {g : HttpRequest → HttpRequest}
    (h : Reads s t s₁ f) (h' : Reads s₁ t' s₂ g) : Reads s (t ++ t') s₂ (g ∘ f) := by
  intro buffer n rest p hbuf hcs
  rw [List.append_assoc] at hbuf ⊢
  obtain ⟨p₁, hexec₁, hcs₁, herr₁, hdata₁⟩ := h buffer n (t' ++ rest) p hbuf hcs
  have hbuf' : buffer.drop (n + t.length) = t' ++ rest := by
    rw [← List.drop_drop, hbuf, List.drop_left]
  obtain ⟨p₂, hexec₂, hcs₂, herr₂, hdata₂⟩ := h' buffer (n + t.length) rest p₁ hbuf' hcs₁
  refine ⟨p₂, ?_, hcs₂, herr₂.trans herr₁, ?_⟩
  · rw [hexec₁, hexec₂, List.length_append, Nat.add_assoc]
  · rw [hdata₂, hdata₁, Function.comp_apply]

theorem Reads.nil (s : State Action) : Reads s [] s id := fun _ _ _ p _ hcs =>
  ⟨p, rfl, hcs, rfl, rfl⟩

/-- A text, from the run of the machine and the actions. -/
theorem reads_of_walk {s' : State Action} {ass : List (List Action)} (hwalk : walk s t = some (s', ass))
    (hdone : ∀ as ∈ ass, .done ∉ as)
    (hacts : ∀ buffer n rest (p : HttpRequestParser), buffer.drop n = t ++ rest →
      ∃ p', actsFrom (fun fpc p a => p.act buffer fpc a) n p ass = some p' ∧ p'.error = p.error ∧
        p'.data = f p.data) : Reads s t s' f := by
  intro buffer n rest p hbuf hcs
  obtain ⟨p', hacts', herr, hdata⟩ := hacts buffer n rest p hbuf
  exact ⟨{ p' with cs := some s' }, (runner buffer).walk hwalk hdone hcs hacts', rfl, herr, hdata⟩

theorem substr_eq {buffer rest : Bytes} {n : Nat} (h : buffer.drop n = t ++ rest) {m : Nat}
    (hm : m = n + t.length) : substr buffer n m = some t := by
  rw [substr, if_pos (by omega), h, hm, Nat.add_sub_cancel_left, List.take_left]

/-! ## The request line -/

theorem charsToHttpMethod_name : ∀ e ∈ httpMethodMap,
    charsToHttpMethod (e.2 ++ [32]) = e.1 ∧ e.1 ≠ .invalidMethod ∧ e.2 ≠ [] := by
  decide +kernel

/-- The actions on a part of the request line: `as` on its first byte, and `bs` behind its last one. -/
def partActs (as : List Action) (k : Nat) (bs : List Action) : List (List Action) :=
  as :: (List.replicate k [] ++ [bs])

theorem partActs_length (as : List Action) (k : Nat) (bs : List Action) : (partActs as k bs).length = k + 2 := by
  simp [partActs]

theorem done_notMem_partActs (has : .done ∉ as) (hbs : .done ∉ bs) (k : Nat) :
    ∀ cs ∈ partActs as k bs, .done ∉ cs := by
  intro cs hcs
  rcases List.mem_cons.mp hcs with rfl | hcs
  · exact has
  · rcases List.mem_append.mp hcs with hcs | hcs
    · rw [List.eq_of_mem_replicate hcs]
      exact List.not_mem_nil
    · rwa [List.mem_singleton.mp hcs]

theorem actsFrom_part {buffer : Bytes} {n k : Nat}
    {p p₁ p₂ : HttpRequestParser} (has : p.actAll buffer n as = some p₁)
    (hbs : p₁.actAll buffer (n + 1 + k) bs = some p₂) :
    actsFrom (fun fpc p a => p.act buffer fpc a) n p (partActs as k bs) = some p₂ := by
  unfold actAll at has hbs
  simp only [partActs, actsFrom, actsFrom_append, actsFrom_replicate, List.length_replicate, has, hbs,
    Option.bind_some]

theorem reads_method (u : Bool) {e : HttpMethod × Bytes} (he : e ∈ httpMethodMap)
    (hne : e.1 ≠ .msearch) : Reads (start (Grammar.main u)) (e.2 ++ [32]) (uriState u)
      fun d => { d with method := e.1 } := by
  obtain ⟨hname, hvalid, -⟩ := charsToHttpMethod_name e he
  refine reads_of_walk (walk_method u e he hne) (done_notMem_partActs (by simp) (by simp) _)
    fun buffer n rest p hbuf => ?_
  have hmethod : charsToHttpMethod (buffer.drop n) = e.1 := by
    rw [hbuf, List.append_assoc, List.singleton_append, charsToHttpMethod_space e.2 rest [], hname]
  have hmark : p.actAll buffer n [.mark] = some { p with mark := n } := rfl
  refine ⟨{ p with mark := n, data := { p.data with method := e.1 } }, actsFrom_part hmark ?_, rfl, rfl⟩
  simp only [actAll, act, List.foldlM_cons, List.foldlM_nil, Option.bind_eq_bind, Option.bind_some,
    Option.pure_def, onRequestMethod, hmethod, if_neg hvalid]

/-- A part of the URI and the byte behind it. The text of the part starts at a position that the first byte has set,
and `bs` hands it to a callback. -/
theorem reads_part {r : Re Action} {s' : State Action} {pairs : List (Re Action × State Action)}
    {c : UInt8}
    (ht : t ∈ r.language) (hnull : r.nullable = false ∨ t ≠ [])
    (hreads : reads as r s pairs = true) (hclosed : closed pairs = true)
    (hleaves : leaves c pairs (s', bs) = true) (has : .done ∉ as) (hbs : .done ∉ bs)
    (hacts : ∀ buffer n (p : HttpRequestParser), HttpRequestParser.substr buffer n (n + t.length) = some t →
      ∃ p₁ p₂, p.actAll buffer n as = some p₁ ∧ p₁.actAll buffer (n + t.length) bs = some p₂ ∧
        p₂.error = p.error ∧ p₂.data = f p.data) : Reads s (t ++ [c]) s' f := by
  cases t with
  | nil =>
    rcases hnull with hnull | hnull
    · rw [Re.nullable_of_nil_mem ht] at hnull
      cases hnull
    · exact absurd rfl hnull
  | cons b w =>
    refine reads_of_walk (walk_of_mem hreads hclosed hleaves ht) (done_notMem_partActs has hbs _)
      fun buffer n rest p hbuf => ?_
    have hbuf' : buffer.drop n = (b :: w) ++ ([c] ++ rest) := by rw [hbuf, List.append_assoc]
    obtain ⟨p₁, p₂, hfirst, hlast, herr, hdata⟩ := hacts buffer n p (substr_eq hbuf' rfl)
    rw [List.length_cons, ← Nat.add_assoc, Nat.add_right_comm] at hlast
    exact ⟨p₂, actsFrom_part hfirst hlast, herr, hdata⟩

section

variable {u : Bool} {c : UInt8} {s' : State Action} {bs : List Action}

theorem reads_path {path : Bytes} (h : path ∈ (Grammar.pathAbsolute false).language)
    (hleaves : leaves c (pathPairs u) (s', bs) = true)
    (hbs : bs = [.requestPath] ∨ bs = [.requestPath, .requestUri]) :
    Reads (uriState u) (path ++ [c]) s' fun d => { d with path := path } := by
  obtain ⟨hreads, hclosed, -⟩ := (uriMoves u).path
  refine reads_part h (.inl (by decide)) hreads hclosed hleaves (by simp)
    (by rcases hbs with rfl | rfl <;> simp) fun buffer n p hsub => ?_
  refine ⟨{ p with mark := n }, { p with mark := n, data := { p.data with path := path } }, rfl, ?_, rfl, rfl⟩
  rcases hbs with rfl | rfl <;>
  simp only [actAll, act, List.foldlM_cons, List.foldlM_nil, Option.bind_eq_bind, Option.bind_some,
    Option.pure_def, hsub, Option.map_some, onRequestPath]

theorem reads_query {query : Bytes} (h : query ∈ (Grammar.query false).language) (hne : query ≠ [])
    (hleaves : leaves c (queryPairs u) (s', [.queryString, .requestUri]) = true) :
    Reads (queryState u) (query ++ [c]) s' fun d => { d with query := query } := by
  obtain ⟨hreads, hclosed, -⟩ := (uriMoves u).query
  refine reads_part h (.inr hne) hreads hclosed hleaves (by simp) (by simp) fun buffer n p hsub => ?_
  refine ⟨{ p with queryStart := n },
    { p with queryStart := n, data := { p.data with query := query } }, rfl, ?_, rfl, rfl⟩
  simp only [actAll, act, List.foldlM_cons, List.foldlM_nil, Option.bind_eq_bind, Option.bind_some,
    Option.pure_def, hsub, Option.map_some, onRequestQuery]

theorem reads_fragment {fragment : Bytes} (h : fragment ∈ (Grammar.fragment false).language)
    (hne : fragment ≠ []) : Reads (fragmentState u) (fragment ++ [32]) versionState
      fun d => { d with fragment := fragment } := by
  obtain ⟨hreads, hclosed, hleaves⟩ := (uriMoves u).fragment
  refine reads_part h (.inr hne) hreads hclosed hleaves (by simp) (by simp) fun buffer n p hsub => ?_
  refine ⟨{ p with mark := n }, { p with mark := n, data := { p.data with fragment := fragment } }, rfl, ?_, rfl, rfl⟩
  simp only [actAll, act, List.foldlM_cons, List.foldlM_nil, Option.bind_eq_bind, Option.bind_some,
    Option.pure_def, hsub, Option.map_some, onRequestFragment]

end

end HttpRequestParser

/-- The URI that `dump` writes, and the blank behind it. -/
def uriText (path query fragment : Bytes) : Bytes :=
  path ++ ((if query = [] then [] else str "?") ++ query ++
    ((if fragment = [] then [] else str "#") ++ fragment ++ str " "))

namespace HttpRequestParser

/-- The URI: what is not written is left as it was. -/
theorem reads_uri (u : Bool) {path query fragment : Bytes}
    (hpath : path ∈ (Grammar.pathAbsolute false).language)
    (hquery : query ∈ (Grammar.query false).language)
    (hfragment : fragment ∈ (Grammar.fragment false).language) :
    Reads (uriState u) (uriText path query fragment) versionState fun d => { d with
      path := path, query := if query = [] then d.query else query,
      fragment := if fragment = [] then d.fragment else fragment } := by
  obtain ⟨-, -, hpathQuery, hpathFragment, hpathEnd⟩ := (uriMoves u).path
  obtain ⟨-, -, hqueryFragment, hqueryEnd⟩ := (uriMoves u).query
  have hblank : str " " = [32] := rfl
  have hhash : str "#" = [35] := rfl
  have hmark : str "?" = [63] := rfl
  unfold uriText
  by_cases hq : query = [] <;> by_cases hf : fragment = []
  · have h := reads_path hpath hpathEnd (.inr rfl)
    simpa only [hq, hf, if_true, List.nil_append, List.append_nil, hblank] using h
  · have h := (reads_path hpath hpathFragment (.inr rfl)).append (reads_fragment hfragment hf)
    simpa only [hq, hf, if_true, if_false, List.nil_append, List.append_nil, hblank, hhash,
      List.append_assoc, Function.comp_def] using h
  · have h := (reads_path hpath hpathQuery (.inl rfl)).append (reads_query hquery hq hqueryEnd)
    simpa only [hq, hf, if_true, if_false, List.nil_append, List.append_nil, hblank, hmark,
      List.append_assoc, Function.comp_def] using h
  · have h := ((reads_path hpath hpathQuery (.inl rfl)).append
      (reads_query hquery hq hqueryFragment)).append (reads_fragment hfragment hf)
    simpa only [hq, hf, if_false, hblank, hhash, hmark, List.append_assoc, Function.comp_def] using h

theorem reads_requestVersion {v : UInt8} (hv : v = 0x10 ∨ v = 0x11) :
    Reads versionState (versionText v ++ str "\r\n") headersState fun d => { d with version := v } := by
  have hmem : versionText v ++ str "\r\n" ∈ [str "HTTP/1.0\r\n", str "HTTP/1.1\r\n"] := by
    rcases hv with rfl | rfl <;> decide
  refine reads_of_walk (walk_requestVersion _ hmem) (by decide) fun buffer n rest p hbuf => ?_
  refine ⟨{ p with mark := n, data := { p.data with version := v } }, ?_, rfl, rfl⟩
  have hversion : onRequestVersion { p with mark := n } (buffer.drop n) (n + 8 - n) =
      { p with mark := n, data := { p.data with version := v } } := by
    rw [hbuf, List.append_assoc, Nat.add_sub_cancel_left, onRequestVersion]
    rcases hv with rfl | rfl <;>
    · rw [strncmpEq_append (by decide), strncmpEq_append (by decide)]
      rfl
  simp only [actsFrom, act, List.foldlM_cons, List.foldlM_nil, Option.bind_some, Option.bind_eq_bind]
  exact congrArg some hversion

end HttpRequestParser

/-! ## Header lines -/

namespace HttpRequestParser

/-- The states in front of a header line. -/
def AtLine (s : State Action) : Prop := s = headersState ∨ s = nextHeader

/-- The states behind a byte of a value. -/
def InValue (s : State Action) : Prop := s = valueState ∨ s = blankState

theorem inRanges_of_tokenByte : ∀ b : UInt8, tokenByte b = true → inRanges tokenRanges b = true :=
  forall_byte (by decide +kernel)

theorem inRanges_of_valueByte : ∀ b : UInt8, valueByte b = true → b = 32 ∨ inRanges visibleRanges b = true := by
  grind -linarith [valueByte, inRanges, visibleRanges]

theorem inRanges_self (b : UInt8) : inRanges [(b, b)] b = true := by simp [inRanges]

variable {b : UInt8} {s : State Action} {value : Bytes}

theorem InValue.advance (hs : InValue s) (hb : valueByte b = true) :
    ∃ s', InValue s' ∧ Ragel.advance s b = some (s', []) := by
  obtain ⟨-, -, hvalue, hblank, hvalueBlank, hblankBlank⟩ := headerMoves.value
  rcases inRanges_of_valueByte b hb with rfl | hb
  · refine ⟨blankState, .inr rfl, ?_⟩
    rcases hs with rfl | rfl
    · exact advance_of_ranges hvalueBlank (inRanges_self 32)
    · exact advance_of_ranges hblankBlank (inRanges_self 32)
  · refine ⟨valueState, .inl rfl, ?_⟩
    rcases hs with rfl | rfl
    · exact advance_of_ranges hvalue hb
    · exact advance_of_ranges hblank hb

theorem walk_name (hs : AtLine s) {w : Bytes} (hname : IsToken (b :: w)) : walk s (b :: w ++ [58]) =
      some (colonState, partActs [.startField] w.length [.writeField]) := by
  obtain ⟨hfirst, hnext, hloop, hcolon, -⟩ := headerMoves.name
  have hb := inRanges_of_tokenByte b (hname.2 b List.mem_cons_self)
  have hadv : advance s b = some (nameState, [.startField]) := by
    rcases hs with rfl | rfl
    · exact advance_of_ranges hfirst hb
    · exact advance_of_ranges hnext hb
  have hrest : ∃ s', s' = nameState ∧ walk nameState w = some (s', List.replicate w.length []) := by
    refine walk_loop (P := (· = nameState)) (Q := (tokenByte · = true)) ?_ rfl
      fun c hc => hname.2 c (List.mem_cons_of_mem b hc)
    rintro _ c rfl hc
    exact ⟨nameState, rfl, advance_of_ranges hloop (inRanges_of_tokenByte c hc)⟩
  obtain ⟨_, rfl, hwalk⟩ := hrest
  exact walk_cons hadv (walk_append hwalk
    (walk_cons (advance_of_ranges hcolon (inRanges_self 58)) rfl))

/-- A text at which the parser sets a header value, whatever the name in front of it is. -/
def ReadsValue (s : State Action) (t value : Bytes) : Prop :=
  ∃ ass, walk s t = some (nextHeader, ass) ∧ (∀ as ∈ ass, .done ∉ as) ∧
    ∀ buffer n rest (p : HttpRequestParser), buffer.drop n = t ++ rest →
      ∃ mark, actsFrom (fun fpc p a => p.act buffer fpc a) n p ass = some
        ({ p with mark := mark }.onRequestHttpField ((buffer.drop p.fieldStart).take p.fieldLen) value)

/-- A value that is not empty, behind the colon or the blank. -/
theorem readsValue_cons (hs : s = colonState ∨ s = padState) {w : Bytes}
    (hvalue : ∀ c ∈ b :: w, valueByte c = true) (hb : b ≠ 32) : ReadsValue s (b :: w ++ str "\r\n") (b :: w) := by
  obtain ⟨hcolon, hpad, -⟩ := headerMoves.value
  obtain ⟨-, hvalueCr, hblankCr, hlf⟩ := headerMoves.lineEnd
  have hvisible : inRanges visibleRanges b = true :=
    (inRanges_of_valueByte b (hvalue b List.mem_cons_self)).resolve_left hb
  have hadv : advance s b = some (valueState, [.startValue]) := by
    rcases hs with rfl | rfl
    · exact advance_of_ranges hcolon hvisible
    · exact advance_of_ranges hpad hvisible
  -- in a value the machine may be behind a blank or not
  obtain ⟨s', hs', hwalk⟩ := walk_loop (fun _ _ h hc => InValue.advance h hc) (.inl rfl)
    fun c hc => hvalue c (List.mem_cons_of_mem b hc)
  have hcr : advance s' 13 = some (lineCr, [.writeValue]) := by
    rcases hs' with rfl | rfl
    · exact advance_of_ranges hvalueCr (inRanges_self 13)
    · exact advance_of_ranges hblankCr (inRanges_self 13)
  have hend : walk s' (str "\r\n") = some (nextHeader, [[.writeValue], []]) :=
    walk_cons hcr (walk_cons (advance_of_ranges hlf (inRanges_self 10)) rfl)
  have hass : [.startValue] :: (List.replicate w.length [] ++ [[.writeValue], []]) =
      partActs [.startValue] w.length [.writeValue] ++ [[]] := by simp [partActs]
  refine ⟨_, walk_cons hadv (walk_append hwalk hend), ?_, fun buffer n rest p hbuf => ⟨n, ?_⟩⟩
  · rw [hass]
    intro as has
    rcases List.mem_append.mp has with has | has
    · exact done_notMem_partActs (by simp) (by simp) _ as has
    · rw [List.mem_singleton.mp has]
      exact List.not_mem_nil
  · rw [List.append_assoc] at hbuf
    have hsub : substr buffer n (n + 1 + w.length) = some (b :: w) :=
      substr_eq hbuf (by rw [List.length_cons, Nat.add_assoc, Nat.add_comm 1])
    have hmark : p.actAll buffer n [.startValue] = some { p with mark := n } := rfl
    have hwrite : { p with mark := n }.actAll buffer (n + 1 + w.length) [.writeValue] = some
        ({ p with mark := n }.onRequestHttpField
          ((buffer.drop p.fieldStart).take p.fieldLen) (b :: w)) := by
      simp only [actAll, act, List.foldlM_cons, List.foldlM_nil, hsub, Option.map_some]
      rfl
    rw [hass, actsFrom_append, actsFrom_part hmark hwrite]
    rfl

theorem readsValue_nil : ReadsValue colonState (str "\r\n") [] := by
  obtain ⟨hcolonCr, -, -, hlf⟩ := headerMoves.lineEnd
  refine ⟨_, walk_cons (advance_of_ranges hcolonCr (inRanges_self 13))
    (walk_cons (advance_of_ranges hlf (inRanges_self 10)) rfl), by decide,
    fun buffer n rest p _ => ⟨n, ?_⟩⟩
  have hsub : substr buffer n n = some [] := by simp [substr]
  simp only [actsFrom, act, List.foldlM_cons, List.foldlM_nil, Option.bind_eq_bind,
    Option.bind_some, Option.pure_def, hsub, Option.map_some]

theorem ReadsValue.pad {t : Bytes} (h : ReadsValue padState t value) : ReadsValue colonState (32 :: t) value := by
  obtain ⟨-, -, -, -, hblank⟩ := headerMoves.name
  obtain ⟨ass, hwalk, hdone, hacts⟩ := h
  refine ⟨_, walk_cons (advance_of_ranges hblank (inRanges_self 32)) hwalk, ?_,
    fun buffer n rest p hbuf => ?_⟩
  · intro as has
    rcases List.mem_cons.mp has with rfl | has
    · decide
    · exact hdone as has
  · have hbuf' : buffer.drop (n + 1) = t ++ rest := by
      rw [← List.drop_drop, hbuf, List.cons_append, List.drop_one, List.tail_cons]
    obtain ⟨mark, hmark⟩ := hacts buffer (n + 1) rest { p with mark := n } hbuf'
    exact ⟨mark, hmark⟩

/-- **A header line.** -/
theorem reads_header (hs : AtLine s) {name t : Bytes} (hname : IsToken name)
    (hvalue : ReadsValue colonState t value) :
    Reads s (name ++ str ":" ++ t) nextHeader fun d => d.setHeader name value := by
  obtain ⟨b, w, rfl⟩ := List.exists_cons_of_ne_nil hname.1
  obtain ⟨ass, hwalk, hdone, hacts⟩ := hvalue
  refine reads_of_walk (walk_append (walk_name hs hname) hwalk) ?_ fun buffer n rest p hbuf => ?_
  · intro as has
    rcases List.mem_append.mp has with has | has
    · exact done_notMem_partActs (by simp) (by simp) _ as has
    · exact hdone as has
  · have hfield : p.actAll buffer n [.startField] = some { p with fieldStart := n } := rfl
    have hlen : { p with fieldStart := n }.actAll buffer (n + 1 + w.length) [.writeField] =
        some { p with fieldStart := n, fieldLen := n + 1 + w.length - n } := rfl
    have hbuf₁ : buffer.drop n = (b :: w) ++ (str ":" ++ (t ++ rest)) := by
      rw [hbuf, List.append_assoc, List.append_assoc]
    have hbuf₂ : buffer.drop (n + (w.length + 2)) = t ++ rest := by
      have hlength : w.length + 2 = (b :: w ++ str ":").length := by
        rw [List.length_append]
        rfl
      rw [← List.drop_drop, hbuf₁, ← List.append_assoc, hlength, List.drop_left]
    have htake : (buffer.drop n).take (n + 1 + w.length - n) = b :: w := by
      rw [hbuf₁, show n + 1 + w.length - n = (b :: w).length by rw [List.length_cons]; omega, List.take_left]
    obtain ⟨mark, hmark⟩ := hacts buffer (n + (w.length + 2)) rest
      { p with fieldStart := n, fieldLen := n + 1 + w.length - n } hbuf₂
    dsimp only at hmark
    rw [htake, onRequestHttpField, if_neg (List.cons_ne_nil b w)] at hmark
    refine ⟨{ p with
      mark := mark, fieldStart := n, fieldLen := n + 1 + w.length - n,
      data := p.data.setHeader (b :: w) value }, ?_, rfl, rfl⟩
    rw [actsFrom_append, actsFrom_part hfield hlen, Option.bind_some, partActs_length]
    exact hmark

theorem reads_entry (hs : AtLine s) {e : Bytes × Bytes} (hname : IsToken e.1)
    (hvalue : ∀ b ∈ e.2, valueByte b = true) (hblank : e.2.head? ≠ some 32) :
    Reads s (e.1 ++ str ":" ++ (e.2 ++ str "\r\n")) nextHeader fun d => d.setHeader e.1 e.2 := by
  refine reads_header hs hname ?_
  cases hv : e.2 with
  | nil => exact readsValue_nil
  | cons b w =>
    rw [hv] at hvalue hblank
    exact readsValue_cons (.inl rfl) hvalue fun hb => hblank (by rw [hb, List.head?_cons])

theorem reads_padded (hs : AtLine s) {name : Bytes} (hname : IsToken name)
    (hne : value ≠ []) (hvalue : ∀ b ∈ value, valueByte b = true ∧ b ≠ 32) :
    Reads s (name ++ str ": " ++ (value ++ str "\r\n")) nextHeader fun d => d.setHeader name value := by
  obtain ⟨b, w, rfl⟩ := List.exists_cons_of_ne_nil hne
  have hread : ReadsValue padState (b :: w ++ str "\r\n") (b :: w) :=
    readsValue_cons (.inr rfl) (fun c hc => (hvalue c hc).1) (hvalue b List.mem_cons_self).2
  have hline := reads_header hs hname hread.pad
  rwa [List.append_assoc] at hline ⊢

theorem reads_headers {es : List (Bytes × Bytes)} (hnames : ∀ e ∈ es, IsToken e.1)
    (hvalues : ∀ e ∈ es, (∀ b ∈ e.2, valueByte b = true) ∧ e.2.head? ≠ some 32) :
    Reads nextHeader (es.flatMap fun e => e.1 ++ str ":" ++ e.2 ++ str "\r\n") nextHeader
      fun d => { d with headers := es.foldl (fun h e => h.set e.1 e.2) d.headers } := by
  induction es with
  | nil => exact Reads.nil nextHeader
  | cons e es ih =>
    obtain ⟨hvalue, hblank⟩ := hvalues e List.mem_cons_self
    have hfirst := reads_entry (.inr rfl) (hnames e List.mem_cons_self) hvalue hblank
    have hrest := ih (fun e' he' => hnames e' (List.mem_cons_of_mem e he'))
      fun e' he' => hvalues e' (List.mem_cons_of_mem e he')
    rw [List.flatMap_cons, List.append_assoc (e.1 ++ str ":")]
    exact hfirst.append hrest

end HttpRequestParser

/-! ## The head of a request -/

theorem mem_httpMethodMap : ∀ m : HttpMethod, (∀ b ∈ httpMethodToString m, 65 ≤ b ∧ b ≤ 90 ∨ 97 ≤ b ∧ b ≤ 122) →
      (m, httpMethodToString m) ∈ httpMethodMap ∧ m ≠ .msearch := by
  intro m
  cases m <;> decide +kernel

namespace RequestDumpable

variable {r : HttpRequest}

theorem dumped (h : RequestDumpable r) : r.headers.dumped = r.headers.entries := by
  have hkey : caseKey (str "Connection") = caseKey (str "connection") := by decide
  rw [HeaderMap.dumped, List.filter_eq_self]
  intro e he
  simpa [hkey] using (h.names e he).2.1

end RequestDumpable

/-- The headers in front of the length. -/
def writtenHeaders (r : HttpRequest) : HeaderMap :=
  r.headers.entries.foldl (fun h e => h.set e.1 e.2)
    (KeyMap.empty.set (str "Connection") (connectionText r.close))

/-- The headers that a request is sent with. -/
def sentHeaders (r : HttpRequest) : HeaderMap :=
  if r.body = [] then writtenHeaders r
  else (writtenHeaders r).set (str "Content-Length") (dec r.body.length)

/-- The request line and the header lines. -/
def headLines (r : HttpRequest) : Bytes :=
  httpMethodToString r.method ++ [32] ++ uriText r.path r.query r.fragment ++
    (versionText r.version ++ str "\r\n") ++
    (str "Connection" ++ str ": " ++ (connectionText r.close ++ str "\r\n")) ++
    (r.headers.entries.flatMap fun e => e.1 ++ str ":" ++ e.2 ++ str "\r\n") ++
    if r.body = [] then []
    else str "Content-Length" ++ str ": " ++ (dec r.body.length ++ str "\r\n")

theorem RequestDumpable.dumpHead_eq {r : HttpRequest} (h : RequestDumpable r) :
    r.dumpHead = headLines r ++ str "\r\n" := by
  have hconnection : str "Connection: " = str "Connection" ++ str ": " := rfl
  have hlength : str "Content-Length: " = str "Content-Length" ++ str ": " := rfl
  have hblank : str " " = [32] := rfl
  simp only [HttpRequest.dumpHead, h.dumped, headLines, uriText, hconnection, hlength, hblank, List.append_assoc]

theorem valueByte_digit : ∀ b : UInt8, 48 ≤ b ∧ b ≤ 57 → valueByte b = true ∧ b ≠ 32 := by
  grind -linarith [valueByte]

namespace HttpRequestParser

theorem reads_lengthLine (body : Bytes) :
    Reads nextHeader (if body = [] then []
      else str "Content-Length" ++ str ": " ++ (dec body.length ++ str "\r\n")) nextHeader
      fun d => if body = [] then d else d.setHeader (str "Content-Length") (dec body.length) := by
  by_cases hbody : body = []
  · simp only [if_pos hbody]
    exact Reads.nil nextHeader
  · simp only [if_neg hbody]
    exact reads_padded (.inr rfl) ⟨by decide, by decide +kernel⟩ (dec_ne_nil _) fun b hb =>
      valueByte_digit b (digit_of_mem_dec hb)

/-- **The head of a request up to the blank line.** -/
theorem reads_headLines (u : Bool) {r : HttpRequest} (h : RequestDumpable r) :
    ∃ f, Reads (start (Grammar.main u)) (headLines r) nextHeader f ∧
      f {} = { r with close := true, body := [], headers := sentHeaders r } := by
  obtain ⟨hmem, hne⟩ := mem_httpMethodMap r.method h.method
  have hconnection : Reads headersState
      (str "Connection" ++ str ": " ++ (connectionText r.close ++ str "\r\n")) nextHeader
      fun d => d.setHeader (str "Connection") (connectionText r.close) := by
    cases r.close <;>
      exact reads_padded (.inl rfl) ⟨by decide, by decide +kernel⟩ (by decide) (by decide +kernel)
  refine ⟨_, (((((reads_method u hmem hne).append (reads_uri u h.path h.query h.fragment)).append
    (reads_requestVersion h.version)).append hconnection).append
    (reads_headers (fun e he => (h.names e he).1) h.values)).append (reads_lengthLine r.body), ?_⟩
  have hquery : (if r.query = [] then [] else r.query) = r.query := by
    split
    · next hq => exact hq.symm
    · rfl
  have hfragment : (if r.fragment = [] then [] else r.fragment) = r.fragment := by
    split
    · next hf => exact hf.symm
    · rfl
  simp only [Function.comp_apply, HttpRequest.setHeader, sentHeaders, writtenHeaders, hquery, hfragment]
  split <;> rfl

variable {p p' : HttpRequestParser} {len : Nat} {buffer : Bytes}

theorem exec_blankLine {n : Nat} (rest : Bytes)
    (hcs : p.cs = some nextHeader) : exec buffer n (str "\r\n" ++ rest) p =
      some ({ p with cs := some requestEnd, fieldStart := n }, n + 2) := by
  obtain ⟨hcr, hlf, -⟩ := headerMoves.blankLine
  have hfirst : exec buffer n (13 :: 10 :: rest) p =
      exec buffer (n + 1) (10 :: rest) { p with cs := some blankLineCr, fieldStart := n } :=
    (exec_cons hcs (advance_of_ranges hcr (inRanges_self 13)) rfl).trans (if_neg (by simp))
  have hlast : exec buffer (n + 1) (10 :: rest)
        { p with cs := some blankLineCr, fieldStart := n } =
      some ({ p with cs := some requestEnd, fieldStart := n }, n + 2) :=
    (exec_cons rfl (advance_of_ranges hlf (inRanges_self 10)) rfl).trans (if_pos (by simp))
  exact hfirst.trans hlast

/-! ## Assertions -/

/-- The positions that the parser keeps are inside a buffer of `len` bytes. -/
structure Inside (p : HttpRequestParser) (len : Nat) : Prop where
  mark : p.mark < len
  fieldLen : p.fieldLen ≤ len
  fieldStart : p.fieldStart < len

instance (p : HttpRequestParser) (len : Nat) : Decidable (p.Inside len) :=
  decidable_of_iff (p.mark < len ∧ p.fieldLen ≤ len ∧ p.fieldStart < len)
    ⟨fun h => ⟨h.1, h.2.1, h.2.2⟩, fun h => ⟨h.1, h.2, h.3⟩⟩

/-- `execute` with the assertions of `http_parser_execute`. The length of the buffer is compared with itself as an
`int`; `body_start` is behind the byte that runs `done`, or `mark`. -/
def executeAsserted (p : HttpRequestParser) (buffer : Bytes) : Option (HttpRequestParser × Nat) :=
  if buffer = [] then some (p, 0)
  else if 2 ^ 31 ≤ buffer.length then none
  else do
    let (p', nread) ← p.execute buffer
    if nread ≤ buffer.length ∧ p'.Inside buffer.length then return (p', nread) else none

theorem act_inside {fpc : Nat} {a : Action}
    (h : p.act buffer fpc a = some p') (hfpc : fpc < len) (hp : p.Inside len) : p'.Inside len := by
  cases a with
  | mark | startValue =>
    cases h
    exact ⟨hfpc, hp.fieldLen, hp.fieldStart⟩
  | startField =>
    cases h
    exact ⟨hp.mark, hp.fieldLen, hfpc⟩
  | writeField =>
    cases h
    exact ⟨hp.mark, by dsimp only; omega, hp.fieldStart⟩
  | writeValue =>
    obtain ⟨value, -, rfl⟩ := Option.map_eq_some_iff.mp h
    unfold onRequestHttpField
    split
    · exact hp
    · exact ⟨hp.mark, hp.fieldLen, hp.fieldStart⟩
  | requestMethod =>
    cases h
    unfold onRequestMethod
    split <;> exact ⟨hp.mark, hp.fieldLen, hp.fieldStart⟩
  | httpVersion =>
    cases h
    unfold onRequestVersion
    split
    · exact ⟨hp.mark, hp.fieldLen, hp.fieldStart⟩
    · split <;> exact ⟨hp.mark, hp.fieldLen, hp.fieldStart⟩
  | fragment | queryString | requestPath =>
    obtain ⟨value, -, rfl⟩ := Option.map_eq_some_iff.mp h
    exact ⟨hp.mark, hp.fieldLen, hp.fieldStart⟩
  | startQuery =>
    cases h
    exact ⟨hp.mark, hp.fieldLen, hp.fieldStart⟩
  | requestUri | xml | json | done =>
    cases h
    exact hp

theorem actAll_inside {fpc : Nat} {as : List Action}
    (h : p.actAll buffer fpc as = some p') (hfpc : fpc < len) (hp : p.Inside len) : p'.Inside len := by
  induction as generalizing p with
  | nil =>
    cases h
    exact hp
  | cons a as ih =>
    rw [actAll, List.foldlM_cons] at h
    obtain ⟨p₁, hact, h⟩ := Option.bind_eq_some_iff.mp h
    exact ih h (act_inside hact hfpc hp)

theorem exec_inside_buffer {w : Bytes} {n nread : Nat}
    (h : exec buffer n w p = some (p', nread)) (hlen : n + w.length = len) (hp : p.Inside len) :
    nread ≤ len ∧ p'.Inside len := by
  induction w generalizing n p with
  | nil =>
    cases h
    exact ⟨Nat.le_of_eq hlen, hp⟩
  | cons b w ih =>
    rw [List.length_cons] at hlen
    unfold exec at h
    split at h
    · cases h
      exact ⟨by omega, hp.mark, hp.fieldLen, hp.fieldStart⟩
    · next cs as _ =>
      split at h
      · cases h
      · next p₁ hact =>
        have hp₁ := actAll_inside hact (by omega) hp
        have hp₂ : { p₁ with cs := some cs }.Inside len := ⟨hp₁.mark, hp₁.fieldLen, hp₁.fieldStart⟩
        split at h
        · cases h
          exact ⟨by omega, hp₂⟩
        · exact ih h (by omega) hp₂

theorem executeAsserted_huge (p : HttpRequestParser) (hlen : 2 ^ 31 ≤ buffer.length) :
    p.executeAsserted buffer = none := by
  have hne : buffer ≠ [] := List.ne_nil_of_length_pos (by omega)
  rw [executeAsserted, if_neg hne, if_pos hlen]

/-- Only the comparison of the length can fail. -/
theorem executeAsserted_eq (p : HttpRequestParser) (hlen : buffer.length < 2 ^ 31) :
    p.executeAsserted buffer = p.execute buffer := by
  unfold executeAsserted
  by_cases hnil : buffer = []
  · rw [if_pos hnil, execute, if_pos hnil]
  · rw [if_neg hnil, if_neg (by omega)]
    cases hexec : p.execute buffer with
    | none => rfl
    | some out =>
      obtain ⟨p', nread⟩ := out
      rw [execute, if_neg hnil] at hexec
      have hpos := List.length_pos_of_ne_nil hnil
      have hinside := exec_inside_buffer hexec (Nat.zero_add _) ⟨hpos, Nat.zero_le _, hpos⟩
      exact if_pos hinside

end HttpRequestParser

/-! ## Reading back -/

theorem writtenHeaders_find? (r : HttpRequest) (k : Bytes) : (writtenHeaders r).find? k =
    (r.headers.find? k).or
      (if caseKey (str "Connection") = caseKey k then some (connectionText r.close) else none) := by
  rw [writtenHeaders, KeyMap.find?_foldl_set _ r.headers.sorted, KeyMap.find?_set]
  by_cases hk : caseKey (str "Connection") = caseKey k
  · rw [if_pos hk, if_pos hk]
    rfl
  · rw [if_neg hk, if_neg hk]
    rfl

/-- The headers, apart from those that `dump` adds. -/
theorem sentHeaders_find? (r : HttpRequest) (k : Bytes) (hconn : caseKey (str "Connection") ≠ caseKey k)
    (hlen : caseKey (str "Content-Length") ≠ caseKey k) : (sentHeaders r).find? k = r.headers.find? k := by
  have hsent : (writtenHeaders r).find? k = r.headers.find? k := by
    rw [writtenHeaders_find?, if_neg hconn, Option.or_none]
  unfold sentHeaders
  split
  · exact hsent
  · rw [KeyMap.find?_set, if_neg hlen, hsent]

namespace RequestDumpable

variable {r : HttpRequest}

theorem find?_eq_none (h : RequestDumpable r) {k : Bytes} (hk : ∀ name, caseKey name ≠
      caseKey (str "Connection") → caseKey name ≠ caseKey (str "Content-Length") →
        caseKey name ≠ caseKey k) : r.headers.find? k = none := by
  rw [KeyMap.find?, Option.map_eq_none_iff, List.find?_eq_none]
  intro e he
  obtain ⟨-, hconn, hlen⟩ := h.names e he
  simpa using hk e.1 hconn hlen

theorem sentHeaders_connection (h : RequestDumpable r) :
    (sentHeaders r).find? (str "connection") = some (connectionText r.close) := by
  have hkey : caseKey (str "Connection") = caseKey (str "connection") := by decide
  have hne : caseKey (str "Content-Length") ≠ caseKey (str "connection") := by decide
  have hsent : (writtenHeaders r).find? (str "connection") = some (connectionText r.close) := by
    have hnone : r.headers.find? (str "connection") = none :=
      h.find?_eq_none fun _ hconn _ => hkey ▸ hconn
    rw [writtenHeaders_find?, hnone, if_pos hkey, Option.none_or]
  unfold sentHeaders
  split
  · exact hsent
  · rw [KeyMap.find?_set, if_neg hne, hsent]

theorem sentHeaders_length (h : RequestDumpable r) : (sentHeaders r).find? (str "Content-Length") =
    if r.body = [] then none else some (dec r.body.length) := by
  unfold sentHeaders
  split
  · have hnone : r.headers.find? (str "Content-Length") = none := h.find?_eq_none fun _ _ hlen => hlen
    rw [writtenHeaders_find?, hnone, if_neg (by decide), Option.none_or]
  · rw [KeyMap.find?_set, if_pos rfl]

end RequestDumpable

/-- The parser has finished without an error, and what it has read is the request after `init`, with the header of the
length of the body. -/
structure RequestRead (r : HttpRequest) (p : HttpRequestParser) : Prop where
  noError : p.hasError = false
  finished : p.isFinished = true
  method : p.data.init.method = r.method
  version : p.data.init.version = r.version
  path : p.data.init.path = r.path
  query : p.data.init.query = r.query
  fragment : p.data.init.fragment = r.fragment
  close : p.data.init.close = r.close
  headers : ∀ k, caseKey k ≠ caseKey (str "Connection") → caseKey k ≠ caseKey (str "Content-Length") →
    p.data.init.headers.find? k = r.headers.find? k
  length : p.data.init.headers.find? (str "Content-Length") =
    if r.body = [] then none else some (dec r.body.length)

/-- A call with the text of the request in one buffer reads the request and stops behind the blank line. -/
def RequestReadsBack (uriRelaxed : Bool) (r : HttpRequest) : Prop :=
  ∃ p, (HttpRequestParser.new uriRelaxed).executeAsserted r.toString = some (p, r.dumpHead.length) ∧
    RequestRead r p

/-- The close flag is read back from the header. -/
theorem init_sentHeaders {r : HttpRequest} (h : RequestDumpable r) (d : HttpRequest)
    (hd : d.headers = sentHeaders r) : d.init = { d with close := r.close } := by
  have hconn : d.getHeader (str "connection") = connectionText r.close := by
    rw [HttpRequest.getHeader, hd, h.sentHeaders_connection, Option.getD_some]
  rw [HttpRequest.init, hconn]
  cases r.close <;> rfl

theorem request_readsBack (u : Bool) {r : HttpRequest} (h : RequestDumpable r)
    (hlen : r.toString.length < 2 ^ 31) : RequestReadsBack u r := by
  obtain ⟨f, hreads, hf⟩ := HttpRequestParser.reads_headLines u h
  have htext : r.toString = headLines r ++ (str "\r\n" ++ r.body) := by
    rw [HttpRequest.toString, h.dumpHead_eq, List.append_assoc]
  have hne : r.toString ≠ [] := by
    rw [htext]
    exact List.append_ne_nil_of_right_ne_nil _ (List.append_ne_nil_of_left_ne_nil (by decide) _)
  obtain ⟨p, hexec, hcs, herr, hdata⟩ := hreads r.toString 0 (str "\r\n" ++ r.body)
    (HttpRequestParser.new u) htext rfl
  have hdata' : p.data = { r with close := true, body := [], headers := sentHeaders r } :=
    hdata.trans hf
  have hinit := init_sentHeaders h p.data (congrArg HttpRequest.headers hdata')
  have hcount : 0 + (headLines r).length + 2 = r.dumpHead.length := by
    rw [h.dumpHead_eq, List.length_append, Nat.zero_add]
    rfl
  -- the blank line ends the run, and the body is left
  have hexecute : (HttpRequestParser.new u).execute r.toString =
      some ({ p with cs := some requestEnd, fieldStart := 0 + (headLines r).length },
        r.dumpHead.length) := by
    rw [HttpRequestParser.execute, if_neg hne, ← hcount,
      ← HttpRequestParser.exec_blankLine r.body hcs, ← hexec, ← htext]
    rfl
  refine ⟨_, (HttpRequestParser.executeAsserted_eq _ hlen).trans hexecute, ?_⟩
  have hfinal : requestEnd.final = true := headerMoves.blankLine.2.2
  have hread : p.data.init =
      { r with body := [], headers := sentHeaders r } := by rw [hinit, hdata']
  exact {
    noError := by
      rw [HttpRequestParser.hasError, herr]
      rfl
    finished := hfinal
    method := by rw [hread]
    version := by rw [hread]
    path := by rw [hread]
    query := by rw [hread]
    fragment := by rw [hread]
    close := by rw [hread]
    headers := fun k hconn hlength => by
      rw [hread]
      exact sentHeaders_find? r k hconn.symm hlength.symm
    length := by
      rw [hread]
      exact h.sentHeaders_length }

/-- **Reading back.** -/
theorem request_readBack_iff (uriRelaxed : Bool) (r : HttpRequest) (h : RequestDumpable r) :
    RequestReadsBack uriRelaxed r ↔ r.toString.length < 2 ^ 31 := by
  constructor
  · rintro ⟨p, hexec, -⟩
    refine Nat.lt_of_not_le fun hle => ?_
    rw [HttpRequestParser.executeAsserted_huge _ hle] at hexec
    cases hexec
  · exact request_readsBack uriRelaxed h

/-- A request with a query, a header and a body. -/
def sampleRequest : HttpRequest where
  method := .post
  version := 0x10
  path := str "/"
  query := str "a"
  body := str "hello"
  headers := KeyMap.empty.set (str "Host") (str "a b")

theorem sampleRequest_dumpable : RequestDumpable sampleRequest where
  method := by decide +kernel
  version := .inl rfl
  path := Language.mem_mul.mpr ⟨str "/", ⟨47, rfl, rfl⟩, [], .inr rfl, rfl⟩
  query := by
    refine Language.mem_kstar.mpr ⟨[str "a"], rfl, fun y hy => ?_⟩
    rw [List.mem_singleton.mp hy]
    exact .inl (.inl (.inl ⟨97, by decide, rfl⟩))
  fragment := Language.nil_mem_kstar _
  names := by
    intro e he
    rw [List.mem_singleton.mp he]
    exact ⟨⟨by decide, by decide +kernel⟩, by decide, by decide⟩
  values := by
    intro e he
    rw [List.mem_singleton.mp he]
    exact ⟨by decide +kernel, by decide +kernel⟩

theorem request_readBack_sample : RequestReadsBack true sampleRequest :=
  (request_readBack_iff true sampleRequest sampleRequest_dumpable).mpr (by decide)

/-- A request with a body of `n` bytes. -/
def bodyRequest (n : Nat) : HttpRequest := { body := List.replicate n 97 }

theorem bodyRequest_dumpable (n : Nat) : RequestDumpable (bodyRequest n) where
  method := by
    show ∀ b ∈ httpMethodToString .get, _
    decide +kernel
  version := .inr rfl
  path := Language.mem_mul.mpr ⟨str "/", ⟨47, rfl, rfl⟩, [], .inr rfl, rfl⟩
  query := Language.nil_mem_kstar _
  fragment := Language.nil_mem_kstar _
  names e he := absurd he List.not_mem_nil
  values e he := absurd he List.not_mem_nil

theorem request_huge_body_aborts : RequestDumpable (bodyRequest (2 ^ 31)) ∧
    ¬RequestReadsBack false (bodyRequest (2 ^ 31)) ∧
    (HttpRequestParser.new false).executeAsserted (bodyRequest (2 ^ 31)).toString = none := by
  have hbody : ∀ n, n ≤ (bodyRequest n).toString.length := fun n => by
    rw [HttpRequest.toString, List.length_append, bodyRequest, List.length_replicate]
    exact Nat.le_add_left n _
  have hnone := HttpRequestParser.executeAsserted_huge (.new false) (hbody (2 ^ 31))
  refine ⟨bodyRequest_dumpable _, ?_, hnone⟩
  rintro ⟨p, hexec, -⟩
  cases hnone.symm.trans hexec

end Sherry.Http
