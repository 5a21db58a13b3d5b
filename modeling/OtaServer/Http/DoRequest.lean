import OtaServer.Http.Body
import OtaServer.Http.RequestDump

/-!
# Requests of the client (`DoRequest`, `doRequest` in `sherry/http/http_connection.cc`)

Both functions make a request from a method, a target, headers and a body. The pool hands over the whole target as the
path. The text is followed to the request that a servlet gets.

* `addRequestHeader`, `withHeaders`: the loop over the headers and what is behind it, in both functions.
* `recvRequest_toString`: the session reads the text of a request, if the first read has the whole head.
* `doRequest_delivered`, `pool_doRequest_delivered`: the servlet gets what the caller has asked for.
-/

namespace Sherry.Http

open Lib Ragel

/-- What a caller asks for: the method, the parts of the `Uri`, `headers` and `body`. -/
structure Asked where
  method : HttpMethod
  path : Bytes
  query : Bytes := []
  fragment : Bytes := []
  headers : List (Bytes × Bytes) := []
  body : Bytes := []

/-- `connection: keep-alive`. -/
def keepsAlive (e : Bytes × Bytes) : Bool :=
  caseKey e.1 = caseKey (str "connection") ∧ caseKey e.2 = caseKey (str "keep-alive")

/-- A header `host` that is not empty. -/
def givesHost (e : Bytes × Bytes) : Bool := caseKey e.1 = caseKey (str "host") ∧ e.2 ≠ []

/-- A round of the loop over the headers: the request, and `has_host`. -/
def addRequestHeader (x : HttpRequest × Bool) (e : Bytes × Bytes) : HttpRequest × Bool :=
  if caseKey e.1 = caseKey (str "connection") then
    (if caseKey e.2 = caseKey (str "keep-alive") then { x.1 with close := false } else x.1, x.2)
  else
    (x.1.setHeader e.1 e.2, if !x.2 ∧ caseKey e.1 = caseKey (str "host") then e.2 ≠ [] else x.2)

/-- The request `req` with the headers, `Host` and the body. -/
def withHeaders (req : HttpRequest) (host : Bytes) (headers : List (Bytes × Bytes)) (body : Bytes) : HttpRequest :=
  let x := headers.foldl addRequestHeader (req, false)
  { (if x.2 then x.1 else x.1.setHeader (str "Host") host) with body := body }

/-- A request with the parts of a `Uri`. -/
def Asked.request (a : Asked) (host : Bytes) (close : Bool) : HttpRequest :=
  withHeaders { method := a.method, path := a.path, query := a.query, fragment := a.fragment, close } host a.headers
    a.body

/-- `HttpConnection::DoRequest`: the request that is sent. `host` is that of the `Uri`. -/
def HttpConnection.doRequest (a : Asked) (host : Bytes) : HttpRequest := a.request host true

/-- The text that `doRequest`, `doGet` and `doPost` of the pool make of a `Uri`. -/
def Asked.url (a : Asked) : Bytes :=
  a.path ++ (if a.query = [] then [] else str "?") ++ a.query ++
    (if a.fragment = [] then [] else str "#") ++ a.fragment

/-- `HttpConnectionPool::doRequest` of a `Uri`, with `m_host` and `m_vhost`. -/
def HttpConnectionPool.doRequest (a : Asked) (host vhost : Bytes) : HttpRequest :=
  withHeaders { method := a.method, path := a.url, close := false } (if vhost = [] then host else vhost) a.headers
    a.body

/-- The names of headers that can be sent. -/
def HeaderName (name : Bytes) : Prop :=
  IsToken name ∧ caseKey name ≠ caseKey (str "Connection") ∧ caseKey name ≠ caseKey (str "Content-Length")

/-- The values of headers that can be sent. -/
def HeaderValue (value : Bytes) : Prop := (∀ b ∈ value, valueByte b = true) ∧ value.head? ≠ some 32

/-- What can be sent: the grammar has the parts of the URI, and the headers can be written in a line. -/
structure Asked.Sendable (a : Asked) (host : Bytes) : Prop where
  method : ∀ b ∈ httpMethodToString a.method, 65 ≤ b ∧ b ≤ 90 ∨ 97 ≤ b ∧ b ≤ 122
  path : a.path ∈ (Grammar.pathAbsolute false).language
  query : a.query ∈ (Grammar.query false).language
  fragment : a.fragment ∈ (Grammar.fragment false).language
  host : HeaderValue host
  headers : ∀ e ∈ a.headers, caseKey e.1 ≠ caseKey (str "connection") → HeaderName e.1 ∧ HeaderValue e.2

/-- The value under a name: the last that is given, or the host if none is given that is not empty. -/
def Asked.value (a : Asked) (host name : Bytes) : Option Bytes :=
  if caseKey (str "Host") = caseKey name ∧ a.headers.any givesHost = false then some host
  else (a.headers.reverse.find? fun e => caseKey e.1 = caseKey name).map (·.2)

/-- The request is what was asked for. -/
structure Asked.Delivered (a : Asked) (host : Bytes) (close : Bool) (r : HttpRequest) : Prop where
  parts : r = { method := a.method, path := a.path, query := a.query, fragment := a.fragment, body := a.body,
                close := close, headers := r.headers }
  headers : ∀ name, caseKey (str "Connection") ≠ caseKey name → caseKey (str "Content-Length") ≠ caseKey name →
    r.headers.find? name = a.value host name

/-- How the text of a request arrives: in pieces of which the first has the whole head, which is shorter than the
request buffer. More may follow. -/
structure Arrives (e : SessionEnv) (r : HttpRequest) (ps : Pieces) : Prop where
  text : r.toString <+: ps.flatten
  nonEmpty : NonEmpty ps
  first : r.dumpHead.length ≤ (ps.head?.getD []).length
  short : r.dumpHead.length < e.bufferSize
  body : r.body.length < 2 ^ 31

/-! ## The session -/

namespace RequestDumpable

variable {e : SessionEnv} {r : HttpRequest}

/-- The parser over the head of a request, with anything behind it. -/
theorem exists_execute (h : RequestDumpable r) (u : Bool) (more : Bytes) :
    ∃ q, (HttpRequestParser.new u).execute (r.dumpHead ++ more) = some (q, r.dumpHead.length) ∧
      q.hasError = false ∧ q.isFinished = true ∧
      q.data = { r with close := true, body := [], headers := sentHeaders r } := by
  obtain ⟨f, hreads, hf⟩ := HttpRequestParser.reads_headLines u h
  have htext : r.dumpHead ++ more = headLines r ++ (str "\r\n" ++ more) := by
    rw [h.dumpHead_eq, List.append_assoc]
  have hne : r.dumpHead ++ more ≠ [] := by simp [h.dumpHead_eq, str]
  obtain ⟨p, hexec, hcs, herr, hdata⟩ := hreads (r.dumpHead ++ more) 0 (str "\r\n" ++ more) (.new u) htext rfl
  have hcount : 0 + (headLines r).length + 2 = r.dumpHead.length := by
    rw [h.dumpHead_eq, List.length_append, Nat.zero_add]
    rfl
  refine ⟨{ p with cs := some requestEnd, fieldStart := 0 + (headLines r).length }, ?_, ?_,
    headerMoves.blankLine.2.2, hdata.trans hf⟩
  · rw [HttpRequestParser.execute, if_neg hne, ← hcount, ← HttpRequestParser.exec_blankLine more hcs, ← hexec,
      ← htext]
    rfl
  · rw [HttpRequestParser.hasError, herr]
    rfl

theorem recvHead_eq (h : RequestDumpable r) {ps : Pieces} (ha : Arrives e r ps) :
    ∃ q rest, recvHead e (ps.flatten.length + 1) (.new e.uriRelaxed) [] ps = .ok (q, rest, (read e.bufferSize ps).2) ∧
      q.data = { r with close := true, body := [], headers := sentHeaders r } ∧
      r.dumpHead ++ rest = (read e.bufferSize ps).1 := by
  obtain ⟨text, -, first, short, -⟩ := ha
  have happend := read_append e.bufferSize ps
  have hlength : (read e.bufferSize ps).1.length = min e.bufferSize (ps.head?.getD []).length := by
    cases ps with
    | nil => exact (Nat.min_zero _).symm
    | cons p ps => exact length_read _ p ps
  obtain ⟨rest, hrest⟩ : r.dumpHead <+: (read e.bufferSize ps).1 :=
    List.prefix_of_prefix_length_le ((List.prefix_append _ _).trans text)
      (happend ▸ List.prefix_append _ _) (by omega)
  obtain ⟨q, hexec, herr, hfin, hdata⟩ := h.exists_execute e.uriRelaxed rest
  refine ⟨q, rest, ?_, hdata, hrest⟩
  have hpos : 0 < r.dumpHead.length := by simp [h.dumpHead_eq, str]
  have hne : (read e.bufferSize ps).1 ≠ [] := List.ne_nil_of_length_pos (by omega)
  rw [← hrest, List.length_append] at hlength
  rw [recvHead]
  simp only [List.length_nil, Nat.sub_zero, List.nil_append]
  rw [if_neg hne, ← hrest, hexec]
  simp only [herr, hfin, List.drop_left, Bool.false_eq_true, if_false, if_true]
  rw [if_neg (by omega)]

end RequestDumpable

variable {e : SessionEnv} {ps : Pieces}

/-- **The text of a request** is read as the request, with the headers that `dump` adds. -/
theorem recvRequest_toString (hcast : CastsDecimals e) {r : HttpRequest} (h : RequestDumpable r)
    (ha : Arrives e r ps) :
    (recvRequest e ps).1 = .request { r with headers := sentHeaders r } := by
  obtain ⟨q, rest, hhead, hdata, hrest⟩ := h.recvHead_eq ha
  have hbehind : r.body <+: rest ++ (read e.bufferSize ps).2.flatten := by
    have htext := ha.text
    rw [← read_append e.bufferSize ps, ← hrest, HttpRequest.toString, List.append_assoc] at htext
    exact (List.prefix_append_right_inj _).mp htext
  -- the line that `dump` adds announces the body
  have hlen : q.getContentLength e = r.body.length := by
    have hfind : q.data.headers.find? (str "content-length") =
        if r.body = [] then none else some (dec r.body.length) := by
      have hkey : caseKey (str "Content-Length") = caseKey (str "content-length") := by decide
      rw [hdata, ← h.sentHeaders_length, KeyMap.find?, KeyMap.find?, hkey]
    have hsmall := ha.body
    have hword : r.body.length < 2 ^ 64 := by omega
    rw [HttpRequestParser.getContentLength, HttpRequest.getHeaderAs, hfind]
    -- without a body there is no such line
    split
    · next hnil =>
      rw [hnil]
      rfl
    · rw [Option.bind_some, hcast _ _ (numeral_dec _) hword, Option.getD_some,
        UInt64.toNat_ofNat_of_lt' hword, Nat.mod_eq_of_lt (by omega)]
  have hne : NonEmpty (read e.bufferSize ps).2 := by
    rw [read_snd ha.nonEmpty]
    exact ha.nonEmpty.dropBytes _
  have hinit : ∀ body, ({ q.data with body := body } : HttpRequest).init =
      { r with body := body, headers := sentHeaders r } := fun body => by
    rw [init_sentHeaders h { q.data with body := body } (by rw [hdata]), hdata]
  have hbody := (recvBody_eq hne (by rw [hlen]; exact hbehind.length_le)).2
    (by rw [hlen]; exact Nat.lt_of_le_of_lt (Nat.sub_le _ _) ha.body)
  have hrequest : requestOf q.data r.body.length (rest ++ (read e.bufferSize ps).2.flatten) =
      { r with headers := sentHeaders r } := by
    rw [requestOf, ← List.prefix_iff_eq_take.mp hbehind]
    split
    · exact hinit r.body
    · next hpos =>
      have hnil : r.body = [] := by simpa using hpos
      have hempty := hinit []
      rw [show ({ q.data with body := [] } : HttpRequest) = q.data by rw [hdata]] at hempty
      rw [hempty, ← hnil]
  rw [recvRequest, hhead]
  dsimp only
  rw [hbody, hlen, hrequest]

/-! ## The loop over the headers -/

/-- The headers that the loop sets. -/
def setHeaders (m : HeaderMap) (headers : List (Bytes × Bytes)) : HeaderMap :=
  (headers.filter fun e => caseKey e.1 ≠ caseKey (str "connection")).foldl (fun m e => m.set e.1 e.2) m

theorem foldl_addRequestHeader (headers : List (Bytes × Bytes)) (x : HttpRequest × Bool) :
    headers.foldl addRequestHeader x = ({ x.1 with
      close := x.1.close && !headers.any keepsAlive
      headers := setHeaders x.1.headers headers }, x.2 || headers.any givesHost) := by
  induction headers generalizing x with
  | nil => simp [setHeaders]
  | cons e headers ih =>
    have hne : caseKey (str "connection") ≠ caseKey (str "host") := by decide
    rw [List.foldl_cons, ih, addRequestHeader, List.any_cons, List.any_cons]
    by_cases hconn : caseKey e.1 = caseKey (str "connection")
    · by_cases halive : caseKey e.2 = caseKey (str "keep-alive") <;>
        simp [setHeaders, keepsAlive, givesHost, hconn, halive, hne]
    · obtain ⟨r, found⟩ := x
      by_cases hkey : caseKey e.1 = caseKey (str "host") <;> cases found <;>
        simp [setHeaders, HttpRequest.setHeader, keepsAlive, givesHost, hconn, hkey, hne.symm]

theorem find?_setHeaders (m : HeaderMap) (headers : List (Bytes × Bytes)) {name : Bytes}
    (hname : caseKey (str "connection") ≠ caseKey name) : (setHeaders m headers).find? name =
      ((headers.reverse.find? fun e => caseKey e.1 = caseKey name).map (·.2)).or (m.find? name) := by
  rw [setHeaders, KeyMap.find?_foldl_set_last, ← List.filter_reverse, List.find?_filter]
  congr 3
  funext e
  by_cases he : caseKey e.1 = caseKey name
  · simp [he, hname.symm]
  · simp [he]

/-! ## What the servlet gets -/

namespace Asked

variable {a : Asked} {host : Bytes}

theorem request_eq (a : Asked) (host : Bytes) (close : Bool) : a.request host close =
    { method := a.method, path := a.path, query := a.query, fragment := a.fragment, body := a.body,
      close := close && !a.headers.any keepsAlive,
      headers := if a.headers.any givesHost then setHeaders .empty a.headers
        else (setHeaders .empty a.headers).set (str "Host") host } := by
  rw [request, withHeaders, foldl_addRequestHeader]
  cases a.headers.any givesHost <;> rfl

theorem find?_request (a : Asked) (host : Bytes) (close : Bool) {name : Bytes}
    (hname : caseKey (str "connection") ≠ caseKey name) :
    (a.request host close).headers.find? name = a.value host name := by
  have hempty : (KeyMap.empty : HeaderMap).find? name = none := rfl
  rw [request_eq, value]
  cases hany : a.headers.any givesHost
  · by_cases hhost : caseKey (str "Host") = caseKey name
    · simp [KeyMap.find?_set, hhost]
    · simp [KeyMap.find?_set, hhost, find?_setHeaders _ _ hname, hempty]
  · simp [find?_setHeaders _ _ hname, hempty]

theorem Sendable.dumpable (h : a.Sendable host) (close : Bool) : RequestDumpable (a.request host close) := by
  have hset : ∀ e ∈ (setHeaders .empty a.headers).entries, HeaderName e.1 ∧ HeaderValue e.2 := by
    refine KeyMap.forall_foldl_set (fun e he => absurd (show e ∈ [] from he) List.not_mem_nil) fun e he => ?_
    obtain ⟨hmem, hconn⟩ := List.mem_filter.mp he
    exact h.headers e hmem (of_decide_eq_true hconn)
  have hhost : HeaderName (str "Host") := ⟨⟨by decide, by decide +kernel⟩, by decide, by decide⟩
  have hall : ∀ e ∈ (a.request host close).headers.entries, HeaderName e.1 ∧ HeaderValue e.2 := by
    rw [request_eq]
    dsimp only
    split
    · exact hset
    · exact forall_insertEntry hhost h.host hset
  rw [request_eq] at hall ⊢
  exact ⟨h.method, .inr rfl, h.path, h.query, h.fragment, fun e he => (hall e he).1, fun e he => (hall e he).2⟩

theorem Sendable.delivered {e : SessionEnv} (hcast : CastsDecimals e) (h : a.Sendable host) (close : Bool)
    {ps : Pieces} (ha : Arrives e (a.request host close) ps) : ∃ r, (recvRequest e ps).1 = .request r ∧
      a.Delivered host (close && !a.headers.any keepsAlive) r := by
  have hkey : caseKey (str "connection") = caseKey (str "Connection") := by decide
  refine ⟨_, recvRequest_toString hcast (h.dumpable close) ha, ?_⟩
  constructor
  · rw [request_eq a host close]
  · intro name hconn hlen
    rw [sentHeaders_find? _ name hconn hlen]
    rw [← hkey] at hconn
    exact find?_request a host close hconn

end Asked

/-- **`HttpConnection::DoRequest`.** The servlet gets the method, the target, the headers and the body. -/
theorem doRequest_delivered (hcast : CastsDecimals e) {a : Asked} {host : Bytes}
    (h : a.Sendable host) (ha : Arrives e (HttpConnection.doRequest a host) ps) :
    ∃ r, (recvRequest e ps).1 = .request r ∧ a.Delivered host (!a.headers.any keepsAlive) r :=
  h.delivered hcast true ha

/-- A request with a query, a header, `connection` and a body. -/
def sampleAsked : Asked where
  method := .post
  path := str "/"
  query := str "a"
  headers := [(str "Connection", str "Keep-Alive"), (str "x", str "y")]
  body := str "hello"

theorem sampleAsked_sendable : sampleAsked.Sendable (str "h") where
  method := by decide +kernel
  path := sampleRequest_dumpable.path
  query := sampleRequest_dumpable.query
  fragment := sampleRequest_dumpable.fragment
  host := ⟨by decide +kernel, by decide⟩
  headers := by
    have hx : HeaderName (str "x") ∧ HeaderValue (str "y") :=
      ⟨⟨⟨by decide, by decide +kernel⟩, by decide, by decide⟩, by decide +kernel, by decide⟩
    have hconn : caseKey (str "Connection") = caseKey (str "connection") := by decide
    exact List.forall_mem_cons.mpr ⟨fun h => absurd hconn h, List.forall_mem_singleton.mpr fun _ => hx⟩

/-- Its text, with the body in a second piece. -/
def samplePieces : Pieces :=
  [str "POST /?a HTTP/1.1\r\nConnection: keep-alive\r\nHost:h\r\nx:y\r\nContent-Length: 5\r\n\r\n", str "hello"]

theorem doRequest_delivered_sample :
    ∃ r, (recvRequest defaultEnv samplePieces).1 = .request r ∧ sampleAsked.Delivered (str "h") false r :=
  doRequest_delivered castsDecimals_default sampleAsked_sendable
    ⟨by decide +kernel, by decide, by decide +kernel, by decide +kernel, by decide⟩

theorem HttpConnectionPool.doRequest_text (a : Asked) (host vhost : Bytes) :
    let r := HttpConnectionPool.doRequest a host vhost
    let r' := a.request (if vhost = [] then host else vhost) false
    r.dumpHead = r'.dumpHead ∧ r.body = r'.body := by
  dsimp only
  rw [Asked.request_eq, HttpConnectionPool.doRequest, withHeaders, foldl_addRequestHeader]
  constructor
  · cases a.headers.any givesHost <;>
      simp [HttpRequest.dumpHead, HttpRequest.setHeader, Asked.url, List.append_assoc]
  · rfl

/-- **`HttpConnectionPool::doRequest`.** The server finds the parts of the target that was handed over as the path. -/
theorem pool_doRequest_delivered (hcast : CastsDecimals e) {a : Asked} {host vhost : Bytes}
    (h : a.Sendable (if vhost = [] then host else vhost))
    (ha : Arrives e (HttpConnectionPool.doRequest a host vhost) ps) :
    ∃ r, (recvRequest e ps).1 = .request r ∧ a.Delivered (if vhost = [] then host else vhost) false r := by
  obtain ⟨hhead, hbody⟩ := HttpConnectionPool.doRequest_text a host vhost
  have ha' : Arrives e (a.request (if vhost = [] then host else vhost) false) ps := by
    obtain ⟨text, nonEmpty, first, short, body⟩ := ha
    rw [HttpRequest.toString, hhead, hbody] at text
    rw [hhead] at first short
    exact ⟨text, nonEmpty, first, short, hbody ▸ body⟩
  exact h.delivered hcast false ha'

theorem pool_doRequest_delivered_sample :
    ∃ r, (recvRequest defaultEnv samplePieces).1 = .request r ∧ sampleAsked.Delivered (str "h") false r :=
  @pool_doRequest_delivered defaultEnv _ castsDecimals_default sampleAsked (str "g") (str "h") sampleAsked_sendable
    ⟨by decide +kernel, by decide, by decide +kernel, by decide +kernel, by decide⟩

end Sherry.Http
