import OtaServer.Http.Http11Parser
import OtaServer.Http.Message

/-!
# The request parser (`http_parser_execute`, `sherry/http/http_parser.cc`)

`http_parser_execute` runs the machine over one buffer. Its actions keep positions in that buffer (`mark`,
`field_start`, `field_len`, `query_start`), and the callbacks get the bytes from such a position to the current one.
Each call starts with `mark`, `field_start` and `field_len` at 0; `query_start` stays as it was.

* `HttpRequestParser.act`: one action with its callback.
* `HttpRequestParser.execute`: one call. It gives nothing if a callback throws.
* `scan`: the actions of a run that ends with `done` on the last byte of a text. A text is accepted by the grammar if
  there is such a run.
-/

namespace Sherry.Http

open Lib Ragel

/-- `HttpRequestParser`, with the fields of its `http_parser`. There is no state of the machine after an error. -/
structure HttpRequestParser where
  cs : Option (State Action)
  mark : Nat
  fieldStart : Nat
  fieldLen : Nat
  queryStart : Nat
  error : Nat
  data : HttpRequest

namespace HttpRequestParser

/-- The constructor. `http_parser_init` sets neither `uri_relaxed` nor `query_start`: the first is a parameter, and
the machine sets the second before it is read. -/
def new (uriRelaxed : Bool) : HttpRequestParser where
  cs := some (start (Grammar.main uriRelaxed))
  mark := 0
  fieldStart := 0
  fieldLen := 0
  queryStart := 0
  error := 0
  data := {}

/-- Stores the code of an error. -/
def setError (p : HttpRequestParser) (v : Nat) : HttpRequestParser := { p with error := v }

/-! ## Callbacks -/

/-- `on_request_method`. It looks at the text from `at` on and not at the length. -/
def onRequestMethod (p : HttpRequestParser) (text : Bytes) : HttpRequestParser :=
  if charsToHttpMethod text = .invalidMethod then p.setError 1000
  else { p with data := { p.data with method := charsToHttpMethod text } }

/-- `on_request_fragment`. -/
def onRequestFragment (p : HttpRequestParser) (text : Bytes) : HttpRequestParser :=
  { p with data := { p.data with fragment := text } }

/-- `on_request_path`. -/
def onRequestPath (p : HttpRequestParser) (text : Bytes) : HttpRequestParser :=
  { p with data := { p.data with path := text } }

/-- `on_request_query`. -/
def onRequestQuery (p : HttpRequestParser) (text : Bytes) : HttpRequestParser :=
  { p with data := { p.data with query := text } }

/-- `on_request_version`: any other version is error 1001. -/
def onRequestVersion (p : HttpRequestParser) (text : Bytes) (length : Nat) : HttpRequestParser :=
  if strncmpEq text (str "HTTP/1.1") length then { p with data := { p.data with version := 0x11 } }
  else if strncmpEq text (str "HTTP/1.0") length then
    { p with data := { p.data with version := 0x10 } }
  else p.setError 1001

/-- `on_request_http_field`: a name that is empty is passed over. -/
def onRequestHttpField (p : HttpRequestParser) (field value : Bytes) : HttpRequestParser :=
  if field = [] then p else { p with data := p.data.setHeader field value }

/-! ## The run over a buffer -/

/-- `std::string(PTR_TO(start), LEN(start, fpc))`. A start behind `fpc` makes the length wrap, and the constructor
throws. -/
def substr (buffer : Bytes) (start fpc : Nat) : Option Bytes :=
  if start ≤ fpc then some ((buffer.drop start).take (fpc - start)) else none

/-- One action at the position `fpc`. `on_request_uri` and `on_request_header_done` do nothing, and nothing reads what
`xml`, `json` and `done` record. -/
def act (buffer : Bytes) (fpc : Nat) (p : HttpRequestParser) : Action → Option HttpRequestParser
  | .mark | .startValue => some { p with mark := fpc }
  | .startField => some { p with fieldStart := fpc }
  | .writeField => some { p with fieldLen := fpc - p.fieldStart }
  | .writeValue => (substr buffer p.mark fpc).map
      (p.onRequestHttpField ((buffer.drop p.fieldStart).take p.fieldLen))
  | .requestMethod => some (p.onRequestMethod (buffer.drop p.mark))
  | .fragment => (substr buffer p.mark fpc).map p.onRequestFragment
  | .startQuery => some { p with queryStart := fpc }
  | .queryString => (substr buffer p.queryStart fpc).map p.onRequestQuery
  | .httpVersion => some (p.onRequestVersion (buffer.drop p.mark) (fpc - p.mark))
  | .requestPath => (substr buffer p.mark fpc).map p.onRequestPath
  | .requestUri | .xml | .json | .done => some p

/-- The actions of one byte. -/
def actAll (buffer : Bytes) (fpc : Nat) (p : HttpRequestParser) (as : List Action) : Option HttpRequestParser :=
  as.foldlM (fun p a => p.act buffer fpc a) p

/-- The machine over the bytes of the buffer from `fpc` on, and where it stops: at the end, on a byte that is an
error, or behind the byte that runs `done`. -/
def exec (buffer : Bytes) : Nat → Bytes → HttpRequestParser → Option (HttpRequestParser × Nat)
  | fpc, [], p => some (p, fpc)
  | fpc, b :: bs, p =>
    match p.cs.bind fun cs => advance cs b with
    | none => some ({ p with cs := none }, fpc)
    | some (cs, as) =>
      match p.actAll buffer fpc as with
      | none => none
      | some p' =>
        if .done ∈ as then some ({ p' with cs := some cs }, fpc + 1)
        else exec buffer (fpc + 1) bs { p' with cs := some cs }

/-- `http_parser_execute` with `off` 0, and so `HttpRequestParser::execute`: the parser afterwards and how many bytes
were parsed. -/
def execute (p : HttpRequestParser) (buffer : Bytes) : Option (HttpRequestParser × Nat) :=
  if buffer = [] then some (p, 0)
  else exec buffer 0 buffer { p with mark := 0, fieldLen := 0, fieldStart := 0 }

/-- `hasError`: of a callback, or of the machine. -/
def hasError (p : HttpRequestParser) : Bool := p.error != 0 || p.cs.isNone

/-- `isFinished`: the machine is in a final state. -/
def isFinished (p : HttpRequestParser) : Bool := p.cs.any (·.final)

end HttpRequestParser

/-! ## Accepted texts -/

/-- The actions of the run over a text, if it ends with `done` on the last byte of the text. -/
def scan : State Action → Bytes → Option (List Action)
  | _, [] => none
  | s, b :: bs =>
    match advance s b with
    | none => none
    | some (s', as) =>
      if .done ∈ as then if bs = [] then some as else none
      else (scan s' bs).map (as ++ ·)

/-- The actions of an accepted text behind its first bytes. -/
def actionsAfter : State Action → Bytes → Nat → List Action
  | s, bs, 0 => (scan s bs).getD []
  | _, [], _ + 1 => []
  | s, b :: bs, c + 1 =>
    match advance s b with
    | none => []
    | some (s', _) => actionsAfter s' bs c

end Sherry.Http
