import OtaServer.Http.HttpClientParser
import OtaServer.Http.Message
import OtaServer.Lib.MachineInt
import OtaServer.Lib.Number

/-!
# The response parser (`httpclient_parser_execute`, `sherry/http/http_parser.cc`)

`httpclient_parser_execute` runs the machine over the text in a buffer. As in the request parser the actions keep
positions in the buffer. Other than there, a call resets nothing: positions from an earlier call stay, although the
text has been moved since, and `nread` adds up over the calls and is what a call returns.

* `Buffer`: the memory of a buffer, the text in it and the bytes behind. An action with an old position reads those.
* `HttpResponseParser.act`: one action with its callback.
* `HttpResponseParser.execute`: one call. It gives nothing if it does not return: a callback throws, an assertion
  fails, or a position is found wrong, where `-1` is returned and used as a size.
-/

namespace Sherry.Http

open Lib Ragel

/-! ## The buffer -/

/-- A buffer: `text` is `data[0, len)`, and `behind` the bytes from `data[len]` on. -/
structure Buffer where
  text : Bytes
  behind : Bytes

namespace Buffer

/-- The memory from the start of the text on. -/
def memory (b : Buffer) : Bytes := b.text ++ b.behind

/-- `read(data + len, ...)` has put `got` into the buffer. -/
def append (b : Buffer) (got : Bytes) : Buffer := ⟨b.text ++ got, b.behind.drop got.length⟩

/-- `data[len] = '\0'`. -/
def terminate (b : Buffer) : Buffer := ⟨b.text, 0 :: b.behind.drop 1⟩

/-- `memmove(data, data + n, len - n)`. -/
def shift (b : Buffer) (n : Nat) : Buffer :=
  ⟨b.text.drop n, b.text.drop (b.text.length - n) ++ b.behind⟩

end Buffer

/-! ## The parser -/

/-- `HttpResponseParser`, with the fields of its `httpclient_parser`. There is no state of the machine after an error.
-/
structure HttpResponseParser where
  cs : Option (State ClientAction)
  bodyStart : Nat
  contentLen : Int
  chunked : Bool
  chunksDone : Bool
  nread : Nat
  mark : Nat
  fieldStart : Nat
  fieldLen : Nat
  /-- The pointer `last_chunk` is not null. -/
  lastChunk : Bool
  error : Nat
  data : HttpResponse

namespace HttpResponseParser

/-- `httpclient_parser_init`. -/
def init (p : HttpResponseParser) : HttpResponseParser :=
  { p with
    cs := some (start ClientGrammar.main), bodyStart := 0, contentLen := -1, chunked := false,
    chunksDone := false, nread := 0, mark := 0, fieldStart := 0, fieldLen := 0 }

/-- The constructor. It does not set `last_chunk`, which is a parameter. -/
def new (lastChunk : Bool) : HttpResponseParser :=
  init ⟨none, 0, 0, false, false, 0, 0, 0, 0, lastChunk, 0, {}⟩

/-- Stores the code of an error. -/
def setError (p : HttpResponseParser) (v : Nat) : HttpResponseParser := { p with error := v }

/-! ### Callbacks -/

/-- `on_response_reason`. -/
def onResponseReason (p : HttpResponseParser) (text : Bytes) : HttpResponseParser :=
  { p with data := { p.data with reason := text } }

/-- `on_response_staus`. It looks at the text from `at` on and not at the length. -/
def onResponseStaus (p : HttpResponseParser) (text : Bytes) : HttpResponseParser :=
  { p with data := { p.data with status := .ofCode (toInt (strtol 10 text)) } }

/-- `on_response_version`: any other version is error 1001. -/
def onResponseVersion (p : HttpResponseParser) (text : Bytes) (length : Nat) : HttpResponseParser :=
  if strncmpEq text (str "HTTP/1.1") length then { p with data := { p.data with version := 0x11 } }
  else if strncmpEq text (str "HTTP/1.0") length then
    { p with data := { p.data with version := 0x10 } }
  else p.setError 1001

/-- `on_response_http_field`. The strings are made behind the test of `flen`. -/
def onResponseHttpField (p : HttpResponseParser) (flen : Nat) (field value : Option Bytes) :
    Option HttpResponseParser :=
  if flen = 0 then some p
  else do
    let field ← field
    let value ← value
    return { p with data := p.data.setHeader field value }

/-! ### The run over a buffer -/

/-- `LEN(start, fpc)` as a `size_t`. -/
def distance (start fpc : Nat) : Nat := if start ≤ fpc then fpc - start else 2 ^ 64 - (start - fpc)

/-- `std::string(buffer + start, length)`. A length that has wrapped makes the constructor throw. -/
def substr (memory : Bytes) (start length : Nat) : Option Bytes :=
  if start + length ≤ memory.length then some ((memory.drop start).take length) else none

/-- One action at the position `fpc`. `on_response_chunk` and `on_response_header_done` do nothing, and nothing reads
`close` and `status`. -/
def act (memory : Bytes) (fpc : Nat) (p : HttpResponseParser) :
    ClientAction → Option HttpResponseParser
  | .mark | .startValue => some { p with mark := fpc }
  | .startField => some { p with fieldStart := fpc }
  | .writeField => some { p with fieldLen := distance p.fieldStart fpc }
  | .writeContentLen => some { p with contentLen := toInt (strtol 10 (memory.drop p.mark)) }
  | .writeConnectionClose => some p
  | .writeValue => p.onResponseHttpField p.fieldLen (substr memory p.fieldStart p.fieldLen)
      (substr memory p.mark (distance p.mark fpc))
  | .reasonPhrase => (substr memory p.mark (distance p.mark fpc)).map p.onResponseReason
  | .statusCode => some (p.onResponseStaus (memory.drop p.mark))
  | .httpVersion => some (p.onResponseVersion (memory.drop p.mark) (distance p.mark fpc))
  | .chunkSize =>
    let contentLen := toInt (strtol 16 (memory.drop p.mark))
    -- a call through `last_chunk`, which nothing has set
    if contentLen ≤ 0 ∧ p.lastChunk then none
    else some { p with
      chunked := true, contentLen := contentLen, chunksDone := decide (contentLen ≤ 0) }
  | .transChunked => some { p with chunked := true }
  | .done => some { p with bodyStart := fpc + 1 }

/-- The actions of one byte. -/
def actAll (memory : Bytes) (fpc : Nat) (p : HttpResponseParser) (as : List ClientAction) :
    Option HttpResponseParser :=
  as.foldlM (fun p a => p.act memory fpc a) p

/-- The machine over the bytes of the text from `fpc` on, and where it stops: at the end, on a byte that is an error,
or behind the byte that runs `done`. -/
def exec (memory : Bytes) : Nat → Bytes → HttpResponseParser → Option (HttpResponseParser × Nat)
  | fpc, [], p => some (p, fpc)
  | fpc, b :: bs, p =>
    match p.cs.bind fun cs => advance cs b with
    | none => some ({ p with cs := none }, fpc)
    | some (cs, as) =>
      match p.actAll memory fpc as with
      | none => none
      | some p' =>
        if .done ∈ as then some ({ p' with cs := some cs }, fpc + 1)
        else exec memory (fpc + 1) bs { p' with cs := some cs }

variable {memory : Bytes} {p p' : HttpResponseParser} {s : State ClientAction} {fpc : Nat}

theorem exec_byte {b : UInt8} {bs : Bytes}
    {q : HttpResponseParser} {s' : State ClientAction} {as : List ClientAction}
    (hcs : p.cs = some s) (hadv : advance s b = some (s', as))
    (hact : p.actAll memory fpc as = some p') (hdone : .done ∉ as)
    (hq : { p' with cs := some s' } = q) :
    exec memory fpc (b :: bs) p = exec memory (fpc + 1) bs q := by
  rw [exec, hcs, Option.bind_some, hadv]
  dsimp only
  rw [hact, ← hq]
  exact if_neg hdone

theorem exec_done {b : UInt8} {bs : Bytes}
    {q : HttpResponseParser} {s' : State ClientAction} {as : List ClientAction}
    (hcs : p.cs = some s) (hadv : advance s b = some (s', as))
    (hact : p.actAll memory fpc as = some p') (hdone : .done ∈ as)
    (hq : { p' with cs := some s' } = q) :
    exec memory fpc (b :: bs) p = some (q, fpc + 1) := by
  rw [exec, hcs, Option.bind_some, hadv]
  dsimp only
  rw [hact, ← hq]
  exact if_pos hdone

theorem exec_loop {w rest : Bytes} (h : ∀ b ∈ w, advance s b = some (s, [])) (hcs : p.cs = some s) :
    exec memory fpc (w ++ rest) p = exec memory (fpc + w.length) rest p := by
  induction w generalizing fpc with
  | nil => rfl
  | cons b w ih =>
    have hp : { p with cs := some s } = p := by rw [← hcs]
    rw [List.cons_append, exec_byte hcs (h b List.mem_cons_self) rfl (by simp) hp,
      ih fun c hc => h c (List.mem_cons_of_mem b hc), List.length_cons, Nat.add_right_comm,
      Nat.add_assoc]

/-- The conditions that `httpclient_parser_execute` checks at its end. -/
def Checked (p : HttpResponseParser) (len : Nat) : Prop :=
  p.nread ≤ len ∧ p.bodyStart ≤ len ∧ p.mark < len ∧ p.fieldLen ≤ len ∧ p.fieldStart < len

instance (p : HttpResponseParser) (len : Nat) : Decidable (p.Checked len) :=
  inferInstanceAs (Decidable (_ ∧ _))

/-- `httpclient_parser_execute` with `off` 0, and so `HttpResponseParser::execute`: the parser and the buffer
afterwards. The length of the text is compared with itself as an `int`. -/
def execute (p : HttpResponseParser) (b : Buffer) : Option (HttpResponseParser × Buffer) :=
  if b.behind.head? ≠ some 0 ∨ 2 ^ 31 ≤ b.text.length then none
  else do
    let (p', stop) ← exec b.memory 0 b.text p
    let p' := { p' with nread := p.nread + stop }
    if p'.Checked b.text.length then return (p', b.shift p'.nread) else none

theorem execute_eq {text behind : Bytes} {stop : Nat}
    (hlen : text.length < 2 ^ 31) (hexec : exec (text ++ 0 :: behind) 0 text p = some (p', stop))
    (hchecked : { p' with nread := p.nread + stop }.Checked text.length) :
    p.execute ⟨text, 0 :: behind⟩ = some ({ p' with nread := p.nread + stop },
      Buffer.shift ⟨text, 0 :: behind⟩ (p.nread + stop)) := by
  rw [execute, if_neg (by simp; omega)]
  simp only [Buffer.memory, hexec, Option.bind_eq_bind, Option.bind_some]
  exact if_pos hchecked

/-- `hasError`. -/
def hasError (p : HttpResponseParser) : Bool := p.error != 0 || p.cs.isNone

/-- `isFinished`: the state is `first_final`. That is the one final state in which no byte goes on. -/
def isFinished (p : HttpResponseParser) : Bool := p.cs.any fun cs => cs.final && !cs.live

end HttpResponseParser

end Sherry.Http
