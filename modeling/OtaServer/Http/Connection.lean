import OtaServer.Http.ResponseParser
import OtaServer.Http.Session

/-!
# Receiving a response (`HttpConnection::recvResponse`, `sherry/http/http_connection.cc`)

`recvResponse` reads into one buffer until the machine has found the end of a head. The body follows in chunks or has
the length of the header `content-length`. Of a chunk it first reads the size line, where every call of the parser
starts anew (`HttpResponseParser::execute` with `chunck`), and then the data, the line break behind it included.

* `recvResponseHead`, `recvSizeLine`, `readLeft`, `recvChunks`, `recvLength`: the loops and branches of the function.
* `Received`: what a call ends with.
-/

namespace Sherry.Http

open Lib

/-- What `recvResponse` needs from outside: the size of the buffer, which is an `int` where it is compared, what the
memory of the buffer holds at first, `last_chunk` of a new parser, `boost::lexical_cast<uint64_t>`, and what zlib
makes of a body. -/
structure ConnectionEnv where
  bufferSize : Nat
  bufferSize_lt : bufferSize < 2 ^ 31
  fresh : Bytes
  lastChunk : Bool
  lexicalCast : Bytes → Option UInt64
  gunzip : Bytes → Bytes
  inflate : Bytes → Bytes

/-- How a call of `recvResponse` ends: with a response, with a closed connection and a null pointer, or not at all:
with an exception, a failed assertion, or undefined. -/
inductive Received where
  | response (r : HttpResponse)
  | closed
  | failed

/-- The first loop: the parser, the buffer with the bytes behind the head, and the pieces left. -/
def recvResponseHead (e : ConnectionEnv) : Nat → HttpResponseParser → Buffer → Pieces →
    Except Received (HttpResponseParser × Buffer × Pieces)
  | 0, _, _, _ => .error .closed
  | fuel + 1, p, b, ps =>
    let (got, ps') := read (e.bufferSize - b.text.length) ps
    if got = [] then .error .closed
    else
      match p.execute (b.append got).terminate with
      | none => .error .failed
      | some (p', b') =>
        if p'.hasError then .error .closed
        else if b'.text.length = e.bufferSize then .error .closed
        else if p'.isFinished then .ok (p', b', ps')
        else recvResponseHead e fuel p' b' ps'

/-- The bytes that the inner loop reads before it parses: none in the first round, if some are left in the buffer. -/
def refill (e : ConnectionEnv) (begin : Bool) (b : Buffer) (ps : Pieces) : Option (Buffer × Pieces) :=
  if !begin || b.text = [] then
    let (got, ps') := read (e.bufferSize - b.text.length) ps
    if got = [] then none else some (b.append got, ps')
  else some (b, ps)

/-- The inner loop: the size line of a chunk. -/
def recvSizeLine (e : ConnectionEnv) : Nat → Bool → HttpResponseParser → Buffer → Pieces →
    Except Received (HttpResponseParser × Buffer × Pieces)
  | 0, _, _, _, _ => .error .closed
  | fuel + 1, begin, p, b, ps =>
    match refill e begin b ps with
    | none => .error .closed
    | some (b, ps) =>
      match p.init.execute b.terminate with
      | none => .error .failed
      | some (p', b') =>
        if p'.hasError then .error .closed
        else if b'.text.length = e.bufferSize then .error .closed
        else if p'.isFinished then .ok (p', b', ps)
        else recvSizeLine e fuel false p' b' ps

/-- `while(left > 0)`: the bytes read, the memory of the buffer and the pieces left. -/
def readLeft (e : ConnectionEnv) : Nat → Nat → Bytes → Pieces → Option (Bytes × Bytes × Pieces)
  | _, 0, memory, ps => some ([], memory, ps)
  | 0, _ + 1, _, _ => none
  | fuel + 1, left + 1, memory, ps =>
    let (got, ps') := read (min (left + 1) e.bufferSize) ps
    if got = [] then none
    else (readLeft e fuel (left + 1 - got.length) (got ++ memory.drop got.length) ps').map
      fun r => (got ++ r.1, r.2)

/-- The data of a chunk behind its size line, appended to the body: the body, the buffer and the pieces left. A sum
that is no `int` and a length that is negative end the call. -/
def recvData (e : ConnectionEnv) (p : HttpResponseParser) (b : Buffer) (body : Bytes) (ps : Pieces) :
    Except Received (Bytes × Buffer × Pieces) :=
  if 2 ^ 31 ≤ p.contentLen + 2 then .error .failed
  else if p.contentLen + 2 ≤ b.text.length then
    if p.contentLen < 0 then .error .failed
    else .ok (body ++ b.text.take p.contentLen.toNat, b.shift (p.contentLen.toNat + 2), ps)
  else
    let left := (p.contentLen - b.text.length + 2).toNat
    match readLeft e left left b.memory ps with
    | none => .error .closed
    | some (got, memory, ps') =>
      let body := body ++ b.text ++ got
      if body.length < 2 then .error .failed
      else .ok (body.take (body.length - 2), ⟨[], memory⟩, ps')

/-- The outer loop: the parser, the body and the pieces left. A round takes a byte at least. -/
def recvChunks (e : ConnectionEnv) : Nat → HttpResponseParser → Buffer → Bytes → Pieces →
    Except Received (HttpResponseParser × Bytes × Pieces)
  | 0, _, _, _, _ => .error .closed
  | fuel + 1, p, b, body, ps => do
    let (p, b, ps) ← recvSizeLine e (ps.flatten.length + 2) true p b ps
    let (body, b, ps) ← recvData e p b body ps
    if p.chunksDone then return (p, body, ps) else recvChunks e fuel p b body ps

/-- `getHeaderAs<uint64_t>("content-length", 0)`, returned as a `uint32_t`. -/
def HttpResponseParser.getContentLength (e : ConnectionEnv) (p : HttpResponseParser) : Nat :=
  (((p.data.headers.find? (str "content-length")).bind e.lexicalCast).getD 0).toNat % 2 ^ 32

/-- A body with a length. -/
def recvLength (e : ConnectionEnv) (p : HttpResponseParser) (b : Buffer) (ps : Pieces) :
    Except Received (Bytes × Pieces) :=
  let length := p.getContentLength e
  if b.text.length < length then
    match readFixSize ps.flatten.length (length - b.text.length) ps with
    | none => .error .closed
    | some (got, ps') =>
      if returned (length - b.text.length) ≤ 0 then .error .closed else .ok (b.text ++ got, ps')
  else .ok (b.text.take length, ps)

/-- `setBody`, after the content encoding has been undone. An empty body is not set. -/
def withBody (e : ConnectionEnv) (r : HttpResponse) (body : Bytes) : HttpResponse :=
  if body = [] then r
  else
    let encoding := caseKey (r.getHeader (str "content-encoding"))
    { r with body :=
        if encoding = caseKey (str "gzip") then e.gunzip body
        else if encoding = caseKey (str "deflate") then e.inflate body
        else body }

/-- `recvResponse` behind the head. -/
def recvResponseBody (e : ConnectionEnv) (p : HttpResponseParser) (b : Buffer) (ps : Pieces) :
    Except Received (HttpResponse × Pieces) :=
  if p.chunked then do
    let (p, body, ps) ← recvChunks e (b.text.length + ps.flatten.length + 1) p b [] ps
    return (withBody e p.data body, ps)
  else do
    let (body, ps) ← recvLength e p b ps
    return (withBody e p.data body, ps)

/-- `HttpConnection::recvResponse`, and the pieces left where there is a response. -/
def recvResponse (e : ConnectionEnv) (ps : Pieces) : Received × Pieces :=
  let received := do
    let (p, b, ps) ←
      recvResponseHead e (ps.flatten.length + 1) (.new e.lastChunk) ⟨[], e.fresh⟩ ps
    recvResponseBody e p b ps
  match received with
  | .error r => (r, ps)
  | .ok (r, ps) => (.response r, ps)

end Sherry.Http
