import OtaServer.Lib.Bytes
import OtaServer.Lib.KeyMap

/-!
# HTTP messages (`sherry/http/http.h`, `sherry/http/http.cc`)

Methods, statuses, headers, requests and responses. Header names are compared without regard to case, as C strings
(`CaseInsensitiveLess`).

* `HttpRequest.toString`, `HttpResponse.toString`: what `dump` writes.
-/

namespace Sherry.Http

open Lib

/-- `HttpMethod`. -/
inductive HttpMethod where
  | delete | get | head | post | put
  | connect | options | trace
  | copy | lock | mkcol | move | propfind | proppatch | search | unlock | bind | rebind | unbind | acl
  | report | mkactivity | checkout | merge
  | msearch | notify | subscribe | unsubscribe
  | patch | purge
  | mkcalendar
  | link | unlink
  | source
  | invalidMethod
  deriving DecidableEq

/-- `HTTP_METHOD_MAP`. -/
def httpMethodMap : List (HttpMethod × Bytes) := [
  (.delete, str "DELETE"), (.get, str "GET"), (.head, str "HEAD"), (.post, str "POST"),
  (.put, str "PUT"), (.connect, str "CONNECT"), (.options, str "OPTIONS"), (.trace, str "TRACE"),
  (.copy, str "COPY"), (.lock, str "LOCK"), (.mkcol, str "MKCOL"), (.move, str "MOVE"),
  (.propfind, str "PROPFIND"), (.proppatch, str "PROPPATCH"), (.search, str "SEARCH"),
  (.unlock, str "UNLOCK"), (.bind, str "BIND"), (.rebind, str "REBIND"), (.unbind, str "UNBIND"),
  (.acl, str "ACL"), (.report, str "REPORT"), (.mkactivity, str "MKACTIVITY"),
  (.checkout, str "CHECKOUT"), (.merge, str "MERGE"), (.msearch, str "M-SEARCH"),
  (.notify, str "NOTIFY"), (.subscribe, str "SUBSCRIBE"), (.unsubscribe, str "UNSUBSCRIBE"),
  (.patch, str "PATCH"), (.purge, str "PURGE"), (.mkcalendar, str "MKCALENDAR"),
  (.link, str "LINK"), (.unlink, str "UNLINK"), (.source, str "SOURCE")]

/-- `StringToHttpMethod`: the method with this name. -/
def stringToHttpMethod (m : Bytes) : HttpMethod :=
  ((httpMethodMap.find? fun e => cstr e.2 == cstr m).map (·.1)).getD .invalidMethod

/-- `CharsToHttpMethod`: the first method whose name the text starts with. -/
def charsToHttpMethod (m : Bytes) : HttpMethod :=
  ((httpMethodMap.find? fun e => strncmpEq e.2 m e.2.length).map (·.1)).getD .invalidMethod

/-- `HttpMethodToString`. -/
def httpMethodToString (m : HttpMethod) : Bytes :=
  ((httpMethodMap.find? (·.1 = m)).map (·.2)).getD (str "<unknown>")

/-- `HttpStatus`. A value that is cast from another number is kept as that number. -/
inductive HttpStatus where
  | continue_ | switchingProtocols | processing | ok | created | accepted
  | nonAuthoritativeInformation | noContent | resetContent | partialContent | multiStatus
  | alreadyReported | imUsed | multipleChoices | movedPermanently | found | seeOther | notModified
  | useProxy | temporaryRedirect | permanentRedirect | badRequest | unauthorized | paymentRequired
  | forbidden | notFound | methodNotAllowed | notAcceptable | proxyAuthenticationRequired
  | requestTimeout | conflict | gone | lengthRequired | preconditionFailed | payloadTooLarge
  | uriTooLong | unsupportedMediaType | rangeNotSatisfiable | expectationFailed
  | misdirectedRequest | unprocessableEntity | locked | failedDependency | upgradeRequired
  | preconditionRequired | tooManyRequests | requestHeaderFieldsTooLarge
  | unavailableForLegalReasons | internalServerError | notImplemented | badGateway
  | serviceUnavailable | gatewayTimeout | httpVersionNotSupported | variantAlsoNegotiates
  | insufficientStorage | loopDetected | notExtended | networkAuthenticationRequired
  | other (code : Int)
  deriving DecidableEq

/-- `HTTP_STATUS_MAP`. -/
def httpStatusMap : List (Nat × HttpStatus × Bytes) := [
  (100, .continue_, str "Continue"), (101, .switchingProtocols, str "Switching Protocols"),
  (102, .processing, str "Processing"), (200, .ok, str "OK"), (201, .created, str "Created"),
  (202, .accepted, str "Accepted"),
  (203, .nonAuthoritativeInformation, str "Non-Authoritative Information"),
  (204, .noContent, str "No Content"), (205, .resetContent, str "Reset Content"),
  (206, .partialContent, str "Partial Content"), (207, .multiStatus, str "Multi-Status"),
  (208, .alreadyReported, str "Already Reported"), (226, .imUsed, str "IM Used"),
  (300, .multipleChoices, str "Multiple Choices"),
  (301, .movedPermanently, str "Moved Permanently"), (302, .found, str "Found"),
  (303, .seeOther, str "See Other"), (304, .notModified, str "Not Modified"),
  (305, .useProxy, str "Use Proxy"), (307, .temporaryRedirect, str "Temporary Redirect"),
  (308, .permanentRedirect, str "Permanent Redirect"), (400, .badRequest, str "Bad Request"),
  (401, .unauthorized, str "Unauthorized"), (402, .paymentRequired, str "Payment Required"),
  (403, .forbidden, str "Forbidden"), (404, .notFound, str "Not Found"),
  (405, .methodNotAllowed, str "Method Not Allowed"), (406, .notAcceptable, str "Not Acceptable"),
  (407, .proxyAuthenticationRequired, str "Proxy Authentication Required"),
  (408, .requestTimeout, str "Request Timeout"), (409, .conflict, str "Conflict"),
  (410, .gone, str "Gone"), (411, .lengthRequired, str "Length Required"),
  (412, .preconditionFailed, str "Precondition Failed"),
  (413, .payloadTooLarge, str "Payload Too Large"), (414, .uriTooLong, str "URI Too Long"),
  (415, .unsupportedMediaType, str "Unsupported Media Type"),
  (416, .rangeNotSatisfiable, str "Range Not Satisfiable"),
  (417, .expectationFailed, str "Expectation Failed"),
  (421, .misdirectedRequest, str "Misdirected Request"),
  (422, .unprocessableEntity, str "Unprocessable Entity"), (423, .locked, str "Locked"),
  (424, .failedDependency, str "Failed Dependency"),
  (426, .upgradeRequired, str "Upgrade Required"),
  (428, .preconditionRequired, str "Precondition Required"),
  (429, .tooManyRequests, str "Too Many Requests"),
  (431, .requestHeaderFieldsTooLarge, str "Request Header Fields Too Large"),
  (451, .unavailableForLegalReasons, str "Unavailable For Legal Reasons"),
  (500, .internalServerError, str "Internal Server Error"),
  (501, .notImplemented, str "Not Implemented"), (502, .badGateway, str "Bad Gateway"),
  (503, .serviceUnavailable, str "Service Unavailable"),
  (504, .gatewayTimeout, str "Gateway Timeout"),
  (505, .httpVersionNotSupported, str "HTTP Version Not Supported"),
  (506, .variantAlsoNegotiates, str "Variant Also Negotiates"),
  (507, .insufficientStorage, str "Insufficient Storage"),
  (508, .loopDetected, str "Loop Detected"), (510, .notExtended, str "Not Extended"),
  (511, .networkAuthenticationRequired, str "Network Authentication Required")]

namespace HttpStatus

/-- `(uint32_t)m_status`. -/
def code : HttpStatus → Nat
  | other c => (c % 2 ^ 32).toNat
  | s => ((httpStatusMap.find? (·.2.1 = s)).map (·.1)).getD 0

/-- `(HttpStatus)code`. -/
def ofCode (c : Int) : HttpStatus :=
  ((httpStatusMap.find? fun e => (e.1 : Int) = c).map (·.2.1)).getD (other c)

end HttpStatus

/-- `HttpStatusToString`. -/
def httpStatusToString (s : HttpStatus) : Bytes :=
  ((httpStatusMap.find? (·.2.1 = s)).map (·.2.2)).getD (str "<unknown>")

/-- What `strcasecmp` compares. -/
def caseKey (k : Bytes) : List Nat := (cstr k).map fun b => (toLower b).toNat

/-- Without a zero byte, keys are equivalent if they are equal ignoring ASCII case. -/
theorem caseKey_eq_iff {k k' : Bytes} (h : 0 ∉ k) (h' : 0 ∉ k') :
    caseKey k = caseKey k' ↔ k.map toLower = k'.map toLower := by
  have hmap : ∀ {k : Bytes}, 0 ∉ k → caseKey k = (k.map toLower).map UInt8.toNat := by
    intro k h
    rw [caseKey, cstr_eq_self h, List.map_map]
    rfl
  rw [hmap h, hmap h']
  exact (List.map_injective_iff.mpr fun _ _ => UInt8.toNat_inj.mp).eq_iff

/-- A byte of a token: a visible ASCII character that is no separator. -/
def tokenByte (b : UInt8) : Bool :=
  33 ≤ b && b ≤ 126 && !(str "()<>@,;:\\\"/[]?=\x7b\x7d").contains b

/-- An HTTP token. -/
def IsToken (name : Bytes) : Prop := name ≠ [] ∧ ∀ b ∈ name, tokenByte b = true

/-- `HttpRequest::MapType`, `HttpResponse::MapType`. -/
abbrev HeaderMap := KeyMap caseKey Bytes

/-- The line of a version: its upper four bits, a dot, and its lower four bits. -/
def versionText (version : UInt8) : Bytes :=
  str "HTTP/" ++ dec (version >>> 4).toNat ++ str "." ++ dec (version &&& 0x0F).toNat

/-- The value of the header `connection` that `dump` writes. -/
def connectionText (close : Bool) : Bytes := if close then str "close" else str "keep-alive"

/-- The headers that `dump` writes one by one: all but `connection`. -/
def HeaderMap.dumped (h : HeaderMap) : List (Bytes × Bytes) :=
  h.entries.filter fun e => caseKey e.1 ≠ caseKey (str "connection")

/-- `HttpRequest`. -/
structure HttpRequest where
  method : HttpMethod := .get
  version : UInt8 := 0x11
  close : Bool := true
  path : Bytes := str "/"
  query : Bytes := []
  fragment : Bytes := []
  body : Bytes := []
  headers : HeaderMap := .empty

namespace HttpRequest

/-- Sets a header of a request. -/
def setHeader (r : HttpRequest) (key val : Bytes) : HttpRequest :=
  { r with headers := r.headers.set key val }

/-- A header of a request, or the empty string. -/
def getHeader (r : HttpRequest) (key : Bytes) : Bytes := (r.headers.find? key).getD []

/-- `HttpRequest::init`: the header `connection` decides whether the connection is closed. -/
def init (r : HttpRequest) : HttpRequest :=
  let conn := r.getHeader (str "connection")
  if conn = [] then r else { r with close := !(caseKey conn == caseKey (str "keep-alive")) }

/-- The text of `HttpRequest::dump` up to the blank line. -/
def dumpHead (r : HttpRequest) : Bytes :=
  httpMethodToString r.method ++ str " " ++ r.path ++
    (if r.query = [] then [] else str "?") ++ r.query ++
    (if r.fragment = [] then [] else str "#") ++ r.fragment ++
    str " " ++ versionText r.version ++ str "\r\n" ++
    str "Connection: " ++ connectionText r.close ++ str "\r\n" ++
    r.headers.dumped.flatMap (fun e => e.1 ++ str ":" ++ e.2 ++ str "\r\n") ++
    (if r.body = [] then [] else str "Content-Length: " ++ dec r.body.length ++ str "\r\n") ++
    str "\r\n"

/-- `HttpRequest::toString`. -/
def toString (r : HttpRequest) : Bytes := r.dumpHead ++ r.body

end HttpRequest

/-- `HttpResponse`. -/
structure HttpResponse where
  status : HttpStatus := .ok
  version : UInt8 := 0x11
  close : Bool := true
  body : Bytes := []
  reason : Bytes := []
  headers : HeaderMap := .empty

namespace HttpResponse

/-- Sets a header of a response. -/
def setHeader (r : HttpResponse) (key val : Bytes) : HttpResponse :=
  { r with headers := r.headers.set key val }

/-- A header of a response, or the empty string. -/
def getHeader (r : HttpResponse) (key : Bytes) : Bytes := (r.headers.find? key).getD []

/-- The text of `HttpResponse::dump` up to the blank line. A header line ends with `"\n\r"`. -/
def dumpHead (r : HttpResponse) : Bytes :=
  versionText r.version ++ str " " ++ dec r.status.code ++ str " " ++
    (if r.reason = [] then httpStatusToString r.status else r.reason) ++ str "\r\n" ++
    r.headers.dumped.flatMap (fun e => e.1 ++ str ": " ++ e.2 ++ str "\n\r") ++
    str "connection: " ++ connectionText r.close ++ str "\r\n" ++
    (if r.body = [] then [] else str "content-length: " ++ dec r.body.length ++ str "\r\n") ++
    str "\r\n"

/-- `HttpResponse::toString`. -/
def toString (r : HttpResponse) : Bytes := r.dumpHead ++ r.body

end HttpResponse

end Sherry.Http
