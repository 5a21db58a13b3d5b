import OtaServer.Http.Http11Parser

/-!
# The response grammar (`sherry/http/httpclient_parser.rl`)

The machine `httpclient_parser` as the file writes it, under the file's names. One machine reads the head of a
response and the size line of a chunk. `any -- CRLF` is every byte but the line feed, since a carriage return alone is
not a `CRLF`. Ragel's `space` holds the carriage return and the line feed, so that `space*` of a header that starts
like `Content-Length:` reads across lines.
-/

namespace Sherry.Http

open Lib Ragel Re

/-- The actions of the machine. -/
inductive ClientAction where
  | mark | startField | writeField | startValue | writeContentLen | writeConnectionClose | writeValue
  | reasonPhrase | statusCode | httpVersion | chunkSize | transChunked | done
  deriving DecidableEq

namespace ClientGrammar

/-! ## Ragel's own classes -/

/-- `0` to `9`. -/
def digit : Re ClientAction := cls [(48, 57)]
/-- The hexadecimal digits. -/
def xdigit : Re ClientAction := cls [(48, 57), (65, 70), (97, 102)]
/-- The blank, and tab to carriage return. -/
def space : Re ClientAction := cls [(9, 13), (32, 32)]
/-- Any byte. -/
def anyByte : Re ClientAction := cls [(0, 255)]

/-- A literal of the grammar. -/
def text (s : String) : Re ClientAction := lit (str s)

/-- A letter in both cases. -/
def bothCases (b : UInt8) : Re ClientAction :=
  if 65 ≤ b ∧ b ≤ 90 then cls [(b, b), (b + 32, b + 32)]
  else if 97 ≤ b ∧ b ≤ 122 then cls [(b - 32, b - 32), (b, b)]
  else byte b

/-- `/s/i`. -/
def textNoCase (s : String) : Re ClientAction := seq ((str s).map bothCases)

/-- A line end, also without its carriage return. -/
def crlf : Re ClientAction := alt (text "\r\n") (text "\n")

/-! ## Responses -/

/-- The controls. -/
def ctl : List Nat := List.range 32 ++ [127]
/-- The separators. -/
def tspecials : List Nat := (str "()<>@,;:\\\"/[]?=\x7b\x7d \t").map (·.toNat)

/-- A byte of a name. -/
def token : Re ClientAction :=
  cls (Grammar.without 0 127 (((ctl ++ tspecials).insertionSort (· ≤ ·)).dedup))

/-- The rest of the status line. -/
def reasonPhrase : Re ClientAction :=
  leave (enter (plus (cls [(0, 9), (11, 255)])) .mark) .reasonPhrase
/-- The code, as it is handed on. -/
def statusCode : Re ClientAction := leave (enter (plus digit) .mark) .statusCode
/-- A version with any digits. -/
def httpNumber : Re ClientAction := seq [plus digit, text ".", plus digit]
/-- The version, as it is handed on. -/
def httpVersion : Re ClientAction := leave (enter (cat (text "HTTP/") httpNumber) .mark) .httpVersion

/-- `Status_Line`. -/
def statusLine : Re ClientAction :=
  entryGuard 0 (seq [httpVersion, text " ", statusCode, text " ", reasonPhrase]) crlf

/-- The name of a header. -/
def fieldName : Re ClientAction := leave (enter (plus token) .startField) .writeField
/-- The value of a header. -/
def fieldValue : Re ClientAction := leave (enter (star anyByte) .startValue) .writeValue
/-- A header line of any name. -/
def fields : Re ClientAction := entryGuard 1 (seq [fieldName, text ":", star space, fieldValue]) crlf

/-- The line of `Content-Length`. -/
def contentLength : Re ClientAction :=
  cat (seq [leave (enter (textNoCase "Content-Length") .startField) .writeField, text ":", star space,
    leave (leave (enter (plus digit) .startValue) .writeContentLen) .writeValue]) crlf

/-- The line `Connection: close`. -/
def connClose : Re ClientAction :=
  cat (seq [textNoCase "Connection", text ":", star space, textNoCase "close"])
    (leave crlf .writeConnectionClose)

/-- The line `Transfer-Encoding: chunked`. -/
def transferEncodingChunked : Re ClientAction :=
  cat (seq [leave (enter (textNoCase "Transfer-Encoding") .startField) .writeField, text ":",
    star space, leave (enter (textNoCase "chunked") .startValue) .writeValue])
    (finish crlf .transChunked)

/-- A header line. -/
def messageHeader : Re ClientAction := any [transferEncodingChunked, connClose, contentLength, fields]

/-- A response up to the blank line. -/
def response : Re ClientAction := seq [statusLine, star messageHeader, crlf]

/-! ## Chunks -/

/-- The value of an extension. -/
def chunkExtVal : Re ClientAction := plus token
/-- The name of an extension. -/
def chunkExtName : Re ClientAction := plus token
/-- The extensions of a chunk. -/
def chunkExtension : Re ClientAction :=
  star (seq [text ";",
    leave (leave (enter chunkExtName .startField) .writeField) .startValue,
    leave (opt (cat (text "=") (enter chunkExtVal .startValue))) .writeValue])
/-- The size of a chunk. -/
def chunkSize : Re ClientAction := plus xdigit
/-- The size line of a chunk. -/
def chunkedHeader : Re ClientAction :=
  entryGuard 2 (cat (leave (enter chunkSize .mark) .chunkSize) chunkExtension) crlf

/-- The machine. -/
def main : Re ClientAction := finish (alt response chunkedHeader) .done

end ClientGrammar

end Sherry.Http
