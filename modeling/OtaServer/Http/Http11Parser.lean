import OtaServer.Lib.Ragel

/-!
# The request grammar (`sherry/http/http11_parser.rl`)

The machine `http_parser` as the file writes it, under the file's names. Two things read otherwise than they look: in
Ragel `-` is the difference of two languages and not a range, so that `("1"-"9")` is the literal `"1"` and `(0 - 31)`
the byte 0; and a number stands for one byte, so that `6( h16 ":" )` starts with the byte 6.

`parser->uri_relaxed` is a parameter: `http_parser_init` does not set it, and nothing changes it while a request is
parsed.
-/

namespace Sherry.Http

open Lib Ragel Re

/-- The actions of the machine. -/
inductive Action where
  | mark | startField | writeField | startValue | writeValue
  | requestMethod | requestUri | fragment | startQuery | queryString | httpVersion | requestPath
  | done | xml | json
  deriving DecidableEq

namespace Grammar

/-- The ranges of the bytes from `lo` to `hi` that are not in a sorted list. -/
def without (lo hi : Nat) : List Nat → List (UInt8 × UInt8)
  | [] => if lo ≤ hi then [(UInt8.ofNat lo, UInt8.ofNat hi)] else []
  | x :: xs =>
    (if lo < x then [(UInt8.ofNat lo, UInt8.ofNat (x - 1))] else []) ++ without (x + 1) hi xs

/-! ## Ragel's own classes -/

/-- `A` to `Z`. -/
def upper : Re Action := cls [(65, 90)]
/-- The letters. -/
def alpha : Re Action := cls [(65, 90), (97, 122)]
/-- `0` to `9`. -/
def digit : Re Action := cls [(48, 57)]
/-- The hexadecimal digits. -/
def xdigit : Re Action := cls [(48, 57), (65, 70), (97, 102)]
/-- The blank, and tab to carriage return. -/
def space : Re Action := cls [(9, 13), (32, 32)]
/-- Any byte. -/
def anyByte : Re Action := cls [(0, 255)]

/-- A literal of the grammar. -/
def text (s : String) : Re Action := lit (str s)

/-- A line end, also without its carriage return. -/
def crlf : Re Action := alt (text "\r\n") (text "\n")

/-! ## URIs -/

section

variable (uriRelaxed : Bool)

/-- Delimiters for `uri_relaxed` only. -/
def moreDelims : Re Action := if uriRelaxed then oneOf (str "\x7b\x7d^") else cls []
/-- Delimiters within a segment. -/
def subDelims : Re Action := alt (oneOf (str "!$&'()*+,;=")) (moreDelims uriRelaxed)
/-- Bytes with no other meaning. -/
def unreserved : Re Action := any [alpha, digit, oneOf (str "-._~")]
/-- A byte as `%` and two digits. -/
def pctEncoded : Re Action := seq [text "%", xdigit, xdigit]
/-- A byte of a segment. -/
def pchar : Re Action := any [unreserved, pctEncoded, subDelims uriRelaxed, text ":", text "@"]

/-- What is behind the `#`. -/
def fragment : Re Action :=
  leave (enter (star (any [pchar uriRelaxed, text "/", text "?"])) .mark) .fragment

/-- What is behind the `?`. -/
def query : Re Action := leave (star (any [pchar uriRelaxed, text "/", text "?"])) .queryString

/-- A segment that is not empty, without a colon. -/
def segmentNzNc : Re Action := plus (any [unreserved, pctEncoded, subDelims uriRelaxed, text "@"])
/-- A segment that is not empty. -/
def segmentNz : Re Action := plus (pchar uriRelaxed)
/-- A segment of a path. -/
def segment : Re Action := star (pchar uriRelaxed)

/-- The empty path. -/
def pathEmpty : Re Action := rep (pchar uriRelaxed) 0
/-- A path behind an authority. -/
def pathAbempty : Re Action := star (cat (text "/") (segment uriRelaxed))
/-- A path without a slash in front. -/
def pathRootless : Re Action := cat (segmentNz uriRelaxed) (star (cat (text "/") (segment uriRelaxed)))
/-- The same, without a colon in the first segment. -/
def pathNoscheme : Re Action :=
  cat (segmentNzNc uriRelaxed) (star (cat (text "/") (segment uriRelaxed)))
/-- A path with one slash in front. -/
def pathAbsolute : Re Action :=
  cat (text "/") (opt (cat (segmentNz uriRelaxed) (star (cat (text "/") (segment uriRelaxed)))))

/-- A registered name. -/
def regName : Re Action := star (any [unreserved, pctEncoded, subDelims uriRelaxed])

/-- A number to 255. -/
def decOctet : Re Action := any [
  digit, cat (text "1") digit, cat (text "1") (rep digit 2), seq [text "2", text "0", digit],
  cat (text "25") (text "0")]

/-- Four numbers. -/
def ipv4Address : Re Action :=
  seq [decOctet, text ".", decOctet, text ".", decOctet, text ".", decOctet]

/-- A group of an IPv6 address. -/
def h16 : Re Action := repTo xdigit 1 3
/-- The last two groups. -/
def ls32 : Re Action := alt (seq [h16, text ":", h16]) ipv4Address

/-- `( ( h16 ":" ){n,} h16 )?`. -/
def h16Groups (n : Nat) : Re Action := opt (cat (repFrom (cat h16 (text ":")) n) h16)

/-- Eight groups, or fewer and a `::`. -/
def ipv6Address : Re Action := any [
  seq [byte 6, cat h16 (text ":"), ls32],
  seq [text "::", byte 5, cat h16 (text ":"), ls32],
  seq [opt h16, text "::", byte 4, cat h16 (text ":"), ls32],
  seq [h16Groups 1, text "::", byte 3, cat h16 (text ":"), ls32],
  seq [h16Groups 2, text "::", byte 2, cat h16 (text ":"), ls32],
  seq [h16Groups 3, text "::", h16, text ":", ls32],
  seq [h16Groups 4, text "::", ls32],
  seq [h16Groups 5, text "::", h16],
  seq [h16Groups 6, text "::"]]

/-- A later version of IP addresses. -/
def ipvFuture : Re Action :=
  seq [text "v", plus xdigit, text ".", plus (any [unreserved, subDelims uriRelaxed, text ":"])]

/-- An address in brackets. -/
def ipLiteral : Re Action := seq [text "[", alt ipv6Address (ipvFuture uriRelaxed), text "]"]

/-- The port behind the host. -/
def port : Re Action := star digit
/-- The host of an authority. -/
def host : Re Action := any [ipLiteral uriRelaxed, ipv4Address, regName uriRelaxed]
/-- What is in front of the `@`. -/
def userinfo : Re Action := star (any [unreserved, pctEncoded, subDelims uriRelaxed, text ":"])
/-- A host, with a user and a port where they are given. -/
def authority : Re Action :=
  seq [opt (cat (userinfo uriRelaxed) (text "@")), host uriRelaxed, opt (cat (text ":") port)]

/-- What is in front of the first colon. -/
def scheme : Re Action := cat alpha (star (any [alpha, digit, oneOf (str "+-.")]))

/-- The hierarchical part of a URI without a scheme. -/
def relativePart : Re Action := any [
  seq [text "//", authority uriRelaxed, pathAbempty uriRelaxed],
  pathAbsolute uriRelaxed, pathNoscheme uriRelaxed, pathEmpty uriRelaxed]

/-- The hierarchical part of a URI with a scheme. -/
def hierPart : Re Action := any [
  seq [text "//", authority uriRelaxed, pathAbempty uriRelaxed],
  pathAbsolute uriRelaxed, pathRootless uriRelaxed, pathEmpty uriRelaxed]

/-- `(part %request_path ( "?" %start_query query )?) >mark %request_uri`. -/
def marked (part : Re Action) : Re Action :=
  leave (enter (cat (leave part .requestPath)
    (opt (cat (leave (text "?") .startQuery) (query uriRelaxed)))) .mark) .requestUri

/-- A URI without a scheme. -/
def relativeRef : Re Action :=
  cat (marked uriRelaxed (relativePart uriRelaxed)) (opt (cat (text "#") (fragment uriRelaxed)))

/-- A URI with a scheme. -/
def uri : Re Action :=
  seq [scheme, text ":", marked uriRelaxed (hierPart uriRelaxed),
    opt (cat (text "#") (fragment uriRelaxed))]

/-- The URI of a request line. -/
def uriReference : Re Action := alt (uri uriRelaxed) (relativeRef uriRelaxed)

end

/-! ## Requests -/

/-- A method: 1 to 20 letters and digits. -/
def method : Re Action := leave (enter (repTo (alt upper digit) 1 19) .mark) .requestMethod

/-- `1.0` or `1.1`. -/
def httpNumber : Re Action := cat (text "1.") (alt (text "0") (text "1"))
/-- The version, as it is handed on. -/
def httpVersion : Re Action := leave (enter (cat (text "HTTP/") httpNumber) .mark) .httpVersion

/-- `Request_Line`. -/
def requestLine (uriRelaxed : Bool) : Re Action :=
  seq [method, text " ", uriReference uriRelaxed, text " ", httpVersion, crlf]

/-- The bytes the source takes as controls. -/
def httpCtl : List Nat := [0, 127]
/-- The separators. -/
def httpSeparator : List Nat := (str "()<>@,;:\\\"/[]?=\x7b\x7d \t").map (·.toNat)

/-- Blanks, also on a new line. -/
def lws : Re Action := cat (opt crlf) (plus (oneOf (str " \t")))
/-- A byte of a name. -/
def token : Re Action := cls (without 0 127 ((httpCtl ++ httpSeparator).insertionSort (· ≤ ·)))
/-- A byte of a value, or blanks. -/
def content : Re Action := alt (cls (without 0 255 httpCtl)) lws

/-- The name of a header. -/
def fieldName : Re Action := leave (enter (plus token) .startField) .writeField
/-- The value of a header. -/
def fieldValue : Re Action := leave (enter (star content) .startValue) .writeValue

/-- A header line. -/
def messageHeader : Re Action :=
  entryGuard 0 (seq [fieldName, text ":", star lws, fieldValue]) crlf

/-- A request up to the blank line. -/
def request (uriRelaxed : Bool) : Re Action :=
  seq [requestLine uriRelaxed, star messageHeader, crlf]

/-- The path of a JSON request. -/
def socketJSONStart (uriRelaxed : Bool) : Re Action := cat (text "@") (relativePart uriRelaxed)
/-- The data of a JSON request. -/
def socketJSONData : Re Action :=
  finishGuard 1 (seq [text "\x7b", star anyByte, text "\x7d"]) (byte 0)

/-- The data of an XML request. -/
def socketXMLData : Re Action :=
  finishGuard 2 (seq [
    leave (enter (cat (text "<") (plus (cls [(97, 122), (48, 57), (65, 90), (45, 46)]))) .mark)
      .requestPath,
    any [text "/", space, text ">"], star anyByte, text ">"]) (byte 0)

/-- A JSON request. -/
def socketJSON (uriRelaxed : Bool) : Re Action :=
  seq [leave (enter (socketJSONStart uriRelaxed) .mark) .requestPath, text " ",
    finish (enter socketJSONData .mark) .json]

/-- An XML request. -/
def socketXML : Re Action := finish socketXMLData .xml

/-- A request without a request line. -/
def socketRequest (uriRelaxed : Bool) : Re Action := alt socketXML (socketJSON uriRelaxed)

/-- The machine. -/
def main (uriRelaxed : Bool) : Re Action :=
  finish (alt (request uriRelaxed) (socketRequest uriRelaxed)) .done

end Grammar

end Sherry.Http
