import OtaServer.Lib.Bytes

/-!
# Patterns of the log (`sherry/log.h`, `sherry/log.cc`)

`LogFormatter::init` reads a pattern into a list of items, and `format` writes the items one after the other.

* `LogFormatter.init`: the loop. It leaves the second `%` of a `%%` and the `}` of an item with braces to the next
  round.
* `FormatItem.format`: what an item writes. What `strftime` gives is a parameter (`Clock`).
-/

namespace Sherry

open Lib

/-! ## Levels and events -/

/-- `LogLevel::Level`. A value that is cast from another number is kept as that number. -/
inductive LogLevel where
  | unknow | debug | info | warn | error | fatal
  | other (value : Nat)
  deriving DecidableEq

namespace LogLevel

/-- `LogLevel::ToString`. -/
def toString : LogLevel → Bytes
  | .debug => str "DEBUG"
  | .info => str "INFO"
  | .warn => str "WARN"
  | .error => str "ERROR"
  | .fatal => str "FATAL"
  | .unknow | .other _ => str "UNKNOW"

/-- `LogLevel::FromString`. -/
def fromString (s : Bytes) : LogLevel :=
  if s = str "debug" then .debug
  else if s = str "info" then .info
  else if s = str "warn" then .warn
  else if s = str "error" then .error
  else if s = str "fatal" then .fatal
  else if s = str "DEBUG" then .debug
  else if s = str "INFO" then .info
  else if s = str "WARN" then .warn
  else if s = str "ERROR" then .error
  else if s = str "FATAL" then .fatal
  else .unknow

end LogLevel

/-- `LogEvent`, with the name of its logger and the text of its stream. -/
structure LogEvent where
  file : Bytes
  line : Int
  elapse : Nat
  threadId : Nat
  fiberId : Nat
  time : Nat
  threadName : Bytes
  loggerName : Bytes
  content : Bytes

/-- What `strftime` leaves in the buffer for a format and the local time of a time stamp. -/
abbrev Clock := Bytes → Nat → Bytes

/-! ## Items -/

/-- `LogFormatter::FormatItem`. -/
inductive FormatItem where
  | message | level | elapse | name | newLine
  | dateTime (format : Bytes)
  | filename | line | tab | fiberId | threadId | threadName
  | string (text : Bytes)
  deriving DecidableEq

namespace FormatItem

/-- The constructor of `DateTimeFormatItem`. -/
def makeDateTime (format : Bytes) : FormatItem :=
  .dateTime (if format = [] then str "%Y-%m-%d %H:%M:%S" else format)

/-- `format`. -/
def format (clock : Clock) (level : LogLevel) (event : LogEvent) : FormatItem → Bytes
  | .message => event.content
  | .level => level.toString
  | .elapse => dec event.elapse
  | .name => event.loggerName
  | .newLine => str "\n"
  | .dateTime format => clock format event.time
  | .filename => event.file
  | .line => decInt event.line
  | .tab => str "\t"
  | .fiberId => dec event.fiberId
  | .threadId => dec event.threadId
  | .threadName => event.threadName
  | .string text => text

end FormatItem

/-- `s_format_items`. -/
def formatItems : List (Bytes × (Bytes → FormatItem)) := [
  (str "m", fun _ => .message), (str "p", fun _ => .level), (str "r", fun _ => .elapse), (str "c", fun _ => .name),
  (str "n", fun _ => .newLine), (str "d", .makeDateTime), (str "f", fun _ => .filename), (str "l", fun _ => .line),
  (str "T", fun _ => .tab), (str "F", fun _ => .fiberId), (str "t", fun _ => .threadId),
  (str "N", fun _ => .threadName)]

/-- `s_format_items.find`. -/
def findFormatItem (name : Bytes) : Option (Bytes → FormatItem) :=
  (formatItems.find? (·.1 == name)).map (·.2)

/-! ## Reading a pattern -/

/-- `isalpha`. -/
def isalpha (b : UInt8) : Bool := (65 ≤ b && b ≤ 90) || (97 ≤ b && b ≤ 122)

/-- A byte that the inner loop of `init` does not stop at. -/
def itemByte (b : UInt8) : Bool := isalpha b || b == 125 || b == 123

/-- How the inner loop of `init` ends: `fmt_status` 0, 1 and 2, with `str` and `fmt`. -/
inductive Scan where
  | plain (name : Bytes)
  | unclosed
  | braced (name fmt : Bytes)
  deriving DecidableEq

/-- The inner loop with `fmt_status` 1. `fmt` are the bytes behind the brace. -/
def scanFmt (name fmt : Bytes) : Bytes → Scan
  | [] => .unclosed
  | b :: rest =>
    if itemByte b then if b = 125 then .braced name fmt else scanFmt name (fmt ++ [b]) rest
    else .unclosed

/-- The inner loop with `fmt_status` 0. `name` are the bytes behind the `%`. -/
def scanName (name : Bytes) : Bytes → Scan
  | [] => .plain name
  | b :: rest =>
    if itemByte b then if b = 123 then scanFmt name [] rest else scanName (name ++ [b]) rest
    else .plain name

/-- An element of `vec`: a literal, or an item with its name and its text. -/
inductive PatternPart where
  | literal (text : Bytes)
  | item (name fmt : Bytes)
  deriving DecidableEq

/-- `vec`, `nstr` and `m_error`. -/
structure InitState where
  vec : List PatternPart := []
  nstr : Bytes := []
  error : Bool := false

namespace InitState

/-- `nstr` is put into `vec`, unless it is empty. -/
def flush (s : InitState) : InitState :=
  if s.nstr = [] then s else { s with vec := s.vec ++ [.literal s.nstr], nstr := [] }

/-- `nstr.append(1, m_pattern[i])`. -/
def appendChar (s : InitState) (b : UInt8) : InitState := { s with nstr := s.nstr ++ [b] }

/-- The text so far, and an item behind it. -/
def pushItem (s : InitState) (name fmt : Bytes) : InitState :=
  { s.flush with vec := s.flush.vec ++ [.item name fmt] }

/-- An item that is not closed. -/
def pushError (s : InitState) : InitState :=
  { s with vec := s.vec ++ [.literal (str "<<pattrn_error>>")], error := true }

/-- The outer loop. The first argument says how many bytes are left out because `i` was set ahead. -/
def loop : Nat → InitState → Bytes → InitState
  | _, s, [] => s
  | skip + 1, s, _ :: rest => loop skip s rest
  | 0, s, b :: rest =>
    if b ≠ 37 then loop 0 (s.appendChar b) rest
    else if rest.head? = some 37 then loop 0 (s.appendChar 37) rest
    else
      match scanName [] rest with
      | .plain name => loop name.length (s.pushItem name []) rest
      | .unclosed => loop 0 s.pushError rest
      -- `i` is the place before the closing brace
      | .braced name fmt => loop (name.length + 1 + fmt.length) (s.pushItem name fmt) rest

end InitState

/-- The item of an element of `vec`, and whether it is unknown. -/
def PatternPart.toItem : PatternPart → FormatItem × Bool
  | .literal text => (.string text, false)
  | .item name fmt =>
    match findFormatItem name with
    | some make => (make fmt, false)
    | none => (.string (str "<<error_format %" ++ name ++ str ">>"), true)

/-- `LogFormatter`. -/
structure LogFormatter where
  pattern : Bytes
  items : List FormatItem
  error : Bool
  deriving DecidableEq

namespace LogFormatter

/-- `init`. -/
def init (pattern : Bytes) : LogFormatter :=
  let s := (InitState.loop 0 {} pattern).flush
  { pattern
    items := s.vec.map (·.toItem.1)
    error := s.error || s.vec.any (·.toItem.2) }

/-- `isError`. -/
def isError (f : LogFormatter) : Bool := f.error

/-- `format`. -/
def format (f : LogFormatter) (clock : Clock) (level : LogLevel) (event : LogEvent) : Bytes :=
  f.items.flatMap (·.format clock level event)

end LogFormatter

end Sherry
