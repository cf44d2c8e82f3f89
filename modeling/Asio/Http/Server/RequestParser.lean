import Asio.Lib.Scanner

/-! The parser for requests of the HTTP server, and the grammar of requests. -/

namespace Asio.Http.Server

open Lib.Scanner

abbrev Byte := UInt8

structure Header where
  name : List Byte
  value : List Byte
  deriving DecidableEq

structure Request where
  method : List Byte
  uri : List Byte
  httpVersionMajor : Nat
  httpVersionMinor : Nat
  headers : List Header
  deriving DecidableEq

namespace RequestParser

inductive State
  | methodStart
  | method
  | uri
  | httpVersionH
  | httpVersionT1
  | httpVersionT2
  | httpVersionP
  | httpVersionSlash
  | httpVersionMajorStart
  | httpVersionMajor
  | httpVersionMinorStart
  | httpVersionMinor
  | expectingNewline1
  | headerLineStart
  | headerLws
  | headerName
  | spaceBeforeHeaderValue
  | headerValue
  | expectingNewline2
  | expectingNewline3
  deriving DecidableEq

def byte (c : Char) : Byte := c.toUInt8

def isChar (c : Byte) : Bool := c ≤ 127

def isCtl (c : Byte) : Bool := c ≤ 31 || c = 127

def isTspecial (c : Byte) : Bool :=
  c ∈ ['(', ')', '<', '>', '@', ',', ';', ':', '\x5c', '\x22', '/', '[', ']', '?', '=', '\x7b',
    '\x7d', ' ', '\t'].map byte

def isDigit (c : Byte) : Bool := byte '0' ≤ c && c ≤ byte '9'

/-- What is taken into a method or the name of a header. -/
def isToken (c : Byte) : Bool := isChar c && !isCtl c && !isTspecial c

/-- What is taken into the value of a header. -/
def isText (c : Byte) : Bool := !isCtl c

def isUriText (c : Byte) : Bool := isText c && c ≠ byte ' '

def isSpace (c : Byte) : Bool := c = byte ' ' || c = byte '\t'

def intMax : Nat := 2147483647

/-- `n * 10 + input - '0'`, which is undefined if it overflows. -/
def appendDigit (n : Nat) (input : Byte) : Option Nat :=
  if n * 10 + input.toNat ≤ intMax then some (n * 10 + input.toNat - (byte '0').toNat) else none

/-- `headers.back()`, if there is one. -/
def modifyBack (f : Header → Header) : List Header → List Header
  | [] => []
  | [h] => [f h]
  | h :: h' :: hs => h :: modifyBack f (h' :: hs)

/-- The numbers of the version may be anything. -/
def initial (major minor : Nat) : State × Request := (.methodStart, ⟨[], [], major, minor, []⟩)

def consume (s : State × Request) (input : Byte) : Option (Result × State × Request) :=
  let req := s.2
  let bad : Option (Result × State × Request) := some (.bad, s)
  let goto (state : State) (req : Request) : Option (Result × State × Request) :=
    some (.indeterminate, state, req)
  let expect (c : Char) (state : State) (req : Request) :=
    if input = byte c then goto state req else bad
  match s.1 with
  | .methodStart =>
    if isToken input then goto .method { req with method := req.method ++ [input] } else bad
  | .method =>
    if input = byte ' ' then goto .uri req
    else if isToken input then goto .method { req with method := req.method ++ [input] }
    else bad
  | .uri =>
    if input = byte ' ' then goto .httpVersionH req
    else if isCtl input then bad
    else goto .uri { req with uri := req.uri ++ [input] }
  | .httpVersionH => expect 'H' .httpVersionT1 req
  | .httpVersionT1 => expect 'T' .httpVersionT2 req
  | .httpVersionT2 => expect 'T' .httpVersionP req
  | .httpVersionP => expect 'P' .httpVersionSlash req
  | .httpVersionSlash =>
    expect '/' .httpVersionMajorStart { req with httpVersionMajor := 0, httpVersionMinor := 0 }
  | .httpVersionMajorStart =>
    if isDigit input then
      (appendDigit req.httpVersionMajor input).bind fun n =>
        goto .httpVersionMajor { req with httpVersionMajor := n }
    else bad
  | .httpVersionMajor =>
    if input = byte '.' then goto .httpVersionMinorStart req
    else if isDigit input then
      (appendDigit req.httpVersionMajor input).bind fun n =>
        goto .httpVersionMajor { req with httpVersionMajor := n }
    else bad
  | .httpVersionMinorStart =>
    if isDigit input then
      (appendDigit req.httpVersionMinor input).bind fun n =>
        goto .httpVersionMinor { req with httpVersionMinor := n }
    else bad
  | .httpVersionMinor =>
    if input = byte '\r' then goto .expectingNewline1 req
    else if isDigit input then
      (appendDigit req.httpVersionMinor input).bind fun n =>
        goto .httpVersionMinor { req with httpVersionMinor := n }
    else bad
  | .expectingNewline1 => expect '\n' .headerLineStart req
  | .headerLineStart =>
    if input = byte '\r' then goto .expectingNewline3 req
    else if req.headers ≠ [] ∧ isSpace input then goto .headerLws req
    else if isToken input then
      goto .headerName { req with headers := req.headers ++ [⟨[input], []⟩] }
    else bad
  | .headerLws =>
    if input = byte '\r' then goto .expectingNewline2 req
    else if isSpace input then goto .headerLws req
    else if isCtl input then bad
    else goto .headerValue { req with
      headers := modifyBack (fun h => { h with value := h.value ++ [input] }) req.headers }
  | .headerName =>
    if input = byte ':' then goto .spaceBeforeHeaderValue req
    else if isToken input then goto .headerName { req with
      headers := modifyBack (fun h => { h with name := h.name ++ [input] }) req.headers }
    else bad
  | .spaceBeforeHeaderValue => expect ' ' .headerValue req
  | .headerValue =>
    if input = byte '\r' then goto .expectingNewline2 req
    else if isCtl input then bad
    else goto .headerValue { req with
      headers := modifyBack (fun h => { h with value := h.value ++ [input] }) req.headers }
  | .expectingNewline2 => expect '\n' .headerLineStart req
  | .expectingNewline3 => if input = byte '\n' then some (.good, s) else bad

def crlf : List Byte := [byte '\r', byte '\n']

/-! ### Requests -/

/-- A line after the request line: a field, or what the value of the last field is continued with
after some space. -/
inductive Line
  | field (name value : List Byte)
  | fold (space text : List Byte)
  deriving DecidableEq

namespace Line

def encode : Line → List Byte
  | .field name value => name ++ [byte ':', byte ' '] ++ value ++ crlf
  | .fold space text => space ++ text ++ crlf

def Valid : Line → Prop
  | .field name value => name ≠ [] ∧ (∀ c ∈ name, isToken c) ∧ ∀ c ∈ value, isText c
  | .fold space text => space ≠ [] ∧ (∀ c ∈ space, isSpace c) ∧ (∀ c ∈ text, isText c) ∧
      ∀ c ∈ text.head?, isSpace c = false

def IsField : Line → Prop
  | .field _ _ => True
  | .fold _ _ => False

/-- The space at the start of a line that is folded is left out. -/
def extend (hs : List Header) : Line → List Header
  | .field name value => hs ++ [⟨name, value⟩]
  | .fold _ text => modifyBack (fun h => { h with value := h.value ++ text }) hs

end Line

def numeral (digits : List Byte) : Nat :=
  digits.foldl (fun n c => n * 10 + (c.toNat - (byte '0').toNat)) 0

/-- A number that is an `int` while it is computed. -/
structure Number where
  digits : List Byte
  nonempty : digits ≠ []
  isDigit : ∀ c ∈ digits, isDigit c
  le : numeral digits + (byte '0').toNat ≤ intMax

structure Message where
  method : List Byte
  uri : List Byte
  major : Number
  minor : Number
  lines : List Line
  method_nonempty : method ≠ []
  method_token : ∀ c ∈ method, isToken c
  uri_text : ∀ c ∈ uri, isUriText c
  lines_valid : ∀ line ∈ lines, line.Valid
  lines_first : ∀ line ∈ lines.head?, line.IsField

def Message.encode (m : Message) : List Byte :=
  m.method ++ byte ' ' :: m.uri ++ " HTTP/".toList.map byte ++ m.major.digits ++ byte '.' ::
    m.minor.digits ++ crlf ++ m.lines.flatMap Line.encode ++ crlf

def Message.request (m : Message) : Request where
  method := m.method
  uri := m.uri
  httpVersionMajor := numeral m.major.digits
  httpVersionMinor := numeral m.minor.digits
  headers := m.lines.foldl Line.extend []

end RequestParser

end Asio.Http.Server
