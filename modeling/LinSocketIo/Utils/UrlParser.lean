/-
LinSocketIo.Utils.UrlParser — `UrlParser` of `utils/url_parser.h` and
`utils/url_parser.cpp`: `Build`, and `Parse` stage by stage.

`Parse` goes through the URL with one pointer, and writes a component where it
comes to it. A component that the URL does not have is not written.

Modelling notes. The pointer is what is left of the C string, and its end is the
NUL. A scan by a second pointer is the part up to where it stops. `int len` is a
conversion: a length that it makes negative lets `assign` throw, and one that it
makes smaller cuts the text. `isalpha` is that of the C locale. The log lines are
left out.
-/
import LinSocketIo.Base.OrderedMap
import LinSocketIo.Utils.UrlCodec
import Mathlib.Data.List.Lex
import Mathlib.Data.UInt

namespace LinSocketIo.Utils.Url

open LinSocketIo.Base StrHelper

/-- Strings are compared by their bytes as `unsigned char`. -/
instance linearOrderUInt8 : LinearOrder UInt8 where
  le_refl := UInt8.le_refl
  le_trans := fun _ _ _ => UInt8.le_trans
  lt_iff_le_not_ge := fun a b => by
    simp only [UInt8.lt_iff_toNat_lt, UInt8.le_iff_toNat_le]
    omega
  le_antisymm := fun _ _ => UInt8.le_antisymm
  le_total := UInt8.le_total
  toDecidableLE := inferInstance

/-- `UrlParser`. -/
structure UrlParser where
  protocol : Str
  host : Str
  port : Str
  path : Str
  username : Str
  password : Str
  params : OrderedMap Str Str
deriving DecidableEq

namespace UrlParser

/-- A new `UrlParser`. -/
def fresh : UrlParser := ⟨[], [], [], [], [], [], .empty⟩

/-- `GetParam`. -/
def getParam (p : UrlParser) (key : Str) : Str := (p.params.find key).getD []

/-- `SetParam`. -/
def setParam (p : UrlParser) (key val : Str) : UrlParser :=
  { p with params := p.params.insert key val }

/-! ## `Build` -/

/-- The loop over the parameters. -/
def paramsLoop : Str → Str → List (Str × Str) → Str
  | url, _, [] => url
  | url, flag, it :: params =>
    paramsLoop (url ++ flag ++ it.1 ++ bytes "=" ++ it.2) (bytes "&") params

/-- The URL of `Build`, before it is escaped. -/
def plain (p : UrlParser) : Str :=
  let url := p.protocol ++ bytes "://" ++ p.host
  let url := if p.port ≠ [] then url ++ bytes ":" ++ p.port else url
  let url := url ++ bytes "/" ++ p.path ++ bytes "?"
  paramsLoop url [] p.params.entries

/-- `Build`. -/
def build (p : UrlParser) : Option Str := encodeURL p.plain

/-! ## `Parse` -/

/-- How `Parse` ends. -/
inductive Outcome where
  | returns (b : Bool) (p : UrlParser)
  | throws
deriving DecidableEq

/-- The C string in a buffer. -/
def cstr (s : Str) : Str := s.takeWhile (· ≠ 0)

/-- What `int len` leaves of the text between the two pointers. -/
def taken (text : Str) : Str := text.take (toInt text.length).toNat

/-- `x.assign(curstr, len)`, and what is done with it. -/
def assign (text : Str) (k : Str → Outcome) : Outcome :=
  if toInt text.length < 0 then .throws else k (taken text)

/-- `IsSchemeChar`. -/
def isSchemeChar (c : UInt8) : Bool :=
  byte 'a' ≤ c && c ≤ byte 'z' || byte 'A' ≤ c && c ≤ byte 'Z' || c = byte '+' || c = byte '-' ||
    c = byte '.'

/-- A parameter, if there is a `=` in it. -/
def addParam (p : UrlParser) (param : Str) : UrlParser :=
  match findAt param [byte '='] 0 with
  | none => p
  | some pos => p.setParam (param.take pos) (param.drop (pos + 1))

/-- The loop over the query; `text` is what is between the two pointers. -/
def queryLoop : UrlParser → Str → Str → Outcome
  | p, text, [] => assign text fun param => .returns true (addParam p param)
  | p, text, c :: cur =>
    if c ≠ byte '&' then queryLoop p (text ++ [c]) cur
    else assign text fun param => queryLoop (addParam p param) [] cur

/-- Is query specified? -/
def parseQuery (p : UrlParser) (cur : Str) : Outcome :=
  if cur.head? = some (byte '?') then queryLoop p [] cur.tail else .returns true p

/-- Parse path. -/
def parsePath (p : UrlParser) (cur : Str) : Outcome :=
  if cur = [] then .returns true p
  else
    assign (cur.takeWhile (· ≠ byte '?')) fun path =>
      parseQuery { p with path } (cur.dropWhile (· ≠ byte '?'))

/-- Is port number specified? -/
def parsePort (p : UrlParser) (cur : Str) : Outcome :=
  if cur.head? = some (byte ':') then
    assign (cur.tail.takeWhile (· ≠ byte '/')) fun port =>
      parsePath { p with port } (cur.tail.dropWhile (· ≠ byte '/'))
  else parsePath p cur

/-- The text of the host, with the `]` where it began with a bracket. -/
def hostText (bracket : Bool) : Str → Str
  | [] => []
  | c :: cur =>
    if bracket && c = byte ']' then [c]
    else if !bracket && (c = byte ':' || c = byte '/') then []
    else c :: hostText bracket cur

/-- Proceed on by delimiters with reading host. -/
def parseHost (p : UrlParser) (cur : Str) : Outcome :=
  let text := hostText (cur.head? = some (byte '[')) cur
  assign text fun host => parsePort { p with host } (cur.drop text.length)

/-- Check if the user (and password) are specified. -/
def userpass : Str → Bool
  | [] => false
  | c :: cur => if c = byte '@' then true else if c = byte '/' then false else userpass cur

/-- Skip '@'. -/
def skipAt (p : UrlParser) (cur : Str) : Outcome :=
  if cur.head? ≠ some (byte '@') then .returns false p else parseHost p cur.tail

/-- The user name ends at one of these. -/
def inUsername (c : UInt8) : Bool := c ≠ byte ':' && c ≠ byte '@'

/-- User and password specification. -/
def parseUser (p : UrlParser) (cur : Str) : Outcome :=
  if userpass cur then
    assign (cur.takeWhile inUsername) fun username =>
      let p := { p with username }
      let cur := cur.dropWhile inUsername
      if cur.head? = some (byte ':') then
        assign (cur.tail.takeWhile (· ≠ byte '@')) fun password =>
          skipAt { p with password } (cur.tail.dropWhile (· ≠ byte '@'))
      else skipAt p cur
  else parseHost p cur

/-- Eat "//"; what is left of the turns. -/
def eatSlashes (p : UrlParser) : Nat → Str → Outcome
  | 0, cur => parseUser p cur
  | i + 1, cur =>
    if cur.head? ≠ some (byte '/') then .returns false p else eatSlashes p i cur.tail

/-- `Parse(const char*)`, on the buffer. -/
def parse (p : UrlParser) (url : Str) : Outcome :=
  let cur := cstr url
  if byte ':' ∉ cur then .returns false p
  else
    let text := cur.takeWhile (· ≠ byte ':')
    if (taken text).all isSchemeChar then
      assign text fun protocol =>
        eatSlashes { p with protocol } 2 (cur.dropWhile (· ≠ byte ':')).tail
    else .returns false p

/-- `Parse(const string&)`. -/
def parseString (beyond : Nat → UInt8) (p : UrlParser) (url : Str) : Option Outcome :=
  (decodeURL beyond url).map fun d => parse p d.1

end UrlParser

end LinSocketIo.Utils.Url
