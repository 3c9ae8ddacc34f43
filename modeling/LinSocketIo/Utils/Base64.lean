/-
LinSocketIo.Utils.Base64 — `base64_encode` and `base64_decode` of
`utils/base64.cpp`.

Both collect bytes in an array and put a group out when the array is full.
`base64_encode` fills an incomplete group up with zero bytes and writes `=`
for the characters that come of them only. `base64_decode` ends at the first
character that is not one of the 64, and takes what it has.

Modelling notes. A string is its bytes. `isalnum` knows the letters and digits
of ASCII. The `int` that `base64_decode` counts with does not overflow: strings
have less than 2 ^ 31 bytes.
-/
import LinSocketIo.Utils.UrlCodec

namespace LinSocketIo.Utils.Base64

open LinSocketIo.Base StrHelper Url

/-- `base64_chars`. -/
def base64Chars : Str :=
  bytes "ABCDEFGHIJKLMNOPQRSTUVWXYZabcdefghijklmnopqrstuvwxyz0123456789+/"

/-- `is_base64`. -/
def isBase64 (c : UInt8) : Bool := isAlphaNumberChar c || c = byte '+' || c = byte '/'

/-- `base64_chars[v]`. -/
def char (v : UInt8) : UInt8 := base64Chars.getD v.toNat 0

/-- `base64_chars.find(c)`, as an `unsigned char`. -/
def find (c : UInt8) : UInt8 :=
  match base64Chars.idxOf? c with
  | some i => UInt8.ofNat i
  | none => 255

/-- `char_array_4` from the bytes of `char_array_3`; missing ones are zero. -/
def four (three : List UInt8) : List UInt8 :=
  let a := three.getD 0 0
  let b := three.getD 1 0
  let c := three.getD 2 0
  [(a &&& 0xfc) >>> 2, ((a &&& 0x03) <<< 4) + ((b &&& 0xf0) >>> 4),
    ((b &&& 0x0f) <<< 2) + ((c &&& 0xc0) >>> 6), c &&& 0x3f]

/-- `char_array_3` from the characters of `char_array_4`; missing ones are zero. -/
def three (chars : List UInt8) : List UInt8 :=
  let w := find (chars.getD 0 0)
  let x := find (chars.getD 1 0)
  let y := find (chars.getD 2 0)
  let z := find (chars.getD 3 0)
  [(w <<< 2) + ((x &&& 0x30) >>> 4), ((x &&& 0xf) <<< 4) + ((y &&& 0x3c) >>> 2),
    ((y &&& 0x3) <<< 6) + z]

/-- The loop of `base64_encode`; `pending` is `char_array_3` up to `i`. -/
def encodeLoop : Str → List UInt8 → Str → List UInt8 × Str
  | [], pending, ret => (pending, ret)
  | b :: bs, pending, ret =>
    let pending := pending ++ [b]
    if pending.length = 3 then encodeLoop bs [] (ret ++ (four pending).map char)
    else encodeLoop bs pending ret

/-- `base64_encode(bytes_to_encode, in_len)`. -/
def encodeBytes (input : Str) : Str :=
  let r := encodeLoop input [] []
  if r.1.length = 0 then r.2
  else
    r.2 ++ ((four r.1).map char).take (r.1.length + 1) ++
      List.replicate (3 - r.1.length) (byte '=')

/-- `base64_encode(data)`; the size is an `unsigned int`. -/
def encode (data : Str) : Str := encodeBytes (data.take (toUInt32 data.length))

/-- The loop of `base64_decode`; `pending` is `char_array_4` up to `i`. -/
def decodeLoop : Str → List UInt8 → Str → List UInt8 × Str
  | [], pending, ret => (pending, ret)
  | c :: cs, pending, ret =>
    if c ≠ byte '=' ∧ isBase64 c then
      let pending := pending ++ [c]
      if pending.length = 4 then decodeLoop cs [] (ret ++ three pending)
      else decodeLoop cs pending ret
    else (pending, ret)

/-- `base64_decode`. -/
def decode (s : Str) : Str :=
  let r := decodeLoop s [] []
  if r.1.length = 0 then r.2 else r.2 ++ (three r.1).take (r.1.length - 1)

end LinSocketIo.Utils.Base64
