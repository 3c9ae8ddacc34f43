/-
LinSocketIo.Utils.Md5 — the hash of `utils/md5.h`.

`update` collects bytes in a buffer of 64 and calls `transform` for every
block; `digest` calls `final`, which feeds in the padding and the length of
the message by `update` and then restores the state and the length.

Modelling notes. `m_buffer` is its 64 bytes, and a new object has any. The
lengths are `size_t` without a bound; `index`, `partLen` and `i` are 32 bits
wide as in the source. `update` has as many turns of its loop as the input can
need: `none` says that `i` has wrapped around and the loop goes on. `final`
restores the two arrays and nothing else, and leaves `m_bFinished` to
`update`. The `ifstream` of a file gives what is left of the file.
-/
import LinSocketIo.Base.Bytes

namespace LinSocketIo.Utils

open LinSocketIo.Base

/-- `m_state`. -/
structure Md5State where
  a : UInt32
  b : UInt32
  c : UInt32
  d : UInt32
  deriving DecidableEq, Repr

/-- `MD5`. -/
structure Md5 where
  state : Md5State
  /-- The number of bits, low-order word first. -/
  count0 : UInt32
  count1 : UInt32
  buffer : List UInt8
  digest : List UInt8
  finished : Bool
  deriving DecidableEq, Repr

namespace Md5

/-! ## One block -/

def F (x y z : UInt32) : UInt32 := (x &&& y) ||| (~~~x &&& z)

def G (x y z : UInt32) : UInt32 := (x &&& z) ||| (y &&& ~~~z)

def H (x y z : UInt32) : UInt32 := x ^^^ y ^^^ z

def I (x y z : UInt32) : UInt32 := y ^^^ (x ||| ~~~z)

def rotateLeft (x n : UInt32) : UInt32 := (x <<< n) ||| (x >>> (32 - n))

/-- `FF`, `GG`, `HH` and `II`: the new value of `a`. -/
def round (fn : UInt32 → UInt32 → UInt32 → UInt32) (a b c d x s ac : UInt32) : UInt32 :=
  rotateLeft (a + (fn b c d + x + ac)) s + b

def FF (a b c d x s ac : UInt32) : UInt32 := round F a b c d x s ac

def GG (a b c d x s ac : UInt32) : UInt32 := round G a b c d x s ac

def HH (a b c d x s ac : UInt32) : UInt32 := round H a b c d x s ac

def II (a b c d x s ac : UInt32) : UInt32 := round I a b c d x s ac

def s11 : UInt32 := 7
def s12 : UInt32 := 12
def s13 : UInt32 := 17
def s14 : UInt32 := 22
def s21 : UInt32 := 5
def s22 : UInt32 := 9
def s23 : UInt32 := 14
def s24 : UInt32 := 20
def s31 : UInt32 := 4
def s32 : UInt32 := 11
def s33 : UInt32 := 16
def s34 : UInt32 := 23
def s41 : UInt32 := 6
def s42 : UInt32 := 10
def s43 : UInt32 := 15
def s44 : UInt32 := 21

/-- `encode`. -/
def encode (input : List UInt32) : List UInt8 :=
  input.flatMap fun (w : UInt32) =>
    [(w &&& 0xff).toUInt8, ((w >>> 8) &&& 0xff).toUInt8, ((w >>> 16) &&& 0xff).toUInt8,
      ((w >>> 24) &&& 0xff).toUInt8]

/-- Word `i` of the output of `decode`. -/
def decode (input : List UInt8) (i : Nat) : UInt32 :=
  let byte (k : Nat) : UInt32 := (input.getD (4 * i + k) 0).toUInt32
  byte 0 ||| (byte 1 <<< 8) ||| (byte 2 <<< 16) ||| (byte 3 <<< 24)

/-- `transform`. -/
def transform (state : Md5State) (block : List UInt8) : Md5State :=
  let x := decode block
  let a := state.a
  let b := state.b
  let c := state.c
  let d := state.d
  -- Round 1
  let a := FF a b c d (x 0) s11 0xd76aa478
  let d := FF d a b c (x 1) s12 0xe8c7b756
  let c := FF c d a b (x 2) s13 0x242070db
  let b := FF b c d a (x 3) s14 0xc1bdceee
  let a := FF a b c d (x 4) s11 0xf57c0faf
  let d := FF d a b c (x 5) s12 0x4787c62a
  let c := FF c d a b (x 6) s13 0xa8304613
  let b := FF b c d a (x 7) s14 0xfd469501
  let a := FF a b c d (x 8) s11 0x698098d8
  let d := FF d a b c (x 9) s12 0x8b44f7af
  let c := FF c d a b (x 10) s13 0xffff5bb1
  let b := FF b c d a (x 11) s14 0x895cd7be
  let a := FF a b c d (x 12) s11 0x6b901122
  let d := FF d a b c (x 13) s12 0xfd987193
  let c := FF c d a b (x 14) s13 0xa679438e
  let b := FF b c d a (x 15) s14 0x49b40821
  -- Round 2
  let a := GG a b c d (x 1) s21 0xf61e2562
  let d := GG d a b c (x 6) s22 0xc040b340
  let c := GG c d a b (x 11) s23 0x265e5a51
  let b := GG b c d a (x 0) s24 0xe9b6c7aa
  let a := GG a b c d (x 5) s21 0xd62f105d
  let d := GG d a b c (x 10) s22 0x2441453
  let c := GG c d a b (x 15) s23 0xd8a1e681
  let b := GG b c d a (x 4) s24 0xe7d3fbc8
  let a := GG a b c d (x 9) s21 0x21e1cde6
  let d := GG d a b c (x 14) s22 0xc33707d6
  let c := GG c d a b (x 3) s23 0xf4d50d87
  let b := GG b c d a (x 8) s24 0x455a14ed
  let a := GG a b c d (x 13) s21 0xa9e3e905
  let d := GG d a b c (x 2) s22 0xfcefa3f8
  let c := GG c d a b (x 7) s23 0x676f02d9
  let b := GG b c d a (x 12) s24 0x8d2a4c8a
  -- Round 3
  let a := HH a b c d (x 5) s31 0xfffa3942
  let d := HH d a b c (x 8) s32 0x8771f681
  let c := HH c d a b (x 11) s33 0x6d9d6122
  let b := HH b c d a (x 14) s34 0xfde5380c
  let a := HH a b c d (x 1) s31 0xa4beea44
  let d := HH d a b c (x 4) s32 0x4bdecfa9
  let c := HH c d a b (x 7) s33 0xf6bb4b60
  let b := HH b c d a (x 10) s34 0xbebfbc70
  let a := HH a b c d (x 13) s31 0x289b7ec6
  let d := HH d a b c (x 0) s32 0xeaa127fa
  let c := HH c d a b (x 3) s33 0xd4ef3085
  let b := HH b c d a (x 6) s34 0x4881d05
  let a := HH a b c d (x 9) s31 0xd9d4d039
  let d := HH d a b c (x 12) s32 0xe6db99e5
  let c := HH c d a b (x 15) s33 0x1fa27cf8
  let b := HH b c d a (x 2) s34 0xc4ac5665
  -- Round 4
  let a := II a b c d (x 0) s41 0xf4292244
  let d := II d a b c (x 7) s42 0x432aff97
  let c := II c d a b (x 14) s43 0xab9423a7
  let b := II b c d a (x 5) s44 0xfc93a039
  let a := II a b c d (x 12) s41 0x655b59c3
  let d := II d a b c (x 3) s42 0x8f0ccc92
  let c := II c d a b (x 10) s43 0xffeff47d
  let b := II b c d a (x 1) s44 0x85845dd1
  let a := II a b c d (x 8) s41 0x6fa87e4f
  let d := II d a b c (x 15) s42 0xfe2ce6e0
  let c := II c d a b (x 6) s43 0xa3014314
  let b := II b c d a (x 13) s44 0x4e0811a1
  let a := II a b c d (x 4) s41 0xf7537e82
  let d := II d a b c (x 11) s42 0xbd3af235
  let c := II c d a b (x 2) s43 0x2ad7d2bb
  let b := II b c d a (x 9) s44 0xeb86d391
  ⟨state.a + a, state.b + b, state.c + c, state.d + d⟩

/-! ## The message -/

/-- The magic initialization constants. -/
def magic : Md5State := ⟨0x67452301, 0xefcdab89, 0x98badcfe, 0x10325476⟩

/-- `reset`. -/
def reset (m : Md5) : Md5 :=
  { m with finished := false, count0 := 0, count1 := 0, state := magic }

/-- A new object, of which `buffer` and `digest` are not initialized. -/
def new (buffer digest : List UInt8) : Md5 := reset ⟨magic, 0, 0, buffer, digest, false⟩

/-- The blocks of `input` from `i` on: the `for` loop of `update`, with a number of turns. -/
def blocks (input : List UInt8) : Nat → UInt32 → Md5State → Option (Md5State × UInt32)
  | 0, _, _ => none
  | turns + 1, i, state =>
    if (i + 63).toNat < input.length then
      blocks input turns (i + 64) (transform state (load input i.toNat 64))
    else some (state, i)

/-- `update`. -/
def update (m : Md5) (input : List UInt8) : Option Md5 :=
  let length : UInt32 := UInt32.ofNat input.length
  let index := (m.count0 >>> 3) &&& 0x3f
  let count0 := m.count0 + (length <<< 3)
  let count1 := if count0 < length <<< 3 then m.count1 + 1 else m.count1
  let m := { m with finished := false, count0 := count0, count1 := count1 + (length >>> 29) }
  let partLen := 64 - index
  if input.length ≥ partLen.toNat then
    let buffer := store m.buffer index.toNat (load input 0 partLen.toNat)
    (blocks input (input.length / 64 + 1) partLen (transform m.state (load buffer 0 64))).map
      fun r => { m with state := r.1, buffer := store buffer 0 (input.drop r.2.toNat) }
  else some { m with buffer := store m.buffer index.toNat input }

/-- `PADDING`. -/
def paddingBytes : List UInt8 := 0x80 :: List.replicate 63 0

/-- `final`. -/
def final (m : Md5) : Option Md5 :=
  let bits := encode [m.count0, m.count1]
  let index := (m.count0 >>> 3) &&& 0x3f
  let padLen := if index < 56 then 56 - index else 120 - index
  ((m.update (load paddingBytes 0 padLen.toNat)).bind fun m => m.update bits).map fun r =>
    { r with
      digest := encode [r.state.a, r.state.b, r.state.c, r.state.d]
      state := m.state, count0 := m.count0, count1 := m.count1 }

/-- `digest`; the bytes are in the field of that name. -/
def getDigest (m : Md5) : Option Md5 :=
  if !m.finished then final { m with finished := true } else some m

/-- `HEX`. -/
def hex (n : Nat) : Char :=
  ['0', '1', '2', '3', '4', '5', '6', '7', '8', '9', 'a', 'b', 'c', 'd', 'e', 'f'].getD n '0'

/-- `bytesToHexString`. -/
def bytesToHexString (input : List UInt8) : String :=
  String.ofList (input.flatMap fun t => [hex (t.toNat / 16), hex (t.toNat % 16)])

/-- `update` with a file that has `content` left; `turns` bounds the loop. -/
def updateFile : Nat → Md5 → List UInt8 → Option Md5
  | 0, _, _ => none
  | turns + 1, m, content =>
    let buffer := content.take 1024
    (if buffer = [] then some m else m.update buffer).bind fun m =>
      if content.length < 1024 then some m else updateFile turns m (content.drop 1024)

end Md5

end LinSocketIo.Utils
