/-
LinSocketIo.Utils.Cursor — the `Deserializer` of `utils/serializer.h` with its
pointer.

A `Deserializer` has a pointer into a string that somebody else owns and the
number of bytes behind it. Every call compares a length with `size_`, uses the
pointer, and moves both. Nothing ties the pointer to the end of the string but
these comparisons, and most lengths come from the string itself.

Modelling notes. `mem` is the string a deserializer was made over, and `pos` is
`data_` as an offset from its first byte. A read of bytes that are not in the
string ends the call as `outside`, also where the address would wrap around and
come back into it. `Varint::read` may look at all the bytes it is given. The
pointers that calls return come with the lengths their callers have. A `float`
is its 32-bit pattern. The `peek` calls without a position are left out.
-/
import LinSocketIo.Utils.Pb

namespace LinSocketIo.Utils

open LinSocketIo.Base

/-- How a call on a deserializer ends that does not return. -/
inductive Fault where
  | thrown (e : Thrown)
  /-- A byte that is not in the string is read. -/
  | outside
  deriving DecidableEq, Repr

/-- The fields `data_` and `size_`. -/
structure Cursor where
  pos : Nat
  size : Nat
  deriving DecidableEq, Repr

/-- A pointer that a call returns, with its length. -/
structure Block where
  ptr : Nat
  len : Nat
  deriving DecidableEq, Repr

/-- A call on a deserializer. -/
abbrev CursorM := EStateM Fault Cursor

namespace Cursor

/-- `Deserializer::Deserializer` and `reset`. -/
def new (mem : List UInt8) : Cursor := ⟨0, mem.length⟩

/-- The exception for too few bytes. -/
def notEnough (what : String) : Fault :=
  .thrown (.runtimeException ("Deserializer." ++ what ++ "(): not enough data"))

/-- `data_ += k; size_ -= k;` -/
def forward (k : Nat) : CursorM Unit :=
  modify fun c => ⟨c.pos + k, subSize c.size k⟩

/-- `size`. -/
def getSize : CursorM Nat := return (← get).size

/-- `skip`. -/
def skip (k : Nat) : CursorM Unit := do
  let c ← get
  if c.size < k then throw (notEnough "skip")
  else forward k

/-- `read`. -/
def read (k : Nat) : CursorM Block := do
  let c ← get
  if c.size < k then throw (notEnough "read")
  else
    forward k
    return ⟨c.pos, k⟩

section

variable (mem : List UInt8)

/-- The bytes of a block are read. -/
def access (b : Block) : CursorM (List UInt8) :=
  if b.ptr + b.len ≤ mem.length then return load mem b.ptr b.len else throw .outside

/-- The number in the first `n` bytes, in the byte order of the machine. -/
def readNumber (what : String) (n : Nat) : CursorM Nat := do
  let c ← get
  if c.size < n then throw (notEnough what)
  else
    let w ← access mem ⟨c.pos, n⟩
    forward n
    return leNat w

/-- `read_raw`. -/
def readRaw (n : Nat) : CursorM (List UInt8) := do
  let p ← read n
  access mem p

/-- `read_byte`. -/
def readByte : CursorM UInt8 := UInt8.ofNat <$> readNumber mem "read_byte" 1

/-- `read_bool`. -/
def readBool : CursorM Bool := (· != 0) <$> readByte mem

variable (bo : ByteOrder)

/-- `read_int16`. -/
def readInt16 : CursorM Int16 :=
  (fun u => (BO.hton16 (UInt16.ofNat u) bo).toInt16) <$> readNumber mem "read_int16" 2

/-- `read_int32`. -/
def readInt32 : CursorM Int32 :=
  (fun u => (BO.hton32 (UInt32.ofNat u) bo).toInt32) <$> readNumber mem "read_int32" 4

/-- `read_int64`. -/
def readInt64 : CursorM Int64 :=
  (fun u => (BO.hton64 (UInt64.ofNat u) bo).toInt64) <$> readNumber mem "read_int64" 8

/-- `read_uint16`. -/
def readUInt16 : CursorM UInt16 :=
  (fun u => BO.hton16 (UInt16.ofNat u) bo) <$> readNumber mem "read_uint16" 2

/-- `read_uint32`. -/
def readUInt32 : CursorM UInt32 :=
  (fun u => BO.hton32 (UInt32.ofNat u) bo) <$> readNumber mem "read_uint32" 4

/-- `read_uint64`. -/
def readUInt64 : CursorM UInt64 :=
  (fun u => BO.hton64 (UInt64.ofNat u) bo) <$> readNumber mem "read_uint64" 8

/-- `read_float`. -/
def readFloat : CursorM UInt32 :=
  (fun u => BO.hton32 (UInt32.ofNat u) bo) <$> readNumber mem "read_float" 4

/-- `read_double`. -/
def readDouble : CursorM UInt64 :=
  (fun u => BO.hton64 (UInt64.ofNat u) bo) <$> readNumber mem "read_double" 8

/-- `read_bytes32` with a size to write to. -/
def readBytes32 : CursorM Block := do
  let size ← readUInt32 mem bo
  read size.toNat

/-- `read_bytes32` and `read_string32`, which copy the bytes. -/
def readString32 : CursorM (List UInt8) := do
  let p ← readBytes32 mem bo
  access mem p

/-- `read_string16`. -/
def readString16 : CursorM (List UInt8) := do
  let len ← readUInt16 mem bo
  let p ← read len.toNat
  access mem p

variable (vi : ByteBuffer.Varint)

/-- `read_varint`. -/
def readVarint : CursorM Int64 := do
  let c ← get
  let data ← access mem ⟨c.pos, c.size⟩
  let (n, i64) := vi.read data
  if n ≤ 0 then throw (notEnough "read_varint")
  else
    forward n.toNat
    return i64

/-- `read_bytes` with a size to write to. -/
def readBytes : CursorM Block := do
  let size ← readVarint mem vi
  read size.toUInt64.toNat

/-- `read_bytes` and `read_string`, which copy the bytes. -/
def readString : CursorM (List UInt8) := do
  let p ← readBytes mem vi
  access mem p

/-- `(uint32_t) upk.read_varint()`. -/
def readVarint32 : CursorM UInt32 := (fun i64 => i64.toUInt64.toUInt32) <$> readVarint mem vi

/-- `pb::read_block`, with the block the new deserializer is made over. -/
def readBlock (type : Int32) : CursorM Block := do
  if type = Pb.Tag.block then
    let sz ← readUInt32 mem bo
    read sz.toNat
  else if type = Pb.Tag.varblock then
    let sz ← readVarint32 mem vi
    read sz.toNat
  else throw (.thrown (.runtimeException "Deserializer.read_block(): unrecgnized block type"))

/-- The `switch` of `pb::skip`. -/
def skipPayload (type : UInt32) : CursorM Unit := do
  if type = Pb.Tag.varint.toUInt32 then
    let _ ← readVarint mem vi
  else if type = Pb.Tag.fixed32.toUInt32 then
    let _ ← read 4
  else if type = Pb.Tag.fixed64.toUInt32 then
    let _ ← read 8
  else if type = Pb.Tag.block.toUInt32 then
    let sz ← readUInt32 mem bo
    let _ ← read sz.toNat
  else if type = Pb.Tag.varblock.toUInt32 then
    let sz ← readVarint32 mem vi
    let _ ← read sz.toNat
  else throw (.thrown (.runtimeException "Deserializer.skip(): unrecgnized type"))

/-- `pb::skip`. -/
def skipField (type : UInt32) : CursorM Int := do
  let presize := toInt (← getSize)
  skipPayload mem bo vi type
  return toInt (presize - (← getSize))

/-! ## Looking ahead -/

/-- The `k` bytes at `pos`, when the difference of the sizes is not below `k` as an `int`. -/
def peekNumber (k pos : Nat) : CursorM (Option Nat) := do
  let c ← get
  if toInt (subSize c.size pos) < k then return none
  else
    let w ← access mem ⟨c.pos + pos, k⟩
    return some (leNat w)

/-- `peek_uint8`. -/
def peekUInt8 (pos : Nat) : CursorM (Option UInt8) :=
  Option.map UInt8.ofNat <$> peekNumber mem 1 pos

/-- `peek_uint16`. -/
def peekUInt16 (pos : Nat) : CursorM (Option UInt16) :=
  Option.map (fun u => BO.hton16 (UInt16.ofNat u) bo) <$> peekNumber mem 2 pos

/-- `peek_uint32`. -/
def peekUInt32 (pos : Nat) : CursorM (Option UInt32) :=
  Option.map (fun u => BO.hton32 (UInt32.ofNat u) bo) <$> peekNumber mem 4 pos

/-- `peek_uint64`. -/
def peekUInt64 (pos : Nat) : CursorM (Option UInt64) :=
  Option.map (fun u => BO.hton64 (UInt64.ofNat u) bo) <$> peekNumber mem 8 pos

/-- `peek_varint`. It does not use the position. -/
def peekVarint (_pos : Nat) : CursorM (Option Int64) := do
  let c ← get
  let data ← access mem ⟨c.pos, c.size⟩
  let (n, i64) := vi.read data
  return if n > 0 then some i64 else none

/-! ## A deserializer in use -/

/-- A call with its argument. -/
inductive Call where
  | skip (k : Nat)
  | read (k : Nat)
  | readRaw (n : Nat)
  | readByte
  | readBool
  | readInt16
  | readInt32
  | readInt64
  | readUInt16
  | readUInt32
  | readUInt64
  | readFloat
  | readDouble
  | readVarint
  | readBytes32
  | readString32
  | readString16
  | readBytes
  | readString
  | skipField (type : UInt32)
  | readBlock (type : Int32)
  deriving DecidableEq, Repr

/-- A call, with the block it returns if it returns one. -/
def Call.exec : Call → CursorM (Option Block)
  | .skip k => (fun _ => none) <$> Cursor.skip k
  | .read k => some <$> Cursor.read k
  | .readRaw n => (fun _ => none) <$> Cursor.readRaw mem n
  | .readByte => (fun _ => none) <$> Cursor.readByte mem
  | .readBool => (fun _ => none) <$> Cursor.readBool mem
  | .readInt16 => (fun _ => none) <$> Cursor.readInt16 mem bo
  | .readInt32 => (fun _ => none) <$> Cursor.readInt32 mem bo
  | .readInt64 => (fun _ => none) <$> Cursor.readInt64 mem bo
  | .readUInt16 => (fun _ => none) <$> Cursor.readUInt16 mem bo
  | .readUInt32 => (fun _ => none) <$> Cursor.readUInt32 mem bo
  | .readUInt64 => (fun _ => none) <$> Cursor.readUInt64 mem bo
  | .readFloat => (fun _ => none) <$> Cursor.readFloat mem bo
  | .readDouble => (fun _ => none) <$> Cursor.readDouble mem bo
  | .readVarint => (fun _ => none) <$> Cursor.readVarint mem vi
  | .readBytes32 => some <$> Cursor.readBytes32 mem bo
  | .readString32 => (fun _ => none) <$> Cursor.readString32 mem bo
  | .readString16 => (fun _ => none) <$> Cursor.readString16 mem bo
  | .readBytes => some <$> Cursor.readBytes mem vi
  | .readString => (fun _ => none) <$> Cursor.readString mem vi
  | .skipField type => (fun _ => none) <$> Cursor.skipField mem bo vi type
  | .readBlock type => some <$> Cursor.readBlock mem bo vi type

end

end Cursor

end LinSocketIo.Utils
