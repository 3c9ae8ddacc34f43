/-
LinSocketIo.Utils.Serializer — the formats of `utils/serializer.h`.

A `Serializer` writes numbers and strings into a byte buffer in a byte order
of its own, and a `Deserializer` reads them back from a cursor over bytes.

Modelling notes. A call on a `Serializer` runs in `SerializerM` over its
buffer, and `offset_` is an argument of what shows the bytes. Where the
serializer owns its buffer (`Pack` and the Thrift messages make it so) the
buffer is empty when the serializer is made, and `output` shows all of it. The state of a
`Deserializer` is the bytes from `data_` on, `size_` many; its byte order is
an argument. A `std::string` is the list of its bytes and a `double` its
64-bit pattern. The `float` calls are left out, and of the `replace` calls for
numbers the one that `pb` uses is here. The calls for a JSON writer are in
`Utils.JsonStream`, and the cursor with its pointer, for the `peek` calls, in
`Utils.Cursor`.
-/
import LinSocketIo.Utils.ByteBuffer

namespace LinSocketIo.Utils

open LinSocketIo.Base

/-- What the calls that write and read throw. -/
inductive Thrown where
  /-- `RuntimeException`, with its `_massage`. -/
  | runtimeException (massage : String)
  /-- `PackError`. -/
  | packError (w : String)
  /-- `UnpackError`. -/
  | unpackError (w : String)
  /-- What the byte buffer throws. -/
  | buffer (stop : Stop)
  /-- The bound that the model puts on a recursion of the source. -/
  | exhausted
  deriving DecidableEq, Repr

/-- The byte orders of `byteorder.h`. -/
inductive ByteOrder where
  | littleEndian
  | bigEndian
  deriving DecidableEq, Repr

/-! ## Byte order -/

/-- `__bswap_16`, `__bswap_32` and `__bswap_64` for `n` of 2, 4 and 8: the bytes in
the other order. -/
def bswap (n v : Nat) : Nat := leNat (leBytes n v).reverse

/-- What the functions of `BO` do to a number of `n` bytes. -/
def BO.convert (n v : Nat) : ByteOrder → Nat
  | .littleEndian => v
  | .bigEndian => bswap n v

/-- `BO::hton16` and `BO::ntoh16`. -/
def BO.hton16 (i : UInt16) (bo : ByteOrder) : UInt16 := UInt16.ofNat (BO.convert 2 i.toNat bo)

/-- `BO::hton32` and `BO::ntoh32`. -/
def BO.hton32 (i : UInt32) (bo : ByteOrder) : UInt32 := UInt32.ofNat (BO.convert 4 i.toNat bo)

/-- `BO::hton64` and `BO::ntoh64`. -/
def BO.hton64 (i : UInt64) (bo : ByteOrder) : UInt64 := UInt64.ofNat (BO.convert 8 i.toNat bo)

/-! ## Serializer -/

/-- A call on a serializer. -/
abbrev SerializerM := EStateM Thrown ByteBuffer

namespace Serializer

/-- A call on `buffer_`. -/
def onBuffer {α : Type} (x : BufferM α) : SerializerM α := fun b =>
  match x.run b with
  | .ok a b' => .ok a b'
  | .error stop b' => .error (.buffer stop) b'

section

variable (fresh : Nat → UInt8) (bo : ByteOrder)

/-- `write`. -/
def write (raw : List UInt8) : SerializerM Unit := onBuffer (ByteBuffer.drop (ByteBuffer.write fresh raw))

/-- `write_byte`. -/
def writeByte (u : UInt8) : SerializerM Unit := onBuffer (ByteBuffer.writeU8 fresh u)

/-- `write_uint16`. -/
def writeUInt16 (u : UInt16) : SerializerM Unit :=
  onBuffer (ByteBuffer.writeU16 fresh (BO.hton16 u bo))

/-- `write_uint32`. -/
def writeUInt32 (u : UInt32) : SerializerM Unit :=
  onBuffer (ByteBuffer.writeU32 fresh (BO.hton32 u bo))

/-- `write_uint64`. -/
def writeUInt64 (u : UInt64) : SerializerM Unit :=
  onBuffer (ByteBuffer.writeU64 fresh (BO.hton64 u bo))

/-- `write_int16`. -/
def writeInt16 (i : Int16) : SerializerM Unit :=
  onBuffer (ByteBuffer.writeU16 fresh (BO.hton16 i.toUInt16 bo))

/-- `write_int32`. -/
def writeInt32 (i : Int32) : SerializerM Unit :=
  onBuffer (ByteBuffer.writeU32 fresh (BO.hton32 i.toUInt32 bo))

/-- `write_int64`. -/
def writeInt64 (i : Int64) : SerializerM Unit :=
  onBuffer (ByteBuffer.writeU64 fresh (BO.hton64 i.toUInt64 bo))

/-- `write_double`. -/
def writeDouble (d : UInt64) : SerializerM Unit :=
  onBuffer (ByteBuffer.writeU64 fresh (BO.hton64 d bo))

/-- `write_string32`. -/
def writeString32 (str : List UInt8) : SerializerM Unit := do
  writeUInt32 fresh bo (UInt32.ofNat str.length)
  write fresh str

end

section

variable (fresh : Nat → UInt8) (bo : ByteOrder)

/-- `write_bool`. -/
def writeBool (b : Bool) : SerializerM Unit :=
  onBuffer (ByteBuffer.writeU8 fresh (if b then 1 else 0))

/-- `write_bytes32`; the size is narrowed to `uint32_t`. -/
def writeBytes32 (data : List UInt8) : SerializerM Unit := do
  writeUInt32 fresh bo (UInt32.ofNat data.length)
  write fresh data

/-- `write_string16`; the size is narrowed to `uint16_t`. -/
def writeString16 (str : List UInt8) : SerializerM Unit := do
  writeUInt16 fresh bo (UInt16.ofNat str.length)
  write fresh str

variable (vi : ByteBuffer.Varint)

/-- `write_varint32`. -/
def writeVarint32 (v : Int32) : SerializerM Unit := onBuffer (ByteBuffer.writeVarint32 vi fresh v)

/-- `write_varint`. -/
def writeVarint (v : Int64) : SerializerM Unit := onBuffer (ByteBuffer.writeVarint vi fresh v)

/-- `write_bytes` and `write_string`; the size is converted to `int64_t`. -/
def writeBytes (data : List UInt8) : SerializerM Unit := do
  writeVarint fresh vi (Int64.ofNat data.length)
  write fresh data

end

/-- `data()` and `size()` of a serializer whose buffer had `offset` bytes when it was made. -/
def data (offset : Nat) (b : ByteBuffer) : Except Thrown (List UInt8) :=
  if b.size < offset then .error (.runtimeException "offset out of range")
  else .ok (b.contents.drop offset)

/-- `size`. -/
def size (offset : Nat) (b : ByteBuffer) : Nat := if b.size < offset then 0 else b.size - offset

/-- `position`. -/
def position (offset : Nat) : SerializerM Nat := return size offset (← get)

/-- `replace`. What it checks is this serializer's size, and what it changes are the bytes
of the buffer from `pos` on. -/
def replace (offset pos : Nat) (data : List UInt8) : SerializerM Nat := do
  let b ← get
  if data.length = 0 then return 0
  else if (pos + data.length) % 2 ^ 64 > size offset b then
    throw (.runtimeException "Serializer.replace() : position out of range")
  else
    set { b with mem := store b.mem (b.head + pos) data }
    return pos + data.length

/-- `replace_uint32`. -/
def replaceUInt32 (bo : ByteOrder) (offset pos : Nat) (u32 : UInt32) : SerializerM Nat :=
  replace offset pos (leBytes 4 (BO.hton32 u32 bo).toNat)

/-- What `data()` and `size()` show when a call on a new serializer has returned. -/
def output (stackbuff : Nat → UInt8) (x : SerializerM Unit) : Except Thrown (List UInt8) :=
  match x.run (.new true stackbuff) with
  | .ok _ b => .ok b.contents
  | .error e _ => .error e

end Serializer

/-! ## Deserializer -/

/-- A call on a deserializer. -/
abbrev DeserializerM := EStateM Thrown (List UInt8)

namespace Deserializer

/-- `size`. -/
def size : DeserializerM Nat := return (← get).length

/-- The first `k` bytes, with the text of the exception when there are fewer. -/
def fetch (what : String) (k : Nat) : DeserializerM (List UInt8) := do
  let data ← get
  if data.length < k then
    throw (.runtimeException ("Deserializer." ++ what ++ "(): not enough data"))
  else
    set (data.drop k)
    return data.take k

/-- `skip`. -/
def skip (k : Nat) : DeserializerM Unit := do
  let _ ← fetch "skip" k

/-- `read`. -/
def read (k : Nat) : DeserializerM (List UInt8) := fetch "read" k

/-- The number in the first `n` bytes, in the byte order of the machine. -/
def readNumber (what : String) (n : Nat) : DeserializerM Nat := leNat <$> fetch what n

/-- `read_byte`. -/
def readByte : DeserializerM UInt8 := UInt8.ofNat <$> readNumber "read_byte" 1

/-- `read_uint16`. -/
def readUInt16 (bo : ByteOrder) : DeserializerM UInt16 :=
  (fun u => BO.hton16 (UInt16.ofNat u) bo) <$> readNumber "read_uint16" 2

/-- `read_uint32`. -/
def readUInt32 (bo : ByteOrder) : DeserializerM UInt32 :=
  (fun u => BO.hton32 (UInt32.ofNat u) bo) <$> readNumber "read_uint32" 4

/-- `read_uint64`. -/
def readUInt64 (bo : ByteOrder) : DeserializerM UInt64 :=
  (fun u => BO.hton64 (UInt64.ofNat u) bo) <$> readNumber "read_uint64" 8

/-- `read_double`. -/
def readDouble (bo : ByteOrder) : DeserializerM UInt64 :=
  (fun u => BO.hton64 (UInt64.ofNat u) bo) <$> readNumber "read_double" 8

/-- `read_bool`. -/
def readBool : DeserializerM Bool := (· != 0) <$> readByte

/-- `read_int16`. -/
def readInt16 (bo : ByteOrder) : DeserializerM Int16 :=
  (fun u => (BO.hton16 (UInt16.ofNat u) bo).toInt16) <$> readNumber "read_int16" 2

/-- `read_int32`. -/
def readInt32 (bo : ByteOrder) : DeserializerM Int32 :=
  (fun u => (BO.hton32 (UInt32.ofNat u) bo).toInt32) <$> readNumber "read_int32" 4

/-- `read_int64`. -/
def readInt64 (bo : ByteOrder) : DeserializerM Int64 :=
  (fun u => (BO.hton64 (UInt64.ofNat u) bo).toInt64) <$> readNumber "read_int64" 8

/-- `read_bytes32` and `read_string32`. -/
def readBytes32 (bo : ByteOrder) : DeserializerM (List UInt8) := do
  let size ← readUInt32 bo
  read size.toNat

/-- `read_string16`. -/
def readString16 (bo : ByteOrder) : DeserializerM (List UInt8) := do
  let len ← readUInt16 bo
  read len.toNat

/-- `read_varint`. -/
def readVarint (vi : ByteBuffer.Varint) : DeserializerM Int64 := do
  let data ← get
  let (n, i64) := vi.read data
  if n ≤ 0 then throw (.runtimeException "Deserializer.read_varint(): not enough data")
  else
    set (data.drop n.toNat)
    return i64

/-- `read_bytes` and `read_string`; the size is converted to `size_t`. -/
def readBytes (vi : ByteBuffer.Varint) : DeserializerM (List UInt8) := do
  let size ← readVarint vi
  read size.toUInt64.toNat

end Deserializer

end LinSocketIo.Utils
