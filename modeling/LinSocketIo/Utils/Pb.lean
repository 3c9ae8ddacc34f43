/-
LinSocketIo.Utils.Pb — the formats of namespace `pb` in `utils/serializer.h`.

A message is a row of fields. A field is a tag, which has the key of the field
and the type of what follows, and the payload: a varint, a number of four or
eight bytes, or a block behind its length. A reader that does not know the key
passes over the payload by its type. `write_object` writes a block whose length
is not known before its bytes are, and puts the length in afterwards.

Modelling notes. An object is what its `marshal` does to a serializer, which is
its offset and byte order besides the buffer. The deserializer that `read_block`
returns is the bytes it is made over. `varint.h` is a parameter, as it is for
the byte buffer.
-/
import LinSocketIo.Utils.Serializer

namespace LinSocketIo.Utils.Pb

open LinSocketIo.Base

/-! ## Tags -/

namespace Tag

/-- `VARINT`. -/
def varint : Int32 := 0

/-- `FIXED64`. -/
def fixed64 : Int32 := 1

/-- `VARBLOCK`. -/
def varblock : Int32 := 2

/-- `FIXED32`. -/
def fixed32 : Int32 := 5

/-- `BLOCK`. -/
def block : Int32 := 6

/-- `Tag::type`. -/
def type (tag : UInt32) : Int32 := (tag &&& 0x07).toInt32

/-- `Tag::key`. -/
def key (tag : UInt32) : Int32 := (tag >>> 3).toInt32

/-- `Tag::make`. -/
def make (type key : Int32) : Int32 := (key <<< 3) ||| (type &&& 0x07)

end Tag

/-! ## Writing -/

/-- `NioMarshallable`: what `marshal` does to a serializer. -/
structure NioMarshallable where
  marshal : (offset : Nat) → ByteOrder → SerializerM Unit

section

open Serializer

variable (vi : ByteBuffer.Varint) (fresh : Nat → UInt8)

/-- `write_tag`. -/
def writeTag (type index : UInt32) : SerializerM Unit :=
  writeVarint32 fresh vi (Tag.make type.toInt32 index.toInt32)

variable (bo : ByteOrder)

/-- `write_block`. -/
def writeBlock (dat : List UInt8) (type : Int32) : SerializerM Unit :=
  if type = Tag.varblock then do
    writeVarint32 fresh vi (Int32.ofNat dat.length)
    write fresh dat
  else do
    writeUInt32 fresh bo (UInt32.ofNat dat.length)
    write fresh dat

/-- `write_object`. -/
def writeObject (stackbuff : Nat → UInt8) (offset : Nat) (object : NioMarshallable)
    (type : Int32) : SerializerM Unit :=
  if type = Tag.varblock then
    match output stackbuff (object.marshal 0 .littleEndian) with
    | .ok dat => writeBlock vi fresh bo dat type
    | .error e => throw e
  else if type = Tag.block then do
    let pos ← position offset
    writeUInt32 fresh bo 0
    object.marshal offset bo
    let now ← position offset
    let _ ← replaceUInt32 bo offset pos (UInt32.ofNat (subSize (subSize now 4) pos))
  else return ()

end

/-! ## Reading -/

open Deserializer

variable (vi : ByteBuffer.Varint) (bo : ByteOrder)

/-- `(uint32_t) upk.read_varint()`. -/
def readVarint32 : DeserializerM UInt32 := (fun i64 => i64.toUInt64.toUInt32) <$> readVarint vi

/-- `read_tag`. -/
def readTag : DeserializerM UInt32 := readVarint32 vi

/-- `read_block`. -/
def readBlock (type : Int32) : DeserializerM (List UInt8) := do
  if type = Tag.block then
    let sz ← readUInt32 bo
    read sz.toNat
  else if type = Tag.varblock then
    let sz ← readVarint32 vi
    read sz.toNat
  else throw (.runtimeException "Deserializer.read_block(): unrecgnized block type")

/-- The `switch` of `skip`. -/
def skipPayload (type : UInt32) : DeserializerM Unit := do
  if type = Tag.varint.toUInt32 then
    let _ ← readVarint vi
  else if type = Tag.fixed32.toUInt32 then
    let _ ← read 4
  else if type = Tag.fixed64.toUInt32 then
    let _ ← read 8
  else if type = Tag.block.toUInt32 then
    let sz ← readUInt32 bo
    let _ ← read sz.toNat
  else if type = Tag.varblock.toUInt32 then
    let sz ← readVarint32 vi
    let _ ← read sz.toNat
  else throw (.runtimeException "Deserializer.skip(): unrecgnized type")

/-- `skip`. -/
def skip (type : UInt32) : DeserializerM Int := do
  let presize := toInt (← size)
  skipPayload vi bo type
  return toInt (presize - (← size))

end LinSocketIo.Utils.Pb
