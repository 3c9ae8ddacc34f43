/-
LinSocketIo.Utils.Thrift — the Thrift framing of `utils/serializer.h`.

A receiver looks at the bytes that have come and asks `read_message_begin`
whether a whole message is there. It reads the header and lets `skip` pass
over the body, a struct whose end is known only by going through its fields.

Modelling notes. `skip` recurses on the values inside a value, and no bound on
the nesting is in the source: `skipAt` is its body down to a depth, and `skip`
takes a depth that its input cannot exceed (`skip_ends`). The `while` loop
over the fields of a struct is bounded in the same way. A branch that breaks
out of the `switch` is `true` here and one that returns -1 is `false`. A field
type is a byte, as it is on the wire. What the recursion does to the stack is
not modelled.
-/
import LinSocketIo.Utils.Serializer

namespace LinSocketIo.Utils.Thrift

open LinSocketIo.Base

/-- `TType`. -/
inductive TType where
  | stop
  | void
  | bool
  | byte
  | double
  | i16
  | i32
  | u64
  | i64
  | string
  | struct
  | map
  | set
  | list
  | utf8
  | utf16
  deriving DecidableEq, Repr

/-- The number of an enumerator. -/
def TType.code : TType → UInt8
  | .stop => 0
  | .void => 1
  | .bool => 2
  | .byte => 3
  | .double => 4
  | .i16 => 6
  | .i32 => 8
  | .u64 => 9
  | .i64 => 10
  | .string => 11
  | .struct => 12
  | .map => 13
  | .set => 14
  | .list => 15
  | .utf8 => 16
  | .utf16 => 17

/-- The enumerator with a number. -/
def TType.ofCode? : UInt8 → Option TType
  | 0 => some .stop
  | 1 => some .void
  | 2 => some .bool
  | 3 => some .byte
  | 4 => some .double
  | 6 => some .i16
  | 8 => some .i32
  | 9 => some .u64
  | 10 => some .i64
  | 11 => some .string
  | 12 => some .struct
  | 13 => some .map
  | 14 => some .set
  | 15 => some .list
  | 16 => some .utf8
  | 17 => some .utf16
  | _ => none

@[simp] theorem TType.ofCode?_code (t : TType) : TType.ofCode? t.code = some t := by
  cases t <;> rfl

theorem TType.eq_code {u : UInt8} {t : TType} (h : TType.ofCode? u = some t) : u = t.code := by
  unfold TType.ofCode? at h
  split at h <;> cases h <;> rfl

/-! ## Skipping a value -/

open Deserializer

/-- `if (upk.size() < n) return -1; else upk.read(n); break;` -/
def skipFixed (n : Nat) : DeserializerM Bool := do
  if (← size) < n then return false
  else
    let _ ← read n
    return true

/-- The branch of the strings. -/
def skipString : DeserializerM Bool := do
  if (← size) < 4 then return false
  else
    let sz ← readUInt32 .bigEndian
    if (← size) < sz.toNat then return false
    else
      let _ ← read sz.toNat
      return true

section

variable (skip : UInt8 → DeserializerM Int)

/-- The loop over the elements of a set or a list. -/
def skipElems (vtype : UInt8) : Nat → DeserializerM Bool
  | 0 => return true
  | num + 1 => do
      if (← skip vtype) = 0 then return false
      else skipElems vtype num

/-- The loop over the keys and values of a map. -/
def skipEntries (ktype vtype : UInt8) : Nat → DeserializerM Bool
  | 0 => return true
  | num + 1 => do
      if (← skip ktype) = 0 then return false
      else if (← skip vtype) = 0 then return false
      else skipEntries ktype vtype num

/-- The loop over the fields of a struct. -/
def skipFields : Nat → DeserializerM Bool
  | 0 => throw .exhausted
  | rounds + 1 => do
      if (← size) < 1 then return false
      else
        let ftype ← readByte
        if ftype = TType.stop.code then return true
        else if (← size) < 2 then return false
        else
          let _ ← read 2
          if (← skip ftype) = 0 then return false
          else skipFields rounds

/-- The branch of the maps. -/
def skipMap : DeserializerM Bool := do
  if (← size) < 1 + 1 + 2 then return false
  else
    let ktype ← readByte
    let vtype ← readByte
    let num ← readUInt32 .bigEndian
    skipEntries skip ktype vtype num.toNat

/-- The branch of the sets and lists. -/
def skipList : DeserializerM Bool := do
  if (← size) < 1 + 4 then return false
  else
    let vtype ← readByte
    let num ← readUInt32 .bigEndian
    skipElems skip vtype num.toNat

/-- The branch of the structs. -/
def skipStruct : DeserializerM Bool := do
  skipFields skip ((← size) + 1)

/-- The `switch` of `skip`. -/
def skipBranch (ftype : UInt8) : DeserializerM Bool :=
  match TType.ofCode? ftype with
  | some .stop => return true
  | some .void => return true
  | some .bool => skipFixed 1
  | some .byte => skipFixed 1
  | some .i16 => skipFixed 2
  | some .i32 => skipFixed 4
  | some .i64 => skipFixed 8
  | some .u64 => skipFixed 8
  | some .double => skipFixed 8
  | some .string => skipString
  | some .utf8 => skipString
  | some .utf16 => skipString
  | some .map => skipMap skip
  | some .set => skipList skip
  | some .list => skipList skip
  | some .struct => skipStruct skip
  | none => throw (.runtimeException "unrecgnized thrift field type")

end

/-- `skip`, down to a depth of nested values. -/
def skipAt : Nat → UInt8 → DeserializerM Int
  | 0, _ => throw .exhausted
  | depth + 1, ftype => do
      let before ← size
      if ← skipBranch (skipAt depth) ftype then return toInt (before - (← size))
      else return -1

/-- `skip`. -/
def skip (ftype : UInt8) : DeserializerM Int := do
  skipAt ((← size) + 1) ftype

/-! ## Writing -/

section

open Serializer

variable (fresh : Nat → UInt8)

/-- `writeFieldBegin`. -/
def writeFieldBegin (fieldType : TType) (fieldId : Int16) : SerializerM Unit := do
  writeByte fresh fieldType.code
  writeInt16 fresh .bigEndian fieldId

/-- `writeMapBegin`. -/
def writeMapBegin (keyType valType : TType) (size : UInt32) : SerializerM Unit := do
  writeByte fresh keyType.code
  writeByte fresh valType.code
  writeUInt32 fresh .bigEndian size

/-- `writeListBegin`. -/
def writeListBegin (elemType : TType) (size : UInt32) : SerializerM Unit := do
  writeByte fresh elemType.code
  writeUInt32 fresh .bigEndian size

/-- `writeSetBegin`. -/
def writeSetBegin (elemType : TType) (size : UInt32) : SerializerM Unit := do
  writeByte fresh elemType.code
  writeUInt32 fresh .bigEndian size

end

/-! ## Messages -/

/-- `MsgType`. -/
inductive MsgType where
  | call
  | replay
  | exception
  | oneway
  deriving DecidableEq, Repr

/-- The number of an enumerator. -/
def MsgType.code : MsgType → UInt32
  | .call => 1
  | .replay => 2
  | .exception => 3
  | .oneway => 4

/-- `VERSION_1`. -/
def version1 : UInt32 := 0x80010000

/-- The arguments that `read_message_begin` writes to. -/
structure Message where
  fname : List UInt8
  mtype : UInt32
  sn : UInt32
  headerLength : UInt32
  bodyLength : UInt32
  deriving DecidableEq, Repr

/-- The header with a version number in it. -/
def readStrictHeader (sz : UInt32) (m : Message) : DeserializerM (Bool × Message) := do
  let m := { m with mtype := sz &&& 0xff }
  if (← size) < 4 then return (false, m)
  else
    let sz ← readUInt32 .bigEndian
    if (← size) < sz.toNat then return (false, m)
    else
      let fname ← read sz.toNat
      let m := { m with fname := fname }
      if (← size) < 4 then return (false, m)
      else
        let sn ← readUInt32 .bigEndian
        return (true, { m with sn := sn })

/-- The header without one. -/
def readOldHeader (m : Message) : DeserializerM (Bool × Message) := do
  if (← size) < 4 then return (false, m)
  else
    let sz ← readUInt32 .bigEndian
    let fname ← read sz.toNat
    let m := { m with fname := fname }
    if (← size) < 1 + 4 then return (false, m)
    else
      let mtype ← readByte
      let sn ← readUInt32 .bigEndian
      return (true, { m with mtype := mtype.toUInt32, sn := sn })

/-- `read_message_begin`, on a cursor over the data. -/
def readMessageBegin (m : Message) : DeserializerM (Bool × Message) := do
  let total ← size
  if total < 4 then return (false, m)
  else
    let sz ← readUInt32 .bigEndian
    let (header, m) ← if sz &&& 0x80000000 ≠ 0 then readStrictHeader sz m else readOldHeader m
    if !header then return (false, m)
    else
      let m := { m with headerLength := UInt32.ofNat (total - (← size)) }
      let pos ← skip TType.struct.code
      if pos < 0 then return (false, m)
      else return (true, { m with bodyLength := UInt32.ofNat pos.toNat })

section

open Serializer

variable (fresh : Nat → UInt8)

/-- What `build_message` writes, over the `marshal` of the object. -/
def buildMessage (fname : List UInt8) (mtype : MsgType) (sn : UInt32)
    (marshal : SerializerM Unit) : SerializerM Unit := do
  writeUInt32 fresh .bigEndian (version1 ||| (mtype.code &&& 0xff))
  writeString32 fresh .bigEndian fname
  writeUInt32 fresh .bigEndian sn
  marshal

/-- What `build_exception_message` writes. -/
def buildExceptionMessage (fname : List UInt8) (sn : UInt32) (reason : List UInt8)
    (code : UInt32) : SerializerM Unit := do
  writeUInt32 fresh .bigEndian (version1 ||| MsgType.exception.code)
  writeString32 fresh .bigEndian fname
  writeUInt32 fresh .bigEndian sn
  writeByte fresh TType.string.code
  writeUInt16 fresh .bigEndian 1
  writeString32 fresh .bigEndian reason
  writeByte fresh TType.i32.code
  writeUInt16 fresh .bigEndian 2
  writeUInt32 fresh .bigEndian code
  writeByte fresh TType.stop.code

end

end LinSocketIo.Utils.Thrift
