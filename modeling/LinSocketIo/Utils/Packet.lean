/-
LinSocketIo.Utils.Packet — `Pack` and `Unpack` of `utils/packet.h`, over the
types that their operators are defined for.

A `Schema` names a type the operators `<<` and `>>` accept, and `Val` is the
type of its values. Both operators are recursions on the schema, as overload
resolution chooses an operator for every part of a type.

Modelling notes. A container is the list of its elements in the order it is
iterated in; `less` is `std::less` on the element type, which orders the sets
and the keys of the maps. The hint of an inserter only says where a search
begins, so `*i = tmp` on a set or a map is `insertUnique`: it puts the element
in its place unless an equivalent one is there. `varstr.h` is not in the
repository. What is used of it is the field `Varstr::m_size`, which takes a
length and gives it back through `size()`; `mSize n` is what it holds after
`n` is assigned. The fields of a `Marshallable` that are read in turn are the
parts of a pair. What a failed call leaves in its target is not modelled.
-/
import LinSocketIo.Utils.Serializer

namespace LinSocketIo.Utils

open LinSocketIo.Base

/-- The types that are packed. -/
inductive Schema where
  | bool
  | uint8
  | int8
  | uint16
  | int16
  | uint32
  | int32
  | uint64
  | int64
  | double
  /-- `std::string`, packed as a varstr. -/
  | string
  /-- `string32`. -/
  | string32
  | pair (first second : Schema)
  | vector (elem : Schema)
  | list (elem : Schema)
  | set (elem : Schema)
  | map (key val : Schema)
  /-- `std::list<std::map<T1, T2>>`, which has operators of its own. -/
  | listOfMap (key val : Schema)
  /-- A map of maps, packed with `marshal_composite_map`. -/
  | compositeMap (key key' val : Schema)
  deriving DecidableEq, Repr

namespace Schema

/-- The values of a type. -/
@[reducible] def Val : Schema → Type
  | bool => Bool
  | uint8 => UInt8
  | int8 => Int8
  | uint16 => UInt16
  | int16 => Int16
  | uint32 => UInt32
  | int32 => Int32
  | uint64 => UInt64
  | int64 => Int64
  | double => UInt64
  | string => List UInt8
  | string32 => List UInt8
  | pair a b => a.Val × b.Val
  | vector a => List a.Val
  | list a => List a.Val
  | set a => List a.Val
  | map k v => List (k.Val × v.Val)
  | listOfMap k v => List (List (k.Val × v.Val))
  | compositeMap k k' v => List (k.Val × List (k'.Val × v.Val))

/-- A value that was just declared. -/
def empty : (s : Schema) → s.Val
  | bool => false
  | uint8 => 0
  | int8 => 0
  | uint16 => 0
  | int16 => 0
  | uint32 => 0
  | int32 => 0
  | uint64 => 0
  | int64 => 0
  | double => 0
  | string => []
  | string32 => []
  | pair a b => (a.empty, b.empty)
  | vector _ => []
  | list _ => []
  | set _ => []
  | map _ _ => []
  | listOfMap _ _ => []
  | compositeMap _ _ _ => []

end Schema

/-! ## The order of a set -/

/-- `std::lexicographical_compare`. -/
def lexLess {α : Type} (lt : α → α → Bool) : List α → List α → Bool
  | _, [] => false
  | [], _ :: _ => true
  | x :: xs, y :: ys => if lt x y then true else if lt y x then false else lexLess lt xs ys

/-- `operator <` of `std::pair`. -/
def pairLess {α β : Type} (lt : α → α → Bool) (lt' : β → β → Bool) (p q : α × β) : Bool :=
  lt p.1 q.1 || (!lt q.1 p.1 && lt' p.2 q.2)

/-- Whether a 64-bit pattern is that of no number. -/
def isNaN (x : UInt64) : Bool := 9218868437227405312 < x.toNat % 9223372036854775808

/-- What orders the patterns of numbers: the magnitude with the sign. -/
def doubleRank (x : UInt64) : Int :=
  if x.toNat < 9223372036854775808 then x.toNat else 9223372036854775808 - x.toNat

/-- `operator <` of `double`. -/
def doubleLess (x y : UInt64) : Bool := !isNaN x && !isNaN y && doubleRank x < doubleRank y

namespace Schema

/-- `std::less`. -/
def less : (s : Schema) → s.Val → s.Val → Bool
  | bool, x, y => !x && y
  | uint8, x, y => decide (x < y)
  | int8, x, y => decide (x < y)
  | uint16, x, y => decide (x < y)
  | int16, x, y => decide (x < y)
  | uint32, x, y => decide (x < y)
  | int32, x, y => decide (x < y)
  | uint64, x, y => decide (x < y)
  | int64, x, y => decide (x < y)
  | double, x, y => doubleLess x y
  | string, x, y => lexLess (fun a b => decide (a < b)) x y
  | string32, x, y => lexLess (fun a b => decide (a < b)) x y
  | pair a b, x, y => pairLess a.less b.less x y
  | vector a, x, y => lexLess a.less x y
  | list a, x, y => lexLess a.less x y
  | set a, x, y => lexLess a.less x y
  | map k v, x, y => lexLess (pairLess k.less v.less) x y
  | listOfMap k v, x, y => lexLess (lexLess (pairLess k.less v.less)) x y
  | compositeMap k k' v, x, y =>
      lexLess (pairLess k.less (lexLess (pairLess k'.less v.less))) x y

end Schema

/-- Insertion in a set or a map whose elements `lt` orders. -/
def insertUnique {α : Type} (lt : α → α → Bool) : List α → α → List α
  | [], x => [x]
  | y :: ys, x =>
      if lt y x then y :: insertUnique lt ys x
      else if lt x y then x :: y :: ys
      else y :: ys

/-- `back_inserter`. -/
def pushBack {α : Type} (c : List α) (x : α) : List α := c ++ [x]

/-- The order of the elements of a map. -/
def keyLess {α β : Type} (lt : α → α → Bool) (p q : α × β) : Bool := lt p.1 q.1

/-! ## Pack -/

namespace Pack

open Serializer

section

variable (fresh : Nat → UInt8) (bo : ByteOrder)

/-- `push`. -/
def push (s : List UInt8) : SerializerM Unit := write fresh s

/-- `push_uint8`. -/
def pushUInt8 (u8 : UInt8) : SerializerM Unit := push fresh [u8]

/-- `push_uint16`. -/
def pushUInt16 (u16 : UInt16) : SerializerM Unit := writeUInt16 fresh bo u16

/-- `push_uint32`. -/
def pushUInt32 (u32 : UInt32) : SerializerM Unit := writeUInt32 fresh bo u32

/-- `push_uint64`. -/
def pushUInt64 (u64 : UInt64) : SerializerM Unit := writeUInt64 fresh bo u64

/-- `push_double`. -/
def pushDouble (d : UInt64) : SerializerM Unit := writeDouble fresh bo d

/-- `push_varstr`. -/
def pushVarstr (s : List UInt8) : SerializerM Unit :=
  if s.length > 0xFFFF then throw (.packError "push_varstr: varstr too big")
  else do
    pushUInt16 fresh bo (UInt16.ofNat s.length)
    push fresh s

/-- `push_varstr32`. -/
def pushVarstr32 (s : List UInt8) : SerializerM Unit :=
  if s.length > 0xFFFFFFFF then throw (.packError "push_varstr32: varstr too big")
  else do
    pushUInt32 fresh bo (UInt32.ofNat s.length)
    push fresh s

variable {α β γ : Type}

/-- `operator <<` of a pair, over those of its parts. -/
def marshalPair (first : α → SerializerM Unit) (second : β → SerializerM Unit) (p : α × β) :
    SerializerM Unit := do
  first p.1
  second p.2

/-- `marshal_container`. -/
def marshalContainer (elem : α → SerializerM Unit) (c : List α) : SerializerM Unit := do
  pushUInt32 fresh bo (UInt32.ofNat c.length)
  c.forM elem

/-- `marshal_composite_container`. -/
def marshalCompositeContainer (elem : α → SerializerM Unit) (c : List (List α)) :
    SerializerM Unit := do
  pushUInt32 fresh bo (UInt32.ofNat c.length)
  c.forM fun i => marshalContainer fresh bo elem i

/-- `marshal_composite_map`. -/
def marshalCompositeMap (key : α → SerializerM Unit) (elem : β → SerializerM Unit)
    (c : List (α × List β)) : SerializerM Unit := do
  pushUInt32 fresh bo (UInt32.ofNat c.length)
  c.forM fun i => do
    key i.1
    marshalContainer fresh bo elem i.2

/-- `operator <<`. -/
def marshal : (s : Schema) → s.Val → SerializerM Unit
  | .bool, sign => pushUInt8 fresh (if sign then 1 else 0)
  | .uint8, u8 => pushUInt8 fresh u8
  | .int8, i8 => pushUInt8 fresh i8.toUInt8
  | .uint16, u16 => pushUInt16 fresh bo u16
  | .int16, i16 => pushUInt16 fresh bo i16.toUInt16
  | .uint32, u32 => pushUInt32 fresh bo u32
  | .int32, i32 => pushUInt32 fresh bo i32.toUInt32
  | .uint64, u64 => pushUInt64 fresh bo u64
  | .int64, i64 => pushUInt64 fresh bo i64.toUInt64
  | .double, dVal => pushDouble fresh bo dVal
  | .string, str => pushVarstr fresh bo str
  | .string32, str => pushVarstr32 fresh bo str
  | .pair a b, p => marshalPair (marshal a) (marshal b) p
  | .vector a, cc => marshalContainer fresh bo (marshal a) cc
  | .list a, cc => marshalContainer fresh bo (marshal a) cc
  | .set a, set => marshalContainer fresh bo (marshal a) set
  | .map k v, cc => marshalContainer fresh bo (marshalPair (marshal k) (marshal v)) cc
  | .listOfMap k v, cc =>
      marshalCompositeContainer fresh bo (marshalPair (marshal k) (marshal v)) cc
  | .compositeMap k k' v, c =>
      marshalCompositeMap fresh bo (marshal k) (marshalPair (marshal k') (marshal v)) c

end

end Pack

/-! ## Unpack -/

namespace Unpack

open Deserializer

/-- `pop_fetch_ptr`, with the bytes it gives access to. -/
def popFetchPtr (k : Nat) : DeserializerM (List UInt8) := do
  let data ← get
  if data.length < k then throw (.unpackError "pop_fetch_ptr: not enough data")
  else
    skip k
    return data.take k

/-- `pop_uint8`. -/
def popUInt8 : DeserializerM UInt8 := readByte

section

variable (mSize : Nat → Nat) (bo : ByteOrder)

/-- `pop_uint16`. -/
def popUInt16 : DeserializerM UInt16 := readUInt16 bo

/-- `pop_uint32`. -/
def popUInt32 : DeserializerM UInt32 := readUInt32 bo

/-- `pop_uint64`. -/
def popUInt64 : DeserializerM UInt64 := readUInt64 bo

/-- `pop_double`. -/
def popDouble : DeserializerM UInt64 := readDouble bo

/-- `pop_varstr`, with `pop_varstr_ptr`. -/
def popVarstr : DeserializerM (List UInt8) := do
  let u16 ← popUInt16 bo
  popFetchPtr (mSize u16.toNat)

/-- `pop_varstr32`, with `pop_varstr32_ptr`. -/
def popVarstr32 : DeserializerM (List UInt8) := do
  let u32 ← popUInt32 bo
  popFetchPtr (mSize u32.toNat)

variable {α β : Type}

/-- `operator >>` of a pair, over those of its parts. -/
def unmarshalPair (first : DeserializerM α) (second : DeserializerM β) : DeserializerM (α × β) := do
  let a ← first
  let b ← second
  return (a, b)

/-- The loop of `unmarshal_container`. -/
def unmarshalLoop (elem : DeserializerM α) (insert : List α → α → List α) :
    Nat → List α → DeserializerM (List α)
  | 0, c => return c
  | count + 1, c => do
      let tmp ← elem
      unmarshalLoop elem insert count (insert c tmp)

/-- `unmarshal_container` with an inserter of `c`. `elem` reads into a new element. -/
def unmarshalContainer (elem : DeserializerM α) (insert : List α → α → List α) (c : List α) :
    DeserializerM (List α) := do
  let count ← popUInt32 bo
  unmarshalLoop elem insert count.toNat c

/-- `unmarshal_composite_container`, over containers that are filled with `insert`. -/
def unmarshalCompositeContainer (elem : DeserializerM α) (insert : List α → α → List α)
    (c : List (List α)) : DeserializerM (List (List α)) := do
  let count ← popUInt32 bo
  unmarshalLoop (unmarshalContainer bo elem insert []) pushBack count.toNat c

/-- `unmarshal_composite_map`, over maps that are filled with `insert`. -/
def unmarshalCompositeMap (key : DeserializerM α) (lt : α → α → Bool) (elem : DeserializerM β)
    (insert : List β → β → List β) (c : List (α × List β)) :
    DeserializerM (List (α × List β)) := do
  let count ← popUInt32 bo
  unmarshalLoop (unmarshalPair key (unmarshalContainer bo elem insert []))
    (insertUnique (keyLess lt)) count.toNat c

/-- `operator >>` into a target. -/
def unmarshal : (s : Schema) → s.Val → DeserializerM s.Val
  | .bool, _ => (fun u8 => if u8 = 0 then false else true) <$> popUInt8
  | .uint8, _ => popUInt8
  | .int8, _ => UInt8.toInt8 <$> popUInt8
  | .uint16, _ => popUInt16 bo
  | .int16, _ => UInt16.toInt16 <$> popUInt16 bo
  | .uint32, _ => popUInt32 bo
  | .int32, _ => UInt32.toInt32 <$> popUInt32 bo
  | .uint64, _ => popUInt64 bo
  | .int64, _ => UInt64.toInt64 <$> popUInt64 bo
  | .double, _ => popDouble bo
  | .string, _ => popVarstr mSize bo
  | .string32, _ => popVarstr32 mSize bo
  | .pair a b, p => unmarshalPair (unmarshal a p.1) (unmarshal b p.2)
  | .vector a, cc => unmarshalContainer bo (unmarshal a a.empty) pushBack cc
  | .list a, cc => unmarshalContainer bo (unmarshal a a.empty) pushBack cc
  | .set a, set => unmarshalContainer bo (unmarshal a a.empty) (insertUnique a.less) set
  | .map k v, cc =>
      unmarshalContainer bo (unmarshalPair (unmarshal k k.empty) (unmarshal v v.empty))
        (insertUnique (keyLess k.less)) cc
  | .listOfMap k v, cc =>
      unmarshalCompositeContainer bo (unmarshalPair (unmarshal k k.empty) (unmarshal v v.empty))
        (insertUnique (keyLess k.less)) cc
  | .compositeMap k k' v, c =>
      unmarshalCompositeMap bo (unmarshal k k.empty) k.less
        (unmarshalPair (unmarshal k' k'.empty) (unmarshal v v.empty))
        (insertUnique (keyLess k'.less)) c

end

end Unpack

/-! ## Whole packets -/

/-- `PacketToString`, over the `marshal` of the object. -/
def packetToString (stackbuff : Nat → UInt8) (marshal : SerializerM Unit) :
    Except Thrown (List UInt8) := Serializer.output stackbuff marshal

/-- `StringToPacket`, over the `unmarshal` of the object: `true` comes with what was
read, and only an `UnpackError` is caught. -/
def stringToPacket {α : Type} (strIn : List UInt8) (unmarshal : DeserializerM α) :
    Except Thrown (Bool × Option α) :=
  match unmarshal.run strIn with
  | .ok objOut _ => .ok (true, some objOut)
  | .error (.unpackError _) _ => .ok (false, none)
  | .error e _ => .error e

end LinSocketIo.Utils
