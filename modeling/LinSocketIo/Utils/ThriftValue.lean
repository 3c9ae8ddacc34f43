/-
LinSocketIo.Utils.ThriftValue — the values of the Thrift binary format.

`Value` is the grammar of the values that the helpers of `serializer.h` write,
`wire` the bytes of one, and `write` the calls that write it
(`writes_write`). A container names the type of its elements; in a
well-formed value they have it, and every size fits its length field.
-/
import LinSocketIo.Utils.SerializerTheorems
import LinSocketIo.Utils.Thrift

namespace LinSocketIo.Utils.Thrift

open LinSocketIo.Base

mutual

/-- A value. -/
inductive Value where
  | bool (b : Bool)
  | byte (b : UInt8)
  | i16 (i : Int16)
  | i32 (i : Int32)
  | i64 (i : Int64)
  | u64 (u : UInt64)
  | double (d : UInt64)
  | string (s : List UInt8)
  | utf8 (s : List UInt8)
  | utf16 (s : List UInt8)
  | list (elem : TType) (vs : Values)
  | set (elem : TType) (vs : Values)
  | map (key val : TType) (es : Entries)
  | struct (fs : Fields)

/-- The elements of a list or a set. -/
inductive Values where
  | nil
  | cons (v : Value) (vs : Values)

/-- The keys and values of a map. -/
inductive Entries where
  | nil
  | cons (k v : Value) (es : Entries)

/-- The fields of a struct, up to the stop byte. -/
inductive Fields where
  | stop
  | cons (id : Int16) (v : Value) (fs : Fields)

end

/-- The type of a value. -/
def Value.type : Value → TType
  | .bool _ => .bool
  | .byte _ => .byte
  | .i16 _ => .i16
  | .i32 _ => .i32
  | .i64 _ => .i64
  | .u64 _ => .u64
  | .double _ => .double
  | .string _ => .string
  | .utf8 _ => .utf8
  | .utf16 _ => .utf16
  | .list _ _ => .list
  | .set _ _ => .set
  | .map _ _ _ => .map
  | .struct _ => .struct

/-- How many there are. -/
def Values.count : Values → Nat
  | .nil => 0
  | .cons _ vs => vs.count + 1

/-- How many there are. -/
def Entries.count : Entries → Nat
  | .nil => 0
  | .cons _ _ es => es.count + 1

/-- A string behind its length. -/
def stringWire (s : List UInt8) : List UInt8 := numberBytes .bigEndian 4 s.length ++ s

/-- What `writeListBegin` and `writeSetBegin` write. -/
def listBegin (elem : TType) (n : Nat) : List UInt8 := elem.code :: numberBytes .bigEndian 4 n

/-- What `writeMapBegin` writes. -/
def mapBegin (key val : TType) (n : Nat) : List UInt8 :=
  key.code :: val.code :: numberBytes .bigEndian 4 n

/-- What `writeFieldBegin` writes. -/
def fieldBegin (t : TType) (id : Int16) : List UInt8 :=
  t.code :: numberBytes .bigEndian 2 id.toUInt16.toNat

mutual

/-- The bytes of a value. -/
def Value.wire : Value → List UInt8
  | .bool b => [if b then 1 else 0]
  | .byte b => [b]
  | .i16 i => numberBytes .bigEndian 2 i.toUInt16.toNat
  | .i32 i => numberBytes .bigEndian 4 i.toUInt32.toNat
  | .i64 i => numberBytes .bigEndian 8 i.toUInt64.toNat
  | .u64 u => numberBytes .bigEndian 8 u.toNat
  | .double d => numberBytes .bigEndian 8 d.toNat
  | .string s => stringWire s
  | .utf8 s => stringWire s
  | .utf16 s => stringWire s
  | .list elem vs => listBegin elem vs.count ++ vs.wire
  | .set elem vs => listBegin elem vs.count ++ vs.wire
  | .map key val es => mapBegin key val es.count ++ es.wire
  | .struct fs => fs.wire

/-- The bytes of the elements. -/
def Values.wire : Values → List UInt8
  | .nil => []
  | .cons v vs => v.wire ++ vs.wire

/-- The bytes of the keys and values. -/
def Entries.wire : Entries → List UInt8
  | .nil => []
  | .cons k v es => k.wire ++ (v.wire ++ es.wire)

/-- The bytes of the fields and of the stop byte. -/
def Fields.wire : Fields → List UInt8
  | .stop => [TType.stop.code]
  | .cons id v fs => fieldBegin v.type id ++ (v.wire ++ fs.wire)

end

mutual

/-- The members of every container have the types it names, and every size fits its length
field. -/
def Value.WellFormed : Value → Prop
  | .string s => s.length < 4294967296
  | .utf8 s => s.length < 4294967296
  | .utf16 s => s.length < 4294967296
  | .list elem vs => vs.count < 4294967296 ∧ vs.WellFormed elem
  | .set elem vs => vs.count < 4294967296 ∧ vs.WellFormed elem
  | .map key val es => es.count < 4294967296 ∧ es.WellFormed key val
  | .struct fs => fs.WellFormed
  | _ => True

/-- The elements have the type and are well formed. -/
def Values.WellFormed (elem : TType) : Values → Prop
  | .nil => True
  | .cons v vs => (v.type = elem ∧ v.WellFormed) ∧ vs.WellFormed elem

/-- The keys and values have the types and are well formed. -/
def Entries.WellFormed (key val : TType) : Entries → Prop
  | .nil => True
  | .cons k v es =>
      (k.type = key ∧ k.WellFormed) ∧ (v.type = val ∧ v.WellFormed) ∧ es.WellFormed key val

/-- The members are well formed. -/
def Fields.WellFormed : Fields → Prop
  | .stop => True
  | .cons _ v fs => v.WellFormed ∧ fs.WellFormed

end

section

open Serializer

variable (fresh : Nat → UInt8)

mutual

/-- The calls that write a value. -/
def Value.write : Value → SerializerM Unit
  | .bool b => writeByte fresh (if b then 1 else 0)
  | .byte b => writeByte fresh b
  | .i16 i => writeInt16 fresh .bigEndian i
  | .i32 i => writeInt32 fresh .bigEndian i
  | .i64 i => writeInt64 fresh .bigEndian i
  | .u64 u => writeUInt64 fresh .bigEndian u
  | .double d => writeDouble fresh .bigEndian d
  | .string s => writeString32 fresh .bigEndian s
  | .utf8 s => writeString32 fresh .bigEndian s
  | .utf16 s => writeString32 fresh .bigEndian s
  | .list elem vs => do
      writeListBegin fresh elem (UInt32.ofNat vs.count)
      vs.write
  | .set elem vs => do
      writeSetBegin fresh elem (UInt32.ofNat vs.count)
      vs.write
  | .map key val es => do
      writeMapBegin fresh key val (UInt32.ofNat es.count)
      es.write
  | .struct fs => fs.write

/-- The calls that write the elements. -/
def Values.write : Values → SerializerM Unit
  | .nil => pure ()
  | .cons v vs => do
      v.write
      vs.write

/-- The calls that write the keys and values. -/
def Entries.write : Entries → SerializerM Unit
  | .nil => pure ()
  | .cons k v es => do
      k.write
      v.write
      es.write

/-- The calls that write the fields and the stop byte. -/
def Fields.write : Fields → SerializerM Unit
  | .stop => writeByte fresh TType.stop.code
  | .cons id v fs => do
      writeFieldBegin fresh v.type id
      v.write
      fs.write

end

end

/-! ## Sizes -/

@[simp] theorem length_stringWire (s : List UInt8) : (stringWire s).length = s.length + 4 := by
  simp [stringWire, Nat.add_comm]

@[simp] theorem length_listBegin (elem : TType) (n : Nat) : (listBegin elem n).length = 5 := by
  simp [listBegin]

@[simp] theorem length_mapBegin (key val : TType) (n : Nat) :
    (mapBegin key val n).length = 6 := by
  simp [mapBegin]

@[simp] theorem length_fieldBegin (t : TType) (id : Int16) : (fieldBegin t id).length = 3 := by
  simp [fieldBegin]

theorem Fields.length_wire_pos : ∀ fs : Fields, 0 < fs.wire.length
  | .stop => Nat.zero_lt_one
  | .cons id v fs => by
      rw [Fields.wire, List.length_append, length_fieldBegin]
      omega

/-- No value is empty on the wire. -/
theorem Value.length_wire_pos : ∀ v : Value, 0 < v.wire.length
  | .bool _ | .byte _ => Nat.zero_lt_one
  | .i16 _ | .i32 _ | .i64 _ | .u64 _ | .double _ => by simp [Value.wire]
  | .string _ | .utf8 _ | .utf16 _ => by simp [Value.wire]
  | .list _ _ | .set _ _ | .map _ _ _ => by
      simp only [Value.wire, List.length_append, length_listBegin, length_mapBegin]
      omega
  | .struct fs => fs.length_wire_pos

/-- No value is of a type without values. -/
theorem Value.type_ne_stop (v : Value) : v.type ≠ .stop := by
  cases v <;> exact TType.noConfusion

/-! ## Writing a value -/

section

open Serializer

variable (fresh : Nat → UInt8)

theorem writes_writeListBegin (elem : TType) {n : Nat} (h : n < 4294967296) :
    Writes (writeListBegin fresh elem (UInt32.ofNat n)) (listBegin elem n) := by
  have hsize := writes_writeUInt32 fresh .bigEndian (UInt32.ofNat n)
  rw [UInt32.toNat_ofNat_of_lt' h] at hsize
  exact (writes_writeByte fresh elem.code).bind hsize

theorem writes_writeMapBegin (key val : TType) {n : Nat} (h : n < 4294967296) :
    Writes (writeMapBegin fresh key val (UInt32.ofNat n)) (mapBegin key val n) := by
  have hsize := writes_writeUInt32 fresh .bigEndian (UInt32.ofNat n)
  rw [UInt32.toNat_ofNat_of_lt' h] at hsize
  exact (writes_writeByte fresh key.code).bind ((writes_writeByte fresh val.code).bind hsize)

theorem writes_writeFieldBegin (t : TType) (id : Int16) :
    Writes (writeFieldBegin fresh t id) (fieldBegin t id) :=
  (writes_writeByte fresh t.code).bind (writes_writeInt16 fresh .bigEndian id)

mutual

/-- The calls write the bytes of the value. -/
theorem writes_write : ∀ v : Value, v.WellFormed → Writes (v.write fresh) v.wire
  | .bool b, _ => writes_writeByte fresh (if b then 1 else 0)
  | .byte b, _ => writes_writeByte fresh b
  | .i16 i, _ => writes_writeInt16 fresh .bigEndian i
  | .i32 i, _ => writes_writeInt32 fresh .bigEndian i
  | .i64 i, _ => writes_writeInt64 fresh .bigEndian i
  | .u64 u, _ => writes_writeUInt64 fresh .bigEndian u
  | .double d, _ => writes_writeDouble fresh .bigEndian d
  | .string _, h => writes_writeString32 fresh .bigEndian h
  | .utf8 _, h => writes_writeString32 fresh .bigEndian h
  | .utf16 _, h => writes_writeString32 fresh .bigEndian h
  | .list elem vs, h => by
      rw [Value.wire, Value.write]
      exact (writes_writeListBegin fresh elem h.1).bind (writes_values vs elem h.2)
  | .set elem vs, h => by
      rw [Value.wire, Value.write]
      exact (writes_writeListBegin fresh elem h.1).bind (writes_values vs elem h.2)
  | .map key val es, h => by
      rw [Value.wire, Value.write]
      exact (writes_writeMapBegin fresh key val h.1).bind (writes_entries es key val h.2)
  | .struct fs, h => by
      rw [Value.wire, Value.write]
      exact writes_fields fs h

theorem writes_values : ∀ (vs : Values) (elem : TType), vs.WellFormed elem →
    Writes (vs.write fresh) vs.wire
  | .nil, _, _ => Writes.pure
  | .cons v vs, elem, h => by
      rw [Values.wire, Values.write]
      exact (writes_write v h.1.2).bind (writes_values vs elem h.2)

theorem writes_entries : ∀ (es : Entries) (key val : TType), es.WellFormed key val →
    Writes (es.write fresh) es.wire
  | .nil, _, _, _ => Writes.pure
  | .cons k v es, key, val, h => by
      rw [Entries.wire, Entries.write]
      exact (writes_write k h.1.2).bind
        ((writes_write v h.2.1.2).bind (writes_entries es key val h.2.2))

theorem writes_fields : ∀ fs : Fields, fs.WellFormed → Writes (fs.write fresh) fs.wire
  | .stop, _ => writes_writeByte fresh TType.stop.code
  | .cons id v fs, h => by
      rw [Fields.wire, Fields.write]
      exact (writes_writeFieldBegin fresh v.type id).bind
        ((writes_write v h.1).bind (writes_fields fs h.2))

end

end

end LinSocketIo.Utils.Thrift
