/-
LinSocketIo.Utils.PbFields — fields a reader does not know are passed over.

A field is written with `write_tag` and the writer of its payload. A reader
takes the tag and reads the payload by its type, or lets `skip` pass over it;
the two are separate switches. Whatever a reader passes over, it finds the
other fields and nothing is left (`fields_transparent`).

A block behind a varint has three readers, and they take the length at
different widths. `blockReaders_agree_iff` says where that does not matter.
-/
import LinSocketIo.Utils.Pb
import LinSocketIo.Utils.SerializerItems

namespace LinSocketIo.Utils.Pb

open LinSocketIo.Base

/-! ## Fields -/

/-- What follows a tag. -/
inductive Payload where
  | varint (v : Int64)
  /-- A varint that is written with `write_varint32`. -/
  | varint32 (v : Int32)
  | fixed32 (u : UInt32)
  | fixed64 (u : UInt64)
  | varblock (dat : List UInt8)
  | block (dat : List UInt8)
  deriving DecidableEq, Repr

namespace Payload

/-- The wire type. -/
def type : Payload → Int32
  | .varint _ => Tag.varint
  | .varint32 _ => Tag.varint
  | .fixed32 _ => Tag.fixed32
  | .fixed64 _ => Tag.fixed64
  | .varblock _ => Tag.varblock
  | .block _ => Tag.block

/-- The number of bytes of a block. -/
def size : Payload → Nat
  | .varblock dat | .block dat => dat.length
  | _ => 0

/-- What the reader of the type gives: it does not know how a varint was written. -/
def seen : Payload → Payload
  | .varint32 v => .varint v.toInt64
  | p => p

section

variable (vi : ByteBuffer.Varint) (fresh : Nat → UInt8) (bo : ByteOrder)

/-- The writer of the payload. -/
def write : Payload → SerializerM Unit
  | .varint v => Serializer.writeVarint fresh vi v
  | .varint32 v => Serializer.writeVarint32 fresh vi v
  | .fixed32 u => Serializer.writeUInt32 fresh bo u
  | .fixed64 u => Serializer.writeUInt64 fresh bo u
  | .varblock dat => writeBlock vi fresh bo dat Tag.varblock
  | .block dat => writeBlock vi fresh bo dat Tag.block

/-- The payload on the wire. -/
def image : Payload → List UInt8
  | .varint v => vi.writeU64 (vi.zigzag v)
  | .varint32 v => vi.writeU32 (vi.zigzag32 v)
  | .fixed32 u => numberBytes bo 4 u.toNat
  | .fixed64 u => numberBytes bo 8 u.toNat
  | .varblock dat => vi.writeU32 (vi.zigzag32 (Int32.ofNat dat.length)) ++ dat
  | .block dat => numberBytes bo 4 (UInt32.ofNat dat.length).toNat ++ dat

end

end Payload

/-- A field. -/
structure Field where
  key : UInt32
  payload : Payload
  deriving DecidableEq, Repr

/-- The keys and sizes the formats are made for. -/
def Field.Fits (f : Field) : Prop := f.key.toNat < 2 ^ 28 ∧ f.payload.size < 2147483648

instance : DecidablePred Field.Fits := fun _ => inferInstanceAs (Decidable (_ ∧ _))

/-- What a reader finds of a field; a payload that it passed over it does not know. -/
structure Found where
  type : Int32
  key : Int32
  payload : Option Payload
  deriving DecidableEq, Repr

/-- What is to be found of a field that is passed over or not. -/
def Field.found (f : Field) (passed : Bool) : Found :=
  ⟨f.payload.type, f.key.toInt32, if passed then none else some f.payload.seen⟩

section

variable (vi : ByteBuffer.Varint) (fresh : Nat → UInt8) (bo : ByteOrder)

/-- A field is written. -/
def Field.write (f : Field) : SerializerM Unit := do
  writeTag vi fresh f.payload.type.toUInt32 f.key
  f.payload.write vi fresh bo

/-- The field on the wire. -/
def Field.image (f : Field) : List UInt8 :=
  vi.writeU32 (vi.zigzag32 (Tag.make f.payload.type.toUInt32.toInt32 f.key.toInt32)) ++
    f.payload.image vi bo

/-- The reader that matches a type. -/
def readPayload (type : Int32) : DeserializerM Payload :=
  if type = Tag.varint then .varint <$> Deserializer.readVarint vi
  else if type = Tag.fixed32 then .fixed32 <$> Deserializer.readUInt32 bo
  else if type = Tag.fixed64 then .fixed64 <$> Deserializer.readUInt64 bo
  else if type = Tag.block then .block <$> readBlock vi bo type
  else .varblock <$> readBlock vi bo type

/-- A reader of one field. -/
def readField (passed : Bool) : DeserializerM Found := do
  let tag ← readTag vi
  if passed then
    let _ ← skip vi bo (Tag.type tag).toUInt32
    return ⟨Tag.type tag, Tag.key tag, none⟩
  else
    let payload ← readPayload vi bo (Tag.type tag)
    return ⟨Tag.type tag, Tag.key tag, some payload⟩

/-- A reader that passes over some of the fields. -/
def readFields : List Bool → DeserializerM (List Found)
  | [] => return []
  | passed :: rest => do
    let field ← readField vi bo passed
    let fields ← readFields rest
    return field :: fields

end

/-! ## Tags -/

theorem toUInt32_make (type key : UInt32) :
    (Tag.make type.toInt32 key.toInt32).toUInt32 = key <<< 3 ||| (type &&& 7) :=
  UInt32.toBitVec_inj.mp rfl

/-- The number of a tag. -/
theorem toNat_make {type key : UInt32} (htype : type.toNat < 8) (hkey : key.toNat < 2 ^ 28) :
    (Tag.make type.toInt32 key.toInt32).toUInt32.toNat = 8 * key.toNat + type.toNat := by
  have hseven : (7 : UInt32).toNat = 2 ^ 3 - 1 := rfl
  have hthree : (3 : UInt32).toNat % 32 = 3 := rfl
  rw [toUInt32_make, UInt32.toNat_or, UInt32.toNat_and, UInt32.toNat_shiftLeft, hseven, hthree,
    Nat.and_two_pow_sub_one_eq_mod, Nat.mod_eq_of_lt htype,
    Nat.mod_eq_of_lt (by rw [Nat.shiftLeft_eq]; omega), ← Nat.shiftLeft_add_eq_or_of_lt htype,
    Nat.shiftLeft_eq]
  omega

theorem type_eq (tag : UInt32) : Tag.type tag = (UInt32.ofNat (tag.toNat % 8)).toInt32 := by
  unfold Tag.type
  congr 1
  apply UInt32.toNat_inj.mp
  rw [UInt32.toNat_and, UInt32.toNat_ofNat_of_lt' (show tag.toNat % 8 < 2 ^ 32 by omega)]
  exact Nat.and_two_pow_sub_one_eq_mod tag.toNat 3

theorem key_eq (tag : UInt32) : Tag.key tag = (UInt32.ofNat (tag.toNat / 8)).toInt32 := by
  have hlt := tag.toNat_lt
  unfold Tag.key
  congr 1
  apply UInt32.toNat_inj.mp
  rw [UInt32.toNat_shiftRight, UInt32.toNat_ofNat_of_lt' (show tag.toNat / 8 < 2 ^ 32 by omega)]
  exact Nat.shiftRight_eq_div_pow tag.toNat 3

/-- Type and key are recovered from a tag. -/
theorem tag_make {type key : UInt32} (htype : type.toNat < 8) (hkey : key.toNat < 2 ^ 28) :
    Tag.type (Tag.make type.toInt32 key.toInt32).toUInt32 = type.toInt32 ∧
      Tag.key (Tag.make type.toInt32 key.toInt32).toUInt32 = key.toInt32 := by
  have htag := toNat_make htype hkey
  have hlow : (8 * key.toNat + type.toNat) % 8 = type.toNat := by omega
  have hhigh : (8 * key.toNat + type.toNat) / 8 = key.toNat := by omega
  rw [type_eq, key_eq, htag, hlow, hhigh, UInt32.ofNat_toNat, UInt32.ofNat_toNat]
  exact ⟨rfl, rfl⟩

theorem toNat_type_lt (p : Payload) : p.type.toUInt32.toNat < 8 := by
  cases p <;> simp only [Payload.type] <;> decide

/-- A number that went through `int64_t` and back keeps its 32 bits. -/
theorem toUInt32_toInt64 (v : Int32) : v.toInt64.toUInt64.toUInt32 = v.toUInt32 := by
  apply UInt32.toBitVec_inj.mp
  simp only [UInt64.toBitVec_toUInt32, Int64.toBitVec_toUInt64, Int32.toBitVec_toInt64,
    Int32.toBitVec_toUInt32]
  apply BitVec.eq_of_getLsbD_eq
  intro i hi
  rw [BitVec.getLsbD_setWidth, BitVec.getLsbD_signExtend]
  simp only [hi, decide_true, Bool.true_and, if_true]
  have hwide : i < 64 := by omega
  simp only [hwide, decide_true, Bool.true_and]

/-! ## Writing -/

section

variable {vi : ByteBuffer.Varint} (hvi : vi.Inverts) (fresh : Nat → UInt8) (bo : ByteOrder)

include hvi

theorem within_payload (p : Payload) :
    WritesWithin vi.maxVarintBytes (p.write vi fresh bo) (p.image vi bo) := by
  have hzero := Nat.zero_le vi.maxVarintBytes
  cases p with
  | varint v => exact within_writeVarint hvi fresh v
  | varint32 v => exact within_writeVarint32 hvi fresh v
  | fixed32 u => exact (Serializer.within_writeUInt32 fresh bo u).mono hzero
  | fixed64 u => exact (Serializer.within_writeUInt64 fresh bo u).mono hzero
  | varblock dat =>
      exact (within_writeVarint32 hvi fresh _).bind ((Serializer.within_write fresh dat).mono hzero)
  | block dat =>
      exact ((Serializer.within_writeUInt32 fresh bo _).bind
        (Serializer.within_write fresh dat)).mono hzero

theorem within_fields (fields : List Field) :
    WritesWithin vi.maxVarintBytes (fields.forM (Field.write vi fresh bo))
      (fields.flatMap (Field.image vi bo)) :=
  WritesWithin.forM fields fun f _ =>
    (within_writeVarint32 hvi fresh _).bind (within_payload hvi fresh bo f.payload)

end

/-! ## Reading -/

section

variable {vi : ByteBuffer.Varint} (hvi : vi.Inverts) (bo : ByteOrder)

include hvi

theorem reads_readVarint32 (v : Int32) :
    Reads (readVarint32 vi) (vi.writeU32 (vi.zigzag32 v)) v.toUInt32 := by
  have h := (reads_readVarint (hvi.pos32 v) (hvi.read32 v)).map fun i64 => i64.toUInt64.toUInt32
  rwa [toUInt32_toInt64] at h

theorem reads_varblock {dat : List UInt8} (hsize : dat.length < 2147483648) :
    Reads (readVarint32 vi >>= fun sz => Deserializer.read sz.toNat)
      (vi.writeU32 (vi.zigzag32 (Int32.ofNat dat.length)) ++ dat) dat := by
  refine (reads_readVarint32 hvi _).bind (Deserializer.reads_fetch "read" ?_)
  exact (UInt32.toNat_ofNat_of_lt' (show dat.length < 2 ^ 32 by omega)).symm

/-- The reader that matches the type reads the payload. -/
theorem reads_readPayload {p : Payload} (hsize : p.size < 2147483648) :
    Reads (readPayload vi bo p.type) (p.image vi bo) p.seen := by
  cases p with
  | varint v => exact (reads_readVarint (hvi.pos64 v) (hvi.read64 v)).map Payload.varint
  | varint32 v => exact (reads_readVarint (hvi.pos32 v) (hvi.read32 v)).map Payload.varint
  | fixed32 u => exact (Deserializer.reads_readUInt32 bo u).map Payload.fixed32
  | fixed64 u => exact (Deserializer.reads_readUInt64 bo u).map Payload.fixed64
  | varblock dat => exact (reads_varblock hvi hsize).map Payload.varblock
  | block dat =>
      exact (reads_readBytes32 bo (Nat.lt_trans hsize (by decide))).map Payload.block

/-- The `switch` of `skip` passes over exactly the payload. -/
theorem reads_skipPayload {p : Payload} (hsize : p.size < 2147483648) :
    Reads (skipPayload vi bo p.type.toUInt32) (p.image vi bo) () := by
  have hread : ∀ {k : Nat} {w : List UInt8}, w.length = k →
      Reads (Deserializer.read k) w w := fun h => Deserializer.reads_fetch "read" h
  cases p with
  | varint v => exact (reads_readVarint (hvi.pos64 v) (hvi.read64 v)).ignore ()
  | varint32 v => exact (reads_readVarint (hvi.pos32 v) (hvi.read32 v)).ignore ()
  | fixed32 u => exact (hread (length_numberBytes ..)).ignore ()
  | fixed64 u => exact (hread (length_numberBytes ..)).ignore ()
  | varblock dat =>
      refine (reads_readVarint32 hvi _).bind ((hread ?_).ignore ())
      exact (UInt32.toNat_ofNat_of_lt' (Nat.lt_trans hsize (by decide))).symm
  | block dat =>
      refine (Deserializer.reads_readUInt32 bo _).bind ((hread ?_).ignore ())
      exact (UInt32.toNat_ofNat_of_lt' (Nat.lt_trans hsize (by decide))).symm

/-- `skip` passes over the payload and returns its size. -/
theorem reads_skip {p : Payload} (hsize : p.size < 2147483648) :
    Reads (skip vi bo p.type.toUInt32) (p.image vi bo) (toInt (p.image vi bo).length) := by
  intro r
  have hdiff : (((p.image vi bo ++ r).length : Nat) : Int) - (r.length : Nat) =
      ((p.image vi bo).length : Nat) := by
    rw [List.length_append]
    omega
  have hpre : Deserializer.size.run (p.image vi bo ++ r) =
      .ok (p.image vi bo ++ r).length (p.image vi bo ++ r) := rfl
  rw [skip, run_bind_of_ok hpre, run_bind_of_ok (reads_skipPayload hvi bo hsize r)]
  show EStateM.Result.ok (toInt (toInt (p.image vi bo ++ r).length - r.length)) r = _
  rw [toInt_toInt_sub, hdiff]

/-- A field is found, whether its payload is read or passed over. -/
theorem reads_readField {f : Field} (hfits : f.Fits) (passed : Bool) :
    Reads (readField vi bo passed) (f.image vi bo) (f.found passed) := by
  obtain ⟨htype, hkey⟩ := tag_make (toNat_type_lt f.payload) hfits.1
  rw [Int32.toInt32_toUInt32] at htype hkey
  refine (reads_readVarint32 hvi _).bind ?_
  rw [Int32.toInt32_toUInt32, htype, hkey]
  cases passed with
  | true => exact (reads_skip hvi bo hfits.2).ignore _
  | false =>
      exact (reads_readPayload hvi bo hfits.2).map fun p =>
        Found.mk f.payload.type f.key.toInt32 (some p)

/-- The fields are found one after the other. -/
theorem reads_readFields : ∀ {fields : List (Field × Bool)}, (∀ f ∈ fields, f.1.Fits) →
    Reads (readFields vi bo (fields.map Prod.snd))
      ((fields.map Prod.fst).flatMap (Field.image vi bo))
      (fields.map fun f => f.1.found f.2)
  | [], _ => Reads.pure []
  | f :: fields, hfits => by
      have hrest := reads_readFields fun g hg => hfits g (List.mem_cons_of_mem f hg)
      exact (reads_readField hvi bo (hfits f List.mem_cons_self) f.2).bind
        (hrest.map fun found => f.1.found f.2 :: found)

/-- **Unknown fields are passed over.** Where the limit of the buffer allows what it holds, the
fields and the room that a varint is given, the fields are written and found by a reader that
lets `skip` pass over any of them: each with its type and key, those that were read with their
payloads, and nothing is left. -/
theorem fields_transparent (fresh : Nat → UInt8) (fields : List (Field × Bool))
    (hfits : ∀ f ∈ fields, f.1.Fits) {b : ByteBuffer} (hb : b.Wf)
    (hlimit : b.size + ((fields.map Prod.fst).flatMap (Field.image vi bo)).length +
      vi.maxVarintBytes ≤ b.limit) :
    ∃ b' dat, ((fields.map Prod.fst).forM (Field.write vi fresh bo)).run b = .ok () b' ∧
      Serializer.data b.size b' = .ok dat ∧
      (readFields vi bo (fields.map Prod.snd)).run dat =
        .ok (fields.map fun f => f.1.found f.2) [] := by
  rcases within_fields hvi fresh bo (fields.map Prod.fst) b hb with
    ⟨b', hrun, hb', hcont, -⟩ | ⟨b', -, hover⟩
  · have hread := reads_readFields hvi bo hfits []
    rw [List.append_nil] at hread
    exact ⟨b', _, hrun, Serializer.data_of_contents hb hb' hcont, hread⟩
  · exact absurd hlimit (Nat.not_le_of_lt hover)

end

/-- Fields of every type, some of them passed over. -/
def someFields : List (Field × Bool) :=
  [(⟨1, .varint (-5)⟩, false), (⟨300, .block [1, 2]⟩, true), (⟨268435455, .varblock [7]⟩, false),
    (⟨2, .fixed64 9⟩, true), (⟨3, .fixed32 4⟩, false), (⟨0, .varint32 (-1)⟩, false)]

/-- Six fields behind three bytes, in network byte order: all are written, and found. -/
theorem fields_transparent_some :
    ∃ b' dat, ((someFields.map Prod.fst).forM (Field.write base128 (fun _ => 0) .bigEndian)).run
        inUse = .ok () b' ∧
      Serializer.data inUse.size b' = .ok dat ∧
      (readFields base128 .bigEndian (someFields.map Prod.snd)).run dat =
        .ok (someFields.map fun f => f.1.found f.2) [] :=
  fields_transparent base128_inverts .bigEndian (fun _ => 0) someFields (by decide) wf_inUse
    (by decide)

/-! ## The readers of a block behind a varint -/

/-- `read_block`, `skip` and `read_bytes` return on the same inputs and leave the same, and the
two that return bytes return the same. -/
def BlockReadersAgree (vi : ByteBuffer.Varint) (bo : ByteOrder) (data : List UInt8) : Prop :=
  (∀ dat r, (readBlock vi bo Tag.varblock).run data = .ok dat r ↔
      (Deserializer.readBytes vi).run data = .ok dat r) ∧
    ∀ r, (∃ n, (skip vi bo Tag.varblock.toUInt32).run data = .ok n r) ↔
      ∃ dat, (Deserializer.readBytes vi).run data = .ok dat r

section

variable {vi : ByteBuffer.Varint} (bo : ByteOrder) {data : List UInt8}

theorem run_readVarint_none (h : (vi.read data).1 ≤ 0) :
    (Deserializer.readVarint vi).run data =
      .error (.runtimeException "Deserializer.read_varint(): not enough data") data := by
  simp only [Deserializer.readVarint, EStateM.run_bind, EStateM.run_get, if_pos h]
  rfl

theorem run_readVarint_some (h : ¬ (vi.read data).1 ≤ 0) :
    (Deserializer.readVarint vi).run data =
      .ok (vi.read data).2 (data.drop (vi.read data).1.toNat) := by
  simp only [Deserializer.readVarint, EStateM.run_bind, EStateM.run_get, if_neg h,
    EStateM.run_set, EStateM.run_pure]

theorem run_readVarint32_some (h : ¬ (vi.read data).1 ≤ 0) :
    (readVarint32 vi).run data =
      .ok (vi.read data).2.toUInt64.toUInt32 (data.drop (vi.read data).1.toNat) := by
  rw [readVarint32, map_eq_pure_bind, run_bind_of_ok (run_readVarint_some h)]
  rfl

/-- `skip` returns where `read_block` does and leaves the same. -/
theorem skip_varblock_iff (r : List UInt8) :
    (∃ n, (skip vi bo Tag.varblock.toUInt32).run data = .ok n r) ↔
      ∃ dat, (readBlock vi bo Tag.varblock).run data = .ok dat r := by
  have hpayload : skipPayload vi bo Tag.varblock.toUInt32 =
      (readBlock vi bo Tag.varblock >>= fun _ => pure ()) := by
    show (readVarint32 vi >>= fun sz => Deserializer.read sz.toNat >>= fun _ => pure ()) =
      ((readVarint32 vi >>= fun sz => Deserializer.read sz.toNat) >>= fun _ => pure ())
    rw [bind_assoc]
  have hsize : Deserializer.size.run data = .ok data.length data := rfl
  rw [skip, run_bind_of_ok hsize, hpayload, bind_assoc]
  cases hrun : (readBlock vi bo Tag.varblock).run data with
  | ok dat t =>
      rw [run_bind_of_ok hrun]
      constructor
      · rintro ⟨n, h⟩
        cases h
        exact ⟨dat, rfl⟩
      · rintro ⟨dat', h⟩
        cases h
        exact ⟨_, rfl⟩
  | error e t =>
      rw [run_bind_of_error hrun]
      constructor <;> rintro ⟨_, h⟩ <;> cases h

/-- **The three readers of a block.** `read_block` and `skip` take the low 32 bits of the
length and `read_bytes` all 64. They agree on an input if and only if there is no varint, the
length fits 32 bits, or not even its low bits are there. -/
theorem blockReaders_agree_iff :
    BlockReadersAgree vi bo data ↔
      (vi.read data).1 ≤ 0 ∨ (vi.read data).2.toUInt64.toNat < 2 ^ 32 ∨
        (data.drop (vi.read data).1.toNat).length < (vi.read data).2.toUInt64.toUInt32.toNat := by
  by_cases hnone : (vi.read data).1 ≤ 0
  · have hvarint := run_readVarint_none hnone
    have hblock : (readBlock vi bo Tag.varblock).run data = .error _ data :=
      run_bind_of_error (x := readVarint32 vi) (by
        rw [readVarint32, map_eq_pure_bind, run_bind_of_error hvarint])
    have hbytes : (Deserializer.readBytes vi).run data = .error _ data := run_bind_of_error hvarint
    refine iff_of_true ⟨fun dat r => ?_, fun r => ?_⟩ (Or.inl hnone)
    · rw [hblock, hbytes]
    · rw [skip_varblock_iff, hblock, hbytes]
  · have hblock : (readBlock vi bo Tag.varblock).run data =
        (Deserializer.read (vi.read data).2.toUInt64.toUInt32.toNat).run
          (data.drop (vi.read data).1.toNat) := run_bind_of_ok (run_readVarint32_some hnone)
    have hbytes : (Deserializer.readBytes vi).run data =
        (Deserializer.read (vi.read data).2.toUInt64.toNat).run
          (data.drop (vi.read data).1.toNat) := run_bind_of_ok (run_readVarint_some hnone)
    have hlow : (vi.read data).2.toUInt64.toUInt32.toNat = (vi.read data).2.toUInt64.toNat % 2 ^ 32 :=
      UInt64.toNat_toUInt32 _
    unfold BlockReadersAgree
    simp only [skip_varblock_iff, hblock, hbytes, hlow]
    rw [or_iff_right hnone]
    generalize (vi.read data).2.toUInt64.toNat = len
    generalize data.drop (vi.read data).1.toNat = rest
    by_cases hsmall : len < 2 ^ 32
    · rw [Nat.mod_eq_of_lt hsmall]
      exact iff_of_true ⟨fun _ _ => Iff.rfl, fun _ => Iff.rfl⟩ (Or.inl hsmall)
    · rw [or_iff_right hsmall]
      by_cases hshort : rest.length < len % 2 ^ 32
      · -- nobody returns
        have hle := Nat.mod_le len (2 ^ 32)
        have hlow := Deserializer.run_fetch_short "read" hshort
        have hall := Deserializer.run_fetch_short "read" (Nat.lt_of_lt_of_le hshort hle)
        refine iff_of_true ?_ hshort
        simp only [Deserializer.read, hlow, hall]
        exact ⟨fun _ _ => trivial, fun _ => trivial⟩
      · -- the low bits are there, and all of them are more
        refine iff_of_false (fun h => ?_) hshort
        have htake : (rest.take (len % 2 ^ 32)).length = len % 2 ^ 32 :=
          List.length_take_of_le (Nat.not_lt.mp hshort)
        have hlow := Deserializer.run_fetch "read" htake (rest.drop (len % 2 ^ 32))
        rw [List.take_append_drop] at hlow
        have hall := (h.1 _ _).mp hlow
        by_cases hlong : rest.length < len
        · rw [Deserializer.read, Deserializer.run_fetch_short "read" hlong] at hall
          cases hall
        · have hrun := Deserializer.run_fetch "read"
            (List.length_take_of_le (Nat.not_lt.mp hlong)) (rest.drop len)
          rw [List.take_append_drop] at hrun
          rw [Deserializer.read, hrun] at hall
          have hsame := congrArg List.length (EStateM.Result.ok.inj hall).1
          rw [htake, List.length_take_of_le (Nat.not_lt.mp hlong)] at hsame
          omega

end

/-- A block that claims 2^32 + 1 bytes and has one: `read_block` returns the byte, `skip` passes
over it, and `read_bytes` throws. -/
theorem long_length_is_cut :
    (readBlock base128 .littleEndian Tag.varblock).run [130, 128, 128, 128, 32, 9] = .ok [9] [] ∧
      (skip base128 .littleEndian Tag.varblock.toUInt32).run [130, 128, 128, 128, 32, 9] =
        .ok 6 [] ∧
      (Deserializer.readBytes base128).run [130, 128, 128, 128, 32, 9] =
        .error (.runtimeException "Deserializer.read(): not enough data") [9] ∧
      ¬ BlockReadersAgree base128 .littleEndian [130, 128, 128, 128, 32, 9] := by
  have hblock : (readBlock base128 .littleEndian Tag.varblock).run [130, 128, 128, 128, 32, 9] =
      .ok [9] [] := rfl
  have hbytes : (Deserializer.readBytes base128).run [130, 128, 128, 128, 32, 9] =
      .error (.runtimeException "Deserializer.read(): not enough data") [9] := rfl
  refine ⟨hblock, ?_, hbytes, fun h => ?_⟩
  · have hskip : (skip base128 .littleEndian Tag.varblock.toUInt32).run [130, 128, 128, 128, 32, 9] =
        .ok (toInt (toInt 6 - 0)) [] := rfl
    rw [hskip, toInt_toInt_sub, toInt_of_range (by decide) (by decide)]
    rfl
  · have hall := (h.1 [9] []).mp hblock
    rw [hbytes] at hall
    cases hall

end LinSocketIo.Utils.Pb
