/-
LinSocketIo.Utils.PacketTheorems — packing and unpacking are inverse, and what
unpacking does on any bytes.

`wire` is the image of a value. Packing writes it (`writes_marshal`), and
unpacking it into an empty target gives the value (`reads_unmarshal`): the
elements of a set or a map come in their order, so each insertion puts its
element last.

For other inputs a schema has two languages: `whole`, the images of its shape,
and `cutInString`, the inputs that end inside the body of a string. Unpacking
returns where a word of the first comes first and throws an `UnpackError` on
the second (`accepts_unmarshal`); every other input makes one of the reads of
the base class throw, which is another exception.

* `unmarshal_marshal` — the round trip, for every schema and value.
* `stringToPacket_reports_iff` — `StringToPacket` reports an input that is too
  short exactly where it ends inside the body of a string.
-/
import LinSocketIo.Utils.SerializerTheorems
import LinSocketIo.Utils.Packet

namespace LinSocketIo.Utils

open LinSocketIo.Base

/-! ## Values -/

/-- A container whose size fits its length field, with elements that satisfy `P`. -/
def ContainerOf {α : Type} (P : α → Prop) (c : List α) : Prop :=
  c.length < 4294967296 ∧ ∀ x ∈ c, P x

/-- The elements are in increasing order. -/
def Sorted {α : Type} (lt : α → α → Bool) (c : List α) : Prop := c.Pairwise fun x y => lt x y = true

/-- The values that a C++ object of the type can hold and that have an image: strings and
containers of the sizes their length fields are made for, sets and maps in order. -/
def Schema.Valid : (s : Schema) → s.Val → Prop
  | .string, str => str.length ≤ 65535
  | .string32, str => str.length < 4294967296
  | .pair a b, p => a.Valid p.1 ∧ b.Valid p.2
  | .vector a, c => ContainerOf a.Valid c
  | .list a, c => ContainerOf a.Valid c
  | .set a, c => ContainerOf a.Valid c ∧ Sorted a.less c
  | .map k v, c => ContainerOf (fun p => k.Valid p.1 ∧ v.Valid p.2) c ∧ Sorted (keyLess k.less) c
  | .listOfMap k v, c =>
      ContainerOf
        (fun m => ContainerOf (fun p => k.Valid p.1 ∧ v.Valid p.2) m ∧ Sorted (keyLess k.less) m) c
  | .compositeMap k k' v, c =>
      ContainerOf
        (fun q => k.Valid q.1 ∧ ContainerOf (fun p => k'.Valid p.1 ∧ v.Valid p.2) q.2 ∧
          Sorted (keyLess k'.less) q.2) c ∧
        Sorted (keyLess k.less) c
  | _, _ => True

/-- `Varstr::m_size` holds every length that is assigned to it. -/
def KeepsLengths (mSize : Nat → Nat) : Prop := ∀ n < 4294967296, mSize n = n

/-! ## Images -/

/-- The image of a container. -/
def containerBytes {α : Type} (bo : ByteOrder) (image : α → List UInt8) (c : List α) :
    List UInt8 := numberBytes bo 4 c.length ++ c.flatMap image

/-- The image of a pair. -/
def pairBytes {α β : Type} (first : α → List UInt8) (second : β → List UInt8) (p : α × β) :
    List UInt8 := first p.1 ++ second p.2

/-- The image of a value. -/
def Schema.wire (bo : ByteOrder) : (s : Schema) → s.Val → List UInt8
  | .bool, sign => [if sign then 1 else 0]
  | .uint8, u8 => [u8]
  | .int8, i8 => [i8.toUInt8]
  | .uint16, u16 => numberBytes bo 2 u16.toNat
  | .int16, i16 => numberBytes bo 2 i16.toUInt16.toNat
  | .uint32, u32 => numberBytes bo 4 u32.toNat
  | .int32, i32 => numberBytes bo 4 i32.toUInt32.toNat
  | .uint64, u64 => numberBytes bo 8 u64.toNat
  | .int64, i64 => numberBytes bo 8 i64.toUInt64.toNat
  | .double, d => numberBytes bo 8 d.toNat
  | .string, str => numberBytes bo 2 str.length ++ str
  | .string32, str => numberBytes bo 4 str.length ++ str
  | .pair a b, p => pairBytes (a.wire bo) (b.wire bo) p
  | .vector a, c => containerBytes bo (a.wire bo) c
  | .list a, c => containerBytes bo (a.wire bo) c
  | .set a, c => containerBytes bo (a.wire bo) c
  | .map k v, c => containerBytes bo (pairBytes (k.wire bo) (v.wire bo)) c
  | .listOfMap k v, c =>
      containerBytes bo (containerBytes bo (pairBytes (k.wire bo) (v.wire bo))) c
  | .compositeMap k k' v, c =>
      containerBytes bo
        (pairBytes (k.wire bo) (containerBytes bo (pairBytes (k'.wire bo) (v.wire bo)))) c

namespace Pack

variable (fresh : Nat → UInt8) (bo : ByteOrder) {α β : Type}

theorem writes_pushVarstr {str : List UInt8} (h : str.length ≤ 65535) :
    Writes (pushVarstr fresh bo str) (numberBytes bo 2 str.length ++ str) := by
  have hlen := Serializer.writes_writeUInt16 fresh bo (UInt16.ofNat str.length)
  rw [UInt16.toNat_ofNat_of_lt' (show str.length < 2 ^ 16 by omega)] at hlen
  rw [pushVarstr, if_neg (Nat.not_lt.mpr h)]
  exact hlen.bind (Serializer.writes_write fresh str)

theorem writes_pushVarstr32 {str : List UInt8} (h : str.length < 4294967296) :
    Writes (pushVarstr32 fresh bo str) (numberBytes bo 4 str.length ++ str) := by
  rw [pushVarstr32, if_neg (by omega)]
  exact Serializer.writes_writeString32 fresh bo h

theorem writes_marshalPair {first : α → SerializerM Unit} {second : β → SerializerM Unit}
    {image : α → List UInt8} {image' : β → List UInt8} {p : α × β}
    (h : Writes (first p.1) (image p.1)) (h' : Writes (second p.2) (image' p.2)) :
    Writes (marshalPair first second p) (pairBytes image image' p) :=
  h.bind h'

/-- The length field and the elements, by whatever loop they are written. -/
theorem writes_container {c : List α} {loop : SerializerM Unit} {image : α → List UInt8}
    (hc : c.length < 4294967296) (hloop : Writes loop (c.flatMap image)) :
    Writes (do pushUInt32 fresh bo (UInt32.ofNat c.length); loop) (containerBytes bo image c) := by
  have hlen := Serializer.writes_writeUInt32 fresh bo (UInt32.ofNat c.length)
  rw [UInt32.toNat_ofNat_of_lt' hc] at hlen
  exact hlen.bind hloop

theorem writes_marshalContainer {P : α → Prop} {elem : α → SerializerM Unit}
    {image : α → List UInt8} (helem : ∀ x, P x → Writes (elem x) (image x)) {c : List α}
    (hc : ContainerOf P c) : Writes (marshalContainer fresh bo elem c) (containerBytes bo image c) :=
  writes_container fresh bo hc.1 (Writes.forM c fun x hx => helem x (hc.2 x hx))

/-- Packing writes the image. -/
theorem writes_marshal : ∀ (s : Schema) (v : s.Val), s.Valid v →
    Writes (marshal fresh bo s v) (s.wire bo v)
  | .bool, sign, _ => Serializer.writes_write fresh [if sign then 1 else 0]
  | .uint8, u8, _ => Serializer.writes_write fresh [u8]
  | .int8, i8, _ => Serializer.writes_write fresh [i8.toUInt8]
  | .uint16, u16, _ => Serializer.writes_writeUInt16 fresh bo u16
  | .int16, i16, _ => Serializer.writes_writeUInt16 fresh bo i16.toUInt16
  | .uint32, u32, _ => Serializer.writes_writeUInt32 fresh bo u32
  | .int32, i32, _ => Serializer.writes_writeUInt32 fresh bo i32.toUInt32
  | .uint64, u64, _ => Serializer.writes_writeUInt64 fresh bo u64
  | .int64, i64, _ => Serializer.writes_writeUInt64 fresh bo i64.toUInt64
  | .double, d, _ => Serializer.writes_writeDouble fresh bo d
  | .string, _, h => writes_pushVarstr fresh bo h
  | .string32, _, h => writes_pushVarstr32 fresh bo h
  | .pair a b, p, h => writes_marshalPair (writes_marshal a p.1 h.1) (writes_marshal b p.2 h.2)
  | .vector a, _, h => writes_marshalContainer fresh bo (writes_marshal a) h
  | .list a, _, h => writes_marshalContainer fresh bo (writes_marshal a) h
  | .set a, _, h => writes_marshalContainer fresh bo (writes_marshal a) h.1
  | .map k v, _, h =>
      writes_marshalContainer fresh bo (fun p hp =>
        writes_marshalPair (writes_marshal k p.1 hp.1) (writes_marshal v p.2 hp.2)) h.1
  | .listOfMap k v, _, h =>
      writes_marshalContainer fresh bo (fun _ hm =>
        writes_marshalContainer fresh bo (fun p hp =>
          writes_marshalPair (writes_marshal k p.1 hp.1) (writes_marshal v p.2 hp.2)) hm.1) h
  | .compositeMap k k' v, _, h =>
      writes_marshalContainer fresh bo (fun q hq =>
        (writes_marshal k q.1 hq.1).bind (writes_marshalContainer fresh bo (fun p hp =>
          writes_marshalPair (writes_marshal k' p.1 hp.1) (writes_marshal v p.2 hp.2)) hq.2.1)) h.1

end Pack

/-! ## Reading an image -/

theorem foldl_pushBack {α : Type} : ∀ c c' : List α, c'.foldl pushBack c = c ++ c'
  | c, [] => (List.append_nil c).symm
  | c, x :: c' => by
      rw [List.foldl_cons, foldl_pushBack, pushBack, List.append_assoc, List.singleton_append]

/-- An element after all others is put last. -/
theorem insertUnique_last {α : Type} {lt : α → α → Bool} {x : α} : ∀ {c : List α},
    (∀ y ∈ c, lt y x = true) → insertUnique lt c x = c ++ [x]
  | [], _ => rfl
  | y :: ys, h => by
      rw [insertUnique, if_pos (h y List.mem_cons_self),
        insertUnique_last fun z hz => h z (List.mem_cons_of_mem y hz), List.cons_append]

/-- Elements that are inserted in their order stay in it. -/
theorem foldl_insertUnique {α : Type} {lt : α → α → Bool} : ∀ {c c' : List α},
    Sorted lt (c ++ c') → c'.foldl (insertUnique lt) c = c ++ c'
  | c, [], _ => (List.append_nil c).symm
  | c, x :: c', h => by
      have hlast : ∀ y ∈ c, lt y x = true := fun y hy =>
        (List.pairwise_append.mp h).2.2 y hy x List.mem_cons_self
      have hrest : Sorted lt ((c ++ [x]) ++ c') := by
        rwa [List.append_assoc, List.singleton_append]
      rw [List.foldl_cons, insertUnique_last hlast, foldl_insertUnique hrest, List.append_assoc,
        List.singleton_append]

namespace Unpack

open Deserializer

variable {mSize : Nat → Nat} (bo : ByteOrder) {α β : Type}

theorem reads_popFetchPtr (w : List UInt8) : Reads (popFetchPtr w.length) w w := by
  intro r
  have hlen : ¬ (w ++ r).length < w.length := by simp
  have hskip : (skip w.length).run (w ++ r) = .ok () r := run_bind_of_ok (run_fetch _ rfl r)
  simp only [popFetchPtr, EStateM.run_bind, EStateM.run_get, if_neg hlen, hskip, EStateM.run_pure,
    List.take_left']

/-- A string behind its length field. -/
theorem reads_popVarstr (hm : KeepsLengths mSize) {str : List UInt8} (h : str.length ≤ 65535) :
    Reads (popVarstr mSize bo) (numberBytes bo 2 str.length ++ str) str := by
  have hlen : (UInt16.ofNat str.length).toNat = str.length :=
    UInt16.toNat_ofNat_of_lt' (show str.length < 2 ^ 16 by omega)
  have hcount := reads_readUInt16 bo (UInt16.ofNat str.length)
  rw [hlen] at hcount
  refine hcount.bind ?_
  rw [hlen, hm _ (by omega)]
  exact reads_popFetchPtr str

theorem reads_popVarstr32 (hm : KeepsLengths mSize) {str : List UInt8}
    (h : str.length < 4294967296) :
    Reads (popVarstr32 mSize bo) (numberBytes bo 4 str.length ++ str) str := by
  have hlen : (UInt32.ofNat str.length).toNat = str.length := UInt32.toNat_ofNat_of_lt' h
  have hcount := reads_readUInt32 bo (UInt32.ofNat str.length)
  rw [hlen] at hcount
  refine hcount.bind ?_
  rw [hlen, hm _ h]
  exact reads_popFetchPtr str

theorem reads_unmarshalPair {first : DeserializerM α} {second : DeserializerM β}
    {image : α → List UInt8} {image' : β → List UInt8} {p : α × β}
    (h : Reads first (image p.1) p.1) (h' : Reads second (image' p.2) p.2) :
    Reads (unmarshalPair first second) (pairBytes image image' p) p := by
  have hend : Reads (second >>= fun b => pure (p.1, b)) (image' p.2 ++ []) p :=
    h'.bind (Reads.pure p)
  rw [List.append_nil] at hend
  exact h.bind (f := fun a => second >>= fun b => pure (a, b)) hend

/-- The loop inserts the elements one by one. -/
theorem reads_unmarshalLoop {elem : DeserializerM α} (insert : List α → α → List α)
    {image : α → List UInt8} : ∀ (c' c : List α), (∀ x ∈ c', Reads elem (image x) x) →
    Reads (unmarshalLoop elem insert c'.length c) (c'.flatMap image) (c'.foldl insert c)
  | [], c, _ => Reads.pure c
  | x :: c', c, h => by
      rw [List.flatMap_cons]
      exact (h x List.mem_cons_self).bind
        (reads_unmarshalLoop insert c' (insert c x) fun y hy => h y (List.mem_cons_of_mem x hy))

/-- The length field and the elements, when the inserter keeps their order. -/
theorem reads_container {P : α → Prop} {elem : DeserializerM α} {insert : List α → α → List α}
    {image : α → List UInt8} (helem : ∀ x, P x → Reads elem (image x) x) {c : List α}
    (hc : ContainerOf P c) (hinsert : c.foldl insert [] = c) :
    Reads (do let count ← popUInt32 bo; unmarshalLoop elem insert count.toNat [])
      (containerBytes bo image c) c := by
  have hlen : (UInt32.ofNat c.length).toNat = c.length := UInt32.toNat_ofNat_of_lt' hc.1
  have hcount := reads_readUInt32 bo (UInt32.ofNat c.length)
  rw [hlen] at hcount
  have hloop := reads_unmarshalLoop insert c [] fun x hx => helem x (hc.2 x hx)
  rw [hinsert] at hloop
  refine hcount.bind ?_
  rw [hlen]
  exact hloop

theorem reads_sequence {P : α → Prop} {elem : DeserializerM α} {image : α → List UInt8}
    (helem : ∀ x, P x → Reads elem (image x) x) {c : List α} (hc : ContainerOf P c) :
    Reads (unmarshalContainer bo elem pushBack []) (containerBytes bo image c) c :=
  reads_container bo helem hc (foldl_pushBack [] c)

theorem reads_ordered {P : α → Prop} {elem : DeserializerM α} {image : α → List UInt8}
    {lt : α → α → Bool} (helem : ∀ x, P x → Reads elem (image x) x) {c : List α}
    (hc : ContainerOf P c) (hsorted : Sorted lt c) :
    Reads (unmarshalContainer bo elem (insertUnique lt) []) (containerBytes bo image c) c :=
  reads_container bo helem hc (foldl_insertUnique (c := []) hsorted)

/-- Unpacking the image of a value into an empty target gives the value. -/
theorem reads_unmarshal (hm : KeepsLengths mSize) : ∀ (s : Schema) (v : s.Val), s.Valid v →
    Reads (unmarshal mSize bo s s.empty) (s.wire bo v) v
  | .bool, sign, _ => by
      have h := (reads_readByte (if sign then 1 else 0)).map fun u8 => if u8 = 0 then false else true
      have hback : (if (if sign then (1 : UInt8) else 0) = 0 then false else true) = sign := by
        cases sign <;> rfl
      rwa [hback] at h
  | .uint8, u8, _ => reads_readByte u8
  | .int8, i8, _ => by
      have h := (reads_readByte i8.toUInt8).map UInt8.toInt8
      rwa [Int8.toInt8_toUInt8] at h
  | .uint16, u16, _ => reads_readUInt16 bo u16
  | .int16, i16, _ => by
      have h := (reads_readUInt16 bo i16.toUInt16).map UInt16.toInt16
      rwa [Int16.toInt16_toUInt16] at h
  | .uint32, u32, _ => reads_readUInt32 bo u32
  | .int32, i32, _ => by
      have h := (reads_readUInt32 bo i32.toUInt32).map UInt32.toInt32
      rwa [Int32.toInt32_toUInt32] at h
  | .uint64, u64, _ => reads_readUInt64 bo u64
  | .int64, i64, _ => by
      have h := (reads_readUInt64 bo i64.toUInt64).map UInt64.toInt64
      rwa [Int64.toInt64_toUInt64] at h
  | .double, d, _ => reads_readDouble bo d
  | .string, _, h => reads_popVarstr bo hm h
  | .string32, _, h => reads_popVarstr32 bo hm h
  | .pair a b, p, h =>
      reads_unmarshalPair (reads_unmarshal hm a p.1 h.1) (reads_unmarshal hm b p.2 h.2)
  | .vector a, _, h => reads_sequence bo (reads_unmarshal hm a) h
  | .list a, _, h => reads_sequence bo (reads_unmarshal hm a) h
  | .set a, _, h => reads_ordered bo (reads_unmarshal hm a) h.1 h.2
  | .map k v, _, h =>
      reads_ordered bo (fun p hp =>
        reads_unmarshalPair (reads_unmarshal hm k p.1 hp.1) (reads_unmarshal hm v p.2 hp.2)) h.1 h.2
  | .listOfMap k v, _, h =>
      reads_sequence bo (fun _ hc =>
        reads_ordered bo (fun p hp =>
          reads_unmarshalPair (reads_unmarshal hm k p.1 hp.1) (reads_unmarshal hm v p.2 hp.2))
          hc.1 hc.2) h
  | .compositeMap k k' v, _, h =>
      reads_ordered bo (fun q hq =>
        reads_unmarshalPair (reads_unmarshal hm k q.1 hq.1)
          (reads_ordered bo (fun p hp =>
            reads_unmarshalPair (reads_unmarshal hm k' p.1 hp.1) (reads_unmarshal hm v p.2 hp.2))
            hq.2.1 hq.2.2)) h.1 h.2

end Unpack

/-- **Round trip.** What packing a value gives is unpacked into an empty target as that
value, in the same byte order, and the cursor stops where the packed bytes end. -/
theorem unmarshal_marshal {mSize : Nat → Nat} (hm : KeepsLengths mSize)
    (fresh stackbuff : Nat → UInt8) (bo : ByteOrder) (s : Schema) (v : s.Val) (hv : s.Valid v)
    {bytes : List UInt8} (hpack : Serializer.output stackbuff (Pack.marshal fresh bo s v) = .ok bytes)
    (r : List UInt8) : (Unpack.unmarshal mSize bo s s.empty).run (bytes ++ r) = .ok v r := by
  rw [Serializer.eq_of_output (Pack.writes_marshal fresh bo s v hv) hpack]
  exact Unpack.reads_unmarshal bo hm s v hv r

/-- A map from strings to sets of signed numbers, packed in network byte order, with two
bytes behind it. `m_size` is a `size_t`. -/
theorem unmarshal_marshal_map :
    (Unpack.unmarshal (fun n => n % 2 ^ 64) .bigEndian (.map .string (.set .int16)) []).run
        ([0, 0, 0, 1, 0, 1, 97, 0, 0, 0, 2, 255, 255, 0, 7] ++ [9, 9]) =
      .ok [([97], [-1, 7])] [9, 9] :=
  unmarshal_marshal (fun n hn => Nat.mod_eq_of_lt (by omega)) (fun _ => 0) (fun _ => 0) .bigEndian
    (.map .string (.set .int16)) [([97], [-1, 7])]
    (by simp [Schema.Valid, ContainerOf, Sorted, keyLess, Schema.less]) (by rfl) [9, 9]

/-! ## Reading any bytes -/

/-- The inputs that are a container of elements of a shape. -/
def containerOf (bo : ByteOrder) (W : Language UInt8) : Language UInt8 :=
  ⨆ n : UInt32, {numberBytes bo 4 n.toNat} * W ^ n.toNat

/-- The inputs that end in one of the elements of a container as `S` says. -/
def cutInElement (bo : ByteOrder) (W S : Language UInt8) : Language UInt8 :=
  ⨆ n : UInt32, {numberBytes bo 4 n.toNat} * shortOf W S n.toNat

/-- The inputs that have the shape of a type: with every length field the bytes or the
elements that it promises. -/
def Schema.whole (bo : ByteOrder) : Schema → Language UInt8
  | .bool | .uint8 | .int8 => Deserializer.wordsOf 1
  | .uint16 | .int16 => Deserializer.wordsOf 2
  | .uint32 | .int32 => Deserializer.wordsOf 4
  | .uint64 | .int64 | .double => Deserializer.wordsOf 8
  | .string => ⨆ n : UInt16, {numberBytes bo 2 n.toNat} * Deserializer.wordsOf n.toNat
  | .string32 => ⨆ n : UInt32, {numberBytes bo 4 n.toNat} * Deserializer.wordsOf n.toNat
  | .pair a b => a.whole bo * b.whole bo
  | .vector a | .list a | .set a => containerOf bo (a.whole bo)
  | .map k v => containerOf bo (k.whole bo * v.whole bo)
  | .listOfMap k v => containerOf bo (containerOf bo (k.whole bo * v.whole bo))
  | .compositeMap k k' v =>
      containerOf bo (k.whole bo * containerOf bo (k'.whole bo * v.whole bo))

/-- The inputs that end inside the body of a string, everything before it being whole. -/
def Schema.cutInString (bo : ByteOrder) : Schema → Language UInt8
  | .string => ⨆ n : UInt16, {numberBytes bo 2 n.toNat} * Deserializer.shorterThan n.toNat
  | .string32 => ⨆ n : UInt32, {numberBytes bo 4 n.toNat} * Deserializer.shorterThan n.toNat
  | .pair a b => a.cutInString bo + a.whole bo * b.cutInString bo
  | .vector a | .list a | .set a => cutInElement bo (a.whole bo) (a.cutInString bo)
  | .map k v =>
      cutInElement bo (k.whole bo * v.whole bo) (k.cutInString bo + k.whole bo * v.cutInString bo)
  | .listOfMap k v =>
      cutInElement bo (containerOf bo (k.whole bo * v.whole bo))
        (cutInElement bo (k.whole bo * v.whole bo)
          (k.cutInString bo + k.whole bo * v.cutInString bo))
  | .compositeMap k k' v =>
      cutInElement bo (k.whole bo * containerOf bo (k'.whole bo * v.whole bo))
        (k.cutInString bo + k.whole bo *
          cutInElement bo (k'.whole bo * v.whole bo)
            (k'.cutInString bo + k'.whole bo * v.cutInString bo))
  | _ => 0

namespace Unpack

open Deserializer

variable {mSize : Nat → Nat} (bo : ByteOrder) {α β : Type}

/-- A number is read by a call of the base class. -/
theorem accepts_number {what : String} {k : Nat} (f : Nat → α) :
    Accepts IsUnpackError (f <$> readNumber what k) (wordsOf k) 0 :=
  (accepts_readNumber _ not_isUnpackError_runtimeException).map f

theorem accepts_popFetchPtr (k : Nat) :
    Accepts IsUnpackError (popFetchPtr k) (wordsOf k) (shorterThan k) := by
  have hshort : ∀ s : List UInt8, s.length < k →
      (popFetchPtr k).run s = .error (.unpackError "pop_fetch_ptr: not enough data") s := by
    intro s hlen
    simp only [popFetchPtr, EStateM.run_bind, EStateM.run_get, if_pos hlen]
    rfl
  have hlong : ∀ s : List UInt8, ¬ s.length < k →
      (popFetchPtr k).run s = .ok (s.take k) (s.drop k) := by
    intro s hlen
    have htake : (s.take k).length = k := List.length_take_of_le (Nat.not_lt.mp hlen)
    have hread := reads_popFetchPtr (s.take k) (s.drop k)
    rwa [List.take_append_drop, htake] at hread
  refine ⟨fun w hw => ⟨w, ?_⟩, fun s hs => ?_, fun s a r h => ?_, fun s e t h _ => ?_⟩
  · have hread := reads_popFetchPtr w
    rwa [show w.length = k from hw] at hread
  · exact ⟨_, s, hshort s hs, _, rfl⟩
  · by_cases hlen : s.length < k
    · rw [hshort s hlen] at h
      cases h
    · rw [hlong s hlen] at h
      cases h
      exact ⟨s.take k, List.length_take_of_le (Nat.not_lt.mp hlen),
        (List.take_append_drop k s).symm⟩
  · by_cases hlen : s.length < k
    · exact hlen
    · rw [hlong s hlen] at h
      cases h

theorem accepts_popVarstr (hm : KeepsLengths mSize) :
    Accepts IsUnpackError (popVarstr mSize bo) (Schema.whole bo .string)
      (Schema.cutInString bo .string) := by
  have h := (accepts_readUInt16 bo).bind_of (f := fun u => popFetchPtr (mSize u.toNat))
    (fun u w hw => by cases hw; exact reads_readUInt16 bo u)
    fun u => by
      rw [hm _ (by have := u.toNat_lt; omega)]
      exact accepts_popFetchPtr u.toNat
  rwa [zero_add] at h

theorem accepts_popVarstr32 (hm : KeepsLengths mSize) :
    Accepts IsUnpackError (popVarstr32 mSize bo) (Schema.whole bo .string32)
      (Schema.cutInString bo .string32) := by
  have h := (accepts_readUInt32 bo).bind_of (f := fun u => popFetchPtr (mSize u.toNat))
    (fun u w hw => by cases hw; exact reads_readUInt32 bo u)
    fun u => by
      rw [hm _ u.toNat_lt]
      exact accepts_popFetchPtr u.toNat
  rwa [zero_add] at h

theorem accepts_unmarshalPair {first : DeserializerM α} {second : DeserializerM β}
    {W W' S S' : Language UInt8} (h : Accepts IsUnpackError first W S)
    (h' : Accepts IsUnpackError second W' S') :
    Accepts IsUnpackError (unmarshalPair first second) (W * W') (S + W * S') := by
  refine h.bind fun a => ?_
  have hend := h'.bind (f := fun b => (pure (a, b) : DeserializerM (α × β)))
    fun b => Accepts.pure (a, b)
  rwa [mul_one, mul_zero, add_zero] at hend

/-- A loop reads a power, and runs short in one of its rounds. -/
theorem accepts_unmarshalLoop {elem : DeserializerM α} {insert : List α → α → List α}
    {W S : Language UInt8} (h : Accepts IsUnpackError elem W S) : ∀ (n : Nat) (c : List α),
    Accepts IsUnpackError (unmarshalLoop elem insert n c) (W ^ n) (shortOf W S n)
  | 0, c => by
      rw [pow_zero]
      exact Accepts.pure c
  | n + 1, c => by
      rw [pow_succ']
      exact h.bind fun x => accepts_unmarshalLoop h n (insert c x)

/-- The length field and the elements. -/
theorem accepts_container {elem : DeserializerM α} {insert : List α → α → List α}
    {W S : Language UInt8} (h : Accepts IsUnpackError elem W S) (c : List α) :
    Accepts IsUnpackError (do let count ← popUInt32 bo; unmarshalLoop elem insert count.toNat c)
      (containerOf bo W) (cutInElement bo W S) := by
  have hloop := (accepts_readUInt32 bo).bind_of
    (f := fun count => unmarshalLoop elem insert count.toNat c)
    (fun u w hw => by cases hw; exact reads_readUInt32 bo u)
    fun u => accepts_unmarshalLoop h u.toNat c
  rwa [zero_add] at hloop

/-- Unpacking into any target returns where the shape comes first, and throws an
`UnpackError` on the inputs that end inside the body of a string. -/
theorem accepts_unmarshal (hm : KeepsLengths mSize) : ∀ (s : Schema) (target : s.Val),
    Accepts IsUnpackError (unmarshal mSize bo s target) (s.whole bo) (s.cutInString bo)
  | .bool, _ => (accepts_number _).map _
  | .uint8, _ => accepts_number _
  | .int8, _ => (accepts_number _).map _
  | .uint16, _ => accepts_number _
  | .int16, _ => (accepts_number _).map _
  | .uint32, _ => accepts_number _
  | .int32, _ => (accepts_number _).map _
  | .uint64, _ => accepts_number _
  | .int64, _ => (accepts_number _).map _
  | .double, _ => accepts_number _
  | .string, _ => accepts_popVarstr bo hm
  | .string32, _ => accepts_popVarstr32 bo hm
  | .pair a b, p => accepts_unmarshalPair (accepts_unmarshal hm a p.1) (accepts_unmarshal hm b p.2)
  | .vector a, c => accepts_container bo (accepts_unmarshal hm a a.empty) c
  | .list a, c => accepts_container bo (accepts_unmarshal hm a a.empty) c
  | .set a, c => accepts_container bo (accepts_unmarshal hm a a.empty) c
  | .map k v, c =>
      accepts_container bo
        (accepts_unmarshalPair (accepts_unmarshal hm k k.empty) (accepts_unmarshal hm v v.empty)) c
  | .listOfMap k v, c =>
      accepts_container bo (accepts_container bo
        (accepts_unmarshalPair (accepts_unmarshal hm k k.empty) (accepts_unmarshal hm v v.empty))
        []) c
  | .compositeMap k k' v, c =>
      accepts_container bo (accepts_unmarshalPair (accepts_unmarshal hm k k.empty)
        (accepts_container bo
          (accepts_unmarshalPair (accepts_unmarshal hm k' k'.empty) (accepts_unmarshal hm v v.empty))
          [])) c

end Unpack

/-- The shape of a type comes first. -/
def Schema.DecodesFrom (s : Schema) (strIn : List UInt8) : Prop :=
  ∃ w ∈ s.whole .littleEndian, ∃ r, strIn = w ++ r

/-- **`StringToPacket` on any bytes.** It returns, `true` where the bytes of the type come
first and `false` where they do not, if and only if they come first or the input ends
inside the body of a string. -/
theorem stringToPacket_reports_iff {mSize : Nat → Nat} (hm : KeepsLengths mSize) (s : Schema)
    (target : s.Val) (strIn : List UInt8) :
    (∃ ok objOut, stringToPacket strIn (Unpack.unmarshal mSize .littleEndian s target) =
        .ok (ok, objOut) ∧ (ok = true ↔ s.DecodesFrom strIn)) ↔
      s.DecodesFrom strIn ∨ strIn ∈ s.cutInString .littleEndian := by
  have hspec := Unpack.accepts_unmarshal .littleEndian hm s target
  generalize Unpack.unmarshal mSize .littleEndian s target = x at hspec
  constructor
  · rintro ⟨ok, objOut, hrun, hok⟩
    unfold stringToPacket at hrun
    split at hrun
    · next v r hx =>
        obtain ⟨w, hw, hsplit⟩ := hspec.of_returns strIn v r hx
        exact Or.inl ⟨w, hw, r, hsplit⟩
    · next w t hx => exact Or.inr (hspec.of_throws strIn _ t hx ⟨w, rfl⟩)
    · cases hrun
  · rintro (⟨w, hw, r, rfl⟩ | hcut)
    · obtain ⟨v, hv⟩ := hspec.returns w hw
      refine ⟨true, some v, ?_, iff_of_true rfl ⟨w, hw, r, rfl⟩⟩
      rw [stringToPacket, hv r]
    · obtain ⟨e, t, hx, w, rfl⟩ := hspec.throws strIn hcut
      refine ⟨false, none, ?_, iff_of_false Bool.false_ne_true ?_⟩
      · rw [stringToPacket, hx]
      · rintro ⟨w', hw', r, rfl⟩
        obtain ⟨v, hv⟩ := hspec.returns w' hw'
        rw [hv r] at hx
        cases hx

/-- A string of two bytes of which one has come. `m_size` is a `size_t`. -/
theorem stringToPacket_reports_iff_string :
    (∃ ok objOut, stringToPacket [2, 0, 97]
        (Unpack.unmarshal (fun n => n % 2 ^ 64) .littleEndian .string []) = .ok (ok, objOut) ∧
        (ok = true ↔ Schema.DecodesFrom .string [2, 0, 97])) ↔
      Schema.DecodesFrom .string [2, 0, 97] ∨ [2, 0, 97] ∈ Schema.cutInString .littleEndian .string :=
  stringToPacket_reports_iff (fun n hn => Nat.mod_eq_of_lt (by omega)) .string [] [2, 0, 97]

/-- The first two bytes of a packed `uint32_t`: the exception of `read_uint32` escapes. -/
theorem stringToPacket_throws_on_half_uint32 :
    packetToString (fun _ => 0) (Pack.marshal (fun _ => 0) .littleEndian .uint32 5) =
        .ok ([5, 0] ++ [0, 0]) ∧
      ¬ ∃ ok objOut, stringToPacket [5, 0]
        (Unpack.unmarshal (fun n => n % 2 ^ 64) .littleEndian .uint32 0) = .ok (ok, objOut) := by
  constructor
  · rfl
  · rintro ⟨ok, objOut, h⟩
    have hrun : stringToPacket [5, 0]
        (Unpack.unmarshal (fun n => n % 2 ^ 64) .littleEndian .uint32 0) =
          .error (.runtimeException "Deserializer.read_uint32(): not enough data") := rfl
    rw [hrun] at h
    cases h

end LinSocketIo.Utils
