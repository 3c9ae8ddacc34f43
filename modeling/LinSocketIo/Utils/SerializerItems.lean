/-
LinSocketIo.Utils.SerializerItems — lists of typed items through a
serializer and back.

Every call of a `Serializer` that takes an item has a call of a
`Deserializer` that mirrors it. The lengths of strings are written by
narrowing a `size_t`. A `string32` and the bytes behind a varint are far
below the limit of their prefix, but a `string16` of more than 65535 bytes is
written whole behind a shorter length.

* `within_item`, `reads_item` — what an item looks like on the wire, and that
  it is read back from there whatever follows.
* `items_round_trip_iff` — a list of items that has been written, over any
  buffer and in either byte order, is read back with nothing left over if and
  only if every `string16` in it fits.

Of the absent `varint.h` only `Inverts` is used. `base128` is a `varint.h`
that meets it: the varint of the protocol buffers that the comments name.
-/
import LinSocketIo.Base.Base128
import LinSocketIo.Utils.SerializerTheorems

namespace LinSocketIo.Utils

open LinSocketIo.Base

/-- What is assumed of `varint.h`: the writers stay within the room reserved for them, and
`Varint::read` inverts them whatever follows. -/
structure ByteBuffer.Varint.Inverts (vi : ByteBuffer.Varint) : Prop where
  fits32 : ∀ v, (vi.writeU32 (vi.zigzag32 v)).length ≤ vi.maxVarintBytes
  fits64 : ∀ v, (vi.writeU64 (vi.zigzag v)).length ≤ vi.maxVarintBytes
  pos32 : ∀ v, 0 < (vi.writeU32 (vi.zigzag32 v)).length
  pos64 : ∀ v, 0 < (vi.writeU64 (vi.zigzag v)).length
  read32 : ∀ v r, vi.read (vi.writeU32 (vi.zigzag32 v) ++ r) =
    (((vi.writeU32 (vi.zigzag32 v)).length : Int), v.toInt64)
  read64 : ∀ v r, vi.read (vi.writeU64 (vi.zigzag v) ++ r) =
    (((vi.writeU64 (vi.zigzag v)).length : Int), v)

/-- An item. -/
inductive Item where
  | bool (b : Bool)
  | byte (u : UInt8)
  | int16 (i : Int16)
  | int32 (i : Int32)
  | int64 (i : Int64)
  | uint16 (u : UInt16)
  | uint32 (u : UInt32)
  | uint64 (u : UInt64)
  | bytes32 (data : List UInt8)
  | string16 (str : List UInt8)
  | string32 (str : List UInt8)
  | bytes (data : List UInt8)
  | varint32 (v : Int32)
  | varint (v : Int64)
  deriving DecidableEq, Repr

namespace Item

/-- The number of bytes of a string. -/
def size : Item → Nat
  | .bytes32 data | .string16 data | .string32 data | .bytes data => data.length
  | _ => 0

/-- The length of a `string16` fits its prefix. -/
def Fits : Item → Prop
  | .string16 str => str.length ≤ 65535
  | _ => True

section

variable (vi : ByteBuffer.Varint) (fresh : Nat → UInt8) (bo : ByteOrder)

/-- The call that writes the item. -/
def write : Item → SerializerM Unit
  | .bool b => Serializer.writeBool fresh b
  | .byte u => Serializer.writeByte fresh u
  | .int16 i => Serializer.writeInt16 fresh bo i
  | .int32 i => Serializer.writeInt32 fresh bo i
  | .int64 i => Serializer.writeInt64 fresh bo i
  | .uint16 u => Serializer.writeUInt16 fresh bo u
  | .uint32 u => Serializer.writeUInt32 fresh bo u
  | .uint64 u => Serializer.writeUInt64 fresh bo u
  | .bytes32 data => Serializer.writeBytes32 fresh bo data
  | .string16 str => Serializer.writeString16 fresh bo str
  | .string32 str => Serializer.writeString32 fresh bo str
  | .bytes data => Serializer.writeBytes fresh vi data
  | .varint32 v => Serializer.writeVarint32 fresh vi v
  | .varint v => Serializer.writeVarint fresh vi v

/-- The call that reads an item of the same type; it does not look at the value. -/
def read : Item → DeserializerM Item
  | .bool _ => .bool <$> Deserializer.readBool
  | .byte _ => .byte <$> Deserializer.readByte
  | .int16 _ => .int16 <$> Deserializer.readInt16 bo
  | .int32 _ => .int32 <$> Deserializer.readInt32 bo
  | .int64 _ => .int64 <$> Deserializer.readInt64 bo
  | .uint16 _ => .uint16 <$> Deserializer.readUInt16 bo
  | .uint32 _ => .uint32 <$> Deserializer.readUInt32 bo
  | .uint64 _ => .uint64 <$> Deserializer.readUInt64 bo
  | .bytes32 _ => .bytes32 <$> Deserializer.readBytes32 bo
  | .string16 _ => .string16 <$> Deserializer.readString16 bo
  | .string32 _ => .string32 <$> Deserializer.readBytes32 bo
  | .bytes _ => .bytes <$> Deserializer.readBytes vi
  | .varint32 _ => (fun v => .varint32 v.toInt32) <$> Deserializer.readVarint vi
  | .varint _ => .varint <$> Deserializer.readVarint vi

/-- The item on the wire. -/
def image : Item → List UInt8
  | .bool b => [if b then 1 else 0]
  | .byte u => [u]
  | .int16 i => numberBytes bo 2 i.toUInt16.toNat
  | .int32 i => numberBytes bo 4 i.toUInt32.toNat
  | .int64 i => numberBytes bo 8 i.toUInt64.toNat
  | .uint16 u => numberBytes bo 2 u.toNat
  | .uint32 u => numberBytes bo 4 u.toNat
  | .uint64 u => numberBytes bo 8 u.toNat
  | .bytes32 data | .string32 data =>
    numberBytes bo 4 (UInt32.ofNat data.length).toNat ++ data
  | .string16 str => numberBytes bo 2 (UInt16.ofNat str.length).toNat ++ str
  | .bytes data => vi.writeU64 (vi.zigzag (Int64.ofNat data.length)) ++ data
  | .varint32 v => vi.writeU32 (vi.zigzag32 v)
  | .varint v => vi.writeU64 (vi.zigzag v)

end

end Item

/-- The items are written one after the other. -/
def writeItems (vi : ByteBuffer.Varint) (fresh : Nat → UInt8) (bo : ByteOrder)
    (items : List Item) : SerializerM Unit :=
  items.forM (Item.write vi fresh bo)

/-- The calls that mirror the ones that wrote the items. -/
def readItems (vi : ByteBuffer.Varint) (bo : ByteOrder) : List Item → DeserializerM (List Item)
  | [] => return []
  | item :: items => do
    let item ← item.read vi bo
    let items ← readItems vi bo items
    return item :: items

/-! ## Writing -/

section

variable {vi : ByteBuffer.Varint} (hvi : vi.Inverts) (fresh : Nat → UInt8) (bo : ByteOrder)

include hvi

theorem within_writeVarint32 (v : Int32) :
    WritesWithin vi.maxVarintBytes (Serializer.writeVarint32 fresh vi v)
      (vi.writeU32 (vi.zigzag32 v)) :=
  Serializer.within_onBuffer fun _ hb =>
    (ByteBuffer.appendVarint_spec hb vi fresh (hvi.fits32 v)).imp_right fun ⟨hrun, hover⟩ =>
      ⟨hrun, by omega⟩

theorem within_writeVarint (v : Int64) :
    WritesWithin vi.maxVarintBytes (Serializer.writeVarint fresh vi v)
      (vi.writeU64 (vi.zigzag v)) :=
  Serializer.within_onBuffer fun _ hb =>
    (ByteBuffer.appendVarint_spec hb vi fresh (hvi.fits64 v)).imp_right fun ⟨hrun, hover⟩ =>
      ⟨hrun, by omega⟩

/-- Every item is written as its image, unless the limit leaves no room for one more varint. -/
theorem within_item (item : Item) :
    WritesWithin vi.maxVarintBytes (item.write vi fresh bo) (item.image vi bo) := by
  have hzero := Nat.zero_le vi.maxVarintBytes
  cases item with
  | bool b => exact (Serializer.within_append fresh _).mono hzero
  | byte u => exact (Serializer.within_append fresh _).mono hzero
  | int16 i => exact (Serializer.within_writeInt16 fresh bo i).mono hzero
  | int32 i => exact (Serializer.within_writeInt32 fresh bo i).mono hzero
  | int64 i => exact (Serializer.within_writeInt64 fresh bo i).mono hzero
  | uint16 u => exact (Serializer.within_writeUInt16 fresh bo u).mono hzero
  | uint32 u => exact (Serializer.within_writeUInt32 fresh bo u).mono hzero
  | uint64 u => exact (Serializer.within_writeUInt64 fresh bo u).mono hzero
  | bytes32 data =>
      exact ((Serializer.within_writeUInt32 fresh bo _).bind
        (Serializer.within_write fresh data)).mono hzero
  | string16 str =>
      exact ((Serializer.within_writeUInt16 fresh bo _).bind
        (Serializer.within_write fresh str)).mono hzero
  | string32 str => exact (Serializer.within_writeString32_cut fresh bo str).mono hzero
  | bytes data =>
      exact (within_writeVarint hvi fresh _).bind ((Serializer.within_write fresh data).mono hzero)
  | varint32 v => exact within_writeVarint32 hvi fresh v
  | varint v => exact within_writeVarint hvi fresh v

theorem within_items (items : List Item) :
    WritesWithin vi.maxVarintBytes (writeItems vi fresh bo items)
      (items.flatMap (Item.image vi bo)) :=
  WritesWithin.forM items fun item _ => within_item hvi fresh bo item

end

/-! ## Reading -/

section

variable {vi : ByteBuffer.Varint} (hvi : vi.Inverts) (bo : ByteOrder)

theorem reads_readBytes32 {data : List UInt8} (h : data.length < 4294967296) :
    Reads (Deserializer.readBytes32 bo)
      (numberBytes bo 4 (UInt32.ofNat data.length).toNat ++ data) data := by
  refine (Deserializer.reads_readUInt32 bo _).bind (Deserializer.reads_fetch "read" ?_)
  exact (UInt32.toNat_ofNat_of_lt' h).symm

theorem reads_readString16 {str : List UInt8} (h : str.length ≤ 65535) :
    Reads (Deserializer.readString16 bo)
      (numberBytes bo 2 (UInt16.ofNat str.length).toNat ++ str) str := by
  refine (Deserializer.reads_readUInt16 bo _).bind (Deserializer.reads_fetch "read" ?_)
  exact (UInt16.toNat_ofNat_of_lt' (Nat.lt_succ_of_le h)).symm

/-- What a call of `Varint::read` that finds `w` makes `read_varint` return. -/
theorem reads_readVarint {w : List UInt8} {v : Int64} (hpos : 0 < w.length)
    (hread : ∀ r, vi.read (w ++ r) = ((w.length : Int), v)) :
    Reads (Deserializer.readVarint vi) w v := by
  intro r
  have hn : ¬ ((w.length : Int) ≤ 0) := by omega
  simp only [Deserializer.readVarint, EStateM.run_bind, EStateM.run_get, hread, if_neg hn,
    EStateM.run_set, EStateM.run_pure, Int.toNat_natCast, List.drop_left]

include hvi

theorem reads_readBytes {data : List UInt8} (h : data.length < 2147483648) :
    Reads (Deserializer.readBytes vi)
      (vi.writeU64 (vi.zigzag (Int64.ofNat data.length)) ++ data) data := by
  refine (reads_readVarint (hvi.pos64 _) (hvi.read64 _)).bind (Deserializer.reads_fetch "read" ?_)
  rw [Int64.toUInt64_ofNat']
  exact (UInt64.toNat_ofNat_of_lt' (Nat.lt_trans h (by decide))).symm

/-- Every item that fits its prefix is read back from its image. -/
theorem reads_item {item : Item} (hsize : item.size < 2147483648) (hfits : item.Fits) :
    Reads (item.read vi bo) (item.image vi bo) item := by
  cases item with
  | bool b =>
      have h := ((Deserializer.reads_readByte (if b then 1 else 0)).map (· != 0)).map Item.bool
      have hb : ((if b then 1 else 0 : UInt8) != 0) = b := by cases b <;> rfl
      rwa [hb] at h
  | byte u => exact (Deserializer.reads_readByte u).map Item.byte
  | int16 i => exact (Deserializer.reads_readInt16 bo i).map Item.int16
  | int32 i => exact (Deserializer.reads_readInt32 bo i).map Item.int32
  | int64 i => exact (Deserializer.reads_readInt64 bo i).map Item.int64
  | uint16 u => exact (Deserializer.reads_readUInt16 bo u).map Item.uint16
  | uint32 u => exact (Deserializer.reads_readUInt32 bo u).map Item.uint32
  | uint64 u => exact (Deserializer.reads_readUInt64 bo u).map Item.uint64
  | bytes32 data => exact (reads_readBytes32 bo (Nat.lt_trans hsize (by decide))).map Item.bytes32
  | string16 str => exact (reads_readString16 bo hfits).map Item.string16
  | string32 str => exact (reads_readBytes32 bo (Nat.lt_trans hsize (by decide))).map Item.string32
  | bytes data => exact (reads_readBytes hvi hsize).map Item.bytes
  | varint32 v =>
      have h := (reads_readVarint (hvi.pos32 v) (hvi.read32 v)).map fun v => Item.varint32 v.toInt32
      rwa [Int32.toInt32_toInt64] at h
  | varint v => exact (reads_readVarint (hvi.pos64 v) (hvi.read64 v)).map Item.varint

omit hvi in
variable (vi) in
/-- A `string16` that does not fit is read back shorter. -/
theorem run_read_long {str : List UInt8} (h : ¬ str.length ≤ 65535) (r : List UInt8) :
    ∃ str' r', (Item.read vi bo (.string16 str)).run
        (Item.image vi bo (.string16 str) ++ r) = .ok (.string16 str') r' ∧ str' ≠ str := by
  have hcut : (UInt16.ofNat str.length).toNat < str.length := by
    rw [UInt16.toNat_ofNat']
    have := Nat.mod_lt str.length (show 0 < 2 ^ 16 by decide)
    omega
  rw [Item.image]
  generalize UInt16.ofNat str.length = n at *
  refine ⟨str.take n.toNat, str.drop n.toNat ++ r, ?_, fun heq => ?_⟩
  · have hread : Reads (Deserializer.readString16 bo)
        (numberBytes bo 2 n.toNat ++ str.take n.toNat) (str.take n.toNat) := by
      refine (Deserializer.reads_readUInt16 bo n).bind (Deserializer.reads_fetch "read" ?_)
      rw [List.length_take]
      omega
    have hrun := hread.map Item.string16 (str.drop n.toNat ++ r)
    rwa [List.append_assoc, ← List.append_assoc (str.take _), List.take_append_drop,
      ← List.append_assoc] at hrun
  · have := congrArg List.length heq
    rw [List.length_take] at this
    omega

end

/-! ## The round trip -/

section

variable {vi : ByteBuffer.Varint} (hvi : vi.Inverts) (bo : ByteOrder)

include hvi

/-- Items that fit are read back. -/
theorem reads_items : ∀ {items : List Item}, (∀ item ∈ items, item.size < 2147483648) →
    (∀ item ∈ items, item.Fits) →
      Reads (readItems vi bo items) (items.flatMap (Item.image vi bo)) items
  | [], _, _ => Reads.pure []
  | item :: items, hsize, hfits => by
      have hrest := reads_items (fun i hi => hsize i (List.mem_cons_of_mem item hi))
        fun i hi => hfits i (List.mem_cons_of_mem item hi)
      have hcons := hrest.bind (f := fun items => pure (item :: items)) (Reads.pure _)
      rw [List.append_nil] at hcons
      exact (reads_item hvi bo (hsize item List.mem_cons_self) (hfits item List.mem_cons_self)).bind
        hcons

omit hvi in
/-- What comes after the first item. -/
theorem run_readItems_cons {item item' : Item} {items is : List Item} {s t r : List UInt8}
    (hitem : (item.read vi bo).run s = .ok item' t)
    (hread : (readItems vi bo (item :: items)).run s = .ok is r) :
    ∃ is', is = item' :: is' ∧ (readItems vi bo items).run t = .ok is' r := by
  rw [readItems, run_bind_of_ok hitem] at hread
  cases hrest : (readItems vi bo items).run t with
  | ok is' r' =>
      rw [run_bind_of_ok hrest] at hread
      cases hread
      exact ⟨is', rfl, rfl⟩
  | error e r' =>
      rw [run_bind_of_error hrest] at hread
      cases hread

/-- Items that are read back fit. -/
theorem fits_of_read : ∀ {items : List Item} {r r' : List UInt8},
    (∀ item ∈ items, item.size < 2147483648) →
      (readItems vi bo items).run (items.flatMap (Item.image vi bo) ++ r) = .ok items r' →
        ∀ item ∈ items, item.Fits
  | [], _, _, _, _ => fun _ h => by cases h
  | item :: items, r, r', hsize, hread => by
      rw [List.flatMap_cons, List.append_assoc] at hread
      have hitem : item.Fits := by
        by_contra hlong
        cases item with
        | string16 str =>
            obtain ⟨str', t, hrun, hne⟩ := run_read_long vi bo hlong
              (items.flatMap (Item.image vi bo) ++ r)
            obtain ⟨is, heq, -⟩ := run_readItems_cons bo hrun hread
            cases heq
            exact hne rfl
        | _ => exact hlong trivial
      obtain ⟨is, heq, hrest⟩ := run_readItems_cons bo
        (reads_item hvi bo (hsize item List.mem_cons_self) hitem _) hread
      cases heq
      intro i hi
      rcases List.mem_cons.mp hi with rfl | hi
      · exact hitem
      · exact fits_of_read (fun j hj => hsize j (List.mem_cons_of_mem _ hj)) hrest i hi

/-- **The round trip of typed items**: over any buffer, in either byte order, either the items and
the room for one more varint are more than its limit, or the items are written, and reading back
what `data()` and `size()` show returns them and leaves nothing if and only if every `string16`
fits its prefix. -/
theorem items_round_trip_iff (fresh : Nat → UInt8) (items : List Item)
    (hsize : ∀ item ∈ items, item.size < 2147483648) {b : ByteBuffer} (hb : b.Wf) :
    (∃ b', (writeItems vi fresh bo items).run b =
          .error (.buffer (.resourceLimit "buffer overflow")) b' ∧
        b.limit < b.size + (items.flatMap (Item.image vi bo)).length + vi.maxVarintBytes) ∨
      ∃ b' dat, (writeItems vi fresh bo items).run b = .ok () b' ∧
        Serializer.data b.size b' = .ok dat ∧
        ((readItems vi bo items).run dat = .ok items [] ↔ ∀ item ∈ items, item.Fits) := by
  rcases within_items hvi fresh bo items b hb with ⟨b', hrun, hb', hcont, -⟩ | hfull
  · refine Or.inr ⟨b', items.flatMap (Item.image vi bo), hrun,
      Serializer.data_of_contents hb hb' hcont, ?_⟩
    constructor
    · intro hread
      rw [← List.append_nil (items.flatMap _)] at hread
      exact fits_of_read hvi bo hsize hread
    · intro hfits
      have h := reads_items hvi bo hsize hfits []
      rwa [List.append_nil] at h
  · exact Or.inl hfull

end

/-! ## A varint -/

/-- Zigzag numbers in base 128. -/
def base128 : ByteBuffer.Varint where
  maxVarintBytes := 10
  writeU32 u := Base128.encode 9 u.toNat
  writeU64 u := Base128.encode 9 u.toNat
  zigzag32 v := UInt32.ofNat (Base128.zigzag v.toInt)
  zigzag v := UInt64.ofNat (Base128.zigzag v.toInt)
  read data :=
    match Base128.decode data with
    | some (n, u) => (n, Int64.ofInt (Base128.unzigzag u))
    | none => (0, 0)

/-- What is read back, from the number that the writers were given. -/
theorem read_base128 {i : Int} {u : Nat} (hu : u = Base128.zigzag i) (hlt : u < 128 ^ 10)
    (r : List UInt8) : base128.read (Base128.encode 9 u ++ r) =
      (((Base128.encode 9 u).length : Int), Int64.ofInt i) := by
  simp only [base128, Base128.decode_encode 9 u r hlt]
  rw [hu, Base128.unzigzag_zigzag]

theorem base128_inverts : base128.Inverts where
  fits32 _ := (Base128.length_encode 9 _).2
  fits64 _ := (Base128.length_encode 9 _).2
  pos32 _ := (Base128.length_encode 9 _).1
  pos64 _ := (Base128.length_encode 9 _).1
  read32 v r := by
    have hlt := Base128.zigzag_lt v.le_toInt v.toInt_lt
    have hu : (UInt32.ofNat (Base128.zigzag v.toInt)).toNat = Base128.zigzag v.toInt :=
      UInt32.toNat_ofNat_of_lt' (by simp only [UInt32.size]; omega)
    have hread := read_base128 hu (by omega) r
    have hwide : Int64.ofInt v.toInt = v.toInt64 := by
      rw [← Int32.toInt_toInt64, Int64.ofInt_toInt]
    rwa [hwide] at hread
  read64 v r := by
    have hlt := Base128.zigzag_lt v.le_toInt v.toInt_lt
    have hu : (UInt64.ofNat (Base128.zigzag v.toInt)).toNat = Base128.zigzag v.toInt :=
      UInt64.toNat_ofNat_of_lt' (by simp only [UInt64.size]; omega)
    have hread := read_base128 hu (by omega) r
    rwa [Int64.ofInt_toInt] at hread

/-- A buffer with three bytes in it. -/
def inUse : ByteBuffer :=
  let b := ByteBuffer.new true fun _ => 0
  { b with tail := b.tail + 3 }

theorem wf_inUse : inUse.Wf :=
  (ByteBuffer.wf_extend (ByteBuffer.wf_new true fun _ => 0)
    (show 3 ≤ 1024 - 0 by decide)).1

/-- Items of several types. -/
def someItems : List Item :=
  [.bool true, .int16 (-2), .string16 [104, 105], .bytes [7], .varint (-3)]

/-- Items of several types are written behind what is in the buffer and read back. -/
theorem items_round_trip_some :
    ∃ b' dat, (writeItems base128 (fun _ => 0) .bigEndian someItems).run inUse = .ok () b' ∧
      Serializer.data inUse.size b' = .ok dat ∧
      (readItems base128 .bigEndian someItems).run dat = .ok someItems [] := by
  rcases items_round_trip_iff base128_inverts .bigEndian (fun _ => 0) someItems (by decide)
    wf_inUse with ⟨b', -, hover⟩ | ⟨b', dat, hrun, hdata, hiff⟩
  · exact absurd hover (by decide)
  · exact ⟨b', dat, hrun, hdata, hiff.mpr (by simp [someItems, Item.Fits])⟩

/-- A `string16` of 65536 bytes is written with the length 0 and read back empty; its bytes are
taken for what comes next. -/
theorem long_string16_is_read_empty :
    ∃ b' dat, (writeItems base128 (fun _ => 0) .littleEndian
        [.string16 (List.replicate 65536 7)]).run (ByteBuffer.new true fun _ => 0) = .ok () b' ∧
      Serializer.data 0 b' = .ok dat ∧
      (readItems base128 .littleEndian [.string16 (List.replicate 65536 7)]).run dat =
        .ok [.string16 []] (List.replicate 65536 7) := by
  have hlen : (List.replicate 65536 (7 : UInt8)).length = 65536 := List.length_replicate
  generalize List.replicate 65536 (7 : UInt8) = str at hlen
  have hsize : (ByteBuffer.new true fun _ => 0).size = 0 := rfl
  have hlim : (ByteBuffer.new true fun _ => 0).limit = 67108864 := rfl
  have hwrite : Appends (Serializer.writeString16 (fun _ => 0) .littleEndian str)
      (numberBytes .littleEndian 2 (UInt16.ofNat str.length).toNat ++ str) :=
    (Serializer.appends_writeUInt16 _ .littleEndian _).bind (Serializer.appends_write _ str)
  obtain ⟨b', hrun, -, hcont, -⟩ := hwrite _ (ByteBuffer.wf_new true fun _ => 0)
    (by rw [hsize, hlim, List.length_append, length_numberBytes, hlen]; decide)
  have hzero : (UInt16.ofNat str.length).toNat = 0 := by rw [hlen]; rfl
  have hshown : b'.contents = numberBytes .littleEndian 2 0 ++ str := by
    rw [hcont, ByteBuffer.contents_new, List.nil_append, hzero]
  refine ⟨b', numberBytes .littleEndian 2 0 ++ str, (run_bind_of_ok hrun).trans rfl, ?_, ?_⟩
  · rw [Serializer.data, if_neg (Nat.not_lt_zero _), List.drop_zero, hshown]
  · have hread : Reads (Deserializer.readString16 .littleEndian) (numberBytes .littleEndian 2 0 ++ [])
        [] := (Deserializer.reads_readUInt16 .littleEndian 0).bind (Deserializer.reads_fetch "read" rfl)
    have hitem := (hread.map Item.string16) str
    rw [List.append_nil] at hitem
    rw [readItems, run_bind_of_ok (x := Item.read base128 .littleEndian (.string16 str)) hitem]
    rfl

end LinSocketIo.Utils
