/-
LinSocketIo.Utils.PacketCanonical — unpacking reads nothing but images.

Most types have one image for each value, and every input their `operator >>`
accepts begins with one: a length field is the length of what comes with it.
What was unpacked is packed again as the same bytes (`unpack_canonical`). For
`bool`, where every byte but zero is true, and for sets and maps, which drop
and reorder elements, this is not so.
-/
import LinSocketIo.Utils.PacketTheorems

namespace LinSocketIo.Utils

open LinSocketIo.Base

/-- The types built from numbers, strings, pairs and sequences. -/
def Schema.Plain : Schema → Prop
  | .bool => False
  | .pair a b => a.Plain ∧ b.Plain
  | .vector a => a.Plain
  | .list a => a.Plain
  | .set _ => False
  | .map _ _ => False
  | .listOfMap _ _ => False
  | .compositeMap _ _ _ => False
  | _ => True

/-! ## Unpacking -/

namespace Unpack

open Deserializer

variable {mSize : Nat → Nat} (bo : ByteOrder) {α β : Type}

/-- A call that reads a number of `k` bytes, when the bytes make the number. -/
theorem canonical_number {x : DeserializerM α} {k : Nat} (toNat : α → Nat) (ofWord : List UInt8 → α)
    (hx : Accepts IsUnpackError x (wordsOf k) 0)
    (hread : ∀ u, Reads x (numberBytes bo k (toNat u)) u)
    (hword : ∀ w : List UInt8, w.length = k → toNat (ofWord w) = BO.convert k (leNat w) bo) :
    Canonical x (fun _ => True) (fun u => numberBytes bo k (toNat u)) := by
  refine hx.canonical hread fun w hw => ?_
  rw [← iSup_numberBytes bo toNat ofWord hword, Language.mem_iSup] at hw
  exact hw

theorem canonical_popUInt8 : Canonical popUInt8 (fun _ => True) (fun u => [u]) := by
  refine (accepts_number UInt8.ofNat).canonical reads_readByte fun w hw => ?_
  obtain ⟨u, rfl⟩ := List.length_eq_one_iff.mp hw
  exact ⟨u, rfl⟩

theorem canonical_popUInt16 :
    Canonical (popUInt16 bo) (fun _ => True) (fun u => numberBytes bo 2 u.toNat) :=
  canonical_number bo UInt16.toNat (fun w => UInt16.ofNat (BO.convert 2 (leNat w) bo))
    (accepts_number _) (reads_readUInt16 bo)
    fun _ hw => UInt16.toNat_ofNat_of_lt' (convert_lt bo (leNat_lt_of_length hw))

theorem canonical_popUInt32 :
    Canonical (popUInt32 bo) (fun _ => True) (fun u => numberBytes bo 4 u.toNat) :=
  canonical_number bo UInt32.toNat (fun w => UInt32.ofNat (BO.convert 4 (leNat w) bo))
    (accepts_number _) (reads_readUInt32 bo)
    fun _ hw => UInt32.toNat_ofNat_of_lt' (convert_lt bo (leNat_lt_of_length hw))

theorem canonical_number64 {what : String}
    (hread : ∀ u : UInt64, Reads ((fun u => BO.hton64 (UInt64.ofNat u) bo) <$> readNumber what 8)
      (numberBytes bo 8 u.toNat) u) :
    Canonical ((fun u => BO.hton64 (UInt64.ofNat u) bo) <$> readNumber what 8) (fun _ => True)
      (fun u => numberBytes bo 8 u.toNat) :=
  canonical_number bo UInt64.toNat (fun w => UInt64.ofNat (BO.convert 8 (leNat w) bo))
    (accepts_number _) hread
    fun _ hw => UInt64.toNat_ofNat_of_lt' (convert_lt bo (leNat_lt_of_length hw))

/-- What `pop_fetch_ptr` gives is what it passes over. -/
theorem of_popFetchPtr {k : Nat} {s a r : List UInt8} (h : (popFetchPtr k).run s = .ok a r) :
    a.length = k ∧ s = a ++ r := by
  obtain ⟨w, hw, rfl⟩ := (accepts_popFetchPtr k).of_returns s a r h
  have hread := reads_popFetchPtr w r
  rw [show w.length = k from hw, h] at hread
  cases hread
  exact ⟨hw, rfl⟩

theorem canonical_popVarstr (hm : KeepsLengths mSize) :
    Canonical (popVarstr mSize bo) (Schema.Valid .string) (Schema.wire bo .string) := by
  intro s str r h
  obtain ⟨u16, t, hcount, hfetch⟩ := ok_of_run_bind h
  obtain ⟨-, rfl⟩ := canonical_popUInt16 bo s u16 t hcount
  have hlt := u16.toNat_lt
  rw [hm _ (by omega)] at hfetch
  obtain ⟨hlen, rfl⟩ := of_popFetchPtr hfetch
  refine ⟨show str.length ≤ 65535 by omega, ?_⟩
  rw [Schema.wire, hlen, List.append_assoc]

theorem canonical_popVarstr32 (hm : KeepsLengths mSize) :
    Canonical (popVarstr32 mSize bo) (Schema.Valid .string32) (Schema.wire bo .string32) := by
  intro s str r h
  obtain ⟨u32, t, hcount, hfetch⟩ := ok_of_run_bind h
  obtain ⟨-, rfl⟩ := canonical_popUInt32 bo s u32 t hcount
  have hlt := u32.toNat_lt
  rw [hm _ hlt] at hfetch
  obtain ⟨hlen, rfl⟩ := of_popFetchPtr hfetch
  refine ⟨show str.length < 4294967296 by omega, ?_⟩
  rw [Schema.wire, hlen, List.append_assoc]

theorem canonical_unmarshalPair {first : DeserializerM α} {second : DeserializerM β}
    {P : α → Prop} {Q : β → Prop} {image : α → List UInt8} {image' : β → List UInt8}
    (h : Canonical first P image) (h' : Canonical second Q image') :
    Canonical (unmarshalPair first second) (fun p => P p.1 ∧ Q p.2) (pairBytes image image') := by
  intro s p r hrun
  obtain ⟨a, t, hfirst, hrest⟩ := ok_of_run_bind hrun
  obtain ⟨b, t', hsecond, hpair⟩ := ok_of_run_bind hrest
  have hresult : EStateM.Result.ok (a, b) t' = .ok p r := hpair
  cases hresult
  obtain ⟨ha, rfl⟩ := h s a t hfirst
  obtain ⟨hb, rfl⟩ := h' t b r hsecond
  exact ⟨⟨ha, hb⟩, (List.append_assoc _ _ _).symm⟩

/-- The loop over the elements of a sequence puts each of them at the end. -/
theorem of_unmarshalLoop {elem : DeserializerM α} {P : α → Prop} {image : α → List UInt8}
    (h : Canonical elem P image) : ∀ {n : Nat} {c c' : List α} {s r : List UInt8},
    (unmarshalLoop elem pushBack n c).run s = .ok c' r →
      ∃ l, c' = c ++ l ∧ l.length = n ∧ (∀ x ∈ l, P x) ∧ s = l.flatMap image ++ r
  | 0, c, c', s, r, hrun => by
      cases hrun
      exact ⟨[], (List.append_nil c).symm, rfl, nofun, rfl⟩
  | n + 1, c, c', s, r, hrun => by
      obtain ⟨x, t, helem, hrest⟩ := ok_of_run_bind hrun
      obtain ⟨hx, rfl⟩ := h s x t helem
      obtain ⟨l, rfl, hlen, hl, rfl⟩ := of_unmarshalLoop h hrest
      refine ⟨x :: l, ?_, by rw [List.length_cons, hlen], ?_, ?_⟩
      · rw [pushBack, List.append_assoc, List.singleton_append]
      · intro y hy
        rcases List.mem_cons.mp hy with rfl | hy
        · exact hx
        · exact hl y hy
      · rw [List.flatMap_cons, List.append_assoc]

theorem canonical_sequence {elem : DeserializerM α} {P : α → Prop} {image : α → List UInt8}
    (h : Canonical elem P image) :
    Canonical (unmarshalContainer bo elem pushBack []) (ContainerOf P) (containerBytes bo image) := by
  intro s c r hrun
  obtain ⟨count, t, hcount, hloop⟩ := ok_of_run_bind hrun
  obtain ⟨-, rfl⟩ := canonical_popUInt32 bo s count t hcount
  obtain ⟨l, rfl, hlen, hl, rfl⟩ := of_unmarshalLoop h hloop
  refine ⟨⟨?_, hl⟩, ?_⟩
  · rw [hlen]
    exact count.toNat_lt
  · rw [containerBytes, hlen, List.append_assoc]

/-- Unpacking a plain type into an empty target reads the image of what it gives. -/
theorem canonical_unmarshal (hm : KeepsLengths mSize) : ∀ s : Schema, s.Plain →
    Canonical (unmarshal mSize bo s s.empty) s.Valid (s.wire bo)
  | .uint8, _ => canonical_popUInt8
  | .int8, _ => canonical_popUInt8.map fun u _ => ⟨trivial, by rw [Schema.wire, UInt8.toUInt8_toInt8]⟩
  | .uint16, _ => canonical_popUInt16 bo
  | .int16, _ => (canonical_popUInt16 bo).map fun u _ =>
      ⟨trivial, by rw [Schema.wire, UInt16.toUInt16_toInt16]⟩
  | .uint32, _ => canonical_popUInt32 bo
  | .int32, _ => (canonical_popUInt32 bo).map fun u _ =>
      ⟨trivial, by rw [Schema.wire, UInt32.toUInt32_toInt32]⟩
  | .uint64, _ => canonical_number64 bo (reads_readUInt64 bo)
  | .int64, _ => (canonical_number64 bo (reads_readUInt64 bo)).map fun u _ =>
      ⟨trivial, by rw [Schema.wire, UInt64.toUInt64_toInt64]⟩
  | .double, _ => canonical_number64 bo (reads_readDouble bo)
  | .string, _ => canonical_popVarstr bo hm
  | .string32, _ => canonical_popVarstr32 bo hm
  | .pair a b, h =>
      canonical_unmarshalPair (canonical_unmarshal hm a h.1) (canonical_unmarshal hm b h.2)
  | .vector a, h => canonical_sequence bo (canonical_unmarshal hm a h)
  | .list a, h => canonical_sequence bo (canonical_unmarshal hm a h)

end Unpack

/-! ## Packing what was unpacked -/

namespace Pack

open Serializer

variable (fresh : Nat → UInt8) (bo : ByteOrder) {α : Type}

/-- The length field and the elements, below the limit. -/
theorem appends_marshalContainer {P : α → Prop} {elem : α → SerializerM Unit}
    {image : α → List UInt8} (helem : ∀ x, P x → Appends (elem x) (image x)) {c : List α}
    (hc : ContainerOf P c) :
    Appends (marshalContainer fresh bo elem c) (containerBytes bo image c) := by
  have hlen := appends_writeUInt32 fresh bo (UInt32.ofNat c.length)
  rw [UInt32.toNat_ofNat_of_lt' hc.1] at hlen
  exact hlen.bind (Appends.forM c fun x hx => helem x (hc.2 x hx))

/-- Packing a plain type writes the image where the limit allows it. -/
theorem appends_marshal : ∀ (s : Schema), s.Plain → ∀ v : s.Val, s.Valid v →
    Appends (marshal fresh bo s v) (s.wire bo v)
  | .uint8, _, u8, _ => appends_write fresh [u8]
  | .int8, _, i8, _ => appends_write fresh [i8.toUInt8]
  | .uint16, _, u16, _ => appends_writeUInt16 fresh bo u16
  | .int16, _, i16, _ => appends_writeUInt16 fresh bo i16.toUInt16
  | .uint32, _, u32, _ => appends_writeUInt32 fresh bo u32
  | .int32, _, i32, _ => appends_writeUInt32 fresh bo i32.toUInt32
  | .uint64, _, u64, _ => appends_writeUInt64 fresh bo u64
  | .int64, _, i64, _ => appends_writeUInt64 fresh bo i64.toUInt64
  | .double, _, d, _ => appends_writeUInt64 fresh bo d
  | .string, _, str, h => by
      have hlen := appends_writeUInt16 fresh bo (UInt16.ofNat str.length)
      have hmax : str.length ≤ 65535 := h
      rw [UInt16.toNat_ofNat_of_lt' (show str.length < 2 ^ 16 by omega)] at hlen
      rw [marshal, pushVarstr, if_neg (Nat.not_lt.mpr hmax)]
      exact hlen.bind (appends_write fresh str)
  | .string32, _, str, h => by
      have hlen := appends_writeUInt32 fresh bo (UInt32.ofNat str.length)
      have hmax : str.length < 4294967296 := h
      rw [UInt32.toNat_ofNat_of_lt' hmax] at hlen
      rw [marshal, pushVarstr32, if_neg (by omega)]
      exact hlen.bind (appends_write fresh str)
  | .pair a b, hs, p, h => (appends_marshal a hs.1 p.1 h.1).bind (appends_marshal b hs.2 p.2 h.2)
  | .vector a, hs, _, h => appends_marshalContainer fresh bo (appends_marshal a hs) h
  | .list a, hs, _, h => appends_marshalContainer fresh bo (appends_marshal a hs) h

end Pack

/-- **Unpacking is canonical.** What unpacking a plain type into an empty target has read is, up to
the limit of the packing buffer, what packing the result in the same byte order gives. -/
theorem unpack_canonical {mSize : Nat → Nat} (hm : KeepsLengths mSize)
    (fresh stackbuff : Nat → UInt8) (bo : ByteOrder) (s : Schema) (hs : s.Plain)
    {data r : List UInt8} {v : s.Val}
    (h : (Unpack.unmarshal mSize bo s s.empty).run data = .ok v r) :
    ∃ w, data = w ++ r ∧
      (w.length ≤ 64 * 1024 * 1024 →
        Serializer.output stackbuff (Pack.marshal fresh bo s v) = .ok w) := by
  obtain ⟨hvalid, rfl⟩ := Unpack.canonical_unmarshal bo hm s hs data v r h
  exact ⟨_, rfl, Serializer.output_of_appends (Pack.appends_marshal fresh bo s hs v hvalid) stackbuff⟩

/-- A vector of a number and a string, in network byte order, with a byte behind it. -/
theorem unpack_canonical_vector :
    ∃ w, [0, 0, 0, 1, 0, 9, 0, 2, 104, 105, 7] = w ++ [7] ∧
      (w.length ≤ 64 * 1024 * 1024 →
        Serializer.output (fun _ => 0) (Pack.marshal (fun _ => 0) .bigEndian
          (.vector (.pair .uint16 .string)) [(9, [104, 105])]) = .ok w) :=
  have hm : KeepsLengths fun n => n % 2 ^ 64 := fun _ hn => Nat.mod_eq_of_lt (by omega)
  unpack_canonical hm (fun _ => 0) (fun _ => 0) .bigEndian (.vector (.pair .uint16 .string))
    ⟨trivial, trivial⟩ (by rfl)

end LinSocketIo.Utils
