/-
LinSocketIo.Utils.CursorTheorems — a deserializer stays inside its string.

Where the cursor and the bytes behind it end with the string, each call does
to the cursor what the call of `Utils.Serializer` does to the bytes that are
left: it reads the same, throws the same, and moves by what was read. That is
`Refines (Shows mem)`, from the four ways a call looks at its bytes, and it
leaves no call that reads outside the string.

* `exec_refines` — a call and the same call on the bytes.
* `cursor_safe` — in every run of calls on a deserializer, the cursor and the
  size end with the string, and a block that is returned lies in it.
-/
import LinSocketIo.Base.Machine
import LinSocketIo.Base.Refines
import LinSocketIo.Utils.Cursor
import LinSocketIo.Utils.SerializerItems

namespace LinSocketIo.Utils.Cursor

open LinSocketIo.Base

/-- The cursor and its size end with the string. -/
def Within (mem : List UInt8) (held : Cursor) : Prop := held.pos + held.size = mem.length

/-- The bytes from the cursor to the end of the string. -/
def Shows (mem : List UInt8) (held : Cursor) (data : List UInt8) : Prop :=
  Within mem held ∧ data = mem.drop held.pos

/-- The exception that a call on the bytes throws. -/
def Throws (fault : Fault) (e : Thrown) : Prop := fault = .thrown e

/-- The block lies in the string and holds these bytes. -/
def Holds (mem : List UInt8) (b : Block) (bytes : List UInt8) : Prop :=
  b.ptr + b.len ≤ mem.length ∧ load mem b.ptr b.len = bytes

variable {mem : List UInt8}

theorem shows_new (mem : List UInt8) : Shows mem (new mem) mem :=
  ⟨Nat.zero_add _, rfl⟩

theorem length_of_shows {held : Cursor} {data : List UInt8} (h : Shows mem held data) :
    data.length = held.size := by
  obtain ⟨hwithin, rfl⟩ := h
  unfold Within at hwithin
  rw [List.length_drop]
  omega

theorem subSize_of_le {m n : Nat} (h : n ≤ m) (hm : m < 2 ^ 64) : subSize m n = m - n := by
  unfold subSize
  omega

/-- The cursor moves over bytes that are there. -/
theorem shows_forward (hmem : mem.length < 2 ^ 64) {held : Cursor} {data : List UInt8} {k : Nat}
    (h : Shows mem held data) (hk : k ≤ held.size) :
    Shows mem ⟨held.pos + k, subSize held.size k⟩ (data.drop k) := by
  obtain ⟨hwithin, rfl⟩ := h
  unfold Within at hwithin
  refine ⟨?_, by rw [List.drop_drop]⟩
  rw [subSize_of_le hk (by omega)]
  show held.pos + k + (held.size - k) = mem.length
  omega

/-- The first bytes behind the cursor. -/
theorem holds_front {held : Cursor} {data : List UInt8} {k : Nat} (h : Shows mem held data)
    (hk : k ≤ held.size) : Holds mem ⟨held.pos, k⟩ (data.take k) := by
  obtain ⟨hwithin, rfl⟩ := h
  unfold Within at hwithin
  exact ⟨by simp only; omega, rfl⟩

/-! ## The ways to look at the bytes -/

theorem run_access {b : Block} {bytes : List UInt8} (h : Holds mem b bytes) (held : Cursor) :
    (access mem b).run held = .ok bytes held := by
  obtain ⟨hin, rfl⟩ := h
  unfold access
  rw [if_pos hin]
  rfl

theorem run_fetch (what : String) (k : Nat) (data : List UInt8) :
    (Deserializer.fetch what k).run data =
      if data.length < k then
        .error (.runtimeException ("Deserializer." ++ what ++ "(): not enough data")) data
      else .ok (data.take k) (data.drop k) := by
  simp only [Deserializer.fetch, EStateM.run_bind, EStateM.run_get, run_ite]
  rfl

theorem run_read (k : Nat) (held : Cursor) :
    (read k).run held =
      if held.size < k then .error (notEnough "read") held
      else .ok ⟨held.pos, k⟩ ⟨held.pos + k, subSize held.size k⟩ := by
  simp only [read, EStateM.run_bind, EStateM.run_get, run_ite]
  rfl

theorem run_skip (k : Nat) (held : Cursor) :
    (skip k).run held =
      if held.size < k then .error (notEnough "skip") held
      else .ok () ⟨held.pos + k, subSize held.size k⟩ := by
  simp only [skip, EStateM.run_bind, EStateM.run_get, run_ite]
  rfl

/-- A number is read from the cursor, when its bytes are there. -/
theorem run_readNumber (what : String) {n : Nat} {held : Cursor} (h : Within mem held) :
    (readNumber mem what n).run held =
      if held.size < n then .error (notEnough what) held
      else .ok (leNat (load mem held.pos n)) ⟨held.pos + n, subSize held.size n⟩ := by
  simp only [readNumber, EStateM.run_bind, EStateM.run_get, run_ite]
  by_cases hlt : held.size < n
  · rw [if_pos hlt, if_pos hlt]
    rfl
  · have hhold := holds_front ⟨h, rfl⟩ (Nat.le_of_not_lt hlt)
    rw [if_neg hlt, if_neg hlt]
    simp only [run_access hhold]
    rfl

/-- A varint is read from the cursor, when one is there. -/
theorem run_readVarint (vi : ByteBuffer.Varint) {held : Cursor} {data : List UInt8}
    (h : Shows mem held data) :
    (readVarint mem vi).run held =
      if (vi.read data).1 ≤ 0 then .error (notEnough "read_varint") held
      else .ok (vi.read data).2
        ⟨held.pos + (vi.read data).1.toNat, subSize held.size (vi.read data).1.toNat⟩ := by
  have hhold := holds_front h (Nat.le_refl held.size)
  rw [List.take_of_length_le (Nat.le_of_eq (length_of_shows h))] at hhold
  simp only [readVarint, EStateM.run_bind, EStateM.run_get, run_access hhold, run_ite]
  rfl

/-! ## Each call and its counterpart -/

/-- A call does to the cursor what another one does to the bytes. -/
abbrev OnBytes {α β : Type} (mem : List UInt8) (R : α → β → Prop) (x : CursorM α)
    (y : DeserializerM β) : Prop :=
  Refines (Shows mem) Throws R x y

/-- The bytes of a block are copied. -/
theorem copy_refines {x : CursorM Block} {y : DeserializerM (List UInt8)}
    (hx : OnBytes mem (Holds mem) x y) :
    OnBytes mem Eq (do let p ← x; access mem p) y :=
  refines_bind_pure hx fun p bytes hp held data h => by
    rw [run_access hp]
    exact ⟨rfl, h⟩

/-- What was read is dropped. -/
theorem ignore_refines {α β : Type} {R : α → β → Prop} {x : CursorM α} {y : DeserializerM β}
    (hx : OnBytes mem R x y) :
    OnBytes mem (fun _ _ : Unit => True) (do let _ ← x) (do let _ ← y) :=
  refines_bind hx fun _ _ _ => refines_pure trivial

theorem getSize_refines : OnBytes mem Eq getSize Deserializer.size :=
  fun _ _ h => ⟨(length_of_shows h).symm, h⟩

section

variable (hmem : mem.length < 2 ^ 64)

include hmem

theorem read_refines (k : Nat) : OnBytes mem (Holds mem) (read k) (Deserializer.read k) := by
  intro held data h
  have hlen := length_of_shows h
  rw [run_read, Deserializer.read, run_fetch, hlen]
  by_cases hlt : held.size < k
  · rw [if_pos hlt, if_pos hlt]
    exact ⟨rfl, h⟩
  · rw [if_neg hlt, if_neg hlt]
    have hk := Nat.le_of_not_lt hlt
    exact ⟨holds_front h hk, shows_forward hmem h hk⟩

theorem skip_refines (k : Nat) :
    OnBytes mem (fun _ _ => True) (skip k) (Deserializer.skip k) := by
  intro held data h
  have hlen := length_of_shows h
  rw [run_skip, Deserializer.skip, EStateM.run_bind, run_fetch, hlen]
  by_cases hlt : held.size < k
  · rw [if_pos hlt, if_pos hlt]
    exact ⟨rfl, h⟩
  · rw [if_neg hlt, if_neg hlt]
    exact ⟨trivial, shows_forward hmem h (Nat.le_of_not_lt hlt)⟩

theorem readNumber_refines (what : String) (n : Nat) :
    OnBytes mem Eq (readNumber mem what n) (Deserializer.readNumber what n) := by
  intro held data h
  have hlen := length_of_shows h
  rw [run_readNumber what h.1, Deserializer.readNumber, map_eq_pure_bind, EStateM.run_bind,
    run_fetch, hlen]
  by_cases hlt : held.size < n
  · rw [if_pos hlt, if_pos hlt]
    exact ⟨rfl, h⟩
  · rw [if_neg hlt, if_neg hlt]
    have hk := Nat.le_of_not_lt hlt
    exact ⟨congrArg leNat (holds_front h hk).2, shows_forward hmem h hk⟩

variable {vi : ByteBuffer.Varint} (hvi : ∀ data, (vi.read data).1 ≤ data.length)

include hvi in
theorem readVarint_refines :
    OnBytes mem Eq (readVarint mem vi) (Deserializer.readVarint vi) := by
  intro held data h
  have hlen := length_of_shows h
  have hle := hvi data
  have hrun : (Deserializer.readVarint vi).run data =
      if (vi.read data).1 ≤ 0 then
        .error (.runtimeException "Deserializer.read_varint(): not enough data") data
      else .ok (vi.read data).2 (data.drop (vi.read data).1.toNat) := by
    simp only [Deserializer.readVarint, EStateM.run_bind, EStateM.run_get, run_ite]
    rfl
  rw [run_readVarint vi h, hrun]
  by_cases hnone : (vi.read data).1 ≤ 0
  · rw [if_pos hnone, if_pos hnone]
    exact ⟨rfl, h⟩
  · rw [if_neg hnone, if_neg hnone]
    exact ⟨rfl, shows_forward hmem h (by omega)⟩

theorem readByte_refines : OnBytes mem Eq (readByte mem) Deserializer.readByte :=
  refines_map (readNumber_refines hmem "read_byte" 1) fun _ _ h => by rw [h]

variable (bo : ByteOrder)

theorem readUInt16_refines : OnBytes mem Eq (readUInt16 mem bo) (Deserializer.readUInt16 bo) :=
  refines_map (readNumber_refines hmem "read_uint16" 2) fun _ _ h => by rw [h]

theorem readUInt32_refines : OnBytes mem Eq (readUInt32 mem bo) (Deserializer.readUInt32 bo) :=
  refines_map (readNumber_refines hmem "read_uint32" 4) fun _ _ h => by rw [h]

theorem readBytes32_refines :
    OnBytes mem (Holds mem) (readBytes32 mem bo) (Deserializer.readBytes32 bo) :=
  refines_bind (readUInt32_refines hmem bo) fun size _ h => by
    subst h
    exact read_refines hmem size.toNat

theorem readString16_refines :
    OnBytes mem Eq (readString16 mem bo) (Deserializer.readString16 bo) :=
  refines_bind (readUInt16_refines hmem bo) fun len _ h => by
    subst h
    exact copy_refines (read_refines hmem len.toNat)

include hvi

theorem readBytes_refines :
    OnBytes mem (Holds mem) (readBytes mem vi) (Deserializer.readBytes vi) :=
  refines_bind (readVarint_refines hmem hvi) fun size _ h => by
    subst h
    exact read_refines hmem size.toUInt64.toNat

theorem readVarint32_refines : OnBytes mem Eq (readVarint32 mem vi) (Pb.readVarint32 vi) :=
  refines_map (readVarint_refines hmem hvi) fun _ _ h => by rw [h]

theorem readBlock_refines (type : Int32) :
    OnBytes mem (Holds mem) (readBlock mem bo vi type) (Pb.readBlock vi bo type) := by
  refine refines_ite (refines_bind (readUInt32_refines hmem bo) fun sz _ h => ?_)
    (refines_ite (refines_bind (readVarint32_refines hmem hvi) fun sz _ h => ?_) (refines_throw rfl))
  · subst h
    exact read_refines hmem sz.toNat
  · subst h
    exact read_refines hmem sz.toNat

theorem skipPayload_refines (type : UInt32) :
    OnBytes mem (fun _ _ => True) (skipPayload mem bo vi type) (Pb.skipPayload vi bo type) := by
  refine refines_ite (ignore_refines (readVarint_refines hmem hvi))
    (refines_ite (ignore_refines (read_refines hmem 4))
      (refines_ite (ignore_refines (read_refines hmem 8))
        (refines_ite (refines_bind (readUInt32_refines hmem bo) fun sz _ h => ?_)
          (refines_ite (refines_bind (readVarint32_refines hmem hvi) fun sz _ h => ?_)
            (refines_throw rfl)))))
  · subst h
    exact ignore_refines (read_refines hmem sz.toNat)
  · subst h
    exact ignore_refines (read_refines hmem sz.toNat)

theorem skipField_refines (type : UInt32) :
    OnBytes mem Eq (skipField mem bo vi type) (Pb.skip vi bo type) :=
  refines_bind getSize_refines fun presize _ hpre => by
    subst hpre
    refine refines_bind (skipPayload_refines hmem hvi bo type) fun _ _ _ => ?_
    exact refines_bind getSize_refines fun size _ hsize => refines_pure (by rw [hsize])

end

/-! ## A deserializer in use -/

/-- The same call on the bytes, with the bytes of the block it returns if it returns one. -/
def Call.onBytes (bo : ByteOrder) (vi : ByteBuffer.Varint) : Call → DeserializerM (Option (List UInt8))
  | .skip k => (fun _ => none) <$> Deserializer.skip k
  | .read k => some <$> Deserializer.read k
  | .readRaw n => (fun _ => none) <$> Deserializer.read n
  | .readByte => (fun _ => none) <$> Deserializer.readByte
  | .readBool => (fun _ => none) <$> Deserializer.readBool
  | .readInt16 => (fun _ => none) <$> Deserializer.readInt16 bo
  | .readInt32 => (fun _ => none) <$> Deserializer.readInt32 bo
  | .readInt64 => (fun _ => none) <$> Deserializer.readInt64 bo
  | .readUInt16 => (fun _ => none) <$> Deserializer.readUInt16 bo
  | .readUInt32 => (fun _ => none) <$> Deserializer.readUInt32 bo
  | .readUInt64 => (fun _ => none) <$> Deserializer.readUInt64 bo
  | .readFloat => (fun _ => none) <$>
      (fun u => BO.hton32 (UInt32.ofNat u) bo) <$> Deserializer.readNumber "read_float" 4
  | .readDouble => (fun _ => none) <$> Deserializer.readDouble bo
  | .readVarint => (fun _ => none) <$> Deserializer.readVarint vi
  | .readBytes32 => some <$> Deserializer.readBytes32 bo
  | .readString32 => (fun _ => none) <$> Deserializer.readBytes32 bo
  | .readString16 => (fun _ => none) <$> Deserializer.readString16 bo
  | .readBytes => some <$> Deserializer.readBytes vi
  | .readString => (fun _ => none) <$> Deserializer.readBytes vi
  | .skipField type => (fun _ => none) <$> Pb.skip vi bo type
  | .readBlock type => some <$> Pb.readBlock vi bo type

section

variable {α β : Type}

/-- A call that returns no block. -/
theorem value_refines {R : α → β → Prop} {x : CursorM α} {y : DeserializerM β} (hx : OnBytes mem R x y) :
    OnBytes mem (Option.Rel (Holds mem)) ((fun _ => none) <$> x) ((fun _ => none) <$> y) :=
  refines_map hx fun _ _ _ => .none

/-- A call that returns a number of `n` bytes. -/
theorem number_refines (hmem : mem.length < 2 ^ 64) (what : String) (n : Nat) (f : Nat → α)
    (g : Nat → β) :
    OnBytes mem (Option.Rel (Holds mem)) ((fun _ => none) <$> f <$> readNumber mem what n)
      ((fun _ => none) <$> g <$> Deserializer.readNumber what n) :=
  value_refines (refines_map (Q := fun _ _ => True) (readNumber_refines hmem what n) fun _ _ _ => trivial)

/-- A call that returns a block. -/
theorem block_refines {x : CursorM Block} {y : DeserializerM (List UInt8)}
    (hx : OnBytes mem (Holds mem) x y) :
    OnBytes mem (Option.Rel (Holds mem)) (some <$> x) (some <$> y) :=
  refines_map hx fun _ _ h => .some h

end

variable {vi : ByteBuffer.Varint}

/-- **A call on the cursor is the call on the bytes that are left**: both return, with a
block that holds the bytes, or both throw the same. -/
theorem exec_refines (hmem : mem.length < 2 ^ 64) (hvi : ∀ data, (vi.read data).1 ≤ data.length)
    (bo : ByteOrder) (call : Call) :
    OnBytes mem (Option.Rel (Holds mem)) (call.exec mem bo vi) (call.onBytes bo vi) := by
  cases call with
  | skip k => exact value_refines (skip_refines hmem k)
  | read k => exact block_refines (read_refines hmem k)
  | readRaw n => exact value_refines (copy_refines (read_refines hmem n))
  | readByte => exact number_refines hmem "read_byte" 1 _ _
  | readBool =>
      exact value_refines (R := fun _ _ => True)
        (refines_map (readByte_refines hmem) fun _ _ _ => trivial)
  | readInt16 => exact number_refines hmem "read_int16" 2 _ _
  | readInt32 => exact number_refines hmem "read_int32" 4 _ _
  | readInt64 => exact number_refines hmem "read_int64" 8 _ _
  | readUInt16 => exact number_refines hmem "read_uint16" 2 _ _
  | readUInt32 => exact number_refines hmem "read_uint32" 4 _ _
  | readUInt64 => exact number_refines hmem "read_uint64" 8 _ _
  | readFloat => exact number_refines hmem "read_float" 4 _ _
  | readDouble => exact number_refines hmem "read_double" 8 _ _
  | readVarint => exact value_refines (readVarint_refines hmem hvi)
  | readBytes32 => exact block_refines (readBytes32_refines hmem bo)
  | readString32 => exact value_refines (copy_refines (readBytes32_refines hmem bo))
  | readString16 => exact value_refines (readString16_refines hmem bo)
  | readBytes => exact block_refines (readBytes_refines hmem hvi)
  | readString => exact value_refines (copy_refines (readBytes_refines hmem hvi))
  | skipField type => exact value_refines (skipField_refines hmem hvi bo type)
  | readBlock type => exact block_refines (readBlock_refines hmem hvi bo type)

/-- A deserializer, and how the last call on it ended. -/
structure Reading where
  cursor : Cursor
  last : Except Fault (Option Block)

/-- A deserializer over `mem` under calls. The next call comes also after one that threw. -/
def reading (mem : List UInt8) (bo : ByteOrder) (vi : ByteBuffer.Varint) : Machine Reading Call where
  init := ⟨new mem, .ok none⟩
  step s call := some <|
    match (call.exec mem bo vi).run s.cursor with
    | .ok r held => ⟨held, .ok r⟩
    | .error e held => ⟨held, .error e⟩

/-- What is consumed and what is left make up the string; the last call read nothing outside
the string, and a block that it returned lies in the string. -/
structure InBounds (mem : List UInt8) (s : Reading) : Prop where
  whole : s.cursor.pos + s.cursor.size = mem.length
  inside : s.last ≠ .error .outside
  block : ∀ b, s.last = .ok (some b) → b.ptr + b.len ≤ mem.length

theorem reading_step (hmem : mem.length < 2 ^ 64) (hvi : ∀ data, (vi.read data).1 ≤ data.length)
    {bo : ByteOrder} {s s' : Reading} {call : Call} (h : InBounds mem s)
    (hstep : (reading mem bo vi).step s call = some s') : InBounds mem s' := by
  have hend := (exec_refines hmem hvi bo call).wp ⟨h.whole, rfl⟩
  have hs' := (Option.some.inj hstep).symm
  unfold wp at hend
  cases hrun : (call.exec mem bo vi).run s.cursor with
  | ok r held =>
      rw [hrun] at hend hs'
      obtain ⟨bytes, data, hblock, hshows⟩ := hend
      subst hs'
      refine ⟨hshows.1, (nomatch ·), fun b hb => ?_⟩
      cases hb
      cases hblock with
      | some hholds => exact hholds.1
  | error e held =>
      rw [hrun] at hend hs'
      obtain ⟨e', data, hthrows, hshows⟩ := hend
      subst hs'
      refine ⟨hshows.1, fun hout => ?_, (nomatch · , ·)⟩
      cases hout
      cases hthrows

/-- **A deserializer stays inside its string**: for every string and every sequence of calls,
each of which is made whether the one before it threw or not. -/
theorem cursor_safe (hmem : mem.length < 2 ^ 64) (hvi : ∀ data, (vi.read data).1 ≤ data.length)
    (bo : ByteOrder) (calls : List Call) :
    ∃ s, (reading mem bo vi).run (reading mem bo vi).init calls = some s ∧ InBounds mem s := by
  obtain ⟨s, hs⟩ := (reading mem bo vi).run_total (fun _ _ => ⟨_, rfl⟩) calls (reading mem bo vi).init
  have hinit : InBounds mem (reading mem bo vi).init :=
    ⟨(shows_new mem).1, (nomatch ·), fun b hb => by cases hb⟩
  refine ⟨s, hs, ?_⟩
  exact (reading mem bo vi).run_invariant (C := fun _ _ => True)
    (fun _ _ _ hP _ hstep => reading_step hmem hvi hP hstep) calls hinit
    (Machine.allSteps_of_forall _ (fun _ _ => trivial) _) hs

theorem base128_read_le (data : List UInt8) : (base128.read data).1 ≤ data.length := by
  unfold base128
  simp only
  cases hdecode : Base128.decode data with
  | none => exact Int.natCast_nonneg _
  | some p => exact Int.ofNat_le.mpr (Base128.decode_le hdecode)

/-- Calls on twelve bytes whose lengths are too large: a string that claims 200 bytes, a block
that claims more than there are, a varint that does not end. -/
theorem cursor_safe_claims :
    ∃ s, (reading [200, 0, 144, 3, 7, 9, 255, 255, 255, 255, 128, 128] .littleEndian base128).run
        (reading [200, 0, 144, 3, 7, 9, 255, 255, 255, 255, 128, 128] .littleEndian base128).init
        [.readString16, .readBytes, .read 2, .readBlock 6, .readVarint, .skipField 2, .readUInt32]
          = some s ∧
      InBounds [200, 0, 144, 3, 7, 9, 255, 255, 255, 255, 128, 128] s :=
  cursor_safe (by decide) base128_read_le .littleEndian _

end LinSocketIo.Utils.Cursor
