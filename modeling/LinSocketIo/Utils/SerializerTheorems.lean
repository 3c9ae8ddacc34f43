/-
LinSocketIo.Utils.SerializerTheorems — what the fixed-size formats look like
on the wire, and that they are read back.

`numberBytes` is the image of a number in either byte order. Every writing
call appends the image of its argument, or throws because that is more than the
limit of the buffer (`WritesWithin`, and from it `Writes` and `Appends`), and
every reading call reads an image back whatever follows it (`Reads`). For the
inputs a call does not read, `Accepts` says what it throws.
-/
import LinSocketIo.Base.Reader
import LinSocketIo.Utils.ByteBufferTheorems
import LinSocketIo.Utils.Serializer

namespace LinSocketIo.Utils

open LinSocketIo.Base

/-! ## Numbers -/

/-- The `n` bytes of a number in a byte order. -/
def numberBytes (bo : ByteOrder) (n v : Nat) : List UInt8 :=
  match bo with
  | .littleEndian => leBytes n v
  | .bigEndian => (leBytes n v).reverse

@[simp] theorem length_numberBytes (bo : ByteOrder) (n v : Nat) :
    (numberBytes bo n v).length = n := by
  cases bo <;> simp [numberBytes]

/-- A number converted to the byte order has the bytes of that order in memory. -/
theorem leBytes_convert (bo : ByteOrder) (n v : Nat) :
    leBytes n (BO.convert n v bo) = numberBytes bo n v := by
  cases bo with
  | littleEndian => rfl
  | bigEndian =>
      have h := leBytes_leNat (leBytes n v).reverse
      rwa [List.length_reverse, length_leBytes] at h

theorem leNat_lt_of_length {bytes : List UInt8} {n : Nat} (h : bytes.length = n) :
    leNat bytes < 256 ^ n := by
  rw [← h]
  exact leNat_lt bytes

/-- The conversion back gives the number. -/
theorem convert_leNat_numberBytes (bo : ByteOrder) {n v : Nat} (h : v < 256 ^ n) :
    BO.convert n (leNat (numberBytes bo n v)) bo = v := by
  cases bo with
  | littleEndian => exact leNat_leBytes n v h
  | bigEndian =>
      have hback := leBytes_leNat (leBytes n v).reverse
      rw [List.length_reverse, length_leBytes] at hback
      show leNat (leBytes n (leNat (leBytes n v).reverse)).reverse = v
      rw [hback, List.reverse_reverse, leNat_leBytes n v h]

theorem convert_lt (bo : ByteOrder) {n v : Nat} (h : v < 256 ^ n) :
    BO.convert n v bo < 256 ^ n := by
  cases bo with
  | littleEndian => exact h
  | bigEndian => exact leNat_lt_of_length (by simp)

/-- Bytes are the image of the number they are converted to. -/
theorem numberBytes_convert_leNat (bo : ByteOrder) {w : List UInt8} {n : Nat}
    (h : w.length = n) : numberBytes bo n (BO.convert n (leNat w) bo) = w := by
  subst h
  cases bo with
  | littleEndian => exact leBytes_leNat w
  | bigEndian =>
      have hback := leBytes_leNat (leBytes w.length (leNat w)).reverse
      rw [List.length_reverse, length_leBytes] at hback
      show (leBytes w.length (leNat (leBytes w.length (leNat w)).reverse)).reverse = w
      rw [hback, List.reverse_reverse, leBytes_leNat]

theorem toNat_hton16 (i : UInt16) (bo : ByteOrder) :
    (BO.hton16 i bo).toNat = BO.convert 2 i.toNat bo :=
  UInt16.toNat_ofNat_of_lt' (convert_lt bo i.toNat_lt)

theorem toNat_hton32 (i : UInt32) (bo : ByteOrder) :
    (BO.hton32 i bo).toNat = BO.convert 4 i.toNat bo :=
  UInt32.toNat_ofNat_of_lt' (convert_lt bo i.toNat_lt)

theorem toNat_hton64 (i : UInt64) (bo : ByteOrder) :
    (BO.hton64 i bo).toNat = BO.convert 8 i.toNat bo :=
  UInt64.toNat_ofNat_of_lt' (convert_lt bo i.toNat_lt)

/-! ## Writing -/

/-- The call appends `w`, or hits the limit of the buffer. -/
def Writes (x : SerializerM Unit) (w : List UInt8) : Prop :=
  ∀ b : ByteBuffer, b.Wf →
    (∃ b', x.run b = .ok () b' ∧ b'.Wf ∧ b'.contents = b.contents ++ w) ∨
      ∃ b', x.run b = .error (.buffer (.resourceLimit "buffer overflow")) b'

/-- The call appends `w` where the limit of the buffer allows it. -/
def Appends (x : SerializerM Unit) (w : List UInt8) : Prop :=
  ∀ b : ByteBuffer, b.Wf → b.size + w.length ≤ b.limit →
    ∃ b', x.run b = .ok () b' ∧ b'.Wf ∧ b'.contents = b.contents ++ w ∧ b'.limit = b.limit

/-- The call appends `w`, or throws because the limit of the buffer leaves less than `spare`
bytes behind `w`. A call that reserves only what it writes needs none. -/
def WritesWithin (spare : Nat) (x : SerializerM Unit) (w : List UInt8) : Prop :=
  ∀ b : ByteBuffer, b.Wf →
    (∃ b', x.run b = .ok () b' ∧ b'.Wf ∧ b'.contents = b.contents ++ w ∧ b'.limit = b.limit) ∨
      ∃ b', x.run b = .error (.buffer (.resourceLimit "buffer overflow")) b' ∧
        b.limit < b.size + w.length + spare

namespace WritesWithin

variable {spare : Nat} {x y : SerializerM Unit} {w w' : List UInt8}

theorem writes (hx : WritesWithin spare x w) : Writes x w := fun b hb =>
  (hx b hb).imp (fun ⟨b', hrun, hb', hcont, _⟩ => ⟨b', hrun, hb', hcont⟩)
    fun ⟨b', hrun, _⟩ => ⟨b', hrun⟩

theorem appends (hx : WritesWithin 0 x w) : Appends x w := by
  intro b hb hlimit
  rcases hx b hb with h | ⟨b', -, hover⟩
  · exact h
  · omega

theorem mono (hx : WritesWithin spare x w) {spare' : Nat} (hle : spare ≤ spare') :
    WritesWithin spare' x w := fun b hb =>
  (hx b hb).imp_right fun ⟨b', hrun, hover⟩ => ⟨b', hrun, by omega⟩

theorem pure : WritesWithin spare (pure ()) [] :=
  fun b hb => Or.inl ⟨b, rfl, hb, (List.append_nil _).symm, rfl⟩

theorem bind (hx : WritesWithin spare x w) (hy : WritesWithin spare y w') :
    WritesWithin spare (x >>= fun _ => y) (w ++ w') := by
  intro b hb
  rw [List.length_append]
  rcases hx b hb with ⟨b1, hrun1, hb1, hcont1, hlimit1⟩ | ⟨b1, hrun1, hover⟩
  · have hsize : b1.size = b.size + w.length := by
      rw [← ByteBuffer.length_contents hb1, hcont1, List.length_append,
        ByteBuffer.length_contents hb]
    rw [run_bind_of_ok hrun1]
    rcases hy b1 hb1 with ⟨b2, hrun2, hb2, hcont2, hlimit2⟩ | ⟨b2, hrun2, hover⟩
    · refine Or.inl ⟨b2, hrun2, hb2, ?_, hlimit2.trans hlimit1⟩
      rw [hcont2, hcont1, List.append_assoc]
    · exact Or.inr ⟨b2, hrun2, by omega⟩
  · exact Or.inr ⟨b1, run_bind_of_error hrun1, by omega⟩

theorem forM {α : Type} {f : α → SerializerM Unit} {image : α → List UInt8} :
    ∀ c : List α, (∀ a ∈ c, WritesWithin spare (f a) (image a)) →
      WritesWithin spare (c.forM f) (c.flatMap image)
  | [], _ => pure
  | a :: c, h => by
      rw [List.flatMap_cons]
      exact (h a List.mem_cons_self).bind (forM c fun a' ha' => h a' (List.mem_cons_of_mem a ha'))

end WritesWithin

theorem Writes.pure : Writes (pure ()) [] := WritesWithin.writes (@WritesWithin.pure 0)

theorem Writes.bind {x y : SerializerM Unit} {w w' : List UInt8} (hx : Writes x w)
    (hy : Writes y w') : Writes (x >>= fun _ => y) (w ++ w') := by
  intro b hb
  rcases hx b hb with ⟨b1, hrun1, hb1, hcont1⟩ | ⟨b1, hrun1⟩
  · rw [run_bind_of_ok hrun1]
    rcases hy b1 hb1 with ⟨b2, hrun2, hb2, hcont2⟩ | ⟨b2, hrun2⟩
    · refine Or.inl ⟨b2, hrun2, hb2, ?_⟩
      rw [hcont2, hcont1, List.append_assoc]
    · exact Or.inr ⟨b2, hrun2⟩
  · exact Or.inr ⟨b1, run_bind_of_error hrun1⟩

theorem Writes.forM {α : Type} {f : α → SerializerM Unit} {image : α → List UInt8} :
    ∀ c : List α, (∀ a ∈ c, Writes (f a) (image a)) → Writes (c.forM f) (c.flatMap image)
  | [], _ => Writes.pure
  | a :: c, h => by
      rw [List.flatMap_cons]
      exact (h a List.mem_cons_self).bind
        (Writes.forM c fun a' ha' => h a' (List.mem_cons_of_mem a ha'))

theorem Appends.pure : Appends (pure ()) [] :=
  fun b hb _ => ⟨b, rfl, hb, (List.append_nil _).symm, rfl⟩

theorem Appends.bind {x y : SerializerM Unit} {w w' : List UInt8} (hx : Appends x w)
    (hy : Appends y w') : Appends (x >>= fun _ => y) (w ++ w') := by
  intro b hb hlimit
  rw [List.length_append] at hlimit
  obtain ⟨b1, hrun1, hb1, hcont1, hlimit1⟩ := hx b hb (by omega)
  have hsize : b1.size = b.size + w.length := by
    rw [← ByteBuffer.length_contents hb1, hcont1, List.length_append, ByteBuffer.length_contents hb]
  obtain ⟨b2, hrun2, hb2, hcont2, hlimit2⟩ := hy b1 hb1 (by omega)
  refine ⟨b2, ?_, hb2, ?_, hlimit2.trans hlimit1⟩
  · rw [run_bind_of_ok hrun1, hrun2]
  · rw [hcont2, hcont1, List.append_assoc]

theorem Appends.forM {α : Type} {f : α → SerializerM Unit} {image : α → List UInt8} :
    ∀ c : List α, (∀ a ∈ c, Appends (f a) (image a)) → Appends (c.forM f) (c.flatMap image)
  | [], _ => Appends.pure
  | a :: c, h => by
      rw [List.flatMap_cons]
      exact (h a List.mem_cons_self).bind
        (Appends.forM c fun a' ha' => h a' (List.mem_cons_of_mem a ha'))

namespace Serializer

variable (fresh : Nat → UInt8) (bo : ByteOrder)

/-- A writing call on the buffer, from what the buffer does. -/
theorem within_onBuffer {spare : Nat} {x : BufferM Unit} {w : List UInt8}
    (hx : ∀ b : ByteBuffer, b.Wf →
      (∃ b', x.run b = .ok () b' ∧ b'.Wf ∧ b'.contents = b.contents ++ w ∧ b'.limit = b.limit) ∨
        (x.run b = .error (.resourceLimit "buffer overflow") b ∧
          b.limit < b.size + w.length + spare)) :
    WritesWithin spare (onBuffer x) w := by
  intro b hb
  rcases hx b hb with ⟨b', hrun, h⟩ | ⟨hrun, hover⟩
  · refine Or.inl ⟨b', ?_, h⟩
    show onBuffer x b = _
    rw [onBuffer, hrun]
  · refine Or.inr ⟨b, ?_, hover⟩
    show onBuffer x b = _
    rw [onBuffer, hrun]

theorem within_append (dat : List UInt8) :
    WritesWithin 0 (onBuffer (ByteBuffer.append fresh dat)) dat :=
  within_onBuffer fun _ hb => ByteBuffer.append_spec hb fresh dat

theorem within_write (raw : List UInt8) : WritesWithin 0 (write fresh raw) raw := by
  refine within_onBuffer fun b hb => ?_
  rcases ByteBuffer.append_spec hb fresh raw with ⟨b', hrun, h⟩ | ⟨hrun, hover⟩
  · have hwrite : (ByteBuffer.write fresh raw).run b = .ok raw.length b' := run_bind_of_ok hrun
    exact Or.inl ⟨b', ByteBuffer.run_drop_ok hwrite, h⟩
  · have hwrite : (ByteBuffer.write fresh raw).run b = .error _ b := run_bind_of_error hrun
    exact Or.inr ⟨ByteBuffer.run_drop_error hwrite, hover⟩

theorem within_writeUInt16 (u : UInt16) :
    WritesWithin 0 (writeUInt16 fresh bo u) (numberBytes bo 2 u.toNat) := by
  rw [← leBytes_convert, ← toNat_hton16]
  exact within_append fresh _

theorem within_writeUInt32 (u : UInt32) :
    WritesWithin 0 (writeUInt32 fresh bo u) (numberBytes bo 4 u.toNat) := by
  rw [← leBytes_convert, ← toNat_hton32]
  exact within_append fresh _

theorem within_writeUInt64 (u : UInt64) :
    WritesWithin 0 (writeUInt64 fresh bo u) (numberBytes bo 8 u.toNat) := by
  rw [← leBytes_convert, ← toNat_hton64]
  exact within_append fresh _

theorem within_writeInt16 (i : Int16) :
    WritesWithin 0 (writeInt16 fresh bo i) (numberBytes bo 2 i.toUInt16.toNat) :=
  within_writeUInt16 fresh bo i.toUInt16

theorem within_writeInt32 (i : Int32) :
    WritesWithin 0 (writeInt32 fresh bo i) (numberBytes bo 4 i.toUInt32.toNat) :=
  within_writeUInt32 fresh bo i.toUInt32

theorem within_writeInt64 (i : Int64) :
    WritesWithin 0 (writeInt64 fresh bo i) (numberBytes bo 8 i.toUInt64.toNat) :=
  within_writeUInt64 fresh bo i.toUInt64

/-- A string of any size, its length cut to 32 bits. -/
theorem within_writeString32_cut (str : List UInt8) :
    WritesWithin 0 (writeString32 fresh bo str)
      (numberBytes bo 4 (UInt32.ofNat str.length).toNat ++ str) :=
  (within_writeUInt32 fresh bo (UInt32.ofNat str.length)).bind (within_write fresh str)

theorem appends_write (raw : List UInt8) : Appends (write fresh raw) raw :=
  (within_write fresh raw).appends

theorem appends_writeUInt16 (u : UInt16) :
    Appends (writeUInt16 fresh bo u) (numberBytes bo 2 u.toNat) :=
  (within_writeUInt16 fresh bo u).appends

theorem appends_writeUInt32 (u : UInt32) :
    Appends (writeUInt32 fresh bo u) (numberBytes bo 4 u.toNat) :=
  (within_writeUInt32 fresh bo u).appends

theorem appends_writeUInt64 (u : UInt64) :
    Appends (writeUInt64 fresh bo u) (numberBytes bo 8 u.toNat) :=
  (within_writeUInt64 fresh bo u).appends

theorem writes_write (raw : List UInt8) : Writes (write fresh raw) raw :=
  (within_write fresh raw).writes

theorem writes_writeByte (u : UInt8) : Writes (writeByte fresh u) [u] :=
  (within_append fresh [u]).writes

theorem writes_writeUInt16 (u : UInt16) :
    Writes (writeUInt16 fresh bo u) (numberBytes bo 2 u.toNat) :=
  (within_writeUInt16 fresh bo u).writes

theorem writes_writeUInt32 (u : UInt32) :
    Writes (writeUInt32 fresh bo u) (numberBytes bo 4 u.toNat) :=
  (within_writeUInt32 fresh bo u).writes

theorem writes_writeUInt64 (u : UInt64) :
    Writes (writeUInt64 fresh bo u) (numberBytes bo 8 u.toNat) :=
  (within_writeUInt64 fresh bo u).writes

theorem writes_writeInt16 (i : Int16) :
    Writes (writeInt16 fresh bo i) (numberBytes bo 2 i.toUInt16.toNat) :=
  (within_writeInt16 fresh bo i).writes

theorem writes_writeInt32 (i : Int32) :
    Writes (writeInt32 fresh bo i) (numberBytes bo 4 i.toUInt32.toNat) :=
  (within_writeInt32 fresh bo i).writes

theorem writes_writeInt64 (i : Int64) :
    Writes (writeInt64 fresh bo i) (numberBytes bo 8 i.toUInt64.toNat) :=
  (within_writeInt64 fresh bo i).writes

theorem writes_writeDouble (d : UInt64) :
    Writes (writeDouble fresh bo d) (numberBytes bo 8 d.toNat) :=
  writes_writeUInt64 fresh bo d

theorem writes_writeString32 {str : List UInt8} (h : str.length < 4294967296) :
    Writes (writeString32 fresh bo str) (numberBytes bo 4 str.length ++ str) := by
  have hcut := (within_writeString32_cut fresh bo str).writes
  rwa [UInt32.toNat_ofNat_of_lt' h] at hcut

/-- What a serializer shows is what was written behind the contents its buffer had. -/
theorem data_of_contents {b b' : ByteBuffer} (hb : b.Wf) (hb' : b'.Wf) {w : List UInt8}
    (h : b'.contents = b.contents ++ w) : data b.size b' = .ok w := by
  have hlen := congrArg List.length h
  rw [ByteBuffer.length_contents hb', List.length_append, ByteBuffer.length_contents hb] at hlen
  rw [data, if_neg (by omega), h, List.drop_left' (ByteBuffer.length_contents hb)]

/-- What a new serializer shows is what was written. -/
theorem output_of_writes {x : SerializerM Unit} {w : List UInt8} (hx : Writes x w)
    (stackbuff : Nat → UInt8) :
    output stackbuff x = .ok w ∨
      output stackbuff x = .error (.buffer (.resourceLimit "buffer overflow")) := by
  rcases hx _ (ByteBuffer.wf_new true stackbuff) with ⟨b, hrun, -, hcont⟩ | ⟨b, hrun⟩
  · left
    rw [ByteBuffer.contents_new, List.nil_append] at hcont
    rw [output, hrun]
    simp only [hcont]
  · right
    rw [output, hrun]

/-- A new serializer has room for what its buffer's first limit allows. -/
theorem output_of_appends {x : SerializerM Unit} {w : List UInt8} (hx : Appends x w)
    (stackbuff : Nat → UInt8) (hsize : w.length ≤ 64 * 1024 * 1024) :
    output stackbuff x = .ok w := by
  have hnew : (ByteBuffer.new true stackbuff).size = 0 := rfl
  obtain ⟨b, hrun, -, hcont, -⟩ := hx _ (ByteBuffer.wf_new true stackbuff)
    (by rw [hnew, Nat.zero_add]; exact hsize)
  rw [ByteBuffer.contents_new, List.nil_append] at hcont
  rw [output, hrun]
  simp only [hcont]

theorem eq_of_output {x : SerializerM Unit} {w bytes : List UInt8} (hx : Writes x w)
    {stackbuff : Nat → UInt8} (h : output stackbuff x = .ok bytes) : bytes = w := by
  rcases output_of_writes hx stackbuff with hout | hout
  · rw [hout] at h
    cases h
    rfl
  · rw [hout] at h
    cases h

end Serializer

/-! ## Reading -/

/-- What is caught as an `UnpackError`. -/
def IsUnpackError (e : Thrown) : Prop := ∃ w, e = .unpackError w

theorem not_isUnpackError_runtimeException (massage : String) :
    ¬ IsUnpackError (.runtimeException massage) := by
  rintro ⟨w, hw⟩
  cases hw

namespace Deserializer

variable (what : String) {k : Nat}

theorem run_fetch {w : List UInt8} (h : w.length = k) (r : List UInt8) :
    (fetch what k).run (w ++ r) = .ok w r := by
  subst h
  have hlen : ¬ (w ++ r).length < w.length := by simp
  simp only [fetch, EStateM.run_bind, EStateM.run_get, if_neg hlen, EStateM.run_set,
    EStateM.run_pure, List.take_left', List.drop_left']

theorem run_fetch_short {s : List UInt8} (h : s.length < k) :
    (fetch what k).run s =
      .error (.runtimeException ("Deserializer." ++ what ++ "(): not enough data")) s := by
  simp only [fetch, EStateM.run_bind, EStateM.run_get, if_pos h]
  rfl

theorem reads_fetch {w : List UInt8} (h : w.length = k) : Reads (fetch what k) w w :=
  run_fetch what h

/-- The words of a length. -/
def wordsOf (k : Nat) : Language UInt8 := {w | w.length = k}

/-- The words that are shorter. -/
def shorterThan (k : Nat) : Language UInt8 := {w | w.length < k}

section

variable {P : Thrown → Prop}

/-- A shortage is a `RuntimeException`. -/
theorem accepts_fetch (hP : ∀ massage, ¬ P (.runtimeException massage)) :
    Accepts P (fetch what k) (wordsOf k) 0 where
  returns w hw := ⟨w, reads_fetch what hw⟩
  throws s hs := absurd hs (Language.notMem_zero s)
  of_returns s a r h := by
    by_cases hlen : s.length < k
    · rw [run_fetch_short what hlen] at h
      cases h
    · have hsplit := run_fetch what (List.length_take_of_le (Nat.not_lt.mp hlen))
        (s.drop k)
      rw [List.take_append_drop, h] at hsplit
      cases hsplit
      exact ⟨s.take k, List.length_take_of_le (Nat.not_lt.mp hlen),
        (List.take_append_drop k s).symm⟩
  of_throws s e t h he := by
    by_cases hlen : s.length < k
    · rw [run_fetch_short what hlen] at h
      cases h
      exact absurd he (hP _)
    · have hsplit := run_fetch what (List.length_take_of_le (Nat.not_lt.mp hlen))
        (s.drop k)
      rw [List.take_append_drop, h] at hsplit
      cases hsplit

theorem accepts_readNumber (hP : ∀ massage, ¬ P (.runtimeException massage)) :
    Accepts P (readNumber what k) (wordsOf k) 0 :=
  (accepts_fetch what hP).map leNat

end

theorem reads_readNumber {w : List UInt8} (h : w.length = k) :
    Reads (readNumber what k) w (leNat w) :=
  (reads_fetch what h).map leNat

theorem reads_readByte (u : UInt8) : Reads readByte [u] u := by
  have h := (reads_readNumber "read_byte" (w := [u]) rfl).map UInt8.ofNat
  rwa [leNat, leNat, Nat.mul_zero, Nat.add_zero, UInt8.ofNat_toNat] at h

variable (bo : ByteOrder)

/-- The image of a number is converted back to it. -/
theorem hton16_numberBytes (u : UInt16) :
    BO.hton16 (UInt16.ofNat (leNat (numberBytes bo 2 u.toNat))) bo = u := by
  rw [BO.hton16, UInt16.toNat_ofNat_of_lt' (leNat_lt_of_length (length_numberBytes ..)),
    convert_leNat_numberBytes bo u.toNat_lt, UInt16.ofNat_toNat]

theorem hton32_numberBytes (u : UInt32) :
    BO.hton32 (UInt32.ofNat (leNat (numberBytes bo 4 u.toNat))) bo = u := by
  rw [BO.hton32, UInt32.toNat_ofNat_of_lt' (leNat_lt_of_length (length_numberBytes ..)),
    convert_leNat_numberBytes bo u.toNat_lt, UInt32.ofNat_toNat]

theorem hton64_numberBytes (u : UInt64) :
    BO.hton64 (UInt64.ofNat (leNat (numberBytes bo 8 u.toNat))) bo = u := by
  rw [BO.hton64, UInt64.toNat_ofNat_of_lt' (leNat_lt_of_length (length_numberBytes ..)),
    convert_leNat_numberBytes bo u.toNat_lt, UInt64.ofNat_toNat]

/-- A number of `k` bytes is read back, whatever is made of it. -/
theorem reads_image {α β : Type} (toNat : α → Nat) (back : Nat → α)
    (hback : ∀ u, back (leNat (numberBytes bo k (toNat u))) = u) (f : α → β) (u : α) :
    Reads ((fun v => f (back v)) <$> readNumber what k) (numberBytes bo k (toNat u)) (f u) := by
  have h := (reads_readNumber what (length_numberBytes bo k (toNat u))).map fun v => f (back v)
  rwa [hback] at h

theorem reads_readUInt16 (u : UInt16) : Reads (readUInt16 bo) (numberBytes bo 2 u.toNat) u :=
  reads_image _ bo UInt16.toNat _ (hton16_numberBytes bo) id u

theorem reads_readUInt32 (u : UInt32) : Reads (readUInt32 bo) (numberBytes bo 4 u.toNat) u :=
  reads_image _ bo UInt32.toNat _ (hton32_numberBytes bo) id u

theorem reads_readInt16 (i : Int16) :
    Reads (readInt16 bo) (numberBytes bo 2 i.toUInt16.toNat) i :=
  reads_image _ bo UInt16.toNat _ (hton16_numberBytes bo) UInt16.toInt16 i.toUInt16

theorem reads_readInt32 (i : Int32) :
    Reads (readInt32 bo) (numberBytes bo 4 i.toUInt32.toNat) i :=
  reads_image _ bo UInt32.toNat _ (hton32_numberBytes bo) UInt32.toInt32 i.toUInt32

theorem reads_readInt64 (i : Int64) :
    Reads (readInt64 bo) (numberBytes bo 8 i.toUInt64.toNat) i :=
  reads_image _ bo UInt64.toNat _ (hton64_numberBytes bo) UInt64.toInt64 i.toUInt64

/-- Eight bytes are read back, by `read_uint64` and by `read_double`. -/
theorem reads_number64 (u : UInt64) :
    Reads ((fun u => BO.hton64 (UInt64.ofNat u) bo) <$> readNumber what 8)
      (numberBytes bo 8 u.toNat) u :=
  reads_image what bo UInt64.toNat _ (hton64_numberBytes bo) id u

theorem reads_readUInt64 (u : UInt64) : Reads (readUInt64 bo) (numberBytes bo 8 u.toNat) u :=
  reads_number64 _ bo u

theorem reads_readDouble (d : UInt64) : Reads (readDouble bo) (numberBytes bo 8 d.toNat) d :=
  reads_number64 _ bo d

/-- Every word of `k` bytes is the image of a number, when the conversion back `ofWord` keeps
the bytes. -/
theorem iSup_numberBytes {α : Type} {k : Nat} (toNat : α → Nat) (ofWord : List UInt8 → α)
    (hword : ∀ w : List UInt8, w.length = k → toNat (ofWord w) = BO.convert k (leNat w) bo) :
    ⨆ u : α, ({numberBytes bo k (toNat u)} : Language UInt8) = wordsOf k := by
  ext w
  rw [Language.mem_iSup]
  constructor
  · rintro ⟨u, rfl⟩
    exact length_numberBytes bo k (toNat u)
  · intro hw
    refine ⟨ofWord w, ?_⟩
    rw [hword w hw, numberBytes_convert_leNat bo hw]
    exact rfl

theorem iSup_numberBytes16 : ⨆ u : UInt16, ({numberBytes bo 2 u.toNat} : Language UInt8) =
    wordsOf 2 :=
  iSup_numberBytes bo UInt16.toNat (fun w => UInt16.ofNat (BO.convert 2 (leNat w) bo))
    fun _ hw => UInt16.toNat_ofNat_of_lt' (convert_lt bo (leNat_lt_of_length hw))

theorem iSup_numberBytes32 : ⨆ u : UInt32, ({numberBytes bo 4 u.toNat} : Language UInt8) =
    wordsOf 4 :=
  iSup_numberBytes bo UInt32.toNat (fun w => UInt32.ofNat (BO.convert 4 (leNat w) bo))
    fun _ hw => UInt32.toNat_ofNat_of_lt' (convert_lt bo (leNat_lt_of_length hw))

theorem accepts_readUInt16 : Accepts IsUnpackError (readUInt16 bo)
    (⨆ u : UInt16, {numberBytes bo 2 u.toNat}) 0 := by
  rw [iSup_numberBytes16]
  exact (accepts_readNumber _ not_isUnpackError_runtimeException).map _

theorem accepts_readUInt32 : Accepts IsUnpackError (readUInt32 bo)
    (⨆ u : UInt32, {numberBytes bo 4 u.toNat}) 0 := by
  rw [iSup_numberBytes32]
  exact (accepts_readNumber _ not_isUnpackError_runtimeException).map _

end Deserializer

end LinSocketIo.Utils
