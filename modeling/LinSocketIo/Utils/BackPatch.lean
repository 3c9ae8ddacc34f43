/-
LinSocketIo.Utils.BackPatch — lengths that are put in afterwards.

`position()` counts from the offset of the serializer. `replace` takes a
position and stores at that index of the buffer, which counts from the first
byte the buffer holds. The two are the same place when the buffer was empty
when the serializer was made; otherwise the store is `offset` bytes too low.

* `writeObject_spec` — what `write_object` leaves, wherever the store goes.
* `within_writeObject` — without an offset it is a writing call, so an object
  may write objects in turn.
* `back_patch_iff` — a block or a replaced range is right if and only if there
  is no offset, or the bytes there happen to repeat so that it does not show.
-/
import LinSocketIo.Utils.Pb
import LinSocketIo.Utils.SerializerItems

namespace LinSocketIo.Utils

open LinSocketIo.Base

namespace Serializer

theorem size_of_le {offset : Nat} {b : ByteBuffer} (h : offset ≤ b.size) :
    size offset b = b.size - offset :=
  if_neg (Nat.not_lt.mpr h)

/-- `replace` stores at an index of the buffer. -/
theorem run_replace {b : ByteBuffer} (hb : b.Wf) (offset pos : Nat) (data : List UInt8)
    (h : pos + data.length ≤ size offset b) :
    ∃ ret b', (replace offset pos data).run b = .ok ret b' ∧ b'.Wf ∧
      b'.contents = store b.contents pos data ∧ b'.limit = b.limit := by
  have hmem := hb.mem
  have hhead := hb.head
  have htail := hb.tail
  have hcap := hb.cap
  have hsize : size offset b ≤ b.size := by
    unfold size
    split <;> omega
  by_cases hempty : data.length = 0
  · refine ⟨0, b, ?_, hb, ?_, rfl⟩
    · simp only [replace, EStateM.run_bind, EStateM.run_get, if_pos hempty, EStateM.run_pure]
    · rw [List.length_eq_zero_iff.mp hempty, store, List.append_nil, List.length_nil, Nat.add_zero,
        List.take_append_drop]
  · have hfits : ¬ (pos + data.length) % 2 ^ 64 > size offset b := by
      rw [Nat.mod_eq_of_lt (by unfold ByteBuffer.size at hsize; omega)]
      omega
    refine ⟨pos + data.length, { b with mem := store b.mem (b.head + pos) data }, ?_, ?_, ?_, rfl⟩
    · simp only [replace, EStateM.run_bind, EStateM.run_get, if_neg hempty, if_neg hfits,
        EStateM.run_set, EStateM.run_pure]
    · refine ⟨?_, hhead, htail, hb.pos, hcap, hb.blocks, hb.limit⟩
      rw [length_store (by unfold ByteBuffer.size at hsize; omega), hmem]
    · exact load_store_within (Nat.le_trans h hsize)
        (show b.head + (b.tail - b.head) ≤ b.mem.length by omega)

/-- A range replaced from a position on is the range behind that position if and only if the
store is there, or goes unnoticed. -/
theorem run_replace_iff {offset : Nat} {b b' : ByteBuffer} (hb : b.Wf) (hoff : offset ≤ b.size)
    (hb' : b'.Wf) {e d : List UInt8} (hcont : b'.contents = b.contents ++ e)
    (hd : d.length ≤ e.length) :
    ∃ ret b'', (replace offset (size offset b) d).run b' = .ok ret b'' ∧
      (b''.contents = b.contents ++ (d ++ e.drop d.length) ↔
        offset = 0 ∨ Repeats b'.contents (b.size - offset) offset d) := by
  have hlen := ByteBuffer.length_contents hb
  have hlen' := ByteBuffer.length_contents hb'
  rw [hcont, List.length_append, hlen] at hlen'
  obtain ⟨ret, b'', hrun, -, hstore, -⟩ := run_replace hb' offset (b.size - offset) d
    (by rw [size_of_le (by omega)]; omega)
  refine ⟨ret, b'', by rw [size_of_le hoff]; exact hrun, ?_⟩
  have hplace : b.size - offset + offset = b.size := Nat.sub_add_cancel hoff
  have hright : b.contents ++ (d ++ e.drop d.length) =
      store b'.contents (b.size - offset + offset) d := by
    rw [hcont, hplace, ← hlen, store_append]
  rw [hstore, hright]
  rcases Nat.eq_zero_or_pos offset with rfl | hpos
  · exact iff_of_true rfl (Or.inl rfl)
  · rw [store_shift_eq_iff (by rw [hcont, List.length_append, hlen]; omega)]
    exact ⟨Or.inr, fun h => h.resolve_left (Nat.pos_iff_ne_zero.mp hpos)⟩

end Serializer

namespace Pb

open Serializer

section

variable (vi : ByteBuffer.Varint) (fresh stackbuff : Nat → UInt8) (bo : ByteOrder)
  {offset : Nat} {b : ByteBuffer}

/-- The length that `write_object` puts in. -/
theorem blockLength_eq {total n : Nat} (hoff : offset ≤ total) (hn : total + n < 2 ^ 64) :
    subSize (subSize (total + (4 + n) - offset) 4) (total - offset) = n := by
  unfold subSize
  omega

/-- What `write_object` leaves: the block with a length of zero, and in it the length at the
index that the position is taken for. -/
theorem writeObject_spec (hb : b.Wf) (hoff : offset ≤ b.size) {object : NioMarshallable}
    {spare : Nat} {body : List UInt8} (hbody : WritesWithin spare (object.marshal offset bo) body)
    (hlen : body.length < 4294967296) :
    (∃ b', (writeObject vi fresh bo stackbuff offset object Tag.block).run b = .ok () b' ∧ b'.Wf ∧
        b'.contents = store (b.contents ++ (numberBytes bo 4 0 ++ body)) (b.size - offset)
          (numberBytes bo 4 body.length) ∧ b'.limit = b.limit) ∨
      ∃ b', (writeObject vi fresh bo stackbuff offset object Tag.block).run b =
          .error (.buffer (.resourceLimit "buffer overflow")) b' ∧
        b.limit < b.size + (4 + body.length) + spare := by
  have hsize := ByteBuffer.length_contents hb
  have hunfold : writeObject vi fresh bo stackbuff offset object Tag.block = (do
      let pos ← position offset
      writeUInt32 fresh bo 0
      object.marshal offset bo
      let now ← position offset
      let _ ← replaceUInt32 bo offset pos (UInt32.ofNat (subSize (subSize now 4) pos))) := rfl
  have hpos : (position offset).run b = .ok (b.size - offset) b := by
    rw [← size_of_le hoff]
    rfl
  rw [hunfold, run_bind_of_ok hpos]
  rcases within_writeUInt32 fresh bo 0 b hb with
    ⟨b1, hrun1, hb1, hcont1, hlimit1⟩ | ⟨b1, hrun1, hover⟩
  · have hsize1 : b1.size = b.size + 4 := by
      rw [← ByteBuffer.length_contents hb1, hcont1, List.length_append, hsize, length_numberBytes]
    rw [run_bind_of_ok hrun1]
    rcases hbody b1 hb1 with ⟨b2, hrun2, hb2, hcont2, hlimit2⟩ | ⟨b2, hrun2, hover⟩
    · have hcont : b2.contents = b.contents ++ (numberBytes bo 4 0 ++ body) := by
        rw [hcont2, hcont1, List.append_assoc]
        rfl
      have hsize2 : b2.size = b.size + (4 + body.length) := by
        have := congrArg List.length hcont
        rwa [ByteBuffer.length_contents hb2, List.length_append, List.length_append, hsize,
          length_numberBytes] at this
      have hnow : (position offset).run b2 = .ok (b.size + (4 + body.length) - offset) b2 := by
        rw [← hsize2, ← size_of_le (by omega)]
        rfl
      obtain ⟨ret, b3, hrun3, hb3, hcont3, hlimit3⟩ := run_replace hb2 offset (b.size - offset)
        (numberBytes bo 4 body.length)
        (by rw [size_of_le (by omega), length_numberBytes]; omega)
      have hfield : replaceUInt32 bo offset (b.size - offset) (UInt32.ofNat body.length) =
          replace offset (b.size - offset) (numberBytes bo 4 body.length) := by
        rw [replaceUInt32, toNat_hton32, leBytes_convert, UInt32.toNat_ofNat_of_lt' hlen]
      have hcap := hb.cap
      have htail := hb.tail
      refine Or.inl ⟨b3, ?_, hb3, by rw [hcont3, hcont], by rw [hlimit3, hlimit2, hlimit1]⟩
      rw [run_bind_of_ok hrun2, run_bind_of_ok hnow,
        blockLength_eq hoff (by unfold ByteBuffer.size; omega), hfield, run_bind_of_ok hrun3]
      rfl
    · exact Or.inr ⟨b2, run_bind_of_error hrun2, by omega⟩
  · rw [length_numberBytes] at hover
    exact Or.inr ⟨b1, run_bind_of_error hrun1, by omega⟩

/-- Without an offset `write_object` is a writing call, also of objects that write objects. -/
theorem within_writeObject {object : NioMarshallable} {spare : Nat} {body : List UInt8}
    (hbody : WritesWithin spare (object.marshal 0 bo) body) (hlen : body.length < 4294967296) :
    WritesWithin spare (writeObject vi fresh bo stackbuff 0 object Tag.block)
      (numberBytes bo 4 body.length ++ body) := by
  intro b hb
  have hfield : (numberBytes bo 4 body.length).length = 4 := length_numberBytes ..
  rw [List.length_append, hfield]
  refine (writeObject_spec vi fresh stackbuff bo hb (Nat.zero_le _) hbody hlen).imp_left ?_
  rintro ⟨b', hrun, hb', hcont, hlimit⟩
  refine ⟨b', hrun, hb', ?_, hlimit⟩
  rw [hcont, Nat.sub_zero, ← ByteBuffer.length_contents hb, store_append, hfield,
    List.drop_left' (length_numberBytes ..)]

end

/-! ## When the store goes unnoticed -/

variable (bo : ByteOrder) {offset : Nat}

theorem getElem?_zeroField {i : Nat} (hi : i < 4) : (numberBytes bo 4 0)[i]? = some 0 := by
  cases bo <;> (match i, hi with | 0, _ | 1, _ | 2, _ | 3, _ => rfl)

theorem eq_zero_of_field {n : Nat} (hn : n < 4294967296)
    (hzero : ∀ i < 4, (numberBytes bo 4 n)[i]? = some 0) : n = 0 := by
  have hfield : numberBytes bo 4 n = numberBytes bo 4 0 := by
    refine List.ext_getElem? fun i => ?_
    by_cases hi : i < 4
    · rw [hzero i hi, getElem?_zeroField bo hi]
    · rw [List.getElem?_eq_none (by rw [length_numberBytes]; omega),
        List.getElem?_eq_none (by rw [length_numberBytes]; omega)]
  rw [← convert_leNat_numberBytes bo (n := 4) hn, hfield,
    convert_leNat_numberBytes bo (n := 4) (by decide)]

/-- The field behind the contents is zero, so that a length can only repeat if it is zero. -/
theorem repeats_field_iff {held body : List UInt8} (hpos : 0 < offset) (hoff : offset ≤ held.length)
    (hlen : body.length < 4294967296) :
    Repeats (held ++ (numberBytes bo 4 0 ++ body)) (held.length - offset) offset
        (numberBytes bo 4 body.length) ↔
      body = [] ∧ ∀ i < min 4 offset, held[held.length - offset + i]? = some 0 := by
  have hfour : ∀ n, (numberBytes bo 4 n).length = 4 := fun n => length_numberBytes bo 4 n
  have hplace : held.length - offset + offset = held.length := Nat.sub_add_cancel hoff
  have hbehind : ∀ i < 4,
      (held ++ (numberBytes bo 4 0 ++ body))[held.length - offset + offset + i]? = some 0 := by
    intro i hi
    rw [hplace, List.getElem?_append_right (by omega), Nat.add_sub_cancel_left,
      List.getElem?_append_left (by rw [hfour]; exact hi), getElem?_zeroField bo hi]
  have hbefore : ∀ i < offset, (held ++ (numberBytes bo 4 0 ++ body))[held.length - offset + i]? =
      held[held.length - offset + i]? := fun i hi => List.getElem?_append_left (by omega)
  constructor
  · intro hrep
    unfold Repeats at hrep
    rw [hfour] at hrep
    -- from the last byte of the length down: it is zero, or the one `offset` above it is
    have hzero : ∀ m i, i < 4 → 4 ≤ i + m → (numberBytes bo 4 body.length)[i]? = some 0 := by
      intro m
      induction m with
      | zero => exact fun i hi hm => absurd hm (by omega)
      | succ m ih =>
          intro i hi hm
          by_cases hend : 4 ≤ i + offset
          · rw [← (hrep i hi).2.2 hend, hbehind i hi]
          · have hstep := (hrep (i + offset) (by omega)).2.1 (Nat.le_add_left ..)
            rw [Nat.add_sub_cancel] at hstep
            rw [← hstep]
            exact ih (i + offset) (by omega) (by omega)
    have hall : ∀ i < 4, (numberBytes bo 4 body.length)[i]? = some 0 := fun i hi =>
      hzero 4 i hi (by omega)
    refine ⟨List.length_eq_zero_iff.mp (eq_zero_of_field bo hlen hall), fun i hi => ?_⟩
    rw [← hbefore i (by omega), (hrep i (by omega)).1 (by omega), hall i (by omega)]
  · rintro ⟨rfl, hc⟩ i hi
    rw [List.length_nil, hfour] at *
    refine ⟨fun hk => ?_, fun hk => ?_, fun hk => ?_⟩
    · rw [hbefore i hk, hc i (by omega), getElem?_zeroField bo hi]
    · rw [getElem?_zeroField bo hi, getElem?_zeroField bo (by omega)]
    · rw [hbehind i hi, getElem?_zeroField bo hi]

/-- **Back-patching.** `write_object` appends the length and the bytes of the object, which
`read_block` returns, and `replace` overwrites what was written right after `position()`, if and
only if the buffer was empty when the serializer was made or the bytes repeat so that the
misplaced store does not show. `write_object` throws only where the limit of the buffer does not
leave the room that the block and its object ask for. -/
theorem back_patch_iff (vi : ByteBuffer.Varint) (fresh stackbuff : Nat → UInt8) {b : ByteBuffer}
    (hb : b.Wf) (hoff : offset ≤ b.size) :
    (∀ (object : NioMarshallable) (spare : Nat) (body : List UInt8),
      WritesWithin spare (object.marshal offset bo) body → body.length < 4294967296 →
        (∃ b', (writeObject vi fresh bo stackbuff offset object Tag.block).run b =
            .error (.buffer (.resourceLimit "buffer overflow")) b' ∧
          b.limit < b.size + (4 + body.length) + spare) ∨
        ∃ b', (writeObject vi fresh bo stackbuff offset object Tag.block).run b = .ok () b' ∧
          (b'.contents = b.contents ++ (numberBytes bo 4 body.length ++ body) ∧
              (readBlock vi bo Tag.block).run (b'.contents.drop b.size) = .ok body [] ↔
            offset = 0 ∨
              body = [] ∧ ∀ i < min 4 offset, b.contents[b.size - offset + i]? = some 0)) ∧
    (∀ (b' : ByteBuffer) (e d : List UInt8), b'.Wf → b'.contents = b.contents ++ e →
      d.length ≤ e.length →
        ∃ ret b'', (replace offset (size offset b) d).run b' = .ok ret b'' ∧
          (b''.contents = b.contents ++ (d ++ e.drop d.length) ↔
            offset = 0 ∨ Repeats b'.contents (b.size - offset) offset d)) := by
  have hsize := ByteBuffer.length_contents hb
  refine ⟨fun object spare body hbody hlen => ?_, fun b' e d hb' hcont hd =>
    run_replace_iff hb hoff hb' hcont hd⟩
  rcases writeObject_spec vi fresh stackbuff bo hb hoff hbody hlen with
    ⟨b', hrun, -, hcont, -⟩ | hfull
  · refine Or.inr ⟨b', hrun, ?_⟩
    have hfield : (numberBytes bo 4 body.length).length = 4 := length_numberBytes ..
    have hplace : b.size - offset + offset = b.size := Nat.sub_add_cancel hoff
    have hright : b.contents ++ (numberBytes bo 4 body.length ++ body) =
        store (b.contents ++ (numberBytes bo 4 0 ++ body)) (b.size - offset + offset)
          (numberBytes bo 4 body.length) := by
      rw [hplace, ← hsize, store_append, hfield, List.drop_left' (length_numberBytes ..)]
    have hiff : b'.contents = b.contents ++ (numberBytes bo 4 body.length ++ body) ↔
        offset = 0 ∨
          body = [] ∧ ∀ i < min 4 offset, b.contents[b.size - offset + i]? = some 0 := by
      rcases Nat.eq_zero_or_pos offset with hzero | hpos
      · refine iff_of_true ?_ (Or.inl hzero)
        rw [hcont, hright, hzero, Nat.add_zero]
      · rw [hcont, hright, store_shift_eq_iff, ← hsize,
          repeats_field_iff bo hpos (by omega) hlen]
        · exact ⟨Or.inr, fun h => h.resolve_left (Nat.pos_iff_ne_zero.mp hpos)⟩
        · rw [List.length_append, List.length_append, length_numberBytes, length_numberBytes, hsize]
          omega
    rw [← hiff]
    refine ⟨And.left, fun h => ⟨h, ?_⟩⟩
    have hread := reads_readBytes32 bo hlen []
    rw [UInt32.toNat_ofNat_of_lt' hlen, List.append_nil] at hread
    rw [h, List.drop_left' hsize]
    exact hread
  · exact Or.inl hfull

/-- An object that writes the byte 7. -/
def seven : NioMarshallable := ⟨fun _ _ => Serializer.write (fun _ => 0) [7]⟩

theorem within_seven (offset : Nat) (bo : ByteOrder) :
    WritesWithin 0 (seven.marshal offset bo) [7] := within_write _ _

/-- The three zeros and two bytes that have been written behind them. -/
def inUseMore : ByteBuffer := { inUse with tail := inUse.tail + 2 }

/-- Without an offset the block of a byte and a replaced byte stand behind what was there; with
the three zeros taken for foreign bytes neither does. -/
theorem back_patch_inUse :
    ((∃ b', (writeObject base128 (fun _ => 0) .littleEndian (fun _ => 0) 0 seven Tag.block).run
          inUse = .ok () b' ∧
        b'.contents = inUse.contents ++ (numberBytes .littleEndian 4 1 ++ [7]) ∧
        (readBlock base128 .littleEndian Tag.block).run (b'.contents.drop 3) = .ok [7] []) ∧
      ∃ ret b'', (replace 0 (size 0 inUse) [9]).run inUseMore = .ok ret b'' ∧
        b''.contents = inUse.contents ++ [9, 0]) ∧
    (∃ b', (writeObject base128 (fun _ => 0) .littleEndian (fun _ => 0) 3 seven Tag.block).run
          inUse = .ok () b' ∧
        ¬ (b'.contents = inUse.contents ++ (numberBytes .littleEndian 4 1 ++ [7]) ∧
          (readBlock base128 .littleEndian Tag.block).run (b'.contents.drop 3) = .ok [7] [])) ∧
      ∃ ret b'', (replace 3 (size 3 inUse) [9]).run inUseMore = .ok ret b'' ∧
        b''.contents ≠ inUse.contents ++ [9, 0] := by
  have hwf : inUseMore.Wf := (ByteBuffer.wf_extend wf_inUse (show 2 ≤ inUse.space by decide)).1
  have hmore : inUseMore.contents = inUse.contents ++ [0, 0] := by decide +kernel
  have hempty := back_patch_iff .littleEndian base128 (fun _ => 0) (fun _ => 0) wf_inUse
    (show 0 ≤ inUse.size by decide)
  have hbehind := back_patch_iff .littleEndian base128 (fun _ => 0) (fun _ => 0) wf_inUse
    (show 3 ≤ inUse.size by decide)
  refine ⟨⟨?_, ?_⟩, ?_, ?_⟩
  · rcases hempty.1 seven 0 [7] (within_seven 0 _) (by decide) with ⟨_, _, hover⟩ | ⟨b', hrun, hiff⟩
    · exact absurd hover (by decide)
    · obtain ⟨hcont, hread⟩ := hiff.mpr (Or.inl rfl)
      exact ⟨b', hrun, hcont, hread⟩
  · obtain ⟨ret, b'', hrun, hiff⟩ := hempty.2 inUseMore [0, 0] [9] hwf hmore (by decide)
    exact ⟨ret, b'', hrun, hiff.mpr (Or.inl rfl)⟩
  · rcases hbehind.1 seven 0 [7] (within_seven 3 _) (by decide) with ⟨_, _, hover⟩ | ⟨b', hrun, hiff⟩
    · exact absurd hover (by decide)
    · exact ⟨b', hrun, fun h => absurd (hiff.mp h) (by decide +kernel)⟩
  · obtain ⟨ret, b'', hrun, hiff⟩ := hbehind.2 inUseMore [0, 0] [9] hwf hmore (by decide)
    refine ⟨ret, b'', hrun, fun h => ?_⟩
    rw [hmore] at hiff
    exact absurd (hiff.mp h) (by unfold Repeats; decide +kernel)

set_option maxRecDepth 8192 in
/-- Behind three zeros the length of a block of one byte goes into the zeros, and the block is
read back empty. -/
theorem block_length_misplaced :
    ∃ b', (writeObject base128 (fun _ => 0) .littleEndian (fun _ => 0) 3 seven Tag.block).run
        inUse = .ok () b' ∧ b'.contents = [1, 0, 0, 0, 0, 0, 0, 7] ∧
      b'.contents ≠ inUse.contents ++ (numberBytes .littleEndian 4 1 ++ [7]) ∧
      (readBlock base128 .littleEndian Tag.block).run (b'.contents.drop 3) = .ok [] [7] := by
  have hbefore : inUse.contents = [0, 0, 0] := rfl
  obtain ⟨b', hrun, hcont⟩ : ∃ b',
      (writeObject base128 (fun _ => 0) .littleEndian (fun _ => 0) 3 seven Tag.block).run
        inUse = .ok () b' ∧ b'.contents = [1, 0, 0, 0, 0, 0, 0, 7] := ⟨_, rfl, rfl⟩
  refine ⟨b', hrun, hcont, ?_, ?_⟩
  · rw [hcont, hbefore]
    decide
  · rw [hcont]
    rfl

end Pb

end LinSocketIo.Utils
