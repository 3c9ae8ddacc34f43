/-
LinSocketIo.Utils.ThriftTheorems — what `skip` passes over.

On the bytes of a well-formed value the branch of its type reads exactly these
bytes; the induction follows the value, with a bound on the depth that its
size gives (`skipAt_wire`). On any bytes at all `Skipped` says what a call
leaves: the cursor only moves on, and the result is zero only for a type whose
values have no bytes (`skipAt_spec`), which is what the loops test for.

* `skip_wire` — `skip` consumes exactly one value and returns its size.
* `skip_ends` — its recursion ends on every input.
-/
import LinSocketIo.Base.Wp
import LinSocketIo.Utils.ThriftValue

namespace LinSocketIo.Utils.Thrift

open LinSocketIo.Base Deserializer

/-! ## Single reads -/

@[simp] theorem run_size (s : List UInt8) : size.run s = .ok s.length s := rfl

theorem run_readByte (u : UInt8) (r : List UInt8) : readByte.run (u :: r) = .ok u r :=
  reads_readByte u r

theorem run_read {w : List UInt8} {n : Nat} (h : w.length = n) (r : List UInt8) :
    (Deserializer.read n).run (w ++ r) = .ok w r :=
  run_fetch _ h r

/-- A length field that fits is read as the length. -/
theorem run_readLength {n : Nat} (h : n < 4294967296) (r : List UInt8) :
    (readUInt32 .bigEndian).run (numberBytes .bigEndian 4 n ++ r) = .ok (UInt32.ofNat n) r := by
  have hread := reads_readUInt32 .bigEndian (UInt32.ofNat n) r
  rwa [UInt32.toNat_ofNat_of_lt' h] at hread

theorem run_skipFixed {n : Nat} {w : List UInt8} (h : w.length = n) (r : List UInt8) :
    (skipFixed n).run (w ++ r) = .ok true r := by
  have hlen : ¬ (w ++ r).length < n := by simp [h]
  simp only [skipFixed, EStateM.run_bind, run_size, if_neg hlen, run_read h,
    EStateM.run_pure]

theorem run_skipFixed_short {n : Nat} {s : List UInt8} (h : s.length < n) :
    (skipFixed n).run s = .ok false s := by
  simp only [skipFixed, EStateM.run_bind, run_size, if_pos h, EStateM.run_pure]

theorem run_skipString {s : List UInt8} (h : s.length < 4294967296) (r : List UInt8) :
    skipString.run (stringWire s ++ r) = .ok true r := by
  have hhead : ¬ (stringWire s ++ r).length < 4 := by simp; omega
  have hbody : ¬ (s ++ r).length < s.length := by simp
  simp only [skipString, EStateM.run_bind, run_size, if_neg hhead]
  rw [stringWire, List.append_assoc, run_readLength h]
  simp only [EStateM.run_bind, UInt32.toNat_ofNat_of_lt' h, if_neg hbody, run_read rfl,
    EStateM.run_pure]

/-- The branch of the sets and lists once the type and the number are there. -/
theorem run_skipList (skip : UInt8 → DeserializerM Int) (elem : TType) {n : Nat}
    (h : n < 4294967296) (r : List UInt8) :
    (skipList skip).run (listBegin elem n ++ r) = (skipElems skip elem.code n).run r := by
  have hhead : ¬ (listBegin elem n ++ r).length < 1 + 4 := by simp
  simp only [skipList, EStateM.run_bind, run_size, if_neg hhead]
  rw [listBegin, List.cons_append, run_readByte]
  simp only [run_readLength h, UInt32.toNat_ofNat_of_lt' h]

/-- The branch of the maps once the types and the number are there. -/
theorem run_skipMap (skip : UInt8 → DeserializerM Int) (key val : TType) {n : Nat}
    (h : n < 4294967296) (r : List UInt8) :
    (skipMap skip).run (mapBegin key val n ++ r) =
      (skipEntries skip key.code val.code n).run r := by
  have hhead : ¬ (mapBegin key val n ++ r).length < 1 + 1 + 2 := by simp; omega
  simp only [skipMap, EStateM.run_bind, run_size, if_neg hhead]
  rw [mapBegin, List.cons_append, List.cons_append, run_readByte]
  simp only [run_readByte, run_readLength h, UInt32.toNat_ofNat_of_lt' h]

/-- One round of the loop over the fields, up to the value. -/
theorem run_skipFields (skip : UInt8 → DeserializerM Int) (rounds : Nat) (v : Value) (id : Int16)
    (r : List UInt8) :
    (skipFields skip (rounds + 1)).run (fieldBegin v.type id ++ r) =
      (do if (← skip v.type.code) = 0 then return false else skipFields skip rounds).run r := by
  have htype : v.type.code ≠ TType.stop.code := by
    have := v.type_ne_stop
    revert this
    cases v.type <;> decide
  have hhead : ¬ (fieldBegin v.type id ++ r).length < 1 := by
    rw [List.length_append, length_fieldBegin]
    omega
  have hid : ¬ (numberBytes .bigEndian 2 id.toUInt16.toNat ++ r).length < 2 := by
    rw [List.length_append, length_numberBytes]
    omega
  simp only [skipFields, EStateM.run_bind, run_size, if_neg hhead]
  rw [fieldBegin, List.cons_append, run_readByte]
  simp only [if_neg htype, EStateM.run_bind, run_size, if_neg hid,
    run_read (length_numberBytes .bigEndian 2 _)]

/-- A branch that breaks. -/
theorem run_skipAt {depth : Nat} {ftype : UInt8} {s t : List UInt8}
    (h : (skipBranch (skipAt depth) ftype).run s = .ok true t) :
    (skipAt (depth + 1) ftype).run s = .ok (toInt (s.length - t.length)) t := by
  simp only [skipAt, EStateM.run_bind, run_size, h, if_true, EStateM.run_pure]

/-- A branch that returns -1. -/
theorem run_skipAt_short {depth : Nat} {ftype : UInt8} {s t : List UInt8}
    (h : (skipBranch (skipAt depth) ftype).run s = .ok false t) :
    (skipAt (depth + 1) ftype).run s = .ok (-1) t := by
  simp only [skipAt, EStateM.run_bind, run_size, h, if_neg Bool.false_ne_true, EStateM.run_pure]

/-! ## A whole value -/

mutual

/-- A value is passed over, and its size is returned. -/
theorem skipAt_wire : ∀ (v : Value) (depth : Nat), v.WellFormed → v.wire.length < 2147483648 →
    v.wire.length ≤ depth → ∀ r,
    (skipAt depth v.type.code).run (v.wire ++ r) = .ok (v.wire.length : Int) r
  | v, 0, _, _, hdepth, _ => absurd v.length_wire_pos (Nat.not_lt.mpr hdepth)
  | v, depth + 1, hwf, hsize, hdepth, r => by
      have hrun := run_skipAt (skipBranch_wire v depth hwf hsize hdepth r)
      rw [hrun, List.length_append]
      congr 1
      rw [show ((v.wire.length + r.length : Nat) : Int) - (r.length : Int) = v.wire.length by omega]
      exact toInt_of_range (by omega) (by unfold intMax; omega)

theorem skipBranch_wire : ∀ (v : Value) (depth : Nat), v.WellFormed → v.wire.length < 2147483648 →
    v.wire.length ≤ depth + 1 → ∀ r,
    (skipBranch (skipAt depth) v.type.code).run (v.wire ++ r) = .ok true r
  | .bool _, _, _, _, _, r => run_skipFixed rfl r
  | .byte _, _, _, _, _, r => run_skipFixed rfl r
  | .i16 _, _, _, _, _, r | .i32 _, _, _, _, _, r | .i64 _, _, _, _, _, r
  | .u64 _, _, _, _, _, r | .double _, _, _, _, _, r => by
      rw [Value.wire]
      exact run_skipFixed (length_numberBytes ..) r
  | .string _, _, hwf, _, _, r | .utf8 _, _, hwf, _, _, r | .utf16 _, _, hwf, _, _, r =>
      run_skipString hwf r
  | .list elem vs, depth, hwf, hsize, hdepth, r => by
      rw [Value.wire, List.length_append, length_listBegin] at hsize hdepth
      rw [Value.wire, List.append_assoc]
      refine (run_skipList (skipAt depth) elem hwf.1 (vs.wire ++ r)).trans ?_
      exact skipElems_wire vs elem depth hwf.2 (by omega) (by omega) r
  | .set elem vs, depth, hwf, hsize, hdepth, r => by
      rw [Value.wire, List.length_append, length_listBegin] at hsize hdepth
      rw [Value.wire, List.append_assoc]
      refine (run_skipList (skipAt depth) elem hwf.1 (vs.wire ++ r)).trans ?_
      exact skipElems_wire vs elem depth hwf.2 (by omega) (by omega) r
  | .map key val es, depth, hwf, hsize, hdepth, r => by
      rw [Value.wire, List.length_append, length_mapBegin] at hsize hdepth
      rw [Value.wire, List.append_assoc]
      refine (run_skipMap (skipAt depth) key val hwf.1 (es.wire ++ r)).trans ?_
      exact skipEntries_wire es key val depth hwf.2 (by omega) (by omega) r
  | .struct fs, depth, hwf, hsize, hdepth, r => by
      rw [Value.wire] at hsize hdepth ⊢
      refine skipFields_wire fs depth _ hwf hsize (by omega) ?_ r
      rw [List.length_append]
      omega

theorem skipElems_wire : ∀ (vs : Values) (elem : TType) (depth : Nat), vs.WellFormed elem →
    vs.wire.length < 2147483648 → vs.wire.length ≤ depth → ∀ r,
    (skipElems (skipAt depth) elem.code vs.count).run (vs.wire ++ r) = .ok true r
  | .nil, _, _, _, _, _, _ => rfl
  | .cons v vs, elem, depth, hwf, hsize, hdepth, r => by
      obtain ⟨⟨rfl, hv⟩, hvs⟩ := hwf
      have hpos := v.length_wire_pos
      rw [Values.wire, List.length_append] at hsize hdepth
      rw [Values.wire, List.append_assoc, Values.count, skipElems]
      rw [run_bind_of_ok (skipAt_wire v depth hv (by omega) (by omega) (vs.wire ++ r)),
        if_neg (by omega)]
      exact skipElems_wire vs v.type depth hvs (by omega) (by omega) r

theorem skipEntries_wire : ∀ (es : Entries) (key val : TType) (depth : Nat), es.WellFormed key val →
    es.wire.length < 2147483648 → es.wire.length ≤ depth → ∀ r,
    (skipEntries (skipAt depth) key.code val.code es.count).run (es.wire ++ r) = .ok true r
  | .nil, _, _, _, _, _, _, _ => rfl
  | .cons k v es, key, val, depth, hwf, hsize, hdepth, r => by
      obtain ⟨⟨rfl, hk⟩, ⟨rfl, hv⟩, hes⟩ := hwf
      have hkpos := k.length_wire_pos
      have hvpos := v.length_wire_pos
      rw [Entries.wire, List.length_append, List.length_append] at hsize hdepth
      rw [Entries.wire, List.append_assoc, List.append_assoc, Entries.count, skipEntries]
      rw [run_bind_of_ok (skipAt_wire k depth hk (by omega) (by omega) _), if_neg (by omega),
        run_bind_of_ok (skipAt_wire v depth hv (by omega) (by omega) _), if_neg (by omega)]
      exact skipEntries_wire es k.type v.type depth hes (by omega) (by omega) r

theorem skipFields_wire : ∀ (fs : Fields) (depth rounds : Nat), fs.WellFormed →
    fs.wire.length < 2147483648 → fs.wire.length ≤ depth + 1 → fs.wire.length < rounds → ∀ r,
    (skipFields (skipAt depth) rounds).run (fs.wire ++ r) = .ok true r
  | _, _, 0, _, _, _, hrounds, _ => absurd hrounds (Nat.not_lt_zero _)
  | .stop, _, _ + 1, _, _, _, _, r => by
      rw [Fields.wire, skipFields]
      rfl
  | .cons id v fs, depth, rounds + 1, hwf, hsize, hdepth, hrounds, r => by
      have hpos := v.length_wire_pos
      rw [Fields.wire, List.length_append, List.length_append, length_fieldBegin]
        at hsize hdepth hrounds
      rw [Fields.wire, List.append_assoc, List.append_assoc, run_skipFields,
        run_bind_of_ok (skipAt_wire v depth hwf.1 (by omega) (by omega) _), if_neg (by omega)]
      exact skipFields_wire fs depth rounds hwf.2 (by omega) (by omega) (by omega) r

end

theorem run_skip (v : Value) (hwf : v.WellFormed) (hsize : v.wire.length < 2147483648)
    (r : List UInt8) : (skip v.type.code).run (v.wire ++ r) = .ok (v.wire.length : Int) r := by
  rw [skip, run_bind_of_ok (run_size _)]
  exact skipAt_wire v _ hwf hsize (by rw [List.length_append]; omega) r

/-- **Skipping.** The helpers write the bytes of a well-formed value, and `skip` on these
bytes, whatever follows them, returns their number and stops behind them. -/
theorem skip_wire (fresh : Nat → UInt8) (v : Value) (hwf : v.WellFormed)
    (hsize : v.wire.length < 2147483648) :
    Writes (v.write fresh) v.wire ∧
      ∀ r, (skip v.type.code).run (v.wire ++ r) = .ok (v.wire.length : Int) r :=
  ⟨writes_write fresh v hwf, run_skip v hwf hsize⟩

/-- An empty struct in a map with an empty list as its key. -/
theorem skip_wire_map :
    Writes ((Value.map .list .struct
        (.cons (.list .void .nil) (.struct .stop) .nil)).write fun _ => 0)
      [15, 12, 0, 0, 0, 1, 1, 0, 0, 0, 0, 0] ∧
      ∀ r, (skip TType.map.code).run ([15, 12, 0, 0, 0, 1, 1, 0, 0, 0, 0, 0] ++ r) =
        .ok ((12 : Nat) : Int) r :=
  skip_wire (fun _ => 0) (.map .list .struct (.cons (.list .void .nil) (.struct .stop) .nil))
    (by simp [Value.WellFormed, Values.WellFormed, Entries.WellFormed, Fields.WellFormed,
      Entries.count, Values.count, Value.type]) (by decide)

/-! ## Any input -/

theorem wp_number {α : Type} (what : String) (k : Nat) (f : Nat → α) (s : List UInt8) :
    wp (f <$> readNumber what k) s (fun _ t => t.length + k = s.length)
      (fun e _ => e ≠ .exhausted) := by
  have hacc := (accepts_readNumber (P := fun e => e = .exhausted) what (k := k) nofun).map f
  refine wp_mono (hacc.wp (Language.notMem_zero s)) ?_ fun _ _ h => h
  rintro a t ⟨w, hw, rfl⟩
  rw [List.length_append, show w.length = k from hw, Nat.add_comm]

theorem wp_read (k : Nat) (s : List UInt8) :
    wp (Deserializer.read k) s (fun _ t => t.length + k = s.length)
      (fun e _ => e ≠ .exhausted) := by
  have hacc := accepts_fetch (P := fun e => e = .exhausted) "read" (k := k) nofun
  refine wp_mono (hacc.wp (Language.notMem_zero s)) ?_ fun _ _ h => h
  rintro a t ⟨w, hw, rfl⟩
  rw [List.length_append, show w.length = k from hw, Nat.add_comm]

theorem wp_size {E : Thrown → List UInt8 → Prop} (s : List UInt8)
    {Q : Nat → List UInt8 → Prop} : wp size s Q E ↔ Q s.length s := Iff.rfl

/-- The types whose values have no bytes. -/
def NoBytes (ftype : UInt8) : Prop := ftype = TType.stop.code ∨ ftype = TType.void.code

/-- What a call of `skip` leaves and returns: -1 or what it passed over, which is nothing
only for a type without bytes. -/
def Skipped (ftype : UInt8) (s : List UInt8) (n : Int) (t : List UInt8) : Prop :=
  t.length ≤ s.length ∧
    (s.length < 2147483648 → (n = -1 ∨ n = s.length - t.length) ∧ (n = 0 → NoBytes ftype))

/-- What a loop over members leaves, and what it takes to stop it early. -/
def LoopDone (stops : Prop) (s : List UInt8) (done : Bool) (t : List UInt8) : Prop :=
  t.length ≤ s.length ∧ (s.length < 2147483648 → done = false → stops)

section

variable {skip : UInt8 → DeserializerM Int} {depth : Nat}

/-- The members are skipped as `Skipped` says, as long as they are shorter than `depth`. -/
def SkipsMembers (skip : UInt8 → DeserializerM Int) (depth : Nat) : Prop :=
  ∀ ftype s, s.length < depth → wp (skip ftype) s (Skipped ftype s) (fun e _ => e ≠ .exhausted)

theorem skipElems_spec (hskip : SkipsMembers skip depth) (vtype : UInt8) : ∀ (num : Nat)
    (s : List UInt8), s.length < depth →
    wp (skipElems skip vtype num) s (LoopDone (NoBytes vtype) s) (fun e _ => e ≠ .exhausted)
  | 0, s, _ => ⟨Nat.le_refl _, fun _ h => nomatch h⟩
  | num + 1, s, hs => by
      rw [skipElems, wp_bind]
      refine wp_mono (hskip vtype s hs) (fun n t ht => ?_) fun _ _ h => h
      rw [wp_ite]
      refine ⟨fun hzero => ⟨ht.1, fun hsize _ => (ht.2 hsize).2 hzero⟩, fun _ => ?_⟩
      have htl : t.length ≤ s.length := ht.1
      refine wp_mono (skipElems_spec hskip vtype num t (by omega)) ?_ fun _ _ h => h
      exact fun b u hu => ⟨Nat.le_trans hu.1 htl, fun hsize => hu.2 (by omega)⟩

theorem skipEntries_spec (hskip : SkipsMembers skip depth) (ktype vtype : UInt8) : ∀ (num : Nat)
    (s : List UInt8), s.length < depth →
    wp (skipEntries skip ktype vtype num) s (LoopDone (NoBytes ktype ∨ NoBytes vtype) s)
      (fun e _ => e ≠ .exhausted)
  | 0, s, _ => ⟨Nat.le_refl _, fun _ h => nomatch h⟩
  | num + 1, s, hs => by
      rw [skipEntries, wp_bind]
      refine wp_mono (hskip ktype s hs) (fun n t ht => ?_) fun _ _ h => h
      have htl : t.length ≤ s.length := ht.1
      rw [wp_ite]
      refine ⟨fun hzero => ⟨htl, fun hsize _ => Or.inl ((ht.2 hsize).2 hzero)⟩, fun _ => ?_⟩
      rw [wp_bind]
      refine wp_mono (hskip vtype t (by omega)) (fun m u hu => ?_) fun _ _ h => h
      have hul : u.length ≤ t.length := hu.1
      rw [wp_ite]
      refine ⟨fun hzero => ⟨by omega, fun hsize _ => Or.inr ((hu.2 (by omega)).2 hzero)⟩, fun _ => ?_⟩
      refine wp_mono (skipEntries_spec hskip ktype vtype num u (by omega)) ?_ fun _ _ h => h
      exact fun b v hv => ⟨by have := hv.1; omega, fun hsize => hv.2 (by omega)⟩

/-- The loop over the fields reads a byte at least before it breaks. -/
theorem skipFields_spec (hskip : SkipsMembers skip depth) : ∀ (rounds : Nat) (s : List UInt8),
    s.length ≤ depth → s.length < rounds →
    wp (skipFields skip rounds) s
      (fun done t => t.length ≤ s.length ∧ (done = true → t.length < s.length))
      (fun e _ => e ≠ .exhausted)
  | 0, _, _, hs => absurd hs (Nat.not_lt_zero _)
  | rounds + 1, s, hdepth, hs => by
      rw [skipFields, wp_bind, wp_size, wp_ite]
      refine ⟨fun _ => ⟨Nat.le_refl _, fun h => nomatch h⟩, fun _ => ?_⟩
      rw [wp_bind]
      refine wp_mono (wp_number "read_byte" 1 UInt8.ofNat s) (fun ftype t ht => ?_) fun _ _ h => h
      rw [wp_ite]
      refine ⟨fun _ => ⟨by omega, fun _ => by omega⟩, fun _ => ?_⟩
      rw [wp_bind, wp_size, wp_ite]
      refine ⟨fun _ => ⟨by omega, fun h => nomatch h⟩, fun _ => ?_⟩
      rw [wp_bind]
      refine wp_mono (wp_read 2 t) (fun _ u hu => ?_) fun _ _ h => h
      rw [wp_bind]
      refine wp_mono (hskip ftype u (by omega)) (fun n v hv => ?_) fun _ _ h => h
      have hvl : v.length ≤ u.length := hv.1
      rw [wp_ite]
      refine ⟨fun _ => ⟨by omega, fun h => nomatch h⟩, fun _ => ?_⟩
      refine wp_mono (skipFields_spec hskip rounds v (by omega) (by omega)) ?_ fun _ _ h => h
      exact fun done w hw => ⟨by omega, fun hdone => by have := hw.2 hdone; omega⟩

/-- The branch of the fixed-size types. -/
theorem skipFixed_spec {n : Nat} (hn : 0 < n) (s : List UInt8) :
    wp (skipFixed n) s (fun done t => t.length ≤ s.length ∧ (done = true → t.length < s.length))
      (fun e _ => e ≠ .exhausted) := by
  rw [skipFixed, wp_bind, wp_size, wp_ite]
  refine ⟨fun _ => ⟨Nat.le_refl _, fun h => nomatch h⟩, fun _ => ?_⟩
  rw [wp_bind]
  refine wp_mono (wp_read n s) (fun _ t ht => ?_) fun _ _ h => h
  exact ⟨by omega, fun _ => by omega⟩

theorem skipString_spec (s : List UInt8) :
    wp skipString s (fun done t => t.length ≤ s.length ∧ (done = true → t.length < s.length))
      (fun e _ => e ≠ .exhausted) := by
  rw [skipString, wp_bind, wp_size, wp_ite]
  refine ⟨fun _ => ⟨Nat.le_refl _, fun h => nomatch h⟩, fun _ => ?_⟩
  rw [wp_bind]
  refine wp_mono (wp_number "read_uint32" 4 _ s) (fun sz t ht => ?_) fun _ _ h => h
  rw [wp_bind, wp_size, wp_ite]
  refine ⟨fun _ => ⟨by omega, fun h => nomatch h⟩, fun _ => ?_⟩
  rw [wp_bind]
  refine wp_mono (wp_read sz.toNat t) (fun _ u hu => ?_) fun _ _ h => h
  exact ⟨by omega, fun _ => by omega⟩

theorem skipList_spec (hskip : SkipsMembers skip depth) {s : List UInt8} (hs : s.length ≤ depth) :
    wp (skipList skip) s (fun done t => t.length ≤ s.length ∧ (done = true → t.length < s.length))
      (fun e _ => e ≠ .exhausted) := by
  rw [skipList, wp_bind, wp_size, wp_ite]
  refine ⟨fun _ => ⟨Nat.le_refl _, fun h => nomatch h⟩, fun _ => ?_⟩
  rw [wp_bind]
  refine wp_mono (wp_number "read_byte" 1 UInt8.ofNat s) (fun vtype t ht => ?_) fun _ _ h => h
  rw [wp_bind]
  refine wp_mono (wp_number "read_uint32" 4 _ t) (fun num u hu => ?_) fun _ _ h => h
  refine wp_mono (skipElems_spec hskip vtype num.toNat u (by omega)) ?_ fun _ _ h => h
  exact fun done v hv => ⟨by have := hv.1; omega, fun _ => by have := hv.1; omega⟩

theorem skipMap_spec (hskip : SkipsMembers skip depth) {s : List UInt8} (hs : s.length ≤ depth) :
    wp (skipMap skip) s (fun done t => t.length ≤ s.length ∧ (done = true → t.length < s.length))
      (fun e _ => e ≠ .exhausted) := by
  rw [skipMap, wp_bind, wp_size, wp_ite]
  refine ⟨fun _ => ⟨Nat.le_refl _, fun h => nomatch h⟩, fun _ => ?_⟩
  rw [wp_bind]
  refine wp_mono (wp_number "read_byte" 1 UInt8.ofNat s) (fun ktype t ht => ?_) fun _ _ h => h
  rw [wp_bind]
  refine wp_mono (wp_number "read_byte" 1 UInt8.ofNat t) (fun vtype u hu => ?_) fun _ _ h => h
  rw [wp_bind]
  refine wp_mono (wp_number "read_uint32" 4 _ u) (fun num v hv => ?_) fun _ _ h => h
  refine wp_mono (skipEntries_spec hskip ktype vtype num.toNat v (by omega)) ?_ fun _ _ h => h
  exact fun done w hw => ⟨by have := hw.1; omega, fun _ => by have := hw.1; omega⟩

/-- Every branch with bytes to read moves the cursor before it breaks. -/
theorem skipBranch_spec (hskip : SkipsMembers skip depth) (ftype : UInt8) {s : List UInt8}
    (hs : s.length ≤ depth) :
    wp (skipBranch skip ftype) s
      (fun done t => t.length ≤ s.length ∧ (done = true → NoBytes ftype ∨ t.length < s.length))
      (fun e _ => e ≠ .exhausted) := by
  have hweaken : ∀ {x : DeserializerM Bool},
      wp x s (fun done t => t.length ≤ s.length ∧ (done = true → t.length < s.length))
        (fun e _ => e ≠ .exhausted) →
      wp x s (fun done t => t.length ≤ s.length ∧ (done = true → NoBytes ftype ∨ t.length < s.length))
        (fun e _ => e ≠ .exhausted) := fun h =>
    wp_mono h (fun _ _ ht => ⟨ht.1, fun hdone => Or.inr (ht.2 hdone)⟩) fun _ _ h => h
  unfold skipBranch
  split
  · next h => exact ⟨Nat.le_refl _, fun _ => Or.inl (Or.inl (TType.eq_code h))⟩
  · next h => exact ⟨Nat.le_refl _, fun _ => Or.inl (Or.inr (TType.eq_code h))⟩
  all_goals first
    | exact hweaken (skipFixed_spec (by decide) s)
    | exact hweaken (skipString_spec s)
    | exact hweaken (skipMap_spec hskip hs)
    | exact hweaken (skipList_spec hskip hs)
    | exact hweaken (skipFields_spec hskip (s.length + 1) s hs (Nat.lt_succ_self _))
    | exact nofun

end

theorem skipAt_spec : ∀ depth, SkipsMembers (skipAt depth) depth
  | 0 => fun _ _ hs => absurd hs (Nat.not_lt_zero _)
  | depth + 1 => by
      intro ftype s hs
      rw [skipAt, wp_bind, wp_size, wp_bind]
      refine wp_mono (skipBranch_spec (skipAt_spec depth) ftype (by omega)) (fun done t ht => ?_)
        fun _ _ h => h
      rw [wp_ite]
      refine ⟨fun hdone => ?_, fun _ => ?_⟩
      · rw [wp_bind, wp_size, wp_pure]
        refine ⟨ht.1, fun hsize => ?_⟩
        rw [toInt_of_range (by omega) (by unfold intMax; omega)]
        refine ⟨Or.inr rfl, fun hzero => ?_⟩
        rcases ht.2 hdone with hno | hlt
        · exact hno
        · omega
      · rw [wp_pure]
        exact ⟨ht.1, fun _ => ⟨Or.inl rfl, fun h => absurd h (by decide)⟩⟩

/-- The recursion of `skip` ends on every input. -/
theorem skip_ends (ftype : UInt8) (s : List UInt8) :
    wp (skip ftype) s (Skipped ftype s) (fun e _ => e ≠ .exhausted) := by
  rw [skip, wp_bind, wp_size]
  exact skipAt_spec (s.length + 1) ftype s (Nat.lt_succ_self _)

end LinSocketIo.Utils.Thrift
