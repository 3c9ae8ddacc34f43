/-
LinSocketIo.Utils.ThriftTruncation — `skip` and `read_message_begin` on what is
cut off.

`skip` returns -1 when bytes are missing, but tests the result of a nested call
with `!`, so that a nested -1 counts as skipped: the loop goes on with the bytes
that the cut member left. What is still noticed is a cut outside the members,
and in a struct also a cut member that leaves nothing, since the loop then finds
no byte for the next field. The branch of the maps also asks for four bytes
where it reads six.

`dry` are the cuts of a value that leave nothing to read, `seen` those that are
noticed.

* `truncation_noticed` — a cut in `seen` is noticed; outside a struct no other is.
-/
import LinSocketIo.Utils.ThriftMessages

namespace LinSocketIo.Utils.Thrift

open LinSocketIo.Base Deserializer Serializer

/-- A prefix that reaches beyond the first part. -/
theorem prefix_append_split {p a b : List UInt8} (h : p <+: a ++ b) (hlen : a.length ≤ p.length) :
    ∃ p', p = a ++ p' ∧ p' <+: b := by
  obtain ⟨p', rfl⟩ := List.prefix_of_prefix_length_le (List.prefix_append a b) h hlen
  exact ⟨p', rfl, (List.prefix_append_right_inj a).mp h⟩

/-! ## Cuts -/

/-- The cut of a string behind its length. -/
def lengthOf (s : List UInt8) : Language UInt8 := {p | p = numberBytes .bigEndian 4 s.length ∧ s ≠ []}

/-- Fewer than `n` bytes of the head of a field. -/
def headBelow (n : Nat) (t : TType) (id : Int16) : Language UInt8 :=
  {p | p.length < n ∧ p <+: fieldBegin t id}

mutual

/-- The cuts of a value after which nothing is left to read. -/
def Value.dry : Value → Language UInt8
  | .string s => 1 + lengthOf s
  | .utf8 s => 1 + lengthOf s
  | .utf16 s => 1 + lengthOf s
  | .list elem vs => 1 + {listBegin elem vs.count} * vs.dry
  | .set elem vs => 1 + {listBegin elem vs.count} * vs.dry
  | .map key val es => 1 + {mapBegin key val es.count} * es.dry
  | .struct fs => fs.cut 2
  | _ => 1

/-- Whole elements and a cut one. -/
def Values.dry : Values → Language UInt8
  | .nil => 0
  | .cons v vs => v.dry + {v.wire} * vs.dry

/-- Whole keys and values and a cut one. -/
def Entries.dry : Entries → Language UInt8
  | .nil => 0
  | .cons k v es => k.dry + ({k.wire} * v.dry + {k.wire ++ v.wire} * es.dry)

/-- Whole fields, and then fewer than `n` bytes of the head of one, or the head and a cut
value that leaves nothing. -/
def Fields.cut (n : Nat) : Fields → Language UInt8
  | .stop => 1
  | .cons id v fs =>
      headBelow n v.type id +
        ({fieldBegin v.type id} * v.dry + {fieldBegin v.type id ++ v.wire} * fs.cut n)

end

/-- The cuts of a value that are noticed. -/
def Value.seen : Value → Language UInt8
  | .list _ _ => shorterThan 5
  | .set _ _ => shorterThan 5
  | .map _ _ _ => shorterThan 4
  | .struct fs => fs.cut 3
  | _ => ⊤

/-! ## Nothing left to read -/

theorem run_skipString_short {s : List UInt8} (h : s.length < 4) :
    skipString.run s = .ok false s := by
  simp only [skipString, EStateM.run_bind, run_size, if_pos h, EStateM.run_pure]

/-- A length and less than it says. -/
theorem run_skipString_cut {n : Nat} (hn : n < 4294967296) {b : List UInt8} (h : b.length < n) :
    skipString.run (numberBytes .bigEndian 4 n ++ b) = .ok false b := by
  have hhead : ¬ (numberBytes .bigEndian 4 n ++ b).length < 4 := by simp
  simp only [skipString, EStateM.run_bind, run_size, if_neg hhead, run_readLength hn,
    UInt32.toNat_ofNat_of_lt' hn, if_pos h, EStateM.run_pure]

theorem run_skipList_short (skip : UInt8 → DeserializerM Int) {s : List UInt8}
    (h : s.length < 5) : (skipList skip).run s = .ok false s := by
  simp only [skipList, EStateM.run_bind, run_size, if_pos h, EStateM.run_pure]

theorem run_skipMap_short (skip : UInt8 → DeserializerM Int) {s : List UInt8}
    (h : s.length < 4) : (skipMap skip).run s = .ok false s := by
  simp only [skipMap, EStateM.run_bind, run_size, if_pos h, EStateM.run_pure]

theorem skipBranch_nil (skip : UInt8 → DeserializerM Int) (v : Value) :
    (skipBranch skip v.type.code).run [] = .ok false [] := by
  cases v <;> rfl

theorem skipAt_nil (v : Value) (depth : Nat) :
    (skipAt (depth + 1) v.type.code).run [] = .ok (-1) [] :=
  run_skipAt_short (skipBranch_nil (skipAt depth) v)

/-- No byte is left and yet the loop breaks. -/
theorem skipElems_nil (v : Value) (depth : Nat) : ∀ num,
    (skipElems (skipAt (depth + 1)) v.type.code num).run [] = .ok true []
  | 0 => rfl
  | num + 1 => by
      rw [skipElems, run_bind_of_ok (skipAt_nil v depth), if_neg (by decide)]
      exact skipElems_nil v depth num

theorem skipEntries_nil (k v : Value) (depth : Nat) : ∀ num,
    (skipEntries (skipAt (depth + 1)) k.type.code v.type.code num).run [] = .ok true []
  | 0 => rfl
  | num + 1 => by
      rw [skipEntries, run_bind_of_ok (skipAt_nil k depth), if_neg (by decide),
        run_bind_of_ok (skipAt_nil v depth), if_neg (by decide)]
      exact skipEntries_nil k v depth num

/-- The loop over the fields stops in the head of a field. -/
theorem skipFields_head (skip : UInt8 → DeserializerM Int) (rounds : Nat) (v : Value) (id : Int16)
    {p : List UInt8} (hlen : p.length < 3) (hp : p <+: fieldBegin v.type id) :
    ∃ t, (skipFields skip (rounds + 1)).run p = .ok false t ∧ (p.length < 2 → t = []) := by
  cases p with
  | nil => exact ⟨[], rfl, fun _ => rfl⟩
  | cons u b =>
      obtain ⟨rfl, -⟩ := List.cons_prefix_cons.mp hp
      have htype : v.type.code ≠ TType.stop.code := by
        have hne := v.type_ne_stop
        revert hne
        cases v.type <;> decide
      have hhead : ¬ (v.type.code :: b).length < 1 := by simp
      have hid : b.length < 2 := Nat.lt_of_succ_lt_succ hlen
      refine ⟨b, ?_, fun h => List.length_eq_zero_iff.mp (by rw [List.length_cons] at h; omega)⟩
      simp only [skipFields, EStateM.run_bind, run_size, if_neg hhead, run_readByte, if_neg htype,
        if_pos hid, EStateM.run_pure]

/-- A cut string that leaves nothing. -/
theorem skipString_dry {s p : List UInt8} (hs : s.length < 4294967296)
    (hp : p ∈ 1 + lengthOf s) :
    ∃ done, skipString.run p = .ok done [] ∧ (done = true → p ≠ []) := by
  rcases hp with hp | ⟨rfl, hne⟩
  · cases hp
    exact ⟨false, rfl, nofun⟩
  · have hrun := run_skipString_cut hs (b := []) (List.length_pos_iff.mpr hne)
    rw [List.append_nil] at hrun
    exact ⟨false, hrun, nofun⟩

mutual

/-- After a dry cut nothing is left, and what is returned is not zero. -/
theorem skipAt_dry : ∀ (v : Value) (depth : Nat) (p : List UInt8), v.WellFormed → p ∈ v.dry →
    p.length < 2147483648 → p.length < depth →
    ∃ n, n ≠ 0 ∧ (skipAt depth v.type.code).run p = .ok n []
  | _, 0, _, _, _, _, hdepth => absurd hdepth (Nat.not_lt_zero _)
  | v, depth + 1, p, hwf, hp, hsize, hdepth => by
      obtain ⟨done, hrun, hdone⟩ := skipBranch_dry v depth p hwf hp hsize (by omega)
      cases done with
      | false => exact ⟨-1, by decide, run_skipAt_short hrun⟩
      | true =>
          have hpos : 0 < p.length := List.length_pos_iff.mpr (hdone rfl)
          refine ⟨_, ?_, run_skipAt hrun⟩
          rw [toInt_of_range (by simp only [List.length_nil]; omega)
            (by unfold intMax; simp only [List.length_nil]; omega)]
          simp only [List.length_nil]
          omega

theorem skipBranch_dry : ∀ (v : Value) (depth : Nat) (p : List UInt8), v.WellFormed → p ∈ v.dry →
    p.length < 2147483648 → p.length ≤ depth →
    ∃ done, (skipBranch (skipAt depth) v.type.code).run p = .ok done [] ∧ (done = true → p ≠ [])
  | .bool b, depth, _, _, hp, _, _ => by
      cases hp
      exact ⟨false, skipBranch_nil (skipAt depth) (.bool b), nofun⟩
  | .byte b, depth, _, _, hp, _, _ => by
      cases hp
      exact ⟨false, skipBranch_nil (skipAt depth) (.byte b), nofun⟩
  | .i16 i, depth, _, _, hp, _, _ => by
      cases hp
      exact ⟨false, skipBranch_nil (skipAt depth) (.i16 i), nofun⟩
  | .i32 i, depth, _, _, hp, _, _ => by
      cases hp
      exact ⟨false, skipBranch_nil (skipAt depth) (.i32 i), nofun⟩
  | .i64 i, depth, _, _, hp, _, _ => by
      cases hp
      exact ⟨false, skipBranch_nil (skipAt depth) (.i64 i), nofun⟩
  | .u64 u, depth, _, _, hp, _, _ => by
      cases hp
      exact ⟨false, skipBranch_nil (skipAt depth) (.u64 u), nofun⟩
  | .double d, depth, _, _, hp, _, _ => by
      cases hp
      exact ⟨false, skipBranch_nil (skipAt depth) (.double d), nofun⟩
  | .string s, depth, p, hwf, hp, _, _ => skipString_dry hwf hp
  | .utf8 s, depth, p, hwf, hp, _, _ => skipString_dry hwf hp
  | .utf16 s, depth, p, hwf, hp, _, _ => skipString_dry hwf hp
  | .list elem vs, depth, p, hwf, hp, hsize, hdepth => by
      rcases hp with hp | ⟨_, rfl, p', hp', rfl⟩
      · cases hp
        exact ⟨false, skipBranch_nil (skipAt depth) (.list elem vs), nofun⟩
      · refine ⟨true, ?_, fun _ => List.cons_ne_nil _ _⟩
        simp only [List.length_append, length_listBegin] at hsize hdepth
        refine (run_skipList (skipAt depth) elem hwf.1 p').trans ?_
        exact skipElems_dry vs elem depth p' hwf.2 hp' (by omega) (by omega)
  | .set elem vs, depth, p, hwf, hp, hsize, hdepth => by
      rcases hp with hp | ⟨_, rfl, p', hp', rfl⟩
      · cases hp
        exact ⟨false, skipBranch_nil (skipAt depth) (.set elem vs), nofun⟩
      · refine ⟨true, ?_, fun _ => List.cons_ne_nil _ _⟩
        simp only [List.length_append, length_listBegin] at hsize hdepth
        refine (run_skipList (skipAt depth) elem hwf.1 p').trans ?_
        exact skipElems_dry vs elem depth p' hwf.2 hp' (by omega) (by omega)
  | .map key val es, depth, p, hwf, hp, hsize, hdepth => by
      rcases hp with hp | ⟨_, rfl, p', hp', rfl⟩
      · cases hp
        exact ⟨false, skipBranch_nil (skipAt depth) (.map key val es), nofun⟩
      · refine ⟨true, ?_, fun _ => List.cons_ne_nil _ _⟩
        simp only [List.length_append, length_mapBegin] at hsize hdepth
        refine (run_skipMap (skipAt depth) key val hwf.1 p').trans ?_
        exact skipEntries_dry es key val depth p' hwf.2 hp' (by omega) (by omega)
  | .struct fs, depth, p, hwf, hp, hsize, hdepth => by
      obtain ⟨t, hrun, ht⟩ := skipFields_cut fs 2 depth (p.length + 1) p (by omega) hwf hp hsize
        hdepth (Nat.lt_succ_self _)
      rw [ht (Nat.le_refl 2)] at hrun
      exact ⟨false, hrun, nofun⟩

theorem skipElems_dry : ∀ (vs : Values) (elem : TType) (depth : Nat) (p : List UInt8),
    vs.WellFormed elem → p ∈ vs.dry → p.length < 2147483648 → p.length < depth →
    (skipElems (skipAt depth) elem.code vs.count).run p = .ok true []
  | _, _, 0, _, _, _, _, hdepth => absurd hdepth (Nat.not_lt_zero _)
  | .nil, _, _ + 1, p, _, hp, _, _ => absurd hp (Language.notMem_zero p)
  | .cons v vs, elem, depth + 1, p, hwf, hp, hsize, hdepth => by
      obtain ⟨⟨rfl, hv⟩, hvs⟩ := hwf
      rw [Values.count, skipElems]
      rcases hp with hp | ⟨_, rfl, p', hp', rfl⟩
      · obtain ⟨n, hn, hrun⟩ := skipAt_dry v (depth + 1) p hv hp hsize hdepth
        rw [run_bind_of_ok hrun, if_neg hn]
        exact skipElems_nil v depth vs.count
      · have hpos := v.length_wire_pos
        simp only [List.length_append] at hsize hdepth
        show (skipAt (depth + 1) v.type.code >>= _).run (v.wire ++ p') = _
        rw [run_bind_of_ok (skipAt_wire v (depth + 1) hv (by omega) (by omega) p'),
          if_neg (by omega)]
        exact skipElems_dry vs v.type (depth + 1) p' hvs hp' (by omega) (by omega)

theorem skipEntries_dry : ∀ (es : Entries) (key val : TType) (depth : Nat) (p : List UInt8),
    es.WellFormed key val → p ∈ es.dry → p.length < 2147483648 → p.length < depth →
    (skipEntries (skipAt depth) key.code val.code es.count).run p = .ok true []
  | _, _, _, 0, _, _, _, _, hdepth => absurd hdepth (Nat.not_lt_zero _)
  | .nil, _, _, _ + 1, p, _, hp, _, _ => absurd hp (Language.notMem_zero p)
  | .cons k v es, key, val, depth + 1, p, hwf, hp, hsize, hdepth => by
      obtain ⟨⟨rfl, hk⟩, ⟨rfl, hv⟩, hes⟩ := hwf
      have hkpos := k.length_wire_pos
      have hvpos := v.length_wire_pos
      rw [Entries.count, skipEntries]
      rcases hp with hp | ⟨_, rfl, p', hp', rfl⟩ | ⟨_, rfl, p', hp', rfl⟩
      · obtain ⟨n, hn, hrun⟩ := skipAt_dry k (depth + 1) p hk hp hsize hdepth
        rw [run_bind_of_ok hrun, if_neg hn, run_bind_of_ok (skipAt_nil v depth),
          if_neg (by decide)]
        exact skipEntries_nil k v depth es.count
      · simp only [List.length_append] at hsize hdepth
        obtain ⟨n, hn, hrun⟩ := skipAt_dry v (depth + 1) p' hv hp' (by omega) (by omega)
        show (skipAt (depth + 1) k.type.code >>= _).run (k.wire ++ p') = _
        rw [run_bind_of_ok (skipAt_wire k (depth + 1) hk (by omega) (by omega) p'),
          if_neg (by omega), run_bind_of_ok hrun, if_neg hn]
        exact skipEntries_nil k v depth es.count
      · simp only [List.length_append] at hsize hdepth
        show (skipAt (depth + 1) k.type.code >>= _).run (k.wire ++ v.wire ++ p') = _
        rw [List.append_assoc,
          run_bind_of_ok (skipAt_wire k (depth + 1) hk (by omega) (by omega) (v.wire ++ p')),
          if_neg (by omega), run_bind_of_ok (skipAt_wire v (depth + 1) hv (by omega) (by omega) p'),
          if_neg (by omega)]
        exact skipEntries_dry es k.type v.type (depth + 1) p' hes hp' (by omega) (by omega)

/-- The loop over the fields returns -1 where the cut leaves it nothing, or less than the
head of a field. -/
theorem skipFields_cut : ∀ (fs : Fields) (n depth rounds : Nat) (p : List UInt8), n ≤ 3 →
    fs.WellFormed → p ∈ fs.cut n → p.length < 2147483648 → p.length ≤ depth →
    p.length < rounds →
    ∃ t, (skipFields (skipAt depth) rounds).run p = .ok false t ∧ (n ≤ 2 → t = [])
  | _, _, _, 0, _, _, _, _, _, _, hrounds => absurd hrounds (Nat.not_lt_zero _)
  | .stop, _, _, _ + 1, _, _, _, hp, _, _, _ => by
      cases hp
      exact ⟨[], rfl, fun _ => rfl⟩
  | .cons id v fs, n, depth, rounds + 1, p, hn, hwf, hp, hsize, hdepth, hrounds => by
      rcases hp with ⟨hlen, hp⟩ | ⟨_, rfl, p', hp', rfl⟩ | ⟨_, rfl, p', hp', rfl⟩
      · obtain ⟨t, hrun, ht⟩ := skipFields_head (skipAt depth) rounds v id (by omega) hp
        exact ⟨t, hrun, fun hn2 => ht (by omega)⟩
      · simp only [List.length_append, length_fieldBegin] at hsize hdepth hrounds
        obtain ⟨m, hm, hrun⟩ := skipAt_dry v depth p' hwf.1 hp' (by omega) (by omega)
        obtain ⟨rounds, rfl⟩ : ∃ k, rounds = k + 1 := ⟨rounds - 1, by omega⟩
        refine ⟨[], ?_, fun _ => rfl⟩
        refine (run_skipFields (skipAt depth) (rounds + 1) v id p').trans ?_
        rw [run_bind_of_ok hrun, if_neg hm]
        rfl
      · have hpos := v.length_wire_pos
        simp only [List.length_append, length_fieldBegin] at hsize hdepth hrounds
        obtain ⟨t, hrun, ht⟩ := skipFields_cut fs n depth rounds p' hn hwf.2 hp' (by omega)
          (by omega) (by omega)
        refine ⟨t, ?_, ht⟩
        show (skipFields (skipAt depth) (rounds + 1)).run (fieldBegin v.type id ++ v.wire ++ p') = _
        rw [List.append_assoc, run_skipFields,
          run_bind_of_ok (skipAt_wire v depth hwf.1 (by omega) (by omega) p'), if_neg (by omega)]
        exact hrun

end

/-! ## A cut value -/

/-- `skip` says that bytes are missing. -/
def SkipNotices (ftype : TType) (p : List UInt8) : Prop :=
  ∃ n t, (skip ftype.code).run p = .ok n t ∧ n < 0

theorem run_skip_eq (ftype : UInt8) (p : List UInt8) :
    (skip ftype).run p = (skipAt (p.length + 1) ftype).run p := by
  rw [skip, run_bind_of_ok (run_size p)]

/-- A branch that returns -1. -/
theorem notices_of_branch {ftype : TType} {p t : List UInt8}
    (h : (skipBranch (skipAt p.length) ftype.code).run p = .ok false t) :
    SkipNotices ftype p :=
  ⟨-1, t, (run_skip_eq ftype.code p).trans (run_skipAt_short h), by decide⟩

/-- A branch that never returns -1. -/
theorem not_notices_of_branch {ftype : TType} {p : List UInt8} (hsize : p.length < 2147483648)
    (h : wp (skipBranch (skipAt p.length) ftype.code) p
      (fun done t => t.length ≤ p.length ∧ done = true) fun _ _ => True) :
    ¬ SkipNotices ftype p := by
  rintro ⟨n, t, hrun, hneg⟩
  rw [run_skip_eq, skipAt, run_bind_of_ok (run_size p)] at hrun
  unfold wp at h
  cases hbranch : (skipBranch (skipAt p.length) ftype.code).run p with
  | ok done u =>
      rw [hbranch] at h
      obtain ⟨hle, rfl⟩ := h
      rw [run_bind_of_ok hbranch, if_pos rfl, run_bind_of_ok (run_size u), EStateM.run_pure] at hrun
      cases hrun
      rw [toInt_of_range (by omega) (by unfold intMax; omega)] at hneg
      omega
  | error e u =>
      rw [run_bind_of_error hbranch] at hrun
      cases hrun

theorem fixed_notices {ftype : TType} {n : Nat} {p w : List UInt8}
    (hbranch : skipBranch (skipAt p.length) ftype.code = skipFixed n) (hw : w.length = n)
    (hp : p <+: w) (hne : p ≠ w) : SkipNotices ftype p := by
  have hlen : p.length < n := by
    have hle := hp.length_le
    have hlt : p.length ≠ w.length := fun h => hne (hp.eq_of_length h)
    omega
  refine notices_of_branch (t := p) ?_
  rw [hbranch]
  exact run_skipFixed_short hlen

theorem string_notices {ftype : TType} {p s : List UInt8} (hs : s.length < 4294967296)
    (hbranch : skipBranch (skipAt p.length) ftype.code = skipString)
    (hp : p <+: stringWire s) (hne : p ≠ stringWire s) : SkipNotices ftype p := by
  by_cases hlen : p.length < 4
  · refine notices_of_branch (t := p) ?_
    rw [hbranch]
    exact run_skipString_short hlen
  · obtain ⟨b, rfl, hb⟩ := prefix_append_split hp (by rw [length_numberBytes]; omega)
    have hblt : b.length < s.length := by
      have hle := hb.length_le
      have hlt : b.length ≠ s.length := fun h => hne (by rw [hb.eq_of_length h, stringWire])
      omega
    refine notices_of_branch (t := b) ?_
    rw [hbranch]
    exact run_skipString_cut hs hblt

theorem code_noBytes {v : Value} : ¬ NoBytes v.type.code := by
  cases v <;> (intro h; rcases h with h | h <;> cases h)

/-- Behind the head of a set or list a cut is never noticed. -/
theorem list_notices_iff (ftype : TType) {elem : TType} {vs : Values} {p : List UInt8}
    (hbranch : skipBranch (skipAt p.length) ftype.code = skipList (skipAt p.length))
    (hcount : vs.count < 4294967296) (hwf : vs.WellFormed elem)
    (hp : p <+: listBegin elem vs.count ++ vs.wire)
    (hne : p ≠ listBegin elem vs.count ++ vs.wire) (hsize : p.length < 2147483648) :
    SkipNotices ftype p ↔ p.length < 5 := by
  constructor
  · intro h
    by_contra hlen
    obtain ⟨p', rfl, hp'⟩ := prefix_append_split hp (by rw [length_listBegin]; omega)
    refine not_notices_of_branch hsize ?_ h
    rw [hbranch]
    unfold wp
    rw [run_skipList _ elem hcount]
    cases vs with
    | nil =>
        -- an empty container ends with its head
        rw [List.prefix_nil.mp hp'] at hne
        exact absurd rfl hne
    | cons v vs =>
        obtain ⟨⟨rfl, -⟩, -⟩ := hwf
        rw [List.length_append, length_listBegin] at hsize ⊢
        have hspec := skipElems_spec (skipAt_spec (5 + p'.length)) v.type.code
          (Values.cons v vs).count p' (by omega)
        refine wp_mono hspec (fun done t ht => ?_) fun _ _ _ => trivial
        refine ⟨Nat.le_trans ht.1 (by omega), ?_⟩
        cases done with
        | true => rfl
        | false => exact absurd (ht.2 (by omega) rfl) code_noBytes
  · intro hlen
    refine notices_of_branch (t := p) ?_
    rw [hbranch]
    exact run_skipList_short _ hlen

/-- A number that is cut makes the read throw. -/
theorem run_readUInt32_short {b : List UInt8} (h : b.length < 4) :
    (readUInt32 .bigEndian).run b =
      .error (.runtimeException "Deserializer.read_uint32(): not enough data") b := by
  have hnumber : (readNumber "read_uint32" 4).run b =
      .error (.runtimeException "Deserializer.read_uint32(): not enough data") b := by
    rw [readNumber, map_eq_pure_bind, run_bind_of_error (run_fetch_short "read_uint32" h)]
    rfl
  rw [readUInt32, map_eq_pure_bind, run_bind_of_error hnumber]

/-- Four bytes are asked for, and six are read. -/
theorem run_skipMap_throws (skip : UInt8 → DeserializerM Int) (ktype vtype : UInt8)
    {b : List UInt8} (hlo : 2 ≤ b.length) (hhi : b.length < 4) :
    (skipMap skip).run (ktype :: vtype :: b) =
      .error (.runtimeException "Deserializer.read_uint32(): not enough data") b := by
  have hhead : ¬ (ktype :: vtype :: b).length < 1 + 1 + 2 := by
    simp only [List.length_cons]
    omega
  simp only [skipMap, EStateM.run_bind, run_size, if_neg hhead, run_readByte,
    run_readUInt32_short hhi]

/-- Behind four bytes of a map a cut is never noticed. -/
theorem map_notices_iff {key val : TType} {es : Entries} {p : List UInt8}
    (hcount : es.count < 4294967296) (hwf : es.WellFormed key val)
    (hp : p <+: mapBegin key val es.count ++ es.wire)
    (hne : p ≠ mapBegin key val es.count ++ es.wire) (hsize : p.length < 2147483648) :
    SkipNotices .map p ↔ p.length < 4 := by
  constructor
  · intro h
    by_contra hlen
    refine not_notices_of_branch hsize ?_ h
    show wp (skipMap (skipAt p.length)) p _ _
    unfold wp
    by_cases hhead : p.length < 6
    · -- within the head the read of the number throws
      obtain ⟨b, rfl, -⟩ := prefix_append_split (a := [key.code, val.code]) hp
        (by simp only [List.length_cons, List.length_nil]; omega)
      simp only [List.length_append, List.length_cons, List.length_nil] at hlen hhead
      have hrun := run_skipMap_throws (skipAt ([key.code, val.code] ++ b).length) key.code val.code
        (b := b) (by omega) (by omega)
      rw [show ([key.code, val.code] ++ b) = key.code :: val.code :: b from rfl] at hrun ⊢
      rw [hrun]
      trivial
    · obtain ⟨p', rfl, hp'⟩ := prefix_append_split hp (by rw [length_mapBegin]; omega)
      rw [run_skipMap _ key val hcount]
      cases es with
      | nil =>
          rw [List.prefix_nil.mp hp'] at hne
          exact absurd rfl hne
      | cons k v es =>
          obtain ⟨⟨rfl, -⟩, ⟨rfl, -⟩, -⟩ := hwf
          rw [List.length_append, length_mapBegin] at hsize ⊢
          have hspec := skipEntries_spec (skipAt_spec (6 + p'.length)) k.type.code v.type.code
            (Entries.cons k v es).count p' (by omega)
          refine wp_mono hspec (fun done t ht => ?_) fun _ _ _ => trivial
          refine ⟨Nat.le_trans ht.1 (by omega), ?_⟩
          cases done with
          | true => rfl
          | false => exact absurd (ht.2 (by omega) rfl) (not_or_intro code_noBytes code_noBytes)
  · intro hlen
    exact notices_of_branch (t := p) (run_skipMap_short _ hlen)

/-- A cut struct is noticed where nothing of a cut member is left. -/
theorem struct_notices {fs : Fields} {p : List UInt8} (hwf : fs.WellFormed) (hp : p ∈ fs.cut 3)
    (hsize : p.length < 2147483648) : SkipNotices .struct p := by
  obtain ⟨t, hrun, -⟩ := skipFields_cut fs 3 p.length (p.length + 1) p (Nat.le_refl 3) hwf hp hsize
    (Nat.le_refl _) (Nat.lt_succ_self _)
  exact notices_of_branch (t := t) hrun

/-- A cut value: what is noticed. -/
theorem skip_notices (v : Value) (hwf : v.WellFormed) {p : List UInt8} (hp : p <+: v.wire)
    (hne : p ≠ v.wire) (hsize : p.length < 2147483648) :
    (p ∈ v.seen → SkipNotices v.type p) ∧ (v.type ≠ .struct → SkipNotices v.type p → p ∈ v.seen) := by
  cases v with
  | bool b => exact ⟨fun _ => fixed_notices rfl rfl hp hne, fun _ _ => trivial⟩
  | byte b => exact ⟨fun _ => fixed_notices rfl rfl hp hne, fun _ _ => trivial⟩
  | i16 i => exact ⟨fun _ => fixed_notices rfl (by simp [Value.wire]) hp hne, fun _ _ => trivial⟩
  | i32 i => exact ⟨fun _ => fixed_notices rfl (by simp [Value.wire]) hp hne, fun _ _ => trivial⟩
  | i64 i => exact ⟨fun _ => fixed_notices rfl (by simp [Value.wire]) hp hne, fun _ _ => trivial⟩
  | u64 u => exact ⟨fun _ => fixed_notices rfl (by simp [Value.wire]) hp hne, fun _ _ => trivial⟩
  | double d => exact ⟨fun _ => fixed_notices rfl (by simp [Value.wire]) hp hne, fun _ _ => trivial⟩
  | string s => exact ⟨fun _ => string_notices hwf rfl hp hne, fun _ _ => trivial⟩
  | utf8 s => exact ⟨fun _ => string_notices hwf rfl hp hne, fun _ _ => trivial⟩
  | utf16 s => exact ⟨fun _ => string_notices hwf rfl hp hne, fun _ _ => trivial⟩
  | list elem vs =>
      have hiff := list_notices_iff .list rfl hwf.1 hwf.2 hp hne hsize
      exact ⟨hiff.mpr, fun _ => hiff.mp⟩
  | set elem vs =>
      have hiff := list_notices_iff .set rfl hwf.1 hwf.2 hp hne hsize
      exact ⟨hiff.mpr, fun _ => hiff.mp⟩
  | map key val es =>
      have hiff := map_notices_iff hwf.1 hwf.2 hp hne hsize
      exact ⟨hiff.mpr, fun _ => hiff.mp⟩
  | struct fs => exact ⟨fun h => struct_notices hwf h hsize, fun h => absurd rfl h⟩

/-! ## A cut message -/

/-- `read_message_begin` says that bytes are missing. -/
def MessageNotices (p : List UInt8) : Prop :=
  ∀ m, ∃ m' t, (readMessageBegin m).run p = .ok (false, m') t

/-- The cuts of a message that are noticed. -/
def messageSeen (fname : List UInt8) (mtype : MsgType) (sn : UInt32) (fs : Fields) :
    Language UInt8 :=
  shorterThan (fname.length + 12) + {messageBegin fname mtype sn} * fs.cut 3

/-- A cut inside the header, behind the version. -/
theorem run_readStrictHeader_short (sz : UInt32) (m : Message) {fname : List UInt8}
    (hfname : fname.length < 4294967296) (sn : UInt32) {p : List UInt8}
    (hp : p <+: stringWire fname ++ numberBytes .bigEndian 4 sn.toNat)
    (hlen : p.length < fname.length + 8) :
    ∃ m' t, (readStrictHeader sz m).run p = .ok (false, m') t := by
  by_cases hfirst : p.length < 4
  · refine ⟨{ m with mtype := sz &&& 0xff }, p, ?_⟩
    simp only [readStrictHeader, EStateM.run_bind, run_size, if_pos hfirst, EStateM.run_pure]
  · rw [stringWire, List.append_assoc] at hp
    obtain ⟨p1, rfl, hp1⟩ := prefix_append_split hp (by rw [length_numberBytes]; omega)
    rw [List.length_append, length_numberBytes] at hlen
    by_cases hname : p1.length < fname.length
    · refine ⟨{ m with mtype := sz &&& 0xff }, p1, ?_⟩
      simp only [readStrictHeader, EStateM.run_bind, run_size, if_neg hfirst, run_readLength hfname,
        UInt32.toNat_ofNat_of_lt' hfname, if_pos hname, EStateM.run_pure]
    · obtain ⟨p2, rfl, -⟩ := prefix_append_split hp1 (by omega)
      have hsn : p2.length < 4 := by
        rw [List.length_append] at hlen
        omega
      refine ⟨{ m with mtype := sz &&& 0xff, fname := fname }, p2, ?_⟩
      simp only [readStrictHeader, EStateM.run_bind, run_size, if_neg hfirst, run_readLength hfname,
        UInt32.toNat_ofNat_of_lt' hfname, if_neg hname, run_read rfl, if_pos hsn, EStateM.run_pure]

/-- A cut inside the header. -/
theorem header_notices {fname : List UInt8} (hfname : fname.length < 4294967296) (mtype : MsgType)
    (sn : UInt32) {p : List UInt8} (hp : p <+: messageBegin fname mtype sn)
    (hlen : p.length < fname.length + 12) : MessageNotices p := by
  intro m
  by_cases hfirst : p.length < 4
  · refine ⟨m, p, ?_⟩
    simp only [readMessageBegin, EStateM.run_bind, run_size, if_pos hfirst, EStateM.run_pure]
  · have hstrict : (version1 ||| mtype.code) &&& 0x80000000 ≠ 0 := by cases mtype <;> decide
    obtain ⟨p1, rfl, hp1⟩ := prefix_append_split hp (by rw [length_numberBytes]; omega)
    rw [List.length_append, length_numberBytes] at hlen
    obtain ⟨m', t, hrun⟩ := run_readStrictHeader_short (version1 ||| mtype.code) m hfname sn hp1
      (by omega)
    refine ⟨m', t, ?_⟩
    simp only [readMessageBegin, EStateM.run_bind, run_size, if_neg hfirst]
    rw [reads_readUInt32]
    simp only [hstrict, ne_eq, not_false_eq_true, if_true, EStateM.run_bind, hrun, Bool.not_false,
      EStateM.run_pure]

theorem message_notices {fname : List UInt8} (hfname : fname.length < 4294967296)
    {mtype : MsgType} {sn : UInt32} {fs : Fields} (hwf : fs.WellFormed) {p : List UInt8}
    (hp : p <+: messageBegin fname mtype sn ++ fs.wire) (hsize : p.length < 2147483648)
    (hseen : p ∈ messageSeen fname mtype sn fs) : MessageNotices p := by
  rcases hseen with hlen | ⟨_, rfl, p', hp', rfl⟩
  · have hheader : p <+: messageBegin fname mtype sn :=
      List.prefix_of_prefix_length_le hp (List.prefix_append _ _)
        (by rw [length_messageBegin]; exact Nat.le_of_lt hlen)
    exact header_notices hfname mtype sn hheader hlen
  · intro m
    simp only [List.length_append, length_messageBegin] at hsize
    obtain ⟨n, t, hrun, hneg⟩ := struct_notices hwf hp' (by omega)
    refine ⟨m.withHeader fname mtype sn, t, ?_⟩
    show (readMessageBegin m).run (messageBegin fname mtype sn ++ p') = _
    rw [run_readMessageBegin m hfname, map_eq_pure_bind, run_bind_of_ok hrun, Message.afterSkip,
      if_pos hneg]
    rfl

/-- **Truncation.** A cut of a well-formed value that is in `seen` makes `skip` return a
negative number, without an exception; of a value that is not a struct no other cut does. A
cut of a built message that is in `messageSeen` makes `read_message_begin` answer false. -/
theorem truncation_noticed (fresh stackbuff : Nat → UInt8) :
    (∀ (v : Value) (p : List UInt8), v.WellFormed → p <+: v.wire → p ≠ v.wire →
      p.length < 2147483648 →
      (p ∈ v.seen → SkipNotices v.type p) ∧
        (v.type ≠ .struct → SkipNotices v.type p → p ∈ v.seen)) ∧
    (∀ (fname : List UInt8) (mtype : MsgType) (sn : UInt32) (marshal : SerializerM Unit)
      (fs : Fields) (bytes p : List UInt8), fs.WellFormed → Writes marshal fs.wire →
      output stackbuff (buildMessage fresh fname mtype sn marshal) = .ok bytes →
      bytes.length < 2147483648 → p <+: bytes → p ≠ bytes →
      p ∈ messageSeen fname mtype sn fs → MessageNotices p) ∧
    (∀ (fname : List UInt8) (sn : UInt32) (reason : List UInt8) (code : UInt32)
      (bytes p : List UInt8),
      output stackbuff (buildExceptionMessage fresh fname sn reason code) = .ok bytes →
      bytes.length < 2147483648 → p <+: bytes → p ≠ bytes →
      p ∈ messageSeen fname .exception sn (exceptionFields reason code) → MessageNotices p) := by
  refine ⟨fun v p hwf hp hne hsize => skip_notices v hwf hp hne hsize, ?_, ?_⟩
  · intro fname mtype sn marshal fs bytes p hwf hmarshal hbuild hsize hp _ hseen
    obtain ⟨hfname, rfl⟩ := eq_of_buildMessage fresh hmarshal hbuild hsize
    exact message_notices hfname hwf hp (Nat.lt_of_le_of_lt hp.length_le hsize) hseen
  · intro fname sn reason code bytes p hbuild hsize hp _ hseen
    obtain ⟨hfname, hreason, rfl⟩ := eq_of_buildExceptionMessage fresh hbuild hsize
    have hwf : (exceptionFields reason code).WellFormed := ⟨hreason, trivial, trivial⟩
    exact message_notices hfname hwf hp (Nat.lt_of_le_of_lt hp.length_le hsize) hseen

/-- An exception message cut inside its name. -/
theorem truncation_noticed_name : MessageNotices [128, 1, 0, 3, 0, 0, 0, 2, 102] :=
  (truncation_noticed (fun _ => 0) (fun _ => 0)).2.2 [102, 103] 7 [120] 5
    ([128, 1, 0, 3, 0, 0, 0, 2, 102] ++ [103, 0, 0, 0, 7] ++
      [11, 0, 1, 0, 0, 0, 1, 120, 8, 0, 2, 0, 0, 0, 5, 0]) _ (by rfl) (by decide)
    (by decide) (by decide) (Or.inl (show 9 < 14 by decide))

/-- The exception message for `f` and the reason `x`, without the last three bytes of its
code and the stop byte: the first byte of the code is taken for a stop byte. And the head of a
map with four bytes of the six: an exception. -/
theorem truncated_message_accepted :
    output (fun _ => 0) (buildExceptionMessage (fun _ => 0) [102] 7 [120] 5) =
        .ok ([128, 1, 0, 3, 0, 0, 0, 1, 102, 0, 0, 0, 7, 11, 0, 1, 0, 0, 0, 1, 120, 8, 0, 2, 0] ++
          [0, 0, 5, 0]) ∧
      ¬ MessageNotices
        [128, 1, 0, 3, 0, 0, 0, 1, 102, 0, 0, 0, 7, 11, 0, 1, 0, 0, 0, 1, 120, 8, 0, 2, 0] ∧
      [8, 8, 0, 0] <+:
        (Value.map .i32 .i32 (.cons (.i32 1) (.i32 2) .nil)).wire ∧
      ¬ SkipNotices .map [8, 8, 0, 0] := by
  refine ⟨by rfl, ?_, by decide, ?_⟩
  · intro h
    obtain ⟨m', t, hrun⟩ := h ⟨[], 0, 0, 0, 0⟩
    have haccepted : (match (readMessageBegin ⟨[], 0, 0, 0, 0⟩).run
        [128, 1, 0, 3, 0, 0, 0, 1, 102, 0, 0, 0, 7, 11, 0, 1, 0, 0, 0, 1, 120, 8, 0, 2, 0] with
        | .ok (whole, _) _ => whole
        | .error _ _ => false) = true := by decide +kernel
    rw [hrun] at haccepted
    cases haccepted
  · rintro ⟨n, t, hrun, -⟩
    have hthrows : (skip TType.map.code).run [8, 8, 0, 0] =
        .error (.runtimeException "Deserializer.read_uint32(): not enough data") [0, 0] := rfl
    rw [hthrows] at hrun
    cases hrun

end LinSocketIo.Utils.Thrift
