/-
LinSocketIo.Utils.ThriftHeader — the two readers of a message header, and the
header without a version.

`readMessageBegin` of the source reads a header from a stream and throws when
bytes are missing; `read_message_begin` looks at the bytes that have come
(`Thrift.readMessageBegin`). The first compares the version, the second looks
at one bit of it (`headers_agree_iff`).

Where that bit is not set, the first word of a message is the length of its
name. `read_message_begin` takes the word after it (`old_message_not_framed`).
-/
import LinSocketIo.Utils.SerializerItems
import LinSocketIo.Utils.ThriftTruncation

namespace LinSocketIo.Utils.Thrift

open LinSocketIo.Base Deserializer

/-! ## The reader that compares the version -/

namespace Header

/-- `VERSION_MASK`. -/
def versionMask : UInt32 := 0xffff0000

/-- The arguments that `readMessageBegin` writes to, and the size that it returns. -/
structure Begin where
  name : List UInt8
  messageType : Int32
  seqid : UInt32
  size : UInt32
  deriving DecidableEq, Repr

/-- `readMessageBegin`. -/
def readMessageBegin (bo : ByteOrder) : DeserializerM Begin := do
  let s := UInt32.ofNat (← size)
  let sz ← readInt32 bo
  if sz.toUInt32 &&& versionMask ≠ version1 then
    throw (.runtimeException "Bad version identifier")
  else
    let name ← readBytes32 bo
    let seqid ← readInt32 bo
    return ⟨name, sz &&& 0x000000ff, seqid.toUInt32,
      (s.toUInt64 - UInt64.ofNat (← size)).toUInt32⟩

end Header

/-! ## Headers -/

/-- What follows the first word is a name, a number and `r`. -/
def IsHeader (s name : List UInt8) (sn : UInt32) (r : List UInt8) : Prop :=
  name.length < 4294967296 ∧ s = stringWire name ++ (numberBytes .bigEndian 4 sn.toNat ++ r)

/-- Four bytes are the image of a word. -/
theorem exists_word {s : List UInt8} (h : 4 ≤ s.length) :
    ∃ (u : UInt32) (r : List UInt8), s = numberBytes .bigEndian 4 u.toNat ++ r := by
  have htake : (s.take 4).length = 4 := List.length_take_of_le h
  refine ⟨UInt32.ofNat (BO.convert 4 (leNat (s.take 4)) .bigEndian), s.drop 4, ?_⟩
  rw [UInt32.toNat_ofNat_of_lt' (convert_lt .bigEndian (leNat_lt_of_length htake)),
    numberBytes_convert_leNat .bigEndian htake, List.take_append_drop]

theorem run_readInt32_short {s : List UInt8} (h : s.length < 4) :
    (readInt32 .bigEndian).run s =
      .error (.runtimeException "Deserializer.read_int32(): not enough data") s := by
  have hnumber : (readNumber "read_int32" 4).run s =
      .error (.runtimeException "Deserializer.read_int32(): not enough data") s := by
    rw [readNumber, map_eq_pure_bind, run_bind_of_error (run_fetch_short "read_int32" h)]
    rfl
  rw [readInt32, map_eq_pure_bind, run_bind_of_error hnumber]

/-- What follows the first word is a header, or `read_message_begin` says that bytes are missing
and the reading calls throw. -/
theorem header_cases (s : List UInt8) :
    (∃ name sn r, IsHeader s name sn r) ∨
      ((∀ sz m, ∃ m' t, (readStrictHeader sz m).run s = .ok (false, m') t) ∧
        ∀ {α : Type} (k : List UInt8 → Int32 → DeserializerM α) (a : α) (t : List UInt8),
          (readBytes32 .bigEndian >>= fun name => readInt32 .bigEndian >>= k name).run s ≠
            .ok a t) := by
  by_cases hfirst : s.length < 4
  · refine Or.inr ⟨fun sz m => ⟨{ m with mtype := sz &&& 0xff }, s, ?_⟩, fun k a t hrun => ?_⟩
    · simp only [readStrictHeader, EStateM.run_bind, run_size, if_pos hfirst, EStateM.run_pure]
    · have hbytes : (readBytes32 .bigEndian).run s = .error _ s :=
        run_bind_of_error (run_readUInt32_short hfirst)
      rw [run_bind_of_error hbytes] at hrun
      cases hrun
  obtain ⟨n, s, rfl⟩ := exists_word (Nat.not_lt.mp hfirst)
  have hn := reads_readUInt32 .bigEndian n s
  by_cases hname : s.length < n.toNat
  · refine Or.inr ⟨fun sz m => ⟨{ m with mtype := sz &&& 0xff }, s, ?_⟩, fun k a t hrun => ?_⟩
    · simp only [readStrictHeader, EStateM.run_bind, run_size, if_neg hfirst, hn, if_pos hname,
        EStateM.run_pure]
    · have hbytes : (readBytes32 .bigEndian).run (numberBytes .bigEndian 4 n.toNat ++ s) =
          .error _ s := (run_bind_of_ok hn).trans (run_fetch_short "read" hname)
      rw [run_bind_of_error hbytes] at hrun
      cases hrun
  obtain ⟨name, s, hlen, rfl⟩ : ∃ name t, name.length = n.toNat ∧ s = name ++ t :=
    ⟨s.take n.toNat, s.drop n.toNat, List.length_take_of_le (Nat.not_lt.mp hname),
      (List.take_append_drop _ s).symm⟩
  have hbytes : (readBytes32 .bigEndian).run (numberBytes .bigEndian 4 n.toNat ++ (name ++ s)) =
      .ok name s := (run_bind_of_ok hn).trans (run_read hlen s)
  by_cases hsn : s.length < 4
  · refine Or.inr ⟨fun sz m => ⟨{ m with mtype := sz &&& 0xff, fname := name }, s, ?_⟩,
      fun k a t hrun => ?_⟩
    · simp only [readStrictHeader, EStateM.run_bind, run_size, if_neg hfirst, hn, if_neg hname,
        run_read hlen, if_pos hsn, EStateM.run_pure]
    · rw [run_bind_of_ok hbytes, run_bind_of_error (run_readInt32_short hsn)] at hrun
      cases hrun
  obtain ⟨sn, r, rfl⟩ := exists_word (Nat.not_lt.mp hsn)
  refine Or.inl ⟨name, sn, r, ?_, ?_⟩
  · rw [hlen]
    exact n.toNat_lt
  · rw [stringWire, hlen, List.append_assoc]

/-! ## The two readers -/

/-- `read_message_begin` and `readMessageBegin` accept the header or neither does, and what they
take from it is the same. -/
def HeadersAgree (data : List UInt8) : Prop :=
  ∀ m : Message,
    ((∃ m' t, (readMessageBegin m).run data = .ok (true, m') t) ↔
      ∃ h t, (Header.readMessageBegin .bigEndian).run data = .ok h t) ∧
    ∀ m' t h t', (readMessageBegin m).run data = .ok (true, m') t →
      (Header.readMessageBegin .bigEndian).run data = .ok h t' →
        m'.fname = h.name ∧ m'.mtype = h.messageType.toUInt32 ∧ m'.sn = h.seqid ∧
          m'.headerLength = h.size

/-- `skip` finds a whole struct. -/
def BodyComplete (r : List UInt8) : Prop :=
  ∃ pos t, (skip TType.struct.code).run r = .ok pos t ∧ 0 ≤ pos

theorem bodyComplete_of_wellFormed {fs : Fields} (hwf : fs.WellFormed)
    (hsize : fs.wire.length < 2147483648) (r : List UInt8) : BodyComplete (fs.wire ++ r) :=
  ⟨_, r, run_skip (.struct fs) hwf hsize r, Int.natCast_nonneg _⟩

theorem headerSize_eq {total rest : Nat} (h : rest ≤ total) :
    ((UInt32.ofNat total).toUInt64 - UInt64.ofNat rest).toUInt32 = UInt32.ofNat (total - rest) := by
  apply UInt32.toNat_inj.mp
  rw [UInt64.toNat_toUInt32, UInt64.toNat_sub, UInt32.toNat_toUInt64, UInt32.toNat_ofNat',
    UInt32.toNat_ofNat', UInt64.toNat_ofNat']
  omega

section

variable {w : UInt32} {s : List UInt8}

theorem run_header_badVersion (hversion : w &&& Header.versionMask ≠ version1) :
    (Header.readMessageBegin .bigEndian).run (numberBytes .bigEndian 4 w.toNat ++ s) =
      .error (.runtimeException "Bad version identifier") s := by
  have hread := reads_readInt32 .bigEndian w.toInt32 s
  rw [UInt32.toUInt32_toInt32] at hread
  rw [Header.readMessageBegin, run_bind_of_ok (run_size _), run_bind_of_ok hread,
    UInt32.toUInt32_toInt32, if_pos hversion]
  rfl

/-- What `readMessageBegin` takes from a whole header. -/
theorem run_header (hversion : w &&& Header.versionMask = version1) {name : List UInt8}
    {sn : UInt32} {r : List UInt8} (hs : IsHeader s name sn r) :
    (Header.readMessageBegin .bigEndian).run (numberBytes .bigEndian 4 w.toNat ++ s) =
      .ok ⟨name, w.toInt32 &&& 0xff, sn, UInt32.ofNat (name.length + 12)⟩ r := by
  obtain ⟨hname, rfl⟩ := hs
  have hread := reads_readInt32 .bigEndian w.toInt32
    (stringWire name ++ (numberBytes .bigEndian 4 sn.toNat ++ r))
  have hseqid := reads_readInt32 .bigEndian sn.toInt32 r
  have hbytes := reads_readBytes32 .bigEndian hname (numberBytes .bigEndian 4 sn.toNat ++ r)
  rw [UInt32.toUInt32_toInt32] at hread hseqid
  rw [UInt32.toNat_ofNat_of_lt' hname] at hbytes
  change (readBytes32 .bigEndian).run (stringWire name ++ _) = _ at hbytes
  have htotal : (numberBytes .bigEndian 4 w.toNat ++
      (stringWire name ++ (numberBytes .bigEndian 4 sn.toNat ++ r))).length =
        r.length + (name.length + 12) := by
    simp only [List.length_append, length_numberBytes, length_stringWire]
    omega
  rw [Header.readMessageBegin, run_bind_of_ok (run_size _), run_bind_of_ok hread,
    UInt32.toUInt32_toInt32, if_neg (not_not.mpr hversion), run_bind_of_ok hbytes,
    run_bind_of_ok hseqid, run_bind_of_ok (run_size _), htotal, headerSize_eq (Nat.le_add_right ..),
    Nat.add_sub_cancel_left, UInt32.toUInt32_toInt32]
  rfl

/-- What `read_message_begin` takes from a whole header before a whole struct. -/
theorem run_readMessageBegin_whole (m : Message) (htop : w &&& 0x80000000 ≠ 0) {name : List UInt8}
    {sn : UInt32} {r t : List UInt8} {pos : Int} (hs : IsHeader s name sn r)
    (hskip : (skip TType.struct.code).run r = .ok pos t) (hpos : 0 ≤ pos) :
    (readMessageBegin m).run (numberBytes .bigEndian 4 w.toNat ++ s) =
      .ok (true, ⟨name, w &&& 0xff, sn, UInt32.ofNat (name.length + 12),
        UInt32.ofNat pos.toNat⟩) t := by
  rw [hs.2, run_readMessageBegin_strict m htop hs.1 sn r, map_eq_pure_bind,
    run_bind_of_ok hskip, Message.afterSkip, if_neg (Int.not_lt.mpr hpos)]
  rfl

/-- **The two header readers.** On the bytes of a word with its top bit set, behind which a whole
header is followed by a whole struct, they agree if and only if the word has the version in its
upper half or there is no whole header. -/
theorem headers_agree_iff (htop : w &&& 0x80000000 ≠ 0)
    (hbody : ∀ name sn r, IsHeader s name sn r → BodyComplete r) :
    HeadersAgree (numberBytes .bigEndian 4 w.toNat ++ s) ↔
      w &&& Header.versionMask = version1 ∨ ¬ ∃ name sn r, IsHeader s name sn r := by
  by_cases hheader : ∃ name sn r, IsHeader s name sn r
  · rw [or_iff_left (not_not_intro hheader)]
    obtain ⟨name, sn, r, hs⟩ := hheader
    obtain ⟨pos, t, hskip, hpos⟩ := hbody name sn r hs
    have hwhole := fun m => run_readMessageBegin_whole m htop hs hskip hpos
    constructor
    · intro hagree
      by_contra hversion
      obtain ⟨h, t', hrun⟩ := (hagree ⟨[], 0, 0, 0, 0⟩).1.mp ⟨_, t, hwhole _⟩
      rw [run_header_badVersion hversion] at hrun
      cases hrun
    · intro hversion m
      have hrun := run_header hversion hs
      refine ⟨iff_of_true ⟨_, t, hwhole m⟩ ⟨_, r, hrun⟩, fun m' t₁ h t₂ h₁ h₂ => ?_⟩
      rw [hwhole m] at h₁
      rw [hrun] at h₂
      cases h₁
      cases h₂
      exact ⟨rfl, UInt32.toBitVec_inj.mp rfl, rfl, rfl⟩
  · -- nobody accepts a header that is cut
    refine iff_of_true (fun m => ?_) (Or.inr hheader)
    obtain ⟨hfalse, hthrows⟩ := (header_cases s).resolve_left hheader
    obtain ⟨m₁, t₁, hstrict⟩ := hfalse w m
    have hrejected : (readMessageBegin m).run (numberBytes .bigEndian 4 w.toNat ++ s) =
        .ok (false, m₁) t₁ := by
      have hfirst : ¬ (numberBytes .bigEndian 4 w.toNat ++ s).length < 4 := by simp
      simp only [readMessageBegin, EStateM.run_bind, run_size, if_neg hfirst]
      rw [reads_readUInt32]
      simp only [htop, ne_eq, not_false_eq_true, if_true, EStateM.run_bind, hstrict, Bool.not_false,
        EStateM.run_pure]
    have hthrown : ∀ h t, (Header.readMessageBegin .bigEndian).run
        (numberBytes .bigEndian 4 w.toNat ++ s) ≠ .ok h t := by
      intro h t hrun
      by_cases hversion : w &&& Header.versionMask = version1
      · have hread := reads_readInt32 .bigEndian w.toInt32 s
        rw [UInt32.toUInt32_toInt32] at hread
        rw [Header.readMessageBegin, run_bind_of_ok (run_size _), run_bind_of_ok hread,
          UInt32.toUInt32_toInt32, if_neg (not_not.mpr hversion)] at hrun
        exact hthrows _ h t hrun
      · rw [run_header_badVersion hversion] at hrun
        cases hrun
    refine ⟨iff_of_false ?_ ?_, fun m' t h t' h₁ => ?_⟩
    · rintro ⟨m', t, hrun⟩
      rw [hrejected] at hrun
      cases hrun
    · rintro ⟨h, t, hrun⟩
      exact hthrown h t hrun
    · rw [hrejected] at h₁
      cases h₁

end

/-- The header of a call of `f` with an empty struct behind it. -/
def callF : List UInt8 := [0, 0, 0, 1, 102, 0, 0, 0, 7, 0]

theorem isHeader_callF : IsHeader callF [102] 7 [0] := ⟨by decide, rfl⟩

theorem run_skip_stop : (skip TType.struct.code).run [0] = .ok 1 [] :=
  run_skip (.struct .stop) trivial (by decide) []

/-- The header of a call with the right version. -/
theorem headers_agree_call :
    HeadersAgree ([128, 1, 0, 1] ++ callF) ↔
      (0x80010001 : UInt32) &&& Header.versionMask = version1 ∨
        ¬ ∃ name sn r, IsHeader callF name sn r := by
  refine headers_agree_iff (w := 0x80010001) (by decide) fun name sn r hs => ?_
  -- there is one way to take the header apart
  have hrun := run_header (w := 0x80010001) (by decide) hs
  rw [run_header (by decide) isHeader_callF] at hrun
  cases hrun
  exact ⟨1, [], run_skip_stop, by decide⟩

/-- A header with another version: `read_message_begin` accepts it and `readMessageBegin`
throws. -/
theorem other_version_accepted :
    (readMessageBegin ⟨[], 0, 0, 0, 0⟩).run ([128, 2, 0, 1] ++ callF) =
        .ok (true, ⟨[102], 1, 7, 13, 1⟩) [] ∧
      (Header.readMessageBegin .bigEndian).run ([128, 2, 0, 1] ++ callF) =
        .error (.runtimeException "Bad version identifier") callF ∧
      ¬ HeadersAgree ([128, 2, 0, 1] ++ callF) := by
  have hwhole : ∀ m, (readMessageBegin m).run ([128, 2, 0, 1] ++ callF) =
      .ok (true, ⟨[102], 1, 7, 13, 1⟩) [] := fun m =>
    run_readMessageBegin_whole (w := 0x80020001) m (by decide) isHeader_callF run_skip_stop
      (by decide)
  have hthrows : (Header.readMessageBegin .bigEndian).run ([128, 2, 0, 1] ++ callF) =
      .error (.runtimeException "Bad version identifier") callF :=
    run_header_badVersion (w := 0x80020001) (by decide)
  refine ⟨hwhole _, hthrows, fun h => ?_⟩
  obtain ⟨b, t, hrun⟩ := (h ⟨[], 0, 0, 0, 0⟩).1.mp ⟨_, _, hwhole _⟩
  rw [hthrows] at hrun
  cases hrun

/-! ## The header without a version -/

/-- A message as it was before there were versions: the name behind its length, the type, the
number and the body. -/
def oldMessage (n : List UInt8) (t : UInt8) (s : UInt32) (b : Fields) : List UInt8 :=
  numberBytes .bigEndian 4 (UInt32.ofNat n.length).toNat ++
    (n ++ (t :: (numberBytes .bigEndian 4 s.toNat ++ b.wire)))

/-- The message is found, whatever follows it, and every cut of it is noticed. -/
def OldFramed (n : List UInt8) (t : UInt8) (s : UInt32) (b : Fields) : Prop :=
  (∀ m r, ∃ m', (readMessageBegin m).run (oldMessage n t s b ++ r) = .ok (true, m') r ∧
      m'.fname = n ∧ m'.mtype = t.toUInt32 ∧ m'.sn = s ∧
      m'.headerLength = UInt32.ofNat (n.length + 9) ∧
      m'.bodyLength = UInt32.ofNat b.wire.length) ∧
    ∀ p, p <+: oldMessage n t s b → p ≠ oldMessage n t s b → MessageNotices p

theorem wp_read_length (k : Nat) (s : List UInt8) :
    wp (Deserializer.read k) s (fun a t => s.length = a.length + t.length) (fun _ _ => True) := by
  unfold wp
  by_cases hlen : s.length < k
  · rw [Deserializer.read, run_fetch_short "read" hlen]
    trivial
  · have hrun := run_read (List.length_take_of_le (Nat.not_lt.mp hlen)) (s.drop k)
    rw [List.take_append_drop] at hrun
    rw [hrun]
    show s.length = (s.take k).length + (s.drop k).length
    rw [← List.length_append, List.take_append_drop]

/-- The header with a version takes eight bytes and the name, behind its first word. -/
theorem readStrictHeader_length (sz : UInt32) (m : Message) (s : List UInt8) :
    wp (readStrictHeader sz m) s
      (fun x t => x.1 = true → s.length = x.2.fname.length + 8 + t.length) (fun _ _ => True) := by
  rw [readStrictHeader, wp_bind, wp_size, wp_ite]
  refine ⟨fun _ h => absurd h Bool.false_ne_true, fun _ => ?_⟩
  rw [wp_bind]
  refine wp_mono (wp_number "read_uint32" 4 _ s) (fun sz t ht => ?_) fun _ _ _ => trivial
  rw [wp_bind, wp_size, wp_ite]
  refine ⟨fun _ h => absurd h Bool.false_ne_true, fun _ => ?_⟩
  rw [wp_bind]
  refine wp_mono (wp_read_length sz.toNat t) (fun fname u hu => ?_) fun _ _ _ => trivial
  rw [wp_bind, wp_size, wp_ite]
  refine ⟨fun _ h => absurd h Bool.false_ne_true, fun _ => ?_⟩
  rw [wp_bind]
  refine wp_mono (wp_number "read_uint32" 4 _ u) (fun sn v hv => ?_) fun _ _ _ => trivial
  rw [wp_pure]
  intro _
  show s.length = fname.length + 8 + v.length
  omega

/-- The header without one takes nine, behind its first word. -/
theorem readOldHeader_length (m : Message) (s : List UInt8) :
    wp (readOldHeader m) s
      (fun x t => x.1 = true → s.length = x.2.fname.length + 9 + t.length) (fun _ _ => True) := by
  rw [readOldHeader, wp_bind, wp_size, wp_ite]
  refine ⟨fun _ h => absurd h Bool.false_ne_true, fun _ => ?_⟩
  rw [wp_bind]
  refine wp_mono (wp_number "read_uint32" 4 _ s) (fun sz t ht => ?_) fun _ _ _ => trivial
  rw [wp_bind]
  refine wp_mono (wp_read_length sz.toNat t) (fun fname u hu => ?_) fun _ _ _ => trivial
  rw [wp_bind, wp_size, wp_ite]
  refine ⟨fun _ h => absurd h Bool.false_ne_true, fun _ => ?_⟩
  rw [wp_bind]
  refine wp_mono (wp_number "read_byte" 1 UInt8.ofNat u) (fun mtype v hv => ?_) fun _ _ _ => trivial
  rw [wp_bind]
  refine wp_mono (wp_number "read_uint32" 4 _ v) (fun sn x hx => ?_) fun _ _ _ => trivial
  rw [wp_pure]
  intro _
  show s.length = fname.length + 9 + x.length
  omega

/-- The length that is reported of a header is twelve or thirteen bytes more than the name. -/
def LongHeader (x : Bool × Message) : Prop :=
  x.1 = true → ∃ k, (k = 12 ∨ k = 13) ∧ x.2.headerLength = UInt32.ofNat (x.2.fname.length + k)

theorem wp_skip_true (s : List UInt8) :
    wp (skip TType.struct.code) s (fun _ _ => True) (fun _ _ => True) := by
  unfold wp
  split <;> trivial

/-- What `read_message_begin` does once it has a header. -/
theorem longHeader_of_header {total : Nat} {header : Bool} {m : Message} {s : List UInt8}
    (h : header = true → ∃ k, (k = 12 ∨ k = 13) ∧ total = m.fname.length + k + s.length) :
    wp (do
      if !header then return (false, m)
      else
        let m := { m with headerLength := UInt32.ofNat (total - (← size)) }
        let pos ← skip TType.struct.code
        if pos < 0 then return (false, m)
        else return (true, { m with bodyLength := UInt32.ofNat pos.toNat }))
      s (fun x _ => LongHeader x) (fun _ _ => True) := by
  cases header with
  | false => exact fun h => (nomatch h)
  | true =>
      obtain ⟨k, hk, htotal⟩ := h rfl
      have hsize : total - s.length = m.fname.length + k := by omega
      simp only [Bool.not_true, Bool.false_eq_true, if_false]
      rw [wp_bind, wp_size, wp_bind, hsize]
      refine wp_mono (wp_skip_true s) (fun pos v _ => ?_) fun _ _ _ => trivial
      rw [wp_ite]
      exact ⟨fun _ h => absurd h Bool.false_ne_true, fun _ _ => ⟨k, hk, rfl⟩⟩

theorem readMessageBegin_longHeader (m : Message) (s : List UInt8) :
    wp (readMessageBegin m) s (fun x _ => LongHeader x) (fun _ _ => True) := by
  rw [readMessageBegin, wp_bind, wp_size, wp_ite]
  refine ⟨fun _ h => absurd h Bool.false_ne_true, fun _ => ?_⟩
  rw [wp_bind]
  refine wp_mono (wp_number "read_uint32" 4 _ s) (fun sz t ht => ?_) fun _ _ _ => trivial
  by_cases hstrict : sz &&& 0x80000000 ≠ 0
  · simp only [if_pos hstrict]
    rw [wp_bind]
    refine wp_mono (readStrictHeader_length sz m t) ?_ fun _ _ _ => trivial
    rintro ⟨header, m⟩ u hu
    refine longHeader_of_header (m := m) fun h => ⟨12, Or.inl rfl, ?_⟩
    have hlen : t.length = m.fname.length + 8 + u.length := hu h
    omega
  · simp only [if_neg hstrict]
    rw [wp_bind]
    refine wp_mono (readOldHeader_length m t) ?_ fun _ _ _ => trivial
    rintro ⟨header, m⟩ u hu
    refine longHeader_of_header (m := m) fun h => ⟨13, Or.inr rfl, ?_⟩
    have hlen : t.length = m.fname.length + 9 + u.length := hu h
    omega

/-- **Messages without a version** are never framed: where `read_message_begin` finds one whole,
it does not report the header of that message. -/
theorem old_message_not_framed (n : List UInt8) (t : UInt8) (s : UInt32) (b : Fields) :
    ¬ OldFramed n t s b := by
  rintro ⟨hwhole, -⟩
  obtain ⟨m', hrun, rfl, -, -, hheader, -⟩ := hwhole ⟨[], 0, 0, 0, 0⟩ []
  have hlength := readMessageBegin_longHeader ⟨[], 0, 0, 0, 0⟩ (oldMessage m'.fname t s b ++ [])
  unfold wp at hlength
  rw [hrun] at hlength
  obtain ⟨k, hk, heq⟩ := hlength rfl
  have hsame : UInt32.ofNat (m'.fname.length + 9) = UInt32.ofNat (m'.fname.length + k) :=
    hheader.symm.trans heq
  have hmod := congrArg UInt32.toNat hsame
  rw [UInt32.toNat_ofNat', UInt32.toNat_ofNat'] at hmod
  rcases hk with rfl | rfl <;> omega

/-- A call of `f` without a version and an empty struct behind it: the name and what follows it are
taken for a length, and the read throws. -/
theorem old_message_throws :
    oldMessage [102] 1 7 .stop = [0, 0, 0, 1, 102, 1, 0, 0, 0, 7, 0] ∧
      (readMessageBegin ⟨[], 0, 0, 0, 0⟩).run (oldMessage [102] 1 7 .stop) =
        .error (.runtimeException "Deserializer.read(): not enough data") [0, 7, 0] ∧
      ¬ OldFramed [102] 1 7 .stop := by
  have hthrows : (readMessageBegin ⟨[], 0, 0, 0, 0⟩).run (oldMessage [102] 1 7 .stop) =
      .error (.runtimeException "Deserializer.read(): not enough data") [0, 7, 0] := rfl
  refine ⟨rfl, hthrows, fun h => ?_⟩
  obtain ⟨m', hrun, -⟩ := h.1 ⟨[], 0, 0, 0, 0⟩ []
  rw [List.append_nil, hthrows] at hrun
  cases hrun

end LinSocketIo.Utils.Thrift
