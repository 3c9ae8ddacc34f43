/-
LinSocketIo.Utils.ThriftMessages — a message that was built is found again.

`messageBegin` is the header that both builders write. Behind it
`read_message_begin` lets `skip` find the end of the body
(`run_readMessageBegin`), and for a well-formed body `skip` does
(`skipAt_wire`).

* `readMessageBegin_build` — the framing round trip.
-/
import LinSocketIo.Utils.ThriftTheorems

namespace LinSocketIo.Utils.Thrift

open LinSocketIo.Base Deserializer Serializer

/-! ## What is built -/

/-- The header of a message. -/
def messageBegin (fname : List UInt8) (mtype : MsgType) (sn : UInt32) : List UInt8 :=
  numberBytes .bigEndian 4 (version1 ||| mtype.code).toNat ++
    (stringWire fname ++ numberBytes .bigEndian 4 sn.toNat)

@[simp] theorem length_messageBegin (fname : List UInt8) (mtype : MsgType) (sn : UInt32) :
    (messageBegin fname mtype sn).length = fname.length + 12 := by
  simp only [messageBegin, List.length_append, length_numberBytes, length_stringWire]
  omega

/-- The fields of an exception. -/
def exceptionFields (reason : List UInt8) (code : UInt32) : Fields :=
  .cons 1 (.string reason) (.cons 2 (.i32 code.toInt32) .stop)

variable (fresh : Nat → UInt8)

/-- `build_message` writes the header and what the object writes. -/
theorem eq_of_buildMessage {fname : List UInt8} {mtype : MsgType} {sn : UInt32}
    {marshal : SerializerM Unit} {body bytes : List UInt8} (hbody : Writes marshal body)
    {stackbuff : Nat → UInt8}
    (hbuild : output stackbuff (buildMessage fresh fname mtype sn marshal) = .ok bytes)
    (hsize : bytes.length < 2147483648) :
    fname.length < 4294967296 ∧ bytes = messageBegin fname mtype sn ++ body := by
  have hwrites : Writes (buildMessage fresh fname mtype sn marshal) _ :=
    (writes_writeUInt32 fresh .bigEndian _).bind
      ((within_writeString32_cut fresh .bigEndian fname).writes.bind
        ((writes_writeUInt32 fresh .bigEndian sn).bind hbody))
  have hcode : mtype.code &&& 0xff = mtype.code := by cases mtype <;> decide
  have hbytes := eq_of_output hwrites hbuild
  have hfname : fname.length < 4294967296 := by
    rw [hbytes] at hsize
    simp only [List.length_append, length_numberBytes] at hsize
    omega
  refine ⟨hfname, ?_⟩
  rw [hbytes, hcode, UInt32.toNat_ofNat_of_lt' hfname, messageBegin, stringWire]
  simp only [List.append_assoc]

/-- `build_exception_message` writes the header and the fields of the exception. -/
theorem eq_of_buildExceptionMessage {fname : List UInt8} {sn : UInt32} {reason : List UInt8}
    {code : UInt32} {bytes : List UInt8} {stackbuff : Nat → UInt8}
    (hbuild : output stackbuff (buildExceptionMessage fresh fname sn reason code) = .ok bytes)
    (hsize : bytes.length < 2147483648) :
    fname.length < 4294967296 ∧ reason.length < 4294967296 ∧
      bytes = messageBegin fname .exception sn ++ (exceptionFields reason code).wire := by
  have hwrites : Writes (buildExceptionMessage fresh fname sn reason code) _ :=
    (writes_writeUInt32 fresh .bigEndian _).bind
      ((within_writeString32_cut fresh .bigEndian fname).writes.bind
        ((writes_writeUInt32 fresh .bigEndian sn).bind
          ((writes_writeByte fresh TType.string.code).bind
            ((writes_writeUInt16 fresh .bigEndian 1).bind
              ((within_writeString32_cut fresh .bigEndian reason).writes.bind
                ((writes_writeByte fresh TType.i32.code).bind
                  ((writes_writeUInt16 fresh .bigEndian 2).bind
                    ((writes_writeUInt32 fresh .bigEndian code).bind
                      (writes_writeByte fresh TType.stop.code)))))))))
  have hbytes := eq_of_output hwrites hbuild
  have hlen : fname.length < 4294967296 ∧ reason.length < 4294967296 := by
    rw [hbytes] at hsize
    simp only [List.length_append, length_numberBytes] at hsize
    constructor <;> omega
  refine ⟨hlen.1, hlen.2, ?_⟩
  rw [hbytes, UInt32.toNat_ofNat_of_lt' hlen.1, UInt32.toNat_ofNat_of_lt' hlen.2]
  simp only [messageBegin, stringWire, exceptionFields, Fields.wire, Value.wire, Value.type,
    fieldBegin, UInt32.toUInt32_toInt32, List.append_assoc, List.cons_append, List.nil_append]
  rfl

/-! ## What is read -/

/-- The arguments of `read_message_begin` once the header has been read. -/
def Message.withHeader (m : Message) (fname : List UInt8) (mtype : MsgType) (sn : UInt32) :
    Message :=
  { m with
    fname := fname
    mtype := mtype.code
    sn := sn
    headerLength := UInt32.ofNat (fname.length + 12) }

/-- What `read_message_begin` makes of the result of `skip`. -/
def Message.afterSkip (m : Message) (pos : Int) : Bool × Message :=
  if pos < 0 then (false, m) else (true, { m with bodyLength := UInt32.ofNat pos.toNat })

/-- What follows the version. -/
theorem run_readStrictHeader (sz : UInt32) (m : Message) {fname : List UInt8}
    (hfname : fname.length < 4294967296) (sn : UInt32) (r : List UInt8) :
    (readStrictHeader sz m).run (stringWire fname ++ (numberBytes .bigEndian 4 sn.toNat ++ r)) =
      .ok (true, { m with mtype := sz &&& 0xff, fname := fname, sn := sn }) r := by
  have hlen : ¬ (stringWire fname ++ (numberBytes .bigEndian 4 sn.toNat ++ r)).length < 4 := by
    simp only [List.length_append, length_stringWire]
    omega
  have hname : ¬ (fname ++ (numberBytes .bigEndian 4 sn.toNat ++ r)).length < fname.length := by
    simp
  have hsn : ¬ (numberBytes .bigEndian 4 sn.toNat ++ r).length < 4 := by simp
  simp only [readStrictHeader, EStateM.run_bind, run_size, if_neg hlen]
  rw [stringWire, List.append_assoc, run_readLength hfname]
  simp only [UInt32.toNat_ofNat_of_lt' hfname, if_neg hname, EStateM.run_bind, run_size,
    run_read rfl, if_neg hsn, reads_readUInt32 .bigEndian sn r, EStateM.run_pure]

/-- Behind a whole header with a first word whose top bit is set, the answer is what `skip` says
about the body. -/
theorem run_readMessageBegin_strict (m : Message) {w : UInt32} (hstrict : w &&& 0x80000000 ≠ 0)
    {fname : List UInt8} (hfname : fname.length < 4294967296) (sn : UInt32) (r : List UInt8) :
    (readMessageBegin m).run (numberBytes .bigEndian 4 w.toNat ++
        (stringWire fname ++ (numberBytes .bigEndian 4 sn.toNat ++ r))) =
      (Message.afterSkip ⟨fname, w &&& 0xff, sn, UInt32.ofNat (fname.length + 12), m.bodyLength⟩ <$>
        skip TType.struct.code).run r := by
  have hhead : ¬ (numberBytes .bigEndian 4 w.toNat ++
      (stringWire fname ++ (numberBytes .bigEndian 4 sn.toNat ++ r))).length < 4 := by
    simp only [List.length_append, length_numberBytes]
    omega
  have htotal : (numberBytes .bigEndian 4 w.toNat ++
      (stringWire fname ++ (numberBytes .bigEndian 4 sn.toNat ++ r))).length - r.length =
        fname.length + 12 := by
    simp only [List.length_append, length_numberBytes, length_stringWire]
    omega
  rw [map_eq_pure_bind]
  simp only [readMessageBegin, EStateM.run_bind, run_size, if_neg hhead]
  generalize (numberBytes .bigEndian 4 w.toNat ++
    (stringWire fname ++ (numberBytes .bigEndian 4 sn.toNat ++ r))).length = total at htotal
  rw [reads_readUInt32]
  simp only [hstrict, ne_eq, not_false_eq_true, if_true, EStateM.run_bind, run_size,
    run_readStrictHeader _ m hfname sn r, htotal, Bool.not_true, Bool.false_eq_true, if_false]
  cases (skip TType.struct.code).run r with
  | ok pos t =>
      unfold Message.afterSkip
      by_cases hpos : pos < 0
      · simp only [if_pos hpos]
      · simp only [if_neg hpos]
  | error e t => rfl

/-- Behind a header that was built the answer is what `skip` says about the body. -/
theorem run_readMessageBegin (m : Message) {fname : List UInt8}
    (hfname : fname.length < 4294967296) (mtype : MsgType) (sn : UInt32) (r : List UInt8) :
    (readMessageBegin m).run (messageBegin fname mtype sn ++ r) =
      ((m.withHeader fname mtype sn).afterSkip <$> skip TType.struct.code).run r := by
  have hstrict : (version1 ||| mtype.code) &&& 0x80000000 ≠ 0 := by cases mtype <;> decide
  have hcode : (version1 ||| mtype.code) &&& 0xff = mtype.code := by cases mtype <;> decide
  have hrun := run_readMessageBegin_strict m hstrict hfname sn r
  rw [hcode] at hrun
  rw [messageBegin, List.append_assoc, List.append_assoc, hrun]
  rfl

/-- The bytes are found to be a message, whatever follows them: with its name, type and
number, and with the body between the lengths that are reported. -/
def FramesAs (bytes : List UInt8) (fname : List UInt8) (mtype : MsgType) (sn : UInt32)
    (body : List UInt8) : Prop :=
  ∀ (m : Message) (r : List UInt8), ∃ m' : Message,
    (readMessageBegin m).run (bytes ++ r) = .ok (true, m') r ∧
      m'.fname = fname ∧ m'.mtype = mtype.code ∧ m'.sn = sn ∧
      m'.headerLength.toNat + m'.bodyLength.toNat = bytes.length ∧
      ((bytes ++ r).drop m'.headerLength.toNat).take m'.bodyLength.toNat = body

theorem framesAs_of_wellFormed {fname : List UInt8} (mtype : MsgType) (sn : UInt32) {fs : Fields}
    (hwf : fs.WellFormed) (hsize : (messageBegin fname mtype sn ++ fs.wire).length < 2147483648) :
    FramesAs (messageBegin fname mtype sn ++ fs.wire) fname mtype sn fs.wire := by
  intro m r
  rw [List.length_append, length_messageBegin] at hsize
  have hskip : (skip TType.struct.code).run (fs.wire ++ r) = .ok (fs.wire.length : Int) r :=
    run_skip (.struct fs) hwf (show fs.wire.length < 2147483648 by omega) r
  have hheader : (UInt32.ofNat (fname.length + 12)).toNat = fname.length + 12 :=
    UInt32.toNat_ofNat_of_lt' (show fname.length + 12 < 4294967296 by omega)
  have hbody : (UInt32.ofNat fs.wire.length).toNat = fs.wire.length :=
    UInt32.toNat_ofNat_of_lt' (show fs.wire.length < 4294967296 by omega)
  refine ⟨{ m.withHeader fname mtype sn with bodyLength := UInt32.ofNat fs.wire.length },
    ?_, rfl, rfl, rfl, ?_, ?_⟩
  · have hpos : ¬ (fs.wire.length : Int) < 0 := by omega
    rw [List.append_assoc, run_readMessageBegin m (by omega), map_eq_pure_bind,
      run_bind_of_ok hskip, Message.afterSkip, if_neg hpos, Int.toNat_natCast]
    rfl
  · show (UInt32.ofNat (fname.length + 12)).toNat + (UInt32.ofNat fs.wire.length).toNat = _
    rw [hheader, hbody, List.length_append, length_messageBegin]
  · show ((messageBegin fname mtype sn ++ fs.wire ++ r).drop
      (UInt32.ofNat (fname.length + 12)).toNat).take (UInt32.ofNat fs.wire.length).toNat = _
    rw [hheader, hbody, List.append_assoc, List.drop_left' (length_messageBegin ..), List.take_left']
    rfl

/-- **Framing round trip.** What `build_message` and `build_exception_message` give is found
to be that message, whatever follows it. The object of the first is any one that writes a
well-formed struct. -/
theorem readMessageBegin_build (fresh stackbuff : Nat → UInt8) :
    (∀ (fname : List UInt8) (mtype : MsgType) (sn : UInt32) (marshal : SerializerM Unit)
      (fs : Fields) (bytes : List UInt8), fs.WellFormed → Writes marshal fs.wire →
      output stackbuff (buildMessage fresh fname mtype sn marshal) = .ok bytes →
      bytes.length < 2147483648 → FramesAs bytes fname mtype sn fs.wire) ∧
    (∀ (fname : List UInt8) (sn : UInt32) (reason : List UInt8) (code : UInt32)
      (bytes : List UInt8),
      output stackbuff (buildExceptionMessage fresh fname sn reason code) = .ok bytes →
      bytes.length < 2147483648 →
      FramesAs bytes fname .exception sn (exceptionFields reason code).wire) := by
  constructor
  · intro fname mtype sn marshal fs bytes hwf hmarshal hbuild hsize
    obtain ⟨-, rfl⟩ := eq_of_buildMessage fresh hmarshal hbuild hsize
    exact framesAs_of_wellFormed mtype sn hwf hsize
  · intro fname sn reason code bytes hbuild hsize
    obtain ⟨-, hreason, rfl⟩ := eq_of_buildExceptionMessage fresh hbuild hsize
    exact framesAs_of_wellFormed .exception sn ⟨hreason, trivial, trivial⟩ hsize

/-- A call of `f` with a list of two numbers, and an exception, both with bytes behind them. -/
theorem readMessageBegin_build_call :
    FramesAs ([128, 1, 0, 1, 0, 0, 0, 1, 102, 0, 0, 0, 7] ++
        [15, 0, 1, 6, 0, 0, 0, 2, 255, 255, 0, 5, 0]) [102] .call 7
      [15, 0, 1, 6, 0, 0, 0, 2, 255, 255, 0, 5, 0] ∧
    FramesAs ([128, 1, 0, 3, 0, 0, 0, 1, 102, 0, 0, 0, 7] ++
        [11, 0, 1, 0, 0, 0, 1, 120, 8, 0, 2, 0, 0, 0, 5, 0]) [102] .exception 7
      [11, 0, 1, 0, 0, 0, 1, 120, 8, 0, 2, 0, 0, 0, 5, 0] := by
  have hbuild := readMessageBegin_build (fun _ => 0) (fun _ => 0)
  let fs : Fields := .cons 1 (.list .i16 (.cons (.i16 (-1)) (.cons (.i16 5) .nil))) .stop
  have hwf : fs.WellFormed := by simp [fs, Fields.WellFormed, Value.WellFormed, Values.WellFormed,
    Values.count, Value.type]
  refine ⟨?_, ?_⟩
  · exact hbuild.1 [102] .call 7 (fs.write fun _ => 0) fs _ hwf (writes_fields _ fs hwf) (by rfl)
      (by decide)
  · exact hbuild.2 [102] 7 [120] 5 _ (by rfl) (by decide)

end LinSocketIo.Utils.Thrift
