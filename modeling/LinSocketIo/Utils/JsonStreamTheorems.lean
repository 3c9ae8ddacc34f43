/-
LinSocketIo.Utils.JsonStreamTheorems — the stream is a string as long as
`memset` gets no room.

`Holds offset text s` is what a call keeps: the bytes from the start of the
serializer on are the string, and nothing was written outside what its call was
given. A fill at the pointer that `forward` returned is an append
(`fill_spec`), whatever the growth of the buffer did to the tail before. The
fill of `memset` is not at that pointer (`memset_spec`).

* `stream_is_string_iff` — the runs in which the stream is a string.
-/
import LinSocketIo.Utils.BufferLimit
import LinSocketIo.Utils.JsonStream

namespace LinSocketIo.Utils.Stream

open LinSocketIo.Base

/-- The serializer that starts at `offset` has the string, and nothing was written outside. -/
structure Holds (offset : Nat) (text : List UInt8) (s : Stream) : Prop where
  wf : s.buffer.Wf
  start : offset ≤ s.buffer.size
  text : s.buffer.contents.drop offset = text
  inside : s.inside = true

variable {offset : Nat} {text : List UInt8} {s : Stream}

theorem data_of_holds (h : Holds offset text s) : Serializer.data offset s.buffer = .ok text := by
  unfold Serializer.data
  rw [if_neg (Nat.not_lt.mpr h.start), h.text]

theorem length_of_holds (h : Holds offset text s) : text.length = s.buffer.size - offset := by
  rw [← h.text, List.length_drop, ByteBuffer.length_contents h.wf]

/-- The buffer has gained bytes at the end. -/
theorem holds_append (h : Holds offset text s) {b : ByteBuffer} {bytes : List UInt8} {p n : Nat}
    (hwf : b.Wf) (hcont : b.contents = s.buffer.contents ++ bytes) :
    Holds offset (text ++ bytes) ⟨b, p, n, true⟩ := by
  have hlen := ByteBuffer.length_contents h.wf
  have hlen' : b.size = s.buffer.size + bytes.length := by
    rw [← ByteBuffer.length_contents hwf, hcont, List.length_append, hlen]
  have hstart := h.start
  refine ⟨hwf, by simp only; omega, ?_, rfl⟩
  simp only [hcont]
  rw [List.drop_append_of_le_length (by omega), h.text]

/-! ## Room and what is written into it -/

/-- How `forward` ends: the tail has moved over the room, which begins where the contents of
a buffer `b` with the old contents end, or it throws. -/
theorem forward_spec (hb : s.buffer.Wf) (fresh : Nat → UInt8) (n : Nat) :
    (∃ b : ByteBuffer, (forward fresh n).run s =
        .ok b.tail ⟨{ b with tail := b.tail + n }, b.tail, n, s.inside⟩ ∧
        ByteBuffer.Room s.buffer n b ∧ ¬ s.buffer.Over n) ∨
      ((forward fresh n).run s = .error (.buffer (.resourceLimit "buffer overflow")) s ∧
        s.buffer.Over n) := by
  have hsizes := ByteBuffer.reserve_sizes hb.sound fresh n
  unfold wp at hsizes
  rcases ByteBuffer.reserve_spec hb fresh n with ⟨b, hr, hroom⟩ | ⟨hr, -⟩
  · have hforward : (ByteBuffer.forward fresh n).run s.buffer =
        .ok b.tail { b with tail := b.tail + n } := by
      unfold ByteBuffer.forward
      rw [run_bind_of_ok hr]
      rfl
    have hon : (onBuffer (ByteBuffer.forward fresh n)).run s =
        .ok b.tail { s with buffer := { b with tail := b.tail + n } } := by
      show (onBuffer (ByteBuffer.forward fresh n)) s = _
      rw [onBuffer, hforward]
    rw [hr] at hsizes
    exact Or.inl ⟨b, run_bind_of_ok hon, hroom, hsizes.room⟩
  · have hforward : (ByteBuffer.forward fresh n).run s.buffer =
        .error (.resourceLimit "buffer overflow") s.buffer := by
      unfold ByteBuffer.forward
      rw [run_bind_of_error hr]
    have hon : (onBuffer (ByteBuffer.forward fresh n)).run s =
        .error (.buffer (.resourceLimit "buffer overflow")) s := by
      show (onBuffer (ByteBuffer.forward fresh n)) s = _
      rw [onBuffer, hforward]
    rw [hr] at hsizes
    rcases hsizes.2 with ⟨-, hover⟩ | ⟨hhangs, -⟩
    · exact Or.inr ⟨run_bind_of_error hon, hover⟩
    · cases hhangs

/-- The room is filled at the pointer that `forward` returned. -/
theorem fill_spec (h : Holds offset text s) (fresh : Nat → UInt8) (bytes : List UInt8) :
    (∃ t, (pushFilled fresh bytes).run s = .ok () t ∧ Holds offset (text ++ bytes) t) ∨
      ((pushFilled fresh bytes).run s = .error (.buffer (.resourceLimit "buffer overflow")) s ∧
        s.buffer.Over bytes.length) := by
  rcases forward_spec h.wf fresh bytes.length with ⟨b, hrun, hroom, -⟩ | ⟨hrun, hover⟩
  · have hspace := hroom.space
    have hmem := hroom.wf.mem
    have htail := hroom.wf.tail
    have htake : bytes.take (b.mem.length - b.tail) = bytes := by
      unfold ByteBuffer.space at hspace
      exact List.take_of_length_le (by omega)
    have hassign : (assign b.tail bytes).run
        ⟨{ b with tail := b.tail + bytes.length }, b.tail, bytes.length, s.inside⟩ =
          .ok () ⟨{ b with mem := store b.mem b.tail bytes, tail := b.tail + bytes.length },
            b.tail, bytes.length, true⟩ := by
      unfold assign
      rw [EStateM.run_modify]
      simp only [h.inside, htake, Nat.le_refl, and_self, decide_true, Bool.and_self]
    obtain ⟨hwf, hcont⟩ := ByteBuffer.wf_push hroom.wf hspace
    rw [hroom.contents] at hcont
    exact Or.inl ⟨_, (run_bind_of_ok hrun).trans hassign, holds_append h hwf hcont⟩
  · exact Or.inr ⟨run_bind_of_error hrun, hover⟩

/-- The tail goes back over what was put. -/
theorem pop_spec (h : Holds offset text s) {count : Nat} (hcount : count ≤ text.length) :
    ∃ t, (pop count).run s = .ok () t ∧ Holds offset (text.take (text.length - count)) t := by
  have hlen := length_of_holds h
  have hlen' := ByteBuffer.length_contents h.wf
  have hstart := h.start
  have hhead := h.wf.head
  obtain ⟨hwf, hcont⟩ := ByteBuffer.wf_cut h.wf (Nat.sub_le s.buffer.size count)
  have htail : s.buffer.head + (s.buffer.size - count) = s.buffer.tail - count := by
    unfold ByteBuffer.size at *
    omega
  rw [htail] at hwf hcont
  have hrun : (pop count).run s = .ok () { s with buffer.tail := s.buffer.tail - count } := by
    have hback : (ByteBuffer.back count).run s.buffer =
        .ok s.buffer.tail { s.buffer with tail := s.buffer.tail - count } := by
      have hrun : (ByteBuffer.back count).run s.buffer = .ok s.buffer.tail
          (if s.buffer.size ≥ count then { s.buffer with tail := s.buffer.tail - count }
            else s.buffer) := rfl
      rw [hrun, if_pos (by omega)]
    have hon : (onBuffer (ByteBuffer.back count)).run s =
        .ok s.buffer.tail { s with buffer.tail := s.buffer.tail - count } := by
      show (onBuffer (ByteBuffer.back count)) s = _
      rw [onBuffer, hback]
    unfold pop
    rw [run_bind_of_ok hon]
    rfl
  refine ⟨_, hrun, hwf, ?_, ?_, h.inside⟩
  · show offset ≤ s.buffer.tail - count - s.buffer.head
    unfold ByteBuffer.size at *
    omega
  · rw [hcont, List.drop_take, h.text, hlen]
    congr 1
    omega

/-- One byte is put behind the string and taken away again. -/
theorem terminate_spec (h : Holds offset text s) (fresh : Nat → UInt8) :
    (∃ t, (shrinkToFit fresh).run s = .ok () t ∧ Holds offset text t) ∨
      ((shrinkToFit fresh).run s = .error (.buffer (.resourceLimit "buffer overflow")) s ∧
        s.buffer.Over 1) := by
  have hshrink : shrinkToFit fresh = (do pushFilled fresh [0]; pop 1) := by
    unfold shrinkToFit pushFilled
    rw [bind_assoc]
    rfl
  rw [hshrink]
  rcases fill_spec h fresh [0] with ⟨t, hrun, ht⟩ | ⟨hrun, hover⟩
  · obtain ⟨u, hpop, hu⟩ := pop_spec ht (show 1 ≤ (text ++ [0]).length by simp)
    rw [List.length_append, List.length_singleton, Nat.add_sub_cancel, List.take_left] at hu
    exact Or.inl ⟨u, (run_bind_of_ok hrun).trans hpop, hu⟩
  · exact Or.inr ⟨run_bind_of_error hrun, hover⟩

/-- `GetString` shows the string. -/
theorem getString_spec (h : Holds offset text s) (fresh : Nat → UInt8) :
    (∃ t, (getString fresh offset).run s = .ok text t ∧ Holds offset text t) ∨
      ((getString fresh offset).run s = .error (.buffer (.resourceLimit "buffer overflow")) s ∧
        s.buffer.Over 1) := by
  have hget : getString fresh offset = (do shrinkToFit fresh; data offset) := by
    unfold getString shrinkToFit
    simp only [bind_assoc]
  rw [hget]
  rcases terminate_spec h fresh with ⟨t, hrun, ht⟩ | ⟨hrun, hover⟩
  · have hdata : (data offset).run t = .ok text t := by
      show data offset t = _
      rw [data, data_of_holds ht]
    exact Or.inl ⟨t, (run_bind_of_ok hrun).trans hdata, ht⟩
  · exact Or.inr ⟨run_bind_of_error hrun, hover⟩

theorem reserve_spec (h : Holds offset text s) (fresh : Nat → UInt8) (n : Nat) :
    (∃ t, (reserve fresh n).run s = .ok () t ∧ Holds offset text t) ∨
      ((reserve fresh n).run s = .error (.buffer (.resourceLimit "buffer overflow")) s ∧
        s.buffer.Over n) := by
  have hsizes := ByteBuffer.reserve_sizes h.wf.sound fresh n
  unfold wp at hsizes
  rcases ByteBuffer.reserve_spec h.wf fresh n with ⟨b, hr, hroom⟩ | ⟨hr, -⟩
  · have hon : (onBuffer (ByteBuffer.reserve fresh n)).run s = .ok b.tail { s with buffer := b } := by
      show (onBuffer (ByteBuffer.reserve fresh n)) s = _
      rw [onBuffer, hr]
    have hsize : b.size = s.buffer.size := by
      rw [← ByteBuffer.length_contents hroom.wf, hroom.contents, ByteBuffer.length_contents h.wf]
    have hstart := h.start
    refine Or.inl ⟨{ s with buffer := b }, run_bind_of_ok hon, hroom.wf, ?_, ?_, h.inside⟩
    · simp only; omega
    · simp only [hroom.contents]
      exact h.text
  · have hon : (onBuffer (ByteBuffer.reserve fresh n)).run s =
        .error (.buffer (.resourceLimit "buffer overflow")) s := by
      show (onBuffer (ByteBuffer.reserve fresh n)) s = _
      rw [onBuffer, hr]
    rw [hr] at hsizes
    rcases hsizes.2 with ⟨-, hover⟩ | ⟨hhangs, -⟩
    · exact Or.inr ⟨run_bind_of_error hon, hover⟩
    · cases hhangs

/-- `memset` of bytes that get their room writes behind the room. -/
theorem memset_spec (h : Holds offset text s) (fresh : Nat → UInt8) (count : Nat) (ch : UInt8) :
    (∃ t, (memset fresh count ch).run s = .ok () t ∧ ¬ s.buffer.Over count ∧
        (count = 0 → Holds offset text t) ∧ (0 < count → t.inside = false)) ∨
      ((memset fresh count ch).run s = .error (.buffer (.resourceLimit "buffer overflow")) s ∧
        s.buffer.Over count) := by
  rcases forward_spec h.wf fresh count with ⟨b, hrun, hroom, hfits⟩ | ⟨hrun, hover⟩
  · refine Or.inl ⟨_, run_bind_of_ok hrun, hfits, ?_, fun hpos => ?_⟩
    · rintro rfl
      have hcont : b.contents = s.buffer.contents ++ [] := by rw [hroom.contents, List.append_nil]
      have hholds := holds_append h (p := b.tail) (n := 0) hroom.wf hcont
      have hmem : store b.mem (b.tail + 0) [] = b.mem := by
        rw [store, List.append_nil]
        exact List.take_append_drop _ _
      rw [List.append_nil] at hholds
      show Holds offset text ⟨{ b with mem := store b.mem (b.tail + 0) (([] : List UInt8).take _) },
        b.tail, 0, s.inside && decide (b.tail ≤ b.tail ∧ b.tail ≤ b.tail)⟩
      rw [List.take_nil, hmem, h.inside]
      simp only [Nat.le_refl, and_self, decide_true, Bool.and_self]
      exact hholds
    · show (s.inside && decide (b.tail ≤ b.tail + count ∧
        b.tail + count + (List.replicate count ch).length ≤ b.tail + count)) = false
      rw [List.length_replicate, Bool.and_eq_false_iff, decide_eq_false_iff_not]
      omega
  · exact Or.inr ⟨run_bind_of_error hrun, hover⟩

/-! ## Runs -/

/-- No more is popped than was put. -/
def Pops (s : Session) : Call × (Nat → UInt8) → Prop
  | (.pop count, _) => count ≤ s.text.length
  | _ => True

instance (s : Session) : DecidablePred (Pops s)
  | (.pop _, _) => inferInstanceAs (Decidable (_ ≤ _))
  | (.put _, _) | (.putUnsafe _, _) | (.push _, _) | (.reserve _, _) | (.memset _ _, _)
  | (.shrinkToFit, _) | (.getString, _) => isTrue trivial

/-- A request that memory can have. -/
def Call.Addressable : Call → Prop
  | .push bytes => bytes.length < 9223372036854775808
  | .reserve count | .memset count _ => count < 9223372036854775808
  | _ => True

/-- The call is no `memset` that gets room for one byte or more. -/
def Checked (s : Session) : Call × (Nat → UInt8) → Prop
  | (.memset count _, _) => count = 0 ∨ s.stream.buffer.Over count
  | _ => True

/-- The call asks for more room than the buffer may give. `Pop` asks for none. -/
def Call.Over (b : ByteBuffer) : Call → Prop
  | .put _ | .putUnsafe _ | .shrinkToFit | .getString => b.Over 1
  | .push bytes => b.Over bytes.length
  | .reserve count | .memset count _ => b.Over count
  | .pop _ => False

/-- The call throws only if it asks for more room than the buffer may give; after it the
serializer has the string, and nothing was written outside what the call was given. -/
def Faithful (offset : Nat) (m : Machine Session (Call × (Nat → UInt8))) (s : Session)
    (c : Call × (Nat → UInt8)) : Prop :=
  ∀ s', m.step s c = some s' →
    (s'.stopped ≠ none → c.1.Over s.stream.buffer) ∧
      Serializer.data offset s'.stream.buffer = .ok s'.text ∧ s'.stream.inside = true

/-- How a call ends, but for `memset`. -/
theorem exec_spec (h : Holds offset text s) (fresh : Nat → UInt8) (c : Call)
    (hpop : ∀ count, c = .pop count → count ≤ text.length) (hset : ∀ count ch, c ≠ .memset count ch) :
    (∃ t, (c.exec offset fresh).run s = .ok () t ∧ Holds offset (c.onText text) t) ∨
      ((c.exec offset fresh).run s = .error (.buffer (.resourceLimit "buffer overflow")) s ∧
        c.Over s.buffer) := by
  cases c with
  | put ch => exact fill_spec h fresh [ch]
  | putUnsafe ch => exact fill_spec h fresh [ch]
  | push bytes => exact fill_spec h fresh bytes
  | pop count => exact Or.inl (pop_spec h (hpop count rfl))
  | reserve count => exact reserve_spec h fresh count
  | memset count ch => exact absurd rfl (hset count ch)
  | shrinkToFit => exact terminate_spec h fresh
  | getString =>
      rcases getString_spec h fresh with ⟨t, hrun, ht⟩ | ⟨hrun, hover⟩
      · exact Or.inl ⟨t, run_bind_of_ok hrun, ht⟩
      · exact Or.inr ⟨run_bind_of_error hrun, hover⟩

section

variable {b : ByteBuffer} {r r' : Session} {c : Call × (Nat → UInt8)}

/-- One step: the string is kept where the call is checked, and only there. -/
theorem step_spec (h : Holds offset r.text r.stream) (hpop : Pops r c)
    (hstep : (session offset b).step r c = some r') :
    (Checked r c ∧ Holds offset r'.text r'.stream ∧
        (r'.stopped ≠ none → c.1.Over r.stream.buffer)) ∨
      (¬ Checked r c ∧ r'.stream.inside = false) := by
  obtain ⟨call, fresh⟩ := c
  have hr' := (Option.some.inj hstep).symm
  by_cases hset : ∃ count ch, call = .memset count ch
  · obtain ⟨count, ch, rfl⟩ := hset
    simp only [Call.exec] at hr'
    rcases memset_spec h fresh count ch with ⟨t, hrun, hfits, hzero, hpos⟩ | ⟨hrun, hover⟩
    · rw [hrun] at hr'
      subst hr'
      by_cases h0 : count = 0
      · have ht := hzero h0
        subst h0
        refine Or.inl ⟨Or.inl rfl, ?_, fun hstop => absurd rfl hstop⟩
        show Holds offset (r.text ++ []) t
        rwa [List.append_nil]
      · exact Or.inr ⟨not_or.mpr ⟨h0, hfits⟩, hpos (Nat.pos_of_ne_zero h0)⟩
    · rw [hrun] at hr'
      subst hr'
      exact Or.inl ⟨Or.inr hover, h, fun _ => hover⟩
  · have hchecked : Checked r (call, fresh) := by
      cases call with
      | memset count ch => exact absurd ⟨count, ch, rfl⟩ hset
      | _ => trivial
    have hpop' : ∀ count, call = .pop count → count ≤ r.text.length := by
      rintro count rfl
      exact hpop
    rcases exec_spec h fresh call hpop' (fun count ch heq => hset ⟨count, ch, heq⟩) with
      ⟨t, hrun, ht⟩ | ⟨hrun, hover⟩
    · simp only [hrun] at hr'
      subst hr'
      exact Or.inl ⟨hchecked, ht, fun hstop => absurd rfl hstop⟩
    · simp only [hrun] at hr'
      subst hr'
      exact Or.inl ⟨hchecked, h, fun _ => hover⟩

end

/-- **Where the stream is a string**: the runs in which it always shows what its calls should
have made, a call throws only for want of room, and no byte is written outside what a call was
given, are those in which no `memset` gets room for a byte. -/
theorem stream_is_string_iff {b : ByteBuffer} (hb : b.Wf) (hoffset : offset ≤ b.size)
    (calls : List (Call × (Nat → UInt8)))
    (hpops : (session offset b).AllSteps Pops (session offset b).init calls) :
    (session offset b).AllSteps
        (fun r c => c.1.Addressable ∧ Faithful offset (session offset b) r c)
        (session offset b).init calls ↔
      (session offset b).AllSteps (fun r c => c.1.Addressable ∧ Checked r c)
        (session offset b).init calls := by
  have hinit : Holds offset (session offset b).init.text (session offset b).init.stream :=
    ⟨hb, hoffset, rfl, rfl⟩
  refine (session offset b).allSteps_iff_of_guarded (C := Pops)
    (P := fun r => Holds offset r.text r.stream) ?_ ?_ calls hinit hpops
  · refine fun r c h hpop => and_congr_right fun _ => ?_
    obtain ⟨r', hr'⟩ : ∃ r', (session offset b).step r c = some r' := ⟨_, rfl⟩
    rcases step_spec h hpop hr' with ⟨hchecked, ht, hover⟩ | ⟨hnot, hout⟩
    · refine iff_of_true (fun t htstep => ?_) hchecked
      rw [Option.some.inj (htstep.symm.trans hr')]
      exact ⟨hover, data_of_holds ht, ht.inside⟩
    · refine iff_of_false (fun hfaithful => ?_) hnot
      have hin := (hfaithful r' hr').2.2
      rw [hout] at hin
      cases hin
  · rintro r c r' h hpop ⟨-, hfaithful⟩ hstep
    rcases step_spec h hpop hstep with ⟨-, ht, -⟩ | ⟨-, hout⟩
    · exact ht
    · have hin := (hfaithful r' hstep).2.2
      rw [hout] at hin
      cases hin

/-- Three characters are put and two of them taken back. -/
def putAndPop : List (Call × (Nat → UInt8)) :=
  [(.put 97, fun _ => 0), (.push [98, 99], fun _ => 0), (.pop 2, fun _ => 0),
    (.memset 0 32, fun _ => 0), (.getString, fun _ => 0)]

/-- In a new serializer these calls return, and the string is the first character. -/
theorem stream_is_string_some :
    (session 0 (.new true fun _ => 0)).AllSteps
        (fun r c => c.1.Addressable ∧ Faithful 0 (session 0 (.new true fun _ => 0)) r c)
        (session 0 (.new true fun _ => 0)).init putAndPop ∧
      ∃ r, (session 0 (.new true fun _ => 0)).run (session 0 (.new true fun _ => 0)).init
          putAndPop = some r ∧
        r.stopped = none ∧ r.text = [97] ∧ Serializer.data 0 r.stream.buffer = .ok [97] :=
  ⟨(stream_is_string_iff (ByteBuffer.wf_new true fun _ => 0) (Nat.zero_le _) putAndPop
      (by decide +kernel)).mpr (by simp [Machine.AllSteps, putAndPop, Call.Addressable, Checked]),
    _, rfl, by decide +kernel, by decide +kernel, by decide +kernel⟩

set_option maxRecDepth 8192 in
/-- `memset` of three characters in a new serializer: the serializer gets three bytes of what
was in memory, and the characters are written behind them. -/
theorem memset_writes_behind :
    ∃ r, (session 0 (.new true fun _ => 0)).run (session 0 (.new true fun _ => 0)).init
        [(.memset 3 120, fun _ => 0)] = some r ∧
      r.stopped = none ∧ r.text = [120, 120, 120] ∧
      Serializer.data 0 r.stream.buffer = .ok [0, 0, 0] ∧ r.stream.inside = false :=
  ⟨_, rfl, rfl, rfl, rfl, rfl⟩

end LinSocketIo.Utils.Stream
