/-
LinSocketIo.Core.TornSend — what a failed `TcpConnection::send` leaves behind.

Behind data that waits, `send` stores a payload as a whole or throws and stores
nothing: the buffer reserves before it copies. While nothing waits the kernel is
given the payload first, and only what it leaves is stored. If there is no room
for the rest the exception says that nothing was sent, and the peer has a prefix.

* `send_atomic_iff` — the calls that send nothing where they throw.
-/
import LinSocketIo.Core.TcpConnectionTheorems
import LinSocketIo.Utils.BufferLimit

namespace LinSocketIo.Core.TcpConnection

open LinSocketIo.Base LinSocketIo.Utils Connection

variable {c : TcpConnection}

/-- Nothing more has gone to the kernel and nothing more is stored. -/
def Untouched (c c' : TcpConnection) : Prop :=
  c'.wire.flatten = c.wire.flatten ∧ c'.output.contents = c.output.contents

/-- Where `send` throws, the kernel took no byte of the payload and the buffer stored none. -/
def Atomic (c : TcpConnection) (s : SendCall) : Prop :=
  ∀ e c', (send s).run c = .error e c' → Untouched c c'

/-- The payload goes to the kernel, which answers and takes a part of it only. -/
def Splits (c : TcpConnection) (s : SendCall) : Prop :=
  c.socket.connected = true ∧ c.output.size = 0 ∧ (∀ what, s.answer ≠ .fails what) ∧
    accepted s.dat.length s.answer < toInt s.dat.length

/-- The bytes that the kernel leaves of a payload. -/
def leftOver (s : SendCall) : Nat := s.dat.length - accepted s.dat.length s.answer

/-- If the kernel takes a part only, there is room for the rest and the socket can be asked to
say when it takes more, or the part is empty and there is no room. -/
def Contained (c : TcpConnection) (s : SendCall) : Prop :=
  Splits c s →
    if c.output.Over (leftOver s) then accepted s.dat.length s.answer = 0
    else c.socket.valid = true

/-! ## One call -/

/-- `_output.write`: there is room and the bytes are stored, or there is none and nothing is. -/
theorem write_room (hb : c.output.Wf) (fresh : Nat → UInt8) {dat : List UInt8}
    (hdat : 0 < dat.length) :
    wp (onOutput (ByteBuffer.write fresh dat)) c
      (fun _ c' => c' = { c with output := c'.output } ∧
        c'.output.contents = c.output.contents ++ dat ∧ ¬ c.output.Over dat.length)
      (fun _ c' => c' = c ∧ c.output.Over dat.length) := by
  have hsizes := ByteBuffer.adds_append hb.sound fresh dat
  unfold ByteBuffer.Adds wp at hsizes
  rw [wp_onOutput, wp_write]
  unfold wp
  rcases ByteBuffer.append_spec hb fresh dat with ⟨b, hr, -, hcont, -⟩ | ⟨hr, -⟩
  · rw [hr] at hsizes ⊢
    exact ⟨rfl, hcont, hsizes.room hdat⟩
  · rw [hr] at hsizes ⊢
    rcases hsizes.2 hdat with ⟨-, hover⟩ | ⟨hhangs, -⟩
    · exact ⟨rfl, hover⟩
    · cases hhangs

/-- `Socket::select` throws where the socket has no descriptor. -/
theorem select_valid (c : TcpConnection) (remove add : Mask) :
    wp (socketSelect remove add) c (fun _ _ => c.socket.valid = true)
      (fun _ c' => c' = c ∧ c.socket.valid = false) := by
  cases hvalid : c.socket.valid with
  | false =>
      have hthrows : c.socket.select remove add = .error "select with invalid socket" := by
        unfold Socket.select
        rw [hvalid]
        rfl
      unfold wp EStateM.run socketSelect
      rw [hthrows]
      exact ⟨rfl, rfl⟩
  | true =>
      have hreturns : ∃ s, c.socket.select remove add = .ok s := by
        unfold Socket.select
        rw [hvalid, if_neg (by decide)]
        dsimp only
        -- whatever the masks come to
        split_ifs <;> exact ⟨_, rfl⟩
      obtain ⟨s, hs⟩ := hreturns
      unfold wp EStateM.run socketSelect
      rw [hs]

/-- What the kernel left goes to the buffer: the part `n` is on the wire already. -/
theorem store_rest {c1 : TcpConnection} (hb : c1.output.Wf) {s : SendCall} {n : Nat}
    (hn : n < s.dat.length) :
    wp (do
        let _ ← onOutput (ByteBuffer.write s.fresh (s.dat.drop n))
        socketSelect 0 selWrite : TcpM Unit) c1
      (fun _ _ => ¬ c1.output.Over (s.dat.length - n) ∧ c1.socket.valid = true)
      (fun _ c' => c'.wire = c1.wire ∧
        if c1.output.Over (s.dat.length - n) then c'.output.contents = c1.output.contents
        else c'.output.contents ≠ c1.output.contents ∧ c1.socket.valid = false) := by
  have hlen : (s.dat.drop n).length = s.dat.length - n := List.length_drop
  rw [wp_bind, ← hlen]
  have hrest : 0 < (s.dat.drop n).length := by omega
  refine wp_mono (write_room hb s.fresh hrest)
    (fun _ (c2 : TcpConnection) h2 => ?_) fun _ c' h => ?_
  · obtain ⟨hframe, hcont, hroom⟩ := h2
    have hsocket : c2.socket = c1.socket := by rw [hframe]
    have hwire : c2.wire = c1.wire := by rw [hframe]
    refine wp_mono (select_valid c2 0 selWrite) (fun _ _ h => ⟨hroom, hsocket ▸ h⟩) ?_
    rintro _ _ ⟨rfl, hvalid⟩
    refine ⟨hwire, ?_⟩
    rw [if_neg hroom, hcont]
    refine ⟨fun heq => ?_, hsocket ▸ hvalid⟩
    have hnil := List.append_right_eq_self.mp heq
    rw [hnil] at hlen
    simp only [List.length_nil] at hlen
    omega
  · obtain ⟨rfl, hover⟩ := h
    rw [if_pos hover]
    exact ⟨rfl, rfl⟩

/-- `SocketHelper::send`. -/
theorem socketSend_wire (c : TcpConnection) (dat : List UInt8) (answer : Answer) :
    wp (socketSend dat answer) c
      (fun n (c1 : TcpConnection) => n = accepted dat.length answer ∧
        (∀ what, answer ≠ .fails what) ∧ c1.wire.flatten = c.wire.flatten ++ dat.take n ∧
        c1.output = c.output ∧ c1.socket = c.socket)
      (fun _ c' => c' = c ∧ ∃ what, answer = .fails what) := by
  cases answer with
  | takes n =>
      refine ⟨rfl, fun _ => Answer.noConfusion, ?_, rfl, rfl⟩
      simp only [List.flatten_append, List.flatten_singleton, ← List.take_eq_take_min]
  | again => exact ⟨rfl, fun _ => Answer.noConfusion, by simp, rfl, rfl⟩
  | fails what => exact ⟨rfl, what, rfl⟩

/-- How the first half of `send` ends, and what it leaves where it throws. -/
theorem sendOrWrite_atomic (hb : c.output.Wf) (s : SendCall) :
    wp (sendOrWrite s) c (fun _ _ => Contained c s)
      (fun _ c' => Untouched c c' ↔ Contained c s) := by
  unfold sendOrWrite
  simp only [wp_bind, wp_get, wp_ite, wp_pure, Bool.and_eq_true, beq_iff_eq]
  refine ⟨fun ⟨hconn, hempty⟩ => ?_, fun hwaits => ?_⟩
  · refine wp_mono (socketSend_wire c s.dat s.answer) (fun n (c1 : TcpConnection) h1 => ?_)
      fun _ c' h => ?_
    · obtain ⟨hn, hans, hwire, hout, hsocket⟩ := h1
      have hle : n ≤ s.dat.length := hn ▸ accepted_le _ s.answer
      have hrest : leftOver s = s.dat.length - n := by rw [leftOver, hn]
      refine ⟨fun hpart => ?_, fun hall hsplits => absurd (hn ▸ hsplits.2.2.2) hall⟩
      have hsplits : Splits c s := ⟨hconn, hempty, hans, hn ▸ hpart⟩
      have hlt : n < s.dat.length := by
        have := toInt_le (x := (s.dat.length : Int)) (by omega)
        omega
      have hover : (if c.output.Over (leftOver s) then accepted s.dat.length s.answer = 0
          else c.socket.valid = true) ↔ Contained c s := ⟨fun h _ => h, fun h => h hsplits⟩
      rw [← hover, hrest, ← hn]
      refine (wp_bind _ _ c1).mp (wp_mono (store_rest (hout ▸ hb) hlt) (fun _ _ h => ?_)
        fun _ c' h => ?_)
      · rw [hout, hsocket] at h
        rw [if_neg h.1]
        exact h.2
      · obtain ⟨hsame, hbuf⟩ := h
        rw [hout, hsocket] at hbuf
        rw [Untouched, hsame, hwire]
        by_cases hfull : c.output.Over (s.dat.length - n)
        · rw [if_pos hfull] at hbuf ⊢
          have hdat : s.dat ≠ [] := List.ne_nil_of_length_pos (by omega)
          rw [hbuf, List.append_right_eq_self, List.take_eq_nil_iff]
          simp only [hdat, or_false, and_true]
        · rw [if_neg hfull] at hbuf ⊢
          rw [hbuf.2]
          exact iff_of_false (fun h => hbuf.1 h.2) (by decide)
    · obtain ⟨hsame, what, hfails⟩ := h
      rw [hsame]
      exact iff_of_true ⟨rfl, rfl⟩ fun hsplits => absurd hfails (hsplits.2.2.1 what)
  · have hcontained : Contained c s := fun hsplits => absurd ⟨hsplits.1, hsplits.2.1⟩ hwaits
    refine ⟨fun hdat => ?_, fun _ => hcontained⟩
    refine wp_mono (write_room hb s.fresh hdat) (fun _ _ _ => hcontained) fun _ c' h => ?_
    rw [h.1]
    exact iff_of_true ⟨rfl, rfl⟩ hcontained

theorem send_atomic (hb : c.output.Wf) (s : SendCall) :
    wp (send s) c (fun _ _ => Contained c s) (fun _ c' => Untouched c c' ↔ Contained c s) := by
  unfold send
  simp only [wp_bind, wp_get, wp_pure, wp_modify]
  exact sendOrWrite_atomic hb s

theorem not_atomic (hb : c.output.Wf) {s : SendCall} (hnot : ¬ Contained c s) : ¬ Atomic c s := by
  intro hatomic
  have h := send_atomic hb s
  unfold wp at h
  cases hrun : (send s).run c with
  | ok r c' =>
      rw [hrun] at h
      exact hnot h
  | error e c' =>
      rw [hrun] at h
      exact hnot (h.mp (hatomic e c' hrun))

theorem atomic_of_contained (hb : c.output.Wf) {s : SendCall} (hcontained : Contained c s) :
    Atomic c s := by
  intro e c' hrun
  have h := send_atomic hb s
  unfold wp at h
  rw [hrun] at h
  exact h.mpr hcontained

/-- **Where a failed send is atomic**: whatever the state, the payload and the answer of the
kernel, a call of `send` that throws has put no byte of the payload on the wire and none into
`_output` if and only if, where the kernel takes a part of the payload only, that part is empty
or there is room for the rest. -/
theorem send_atomic_iff (hb : c.output.Wf) (s : SendCall) : Atomic c s ↔ Contained c s :=
  ⟨fun h => by_contra fun hnot => not_atomic hb hnot h, atomic_of_contained hb⟩

/-! ## A torn message -/

/-- An established connection with an empty output buffer. -/
def vacant : TcpConnection :=
  { Connection.new .server 0 .established 0 (fun _ => 0) (ByteBuffer.new true fun _ => 0) with
    socket := Socket.new.attach }

theorem vacant_wf : vacant.output.Wf := ByteBuffer.wf_new true fun _ => 0

/-- The kernel takes one byte, and the others are more than the limit of 64 MB. -/
theorem vacant_not_contained {s : SendCall} (hlen : s.dat.length = 0x4000002)
    (hanswer : s.answer = .takes 1) : ¬ Contained vacant s := by
  have htaken : accepted s.dat.length s.answer = 1 := by
    rw [hlen, hanswer]
    rfl
  have hover : vacant.output.Over (leftOver s) := by
    rw [leftOver, htaken, hlen]
    exact ⟨by decide, by decide⟩
  have hsplits : Splits vacant s := by
    refine ⟨rfl, rfl, fun _ => hanswer ▸ Answer.noConfusion, ?_⟩
    rw [htaken, hlen]
    decide +kernel
  intro h
  have hzero := h hsplits
  rw [if_pos hover, htaken] at hzero
  exact absurd hzero (by decide)

/-- A payload of two bytes more than 64 MB, of which the kernel takes one. -/
def payload : SendCall := ⟨List.replicate 0x4000002 7, .takes 1, fun _ => 0⟩

theorem payload_not_contained : ¬ Contained vacant payload := by
  have hlen : payload.dat.length = 0x4000002 := by rw [payload, List.length_replicate]
  have hanswer : payload.answer = .takes 1 := rfl
  exact vacant_not_contained hlen hanswer

/-- There is no room for the rest, so the send is not atomic. -/
theorem send_atomic_iff_vacant : ¬ Contained vacant payload ∧ ¬ Atomic vacant payload := by
  refine ⟨payload_not_contained, ?_⟩
  rw [send_atomic_iff vacant_wf payload]
  exact payload_not_contained

/-- `send` throws, and the peer gets the byte. -/
theorem send_is_torn : ¬ Atomic vacant payload := not_atomic vacant_wf payload_not_contained

end LinSocketIo.Core.TcpConnection
