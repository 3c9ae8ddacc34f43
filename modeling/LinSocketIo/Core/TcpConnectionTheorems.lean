/-
LinSocketIo.Core.TcpConnectionTheorems — the output of a TCP connection is
a byte stream, and the connection asks for `SEL_WRITE` exactly while output
waits.

The output side of a connection is a `Backlog`: what the kernel took, what
waits in `_output`, and whether `SEL_WRITE` is in the mask. `flush` drains
it, and `send` pushes or offers to it (`flush_spec`, `sendOrWrite_spec`).
Both results are one invariant (`Inv`) over all the calls and events; what
is not about the output keeps it by `ConnectionTheorems`.

* `output_is_stream` — the bytes the kernel took and then those in
  `_output` are the payloads of `send`, and the counters differ by the size
  of `_output`.
* `write_event_iff_output` — an established connection has `SEL_WRITE` in
  its mask exactly when `_output` is not empty.
-/
import LinSocketIo.Base.Backlog
import LinSocketIo.Core.ConnectionTheorems
import LinSocketIo.Core.TcpConnection
import LinSocketIo.Utils.ByteBufferTheorems

namespace LinSocketIo.Core.TcpConnection

open LinSocketIo.Base LinSocketIo.Utils Connection

/-- The output side of a connection. -/
def backlog (c : TcpConnection) : Backlog UInt8 :=
  ⟨c.wire.flatten, c.output.contents, c.socket.selects selWrite⟩

/-- The output buffer is in order and the socket can be selected. -/
structure Ready (c : TcpConnection) : Prop where
  wf : c.output.Wf
  valid : c.socket.valid = true
  shutdownSend : c.socket.shutdownSend = false
  shutdownRecv : c.socket.shutdownRecv = false

/-- A call brought the output side to `b` and the bytes counted as sent to `sent`. -/
structure Moves (c : TcpConnection) (b : Backlog UInt8) (sent : UInt64) (c' : TcpConnection) :
    Prop where
  ready : Ready c'
  backlog : c'.backlog = b
  sentBytes : c'.sentBytes = sent
  sendBytes : c'.sendBytes = c.sendBytes
  connected : c'.socket.connected = c.socket.connected
  status : c'.status = c.status
  sends : c'.sends = c.sends

variable {c c' c'' : TcpConnection} {b b' : Backlog UInt8} {sent sent' : UInt64}

theorem Moves.refl (hc : Ready c) : Moves c c.backlog c.sentBytes c :=
  ⟨hc, rfl, rfl, rfl, rfl, rfl, rfl⟩

theorem Moves.trans (h : Moves c b sent c') (h' : Moves c' b' sent' c'') :
    Moves c b' sent' c'' :=
  ⟨h'.ready, h'.backlog, h'.sentBytes, h'.sendBytes.trans h.sendBytes,
    h'.connected.trans h.connected, h'.status.trans h.status, h'.sends.trans h.sends⟩

/-! ## The parts of `send` and `flush` -/

theorem size_eq (hc : Ready c) : c.output.size = c.backlog.pending.length :=
  (ByteBuffer.length_contents hc.wf).symm

/-- `_output.empty()`. -/
theorem size_beq_zero (hc : Ready c) :
    (c.output.size == 0) = true ↔ c.backlog.pending = [] := by
  rw [size_eq hc, beq_iff_eq, List.length_eq_zero_iff]

/-- The bytes the kernel takes of `len` bytes it is given. -/
def accepted (len : Nat) : Answer → Nat
  | .takes n => min n len
  | .again | .fails _ => 0

theorem accepted_le (len : Nat) : ∀ answer : Answer, accepted len answer ≤ len
  | .takes n => Nat.min_le_right n len
  | .again | .fails _ => Nat.zero_le len

/-- `SocketHelper::send`. -/
theorem socketSend_spec (hc : Ready c) (dat : List UInt8) (answer : Answer) :
    wp (socketSend dat answer) c
      (fun n c' => n = accepted dat.length answer ∧ (∀ what, answer ≠ .fails what) ∧
        Moves c { c.backlog with out := c.backlog.out ++ dat.take n } c.sentBytes c')
      (fun e c' => c' = c ∧ ∃ what, answer = .fails what ∧ e = .socketError what) := by
  cases answer with
  | takes n =>
    refine ⟨rfl, fun _ => Answer.noConfusion, ⟨hc.wf, hc.valid, hc.shutdownSend, hc.shutdownRecv⟩,
      ?_, rfl, rfl, rfl, rfl, rfl⟩
    simp only [backlog, List.flatten_append, List.flatten_singleton, ← List.take_eq_take_min]
  | again =>
    refine ⟨rfl, fun _ => Answer.noConfusion, ?_⟩
    rw [List.take_zero, List.append_nil]
    exact Moves.refl hc
  | fails what => exact ⟨rfl, what, rfl, rfl⟩

theorem wp_onOutput {α : Type} (x : BufferM α) (c : TcpConnection)
    {Q : α → TcpConnection → Prop} {E : Exc → TcpConnection → Prop} :
    wp (onOutput x) c Q E ↔
      wp x c.output (fun a b => Q a { c with output := b })
        (fun e b => E (.buffer e) { c with output := b }) := by
  unfold wp EStateM.run onOutput
  cases hx : x.run c.output with
  | ok a b =>
      rw [show x c.output = .ok a b from hx]
  | error e b =>
      rw [show x c.output = .error e b from hx]

/-- What `write` returns is no part of what `append` does. -/
theorem wp_write (fresh : Nat → UInt8) (dat : List UInt8) (b : ByteBuffer)
    {Q : Nat → ByteBuffer → Prop} {E : Stop → ByteBuffer → Prop} :
    wp (ByteBuffer.write fresh dat) b Q E ↔
      wp (ByteBuffer.append fresh dat) b (fun _ => Q dat.length) E := by
  rw [ByteBuffer.write, wp_bind]
  rfl

/-- `_output.write`. -/
theorem write_spec (hc : Ready c) (fresh : Nat → UInt8) (dat : List UInt8) :
    wp (onOutput (ByteBuffer.write fresh dat)) c
      (fun _ c' => Moves c (c.backlog.push dat) c.sentBytes c') (fun _ c' => c' = c) := by
  rw [wp_onOutput, wp_write]
  unfold wp
  rcases ByteBuffer.append_spec hc.wf fresh dat with ⟨b, hr, hb, hcont, -⟩ | ⟨hr, -⟩
  · rw [hr]
    refine ⟨⟨hb, hc.valid, hc.shutdownSend, hc.shutdownRecv⟩, ?_, rfl, rfl, rfl, rfl, rfl⟩
    simp only [backlog, Backlog.push, hcont]
  · rw [hr]

/-- `_output.erase`, of bytes that are there. -/
theorem erase_spec (hc : Ready c) {n : Nat} (hn : n ≤ c.backlog.pending.length) :
    wp (onOutput (ByteBuffer.erase n)) c
      (fun _ c' => Moves c { c.backlog with pending := c.backlog.pending.drop n } c.sentBytes c')
      (fun _ _ => False) := by
  obtain ⟨r, b, hr, hb, hcont, -⟩ := ByteBuffer.erase_spec hc.wf n
  have hall : n ≠ sizeMax := by
    have hcap := hc.wf.cap
    have htail := hc.wf.tail
    rw [← size_eq hc] at hn
    unfold sizeMax
    unfold ByteBuffer.size at hn
    omega
  rw [wp_onOutput]
  unfold wp
  rw [hr]
  refine ⟨⟨hb, hc.valid, hc.shutdownSend, hc.shutdownRecv⟩, ?_, rfl, rfl, rfl, rfl, rfl⟩
  rw [if_neg hall, show min n c.output.contents.length = n from Nat.min_eq_left hn] at hcont
  simp only [backlog, hcont]

/-- `Socket::select`. -/
theorem select_spec (hc : Ready c) (remove add : Mask) :
    wp (socketSelect remove add) c
      (fun _ c' => Moves c
        { c.backlog with
          armed := (c.backlog.armed && !remove.getLsbD 1) || add.getLsbD 1 } c.sentBytes c')
      (fun _ _ => False) := by
  obtain ⟨s, hs, hsel, hconn, hvalid, hsend, hrecv⟩ :=
    Socket.select_selects hc.valid hc.shutdownSend hc.shutdownRecv remove add
  unfold wp EStateM.run socketSelect
  rw [hs]
  refine ⟨⟨hc.wf, hvalid, hsend, hrecv⟩, ?_, rfl, rfl, hconn, rfl, rfl⟩
  simp only [backlog, hsel]

/-! ## `flush` and `send` -/

/-- Counting `n` of `m` bytes as sent and the others as waiting. -/
theorem count_split (sent : UInt64) {n m : Nat} (hn : n ≤ m) :
    sent + UInt64.ofNat n + UInt64.ofNat (m - n) = sent + UInt64.ofNat m := by
  rw [UInt64.add_assoc, ← UInt64.ofNat_add, Nat.add_sub_cancel' hn]

/-- `_sentBytes += n`. -/
theorem Moves.count (h : Moves c b sent c') (n : Nat) :
    Moves c b (sent + UInt64.ofNat n) { c' with sentBytes := c'.sentBytes + UInt64.ofNat n } where
  ready := ⟨h.ready.wf, h.ready.valid, h.ready.shutdownSend, h.ready.shutdownRecv⟩
  backlog := h.backlog
  sentBytes := congrArg (· + UInt64.ofNat n) h.sentBytes
  sendBytes := h.sendBytes
  connected := h.connected
  status := h.status
  sends := h.sends

/-- How `flush` of `waiting` bytes ends. -/
def flushes (waiting : Nat) (answer : Answer) : Flush :=
  if waiting = 0 then .drained
  else
    match answer with
    | .takes n => if min n waiting = waiting then .drained else .blocked
    | .again => .blocked
    | .fails _ => .failed

/-- A `flush` that the kernel answers drains the output when nothing of it is left. -/
theorem flushes_answered {l : List UInt8} (hl : l ≠ []) {answer : Answer}
    (hans : ∀ what, answer ≠ .fails what) :
    flushes l.length answer =
      if l.drop (accepted l.length answer) = [] then .drained else .blocked := by
  have hpos : l.length ≠ 0 := mt List.length_eq_zero_iff.mp hl
  unfold flushes
  rw [if_neg hpos]
  cases answer with
  | takes n =>
    have hall : l.length ≤ min n l.length ↔ min n l.length = l.length := by omega
    simp only [accepted, List.drop_eq_nil_iff, hall]
  | again => exact (if_neg hl).symm
  | fails what => exact absurd rfl (hans what)

/-- `flush` drains the output: the kernel took `n` of the bytes that waited. -/
theorem flush_spec (hc : Ready c) (answer : Answer) :
    wp (flush answer) c
      (fun r (c' : TcpConnection) => (r = true ↔ c'.backlog.pending = []) ∧
        flushes c.backlog.pending.length answer = (if r then .drained else .blocked) ∧
        ∃ n, n ≤ c.backlog.pending.length ∧
          Moves c (c.backlog.drain n) (c.sentBytes + UInt64.ofNat n) c')
      (fun e c' => c' = c ∧ flushes c.backlog.pending.length answer = .failed ∧
        ∃ what, e = .socketError what) := by
  unfold flush
  simp only [wp_bind, wp_get, wp_ite, wp_pure, wp_modify, size_beq_zero hc]
  refine ⟨fun hempty => ?_, fun hwaits => ?_⟩
  · refine ⟨⟨fun _ => hempty, fun _ => trivial⟩, ?_, 0, Nat.zero_le _, ?_⟩
    · rw [hempty]
      rfl
    have hdrain : c.backlog.drain 0 = c.backlog := by simp [Backlog.drain, hempty]
    rw [hdrain, show c.sentBytes + UInt64.ofNat 0 = c.sentBytes from UInt64.add_zero _]
    exact Moves.refl hc
  refine wp_mono (socketSend_spec hc c.backlog.pending answer)
    (fun n (c1 : TcpConnection) h1 => ?_) fun e c' h => ?_
  swap
  · obtain ⟨hsame, what, hfails, he⟩ := h
    refine ⟨hsame, ?_, what, he⟩
    rw [hfails]
    exact if_neg (mt List.length_eq_zero_iff.mp hwaits)
  obtain ⟨htaken, hans, h1⟩ := h1
  have hn : n ≤ c.backlog.pending.length := htaken ▸ accepted_le _ answer
  have hdrain : c.backlog.drain n =
      ⟨c.backlog.out ++ c.backlog.pending.take n, c.backlog.pending.drop n,
        if (c.backlog.pending.drop n).isEmpty then false else c.backlog.armed⟩ := by
    rw [Backlog.drain, if_neg (mt List.isEmpty_iff.mp hwaits)]
  -- what is left to do is to count
  have hcount {c3 : TcpConnection} (h3 : Moves c (c.backlog.drain n) c.sentBytes c3) :
      ((c3.output.size == 0) = true ↔ c3.backlog.pending = []) ∧
        flushes c.backlog.pending.length answer =
          (if (c3.output.size == 0) = true then .drained else .blocked) ∧
        ∃ m, m ≤ c.backlog.pending.length ∧ Moves c (c.backlog.drain m)
          (c.sentBytes + UInt64.ofNat m)
          { c3 with sentBytes := c3.sentBytes + UInt64.ofNat n } := by
    refine ⟨size_beq_zero h3.ready, ?_, n, hn, h3.count n⟩
    rw [flushes_answered hwaits hans, ← htaken]
    simp only [size_beq_zero h3.ready, h3.backlog, hdrain]
  refine ⟨fun hpos => ?_, fun hzero => ?_⟩
  · -- the kernel took `n` bytes, which leave the buffer
    have hn1 : n ≤ c1.backlog.pending.length := by rw [h1.backlog]; exact hn
    refine wp_mono (erase_spec h1.ready hn1) (fun _ (c2 : TcpConnection) h2 => ?_)
      fun _ _ h => h.elim
    have h2 := h1.trans h2
    rw [h1.backlog, h1.sentBytes] at h2
    have hempty : (c2.output.size == 0) = true ↔ c.backlog.pending.drop n = [] := by
      rw [size_beq_zero h2.ready, h2.backlog]
    refine ⟨fun hdone => ?_, fun hmore => hcount ?_⟩
    · refine wp_mono (select_spec h2.ready selWrite 0) (fun _ (c3 : TcpConnection) h3 => ?_)
        fun _ _ h => h.elim
      have h3 := h2.trans h3
      rw [h2.backlog, h2.sentBytes] at h3
      have hoff (a : Bool) : (a && !selWrite.getLsbD 1 || (0 : Mask).getLsbD 1) = false := by
        cases a <;> decide
      refine hcount ?_
      rw [hdrain, if_pos (List.isEmpty_iff.mpr (hempty.mp hdone))]
      simpa only [hoff] using h3
    · rw [hdrain, if_neg (mt List.isEmpty_iff.mp (mt hempty.mpr hmore))]
      exact h2
  · -- the kernel took nothing
    obtain rfl : n = 0 := by omega
    have hsame : c.backlog.drain 0 = c.backlog := by
      rw [hdrain, List.take_zero, List.append_nil, List.drop_zero,
        if_neg (mt List.isEmpty_iff.mp hwaits)]
    rw [List.take_zero, List.append_nil] at h1
    have hempty : (c1.output.size == 0) = true ↔ c.backlog.pending = [] := by
      rw [size_beq_zero h1.ready, h1.backlog]
    refine ⟨fun hdone => absurd (hempty.mp hdone) hwaits, fun _ => hcount ?_⟩
    rw [hsame]
    exact h1

/-- How the first half of `send` brings the output side from `b` to `b'`, the kernel
having taken `n` bytes. The last case is a size that an `int` does not hold. -/
inductive Sent (b : Backlog UInt8) (connected : Bool) (dat : List UInt8) :
    Nat → Backlog UInt8 → Prop where
  | offer {n : Nat} (hconn : connected = true) (hnil : b.pending = []) (hn : n ≤ dat.length) :
      Sent b connected dat n (b.offer dat n)
  | push (hwaits : connected = true → b.pending ≠ []) : Sent b connected dat 0 (b.push dat)
  | large {n : Nat} {b' : Backlog UInt8} (h : 2147483648 ≤ dat.length) : Sent b connected dat n b'

/-- The first half of `send`. What throws leaves what waits as it was. -/
theorem sendOrWrite_spec (hc : Ready c) (s : SendCall) :
    wp (sendOrWrite s) c
      (fun n c' => ∃ b', Sent c.backlog c.socket.connected s.dat n b' ∧ Moves c b' c.sentBytes c')
      (fun _ c' => ∃ out, Moves c { c.backlog with out := out } c.sentBytes c') := by
  have hsame : ∃ out, Moves c { c.backlog with out := out } c.sentBytes c :=
    ⟨c.backlog.out, Moves.refl hc⟩
  unfold sendOrWrite
  simp only [wp_bind, wp_get, wp_ite, wp_pure, Bool.and_eq_true, size_beq_zero hc]
  refine ⟨fun ⟨hconn, hnil⟩ => ?_, fun hnot => ?_⟩
  · refine wp_mono (socketSend_spec hc s.dat s.answer) (fun n (c1 : TcpConnection) h1 => ?_)
      fun _ c' h => h.1 ▸ hsame
    obtain ⟨htaken, -, h1⟩ := h1
    have hn : n ≤ s.dat.length := htaken ▸ accepted_le _ s.answer
    have hoffer := Sent.offer (b := c.backlog) (n := n) hconn hnil hn
    have hint : s.dat.length < 2147483648 → toInt s.dat.length = s.dat.length := fun hlen =>
      toInt_of_range (by omega) (by unfold intMax; omega)
    refine ⟨fun hpart => ?_, fun hall => ?_⟩
    · -- what the kernel left goes to the buffer
      refine wp_mono (write_spec h1.ready s.fresh (s.dat.drop n))
        (fun _ (c2 : TcpConnection) h2 => ?_) fun _ c' h => ⟨_, h ▸ h1⟩
      refine wp_mono (select_spec h2.ready 0 selWrite) (fun _ (c3 : TcpConnection) h3 => ?_)
        fun _ _ h => h.elim
      have h3 := (h1.trans h2).trans h3
      rw [h2.backlog, h2.sentBytes, h1.backlog, h1.sentBytes] at h3
      by_cases hlen : s.dat.length < 2147483648
      · have hlt : n < s.dat.length := by rw [hint hlen] at hpart; omega
        have hon (a : Bool) : (a && !(0 : Mask).getLsbD 1 || selWrite.getLsbD 1) = true := by
          cases a <;> decide
        refine ⟨_, hoffer, ?_⟩
        simpa only [Backlog.offer, Backlog.push, hnil, List.nil_append, hon, decide_eq_true hlt,
          Bool.or_true] using h3
      · exact ⟨_, .large (Nat.le_of_not_lt hlen), h3⟩
    · by_cases hlen : s.dat.length < 2147483648
      · obtain rfl : n = s.dat.length := by rw [hint hlen] at hall; omega
        refine ⟨_, hoffer, ?_⟩
        simpa [Backlog.offer, hnil] using h1
      · exact ⟨_, .large (Nat.le_of_not_lt hlen), h1⟩
  · have hpush : Sent c.backlog c.socket.connected s.dat 0 (c.backlog.push s.dat) :=
      .push fun hconn hnil => hnot ⟨hconn, hnil⟩
    refine ⟨fun _ => ?_, fun hempty => ⟨_, hpush, ?_⟩⟩
    · exact wp_mono (write_spec hc s.fresh s.dat) (fun _ (c1 : TcpConnection) h1 => ⟨_, hpush, h1⟩)
        fun _ c' h => h ▸ hsame
    · have hnil : s.dat = [] := List.length_eq_zero_iff.mp (by omega)
      simpa [Backlog.push, hnil] using Moves.refl hc

/-! ## The invariant -/

/-- Every payload has a size that an `int` holds. -/
def Small (c : TcpConnection) : Prop := ∀ s ∈ c.sends, s.1.length < 2147483648

/-- No call of `send` threw. -/
def Returned (c : TcpConnection) : Prop := ∀ s ∈ c.sends, s.2.isSome = true

/-- The payloads of `send`, in the order of the calls. -/
def payloads (c : TcpConnection) : List UInt8 := (c.sends.map Prod.fst).flatten

/-- The output is the stream of the payloads, and the counters say what waits. -/
structure Streams (c : TcpConnection) : Prop where
  stream : c.backlog.stream = c.payloads
  counters : c.sendBytes = c.sentBytes + UInt64.ofNat c.backlog.pending.length

/-- What holds in the middle of `onConnected` too. -/
structure Sound (c : TcpConnection) : Prop where
  ready : Ready c
  streams : Small c → Returned c → Streams c

/-- What holds between the calls: in an established connection the write event is in step. -/
structure Inv (c : TcpConnection) : Prop extends Sound c where
  steady : Small c → c.status = .established → c.socket.connected = true ∧ c.backlog.Steady

/-- The status and the times are not about the output. -/
theorem Sound.set (hc : Sound c) (status : Status) (lastRecvTs : Int) (timer : Option Int) :
    Sound { c with status := status, lastRecvTs := lastRecvTs, timer := timer } where
  ready := ⟨hc.ready.wf, hc.ready.valid, hc.ready.shutdownSend, hc.ready.shutdownRecv⟩
  streams hsmall hret := ⟨(hc.streams hsmall hret).stream, (hc.streams hsmall hret).counters⟩

/-- A connection that ends gives up the write event. -/
theorem Sound.ended (hc : Sound c) {status : Status} (hst : status ≠ .established) :
    Inv { c with status := status } where
  toSound := hc.set status c.lastRecvTs c.timer
  steady _ h := absurd h hst

theorem Sound.disconnected (hc : Sound c) : Inv { c with status := .disconnected } :=
  hc.ended (by decide)

theorem outputInv : OutputInv Inv where
  disconnected _ hc := hc.toSound.disconnected
  removed c hc := by
    have hsame : backlog { c with socket := c.socket.remove } = backlog c := by
      simp only [backlog, Socket.remove_selects]
    refine ⟨⟨⟨hc.ready.wf, ?_, ?_, ?_⟩, fun hsmall hret => ⟨?_, ?_⟩⟩, fun hsmall hst => ?_⟩
    · rw [Socket.remove_valid, hc.ready.valid]
    · rw [Socket.remove_shutdownSend, hc.ready.shutdownSend]
    · rw [Socket.remove_shutdownRecv, hc.ready.shutdownRecv]
    · rw [hsame]
      exact (hc.streams hsmall hret).stream
    · rw [hsame]
      exact (hc.streams hsmall hret).counters
    · rw [hsame, Socket.remove_connected]
      exact hc.steady hsmall hst
  rest _ _ _ _ _ _ _ _ _ hc :=
    ⟨⟨⟨hc.ready.wf, hc.ready.valid, hc.ready.shutdownSend, hc.ready.shutdownRecv⟩,
      fun hsmall hret => ⟨(hc.streams hsmall hret).stream, (hc.streams hsmall hret).counters⟩⟩,
      hc.steady⟩

/-- What a call of `send` that returns does to stream and counters. -/
theorem Sent.streams {dat : List UInt8} {n : Nat} (h : Sent c.backlog c.socket.connected dat n b')
    (hlen : dat.length < 2147483648) (hc : Streams c) :
    b'.stream = c.backlog.stream ++ dat ∧
      c.sendBytes + UInt64.ofNat dat.length =
        c.sentBytes + UInt64.ofNat n + UInt64.ofNat b'.pending.length := by
  cases h with
  | offer hconn hnil hn =>
    refine ⟨Backlog.stream_offer _ hnil dat n, ?_⟩
    have hcount : c.sendBytes = c.sentBytes := by
      rw [hc.counters, hnil]
      exact UInt64.add_zero _
    simp only [Backlog.offer, List.length_drop]
    rw [count_split _ hn, hcount]
  | push hwaits =>
    refine ⟨Backlog.stream_push _ dat, ?_⟩
    simp only [Backlog.push, List.length_append]
    rw [hc.counters, UInt64.add_assoc, ← UInt64.ofNat_add]
    exact congrArg (· + _) (UInt64.add_zero c.sentBytes).symm
  | large h => omega

/-- The write event stays in step in a call of `send` that returns. -/
theorem Sent.steady {connected : Bool} {dat : List UInt8} {n : Nat} (h : Sent b connected dat n b')
    (hlen : dat.length < 2147483648) (hconn : connected = true) (hb : b.Steady) : b'.Steady := by
  cases h with
  | offer _ hnil _ => exact Backlog.steady_offer hb hnil dat n
  | push hwaits => exact Backlog.steady_push hb (hwaits hconn) dat
  | large h => omega

theorem keeps_callSend (s : SendCall) : Keeps Inv (callSend send s) := by
  intro c hc
  -- the calls of `send` before this one
  have hsmaller {r : Option Nat} (h : ∀ t ∈ c.sends ++ [(s.dat, r)], t.1.length < 2147483648) :
      Small c ∧ s.dat.length < 2147483648 :=
    ⟨fun t ht => h t (List.mem_append_left _ ht), h (s.dat, r) (by simp)⟩
  unfold callSend send
  simp only [wp_bind, wp_tryCatch, wp_pure, wp_modify, wp_get]
  refine wp_mono (sendOrWrite_spec hc.ready s) (fun n (c1 : TcpConnection) h1 => ?_)
    fun _ (c1 : TcpConnection) h1 => ?_
  · obtain ⟨b', hsent, h1⟩ := h1
    refine ⟨⟨⟨h1.ready.wf, h1.ready.valid, h1.ready.shutdownSend, h1.ready.shutdownRecv⟩,
      fun hsmall hret => ?_⟩, fun hsmall hst => ?_⟩
    · simp only [Small, Returned, h1.sends] at hsmall hret
      obtain ⟨hsmall, hlen⟩ := hsmaller hsmall
      have hc' := hc.streams hsmall fun t ht => hret t (List.mem_append_left _ ht)
      obtain ⟨hstream, hcount⟩ := hsent.streams hlen hc'
      constructor
      · change c1.backlog.stream = ((c1.sends ++ [_]).map Prod.fst).flatten
        rw [h1.backlog, hstream, hc'.stream, h1.sends]
        simp [payloads]
      · change c1.sendBytes + _ = c1.sentBytes + _ + UInt64.ofNat c1.backlog.pending.length
        rw [h1.sendBytes, h1.sentBytes, h1.backlog]
        exact hcount
    · simp only [Small, h1.sends] at hsmall
      obtain ⟨hsmall, hlen⟩ := hsmaller hsmall
      obtain ⟨hconn, hsteady⟩ := hc.steady hsmall (h1.status.symm.trans hst)
      refine ⟨h1.connected.trans hconn, ?_⟩
      change c1.backlog.Steady
      rw [h1.backlog]
      exact hsent.steady hlen hconn hsteady
  · -- a call that throws leaves what waits as it was
    obtain ⟨out, h1⟩ := h1
    refine ⟨⟨⟨h1.ready.wf, h1.ready.valid, h1.ready.shutdownSend, h1.ready.shutdownRecv⟩,
      fun _ hret => ?_⟩, fun hsmall hst => ?_⟩
    · have hthrew := hret (s.dat, none) (by simp)
      cases hthrew
    · simp only [Small, h1.sends] at hsmall
      obtain ⟨hconn, hsteady⟩ := hc.steady (hsmaller hsmall).1 (h1.status.symm.trans hst)
      refine ⟨h1.connected.trans hconn, ?_⟩
      change c1.backlog.Steady
      rw [h1.backlog]
      exact hsteady

/-! ## Events -/

theorem Streams.drain (hc : Streams c) {n : Nat} (hn : n ≤ c.backlog.pending.length)
    (h : Moves c (c.backlog.drain n) (c.sentBytes + UInt64.ofNat n) c') : Streams c' where
  stream := by
    rw [h.backlog, Backlog.stream_drain, hc.stream, payloads, payloads, h.sends]
  counters := by
    rw [h.backlog, Backlog.pending_drain, List.length_drop, h.sentBytes, count_split _ hn,
      h.sendBytes, hc.counters]

theorem Moves.small (h : Moves c b sent c') : Small c' ↔ Small c := by
  simp only [Small, h.sends]

theorem Moves.returned (h : Moves c b sent c') : Returned c' ↔ Returned c := by
  simp only [Returned, h.sends]

theorem Sound.drain (hc : Sound c) {n : Nat} (hn : n ≤ c.backlog.pending.length)
    (h : Moves c (c.backlog.drain n) (c.sentBytes + UInt64.ofNat n) c') : Sound c' :=
  ⟨h.ready, fun hsmall hret => (hc.streams (h.small.mp hsmall) (h.returned.mp hret)).drain hn h⟩

theorem Sound.select (hc : Sound c) {armed : Bool}
    (h : Moves c { c.backlog with armed := armed } c.sentBytes c') : Sound c' := by
  refine ⟨h.ready, fun hsmall hret => ?_⟩
  have hstr := hc.streams (h.small.mp hsmall) (h.returned.mp hret)
  refine ⟨?_, ?_⟩
  · rw [h.backlog, payloads, h.sends]
    exact hstr.stream
  · rw [h.backlog, h.sendBytes, h.sentBytes]
    exact hstr.counters

theorem keeps_flush (answer : Answer) : Keeps Inv (flush answer) := by
  intro c hc
  refine wp_mono (flush_spec hc.ready answer) (fun r (c1 : TcpConnection) h1 => ?_)
    fun _ c1 h1 => h1.1 ▸ hc
  obtain ⟨-, -, n, hn, h1⟩ := h1
  refine ⟨hc.toSound.drain hn h1, fun hsmall hst => ?_⟩
  obtain ⟨hconn, hsteady⟩ := hc.steady (h1.small.mp hsmall) (h1.status.symm.trans hst)
  refine ⟨h1.connected.trans hconn, ?_⟩
  rw [h1.backlog]
  exact Backlog.steady_drain hsteady n

/-- The `try` block of `onConnected` sets the write event, whatever it was, unless it
throws a `socket_error`. -/
theorem establish_spec (hc : Sound c) (hconn : c.socket.connected = true) (io : Io) :
    wp (establish io) c (fun _ => Inv)
      (fun e c' => Inv c' ∨ Sound c' ∧ ∃ what, e = .socketError what) := by
  unfold establish
  simp only [wp_bind, wp_pure]
  refine wp_mono (flush_spec hc.ready _) (fun r (c1 : TcpConnection) h1 => ?_)
    fun e c1 h1 => Or.inr ⟨h1.1 ▸ hc, h1.2.2⟩
  obtain ⟨hdrained, -, n, hn, h1⟩ := h1
  have hc1 := hc.drain hn h1
  refine wp_mono (select_spec hc1.ready selAll _) (fun _ (c2 : TcpConnection) h2 => ?_)
    fun _ _ h => h.elim
  have harmed (a : Bool) : ((a && !selAll.getLsbD 1) ||
      (if r = true then selRead else selRead ||| selWrite).getLsbD 1) = !r := by
    cases a <;> cases r <;> decide
  have hb2 : c2.backlog = { c1.backlog with armed := !r } := by rw [h2.backlog, harmed]
  have hc2 : Inv c2 := by
    refine ⟨hc1.select h2, fun _ _ => ⟨?_, ?_⟩⟩
    · rw [h2.connected, h1.connected, hconn]
    · rw [hb2]
      change (!r) = true ↔ c1.backlog.pending ≠ []
      rw [Bool.not_eq_true', ← Bool.not_eq_true, not_iff_not]
      exact hdrained
  exact wp_mono (keeps_handleOnConnected outputInv.control keeps_callSend _ _ c2 hc2) (fun _ _ h => h)
    fun _ _ h => Or.inl h

/-- `onConnected` needs nothing from the write event. -/
theorem onConnected_spec (hc : Sound c) (desc : String) (io : Io) :
    wp (onConnected desc io) c (fun _ => Inv) (fun _ => Inv) := by
  unfold onConnected selectTimeout
  simp only [wp_bind, wp_get, wp_ite, wp_modify, wp_pure, wp_tryCatch]
  refine ⟨fun hconn => ?_,
    fun _ => wp_handleClose outputInv.control (hc.set _ c.lastRecvTs _).disconnected rfl _⟩
  refine wp_mono (establish_spec (hc.set .established c.now _) hconn io) (fun _ _ h => h)
    fun e c1 h1 => ?_
  have hclose (reason : String) (hc1 : Sound c1) :
      wp (do let _ ← handleOnClose reason io.onCloseThrows : TcpM Unit) c1 (fun _ => Inv)
        (fun _ => Inv) := by
    rw [wp_bind]
    exact wp_handleClose outputInv.control hc1.disconnected rfl _
  rcases h1 with h1 | ⟨h1, what, rfl⟩
  · cases e with
    | socketError what => exact hclose what h1.toSound
    | buffer stop => exact h1
    | other what => exact h1
  · exact hclose what h1

theorem keeps_onRead (io : Io) : Keeps Inv (onRead io) := by
  refine keeps_bind (keeps_modify fun c hc => ?_) fun _ => ?_
  · exact outputInv.rest c c.timeout c.now c.now c.timer c.recvBytes c.input c.managed c.notices hc
  refine keeps_bind (keeps_tryCatch ?_ fun e => ?_) fun goOn => keeps_ite ?_ (keeps_pure ())
  · exact keeps_bind (keeps_receive outputInv io) fun _ => keeps_pure true
  · match e with
    | .buffer (.resourceLimit _) =>
      exact keeps_bind (keeps_handleClose outputInv.control rfl _) fun _ => keeps_pure true
    | .socketError what =>
      exact keeps_bind (keeps_handleClose outputInv.control rfl _) fun _ => keeps_pure false
    | .buffer .hangs => exact keeps_throw _
    | .other what => exact keeps_throw _
  · exact keeps_deliver outputInv outputInv.control keeps_callSend io

theorem keeps_onTimeout (io : Io) : Keeps Inv (onTimeout io) := by
  refine keeps_bind keeps_get fun c => ?_
  cases c.side with
  | server => exact Connection.keeps_onTimeout outputInv.control io
  | client => exact keeps_clientOnTimeout outputInv.control keeps_callSend io

/-- The end of a connect in progress, whatever came of it. -/
theorem connected_spec (hc : Sound c) (io : Io) :
    wp (do onConnected (← completeNonblockingConnect io.connectError) io : TcpM Unit) c
      (fun _ => Inv) (fun _ => Inv) := by
  rw [wp_bind]
  cases io.connectError with
  | some what => exact onConnected_spec hc what io
  | none =>
    have hc' : Sound { c with socket := { c.socket with connected := true } } :=
      ⟨⟨hc.ready.wf, hc.ready.valid, hc.ready.shutdownSend, hc.ready.shutdownRecv⟩,
        fun hsmall hret => ⟨(hc.streams hsmall hret).stream, (hc.streams hsmall hret).counters⟩⟩
    unfold completeNonblockingConnect
    rw [wp_bind, wp_modify]
    exact onConnected_spec hc' "connect ok" io

/-- Every event keeps the invariant. -/
theorem keeps_exec (e : Event) : Keeps Inv e.exec := by
  cases e with
  | pass sec =>
    exact keeps_modify fun c hc => outputInv.rest c c.timeout c.lastRecvTs (c.now + sec) c.timer
      c.recvBytes c.input c.managed c.notices hc
  | readable io =>
    intro c hc
    unfold Event.exec handleRead
    simp only [wp_bind, wp_get, wp_ite]
    exact ⟨fun _ => keeps_onRead io c hc, fun _ => (wp_bind _ _ _).mp (connected_spec hc.toSound io)⟩
  | writable io =>
    intro c hc
    unfold Event.exec handleWrite
    simp only [wp_bind, wp_get, wp_ite]
    refine ⟨fun _ => ?_, fun _ => (wp_bind _ _ _).mp (connected_spec hc.toSound io)⟩
    exact keeps_onWrite outputInv.control keeps_callSend (keeps_flush _) io c hc
  | timeout io =>
    intro c hc
    unfold Event.exec handleTimeout
    simp only [wp_bind, wp_get, wp_ite]
    exact ⟨fun _ => keeps_onTimeout io c hc, fun _ => onConnected_spec hc.toSound _ io⟩
  | close throws => exact keeps_close outputInv.control throws
  | send s => exact keeps_callSend s
  | setKeepaliveTimeout msec => exact keeps_setKeepaliveTimeout outputInv.control msec
  | inputLimit n =>
    exact keeps_modify fun c hc => outputInv.rest c c.timeout c.lastRecvTs c.now c.timer
      c.recvBytes (c.input.setLimit n) c.managed c.notices hc

/-! ## Creation -/

/-- A connection before its constructor has run, once it has a socket. -/
theorem new_sound (side : Side) (timeout : Int) (status : Status) (now : Int)
    (stackIn stackOut : Nat → UInt8) (lastRecvTs : Int) (socket : Socket)
    (hvalid : socket.valid = true) (hsend : socket.shutdownSend = false)
    (hrecv : socket.shutdownRecv = false) :
    Sound { Connection.new side timeout status now stackIn (ByteBuffer.new true stackOut) with
      lastRecvTs := lastRecvTs, socket := socket } where
  ready := ⟨ByteBuffer.wf_new true stackOut, hvalid, hsend, hrecv⟩
  streams _ _ := ⟨rfl, rfl⟩

/-- A request of a constructor. -/
theorem wp_select_inv (hc : Sound c) (add : Mask)
    (hsteady : c.status = .established → c.socket.connected = true ∧
      Backlog.Steady { c.backlog with
        armed := (c.backlog.armed && !(0 : Mask).getLsbD 1) || add.getLsbD 1 }) :
    wp (socketSelect 0 add) c (fun _ => Inv) (fun _ => Inv) := by
  refine wp_mono (select_spec hc.ready 0 add) (fun _ (c1 : TcpConnection) h1 => ?_)
    fun _ _ h => h.elim
  refine ⟨hc.select h1, fun _ hst => ?_⟩
  rw [h1.connected, h1.backlog]
  exact hsteady (h1.status.symm.trans hst)

/-- The constructor for an accepted socket. -/
theorem accept_inv (msec now : Int) (stackIn stackOut : Nat → UInt8) :
    wp (accept msec)
      { Connection.new .server msec .established now stackIn (ByteBuffer.new true stackOut) with
        lastRecvTs := now } (fun _ => Inv) (fun _ => Inv) := by
  have hc := new_sound .server msec .established now stackIn stackOut now Socket.new.attach rfl rfl
    rfl
  unfold accept
  rw [wp_bind, wp_modify, wp_bind]
  refine wp_mono (wp_select_inv hc selRead fun _ => ⟨rfl, ?_⟩) (fun _ c1 h1 => ?_) fun _ _ h => h
  · -- nothing waits, and nothing is asked for but reading
    simp [Backlog.Steady, backlog, Connection.new, Socket.selects_selWrite, Socket.attach, Socket.new,
      selRead]
  · exact keeps_ite (keeps_selectTimeout outputInv.control msec) (keeps_pure ()) c1 h1

/-- The constructors that connect. -/
theorem connect_inv (msec : Int) (answer : ConnectAnswer) (io : Io) (now : Int)
    (stackIn stackOut : Nat → UInt8) :
    wp (connect msec answer io)
      (Connection.new .client 0 .connectting now stackIn (ByteBuffer.new true stackOut))
      (fun _ => Inv) (fun _ => Inv) := by
  have hc (connected : Bool) := new_sound .client 0 .connectting now stackIn stackOut 0
    { Socket.new with valid := true, connected := connected } rfl rfl rfl
  have hselect : selConnecting &&& selConnecting ≠ selNone := by decide
  have hcatch {c1 : TcpConnection} (h1 : Sound c1) :
      wp (do
        modify fun c => { c with status := .socketError }
        selectTimeout (-1)
        socketRemove : TcpM Unit) c1 (fun _ => Inv) (fun _ => Inv) :=
    keeps_bind (keeps_selectTimeout outputInv.control _) (fun _ => keeps_socketRemove outputInv.control) _
      (h1.ended (by decide))
  unfold connect select
  rw [wp_tryCatch]
  simp only [if_pos hselect]
  cases answer with
  | done =>
    unfold doConnect
    simp only [wp_bind, wp_modify, wp_get, wp_ite]
    refine ⟨fun _ => ?_, fun h => absurd trivial h⟩
    exact wp_mono (onConnected_spec (hc true) _ io) (fun _ _ h => h)
      fun _ _ h => hcatch h.toSound
  | pending =>
    unfold doConnect selectTimeout
    simp only [wp_bind, wp_modify, wp_get, wp_ite]
    refine ⟨fun h => (Bool.false_ne_true h).elim, fun _ => ?_⟩
    refine wp_mono (wp_select_inv ((hc false).set _ 0 _) selRw fun h => ?_)
      (fun _ _ h => h) fun _ _ h => hcatch h.toSound
    cases h
  | fails what =>
    unfold doConnect
    simp only [wp_bind, wp_modify, wp_throw]
    exact hcatch (hc false)

/-- A connection that has just been created keeps the invariant. -/
theorem start_inv (now : Int) (stackIn stackOut : Nat → UInt8) (start : Start) :
    Inv (start.connection now stackIn stackOut) := by
  have hmanaged : Keeps Inv (modify fun c => { c with managed := true } : TcpM Unit) :=
    keeps_modify fun c hc => outputInv.rest c c.timeout c.lastRecvTs c.now c.timer c.recvBytes
      c.input true c.notices hc
  cases start with
  | accepted msec handler =>
    have hhandler : Keeps Inv (do
        modify fun c => { c with managed := true }
        notify .onConnected
        let _ ← callback send handler : TcpM Unit) :=
      keeps_bind hmanaged fun _ => keeps_bind (keeps_notify outputInv _) fun _ =>
        keeps_bind (keeps_callback outputInv.control keeps_callSend handler) fun _ => keeps_pure ()
    refine after_of_wp ?_
    unfold createTcpConnection
    rw [wp_bind]
    exact wp_mono (accept_inv msec now stackIn stackOut) (fun _ c1 h1 => hhandler c1 h1)
      fun _ _ h => h
  | client msec answer io =>
    have hadd : Keeps Inv (do
        if (← get).status = .socketError then notify (.onClose "socket error")
        else modify fun c => { c with managed := true } : TcpM Unit) :=
      keeps_bind keeps_get fun c => keeps_ite (keeps_notify outputInv _) hmanaged
    refine after_of_wp ?_
    unfold createTcpClient
    rw [wp_bind]
    exact wp_mono (connect_inv msec answer io now stackIn stackOut) (fun _ c1 h1 => hadd c1 h1)
      fun _ _ h => h

/-! ## Results -/

/-- The invariant holds of every connection that a run reaches. -/
theorem run_inv {now : Int} {stackIn stackOut : Nat → UInt8} {start : Start} {events : List Event}
    {c : TcpConnection} (hrun : (machine now stackIn stackOut start).run
      (machine now stackIn stackOut start).init events = some c) : Inv c := by
  refine Machine.run_invariant _ (C := fun _ _ => True) (fun s e s' hs _ hstep => ?_) events
    (start_inv now stackIn stackOut start)
    (Machine.allSteps_of_forall _ (P := fun _ => True) (fun _ _ => trivial) _) hrun
  obtain rfl := Option.some.inj hstep
  exact after_of_wp (keeps_exec e s hs)

/-- **The output is a byte stream**: in every run in which `send` never throws, the bytes
the kernel took and then those in `_output` are the payloads in the order of the calls,
and `getSendBytes() - getSentBytes()` is the size of `_output`. -/
theorem output_is_stream (now : Int) (stackIn stackOut : Nat → UInt8) (start : Start)
    (events : List Event) {c : TcpConnection}
    (hrun : (machine now stackIn stackOut start).run
      (machine now stackIn stackOut start).init events = some c)
    (hsmall : Small c) (hret : Returned c) :
    c.wire.flatten ++ c.output.contents = (c.sends.map Prod.fst).flatten ∧
      (c.sendBytes - c.sentBytes).toNat = c.output.size := by
  have hinv := run_inv hrun
  obtain ⟨hstream, hcount⟩ := hinv.streams hsmall hret
  refine ⟨hstream, ?_⟩
  have hsize : c.output.size < 2 ^ 64 := by
    have htail := hinv.ready.wf.tail
    have hcap := hinv.ready.wf.cap
    unfold ByteBuffer.size
    omega
  rw [hcount, UInt64.add_comm, UInt64.add_sub_cancel, ← size_eq hinv.ready]
  exact UInt64.toNat_ofNat_of_lt' hsize

/-- A handler that does nothing, and a kernel that would block. -/
def idle : Io :=
  ⟨[], .again, fun _ => 0, none, ⟨[], .returns 0⟩, none, none⟩

/-- Two payloads under backpressure: the kernel takes one byte, then two. -/
theorem output_is_stream_backpressure :
    ∃ c ∈ (machine 0 (fun _ => 0) (fun _ => 0) (.accepted 0 ⟨[], .returns 0⟩)).run
      (machine 0 (fun _ => 0) (fun _ => 0) (.accepted 0 ⟨[], .returns 0⟩)).init
      [.send ⟨[1, 2, 3], .takes 1, fun _ => 0⟩, .send ⟨[4, 5], .takes 2, fun _ => 0⟩,
        .writable { idle with answers := [.takes 2] }],
      c.wire.flatten ++ c.output.contents = [1, 2, 3, 4, 5] ∧
        (c.sendBytes - c.sentBytes).toNat = 2 := by
  have hend : ∃ c ∈ (machine 0 (fun _ => 0) (fun _ => 0) (.accepted 0 ⟨[], .returns 0⟩)).run
      (machine 0 (fun _ => 0) (fun _ => 0) (.accepted 0 ⟨[], .returns 0⟩)).init
      [.send ⟨[1, 2, 3], .takes 1, fun _ => 0⟩, .send ⟨[4, 5], .takes 2, fun _ => 0⟩,
        .writable { idle with answers := [.takes 2] }],
      (∀ s ∈ c.sends, s.1.length < 2147483648) ∧ (∀ s ∈ c.sends, s.2.isSome = true) ∧
        (c.sends.map Prod.fst).flatten = [1, 2, 3, 4, 5] ∧ c.output.size = 2 := by
    decide +kernel
  obtain ⟨c, hc, hsmall, hret, hpayloads, hsize⟩ := hend
  obtain ⟨hstream, hcount⟩ := output_is_stream _ _ _ _ _ hc hsmall hret
  exact ⟨c, hc, hstream.trans hpayloads, hcount.trans hsize⟩

/-- **The write event is in step**: whenever an established connection is between two
events, `SEL_WRITE` is in its mask exactly when `_output` is not empty. -/
theorem write_event_iff_output (now : Int) (stackIn stackOut : Nat → UInt8) (start : Start)
    (events : List Event) {c : TcpConnection}
    (hrun : (machine now stackIn stackOut start).run
      (machine now stackIn stackOut start).init events = some c)
    (hsmall : Small c) (hstatus : c.status = .established) :
    c.socket.selects selWrite = true ↔ c.output.size ≠ 0 := by
  have hinv := run_inv hrun
  obtain ⟨-, hsteady⟩ := hinv.steady hsmall hstatus
  rw [size_eq hinv.ready, Ne, List.length_eq_zero_iff]
  exact hsteady

/-- A connection that is established with output waiting, of which the kernel takes one byte. -/
theorem write_event_iff_output_connecting :
    ∃ c ∈ (machine 0 (fun _ => 0) (fun _ => 0) (.client 0 .pending idle)).run
      (machine 0 (fun _ => 0) (fun _ => 0) (.client 0 .pending idle)).init
      [.send ⟨[1, 2, 3], .again, fun _ => 0⟩, .writable { idle with answers := [.takes 1] }],
      c.output.size = 2 ∧ c.socket.selects selWrite = true := by
  have hend : ∃ c ∈ (machine 0 (fun _ => 0) (fun _ => 0) (.client 0 .pending idle)).run
      (machine 0 (fun _ => 0) (fun _ => 0) (.client 0 .pending idle)).init
      [.send ⟨[1, 2, 3], .again, fun _ => 0⟩, .writable { idle with answers := [.takes 1] }],
      (∀ s ∈ c.sends, s.1.length < 2147483648) ∧ c.status = .established ∧ c.output.size = 2 := by
    decide +kernel
  obtain ⟨c, hc, hsmall, hstatus, hsize⟩ := hend
  refine ⟨c, hc, hsize, (write_event_iff_output _ _ _ _ _ hc hsmall hstatus).mpr ?_⟩
  rw [hsize]
  decide

end LinSocketIo.Core.TcpConnection
