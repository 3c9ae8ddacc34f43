/-
LinSocketIo.Core.UdpConnectionTheorems — the queue of a UDP connection:
datagrams leave it in order and whole, and it makes progress, as long as
nobody asks for its size while it is empty.

`send(0,0)` is how the contract of `send` asks for the size of the output.
On a connected socket whose queue is empty it goes to the kernel as a
datagram without bytes, and since `0` is also what `send` of the socket
returns when it would block, the empty datagram is queued whatever the
kernel did with it. From the queue it never leaves: `flush` takes the `0`
of every later attempt for a full kernel and stops in front of it.

`queries` says that a list of calls contains such a query. Without one, a
run keeps `Queued` (`callSend_spec`, `acts_spec`, `flushLoop_spec`), which
is the result `queue_in_order`; `query_iff` says that the condition is
exact, and `query_blocks_queue` what happens without it.
-/
import LinSocketIo.Core.ConnectionTheorems
import LinSocketIo.Core.UdpConnection

namespace LinSocketIo.Core.UdpConnection

open LinSocketIo.Base LinSocketIo.Utils Connection

/-! ## `flush` -/

/-- How `flush` of the datagrams that wait ends for the kernel's answers. -/
def flushes : List (List UInt8) → List Answer → Flush
  | [], _ => .drained
  | _ :: _, [] => .blocked
  | _ :: _, .again :: _ => .blocked
  | _ :: _, .fails _ :: _ => .failed
  | dat :: rest, .takes n :: answers =>
    if min n dat.length = 0 then .blocked else flushes rest answers

/-- The kernel would block, or takes a datagram whole. -/
def whole (dat : List UInt8) : Answer → Bool
  | .takes n => dat.length ≤ n
  | .again => true
  | .fails _ => false

/-- The datagrams that wait have bytes, and the kernel takes each whole or would block. -/
structure Whole (queue : List (List UInt8)) (answers : List Answer) : Prop where
  nonempty : ∀ dat ∈ queue, dat ≠ []
  takesWhole : ∀ answer ∈ answers, ∀ dat ∈ queue, whole dat answer = true

theorem Whole.takes {queue rest : List (List UInt8)} {dat : List UInt8} {n : Nat}
    {answers : List Answer} (h : Whole queue (.takes n :: answers)) (hq : queue = dat :: rest) :
    dat.length ≤ n ∧ 0 < dat.length := by
  have hdat : dat ∈ queue := hq ▸ List.mem_cons_self
  refine ⟨?_, List.length_pos_iff.mpr (h.nonempty dat hdat)⟩
  exact of_decide_eq_true (h.takesWhole _ List.mem_cons_self dat hdat)

theorem Whole.rest {queue rest : List (List UInt8)} {answer : Answer} {answers : List Answer}
    (h : Whole queue (answer :: answers)) (hrest : rest <:+ queue) : Whole rest answers :=
  ⟨fun dat hdat => h.nonempty dat (hrest.mem hdat),
    fun a ha dat hdat => h.takesWhole a (List.mem_cons_of_mem _ ha) dat (hrest.mem hdat)⟩

/-- What a `flush` leaves as it was, and that it does not touch the stream. -/
structure Flushed (answers : List Answer) (c c' : UdpConnection) : Prop where
  opened : Opened c'
  connected : c'.socket.connected = c.socket.connected
  notices : c'.notices = c.notices
  sends : c'.sends = c.sends
  stream : Whole c.output answers → c'.wire ++ c'.output = c.wire ++ c.output
  suffix : c'.output <:+ c.output

theorem Flushed.refl {c : UdpConnection} (hc : Opened c) (answers : List Answer) :
    Flushed answers c c :=
  ⟨hc, rfl, rfl, rfl, fun _ => rfl, List.suffix_rfl⟩

theorem Flushed.trans {c c1 c2 : UdpConnection} {answer : Answer} {answers : List Answer}
    (h1 : Flushed (answer :: answers) c c1) (h2 : Flushed answers c1 c2) :
    Flushed (answer :: answers) c c2 :=
  ⟨h2.opened, h2.connected.trans h1.connected, h2.notices.trans h1.notices,
    h2.sends.trans h1.sends, fun h => (h2.stream (h.rest h1.suffix)).trans (h1.stream h),
    h2.suffix.trans h1.suffix⟩

/-- The loop of `flush` works off the queue from the front. -/
theorem flushLoop_spec : ∀ (answers : List Answer) {c : UdpConnection}, Opened c →
    wp (flushLoop answers) c
      (fun _ c' => Flushed answers c c' ∧
        flushes c.output answers = if c'.output.isEmpty then .drained else .blocked)
      (fun e c' => Flushed answers c c' ∧ flushes c.output answers = .failed ∧
        ∃ what, e = .socketError what)
  | [], c, hc => by
      refine ⟨.refl hc [], ?_⟩
      cases c.output <;> rfl
  | answer :: answers, c, hc => by
      unfold flushLoop
      simp only [wp_bind, wp_get]
      cases hout : c.output with
      | nil =>
        refine ⟨.refl hc _, ?_⟩
        rw [hout]
        rfl
      | cons dat rest =>
        have hsame : Flushed (answer :: answers) c c := .refl hc _
        cases answer with
        | again =>
          refine ⟨hsame, ?_⟩
          rw [hout]
          rfl
        | fails what => exact ⟨hsame, rfl, what, rfl⟩
        | takes n =>
          unfold socketSend flushes
          simp only [wp_bind, wp_modify, wp_pure, wp_ite]
          refine ⟨fun hzero => ⟨⟨?_, rfl, rfl, rfl, fun h => ?_, List.suffix_rfl⟩, ?_⟩, fun htook => ?_⟩
          · exact ⟨hc.valid, hc.shutdownSend, hc.shutdownRecv⟩
          · -- a datagram that the kernel takes whole has bytes
            obtain ⟨hn, hpos⟩ := h.takes hout
            omega
          · rw [if_pos hzero, hout]
            rfl
          · -- the datagram has left the queue
            have hnext {c2 : UdpConnection} (hopen : Opened c2)
                (hconn : c2.socket.connected = c.socket.connected)
                (hnotices : c2.notices = c.notices) (hsends : c2.sends = c.sends)
                (hwire : c2.wire = c.wire ++ [dat.take n]) (hrest : c2.output = rest) :
                Flushed (.takes n :: answers) c c2 := by
              refine ⟨hopen, hconn, hnotices, hsends, fun h => ?_, ?_⟩
              · obtain ⟨hn, -⟩ := h.takes hout
                rw [hwire, hrest, hout, List.take_of_length_le hn, List.append_assoc,
                  List.singleton_append]
              · rw [hrest, hout]
                exact List.suffix_cons dat rest
            have hopen : Opened { c with
                wire := c.wire ++ [dat.take n]
                sentBytes := c.sentBytes + UInt64.ofNat (min n dat.length)
                output := rest } :=
              ⟨hc.valid, hc.shutdownSend, hc.shutdownRecv⟩
            rw [if_neg htook]
            refine ⟨fun hlast => ?_, fun _ => ?_⟩
            · refine wp_mono (socketSelect_opened hopen selWrite 0) (fun _ c2 h2 => ?_)
                fun _ _ h => h.elim
              obtain ⟨s, rfl, hopen2, hconn⟩ := h2
              have hnil : rest = [] := List.isEmpty_iff.mp hlast
              refine ⟨hnext hopen2 hconn rfl rfl rfl rfl, ?_⟩
              rw [hnil]
              rfl
            · refine wp_mono (flushLoop_spec answers hopen) (fun _ c2 h2 => ⟨?_, h2.2⟩)
                fun _ c2 h2 => ⟨?_, h2.2⟩
              · exact (hnext hopen rfl rfl rfl rfl rfl).trans h2.1
              · exact (hnext hopen rfl rfl rfl rfl rfl).trans h2.1

/-- `flush`. -/
theorem flush_spec {c : UdpConnection} (hc : Opened c) (answers : List Answer) :
    wp (flush answers) c
      (fun b c' => Flushed answers c c' ∧ b = c'.output.isEmpty ∧
        flushes c.output answers = if b then .drained else .blocked)
      (fun e c' => Flushed answers c c' ∧ flushes c.output answers = .failed ∧
        ∃ what, e = .socketError what) := by
  unfold flush
  simp only [wp_bind, wp_get, wp_pure]
  exact wp_mono (flushLoop_spec answers hc) (fun _ c' h => ⟨h.1, trivial, h.2⟩) fun _ _ h => h

/-! ## `send` -/

/-- `send` goes to the kernel. -/
def direct (c : UdpConnection) : Bool := c.socket.connected && c.output.isEmpty

/-- The datagrams of a `send` that the kernel takes. -/
def taken (c : UdpConnection) (s : SendCall) : List (List UInt8) :=
  if c.direct ∧ s.answer ≠ .again then [s.dat] else []

/-- The datagrams of a `send` that wait. -/
def queued (c : UdpConnection) (s : SendCall) : List (List UInt8) :=
  if c.direct then if s.answer = .again ∨ s.dat = [] then [s.dat] else []
  else if s.dat = [] then [] else [s.dat]

/-- What a `send` does. -/
structure Sent (s : SendCall) (c c' : UdpConnection) : Prop where
  opened : Opened c'
  connected : c'.socket.connected = c.socket.connected
  sends : c'.sends = c.sends
  wire : c'.wire = c.wire ++ c.taken s
  output : c'.output = c.output ++ c.queued s

theorem Sent.count {s : SendCall} {c c' : UdpConnection} (h : Sent s c c')
    (lastSendTs : Int) (sendBytes sentBytes : UInt64) :
    Sent s c { c' with lastSendTs := lastSendTs, sendBytes := sendBytes, sentBytes := sentBytes } :=
  ⟨⟨h.opened.valid, h.opened.shutdownSend, h.opened.shutdownRecv⟩, h.connected, h.sends, h.wire,
    h.output⟩

/-- A datagram that waits, with the write event. -/
theorem pushBack_spec {c c1 : UdpConnection} (hc : Opened c1) {s : SendCall}
    (hconn : c1.socket.connected = c.socket.connected) (hsends : c1.sends = c.sends)
    (hwire : c1.wire = c.wire ++ c.taken s) (hout : c1.output = c.output)
    (hqueued : c.queued s = [s.dat]) :
    wp (do
      pushBack s.dat
      socketSelect 0 selWrite : UdpM Unit) c1 (fun _ => Sent s c) (fun _ _ => False) := by
  unfold pushBack
  rw [wp_bind, wp_modify]
  have hpushed : Opened { c1 with output := c1.output ++ [s.dat] } :=
    ⟨hc.valid, hc.shutdownSend, hc.shutdownRecv⟩
  refine wp_mono (socketSelect_opened hpushed 0 selWrite) (fun _ c2 h2 => ?_) fun _ _ h => h
  obtain ⟨socket, rfl, hopen, hsame⟩ := h2
  refine ⟨hopen, hsame.trans hconn, hsends, hwire, ?_⟩
  rw [hqueued, ← hout]

/-- `send` on an open socket, for a kernel that takes the datagram whole. -/
theorem sendOrQueue_spec {c : UdpConnection} (hc : Opened c) {s : SendCall}
    (hs : whole s.dat s.answer = true) :
    wp (sendOrQueue s) c (fun _ => Sent s c) (fun _ _ => False) := by
  unfold sendOrQueue
  simp only [wp_bind, wp_get, wp_ite, wp_modify]
  refine ⟨fun hdirect => ?_, fun hwaits => ?_⟩
  · have hdirect : c.direct = true := hdirect
    cases hans : s.answer with
    | again =>
      -- it would block, and the datagram is queued
      have htaken : c.taken s = [] := if_neg fun h => h.2 hans
      have hqueued : c.queued s = [s.dat] := by
        rw [queued, if_pos hdirect, if_pos (Or.inl hans)]
      have hpush := pushBack_spec (c := c) hc rfl rfl
        (by rw [htaken, List.append_nil]) rfl hqueued
      unfold socketSend
      rw [wp_pure]
      refine ⟨fun _ => ?_, fun h => absurd rfl h⟩
      exact wp_mono ((wp_bind _ _ _).mp hpush)
        (fun _ _ h => wp_mono h (fun _ _ h => h.count _ _ _) fun _ _ h => h) fun _ _ h => h
    | takes n =>
      -- the kernel takes it; without bytes it is queued all the same
      have hn : s.dat.length ≤ n := by
        rw [hans] at hs
        exact of_decide_eq_true hs
      have hne : s.answer ≠ .again := by
        rw [hans]
        exact fun h => by cases h
      have htaken : c.taken s = [s.dat] := if_pos ⟨hdirect, hne⟩
      have hwire : c.wire ++ [s.dat.take n] = c.wire ++ c.taken s := by
        rw [htaken, List.take_of_length_le hn]
      have hopen : Opened { c with wire := c.wire ++ [s.dat.take n] } :=
        ⟨hc.valid, hc.shutdownSend, hc.shutdownRecv⟩
      unfold socketSend
      simp only [wp_bind, wp_modify, wp_pure]
      refine ⟨fun hzero => ?_, fun hsome => ?_⟩
      · have hdat : s.dat = [] := List.length_eq_zero_iff.mp (by omega)
        have hqueued : c.queued s = [s.dat] := by
          rw [queued, if_pos hdirect, if_pos (Or.inr hdat)]
        exact wp_mono ((wp_bind _ _ _).mp (pushBack_spec (c := c) hopen rfl rfl hwire rfl hqueued))
          (fun _ _ h => wp_mono h (fun _ _ h => h.count _ _ _) fun _ _ h => h) fun _ _ h => h
      · have hdat : s.dat ≠ [] := fun h => hsome (by rw [h]; exact Nat.min_zero n)
        refine ⟨⟨hc.valid, hc.shutdownSend, hc.shutdownRecv⟩, rfl, rfl, hwire, ?_⟩
        rw [queued, if_pos hdirect, if_neg (not_or.mpr ⟨hne, hdat⟩), List.append_nil]
    | fails what =>
      rw [hans] at hs
      cases hs
  · have hwaits : ¬c.direct = true := hwaits
    have htaken : c.taken s = [] := if_neg fun h => hwaits h.1
    refine ⟨fun hpos => ?_, fun hempty => ?_⟩
    · have hdat : s.dat ≠ [] := List.length_pos_iff.mp hpos
      unfold pushBack
      rw [wp_modify]
      refine ⟨⟨hc.valid, hc.shutdownSend, hc.shutdownRecv⟩, rfl, rfl, ?_, ?_⟩
      · rw [htaken, List.append_nil]
      · rw [queued, if_neg hwaits, if_neg hdat]
    · have hdat : s.dat = [] := List.length_eq_zero_iff.mp (by omega)
      refine ⟨⟨hc.valid, hc.shutdownSend, hc.shutdownRecv⟩, rfl, rfl, ?_, ?_⟩
      · rw [htaken, List.append_nil]
      · rw [queued, if_neg hwaits, if_pos hdat, List.append_nil]

/-- A call of `send`, which never throws. -/
theorem send_spec {c : UdpConnection} (hc : Opened c) {s : SendCall}
    (hs : whole s.dat s.answer = true) :
    wp (send s) c (fun _ => Sent s c) (fun _ _ => False) := by
  unfold send
  simp only [wp_bind, wp_tryCatch, wp_get, wp_pure]
  exact wp_mono (sendOrQueue_spec hc hs) (fun _ _ h => h) fun _ _ h => h.elim

/-! ## The stream of datagrams -/

/-- The datagrams that have bytes. -/
def withBytes (dats : List (List UInt8)) : List (List UInt8) := dats.filter fun dat => !dat.isEmpty

/-- What the kernel took and what waits are the datagrams that were sent. -/
structure Queued (c : UdpConnection) : Prop where
  opened : Opened c
  nonempty : ∀ dat ∈ c.output, dat ≠ []
  stream : c.wire ++ c.output = withBytes (c.sends.map Prod.fst)

/-- A `send` that is no query of an empty queue adds its datagram to the stream. -/
theorem stream_send {c : UdpConnection} {s : SendCall} (hq : c.direct = true → s.dat ≠ []) :
    (c.wire ++ c.taken s) ++ (c.output ++ c.queued s) =
      (c.wire ++ c.output) ++ withBytes [s.dat] := by
  have hbytes : s.dat ≠ [] → withBytes [s.dat] = [s.dat] := fun h => by simp [withBytes, h]
  by_cases hdirect : c.direct = true
  · have hnil : c.output = [] := List.isEmpty_iff.mp (Bool.and_eq_true_iff.mp hdirect).2
    rw [hbytes (hq hdirect), taken, queued, if_pos hdirect, hnil]
    by_cases hagain : s.answer = .again
    · rw [if_neg fun h => h.2 hagain, if_pos (Or.inl hagain)]
      simp
    · rw [if_pos ⟨hdirect, hagain⟩, if_neg (not_or.mpr ⟨hagain, hq hdirect⟩)]
      simp
  · rw [taken, if_neg fun h => hdirect h.1, queued, if_neg hdirect]
    split
    · next hnil => simp [withBytes, hnil]
    · next hne => simp [hbytes hne]

/-- The queue is empty after a `send`, if it was before (`empty`). -/
def emptyAfter (connected empty : Bool) (s : SendCall) : Bool :=
  empty && (s.dat.isEmpty || (connected && s.answer != .again))

theorem isEmpty_send {c : UdpConnection} {s : SendCall} (hq : c.direct = true → s.dat ≠ []) :
    (c.output ++ c.queued s).isEmpty = emptyAfter c.socket.connected c.output.isEmpty s := by
  cases hempty : c.output with
  | cons dat rest => rfl
  | nil =>
    cases hconn : c.socket.connected with
    | false =>
      have hdirect : ¬c.direct = true := by simp [direct, hconn]
      rw [queued, if_neg hdirect]
      cases hdat : s.dat <;> simp [emptyAfter, hdat]
    | true =>
      have hdirect : c.direct = true := by simp [direct, hconn, hempty]
      have hdat : s.dat ≠ [] := hq hdirect
      rw [queued, if_pos hdirect]
      cases hans : s.answer <;> simp [emptyAfter, hdat, hans]

theorem nonempty_send {c : UdpConnection} {s : SendCall} (hq : c.direct = true → s.dat ≠ []) :
    ∀ dat ∈ c.queued s, dat ≠ [] := by
  have hsingle (hdat : s.dat ≠ []) : ∀ dat ∈ [s.dat], dat ≠ [] :=
    fun dat h => List.mem_singleton.mp h ▸ hdat
  unfold queued
  split
  · next hdirect =>
    split
    · exact hsingle (hq hdirect)
    · exact fun _ h => absurd h List.not_mem_nil
  · split
    · exact fun _ h => absurd h List.not_mem_nil
    · next hdat => exact hsingle hdat

/-- A queue that is in order, and what a callback needs to know of the connection. -/
structure At (connected empty : Bool) (c : UdpConnection) : Prop extends Queued c where
  connected : c.socket.connected = connected
  isEmpty : c.output.isEmpty = empty

theorem at_outputInv (connected empty : Bool) : OutputInv (At connected empty) where
  disconnected c hc :=
    ⟨⟨opened_outputInv.disconnected c hc.opened, hc.nonempty, hc.stream⟩, hc.connected, hc.isEmpty⟩
  removed c hc :=
    ⟨⟨opened_outputInv.removed c hc.opened, hc.nonempty, hc.stream⟩,
      (Socket.remove_connected c.socket).trans hc.connected, hc.isEmpty⟩
  rest c timeout lastRecvTs now timer recvBytes input managed notices hc :=
    ⟨⟨opened_outputInv.rest c timeout lastRecvTs now timer recvBytes input managed notices
      hc.opened, hc.nonempty, hc.stream⟩, hc.connected, hc.isEmpty⟩

variable {c : UdpConnection} {connected empty : Bool}

/-- A call of `send` by the application. -/
theorem callSend_spec (hc : At connected empty c) {s : SendCall}
    (hs : whole s.dat s.answer = true) (hq : (connected && empty && s.dat.isEmpty) = false) :
    wp (callSend send s) c (fun _ => At connected (emptyAfter connected empty s))
      (fun _ _ => False) := by
  have hask : c.direct = true → s.dat ≠ [] := by
    rw [direct, hc.connected, hc.isEmpty]
    intro hdirect hdat
    rw [hdirect, hdat] at hq
    cases hq
  unfold callSend
  simp only [wp_bind, wp_tryCatch, wp_pure, wp_modify]
  refine wp_mono (send_spec hc.opened hs) (fun _ (c1 : UdpConnection) h1 => ?_) fun _ _ h => h.elim
  refine ⟨⟨⟨h1.opened.valid, h1.opened.shutdownSend, h1.opened.shutdownRecv⟩, ?_, ?_⟩, ?_, ?_⟩
  · intro dat hdat
    rw [h1.output] at hdat
    rcases List.mem_append.mp hdat with hold | hnew
    · exact hc.nonempty dat hold
    · exact nonempty_send hask dat hnew
  · rw [h1.wire, h1.output, stream_send hask, hc.stream, h1.sends, List.map_append, withBytes,
      withBytes, withBytes, List.filter_append]
    rfl
  · exact h1.connected.trans hc.connected
  · rw [← hc.connected, ← hc.isEmpty, ← isEmpty_send hask, ← h1.output]

/-! ## The handler -/

/-- The kernel would block, or takes a datagram whole, in every `send` of the calls. -/
def wholeActs : List Act → Bool
  | [] => true
  | .close _ :: as => wholeActs as
  | .send s :: as => whole s.dat s.answer && wholeActs as

/-- The queue is empty after the calls, if it was before. -/
def emptyAfterActs (connected : Bool) : Bool → List Act → Bool
  | empty, [] => empty
  | empty, .close _ :: as => emptyAfterActs connected empty as
  | empty, .send s :: as => emptyAfterActs connected (emptyAfter connected empty s) as

/-- The calls ask for the size of an empty queue on a connected socket. -/
def queries (connected : Bool) : Bool → List Act → Bool
  | _, [] => false
  | empty, .close _ :: as => queries connected empty as
  | empty, .send s :: as =>
    (connected && empty && s.dat.isEmpty) || queries connected (emptyAfter connected empty s) as

theorem acts_spec : ∀ (as : List Act) {c : UdpConnection} {empty : Bool}, At connected empty c →
    wholeActs as = true → queries connected empty as = false →
    wp (acts send as) c (fun _ => At connected (emptyAfterActs connected empty as))
      (fun _ => Queued)
  | [], _, _, hc, _, _ => hc
  | .close throws :: as, c, empty, hc, hwhole, hq => by
      unfold acts
      rw [wp_bind]
      refine wp_mono (keeps_close (at_outputInv connected empty).control throws c hc)
        (fun _ c1 h1 => ?_) fun _ _ h => h.toQueued
      exact acts_spec as h1 hwhole hq
  | .send s :: as, c, empty, hc, hwhole, hq => by
      obtain ⟨hwhole, hrest⟩ := Bool.and_eq_true_iff.mp hwhole
      obtain ⟨hask, hq⟩ := Bool.or_eq_false_iff.mp hq
      unfold acts
      rw [wp_bind]
      refine wp_mono (callSend_spec hc hwhole hask)
        (fun _ c1 h1 => ?_) fun _ _ h => h.elim
      exact acts_spec as h1 hrest hq

/-- A notification and its callback, in front of `k`. -/
theorem wp_notify_callback (hc : At connected empty c) (n : Notice) {cb : Callback}
    (hwhole : wholeActs cb.acts = true) (hq : queries connected empty cb.acts = false) {α : Type}
    {k : UdpM α} {Q : α → UdpConnection → Prop} {E : Exc → UdpConnection → Prop}
    (hret : ∀ c', cb.ends.isThrow = false →
      At connected (emptyAfterActs connected empty cb.acts) c' → wp k c' Q E)
    (hthrow : ∀ e c', Queued c' → E e c') :
    wp (do
      notify n
      let _ ← callback send cb
      k : UdpM α) c Q E := by
  unfold callback
  rw [wp_bind]
  refine wp_mono (keeps_notify (at_outputInv connected empty) n c hc) (fun _ c1 h1 => ?_)
    fun e c1 h => hthrow e c1 h.toQueued
  rw [wp_bind, wp_bind]
  refine wp_mono (acts_spec cb.acts h1 hwhole hq) (fun _ c2 h2 => ?_) hthrow
  cases hends : cb.ends with
  | returns n => exact hret c2 (by rw [hends]; rfl) h2
  | throws e => exact hthrow e c2 h2.toQueued

/-! ## Events and creation -/

theorem Flushed.queued {answers : List Answer} {c' : UdpConnection} (h : Flushed answers c c')
    (hc : Queued c) (hwhole : ∀ answer ∈ answers, ∀ dat ∈ c.output, whole dat answer = true) :
    Queued c' where
  opened := h.opened
  nonempty dat hdat := hc.nonempty dat (h.suffix.mem hdat)
  stream := by rw [h.stream ⟨hc.nonempty, hwhole⟩, hc.stream, h.sends]

theorem queued_outputInv : OutputInv Queued where
  disconnected c hc := ⟨opened_outputInv.disconnected c hc.opened, hc.nonempty, hc.stream⟩
  removed c hc := ⟨opened_outputInv.removed c hc.opened, hc.nonempty, hc.stream⟩
  rest c timeout lastRecvTs now timer recvBytes input managed notices hc :=
    ⟨opened_outputInv.rest c timeout lastRecvTs now timer recvBytes input managed notices
      hc.opened, hc.nonempty, hc.stream⟩

/-- `onWrite` on a connected socket. -/
theorem onWrite_spec (hc : Queued c) (hconn : c.socket.connected = true) {io : Io}
    (hwhole : ∀ answer ∈ io.answers, ∀ dat ∈ c.output, whole dat answer = true)
    (hacts : wholeActs io.handler.acts = true)
    (hq : flushes c.output io.answers = .drained → queries true true io.handler.acts = false) :
    wp (onWrite io) c (fun _ => Queued) (fun _ => Queued) := by
  have hcatch := keeps_onWrite_catch queued_outputInv.control.quiet io.onCloseThrows
  unfold onWrite Connection.onWrite
  rw [wp_tryCatch, wp_bind]
  refine wp_mono (flush_spec hc.opened io.answers) (fun b (c1 : UdpConnection) h1 => ?_)
    fun e c1 h1 => ?_
  · obtain ⟨hflushed, hb, hends⟩ := h1
    have hc1 := hflushed.queued hc hwhole
    rw [wp_ite]
    refine ⟨fun hdrained => ?_, fun _ => hc1⟩
    rw [if_pos hdrained] at hends
    have hat : At true true c1 := ⟨hc1, hflushed.connected.trans hconn, hb ▸ hdrained⟩
    exact wp_notify_callback hat _ hacts (hq hends) (fun _ _ h => h.toQueued) hcatch
  · exact hcatch e c1 (h1.1.queued hc hwhole)

/-- A new connection with its socket. -/
theorem new_at (side : Side) (timeout : Int) (status : Status) (now lastRecvTs : Int)
    (stackIn : Nat → UInt8) (socket : Socket) (hvalid : socket.valid = true)
    (hsend : socket.shutdownSend = false) (hrecv : socket.shutdownRecv = false) :
    At socket.connected true { Connection.new side timeout status now stackIn [] with
      lastRecvTs := lastRecvTs, socket := socket } where
  opened := ⟨hvalid, hsend, hrecv⟩
  nonempty _ h := absurd h List.not_mem_nil
  stream := rfl
  connected := rfl
  isEmpty := rfl

/-- A request changes nothing about the queue. -/
theorem socketSelect_at (hc : At connected empty c) (remove add : Mask) :
    wp (socketSelect remove add) c (fun _ => At connected empty) (fun _ _ => False) := by
  refine wp_mono (socketSelect_opened hc.opened remove add) (fun _ c' h => ?_) fun _ _ h => h
  obtain ⟨s, rfl, hopen, hconn⟩ := h
  exact ⟨⟨hopen, hc.nonempty, hc.stream⟩, hconn.trans hc.connected, hc.isEmpty⟩

/-- The constructor for an accepted socket. -/
theorem accept_at (msec now : Int) (stackIn : Nat → UInt8) :
    wp (accept msec)
      { Connection.new .server msec .established now stackIn [] with lastRecvTs := now }
      (fun _ => At true true) (fun _ _ => False) := by
  have hc := new_at .server msec .established now now stackIn Socket.new.attach rfl rfl rfl
  unfold accept
  rw [wp_bind, wp_modify, wp_bind]
  refine wp_mono (socketSelect_at hc 0 selRead) (fun _ c1 h1 => ?_) fun _ _ h => h
  rw [wp_ite]
  exact ⟨fun _ => (at_outputInv true true).rest c1 c1.timeout c1.lastRecvTs c1.now
    (if msec < 0 then none else some msec) c1.recvBytes c1.input c1.managed c1.notices h1, fun _ => h1⟩

/-- The `try` block of `onConnected` while nothing waits. -/
theorem establish_at (hc : At connected true c) (io : Io) :
    wp (establish io) c (fun _ => At connected true) (fun _ _ => False) := by
  have hnil : c.output = [] := List.isEmpty_iff.mp hc.isEmpty
  have hdrained : flushes c.output io.answers = .drained := by rw [hnil]; rfl
  unfold establish
  rw [wp_bind]
  refine wp_mono (flush_spec hc.opened io.answers) (fun b (c1 : UdpConnection) h1 => ?_)
    fun e c1 h1 => ?_
  · have hnone : c1.output = [] := List.suffix_nil.mp (hnil ▸ h1.1.suffix)
    have hwhole : ∀ answer ∈ io.answers, ∀ dat ∈ c.output, whole dat answer = true := by
      rw [hnil]
      exact fun _ _ _ h => absurd h List.not_mem_nil
    have hc1 : At connected true c1 :=
      ⟨h1.1.queued hc.toQueued hwhole, h1.1.connected.trans hc.connected, by rw [hnone]; rfl⟩
    exact socketSelect_at hc1 _ _
  · rw [h1.2.1] at hdrained
    cases hdrained

/-- The constructors that connect. -/
theorem connect_at (answer : ConnectAnswer) (io : Io) (now : Int) (stackIn : Nat → UInt8) :
    wp (connect answer io)
      { Connection.new .client (-1) .connectting now stackIn [] with lastRecvTs := now }
      (fun _ => At (answer = .done) true) (fun _ _ => False) := by
  have hc (status : Status) (connected : Bool) := new_at .client (-1) status now now stackIn
    { Socket.new with valid := true, connected := connected } rfl rfl rfl
  have hselect : selConnecting &&& selConnecting ≠ selNone := by decide
  unfold connect select
  rw [wp_tryCatch]
  simp only [if_pos hselect]
  cases answer with
  | done =>
    unfold doConnect onConnected
    simp only [wp_bind, wp_modify, wp_get, wp_ite, wp_tryCatch]
    refine ⟨fun _ => ⟨fun _ => ?_, fun h => absurd trivial h⟩, fun h => absurd trivial h⟩
    exact wp_mono (establish_at (hc .established true) io) (fun _ _ h => h) fun _ _ h => h.elim
  | pending =>
    unfold doConnect
    simp only [wp_bind, wp_modify, wp_get, wp_ite]
    refine ⟨fun h => (Bool.false_ne_true h).elim, fun _ => ?_⟩
    exact wp_mono (socketSelect_at (hc .connectting false) 0 selRw) (fun _ _ h => h) fun _ _ h => h.elim
  | fails what =>
    unfold doConnect
    simp only [wp_bind, wp_modify, wp_throw]
    exact hc .socketError false

/-! ## Queries of an empty queue -/

namespace Start

/-- The kernel would block, or takes a datagram whole. -/
def whole : Start → Bool
  | .accepted _ _ connected received => wholeActs connected.acts && wholeActs received.acts
  | .client _ io => wholeActs io.handler.acts

/-- The handler asks for the size of the empty queue while the connection is created. -/
def queries : Start → Bool
  | .accepted _ _ connected received =>
    UdpConnection.queries true true connected.acts ||
      (!connected.ends.isThrow &&
        UdpConnection.queries true (emptyAfterActs true true connected.acts) received.acts)
  | .client answer io => UdpConnection.queries (answer = .done) true io.handler.acts

end Start

namespace Event

/-- A call of `send` or a writable event on a connected socket, and a kernel that would block
or takes a datagram whole. -/
def whole (c : UdpConnection) : Event → Bool
  | .send s => c.socket.connected && UdpConnection.whole s.dat s.answer
  | .writable io => c.socket.connected &&
      (io.answers.all fun answer => c.output.all fun dat => UdpConnection.whole dat answer) &&
      wholeActs io.handler.acts
  | _ => false

/-- The event asks for the size of an empty queue. -/
def queries (c : UdpConnection) : Event → Bool
  | .send s => c.output.isEmpty && s.dat.isEmpty
  | .writable io => flushes c.output io.answers = .drained &&
      UdpConnection.queries true true io.handler.acts
  | _ => false

end Event

/-- `managed` is not about the queue. -/
theorem At.manage (hc : At connected empty c) (managed : Bool) :
    At connected empty { c with managed := managed } :=
  (at_outputInv connected empty).rest c c.timeout c.lastRecvTs c.now c.timer c.recvBytes c.input
    managed c.notices hc

/-- A connection that has just been created. -/
theorem start_queued (now : Int) (stackIn : Nat → UInt8) {start : Start} (hwhole : start.whole = true)
    (hq : start.queries = false) : Queued (start.connection now stackIn) := by
  cases start with
  | accepted msec dat conn received =>
    obtain ⟨hconn, hreceived⟩ := Bool.and_eq_true_iff.mp hwhole
    obtain ⟨hqconn, hqreceived⟩ := Bool.or_eq_false_iff.mp hq
    refine after_of_wp ?_
    unfold createUdpConnection managerOnData
    rw [wp_bind]
    refine wp_mono (accept_at msec now stackIn) (fun _ (c1 : UdpConnection) h1 => ?_)
      fun _ _ h => h.elim
    rw [wp_bind, wp_modify]
    refine wp_notify_callback (h1.manage true) _ hconn hqconn (fun c2 hret h2 => ?_) fun _ _ h => h
    rw [hret] at hqreceived
    simp only [bind_assoc, pure_bind]
    refine wp_notify_callback h2 _ hreceived hqreceived (fun c3 _ h3 => ?_) fun _ _ h => h
    exact queued_outputInv.rest c3 c3.timeout c3.lastRecvTs c3.now c3.timer _ c3.input c3.managed
      c3.notices h3.toQueued
  | client answer io =>
    refine after_of_wp ?_
    unfold createUdpClient
    rw [wp_bind]
    refine wp_mono (connect_at answer io now stackIn) (fun _ (c1 : UdpConnection) h1 => ?_)
      fun _ _ h => h.elim
    simp only [wp_bind, wp_get, wp_ite, wp_modify]
    refine ⟨fun _ => keeps_notify queued_outputInv _ c1 h1.toQueued, fun _ => ?_⟩
    unfold handleOnConnected
    rw [wp_tryCatch]
    refine wp_notify_callback (h1.manage true) _ hwhole hq (fun _ _ h => h.toQueued) fun e c2 h2 => ?_
    exact keeps_bind (keeps_handleClose queued_outputInv.control.quiet rfl _)
      (fun _ => keeps_pure false) c2 h2

/-- An event that asks for the size of no empty queue. -/
theorem exec_queued (hc : Queued c) {e : Event} (hwhole : e.whole c = true) (hq : e.queries c = false) :
    Queued (after e.exec c) := by
  cases e with
  | send s =>
    obtain ⟨hconn, hs⟩ := Bool.and_eq_true_iff.mp hwhole
    have hat : At true c.output.isEmpty c := ⟨hc, hconn, rfl⟩
    exact after_of_wp (wp_mono (callSend_spec hat hs hq) (fun _ _ h => h.toQueued)
      fun _ _ h => h.elim)
  | writable io =>
    obtain ⟨hwhole, hacts⟩ := Bool.and_eq_true_iff.mp hwhole
    obtain ⟨hconn, hanswers⟩ := Bool.and_eq_true_iff.mp hwhole
    have hanswers : ∀ answer ∈ io.answers, ∀ dat ∈ c.output, UdpConnection.whole dat answer = true :=
      fun answer ha dat hdat => List.all_eq_true.mp (List.all_eq_true.mp hanswers answer ha) dat hdat
    refine after_of_wp ?_
    unfold Event.exec handleWrite
    simp only [wp_bind, wp_get, wp_ite]
    refine ⟨fun _ => onWrite_spec hc hconn hanswers hacts fun hdrained => ?_,
      fun h => absurd hconn h⟩
    simpa [Event.queries, hdrained] using hq
  | pass sec => cases hwhole
  | readable io => cases hwhole
  | timeout io => cases hwhole
  | datagram dat handler => cases hwhole
  | close throws => cases hwhole
  | setKeepaliveTimeout msec => cases hwhole

/-! ## Results -/

/-- A query on a connected socket sends nothing and queues nothing exactly when something
waits already. -/
theorem query_iff (hc : Opened c) (hconn : c.socket.connected = true) {s : SendCall}
    (hquery : s.dat = []) (hs : whole s.dat s.answer = true) :
    ((after (send s) c).wire = c.wire ∧ (after (send s) c).output = c.output) ↔
      c.output ≠ [] := by
  have hsent : Sent s c (after (send s) c) :=
    after_of_wp (wp_mono (send_spec hc hs) (fun _ _ h => h) fun _ _ h => h.elim)
  rw [hsent.wire, hsent.output]
  cases hout : c.output with
  | nil =>
    have hdirect : c.direct = true := by simp [direct, hconn, hout]
    simp [queued, hdirect, hquery]
  | cons dat rest =>
    have hdirect : ¬c.direct = true := by simp [direct, hout]
    simp [taken, queued, hdirect, hquery]

theorem flushes_drained : ∀ {queue : List (List UInt8)} {answers : List Answer},
    queue.length ≤ answers.length → (∀ dat ∈ queue, dat ≠ []) →
    (∀ answer ∈ answers, ∀ dat ∈ queue, ∃ n, answer = .takes n ∧ dat.length ≤ n) →
    flushes queue answers = .drained
  | [], _, _, _, _ => rfl
  | dat :: rest, answer :: answers, hmany, hbytes, htakes => by
      obtain ⟨n, rfl, hn⟩ := htakes answer List.mem_cons_self dat List.mem_cons_self
      have hpos : 0 < dat.length := List.length_pos_iff.mpr (hbytes dat List.mem_cons_self)
      unfold flushes
      rw [if_neg (by omega)]
      exact flushes_drained (Nat.le_of_succ_le_succ hmany)
        (fun d hd => hbytes d (List.mem_cons_of_mem _ hd))
        fun a ha d hd => htakes a (List.mem_cons_of_mem _ ha) d (List.mem_cons_of_mem _ hd)

/-- A `flush` that the kernel never stops empties the queue. -/
theorem flush_drains (hc : Queued c) {answers : List Answer}
    (hmany : c.output.length ≤ answers.length)
    (htakes : ∀ answer ∈ answers, ∀ dat ∈ c.output, ∃ n, answer = .takes n ∧ dat.length ≤ n) :
    (after (flush answers) c).output = [] := by
  have hdrained := flushes_drained hmany hc.nonempty htakes
  refine after_of_wp (P := fun c' : UdpConnection => c'.output = [])
    (wp_mono (flush_spec hc.opened answers) (fun b c1 h1 => ?_) fun _ c1 h1 => ?_)
  · obtain ⟨-, hb, hends⟩ := h1
    rw [hdrained] at hends
    cases b with
    | true => exact List.isEmpty_iff.mp hb.symm
    | false => cases hends
  · rw [h1.2.1] at hdrained
    cases hdrained

/-- **The queue is in order and makes progress**: in every run of `send` calls and writable
events, for a kernel that would block or takes a datagram whole, in which nobody asks for
the size of an empty queue: a query of a queue that is not empty changes nothing, and only
such a query; every datagram with bytes was sent once, in the order of the calls, or waits;
and a `flush` that the kernel never stops empties the queue. -/
theorem queue_in_order (now : Int) (stackIn : Nat → UInt8) (start : Start) (events : List Event)
    (hstart : start.whole = true) (hqstart : start.queries = false)
    (hevents : (machine now stackIn start).AllSteps
      (fun c e => e.whole c = true ∧ e.queries c = false) (machine now stackIn start).init events)
    (hrun : (machine now stackIn start).run (machine now stackIn start).init events = some c) :
    (∀ s : SendCall, s.dat = [] → whole s.dat s.answer = true → c.socket.connected = true →
        (((after (send s) c).wire = c.wire ∧ (after (send s) c).output = c.output) ↔
          c.output ≠ [])) ∧
      c.wire ++ c.output = (c.sends.map Prod.fst).filter (fun dat => !dat.isEmpty) ∧
      ∀ answers : List Answer, c.output.length ≤ answers.length →
        (∀ answer ∈ answers, ∀ dat ∈ c.output, ∃ n, answer = .takes n ∧ dat.length ≤ n) →
        (after (flush answers) c).output = [] := by
  have hc : Queued c := by
    refine Machine.run_invariant _ (fun c e c' hc hmeets hstep => ?_) events
      (start_queued now stackIn hstart hqstart) hevents hrun
    obtain rfl := Option.some.inj hstep
    exact exec_queued hc hmeets.1 hmeets.2
  exact ⟨fun s hquery hs hconn => query_iff hc.opened hconn hquery hs, hc.stream,
    fun answers hmany htakes => flush_drains hc hmany htakes⟩

/-- A handler that does nothing, and a kernel that answers `answers` to the sends of `flush`. -/
def answering (answers : List Answer) : Io :=
  ⟨answers, .again, fun _ => 0, none, ⟨[], .returns 0⟩, none, none⟩

/-- A datagram under backpressure, a query while it waits, and a writable socket. -/
theorem queue_in_order_backpressure :
    ∃ c ∈ (machine 0 (fun _ => 0) (.accepted 0 [7] ⟨[], .returns 0⟩ ⟨[], .returns 0⟩)).run
      (machine 0 (fun _ => 0) (.accepted 0 [7] ⟨[], .returns 0⟩ ⟨[], .returns 0⟩)).init
      [.send ⟨[1, 2], .again, fun _ => 0⟩, .send ⟨[], .again, fun _ => 0⟩,
        .send ⟨[3], .again, fun _ => 0⟩, .writable (answering [.takes 2, .again])],
      c.wire ++ c.output = [[1, 2], [3]] ∧ (after (flush [.takes 1]) c).output = [] := by
  have hend : ∃ c ∈ (machine 0 (fun _ => 0) (.accepted 0 [7] ⟨[], .returns 0⟩ ⟨[], .returns 0⟩)).run
      (machine 0 (fun _ => 0) (.accepted 0 [7] ⟨[], .returns 0⟩ ⟨[], .returns 0⟩)).init
      [.send ⟨[1, 2], .again, fun _ => 0⟩, .send ⟨[], .again, fun _ => 0⟩,
        .send ⟨[3], .again, fun _ => 0⟩, .writable (answering [.takes 2, .again])],
      c.output = [[3]] ∧
        (c.sends.map Prod.fst).filter (fun dat => !dat.isEmpty) = [[1, 2], [3]] := by
    decide +kernel
  obtain ⟨c, hc, hout, hsends⟩ := hend
  obtain ⟨-, hstream, hdrains⟩ :=
    queue_in_order _ _ _ _ (by decide) (by decide) (by decide +kernel) hc
  refine ⟨c, hc, hstream.trans hsends, hdrains _ (by rw [hout]; decide) ?_⟩
  rw [hout]
  intro answer hanswer dat hdat
  obtain rfl := List.mem_singleton.mp hanswer
  obtain rfl := List.mem_singleton.mp hdat
  exact ⟨1, rfl, Nat.le_refl 1⟩

/-- A query of an empty queue: the kernel sends a datagram without bytes, it waits all the
same, and what is sent after it never leaves the queue. -/
theorem query_blocks_queue :
    ∃ c ∈ (machine 0 (fun _ => 0) (.accepted 0 [7] ⟨[], .returns 0⟩ ⟨[], .returns 0⟩)).run
      (machine 0 (fun _ => 0) (.accepted 0 [7] ⟨[], .returns 0⟩ ⟨[], .returns 0⟩)).init
      [.send ⟨[], .takes 0, fun _ => 0⟩, .send ⟨[1], .takes 1, fun _ => 0⟩,
        .writable (answering [.takes 1, .takes 1])],
      c.wire = [[], []] ∧ c.output = [[], [1]] := by
  decide +kernel

end LinSocketIo.Core.UdpConnection
