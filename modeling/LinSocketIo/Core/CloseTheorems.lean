/-
LinSocketIo.Core.CloseTheorems — when the application's handler is told once
that a connection is closed, and nothing after that.

`orderly` is about the inputs of an event and the registration it finds: the
socket is still registered when its event is delivered or the application
closes the connection, a timeout finds a timer, reading does not find the
input buffer full, a callback closes at most once, and nothing registers a
removed socket again or arms its timer. In a run of such events a close is
told once and finally (`tcp_closed_once`, `udp_closed_once`, together
`closed_once`), since closing removes the connection from what delivers
events. A full input buffer breaks this, as `onRead` goes on after it has
told the handler of the close, and so do a blocked `send` on a closed
connection and the second event of a socket in one batch
(`full_input_read_after_close`).
-/
import LinSocketIo.Core.CloseRemoval
import LinSocketIo.Core.TcpConnectionTheorems
import LinSocketIo.Core.UdpConnectionTheorems

namespace LinSocketIo.Core

open LinSocketIo.Base LinSocketIo.Utils

namespace TcpConnection

open Connection

section OutputFree

variable {I : TcpConnection → Prop} (hI : OutputFree I)

include hI

theorem keeps_onOutput {α : Type} (x : BufferM α) : Keeps I (onOutput x) := by
  intro c hc
  have houtput := fun b => hI.output c c.wire b c.lastSendTs c.sendBytes c.sentBytes hc
  rw [wp_onOutput]
  unfold wp
  cases x.run c.output with
  | ok a b => exact houtput b
  | error e b => exact houtput b

theorem keeps_send (s : SendCall) : Keeps I (send s) := by
  have hcount (n : Nat) : Keeps I (do
      modify fun c =>
        { c with
          lastSendTs := c.now
          sendBytes := c.sendBytes + UInt64.ofNat s.dat.length
          sentBytes := c.sentBytes + UInt64.ofNat n }
      return toUInt32 (← get).output.size : TcpM Nat) :=
    keeps_bind (keeps_modify fun c hc => hI.output c c.wire c.output _ _ _ hc) fun _ =>
      keeps_bind keeps_get fun _ => keeps_pure _
  refine keeps_bind (keeps_bind keeps_get fun c => keeps_ite ?_ ?_) hcount
  · refine keeps_bind (hI.keeps_socketSend _ _) fun n => keeps_ite ?_ (keeps_pure n)
    exact keeps_bind (keeps_onOutput hI _) fun _ =>
      keeps_bind (hI.select _ _) fun _ => keeps_pure n
  · refine keeps_ite ?_ (keeps_pure 0)
    exact keeps_bind (keeps_onOutput hI _) fun _ => keeps_pure 0

theorem keeps_flush_free (answer : Answer) : Keeps I (flush answer) := by
  refine keeps_bind keeps_get fun c => keeps_ite (keeps_pure true) ?_
  refine keeps_bind keeps_get fun c => keeps_bind (hI.keeps_socketSend _ _) fun n => ?_
  have hdone : Keeps I (do
      modify fun c => { c with sentBytes := c.sentBytes + UInt64.ofNat n }
      return (← get).output.size == 0 : TcpM Bool) :=
    keeps_bind (keeps_modify fun c hc =>
      hI.output c c.wire c.output c.lastSendTs c.sendBytes _ hc) fun _ =>
      keeps_bind keeps_get fun _ => keeps_pure _
  have hselect : Keeps I (do
      if (← get).output.size == 0 then socketSelect selWrite 0
      modify fun c => { c with sentBytes := c.sentBytes + UInt64.ofNat n }
      return (← get).output.size == 0 : TcpM Bool) :=
    keeps_bind keeps_get fun c => keeps_ite (keeps_bind (hI.select _ _) fun _ => hdone) hdone
  exact keeps_ite (keeps_bind (keeps_onOutput hI _) fun _ => hselect) hselect

end OutputFree

theorem quiet_send (s : SendCall) : Quiet (send s) := fun ns st =>
  keeps_send (quiet_outputFree ns st) s

theorem quiet_flush (answer : Answer) : Quiet (flush answer) := fun ns st =>
  keeps_flush_free (quiet_outputFree ns st) answer

section ReceiveInv

variable {I : TcpConnection → Prop} (hI : ReceiveInv I)

include hI

theorem keeps_callSend_free (s : SendCall) : Keeps I (callSend send s) :=
  hI.keeps_callSend (keeps_send hI.toOutputFree s)

theorem keeps_onConnected (desc : String) (io : Io) : Keeps I (onConnected desc io) := by
  have hclose (reason : String) :
      Keeps I (do let _ ← handleOnClose reason io.onCloseThrows : TcpM Unit) :=
    keeps_bind (keeps_handleClose hI.toControlInv rfl _) fun _ => keeps_pure ()
  refine keeps_bind (keeps_selectTimeout hI.toControlInv _) fun _ =>
    keeps_bind keeps_get fun c => ?_
  refine keeps_ite (keeps_bind (keeps_modify fun c hc => ?_) fun _ => ?_) (hclose desc)
  · exact hI.rest _ c.timeout c.now c.now c.timer c.managed (hI.established c hc)
  · refine keeps_tryCatch ?_ fun e => ?_
    · refine keeps_bind (keeps_flush_free hI.toOutputFree _) fun b => ?_
      refine keeps_bind (hI.select _ _) fun _ => ?_
      exact keeps_bind (keeps_handleOnConnected hI.toControlInv (keeps_callSend_free hI) _ _)
        fun _ => keeps_pure ()
    · cases e with
      | socketError what => exact hclose what
      | buffer stop => exact keeps_throw _
      | other what => exact keeps_throw _

theorem keeps_connected (io : Io) : Keeps I (do
    onConnected (← completeNonblockingConnect io.connectError) io : TcpM Unit) := by
  refine keeps_bind ?_ fun desc => keeps_onConnected hI desc io
  cases io.connectError with
  | some what => exact keeps_pure what
  | none => exact keeps_bind (keeps_modify hI.connected) fun _ => keeps_pure _

theorem keeps_handleWrite (io : Io) : Keeps I (handleWrite io) := by
  refine keeps_bind keeps_get fun c => keeps_ite ?_ (keeps_connected hI io)
  exact keeps_onWrite hI.toControlInv (keeps_callSend_free hI)
    (keeps_flush_free hI.toOutputFree _) io

theorem keeps_handleTimeout (io : Io) : Keeps I (handleTimeout io) := by
  refine keeps_bind keeps_get fun c => keeps_ite ?_ (keeps_onConnected hI _ io)
  refine keeps_bind keeps_get fun c => ?_
  cases c.side with
  | server => exact Connection.keeps_onTimeout hI.toControlInv io
  | client => exact keeps_clientOnTimeout hI.toControlInv (keeps_callSend_free hI) io

end ReceiveInv

/-- What `flush` finds, in terms of the bytes that wait and the kernel's answer. -/
theorem flush_notes {c : TcpConnection} (hc : Ready c) (answer : Answer) :
    wp (flush answer) c
      (fun b c' => (Ready c' ∧ c'.notices = c.notices) ∧
        flushes c.output.size answer = if b then .drained else .blocked)
      (fun e c' => c'.notices = c.notices ∧ flushes c.output.size answer = .failed ∧
        ∃ what, e = .socketError what) := by
  rw [size_eq hc]
  refine wp_mono (wp_and (flush_spec hc answer)
    (quiet_flush answer c.notices c.status c ⟨rfl, rfl⟩))
    (fun b c' h => ?_) fun e c' h => ⟨h.2.1, h.1.2⟩
  obtain ⟨⟨-, hends, n, -, h⟩, hsame, -⟩ := h
  exact ⟨⟨h.ready, hsame⟩, hends⟩

/-- The kernel does not take all of it, so the write event is asked for. -/
def blocks (s : SendCall) : Bool :=
  match s.answer with
  | .takes n => ((min n s.dat.length : Nat) : Int) < toInt s.dat.length
  | .again => 0 < toInt s.dat.length
  | .fails _ => false

/-- Reading closes at most once, and does not find the input buffer full. -/
def readsOnce (c : TcpConnection) (io : Io) : Bool :=
  !c.inputFull &&
    (io.recv.isError || io.handler.closesWell blocks io.handler.ends.rejects)

/-- The end of a connect in progress closes at most once. -/
def connectsOnce (c : TcpConnection) (io : Io) : Bool :=
  io.connectError.isSome || flushes c.output.size (flushAnswer io) = .failed ||
    io.handler.closesWell blocks io.handler.ends.isThrow

/-- Writing closes at most once. -/
def writesOnce (c : TcpConnection) (io : Io) : Bool :=
  flushes c.output.size (flushAnswer io) ≠ .drained ||
    io.handler.closesWell blocks io.handler.ends.isSocketError

/-- The event finds the connection registered, closes it at most once, and does not bring
back a connection that has been removed. -/
def Event.orderly (c : TcpConnection) : Event → Bool
  | .readable io =>
    c.registered && if c.socket.connected then readsOnce c io else connectsOnce c io
  | .writable io =>
    c.registered && if c.socket.connected then writesOnce c io else connectsOnce c io
  | .timeout io => c.timer.isSome && (!c.socket.connected || c.timesOutOnce blocks io)
  | .close _ => c.registered
  | .send s => c.registered || !(c.socket.connected && c.output.size == 0 && blocks s)
  | .setKeepaliveTimeout msec => c.registered || msec ≤ 0
  | .pass _ | .inputLimit _ => true

variable {c : TcpConnection}

theorem onRead_adds {io : Io} (htold : c.told = false) (honce : readsOnce c io = true) :
    wp (onRead io) c (fun _ => Adds c) (fun _ => Adds c) := by
  simp only [readsOnce, Callback.closesWell, Bool.and_eq_true, Bool.or_eq_true,
    Bool.not_eq_true'] at honce
  refine read_adds quiet_send htold honce.1 (honce.2.imp_right And.left) fun e c1 hother hsame => ?_
  cases e with
  | buffer stop =>
    cases stop with
    | resourceLimit what => exact absurd rfl (hother what)
    | hangs => exact .same hsame
  | other what => exact .same hsame
  | socketError what =>
    exact wp_handleClose_notes _ _ c1 false fun c2 h2 => ⟨rfl, .close htold (hsame ▸ h2)⟩

/-- The `try` block of `onConnected`. A `socket_error` comes before the notification. -/
theorem establish_adds (hc : Ready c) (htold : c.told = false) {io : Io}
    (hcb : flushes c.output.size (flushAnswer io) = .failed ∨
      io.handler.closesOnce io.handler.ends.isThrow = true) :
    wp (establish io) c (fun _ => Adds c)
      (fun e c' => c'.notices = c.notices ∧ ∃ what, e = .socketError what) := by
  unfold establish
  rw [wp_bind]
  refine wp_mono (flush_notes hc _) (fun b (c1 : TcpConnection) h1 => ?_)
    fun e c1 h1 => ⟨h1.1, h1.2.2⟩
  obtain ⟨⟨hc1, hsame⟩, hends⟩ := h1
  have hcb : io.handler.closesOnce io.handler.ends.isThrow = true := by
    refine hcb.resolve_left fun hfailed => ?_
    rw [hends] at hfailed
    cases b <;> cases hfailed
  rw [wp_bind]
  refine wp_mono (wp_and (select_spec hc1 _ _)
    (quiet_socketSelect _ _ c1.notices c1.status c1 ⟨rfl, rfl⟩))
    (fun _ c2 h2 => ?_) fun _ _ h => h.1.elim
  have hsame2 : c2.notices = c.notices := h2.2.1.trans hsame
  have hopen : c2.told = false := by rw [told, hsame2]; exact htold
  rw [wp_bind]
  exact wp_mono (handleOnConnected_notes quiet_send io.handler _ c2)
    (fun _ _ h => .trans hsame2 (.notifies hopen rfl hcb h)) fun _ _ h => h.elim

/-- `onConnected` on a connected socket, which never throws. -/
theorem onConnected_adds (hc : Ready c) (hconn : c.socket.connected = true)
    (htold : c.told = false) {io : Io}
    (hcb : flushes c.output.size (flushAnswer io) = .failed ∨
      io.handler.closesOnce io.handler.ends.isThrow = true) (desc : String) :
    wp (onConnected desc io) c (fun _ => Adds c) (fun _ _ => False) := by
  unfold onConnected selectTimeout
  simp only [wp_bind, wp_modify, wp_get, wp_ite, wp_tryCatch]
  refine ⟨fun _ => ?_, fun h => absurd hconn h⟩
  refine wp_mono (establish_adds (c := { c with
      timer := _, status := .established, lastRecvTs := c.now })
      ⟨hc.wf, hc.valid, hc.shutdownSend, hc.shutdownRecv⟩ htold hcb)
    (fun _ _ h => h) fun e c1 h1 => ?_
  obtain ⟨hsame, what, rfl⟩ := h1
  exact wp_handleClose_notes _ _ c1 () fun c2 h2 => .close htold (hsame ▸ h2)

/-- The end of a connect in progress. -/
theorem connected_adds (hc : Ready c) (hconn : c.socket.connected = false)
    (htold : c.told = false) {io : Io} (honce : connectsOnce c io = true) :
    wp (do onConnected (← completeNonblockingConnect io.connectError) io : TcpM Unit) c
      (fun _ => Adds c) (fun _ => Adds c) := by
  simp only [connectsOnce, Callback.closesWell, Bool.and_eq_true, Bool.or_eq_true,
    decide_eq_true_eq] at honce
  rw [wp_bind]
  cases hcon : io.connectError with
  | some what =>
    unfold completeNonblockingConnect onConnected selectTimeout
    simp only [wp_pure, wp_bind, wp_modify, wp_get, wp_ite]
    refine ⟨fun h => ?_, fun _ => ?_⟩
    · rw [hconn] at h
      cases h
    · exact (wp_bind _ _ _).mp (handleClose_adds (c := { c with timer := _ }) _ _ htold ())
  | none =>
    unfold completeNonblockingConnect
    rw [wp_bind, wp_modify, wp_pure]
    have hcb := honce.imp (fun h => h.resolve_left (by rw [hcon]; exact Bool.false_ne_true))
      And.left
    refine wp_mono (onConnected_adds
      (c := { c with socket := { c.socket with connected := true } })
      ⟨hc.wf, hc.valid, hc.shutdownSend, hc.shutdownRecv⟩ rfl htold hcb _)
      (fun _ _ h => h) fun _ _ h => h.elim

/-- What an orderly event adds. -/
theorem exec_adds (hc : Ready c) (hset : Settled c) {e : Event} (he : e.orderly c = true) :
    wp e.exec c (fun _ => Adds c) (fun _ => Adds c) := by
  cases e with
  | pass sec => exact .same rfl
  | inputLimit n => exact .same rfl
  | send s =>
    exact wp_mono (callSend_notes quiet_send s c) (fun _ _ h => .same h) fun _ _ h => h.elim
  | setKeepaliveTimeout msec => exact setKeepaliveTimeout_adds msec
  | close throws => exact handleClose_adds _ throws (hset.unclosed he).untold ()
  | readable io =>
    obtain ⟨hreg, honce⟩ := Bool.and_eq_true_iff.mp he
    have hopen := (hset.unclosed hreg).untold
    unfold Event.exec handleRead
    simp only [wp_bind, wp_get, wp_ite]
    refine ⟨fun hconn => ?_, fun hconn => ?_⟩
    · rw [if_pos hconn] at honce
      exact onRead_adds hopen honce
    · rw [if_neg hconn] at honce
      exact (wp_bind _ _ _).mp (connected_adds hc (Bool.eq_false_iff.mpr hconn) hopen honce)
  | writable io =>
    obtain ⟨hreg, honce⟩ := Bool.and_eq_true_iff.mp he
    have hopen := (hset.unclosed hreg).untold
    unfold Event.exec handleWrite
    simp only [wp_bind, wp_get, wp_ite]
    refine ⟨fun hconn => ?_, fun hconn => ?_⟩
    · rw [if_pos hconn] at honce
      simp only [writesOnce, Callback.closesWell, ne_eq, decide_not, Bool.or_eq_true,
        Bool.not_eq_true', decide_eq_false_iff_not, Bool.and_eq_true] at honce
      have hflush := wp_mono (flush_notes hc (flushAnswer io))
        (fun _ _ h => And.intro h.1.2 h.2) fun _ _ h => h
      have hadds {c' : TcpConnection}
          (h : Written (flushes c.output.size (flushAnswer io)) io.handler c c') : Adds c c' :=
        h.adds hopen fun hdrained => (honce.resolve_left (not_not_intro hdrained)).1
      exact wp_mono (onWrite_notes quiet_send io c hflush) (fun _ _ h => hadds h)
        fun _ _ h => hadds h
    · rw [if_neg hconn] at honce
      exact (wp_bind _ _ _).mp (connected_adds hc (Bool.eq_false_iff.mpr hconn) hopen honce)
  | timeout io =>
    obtain ⟨htimer, honce⟩ := Bool.and_eq_true_iff.mp he
    have hopen := (hset.unclosed_of_timer htimer).untold
    unfold Event.exec handleTimeout
    simp only [wp_bind, wp_get, wp_ite]
    refine ⟨fun hconn => ?_, fun hconn => ?_⟩
    · rw [hconn] at honce
      unfold onTimeout
      rw [wp_bind, wp_get]
      cases hside : c.side with
      | server => exact onTimeout_adds io hopen
      | client =>
        exact clientOnTimeout_adds quiet_send io hopen fun hlate =>
          (timesOutOnce_iff.mp honce hside hlate).1
    · unfold onConnected selectTimeout
      simp only [wp_bind, wp_modify, wp_get, wp_ite]
      exact ⟨fun h => absurd h hconn, fun _ => (wp_bind _ _ _).mp
        (handleClose_adds (c := { c with timer := _ }) _ _ hopen ())⟩

/-! ## What an event leaves -/

theorem keeps_unclosed_callSend (s : SendCall) : Keeps Unclosed (callSend send s) :=
  unclosed_outputFree.keeps_callSend (keeps_send unclosed_outputFree s)

theorem onOutput_settled {α : Type} (x : BufferM α) (hc : Settled c) :
    wp (onOutput x) c (fun _ => Settled) (fun _ => Settled) := by
  rw [wp_onOutput]
  exact wp_mono (Q := fun _ _ => True) (E := fun _ _ => True) (by unfold wp; split <;> trivial)
    (fun _ _ _ => hc.rest rfl rfl rfl) fun _ _ _ => hc.rest rfl rfl rfl

/-- A `send` that does not ask for the write event. -/
theorem callSend_settled {s : SendCall} (hc : Settled c)
    (h : (c.socket.connected && c.output.size == 0 && blocks s) = false) :
    wp (callSend send s) c (fun _ => Settled) (fun _ => Settled) := by
  have hwrite : wp (sendOrWrite s) c (fun _ => Settled) (fun _ => Settled) := by
    unfold sendOrWrite
    rw [wp_bind, wp_get, wp_ite]
    refine ⟨fun hempty => ?_, fun _ => ?_⟩
    · -- the kernel takes all of it, or it fails
      have hall : blocks s = false := by rwa [hempty, Bool.true_and] at h
      unfold blocks at hall
      unfold socketSend
      cases hanswer : s.answer with
      | takes n =>
        rw [hanswer] at hall
        simp only [wp_bind, wp_modify, wp_pure, wp_ite]
        exact ⟨fun hlt => absurd hlt (of_decide_eq_false hall), fun _ => hc.rest rfl rfl rfl⟩
      | again =>
        rw [hanswer] at hall
        simp only [wp_bind, wp_pure, wp_ite]
        exact ⟨fun hlt => absurd hlt (of_decide_eq_false hall), fun _ => hc⟩
      | fails what => exact hc
    · rw [wp_ite]
      refine ⟨fun _ => ?_, fun _ => hc⟩
      rw [wp_bind]
      exact onOutput_settled _ hc
  unfold callSend send
  simp only [wp_bind, wp_tryCatch, wp_pure, wp_modify, wp_get]
  exact wp_mono hwrite (fun _ _ h => h.rest rfl rfl rfl) fun _ _ h => h.rest rfl rfl rfl

theorem keeps_settled_callSend {s : SendCall} (h : blocks s = false) :
    Keeps Settled (callSend send s) := fun _ hc =>
  callSend_settled hc (by rw [h, Bool.and_false])

theorem onRead_settled {io : Io} (hc : Unclosed c) (honce : readsOnce c io = true) :
    wp (onRead io) c (fun _ => Settled) (fun _ => Settled) := by
  simp only [readsOnce, Callback.closesWell, Bool.and_eq_true, Bool.or_eq_true,
    Bool.not_eq_true'] at honce
  refine read_settles keeps_unclosed_callSend (fun _ => keeps_settled_callSend) hc honce.1
    (honce.2.imp_right And.right) fun e c1 hother h1 => ?_
  cases e with
  | buffer stop =>
    cases stop with
    | resourceLimit what => exact absurd rfl (hother what)
    | hangs => exact h1.settled
  | other what => exact h1.settled
  | socketError what =>
    exact (wp_bind _ _ _).mpr (wp_mono (handleClose_settles _ io.onCloseThrows h1.marked)
      (fun _ _ h => ⟨rfl, h⟩) fun _ _ h => h)

/-- The `try` block of `onConnected`. -/
theorem establish_settled (hready : Ready c) (hc : Unclosed c) {io : Io}
    (hcb : flushes c.output.size (flushAnswer io) = .failed ∨
      Act.releases blocks io.handler.acts = true) :
    wp (establish io) c (fun _ => Settled) (fun _ => Settled) := by
  unfold establish
  rw [wp_bind]
  refine wp_mono (wp_and (flush_notes hready _) (keeps_flush_free unclosed_outputFree _ c hc))
    (fun b (c1 : TcpConnection) h1 => ?_) fun e c1 h1 => h1.2.settled
  have hreleases : Act.releases blocks io.handler.acts = true := by
    refine hcb.resolve_left fun hfailed => ?_
    rw [h1.1.2] at hfailed
    cases b <;> cases hfailed
  refine Settles.after (unclosed_outputFree.select _ _) (fun _ => ?_) c1 h1.2
  exact .bind (handleOnConnected_settles keeps_unclosed_callSend (fun _ => keeps_settled_callSend)
    hreleases _) fun _ => keeps_pure ()

theorem onConnected_settled (hready : Ready c) (hc : Unclosed c) {io : Io}
    (hcb : c.socket.connected = true → flushes c.output.size (flushAnswer io) = .failed ∨
      Act.releases blocks io.handler.acts = true) (desc : String) :
    wp (onConnected desc io) c (fun _ => Settled) (fun _ => Settled) := by
  unfold onConnected selectTimeout
  simp only [wp_bind, wp_modify, wp_get, wp_ite, wp_tryCatch]
  refine ⟨fun hconn => ?_, fun _ => (wp_bind _ _ _).mp
    (settles_close _ _ () { c with timer := _ } ⟨hc.marked, hc.untold⟩)⟩
  refine wp_mono (establish_settled (c := { c with
      timer := _, status := .established, lastRecvTs := c.now })
      ⟨hready.wf, hready.valid, hready.shutdownSend, hready.shutdownRecv⟩
      ⟨hc.marked, hc.untold⟩ (hcb hconn)) (fun _ _ h => h) fun e c1 h1 => ?_
  cases e with
  | socketError what => exact keeps_bind (keeps_settled_close _ _) (fun _ => keeps_pure ()) c1 h1
  | buffer stop => exact h1
  | other what => exact h1

/-- The end of a connect in progress. -/
theorem connected_settled (hready : Ready c) (hc : Unclosed c) (hconn : c.socket.connected = false)
    {io : Io} (honce : connectsOnce c io = true) :
    wp (do onConnected (← completeNonblockingConnect io.connectError) io : TcpM Unit) c
      (fun _ => Settled) (fun _ => Settled) := by
  simp only [connectsOnce, Callback.closesWell, Bool.and_eq_true, Bool.or_eq_true,
    decide_eq_true_eq] at honce
  rw [wp_bind]
  cases hcon : io.connectError with
  | some what =>
    refine onConnected_settled hready hc (fun h => ?_) what
    rw [hconn] at h
    cases h
  | none =>
    refine onConnected_settled (c := { c with socket := { c.socket with connected := true } })
      ⟨hready.wf, hready.valid, hready.shutdownSend, hready.shutdownRecv⟩ ⟨hc.marked, hc.untold⟩
      (fun _ => honce.imp (fun h => h.resolve_left ?_) And.right) _
    rw [hcon]
    exact Bool.false_ne_true

/-- **An orderly event** leaves a connection that is removed if its close has been told. -/
theorem exec_settled (hready : Ready c) (hset : Settled c) {e : Event}
    (he : e.orderly c = true) : wp e.exec c (fun _ => Settled) (fun _ => Settled) := by
  cases e with
  | pass sec => exact hset.rest rfl rfl rfl
  | inputLimit n => exact hset.rest rfl rfl rfl
  | send s =>
    cases hreg : c.registered with
    | true => exact Settles.of_unclosed (keeps_unclosed_callSend s) c (hset.unclosed hreg)
    | false =>
      simp only [Event.orderly, hreg, Bool.false_or, Bool.not_eq_true'] at he
      exact callSend_settled hset he
  | setKeepaliveTimeout msec => exact setKeepaliveTimeout_settled hset he
  | close throws => exact keeps_bind (keeps_settled_close _ throws) (fun _ => keeps_pure ()) c hset
  | readable io =>
    obtain ⟨hreg, honce⟩ := Bool.and_eq_true_iff.mp he
    have hc := hset.unclosed hreg
    unfold Event.exec handleRead
    simp only [wp_bind, wp_get, wp_ite]
    refine ⟨fun hconn => ?_, fun hconn => ?_⟩
    · rw [if_pos hconn] at honce
      exact onRead_settled hc honce
    · rw [if_neg hconn] at honce
      exact (wp_bind _ _ _).mp (connected_settled hready hc (Bool.eq_false_iff.mpr hconn) honce)
  | writable io =>
    obtain ⟨hreg, honce⟩ := Bool.and_eq_true_iff.mp he
    have hc := hset.unclosed hreg
    unfold Event.exec handleWrite
    simp only [wp_bind, wp_get, wp_ite]
    refine ⟨fun hconn => ?_, fun hconn => ?_⟩
    · rw [if_pos hconn] at honce
      simp only [writesOnce, Callback.closesWell, ne_eq, decide_not, Bool.or_eq_true,
        Bool.not_eq_true', decide_eq_false_iff_not, Bool.and_eq_true] at honce
      refine onWrite_settles keeps_unclosed_callSend (fun _ => keeps_settled_callSend) ?_
      refine wp_mono (wp_and (flush_notes hready _) (keeps_flush_free unclosed_outputFree _ c hc))
        (fun b _ h1 => ⟨h1.2, fun hb => ?_⟩) fun _ _ h1 => h1.2
      subst hb
      exact (honce.resolve_left (not_not_intro h1.1.2)).2
    · rw [if_neg hconn] at honce
      exact (wp_bind _ _ _).mp (connected_settled hready hc (Bool.eq_false_iff.mpr hconn) honce)
  | timeout io =>
    obtain ⟨htimer, honce⟩ := Bool.and_eq_true_iff.mp he
    have hc := hset.unclosed_of_timer htimer
    unfold Event.exec handleTimeout
    simp only [wp_bind, wp_get, wp_ite]
    refine ⟨fun hconn => ?_, fun hconn => ?_⟩
    · rw [hconn] at honce
      unfold onTimeout
      rw [wp_bind, wp_get]
      cases hside : c.side with
      | server => exact onTimeout_settles io c hc
      | client =>
        exact clientOnTimeout_settles keeps_unclosed_callSend (fun _ => keeps_settled_callSend) hc
          fun hlate => (timesOutOnce_iff.mp honce hside hlate).2
    · exact onConnected_settled hready hc (fun h => absurd h hconn) _

/-! ## Runs of a TCP connection -/

/-- Creating the connection closes it at most once. -/
def Start.orderly : Start → Bool
  | .accepted _ handler => handler.closesWell blocks false
  | .client _ .done io => io.handler.closesWell blocks io.handler.ends.isThrow
  | .client _ .pending _ | .client _ (.fails _) _ => true

/-- Only the constructors set the status that the manager looks for. -/
theorem status_receiveInv : ReceiveInv fun c : TcpConnection => c.status ≠ .socketError where
  toControlInv := statusInv.control
  toOutputFree := status_outputFree
  established _ _ := Status.noConfusion
  connected _ hc := hc

theorem quiet_accept (msec : Int) : Quiet (accept msec) := by
  intro ns st
  refine keeps_bind (keeps_modify fun _ hc => hc) fun _ => ?_
  refine keeps_bind (quiet_socketSelect _ _ ns st) fun _ => keeps_ite ?_ (keeps_pure ())
  exact keeps_modify fun _ hc => hc

/-- A constructor that does not connect at once notifies nobody. -/
theorem connect_same (msec : Int) {answer : ConnectAnswer} (hans : answer ≠ .done) (io : Io)
    (hconn : c.socket.connected = false) :
    wp (connect msec answer io) c (fun _ c' => c'.notices = c.notices)
      (fun _ c' => c'.notices = c.notices) := by
  have hselect : selConnecting &&& selConnecting ≠ selNone := by decide
  unfold connect select doConnect selectTimeout socketRemove
  simp only [if_pos hselect]
  cases answer with
  | done => exact absurd rfl hans
  | pending =>
    simp only [wp_tryCatch, wp_bind, wp_modify, wp_get, wp_ite]
    refine ⟨fun h => ?_, fun _ => ?_⟩
    · rw [hconn] at h
      cases h
    · exact wp_mono (quiet_socketSelect _ _ c.notices c.status _ ⟨rfl, rfl⟩) (fun _ _ h => h.1)
        fun _ _ h => h.1
  | fails what =>
    simp only [wp_tryCatch, wp_bind, wp_modify, wp_throw]

/-- `createTcpConnection` for a new object. -/
theorem createTcpConnection_adds (msec : Int) {handler : Callback} (htold : c.told = false)
    (honce : handler.closesOnce false = true) :
    wp (createTcpConnection msec handler) c (fun _ => Adds c) (fun _ => Adds c) := by
  unfold createTcpConnection
  rw [wp_bind]
  refine wp_mono (quiet_accept msec c.notices c.status c ⟨rfl, rfl⟩) (fun _ c1 h1 => ?_)
    fun _ _ h => .same h.1
  have hnotified {c2 : TcpConnection}
      (h : c2.notices = c1.notices ++ .onConnected :: handler.notices) : Adds c c2 :=
    .notifies htold rfl honce (.of_eq (h1.1 ▸ h))
  rw [wp_bind, wp_modify]
  exact wp_notify_callback quiet_send _ handler { c1 with managed := true } _
    (fun _ _ _ h => hnotified h) fun _ _ _ h => hnotified h

/-- `createTcpClient` for a new object. -/
theorem createTcpClient_adds (msec : Int) {answer : ConnectAnswer} {io : Io}
    (hc : Ready { c with socket := { c.socket with valid := true, connected := true } })
    (hconn : c.socket.connected = false) (hstatus : c.status ≠ .socketError)
    (htold : c.told = false) (honce : Start.orderly (.client msec answer io) = true) :
    wp (createTcpClient msec answer io) c (fun _ => Adds c) (fun _ => Adds c) := by
  unfold createTcpClient
  rw [wp_bind]
  by_cases hdone : answer = .done
  · subst hdone
    have hselect : selConnecting &&& selConnecting ≠ selNone := by decide
    unfold connect select doConnect
    simp only [if_pos hselect, wp_tryCatch, wp_bind, wp_modify, wp_get, wp_ite]
    refine ⟨fun _ => ?_, fun h => absurd trivial h⟩
    refine wp_mono (wp_and (onConnected_adds hc rfl htold
      (Or.inr (Bool.and_eq_true_iff.mp honce).1) _)
      (keeps_onConnected status_receiveInv _ io _ hstatus)) (fun _ c1 h1 => ?_)
      fun _ _ h => h.1.elim
    exact ⟨fun h => absurd h h1.2, fun _ => h1.1⟩
  · refine wp_mono (connect_same msec hdone io hconn) (fun _ c1 h1 => ?_) fun _ _ h => .same h
    rw [wp_bind, wp_get, wp_ite]
    exact ⟨fun _ => .close htold (congrArg (· ++ [_]) h1), fun _ => .same h1⟩

/-- What a new connection has told. -/
theorem start_closeLast (now : Int) (stackIn stackOut : Nat → UInt8) {start : Start}
    (honce : start.orderly = true) :
    CloseLast (start.connection now stackIn stackOut).notices := by
  cases start with
  | accepted msec handler =>
    exact Adds.closeLast (c := { Connection.new .server msec .established now stackIn
      (ByteBuffer.new true stackOut) with lastRecvTs := now })
      (after_of_wp (createTcpConnection_adds msec rfl (Bool.and_eq_true_iff.mp honce).1)) .nil
  | client msec answer io =>
    have hready := (new_sound .client 0 .connectting now stackIn stackOut 0
      { Socket.new with valid := true, connected := true } rfl rfl rfl).ready
    exact Adds.closeLast (c := Connection.new .client 0 .connectting now stackIn
      (ByteBuffer.new true stackOut))
      (after_of_wp (createTcpClient_adds msec hready rfl Status.noConfusion rfl honce)) .nil

theorem createTcpConnection_settles (msec : Int) {handler : Callback}
    (h : Act.releases blocks handler.acts = true) : Settles (createTcpConnection msec handler) := by
  refine .after (keeps_bind (keeps_modify fun _ hc => ⟨hc.marked, hc.untold⟩) fun _ => ?_)
    fun _ => ?_
  · exact keeps_bind (unclosed_outputFree.select _ _) fun _ =>
      keeps_ite (keeps_unclosed_timeout _) (keeps_pure ())
  · refine .after (keeps_modify fun _ hc => ⟨hc.marked, hc.untold⟩) fun _ => ?_
    exact notify_settles keeps_unclosed_callSend (fun _ => keeps_settled_callSend) rfl h fun _ =>
      keeps_pure ()

/-- A constructor that fails removes the connection. -/
theorem connect_settled (msec : Int) {answer : ConnectAnswer} {io : Io}
    (hready : Ready { c with socket := { c.socket with valid := true, connected := true } })
    (hconn : c.socket.connected = false) (hstatus : c.status ≠ .socketError) (hc : Unclosed c)
    (honce : Start.orderly (.client msec answer io) = true) :
    wp (connect msec answer io) c
      (fun _ c' => Settled c' ∧ (c'.status = .socketError → Removed c')) (fun _ _ => False) := by
  have hselect : selConnecting &&& selConnecting ≠ selNone := by decide
  have hcatch (c1 : TcpConnection) (h1 : Marked c1) : wp (do
      modify fun c => { c with status := .socketError }
      selectTimeout (-1)
      socketRemove : TcpM Unit) c1
      (fun _ c' => Settled c' ∧ (c'.status = .socketError → Removed c')) (fun _ _ => False) := by
    have hreg : c1.socket.remove.epoll.isSome = false := by rw [Socket.remove_epoll h1]; rfl
    have hremoved : Removed { c1 with
        status := .socketError, timer := none, socket := c1.socket.remove } := ⟨hreg, rfl⟩
    exact ⟨⟨fun h => absurd h (Bool.eq_false_iff.mp hreg), fun _ => hremoved⟩, fun _ => hremoved⟩
  unfold connect
  rw [wp_tryCatch]
  refine wp_mono (Q := fun _ c' => Settled c' ∧ c'.status ≠ .socketError) (E := fun _ => Settled)
    ?_ (fun _ c1 h1 => ⟨h1.1, fun h => absurd h h1.2⟩) fun _ c1 h1 => hcatch c1 h1.marked
  unfold select
  simp only [if_pos hselect]
  cases answer with
  | done =>
    unfold doConnect
    simp only [wp_bind, wp_modify, wp_get, wp_ite]
    refine ⟨fun _ => ?_, fun h => absurd trivial h⟩
    exact wp_mono (wp_and (onConnected_settled hready ⟨hc.marked, hc.untold⟩
        (fun _ => Or.inr (Bool.and_eq_true_iff.mp honce).2) _)
      (keeps_onConnected status_receiveInv _ io _ hstatus)) (fun _ _ h => h) fun _ _ h => h.1
  | pending =>
    unfold doConnect selectTimeout
    simp only [wp_bind, wp_modify, wp_get, wp_ite]
    refine ⟨fun h => ?_, fun _ => ?_⟩
    · rw [hconn] at h
      cases h
    · exact wp_mono (wp_and (unclosed_outputFree.select _ _ _ ⟨hc.marked, hc.untold⟩)
        ((quiet_socketSelect _ _).keeps_status _ hstatus)) (fun _ _ h => ⟨h.1.settled, h.2⟩)
        fun _ _ h => h.1.settled
  | fails what =>
    unfold doConnect
    simp only [wp_bind, wp_modify, wp_throw]
    exact Unclosed.settled ⟨hc.marked, hc.untold⟩

theorem createTcpClient_settled (msec : Int) {answer : ConnectAnswer} {io : Io}
    (hready : Ready { c with socket := { c.socket with valid := true, connected := true } })
    (hconn : c.socket.connected = false) (hstatus : c.status ≠ .socketError) (hc : Unclosed c)
    (honce : Start.orderly (.client msec answer io) = true) :
    wp (createTcpClient msec answer io) c (fun _ => Settled) (fun _ => Settled) := by
  unfold createTcpClient
  rw [wp_bind]
  refine wp_mono (connect_settled msec hready hconn hstatus hc honce) (fun _ c1 h1 => ?_)
    fun _ _ h => h.elim
  rw [wp_bind, wp_get, wp_ite]
  refine ⟨fun h => ?_, fun _ => h1.1.rest rfl rfl rfl⟩
  have hremoved := h1.2 h
  exact ⟨h1.1.marked, fun _ => ⟨hremoved.unregistered, hremoved.untimed⟩⟩

theorem start_settled (now : Int) (stackIn stackOut : Nat → UInt8) {start : Start}
    (honce : start.orderly = true) : Settled (start.connection now stackIn stackOut) := by
  cases start with
  | accepted msec handler =>
    refine after_of_wp
      (createTcpConnection_settles msec (Bool.and_eq_true_iff.mp honce).2 _ ⟨?_, rfl⟩)
    exact fun h => by cases h
  | client msec answer io =>
    have hready := (new_sound .client 0 .connectting now stackIn stackOut 0
      { Socket.new with valid := true, connected := true } rfl rfl rfl).ready
    refine after_of_wp (createTcpClient_settled msec hready rfl Status.noConfusion ⟨?_, rfl⟩ honce)
    exact fun h => by cases h

/-- **A TCP connection tells once and finally that it is closed**, in every run whose
creation and events are orderly: what has been closed is removed. -/
theorem tcp_closed_once (now : Int) (stackIn stackOut : Nat → UInt8) {start : Start}
    {events : List Event} {c : TcpConnection} (hstart : start.orderly = true)
    (hevents : (machine now stackIn stackOut start).AllSteps (fun c e => e.orderly c = true)
      (machine now stackIn stackOut start).init events)
    (hrun : (machine now stackIn stackOut start).run
      (machine now stackIn stackOut start).init events = some c) :
    CloseLast c.notices ∧ Settled c := by
  refine (Machine.run_invariant _ (P := fun c => Inv c ∧ CloseLast c.notices ∧ Settled c)
    (fun c e c' hc he hstep => ?_) events
    ⟨start_inv now stackIn stackOut start, start_closeLast now stackIn stackOut hstart,
      start_settled now stackIn stackOut hstart⟩ hevents hrun).2
  obtain ⟨hinv, hlast, hset⟩ := hc
  obtain rfl := Option.some.inj hstep
  exact ⟨after_of_wp (keeps_exec e c hinv),
    Adds.closeLast (after_of_wp (exec_adds hinv.ready hset he)) hlast,
    after_of_wp (exec_settled hinv.ready hset he)⟩

end TcpConnection

namespace UdpConnection

open Connection

section OutputFree

variable {I : UdpConnection → Prop} (hI : OutputFree I)

include hI

theorem keeps_pushBack (dat : List UInt8) : Keeps I (pushBack dat) :=
  keeps_modify fun c hc => hI.output c c.wire _ c.lastSendTs c.sendBytes c.sentBytes hc

theorem keeps_send (s : SendCall) : Keeps I (send s) := by
  refine keeps_bind (keeps_tryCatch ?_ fun _ => keeps_pure ()) fun _ =>
    keeps_bind keeps_get fun _ => keeps_pure _
  have hdone : Keeps I (modify fun c =>
      { c with
        lastSendTs := c.now
        sendBytes := c.sendBytes + UInt64.ofNat s.dat.length } : UdpM Unit) :=
    keeps_modify fun c hc => hI.output c c.wire c.output _ _ c.sentBytes hc
  refine keeps_bind keeps_get fun c => keeps_ite ?_ ?_
  · refine keeps_bind (hI.keeps_socketSend _ _) fun n => ?_
    have hcount : Keeps I (do
        modify fun c => { c with sentBytes := c.sentBytes + UInt64.ofNat n }
        modify fun c =>
          { c with
            lastSendTs := c.now
            sendBytes := c.sendBytes + UInt64.ofNat s.dat.length } : UdpM Unit) :=
      keeps_bind (keeps_modify fun c hc =>
        hI.output c c.wire c.output c.lastSendTs c.sendBytes _ hc) fun _ => hdone
    refine keeps_ite ?_ hcount
    exact keeps_bind (keeps_pushBack hI _) fun _ => keeps_bind (hI.select _ _) fun _ => hcount
  · exact keeps_ite (keeps_bind (keeps_pushBack hI _) fun _ => hdone) hdone

theorem keeps_flushLoop : ∀ answers : List Answer, Keeps I (flushLoop answers)
  | [] => keeps_pure ()
  | answer :: answers => by
      refine keeps_bind keeps_get fun c => ?_
      cases c.output with
      | nil => exact keeps_pure ()
      | cons dat rest =>
        refine keeps_bind (hI.keeps_socketSend dat answer) fun n => keeps_ite (keeps_pure ()) ?_
        refine keeps_bind (keeps_modify fun c hc =>
          hI.output c c.wire rest c.lastSendTs c.sendBytes _ hc) fun _ => ?_
        exact keeps_ite (hI.select _ _) (keeps_flushLoop answers)

theorem keeps_flush (answers : List Answer) : Keeps I (flush answers) :=
  keeps_bind (keeps_flushLoop hI answers) fun _ => keeps_bind keeps_get fun _ => keeps_pure _

end OutputFree

theorem quiet_send (s : SendCall) : Quiet (send s) := fun ns st =>
  keeps_send (quiet_outputFree ns st) s

theorem quiet_flush (answers : List Answer) : Quiet (flush answers) := fun ns st =>
  keeps_flush (quiet_outputFree ns st) answers

theorem opened_outputFree : OutputFree (Opened : UdpConnection → Prop) where
  select remove add _ hc :=
    wp_mono (socketSelect_opened hc remove add) (fun _ _ h => h.elim fun _ h => h.2.1)
      fun _ _ h => h.elim
  output _ _ _ _ _ _ hc := ⟨hc.valid, hc.shutdownSend, hc.shutdownRecv⟩
  sends _ _ hc := ⟨hc.valid, hc.shutdownSend, hc.shutdownRecv⟩

/-- The kernel takes nothing, so the write event is asked for. -/
def blocks (s : SendCall) : Bool :=
  match s.answer with
  | .takes n => min n s.dat.length = 0
  | .again => true
  | .fails _ => false

/-- Reading closes at most once, and does not find the input buffer full. -/
def readsOnce (c : UdpConnection) (io : Io) : Bool :=
  !c.inputFull &&
    (io.recv.isError || io.handler.closesWell blocks io.handler.ends.rejects)

/-- Writing closes at most once. -/
def writesOnce (c : UdpConnection) (io : Io) : Bool :=
  flushes c.output io.answers ≠ .drained ||
    io.handler.closesWell blocks io.handler.ends.isSocketError

/-- The event finds the connection registered, closes it at most once, and does not bring
back a connection that has been removed. -/
def Event.orderly (c : UdpConnection) : Event → Bool
  | .readable io => c.registered && (!c.socket.connected || readsOnce c io)
  | .writable io => c.registered && (!c.socket.connected || writesOnce c io)
  | .timeout io => c.timer.isSome && (!c.socket.connected || c.timesOutOnce blocks io)
  | .datagram _ handler => !c.managed || (c.registered && handler.closesWell blocks false)
  | .close _ => c.registered
  | .send s => c.registered || !(c.socket.connected && c.output.isEmpty && blocks s)
  | .setKeepaliveTimeout msec => c.registered || msec ≤ 0
  | .pass _ => true

/-- Creating the connection closes it at most once, and not in `onConnected` if `onData`
follows. -/
def Start.orderly : Start → Bool
  | .accepted _ _ connected received =>
    if connected.ends.isThrow then connected.closesWell blocks false
    else connected.closes = 0 && received.closesWell blocks false
  | .client (.fails _) _ => true
  | .client .done io | .client .pending io => io.handler.closesWell blocks io.handler.ends.isThrow

variable {c : UdpConnection}

theorem onRead_adds {io : Io} (htold : c.told = false) (honce : readsOnce c io = true) :
    wp (onRead io) c (fun _ => Adds c) (fun _ => Adds c) := by
  simp only [readsOnce, Callback.closesWell, Bool.and_eq_true, Bool.or_eq_true,
    Bool.not_eq_true'] at honce
  refine read_adds quiet_send htold honce.1 (honce.2.imp_right And.left) fun e c1 hother hsame => ?_
  cases e with
  | buffer stop =>
    cases stop with
    | resourceLimit what => exact absurd rfl (hother what)
    | hangs => exact .same hsame
  | other what => exact .same hsame
  | socketError what => exact ⟨rfl, .same hsame⟩

/-- What `flush` finds, in terms of the queue and the kernel's answers. -/
theorem flush_notes (hc : Opened c) (answers : List Answer) :
    wp (flush answers) c
      (fun b c' => c'.notices = c.notices ∧
        flushes c.output answers = if b then .drained else .blocked)
      (fun e c' => c'.notices = c.notices ∧ flushes c.output answers = .failed ∧
        ∃ what, e = .socketError what) :=
  wp_mono (flush_spec hc answers) (fun _ _ h => ⟨h.1.notices, h.2.2⟩)
    fun _ _ h => ⟨h.1.notices, h.2⟩

theorem keeps_establish {I : UdpConnection → Prop} (hI : OutputFree I) (io : Io) :
    Keeps I (establish io) :=
  keeps_bind (keeps_flush hI _) fun _ => hI.select _ _

/-- The end of a connect in progress notifies nobody, and the socket stays open. -/
theorem keeps_onConnected {I : UdpConnection → Prop} (hI : OutputFree I)
    (hstatus : ∀ c : UdpConnection, I c → I { c with status := .established }) (io : Io) :
    Keeps I (onConnected io) := by
  refine keeps_bind keeps_get fun c => keeps_ite ?_ (keeps_pure ())
  refine keeps_bind (keeps_modify hstatus) fun _ =>
    keeps_tryCatch (keeps_establish hI io) fun e => ?_
  cases e with
  | socketError what => exact keeps_pure ()
  | buffer stop => exact keeps_throw _
  | other what => exact keeps_throw _

/-- `I` does not depend on whether the socket is connected. -/
theorem keeps_connected {I : UdpConnection → Prop} (hI : OutputFree I)
    (hstatus : ∀ c : UdpConnection, I c → I { c with status := .established })
    (hconnected : ∀ c : UdpConnection, I c →
      I { c with socket := { c.socket with connected := true } }) (io : Io) :
    Keeps I (do
      let _ ← completeNonblockingConnect io.connectError
      onConnected io : UdpM Unit) := by
  refine keeps_bind ?_ fun _ => keeps_onConnected hI hstatus io
  cases io.connectError with
  | some what => exact keeps_pure what
  | none => exact keeps_bind (keeps_modify hconnected) fun _ => keeps_pure _

theorem notices_outputFree (ns : List Notice) :
    OutputFree fun c : UdpConnection => c.notices = ns where
  select _ _ := (quiet_socketSelect _ _).keeps_notices ns
  output _ _ _ _ _ _ hc := hc
  sends _ _ hc := hc

section ReceiveInv

variable {I : UdpConnection → Prop} (hI : ReceiveInv I)

include hI

theorem keeps_callSend (s : SendCall) : Keeps I (callSend send s) :=
  hI.keeps_callSend (keeps_send hI.toOutputFree s)

theorem keeps_handleWrite (io : Io) : Keeps I (handleWrite io) := by
  refine keeps_bind keeps_get fun c =>
    keeps_ite ?_ (keeps_connected hI.toOutputFree hI.established hI.connected io)
  exact keeps_onWrite hI.toControlInv (keeps_callSend hI) (keeps_flush hI.toOutputFree _) io

theorem keeps_handleTimeout (io : Io) : Keeps I (handleTimeout io) := by
  refine keeps_bind keeps_get fun c =>
    keeps_ite ?_ (keeps_onConnected hI.toOutputFree hI.established io)
  refine keeps_bind keeps_get fun c => ?_
  cases c.side with
  | server => exact Connection.keeps_onTimeout hI.toControlInv io
  | client => exact keeps_clientOnTimeout hI.toControlInv (keeps_callSend hI) io

end ReceiveInv

theorem opened_receiveInv : ReceiveInv (Opened : UdpConnection → Prop) where
  toControlInv := opened_outputInv.control
  toOutputFree := opened_outputFree
  established _ hc := ⟨hc.valid, hc.shutdownSend, hc.shutdownRecv⟩
  connected _ hc := ⟨hc.valid, hc.shutdownSend, hc.shutdownRecv⟩

/-- Every event leaves the socket open. -/
theorem keeps_opened (e : Event) : Keeps Opened e.exec := by
  have hsend := keeps_callSend opened_receiveInv
  cases e with
  | pass sec => exact keeps_modify fun _ hc => ⟨hc.valid, hc.shutdownSend, hc.shutdownRecv⟩
  | readable io =>
    refine keeps_bind keeps_get fun c => keeps_ite ?_
      (keeps_connected opened_outputFree opened_receiveInv.established
        opened_receiveInv.connected io)
    refine keeps_bind (keeps_modify fun _ hc => ⟨hc.valid, hc.shutdownSend, hc.shutdownRecv⟩)
      fun _ => keeps_bind (keeps_tryCatch ?_ fun e => ?_) fun goOn => keeps_ite ?_ (keeps_pure ())
    · exact keeps_bind (keeps_receive opened_outputInv.inputFree io) fun _ => keeps_pure true
    · match e with
      | .buffer (.resourceLimit _) =>
        exact keeps_bind (keeps_handleClose opened_outputInv.control.quiet rfl _) fun _ =>
          keeps_pure true
      | .socketError _ => exact keeps_pure false
      | .buffer .hangs => exact keeps_throw _
      | .other _ => exact keeps_throw _
    · exact keeps_deliver opened_outputInv.inputFree opened_outputInv.control.quiet hsend io
  | writable io => exact keeps_handleWrite opened_receiveInv io
  | timeout io => exact keeps_handleTimeout opened_receiveInv io
  | datagram dat handler =>
    refine keeps_bind keeps_get fun c => keeps_ite ?_ (keeps_pure ())
    exact keeps_bind (keeps_notify opened_outputInv.inputFree _) fun _ =>
      keeps_bind (keeps_callback opened_outputInv.control.quiet hsend _) fun _ => keeps_pure ()
  | close throws => exact keeps_close opened_outputInv.control.quiet throws
  | send s => exact hsend s
  | setKeepaliveTimeout msec => exact keeps_setKeepaliveTimeout opened_outputInv.control msec

/-- The end of a connect in progress notifies nobody. -/
theorem connected_adds (io : Io) : wp (do
    let _ ← completeNonblockingConnect io.connectError
    onConnected io : UdpM Unit) c (fun _ => Adds c) (fun _ => Adds c) :=
  wp_mono (keeps_connected (notices_outputFree c.notices) (fun _ h => h) (fun _ h => h) io c rfl)
    (fun _ _ h => .same h) fun _ _ h => .same h

/-- What an orderly event adds. -/
theorem exec_adds (hc : Opened c) (hset : Settled c) {e : Event} (he : e.orderly c = true) :
    wp e.exec c (fun _ => Adds c) (fun _ => Adds c) := by
  have hwhen {b : Bool} (h : (!c.socket.connected || b) = true)
      (hconn : c.socket.connected = true) : b = true := by
    rw [hconn] at h
    exact h
  cases e with
  | pass sec => exact .same rfl
  | send s =>
    exact wp_mono (callSend_notes quiet_send s c) (fun _ _ h => .same h) fun _ _ h => h.elim
  | setKeepaliveTimeout msec => exact setKeepaliveTimeout_adds msec
  | close throws => exact handleClose_adds _ throws (hset.unclosed he).untold ()
  | readable io =>
    obtain ⟨hreg, honce⟩ := Bool.and_eq_true_iff.mp he
    unfold Event.exec handleRead
    rw [wp_bind, wp_get, wp_ite]
    exact ⟨fun hconn => onRead_adds (hset.unclosed hreg).untold (hwhen honce hconn),
      fun _ => connected_adds io⟩
  | writable io =>
    obtain ⟨hreg, honce⟩ := Bool.and_eq_true_iff.mp he
    unfold Event.exec handleWrite
    rw [wp_bind, wp_get, wp_ite]
    refine ⟨fun hconn => ?_, fun _ => connected_adds io⟩
    have honce := hwhen honce hconn
    simp only [writesOnce, Callback.closesWell, ne_eq, decide_not, Bool.or_eq_true,
      Bool.not_eq_true', decide_eq_false_iff_not, Bool.and_eq_true] at honce
    have hadds {c' : UdpConnection}
        (h : Written (flushes c.output io.answers) io.handler c c') : Adds c c' :=
      h.adds (hset.unclosed hreg).untold fun hdrained =>
        (honce.resolve_left (not_not_intro hdrained)).1
    exact wp_mono (onWrite_notes quiet_send io c (flush_notes hc io.answers))
      (fun _ _ h => hadds h) fun _ _ h => hadds h
  | timeout io =>
    obtain ⟨htimer, honce⟩ := Bool.and_eq_true_iff.mp he
    have hopen := (hset.unclosed_of_timer htimer).untold
    unfold Event.exec handleTimeout
    rw [wp_bind, wp_get, wp_ite]
    refine ⟨fun hconn => ?_, fun _ => ?_⟩
    · unfold onTimeout
      rw [wp_bind, wp_get]
      cases hside : c.side with
      | server => exact onTimeout_adds io hopen
      | client =>
        exact clientOnTimeout_adds quiet_send io hopen fun hlate =>
          (timesOutOnce_iff.mp (hwhen honce hconn) hside hlate).1
    · exact wp_mono (keeps_onConnected (notices_outputFree c.notices) (fun _ h => h) io c rfl)
        (fun _ _ h => .same h) fun _ _ h => .same h
  | datagram dat handler =>
    unfold Event.exec managerOnData
    rw [wp_bind, wp_get, wp_ite]
    refine ⟨fun hmanaged => ?_, fun _ => .same rfl⟩
    simp only [Event.orderly, Callback.closesWell, hmanaged, Bool.not_true, Bool.false_or,
      Bool.and_eq_true] at he
    obtain ⟨hreg, honce, -⟩ := he
    have hopen := (hset.unclosed hreg).untold
    exact Connection.wp_notify_callback quiet_send _ handler c _
      (fun _ _ _ h => .notifies hopen rfl honce (.of_eq h))
      fun _ _ _ h => .notifies hopen rfl honce (.of_eq h)

/-! ## What an event leaves -/

theorem keeps_unclosed_callSend (s : SendCall) : Keeps Unclosed (callSend send s) :=
  unclosed_outputFree.keeps_callSend (keeps_send unclosed_outputFree s)

/-- A `send` that does not ask for the write event. -/
theorem callSend_settled {s : SendCall} (hc : Settled c)
    (h : (c.socket.connected && c.output.isEmpty && blocks s) = false) :
    wp (callSend send s) c (fun _ => Settled) (fun _ => Settled) := by
  have hqueue : wp (sendOrQueue s) c (fun _ => Settled) (fun _ => Settled) := by
    unfold sendOrQueue pushBack
    simp only [wp_bind, wp_get, wp_ite, wp_modify]
    refine ⟨fun hempty => ?_, fun _ => ⟨fun _ => hc.rest rfl rfl rfl, fun _ => hc.rest rfl rfl rfl⟩⟩
    -- the kernel takes something, or it fails
    have hall : blocks s = false := by rwa [hempty, Bool.true_and] at h
    unfold blocks at hall
    unfold socketSend
    cases hanswer : s.answer with
    | takes n =>
      rw [hanswer] at hall
      simp only [wp_bind, wp_modify, wp_pure]
      exact ⟨fun hzero => absurd hzero (of_decide_eq_false hall), fun _ => hc.rest rfl rfl rfl⟩
    | again =>
      rw [hanswer] at hall
      cases hall
    | fails what => exact hc
  unfold callSend send
  simp only [wp_bind, wp_tryCatch, wp_pure, wp_modify, wp_get]
  exact wp_mono hqueue (fun _ _ h => h.rest rfl rfl rfl) fun _ _ h => h.rest rfl rfl rfl

theorem keeps_settled_callSend {s : SendCall} (h : blocks s = false) :
    Keeps Settled (callSend send s) := fun _ hc =>
  callSend_settled hc (by rw [h, Bool.and_false])

theorem onRead_settled {io : Io} (hc : Unclosed c) (honce : readsOnce c io = true) :
    wp (onRead io) c (fun _ => Settled) (fun _ => Settled) := by
  simp only [readsOnce, Callback.closesWell, Bool.and_eq_true, Bool.or_eq_true,
    Bool.not_eq_true'] at honce
  refine read_settles keeps_unclosed_callSend (fun _ => keeps_settled_callSend) hc honce.1
    (honce.2.imp_right And.right) fun e c1 hother h1 => ?_
  cases e with
  | buffer stop =>
    cases stop with
    | resourceLimit what => exact absurd rfl (hother what)
    | hangs => exact h1.settled
  | other what => exact h1.settled
  | socketError what => exact ⟨rfl, h1.settled⟩

theorem keeps_unclosed_connected (io : Io) : Keeps Unclosed (do
    let _ ← completeNonblockingConnect io.connectError
    onConnected io : UdpM Unit) :=
  keeps_connected unclosed_outputFree (fun _ h => ⟨h.marked, h.untold⟩)
    (fun _ h => ⟨h.marked, h.untold⟩) io

/-- **An orderly event** leaves a connection that is removed if its close has been told. -/
theorem exec_settled (hopened : Opened c) (hset : Settled c) {e : Event}
    (he : e.orderly c = true) : wp e.exec c (fun _ => Settled) (fun _ => Settled) := by
  have hwhen {b : Bool} (h : (!c.socket.connected || b) = true)
      (hconn : c.socket.connected = true) : b = true := by
    rw [hconn] at h
    exact h
  cases e with
  | pass sec => exact hset.rest rfl rfl rfl
  | send s =>
    cases hreg : c.registered with
    | true => exact Settles.of_unclosed (keeps_unclosed_callSend s) c (hset.unclosed hreg)
    | false =>
      simp only [Event.orderly, hreg, Bool.false_or, Bool.not_eq_true'] at he
      exact callSend_settled hset he
  | setKeepaliveTimeout msec => exact setKeepaliveTimeout_settled hset he
  | close throws => exact keeps_bind (keeps_settled_close _ throws) (fun _ => keeps_pure ()) c hset
  | readable io =>
    obtain ⟨hreg, honce⟩ := Bool.and_eq_true_iff.mp he
    have hc := hset.unclosed hreg
    unfold Event.exec handleRead
    rw [wp_bind, wp_get, wp_ite]
    exact ⟨fun hconn => onRead_settled hc (hwhen honce hconn),
      fun _ => Settles.of_unclosed (keeps_unclosed_connected io) c hc⟩
  | writable io =>
    obtain ⟨hreg, honce⟩ := Bool.and_eq_true_iff.mp he
    have hc := hset.unclosed hreg
    unfold Event.exec handleWrite
    rw [wp_bind, wp_get, wp_ite]
    refine ⟨fun hconn => ?_, fun _ => Settles.of_unclosed (keeps_unclosed_connected io) c hc⟩
    have honce := hwhen honce hconn
    simp only [writesOnce, Callback.closesWell, ne_eq, decide_not, Bool.or_eq_true,
      Bool.not_eq_true', decide_eq_false_iff_not, Bool.and_eq_true] at honce
    refine onWrite_settles keeps_unclosed_callSend (fun _ => keeps_settled_callSend) ?_
    refine wp_mono (wp_and (flush_notes hopened _) (keeps_flush unclosed_outputFree _ c hc))
      (fun b _ h1 => ⟨h1.2, fun hb => ?_⟩) fun _ _ h1 => h1.2
    subst hb
    exact (honce.resolve_left (not_not_intro h1.1.2)).2
  | timeout io =>
    obtain ⟨htimer, honce⟩ := Bool.and_eq_true_iff.mp he
    have hc := hset.unclosed_of_timer htimer
    unfold Event.exec handleTimeout
    rw [wp_bind, wp_get, wp_ite]
    refine ⟨fun hconn => ?_, fun _ => ?_⟩
    · unfold onTimeout
      rw [wp_bind, wp_get]
      cases hside : c.side with
      | server => exact onTimeout_settles io c hc
      | client =>
        exact clientOnTimeout_settles keeps_unclosed_callSend (fun _ => keeps_settled_callSend) hc
          fun hlate => (timesOutOnce_iff.mp (hwhen honce hconn) hside hlate).2
    · exact Settles.of_unclosed
        (keeps_onConnected unclosed_outputFree (fun _ h => ⟨h.marked, h.untold⟩) io) c hc
  | datagram dat handler =>
    unfold Event.exec managerOnData
    rw [wp_bind, wp_get, wp_ite]
    refine ⟨fun hmanaged => ?_, fun _ => hset⟩
    simp only [Event.orderly, Callback.closesWell, hmanaged, Bool.not_true, Bool.false_or,
      Bool.and_eq_true] at he
    obtain ⟨hreg, -, hreleases⟩ := he
    exact notify_settles keeps_unclosed_callSend (fun _ => keeps_settled_callSend) rfl hreleases
      (fun _ => keeps_pure ()) c (hset.unclosed hreg)

/-! ## Runs of a UDP connection -/

theorem quiet_accept (msec : Int) : Quiet (accept msec) := by
  intro ns st
  refine keeps_bind (keeps_modify fun _ hc => hc) fun _ => ?_
  refine keeps_bind (quiet_socketSelect _ _ ns st) fun _ => keeps_ite ?_ (keeps_pure ())
  exact keeps_modify fun _ hc => hc

/-- `createUdpConnection` for a new object. -/
theorem createUdpConnection_closeLast (msec : Int) (dat : List UInt8)
    {connected received : Callback} (hnew : c.notices = [])
    (honce : Start.orderly (.accepted msec dat connected received) = true) :
    wp (createUdpConnection msec dat connected received) c (fun _ c' => CloseLast c'.notices)
      (fun _ c' => CloseLast c'.notices) := by
  unfold createUdpConnection managerOnData
  rw [wp_bind]
  refine wp_mono ((quiet_accept msec).keeps_notices [] c hnew)
    (fun _ (c1 : UdpConnection) h1 => ?_) fun _ c1 h1 => ?_
  swap
  · rw [h1]
    exact .nil
  rw [wp_bind, wp_modify]
  have htold : c1.told = false := by rw [told, h1]; rfl
  unfold Start.orderly at honce
  refine Connection.wp_notify_callback quiet_send _ connected { c1 with managed := true } _
    (fun r (c2 : UdpConnection) hends h2 => ?_) fun e c2 hends h2 => ?_
  · simp only [hends, Ends.isThrow, Bool.false_eq_true, if_false, Callback.closesWell,
      Bool.and_eq_true, decide_eq_true_eq] at honce
    obtain ⟨hnone, honce, -⟩ := honce
    have h2 : c2.notices = [.onConnected] := by
      rw [h2, Callback.notices, hnone]
      exact congrArg (· ++ _) h1
    have htold2 : c2.told = false := by rw [told, h2]; rfl
    have hlast : CloseLast c2.notices := by
      rw [h2]
      exact List.pairwise_singleton _ _
    have hreceived {c3 : UdpConnection}
        (h : c3.notices = c2.notices ++ .onData dat :: received.notices) : CloseLast c3.notices :=
      Adds.closeLast (.notifies htold2 rfl honce (.of_eq h)) hlast
    simp only [bind_assoc, pure_bind]
    exact Connection.wp_notify_callback quiet_send _ received c2 _ (fun _ _ _ h => hreceived h)
      fun _ _ _ h => hreceived h
  · simp only [hends, Ends.isThrow, if_true, Callback.closesWell, Bool.and_eq_true] at honce
    have hadds : Adds c1 c2 := .notifies htold rfl honce.1 (.of_eq h2)
    exact hadds.closeLast (by rw [h1]; exact .nil)

/-- A constructor that connects notifies nobody. -/
theorem connect_same (answer : ConnectAnswer) (io : Io) :
    wp (connect answer io) c
      (fun _ c' => c'.notices = c.notices ∧
        ((∃ what, answer = .fails what) → c'.status = .socketError))
      (fun _ c' => c'.notices = c.notices) := by
  have hselect : selConnecting &&& selConnecting ≠ selNone := by decide
  have hsame := notices_outputFree c.notices
  unfold connect select doConnect
  simp only [if_pos hselect, wp_tryCatch]
  cases answer with
  | done =>
    simp only [wp_bind, wp_modify, wp_get, wp_ite]
    refine ⟨fun _ => ?_, fun h => absurd trivial h⟩
    exact wp_mono (keeps_onConnected hsame (fun _ h => h) io _ rfl)
      (fun _ _ h => ⟨h, fun ⟨_, h⟩ => by cases h⟩) fun _ _ h => ⟨h, fun ⟨_, h⟩ => by cases h⟩
  | pending =>
    simp only [wp_bind, wp_modify, wp_get, wp_ite]
    refine ⟨fun _ => ?_, fun _ => ?_⟩
    · exact wp_mono (keeps_onConnected hsame (fun _ h => h) io _ rfl)
        (fun _ _ h => ⟨h, fun ⟨_, h⟩ => by cases h⟩) fun _ _ h => ⟨h, fun ⟨_, h⟩ => by cases h⟩
    · exact wp_mono (hsame.select _ _ _ rfl)
        (fun _ _ h => ⟨h, fun ⟨_, h⟩ => by cases h⟩) fun _ _ h => ⟨h, fun ⟨_, h⟩ => by cases h⟩
  | fails what =>
    simp only [wp_bind, wp_modify, wp_throw]
    exact ⟨trivial, fun _ => trivial⟩

/-- `createUdpClient` for a new object. -/
theorem createUdpClient_adds {answer : ConnectAnswer} {io : Io} (htold : c.told = false)
    (honce : Start.orderly (.client answer io) = true) :
    wp (createUdpClient answer io) c (fun _ => Adds c) (fun _ => Adds c) := by
  unfold createUdpClient
  rw [wp_bind]
  refine wp_mono (connect_same answer io) (fun _ (c1 : UdpConnection) h1 => ?_) fun _ _ h => .same h
  obtain ⟨hsame, hfails⟩ := h1
  simp only [wp_bind, wp_get, wp_ite, wp_modify]
  refine ⟨fun _ => .close htold (congrArg (· ++ [_]) hsame), fun hstatus => ?_⟩
  have hcb : io.handler.closesOnce io.handler.ends.isThrow = true := by
    cases answer with
    | done => exact (Bool.and_eq_true_iff.mp honce).1
    | pending => exact (Bool.and_eq_true_iff.mp honce).1
    | fails what => exact absurd (hfails ⟨what, rfl⟩) hstatus
  have hopen : c1.told = false := by rw [told, hsame]; exact htold
  exact wp_mono (handleOnConnected_notes quiet_send io.handler _ { c1 with managed := true })
    (fun _ _ h => .trans hsame (.notifies hopen rfl hcb h)) fun _ _ h => h.elim

/-- What a new connection has told. -/
theorem start_closeLast (now : Int) (stackIn : Nat → UInt8) {start : Start}
    (honce : start.orderly = true) : CloseLast (start.connection now stackIn).notices := by
  cases start with
  | accepted msec dat connected received =>
    exact after_of_wp (P := fun c : UdpConnection => CloseLast c.notices)
      (createUdpConnection_closeLast msec dat rfl honce)
  | client answer io =>
    exact Adds.closeLast (c := { Connection.new .client (-1) .connectting now stackIn [] with
      lastRecvTs := now }) (after_of_wp (createUdpClient_adds rfl honce)) .nil

/-- The socket of a new connection is open. -/
theorem start_opened (now : Int) (stackIn : Nat → UInt8) (start : Start) :
    Opened (start.connection now stackIn) := by
  have hsend := keeps_callSend opened_receiveInv
  have hmanaged : Keeps Opened (modify fun c => { c with managed := true } : UdpM Unit) :=
    keeps_modify fun _ hc => ⟨hc.valid, hc.shutdownSend, hc.shutdownRecv⟩
  cases start with
  | accepted msec dat connected received =>
    refine after_of_wp ?_
    unfold createUdpConnection
    rw [wp_bind]
    refine wp_mono (accept_at msec now stackIn) (fun _ c1 h1 => ?_) fun _ _ h => h.elim
    refine keeps_bind hmanaged
      (fun _ => keeps_bind (keeps_notify opened_outputInv.inputFree _) fun _ =>
        keeps_bind (keeps_callback opened_outputInv.control.quiet hsend _) fun _ => ?_) c1 h1.opened
    refine keeps_bind (keeps_bind (keeps_notify opened_outputInv.inputFree _) fun _ => ?_)
      fun _ => ?_
    · exact keeps_bind (keeps_callback opened_outputInv.control.quiet hsend _) fun _ =>
        keeps_pure ()
    · exact keeps_modify fun _ hc => ⟨hc.valid, hc.shutdownSend, hc.shutdownRecv⟩
  | client answer io =>
    refine after_of_wp ?_
    unfold createUdpClient
    rw [wp_bind]
    refine wp_mono (connect_at answer io now stackIn) (fun _ c1 h1 => ?_) fun _ _ h => h.elim
    refine keeps_bind keeps_get
      (fun c => keeps_ite (keeps_notify opened_outputInv.inputFree _) ?_) c1 h1.opened
    exact keeps_bind hmanaged fun _ =>
      keeps_bind (keeps_handleOnConnected opened_outputInv.control.quiet hsend _ _) fun _ =>
        keeps_pure ()

/-- `createUdpConnection` for a new object. -/
theorem createUdpConnection_settles {msec : Int} {dat : List UInt8} {connected received : Callback}
    (honce : Start.orderly (.accepted msec dat connected received) = true) :
    Settles (createUdpConnection msec dat connected received) := by
  have hmodify {f : UdpConnection → UdpConnection} (hf : ∀ c, Unclosed c → Unclosed (f c)) :
      Keeps Unclosed (modify f : UdpM Unit) := keeps_modify hf
  have hcallback {cb : Callback} (h : Act.releases blocks cb.acts = true) :
      Settles (callback send cb : UdpM Int) :=
    callback_settles keeps_unclosed_callSend (fun _ => keeps_settled_callSend) h
  have haccept : Keeps Unclosed (accept msec : UdpM Unit) :=
    keeps_bind (hmodify fun _ hc => ⟨hc.marked, hc.untold⟩) fun _ =>
      keeps_bind (unclosed_outputFree.select _ _) fun _ =>
        keeps_ite (keeps_unclosed_timeout _) (keeps_pure ())
  unfold Start.orderly at honce
  refine .after haccept fun _ => .after (hmodify fun _ hc => ⟨hc.marked, hc.untold⟩) fun _ =>
    .after (keeps_unclosed_notify rfl) fun _ => ?_
  cases hends : connected.ends with
  | throws e =>
    -- what is thrown leaves `createUdpConnection`
    simp only [hends, Ends.isThrow, if_true, Callback.closesWell, Bool.and_eq_true] at honce
    unfold callback
    rw [hends]
    simp only [bind_assoc]
    refine .bind (acts_settle keeps_unclosed_callSend (fun _ => keeps_settled_callSend) _ honce.2)
      fun _ => keeps_throw e
  | returns n =>
    simp only [hends, Ends.isThrow, Bool.false_eq_true, if_false, Callback.closesWell,
      Bool.and_eq_true, decide_eq_true_eq] at honce
    obtain ⟨hnone, -, hreleases⟩ := honce
    refine .after ?_ fun _ => ?_
    · unfold callback
      rw [hends]
      exact keeps_bind (keeps_unclosed_acts keeps_unclosed_callSend _ hnone) fun _ => keeps_pure n
    · refine .bind (.after (keeps_unclosed_notify rfl) fun _ => .bind (hcallback hreleases) fun _ =>
        keeps_pure ()) fun _ => ?_
      exact keeps_modify fun _ hc => hc.rest rfl rfl rfl

/-- A constructor that fails has not registered the connection yet. -/
theorem connect_settled (answer : ConnectAnswer) (io : Io) (now : Int) (stackIn : Nat → UInt8) :
    wp (connect answer io)
      { Connection.new .client (-1) .connectting now stackIn [] with lastRecvTs := now }
      (fun _ c' => Unclosed c' ∧ (c'.status = .socketError → Removed c')) (fun _ _ => False) := by
  have hopen {c1 : UdpConnection} (hepoll : c1.socket.epoll = none) (hnew : c1.notices = []) :
      Unclosed c1 := by
    refine ⟨fun h => ?_, by rw [told, hnew]; rfl⟩
    rw [registered, hepoll] at h
    cases h
  have hselect : selConnecting &&& selConnecting ≠ selNone := by decide
  unfold connect select
  rw [wp_tryCatch]
  simp only [if_pos hselect]
  cases answer with
  | done =>
    have hat := new_at .client (-1) .established now now stackIn
      { Socket.new with valid := true, connected := true } rfl rfl rfl
    unfold doConnect onConnected
    simp only [wp_bind, wp_modify, wp_get, wp_ite, wp_tryCatch]
    refine ⟨fun _ => ⟨fun _ => ?_, fun h => absurd trivial h⟩, fun h => absurd trivial h⟩
    refine wp_mono (wp_and (establish_at hat io) (wp_and
      (keeps_establish unclosed_outputFree io _ (hopen rfl rfl))
      (keeps_establish status_outputFree io _ Status.noConfusion)))
      (fun _ c1 h => ⟨h.2.1, fun hstatus => absurd hstatus h.2.2⟩) fun _ _ h => h.1.elim
  | pending =>
    have hat := new_at .client (-1) .connectting now now stackIn
      { Socket.new with valid := true, connected := false } rfl rfl rfl
    unfold doConnect
    simp only [wp_bind, wp_modify, wp_get, wp_ite]
    refine ⟨fun h => (Bool.false_ne_true h).elim, fun _ => ?_⟩
    refine wp_mono (wp_and (socketSelect_at hat 0 selRw) (wp_and
      (unclosed_outputFree.select _ _ _ (hopen rfl rfl))
      (status_outputFree.select _ _ _ Status.noConfusion)))
      (fun _ c1 h => ⟨h.2.1, fun hstatus => absurd hstatus h.2.2⟩) fun _ _ h => h.1.elim
  | fails what =>
    unfold doConnect
    simp only [wp_bind, wp_modify, wp_throw]
    exact ⟨hopen rfl rfl, fun _ => ⟨rfl, rfl⟩⟩

theorem start_settled (now : Int) (stackIn : Nat → UInt8) {start : Start}
    (honce : start.orderly = true) : Settled (start.connection now stackIn) := by
  cases start with
  | accepted msec dat connected received =>
    refine after_of_wp (createUdpConnection_settles honce _ ⟨?_, rfl⟩)
    exact fun h => by cases h
  | client answer io =>
    refine after_of_wp ?_
    unfold createUdpClient
    rw [wp_bind]
    refine wp_mono (wp_and (connect_settled answer io now stackIn) (connect_same answer io))
      (fun _ (c1 : UdpConnection) h1 => ?_) fun _ _ h => h.1.elim
    obtain ⟨⟨hunclosed, hremoved⟩, -, hfails⟩ := h1
    simp only [wp_bind, wp_get, wp_ite, wp_modify]
    refine ⟨fun hstatus => ?_, fun hstatus => ?_⟩
    · have hremoved := hremoved hstatus
      exact ⟨hunclosed.marked, fun _ => ⟨hremoved.unregistered, hremoved.untimed⟩⟩
    · have hreleases : Act.releases blocks io.handler.acts = true := by
        cases answer with
        | done => exact (Bool.and_eq_true_iff.mp honce).2
        | pending => exact (Bool.and_eq_true_iff.mp honce).2
        | fails what => exact absurd (hfails ⟨what, rfl⟩) hstatus
      exact wp_mono (handleOnConnected_settles keeps_unclosed_callSend
        (fun _ => keeps_settled_callSend) hreleases io.onCloseThrows
        { c1 with managed := true } ⟨hunclosed.marked, hunclosed.untold⟩) (fun _ _ h => h)
        fun _ _ h => h

/-- **A UDP connection tells once and finally that it is closed**, in every run whose
creation and events are orderly: what has been closed is removed. -/
theorem udp_closed_once (now : Int) (stackIn : Nat → UInt8) {start : Start}
    {events : List Event} {c : UdpConnection} (hstart : start.orderly = true)
    (hevents : (machine now stackIn start).AllSteps (fun c e => e.orderly c = true)
      (machine now stackIn start).init events)
    (hrun : (machine now stackIn start).run (machine now stackIn start).init events = some c) :
    CloseLast c.notices ∧ Settled c := by
  refine (Machine.run_invariant _ (P := fun c => Opened c ∧ CloseLast c.notices ∧ Settled c)
    (fun c e c' hc he hstep => ?_) events
    ⟨start_opened now stackIn start, start_closeLast now stackIn hstart,
      start_settled now stackIn hstart⟩ hevents hrun).2
  obtain ⟨hopened, hlast, hset⟩ := hc
  obtain rfl := Option.some.inj hstep
  exact ⟨after_of_wp (keeps_opened e c hopened),
    Adds.closeLast (after_of_wp (exec_adds hopened hset he)) hlast,
    after_of_wp (exec_settled hopened hset he)⟩

end UdpConnection

/-! ## Result -/

/-- **A close is told once and finally**: in every run of a TCP or a UDP connection whose
creation and events are orderly, the handler is told at most once that the connection is
closed, and nothing is connected, received or written after that. -/
theorem closed_once (now : Int) (stackIn stackOut : Nat → UInt8) :
    (∀ (start : TcpConnection.Start) (events : List TcpConnection.Event) (c : TcpConnection),
      start.orderly = true →
      (TcpConnection.machine now stackIn stackOut start).AllSteps (fun c e => e.orderly c = true)
        (TcpConnection.machine now stackIn stackOut start).init events →
      (TcpConnection.machine now stackIn stackOut start).run
        (TcpConnection.machine now stackIn stackOut start).init events = some c →
      ClosedOnce c.notices) ∧
    ∀ (start : UdpConnection.Start) (events : List UdpConnection.Event) (c : UdpConnection),
      start.orderly = true →
      (UdpConnection.machine now stackIn start).AllSteps (fun c e => e.orderly c = true)
        (UdpConnection.machine now stackIn start).init events →
      (UdpConnection.machine now stackIn start).run
        (UdpConnection.machine now stackIn start).init events = some c →
      ClosedOnce c.notices :=
  ⟨fun _ _ _ hstart hevents hrun =>
      (TcpConnection.tcp_closed_once now stackIn stackOut hstart hevents hrun).1.closedOnce,
    fun _ _ _ hstart hevents hrun =>
      (UdpConnection.udp_closed_once now stackIn hstart hevents hrun).1.closedOnce⟩

/-- The handler closes in `onData`, on a TCP and on a UDP connection. -/
theorem closed_once_in_onData :
    (∃ c ∈ (TcpConnection.machine 0 (fun _ => 0) (fun _ => 0) (.accepted 0 ⟨[], .returns 0⟩)).run
      (TcpConnection.machine 0 (fun _ => 0) (fun _ => 0) (.accepted 0 ⟨[], .returns 0⟩)).init
      [.readable { TcpConnection.idle with
        recv := .gives [1], handler := ⟨[.close none], .returns 1⟩ }],
      c.told = true ∧ ClosedOnce c.notices) ∧
    ∃ c ∈ (UdpConnection.machine 0 (fun _ => 0) (.accepted 0 [] ⟨[], .returns 0⟩ ⟨[], .returns 0⟩)).run
      (UdpConnection.machine 0 (fun _ => 0) (.accepted 0 [] ⟨[], .returns 0⟩ ⟨[], .returns 0⟩)).init
      [.readable { TcpConnection.idle with
        recv := .gives [1], handler := ⟨[.close none], .returns 1⟩ }],
      c.told = true ∧ ClosedOnce c.notices := by
  have htcp : ∃ c ∈ (TcpConnection.machine 0 (fun _ => 0) (fun _ => 0)
        (.accepted 0 ⟨[], .returns 0⟩)).run
      (TcpConnection.machine 0 (fun _ => 0) (fun _ => 0) (.accepted 0 ⟨[], .returns 0⟩)).init
      [.readable { TcpConnection.idle with
        recv := .gives [1], handler := ⟨[.close none], .returns 1⟩ }], c.told = true := by
    decide +kernel
  have hudp : ∃ c ∈ (UdpConnection.machine 0 (fun _ => 0)
        (.accepted 0 [] ⟨[], .returns 0⟩ ⟨[], .returns 0⟩)).run
      (UdpConnection.machine 0 (fun _ => 0)
        (.accepted 0 [] ⟨[], .returns 0⟩ ⟨[], .returns 0⟩)).init
      [.readable { TcpConnection.idle with
        recv := .gives [1], handler := ⟨[.close none], .returns 1⟩ }], c.told = true := by
    decide +kernel
  obtain ⟨c, hc, htold⟩ := htcp
  obtain ⟨d, hd, htold'⟩ := hudp
  obtain ⟨hclosed, hclosed'⟩ := closed_once 0 (fun _ => 0) (fun _ => 0)
  exact ⟨⟨c, hc, htold, hclosed _ _ c (by decide) (by decide +kernel) hc⟩,
    d, hd, htold', hclosed' _ _ d (by decide) (by decide +kernel) hd⟩

/-- The input buffer is full: the handler is told that the connection is closed, and gets
what is in the buffer after that. A `send` that blocks after `close` registers the socket
again, and the handler is notified when it is writable. A socket that is readable and writable
in one batch is notified of both, also when the handler closes the connection in between. -/
theorem full_input_read_after_close :
    (∃ c ∈ (TcpConnection.machine 0 (fun _ => 0) (fun _ => 0) (.accepted 0 ⟨[], .returns 0⟩)).run
      (TcpConnection.machine 0 (fun _ => 0) (fun _ => 0) (.accepted 0 ⟨[], .returns 0⟩)).init
      [.inputLimit 1024, .readable TcpConnection.idle],
      c.notices = [.onConnected, .onClose "input buffer no space", .onData []] ∧
        ¬ClosedOnce c.notices) ∧
    (∃ c ∈ (TcpConnection.machine 0 (fun _ => 0) (fun _ => 0) (.accepted 0 ⟨[], .returns 0⟩)).run
      (TcpConnection.machine 0 (fun _ => 0) (fun _ => 0) (.accepted 0 ⟨[], .returns 0⟩)).init
      [.close none, .send ⟨[7], .again, fun _ => 0⟩,
        .writable { TcpConnection.idle with answers := [.takes 1] }],
      c.notices = [.onConnected, .onInitiativeClose "close", .onWrite] ∧
        ¬ClosedOnce c.notices) ∧
    ∃ c ∈ (TcpConnection.machine 0 (fun _ => 0) (fun _ => 0) (.accepted 0 ⟨[], .returns 0⟩)).run
      (TcpConnection.machine 0 (fun _ => 0) (fun _ => 0) (.accepted 0 ⟨[], .returns 0⟩)).init
      [.send ⟨[7], .again, fun _ => 0⟩,
        .readable { TcpConnection.idle with
          recv := .gives [1], handler := ⟨[.close none], .returns 1⟩ },
        .writable { TcpConnection.idle with answers := [.takes 1] }],
      c.notices = [.onConnected, .onData [1], .onInitiativeClose "close", .onWrite] ∧
        ¬ClosedOnce c.notices := by
  have hlast {l : List Notice} {a b : Notice} (ha : a.isClose = true)
      (hb : (∃ dat, b = .onData dat) ∨ b = .onWrite) : ¬ClosedOnce (l ++ [a, b]) := fun h => by
    have hfinal := (List.pairwise_append.mp h.final).2.1
    have hafter := List.rel_of_pairwise_cons hfinal List.mem_cons_self ha
    rcases hb with ⟨dat, rfl⟩ | rfl
    · exact hafter.2.1 dat rfl
    · exact hafter.2.2 rfl
  have hfull : ∃ c ∈ (TcpConnection.machine 0 (fun _ => 0) (fun _ => 0)
        (.accepted 0 ⟨[], .returns 0⟩)).run
      (TcpConnection.machine 0 (fun _ => 0) (fun _ => 0) (.accepted 0 ⟨[], .returns 0⟩)).init
      [.inputLimit 1024, .readable TcpConnection.idle],
      c.notices = [.onConnected, .onClose "input buffer no space", .onData []] := by
    decide +kernel
  have hblocked : ∃ c ∈ (TcpConnection.machine 0 (fun _ => 0) (fun _ => 0)
        (.accepted 0 ⟨[], .returns 0⟩)).run
      (TcpConnection.machine 0 (fun _ => 0) (fun _ => 0) (.accepted 0 ⟨[], .returns 0⟩)).init
      [.close none, .send ⟨[7], .again, fun _ => 0⟩,
        .writable { TcpConnection.idle with answers := [.takes 1] }],
      c.notices = [.onConnected, .onInitiativeClose "close", .onWrite] := by
    decide +kernel
  have hbatch : ∃ c ∈ (TcpConnection.machine 0 (fun _ => 0) (fun _ => 0)
        (.accepted 0 ⟨[], .returns 0⟩)).run
      (TcpConnection.machine 0 (fun _ => 0) (fun _ => 0) (.accepted 0 ⟨[], .returns 0⟩)).init
      [.send ⟨[7], .again, fun _ => 0⟩,
        .readable { TcpConnection.idle with
          recv := .gives [1], handler := ⟨[.close none], .returns 1⟩ },
        .writable { TcpConnection.idle with answers := [.takes 1] }],
      c.notices = [.onConnected, .onData [1], .onInitiativeClose "close", .onWrite] := by
    decide +kernel
  obtain ⟨c, hc, hnotices⟩ := hfull
  obtain ⟨d, hd, hnotices'⟩ := hblocked
  obtain ⟨e, he, hnotices''⟩ := hbatch
  refine ⟨⟨c, hc, hnotices, ?_⟩, ⟨d, hd, hnotices', ?_⟩, e, he, hnotices'', ?_⟩
  · rw [hnotices]
    exact hlast (l := [.onConnected]) rfl (Or.inl ⟨[], rfl⟩)
  · rw [hnotices']
    exact hlast (l := [.onConnected]) rfl (Or.inr rfl)
  · rw [hnotices'']
    exact hlast (l := [.onConnected, .onData [1]]) rfl (Or.inr rfl)

end LinSocketIo.Core
