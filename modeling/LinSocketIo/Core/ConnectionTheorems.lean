/-
LinSocketIo.Core.ConnectionTheorems — what the calls of a connection keep.

Most of a connection's code touches neither its input nor its output: it
moves the timer, notifies the handler and closes. What does not depend on
these (`ControlInv`) is kept by all of it as soon as the two virtual calls,
`send` and `flush`, keep it. An invariant of the output (`OutputInv`) is kept
by reading too. There is one `keeps_…` lemma for each call, and they follow
the calls' own structure.
-/
import LinSocketIo.Base.Wp
import LinSocketIo.Core.Connection

namespace LinSocketIo.Core

/-- The data of `onData`. -/
def Notice.dat : Notice → Option (List UInt8)
  | .onData dat => some dat
  | .onConnected | .onWrite | .onHeartbeat | .onClose _ | .onInitiativeClose _ => none

/-- The callback throws. -/
def Ends.isThrow : Ends → Bool
  | .returns _ => false
  | .throws _ => true

namespace Connection

open LinSocketIo.Base LinSocketIo.Utils

variable {Out : Type}

/-- `I` does not depend on the timer, nor on what the handler is told other than data, and
it survives the end of the connection. -/
structure QuietInv (I : Connection Out → Prop) : Prop where
  disconnected : ∀ c, I c → I { c with status := .disconnected }
  removed : ∀ c, I c → I { c with socket := c.socket.remove }
  timer : ∀ (c : Connection Out) (timer : Option Int) (managed : Bool), I c →
    I { c with timer := timer, managed := managed }
  notified : ∀ (c : Connection Out) (n : Notice), n.dat = none → I c →
    I { c with notices := c.notices ++ [n] }

/-- `I` does not depend on what the handler is told other than data, and closing keeps it. -/
structure CloseInv (I : Connection Out → Prop) : Prop where
  notified : ∀ (c : Connection Out) (n : Notice), n.dat = none → I c →
    I { c with notices := c.notices ++ [n] }
  closed : ∀ (n : Notice) (throws : Option Exc), n.isClose = true → Keeps I (handleClose n throws)

/-- `I` is not about the input of a connection, nor about what the handler is told. -/
def InputFree (I : Connection Out → Prop) : Prop :=
  ∀ (c : Connection Out) (recvBytes : UInt64) (input : ByteBuffer) (notices : List Notice), I c →
    I { c with recvBytes := recvBytes, input := input, notices := notices }

/-- `I` does not depend on the timer and the clock, nor on what the handler is told
other than data, and it survives the end of the connection. -/
structure ControlInv (I : Connection Out → Prop) : Prop where
  disconnected : ∀ c, I c → I { c with status := .disconnected }
  removed : ∀ c, I c → I { c with socket := c.socket.remove }
  rest : ∀ (c : Connection Out) (timeout lastRecvTs now : Int) (timer : Option Int)
    (managed : Bool), I c →
    I { c with
        timeout := timeout, lastRecvTs := lastRecvTs, now := now, timer := timer
        managed := managed }
  notified : ∀ (c : Connection Out) (n : Notice), n.dat = none → I c →
    I { c with notices := c.notices ++ [n] }

theorem ControlInv.quiet {I : Connection Out → Prop} (hI : ControlInv I) : QuietInv I where
  disconnected := hI.disconnected
  removed := hI.removed
  timer c timer managed := hI.rest c c.timeout c.lastRecvTs c.now timer managed
  notified := hI.notified

instance {I : Connection Out → Prop} : Coe (ControlInv I) (QuietInv I) := ⟨ControlInv.quiet⟩

/-- `I` is about the output of a connection: it does not depend on the fields
that `rest` sets, and it survives the end of the connection. -/
structure OutputInv (I : Connection Out → Prop) : Prop where
  disconnected : ∀ c, I c → I { c with status := .disconnected }
  removed : ∀ c, I c → I { c with socket := c.socket.remove }
  rest : ∀ (c : Connection Out) (timeout lastRecvTs now : Int) (timer : Option Int)
    (recvBytes : UInt64) (input : ByteBuffer) (managed : Bool) (notices : List Notice), I c →
    I { c with
        timeout := timeout, lastRecvTs := lastRecvTs, now := now, timer := timer
        recvBytes := recvBytes, input := input, managed := managed, notices := notices }

theorem OutputInv.control {I : Connection Out → Prop} (hI : OutputInv I) : ControlInv I where
  disconnected := hI.disconnected
  removed := hI.removed
  rest c timeout lastRecvTs now timer managed :=
    hI.rest c timeout lastRecvTs now timer c.recvBytes c.input managed c.notices
  notified c n _ :=
    hI.rest c c.timeout c.lastRecvTs c.now c.timer c.recvBytes c.input c.managed (c.notices ++ [n])

theorem OutputInv.inputFree {I : Connection Out → Prop} (hI : OutputInv I) : InputFree I :=
  fun c recvBytes input notices =>
    hI.rest c c.timeout c.lastRecvTs c.now c.timer recvBytes input c.managed notices

instance {I : Connection Out → Prop} : Coe (OutputInv I) (InputFree I) := ⟨OutputInv.inputFree⟩

/-- `I` is not about the output of a connection. -/
structure OutputFree (I : Connection Out → Prop) : Prop where
  select : ∀ remove add, Keeps I (socketSelect remove add)
  output : ∀ (c : Connection Out) (wire : List (List UInt8)) (output : Out) (lastSendTs : Int)
    (sendBytes sentBytes : UInt64), I c →
    I { c with
        wire := wire, output := output, lastSendTs := lastSendTs, sendBytes := sendBytes
        sentBytes := sentBytes }
  sends : ∀ (c : Connection Out) (sends : List (List UInt8 × Option Nat)), I c →
    I { c with sends := sends }

/-- `I` is kept by all that a connection does but reading. -/
structure ReceiveInv (I : Connection Out → Prop) : Prop extends ControlInv I, OutputFree I where
  established : ∀ c, I c → I { c with status := .established }
  connected : ∀ c, I c → I { c with socket := { c.socket with connected := true } }

/-- How a `flush` ends. -/
inductive Flush where
  | blocked
  | drained
  | failed
  deriving DecidableEq, Repr

/-- The socket of a connection that the manager has created. -/
structure Opened (c : Connection Out) : Prop where
  valid : c.socket.valid = true
  shutdownSend : c.socket.shutdownSend = false
  shutdownRecv : c.socket.shutdownRecv = false

theorem opened_outputInv : OutputInv (Opened : Connection Out → Prop) where
  disconnected _ hc := ⟨hc.valid, hc.shutdownSend, hc.shutdownRecv⟩
  removed c hc := by
    refine ⟨?_, ?_, ?_⟩
    · rw [Socket.remove_valid, hc.valid]
    · rw [Socket.remove_shutdownSend, hc.shutdownSend]
    · rw [Socket.remove_shutdownRecv, hc.shutdownRecv]
  rest _ _ _ _ _ _ _ _ _ hc := ⟨hc.valid, hc.shutdownSend, hc.shutdownRecv⟩

/-- A request on an open socket changes only the socket, which stays open. -/
theorem socketSelect_opened {c : Connection Out} (hc : Opened c) (remove add : Mask) :
    wp (socketSelect remove add) c
      (fun _ c' => ∃ s : Socket, c' = { c with socket := s } ∧ Opened c' ∧
        s.connected = c.socket.connected)
      (fun _ _ => False) := by
  obtain ⟨s, hs, -, hconn, hvalid, hsend, hrecv⟩ :=
    Socket.select_selevent hc.valid hc.shutdownSend hc.shutdownRecv remove add
  unfold wp EStateM.run socketSelect
  rw [hs]
  exact ⟨s, rfl, ⟨hvalid, hsend, hrecv⟩, hconn⟩

/-- What a call ensures, whether it returns or throws, holds after it. -/
theorem after_of_wp {α : Type} {x : ConnM Out α} {c : Connection Out} {P : Connection Out → Prop}
    (h : wp x c (fun _ => P) (fun _ => P)) : P (after x c) := by
  unfold wp at h
  unfold after
  cases hr : x.run c with
  | ok a t => rw [hr] at h; exact h
  | error e t => rw [hr] at h; exact h

variable {I : Connection Out → Prop}

theorem keeps_socketRecv (len : Nat) (answer : RecvAnswer) : Keeps I (socketRecv len answer) := by
  cases answer with
  | gives bytes => cases bytes <;> exact fun _ hc => hc
  | again => exact fun _ hc => hc
  | fails what => exact fun _ hc => hc

namespace OutputFree

variable (hI : OutputFree I)

include hI

theorem keeps_socketSend (dat : List UInt8) (answer : Answer) : Keeps I (socketSend dat answer) := by
  cases answer with
  | takes n =>
    exact keeps_bind (keeps_modify fun c hc =>
      hI.output c _ c.output c.lastSendTs c.sendBytes c.sentBytes hc) fun _ => keeps_pure _
  | again => exact keeps_pure 0
  | fails what => exact keeps_throw _

theorem keeps_callSend {send : SendCall → ConnM Out Nat} {s : SendCall} (hsend : Keeps I (send s)) :
    Keeps I (callSend send s) :=
  keeps_bind (keeps_tryCatch (keeps_bind hsend fun _ => keeps_pure _) fun _ => keeps_pure none)
    fun _ => keeps_modify fun c hc => hI.sends c _ hc

end OutputFree

/-! ## Closing and the handler's calls -/

namespace CloseInv

variable (hI : CloseInv I)

include hI

theorem keeps_tell {n : Notice} (hn : n.dat = none) : Keeps I (notify n) :=
  keeps_modify fun c hc => hI.notified c n hn hc

theorem keeps_close (throws : Option Exc) : Keeps I (close throws) :=
  keeps_bind (hI.closed _ throws rfl) fun _ => keeps_pure ()

/-- The `catch` block of `onWrite`. -/
theorem keeps_onWrite_catch (throws : Option Exc) (e : Exc) :
    Keeps I (match e with
      | .socketError what => do
        let _ ← handleOnClose what throws
        pure ()
      | e => throw e : ConnM Out Unit) := by
  cases e with
  | socketError what => exact keeps_bind (hI.closed _ _ rfl) fun _ => keeps_pure ()
  | buffer stop => exact keeps_throw _
  | other what => exact keeps_throw _

section Handler

variable {send : SendCall → ConnM Out Nat} (hsend : ∀ s, Keeps I (callSend send s))

include hsend

theorem keeps_acts : ∀ as : List Act, Keeps I (acts send as)
  | [] => keeps_pure ()
  | .close throws :: as => keeps_bind (hI.keeps_close throws) fun _ => keeps_acts as
  | .send s :: as => keeps_bind (hsend s) fun _ => keeps_acts as

theorem keeps_callback (cb : Callback) : Keeps I (callback send cb) := by
  refine keeps_bind (hI.keeps_acts hsend cb.acts) fun _ => ?_
  cases cb.ends with
  | returns n => exact keeps_pure n
  | throws e => exact keeps_throw e

theorem keeps_handleOnConnected (cb : Callback) (throws : Option Exc) :
    Keeps I (handleOnConnected send cb throws) := by
  refine keeps_tryCatch (keeps_bind (hI.keeps_tell rfl) fun _ => ?_) fun e => ?_
  · exact keeps_bind (hI.keeps_callback hsend cb) fun _ => keeps_pure true
  · exact keeps_bind (hI.closed _ throws rfl) fun _ => keeps_pure false

theorem keeps_onWrite {flush : ConnM Out Bool} (hflush : Keeps I flush) (io : Io) :
    Keeps I (onWrite send flush io) := by
  refine keeps_tryCatch (keeps_bind hflush fun b => keeps_ite ?_ (keeps_pure ())) fun e => ?_
  · refine keeps_bind (hI.keeps_tell rfl) fun _ => ?_
    exact keeps_bind (hI.keeps_callback hsend _) fun _ => keeps_pure ()
  · exact hI.keeps_onWrite_catch _ e

end Handler

end CloseInv

section Control

variable (hI : QuietInv I)

include hI

/-! ## The parts of a connection -/

theorem keeps_selectTimeout (timeout : Int) : Keeps I (selectTimeout timeout) :=
  keeps_modify fun c hc =>
    hI.timer c (if timeout < 0 then none else some timeout) c.managed hc

theorem keeps_socketRemove : Keeps I socketRemove := keeps_modify hI.removed

/-- The handler is told something other than data. -/
theorem keeps_tell {n : Notice} (hn : n.dat = none) : Keeps I (notify n) :=
  keeps_modify fun c hc => hI.notified c n hn hc

theorem keeps_managerClose {n : Notice} (hn : n.dat = none) (throws : Option Exc) :
    Keeps I (managerClose n throws) := by
  cases throws with
  | some e => exact keeps_bind (keeps_tell hI hn) fun _ => keeps_throw e
  | none =>
    exact keeps_bind (keeps_tell hI hn) fun _ => keeps_modify fun c hc =>
      hI.timer c c.timer false hc

/-- Closing establishes what it keeps as soon as the status is set. -/
theorem wp_handleClose {c : Connection Out} (hc : I { c with status := .disconnected })
    {n : Notice} (hn : n.dat = none) (throws : Option Exc) :
    wp (handleClose n throws) c (fun _ => I) (fun _ => I) := by
  have hclosed (b : Bool) : Keeps I (do
      selectTimeout (-1)
      socketRemove
      pure b : ConnM Out Bool) :=
    keeps_bind (keeps_selectTimeout hI _) fun _ =>
      keeps_bind (keeps_socketRemove hI) fun _ => keeps_pure b
  have hbody : Keeps I (do
      selectTimeout (-1)
      socketRemove
      managerClose n throws
      pure true : ConnM Out Bool) :=
    keeps_bind (keeps_selectTimeout hI _) fun _ =>
      keeps_bind (keeps_socketRemove hI) fun _ =>
        keeps_bind (keeps_managerClose hI hn throws) fun _ => keeps_pure true
  unfold handleClose
  rw [wp_tryCatch, wp_bind, wp_modify]
  exact wp_mono (hbody _ hc) (fun _ _ h => h) fun _ t ht => hclosed false t ht

theorem keeps_handleClose {n : Notice} (hn : n.dat = none) (throws : Option Exc) :
    Keeps I (handleClose n throws) :=
  fun c hc => wp_handleClose hI (hI.disconnected c hc) hn throws

theorem closes : CloseInv I where
  notified := hI.notified
  closed n throws hn := by
    cases n with
    | onClose reason => exact keeps_handleClose hI rfl throws
    | onInitiativeClose reason => exact keeps_handleClose hI rfl throws
    | onConnected | onData | onWrite | onHeartbeat => cases hn

theorem keeps_close (throws : Option Exc) : Keeps I (close throws) := (closes hI).keeps_close throws

/-- The `catch` block of `onWrite`. -/
theorem keeps_onWrite_catch (throws : Option Exc) (e : Exc) :
    Keeps I (match e with
      | .socketError what => do
        let _ ← handleOnClose what throws
        pure ()
      | e => throw e : ConnM Out Unit) :=
  (closes hI).keeps_onWrite_catch throws e

theorem keeps_onTimeout (io : Io) : Keeps I (onTimeout io) := by
  refine keeps_bind keeps_get fun c => keeps_ite (keeps_ite ?_ ?_) ?_
  · exact keeps_selectTimeout hI _
  · exact keeps_bind (keeps_handleClose hI rfl _) fun _ => keeps_pure ()
  · exact keeps_selectTimeout hI _

/-! ## The handler's calls -/

section Handler

variable {send : SendCall → ConnM Out Nat} (hsend : ∀ s, Keeps I (callSend send s))

include hsend

theorem keeps_callback (cb : Callback) : Keeps I (callback send cb) :=
  (closes hI).keeps_callback hsend cb

theorem keeps_handleOnConnected (cb : Callback) (throws : Option Exc) :
    Keeps I (handleOnConnected send cb throws) :=
  (closes hI).keeps_handleOnConnected hsend cb throws

theorem keeps_onWrite {flush : ConnM Out Bool} (hflush : Keeps I flush) (io : Io) :
    Keeps I (onWrite send flush io) :=
  (closes hI).keeps_onWrite hsend hflush io

theorem keeps_clientOnTimeout (io : Io) : Keeps I (clientOnTimeout send io) := by
  refine keeps_bind keeps_get fun c => keeps_ite (keeps_bind (keeps_bind ?_ fun _ => ?_) fun _ => ?_) ?_
  · exact keeps_tell hI rfl
  · exact keeps_bind (keeps_callback hI hsend _) fun _ => keeps_pure ()
  · exact keeps_selectTimeout hI _
  · exact keeps_bind (keeps_handleClose hI rfl _) fun _ => keeps_pure ()

end Handler

end Control

theorem keeps_setKeepaliveTimeout (hI : ControlInv I) (msec : Int) :
    Keeps I (setKeepaliveTimeout msec) := by
  refine keeps_ite (keeps_bind (keeps_modify fun c hc => ?_) fun _ => ?_) (keeps_pure ())
  · exact hI.rest c msec c.lastRecvTs c.now c.timer c.managed hc
  · exact keeps_selectTimeout hI msec

/-! ## Reading -/

section Reading

variable (hfree : InputFree I)

include hfree

theorem keeps_onInput {α : Type} (x : BufferM α) : Keeps I (onInput x) := by
  intro c hc
  have hrest := fun b => hfree c c.recvBytes b c.notices hc
  unfold wp EStateM.run onInput
  cases x.run c.input with
  | ok a b => exact hrest b
  | error e b => exact hrest b

theorem keeps_notify (n : Notice) : Keeps I (notify n) :=
  keeps_modify fun c hc => hfree c c.recvBytes c.input (c.notices ++ [n]) hc

theorem keeps_receive (io : Io) : Keeps I (receive io) := by
  refine keeps_bind keeps_get fun c => ?_
  refine keeps_bind (keeps_onInput hfree _) fun w => ?_
  refine keeps_bind (keeps_socketRecv _ io.recv) fun bytes => ?_
  refine keeps_ite (keeps_bind (keeps_onInput hfree _) fun _ => ?_) (keeps_pure ())
  refine keeps_bind (keeps_onInput hfree _) fun _ => keeps_modify fun c hc => ?_
  exact hfree c _ c.input c.notices hc

variable (hI : QuietInv I) {send : SendCall → ConnM Out Nat} (hsend : ∀ s, Keeps I (callSend send s))

include hI hsend

theorem keeps_handleOnData (cb : Callback) : Keeps I (handleOnData send cb) := by
  refine keeps_tryCatch (keeps_bind keeps_get fun c => ?_) fun _ => keeps_pure (-1)
  exact keeps_bind (keeps_notify hfree _) fun _ => keeps_callback hI hsend cb

theorem keeps_deliver (io : Io) : Keeps I (deliver send io) := by
  refine keeps_bind (keeps_handleOnData hfree hI hsend _) fun ret => keeps_ite ?_ ?_
  · exact keeps_bind (keeps_onInput hfree _) fun _ => keeps_pure ()
  · exact keeps_bind (keeps_handleClose hI rfl _) fun _ => keeps_pure ()

end Reading

end Connection

end LinSocketIo.Core
