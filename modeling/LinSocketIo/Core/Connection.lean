/-
LinSocketIo.Core.Connection — what `core/tcp_connection.cpp` and
`core/udp_connection.cpp` have in common: the fields of a connection, the
calls of its `handleOn…` functions to the application's handler, and the
parts of `core/manager.cpp` they go through.

The handler runs inside a call of the connection and calls back into it, so
a handler is given by what it does when it is called: a `Callback` is the
list of the calls it makes on the connection and how it ends. A send that
throws does not end a callback by itself; a handler that lets the exception
out is one that makes no further call and ends with it.

Next to the fields of the source a connection carries what its environment
has seen: the data the kernel took (`wire`), the notifications of the
handler (`notices`) and the calls of `send` (`sends`).

Modelling notes. A call runs in `ConnM`, which keeps what it changed when it
throws. Addresses, log texts and the table of futures are left out, and so
is the end of the object's life: a connection that somebody still refers to
gets calls and events at any time. `time()` is the field `now`, which the
environment moves. The source catches `socket_error`, or every
`std::exception`; the outcome `Stop.hangs` of a buffer, which the buffer of
a connection never has, goes with the latter. The handler makes no calls
from `onClose` and `onInitiativeClose`, but these may throw. An
`assert(false)` is compiled out.
-/
import LinSocketIo.Base.Machine
import LinSocketIo.Core.Socket
import LinSocketIo.Utils.ByteBuffer

namespace LinSocketIo.Core

open LinSocketIo.Base LinSocketIo.Utils

/-- What a call throws. -/
inductive Exc where
  /-- `socket_error`. -/
  | socketError (what : String)
  /-- `ResourceLimitException` of a buffer. -/
  | buffer (stop : Stop)
  /-- Any other `std::exception`. -/
  | other (what : String)
  deriving DecidableEq, Repr

/-- `what`. -/
def Exc.what : Exc → String
  | .socketError what => what
  | .buffer (.resourceLimit what) => what
  | .buffer .hangs => ""
  | .other what => what

/-- The exception is a `socket_error`. -/
def Exc.isSocketError : Exc → Bool
  | .socketError _ => true
  | _ => false

/-- `IConnection::Side`. -/
inductive Side where
  | server
  | client
  deriving DecidableEq, Repr

/-- `IConnection::Status`. -/
inductive Status where
  | connectting
  | established
  | disconnected
  | socketError
  deriving DecidableEq, Repr

/-- A notification of the application's handler. -/
inductive Notice where
  | onConnected
  | onData (dat : List UInt8)
  | onWrite
  | onHeartbeat
  | onClose (reason : String)
  | onInitiativeClose (reason : String)
  deriving DecidableEq, Repr

/-- `onClose` or `onInitiativeClose`. -/
def Notice.isClose : Notice → Bool
  | .onClose _ | .onInitiativeClose _ => true
  | .onConnected | .onData _ | .onWrite | .onHeartbeat => false

/-! ## The handler -/

/-- A call of `send`: the data, what the kernel answers if it is asked, and the
bytes of the memory that the output buffer gets if it asks for memory. -/
structure SendCall where
  dat : List UInt8
  answer : Answer
  fresh : Nat → UInt8

/-- A call that a handler makes on the connection. -/
inductive Act where
  /-- `close`; `onInitiativeClose` throws `throws`. -/
  | close (throws : Option Exc)
  | send (s : SendCall)

/-- How a callback ends. -/
inductive Ends where
  /-- It returns; `n` is the result of `onData`. -/
  | returns (n : Int)
  | throws (e : Exc)
  deriving DecidableEq, Repr

/-- What the handler does when it is notified. -/
structure Callback where
  acts : List Act
  ends : Ends

/-- Everything the environment does during one event. -/
structure Io where
  /-- The answers to the sends of `flush`, in order; after the last it would block. -/
  answers : List Answer
  recv : RecvAnswer
  /-- The memory that the input buffer gets if it asks for memory. -/
  fresh : Nat → UInt8
  /-- What `complete_nonblocking_connect` finds: nothing, or the text of the error. -/
  connectError : Option String
  /-- What the handler does in `onConnected`, `onData`, `onWrite` or `onHeartbeat`. -/
  handler : Callback
  /-- What `onClose` throws. -/
  onCloseThrows : Option Exc
  /-- What `onInitiativeClose` throws. -/
  onInitiativeCloseThrows : Option Exc

/-- The fields of a connection whose output is kept in an `Out`. -/
structure Connection (Out : Type) where
  side : Side
  /-- `_timeout`, in milliseconds. -/
  timeout : Int
  status : Status
  lastRecvTs : Int
  lastSendTs : Int
  sendBytes : UInt64
  sentBytes : UInt64
  recvBytes : UInt64
  input : ByteBuffer
  output : Out
  socket : Socket
  /-- What `select_timeout` asked for, if it has not cancelled the timer since. -/
  timer : Option Int
  /-- The connection is in `_connections` of the manager. -/
  managed : Bool
  /-- `time()`. -/
  now : Int
  /-- What the kernel took, one entry for each send that it accepted. -/
  wire : List (List UInt8)
  notices : List Notice
  /-- The data of each call of `send`, and what it returned unless it threw. -/
  sends : List (List UInt8 × Option Nat)

/-- A call on a connection. -/
abbrev ConnM (Out : Type) := EStateM Exc (Connection Out)

namespace Connection

variable {Out : Type}

/-- The fields as the constructors initialise them, before they run. -/
def new (side : Side) (timeout : Int) (status : Status) (now : Int) (stackbuff : Nat → UInt8)
    (output : Out) : Connection Out where
  side := side
  timeout := timeout
  status := status
  lastRecvTs := 0
  lastSendTs := 0
  sendBytes := 0
  sentBytes := 0
  recvBytes := 0
  input := ByteBuffer.new true stackbuff
  output := output
  socket := Socket.new
  timer := none
  managed := false
  now := now
  wire := []
  notices := []
  sends := []

/-! ## The parts of a connection -/

/-- A call on the input buffer. -/
def onInput {α : Type} (x : BufferM α) : ConnM Out α := fun c =>
  match x.run c.input with
  | .ok a b => .ok a { c with input := b }
  | .error e b => .error (.buffer e) { c with input := b }

/-- `Socket::select`. -/
def socketSelect (remove add : Mask) : ConnM Out Unit := fun c =>
  match c.socket.select remove add with
  | .ok s => .ok () { c with socket := s }
  | .error what => .error (.socketError what) c

/-- `TcpClientSocket::select` and `UdpClientSocket::select`, with the virtual `onConnected`.
Without `SEL_CONNECTING` in `add` they are `Socket::select`, and the calls that never have
it are written so. -/
def select (onConnected : ConnM Out Unit) (remove add : Mask) : ConnM Out Unit := do
  if add &&& selConnecting ≠ selNone then
    if (← get).socket.connected then onConnected
    else socketSelect remove selRw
  else socketSelect remove add

/-- `Socket::remove`. -/
def socketRemove : ConnM Out Unit := modify fun c => { c with socket := c.socket.remove }

/-- `Handler::select_timeout`. -/
def selectTimeout (timeout : Int) : ConnM Out Unit :=
  modify fun c => { c with timer := if timeout < 0 then none else some timeout }

/-- `SocketHelper::send`. The result is never negative. -/
def socketSend (dat : List UInt8) : Answer → ConnM Out Nat
  | .takes n => do
    modify fun c => { c with wire := c.wire ++ [dat.take n] }
    return min n dat.length
  | .again => return 0
  | .fails what => throw (.socketError what)

/-- `SocketHelper::recv`: the bytes it received, at most `len`. -/
def socketRecv (len : Nat) : RecvAnswer → ConnM Out (List UInt8)
  | .gives [] => throw (.socketError "recv failed, counterpart has shut off")
  | .gives bytes => return bytes.take len
  | .again => return []
  | .fails what => throw (.socketError what)

/-- `complete_nonblocking_connect`, with what it returns. -/
def completeNonblockingConnect : Option String → ConnM Out String
  | some what => return what
  | none => do
    modify fun c => { c with socket := { c.socket with connected := true } }
    return "connect ok"

/-! ## Notifications -/

/-- The handler is notified. -/
def notify (n : Notice) : ConnM Out Unit := modify fun c => { c with notices := c.notices ++ [n] }

/-- `Manager::onClose` and `Manager::onInitiativeClose`: the handler is notified, and the
connection is removed from the table unless the handler throws. -/
def managerClose (n : Notice) : Option Exc → ConnM Out Unit
  | some e => do
    notify n
    throw e
  | none => do
    notify n
    modify fun c => { c with managed := false }

/-- The body of `handleOnClose` and `handleOnInitiativeClose`. -/
def handleClose (n : Notice) (throws : Option Exc) : ConnM Out Bool :=
  try
    modify fun c => { c with status := .disconnected }
    selectTimeout (-1)
    socketRemove
    managerClose n throws
    pure true
  catch _ =>
    selectTimeout (-1)
    socketRemove
    pure false

/-- `handleOnClose`. -/
def handleOnClose (reason : String) (throws : Option Exc) : ConnM Out Bool :=
  handleClose (.onClose reason) throws

/-- `handleOnInitiativeClose`. -/
def handleOnInitiativeClose (reason : String) (throws : Option Exc) : ConnM Out Bool :=
  handleClose (.onInitiativeClose reason) throws

/-- `close`. -/
def close (throws : Option Exc) : ConnM Out Unit := do
  let _ ← handleOnInitiativeClose "close" throws

section Handler

/- The virtual `send` of the connection. -/
variable (send : SendCall → ConnM Out Nat)

/-- A call of `send` by the application, with what comes of it. -/
def callSend (s : SendCall) : ConnM Out Unit := do
  let result ← try
      let n ← send s
      pure (some n)
    catch _ => pure none
  modify fun c => { c with sends := c.sends ++ [(s.dat, result)] }

/-- A call that a handler makes. -/
def act : Act → ConnM Out Unit
  | .close throws => close throws
  | .send s => callSend send s

/-- The calls that a handler makes. -/
def acts : List Act → ConnM Out Unit
  | [] => return ()
  | a :: as => do
    act send a
    acts as

/-- A callback: its calls and its end. -/
def callback (cb : Callback) : ConnM Out Int := do
  acts send cb.acts
  match cb.ends with
  | .returns n => return n
  | .throws e => throw e

/-- `handleOnData`. -/
def handleOnData (cb : Callback) : ConnM Out Int :=
  try
    notify (.onData (← get).input.contents)
    callback send cb
  catch _ => pure (-1)

/-- `handleOnConnected`. -/
def handleOnConnected (cb : Callback) (onCloseThrows : Option Exc) : ConnM Out Bool :=
  try
    notify .onConnected
    let _ ← callback send cb
    pure true
  catch e =>
    let _ ← handleOnClose e.what onCloseThrows
    pure false

/-! ## Events -/

/-- The `try` block of `onRead`: receive into the room behind the input. -/
def receive (io : Io) : ConnM Out Unit := do
  let sz := max (toInt (← get).input.space) (4 * 1024)
  let w ← onInput (ByteBuffer.reserve io.fresh sz.toNat)
  let bytes ← socketRecv (sz - 1).toNat io.recv
  if bytes.length > 0 then
    onInput (modify fun b => { b with mem := store b.mem w (bytes ++ [0]) })
    let _ ← onInput (ByteBuffer.advance bytes.length)
    modify fun c => { c with recvBytes := c.recvBytes + UInt64.ofNat bytes.length }

/-- The end of `onRead`: the handler gets the input, and what it used is erased. -/
def deliver (io : Io) : ConnM Out Unit := do
  let ret ← handleOnData send io.handler
  if ret ≥ 0 then
    let _ ← onInput (ByteBuffer.erase ret.toNat)
  else
    let _ ← handleOnInitiativeClose "handle data happen error" io.onInitiativeCloseThrows

/-- `onWrite`, with the virtual `flush`. -/
def onWrite (flush : ConnM Out Bool) (io : Io) : ConnM Out Unit :=
  try
    let b ← flush
    if b then
      notify .onWrite
      let _ ← callback send io.handler
  catch e =>
    match e with
    | .socketError what =>
      let _ ← handleOnClose what io.onCloseThrows
    | e => throw e

/-- `setKeepaliveTimeout`. -/
def setKeepaliveTimeout (msec : Int) : ConnM Out Unit := do
  if msec > 0 then
    modify fun c => { c with timeout := msec }
    selectTimeout msec

/-- What is left of the time to receive in, `ts` in `onTimeout`. -/
def timeLeft (c : Connection Out) : Int :=
  toInt (c.timeout - toInt (toInt (c.now - c.lastRecvTs) * 1000))

/-- `onTimeout` of `TcpConnection` and `UdpConnection`. -/
def onTimeout (io : Io) : ConnM Out Unit := do
  let c ← get
  if c.timeout > 0 then
    if c.timeLeft > 0 then selectTimeout c.timeLeft
    else
      let _ ← handleOnInitiativeClose "recv timeout" io.onInitiativeCloseThrows
  else selectTimeout (-1)

/-- `heartbeat`. -/
def heartbeat (cb : Callback) : ConnM Out Unit := do
  notify .onHeartbeat
  let _ ← callback send cb

/-- Something was received in the last two timeouts, as `onTimeout` of a client tests it. -/
def receivedLately (c : Connection Out) : Bool :=
  (c.now - c.lastRecvTs) * 1000 < toInt (c.timeout * 2)

/-- `onTimeout` of `TcpClient` and `UdpClient`. -/
def clientOnTimeout (io : Io) : ConnM Out Unit := do
  let c ← get
  let timeout := c.timeout
  if c.receivedLately then
    heartbeat send io.handler
    selectTimeout timeout
  else
    let _ ← handleOnInitiativeClose "keepalive timeout" io.onInitiativeCloseThrows

end Handler

/-- The connection after a call, which the thread's main loop or the application makes:
`notify_event` catches what an event throws. -/
def after {α : Type} (x : ConnM Out α) (c : Connection Out) : Connection Out :=
  match x.run c with
  | .ok _ c' => c'
  | .error _ c' => c'

end Connection

end LinSocketIo.Core
