/-
LinSocketIo.Core.TcpConnection — the TCP connection of
`core/tcp_connection.h`, `core/tcp_connection.cpp` and
`core/tcp_client.cpp`, and how `core/manager.cpp` creates one.

Output goes to the kernel directly while nothing waits in `_output`, and
behind what waits there otherwise; `flush` hands over what waits when the
connection is established and whenever the socket becomes writable.

Modelling notes. A `TcpClient` is a connection whose side is `client`. The
kernel takes at most the bytes of the buffer it is given, also where
`(int)size` is not `size`. An object whose constructor fails is destroyed
before it gets an event.
-/
import LinSocketIo.Core.Connection

namespace LinSocketIo.Core

open LinSocketIo.Base LinSocketIo.Utils

/-- `TcpConnection`. -/
abbrev TcpConnection := Connection ByteBuffer

namespace TcpConnection

open Connection

/-- A call on a TCP connection. -/
abbrev TcpM := ConnM ByteBuffer

/-- A call on the output buffer. -/
def onOutput {α : Type} (x : BufferM α) : TcpM α := fun c =>
  match x.run c.output with
  | .ok a b => .ok a { c with output := b }
  | .error e b => .error (.buffer e) { c with output := b }

/-- The first half of `send`: the number of bytes that the kernel took. -/
def sendOrWrite (s : SendCall) : TcpM Nat := do
  let c ← get
  if c.socket.connected && c.output.size == 0 then
    let n ← socketSend s.dat s.answer
    if n < toInt s.dat.length then
      let _ ← onOutput (ByteBuffer.write s.fresh (s.dat.drop n))
      socketSelect 0 selWrite
    return n
  else
    if s.dat.length > 0 then
      let _ ← onOutput (ByteBuffer.write s.fresh s.dat)
    return 0

/-- `send`. -/
def send (s : SendCall) : TcpM Nat := do
  let n ← sendOrWrite s
  modify fun c =>
    { c with
      lastSendTs := c.now
      sendBytes := c.sendBytes + UInt64.ofNat s.dat.length
      sentBytes := c.sentBytes + UInt64.ofNat n }
  return toUInt32 (← get).output.size

/-- `flush`. -/
def flush (answer : Answer) : TcpM Bool := do
  if (← get).output.size == 0 then return true
  else
    let n ← socketSend (← get).output.contents answer
    if n > 0 then
      let _ ← onOutput (ByteBuffer.erase n)
    if (← get).output.size == 0 then socketSelect selWrite 0
    modify fun c => { c with sentBytes := c.sentBytes + UInt64.ofNat n }
    return (← get).output.size == 0

/-- The kernel's answer to the one send of `flush`. -/
def flushAnswer (io : Io) : Answer := io.answers.headD .again

/-- The `try` block of `onConnected`. -/
def establish (io : Io) : TcpM Unit := do
  let b ← flush (flushAnswer io)
  socketSelect selAll (if b then selRead else selRead ||| selWrite)
  let _ ← handleOnConnected send io.handler io.onCloseThrows

/-- `onConnected`. -/
def onConnected (desc : String) (io : Io) : TcpM Unit := do
  selectTimeout (-1)
  if (← get).socket.connected then
    modify fun c => { c with status := .established, lastRecvTs := c.now }
    try establish io
    catch e =>
      match e with
      | .socketError what =>
        let _ ← handleOnClose what io.onCloseThrows
      | e => throw e
  else
    let _ ← handleOnClose desc io.onCloseThrows

/-- What `onRead` does with what the `try` block throws; the result says whether it goes on. -/
def onReadCatch (io : Io) : Exc → TcpM Bool
  | .buffer (.resourceLimit _) => do
    let _ ← handleOnClose "input buffer no space" io.onCloseThrows
    return true
  | .socketError what => do
    let _ ← handleOnClose what io.onCloseThrows
    return false
  | e => throw e

/-- `onRead`. -/
def onRead (io : Io) : TcpM Unit := do
  modify fun c => { c with lastRecvTs := c.now }
  let goOn ← try
      receive io
      pure true
    catch e => onReadCatch io e
  if goOn then deliver send io

/-- `onWrite`. -/
def onWrite (io : Io) : TcpM Unit := Connection.onWrite send (flush (flushAnswer io)) io

/-- `onTimeout`, of `TcpClient` where the object is one. -/
def onTimeout (io : Io) : TcpM Unit := do
  match (← get).side with
  | .server => Connection.onTimeout io
  | .client => clientOnTimeout send io

/-- `TcpClientSocket::handle`, for `SEL_READ`. -/
def handleRead (io : Io) : TcpM Unit := do
  if (← get).socket.connected then onRead io
  else onConnected (← completeNonblockingConnect io.connectError) io

/-- `TcpClientSocket::handle`, for `SEL_WRITE`. -/
def handleWrite (io : Io) : TcpM Unit := do
  if (← get).socket.connected then onWrite io
  else onConnected (← completeNonblockingConnect io.connectError) io

/-- `TcpClientSocket::handle`, for `SEL_TIMEOUT`. -/
def handleTimeout (io : Io) : TcpM Unit := do
  if (← get).socket.connected then onTimeout io
  else onConnected "connect timeout" io

/-! ## Creation -/

/-- `DEFAULT_CONNECT_TIMEOUT`. -/
def defaultConnectTimeout : Int := 5 * 1000

/-- The constructor for an accepted socket. -/
def accept (msec : Int) : TcpM Unit := do
  modify fun c => { c with socket := c.socket.attach }
  socketSelect 0 selRead
  if msec > 0 then selectTimeout msec

/-- `doConnect`. -/
def doConnect (timo : Int) : ConnectAnswer → TcpM Unit
  | .done => modify fun c => { c with socket := { c.socket with valid := true, connected := true } }
  | .pending => do
    modify fun c => { c with socket := { c.socket with valid := true } }
    selectTimeout timo
  | .fails what => do
    modify fun c => { c with socket := { c.socket with valid := true } }
    throw (.socketError what)

/-- The constructors that connect. -/
def connect (msec : Int) (answer : ConnectAnswer) (io : Io) : TcpM Unit :=
  try
    doConnect (if msec ≤ 0 then defaultConnectTimeout else msec) answer
    select (onConnected "connect ok immediately" io) 0 selConnecting
  catch _ =>
    modify fun c => { c with status := .socketError }
    selectTimeout (-1)
    socketRemove

/-- How the manager creates a connection. -/
inductive Start where
  /-- `createTcpConnection`, with the handler's `onConnected`. -/
  | accepted (msec : Int) (handler : Callback)
  /-- `createTcpClient`. -/
  | client (msec : Int) (answer : ConnectAnswer) (io : Io)

/-- `createTcpConnection`, once the socket is there. -/
def createTcpConnection (msec : Int) (handler : Callback) : TcpM Unit := do
  accept msec
  modify fun c => { c with managed := true }
  notify .onConnected
  let _ ← callback send handler

/-- `createTcpClient`. -/
def createTcpClient (msec : Int) (answer : ConnectAnswer) (io : Io) : TcpM Unit := do
  connect msec answer io
  if (← get).status = .socketError then notify (.onClose "socket error")
  else modify fun c => { c with managed := true }

/-- A connection as the manager creates it, at `now` seconds, with what is on the stack
under its two buffers. -/
def Start.connection (now : Int) (stackIn stackOut : Nat → UInt8) : Start → TcpConnection
  | .accepted msec handler =>
    after (createTcpConnection msec handler)
      { Connection.new .server msec .established now stackIn (ByteBuffer.new true stackOut) with
        lastRecvTs := now }
  | .client msec answer io =>
    after (createTcpClient msec answer io)
      (Connection.new .client 0 .connectting now stackIn (ByteBuffer.new true stackOut))

/-! ## A connection in use -/

/-- What happens next to a connection. -/
inductive Event where
  /-- Time passes, in seconds. -/
  | pass (sec : Nat)
  /-- `SEL_READ`. -/
  | readable (io : Io)
  /-- `SEL_WRITE`. -/
  | writable (io : Io)
  /-- `SEL_TIMEOUT`. -/
  | timeout (io : Io)
  /-- `close`. -/
  | close (throws : Option Exc)
  /-- `send`. -/
  | send (s : SendCall)
  /-- `setKeepaliveTimeout`. -/
  | setKeepaliveTimeout (msec : Int)
  /-- `input().limit(n)`. -/
  | inputLimit (n : Nat)

/-- The call that an event is. -/
def Event.exec : Event → TcpM Unit
  | .pass sec => modify fun c => { c with now := c.now + sec }
  | .readable io => handleRead io
  | .writable io => handleWrite io
  | .timeout io => handleTimeout io
  | .close throws => Connection.close throws
  | .send s => callSend TcpConnection.send s
  | .setKeepaliveTimeout msec => Connection.setKeepaliveTimeout msec
  | .inputLimit n => modify fun c => { c with input := c.input.setLimit n }

/-- A connection from its creation on. -/
def machine (now : Int) (stackIn stackOut : Nat → UInt8) (start : Start) :
    Machine TcpConnection Event where
  init := start.connection now stackIn stackOut
  step c e := some (after e.exec c)

end TcpConnection

end LinSocketIo.Core
