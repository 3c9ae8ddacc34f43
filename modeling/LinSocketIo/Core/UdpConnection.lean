/-
LinSocketIo.Core.UdpConnection — the UDP connection of
`core/udp_connection.h`, `core/udp_connection.cpp` and
`core/udp_client.cpp`, and how `core/manager.cpp` creates one and hands it
the datagrams of its listener.

Output is a queue of datagrams. A datagram goes to the kernel directly while
the queue is empty; what the kernel does not take waits in the queue, which
`flush` works off from the front.

Modelling notes. As for TCP: a `UdpClient` is a connection whose side is
`client`, and an object whose constructor fails for an accepted socket is
destroyed before it gets an event. The descriptor of a connection and the
listener's table of them are the business of `UdpListener`.
-/
import LinSocketIo.Core.Connection

namespace LinSocketIo.Core

open LinSocketIo.Base LinSocketIo.Utils

/-- `UdpConnection`. -/
abbrev UdpConnection := Connection (List (List UInt8))

namespace UdpConnection

open Connection

/-- A call on a UDP connection. -/
abbrev UdpM := ConnM (List (List UInt8))

/-- `_output.push_back`. -/
def pushBack (dat : List UInt8) : UdpM Unit :=
  modify fun c => { c with output := c.output ++ [dat] }

/-- The `try` block of `send`. -/
def sendOrQueue (s : SendCall) : UdpM Unit := do
  let c ← get
  if c.socket.connected && c.output.isEmpty then
    let n ← socketSend s.dat s.answer
    if n = 0 then
      pushBack s.dat
      socketSelect 0 selWrite
    modify fun c => { c with sentBytes := c.sentBytes + UInt64.ofNat n }
  else
    if s.dat.length > 0 then pushBack s.dat
  modify fun c =>
    { c with
      lastSendTs := c.now
      sendBytes := c.sendBytes + UInt64.ofNat s.dat.length }

/-- `send`. -/
def send (s : SendCall) : UdpM Nat := do
  try sendOrQueue s
  catch _ => pure ()
  return toUInt32 (← get).output.length

/-- The loop of `flush`, with the kernel's answers to its sends. -/
def flushLoop : List Answer → UdpM Unit
  | [] => return ()
  | answer :: answers => do
    match (← get).output with
    | [] => return ()
    | dat :: rest =>
      let n ← socketSend dat answer
      if n = 0 then return ()
      else
        modify fun c =>
          { c with sentBytes := c.sentBytes + UInt64.ofNat n, output := rest }
        if rest.isEmpty then socketSelect selWrite 0
        else flushLoop answers

/-- `flush`. -/
def flush (answers : List Answer) : UdpM Bool := do
  flushLoop answers
  return (← get).output.isEmpty

/-- The `try` block of `onConnected`. -/
def establish (io : Io) : UdpM Unit := do
  let b ← flush io.answers
  socketSelect selAll (if b then selRead else selRead ||| selWrite)

/-- `onConnected`, which notifies nobody. -/
def onConnected (io : Io) : UdpM Unit := do
  if (← get).socket.connected then
    modify fun c => { c with status := .established }
    try establish io
    catch e =>
      match e with
      | .socketError _ => pure ()
      | e => throw e

/-- What `onRead` does with what the `try` block throws; the result says whether it goes on. -/
def onReadCatch (io : Io) : Exc → UdpM Bool
  | .buffer (.resourceLimit _) => do
    let _ ← handleOnClose "input buffer no space" io.onCloseThrows
    return true
  | .socketError _ => return false
  | e => throw e

/-- `onRead`. -/
def onRead (io : Io) : UdpM Unit := do
  modify fun c => { c with lastRecvTs := c.now }
  let goOn ← try
      receive io
      pure true
    catch e => onReadCatch io e
  if goOn then deliver send io

/-- `onWrite`. -/
def onWrite (io : Io) : UdpM Unit := Connection.onWrite send (flush io.answers) io

/-- `onTimeout`, of `UdpClient` where the object is one. -/
def onTimeout (io : Io) : UdpM Unit := do
  match (← get).side with
  | .server => Connection.onTimeout io
  | .client => clientOnTimeout send io

/-- `UdpClientSocket::handle`, for `SEL_READ`. -/
def handleRead (io : Io) : UdpM Unit := do
  if (← get).socket.connected then onRead io
  else
    let _ ← completeNonblockingConnect io.connectError
    onConnected io

/-- `UdpClientSocket::handle`, for `SEL_WRITE`. -/
def handleWrite (io : Io) : UdpM Unit := do
  if (← get).socket.connected then onWrite io
  else
    let _ ← completeNonblockingConnect io.connectError
    onConnected io

/-- `UdpClientSocket::handle`, for `SEL_TIMEOUT`. -/
def handleTimeout (io : Io) : UdpM Unit := do
  if (← get).socket.connected then onTimeout io
  else onConnected io

/-! ## Creation -/

/-- The constructor for an accepted socket. -/
def accept (msec : Int) : UdpM Unit := do
  modify fun c => { c with socket := c.socket.attach }
  socketSelect 0 selRead
  if msec > 0 then selectTimeout msec

/-- `doConnect`, which does not look at what `connect` returns. -/
def doConnect : ConnectAnswer → UdpM Unit
  | .done => modify fun c => { c with socket := { c.socket with valid := true, connected := true } }
  | .pending => modify fun c => { c with socket := { c.socket with valid := true } }
  | .fails what => do
    modify fun c => { c with socket := { c.socket with valid := true } }
    throw (.socketError what)

/-- The constructors that connect. -/
def connect (answer : ConnectAnswer) (io : Io) : UdpM Unit :=
  try
    doConnect answer
    select (onConnected io) 0 selConnecting
  catch _ => modify fun c => { c with status := .socketError }

/-- `onData` as the manager calls it, which counts nothing and uses no result. -/
def managerOnData (dat : List UInt8) (handler : Callback) : UdpM Unit := do
  notify (.onData dat)
  let _ ← callback send handler

/-- How the manager creates a connection. -/
inductive Start where
  /-- `createUdpConnection`, with the first datagram and what the handler does in
  `onConnected` and in `onData`. -/
  | accepted (msec : Int) (dat : List UInt8) (connected received : Callback)
  /-- `createUdpClient`; the handler's `onConnected` is in `io`. -/
  | client (answer : ConnectAnswer) (io : Io)

/-- `createUdpConnection` for a new session, once the socket is there. -/
def createUdpConnection (msec : Int) (dat : List UInt8) (connected received : Callback) :
    UdpM Unit := do
  accept msec
  modify fun c => { c with managed := true }
  notify .onConnected
  let _ ← callback send connected
  managerOnData dat received
  modify fun c => { c with recvBytes := c.recvBytes + UInt64.ofNat (toUInt32 dat.length) }

/-- `createUdpClient`. -/
def createUdpClient (answer : ConnectAnswer) (io : Io) : UdpM Unit := do
  connect answer io
  if (← get).status = .socketError then notify (.onClose "socket error")
  else
    modify fun c => { c with managed := true }
    let _ ← handleOnConnected send io.handler io.onCloseThrows

/-- A connection as the manager creates it, at `now` seconds, with what is on the stack
under its input buffer. -/
def Start.connection (now : Int) (stackIn : Nat → UInt8) : Start → UdpConnection
  | .accepted msec dat connected received =>
    after (createUdpConnection msec dat connected received)
      { Connection.new .server msec .established now stackIn [] with lastRecvTs := now }
  | .client answer io =>
    after (createUdpClient answer io)
      { Connection.new .client (-1) .connectting now stackIn [] with lastRecvTs := now }

/-! ## A connection in use -/

/-- What happens next to a connection. -/
inductive Event where
  /-- Time passes, in seconds. -/
  | pass (sec : Nat)
  /-- `SEL_READ`. -/
  | readable (io : Io)
  /-- `SEL_WRITE`. -/
  | writable (io : Io)
  /-- `SEL_TIMEOUT`. -/
  | timeout (io : Io)
  /-- `createUdpConnection` for a datagram of this peer, which finds this connection if
  the manager still has it. -/
  | datagram (dat : List UInt8) (handler : Callback)
  /-- `close`. -/
  | close (throws : Option Exc)
  /-- `send`. -/
  | send (s : SendCall)
  /-- `setKeepaliveTimeout`. -/
  | setKeepaliveTimeout (msec : Int)

/-- The call that an event is. -/
def Event.exec : Event → UdpM Unit
  | .pass sec => modify fun c => { c with now := c.now + sec }
  | .readable io => handleRead io
  | .writable io => handleWrite io
  | .timeout io => handleTimeout io
  | .datagram dat handler => do
    if (← get).managed then managerOnData dat handler
  | .close throws => Connection.close throws
  | .send s => callSend UdpConnection.send s
  | .setKeepaliveTimeout msec => Connection.setKeepaliveTimeout msec

/-- A connection from its creation on. -/
def machine (now : Int) (stackIn : Nat → UInt8) (start : Start) : Machine UdpConnection Event where
  init := start.connection now stackIn
  step c e := some (after e.exec c)

end UdpConnection

end LinSocketIo.Core
