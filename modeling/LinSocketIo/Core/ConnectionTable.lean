/-
LinSocketIo.Core.ConnectionTable — the table `_connections` of
`core/manager.cpp`, with the calls of `core/tcp_connection.cpp` and
`core/udp_connection.cpp` that reach it.

The manager creates a connection and puts it in its table, and a connection
that closes notifies the application and has itself removed. The application's
handler runs in between and may call `close` on any connection and create
others, from any callback; so the machine keeps the callbacks that are running
on a stack (`Frame`), each with what the code does when it returns or throws,
and the application is whatever happens while one is on top.

Modelling notes. A connection is an object with a number, in the order of
`new`; its data, timers and addresses are left out, and so is what does not
decide which callback comes next. The selector calls a connection from the
main loop only, in any order and also after it has been closed, since a batch
may still hold it. What a destroyed object is used for is undefined; here it
keeps its fields. `setConnId` has no part in the table.
-/
import LinSocketIo.Core.Manager
import LinSocketIo.Core.Connection

namespace LinSocketIo.Core

open LinSocketIo.Base

/-- `IConnection::Type`. -/
inductive ConnType where
  | tcp
  | udp
  deriving DecidableEq, Repr

/-- A connection, as far as the table depends on it. -/
structure Conn where
  connId : Nat
  type : ConnType
  side : Side
  status : Status
  /-- `socket().isConnected()`. -/
  connected : Bool
  /-- `addConnection` has put it in the table. -/
  created : Bool
  /-- The application has a reference to it. -/
  kept : Bool
  /-- It was deleted in its own constructor. -/
  destroyed : Bool
  deriving DecidableEq, Repr

/-- What follows the callback of a connection. -/
inductive Rest where
  /-- Nothing. -/
  | done
  /-- `onRead` goes on with `handleOnData`. -/
  | data
  /-- `onConnected` returns to the constructor, and that to `createTcpClient`. -/
  | construct
  deriving DecidableEq, Repr

/-- A callback of the application that is running, and for which connection. -/
inductive Frame where
  /-- `onClose` or `onInitiativeClose`, from the `Manager` function of that name. -/
  | closing (i : Nat) (rest : Rest)
  /-- `onConnected`, from `handleOnConnected`. -/
  | connected (i : Nat) (rest : Rest)
  /-- `onData`, from `handleOnData`. -/
  | data (i : Nat)
  /-- `onWrite`. -/
  | write (i : Nat)
  /-- `onHeartbeat`. -/
  | heartbeat (i : Nat)
  /-- `onClose`, from `createTcpClient` or `createUdpClient`. -/
  | failed (i : Nat)
  /-- `onConnected`, from `createTcpConnection`. -/
  | accepted (i : Nat)
  /-- `onConnected`, from `createUdpConnection`. -/
  | udpAccepted (i : Nat)
  /-- `onData`, from `createUdpConnection`. -/
  | udpData (i : Nat)
  deriving DecidableEq, Repr

/-- A manager with its connections. -/
structure ConnTable where
  /-- The seed, and the keys of `_connections`. -/
  mgr : Manager
  /-- The object at a key. -/
  object : Nat → Nat
  /-- The number of objects that have been made. -/
  made : Nat
  conns : Nat → Conn
  stack : List Frame

namespace ConnTable

/-- What `onRead` gets from the socket. -/
inductive Received where
  /-- Something to hand over, or nothing. -/
  | bytes
  /-- `ResourceLimitException` of the input buffer. -/
  | noSpace
  /-- `socket_error`. -/
  | fails
  deriving DecidableEq, Repr

/-- How `flush` ends. -/
inductive Flushed where
  | empty
  | waits
  | fails
  deriving DecidableEq, Repr

/-- What happens next. -/
inductive Event where
  /-- `createTcpClient`; `io`: nothing throws in `onConnected` if the constructor comes to it. -/
  | createTcpClient (answer : ConnectAnswer) (io : Bool)
  /-- `createTcpConnection`; the constructor throws nothing if `io`. -/
  | createTcpConnection (io : Bool)
  /-- `createUdpClient`. -/
  | createUdpClient (answer : ConnectAnswer)
  /-- `createUdpConnection`, where the listener has this id for the peer. -/
  | createUdpConnection (curConnId : Nat) (io : Bool)
  /-- A socket that is not connected is notified: `onConnected`, with the connection or an
  error. -/
  | connect (i : Nat) (ok io : Bool)
  /-- `onRead`. -/
  | read (i : Nat) (received : Received)
  /-- `onWrite`. -/
  | write (i : Nat) (flushed : Flushed)
  /-- `onTimeout`; the time to receive in is over if `expired`. -/
  | timeout (i : Nat) (expired : Bool)
  /-- The application calls `close`. -/
  | close (i : Nat)
  /-- The application takes a reference, or drops the one it has. -/
  | keep (i : Nat) (kept : Bool)
  /-- The callback returns; `negative` is about the result of `onData`. -/
  | returns (negative : Bool)
  /-- The callback throws. -/
  | throws (socketError : Bool)
  deriving DecidableEq, Repr

/-! ## The table -/

/-- `getConnection`. -/
def getConnection (s : ConnTable) (connid : Nat) : Option Nat :=
  if connid ∈ s.mgr.connections then some (s.object connid) else none

/-- What becomes of a connection. -/
def setConn (s : ConnTable) (i : Nat) (c : Conn) : ConnTable :=
  { s with conns := Function.update s.conns i c }

/-- `addConnection`. -/
def addConnection (s : ConnTable) (i : Nat) : ConnTable × Bool :=
  let connid := (s.conns i).connId
  match s.getConnection connid with
  | some j => (s, i = j)
  | none =>
    ({ s.setConn i { s.conns i with created := true } with
        mgr := (s.mgr.addConnection connid).1
        object := Function.update s.object connid i }, true)

/-- `removeConnection`. -/
def removeConnection (s : ConnTable) (connid : Nat) : ConnTable :=
  { s with mgr := s.mgr.removeConnection connid }

/-- `getConnectionId` and `new`. -/
def make (s : ConnTable) (type : ConnType) (side : Side) (status : Status) (connected : Bool) :
    Option (ConnTable × Nat) :=
  s.mgr.getConnectionId.map fun (mgr, connid) =>
    ({ s with
        mgr := mgr
        made := s.made + 1
        conns := Function.update s.conns s.made
          ⟨connid, type, side, status, connected, false, false, false⟩ }, s.made)

/-! ## Calls -/

/-- A callback begins. -/
def push (s : ConnTable) (f : Frame) : ConnTable := { s with stack := f :: s.stack }

/-- What becomes of the status of a connection. -/
def setStatus (s : ConnTable) (i : Nat) (status : Status) : ConnTable :=
  s.setConn i { s.conns i with status := status }

/-- `handleOnClose` and `handleOnInitiativeClose`, up to the callback. -/
def handleClose (s : ConnTable) (i : Nat) (rest : Rest) : ConnTable :=
  (s.setStatus i .disconnected).push (.closing i rest)

/-- `createTcpClient` once the object is made. -/
def tcpClient (s : ConnTable) (i : Nat) : ConnTable :=
  if (s.conns i).status = .socketError then s.push (.failed i) else (s.addConnection i).1

/-- `createUdpClient` once the object is made. -/
def udpClient (s : ConnTable) (i : Nat) : ConnTable :=
  if (s.conns i).status = .socketError then s.push (.failed i)
  else
    let (s, added) := s.addConnection i
    if added then s.push (.connected i .done) else s

/-- `createTcpConnection` once the object is made, and `createUdpConnection`; `f` is the first
callback. -/
def accept (s : ConnTable) (i : Nat) (f : Frame) : ConnTable :=
  if (s.conns i).status ≠ .established then s
  else
    let (s, added) := s.addConnection i
    if added then s.push f else s

/-- What follows a callback. When `onConnected` returns to the constructor, its reference was the
only one unless the application has another. -/
def finish (s : ConnTable) (i : Nat) : Rest → ConnTable
  | .done => s
  | .data => s.push (.data i)
  | .construct =>
    (s.setConn i { s.conns i with destroyed := !(s.conns i).kept }).tcpClient i

/-- `onConnected` of a connected TCP socket. -/
def onConnected (s : ConnTable) (i : Nat) (rest : Rest) (io : Bool) : ConnTable :=
  let s := s.setConn i { s.conns i with connected := true, status := .established }
  if io then s.push (.connected i rest) else s.handleClose i rest

/-- The callback on top returns. -/
def returns (s : ConnTable) (negative : Bool) : Frame → ConnTable
  | .closing i rest => (s.removeConnection (s.conns i).connId).finish i rest
  | .connected i rest => s.finish i rest
  | .data i => if negative then s.handleClose i .done else s
  | .udpAccepted i => s.push (.udpData i)
  | .write _ | .heartbeat _ | .failed _ | .accepted _ | .udpData _ => s

/-- The callback on top throws. -/
def throws (s : ConnTable) (socketError : Bool) : Frame → ConnTable
  | .closing i rest => s.finish i rest
  | .connected i rest => s.handleClose i rest
  | .data i => s.handleClose i .done
  | .write i => if socketError then s.handleClose i .done else s
  | .heartbeat _ | .failed _ | .accepted _ | .udpAccepted _ | .udpData _ => s

/-- The selector notifies a connection. -/
def selected (s : ConnTable) (i : Nat) (connected : Bool) : Bool :=
  s.stack = [] ∧ i < s.made ∧ (s.conns i).connected = connected

/-- One step. -/
def step (s : ConnTable) : Event → Option ConnTable
  | .createTcpClient answer io =>
    (s.make .tcp .client .connectting false).map fun (s, i) =>
      match answer with
      | .done => s.onConnected i .construct io
      | .pending => s.tcpClient i
      | .fails _ => (s.setStatus i .socketError).tcpClient i
  | .createTcpConnection io =>
    (s.make .tcp .server (if io then .established else .socketError) io).map fun (s, i) =>
      s.accept i (.accepted i)
  | .createUdpClient answer =>
    match answer with
    | .done => (s.make .udp .client .established true).map fun (s, i) => s.udpClient i
    | .pending => (s.make .udp .client .connectting false).map fun (s, i) => s.udpClient i
    | .fails _ => (s.make .udp .client .socketError false).map fun (s, i) => s.udpClient i
  | .createUdpConnection curConnId io =>
    match if curConnId = 0 then none else s.getConnection curConnId with
    | some j => some (s.push (.udpData j))
    | none =>
      (s.make .udp .server (if io then .established else .socketError) io).map fun (s, i) =>
        s.accept i (.udpAccepted i)
  | .connect i ok io =>
    if s.selected i false then
      match (s.conns i).type, ok with
      | .tcp, true => some (s.onConnected i .done io)
      | .tcp, false => some (s.handleClose i .done)
      | .udp, true =>
        some (s.setConn i { s.conns i with connected := true, status := .established })
      | .udp, false => some s
    else none
  | .read i received =>
    if s.selected i true then
      match received, (s.conns i).type with
      | .bytes, _ => some (s.push (.data i))
      | .noSpace, _ => some (s.handleClose i .data)
      | .fails, .tcp => some (s.handleClose i .done)
      | .fails, .udp => some s
    else none
  | .write i flushed =>
    if s.selected i true then
      match flushed with
      | .empty => some (s.push (.write i))
      | .waits => some s
      | .fails => some (s.handleClose i .done)
    else none
  | .timeout i expired =>
    if s.selected i true then
      if expired then some (s.handleClose i .done)
      else
        match (s.conns i).side with
        | .server => some s
        | .client => some (s.push (.heartbeat i))
    else none
  | .close i => if i < s.made then some (s.handleClose i .done) else none
  | .keep i kept =>
    if i < s.made then some (s.setConn i { s.conns i with kept := kept }) else none
  | .returns negative =>
    match s.stack with
    | [] => none
    | f :: stack => some (({ s with stack := stack } : ConnTable).returns negative f)
  | .throws socketError =>
    match s.stack with
    | [] => none
    | f :: stack => some (({ s with stack := stack } : ConnTable).throws socketError f)

/-- A manager from its constructor on: `Manager(id)` with `_step`. -/
def machine (step id : Nat) : Machine ConnTable Event where
  init := ⟨Manager.new step id, fun _ => 0, 0,
    fun _ => ⟨0, .tcp, .server, .disconnected, false, false, false, false⟩, []⟩
  step := ConnTable.step

end ConnTable

end LinSocketIo.Core
