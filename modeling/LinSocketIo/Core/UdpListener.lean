/-
LinSocketIo.Core.UdpListener — how descriptors go from the UDP listener to
connections: `UdpServerSocket::accept` and `handle` in `core/udp_listener.cpp`,
`UdpServer::onAccept` in `core/udp_server.cpp`, `ISocketManager` in
`core/connection.h`, `Manager::createUdpConnection` in `core/manager.cpp` and
the life of an accepted `UdpConnection`.

The listener thread looks the peer of a datagram up in the table, clones a
socket for a peer that is new, and schedules a task with the descriptor. The
worker thread runs the tasks in order, and closes and destroys connections.
The table is all that the two threads share, next to the descriptors of the
process; each of its members is one step, because it holds the lock.

Modelling notes. A descriptor that is closed may be handed out again by the
kernel, to the listener (`Event.clone`) or to any other socket of the process
(`Event.openOther`); descriptor 0 is one of them, though `find` cannot tell it
from no entry. The constructor of a connection fails on a descriptor that is
not open (`getlocal` throws), and may fail on one that is. The id of a new
connection is any that `getConnectionId` can give: not 0, and not of a
connection in the map of the manager. Between `~UdpConnection`, which takes the
peer out of the table, and the end of its socket the listener may take steps,
and so it may at every other call of the worker. The data of a datagram, the
handlers and the timers are left out, and so is the listener without a handler,
which never makes a connection. A listener that shares its thread with the
worker makes some of these runs: each of its tasks comes next.
-/
import LinSocketIo.Base.Machine
import Mathlib.Logic.Function.Basic

namespace LinSocketIo.Core.UdpListener

open LinSocketIo.Base

/-! ## The table of peers -/

/-- The address of a peer. -/
structure Peer where
  ip : UInt32
  port : UInt16
  deriving DecidableEq, Repr

/-- `((uint64_t)peerIp<<32) | peerPort`. -/
def Peer.key (p : Peer) : UInt64 := (p.ip.toUInt64 <<< 32) ||| p.port.toUInt64

/-- `ISocketManager`: the descriptor and the connection id of each key. -/
structure ISocketManager where
  sockets : UInt64 → Option (Nat × UInt32)

namespace ISocketManager

/-- `find`: the descriptor of a peer, or 0. -/
def find (m : ISocketManager) (p : Peer) : Nat :=
  match m.sockets p.key with
  | some (s, _) => s
  | none => 0

/-- `add`. -/
def add (m : ISocketManager) (p : Peer) (s : Nat) : ISocketManager :=
  ⟨Function.update m.sockets p.key (some (s, 0))⟩

/-- `remove`. -/
def remove (m : ISocketManager) (p : Peer) : ISocketManager :=
  ⟨Function.update m.sockets p.key none⟩

/-- `setConnId`, with its result. -/
def setConnId (m : ISocketManager) (p : Peer) (connId : UInt32) : ISocketManager × Bool :=
  match m.sockets p.key with
  | some (s, _) => (⟨Function.update m.sockets p.key (some (s, connId))⟩, true)
  | none => (m, false)

/-- `getConnId`: the connection id of a peer, or 0. -/
def getConnId (m : ISocketManager) (p : Peer) : UInt32 :=
  match m.sockets p.key with
  | some (_, connId) => connId
  | none => 0

end ISocketManager

/-! ## Connections -/

/-- What has become of a connection object. -/
inductive Phase where
  /-- Made, and not yet in the map of the manager. -/
  | made
  /-- In the map. -/
  | listed
  /-- Taken out of the map by `onClose` or `onInitiativeClose`, and still referred to. -/
  | closed
  /-- Gone, with its socket. -/
  | destroyed
  deriving DecidableEq, Repr

/-- An accepted `UdpConnection`. `getConnectionId` gives no 0. -/
structure Accepted where
  fd : Nat
  peer : Peer
  connId : UInt32
  phase : Phase
  connId_ne : connId ≠ 0

/-- The object still has its socket. -/
def Accepted.live (c : Accepted) : Bool := c.phase ≠ .destroyed

/-! ## The two threads -/

/-- Where the listener thread is. -/
inductive ListenerPc where
  | idle
  /-- `find` gave 0. -/
  | missed (p : Peer)
  /-- The new socket is bound, connected and detached. -/
  | cloned (s : Nat) (p : Peer)
  /-- `accept` has returned. -/
  | accepted (s : Nat) (p : Peer)
  deriving DecidableEq, Repr

/-- Where the worker thread is. -/
inductive WorkerPc where
  | idle
  /-- `createUdpConnection` has found no connection to give the datagram to. -/
  | creating (s : Nat) (p : Peer)
  /-- Object `i` is made, and its id is not yet in the table. -/
  | made (i : Nat) (p : Peer)
  /-- The constructor has failed. -/
  | failed (s : Nat) (p : Peer)
  /-- The descriptor is closed, and the object that failed goes. -/
  | dropping (p : Peer)
  /-- Object `i` goes: its peer is out of the table, its socket still there. -/
  | destroying (i : Nat)
  deriving DecidableEq, Repr

structure State where
  /-- The descriptors that are open. -/
  opened : List Nat
  /-- The open descriptors of all other sockets of the process. -/
  others : List Nat
  sockets : ISocketManager
  listener : ListenerPc
  /-- The queue of the worker: descriptor and peer of each task. -/
  tasks : List (Nat × Peer)
  worker : WorkerPc
  /-- Every object made so far. -/
  conns : List Accepted

/-- The steps of the two threads and of the rest of the process. -/
inductive Event where
  /-- `accept` has a datagram of `p` and calls `find`. -/
  | find (p : Peer)
  /-- The kernel gives the new socket the descriptor `s`. -/
  | clone (s : Nat)
  /-- A call on the new socket throws. -/
  | cloneFails
  | add
  /-- `Scheduler::schedule`, and whether the queue takes the task. -/
  | schedule (taken : Bool)
  /-- The worker takes its next task and calls `getConnId` and `getConnection`. -/
  | take
  /-- The constructor succeeds; `id` is from `getConnectionId`. -/
  | construct (id : UInt32)
  | constructFails
  /-- `SocketHelper::soclose(s)` after the constructor has failed. -/
  | soclose
  /-- The object that failed goes: `~UdpConnection` removes its peer. -/
  | drop
  /-- `setConnId` and `addConnection`. -/
  | publish
  /-- The manager forgets connection `i`. -/
  | close (i : Nat)
  /-- The last reference to connection `i` goes: `~UdpConnection` removes its peer. -/
  | destroy (i : Nat)
  /-- `~SocketHelper` closes the descriptor. -/
  | closeSocket
  | openOther (s : Nat)
  | closeOther (s : Nat)
  deriving DecidableEq, Repr

namespace State

/-- Close a descriptor. One that is not open stays so. -/
def closeFd (s : State) (fd : Nat) : State := { s with opened := s.opened.filter (· ≠ fd) }

/-- `getConnection`, as far as it finds something. -/
def getConnection (s : State) (connId : UInt32) : Bool :=
  s.conns.any fun c => c.phase = .listed ∧ c.connId = connId

/-- The object `i` in another phase. -/
def setPhase (s : State) (i : Nat) (ph : Phase) : State :=
  { s with conns := s.conns.modify i fun c => { c with phase := ph } }

/-- The listener thread. -/
def listen (s : State) : Event → Option State
  | .find p =>
    match s.listener with
    | .idle =>
      let fd := s.sockets.find p
      if fd ≠ 0 then some { s with listener := .accepted fd p }
      else some { s with listener := .missed p }
    | _ => none
  | .clone fd =>
    match s.listener with
    | .missed p =>
      if fd ∈ s.opened then none
      else some { s with opened := fd :: s.opened, listener := .cloned fd p }
    | _ => none
  | .cloneFails =>
    match s.listener with
    | .missed _ => some { s with listener := .idle }
    | _ => none
  | .add =>
    match s.listener with
    | .cloned fd p => some { s with sockets := s.sockets.add p fd, listener := .accepted fd p }
    | _ => none
  | .schedule taken =>
    match s.listener with
    | .accepted fd p =>
      -- `handle` calls `onAccept` for `s > 0` only
      if fd > 0 && taken then some { s with tasks := s.tasks ++ [(fd, p)], listener := .idle }
      else some { s with listener := .idle }
    | _ => none
  | _ => none

/-- `createUdpConnection` for the next task, in the order of its calls. -/
def createUdpConnection (s : State) : Event → Option State
  | .take =>
    match s.worker, s.tasks with
    | .idle, (fd, p) :: tasks =>
      let curConnId := s.sockets.getConnId p
      if curConnId ≠ 0 && s.getConnection curConnId then some { s with tasks := tasks }
      else some { s with tasks := tasks, worker := .creating fd p }
    | _, _ => none
  | .construct id =>
    match s.worker with
    | .creating fd p =>
      if h : id ≠ 0 then
        if fd ∈ s.opened ∧ s.getConnection id = false then
          some { s with
            conns := s.conns ++ [⟨fd, p, id, .made, h⟩], worker := .made s.conns.length p }
        else none
      else none
    | _ => none
  | .constructFails =>
    match s.worker with
    | .creating fd p => some { s with worker := .failed fd p }
    | _ => none
  | .soclose =>
    match s.worker with
    | .failed fd p => some { s.closeFd fd with worker := .dropping p }
    | _ => none
  | .drop =>
    match s.worker with
    | .dropping p => some { s with sockets := s.sockets.remove p, worker := .idle }
    | _ => none
  | .publish =>
    match s.worker with
    | .made i p =>
      match s.conns[i]? with
      | some c =>
        -- a `setConnId` that finds no entry is logged, and nothing else
        some { s.setPhase i .listed with
          sockets := (s.sockets.setConnId p c.connId).1, worker := .idle }
      | none => none
    | _ => none
  | _ => none

/-- The worker thread, when it runs no task. -/
def finish (s : State) : Event → Option State
  | .close i =>
    match s.worker, s.conns[i]? with
    | .idle, some c => if c.phase = .listed then some (s.setPhase i .closed) else none
    | _, _ => none
  | .destroy i =>
    match s.worker, s.conns[i]? with
    | .idle, some c =>
      if c.phase = .closed then
        some { s with sockets := s.sockets.remove c.peer, worker := .destroying i }
      else none
    | _, _ => none
  | .closeSocket =>
    match s.worker with
    | .destroying i =>
      match s.conns[i]? with
      | some c => some { (s.closeFd c.fd).setPhase i .destroyed with worker := .idle }
      | none => none
    | _ => none
  | _ => none

/-- All other sockets of the process. -/
def other (s : State) : Event → Option State
  | .openOther fd =>
    if fd ∈ s.opened then none
    else some { s with opened := fd :: s.opened, others := fd :: s.others }
  | .closeOther fd =>
    if fd ∈ s.others then
      some { s.closeFd fd with others := s.others.filter (· ≠ fd) }
    else none
  | _ => none

/-- One step. -/
def step (s : State) (ev : Event) : Option State :=
  match ev with
  | .find _ | .clone _ | .cloneFails | .add | .schedule _ => s.listen ev
  | .take | .construct _ | .constructFails | .soclose | .drop | .publish =>
    s.createUdpConnection ev
  | .close _ | .destroy _ | .closeSocket => s.finish ev
  | .openOther _ | .closeOther _ => s.other ev

end State

/-- A listener that has just started, in a process with these descriptors. -/
def machine (fds : List Nat) : Machine State Event where
  init := ⟨fds, fds, ⟨fun _ => none⟩, .idle, [], .idle, []⟩
  step := State.step

end LinSocketIo.Core.UdpListener
