/-
LinSocketIo.Core.TcpListener — how accepted TCP connections go to the workers:
`TcpServerSocket::handle` and `TcpListener::onAccept` in `core/tcp_listener.cpp`,
`TcpServer::onAccept` and `doAccept` in `core/tcp_server.cpp`,
`Manager::createTcpConnection` in `core/manager.cpp` and the life of an accepted
`TcpConnection`.

Worker 0 runs the listeners. It accepts a connection and, if the server shares
its thread, makes the connection object itself; otherwise it gives a task with
the descriptor to the worker that the hash key of the server chooses, or the
descriptor where the server has none. Every worker takes its whole queue at a
time, and makes the connections of the tasks one after the other.

Modelling notes. The scheduler and `addTask` are those of `Core.Manager`, which
tests the size of a queue and pushes in one step; a task is the number of a
connection, in the order in which they were accepted, or another task. A
descriptor that is closed may be handed out again by the kernel, to the listener
or to any other socket of the process; these others close only descriptors that
they own. The constructor of a connection may fail
(`getlocal`, `setnodelay` and `select` throw), and so may `getClientHandler` of
the application. The map of the manager, the handlers and the timers are left
out, and so is the listener without an accept handler, which `TcpServer` never
makes. The runs end before `Scheduler::stop` deletes the workers.
-/
import LinSocketIo.Core.Manager
import Mathlib.Logic.Function.Basic

namespace LinSocketIo.Core.TcpListener

open LinSocketIo.Base

/-! ## Connections -/

/-- What `TcpServer::onAccept` reads of `IServerContext`. -/
structure IServerContext where
  shareThread : Bool
  hashKey : Option UInt32
  deriving DecidableEq, Repr

/-- `hashKey` of a connection with the descriptor `s`. -/
def IServerContext.key (context : IServerContext) (s : Nat) : UInt32 :=
  context.hashKey.getD (UInt32.ofNat s)

/-- The worker, of `size` workers, for a connection with the descriptor `s`. -/
def IServerContext.worker (context : IServerContext) (size s : Nat) : Nat :=
  if context.shareThread then 0 else (context.key s).toNat % (size - 1) + 1

/-- What has become of an accepted connection. -/
inductive Place where
  /-- `accept` has returned its descriptor. -/
  | listener
  /-- No task was made, or none was queued: nobody has the descriptor. -/
  | refused
  /-- In a task that worker `w` has not yet run. -/
  | queued (w : Nat)
  /-- In the constructor of its object. -/
  | creating (w : Nat)
  /-- The constructor has failed, and the object has let go of the descriptor. -/
  | failed (w : Nat)
  /-- In the map of the manager of worker `w`. -/
  | listed (w : Nat)
  /-- Taken out of the map, and still referred to. -/
  | closed (w : Nat)
  /-- The descriptor is closed. -/
  | gone (w : Nat)
  deriving DecidableEq, Repr

/-- The worker that a connection was given to. -/
def Place.worker : Place → Option Nat
  | .listener | .refused => none
  | .queued w | .creating w | .failed w | .listed w | .closed w | .gone w => some w

/-- The descriptor is that of the connection. -/
def Place.live : Place → Bool
  | .gone _ => false
  | .listener | .refused | .queued _ | .creating _ | .failed _ | .listed _ | .closed _ => true

structure Accepted where
  fd : Nat
  context : IServerContext
  place : Place
  deriving DecidableEq, Repr

/-! ## The threads -/

/-- The tasks in the queue of worker `w`. -/
def queueOf (scheduler : Scheduler (Option Nat)) (w : Nat) : List (Option Nat) :=
  (scheduler.workers[w]?.map (·.queue)).getD []

structure State where
  /-- The descriptors that are open. -/
  opened : List Nat
  /-- The open descriptors of all other sockets of the process. -/
  others : List Nat
  /-- Every connection accepted so far. -/
  conns : List Accepted
  /-- The connection that the listener has just accepted. -/
  listener : Option Nat
  scheduler : Scheduler (Option Nat)
  /-- What worker `w` has taken from its queue and not yet run. -/
  batch : Nat → List (Option Nat)
  /-- The connection that worker `w` is making. -/
  busy : Nat → Option Nat

/-- The steps of the threads and of the rest of the process. -/
inductive Event where
  /-- `accept` returns the descriptor `s` to a listener with this context. -/
  | accept (s : Nat) (context : IServerContext)
  | onAccept
  /-- `getClientHandler` throws. -/
  | handlerThrows
  /-- `_quit` is set. -/
  | quit
  /-- `addTask` of another task. -/
  | addOther (w : Nat)
  /-- Worker `w` takes its queue. -/
  | get (w : Nat)
  /-- Worker `w` runs its next task, as far as the constructor. -/
  | next (w : Nat)
  /-- The constructor succeeds, and the manager has the connection. -/
  | construct (w : Nat)
  | constructFails (w : Nat)
  /-- `SocketHelper::soclose(s)` after the constructor has failed. -/
  | soclose (w : Nat)
  /-- The manager forgets connection `i`. -/
  | close (i : Nat)
  /-- The last reference to connection `i` goes, and `~SocketHelper` closes its descriptor. -/
  | destroy (i : Nat)
  | openOther (s : Nat)
  | closeOther (s : Nat)
  deriving DecidableEq, Repr

namespace State

/-- Where connection `i` is. -/
def place (s : State) (i : Nat) : Option Place := s.conns[i]?.map (·.place)

/-- Connection `i` at another place. -/
def setPlace (s : State) (i : Nat) (p : Place) : State :=
  { s with conns := s.conns.modify i fun c => { c with place := p } }

/-- Close a descriptor. One that is not open stays so. -/
def closeFd (s : State) (fd : Nat) : State := { s with opened := s.opened.filter (· ≠ fd) }

/-- Worker `w` is making connection `i`, or none. -/
def setBusy (s : State) (w : Nat) (i : Option Nat) : State :=
  { s with busy := Function.update s.busy w i }

/-- `accept` has returned the descriptor `fd`. -/
def accept (s : State) (fd : Nat) (context : IServerContext) : State :=
  { s with
    opened := fd :: s.opened
    conns := s.conns ++ [⟨fd, context, .listener⟩]
    listener := some s.conns.length }

/-- `TcpServer::onAccept` for connection `i`. -/
def onAccept (s : State) (i : Nat) (c : Accepted) : State :=
  if c.context.shareThread then
    { (s.setPlace i (.creating 0)).setBusy 0 (some i) with listener := none }
  else
    let r := s.scheduler.schedule (c.context.key c.fd).toNat (some i)
    if r.2 then
      let w := c.context.worker s.scheduler.workers.length c.fd
      { s.setPlace i (.queued w) with listener := none, scheduler := r.1 }
    else { s.setPlace i .refused with listener := none, scheduler := r.1 }

/-- The thread of the listeners. -/
def listen (s : State) : Event → Option State
  | .accept fd context =>
    if s.listener = none ∧ s.busy 0 = none ∧ fd ∉ s.opened then some (s.accept fd context)
    else none
  | .onAccept =>
    match s.listener with
    | some i => s.conns[i]?.map (s.onAccept i)
    | none => none
  | .handlerThrows =>
    -- `handle` catches it, and accepts no more until the next event
    match s.listener with
    | some i => some { s.setPlace i .refused with listener := none }
    | none => none
  | _ => none

/-- The queues of the workers. -/
def queues (s : State) : Event → Option State
  | .quit => some { s with scheduler := { s.scheduler with quit := true } }
  | .addOther w => some { s with scheduler := (s.scheduler.addTask w none).1 }
  | .get w =>
    match s.scheduler.workers[w]? with
    | some worker =>
      if s.batch w = [] ∧ s.busy w = none then
        some { s with
          scheduler := { s.scheduler with
            workers := s.scheduler.workers.set w { worker with queue := [] } }
          batch := Function.update s.batch w worker.queue }
      else none
    | none => none
  | .next w =>
    if s.busy w = none ∧ (w = 0 → s.listener = none) then
      match s.batch w with
      | some i :: tasks =>
        some { (s.setPlace i (.creating w)).setBusy w (some i) with
          batch := Function.update s.batch w tasks }
      | none :: tasks => some { s with batch := Function.update s.batch w tasks }
      | [] => none
    else none
  | _ => none

/-- `createTcpConnection`, from the constructor on. -/
def createTcpConnection (s : State) : Event → Option State
  | .construct w =>
    match s.busy w with
    | some i =>
      if s.place i = some (.creating w) then some ((s.setPlace i (.listed w)).setBusy w none)
      else none
    | none => none
  | .constructFails w =>
    match s.busy w with
    | some i =>
      if s.place i = some (.creating w) then some (s.setPlace i (.failed w)) else none
    | none => none
  | .soclose w =>
    match s.busy w with
    | some i =>
      match s.conns[i]? with
      | some c =>
        if c.place = .failed w then
          some (((s.closeFd c.fd).setPlace i (.gone w)).setBusy w none)
        else none
      | none => none
    | none => none
  | _ => none

/-- The end of a connection. -/
def finish (s : State) : Event → Option State
  | .close i =>
    match s.place i with
    | some (.listed w) => some (s.setPlace i (.closed w))
    | _ => none
  | .destroy i =>
    match s.conns[i]? with
    | some c =>
      match c.place with
      | .closed w => some ((s.closeFd c.fd).setPlace i (.gone w))
      | _ => none
    | none => none
  | _ => none

/-- All other sockets of the process. -/
def other (s : State) : Event → Option State
  | .openOther fd =>
    if fd ∈ s.opened then none
    else some { s with opened := fd :: s.opened, others := fd :: s.others }
  | .closeOther fd =>
    if fd ∈ s.others then
      some { s.closeFd fd with others := s.others.filter (· ≠ fd) }
    else none
  | _ => none

/-- One step. -/
def step (s : State) (ev : Event) : Option State :=
  match ev with
  | .accept _ _ | .onAccept | .handlerThrows => s.listen ev
  | .quit | .addOther _ | .get _ | .next _ => s.queues ev
  | .construct _ | .constructFails _ | .soclose _ => s.createTcpConnection ev
  | .close _ | .destroy _ => s.finish ev
  | .openOther _ | .closeOther _ => s.other ev

/-- The connections that wait for worker `w`. -/
def waiting (s : State) (w : Nat) : List Nat :=
  (s.batch w ++ queueOf s.scheduler w).filterMap id

/-- The worker that connection `i` was given to. -/
def workerOf (s : State) (i : Nat) : Option Nat := (s.place i).bind Place.worker

/-- Connection `i` was given to worker `w`. -/
def isGiven (s : State) (w i : Nat) : Bool := s.workerOf i = some w

/-- The connections that were given to worker `w`, in the order in which they were accepted. -/
def given (s : State) (w : Nat) : List Nat := (List.range s.conns.length).filter (s.isGiven w)

end State

/-- Listeners that have just started, in a process with these descriptors, and `size` workers
with this limit. -/
def machine (fds : List Nat) (size queueLimit : Nat) : Machine State Event where
  init := ⟨fds, fds, [], none, ⟨false, List.replicate size ⟨queueLimit, []⟩⟩,
    fun _ => [], fun _ => none⟩
  step := State.step

end LinSocketIo.Core.TcpListener
