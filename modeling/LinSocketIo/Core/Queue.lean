/-
LinSocketIo.Core.Queue — the hand-off of tasks to a worker thread:
`MessageQueue` and `Notifier` of `core/queue.h` and `core/queue.cpp`, and
`Worker::onSignals` of `core/worker.cpp`.

A producer appends to the queue under the mutex and, when the queue was
empty or the consumer has asked for it, writes one byte to a pipe. The
consumer's event loop sees the pipe readable, drains it, takes the whole
queue and runs what it took.

Modelling notes. The mutex covers the queue and `_notify`, not the pipe: a
push is two events, between which the consumer can read the pipe but no
one can touch the queue. The pipe is not blocking and holds `capacity`
bytes; a write fails only when it is full, and neither end is closed. A
task is a value, and what running it does, by returning or by throwing, is
the environment's choice.
-/
import LinSocketIo.Base.Machine

namespace LinSocketIo.Core

open LinSocketIo.Base

/-- The fields of `MessageQueue`, with the pipe of its `Notifier`. -/
structure MessageQueue (M : Type) where
  /-- `queue_`. -/
  queue : List M
  /-- `_notify`: notify next time, whatever the queue holds. -/
  notify : Bool
  /-- The bytes in the pipe. -/
  pipe : List UInt8
  deriving Repr

namespace MessageQueue

variable {M : Type}

/-- `Notifier::input`. -/
def input : UInt8 := 0x01

/-- `MessageQueue::MessageQueue`. -/
def new : MessageQueue M := ⟨[], true, []⟩

/-- `push` up to the call of `notify`; whether it is made is returned. -/
def push (q : MessageQueue M) (msg : M) : MessageQueue M × Bool :=
  let notify := q.queue.isEmpty || q.notify
  let q := { q with queue := q.queue ++ [msg] }
  if notify then ({ q with notify := false }, notify) else (q, notify)

/-- `Notifier::notify`. A full pipe is not an error. -/
def notifierNotify (capacity : Nat) (q : MessageQueue M) (signal : UInt8) : MessageQueue M :=
  if q.pipe.length < capacity then { q with pipe := q.pipe ++ [signal] } else q

/-- The size of the buffer in `Notifier::read`. -/
def readSize : Nat := 1024

/-- One round of the loop in `Notifier::read`: the new signals, and whether there
is another round. -/
def read (q : MessageQueue M) (signals : UInt8) : MessageQueue M × UInt8 × Bool :=
  let buf := q.pipe.take readSize
  if buf.length > 0 then
    let signals := buf.foldl (· ||| ·) signals
    ({ q with pipe := q.pipe.drop readSize }, signals, !decide (buf.length < readSize))
  else (q, signals, false)

/-- `get`. -/
def get (q : MessageQueue M) : MessageQueue M × List M :=
  ({ q with queue := [], notify := true }, q.queue)

end MessageQueue

/-! ## The consumer -/

/-- Where the worker's thread stands. -/
inductive Consumer (M : Type) where
  /-- In `epoll_wait`, or busy with other handlers. -/
  | idle
  /-- In `Notifier::read`; `again` when it has read a full buffer before. -/
  | reading (signals : UInt8) (again : Bool)
  /-- Before the call of `get` in `Worker::onSignals`. -/
  | signalled (signals : UInt8)
  /-- In the loop of `Worker::onSignals`, before the first of these tasks. -/
  | running (cs : List M)
  deriving Repr

/-- How a task ends. -/
inductive TaskEnd where
  /-- `run` returns; a task that returns `false` is deleted. -/
  | returned (keep : Bool)
  /-- `run` throws; the exception is logged and the task is deleted. -/
  | threw
  deriving DecidableEq, Repr

/-- A worker with its queue, the producer inside `push`, and what has run. -/
structure Handoff (M : Type) where
  q : MessageQueue M
  /-- The holder of the mutex, inside `push`: whether it is about to notify. -/
  pushing : Option Bool
  consumer : Consumer M
  ran : List M
  deriving Repr

/-- What happens next. -/
inductive HandoffEvent (M : Type) where
  /-- A producer takes the mutex and appends a message. -/
  | push (msg : M)
  /-- It notifies, when it has to, and leaves the mutex. -/
  | pushed
  /-- The event loop calls `Notifier::handle`. -/
  | handle
  /-- One round of `Notifier::read`. -/
  | read
  /-- `Worker::onSignals` calls `get`. -/
  | get
  /-- `Worker::onSignals` runs the next task. -/
  | run (e : TaskEnd)
  deriving Repr

/-- The loop of `Worker::onSignals`, before the first of `cs`. -/
def Consumer.loop {M : Type} (cs : List M) : Consumer M :=
  if cs.isEmpty then .idle else .running cs

namespace Handoff

variable {M : Type}

/-- One event. -/
def step (capacity : Nat) (s : Handoff M) : HandoffEvent M → Option (Handoff M)
  | .push msg =>
    match s.pushing with
    | none => some { s with q := (s.q.push msg).1, pushing := some (s.q.push msg).2 }
    | some _ => none
  | .pushed =>
    match s.pushing with
    | some notify =>
      some { s with
        q := if notify then s.q.notifierNotify capacity MessageQueue.input else s.q
        pushing := none }
    | none => none
  | .handle =>
    match s.consumer with
    | .idle => some { s with consumer := .reading 0 false }
    | _ => none
  | .read =>
    match s.consumer with
    | .reading signals _ =>
      match s.q.read signals with
      | (q, signals, true) => some { s with q := q, consumer := .reading signals true }
      | (q, signals, false) => some { s with q := q, consumer := .signalled signals }
    | _ => none
  | .get =>
    match s.consumer, s.pushing with
    | .signalled _, none => some { s with q := s.q.get.1, consumer := .loop s.q.get.2 }
    | _, _ => none
  | .run _ =>
    match s.consumer with
    | .running (c :: cs) => some { s with consumer := .loop cs, ran := s.ran ++ [c] }
    | _ => none

/-- A worker and its producers, from the start of the worker on. -/
def machine (capacity : Nat) : Machine (Handoff M) (HandoffEvent M) where
  init := ⟨MessageQueue.new, none, .idle, []⟩
  step := step capacity

end Handoff

end LinSocketIo.Core
