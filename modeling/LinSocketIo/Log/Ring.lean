/-
LinSocketIo.Log.Ring — the queue of log records in `BlockingBuffer`
(`log/src/logging.h`, `log/src/logging.cpp`): `finish`, which the threads that
log call, and `consume`, which the thread that writes the file calls.

A record is a chain of blocks, and the queue is a ring of pointers to such
chains. A producer reserves a place by counting `_queueSize` up, takes a
ticket from `_producePos`, which says what slot is its own, and swaps its
chain in for the null pointer. The consumer works the slots off in order:
it copies block by block, clears the slot, moves on and counts down. A record
that does not fit in what is left of the caller's memory is cut between two
blocks, and the rest of the chain goes back to the slot.

Modelling notes. Each access to a shared field is a step of its own. The null
pointer is the empty chain; a chain of a record has a block. Copying a block
and releasing it are one step, because nobody else has the block. Next to the
fields of the source a queue carries its tickets, oldest first, and what the
calls of `consume` have returned. The statistics (`_tryCount`, `_maxWaitTime`,
`_addFailedNum`), the sleep of a producer that finds the queue full and the
memory of the blocks are left out.
-/
import LinSocketIo.Base.CInt
import LinSocketIo.Base.Machine
import Mathlib.Logic.Function.Basic

namespace LinSocketIo.Log

open LinSocketIo.Base

/-- `LOG_LIST_MAX_SIZE`. -/
def logListMaxSize : Nat := 0x4000

/-- What is left of a chain of `LogData`, each with its data; a null pointer is `[]`. -/
abbrev Chain := List (List UInt8)

/-- Where a thread is in `finish`. -/
inductive Producer where
  /-- Not in `finish`. -/
  | idle
  /-- At the condition of the `while` loop. -/
  | reserving (head : Chain)
  /-- In the loop, before `_queueSize` is counted down. -/
  | full (head : Chain)
  /-- Behind the loop. -/
  | reserved (head : Chain)
  /-- `pos` is known. -/
  | ticketed (head : Chain) (pos : Nat)
  /-- The swap has failed. -/
  | failed
  deriving DecidableEq, Repr

/-- Where the consumer is in `consume`; `got` are the `readBytes` bytes in `to`. -/
inductive Consumer where
  /-- Not in `consume`. -/
  | idle
  /-- At the condition of the outer loop. -/
  | testing (n : Nat) (got : List UInt8)
  /-- In the loop. -/
  | loading (n : Nat) (got : List UInt8)
  /-- At the condition of the inner loop. -/
  | copying (n : Nat) (got : List UInt8) (pos : Nat) (dat : Chain)
  /-- Behind the inner loop. -/
  | clearing (n : Nat) (got : List UInt8) (pos : Nat)
  /-- Before `_consumePos++`. -/
  | advancing (n : Nat) (got : List UInt8)
  /-- Before `_queueSize` is counted down. -/
  | decrementing (n : Nat) (got : List UInt8)
  deriving DecidableEq, Repr

/-- A ticket: who has taken it, for what record, and whether the record is in the ring. -/
structure Ticket where
  thread : Nat
  record : Chain
  published : Bool
  deriving DecidableEq, Repr

/-- The ticket after the record of a thread has got into the ring. -/
def Ticket.publish (i : Nat) (t : Ticket) : Ticket :=
  if t.thread = i then { t with published := true } else t

/-- The fields of `BlockingBuffer` that make up the queue, and the threads. -/
structure Ring where
  queueSize : Int
  consumePos : Nat
  producePos : Nat
  logQueue : Nat → Chain
  producers : Nat → Producer
  consumer : Consumer
  /-- What the calls of `consume` have returned. -/
  out : List UInt8
  tickets : List Ticket

namespace Ring

/-- `BlockingBuffer::BlockingBuffer`. -/
def new : Ring := ⟨0, 1, 0, fun _ => [], fun _ => .idle, .idle, [], []⟩

/-- Where a thread is. -/
def setProducer (s : Ring) (i : Nat) (p : Producer) : Ring :=
  { s with producers := Function.update s.producers i p }

/-- `_logQueue[pos] = data`. -/
def setSlot (s : Ring) (pos : Nat) (dat : Chain) : Ring :=
  { s with logQueue := Function.update s.logQueue pos dat }

/-- `increment_int32(&_queueSize, n)`. -/
def countQueue (s : Ring) (n : Int) : Ring := { s with queueSize := toInt (s.queueSize + n) }

/-- `pos & (LOG_LIST_MAX_SIZE-1)`. -/
def slotOf (pos : Nat) : Nat := pos &&& (logListMaxSize - 1)

/-- The next access of a thread in `finish`. -/
def produce (s : Ring) (i : Nat) : Option Ring :=
  match s.producers i with
  | .idle => none
  | .reserving head =>
    let s := s.countQueue 1
    if s.queueSize ≥ logListMaxSize then some (s.setProducer i (.full head))
    else some (s.setProducer i (.reserved head))
  | .full head => some ((s.countQueue (-1)).setProducer i (.reserving head))
  | .reserved head =>
    let producePos := toUInt32 (s.producePos + 1)
    some { s.setProducer i (.ticketed head (slotOf producePos)) with
      producePos := producePos
      tickets := s.tickets ++ [⟨i, head, false⟩] }
  | .ticketed head pos =>
    if s.logQueue pos = [] then
      some { (s.setSlot pos head).setProducer i .idle with tickets := s.tickets.map (Ticket.publish i) }
    else some (s.setProducer i .failed)
  | .failed => some ((s.countQueue (-1)).setProducer i .idle)

/-- The end of `consume`. -/
def ret (s : Ring) (got : List UInt8) : Ring := { s with consumer := .idle, out := s.out ++ got }

/-- The next access of the consumer in `consume`. -/
def work (s : Ring) : Option Ring :=
  match s.consumer with
  | .idle => none
  | .testing n got =>
    if s.queueSize > 0 then some { s with consumer := .loading n got } else some (s.ret got)
  | .loading n got =>
    let pos := slotOf s.consumePos
    match s.logQueue pos with
    | [] => some (s.ret got)
    | dat => some { s with consumer := .copying n got pos dat }
  | .copying n got pos [] => some { s with consumer := .clearing n got pos }
  | .copying n got pos (block :: next) =>
    if toUInt32 (got.length + block.length) > n then some ((s.setSlot pos (block :: next)).ret got)
    else some { s with consumer := .copying n (got ++ block) pos next }
  | .clearing n got pos => some { s.setSlot pos [] with consumer := .advancing n got }
  | .advancing n got =>
    some { s with consumePos := toUInt32 (s.consumePos + 1), consumer := .decrementing n got }
  | .decrementing n got => some { s.countQueue (-1) with consumer := .testing n got }

/-- What happens next. -/
inductive Event where
  /-- A thread calls `finish`; `head` is its chain. -/
  | finish (i : Nat) (head : Chain)
  /-- A thread goes on in `finish`. -/
  | produce (i : Nat)
  /-- The consumer calls `consume`. -/
  | consume (n : Nat)
  /-- The consumer goes on in `consume`. -/
  | work
  deriving DecidableEq, Repr

/-- The queue with `threads` threads that log. -/
def step (threads : Nat) (s : Ring) : Event → Option Ring
  | .finish i head =>
    if i < threads ∧ s.producers i = .idle ∧ head ≠ [] then
      some (s.setProducer i (.reserving head))
    else none
  | .produce i => if i < threads then s.produce i else none
  | .consume n =>
    if s.consumer = .idle then some { s with consumer := .testing n [] } else none
  | .work => s.work

/-- The queue in use. -/
def machine (threads : Nat) : Machine Ring Event := ⟨new, step threads⟩

/-- The bytes of the published records in the order of their tickets. -/
def published (s : Ring) : List UInt8 :=
  ((s.tickets.filter Ticket.published).flatMap Ticket.record).flatten

end Ring

end LinSocketIo.Log
