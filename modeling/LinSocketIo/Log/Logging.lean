/-
LinSocketIo.Log.Logging — the thread that writes the log file, and the end of
the program: `Logging::sinkThreadFunc`, `Logging::finish` and
`Logging::~Logging` of `log/src/logging.cpp`.

The sink thread takes what the queue has and hands it to `LogFile::write`.
When it finds the queue empty it goes to sleep. The destructor has to see the
queue emptied once more before it ends the thread: it sets `_threadSync` and
waits, and the sink thread, which resets the flag the first time it finds
nothing to do, wakes it the second time.

Modelling notes. The queue is `Log.Ring`. What a thread does under
`_condMutex` is one step, and `wait` and `wait_for` give the mutex away. A
`wait_for` may end at any time; the `wait` of the destructor ends on its own
accord in the event `wake` only. What `LogFile::write` does is in
`Log.LogFile`. The statistics are left out, and so are the threads that log
after the end of the destructor. Next to the fields of the source a state
carries the calls of `LogFile::write` and how many tickets there were when the
destructor began.
-/
import LinSocketIo.Log.LogData

namespace LinSocketIo.Log

open LinSocketIo.Base

/-- Where the sink thread is in `sinkThreadFunc`. -/
inductive Sink where
  /-- At the condition of the `while` loop. -/
  | testing
  /-- In `consume`. -/
  | consuming
  /-- Before `_logFile.write`. -/
  | writing (dat : List UInt8)
  /-- `consume` has returned 0. -/
  | checking
  /-- Before the lock. -/
  | locking
  /-- In `_proceedCond.wait_for`. -/
  | waiting
  /-- The thread has ended. -/
  | ended
  deriving DecidableEq, Repr

/-- Where the destructor is. -/
inductive Closing where
  /-- Not called. -/
  | running
  /-- In `_hitEmptyCond.wait`. -/
  | waiting
  /-- The wait is over. -/
  | notified
  /-- In `_sinkThread.join`. -/
  | joining
  | joined
  deriving DecidableEq, Repr

/-- `Logging`. -/
structure Logging where
  ring : Ring
  threadSync : Bool
  threadExit : Bool
  sink : Sink
  closing : Closing
  /-- The calls of `LogFile::write`. -/
  writes : List (List UInt8)
  /-- How many tickets there were when the destructor began. -/
  due : Nat

namespace Logging

/-- `Logging::Logging`. -/
def new : Logging := ⟨Ring.new, false, false, .testing, .running, [], 0⟩

/-- What happens next. -/
inductive Event where
  /-- A thread calls `finish`; `head` is its chain. -/
  | finish (i : Nat) (head : Chain)
  /-- A thread goes on in `finish`. -/
  | produce (i : Nat)
  /-- The sink thread goes on. -/
  | work
  /-- The destructor goes on. -/
  | close
  /-- `_hitEmptyCond.wait` ends and nobody has notified it. -/
  | wake
  deriving DecidableEq, Repr

/-- The queue has made a step. -/
def setRing (s : Logging) (r : Ring) : Logging := { s with ring := r }

/-- The sink thread goes on. -/
def work (threads : Nat) (s : Logging) : Option Logging :=
  match s.sink with
  | .testing =>
    if s.threadExit then some { s with sink := .ended }
    else
      (Ring.step threads s.ring (.consume logDataMaxSize)).map fun r =>
        { s.setRing r with sink := .consuming }
  | .consuming =>
    (Ring.step threads s.ring .work).map fun r =>
      if r.consumer = .idle then
        -- `_perConsumeBytes`
        let dat := r.out.drop s.ring.out.length
        { s.setRing r with sink := if dat = [] then .checking else .writing dat }
      else s.setRing r
  | .writing dat => some { s with writes := s.writes ++ [dat], sink := .testing }
  | .checking => some { s with sink := if s.ring.queueSize > 0 then .testing else .locking }
  | .locking =>
    if s.threadSync then some { s with threadSync := false, sink := .testing }
    else
      some { s with
        sink := .waiting
        closing := if s.closing = .waiting then .notified else s.closing }
  | .waiting => some { s with sink := .testing }
  | .ended => none

/-- The destructor goes on. -/
def close (s : Logging) : Option Logging :=
  match s.closing with
  | .running =>
    some { s with threadSync := true, closing := .waiting, due := s.ring.tickets.length }
  | .waiting => none
  | .notified => some { s with threadExit := true, closing := .joining }
  | .joining => if s.sink = .ended then some { s with closing := .joined } else none
  | .joined => none

/-- One event. -/
def step (threads : Nat) (s : Logging) : Event → Option Logging
  | .finish i head => (Ring.step threads s.ring (.finish i head)).map s.setRing
  | .produce i => (Ring.step threads s.ring (.produce i)).map s.setRing
  | .work => s.work threads
  | .close => s.close
  | .wake => if s.closing = .waiting then some { s with closing := .notified } else none

/-- The logging system with `threads` threads that log. -/
def machine (threads : Nat) : Machine Logging Event := ⟨new, step threads⟩

end Logging

end LinSocketIo.Log
