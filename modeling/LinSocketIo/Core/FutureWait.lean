/-
LinSocketIo.Core.FutureWait — the two waits of `core/future.h`,
`ConditionWrapper` and `CoroutineWrapper`, and `Future::wait` of
`core/future.cpp` on either of them.

The waiter schedules its request and calls `yield()`; another worker runs the
request and completes the promise, which calls `done()` and so `resume()`. The
request is scheduled first, so each step of the one may come between any two
steps of the other.

Modelling notes. `ConditionWrapper` works under the lock of its condition: one
pass of the loop in `yield()`, up to `_cond.wait()` or out of it, is one step,
and so is `resume()`. `pthread_cond_wait` may come back without a signal.
`CoroutineWrapper` has no lock: its members are taken apart at each write of
`_caller` and `_status` and at the calls of `lin_io::Coroutine`. Of that class
(`core/coroutine.h`) the steps that matter are modelled: `Coroutine::yield`
suspends the waiter; `Coroutine::resume` asserts that it has a coroutine,
throws when its thread has no main context or is inside a coroutine itself,
and asserts that the coroutine is not running. What comes after a failed
assertion is left out, and so is what the coroutine does after `wait()`. One
worker completes the promise, by its reply, its timer or the end of its
connection, one after the other; `set_value` leaves a promise alone that is
done, `set_exception` does not. `_timer.stop()` changes nothing here.
-/
import LinSocketIo.Base.Machine

namespace LinSocketIo.Core

open LinSocketIo.Base

/-! ## The wait primitives -/

/-- `Cond::status`. -/
inductive CondStatus where
  | ready
  | wait
  deriving DecidableEq, Repr

/-- `ConditionWrapper`, with what its condition knows: whether a thread waits in
`_cond.wait()`, and whether that thread has been sent a signal. -/
structure ConditionWrapper where
  status : CondStatus
  waiting : Bool
  signalled : Bool
  deriving DecidableEq, Repr

namespace ConditionWrapper

/-- The constructor. -/
def new : ConditionWrapper := ⟨.wait, false, false⟩

/-- `init`, which does not take the lock. -/
def init (c : ConditionWrapper) : ConditionWrapper := { c with status := .wait }

/-- One pass of the loop in `yield`, and whether it leaves the loop. -/
def yield (c : ConditionWrapper) : ConditionWrapper × Bool :=
  match c.status with
  | .wait => ({ c with waiting := true, signalled := false }, false)
  | .ready => ({ c with waiting := false, signalled := false }, true)

/-- `resume`. -/
def resume (c : ConditionWrapper) : ConditionWrapper × Bool :=
  match c.status with
  | .ready => (c, false)
  | .wait => ({ c with status := .ready, signalled := c.waiting }, true)

end ConditionWrapper

/-- `CoroutineWrapper`: whether `_caller` is set, and the status. -/
structure CoroutineWrapper where
  caller : Bool
  status : CondStatus
  deriving DecidableEq, Repr

/-- The constructor. -/
def CoroutineWrapper.new : CoroutineWrapper := ⟨false, .wait⟩

/-- The `Cond` of a future. -/
inductive Cond where
  | condition (c : ConditionWrapper)
  | coroutine (c : CoroutineWrapper)
  deriving DecidableEq, Repr

/-! ## A wait on a future -/

namespace FutureWait

/-- Where the waiter is. -/
inductive WaiterPc where
  | start
  /-- `schedule` has failed, and `wait()` throws. -/
  | threw
  /-- The request is in the queue of a worker; `yield()` comes next. -/
  | scheduled
  /-- In `CoroutineWrapper::yield`, after `_caller` is written. -/
  | callerSet
  /-- In `CoroutineWrapper::yield`, after `_status` is written. -/
  | statusSet
  /-- In `_cond.wait()` or in `Coroutine::yield()`. -/
  | suspended
  | returned
  deriving DecidableEq, Repr

/-- The request is with a worker. -/
def WaiterPc.handed : WaiterPc → Bool
  | .start | .threw => false
  | _ => true

/-- Where the worker is that completes the promise. -/
inductive CompleterPc where
  | idle
  /-- The promise is done; `resume()` comes next. -/
  | resuming
  /-- In `CoroutineWrapper::resume`, before it calls `Coroutine::resume`. -/
  | switching
  /-- An assertion has failed. -/
  | aborted
  deriving DecidableEq, Repr

/-- A future that is waited for. `done` is that of its promise. -/
structure State where
  cond : Cond
  waiter : WaiterPc
  completer : CompleterPc
  done : Bool
  deriving DecidableEq, Repr

/-- The steps of the two threads. -/
inductive Event where
  /-- `Scheduler::schedule`, and whether it takes the request. -/
  | schedule (taken : Bool)
  /-- The next step of `yield()`. -/
  | yield
  /-- `_cond.wait()` comes back. -/
  | wake
  | setValue
  | setException
  /-- `resume()`, up to its call of `Coroutine::resume` if it makes one. -/
  | resume
  /-- `Coroutine::resume`, on a thread that has a main context and one that is inside a
  coroutine. -/
  | switch (main running : Bool)
  deriving DecidableEq, Repr

namespace State

/-- `wait()`. -/
def wait (s : State) : Event → Option State
  | .schedule taken =>
    match s.waiter with
    | .start => some { s with waiter := if taken then .scheduled else .threw }
    | _ => none
  | .yield =>
    match s.cond, s.waiter with
    | .condition c, .scheduled =>
      some { s with
        cond := .condition c.yield.1, waiter := if c.yield.2 then .returned else .suspended }
    | .coroutine c, .scheduled =>
      some { s with cond := .coroutine { c with caller := true }, waiter := .callerSet }
    | .coroutine c, .callerSet =>
      some { s with cond := .coroutine { c with status := .wait }, waiter := .statusSet }
    | .coroutine _, .statusSet => some { s with waiter := .suspended }
    | _, _ => none
  | .wake =>
    match s.cond, s.waiter with
    | .condition c, .suspended =>
      some { s with
        cond := .condition c.yield.1, waiter := if c.yield.2 then .returned else .suspended }
    | _, _ => none
  | _ => none

/-- `set_value` and `set_exception`, up to the call of `resume()` in `done()`. -/
def complete (s : State) : Event → Option State
  | .setValue =>
    if s.completer = .idle ∧ s.waiter.handed then
      if s.done then some s else some { s with done := true, completer := .resuming }
    else none
  | .setException =>
    if s.completer = .idle ∧ s.waiter.handed then
      some { s with done := true, completer := .resuming }
    else none
  | _ => none

/-- `resume()`. -/
def resume (s : State) : Event → Option State
  | .resume =>
    match s.completer, s.cond with
    | .resuming, .condition c =>
      some { s with cond := .condition c.resume.1, completer := .idle }
    | .resuming, .coroutine c =>
      match c.status with
      | .ready => some { s with completer := .idle }
      | .wait =>
        some { s with cond := .coroutine { c with status := .ready }, completer := .switching }
    | _, _ => none
  | .switch main running =>
    match s.completer, s.cond with
    | .switching, .coroutine c =>
      if !c.caller then some { s with completer := .aborted }
      -- `CoroutineException`
      else if !main || running then some { s with completer := .idle }
      else
        match s.waiter with
        | .suspended => some { s with waiter := .returned, completer := .idle }
        | .returned => some { s with completer := .idle }
        | _ => some { s with completer := .aborted }
    | _, _ => none
  | _ => none

/-- One step. An aborted process makes none. -/
def step (s : State) (ev : Event) : Option State :=
  if s.completer = .aborted then none
  else
    match ev with
    | .schedule _ | .yield | .wake => s.wait ev
    | .setValue | .setException => s.complete ev
    | .resume | .switch _ _ => s.resume ev

end State

/-- A new future: its constructor takes a `CoroutineWrapper` inside a coroutine and a
`ConditionWrapper` elsewhere. -/
def machine (inCoroutine : Bool) : Machine State Event where
  init :=
    ⟨if inCoroutine then .coroutine CoroutineWrapper.new else .condition ConditionWrapper.new,
      .start, .idle, false⟩
  step := State.step

end FutureWait

end LinSocketIo.Core
