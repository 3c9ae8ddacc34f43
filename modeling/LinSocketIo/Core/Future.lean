/-
LinSocketIo.Core.Future — the RPC futures of `core/future.h` and
`core/future.cpp`, and the table of futures that a connection keeps
(`Connection` in `core/connection.h`).

A future is completed by `set_value` or `set_exception`, which write its
promise and call `done()`: a `Future` resumes its waiter, an `AsyncFuture`
runs its callback. Timeouts, a sequence number that is used again and the
end of the connection complete a future through `set_exception`.

Modelling notes. `done()` runs user code, which can complete other futures
before the call that is under way goes on. So `push` and `clear` are taken
apart at their calls of `set_exception`: `Event.collide` and
`Event.clearFirst` are these calls, and what a callback does comes after.
The entries of a table are in no particular order. `_timer` is left out:
`timeout` is a public member and can be called at any time, as it is by the
timer. So are `tick`, `setup` and `wait`, which complete nothing.
-/
import Mathlib.Logic.Function.Basic

namespace LinSocketIo.Core

/-- `RuntimeException`. -/
structure RuntimeException where
  code : Int
  message : String
  deriving DecidableEq, Repr

/-- The codes of `RpcException` that complete a future. -/
inductive RpcException where
  | internalError
  | timeout
  | connectionClosed
  deriving DecidableEq, Repr

/-- The value of a code. -/
def RpcException.toCode : RpcException → Int
  | .internalError => 6
  | .timeout => 1006
  | .connectionClosed => 1007

/-- `Promise`. `val` and `code` are what the two codecs write to, if there are any. -/
structure Promise (V : Type) where
  val : Option V
  code : Option Int
  ex : RuntimeException
  connid : Nat
  sn : String
  done : Bool
  deriving DecidableEq, Repr

namespace Promise

variable {V : Type}

/-- `Promise::set_value`. -/
def setValue (p : Promise V) (msg : V) : Promise V :=
  { p with done := true, val := p.val.map fun _ => msg }

/-- `Promise::set_exception`. -/
def setException (p : Promise V) (ex : RuntimeException) : Promise V :=
  { p with done := true, ex := ex, code := p.code.map fun _ => ex.code }

end Promise

/-- The two classes of futures. -/
inductive FutureKind where
  /-- `Future`, with the state of its condition: whether a wait is still to be ended. -/
  | future (wait : Bool)
  /-- `AsyncFuture`, and whether it has a callback. -/
  | asyncFuture (callback : Bool)
  deriving DecidableEq, Repr

/-- `IFuture`, with the number of times that `done()` has been executed, and that
it has resumed a waiter or run a callback. -/
structure IFuture (V : Type) where
  kind : FutureKind
  promise : Promise V
  doneCalls : Nat
  wakeups : Nat
  deriving DecidableEq, Repr

namespace IFuture

variable {V : Type}

/-- `Future::done` and `AsyncFuture::done`. -/
def done (x : IFuture V) : IFuture V :=
  let x := { x with doneCalls := x.doneCalls + 1 }
  match x.kind with
  | .future true => { x with kind := .future false, wakeups := x.wakeups + 1 }
  | .future false => x
  | .asyncFuture true => { x with wakeups := x.wakeups + 1 }
  | .asyncFuture false => x

/-- `IFuture::set_value`. -/
def setValue (x : IFuture V) (msg : V) : IFuture V :=
  if !x.promise.done then done { x with promise := x.promise.setValue msg } else x

/-- `IFuture::set_exception`. The test of `done` in the source ends at a semicolon
of its own, so the block behind it is always executed. -/
def setException (x : IFuture V) (e : RuntimeException) : IFuture V :=
  done { x with promise := x.promise.setException e }

end IFuture

/-! ## Futures and connections -/

/-- The futures of a thread and the connections of its manager. -/
structure Futures (F V : Type) where
  future : F → IFuture V
  /-- The table `_futures` of the connection with an id, if there is one. -/
  table : Nat → Option (List (String × F))
  /-- `dump` of the connection with an id. -/
  dump : Nat → String

/-- The calls that complete futures or change a table. -/
inductive FutureEvent (F V : Type) where
  | setValue (f : F) (msg : V)
  | setException (f : F) (e : RuntimeException)
  /-- `Future::timeout` or `AsyncFuture::timeout`. -/
  | timeout (f : F)
  /-- `push` finds that the sequence number is in use. -/
  | collide (connid : Nat) (sn : String)
  /-- `push` puts the future in the table, in the place of another one. -/
  | insert (connid : Nat) (sn : String) (f : F)
  /-- `pop` and `remove` take an entry out, and so does `clear` after each call. -/
  | erase (connid : Nat) (sn : String)
  /-- `clear`, in the destructor of the connection, comes to its first entry. -/
  | clearFirst (connid : Nat)

namespace Futures

variable {F V : Type}

/-- The future that `connid` has under `sn`. -/
def find (w : Futures F V) (connid : Nat) (sn : String) : Option F :=
  (w.table connid).bind fun l => (l.find? (·.1 = sn)).map (·.2)

/-- Write the table of a connection that exists. -/
def setTable (w : Futures F V) (connid : Nat) (g : List (String × F) → List (String × F)) :
    Futures F V :=
  { w with table := Function.update w.table connid ((w.table connid).map g) }

/-- `_futures.erase(sn)`. -/
def erase (w : Futures F V) (connid : Nat) (sn : String) : Futures F V :=
  w.setTable connid fun l => l.filter (·.1 ≠ sn)

variable [DecidableEq F]

/-- `set_value` on one future. -/
def setValue (w : Futures F V) (f : F) (msg : V) : Futures F V :=
  { w with future := Function.update w.future f ((w.future f).setValue msg) }

/-- `set_exception` on one future. -/
def setException (w : Futures F V) (f : F) (e : RuntimeException) : Futures F V :=
  { w with future := Function.update w.future f ((w.future f).setException e) }

/-- What both `timeout` members do once they go on: the connection forgets the
future, which then ends with an exception. -/
def expire (w : Futures F V) (f : F) : Futures F V :=
  let p := (w.future f).promise
  match w.table p.connid with
  | some _ =>
    (w.erase p.connid p.sn).setException f
      ⟨RpcException.timeout.toCode, "timeout" ++ " " ++ w.dump p.connid⟩
  | none => w.setException f ⟨RpcException.timeout.toCode, "timeout"⟩

/-- `Future::timeout` returns when the future is done; `AsyncFuture::timeout` does
not look. -/
def timeout (w : Futures F V) (f : F) : Futures F V :=
  match (w.future f).kind with
  | .future _ => if (w.future f).promise.done then w else w.expire f
  | .asyncFuture _ => w.expire f

/-- One event. -/
def step (w : Futures F V) : FutureEvent F V → Futures F V
  | .setValue f msg => w.setValue f msg
  | .setException f e => w.setException f e
  | .timeout f => w.timeout f
  | .collide connid sn =>
    match w.find connid sn with
    | some f => w.setException f ⟨RpcException.internalError.toCode, "repeat sequence"⟩
    | none => w
  | .insert connid sn f =>
    w.setTable connid fun l => (sn, f) :: l.filter (·.1 ≠ sn)
  | .erase connid sn => w.erase connid sn
  | .clearFirst connid =>
    match w.table connid with
    | some ((_, f) :: _) =>
      w.setException f ⟨RpcException.connectionClosed.toCode, "connection closed"⟩
    | _ => w

/-- A sequence of events. -/
def run (w : Futures F V) (evs : List (FutureEvent F V)) : Futures F V := evs.foldl step w

end Futures

end LinSocketIo.Core
