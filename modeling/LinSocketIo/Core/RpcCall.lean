/-
LinSocketIo.Core.RpcCall — remote calls from end to end: `call` and
`async_call` of `core/interface.h`, with the futures of `core/future.h` and
`core/future.cpp` and the table that a connection keeps of them.

A call makes a future and schedules a `Transport` task on the thread of its
connection. The task starts the timer of the future, sends the request and
puts the future into the table of the connection. There the answer finds it,
or its timer, a call with the same sequence number, or the end of the
connection. What goes wrong on the way completes it with an exception.

Modelling notes. The application's handler takes a future out of the table
and completes it in one step, `reply`, and the callbacks of futures do not
call back into connections. `_timer` is what it is due at, and `done()` stops
it. `gettimeofday` does not go back. A future belongs to one call, and
`Transport` gets the connection and the number that are in its promise.
`strerror` is a parameter. What the sender of a request observes beyond its
exceptions is in `Core.TcpConnection`.
-/
import LinSocketIo.Base.CInt
import LinSocketIo.Core.Requests

namespace LinSocketIo.Core

open LinSocketIo.Base

variable {F V : Type}

/-- How `serialize` and `send` end in `Transport::execute`. -/
inductive Sending where
  | sent
  /-- `serialize` returns `false`. -/
  | notSerialized
  | runtimeException (e : RuntimeException)
  | exception (what : String)
  /-- `catch(...)`. -/
  | unknown
  deriving DecidableEq, Repr

/-- How far a call has come. -/
inductive RpcPhase where
  | none
  /-- `create`. -/
  | created
  /-- The task is in the queue of a worker. -/
  | scheduled
  /-- `wait` throws, or `setup` returns `false`. -/
  | refused
  /-- `Transport::run` has ended. -/
  | carried
  deriving DecidableEq, Repr

/-- The fields of a future that belong to its timer. -/
structure RpcCall where
  phase : RpcPhase
  /-- What `create` was given. -/
  ms : Int
  enable : Bool
  t0 : Int
  tms : Int
  /-- What `_timer` is due at, if it is started. -/
  timer : Option Int
  deriving DecidableEq, Repr

/-- The futures, the connections, and the calls under way. -/
structure Rpc (F V : Type) where
  futures : Futures F V
  call : F → RpcCall
  /-- `nowUs() / 1000`. -/
  now : Int

/-- What happens next. -/
inductive RpcEvent (F V : Type) where
  | pass (ms : Nat)
  | create (f : F) (ms : Int)
  /-- `Future::wait` up to its `yield()`, or `AsyncFuture::setup`. -/
  | schedule (f : F) (taken : Bool)
  /-- `Transport::run`. -/
  | transport (f : F) (io : Sending)
  /-- The timer of a future is due. -/
  | fire (f : F)
  /-- The handler gets an answer. -/
  | reply (connid : Nat) (sn : String) (msg : V)
  | connect (connid : Nat)
  /-- The destructor of a connection. -/
  | clear (connid : Nat)

namespace Rpc

section Step

variable [DecidableEq F] (strerror : Int → String)

/-- `RuntimeException(code)`. -/
def errorCode (code : Int) : RuntimeException := ⟨code, strerror code⟩

/-- `IO_BUSY`, `PROTOCOL_ERROR`. -/
def ioBusy : Int := 1002
def protocolError : Int := 7

/-- An event on the futures; `done()` stops the timer. -/
def event (s : Rpc F V) (ev : FutureEvent F V) : Rpc F V :=
  let futures := s.futures.step ev
  { s with
    futures := futures
    call := fun f =>
      if (futures.future f).doneCalls = (s.futures.future f).doneCalls then s.call f
      else { s.call f with timer := none } }

/-- The fields of a timer are written. -/
def setCall (s : Rpc F V) (f : F) (x : RpcCall) : Rpc F V :=
  { s with call := Function.update s.call f x }

/-- `tick`. -/
def tick (now : Int) (x : RpcCall) : RpcCall :=
  let x := if now > x.t0 then { x with tms := x.tms - (now - x.t0) } else x
  if x.enable then x
  else
    { x with
      timer := if x.tms > 0 then some (now + toInt x.tms) else x.timer
      enable := true }

/-- `Connection::push`. -/
def push (s : Rpc F V) (connid : Nat) (sn : String) (f : F) : Rpc F V :=
  match s.futures.find connid sn with
  | some _ =>
    ((s.event (.collide connid sn)).event (.erase connid sn)).event (.insert connid sn f)
  | none => s.event (.insert connid sn f)

/-- `Transport::run`. -/
def transport (s : Rpc F V) (f : F) (io : Sending) : Rpc F V :=
  let s := s.setCall f { tick s.now (s.call f) with phase := .carried }
  let p := (s.futures.future f).promise
  let fail (e : RuntimeException) := s.event (.setException f e)
  if toInt (s.call f).tms ≤ 0 then fail (errorCode strerror ioBusy)
  else
    match s.futures.table p.connid with
    | none => fail (errorCode strerror RpcException.connectionClosed.toCode)
    | some _ =>
      match io with
      | .sent => s.push p.connid p.sn f
      | .notSerialized => fail (errorCode strerror protocolError)
      | .runtimeException e => fail e
      | .exception what => fail ⟨RpcException.internalError.toCode, what⟩
      | .unknown => fail (errorCode strerror RpcException.internalError.toCode)

/-- `Connection::clear`, over the futures of the table. -/
def clearAll (s : Rpc F V) (fs : List F) : Rpc F V :=
  fs.foldl (fun s f => s.event (.setException f connectionClosed)) s

/-- The table of a connection comes into being, or goes. -/
def setTable (s : Rpc F V) (connid : Nat) (t : Option (List (String × F))) : Rpc F V :=
  { s with futures := { s.futures with table := Function.update s.futures.table connid t } }

/-- One event. -/
def step (s : Rpc F V) : RpcEvent F V → Option (Rpc F V)
  | .pass ms => some { s with now := s.now + ms }
  | .create f ms =>
    if (s.call f).phase = .none ∧ -2147483648 ≤ ms ∧ ms ≤ intMax then
      some (s.setCall f ⟨.created, ms, false, s.now, ms, none⟩)
    else none
  | .schedule f taken =>
    if (s.call f).phase = .created then
      let x := match (s.futures.future f).kind with
        | .future _ => { s.call f with t0 := s.now }
        | .asyncFuture _ => s.call f
      let taken := taken && (s.futures.future f).promise.connid != 0
      some (s.setCall f { x with phase := if taken then .scheduled else .refused })
    else none
  | .transport f io =>
    if (s.call f).phase = .scheduled then some (s.transport strerror f io) else none
  | .fire f =>
    match (s.call f).timer with
    | some due =>
      if due ≤ s.now then
        some ((s.setCall f { s.call f with timer := none }).event (.timeout f))
      else none
    | none => none
  | .reply connid sn msg =>
    match s.futures.table connid with
    | none => none
    | some _ =>
      match s.futures.find connid sn with
      | some f => some ((s.event (.erase connid sn)).event (.setValue f msg))
      | none => some s
  | .connect connid =>
    match s.futures.table connid with
    | none => some (s.setTable connid (some []))
    | some _ => none
  | .clear connid =>
    match s.futures.table connid with
    | some entries => some ((s.setTable connid none).clearAll (entries.map (·.2)))
    | none => none

/-- Futures that nothing has happened to, and no connection. -/
structure Blank (w : Futures F V) : Prop where
  new : ∀ f, (w.future f).New
  table : ∀ connid, w.table connid = none

/-- The calls, from given futures. -/
def machine (w : Futures F V) : Machine (Rpc F V) (RpcEvent F V) where
  init := ⟨w, fun _ => ⟨.none, 0, false, 0, 0, none⟩, 0⟩
  step := step strerror

end Step

/-- A call has one outcome, and its timer has been stopped. -/
structure Over (s : Rpc F V) (f : F) : Prop where
  done : (s.futures.future f).promise.done = true
  once : (s.futures.future f).doneCalls = 1
  timer : (s.call f).timer = none
  gone : ∀ connid sn, s.futures.find connid sn ≠ some f

/-- A call is in the table of its connection under its number, and its timer is due at the end of
its time. -/
structure Waits (s : Rpc F V) (f : F) : Prop where
  done : (s.futures.future f).promise.done = false
  never : (s.futures.future f).doneCalls = 0
  timer : (s.call f).timer = some ((s.call f).t0 + (s.call f).ms)
  found : s.futures.find (s.futures.future f).promise.connid (s.futures.future f).promise.sn =
    some f

/-- The task of a call has not waited for 2 ^ 31 milliseconds longer than the call had time. -/
def Timely (s : Rpc F V) : RpcEvent F V → Prop
  | .transport f _ => -2147483648 ≤ (s.call f).tms - (s.now - (s.call f).t0)
  | _ => True

instance instDecidableTimely (s : Rpc F V) : ∀ ev, Decidable (s.Timely ev)
  | .transport f _ =>
    inferInstanceAs (Decidable (-2147483648 ≤ (s.call f).tms - (s.now - (s.call f).t0)))
  | .pass _ | .create _ _ | .schedule _ _ | .fire _ | .reply _ _ _ | .connect _ | .clear _ =>
    isTrue trivial

end Rpc

end LinSocketIo.Core
