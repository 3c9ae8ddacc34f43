/-
LinSocketIo.Core.Manager — the connection ids of `core/manager.h` and
`core/manager.cpp`, and the routing of `core/scheduler.cpp`.

Every worker thread has a `Manager` that hands out connection ids. The ids
of worker `w` of `n` start at `w - 1` and go up in steps of `n`, so that
`Scheduler::schedule` finds the worker of a connection from its id alone.

Modelling notes. `_seed` is a `uint32_t` and is written through `toUInt32`.
The table of connections is the list of its keys. The loop of
`getConnectionId` is given as many rounds as `_seed` has values: when all of
them are in use it never ends, and the model returns nothing. `addTask` logs
what it rejects at most once a second; the log is left out.
-/
import LinSocketIo.Base.CInt
import LinSocketIo.Base.Machine

namespace LinSocketIo.Core

open LinSocketIo.Base

/-! ## Ids -/

/-- `Manager`: the seed of the ids, the static `_step`, and the keys of
`_connections`. -/
structure Manager where
  seed : Nat
  step : Nat
  connections : List Nat
  deriving DecidableEq, Repr

namespace Manager

/-- `Manager::Manager`. -/
def new (step id : Nat) : Manager := ⟨id % step, step, []⟩

/-- The seed after one round of the loop in `getConnectionId`; 0 is skipped. -/
def nextSeed (m : Manager) : Nat :=
  let seed := toUInt32 (m.seed + m.step)
  if seed = 0 then toUInt32 (seed + m.step) else seed

/-- The loop of `getConnectionId`, with this many rounds at most. -/
def search : Nat → Manager → Option Manager
  | 0, _ => none
  | rounds + 1, m =>
    let m := { m with seed := m.nextSeed }
    if m.seed ∈ m.connections then search rounds m else some m

/-- The number of values of a `uint32_t`. -/
def allSeeds : Nat := 4294967296

/-- `getConnectionId`. -/
def getConnectionId (m : Manager) : Option (Manager × Nat) :=
  (search allSeeds m).map fun m => (m, m.seed)

/-- `addConnection`, for another connection than the one that has the id. -/
def addConnection (m : Manager) (connid : Nat) : Manager × Bool :=
  if connid ∈ m.connections then (m, false)
  else ({ m with connections := connid :: m.connections }, true)

/-- `removeConnection`. -/
def removeConnection (m : Manager) (connid : Nat) : Manager :=
  { m with connections := m.connections.filter (· ≠ connid) }

end Manager

/-- A manager and the ids it has handed out, the last one first. -/
structure IdSource where
  mgr : Manager
  handed : List Nat
  deriving DecidableEq, Repr

/-- The calls on a manager. -/
inductive IdEvent where
  | getConnectionId
  | addConnection (connid : Nat)
  | removeConnection (connid : Nat)
  deriving DecidableEq, Repr

namespace IdSource

/-- One call. The id of a connection is one that was handed out to it. -/
def step (s : IdSource) : IdEvent → Option IdSource
  | .getConnectionId => s.mgr.getConnectionId.map fun r => ⟨r.1, r.2 :: s.handed⟩
  | .addConnection connid =>
    if connid ∈ s.handed then some { s with mgr := (s.mgr.addConnection connid).1 } else none
  | .removeConnection connid => some { s with mgr := s.mgr.removeConnection connid }

/-- The manager of worker `w` of `n`: `Worker::run` gets the one with id `w - 1`. -/
def machine (n w : Nat) : Machine IdSource IdEvent where
  init := ⟨Manager.new n (w - 1), []⟩
  step := step

end IdSource

/-! ## Routing -/

/-- `Worker`, as far as the scheduler sees it: the limit and the tasks in its queue. -/
structure Worker (T : Type) where
  queueLimit : Nat
  queue : List T
  deriving DecidableEq, Repr

/-- `Worker::addTask`. -/
def Worker.addTask {T : Type} (w : Worker T) (c : T) : Worker T × Bool :=
  if w.queue.length > w.queueLimit then (w, false)
  else ({ w with queue := w.queue ++ [c] }, true)

/-- `Scheduler`. -/
structure Scheduler (T : Type) where
  quit : Bool
  workers : List (Worker T)
  deriving DecidableEq, Repr

namespace Scheduler

variable {T : Type}

/-- `addTask` on one of the workers. -/
def addTask (s : Scheduler T) (index : Nat) (c : T) : Scheduler T × Bool :=
  match s.workers[index]? with
  | some worker =>
    ({ s with workers := s.workers.set index (worker.addTask c).1 }, (worker.addTask c).2)
  | none => (s, false)

/-- `schedule(hashkey, c)`. -/
def schedule (s : Scheduler T) (hashkey : Nat) (c : T) : Scheduler T × Bool :=
  if s.quit then (s, false)
  else if s.workers.length < 2 then (s, false)
  else
    let index := hashkey % (s.workers.length - 1) + 1
    s.addTask index c

end Scheduler

end LinSocketIo.Core
