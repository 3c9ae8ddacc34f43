/-
LinSocketIo.Core.SyncFuture — `SyncFuture` and `ISyncFuture::Promise` of
`core/future.h`.

One thread calls `promise()`, hands the promises out, and calls `get()`, which
waits until the counter is 0 and copies the exceptions of the promises to the
results. Other threads complete the promises. `promise()` counts up and
initialises the condition when it counts to 1; `done()` counts down and resumes
when it counts to 0.

Modelling notes. `_promises[i]`, `_results[i]` and the adapter between them are
made together and are one `Slot`; `set_adapter` is called for nothing else. A
result starts with `T()` and with the exception that `errno` gives at that
time. Every call of `set_value` or `set_exception` has an entry in `calls`, and
any number of them may be under way, on one promise too; a step is a write of
the value or the exception, the test of `_done`, its assignment, the counter,
or `resume()`. A promise can be completed when `promise()` has returned it.
`_count` is an `int32_t` and the loop of `get()` casts the size to `int`.
-/
import LinSocketIo.Base.CInt
import LinSocketIo.Core.Future
import LinSocketIo.Core.FutureWait

namespace LinSocketIo.Core.SyncFuture

open LinSocketIo.Base

/-- A promise and its result. -/
structure Slot (T : Type) where
  /-- `_done` of the promise. -/
  done : Bool
  /-- `_e` of the promise. -/
  e : RuntimeException
  /-- The value in the result, where the adapter writes. -/
  first : T
  /-- The exception in the result. -/
  second : RuntimeException

/-- `RuntimeException(0, "success")`. -/
def success : RuntimeException := ⟨0, "success"⟩

/-- The members that complete a promise. -/
inductive Call (T : Type) where
  | setValue (val : T)
  | setException (e : RuntimeException)

/-- What a call writes first, whether the promise is done or not. -/
def Call.write {T : Type} (sl : Slot T) : Call T → Slot T
  | .setValue val => { sl with first := val }
  | .setException e => { sl with e := e }

/-- Where a call is. -/
inductive CallPc where
  /-- The value or the exception is written. -/
  | wrote (p : Nat)
  /-- `_done` was false. -/
  | tested (p : Nat)
  /-- `_done` is set; `done()` comes next. -/
  | marked (p : Nat)
  /-- The counter has come to 0; `resume()` comes next. -/
  | resuming
  | over
  deriving DecidableEq, Repr

/-- Where the thread is that owns the future. -/
inductive OwnerPc where
  | idle
  /-- In `promise()`: the promise is in the vectors. -/
  | pushed
  /-- In `promise()`: the counter has come to 1. -/
  | initing
  /-- In `get()`: the counter was not 0. -/
  | yielding
  /-- In `_cond.wait()`. -/
  | blocked
  /-- In the loop of `get()`. -/
  | copying (i : Nat)
  deriving DecidableEq, Repr

structure State (T : Type) where
  count : Int
  sync : ConditionWrapper
  slots : List (Slot T)
  owner : OwnerPc
  calls : List CallPc

/-- The steps of the owner and of the threads that complete promises. -/
inductive Event (T : Type) where
  /-- `promise()` makes a promise; `err` is what `errno` gives. -/
  | promise (err : RuntimeException)
  | increment
  | init
  /-- `get()` reads the counter. -/
  | get
  /-- One pass of the loop in `yield()`. -/
  | yield
  /-- `_cond.wait()` comes back. -/
  | wake
  /-- One round of the loop in `get()`. -/
  | copy
  /-- `get()` returns. -/
  | ret
  /-- A call on promise `p` writes. -/
  | call (p : Nat) (c : Call T)
  /-- Call `i` tests `_done`. -/
  | test (i : Nat)
  /-- Call `i` sets `_done`. -/
  | mark (i : Nat)
  /-- Call `i` counts down. -/
  | decrement (i : Nat)
  /-- Call `i` resumes. -/
  | resume (i : Nat)

namespace State

variable {T : Type}

/-- The promises that have been returned. -/
def handed (s : State T) : Nat :=
  match s.owner with
  | .pushed | .initing => s.slots.length - 1
  | _ => s.slots.length

/-- `promise()`. -/
def promise [Inhabited T] (s : State T) : Event T → Option (State T)
  | .promise err =>
    if s.owner = .idle then
      some { s with slots := s.slots ++ [⟨false, success, default, err⟩], owner := .pushed }
    else none
  | .increment =>
    if s.owner = .pushed then
      let count := toInt (s.count + 1)
      some { s with count := count, owner := if count = 1 then .initing else .idle }
    else none
  | .init =>
    if s.owner = .initing then some { s with sync := s.sync.init, owner := .idle } else none
  | _ => none

/-- A pass of the loop in `yield()`. -/
def pass (s : State T) : State T :=
  { s with sync := s.sync.yield.1, owner := if s.sync.yield.2 then .copying 0 else .blocked }

/-- `get()`. -/
def get (s : State T) : Event T → Option (State T)
  | .get =>
    if s.owner = .idle then
      some { s with owner := if s.count ≠ 0 then .yielding else .copying 0 }
    else none
  | .yield => if s.owner = .yielding then some s.pass else none
  | .wake => if s.owner = .blocked then some s.pass else none
  | .copy =>
    match s.owner with
    | .copying i =>
      if (i : Int) < toInt s.slots.length then
        match s.slots[i]? with
        | some sl =>
          some { s with
            slots := s.slots.set i { sl with second := sl.e }, owner := .copying (i + 1) }
        | none => none
      else none
    | _ => none
  | .ret =>
    match s.owner with
    | .copying i =>
      if (i : Int) < toInt s.slots.length then none else some { s with owner := .idle }
    | _ => none
  | _ => none

/-- `set_value`, `set_exception` and `done()`. -/
def complete (s : State T) : Event T → Option (State T)
  | .call p c =>
    match s.slots[p]? with
    | some sl =>
      if p < s.handed then
        some { s with slots := s.slots.set p (c.write sl), calls := s.calls ++ [.wrote p] }
      else none
    | none => none
  | .test i =>
    match s.calls[i]? with
    | some (.wrote p) =>
      match s.slots[p]? with
      | some sl => some { s with calls := s.calls.set i (if sl.done then .over else .tested p) }
      | none => none
    | _ => none
  | .mark i =>
    match s.calls[i]? with
    | some (.tested p) =>
      match s.slots[p]? with
      | some sl =>
        some { s with
          slots := s.slots.set p { sl with done := true }, calls := s.calls.set i (.marked p) }
      | none => none
    | _ => none
  | .decrement i =>
    match s.calls[i]? with
    | some (.marked _) =>
      let count := toInt (s.count - 1)
      some { s with count := count, calls := s.calls.set i (if count = 0 then .resuming else .over) }
    | _ => none
  | .resume i =>
    match s.calls[i]? with
    | some .resuming => some { s with sync := s.sync.resume.1, calls := s.calls.set i .over }
    | _ => none
  | _ => none

/-- One step. -/
def step [Inhabited T] (s : State T) (ev : Event T) : Option (State T) :=
  match ev with
  | .promise _ | .increment | .init => s.promise ev
  | .get | .yield | .wake | .copy | .ret => s.get ev
  | .call _ _ | .test _ | .mark _ | .decrement _ | .resume _ => s.complete ev

end State

/-- A new `SyncFuture`. -/
def machine (T : Type) [Inhabited T] : Machine (State T) (Event T) where
  init := ⟨0, ConditionWrapper.new, [], .idle, []⟩
  step := State.step

end LinSocketIo.Core.SyncFuture
