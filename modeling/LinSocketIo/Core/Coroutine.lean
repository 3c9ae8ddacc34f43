/-
LinSocketIo.Core.Coroutine — the coroutines of `core/coroutine.h`.

The main coroutine resumes a child, and a child yields to the main coroutine or
comes to its end. Every switch has code on both sides: what a coroutine does
before `swapcontext` and what the other one does behind the `swapcontext` that
it is woken in, or at the start of `_proc`. An event is all that happens until
the code of the application goes on.

Modelling notes. One thread, so its thread-local variables are fields. A
coroutine is its number, in the order of creation, and lives on: the caller of
`resume` holds a reference. What the bodies do is the environment's choice, and
so is whether `swapcontext` fails. `Arg` is a pointer, `none` where it is null.
The stacks are left out.
-/
import Mathlib.Logic.Function.Basic
import LinSocketIo.Base.Machine
import LinSocketIo.Base.Wp

namespace LinSocketIo.Core

open LinSocketIo.Base

/-- `Coroutine::Stat`. -/
inductive Stat where
  | suspended
  | running
  | normal
  | dead
  deriving DecidableEq, Repr

/-- Where the saved context of a coroutine goes on. -/
inductive Context where
  /-- At the start of `_proc`. -/
  | proc
  /-- Behind the `swapcontext` of `yield`. -/
  | yield
  deriving DecidableEq, Repr

/-- A `Coroutine`. -/
structure Coroutine (A : Type) where
  context : Context
  arg : Option A
  stat : Stat
  deriving DecidableEq, Repr

/-- The coroutines of a thread. -/
structure Coroutines (A : Type) where
  /-- The number of coroutines that were created. -/
  made : Nat
  cos : Nat → Coroutine A
  /-- `_running`. -/
  running : Option Nat
  /-- `_main` is there. -/
  main : Bool
  /-- The coroutine of the call of `resume` that the context in `_main` is in. -/
  resumed : Nat
  /-- The coroutine whose code goes on; `none` is the main coroutine. -/
  control : Option Nat
  /-- What `resume` returned. -/
  results : List (Nat × Bool)
  /-- What `yield` returned. -/
  args : List (Nat × Option A)
  /-- What the calls threw. -/
  thrown : List String

namespace Coroutines

variable {A : Type}

/-- A call that may throw `CoroutineException`. -/
abbrev CoM (A : Type) := EStateM String (Coroutines A)

def stat (s : Coroutines A) (i : Nat) : Stat := (s.cos i).stat

/-- One coroutine changes. -/
def change (s : Coroutines A) (i : Nat) (f : Coroutine A → Coroutine A) : Coroutines A :=
  { s with cos := Function.update s.cos i (f (s.cos i)) }

def setStat (s : Coroutines A) (i : Nat) (stat : Stat) : Coroutines A :=
  s.change i fun co => { co with stat := stat }

/-- `Coroutine::Coroutine`. -/
def create : CoM A Nat := do
  if (← get).running.isSome then throw "only allow create coroutine in main coroutine"
  let i := (← get).made
  modify fun s =>
    { s with
      made := s.made + 1, main := true
      cos := Function.update s.cos i ⟨.proc, none, .suspended⟩ }
  return i

/-! ## The two sides of a switch -/

/-- The start of `_proc`. -/
def procStart (s : Coroutines A) (self : Nat) : Coroutines A :=
  { s.setStat self .running with running := some self }

/-- `yield` behind its `swapcontext`, up to the test of `ret`. -/
def yieldBack (s : Coroutines A) (self : Nat) : Coroutines A :=
  { s.setStat self .running with running := some self }

/-- `yield` returns `_arg`. -/
def yieldReturn (s : Coroutines A) (self : Nat) : Coroutines A :=
  { s with args := s.args ++ [(self, (s.cos self).arg)] }

/-- `resume` behind its `swapcontext`. -/
def resumeBack (s : Coroutines A) (co : Nat) (ret : Bool) : Coroutines A :=
  let s := { s with running := none, control := none }
  let s := if ret then s else s.setStat co .dead
  { s with results := s.results ++ [(co, ret)] }

/-- The saved context of a coroutine goes on. -/
def goOn (s : Coroutines A) (co : Nat) : Coroutines A :=
  match (s.cos co).context with
  | .proc => { s.procStart co with control := some co }
  | .yield => { (s.yieldBack co).yieldReturn co with control := some co }

/-- `resume`; `swaps` says that its `swapcontext` does not fail. -/
def resume (co : Nat) (arg : Option A) (swaps : Bool) : CoM A Unit := do
  if !(← get).main then throw "coroutine happen error, main routine not created!"
  if (← get).running.isSome then
    throw "coroutine happen error, only allow call resume in main coroutine"
  if (← get).stat co = .dead then
    modify fun s => { s with results := s.results ++ [(co, false)] }
  else
    modify fun s => s.change co fun c => { c with arg := arg }
    if swaps then modify fun s => { s with resumed := co }.goOn co
    else modify fun s => s.resumeBack co false

/-- `yield`; `swaps` says that its `swapcontext` does not fail. -/
def yield (swaps : Bool) : CoM A Unit := do
  if !(← get).main then throw "coroutine happen error, main routine not created!"
  match (← get).running with
  | none => throw "coroutine happen error, only allow call yield in child coroutine"
  | some self =>
    if (← get).stat self ≠ .running then throw "coroutine happen error, illegal state"
    modify fun s => s.setStat self .normal
    if swaps then
      modify fun s => s.change self fun c => { c with context := .yield }
      modify fun s => s.resumeBack s.resumed true
    else
      modify fun s => s.yieldBack self
      throw "coroutine happen error, dead coroutine"

/-- The end of `_proc`; `uc_link` is the context in `_main`. -/
def procEnd (s : Coroutines A) (self : Nat) : Coroutines A :=
  let s := { s.setStat self .dead with running := none }
  s.resumeBack s.resumed true

/-! ## A thread -/

/-- How the body of a coroutine ends; `_proc` catches what it throws. -/
inductive BodyEnd where
  | returns
  | throws
  deriving DecidableEq, Repr

/-- What the code of the application does next, in the coroutine that has control. -/
inductive Event (A : Type) where
  | create
  | resume (co : Nat) (arg : Option A) (swaps : Bool)
  | yield (swaps : Bool)
  /-- The body ends. -/
  | ends (e : BodyEnd)

/-- The state after a call, with what it threw. -/
def after {α : Type} (x : CoM A α) (s : Coroutines A) : Coroutines A :=
  match x.run s with
  | .ok _ s' => s'
  | .error what s' => { s' with thrown := s'.thrown ++ [what] }

/-- One event. Only a coroutine that was created can be resumed, and only the body of a child
ends. -/
def step (s : Coroutines A) : Event A → Option (Coroutines A)
  | .create => some (after create s)
  | .resume co arg swaps => if co < s.made then some (after (resume co arg swaps) s) else none
  | .yield swaps => some (after (yield swaps) s)
  | .ends _ => s.control.map s.procEnd

/-- A thread before its first coroutine. -/
def start : Coroutines A where
  made := 0
  cos _ := ⟨.proc, none, .suspended⟩
  running := none
  main := false
  resumed := 0
  control := none
  results := []
  args := []
  thrown := []

/-- A thread. -/
def machine (A : Type) : Machine (Coroutines A) (Event A) where
  init := start
  step := step

end Coroutines

end LinSocketIo.Core
