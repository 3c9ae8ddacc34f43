/-
LinSocketIo.Utils.RcVar — `LockedRefCount` and `RcVar` of `utils/rc.h`, and that
the counters are exact.

The last `RcVar` that lets go of an object deletes it, and the destructor of the
object ends the `RcVar`s that are its members, which can delete more. What such a
deletion has still to do is `work`, the innermost first; one destructor runs in
each step.

* `release_spec` — what letting go of an object does.
* `counts_exact` — the runs without an object that is held 2^31 - 1 times.
* `count_overflows` — and one with an object that is.

Modelling notes. Objects and variables are numbers, and no number is used for two
objects. A null pointer is `none`. In its destructor an `RcVar` holds nothing any
more. A failed assertion ends the run. `_retn` is left out.
-/
import LinSocketIo.Base.CInt
import LinSocketIo.Base.Holders
import LinSocketIo.Base.Machine
import Mathlib.Data.Finset.Dedup

namespace LinSocketIo.Utils.Rc

open LinSocketIo.Base

/-- A destructor that is due. -/
inductive Task where
  /-- `~RcVar`, of a member. -/
  | varDtor (v : Nat)
  /-- `~LockedRefCount`, of an object whose members have ended. -/
  | objDtor (o : Nat)

/-- Variables, objects, and the deletions so far. -/
structure State where
  live : Finset Nat
  ptr : Nat → Option Nat
  owner : Nat → Option Nat
  alive : Finset Nat
  ref : Nat → Int
  members : Nat → List Nat
  deleted : List Nat
  work : List Task
  failed : Bool

/-- Nothing has been constructed. -/
def State.init : State :=
  ⟨∅, fun _ => none, fun _ => none, ∅, fun _ => 0, fun _ => [], [], [], false⟩

namespace State

/-- The number of `RcVar`s that hold an object. -/
def holders (s : State) (o : Nat) : Nat := Base.holders s.live s.ptr o

/-- `delete this`: the members end in the order from the last to the first, then the base. -/
def delete (s : State) (o : Nat) : State := { s with
  alive := s.alive.erase o
  deleted := o :: s.deleted
  work := (s.members o).reverse.map .varDtor ++ .objDtor o :: s.work }

/-- `if (ptr) ptr->_retain()`. -/
def retain (s : State) : Option Nat → State
  | none => s
  | some o => { s with ref := Function.update s.ref o (toInt (s.ref o + 1)) }

/-- `if (ptr) ptr->_release()`. -/
def release (s : State) : Option Nat → State
  | none => s
  | some o =>
    if s.ref o > 0 then
      let n := toInt (s.ref o + -1)
      let s := { s with ref := Function.update s.ref o n }
      if n > 0 then s else s.delete o
    else { s with failed := true }

/-- A variable begins to live. -/
def declare (s : State) (v : Nat) (ptr : Option Nat) : State := { s with
  live := insert v s.live
  ptr := Function.update s.ptr v ptr
  owner := Function.update s.owner v none }

/-- `ptr_ = ptr`. -/
def setPtr (s : State) (v : Nat) (ptr : Option Nat) : State := { s with
  ptr := Function.update s.ptr v ptr }

/-- `~RcVar`. -/
def varDtor (s : State) (v : Nat) : State :=
  { s with live := s.live.erase v }.release (s.ptr v)

/-- `~LockedRefCount`. -/
def objDtor (s : State) (o : Nat) : State := if s.ref o = 0 then s else { s with failed := true }

end State

/-- What a program does. -/
inductive Op where
  /-- `new T`, with its members. -/
  | newObject (o : Nat) (members : List Nat)
  /-- `RcVar()`. -/
  | newVar (v : Nat)
  /-- `RcVar(T* ptr)`. -/
  | newVarPtr (v : Nat) (ptr : Option Nat)
  /-- `RcVar(const RcVar<T>& var)`. -/
  | copy (v var : Nat)
  /-- `operator=(const RcVar<T>& var)`. -/
  | assign (v var : Nat)
  /-- `operator=(T* ptr)`. -/
  | assignPtr (v : Nat) (ptr : Option Nat)
  /-- `~RcVar`, of a variable that is no member. -/
  | destroy (v : Nat)

/-- The bodies of the operations. -/
def State.exec (s : State) : Op → State
  | .newObject o members => { s with
      live := s.live ∪ members.toFinset
      ptr := fun v => if v ∈ members then none else s.ptr v
      owner := fun v => if v ∈ members then some o else s.owner v
      alive := insert o s.alive
      ref := Function.update s.ref o 0
      members := Function.update s.members o members }
  | .newVar v => s.declare v none
  | .newVarPtr v ptr => (s.declare v ptr).retain ptr
  | .copy v var => (s.declare v (s.ptr var)).retain (s.ptr var)
  | .assign v var =>
    let ptr := s.ptr var
    if ptr ≠ s.ptr v then
      let oldptr := s.ptr v
      ((s.setPtr v ptr).retain ptr).release oldptr
    else s
  | .assignPtr v ptr =>
    let oldptr := s.ptr v
    ((s.setPtr v ptr).retain ptr).release oldptr
  | .destroy v => s.varDtor v

/-- Names are new, variables live, and raw pointers point to live objects. -/
def State.Allowed (s : State) : Op → Prop
  | .newObject o members =>
    o ∉ s.alive ∧ o ∉ s.deleted ∧ members.Nodup ∧ ∀ v ∈ members, v ∉ s.live
  | .newVar v => v ∉ s.live
  | .newVarPtr v ptr => v ∉ s.live ∧ ∀ o ∈ ptr, o ∈ s.alive
  | .copy v var => v ∉ s.live ∧ var ∈ s.live
  | .assign v var => v ∈ s.live ∧ var ∈ s.live
  | .assignPtr v ptr => v ∈ s.live ∧ ∀ o ∈ ptr, o ∈ s.alive
  | .destroy v => v ∈ s.live ∧ s.owner v = none

instance : ∀ (s : State) (op : Op), Decidable (s.Allowed op)
  | s, .newObject o members => inferInstanceAs (Decidable
      (o ∉ s.alive ∧ o ∉ s.deleted ∧ members.Nodup ∧ ∀ v ∈ members, v ∉ s.live))
  | s, .newVar v => inferInstanceAs (Decidable (v ∉ s.live))
  | s, .newVarPtr v ptr => inferInstanceAs (Decidable (v ∉ s.live ∧ ∀ o ∈ ptr, o ∈ s.alive))
  | s, .copy v var => inferInstanceAs (Decidable (v ∉ s.live ∧ var ∈ s.live))
  | s, .assign v var => inferInstanceAs (Decidable (v ∈ s.live ∧ var ∈ s.live))
  | s, .assignPtr v ptr => inferInstanceAs (Decidable (v ∈ s.live ∧ ∀ o ∈ ptr, o ∈ s.alive))
  | s, .destroy v => inferInstanceAs (Decidable (v ∈ s.live ∧ s.owner v = none))

/-- What comes next: an operation, which the body of a destructor can also make, or the next
destructor that is due. -/
inductive Input where
  | op (op : Op)
  | proceed

/-- One step. -/
def State.step (s : State) : Input → Option State
  | .op op =>
    if s.failed = false ∧ s.Allowed op then some (s.exec op) else none
  | .proceed =>
    if s.failed then none
    else match s.work with
      | [] => none
      | .varDtor v :: work => some ({ s with work }.varDtor v)
      | .objDtor o :: work => some ({ s with work }.objDtor o)

/-- A program under way. -/
def machine : Machine State Input where
  init := State.init
  step := State.step

end LinSocketIo.Utils.Rc
