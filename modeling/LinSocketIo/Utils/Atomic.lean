/-
LinSocketIo.Utils.Atomic — the loops of `utils/atomic.h` on a cell that several
threads share.

The functions for the eight types differ in the width of the cell alone. They
read the cell and swap it with `__sync_bool_compare_and_swap`, and what other
threads do in between makes them try again.

* `atomic_linearizable` — to its callers each function is one step.
* `atomic_lockFree` — of three steps that a thread makes inside a function, one
  falls into a time in which some function ends.

Modelling notes. A read of the cell and a `__sync_bool_compare_and_swap` are one
step each, in the order in which the threads make them. A cell holds the bits of
its type: a sum that leaves a signed type keeps its low bits. The functions for
`_MSC_VER` and `memory_barrier` are left out.
-/
import LinSocketIo.Base.Linearize

namespace LinSocketIo.Utils

open LinSocketIo.Base

/-- A call of one of the functions, on a cell of `w` bits. -/
inductive AtomicOp (w : Nat) where
  | increment (n : BitVec w)
  | compareAndSwap (oldValue newValue : BitVec w)
  | tryCompareAndSwap (oldValue newValue : BitVec w)
  | exchange (newValue : BitVec w)

/-- What a function returns. -/
inductive AtomicRes (w : Nat) where
  | value (v : BitVec w)
  | swapped (ok : Bool)
  deriving DecidableEq

namespace AtomicOp

variable {w : Nat}

/-! ## The functions by their names -/

/-- `increment_int32`; the increment is an `int` in all of them. -/
def incrementInt32 (increment : BitVec 32) : AtomicOp 32 := .increment increment

/-- `increment_uint32`. -/
def incrementUint32 (increment : BitVec 32) : AtomicOp 32 := .increment increment

/-- `increment_int64`. -/
def incrementInt64 (increment : BitVec 32) : AtomicOp 64 := .increment (increment.signExtend 64)

/-- `increment_uint64`. -/
def incrementUint64 (increment : BitVec 32) : AtomicOp 64 := .increment (increment.signExtend 64)

/-- `compare_and_swap_int8` and `compare_and_swap_uint8`. -/
def compareAndSwapInt8 : BitVec 8 → BitVec 8 → AtomicOp 8 := .compareAndSwap

/-- `compare_and_swap_int32` and `compare_and_swap_uint32`. -/
def compareAndSwapInt32 : BitVec 32 → BitVec 32 → AtomicOp 32 := .compareAndSwap

/-- `compare_and_swap_int64`, `compare_and_swap_uint64` and `compare_and_swap_pointer`. -/
def compareAndSwapInt64 : BitVec 64 → BitVec 64 → AtomicOp 64 := .compareAndSwap

/-- `try_compare_and_swap_uint8`, for both types. -/
def tryCompareAndSwapUint8 : BitVec 8 → BitVec 8 → AtomicOp 8 := .tryCompareAndSwap

/-- `try_compare_and_swap_int32` and `try_compare_and_swap_uint32`. -/
def tryCompareAndSwapInt32 : BitVec 32 → BitVec 32 → AtomicOp 32 := .tryCompareAndSwap

/-- `try_compare_and_swap_int64`, `try_compare_and_swap_uint64` and `try_compare_swap_pointer`. -/
def tryCompareAndSwapInt64 : BitVec 64 → BitVec 64 → AtomicOp 64 := .tryCompareAndSwap

/-- `exchange_uint8`, for both types. -/
def exchangeUint8 : BitVec 8 → AtomicOp 8 := .exchange

/-- `exchange_int32` and `exchange_uint32`. -/
def exchangeInt32 : BitVec 32 → AtomicOp 32 := .exchange

/-- `exchange_int64` and `exchange_uint64`. -/
def exchangeInt64 : BitVec 64 → AtomicOp 64 := .exchange

/-! ## The loops -/

/-- Where a thread is inside a function. -/
inductive Place (w : Nat) where
  /-- It reads `old_value` from the cell. -/
  | load (op : AtomicOp w)
  /-- `__sync_bool_compare_and_swap(ptr, oldValue, newValue)`. -/
  | swap (op : AtomicOp w) (oldValue newValue : BitVec w)
  /-- It reads `prev_value`, after a swap in `compare_and_swap` that failed. -/
  | reread (oldValue newValue : BitVec w)

/-- The first step of a function. -/
def start : AtomicOp w → Place w
  | .increment n => .load (.increment n)
  | .compareAndSwap oldValue newValue => .swap (.compareAndSwap oldValue newValue) oldValue newValue
  | .tryCompareAndSwap oldValue newValue =>
    .swap (.tryCompareAndSwap oldValue newValue) oldValue newValue
  | .exchange newValue => .load (.exchange newValue)

/-- What a function swaps in for `old_value`. -/
def newValue (oldValue : BitVec w) : AtomicOp w → BitVec w
  | .increment n => oldValue + n
  | .compareAndSwap _ newValue | .tryCompareAndSwap _ newValue | .exchange newValue => newValue

/-- What a function returns once it has swapped. -/
def swapped (oldValue newValue : BitVec w) : AtomicOp w → AtomicRes w
  | .increment _ => .value newValue
  | .compareAndSwap _ _ | .exchange _ => .value oldValue
  | .tryCompareAndSwap _ _ => .swapped true

/-- What a function does when the swap has failed. -/
def failed : AtomicOp w → Next (Place w) (AtomicRes w)
  | .increment n => .goOn (.load (.increment n))
  | .compareAndSwap oldValue newValue => .goOn (.reread oldValue newValue)
  | .tryCompareAndSwap _ _ => .returns (.swapped false)
  | .exchange newValue => .goOn (.load (.exchange newValue))

/-- A step. -/
def step : Place w → BitVec w → BitVec w × Next (Place w) (AtomicRes w)
  | .load op, cell => (cell, .goOn (.swap op cell (op.newValue cell)))
  | .swap op oldValue newValue, cell =>
    if cell = oldValue then (newValue, .returns (op.swapped oldValue newValue))
    else (cell, op.failed)
  | .reread oldValue newValue, cell =>
    if cell = oldValue then
      (cell, .goOn (.swap (.compareAndSwap oldValue newValue) oldValue newValue))
    else (cell, .returns (.value cell))

/-- The functions on one cell. -/
def methods (w : Nat) : Methods (BitVec w) (Place w) (AtomicOp w) (AtomicRes w) := ⟨start, step⟩

/-! ## One step -/

/-- What each function does when it is alone. -/
def apply : AtomicOp w → BitVec w → BitVec w × AtomicRes w
  | .increment n, cell => (cell + n, .value (cell + n))
  | .compareAndSwap oldValue newValue, cell =>
    (if cell = oldValue then newValue else cell, .value cell)
  | .tryCompareAndSwap oldValue newValue, cell =>
    (if cell = oldValue then newValue else cell, .swapped (cell = oldValue))
  | .exchange newValue, cell => (newValue, .value cell)

/-- The places of an operation. A swap tries to put in what belongs to the value it expects, and
one that was asked to swap expects the value it was given. -/
inductive Runs : AtomicOp w → Place w → Prop where
  | load_increment (n : BitVec w) : Runs (.increment n) (.load (.increment n))
  | load_exchange (v : BitVec w) : Runs (.exchange v) (.load (.exchange v))
  | swap_increment (n oldValue : BitVec w) :
    Runs (.increment n) (.swap (.increment n) oldValue (oldValue + n))
  | swap_exchange (v oldValue : BitVec w) : Runs (.exchange v) (.swap (.exchange v) oldValue v)
  | swap_compareAndSwap (oldValue v : BitVec w) :
    Runs (.compareAndSwap oldValue v) (.swap (.compareAndSwap oldValue v) oldValue v)
  | swap_tryCompareAndSwap (oldValue v : BitVec w) :
    Runs (.tryCompareAndSwap oldValue v) (.swap (.tryCompareAndSwap oldValue v) oldValue v)
  | reread (oldValue v : BitVec w) : Runs (.compareAndSwap oldValue v) (.reread oldValue v)

theorem runs_start (op : AtomicOp w) : Runs op op.start := by
  cases op with
  | increment n => exact .load_increment n
  | compareAndSwap oldValue v => exact .swap_compareAndSwap oldValue v
  | tryCompareAndSwap oldValue v => exact .swap_tryCompareAndSwap oldValue v
  | exchange v => exact .load_exchange v

/-- A step changes the cell only as it ends the function, and then it is the whole function. -/
theorem runs_step {op : AtomicOp w} {l : Place w} (h : Runs op l) (cell : BitVec w) :
    (∃ l', step l cell = (cell, .goOn l') ∧ Runs op l') ∨
      step l cell = ((apply op cell).1, .returns (apply op cell).2) := by
  cases h with
  | load_increment n => exact Or.inl ⟨_, rfl, .swap_increment n cell⟩
  | load_exchange v => exact Or.inl ⟨_, rfl, .swap_exchange v cell⟩
  | swap_increment n oldValue =>
    by_cases hcell : cell = oldValue
    · exact Or.inr (by simp [step, apply, swapped, hcell])
    · exact Or.inl ⟨_, by simp [step, failed, hcell], .load_increment n⟩
  | swap_exchange v oldValue =>
    by_cases hcell : cell = oldValue
    · exact Or.inr (by simp [step, apply, swapped, hcell])
    · exact Or.inl ⟨_, by simp [step, failed, hcell], .load_exchange v⟩
  | swap_compareAndSwap oldValue v =>
    by_cases hcell : cell = oldValue
    · exact Or.inr (by simp [step, apply, swapped, hcell])
    · exact Or.inl ⟨_, by simp [step, failed, hcell], .reread oldValue v⟩
  | swap_tryCompareAndSwap oldValue v =>
    by_cases hcell : cell = oldValue
    · exact Or.inr (by simp [step, apply, swapped, hcell])
    · exact Or.inr (by simp [step, apply, failed, hcell])
  | reread oldValue v =>
    by_cases hcell : cell = oldValue
    · exact Or.inl ⟨_, by simp [step, hcell], .swap_compareAndSwap oldValue v⟩
    · exact Or.inr (by simp [step, apply, hcell])

/-- **Each function is one step to its callers**: every run of any number of threads on a cell is
a run in which the functions happen at once, with the same calls, returns and final value. -/
theorem atomic_linearizable (w : Nat) (cell : BitVec w) :
    (methods w).Linearizable cell apply id :=
  Methods.linearizable_of_last runs_start fun _ _ cell h => runs_step h cell

/-- Two threads count. The first one swaps only after the second has, and reads again. -/
example : (((methods 32).machine 7).run ((methods 32).machine 7).init
    [.call 0 (incrementUint32 1), .inner 0, .call 1 (incrementUint32 1), .inner 1, .inner 1,
      .inner 0, .inner 0, .inner 0, .ret 0 (.value 9), .ret 1 (.value 8)]).map Threads.shared =
    some 9 := by decide

/-! ## Progress -/

/-- How many steps a thread makes before its last one, at most, if no other thread changes the
cell. -/
def left : Place w → BitVec w → Nat
  | .load _, _ => 1
  | .swap _ oldValue _, cell => if cell = oldValue then 0 else 2
  | .reread oldValue _, cell => if cell = oldValue then 1 else 0

theorem left_le (l : Place w) (cell : BitVec w) : left l cell ≤ 2 := by
  cases l with
  | load op => simp [left]
  | swap op oldValue newValue => by_cases hcell : cell = oldValue <;> simp [left, hcell]
  | reread oldValue newValue => by_cases hcell : cell = oldValue <;> simp [left, hcell]

/-- A step that does not end its function leaves the cell, and fewer steps. -/
theorem step_left (l : Place w) (cell : BitVec w) :
    (∃ res, (step l cell).2 = .returns res) ∨
      ∃ l', step l cell = (cell, .goOn l') ∧ left l' cell < left l cell := by
  cases l with
  | load op => exact Or.inr ⟨.swap op cell (op.newValue cell), rfl, by simp [left]⟩
  | swap op oldValue newValue =>
    by_cases hcell : cell = oldValue
    · exact Or.inl ⟨op.swapped oldValue newValue, by simp [step, hcell]⟩
    · cases op with
      | increment n =>
        exact Or.inr ⟨.load (.increment n), by simp [step, failed, hcell], by simp [left, hcell]⟩
      | compareAndSwap old new =>
        refine Or.inr ⟨.reread old new, by simp [step, failed, hcell], ?_⟩
        simp only [left, if_neg hcell]
        split <;> decide
      | tryCompareAndSwap old new =>
        exact Or.inl ⟨.swapped false, by simp [step, failed, hcell]⟩
      | exchange v =>
        exact Or.inr ⟨.load (.exchange v), by simp [step, failed, hcell], by simp [left, hcell]⟩
  | reread oldValue newValue =>
    by_cases hcell : cell = oldValue
    · exact Or.inr ⟨.swap (.compareAndSwap oldValue newValue) oldValue newValue,
        by simp [step, hcell], by simp [left, hcell]⟩
    · exact Or.inl ⟨.value cell, by simp [step, hcell]⟩

/-- **The loops are lock-free**: in a run in which no function ends, no thread makes more than
two steps. -/
theorem atomic_lockFree (w : Nat) : (methods w).LockFree 2 :=
  Methods.lockFree_of_measure left_le step_left

end AtomicOp

end LinSocketIo.Utils
