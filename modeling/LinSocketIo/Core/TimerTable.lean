/-
LinSocketIo.Core.TimerTable — what a timer component is for: a flat table
of the armed handlers.

An entry keeps the timeout a handler was last armed with and the time that
has been reported as elapsed since. A click adds to every entry, takes out
the entries whose time is up and leaves the others. The wheel of
`Core.Countdown` is compared with this table, and the event loop of
`Core.Selector` is judged by it.
-/
import Mathlib.Logic.Function.Basic

namespace LinSocketIo.Core

/-- The calls a timer component answers. -/
inductive TimerOp (H : Type) where
  | select (h : H) (timeout : Int)
  | click (elasped : Int)
  deriving DecidableEq, Repr

/-- An armed handler: its timeout and the time elapsed since it was armed. -/
structure TimerEntry where
  timeout : Int
  elapsed : Int
  deriving DecidableEq, Repr

/-- The armed handlers. -/
abbrev TimerTable (H : Type) : Type := H → Option TimerEntry

namespace TimerEntry

/-- The entry after `e` more milliseconds. -/
def add (x : TimerEntry) (e : Int) : TimerEntry := { x with elapsed := x.elapsed + e }

/-- The time that is left. -/
def remaining (x : TimerEntry) : Int := x.timeout - x.elapsed

/-- The time is up. -/
def isDue (x : TimerEntry) : Bool := decide (x.timeout ≤ x.elapsed)

theorem remaining_add (x : TimerEntry) (e : Int) :
    (x.add e).remaining = x.remaining - e := by
  simp only [remaining, add]
  omega

theorem isDue_iff (x : TimerEntry) : x.isDue = true ↔ x.remaining ≤ 0 := by
  simp only [isDue, remaining, decide_eq_true_eq]
  omega

theorem isDue_add_iff (x : TimerEntry) (e : Int) :
    (x.add e).isDue = true ↔ x.timeout ≤ x.elapsed + e := by
  rw [isDue_iff, remaining_add]
  simp only [remaining]
  omega

end TimerEntry

namespace TimerTable

variable {H : Type}

/-- No handler is armed. -/
def empty : TimerTable H := fun _ => none

/-- The handlers that a click of `e` milliseconds makes due. -/
def dueAt (tb : TimerTable H) (e : Int) (h : H) : Prop :=
  ∃ x, tb h = some x ∧ (x.add e).isDue = true

/-- The table after a click: due entries are gone, the others have aged. -/
def click (tb : TimerTable H) (e : Int) : TimerTable H := fun h =>
  (tb h).bind fun x => if (x.add e).isDue then none else some (x.add e)

/-- Arming (`timeout ≥ 0`) writes a fresh entry, cancelling removes it. -/
def select [DecidableEq H] (tb : TimerTable H) (h : H) (timeout : Int) : TimerTable H :=
  Function.update tb h (if timeout < 0 then none else some ⟨timeout, 0⟩)

/-- One call on the table. -/
def step [DecidableEq H] (tb : TimerTable H) : TimerOp H → TimerTable H
  | .select h t => tb.select h t
  | .click e => tb.click e

theorem select_same [DecidableEq H] (tb : TimerTable H) (h : H) (t : Int) :
    tb.select h t h = if t < 0 then none else some ⟨t, 0⟩ := by
  simp [select]

theorem select_other [DecidableEq H] (tb : TimerTable H) {h h' : H} (t : Int) (hne : h' ≠ h) :
    tb.select h t h' = tb h' := by
  simp [select, hne]

end TimerTable

end LinSocketIo.Core
