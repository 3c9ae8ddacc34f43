/-
LinSocketIo.Core.Condition — `net::Condition` of `core/worker.h`: one thread
waits in `yield()` until another has called `resume()`.

The object lives on the stack of the thread that waits and is gone when
`yield()` has returned. So there are two things to know about it: a thread
that sleeps will be woken, and the thread that calls `resume()` has left the
object when the other one leaves `yield()`.

* `Sound` — the invariant, kept by every step of either thread.
* `Sound.left_of_passed` — `yield()` returns after `resume()`.
* `Sound.woken` — a thread that sleeps is signalled, unless `resume()` has
  still to come to its `notify()`.

Modelling notes. A step is what a thread does between two moments at which
the other one can notice: taking the lock, testing or writing the status
under it, signalling, leaving. `pthread_cond_wait` gives the lock up as it
falls asleep, may come back without a signal, and takes the lock again.
-/
import LinSocketIo.Core.FutureWait

namespace LinSocketIo.Core

/-- Where a thread is in `yield()`. -/
inductive YieldPc where
  | outside
  /-- Before the test of the loop, with the lock. -/
  | testing
  /-- In `_cond.wait()`. -/
  | sleeping
  /-- On its way out of `_cond.wait()`, before it has the lock. -/
  | woken
  /-- `yield()` has returned. -/
  | returned
  deriving DecidableEq, Repr

/-- Where a thread is in `resume()`. -/
inductive ResumePc where
  | outside
  /-- Before the test of the status, with the lock. -/
  | testing
  /-- The status is written; `notify()` comes next. -/
  | readied
  /-- After `notify()`, with the lock. -/
  | notified
  /-- `resume()` has returned. -/
  | returned
  deriving DecidableEq, Repr

/-- A step of the thread in `yield()`. -/
inductive YieldStep where
  | lock
  | test
  /-- `_cond.wait()` is about to come back. -/
  | wake
  deriving DecidableEq, Repr

/-- A step of the thread in `resume()`. -/
inductive ResumeStep where
  | lock
  | test
  | notify
  | unlock
  deriving DecidableEq, Repr

/-- `net::Condition`, with the two threads that use it, and whether the one that sleeps has been
signalled. -/
structure Condition where
  status : CondStatus
  signalled : Bool
  yielder : YieldPc
  resumer : ResumePc
  deriving DecidableEq, Repr

/-- The thread in `resume()` has the lock. -/
def ResumePc.locked : ResumePc → Bool
  | .testing | .readied | .notified => true
  | .outside | .returned => false

namespace Condition

/-- The constructor. -/
def new : Condition := ⟨.wait, false, .outside, .outside⟩

/-- `yield`. -/
def yield (c : Condition) : YieldStep → Option Condition
  | .lock =>
    if (c.yielder = .outside ∨ c.yielder = .woken) ∧ c.resumer.locked = false then
      some { c with yielder := .testing }
    else none
  | .test =>
    if c.yielder = .testing then
      match c.status with
      | .wait => some { c with yielder := .sleeping, signalled := false }
      | .ready => some { c with yielder := .returned }
    else none
  | .wake => if c.yielder = .sleeping then some { c with yielder := .woken } else none

/-- `resume`. -/
def resume (c : Condition) : ResumeStep → Option Condition
  | .lock =>
    if c.resumer = .outside ∧ c.yielder ≠ .testing then some { c with resumer := .testing }
    else none
  | .test =>
    if c.resumer = .testing then
      match c.status with
      | .ready => some { c with resumer := .returned }
      | .wait => some { c with status := .ready, resumer := .readied }
    else none
  | .notify =>
    if c.resumer = .readied then
      some { c with signalled := decide (c.yielder = .sleeping), resumer := .notified }
    else none
  | .unlock => if c.resumer = .notified then some { c with resumer := .returned } else none

/-- What holds between the steps, when each function is called once. -/
structure Sound (c : Condition) : Prop where
  /-- The lock is held once. -/
  exclusive : c.yielder = .testing → c.resumer.locked = false
  ready : c.status = .ready ↔
    c.resumer = .readied ∨ c.resumer = .notified ∨ c.resumer = .returned
  left_of_passed : c.yielder = .returned → c.resumer = .returned
  woken : c.yielder = .sleeping → c.resumer = .notified ∨ c.resumer = .returned →
    c.signalled = true

theorem sound_new : Sound new where
  exclusive _ := rfl
  ready := by decide
  left_of_passed h := by cases h
  woken h := by cases h

variable {c c' : Condition}

theorem Sound.yield (hc : c.Sound) {st : YieldStep} (h : c.yield st = some c') : c'.Sound := by
  cases st with
  | lock =>
    simp only [Condition.yield, Option.ite_none_right_eq_some, Option.some.injEq] at h
    obtain ⟨⟨-, hfree⟩, rfl⟩ := h
    exact ⟨fun _ => hfree, hc.ready, (fun h => by cases h), (fun h => by cases h)⟩
  | test =>
    simp only [Condition.yield, Option.ite_none_right_eq_some] at h
    obtain ⟨htesting, h⟩ := h
    have hfree := hc.exclusive htesting
    have hready := hc.ready
    cases hstatus : c.status with
    | wait =>
      rw [hstatus] at h hready
      obtain rfl := Option.some.inj h
      refine ⟨(fun h => by cases h), hready, (fun h => by cases h), fun _ hlate => ?_⟩
      exact absurd (hready.mpr (Or.inr hlate)) (by decide)
    | ready =>
      rw [hstatus] at h hready
      obtain rfl := Option.some.inj h
      refine ⟨(fun h => by cases h), hready, fun _ => ?_, (fun h => by cases h)⟩
      -- the one that made it ready does not hold the lock any more
      rcases hready.mp rfl with hr | hr | hr
      · rw [hr] at hfree
        cases hfree
      · rw [hr] at hfree
        cases hfree
      · exact hr
  | wake =>
    simp only [Condition.yield, Option.ite_none_right_eq_some, Option.some.injEq] at h
    obtain ⟨-, rfl⟩ := h
    exact ⟨(fun h => by cases h), hc.ready, (fun h => by cases h), (fun h => by cases h)⟩

theorem Sound.resume (hc : c.Sound) {st : ResumeStep} (h : c.resume st = some c') : c'.Sound := by
  cases st with
  | lock =>
    simp only [Condition.resume, Option.ite_none_right_eq_some, Option.some.injEq] at h
    obtain ⟨⟨hout, hnot⟩, rfl⟩ := h
    have hready := hc.ready
    simp only [hout] at hready
    refine ⟨fun h => absurd h hnot, ?_, fun h => ?_, fun _ h => ?_⟩
    · simpa using hready
    · have hpassed := hc.left_of_passed h
      rw [hout] at hpassed
      cases hpassed
    · rcases h with h | h <;> cases h
  | test =>
    simp only [Condition.resume, Option.ite_none_right_eq_some] at h
    obtain ⟨htesting, h⟩ := h
    have hready := hc.ready
    simp only [htesting] at hready
    cases hstatus : c.status with
    | ready =>
      rw [hstatus] at hready
      simp at hready
    | wait =>
      rw [hstatus] at h
      obtain rfl := Option.some.inj h
      refine ⟨fun h => ?_, by simp, fun h => ?_, fun _ h => ?_⟩
      · have hfree := hc.exclusive h
        rw [htesting] at hfree
        cases hfree
      · have hpassed := hc.left_of_passed h
        rw [htesting] at hpassed
        cases hpassed
      · rcases h with h | h <;> cases h
  | notify =>
    simp only [Condition.resume, Option.ite_none_right_eq_some, Option.some.injEq] at h
    obtain ⟨hreadied, rfl⟩ := h
    refine ⟨fun h => ?_, ?_, fun h => ?_, fun h _ => decide_eq_true h⟩
    · have hfree := hc.exclusive h
      rw [hreadied] at hfree
      cases hfree
    · have hready := hc.ready
      simp only [hreadied] at hready
      simpa using hready
    · have hpassed := hc.left_of_passed h
      rw [hreadied] at hpassed
      cases hpassed
  | unlock =>
    simp only [Condition.resume, Option.ite_none_right_eq_some, Option.some.injEq] at h
    obtain ⟨hnotified, rfl⟩ := h
    refine ⟨fun _ => rfl, ?_, fun _ => rfl, fun h _ => hc.woken h (Or.inl hnotified)⟩
    have hready := hc.ready
    simp only [hnotified] at hready
    simpa using hready

end Condition

end LinSocketIo.Core
