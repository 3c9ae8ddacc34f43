/-
LinSocketIo.Core.BackPressure — how long the queue of a worker gets.

`Worker::addTask` asks for the size of the queue and pushes afterwards, and the
mutex is free in between. So producers that have all been told that there is
room push one after the other, past the limit. What a producer that is between
the two may still add is counted with the queue: the sum grows only when a
producer passes the test, and then the queue is within the limit.

* `queue_bounded` — the queue exceeds the limit by one task for each producer
  at most.
-/
import LinSocketIo.Base.Threads
import LinSocketIo.Core.QueueTheorems

namespace LinSocketIo.Core

open LinSocketIo.Base

/-- A worker and the producers that call `addTask`. -/
structure Submitting (M : Type) where
  worker : Handoff M
  /-- The task of a producer that has passed the test of the size and not pushed yet. -/
  passed : Nat → Option M

/-- What happens next. -/
inductive SubmitEvent (M : Type) where
  /-- A producer calls `addTask` and tests the size. -/
  | test (i : Nat) (c : M)
  /-- It calls `push`. -/
  | push (i : Nat)
  /-- The holder of the mutex leaves `push`, or the consumer goes on. -/
  | worker (ev : HandoffEvent M)

namespace Submitting

variable {M : Type}

/-- One event, with `producers` producers and `_queueLimit`. -/
def step (capacity producers queueLimit : Nat) (s : Submitting M) :
    SubmitEvent M → Option (Submitting M)
  | .test i c =>
    -- `size` takes the mutex
    if i < producers ∧ s.passed i = none ∧ s.worker.pushing = none then
      if s.worker.q.queue.length > queueLimit then some s
      else some { s with passed := Function.update s.passed i (some c) }
    else none
  | .push i =>
    if i < producers then
      match s.passed i with
      | some c =>
        (s.worker.step capacity (.push c)).map fun worker =>
          { worker := worker, passed := Function.update s.passed i none }
      | none => none
    else none
  | .worker (.push _) => none
  | .worker ev => (s.worker.step capacity ev).map fun worker => { s with worker := worker }

/-- A worker and its producers, from the start of the worker on. -/
def machine (capacity producers queueLimit : Nat) : Machine (Submitting M) (SubmitEvent M) where
  init := ⟨(Handoff.machine capacity).init, fun _ => none⟩
  step := step capacity producers queueLimit

/-- The number of producers between the test and the push. -/
def between (s : Submitting M) (producers : Nat) : Nat :=
  countBelow Option.isSome s.passed producers

/-- What waits and what may still come is within the bound. -/
def Bounded (producers queueLimit : Nat) (s : Submitting M) : Prop :=
  s.worker.q.queue.length + s.between producers ≤ queueLimit + producers

/-- The consumer takes the whole queue or leaves it. -/
theorem length_queue_worker {capacity : Nat} {w w' : Handoff M} {ev : HandoffEvent M}
    (hev : ∀ c, ev ≠ .push c) (h : w.step capacity ev = some w') :
    w'.q.queue.length ≤ w.q.queue.length := by
  cases ev with
  | push c => exact absurd rfl (hev c)
  | pushed =>
      simp only [Handoff.step] at h
      split at h
      · next notify _ =>
          cases h
          cases notify <;> simp
      · cases h
  | handle =>
      simp only [Handoff.step] at h
      split at h <;> cases h
      exact Nat.le_refl _
  | read =>
      simp only [Handoff.step] at h
      split at h
      · next signals again _ =>
          have hqueue := Handoff.queue_read w.q signals
          split at h <;>
          · next q' _ hread =>
              rw [hread] at hqueue
              cases h
              exact Nat.le_of_eq (congrArg List.length hqueue)
      · cases h
  | get =>
      simp only [Handoff.step] at h
      split at h <;> cases h
      exact Nat.zero_le _
  | run e =>
      simp only [Handoff.step] at h
      split at h <;> cases h
      exact Nat.le_refl _

/-- Every event keeps the bound. -/
theorem bounded_step {capacity producers queueLimit : Nat} {s s' : Submitting M}
    {ev : SubmitEvent M} (hs : s.Bounded producers queueLimit)
    (h : step capacity producers queueLimit s ev = some s') : s'.Bounded producers queueLimit := by
  unfold Bounded between at *
  cases ev with
  | test i c =>
      simp only [step] at h
      split at h
      · next hi =>
          split at h
          · cases h
            exact hs
          · -- the queue is within the limit, and every producer may be past the test
            next hroom =>
              cases h
              have hall := countBelow_le Option.isSome (Function.update s.passed i (some c)) producers
              simp only
              omega
      · cases h
  | push i =>
      simp only [step] at h
      split at h
      · next hi =>
          split at h
          · next c hpassed =>
              obtain ⟨w, hw, rfl⟩ := Option.map_eq_some_iff.mp h
              have hcount := countBelow_update Option.isSome s.passed none hi
              rw [hpassed] at hcount
              simp only [Option.isSome_some, Option.isSome_none, Bool.toNat_true, Bool.toNat_false]
                at hcount
              have hlen : w.q.queue.length = s.worker.q.queue.length + 1 := by
                simp only [Handoff.step] at hw
                split at hw <;> cases hw
                simp
              simp only
              omega
          · cases h
      · cases h
  | worker ev =>
      have hworker : ∃ w, s.worker.step capacity ev = some w ∧ (∀ c, ev ≠ .push c) ∧
          s' = { s with worker := w } := by
        cases ev with
        | push c => cases h
        | pushed | handle | read | get | run e =>
            obtain ⟨w, hw, rfl⟩ := Option.map_eq_some_iff.mp h
            exact ⟨w, hw, (fun c hc => by cases hc), rfl⟩
      obtain ⟨w, hw, hev, rfl⟩ := hworker
      have hlen := length_queue_worker hev hw
      simp only
      omega

/-- **The queue is bounded**: whatever the limit, the number of producers and the order in which
their tests and pushes and the steps of the consumer come, the queue holds at most as many tasks
as the limit and the number of producers together. -/
theorem queue_bounded (capacity producers queueLimit : Nat) (evs : List (SubmitEvent M))
    {s : Submitting M} (hrun : (machine capacity producers queueLimit).run
      (machine capacity producers queueLimit).init evs = some s) :
    s.worker.q.queue.length ≤ queueLimit + producers := by
  have hbounded : s.Bounded producers queueLimit :=
    Machine.run_invariant _ (C := fun _ _ => True) (P := Bounded producers queueLimit)
      (fun s ev s' hs _ hstep => bounded_step hs hstep) evs (by
        have hnone := countBelow_le Option.isSome (fun _ => (none : Option M)) producers
        show 0 + countBelow Option.isSome (fun _ => (none : Option M)) producers ≤ _
        omega)
      (Machine.allSteps_of_forall _ (fun _ _ => trivial) _) hrun
  unfold Bounded at hbounded
  omega

/-- Two producers are told that there is room for one task more than the limit of 1, and the
queue comes to hold three. -/
def overtaking : List (SubmitEvent Nat) :=
  [.test 0 10, .push 0, .worker .pushed, .test 0 11, .test 1 12, .push 0, .worker .pushed, .push 1]

theorem queue_bounded_overtaking :
    ∃ s ∈ (machine 64 2 1).run (machine 64 2 1).init overtaking,
      s.worker.q.queue.length = 3 ∧ s.worker.q.queue.length ≤ 1 + 2 := by
  have hrun : ∃ s ∈ (machine 64 2 1).run (machine 64 2 1).init overtaking,
      s.worker.q.queue.length = 3 := by decide
  obtain ⟨s, hs, hlen⟩ := hrun
  exact ⟨s, hs, hlen, queue_bounded 64 2 1 overtaking hs⟩

end Submitting

end LinSocketIo.Core
