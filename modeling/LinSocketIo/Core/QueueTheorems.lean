/-
LinSocketIo.Core.QueueTheorems — the hand-off loses no task and no wake-up.

Both facts are invariants of the machine of `Core.Queue`, so they hold
under every interleaving of the producers with the consumer. The queue can
only be taken by a consumer that calls `get`, and every state in which the
queue holds something has a reason why that call will come: a byte in the
pipe, a consumer on its way to the call, or a producer that is about to
write the byte.
-/
import LinSocketIo.Core.Queue

namespace LinSocketIo.Core.Handoff

open LinSocketIo.Base

variable {M : Type}

/-- The messages that a run pushes, in the order of the pushes. -/
def messages : List (HandoffEvent M) → List M
  | [] => []
  | .push msg :: evs => msg :: messages evs
  | _ :: evs => messages evs

/-- The tasks that the consumer has taken and not run. -/
def batch : Consumer M → List M
  | .running cs => cs
  | _ => []

@[simp] theorem batch_idle : batch (.idle : Consumer M) = [] := rfl
@[simp] theorem batch_reading (n : UInt8) (b : Bool) : batch (.reading n b : Consumer M) = [] := rfl
@[simp] theorem batch_signalled (n : UInt8) : batch (.signalled n : Consumer M) = [] := rfl
@[simp] theorem batch_running (cs : List M) : batch (.running cs) = cs := rfl

/-- The consumer has drained the pipe and not yet called `get`: it has read a
full buffer at least, or all there was. -/
def drained : Consumer M → Bool
  | .reading _ again => again
  | .signalled _ => true
  | _ => false

/-- Everything that was pushed, in order. -/
def tasks (s : Handoff M) : List M := s.ran ++ batch s.consumer ++ s.q.queue

/-- A non-empty queue has a reason to be taken. -/
def Awake (s : Handoff M) : Prop :=
  s.q.queue ≠ [] → s.q.pipe ≠ [] ∨ drained s.consumer = true ∨ s.pushing = some true

@[simp] theorem batch_loop : ∀ cs : List M, batch (Consumer.loop cs) = cs
  | [] => rfl
  | _ :: _ => rfl

@[simp] theorem queue_push (q : MessageQueue M) (msg : M) :
    (q.push msg).1.queue = q.queue ++ [msg] := by
  simp only [MessageQueue.push]
  split <;> rfl

@[simp] theorem pipe_push (q : MessageQueue M) (msg : M) : (q.push msg).1.pipe = q.pipe := by
  simp only [MessageQueue.push]
  split <;> rfl

/-- A push that does not notify finds something in the queue. -/
theorem queue_of_push_quiet {q : MessageQueue M} {msg : M} (h : (q.push msg).2 = false) :
    q.queue ≠ [] := by
  intro hnil
  simp [MessageQueue.push, hnil] at h

@[simp] theorem queue_notifierNotify (capacity : Nat) (q : MessageQueue M) (signal : UInt8) :
    (q.notifierNotify capacity signal).queue = q.queue := by
  simp only [MessageQueue.notifierNotify]
  split <;> rfl

/-- After a notification there is a byte in the pipe: the one written, or one
that was in the way. -/
theorem pipe_notifierNotify {capacity : Nat} (hcap : 0 < capacity) (q : MessageQueue M)
    (signal : UInt8) : (q.notifierNotify capacity signal).pipe ≠ [] := by
  simp only [MessageQueue.notifierNotify]
  split
  · simp
  · next hfull =>
      intro hnil
      rw [hnil] at hfull
      exact hfull hcap

@[simp] theorem queue_read (q : MessageQueue M) (signals : UInt8) :
    (q.read signals).1.queue = q.queue := by
  simp only [MessageQueue.read]
  split <;> rfl

/-- **No task is lost**: an event moves tasks along and adds what it pushes. -/
theorem tasks_step {capacity : Nat} {s s' : Handoff M} {ev : HandoffEvent M}
    (hstep : step capacity s ev = some s') : s'.tasks = s.tasks ++ messages [ev] := by
  cases ev with
  | push msg =>
      simp only [step] at hstep
      split at hstep
      · cases hstep
        simp [tasks, messages]
      · cases hstep
  | pushed =>
      simp only [step] at hstep
      split at hstep
      · next notify _ =>
          cases hstep
          cases notify <;> simp [tasks, messages]
      · cases hstep
  | handle =>
      simp only [step] at hstep
      split at hstep
      · next hidle =>
          cases hstep
          simp [tasks, messages, hidle]
      · cases hstep
  | read =>
      simp only [step] at hstep
      split at hstep
      · next signals again hreading =>
          have hqueue := queue_read s.q signals
          split at hstep <;>
          · next q' _ hread =>
              rw [hread] at hqueue
              cases hstep
              simp only at hqueue
              simp [tasks, messages, hreading, hqueue]
      · cases hstep
  | get =>
      simp only [step] at hstep
      split at hstep
      · next hsig _ =>
          cases hstep
          simp [tasks, messages, MessageQueue.get, hsig]
      · cases hstep
  | run e =>
      simp only [step] at hstep
      split at hstep
      · next c cs hrun =>
          cases hstep
          simp [tasks, messages, hrun]
      · cases hstep

/-- **No wake-up is lost**: an event keeps the reason why the queue will be taken. -/
theorem awake_step {capacity : Nat} (hcap : 0 < capacity) {s s' : Handoff M}
    {ev : HandoffEvent M} (ha : s.Awake) (hstep : step capacity s ev = some s') : s'.Awake := by
  intro hq
  cases ev with
  | push msg =>
      simp only [step] at hstep
      split at hstep
      · next hfree =>
          cases hstep
          cases hnotify : (s.q.push msg).2 with
          | true => exact Or.inr (Or.inr rfl)
          | false =>
              -- the queue was not empty, and the mutex was free
              have := ha (queue_of_push_quiet hnotify)
              simpa [hfree] using this
      · cases hstep
  | pushed =>
      simp only [step] at hstep
      split at hstep
      · next notify hpushing =>
          cases hstep
          cases notify with
          | true => exact Or.inl (by simpa using pipe_notifierNotify hcap s.q _)
          | false =>
              have := ha (by simpa using hq)
              simpa [hpushing] using this
      · cases hstep
  | handle =>
      simp only [step] at hstep
      split at hstep
      · next hidle =>
          cases hstep
          have := ha hq
          simpa [hidle, drained] using this
      · cases hstep
  | read =>
      simp only [step] at hstep
      split at hstep
      · next signals again hreading =>
          split at hstep
          · cases hstep
            exact Or.inr (Or.inl rfl)
          · cases hstep
            exact Or.inr (Or.inl rfl)
      · cases hstep
  | get =>
      simp only [step] at hstep
      split at hstep
      · cases hstep
        exact absurd rfl hq
      · cases hstep
  | run e =>
      simp only [step] at hstep
      split at hstep
      · next c cs hrun =>
          cases hstep
          rcases ha hq with h | h | h
          · exact Or.inl h
          · rw [hrun] at h
            cases h
          · exact Or.inr (Or.inr h)
      · cases hstep

theorem messages_append : ∀ evs evs' : List (HandoffEvent M),
    messages (evs ++ evs') = messages evs ++ messages evs'
  | [], _ => rfl
  | ev :: evs, evs' => by
      cases ev <;> simp [messages, messages_append evs evs']

/-- **The hand-off loses no task and no wake-up.** After every run, what the worker
has run, the rest of its batch and the queue are together what was pushed, in the
order of the pushes; and when the queue holds something, there is a byte in the
pipe, or the consumer has drained the pipe and not yet called `get`, or the push
that holds the mutex has not come to its notification yet. -/
theorem handoff_conserves (capacity : Nat) (hcap : 0 < capacity) (evs : List (HandoffEvent M))
    (s : Handoff M) (hrun : (machine capacity).run (machine capacity).init evs = some s) :
    s.ran ++ batch s.consumer ++ s.q.queue = messages evs ∧
      (s.q.queue ≠ [] →
        s.q.pipe ≠ [] ∨ drained s.consumer = true ∨ s.pushing = some true) := by
  have hstart : ∀ (evs : List (HandoffEvent M)) (s0 s : Handoff M),
      (machine capacity).run s0 evs = some s → s.tasks = s0.tasks ++ messages evs := by
    intro evs
    induction evs with
    | nil =>
        intro s0 s hrun
        cases hrun
        simp [messages]
    | cons ev evs ih =>
        intro s0 s hrun
        obtain ⟨t, hstep, hrun⟩ := (Machine.run_cons_some _).mp hrun
        rw [ih t s hrun, tasks_step hstep, List.append_assoc, ← messages_append]
        rfl
  constructor
  · simpa [tasks, machine, MessageQueue.new] using hstart evs _ s hrun
  · exact Machine.run_invariant _ (C := fun _ _ => True) (P := Awake)
      (fun s ev s' ha _ hstep => awake_step hcap ha hstep) evs
      (fun h => absurd rfl h) (Machine.allSteps_of_forall _ (fun _ _ => trivial) _) hrun

/-- A push while the consumer drains the pipe, and a task that throws. -/
theorem handoff_conserves_run :
    ∃ s, (machine 1).run (machine 1).init
        [.push 7, .pushed, .handle, .push 8, .pushed, .read, .get, .run .threw, .push 9] = some s ∧
      (s.ran ++ batch s.consumer ++ s.q.queue
          = messages [.push 7, .pushed, .handle, .push 8, .pushed, .read, .get, .run .threw,
            .push 9] ∧
        (s.q.queue ≠ [] →
          s.q.pipe ≠ [] ∨ drained s.consumer = true ∨ s.pushing = some true)) :=
  ⟨_, rfl, handoff_conserves 1 (by decide) _ _ rfl⟩

end LinSocketIo.Core.Handoff
