/-
LinSocketIo.Core.FutureTheorems — when a future completes exactly once.

A sequence of events reaches one future as a list of completions
(`callsOn`), and the future after the sequence is the future before it,
completed by that list (`run_future`). On a new future the first completion
takes effect, later calls of `set_value` do nothing, and every later
exception overwrites the promise and executes `done()` again.

* `first_outcome_wins_iff` — the first outcome wins and `done()` is executed
  at most once exactly when all later completions are calls of `set_value`.
* `second_exception_completes_again` — two exceptions on one future.
-/
import LinSocketIo.Core.Future

namespace LinSocketIo.Core

variable {F V : Type}

/-- A call that completes a future. -/
inductive Completion (V : Type) where
  | value (msg : V)
  | exception (e : RuntimeException)
  deriving DecidableEq, Repr

namespace Completion

/-- The call is one of `set_value`. -/
def isValue : Completion V → Bool
  | .value _ => true
  | .exception _ => false

/-- What the call writes to the promise, when it takes effect. -/
def write (c : Completion V) (p : Promise V) : Promise V :=
  match c with
  | .value msg => p.setValue msg
  | .exception e => p.setException e

end Completion

/-! ## One future -/

namespace IFuture

/-- The call. -/
def complete (x : IFuture V) : Completion V → IFuture V
  | .value msg => x.setValue msg
  | .exception e => x.setException e

/-- A future that nothing has completed. -/
structure New (x : IFuture V) : Prop where
  done : x.promise.done = false
  doneCalls : x.doneCalls = 0
  wakeups : x.wakeups = 0

@[simp] theorem done_promise (x : IFuture V) : x.done.promise = x.promise := by
  cases x with
  | mk kind promise doneCalls wakeups =>
      cases kind with
      | future wait => cases wait <;> rfl
      | asyncFuture callback => cases callback <;> rfl

@[simp] theorem done_doneCalls (x : IFuture V) : x.done.doneCalls = x.doneCalls + 1 := by
  cases x with
  | mk kind promise doneCalls wakeups =>
      cases kind with
      | future wait => cases wait <;> rfl
      | asyncFuture callback => cases callback <;> rfl

theorem done_wakeups (x : IFuture V) : x.done.wakeups ≤ x.wakeups + 1 := by
  cases x with
  | mk kind promise doneCalls wakeups =>
      cases kind with
      | future wait => cases wait <;> simp [done]
      | asyncFuture callback => cases callback <;> simp [done]

/-- The first completion takes effect. -/
theorem complete_new {x : IFuture V} (hx : x.promise.done = false) (c : Completion V) :
    x.complete c = done { x with promise := c.write x.promise } := by
  cases c with
  | value msg => simp [complete, setValue, hx, Completion.write]
  | exception e => rfl

theorem complete_promise_done {x : IFuture V} (c : Completion V) :
    (x.complete c).promise.done = true := by
  cases c with
  | value msg =>
      cases hx : x.promise.done with
      | true => simp [complete, setValue, hx]
      | false => simp [complete, setValue, hx, Promise.setValue]
  | exception e => simp [complete, setException, Promise.setException]

/-- Once a future is done, `set_value` leaves it alone. -/
theorem foldl_values {x : IFuture V} (hx : x.promise.done = true) : ∀ cs : List (Completion V),
    (∀ c ∈ cs, c.isValue = true) → cs.foldl complete x = x
  | [], _ => rfl
  | .value msg :: cs, h => by
      have hkeep : x.complete (.value msg) = x := by simp [complete, setValue, hx]
      rw [List.foldl_cons, hkeep]
      exact foldl_values hx cs fun c hc => h c (List.mem_cons_of_mem _ hc)
  | .exception e :: cs, h => by
      have := h (.exception e) List.mem_cons_self
      cases this

/-- Every call keeps or raises the count of `done()`, and an exception raises it. -/
theorem doneCalls_le_foldl : ∀ (cs : List (Completion V)) (x : IFuture V),
    x.doneCalls ≤ (cs.foldl complete x).doneCalls
  | [], x => Nat.le_refl _
  | c :: cs, x => by
      refine Nat.le_trans ?_ (doneCalls_le_foldl cs (x.complete c))
      cases c with
      | value msg =>
          simp only [complete, setValue]
          split
          · rw [done_doneCalls]; exact Nat.le_succ _
          · exact Nat.le_refl _
      | exception e =>
          simp only [complete, setException, done_doneCalls]
          exact Nat.le_succ _

theorem doneCalls_lt_of_exception : ∀ (cs : List (Completion V)) (x : IFuture V),
    (∃ c ∈ cs, c.isValue = false) → x.doneCalls < (cs.foldl complete x).doneCalls
  | [], x, h => by
      obtain ⟨c, hc, -⟩ := h
      cases hc
  | .exception e :: cs, x, _ => by
      have hone : (x.complete (.exception e)).doneCalls = x.doneCalls + 1 := by
        simp only [complete, setException, done_doneCalls]
      have := doneCalls_le_foldl cs (x.complete (.exception e))
      rw [List.foldl_cons]
      omega
  | .value msg :: cs, x, h => by
      have hrest : ∃ c ∈ cs, c.isValue = false := by
        obtain ⟨c, hc, hv⟩ := h
        rcases List.mem_cons.mp hc with rfl | hc
        · cases hv
        · exact ⟨c, hc, hv⟩
      have h1 := doneCalls_le_foldl [.value msg] x
      have h2 := doneCalls_lt_of_exception cs (x.complete (.value msg)) hrest
      rw [List.foldl_cons]
      exact Nat.lt_of_le_of_lt h1 h2

end IFuture

/-! ## One future among others -/

namespace Futures

variable [DecidableEq F]

/-- The completion that an event makes, and of which future. -/
def call (w : Futures F V) : FutureEvent F V → Option (F × Completion V)
  | .setValue f msg => some (f, .value msg)
  | .setException f e => some (f, .exception e)
  | .timeout f =>
    let expired : Option (F × Completion V) :=
      match w.table (w.future f).promise.connid with
      | some _ => some (f, .exception ⟨RpcException.timeout.toCode,
          "timeout" ++ " " ++ w.dump (w.future f).promise.connid⟩)
      | none => some (f, .exception ⟨RpcException.timeout.toCode, "timeout"⟩)
    match (w.future f).kind with
    | .future _ => if (w.future f).promise.done then none else expired
    | .asyncFuture _ => expired
  | .collide connid sn =>
    (w.find connid sn).map fun f =>
      (f, .exception ⟨RpcException.internalError.toCode, "repeat sequence"⟩)
  | .clearFirst connid =>
    match w.table connid with
    | some ((_, f) :: _) =>
      some (f, .exception ⟨RpcException.connectionClosed.toCode, "connection closed"⟩)
    | _ => none
  | .insert _ _ _ => none
  | .erase _ _ => none

/-- The completions of `f` that a sequence of events makes. -/
def callsOn (f : F) : Futures F V → List (FutureEvent F V) → List (Completion V)
  | _, [] => []
  | w, ev :: evs =>
    ((w.call ev).toList.filter (·.1 = f)).map (·.2) ++ callsOn f (w.step ev) evs

/-- An event completes the future it calls and leaves the others alone. -/
theorem step_future (w : Futures F V) (ev : FutureEvent F V) :
    (w.step ev).future = match w.call ev with
      | some (f, c) => Function.update w.future f ((w.future f).complete c)
      | none => w.future := by
  cases ev with
  | setValue f msg => rfl
  | setException f e => rfl
  | timeout f =>
      have hexpire : (w.expire f).future = match w.table (w.future f).promise.connid with
          | some _ => Function.update w.future f ((w.future f).complete
              (.exception ⟨RpcException.timeout.toCode,
                "timeout" ++ " " ++ w.dump (w.future f).promise.connid⟩))
          | none => Function.update w.future f ((w.future f).complete
              (.exception ⟨RpcException.timeout.toCode, "timeout"⟩)) := by
        simp only [expire]
        cases w.table (w.future f).promise.connid <;> rfl
      simp only [step, timeout, call]
      cases (w.future f).kind with
      | future wait =>
          cases (w.future f).promise.done with
          | true => rfl
          | false =>
              simp only [Bool.false_eq_true, if_false, hexpire]
              cases w.table (w.future f).promise.connid <;> rfl
      | asyncFuture callback =>
          simp only [hexpire]
          cases w.table (w.future f).promise.connid <;> rfl
  | collide connid sn =>
      simp only [step, call]
      cases w.find connid sn <;> rfl
  | insert connid sn f => rfl
  | erase connid sn => rfl
  | clearFirst connid =>
      simp only [step, call]
      cases w.table connid with
      | none => rfl
      | some l => cases l <;> rfl

/-- A sequence of events reaches a future as its completions. -/
theorem run_future (f : F) : ∀ (evs : List (FutureEvent F V)) (w : Futures F V),
    (w.run evs).future f = (callsOn f w evs).foldl IFuture.complete (w.future f)
  | [], w => rfl
  | ev :: evs, w => by
      have hstep : (w.step ev).future f = (((w.call ev).toList.filter (·.1 = f)).map (·.2)).foldl
          IFuture.complete (w.future f) := by
        rw [step_future]
        cases w.call ev with
        | none => rfl
        | some gc =>
            obtain ⟨g, c⟩ := gc
            by_cases hg : g = f
            · subst hg
              simp
            · simp [hg, Function.update_of_ne (Ne.symm hg)]
      have hrun : w.run (ev :: evs) = (w.step ev).run evs := rfl
      rw [hrun, run_future f evs (w.step ev), callsOn, List.foldl_append, hstep]

/-- The first of the completions `cs` wins: `done()` is executed at most once, so no
more than one callback or waiter runs, and the promise is as the first completion
writes it. -/
structure FirstWins (x x' : IFuture V) (cs : List (Completion V)) : Prop where
  once : x'.doneCalls ≤ 1
  wakeup : x'.wakeups ≤ 1
  promise : x'.promise = match cs.head? with
    | some c => c.write x.promise
    | none => x.promise

/-- **When the first outcome wins**: for a new future and every sequence of events,
exactly when all completions after the first are calls of `set_value`. -/
theorem first_outcome_wins_iff (w : Futures F V) (f : F) (hnew : (w.future f).New)
    (evs : List (FutureEvent F V)) :
    FirstWins (w.future f) ((w.run evs).future f) (callsOn f w evs) ↔
      ∀ c ∈ (callsOn f w evs).tail, c.isValue = true := by
  rw [run_future]
  generalize callsOn f w evs = cs
  generalize w.future f = x at hnew
  cases cs with
  | nil =>
      have hwins : FirstWins x x [] := by
        refine ⟨?_, ?_, rfl⟩
        · rw [hnew.doneCalls]; decide
        · rw [hnew.wakeups]; decide
      simp [hwins]
  | cons c cs =>
      have hfirst := IFuture.complete_new hnew.done c
      have hcalls : (x.complete c).doneCalls = 1 := by
        rw [hfirst, IFuture.done_doneCalls]
        simp [hnew.doneCalls]
      simp only [List.foldl_cons, List.tail_cons]
      constructor
      · intro hwins c' hc'
        by_contra hexc
        have := IFuture.doneCalls_lt_of_exception cs (x.complete c)
          ⟨c', hc', by simpa using hexc⟩
        have := hwins.once
        omega
      · intro hvalues
        rw [IFuture.foldl_values (IFuture.complete_promise_done c) cs hvalues]
        refine ⟨Nat.le_of_eq hcalls, ?_, ?_⟩
        · have := IFuture.done_wakeups { x with promise := c.write x.promise }
          rw [hfirst]
          simpa [hnew.wakeups] using this
        · rw [hfirst, IFuture.done_promise]
          rfl

/-- A thread with new futures of one kind and one connection without futures. -/
def start (kind : FutureKind) : Futures Nat Nat where
  future _ := ⟨kind, ⟨some 0, some 0, ⟨0, "Success"⟩, 1, "7", false⟩, 0, 0⟩
  table connid := if connid = 1 then some [] else none
  dump _ := ""

/-- The reply comes before a second use of the sequence number and the timeout. -/
theorem first_outcome_wins_reply :
    FirstWins ((start (.future true)).future 3)
        (((start (.future true)).run
          [.insert 1 "7" 3, .erase 1 "7", .setValue 3 5, .collide 1 "7", .timeout 3]).future 3)
        (callsOn 3 (start (.future true))
          [.insert 1 "7" 3, .erase 1 "7", .setValue 3 5, .collide 1 "7", .timeout 3]) ↔
      ∀ c ∈ (callsOn 3 (start (.future true))
          [.insert 1 "7" 3, .erase 1 "7", .setValue 3 5, .collide 1 "7", .timeout 3]).tail,
        c.isValue = true :=
  first_outcome_wins_iff _ 3 ⟨rfl, rfl, rfl⟩ _

/-- Two exceptions: the callback runs twice, and the second exception replaces the
first. -/
theorem second_exception_completes_again :
    ¬ FirstWins ((start (.asyncFuture true)).future 3)
        (((start (.asyncFuture true)).run
          [.setException 3 ⟨1008, "queue full"⟩, .setException 3 ⟨1006, "timeout"⟩]).future 3)
        (callsOn 3 (start (.asyncFuture true))
          [.setException 3 ⟨1008, "queue full"⟩, .setException 3 ⟨1006, "timeout"⟩]) := by
  intro h
  exact absurd h.once (by decide)

end Futures

end LinSocketIo.Core
