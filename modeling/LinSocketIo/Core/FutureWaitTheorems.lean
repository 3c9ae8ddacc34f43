/-
LinSocketIo.Core.FutureWaitTheorems — what `Future::wait` misses.

A state is `Stuck` when the promise is done and the waiter is suspended, while
no call of `resume()` is under way and no signal on its way.

* On a `ConditionWrapper` no run gets stuck: a completion that comes first
  leaves the status `ready`, which `yield()` finds (`ConditionInv`).
* On a `CoroutineWrapper` a run that is `onTime` gets not stuck and acts on no
  unset caller: every switch of `resume()` goes to a waiter that is suspended,
  or was before, from a thread that can switch (`CoroutineInv`).
* `wait_misses_nothing` — both, for every run.
* `early_completion` — a coroutine whose request is answered too soon.
-/
import LinSocketIo.Core.FutureWait

namespace LinSocketIo.Core.FutureWait

open LinSocketIo.Base

/-- A signal is on its way to the waiter. -/
def Cond.signalled : Cond → Bool
  | .condition c => c.signalled
  | .coroutine _ => false

/-- The promise is done, the waiter suspended, and nobody left to resume it. -/
def Stuck (s : State) : Prop :=
  s.done = true ∧ s.waiter = .suspended ∧ s.completer = .idle ∧ Cond.signalled s.cond = false

instance (s : State) : Decidable (Stuck s) := inferInstanceAs (Decidable (_ ∧ _))

/-- When `resume()` calls `Coroutine::resume`, the caller is set. -/
def callerKnown (s : State) (ev : Event) : Bool :=
  match ev, s.completer, s.cond with
  | .switch _ _, .switching, .coroutine c => c.caller
  | _, _, _ => true

/-- When `resume()` calls `Coroutine::resume`, the waiter has been resumed before, or it
is suspended and the thread can switch to a coroutine. -/
def onTime (s : State) (ev : Event) : Bool :=
  match ev, s.completer, s.cond with
  | .switch main running, .switching, .coroutine _ =>
    s.waiter = .returned || (s.waiter = .suspended && main && !running)
  | _, _, _ => true

/-! ## The condition -/

/-- A wait on a `ConditionWrapper`. -/
structure ConditionInv (c : ConditionWrapper) (s : State) : Prop where
  completer : s.completer = .idle ∨ s.completer = .resuming
  waiting : s.waiter = .suspended → c.waiting = true
  /-- A thread that waits while the status is `ready` has been sent a signal. -/
  signalled : c.status = .ready → c.waiting = true → c.signalled = true
  done : s.done = true → s.completer = .idle → c.status = .ready

theorem ConditionInv.not_stuck {c : ConditionWrapper} {s : State} (h : ConditionInv c s)
    (hc : s.cond = .condition c) : ¬ Stuck s := by
  rintro ⟨hdone, hwaiter, hidle, hsignal⟩
  have hready : c.status = .ready := h.done hdone hidle
  have : c.signalled = true := h.signalled hready (h.waiting hwaiter)
  simp [hc, Cond.signalled, this] at hsignal

/-- One pass of the loop in `yield`, from its start or out of `_cond.wait()`. -/
theorem ConditionInv.pass {c : ConditionWrapper} {s : State} (h : ConditionInv c s) :
    ConditionInv c.yield.1 { s with
      cond := .condition c.yield.1, waiter := if c.yield.2 then .returned else .suspended } := by
  unfold ConditionWrapper.yield
  cases hst : c.status with
  | wait => exact ⟨h.completer, by simp, by simp, by simpa [hst] using h.done⟩
  | ready => exact ⟨h.completer, by simp, by simp, by simp⟩

theorem ConditionInv.resumed {c : ConditionWrapper} {s : State} (h : ConditionInv c s) :
    ConditionInv c.resume.1 { s with cond := .condition c.resume.1, completer := .idle } := by
  unfold ConditionWrapper.resume
  cases hst : c.status with
  | wait => exact ⟨.inl rfl, h.waiting, by simp, by simp⟩
  | ready => exact ⟨.inl rfl, h.waiting, h.signalled, by simp [hst]⟩

theorem ConditionInv.completed {c : ConditionWrapper} {s : State} (h : ConditionInv c s) :
    ConditionInv c { s with done := true, completer := .resuming } :=
  ⟨.inr rfl, h.waiting, h.signalled, by simp⟩

theorem condition_step {c : ConditionWrapper} {s s' : State} {ev : Event}
    (hc : s.cond = .condition c) (h : ConditionInv c s) (hs : s.step ev = some s') :
    ∃ c', s'.cond = .condition c' ∧ ConditionInv c' s' := by
  obtain ⟨cond, waiter, completer, done⟩ := s
  obtain rfl : cond = .condition c := hc
  unfold State.step at hs
  split at hs
  · cases hs
  cases ev with
  | schedule taken =>
    simp only [State.wait] at hs
    split at hs
    · cases hs
      exact ⟨c, rfl, h.completer, by cases taken <;> simp, h.signalled, h.done⟩
    · cases hs
  | yield =>
    cases waiter <;> simp only [State.wait] at hs <;> cases hs
    exact ⟨_, rfl, h.pass⟩
  | wake =>
    cases waiter <;> simp only [State.wait] at hs <;> cases hs
    exact ⟨_, rfl, h.pass⟩
  | setValue =>
    simp only [State.complete] at hs
    split at hs
    · split at hs <;> cases hs
      · exact ⟨c, rfl, h⟩
      · exact ⟨c, rfl, h.completed⟩
    · cases hs
  | setException =>
    simp only [State.complete] at hs
    split at hs
    · cases hs
      exact ⟨c, rfl, h.completed⟩
    · cases hs
  | resume =>
    cases completer <;> simp only [State.resume] at hs <;> cases hs
    exact ⟨_, rfl, h.resumed⟩
  | switch main running => cases completer <;> cases hs

/-! ## The coroutine -/

/-- A wait on a `CoroutineWrapper`, in a run that is on time. -/
structure CoroutineInv (c : CoroutineWrapper) (s : State) : Prop where
  /-- Before it suspends the coroutine, `yield` has set the caller. -/
  caller : s.waiter ∈ [.callerSet, .statusSet, .suspended, .returned] → c.caller = true
  pending : s.done = false → s.completer = .idle ∧ c.status = .wait
  /-- Until the waiter is back, a completion is under way: either it will find the
  status `wait`, or it has found it. -/
  underWay : s.done = true → s.waiter ≠ .returned →
    s.completer = .switching ∨ (s.completer = .resuming ∧ c.status = .wait)

theorem CoroutineInv.not_stuck {c : CoroutineWrapper} {s : State} (h : CoroutineInv c s) :
    ¬ Stuck s := by
  rintro ⟨hdone, hwaiter, hidle, -⟩
  have := h.underWay hdone (by rw [hwaiter]; simp)
  simp [hidle] at this

theorem CoroutineInv.callerKnown {c : CoroutineWrapper} {s : State} {ev : Event}
    (hc : s.cond = .coroutine c) (h : CoroutineInv c s) (hontime : onTime s ev = true) :
    callerKnown s ev = true := by
  unfold FutureWait.callerKnown
  split
  · next hpc hcond =>
    simp only [onTime, hpc, hcond, Bool.or_eq_true, Bool.and_eq_true, decide_eq_true_eq] at hontime
    obtain rfl : c = _ := by simpa [hc] using hcond
    rcases hontime with hw | ⟨⟨hw, -⟩, -⟩ <;> exact h.caller (by simp [hw])
  · rfl

/-- Neither writing the caller nor writing the status loses a completion. -/
theorem CoroutineInv.yielded {c c' : CoroutineWrapper} {s : State} {pc : WaiterPc}
    (h : CoroutineInv c s) (hw : s.waiter ≠ .returned)
    (hcaller : c'.caller = true) (hstatus : c.status = .wait → c'.status = .wait) :
    CoroutineInv c' { s with cond := .coroutine c', waiter := pc } where
  caller := fun _ => hcaller
  pending := by
    intro hdone
    exact ⟨(h.pending hdone).1, hstatus (h.pending hdone).2⟩
  underWay := by
    intro hdone _
    rcases h.underWay hdone hw with hsw | ⟨hr, hst⟩
    · exact .inl hsw
    · exact .inr ⟨hr, hstatus hst⟩

/-- A first completion finds the status as it was; a later one comes when the waiter
is back. -/
theorem CoroutineInv.completed {c : CoroutineWrapper} {s : State} (h : CoroutineInv c s)
    (hidle : s.completer = .idle) :
    CoroutineInv c { s with done := true, completer := .resuming } where
  caller := h.caller
  pending := by simp
  underWay := by
    intro _ hw
    cases hdone : s.done with
    | false => exact .inr ⟨rfl, (h.pending hdone).2⟩
    | true =>
      have := h.underWay hdone hw
      simp [hidle] at this

theorem coroutine_step {c : CoroutineWrapper} {s s' : State} {ev : Event}
    (hc : s.cond = .coroutine c) (h : CoroutineInv c s) (hontime : onTime s ev = true)
    (hs : s.step ev = some s') : ∃ c', s'.cond = .coroutine c' ∧ CoroutineInv c' s' := by
  obtain ⟨cond, waiter, completer, done⟩ := s
  obtain rfl : cond = .coroutine c := hc
  unfold State.step at hs
  split at hs
  · cases hs
  cases ev with
  | schedule taken =>
    cases waiter <;> simp only [State.wait] at hs <;> cases hs
    refine ⟨c, rfl, ?_, h.pending, fun hdone _ => h.underWay hdone (by simp)⟩
    cases taken <;> simp
  | yield =>
    cases waiter <;> simp only [State.wait] at hs <;> cases hs
    · exact ⟨_, rfl, h.yielded (by simp) rfl id⟩
    · exact ⟨_, rfl, h.yielded (by simp) (h.caller (by simp)) fun _ => rfl⟩
    · exact ⟨_, rfl, h.yielded (by simp) (h.caller (by simp)) id⟩
  | wake => cases waiter <;> cases hs
  | setValue =>
    simp only [State.complete] at hs
    split at hs
    · next hidle =>
      split at hs <;> cases hs
      · exact ⟨c, rfl, h⟩
      · exact ⟨c, rfl, h.completed hidle.1⟩
    · cases hs
  | setException =>
    simp only [State.complete] at hs
    split at hs
    · next hidle =>
      cases hs
      exact ⟨c, rfl, h.completed hidle.1⟩
    · cases hs
  | resume =>
    cases completer <;> simp only [State.resume] at hs <;> try cases hs
    have hdone : done = true := by
      cases done with
      | true => rfl
      | false => simpa using (h.pending rfl).1
    split at hs <;> cases hs
    · next hst =>
      refine ⟨c, rfl, h.caller, by simp [hdone], fun _ hw => ?_⟩
      have := h.underWay hdone hw
      simp [hst] at this
    · exact ⟨_, rfl, h.caller, by simp [hdone], fun _ _ => .inl rfl⟩
  | switch main running =>
    cases completer <;> simp only [State.resume] at hs <;> try cases hs
    have hdone : done = true := by
      cases done with
      | true => rfl
      | false => simpa using (h.pending rfl).1
    simp only [onTime, Bool.or_eq_true, Bool.and_eq_true, Bool.not_eq_true',
      decide_eq_true_eq] at hontime
    rcases hontime with rfl | ⟨⟨rfl, rfl⟩, rfl⟩
    · have hcaller : c.caller = true := h.caller (by simp)
      simp only [hcaller, Bool.not_true, Bool.false_eq_true, if_false] at hs
      split at hs <;> cases hs <;>
        exact ⟨c, rfl, fun _ => hcaller, by simp [hdone], fun _ hw => absurd rfl hw⟩
    · have hcaller : c.caller = true := h.caller (by simp)
      simp only [hcaller, Bool.not_true, Bool.or_self, Bool.false_eq_true, if_false] at hs
      cases hs
      exact ⟨c, rfl, fun _ => hcaller, by simp [hdone], fun _ hw => absurd rfl hw⟩

/-! ## Every run -/

/-- The invariant of a wait, on either primitive. -/
def Inv (s : State) : Prop :=
  match s.cond with
  | .condition c => ConditionInv c s
  | .coroutine c => CoroutineInv c s

theorem inv_init (inCoroutine : Bool) : Inv (machine inCoroutine).init := by
  cases inCoroutine with
  | true => exact ⟨by simp [machine], fun _ => ⟨rfl, rfl⟩, by simp [machine]⟩
  | false => exact ⟨.inl rfl, by simp [machine], by simp [ConditionWrapper.new], by simp [machine]⟩

theorem inv_step {s s' : State} {ev : Event} (h : Inv s) (hontime : onTime s ev = true)
    (hs : s.step ev = some s') : Inv s' := by
  cases hc : s.cond with
  | condition c =>
    obtain ⟨c', hc', h'⟩ := condition_step hc (by simpa [Inv, hc] using h) hs
    simpa [Inv, hc'] using h'
  | coroutine c =>
    obtain ⟨c', hc', h'⟩ := coroutine_step hc (by simpa [Inv, hc] using h) hontime hs
    simpa [Inv, hc'] using h'

theorem Inv.not_stuck {s : State} (h : Inv s) : ¬ Stuck s := by
  cases hc : s.cond with
  | condition c =>
    simp only [Inv, hc] at h
    exact h.not_stuck hc
  | coroutine c =>
    simp only [Inv, hc] at h
    exact h.not_stuck

theorem Inv.callerKnown {s : State} {ev : Event} (h : Inv s) (hontime : onTime s ev = true) :
    callerKnown s ev = true := by
  cases hc : s.cond with
  | condition c => simp [FutureWait.callerKnown, hc]
  | coroutine c =>
    simp only [Inv, hc] at h
    exact h.callerKnown hc hontime

/-- On a condition every run is on time. -/
theorem onTime_condition (evs : List Event) :
    (machine false).AllSteps (fun s ev => onTime s ev = true) (machine false).init evs := by
  refine (machine false).allSteps_of_invariant (C := fun _ _ => True)
    (P := fun s => ∃ c, s.cond = .condition c ∧ ConditionInv c s) ?_ ?_ evs
    ⟨_, rfl, inv_init false⟩ ((machine false).allSteps_of_forall (fun _ _ => trivial) _)
  · rintro s ev s' ⟨c, hc, h⟩ _ hs
    exact condition_step hc h hs
  · rintro s ev ⟨c, hc, -⟩ _
    simp [onTime, hc]

/-- **`Future::wait` misses no completion** on a condition, in every order of the
steps; and on a coroutine in every order that is on time. -/
theorem wait_misses_nothing (inCoroutine : Bool) (evs : List Event) (s : State)
    (hontime : inCoroutine = true → (machine inCoroutine).AllSteps
      (fun s ev => onTime s ev = true) (machine inCoroutine).init evs)
    (hrun : (machine inCoroutine).run (machine inCoroutine).init evs = some s) :
    ¬ Stuck s ∧ (machine inCoroutine).AllSteps (fun s ev => callerKnown s ev = true)
      (machine inCoroutine).init evs := by
  have hall : (machine inCoroutine).AllSteps (fun s ev => onTime s ev = true)
      (machine inCoroutine).init evs := by
    cases inCoroutine with
    | true => exact hontime rfl
    | false => exact onTime_condition evs
  constructor
  · exact ((machine inCoroutine).run_invariant (fun _ _ _ h hc hs => inv_step h hc hs) evs
      (inv_init inCoroutine) hall hrun).not_stuck
  · exact (machine inCoroutine).allSteps_of_invariant (fun _ _ _ h hc hs => inv_step h hc hs)
      (fun _ _ h hc => h.callerKnown hc) evs (inv_init inCoroutine) hall

/-- A coroutine that is suspended when its request is answered, though the answer came
while it was on its way. -/
theorem wait_misses_nothing_late_switch :
    ∃ s, (machine true).run (machine true).init
        [.schedule true, .yield, .setValue, .resume, .yield, .yield, .switch true false] = some s ∧
      ¬ Stuck s ∧ (machine true).AllSteps (fun s ev => callerKnown s ev = true)
        (machine true).init
        [.schedule true, .yield, .setValue, .resume, .yield, .yield, .switch true false] :=
  ⟨_, rfl, wait_misses_nothing true _ _ (fun _ => by decide +kernel) rfl⟩

/-- **A request that is answered too soon**: before `yield()` there is no caller to
resume; and on a worker that has never made a coroutine `Coroutine::resume` throws,
`yield()` puts the status back to `wait`, and nobody resumes the coroutine. -/
theorem early_completion :
    (¬ ∀ inCoroutine evs s, (machine inCoroutine).run (machine inCoroutine).init evs = some s →
      ¬ Stuck s) ∧
    ¬ ∀ inCoroutine evs s, (machine inCoroutine).run (machine inCoroutine).init evs = some s →
      (machine inCoroutine).AllSteps (fun s ev => callerKnown s ev = true)
        (machine inCoroutine).init evs := by
  constructor
  · intro h
    have hstuck := h true
      [.schedule true, .yield, .setValue, .resume, .switch false false, .yield, .yield] _ rfl
    exact absurd hstuck (by decide +kernel)
  · intro h
    have hcaller := h true [.schedule true, .setValue, .resume, .switch true false] _ rfl
    exact absurd hcaller (by decide +kernel)

end LinSocketIo.Core.FutureWait
