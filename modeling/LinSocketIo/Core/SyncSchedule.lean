/-
LinSocketIo.Core.SyncSchedule — the calls of `Scheduler::schedule` that wait
for their result (`core/scheduler.h`), with `ExecutorEx` of `core/worker.h`.

Such a call puts a `net::Condition` on its stack, hands a task to a worker
that has references to it, to the request and to the result, and waits. The
destructor of the task resumes it: it is run wherever the worker deletes the
task, whether `run` has returned or thrown.

* `schedule_waits` — the worker uses what is on the stack of a call only
  while the call is under way; a call that returns `true` has had its
  function executed once, one that returns `false` never; and a call that
  sleeps will be woken.

Modelling notes. All calls go to one worker, whose queue is that of
`Core.Queue`; other threads give it other tasks. A call is a number and makes
its way once. `_quit`, and a scheduler without workers, are the event
`refuse`. A task that is refused is deleted by the thread that made it, where
nobody waits yet. `ExecutorEx::run` returns `false`, or throws what its
function throws. `Scheduler::stop` is left out.
-/
import LinSocketIo.Core.Condition
import LinSocketIo.Core.QueueTheorems

namespace LinSocketIo.Core

open LinSocketIo.Base

/-- Where a call of `schedule` is. -/
inductive CallPc where
  | idle
  /-- `addTask` has found room in the queue. -/
  | tested
  /-- In `push`, which holds the mutex of the queue. -/
  | pushing
  /-- In `cond.yield()`. -/
  | yielding
  | returned (result : Bool)
  deriving DecidableEq, Repr

/-- The task of the call has not been taken by the queue. -/
def CallPc.apart : CallPc → Bool
  | .idle | .tested | .returned false => true
  | .pushing | .yielding | .returned true => false

/-- A call of `schedule`, with the condition on its stack. -/
structure SyncCall where
  pc : CallPc
  cond : Condition
  deriving DecidableEq, Repr

/-- A worker and the calls that wait for it. A task is the `ExecutorEx` of a call, or another
one. -/
structure SyncSchedule where
  worker : Handoff (Option Nat)
  /-- The task in the hands of the producer that holds the mutex of the queue. -/
  pusher : Option (Option Nat)
  /-- How `run` of the first task of the batch has ended, if it has. -/
  ended : Option TaskEnd
  call : Nat → SyncCall

/-- What happens next. -/
inductive SyncEvent where
  /-- `schedule` finds `_quit`, or no worker. -/
  | refuse (n : Nat)
  /-- `addTask` tests the size of the queue. -/
  | test (n : Nat)
  | push (n : Nat)
  /-- Another thread pushes another task. -/
  | pushOther
  /-- The holder of the mutex leaves `push`. -/
  | pushed
  /-- The worker's thread goes to its queue. -/
  | handle
  | read
  | get
  /-- `run` of the first task. -/
  | run (e : TaskEnd)
  /-- A step of the destructor of the first task. -/
  | resume (st : ResumeStep)
  /-- The first task is gone. -/
  | next
  /-- A step of `cond.yield()`. -/
  | yield (n : Nat) (st : YieldStep)
  deriving DecidableEq, Repr

namespace SyncSchedule

open Handoff

/-- A step of the queue and its consumer. -/
def onWorker (capacity : Nat) (s : SyncSchedule) (ev : HandoffEvent (Option Nat)) :
    Option SyncSchedule :=
  (s.worker.step capacity ev).map fun w => { s with worker := w }

/-- A call goes on. -/
def setCall (s : SyncSchedule) (n : Nat) (x : SyncCall) : SyncSchedule :=
  { s with call := Function.update s.call n x }

/-- One event, with the capacity of the pipe and `_queueLimit`. -/
def step (capacity queueLimit : Nat) (s : SyncSchedule) : SyncEvent → Option SyncSchedule
  | .refuse n =>
    if (s.call n).pc = .idle then some (s.setCall n { s.call n with pc := .returned false })
    else none
  | .test n =>
    if (s.call n).pc = .idle ∧ s.worker.pushing = none then
      if s.worker.q.queue.length > queueLimit then
        some (s.setCall n { s.call n with pc := .returned false })
      else some (s.setCall n { s.call n with pc := .tested })
    else none
  | .push n =>
    if (s.call n).pc = .tested then
      (s.onWorker capacity (.push (some n))).map fun s =>
        { s.setCall n { s.call n with pc := .pushing } with pusher := some (some n) }
    else none
  | .pushOther =>
    (s.onWorker capacity (.push none)).map fun s => { s with pusher := some none }
  | .pushed =>
    match s.pusher with
    | some (some n) =>
      (s.onWorker capacity .pushed).map fun s =>
        { s.setCall n { s.call n with pc := .yielding } with pusher := none }
    | some none => (s.onWorker capacity .pushed).map fun s => { s with pusher := none }
    | none => none
  | .handle => s.onWorker capacity .handle
  | .read => s.onWorker capacity .read
  | .get => s.onWorker capacity .get
  | .run e =>
    match batch s.worker.consumer, s.ended with
    | some _ :: _, none => if e = .returned true then none else some { s with ended := some e }
    | none :: _, none => some { s with ended := some e }
    | _, _ => none
  | .resume st =>
    match batch s.worker.consumer, s.ended with
    | some n :: _, some _ =>
      ((s.call n).cond.resume st).map fun cond => s.setCall n { s.call n with cond := cond }
    | _, _ => none
  | .next =>
    match batch s.worker.consumer, s.ended with
    | some n :: _, some e =>
      if (s.call n).cond.resumer = .returned then
        (s.onWorker capacity (.run e)).map fun s => { s with ended := none }
      else none
    | none :: _, some e => (s.onWorker capacity (.run e)).map fun s => { s with ended := none }
    | _, _ => none
  | .yield n st =>
    if (s.call n).pc = .yielding then
      ((s.call n).cond.yield st).map fun cond =>
        s.setCall n ⟨if cond.yielder = .returned then .returned true else .yielding, cond⟩
    else none

/-- A worker, and calls that have not begun. -/
def machine (capacity queueLimit : Nat) : Machine SyncSchedule SyncEvent where
  init := ⟨(Handoff.machine capacity).init, none, none, fun _ => ⟨.idle, Condition.new⟩⟩
  step := step capacity queueLimit

/-- The tasks whose `run` has ended, in order. -/
def executed (s : SyncSchedule) : List (Option Nat) :=
  s.worker.ran ++ if s.ended.isSome then (batch s.worker.consumer).take 1 else []

/-- The event uses what is on the stack of call `n`: the request and the result, or the
condition. -/
def Touches (s : SyncSchedule) (n : Nat) : SyncEvent → Prop
  | .run _ | .resume _ => ∃ cs, batch s.worker.consumer = some n :: cs
  | _ => False

/-- The call is under way. -/
def UnderWay (s : SyncSchedule) (n : Nat) : Prop :=
  (s.call n).pc = .pushing ∨ (s.call n).pc = .yielding

/-- The event, if it is possible, uses only stacks of calls that are under way. -/
def Safe (capacity queueLimit : Nat) (s : SyncSchedule) (ev : SyncEvent) : Prop :=
  step capacity queueLimit s ev ≠ none → ∀ n, s.Touches n ev → s.UnderWay n

/-- What a call is promised. -/
structure Served (s : SyncSchedule) (n : Nat) : Prop where
  refused : (s.call n).pc = .returned false → some n ∉ s.executed
  done : (s.call n).pc = .returned true → s.executed.count (some n) = 1
  /-- The call has been signalled, or its task is in the batch, or in a queue that the worker
  will come to. -/
  woken : (s.call n).cond.yielder = .sleeping → (s.call n).cond.signalled = true ∨
    some n ∈ batch s.worker.consumer ∨ (some n ∈ s.worker.q.queue ∧
      (s.worker.q.pipe ≠ [] ∨ drained s.worker.consumer = true ∨
        s.worker.pushing = some true))

/-! ## The invariant -/

/-- What holds of a call, given the tasks that are gone, all tasks, and those whose `run` has
ended. -/
structure CallInv (x : SyncCall) (task : Option Nat) (ran tasks executed : List (Option Nat)) :
    Prop where
  sound : x.cond.Sound
  apart : x.pc.apart = true → task ∉ tasks ∧ x.cond = Condition.new
  taken : x.pc.apart = false → tasks.count task = 1
  gone : task ∈ ran → x.cond.resumer = .returned
  touched : x.cond.resumer ≠ .outside → task ∈ executed
  passed : x.pc = .returned true ↔ x.cond.yielder = .returned

/-- What holds between the events. -/
structure Inv (s : SyncSchedule) : Prop where
  awake : s.worker.Awake
  ended : s.ended.isSome = true → batch s.worker.consumer ≠ []
  pushing : ∀ n, s.pusher = some (some n) → (s.call n).pc = .pushing
  call : ∀ n, CallInv (s.call n) (some n) s.worker.ran s.worker.tasks s.executed

theorem init_inv (capacity queueLimit : Nat) : Inv (machine capacity queueLimit).init where
  awake h := absurd rfl h
  ended h := by cases h
  pushing n h := by cases h
  call n :=
    { sound := Condition.sound_new
      apart := fun _ => ⟨List.not_mem_nil, rfl⟩
      taken := fun h => by cases h
      gone := fun h => absurd h List.not_mem_nil
      touched := fun h => absurd rfl h
      passed := (by decide : CallPc.idle = .returned true ↔ Condition.new.yielder = .returned) }

variable {capacity queueLimit : Nat} {s s' : SyncSchedule} {w : Handoff (Option Nat)}

/-- A step of the queue or its consumer that ends no task. -/
theorem quiet_step {s w : Handoff (Option Nat)} {ev : HandoffEvent (Option Nat)}
    (hev : ∀ e, ev ≠ .run e) (h : s.step capacity ev = some w) :
    w.ran = s.ran ∧ (batch s.consumer ≠ [] → w.consumer = s.consumer) := by
  cases ev with
  | push msg =>
    simp only [Handoff.step] at h
    split at h <;> cases h
    exact ⟨rfl, fun _ => rfl⟩
  | pushed =>
    simp only [Handoff.step] at h
    split at h <;> cases h
    exact ⟨rfl, fun _ => rfl⟩
  | handle =>
    simp only [Handoff.step] at h
    split at h
    · next hidle =>
      cases h
      exact ⟨rfl, fun hb => absurd (by rw [hidle]; rfl) hb⟩
    · cases h
  | read =>
    simp only [Handoff.step] at h
    split at h
    · next signals again hreading =>
      have hempty : batch s.consumer = [] := by rw [hreading]; rfl
      split at h <;> cases h
      · exact ⟨rfl, fun hb => absurd hempty hb⟩
      · exact ⟨rfl, fun hb => absurd hempty hb⟩
    · cases h
  | get =>
    simp only [Handoff.step] at h
    split at h
    · next hsignalled _ =>
      cases h
      exact ⟨rfl, fun hb => absurd (by rw [hsignalled]; rfl) hb⟩
    · cases h
  | run e => exact absurd rfl (hev e)

/-- Such a step does not change which tasks have been executed. -/
theorem executed_quiet (hs : s.ended.isSome = true → batch s.worker.consumer ≠ [])
    {ev : HandoffEvent (Option Nat)} (hev : ∀ e, ev ≠ .run e)
    (h : s.worker.step capacity ev = some w) :
    executed { s with worker := w } = s.executed := by
  obtain ⟨hran, hconsumer⟩ := quiet_step hev h
  unfold executed
  rw [hran]
  by_cases hended : s.ended.isSome = true
  · rw [hconsumer (hs hended)]
  · rw [if_neg hended, if_neg hended]

theorem CallInv.mono {x : SyncCall} {task : Option Nat} {ran tasks executed tasks' : List (Option Nat)}
    (h : CallInv x task ran tasks executed) (hnew : ∀ t ∈ tasks', t ≠ task) :
    CallInv x task ran (tasks ++ tasks') executed where
  sound := h.sound
  apart hpc := by
    refine ⟨fun hmem => ?_, (h.apart hpc).2⟩
    rcases List.mem_append.mp hmem with hmem | hmem
    · exact (h.apart hpc).1 hmem
    · exact hnew _ hmem rfl
  taken hpc := by
    have hzero : tasks'.count task = 0 := List.count_eq_zero.mpr fun hmem => hnew _ hmem rfl
    rw [List.count_append, h.taken hpc, hzero]
  gone := h.gone
  touched := h.touched
  passed := h.passed

/-- A step of the queue or its consumer that ends no task, and what it means for the calls that
it adds no task for. -/
theorem Inv.worker (hcap : 0 < capacity) (hs : s.Inv) {ev : HandoffEvent (Option Nat)}
    (hev : ∀ e, ev ≠ .run e) (h : s.worker.step capacity ev = some w) :
    w.Awake ∧ (s.ended.isSome = true → batch w.consumer ≠ []) ∧
      w.tasks = s.worker.tasks ++ messages [ev] ∧
      ∀ n, some n ∉ messages [ev] →
        CallInv (s.call n) (some n) w.ran w.tasks (executed { s with worker := w }) := by
  obtain ⟨hran, hconsumer⟩ := quiet_step hev h
  refine ⟨awake_step hcap hs.awake h, fun hended => ?_, tasks_step h, fun n hn => ?_⟩
  · rw [hconsumer (hs.ended hended)]
    exact hs.ended hended
  · rw [executed_quiet hs.ended hev h, hran, tasks_step h]
    exact (hs.call n).mono fun t ht heq => hn (heq ▸ ht)

/-- A call that goes on, while the worker does nothing. -/
theorem Inv.setCall (hs : s.Inv) {n : Nat} {x : SyncCall}
    (hpushing : s.pusher = some (some n) → x.pc = .pushing)
    (hx : CallInv x (some n) s.worker.ran s.worker.tasks s.executed) : (s.setCall n x).Inv where
  awake := hs.awake
  ended := hs.ended
  pushing m hm := by
    by_cases hmn : m = n
    · subst hmn
      simp only [SyncSchedule.setCall, Function.update_self]
      exact hpushing hm
    · simp only [SyncSchedule.setCall, Function.update_of_ne hmn]
      exact hs.pushing m hm
  call m := by
    by_cases hmn : m = n
    · subst hmn
      simp only [SyncSchedule.setCall, Function.update_self]
      exact hx
    · simp only [SyncSchedule.setCall, Function.update_of_ne hmn]
      exact hs.call m

theorem mem_tasks_of_ran {t : Option Nat} (h : t ∈ s.worker.ran) : t ∈ s.worker.tasks :=
  List.mem_append_left _ (List.mem_append_left _ h)

theorem mem_tasks_of_batch {t : Option Nat} (h : t ∈ batch s.worker.consumer) :
    t ∈ s.worker.tasks :=
  List.mem_append_left _ (List.mem_append_right _ h)

section Call

variable {x : SyncCall} {task : Option Nat} {ran tasks executed : List (Option Nat)}

/-- A call whose task is not in the queue goes on without it. -/
theorem CallInv.stay (h : CallInv x task ran tasks executed) (hx : x.pc.apart = true) {pc : CallPc}
    (hpc : pc.apart = true) : CallInv { x with pc := pc } task ran tasks executed where
  sound := h.sound
  apart _ := h.apart hx
  taken hnot := absurd (hpc.symm.trans hnot) (by decide)
  gone := h.gone
  touched := h.touched
  passed := by
    have hnew := (h.apart hx).2
    constructor
    · rintro rfl
      cases hpc
    · intro hret
      rw [hnew] at hret
      cases hret

/-- The push of the task is over. -/
theorem CallInv.pushed (h : CallInv x task ran tasks executed) (hx : x.pc = .pushing) :
    CallInv { x with pc := .yielding } task ran tasks executed where
  sound := h.sound
  apart hpc := by cases hpc
  taken _ := h.taken (by rw [hx]; rfl)
  gone := h.gone
  touched := h.touched
  passed := by
    constructor
    · intro hret
      cases hret
    · intro hret
      have hpassed := h.passed.mpr hret
      rw [hx] at hpassed
      cases hpassed

/-- A step of `yield`. -/
theorem CallInv.yield (h : CallInv x task ran tasks executed) (hx : x.pc = .yielding)
    {st : YieldStep} {cond : Condition} (hstep : x.cond.yield st = some cond) :
    CallInv ⟨if cond.yielder = .returned then .returned true else .yielding, cond⟩ task ran tasks
      executed := by
  have htaken := h.taken (by rw [hx]; rfl)
  have hresumer : cond.resumer = x.cond.resumer := by
    unfold Condition.yield at hstep
    cases st with
    | lock =>
      simp only [Option.ite_none_right_eq_some, Option.some.injEq] at hstep
      obtain ⟨-, rfl⟩ := hstep
      rfl
    | test =>
      simp only [Option.ite_none_right_eq_some] at hstep
      obtain ⟨-, hstep⟩ := hstep
      split at hstep
      · obtain rfl := Option.some.inj hstep
        rfl
      · obtain rfl := Option.some.inj hstep
        rfl
    | wake =>
      simp only [Option.ite_none_right_eq_some, Option.some.injEq] at hstep
      obtain ⟨-, rfl⟩ := hstep
      rfl
  refine ⟨h.sound.yield hstep, fun hpc => ?_, fun _ => htaken, ?_, ?_, ?_⟩
  · split at hpc
    · cases hpc
    · cases hpc
  · simp only [hresumer]
    exact h.gone
  · simp only [hresumer]
    exact h.touched
  · split
    · next hret => simp [hret]
    · next hret => simp [hret]

/-- A step of `resume`, for a task whose `run` has ended and that is not gone. -/
theorem CallInv.resume (h : CallInv x task ran tasks executed) (hmem : task ∈ tasks)
    (hran : task ∉ ran) (hexecuted : task ∈ executed) {st : ResumeStep} {cond : Condition}
    (hstep : x.cond.resume st = some cond) :
    CallInv { x with cond := cond } task ran tasks executed := by
  have hyielder : cond.yielder = x.cond.yielder := by
    unfold Condition.resume at hstep
    cases st with
    | lock | notify | unlock =>
      simp only [Option.ite_none_right_eq_some, Option.some.injEq] at hstep
      obtain ⟨-, rfl⟩ := hstep
      rfl
    | test =>
      simp only [Option.ite_none_right_eq_some] at hstep
      obtain ⟨-, hstep⟩ := hstep
      split at hstep
      · obtain rfl := Option.some.inj hstep
        rfl
      · obtain rfl := Option.some.inj hstep
        rfl
  refine ⟨h.sound.resume hstep, fun hpc => absurd hmem (h.apart hpc).1, h.taken,
    fun hgone => absurd hgone hran, fun _ => hexecuted, ?_⟩
  rw [hyielder]
  exact h.passed

end Call

/-- The first task of the batch has been executed when `ended` says so. -/
theorem executed_eq {c : Option Nat} {cs : List (Option Nat)} {e : TaskEnd}
    (hbatch : batch s.worker.consumer = c :: cs) (hended : s.ended = some e) :
    s.executed = s.worker.ran ++ [c] := by
  rw [executed, hbatch, hended]
  rfl

/-- A task of the batch that is in the queue of a call is not gone. -/
theorem Inv.not_ran (hs : s.Inv) {n : Nat} {cs : List (Option Nat)}
    (hbatch : batch s.worker.consumer = some n :: cs) : some n ∉ s.worker.ran := by
  intro hran
  have hmem : some n ∈ s.worker.tasks := mem_tasks_of_ran hran
  have hcount : s.worker.tasks.count (some n) = 1 := by
    cases hpc : (s.call n).pc.apart with
    | true => exact absurd hmem ((hs.call n).apart hpc).1
    | false => exact (hs.call n).taken hpc
  have hpos := List.count_pos_iff.mpr hran
  rw [Handoff.tasks, hbatch] at hcount
  simp only [List.count_append, List.count_cons_self] at hcount
  omega

/-- The first task of the batch goes. -/
theorem Inv.next (hs : s.Inv) {c : Option Nat} {cs : List (Option Nat)} {e : TaskEnd}
    (hbatch : batch s.worker.consumer = c :: cs) (hended : s.ended = some e)
    (hgone : ∀ n, c = some n → (s.call n).cond.resumer = .returned) (hcap : 0 < capacity)
    (h : s.worker.step capacity (.run e) = some w) :
    Inv { s with worker := w, ended := none } := by
  have hw : w.ran = s.worker.ran ++ [c] := by
    simp only [Handoff.step] at h
    split at h
    · next c' cs' hrunning =>
      cases h
      rw [hrunning] at hbatch
      cases hbatch
      rfl
    · cases h
  have htasks : w.tasks = s.worker.tasks := (tasks_step h).trans (List.append_nil _)
  have hexecuted : executed { s with worker := w, ended := none } = s.executed := by
    rw [executed_eq hbatch hended, executed, hw]
    exact List.append_nil _
  refine ⟨awake_step hcap hs.awake h, (fun hsome => by cases hsome), hs.pushing, fun n => ?_⟩
  rw [hexecuted, htasks, hw]
  have hn := hs.call n
  refine ⟨hn.sound, hn.apart, hn.taken, fun hmem => ?_, hn.touched, hn.passed⟩
  rcases List.mem_append.mp hmem with hmem | hmem
  · exact hn.gone hmem
  · exact hgone n (List.mem_singleton.mp hmem).symm

/-- A call pushes its task. -/
theorem Inv.push (hcap : 0 < capacity) (hs : s.Inv) {n : Nat} (hpc : (s.call n).pc = .tested)
    (h : s.worker.step capacity (.push (some n)) = some w) :
    Inv { SyncSchedule.setCall { s with worker := w } n { s.call n with pc := .pushing } with
      pusher := some (some n) } := by
  have hev : ∀ e : TaskEnd, HandoffEvent.push (some n) ≠ .run e := fun _ hrun => by cases hrun
  obtain ⟨hawake, hended, htasks, hcall⟩ := hs.worker hcap hev h
  have hn := hs.call n
  obtain ⟨hfree, hnew⟩ := hn.apart (by rw [hpc]; rfl)
  have hran := (quiet_step hev h).1
  refine ⟨hawake, hended, fun m hm => ?_, fun m => ?_⟩
  · obtain rfl : n = m := by simpa using hm
    simp only [SyncSchedule.setCall, Function.update_self]
  · by_cases hmn : m = n
    · subst hmn
      simp only [SyncSchedule.setCall, Function.update_self]
      refine ⟨hn.sound, (fun hpc => by cases hpc), fun _ => ?_, fun hmem => ?_, fun htouched => ?_, ?_⟩
      · rw [htasks, List.count_append, List.count_eq_zero.mpr hfree]
        simp [messages]
      · rw [hran] at hmem
        exact absurd (mem_tasks_of_ran hmem) hfree
      · exact absurd (congrArg Condition.resumer hnew) htouched
      · rw [hnew]
        exact (by decide : CallPc.pushing = .returned true ↔ Condition.new.yielder = .returned)
    · simp only [SyncSchedule.setCall, Function.update_of_ne hmn]
      exact hcall m (by simpa [messages] using hmn)

/-- An event of the worker that concerns no call. -/
theorem Inv.elsewhere (hcap : 0 < capacity) (hs : s.Inv) {ev : HandoffEvent (Option Nat)}
    (hev : ∀ e, ev ≠ .run e) (hnone : ∀ n, some n ∉ messages [ev])
    (h : s.worker.step capacity ev = some w) : Inv { s with worker := w } := by
  obtain ⟨hawake, hended, -, hcall⟩ := hs.worker hcap hev h
  exact ⟨hawake, hended, hs.pushing, fun n => hcall n (hnone n)⟩

/-- **One event** keeps the invariant. -/
theorem inv_step (hcap : 0 < capacity) (hs : s.Inv) {ev : SyncEvent}
    (h : step capacity queueLimit s ev = some s') : s'.Inv := by
  cases ev with
  | refuse n =>
    simp only [step, Option.ite_none_right_eq_some, Option.some.injEq] at h
    obtain ⟨hidle, rfl⟩ := h
    apply hs.setCall
    · intro hpusher
      rw [hs.pushing n hpusher] at hidle
      cases hidle
    · exact (hs.call n).stay (by rw [hidle]; rfl) rfl
  | test n =>
    simp only [step, Option.ite_none_right_eq_some] at h
    obtain ⟨⟨hidle, -⟩, h⟩ := h
    have hpusher : s.pusher ≠ some (some n) := by
      intro hpusher
      rw [hs.pushing n hpusher] at hidle
      cases hidle
    have hstay {pc : CallPc} (hpc : pc.apart = true) :=
      (hs.call n).stay (by rw [hidle]; rfl) hpc
    split at h
    · obtain rfl := Option.some.inj h
      exact hs.setCall (fun hp => absurd hp hpusher) (hstay rfl)
    · obtain rfl := Option.some.inj h
      exact hs.setCall (fun hp => absurd hp hpusher) (hstay rfl)
  | push n =>
    simp only [step, onWorker, Option.map_map, Option.ite_none_right_eq_some,
      Option.map_eq_some_iff] at h
    obtain ⟨hpc, w, hw, rfl⟩ := h
    exact hs.push hcap hpc hw
  | pushOther =>
    simp only [step, onWorker, Option.map_map, Option.map_eq_some_iff] at h
    obtain ⟨w, hw, rfl⟩ := h
    have hinv := hs.elsewhere hcap (fun _ hrun => by cases hrun) (by simp [messages]) hw
    exact ⟨hinv.awake, hinv.ended, (fun n hn => by cases hn), hinv.call⟩
  | pushed =>
    simp only [step, onWorker, Option.map_map] at h
    split at h
    · next n hpusher =>
      obtain ⟨w, hw, rfl⟩ := Option.map_eq_some_iff.mp h
      have hinv := hs.elsewhere hcap (fun _ hrun => by cases hrun) (by simp [messages]) hw
      have hpc := hs.pushing n hpusher
      have hset := Inv.setCall (s := { s with worker := w, pusher := none })
        ⟨hinv.awake, hinv.ended, (fun m hm => by cases hm), hinv.call⟩
        (fun hm => by cases hm) ((hinv.call n).pushed hpc)
      exact hset
    · obtain ⟨w, hw, rfl⟩ := Option.map_eq_some_iff.mp h
      have hinv := hs.elsewhere hcap (fun _ hrun => by cases hrun) (by simp [messages]) hw
      exact ⟨hinv.awake, hinv.ended, (fun n hn => by cases hn), hinv.call⟩
    · cases h
  | handle | read | get =>
    obtain ⟨w, hw, rfl⟩ := Option.map_eq_some_iff.mp h
    exact hs.elsewhere hcap (fun _ hrun => by cases hrun) (by simp [messages]) hw
  | run e =>
    have hrun {c : Option Nat} {cs : List (Option Nat)} (hbatch : batch s.worker.consumer = c :: cs)
        (hnone : s.ended = none) : Inv { s with ended := some e } := by
      refine ⟨hs.awake, fun _ => by rw [hbatch]; simp, hs.pushing, fun n => ?_⟩
      have hn := hs.call n
      have hold : s.executed = s.worker.ran := by
        rw [executed, hnone]
        exact List.append_nil _
      refine ⟨hn.sound, hn.apart, hn.taken, hn.gone, fun htouched => ?_, hn.passed⟩
      have hmem := hn.touched htouched
      rw [hold] at hmem
      exact List.mem_append_left _ hmem
    simp only [step] at h
    split at h
    · next hbatch hnone =>
      split at h
      · cases h
      · obtain rfl := Option.some.inj h
        exact hrun hbatch hnone
    · next hbatch hnone =>
      obtain rfl := Option.some.inj h
      exact hrun hbatch hnone
    · cases h
  | resume st =>
    simp only [step] at h
    split at h
    · next n cs e hbatch hended =>
      obtain ⟨cond, hcond, rfl⟩ := Option.map_eq_some_iff.mp h
      have hexecuted : some n ∈ s.executed := by
        rw [executed_eq hbatch hended]
        exact List.mem_append_right _ (List.mem_singleton_self _)
      have hmem : some n ∈ s.worker.tasks :=
        mem_tasks_of_batch (by rw [hbatch]; exact List.mem_cons_self)
      exact hs.setCall (hs.pushing n)
        ((hs.call n).resume hmem (hs.not_ran hbatch) hexecuted hcond)
    · cases h
  | next =>
    simp only [step, onWorker, Option.map_map] at h
    split at h
    · next n cs e hbatch hended =>
      split at h
      · next hreturned =>
        obtain ⟨w, hw, rfl⟩ := Option.map_eq_some_iff.mp h
        apply hs.next hbatch hended _ hcap hw
        intro m hm
        cases hm
        exact hreturned
      · cases h
    · next cs e hbatch hended =>
      obtain ⟨w, hw, rfl⟩ := Option.map_eq_some_iff.mp h
      apply hs.next hbatch hended _ hcap hw
      intro m hm
      cases hm
    · cases h
  | yield n st =>
    simp only [step, Option.ite_none_right_eq_some, Option.map_eq_some_iff] at h
    obtain ⟨hpc, cond, hcond, rfl⟩ := h
    apply hs.setCall
    · intro hpusher
      rw [hs.pushing n hpusher] at hpc
      cases hpc
    · exact (hs.call n).yield hpc hcond

/-! ## Results -/

theorem executed_sublist (s : SyncSchedule) : List.Sublist s.executed s.worker.tasks := by
  unfold executed tasks
  rw [List.append_assoc]
  apply List.Sublist.append_left
  split
  · exact (List.take_sublist 1 _).trans (List.sublist_append_left _ _)
  · exact List.nil_sublist _

/-- The invariant is what is promised to a call. -/
theorem Inv.served (hs : s.Inv) (n : Nat) : s.Served n := by
  have hn := hs.call n
  refine ⟨fun hpc hmem => ?_, fun hpc => ?_, fun hsleeping => ?_⟩
  · exact (hn.apart (by rw [hpc]; rfl)).1 (s.executed_sublist.subset hmem)
  · have hresumed : (s.call n).cond.resumer = .returned :=
      hn.sound.left_of_passed (hn.passed.mp hpc)
    have hmem : some n ∈ s.executed := hn.touched (by rw [hresumed]; decide)
    have hle := (s.executed_sublist).count_le (some n)
    have hpos := List.count_pos_iff.mpr hmem
    rw [hn.taken (by rw [hpc]; rfl)] at hle
    omega
  · by_cases hsig : (s.call n).cond.signalled = true
    · exact Or.inl hsig
    · right
      have hmem : some n ∈ s.worker.tasks := by
        by_contra hnot
        have hapart : (s.call n).pc.apart = true := by
          cases hpc : (s.call n).pc.apart with
          | true => rfl
          | false =>
            have hpos := hn.taken hpc
            rw [List.count_eq_zero.mpr hnot] at hpos
            cases hpos
        rw [(hn.apart hapart).2] at hsleeping
        cases hsleeping
      rcases List.mem_append.mp hmem with hmem | hqueue
      · rcases List.mem_append.mp hmem with hran | hbatch
        · exact absurd (hn.sound.woken hsleeping (Or.inr (hn.gone hran))) hsig
        · exact Or.inl hbatch
      · exact Or.inr ⟨hqueue, hs.awake (List.ne_nil_of_mem hqueue)⟩

theorem Inv.safe (hs : s.Inv) (ev : SyncEvent) : Safe capacity queueLimit s ev := by
  intro hpossible n htouches
  -- the task is in the batch, so the call has pushed it
  have hpushed {cs : List (Option Nat)} (hbatch : batch s.worker.consumer = some n :: cs) :
      s.UnderWay n ∨ (s.call n).cond.resumer = .returned := by
    have hmem : some n ∈ s.worker.tasks :=
      mem_tasks_of_batch (by rw [hbatch]; exact List.mem_cons_self)
    have hn := hs.call n
    cases hpc : (s.call n).pc with
    | idle => exact absurd hmem (hn.apart (by rw [hpc]; rfl)).1
    | tested => exact absurd hmem (hn.apart (by rw [hpc]; rfl)).1
    | pushing => exact Or.inl (Or.inl hpc)
    | yielding => exact Or.inl (Or.inr hpc)
    | returned result =>
      cases result with
      | false => exact absurd hmem (hn.apart (by rw [hpc]; rfl)).1
      | true => exact Or.inr (hn.sound.left_of_passed (hn.passed.mp hpc))
  cases ev with
  | run e =>
    obtain ⟨cs, hbatch⟩ := htouches
    rcases hpushed hbatch with hunder | hreturned
    · exact hunder
    · -- the destructor comes after `run`
      have hmem := (hs.call n).touched (by rw [hreturned]; decide)
      cases hended : s.ended with
      | none =>
        have hold : s.executed = s.worker.ran := by
          rw [executed, hended]
          exact List.append_nil _
        rw [hold] at hmem
        exact absurd hmem (hs.not_ran hbatch)
      | some e' =>
        simp only [step, hbatch, hended] at hpossible
        exact absurd rfl hpossible
  | resume st =>
    obtain ⟨cs, hbatch⟩ := htouches
    rcases hpushed hbatch with hunder | hreturned
    · exact hunder
    · refine absurd ?_ hpossible
      simp only [step, hbatch]
      cases s.ended with
      | none => rfl
      | some e => cases st <;> simp [Condition.resume, hreturned]
  | refuse | test | push | pushOther | pushed | handle | read | get | next | yield =>
    exact htouches.elim

/-- **A call of `schedule` waits for its task**: under every interleaving of the calls, the other
producers and the worker, the worker uses what is on the stack of a call only while the call is
under way, and every call is served. -/
theorem schedule_waits (capacity queueLimit : Nat) (hcap : 0 < capacity) (evs : List SyncEvent) :
    (machine capacity queueLimit).AllSteps (Safe capacity queueLimit)
        (machine capacity queueLimit).init evs ∧
      ∀ s, (machine capacity queueLimit).run (machine capacity queueLimit).init evs = some s →
        ∀ n, s.Served n := by
  have hall : (machine capacity queueLimit).AllSteps (fun _ _ => True)
      (machine capacity queueLimit).init evs :=
    (machine capacity queueLimit).allSteps_of_forall (fun _ _ => trivial) _
  constructor
  · exact Machine.allSteps_of_invariant _ (P := Inv)
      (fun s ev s' hs _ hstep => inv_step hcap hs hstep) (fun s ev hs _ => hs.safe ev) evs
      (init_inv capacity queueLimit) hall
  · intro s hrun n
    have hinv : s.Inv := Machine.run_invariant _ (P := Inv)
      (fun s ev s' hs _ hstep => inv_step hcap hs hstep) evs (init_inv capacity queueLimit) hall hrun
    exact hinv.served n

/-- A call that sleeps, wakes once without a signal, and is resumed by the destructor of a task
that has thrown. -/
def thrownCall : List SyncEvent :=
  [.test 3, .push 3, .handle, .pushed, .read, .get, .yield 3 .lock, .yield 3 .test, .yield 3 .wake,
    .run .threw, .yield 3 .lock, .yield 3 .test, .resume .lock, .resume .test, .resume .notify,
    .resume .unlock, .yield 3 .wake, .yield 3 .lock, .yield 3 .test, .next]

theorem schedule_waits_thrownCall :
    ∃ s ∈ (machine 64 10).run (machine 64 10).init thrownCall,
      (s.call 3).pc = .returned true ∧ s.executed.count (some 3) = 1 := by
  have hend : ∃ s ∈ (machine 64 10).run (machine 64 10).init thrownCall,
      (s.call 3).pc = .returned true := by decide
  obtain ⟨s, hs, hpc⟩ := hend
  exact ⟨s, hs, hpc, ((schedule_waits 64 10 (by decide) thrownCall).2 s hs 3).done hpc⟩

end SyncSchedule

end LinSocketIo.Core
