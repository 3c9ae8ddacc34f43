/-
LinSocketIo.Core.HandlerLife — a handler that has been destroyed is not
called back (`core/selector.h`, `core/selector.cpp`, `core/handler.cpp`,
`core/selector_epoll.cpp`).

`loop_once` holds pointers to the handlers that it is going to notify: the
timers that are due, the sockets that `epoll_wait` has reported, and the
interrupt handler. A callback may destroy any of them. `~Handler` leaves the
pointer in `_removed`, which `notify_event` asks and which is cleared at the
end, but `record_removed` does so only while `_running`, and a callback may
also call `stop`.

* `destroyed_not_notified` — in every run in which the destructor of a
  handler that is still to be notified runs while `_running`, no handler is
  notified that was destroyed in this iteration.
* `stopped_loop_notifies` — a run that calls `stop` first and destroys a
  timer that is due then.

Modelling notes. A handler is its address: `create` is a handler that is made
at an address, also at one where another was destroyed. A handler whose
destructor has run is not used any more by the program. `epoll_wait` reports
any of the sockets that are registered.
-/
import LinSocketIo.Core.Selector
import LinSocketIo.Core.Socket

namespace LinSocketIo.Core

open LinSocketIo.Base

/-- What `epoll_wait` reports of a socket: `EPOLLIN`, `EPOLLERR` or `EPOLLHUP`, and
`EPOLLOUT`. -/
structure Report (H : Type) where
  socket : H
  readable : Bool
  writable : Bool
  deriving DecidableEq, Repr

/-- `SEL_TIMEOUT`. -/
def selTimeout : Mask := 8

/-- A thread with its selector, and the handlers that `loop_once` points at. -/
structure Handlers (H : Type) where
  loop : Loop H
  /-- The sockets that are registered with epoll. -/
  sockets : H → Bool
  /-- What is left to notify of what `epoll_wait` reported. -/
  ready : List (H × Mask)
  /-- `_interrupt_handler`. -/
  interruptHandler : Option H
  /-- `interrupt` is still to be called in this iteration. -/
  interrupts : Bool
  /-- The destructor has run since `loop_once` was entered. -/
  destroyed : H → Bool

namespace Handlers

variable {H : Type}

/-- What happens next to the thread. -/
inductive Event (H : Type) where
  /-- Time passes, in nanoseconds. -/
  | pass (ns : Nat)
  /-- `mainloop` is entered. -/
  | mainloop
  /-- `mainloop` calls `loop_once`: the clock is read and the wheel clicks. -/
  | enter
  /-- `timout_run` notifies the next handler. -/
  | timer
  /-- `epoll_wait` returns. -/
  | wait (reports : List (Report H))
  /-- The next of what was reported is notified. -/
  | notify
  /-- `interrupt`. -/
  | interrupt
  /-- `loop_once` returns. -/
  | leave
  /-- `Selector::stop`. -/
  | stop
  /-- A handler is made. -/
  | create (h : H)
  /-- `~Handler`, and `~Socket` before it. -/
  | destroy (h : H)
  /-- `Handler::select_timeout`. -/
  | selectTimeout (h : H) (timeout : Int)
  /-- `Handler::close_timeout`. -/
  | closeTimeout (h : H)
  /-- `Socket::select`, for a socket that is not registered yet. -/
  | select (h : H)
  /-- `Socket::remove`. -/
  | remove (h : H)
  /-- `Selector::set_interrupt_handler`. -/
  | setInterruptHandler (h : Option H)
  deriving DecidableEq, Repr

/-- The notifications of a report. -/
def notices (r : Report H) : List (H × Mask) :=
  (if r.readable then [(r.socket, selRead)] else []) ++
    if r.writable then [(r.socket, selWrite)] else []

/-- The handler that an event of the loop calls `handle` on, and with what. -/
def handles (s : Handlers H) : Event H → Option (H × Mask)
  | .timer => (s.loop.batch.head?.filter fun h => !s.loop.sel.isRemoved h).map (·, selTimeout)
  | .notify => s.ready.head?.filter fun notice => !s.loop.sel.isRemoved notice.1
  | .interrupt =>
    if s.interrupts then (s.interruptHandler.filter fun h => !s.loop.sel.isRemoved h).map (·, selNone)
    else none
  | _ => none

variable [DecidableEq H]

/-- The loop makes a step. -/
def advance (s : Handlers H) (ev : Core.Event H) : Option (Handlers H) :=
  (s.loop.step ev).map fun loop => { s with loop := loop }

/-- `~Socket` and `~Handler`. -/
def destroy (s : Handlers H) (h : H) : Option (Handlers H) :=
  if s.destroyed h then none
  else
    ({ s with
      sockets := Function.update s.sockets h false
      destroyed := Function.update s.destroyed h true }).advance (.closeTimeout h)

/-- One event. -/
def step (s : Handlers H) : Event H → Option (Handlers H)
  | .pass ns => s.advance (.pass ns)
  | .mainloop => s.advance .mainloop
  | .enter =>
    if s.loop.sel.running then
      ({ s with destroyed := fun _ => false, interrupts := true }).advance .enter
    else none
  | .timer => s.advance .timer
  | .wait reports =>
    if reports.all fun r => s.sockets r.socket then
      ({ s with ready := reports.flatMap notices }).advance .wait
    else none
  | .notify =>
    match s.ready with
    | [] => none
    | (h, _) :: ready => ({ s with ready := ready }).advance (.socket h)
  | .interrupt =>
    if s.loop.phase = .sockets ∧ s.ready = [] ∧ s.interrupts then
      match s.interruptHandler with
      | none => some { s with interrupts := false, loop := { s.loop with callback := false } }
      | some h => ({ s with interrupts := false }).advance (.socket h)
    else none
  | .leave => if s.interrupts then none else s.advance .leave
  | .stop => s.advance .stop
  | .create h =>
    if s.loop.canCall then some { s with destroyed := Function.update s.destroyed h false } else none
  | .destroy h => s.destroy h
  | .selectTimeout h t => if s.destroyed h then none else s.advance (.selectTimeout h t)
  | .closeTimeout h => if s.destroyed h then none else s.advance (.closeTimeout h)
  | .select h =>
    if s.loop.canCall ∧ s.destroyed h = false then
      some { s with sockets := Function.update s.sockets h true }
    else none
  | .remove h =>
    if s.loop.canCall ∧ s.destroyed h = false then
      some { s with sockets := Function.update s.sockets h false }
    else none
  | .setInterruptHandler handler =>
    if s.loop.canCall ∧ handler.all fun h => !s.destroyed h then
      match s.interruptHandler with
      | none => some { s with interruptHandler := handler }
      | some h => ({ s with interruptHandler := handler }).destroy h
    else none

/-- A thread from the creation of its selector on, at `clock` nanoseconds. -/
def machine (clock : Int) : Machine (Handlers H) (Event H) where
  init := ⟨(Loop.machine clock).init, fun _ => false, [], none, false, fun _ => false⟩
  step := step

/-! ## What is still to be notified -/

/-- `loop_once` will come to the handler in this iteration. -/
def Pending (s : Handlers H) (h : H) : Prop :=
  h ∈ s.loop.batch ∨ h ∈ s.ready.map Prod.fst ∨ s.interrupts = true ∧ s.interruptHandler = some h

instance (s : Handlers H) (h : H) : Decidable (s.Pending h) :=
  inferInstanceAs (Decidable (_ ∨ _ ∨ _))

/-- `_removed` has the handler, or will have it when its destructor runs. -/
def Records (s : Handlers H) (h : H) : Prop :=
  s.loop.sel.running = true ∨ s.loop.sel.isRemoved h = true

instance (s : Handlers H) (h : H) : Decidable (s.Records h) :=
  inferInstanceAs (Decidable (_ ∨ _))

/-- The destructor of a handler that is still to be notified runs while `_running`, or after the
handler was recorded. -/
def DestroysRecorded (s : Handlers H) : Event H → Prop
  | .destroy h => s.Pending h → s.Records h
  | .setInterruptHandler handler =>
    ∀ h ∈ s.interruptHandler, { s with interruptHandler := handler }.Pending h → s.Records h
  | _ => True

instance (s : Handlers H) (ev : Event H) : Decidable (s.DestroysRecorded ev) :=
  match ev with
  | .destroy _ => inferInstanceAs (Decidable (_ → _))
  | .setInterruptHandler _ => inferInstanceAs (Decidable (∀ h ∈ s.interruptHandler, _))
  | .pass _ | .mainloop | .enter | .timer | .wait _ | .notify | .interrupt | .leave | .stop | .create _
  | .selectTimeout _ _ | .closeTimeout _ | .select _ | .remove _ => isTrue trivial

/-- `handle` is called on a handler that has not been destroyed in this iteration. -/
def HandlesLiving (s : Handlers H) (ev : Event H) : Prop :=
  ∀ notice ∈ s.handles ev, s.destroyed notice.1 = false

instance (s : Handlers H) (ev : Event H) : Decidable (s.HandlesLiving ev) :=
  inferInstanceAs (Decidable (∀ notice ∈ s.handles ev, _))

/-! ## The invariant -/

/-- What holds between two events: a handler that is destroyed and still to be notified is
recorded. -/
structure Inv (s : Handlers H) : Prop where
  batch : s.loop.phase ≠ .timers → s.loop.batch = []
  timers : s.loop.phase = .timers → s.interrupts = true
  ready : s.interrupts = false → s.ready = []
  sockets : ∀ h, s.sockets h = true → s.destroyed h = false
  removed : ∀ h, s.destroyed h = true → s.Pending h → s.loop.sel.isRemoved h = true

theorem inv_init (clock : Int) : (machine (H := H) clock).init.Inv where
  batch _ := rfl
  timers := nofun
  ready _ := rfl
  sockets _ heq := nomatch heq
  removed _ heq := nomatch heq

/-- What every step of the loop keeps, but the first and the last one of an iteration. -/
structure Keeps (l l' : Loop H) : Prop where
  removed : ∀ h, l.sel.isRemoved h = true → l'.sel.isRemoved h = true
  batch : ∀ h ∈ l'.batch, h ∈ l.batch
  timers : l'.phase = .timers → l.phase = .timers
  phase : (l.phase ≠ .timers → l.batch = []) → l'.phase ≠ .timers → l'.batch = []

omit [DecidableEq H] in
theorem Keeps.of_eq {l l' : Loop H} (hremoved : l'.sel.removed = l.sel.removed)
    (hbatch : l'.batch = l.batch) (hphase : l'.phase = l.phase) : Keeps l l' where
  removed h hr := by
    rw [Selector.isRemoved, hremoved]
    exact hr
  batch h hh := hbatch ▸ hh
  timers hp := hphase ▸ hp
  phase hp := by
    rw [hphase, hbatch]
    exact hp

theorem removed_closeTimeout (sel : Selector H) (h : H) : (sel.closeTimeout h).removed =
    if sel.running then Function.update sel.removed h true else sel.removed := rfl

/-- A handler is recorded while the loop runs. -/
theorem isRemoved_self {sel : Selector H} (hrunning : sel.running = true) (h : H) :
    (sel.closeTimeout h).isRemoved h = true := by
  rw [Selector.isRemoved, removed_closeTimeout, if_pos hrunning, Function.update_self]

theorem keeps_closeTimeout (l : Loop H) (h : H) : Keeps l { l with sel := l.sel.closeTimeout h } where
  removed x hx := by
    rw [Selector.isRemoved, removed_closeTimeout]
    split
    · by_cases hxh : x = h
      · rw [hxh, Function.update_self]
      · rw [Function.update_of_ne hxh]
        exact hx
    · exact hx
  batch _ hx := hx
  timers hp := hp
  phase hp := hp

/-- A step of the loop that is not the first or the last one of an iteration. -/
theorem keeps_step {l l' : Loop H} {ev : Core.Event H} (hstep : l.step ev = some l')
    (henter : ev ≠ .enter) (hleave : ev ≠ .leave) : Keeps l l' := by
  cases ev with
  | pass ns =>
    obtain rfl := Option.some.inj hstep
    exact .of_eq rfl rfl rfl
  | mainloop =>
    simp only [Loop.step, Option.ite_none_right_eq_some, Option.some.injEq] at hstep
    obtain ⟨-, rfl⟩ := hstep
    exact .of_eq rfl rfl rfl
  | enter => exact absurd rfl henter
  | timer =>
    simp only [Loop.step] at hstep
    split at hstep
    · next h rest hphase hbatch =>
      obtain rfl := Option.some.inj hstep
      refine ⟨fun _ hr => hr, fun x hx => ?_, fun hp => hp, fun _ hne => absurd hphase hne⟩
      rw [hbatch]
      exact List.mem_cons_of_mem _ hx
    · cases hstep
  | wait =>
    simp only [Loop.step, Option.ite_none_right_eq_some, Option.some.injEq] at hstep
    obtain ⟨⟨-, hbatch⟩, rfl⟩ := hstep
    exact ⟨fun _ hr => hr, fun _ hx => hx, nofun, fun _ _ => hbatch⟩
  | socket h =>
    simp only [Loop.step, Option.ite_none_right_eq_some, Option.some.injEq] at hstep
    obtain ⟨-, rfl⟩ := hstep
    exact .of_eq rfl rfl rfl
  | leave => exact absurd rfl hleave
  | selectTimeout h t =>
    simp only [Loop.step, Option.ite_none_right_eq_some, Option.some.injEq] at hstep
    obtain ⟨-, rfl⟩ := hstep
    exact .of_eq rfl rfl rfl
  | closeTimeout h =>
    simp only [Loop.step, Option.ite_none_right_eq_some, Option.some.injEq] at hstep
    obtain ⟨-, rfl⟩ := hstep
    exact keeps_closeTimeout l h
  | stop =>
    simp only [Loop.step, Option.ite_none_right_eq_some, Option.some.injEq] at hstep
    obtain ⟨-, rfl⟩ := hstep
    exact .of_eq rfl rfl rfl

variable {s s' : Handlers H}

theorem advance_eq {ev : Core.Event H} (hstep : s.advance ev = some s') :
    ∃ l, s.loop.step ev = some l ∧ s' = { s with loop := l } := by
  obtain ⟨l, hl, hs'⟩ := Option.map_eq_some_iff.mp hstep
  exact ⟨l, hl, hs'.symm⟩

omit [DecidableEq H] in
/-- A step with no more to notify. -/
theorem Inv.keep (h : s.Inv) {l : Loop H} (hkeeps : Keeps s.loop l) :
    ({ s with loop := l } : Handlers H).Inv where
  batch := hkeeps.phase h.batch
  timers hp := h.timers (hkeeps.timers hp)
  ready := h.ready
  sockets := h.sockets
  removed x hx hpending := by
    refine hkeeps.removed x (h.removed x hx ?_)
    rcases hpending with hbatch | hready | hinterrupt
    · exact .inl (hkeeps.batch x hbatch)
    · exact .inr (.inl hready)
    · exact .inr (.inr hinterrupt)

theorem Inv.advance (h : s.Inv) {ev : Core.Event H} (hstep : s.advance ev = some s')
    (henter : ev ≠ .enter) (hleave : ev ≠ .leave) : s'.Inv := by
  obtain ⟨l, hl, rfl⟩ := advance_eq hstep
  exact h.keep (keeps_step hl henter hleave)

/-- A destructor. -/
theorem Inv.destroy (h : s.Inv) {x : H} (hrecords : s.Pending x → s.Records x)
    (hstep : s.destroy x = some s') : s'.Inv := by
  rw [Handlers.destroy] at hstep
  split at hstep
  · cases hstep
  obtain ⟨l, hl, rfl⟩ := advance_eq hstep
  have hkeeps := keeps_step hl nofun nofun
  simp only [Loop.step, Option.ite_none_right_eq_some, Option.some.injEq] at hl
  obtain ⟨-, rfl⟩ := hl
  refine ⟨hkeeps.phase h.batch, h.timers, h.ready, fun y hy => ?_, fun y hy hpending => ?_⟩
  · by_cases hyx : y = x
    · subst hyx
      simp only [Function.update_self, Bool.false_eq_true] at hy
    · simp only [Function.update_of_ne hyx] at hy ⊢
      exact h.sockets y hy
  · have hold : s.Pending y := hpending
    by_cases hyx : y = x
    · subst hyx
      rcases hrecords hold with hrunning | hremoved
      · exact isRemoved_self hrunning y
      · exact hkeeps.removed y hremoved
    · simp only [Function.update_of_ne hyx] at hy
      exact hkeeps.removed y (h.removed y hy hold)

/-- The first step of an iteration: nothing has been destroyed in it. -/
theorem inv_enter (hstep : ({ s with destroyed := fun _ => false, interrupts := true }).advance
    .enter = some s') : s'.Inv := by
  obtain ⟨l, hl, rfl⟩ := advance_eq hstep
  simp only [Loop.step, Option.ite_none_right_eq_some, Option.some.injEq] at hl
  obtain ⟨-, rfl⟩ := hl
  exact ⟨fun hne => absurd rfl hne, fun _ => rfl, nofun, fun _ _ => rfl, nofun⟩

/-- The last step of an iteration: nothing is left to be notified. -/
theorem Inv.leave (h : s.Inv) (hinterrupts : s.interrupts = false)
    (hstep : s.advance .leave = some s') : s'.Inv := by
  obtain ⟨l, hl, rfl⟩ := advance_eq hstep
  simp only [Loop.step, Option.ite_none_right_eq_some, Option.some.injEq] at hl
  obtain ⟨hphase, rfl⟩ := hl
  have hbatch : s.loop.batch = [] := h.batch (by rw [hphase]; exact nofun)
  have hready := h.ready hinterrupts
  refine ⟨fun _ => hbatch, nofun, fun _ => hready, h.sockets, fun x _ hpending => ?_⟩
  rcases hpending with hmem | hmem | ⟨htrue, -⟩
  · rw [hbatch] at hmem
    cases hmem
  · rw [hready] at hmem
    cases hmem
  · rw [hinterrupts] at htrue
    cases htrue

omit [DecidableEq H] in
/-- What is notified of a report is about its socket. -/
theorem socket_of_notices {x : H} {reports : List (Report H)}
    (hx : x ∈ (reports.flatMap notices).map Prod.fst) : ∃ r ∈ reports, r.socket = x := by
  obtain ⟨notice, hnotice, rfl⟩ := List.mem_map.mp hx
  obtain ⟨r, hr, hnotice⟩ := List.mem_flatMap.mp hnotice
  refine ⟨r, hr, ?_⟩
  rcases List.mem_append.mp hnotice with hread | hwrite
  · split at hread
    · rw [List.mem_singleton.mp hread]
    · cases hread
  · split at hwrite
    · rw [List.mem_singleton.mp hwrite]
    · cases hwrite

/-- What `epoll_wait` reports are sockets that have not been destroyed. -/
theorem Inv.wait (h : s.Inv) {reports : List (Report H)}
    (hreports : reports.all (fun r => s.sockets r.socket) = true)
    (hstep : ({ s with ready := reports.flatMap notices }).advance .wait = some s') : s'.Inv := by
  have hinterrupts : s.interrupts = true := by
    obtain ⟨l, hl, -⟩ := advance_eq hstep
    simp only [Loop.step, Option.ite_none_right_eq_some] at hl
    exact h.timers hl.1.1
  refine Inv.advance (s := { s with ready := reports.flatMap notices }) ⟨h.batch, h.timers,
    fun hno => ?_, h.sockets, fun x hx hpending => ?_⟩ hstep nofun nofun
  · exact absurd (hinterrupts.symm.trans hno) nofun
  · rcases hpending with hbatch | hmem | hinterrupt
    · exact h.removed x hx (.inl hbatch)
    · obtain ⟨r, hr, rfl⟩ := socket_of_notices hmem
      have hliving := h.sockets r.socket (List.all_eq_true.mp hreports r hr)
      exact absurd (hx.symm.trans hliving) nofun
    · exact h.removed x hx (.inr (.inr hinterrupt))

/-- What a step keeps. -/
theorem step_inv {ev : Event H} (h : s.Inv) (hrecorded : s.DestroysRecorded ev)
    (hstep : s.step ev = some s') : s'.Inv := by
  cases ev with
  | pass ns => exact h.advance hstep nofun nofun
  | mainloop => exact h.advance hstep nofun nofun
  | enter =>
    simp only [step] at hstep
    split at hstep
    · exact inv_enter hstep
    · cases hstep
  | timer => exact h.advance hstep nofun nofun
  | wait reports =>
    simp only [step] at hstep
    split at hstep
    · next hreports => exact h.wait hreports hstep
    · cases hstep
  | notify =>
    simp only [step] at hstep
    split at hstep
    · cases hstep
    · next x ev ready hready =>
      refine Inv.advance (s := { s with ready := ready }) ⟨h.batch, h.timers, fun hno => ?_,
        h.sockets, fun y hy hpending => h.removed y hy ?_⟩ hstep nofun nofun
      · have hnil := h.ready hno
        rw [hready] at hnil
        cases hnil
      · rcases hpending with hbatch | hmem | hinterrupt
        · exact .inl hbatch
        · refine .inr (.inl ?_)
          rw [hready]
          exact List.mem_cons_of_mem _ hmem
        · exact .inr (.inr hinterrupt)
  | interrupt =>
    simp only [step] at hstep
    split at hstep
    · next hat =>
      have hinv : ({ s with interrupts := false } : Handlers H).Inv := by
        refine ⟨h.batch, fun hp => absurd (hat.1.symm.trans hp) nofun, fun _ => hat.2.1, h.sockets,
          fun x hx hpending => h.removed x hx ?_⟩
        rcases hpending with hbatch | hready | ⟨hfalse, -⟩
        · exact .inl hbatch
        · exact .inr (.inl hready)
        · cases hfalse
      split at hstep
      · obtain rfl := Option.some.inj hstep
        exact hinv.keep (.of_eq rfl rfl rfl)
      · exact hinv.advance hstep nofun nofun
    · cases hstep
  | leave =>
    simp only [step] at hstep
    split at hstep
    · cases hstep
    · next hinterrupts => exact h.leave (Bool.eq_false_iff.mpr hinterrupts) hstep
  | stop => exact h.advance hstep nofun nofun
  | create x =>
    simp only [step, Option.ite_none_right_eq_some, Option.some.injEq] at hstep
    obtain ⟨-, rfl⟩ := hstep
    refine ⟨h.batch, h.timers, h.ready, fun y hy => ?_,
      fun y hy hpending => h.removed y ?_ hpending⟩
    · by_cases hyx : y = x
      · rw [hyx]
        exact Function.update_self _ _ _
      · exact (Function.update_of_ne hyx _ _).trans (h.sockets y hy)
    · by_cases hyx : y = x
      · subst hyx
        simp only [Function.update_self, Bool.false_eq_true] at hy
      · simpa only [Function.update_of_ne hyx] using hy
  | destroy x => exact h.destroy hrecorded hstep
  | selectTimeout x t =>
    simp only [step] at hstep
    split at hstep
    · cases hstep
    · exact h.advance hstep nofun nofun
  | closeTimeout x =>
    simp only [step] at hstep
    split at hstep
    · cases hstep
    · exact h.advance hstep nofun nofun
  | select x =>
    simp only [step, Option.ite_none_right_eq_some, Option.some.injEq] at hstep
    obtain ⟨⟨-, hliving⟩, rfl⟩ := hstep
    refine ⟨h.batch, h.timers, h.ready, fun y hy => ?_, h.removed⟩
    by_cases hyx : y = x
    · rw [hyx]
      exact hliving
    · simp only [Function.update_of_ne hyx] at hy
      exact h.sockets y hy
  | remove x =>
    simp only [step, Option.ite_none_right_eq_some, Option.some.injEq] at hstep
    obtain ⟨-, rfl⟩ := hstep
    refine ⟨h.batch, h.timers, h.ready, fun y hy => ?_, h.removed⟩
    by_cases hyx : y = x
    · subst hyx
      simp only [Function.update_self, Bool.false_eq_true] at hy
    · simp only [Function.update_of_ne hyx] at hy
      exact h.sockets y hy
  | setInterruptHandler handler =>
    simp only [step] at hstep
    split at hstep
    · next hat =>
      have hinv : ({ s with interruptHandler := handler } : Handlers H).Inv := by
        refine ⟨h.batch, h.timers, h.ready, h.sockets, fun x hx hpending => ?_⟩
        rcases hpending with hbatch | hready | ⟨-, hnew⟩
        · exact h.removed x hx (.inl hbatch)
        · exact h.removed x hx (.inr (.inl hready))
        · have hliving := hat.2
          rw [show handler = some x from hnew, Option.all_some, Bool.not_eq_true'] at hliving
          exact absurd (hx.symm.trans hliving) nofun
      split at hstep
      · obtain rfl := Option.some.inj hstep
        exact hinv
      · next x hx => exact hinv.destroy (hrecorded x hx) hstep
    · cases hstep

/-! ## Runs -/

omit [DecidableEq H] in
theorem Inv.handlesLiving (h : s.Inv) (ev : Event H) : s.HandlesLiving ev := by
  have hliving {x : H} (hpending : s.Pending x) (hremoved : (!s.loop.sel.isRemoved x) = true) :
      s.destroyed x = false := by
    by_contra hne
    rw [h.removed x (Bool.not_eq_false _ ▸ hne) hpending] at hremoved
    cases hremoved
  intro notice hnotice
  cases ev with
  | timer =>
    obtain ⟨x, hx, rfl⟩ := Option.map_eq_some_iff.mp hnotice
    obtain ⟨hhead, hremoved⟩ := Option.filter_eq_some_iff.mp hx
    exact hliving (.inl (List.mem_of_mem_head? hhead)) hremoved
  | notify =>
    obtain ⟨hhead, hremoved⟩ := Option.filter_eq_some_iff.mp hnotice
    exact hliving (.inr (.inl (List.mem_map_of_mem (List.mem_of_mem_head? hhead)))) hremoved
  | interrupt =>
    simp only [handles, Option.mem_def, Option.ite_none_right_eq_some] at hnotice
    obtain ⟨hinterrupts, hnotice⟩ := hnotice
    obtain ⟨x, hx, rfl⟩ := Option.map_eq_some_iff.mp hnotice
    obtain ⟨hhandler, hremoved⟩ := Option.filter_eq_some_iff.mp hx
    exact hliving (.inr (.inr ⟨hinterrupts, hhandler⟩)) hremoved
  | _ => cases hnotice

/-- **A handler that has been destroyed is not called back.** In every run in which the destructor
of a handler that is still to be notified runs while `_running`, no step of the loop calls `handle`
on a handler whose destructor has run in the iteration. -/
theorem destroyed_not_notified (clock : Int) {evs : List (Event H)}
    (hrecorded : (machine clock).AllSteps DestroysRecorded (machine clock).init evs) :
    (machine clock).AllSteps HandlesLiving (machine clock).init evs :=
  (machine clock).allSteps_of_invariant (fun _ _ _ h hr hstep => step_inv h hr hstep)
    (fun _ ev h _ => h.handlesLiving ev) evs (inv_init clock) hrecorded

/-- Two timers are due, and the first callback makes these calls and destroys the handler of the
other one. -/
def destroysOther (calls : List (Event Nat)) : List (Event Nat) :=
  [.create 0, .create 1, .selectTimeout 0 10, .selectTimeout 1 10, .mainloop, .pass 20000000, .enter,
    .timer] ++ calls ++ [.destroy 1, .timer, .wait [], .interrupt, .leave]

theorem destroyed_not_notified_other :
    ((machine 0).run (machine 0).init (destroysOther [])).isSome = true ∧
      (machine 0).AllSteps HandlesLiving (machine 0).init (destroysOther []) :=
  ⟨by decide +kernel, destroyed_not_notified 0 (by decide +kernel)⟩

/-- With `stop`, the other handler is called back. -/
theorem stopped_loop_notifies : ∃ (evs : List (Event Nat)) (s : Handlers Nat),
    (machine 0).run (machine 0).init evs = some s ∧
      ¬ (machine 0).AllSteps HandlesLiving (machine 0).init evs := by
  obtain ⟨s, hrun⟩ := Option.isSome_iff_exists.mp
    (show ((machine 0).run (machine 0).init (destroysOther [.stop])).isSome = true by decide +kernel)
  exact ⟨_, s, hrun, by decide +kernel⟩

end Handlers

end LinSocketIo.Core
