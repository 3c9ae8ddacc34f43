/-
LinSocketIo.Core.Selector — the event loop of `core/selector.h`,
`core/selector.cpp` and `core/selector_epoll.cpp`, with the timer calls of
`core/handler.h`.

One turn of `Selector_epoll::loop_once` reads the clock, charges the time
since the last reading to the timers and notifies the due handlers one by
one, waits, notifies the sockets, and forgets the handlers that were
removed on the way. The callbacks it makes arm and cancel timers, so the
turn is a machine: `Event` says what happens next, and a call on a handler
is possible while a callback runs, or outside the loop.

Modelling notes. The monotonic clock counts nanoseconds and only the
environment moves it (`Event.pass`), by any amount at any time: a wait and
a callback take as long as they take. `epoll_wait` and the sockets it
reports are the environment's choice. `notify_event` catches what a
callback throws, so a callback that throws is one that ends.
-/
import LinSocketIo.Base.Machine
import LinSocketIo.Core.Countdown

namespace LinSocketIo.Core

open LinSocketIo.Base

/-- The fields of `Selector` that the timers depend on. -/
structure Selector (H : Type) where
  /-- `_tick`: the clock in milliseconds, when it was last read. -/
  tick : Int
  /-- `_elapsed`: what has not been passed to the wheel yet. -/
  elapsed : Int
  /-- `_countdown`. -/
  countdown : Countdown H
  /-- `_running`. -/
  running : Bool
  /-- `_removed`. -/
  removed : H → Bool

variable {H : Type}

namespace Selector

/-- `update_time`, at `clock` nanoseconds. -/
def updateTime (sel : Selector H) (clock : Int) : Selector H :=
  { sel with tick := clock / 1000000 }

/-- `Selector::Selector`, at `clock` nanoseconds. -/
def new (clock : Int) : Selector H :=
  updateTime ⟨0, 0, Countdown.new, false, fun _ => false⟩ clock

/-- `isRemoved`. -/
def isRemoved (sel : Selector H) (s : H) : Bool := sel.removed s

/-- `clearRemoved`. -/
def clearRemoved (sel : Selector H) : Selector H := { sel with removed := fun _ => false }

variable [DecidableEq H]

/-- `record_removed`. -/
def recordRemoved (sel : Selector H) (s : H) : Selector H :=
  { sel with removed := if sel.running then Function.update sel.removed s true else sel.removed }

/-- `timout_run`, up to the loop that notifies: the handlers it will notify
are returned. -/
def timoutRun (sel : Selector H) (elapsed : Int) : Selector H × List H :=
  let sel := { sel with elapsed := toInt (sel.elapsed + elapsed) }
  if sel.elapsed < timeClick then (sel, [])
  else
    let (cd, result) := sel.countdown.clickElapse sel.elapsed
    ({ sel with elapsed := 0, countdown := cd }, result.map (·.handler))

/-- `Handler::select_timeout`. -/
def selectTimeout (sel : Selector H) (s : H) (timeout : Int) : Selector H :=
  { sel with countdown := sel.countdown.selectTimeout s timeout }

/-- `Handler::close_timeout`, which is also what `~Handler` does. -/
def closeTimeout (sel : Selector H) (s : H) : Selector H :=
  (sel.selectTimeout s (-1)).recordRemoved s

end Selector

/-! ## One turn of the loop -/

/-- Where `loop_once` stands: not running, notifying the timers, or notifying
the sockets. -/
inductive Phase where
  | idle
  | timers
  | sockets
  deriving DecidableEq, Repr

/-- A thread with its selector. -/
structure Loop (H : Type) where
  sel : Selector H
  clock : Int
  phase : Phase
  /-- A callback of this phase is running. -/
  callback : Bool
  /-- What `timout_run` has not notified yet. -/
  batch : List H

/-- What happens next to the thread. -/
inductive Event (H : Type) where
  /-- Time passes, in nanoseconds. -/
  | pass (ns : Nat)
  /-- `mainloop` is entered. -/
  | mainloop
  /-- `loop_once` is entered: the clock is read and the wheel clicks. -/
  | enter
  /-- `timout_run` takes the next handler and notifies it. -/
  | timer
  /-- The timers are notified and `epoll_wait` returns. -/
  | wait
  /-- A socket, or the interrupt handler, is notified. -/
  | socket (s : H)
  /-- `loop_once` returns. -/
  | leave
  /-- `Handler::select_timeout`. -/
  | selectTimeout (s : H) (timeout : Int)
  /-- `Handler::close_timeout`. -/
  | closeTimeout (s : H)
  /-- `Selector::stop`. -/
  | stop
  deriving DecidableEq, Repr

namespace Loop

/-- Calls come from a callback, or from a thread that is not in its main loop. -/
def canCall (l : Loop H) : Bool :=
  match l.phase with
  | .idle => !l.sel.running
  | _ => l.callback

/-- The handler that an event notifies `SEL_TIMEOUT`. -/
def delivers (l : Loop H) : Event H → Option H
  | .timer => l.batch.head?.filter fun s => !l.sel.isRemoved s
  | _ => none

variable [DecidableEq H]

/-- `loop_once` up to the notifications: `lasttick`, `update_time`, `timout_run`. -/
def loopTimers (l : Loop H) : Loop H :=
  let sel := l.sel.updateTime l.clock
  let (sel, result) := sel.timoutRun (toInt (sel.tick - l.sel.tick))
  { l with sel := sel, phase := .timers, callback := false, batch := result }

/-- One event. -/
def step (l : Loop H) : Event H → Option (Loop H)
  | .pass ns => some { l with clock := l.clock + ns }
  | .mainloop =>
    if l.phase = .idle ∧ l.sel.running = false then
      some { l with sel := { l.sel with running := true } }
    else none
  | .enter => if l.phase = .idle then some l.loopTimers else none
  | .timer =>
    match l.phase, l.batch with
    | .timers, s :: rest =>
      some { l with batch := rest, callback := !l.sel.isRemoved s }
    | _, _ => none
  | .wait =>
    if l.phase = .timers ∧ l.batch = [] then
      some { l with phase := .sockets, callback := false }
    else none
  | .socket s =>
    if l.phase = .sockets then
      some { l with callback := !l.sel.isRemoved s }
    else none
  | .leave =>
    if l.phase = .sockets then
      some { l with phase := .idle, callback := false, sel := l.sel.clearRemoved }
    else none
  | .selectTimeout s t =>
    if l.canCall then some { l with sel := l.sel.selectTimeout s t } else none
  | .closeTimeout s =>
    if l.canCall then some { l with sel := l.sel.closeTimeout s } else none
  | .stop =>
    if l.canCall then some { l with sel := { l.sel with running := false } } else none

/-- A thread from the creation of its selector on, at `clock` nanoseconds. -/
def machine (clock : Int) : Machine (Loop H) (Event H) where
  init := ⟨Selector.new clock, clock, .idle, false, []⟩
  step := step

end Loop

end LinSocketIo.Core
