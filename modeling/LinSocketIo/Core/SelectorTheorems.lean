/-
LinSocketIo.Core.SelectorTheorems — what the event loop delivers and when.

The loop is watched by two history variables. `noteArming` remembers the
clock and the timeout of the call that armed each handler; `noteRequest`
keeps a `TimerTable` of what the callers have asked for, in which an entry
stays until its handler is notified. The wheel inside the loop follows
`tableAfter`, and each history is related to that table: a handler is
either armed in the wheel or waiting in the batch, and the batch holds what
was due when the wheel clicked.

* `timers_not_early` — a handler whose armings are prompt is not notified
  more than one click early. Time that has passed since the clock was read
  is charged to what is armed meanwhile, so an arming that is not prompt can
  be early; `late_arming_is_early` is a run.
* `notified_as_requested` — a handler that is neither cancelled nor re-armed
  while it waits in the batch is notified for its last arming only.
  `cancelled_in_batch_is_notified` is a run that cancels one.
-/
import LinSocketIo.Core.Selector
import LinSocketIo.Core.CountdownTheorems

namespace LinSocketIo.Core.Loop

open LinSocketIo.Base

variable {H : Type}

/-! ## The wheel inside the loop -/

/-- The milliseconds that the next turn charges to the wheel. -/
def charge (l : Loop H) : Int := l.sel.elapsed + (l.clock / 1000000 - l.sel.tick)

/-- The event stays inside `int`. -/
def Fits (l : Loop H) : Event H → Prop
  | .selectTimeout _ t => t < 0 ∨ l.sel.countdown.ArmFits t
  | .enter => l.charge ≤ intMax ∧ l.sel.countdown.ClickFits l.charge
  | _ => True

instance (l : Loop H) (ev : Event H) : Decidable (l.Fits ev) :=
  match ev with
  | .selectTimeout _ _ => inferInstanceAs (Decidable (_ ∨ _ ≤ intMax))
  | .enter => inferInstanceAs (Decidable (_ ∧ ∀ j ≤ 12, _ ≤ intMax))
  | .pass _ | .mainloop | .timer | .wait | .socket _ | .leave | .closeTimeout _ | .stop =>
    isTrue trivial

/-- What holds of every loop between two events; the wheel is the table `tb`. -/
structure Inv [DecidableEq H] (l : Loop H) (tb : TimerTable H) (acc : Int) : Prop where
  agrees : l.sel.countdown.Agrees tb acc
  elapsed : 0 ≤ l.sel.elapsed ∧ l.sel.elapsed < timeClick
  tick : l.sel.tick * 1000000 ≤ l.clock
  batch : l.phase ≠ .timers → l.batch = []
  nodup : l.batch.Nodup
  removed : l.phase = .idle → ∀ s, l.sel.isRemoved s = false

variable [DecidableEq H]

/-- The table after an event. -/
def tableAfter (l : Loop H) (tb : TimerTable H) : Event H → TimerTable H
  | .selectTimeout s t => tb.select s t
  | .closeTimeout s => tb.select s (-1)
  | .enter => if l.charge < timeClick then tb else tb.click l.charge
  | _ => tb

theorem inv_init (clock : Int) : (machine (H := H) clock).init.Inv TimerTable.empty 0 where
  agrees := Countdown.agrees_new
  elapsed := by simp [machine, Selector.new, Selector.updateTime, timeClick]
  tick := by
    simp only [machine, Selector.new, Selector.updateTime]
    omega
  batch _ := rfl
  nodup := List.nodup_nil
  removed _ _ := rfl

/-- What the charged time is, when it fits. -/
theorem charge_spec {l : Loop H} {tb : TimerTable H} {acc : Int} (hi : l.Inv tb acc)
    (hfit : l.charge ≤ intMax) :
    0 ≤ l.charge ∧
      toInt (l.sel.elapsed + toInt (l.clock / 1000000 - l.sel.tick)) = l.charge := by
  obtain ⟨h0, -⟩ := hi.elapsed
  have htick := hi.tick
  unfold charge at hfit ⊢
  have hdiff : 0 ≤ l.clock / 1000000 - l.sel.tick := by omega
  rw [toInt_of_range (x := l.clock / 1000000 - l.sel.tick) (by omega) (by omega),
    toInt_of_range (by omega) hfit]
  omega

theorem tick_loopTimers (l : Loop H) :
    l.loopTimers.sel.tick = l.clock / 1000000 := by
  simp only [loopTimers, Selector.timoutRun]
  split <;> rfl

/-- A turn of the loop clicks the wheel when it has enough to charge, and the
batch is what was due. -/
theorem loopTimers_spec {l : Loop H} {tb : TimerTable H} {acc : Int} (hi : l.Inv tb acc)
    (hfit : l.Fits .enter) :
    (∃ acc', l.loopTimers.Inv (l.tableAfter tb .enter) acc') ∧
      (∀ s, s ∈ l.loopTimers.batch ↔ ¬ l.charge < timeClick ∧ tb.dueAt l.charge s) ∧
      l.loopTimers.sel.elapsed = (if l.charge < timeClick then l.charge else 0) := by
  obtain ⟨h0, hcharge⟩ := charge_spec hi hfit.1
  have hsel : l.loopTimers.sel =
      (({ l.sel with tick := l.clock / 1000000 } : Selector H).timoutRun
        (toInt (l.clock / 1000000 - l.sel.tick))).1 := rfl
  have hbatch : l.loopTimers.batch =
      (({ l.sel with tick := l.clock / 1000000 } : Selector H).timoutRun
        (toInt (l.clock / 1000000 - l.sel.tick))).2 := rfl
  simp only [Selector.timoutRun, hcharge] at hsel hbatch
  have htick := tick_loopTimers l
  have hidle : l.loopTimers.phase = .timers := rfl
  have hclock : l.loopTimers.clock = l.clock := rfl
  by_cases hlt : l.charge < timeClick
  · rw [if_pos hlt] at hsel hbatch
    refine ⟨⟨acc, ?_, ?_, ?_, ?_, ?_, ?_⟩, ?_, ?_⟩
    · simpa only [tableAfter, if_pos hlt, hsel] using hi.agrees
    · rw [hsel]; exact ⟨h0, hlt⟩
    · rw [htick, hclock]; omega
    · rw [hidle]; exact fun h => absurd rfl h
    · rw [hbatch]; exact List.nodup_nil
    · intro h; rw [hidle] at h; cases h
    · simp [hbatch, hlt]
    · rw [hsel, if_pos hlt]
  · rw [if_neg hlt] at hsel hbatch
    have hle : timeClick ≤ l.charge := by omega
    obtain ⟨hnodup, hmem⟩ := Countdown.clickElapse_result hi.agrees hle hfit.2
    refine ⟨⟨acc + l.charge, ?_, ?_, ?_, ?_, ?_, ?_⟩, ?_, ?_⟩
    · simpa only [tableAfter, if_neg hlt, hsel]
        using Countdown.clickElapse_agrees hi.agrees hle hfit.2
    · rw [hsel]; simp [timeClick]
    · rw [htick, hclock]; omega
    · rw [hidle]; exact fun h => absurd rfl h
    · rw [hbatch]; exact hnodup
    · intro h; rw [hidle] at h; cases h
    · intro s; rw [hbatch, hmem s]; simp [hlt]
    · rw [hsel, if_neg hlt]

/-- What an event does, and when it is possible. -/
def Effect (l l' : Loop H) : Event H → Prop
  | .pass ns => l' = { l with clock := l.clock + ns }
  | .mainloop => (l.phase = .idle ∧ l.sel.running = false) ∧
      l' = { l with sel := { l.sel with running := true } }
  | .enter => l.phase = .idle ∧ l' = l.loopTimers
  | .timer => l.phase = .timers ∧ ∃ s rest, l.batch = s :: rest ∧
      l' = { l with batch := rest, callback := !l.sel.isRemoved s }
  | .wait => (l.phase = .timers ∧ l.batch = []) ∧
      l' = { l with phase := .sockets, callback := false }
  | .socket s => l.phase = .sockets ∧ l' = { l with callback := !l.sel.isRemoved s }
  | .leave => l.phase = .sockets ∧
      l' = { l with phase := .idle, callback := false, sel := l.sel.clearRemoved }
  | .selectTimeout s t => l.canCall = true ∧ l' = { l with sel := l.sel.selectTimeout s t }
  | .closeTimeout s => l.canCall = true ∧ l' = { l with sel := l.sel.closeTimeout s }
  | .stop => l.canCall = true ∧ l' = { l with sel := { l.sel with running := false } }

theorem step_effect {l l' : Loop H} {ev : Event H} (hstep : l.step ev = some l') :
    l.Effect l' ev := by
  cases ev with
  | pass ns => exact (Option.some.inj hstep).symm
  | timer =>
      simp only [step] at hstep
      split at hstep
      · next s rest hp hb => exact ⟨hp, s, rest, hb, (Option.some.inj hstep).symm⟩
      · cases hstep
  | _ =>
      simp only [step, Option.ite_none_right_eq_some, Option.some.injEq] at hstep
      exact ⟨hstep.1, hstep.2.symm⟩

/-- Every event keeps the invariant, and the wheel follows the table. -/
theorem inv_step {l l' : Loop H} {tb : TimerTable H} {acc : Int} {ev : Event H}
    (hi : l.Inv tb acc) (hfit : l.Fits ev) (hstep : l.step ev = some l') :
    ∃ acc', l'.Inv (l.tableAfter tb ev) acc' := by
  have ⟨hagrees, helapsed, htick, hbatch, hnodup, hremoved⟩ := hi
  have heffect := step_effect hstep
  cases ev with
  | pass ns =>
      cases heffect
      exact ⟨acc, hagrees, helapsed, by simp only; omega, hbatch, hnodup, hremoved⟩
  | enter =>
      obtain ⟨-, rfl⟩ := heffect
      exact (loopTimers_spec hi hfit).1
  | timer =>
      obtain ⟨hp, s, rest, hb, rfl⟩ := heffect
      rw [hb] at hnodup
      exact ⟨acc, hagrees, helapsed, htick, fun h => absurd hp h,
        (List.nodup_cons.mp hnodup).2, hremoved⟩
  | wait =>
      obtain ⟨⟨-, hb⟩, rfl⟩ := heffect
      exact ⟨acc, hagrees, helapsed, htick, fun _ => hb, hnodup, fun h => by cases h⟩
  | leave =>
      obtain ⟨hp, rfl⟩ := heffect
      exact ⟨acc, hagrees, helapsed, htick, fun _ => hbatch (by rw [hp]; decide), hnodup,
        fun _ _ => rfl⟩
  | selectTimeout s t =>
      obtain ⟨-, rfl⟩ := heffect
      refine ⟨acc, ?_, helapsed, htick, hbatch, hnodup, hremoved⟩
      rcases Int.lt_or_le t 0 with ht | ht
      · exact Countdown.selectTimeout_cancel hagrees s ht
      · exact Countdown.selectTimeout_arm hagrees s ht (hfit.resolve_left (by omega))
  | closeTimeout s =>
      obtain ⟨hcall, rfl⟩ := heffect
      have hsel := Countdown.selectTimeout_cancel hagrees s (show (-1 : Int) < 0 by decide)
      refine ⟨acc, hsel, helapsed, htick, hbatch, hnodup, fun h s' => ?_⟩
      -- outside the loop the selector is not running, and records nothing
      have hidle : l.phase = .idle := h
      have hrun : l.sel.running = false := by simpa [canCall, hidle] using hcall
      simpa [Selector.closeTimeout, Selector.recordRemoved, Selector.selectTimeout,
        Selector.isRemoved, hrun] using hremoved hidle s'
  | mainloop | socket _ | stop =>
      obtain ⟨-, rfl⟩ := heffect
      exact ⟨acc, hagrees, helapsed, htick, hbatch, hnodup, hremoved⟩

/-! ## Deadlines on the clock -/

/-- A call that armed a handler: the clock when it was made, and its timeout. -/
structure Arming where
  clock : Int
  timeout : Int
  deriving DecidableEq, Repr

/-- Remember the arming of every handler until it is cancelled or its turn in
the batch comes. Arming a handler that waits in the batch re-arms it before its
last arming was delivered; such an arming is not remembered, so its own delivery,
in a later batch, is not looked at either. -/
def noteArming (l : Loop H) (ev : Event H) (_ : Loop H) (armed : H → Option Arming) :
    H → Option Arming :=
  match ev with
  | .selectTimeout s t =>
    Function.update armed s (if t < 0 ∨ s ∈ l.batch then none else some ⟨l.clock, t⟩)
  | .closeTimeout s => Function.update armed s none
  | .timer =>
    match l.batch with
    | s :: _ => Function.update armed s none
    | [] => armed
  | _ => armed

/-- The loop with the armings it has seen. -/
def armings (clock : Int) : Machine (Loop H × (H → Option Arming)) (Event H) :=
  (machine clock).watch (fun _ => none) noteArming

/-- If the event notifies `h`, then all but one click of its timeout has passed
since it was armed. -/
def NotEarly (h : H) (s : Loop H × (H → Option Arming)) (ev : Event H) : Prop :=
  s.1.delivers ev = some h → ∀ a ∈ s.2 h,
    (a.timeout - timeClick) * 1000000 ≤ s.1.clock - a.clock

/-- The event does not arm `h` late: with a timeout of more than a click, the
time that will be charged for what lies before the call is at most a click. -/
def ArmsInTime (l : Loop H) (h : H) : Event H → Prop
  | .selectTimeout s t => s = h → t ≤ timeClick ∨
      l.clock + l.sel.elapsed * 1000000 ≤ (l.sel.tick + timeClick) * 1000000
  | _ => True

instance (l : Loop H) (h : H) (ev : Event H) : Decidable (l.ArmsInTime h ev) :=
  match ev with
  | .selectTimeout _ _ => inferInstanceAs (Decidable (_ → _ ∨ _))
  | .pass _ | .mainloop | .enter | .timer | .wait | .socket _ | .leave | .closeTimeout _ | .stop =>
    isTrue trivial

instance (h : H) (s : Loop H × (H → Option Arming)) (ev : Event H) :
    Decidable (NotEarly h s ev) :=
  inferInstanceAs (Decidable (_ → ∀ a ∈ _, _ ≤ _))

/-- What an arming of `h` that has not been delivered says about the clock: of
one still in the table, that its entry is not ahead of the clock by more than a
click; of one in the batch, that its time has come. -/
structure ArmingInv (h : H) (l : Loop H) (tb : TimerTable H) (a : Arming) : Prop where
  past : a.clock ≤ l.clock
  armed : h ∉ l.batch → ∃ x, tb h = some x ∧ x.timeout = a.timeout ∧
    (a.timeout ≤ timeClick ∨
      a.clock ≤ (l.sel.tick - l.sel.elapsed - x.elapsed + timeClick) * 1000000)
  due : h ∈ l.batch → (a.timeout - timeClick) * 1000000 ≤ l.clock - a.clock

/-- Every event keeps what an arming says. -/
theorem arming_step {h : H} {l l' : Loop H} {tb : TimerTable H} {acc : Int} {ev : Event H}
    {armed : H → Option Arming} (hi : l.Inv tb acc) (hfit : l.Fits ev)
    (htime : l.ArmsInTime h ev) (hstep : l.step ev = some l')
    (ha : ∀ a, armed h = some a → ArmingInv h l tb a) :
    ∀ a, noteArming l ev l' armed h = some a → ArmingInv h l' (l.tableAfter tb ev) a := by
  intro a hnote
  have heffect := step_effect hstep
  cases ev with
  | pass ns =>
      cases heffect
      obtain ⟨hpast, harmed, hdue⟩ := ha a hnote
      exact ⟨by simp only; omega, harmed, fun hb => by have := hdue hb; simp only; omega⟩
  | enter =>
      obtain ⟨hidle, rfl⟩ := heffect
      obtain ⟨hpast, harmed, -⟩ := ha a hnote
      obtain ⟨-, hmem, hel⟩ := loopTimers_spec hi hfit
      have htick := tick_loopTimers l
      have hnil : l.batch = [] := hi.batch (by rw [hidle]; decide)
      obtain ⟨x, hx, hto, hahead⟩ := harmed (by simp [hnil])
      have hcharge : l.charge = l.sel.elapsed + (l.clock / 1000000 - l.sel.tick) := rfl
      refine ⟨hpast, fun hb => ?_, fun hb => ?_⟩
      · rw [hmem] at hb
        simp only [tableAfter]
        split
        · next hlt =>
            rw [if_pos hlt] at hel
            exact ⟨x, hx, hto, hahead.imp_right fun h => by rw [htick, hel]; omega⟩
        · next hlt =>
            rw [if_neg hlt] at hel
            have hstays : ¬ (x.add l.charge).isDue = true := fun hd => hb ⟨hlt, x, hx, hd⟩
            refine ⟨x.add l.charge, by simp [TimerTable.click, hx, hstays], hto,
              hahead.imp_right fun h => ?_⟩
            rw [htick, hel]
            simp only [TimerEntry.add]
            omega
      · obtain ⟨-, y, hy, hd⟩ := (hmem h).mp hb
        obtain rfl : x = y := Option.some.inj (hx.symm.trans hy)
        rw [TimerEntry.isDue_add_iff] at hd
        have hclock : l.loopTimers.clock = l.clock := rfl
        rw [hclock]
        rcases hahead with h5 | hahead <;> omega
  | timer =>
      obtain ⟨-, s, rest, hb, rfl⟩ := heffect
      simp only [noteArming, hb] at hnote
      have hne : h ≠ s := by
        rintro rfl
        simp at hnote
      rw [Function.update_of_ne hne] at hnote
      obtain ⟨hpast, harmed, hdue⟩ := ha a hnote
      rw [hb] at harmed hdue
      exact ⟨hpast, fun hn => harmed (by simp [hne, hn]), fun hn => hdue (by simp [hn])⟩
  | selectTimeout s t =>
      obtain ⟨-, rfl⟩ := heffect
      simp only [noteArming] at hnote
      by_cases hs : h = s
      · subst hs
        rw [Function.update_self] at hnote
        split at hnote
        · cases hnote
        · next hn =>
            obtain ⟨h0, hb⟩ := not_or.mp hn
            obtain rfl := (Option.some.inj hnote).symm
            refine ⟨Int.le_refl _, fun _ => ⟨⟨t, 0⟩, ?_, rfl, ?_⟩, fun h => absurd h hb⟩
            · simp only [tableAfter, TimerTable.select_same, if_neg h0]
            · refine (htime rfl).imp_right fun h => ?_
              simp only [Selector.selectTimeout]
              omega
      · rw [Function.update_of_ne hs] at hnote
        obtain ⟨hpast, harmed, hdue⟩ := ha a hnote
        refine ⟨hpast, fun hb => ?_, hdue⟩
        rw [tableAfter, TimerTable.select_other _ _ hs]
        exact harmed hb
  | closeTimeout s =>
      obtain ⟨-, rfl⟩ := heffect
      simp only [noteArming] at hnote
      have hs : h ≠ s := by
        rintro rfl
        simp at hnote
      rw [Function.update_of_ne hs] at hnote
      obtain ⟨hpast, harmed, hdue⟩ := ha a hnote
      refine ⟨hpast, fun hb => ?_, hdue⟩
      rw [tableAfter, TimerTable.select_other _ _ hs]
      exact harmed hb
  | mainloop | wait | socket _ | leave | stop =>
      obtain ⟨-, rfl⟩ := heffect
      obtain ⟨hpast, harmed, hdue⟩ := ha a hnote
      exact ⟨hpast, harmed, hdue⟩

/-- **Timers armed in time are not early.** In every run that stays inside `int`
and arms `h` in time, `h` is not notified before all but one click of its timeout
has passed on the clock since it was armed. -/
theorem timers_not_early (clock : Int) (h : H) (evs : List (Event H))
    (hc : (armings clock).AllSteps (fun s ev => s.1.Fits ev ∧ s.1.ArmsInTime h ev)
      (armings clock).init evs) :
    (armings clock).AllSteps (NotEarly h) (armings clock).init evs := by
  refine Machine.allSteps_of_invariant _
    (P := fun s => ∃ tb acc, s.1.Inv tb acc ∧ ∀ a, s.2 h = some a → ArmingInv h s.1 tb a)
    ?_ ?_ evs ⟨_, _, inv_init clock, by simp [armings, Machine.watch]⟩ hc
  · rintro ⟨l, armed⟩ ev s' ⟨tb, acc, hi, ha⟩ ⟨hfit, htime⟩ hstep
    obtain ⟨l', hl, rfl⟩ := (Machine.watch_step _).mp hstep
    obtain ⟨acc', hi'⟩ := inv_step hi hfit hl
    exact ⟨_, acc', hi', arming_step hi hfit htime hl ha⟩
  · rintro ⟨l, armed⟩ ev ⟨tb, acc, hi, ha⟩ - hd a harm
    cases ev with
    | timer =>
        obtain ⟨hb, -⟩ := Option.filter_eq_some_iff.mp hd
        exact (ha a harm).due (List.mem_of_mem_head? hb)
    | _ => cases hd

/-- A timer that the first callback arms and the next turn delivers. -/
theorem timers_not_early_run : (armings 0).AllSteps (NotEarly 1) (armings 0).init
    [.mainloop, .enter, .wait, .socket 7, .selectTimeout 1 40, .leave, .pass 40000000, .enter,
      .timer] :=
  timers_not_early 0 1 _ (by decide +kernel)

/-- A timer of 40 milliseconds, armed by a socket that is notified after a wait
of 50 milliseconds. The next turn charges it the wait, and notifies it at once. -/
theorem late_arming_is_early :
    ∃ s ∈ (armings 0).run (armings 0).init
        [.mainloop, .enter, .pass 50000000, .wait, .socket 7, .selectTimeout 1 40, .leave, .enter],
      ¬ NotEarly 1 s .timer := by
  decide +kernel

/-! ## Requests and the batch -/

/-- Keep what the callers have asked for: an entry ages when the wheel clicks
and goes when its handler is notified or cancelled. -/
def noteRequest (l : Loop H) (ev : Event H) (_ : Loop H) (requests : TimerTable H) :
    TimerTable H :=
  match ev with
  | .selectTimeout s t => requests.select s t
  | .closeTimeout s => requests.select s (-1)
  | .enter =>
    if l.charge < timeClick then requests else fun s => (requests s).map (·.add l.charge)
  | .timer =>
    match l.delivers .timer with
    | some s => Function.update requests s none
    | none => requests
  | _ => requests

/-- The loop with the requests made to it. -/
def requests (clock : Int) : Machine (Loop H × TimerTable H) (Event H) :=
  (machine clock).watch TimerTable.empty noteRequest

/-- If the event notifies `h`, then `h` is armed, and the timeout of its last
arming has elapsed. -/
def AsRequested (h : H) (s : Loop H × TimerTable H) (ev : Event H) : Prop :=
  s.1.delivers ev = some h → ∃ x ∈ s.2 h, x.isDue = true

/-- `h` is still to be notified from the batch. -/
def Waits (l : Loop H) (h : H) : Prop := h ∈ l.batch ∧ l.sel.isRemoved h = false

/-- The event is not a call on `h` while `h` waits in the batch, unless it makes
the batch skip `h`. -/
def LeavesBatch (l : Loop H) (h : H) : Event H → Prop
  | .selectTimeout s _ => s = h → ¬ l.Waits h
  | .closeTimeout s => s = h → ¬ l.Waits h ∨ l.sel.running = true
  | _ => True

instance (l : Loop H) (h : H) : Decidable (l.Waits h) :=
  inferInstanceAs (Decidable (_ ∧ _ = false))

instance (l : Loop H) (h : H) (ev : Event H) : Decidable (l.LeavesBatch h ev) :=
  match ev with
  | .selectTimeout _ _ => inferInstanceAs (Decidable (_ → ¬ _))
  | .closeTimeout _ => inferInstanceAs (Decidable (_ → ¬ _ ∨ _))
  | .pass _ | .mainloop | .enter | .timer | .wait | .socket _ | .leave | .stop => isTrue trivial

instance (h : H) (s : Loop H × TimerTable H) (ev : Event H) : Decidable (AsRequested h s ev) :=
  inferInstanceAs (Decidable (_ → ∃ x ∈ _, _ = true))

/-- What was asked for `h` is in the wheel, or `h` waits in the batch, its time
has come and the wheel holds nothing of it. -/
structure RequestInv (h : H) (l : Loop H) (tb req : TimerTable H) : Prop where
  armed : ¬ l.Waits h → req h = tb h
  due : l.Waits h → tb h = none ∧ ∃ x, req h = some x ∧ x.isDue = true

theorem isRemoved_closeTimeout (sel : Selector H) (s h : H) :
    (sel.closeTimeout s).isRemoved h
      = (sel.isRemoved h || (sel.running && decide (h = s))) := by
  simp only [Selector.isRemoved, Selector.closeTimeout, Selector.recordRemoved,
    Selector.selectTimeout]
  by_cases hrun : sel.running = true <;> by_cases hs : h = s <;> simp [hrun, hs]

omit [DecidableEq H] in
/-- What leaves the batch and the entries of `h` alone. -/
theorem RequestInv.congr {h : H} {l l' : Loop H} {tb req tb' req' : TimerTable H}
    (hr : RequestInv h l tb req) (hw : l'.Waits h ↔ l.Waits h) (htb : tb' h = tb h)
    (hreq : req' h = req h) : RequestInv h l' tb' req' := by
  refine ⟨fun h' => ?_, fun h' => ?_⟩
  · rw [htb, hreq]; exact hr.armed (mt hw.mpr h')
  · rw [htb, hreq]; exact hr.due (hw.mp h')

/-- A turn of the loop moves what is due from the wheel to the batch. -/
theorem request_loopTimers {h : H} {l : Loop H} {tb req : TimerTable H} {acc : Int}
    (hi : l.Inv tb acc) (hidle : l.phase = .idle) (hfit : l.Fits .enter)
    (hr : RequestInv h l tb req) :
    RequestInv h l.loopTimers (l.tableAfter tb .enter)
      (noteRequest l .enter l.loopTimers req) := by
  obtain ⟨-, hmem, -⟩ := loopTimers_spec hi hfit
  have hnil : l.batch = [] := hi.batch (by rw [hidle]; decide)
  have heq : req h = tb h := hr.armed (by simp [Waits, hnil])
  have hremoved : l.loopTimers.sel.isRemoved h = false := by
    have : l.loopTimers.sel.removed = l.sel.removed := by
      simp only [loopTimers, Selector.timoutRun]
      split <;> rfl
    rw [Selector.isRemoved, this]
    exact hi.removed hidle h
  have hwaits : l.loopTimers.Waits h ↔ ¬ l.charge < timeClick ∧ tb.dueAt l.charge h := by
    simp [Waits, hremoved, hmem]
  refine ⟨fun hw => ?_, fun hw => ?_⟩
  · rw [hwaits] at hw
    simp only [tableAfter, noteRequest]
    split
    · exact heq
    · next hlt =>
        cases hx : tb h with
        | none => simp [TimerTable.click, heq, hx]
        | some x =>
            have hstays : ¬ (x.add l.charge).isDue = true := fun hd => hw ⟨hlt, x, hx, hd⟩
            simp [TimerTable.click, heq, hx, hstays]
  · obtain ⟨hlt, x, hx, hd⟩ := hwaits.mp hw
    refine ⟨?_, x.add l.charge, ?_, hd⟩
    · simp [tableAfter, if_neg hlt, TimerTable.click, hx, hd]
    · simp [noteRequest, if_neg hlt, heq, hx]

/-- Every event keeps it. -/
theorem request_step {h : H} {l l' : Loop H} {tb req : TimerTable H} {acc : Int} {ev : Event H}
    (hi : l.Inv tb acc) (hfit : l.Fits ev) (hleaves : l.LeavesBatch h ev)
    (hstep : l.step ev = some l') (hr : RequestInv h l tb req) :
    RequestInv h l' (l.tableAfter tb ev) (noteRequest l ev l' req) := by
  have heffect := step_effect hstep
  cases ev with
  | enter =>
      obtain ⟨hidle, rfl⟩ := heffect
      exact request_loopTimers hi hidle hfit hr
  | timer =>
      obtain ⟨-, s, rest, hb, rfl⟩ := heffect
      have hnotin : s ∉ rest := (List.nodup_cons.mp (hb ▸ hi.nodup)).1
      have hdel : l.delivers .timer = if l.sel.isRemoved s then none else some s := by
        cases hrm : l.sel.isRemoved s <;> simp [delivers, hb, hrm]
      by_cases hs : h = s
      · subst hs
        have hafter : ¬ Waits { l with batch := rest, callback := !l.sel.isRemoved h } h :=
          fun hw => hnotin hw.1
        refine ⟨fun _ => ?_, fun hw => absurd hw hafter⟩
        simp only [noteRequest, tableAfter, hdel]
        by_cases hrm : l.sel.isRemoved h = true
        · rw [if_pos hrm]
          exact hr.armed (by simp [Waits, hrm])
        · rw [if_neg hrm]
          simp [(hr.due ⟨by simp [hb], by simpa using hrm⟩).1]
      · refine hr.congr (by simp [Waits, hb, hs]) rfl ?_
        simp only [noteRequest, hdel]
        split <;> simp_all [Function.update_of_ne]
  | leave =>
      obtain ⟨hp, rfl⟩ := heffect
      have hnil : l.batch = [] := hi.batch (by rw [hp]; decide)
      exact hr.congr (by simp [Waits, hnil]) rfl rfl
  | selectTimeout s t =>
      obtain ⟨-, rfl⟩ := heffect
      by_cases hs : h = s
      · subst hs
        exact ⟨fun _ => by simp only [noteRequest, tableAfter, TimerTable.select_same],
          fun hw => absurd hw (hleaves rfl)⟩
      · exact hr.congr Iff.rfl (TimerTable.select_other _ _ hs) (TimerTable.select_other _ _ hs)
  | closeTimeout s =>
      obtain ⟨-, rfl⟩ := heffect
      by_cases hs : h = s
      · subst hs
        refine ⟨fun _ => by simp only [noteRequest, tableAfter, TimerTable.select_same],
          fun hw => ?_⟩
        -- a running selector records `h`, and the batch skips it
        simp only [Waits, isRemoved_closeTimeout, Bool.or_eq_false_iff] at hw
        rcases hleaves rfl with hout | hrun
        · exact absurd ⟨hw.1, hw.2.1⟩ hout
        · simp [hrun] at hw
      · refine hr.congr ?_ (TimerTable.select_other _ _ hs) (TimerTable.select_other _ _ hs)
        simp [Waits, isRemoved_closeTimeout, hs]
  | pass _ =>
      cases heffect
      exact hr.congr Iff.rfl rfl rfl
  | mainloop | wait | socket _ | stop =>
      obtain ⟨-, rfl⟩ := heffect
      exact hr.congr Iff.rfl rfl rfl

/-- **A timer is notified as requested.** In every run that stays inside `int`
and makes no call on `h` while `h` waits in the batch, whenever `h` is notified it
is armed and the timeout of its last arming has elapsed. -/
theorem notified_as_requested (clock : Int) (h : H) (evs : List (Event H))
    (hc : (requests clock).AllSteps (fun s ev => s.1.Fits ev ∧ s.1.LeavesBatch h ev)
      (requests clock).init evs) :
    (requests clock).AllSteps (AsRequested h) (requests clock).init evs := by
  refine Machine.allSteps_of_invariant _
    (P := fun s => ∃ tb acc, s.1.Inv tb acc ∧ RequestInv h s.1 tb s.2)
    ?_ ?_ evs ⟨_, _, inv_init clock, fun _ => rfl, fun hw => ?_⟩ hc
  · rintro ⟨l, req⟩ ev s' ⟨tb, acc, hi, hr⟩ ⟨hfit, hleaves⟩ hstep
    obtain ⟨l', hl, rfl⟩ := (Machine.watch_step _).mp hstep
    obtain ⟨acc', hi'⟩ := inv_step hi hfit hl
    exact ⟨_, acc', hi', request_step hi hfit hleaves hl hr⟩
  · rintro ⟨l, req⟩ ev ⟨tb, acc, hi, hr⟩ - hd
    cases ev with
    | timer =>
        obtain ⟨hb, hrm⟩ := Option.filter_eq_some_iff.mp hd
        exact (hr.due ⟨List.mem_of_mem_head? hb, by simpa using hrm⟩).2
    | _ => cases hd
  · exact absurd hw.1 (by simp [requests, Machine.watch, machine])

/-- Two timers come due at once; the first callback cancels a third one. -/
theorem notified_as_requested_run : (requests 0).AllSteps (AsRequested 2) (requests 0).init
    [.selectTimeout 1 20, .selectTimeout 2 20, .selectTimeout 3 90, .mainloop, .pass 20000000,
      .enter, .timer, .selectTimeout 3 (-1), .timer] :=
  notified_as_requested 0 2 _ (by decide +kernel)

/-- Two timers come due at once; the first callback cancels the second timer,
which is notified all the same. -/
theorem cancelled_in_batch_is_notified :
    ∃ s ∈ (requests 0).run (requests 0).init
        [.selectTimeout 1 20, .selectTimeout 2 20, .mainloop, .pass 20000000, .enter, .timer,
          .selectTimeout 2 (-1)],
      ¬ AsRequested 2 s .timer := by
  decide +kernel

end LinSocketIo.Core.Loop
