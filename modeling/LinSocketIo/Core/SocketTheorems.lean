/-
LinSocketIo.Core.SocketTheorems — when the registration of a socket mirrors
what was requested of it.

A socket keeps its own mask (`selevent`), which filters every request, and
the kernel keeps the interest set. `tracked` says that a request does not
come where the two are apart: `remove` takes the registration away and
leaves the mask, and the first registration always asks for `EPOLLIN`. Where
all requests are tracked the mask and the interest set stay in step
(`InStep`), and the interest set is the fold of the requests
(`registration_mirrors_requests`). A `Notifier` that is disconnected and
connected again is not (`reconnected_notifier_is_deaf`).
-/
import LinSocketIo.Base.Machine
import LinSocketIo.Core.Socket

namespace LinSocketIo.Core

open LinSocketIo.Base

namespace Socket

/-! ## Requests and what they ask for -/

/-- A call that changes the registration. -/
inductive Op where
  | select (remove add : Mask)
  | remove
  deriving DecidableEq, Repr

/-- A socket with a descriptor, and the calls on it. -/
def machine (connected : Bool) : Machine Socket Op where
  init := { Socket.new with valid := true, connected := connected }
  step s
    | .select remove add => (s.select remove add).toOption
    | .remove => some s.remove

end Socket

namespace Notifier

/-- `connect`, with a handler. -/
def connect : Socket.Op := .select 0 selRead

/-- `disconnect`. -/
def disconnect : Socket.Op := .remove

end Notifier

namespace Interest

/-- The events of a mask that a descriptor can be registered for. -/
def ofMask (m : Mask) : Interest := ⟨m &&& selRead != 0, m &&& selWrite != 0⟩

/-- A request of a registered descriptor. -/
def request (w : Interest) (remove add : Mask) : Interest where
  epollin := (w.epollin && !(ofMask remove).epollin) || (ofMask add).epollin
  epollout := (w.epollout && !(ofMask remove).epollout) || (ofMask add).epollout

/-- What is asked for after a call: `none` while nothing has been since the last `remove`. -/
def after : Option Interest → Socket.Op → Option Interest
  | _, .remove => none
  | none, .select _ add => if add = 0 then none else some (ofMask add)
  | some w, .select remove add => some (w.request remove add)

theorem and_not_zero (m : Mask) : m &&& ~~~0 = m := BitVec.and_allOnes

theorem ofMask_eq (m : Mask) : ofMask m = ⟨m.getLsbD 0, m.getLsbD 1⟩ := by
  have h : selRead = BitVec.twoPow 32 0 := by decide
  rw [ofMask, Socket.mask_and_selWrite, h, BitVec.and_twoPow]
  cases m.getLsbD 0 <;> rfl

/-- A mask that takes a request asks for what the request makes of it. -/
theorem ofMask_request (e remove add : Mask) :
    ofMask ((e &&& ~~~remove) ||| add) = (ofMask e).request remove add := by
  simp [ofMask_eq, request]

/-- The mask of a socket keeps the events that a descriptor can be registered for. -/
theorem ofMask_setWidth (m : Mask) : ofMask ((m.setWidth 8).setWidth 32) = ofMask m := by
  simp [ofMask_eq]

end Interest

namespace Socket

/-- The request does not come where the mask and the registration are apart: the descriptor is
registered, or the request asks for nothing, or the mask is empty and the request asks for
reading. -/
def tracked (s : Socket) : Op → Bool
  | .select remove add =>
    s.inSockets || (add = 0 && remove &&& s.events = 0) || (s.selevent = 0 && add &&& selRead != 0)
  | .remove => true

/-! ## The mask and the registration in step -/

/-- The registration is what is asked for, and the mask of a registered descriptor agrees. -/
structure InStep (s : Socket) (w : Option Interest) : Prop where
  valid : s.valid = true
  shutdownSend : s.shutdownSend = false
  shutdownRecv : s.shutdownRecv = false
  epoll : s.epoll = w
  inSockets : s.inSockets = w.isSome
  selected : s.selected = w.isSome
  mask : ∀ i, w = some i → Interest.ofMask s.events = i

/-- `remove` takes the registration away. -/
theorem inStep_remove {s : Socket} {w : Option Interest} (hs : InStep s w) :
    InStep s.remove none := by
  have hnone (i : Interest) (h : none = some i) : Interest.ofMask s.remove.events = i := by cases h
  have hgone : s.remove.epoll = none ∧ s.remove.inSockets = false ∧ s.remove.selected = false := by
    unfold Socket.remove
    split
    · exact ⟨rfl, rfl, rfl⟩
    · next hsel =>
      have hw : w = none := by
        rw [hs.selected, Bool.not_eq_true, Option.isSome_eq_false_iff, Option.isNone_iff_eq_none]
          at hsel
        exact hsel
      subst hw
      exact ⟨hs.epoll, hs.inSockets, hs.selected⟩
  exact ⟨s.remove_valid.trans hs.valid, s.remove_shutdownSend.trans hs.shutdownSend,
    s.remove_shutdownRecv.trans hs.shutdownRecv, hgone.1, hgone.2.1, hgone.2.2, hnone⟩

/-- A tracked request on a descriptor that is not registered. -/
theorem tracked_none {s : Socket} (hs : InStep s none) {remove add : Mask}
    (hop : s.tracked (.select remove add) = true) :
    (add = 0 ∧ remove &&& s.events = 0) ∨ (s.events = 0 ∧ (Interest.ofMask add).epollin = true) := by
  simp only [tracked, hs.inSockets, Option.isSome_none, Bool.false_or, Bool.or_eq_true,
    Bool.and_eq_true, decide_eq_true_eq] at hop
  exact hop.imp_right fun h => ⟨by rw [events, h.1]; rfl, h.2⟩

/-- A request that the filtering leaves nothing of. -/
theorem inStep_filtered {s : Socket} {w : Option Interest} (hs : InStep s w) {remove add : Mask}
    (hop : s.tracked (.select remove add) = true)
    (hnone : (remove &&& ~~~add &&& s.events) + (add &&& ~~~s.events) = selNone) :
    InStep s (Interest.after w (.select remove add)) := by
  cases w with
  | none =>
    have hadd : add = 0 := by
      rcases tracked_none hs hop with ⟨hadd, -⟩ | ⟨hzero, -⟩
      · exact hadd
      · have hall := (filtered_none hnone).2
        rwa [hzero, Interest.and_not_zero] at hall
    rw [Interest.after, if_pos hadd]
    exact hs
  | some i =>
    have hsame : i.request remove add = i := by
      rw [← hs.mask i rfl, ← Interest.ofMask_request, filtered_same hnone]
    rw [Interest.after, hsame]
    exact hs

/-- A request that reaches the selector. -/
theorem inStep_selected {s : Socket} {w : Option Interest} (hs : InStep s w) {remove add : Mask}
    (hop : s.tracked (.select remove add) = true)
    (hsome : (remove &&& ~~~add &&& s.events) + (add &&& ~~~s.events) ≠ selNone) :
    InStep { s.selectorSelect (remove &&& ~~~add &&& s.events) (add &&& ~~~s.events) with
      selevent := ((s.events &&& ~~~(remove &&& ~~~add &&& s.events)) |||
        (add &&& ~~~s.events)).setWidth 8
      selected := true } (Interest.after w (.select remove add)) := by
  have hmask : Interest.ofMask ((((s.events &&& ~~~(remove &&& ~~~add &&& s.events)) |||
      (add &&& ~~~s.events)).setWidth 8).setWidth 32) =
      (Interest.ofMask s.events).request remove add := by
    rw [filtered_events, Interest.ofMask_setWidth, Interest.ofMask_request]
  cases w with
  | none =>
    rcases tracked_none hs hop with ⟨hadd, hrem⟩ | ⟨hzero, hread⟩
    · refine absurd ?_ hsome
      rw [hadd, Interest.and_not_zero, hrem, show (0 : Mask) &&& ~~~s.events = 0 from
        BitVec.zero_and]
      rfl
    · -- the first registration, with an empty mask
      have hadd : add ≠ 0 := by
        rintro rfl
        cases hread
      have hfull : add &&& ~~~s.events = add := by rw [hzero, Interest.and_not_zero]
      have hreg : (⟨true, selWrite &&& add != 0⟩ : Interest) = Interest.ofMask add := by
        rw [BitVec.and_comm, ← hread]
        rfl
      rw [Interest.after, if_neg hadd]
      have hkeep : ((Interest.ofMask s.events).request remove add) = Interest.ofMask add := by
        rw [hzero]
        simp [Interest.request, Interest.ofMask_eq]
      unfold selectorSelect
      rw [hfull, if_neg (by rw [hs.inSockets]; exact Bool.false_ne_true), hs.epoll]
      exact ⟨hs.valid, hs.shutdownSend, hs.shutdownRecv, congrArg some hreg, rfl, rfl,
        fun i hi => by rw [← Option.some.inj hi, ← hkeep, ← hmask, hfull]; rfl⟩
  | some i =>
    have hnext : Interest.ofMask ((s.events &&& ~~~(remove &&& ~~~add &&& s.events)) |||
        (add &&& ~~~s.events)) = i.request remove add := by
      rw [filtered_events, Interest.ofMask_request, hs.mask i rfl]
    unfold selectorSelect
    rw [if_pos (by rw [hs.inSockets]; rfl), hs.epoll]
    exact ⟨hs.valid, hs.shutdownSend, hs.shutdownRecv, congrArg some hnext, hs.inSockets, rfl,
      fun j hj => by rw [← Option.some.inj hj, ← hs.mask i rfl]; exact hmask⟩

theorem inStep_step {s s' : Socket} {w : Option Interest} {op : Op} (hs : InStep s w)
    (hop : s.tracked op = true) {connected : Bool} (hstep : (machine connected).step s op = some s') :
    InStep s' (Interest.after w op) := by
  cases op with
  | remove =>
    obtain rfl := Option.some.inj hstep
    cases w <;> exact inStep_remove hs
  | select remove add =>
    simp only [machine, select, hs.valid, hs.shutdownSend, hs.shutdownRecv, Bool.not_true,
      Bool.false_eq_true, if_false] at hstep
    split at hstep
    · next hsome =>
      obtain rfl := Option.some.inj hstep
      exact inStep_selected hs hop hsome
    · next hnone =>
      obtain rfl := Option.some.inj hstep
      exact inStep_filtered hs hop (not_not.mp hnone)

/-- **The registration mirrors the requests**: along every run of requests that are tracked,
the interest set of the descriptor is the fold of the requests. -/
theorem registration_mirrors_requests (connected : Bool) (ops : List Op) {s : Socket}
    (hops : (machine connected).AllSteps (fun s op => s.tracked op = true)
      (machine connected).init ops)
    (hrun : (machine connected).run (machine connected).init ops = some s) :
    s.epoll = ops.foldl Interest.after none := by
  have hinit : InStep (machine connected).init none :=
    ⟨rfl, rfl, rfl, rfl, rfl, rfl, fun _ h => by cases h⟩
  obtain ⟨w, hfold, hs⟩ := (machine connected).run_simulates
    (A := fun w op w' => w' = Interest.after w op)
    (fun s w op s' hs hop hstep => ⟨_, rfl, inStep_step hs hop hstep⟩) ops hinit hops hrun
  rw [hs.epoll, (relRun_fun Interest.after ops none w).mp hfold]

/-- A descriptor that is registered for both events, written to, and removed. -/
theorem registration_mirrors_requests_run :
    ∃ s ∈ (machine true).run (machine true).init
      [.select 0 selRead, .select 0 selWrite, .select selRead 0, .select selWrite 0, .remove,
        .select 0 selRw],
      s.epoll = some ⟨true, true⟩ := by
  have hend : ∃ s ∈ (machine true).run (machine true).init
      [.select 0 selRead, .select 0 selWrite, .select selRead 0, .select selWrite 0, .remove,
        .select 0 selRw], s.selected = true := by
    decide
  obtain ⟨s, hs, -⟩ := hend
  exact ⟨s, hs, registration_mirrors_requests true _ (by decide) hs⟩

/-- A notifier that has been disconnected and connected again: its mask still has
`SEL_READ`, so the request for it is filtered, and the descriptor stays unregistered. -/
theorem reconnected_notifier_is_deaf :
    ∃ s ∈ (machine true).run (machine true).init
      [Notifier.connect, Notifier.disconnect, Notifier.connect],
      s.epoll = none ∧
        [Notifier.connect, Notifier.disconnect, Notifier.connect].foldl Interest.after none =
          some ⟨true, false⟩ := by
  decide

/-- The first registration asks for `EPOLLIN` as well. -/
example : ∃ s ∈ (machine true).run (machine true).init [.select 0 selWrite],
    s.epoll = some ⟨true, true⟩ := by
  decide

end Socket

end LinSocketIo.Core
