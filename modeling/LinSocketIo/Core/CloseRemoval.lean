/-
LinSocketIo.Core.CloseRemoval — what closing takes away: the socket's place
in the selector and the timer.

No place that notifies asks whether the connection is closed. What keeps a closed
connection silent is that `handleOnClose` and `handleOnInitiativeClose`
cancel its timer and call `Socket::remove`, which unregisters the descriptor
if the socket is marked `selected`. So a connection whose close has been told
gets no more events (`Settled.unclosed`), unless a call registers its socket
again or arms its timer.

* `Settled` — a connection whose close has been told is removed.
* `Settles` — the rules for a call on a connection that is `Unclosed`: it is
  `Settled` after it. They follow the calls of `Connection`.

Modelling notes. The kernel reports the events of a descriptor while it is in
the epoll instance, errors included, whatever its interest set is.
-/
import LinSocketIo.Core.CloseNotices

namespace LinSocketIo.Core

open LinSocketIo.Base LinSocketIo.Utils

namespace Socket

/-- `remove` unregisters a socket that is marked. -/
theorem remove_epoll {s : Socket} (hs : s.epoll.isSome = true → s.selected = true) :
    s.remove.epoll = none := by
  unfold remove
  split
  · rfl
  · next hselected => exact Option.not_isSome_iff_eq_none.mp fun h => hselected (hs h)

/-- `select` marks a socket that it registers. -/
theorem select_marked {s s' : Socket} (hs : s.epoll.isSome = true → s.selected = true)
    {remove add : Mask} (h : s.select remove add = .ok s') :
    s'.epoll.isSome = true → s'.selected = true := by
  have hite {p : Prop} [Decidable p] {t : Socket} (ht : t.selected = true)
      (h : (if p then .ok t else .ok s : Except String Socket) = .ok s') :
      s'.epoll.isSome = true → s'.selected = true := by
    split at h
    · obtain rfl := Except.ok.inj h
      exact fun _ => ht
    · obtain rfl := Except.ok.inj h
      exact hs
  unfold select at h
  split at h
  · cases h
  · exact hite (by rfl) h

end Socket

/-! ## Conditions on a callback -/

/-- The call does not register a removed socket again, as a `send` that blocks does. -/
def Act.leaves (blocks : SendCall → Bool) : Act → Bool
  | .close _ => true
  | .send s => !blocks s

/-- Once it has closed the connection, the handler makes no `send` that blocks. -/
def Act.releases (blocks : SendCall → Bool) : List Act → Bool
  | [] => true
  | .close _ :: as => as.all (Act.leaves blocks)
  | .send _ :: as => releases blocks as

/-- The callback closes the connection at most once, and it stays closed. -/
def Callback.closesWell (blocks : SendCall → Bool) (cb : Callback) (byEnd : Bool) : Bool :=
  cb.closesOnce byEnd && Act.releases blocks cb.acts

namespace Connection

variable {Out : Type}

/-- The callback of a heartbeat closes the connection at most once. If it closes it at all,
the timer is not armed again after that. -/
def timesOutOnce (c : Connection Out) (blocks : SendCall → Bool) (io : Io) : Bool :=
  c.side = .server || !c.receivedLately ||
    (io.handler.closesWell blocks false &&
      (io.handler.closes = 0 || io.handler.ends.isThrow || c.timeout < 0))

theorem timesOutOnce_iff {c : Connection Out} {blocks : SendCall → Bool} {io : Io} :
    c.timesOutOnce blocks io = true ↔
      (c.side = .client → c.receivedLately = true →
        io.handler.closesOnce false = true ∧ Act.releases blocks io.handler.acts = true ∧
          (io.handler.closes = 0 ∨ io.handler.ends.isThrow = true ∨ c.timeout < 0)) := by
  simp only [timesOutOnce, Callback.closesWell, Bool.or_eq_true, Bool.and_eq_true,
    decide_eq_true_eq, Bool.not_eq_true']
  cases hside : c.side <;> cases hlate : c.receivedLately <;> simp [and_assoc, or_assoc]

/-! ## Registered and removed -/

/-- The kernel reports the events of the descriptor to the selector. -/
def registered (c : Connection Out) : Bool := c.socket.epoll.isSome

/-- The selector and the timers have forgotten the connection. -/
structure Removed (c : Connection Out) : Prop where
  unregistered : c.registered = false
  untimed : c.timer = none

/-- The socket is marked `selected` while it is registered, so that `remove` acts on it. -/
def Marked (c : Connection Out) : Prop := c.registered = true → c.socket.selected = true

/-- A connection whose close has been told is removed. -/
structure Settled (c : Connection Out) : Prop where
  marked : Marked c
  removed : c.told = true → Removed c

/-- The handler has not been told that the connection is closed. -/
structure Unclosed (c : Connection Out) : Prop where
  marked : Marked c
  untold : c.told = false

variable {c : Connection Out}

theorem Unclosed.settled (hc : Unclosed c) : Settled c :=
  ⟨hc.marked, fun htold => by rw [hc.untold] at htold; cases htold⟩

/-- **A connection that is registered has not been closed.** -/
theorem Settled.unclosed (hc : Settled c) (hreg : c.registered = true) : Unclosed c := by
  refine ⟨hc.marked, Bool.eq_false_iff.mpr fun htold => ?_⟩
  rw [(hc.removed htold).unregistered] at hreg
  cases hreg

/-- **A connection that has a timer has not been closed.** -/
theorem Settled.unclosed_of_timer (hc : Settled c) (htimer : c.timer.isSome = true) :
    Unclosed c := by
  refine ⟨hc.marked, Bool.eq_false_iff.mpr fun htold => ?_⟩
  rw [(hc.removed htold).untimed] at htimer
  cases htimer

/-- What does not touch the socket, the timer and the notifications. -/
theorem Settled.rest (hc : Settled c) {c' : Connection Out} (hsocket : c'.socket = c.socket)
    (htimer : c'.timer = c.timer) (hnotices : c'.notices = c.notices) : Settled c' := by
  have htold : c'.told = c.told := by rw [told, hnotices, told]
  have hreg : c'.registered = c.registered := by rw [registered, hsocket, registered]
  refine ⟨fun h => ?_, fun h => ⟨?_, ?_⟩⟩
  · rw [hsocket]
    exact hc.marked (hreg ▸ h)
  · rw [hreg]
    exact (hc.removed (htold ▸ h)).unregistered
  · rw [htimer]
    exact (hc.removed (htold ▸ h)).untimed

theorem keeps_marked_select (remove add : Mask) :
    Keeps Marked (socketSelect remove add : ConnM Out Unit) := by
  intro c hc
  unfold wp EStateM.run socketSelect
  cases hs : c.socket.select remove add with
  | ok s => exact Socket.select_marked hc hs
  | error what => exact hc

theorem marked_outputInv : OutputInv (Marked : Connection Out → Prop) where
  disconnected _ hc := hc
  removed c hc := fun h => by
    unfold registered at h
    rw [Socket.remove_epoll hc] at h
    cases h
  rest _ _ _ _ _ _ _ _ _ hc := hc

theorem unclosed_outputFree : OutputFree (Unclosed : Connection Out → Prop) where
  select remove add c hc :=
    wp_mono (wp_and (keeps_marked_select remove add c hc.marked)
      ((quiet_socketSelect remove add).keeps_notices c.notices c rfl))
      (fun _ _ h => ⟨h.1, by rw [told, h.2]; exact hc.untold⟩)
      fun _ _ h => ⟨h.1, by rw [told, h.2]; exact hc.untold⟩
  output _ _ _ _ _ _ hc := ⟨hc.marked, hc.untold⟩
  sends _ _ hc := ⟨hc.marked, hc.untold⟩

/-- Closing removes the connection, also when the handler throws. -/
theorem handleClose_removed (n : Notice) (throws : Option Exc) (hc : Marked c) :
    wp (handleClose n throws) c (fun _ c' => Marked c' ∧ Removed c') (fun _ _ => False) := by
  have hremove : c.socket.remove.epoll = none := Socket.remove_epoll hc
  have hagain : c.socket.remove.remove.epoll = none := Socket.remove_epoll fun h => by
    rw [hremove] at h
    cases h
  have hremoved {c' : Connection Out} (hepoll : c'.socket.epoll = none) (htimer : c'.timer = none) :
      Marked c' ∧ Removed c' := by
    have hreg : c'.registered = false := by rw [registered, hepoll]; rfl
    refine ⟨fun h => ?_, hreg, htimer⟩
    rw [hreg] at h
    cases h
  cases throws with
  | none => exact hremoved hremove rfl
  | some e => exact hremoved hagain rfl

theorem handleClose_settles (n : Notice) (throws : Option Exc) (hc : Marked c) :
    wp (handleClose n throws) c (fun _ => Settled) (fun _ => Settled) :=
  wp_mono (handleClose_removed n throws hc) (fun _ _ h => ⟨h.1, fun _ => h.2⟩) fun _ _ h => h.elim

theorem keeps_settled_close (n : Notice) (throws : Option Exc) :
    Keeps Settled (handleClose n throws : ConnM Out Bool) := fun _ hc =>
  handleClose_settles n throws hc.marked

theorem keeps_settled_onInput {α : Type} (x : BufferM α) :
    Keeps Settled (onInput x : ConnM Out α) := by
  intro c hc
  rw [wp_onInput]
  exact wp_mono (Q := fun _ _ => True) (E := fun _ _ => True) (by unfold wp; split <;> trivial)
    (fun _ _ _ => hc.rest rfl rfl rfl) fun _ _ _ => hc.rest rfl rfl rfl

theorem keeps_unclosed_timeout (timeout : Int) :
    Keeps Unclosed (selectTimeout timeout : ConnM Out Unit) :=
  keeps_modify fun _ hc => ⟨hc.marked, hc.untold⟩

/-- A notification that is no close. -/
theorem keeps_unclosed_notify {n : Notice} (hn : n.isClose = false) :
    Keeps Unclosed (notify n : ConnM Out Unit) := by
  refine keeps_modify fun c hc => ⟨hc.marked, ?_⟩
  have hopen : c.notices.any Notice.isClose = false := hc.untold
  rw [told, List.any_append, hopen, List.any_cons, hn]
  rfl

/-- The `try` block of `onRead` closes nothing. -/
theorem receive_unclosed (io : Io) (hc : Unclosed c) :
    wp (receive io) c (fun _ c' => Unclosed c' ∧ io.recv.isError = false)
      (fun e c' => Unclosed c' ∧
        ∀ what, e = .buffer (.resourceLimit what) → c.inputFull = true) := by
  have hunclosed {c' : Connection Out} (hsame : c'.notices = c.notices) (hmarked : Marked c') :
      Unclosed c' := ⟨hmarked, by rw [told, hsame]; exact hc.untold⟩
  exact wp_mono (wp_and (receive_notes io c)
    (keeps_receive marked_outputInv.inputFree io c hc.marked))
    (fun _ _ h => ⟨hunclosed h.1.1 h.2, h.1.2⟩) fun _ _ h => ⟨hunclosed h.1.1 h.2, h.1.2⟩

/-- A timer is armed for a connection that is registered only. -/
theorem setKeepaliveTimeout_settled {msec : Int} (hc : Settled c)
    (h : (c.registered || decide (msec ≤ 0)) = true) :
    wp (setKeepaliveTimeout msec) c (fun _ => Settled) (fun _ => Settled) := by
  unfold setKeepaliveTimeout
  rw [wp_ite]
  refine ⟨fun hpos => ?_, fun _ => hc⟩
  have hneg : ¬decide (msec ≤ 0) = true := fun hle => Int.not_le.mpr hpos (of_decide_eq_true hle)
  have hunclosed := hc.unclosed ((Bool.or_eq_true_iff.mp h).resolve_right hneg)
  exact Unclosed.settled ⟨hunclosed.marked, hunclosed.untold⟩

/-! ## Rules -/

/-- On a connection that is not closed, the call leaves a connection that is removed if its
close has been told. -/
def Settles {α : Type} (x : ConnM Out α) : Prop :=
  ∀ c, Unclosed c → wp x c (fun _ => Settled) (fun _ => Settled)

section Rules

variable {α β : Type}

theorem Settles.of_unclosed {x : ConnM Out α} (hx : Keeps Unclosed x) : Settles x := fun c hc =>
  wp_mono (hx c hc) (fun _ _ h => h.settled) fun _ _ h => h.settled

/-- The connection is still open when `f` starts. -/
theorem Settles.after {x : ConnM Out α} {f : α → ConnM Out β} (hx : Keeps Unclosed x)
    (hf : ∀ a, Settles (f a)) : Settles (x >>= f) := by
  intro c hc
  rw [wp_bind]
  exact wp_mono (hx c hc) (fun a c' h => hf a c' h) fun _ _ h => h.settled

theorem Settles.bind {x : ConnM Out α} {f : α → ConnM Out β} (hx : Settles x)
    (hf : ∀ a, Keeps Settled (f a)) : Settles (x >>= f) := by
  intro c hc
  rw [wp_bind]
  exact wp_mono (hx c hc) (fun a c' h => hf a c' h) fun _ _ h => h

theorem settled_tryCatch {x : ConnM Out α} {h : Exc → ConnM Out α}
    (hx : wp x c (fun _ => Settled) (fun _ => Settled)) (hh : ∀ e, Keeps Settled (h e)) :
    wp (tryCatch x h) c (fun _ => Settled) (fun _ => Settled) := by
  rw [wp_tryCatch]
  exact wp_mono hx (fun _ _ ht => ht) fun e c' ht => hh e c' ht

theorem Settles.handle {x : ConnM Out α} {h : Exc → ConnM Out α} (hx : Settles x)
    (hh : ∀ e, Keeps Settled (h e)) : Settles (tryCatch x h) := fun c hc =>
  settled_tryCatch (hx c hc) hh

theorem Settles.ite {p : Prop} [Decidable p] {x y : ConnM Out α} (hx : Settles x)
    (hy : Settles y) : Settles (if p then x else y) := by
  split
  · exact hx
  · exact hy

theorem settles_close (n : Notice) (throws : Option Exc) (a : α) :
    Settles (do let _ ← handleClose n throws; pure a : ConnM Out α) :=
  .bind (fun _ hc => handleClose_settles n throws hc.marked) fun _ => keeps_pure a

end Rules

/-! ## The handler's calls -/

section Handler

variable {send : SendCall → ConnM Out Nat} {blocks : SendCall → Bool}
  (hsend : ∀ s, Keeps Unclosed (callSend send s))
  (hblocks : ∀ s, blocks s = false → Keeps Settled (callSend send s))

include hsend in
/-- The handler does not close the connection. -/
theorem keeps_unclosed_acts : ∀ as : List Act, as.countP Act.isClose = 0 →
    Keeps Unclosed (acts send as)
  | [], _ => keeps_pure ()
  | .close _ :: as, h => by
      rw [List.countP_cons_of_pos rfl] at h
      cases h
  | .send s :: as, h => by
      rw [List.countP_cons_of_neg Bool.false_ne_true] at h
      exact keeps_bind (hsend s) fun _ => keeps_unclosed_acts as h

include hblocks in
/-- The calls after a `close`. -/
theorem keeps_settled_acts : ∀ as : List Act, as.all (Act.leaves blocks) = true →
    Keeps Settled (acts send as)
  | [], _ => keeps_pure ()
  | .close throws :: as, h =>
      keeps_bind (keeps_bind (keeps_settled_close _ throws) fun _ => keeps_pure ()) fun _ =>
        keeps_settled_acts as (Bool.and_eq_true_iff.mp h).2
  | .send s :: as, h =>
      keeps_bind (hblocks s (Bool.not_eq_true' _ ▸ (Bool.and_eq_true_iff.mp h).1)) fun _ =>
        keeps_settled_acts as (Bool.and_eq_true_iff.mp h).2

include hsend hblocks

theorem acts_settle : ∀ as : List Act, Act.releases blocks as = true → Settles (acts send as)
  | [], _ => .of_unclosed (keeps_pure ())
  | .close throws :: as, h =>
      .bind (settles_close _ throws ()) fun _ => keeps_settled_acts hblocks as h
  | .send s :: as, h => .after (hsend s) fun _ => acts_settle as h

theorem callback_settles {cb : Callback} (h : Act.releases blocks cb.acts = true) :
    Settles (callback send cb) := by
  refine .bind (acts_settle hsend hblocks cb.acts h) fun _ => ?_
  cases cb.ends with
  | returns n => exact keeps_pure n
  | throws e => exact keeps_throw e

/-- A notification that is no close, and its callback. -/
theorem notify_settles {n : Notice} (hn : n.isClose = false) {cb : Callback}
    (h : Act.releases blocks cb.acts = true) {α : Type} {k : Int → ConnM Out α}
    (hk : ∀ r, Keeps Settled (k r)) : Settles (do notify n; let r ← callback send cb; k r) :=
  .after (keeps_unclosed_notify hn) fun _ => .bind (callback_settles hsend hblocks h) hk

theorem handleOnConnected_settles {cb : Callback} (h : Act.releases blocks cb.acts = true)
    (throws : Option Exc) : Settles (handleOnConnected send cb throws) :=
  .handle (notify_settles hsend hblocks rfl h fun _ => keeps_pure true) fun _ =>
    keeps_bind (keeps_settled_close _ throws) fun _ => keeps_pure false

theorem deliver_settles {io : Io} (h : Act.releases blocks io.handler.acts = true) :
    Settles (deliver send io) := by
  have hdata : Settles (handleOnData send io.handler) := by
    refine .handle (.after keeps_get fun c => ?_) fun _ => keeps_pure (-1)
    exact .after (keeps_unclosed_notify rfl) fun _ => callback_settles hsend hblocks h
  refine .bind hdata fun ret => keeps_ite ?_ ?_
  · exact keeps_bind (keeps_settled_onInput _) fun _ => keeps_pure ()
  · exact keeps_bind (keeps_settled_close _ _) fun _ => keeps_pure ()

/-- `onRead`, whose `catch` block goes on only after a full input buffer. -/
theorem read_settles {onReadCatch : Exc → ConnM Out Bool} {io : Io} (hc : Unclosed c)
    (hroom : c.inputFull = false)
    (hcb : io.recv.isError = true ∨ Act.releases blocks io.handler.acts = true)
    (hcatch : ∀ e c1, (∀ what, e ≠ .buffer (.resourceLimit what)) → Unclosed c1 →
      wp (onReadCatch e) c1 (fun goOn c2 => goOn = false ∧ Settled c2) (fun _ => Settled)) :
    wp (do
      modify fun c => { c with lastRecvTs := c.now }
      let goOn ← try
          receive io
          pure true
        catch e => onReadCatch e
      if goOn then deliver send io) c (fun _ => Settled) (fun _ => Settled) := by
  rw [wp_bind, wp_modify, wp_bind, wp_tryCatch, wp_bind]
  refine wp_mono (receive_unclosed (c := { c with lastRecvTs := c.now }) io ⟨hc.marked, hc.untold⟩)
    (fun _ c1 h1 => ?_) fun e c1 h1 => ?_
  · rw [wp_pure, if_pos rfl]
    exact deliver_settles hsend hblocks (hcb.resolve_left (Bool.eq_false_iff.mp h1.2)) c1 h1.1
  · obtain ⟨hunclosed, hfull⟩ := h1
    have hother (what : String) : e ≠ .buffer (.resourceLimit what) := fun he => by
      have hfull : c.inputFull = true := hfull what he
      rw [hroom] at hfull
      cases hfull
    refine wp_mono (hcatch e c1 hother hunclosed) (fun goOn c2 h2 => ?_) fun _ _ h2 => h2
    rw [h2.1, if_neg Bool.false_ne_true]
    exact h2.2

/-- `onWrite`, which notifies the handler if `flush` leaves nothing. -/
theorem onWrite_settles {flush : ConnM Out Bool} {io : Io}
    (hflush : wp flush c
      (fun b c' => Unclosed c' ∧ (b = true → Act.releases blocks io.handler.acts = true))
      (fun _ => Unclosed)) :
    wp (onWrite send flush io) c (fun _ => Settled) (fun _ => Settled) := by
  refine settled_tryCatch ?_ fun e => ?_
  · rw [wp_bind]
    refine wp_mono hflush (fun b c1 h1 => ?_) fun _ _ h1 => h1.settled
    rw [wp_ite]
    refine ⟨fun hb => ?_, fun _ => h1.1.settled⟩
    exact notify_settles hsend hblocks rfl (h1.2 hb) (fun _ => keeps_pure ()) c1 h1.1
  · cases e with
    | socketError what => exact keeps_bind (keeps_settled_close _ _) fun _ => keeps_pure ()
    | buffer stop => exact keeps_throw _
    | other what => exact keeps_throw _

omit hsend hblocks in
/-- The timeout of a server's connection. -/
theorem onTimeout_settles (io : Io) : Settles (onTimeout io : ConnM Out Unit) :=
  .after keeps_get fun _ => .ite
    (.ite (.of_unclosed (keeps_unclosed_timeout _)) (settles_close _ _ ()))
    (.of_unclosed (keeps_unclosed_timeout _))

/-- The timeout of a client, which arms the timer again after a heartbeat that returns. -/
theorem clientOnTimeout_settles {io : Io} (hc : Unclosed c)
    (h : c.receivedLately = true → Act.releases blocks io.handler.acts = true ∧
      (io.handler.closes = 0 ∨ io.handler.ends.isThrow = true ∨ c.timeout < 0)) :
    wp (clientOnTimeout send io) c (fun _ => Settled) (fun _ => Settled) := by
  unfold clientOnTimeout
  rw [wp_bind, wp_get, wp_ite]
  refine ⟨fun hlate => ?_, fun _ => settles_close _ _ () c hc⟩
  obtain ⟨hreleases, hcase⟩ := h hlate
  unfold heartbeat
  simp only [bind_assoc, pure_bind]
  rcases hcase with hnone | hthrow | hneg
  · -- the connection is still open when the timer is armed
    refine Settles.of_unclosed (keeps_bind (keeps_unclosed_notify rfl) fun _ => ?_) c hc
    refine keeps_bind (keeps_bind (keeps_unclosed_acts hsend _ hnone) fun _ => ?_) fun _ =>
      keeps_unclosed_timeout _
    cases io.handler.ends with
    | returns n => exact keeps_pure n
    | throws e => exact keeps_throw e
  · refine Settles.after (keeps_unclosed_notify rfl) (fun _ => ?_) c hc
    unfold callback
    simp only [bind_assoc]
    refine .bind (acts_settle hsend hblocks _ hreleases) fun _ => ?_
    cases hends : io.handler.ends with
    | returns n =>
      rw [hends] at hthrow
      cases hthrow
    | throws e => exact keeps_throw e
  · refine notify_settles hsend hblocks rfl hreleases (fun _ => ?_) c hc
    refine keeps_modify fun c1 h1 => ⟨h1.marked, fun htold => ⟨(h1.removed htold).unregistered, ?_⟩⟩
    exact if_pos hneg

end Handler

end Connection

end LinSocketIo.Core
