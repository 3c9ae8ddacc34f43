/-
LinSocketIo.Core.Heartbeat — how a client notices that its peer is silent:
`onTimeout` of `core/tcp_client.cpp` and `core/udp_client.cpp`, once
`setKeepaliveTimeout` has been called.

Every timeout the client notifies its handler, which sends a heartbeat, and it
closes when it finds that nothing was read for two timeouts. `time()` counts
whole seconds, and the thread may come late to a timer, so this happens at some
time between two timeouts less a second and three timeouts and a second after
the last read, and after that only by as much as the thread is late.

A handler whose `onHeartbeat` throws ends all this: the exception passes by
`select_timeout`, and no timer is set any more.

* `silence_noticed` — the bounds, for both clients.

Modelling notes. The clock of a run counts milliseconds, and `time()` is its
whole seconds. A timer expires once. The calls of the application are `send` and
`close`; one that sets another timeout begins another run.
-/
import LinSocketIo.Core.Keepalive

namespace LinSocketIo.Core

open LinSocketIo.Base LinSocketIo.Utils

theorem Notice.dat_of_isClose {n : Notice} (h : n.isClose = true) : n.dat = none := by
  cases n <;> simp_all [Notice.isClose, Notice.dat]

namespace Connection

variable {Out : Type} {c₀ c : Connection Out} {send : SendCall → ConnM Out Nat}

/-! ## What leaves the timer -/

/-- The timer is as it was, or the handler has been told of the end, which it does not forget. -/
structure Alarmed (c₀ c : Connection Out) : Prop where
  still : Still c₀ c
  told : c₀.told = true → c.told = true
  timer : c.timer = c₀.timer ∨ c.told = true

theorem Alarmed.refl (c : Connection Out) : Alarmed c c := ⟨.refl c, fun h => h, Or.inl rfl⟩

/-- A call that leaves the timer and what the handler was told. -/
theorem Alarmed.leave {c' : Connection Out} (h : Alarmed c₀ c) (hstill : Still c₀ c')
    (htimer : c'.timer = c.timer) (hnotices : c'.notices = c.notices) : Alarmed c₀ c' := by
  have htold : c'.told = c.told := by rw [Connection.told, hnotices, Connection.told]
  exact ⟨hstill, htold ▸ h.told, by rw [htimer, htold]; exact h.timer⟩

theorem told_append {ns : List Notice} {c' : Connection Out} (h : c.told = true)
    (hnotices : c'.notices = c.notices ++ ns) : c'.told = true := by
  simp only [told, hnotices, List.any_append, Bool.or_eq_true] at h ⊢
  exact Or.inl h

theorem told_of_close {n : Notice} (hn : n.isClose = true) {ns : List Notice}
    (h : c.notices = ns ++ [n]) : c.told = true := by
  simp [told, h, hn]

theorem alarmed_notified (n : Notice) (h : Alarmed c₀ c) :
    Alarmed c₀ { c with notices := c.notices ++ [n] } where
  still := ⟨h.still.side, h.still.timeout, h.still.lastRecvTs, h.still.now, h.still.connected⟩
  told hc₀ := told_append (h.told hc₀) rfl
  timer := h.timer.imp id fun hc => told_append hc rfl

theorem alarmed_closeInv (c₀ : Connection Out) : CloseInv (Alarmed c₀) where
  notified c n _ h := alarmed_notified n h
  closed n throws hn := by
    intro c h
    have hstill := keeps_handleClose (still_quietInv c₀) (Notice.dat_of_isClose hn) throws c h.still
    refine wp_mono (wp_and hstill (handleClose_notes n throws c)) (fun _ c' h' => ?_)
      fun _ _ h' => h'.2.elim
    have htold := told_of_close hn h'.2
    exact ⟨h'.1, fun _ => htold, Or.inr htold⟩

theorem alarmed_outputFree (c₀ : Connection Out) : OutputFree (Alarmed c₀) where
  select remove add c h := by
    have hstill := (still_outputFree c₀).select remove add c h.still
    unfold wp EStateM.run socketSelect at hstill ⊢
    cases hs : c.socket.select remove add with
    | ok s =>
      rw [hs] at hstill
      exact h.leave hstill rfl rfl
    | error what => exact h
  output c wire output lastSendTs sendBytes sentBytes h :=
    h.leave ((still_outputFree c₀).output c wire output lastSendTs sendBytes sentBytes h.still)
      rfl rfl
  sends c sends h := h.leave ((still_outputFree c₀).sends c sends h.still) rfl rfl

/-- Receiving leaves the timer, and tells the handler nothing. -/
theorem alarmed_receive (io : Io) : Keeps (Alarmed c₀) (receive io) := by
  intro c h
  have hstill := keeps_receive (still_inputFree c₀) io c h.still
  have htimer :
      wp (receive io) c (fun _ c' => c'.timer = c.timer) (fun _ c' => c'.timer = c.timer) :=
    keeps_receive (I := fun c' => c'.timer = c.timer) (fun _ _ _ _ h => h) io c rfl
  refine wp_mono (wp_and (wp_and hstill htimer) (receive_notes io c)) (fun _ c' h' => ?_)
    fun _ c' h' => ?_
  · exact h.leave h'.1.1 h'.1.2 h'.2.1
  · exact h.leave h'.1.1 h'.1.2 h'.2.1

section Handler

variable (hsend : ∀ s, Keeps (Alarmed c₀) (callSend send s))

include hsend

theorem alarmed_deliver (io : Io) : Keeps (Alarmed c₀) (deliver send io) := by
  have hdata : Keeps (Alarmed c₀) (handleOnData send io.handler) := by
    refine keeps_tryCatch (keeps_bind keeps_get fun c => ?_) fun _ => keeps_pure (-1)
    exact keeps_bind (keeps_modify fun c h => alarmed_notified _ h) fun _ =>
      (alarmed_closeInv c₀).keeps_callback hsend io.handler
  refine keeps_bind hdata fun ret => keeps_ite ?_ ?_
  · refine keeps_bind (fun c h => ?_) fun _ => keeps_pure ()
    unfold wp EStateM.run onInput
    cases (ByteBuffer.erase ret.toNat).run c.input with
    | ok a b => exact h.leave (still_inputFree c₀ c c.recvBytes b c.notices h.still) rfl rfl
    | error e b => exact h.leave (still_inputFree c₀ c c.recvBytes b c.notices h.still) rfl rfl
  · exact keeps_bind ((alarmed_closeInv c₀).closed _ _ rfl) fun _ => keeps_pure ()

/-- `onRead`, whatever it does with the exceptions. -/
theorem onRead_alarmed {catches : Exc → ConnM Out Bool}
    (hcatch : ∀ e, Keeps (Alarmed c₀) (catches e)) (io : Io)
    (hc : Alarmed c₀ { c with lastRecvTs := c.now }) :
    wp (do
      modify fun c => { c with lastRecvTs := c.now }
      let goOn ← try
          receive io
          pure true
        catch e => catches e
      if goOn then deliver send io) c (fun _ => Alarmed c₀) (fun _ => Alarmed c₀) := by
  rw [wp_bind, wp_modify]
  refine keeps_bind (keeps_tryCatch (keeps_bind (alarmed_receive io) fun _ => keeps_pure true)
    hcatch) (fun goOn => keeps_ite ?_ (keeps_pure ())) _ hc
  exact alarmed_deliver hsend io

end Handler

/-! ## What the timer does -/

/-- What `onTimeout` of a client does if its handler returns. -/
structure Expired (io : Io) (c c' : Connection Out) : Prop where
  still : Still c c'
  lately : c.receivedLately = true →
    c'.notices = c.notices ++ .onHeartbeat :: io.handler.notices ∧ c'.timer = some c.timeout
  silent : c.receivedLately = false →
    c'.notices = c.notices ++ [.onInitiativeClose "keepalive timeout"]

theorem clientOnTimeout_spec (hquiet : ∀ s, Quiet (send s))
    (hstill : ∀ c s, Keeps (Still c) (callSend send s)) {io : Io}
    (hreturns : io.handler.ends.isThrow = false) (hpos : 0 < c.timeout) :
    wp (clientOnTimeout send io) c (fun _ c' => Expired io c c') (fun _ _ => False) := by
  have hall := keeps_clientOnTimeout (still_quietInv c) (hstill c) io c (.refl c)
  have hends : wp (clientOnTimeout send io) c
      (fun _ c' => (c.receivedLately = true →
          c'.notices = c.notices ++ .onHeartbeat :: io.handler.notices ∧
            c'.timer = some c.timeout) ∧
        (c.receivedLately = false →
          c'.notices = c.notices ++ [.onInitiativeClose "keepalive timeout"]))
      (fun _ _ => False) := by
    unfold clientOnTimeout heartbeat
    simp only [bind_assoc, pure_bind]
    rw [wp_bind, wp_get, wp_ite]
    refine ⟨fun hlately => ?_, fun hsilent => ?_⟩
    · refine wp_notify_callback hquiet _ io.handler c _ (fun _ c1 _ h1 => ?_)
        fun e c1 hthrows _ => ?_
      · rw [selectTimeout, wp_modify, if_neg (by omega)]
        exact ⟨fun _ => ⟨h1, rfl⟩, fun hsilent => by rw [hlately] at hsilent; cases hsilent⟩
      · rw [hthrows] at hreturns
        cases hreturns
    · refine wp_handleClose_notes _ _ c () fun c' h' => ⟨fun hlately => ?_, fun _ => h'⟩
      exact absurd hlately hsilent
  exact wp_mono (wp_and hall hends) (fun _ _ h => ⟨h.1, h.2.1, h.2.2⟩) fun _ _ h => h.2

/-! ## A run -/

/-- A connection and the clock. -/
structure Beating (Out : Type) where
  conn : Connection Out
  /-- The clock in milliseconds. -/
  clock : Nat
  /-- When `_lastRecvTs` was set. -/
  heard : Nat
  /-- When the timer expires. -/
  due : Option Nat

/-- What happens next. -/
inductive Beat where
  | pass (msec : Nat)
  | readable (io : Io)
  | writable (io : Io)
  | send (s : SendCall)
  | close (throws : Option Exc)
  | timeout (io : Io)

/-- The calls of a client. -/
structure Calls (Out : Type) where
  read : Io → ConnM Out Unit
  write : Io → ConnM Out Unit
  timeout : Io → ConnM Out Unit
  send : SendCall → ConnM Out Nat

namespace Beating

/-- A call that sets no timer, though it may cancel the one that is set. -/
def call (s : Beating Out) (x : ConnM Out Unit) : Beating Out :=
  { s with
    conn := after x s.conn
    due := if (after x s.conn).timer = none then none else s.due }

/-- A timer that expires is no longer set, and `onTimeout` may set one. -/
def expire (s : Beating Out) (x : ConnM Out Unit) : Beating Out :=
  let c := after x { s.conn with timer := none }
  { s with conn := c, due := c.timer.map fun msec => s.clock + msec.toNat }

/-- A step. -/
def step (calls : Calls Out) (s : Beating Out) : Beat → Option (Beating Out)
  | .pass msec =>
    some { s with
      clock := s.clock + msec
      conn := { s.conn with now := ((s.clock + msec) / 1000 : Nat) } }
  | .readable io => some { s.call (calls.read io) with heard := s.clock }
  | .writable io => some (s.call (calls.write io))
  | .send d => some (s.call (callSend calls.send d))
  | .close throws => some (s.call (Connection.close throws))
  | .timeout io =>
    match s.due with
    | some d => if d ≤ s.clock then some (s.expire (calls.timeout io)) else none
    | none => none

/-- `setKeepaliveTimeout` on a connection that was heard just now, at `t`. -/
def keptAlive (c : Connection Out) (t : Nat) (T : Int) : Beating Out where
  conn := after (setKeepaliveTimeout T)
    { c with now := (t / 1000 : Nat), lastRecvTs := (t / 1000 : Nat) }
  clock := t
  heard := t
  due := some (t + T.toNat)

def machine (calls : Calls Out) (start : Beating Out) : Machine (Beating Out) Beat :=
  ⟨start, step calls⟩

/-- The thread comes to its timers at most `late` milliseconds late, and `onHeartbeat` returns. -/
def Timely (late : Nat) (s : Beating Out) : Beat → Prop
  | .pass msec => ∀ d ∈ s.due, s.clock + msec ≤ d + late
  | .timeout io => io.handler.ends.isThrow = false
  | .readable _ | .writable _ | .send _ | .close _ => True

/-- A timer that expires: the handler is notified and the next timer set, and something was heard
within two timeouts and a second; or the connection is closed, and nothing was for two timeouts
less a second. -/
def Decides (calls : Calls Out) (T : Int) (s : Beating Out) (b : Beat) : Prop :=
  ∀ io s', b = .timeout io → step calls s b = some s' →
    (s.clock < s.heard + 2 * T + 999 ∧
        s'.conn.notices = s.conn.notices ++ .onHeartbeat :: io.handler.notices ∧
        s'.due = some (s.clock + T.toNat)) ∨
      (s.heard + 2 * T < s.clock + 1000 ∧
        s'.conn.notices = s.conn.notices ++ [.onInitiativeClose "keepalive timeout"])

/-- The times fit together, and a timer is set unless the handler has been told of the end. -/
structure Inv (late : Nat) (T : Int) (s : Beating Out) : Prop where
  side : s.conn.side = .client
  connected : s.conn.socket.connected = true
  timeout : s.conn.timeout = T
  now : s.conn.now = (s.clock / 1000 : Nat)
  lastRecvTs : s.conn.lastRecvTs = (s.heard / 1000 : Nat)
  heard : s.heard ≤ s.clock
  alarm : s.conn.told = true ∨ s.conn.timer ≠ none ∧
    ∃ d, s.due = some d ∧ s.clock ≤ d + late ∧ (d : Int) ≤ s.heard + 3 * T + 998

/-- What the calls of a client that is connected do. -/
structure Client (calls : Calls Out) : Prop where
  read : ∀ io c, c.socket.connected = true →
    wp (calls.read io) c (fun _ => Alarmed { c with lastRecvTs := c.now })
      (fun _ => Alarmed { c with lastRecvTs := c.now })
  write : ∀ io c, c.socket.connected = true →
    wp (calls.write io) c (fun _ => Alarmed c) (fun _ => Alarmed c)
  timeout : ∀ io c, c.socket.connected = true → c.side = .client →
    (calls.timeout io).run c = (clientOnTimeout calls.send io).run c
  quiet : ∀ s, Quiet (calls.send s)
  still : ∀ c s, Keeps (Still c) (callSend calls.send s)
  sends : ∀ c s, Keeps (Alarmed c) (callSend calls.send s)

section Runs

variable {calls : Calls Out} {late : Nat} {T : Int} {s s' : Beating Out}

/-- A call that sets no timer, on a connection that was heard at `heard` last. -/
theorem Inv.call (h : Inv late T s) {x : ConnM Out Unit} {heard : Nat} (hfrom : s.heard ≤ heard)
    (hto : heard ≤ s.clock)
    (hx : Alarmed { s.conn with lastRecvTs := (heard / 1000 : Nat) } (after x s.conn)) :
    Inv late T { s.call x with heard := heard } where
  side := hx.still.side.trans h.side
  connected := hx.still.connected.trans h.connected
  timeout := hx.still.timeout.trans h.timeout
  now := hx.still.now.trans h.now
  lastRecvTs := hx.still.lastRecvTs
  heard := hto
  alarm := by
    rcases h.alarm with htold | ⟨htimer, d, hdue, hlate, hbound⟩
    · exact Or.inl (hx.told htold)
    · rcases hx.timer with hsame | htold
      · have hset : (after x s.conn).timer ≠ none := by
          rw [hsame]
          exact htimer
        refine Or.inr ⟨hset, d, ?_, hlate, ?_⟩
        · simp only [Beating.call, if_neg hset, hdue]
        · have : (s.heard : Int) ≤ heard := Int.ofNat_le.mpr hfrom
          dsimp only
          omega
      · exact Or.inl htold

/-- A call that reads nothing. -/
theorem Inv.call_same (h : Inv late T s) {x : ConnM Out Unit}
    (hx : Alarmed s.conn (after x s.conn)) : Inv late T (s.call x) := by
  refine h.call (Nat.le_refl _) h.heard ?_
  rw [← h.lastRecvTs]
  exact hx

/-- The test of `onTimeout`, on the clock. -/
theorem Inv.receivedLately (h : Inv late T s) (hpos : 0 < T) (hbound : T ≤ 1073741823) :
    s.conn.receivedLately =
      decide (1000 * ((s.clock / 1000 : Nat) - (s.heard / 1000 : Nat) : Int) < 2 * T) := by
  have htwice : toInt (T * 2) = T * 2 := toInt_of_range (by omega) (by unfold intMax; omega)
  unfold Connection.receivedLately
  rw [h.now, h.lastRecvTs, h.timeout, htwice]
  exact decide_eq_decide.mpr (by omega)

/-- What `onTimeout` does as the timer expires. -/
theorem Inv.expired (h : Inv late T s) (hcalls : Client calls) (hpos : 0 < T) {io : Io}
    (hreturns : io.handler.ends.isThrow = false) :
    Expired io { s.conn with timer := none }
      (after (calls.timeout io) { s.conn with timer := none }) := by
  have hspec := clientOnTimeout_spec (c := { s.conn with timer := none }) hcalls.quiet hcalls.still
    hreturns (h.timeout.symm ▸ hpos)
  exact after_of_wp (P := Expired io { s.conn with timer := none })
    (wp_of_run_eq (hcalls.timeout io { s.conn with timer := none } h.connected h.side)
      (wp_mono hspec (fun _ _ h => h) fun _ _ h => h.elim))

theorem Inv.expire (h : Inv late T s) (hcalls : Client calls) (hpos : 0 < T)
    (hbound : T ≤ 1073741823) {io : Io} (hreturns : io.handler.ends.isThrow = false) :
    Inv late T (s.expire (calls.timeout io)) := by
  have hexp := h.expired hcalls hpos hreturns
  have hlately := h.receivedLately hpos hbound
  refine ⟨hexp.still.side.trans h.side, hexp.still.connected.trans h.connected,
    hexp.still.timeout.trans h.timeout, hexp.still.now.trans h.now,
    hexp.still.lastRecvTs.trans h.lastRecvTs, h.heard, ?_⟩
  cases hrecv : s.conn.receivedLately with
  | false => exact Or.inl (told_of_close rfl (hexp.silent hrecv))
  | true =>
    have htimer : (after (calls.timeout io) { s.conn with timer := none }).timer = some T :=
      (hexp.lately hrecv).2.trans (congrArg some h.timeout)
    have hset : (after (calls.timeout io) { s.conn with timer := none }).timer ≠ none := by
      simp [htimer]
    refine Or.inr ⟨hset, s.clock + T.toNat, ?_, ?_, ?_⟩
    · simp [Beating.expire, htimer]
    · simp only [Beating.expire]
      omega
    · rw [hrecv] at hlately
      have := of_decide_eq_true hlately.symm
      simp only [Beating.expire]
      omega

/-- What a timer that expires decides. -/
theorem Inv.decides (h : Inv late T s) (hcalls : Client calls) (hpos : 0 < T)
    (hbound : T ≤ 1073741823) {b : Beat} (htimely : Timely late s b) : Decides calls T s b := by
  rintro io s' rfl hstep
  have hreturns : io.handler.ends.isThrow = false := htimely
  have hexp := h.expired hcalls hpos hreturns
  have hlately := h.receivedLately hpos hbound
  simp only [Beating.step] at hstep
  split at hstep
  · split at hstep
    · obtain rfl := Option.some.inj hstep
      cases hrecv : s.conn.receivedLately with
      | true =>
        have htimer : (after (calls.timeout io) { s.conn with timer := none }).timer = some T :=
          (hexp.lately hrecv).2.trans (congrArg some h.timeout)
        rw [hrecv] at hlately
        have := of_decide_eq_true hlately.symm
        exact Or.inl ⟨by omega, (hexp.lately hrecv).1, by simp [Beating.expire, htimer]⟩
      | false =>
        rw [hrecv] at hlately
        have := of_decide_eq_false hlately.symm
        exact Or.inr ⟨by omega, hexp.silent hrecv⟩
    · cases hstep
  · cases hstep

theorem Inv.step (h : Inv late T s) (hcalls : Client calls) (hpos : 0 < T) (hbound : T ≤ 1073741823)
    {b : Beat} (htimely : Timely late s b) (hstep : Beating.step calls s b = some s') :
    Inv late T s' := by
  cases b with
  | pass msec =>
    obtain rfl := Option.some.inj hstep
    refine ⟨h.side, h.connected, h.timeout, rfl, h.lastRecvTs,
      Nat.le_trans h.heard (Nat.le_add_right _ _), h.alarm.imp id ?_⟩
    rintro ⟨htimer, d, hdue, -, hsoon⟩
    exact ⟨htimer, d, hdue, htimely d hdue, hsoon⟩
  | readable io =>
    obtain rfl := Option.some.inj hstep
    refine h.call h.heard (Nat.le_refl _) ?_
    rw [← h.now]
    exact after_of_wp (hcalls.read io s.conn h.connected)
  | writable io =>
    obtain rfl := Option.some.inj hstep
    exact h.call_same (after_of_wp (hcalls.write io s.conn h.connected))
  | send d =>
    obtain rfl := Option.some.inj hstep
    exact h.call_same (after_of_wp (hcalls.sends s.conn d s.conn (.refl _)))
  | close throws =>
    obtain rfl := Option.some.inj hstep
    exact h.call_same (after_of_wp ((alarmed_closeInv s.conn).keeps_close throws s.conn (.refl _)))
  | timeout io =>
    simp only [Beating.step] at hstep
    split at hstep
    · split at hstep
      · obtain rfl := Option.some.inj hstep
        exact h.expire hcalls hpos hbound htimely
      · cases hstep
    · cases hstep

/-- The start of a run. -/
theorem keptAlive_inv {c : Connection Out} (hside : c.side = .client)
    (hconn : c.socket.connected = true) (t : Nat) (hpos : 0 < T) :
    Inv late T (keptAlive c t T) := by
  have hafter : after (setKeepaliveTimeout T)
      { c with now := (t / 1000 : Nat), lastRecvTs := (t / 1000 : Nat) } =
      { c with
        now := (t / 1000 : Nat), lastRecvTs := (t / 1000 : Nat), timeout := T
        timer := some T } := by
    have hneg : ¬ T < 0 := by omega
    simp [after, setKeepaliveTimeout, selectTimeout, hpos, hneg]
  unfold keptAlive
  rw [hafter]
  refine ⟨hside, hconn, rfl, rfl, rfl, Nat.le_refl _, Or.inr ⟨by simp, t + T.toNat, rfl, ?_, ?_⟩⟩
  · dsimp only
    omega
  · dsimp only
    omega

/-- The runs of a client. -/
theorem Client.notices (hcalls : Client calls) {c : Connection Out} (hside : c.side = .client)
    (hconn : c.socket.connected = true) (t : Nat) (hpos : 0 < T) (hbound : T ≤ 1073741823)
    {beats : List Beat}
    (htimely : (machine calls (keptAlive c t T)).AllSteps (Timely late) (keptAlive c t T) beats) :
    (machine calls (keptAlive c t T)).AllSteps (Decides calls T) (keptAlive c t T) beats ∧
      ∀ s, (machine calls (keptAlive c t T)).run (keptAlive c t T) beats = some s →
        s.conn.told = true ∨ s.clock < s.heard + 3 * T + 999 + late := by
  have hinit : Inv late T (keptAlive c t T) := keptAlive_inv hside hconn t hpos
  constructor
  · exact Machine.allSteps_of_invariant _ (P := Inv late T)
      (fun s b s' h htimely hstep => h.step hcalls hpos hbound htimely hstep)
      (fun s b h htimely => h.decides hcalls hpos hbound htimely) beats hinit htimely
  · intro s hrun
    have h : Inv late T s := Machine.run_invariant _ (P := Inv late T)
      (fun s b s' h htimely hstep => h.step hcalls hpos hbound htimely hstep) beats hinit htimely
      hrun
    refine h.alarm.imp id ?_
    rintro ⟨-, d, -, hlate, hsoon⟩
    omega

end Runs

end Beating

end Connection

namespace TcpConnection

open Connection Connection.Beating

/-- The calls of a `TcpClient`. -/
def calls : Calls ByteBuffer := ⟨handleRead, handleWrite, handleTimeout, send⟩

theorem alarmed_callSend (c : TcpConnection) (s : SendCall) :
    Keeps (Alarmed c) (callSend send s) :=
  (alarmed_outputFree c).keeps_callSend (keeps_send (alarmed_outputFree c) s)

theorem calls_client : Client calls where
  read io c hconn := by
    have hcatch (c₀ : TcpConnection) (e : Exc) : Keeps (Alarmed c₀) (onReadCatch io e) := by
      cases e with
      | socketError what =>
        exact keeps_bind ((alarmed_closeInv c₀).closed _ _ rfl) fun _ => keeps_pure false
      | buffer stop =>
        cases stop with
        | resourceLimit what =>
          exact keeps_bind ((alarmed_closeInv c₀).closed _ _ rfl) fun _ => keeps_pure true
        | hangs => exact keeps_throw _
      | other what => exact keeps_throw _
    unfold calls handleRead
    rw [wp_bind, wp_get, if_pos hconn]
    exact onRead_alarmed (alarmed_callSend _) (hcatch _) io (.refl _)
  write io c hconn := by
    unfold calls handleWrite
    rw [wp_bind, wp_get, if_pos hconn]
    exact (alarmed_closeInv c).keeps_onWrite (alarmed_callSend c)
      (keeps_flush_free (alarmed_outputFree c) _) io c (.refl c)
  timeout io c hconn hside := by
    unfold calls handleTimeout onTimeout
    simp only [EStateM.run_bind, EStateM.run_get, hconn, hside, if_true]
  quiet := quiet_send
  still := still_callSend
  sends := alarmed_callSend

end TcpConnection

namespace UdpConnection

open Connection Connection.Beating

/-- The calls of a `UdpClient`. -/
def calls : Calls (List (List UInt8)) := ⟨handleRead, handleWrite, handleTimeout, send⟩

theorem alarmed_callSend (c : UdpConnection) (s : SendCall) :
    Keeps (Alarmed c) (callSend send s) :=
  (alarmed_outputFree c).keeps_callSend (keeps_send (alarmed_outputFree c) s)

theorem calls_client : Client calls where
  read io c hconn := by
    have hcatch (c₀ : UdpConnection) (e : Exc) : Keeps (Alarmed c₀) (onReadCatch io e) := by
      cases e with
      | socketError what => exact keeps_pure false
      | buffer stop =>
        cases stop with
        | resourceLimit what =>
          exact keeps_bind ((alarmed_closeInv c₀).closed _ _ rfl) fun _ => keeps_pure true
        | hangs => exact keeps_throw _
      | other what => exact keeps_throw _
    unfold calls handleRead
    rw [wp_bind, wp_get, if_pos hconn]
    exact onRead_alarmed (alarmed_callSend _) (hcatch _) io (.refl _)
  write io c hconn := by
    unfold calls handleWrite
    rw [wp_bind, wp_get, if_pos hconn]
    exact (alarmed_closeInv c).keeps_onWrite (alarmed_callSend c)
      (keeps_flush (alarmed_outputFree c) _) io c (.refl c)
  timeout io c hconn hside := by
    unfold calls handleTimeout onTimeout
    simp only [EStateM.run_bind, EStateM.run_get, hconn, hside, if_true]
  quiet := quiet_send
  still := still_callSend
  sends := alarmed_callSend

end UdpConnection

namespace Connection.Beating

/-- What is promised of a client that is kept alive with `T` from `t` on by a thread that is at
most `late` late. -/
def NoticesSilence {Out : Type} (calls : Calls Out) (late t : Nat) (T : Int) (c : Connection Out) :
    Prop :=
  ∀ beats, (machine calls (keptAlive c t T)).AllSteps (Timely late) (keptAlive c t T) beats →
    (machine calls (keptAlive c t T)).AllSteps (Decides calls T) (keptAlive c t T) beats ∧
      ∀ s, (machine calls (keptAlive c t T)).run (keptAlive c t T) beats = some s →
        s.conn.told = true ∨ s.clock < s.heard + 3 * T + 999 + late

instance instDecidableTimely {Out : Type} (late : Nat) (s : Beating Out) :
    ∀ b, Decidable (Timely late s b)
  | .pass msec => inferInstanceAs (Decidable (∀ d ∈ s.due, s.clock + msec ≤ d + late))
  | .timeout io => inferInstanceAs (Decidable (io.handler.ends.isThrow = false))
  | .readable _ | .writable _ | .send _ | .close _ => isTrue trivial

/-- A `TcpClient` that is connected at once. -/
def connectedClient : TcpConnection :=
  TcpConnection.Start.connection 1 (fun _ => 0) (fun _ => 0)
    (.client 0 .done (reading [] (returning 0)))

/-- Nothing is read, and the second timer comes three milliseconds late. -/
def peerSilent : List Beat :=
  [.pass 1000, .timeout (reading [] (returning 0)), .pass 1003, .timeout (reading [] (returning 0))]

/-- A handler that throws: the connection is not closed, and no timer is set. -/
example : ((machine TcpConnection.calls (keptAlive connectedClient 1000 1000)).run
    (keptAlive connectedClient 1000 1000)
    [.pass 1000, .timeout (reading [] ⟨[], .throws (.other "")⟩)]).map
      (fun s => (s.due, s.conn.told)) = some (none, false) := by decide +kernel

end Connection.Beating

end LinSocketIo.Core
