/-
LinSocketIo.Core.Keepalive — when the receive timeout of an accepted connection
closes it.

`onTimeout` measures how long nothing was received with `time()`, which counts
whole seconds, and compares that with a timeout in milliseconds. A read just
before a second ends looks a whole second old when the next one begins, so a
connection is closed although data was read within the timeout: at a clock that
has begun as many seconds since the read as the timeout is long.

Modelling notes. The clock of a run counts milliseconds, and `time()` is its
whole seconds. The reads are those of the connection's own socket; what the
manager hands to a UDP connection was read by the listener.

* `keepalive_iff` — the runs in which no active connection is closed.
-/
import LinSocketIo.Core.Delivery

namespace LinSocketIo.Core

open LinSocketIo.Base LinSocketIo.Utils

/-- A request does not change whether the socket is connected. -/
theorem Socket.select_connected {s s' : Socket} {remove add : Mask}
    (h : s.select remove add = .ok s') : s'.connected = s.connected := by
  unfold Socket.select at h
  split at h
  · cases h
  · dsimp only at h
    split_ifs at h <;> cases h <;> simp only [Socket.selectorSelect_connected]

namespace Connection

variable {Out : Type}

/-! ## What the timeout is about -/

/-- The fields that `onTimeout` and `handle` look at are the same. -/
structure Still (c c' : Connection Out) : Prop where
  side : c'.side = c.side
  timeout : c'.timeout = c.timeout
  lastRecvTs : c'.lastRecvTs = c.lastRecvTs
  now : c'.now = c.now
  connected : c'.socket.connected = c.socket.connected

theorem Still.refl (c : Connection Out) : Still c c := ⟨rfl, rfl, rfl, rfl, rfl⟩

theorem still_quietInv (c : Connection Out) : QuietInv (Still c) where
  disconnected _ h := ⟨h.side, h.timeout, h.lastRecvTs, h.now, h.connected⟩
  removed c' h := ⟨h.side, h.timeout, h.lastRecvTs, h.now,
    (Socket.remove_connected c'.socket).trans h.connected⟩
  timer _ _ _ h := ⟨h.side, h.timeout, h.lastRecvTs, h.now, h.connected⟩
  notified _ _ _ h := ⟨h.side, h.timeout, h.lastRecvTs, h.now, h.connected⟩

theorem still_inputFree (c : Connection Out) : InputFree (Still c) :=
  fun _ _ _ _ h => ⟨h.side, h.timeout, h.lastRecvTs, h.now, h.connected⟩

theorem still_outputFree (c : Connection Out) : OutputFree (Still c) where
  select remove add c' h := by
    unfold wp EStateM.run socketSelect
    cases hs : c'.socket.select remove add with
    | ok s =>
        exact ⟨h.side, h.timeout, h.lastRecvTs, h.now,
          (Socket.select_connected hs).trans h.connected⟩
    | error what => exact h
  output _ _ _ _ _ _ h := ⟨h.side, h.timeout, h.lastRecvTs, h.now, h.connected⟩
  sends _ _ h := ⟨h.side, h.timeout, h.lastRecvTs, h.now, h.connected⟩

/-- `onTimeout` of an accepted connection: it waits for the rest of the time or closes. -/
theorem onTimeout_spec {c : Connection Out} (hpos : 0 < c.timeout) (io : Io) :
    wp (onTimeout io) c
      (fun _ c' => Still c c' ∧
        if 0 < c.timeLeft then c'.notices = c.notices ∧ c'.timer = some c.timeLeft
        else c'.notices = c.notices ++ [.onInitiativeClose "recv timeout"])
      (fun _ _ => False) := by
  unfold onTimeout
  simp only [wp_bind, wp_get, wp_ite, wp_pure]
  refine ⟨fun _ => ⟨fun hleft => ?_, fun hnone => ?_⟩, fun hnot => absurd hpos hnot⟩
  · rw [selectTimeout, wp_modify, if_pos hleft]
    refine ⟨⟨rfl, rfl, rfl, rfl, rfl⟩, rfl, ?_⟩
    rw [if_neg (by omega)]
  · have hnone : ¬ 0 < c.timeLeft := hnone
    simp only [if_neg hnone]
    have hnotices : wp (handleOnInitiativeClose "recv timeout" io.onInitiativeCloseThrows) c
        (fun _ c' => c'.notices = c.notices ++ [.onInitiativeClose "recv timeout"])
        (fun _ _ => False) := by
      cases io.onInitiativeCloseThrows with
      | none => rfl
      | some e => rfl
    exact wp_mono (wp_and (keeps_handleClose (still_quietInv c) rfl _ c (.refl c)) hnotices)
      (fun _ _ h => h) fun _ _ h => h.2

/-! ## A run -/

/-- A connection, the clock, and what a run has read. -/
structure Live (Out : Type) where
  conn : Connection Out
  /-- The clock in milliseconds. -/
  clock : Nat
  /-- When `_lastRecvTs` was set. -/
  heard : Nat
  /-- When data was read last. -/
  readAt : Option Nat

/-- Time passes, the socket becomes readable, or the timer expires. -/
inductive Tick where
  | pass (msec : Nat)
  | readable (io : Io)
  | timeout (io : Io)

/-- `recv` gives data. -/
def gotData (c : Connection Out) (io : Io) : Bool := (c.arrived io).any fun dat => !dat.isEmpty

/-- A connection under `handle`, for `SEL_READ` and for `SEL_TIMEOUT`. -/
def live (handleRead handleTimeout : Io → ConnM Out Unit) (start : Live Out) :
    Machine (Live Out) Tick where
  init := start
  step s
    | .pass msec =>
      some { s with
        clock := s.clock + msec
        conn := { s.conn with now := ((s.clock + msec) / 1000 : Nat) } }
    | .readable io =>
      some { s with
        conn := after (handleRead io) s.conn
        heard := s.clock
        readAt := if gotData s.conn io then some s.clock else s.readAt }
    | .timeout io => some { s with conn := after (handleTimeout io) s.conn }

/-- A timer that expires closes the connection only if no data was read during the timeout, and
waits for a positive time otherwise. -/
def Spares (m : Machine (Live Out) Tick) (s : Live Out) (tick : Tick) : Prop :=
  ∀ io s', tick = .timeout io → m.step s tick = some s' →
    (s'.conn.notices = s.conn.notices ++ [.onInitiativeClose "recv timeout"] ∧
        ∀ r ∈ s.readAt, r + s.conn.timeout ≤ s.clock) ∨
      (s'.conn.notices = s.conn.notices ∧ ∃ d ∈ s'.conn.timer, 0 < d)

/-- If a timer expires within the timeout after a read, the seconds that the clock has begun
since the last call of `onRead` are fewer than the timeout. -/
def InTime (s : Live Out) : Tick → Prop
  | .timeout _ => ∀ r ∈ s.readAt, s.clock < r + s.conn.timeout →
      1000 * (s.clock / 1000 - s.heard / 1000 : Nat) < s.conn.timeout
  | .pass _ | .readable _ => True

/-- The times of a run fit together. -/
structure Timed (T : Int) (s : Live Out) : Prop where
  side : s.conn.side = .server
  connected : s.conn.socket.connected = true
  timeout : s.conn.timeout = T
  now : s.conn.now = (s.clock / 1000 : Nat)
  lastRecvTs : s.conn.lastRecvTs = (s.heard / 1000 : Nat)
  heard : s.heard ≤ s.clock
  read : ∀ r ∈ s.readAt, r ≤ s.heard

/-- Within the timeout after a read nothing leaves `int`, though the product with 1000 may on
the way. -/
theorem Timed.timeLeft {T : Int} {s : Live Out} (hs : Timed T s) (hint : T ≤ 2147483647) {r : Nat}
    (hr : r ∈ s.readAt) (hrecent : s.clock < r + T) :
    s.conn.timeLeft = T - 1000 * (s.clock / 1000 - s.heard / 1000 : Nat) := by
  have hread := hs.read r hr
  have hheard := hs.heard
  have hsince : s.conn.now - s.conn.lastRecvTs = (s.clock / 1000 - s.heard / 1000 : Nat) := by
    rw [hs.now, hs.lastRecvTs]
    omega
  generalize hD : s.clock / 1000 - s.heard / 1000 = D at hsince ⊢
  rw [Connection.timeLeft, hs.timeout, hsince, toInt_sub_toInt,
    toInt_of_range (x := (D : Int)) (by omega) (by unfold intMax; omega),
    toInt_of_range (by omega) (by unfold intMax; omega)]
  omega

/-- The two calls of `handle` for a connected socket: reading sets `_lastRecvTs` and leaves the
rest of these fields, and the timeout of an accepted connection is `onTimeout`. -/
structure Handles (handleRead handleTimeout : Io → ConnM Out Unit) : Prop where
  read : ∀ io c, c.socket.connected = true →
    wp (handleRead io) c (fun _ => Still { c with lastRecvTs := c.now })
      (fun _ => Still { c with lastRecvTs := c.now })
  timeout : ∀ io c, c.socket.connected = true → c.side = .server →
    (handleTimeout io).run c = (onTimeout io).run c

/-- `onRead`, whatever it does with the exceptions. -/
theorem onRead_still {send : SendCall → ConnM Out Nat} {handle : Exc → ConnM Out Bool}
    (hsend : ∀ c s, Keeps (Still c) (callSend send s)) (hcatch : ∀ c e, Keeps (Still c) (handle e))
    (c : Connection Out) (io : Io) :
    wp (do
      modify fun c => { c with lastRecvTs := c.now }
      let goOn ← try
          receive io
          pure true
        catch e => handle e
      if goOn then deliver send io) c
      (fun _ => Still { c with lastRecvTs := c.now })
      (fun _ => Still { c with lastRecvTs := c.now }) := by
  rw [wp_bind, wp_modify]
  refine keeps_bind (keeps_tryCatch (keeps_bind ?_ fun _ => keeps_pure true) (hcatch _))
    (fun _ => keeps_ite ?_ (keeps_pure ())) _ (.refl _)
  · exact keeps_receive (still_inputFree _) io
  · exact keeps_deliver (still_inputFree _) (still_quietInv _) (hsend _) io

section

variable {handleRead handleTimeout : Io → ConnM Out Unit} {T : Int} {start s s' : Live Out}
  {tick : Tick}

/-- What a timer that expires does. -/
theorem Handles.expires (h : Handles handleRead handleTimeout) (hpos : 0 < T) (hs : Timed T s)
    (io : Io) :
    Still s.conn (after (handleTimeout io) s.conn) ∧
      if 0 < s.conn.timeLeft then
        (after (handleTimeout io) s.conn).notices = s.conn.notices ∧
          (after (handleTimeout io) s.conn).timer = some s.conn.timeLeft
      else
        (after (handleTimeout io) s.conn).notices =
          s.conn.notices ++ [.onInitiativeClose "recv timeout"] := by
  have hspec := wp_of_run_eq (h.timeout io s.conn hs.connected hs.side)
    (onTimeout_spec (hs.timeout.symm ▸ hpos) io)
  exact after_of_wp (P := fun c' => Still s.conn c' ∧
    if 0 < s.conn.timeLeft then c'.notices = s.conn.notices ∧ c'.timer = some s.conn.timeLeft
    else c'.notices = s.conn.notices ++ [.onInitiativeClose "recv timeout"])
    (wp_mono hspec (fun _ _ h => h) fun _ _ h => h.elim)

theorem Handles.timed_step (h : Handles handleRead handleTimeout) (hpos : 0 < T) (hs : Timed T s)
    (hstep : (live handleRead handleTimeout start).step s tick = some s') : Timed T s' := by
  cases tick with
  | pass msec =>
      obtain rfl := Option.some.inj hstep
      exact ⟨hs.side, hs.connected, hs.timeout, rfl, hs.lastRecvTs,
        Nat.le_trans hs.heard (Nat.le_add_right _ _), hs.read⟩
  | readable io =>
      obtain rfl := Option.some.inj hstep
      have hstill := after_of_wp (h.read io s.conn hs.connected)
      refine ⟨hstill.side.trans hs.side, hstill.connected.trans hs.connected,
        hstill.timeout.trans hs.timeout, hstill.now.trans hs.now, hstill.lastRecvTs.trans hs.now,
        Nat.le_refl _, fun r hr => ?_⟩
      simp only at hr
      split at hr
      · exact Nat.le_of_eq (Option.mem_some_iff.mp hr).symm
      · exact Nat.le_trans (hs.read r hr) hs.heard
  | timeout io =>
      obtain rfl := Option.some.inj hstep
      have hstill := (h.expires hpos hs io).1
      exact ⟨hstill.side.trans hs.side, hstill.connected.trans hs.connected,
        hstill.timeout.trans hs.timeout, hstill.now.trans hs.now,
        hstill.lastRecvTs.trans hs.lastRecvTs, hs.heard, hs.read⟩

theorem Handles.spares_iff (h : Handles handleRead handleTimeout) (hpos : 0 < T)
    (hint : T ≤ 2147483647) (hs : Timed T s) :
    Spares (live handleRead handleTimeout start) s tick ↔ InTime s tick := by
  cases tick with
  | pass msec => exact iff_of_true (fun io s' htick => by cases htick) trivial
  | readable io => exact iff_of_true (fun io s' htick => by cases htick) trivial
  | timeout io =>
      obtain ⟨-, hends⟩ := h.expires hpos hs io
      constructor
      · intro hspares r hr hrecent
        rw [hs.timeout] at hrecent ⊢
        have hleft := hs.timeLeft hint hr hrecent
        rcases hspares io _ rfl rfl with ⟨-, hold⟩ | ⟨hnone, -⟩
        · have := hold r hr
          rw [hs.timeout] at this
          omega
        · by_cases hpositive : 0 < s.conn.timeLeft
          · omega
          · rw [if_neg hpositive] at hends
            have hgrown := congrArg List.length (hends.symm.trans hnone)
            simp only [List.length_append, List.length_singleton] at hgrown
            omega
      · intro hin io' s' htick hstep
        cases htick
        obtain rfl := Option.some.inj hstep
        by_cases hpositive : 0 < s.conn.timeLeft
        · rw [if_pos hpositive] at hends
          exact Or.inr ⟨hends.1, _, hends.2, hpositive⟩
        · rw [if_neg hpositive] at hends
          refine Or.inl ⟨hends, fun r hr => ?_⟩
          by_contra hrecent
          have hrecent := Int.not_le.mp hrecent
          have hfew := hin r hr hrecent
          rw [hs.timeout] at hrecent hfew
          have hleft := hs.timeLeft hint hr hrecent
          omega

/-- The runs of a connection that is timed when it starts. -/
theorem Handles.live_iff (h : Handles handleRead handleTimeout) (hpos : 0 < T)
    (hint : T ≤ 2147483647) (hstart : Timed T start) (ticks : List Tick) :
    (live handleRead handleTimeout start).AllSteps
        (Spares (live handleRead handleTimeout start)) start ticks ↔
      (live handleRead handleTimeout start).AllSteps InTime start ticks :=
  Machine.allSteps_iff_of_invariant _ (C := fun _ _ => True) (P := Timed T)
    (fun _ _ _ hs _ hstep => h.timed_step hpos hs hstep) (fun _ _ hs _ => h.spares_iff hpos hint hs)
    ticks hstart (Machine.allSteps_of_forall _ (fun _ _ => trivial) _)

end

end Connection

namespace TcpConnection

open Connection

theorem still_callSend (c : TcpConnection) (s : SendCall) : Keeps (Still c) (callSend send s) :=
  (still_outputFree c).keeps_callSend (keeps_send (still_outputFree c) s)

theorem handles : Handles handleRead handleTimeout where
  read io c hconn := by
    have hcatch (c : TcpConnection) (e : Exc) : Keeps (Still c) (onReadCatch io e) := by
      cases e with
      | socketError what =>
          exact keeps_bind (keeps_handleClose (still_quietInv c) rfl _) fun _ => keeps_pure false
      | buffer stop =>
          cases stop with
          | resourceLimit what =>
              exact keeps_bind (keeps_handleClose (still_quietInv c) rfl _) fun _ => keeps_pure true
          | hangs => exact keeps_throw _
      | other what => exact keeps_throw _
    unfold handleRead
    rw [wp_bind, wp_get, if_pos hconn]
    exact onRead_still still_callSend hcatch c io
  timeout io c hconn hside := by
    unfold handleTimeout onTimeout
    simp only [EStateM.run_bind, EStateM.run_get, hconn, hside, if_true]

/-- A connection that is accepted at `t` milliseconds, with the timeout `T`. -/
def acceptedAt (t : Nat) (stackIn stackOut : Nat → UInt8) (T : Int) (handler : Callback) :
    Live ByteBuffer :=
  ⟨Start.connection (t / 1000 : Nat) stackIn stackOut (.accepted T handler), t, t, none⟩

/-- Creating an accepted connection leaves the times that its constructor sets. -/
theorem createTcpConnection_still (c : TcpConnection) (T : Int) (handler : Callback) :
    Still { c with socket := c.socket.attach } (after (createTcpConnection T handler) c) := by
  have hquiet := still_quietInv { c with socket := c.socket.attach }
  refine after_of_wp ?_
  unfold createTcpConnection accept
  rw [wp_bind, wp_bind, wp_modify]
  refine wp_mono (keeps_bind ((still_outputFree _).select 0 selRead) (fun _ => ?_) _ (.refl _))
    (fun _ c' h => ?_) fun _ _ h => h
  · exact keeps_ite (keeps_selectTimeout hquiet T) (keeps_pure ())
  · exact keeps_bind (keeps_modify fun c' h => hquiet.timer c' c'.timer true h) (fun _ =>
      keeps_bind (keeps_tell hquiet rfl) fun _ =>
        keeps_bind (keeps_callback hquiet (still_callSend _) handler) fun _ => keeps_pure ()) c' h

/-- Its reads and its timers. -/
def live (t : Nat) (stackIn stackOut : Nat → UInt8) (T : Int) (handler : Callback) :
    Machine (Live ByteBuffer) Tick :=
  Connection.live handleRead handleTimeout (acceptedAt t stackIn stackOut T handler)

theorem acceptedAt_timed (t : Nat) (stackIn stackOut : Nat → UInt8) (T : Int) (handler : Callback) :
    Timed T (acceptedAt t stackIn stackOut T handler) := by
  have h := createTcpConnection_still { Connection.new .server T .established (t / 1000 : Nat)
    stackIn (ByteBuffer.new true stackOut) with lastRecvTs := (t / 1000 : Nat) } T handler
  exact ⟨h.side, h.connected, h.timeout, h.now, h.lastRecvTs, Nat.le_refl t,
    fun r hr => by cases hr⟩

end TcpConnection

namespace UdpConnection

open Connection

theorem still_callSend (c : UdpConnection) (s : SendCall) : Keeps (Still c) (callSend send s) :=
  (still_outputFree c).keeps_callSend (keeps_send (still_outputFree c) s)

theorem handles : Handles handleRead handleTimeout where
  read io c hconn := by
    have hcatch (c : UdpConnection) (e : Exc) : Keeps (Still c) (onReadCatch io e) := by
      cases e with
      | socketError what => exact keeps_pure false
      | buffer stop =>
          cases stop with
          | resourceLimit what =>
              exact keeps_bind (keeps_handleClose (still_quietInv c) rfl _) fun _ => keeps_pure true
          | hangs => exact keeps_throw _
      | other what => exact keeps_throw _
    unfold handleRead
    rw [wp_bind, wp_get, if_pos hconn]
    exact onRead_still still_callSend hcatch c io
  timeout io c hconn hside := by
    unfold handleTimeout onTimeout
    simp only [EStateM.run_bind, EStateM.run_get, hconn, hside, if_true]

/-- A connection that is accepted at `t` milliseconds, with the timeout `T`. -/
def acceptedAt (t : Nat) (stackIn : Nat → UInt8) (T : Int) (dat : List UInt8)
    (connected received : Callback) : Live (List (List UInt8)) :=
  ⟨Start.connection (t / 1000 : Nat) stackIn (.accepted T dat connected received), t, t, none⟩

/-- Creating an accepted connection leaves the times that its constructor sets. -/
theorem createUdpConnection_still (c : UdpConnection) (T : Int) (dat : List UInt8)
    (connected received : Callback) :
    Still { c with socket := c.socket.attach }
      (after (createUdpConnection T dat connected received) c) := by
  have hquiet := still_quietInv { c with socket := c.socket.attach }
  have hinput := still_inputFree { c with socket := c.socket.attach }
  refine after_of_wp ?_
  unfold createUdpConnection accept
  rw [wp_bind, wp_bind, wp_modify]
  refine wp_mono (keeps_bind ((still_outputFree _).select 0 selRead) (fun _ => ?_) _ (.refl _))
    (fun _ c' h => ?_) fun _ _ h => h
  · exact keeps_ite (keeps_selectTimeout hquiet T) (keeps_pure ())
  · refine keeps_bind (keeps_modify fun c' h => hquiet.timer c' c'.timer true h) (fun _ =>
      keeps_bind (keeps_tell hquiet rfl) fun _ =>
        keeps_bind (keeps_callback hquiet (still_callSend _) connected) fun _ =>
          keeps_bind (keeps_bind (keeps_notify hinput _) fun _ => ?_) fun _ => ?_) c' h
    · exact keeps_bind (keeps_callback hquiet (still_callSend _) received) fun _ => keeps_pure ()
    · exact keeps_modify fun c' h => hinput c' _ c'.input c'.notices h

/-- Its reads and its timers. -/
def live (t : Nat) (stackIn : Nat → UInt8) (T : Int) (dat : List UInt8)
    (connected received : Callback) : Machine (Live (List (List UInt8))) Tick :=
  Connection.live handleRead handleTimeout (acceptedAt t stackIn T dat connected received)

theorem acceptedAt_timed (t : Nat) (stackIn : Nat → UInt8) (T : Int) (dat : List UInt8)
    (connected received : Callback) : Timed T (acceptedAt t stackIn T dat connected received) := by
  have h := createUdpConnection_still { Connection.new .server T .established (t / 1000 : Nat)
    stackIn [] with lastRecvTs := (t / 1000 : Nat) } T dat connected received
  exact ⟨h.side, h.connected, h.timeout, h.now, h.lastRecvTs, Nat.le_refl t,
    fun r hr => by cases hr⟩

end UdpConnection

/-- **Where an active connection is not closed**: in a run of reads and of timers that expire, a
timer closes an accepted connection only if no data was read during the timeout, and waits for a
positive time otherwise, if and only if no timer that expires within the timeout after a read
finds that the clock has begun as many seconds since the last call of `onRead`. -/
theorem keepalive_iff (t : Nat) (stackIn stackOut : Nat → UInt8) {T : Int} (hpos : 0 < T)
    (hint : T ≤ 2147483647) (ticks : List Connection.Tick) :
    (∀ handler,
      (TcpConnection.live t stackIn stackOut T handler).AllSteps
          (Connection.Spares (TcpConnection.live t stackIn stackOut T handler))
          (TcpConnection.live t stackIn stackOut T handler).init ticks ↔
        (TcpConnection.live t stackIn stackOut T handler).AllSteps Connection.InTime
          (TcpConnection.live t stackIn stackOut T handler).init ticks) ∧
    ∀ dat connected received,
      (UdpConnection.live t stackIn T dat connected received).AllSteps
          (Connection.Spares (UdpConnection.live t stackIn T dat connected received))
          (UdpConnection.live t stackIn T dat connected received).init ticks ↔
        (UdpConnection.live t stackIn T dat connected received).AllSteps Connection.InTime
          (UdpConnection.live t stackIn T dat connected received).init ticks := by
  refine ⟨fun handler => ?_, fun dat connected received => ?_⟩
  · exact TcpConnection.handles.live_iff hpos hint
      (TcpConnection.acceptedAt_timed t stackIn stackOut T handler) ticks
  · exact UdpConnection.handles.live_iff hpos hint
      (UdpConnection.acceptedAt_timed t stackIn T dat connected received) ticks

instance (s : Connection.Live ByteBuffer) : DecidablePred (Connection.InTime s)
  | .timeout _ => inferInstanceAs (Decidable (∀ r ∈ s.readAt, s.clock < r + s.conn.timeout →
      1000 * (s.clock / 1000 - s.heard / 1000 : Nat) < s.conn.timeout))
  | .pass _ | .readable _ => isTrue trivial

/-- A byte is read `msec` milliseconds after the connection was accepted, and one millisecond
later the timer expires. -/
def readThenTimeout (msec : Nat) : List Connection.Tick :=
  [.pass msec, .readable (reading [1] (returning 1)), .pass 1, .timeout (reading [] (returning 0))]

/-- A connection that is accepted when a second begins, with a timeout of one second. -/
def atFullSecond : Machine (Connection.Live ByteBuffer) Connection.Tick :=
  TcpConnection.live 1000 (fun _ => 0) (fun _ => 0) 1000 (returning 0)

theorem keepalive_iff_half :
    atFullSecond.AllSteps (Connection.Spares atFullSecond) atFullSecond.init (readThenTimeout 500) :=
  ((keepalive_iff 1000 (fun _ => 0) (fun _ => 0) (show (0 : Int) < 1000 by decide) (by decide)
    (readThenTimeout 500)).1 (returning 0)).mpr
      (show atFullSecond.AllSteps Connection.InTime atFullSecond.init (readThenTimeout 500) by
        decide +kernel)

/-- The timer of the connection expires after one second and closes it, one millisecond after
the read. -/
theorem active_connection_closed :
    ¬ atFullSecond.AllSteps (Connection.Spares atFullSecond) atFullSecond.init
      (readThenTimeout 999) := by
  intro h
  have hin := (TcpConnection.handles.live_iff (by decide) (by decide)
    (TcpConnection.acceptedAt_timed 1000 (fun _ => 0) (fun _ => 0) 1000 (returning 0))
    (readThenTimeout 999)).mp h
  exact absurd hin (show ¬ atFullSecond.AllSteps Connection.InTime atFullSecond.init
    (readThenTimeout 999) by decide +kernel)

end LinSocketIo.Core
