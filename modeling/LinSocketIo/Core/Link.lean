/-
LinSocketIo.Core.Link — two TCP connections joined by the network.

Each end of a link is a connection with what it has received. The network is
a promise about the answers of the two kernels (`Carries`): what an end has
received is a beginning of what the kernel of the other end took. When bytes
arrive, in which pieces the kernels take and give them, and what the two
handlers do in between is left open.

* `messages_delivered` — of the messages that one application sends, the
  handler at the other end sees a beginning, each message once and in order,
  and all of them when nothing waits and nothing is under way. Both
  directions at once.

The kernel's log only grows (`wire_grows`); the rest is the output side of
one end (`Inv`) against the input side of the other (`Framed`).
-/
import LinSocketIo.Core.Chunking
import LinSocketIo.Core.TcpConnectionTheorems

namespace LinSocketIo.Core.TcpConnection

open LinSocketIo.Base LinSocketIo.Utils Connection

/-! ## What the kernel took -/

/-- The kernel took `w` first. -/
def Wrote (w : List (List UInt8)) (c : TcpConnection) : Prop := w <+: c.wire

section Wrote

variable (w : List (List UInt8))

theorem wrote_outputInv : OutputInv (Wrote w) where
  disconnected _ hc := hc
  removed _ hc := hc
  rest _ _ _ _ _ _ _ _ _ hc := hc

theorem wrote_socketSelect (remove add : Mask) : Keeps (Wrote w) (socketSelect remove add) := by
  intro c hc
  unfold wp EStateM.run socketSelect
  cases c.socket.select remove add with
  | ok s => exact hc
  | error what => exact hc

theorem wrote_socketSend (dat : List UInt8) (answer : Answer) :
    Keeps (Wrote w) (socketSend dat answer) := by
  intro c hc
  cases answer with
  | takes n => exact hc.trans (List.prefix_append c.wire _)
  | again => exact hc
  | fails what => exact hc

theorem wrote_onOutput {α : Type} (x : BufferM α) : Keeps (Wrote w) (onOutput x) := by
  intro c hc
  rw [wp_onOutput]
  unfold wp
  cases x.run c.output with
  | ok a b => exact hc
  | error e b => exact hc

theorem wrote_send (s : SendCall) : Keeps (Wrote w) (send s) := by
  have hwrite (dat : List UInt8) {β : Type} {x : TcpM β} (hx : Keeps (Wrote w) x) :
      Keeps (Wrote w) (do let _ ← onOutput (ByteBuffer.write s.fresh dat); x : TcpM β) :=
    keeps_bind (wrote_onOutput w _) fun _ => hx
  apply keeps_bind
  · apply keeps_bind keeps_get
    intro c
    apply keeps_ite
    · apply keeps_bind (wrote_socketSend w _ _)
      intro n
      exact keeps_ite (hwrite _ (keeps_bind (wrote_socketSelect w _ _) fun _ => keeps_pure n))
        (keeps_pure n)
    · exact keeps_ite (hwrite _ (keeps_pure 0)) (keeps_pure 0)
  · intro n
    refine keeps_bind (keeps_modify fun _ hc => ?_) fun _ => ?_
    · exact hc
    · exact keeps_bind keeps_get fun _ => keeps_pure _

theorem wrote_callSend (s : SendCall) : Keeps (Wrote w) (callSend send s) := by
  apply keeps_bind
  · exact keeps_tryCatch (keeps_bind (wrote_send w s) fun _ => keeps_pure _) fun _ => keeps_pure none
  · intro _
    exact keeps_modify fun _ hc => hc

theorem wrote_flush (answer : Answer) : Keeps (Wrote w) (flush answer) := by
  have hdone (n : Nat) : Keeps (Wrote w) (do
      modify fun c => { c with sentBytes := c.sentBytes + UInt64.ofNat n }
      return (← get).output.size == 0 : TcpM Bool) :=
    keeps_bind (keeps_modify fun _ hc => hc) fun _ => keeps_bind keeps_get fun _ => keeps_pure _
  have hselect (n : Nat) : Keeps (Wrote w) (do
      if (← get).output.size == 0 then socketSelect selWrite 0
      modify fun c => { c with sentBytes := c.sentBytes + UInt64.ofNat n }
      return (← get).output.size == 0 : TcpM Bool) := by
    apply keeps_bind keeps_get
    intro c
    exact keeps_ite (keeps_bind (wrote_socketSelect w _ _) fun _ => hdone n) (hdone n)
  apply keeps_bind keeps_get
  intro c
  apply keeps_ite (keeps_pure true)
  apply keeps_bind keeps_get
  intro c
  apply keeps_bind (wrote_socketSend w _ _)
  intro n
  exact keeps_ite (keeps_bind (wrote_onOutput w _) fun _ => hselect n) (hselect n)

theorem wrote_onConnected (desc : String) (io : Io) : Keeps (Wrote w) (onConnected desc io) := by
  have hclose (reason : String) :
      Keeps (Wrote w) (do let _ ← handleOnClose reason io.onCloseThrows : TcpM Unit) :=
    keeps_bind (keeps_handleClose (wrote_outputInv w).control rfl _) fun _ => keeps_pure ()
  apply keeps_bind (keeps_selectTimeout (wrote_outputInv w).control _)
  intro _
  apply keeps_bind keeps_get
  intro c
  apply keeps_ite _ (hclose desc)
  refine keeps_bind (keeps_modify fun _ hc => ?_) fun _ => ?_
  · exact hc
  apply keeps_tryCatch
  · apply keeps_bind (wrote_flush w _)
    intro b
    apply keeps_bind (wrote_socketSelect w _ _)
    intro _
    exact keeps_bind (keeps_handleOnConnected (wrote_outputInv w).control (wrote_callSend w) _ _)
      fun _ => keeps_pure ()
  · intro e
    cases e with
    | socketError what => exact hclose what
    | buffer stop => exact keeps_throw _
    | other what => exact keeps_throw _

theorem wrote_connected (io : Io) : Keeps (Wrote w) (do
    onConnected (← completeNonblockingConnect io.connectError) io : TcpM Unit) := by
  apply keeps_bind
  · cases io.connectError with
    | some what => exact keeps_pure what
    | none => exact keeps_bind (keeps_modify fun _ hc => hc) fun _ => keeps_pure _
  · intro desc
    exact wrote_onConnected w desc io

theorem wrote_onRead (io : Io) : Keeps (Wrote w) (onRead io) := by
  have hI := wrote_outputInv w
  have hclosed (reason : String) (b : Bool) :
      Keeps (Wrote w) (do let _ ← handleOnClose reason io.onCloseThrows; return b : TcpM Bool) :=
    keeps_bind (keeps_handleClose hI.control rfl _) fun _ => keeps_pure b
  refine keeps_bind (keeps_modify fun _ hc => ?_) fun _ => ?_
  · exact hc
  apply keeps_bind
  · apply keeps_tryCatch (keeps_bind (keeps_receive hI io) fun _ => keeps_pure true)
    intro e
    match e with
    | .buffer (.resourceLimit _) => exact hclosed _ true
    | .socketError what => exact hclosed what false
    | .buffer .hangs => exact keeps_throw _
    | .other what => exact keeps_throw _
  · intro goOn
    exact keeps_ite (keeps_deliver hI hI.control (wrote_callSend w) io) (keeps_pure ())

theorem wrote_exec (e : Event) : Keeps (Wrote w) e.exec := by
  have hI := (wrote_outputInv w).control
  cases e with
  | pass sec => exact keeps_modify fun _ hc => hc
  | readable io =>
    apply keeps_bind keeps_get
    intro c
    exact keeps_ite (wrote_onRead w io) (wrote_connected w io)
  | writable io =>
    apply keeps_bind keeps_get
    intro c
    exact keeps_ite (keeps_onWrite hI (wrote_callSend w) (wrote_flush w _) io)
      (wrote_connected w io)
  | timeout io =>
    apply keeps_bind keeps_get
    intro c
    apply keeps_ite _ (wrote_onConnected w _ io)
    apply keeps_bind keeps_get
    intro c
    cases c.side with
    | server => exact Connection.keeps_onTimeout hI io
    | client => exact keeps_clientOnTimeout hI (wrote_callSend w) io
  | close throws => exact keeps_close hI throws
  | send s => exact wrote_callSend w s
  | setKeepaliveTimeout msec => exact keeps_setKeepaliveTimeout hI msec
  | inputLimit n => exact keeps_modify fun _ hc => hc

end Wrote

/-- The log of what the kernel took only grows. -/
theorem wire_grows (e : Event) (c : TcpConnection) : c.wire <+: (after e.exec c).wire :=
  after_of_wp (wrote_exec c.wire e c (List.prefix_refl _))

/-! ## Two ends -/

/-- Two connections, each with what it has received. -/
structure Link where
  left : TcpConnection × Progress
  right : TcpConnection × Progress

/-- An event at one of the ends. -/
inductive LinkEvent where
  | left (e : Event)
  | right (e : Event)

/-- What an event makes of an end. -/
def advance (s : TcpConnection × Progress) (e : Event) : TcpConnection × Progress :=
  (after e.exec s.1, s.2.note s.1 e)

/-- The network carries the bytes from `c` to an end: what the end receives continues a
beginning of what the kernel took from `c`. -/
def Carries (c : TcpConnection) (s : TcpConnection × Progress) (e : Event) : Prop :=
  ∀ d ∈ s.1.delivery e, s.2.got ++ d.1 <+: c.wire.flatten

/-- An event at an end whose peer is `c`: the network carries what it reads, and the handler
consumes the complete frames. -/
def Works (F : Framing UInt8) (c : TcpConnection) (s : TcpConnection × Progress) (e : Event) :
    Prop :=
  e.Fits s.1 ∧ Carries c s e ∧ TakesFrames F s.1 e

namespace Link

/-- The events at both ends, in any order. -/
def machine (left right : TcpConnection) : Machine Link LinkEvent where
  init := ⟨(left, ⟨[], 0⟩), (right, ⟨[], 0⟩)⟩
  step s
    | .left e => some { s with left := advance s.left e }
    | .right e => some { s with right := advance s.right e }

/-- The messages to the right are framed by `F`, those to the left by `G`. -/
def Works (F G : Framing UInt8) (s : Link) : LinkEvent → Prop
  | .left e => TcpConnection.Works G s.right.1 s.left e
  | .right e => TcpConnection.Works F s.left.1 s.right e

end Link

/-- The messages that the application has sent. -/
def messages (c : TcpConnection) : List (List UInt8) := c.sends.map Prod.fst

/-- Nothing waits in the established connection, and all that the kernel took from it has been
received at the other end. -/
structure AtRest (c : TcpConnection) (s : TcpConnection × Progress) : Prop where
  status : c.status = .established
  drained : c.socket.selects selWrite = false
  received : s.2.got = c.wire.flatten

/-- What is promised to an application that sends only frames, none of 2 GiB, by calls of `send`
that do not throw: the other handler sees a beginning of the messages, and all of them once the
link is at rest. -/
def Delivers (F : Framing UInt8) (c : TcpConnection) (s : TcpConnection × Progress) : Prop :=
  (∀ m ∈ c.messages, F.next m = some m.length) → Small c → Returned c →
    framesSeen F s.1 <+: c.messages ∧ (AtRest c s → framesSeen F s.1 = c.messages)

/-! ## One direction -/

/-- One direction of a link, from `c` to an end. -/
structure Joined (F : Framing UInt8) (c : TcpConnection) (s : TcpConnection × Progress) :
    Prop where
  sender : Inv c
  received : s.2.got <+: c.wire.flatten
  holds : Holds s.1 s.2
  framed : Framed F s.1 s.2

variable {F : Framing UInt8} {c : TcpConnection} {s : TcpConnection × Progress} {e : Event}

/-- A handler that consumes frames returns. -/
theorem TakesFrames.consumes (hwf : s.1.input.Wf) (hfits : e.Fits s.1)
    (htakes : TakesFrames F s.1 e) : Consumes s.1 e := by
  intro d hd
  have halike := (exec_after hwf hfits).1
  rw [Option.mem_def] at hd
  rw [hd] at halike
  have hlast : (after e.exec s.1).shown.getLast? = some (s.1.input.contents ++ d.1) := by
    rw [halike.presented, List.getLast?_concat]
  rw [htakes d hd _ hlast]
  exact Int.natCast_nonneg _

/-- An event at the sender. -/
theorem Joined.send (h : Joined F c s) (e : Event) : Joined F (after e.exec c) s where
  sender := after_of_wp (keeps_exec e c h.sender)
  received := by
    obtain ⟨w, hw⟩ := wire_grows e c
    rw [← hw, List.flatten_append]
    exact h.received.trans (List.prefix_append _ _)
  holds := h.holds
  framed := h.framed

/-- An event at the receiver. -/
theorem Joined.receive (h : Joined F c s) (hworks : Works F c s e) : Joined F c (advance s e) where
  sender := h.sender
  received := by
    unfold advance Progress.note
    cases hd : s.1.delivery e with
    | none => exact h.received
    | some d => exact hworks.2.1 d hd
  holds := exec_holds h.holds hworks.1 (hworks.2.2.consumes h.holds.wf hworks.1)
  framed := exec_framed h.holds.wf h.framed hworks.1 hworks.2.2

theorem Joined.delivers (h : Joined F c s) : Delivers F c s := by
  intro hframes hsmall hret
  have hstream : c.wire.flatten ++ c.output.contents = c.messages.flatten :=
    (h.sender.streams hsmall hret).stream
  rw [h.framed.seen, ← F.frames_flatten hframes, ← hstream]
  constructor
  · exact F.frames_prefix (h.received.trans (List.prefix_append _ _))
  · intro hrest
    -- a steady connection that does not wait for `SEL_WRITE` has nothing to send
    have hempty : c.output.contents = [] := by
      by_contra hwaits
      have harmed := (h.sender.steady hsmall hrest.status).2.mpr hwaits
      exact Bool.false_ne_true (hrest.drained.symm.trans harmed)
    rw [hempty, List.append_nil, hrest.received]

/-! ## Runs -/

section Runs

variable (now : Int) (stackIn stackOut : Nat → UInt8)

theorem start_joined (F : Framing UInt8) (left right : Start) :
    Joined F (left.connection now stackIn stackOut)
      (right.connection now stackIn stackOut, ⟨[], 0⟩) where
  sender := start_inv now stackIn stackOut left
  received := List.nil_prefix
  holds := start_holds now stackIn stackOut right
  framed := start_framed now stackIn stackOut right F

/-- **Messages arrive once and in order**: in every run of a link whose network carries what is
sent and whose handlers consume the complete frames, both applications are promised delivery. -/
theorem messages_delivered (F G : Framing UInt8) (left right : Start) {events : List LinkEvent}
    {s : Link}
    (hrun : (Link.machine (left.connection now stackIn stackOut)
      (right.connection now stackIn stackOut)).run (Link.machine
        (left.connection now stackIn stackOut) (right.connection now stackIn stackOut)).init
        events = some s)
    (hworks : (Link.machine (left.connection now stackIn stackOut)
      (right.connection now stackIn stackOut)).AllSteps (Link.Works F G) (Link.machine
        (left.connection now stackIn stackOut) (right.connection now stackIn stackOut)).init
        events) :
    Delivers F s.left.1 s.right ∧ Delivers G s.right.1 s.left := by
  have hjoined : Joined F s.left.1 s.right ∧ Joined G s.right.1 s.left := by
    refine Machine.run_invariant _ (P := fun s : Link => Joined F s.left.1 s.right ∧
      Joined G s.right.1 s.left) ?_ events ⟨?_, ?_⟩ hworks hrun
    · intro s ev s' hs hev hstep
      cases ev with
      | left e =>
        obtain rfl := Option.some.inj hstep
        exact ⟨hs.1.send e, hs.2.receive hev⟩
      | right e =>
        obtain rfl := Option.some.inj hstep
        exact ⟨hs.1.receive hev, hs.2.send e⟩
    · exact start_joined now stackIn stackOut F left right
    · exact start_joined now stackIn stackOut G right left
  exact ⟨hjoined.1.delivers, hjoined.2.delivers⟩

end Runs

instance (c : TcpConnection) (s : TcpConnection × Progress) (e : Event) : Decidable (Carries c s e) :=
  inferInstanceAs (Decidable (∀ d ∈ s.1.delivery e, s.2.got ++ d.1 <+: c.wire.flatten))

instance (F : Framing UInt8) (c : TcpConnection) (s : TcpConnection × Progress) (e : Event) :
    Decidable (Works F c s e) :=
  inferInstanceAs (Decidable (e.Fits s.1 ∧ Carries c s e ∧ TakesFrames F s.1 e))

instance (F G : Framing UInt8) (s : Link) : DecidablePred (Link.Works F G s)
  | .left e => inferInstanceAs (Decidable (Works G s.right.1 s.left e))
  | .right e => inferInstanceAs (Decidable (Works F s.left.1 s.right e))

/-- A client and the connection that was accepted for it. -/
def pair : Machine Link LinkEvent :=
  Link.machine (Start.connection 0 (fun _ => 0) (fun _ => 0) (.client 0 .done idle))
    (Start.connection 0 (fun _ => 0) (fun _ => 0) (.accepted 0 (returning 0)))

/-- The kernel takes one byte of the first message and the second one waits behind it. The first
read ends inside the first message. -/
def twoMessages : List LinkEvent :=
  [.left (.send ⟨[1, 7], .takes 1, fun _ => 0⟩), .left (.send ⟨[2, 8, 9], .takes 3, fun _ => 0⟩),
    .right (.readable (reading [1] (returning 0))),
    .left (.writable { idle with answers := [.takes 4] }),
    .right (.readable (reading [7, 2, 8, 9] (returning 5)))]

theorem messages_delivered_twoMessages :
    ∃ s ∈ pair.run pair.init twoMessages, framesSeen counted s.right.1 = [[1, 7], [2, 8, 9]] := by
  have hend : ∃ s ∈ pair.run pair.init twoMessages,
      s.left.1.messages = [[1, 7], [2, 8, 9]] ∧
      (∀ m ∈ s.left.1.messages, counted.next m = some m.length) ∧
      (∀ t ∈ s.left.1.sends, t.1.length < 2147483648) ∧
      (∀ t ∈ s.left.1.sends, t.2.isSome = true) ∧
      s.left.1.status = .established ∧ s.left.1.socket.selects selWrite = false ∧
      s.right.2.got = s.left.1.wire.flatten := by
    decide +kernel
  have hworks : pair.AllSteps (Link.Works counted counted) pair.init twoMessages := by
    decide +kernel
  obtain ⟨s, hs, hmessages, hframes, hsmall, hret, hstatus, hdrained, hreceived⟩ := hend
  have hboth := messages_delivered 0 (fun _ => 0) (fun _ => 0) counted counted (.client 0 .done idle)
    (.accepted 0 (returning 0)) hs hworks
  have hall := (hboth.1 hframes hsmall hret).2 ⟨hstatus, hdrained, hreceived⟩
  exact ⟨s, hs, hall.trans hmessages⟩

end LinSocketIo.Core.TcpConnection
