/-
LinSocketIo.Core.UdpSocket — the datagram socket of `core/udp_socket.h` and
`core/udp_socket.cpp`, and where its datagrams go.

A datagram is handed to the kernel at once while nothing waits, and through
`_queue` otherwise. `UdpData` keeps the data and 16 bytes for the address,
but its constructor copies them from `&to`, where the pointer is kept, and
not from `to`. So a datagram that had to wait leaves for whatever address
those bytes spell.

* `send_backlog`, `onWrite_backlog` — the two calls are the operations of a
  `Backlog`: nothing is lost, repeated or overtaken, and the socket asks for
  `SEL_WRITE` exactly while something waits.
* `destination_iff` — along every run, what the kernel gets once the queue
  has been worked off is what was passed to `send` if and only if every
  datagram went out directly or found its own address at `&to`.
* `queued_ne_dest` — for a pointer that is aligned as `ipaddr_type` has to
  be, an `AF_INET` address is never found there.

Modelling notes. The memory that a call of `send` sees is an input, with the
pointer at the place of the parameter; x86-64 puts its low byte first. A
kernel that takes a datagram takes all of it in the runs; `send` and `flush`
have the other cases as well.
-/
import LinSocketIo.Base.Backlog
import LinSocketIo.Base.CInt
import LinSocketIo.Base.Machine
import LinSocketIo.Base.Wp
import LinSocketIo.Core.Socket

namespace LinSocketIo.Core

open LinSocketIo.Base

/-- `UdpSocket::UdpData`, and what the kernel is handed. -/
structure UdpData where
  data : List UInt8
  /-- The bytes of the `ipaddr_type`. -/
  addr : List UInt8
  deriving DecidableEq, Repr

/-- `UdpSocket`. -/
structure UdpSocket where
  socket : Socket
  queue : List UdpData
  lastSendTs : Int
  /-- The datagrams that the kernel took. -/
  handed : List UdpData
  deriving DecidableEq, Repr

namespace UdpSocket

/-- A call on a UDP socket; it throws the text of the `socket_error`. -/
abbrev UdpSocketM := EStateM String UdpSocket

/-- `sizeof(ipaddr_type)`. -/
def sizeofAddr : Nat := 16

/-- `AF_INET`. -/
def afInet : UInt8 := 2

/-- The `n` bytes from `p` on. -/
def bytesAt (mem : Nat → UInt8) (p n : Nat) : List UInt8 :=
  (List.range n).map fun i => mem (p + i)

/-- A call of `send`, and the memory it sees. -/
structure SendToCall where
  dat : List UInt8
  /-- The pointer `to`. -/
  toAddr : Nat
  /-- Where the constructor of `UdpData` keeps its parameter `to`. -/
  param : Nat
  mem : Nat → UInt8
  now : Int
  stored : ∀ i < 8, mem (param + i) = UInt8.ofNat (toAddr / 256 ^ i)

/-- `*to`. -/
def SendToCall.dest (s : SendToCall) : List UInt8 := bytesAt s.mem s.toAddr sizeofAddr

/-- The constructor of `UdpData`: `memcpy(&addr, &to, sizeof(ipaddr_type))`. -/
def UdpData.new (s : SendToCall) : UdpData := ⟨s.dat, bytesAt s.mem s.param sizeofAddr⟩

/-- A socket that `init` has opened; `bind` selects it for reading. -/
def new (bound : Bool) : UdpSocket where
  socket :=
    let opened := { Socket.new with valid := true }
    if bound then (opened.select 0 selRead).toOption.getD opened else opened
  queue := []
  lastSendTs := 0
  handed := []

/-! ## `send` and `flush` -/

/-- `SocketHelper::sendto`. The result is never negative. -/
def sendto (d : UdpData) : Answer → UdpSocketM Nat
  | .takes n => do
    modify fun u => { u with handed := u.handed ++ [{ d with data := d.data.take n }] }
    return min n d.data.length
  | .again => return 0
  | .fails what => throw what

/-- `Socket::select`. -/
def socketSelect (remove add : Mask) : UdpSocketM Unit := fun u =>
  match u.socket.select remove add with
  | .ok s => .ok () { u with socket := s }
  | .error what => .error what u

/-- `_queue.push_back`. -/
def pushBack (d : UdpData) : UdpSocketM Unit := modify fun u => { u with queue := u.queue ++ [d] }

/-- The `try` block of `send`. -/
def sendOrQueue (s : SendToCall) (answer : Answer) : UdpSocketM Int := do
  if (← get).queue.isEmpty then
    let n ← sendto ⟨s.dat, s.dest⟩ answer
    if n = 0 then
      pushBack (UdpData.new s)
      socketSelect 0 selWrite
      return toInt s.dat.length
    else if (n : Int) < toInt s.dat.length then return -1
    else
      modify fun u => { u with lastSendTs := s.now }
      return 0
  else
    if s.dat.length > 0 then pushBack (UdpData.new s)
    modify fun u => { u with lastSendTs := s.now }
    return 0

/-- `send`. -/
def send (s : SendToCall) (answer : Answer) : UdpSocketM Int := do
  try sendOrQueue s answer
  catch _ => pure (-1)

/-- The loop of `flush`, with the kernel's answers to its sends; after the last it would
block. -/
def flushLoop : List Answer → UdpSocketM Unit
  | [] => return ()
  | answer :: answers => do
    match (← get).queue with
    | [] => return ()
    | d :: rest =>
      let n ← sendto d answer
      if n = 0 then return ()
      else
        -- a datagram of which the kernel took only a part is gone as well
        modify fun u => { u with queue := rest }
        if rest.isEmpty then socketSelect selWrite 0
        else flushLoop answers

/-- `flush`. -/
def flush (answers : List Answer) : UdpSocketM Bool := do
  flushLoop answers
  return (← get).queue.isEmpty

/-- `onWrite`. -/
def onWrite (answers : List Answer) : UdpSocketM Unit := do
  try
    let _ ← flush answers
    pure ()
  catch _ => pure ()

/-! ## The queue as a backlog -/

/-- What the kernel took, what waits, and whether the socket asked for `SEL_WRITE`. -/
def backlog (u : UdpSocket) : Backlog UdpData := ⟨u.handed, u.queue, u.socket.selects selWrite⟩

/-- The socket is open, and `b` is its backlog. -/
structure Open (b : Backlog UdpData) (u : UdpSocket) : Prop where
  valid : u.socket.valid = true
  shutdownSend : u.socket.shutdownSend = false
  shutdownRecv : u.socket.shutdownRecv = false
  backlog : u.backlog = b

theorem select_spec {b : Backlog UdpData} {u : UdpSocket} (hu : Open b u) (remove add : Mask) :
    wp (socketSelect remove add) u
      (fun _ => Open { b with armed := (b.armed && !remove.getLsbD 1) || add.getLsbD 1 })
      (fun _ _ => False) := by
  obtain ⟨s, hs, hsel, -, hvalid, hsend, hrecv⟩ :=
    Socket.select_selects hu.valid hu.shutdownSend hu.shutdownRecv remove add
  have hrun : (socketSelect remove add).run u = .ok () { u with socket := s } := by
    simp only [socketSelect, EStateM.run, hs]
  unfold wp
  rw [hrun]
  refine ⟨hvalid, hsend, hrecv, ?_⟩
  rw [← hu.backlog]
  simp only [UdpSocket.backlog, hsel]

/-- The datagram that a call gives the backlog. -/
def sentAs (u : UdpSocket) (s : SendToCall) (taken : Bool) : UdpData :=
  if u.queue.isEmpty && taken then ⟨s.dat, s.dest⟩ else UdpData.new s

/-- The kernel takes a datagram whole or would block. -/
def answerOf (taken : Bool) (d : List UInt8) : Answer := if taken then .takes d.length else .again

/-- `send` offers the datagram while nothing waits and queues it otherwise. -/
theorem send_backlog {u : UdpSocket} {b : Backlog UdpData} (hu : Open b u) (s : SendToCall)
    (hdat : s.dat ≠ []) (taken : Bool) :
    wp (send s (answerOf taken s.dat)) u
      (fun _ => Open (if b.pending.isEmpty then b.offer [u.sentAs s taken] (if taken then 1 else 0)
        else b.push [u.sentAs s taken]))
      (fun _ _ => False) := by
  obtain rfl := hu.backlog
  have hlen : 0 < s.dat.length := List.length_pos_iff.mpr hdat
  unfold send sendOrQueue sentAs
  simp only [wp_tryCatch, wp_bind, wp_get, wp_ite]
  refine ⟨fun hempty => ?_, fun hwaits => ?_⟩
  · have hnil : u.queue = [] := List.isEmpty_iff.mp hempty
    cases taken with
    | true =>
        simp only [answerOf, if_true, sendto, wp_bind, wp_modify, wp_pure, Nat.min_self]
        refine ⟨fun hzero => absurd hzero (by omega), fun _ => ⟨fun hpart => ?_, fun _ => ?_⟩⟩
        · exact absurd (toInt_le (Int.natCast_nonneg s.dat.length)) (by omega)
        · refine ⟨hu.valid, hu.shutdownSend, hu.shutdownRecv, ?_⟩
          simp [backlog, Backlog.offer, hnil]
    | false =>
        simp only [answerOf, Bool.false_eq_true, if_false, sendto, pushBack, wp_modify, wp_pure]
        refine ⟨fun _ => ?_, fun hn => absurd trivial hn⟩
        have hpush : Open { u.backlog with pending := u.queue ++ [UdpData.new s] }
            { u with queue := u.queue ++ [UdpData.new s] } :=
          ⟨hu.valid, hu.shutdownSend, hu.shutdownRecv, rfl⟩
        refine wp_mono (select_spec hpush 0 selWrite) (fun _ t ht => ?_) fun _ _ h => h.elim
        convert ht using 1
        simp [backlog, Backlog.offer, hnil, selWrite]
  · simp only [pushBack, wp_modify, wp_pure]
    refine ⟨fun _ => ?_, fun hzero => absurd hlen hzero⟩
    refine ⟨hu.valid, hu.shutdownSend, hu.shutdownRecv, ?_⟩
    simp [backlog, Backlog.push, hwaits]

/-- The answers of a kernel that takes `takes` of the datagrams that wait. -/
def answersOf (u : UdpSocket) (takes : Nat) : List Answer :=
  (u.queue.take takes).map fun d => .takes d.data.length

/-- `flush` drains the backlog. -/
theorem flushLoop_backlog : ∀ (takes : Nat) {u : UdpSocket} {b : Backlog UdpData}, Open b u →
    (∀ d ∈ b.pending, d.data ≠ []) →
      wp (flushLoop (u.answersOf takes)) u (fun _ => Open (b.drain takes)) (fun _ _ => False)
  | 0, u, b, hu, _ => by
      have hdrain : b.drain 0 = b := by
        unfold Backlog.drain
        split
        · rfl
        · next hwaits => simp [hwaits]
      rw [hdrain]
      exact hu
  | takes + 1, u, b, hu, hdata => by
      obtain rfl := hu.backlog
      cases hq : u.queue with
      | nil =>
          have hdrain : u.backlog.drain (takes + 1) = u.backlog := by
            simp [Backlog.drain, backlog, hq]
          rw [answersOf, hq, hdrain]
          exact hu
      | cons d rest =>
          have hlen : 0 < d.data.length :=
            List.length_pos_iff.mpr (hdata d (by simp [backlog, hq]))
          simp only [answersOf, hq, List.take_succ_cons, List.map_cons]
          unfold flushLoop
          simp only [wp_bind, wp_get, hq, sendto, wp_modify, wp_pure, wp_ite, Nat.min_self,
            List.take_length]
          refine ⟨fun hzero => absurd hzero (by omega), fun _ => ?_⟩
          -- the datagram has left the queue
          have hnext : Open ⟨u.handed ++ [d], rest, u.socket.selects selWrite⟩
              { u with handed := u.handed ++ [d], queue := rest } :=
            ⟨hu.valid, hu.shutdownSend, hu.shutdownRecv, rfl⟩
          refine ⟨fun hempty => ?_, fun hmore => ?_⟩
          · refine wp_mono (select_spec hnext selWrite 0) (fun _ t ht => ?_) fun _ _ h => h.elim
            convert ht using 1
            simp [Backlog.drain, backlog, hq, List.isEmpty_iff.mp hempty, selWrite]
          · have hih := flushLoop_backlog takes hnext
              fun x hx => hdata x (by simpa [backlog, hq] using Or.inr hx)
            refine wp_mono hih (fun _ t ht => ?_) fun _ _ h => h.elim
            convert ht using 1
            simp [Backlog.drain, backlog, hq, hmore]

theorem onWrite_backlog {u : UdpSocket} {b : Backlog UdpData} (hu : Open b u)
    (hdata : ∀ d ∈ b.pending, d.data ≠ []) (takes : Nat) :
    wp (onWrite (u.answersOf takes)) u (fun _ => Open (b.drain takes)) (fun _ _ => False) := by
  unfold onWrite flush
  simp only [wp_tryCatch, wp_bind, wp_get, wp_pure]
  exact wp_mono (flushLoop_backlog takes hu hdata) (fun _ _ ht => ht) fun _ _ h => h.elim

/-! ## Runs -/

/-- A call of `send` with data, or a writable event: the kernel takes the datagram or would
block, or takes that many of the datagrams that wait. -/
inductive Op where
  | send (s : SendToCall) (taken : Bool) (nonempty : s.dat ≠ [])
  | writable (takes : Nat)

/-- What a call leaves, whether it returns or throws. -/
def after {α : Type} (x : UdpSocketM α) (u : UdpSocket) : UdpSocket :=
  match x.run u with
  | .ok _ t | .error _ t => t

/-- The calls on a socket that has been opened. -/
def machine (bound : Bool) : Machine UdpSocket Op where
  init := new bound
  step u
    | .send s taken _ => some (after (send s (answerOf taken s.dat)) u)
    | .writable takes => some (after (onWrite (u.answersOf takes)) u)

/-- The pairs of data and `*to` that were passed to `send`. -/
def passed : List Op → List UdpData
  | [] => []
  | .send s _ _ :: ops => ⟨s.dat, s.dest⟩ :: passed ops
  | .writable _ :: ops => passed ops

/-- The datagram goes out directly, or the bytes at `&to` are those of `*to`. -/
def Addressed (u : UdpSocket) : Op → Prop
  | .send s taken _ =>
    (u.queue = [] ∧ taken = true) ∨ bytesAt s.mem s.param sizeofAddr = s.dest
  | .writable _ => True

/-- The socket is open, what waits has data, and the socket asks for `SEL_WRITE` exactly while
something waits. -/
structure Working (u : UdpSocket) : Prop where
  isOpen : Open u.backlog u
  data : ∀ d ∈ u.queue, d.data ≠ []
  steady : u.backlog.Steady

theorem after_wp {α : Type} {x : UdpSocketM α} {u : UdpSocket} {P : UdpSocket → Prop}
    (h : wp x u (fun _ => P) (fun _ _ => False)) : P (after x u) := by
  unfold wp at h
  unfold after
  cases hr : x.run u with
  | ok a t =>
      rw [hr] at h
      exact h
  | error e t =>
      rw [hr] at h
      exact h.elim

theorem working_new (bound : Bool) : Working (new bound) ∧ (new bound).backlog.stream = [] := by
  have hsteady : (new bound).backlog.Steady := by
    unfold Backlog.Steady
    revert bound
    decide
  cases bound <;> exact ⟨⟨⟨rfl, rfl, rfl, rfl⟩, nofun, hsteady⟩, rfl⟩

/-- What a call adds to the stream. -/
def sent (u : UdpSocket) : Op → List UdpData
  | .send s taken _ => [u.sentAs s taken]
  | .writable _ => []

/-- Every call keeps the socket working, and the stream grows by what the call sends. -/
theorem working_step {bound : Bool} {u u' : UdpSocket} {op : Op} (hu : Working u)
    (hstep : (machine bound).step u op = some u') :
    Working u' ∧ u'.backlog.stream = u.backlog.stream ++ u.sent op := by
  cases op with
  | writable takes =>
      obtain rfl := Option.some.inj hstep
      have hopen := after_wp (onWrite_backlog hu.isOpen hu.data takes)
      generalize after (onWrite (u.answersOf takes)) u = t at hopen
      have hq : t.queue = u.queue.drop takes :=
        (congrArg Backlog.pending hopen.backlog).trans (Backlog.pending_drain _ takes)
      refine ⟨⟨hopen.backlog ▸ hopen, fun d hd => ?_, ?_⟩, ?_⟩
      · rw [hq] at hd
        exact hu.data d (List.mem_of_mem_drop hd)
      · rw [hopen.backlog]
        exact Backlog.steady_drain hu.steady takes
      · rw [hopen.backlog, Backlog.stream_drain, sent, List.append_nil]
  | send s taken hdat =>
      obtain rfl := Option.some.inj hstep
      have hopen := after_wp (send_backlog hu.isOpen s hdat taken)
      generalize after (send s (answerOf taken s.dat)) u = t at hopen
      have hsent : (u.sentAs s taken).data ≠ [] := by
        unfold sentAs
        split
        · exact hdat
        · exact hdat
      split at hopen
      · next hempty =>
        have hnil : u.backlog.pending = [] := List.isEmpty_iff.mp hempty
        refine ⟨⟨hopen.backlog ▸ hopen, fun d hd => ?_, ?_⟩, ?_⟩
        · have hq : t.queue = [u.sentAs s taken].drop (if taken then 1 else 0) :=
            congrArg Backlog.pending hopen.backlog
          rw [hq] at hd
          rwa [List.mem_singleton.mp (List.mem_of_mem_drop hd)]
        · rw [hopen.backlog]
          exact Backlog.steady_offer hu.steady hnil _ _
        · rw [hopen.backlog, Backlog.stream_offer _ hnil, sent]
      · next hwaits =>
        have hne : u.backlog.pending ≠ [] := fun hnil => hwaits (List.isEmpty_iff.mpr hnil)
        refine ⟨⟨hopen.backlog ▸ hopen, fun d hd => ?_, ?_⟩, ?_⟩
        · have hq : t.queue = u.queue ++ [u.sentAs s taken] :=
            congrArg Backlog.pending hopen.backlog
          rw [hq, List.mem_append, List.mem_singleton] at hd
          rcases hd with hd | rfl
          · exact hu.data d hd
          · exact hsent
        · rw [hopen.backlog]
          exact Backlog.steady_push hu.steady hne _
        · rw [hopen.backlog, Backlog.stream_push, sent]

/-- A call sends what was passed to it exactly when it is `Addressed`. -/
theorem sent_eq_iff (u : UdpSocket) {s : SendToCall} {taken : Bool} {hdat : s.dat ≠ []} :
    u.sentAs s taken = ⟨s.dat, s.dest⟩ ↔ u.Addressed (.send s taken hdat) := by
  unfold sentAs Addressed UdpData.new
  cases taken <;> cases hq : u.queue <;> simp

/-- What a run adds to the stream, and when it is what was passed to `send`. -/
theorem run_stream (bound : Bool) : ∀ (ops : List Op) {u : UdpSocket}, Working u →
    ∃ u' sents, (machine bound).run u ops = some u' ∧ Working u' ∧
      u'.backlog.stream = u.backlog.stream ++ sents ∧
      (sents = passed ops ↔ (machine bound).AllSteps Addressed u ops)
  | [], u, hu => ⟨u, [], rfl, hu, (List.append_nil _).symm, iff_of_true rfl trivial⟩
  | op :: ops, u, hu => by
      obtain ⟨t, ht⟩ : ∃ t, (machine bound).step u op = some t := by
        cases op <;> exact ⟨_, rfl⟩
      obtain ⟨hwork, hstream⟩ := working_step hu ht
      obtain ⟨u', sents, hrun, hu', hs, hiff⟩ := run_stream bound ops hwork
      refine ⟨u', u.sent op ++ sents, (Machine.run_cons_some _).mpr ⟨t, ht, hrun⟩, hu', ?_, ?_⟩
      · rw [hs, hstream, List.append_assoc]
      · have hall : (∀ t', (machine bound).step u op = some t' →
            (machine bound).AllSteps Addressed t' ops) ↔ sents = passed ops := by
          rw [hiff]
          constructor
          · exact fun h => h t ht
          · rintro h t' ht'
            rw [ht] at ht'
            cases ht'
            exact h
        unfold Machine.AllSteps
        rw [hall]
        cases op with
        | writable takes => simp [sent, passed, Addressed]
        | send s taken hdat =>
            rw [← sent_eq_iff, sent, passed, List.singleton_append, List.cons.injEq]

/-- **Where the datagrams go**: after every run, the writable events that work off the queue
hand the kernel what waits, and what it has got is then, in order, what was passed to `send` if
and only if every datagram went out directly or found its own address at `&to`. -/
theorem destination_iff (bound : Bool) (ops : List Op) :
    ∃ u u', (machine bound).run (machine bound).init ops = some u ∧
      (machine bound).run u [.writable u.queue.length] = some u' ∧
      u'.queue = [] ∧ u'.handed = u.handed ++ u.queue ∧
      (u'.handed = passed ops ↔
        (machine bound).AllSteps Addressed (machine bound).init ops) := by
  obtain ⟨hnew, hnil⟩ := working_new bound
  obtain ⟨u, sents, hrun, hu, hstream, hiff⟩ := run_stream bound ops hnew
  refine ⟨u, after (onWrite (u.answersOf u.queue.length)) u, hrun, rfl, ?_⟩
  have hopen := after_wp (onWrite_backlog hu.isOpen hu.data u.queue.length)
  generalize after (onWrite (u.answersOf u.queue.length)) u = t at hopen
  have hq : t.queue = [] := by
    have hdrop := (congrArg Backlog.pending hopen.backlog).trans (Backlog.pending_drain _ _)
    exact hdrop.trans (List.drop_length)
  have hhanded : t.handed = u.handed ++ u.queue := by
    have hs : t.handed ++ t.queue = u.handed ++ u.queue :=
      (congrArg Backlog.stream hopen.backlog).trans (Backlog.stream_drain _ _)
    rwa [hq, List.append_nil] at hs
  rw [hnil, List.nil_append] at hstream
  refine ⟨hq, hhanded, ?_⟩
  rw [hhanded, show u.handed ++ u.queue = sents from hstream]
  exact hiff

/-- The address of a datagram of one byte, 127.0.0.1:8080, lies at 64; the constructor of
`UdpData` keeps its parameter at 128. -/
def loopback : SendToCall where
  dat := [1]
  toAddr := 64
  param := 128
  mem := fun p =>
    ([2, 0, 0x1f, 0x90, 127, 0, 0, 1] : List UInt8).getD (p - 64) (if p = 128 then 64 else 0)
  now := 0
  stored := by decide

/-- The datagram that had to wait leaves for the address that its pointer spells. -/
theorem queued_elsewhere :
    ∃ u, (machine true).run (machine true).init
        [.send loopback false (by decide), .writable 1] = some u ∧
      u.handed = [⟨[1], [64, 0, 0, 0, 0, 0, 0, 0, 0, 0, 0, 0, 0, 0, 0, 0]⟩] ∧
      passed [.send loopback false (by decide), .writable 1] =
        [⟨[1], [2, 0, 0x1f, 0x90, 127, 0, 0, 1, 0, 0, 0, 0, 0, 0, 0, 0]⟩] := by
  refine ⟨_, rfl, ?_, ?_⟩ <;> decide

/-- The bytes at `&to` begin with the low byte of the pointer. An `AF_INET` address would make
it 2, which is no address of an `ipaddr_type`. -/
theorem queued_ne_dest {s : SendToCall} (haligned : s.toAddr % 4 = 0)
    (hinet : s.dest.head? = some afInet) : (UdpData.new s).addr ≠ s.dest := by
  intro heq
  have hlow : s.mem s.param = UInt8.ofNat s.toAddr := by
    have h := s.stored 0 (by decide)
    rwa [Nat.pow_zero, Nat.div_one, Nat.add_zero] at h
  have hhead : (UdpData.new s).addr.head? = some (s.mem s.param) := rfl
  rw [heq, hinet, hlow] at hhead
  have hbyte : s.toAddr % 256 = 2 := (congrArg UInt8.toNat (Option.some.inj hhead)).symm
  omega

end UdpSocket

end LinSocketIo.Core
