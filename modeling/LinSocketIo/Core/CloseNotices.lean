/-
LinSocketIo.Core.CloseNotices — what the calls of a connection notify.

Six places of a connection notify `onClose` or `onInitiativeClose`, and none
of them looks whether it has been done. What each call notifies is computed
exactly (the `…_notes` lemmas). From it follows what an event may add
(`Adds`) when the callback it leads to closes at most once, by `close` or by
how it ends, and when nothing has been told before.

* `CloseLast` — nothing comes after a close; it implies `ClosedOnce`, and
  `Adds` keeps it.
-/
import LinSocketIo.Core.ConnectionTheorems

namespace LinSocketIo.Core

open LinSocketIo.Base LinSocketIo.Utils

/-! ## Notifications in order -/

/-- The handler is told at most once that the connection is closed, and nothing is
connected, received or written after that. -/
structure ClosedOnce (ns : List Notice) : Prop where
  once : ns.countP Notice.isClose ≤ 1
  final : ns.Pairwise fun a b => a.isClose = true →
    b ≠ .onConnected ∧ (∀ dat, b ≠ .onData dat) ∧ b ≠ .onWrite

/-- Nothing comes after a close. -/
def CloseLast (ns : List Notice) : Prop := ns.Pairwise fun a _ => a.isClose = false

theorem CloseLast.closedOnce : ∀ {ns : List Notice}, CloseLast ns → ClosedOnce ns
  | [], _ => ⟨Nat.zero_le _, .nil⟩
  | [n], _ => ⟨List.countP_le_length, List.pairwise_singleton _ n⟩
  | n :: m :: ns, h => by
      obtain ⟨hn, hns⟩ := List.pairwise_cons.mp h
      obtain ⟨honce, hfinal⟩ := CloseLast.closedOnce hns
      have hn : n.isClose = false := hn m List.mem_cons_self
      refine ⟨?_, List.pairwise_cons.mpr ⟨fun b _ hclose => ?_, hfinal⟩⟩
      · rwa [List.countP_cons_of_neg (Bool.eq_false_iff.mp hn)]
      · rw [hn] at hclose
        cases hclose

theorem CloseLast.append {ns new : List Notice} (h : CloseLast ns) (hnew : CloseLast new)
    (hopen : ns.any Notice.isClose = true → new = []) : CloseLast (ns ++ new) := by
  refine List.pairwise_append.mpr ⟨h, hnew, fun a ha b hb => ?_⟩
  by_contra hclose
  rw [hopen (List.any_eq_true.mpr ⟨a, ha, (Bool.not_eq_false _).mp hclose⟩)] at hb
  exact List.not_mem_nil hb

/-- A notification that is no close, and then one close at most. -/
theorem closeLast_callback {n x : Notice} (hn : n.isClose = false) {k : Nat} {tail : List Notice}
    (h : k + tail.length ≤ 1) : CloseLast (n :: (List.replicate k x ++ tail)) := by
  refine List.pairwise_cons.mpr ⟨fun _ _ => hn, ?_⟩
  match k, tail, h with
  | 0, [], _ => exact .nil
  | 0, [t], _ => exact List.pairwise_singleton _ t
  | 1, [], _ => exact List.pairwise_singleton _ x
  | 0, _ :: _ :: _, h => simp at h
  | 1, _ :: _, h =>
    rw [List.length_cons] at h
    omega
  | k + 2, _, h => omega

/-! ## What the handler does to the connection -/

/-- The call is `close`. -/
def Act.isClose : Act → Bool
  | .close _ => true
  | .send _ => false

/-- How often a callback calls `close`. -/
def Callback.closes (cb : Callback) : Nat := cb.acts.countP Act.isClose

/-- What the calls of `close` in a callback notify. -/
def Callback.notices (cb : Callback) : List Notice :=
  List.replicate cb.closes (.onInitiativeClose "close")

/-- `onData` ends so that the connection is closed. -/
def Ends.rejects : Ends → Bool
  | .returns n => n < 0
  | .throws _ => true

/-- The callback throws a `socket_error`. -/
def Ends.isSocketError : Ends → Bool
  | .returns _ => false
  | .throws e => e.isSocketError

/-- The callback closes the connection at most once, by `close` or by its end. -/
def Callback.closesOnce (cb : Callback) (byEnd : Bool) : Bool := cb.closes + byEnd.toNat ≤ 1

/-- `::recv` fails, or the peer has shut off. -/
def RecvAnswer.isError : RecvAnswer → Bool
  | .gives bytes => bytes.isEmpty
  | .again => false
  | .fails _ => true

namespace Connection

variable {Out : Type}

/-- The handler has been told that the connection is closed. -/
def told (c : Connection Out) : Bool := c.notices.any Notice.isClose

/-- `reserve` in `onRead` finds no room within the limit. -/
def inputFull (c : Connection Out) : Bool :=
  let sz := (max (toInt c.input.space) (4 * 1024)).toNat
  c.input.space < sz && c.input.head + c.input.cap - c.input.tail < sz &&
    c.input.limit < c.input.size + sz

/-! ## What the calls notify -/

/-- The call notifies nobody and leaves the status. -/
def Quiet {α : Type} (x : ConnM Out α) : Prop :=
  ∀ ns st, Keeps (fun c => c.notices = ns ∧ c.status = st) x

/-- The status is not the one that a failed constructor sets. -/
theorem statusInv : OutputInv fun c : Connection Out => c.status ≠ .socketError where
  disconnected _ _ := Status.noConfusion
  removed _ hc := hc
  rest _ _ _ _ _ _ _ _ _ hc := hc

theorem Quiet.keeps_status {α : Type} {x : ConnM Out α} (hx : Quiet x) :
    Keeps (fun c => c.status ≠ .socketError) x := fun c hc =>
  wp_mono (hx c.notices c.status c ⟨rfl, rfl⟩) (fun _ _ h => h.2 ▸ hc) fun _ _ h => h.2 ▸ hc

theorem Quiet.keeps_notices {α : Type} {x : ConnM Out α} (hx : Quiet x) (ns : List Notice) :
    Keeps (fun c => c.notices = ns) x := fun c hc =>
  wp_mono (hx ns c.status c ⟨hc, rfl⟩) (fun _ _ h => h.1) fun _ _ h => h.1

/-- A call on the input buffer. -/
theorem wp_onInput {α : Type} (x : BufferM α) (c : Connection Out)
    {Q : α → Connection Out → Prop} {E : Exc → Connection Out → Prop} :
    wp (onInput x) c Q E ↔
      wp x c.input (fun a b => Q a { c with input := b })
        (fun e b => E (.buffer e) { c with input := b }) := by
  unfold wp EStateM.run onInput
  cases hx : x.run c.input with
  | ok a b =>
      rw [show x c.input = .ok a b from hx]
  | error e b =>
      rw [show x c.input = .error e b from hx]

theorem quiet_onInput {α : Type} (x : BufferM α) : Quiet (onInput x : ConnM Out α) := by
  intro ns st c hc
  rw [wp_onInput]
  exact wp_mono (Q := fun _ _ => True) (E := fun _ _ => True) (by unfold wp; split <;> trivial)
    (fun _ _ _ => hc) fun _ _ _ => hc

theorem quiet_socketSelect (remove add : Mask) : Quiet (socketSelect remove add : ConnM Out Unit) := by
  intro ns st c hc
  unfold wp EStateM.run socketSelect
  cases c.socket.select remove add with
  | ok s => exact hc
  | error what => exact hc

theorem quiet_outputFree (ns : List Notice) (st : Status) :
    OutputFree fun c : Connection Out => c.notices = ns ∧ c.status = st where
  select remove add := quiet_socketSelect remove add ns st
  output _ _ _ _ _ _ hc := hc
  sends _ _ hc := hc

theorem status_outputFree : OutputFree fun c : Connection Out => c.status ≠ .socketError where
  select remove add := (quiet_socketSelect remove add).keeps_status
  output _ _ _ _ _ _ hc := hc
  sends _ _ hc := hc

/-- Closing notifies exactly once, also when the handler throws. -/
theorem handleClose_notes (n : Notice) (throws : Option Exc) (c : Connection Out) :
    wp (handleClose n throws) c (fun _ c' => c'.notices = c.notices ++ [n]) (fun _ _ => False) := by
  cases throws with
  | none => rfl
  | some e => rfl

/-- `handleClose` in a place that does not use its result. -/
theorem wp_handleClose_notes (n : Notice) (throws : Option Exc) (c : Connection Out) {α : Type}
    (a : α) {Q : α → Connection Out → Prop} {E : Exc → Connection Out → Prop}
    (hQ : ∀ c', c'.notices = c.notices ++ [n] → Q a c') :
    wp (do let _ ← handleClose n throws; pure a) c Q E := by
  rw [wp_bind]
  exact wp_mono (handleClose_notes n throws c) (fun _ c' h => hQ c' h) fun _ _ h => h.elim

/-- `reserve` throws a `ResourceLimitException` only where there is no room. -/
theorem reserve_full (fresh : Nat → UInt8) (n : Nat) (b : ByteBuffer) :
    wp (ByteBuffer.reserve fresh n) b (fun _ _ => True)
      (fun e _ => e ≠ .hangs →
        b.space < n ∧ b.head + b.cap - b.tail < n ∧ b.limit < b.size + n) := by
  unfold ByteBuffer.reserve ByteBuffer.alloc ByteBuffer.allocSize ByteBuffer.recycle
  simp only [wp_bind, wp_get, wp_ite, wp_pure, wp_modify, wp_throw]
  refine ⟨fun _ => trivial, fun hspace => ⟨fun _ => trivial, fun hroom => ⟨fun hlimit _ => ?_, ?_⟩⟩⟩
  · omega
  · refine fun _ => ⟨fun _ => ?_, fun _ => trivial⟩
    cases ByteBuffer.double (b.size + n) 65 b.cap with
    | some m => trivial
    | none => exact fun h => absurd rfl h

/-- The `try` block of `onRead`. It throws a `ResourceLimitException` only where the input
buffer is full, and it does not return where reading fails. -/
theorem receive_notes (io : Io) (c : Connection Out) :
    wp (receive io) c (fun _ c' => c'.notices = c.notices ∧ io.recv.isError = false)
      (fun e c' => c'.notices = c.notices ∧
        ∀ what, e = .buffer (.resourceLimit what) → c.inputFull = true) := by
  unfold receive
  simp only [wp_bind, wp_get, wp_onInput]
  refine wp_mono (reserve_full io.fresh _ c.input) (fun w b _ => ?_) fun e b hfull => ⟨trivial, ?_⟩
  · -- what follows only throws a `socket_error`
    cases hrecv : io.recv with
    | gives bytes =>
      cases bytes with
      | nil => exact ⟨rfl, fun _ h => by cases h⟩
      | cons byte bytes =>
        unfold socketRecv ByteBuffer.advance
        simp only [wp_pure, wp_ite, wp_bind, wp_modify, wp_onInput, wp_get, wp_set]
        exact ⟨fun _ => ⟨trivial, rfl⟩, fun _ => ⟨trivial, rfl⟩⟩
    | again =>
      unfold socketRecv
      simp only [wp_pure, wp_ite]
      exact ⟨fun h => absurd h (Nat.lt_irrefl 0), fun _ => ⟨trivial, rfl⟩⟩
    | fails what => exact ⟨rfl, fun _ h => by cases h⟩
  · rintro what he
    cases he
    obtain ⟨hspace, hroom, hlimit⟩ := hfull Stop.noConfusion
    simp only [inputFull, hspace, hroom, hlimit, decide_true, Bool.and_self]

section Handler

variable {send : SendCall → ConnM Out Nat} (hsend : ∀ s, Quiet (send s))

include hsend

theorem callSend_notes (s : SendCall) (c : Connection Out) :
    wp (callSend send s) c (fun _ c' => c'.notices = c.notices) (fun _ _ => False) := by
  unfold callSend
  simp only [wp_bind, wp_tryCatch, wp_pure, wp_modify]
  exact wp_mono (hsend s c.notices c.status c ⟨rfl, rfl⟩) (fun _ _ h => h.1) fun _ _ h => h.1

/-- The calls of a handler notify once for each `close`. -/
theorem acts_notes : ∀ (as : List Act) (c : Connection Out),
    wp (acts send as) c
      (fun _ c' => c'.notices = c.notices ++
        List.replicate (as.countP Act.isClose) (.onInitiativeClose "close"))
      (fun _ _ => False)
  | [], c => (List.append_nil c.notices).symm
  | .close throws :: as, c => by
      unfold acts
      rw [wp_bind]
      refine wp_handleClose_notes _ throws c () fun c1 h1 => ?_
      refine wp_mono (acts_notes as c1) (fun _ c2 h2 => ?_) fun _ _ h => h
      rw [h2, h1, List.append_assoc, List.countP_cons_of_pos rfl, List.replicate_succ]
      rfl
  | .send s :: as, c => by
      unfold acts
      rw [wp_bind]
      refine wp_mono (callSend_notes hsend s c) (fun _ c1 h1 => ?_) fun _ _ h => h
      refine wp_mono (acts_notes as c1) (fun _ c2 h2 => ?_) fun _ _ h => h
      rw [h2, h1, List.countP_cons_of_neg Bool.false_ne_true]

/-- A callback, and how it ends. -/
theorem callback_notes (cb : Callback) (c : Connection Out) :
    wp (callback send cb) c
      (fun r c' => cb.ends = .returns r ∧ c'.notices = c.notices ++ cb.notices)
      (fun e c' => cb.ends = .throws e ∧ c'.notices = c.notices ++ cb.notices) := by
  unfold callback
  rw [wp_bind]
  refine wp_mono (acts_notes hsend cb.acts c) (fun _ c1 h1 => ?_) fun _ _ h => h.elim
  cases cb.ends with
  | returns n => exact ⟨rfl, h1⟩
  | throws e => exact ⟨rfl, h1⟩

/-- A notification and its callback, in front of `k`. -/
theorem wp_notify_callback (n : Notice) (cb : Callback) (c : Connection Out) {α : Type}
    (k : Int → ConnM Out α) {Q : α → Connection Out → Prop} {E : Exc → Connection Out → Prop}
    (hret : ∀ r c', cb.ends = .returns r → c'.notices = c.notices ++ n :: cb.notices →
      wp (k r) c' Q E)
    (hthrow : ∀ e c', cb.ends = .throws e → c'.notices = c.notices ++ n :: cb.notices → E e c') :
    wp (do notify n; let r ← callback send cb; k r) c Q E := by
  unfold notify
  rw [wp_bind, wp_modify, wp_bind]
  refine wp_mono (callback_notes hsend cb _) (fun r c' h => ?_) fun e c' h => ?_
  · exact hret r c' h.1 (by rw [h.2, List.append_assoc]; rfl)
  · exact hthrow e c' h.1 (by rw [h.2, List.append_assoc]; rfl)

theorem handleOnData_notes (cb : Callback) (c : Connection Out) :
    wp (handleOnData send cb) c
      (fun r c' => (r < 0 ↔ cb.ends.rejects = true) ∧
        c'.notices = c.notices ++ .onData c.input.contents :: cb.notices)
      (fun _ _ => False) := by
  unfold handleOnData
  rw [wp_tryCatch, wp_bind, wp_get, ← bind_pure (callback send cb)]
  refine wp_notify_callback hsend _ cb c _ (fun r c' hends h => ⟨?_, h⟩) fun e c' hends h => ⟨?_, h⟩
  · simp [hends, Ends.rejects]
  · simp [hends, Ends.rejects]

/-- The call notifies `n`, what the callback closes, and one more close if `byEnd` says so. -/
def Notifies (n : Notice) (cb : Callback) (byEnd : Bool) (c c' : Connection Out) : Prop :=
  ∃ tail : List Notice, tail.length = byEnd.toNat ∧
    c'.notices = c.notices ++ n :: (cb.notices ++ tail)

omit hsend in
theorem Notifies.of_eq {n : Notice} {cb : Callback} {c c' : Connection Out}
    (h : c'.notices = c.notices ++ n :: cb.notices) : Notifies n cb false c c' :=
  ⟨[], rfl, by rw [h, List.append_nil]⟩

omit hsend in
theorem Notifies.of_close {n x : Notice} {cb : Callback} {c c1 c' : Connection Out}
    (h1 : c1.notices = c.notices ++ n :: cb.notices) (h : c'.notices = c1.notices ++ [x]) :
    Notifies n cb true c c' :=
  ⟨[x], rfl, by rw [h, h1, List.append_assoc, List.cons_append]⟩

theorem handleOnConnected_notes (cb : Callback) (throws : Option Exc) (c : Connection Out) :
    wp (handleOnConnected send cb throws) c
      (fun _ => Notifies .onConnected cb cb.ends.isThrow c) (fun _ _ => False) := by
  unfold handleOnConnected
  rw [wp_tryCatch]
  refine wp_notify_callback hsend _ cb c _ (fun r c' hends h => ?_) fun e c' hends h => ?_
  · rw [hends]
    exact .of_eq h
  · rw [hends]
    exact wp_handleClose_notes _ throws c' false fun c2 h2 => .of_close h h2

/-- The end of `onRead`. -/
theorem deliver_notes (io : Io) (c : Connection Out) :
    wp (deliver send io) c
      (fun _ => Notifies (.onData c.input.contents) io.handler io.handler.ends.rejects c)
      (fun _ => Notifies (.onData c.input.contents) io.handler io.handler.ends.rejects c) := by
  unfold deliver
  rw [wp_bind]
  refine wp_mono (handleOnData_notes hsend io.handler c) (fun r c1 h1 => ?_) fun _ _ h => h.elim
  obtain ⟨hneg, h1⟩ := h1
  rw [wp_ite]
  refine ⟨fun hret => ?_, fun hret => ?_⟩
  · have hkeep : io.handler.ends.rejects = false := by
      rw [← Bool.not_eq_true, ← hneg]
      omega
    rw [wp_bind, hkeep]
    refine wp_mono (quiet_onInput _ c1.notices c1.status c1 ⟨rfl, rfl⟩) (fun _ c2 h2 => .of_eq ?_)
      fun _ c2 h2 => .of_eq ?_
    · rw [h2.1, h1]
    · rw [h2.1, h1]
  · have hclose : io.handler.ends.rejects = true := hneg.mp (by omega)
    rw [hclose]
    exact wp_handleClose_notes _ _ c1 () fun c2 h2 => .of_close h1 h2

/-- What `onWrite` notifies, for a `flush` that ends with `f`. -/
def Written (f : Flush) (cb : Callback) (c c' : Connection Out) : Prop :=
  match f with
  | .blocked => c'.notices = c.notices
  | .drained => Notifies .onWrite cb cb.ends.isSocketError c c'
  | .failed => ∃ x, c'.notices = c.notices ++ [x]

/-- `onWrite`: `flush` throws, or leaves something, or the handler is notified. -/
theorem onWrite_notes {flush : ConnM Out Bool} {f : Flush} (io : Io) (c : Connection Out)
    (hflush : wp flush c
      (fun b c' => c'.notices = c.notices ∧ f = if b then .drained else .blocked)
      (fun e c' => c'.notices = c.notices ∧ f = .failed ∧ ∃ what, e = .socketError what)) :
    wp (onWrite send flush io) c (fun _ => Written f io.handler c)
      (fun _ => Written f io.handler c) := by
  unfold onWrite
  rw [wp_tryCatch, wp_bind]
  refine wp_mono hflush (fun b c1 h1 => ?_) fun e c1 h1 => ?_
  · obtain ⟨hsame, rfl⟩ := h1
    rw [wp_ite]
    refine ⟨fun hb => ?_, fun hb => ?_⟩
    · rw [if_pos hb]
      refine wp_notify_callback hsend _ io.handler c1 _ (fun r c2 hends h2 => ?_)
        fun e c2 hends h2 => ?_
      · rw [hsame] at h2
        unfold Written
        rw [hends]
        exact .of_eq h2
      · rw [hsame] at h2
        unfold Written
        rw [hends]
        cases e with
        | socketError what => exact wp_handleClose_notes _ _ c2 () fun c3 h3 => .of_close h2 h3
        | buffer stop => exact .of_eq h2
        | other what => exact .of_eq h2
    · rw [if_neg hb]
      exact hsame
  · obtain ⟨hsame, rfl, what, rfl⟩ := h1
    exact wp_handleClose_notes _ _ c1 () fun c2 h2 => ⟨_, hsame ▸ h2⟩

end Handler

/-! ## What an event may add -/

/-- The call tells nothing after a close. -/
def Adds (c c' : Connection Out) : Prop :=
  ∃ new, c'.notices = c.notices ++ new ∧ CloseLast new ∧ (c.told = true → new = [])

variable {c c1 c' : Connection Out}

theorem Adds.closeLast (h : Adds c c') (hc : CloseLast c.notices) : CloseLast c'.notices := by
  obtain ⟨new, hnew, hlast, hopen⟩ := h
  rw [hnew]
  exact hc.append hlast hopen

theorem Adds.same (h : c'.notices = c.notices) : Adds c c' :=
  ⟨[], by rw [h, List.append_nil], .nil, fun _ => rfl⟩

theorem Adds.close (htold : c.told = false) {x : Notice} (h : c'.notices = c.notices ++ [x]) :
    Adds c c' :=
  ⟨[x], h, List.pairwise_singleton _ x, fun ht => by rw [htold] at ht; cases ht⟩

theorem Adds.notifies (htold : c.told = false) {n : Notice} (hn : n.isClose = false)
    {cb : Callback} {byEnd : Bool} (hcb : cb.closesOnce byEnd = true)
    (h : Notifies n cb byEnd c c') : Adds c c' := by
  obtain ⟨tail, htail, hnew⟩ := h
  refine ⟨_, hnew, closeLast_callback hn ?_, fun ht => by rw [htold] at ht; cases ht⟩
  rw [htail]
  exact of_decide_eq_true hcb

/-- Nothing was told before. -/
theorem Adds.trans (h1 : c1.notices = c.notices) (h : Adds c1 c') : Adds c c' := by
  obtain ⟨new, hnew, hlast, hopen⟩ := h
  refine ⟨new, by rw [hnew, h1], hlast, fun ht => hopen ?_⟩
  rw [told, h1]
  exact ht

theorem Written.adds {f : Flush} {io : Io} (h : Written f io.handler c c')
    (htold : c.told = false)
    (honce : f = .drained → io.handler.closesOnce io.handler.ends.isSocketError = true) :
    Adds c c' := by
  cases f with
  | blocked => exact .same h
  | failed =>
    obtain ⟨x, hx⟩ := h
    exact .close htold hx
  | drained => exact .notifies htold rfl (honce rfl) h

/-- `handleClose` in a place that does not use its result. -/
theorem handleClose_adds (n : Notice) (throws : Option Exc) (htold : c.told = false) {α : Type}
    (a : α) :
    wp (do let _ ← handleClose n throws; pure a) c (fun _ => Adds c) (fun _ => Adds c) :=
  wp_handleClose_notes n throws c a fun _ h => .close htold h

theorem setKeepaliveTimeout_adds (msec : Int) :
    wp (setKeepaliveTimeout msec) c (fun _ => Adds c) (fun _ => Adds c) := by
  unfold setKeepaliveTimeout selectTimeout
  simp only [wp_ite, wp_bind, wp_modify]
  exact ⟨fun _ => .same rfl, fun _ => .same rfl⟩

section Handler

variable {send : SendCall → ConnM Out Nat} (hsend : ∀ s, Quiet (send s))

theorem onTimeout_adds (io : Io) (htold : c.told = false) :
    wp (onTimeout io) c (fun _ => Adds c) (fun _ => Adds c) := by
  unfold onTimeout selectTimeout
  simp only [wp_bind, wp_get, wp_ite, wp_modify]
  exact ⟨fun _ => ⟨fun _ => .same rfl, fun _ => (wp_bind _ _ _).mp (handleClose_adds _ _ htold ())⟩,
    fun _ => .same rfl⟩

include hsend in
/-- `onRead`, whose `catch` block goes on only after a full input buffer. -/
theorem read_adds {onReadCatch : Exc → ConnM Out Bool} {io : Io} (htold : c.told = false)
    (hroom : c.inputFull = false)
    (honce : io.recv.isError = true ∨ io.handler.closesOnce io.handler.ends.rejects = true)
    (hcatch : ∀ e c1, (∀ what, e ≠ .buffer (.resourceLimit what)) → c1.notices = c.notices →
      wp (onReadCatch e) c1 (fun goOn c2 => goOn = false ∧ Adds c c2) (fun _ => Adds c)) :
    wp (do
      modify fun c => { c with lastRecvTs := c.now }
      let goOn ← try
          receive io
          pure true
        catch e => onReadCatch e
      if goOn then deliver send io) c (fun _ => Adds c) (fun _ => Adds c) := by
  rw [wp_bind, wp_modify, wp_bind, wp_tryCatch, wp_bind]
  refine wp_mono (receive_notes io { c with lastRecvTs := c.now }) (fun _ c1 h1 => ?_)
    fun e c1 h1 => ?_
  · obtain ⟨hsame, hrecv⟩ := h1
    have honce := honce.resolve_left (Bool.eq_false_iff.mp hrecv)
    have hopen : c1.told = false := by rw [told, hsame]; exact htold
    rw [wp_pure, if_pos rfl]
    exact wp_mono (deliver_notes hsend io c1)
      (fun _ _ h => .trans hsame (.notifies hopen rfl honce h))
      fun _ _ h => .trans hsame (.notifies hopen rfl honce h)
  · obtain ⟨hsame, hfull⟩ := h1
    have hother (what : String) : e ≠ .buffer (.resourceLimit what) := fun he => by
      have hfull : c.inputFull = true := hfull what he
      rw [hroom] at hfull
      cases hfull
    refine wp_mono (hcatch e c1 hother hsame) (fun goOn c2 h2 => ?_) fun _ _ h2 => h2
    rw [h2.1, if_neg Bool.false_ne_true]
    exact h2.2

include hsend in
theorem clientOnTimeout_adds (io : Io) (htold : c.told = false)
    (honce : c.receivedLately = true → io.handler.closesOnce false = true) :
    wp (clientOnTimeout send io) c (fun _ => Adds c) (fun _ => Adds c) := by
  unfold clientOnTimeout heartbeat
  simp only [bind_assoc, pure_bind]
  rw [wp_bind, wp_get, wp_ite]
  refine ⟨fun hlate => ?_, fun _ => handleClose_adds _ _ htold ()⟩
  have hadds {c1 : Connection Out}
      (h1 : c1.notices = c.notices ++ .onHeartbeat :: io.handler.notices) : Adds c c1 := .notifies htold rfl (honce hlate) (.of_eq h1)
  exact wp_notify_callback hsend _ io.handler c _ (fun _ _ _ h1 => hadds h1)
    fun _ _ _ h1 => hadds h1

end Handler

end Connection

end LinSocketIo.Core
