/-
LinSocketIo.Core.Delivery — how what a connection receives is handed to its
handler.

Four places call `onData`: `onRead` of both kinds of connection, and
`createUdpConnection` twice, with the datagrams that the listener's socket
has got. What each of them owes the handler is one contract (`Treats`): the
call shows what was left over and behind it what came in, counts what came
in, keeps what the handler has not used, and closes the connection if the
handler says so.

* `tcp_alike` — `onRead` keeps the contract, in every run.
* `udp_alike_iff` — a run of a UDP connection keeps it exactly if the
  manager's calls of `onData` are of the few kinds in which neglecting it
  makes no difference (`Event.harmless`, `Start.harmless`).
* `alike_iff` — both together.
-/
import LinSocketIo.Core.CloseTheorems
import LinSocketIo.Utils.ByteBufferTheorems

namespace LinSocketIo.Core

open LinSocketIo.Base LinSocketIo.Utils

/-- What a call of `onData` amounts to for its caller. -/
def Ends.result : Ends → Int
  | .returns n => n
  | .throws _ => -1

namespace Connection

variable {Out : Type}

/-! ## The contract -/

/-- The data of the calls of `onData`. -/
def shown (c : Connection Out) : List (List UInt8) := c.notices.filterMap Notice.dat

/-- A call of `onData` that ends with `ends`, for `dat` that has come in. -/
structure Treats (dat : List UInt8) (ends : Ends) (c c' : Connection Out) : Prop where
  presented : c'.shown = c.shown ++ [c.input.contents ++ dat]
  counted : c'.recvBytes = c.recvBytes + UInt64.ofNat dat.length
  kept : ∀ n, ends = .returns n → 0 ≤ n →
    c'.input.contents = (c.input.contents ++ dat).drop n.toNat
  closed : ∀ n, ends = .returns n → n < 0 → c'.status = .disconnected

/-- No call of `onData`, and what is left over stays. -/
structure Leaves (c c' : Connection Out) : Prop where
  shown : c'.shown = c.shown
  counted : c'.recvBytes = c.recvBytes
  kept : c'.input.contents = c.input.contents

/-- The contract for an event that delivers `d`, or nothing. -/
def Alike (d : Option (List UInt8 × Ends)) (c c' : Connection Out) : Prop :=
  match d with
  | some (dat, ends) => Treats dat ends c c'
  | none => Leaves c c'

/-- What `recv` gives to `onRead`; `none` where `onRead` ends there. -/
def arrived (c : Connection Out) (io : Io) : Option (List UInt8) :=
  let sz := max (toInt c.input.space) (4 * 1024)
  if c.inputFull then some []
  else
    match io.recv with
    | .gives [] => none
    | .gives bytes => some (bytes.take (sz - 1).toNat)
    | .again => some []
    | .fails _ => none

/-- What `onRead` delivers, if the socket is connected. -/
def reads (c : Connection Out) (io : Io) : Option (List UInt8 × Ends) :=
  if c.socket.connected then (c.arrived io).map fun dat => (dat, io.handler.ends) else none

/-! ## What is not reading -/

/-- Nothing is read, and no data is shown. -/
structure Rests (c c' : Connection Out) : Prop where
  shown : c'.shown = c.shown
  counted : c'.recvBytes = c.recvBytes
  input : c'.input = c.input

theorem Rests.refl (c : Connection Out) : Rests c c := ⟨rfl, rfl, rfl⟩

theorem Rests.leaves {c c' : Connection Out} (h : Rests c c') : Leaves c c' :=
  ⟨h.shown, h.counted, by rw [h.input]⟩

theorem shown_notify {n : Notice} (hn : n.dat = none) (ns : List Notice) :
    (ns ++ [n]).filterMap Notice.dat = ns.filterMap Notice.dat := by
  rw [List.filterMap_append, List.filterMap_cons_none hn, List.filterMap_nil, List.append_nil]

theorem rests_receiveInv (c : Connection Out) : ReceiveInv (Rests c) where
  disconnected _ h := ⟨h.shown, h.counted, h.input⟩
  removed _ h := ⟨h.shown, h.counted, h.input⟩
  rest _ _ _ _ _ _ h := ⟨h.shown, h.counted, h.input⟩
  notified c' _ hn h := ⟨(shown_notify hn c'.notices).trans h.shown, h.counted, h.input⟩
  select remove add c1 h := by
    unfold wp EStateM.run socketSelect
    cases c1.socket.select remove add with
    | ok s => exact ⟨h.shown, h.counted, h.input⟩
    | error what => exact h
  output _ _ _ _ _ _ h := ⟨h.shown, h.counted, h.input⟩
  sends _ _ h := ⟨h.shown, h.counted, h.input⟩
  established _ h := ⟨h.shown, h.counted, h.input⟩
  connected _ h := ⟨h.shown, h.counted, h.input⟩

/-- Closing in a place that does not use its result. -/
theorem handleClose_rests {n : Notice} (hn : n.dat = none) (throws : Option Exc)
    (c : Connection Out) :
    wp (handleClose n throws) c (fun _ c' => Rests c c' ∧ c'.status = .disconnected)
      (fun _ _ => False) := by
  refine wp_mono (wp_and (keeps_handleClose (rests_receiveInv c).toControlInv hn throws c (.refl c))
    (?_ : wp _ _ (fun _ c' => c'.status = .disconnected) (fun _ _ => False)))
    (fun _ _ h => h) fun _ _ h => h.2
  cases throws with
  | none => rfl
  | some e => rfl

/-! ## Reading -/

/-- `dat` has come in behind what was left over. -/
structure Took (dat : List UInt8) (c c' : Connection Out) : Prop where
  shown : c'.shown = c.shown
  counted : c'.recvBytes = c.recvBytes + UInt64.ofNat dat.length
  contents : c'.input.contents = c.input.contents ++ dat
  wf : c'.input.Wf

theorem Rests.took {c c' : Connection Out} (h : Rests c c') (hwf : c.input.Wf) : Took [] c c' :=
  ⟨h.shown, h.counted.trans (UInt64.add_zero _).symm, by rw [h.input, List.append_nil],
    h.input ▸ hwf⟩

theorem Took.trans_rests {dat : List UInt8} {c c1 c' : Connection Out} (h : Took dat c c1)
    (h' : Rests c1 c') : Took dat c c' :=
  ⟨h'.shown.trans h.shown, h'.counted.trans h.counted, by rw [h'.input, h.contents],
    h'.input ▸ h.wf⟩

theorem Took.leaves {c c' : Connection Out} (h : Took [] c c') : Leaves c c' :=
  ⟨h.shown, h.counted.trans (UInt64.add_zero _), h.contents.trans (List.append_nil _)⟩

/-- There is no room for `n` bytes within the limit. -/
def Over (b : ByteBuffer) (n : Nat) : Prop :=
  b.space < n ∧ b.head + b.cap - b.tail < n ∧ b.limit < b.size + n

theorem reserve_over {b : ByteBuffer} {n : Nat} (fresh : Nat → UInt8) (h : Over b n) :
    (ByteBuffer.reserve fresh n).run b = .error (.resourceLimit "buffer overflow") b := by
  obtain ⟨hspace, hhole, hlimit⟩ := h
  simp only [ByteBuffer.reserve, ByteBuffer.alloc, ByteBuffer.allocSize, EStateM.run_bind,
    EStateM.run_get, if_neg (Nat.not_le.mpr hspace), if_neg (Nat.not_le.mpr hhole),
    if_pos (show b.size + n > b.limit from hlimit)]
  rfl

/-- `reserve` throws exactly where there is no room. -/
theorem reserve_iff {b : ByteBuffer} (hwf : b.Wf) (fresh : Nat → UInt8) (n : Nat) :
    wp (ByteBuffer.reserve fresh n) b
      (fun w b' => ¬ Over b n ∧ w = b'.tail ∧ ByteBuffer.Room b n b')
      (fun e b' => Over b n ∧ b' = b ∧ ∃ what, e = .resourceLimit what) := by
  have hthrows := reserve_full fresh n b
  unfold wp at hthrows ⊢
  rcases ByteBuffer.reserve_spec hwf fresh n with ⟨b', hr, hroom⟩ | ⟨hr, -⟩
  · rw [hr]
    refine ⟨fun hover => ?_, rfl, hroom⟩
    rw [reserve_over fresh hover] at hr
    cases hr
  · rw [hr] at hthrows ⊢
    exact ⟨hthrows (by decide), rfl, _, rfl⟩

/-- Bytes and a terminator are copied behind the contents, and the tail moves behind the
bytes. -/
theorem terminated_spec {b : ByteBuffer} (hb : b.Wf) {dat : List UInt8}
    (hdat : dat.length + 1 ≤ b.space) :
    { b with
        mem := store b.mem b.tail (dat ++ [0])
        tail := min (b.tail + dat.length) b.cap }.markHighWater.Wf ∧
      { b with
        mem := store b.mem b.tail (dat ++ [0])
        tail := min (b.tail + dat.length) b.cap }.markHighWater.contents = b.contents ++ dat := by
  have hlen := ByteBuffer.length_contents hb
  have hhead := hb.head
  have hspace : b.space = b.cap - b.tail := rfl
  have hsize : b.size = b.tail - b.head := rfl
  have hroom : (dat ++ [0]).length ≤ b.space := by
    rw [List.length_append]
    exact hdat
  obtain ⟨hpush, hcont⟩ := ByteBuffer.wf_push hb hroom
  have htail : min (b.tail + dat.length) b.cap = b.head + (b.size + dat.length) := by omega
  obtain ⟨hcut, hcont'⟩ := ByteBuffer.wf_cut hpush (m := b.size + dat.length) (by
    simp only [ByteBuffer.size, List.length_append, List.length_singleton]
    omega)
  rw [htail]
  obtain ⟨hwf, hmark⟩ := ByteBuffer.wf_markHighWater hcut
  refine ⟨hwf, hmark.trans (hcont'.trans ?_)⟩
  rw [hcont, ← List.append_assoc, List.take_append_of_le_length, List.take_of_length_le]
  · rw [List.length_append]; omega
  · rw [List.length_append]; omega

theorem inputFull_iff {c : Connection Out} {sz : Int}
    (hsz : sz = max (toInt c.input.space) (4 * 1024)) :
    c.inputFull = true ↔ Over c.input sz.toNat := by
  simp only [inputFull, Over, Bool.and_eq_true, decide_eq_true_eq, and_assoc, hsz]

/-- The `try` block of `onRead`. -/
theorem receive_spec {c : Connection Out} (hwf : c.input.Wf) (io : Io) :
    wp (receive io) c
      (fun _ c' => ∃ dat, c.arrived io = some dat ∧ Took dat c c')
      (fun e c' => Took [] c c' ∧
        ((∃ what, e = .buffer (.resourceLimit what)) ∧ c.arrived io = some [] ∨
          (∃ what, e = .socketError what) ∧ c.arrived io = none)) := by
  unfold receive
  rw [wp_bind, wp_get]
  simp only [arrived]
  obtain ⟨sz, hsz⟩ : ∃ sz, sz = max (toInt c.input.space) (4 * 1024) := ⟨_, rfl⟩
  have hfull := inputFull_iff hsz
  have hpos : 4096 ≤ sz := by omega
  rw [← hsz]
  clear hsz
  rw [wp_bind, wp_onInput]
  refine wp_mono (reserve_iff hwf io.fresh sz.toNat) (fun w b h => ?_) fun e b h => ?_
  · obtain ⟨hover, rfl, hroom⟩ := h
    rw [if_neg (fun h => hover (hfull.mp h))]
    have hreserved : Took [] c { c with input := b } :=
      ⟨rfl, (UInt64.add_zero _).symm, by rw [List.append_nil]; exact hroom.contents, hroom.wf⟩
    match io.recv with
    | .gives [] => exact ⟨hreserved, Or.inr ⟨⟨_, rfl⟩, rfl⟩⟩
    | .gives (byte :: bytes) =>
      have hdat : ((byte :: bytes).take (sz - 1).toNat).length + 1 ≤ b.space := by
        have hspace := hroom.space
        rw [List.length_take]
        omega
      have hsome : ((byte :: bytes).take (sz - 1).toNat).length > 0 := by
        rw [List.length_take, List.length_cons]
        omega
      unfold socketRecv ByteBuffer.advance
      simp only [wp_bind, wp_pure]
      generalize (byte :: bytes).take (sz - 1).toNat = dat at hdat hsome
      obtain ⟨hwf', hcont⟩ := terminated_spec hroom.wf hdat
      simp only [if_pos hsome, wp_bind, wp_onInput, wp_modify, wp_get, wp_set]
      exact ⟨dat, rfl, rfl, rfl, hcont.trans (by rw [hroom.contents]), hwf'⟩
    | .again =>
      unfold socketRecv
      simp only [wp_bind, wp_pure, wp_ite]
      exact ⟨fun h => absurd h (Nat.lt_irrefl 0), fun _ => ⟨[], rfl, hreserved⟩⟩
    | .fails what => exact ⟨hreserved, Or.inr ⟨⟨_, rfl⟩, rfl⟩⟩
  · obtain ⟨hover, rfl, what, rfl⟩ := h
    exact ⟨(Rests.refl c).took hwf, Or.inl ⟨⟨_, rfl⟩, if_pos (hfull.mpr hover)⟩⟩

section Handler

variable {send : SendCall → ConnM Out Nat} (hsend : ∀ s, Quiet (send s))
  (hrests : ∀ (c : Connection Out) s, Keeps (Rests c) (callSend send s))

include hsend hrests

theorem callback_rests (cb : Callback) (c : Connection Out) :
    wp (callback send cb) c (fun r c' => cb.ends = .returns r ∧ Rests c c')
      (fun e c' => cb.ends = .throws e ∧ Rests c c') :=
  wp_mono (wp_and (callback_notes hsend cb c)
    (keeps_callback (rests_receiveInv c).toControlInv (hrests c) cb c (.refl c)))
    (fun _ _ h => ⟨h.1.1, h.2⟩) fun _ _ h => ⟨h.1.1, h.2⟩

/-- `onData` is called with what the input buffer holds. -/
theorem handleOnData_shows (cb : Callback) (c : Connection Out) :
    wp (handleOnData send cb) c
      (fun r c' => r = cb.ends.result ∧
        Rests { c with notices := c.notices ++ [.onData c.input.contents] } c')
      (fun _ _ => False) := by
  unfold handleOnData notify
  rw [wp_tryCatch, wp_bind, wp_get, wp_bind, wp_modify]
  refine wp_mono (callback_rests hsend hrests cb _) (fun r c' h => ⟨?_, h.2⟩)
    fun e c' h => ⟨?_, h.2⟩
  · rw [h.1, Ends.result]
  · rw [h.1, Ends.result]

/-- The end of `onRead` keeps the contract. -/
theorem deliver_treats {dat : List UInt8} {c c1 : Connection Out} (h : Took dat c c1) (io : Io) :
    wp (deliver send io) c1 (fun _ c' => Treats dat io.handler.ends c c' ∧ c'.input.Wf)
      (fun _ _ => False) := by
  unfold deliver
  rw [wp_bind]
  refine wp_mono (handleOnData_shows hsend hrests io.handler c1) (fun r c2 h2 => ?_)
    fun _ _ h => h
  obtain ⟨rfl, h2⟩ := h2
  have hshown : c2.shown = c.shown ++ [c.input.contents ++ dat] := by
    rw [h2.shown, shown, List.filterMap_append, ← h.contents, ← h.shown]
    rfl
  have hcounted : c2.recvBytes = c.recvBytes + UInt64.ofNat dat.length := h2.counted.trans h.counted
  have hinput : c2.input = c1.input := h2.input
  rw [wp_ite]
  refine ⟨fun hret => ?_, fun hret => ?_⟩
  · rw [wp_bind, wp_onInput, hinput]
    obtain ⟨r, b, hr, hwf, hcont, -⟩ := ByteBuffer.erase_spec h.wf io.handler.ends.result.toNat
    unfold wp
    rw [hr]
    refine ⟨⟨hshown, hcounted, fun n hn _ => ?_, fun n hn hneg => ?_⟩, hwf⟩
    · -- erasing all is erasing as much as there is
      have hlen := ByteBuffer.length_contents h.wf
      have hcap := h.wf.cap
      have htail := h.wf.tail
      have hsize : c1.input.size = c1.input.tail - c1.input.head := rfl
      have hres : io.handler.ends.result = n := by rw [hn, Ends.result]
      rw [hres] at hcont
      rw [← h.contents]
      refine hcont.trans ?_
      split
      · next hall =>
        rw [hall, List.drop_of_length_le]
        rw [hlen, sizeMax]
        omega
      · rcases Nat.le_total n.toNat c1.input.contents.length with hle | hle
        · rw [Nat.min_eq_left hle]
        · rw [Nat.min_eq_right hle, List.drop_of_length_le (Nat.le_refl _),
            List.drop_of_length_le hle]
    · rw [hn, Ends.result] at hret
      omega
  · rw [wp_bind]
    refine wp_mono (handleClose_rests rfl _ c2) (fun _ c3 h3 => ?_) fun _ _ h => h
    refine ⟨⟨?_, ?_, fun n hn hpos => ?_, fun _ _ _ => h3.2⟩, ?_⟩
    · rw [h3.1.shown, hshown]
    · rw [h3.1.counted, hcounted]
    · rw [hn, Ends.result] at hret
      exact absurd hpos hret
    · rw [h3.1.input, hinput]
      exact h.wf

/-- `onRead` keeps the contract, whatever else it does with the two exceptions. -/
theorem onRead_treats {handle : Exc → ConnM Out Bool}
    (hlimit : ∀ what (c : Connection Out), wp (handle (.buffer (.resourceLimit what))) c
      (fun b c' => b = true ∧ Rests c c') (fun _ _ => False))
    (hsocket : ∀ what (c : Connection Out), wp (handle (.socketError what)) c
      (fun b c' => b = false ∧ Rests c c') (fun _ _ => False))
    {c : Connection Out} (hwf : c.input.Wf) (io : Io) :
    wp (do
      modify fun c => { c with lastRecvTs := c.now }
      let goOn ← try
          receive io
          pure true
        catch e => handle e
      if goOn then deliver send io) c
      (fun _ c' => Alike ((c.arrived io).map fun dat => (dat, io.handler.ends)) c c' ∧ c'.input.Wf)
      (fun _ _ => False) := by
  have hend {dat : List UInt8} {c1 : Connection Out}
      (h : Took dat { c with lastRecvTs := c.now } c1) :=
    deliver_treats hsend hrests (c := c) ⟨h.shown, h.counted, h.contents, h.wf⟩ io
  rw [wp_bind, wp_modify, wp_bind, wp_tryCatch, wp_bind]
  refine wp_mono (receive_spec (c := { c with lastRecvTs := c.now }) hwf io)
    (fun _ c1 h1 => ?_) fun e c1 h1 => ?_
  · obtain ⟨dat, hdat, h1⟩ := h1
    have hdat : c.arrived io = some dat := hdat
    rw [wp_pure, if_pos rfl, hdat]
    exact hend h1
  · obtain ⟨h1, ⟨⟨what, rfl⟩, hdat⟩ | ⟨⟨what, rfl⟩, hdat⟩⟩ := h1
    · have hdat : c.arrived io = some [] := hdat
      refine wp_mono (hlimit what c1) (fun b c2 h2 => ?_) fun _ _ h => h
      rw [h2.1, if_pos rfl, hdat]
      exact hend (h1.trans_rests h2.2)
    · have hdat : c.arrived io = none := hdat
      refine wp_mono (hsocket what c1) (fun b c2 h2 => ?_) fun _ _ h => h
      have h2' := h1.trans_rests h2.2
      rw [h2.1, if_neg Bool.false_ne_true, hdat]
      exact ⟨⟨h2'.leaves.shown, h2'.leaves.counted, h2'.leaves.kept⟩, h2'.wf⟩

end Handler

/-! ## The manager's calls of `onData` -/

section Manager

variable {send : SendCall → ConnM Out Nat} (hsend : ∀ s, Quiet (send s))

include hsend

/-- Only `close` changes the status. -/
theorem acts_status : ∀ (as : List Act) (c : Connection Out),
    wp (acts send as) c
      (fun _ c' => c'.status =
        if as.countP Act.isClose = 0 then c.status else .disconnected)
      (fun _ _ => False)
  | [], _ => rfl
  | .close throws :: as, c => by
      unfold acts act close handleOnInitiativeClose
      rw [wp_bind, wp_bind]
      refine wp_mono (handleClose_rests rfl throws c) (fun _ c1 h1 => ?_) fun _ _ h => h
      rw [wp_pure]
      refine wp_mono (acts_status as c1) (fun _ c2 h2 => ?_) fun _ _ h => h
      rw [h2, h1.2, ite_self, List.countP_cons_of_pos rfl, if_neg (Nat.succ_ne_zero _)]
  | .send s :: as, c => by
      unfold acts act callSend
      simp only [wp_bind, wp_tryCatch, wp_pure, wp_modify]
      have hrest (c1 : Connection Out) (h1 : c1.status = c.status) (result : Option Nat) :
          wp (acts send as) { c1 with sends := c1.sends ++ [(s.dat, result)] }
            (fun _ c' => c'.status =
              if (Act.send s :: as).countP Act.isClose = 0 then c.status else .disconnected)
            (fun _ _ => False) := by
        refine wp_mono (acts_status as _) (fun _ c2 h2 => ?_) fun _ _ h => h
        rw [h2, List.countP_cons_of_neg Bool.false_ne_true, ← h1]
      exact wp_mono (hsend s c.notices c.status c ⟨rfl, rfl⟩)
        (fun n c1 h1 => hrest c1 h1.2 (some n)) fun _ c1 h1 => hrest c1 h1.2 none

theorem callback_status (cb : Callback) (c : Connection Out) :
    wp (callback send cb) c
      (fun _ c' => c'.status = if cb.closes = 0 then c.status else .disconnected)
      (fun _ c' => c'.status = if cb.closes = 0 then c.status else .disconnected) := by
  unfold callback
  rw [wp_bind]
  refine wp_mono (acts_status hsend cb.acts c) (fun _ c1 h1 => ?_) fun _ _ h => h.elim
  cases cb.ends with
  | returns n => exact h1
  | throws e => exact h1

end Manager

theorem keeps_select {I : Connection Out → Prop} {onConnected : ConnM Out Unit} {remove add : Mask}
    (hselect : ∀ remove add, Keeps I (socketSelect remove add)) (hconnected : Keeps I onConnected) :
    Keeps I (select onConnected remove add) :=
  keeps_ite (keeps_bind keeps_get fun _ => keeps_ite hconnected (hselect _ _)) (hselect _ _)

end Connection

namespace TcpConnection

open Connection

/-- What an event delivers. -/
def delivery (c : TcpConnection) : Event → Option (List UInt8 × Ends)
  | .readable io => c.reads io
  | .pass _ | .writable _ | .timeout _ | .close _ | .send _ | .setKeepaliveTimeout _
  | .inputLimit _ => none

/-- The limit of the input buffer stays below 1 GiB. -/
def Event.Fits (c : TcpConnection) : Event → Prop
  | .inputLimit n => max n c.input.size < 1073741824
  | .pass _ | .readable _ | .writable _ | .timeout _ | .close _ | .send _
  | .setKeepaliveTimeout _ => True

/-- The event keeps the contract. -/
def Event.Alike (c : TcpConnection) (e : Event) : Prop :=
  Connection.Alike (c.delivery e) c (after e.exec c)

theorem rests_callSend (c : TcpConnection) (s : SendCall) : Keeps (Rests c) (callSend send s) :=
  keeps_callSend_free (rests_receiveInv c) s

theorem onReadCatch_rests (io : Io) :
    (∀ what (c : TcpConnection), wp (onReadCatch io (.buffer (.resourceLimit what))) c
      (fun b c' => b = true ∧ Rests c c') (fun _ _ => False)) ∧
    ∀ what (c : TcpConnection), wp (onReadCatch io (.socketError what)) c
      (fun b c' => b = false ∧ Rests c c') (fun _ _ => False) := by
  refine ⟨fun what c => ?_, fun what c => ?_⟩
  · unfold onReadCatch handleOnClose
    rw [wp_bind]
    exact wp_mono (handleClose_rests rfl _ c) (fun _ _ h => ⟨rfl, h.1⟩) fun _ _ h => h
  · unfold onReadCatch handleOnClose
    rw [wp_bind]
    exact wp_mono (handleClose_rests rfl _ c) (fun _ _ h => ⟨rfl, h.1⟩) fun _ _ h => h

/-- Every event keeps the contract. -/
theorem exec_alike {c : TcpConnection} (hwf : c.input.Wf) {e : Event} (hfits : e.Fits c) :
    wp e.exec c (fun _ c' => Connection.Alike (c.delivery e) c c' ∧ c'.input.Wf)
      (fun _ c' => Connection.Alike (c.delivery e) c c' ∧ c'.input.Wf) := by
  have hrests {x : TcpM Unit} (hx : Keeps (Rests c) x) :
      wp x c (fun _ c' => Leaves c c' ∧ c'.input.Wf) (fun _ c' => Leaves c c' ∧ c'.input.Wf) :=
    wp_mono (hx c (.refl c)) (fun _ _ h => ⟨h.leaves, h.input ▸ hwf⟩)
      fun _ _ h => ⟨h.leaves, h.input ▸ hwf⟩
  have hI := rests_receiveInv c
  cases e with
  | readable io =>
    unfold Event.exec handleRead
    simp only [delivery, reads]
    rw [wp_bind, wp_get, wp_ite]
    refine ⟨fun hconn => ?_, fun hconn => ?_⟩
    · rw [if_pos hconn]
      exact wp_mono (onRead_treats quiet_send rests_callSend (onReadCatch_rests io).1
        (onReadCatch_rests io).2 hwf io) (fun _ _ h => h) fun _ _ h => h.elim
    · rw [if_neg hconn]
      exact hrests (keeps_connected hI io)
  | pass sec => exact ⟨⟨rfl, rfl, rfl⟩, hwf⟩
  | writable io => exact hrests (keeps_handleWrite hI io)
  | timeout io => exact hrests (keeps_handleTimeout hI io)
  | close throws => exact hrests (keeps_close hI.toControlInv throws)
  | send s => exact hrests (rests_callSend c s)
  | setKeepaliveTimeout msec => exact hrests (keeps_setKeepaliveTimeout hI.toControlInv msec)
  | inputLimit n =>
    have hlimit : toUInt32 (max n c.input.size) < 1073741824 :=
      Nat.lt_of_le_of_lt (Nat.mod_le _ _) hfits
    exact ⟨⟨rfl, rfl, rfl⟩, ByteBuffer.wf_setLimit hwf hlimit⟩

theorem createTcpConnection_rests (c : TcpConnection) (msec : Int) (handler : Callback) :
    Keeps (Rests c) (createTcpConnection msec handler) := by
  have hI := rests_receiveInv c
  refine keeps_bind (keeps_bind (keeps_modify fun _ h => ⟨h.shown, h.counted, h.input⟩) fun _ => ?_)
    fun _ => keeps_bind (keeps_modify fun _ h => ⟨h.shown, h.counted, h.input⟩) fun _ => ?_
  · exact keeps_bind (hI.select _ _) fun _ =>
      keeps_ite (keeps_selectTimeout hI.toControlInv _) (keeps_pure ())
  · exact keeps_bind (keeps_tell hI.toControlInv rfl) fun _ =>
      keeps_bind (keeps_callback hI.toControlInv (rests_callSend c) _) fun _ => keeps_pure ()

theorem createTcpClient_rests (c : TcpConnection) (msec : Int) (answer : ConnectAnswer) (io : Io) :
    Keeps (Rests c) (createTcpClient msec answer io) := by
  have hI := rests_receiveInv c
  have hset {f : TcpConnection → TcpConnection} (hf : ∀ c', Rests c' (f c')) :
      Keeps (Rests c) (modify f : TcpM Unit) := keeps_modify fun c' h =>
    ⟨(hf c').shown.trans h.shown, (hf c').counted.trans h.counted, (hf c').input.trans h.input⟩
  have hvalid : ∀ c' : TcpConnection, Rests c' { c' with socket := { c'.socket with valid := true } } :=
    fun _ => ⟨rfl, rfl, rfl⟩
  refine keeps_bind (keeps_tryCatch (keeps_bind ?_ fun _ => ?_) fun _ => ?_) fun _ =>
    keeps_bind keeps_get fun _ => keeps_ite (keeps_tell hI.toControlInv rfl)
      (hset fun _ => ⟨rfl, rfl, rfl⟩)
  · cases answer with
    | done => exact hset fun _ => ⟨rfl, rfl, rfl⟩
    | pending => exact keeps_bind (hset hvalid) fun _ => keeps_selectTimeout hI.toControlInv _
    | fails what => exact keeps_bind (hset hvalid) fun _ => keeps_throw _
  · exact keeps_select hI.select (keeps_onConnected hI _ io)
  · exact keeps_bind (hset fun _ => ⟨rfl, rfl, rfl⟩) fun _ =>
      keeps_bind (keeps_selectTimeout hI.toControlInv _) fun _ => keeps_socketRemove hI.toControlInv

/-- Creating a TCP connection delivers nothing. -/
theorem start_rests (now : Int) (stackIn stackOut : Nat → UInt8) (start : Start) :
    Rests (Connection.new .server 0 .connectting now stackIn (ByteBuffer.new true stackOut))
      (start.connection now stackIn stackOut) := by
  cases start with
  | accepted msec handler =>
    exact after_of_wp (createTcpConnection_rests _ msec handler _ ⟨rfl, rfl, rfl⟩)
  | client msec answer io =>
    exact after_of_wp (createTcpClient_rests _ msec answer io _ ⟨rfl, rfl, rfl⟩)

/-- **A TCP connection treats its handler alike**, at every event of every run. -/
theorem tcp_alike (now : Int) (stackIn stackOut : Nat → UInt8) (start : Start)
    {events : List Event} (hfits : (machine now stackIn stackOut start).AllSteps (fun c e => e.Fits c)
      (machine now stackIn stackOut start).init events) :
    (machine now stackIn stackOut start).AllSteps Event.Alike
      (machine now stackIn stackOut start).init events := by
  refine Machine.allSteps_of_invariant _ (P := fun c => c.input.Wf) (fun c e c' hwf hfits hstep => ?_)
    (fun c e hwf hfits => ?_) events ?_ hfits
  · obtain rfl := Option.some.inj hstep
    exact (after_of_wp (P := fun c' => Connection.Alike (c.delivery e) c c' ∧ c'.input.Wf)
      (exec_alike hwf hfits)).2
  · exact (after_of_wp (P := fun c' => Connection.Alike (c.delivery e) c c' ∧ c'.input.Wf)
      (exec_alike hwf hfits)).1
  · change (start.connection now stackIn stackOut).input.Wf
    rw [(start_rests now stackIn stackOut start).input]
    exact ByteBuffer.wf_new true stackIn

end TcpConnection

namespace UdpConnection

open Connection

/-- What an event delivers. -/
def delivery (c : UdpConnection) : Event → Option (List UInt8 × Ends)
  | .readable io => c.reads io
  | .datagram dat handler => if c.managed then some (dat, handler.ends) else none
  | .pass _ | .writable _ | .timeout _ | .close _ | .send _ | .setKeepaliveTimeout _ => none

/-- What creating the connection delivers: the first datagram, if `onConnected` returns. -/
def Start.delivery : Start → Option (List UInt8 × Ends)
  | .accepted _ dat connected received =>
    if connected.ends.isThrow then none else some (dat, received.ends)
  | .client _ _ => none

/-- The datagram has been received into the 4 KiB of the listener. -/
def Event.Fits : Event → Prop
  | .datagram dat _ => dat.length ≤ 4096
  | .pass _ | .readable _ | .writable _ | .timeout _ | .close _ | .send _
  | .setKeepaliveTimeout _ => True

/-- As for the later datagrams. -/
def Start.Fits : Start → Prop
  | .accepted _ dat _ _ => dat.length ≤ 4096
  | .client _ _ => True

/-- The event keeps the contract. -/
def Event.Alike (c : UdpConnection) (e : Event) : Prop :=
  Connection.Alike (c.delivery e) c (after e.exec c)

/-- The connection before anything has come in. -/
def blank (now : Int) (stackIn : Nat → UInt8) : UdpConnection :=
  Connection.new .server 0 .connectting now stackIn []

/-- Creating the connection keeps the contract. -/
def Start.Alike (now : Int) (stackIn : Nat → UInt8) (start : Start) : Prop :=
  Connection.Alike start.delivery (blank now stackIn) (start.connection now stackIn)

/-- The event is no datagram for `createUdpConnection`, or an empty one while nothing is
left over, and a handler that wants the connection closed has it closed. -/
def Event.Harmless (c : UdpConnection) : Event → Prop
  | .datagram dat handler => c.managed = true → c.input.contents = [] ∧ dat = [] ∧
      ∀ n, handler.ends = .returns n → n < 0 → c.status = .disconnected ∨ handler.closes ≠ 0
  | .pass _ | .readable _ | .writable _ | .timeout _ | .close _ | .send _
  | .setKeepaliveTimeout _ => True

/-- The handler uses all of the first datagram, or closes the connection itself if it wants
it closed; if it throws, the datagram is empty. -/
def Start.Harmless : Start → Prop
  | .accepted _ dat connected received => connected.ends.isThrow = false →
      match received.ends with
      | .returns n => (0 ≤ n → dat.length ≤ n.toNat) ∧
          (n < 0 → connected.closes ≠ 0 ∨ received.closes ≠ 0)
      | .throws _ => dat = []
  | .client _ _ => True

theorem rests_callSend (c : UdpConnection) (s : SendCall) : Keeps (Rests c) (callSend send s) :=
  keeps_callSend (rests_receiveInv c) s

theorem onReadCatch_rests (io : Io) :
    (∀ what (c : UdpConnection), wp (onReadCatch io (.buffer (.resourceLimit what))) c
      (fun b c' => b = true ∧ Rests c c') (fun _ _ => False)) ∧
    ∀ what (c : UdpConnection), wp (onReadCatch io (.socketError what)) c
      (fun b c' => b = false ∧ Rests c c') (fun _ _ => False) := by
  refine ⟨fun what c => ?_, fun what c => ⟨rfl, .refl c⟩⟩
  unfold onReadCatch handleOnClose
  rw [wp_bind]
  exact wp_mono (handleClose_rests rfl _ c) (fun _ _ h => ⟨rfl, h.1⟩) fun _ _ h => h

/-- A callback: nothing is read, and `close` is all that changes the status. -/
theorem callback_spec (cb : Callback) (c : UdpConnection) :
    wp (callback send cb) c
      (fun r c' => cb.ends = .returns r ∧ Rests c c' ∧
        c'.status = if cb.closes = 0 then c.status else .disconnected)
      (fun e c' => cb.ends = .throws e ∧ Rests c c' ∧
        c'.status = if cb.closes = 0 then c.status else .disconnected) :=
  wp_mono (wp_and (callback_rests quiet_send rests_callSend cb c) (callback_status quiet_send cb c))
    (fun _ _ h => ⟨h.1.1, h.1.2, h.2⟩) fun _ _ h => ⟨h.1.1, h.1.2, h.2⟩

/-- `onData` as the manager calls it shows the datagram and nothing else. -/
structure Passed (dat : List UInt8) (handler : Callback) (c c' : UdpConnection) : Prop where
  shown : c'.shown = c.shown ++ [dat]
  counted : c'.recvBytes = c.recvBytes
  input : c'.input = c.input
  status : c'.status = if handler.closes = 0 then c.status else .disconnected

theorem managerOnData_spec (dat : List UInt8) (handler : Callback) (c : UdpConnection) :
    wp (managerOnData dat handler) c
      (fun _ c' => (∃ n, handler.ends = .returns n) ∧ Passed dat handler c c')
      (fun _ c' => (∃ e, handler.ends = .throws e) ∧ Passed dat handler c c') := by
  unfold managerOnData notify
  rw [wp_bind, wp_modify, wp_bind]
  have hpassed {c' : UdpConnection} (h : Rests { c with notices := c.notices ++ [.onData dat] } c')
      (hstatus : c'.status = if handler.closes = 0 then c.status else .disconnected) :
      Passed dat handler c c' :=
    ⟨h.shown.trans List.filterMap_append, h.counted, h.input, hstatus⟩
  exact wp_mono (callback_spec handler _) (fun r _ h => ⟨⟨r, h.1⟩, hpassed h.2.1 h.2.2⟩)
    fun e _ h => ⟨⟨e, h.1⟩, hpassed h.2.1 h.2.2⟩

/-- Few bytes are counted only if there are none. -/
theorem count_iff {x : UInt64} {n : Nat} (hn : n ≤ 4096) : x = x + UInt64.ofNat n ↔ n = 0 := by
  constructor
  · intro h
    have hzero : UInt64.ofNat n = 0 := by simpa using h.symm
    have hmod : (UInt64.ofNat n).toNat = n % 2 ^ 64 := UInt64.toNat_ofNat'
    rw [hzero, Nat.mod_eq_of_lt (by omega)] at hmod
    exact hmod.symm
  · rintro rfl
    exact (UInt64.add_zero x).symm

/-- A datagram of a session that the manager knows. -/
theorem treats_iff {dat : List UInt8} (hdat : dat.length ≤ 4096) {handler : Callback}
    {c c' : UdpConnection} (h : Passed dat handler c c') :
    Treats dat handler.ends c c' ↔ c.input.contents = [] ∧ dat = [] ∧
      ∀ n, handler.ends = .returns n → n < 0 → c.status = .disconnected ∨ handler.closes ≠ 0 := by
  have hclosed : c'.status = .disconnected ↔ c.status = .disconnected ∨ handler.closes ≠ 0 := by
    rw [h.status]
    split
    · next hzero => simp only [hzero, ne_eq, not_true, or_false]
    · next hpos => simp only [hpos, ne_eq, not_false_iff, or_true]
  constructor
  · intro ht
    have hshown := ht.presented
    rw [h.shown, List.append_cancel_left_eq, List.singleton_inj] at hshown
    refine ⟨?_, ?_, fun n hn hneg => hclosed.mp (ht.closed n hn hneg)⟩
    · have hlen := congrArg List.length hshown
      rw [List.length_append] at hlen
      exact List.eq_nil_of_length_eq_zero (by omega)
    · have hcount := ht.counted
      rw [h.counted, count_iff hdat] at hcount
      exact List.eq_nil_of_length_eq_zero hcount
  · rintro ⟨hleft, rfl, hclose⟩
    refine ⟨?_, ?_, fun n _ _ => ?_, fun n hn hneg => hclosed.mpr (hclose n hn hneg)⟩
    · rw [h.shown, hleft, List.append_nil]
    · rw [h.counted, List.length_nil]
      exact (UInt64.add_zero _).symm
    · rw [h.input, hleft, List.append_nil, List.drop_nil]

/-- An event keeps the contract exactly if it is harmless. -/
theorem exec_alike_iff {c : UdpConnection} (hwf : c.input.Wf) {e : Event} (hfits : e.Fits) :
    wp e.exec c (fun _ c' => (Connection.Alike (c.delivery e) c c' ↔ e.Harmless c) ∧ c'.input.Wf)
      (fun _ c' => (Connection.Alike (c.delivery e) c c' ↔ e.Harmless c) ∧ c'.input.Wf) := by
  have hI := rests_receiveInv c
  have hrests {x : UdpM Unit} (hx : Keeps (Rests c) x) :
      wp x c (fun _ c' => (Leaves c c' ↔ True) ∧ c'.input.Wf)
        (fun _ c' => (Leaves c c' ↔ True) ∧ c'.input.Wf) :=
    wp_mono (hx c (.refl c)) (fun _ _ h => ⟨iff_true_intro h.leaves, h.input ▸ hwf⟩)
      fun _ _ h => ⟨iff_true_intro h.leaves, h.input ▸ hwf⟩
  cases e with
  | readable io =>
    unfold Event.exec handleRead
    simp only [delivery, reads, Event.Harmless, iff_true]
    rw [wp_bind, wp_get, wp_ite]
    refine ⟨fun hconn => ?_, fun hconn => ?_⟩
    · rw [if_pos hconn]
      exact wp_mono (onRead_treats quiet_send rests_callSend (onReadCatch_rests io).1
        (onReadCatch_rests io).2 hwf io) (fun _ _ h => h) fun _ _ h => h.elim
    · rw [if_neg hconn]
      exact wp_mono (hrests (keeps_connected hI.toOutputFree hI.established hI.connected io))
        (fun _ _ h => ⟨h.1.mpr trivial, h.2⟩) fun _ _ h => ⟨h.1.mpr trivial, h.2⟩
  | datagram dat handler =>
    unfold Event.exec
    simp only [delivery, Event.Harmless]
    rw [wp_bind, wp_get, wp_ite]
    refine ⟨fun hmanaged => ?_, fun hmanaged => ?_⟩
    · simp only [hmanaged, true_implies]
      exact wp_mono (managerOnData_spec dat handler c)
        (fun _ _ h => ⟨treats_iff hfits h.2, h.2.input ▸ hwf⟩)
        fun _ _ h => ⟨treats_iff hfits h.2, h.2.input ▸ hwf⟩
    · rw [if_neg hmanaged]
      exact ⟨⟨fun _ h => absurd h hmanaged, fun _ => ⟨rfl, rfl, rfl⟩⟩, hwf⟩
  | pass sec => exact ⟨iff_true_intro ⟨rfl, rfl, rfl⟩, hwf⟩
  | writable io => exact hrests (keeps_handleWrite hI io)
  | timeout io => exact hrests (keeps_handleTimeout hI io)
  | close throws => exact hrests (keeps_close hI.toControlInv throws)
  | send s => exact hrests (rests_callSend c s)
  | setKeepaliveTimeout msec => exact hrests (keeps_setKeepaliveTimeout hI.toControlInv msec)

/-! ### Creation -/

theorem accept_rests (c : UdpConnection) (msec : Int) : Keeps (Rests c) (accept msec) := by
  have hI := rests_receiveInv c
  refine keeps_bind (keeps_modify fun _ h => ⟨h.shown, h.counted, h.input⟩) fun _ => ?_
  exact keeps_bind (hI.select _ _) fun _ =>
    keeps_ite (keeps_selectTimeout hI.toControlInv _) (keeps_pure ())

theorem createUdpClient_rests (c : UdpConnection) (answer : ConnectAnswer) (io : Io) :
    Keeps (Rests c) (createUdpClient answer io) := by
  have hI := rests_receiveInv c
  have hset {f : UdpConnection → UdpConnection} (hf : ∀ c', Rests c' (f c')) :
      Keeps (Rests c) (modify f : UdpM Unit) := keeps_modify fun c' h =>
    ⟨(hf c').shown.trans h.shown, (hf c').counted.trans h.counted, (hf c').input.trans h.input⟩
  refine keeps_bind (keeps_tryCatch (keeps_bind ?_ fun _ => ?_) fun _ => ?_) fun _ =>
    keeps_bind keeps_get fun _ => keeps_ite (keeps_tell hI.toControlInv rfl) ?_
  · cases answer with
    | done => exact hset fun _ => ⟨rfl, rfl, rfl⟩
    | pending => exact hset fun _ => ⟨rfl, rfl, rfl⟩
    | fails what => exact keeps_bind (hset fun _ => ⟨rfl, rfl, rfl⟩) fun _ => keeps_throw _
  · exact keeps_select hI.select (keeps_onConnected hI.toOutputFree hI.established io)
  · exact hset fun _ => ⟨rfl, rfl, rfl⟩
  · exact keeps_bind (hset fun _ => ⟨rfl, rfl, rfl⟩) fun _ =>
      keeps_bind (keeps_handleOnConnected hI.toControlInv (rests_callSend c) _ _) fun _ =>
        keeps_pure ()

/-- `dat` has been shown and not stored; whether the connection is closed is `closed`. -/
structure Shows (dat : List UInt8) (closed : Prop) (b c : UdpConnection) : Prop where
  shown : c.shown = b.shown ++ [dat]
  input : c.input = b.input
  status : c.status = .disconnected ↔ closed

/-- The first datagram, if `onData` returns: it is counted. -/
theorem Shows.treats_iff {dat : List UInt8} (hdat : dat.length ≤ 4096) {closed : Prop}
    {b c : UdpConnection} (h : Shows dat closed b c) (hleft : b.input.contents = [])
    (hcount : c.recvBytes = b.recvBytes + UInt64.ofNat (toUInt32 dat.length)) (n : Int) :
    Treats dat (.returns n) b c ↔ (0 ≤ n → dat.length ≤ n.toNat) ∧ (n < 0 → closed) := by
  constructor
  · intro ht
    refine ⟨fun hpos => ?_, fun hneg => h.status.mp (ht.closed n rfl hneg)⟩
    have hkept := ht.kept n rfl hpos
    rw [h.input, hleft, List.nil_append] at hkept
    exact List.drop_eq_nil_iff.mp hkept.symm
  · rintro ⟨hkept, hclosed⟩
    refine ⟨?_, ?_, fun m hm hpos => ?_, fun m hm hneg => ?_⟩
    · rw [h.shown, hleft, List.nil_append]
    · rw [hcount, toUInt32_of_lt (by omega)]
    · cases hm
      rw [h.input, hleft, List.nil_append]
      exact (List.drop_eq_nil_iff.mpr (hkept hpos)).symm
    · cases hm
      exact h.status.mpr (hclosed hneg)

/-- The first datagram, if `onData` throws: it is not counted. -/
theorem Shows.treats_throws_iff {dat : List UInt8} (hdat : dat.length ≤ 4096) {closed : Prop}
    {b c : UdpConnection} (h : Shows dat closed b c) (hleft : b.input.contents = [])
    (hcount : c.recvBytes = b.recvBytes) (e : Exc) : Treats dat (.throws e) b c ↔ dat = [] := by
  constructor
  · intro ht
    have hcounted := ht.counted
    rw [hcount, count_iff hdat] at hcounted
    exact List.eq_nil_of_length_eq_zero hcounted
  · rintro rfl
    refine ⟨?_, ?_, fun _ hm => (nomatch hm), fun _ hm => (nomatch hm)⟩
    · rw [h.shown, hleft, List.nil_append]
    · rw [hcount, List.length_nil]
      exact (UInt64.add_zero _).symm

/-- What `createUdpConnection` does with a connection that has its socket. -/
theorem first_alike_iff {b c : UdpConnection} (hb : Rests b c) (hleft : b.input.contents = [])
    (hopen : c.status = .established) {dat : List UInt8} (hdat : dat.length ≤ 4096) (msec : Int)
    (connected received : Callback) {x : UdpM Unit} (hx : x = do
      modify fun c => { c with managed := true }
      notify .onConnected
      let _ ← callback send connected
      managerOnData dat received
      modify fun c => { c with recvBytes := c.recvBytes + UInt64.ofNat (toUInt32 dat.length) }) :
    let start : Start := .accepted msec dat connected received
    wp x c (fun _ c' => (Connection.Alike start.delivery b c' ↔ start.Harmless) ∧ c'.input = b.input)
      (fun _ c' => (Connection.Alike start.delivery b c' ↔ start.Harmless) ∧ c'.input = b.input) := by
  subst hx
  unfold notify
  simp only [Start.delivery, Start.Harmless, wp_bind, wp_modify]
  have hb' : Rests b { c with managed := true, notices := c.notices ++ [.onConnected] } :=
    ⟨(shown_notify rfl _).trans hb.shown, hb.counted, hb.input⟩
  refine wp_mono (callback_spec connected _) (fun r c1 h1 => ?_) fun e c1 h1 => ?_
  · obtain ⟨hends, h1, hstatus⟩ := h1
    rw [hopen] at hstatus
    have hshows {c2 : UdpConnection} (h : Passed dat received c1 c2) :
        Shows dat (connected.closes ≠ 0 ∨ received.closes ≠ 0) b c2 := by
      refine ⟨?_, h.input.trans (h1.input.trans hb'.input), ?_⟩
      · rw [h.shown, h1.shown, hb'.shown]
      · rw [h.status, hstatus]
        by_cases hc : connected.closes = 0 <;> by_cases hr : received.closes = 0 <;> simp [hc, hr]
    simp only [hends, Ends.isThrow, Bool.false_eq_true, if_false, true_implies]
    refine wp_mono (managerOnData_spec dat received c1) (fun _ c2 h2 => ?_) fun _ c2 h2 => ?_
    · obtain ⟨⟨n, hn⟩, h2⟩ := h2
      have hs := hshows h2
      have hcount : c2.recvBytes + UInt64.ofNat (toUInt32 dat.length) =
          b.recvBytes + UInt64.ofNat (toUInt32 dat.length) := by
        rw [h2.counted, h1.counted, hb'.counted]
      rw [hn]
      exact ⟨Shows.treats_iff hdat
        (c := { c2 with recvBytes := c2.recvBytes + UInt64.ofNat (toUInt32 dat.length) })
        ⟨hs.shown, hs.input, hs.status⟩ hleft hcount n, hs.input⟩
    · obtain ⟨⟨e, he⟩, h2⟩ := h2
      have hs := hshows h2
      rw [he]
      exact ⟨hs.treats_throws_iff hdat hleft
        (h2.counted.trans (h1.counted.trans hb'.counted)) e, hs.input⟩
  · obtain ⟨hends, h1, -⟩ := h1
    have h1 : Rests b c1 := ⟨h1.shown.trans hb'.shown, h1.counted.trans hb'.counted,
      h1.input.trans hb'.input⟩
    simp only [hends, Ends.isThrow, if_true, Bool.true_eq_false, false_implies, iff_true]
    exact ⟨h1.leaves, h1.input⟩

/-- Creating the connection keeps the contract exactly if it is harmless. -/
theorem start_alike_iff (now : Int) (stackIn : Nat → UInt8) {start : Start} (hfits : start.Fits) :
    (start.Alike now stackIn ↔ start.Harmless) ∧
      (start.connection now stackIn).input = ByteBuffer.new true stackIn := by
  cases start with
  | accepted msec dat connected received =>
    have hleft : (blank now stackIn).input.contents = [] := ByteBuffer.contents_new true stackIn
    refine after_of_wp (P := fun c' : UdpConnection =>
      (Connection.Alike (Start.delivery (.accepted msec dat connected received)) (blank now stackIn) c' ↔
        Start.Harmless (.accepted msec dat connected received)) ∧
          c'.input = (blank now stackIn).input) ?_
    unfold createUdpConnection
    rw [wp_bind]
    refine wp_mono (wp_and (accept_at msec now stackIn)
      (wp_and (accept_rests (blank now stackIn) msec _ ⟨rfl, rfl, rfl⟩)
        (quiet_accept msec [] .established _ ⟨rfl, rfl⟩)))
      (fun _ c1 h1 => ?_) fun _ _ h => h.1.elim
    exact first_alike_iff h1.2.1 hleft h1.2.2.2 hfits msec connected received rfl
  | client answer io =>
    have hrests := after_of_wp (createUdpClient_rests (blank now stackIn) answer io
      { Connection.new .client (-1) .connectting now stackIn [] with lastRecvTs := now }
      ⟨rfl, rfl, rfl⟩)
    exact ⟨iff_true_intro hrests.leaves, hrests.input⟩

/-- **A UDP connection treats its handler alike** exactly in the runs in which the manager's
calls of `onData` are harmless. -/
theorem udp_alike_iff (now : Int) (stackIn : Nat → UInt8) {start : Start} {events : List Event}
    (hstart : start.Fits) (hfits : ∀ e ∈ events, e.Fits) :
    (start.Alike now stackIn ∧ (machine now stackIn start).AllSteps Event.Alike
        (machine now stackIn start).init events) ↔
      (start.Harmless ∧ (machine now stackIn start).AllSteps (fun c e => e.Harmless c)
        (machine now stackIn start).init events) := by
  obtain ⟨hiff, hinput⟩ := start_alike_iff now stackIn hstart
  have hstep (c : UdpConnection) (e : Event) (hwf : c.input.Wf) (he : e.Fits) :=
    after_of_wp (P := fun c' : UdpConnection =>
      (Connection.Alike (c.delivery e) c c' ↔ e.Harmless c) ∧ c'.input.Wf) (exec_alike_iff hwf he)
  refine and_congr hiff ((machine now stackIn start).allSteps_iff_of_invariant
    (C := fun _ e => e.Fits) (P := fun c => c.input.Wf) (fun c e c' hwf he h => ?_)
    (fun c e hwf he => (hstep c e hwf he).1) events ?_
    ((machine now stackIn start).allSteps_of_forall hfits _))
  · obtain rfl := Option.some.inj h
    exact (hstep c e hwf he).2
  · change (start.connection now stackIn).input.Wf
    rw [hinput]
    exact ByteBuffer.wf_new true stackIn

end UdpConnection

/-! ## All the call sites -/

/-- **The call sites of `onData` treat the handler alike** in every run of a TCP connection,
and in a run of a UDP connection exactly if the manager's calls of `onData` are harmless. -/
theorem alike_iff (now : Int) (stackIn stackOut : Nat → UInt8) :
    (∀ (start : TcpConnection.Start) (events : List TcpConnection.Event),
      (TcpConnection.machine now stackIn stackOut start).AllSteps (fun c e => e.Fits c)
        (TcpConnection.machine now stackIn stackOut start).init events →
      (TcpConnection.machine now stackIn stackOut start).AllSteps TcpConnection.Event.Alike
        (TcpConnection.machine now stackIn stackOut start).init events) ∧
    (∀ (start : UdpConnection.Start) (events : List UdpConnection.Event),
      start.Fits → (∀ e ∈ events, e.Fits) →
      ((start.Alike now stackIn ∧
          (UdpConnection.machine now stackIn start).AllSteps UdpConnection.Event.Alike
            (UdpConnection.machine now stackIn start).init events) ↔
        (start.Harmless ∧
          (UdpConnection.machine now stackIn start).AllSteps (fun c e => e.Harmless c)
            (UdpConnection.machine now stackIn start).init events))) :=
  ⟨fun start _ hfits => TcpConnection.tcp_alike now stackIn stackOut start hfits,
    fun _ _ hstart hfits => UdpConnection.udp_alike_iff now stackIn hstart hfits⟩

/-- A readable event that gives `bytes` to a handler. -/
def reading (bytes : List UInt8) (handler : Callback) : Io :=
  ⟨[], .gives bytes, fun _ => 0, none, handler, none, none⟩

/-- The handler returns `n` and does nothing else. -/
def returning (n : Int) : Callback := ⟨[], .returns n⟩

theorem alike_iff_reading :
    (TcpConnection.machine 0 (fun _ => 0) (fun _ => 0) (.accepted 0 (returning 0))).AllSteps
        TcpConnection.Event.Alike
        (TcpConnection.machine 0 (fun _ => 0) (fun _ => 0) (.accepted 0 (returning 0))).init
        [.readable (reading [1, 2] (returning 1)), .readable (reading [3] (returning 2))] ∧
      ((UdpConnection.Start.accepted 0 [7] (returning 0) (returning 1)).Alike 0 (fun _ => 0) ∧
        (UdpConnection.machine 0 (fun _ => 0) (.accepted 0 [7] (returning 0) (returning 1))).AllSteps
          UdpConnection.Event.Alike
          (UdpConnection.machine 0 (fun _ => 0) (.accepted 0 [7] (returning 0) (returning 1))).init
          [.readable (reading [8, 9] (returning 1))]) := by
  refine ⟨(alike_iff 0 (fun _ => 0) (fun _ => 0)).1 _ _ ?_,
    ((alike_iff 0 (fun _ => 0) (fun _ => 0)).2 _ _ ?_ ?_).mpr ?_⟩
  · exact ⟨trivial, fun _ _ => ⟨trivial, fun _ _ => trivial⟩⟩
  · exact show 1 ≤ 4096 by decide
  · intro e he
    rw [List.mem_singleton.mp he]
    trivial
  · exact ⟨fun _ => ⟨fun _ => by decide, fun h => absurd h (by decide)⟩,
      trivial, fun _ _ => trivial⟩

/-- The second datagram of a session, for a handler that returns -1: the connection stays
open, and the byte is not counted. -/
theorem datagram_not_treated :
    ¬ ((UdpConnection.Start.accepted 0 [7] (returning 0) (returning 1)).Alike 0 (fun _ => 0) ∧
      (UdpConnection.machine 0 (fun _ => 0) (.accepted 0 [7] (returning 0) (returning 1))).AllSteps
        UdpConnection.Event.Alike
        (UdpConnection.machine 0 (fun _ => 0) (.accepted 0 [7] (returning 0) (returning 1))).init
        [.datagram [1] (returning (-1))]) := by
  rintro ⟨-, hstep, -⟩
  have hclosed := hstep.closed (-1) rfl (by decide)
  revert hclosed
  decide

end LinSocketIo.Core
