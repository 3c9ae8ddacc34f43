/-
LinSocketIo.Core.Socket — the socket of a connection: the flags of
`core/socket_helper.h`, `Socket::select` and `Socket::remove` of
`core/handler.cpp`, and what `core/selector_epoll.cpp` registers for it.

A socket keeps the mask of the events it has asked for (`selevent`) and
filters every request against it; the selector keeps the socket in
`_sockets` and the kernel keeps an interest set for the descriptor. All
three are fields here, since a request changes them together.

* `select_selevent` — what the filtering amounts to: a request takes the
  `remove` bits out of the mask and puts the `add` bits in.

Modelling notes. The `int` masks are 32-bit vectors. `epoll_ctl` reports
its errors to the log only, so a request it refuses leaves the interest set
as it was. The kernel's answers to `send`, `recv` and `connect` are inputs.
-/
import Mathlib.Data.List.Basic

namespace LinSocketIo.Core

/-- Event masks. -/
abbrev Mask := BitVec 32

/-- `SEL_NONE`. -/
def selNone : Mask := 0
/-- `SEL_ALL`. -/
def selAll : Mask := BitVec.allOnes 32
/-- `SEL_READ`. -/
def selRead : Mask := 1
/-- `SEL_WRITE`. -/
def selWrite : Mask := 2
/-- `SEL_RW`. -/
def selRw : Mask := 3
/-- `SEL_CONNECTING`. -/
def selConnecting : Mask := 128

/-- The events of a descriptor that `epoll_wait` reports. -/
structure Interest where
  epollin : Bool
  epollout : Bool
  deriving DecidableEq, Repr

/-- A socket and what the selector and the kernel hold for it. -/
structure Socket where
  /-- The descriptor is not `INVALID_SOCKET`. -/
  valid : Bool
  selevent : BitVec 8
  selected : Bool
  connected : Bool
  shutdownSend : Bool
  shutdownRecv : Bool
  /-- The socket is in `_sockets` of the selector. -/
  inSockets : Bool
  /-- The interest set of the descriptor in the epoll instance. -/
  epoll : Option Interest
  deriving DecidableEq, Repr

namespace Socket

/-- A `SocketHelper` before it has a descriptor. -/
def new : Socket := ⟨false, 0, false, false, false, false, false, none⟩

/-- `attach`. -/
def attach (s : Socket) : Socket := { s with valid := true, connected := true }

/-- `detach`: the flags are reset; the selector is not told. -/
def detach (s : Socket) : Socket :=
  { s with
    valid := false, selevent := 0, selected := false, connected := false
    shutdownSend := false, shutdownRecv := false }

/-- `m_sock_flags.selevent`, promoted to `int`. -/
def events (s : Socket) : Mask := s.selevent.setWidth 32

/-- The socket has asked for an event of the mask `m`. -/
def selects (s : Socket) (m : Mask) : Bool := s.events &&& m != 0

/-! ## Requests -/

/-- `Selector_epoll::select`. -/
def selectorSelect (s : Socket) (remove add : Mask) : Socket :=
  if s.inSockets then
    let currstate := (s.events &&& ~~~remove) ||| add
    { s with
      epoll := s.epoll.map fun _ => ⟨currstate &&& selRead != 0, currstate &&& selWrite != 0⟩ }
  else
    { s with
      inSockets := true
      epoll := some (s.epoll.getD ⟨true, selWrite &&& add != 0⟩) }

/-- `Selector_epoll::remove`. -/
def selectorRemove (s : Socket) : Socket := { s with inSockets := false, epoll := none }

/-- `Socket::select`; an error is what the `socket_error` says. -/
def select (s : Socket) (remove add : Mask) : Except String Socket :=
  if !s.valid then .error "select with invalid socket"
  else
    let add := if s.shutdownSend then add &&& ~~~selWrite else add
    let add := if s.shutdownRecv then add &&& ~~~selRead else add
    let remove := remove &&& ~~~add
    let remove := remove &&& s.events
    let add := add &&& ~~~s.events
    if remove + add ≠ selNone then
      .ok { s.selectorSelect remove add with
        selevent := ((s.events &&& ~~~remove) ||| add).setWidth 8
        selected := true }
    else .ok s

/-- `Socket::remove`. The mask stays. -/
def remove (s : Socket) : Socket :=
  if s.selected then { s.selectorRemove with selected := false } else s

@[simp] theorem remove_valid (s : Socket) : s.remove.valid = s.valid := by
  unfold remove
  split <;> rfl

@[simp] theorem remove_connected (s : Socket) : s.remove.connected = s.connected := by
  unfold remove
  split <;> rfl

@[simp] theorem remove_shutdownSend (s : Socket) : s.remove.shutdownSend = s.shutdownSend := by
  unfold remove
  split <;> rfl

@[simp] theorem remove_shutdownRecv (s : Socket) : s.remove.shutdownRecv = s.shutdownRecv := by
  unfold remove
  split <;> rfl

@[simp] theorem remove_selects (s : Socket) (m : Mask) : s.remove.selects m = s.selects m := by
  unfold remove
  split <;> rfl

@[simp] theorem selectorSelect_valid (s : Socket) (remove add : Mask) :
    (s.selectorSelect remove add).valid = s.valid := by
  unfold selectorSelect
  split <;> rfl

@[simp] theorem selectorSelect_connected (s : Socket) (remove add : Mask) :
    (s.selectorSelect remove add).connected = s.connected := by
  unfold selectorSelect
  split <;> rfl

@[simp] theorem selectorSelect_shutdownSend (s : Socket) (remove add : Mask) :
    (s.selectorSelect remove add).shutdownSend = s.shutdownSend := by
  unfold selectorSelect
  split <;> rfl

@[simp] theorem selectorSelect_shutdownRecv (s : Socket) (remove add : Mask) :
    (s.selectorSelect remove add).shutdownRecv = s.shutdownRecv := by
  unfold selectorSelect
  split <;> rfl

/-- The two masks that are left after the filtering have no bit in common. -/
theorem filtered_disjoint (remove add e : Mask) : (remove &&& e) &&& (add &&& ~~~e) = 0 := by
  ext i
  simp only [BitVec.getElem_and, BitVec.getElem_not]
  cases e[i] <;> simp

/-- Filtering the two masks against the events asked for changes nothing in the result. -/
theorem filtered_events (remove add e : Mask) :
    (e &&& ~~~(remove &&& ~~~add &&& e)) ||| (add &&& ~~~e) = (e &&& ~~~remove) ||| add := by
  ext i
  simp only [BitVec.getElem_or, BitVec.getElem_and, BitVec.getElem_not]
  cases e[i] <;> cases add[i] <;> cases remove[i] <;> rfl

/-- The filtering leaves nothing: the sum of disjoint masks is zero only when both are. -/
theorem filtered_none {remove add e : Mask}
    (h : (remove &&& ~~~add &&& e) + (add &&& ~~~e) = selNone) :
    remove &&& ~~~add &&& e = 0#32 ∧ add &&& ~~~e = 0#32 := by
  refine BitVec.or_eq_zero_iff.mp ?_
  rw [← BitVec.add_eq_or_of_and_eq_zero _ _ (filtered_disjoint _ _ _)]
  exact h

/-- A request of which the filtering leaves nothing does not change the mask. -/
theorem filtered_same {remove add e : Mask}
    (h : (remove &&& ~~~add &&& e) + (add &&& ~~~e) = selNone) :
    (e &&& ~~~remove) ||| add = e := by
  obtain ⟨hrem, hadd⟩ := filtered_none h
  have hkeep := filtered_events remove add e
  rw [hrem, hadd, BitVec.not_zero, BitVec.and_allOnes, BitVec.or_zero] at hkeep
  exact hkeep.symm

/-- **A request** on an open socket takes `remove` out of the mask and puts `add` in. -/
theorem select_selevent {s : Socket} (hvalid : s.valid = true) (hsend : s.shutdownSend = false)
    (hrecv : s.shutdownRecv = false) (remove add : Mask) :
    ∃ s', s.select remove add = .ok s' ∧
      s'.selevent = ((s.events &&& ~~~remove) ||| add).setWidth 8 ∧ s'.connected = s.connected ∧
      s'.valid = true ∧ s'.shutdownSend = false ∧ s'.shutdownRecv = false := by
  simp only [select, hvalid, hsend, hrecv, Bool.not_true, Bool.false_eq_true, if_false]
  split
  · refine ⟨_, rfl, ?_, ?_⟩
    · simp only [filtered_events]
    · simp only [selectorSelect_connected, selectorSelect_valid, selectorSelect_shutdownSend,
        selectorSelect_shutdownRecv, hvalid, hsend, hrecv, and_self]
  · next hzero =>
    refine ⟨s, rfl, ?_, rfl, hvalid, hsend, hrecv⟩
    rw [filtered_same (not_not.mp hzero), events, BitVec.setWidth_setWidth_of_le _ (by decide),
      BitVec.setWidth_eq]

/-- The write bit of a mask. -/
theorem mask_and_selWrite (m : Mask) : (m &&& selWrite != 0) = m.getLsbD 1 := by
  have h : selWrite = BitVec.twoPow 32 1 := by decide
  rw [h, BitVec.and_twoPow]
  cases m.getLsbD 1 <;> decide

theorem selects_selWrite (s : Socket) : s.selects selWrite = s.selevent.getLsbD 1 := by
  rw [selects, mask_and_selWrite, events, BitVec.getLsbD_setWidth]
  simp

/-- What a request on an open socket does to the write event. -/
theorem select_selects {s : Socket} (hvalid : s.valid = true) (hsend : s.shutdownSend = false)
    (hrecv : s.shutdownRecv = false) (remove add : Mask) :
    ∃ s', s.select remove add = .ok s' ∧
      s'.selects selWrite = ((s.selects selWrite && !remove.getLsbD 1) || add.getLsbD 1) ∧
      s'.connected = s.connected ∧
      s'.valid = true ∧ s'.shutdownSend = false ∧ s'.shutdownRecv = false := by
  obtain ⟨s', hs', hsel, hrest⟩ := select_selevent hvalid hsend hrecv remove add
  refine ⟨s', hs', ?_, hrest⟩
  rw [selects_selWrite, selects_selWrite, hsel, events]
  simp

end Socket

/-! ## The kernel's answers -/

/-- What the kernel answers to `::send`. -/
inductive Answer where
  /-- It takes up to `n` bytes. -/
  | takes (n : Nat)
  /-- An error that `isIgnoreError` ignores: it would block. -/
  | again
  /-- Any other error. -/
  | fails (what : String)
  deriving DecidableEq, Repr

/-- What the kernel answers to `::recv`. -/
inductive RecvAnswer where
  /-- Bytes, or none at the end of the stream. -/
  | gives (bytes : List UInt8)
  | again
  | fails (what : String)
  deriving DecidableEq, Repr

/-- What the kernel answers to `::connect`. -/
inductive ConnectAnswer where
  | done
  /-- An error that `isIgnoreConnect` ignores: in progress. -/
  | pending
  | fails (what : String)
  deriving DecidableEq, Repr

end LinSocketIo.Core
