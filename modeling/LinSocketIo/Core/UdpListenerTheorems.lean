/-
LinSocketIo.Core.UdpListenerTheorems — the descriptors of accepted UDP
connections.

A descriptor has one holder at a time: the listener while it clones a socket,
then the entry of the peer that has no connection id yet, then the connection
object; or another socket of the process. Every step gives a descriptor on,
gets a new one or ends one (`Exclusive` of `Base.Ownership`), but for one: a
task carries a descriptor that it does not hold. `taskCurrent` says that
`createUdpConnection` uses the descriptor of its task only while the entry of
the peer holds it, or while it is not open.

* `inv_step` — every step whose task is current keeps the one holder.
* `descriptors_owned` — in every run whose tasks are current, every live
  connection has an open descriptor to itself, and `createUdpConnection` closes
  no descriptor of another connection.
* `stale_task_takes_descriptor` — a task that is not current breaks both.
-/
import LinSocketIo.Base.Ownership
import LinSocketIo.Core.UdpListener

namespace LinSocketIo.Core.UdpListener

open LinSocketIo.Base

/-! ## Who holds which descriptor -/

/-- All that can have a descriptor. -/
inductive Holder where
  | listener
  | entry (key : UInt64)
  | conn (i : Nat)
  | other (fd : Nat)

/-- The worker is about to write the entry of this key: the entry holds nothing. -/
def WorkerPc.writes : WorkerPc → UInt64 → Bool
  | .made _ p, k => p.key = k
  | .dropping p, k => p.key = k
  | _, _ => false

/-- The object that the worker is making or destroying. -/
def WorkerPc.object : WorkerPc → Option Nat
  | .made i _ => some i
  | .destroying i => some i
  | _ => none

/-- The descriptor that the listener has cloned and not yet put in the table. -/
def ListenerPc.clone : ListenerPc → Option Nat
  | .cloned fd _ => some fd
  | _ => none

/-- The descriptor of each holder. -/
def holds (s : State) : Holder → Option Nat
  | .listener => s.listener.clone
  | .entry k =>
    if s.worker.writes k then none
    else (s.sockets.sockets k).bind fun e => if e.2 = 0 then some e.1 else none
  | .conn i => s.conns[i]?.bind fun c => if c.live then some c.fd else none
  | .other fd => if fd ∈ s.others then some fd else none

theorem holds_entry {s : State} {k : UInt64} {q : Nat} :
    holds s (.entry k) = some q ↔
      s.worker.writes k = false ∧ s.sockets.sockets k = some (q, 0) := by
  cases hw : s.worker.writes k with
  | true => simp [holds, hw]
  | false =>
    cases he : s.sockets.sockets k with
    | none => simp [holds, hw, he]
    | some e => simp [holds, hw, he, Prod.ext_iff, and_comm]

theorem holds_conn {s : State} {i q : Nat} :
    holds s (.conn i) = some q ↔ ∃ c, s.conns[i]? = some c ∧ c.live = true ∧ c.fd = q := by
  cases hc : s.conns[i]? with
  | none => simp [holds, hc]
  | some c => simp [holds, hc]

theorem holds_other {s : State} {fd q : Nat} :
    holds s (.other fd) = some q ↔ fd ∈ s.others ∧ fd = q := by
  simp [holds]

/-! ## The invariant -/

/-- Every descriptor has one holder, and the object that the worker is at has one. -/
structure Inv (s : State) : Prop where
  exclusive : Exclusive {fd | fd ∈ s.opened} (holds s)
  object : ∀ i, s.worker.object = some i → ∃ c, s.conns[i]? = some c ∧ c.live = true

/-- A step that opens and ends nothing and gives nothing to a new holder. -/
theorem Inv.mono {s s' : State} (h : Inv s) (hopen : s'.opened = s.opened)
    (hold : ∀ o q, holds s' o = some q → holds s o = some q)
    (hobject : ∀ i, s'.worker.object = some i → ∃ c, s'.conns[i]? = some c ∧ c.live = true) :
    Inv s' where
  exclusive := h.exclusive.mono hold fun _ _ _ hq => by rw [hopen]; exact hq
  object := hobject

/-- At the start all descriptors are those of other sockets. -/
theorem holds_init {fds : List Nat} {o : Holder} {q : Nat}
    (h : holds (machine fds).init o = some q) : o = .other q ∧ q ∈ fds := by
  cases o with
  | listener => cases h
  | entry k => cases (holds_entry.mp h).2
  | conn i =>
    obtain ⟨c, hc, -⟩ := holds_conn.mp h
    cases hc
  | other fd =>
    obtain ⟨hfd, rfl⟩ := holds_other.mp h
    exact ⟨rfl, hfd⟩

theorem inv_init (fds : List Nat) : Inv (machine fds).init where
  exclusive := by
    constructor
    · intro o q hq
      exact (holds_init hq).2
    · intro o o' q hq hq'
      rw [(holds_init hq).1, (holds_init hq').1]
  object := by simp [machine, WorkerPc.object]

theorem opened_cons (s : State) (fd : Nat) :
    {q | q ∈ fd :: s.opened} = insert fd {q | q ∈ s.opened} := by
  ext q
  simp

theorem opened_closeFd (s : State) (fd : Nat) :
    {q | q ∈ (s.closeFd fd).opened} = {q | q ∈ s.opened} \ {fd} := by
  ext q
  simp [State.closeFd]

/-! ## The listener -/

/-- What a new position of the listener changes: nothing that it does not clone. -/
theorem holds_listener {s : State} {pc : ListenerPc} (hpc : pc.clone = none) (o : Holder) (q : Nat)
    (h : holds { s with listener := pc } o = some q) : holds s o = some q := by
  cases o with
  | listener => simp [holds, hpc] at h
  | _ => exact h

theorem inv_listener {s : State} {pc : ListenerPc} (h : Inv s) (hpc : pc.clone = none) :
    Inv { s with listener := pc } :=
  h.mono rfl (holds_listener hpc) h.object

theorem inv_clone {s : State} {fd : Nat} {p : Peer} (h : Inv s) (hfd : fd ∉ s.opened) :
    Inv { s with opened := fd :: s.opened, listener := .cloned fd p } where
  exclusive := by
    rw [opened_cons]
    refine h.exclusive.acquire (b := .listener) hfd ?_
    intro o q hq
    cases o with
    | listener =>
      simp only [holds, ListenerPc.clone, Option.some.injEq] at hq
      exact .inl ⟨rfl, hq.symm⟩
    | _ => exact .inr hq
  object := h.object

theorem inv_add {s : State} {fd : Nat} {p : Peer} (h : Inv s) (hpc : s.listener = .cloned fd p) :
    Inv { s with sockets := s.sockets.add p fd, listener := .accepted fd p } where
  exclusive := by
    have hl : holds s .listener = some fd := by simp [holds, hpc, ListenerPc.clone]
    refine h.exclusive.transfer (b := .entry p.key) hl ?_
    intro o q hq
    cases o with
    | listener => simp [holds, ListenerPc.clone] at hq
    | entry k =>
      obtain ⟨hw, he⟩ := holds_entry.mp hq
      simp only [ISocketManager.add, Function.update_apply] at he
      split at he
      · next hk =>
        simp only [Option.some.injEq, Prod.mk.injEq, and_true] at he
        exact .inl ⟨by rw [hk], he.symm⟩
      · exact .inr ⟨by simp, holds_entry.mpr ⟨hw, he⟩⟩
    | conn i => exact .inr ⟨by simp, hq⟩
    | other q' => exact .inr ⟨by simp, hq⟩
  object := h.object

theorem inv_listen {s s' : State} {ev : Event} (h : Inv s) (hs : s.listen ev = some s') :
    Inv s' := by
  cases ev with
  | find p =>
    simp only [State.listen] at hs
    split at hs
    · split at hs <;> cases hs <;> exact inv_listener h rfl
    · cases hs
  | clone fd =>
    simp only [State.listen] at hs
    split at hs
    · split at hs
      · cases hs
      · next hfd => cases hs; exact inv_clone h hfd
    · cases hs
  | cloneFails =>
    simp only [State.listen] at hs
    split at hs
    · cases hs; exact inv_listener h rfl
    · cases hs
  | add =>
    simp only [State.listen] at hs
    split at hs
    · next hpc => cases hs; exact inv_add h hpc
    · cases hs
  | schedule taken =>
    simp only [State.listen] at hs
    split at hs
    · split at hs
      · cases hs
        exact (inv_listener h rfl).mono rfl (fun _ _ hq => hq) h.object
      · cases hs; exact inv_listener h rfl
    · cases hs
  | _ => cases hs

/-! ## The worker, in `createUdpConnection` -/

/-- The entry of `p` has the descriptor of the task and no connection id, or the
descriptor is not open. -/
def State.current (s : State) (fd : Nat) (p : Peer) : Bool :=
  s.sockets.sockets p.key = some (fd, 0) ∨ fd ∉ s.opened

/-- A step of `createUdpConnection` that uses the descriptor of the task, to give
it to a connection or to close it, does so while the task is current. -/
def taskCurrent (s : State) (ev : Event) : Bool :=
  match ev, s.worker with
  | .construct _, .creating fd p => s.current fd p
  | .soclose, .failed fd p => s.current fd p
  | _, _ => true

theorem State.current_iff {s : State} {fd : Nat} {p : Peer} :
    s.current fd p = true ↔ s.sockets.sockets p.key = some (fd, 0) ∨ fd ∉ s.opened := by
  simp [State.current]

/-- A new position of the worker that is at no object: entries that it stops
writing have to be without a holder. -/
theorem inv_worker {s : State} {pc : WorkerPc} (h : Inv s)
    (hw : ∀ k, pc.writes k = false → s.worker.writes k = false) (hobject : pc.object = none) :
    Inv { s with worker := pc } := by
  refine h.mono rfl ?_ (by simp [hobject])
  intro o q hq
  cases o with
  | entry k =>
    obtain ⟨hk, he⟩ := holds_entry.mp hq
    exact holds_entry.mpr ⟨hw k hk, he⟩
  | _ => exact hq

theorem inv_construct {s : State} {fd : Nat} {p : Peer} {id : UInt32} (h : Inv s)
    (hpc : s.worker = .creating fd p) (hfd : fd ∈ s.opened) (hid : id ≠ 0)
    (hcurrent : s.current fd p = true) :
    Inv { s with
      conns := s.conns ++ [⟨fd, p, id, .made, hid⟩], worker := .made s.conns.length p } where
  exclusive := by
    have he : s.sockets.sockets p.key = some (fd, 0) :=
      (State.current_iff.mp hcurrent).resolve_right (not_not_intro hfd)
    have hentry : holds s (.entry p.key) = some fd :=
      holds_entry.mpr ⟨by simp [hpc, WorkerPc.writes], he⟩
    refine h.exclusive.transfer (b := .conn s.conns.length) hentry ?_
    intro o q hq
    cases o with
    | listener => exact .inr ⟨by simp, hq⟩
    | entry k =>
      -- the entry of `p` holds nothing while its id is not set
      obtain ⟨hk, he⟩ := holds_entry.mp hq
      simp only [WorkerPc.writes, decide_eq_false_iff_not] at hk
      refine .inr ⟨?_, holds_entry.mpr ⟨by simp [hpc, WorkerPc.writes], he⟩⟩
      rintro ⟨⟩
      exact hk rfl
    | conn i =>
      obtain ⟨c, hc, hlive, hcfd⟩ := holds_conn.mp hq
      by_cases hi : i < s.conns.length
      · rw [List.getElem?_append_left hi] at hc
        exact .inr ⟨by simp, holds_conn.mpr ⟨c, hc, hlive, hcfd⟩⟩
      · rw [List.getElem?_append_right (by omega), List.getElem?_singleton] at hc
        split at hc
        · next h0 =>
          cases hc
          have : i = s.conns.length := by omega
          exact .inl ⟨by rw [this], hcfd.symm⟩
        · cases hc
    | other q' => exact .inr ⟨by simp, hq⟩
  object := by
    rintro i ⟨⟩
    exact ⟨⟨fd, p, id, .made, hid⟩, by simp, by simp [Accepted.live]⟩

/-- The descriptor of a current task is closed by `createUdpConnection`. -/
theorem inv_soclose {s : State} {fd : Nat} {p : Peer} (h : Inv s) (hpc : s.worker = .failed fd p)
    (hcurrent : s.current fd p = true) : Inv { s.closeFd fd with worker := .dropping p } := by
  have hrest : ∀ o q, holds { s.closeFd fd with worker := .dropping p } o = some q →
      o ≠ .entry p.key ∧ holds s o = some q := by
    intro o q hq
    cases o with
    | entry k =>
      obtain ⟨hk, he⟩ := holds_entry.mp hq
      simp only [WorkerPc.writes, decide_eq_false_iff_not] at hk
      refine ⟨?_, holds_entry.mpr ⟨by simp [hpc, WorkerPc.writes], he⟩⟩
      rintro ⟨⟩
      exact hk rfl
    | _ => exact ⟨by simp, hq⟩
  refine ⟨?_, by simp [WorkerPc.object]⟩
  show Exclusive {q | q ∈ (s.closeFd fd).opened} _
  rw [opened_closeFd]
  rcases State.current_iff.mp hcurrent with he | hfd
  · exact h.exclusive.release (holds_entry.mpr ⟨by simp [hpc, WorkerPc.writes], he⟩) hrest
  · refine h.exclusive.mono (fun o q hq => (hrest o q hq).2) fun o q _ hq => ⟨hq, ?_⟩
    rintro rfl
    exact hfd hq

theorem inv_drop {s : State} {p : Peer} (h : Inv s) (hpc : s.worker = .dropping p) :
    Inv { s with sockets := s.sockets.remove p, worker := .idle } := by
  refine h.mono rfl ?_ (by simp [WorkerPc.object])
  intro o q hq
  cases o with
  | entry k =>
    obtain ⟨-, he⟩ := holds_entry.mp hq
    simp only [ISocketManager.remove, Function.update_apply] at he
    split at he
    · cases he
    · next hk => exact holds_entry.mpr ⟨by simp [hpc, WorkerPc.writes, Ne.symm hk], he⟩
  | _ => exact hq

/-- What another phase of object `i` changes, when the object was live. -/
theorem holds_setPhase {s : State} {i : Nat} {ph : Phase} {c : Accepted}
    (hc : s.conns[i]? = some c) (hlive : c.live = true) (j q : Nat)
    (h : holds (s.setPhase i ph) (.conn j) = some q) :
    holds s (.conn j) = some q ∧ (ph = .destroyed → j ≠ i) := by
  obtain ⟨d, hd, hdlive, hdfd⟩ := holds_conn.mp h
  rw [State.setPhase, List.getElem?_modify] at hd
  obtain ⟨e, he, rfl⟩ := Option.map_eq_some_iff.mp hd
  split at hdlive
  · next hij =>
    subst hij
    rw [he] at hc
    cases hc
    refine ⟨holds_conn.mpr ⟨c, he, hlive, by simpa using hdfd⟩, ?_⟩
    rintro rfl
    simp [Accepted.live] at hdlive
  · next hij =>
    exact ⟨holds_conn.mpr ⟨e, he, hdlive, by simpa [hij] using hdfd⟩, fun _ => Ne.symm hij⟩

theorem setConnId_sockets {m : ISocketManager} {p : Peer} {id : UInt32} (hid : id ≠ 0) {k : UInt64}
    {q : Nat} (h : (m.setConnId p id).1.sockets k = some (q, 0)) :
    p.key ≠ k ∧ m.sockets k = some (q, 0) := by
  unfold ISocketManager.setConnId at h
  split at h
  · simp only [Function.update_apply] at h
    split at h
    · simp only [Option.some.injEq, Prod.mk.injEq] at h
      exact absurd h.2 hid
    · next hk => exact ⟨Ne.symm hk, h⟩
  · next hnone =>
    refine ⟨?_, h⟩
    rintro rfl
    rw [hnone] at h
    cases h

theorem inv_publish {s : State} {i : Nat} {p : Peer} {c : Accepted} (h : Inv s)
    (hpc : s.worker = .made i p) (hc : s.conns[i]? = some c) :
    Inv { s.setPhase i .listed with
      sockets := (s.sockets.setConnId p c.connId).1, worker := .idle } := by
  have hlive : c.live = true := by
    obtain ⟨d, hd, hdlive⟩ := h.object i (by simp [hpc, WorkerPc.object])
    rw [hc] at hd
    cases hd
    exact hdlive
  refine h.mono rfl ?_ (by simp [WorkerPc.object])
  intro o q hq
  cases o with
  | entry k =>
    obtain ⟨-, he⟩ := holds_entry.mp hq
    obtain ⟨hk, he⟩ := setConnId_sockets c.connId_ne he
    exact holds_entry.mpr ⟨by simp [hpc, WorkerPc.writes, hk], he⟩
  | conn j => exact (holds_setPhase hc hlive j q hq).1
  | _ => exact hq

theorem inv_createUdpConnection {s s' : State} {ev : Event} (h : Inv s)
    (hcurrent : taskCurrent s ev = true) (hs : s.createUdpConnection ev = some s') : Inv s' := by
  unfold State.createUdpConnection at hs
  cases ev with
  | take =>
    simp only at hs
    split at hs
    · next hpc _ =>
      split at hs
      · cases hs
        exact h.mono rfl (fun _ _ hq => hq) h.object
      · cases hs
        exact (inv_worker h (by simp [hpc, WorkerPc.writes]) rfl).mono rfl (fun _ _ hq => hq)
          (by simp [WorkerPc.object])
    · cases hs
  | construct id =>
    simp only at hs
    split at hs
    · next hpc =>
      simp only [taskCurrent, hpc] at hcurrent
      split at hs
      · next hid =>
        split at hs
        · next hok => cases hs; exact inv_construct h hpc hok.1 hid hcurrent
        · cases hs
      · cases hs
    · cases hs
  | constructFails =>
    simp only at hs
    split at hs
    · next hpc => cases hs; exact inv_worker h (by simp [hpc, WorkerPc.writes]) rfl
    · cases hs
  | soclose =>
    simp only at hs
    split at hs
    · next hpc =>
      simp only [taskCurrent, hpc] at hcurrent
      cases hs
      exact inv_soclose h hpc hcurrent
    · cases hs
  | drop =>
    simp only at hs
    split at hs
    · next hpc => cases hs; exact inv_drop h hpc
    · cases hs
  | publish =>
    simp only at hs
    split at hs
    · next hpc =>
      split at hs
      · next hc => cases hs; exact inv_publish h hpc hc
      · cases hs
    · cases hs
  | _ => cases hs

/-! ## The worker, at the end of a connection -/

theorem inv_close {s : State} {i : Nat} {c : Accepted} (h : Inv s) (hpc : s.worker = .idle)
    (hc : s.conns[i]? = some c) (hph : c.phase = .listed) : Inv (s.setPhase i .closed) := by
  refine h.mono rfl ?_ (by simp [State.setPhase, hpc, WorkerPc.object])
  intro o q hq
  cases o with
  | conn j => exact (holds_setPhase hc (by simp [Accepted.live, hph]) j q hq).1
  | _ => exact hq

theorem inv_destroy {s : State} {i : Nat} {c : Accepted} (h : Inv s) (hpc : s.worker = .idle)
    (hc : s.conns[i]? = some c) (hph : c.phase = .closed) :
    Inv { s with sockets := s.sockets.remove c.peer, worker := .destroying i } := by
  refine h.mono rfl ?_ ?_
  · intro o q hq
    cases o with
    | entry k =>
      obtain ⟨-, he⟩ := holds_entry.mp hq
      simp only [ISocketManager.remove, Function.update_apply] at he
      split at he
      · cases he
      · exact holds_entry.mpr ⟨by simp [hpc, WorkerPc.writes], he⟩
    | _ => exact hq
  · rintro j ⟨⟩
    exact ⟨c, hc, by simp [Accepted.live, hph]⟩

theorem inv_closeSocket {s : State} {i : Nat} {c : Accepted} (h : Inv s)
    (hpc : s.worker = .destroying i) (hc : s.conns[i]? = some c) :
    Inv { (s.closeFd c.fd).setPhase i .destroyed with worker := .idle } where
  exclusive := by
    have hlive : c.live = true := by
      obtain ⟨d, hd, hdlive⟩ := h.object i (by simp [hpc, WorkerPc.object])
      rw [hc] at hd
      cases hd
      exact hdlive
    show Exclusive {q | q ∈ (s.closeFd c.fd).opened} _
    rw [opened_closeFd]
    refine h.exclusive.release (holds_conn.mpr ⟨c, hc, hlive, rfl⟩) ?_
    intro o q hq
    cases o with
    | entry k =>
      obtain ⟨-, he⟩ := holds_entry.mp hq
      exact ⟨by simp, holds_entry.mpr ⟨by simp [hpc, WorkerPc.writes], he⟩⟩
    | conn j =>
      obtain ⟨hold, hne⟩ := holds_setPhase hc hlive j q hq
      exact ⟨by simpa using hne rfl, hold⟩
    | listener => exact ⟨by simp, hq⟩
    | other q' => exact ⟨by simp, hq⟩
  object := by simp [WorkerPc.object]

theorem inv_finish {s s' : State} {ev : Event} (h : Inv s) (hs : s.finish ev = some s') :
    Inv s' := by
  cases ev with
  | close i =>
    simp only [State.finish] at hs
    split at hs
    · next hpc hc =>
      split at hs
      · next hph => cases hs; exact inv_close h hpc hc hph
      · cases hs
    · cases hs
  | destroy i =>
    simp only [State.finish] at hs
    split at hs
    · next hpc hc =>
      split at hs
      · next hph => cases hs; exact inv_destroy h hpc hc hph
      · cases hs
    · cases hs
  | closeSocket =>
    simp only [State.finish] at hs
    split at hs
    · next hpc =>
      split at hs
      · next hc => cases hs; exact inv_closeSocket h hpc hc
      · cases hs
    · cases hs
  | _ => cases hs

/-! ## Other sockets -/

theorem inv_other {s s' : State} {ev : Event} (h : Inv s) (hs : s.other ev = some s') :
    Inv s' := by
  cases ev with
  | openOther fd =>
    simp only [State.other] at hs
    split at hs
    · cases hs
    · next hfd =>
      cases hs
      refine ⟨?_, h.object⟩
      rw [opened_cons]
      refine h.exclusive.acquire (b := .other fd) hfd ?_
      intro o q hq
      cases o with
      | other q' =>
        obtain ⟨hmem, rfl⟩ := holds_other.mp hq
        rcases List.mem_cons.mp hmem with rfl | hmem
        · exact .inl ⟨rfl, rfl⟩
        · exact .inr (holds_other.mpr ⟨hmem, rfl⟩)
      | _ => exact .inr hq
  | closeOther fd =>
    simp only [State.other] at hs
    split at hs
    · next hfd =>
      cases hs
      refine ⟨?_, h.object⟩
      show Exclusive {q | q ∈ (s.closeFd fd).opened} _
      rw [opened_closeFd]
      refine h.exclusive.release (holds_other.mpr ⟨hfd, rfl⟩) ?_
      intro o q hq
      cases o with
      | other q' =>
        obtain ⟨hmem, rfl⟩ := holds_other.mp hq
        simp only [List.mem_filter, decide_eq_true_eq] at hmem
        exact ⟨by simpa using hmem.2, holds_other.mpr ⟨hmem.1, rfl⟩⟩
      | _ => exact ⟨by simp, hq⟩
    · cases hs
  | _ => cases hs

/-! ## Every run -/

/-- Every step whose task is current keeps the invariant. -/
theorem inv_step {s s' : State} {ev : Event} (h : Inv s) (hcurrent : taskCurrent s ev = true)
    (hs : s.step ev = some s') : Inv s' := by
  unfold State.step at hs
  cases ev with
  | find | clone | cloneFails | add | schedule => exact inv_listen h hs
  | take | construct | constructFails | soclose | drop | publish =>
    exact inv_createUdpConnection h hcurrent hs
  | close | destroy | closeSocket => exact inv_finish h hs
  | openOther | closeOther => exact inv_other h hs

/-- Every live connection has an open descriptor, which is no other socket's and
no other live connection's. -/
structure DescriptorsOwned (s : State) : Prop where
  isOpen : ∀ c ∈ s.conns, c.live = true → c.fd ∈ s.opened
  notOthers : ∀ c ∈ s.conns, c.live = true → c.fd ∉ s.others
  unshared : s.conns.Pairwise fun c d => c.live = true → d.live = true → c.fd ≠ d.fd

/-- The descriptor that `createUdpConnection` closes in a step. -/
def closes (s : State) (ev : Event) : Option Nat :=
  match ev, s.worker with
  | .soclose, .failed fd _ => some fd
  | _, _ => none

/-- When `createUdpConnection` closes a descriptor, it is not that of a connection. -/
def ClosesNoOther (s : State) (ev : Event) : Prop :=
  ∀ c ∈ s.conns, c.live = true → closes s ev ≠ some c.fd

instance (s : State) (ev : Event) : Decidable (ClosesNoOther s ev) :=
  inferInstanceAs (Decidable (∀ c ∈ s.conns, _))

theorem Inv.descriptorsOwned {s : State} (h : Inv s) : DescriptorsOwned s where
  isOpen := by
    intro c hc hlive
    obtain ⟨i, hi⟩ := List.mem_iff_getElem?.mp hc
    exact h.exclusive.isLive (holds_conn.mpr ⟨c, hi, hlive, rfl⟩)
  notOthers := by
    intro c hc hlive hother
    obtain ⟨i, hi⟩ := List.mem_iff_getElem?.mp hc
    have := h.exclusive.unique (holds_conn.mpr ⟨c, hi, hlive, rfl⟩)
      (holds_other.mpr ⟨hother, rfl⟩)
    cases this
  unshared := by
    rw [List.pairwise_iff_getElem]
    intro i j hi hj hij hlive hlive' hfd
    have := h.exclusive.unique
      (holds_conn.mpr ⟨_, List.getElem?_eq_getElem hi, hlive, rfl⟩)
      (holds_conn.mpr ⟨_, List.getElem?_eq_getElem hj, hlive', hfd.symm⟩)
    simp only [Holder.conn.injEq] at this
    omega

theorem Inv.closesNoOther {s : State} {ev : Event} (h : Inv s)
    (hcurrent : taskCurrent s ev = true) : ClosesNoOther s ev := by
  intro c hc hlive hclose
  obtain ⟨i, hi⟩ := List.mem_iff_getElem?.mp hc
  have hconn : holds s (.conn i) = some c.fd := holds_conn.mpr ⟨c, hi, hlive, rfl⟩
  unfold closes at hclose
  split at hclose
  · next fd p hpc =>
    obtain rfl : fd = c.fd := by simpa using hclose
    simp only [taskCurrent, hpc, State.current_iff] at hcurrent
    rcases hcurrent with he | hfd
    · -- the entry of the peer holds it
      have := h.exclusive.unique hconn (holds_entry.mpr ⟨by simp [hpc, WorkerPc.writes], he⟩)
      cases this
    · exact hfd (h.exclusive.isLive hconn)
  · cases hclose

/-- **Descriptors of UDP connections**: in every run of the listener, the worker
and the other sockets in which the tasks are current, no descriptor is shared,
used after its end or closed for another connection. -/
theorem descriptors_owned (fds : List Nat) (evs : List Event) (s : State)
    (hcurrent : (machine fds).AllSteps (fun s ev => taskCurrent s ev = true) (machine fds).init evs)
    (hrun : (machine fds).run (machine fds).init evs = some s) :
    DescriptorsOwned s ∧ (machine fds).AllSteps ClosesNoOther (machine fds).init evs :=
  ⟨((machine fds).run_invariant (fun _ _ _ h hc hs => inv_step h hc hs) evs (inv_init fds)
      hcurrent hrun).descriptorsOwned,
    (machine fds).allSteps_of_invariant (fun _ _ _ h hc hs => inv_step h hc hs)
      (fun _ _ h hc => h.closesNoOther hc) evs (inv_init fds) hcurrent⟩

/-! ## A stale task -/

/-- Two peers. -/
def peerA : Peer := ⟨0x0100007f, 5000⟩

def peerB : Peer := ⟨0x0100007f, 5001⟩

/-- A datagram of a new peer: the listener clones the descriptor `fd` and schedules a task. -/
def firstDatagram (p : Peer) (fd : Nat) : List Event :=
  [.find p, .clone fd, .add, .schedule true]

/-- The worker makes a connection for its next task. -/
def accept (id : UInt32) : List Event := [.take, .construct id, .publish]

/-- Connection `i` ends. -/
def finish (i : Nat) : List Event := [.close i, .destroy i, .closeSocket]

/-- The first connection ends when a second datagram of its peer is taken, and
descriptor 7 goes on to the next peer. -/
theorem descriptors_owned_two_peers :
    ∃ s, (machine [0, 1, 2]).run (machine [0, 1, 2]).init
        (firstDatagram peerA 7 ++ accept 1 ++ [.find peerA, .schedule true, .take] ++ finish 0 ++
          firstDatagram peerB 7 ++ accept 2) = some s ∧
      DescriptorsOwned s ∧
      (machine [0, 1, 2]).AllSteps ClosesNoOther (machine [0, 1, 2]).init
        (firstDatagram peerA 7 ++ accept 1 ++ [.find peerA, .schedule true, .take] ++ finish 0 ++
          firstDatagram peerB 7 ++ accept 2) :=
  ⟨_, rfl, descriptors_owned [0, 1, 2] _ _ (by decide +kernel) rfl⟩

/-- The second datagram of `peerA` waits in the queue when its connection ends. -/
def staleTask : List Event :=
  firstDatagram peerA 7 ++ accept 1 ++ [.find peerA, .schedule true] ++ finish 0 ++
    firstDatagram peerB 7

/-- **A stale task takes the descriptor of another peer**: two connections share
it, and when the constructor of the second one fails, the first one loses its
descriptor. -/
theorem stale_task_takes_descriptor :
    (¬ ∀ fds evs s, (machine fds).run (machine fds).init evs = some s → DescriptorsOwned s) ∧
    ¬ ∀ fds evs s, (machine fds).run (machine fds).init evs = some s →
      (machine fds).AllSteps ClosesNoOther (machine fds).init evs := by
  constructor
  · intro h
    have hshared := (h [0, 1, 2] (staleTask ++ accept 2 ++ accept 3) _ rfl).unshared
    exact absurd hshared (by decide +kernel)
  · intro h
    have hclose := h [0, 1, 2] (staleTask ++ accept 2 ++ [.take, .constructFails, .soclose]) _ rfl
    exact absurd hclose (by decide +kernel)

end LinSocketIo.Core.UdpListener
