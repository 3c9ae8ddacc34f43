/-
LinSocketIo.Core.TcpListenerTheorems — every TCP connection that is accepted is
given to one worker, in order, and its descriptor to nobody else.

Two invariants carry this. `Owned`: every open descriptor has one owner, a
connection or another socket of the process. `Placed`: what the threads know of
a connection is what has become of it, and the tasks of a worker are the last of
the connections that were given to it. A connection that moves from one place to
another keeps them (`Owned.setPlace`, `Placed.move`), and every step is such a
move or leaves the connections alone.

* `connections_handed_over` — what holds in every state of every run.

Of the connections without a task (`Place.refused`) nothing says that their
descriptors are closed, and none ever is.
-/
import LinSocketIo.Base.Ownership
import LinSocketIo.Core.TcpListener

namespace LinSocketIo.Core.TcpListener

open LinSocketIo.Base

variable {s s' : State} {i j n w fd : Nat} {c : Accepted} {p : Place}

/-! ## A connection at another place -/

theorem conns_setPlace (hc : s.conns[i]? = some c) (p : Place) (j : Nat) :
    (s.setPlace i p).conns[j]? = if j = i then some { c with place := p } else s.conns[j]? := by
  by_cases hj : j = i
  · subst hj
    simp [State.setPlace, hc]
  · simp [State.setPlace, hj, Ne.symm hj]

theorem place_setPlace (hc : s.conns[i]? = some c) (p : Place) (j : Nat) :
    (s.setPlace i p).place j = if j = i then some p else s.place j := by
  unfold State.place
  rw [conns_setPlace hc]
  split
  · rfl
  · rfl

theorem place_eq (hc : s.conns[i]? = some c) : s.place i = some c.place := by
  simp [State.place, hc]

theorem conns_accept (s : State) (fd : Nat) (context : IServerContext) (j : Nat) :
    (s.accept fd context).conns[j]? =
      if j = s.conns.length then some ⟨fd, context, .listener⟩ else s.conns[j]? := by
  unfold State.accept
  rcases Nat.lt_trichotomy j s.conns.length with hj | rfl | hj
  · rw [List.getElem?_append_left hj, if_neg (Nat.ne_of_lt hj)]
  · simp
  · rw [if_neg (Nat.ne_of_gt hj), List.getElem?_eq_none (by simp; omega),
      List.getElem?_eq_none (Nat.le_of_lt hj)]

theorem conns_of_place (h : s.place i = some p) : ∃ c, s.conns[i]? = some c ∧ c.place = p :=
  Option.map_eq_some_iff.mp h

/-! ## Who has which descriptor -/

/-- All that can have a descriptor. -/
inductive Holder where
  | conn (i : Nat)
  | other (fd : Nat)

/-- The descriptor of each holder. -/
def holds (s : State) : Holder → Option Nat
  | .conn i => s.conns[i]?.bind fun c => if c.place.live then some c.fd else none
  | .other fd => if fd ∈ s.others then some fd else none

theorem holds_conn {q : Nat} :
    holds s (.conn i) = some q ↔ ∃ c, s.conns[i]? = some c ∧ c.place.live = true ∧ c.fd = q := by
  cases hc : s.conns[i]? with
  | none => simp [holds, hc]
  | some c => simp [holds, hc]

theorem holds_other {q : Nat} : holds s (.other fd) = some q ↔ fd ∈ s.others ∧ fd = q := by
  simp [holds]

/-- The open descriptors are those that somebody has, and nobody has one of another. -/
structure Owned (s : State) : Prop where
  exclusive : Exclusive {fd | fd ∈ s.opened} (holds s)
  covered : ∀ fd ∈ s.opened, ∃ o, holds s o = some fd

namespace Owned

/-- A step that leaves all descriptors where they are. -/
theorem same (h : Owned s) (hopened : s'.opened = s.opened) (hholds : holds s' = holds s) :
    Owned s' where
  exclusive := by
    rw [hopened, hholds]
    exact h.exclusive
  covered := by
    rw [hopened, hholds]
    exact h.covered

theorem acquire {b : Holder} (h : Owned s) (hfd : fd ∉ s.opened)
    (hopened : s'.opened = fd :: s.opened)
    (hnew : ∀ o q, holds s' o = some q ↔ (o = b ∧ q = fd) ∨ holds s o = some q) : Owned s' where
  exclusive := by
    have hset : {q | q ∈ s'.opened} = insert fd {q | q ∈ s.opened} := by
      ext q
      simp [hopened]
    rw [hset]
    exact h.exclusive.acquire (b := b) hfd fun o q hq => (hnew o q).mp hq
  covered := by
    intro q hq
    rw [hopened] at hq
    rcases List.mem_cons.mp hq with rfl | hq
    · exact ⟨b, (hnew b q).mpr (Or.inl ⟨rfl, rfl⟩)⟩
    · obtain ⟨o, ho⟩ := h.covered q hq
      exact ⟨o, (hnew o q).mpr (Or.inr ho)⟩

theorem release {a : Holder} (h : Owned s) (ha : holds s a = some fd)
    (hopened : s'.opened = s.opened.filter (· ≠ fd))
    (hrest : ∀ o q, holds s' o = some q ↔ o ≠ a ∧ holds s o = some q) : Owned s' where
  exclusive := by
    have hset : {q | q ∈ s'.opened} = {q | q ∈ s.opened} \ {fd} := by
      ext q
      simp [hopened]
    rw [hset]
    exact h.exclusive.release ha fun o q hq => (hrest o q).mp hq
  covered := by
    intro q hq
    rw [hopened] at hq
    obtain ⟨hmem, hne⟩ := List.mem_filter.mp hq
    obtain ⟨o, ho⟩ := h.covered q hmem
    refine ⟨o, (hrest o q).mpr ⟨?_, ho⟩⟩
    rintro rfl
    rw [ha] at ho
    simp_all

theorem setPlace (h : Owned s) (hc : s.conns[i]? = some c) (hlive : p.live = c.place.live) :
    Owned (s.setPlace i p) := by
  refine h.same rfl (funext fun o => ?_)
  cases o with
  | other fd => rfl
  | conn j =>
    simp only [holds, conns_setPlace hc]
    split
    · next hj =>
      subst hj
      simp [hc, hlive]
    · rfl

/-- A connection ends with its descriptor. -/
theorem gone (h : Owned s) (hc : s.conns[i]? = some c) (hlive : c.place.live = true) (w : Nat) :
    Owned ((s.closeFd c.fd).setPlace i (.gone w)) := by
  refine h.release (a := .conn i) (holds_conn.mpr ⟨c, hc, hlive, rfl⟩) rfl fun o q => ?_
  cases o with
  | other fd => simp [holds, State.closeFd, State.setPlace]
  | conn j =>
    have hc' : (s.closeFd c.fd).conns[i]? = some c := hc
    simp only [holds, conns_setPlace hc']
    split
    · next hj => simp [hj, Place.live]
    · next hj => simp [hj, State.closeFd]

theorem accept (h : Owned s) (hfd : fd ∉ s.opened) (context : IServerContext) :
    Owned (s.accept fd context) := by
  refine h.acquire (b := .conn s.conns.length) hfd rfl fun o q => ?_
  cases o with
  | other fd' =>
    simp only [reduceCtorEq, false_and, false_or]
    exact Iff.rfl
  | conn j =>
    simp only [holds, conns_accept]
    split
    · next hj =>
      simp only [hj, Option.bind_some, Place.live, if_true, Option.some.injEq, true_and,
        List.getElem?_eq_none (Nat.le_refl _), Option.bind_none, reduceCtorEq, or_false]
      exact eq_comm
    · next hj => simp [hj]

end Owned

/-! ## What the threads know of a connection -/

/-- What the threads know of the connections is what has become of them. -/
structure Placed (n : Nat) (s : State) : Prop where
  size : s.scheduler.workers.length = n
  listener : ∀ i, s.listener = some i ↔ s.place i = some .listener
  last : ∀ i, s.listener = some i → i + 1 = s.conns.length
  alone : ∀ i, s.listener = some i → s.busy 0 = none
  waiting : ∀ w i, i ∈ s.waiting w ↔ s.place i = some (.queued w)
  shared : ∀ i, s.place i ≠ some (.queued 0)
  busy : ∀ w i, s.busy w = some i ↔ s.place i = some (.creating w) ∨ s.place i = some (.failed w)
  inOrder : ∀ w, (s.busy w).toList ++ s.waiting w <:+ s.given w
  worker : ∀ (i : Nat) (c : Accepted) (w : Nat), s.conns[i]? = some c → c.place.worker = some w →
    c.context.worker n c.fd = w

theorem isGiven_congr (h : s'.workerOf i = s.workerOf i) (w : Nat) :
    s'.isGiven w i = s.isGiven w i := by
  unfold State.isGiven
  rw [h]

theorem given_congr (hlength : s'.conns.length = s.conns.length)
    (hworker : ∀ i, s'.workerOf i = s.workerOf i) (w : Nat) : s'.given w = s.given w := by
  unfold State.given
  rw [hlength]
  exact List.filter_congr fun i _ => isGiven_congr (hworker i) w

theorem length_setPlace (s : State) (i : Nat) (p : Place) :
    (s.setPlace i p).conns.length = s.conns.length := by
  simp [State.setPlace]

theorem workerOf_setPlace (hc : s.conns[i]? = some c) (p : Place) (j : Nat) :
    (s.setPlace i p).workerOf j = if j = i then p.worker else s.workerOf j := by
  unfold State.workerOf
  rw [place_setPlace hc]
  split
  · rfl
  · rfl

theorem workerOf_eq (hc : s.conns[i]? = some c) : s.workerOf i = c.place.worker := by
  simp [State.workerOf, place_eq hc]

/-- A connection that stays with its worker. -/
theorem given_setPlace (hc : s.conns[i]? = some c) (hworker : p.worker = c.place.worker) (w : Nat) :
    (s.setPlace i p).given w = s.given w := by
  refine given_congr (length_setPlace s i p) (fun j => ?_) w
  rw [workerOf_setPlace hc]
  split
  · next hj => rw [hj, workerOf_eq hc, hworker]
  · rfl

/-- The last connection is given to a worker. -/
theorem given_last (hc : s.conns[i]? = some c) (hplace : c.place.worker = none)
    (hlast : i + 1 = s.conns.length) (p : Place) (w : Nat) :
    (s.setPlace i p).given w = if p.worker = some w then s.given w ++ [i] else s.given w := by
  have hfront : (List.range i).filter ((s.setPlace i p).isGiven w) =
      (List.range i).filter (s.isGiven w) := by
    refine List.filter_congr fun j hj => isGiven_congr ?_ w
    rw [workerOf_setPlace hc, if_neg (Nat.ne_of_lt (List.mem_range.mp hj))]
  have hold : s.isGiven w i = false := by simp [State.isGiven, workerOf_eq hc, hplace]
  have hnew : (s.setPlace i p).isGiven w i = decide (p.worker = some w) := by
    simp [State.isGiven, workerOf_setPlace hc]
  unfold State.given
  rw [length_setPlace, ← hlast, List.range_succ, List.filter_append, List.filter_append, hfront]
  split
  · next h => simp [hold, hnew, h]
  · next h => simp [hold, hnew, h]

theorem place_length (s : State) : s.place s.conns.length = none := by simp [State.place]

theorem place_accept (s : State) (fd : Nat) (context : IServerContext) (j : Nat) :
    (s.accept fd context).place j =
      if j = s.conns.length then some .listener else s.place j := by
  unfold State.place
  rw [conns_accept]
  split
  · rfl
  · rfl

/-- A connection that was just accepted has not been given to anybody. -/
theorem given_accept (s : State) (fd : Nat) (context : IServerContext) (w : Nat) :
    (s.accept fd context).given w = s.given w := by
  have hworker (j : Nat) : (s.accept fd context).workerOf j = s.workerOf j := by
    unfold State.workerOf
    rw [place_accept]
    split
    · next hj => simp [hj, place_length, Place.worker]
    · rfl
  have hlast : (s.accept fd context).isGiven w s.conns.length = false := by
    rw [isGiven_congr (hworker _)]
    simp [State.isGiven, State.workerOf, place_length]
  have hfront : (List.range s.conns.length).filter ((s.accept fd context).isGiven w) =
      (List.range s.conns.length).filter (s.isGiven w) :=
    List.filter_congr fun j _ => isGiven_congr (hworker j) w
  have hlength : (s.accept fd context).conns.length = s.conns.length + 1 := by
    simp [State.accept]
  unfold State.given
  rw [hlength, List.range_succ, List.filter_append, hfront]
  simp [hlast]

theorem given_nodup (s : State) (w : Nat) : (s.given w).Nodup :=
  List.nodup_range.filter _

namespace Placed

theorem waiting_nodup (h : Placed n s) (w : Nat) : (s.waiting w).Nodup :=
  ((List.suffix_append _ _).trans (h.inOrder w)).sublist.nodup (given_nodup s w)

theorem waiting_zero (h : Placed n s) : s.waiting 0 = [] :=
  List.eq_nil_iff_forall_not_mem.mpr fun i hi => h.shared i ((h.waiting 0 i).mp hi)

/-- A step that leaves the connections where they are. -/
theorem same (h : Placed n s) (hconns : s'.conns = s.conns) (hlistener : s'.listener = s.listener)
    (hbusy : s'.busy = s.busy) (hsize : s'.scheduler.workers.length = n)
    (hwaiting : ∀ w, s'.waiting w = s.waiting w) : Placed n s' := by
  have hplace : s'.place = s.place := by
    unfold State.place
    rw [hconns]
  have hgiven (w : Nat) : s'.given w = s.given w :=
    given_congr (by rw [hconns]) (fun i => by rw [State.workerOf, hplace, State.workerOf]) w
  exact {
    size := hsize
    listener := by rw [hlistener, hplace]; exact h.listener
    last := by rw [hlistener, hconns]; exact h.last
    alone := by rw [hlistener, hbusy]; exact h.alone
    waiting := by simp only [hwaiting, hplace]; exact h.waiting
    shared := by rw [hplace]; exact h.shared
    busy := by rw [hbusy, hplace]; exact h.busy
    inOrder := by simp only [hbusy, hwaiting, hgiven]; exact h.inOrder
    worker := by rw [hconns]; exact h.worker }

/-- A connection goes to another place, and the threads know. -/
theorem move (h : Placed n s) (hc : s.conns[i]? = some c)
    (hconns : s'.conns = (s.setPlace i p).conns) (hsize : s'.scheduler.workers.length = n)
    (hlistener : ∀ j, s'.listener = some j ↔ s.listener = some j ∧ j ≠ i)
    (halone : ∀ j, s'.listener = some j → s'.busy 0 = none)
    (hwaiting : ∀ w j, j ∈ s'.waiting w ↔ (j = i ∧ p = .queued w) ∨ (j ≠ i ∧ j ∈ s.waiting w))
    (hbusy : ∀ w j, s'.busy w = some j ↔
      (j = i ∧ (p = .creating w ∨ p = .failed w)) ∨ (j ≠ i ∧ s.busy w = some j))
    (hinOrder : ∀ w, (s'.busy w).toList ++ s'.waiting w <:+ (s.setPlace i p).given w)
    (hp : p ≠ .listener ∧ p ≠ .queued 0)
    (hworker : ∀ w, p.worker = some w → c.context.worker n c.fd = w) : Placed n s' := by
  have hplace (j : Nat) : s'.place j = if j = i then some p else s.place j := by
    rw [← place_setPlace hc]
    unfold State.place
    rw [hconns]
  have hgiven (w : Nat) : s'.given w = (s.setPlace i p).given w := by
    refine given_congr (by rw [hconns]) (fun j => ?_) w
    unfold State.workerOf State.place
    rw [hconns]
  refine ⟨hsize, fun j => ?_, fun j hj => ?_, halone, fun w j => ?_, fun j => ?_, fun w j => ?_,
    fun w => ?_, fun j d w hd hdw => ?_⟩
  · rw [hlistener, hplace, h.listener]
    split
    · next hj => simp [hj, hp.1]
    · next hj => simp [hj]
  · rw [hconns, length_setPlace]
    exact h.last j ((hlistener j).mp hj).1
  · rw [hwaiting, hplace, h.waiting]
    split
    · next hj => simp [hj]
    · next hj => simp [hj]
  · rw [hplace]
    split
    · simp [hp.2]
    · exact h.shared j
  · rw [hbusy, hplace, h.busy]
    split
    · next hj => simp [hj]
    · next hj => simp [hj]
  · rw [hgiven]
    exact hinOrder w
  · rw [hconns, conns_setPlace hc] at hd
    split at hd
    · obtain rfl := Option.some.inj hd
      exact hworker w hdw
    · exact h.worker j d w hd hdw

end Placed

/-! ## The queues -/

theorem addTask_spec (sch : Scheduler (Option Nat)) (index : Nat) (t : Option Nat) :
    (sch.addTask index t).1.workers.length = sch.workers.length ∧
      ∀ w, queueOf (sch.addTask index t).1 w =
        if (sch.addTask index t).2 = true ∧ w = index then queueOf sch w ++ [t]
        else queueOf sch w := by
  unfold Scheduler.addTask
  cases hworker : sch.workers[index]? with
  | none => simp
  | some worker =>
    refine ⟨by simp, fun w => ?_⟩
    obtain ⟨hlt, hget⟩ := List.getElem?_eq_some_iff.mp hworker
    by_cases hw : w = index
    · subst hw
      by_cases hfull : worker.queue.length > worker.queueLimit
      · simp [queueOf, Worker.addTask, hfull, hget, hlt]
      · simp [queueOf, Worker.addTask, hfull, hget, hlt]
    · simp [queueOf, hw, List.getElem?_set_ne (Ne.symm hw)]

theorem schedule_spec (sch : Scheduler (Option Nat)) (hashkey : Nat) (t : Option Nat) :
    (sch.schedule hashkey t).1.workers.length = sch.workers.length ∧
      ∀ w, queueOf (sch.schedule hashkey t).1 w =
        if (sch.schedule hashkey t).2 = true ∧ w = hashkey % (sch.workers.length - 1) + 1 then
          queueOf sch w ++ [t]
        else queueOf sch w := by
  unfold Scheduler.schedule
  split
  · simp
  · split
    · simp
    · exact addTask_spec sch _ t

namespace Placed

theorem place_listener (h : Placed n s) (hl : s.listener = some i) (hc : s.conns[i]? = some c) :
    c.place = .listener := by
  have := (h.listener i).mp hl
  rw [place_eq hc] at this
  exact Option.some.inj this

/-- What the listener has just accepted waits for no worker, and no worker is making it. -/
theorem untouched (h : Placed n s) (hl : s.listener = some i) (w : Nat) :
    i ∉ s.waiting w ∧ s.busy w ≠ some i := by
  have hplace := (h.listener i).mp hl
  constructor
  · rw [h.waiting, hplace]
    simp
  · rw [Ne, h.busy, hplace]
    simp

/-- The listener lets go of a connection that nobody gets. -/
theorem refuse (h : Placed n s) (hl : s.listener = some i) (hc : s.conns[i]? = some c)
    {sch : Scheduler (Option Nat)} (hsize : sch.workers.length = n)
    (hqueue : ∀ w, queueOf sch w = queueOf s.scheduler w) :
    Placed n { s.setPlace i .refused with listener := none, scheduler := sch } := by
  have hplace := h.place_listener hl hc
  have hwaiting (w : Nat) : State.waiting { s.setPlace i .refused with
      listener := none, scheduler := sch } w = s.waiting w := by
    simp [State.waiting, State.setPlace, hqueue]
  refine h.move (p := .refused) hc rfl hsize (fun j => ?_) (fun j hj => by cases hj) (fun w j => ?_)
    (fun w j => ?_) (fun w => ?_) ⟨by simp, by simp⟩ (fun w hw => by cases hw)
  · simp [hl, eq_comm]
  · rw [hwaiting]
    have := (h.untouched hl w).1
    grind
  · have := (h.untouched hl w).2
    show s.busy w = some j ↔ _
    grind
  · rw [hwaiting, given_last hc (by rw [hplace]; rfl) (h.last i hl)]
    exact h.inOrder w

/-- The listener makes the connection itself. -/
theorem share (h : Placed n s) (hl : s.listener = some i) (hc : s.conns[i]? = some c)
    (hshare : c.context.shareThread = true) :
    Placed n { (s.setPlace i (.creating 0)).setBusy 0 (some i) with listener := none } := by
  have hnone : c.place.worker = none := by rw [h.place_listener hl hc]; rfl
  refine h.move (p := .creating 0) hc rfl h.size (fun j => ?_) (fun j hj => by cases hj)
    (fun w j => ?_) (fun w j => ?_) (fun w => ?_) ⟨by simp, by simp⟩ (fun w hw => ?_)
  · simp [hl, eq_comm]
  · have := (h.untouched hl w).1
    show j ∈ s.waiting w ↔ _
    grind
  · have hbusy := (h.untouched hl w).2
    have hidle := h.alone i hl
    show Function.update s.busy 0 (some i) w = some j ↔ _
    rw [Function.update_apply]
    grind
  · show (Function.update s.busy 0 (some i) w).toList ++ s.waiting w <:+ _
    rw [given_last hc hnone (h.last i hl), Function.update_apply]
    have horder := h.inOrder w
    by_cases hw : w = 0
    · subst hw
      simp [h.waiting_zero, Place.worker]
    · simpa [hw, Ne.symm hw, Place.worker] using horder
  · obtain rfl : 0 = w := Option.some.inj hw
    simp [IServerContext.worker, hshare]

/-- The listener gives a task to a worker. -/
theorem enqueue (h : Placed n s) (hl : s.listener = some i) (hc : s.conns[i]? = some c)
    {sch : Scheduler (Option Nat)} (hsize : sch.workers.length = n)
    (hworker : c.context.worker n c.fd = w) (hpos : w ≠ 0)
    (hqueue : ∀ v, queueOf sch v =
      if v = w then queueOf s.scheduler v ++ [some i] else queueOf s.scheduler v) :
    Placed n { s.setPlace i (.queued w) with listener := none, scheduler := sch } := by
  have hnone : c.place.worker = none := by rw [h.place_listener hl hc]; rfl
  have hwaiting (v : Nat) : State.waiting { s.setPlace i (.queued w) with
      listener := none, scheduler := sch } v =
      if v = w then s.waiting v ++ [i] else s.waiting v := by
    simp only [State.waiting, State.setPlace, hqueue]
    split
    · simp [List.append_assoc]
    · rfl
  refine h.move (p := .queued w) hc rfl hsize (fun j => ?_) (fun j hj => by cases hj)
    (fun v j => ?_) (fun v j => ?_) (fun v => ?_) ⟨by simp, by simp [hpos]⟩
    (fun v hv => hworker.trans (Option.some.inj hv))
  · simp [hl, eq_comm]
  · have := (h.untouched hl v).1
    rw [hwaiting]
    grind
  · have := (h.untouched hl v).2
    show s.busy v = some j ↔ _
    grind
  · rw [hwaiting, given_last hc hnone (h.last i hl)]
    have horder := h.inOrder v
    show (s.busy v).toList ++ _ <:+ _
    by_cases hv : v = w
    · subst hv
      obtain ⟨front, hfront⟩ := horder
      exact ⟨front, by simp [← hfront, Place.worker]⟩
    · simpa [hv, Ne.symm hv, Place.worker] using horder

theorem onAccept (h : Placed n s) (hl : s.listener = some i) (hc : s.conns[i]? = some c) :
    Placed n (s.onAccept i c) := by
  unfold State.onAccept
  split
  · next hshare => exact h.share hl hc hshare
  · next hshare =>
    obtain ⟨hlength, hqueue⟩ := schedule_spec s.scheduler (c.context.key c.fd).toNat (some i)
    have hworker : c.context.worker s.scheduler.workers.length c.fd =
        (c.context.key c.fd).toNat % (s.scheduler.workers.length - 1) + 1 := by
      simp [IServerContext.worker, hshare]
    dsimp only
    split
    · next htaken =>
      refine h.enqueue hl hc (hlength.trans h.size) (by rw [h.size]) (by simp [hworker]) fun v => ?_
      simp only [hqueue, htaken, hworker, true_and]
    · next htaken =>
      exact h.refuse hl hc (hlength.trans h.size) fun w => by simp [hqueue, htaken]

end Placed

namespace Owned

theorem onAccept (h : Owned s) (hc : s.conns[i]? = some c) (hplace : c.place = .listener) :
    Owned (s.onAccept i c) := by
  have hmoved (p : Place) (hp : p.live = true) : Owned (s.setPlace i p) :=
    h.setPlace hc (by rw [hp, hplace]; rfl)
  unfold State.onAccept
  split
  · exact (hmoved (.creating 0) rfl).same rfl rfl
  · dsimp only
    split
    · exact (hmoved (.queued _) rfl).same rfl rfl
    · exact (hmoved .refused rfl).same rfl rfl

theorem openOther (h : Owned s) (hfd : fd ∉ s.opened) :
    Owned { s with opened := fd :: s.opened, others := fd :: s.others } := by
  refine h.acquire (b := .other fd) hfd rfl fun o q => ?_
  cases o with
  | conn i => simp [holds]
  | other fd' =>
    simp only [holds_other, List.mem_cons, Holder.other.injEq]
    grind

theorem closeOther (h : Owned s) (hfd : fd ∈ s.others) :
    Owned { s.closeFd fd with others := s.others.filter (· ≠ fd) } := by
  refine h.release (a := .other fd) (holds_other.mpr ⟨hfd, rfl⟩) rfl fun o q => ?_
  cases o with
  | conn i => simp [holds, State.closeFd]
  | other fd' =>
    simp only [holds_other, List.mem_filter, decide_eq_true_eq, ne_eq, Holder.other.injEq]
    grind

end Owned

/-! ## The connections -/

namespace Placed

theorem accept (h : Placed n s) (hl : s.listener = none) (hbusy : s.busy 0 = none) (fd : Nat)
    (context : IServerContext) : Placed n (s.accept fd context) := by
  have hlength : (s.accept fd context).conns.length = s.conns.length + 1 := by
    simp [State.accept]
  have hplace := place_accept s fd context
  have hnone (j : Nat) : s.place j ≠ some .listener := by
    rw [Ne, ← h.listener, hl]
    simp
  refine ⟨h.size, fun j => ?_, fun j hj => ?_, fun _ _ => hbusy, fun w j => ?_, fun j => ?_,
    fun w j => ?_, fun w => ?_, fun j c w hc hw => ?_⟩
  · rw [hplace]
    show some s.conns.length = some j ↔ _
    have := hnone j
    grind
  · obtain rfl := Option.some.inj hj
    exact hlength.symm
  · rw [hplace]
    show j ∈ s.waiting w ↔ _
    rw [h.waiting]
    have := place_length s
    grind
  · rw [hplace]
    have := h.shared j
    grind
  · rw [hplace]
    show s.busy w = some j ↔ _
    rw [h.busy]
    have := place_length s
    grind
  · rw [given_accept]
    exact h.inOrder w
  · rw [conns_accept] at hc
    split at hc
    · obtain rfl := Option.some.inj hc
      cases hw
    · exact h.worker j c w hc hw

/-- A worker runs the task of a connection. -/
theorem next {tasks : List (Option Nat)} (h : Placed n s) (hc : s.conns[i]? = some c)
    (hplace : c.place = .queued w) (hbusy : s.busy w = none) (hl : w = 0 → s.listener = none)
    (hwaiting : s.waiting w = i :: (tasks ++ queueOf s.scheduler w).filterMap id) :
    Placed n { (s.setPlace i (.creating w)).setBusy w (some i) with
      batch := Function.update s.batch w tasks } := by
  have hrest (v : Nat) : State.waiting { (s.setPlace i (.creating w)).setBusy w (some i) with
      batch := Function.update s.batch w tasks } v =
      if v = w then (tasks ++ queueOf s.scheduler w).filterMap id else s.waiting v := by
    by_cases hv : v = w
    · subst hv
      simp [State.waiting, State.setBusy, State.setPlace]
    · simp [State.waiting, State.setBusy, State.setPlace, hv]
  have hat : s.place i = some (.queued w) := by rw [place_eq hc, hplace]
  have hnodup := h.waiting_nodup w
  rw [hwaiting, List.nodup_cons] at hnodup
  refine h.move (p := .creating w) hc rfl h.size (fun j => ?_) (fun j hj => ?_) (fun v j => ?_)
    (fun v j => ?_) (fun v => ?_) ⟨by simp, by simp⟩ (fun v hv => ?_)
  · show s.listener = some j ↔ _
    have := h.listener i
    grind
  · have hj' : s.listener = some j := hj
    have hne : 0 ≠ w := by
      rintro rfl
      rw [hl rfl] at hj'
      cases hj'
    show Function.update s.busy w (some i) 0 = none
    rw [Function.update_apply, if_neg hne]
    exact h.alone j hj'
  · rw [hrest]
    have hv := h.waiting v i
    have hw := congrArg (j ∈ ·) hwaiting
    grind
  · show Function.update s.busy w (some i) v = some j ↔ _
    have hv := h.busy v i
    rw [Function.update_apply]
    grind
  · show (Function.update s.busy w (some i) v).toList ++ _ <:+ _
    rw [hrest, given_setPlace hc (by rw [hplace]; rfl), Function.update_apply]
    have horder := h.inOrder v
    by_cases hv : v = w
    · subst hv
      simpa [hbusy, hwaiting] using horder
    · simpa [hv] using horder
  · exact h.worker i c v hc (by rw [hplace]; exact hv)

/-- A connection that does not wait any more goes on at its worker. -/
theorem goOn (h : Placed n s) (hc : s.conns[i]? = some c) (hworker : c.place.worker = some w)
    (hplace : c.place ≠ .queued w) (hp : p.worker = some w ∧ p ≠ .queued w)
    (hconns : s'.conns = (s.setPlace i p).conns) (hlistener : s'.listener = s.listener)
    (hscheduler : s'.scheduler = s.scheduler) (hbatch : s'.batch = s.batch)
    (hbusy : ∀ v j, s'.busy v = some j ↔
      (j = i ∧ (p = .creating v ∨ p = .failed v)) ∨ (j ≠ i ∧ s.busy v = some j))
    (hsuffix : ∀ v, (s'.busy v).toList <:+ (s.busy v).toList) : Placed n s' := by
  have hat := place_eq hc
  have hwaiting (v : Nat) : s'.waiting v = s.waiting v := by
    rw [State.waiting, hscheduler, hbatch, State.waiting]
  have hqueued (q : Place) (hq : q.worker = some w) (hne : q ≠ .queued w) (v : Nat) :
      q ≠ .queued v := by
    rintro rfl
    obtain rfl : v = w := Option.some.inj hq
    exact hne rfl
  refine h.move (p := p) hc hconns (hscheduler ▸ h.size) (fun j => ?_) (fun j hj => ?_)
    (fun v j => ?_) hbusy (fun v => ?_) ⟨?_, hqueued p hp.1 hp.2 0⟩ (fun v hv => ?_)
  · have := h.listener i
    rw [hlistener]
    grind [Place.worker]
  · have hidle := hsuffix 0
    rw [h.alone j (hlistener ▸ hj)] at hidle
    simpa using hidle
  · have := h.waiting v i
    have := hqueued c.place hworker hplace v
    have := hqueued p hp.1 hp.2 v
    rw [hwaiting]
    grind
  · rw [hwaiting, given_setPlace hc (hp.1.trans hworker.symm)]
    obtain ⟨front, hfront⟩ := hsuffix v
    refine List.IsSuffix.trans ⟨front, ?_⟩ (h.inOrder v)
    rw [← hfront, List.append_assoc]
  · rintro rfl
    cases hp.1
  · rw [hp.1] at hv
    exact h.worker i c v hc (hworker.trans hv)

/-- A worker is done with a connection: it is in the map, or its descriptor is closed. -/
theorem made (h : Placed n s) (hc : s.conns[i]? = some c) (hbusy : s.busy w = some i)
    (hplace : c.place = .creating w ∨ c.place = .failed w) (hp : p = .listed w ∨ p = .gone w)
    {opened : List Nat} :
    Placed n { (s.setPlace i p).setBusy w none with opened := opened } := by
  refine h.goOn (w := w) hc ?_ ?_ ?_ rfl rfl rfl rfl (fun v j => ?_) fun v => ?_
  · rcases hplace with h1 | h1 <;> rw [h1] <;> rfl
  · rcases hplace with h1 | h1 <;> rw [h1] <;> simp
  · rcases hp with rfl | rfl <;> simp [Place.worker]
  · show Function.update s.busy w none v = some j ↔ _
    have := h.busy v i
    have := place_eq hc
    rw [Function.update_apply]
    grind
  · show (Function.update s.busy w none v).toList <:+ _
    rw [Function.update_apply]
    split
    · exact List.nil_suffix
    · exact List.suffix_refl _

theorem fails (h : Placed n s) (hc : s.conns[i]? = some c) (hbusy : s.busy w = some i)
    (hplace : c.place = .creating w) : Placed n (s.setPlace i (.failed w)) := by
  refine h.goOn (w := w) hc (by rw [hplace]; rfl) (by simp [hplace]) ⟨rfl, by simp⟩ rfl rfl rfl rfl
    (fun v j => ?_) fun v => List.suffix_refl _
  show s.busy v = some j ↔ _
  have := h.busy v i
  have := place_eq hc
  grind

/-- A connection that no thread is at goes on to its end. -/
theorem ends (h : Placed n s) (hc : s.conns[i]? = some c)
    (hplace : (c.place = .listed w ∧ p = .closed w) ∨ (c.place = .closed w ∧ p = .gone w))
    {opened : List Nat} : Placed n { s.setPlace i p with opened := opened } := by
  refine h.goOn (w := w) hc ?_ ?_ ?_ rfl rfl rfl rfl (fun v j => ?_) fun v => List.suffix_refl _
  · rcases hplace with ⟨h1, -⟩ | ⟨h1, -⟩ <;> rw [h1] <;> rfl
  · rcases hplace with ⟨h1, -⟩ | ⟨h1, -⟩ <;> simp [h1]
  · rcases hplace with ⟨-, rfl⟩ | ⟨-, rfl⟩ <;> simp [Place.worker]
  · show s.busy v = some j ↔ _
    have := h.busy v i
    have := place_eq hc
    grind

end Placed

/-! ## One step -/

theorem inv_listen {ev : Event} (ho : Owned s) (hp : Placed n s) (hs : s.listen ev = some s') :
    Owned s' ∧ Placed n s' := by
  cases ev with
  | accept fd context =>
    simp only [State.listen, Option.ite_none_right_eq_some, Option.some.injEq] at hs
    obtain ⟨⟨hl, hbusy, hfd⟩, rfl⟩ := hs
    exact ⟨ho.accept hfd context, hp.accept hl hbusy fd context⟩
  | onAccept =>
    simp only [State.listen] at hs
    split at hs
    · next i hl =>
      obtain ⟨c, hc, rfl⟩ := Option.map_eq_some_iff.mp hs
      exact ⟨ho.onAccept hc (hp.place_listener hl hc), hp.onAccept hl hc⟩
    · cases hs
  | handlerThrows =>
    simp only [State.listen] at hs
    split at hs
    · next i hl =>
      obtain rfl := Option.some.inj hs
      obtain ⟨c, hc, hplace⟩ := conns_of_place ((hp.listener i).mp hl)
      have hlive : Place.refused.live = c.place.live := by rw [hplace]; rfl
      exact ⟨(ho.setPlace hc hlive).same rfl rfl, hp.refuse hl hc hp.size fun _ => rfl⟩
    · cases hs
  | _ => cases hs

theorem inv_queues {ev : Event} (ho : Owned s) (hp : Placed n s) (hs : s.queues ev = some s') :
    Owned s' ∧ Placed n s' := by
  cases ev with
  | quit =>
    obtain rfl := Option.some.inj hs
    exact ⟨ho.same rfl rfl, hp.same rfl rfl rfl hp.size fun _ => rfl⟩
  | addOther w =>
    obtain rfl := Option.some.inj hs
    obtain ⟨hlength, hqueue⟩ := addTask_spec s.scheduler w none
    refine ⟨ho.same rfl rfl, hp.same rfl rfl rfl (hlength.trans hp.size) fun v => ?_⟩
    simp only [State.waiting, hqueue]
    split
    · simp
    · rfl
  | get w =>
    simp only [State.queues] at hs
    split at hs
    · next worker hworker =>
      simp only [Option.ite_none_right_eq_some, Option.some.injEq] at hs
      obtain ⟨⟨hbatch, -⟩, rfl⟩ := hs
      refine ⟨ho.same rfl rfl, hp.same rfl rfl rfl (by simp [hp.size]) fun v => ?_⟩
      obtain ⟨hlt, hget⟩ := List.getElem?_eq_some_iff.mp hworker
      by_cases hv : v = w
      · subst hv
        simp [State.waiting, queueOf, hlt, hget, hbatch]
      · simp [State.waiting, queueOf, hv, List.getElem?_set_ne (Ne.symm hv)]
    · cases hs
  | next w =>
    simp only [State.queues, Option.ite_none_right_eq_some] at hs
    obtain ⟨⟨hbusy, hl⟩, hs⟩ := hs
    split at hs
    · next i tasks hbatch =>
      obtain rfl := Option.some.inj hs
      have hwaiting : s.waiting w = i :: (tasks ++ queueOf s.scheduler w).filterMap id := by
        simp [State.waiting, hbatch]
      obtain ⟨c, hc, hplace⟩ := conns_of_place ((hp.waiting w i).mp (by simp [hwaiting]))
      have hlive : (Place.creating w).live = c.place.live := by rw [hplace]; rfl
      exact ⟨(ho.setPlace hc hlive).same rfl rfl, hp.next hc hplace hbusy hl hwaiting⟩
    · next tasks hbatch =>
      obtain rfl := Option.some.inj hs
      refine ⟨ho.same rfl rfl, hp.same rfl rfl rfl hp.size fun v => ?_⟩
      by_cases hv : v = w
      · subst hv
        simp [State.waiting, hbatch]
      · simp [State.waiting, hv]
    · cases hs
  | _ => cases hs

theorem inv_createTcpConnection {ev : Event} (ho : Owned s) (hp : Placed n s)
    (hs : s.createTcpConnection ev = some s') : Owned s' ∧ Placed n s' := by
  cases ev with
  | construct w =>
    simp only [State.createTcpConnection] at hs
    split at hs
    · next i hbusy =>
      simp only [Option.ite_none_right_eq_some, Option.some.injEq] at hs
      obtain ⟨hplace, rfl⟩ := hs
      obtain ⟨c, hc, hplace⟩ := conns_of_place hplace
      have hlive : (Place.listed w).live = c.place.live := by rw [hplace]; rfl
      exact ⟨(ho.setPlace hc hlive).same rfl rfl, hp.made hc hbusy (Or.inl hplace) (Or.inl rfl)⟩
    · cases hs
  | constructFails w =>
    simp only [State.createTcpConnection] at hs
    split at hs
    · next i hbusy =>
      simp only [Option.ite_none_right_eq_some, Option.some.injEq] at hs
      obtain ⟨hplace, rfl⟩ := hs
      obtain ⟨c, hc, hplace⟩ := conns_of_place hplace
      have hlive : (Place.failed w).live = c.place.live := by rw [hplace]; rfl
      exact ⟨ho.setPlace hc hlive, hp.fails hc hbusy hplace⟩
    · cases hs
  | soclose w =>
    simp only [State.createTcpConnection] at hs
    split at hs
    · next i hbusy =>
      split at hs
      · next c hc =>
        simp only [Option.ite_none_right_eq_some, Option.some.injEq] at hs
        obtain ⟨hplace, rfl⟩ := hs
        have hlive : c.place.live = true := by rw [hplace]; rfl
        exact ⟨(ho.gone hc hlive w).same rfl rfl, hp.made hc hbusy (Or.inr hplace) (Or.inr rfl)⟩
      · cases hs
    · cases hs
  | _ => cases hs

theorem inv_finish {ev : Event} (ho : Owned s) (hp : Placed n s) (hs : s.finish ev = some s') :
    Owned s' ∧ Placed n s' := by
  cases ev with
  | close i =>
    simp only [State.finish] at hs
    split at hs
    · next w hplace =>
      obtain rfl := Option.some.inj hs
      obtain ⟨c, hc, hplace⟩ := conns_of_place hplace
      have hlive : (Place.closed w).live = c.place.live := by rw [hplace]; rfl
      exact ⟨ho.setPlace hc hlive, hp.ends hc (Or.inl ⟨hplace, rfl⟩)⟩
    · cases hs
  | destroy i =>
    simp only [State.finish] at hs
    split at hs
    · next c hc =>
      split at hs
      · next w hplace =>
        obtain rfl := Option.some.inj hs
        have hlive : c.place.live = true := by rw [hplace]; rfl
        exact ⟨ho.gone hc hlive w, hp.ends hc (Or.inr ⟨hplace, rfl⟩)⟩
      · cases hs
    · cases hs
  | _ => cases hs

theorem inv_other {ev : Event} (ho : Owned s) (hp : Placed n s) (hs : s.other ev = some s') :
    Owned s' ∧ Placed n s' := by
  cases ev with
  | openOther fd =>
    simp only [State.other, Option.ite_none_left_eq_some, Option.some.injEq] at hs
    obtain ⟨hfd, rfl⟩ := hs
    exact ⟨ho.openOther hfd, hp.same rfl rfl rfl hp.size fun _ => rfl⟩
  | closeOther fd =>
    simp only [State.other, Option.ite_none_right_eq_some, Option.some.injEq] at hs
    obtain ⟨hfd, rfl⟩ := hs
    exact ⟨ho.closeOther hfd, hp.same rfl rfl rfl hp.size fun _ => rfl⟩
  | _ => cases hs

theorem inv_step {ev : Event} (h : Owned s ∧ Placed n s) (hs : s.step ev = some s') :
    Owned s' ∧ Placed n s' := by
  unfold State.step at hs
  cases ev with
  | accept | onAccept | handlerThrows => exact inv_listen h.1 h.2 hs
  | quit | addOther | get | next => exact inv_queues h.1 h.2 hs
  | construct | constructFails | soclose => exact inv_createTcpConnection h.1 h.2 hs
  | close | destroy => exact inv_finish h.1 h.2 hs
  | openOther | closeOther => exact inv_other h.1 h.2 hs

/-! ## Every run -/

theorem inv_init (fds : List Nat) (size queueLimit : Nat) :
    Owned (machine fds size queueLimit).init ∧ Placed size (machine fds size queueLimit).init := by
  have hholds (o : Holder) (q : Nat) :
      holds (machine fds size queueLimit).init o = some q ↔ o = .other q ∧ q ∈ fds := by
    cases o with
    | conn i => simp [holds, machine]
    | other fd => simp [holds, machine]; grind
  constructor
  · exact {
      exclusive := {
        isLive := fun hq => ((hholds _ _).mp hq).2
        unique := fun hq hq' => by rw [((hholds _ _).mp hq).1, ((hholds _ _).mp hq').1] }
      covered := fun fd hfd => ⟨.other fd, (hholds _ _).mpr ⟨rfl, hfd⟩⟩ }
  · have hwaiting (w : Nat) : (machine fds size queueLimit).init.waiting w = [] := by
      simp only [State.waiting, machine, queueOf, List.getElem?_replicate]
      split <;> rfl
    have hplace (i : Nat) : (machine fds size queueLimit).init.place i = none := rfl
    exact {
      size := List.length_replicate
      listener := by simp [machine, State.place]
      last := by simp [machine]
      alone := by simp [machine]
      waiting := by simp [hwaiting, hplace]
      shared := by simp [hplace]
      busy := by simp [machine, State.place]
      inOrder := fun w => by rw [hwaiting]; exact List.nil_suffix
      worker := by simp [machine] }

/-- What holds of the connections that were accepted. -/
structure HandedOver (size : Nat) (s : State) : Prop where
  /-- A connection that is not gone has an open descriptor to itself. -/
  isOpen : ∀ c ∈ s.conns, c.place.live = true → c.fd ∈ s.opened ∧ c.fd ∉ s.others
  unshared : s.conns.Pairwise fun c d => c.place.live = true → d.place.live = true → c.fd ≠ d.fd
  /-- An open descriptor is that of such a connection, or of another socket. -/
  covered : ∀ fd ∈ s.opened, fd ∈ s.others ∨ ∃ c ∈ s.conns, c.place.live = true ∧ c.fd = fd
  listening : ∀ i, s.listener = some i ↔ s.place i = some .listener
  /-- The connections that wait for a worker are in its queue, each of them once. -/
  waiting : ∀ w i, i ∈ s.waiting w ↔ s.place i = some (.queued w)
  once : ∀ w, (s.waiting w).Nodup
  making : ∀ w i, s.busy w = some i ↔ s.place i = some (.creating w) ∨ s.place i = some (.failed w)
  /-- What a worker is making and what waits for it are the last of what it was given. -/
  inOrder : ∀ w, (s.busy w).toList ++ s.waiting w <:+ s.given w
  /-- The worker is the one that the server's context says. -/
  worker : ∀ c ∈ s.conns, ∀ w, c.place.worker = some w → c.context.worker size c.fd = w

theorem handedOver (ho : Owned s) (hp : Placed n s) : HandedOver n s where
  isOpen c hc hlive := by
    obtain ⟨i, hi⟩ := List.mem_iff_getElem?.mp hc
    have hconn : holds s (.conn i) = some c.fd := holds_conn.mpr ⟨c, hi, hlive, rfl⟩
    refine ⟨ho.exclusive.isLive hconn, fun hother => ?_⟩
    have := ho.exclusive.unique hconn (holds_other.mpr ⟨hother, rfl⟩)
    cases this
  unshared := by
    rw [List.pairwise_iff_getElem]
    intro i j hi hj hij hlive hlive' hfd
    have := ho.exclusive.unique
      (holds_conn.mpr ⟨_, List.getElem?_eq_getElem hi, hlive, rfl⟩)
      (holds_conn.mpr ⟨_, List.getElem?_eq_getElem hj, hlive', hfd.symm⟩)
    simp only [Holder.conn.injEq] at this
    omega
  covered fd hfd := by
    obtain ⟨o, hholds⟩ := ho.covered fd hfd
    cases o with
    | conn i =>
      obtain ⟨c, hc, hlive, hcfd⟩ := holds_conn.mp hholds
      exact Or.inr ⟨c, List.mem_iff_getElem?.mpr ⟨i, hc⟩, hlive, hcfd⟩
    | other fd' =>
      obtain ⟨hmem, rfl⟩ := holds_other.mp hholds
      exact Or.inl hmem
  listening := hp.listener
  waiting := hp.waiting
  once := hp.waiting_nodup
  making := hp.busy
  inOrder := hp.inOrder
  worker c hc w hw := by
    obtain ⟨i, hi⟩ := List.mem_iff_getElem?.mp hc
    exact hp.worker i c w hi hw

/-- **Accepted connections**: in every run of the listeners, the workers and the other sockets,
each connection goes to the one worker that its server's context says, the connections of a
worker are made in the order in which they were accepted, and no descriptor is shared, or closed
by anybody but its owner. -/
theorem connections_handed_over (fds : List Nat) (size queueLimit : Nat) (evs : List Event)
    (s : State)
    (hrun : (machine fds size queueLimit).run (machine fds size queueLimit).init evs = some s) :
    HandedOver size s := by
  have h := (machine fds size queueLimit).run_invariant (C := fun _ _ => True)
    (P := fun s => Owned s ∧ Placed size s) (fun _ _ _ h _ hs => inv_step h hs) evs
    (inv_init fds size queueLimit) (Machine.allSteps_of_forall _ (fun _ _ => trivial) _) hrun
  exact handedOver h.1 h.2

/-- Two servers, one of which shares its thread, and three workers: descriptor 5 goes to worker 2,
6 stays with worker 0, and 7 fails on worker 2 behind 5. -/
def threeWorkers : List Event :=
  [.accept 5 ⟨false, none⟩, .onAccept, .accept 7 ⟨false, none⟩, .onAccept, .get 2,
    .accept 6 ⟨true, none⟩, .onAccept, .next 2, .construct 0, .construct 2, .next 2,
    .constructFails 2, .soclose 2, .close 0, .destroy 0, .openOther 5]

theorem connections_handed_over_threeWorkers :
    ∃ s, (machine [0, 1] 3 10).run (machine [0, 1] 3 10).init threeWorkers = some s ∧
      HandedOver 3 s :=
  ⟨_, rfl, connections_handed_over [0, 1] 3 10 threeWorkers _ rfl⟩

end LinSocketIo.Core.TcpListener
