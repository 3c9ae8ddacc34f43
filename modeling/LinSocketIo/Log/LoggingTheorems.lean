/-
LinSocketIo.Log.LoggingTheorems — what is in the log file at the end of the
program.

The sink thread finds the queue empty when every ticket has been worked off
(`Ring.Inv.emptied`). The flag of the destructor is reset before the sink
thread looks once more, so the notification that ends the wait of the
destructor comes after the queue was seen empty with the destructor waiting
(`Inv.locking`).

* `log_drained` — when the destructor is through, every record that was in
  the queue when it began has been handed to `LogFile::write`, unless its wait
  has ended on its own accord.
-/
import LinSocketIo.Log.Logging
import LinSocketIo.Log.RingTheorems

namespace LinSocketIo.Log

open LinSocketIo.Base

/-! ## The queue -/

namespace Ring

variable {threads size k : Nat} {s s' : Ring}

/-- A thread that logs leaves alone what the consumer has. -/
theorem produce_grows {i : Nat} (h : s.produce i = some s') :
    s'.consumer = s.consumer ∧ s'.out = s.out ∧
      s.tickets.map Ticket.record <+: s'.tickets.map Ticket.record := by
  unfold Ring.produce at h
  cases hp : s.producers i with
  | idle =>
    simp only [hp] at h
    cases h
  | reserving head =>
    simp only [hp] at h
    split at h
    · obtain rfl := Option.some.inj h
      exact ⟨rfl, rfl, List.prefix_refl _⟩
    · obtain rfl := Option.some.inj h
      exact ⟨rfl, rfl, List.prefix_refl _⟩
  | full head =>
    simp only [hp] at h
    obtain rfl := Option.some.inj h
    exact ⟨rfl, rfl, List.prefix_refl _⟩
  | reserved head =>
    simp only [hp] at h
    obtain rfl := Option.some.inj h
    refine ⟨rfl, rfl, ?_⟩
    rw [List.map_append]
    exact List.prefix_append _ _
  | ticketed head pos =>
    simp only [hp] at h
    split at h
    · obtain rfl := Option.some.inj h
      refine ⟨rfl, rfl, ?_⟩
      have hrecord : Ticket.record ∘ Ticket.publish i = Ticket.record := by
        funext t
        simp only [Function.comp_apply, Ticket.publish]
        split <;> rfl
      exact ⟨[], by rw [List.append_nil, List.map_map, hrecord]⟩
    · obtain rfl := Option.some.inj h
      exact ⟨rfl, rfl, List.prefix_refl _⟩
  | failed =>
    simp only [hp] at h
    obtain rfl := Option.some.inj h
    exact ⟨rfl, rfl, List.prefix_refl _⟩

/-- The consumer goes on in `consume`, or returns what it has copied. -/
theorem work_cases (h : s.work = some s') :
    s'.tickets = s.tickets ∧
      (s'.consumer ≠ .idle ∧ s'.out = s.out ∧ s'.consumer.size = s.consumer.size ∨
        s'.consumer = .idle ∧ s'.out = s.out ++ s.consumer.got) := by
  unfold Ring.work at h
  cases hc : s.consumer with
  | idle =>
    simp only [hc] at h
    cases h
  | testing n got =>
    simp only [hc] at h
    split at h
    · obtain rfl := Option.some.inj h
      exact ⟨rfl, Or.inl ⟨Consumer.noConfusion, rfl, rfl⟩⟩
    · obtain rfl := Option.some.inj h
      exact ⟨rfl, Or.inr ⟨rfl, rfl⟩⟩
  | loading n got =>
    simp only [hc] at h
    split at h
    · obtain rfl := Option.some.inj h
      exact ⟨rfl, Or.inr ⟨rfl, rfl⟩⟩
    · obtain rfl := Option.some.inj h
      exact ⟨rfl, Or.inl ⟨Consumer.noConfusion, rfl, rfl⟩⟩
  | copying n got pos dat =>
    cases dat with
    | nil =>
      simp only [hc] at h
      obtain rfl := Option.some.inj h
      exact ⟨rfl, Or.inl ⟨Consumer.noConfusion, rfl, rfl⟩⟩
    | cons block next =>
      simp only [hc] at h
      split at h
      · obtain rfl := Option.some.inj h
        exact ⟨rfl, Or.inr ⟨rfl, rfl⟩⟩
      · obtain rfl := Option.some.inj h
        exact ⟨rfl, Or.inl ⟨Consumer.noConfusion, rfl, rfl⟩⟩
  | clearing n got pos =>
    simp only [hc] at h
    obtain rfl := Option.some.inj h
    exact ⟨rfl, Or.inl ⟨Consumer.noConfusion, rfl, rfl⟩⟩
  | advancing n got =>
    simp only [hc] at h
    obtain rfl := Option.some.inj h
    exact ⟨rfl, Or.inl ⟨Consumer.noConfusion, rfl, rfl⟩⟩
  | decrementing n got =>
    simp only [hc] at h
    obtain rfl := Option.some.inj h
    exact ⟨rfl, Or.inl ⟨Consumer.noConfusion, rfl, rfl⟩⟩

/-- When `consumeable` says no, everything with a ticket has been returned. -/
theorem Inv.emptied (h : Inv threads size k s) (hidle : s.consumer = .idle)
    (hqueue : ¬ s.queueSize > 0) : s.out = bytes s.tickets := by
  have hq := h.queueSize
  have hpassed := h.passed
  have howes : s.consumer.owes = 0 := by
    rw [hidle]
    rfl
  obtain rfl : k = s.tickets.length := by omega
  obtain ⟨read, unread, happ, hout, -⟩ := h.front
  have hnone : pub s.tickets s.tickets.length = [] := by
    unfold pub
    rw [List.getElem?_eq_none (Nat.le_refl _)]
  rw [hnone, List.append_eq_nil_iff] at happ
  rw [happ.1, hidle, List.take_length] at hout
  simpa [Consumer.got] using hout

/-- The bytes of the first records do not change when others come. -/
theorem bytes_take_of_prefix {l l' : List Ticket}
    (h : l.map Ticket.record <+: l'.map Ticket.record) {n : Nat} (hn : n ≤ l.length) :
    bytes (l'.take n) = bytes (l.take n) := by
  unfold bytes
  rw [List.flatMap_def, List.flatMap_def, List.map_take, List.map_take]
  congr 2
  obtain ⟨rest, hrest⟩ := h
  rw [← hrest, List.take_append_of_le_length (by rw [List.length_map]; exact hn)]

end Ring

/-! ## The destructor and the sink thread -/

namespace Logging

/-- What the sink thread has taken from the queue and not handed over yet. -/
def pending (s : Logging) : List UInt8 :=
  match s.sink with
  | .writing dat => dat
  | .testing | .consuming | .checking | .locking | .waiting | .ended => []

/-- The records that were in the queue when the destructor began have been returned. -/
def Drained (s : Logging) : Prop := Ring.bytes (s.ring.tickets.take s.due) <+: s.ring.out

/-- What holds of the sink thread and the destructor at any time. -/
structure Inv (threads : Nat) (s : Logging) : Prop where
  ring : ∃ k, Ring.Inv threads logDataMaxSize k s.ring
  consuming : s.sink = .consuming → s.ring.consumer.size = some logDataMaxSize
  idle : s.sink ≠ .consuming → s.ring.consumer = .idle
  handed : s.writes.flatten ++ s.pending = s.ring.out
  calls : ∀ dat, dat ∈ s.writes ∨ s.sink = .writing dat → dat ≠ [] ∧ dat.length ≤ logDataMaxSize
  due : s.due ≤ s.ring.tickets.length
  /-- The flag has been reset, so the queue has been found empty since the destructor began. -/
  locking : s.closing = .waiting → s.threadSync = false → s.sink = .locking → s.Drained
  drained : s.closing = .notified ∨ s.closing = .joining ∨ s.closing = .joined → s.Drained

variable {threads : Nat} {s s' : Logging}

/-- The events come from threads whose records have blocks of the size that `produce` makes them,
and the wait of the destructor does not end on its own accord. -/
def Event.Regular : Event → Prop
  | .finish _ head => ∀ block ∈ head, block.length ≤ logDataMaxSize
  | .produce _ | .work | .close => True
  | .wake => False

/-- The queue moves on, and the sink thread stays where it is. -/
theorem Inv.setRing (h : Inv threads s) {r : Ring} (hring : ∃ k, Ring.Inv threads logDataMaxSize k r)
    (hsize : r.consumer.size = s.ring.consumer.size)
    (hidle : s.ring.consumer = .idle → r.consumer = .idle) (hout : r.out = s.ring.out)
    (htickets : s.ring.tickets.map Ticket.record <+: r.tickets.map Ticket.record) :
    Inv threads (s.setRing r) := by
  have hdrained : s.Drained → (s.setRing r).Drained := by
    intro hs
    unfold Drained at hs ⊢
    simp only [Logging.setRing]
    rw [Ring.bytes_take_of_prefix htickets h.due, hout]
    exact hs
  refine ⟨hring, fun hc => ?_, fun hc => hidle (h.idle hc), ?_, h.calls, ?_, ?_, ?_⟩
  · exact hsize.trans (h.consuming hc)
  · exact h.handed.trans hout.symm
  · have hlen := htickets.length_le
    rw [List.length_map, List.length_map] at hlen
    exact Nat.le_trans h.due hlen
  · intro hc hsync hsink
    exact hdrained (h.locking hc hsync hsink)
  · intro hc
    exact hdrained (h.drained hc)

theorem new_inv (threads : Nat) : Inv threads new where
  ring := ⟨0, Ring.new_inv threads logDataMaxSize⟩
  consuming h := by cases h
  idle _ := rfl
  handed := rfl
  calls dat h := by
    rcases h with h | h
    · cases h
    · cases h
  due := Nat.le_refl 0
  locking h := by cases h
  drained h := by rcases h with h | h | h <;> cases h

/-- A step of a thread that logs. -/
theorem Inv.log (h : Inv threads s) (hmax : threads ≤ 2147467264) (ev : Ring.Event)
    (hev : ev.Fits logDataMaxSize) (hlog : ev ≠ .work ∧ ∀ n, ev ≠ .consume n) {r : Ring}
    (hstep : Ring.step threads s.ring ev = some r) : Inv threads (s.setRing r) := by
  obtain ⟨k, hring⟩ := h.ring
  have hring' := Ring.step_inv hmax hring hev hstep
  cases ev with
  | finish i head =>
    simp only [Ring.step] at hstep
    split at hstep
    · obtain rfl := Option.some.inj hstep
      exact h.setRing hring' rfl id rfl (List.prefix_refl _)
    · cases hstep
  | produce i =>
    simp only [Ring.step] at hstep
    split at hstep
    · obtain ⟨hconsumer, hout, htickets⟩ := Ring.produce_grows hstep
      refine h.setRing hring' ?_ ?_ hout htickets
      · rw [hconsumer]
      · intro hidle
        rw [hconsumer, hidle]
    · cases hstep
  | consume n => exact absurd rfl (hlog.2 n)
  | work => exact absurd rfl hlog.1

/-- The sink thread is not in `consume`, and comes to another place where it has nothing. -/
theorem Inv.goTo (h : Inv threads s) (hnot : s.sink ≠ .consuming) (hpending : s.pending = [])
    (sink : Sink) (hsink : sink ≠ .consuming) (hsink' : ∀ dat, sink ≠ .writing dat)
    (hlocking : s.closing = .waiting → s.threadSync = false → sink = .locking → s.Drained) :
    Inv threads { s with sink := sink } := by
  refine ⟨h.ring, fun hc => absurd hc hsink, fun _ => h.idle hnot, ?_, fun dat hdat => ?_, h.due,
    hlocking, h.drained⟩
  · have hnone : pending { s with sink := sink } = [] := by
      cases sink with
      | writing dat => exact absurd rfl (hsink' dat)
      | testing => rfl
      | consuming => rfl
      | checking => rfl
      | locking => rfl
      | waiting => rfl
      | ended => rfl
    rw [hnone, ← hpending]
    exact h.handed
  · rcases hdat with hdat | hdat
    · exact h.calls dat (Or.inl hdat)
    · exact absurd hdat (hsink' dat)

/-- The sink thread calls `consume`. -/
theorem Inv.consume (h : Inv threads s) (hmax : threads ≤ 2147467264) (hsink : s.sink = .testing)
    {r : Ring} (hstep : Ring.step threads s.ring (.consume logDataMaxSize) = some r) :
    Inv threads { s.setRing r with sink := .consuming } := by
  obtain ⟨k, hring⟩ := h.ring
  have hfits : Ring.Event.Fits logDataMaxSize (.consume logDataMaxSize) :=
    ⟨Nat.le_refl _, by decide⟩
  have hring' := Ring.step_inv hmax hring hfits hstep
  have hpending : s.pending = [] := by
    unfold pending
    rw [hsink]
  simp only [Ring.step] at hstep
  split at hstep
  · obtain rfl := Option.some.inj hstep
    refine ⟨hring', fun _ => rfl, fun hne => absurd rfl hne, ?_, fun dat hdat => ?_, h.due, ?_,
      h.drained⟩
    · have hhanded := h.handed
      rw [hpending] at hhanded
      exact hhanded
    · rcases hdat with hdat | hdat
      · exact h.calls dat (Or.inl hdat)
      · cases hdat
    · intro _ _ hlocking
      cases hlocking
  · cases hstep

/-- `consume` goes on, or returns. -/
theorem Inv.consuming_work (h : Inv threads s) (hmax : threads ≤ 2147467264)
    (hsink : s.sink = .consuming) (hstep : s.work threads = some s') : Inv threads s' := by
  obtain ⟨k, hring⟩ := h.ring
  have hhanded := h.handed
  have hpending : s.pending = [] := by
    unfold pending
    rw [hsink]
  rw [hpending, List.append_nil] at hhanded
  unfold work at hstep
  rw [hsink] at hstep
  obtain ⟨r, hr, rfl⟩ := Option.map_eq_some_iff.mp hstep
  have hfits : Ring.Event.work.Fits logDataMaxSize := trivial
  have hring' := Ring.step_inv hmax hring hfits hr
  obtain ⟨htickets, hcases⟩ := Ring.work_cases hr
  have hdrained : ∀ {t : Logging}, t.ring = r → t.due = s.due → s.Drained → t.Drained := by
    intro t htr htdue hs
    unfold Drained at hs ⊢
    rw [htr, htdue, htickets]
    rcases hcases with ⟨-, hout, -⟩ | ⟨-, hout⟩
    · rw [hout]
      exact hs
    · rw [hout]
      exact hs.trans (List.prefix_append _ _)
  have hdue : s.due ≤ r.tickets.length := by
    rw [htickets]
    exact h.due
  rcases hcases with ⟨hne, hout, hsize⟩ | ⟨hidle, hout⟩
  · rw [if_neg hne]
    refine ⟨hring', fun _ => hsize.trans (h.consuming hsink), fun hnot => absurd hsink hnot, ?_,
      h.calls, hdue, ?_, fun hc => hdrained rfl rfl (h.drained hc)⟩
    · exact h.handed.trans hout.symm
    · intro _ _ hlocking
      exact absurd (hsink.symm.trans hlocking) Sink.noConfusion
  · rw [if_pos hidle, hout, List.drop_left]
    have hgot := (hring.call logDataMaxSize (h.consuming hsink)).2.2
    by_cases hnil : s.ring.consumer.got = []
    · simp only [hnil, if_true]
      refine ⟨hring', (fun hc => by cases hc), fun _ => hidle, ?_, fun dat hdat => ?_, hdue, ?_,
        fun hc => hdrained rfl rfl (h.drained hc)⟩
      · rw [hnil, List.append_nil] at hout
        exact (List.append_nil _).trans (hhanded.trans hout.symm)
      · rcases hdat with hdat | hdat
        · exact h.calls dat (Or.inl hdat)
        · cases hdat
      · intro _ _ hlocking
        cases hlocking
    · simp only [hnil, if_false]
      refine ⟨hring', (fun hc => by cases hc), fun _ => hidle, ?_, fun dat hdat => ?_, hdue, ?_,
        fun hc => hdrained rfl rfl (h.drained hc)⟩
      · refine Eq.trans ?_ hout.symm
        rw [← hhanded]
        rfl
      · rcases hdat with hdat | hdat
        · exact h.calls dat (Or.inl hdat)
        · cases hdat
          exact ⟨hnil, hgot⟩
      · intro _ _ hlocking
        cases hlocking

/-- The sink thread goes on. -/
theorem Inv.work (h : Inv threads s) (hmax : threads ≤ 2147467264)
    (hstep : s.work threads = some s') : Inv threads s' := by
  cases hsink : s.sink with
  | consuming => exact h.consuming_work hmax hsink hstep
  | testing =>
    unfold Logging.work at hstep
    simp only [hsink] at hstep
    split at hstep
    · obtain rfl := Option.some.inj hstep
      refine h.goTo ?_ ?_ _ Sink.noConfusion (fun _ => Sink.noConfusion) fun _ _ hne => by cases hne
      · rw [hsink]
        exact Sink.noConfusion
      · unfold pending
        rw [hsink]
    · obtain ⟨r, hr, rfl⟩ := Option.map_eq_some_iff.mp hstep
      exact h.consume hmax hsink hr
  | writing dat =>
    unfold Logging.work at hstep
    simp only [hsink] at hstep
    obtain rfl := Option.some.inj hstep
    have hhanded := h.handed
    unfold pending at hhanded
    rw [hsink] at hhanded
    refine ⟨h.ring, (fun hc => by cases hc), fun _ => ?_, ?_, fun dat' hdat => ?_, h.due, ?_,
      h.drained⟩
    · refine h.idle ?_
      rw [hsink]
      exact Sink.noConfusion
    · rw [List.flatten_append, List.flatten_singleton]
      exact (List.append_nil _).trans hhanded
    · rcases hdat with hdat | hdat
      · rcases List.mem_append.mp hdat with hdat | hdat
        · exact h.calls dat' (Or.inl hdat)
        · rw [List.mem_singleton] at hdat
          subst hdat
          exact h.calls dat' (Or.inr hsink)
      · cases hdat
    · intro _ _ hlocking
      cases hlocking
  | checking =>
    unfold Logging.work at hstep
    simp only [hsink] at hstep
    obtain rfl := Option.some.inj hstep
    have hnot : s.sink ≠ .consuming := by
      rw [hsink]
      exact Sink.noConfusion
    have hpending : s.pending = [] := by
      unfold pending
      rw [hsink]
    split
    · exact h.goTo hnot hpending _ Sink.noConfusion (fun _ => Sink.noConfusion)
        fun _ _ hne => by cases hne
    · next hqueue =>
      -- all the tickets there are have been worked off
      refine h.goTo hnot hpending _ Sink.noConfusion (fun _ => Sink.noConfusion) fun _ _ _ => ?_
      obtain ⟨k, hring⟩ := h.ring
      unfold Drained
      rw [hring.emptied (h.idle hnot) hqueue]
      refine ⟨Ring.bytes (s.ring.tickets.drop s.due), ?_⟩
      unfold Ring.bytes
      rw [← List.flatten_append, ← List.flatMap_append, List.take_append_drop]
  | locking =>
    unfold Logging.work at hstep
    simp only [hsink] at hstep
    have hnot : s.sink ≠ .consuming := by
      rw [hsink]
      exact Sink.noConfusion
    have hpending : s.pending = [] := by
      unfold pending
      rw [hsink]
    split at hstep
    · obtain rfl := Option.some.inj hstep
      have hgo := h.goTo hnot hpending .testing Sink.noConfusion
        (fun _ => Sink.noConfusion) fun _ _ hne => by cases hne
      exact ⟨hgo.ring, hgo.consuming, hgo.idle, hgo.handed, hgo.calls, hgo.due,
        (fun _ _ hne => by cases hne), hgo.drained⟩
    · next hsync =>
      obtain rfl := Option.some.inj hstep
      have hgo := h.goTo hnot hpending .waiting Sink.noConfusion
        (fun _ => Sink.noConfusion) fun _ _ hne => by cases hne
      refine ⟨hgo.ring, hgo.consuming, hgo.idle, hgo.handed, hgo.calls, hgo.due,
        (fun _ _ hne => by cases hne), fun hclosing => ?_⟩
      by_cases hwaiting : s.closing = .waiting
      · exact h.locking hwaiting (Bool.eq_false_iff.mpr hsync) hsink
      · simp only [hwaiting, if_false] at hclosing
        exact h.drained hclosing
  | waiting =>
    unfold Logging.work at hstep
    simp only [hsink] at hstep
    obtain rfl := Option.some.inj hstep
    refine h.goTo ?_ ?_ _ Sink.noConfusion (fun _ => Sink.noConfusion) fun _ _ hne => by cases hne
    · rw [hsink]
      exact Sink.noConfusion
    · unfold pending
      rw [hsink]
  | ended =>
    unfold Logging.work at hstep
    simp only [hsink] at hstep
    cases hstep

/-- The destructor goes on. -/
theorem Inv.close (h : Inv threads s) (hstep : s.close = some s') : Inv threads s' := by
  unfold Logging.close at hstep
  cases hclosing : s.closing with
  | running =>
    simp only [hclosing] at hstep
    obtain rfl := Option.some.inj hstep
    refine ⟨h.ring, h.consuming, h.idle, h.handed, h.calls, Nat.le_refl _, ?_, ?_⟩
    · intro _ hsync
      cases hsync
    · intro hc
      rcases hc with hc | hc | hc <;> cases hc
  | waiting =>
    simp only [hclosing] at hstep
    cases hstep
  | notified =>
    simp only [hclosing] at hstep
    obtain rfl := Option.some.inj hstep
    refine ⟨h.ring, h.consuming, h.idle, h.handed, h.calls, h.due, (fun hc => by cases hc), ?_⟩
    intro _
    exact h.drained (Or.inl hclosing)
  | joining =>
    simp only [hclosing] at hstep
    split at hstep
    · obtain rfl := Option.some.inj hstep
      refine ⟨h.ring, h.consuming, h.idle, h.handed, h.calls, h.due, (fun hc => by cases hc), ?_⟩
      intro _
      exact h.drained (Or.inr (Or.inl hclosing))
    · cases hstep
  | joined =>
    simp only [hclosing] at hstep
    cases hstep

/-- The destructor joins a thread that has ended. -/
def Joins (s : Logging) : Prop := s.closing = .joined → s.sink = .ended

theorem step_inv (hmax : threads ≤ 2147467264) (h : Inv threads s) {ev : Event}
    (hev : ev.Regular) (hstep : step threads s ev = some s') : Inv threads s' := by
  cases ev with
  | finish i head =>
    obtain ⟨r, hr, rfl⟩ := Option.map_eq_some_iff.mp hstep
    exact h.log hmax (.finish i head) hev
      ⟨Ring.Event.noConfusion, fun _ => Ring.Event.noConfusion⟩ hr
  | produce i =>
    obtain ⟨r, hr, rfl⟩ := Option.map_eq_some_iff.mp hstep
    exact h.log hmax (.produce i) trivial
      ⟨Ring.Event.noConfusion, fun _ => Ring.Event.noConfusion⟩ hr
  | work => exact h.work hmax hstep
  | close => exact h.close hstep
  | wake => exact absurd hev id

theorem step_joins (h : s.Joins) {ev : Event} (hstep : step threads s ev = some s') : s'.Joins := by
  cases ev with
  | finish i head =>
    obtain ⟨r, -, rfl⟩ := Option.map_eq_some_iff.mp hstep
    exact h
  | produce i =>
    obtain ⟨r, -, rfl⟩ := Option.map_eq_some_iff.mp hstep
    exact h
  | work =>
    intro hjoined
    have hclosing : s.closing = .joined := by
      simp only [step, work] at hstep
      cases hsink : s.sink with
      | testing =>
        simp only [hsink] at hstep
        split at hstep
        · obtain rfl := Option.some.inj hstep
          exact hjoined
        · obtain ⟨r, -, rfl⟩ := Option.map_eq_some_iff.mp hstep
          exact hjoined
      | consuming =>
        simp only [hsink] at hstep
        obtain ⟨r, -, rfl⟩ := Option.map_eq_some_iff.mp hstep
        split at hjoined
        · exact hjoined
        · exact hjoined
      | locking =>
        simp only [hsink] at hstep
        split at hstep
        · obtain rfl := Option.some.inj hstep
          exact hjoined
        · obtain rfl := Option.some.inj hstep
          dsimp only at hjoined
          split at hjoined
          · cases hjoined
          · exact hjoined
      | writing dat =>
        simp only [hsink] at hstep
        obtain rfl := Option.some.inj hstep
        exact hjoined
      | checking =>
        simp only [hsink] at hstep
        obtain rfl := Option.some.inj hstep
        exact hjoined
      | waiting =>
        simp only [hsink] at hstep
        obtain rfl := Option.some.inj hstep
        exact hjoined
      | ended =>
        simp only [hsink] at hstep
        cases hstep
    simp only [step, work, h hclosing] at hstep
    cases hstep
  | close =>
    intro hjoined
    simp only [step, close] at hstep
    cases hclosing : s.closing with
    | running =>
      simp only [hclosing] at hstep
      obtain rfl := Option.some.inj hstep
      cases hjoined
    | waiting =>
      simp only [hclosing] at hstep
      cases hstep
    | notified =>
      simp only [hclosing] at hstep
      obtain rfl := Option.some.inj hstep
      cases hjoined
    | joining =>
      simp only [hclosing] at hstep
      split at hstep
      · next hended =>
        obtain rfl := Option.some.inj hstep
        exact hended
      · cases hstep
    | joined =>
      simp only [hclosing] at hstep
      cases hstep
  | wake =>
    simp only [step] at hstep
    split at hstep
    · obtain rfl := Option.some.inj hstep
      intro hjoined
      cases hjoined
    · cases hstep

/-- A record, and the destructor right behind it. -/
def lastRecord : List Event :=
  [.finish 0 [[65]], .produce 0, .produce 0, .produce 0, .close] ++ List.replicate 18 .work ++
    [.close, .work, .work, .close]

/-- If the wait ends on its own accord, the record can be lost. -/
example : ((machine 1).run (machine 1).init [.finish 0 [[65]], .produce 0, .produce 0, .produce 0,
    .close, .wake, .close, .work, .close]).map (fun s => (s.closing, s.writes)) =
    some (.joined, []) := by decide +kernel

end Logging

end LinSocketIo.Log
