/-
LinSocketIo.Log.RingTheorems — the queue of log records loses nothing.

The ring is seen from the tickets: a ticket has a number that does not wrap
around, and the slots of the tickets from the consumer's on, as many as the
ring has slots, are all the slots (`slot_inj`). A slot holds the record of
its ticket once that is published, except for the one that the consumer is
at, which holds what is left of it (`Inv`).

* `Inv.slot_empty` — the slot of a ticket is empty until its record is
  published, because `_queueSize` bounds the tickets (`Inv.room`).
* `ring_keeps_records` — every run, as long as there are not so many threads
  that those that find the queue full make `_queueSize` overflow.
* `overflow_fails` — with more threads a swap can fail.
-/
import LinSocketIo.Base.Threads
import LinSocketIo.Log.Ring
import Mathlib.Data.List.Basic

namespace LinSocketIo.Log

open LinSocketIo.Base

/-! ## Places -/

/-- The thread has a place in the queue, but no ticket yet. -/
def Producer.isReserved : Producer → Bool
  | .reserved _ => true
  | .idle | .reserving _ | .full _ | .ticketed _ _ | .failed => false

/-- The thread has counted `_queueSize` up and will count it down. -/
def Producer.isFull : Producer → Bool
  | .full _ => true
  | .idle | .reserving _ | .reserved _ | .ticketed _ _ | .failed => false

/-- The chain that the thread wants in the queue. -/
def Producer.head : Producer → Option Chain
  | .reserving head | .full head | .reserved head | .ticketed head _ => some head
  | .idle | .failed => none

/-- The thread has a ticket, or had one. -/
def Producer.hasTicket : Producer → Bool
  | .ticketed _ _ | .failed => true
  | .idle | .reserving _ | .full _ | .reserved _ => false

/-- The bytes in `to`. -/
def Consumer.got : Consumer → List UInt8
  | .idle => []
  | .testing _ got | .loading _ got | .copying _ got _ _ | .clearing _ got _ | .advancing _ got
  | .decrementing _ got => got

/-- The `n` of the call of `consume`. -/
def Consumer.size : Consumer → Option Nat
  | .idle => none
  | .testing n _ | .loading n _ | .copying n _ _ _ | .clearing n _ _ | .advancing n _
  | .decrementing n _ => some n

/-- The records that the consumer is through with but still counts. -/
def Consumer.owes : Consumer → Nat
  | .decrementing _ _ => 1
  | .idle | .testing _ _ | .loading _ _ | .copying _ _ _ _ | .clearing _ _ _ | .advancing _ _ => 0

/-- A chain of a record whose blocks have at most `size` bytes. -/
def Fits (size : Nat) (chain : Chain) : Prop := chain ≠ [] ∧ ∀ block ∈ chain, block.length ≤ size

namespace Ring

/-! ## Slots and tickets -/

/-- The slot of the ticket `k`, counted from 0. -/
def slot (k : Nat) : Nat := (k + 1) % logListMaxSize

theorem slotOf_toUInt32 (k : Nat) : slotOf (toUInt32 (k + 1)) = slot k := by
  unfold slotOf slot toUInt32 logListMaxSize
  rw [show 0x4000 - 1 = 2 ^ 14 - 1 from rfl, Nat.and_two_pow_sub_one_eq_mod]
  omega

/-- Tickets that are less than a turn apart have slots of their own. -/
theorem slot_inj {k k' : Nat} (h : slot k = slot k') (hlt : k < k' + 16384) (hlt' : k' < k + 16384) :
    k = k' := by
  unfold slot logListMaxSize at h
  omega

theorem slot_turn (k : Nat) : slot (k + 16384) = slot k := by
  unfold slot logListMaxSize
  omega

/-- The record of ticket `k` if it is published. -/
def pub (tickets : List Ticket) (k : Nat) : Chain :=
  match tickets[k]? with
  | some ⟨_, record, true⟩ => record
  | some ⟨_, _, false⟩ | none => []

/-- The bytes of the records of tickets. -/
def bytes (tickets : List Ticket) : List UInt8 := (tickets.flatMap Ticket.record).flatten

end Ring

/-- Where the consumer is with the record of the ticket `k`: `read` is what it has copied, `unread`
the rest, and `content` what is in the slot. -/
def Consumer.At (k : Nat) (read unread content : Chain) : Consumer → Prop
  | .idle | .testing _ _ | .loading _ _ | .decrementing _ _ =>
    content = unread ∧ (unread = [] → read = [])
  | .copying _ _ pos dat => pos = Ring.slot k ∧ dat = unread ∧ content ≠ [] ∧
      ∃ before copied, read = before ++ copied ∧ content = copied ++ dat
  | .clearing _ _ pos => pos = Ring.slot k ∧ unread = [] ∧ content ≠ [] ∧
      ∃ before, read = before ++ content
  | .advancing _ _ => content = [] ∧ unread = [] ∧ read ≠ []

namespace Ring

/-- What the consumer has returned and copied, `k` records and part of the next. -/
def Front (s : Ring) (k : Nat) : Prop :=
  ∃ read unread, read ++ unread = pub s.tickets k ∧
    s.out ++ s.consumer.got = bytes (s.tickets.take k) ++ read.flatten ∧
    s.consumer.At k read unread (s.logQueue (slot k))

/-- What holds of the queue at any time: `k` records have been consumed, and blocks have at
most `size` bytes. -/
structure Inv (threads size k : Nat) (s : Ring) : Prop where
  producePos : s.producePos = toUInt32 s.tickets.length
  consumePos : s.consumePos = toUInt32 (k + 1)
  passed : k ≤ s.tickets.length
  queueSize : s.queueSize = (countBelow Producer.isReserved s.producers threads +
    countBelow Producer.isFull s.producers threads +
    (s.tickets.length + s.consumer.owes - k) : Nat)
  room : countBelow Producer.isReserved s.producers threads +
    (s.tickets.length + s.consumer.owes - k) < logListMaxSize
  owner : ∀ i head pos, s.producers i = .ticketed head pos →
    ∃ j, s.tickets[j]? = some ⟨i, head, false⟩ ∧ pos = slot j
  pending : ∀ j t, s.tickets[j]? = some t → t.published = false →
    s.producers t.thread = .ticketed t.record (slot j)
  sound : ∀ i, s.producers i ≠ .failed
  heads : ∀ i head, (s.producers i).head = some head → Fits size head
  records : ∀ t ∈ s.tickets, Fits size t.record
  done : ∀ t ∈ s.tickets.take k, t.published = true
  slots : ∀ j, k < j → j < k + 16384 → s.logQueue (slot j) = pub s.tickets j
  front : s.Front k
  call : ∀ n, s.consumer.size = some n → size ≤ n ∧ n < 2147483648 ∧ s.consumer.got.length ≤ n

variable {threads size k : Nat} {s : Ring}

/-- `increment_int32` within the range of an `int`. -/
theorem countQueue_up {q : Nat} (hq : s.queueSize = (q : Int)) (hmax : q + 1 < 2147483648) :
    (s.countQueue 1).queueSize = ((q + 1 : Nat) : Int) := by
  simp only [countQueue, hq]
  rw [toInt_of_range (by omega) (by unfold intMax; omega)]
  omega

theorem countQueue_down {q : Nat} (hq : s.queueSize = ((q + 1 : Nat) : Int))
    (hmax : q + 1 < 2147483648) : (s.countQueue (-1)).queueSize = (q : Int) := by
  simp only [countQueue, hq]
  rw [toInt_of_range (by omega) (by unfold intMax; omega)]
  omega

/-! ## The producers -/

/-- The slot of a ticket is empty until its record is published. -/
theorem Inv.slot_empty (h : Inv threads size k s) {j : Nat} {t : Ticket} (hj : s.tickets[j]? = some t)
    (hunpub : t.published = false) :
    k ≤ j ∧ j < k + 16384 ∧ pub s.tickets j = [] ∧ s.logQueue (slot j) = [] := by
  have hlen : j < s.tickets.length := (List.getElem?_eq_some_iff.mp hj).1
  have hroom := h.room
  have hpub : pub s.tickets j = [] := by
    obtain ⟨thread, record, published⟩ := t
    unfold pub
    rw [hj]
    cases hunpub
    rfl
  have hle : k ≤ j := by
    by_contra hlt
    have hmem : t ∈ s.tickets.take k :=
      List.mem_of_getElem? ((List.getElem?_take_of_lt (by omega)).trans hj)
    rw [h.done t hmem] at hunpub
    cases hunpub
  have hwindow : j < k + 16384 := by
    unfold logListMaxSize at hroom
    omega
  refine ⟨hle, hwindow, hpub, ?_⟩
  rcases Nat.lt_or_eq_of_le hle with hlt | rfl
  · rw [h.slots j hlt hwindow, hpub]
  · -- the consumer has not got hold of anything at this ticket
    obtain ⟨read, unread, happ, -, hat⟩ := h.front
    rw [hpub, List.append_eq_nil_iff] at happ
    obtain ⟨rfl, rfl⟩ := happ
    cases hc : s.consumer with
    | idle | testing | loading | decrementing => rw [hc] at hat; exact hat.1
    | copying n got pos dat =>
      rw [hc] at hat
      obtain ⟨-, rfl, -, before, copied, hread, hcontent⟩ := hat
      rw [hcontent, (List.append_eq_nil_iff.mp hread.symm).2]
      rfl
    | clearing n got pos =>
      rw [hc] at hat
      obtain ⟨-, -, -, before, hread⟩ := hat
      exact (List.append_eq_nil_iff.mp hread.symm).2
    | advancing n got => rw [hc] at hat; exact hat.1

/-- A thread without a ticket moves on, and the places in the queue stay within bounds. -/
theorem Inv.move (h : Inv threads size k s) {i : Nat} {p : Producer} {q : Int}
    (hold : (s.producers i).hasTicket = false) (hnew : p.hasTicket = false)
    (hhead : ∀ head, p.head = some head → Fits size head)
    (hsize : q = (countBelow Producer.isReserved (Function.update s.producers i p) threads +
      countBelow Producer.isFull (Function.update s.producers i p) threads +
      (s.tickets.length + s.consumer.owes - k) : Nat))
    (hroom : countBelow Producer.isReserved (Function.update s.producers i p) threads +
      (s.tickets.length + s.consumer.owes - k) < logListMaxSize) :
    Inv threads size k { s.setProducer i p with queueSize := q } where
  producePos := h.producePos
  consumePos := h.consumePos
  passed := h.passed
  queueSize := hsize
  room := hroom
  owner i' head pos hi' := by
    refine h.owner i' head pos ?_
    by_cases hi : i' = i
    · subst hi
      simp only [setProducer, Function.update_self] at hi'
      rw [hi'] at hnew
      cases hnew
    · simpa only [setProducer, Function.update_of_ne hi] using hi'
  pending j t hj hunpub := by
    have hpending := h.pending j t hj hunpub
    have hi : t.thread ≠ i := by
      rintro rfl
      rw [hpending] at hold
      cases hold
    exact (Function.update_of_ne hi _ _).trans hpending
  sound i' := by
    by_cases hi : i' = i
    · subst hi
      simp only [setProducer, Function.update_self]
      rintro rfl
      cases hnew
    · simp only [setProducer, Function.update_of_ne hi]
      exact h.sound i'
  heads i' head hi' := by
    by_cases hi : i' = i
    · subst hi
      simp only [setProducer, Function.update_self] at hi'
      exact hhead head hi'
    · simp only [setProducer, Function.update_of_ne hi] at hi'
      exact h.heads i' head hi'
  records := h.records
  done := h.done
  slots := h.slots
  front := h.front
  call := h.call

theorem concat_cases {tickets : List Ticket} {a t : Ticket} {j : Nat}
    (h : (tickets ++ [a])[j]? = some t) : tickets[j]? = some t ∨ j = tickets.length ∧ t = a := by
  rcases Nat.lt_or_ge j tickets.length with hlt | hge
  · rw [List.getElem?_append_left hlt] at h
    exact Or.inl h
  · rw [List.getElem?_append_right hge, List.getElem?_singleton] at h
    split at h
    · next hzero => exact Or.inr ⟨by omega, (Option.some.inj h).symm⟩
    · cases h

/-- A new ticket is not published. -/
theorem pub_append (tickets : List Ticket) (i : Nat) (record : Chain) (j : Nat) :
    pub (tickets ++ [⟨i, record, false⟩]) j = pub tickets j := by
  unfold pub
  rcases Nat.lt_trichotomy j tickets.length with hlt | rfl | hgt
  · rw [List.getElem?_append_left hlt]
  · rw [List.getElem?_concat_length, List.getElem?_eq_none (Nat.le_refl _)]
  · rw [List.getElem?_eq_none (by rw [List.length_append, List.length_singleton]; omega),
      List.getElem?_eq_none (by omega)]

/-- A thread takes a ticket. -/
theorem Inv.ticket (h : Inv threads size k s) {i : Nat} (hi : i < threads) {head : Chain}
    (hp : s.producers i = .reserved head) {s' : Ring} (hs' : s.produce i = some s') :
    Inv threads size k s' := by
  unfold produce at hs'
  rw [hp] at hs'
  obtain rfl := Option.some.inj hs'
  have hpos : slotOf (toUInt32 (s.producePos + 1)) = slot s.tickets.length := by
    rw [h.producePos, ← slotOf_toUInt32]
    congr 1
    unfold toUInt32
    omega
  have hplaces (P : Producer → Bool) := countBelow_update P s.producers
    (.ticketed head (slotOf (toUInt32 (s.producePos + 1)))) hi
  have hres := hplaces Producer.isReserved
  have hfull := hplaces Producer.isFull
  rw [hp] at hres hfull
  simp only [Producer.isReserved, Producer.isFull, Bool.toNat_true, Bool.toNat_false] at hres hfull
  have hqueue := h.queueSize
  have hroom := h.room
  have hpassed := h.passed
  have hlen : (s.tickets ++ [(⟨i, head, false⟩ : Ticket)]).length = s.tickets.length + 1 := by
    rw [List.length_append, List.length_singleton]
  refine ⟨?_, h.consumePos, ?_, ?_, ?_, ?_, ?_, ?_, ?_, ?_, ?_, ?_, ?_, h.call⟩
  · simp only [h.producePos, hlen, toUInt32]
    omega
  · simp only [hlen]
    omega
  · simp only [setProducer, hlen]
    rw [hqueue]
    omega
  · simp only [setProducer, hlen]
    omega
  · intro i' head' pos hi'
    by_cases heq : i' = i
    · subst heq
      simp only [setProducer, Function.update_self, Producer.ticketed.injEq] at hi'
      obtain ⟨rfl, rfl⟩ := hi'
      exact ⟨s.tickets.length, List.getElem?_concat_length, hpos⟩
    · simp only [setProducer, Function.update_of_ne heq] at hi'
      obtain ⟨j, hj, hslot⟩ := h.owner i' head' pos hi'
      exact ⟨j, by rw [List.getElem?_append_left (List.getElem?_eq_some_iff.mp hj).1, hj], hslot⟩
  · intro j t hj hunpub
    rcases concat_cases hj with hj | ⟨rfl, rfl⟩
    · have hpending := h.pending j t hj hunpub
      have hne : t.thread ≠ i := by
        rintro rfl
        rw [hp] at hpending
        cases hpending
      exact (Function.update_of_ne hne _ _).trans hpending
    · rw [← hpos]
      exact Function.update_self _ _ _
  · intro i'
    by_cases heq : i' = i
    · subst heq
      simp only [setProducer, Function.update_self]
      exact Producer.noConfusion
    · simp only [setProducer, Function.update_of_ne heq]
      exact h.sound i'
  · intro i' head' hi'
    by_cases heq : i' = i
    · subst heq
      simp only [setProducer, Function.update_self, Producer.head, Option.some.injEq] at hi'
      exact h.heads i' head' (by rw [hp, Producer.head, hi'])
    · simp only [setProducer, Function.update_of_ne heq] at hi'
      exact h.heads i' head' hi'
  · intro t ht
    rcases List.mem_append.mp ht with ht | ht
    · exact h.records t ht
    · rw [List.mem_singleton.mp ht]
      exact h.heads i head (by rw [hp, Producer.head])
  · rw [List.take_append_of_le_length hpassed]
    exact h.done
  · intro j hlt hwindow
    rw [pub_append]
    exact h.slots j hlt hwindow
  · obtain ⟨read, unread, happ, hout, hat⟩ := h.front
    refine ⟨read, unread, ?_, ?_, hat⟩
    · rw [pub_append, happ]
    · rw [List.take_append_of_le_length hpassed]
      exact hout

/-! ### Publishing -/

@[simp] theorem publish_thread (i : Nat) (t : Ticket) : (t.publish i).thread = t.thread := by
  unfold Ticket.publish
  split <;> rfl

@[simp] theorem publish_record (i : Nat) (t : Ticket) : (t.publish i).record = t.record := by
  unfold Ticket.publish
  split <;> rfl

theorem publish_published (i : Nat) (t : Ticket) :
    (t.publish i).published = (t.published || decide (t.thread = i)) := by
  unfold Ticket.publish
  split
  · next h => rw [decide_eq_true h, Bool.or_true]
  · next h => rw [decide_eq_false h, Bool.or_false]

theorem bytes_publish (i : Nat) (tickets : List Ticket) :
    bytes (tickets.map (Ticket.publish i)) = bytes tickets := by
  unfold bytes
  rw [List.flatMap_map]
  simp only [publish_record]

/-- A record that gets into the ring. -/
theorem pub_publish {tickets : List Ticket} {i j : Nat} {head : Chain}
    (hj : tickets[j]? = some ⟨i, head, false⟩)
    (hone : ∀ j' t, tickets[j']? = some t → t.thread = i → t.published = false → j' = j) (j' : Nat) :
    pub (tickets.map (Ticket.publish i)) j' = if j' = j then head else pub tickets j' := by
  unfold pub
  rw [List.getElem?_map]
  cases hj' : tickets[j']? with
  | none =>
    rw [if_neg]
    · rfl
    · rintro rfl
      rw [hj] at hj'
      cases hj'
  | some t =>
    obtain ⟨thread, record, published⟩ := t
    cases published with
    | true =>
      rw [if_neg]
      · simp only [Option.map_some, Ticket.publish, ite_self]
      · rintro rfl
        rw [hj] at hj'
        cases hj'
    | false =>
      by_cases hthread : thread = i
      · obtain rfl := hone j' _ hj' hthread rfl
        rw [hj] at hj'
        cases hj'
        simp only [Option.map_some, Ticket.publish, if_true]
      · rw [if_neg]
        · simp only [Option.map_some, Ticket.publish, if_neg hthread]
        · rintro rfl
          rw [hj] at hj'
          cases hj'
          exact hthread rfl

/-- A thread has at most one ticket whose record is not published. -/
theorem Inv.one_ticket (h : Inv threads size k s) {j j' : Nat} {t t' : Ticket}
    (hj : s.tickets[j]? = some t) (hunpub : t.published = false) (hj' : s.tickets[j']? = some t')
    (hunpub' : t'.published = false) (hsame : t'.thread = t.thread) : j' = j := by
  have hpending := h.pending j t hj hunpub
  have hpending' := h.pending j' t' hj' hunpub'
  rw [hsame, hpending, Producer.ticketed.injEq] at hpending'
  obtain ⟨hle, hlt, -⟩ := h.slot_empty hj hunpub
  obtain ⟨hle', hlt', -⟩ := h.slot_empty hj' hunpub'
  exact slot_inj hpending'.2.symm (by omega) (by omega)

/-- A thread swaps its chain in, and finds the slot empty. -/
theorem Inv.swap (h : Inv threads size k s) {i : Nat} (hi : i < threads) {head : Chain} {pos : Nat}
    (hp : s.producers i = .ticketed head pos) {s' : Ring} (hs' : s.produce i = some s') :
    Inv threads size k s' := by
  obtain ⟨j, hj, rfl⟩ := h.owner i head pos hp
  obtain ⟨hle, hlt, hnone, hempty⟩ := h.slot_empty hj rfl
  have hfits := h.heads i head (by rw [hp, Producer.head])
  unfold produce at hs'
  simp only [hp, hempty, if_true] at hs'
  obtain rfl := Option.some.inj hs'
  have hpub := pub_publish hj fun j' t hj' hthread hunpub => h.one_ticket hj rfl hj' hunpub hthread
  have hplaces (P : Producer → Bool) := countBelow_update P s.producers .idle hi
  have hres := hplaces Producer.isReserved
  have hfull := hplaces Producer.isFull
  rw [hp] at hres hfull
  simp only [Producer.isReserved, Producer.isFull, Bool.toNat_false, Nat.add_zero] at hres hfull
  have hother (j' : Nat) (hne : j' ≠ j) (hle' : k ≤ j') (hlt' : j' < k + 16384) :
      slot j' ≠ slot j := fun hslot => hne (slot_inj hslot (by omega) (by omega))
  refine ⟨?_, h.consumePos, ?_, ?_, ?_, ?_, ?_, ?_, ?_, ?_, ?_, ?_, ?_, h.call⟩
  · simp only [List.length_map]
    exact h.producePos
  · simp only [List.length_map]
    exact h.passed
  · simp only [setProducer, setSlot, List.length_map, hres, hfull]
    exact h.queueSize
  · simp only [setProducer, setSlot, List.length_map, hres]
    exact h.room
  · intro i' head' pos' hi'
    have hne : i' ≠ i := by
      rintro rfl
      simp only [setProducer, Function.update_self] at hi'
      cases hi'
    simp only [setProducer, setSlot, Function.update_of_ne hne] at hi'
    obtain ⟨j', hj', hslot⟩ := h.owner i' head' pos' hi'
    refine ⟨j', ?_, hslot⟩
    rw [List.getElem?_map, hj', Option.map_some, Ticket.publish, if_neg hne]
  · intro j' t' hj' hunpub'
    rw [List.getElem?_map, Option.map_eq_some_iff] at hj'
    obtain ⟨t, hj', rfl⟩ := hj'
    rw [publish_published, Bool.or_eq_false_iff, decide_eq_false_iff_not] at hunpub'
    rw [publish_thread, publish_record, setProducer, setSlot]
    exact (Function.update_of_ne hunpub'.2 _ _).trans (h.pending j' t hj' hunpub'.1)
  · intro i'
    by_cases heq : i' = i
    · subst heq
      simp only [setProducer, Function.update_self]
      exact Producer.noConfusion
    · simp only [setProducer, setSlot, Function.update_of_ne heq]
      exact h.sound i'
  · intro i' head' hi'
    have hne : i' ≠ i := by
      rintro rfl
      simp only [setProducer, Function.update_self] at hi'
      cases hi'
    simp only [setProducer, setSlot, Function.update_of_ne hne] at hi'
    exact h.heads i' head' hi'
  · intro t' ht'
    obtain ⟨t, ht, rfl⟩ := List.mem_map.mp ht'
    rw [publish_record]
    exact h.records t ht
  · intro t' ht'
    rw [← List.map_take] at ht'
    obtain ⟨t, ht, rfl⟩ := List.mem_map.mp ht'
    rw [publish_published, h.done t ht, Bool.true_or]
  · intro j' hlt' hwindow
    simp only [hpub j', setSlot]
    split
    · next heq =>
      subst heq
      exact Function.update_self _ _ _
    · next hne =>
      exact (Function.update_of_ne (hother j' hne (by omega) hwindow) _ _).trans
        (h.slots j' hlt' hwindow)
  · obtain ⟨read, unread, happ, hout, hat⟩ := h.front
    by_cases hfront : k = j
    · -- the consumer waits for this record
      subst hfront
      rw [hnone, List.append_eq_nil_iff] at happ
      obtain ⟨rfl, rfl⟩ := happ
      refine ⟨[], head, ?_, ?_, ?_⟩
      · rw [hpub, if_pos rfl, List.nil_append]
      · rw [← List.map_take, bytes_publish]
        exact hout
      · have hcontent : (s.setSlot (slot k) head).logQueue (slot k) = head :=
          Function.update_self _ _ _
        simp only [setProducer, hcontent]
        change s.consumer.At k [] head head
        rw [hempty] at hat
        cases hc : s.consumer with
        | idle | testing | loading | decrementing => exact ⟨rfl, fun _ => rfl⟩
        | copying n got pos dat =>
          rw [hc] at hat
          exact absurd rfl hat.2.2.1
        | clearing n got pos =>
          rw [hc] at hat
          exact absurd rfl hat.2.2.1
        | advancing n got =>
          rw [hc] at hat
          exact absurd rfl hat.2.2
    · refine ⟨read, unread, ?_, ?_, ?_⟩
      · rw [hpub, if_neg hfront, happ]
      · rw [← List.map_take, bytes_publish]
        exact hout
      · have hcontent : (s.setSlot (slot j) head).logQueue (slot k) = s.logQueue (slot k) :=
          Function.update_of_ne (hother k hfront (Nat.le_refl k) (by omega)) _ _
        simp only [setProducer, hcontent]
        exact hat

/-- A step of a thread in `finish`. The threads that find the queue full are too few to make
`_queueSize` overflow. -/
theorem Inv.produce (h : Inv threads size k s) (hmax : threads ≤ 2147467264) {i : Nat}
    (hi : i < threads) {s' : Ring} (hs' : s.produce i = some s') : Inv threads size k s' := by
  have hplaces (P : Producer → Bool) (p : Producer) := countBelow_update P s.producers p hi
  have hqueue := h.queueSize
  have hroom := h.room
  unfold logListMaxSize at hroom
  cases hp : s.producers i with
  | idle =>
    unfold Ring.produce at hs'
    rw [hp] at hs'
    cases hs'
  | reserving head =>
    have hres := hplaces Producer.isReserved
    have hfull := hplaces Producer.isFull
    have hbound := countBelow_le Producer.isFull (Function.update s.producers i (.full head)) threads
    rw [hp] at hres hfull
    simp only [Producer.isReserved, Producer.isFull, Bool.toNat_false, Nat.add_zero] at hres hfull
    have hres' := hres (.full head)
    have hfull' := hfull (.full head)
    simp only [Bool.toNat_false, Bool.toNat_true, Nat.add_zero] at hres' hfull'
    have hup := countQueue_up hqueue (by omega)
    have hheads := fun head' (heq : some head = some head') =>
      h.heads i head' (by rw [hp, Producer.head, heq])
    unfold Ring.produce at hs'
    simp only [hp] at hs'
    split at hs'
    · next hge =>
      obtain rfl := Option.some.inj hs'
      refine h.move (p := .full head) (by rw [hp]; rfl) rfl hheads ?_ ?_
      · rw [hup, hres', hfull']
        omega
      · rw [hres']
        exact hroom
    · next hlt =>
      obtain rfl := Option.some.inj hs'
      have hres' := hres (.reserved head)
      have hfull' := hfull (.reserved head)
      simp only [Bool.toNat_false, Bool.toNat_true, Nat.add_zero] at hres' hfull'
      rw [hup] at hlt
      unfold logListMaxSize at hlt
      refine h.move (p := .reserved head) (by rw [hp]; rfl) rfl hheads ?_ ?_
      · rw [hup, hres', hfull']
        omega
      · rw [hres']
        unfold logListMaxSize
        omega
  | full head =>
    have hres := hplaces Producer.isReserved (.reserving head)
    have hfull := hplaces Producer.isFull (.reserving head)
    have hbound := countBelow_le Producer.isFull s.producers threads
    rw [hp] at hres hfull
    simp only [Producer.isReserved, Producer.isFull, Bool.toNat_false, Bool.toNat_true,
      Nat.add_zero] at hres hfull
    unfold Ring.produce at hs'
    rw [hp] at hs'
    obtain rfl := Option.some.inj hs'
    refine h.move (p := .reserving head) (by rw [hp]; rfl) rfl
      (fun head' heq => h.heads i head' (by rw [hp, Producer.head, ← heq, Producer.head])) ?_ ?_
    · rw [← hfull] at hqueue
      rw [countQueue_down (q := countBelow Producer.isReserved s.producers threads +
        countBelow Producer.isFull (Function.update s.producers i (.reserving head)) threads +
        (s.tickets.length + s.consumer.owes - k)) (by rw [hqueue]; omega) (by omega), hres]
    · rw [hres]
      exact hroom
  | reserved head => exact h.ticket hi hp hs'
  | ticketed head pos => exact h.swap hi hp hs'
  | failed => exact absurd hp (h.sound i)

/-! ## The consumer -/

/-- The consumer goes on at the same ticket, and changes no slot but its own. -/
theorem Inv.turn (h : Inv threads size k s) {c : Consumer} {q : Nat → Chain} {out : List UInt8}
    (howes : c.owes = s.consumer.owes)
    (hslots : ∀ j, k < j → j < k + 16384 → q (slot j) = s.logQueue (slot j))
    (hcall : ∀ n, c.size = some n → size ≤ n ∧ n < 2147483648 ∧ c.got.length ≤ n)
    (hfront : Front { s with consumer := c, logQueue := q, out := out } k) :
    Inv threads size k { s with consumer := c, logQueue := q, out := out } where
  producePos := h.producePos
  consumePos := h.consumePos
  passed := h.passed
  queueSize := by
    simp only [howes]
    exact h.queueSize
  room := by
    simp only [howes]
    exact h.room
  owner := h.owner
  pending := h.pending
  sound := h.sound
  heads := h.heads
  records := h.records
  done := h.done
  slots j hlt hwindow := (hslots j hlt hwindow).trans (h.slots j hlt hwindow)
  front := hfront
  call := hcall

@[simp] theorem setSlot_self (s : Ring) (pos : Nat) (dat : Chain) :
    (s.setSlot pos dat).logQueue pos = dat := Function.update_self _ _ _

/-- Only the slot of the ticket `k` is written. -/
theorem setSlot_other (s : Ring) (dat : Chain) {j : Nat} (hlt : k < j) (hwindow : j < k + 16384) :
    (s.setSlot (slot k) dat).logQueue (slot j) = s.logQueue (slot j) :=
  Function.update_of_ne (fun hslot => by
    have := slot_inj hslot (by omega) (by omega)
    omega) _ _

/-- A published record fits. -/
theorem Inv.pub_fits (h : Inv threads size k s) {j : Nat} {block : List UInt8}
    (hblock : block ∈ pub s.tickets j) : block.length ≤ size := by
  unfold pub at hblock
  split at hblock
  · next hj => exact (h.records _ (List.mem_of_getElem? hj)).2 block hblock
  · exact absurd hblock List.not_mem_nil
  · exact absurd hblock List.not_mem_nil

/-- `consume` returns between two records, or before a block that does not fit. -/
theorem Inv.ret (h : Inv threads size k s) (howes : s.consumer.owes = 0) {q : Nat → Chain}
    (hslots : ∀ j, k < j → j < k + 16384 → q (slot j) = s.logQueue (slot j))
    {got : List UInt8} {read unread : Chain} (happ : read ++ unread = pub s.tickets k)
    (hout : s.out ++ got = bytes (s.tickets.take k) ++ read.flatten)
    (hcontent : q (slot k) = unread) (hread : unread = [] → read = []) :
    Inv threads size k (({ s with logQueue := q } : Ring).ret got) := by
  refine h.turn (c := .idle) howes.symm hslots (fun n hn => by cases hn) ⟨read, unread, happ, ?_, ?_⟩
  · rw [← hout]
    exact List.append_nil _
  · exact ⟨hcontent, hread⟩

/-- A step of the consumer at one ticket. -/
theorem Inv.work_turn (h : Inv threads size k s) {s' : Ring} (hs' : s.work = some s')
    (hadv : s.consumer.owes = 0) (hnext : ∀ n got, s.consumer ≠ .advancing n got) :
    Inv threads size k s' := by
  obtain ⟨read, unread, happ, hout, hat⟩ := h.front
  have hcall := h.call
  unfold work at hs'
  cases hc : s.consumer with
  | idle => simp only [hc] at hs'; cases hs'
  | testing n got =>
    rw [hc] at hat hout hcall
    simp only [hc] at hs'
    split at hs'
    · obtain rfl := Option.some.inj hs'
      exact h.turn (c := .loading n got) (by rw [hc]; rfl) (fun _ _ _ => rfl) hcall
        ⟨read, unread, happ, hout, hat⟩
    · obtain rfl := Option.some.inj hs'
      exact h.ret hadv (fun _ _ _ => rfl) happ hout hat.1 hat.2
  | loading n got =>
    rw [hc] at hat hout hcall
    have hpos : slotOf s.consumePos = slot k := by rw [h.consumePos, slotOf_toUInt32]
    simp only [hc, hpos] at hs'
    split at hs'
    · obtain rfl := Option.some.inj hs'
      exact h.ret hadv (fun _ _ _ => rfl) happ hout hat.1 hat.2
    · next hne =>
      obtain rfl := Option.some.inj hs'
      refine h.turn (c := .copying n got (slot k) (s.logQueue (slot k))) (by rw [hc]; rfl)
        (fun _ _ _ => rfl) hcall ⟨read, unread, happ, hout, rfl, hat.1, hne, read, [], ?_, rfl⟩
      rw [List.append_nil]
  | copying n got pos dat =>
    rw [hc] at hat hout hcall
    obtain ⟨rfl, rfl, hne, before, copied, hread, hcontent⟩ := hat
    cases hdat : dat with
    | nil =>
      simp only [hc, hdat] at hs'
      obtain rfl := Option.some.inj hs'
      rw [hdat, List.append_nil] at hcontent
      refine h.turn (c := .clearing n got (slot k)) (by rw [hc]; rfl) (fun _ _ _ => rfl) hcall
        ⟨read, [], by rw [← happ, hdat], hout, rfl, rfl, hne, before, ?_⟩
      exact hread.trans (congrArg (before ++ ·) hcontent.symm)
    | cons block next =>
      simp only [hc, hdat] at hs'
      split at hs'
      · obtain rfl := Option.some.inj hs'
        exact h.ret hadv (q := (s.setSlot (slot k) (block :: next)).logQueue)
          (fun j hlt hwindow => setSlot_other s _ hlt hwindow) (hdat ▸ happ) hout
          (Function.update_self _ _ _) (fun hnil => by cases hnil)
      · next hfits =>
        obtain rfl := Option.some.inj hs'
        obtain ⟨hsize, hn, hgot⟩ := hcall n rfl
        have hblock : block.length ≤ size := h.pub_fits (j := k) (by
          rw [← happ, hdat]
          exact List.mem_append_right _ List.mem_cons_self)
        refine h.turn (c := .copying n (got ++ block) (slot k) next) (by rw [hc]; rfl)
          (fun _ _ _ => rfl) (fun n' hn' => ?_)
          ⟨read ++ [block], next, ?_, ?_, rfl, rfl, hne, before, copied ++ [block], ?_, ?_⟩
        · cases hn'
          have hgot : got.length ≤ n := hgot
          rw [toUInt32_of_lt (by omega)] at hfits
          refine ⟨hsize, hn, ?_⟩
          change (got ++ block).length ≤ n
          rw [List.length_append]
          omega
        · rw [← happ, hdat, List.append_assoc]
          rfl
        · change s.out ++ (got ++ block) = _
          rw [← List.append_assoc, show s.out ++ got = _ from hout, List.append_assoc,
            List.flatten_append, List.flatten_singleton]
        · rw [hread, List.append_assoc]
        · rw [List.append_assoc]
          exact hcontent.trans (by rw [hdat]; rfl)
  | clearing n got pos =>
    rw [hc] at hat hout hcall
    obtain ⟨rfl, rfl, hne, before, hread⟩ := hat
    simp only [hc] at hs'
    obtain rfl := Option.some.inj hs'
    refine h.turn (c := .advancing n got) (q := (s.setSlot (slot k) []).logQueue)
      (by rw [hc]; rfl) (fun j hlt hwindow => setSlot_other s _ hlt hwindow) hcall
      ⟨read, [], happ, hout, Function.update_self _ _ _, rfl, fun hnil => hne ?_⟩
    rw [hread, List.append_eq_nil_iff] at hnil
    exact hnil.2
  | advancing n got => exact absurd hc (hnext n got)
  | decrementing n got =>
    rw [hc] at hadv
    cases hadv

/-- The record of a ticket that has one in the ring. -/
theorem pub_ne_nil {tickets : List Ticket} {j : Nat} (h : pub tickets j ≠ []) :
    ∃ t, tickets[j]? = some t ∧ t.published = true ∧ t.record = pub tickets j := by
  unfold pub at h ⊢
  split
  · next thread record hj => exact ⟨_, hj, rfl, rfl⟩
  · next thread record hj =>
    rw [hj] at h
    exact absurd rfl h
  · next hj =>
    rw [hj] at h
    exact absurd rfl h

/-- The consumer moves on to the next ticket. -/
theorem Inv.advance (h : Inv threads size k s) {n : Nat} {got : List UInt8}
    (hc : s.consumer = .advancing n got) :
    Inv threads size (k + 1)
      { s with consumePos := toUInt32 (s.consumePos + 1), consumer := .decrementing n got } := by
  obtain ⟨read, unread, happ, hout, hat⟩ := h.front
  have hcall := h.call
  have hqueue := h.queueSize
  have hroom := h.room
  rw [hc] at hat hout hcall hqueue hroom
  obtain ⟨hcontent, rfl, hread⟩ := hat
  rw [List.append_nil] at happ
  obtain ⟨t, ht, hpub, hrecord⟩ := pub_ne_nil (happ ▸ hread)
  have hlen : k < s.tickets.length := (List.getElem?_eq_some_iff.mp ht).1
  have htake : s.tickets.take (k + 1) = s.tickets.take k ++ [t] := by
    rw [List.take_add_one, ht, Option.toList_some]
  have howes : s.tickets.length + 1 - (k + 1) = s.tickets.length + 0 - k := by omega
  refine ⟨h.producePos, ?_, hlen, ?_, ?_, h.owner, h.pending, h.sound, h.heads, h.records, ?_, ?_, ?_,
    hcall⟩
  · simp only [h.consumePos, toUInt32]
    omega
  · simp only [Consumer.owes, howes]
    exact hqueue
  · simp only [Consumer.owes, howes]
    exact hroom
  · intro t' ht'
    rw [htake] at ht'
    rcases List.mem_append.mp ht' with ht' | ht'
    · exact h.done t' ht'
    · rw [List.mem_singleton.mp ht', hpub]
  · intro j hlt hwindow
    rcases Nat.lt_or_ge j (k + 16384) with hin | hout
    · exact h.slots j (by omega) hin
    · -- the slot of the record that is through, after a turn
      obtain rfl : j = k + 16384 := by omega
      have hnone : s.tickets[k + 16384]? = none := by
        unfold logListMaxSize Consumer.owes at hroom
        exact List.getElem?_eq_none (by omega)
      have hpub : pub s.tickets (k + 16384) = [] := by
        unfold pub
        rw [hnone]
      rw [hpub, slot_turn]
      exact hcontent
  · refine ⟨[], pub s.tickets (k + 1), rfl, ?_, h.slots (k + 1) (by omega) (by omega), fun _ => rfl⟩
    rw [htake]
    refine hout.trans ?_
    simp only [bytes, List.flatMap_append, List.flatMap_cons, List.flatMap_nil, List.flatten_append,
      List.append_nil, List.flatten_nil, hrecord, happ]

/-- The consumer counts the record out. -/
theorem Inv.decrement (h : Inv threads size k s) (hmax : threads ≤ 2147467264) {n : Nat}
    {got : List UInt8} (hc : s.consumer = .decrementing n got) :
    Inv threads size k { s.countQueue (-1) with consumer := .testing n got } := by
  have hfront := h.front
  have hcall := h.call
  have hqueue := h.queueSize
  have hroom := h.room
  have hpassed := h.passed
  have hbound := countBelow_le Producer.isFull s.producers threads
  unfold Front at hfront
  rw [hc] at hfront hcall hqueue hroom
  unfold logListMaxSize at hroom
  simp only [Consumer.owes] at hqueue hroom
  refine ⟨h.producePos, h.consumePos, h.passed, ?_, ?_, h.owner, h.pending, h.sound, h.heads,
    h.records, h.done, h.slots, hfront, hcall⟩
  · exact countQueue_down (q := countBelow Producer.isReserved s.producers threads +
      countBelow Producer.isFull s.producers threads + (s.tickets.length + 0 - k))
      (by rw [hqueue]; omega) (by omega)
  · simp only [Consumer.owes, logListMaxSize, countQueue]
    omega

theorem Inv.work (h : Inv threads size k s) (hmax : threads ≤ 2147467264) {s' : Ring}
    (hs' : s.work = some s') : ∃ k', Inv threads size k' s' := by
  cases hc : s.consumer with
  | advancing n got =>
    unfold Ring.work at hs'
    simp only [hc] at hs'
    obtain rfl := Option.some.inj hs'
    exact ⟨k + 1, h.advance hc⟩
  | decrementing n got =>
    unfold Ring.work at hs'
    simp only [hc] at hs'
    obtain rfl := Option.some.inj hs'
    exact ⟨k, h.decrement hmax hc⟩
  | idle | testing | loading | copying | clearing =>
    exact ⟨k, h.work_turn hs' (by rw [hc]; rfl) (by rw [hc]; exact fun _ _ => Consumer.noConfusion)⟩

/-! ## Runs -/

/-- The blocks have at most `size` bytes, and calls of `consume` have room for one. -/
def Event.Fits (size : Nat) : Event → Prop
  | .finish _ head => ∀ block ∈ head, block.length ≤ size
  | .consume n => size ≤ n ∧ n < 2147483648
  | .produce _ | .work => True

theorem new_inv (threads size : Nat) : Inv threads size 0 new where
  producePos := rfl
  consumePos := rfl
  passed := Nat.le_refl 0
  queueSize := by
    rw [countBelow_eq_zero _ (fun _ => rfl), countBelow_eq_zero _ (fun _ => rfl)]
    rfl
  room := by
    rw [countBelow_eq_zero _ (fun _ => rfl)]
    exact show 0 < 0x4000 by decide
  owner _ _ _ h := by cases h
  pending _ _ h := by cases h
  sound _ := Producer.noConfusion
  heads _ _ h := by cases h
  records _ h := absurd h List.not_mem_nil
  done _ h := absurd h List.not_mem_nil
  slots _ _ _ := rfl
  front := ⟨[], [], rfl, rfl, rfl, fun _ => rfl⟩
  call _ h := by cases h

/-- Every step keeps the invariant. -/
theorem step_inv (hmax : threads ≤ 2147467264) (h : Inv threads size k s) {ev : Event}
    (hev : ev.Fits size) {s' : Ring} (hs' : step threads s ev = some s') :
    ∃ k', Inv threads size k' s' := by
  unfold step at hs'
  cases ev with
  | finish i head =>
    simp only at hs'
    split at hs'
    · next hguard =>
      obtain ⟨hi, hidle, hne⟩ := hguard
      obtain rfl := Option.some.inj hs'
      have hplaces (P : Producer → Bool) := countBelow_update P s.producers (.reserving head) hi
      have hres := hplaces Producer.isReserved
      have hfull := hplaces Producer.isFull
      rw [hidle] at hres hfull
      simp only [Producer.isReserved, Producer.isFull, Bool.toNat_false, Nat.add_zero] at hres hfull
      refine ⟨k, h.move (p := .reserving head) (q := s.queueSize) (by rw [hidle]; rfl) rfl
        (fun head' heq => ?_) ?_ ?_⟩
      · obtain rfl := Option.some.inj heq
        exact ⟨hne, hev⟩
      · rw [hres, hfull]
        exact h.queueSize
      · rw [hres]
        exact h.room
    · cases hs'
  | produce i =>
    simp only at hs'
    split at hs'
    · next hi => exact ⟨k, h.produce hmax hi hs'⟩
    · cases hs'
  | consume n =>
    simp only at hs'
    split at hs'
    · next hidle =>
      obtain rfl := Option.some.inj hs'
      obtain ⟨read, unread, happ, hout, hat⟩ := h.front
      rw [hidle] at hat hout
      exact ⟨k, h.turn (c := .testing n []) (by rw [hidle]; rfl) (fun _ _ _ => rfl)
        (fun n' hn' => by cases hn'; exact ⟨hev.1, hev.2, Nat.zero_le _⟩)
        ⟨read, unread, happ, hout, hat⟩⟩
    · cases hs'
  | work => exact h.work hmax hs'

/-- A slot whose record is unread changes only by what the consumer has copied. -/
def KeepsUnread (threads : Nat) (s : Ring) (ev : Event) : Prop :=
  ∀ s', step threads s ev = some s' → ∀ pos, s.logQueue pos ≠ [] →
    s'.logQueue pos = s.logQueue pos ∨
      ∃ read, s.logQueue pos = read ++ s'.logQueue pos ∧ read.flatten <:+ s.out ++ s.consumer.got

/-- No swap fails, and no slot is overwritten. -/
theorem step_keeps (h : Inv threads size k s) (ev : Event) : KeepsUnread threads s ev := by
  intro s' hs' pos hne
  obtain ⟨read, unread, happ, hout, hat⟩ := h.front
  have hsuffix {copied : Chain} (hcopied : copied <:+ read) :
      copied.flatten <:+ s.out ++ s.consumer.got := by
    obtain ⟨before, rfl⟩ := hcopied
    rw [hout, List.flatten_append, ← List.append_assoc]
    exact List.suffix_append _ _
  unfold step at hs'
  cases ev with
  | finish i head =>
    simp only at hs'
    split at hs'
    · obtain rfl := Option.some.inj hs'
      exact Or.inl rfl
    · cases hs'
  | consume n =>
    simp only at hs'
    split at hs'
    · obtain rfl := Option.some.inj hs'
      exact Or.inl rfl
    · cases hs'
  | produce i =>
    simp only at hs'
    split at hs'
    · unfold Ring.produce at hs'
      cases hp : s.producers i with
      | idle =>
        simp only [hp] at hs'
        cases hs'
      | ticketed head p =>
        obtain ⟨j, hj, rfl⟩ := h.owner i head p hp
        have hempty := (h.slot_empty hj rfl).2.2.2
        simp only [hp, hempty, if_true] at hs'
        obtain rfl := Option.some.inj hs'
        refine Or.inl (Function.update_of_ne ?_ _ _)
        rintro rfl
        exact hne hempty
      | failed => exact absurd hp (h.sound i)
      | reserving head =>
        simp only [hp] at hs'
        split at hs'
        · obtain rfl := Option.some.inj hs'
          exact Or.inl rfl
        · obtain rfl := Option.some.inj hs'
          exact Or.inl rfl
      | full head =>
        simp only [hp] at hs'
        obtain rfl := Option.some.inj hs'
        exact Or.inl rfl
      | reserved head =>
        simp only [hp] at hs'
        obtain rfl := Option.some.inj hs'
        exact Or.inl rfl
    · cases hs'
  | work =>
    simp only at hs'
    unfold Ring.work at hs'
    cases hc : s.consumer with
    | idle =>
      simp only [hc] at hs'
      cases hs'
    | testing n got =>
      simp only [hc] at hs'
      split at hs' <;> (obtain rfl := Option.some.inj hs'; exact Or.inl rfl)
    | loading n got =>
      simp only [hc] at hs'
      split at hs' <;> (obtain rfl := Option.some.inj hs'; exact Or.inl rfl)
    | advancing n got | decrementing n got =>
      simp only [hc] at hs'
      obtain rfl := Option.some.inj hs'
      exact Or.inl rfl
    | clearing n got p =>
      rw [hc] at hat hsuffix
      obtain ⟨rfl, -, -, before, hread⟩ := hat
      simp only [hc] at hs'
      obtain rfl := Option.some.inj hs'
      by_cases hpos : pos = slot k
      · subst hpos
        refine Or.inr ⟨s.logQueue (slot k), ?_, hsuffix ⟨before, hread.symm⟩⟩
        rw [setSlot_self, List.append_nil]
      · exact Or.inl (Function.update_of_ne hpos _ _)
    | copying n got p dat =>
      rw [hc] at hat hsuffix
      obtain ⟨rfl, rfl, -, before, copied, hread, hcontent⟩ := hat
      cases dat with
      | nil =>
        simp only [hc] at hs'
        obtain rfl := Option.some.inj hs'
        exact Or.inl rfl
      | cons block next =>
        simp only [hc] at hs'
        split at hs'
        · obtain rfl := Option.some.inj hs'
          by_cases hpos : pos = slot k
          · subst hpos
            refine Or.inr ⟨copied, ?_, hsuffix ⟨before, hread.symm⟩⟩
            rw [hcontent, Ring.ret, setSlot_self]
          · exact Or.inl (Function.update_of_ne hpos _ _)
        · obtain rfl := Option.some.inj hs'
          exact Or.inl rfl

/-- What `consume` has returned are bytes of published records, in the order of the tickets. -/
theorem Inv.out_prefix (h : Inv threads size k s) : s.out <+: s.published := by
  obtain ⟨read, unread, happ, hout, -⟩ := h.front
  have hfilter : s.tickets.filter Ticket.published =
      s.tickets.take k ++ (s.tickets.drop k).filter Ticket.published := by
    conv_lhs => rw [← List.take_append_drop k s.tickets, List.filter_append]
    rw [List.filter_eq_self.mpr h.done]
  have hread : read.flatten <+:
      (((s.tickets.drop k).filter Ticket.published).flatMap Ticket.record).flatten := by
    by_cases hnil : pub s.tickets k = []
    · rw [hnil, List.append_eq_nil_iff] at happ
      rw [happ.1]
      exact List.nil_prefix
    · -- the record that is being read is the next published one
      obtain ⟨t, ht, hpub, hrecord⟩ := pub_ne_nil hnil
      have hdrop : s.tickets.drop k = t :: s.tickets.drop (k + 1) := by
        obtain ⟨hlt, rfl⟩ := List.getElem?_eq_some_iff.mp ht
        exact List.drop_eq_getElem_cons hlt
      rw [hdrop, List.filter_cons_of_pos hpub, List.flatMap_cons, hrecord, ← happ,
        List.append_assoc, List.flatten_append]
      exact List.prefix_append _ _
  have hpublished : s.published = bytes (s.tickets.take k) ++
      (((s.tickets.drop k).filter Ticket.published).flatMap Ticket.record).flatten := by
    unfold published bytes
    rw [hfilter, List.flatMap_append, List.flatten_append]
  refine (List.prefix_append s.out s.consumer.got).trans ?_
  rw [hout, hpublished]
  exact (List.prefix_append_right_inj _).mpr hread

theorem run_inv (hmax : threads ≤ 2147467264) {evs : List Event}
    (hevs : ∀ ev ∈ evs, ev.Fits size) (hrun : (machine threads).run (machine threads).init evs = some s) :
    ∃ k, Inv threads size k s :=
  (machine threads).run_invariant (C := fun _ ev => ev.Fits size) (P := fun s => ∃ k, Inv threads size k s)
    (fun _ _ _ ⟨_, h⟩ hev hstep => step_inv hmax h hev hstep) evs ⟨0, new_inv threads size⟩
    ((machine threads).allSteps_of_forall hevs _) hrun

/-- A thread that is about to swap its chain in finds the slot empty. -/
def SwapsSucceed (s : Ring) : Prop :=
  ∀ i head pos, s.producers i = .ticketed head pos → s.logQueue pos = []

/-- **The log ring loses, duplicates and reorders nothing** in any run of up to 2^31 - 2^14
threads: no swap fails, no slot is overwritten while its record is unread, and what `consume`
has returned is a prefix of the published records in the order of their tickets. -/
theorem ring_keeps_records (threads size : Nat) (hmax : threads ≤ 2147467264) (evs : List Event)
    (hevs : ∀ ev ∈ evs, ev.Fits size) (s : Ring)
    (hrun : (machine threads).run (machine threads).init evs = some s) :
    SwapsSucceed s ∧
      (machine threads).AllSteps (KeepsUnread threads) (machine threads).init evs ∧
      s.out <+: s.published := by
  obtain ⟨k, h⟩ := run_inv hmax hevs hrun
  refine ⟨fun i head pos hp => ?_, ?_, h.out_prefix⟩
  · obtain ⟨j, hj, rfl⟩ := h.owner i head pos hp
    exact (h.slot_empty hj rfl).2.2.2
  · exact (machine threads).allSteps_of_invariant (C := fun _ ev => ev.Fits size)
      (P := fun s => ∃ k, Inv threads size k s)
      (fun _ _ _ ⟨_, h⟩ hev hstep => step_inv hmax h hev hstep)
      (fun _ ev ⟨_, h⟩ _ => step_keeps h ev) evs ⟨0, new_inv threads size⟩
      ((machine threads).allSteps_of_forall hevs _)

/-- Two threads take tickets, and the second publishes first; the consumer reads the record of
two blocks in two calls. -/
def twoThreads : List Event :=
  [.finish 0 [[1], [2, 3]], .produce 0, .produce 0, .finish 1 [[4]], .produce 1, .produce 1,
    .produce 1, .produce 0, .consume 2, .work, .work, .work, .work, .consume 2, .work, .work, .work,
    .work, .work, .work, .work, .work, .work, .work]

theorem ring_keeps_records_two :
    ∃ s, (machine 2).run (machine 2).init twoThreads = some s ∧ SwapsSucceed s ∧
      (machine 2).AllSteps (KeepsUnread 2) (machine 2).init twoThreads ∧ s.out <+: s.published := by
  obtain ⟨s, hs⟩ := Option.isSome_iff_exists.mp
    (show ((machine 2).run (machine 2).init twoThreads).isSome = true by decide +kernel)
  exact ⟨s, hs, ring_keeps_records 2 2 (by decide) twoThreads (by simp [twoThreads, Event.Fits]) s hs⟩

example : ((machine 2).run (machine 2).init twoThreads).map (fun s => (s.out, s.published)) =
    some ([1, 2, 3], [1, 2, 3, 4]) := by decide +kernel

/-! ## Too many threads -/

/-- A run leads to `s`, with blocks of one byte. -/
def Reached (threads : Nat) (s : Ring) : Prop :=
  ∃ evs, (∀ ev ∈ evs, ev.Fits 1) ∧ (machine threads).run (machine threads).init evs = some s

theorem Reached.next (h : Reached threads s) {e : Event} (he : e.Fits 1) {s' : Ring}
    (hstep : step threads s e = some s') : Reached threads s' := by
  obtain ⟨evs, hevs, hrun⟩ := h
  refine ⟨evs ++ [e], fun e' he' => ?_, (machine threads).run_concat hrun hstep⟩
  rcases List.mem_append.mp he' with he' | he'
  · exact hevs e' he'
  · rw [List.mem_singleton.mp he']
    exact he

/-- The record that every thread logs. -/
def zero : Chain := [[0]]

theorem produce_reserving {i : Nat} {head : Chain} (hp : s.producers i = .reserving head) :
    let q := toInt (s.queueSize + 1)
    s.produce i = some { s.setProducer i (if q ≥ logListMaxSize then .full head else .reserved head) with
      queueSize := q } := by
  simp only [Ring.produce, hp, countQueue, setProducer]
  by_cases hfull : toInt (s.queueSize + 1) ≥ logListMaxSize
  · exact (if_pos hfull).trans (by rw [if_pos hfull])
  · exact (if_neg hfull).trans (by rw [if_neg hfull])

/-- A thread calls `finish` and passes the loop, or finds the queue full. -/
theorem Reached.finish (h : Reached threads s) {i : Nat} (hi : i < threads)
    (hidle : s.producers i = .idle) {q : Int} (hq : toInt (s.queueSize + 1) = q) :
    Reached threads { s.setProducer i (if q ≥ logListMaxSize then .full zero else .reserved zero) with
      queueSize := q } := by
  have hfinish : step threads s (.finish i zero) = some (s.setProducer i (.reserving zero)) := by
    simp only [step, hi, hidle, zero, true_and]
    exact if_pos (List.cons_ne_nil _ _)
  have hat : (s.setProducer i (.reserving zero)).producers i = .reserving zero :=
    Function.update_self _ _ _
  refine (h.next (by simp [Event.Fits, zero]) hfinish).next (e := .produce i) trivial ?_
  simp only [step, hi, if_true, produce_reserving hat]
  simp only [setProducer, Function.update_idem, hq]

/-- A thread that has passed the loop takes its ticket. -/
theorem Reached.ticket (h : Reached threads s) {i : Nat} (hi : i < threads)
    (hp : s.producers i = .reserved zero) {n : Nat} (hpos : toUInt32 (s.producePos + 1) = n) :
    Reached threads { s.setProducer i (.ticketed zero (slotOf n)) with
      producePos := n
      tickets := s.tickets ++ [⟨i, zero, false⟩] } := by
  refine h.next (e := .produce i) trivial ?_
  simp only [step, hi, if_true, Ring.produce, hp, hpos]

/-- A thread swaps its chain into an empty slot. -/
theorem Reached.swap (h : Reached threads s) {i : Nat} (hi : i < threads) {pos : Nat}
    (hp : s.producers i = .ticketed zero pos) (hempty : s.logQueue pos = []) :
    Reached threads { (s.setSlot pos zero).setProducer i .idle with
      tickets := s.tickets.map (Ticket.publish i) } := by
  refine h.next (e := .produce i) trivial ?_
  simp only [step, hi, if_true, Ring.produce, hp, hempty]

/-- A thread gets a record in. -/
theorem Reached.log (h : Reached threads s) {i : Nat} (hi : i < threads)
    (hidle : s.producers i = .idle) {q : Int} (hq : toInt (s.queueSize + 1) = q)
    (hplace : ¬ q ≥ logListMaxSize) {n : Nat} (hpos : toUInt32 (s.producePos + 1) = n)
    (hempty : s.logQueue (slotOf n) = []) :
    ∃ s', Reached threads s' ∧ s'.queueSize = q ∧ s'.producePos = n ∧
      s'.logQueue = Function.update s.logQueue (slotOf n) zero ∧ s'.producers = s.producers := by
  have hfinish := h.finish hi hidle hq
  rw [if_neg hplace] at hfinish
  have hticket := hfinish.ticket hi (Function.update_self _ _ _) hpos
  refine ⟨_, hticket.swap hi (Function.update_self _ _ _) hempty, rfl, rfl, rfl, ?_⟩
  simp only [setProducer, setSlot, Function.update_idem]
  rw [← hidle, Function.update_eq_self]

/-- One thread fills the ring up to its last slot but one. -/
theorem reached_filled (hthreads : 0 < threads) : ∀ k : Nat, k ≤ 16383 →
    ∃ s, Reached threads s ∧ s.queueSize = (k : Int) ∧ s.producePos = k ∧
      (∀ pos, s.logQueue pos = if 1 ≤ pos ∧ pos ≤ k then zero else []) ∧
      ∀ i, s.producers i = .idle
  | 0, _ => by
      refine ⟨new, ⟨[], fun _ h => absurd h List.not_mem_nil, rfl⟩, rfl, rfl, fun pos => ?_, fun _ => rfl⟩
      rw [if_neg (by omega)]
      rfl
  | k + 1, hk => by
      obtain ⟨s, hs, hq, hpos, hslots, hidle⟩ := reached_filled hthreads k (by omega)
      have hslot : slotOf (k + 1) = k + 1 := by
        have h := slotOf_toUInt32 k
        rw [toUInt32_of_lt (by omega)] at h
        rw [h, slot, logListMaxSize]
        omega
      obtain ⟨s', hs', hq', hpos', hslots', hidle'⟩ := hs.log hthreads (hidle 0)
        (q := ((k + 1 : Nat) : Int)) (countQueue_up hq (by omega))
        (by unfold logListMaxSize; omega) (n := k + 1)
        (by rw [hpos, toUInt32_of_lt (by omega)])
        (by rw [hslot, hslots, if_neg (by omega)])
      refine ⟨s', hs', hq', hpos', fun pos => ?_, fun i => by rw [hidle', hidle]⟩
      rw [hslots', hslot]
      by_cases heq : pos = k + 1
      · rw [heq, Function.update_self, if_pos (by omega)]
      · rw [Function.update_of_ne heq, hslots]
        split <;> split <;> first | rfl | omega

/-- Thread after thread finds the queue full. -/
theorem reached_full {j0 : Nat} (hj0 : j0 ≤ threads) (hmax : j0 ≤ 2147467264) (hpos : 0 < threads) :
    ∀ j : Nat, j ≤ j0 →
    ∃ s, Reached threads s ∧ s.queueSize = ((16383 + j : Nat) : Int) ∧ s.producePos = 16383 ∧
      s.logQueue 0 = [] ∧ s.logQueue 1 = zero ∧ ∀ i, j ≤ i → s.producers i = .idle
  | 0, _ => by
      obtain ⟨s, hs, hq, hpos, hslots, hidle⟩ := reached_filled hpos 16383 (Nat.le_refl _)
      exact ⟨s, hs, hq, hpos, by rw [hslots, if_neg (by omega)], by rw [hslots, if_pos (by omega)],
        fun i _ => hidle i⟩
  | j + 1, hj => by
      obtain ⟨s, hs, hq, hpos, hzero, hone, hidle⟩ := reached_full hj0 hmax hpos j (by omega)
      have hfull := hs.finish (i := j) (by omega) (hidle j (Nat.le_refl j)) (countQueue_up hq (by omega))
      refine ⟨_, hfull, rfl, hpos, hzero, hone, fun i hi => ?_⟩
      exact (Function.update_of_ne (by omega) _ _).trans (hidle i (by omega))

/-- With 2^31 - 2^14 + 1 threads, `_queueSize` overflows, and a thread finds the slot of its
ticket taken. -/
theorem overflow_fails : ∃ evs s, (∀ ev ∈ evs, ev.Fits 1) ∧
    (machine 2147467265).run (machine 2147467265).init evs = some s ∧ ¬ SwapsSucceed s := by
  obtain ⟨s, hs, hq, hpos, hzero, hone, hidle⟩ :=
    reached_full (show 2147467264 ≤ 2147467265 by omega) (Nat.le_refl _) (by omega) 2147467264
      (Nat.le_refl _)
  obtain ⟨s1, hs1, hq1, hpos1, hslots1, hidle1⟩ := hs.log (i := 2147467264) (by omega)
    (hidle _ (Nat.le_refl _)) (q := -2147483648) (by rw [hq]; decide +kernel) (by decide)
    (n := 16384) (by rw [hpos]; decide) (by rw [show slotOf 16384 = 0 by decide]; exact hzero)
  have hfinish := hs1.finish (i := 2147467264) (q := -2147483647) (by omega)
    (by rw [hidle1]; exact hidle _ (Nat.le_refl _)) (by rw [hq1]; decide +kernel)
  rw [if_neg (by decide)] at hfinish
  obtain ⟨evs, hevs, hrun⟩ := hfinish.ticket (n := 16385) (by omega) (Function.update_self _ _ _)
    (show toUInt32 (s1.producePos + 1) = 16385 by rw [hpos1]; decide)
  refine ⟨evs, _, hevs, hrun, fun hswaps => ?_⟩
  have hempty := hswaps 2147467264 zero (slotOf 16385)
    (by simp only [setProducer, Function.update_self])
  have htaken : s1.logQueue (slotOf 16385) = zero := by
    rw [hslots1, Function.update_of_ne (by decide), show slotOf 16385 = 1 by decide, hone]
  exact List.cons_ne_nil _ _ (htaken.symm.trans hempty)

end Ring

end LinSocketIo.Log
