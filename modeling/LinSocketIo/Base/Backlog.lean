/-
LinSocketIo.Base.Backlog — a stream into a sink that takes what it likes.

Items go to the sink at once while nothing waits, and behind what waits
otherwise. Whatever the sink takes, the stream is what it took followed by
what waits (`stream_drain`, `stream_push`, `stream_offer`), and the sink is
asked to call back (`armed`) exactly while something waits
(`steady_drain`, `steady_push`, `steady_offer`).
-/
import Mathlib.Data.List.Basic

namespace LinSocketIo.Base

/-- What a sink took and what waits for it. -/
structure Backlog (α : Type) where
  out : List α
  pending : List α
  /-- The sink has been asked to say when it takes more. -/
  armed : Bool

namespace Backlog

variable {α : Type} (b : Backlog α)

/-- The items in the order they came. -/
def stream : List α := b.out ++ b.pending

/-- The sink is asked to call back exactly while something waits. -/
def Steady : Prop := b.armed = true ↔ b.pending ≠ []

/-- The sink takes `n` of the items that wait; it is no longer asked when they were all. -/
def drain (n : Nat) : Backlog α :=
  if b.pending.isEmpty then b
  else
    ⟨b.out ++ b.pending.take n, b.pending.drop n,
      if (b.pending.drop n).isEmpty then false else b.armed⟩

/-- Items that wait behind the others. -/
def push (items : List α) : Backlog α := { b with pending := b.pending ++ items }

/-- Items offered while nothing waits; the sink takes `n` and is asked when it left some. -/
def offer (items : List α) (n : Nat) : Backlog α :=
  ⟨b.out ++ items.take n, items.drop n, b.armed || n < items.length⟩

theorem pending_drain (n : Nat) : (b.drain n).pending = b.pending.drop n := by
  unfold drain
  split
  · next hnil => rw [List.isEmpty_iff.mp hnil, List.drop_nil]
  · rfl

theorem stream_drain (n : Nat) : (b.drain n).stream = b.stream := by
  unfold drain
  split
  · rfl
  · simp only [stream, List.append_assoc, List.take_append_drop]

theorem stream_push (items : List α) : (b.push items).stream = b.stream ++ items := by
  simp only [stream, push, List.append_assoc]

theorem stream_offer (h : b.pending = []) (items : List α) (n : Nat) :
    (b.offer items n).stream = b.stream ++ items := by
  simp only [stream, offer, h, List.append_nil, List.append_assoc, List.take_append_drop]

variable {b}

theorem steady_drain (h : b.Steady) (n : Nat) : (b.drain n).Steady := by
  unfold drain
  split
  · exact h
  · next hwaits =>
    have harmed : b.armed = true := h.mpr fun hnil => hwaits (List.isEmpty_iff.mpr hnil)
    unfold Steady
    cases hrest : b.pending.drop n with
    | nil => simp
    | cons x rest => simp [harmed]

theorem steady_push (h : b.Steady) (hwaits : b.pending ≠ []) (items : List α) :
    (b.push items).Steady := by
  simp [Steady, push, h.mpr hwaits, hwaits]

theorem steady_offer (h : b.Steady) (hnil : b.pending = []) (items : List α) (n : Nat) :
    (b.offer items n).Steady := by
  have hoff : b.armed = false := by
    rw [← Bool.not_eq_true]
    exact fun harmed => h.mp harmed hnil
  simp [Steady, offer, hoff, List.drop_eq_nil_iff]

end Backlog

end LinSocketIo.Base
