/-
LinSocketIo.Base.Framing — how a stream is cut into frames.

A framing says whether a list begins with a complete frame, and how long it
is. More data behind a complete frame does not change it, so the frames of a
stream can be taken off as they become complete: `frames_append` is what a
receiver relies on that gets the stream in pieces, and `frames_flatten` what a
sender relies on that puts the frames of a stream together.
-/
import Mathlib.Data.List.Basic

namespace LinSocketIo.Base

/-- A rule that finds the first frame. -/
structure Framing (α : Type) where
  /-- The length of the complete frame that comes first, if there is one. -/
  next : List α → Option Nat
  pos : ∀ l n, next l = some n → 0 < n
  le : ∀ l n, next l = some n → n ≤ l.length
  stable : ∀ l n r, next l = some n → next (l ++ r) = some n

namespace Framing

variable {α : Type} (F : Framing α)

/-- The complete frames that come first, at most `fuel` of them, and the rest. -/
def scan : Nat → List α → List (List α) × List α
  | 0, l => ([], l)
  | fuel + 1, l =>
    match F.next l with
    | none => ([], l)
    | some n => ((l.take n) :: (scan fuel (l.drop n)).1, (scan fuel (l.drop n)).2)

/-- The complete frames at the front of a list. -/
def frames (l : List α) : List (List α) := (F.scan l.length l).1

/-- What is behind the complete frames. -/
def rest (l : List α) : List α := (F.scan l.length l).2

/-- The number of elements in the complete frames. -/
def consumed (l : List α) : Nat := l.length - (F.rest l).length

/-- A list has no more frames than elements. -/
theorem scan_enough : ∀ (fuel : Nat) (l : List α), l.length ≤ fuel →
    F.scan fuel l = F.scan l.length l := by
  intro fuel
  induction fuel using Nat.strongRecOn with
  | ind fuel ih =>
      intro l hl
      match fuel, l with
      | 0, [] => rfl
      | fuel + 1, [] =>
          have hnone : F.next [] = none := by
            cases h : F.next [] with
            | none => rfl
            | some n => exact absurd (F.le _ _ h) (Nat.not_le.mpr (F.pos _ _ h))
          simp only [scan, hnone, List.length_nil]
      | fuel + 1, a :: l =>
          simp only [List.length_cons, scan]
          cases h : F.next (a :: l) with
          | none => rfl
          | some n =>
              have hpos := F.pos _ _ h
              have hle := F.le _ _ h
              simp only [List.length_cons] at hl hle
              have hdrop : ((a :: l).drop n).length ≤ l.length := by
                simp only [List.length_drop, List.length_cons]
                omega
              simp only
              rw [ih fuel (by omega) ((a :: l).drop n) (by omega),
                ih l.length (by omega) ((a :: l).drop n) hdrop]

theorem no_frame {l : List α} (h : F.next l = none) : F.frames l = [] ∧ F.rest l = l := by
  have hscan : F.scan l.length l = ([], l) := by
    cases l with
    | nil => rfl
    | cons a l => simp only [List.length_cons, scan, h]
  exact ⟨congrArg (·.1) hscan, congrArg (·.2) hscan⟩

/-- A complete frame comes off the front. -/
theorem first_frame {l : List α} {n : Nat} (h : F.next l = some n) :
    F.frames l = l.take n :: F.frames (l.drop n) ∧ F.rest l = F.rest (l.drop n) := by
  have hpos := F.pos _ _ h
  have hle := F.le _ _ h
  cases l with
  | nil => exact absurd hle (Nat.not_le.mpr hpos)
  | cons a l =>
      have hdrop : ((a :: l).drop n).length ≤ l.length := by
        simp only [List.length_drop, List.length_cons]
        omega
      have hscan : F.scan (a :: l).length (a :: l) =
          ((a :: l).take n :: F.frames ((a :: l).drop n), F.rest ((a :: l).drop n)) := by
        simp only [List.length_cons, scan, h]
        rw [F.scan_enough l.length _ hdrop]
        rfl
      exact ⟨congrArg (·.1) hscan, congrArg (·.2) hscan⟩

/-- Taking the frames off early changes nothing. -/
theorem scan_append (l r : List α) :
    F.frames (l ++ r) = F.frames l ++ F.frames (F.rest l ++ r) ∧
      F.rest (l ++ r) = F.rest (F.rest l ++ r) := by
  induction hlen : l.length using Nat.strongRecOn generalizing l with
  | ind len ih =>
      subst hlen
      cases h : F.next l with
      | none =>
          obtain ⟨hframes, hrest⟩ := F.no_frame h
          rw [hframes, hrest]
          exact ⟨rfl, rfl⟩
      | some n =>
          have hpos := F.pos _ _ h
          have hle := F.le _ _ h
          obtain ⟨hframes, hrest⟩ := F.first_frame h
          obtain ⟨hframes', hrest'⟩ := F.first_frame (F.stable l n r h)
          rw [List.take_append_of_le_length hle, List.drop_append_of_le_length hle] at hframes'
          rw [List.drop_append_of_le_length hle] at hrest'
          obtain ⟨hfs, hr⟩ := ih (l.drop n).length (by rw [List.length_drop]; omega) (l.drop n) rfl
          rw [hframes, hrest, hframes', hrest', hfs, hr]
          exact ⟨rfl, rfl⟩

theorem frames_append (l r : List α) : F.frames (l ++ r) = F.frames l ++ F.frames (F.rest l ++ r) :=
  (F.scan_append l r).1

theorem rest_append (l r : List α) : F.rest (l ++ r) = F.rest (F.rest l ++ r) :=
  (F.scan_append l r).2

/-- The frames of a beginning come first. -/
theorem frames_prefix {l l' : List α} (h : l <+: l') : F.frames l <+: F.frames l' := by
  obtain ⟨r, rfl⟩ := h
  rw [F.frames_append]
  exact List.prefix_append _ _

/-- Frames that are put together come apart again. -/
theorem frames_flatten {ms : List (List α)} (h : ∀ m ∈ ms, F.next m = some m.length) :
    F.frames ms.flatten = ms := by
  induction ms with
  | nil =>
      cases hnext : F.next [] with
      | none => exact (F.no_frame hnext).1
      | some n => exact absurd (F.le _ _ hnext) (Nat.not_le.mpr (F.pos _ _ hnext))
  | cons m ms ih =>
      have hfirst := F.stable m m.length ms.flatten (h m (by simp))
      rw [List.flatten_cons, (F.first_frame hfirst).1, List.take_left, List.drop_left,
        ih fun m' hm' => h m' (List.mem_cons_of_mem _ hm')]

theorem rest_suffix : ∀ (fuel : Nat) (l : List α), (F.scan fuel l).2 <:+ l
  | 0, l => List.suffix_refl l
  | fuel + 1, l => by
      rw [scan]
      cases F.next l with
      | none => exact List.suffix_refl l
      | some n => exact (rest_suffix fuel (l.drop n)).trans (List.drop_suffix n l)

/-- Dropping the complete frames leaves the rest. -/
theorem drop_consumed (l : List α) : l.drop (F.consumed l) = F.rest l :=
  (List.suffix_iff_eq_drop.mp (F.rest_suffix l.length l)).symm

end Framing

end LinSocketIo.Base
