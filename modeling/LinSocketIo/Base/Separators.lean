/-
LinSocketIo.Base.Separators — the first occurrence of a pattern in a list, and
the pieces between the occurrences that do not overlap.

`Splits s data ps` reads the occurrences of `s` in `data` from the left, each one
behind the end of the one before it, and `ps` are the pieces between them.

* `findAt_append` — looking for `s` behind a part that is done with.
* `Splits.exists_pieces` — every list has pieces.
* `Splits.intercalate_eq`, `Splits.not_infix` — with `s` in between, the pieces
  are the list, and none of them contains `s`.
-/
import Mathlib.Data.List.Infix

namespace LinSocketIo.Base

variable {α : Type} [DecidableEq α]

/-- The first position from `pos` on where `s` occurs. -/
def findAt (data s : List α) (pos : Nat) : Option Nat :=
  (List.range (data.length + 1)).find? fun i => pos ≤ i ∧ s <+: data.drop i

theorem findAt_eq_some {data s : List α} {pos i : Nat} : findAt data s pos = some i ↔
    (pos ≤ i ∧ s <+: data.drop i) ∧ i ≤ data.length ∧
      ∀ j < i, pos ≤ j → ¬ s <+: data.drop j := by
  simp only [findAt, List.find?_range_eq_some, decide_eq_true_eq, List.mem_range, Nat.lt_succ_iff,
    Bool.not_eq_true', decide_eq_false_iff_not, not_and]

theorem findAt_eq_none {data s : List α} {pos : Nat} : findAt data s pos = none ↔
    ∀ i ≤ data.length, pos ≤ i → ¬ s <+: data.drop i := by
  simp only [findAt, List.find?_eq_none, List.mem_range, Nat.lt_succ_iff, decide_eq_true_eq, not_and]

/-- Behind a part that is done with, the search is that in the rest. -/
theorem findAt_append (front rest s : List α) : findAt (front ++ rest) s front.length =
    (findAt rest s 0).map (front.length + ·) := by
  have hdrop (i : Nat) : (front ++ rest).drop (front.length + i) = rest.drop i :=
    List.drop_length_add_append i
  cases h : findAt rest s 0 with
  | none =>
      refine findAt_eq_none.mpr fun i hi hpos => ?_
      obtain ⟨k, rfl⟩ := Nat.exists_eq_add_of_le hpos
      rw [hdrop]
      rw [List.length_append] at hi
      exact findAt_eq_none.mp h k (by omega) (Nat.zero_le k)
  | some k =>
      obtain ⟨⟨_, hk⟩, hlen, hfirst⟩ := findAt_eq_some.mp h
      refine findAt_eq_some.mpr ⟨⟨Nat.le_add_right _ _, (hdrop k).symm ▸ hk⟩, ?_, ?_⟩
      · rw [List.length_append]
        exact Nat.add_le_add_left hlen _
      · intro j (hj : j < front.length + k) hpos
        obtain ⟨m, rfl⟩ := Nat.exists_eq_add_of_le hpos
        rw [hdrop]
        exact hfirst m (by omega) (Nat.zero_le m)

omit [DecidableEq α] in
theorem isInfix_iff_drop {s data : List α} :
    s <:+: data ↔ ∃ i ≤ data.length, s <+: data.drop i := by
  constructor
  · intro h
    obtain ⟨t, ht, hsuffix⟩ := List.infix_iff_prefix_suffix.mp h
    rw [List.suffix_iff_eq_drop] at hsuffix
    exact ⟨_, Nat.sub_le _ _, hsuffix ▸ ht⟩
  · rintro ⟨i, _, h⟩
    exact h.isInfix.trans (List.drop_suffix i data).isInfix

/-! ## The part in front of a separator -/

theorem takeWhile_ne_append {front : List α} {d : α} (h : ∀ c ∈ front, c ≠ d) (rest : List α) :
    (front ++ d :: rest).takeWhile (· ≠ d) = front := by
  rw [List.takeWhile_append_of_pos fun c hc => decide_eq_true (h c hc),
    List.takeWhile_cons_of_neg (by simp), List.append_nil]

theorem dropWhile_ne_append {front : List α} {d : α} (h : ∀ c ∈ front, c ≠ d) (rest : List α) :
    (front ++ d :: rest).dropWhile (· ≠ d) = d :: rest := by
  rw [List.dropWhile_append_of_pos fun c hc => decide_eq_true (h c hc),
    List.dropWhile_cons_of_neg (by simp)]

theorem findAt_singleton {front : List α} {d : α} (h : ∀ c ∈ front, c ≠ d) (rest : List α) :
    findAt (front ++ d :: rest) [d] 0 = some front.length := by
  refine findAt_eq_some.mpr ⟨⟨Nat.zero_le _, ?_⟩, ?_, ?_⟩
  · rw [List.drop_left]
    exact ⟨rest, rfl⟩
  · rw [List.length_append]
    exact Nat.le_add_right _ _
  · intro j hj _ hprefix
    rw [List.drop_append_of_le_length (Nat.le_of_lt hj), List.drop_eq_getElem_cons hj,
      List.cons_append] at hprefix
    exact h _ (List.getElem_mem hj) (List.cons_prefix_cons.mp hprefix).1.symm

/-! ## The pieces -/

/-- The pieces of a list between the occurrences of `s`. -/
inductive Splits (s : List α) : List α → List (List α) → Prop where
  | last {data : List α} : findAt data s 0 = none → Splits s data [data]
  | cons {piece rest : List α} {ps : List (List α)} :
      findAt (piece ++ s ++ rest) s 0 = some piece.length → Splits s rest ps →
      Splits s (piece ++ s ++ rest) (piece :: ps)

namespace Splits

variable {s data : List α} {ps : List (List α)}

theorem ne_nil (h : Splits s data ps) : ps ≠ [] := by
  cases h with
  | last => exact List.cons_ne_nil _ _
  | cons => exact List.cons_ne_nil _ _

/-- Every list has pieces, and not many. -/
theorem exists_pieces (hs : s ≠ []) : ∀ (n : Nat) (data : List α), data.length ≤ n →
    ∃ ps, Splits s data ps ∧ ps.length ≤ data.length + 1
  | n, data, hn => by
      cases h : findAt data s 0 with
      | none => exact ⟨[data], .last h, by simp⟩
      | some i =>
          obtain ⟨⟨_, t, ht⟩, hlen, _⟩ := findAt_eq_some.mp h
          have hpos := List.length_pos_iff.mpr hs
          have hdata : data = data.take i ++ s ++ t := by
            rw [List.append_assoc, ht, List.take_append_drop]
          have htake : (data.take i).length = i := List.length_take_of_le hlen
          have hlength := congrArg List.length hdata
          rw [List.length_append, List.length_append, htake] at hlength
          obtain ⟨m, rfl⟩ : ∃ m, n = m + 1 := ⟨n - 1, by omega⟩
          obtain ⟨ps, hps, hcount⟩ := exists_pieces hs m t (by omega)
          refine ⟨data.take i :: ps, ?_, ?_⟩
          · have hcons : Splits s (data.take i ++ s ++ t) (data.take i :: ps) :=
              .cons (by rw [← hdata, htake]; exact h) hps
            rw [← hdata] at hcons
            exact hcons
          · rw [List.length_cons]
            omega

theorem intercalate_eq (h : Splits s data ps) : s.intercalate ps = data := by
  induction h with
  | last => exact List.intercalate_singleton
  | cons _ hps ih => rw [List.intercalate_cons_of_ne_nil hps.ne_nil, ih]

/-- An occurrence in a piece would be one before the first. -/
theorem not_infix (hs : s ≠ []) (h : Splits s data ps) : ∀ p ∈ ps, ¬ s <:+: p := by
  induction h with
  | last hnone =>
      intro p hp hinfix
      obtain rfl := List.mem_singleton.mp hp
      obtain ⟨i, hi, hprefix⟩ := isInfix_iff_drop.mp hinfix
      exact findAt_eq_none.mp hnone i hi (Nat.zero_le i) hprefix
  | @cons piece rest ps hfirst _ ih =>
      intro p hp
      rcases List.mem_cons.mp hp with rfl | hp
      · intro hinfix
        obtain ⟨i, hi, hprefix⟩ := isInfix_iff_drop.mp hinfix
        have hpos := List.length_pos_iff.mpr hs
        have hle := hprefix.length_le
        rw [List.length_drop] at hle
        refine (findAt_eq_some.mp hfirst).2.2 i (by omega) (Nat.zero_le i) ?_
        rw [List.append_assoc, List.drop_append_of_le_length hi]
        exact hprefix.trans (List.prefix_append _ _)
      · exact ih p hp

end Splits

end LinSocketIo.Base
