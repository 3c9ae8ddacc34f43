/-
LinSocketIo.Base.Blocks — a function folded over the blocks of a list.

`absorb` takes a given number of blocks off a list, `absorbAll` all that are
full, and `remainder` is what is left after them. When a list comes in two
pieces, what is left of the first goes before the second (`absorbAll_append`,
`remainder_append`).
-/
import Mathlib.Algebra.Group.Nat.Defs

namespace LinSocketIo.Base

variable {σ α : Type} (f : σ → List α → σ) (n : Nat)

/-- The state after `k` blocks of `n` elements. -/
def absorb : Nat → σ → List α → σ
  | 0, s, _ => s
  | k + 1, s, l => absorb k (f s (l.take n)) (l.drop n)

/-- The state after all full blocks. -/
def absorbAll (s : σ) (l : List α) : σ := absorb f n (l.length / n) s l

/-- What comes after the full blocks. -/
def remainder (l : List α) : List α := l.drop (n * (l.length / n))

theorem absorb_add (j k : Nat) (s : σ) (l : List α) :
    absorb f n (j + k) s l = absorb f n k (absorb f n j s l) (l.drop (n * j)) := by
  induction j generalizing s l with
  | zero => simp [absorb]
  | succ j ih =>
    rw [Nat.add_right_comm, absorb, ih, absorb, List.drop_drop, Nat.mul_succ, Nat.add_comm n]

/-- What comes after the blocks does not matter. -/
theorem absorb_append (k : Nat) (s : σ) {l : List α} (m : List α) (h : n * k ≤ l.length) :
    absorb f n k s (l ++ m) = absorb f n k s l := by
  induction k generalizing s l with
  | zero => rfl
  | succ k ih =>
    rw [Nat.mul_succ] at h
    have hlen : n ≤ l.length := by omega
    have hdrop : n * k ≤ (l.drop n).length := by
      rw [List.length_drop]
      omega
    rw [absorb, absorb, List.take_append_of_le_length hlen, List.drop_append_of_le_length hlen,
      ih _ hdrop]

theorem length_remainder (l : List α) : (remainder n l).length = l.length % n := by
  rw [remainder, List.length_drop, ← Nat.mod_eq_sub_mul_div]

variable {n}

/-- The blocks of two pieces. -/
theorem length_append_div (hn : 0 < n) (l m : List α) :
    (l ++ m).length / n = l.length / n + (remainder n l ++ m).length / n := by
  have hlen : (l ++ m).length = n * (l.length / n) + (remainder n l ++ m).length := by
    rw [List.length_append, List.length_append, length_remainder, ← Nat.add_assoc, Nat.div_add_mod]
  rw [hlen, Nat.mul_add_div hn]

theorem absorbAll_append (hn : 0 < n) (s : σ) (l m : List α) :
    absorbAll f n s (l ++ m) = absorbAll f n (absorbAll f n s l) (remainder n l ++ m) := by
  have hle : n * (l.length / n) ≤ l.length := Nat.mul_div_le _ _
  unfold absorbAll
  rw [length_append_div hn, absorb_add, absorb_append f n _ _ _ hle,
    List.drop_append_of_le_length hle]
  rfl

theorem remainder_append (hn : 0 < n) (l m : List α) :
    remainder n (l ++ m) = remainder n (remainder n l ++ m) := by
  have hle : n * (l.length / n) ≤ l.length := Nat.mul_div_le _ _
  have hdrop : (l ++ m).drop (n * (l.length / n)) = remainder n l ++ m :=
    List.drop_append_of_le_length hle
  rw [remainder, length_append_div hn, Nat.mul_add, ← List.drop_drop, hdrop]
  rfl

/-- Less than a block. -/
theorem absorbAll_of_lt (s : σ) {l : List α} (h : l.length < n) : absorbAll f n s l = s := by
  rw [absorbAll, Nat.div_eq_of_lt h, absorb]

theorem remainder_of_lt {l : List α} (h : l.length < n) : remainder n l = l := by
  rw [remainder, Nat.div_eq_of_lt h, Nat.mul_zero, List.drop_zero]

theorem remainder_block (hn : 0 < n) {b : List α} (hb : b.length = n) : remainder n b = [] := by
  rw [remainder, hb, Nat.div_self hn, Nat.mul_one, ← hb, List.drop_length]

theorem absorbAll_block (hn : 0 < n) (s : σ) {b : List α} (hb : b.length = n) :
    absorbAll f n s b = f s b := by
  rw [absorbAll, hb, Nat.div_self hn, absorb, absorb, ← hb, List.take_length]

end LinSocketIo.Base
