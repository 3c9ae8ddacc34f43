/-
LinSocketIo.Base.Threads — counting threads by where they are.

A program with many threads has a place for each of them: a function from
the threads to places, of which the first `n` belong to threads. A counter
of the program is the number of threads at certain places, and a step of one
thread changes it by that thread alone (`countBelow_update`).
-/
import Mathlib.Logic.Function.Basic

namespace LinSocketIo.Base

variable {α : Type}

/-- The number of threads below `n` at a place that `P` holds of. -/
def countBelow (P : α → Bool) (places : Nat → α) : Nat → Nat
  | 0 => 0
  | n + 1 => countBelow P places n + (P (places n)).toNat

variable (P : α → Bool)

theorem countBelow_le (places : Nat → α) : ∀ n : Nat, countBelow P places n ≤ n
  | 0 => Nat.le_refl 0
  | n + 1 => Nat.add_le_add (countBelow_le places n) (Bool.toNat_le _)

theorem countBelow_eq_zero {places : Nat → α} (h : ∀ i, P (places i) = false) :
    ∀ n : Nat, countBelow P places n = 0
  | 0 => rfl
  | n + 1 => by rw [countBelow, countBelow_eq_zero h n, h n, Bool.toNat_false]

/-- A thread from `n` on does not count. -/
theorem countBelow_update_ge (places : Nat → α) {i : Nat} (a : α) : ∀ {n : Nat}, n ≤ i →
    countBelow P (Function.update places i a) n = countBelow P places n
  | 0, _ => rfl
  | n + 1, h => by
      simp only [countBelow]
      rw [countBelow_update_ge places a (by omega), Function.update_of_ne (by omega)]

/-- A step of one thread. -/
theorem countBelow_update (places : Nat → α) {i : Nat} (a : α) : ∀ {n : Nat}, i < n →
    countBelow P (Function.update places i a) n + (P (places i)).toNat =
      countBelow P places n + (P a).toNat
  | 0, h => by omega
  | n + 1, h => by
      simp only [countBelow]
      by_cases hlast : i = n
      · subst hlast
        rw [countBelow_update_ge P places a (Nat.le_refl i), Function.update_self]
        omega
      · have ih := countBelow_update places a (show i < n by omega)
        rw [Function.update_of_ne (fun h => hlast h.symm)]
        omega

end LinSocketIo.Base
