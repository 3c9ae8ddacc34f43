/-
LinSocketIo.Base.Orbit — adding a step again and again, modulo `m`.

From any start the sums run through `m / gcd m s` different values before one
comes back (`orbit.injOn`), so a list that is shorter than that misses one of
them (`orbit.exists_notMem`).
-/
import Mathlib.Data.Finset.Card
import Mathlib.Data.Nat.ModEq

namespace LinSocketIo.Base

/-- The value after `t` steps of `s` from `x`. -/
def orbit (m s x t : Nat) : Nat := (x + t * s) % m

/-- The number of values that come before one comes back. -/
def period (m s : Nat) : Nat := m / Nat.gcd m s

namespace orbit

variable {m s : Nat}

/-- The steps from a value that was reached are further steps. -/
theorem add_steps (x t u : Nat) : orbit m s (orbit m s x t) u = orbit m s x (t + u) := by
  unfold orbit
  rw [Nat.mod_add_mod, Nat.add_mul, Nat.add_assoc]

theorem injOn (hm : 0 < m) {x t u : Nat} (ht : t < period m s) (hu : u < period m s)
    (h : orbit m s x t = orbit m s x u) : t = u := by
  have hsum : x + t * s ≡ x + u * s [MOD m] := h
  have hmul : t * s ≡ u * s [MOD m] := Nat.ModEq.add_left_cancel' x hsum
  exact (Nat.ModEq.cancel_right_div_gcd hm hmul).eq_of_lt_of_lt ht hu

/-- A list that is shorter than the period misses one of the values. -/
theorem exists_notMem (hm : 0 < m) (x : Nat) {l : List Nat} (hl : l.length < period m s) :
    ∃ t < period m s, orbit m s x t ∉ l := by
  have hcard : ((Finset.range (period m s)).image (orbit m s x)).card = period m s := by
    rw [Finset.card_image_of_injOn, Finset.card_range]
    intro t ht u hu h
    exact injOn hm (Finset.mem_range.mp ht) (Finset.mem_range.mp hu) h
  have hmore : l.toFinset.card < ((Finset.range (period m s)).image (orbit m s x)).card := by
    rw [hcard]
    exact Nat.lt_of_le_of_lt (List.toFinset_card_le l) hl
  obtain ⟨y, hy, hnot⟩ := Finset.exists_mem_notMem_of_card_lt_card hmore
  obtain ⟨t, ht, rfl⟩ := Finset.mem_image.mp hy
  exact ⟨t, Finset.mem_range.mp ht, fun hin => hnot (List.mem_toFinset.mpr hin)⟩

end orbit

end LinSocketIo.Base
