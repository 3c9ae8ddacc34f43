/-
LinSocketIo.Base.Holders — how many of the live pointers hold an object.

`holders live ptr o` counts the live pointers to `o`. The three ways in which
pointers change each have an equation for it.

* `holders_insert` — a pointer begins to live.
* `holders_erase` — a pointer ends.
* `holders_update` — a live pointer gets another value.
-/
import Mathlib.Data.Finset.Card

namespace LinSocketIo.Base

variable {V O : Type} [DecidableEq V] [DecidableEq O]

/-- The number of live pointers to `o`. -/
def holders (live : Finset V) (ptr : V → Option O) (o : O) : Nat :=
  (live.filter fun v => ptr v = some o).card

/-- One, where the value is a pointer to `o`. -/
def held (p : Option O) (o : O) : Nat := if p = some o then 1 else 0

variable {live : Finset V} {ptr ptr' : V → Option O} {v : V} {p : Option O} {o : O}

@[simp] theorem held_none (o : O) : held none o = 0 := rfl

@[simp] theorem held_some_self (o : O) : held (some o) o = 1 := if_pos rfl

theorem held_eq_one : held p o = 1 ↔ p = some o := by
  unfold held
  split <;> simp_all

theorem held_eq_zero : held p o = 0 ↔ p ≠ some o := by
  unfold held
  split <;> simp_all

omit [DecidableEq V] in
theorem holders_congr (h : ∀ v ∈ live, ptr v = ptr' v) :
    holders live ptr o = holders live ptr' o :=
  congrArg Finset.card (Finset.filter_congr fun v hv => by rw [h v hv])

omit [DecidableEq V] in
theorem holders_pos (hv : v ∈ live) (hp : ptr v = some o) : 0 < holders live ptr o :=
  Finset.card_pos.mpr ⟨v, Finset.mem_filter.mpr ⟨hv, hp⟩⟩

omit [DecidableEq V] in
theorem ne_of_holders_eq_zero (h : holders live ptr o = 0) (hv : v ∈ live) : ptr v ≠ some o :=
  fun hp => absurd h (Nat.ne_of_gt (holders_pos hv hp))

theorem holders_erase (hv : v ∈ live) :
    holders live ptr o = holders (live.erase v) ptr o + held (ptr v) o := by
  unfold holders held
  rw [← Finset.insert_erase hv, Finset.filter_insert, Finset.erase_insert_eq_erase,
    Finset.erase_idem]
  split
  · rw [Finset.card_insert_of_notMem (by simp)]
  · rfl

theorem holders_insert (hv : v ∉ live) (p : Option O) (o : O) :
    holders (insert v live) (Function.update ptr v p) o = holders live ptr o + held p o := by
  rw [holders_erase (Finset.mem_insert_self v live), Finset.erase_insert hv, Function.update_self]
  congr 1
  refine holders_congr fun w hw => Function.update_of_ne ?_ _ _
  rintro rfl
  exact hv hw

theorem holders_update (hv : v ∈ live) (p : Option O) (o : O) :
    holders live (Function.update ptr v p) o + held (ptr v) o =
      holders live ptr o + held p o := by
  have hrest : holders (live.erase v) (Function.update ptr v p) o = holders (live.erase v) ptr o :=
    holders_congr fun w hw => Function.update_of_ne (Finset.ne_of_mem_erase hw) _ _
  have hold : holders live ptr o = holders (live.erase v) ptr o + held (ptr v) o :=
    holders_erase hv
  rw [holders_erase hv, hrest, hold, Function.update_self]
  omega

/-- Pointers to nothing begin to live. -/
theorem holders_union {new : Finset V} (hnew : ∀ v ∈ new, ptr v = none) :
    holders (live ∪ new) ptr o = holders live ptr o := by
  unfold holders
  rw [Finset.filter_union, Finset.filter_false_of_mem (s := new) fun v hv => by simp [hnew v hv],
    Finset.union_empty]

end LinSocketIo.Base
