/-
LinSocketIo.Base.Ownership — resources that have one owner each.

`holds o = some r` says that the owner `o` has the resource `r`. `Exclusive
live holds` says that everything that is held is live and that nothing is held
twice. The four lemmas below are the ways in which a program changes who holds
what; each takes the new map as it is and asks only where its entries come
from, so that a step may let go of other resources at the same time.

* `mono` — owners let go, and no live resource ends.
* `acquire` — a resource that was not live gets an owner.
* `transfer` — a resource goes from one owner to another.
* `release` — an owner ends the resource it has.
-/
import Mathlib.Data.Set.Insert

namespace LinSocketIo.Base

variable {α ρ : Type} {live : Set ρ} {holds holds' : α → Option ρ} {a b : α} {r : ρ}

/-- Every resource that is held is live, and has one owner. -/
structure Exclusive (live : Set ρ) (holds : α → Option ρ) : Prop where
  isLive : ∀ {o : α} {r : ρ}, holds o = some r → r ∈ live
  unique : ∀ {o o' : α} {r : ρ}, holds o = some r → holds o' = some r → o = o'

namespace Exclusive

/-- Letting go of resources, while none that is still held ends. -/
theorem mono {live' : Set ρ} (h : Exclusive live holds)
    (hold : ∀ o q, holds' o = some q → holds o = some q)
    (hlive : ∀ o q, holds' o = some q → q ∈ live → q ∈ live') : Exclusive live' holds' where
  isLive := by
    intro o q hq
    exact hlive o q hq (h.isLive (hold o q hq))
  unique := by
    intro o o' q hq hq'
    exact h.unique (hold o q hq) (hold o' q hq')

/-- A resource that was not live gets the owner `b`. -/
theorem acquire (h : Exclusive live holds) (hr : r ∉ live)
    (hnew : ∀ o q, holds' o = some q → (o = b ∧ q = r) ∨ holds o = some q) :
    Exclusive (insert r live) holds' where
  isLive := by
    intro o q hq
    rcases hnew o q hq with ⟨-, rfl⟩ | hq
    · exact Set.mem_insert _ _
    · exact Set.mem_insert_of_mem _ (h.isLive hq)
  unique := by
    intro o o' q hq hq'
    -- an owner in the old map would make the new resource a live one
    rcases hnew o q hq with ⟨ho, rfl⟩ | hq <;> rcases hnew o' q hq' with ⟨ho', hqr⟩ | hq'
    · rw [ho, ho']
    · exact absurd (h.isLive hq') hr
    · exact absurd (h.isLive (hqr ▸ hq)) hr
    · exact h.unique hq hq'

/-- The resource of `a` goes to `b`. -/
theorem transfer (h : Exclusive live holds) (ha : holds a = some r)
    (hmove : ∀ o q, holds' o = some q → (o = b ∧ q = r) ∨ (o ≠ a ∧ holds o = some q)) :
    Exclusive live holds' where
  isLive := by
    intro o q hq
    rcases hmove o q hq with ⟨-, rfl⟩ | ⟨-, hq⟩
    · exact h.isLive ha
    · exact h.isLive hq
  unique := by
    intro o o' q hq hq'
    rcases hmove o q hq with ⟨ho, rfl⟩ | ⟨ho, hq⟩ <;>
      rcases hmove o' q hq' with ⟨ho', hqr⟩ | ⟨ho', hq'⟩
    · rw [ho, ho']
    · exact absurd (h.unique hq' ha) ho'
    · exact absurd (h.unique (hqr ▸ hq) ha) ho
    · exact h.unique hq hq'

/-- The owner `a` ends its resource. -/
theorem release (h : Exclusive live holds) (ha : holds a = some r)
    (hrest : ∀ o q, holds' o = some q → o ≠ a ∧ holds o = some q) :
    Exclusive (live \ {r}) holds' :=
  h.mono (fun o q hq => (hrest o q hq).2) fun o q hq hlive =>
    ⟨hlive, by
      rintro rfl
      exact (hrest o q hq).1 (h.unique (hrest o q hq).2 ha)⟩

end Exclusive

end LinSocketIo.Base
