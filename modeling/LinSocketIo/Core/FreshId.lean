/-
LinSocketIo.Core.FreshId — a manager with room for an id finds one.

Without the test for 0, the seeds of the rounds of `getConnectionId` are an
orbit of `_step`, and the test leaves 0 out of it. So the loop tries every
other value of the orbit, and ends if the table does not hold them all.

* `getConnectionId_finds` — it ends, and the id is new.
-/
import LinSocketIo.Base.Orbit
import LinSocketIo.Core.Manager

namespace LinSocketIo.Core.Manager

open LinSocketIo.Base

/-- `_step` is a `uint32_t`, and not zero. -/
structure Steps (m : Manager) : Prop where
  pos : 1 ≤ m.step
  lt : m.step < 4294967296

variable {m : Manager}

/-- The value `t` rounds on, if 0 is not left out. -/
def ahead (m : Manager) (t : Nat) : Nat := orbit 4294967296 m.step m.seed t

/-- One round goes one step ahead, or two where the first leads to 0. -/
theorem nextSeed_ahead (hm : m.Steps) :
    m.nextSeed ≠ 0 ∧
      (m.nextSeed = m.ahead 1 ∨ (m.ahead 1 = 0 ∧ m.nextSeed = m.ahead 2)) := by
  have hpos := hm.pos
  have hlt := hm.lt
  have hone : m.ahead 1 = (m.seed + m.step) % 4294967296 := by rw [ahead, orbit, Nat.one_mul]
  have htwo : m.ahead 2 = (m.seed + 2 * m.step) % 4294967296 := rfl
  rw [hone, htwo]
  by_cases hzero : toUInt32 (m.seed + m.step) = 0
  · simp only [nextSeed, hzero, if_true, Nat.zero_add]
    unfold toUInt32 at hzero ⊢
    omega
  · simp only [nextSeed, hzero, if_false]
    exact ⟨hzero, Or.inl rfl⟩

/-- If a value ahead is free, the loop ends with a free one. -/
theorem search_of_ahead : ∀ (t : Nat) {rounds : Nat} {m : Manager}, m.Steps → t < rounds →
    m.ahead (t + 1) ∉ 0 :: m.connections →
    ∃ m', search rounds m = some m' ∧ m'.seed ≠ 0 ∧ m'.seed ∉ m.connections := by
  intro t
  induction t using Nat.strongRecOn with
  | ind t ih =>
      intro rounds m hm hrounds hfree
      obtain ⟨rounds, rfl⟩ : ∃ r, rounds = r + 1 := ⟨rounds - 1, by omega⟩
      obtain ⟨hnonzero, hnext⟩ := nextSeed_ahead hm
      simp only [search]
      by_cases hin : m.nextSeed ∈ m.connections
      · rw [if_pos hin]
        -- the value that is free is still ahead
        obtain ⟨u, hu, hsame⟩ : ∃ u < t, ({ m with seed := m.nextSeed } : Manager).ahead (u + 1) =
            m.ahead (t + 1) := by
          rcases hnext with hone | ⟨hzero, htwo⟩
          · match t with
            | 0 => exact absurd (List.mem_cons_of_mem 0 (hone ▸ hin)) hfree
            | u + 1 =>
                refine ⟨u, by omega, ?_⟩
                simp only [hone, ahead, orbit.add_steps]
                congr 1
                omega
          · match t with
            | 0 => exact absurd (List.mem_cons.mpr (Or.inl hzero)) hfree
            | 1 => exact absurd (List.mem_cons_of_mem 0 (htwo ▸ hin)) hfree
            | u + 2 =>
                refine ⟨u, by omega, ?_⟩
                simp only [htwo, ahead, orbit.add_steps]
                congr 1
                omega
        have hm' : ({ m with seed := m.nextSeed } : Manager).Steps := ⟨hm.pos, hm.lt⟩
        exact ih u hu hm' (by omega) (hsame ▸ hfree)
      · rw [if_neg hin]
        exact ⟨_, rfl, hnonzero, hin⟩

/-- **A new id is always found**: whatever the step and the seed, `getConnectionId` ends with an
id that is not 0 and not in the table, if the table has fewer entries than there are values other
than 0 to try. -/
theorem getConnectionId_finds (hm : m.Steps)
    (htable : m.connections.length < 2 ^ 32 / Nat.gcd m.step (2 ^ 32) - 1) :
    ∃ m' id, m.getConnectionId = some (m', id) ∧ id ≠ 0 ∧ id ∉ m.connections := by
  rw [Nat.gcd_comm] at htable
  obtain ⟨t, ht, hfree⟩ := orbit.exists_notMem (m := 2 ^ 32) (s := m.step) (by decide)
    (m.seed + m.step) (l := 0 :: m.connections) (by
      rw [List.length_cons, period]
      omega)
  have hahead : m.ahead (t + 1) ∉ 0 :: m.connections := by
    have hshift : m.ahead (t + 1) = orbit (2 ^ 32) m.step (m.seed + m.step) t := by
      rw [ahead, orbit, orbit, Nat.add_mul, Nat.one_mul]
      congr 1
      omega
    rw [hshift]
    exact hfree
  have hrounds : t < allSeeds := Nat.lt_of_lt_of_le ht (Nat.div_le_self _ _)
  obtain ⟨m', hsearch, hnonzero, hnot⟩ := search_of_ahead t hm hrounds hahead
  exact ⟨m', m'.seed, by rw [getConnectionId, hsearch]; rfl, hnonzero, hnot⟩

/-- The counter wraps: the seed goes to 0, which is left out, and to two ids in use. -/
theorem getConnectionId_finds_wrap :
    ∃ m' id, getConnectionId ⟨0xfffffff0, 16, [16, 32]⟩ = some (m', id) ∧ id ≠ 0 ∧
      id ∉ [16, 32] :=
  getConnectionId_finds (m := ⟨0xfffffff0, 16, [16, 32]⟩) ⟨by decide, by decide⟩ (by decide)

end LinSocketIo.Core.Manager
