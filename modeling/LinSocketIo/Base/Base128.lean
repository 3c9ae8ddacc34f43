/-
LinSocketIo.Base.Base128 — numbers in base 128, and the zigzag coding of
integers.

A number is written with its lowest seven bits first; every byte but the last
has its high bit set. So the end of a number can be told from the bytes
alone, and what follows it does not matter (`decode_encode`). `zigzag` maps
the integers onto the naturals, small absolute values first.
-/
import Mathlib.Algebra.Group.Nat.Defs
import Mathlib.Data.Nat.Init

namespace LinSocketIo.Base.Base128

/-- The bytes of a number, `rounds + 1` of them at most. -/
def encode : Nat → Nat → List UInt8
  | 0, n => [UInt8.ofNat n]
  | rounds + 1, n =>
    if n < 128 then [UInt8.ofNat n]
    else UInt8.ofNat (n % 128 + 128) :: encode rounds (n / 128)

/-- The number that comes first, and how many bytes it has. -/
def decode : List UInt8 → Option (Nat × Nat)
  | [] => none
  | b :: rest =>
    if b.toNat < 128 then some (1, b.toNat)
    else (decode rest).map fun p => (p.1 + 1, p.2 * 128 + (b.toNat - 128))

theorem length_encode (rounds n : Nat) :
    0 < (encode rounds n).length ∧ (encode rounds n).length ≤ rounds + 1 := by
  induction rounds generalizing n with
  | zero => simp [encode]
  | succ rounds ih =>
      unfold encode
      split
      · simp
      · have := ih (n / 128)
        simp only [List.length_cons]
        omega

/-- A number has no more bytes than there are. -/
theorem decode_le : ∀ {bytes : List UInt8} {p : Nat × Nat}, decode bytes = some p →
    p.1 ≤ bytes.length
  | [], _, h => by cases h
  | b :: rest, p, h => by
      rw [decode] at h
      split at h
      · cases h
        exact Nat.succ_le_succ (Nat.zero_le _)
      · obtain ⟨q, hq, rfl⟩ := Option.map_eq_some_iff.mp h
        exact Nat.succ_le_succ (decode_le hq)

/-- A number is read back, whatever follows it. -/
theorem decode_encode : ∀ (rounds n : Nat) (r : List UInt8), n < 128 ^ (rounds + 1) →
    decode (encode rounds n ++ r) = some ((encode rounds n).length, n)
  | 0, n, r, h => by
      have hn : n < 128 := by simpa using h
      have hbyte : (UInt8.ofNat n).toNat = n := UInt8.toNat_ofNat_of_lt' (Nat.lt_trans hn (by decide))
      simp only [encode, List.singleton_append, decode, hbyte, if_pos hn, List.length_singleton]
  | rounds + 1, n, r, h => by
      unfold encode
      split
      · next hn =>
          have hbyte : (UInt8.ofNat n).toNat = n :=
            UInt8.toNat_ofNat_of_lt' (Nat.lt_trans hn (by decide))
          simp only [List.singleton_append, decode, hbyte, if_pos hn, List.length_singleton]
      · next hn =>
          have hlt : n % 128 < 128 := Nat.mod_lt n (by decide)
          have hbyte : (UInt8.ofNat (n % 128 + 128)).toNat = n % 128 + 128 :=
            UInt8.toNat_ofNat_of_lt' (show n % 128 + 128 < 256 by omega)
          have hrest : n / 128 < 128 ^ (rounds + 1) := by
            rw [Nat.div_lt_iff_lt_mul (by decide), ← Nat.pow_succ]
            exact h
          simp only [List.cons_append, decode, hbyte,
            if_neg (show ¬ n % 128 + 128 < 128 by omega), decode_encode rounds (n / 128) r hrest,
            Option.map_some, List.length_cons, Nat.add_sub_cancel, Nat.div_add_mod']

/-- The zigzag coding. -/
def zigzag (i : Int) : Nat := if 0 ≤ i then 2 * i.toNat else 2 * (-i).toNat - 1

/-- The integer that a number codes. -/
def unzigzag (n : Nat) : Int := if n % 2 = 0 then ((n / 2 : Nat) : Int) else -((n / 2 + 1 : Nat) : Int)

theorem unzigzag_zigzag (i : Int) : unzigzag (zigzag i) = i := by
  unfold zigzag unzigzag
  split <;> split <;> omega

theorem zigzag_lt {i m : Int} (hlo : -m ≤ i) (hhi : i < m) : (zigzag i : Int) < 2 * m := by
  unfold zigzag
  split <;> omega

end LinSocketIo.Base.Base128
