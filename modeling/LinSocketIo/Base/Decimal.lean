/-
LinSocketIo.Base.Decimal — the decimal text of an integer.

The digits are those of `Nat.toDigits 10`; a `-` stands in front of a negative
number, and no zeros in front of any.

* `canonical_decimal` — the text is canonical, and reads as the number.
* `length_decimal_le_iff` — the numbers with at most so many characters.
-/
import Mathlib.Algebra.Group.Nat.Defs
import Mathlib.Data.Int.Init

namespace LinSocketIo.Base

/-- The sign of a negative number. -/
def signText (i : Int) : List Char := if i < 0 then ['-'] else []

/-- The decimal text of an integer. -/
def decimal (i : Int) : List Char := signText i ++ Nat.toDigits 10 i.natAbs

/-- Reading a decimal text. -/
def parseDecimal (text : List Char) : Int :=
  if text.head? = some '-' then -(Nat.ofDigitChars 10 text.tail 0 : Nat)
  else (Nat.ofDigitChars 10 text 0 : Nat)

/-- Digits behind the sign, at least one, and no zero in front of others. -/
structure CanonicalText (i : Int) (text : List Char) : Prop where
  shape : ∃ digits, text = signText i ++ digits ∧ digits ≠ [] ∧ (∀ c ∈ digits, c.isDigit = true) ∧
    (digits.head? = some '0' → digits = ['0'])
  parses : parseDecimal text = i

theorem toDigits_head_zero (n : Nat) (h : (Nat.toDigits 10 n).head? = some '0') : n = 0 := by
  induction n using Nat.strongRecOn with
  | ind n ih =>
    by_cases hn : n < 10
    · rw [Nat.toDigits_of_lt_base hn] at h
      exact Nat.digitChar_eq_zero.mp (Option.some.inj h)
    · obtain ⟨c, digits, hdigits⟩ := List.exists_cons_of_ne_nil
        (Nat.toDigits_ne_nil (n := n / 10) (b := 10))
      rw [Nat.toDigits_of_base_le (by decide) (by omega), hdigits, List.cons_append,
        List.head?_cons] at h
      have hzero := ih (n / 10) (by omega) (by rw [hdigits, List.head?_cons, h])
      omega

theorem isDigit_of_mem_toDigits {n : Nat} {c : Char} (h : c ∈ Nat.toDigits 10 n) :
    c.isDigit = true := Nat.isDigit_of_mem_toDigits (by decide) (by decide) h

theorem toDigits_head_ne_minus (n : Nat) : (Nat.toDigits 10 n).head? ≠ some '-' := fun h =>
  absurd (isDigit_of_mem_toDigits (List.mem_of_mem_head? h)) (by decide)

theorem parseDecimal_decimal (i : Int) : parseDecimal (decimal i) = i := by
  unfold parseDecimal decimal signText
  by_cases hneg : i < 0
  · rw [if_pos hneg, List.singleton_append, List.head?_cons, if_pos rfl, List.tail_cons,
      Nat.ofDigitChars_toDigits (by decide) (by decide)]
    omega
  · rw [if_neg hneg, List.nil_append, if_neg (toDigits_head_ne_minus _),
      Nat.ofDigitChars_toDigits (by decide) (by decide)]
    omega

/-- The decimal text is canonical. -/
theorem canonical_decimal (i : Int) : CanonicalText i (decimal i) where
  shape := by
    refine ⟨_, rfl, Nat.toDigits_ne_nil, fun c => isDigit_of_mem_toDigits, fun h => ?_⟩
    rw [toDigits_head_zero _ h]
    exact Nat.toDigits_zero 10
  parses := parseDecimal_decimal i

/-- The numbers whose text has at most `k + 1` characters. -/
theorem length_decimal_le_iff {k : Nat} (hk : 0 < k) (i : Int) :
    (decimal i).length ≤ k + 1 ↔ -(10 ^ k : Nat) < i ∧ i < (10 ^ (k + 1) : Nat) := by
  have hpos : 0 < 10 ^ k := Nat.pow_pos (by decide)
  have hpow : 10 ^ (k + 1) = 10 * 10 ^ k := by rw [Nat.pow_succ, Nat.mul_comm]
  have hshort := Nat.length_toDigits_le_iff (b := 10) (n := i.natAbs) (by decide) hk
  have hlong := Nat.length_toDigits_le_iff (b := 10) (n := i.natAbs) (by decide) (Nat.succ_pos k)
  unfold decimal signText
  rw [List.length_append]
  by_cases hneg : i < 0
  · rw [if_pos hneg, List.length_singleton]
    omega
  · rw [if_neg hneg, List.length_nil]
    omega

end LinSocketIo.Base
