/-
LinSocketIo.Base.CInt — the fixed-width integers of the C++ source, as
Mathlib integers with an explicit conversion.

`toInt` is the conversion to the 32-bit `int` and `toUInt32` the one to
`uint32_t`. The source's additions and subtractions are written with the
conversion around them, so that a value that leaves its range shows up as
a different number; `toInt_of_range` and `toUInt32_of_lt` are what a proof
uses where the value stays inside.
-/
import Mathlib.Algebra.Group.Nat.Defs
import Mathlib.Data.Int.Init

namespace LinSocketIo.Base

/-- `size_t(-1)`. -/
def sizeMax : Nat := 2 ^ 64 - 1

/-- The largest `int`. -/
def intMax : Int := 2147483647

/-- Conversion to the 32-bit `int` (two's complement). It is irreducible, so that no
proof computes with its modulus by accident. -/
@[irreducible] def toInt (x : Int) : Int := Int.bmod x 4294967296

/-- Conversion to `uint32_t`. -/
def toUInt32 (x : Nat) : Nat := x % 4294967296

/-- Subtraction of `uint32_t`. -/
def subUInt32 (x y : Nat) : Nat := toUInt32 (x + 4294967296 - y)

/-- Subtraction of `size_t`. -/
def subSize (x y : Nat) : Nat := (x + 2 ^ 64 - y) % 2 ^ 64

theorem toInt_of_range {x : Int} (hlo : -2147483648 ≤ x) (hhi : x ≤ intMax) :
    toInt x = x := by
  unfold intMax at hhi
  unfold toInt
  rw [Int.bmod_def]
  split <;> omega

/-- The `int` of a natural number, by its low 32 bits. -/
theorem toInt_natCast (x : Nat) :
    toInt x = if x % 4294967296 < 2147483648 then ((x % 4294967296 : Nat) : Int)
      else ((x % 4294967296 : Nat) : Int) - 4294967296 := by
  unfold toInt
  rw [Int.bmod_def]
  split <;> split <;> omega

/-- What leaves `int` upwards comes back smaller. -/
theorem toInt_le {x : Int} (h : 0 ≤ x) : toInt x ≤ x := by
  have hmod := Int.emod_lt_of_pos x (show (0 : Int) < 4294967296 by decide)
  unfold toInt
  rw [Int.bmod_def]
  split <;> omega

/-- A difference of which the first part is an `int` already. -/
theorem toInt_toInt_sub (x y : Int) : toInt (toInt x - y) = toInt (x - y) := by
  unfold toInt
  exact Int.bmod_sub_bmod

/-- A sum of which the first part is an `int` already. -/
theorem toInt_toInt_add (x y : Int) : toInt (toInt x + y) = toInt (x + y) := by
  unfold toInt
  exact Int.bmod_add_bmod

/-- A difference of which the second part is an `int` already. -/
theorem toInt_sub_toInt (x y : Int) : toInt (x - toInt y) = toInt (x - y) := by
  unfold toInt
  exact Int.sub_bmod_bmod

theorem toUInt32_of_lt {x : Nat} (h : x < 4294967296) : toUInt32 x = x :=
  Nat.mod_eq_of_lt h

theorem toUInt32_lt (x : Nat) : toUInt32 x < 4294967296 :=
  Nat.mod_lt _ (by decide)

end LinSocketIo.Base
