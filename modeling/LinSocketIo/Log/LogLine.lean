/-
LinSocketIo.Log.LogLine — the overloads of `LogLine::operator<<` in
`log/src/logger.cpp` that format a number in an array of their own.

The arrays of the integers have room for any value of their type. Those of the
pointers are as large as that of an `int`, and get a `long long`.

* `operatorShl_appends` — what is appended to the log.
* `fits_iff` — the arguments whose text fits the array.
-/
import LinSocketIo.Log.LogUtil

namespace LinSocketIo.Log.LogLine

open LinSocketIo.Base LogUtil

/-- The argument of an overload. A pointer is its address. -/
inductive Arg where
  | short (arg : Int16)
  | unsignedShort (arg : UInt16)
  | int (arg : Int32)
  | unsignedInt (arg : UInt32)
  | long (arg : Int64)
  | unsignedLong (arg : UInt64)
  | longLong (arg : Int64)
  | unsignedLongLong (arg : UInt64)
  | pointer (arg : UInt64)
  | constPointer (arg : UInt64)

/-- What an overload does with its array: the size of `tmp`, and what the formatter writes into it
and returns. -/
structure Formatted where
  tmp : Nat
  result : Option (List Char × Nat)

/-- `LogLine::operator<<`, up to `append`. -/
def operatorShl : Arg → Formatted
  | .short arg => ⟨8, i16toa arg⟩
  | .unsignedShort arg => ⟨8, u16toa arg⟩
  | .int arg => ⟨12, i32toa arg⟩
  | .unsignedInt arg => ⟨12, u32toa arg⟩
  | .long arg => ⟨24, i64toa arg⟩
  | .unsignedLong arg => ⟨24, u64toa arg⟩
  | .longLong arg => ⟨24, i64toa arg⟩
  | .unsignedLongLong arg => ⟨24, u64toa arg⟩
  | .pointer arg => ⟨12, i64toa arg.toInt64⟩
  | .constPointer arg => ⟨12, i64toa arg.toInt64⟩

/-- `append(tmp, len)`. -/
def Formatted.appended (f : Formatted) : Option (List Char) := f.result.map fun r => r.1.take r.2

/-- What is written, the NUL included, fits the array. -/
def Formatted.Fits (f : Formatted) : Prop :=
  ∃ written len, f.result = some (written, len) ∧ written.length ≤ f.tmp

/-- The number that is formatted. -/
def Arg.value : Arg → Int
  | .short arg => arg.toInt
  | .unsignedShort arg => arg.toNat
  | .int arg => arg.toInt
  | .unsignedInt arg => arg.toNat
  | .long arg | .longLong arg => arg.toInt
  | .unsignedLong arg | .unsignedLongLong arg => arg.toNat
  | .pointer arg | .constPointer arg => arg.toInt64.toInt

/-- The size of `tmp`. -/
def Arg.tmp (arg : Arg) : Nat := (operatorShl arg).tmp

theorem operatorShl_result (arg : Arg) : (operatorShl arg).result =
    some (decimal arg.value ++ [nul], (decimal arg.value).length) := by
  have hunsigned (number : UInt64) : lutUtoa number =
      some (decimal number.toNat ++ [nul], (decimal number.toNat).length) := by
    rw [decimal_natCast]
    exact lutUtoa_eq number
  cases arg with
  | short arg => exact (lutItoa_eq arg.toInt64).trans (by rw [Int16.toInt_toInt64]; rfl)
  | int arg => exact (lutItoa_eq arg.toInt64).trans (by rw [Int32.toInt_toInt64]; rfl)
  | unsignedShort arg => exact (hunsigned arg.toUInt64).trans (by rw [UInt16.toNat_toUInt64]; rfl)
  | unsignedInt arg => exact (hunsigned arg.toUInt64).trans (by rw [UInt32.toNat_toUInt64]; rfl)
  | long arg => exact lutItoa_eq arg
  | longLong arg => exact lutItoa_eq arg
  | unsignedLong arg => exact hunsigned arg
  | unsignedLongLong arg => exact hunsigned arg
  | pointer arg => exact lutItoa_eq arg.toInt64
  | constPointer arg => exact lutItoa_eq arg.toInt64

/-- The log gets the decimal text of the number. -/
theorem operatorShl_appends (arg : Arg) :
    (operatorShl arg).appended = some (decimal arg.value) := by
  rw [Formatted.appended, operatorShl_result, Option.map_some, List.take_left]

/-- The array has room for the text and the NUL just where the number has so many digits. -/
theorem fits_iff_value {arg : Arg} {k : Nat} (hk : 0 < k) (htmp : arg.tmp = k + 2) :
    (operatorShl arg).Fits ↔ -(10 ^ k : Nat) < arg.value ∧ arg.value < (10 ^ (k + 1) : Nat) := by
  have hlen : (decimal arg.value ++ [nul]).length ≤ (operatorShl arg).tmp ↔
      (decimal arg.value).length ≤ k + 1 := by
    rw [List.length_append, List.length_singleton]
    unfold Arg.tmp at htmp
    omega
  rw [← length_decimal_le_iff hk, ← hlen]
  constructor
  · rintro ⟨written, len, hresult, hfits⟩
    rw [operatorShl_result] at hresult
    injection hresult with hresult
    injection hresult with hwritten
    exact hwritten ▸ hfits
  · exact fun h => ⟨_, _, operatorShl_result arg, h⟩

/-- A pointer whose address, read as a `long long`, has few digits. -/
def Arg.Short : Arg → Prop
  | .pointer arg | .constPointer arg =>
    -10000000000 < arg.toInt64.toInt ∧ arg.toInt64.toInt < 100000000000
  | _ => True

/-- The text and its NUL fit `tmp` for every integer, and for a pointer just where its address
is short. -/
theorem fits_iff (arg : Arg) : (operatorShl arg).Fits ↔ arg.Short := by
  cases arg with
  | short arg =>
      have hlo := arg.le_toInt
      have hhi := arg.toInt_lt
      refine (fits_iff_value (k := 6) (by decide) rfl).trans (iff_true_intro ⟨?_, ?_⟩) <;>
        simp only [Arg.value] <;> omega
  | unsignedShort arg =>
      have hhi := arg.toNat_lt
      refine (fits_iff_value (k := 6) (by decide) rfl).trans (iff_true_intro ⟨?_, ?_⟩) <;>
        simp only [Arg.value] <;> omega
  | int arg =>
      have hlo := arg.le_toInt
      have hhi := arg.toInt_lt
      refine (fits_iff_value (k := 10) (by decide) rfl).trans (iff_true_intro ⟨?_, ?_⟩) <;>
        simp only [Arg.value] <;> omega
  | unsignedInt arg =>
      have hhi := arg.toNat_lt
      refine (fits_iff_value (k := 10) (by decide) rfl).trans (iff_true_intro ⟨?_, ?_⟩) <;>
        simp only [Arg.value] <;> omega
  | long arg | longLong arg =>
      have hlo := arg.le_toInt
      have hhi := arg.toInt_lt
      refine (fits_iff_value (k := 22) (by decide) rfl).trans (iff_true_intro ⟨?_, ?_⟩) <;>
        simp only [Arg.value] <;> omega
  | unsignedLong arg | unsignedLongLong arg =>
      have hhi := arg.toNat_lt
      refine (fits_iff_value (k := 22) (by decide) rfl).trans (iff_true_intro ⟨?_, ?_⟩) <;>
        simp only [Arg.value] <;> omega
  | pointer arg | constPointer arg => exact fits_iff_value (k := 10) (by decide) rfl

/-- The address `0x7ffe00000000` has fifteen digits. -/
theorem stack_pointer_overflows : ¬ (operatorShl (.pointer 0x7ffe00000000)).Fits := by
  have hresult : (operatorShl (.pointer 0x7ffe00000000)).result =
      some ("140728898420736".toList ++ [nul], 15) := by decide +kernel
  rintro ⟨written, len, h, hfits⟩
  rw [hresult] at h
  injection h with h
  injection h with hwritten
  rw [← hwritten] at hfits
  exact absurd hfits (by decide)

end LinSocketIo.Log.LogLine
