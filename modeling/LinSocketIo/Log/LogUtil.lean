/-
LinSocketIo.Log.LogUtil — the numbers of `log/src/log_util.cpp` as texts.

The digits come out two at a time from a table, the last ones first, into an
array of their own, and are copied backwards from there.

* `digitLoop_spec` — the digits that the loop is done with.
* `lutItoa_lutUtoa_exact` — every number gets its decimal text.

Modelling notes. A formatter returns the characters that it writes from `to` on,
and its result. `none` says that the loop has not ended after 64 divisions of a
`uint64_t`, or that `buf` was too small.
-/
import LinSocketIo.Base.Decimal

namespace LinSocketIo.Log.LogUtil

open LinSocketIo.Base

/-- `'\0'`. -/
def nul : Char := Char.ofNat 0

/-- `DigitsTable`. -/
def digitsTable : List Char := [
    '0', '0', '0', '1', '0', '2', '0', '3', '0', '4', '0', '5', '0', '6', '0',
    '7', '0', '8', '0', '9', '1', '0', '1', '1', '1', '2', '1', '3', '1', '4',
    '1', '5', '1', '6', '1', '7', '1', '8', '1', '9', '2', '0', '2', '1', '2',
    '2', '2', '3', '2', '4', '2', '5', '2', '6', '2', '7', '2', '8', '2', '9',
    '3', '0', '3', '1', '3', '2', '3', '3', '3', '4', '3', '5', '3', '6', '3',
    '7', '3', '8', '3', '9', '4', '0', '4', '1', '4', '2', '4', '3', '4', '4',
    '4', '5', '4', '6', '4', '7', '4', '8', '4', '9', '5', '0', '5', '1', '5',
    '2', '5', '3', '5', '4', '5', '5', '5', '6', '5', '7', '5', '8', '5', '9',
    '6', '0', '6', '1', '6', '2', '6', '3', '6', '4', '6', '5', '6', '6', '6',
    '7', '6', '8', '6', '9', '7', '0', '7', '1', '7', '2', '7', '3', '7', '4',
    '7', '5', '7', '6', '7', '7', '7', '8', '7', '9', '8', '0', '8', '1', '8',
    '2', '8', '3', '8', '4', '8', '5', '8', '6', '8', '7', '8', '8', '8', '9',
    '9', '0', '9', '1', '9', '2', '9', '3', '9', '4', '9', '5', '9', '6', '9',
    '7', '9', '8', '9', '9']

/-- `DigitsTable[idx]`. -/
def tableAt (idx : Nat) : Char := digitsTable.getD idx nul

/-- The two digits of a number below 100, the last one first. -/
def pushTwo (buf : List Char) (number : UInt64) : List Char :=
  let idx := (number <<< 1).toNat
  buf ++ [tableAt (idx + 1), tableAt idx]

/-- The loop of `lut_utoa`; what is left of the divisions. -/
def digitLoop : Nat → UInt64 → List Char → Option (UInt64 × List Char)
  | 0, _, _ => none
  | fuel + 1, number, buf =>
    if number ≥ 100 then digitLoop fuel (number / 100) (pushTwo buf (number % 100))
    else some (number, buf)

/-- The copy out of `buf`; `p` is the position in it. -/
def copyLoop (buf : List Char) : Nat → List Char → Option (List Char)
  | 0, _ => none
  | p + 1, out =>
    let out := out ++ [buf.getD p nul]
    if p = 0 then some out else copyLoop buf p out

/-- `lut_utoa`. -/
def lutUtoa (number : UInt64) : Option (List Char × Nat) :=
  (digitLoop 64 number []).bind fun r =>
    let buf :=
      if r.1 < 10 then r.2 ++ [Char.ofNat (r.1.toNat + '0'.toNat)] else pushTwo r.2 r.1
    if buf.length ≤ 24 then (copyLoop buf buf.length []).map fun out => (out ++ [nul], buf.length)
    else none

/-- `lut_itoa`. -/
def lutItoa (number : Int64) : Option (List Char × Nat) :=
  let n := number.toUInt64
  if number < 0 then (lutUtoa (~~~n + 1)).map fun r => ('-' :: r.1, r.2 + 1) else lutUtoa n

/-- `u16toa`. -/
def u16toa (number : UInt16) : Option (List Char × Nat) := lutUtoa number.toUInt64

/-- `u32toa`. -/
def u32toa (number : UInt32) : Option (List Char × Nat) := lutUtoa number.toUInt64

/-- `u64toa`. -/
def u64toa (number : UInt64) : Option (List Char × Nat) := lutUtoa number

/-- `i16toa`. -/
def i16toa (number : Int16) : Option (List Char × Nat) := lutItoa number.toInt64

/-- `i32toa`. -/
def i32toa (number : Int32) : Option (List Char × Nat) := lutItoa number.toInt64

/-- `i64toa`. -/
def i64toa (number : Int64) : Option (List Char × Nat) := lutItoa number

/-! ## The digits -/

theorem tableAt_eq {n : Nat} (h : n < 100) :
    tableAt (2 * n) = Nat.digitChar (n / 10) ∧ tableAt (2 * n + 1) = Nat.digitChar (n % 10) := by
  have hall : ∀ m : Fin 100, tableAt (2 * m.val) = Nat.digitChar (m.val / 10) ∧
      tableAt (2 * m.val + 1) = Nat.digitChar (m.val % 10) := by decide +kernel
  exact hall ⟨n, h⟩

theorem pushTwo_eq (buf : List Char) {number : UInt64} (h : number.toNat < 100) :
    pushTwo buf number =
      buf ++ [Nat.digitChar (number.toNat % 10), Nat.digitChar (number.toNat / 10)] := by
  have hidx : (number <<< 1).toNat = 2 * number.toNat := by
    rw [UInt64.toNat_shiftLeft]
    show number.toNat <<< 1 % 2 ^ 64 = _
    rw [Nat.shiftLeft_eq, Nat.mod_eq_of_lt (by omega)]
    omega
  obtain ⟨h1, h2⟩ := tableAt_eq h
  simp only [pushTwo, hidx, h1, h2]

/-- The digits of a number, the last two apart. -/
theorem toDigits_hundred {n : Nat} (h : 100 ≤ n) : Nat.toDigits 10 n =
    Nat.toDigits 10 (n / 100) ++ [Nat.digitChar (n % 100 / 10), Nat.digitChar (n % 100 % 10)] := by
  have hdiv : n / 10 / 10 = n / 100 := by omega
  have htens : n / 10 % 10 = n % 100 / 10 := by omega
  have hones : n % 10 = n % 100 % 10 := by omega
  rw [Nat.toDigits_of_base_le (by decide) (by omega),
    Nat.toDigits_of_base_le (by decide) (by omega : 10 ≤ n / 10), hdiv, htens, hones,
    List.append_assoc]
  rfl

/-- The loop ends with a number below 100. -/
theorem digitLoop_small (fuel : Nat) {number : UInt64} (h : number.toNat < 100) (buf : List Char) :
    digitLoop (fuel + 1) number buf = some (number, buf) := by
  have hstop : ¬ number ≥ 100 := Nat.not_le.mpr h
  rw [digitLoop, if_neg hstop]

/-- Its digits and those in `buf`, backwards, are the digits of the number. -/
theorem digitLoop_spec (fuel : Nat) (number : UInt64) (buf : List Char)
    (h : number.toNat < 100 ^ (fuel + 1)) : ∃ rest digits,
      digitLoop (fuel + 1) number buf = some (rest, buf ++ digits) ∧ rest.toNat < 100 ∧
      Nat.toDigits 10 number.toNat = Nat.toDigits 10 rest.toNat ++ digits.reverse := by
  induction fuel generalizing number buf with
  | zero => exact ⟨number, [], by rw [digitLoop_small 0 h, List.append_nil], h, by simp⟩
  | succ fuel ih =>
      by_cases hsmall : number.toNat < 100
      · refine ⟨number, [], ?_, hsmall, by simp⟩
        rw [digitLoop_small (fuel + 1) hsmall, List.append_nil]
      · have hgoes : number ≥ 100 := Nat.not_lt.mp hsmall
        have hdiv : (number / 100).toNat = number.toNat / 100 := UInt64.toNat_div ..
        have hmod : (number % 100).toNat = number.toNat % 100 := UInt64.toNat_mod ..
        have hpow : 100 ^ (fuel + 1 + 1) = 100 ^ (fuel + 1) * 100 := Nat.pow_succ ..
        obtain ⟨rest, digits, hloop, hrest, htext⟩ := ih (number / 100)
          (pushTwo buf (number % 100)) (by rw [hdiv]; omega)
        rw [digitLoop, if_pos hgoes, hloop, pushTwo_eq buf (by omega), hmod]
        refine ⟨rest, _, by rw [List.append_assoc], hrest, ?_⟩
        rw [toDigits_hundred (Nat.not_lt.mp hsmall), ← hdiv, htext]
        simp

/-- The copy is the part of `buf` before the position, backwards. -/
theorem copyLoop_eq (buf : List Char) (p : Nat) (out : List Char) (h : p + 1 ≤ buf.length) :
    copyLoop buf (p + 1) out = some (out ++ (buf.take (p + 1)).reverse) := by
  induction p generalizing out with
  | zero =>
      obtain ⟨c, buf, rfl⟩ := List.exists_cons_of_ne_nil (List.ne_nil_of_length_pos h)
      simp [copyLoop]
  | succ p ih =>
      have hlast : buf.take (p + 2) = buf.take (p + 1) ++ [buf.getD (p + 1) nul] := by
        rw [List.take_add_one, List.getD_eq_getElem?_getD, List.getElem?_eq_getElem (by omega)]
        rfl
      rw [copyLoop]
      simp only [Nat.succ_ne_zero, if_false]
      rw [ih _ (by omega), hlast, List.reverse_append, List.append_assoc]
      rfl

/-- `lut_utoa` writes the digits of the number and NUL. -/
theorem lutUtoa_eq (number : UInt64) : lutUtoa number =
    some (Nat.toDigits 10 number.toNat ++ [nul], (Nat.toDigits 10 number.toNat).length) := by
  have hlt : number.toNat < 2 ^ 64 := number.toNat_lt
  obtain ⟨rest, digits, hloop, hrest, htext⟩ := digitLoop_spec 63 number [] (by omega)
  have hbuf : (if rest < 10 then digits ++ [Char.ofNat (rest.toNat + '0'.toNat)]
      else pushTwo digits rest) = (Nat.toDigits 10 number.toNat).reverse := by
    rw [htext, List.reverse_append, List.reverse_reverse]
    by_cases hsmall : rest < 10
    · have hnat : rest.toNat < 10 := hsmall
      have hchar : Char.ofNat (rest.toNat + '0'.toNat) = Nat.digitChar rest.toNat := by
        have hall : ∀ d : Fin 10, Char.ofNat (d.val + '0'.toNat) = Nat.digitChar d.val := by decide
        exact hall ⟨_, hnat⟩
      rw [if_pos hsmall, Nat.toDigits_of_lt_base hnat, hchar]
      rfl
    · have hnat : 10 ≤ rest.toNat := Nat.not_lt.mp hsmall
      rw [if_neg hsmall, pushTwo_eq _ hrest, Nat.toDigits_of_base_le (by decide) hnat,
        Nat.toDigits_of_lt_base (show rest.toNat / 10 < 10 by omega)]
      rfl
  have hlen : (Nat.toDigits 10 number.toNat).length ≤ 20 :=
    (Nat.length_toDigits_le_iff (by decide) (by decide)).mpr (by omega)
  obtain ⟨p, hp⟩ : ∃ p, (Nat.toDigits 10 number.toNat).length = p + 1 :=
    ⟨_, (Nat.succ_pred_eq_of_pos Nat.length_toDigits_pos).symm⟩
  have hrev : (Nat.toDigits 10 number.toNat).reverse.length = p + 1 := by
    rw [List.length_reverse, hp]
  have hcopy := copyLoop_eq (Nat.toDigits 10 number.toNat).reverse p [] (Nat.le_of_eq hrev.symm)
  rw [List.nil_append, List.take_of_length_le (Nat.le_of_eq hrev), List.reverse_reverse] at hcopy
  unfold lutUtoa
  rw [hloop, Option.bind_some]
  simp only [List.nil_append, hbuf, List.length_reverse]
  rw [if_pos (by omega), hp, hcopy, Option.map_some]

/-! ## The sign -/

/-- The absolute value of an `int64_t`, as `lut_itoa` computes it. -/
theorem toNat_natAbs (number : Int64) :
    (if number < 0 then ~~~number.toUInt64 + 1 else number.toUInt64).toNat =
      number.toInt.natAbs := by
  have hneg : number < 0 ↔ number.toInt < 0 := Int64.lt_iff_toInt_lt
  have hnat : number.toUInt64.toNat < 2 ^ 64 := number.toUInt64.toNat_lt
  have hint : number.toInt = if 2 * number.toUInt64.toNat < 2 ^ 64 then
      (number.toUInt64.toNat : Int) else (number.toUInt64.toNat : Int) - (2 ^ 64 : Nat) :=
    BitVec.toInt_eq_toNat_cond number.toBitVec
  by_cases h : number < 0
  · have hlt := hneg.mp h
    rw [if_pos h, UInt64.toNat_add, UInt64.toNat_not]
    split at hint
    · omega
    · simp only [UInt64.size, UInt64.toNat_one]
      omega
  · have hge := mt hneg.mpr h
    rw [if_neg h]
    split at hint <;> omega

/-- `lut_itoa` writes the decimal text of the number and NUL. -/
theorem lutItoa_eq (number : Int64) : lutItoa number =
    some (decimal number.toInt ++ [nul], (decimal number.toInt).length) := by
  have habs := toNat_natAbs number
  have hneg : number < 0 ↔ number.toInt < 0 := Int64.lt_iff_toInt_lt
  unfold lutItoa decimal signText
  by_cases h : number < 0
  · rw [if_pos h] at habs
    simp only [if_pos h, if_pos (hneg.mp h), lutUtoa_eq, habs, Option.map_some]
    rfl
  · rw [if_neg h] at habs
    simp only [if_neg h, if_neg (mt hneg.mpr h), lutUtoa_eq, habs, List.nil_append]

theorem decimal_natCast (n : Nat) : decimal n = Nat.toDigits 10 n := by
  rw [decimal, signText, if_neg (by omega), Int.natAbs_natCast, List.nil_append]

/-- Every number gets its decimal text and NUL, and its length is returned, which is at most
20. -/
theorem lutItoa_lutUtoa_exact :
    (∀ number : Int64, ∃ text, lutItoa number = some (text ++ [nul], text.length) ∧
      CanonicalText number.toInt text ∧ text.length ≤ 20) ∧
    ∀ number : UInt64, ∃ text, lutUtoa number = some (text ++ [nul], text.length) ∧
      CanonicalText number.toNat text ∧ text.length ≤ 20 := by
  refine ⟨fun number => ⟨_, lutItoa_eq number, canonical_decimal _, ?_⟩, fun number =>
    ⟨decimal number.toNat, ?_, canonical_decimal _, ?_⟩⟩
  · have hlo := number.le_toInt
    have hhi := number.toInt_lt
    exact (length_decimal_le_iff (k := 19) (by decide) _).mpr ⟨by omega, by omega⟩
  · rw [decimal_natCast]
    exact lutUtoa_eq number
  · have hlt := number.toNat_lt
    exact (length_decimal_le_iff (k := 19) (by decide) _).mpr ⟨by omega, by omega⟩

end LinSocketIo.Log.LogUtil
