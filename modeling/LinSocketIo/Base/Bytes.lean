/-
LinSocketIo.Base.Bytes — a region of memory as the list of its bytes.

`load` reads a range and `store` overwrites one, as `memcpy` and `memmove`
do. A proof about a buffer in memory needs how a range splits (`load_add`,
`take_load`, `drop_load`) and what a store leaves (`load_store_same`,
`load_store_before`, `load_store_within`). `store_shift_eq_iff` says when a
store at the wrong place goes unnoticed. `leBytes` and `leNat` go between a
number and its bytes and are inverse to each other.
-/
import Mathlib.Algebra.Group.Nat.Defs
import Mathlib.Data.List.Basic

namespace LinSocketIo.Base

/-- The `n` bytes from `pos` on. -/
def load (mem : List UInt8) (pos n : Nat) : List UInt8 := (mem.drop pos).take n

/-- Overwrite the bytes from `pos` on. -/
def store (mem : List UInt8) (pos : Nat) (bytes : List UInt8) : List UInt8 :=
  mem.take pos ++ bytes ++ mem.drop (pos + bytes.length)

/-- The `n` low bytes of a number, the lowest one first. -/
def leBytes : Nat → Nat → List UInt8
  | 0, _ => []
  | n + 1, v => UInt8.ofNat v :: leBytes n (v / 256)

@[simp] theorem length_leBytes : ∀ n v, (leBytes n v).length = n
  | 0, _ => rfl
  | n + 1, v => by simp [leBytes, length_leBytes n]

/-- The number whose bytes these are, the lowest one first. -/
def leNat : List UInt8 → Nat
  | [] => 0
  | b :: bs => b.toNat + 256 * leNat bs

theorem leNat_lt : ∀ bytes : List UInt8, leNat bytes < 256 ^ bytes.length
  | [] => by simp [leNat]
  | b :: bs => by
      have hb : b.toNat < 256 := b.toNat_lt
      have hbs := leNat_lt bs
      rw [leNat, List.length_cons, Nat.pow_succ]
      omega

/-- The bytes of a number give the number back. -/
theorem leNat_leBytes : ∀ n v, v < 256 ^ n → leNat (leBytes n v) = v
  | 0, v, h => by
      simp only [Nat.pow_zero, Nat.lt_one_iff] at h
      subst h
      rfl
  | n + 1, v, h => by
      have hdiv : v / 256 < 256 ^ n := by
        rw [Nat.pow_succ] at h
        omega
      rw [leBytes, leNat, leNat_leBytes n _ hdiv, UInt8.toNat_ofNat']
      omega

/-- The number of some bytes has these bytes. -/
theorem leBytes_leNat : ∀ bytes : List UInt8, leBytes bytes.length (leNat bytes) = bytes
  | [] => rfl
  | b :: bs => by
      have hb : b.toNat < 256 := b.toNat_lt
      have hlow : UInt8.ofNat (b.toNat + 256 * leNat bs) = b := by
        apply UInt8.toNat_inj.mp
        rw [UInt8.toNat_ofNat']
        omega
      have hhigh : (b.toNat + 256 * leNat bs) / 256 = leNat bs := by omega
      rw [List.length_cons, leNat, leBytes, hlow, hhigh, leBytes_leNat bs]

/-- The low bytes, and the bytes of the rest. -/
theorem leBytes_add (m n v : Nat) :
    leBytes (m + n) v = leBytes m v ++ leBytes n (v / 256 ^ m) := by
  induction m generalizing v with
  | zero => simp [leBytes]
  | succ m ih =>
    rw [Nat.add_right_comm, leBytes, ih, leBytes, Nat.div_div_eq_div_mul, Nat.pow_succ,
      Nat.mul_comm 256, List.cons_append]

/-- Higher bytes do not matter. -/
theorem leBytes_mod (n v : Nat) : leBytes n (v % 256 ^ n) = leBytes n v := by
  induction n generalizing v with
  | zero => rfl
  | succ n ih =>
    have hlow : UInt8.ofNat (v % 256 ^ (n + 1)) = UInt8.ofNat v := by
      apply UInt8.toNat_inj.mp
      rw [UInt8.toNat_ofNat', UInt8.toNat_ofNat', Nat.pow_succ, Nat.mul_comm]
      exact Nat.mod_mul_right_mod v 256 _
    have hhigh : v % 256 ^ (n + 1) / 256 = v / 256 % 256 ^ n := by
      rw [Nat.pow_succ, Nat.mul_comm, Nat.mod_mul_right_div_self]
    rw [leBytes, leBytes, hlow, hhigh, ih]

variable {mem bytes : List UInt8} {pos n : Nat}

theorem length_load (h : pos + n ≤ mem.length) : (load mem pos n).length = n := by
  simp only [load, List.length_take, List.length_drop]
  omega

theorem length_store (h : pos + bytes.length ≤ mem.length) :
    (store mem pos bytes).length = mem.length := by
  simp only [store, List.length_append, List.length_take, List.length_drop]
  omega

/-- A range is its first part and the rest. -/
theorem load_add (mem : List UInt8) (pos m n : Nat) :
    load mem pos (m + n) = load mem pos m ++ load mem (pos + m) n := by
  simp only [load, List.take_add, List.drop_drop]

theorem take_load (m : Nat) (h : m ≤ n) : (load mem pos n).take m = load mem pos m := by
  simp only [load, List.take_take, Nat.min_eq_left h]

theorem drop_load (m : Nat) : (load mem pos n).drop m = load mem (pos + m) (n - m) := by
  simp only [load, List.drop_take, List.drop_drop]

theorem load_store_same (bytes : List UInt8) (h : pos ≤ mem.length) :
    load (store mem pos bytes) pos bytes.length = bytes := by
  have hlen : (mem.take pos).length = pos := by simp [h]
  simp only [load, store, List.append_assoc]
  rw [List.drop_append_of_le_length (by omega), List.drop_of_length_le (by omega)]
  simp

/-- A store does not change what lies before it. -/
theorem load_store_before {p : Nat} (h : p + n ≤ pos) (hpos : pos ≤ mem.length) :
    load (store mem pos bytes) p n = load mem p n := by
  have hlen : (mem.take pos).length = pos := by simp [hpos]
  simp only [load, store, List.append_assoc]
  rw [List.drop_append_of_le_length (by omega),
    List.take_append_of_le_length (by simp only [List.length_drop]; omega),
    List.drop_take, List.take_take, Nat.min_eq_left (by omega)]

/-! ## Stores side by side -/

/-- A store inside a range is a store into what the range holds. -/
theorem load_store_within {p : Nat} (h : pos + bytes.length ≤ n) (hn : p + n ≤ mem.length) :
    load (store mem (p + pos) bytes) p n = store (load mem p n) pos bytes := by
  have htake : (mem.take (p + pos)).length = p + pos := by rw [List.length_take]; omega
  simp only [load, store, List.append_assoc]
  rw [List.drop_append_of_le_length (by omega), List.drop_take, List.take_take,
    List.take_append, List.take_append, List.length_take, List.length_drop, List.drop_take,
    List.drop_drop, List.take_take]
  congr 1
  · congr 1; omega
  · rw [show min (p + pos - p) (mem.length - p) = pos by omega, List.take_of_length_le (by omega)]
    congr 2
    · omega
    · congr 1; omega

/-- A store behind the first part of a list. -/
theorem store_append (front back : List UInt8) :
    store (front ++ back) front.length bytes = front ++ (bytes ++ back.drop bytes.length) := by
  rw [store, List.take_left, List.append_assoc, ← List.drop_drop, List.drop_left]

theorem getElem?_store (h : pos + bytes.length ≤ mem.length) (i : Nat) :
    (store mem pos bytes)[i]? =
      if i < pos then mem[i]? else if i < pos + bytes.length then bytes[i - pos]? else mem[i]? := by
  have htake : (mem.take pos).length = pos := by rw [List.length_take]; omega
  rw [store, List.append_assoc]
  by_cases hlt : i < pos
  · rw [if_pos hlt, List.getElem?_append_left (by omega), List.getElem?_take_of_lt hlt]
  · rw [if_neg hlt, List.getElem?_append_right (by omega), htake]
    by_cases hin : i < pos + bytes.length
    · rw [if_pos hin, List.getElem?_append_left (by omega)]
    · rw [if_neg hin, List.getElem?_append_right (by omega), List.getElem?_drop]
      congr 1
      omega

/-- What `k` bytes of shift do not show: `bytes` begins with what is stored at `pos`, comes
again after every `k` bytes, and ends with what is stored there at the shifted place. -/
def Repeats (mem : List UInt8) (pos k : Nat) (bytes : List UInt8) : Prop :=
  ∀ i < bytes.length, (i < k → mem[pos + i]? = bytes[i]?) ∧ (k ≤ i → bytes[i]? = bytes[i - k]?) ∧
    (bytes.length ≤ i + k → mem[pos + k + i]? = bytes[i]?)

/-- A store that is `k` bytes off does the same only if the bytes repeat so. -/
theorem store_shift_eq_iff {k : Nat} (h : pos + k + bytes.length ≤ mem.length) :
    store mem pos bytes = store mem (pos + k) bytes ↔ Repeats mem pos k bytes := by
  have hfits : pos + bytes.length ≤ mem.length := by omega
  have hshort := getElem?_store hfits
  have hlong := getElem?_store h
  constructor
  · intro heq i hi
    rw [heq] at hshort
    refine ⟨fun hk => ?_, fun hk => ?_, fun hk => ?_⟩
    · have := hshort (pos + i)
      rw [hlong, if_pos (by omega), if_neg (by omega), if_pos (by omega), Nat.add_sub_cancel_left] at this
      exact this
    · have := hshort (pos + i)
      rw [hlong, if_neg (by omega), if_pos (by omega), if_neg (by omega), if_pos (by omega),
        Nat.add_sub_cancel_left] at this
      rw [← this]
      congr 1
      omega
    · have := hshort (pos + k + i)
      rw [hlong, if_neg (by omega), if_pos (by omega), if_neg (by omega), if_neg (by omega),
        Nat.add_sub_cancel_left] at this
      exact this.symm
  · intro hrep
    refine List.ext_getElem? fun j => ?_
    rw [hshort, hlong]
    by_cases hbefore : j < pos
    · rw [if_pos hbefore, if_pos (by omega)]
    rw [if_neg hbefore]
    by_cases hin : j < pos + bytes.length
    · obtain ⟨hfront, hmid, -⟩ := hrep (j - pos) (by omega)
      rw [if_pos hin]
      by_cases hk : j < pos + k
      · rw [if_pos hk, ← hfront (by omega), Nat.add_sub_cancel' (by omega)]
      · rw [if_neg hk, if_pos (by omega), hmid (by omega), Nat.sub_sub]
    · rw [if_neg hin]
      by_cases hk : j < pos + k
      · rw [if_pos hk]
      · rw [if_neg hk]
        by_cases hend : j < pos + k + bytes.length
        · obtain ⟨-, -, hback⟩ := hrep (j - (pos + k)) (by omega)
          rw [if_pos hend, ← hback (by omega), Nat.add_sub_cancel' (by omega)]
        · rw [if_neg hend]

end LinSocketIo.Base
