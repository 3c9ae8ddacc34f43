/-
LinSocketIo.Utils.UrlCodec — `EncodeURL` and `DecodeURL` of `utils/url_parser.h`.

`EncodeURL` leaves letters, digits and a few marks alone, and NUL as well, for
which `strchr` finds the end of its string; every other byte becomes a `%` with
two digits. `DecodeURL` takes two bytes behind every `%`, whatever they are and
wherever the string ends.

* `decodeURL_encodeURL` — what is escaped comes back.
* `reads_inside_iff` — the strings of which `DecodeURL` reads nothing behind the
  end.

Modelling notes. A string is its bytes; at its size it reads as NUL, and `beyond`
is what the memory behind that holds. The index is a `uint32_t`. A loop gets more
turns than the string has bytes, and `none` says that they were too few.
`DecodeURL` returns the indexes that it used as well.
-/
import LinSocketIo.Base.CInt
import LinSocketIo.Utils.StringHelper

namespace LinSocketIo.Utils.Url

open LinSocketIo.Base StrHelper

/-- The byte of a character. -/
def byte (c : Char) : UInt8 := UInt8.ofNat c.toNat

/-- The bytes of a literal. -/
def bytes (s : String) : Str := s.toList.map byte

/-! ## `EncodeURL` -/

/-- `CharToHex`. -/
def charToHex (x : UInt8) : UInt8 := if x > 9 then x + 55 else x + 48

/-- `IsAlphaNumberChar`. -/
def isAlphaNumberChar (c : UInt8) : Bool :=
  byte 'a' ≤ c && c ≤ byte 'z' || byte 'A' ≤ c && c ≤ byte 'Z' || byte '0' ≤ c && c ≤ byte '9'

/-- `strchr` finds a byte, the end of the string for NUL. -/
def strchr (s : Str) (ch : UInt8) : Bool := ch ∈ s || ch = 0

/-- What `EncodeURL` puts out for a byte. -/
def encodeChar (ch : UInt8) : Str :=
  if ch = byte ' ' then bytes "%20"
  else if isAlphaNumberChar ch || strchr (bytes "-_.!~*'()") ch then [ch]
  else [byte '%', charToHex (ch >>> 4), charToHex (ch % 16)]

/-- The loop of `EncodeURL`. -/
def encodeLoop (src : Str) : Nat → Nat → Str → Option Str
  | 0, _, _ => none
  | fuel + 1, i, dst =>
    if h : i < src.length then encodeLoop src fuel (toUInt32 (i + 1)) (dst ++ encodeChar src[i])
    else some dst

/-- `EncodeURL`. -/
def encodeURL (src : Str) : Option Str := encodeLoop src (src.length + 1) 0 []

/-! ## `DecodeURL` -/

/-- What `src[i]` reads. -/
def readAt (src : Str) (beyond : Nat → UInt8) (i : Nat) : UInt8 :=
  if h : i < src.length then src[i] else if i = src.length then 0 else beyond i

/-- The value of a digit, in `char`. -/
def digit (c : UInt8) : Int8 :=
  let p := c.toInt8
  p - 48 - (if p ≥ 65 then 7 else 0) - (if p ≥ 97 then 32 else 0)

/-- The byte of two digits. -/
def unhex (a b : UInt8) : UInt8 := (digit a * 16 + digit b).toUInt8

/-- The loop of `DecodeURL`, with the indexes that it used. -/
def decodeLoop (src : Str) (beyond : Nat → UInt8) :
    Nat → Nat → Str → List Nat → Option (Str × List Nat)
  | 0, _, _, _ => none
  | fuel + 1, i, dst, used =>
    if i < src.length then
      let c := readAt src beyond i
      if c ≠ byte '%' then decodeLoop src beyond fuel (toUInt32 (i + 1)) (dst ++ [c]) (used ++ [i])
      else
        let j := toUInt32 (i + 1)
        let k := toUInt32 (j + 1)
        decodeLoop src beyond fuel (toUInt32 (k + 1))
          (dst ++ [unhex (readAt src beyond j) (readAt src beyond k)]) (used ++ [i, j, k])
    else some (dst, used)

/-- `DecodeURL`. -/
def decodeURL (beyond : Nat → UInt8) (src : Str) : Option (Str × List Nat) :=
  decodeLoop src beyond (src.length + 1) 0 [] []

/-! ## The loop of `EncodeURL` -/

/-- The escaped form of a string. -/
def escaped (s : Str) : Str := s.flatMap encodeChar

theorem encodeChar_ne_nil (ch : UInt8) : encodeChar ch ≠ [] := by
  unfold encodeChar
  split
  · decide
  · split <;> exact List.cons_ne_nil _ _

theorem length_le_escaped (s : Str) : s.length ≤ (escaped s).length := by
  induction s with
  | nil => exact Nat.le_refl _
  | cons ch s ih =>
      have hpos := List.length_pos_iff.mpr (encodeChar_ne_nil ch)
      rw [escaped, List.flatMap_cons, List.length_append, List.length_cons]
      unfold escaped at ih
      omega

theorem encodeLoop_eq (rest : Str) : ∀ (front dst : Str) (fuel : Nat),
    (front ++ rest).length < 4294967296 → rest.length < fuel →
    encodeLoop (front ++ rest) fuel front.length dst = some (dst ++ escaped rest) := by
  induction rest with
  | nil =>
      intro front dst fuel _ hfuel
      obtain ⟨n, rfl⟩ : ∃ n, fuel = n + 1 := ⟨fuel - 1, by omega⟩
      simp [encodeLoop, escaped]
  | cons ch rest ih =>
      intro front dst fuel hlen hfuel
      rw [List.length_cons] at hfuel
      obtain ⟨n, rfl⟩ : ∃ n, fuel = n + 1 := ⟨fuel - 1, by omega⟩
      rw [List.length_append, List.length_cons] at hlen
      have hlt : front.length < (front ++ ch :: rest).length := by
        rw [List.length_append, List.length_cons]
        omega
      have hnext : toUInt32 (front.length + 1) = (front ++ [ch]).length := by
        rw [toUInt32_of_lt (by omega), List.length_append, List.length_singleton]
      have hch : (front ++ ch :: rest)[front.length] = ch := by simp
      have hfront : front ++ ch :: rest = front ++ [ch] ++ rest := by
        rw [List.append_assoc, List.singleton_append]
      have hlen' : (front ++ [ch] ++ rest).length < 4294967296 := by
        simp only [List.length_append, List.length_singleton]
        omega
      rw [encodeLoop, dif_pos hlt, hch, hnext, hfront,
        ih (front ++ [ch]) _ n hlen' (by omega), escaped, escaped, List.flatMap_cons,
        List.append_assoc]

/-- `EncodeURL` returns the escaped form. -/
theorem encodeURL_eq {s : Str} (h : s.length < 4294967296) : encodeURL s = some (escaped s) :=
  encodeLoop_eq s [] [] (s.length + 1) h (Nat.lt_succ_self _)

/-- A string that the index does not reach the end of. -/
theorem encodeLoop_eq_none {src : Str} (h : 4294967296 ≤ src.length) (fuel : Nat) :
    ∀ (i : Nat) (dst : Str), i < 4294967296 → encodeLoop src fuel i dst = none := by
  induction fuel with
  | zero =>
      intro i dst _
      rfl
  | succ fuel ih =>
      intro i dst hi
      rw [encodeLoop, dif_pos (Nat.lt_of_lt_of_le hi h)]
      exact ih _ _ (toUInt32_lt _)

/-- What `EncodeURL` returns is the escaped form. -/
theorem eq_escaped {s url : Str} (h : encodeURL s = some url) : url = escaped s := by
  by_cases hlen : s.length < 4294967296
  · exact Option.some.inj (h.symm.trans (encodeURL_eq hlen))
  · have hnone := encodeLoop_eq_none (Nat.not_lt.mp hlen) (s.length + 1) 0 [] (by decide)
    exact absurd (h.symm.trans hnone) (Option.some_ne_none _)

/-! ## The loop of `DecodeURL` -/

variable {beyond : Nat → UInt8}

theorem readAt_append (beyond : Nat → UInt8) (front : Str) (c : UInt8) (rest : Str) :
    readAt (front ++ c :: rest) beyond front.length = c := by
  unfold readAt
  rw [dif_pos (by rw [List.length_append, List.length_cons]; omega)]
  simp

/-- A turn for a byte that stands for itself. -/
theorem decodeLoop_char {c : UInt8} (hc : c ≠ byte '%') (front rest dst : Str) (used : List Nat)
    (fuel : Nat) (hlen : front.length + 1 < 4294967296) :
    decodeLoop (front ++ c :: rest) beyond (fuel + 1) front.length dst used =
      decodeLoop (front ++ [c] ++ rest) beyond fuel (front ++ [c]).length (dst ++ [c])
        (used ++ [front.length]) := by
  have hlt : front.length < (front ++ c :: rest).length := by
    rw [List.length_append, List.length_cons]
    omega
  have hnext : toUInt32 (front.length + 1) = (front ++ [c]).length := by
    rw [toUInt32_of_lt hlen, List.length_append, List.length_singleton]
  rw [decodeLoop, if_pos hlt]
  simp only [readAt_append, if_pos hc, hnext, List.append_assoc, List.singleton_append]

/-- A turn for a `%`, whatever is behind it. -/
theorem decodeLoop_percent (front rest dst : Str) (used : List Nat) (fuel : Nat)
    (hlen : front.length + 3 < 4294967296) :
    decodeLoop (front ++ byte '%' :: rest) beyond (fuel + 1) front.length dst used =
      decodeLoop (front ++ byte '%' :: rest) beyond fuel (front.length + 3)
        (dst ++ [unhex (readAt (front ++ byte '%' :: rest) beyond (front.length + 1))
          (readAt (front ++ byte '%' :: rest) beyond (front.length + 2))])
        (used ++ [front.length, front.length + 1, front.length + 2]) := by
  have hlt : front.length < (front ++ byte '%' :: rest).length := by
    rw [List.length_append, List.length_cons]
    omega
  have h1 : toUInt32 (front.length + 1) = front.length + 1 := toUInt32_of_lt (by omega)
  have h2 : toUInt32 (front.length + 1 + 1) = front.length + 2 := toUInt32_of_lt (by omega)
  have h3 : toUInt32 (front.length + 2 + 1) = front.length + 3 := toUInt32_of_lt (by omega)
  rw [decodeLoop, if_pos hlt]
  simp only [readAt_append, ne_eq, not_true_eq_false, if_false, h1, h2, h3]

/-- A turn for a `%` with two bytes behind it. -/
theorem decodeLoop_escape (a b : UInt8) (front rest dst : Str) (used : List Nat) (fuel : Nat)
    (hlen : front.length + 3 < 4294967296) :
    decodeLoop (front ++ byte '%' :: a :: b :: rest) beyond (fuel + 1) front.length dst used =
      decodeLoop (front ++ [byte '%', a, b] ++ rest) beyond fuel (front ++ [byte '%', a, b]).length
        (dst ++ [unhex a b]) (used ++ [front.length, front.length + 1, front.length + 2]) := by
  have ha : readAt (front ++ byte '%' :: a :: b :: rest) beyond (front.length + 1) = a := by
    have h := readAt_append beyond (front ++ [byte '%']) a (b :: rest)
    rw [List.length_append, List.append_assoc] at h
    exact h
  have hb : readAt (front ++ byte '%' :: a :: b :: rest) beyond (front.length + 2) = b := by
    have h := readAt_append beyond (front ++ [byte '%', a]) b rest
    rw [List.length_append, List.append_assoc] at h
    exact h
  rw [decodeLoop_percent _ _ _ _ _ hlen, ha, hb, List.append_assoc, List.length_append]
  rfl

/-- A string that the index does not reach the end of. -/
theorem decodeLoop_eq_none {src : Str} (h : 4294967296 ≤ src.length) (fuel : Nat) :
    ∀ (i : Nat) (dst : Str) (used : List Nat), i < 4294967296 →
      decodeLoop src beyond fuel i dst used = none := by
  induction fuel with
  | zero =>
      intro i dst used _
      rfl
  | succ fuel ih =>
      intro i dst used hi
      rw [decodeLoop, if_pos (Nat.lt_of_lt_of_le hi h)]
      dsimp only
      split
      · exact ih _ _ _ (toUInt32_lt _)
      · exact ih _ _ _ (toUInt32_lt _)

/-! ## What is escaped -/

theorem unhex_charToHex (c : UInt8) : unhex (charToHex (c >>> 4)) (charToHex (c % 16)) = c := by
  have hall : ∀ n : Fin 256, unhex (charToHex (UInt8.ofFin n >>> 4))
      (charToHex (UInt8.ofFin n % 16)) = UInt8.ofFin n := by decide +kernel
  exact hall c.toFin

theorem strchr_ne_percent {c : UInt8}
    (h : (isAlphaNumberChar c || strchr (bytes "-_.!~*'()") c) = true) : c ≠ byte '%' := by
  rintro rfl
  revert h
  decide

/-- The two forms of an escaped byte. -/
theorem encodeChar_cases (c : UInt8) : encodeChar c = [c] ∧ c ≠ byte '%' ∨
    ∃ a b, encodeChar c = [byte '%', a, b] ∧ unhex a b = c := by
  unfold encodeChar
  by_cases hspace : c = byte ' '
  · subst hspace
    exact Or.inr ⟨byte '2', byte '0', by decide, by decide⟩
  · rw [if_neg hspace]
    by_cases hsafe : (isAlphaNumberChar c || strchr (bytes "-_.!~*'()") c) = true
    · rw [if_pos hsafe]
      exact Or.inl ⟨rfl, strchr_ne_percent hsafe⟩
    · rw [if_neg hsafe]
      exact Or.inr ⟨_, _, rfl, unhex_charToHex c⟩

/-- The loop of `DecodeURL` on an escaped string, behind what it is done with. -/
theorem decodeLoop_escaped (s : Str) : ∀ (front dst : Str) (used : List Nat) (fuel : Nat),
    (front ++ escaped s).length < 4294967296 → (escaped s).length < fuel →
    ∃ used', decodeLoop (front ++ escaped s) beyond fuel front.length dst used =
      some (dst ++ s, used') := by
  induction s with
  | nil =>
      intro front dst used fuel _ hfuel
      obtain ⟨n, rfl⟩ : ∃ n, fuel = n + 1 := ⟨fuel - 1, by omega⟩
      exact ⟨used, by simp [decodeLoop, escaped]⟩
  | cons c s ih =>
      intro front dst used fuel hlen hfuel
      obtain ⟨n, rfl⟩ : ∃ n, fuel = n + 1 := ⟨fuel - 1, by omega⟩
      have hcons : escaped (c :: s) = encodeChar c ++ escaped s := List.flatMap_cons
      rw [hcons] at hlen hfuel ⊢
      rcases encodeChar_cases c with ⟨hone, hc⟩ | ⟨a, b, hthree, hunhex⟩
      · rw [hone] at hlen hfuel ⊢
        simp only [List.length_append, List.length_cons, List.length_nil] at hlen hfuel
        have hlen' : (front ++ [c] ++ escaped s).length < 4294967296 := by
          simp only [List.length_append, List.length_singleton]
          omega
        rw [List.singleton_append, decodeLoop_char hc front _ _ _ _ (by omega)]
        obtain ⟨used', h⟩ := ih (front ++ [c]) (dst ++ [c]) (used ++ [front.length]) n hlen'
          (by omega)
        exact ⟨used', by rw [h, List.append_assoc, List.singleton_append]⟩
      · rw [hthree] at hlen hfuel ⊢
        simp only [List.length_append, List.length_cons, List.length_nil] at hlen hfuel
        have hlen' : (front ++ [byte '%', a, b] ++ escaped s).length < 4294967296 := by
          simp only [List.length_append, List.length_cons, List.length_nil]
          omega
        obtain ⟨used', h⟩ := ih (front ++ [byte '%', a, b]) (dst ++ [c])
          (used ++ [front.length, front.length + 1, front.length + 2]) n hlen' (by omega)
        have happend : [byte '%', a, b] ++ escaped s = byte '%' :: a :: b :: escaped s := rfl
        rw [happend, decodeLoop_escape a b front _ _ _ _ (by omega), hunhex]
        exact ⟨used', by rw [h, List.append_assoc, List.singleton_append]⟩

theorem decodeURL_escaped {s : Str} (h : (escaped s).length < 4294967296)
    (beyond : Nat → UInt8) : ∃ used, decodeURL beyond (escaped s) = some (s, used) :=
  decodeLoop_escaped s [] [] [] ((escaped s).length + 1) h (Nat.lt_succ_self _)

/-- `DecodeURL` undoes `EncodeURL`. -/
theorem decodeURL_encodeURL {s : Str} (h : (escaped s).length < 4294967296)
    (beyond : Nat → UInt8) :
    ∃ url, encodeURL s = some url ∧ ∃ used, decodeURL beyond url = some (s, used) := by
  have hlen : s.length < 4294967296 := Nat.lt_of_le_of_lt (length_le_escaped s) h
  exact ⟨escaped s, encodeURL_eq hlen, decodeURL_escaped h beyond⟩

/-- Where `DecodeURL` returns from what `EncodeURL` returned, it is the string. -/
theorem eq_of_decodeURL {s url data : Str} {used : List Nat} (henc : encodeURL s = some url)
    (hdec : decodeURL beyond url = some (data, used)) : data = s := by
  obtain rfl := eq_escaped henc
  by_cases hlen : (escaped s).length < 4294967296
  · obtain ⟨used', hdec'⟩ := decodeURL_escaped hlen beyond
    exact (congrArg Prod.fst (Option.some.inj (hdec'.symm.trans hdec))).symm
  · have hnone : decodeURL beyond (escaped s) = none :=
      decodeLoop_eq_none (Nat.not_lt.mp hlen) ((escaped s).length + 1) 0 [] [] (by decide)
    exact absurd (hdec.symm.trans hnone) (Option.some_ne_none _)

/-- NUL, a space, a `%` and a byte that is no ASCII. -/
theorem decodeURL_encodeURL_marks : ∃ url, encodeURL [0, 32, 37, 200] = some url ∧
    ∃ used, decodeURL (fun _ => 0) url = some ([0, 32, 37, 200], used) :=
  decodeURL_encodeURL (by decide) fun _ => 0

/-! ## Any string -/

/-- The scan from the left, on which each `%` takes two bytes with it, comes to a `%` that is the
last byte. -/
def lastPercent : Str → Bool
  | [] => false
  | c :: rest =>
    if c ≠ byte '%' then lastPercent rest
    else match rest with
      | [] => true
      | [_] => false
      | _ :: _ :: rest => lastPercent rest

theorem lastPercent_char {c : UInt8} (hc : c ≠ byte '%') (rest : Str) :
    lastPercent (c :: rest) = lastPercent rest := by
  rw [lastPercent.eq_def]
  exact if_pos hc

theorem lastPercent_escape (a b : UInt8) (rest : Str) :
    lastPercent (byte '%' :: a :: b :: rest) = lastPercent rest := by
  rw [lastPercent.eq_def]
  exact if_neg fun h => h rfl

theorem exists_two {s : Str} (h : ¬ s.length < 2) : ∃ a b rest, s = a :: b :: rest := by
  cases s with
  | nil => exact absurd (by decide) h
  | cons a s =>
      cases s with
      | nil => exact absurd Nat.one_lt_two h
      | cons b rest => exact ⟨a, b, rest, rfl⟩

/-- With at most one byte behind it, a `%` has to have that one. -/
theorem lastPercent_cut {tail : Str} (h : tail.length < 2) :
    lastPercent (byte '%' :: tail) = false ↔ tail.length = 1 := by
  cases tail with
  | nil => decide
  | cons a tail =>
      obtain rfl : tail = [] := List.length_eq_zero_iff.mp (by rw [List.length_cons] at h; omega)
      exact iff_of_true rfl rfl

/-- The turn for a `%` with at most one byte behind it is the last one. -/
theorem decodeLoop_cut (beyond : Nat → UInt8) (front tail dst : Str) (used : List Nat) (fuel : Nat)
    (htail : tail.length < 2) (hlen : front.length + 3 < 4294967296) :
    ∃ c, decodeLoop (front ++ byte '%' :: tail) beyond (fuel + 2) front.length dst used =
      some (dst ++ [c], used ++ [front.length, front.length + 1, front.length + 2]) := by
  have hend : ¬ front.length + 3 < (front ++ byte '%' :: tail).length := by
    rw [List.length_append, List.length_cons]
    omega
  rw [decodeLoop_percent front tail dst used (fuel + 1) hlen, decodeLoop, if_neg hend]
  exact ⟨_, rfl⟩

/-- The loop of `DecodeURL` on any string, behind what it is done with: it comes to its end, and
uses indexes behind the string just where the last byte is a `%` on its own. -/
theorem decodeLoop_spec (fuel : Nat) : ∀ (rest front dst : Str) (used : List Nat),
    (front ++ rest).length + 2 < 4294967296 → rest.length < fuel →
    ∃ dst' used', decodeLoop (front ++ rest) beyond fuel front.length dst used =
        some (dst', used ++ used') ∧
      ((∀ i ∈ used', i ≤ (front ++ rest).length) ↔ lastPercent rest = false) := by
  induction fuel with
  | zero =>
      intro rest front dst used _ hfuel
      exact absurd hfuel (Nat.not_lt_zero _)
  | succ n ih =>
      intro rest front dst used hlen hfuel
      cases rest with
      | nil => exact ⟨dst, [], by simp [decodeLoop], by simp [lastPercent]⟩
      | cons c rest =>
          have hsize : (front ++ c :: rest).length = front.length + rest.length + 1 := by
            rw [List.length_append, List.length_cons, Nat.add_assoc]
          rw [hsize] at hlen
          rw [List.length_cons] at hfuel
          by_cases hc : c = byte '%'
          · subst hc
            by_cases htail : rest.length < 2
            · -- The scan ends here; an index is behind the string only if nothing follows the `%`.
              obtain ⟨m, rfl⟩ : ∃ m, n = m + 1 := ⟨n - 1, by omega⟩
              obtain ⟨d, h⟩ := decodeLoop_cut beyond front rest dst used m htail
                (by omega)
              refine ⟨_, _, h, ?_⟩
              rw [lastPercent_cut htail, hsize]
              simp only [List.mem_cons, List.not_mem_nil, or_false]
              constructor
              · intro hinside
                have hlast := hinside (front.length + 2) (Or.inr (Or.inr rfl))
                omega
              · intro hone i hi
                omega
            · obtain ⟨a, b, rest, rfl⟩ := exists_two htail
              simp only [List.length_cons] at hlen hfuel hsize
              have hlen' : (front ++ [byte '%', a, b] ++ rest).length + 2 < 4294967296 := by
                simp only [List.length_append, List.length_cons, List.length_nil]
                omega
              obtain ⟨dst', used', h, hiff⟩ := ih rest (front ++ [byte '%', a, b])
                (dst ++ [unhex a b]) (used ++ [front.length, front.length + 1, front.length + 2])
                hlen' (by omega)
              have hfront : front ++ [byte '%', a, b] ++ rest =
                  front ++ byte '%' :: a :: b :: rest := List.append_assoc ..
              rw [decodeLoop_escape a b front _ _ _ _ (by omega), h, lastPercent_escape, ← hiff,
                hfront]
              refine ⟨dst', [front.length, front.length + 1, front.length + 2] ++ used',
                by rw [List.append_assoc], ?_⟩
              simp only [List.mem_append, List.mem_cons, List.not_mem_nil, or_false, hsize]
              constructor
              · intro h i hi
                exact h i (Or.inr hi)
              · intro h i hi
                rcases hi with hi | hi
                · omega
                · exact h i hi
          · have hlen' : (front ++ [c] ++ rest).length + 2 < 4294967296 := by
              simp only [List.length_append, List.length_singleton]
              omega
            obtain ⟨dst', used', h, hiff⟩ := ih rest (front ++ [c]) (dst ++ [c])
              (used ++ [front.length]) hlen' (by omega)
            have hfront : front ++ [c] ++ rest = front ++ c :: rest := List.append_assoc ..
            rw [decodeLoop_char hc front _ _ _ _ (by omega), h, lastPercent_char hc, ← hiff, hfront]
            refine ⟨dst', [front.length] ++ used', by rw [List.append_assoc], ?_⟩
            simp only [List.mem_append, List.mem_singleton, hsize]
            constructor
            · intro h i hi
              exact h i (Or.inr hi)
            · intro h i hi
              rcases hi with hi | hi
              · omega
              · exact h i hi

/-- `DecodeURL` comes to its end on every string, and reads nothing behind the NUL at its size
just where the scan does not come to a `%` as the last byte. -/
theorem reads_inside_iff {src : Str} (h : src.length < 4294967294) (beyond : Nat → UInt8) :
    ∃ dst used, decodeURL beyond src = some (dst, used) ∧
      ((∀ i ∈ used, i ≤ src.length) ↔ lastPercent src = false) :=
  decodeLoop_spec (src.length + 1) src [] [] [] (by rw [List.nil_append]; omega)
    (Nat.lt_succ_self _)

/-- The string that is one `%`: the index 2 is used. -/
theorem percent_reads_behind : ∃ dst, decodeURL (fun _ => 0) [byte '%'] = some (dst, [0, 1, 2]) ∧
    ¬ 2 ≤ [byte '%'].length := ⟨_, rfl, by decide⟩

/-- In `%41` and `%4` nothing behind the end is read. -/
theorem reads_inside_iff_escape : ∃ dst used, decodeURL (fun _ => 0) (bytes "%41%4") =
      some (dst, used) ∧ ∀ i ∈ used, i ≤ (bytes "%41%4").length := by
  have hlen : (bytes "%41%4").length < 4294967294 := by decide
  obtain ⟨dst, used, h, hiff⟩ := reads_inside_iff hlen fun _ => 0
  exact ⟨dst, used, h, hiff.mpr (by decide)⟩

end LinSocketIo.Utils.Url
