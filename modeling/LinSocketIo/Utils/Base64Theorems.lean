/-
LinSocketIo.Utils.Base64Theorems — the round trips of `base64_encode` and
`base64_decode`.

A group of three bytes and a group of four values are the same number, split
at different places (`three_four`, `four_three`); the last group has fewer
bytes, and the values that they do not reach are left out.

* `base64_decode_encode` — what is encoded comes back, also when something follows
  that is no more base64.
* `encode_decode_iff` — the strings that come back when they are decoded and
  encoded are the canonical ones.
-/
import LinSocketIo.Utils.Base64

namespace LinSocketIo.Utils.Base64

open LinSocketIo.Base StrHelper Url

/-! ## Characters -/

theorem forall_uint8 {P : UInt8 → Prop} (h : ∀ n < 256, P (UInt8.ofNat n)) (c : UInt8) : P c := by
  have hc := h c.toNat c.toNat_lt
  rwa [UInt8.ofNat_toNat] at hc

/-- The 64 characters. -/
theorem char_spec : ∀ v < 64, isBase64 (char (UInt8.ofNat v)) = true ∧
    char (UInt8.ofNat v) ≠ byte '=' ∧ find (char (UInt8.ofNat v)) = UInt8.ofNat v := by
  decide +kernel

theorem find_spec : ∀ n < 256, isBase64 (UInt8.ofNat n) = true →
    (find (UInt8.ofNat n)).toNat < 64 ∧ char (find (UInt8.ofNat n)) = UInt8.ofNat n := by
  decide +kernel

theorem find_lt {c : UInt8} (hc : isBase64 c = true) : (find c).toNat < 64 :=
  (forall_uint8 (P := fun c => isBase64 c = true → (find c).toNat < 64 ∧ char (find c) = c)
    find_spec c hc).1

theorem char_find {c : UInt8} (hc : isBase64 c = true) : char (find c) = c :=
  (forall_uint8 (P := fun c => isBase64 c = true → (find c).toNat < 64 ∧ char (find c) = c)
    find_spec c hc).2

theorem isBase64_char {v : UInt8} (hv : v.toNat < 64) : isBase64 (char v) = true := by
  have h := (char_spec v.toNat hv).1
  rwa [UInt8.ofNat_toNat] at h

theorem find_char {v : UInt8} (hv : v.toNat < 64) : find (char v) = v := by
  have h := (char_spec v.toNat hv).2.2
  rwa [UInt8.ofNat_toNat] at h

theorem isBase64_ne {c : UInt8} (hc : isBase64 c = true) : c ≠ byte '=' := by
  rintro rfl
  exact absurd hc (by decide)

/-! ## Groups -/

/-- Bytes are the same if their numbers are. -/
theorem shifts_spec : ∀ n < 256,
    ((UInt8.ofNat n &&& 0xfc) >>> 2).toNat = n / 4 ∧
      ((UInt8.ofNat n &&& 0x03) <<< 4).toNat = n % 4 * 16 ∧
      ((UInt8.ofNat n &&& 0xf0) >>> 4).toNat = n / 16 ∧
      ((UInt8.ofNat n &&& 0x0f) <<< 2).toNat = n % 16 * 4 ∧
      ((UInt8.ofNat n &&& 0xc0) >>> 6).toNat = n / 64 ∧
      (UInt8.ofNat n &&& 0x3f).toNat = n % 64 ∧
      (UInt8.ofNat n <<< 2).toNat = n * 4 % 256 ∧
      ((UInt8.ofNat n &&& 0x30) >>> 4).toNat = n / 16 % 4 ∧
      ((UInt8.ofNat n &&& 0xf) <<< 4).toNat = n % 16 * 16 ∧
      ((UInt8.ofNat n &&& 0x3c) >>> 2).toNat = n / 4 % 16 ∧
      ((UInt8.ofNat n &&& 0x3) <<< 6).toNat = n % 4 * 64 := by
  decide +kernel

/-- The numbers of the four values of three bytes. -/
theorem four_toNat (a b c : UInt8) : (four [a, b, c]).map UInt8.toNat =
    [a.toNat / 4, a.toNat % 4 * 16 + b.toNat / 16, b.toNat % 16 * 4 + c.toNat / 64,
      c.toNat % 64] := by
  have ha := shifts_spec a.toNat a.toNat_lt
  have hb := shifts_spec b.toNat b.toNat_lt
  have hc := shifts_spec c.toNat c.toNat_lt
  rw [UInt8.ofNat_toNat] at ha hb hc
  obtain ⟨ha4, halow, -⟩ := ha
  obtain ⟨-, -, hb16, hblow, -⟩ := hb
  obtain ⟨-, -, -, -, hc64, hclow, -⟩ := hc
  have hblt := b.toNat_lt
  have hclt := c.toNat_lt
  simp only [four, List.getD_cons_zero, List.getD_cons_succ, List.map_cons, List.map_nil,
    UInt8.toNat_add, ha4, halow, hb16, hblow, hc64, hclow]
  congr 2
  · omega
  · congr 1
    omega

/-- The numbers of the three bytes of four values. -/
theorem three_toNat (w x y z : UInt8) :
    (three [w, x, y, z]).map UInt8.toNat =
      [((find w).toNat * 4 % 256 + (find x).toNat / 16 % 4) % 256,
        ((find x).toNat % 16 * 16 + (find y).toNat / 4 % 16) % 256,
        ((find y).toNat % 4 * 64 + (find z).toNat) % 256] := by
  have hw := shifts_spec (find w).toNat (find w).toNat_lt
  have hx := shifts_spec (find x).toNat (find x).toNat_lt
  have hy := shifts_spec (find y).toNat (find y).toNat_lt
  rw [UInt8.ofNat_toNat] at hw hx hy
  obtain ⟨-, -, -, -, -, -, hw2, -⟩ := hw
  obtain ⟨-, -, -, -, -, -, -, hx4, hxlow, -⟩ := hx
  obtain ⟨-, -, -, -, -, -, -, -, -, hy2, hylow⟩ := hy
  simp only [three, List.getD_cons_zero, List.getD_cons_succ, List.map_cons, List.map_nil,
    UInt8.toNat_add, hw2, hx4, hxlow, hy2, hylow]

/-- Missing bytes are zero. -/
theorem four_short (a b : UInt8) : four [a] = four [a, 0, 0] ∧ four [a, b] = four [a, b, 0] :=
  ⟨rfl, rfl⟩

/-- Missing characters are NUL. -/
theorem three_short (w x y : UInt8) :
    three [w, x] = three [w, x, 0, 0] ∧ three [w, x, y] = three [w, x, y, 0] :=
  ⟨rfl, rfl⟩

theorem map_toNat_inj {l l' : List UInt8} (h : l.map UInt8.toNat = l'.map UInt8.toNat) :
    l = l' :=
  List.map_injective_iff.mpr (fun _ _ => UInt8.toNat_inj.mp) h

/-- The values of a group are below 64. -/
theorem four_lt {a b c v : UInt8} (hv : v ∈ four [a, b, c]) : v.toNat < 64 := by
  have hmem : v.toNat ∈ (four [a, b, c]).map UInt8.toNat := List.mem_map_of_mem hv
  have ha := a.toNat_lt
  have hb := b.toNat_lt
  have hc := c.toNat_lt
  rw [four_toNat] at hmem
  simp only [List.mem_cons, List.not_mem_nil, or_false] at hmem
  omega

/-- A full group. -/
theorem three_four (a b c : UInt8) : three ((four [a, b, c]).map char) = [a, b, c] := by
  have hfind : ∀ v ∈ four [a, b, c], find (char v) = v := fun v hv => find_char (four_lt hv)
  have hnat := four_toNat a b c
  obtain ⟨w, x, y, z, hfour⟩ : ∃ w x y z, four [a, b, c] = [w, x, y, z] := ⟨_, _, _, _, rfl⟩
  rw [hfour] at hfind hnat ⊢
  simp only [List.map_cons, List.map_nil, List.cons.injEq, and_true] at hnat ⊢
  obtain ⟨hw, hx, hy, hz⟩ := hnat
  have ha := a.toNat_lt
  have hb := b.toNat_lt
  have hc := c.toNat_lt
  refine map_toNat_inj ?_
  rw [three_toNat, hfind w (by simp), hfind x (by simp), hfind y (by simp), hfind z (by simp),
    hw, hx, hy, hz]
  simp only [List.map_cons, List.map_nil, List.cons.injEq, and_true]
  omega

/-- The first byte needs two characters, and the second one more. -/
theorem three_take (w x y y' z z' : UInt8) :
    (three [w, x, y, z]).take 1 = (three [w, x, y', z']).take 1 ∧
      (three [w, x, y, z]).take 2 = (three [w, x, y, z']).take 2 := by
  constructor
  · refine map_toNat_inj ?_
    rw [List.map_take, List.map_take, three_toNat, three_toNat]
    rfl
  · refine map_toNat_inj ?_
    rw [List.map_take, List.map_take, three_toNat, three_toNat]
    rfl

/-- The last group. -/
theorem three_four_short (a b : UInt8) :
    (three (((four [a]).map char).take 2)).take 1 = [a] ∧
      (three (((four [a, b]).map char).take 3)).take 2 = [a, b] := by
  have hone := three_four a 0 0
  have htwo := three_four a b 0
  rw [(four_short a b).1, (four_short a b).2]
  constructor
  · obtain ⟨w, x, y, z, hfour⟩ : ∃ w x y z, (four [a, 0, 0]).map char = [w, x, y, z] :=
      ⟨_, _, _, _, rfl⟩
    rw [hfour] at hone ⊢
    rw [List.take_succ_cons, List.take_succ_cons, List.take_zero, (three_short w x y).1,
      (three_take w x 0 y 0 z).1, hone]
    rfl
  · obtain ⟨w, x, y, z, hfour⟩ : ∃ w x y z, (four [a, b, 0]).map char = [w, x, y, z] :=
      ⟨_, _, _, _, rfl⟩
    rw [hfour] at htwo ⊢
    rw [List.take_succ_cons, List.take_succ_cons, List.take_succ_cons, List.take_zero,
      (three_short w x y).2, (three_take w x y y 0 z).2, htwo]
    rfl

/-- The other way around; a group that is not full has no bits that do not belong to a byte. -/
theorem four_three {w x y z : UInt8} (hw : isBase64 w = true) (hx : isBase64 x = true)
    (hy : isBase64 y = true) (hz : isBase64 z = true) :
    (four (three [w, x, y, z])).map char = [w, x, y, z] := by
  have hnat := three_toNat w x y z
  obtain ⟨a, b, c, hthree⟩ : ∃ a b c, three [w, x, y, z] = [a, b, c] := ⟨_, _, _, rfl⟩
  rw [hthree] at hnat ⊢
  simp only [List.map_cons, List.map_nil, List.cons.injEq, and_true] at hnat
  obtain ⟨ha, hb, hc⟩ := hnat
  have hwlt := find_lt hw
  have hxlt := find_lt hx
  have hylt := find_lt hy
  have hzlt := find_lt hz
  have hfour : four [a, b, c] = [find w, find x, find y, find z] := by
    refine map_toNat_inj ?_
    rw [four_toNat, ha, hb, hc]
    simp only [List.map_cons, List.map_nil, List.cons.injEq, and_true]
    omega
  rw [hfour, List.map_cons, List.map_cons, List.map_cons, List.map_cons, List.map_nil,
    char_find hw, char_find hx, char_find hy, char_find hz]

/-! ## The loops -/

/-- What is put out goes behind what was. -/
theorem encodeLoop_ret (input pending ret : Str) :
    encodeLoop input pending ret =
      ((encodeLoop input pending []).1, ret ++ (encodeLoop input pending []).2) := by
  induction input generalizing pending ret with
  | nil => simp [encodeLoop]
  | cons b bs ih =>
    simp only [encodeLoop]
    split
    · rw [ih, ih [] ([] ++ _)]
      simp
    · exact ih _ _

theorem decodeLoop_ret (s pending ret : Str) :
    decodeLoop s pending ret =
      ((decodeLoop s pending []).1, ret ++ (decodeLoop s pending []).2) := by
  induction s generalizing pending ret with
  | nil => simp [decodeLoop]
  | cons c cs ih =>
    simp only [decodeLoop]
    split
    · split
      · rw [ih, ih [] ([] ++ _)]
        simp
      · exact ih _ _
    · simp

/-- A group of three bytes. -/
theorem encodeBytes_cons (a b c : UInt8) (rest : Str) :
    encodeBytes (a :: b :: c :: rest) = (four [a, b, c]).map char ++ encodeBytes rest := by
  have hloop : encodeLoop (a :: b :: c :: rest) [] [] =
      encodeLoop rest [] ((four [a, b, c]).map char) := rfl
  unfold encodeBytes
  rw [hloop, encodeLoop_ret]
  dsimp only
  split
  · rfl
  · simp only [List.append_assoc]

theorem encodeBytes_nil : encodeBytes [] = [] := rfl

theorem encodeBytes_one (a : UInt8) :
    encodeBytes [a] = ((four [a]).map char).take 2 ++ [byte '=', byte '='] := rfl

theorem encodeBytes_two (a b : UInt8) :
    encodeBytes [a, b] = ((four [a, b]).map char).take 3 ++ [byte '='] := rfl

/-- Nothing comes that is base64. -/
def Stops (rest : Str) : Prop := ∀ c cs, rest = c :: cs → isBase64 c = false

theorem decodeLoop_stops {rest : Str} (h : Stops rest) (pending ret : Str) :
    decodeLoop rest pending ret = (pending, ret) := by
  cases rest with
  | nil => rfl
  | cons c cs =>
    rw [decodeLoop, if_neg]
    rintro ⟨-, hc⟩
    rw [h c cs rfl] at hc
    cases hc

/-- A group of four characters. -/
theorem decode_cons {w x y z : UInt8} (hw : isBase64 w = true) (hx : isBase64 x = true)
    (hy : isBase64 y = true) (hz : isBase64 z = true) (rest : Str) :
    decode (w :: x :: y :: z :: rest) = three [w, x, y, z] ++ decode rest := by
  have hloop : decodeLoop (w :: x :: y :: z :: rest) [] [] =
      decodeLoop rest [] (three [w, x, y, z]) := by
    simp [decodeLoop, hw, hx, hy, hz, isBase64_ne hw, isBase64_ne hx, isBase64_ne hy,
      isBase64_ne hz]
  unfold decode
  rw [hloop, decodeLoop_ret]
  dsimp only
  split
  · rfl
  · simp only [List.append_assoc]

theorem decode_nil {rest : Str} (h : Stops rest) : decode rest = [] := by
  unfold decode
  rw [decodeLoop_stops h]
  rfl

theorem decode_two {w x : UInt8} (hw : isBase64 w = true) (hx : isBase64 x = true) {rest : Str}
    (h : Stops rest) : decode (w :: x :: rest) = (three [w, x]).take 1 := by
  have hloop : decodeLoop (w :: x :: rest) [] [] = ([w, x], []) := by
    simp [decodeLoop, hw, hx, isBase64_ne hw, isBase64_ne hx, decodeLoop_stops h]
  unfold decode
  rw [hloop]
  rfl

theorem decode_three {w x y : UInt8} (hw : isBase64 w = true) (hx : isBase64 x = true)
    (hy : isBase64 y = true) {rest : Str} (h : Stops rest) :
    decode (w :: x :: y :: rest) = (three [w, x, y]).take 2 := by
  have hloop : decodeLoop (w :: x :: y :: rest) [] [] = ([w, x, y], []) := by
    simp [decodeLoop, hw, hx, hy, isBase64_ne hw, isBase64_ne hx, isBase64_ne hy,
      decodeLoop_stops h]
  unfold decode
  rw [hloop]
  rfl

/-! ## Round trips -/

/-- The characters of a group. -/
theorem four_chars (a b c : UInt8) : ∃ w x y z, (four [a, b, c]).map char = [w, x, y, z] ∧
    isBase64 w = true ∧ isBase64 x = true ∧ isBase64 y = true ∧ isBase64 z = true := by
  have hchars : ∀ d ∈ (four [a, b, c]).map char, isBase64 d = true := by
    intro d hd
    obtain ⟨v, hv, rfl⟩ := List.mem_map.mp hd
    exact isBase64_char (four_lt hv)
  obtain ⟨w, x, y, z, hfour⟩ : ∃ w x y z, (four [a, b, c]).map char = [w, x, y, z] :=
    ⟨_, _, _, _, rfl⟩
  rw [hfour] at hchars ⊢
  exact ⟨w, x, y, z, rfl, hchars w (by simp), hchars x (by simp), hchars y (by simp),
    hchars z (by simp)⟩

theorem stops_pad (rest : Str) : Stops (byte '=' :: rest) := by
  intro c cs heq
  obtain ⟨rfl, -⟩ := List.cons.inj heq
  decide

theorem decode_encodeBytes : ∀ (data : Str) {rest : Str}, Stops rest →
    decode (encodeBytes data ++ rest) = data
  | [], rest, h => by
      rw [encodeBytes_nil, List.nil_append]
      exact decode_nil h
  | [a], rest, h => by
      obtain ⟨w, x, y, z, hfour, hw, hx, -, -⟩ := four_chars a 0 0
      have hshort := (three_four_short a 0).1
      rw [encodeBytes_one]
      rw [(four_short a 0).1, hfour] at hshort ⊢
      exact (decode_two hw hx (stops_pad _)).trans hshort
  | [a, b], rest, h => by
      obtain ⟨w, x, y, z, hfour, hw, hx, hy, -⟩ := four_chars a b 0
      have hshort := (three_four_short a b).2
      rw [encodeBytes_two]
      rw [(four_short a b).2, hfour] at hshort ⊢
      exact (decode_three hw hx hy (stops_pad _)).trans hshort
  | a :: b :: c :: data, rest, h => by
      obtain ⟨w, x, y, z, hfour, hw, hx, hy, hz⟩ := four_chars a b c
      have hgroup := three_four a b c
      rw [encodeBytes_cons]
      rw [hfour] at hgroup ⊢
      rw [List.append_assoc, List.cons_append, List.cons_append, List.cons_append,
        List.cons_append, List.nil_append, decode_cons hw hx hy hz, hgroup,
        decode_encodeBytes data h]
      rfl

/-- A size that fits is not cut off. -/
theorem encode_eq {data : Str} (h : data.length < 4294967296) :
    encode data = encodeBytes data := by
  rw [encode, toUInt32_of_lt h, List.take_length]

/-- **What is encoded comes back**: for strings of which the encoding has less than 2 ^ 31 bytes,
whatever follows the encoding, as long as it does not go on with one of the 64 characters. -/
theorem base64_decode_encode {data rest : Str} (h : 4 * ((data.length + 2) / 3) < 2147483648)
    (hrest : Stops rest) : decode (encode data ++ rest) = data := by
  rw [encode_eq (by omega)]
  exact decode_encodeBytes data hrest

theorem base64_decode_encode_cut : decode (encode (bytes "ab") ++ bytes "\nYQ==") = bytes "ab" :=
  base64_decode_encode (by decide) fun c cs heq => by
    obtain ⟨rfl, -⟩ := List.cons.inj heq
    decide

/-- The last group of an encoding: the bits that are left over are zero. -/
def CanonicalLast (w x y z : UInt8) : Prop :=
  isBase64 w = true ∧ isBase64 x = true ∧
    (isBase64 y = true ∧ isBase64 z = true ∨
      isBase64 y = true ∧ z = byte '=' ∧ (find y).toNat % 4 = 0 ∨
      y = byte '=' ∧ z = byte '=' ∧ (find x).toNat % 16 = 0)

/-- The strings that are encodings: groups of four characters, of which the last one may end with
one or two `=`. -/
def Canonical : Str → Prop
  | [] => True
  | w :: x :: y :: z :: rest =>
    if rest = [] then CanonicalLast w x y z
    else isBase64 w = true ∧ isBase64 x = true ∧ isBase64 y = true ∧ isBase64 z = true ∧
      Canonical rest
  | [_] | [_, _] | [_, _, _] => False

/-- The characters of a group with zero bytes behind the second and the first byte. -/
theorem four_last (a b : UInt8) :
    (∃ w x y z, (four [a, b, 0]).map char = [w, x, y, z] ∧ isBase64 w = true ∧
      isBase64 x = true ∧ isBase64 y = true ∧ (find y).toNat % 4 = 0) ∧
    ∃ w x y z, (four [a, 0, 0]).map char = [w, x, y, z] ∧ isBase64 w = true ∧
      isBase64 x = true ∧ (find x).toNat % 16 = 0 := by
  constructor
  · obtain ⟨w, x, y, z, hfour⟩ : ∃ w x y z, four [a, b, 0] = [w, x, y, z] := ⟨_, _, _, _, rfl⟩
    have hlt : ∀ v ∈ four [a, b, 0], v.toNat < 64 := fun v hv => four_lt hv
    have hnat := four_toNat a b 0
    rw [hfour] at hlt hnat ⊢
    have hw := hlt w (by simp)
    have hx := hlt x (by simp)
    have hy := hlt y (by simp)
    simp only [List.map_cons, List.map_nil, List.cons.injEq, and_true] at hnat
    refine ⟨_, _, _, _, rfl, isBase64_char hw, isBase64_char hx, isBase64_char hy, ?_⟩
    rw [find_char hy, hnat.2.2.1, UInt8.toNat_zero]
    omega
  · obtain ⟨w, x, y, z, hfour⟩ : ∃ w x y z, four [a, 0, 0] = [w, x, y, z] := ⟨_, _, _, _, rfl⟩
    have hlt : ∀ v ∈ four [a, 0, 0], v.toNat < 64 := fun v hv => four_lt hv
    have hnat := four_toNat a 0 0
    rw [hfour] at hlt hnat ⊢
    have hw := hlt w (by simp)
    have hx := hlt x (by simp)
    simp only [List.map_cons, List.map_nil, List.cons.injEq, and_true] at hnat
    refine ⟨_, _, _, _, rfl, isBase64_char hw, isBase64_char hx, ?_⟩
    rw [find_char hx, hnat.2.1, UInt8.toNat_zero]
    omega

theorem canonical_encodeBytes : ∀ data : Str, Canonical (encodeBytes data)
  | [] => trivial
  | [a] => by
      obtain ⟨w, x, y, z, hfour, hw, hx, hzero⟩ := (four_last a 0).2
      rw [encodeBytes_one, (four_short a 0).1, hfour]
      exact ⟨hw, hx, Or.inr (Or.inr ⟨rfl, rfl, hzero⟩)⟩
  | [a, b] => by
      obtain ⟨w, x, y, z, hfour, hw, hx, hy, hzero⟩ := (four_last a b).1
      rw [encodeBytes_two, (four_short a b).2, hfour]
      exact ⟨hw, hx, Or.inr (Or.inl ⟨hy, rfl, hzero⟩)⟩
  | a :: b :: c :: data => by
      obtain ⟨w, x, y, z, hfour, hw, hx, hy, hz⟩ := four_chars a b c
      rw [encodeBytes_cons, hfour]
      simp only [List.cons_append, List.nil_append, Canonical]
      split
      · exact ⟨hw, hx, Or.inl ⟨hy, hz⟩⟩
      · exact ⟨hw, hx, hy, hz, canonical_encodeBytes data⟩

/-- The last group comes back. -/
theorem encodeBytes_last {w x y z : UInt8} (h : CanonicalLast w x y z) :
    encodeBytes (decode [w, x, y, z]) = [w, x, y, z] := by
  obtain ⟨hw, hx, ⟨hy, hz⟩ | ⟨hy, rfl, hzero⟩ | ⟨rfl, rfl, hzero⟩⟩ := h
  · have hback := four_three hw hx hy hz
    obtain ⟨a, b, c, hthree⟩ : ∃ a b c, three [w, x, y, z] = [a, b, c] := ⟨_, _, _, rfl⟩
    rw [decode_cons hw hx hy hz, decode_nil (fun c cs heq => by cases heq), List.append_nil]
    rw [hthree] at hback ⊢
    rw [encodeBytes_cons, hback]
    rfl
  · have hnat := three_toNat w x y 0
    obtain ⟨a, b, c, hthree⟩ : ∃ a b c, three [w, x, y, 0] = [a, b, c] := ⟨_, _, _, rfl⟩
    rw [decode_three hw hx hy (stops_pad []), (three_short w x y).2]
    rw [hthree] at hnat ⊢
    simp only [List.map_cons, List.map_nil, List.cons.injEq, and_true] at hnat
    obtain ⟨ha, hb, -⟩ := hnat
    have hwlt := find_lt hw
    have hxlt := find_lt hx
    have hylt := find_lt hy
    have hfour : (four [a, b, 0]).take 3 = [find w, find x, find y] := by
      refine map_toNat_inj ?_
      rw [List.map_take, four_toNat, ha, hb, UInt8.toNat_zero]
      simp only [List.take_succ_cons, List.take_zero, List.map_cons, List.map_nil,
        List.cons.injEq, and_true]
      omega
    rw [List.take_succ_cons, List.take_succ_cons, List.take_zero, encodeBytes_two,
      (four_short a b).2, ← List.map_take, hfour, List.map_cons, List.map_cons, List.map_cons,
      List.map_nil, char_find hw, char_find hx, char_find hy]
    rfl
  · have hnat := three_toNat w x 0 0
    obtain ⟨a, b, c, hthree⟩ : ∃ a b c, three [w, x, 0, 0] = [a, b, c] := ⟨_, _, _, rfl⟩
    rw [decode_two hw hx (stops_pad _), (three_short w x 0).1]
    rw [hthree] at hnat ⊢
    simp only [List.map_cons, List.map_nil, List.cons.injEq, and_true] at hnat
    have hwlt := find_lt hw
    have hxlt := find_lt hx
    have hfour : (four [a, 0, 0]).take 2 = [find w, find x] := by
      refine map_toNat_inj ?_
      rw [List.map_take, four_toNat, hnat.1, UInt8.toNat_zero]
      simp only [List.take_succ_cons, List.take_zero, List.map_cons, List.map_nil,
        List.cons.injEq, and_true]
      omega
    rw [List.take_succ_cons, List.take_zero, encodeBytes_one, (four_short a 0).1,
      ← List.map_take, hfour, List.map_cons, List.map_cons, List.map_nil, char_find hw,
      char_find hx]
    rfl

theorem encodeBytes_decode : ∀ s : Str, Canonical s → encodeBytes (decode s) = s
  | [], _ => rfl
  | [_], h => absurd h id
  | [_, _], h => absurd h id
  | [_, _, _], h => absurd h id
  | w :: x :: y :: z :: rest, h => by
      rw [Canonical] at h
      split at h
      · next hnil =>
        subst hnil
        exact encodeBytes_last h
      · obtain ⟨hw, hx, hy, hz, hrest⟩ := h
        have hback := four_three hw hx hy hz
        obtain ⟨a, b, c, hthree⟩ : ∃ a b c, three [w, x, y, z] = [a, b, c] := ⟨_, _, _, rfl⟩
        rw [decode_cons hw hx hy hz]
        rw [hthree] at hback ⊢
        rw [List.cons_append, List.cons_append, List.cons_append, List.nil_append,
          encodeBytes_cons, hback, encodeBytes_decode rest hrest]
        rfl

/-- What is collected and put out is not longer than what has been read. -/
theorem length_decodeLoop_le (s pending ret : Str) (hpending : pending.length < 4) :
    (decodeLoop s pending ret).1.length + (decodeLoop s pending ret).2.length ≤
      pending.length + ret.length + s.length := by
  induction s generalizing pending ret with
  | nil => exact Nat.le_refl _
  | cons c cs ih =>
    simp only [decodeLoop]
    split
    · split
      · next hfull =>
        have hrest := ih [] (ret ++ three (pending ++ [c])) (by decide)
        simp only [List.length_append, List.length_cons, List.length_nil, three] at hrest hfull ⊢
        omega
      · next hmore =>
        rw [List.length_append, List.length_singleton] at hmore
        have hlt : (pending ++ [c]).length < 4 := by
          rw [List.length_append, List.length_singleton]
          omega
        have hrest := ih (pending ++ [c]) ret hlt
        simp only [List.length_append, List.length_cons, List.length_nil] at hrest ⊢
        omega
    · simp only [List.length_cons]
      omega

/-- The decoded string is not longer. -/
theorem length_decode_le (s : Str) : (decode s).length ≤ s.length := by
  have hloop := length_decodeLoop_le s [] [] (by decide)
  simp only [List.length_nil, Nat.zero_add] at hloop
  unfold decode
  dsimp only
  split
  · omega
  · rw [List.length_append, List.length_take]
    omega

/-- **Which strings come back**: a string of less than 2 ^ 31 bytes is decoded and encoded to
itself if and only if it is canonical. -/
theorem encode_decode_iff {s : Str} (h : s.length < 2147483648) :
    encode (decode s) = s ↔ Canonical s := by
  have hlen := length_decode_le s
  rw [encode_eq (by omega)]
  constructor
  · intro heq
    rw [← heq]
    exact canonical_encodeBytes _
  · intro hcanonical
    exact encodeBytes_decode s hcanonical

/-- Left-over bits that are zero, and ones that are not. -/
theorem encode_decode_iff_leftOver :
    encode (decode (bytes "YQ==")) = bytes "YQ==" ∧
      encode (decode (bytes "YR==")) ≠ bytes "YR==" := by
  have hzero : Canonical (bytes "YQ==") := by
    change CanonicalLast (byte 'Y') (byte 'Q') (byte '=') (byte '=')
    unfold CanonicalLast
    decide
  have hbits : ¬ Canonical (bytes "YR==") := by
    change ¬ CanonicalLast (byte 'Y') (byte 'R') (byte '=') (byte '=')
    unfold CanonicalLast
    decide
  exact ⟨(encode_decode_iff (by decide)).mpr hzero,
    fun h => hbits ((encode_decode_iff (by decide)).mp h)⟩

end LinSocketIo.Utils.Base64
