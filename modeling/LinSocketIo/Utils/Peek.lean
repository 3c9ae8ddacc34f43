/-
LinSocketIo.Utils.Peek — what a `peek` call tells and what is read there.

A `peek` call with a position should tell what the read would give after
`skip` of that many bytes. Two things keep it from that. The number calls
subtract the position from the size as `size_t` and test the difference as an
`int`; `peek_varint` looks at the cursor wherever it is asked to look.

* `peek_agrees_iff` — for each call, where it tells what is read.
-/
import LinSocketIo.Utils.CursorTheorems

namespace LinSocketIo.Utils.Cursor

open LinSocketIo.Base

/-- What a call returns, if it returns. -/
def found {α : Type} (x : CursorM α) (held : Cursor) : Option α :=
  match x.run held with
  | .ok a _ => some a
  | .error _ _ => none

/-- The call returns what `skip` of `pos` bytes and `read` would return, reads nothing
outside the string, and leaves the cursor. -/
def PeekAgrees {α : Type} (peek : CursorM (Option α)) (read : CursorM α) (pos : Nat)
    (held : Cursor) : Prop :=
  peek.run held = .ok (found (do skip pos; read) held) held

/-- The difference of the sizes, as an `int`, is below `k` just when too few bytes are there. -/
def Peekable (size pos k : Nat) : Prop :=
  (pos ≤ size → size - pos < 2147483648 ∨
    k ≤ (size - pos) % 4294967296 ∧ (size - pos) % 4294967296 < 2147483648) ∧
  (size < pos →
    ¬ (2147483648 < (pos - size) % 4294967296 ∧ (pos - size) % 4294967296 ≤ 4294967296 - k))

instance (size pos k : Nat) : Decidable (Peekable size pos k) :=
  inferInstanceAs (Decidable (_ ∧ _))

/-- The two places hold the same varint, or neither holds one. -/
def SameVarint (vi : ByteBuffer.Varint) (data data' : List UInt8) : Prop :=
  (0 < (vi.read data).1 ↔ 0 < (vi.read data').1) ∧
    (0 < (vi.read data).1 → (vi.read data).2 = (vi.read data').2)

/-- The cursor holds what is asked for at `pos`. -/
def PeekableVarint (vi : ByteBuffer.Varint) (data : List UInt8) (pos : Nat) : Prop :=
  pos = 0 ∨ (pos ≤ data.length ∧ SameVarint vi data (data.drop pos)) ∨
    (data.length < pos ∧ (vi.read data).1 ≤ 0)

variable {mem : List UInt8}

section

variable {α : Type} {x : CursorM α} {held held' : Cursor}

theorem found_of_ok {a : α} (h : x.run held = .ok a held') : found x held = some a := by
  rw [found, h]

theorem found_of_error {e : Fault} (h : x.run held = .error e held') : found x held = none := by
  rw [found, h]

theorem found_skip (read : CursorM α) (held : Cursor) (pos : Nat) :
    found (do skip pos; read) held =
      if held.size < pos then none else found read ⟨held.pos + pos, subSize held.size pos⟩ := by
  have hskip := run_skip pos held
  generalize subSize held.size pos = left at hskip ⊢
  by_cases hfew : held.size < pos
  · rw [if_pos hfew] at hskip ⊢
    exact found_of_error (run_bind_of_error hskip)
  · rw [if_neg hfew] at hskip ⊢
    unfold found
    rw [run_bind_of_ok hskip]

end

/-! ## Numbers -/

/-- The test on a number that is made an `int`. -/
theorem toInt_below_iff {x k : Nat} (hk : 0 < k) (hk' : k ≤ 8) :
    toInt x < k ↔ ¬ (k ≤ x % 4294967296 ∧ x % 4294967296 < 2147483648) := by
  rw [toInt_natCast]
  have hlt := Nat.mod_lt x (show 4294967296 > 0 by decide)
  generalize x % 4294967296 = r at hlt ⊢
  split <;> omega

/-- A difference of `size_t` that wraps, by its low 32 bits. -/
theorem subSize_mod_of_lt {m n : Nat} (hm : m < n) (hn : n < 2 ^ 64) :
    subSize m n % 4294967296 = (4294967296 - (n - m) % 4294967296) % 4294967296 := by
  unfold subSize
  omega

theorem below_iff {size pos k : Nat} (hsize : size < 2 ^ 64) (hpos : pos < 2 ^ 64) (hk : 0 < k)
    (hk' : k ≤ 8) :
    (toInt (subSize size pos) < k ↔ size < pos + k) ↔ Peekable size pos k := by
  rw [toInt_below_iff hk hk']
  unfold Peekable
  by_cases hle : pos ≤ size
  · have hsub : subSize size pos = size - pos := subSize_of_le hle hsize
    have hmod : size - pos < 2147483648 → (size - pos) % 4294967296 = size - pos :=
      fun h => Nat.mod_eq_of_lt (by omega)
    have hle' := Nat.mod_le (size - pos) 4294967296
    rw [hsub]
    generalize (size - pos) % 4294967296 = r at hmod hle' ⊢
    omega
  · have hlt := Nat.lt_of_not_le hle
    have he := Nat.mod_lt (pos - size) (show 4294967296 > 0 by decide)
    have hmod := subSize_mod_of_lt hlt hpos
    generalize (pos - size) % 4294967296 = e at he hmod ⊢
    rw [hmod]
    by_cases he0 : e = 0
    · subst he0
      omega
    · rw [Nat.mod_eq_of_lt (show 4294967296 - e < 4294967296 by omega)]
      omega

theorem run_peekNumber {held : Cursor} (h : Within mem held) (k pos : Nat) :
    (peekNumber mem k pos).run held =
      if toInt (subSize held.size pos) < k then .ok none held
      else if held.size < pos + k then .error .outside held
      else .ok (some (leNat (load mem (held.pos + pos) k))) held := by
  have haccess : (do let w ← access mem ⟨held.pos + pos, k⟩; return some (leNat w) :
      CursorM (Option Nat)).run held =
        if held.size < pos + k then .error .outside held
        else .ok (some (leNat (load mem (held.pos + pos) k))) held := by
    unfold Within at h
    unfold access
    rw [EStateM.run_bind, run_ite]
    by_cases hfew : held.size < pos + k
    · rw [if_neg (by simp only; omega), if_pos hfew]
      rfl
    · rw [if_pos (by simp only; omega), if_neg hfew]
      rfl
  rw [← haccess]
  exact run_get_ite (fun c => toInt (subSize c.size pos) < k) (fun _ => pure none)
    (fun c => do let w ← access mem ⟨c.pos + pos, k⟩; return some (leNat w)) held

section

variable {α : Type} (f : Nat → α)

theorem found_readNumber {held : Cursor} (h : Within mem held) (what : String) (k : Nat) :
    found (f <$> readNumber mem what k) held =
      if held.size < k then none else some (f (leNat (load mem held.pos k))) := by
  have hrun := run_readNumber what h (n := k)
  by_cases hfew : held.size < k
  · rw [if_pos hfew] at hrun ⊢
    exact found_of_error (run_map_of_error hrun f)
  · rw [if_neg hfew] at hrun ⊢
    exact found_of_ok (run_map_of_ok hrun f)

theorem found_number (hmem : mem.length < 2 ^ 64) {held : Cursor} (h : Within mem held)
    (what : String) (k pos : Nat) :
    found (do skip pos; f <$> readNumber mem what k) held =
      if held.size < pos + k then none
      else some (f (leNat (load mem (held.pos + pos) k))) := by
  rw [found_skip]
  by_cases hskip : held.size < pos
  · rw [if_pos hskip, if_pos (by omega)]
  · have hle := Nat.le_of_not_lt hskip
    have hwithin := (shows_forward hmem ⟨h, rfl⟩ hle).1
    have hsub : subSize held.size pos = held.size - pos := by
      unfold Within at h
      exact subSize_of_le hle (by omega)
    rw [hsub] at hwithin ⊢
    rw [if_neg hskip, found_readNumber f hwithin]
    by_cases hfew : held.size < pos + k
    · rw [if_pos hfew, if_pos (show held.size - pos < k by omega)]
    · rw [if_neg hfew, if_neg (show ¬ held.size - pos < k by omega)]

theorem number_agrees_iff (hmem : mem.length < 2 ^ 64) {held : Cursor} (h : Within mem held)
    {pos k : Nat} (hpos : pos < 2 ^ 64) (what : String) (hk : 0 < k) (hk' : k ≤ 8) :
    PeekAgrees (Option.map f <$> peekNumber mem k pos) (f <$> readNumber mem what k) pos held ↔
      Peekable held.size pos k := by
  have hsize : held.size < 2 ^ 64 := by unfold Within at h; omega
  have hnum := run_peekNumber h k pos
  rw [PeekAgrees, found_number f hmem h, ← below_iff hsize hpos hk hk']
  generalize toInt (subSize held.size pos) = d at hnum ⊢
  by_cases hbelow : d < k
  · rw [if_pos hbelow] at hnum
    rw [run_map_of_ok hnum]
    by_cases hfew : held.size < pos + k
    · rw [if_pos hfew]
      exact iff_of_true rfl (iff_of_true hbelow hfew)
    · rw [if_neg hfew]
      exact iff_of_false (nomatch ·) fun hiff => hfew (hiff.mp hbelow)
  · rw [if_neg hbelow] at hnum
    by_cases hfew : held.size < pos + k
    · rw [if_pos hfew] at hnum
      rw [run_map_of_error hnum]
      exact iff_of_false (nomatch ·) fun hiff => hbelow (hiff.mpr hfew)
    · rw [if_neg hfew] at hnum
      rw [run_map_of_ok hnum, if_neg hfew]
      exact iff_of_true rfl (iff_of_false hbelow hfew)

end

/-! ## Varints -/

section

variable (vi : ByteBuffer.Varint)

/-- The varint that comes first. -/
def firstVarint (data : List UInt8) : Option Int64 :=
  if (vi.read data).1 > 0 then some (vi.read data).2 else none

theorem firstVarint_eq_iff (data data' : List UInt8) :
    firstVarint vi data = firstVarint vi data' ↔ SameVarint vi data data' := by
  unfold firstVarint SameVarint
  by_cases h : 0 < (vi.read data).1
  · rw [if_pos h]
    by_cases h' : 0 < (vi.read data').1
    · rw [if_pos h']
      exact ⟨fun heq => ⟨iff_of_true h h', fun _ => Option.some.inj heq⟩,
        fun hsame => congrArg some (hsame.2 h)⟩
    · rw [if_neg h']
      exact iff_of_false (nomatch ·) fun hsame => h' (hsame.1.mp h)
  · rw [if_neg h]
    by_cases h' : 0 < (vi.read data').1
    · rw [if_pos h']
      exact iff_of_false (nomatch ·) fun hsame => h (hsame.1.mpr h')
    · rw [if_neg h']
      exact iff_of_true rfl ⟨iff_of_false h h', fun hpos => absurd hpos h⟩

theorem run_peekVarint {held : Cursor} {data : List UInt8} (h : Shows mem held data) (pos : Nat) :
    (peekVarint mem vi pos).run held = .ok (firstVarint vi data) held := by
  have hhold := holds_front h (Nat.le_refl held.size)
  rw [List.take_of_length_le (Nat.le_of_eq (length_of_shows h))] at hhold
  simp only [peekVarint, EStateM.run_bind, EStateM.run_get, run_access hhold]
  rfl

theorem found_readVarint {held : Cursor} {data : List UInt8} (h : Shows mem held data) :
    found (readVarint mem vi) held = firstVarint vi data := by
  have hrun := run_readVarint vi h
  unfold firstVarint
  by_cases hnone : (vi.read data).1 ≤ 0
  · rw [if_pos hnone] at hrun
    rw [if_neg (by omega), found_of_error hrun]
  · rw [if_neg hnone] at hrun
    rw [if_pos (by omega), found_of_ok hrun]

theorem found_varint (hmem : mem.length < 2 ^ 64) {held : Cursor} {data : List UInt8}
    (h : Shows mem held data) (pos : Nat) :
    found (do skip pos; readVarint mem vi) held =
      if held.size < pos then none else firstVarint vi (data.drop pos) := by
  rw [found_skip]
  by_cases hskip : held.size < pos
  · rw [if_pos hskip, if_pos hskip]
  · rw [if_neg hskip, if_neg hskip]
    exact found_readVarint vi (shows_forward hmem h (Nat.le_of_not_lt hskip))

theorem varint_agrees_iff (hmem : mem.length < 2 ^ 64) {held : Cursor} {data : List UInt8}
    (h : Shows mem held data) (pos : Nat) :
    PeekAgrees (peekVarint mem vi pos) (readVarint mem vi) pos held ↔
      PeekableVarint vi data pos := by
  have hresult : PeekAgrees (peekVarint mem vi pos) (readVarint mem vi) pos held ↔
      firstVarint vi data = if held.size < pos then none else firstVarint vi (data.drop pos) := by
    rw [PeekAgrees, run_peekVarint vi h, found_varint vi hmem h]
    exact ⟨fun heq => by injection heq, fun heq => by rw [← heq]⟩
  have hlen := length_of_shows h
  rw [hresult]
  unfold PeekableVarint
  by_cases hpast : held.size < pos
  · have hnone : firstVarint vi data = none ↔ (vi.read data).1 ≤ 0 := by
      unfold firstVarint
      split
      · exact iff_of_false (nomatch ·) (by omega)
      · exact iff_of_true rfl (by omega)
    rw [if_pos hpast, hnone]
    omega
  · rw [if_neg hpast, firstVarint_eq_iff]
    constructor
    · exact fun hsame => Or.inr (Or.inl ⟨by omega, hsame⟩)
    · rintro (rfl | ⟨-, hsame⟩ | ⟨hlt, -⟩)
      · exact ⟨Iff.rfl, fun _ => rfl⟩
      · exact hsame
      · omega

end

/-! ## The five calls -/

/-- **What is peeked and what is read**: where each `peek` call with a position tells what
`skip` and the read would give. -/
theorem peek_agrees_iff (hmem : mem.length < 2 ^ 64) {held : Cursor} (h : Within mem held)
    {pos : Nat} (hpos : pos < 2 ^ 64) (bo : ByteOrder) (vi : ByteBuffer.Varint) :
    (PeekAgrees (peekUInt8 mem pos) (readByte mem) pos held ↔ Peekable held.size pos 1) ∧
      (PeekAgrees (peekUInt16 mem bo pos) (readUInt16 mem bo) pos held ↔
        Peekable held.size pos 2) ∧
      (PeekAgrees (peekUInt32 mem bo pos) (readUInt32 mem bo) pos held ↔
        Peekable held.size pos 4) ∧
      (PeekAgrees (peekUInt64 mem bo pos) (readUInt64 mem bo) pos held ↔
        Peekable held.size pos 8) ∧
      (PeekAgrees (peekVarint mem vi pos) (readVarint mem vi) pos held ↔
        PeekableVarint vi (mem.drop held.pos) pos) :=
  ⟨number_agrees_iff _ hmem h hpos "read_byte" (by decide) (by decide),
    number_agrees_iff _ hmem h hpos "read_uint16" (by decide) (by decide),
    number_agrees_iff _ hmem h hpos "read_uint32" (by decide) (by decide),
    number_agrees_iff _ hmem h hpos "read_uint64" (by decide) (by decide),
    varint_agrees_iff vi hmem ⟨h, rfl⟩ pos⟩

/-- The second of two bytes. -/
theorem peek_agrees_second :
    (PeekAgrees (peekUInt8 [2, 4] 1) (readByte [2, 4]) 1 (new [2, 4]) ↔ Peekable 2 1 1) ∧
      (PeekAgrees (peekUInt16 [2, 4] .littleEndian 1) (readUInt16 [2, 4] .littleEndian) 1
        (new [2, 4]) ↔ Peekable 2 1 2) ∧
      (PeekAgrees (peekUInt32 [2, 4] .littleEndian 1) (readUInt32 [2, 4] .littleEndian) 1
        (new [2, 4]) ↔ Peekable 2 1 4) ∧
      (PeekAgrees (peekUInt64 [2, 4] .littleEndian 1) (readUInt64 [2, 4] .littleEndian) 1
        (new [2, 4]) ↔ Peekable 2 1 8) ∧
      (PeekAgrees (peekVarint [2, 4] base128 1) (readVarint [2, 4] base128) 1 (new [2, 4]) ↔
        PeekableVarint base128 [2, 4] 1) :=
  peek_agrees_iff (by decide) (shows_new [2, 4]).1 (by decide) .littleEndian base128

/-- `peek_varint` at the second of two varints tells the first one, and `peek_uint8` reads
outside the string where the difference of the sizes wraps to 1. -/
theorem peek_misses :
    ¬ PeekAgrees (peekVarint [2, 4] base128 1) (readVarint [2, 4] base128) 1 (new [2, 4]) ∧
      ¬ PeekAgrees (peekUInt8 [2, 4] 4294967297) (readByte [2, 4]) 4294967297 (new [2, 4]) := by
  constructor
  · rw [varint_agrees_iff base128 (by decide) (shows_new [2, 4])]
    rintro (h | ⟨-, -, h⟩ | ⟨h, -⟩)
    · exact absurd h (by decide)
    · exact absurd (h (by decide)) (by decide)
    · exact absurd h (by decide)
  · have hiff := number_agrees_iff UInt8.ofNat (by decide)
      (show Within [2, 4] (new [2, 4]) from rfl) (show 4294967297 < 2 ^ 64 by decide) "read_byte"
      (show 0 < 1 by decide) (by decide)
    exact fun h => absurd (hiff.mp h) (by decide)

end LinSocketIo.Utils.Cursor
