/-
LinSocketIo.Utils.BufferArith — the positions and the capacity of a byte buffer
under all its calls.

Two steps go wrong. `compact(0)` on an empty buffer rounds to no blocks at all,
and the doubling of a capacity of 0 never ends. And `limit(n)` keeps `size()` as
the limit where that is more, so that the limit can pass 2^30; a capacity that is
then doubled can pass the `uint32_t` it is kept in.

* `reserve_arith` — room is made just where some doubling is below 2^32.
* `step_sound_iff` — the steps that are sound.
* `arithmetic_sound_iff` — the runs that are.

Modelling notes. To the calls of `ByteBuffer` come `limit(n)` and those of
`varint.h`, of which `Measured` is assumed.
-/
import LinSocketIo.Utils.BufferLimit
import LinSocketIo.Utils.SerializerItems

namespace LinSocketIo.Utils.ByteBuffer

open LinSocketIo.Base

/-- `read_varint`. -/
def readVarint (vi : Varint) : BufferM (Bool × Int64) := do
  let b ← get
  let r := vi.read b.contents
  if r.1 > 0 then
    set { b with head := b.head + r.1.toNat }
    return (true, r.2)
  else return (false, r.2)

/-- What is assumed of `varint.h`: the writers stay within the room reserved for them, and the
reader within what it is given. -/
structure Varint.Measured (vi : Varint) : Prop where
  room : vi.maxVarintBytes < 2147483648
  fits32 : ∀ v, (vi.writeU32 v).length ≤ vi.maxVarintBytes
  fits64 : ∀ v, (vi.writeU64 v).length ≤ vi.maxVarintBytes
  read : ∀ data, (vi.read data).1 ≤ data.length

/-- A public operation. -/
inductive Op where
  | call (c : Call)
  | limit (n : Nat)
  | writeVarint32 (value : Int32)
  | writeVarint (value : Int64)
  | readVarint

/-- Make a call and drop what it returns. -/
def Op.exec (vi : Varint) (fresh : Nat → UInt8) : Op → BufferM Unit
  | .call c => c.exec fresh
  | .limit n => modify fun b => b.setLimit n
  | .writeVarint32 value => ByteBuffer.writeVarint32 vi fresh value
  | .writeVarint value => ByteBuffer.writeVarint vi fresh value
  | .readVarint => drop (ByteBuffer.readVarint vi)

/-- The requests are below 2^31, and the limits below 2^30. -/
def Op.Small : Op → Prop
  | .call (.write dat) => dat.length < 2147483648
  | .call (.reserve n) | .call (.forward n) | .call (.advance n) | .call (.resize n) =>
    n < 2147483648
  | .limit n => n < 0x40000000
  | _ => True

/-- A buffer under all its operations, from the constructor on. -/
def operated (vi : Varint) (grow2x : Bool) (stackbuff : Nat → UInt8) :
    Machine Session (Op × (Nat → UInt8)) where
  init := ⟨new grow2x stackbuff, none⟩
  step s o := some <|
    match (o.1.exec vi o.2).run s.buf with
    | .ok _ b => ⟨b, none⟩
    | .error e b => ⟨b, some e⟩

/-! ## What is asked of a step -/

/-- The positions are in order, the capacity is the stack's or whole blocks, and the high-water
mark is within it. -/
structure Sized (b : ByteBuffer) : Prop where
  head : b.head ≤ b.tail
  tail : b.tail ≤ b.cap
  cap : b.cap < 4294967296
  blocks : b.cap = 1024 ∨ 0 < b.cap ∧ b.cap % 4096 = 0
  highWater : b.highWaterMark ≤ b.cap

/-- The number of bytes that an operation reserves. -/
def Op.request (vi : Varint) (b : ByteBuffer) : Op → Nat
  | .call (.write dat) => dat.length
  | .call (.writeU8 _) => 1
  | .call (.writeU16 _) => 2
  | .call (.writeU32 _) => 4
  | .call (.writeU64 _) => 8
  | .call (.reserve n) | .call (.forward n) => n
  | .call (.resize n) => n - b.size
  | .writeVarint32 _ | .writeVarint _ => vi.maxVarintBytes
  | _ => 0

/-- The subtractions of `compact` do not underflow. -/
def CompactSubtracts (b : ByteBuffer) (minCapacity : Nat) : Prop :=
  b.size ≤ b.cap ∧ (minCapacity < b.cap → 1024 < b.cap - b.size →
    blockedSize (max b.size minCapacity) ≤ b.cap)

/-- Nor do those of `gc`, and of the `compact` in it. -/
def Op.Subtracts (b : ByteBuffer) : Op → Prop
  | .call (.compact minCapacity) => CompactSubtracts b minCapacity
  | .call .gc => b.highWaterMark ≤ b.cap ∧
      CompactSubtracts b (b.size + (b.cap - b.highWaterMark) / 2)
  | _ => True

/-- A step from `b` to `s'`: the sizes are in order, the doubling has ended, the assertions at
the end of `alloc` hold, and nothing underflows. -/
structure StepSound (vi : Varint) (b : ByteBuffer) (o : Op × (Nat → UInt8)) (s' : Session) :
    Prop where
  sized : s'.buf.Sized
  ends : s'.stopped ≠ some .hangs
  asserts : ∀ p b', (reserve o.2 (o.1.request vi b)).run b = .ok p b' →
    o.1.request vi b ≤ b'.space
  subtracts : o.1.Subtracts b

/-- The region must grow for `n` more bytes, and may. -/
def Grows (b : ByteBuffer) (n : Nat) : Prop := b.cap < b.size + n ∧ b.size + n ≤ b.limit

/-- Where the capacity is doubled, some doubling holds the bytes and is a `uint32_t`. -/
def Doubles (b : ByteBuffer) (n : Nat) : Prop :=
  b.x2 = true → ∃ k, b.size + n ≤ b.cap * 2 ^ k ∧ b.cap * 2 ^ k < 4294967296

/-- Nothing is kept, and less than the buffer has. -/
def Op.Empties (b : ByteBuffer) : Op → Prop
  | .call (.compact minCapacity) => minCapacity = 0 ∧ b.size = 0 ∧ 1024 < b.cap
  | _ => False

/-- The operations that neither leave a buffer without capacity nor need one of 2^32. -/
def Op.Bounded (vi : Varint) (b : ByteBuffer) (o : Op) : Prop :=
  ¬ o.Empties b ∧ (Grows b (o.request vi b) → Doubles b (o.request vi b))

variable {b : ByteBuffer}

/-! ## The doubling -/

/-- Rounding a doubled capacity to blocks does not take it to 2^32. -/
theorem blockedSize_double_lt {cap : Nat} (hblocks : cap = 1024 ∨ 0 < cap ∧ cap % 4096 = 0)
    (k : Nat) : blockedSize (cap * 2 ^ k) < 4294967296 ↔ cap * 2 ^ k < 4294967296 := by
  obtain ⟨h1, h2, -⟩ := blockedSize_spec (cap * 2 ^ k)
  refine ⟨fun h => Nat.lt_of_le_of_lt h1 h, fun h => ?_⟩
  rcases hblocks with rfl | ⟨-, hmod⟩
  · have hpow : 2 ^ k < 2 ^ 22 := by omega
    have hk : k ≤ 21 := Nat.le_of_lt_succ ((Nat.pow_lt_pow_iff_right (by decide)).mp hpow)
    have hle : 2 ^ k ≤ 2 ^ 21 := Nat.pow_le_pow_right (by decide) hk
    omega
  · have hdvd : 4096 ∣ cap * 2 ^ k := Nat.dvd_mul_right_of_dvd (Nat.dvd_of_mod_eq_zero hmod) _
    omega

/-! ## Room -/

/-- What holds between two calls. The limit is bounded by the sizes that it has seen. -/
structure Inv (b : ByteBuffer) : Prop where
  sized : b.Sized
  limit : b.limit ≤ 4294963200

/-- The buffer `b'` has the size of `b` and room for `n` more bytes. -/
structure Ready (b : ByteBuffer) (n : Nat) (b' : ByteBuffer) : Prop where
  inv : b'.Inv
  size : b'.size = b.size
  space : n ≤ b'.space

theorem Sized.cap_le (hb : b.Sized) : b.cap ≤ 4294963200 := by
  have hcap := hb.cap
  rcases hb.blocks with h | ⟨-, h⟩ <;> omega

theorem Sized.size_le (hb : b.Sized) : b.size ≤ b.cap := by
  have hhead := hb.head
  have htail := hb.tail
  unfold ByteBuffer.size
  omega

/-- The new capacity is whole blocks, and below 2^32 just where some doubling is. -/
theorem allocSize_arith (hb : b.Inv) {n : Nat} (hcap : b.cap < b.size + n) :
    wp (allocSize (b.size + n)) b
      (fun newCap b' => b' = b ∧ b.size + n ≤ b.limit ∧ b.size + n ≤ newCap ∧ newCap % 4096 = 0 ∧
        newCap < 2 * (b.size + n) + 4096 ∧ (newCap < 4294967296 ↔ Doubles b n))
      (fun e b' => b' = b ∧ e ≠ .hangs ∧ ¬ Grows b n) := by
  have hlimit := hb.limit
  have hpos : 0 < b.cap := by
    rcases hb.sized.blocks with h | ⟨h, -⟩ <;> omega
  simp only [allocSize, wp_bind, wp_get, wp_ite, wp_throw]
  refine ⟨fun hover => ⟨trivial, by simp, fun h => absurd h.2 (by omega)⟩, fun hwithin => ?_⟩
  refine ⟨fun hx2 => ?_, fun hx2 => ?_⟩
  · obtain ⟨k, hk, hle, hbound, hfirst⟩ :=
      double_first (show b.size + n < 4294967296 by omega) 64 b.cap (by omega)
    have hk : double (b.size + n) 65 b.cap = some (b.cap * 2 ^ k) := hk
    obtain ⟨h1, h2, h3⟩ := blockedSize_spec (b.cap * 2 ^ k)
    simp only [hk]
    refine ⟨rfl, by omega, by omega, h3, ?_, ?_⟩
    · rcases hbound with rfl | hbound <;> omega
    · rw [blockedSize_double_lt hb.sized.blocks]
      constructor
      · exact fun h _ => ⟨k, hle, h⟩
      · intro h
        obtain ⟨j, hj, hjlt⟩ := h hx2
        exact Nat.lt_of_le_of_lt
          (Nat.mul_le_mul_left _ (Nat.pow_le_pow_right (by decide) (hfirst j hj))) hjlt
  · obtain ⟨h1, h2, h3⟩ := blockedSize_spec (b.size + n)
    refine ⟨rfl, by omega, h1, h3, by omega, iff_of_true ?_ fun h => absurd h hx2⟩
    omega

/-- As long as the limit is below 2^31, some doubling is a `uint32_t`. -/
theorem doubles_of_limit (hb : b.Inv) (hlimit : b.limit < 2147483648) {n : Nat}
    (hgrows : Grows b n) : Doubles b n := by
  have hpos : 0 < b.cap := by
    rcases hb.sized.blocks with h | ⟨h, -⟩ <;> omega
  have hsz := hgrows.2
  obtain ⟨k, -, hle, hbound, -⟩ :=
    double_first (show b.size + n < 4294967296 by omega) 64 b.cap (by omega)
  have hcap := hb.sized.cap
  refine fun _ => ⟨k, hle, ?_⟩
  rcases hbound with rfl | hbound <;> omega

theorem moveTo_ready (hb : b.Inv) (fresh : Nat → UInt8) {newCap n : Nat}
    (hlt : newCap < 4294967296) (hblocks : newCap % 4096 = 0) (hn : b.size + n ≤ newCap)
    (hcap : b.cap < newCap) : Ready b n (b.moveTo fresh newCap) := by
  have hcap' : toUInt32 newCap = newCap := toUInt32_of_lt hlt
  have hhigh := hb.sized.highWater
  refine ⟨⟨⟨Nat.zero_le _, ?_, ?_, ?_, ?_⟩, hb.limit⟩, rfl, ?_⟩
  · simp only [moveTo, hcap']; omega
  · simp only [moveTo, hcap']; exact hlt
  · simp only [moveTo, hcap']; exact Or.inr ⟨by omega, hblocks⟩
  · simp only [moveTo, hcap']; omega
  · simp only [space, moveTo, hcap']; omega

/-- `reserve` makes room where some doubling is below 2^32, and not enough where none is. -/
theorem reserve_arith (hb : b.Inv) (fresh : Nat → UInt8) (n : Nat) :
    wp (reserve fresh n) b
      (fun _ b' => ((Grows b n → Doubles b n) → Ready b n b') ∧
        (Grows b n → ¬ Doubles b n → b'.space < n))
      (fun e b' => b' = b ∧ e ≠ .hangs ∧ ¬ Grows b n) := by
  have hhead := hb.sized.head
  have htail := hb.sized.tail
  have hlimit := hb.limit
  simp only [reserve, alloc, recycle, wp_bind, wp_get, wp_ite, wp_pure, wp_modify]
  refine ⟨fun hspace => ⟨fun _ => ⟨hb, rfl, hspace⟩, fun hgrows => ?_⟩, fun hspace =>
    ⟨fun hhole => ⟨fun _ => ?_, fun hgrows => ?_⟩, fun hhole => ?_⟩⟩
  · have h := hgrows.1
    unfold space size at *
    omega
  · refine ⟨⟨⟨Nat.zero_le _, ?_, hb.sized.cap, hb.sized.blocks, hb.sized.highWater⟩, hlimit⟩,
      rfl, ?_⟩
    · simp only [size]; omega
    · simp only [space, size]; omega
  · have h := hgrows.1
    unfold size at h
    omega
  · refine wp_mono (allocSize_arith hb (n := n) (by unfold size; omega)) ?_ fun _ _ h => h
    rintro newCap b' ⟨rfl, hwithin, hn, hblocks, hbound, hiff⟩
    have hgrows : Grows b' n := ⟨by unfold size; omega, hwithin⟩
    refine ⟨fun h => ?_, fun _ h => ?_⟩
    · exact moveTo_ready hb fresh (hiff.mpr (h hgrows)) hblocks hn (by have := hgrows.1; omega)
    · have hlarge := Nat.not_lt.mp (mt hiff.mp h)
      simp only [space, moveTo, toUInt32]
      omega

/-! ## One operation -/

theorem Inv.markHighWater (hb : b.Inv) : b.markHighWater.Inv := by
  have hsize := hb.sized.size_le
  have hhigh := hb.sized.highWater
  refine ⟨⟨hb.sized.head, hb.sized.tail, hb.sized.cap, hb.sized.blocks, ?_⟩, hb.limit⟩
  exact Nat.le_trans (Nat.mod_le _ _) (Nat.max_le.mpr ⟨hhigh, hsize⟩)

/-- The positions move within the same region. -/
theorem Inv.move (hb : b.Inv) (mem : List UInt8) {head tail : Nat} (hhead : head ≤ tail)
    (htail : tail ≤ b.cap) : Inv { b with mem := mem, head := head, tail := tail } :=
  ⟨⟨hhead, htail, hb.sized.cap, hb.sized.blocks, hb.sized.highWater⟩, hb.limit⟩

/-- The tail moves into the room. -/
theorem Ready.extend {n k : Nat} {b' : ByteBuffer} (h : Ready b n b') (hk : k ≤ n)
    (mem : List UInt8) : Inv { b' with mem := mem, tail := b'.tail + k } := by
  have hhead := h.inv.sized.head
  have hspace := h.space
  have htail := h.inv.sized.tail
  unfold ByteBuffer.space at hspace
  exact h.inv.move mem (by omega) (by omega)

/-- A call that reserves `n` bytes and goes on with them. -/
theorem reserve_then {n : Nat} (hb : b.Inv) (fresh : Nat → UInt8) {f : ByteBuffer → ByteBuffer}
    (hf : ∀ b', Ready b n b' → (f b').Inv) :
    wp (reserve fresh n) b (fun _ b' => (Grows b n → Doubles b n) → (f b').Inv)
      (fun e b' => b' = b ∧ e ≠ .hangs) :=
  wp_mono (reserve_arith hb fresh n) (fun _ b' h hdoubles => hf b' (h.1 hdoubles))
    fun _ _ h => ⟨h.1, h.2.1⟩

theorem append_arith (hb : b.Inv) (fresh : Nat → UInt8) (dat : List UInt8) :
    wp (append fresh dat) b (fun _ b' => (Grows b dat.length → Doubles b dat.length) → b'.Inv)
      (fun e b' => b' = b ∧ e ≠ .hangs) := by
  simp only [append, wp_bind, wp_modify]
  exact reserve_then hb fresh fun b' h => (h.extend (Nat.le_refl _) _).markHighWater

theorem appendVarint_arith {vi : Varint} {dat : List UInt8} (hdat : dat.length ≤ vi.maxVarintBytes)
    (hb : b.Inv) (fresh : Nat → UInt8) :
    wp (appendVarint vi fresh dat) b
      (fun _ b' => (Grows b vi.maxVarintBytes → Doubles b vi.maxVarintBytes) → b'.Inv)
      (fun e b' => b' = b ∧ e ≠ .hangs) := by
  simp only [appendVarint, wp_bind, wp_modify]
  exact reserve_then hb fresh fun b' h => (h.extend hdat _).markHighWater

theorem forward_arith (hb : b.Inv) (fresh : Nat → UInt8) (n : Nat) :
    wp (forward fresh n) b (fun _ b' => (Grows b n → Doubles b n) → b'.Inv)
      (fun e b' => b' = b ∧ e ≠ .hangs) := by
  simp only [forward, wp_bind, wp_modify, wp_pure]
  exact reserve_then hb fresh fun b' h => h.extend (Nat.le_refl n) b'.mem

theorem resize_arith (hb : b.Inv) (fresh : Nat → UInt8) (n : Nat) :
    wp (resize fresh n) b
      (fun _ b' => (Grows b (n - b.size) → Doubles b (n - b.size)) → b'.Inv)
      (fun e b' => b' = b ∧ e ≠ .hangs) := by
  have hhead := hb.sized.head
  have htail := hb.sized.tail
  simp only [resize, wp_bind, wp_get, wp_ite, wp_modify]
  refine ⟨fun hn => reserve_then hb fresh fun b' h => Inv.markHighWater ?_, fun hn _ =>
    Inv.markHighWater ?_⟩
  · have hsize := h.size
    have hspace := h.space
    have hhead' := h.inv.sized.head
    have htail' := h.inv.sized.tail
    unfold size space at *
    exact h.inv.move b'.mem (by omega) (by omega)
  · unfold size at hn
    exact hb.move b.mem (by omega) (by omega)

theorem back_arith (hb : b.Inv) (n : Nat) :
    wp (back n) b (fun _ b' => b'.Inv) (fun _ _ => False) := by
  have hhead := hb.sized.head
  have htail := hb.sized.tail
  show Inv (if b.size ≥ n then { b with tail := b.tail - n } else b)
  by_cases hn : b.size ≥ n
  · rw [if_pos hn]
    unfold size at hn
    exact hb.move b.mem (by omega) (by omega)
  · rw [if_neg hn]
    exact hb

theorem advance_arith (hb : b.Inv) (n : Nat) :
    wp (advance n) b (fun _ b' => b'.Inv) (fun _ _ => False) := by
  have hhead := hb.sized.head
  have htail := hb.sized.tail
  exact (hb.move b.mem (by omega) (Nat.min_le_right (b.tail + n) b.cap)).markHighWater

theorem erase_arith (hb : b.Inv) (sz : Nat) :
    wp (erase sz) b (fun _ b' => b'.Inv) (fun _ _ => False) := by
  have hhead := hb.sized.head
  have htail := hb.sized.tail
  have hreset := hb.move b.mem (Nat.le_refl 0) (Nat.zero_le _)
  simp only [erase, wp_bind, wp_get, wp_ite, wp_set, wp_pure]
  refine ⟨fun _ => hreset, fun _ => ?_⟩
  by_cases hge : b.head + min b.size sz ≥ b.tail
  · rw [if_pos hge]
    exact hreset
  · rw [if_neg hge]
    exact hb.move b.mem (by omega) htail

theorem setLimit_inv (hb : b.Inv) {n : Nat} (hn : n < 0x40000000) : (b.setLimit n).Inv := by
  have hsize := hb.sized.size_le
  have hcap := hb.sized.cap_le
  refine ⟨⟨hb.sized.head, hb.sized.tail, hb.sized.cap, hb.sized.blocks, hb.sized.highWater⟩, ?_⟩
  exact Nat.le_trans (Nat.mod_le _ _) (by omega)

theorem readVarint_arith {vi : Varint} (hvi : vi.Measured) (hb : b.Inv) :
    wp (readVarint vi) b (fun _ b' => b'.Inv) (fun _ _ => False) := by
  have hhead := hb.sized.head
  have htail := hb.sized.tail
  have hread := hvi.read b.contents
  have hlen : b.contents.length ≤ b.size := List.length_take_le _ _
  simp only [readVarint, wp_bind, wp_get, wp_ite, wp_set, wp_pure]
  refine ⟨fun _ => hb.move b.mem ?_ htail, fun _ => hb⟩
  unfold size at hlen
  omega

theorem compact_subtracts (hb : b.Sized) (minCapacity : Nat) :
    CompactSubtracts b minCapacity := by
  obtain ⟨h1, h2, h3⟩ := blockedSize_spec (max b.size minCapacity)
  have hblocks := hb.blocks
  have hsize := hb.size_le
  refine ⟨hsize, fun hmin hfree => ?_⟩
  rcases hblocks with h | ⟨-, h⟩ <;> omega

theorem compact_arith (hb : b.Inv) (fresh : Nat → UInt8) (minCapacity : Nat) :
    wp (compact fresh minCapacity) b
      (fun _ b' => ¬ (minCapacity = 0 ∧ b.size = 0 ∧ 1024 < b.cap) → b'.Inv)
      (fun _ _ => False) := by
  have hcap := hb.sized.cap
  simp only [compact, wp_bind, wp_get, wp_ite, wp_set, wp_pure]
  refine ⟨fun _ _ => hb, fun hmore => ⟨fun _ _ => hb, fun hfree hnonempty => ?_⟩⟩
  obtain ⟨h1, h2, h3⟩ := blockedSize_spec (max b.size minCapacity)
  have hle := (compact_subtracts hb.sized minCapacity).2 (by omega) (by omega)
  have hnew : toUInt32 (blockedSize (max b.size minCapacity)) =
      blockedSize (max b.size minCapacity) := toUInt32_of_lt (by omega)
  have hmark : toUInt32 b.size ≤ b.size := Nat.mod_le _ _
  refine ⟨⟨Nat.zero_le _, ?_, ?_, ?_, ?_⟩, hb.limit⟩
  · simp only [moveTo, hnew]; omega
  · simp only [moveTo, hnew]; omega
  · simp only [moveTo, hnew]; exact Or.inr ⟨by omega, h3⟩
  · simp only [moveTo, hnew]; omega

theorem gc_arith (hb : b.Inv) (fresh : Nat → UInt8) :
    wp (gc fresh) b (fun _ b' => b'.Inv) (fun _ _ => False) := by
  rcases gc_cases b fresh with hnone | ⟨gcsize, hpos, hcompact⟩
  · exact wp_of_run_eq (y := pure 0) hnone hb
  · refine wp_of_run_eq hcompact ?_
    refine wp_mono (compact_arith hb fresh (b.size + gcsize)) (fun _ b' h => h ?_) fun _ _ h => h
    rintro ⟨hzero, -, -⟩
    omega

theorem wp_drop {α : Type} {x : BufferM α} {Q : ByteBuffer → Prop} {E : Stop → ByteBuffer → Prop}
    (h : wp x b (fun _ b' => Q b') E) : wp (drop x) b (fun _ b' => Q b') E := by
  simp only [drop, wp_bind, wp_pure]
  exact h

/-- What an operation does to the sizes. -/
theorem exec_arith {vi : Varint} (hvi : vi.Measured) (hb : b.Inv) (fresh : Nat → UInt8) {o : Op}
    (hsmall : o.Small) :
    wp (o.exec vi fresh) b (fun _ b' => o.Bounded vi b → b'.Inv)
      (fun e b' => b' = b ∧ e ≠ .hangs) := by
  have hkept {x : BufferM Unit} (h : wp x b (fun _ b' => b'.Inv) (fun _ _ => False)) :
      wp x b (fun _ b' => o.Bounded vi b → b'.Inv) (fun e b' => b' = b ∧ e ≠ .hangs) :=
    wp_mono h (fun _ _ h _ => h) fun _ _ h => h.elim
  have hroom {x : BufferM Unit} (h : wp x b (fun _ b' =>
      (Grows b (o.request vi b) → Doubles b (o.request vi b)) → b'.Inv)
      (fun e b' => b' = b ∧ e ≠ .hangs)) :
      wp x b (fun _ b' => o.Bounded vi b → b'.Inv) (fun e b' => b' = b ∧ e ≠ .hangs) :=
    wp_mono h (fun _ _ h hbounded => h hbounded.2) fun _ _ h => h
  have hwritten (n : Nat) {dat : List UInt8} (hn : dat.length = n) :
      wp (append fresh dat) b (fun _ b' => (Grows b n → Doubles b n) → b'.Inv)
        (fun e b' => b' = b ∧ e ≠ .hangs) := hn ▸ append_arith hb fresh dat
  cases o with
  | limit n => exact hkept (setLimit_inv hb hsmall)
  | writeVarint32 value => exact hroom (appendVarint_arith (hvi.fits32 _) hb fresh)
  | writeVarint value => exact hroom (appendVarint_arith (hvi.fits64 _) hb fresh)
  | readVarint => exact hkept (wp_drop (readVarint_arith hvi hb))
  | call c =>
      cases c with
      | write dat =>
          refine hroom (wp_drop ?_)
          simp only [write, wp_bind, wp_pure]
          exact append_arith hb fresh dat
      | writeU8 v => exact hroom (hwritten 1 rfl)
      | writeU16 v => exact hroom (hwritten 2 (length_leBytes _ _))
      | writeU32 v => exact hroom (hwritten 4 (length_leBytes _ _))
      | writeU64 v => exact hroom (hwritten 8 (length_leBytes _ _))
      | reserve n => exact hroom (wp_drop (reserve_then hb fresh fun _ h => h.inv))
      | forward n => exact hroom (wp_drop (forward_arith hb fresh n))
      | back n => exact hkept (wp_drop (back_arith hb n))
      | advance n => exact hkept (wp_drop (advance_arith hb n))
      | resize n => exact hroom (resize_arith hb fresh n)
      | erase sz => exact hkept (wp_drop (erase_arith hb sz))
      | compact minCapacity =>
          refine wp_drop (wp_mono (compact_arith hb fresh minCapacity) (fun _ b' h hbounded => ?_)
            fun _ _ h => h.elim)
          exact h hbounded.1
      | gc => exact hkept (wp_drop (gc_arith hb fresh))

theorem op_subtracts (hb : b.Sized) (o : Op) : o.Subtracts b := by
  unfold Op.Subtracts
  split
  · exact compact_subtracts hb _
  · exact ⟨hb.highWater, compact_subtracts hb _⟩
  · trivial

/-- `compact(0)` on an empty buffer. -/
theorem compact_zero (fresh : Nat → UInt8) (hsize : b.size = 0) (hcap : 1024 < b.cap) :
    wp (compact fresh 0) b (fun _ b' => b'.cap = 0) (fun _ _ => False) := by
  simp only [compact, wp_bind, wp_get, wp_ite, wp_set, wp_pure]
  refine ⟨fun h => absurd h (by omega), fun _ => ⟨fun h => absurd h (by omega), fun _ => ?_⟩⟩
  simp only [moveTo, hsize]
  rfl

/-! ## Runs -/

section

variable {vi : Varint} {grow2x : Bool} {stackbuff : Nat → UInt8} {s s' : Session}
  {o : Op × (Nat → UInt8)}

/-- What holds of the result of a step, from what holds of the call. -/
theorem operated_step {Q : ByteBuffer → Prop} {E : Stop → ByteBuffer → Prop}
    (h : wp (o.1.exec vi o.2) s.buf (fun _ b' => Q b') E)
    (hstep : (operated vi grow2x stackbuff).step s o = some s') :
    (s'.stopped = none ∧ Q s'.buf) ∨ ∃ e, s'.stopped = some e ∧ E e s'.buf := by
  have hs' := (Option.some.inj hstep).symm
  unfold wp at h
  cases hrun : (o.1.exec vi o.2).run s.buf with
  | ok r b' =>
      rw [hrun] at h hs'
      subst hs'
      exact Or.inl ⟨rfl, h⟩
  | error e b' =>
      rw [hrun] at h hs'
      subst hs'
      exact Or.inr ⟨e, rfl, h⟩

theorem step_inv (hvi : vi.Measured) (hb : s.buf.Inv) (hsmall : o.1.Small)
    (hbounded : o.1.Bounded vi s.buf)
    (hstep : (operated vi grow2x stackbuff).step s o = some s') :
    s'.buf.Inv ∧ s'.stopped ≠ some .hangs := by
  rcases operated_step (exec_arith hvi hb o.2 hsmall) hstep with ⟨hstop, hinv⟩ | ⟨e, hstop, hbuf, he⟩
  · exact ⟨hinv hbounded, by rw [hstop]; exact fun h => nomatch h⟩
  · exact ⟨hbuf ▸ hb, by rw [hstop]; exact fun h => he (Option.some.inj h)⟩

/-- The sound steps are the bounded ones. -/
theorem step_sound_iff (hvi : vi.Measured) (hb : s.buf.Inv) (hsmall : o.1.Small)
    (hstep : (operated vi grow2x stackbuff).step s o = some s') :
    StepSound vi s.buf o s' ↔ o.1.Bounded vi s.buf := by
  have hreserve := reserve_arith hb o.2 (o.1.request vi s.buf)
  unfold wp at hreserve
  constructor
  · intro hsound
    refine ⟨fun hempties => ?_, fun hgrows => Classical.byContradiction fun hdoubles => ?_⟩
    · -- The new capacity is no block.
      obtain ⟨o, fresh⟩ := o
      match o, hempties with
      | .call (.compact 0), ⟨_, hsize, hcap⟩ =>
          have hexec : wp ((Op.call (.compact 0)).exec vi fresh) s.buf (fun _ b' => b'.cap = 0)
              (fun _ _ => False) := wp_drop (compact_zero fresh hsize hcap)
          rcases operated_step hexec hstep with ⟨-, hzero⟩ | ⟨_, -, h⟩
          · have hblocks := hsound.sized.blocks
            omega
          · exact h
    · -- There is not the room that is asserted.
      cases hrun : (reserve o.2 (o.1.request vi s.buf)).run s.buf with
      | ok p b' =>
          rw [hrun] at hreserve
          exact absurd (hreserve.2 hgrows hdoubles) (Nat.not_lt.mpr (hsound.asserts p b' hrun))
      | error e b' =>
          rw [hrun] at hreserve
          exact hreserve.2.2 hgrows
  · intro hbounded
    obtain ⟨hinv, hends⟩ := step_inv hvi hb hsmall hbounded hstep
    refine ⟨hinv.sized, hends, fun p b' hrun => ?_, op_subtracts hb.sized o.1⟩
    rw [hrun] at hreserve
    exact (hreserve.1 hbounded.2).space

end

theorem inv_new (grow2x : Bool) (stackbuff : Nat → UInt8) : (new grow2x stackbuff).Inv :=
  ⟨⟨Nat.le_refl 0, Nat.zero_le 1024, show 1024 < 4294967296 by decide, Or.inl rfl,
    Nat.zero_le 1024⟩, show 64 * 1024 * 1024 ≤ 4294963200 by decide⟩

/-- The runs whose steps are all sound are those without a `compact(0)` of an empty buffer that
has more than its first 1024 bytes, and without a growth that no doubling below 2^32 serves. -/
theorem arithmetic_sound_iff {vi : Varint} (hvi : vi.Measured) (grow2x : Bool)
    (stackbuff : Nat → UInt8) {ops : List (Op × (Nat → UInt8))} (hops : ∀ o ∈ ops, o.1.Small) :
    (new grow2x stackbuff).Sized ∧
      ((operated vi grow2x stackbuff).AllSteps
          (fun s o => ∀ s', (operated vi grow2x stackbuff).step s o = some s' →
            StepSound vi s.buf o s') (operated vi grow2x stackbuff).init ops ↔
        (operated vi grow2x stackbuff).AllSteps (fun s o => o.1.Bounded vi s.buf)
          (operated vi grow2x stackbuff).init ops) := by
  refine ⟨(inv_new grow2x stackbuff).sized, ?_⟩
  have hiff (s : Session) (o : Op × (Nat → UInt8)) (hb : s.buf.Inv) (hsmall : o.1.Small) :
      (∀ s', (operated vi grow2x stackbuff).step s o = some s' → StepSound vi s.buf o s') ↔
        o.1.Bounded vi s.buf := by
    obtain ⟨t, ht⟩ : ∃ t, (operated vi grow2x stackbuff).step s o = some t := ⟨_, rfl⟩
    constructor
    · exact fun h => (step_sound_iff hvi hb hsmall ht).mp (h t ht)
    · exact fun h s' hs' => (step_sound_iff hvi hb hsmall hs').mpr h
  refine (operated vi grow2x stackbuff).allSteps_iff_of_guarded (C := fun _ o => o.1.Small)
    (P := fun s => s.buf.Inv) hiff (fun s o s' hb hsmall hsound hstep => ?_) ops
    (inv_new grow2x stackbuff) (Machine.allSteps_of_forall _ hops _)
  exact (step_inv hvi hb hsmall ((hiff s o hb hsmall).mp hsound) hstep).1

theorem base128_measured : Varint.Measured base128 where
  room := show 10 < 2147483648 by decide
  fits32 _ := (Base128.length_encode 9 _).2
  fits64 _ := (Base128.length_encode 9 _).2
  read data := by
    simp only [base128]
    cases hdecode : Base128.decode data with
    | none => exact Int.natCast_nonneg _
    | some p => exact Int.ofNat_le.mpr (Base128.decode_le hdecode)

/-- A buffer that has grown and been emptied has no capacity left after `compact(0)`, and the next
byte is doubled for without end. -/
theorem compact_zero_hangs : ∃ s s',
    (operated base128 true fun _ => 0).run (operated base128 true fun _ => 0).init
        [(.call (.reserve 1025), fun _ => 0), (.call (.compact 0), fun _ => 0)] = some s ∧
      s.buf.cap = 0 ∧ ¬ s.buf.Sized ∧
      (operated base128 true fun _ => 0).step s (.call (.reserve 1), fun _ => 0) = some s' ∧
      s'.stopped = some .hangs :=
  ⟨_, _, rfl, rfl, fun h => absurd h.blocks (by decide), rfl, rfl⟩

/-- A buffer that grows, is written, read and given back. -/
theorem arithmetic_sound_growth : (new false fun _ => 0).Sized ∧
    ((operated base128 false fun _ => 0).AllSteps
        (fun s o => ∀ s', (operated base128 false fun _ => 0).step s o = some s' →
          StepSound base128 s.buf o s') (operated base128 false fun _ => 0).init
        [(.limit 10000, fun _ => 0), (.call (.reserve 5000), fun _ => 7),
          (.writeVarint 300, fun _ => 0), (.readVarint, fun _ => 0),
          (.call (.compact 1), fun _ => 9)] ↔
      (operated base128 false fun _ => 0).AllSteps (fun s o => o.1.Bounded base128 s.buf)
        (operated base128 false fun _ => 0).init
        [(.limit 10000, fun _ => 0), (.call (.reserve 5000), fun _ => 7),
          (.writeVarint 300, fun _ => 0), (.readVarint, fun _ => 0),
          (.call (.compact 1), fun _ => 9)]) :=
  arithmetic_sound_iff base128_measured false (fun _ => 0) (by simp [Op.Small])

end LinSocketIo.Utils.ByteBuffer
