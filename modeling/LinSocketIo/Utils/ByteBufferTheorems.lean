/-
LinSocketIo.Utils.ByteBufferTheorems — the byte buffer is a byte queue.

`Wf` is what every call keeps: the region has the capacity's length, the
positions are in order inside it, and the capacity is the stack's or whole
blocks. Making room (`reserve_spec`) either gives the room and keeps the
contents or throws and keeps the buffer; every call that grows is that and a
store behind the contents.

* `buffer_refines_queue` — in every run of calls on a buffer, each call is a
  `Queue.Step` on the list of the visible bytes.
-/
import LinSocketIo.Base.Machine
import LinSocketIo.Utils.ByteBuffer

namespace LinSocketIo.Utils.ByteBuffer

open LinSocketIo.Base

/-- What holds of a buffer between two calls. -/
structure Wf (b : ByteBuffer) : Prop where
  mem : b.mem.length = b.cap
  head : b.head ≤ b.tail
  tail : b.tail ≤ b.cap
  pos : 0 < b.cap
  cap : b.cap < 4294967296
  blocks : b.cap = 1024 ∨ b.cap % 4096 = 0
  limit : b.limit < 1073741824

/-! ## Sizes -/

theorem blockedSize_spec (sz : Nat) :
    sz ≤ blockedSize sz ∧ blockedSize sz < sz + 4096 ∧ blockedSize sz % 4096 = 0 := by
  simp only [blockedSize, blockSize, blockBits, Nat.shiftRight_eq_div_pow, Nat.shiftLeft_eq]
  omega

theorem shiftLeft_one {n : Nat} (h : n < 4294967296) : n <<< 1 % 2 ^ 64 = 2 * n := by
  rw [Nat.shiftLeft_eq, Nat.mod_eq_of_lt (by omega)]
  omega

/-- The doubling loop ends, with the first power that is large enough. -/
theorem double_first {sz : Nat} (hsz : sz < 4294967296) (tests n : Nat) (h : sz ≤ n * 2 ^ tests) :
    ∃ k, double sz (tests + 1) n = some (n * 2 ^ k) ∧ sz ≤ n * 2 ^ k ∧
      (k = 0 ∨ n * 2 ^ k < 2 * sz) ∧ ∀ j, sz ≤ n * 2 ^ j → k ≤ j := by
  induction tests generalizing n with
  | zero => exact ⟨0, by simp [double]; omega, by omega, Or.inl rfl, fun j _ => Nat.zero_le j⟩
  | succ tests ih =>
      rw [double]
      by_cases hlt : n < sz
      · have hpow (j : Nat) : n * 2 ^ (j + 1) = 2 * n * 2 ^ j := by
          rw [Nat.pow_succ, Nat.mul_comm _ 2, ← Nat.mul_assoc, Nat.mul_comm n 2]
        rw [if_pos hlt, shiftLeft_one (by omega)]
        obtain ⟨k, hk, hle, hbound, hfirst⟩ := ih (2 * n) (hpow tests ▸ h)
        refine ⟨k + 1, by rw [hpow]; exact hk, by rw [hpow]; exact hle, Or.inr ?_, fun j hj => ?_⟩
        · rw [hpow]
          rcases hbound with rfl | hbound
          · omega
          · exact hbound
        · cases j with
          | zero => omega
          | succ j => exact Nat.succ_le_succ (hfirst j (hpow j ▸ hj))
      · rw [if_neg hlt]
        exact ⟨0, by rw [Nat.pow_zero, Nat.mul_one], by omega, Or.inl rfl, fun j _ => Nat.zero_le j⟩

theorem double_spec {sz : Nat} (hsz : sz < 4294967296) (tests n : Nat) (h : sz ≤ n * 2 ^ tests) :
    ∃ r, double sz (tests + 1) n = some r ∧ sz ≤ r ∧ (r = n ∨ r < 2 * sz) := by
  obtain ⟨k, hk, hle, hbound, -⟩ := double_first hsz tests n h
  refine ⟨_, hk, hle, hbound.imp_left ?_⟩
  rintro rfl
  rw [Nat.pow_zero, Nat.mul_one]

variable {b : ByteBuffer}

theorem length_contents (hb : b.Wf) : b.contents.length = b.size := by
  obtain ⟨hmem, hhead, htail, -⟩ := hb
  rw [contents, length_load]
  unfold size
  omega

@[simp] theorem length_newMem (fresh : Nat → UInt8) (n : Nat) : (newMem fresh n).length = n := by
  simp [newMem]

/-! ## Making room -/

/-- The buffer `b'` has the contents of `b` and room for `n` more bytes. -/
structure Room (b : ByteBuffer) (n : Nat) (b' : ByteBuffer) : Prop where
  wf : b'.Wf
  contents : b'.contents = b.contents
  space : n ≤ b'.space
  limit : b'.limit = b.limit

/-- Moving the contents to a region that holds them. -/
theorem moveTo_room (hb : b.Wf) (fresh : Nat → UInt8) {newCap n : Nat} (hpos : 0 < newCap)
    (hcap : newCap < 4294967296) (hblocks : newCap % 4096 = 0) (hn : b.size + n ≤ newCap) :
    Room b n (b.moveTo fresh newCap) := by
  have hlen := length_contents hb
  have hcap' : toUInt32 newCap = newCap := toUInt32_of_lt hcap
  have hstore : (store (newMem fresh newCap) 0 b.contents).length = newCap := by
    rw [length_store] <;> rw [length_newMem]
    omega
  refine ⟨⟨?_, ?_, ?_, ?_, ?_, ?_, hb.limit⟩, ?_, ?_, rfl⟩
  · simp only [moveTo, hstore, hcap']
  · exact Nat.zero_le _
  · simp only [moveTo, hcap']; omega
  · simp only [moveTo, hcap']; exact hpos
  · simp only [moveTo, hcap']; exact hcap
  · simp only [moveTo, hcap']; exact Or.inr hblocks
  · simp only [ByteBuffer.contents, moveTo, size, Nat.sub_zero]
    have hsame := load_store_same b.contents (Nat.zero_le (newMem fresh newCap).length)
    rw [hlen] at hsame
    exact hsame
  · simp only [space, moveTo, hcap']; omega

/-- Moving the contents down. -/
theorem recycle_room (hb : b.Wf) {n : Nat} (hn : b.size + n ≤ b.cap) :
    ∃ b', (recycle).run b = .ok () b' ∧ Room b n b' := by
  have hlen := length_contents hb
  refine ⟨_, rfl, ⟨?_, Nat.zero_le _, ?_, hb.pos, hb.cap, hb.blocks, hb.limit⟩, ?_, ?_, rfl⟩
  · rw [length_store (by rw [hlen, hb.mem]; omega), hb.mem]
  · simp only; omega
  · simp only [ByteBuffer.contents, size, Nat.sub_zero]
    have hsame := load_store_same b.contents (Nat.zero_le b.mem.length)
    rw [hlen] at hsame
    exact hsame
  · simp only [space]; omega

/-- The new capacity holds what is asked for, unless that is over the limit. -/
theorem allocSize_spec (hb : b.Wf) {sz : Nat} (hcap : b.cap < sz) :
    (∃ newCap, (allocSize sz).run b = .ok newCap b ∧ sz ≤ newCap ∧ newCap < 4294967296 ∧
        newCap % 4096 = 0) ∨
      ((allocSize sz).run b = .error (.resourceLimit "buffer overflow") b ∧ b.limit < sz) := by
  have hlimit := hb.limit
  by_cases hover : sz > b.limit
  · refine Or.inr ⟨?_, hover⟩
    simp only [allocSize, EStateM.run_bind, EStateM.run_get, if_pos hover]
    rfl
  · refine Or.inl ?_
    by_cases hx2 : b.x2 = true
    · obtain ⟨r, hr, hle, hbound⟩ := double_spec (show sz < 4294967296 by omega) 64 b.cap (by
        have := hb.pos
        omega)
      obtain ⟨h1, h2, h3⟩ := blockedSize_spec r
      refine ⟨blockedSize r, ?_, by omega, by omega, h3⟩
      have hr : double sz 65 b.cap = some r := hr
      simp only [allocSize, EStateM.run_bind, EStateM.run_get, if_neg hover, if_pos hx2, hr]
      rfl
    · obtain ⟨h1, h2, h3⟩ := blockedSize_spec sz
      refine ⟨blockedSize sz, ?_, h1, by omega, h3⟩
      simp only [allocSize, EStateM.run_bind, EStateM.run_get, if_neg hover, if_neg hx2]
      rfl

/-- `reserve` makes room and keeps the contents, or throws and keeps the buffer. -/
theorem reserve_spec (hb : b.Wf) (fresh : Nat → UInt8) (n : Nat) :
    (∃ b', (reserve fresh n).run b = .ok b'.tail b' ∧ Room b n b') ∨
      ((reserve fresh n).run b = .error (.resourceLimit "buffer overflow") b ∧
        b.limit < b.size + n) := by
  by_cases hspace : b.space ≥ n
  · refine Or.inl ⟨b, ?_, hb, rfl, hspace, rfl⟩
    simp only [reserve, EStateM.run_bind, EStateM.run_get, if_pos hspace, EStateM.run_pure]
  · have hhead := hb.head
    have htail := hb.tail
    have hreserve : (reserve fresh n).run b =
        ((alloc fresh n).run b).casesOn (fun _ b' => .ok b'.tail b') (fun e b' => .error e b') := by
      simp only [reserve, EStateM.run_bind, EStateM.run_get, if_neg hspace, EStateM.run_pure]
      cases (alloc fresh n).run b <;> rfl
    rw [hreserve]
    by_cases hhole : b.head + b.cap - b.tail ≥ n
    · obtain ⟨b', hr, hroom⟩ := recycle_room hb (n := n) (by unfold size; omega)
      refine Or.inl ⟨b', ?_, hroom⟩
      simp only [alloc, EStateM.run_bind, EStateM.run_get, if_pos hhole, hr]
    · rcases allocSize_spec hb (show b.cap < b.size + n by unfold size; omega) with
        ⟨newCap, hr, hle, hcap, hblocks⟩ | ⟨hr, hover⟩
      · refine Or.inl ⟨b.moveTo fresh newCap, ?_,
          moveTo_room hb fresh (by have := hb.pos; unfold size at hle; omega) hcap hblocks hle⟩
        simp only [alloc, EStateM.run_bind, EStateM.run_get, if_neg hhole, hr, EStateM.run_modify]
      · refine Or.inr ⟨?_, hover⟩
        simp only [alloc, EStateM.run_bind, EStateM.run_get, if_neg hhole, hr]

/-! ## Moving the tail -/

/-- The tail moves up by `m`: the contents gain the bytes it passes. -/
theorem wf_extend (hb : b.Wf) {m : Nat} (hm : m ≤ b.space) :
    { b with tail := b.tail + m }.Wf ∧
      { b with tail := b.tail + m }.contents = b.contents ++ load b.mem b.tail m := by
  have hhead := hb.head
  have htail := hb.tail
  unfold space at hm
  refine ⟨⟨hb.mem, by simp only; omega, by simp only; omega, hb.pos, hb.cap, hb.blocks, hb.limit⟩, ?_⟩
  have hsize : b.tail + m - b.head = b.size + m := by unfold size; omega
  have hpos : b.head + b.size = b.tail := by unfold size; omega
  simp only [contents, size] at hsize hpos ⊢
  rw [hsize, load_add, hpos]

/-- Bytes are copied behind the contents. -/
theorem wf_push (hb : b.Wf) {dat : List UInt8} (hdat : dat.length ≤ b.space) :
    { b with mem := store b.mem b.tail dat, tail := b.tail + dat.length }.Wf ∧
      { b with mem := store b.mem b.tail dat, tail := b.tail + dat.length }.contents
        = b.contents ++ dat := by
  have hhead := hb.head
  have htail := hb.tail
  have hmem := hb.mem
  have hspace := hdat
  unfold space at hspace
  have hstore : { b with mem := store b.mem b.tail dat }.Wf :=
    ⟨by simp only; rw [length_store (by omega), hmem], hhead, htail, hb.pos, hb.cap, hb.blocks,
      hb.limit⟩
  obtain ⟨hwf, hcont⟩ := wf_extend hstore (m := dat.length) hdat
  refine ⟨hwf, hcont.trans ?_⟩
  simp only [contents, size]
  rw [load_store_same dat (by omega), load_store_before (by omega) (by omega)]

/-- The tail moves down. -/
theorem wf_cut (hb : b.Wf) {m : Nat} (hm : m ≤ b.size) :
    { b with tail := b.head + m }.Wf ∧
      { b with tail := b.head + m }.contents = b.contents.take m := by
  have hhead := hb.head
  have htail := hb.tail
  unfold size at hm
  refine ⟨⟨hb.mem, by simp only; omega, by simp only; omega, hb.pos, hb.cap, hb.blocks, hb.limit⟩, ?_⟩
  have hsize : b.head + m - b.head = m := by omega
  simp only [contents, size, hsize]
  rw [take_load _ hm]

/-- The head moves up. -/
theorem wf_drop (hb : b.Wf) {m : Nat} (hm : m ≤ b.size) :
    { b with head := b.head + m }.Wf ∧
      { b with head := b.head + m }.contents = b.contents.drop m := by
  have hhead := hb.head
  unfold size at hm
  refine ⟨⟨hb.mem, by simp only; omega, hb.tail, hb.pos, hb.cap, hb.blocks, hb.limit⟩, ?_⟩
  have hsize : b.tail - (b.head + m) = b.tail - b.head - m := by omega
  simp only [contents, size, hsize, drop_load]

/-- Both positions go back to the start: nothing is left. -/
theorem wf_reset (hb : b.Wf) :
    { b with head := 0, tail := 0 }.Wf ∧ { b with head := 0, tail := 0 }.contents = [] :=
  ⟨⟨hb.mem, Nat.le_refl _, Nat.zero_le _, hb.pos, hb.cap, hb.blocks, hb.limit⟩, by
    simp [contents, size, load]⟩

/-- The high water mark is not part of the contents. -/
theorem wf_markHighWater (hb : b.Wf) :
    b.markHighWater.Wf ∧ b.markHighWater.contents = b.contents :=
  ⟨⟨hb.mem, hb.head, hb.tail, hb.pos, hb.cap, hb.blocks, hb.limit⟩, rfl⟩

/-! ## One call -/

/-- What a call does to a list of bytes, when there are `space` bytes behind it.
Where the call leaves bytes open, some bytes are added. -/
def Effect (space : Nat) (l : List UInt8) : Call → List UInt8 → Prop
  | .write dat, l' => l' = l ++ dat
  | .writeU8 v, l' => l' = l ++ [v]
  | .writeU16 v, l' => l' = l ++ leBytes 2 v.toNat
  | .writeU32 v, l' => l' = l ++ leBytes 4 v.toNat
  | .writeU64 v, l' => l' = l ++ leBytes 8 v.toNat
  | .reserve _, l' => l' = l
  | .forward n, l' => ∃ u : List UInt8, u.length = n ∧ l' = l ++ u
  | .back n, l' => l' = if n ≤ l.length then l.take (l.length - n) else l
  | .advance n, l' => ∃ u : List UInt8, u.length = min n space ∧ l' = l ++ u
  | .resize n, l' => ∃ u : List UInt8, u.length = n - l.length ∧ l' = l.take n ++ u
  | .erase sz, l' => l' = if sz = sizeMax then [] else l.drop (min sz l.length)
  | .compact _, l' => l' = l
  | .gc, l' => l' = l

/-- The requests the buffer is made for. -/
def Fits : Call → Prop
  | .write dat => dat.length < 2147483648
  | .reserve n | .forward n | .back n | .advance n | .resize n => n < 2147483648
  | .compact minCapacity => 0 < minCapacity ∧ minCapacity < 2147483648
  | .writeU8 _ | .writeU16 _ | .writeU32 _ | .writeU64 _ | .erase _ | .gc => True

instance : DecidablePred Fits
  | .write _ | .reserve _ | .forward _ | .back _ | .advance _ | .resize _ =>
    inferInstanceAs (Decidable (_ < _))
  | .compact _ => inferInstanceAs (Decidable (_ ∧ _))
  | .writeU8 _ | .writeU16 _ | .writeU32 _ | .writeU64 _ | .erase _ | .gc => isTrue trivial

/-- A call asks for more than the limit allows behind `size` bytes. Only the calls
that make room can. -/
def Exceeds (limit size : Nat) : Call → Prop
  | .write dat => limit < size + dat.length
  | .writeU8 _ => limit < size + 1
  | .writeU16 _ => limit < size + 2
  | .writeU32 _ => limit < size + 4
  | .writeU64 _ => limit < size + 8
  | .reserve n | .forward n => limit < size + n
  | .resize n => size < n ∧ limit < n
  | .back _ | .advance _ | .erase _ | .compact _ | .gc => False

/-- How a call ends: it returns and has had its effect, or it asked for more than
the limit, throws, and the buffer is as it was. -/
inductive Outcome (b : ByteBuffer) (c : Call) : EStateM.Result Stop ByteBuffer Unit → Prop where
  | ok {b' : ByteBuffer} (wf : b'.Wf) (effect : Effect b.space b.contents c b'.contents)
      (room : ∀ n, c = .reserve n → n ≤ b'.space) (limit : b'.limit = b.limit) :
      Outcome b c (.ok () b')
  | error (hover : Exceeds b.limit b.contents.length c) :
      Outcome b c (.error (.resourceLimit "buffer overflow") b)

theorem outcome_ok {c : Call} {x : BufferM Unit} {b' : ByteBuffer} (h : x.run b = .ok () b')
    (hwf : b'.Wf) (heffect : Effect b.space b.contents c b'.contents)
    (hroom : ∀ n, c = .reserve n → n ≤ b'.space) (hlimit : b'.limit = b.limit) :
    Outcome b c (x.run b) := by
  rw [h]
  exact .ok hwf heffect hroom hlimit

theorem outcome_error {c : Call} {x : BufferM Unit}
    (h : x.run b = .error (.resourceLimit "buffer overflow") b)
    (hover : Exceeds b.limit b.contents.length c) : Outcome b c (x.run b) := by
  rw [h]
  exact .error hover

theorem run_drop_ok {α : Type} {x : BufferM α} {b b' : ByteBuffer} {r : α}
    (h : x.run b = .ok r b') : (drop x).run b = .ok () b' := by
  simp only [drop, EStateM.run_bind, h, EStateM.run_pure]

theorem run_drop_error {α : Type} {x : BufferM α} {b b' : ByteBuffer} {e : Stop}
    (h : x.run b = .error e b') : (drop x).run b = .error e b' := by
  simp only [drop, EStateM.run_bind, h]

/-- Room is reserved, and no more bytes than that are written. -/
theorem push_spec (hb : b.Wf) (fresh : Nat → UInt8) {n : Nat} {dat : List UInt8}
    (hdat : dat.length ≤ n) {x : BufferM Unit}
    (hx : x = (do
      let _ ← reserve fresh n
      modify fun b =>
        { b with mem := store b.mem b.tail dat, tail := b.tail + dat.length }.markHighWater)) :
    (∃ b', x.run b = .ok () b' ∧ b'.Wf ∧ b'.contents = b.contents ++ dat ∧ b'.limit = b.limit) ∨
      (x.run b = .error (.resourceLimit "buffer overflow") b ∧ b.limit < b.size + n) := by
  subst hx
  rcases reserve_spec hb fresh n with ⟨b1, hr, hroom⟩ | ⟨hr, hover⟩
  · obtain ⟨hwf, hcont⟩ := wf_push hroom.wf (Nat.le_trans hdat hroom.space)
    obtain ⟨hwf', hcont'⟩ := wf_markHighWater hwf
    refine Or.inl ⟨_, by simp only [EStateM.run_bind, hr, EStateM.run_modify], hwf', ?_, hroom.limit⟩
    rw [hcont', hcont, hroom.contents]
  · exact Or.inr ⟨by simp only [EStateM.run_bind, hr], hover⟩

/-- The calls that write. -/
theorem append_spec (hb : b.Wf) (fresh : Nat → UInt8) (dat : List UInt8) :
    (∃ b', (append fresh dat).run b = .ok () b' ∧ b'.Wf ∧ b'.contents = b.contents ++ dat ∧
        b'.limit = b.limit) ∨
      ((append fresh dat).run b = .error (.resourceLimit "buffer overflow") b ∧
        b.limit < b.size + dat.length) :=
  push_spec hb fresh (Nat.le_refl _) rfl

/-- The varint calls. -/
theorem appendVarint_spec (hb : b.Wf) (vi : Varint) (fresh : Nat → UInt8) {dat : List UInt8}
    (hdat : dat.length ≤ vi.maxVarintBytes) :
    (∃ b', (appendVarint vi fresh dat).run b = .ok () b' ∧ b'.Wf ∧
        b'.contents = b.contents ++ dat ∧ b'.limit = b.limit) ∨
      ((appendVarint vi fresh dat).run b = .error (.resourceLimit "buffer overflow") b ∧
        b.limit < b.size + vi.maxVarintBytes) :=
  push_spec hb fresh hdat rfl

/-- The end of a call that appends `dat`. -/
theorem outcome_append (hb : b.Wf) (fresh : Nat → UInt8) (dat : List UInt8) {c : Call}
    (heffect : ∀ l', l' = b.contents ++ dat → Effect b.space b.contents c l')
    (hc : ∀ n, c ≠ .reserve n)
    (hover : b.limit < b.contents.length + dat.length → Exceeds b.limit b.contents.length c) :
    Outcome b c ((append fresh dat).run b) := by
  rcases append_spec hb fresh dat with ⟨b', hr, hwf, hcont, hlimit⟩ | ⟨hr, hless⟩
  · exact outcome_ok hr hwf (heffect _ hcont) (fun n h => absurd h (hc n)) hlimit
  · rw [← length_contents hb] at hless
    exact outcome_error hr (hover hless)

theorem outcome_reserve (hb : b.Wf) (fresh : Nat → UInt8) (n : Nat) :
    Outcome b (.reserve n) ((drop (reserve fresh n)).run b) := by
  rcases reserve_spec hb fresh n with ⟨b', hr, hroom⟩ | ⟨hr, hover⟩
  · refine outcome_ok (run_drop_ok hr) hroom.wf hroom.contents (fun m h => ?_) hroom.limit
    cases h
    exact hroom.space
  · rw [← length_contents hb] at hover
    exact outcome_error (run_drop_error hr) hover

theorem outcome_forward (hb : b.Wf) (fresh : Nat → UInt8) (n : Nat) :
    Outcome b (.forward n) ((drop (forward fresh n)).run b) := by
  rcases reserve_spec hb fresh n with ⟨b1, hr, hroom⟩ | ⟨hr, hover⟩
  · obtain ⟨hwf, hcont⟩ := wf_extend hroom.wf hroom.space
    have hforward : (forward fresh n).run b = .ok b1.tail { b1 with tail := b1.tail + n } := by
      simp only [forward, EStateM.run_bind, hr, EStateM.run_modify, EStateM.run_pure]
    refine outcome_ok (run_drop_ok hforward) hwf
      ⟨_, length_load ?_, hcont.trans (by rw [hroom.contents])⟩ (fun m h => by cases h) hroom.limit
    have := hroom.space
    have := hroom.wf.mem
    have := hroom.wf.tail
    unfold space at *
    omega
  · have hforward : (forward fresh n).run b = .error (.resourceLimit "buffer overflow") b := by
      simp only [forward, EStateM.run_bind, hr]
    rw [← length_contents hb] at hover
    exact outcome_error (run_drop_error hforward) hover

theorem outcome_back (hb : b.Wf) (n : Nat) : Outcome b (.back n) ((drop (back n)).run b) := by
  have hlen := length_contents hb
  have hhead := hb.head
  have hback : (back n).run b =
      .ok b.tail (if b.size ≥ n then { b with tail := b.tail - n } else b) := rfl
  by_cases hn : n ≤ b.size
  · rw [if_pos hn] at hback
    obtain ⟨hwf, hcont⟩ := wf_cut hb (Nat.sub_le b.size n)
    have htail : b.head + (b.size - n) = b.tail - n := by unfold size at *; omega
    rw [htail] at hwf hcont
    refine outcome_ok (run_drop_ok hback) hwf ?_ (fun m h => by cases h) rfl
    rw [Effect, hlen, if_pos hn, hcont]
  · rw [if_neg hn] at hback
    refine outcome_ok (run_drop_ok hback) hb ?_ (fun m h => by cases h) rfl
    rw [Effect, hlen, if_neg hn]

theorem outcome_advance (hb : b.Wf) (n : Nat) :
    Outcome b (.advance n) ((drop (advance n)).run b) := by
  have hmem := hb.mem
  have htail := hb.tail
  have hadvance : (advance n).run b =
      .ok b.tail { b with tail := min (b.tail + n) b.cap }.markHighWater := rfl
  obtain ⟨hwf, hcont⟩ := wf_extend hb (Nat.min_le_right n b.space)
  have heq : b.tail + min n b.space = min (b.tail + n) b.cap := by unfold space; omega
  rw [heq] at hwf hcont
  obtain ⟨hwf', hcont'⟩ := wf_markHighWater hwf
  refine outcome_ok (run_drop_ok hadvance) hwf' ⟨_, length_load ?_, hcont'.trans hcont⟩
    (fun m h => by cases h) rfl
  unfold space
  omega

theorem outcome_resize (hb : b.Wf) (fresh : Nat → UInt8) (n : Nat) :
    Outcome b (.resize n) ((resize fresh n).run b) := by
  have hlen := length_contents hb
  by_cases hn : n > b.size
  · rcases reserve_spec hb fresh (n - b.size) with ⟨b1, hr, hroom⟩ | ⟨hr, hover⟩
    · have hresize : (resize fresh n).run b =
          .ok () { b1 with tail := b1.head + n }.markHighWater := by
        simp only [resize, EStateM.run_bind, EStateM.run_get, if_pos hn, hr, EStateM.run_modify]
      obtain ⟨hwf, hcont⟩ := wf_extend hroom.wf hroom.space
      have hsize : b1.size = b.size := by
        rw [← length_contents hroom.wf, hroom.contents, hlen]
      have hhead := hroom.wf.head
      have htail : b1.tail + (n - b.size) = b1.head + n := by unfold size at *; omega
      rw [htail] at hwf hcont
      obtain ⟨hwf', hcont'⟩ := wf_markHighWater hwf
      refine outcome_ok hresize hwf' ⟨load b1.mem b1.tail (n - b.size), ?_, ?_⟩
        (fun m h => by cases h) hroom.limit
      · rw [hlen]
        refine length_load ?_
        have := hroom.space
        have := hroom.wf.mem
        have := hroom.wf.tail
        unfold space at *
        omega
      · rw [hcont', hcont, hroom.contents, List.take_of_length_le (by omega)]
    · have hresize : (resize fresh n).run b = .error (.resourceLimit "buffer overflow") b := by
        simp only [resize, EStateM.run_bind, EStateM.run_get, if_pos hn, hr]
      exact outcome_error hresize ⟨by omega, by omega⟩
  · have hresize : (resize fresh n).run b = .ok () { b with tail := b.head + n }.markHighWater := by
      simp only [resize, EStateM.run_bind, EStateM.run_get, if_neg hn, EStateM.run_modify]
    obtain ⟨hwf, hcont⟩ := wf_cut hb (m := n) (by omega)
    obtain ⟨hwf', hcont'⟩ := wf_markHighWater hwf
    refine outcome_ok hresize hwf' ⟨[], ?_, ?_⟩ (fun m h => by cases h) rfl
    · rw [hlen, List.length_nil]; omega
    · rw [hcont', hcont, List.append_nil]

/-- `erase` always returns. -/
theorem erase_spec (hb : b.Wf) (sz : Nat) :
    ∃ r b', (erase sz).run b = .ok r b' ∧ b'.Wf ∧
      b'.contents = (if sz = sizeMax then [] else b.contents.drop (min sz b.contents.length)) ∧
      b'.limit = b.limit := by
  have hlen := length_contents hb
  obtain ⟨hreset, hempty⟩ := wf_reset hb
  by_cases hall : sz = sizeMax
  · refine ⟨sz, { b with head := 0, tail := 0 }, ?_, hreset, by rw [if_pos hall, hempty], rfl⟩
    simp only [erase, EStateM.run_bind, EStateM.run_get, if_pos hall, EStateM.run_set,
      EStateM.run_pure]
  · have herase : (erase sz).run b = .ok (min b.size sz)
        (if b.head + min b.size sz ≥ b.tail then { b with head := 0, tail := 0 }
          else { b with head := b.head + min b.size sz }) := by
      simp only [erase, EStateM.run_bind, EStateM.run_get, if_neg hall, EStateM.run_set,
        EStateM.run_pure]
    obtain ⟨hwf, hcont⟩ := wf_drop hb (Nat.min_le_left b.size sz)
    by_cases hge : b.head + min b.size sz ≥ b.tail
    · rw [if_pos hge] at herase
      refine ⟨_, _, herase, hreset, ?_, rfl⟩
      rw [if_neg hall, hempty, List.drop_of_length_le (by unfold size at *; omega)]
    · rw [if_neg hge] at herase
      refine ⟨_, _, herase, hwf, ?_, rfl⟩
      rw [if_neg hall, hcont, hlen, Nat.min_comm]

theorem outcome_erase (hb : b.Wf) (sz : Nat) :
    Outcome b (.erase sz) ((drop (erase sz)).run b) := by
  obtain ⟨r, b', hr, hwf, hcont, hlimit⟩ := erase_spec hb sz
  exact outcome_ok (run_drop_ok hr) hwf hcont (fun m h => by cases h) hlimit

/-- `compact` with a positive capacity always returns. -/
theorem compact_spec (hb : b.Wf) (fresh : Nat → UInt8) {minCapacity : Nat}
    (hmin : 0 < minCapacity) :
    ∃ r b', (compact fresh minCapacity).run b = .ok r b' ∧ b'.Wf ∧ b'.contents = b.contents ∧
      b'.limit = b.limit := by
  have hblocks := hb.blocks
  have hcap := hb.cap
  have hhead := hb.head
  have htail := hb.tail
  by_cases hkeep : b.cap ≤ minCapacity ∨ b.cap - b.size ≤ 1024
  · refine ⟨0, b, ?_, hb, rfl, rfl⟩
    simp only [compact, EStateM.run_bind, EStateM.run_get]
    rcases hkeep with hkeep | hkeep
    · rw [if_pos hkeep]; rfl
    · rw [if_pos hkeep]; split <;> rfl
  · obtain ⟨hmore, hfree⟩ := not_or.mp hkeep
    obtain ⟨h1, h2, h3⟩ := blockedSize_spec (max b.size minCapacity)
    have hle : blockedSize (max b.size minCapacity) ≤ b.cap := by unfold size at *; omega
    have hroom := moveTo_room hb fresh (n := 0)
      (show 0 < blockedSize (max b.size minCapacity) by omega) (by omega) h3 (by omega)
    simp only [compact, EStateM.run_bind, EStateM.run_get, if_neg hmore, if_neg hfree,
      EStateM.run_set, EStateM.run_pure]
    refine ⟨_, _, rfl, ?_, hroom.contents, hroom.limit⟩
    exact ⟨hroom.wf.mem, hroom.wf.head, hroom.wf.tail, hroom.wf.pos, hroom.wf.cap,
      hroom.wf.blocks, hroom.wf.limit⟩

theorem outcome_compact (hb : b.Wf) (fresh : Nat → UInt8) {minCapacity : Nat}
    (hmin : 0 < minCapacity) :
    Outcome b (.compact minCapacity) ((drop (compact fresh minCapacity)).run b) := by
  obtain ⟨r, b', hr, hwf, hcont, hlimit⟩ := compact_spec hb fresh hmin
  exact outcome_ok (run_drop_ok hr) hwf hcont (fun m h => by cases h) hlimit

/-- `gc` either keeps everything or is a `compact` with a positive capacity. -/
theorem gc_cases (b : ByteBuffer) (fresh : Nat → UInt8) :
    (gc fresh).run b = .ok 0 b ∨
      ∃ gcsize, 0 < gcsize ∧ (gc fresh).run b = (compact fresh (b.size + gcsize)).run b := by
  have hgc : ∀ gcsize, gcsize = subUInt32 b.cap b.highWaterMark / 2 → (gc fresh).run b =
      (if toInt gcsize < 1024 then pure 0 else compact fresh (b.size + gcsize)).run b := by
    intro gcsize hsize
    rw [gc, EStateM.run_bind, EStateM.run_get]
    subst hsize
    rfl
  generalize subUInt32 b.cap b.highWaterMark / 2 = gcsize at hgc
  rw [hgc gcsize rfl]
  by_cases hsmall : toInt gcsize < 1024
  · rw [if_pos hsmall]
    exact Or.inl rfl
  · rw [if_neg hsmall]
    refine Or.inr ⟨gcsize, Nat.pos_of_ne_zero ?_, rfl⟩
    rintro rfl
    rw [toInt_of_range (by decide) (by decide)] at hsmall
    exact absurd (by decide) hsmall

theorem gc_spec (hb : b.Wf) (fresh : Nat → UInt8) :
    ∃ r b', (gc fresh).run b = .ok r b' ∧ b'.Wf ∧ b'.contents = b.contents ∧
      b'.limit = b.limit := by
  rcases gc_cases b fresh with hkept | ⟨gcsize, hpos, hcompact⟩
  · exact ⟨0, b, hkept, hb, rfl, rfl⟩
  · rw [hcompact]
    exact compact_spec hb fresh (by omega)

theorem outcome_gc (hb : b.Wf) (fresh : Nat → UInt8) : Outcome b .gc ((drop (gc fresh)).run b) := by
  obtain ⟨r, b', hr, hwf, hcont, hlimit⟩ := gc_spec hb fresh
  exact outcome_ok (run_drop_ok hr) hwf hcont (fun m h => by cases h) hlimit

/-- Every call of the size the buffer is made for ends as it should. -/
theorem exec_spec (hb : b.Wf) (fresh : Nat → UInt8) (c : Call) (hfit : Fits c) :
    Outcome b c ((c.exec fresh).run b) := by
  cases c with
  | write dat =>
      have h := outcome_append hb fresh dat (c := .write dat) (fun l' h => h)
        (fun n h => by cases h) id
      have hwrite : (drop (write fresh dat)).run b = (append fresh dat).run b := by
        simp only [drop, write, EStateM.run_bind, EStateM.run_pure]
        cases (append fresh dat).run b <;> rfl
      rw [Call.exec, hwrite]
      exact h
  | writeU8 v => exact outcome_append hb fresh _ (fun l' h => h) (fun n h => by cases h) id
  | writeU16 v =>
      refine outcome_append hb fresh _ (fun l' h => h) (fun n h => by cases h) fun h => ?_
      rwa [length_leBytes] at h
  | writeU32 v =>
      refine outcome_append hb fresh _ (fun l' h => h) (fun n h => by cases h) fun h => ?_
      rwa [length_leBytes] at h
  | writeU64 v =>
      refine outcome_append hb fresh _ (fun l' h => h) (fun n h => by cases h) fun h => ?_
      rwa [length_leBytes] at h
  | reserve n => exact outcome_reserve hb fresh n
  | forward n => exact outcome_forward hb fresh n
  | back n => exact outcome_back hb n
  | advance n => exact outcome_advance hb n
  | resize n => exact outcome_resize hb fresh n
  | erase sz => exact outcome_erase hb sz
  | compact minCapacity => exact outcome_compact hb fresh hfit.1
  | gc => exact outcome_gc hb fresh

/-! ## Runs -/

/-- A buffer, and how the last call on it ended. -/
structure Session where
  buf : ByteBuffer
  stopped : Option Stop

/-- A new buffer with a limit, under calls. Each call comes with the bytes of the
memory it is given, if it asks for memory. -/
def session (grow2x : Bool) (stackbuff : Nat → UInt8) (limit : Nat) :
    Machine Session (Call × (Nat → UInt8)) where
  init := ⟨(new grow2x stackbuff).setLimit limit, none⟩
  step s c := some <|
    match (c.1.exec c.2).run s.buf with
    | .ok _ b => ⟨b, none⟩
    | .error e b => ⟨b, some e⟩

/-- A byte queue: its bytes, the room it offers behind them, the size up to which
it grows, and how the last call ended. -/
structure Queue where
  bytes : List UInt8
  space : Nat
  limit : Nat
  stopped : Option Stop

/-- A call on a byte queue. A call that asks for more than the limit may throw and
leaves everything alone then, every other call returns. The room behind the bytes is
open, except that `reserve` gives what it was asked for. -/
def Queue.Step (q : Queue) (c : Call × (Nat → UInt8)) (q' : Queue) : Prop :=
  q'.limit = q.limit ∧
    match q'.stopped with
    | none => Effect q.space q.bytes c.1 q'.bytes ∧ ∀ n, c.1 = .reserve n → n ≤ q'.space
    | some (.resourceLimit _) =>
      Exceeds q.limit q.bytes.length c.1 ∧ q'.bytes = q.bytes ∧ q'.space = q.space
    | some .hangs => False

/-- What a session shows. -/
def Session.queue (s : Session) : Queue := ⟨s.buf.contents, s.buf.space, s.buf.limit, s.stopped⟩

theorem wf_new (grow2x : Bool) (stackbuff : Nat → UInt8) : (new grow2x stackbuff).Wf where
  mem := by simp only [new, length_newMem]
  head := Nat.le_refl 0
  tail := Nat.zero_le 1024
  pos := Nat.succ_pos 1023
  cap := show 1024 < 4294967296 by decide
  blocks := Or.inl rfl
  limit := show 64 * 1024 * 1024 < 1073741824 by decide

@[simp] theorem contents_new (grow2x : Bool) (stackbuff : Nat → UInt8) :
    (new grow2x stackbuff).contents = [] := by
  simp only [contents, new, size, load, Nat.sub_self, List.take_zero]

theorem wf_setLimit (hb : b.Wf) {n : Nat} (hn : toUInt32 (max n b.size) < 1073741824) :
    (b.setLimit n).Wf := by
  unfold setLimit
  exact ⟨hb.mem, hb.head, hb.tail, hb.pos, hb.cap, hb.blocks, hn⟩

theorem wf_new_setLimit (grow2x : Bool) (stackbuff : Nat → UInt8) {limit : Nat}
    (hlimit : limit < 1073741824) : ((new grow2x stackbuff).setLimit limit).Wf := by
  refine wf_setLimit (wf_new grow2x stackbuff) ?_
  have hmax : max limit 0 = limit := Nat.max_zero limit
  have hfits : toUInt32 limit = limit := toUInt32_of_lt (by omega)
  show toUInt32 (max limit 0) < 1073741824
  rw [hmax, hfits]
  exact hlimit

/-- A call on a session is a call on its queue. -/
theorem session_step {s : Session} (hb : s.buf.Wf) (c : Call × (Nat → UInt8)) (hfit : Fits c.1)
    {grow2x : Bool} {stackbuff : Nat → UInt8} {limit : Nat} {s' : Session}
    (hstep : (session grow2x stackbuff limit).step s c = some s') :
    s.queue.Step c s'.queue ∧ s'.buf.Wf := by
  have hspec := exec_spec hb c.2 c.1 hfit
  have hs' := (Option.some.inj hstep).symm
  generalize (c.1.exec c.2).run s.buf = r at hspec hs'
  cases hspec with
  | ok hwf heffect hroom hlimit => subst hs'; exact ⟨⟨hlimit, heffect, hroom⟩, hwf⟩
  | error hover => subst hs'; exact ⟨⟨rfl, hover, rfl, rfl⟩, hb⟩

/-- **The buffer refines a byte queue**: a new buffer shows an empty queue with its
limit, and in every run of calls of the size the buffer is made for, each call is a
call of the byte queue that the buffer shows; it throws only if it asks for more than
the limit. -/
theorem buffer_refines_queue (grow2x : Bool) (stackbuff : Nat → UInt8) (limit : Nat)
    (hlimit : limit < 1073741824) (calls : List (Call × (Nat → UInt8)))
    (hfit : ∀ c ∈ calls, Fits c.1) :
    (session grow2x stackbuff limit).init.queue = ⟨[], 1024, limit, none⟩ ∧
      (session grow2x stackbuff limit).AllSteps
        (fun s c => ∃ s', (session grow2x stackbuff limit).step s c = some s' ∧
          s.queue.Step c s'.queue)
        (session grow2x stackbuff limit).init calls := by
  refine ⟨?_, ?_⟩
  · simp only [session, Session.queue, setLimit, new, contents, space, size, Nat.sub_self,
      Nat.sub_zero, load, List.take_zero, Nat.max_zero, toUInt32_of_lt (show limit < 4294967296 by omega)]
  · have hwf : (session grow2x stackbuff limit).init.buf.Wf := wf_new_setLimit grow2x stackbuff hlimit
    generalize (session grow2x stackbuff limit).init = s0 at hwf ⊢
    exact (session grow2x stackbuff limit).allSteps_of_invariant (P := fun s => s.buf.Wf)
      (fun s c s' hb hc hstep => (session_step hb c hc hstep).2)
      (fun s c hb hc => by
        obtain ⟨s', hs'⟩ : ∃ s', (session grow2x stackbuff limit).step s c = some s' := ⟨_, rfl⟩
        exact ⟨s', hs', (session_step hb c hc hs').1⟩)
      calls hwf (Machine.allSteps_of_forall _ hfit _)

/-- A buffer with linear growth is written, read from, grown over the hole and given
back. -/
def growth : List (Call × (Nat → UInt8)) :=
  [(.write [1, 2, 3], fun _ => 7), (.erase 1, fun _ => 7), (.reserve 5000, fun _ => 9),
    (.writeU16 513, fun _ => 9), (.back 1, fun _ => 9), (.resize 2, fun _ => 9),
    (.compact 16, fun _ => 9)]

/-- All of these calls return. -/
theorem buffer_refines_queue_growth :
    ((session false (fun _ => 0) 67108864).init.queue = ⟨[], 1024, 67108864, none⟩ ∧
      (session false (fun _ => 0) 67108864).AllSteps
        (fun s c => ∃ s', (session false (fun _ => 0) 67108864).step s c = some s' ∧
          s.queue.Step c s'.queue)
        (session false (fun _ => 0) 67108864).init growth) ∧
      ((List.range 8).map fun n =>
        ((session false (fun _ => 0) 67108864).run (session false (fun _ => 0) 67108864).init
          (growth.take n)).map fun s => (s.queue.bytes, s.queue.stopped)) =
        [some ([], none), some ([1, 2, 3], none), some ([2, 3], none), some ([2, 3], none),
          some ([2, 3, 1, 2], none), some ([2, 3, 1], none), some ([2, 3], none),
          some ([2, 3], none)] :=
  ⟨buffer_refines_queue false (fun _ => 0) 67108864 (by decide) growth (by simp [Fits, growth]),
    by decide +kernel⟩

end LinSocketIo.Utils.ByteBuffer
