/-
LinSocketIo.Utils.BufferLimit — what the limit of a byte buffer bounds.

`alloc_size` compares a request with the limit when the region must grow, and
nothing compares it elsewhere: the first 1024 bytes, the doubling and the
rounding to whole blocks all give room that later calls use up unasked. So a
call that adds bytes respects the limit where the sizes already do, or where
the capacity is too small and the limit is asked (`Checked`).

Only sizes matter here, so `Sound` says less of a buffer than `Wf`: `compact`
may leave a buffer without capacity.

* `limit_enforced_iff` — the runs in which the limit is respected.
-/
import LinSocketIo.Base.Wp
import LinSocketIo.Utils.ByteBufferTheorems

namespace LinSocketIo.Utils.ByteBuffer

open LinSocketIo.Base

/-- The sizes of a buffer are in order. -/
structure Sound (b : ByteBuffer) : Prop where
  head : b.head ≤ b.tail
  tail : b.tail ≤ b.cap
  cap : b.cap < 4294967296
  blocks : b.cap = 1024 ∨ b.cap % 4096 = 0
  limit : b.limit < 1073741824

theorem Wf.sound {b : ByteBuffer} (hb : b.Wf) : b.Sound :=
  ⟨hb.head, hb.tail, hb.cap, hb.blocks, hb.limit⟩

/-- The capacity is too small for `n` more bytes, and the limit is. -/
def Over (b : ByteBuffer) (n : Nat) : Prop := b.limit < b.size + n ∧ b.cap < b.size + n

instance (b : ByteBuffer) (n : Nat) : Decidable (b.Over n) := inferInstanceAs (Decidable (_ ∧ _))

/-- What is thrown where there is no room: the exception if `n` more bytes are over, and else
the doubling does not end. -/
def Refused (b : ByteBuffer) (n : Nat) (e : Stop) : Prop :=
  (e = .resourceLimit "buffer overflow" ∧ b.Over n) ∨ (e = .hangs ∧ ¬ b.Over n)

/-- The buffer `b'` has the size of `b` and room for `n` more bytes. -/
structure Roomy (b : ByteBuffer) (n : Nat) (b' : ByteBuffer) : Prop where
  sound : b'.Sound
  size : b'.size = b.size
  space : n ≤ b'.space
  limit : b'.limit = b.limit
  room : ¬ b.Over n

variable {b : ByteBuffer}

/-! ## Room -/

theorem le_of_double {sz : Nat} (hsz : sz < 4294967296) (tests n r : Nat)
    (h : double sz tests n = some r) : sz ≤ r ∧ (r = n ∨ r < 2 * sz) := by
  induction tests generalizing n with
  | zero => simp [double] at h
  | succ tests ih =>
      rw [double] at h
      by_cases hlt : n < sz
      · rw [if_pos hlt, shiftLeft_one (by omega)] at h
        obtain ⟨hle, hbound⟩ := ih (2 * n) h
        exact ⟨hle, Or.inr (by omega)⟩
      · rw [if_neg hlt] at h
        cases h
        exact ⟨Nat.le_of_not_lt hlt, Or.inl rfl⟩

/-- The contents move to a larger region. -/
theorem moveTo_roomy (hb : b.Sound) (fresh : Nat → UInt8) {newCap n : Nat}
    (hcap : newCap < 4294967296) (hblocks : newCap % 4096 = 0) (hn : b.size + n ≤ newCap)
    (hroom : ¬ b.Over n) : Roomy b n (b.moveTo fresh newCap) := by
  have hcap' : toUInt32 newCap = newCap := toUInt32_of_lt hcap
  have hlimit := hb.limit
  refine ⟨⟨Nat.zero_le _, ?_, ?_, ?_, hlimit⟩, rfl, ?_, rfl, hroom⟩
  · simp only [moveTo, hcap']; omega
  · simp only [moveTo, hcap']; exact hcap
  · simp only [moveTo, hcap']; exact Or.inr hblocks
  · simp only [space, moveTo, hcap']; omega

theorem allocSize_sizes (hb : b.Sound) {n : Nat} (hcap : b.cap < b.size + n) :
    wp (allocSize (b.size + n)) b
      (fun newCap b' => b' = b ∧ b.size + n ≤ newCap ∧ newCap < 4294967296 ∧ newCap % 4096 = 0 ∧
        ¬ b.Over n)
      (fun e b' => b' = b ∧ Refused b n e) := by
  have hlimit := hb.limit
  simp only [allocSize, wp_bind, wp_get, wp_ite, wp_throw]
  refine ⟨fun hover => ⟨trivial, Or.inl ⟨rfl, hover, hcap⟩⟩, fun hwithin => ?_⟩
  have hroom : ¬ b.Over n := fun h => hwithin h.1
  refine ⟨fun _ => ?_, fun _ => ?_⟩
  · cases hdouble : double (b.size + n) 65 b.cap with
    | none => exact ⟨rfl, Or.inr ⟨rfl, hroom⟩⟩
    | some r =>
        obtain ⟨hle, hbound⟩ := le_of_double (by omega) 65 b.cap r hdouble
        obtain ⟨h1, h2, h3⟩ := blockedSize_spec r
        exact ⟨rfl, by omega, by omega, h3, hroom⟩
  · obtain ⟨h1, h2, h3⟩ := blockedSize_spec (b.size + n)
    exact ⟨rfl, h1, by omega, h3, hroom⟩

/-- `reserve` gives room and keeps the size, or it refuses and keeps the buffer. -/
theorem reserve_sizes (hb : b.Sound) (fresh : Nat → UInt8) (n : Nat) :
    wp (reserve fresh n) b (fun _ b' => Roomy b n b') (fun e b' => b' = b ∧ Refused b n e) := by
  have hhead := hb.head
  have htail := hb.tail
  have hcap := hb.cap
  simp only [reserve, alloc, recycle, wp_bind, wp_get, wp_ite, wp_pure, wp_modify]
  refine ⟨fun hspace => ⟨hb, rfl, hspace, rfl, fun hover => ?_⟩, fun hspace =>
    ⟨fun hhole => ?_, fun hhole => ?_⟩⟩
  · have := hover.2
    unfold space size at *
    omega
  · refine ⟨⟨Nat.zero_le _, ?_, hcap, hb.blocks, hb.limit⟩, rfl, ?_, rfl, fun hover => ?_⟩
    · simp only [size]; omega
    · simp only [space, size]; omega
    · have := hover.2
      unfold size at this
      omega
  · refine wp_mono (allocSize_sizes hb (n := n) (by unfold size; omega)) ?_ fun _ _ h => h
    rintro newCap b' ⟨rfl, hn, hlt, hblocks, hroom⟩
    exact moveTo_roomy hb fresh hlt hblocks hn hroom

/-! ## One call -/

/-- The number of bytes that a call adds where it returns. -/
def Call.growth (b : ByteBuffer) : Call → Nat
  | .write dat => dat.length
  | .writeU8 _ => 1
  | .writeU16 _ => 2
  | .writeU32 _ => 4
  | .writeU64 _ => 8
  | .forward n => n
  | .advance n => min n b.space
  | .resize n => n - b.size
  | .reserve _ | .back _ | .erase _ | .compact _ | .gc => 0

/-- The buffer `b'` is `b` with `n` bytes more, or with fewer bytes where `n` is 0. -/
structure Added (b : ByteBuffer) (n : Nat) (b' : ByteBuffer) : Prop where
  sound : b'.Sound
  size : b'.size = b.size + n ∨ n = 0 ∧ b'.size ≤ b.size
  limit : b'.limit = b.limit
  room : 0 < n → ¬ b.Over n

/-- A call that adds `n` bytes ends so. -/
abbrev Adds (b : ByteBuffer) (n : Nat) {α : Type} (x : BufferM α) : Prop :=
  wp x b (fun _ b' => Added b n b') (fun e b' => b' = b ∧ (0 < n → Refused b n e))

theorem adds_drop {α : Type} {x : BufferM α} {n : Nat} (h : Adds b n x) : Adds b n (drop x) := by
  simp only [Adds, drop, wp_bind, wp_pure]
  exact h

/-- The tail moves over the bytes that are added. -/
theorem added_of_roomy {n : Nat} {b' : ByteBuffer} (h : Roomy b n b') {b'' : ByteBuffer}
    (hhead : b''.head = b'.head) (htail : b''.tail = b'.tail + n) (hcap : b''.cap = b'.cap)
    (hlimit : b''.limit = b'.limit) : Added b n b'' := by
  obtain ⟨⟨hh, ht, hc, hb, hl⟩, hsize, hspace, hlim, hroom⟩ := h
  unfold space at hspace
  refine ⟨⟨by omega, by omega, by omega, by rw [hcap]; exact hb, by omega⟩, Or.inl ?_, by omega,
    fun _ => hroom⟩
  unfold size at *
  omega

/-- A buffer of the same capacity with no more bytes than before. -/
theorem added_zero (hb : b.Sound) {b' : ByteBuffer} (hhead : b'.head ≤ b'.tail)
    (htail : b'.tail ≤ b'.cap) (hcap : b'.cap = b.cap) (hlimit : b'.limit = b.limit)
    (hsize : b'.size ≤ b.size) : Added b 0 b' :=
  ⟨⟨hhead, htail, by rw [hcap]; exact hb.cap, by rw [hcap]; exact hb.blocks,
    by rw [hlimit]; exact hb.limit⟩, Or.inr ⟨rfl, hsize⟩, hlimit, fun h => absurd h (by decide)⟩

theorem adds_append (hb : b.Sound) (fresh : Nat → UInt8) (dat : List UInt8) :
    Adds b dat.length (append fresh dat) := by
  simp only [Adds, append, wp_bind, wp_modify]
  exact wp_mono (reserve_sizes hb fresh dat.length)
    (fun _ b' h => added_of_roomy h rfl rfl rfl rfl) fun _ _ h => ⟨h.1, fun _ => h.2⟩

theorem adds_forward (hb : b.Sound) (fresh : Nat → UInt8) (n : Nat) :
    Adds b n (forward fresh n) := by
  simp only [Adds, forward, wp_bind, wp_modify, wp_pure]
  exact wp_mono (reserve_sizes hb fresh n)
    (fun _ b' h => added_of_roomy h rfl rfl rfl rfl) fun _ _ h => ⟨h.1, fun _ => h.2⟩

theorem adds_reserve (hb : b.Sound) (fresh : Nat → UInt8) (n : Nat) :
    Adds b 0 (reserve fresh n) :=
  wp_mono (reserve_sizes hb fresh n)
    (fun _ b' h => ⟨h.sound, Or.inl h.size, h.limit, fun h => absurd h (by decide)⟩)
    fun _ _ h => ⟨h.1, fun h => absurd h (by decide)⟩

theorem adds_back (hb : b.Sound) (n : Nat) : Adds b 0 (back n) := by
  have hhead := hb.head
  have htail := hb.tail
  show Added b 0 (if b.size ≥ n then { b with tail := b.tail - n } else b)
  by_cases hn : b.size ≥ n
  · rw [if_pos hn]
    unfold size at hn
    exact added_zero hb (by simp only; omega) (by simp only; omega) rfl rfl
      (by simp only [size]; omega)
  · rw [if_neg hn]
    exact added_zero hb hhead htail rfl rfl (Nat.le_refl _)

theorem adds_advance (hb : b.Sound) (n : Nat) : Adds b (min n b.space) (advance n) := by
  have hhead := hb.head
  have htail := hb.tail
  have hmin : min (b.tail + n) b.cap = b.tail + min n b.space := by unfold space; omega
  show Added b (min n b.space) { b with tail := min (b.tail + n) b.cap }.markHighWater
  rw [hmin]
  refine ⟨⟨by simp only [markHighWater]; omega, ?_, hb.cap, hb.blocks, hb.limit⟩, Or.inl ?_, rfl, ?_⟩
  · simp only [markHighWater, space]; omega
  · simp only [markHighWater, size, space]; omega
  · intro _ hover
    have := hover.2
    unfold size space at this
    omega

theorem adds_resize (hb : b.Sound) (fresh : Nat → UInt8) (n : Nat) :
    Adds b (n - b.size) (resize fresh n) := by
  have hhead := hb.head
  have htail := hb.tail
  simp only [Adds, resize, wp_bind, wp_get, wp_ite, wp_modify]
  refine ⟨fun hn => ?_, fun hn => ?_⟩
  · refine wp_mono (reserve_sizes hb fresh (n - b.size)) (fun _ b' h => ?_)
      fun _ _ h => ⟨h.1, fun _ => h.2⟩
    have hsize := h.size
    have hhead' := h.sound.head
    refine added_of_roomy h rfl ?_ rfl rfl
    simp only [markHighWater]
    unfold size at *
    omega
  · have hzero : n - b.size = 0 := by omega
    rw [hzero]
    unfold size at hn
    exact added_zero hb (by simp only [markHighWater]; omega) (by simp only [markHighWater]; omega)
      rfl rfl (by simp only [markHighWater, size]; omega)

theorem adds_erase (hb : b.Sound) (sz : Nat) : Adds b 0 (erase sz) := by
  have hhead := hb.head
  have htail := hb.tail
  have hreset : Added b 0 { b with head := 0, tail := 0 } :=
    added_zero hb (Nat.le_refl _) (Nat.zero_le _) rfl rfl (by simp only [size]; omega)
  simp only [Adds, erase, wp_bind, wp_get, wp_ite, wp_set, wp_pure]
  refine ⟨fun _ => hreset, fun _ => ?_⟩
  by_cases hge : b.head + min b.size sz ≥ b.tail
  · rw [if_pos hge]
    exact hreset
  · rw [if_neg hge]
    exact added_zero hb (by simp only; omega) htail rfl rfl (by simp only [size]; omega)

theorem adds_compact (hb : b.Sound) (fresh : Nat → UInt8) (minCapacity : Nat) :
    Adds b 0 (compact fresh minCapacity) := by
  have hhead := hb.head
  have htail := hb.tail
  have hcap := hb.cap
  have hkept : Added b 0 b := added_zero hb hhead htail rfl rfl (Nat.le_refl _)
  simp only [Adds, compact, wp_bind, wp_get, wp_ite, wp_set, wp_pure]
  refine ⟨fun _ => hkept, fun hmore => ⟨fun _ => hkept, fun hfree => ?_⟩⟩
  obtain ⟨h1, h2, h3⟩ := blockedSize_spec (max b.size minCapacity)
  have hblocks := hb.blocks
  have hle : blockedSize (max b.size minCapacity) ≤ b.cap := by unfold size at *; omega
  have hcap' : toUInt32 (blockedSize (max b.size minCapacity)) = blockedSize (max b.size minCapacity) :=
    toUInt32_of_lt (by omega)
  refine ⟨⟨Nat.zero_le _, ?_, ?_, ?_, hb.limit⟩, Or.inl rfl, rfl, fun h => absurd h (by decide)⟩
  · simp only [moveTo, hcap']; omega
  · simp only [moveTo, hcap']; omega
  · simp only [moveTo, hcap']; exact Or.inr h3

theorem adds_gc (hb : b.Sound) (fresh : Nat → UInt8) : Adds b 0 (gc fresh) := by
  have hkept : Added b 0 b := added_zero hb hb.head hb.tail rfl rfl (Nat.le_refl _)
  rcases gc_cases b fresh with hnone | ⟨gcsize, -, hcompact⟩
  · exact wp_of_run_eq (y := pure 0) hnone hkept
  · exact wp_of_run_eq hcompact (adds_compact hb fresh (b.size + gcsize))

/-- What a call does to the sizes. -/
theorem exec_adds (hb : b.Sound) (fresh : Nat → UInt8) (c : Call) :
    Adds b (c.growth b) (c.exec fresh) := by
  cases c with
  | write dat =>
      refine adds_drop ?_
      simp only [Adds, write, wp_bind, wp_pure]
      exact adds_append hb fresh dat
  | writeU8 v => exact adds_append hb fresh [v]
  | writeU16 v =>
      have h := adds_append hb fresh (leBytes 2 v.toNat)
      rwa [length_leBytes] at h
  | writeU32 v =>
      have h := adds_append hb fresh (leBytes 4 v.toNat)
      rwa [length_leBytes] at h
  | writeU64 v =>
      have h := adds_append hb fresh (leBytes 8 v.toNat)
      rwa [length_leBytes] at h
  | reserve n => exact adds_drop (adds_reserve hb fresh n)
  | forward n => exact adds_drop (adds_forward hb fresh n)
  | back n => exact adds_drop (adds_back hb n)
  | advance n => exact adds_drop (adds_advance hb n)
  | resize n => exact adds_resize hb fresh n
  | erase sz => exact adds_drop (adds_erase hb sz)
  | compact minCapacity => exact adds_drop (adds_compact hb fresh minCapacity)
  | gc => exact adds_drop (adds_gc hb fresh)

/-! ## Runs -/

/-- A request that memory can have: `size() + n` is a `size_t`, and so is an address behind
the region. -/
def Call.Addressable : Call → Prop
  | .write dat => dat.length < 9223372036854775808
  | .reserve n | .forward n | .advance n | .resize n => n < 9223372036854775808
  | _ => True

/-- What the call adds stays below the limit, or the capacity is too small for it. -/
def Checked (b : ByteBuffer) (c : Call) : Prop :=
  b.size + c.growth b ≤ b.limit ∨ b.cap < b.size + c.growth b

/-- A buffer under calls, from the call of `limit(n)` on. -/
def limited (b : ByteBuffer) (n : Nat) : Machine Session (Call × (Nat → UInt8)) where
  init := ⟨b.setLimit n, none⟩
  step := (session b.x2 (fun _ => 0) n).step

/-- After the call the size is within the limit, and a call that would have added more than
that has thrown. -/
def Enforced (m : Machine Session (Call × (Nat → UInt8))) (s : Session)
    (c : Call × (Nat → UInt8)) : Prop :=
  ∀ s', m.step s c = some s' → s'.buf.size ≤ s'.buf.limit ∧
    (s.buf.limit < s.buf.size + c.1.growth s.buf →
      s'.stopped = some (.resourceLimit "buffer overflow"))

section

variable {n : Nat} {s s' : Session} {c : Call × (Nat → UInt8)}

/-- How a step ends. -/
theorem limited_step (hb : s.buf.Sound) (hstep : (limited b n).step s c = some s') :
    (s'.stopped = none ∧ Added s.buf (c.1.growth s.buf) s'.buf) ∨
      ∃ e, s'.stopped = some e ∧ s'.buf = s.buf ∧
        (0 < c.1.growth s.buf → Refused s.buf (c.1.growth s.buf) e) := by
  have h := exec_adds hb c.2 c.1
  have hs' := (Option.some.inj hstep).symm
  unfold Adds wp at h
  cases hrun : (c.1.exec c.2).run s.buf with
  | ok r b' =>
      rw [hrun] at h hs'
      subst hs'
      exact Or.inl ⟨rfl, h⟩
  | error e b' =>
      rw [hrun] at h hs'
      subst hs'
      exact Or.inr ⟨e, rfl, h.1, h.2⟩

theorem enforced_iff (hb : s.buf.Sound) (hsize : s.buf.size ≤ s.buf.limit) :
    Enforced (limited b n) s c ↔ Checked s.buf c.1 := by
  obtain ⟨s', hs'⟩ : ∃ s', (limited b n).step s c = some s' := ⟨_, rfl⟩
  have hall : Enforced (limited b n) s c ↔ s'.buf.size ≤ s'.buf.limit ∧
      (s.buf.limit < s.buf.size + c.1.growth s.buf →
        s'.stopped = some (.resourceLimit "buffer overflow")) :=
    ⟨fun h => h s' hs', fun h t ht => by rw [Option.some.inj (ht.symm.trans hs')]; exact h⟩
  rw [hall, Checked]
  rcases limited_step hb hs' with ⟨hret, hadd⟩ | ⟨e, hthrow, hbuf, hrefused⟩
  · have hlimit := hadd.limit
    have hroom := hadd.room
    have hgrown := hadd.size
    unfold Over at hroom
    constructor
    · rintro ⟨hle, -⟩
      omega
    · intro hchecked
      refine ⟨by omega, fun hover => ?_⟩
      omega
  · rw [hthrow, hbuf]
    constructor
    · rintro ⟨-, hfull⟩
      by_cases hwithin : s.buf.size + c.1.growth s.buf ≤ s.buf.limit
      · exact Or.inl hwithin
      · rcases hrefused (by omega) with ⟨-, hover⟩ | ⟨hhangs, -⟩
        · exact Or.inr hover.2
        · have heq := hfull (by omega)
          rw [hhangs] at heq
          cases heq
    · intro hchecked
      refine ⟨hsize, fun hover => ?_⟩
      rcases hrefused (by omega) with ⟨hfull, -⟩ | ⟨-, hnot⟩
      · rw [hfull]
      · exact absurd ⟨hover, by omega⟩ hnot

end

/-- **Where the limit is respected**: the runs of calls after `limit(n)` in which no size ever
exceeds the limit, and every call that would exceed it throws, are those in which every call
that adds bytes stays below the limit or exceeds the capacity. -/
theorem limit_enforced_iff (hb : b.Sound) {n : Nat} (hsize : b.size ≤ n) (hn : n < 0x40000000)
    (calls : List (Call × (Nat → UInt8))) :
    (limited b n).AllSteps (fun s c => c.1.Addressable ∧ Enforced (limited b n) s c)
        (limited b n).init calls ↔
      (limited b n).AllSteps (fun s c => c.1.Addressable ∧ Checked s.buf c.1)
        (limited b n).init calls := by
  have hlimit : (b.setLimit n).limit = n := by
    show toUInt32 (max n b.size) = n
    rw [Nat.max_eq_left hsize]
    exact toUInt32_of_lt (by omega)
  have hinit : (limited b n).init.buf.Sound ∧
      (limited b n).init.buf.size ≤ (limited b n).init.buf.limit := by
    refine ⟨⟨hb.head, hb.tail, hb.cap, hb.blocks, ?_⟩, ?_⟩
    · show (b.setLimit n).limit < 1073741824
      omega
    · show b.size ≤ (b.setLimit n).limit
      omega
  refine (limited b n).allSteps_iff_of_guarded (C := fun _ _ => True)
    (P := fun s => s.buf.Sound ∧ s.buf.size ≤ s.buf.limit)
    (fun s c hP _ => and_congr_right fun _ => enforced_iff hP.1 hP.2) ?_ calls hinit
    (Machine.allSteps_of_forall _ (fun _ _ => trivial) _)
  rintro s c s' ⟨hP, -⟩ - ⟨-, hq⟩ hstep
  refine ⟨?_, (hq s' hstep).1⟩
  rcases limited_step hP hstep with ⟨-, hadd⟩ | ⟨e, -, hbuf, -⟩
  · exact hadd.sound
  · rw [hbuf]
    exact hP

/-- A limit of 100 bytes, and calls within it and beyond the capacity. -/
theorem limit_enforced_hundred :
    (limited (new true fun _ => 0) 100).AllSteps
        (fun s c => c.1.Addressable ∧ Enforced (limited (new true fun _ => 0) 100) s c)
        (limited (new true fun _ => 0) 100).init
        [(.write [1, 2, 3], fun _ => 0), (.forward 2000, fun _ => 0), (.advance 50, fun _ => 0)] ↔
      (limited (new true fun _ => 0) 100).AllSteps
        (fun s c => c.1.Addressable ∧ Checked s.buf c.1) (limited (new true fun _ => 0) 100).init
        [(.write [1, 2, 3], fun _ => 0), (.forward 2000, fun _ => 0), (.advance 50, fun _ => 0)] :=
  limit_enforced_iff (wf_new true fun _ => 0).sound (by decide) (by decide) _

set_option maxRecDepth 8192 in
/-- With a limit of 100 bytes, 500 bytes are written into a new buffer and nothing is thrown. -/
theorem limit_is_not_asked :
    ∃ s, (limited (new true fun _ => 0) 100).run (limited (new true fun _ => 0) 100).init
        [(.write (List.replicate 500 7), fun _ => 0)] = some s ∧
      s.stopped = none ∧ s.buf.limit = 100 ∧ s.buf.size = 500 :=
  ⟨_, rfl, rfl, rfl, rfl⟩

end LinSocketIo.Utils.ByteBuffer
