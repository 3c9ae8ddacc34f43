/-
LinSocketIo.Utils.Md5Theorems — the hash of a message that comes in pieces.

An object that has been fed with a message has the state after the full
blocks of the message, the rest of the message in its buffer and the number
of its bits in the counts (`Holds`). `final` feeds the padding in and restores
all of this but the buffer, of which it overwrites the beginning if there is
no room for the length behind the message.

* `digest_of_pieces` — however a message is cut, `digest` is the hash of the
  whole, as long as it has not been called with 56 bytes or more in the buffer
  before.
-/
import LinSocketIo.Base.Blocks
import LinSocketIo.Base.Machine
import LinSocketIo.Utils.Md5

namespace LinSocketIo.Utils

open LinSocketIo.Base

namespace Md5

/-! ## What is hashed -/

/-- The bytes between a message of `n` bytes and its length. -/
def padding (n : Nat) : List UInt8 := 0x80 :: List.replicate ((119 - n % 64) % 64) 0

/-- The blocks of a message and their padding. -/
def padded (msg : List UInt8) : List UInt8 :=
  msg ++ padding msg.length ++ leBytes 8 (8 * msg.length)

/-- The hash of a message. -/
def md5 (msg : List UInt8) : List UInt8 :=
  let state := absorbAll transform 64 magic (padded msg)
  encode [state.a, state.b, state.c, state.d]

example : bytesToHexString (md5 [97, 98, 99]) = "900150983cd24fb0d6963f7d28e17f72" := by
  decide +kernel

/-! ## The counts -/

theorem encode_word (w : UInt32) :
    [(w &&& 0xff).toUInt8, ((w >>> 8) &&& 0xff).toUInt8, ((w >>> 16) &&& 0xff).toUInt8,
      ((w >>> 24) &&& 0xff).toUInt8] = leBytes 4 w.toNat := by
  have hand : ∀ x : UInt32, (x &&& 0xff).toUInt8 = UInt8.ofNat x.toNat := by
    intro x
    apply UInt8.toNat_inj.mp
    rw [UInt32.toNat_toUInt8, UInt32.toNat_and, UInt8.toNat_ofNat']
    have hmod := Nat.and_two_pow_sub_one_eq_mod x.toNat 8
    have hlit : (0xff : UInt32).toNat = 2 ^ 8 - 1 := rfl
    rw [hlit, hmod]
    omega
  have hshift : ∀ k : UInt32, k.toNat < 32 → (w >>> k).toNat = w.toNat / 2 ^ k.toNat := by
    intro k hk
    rw [UInt32.toNat_shiftRight, Nat.mod_eq_of_lt hk, Nat.shiftRight_eq_div_pow]
  simp only [leBytes, hand]
  rw [hshift 8 (by decide), hshift 16 (by decide), hshift 24 (by decide)]
  simp only [Nat.div_div_eq_div_mul]
  rfl

/-- What the counts say of a message of `n` bytes. -/
structure Counts (m : Md5) (n : Nat) : Prop where
  count0 : m.count0.toNat = 8 * n % 4294967296
  count1 : m.count1.toNat = 8 * n / 4294967296 % 4294967296

variable {m m' : Md5} {n : Nat}

theorem Counts.index (h : Counts m n) : ((m.count0 >>> 3) &&& 0x3f).toNat = n % 64 := by
  have hcount := h.count0
  have hlit : (0x3f : UInt32).toNat = 2 ^ 6 - 1 := rfl
  have hthree : (3 : UInt32).toNat % 32 = 3 := rfl
  rw [UInt32.toNat_and, hlit, Nat.and_two_pow_sub_one_eq_mod, UInt32.toNat_shiftRight, hthree,
    Nat.shiftRight_eq_div_pow]
  omega

/-- The room in the buffer. -/
theorem Counts.partLen (h : Counts m n) :
    ((64 : UInt32) - ((m.count0 >>> 3) &&& 0x3f)).toNat = 64 - n % 64 := by
  have hlt : n % 64 < 64 := Nat.mod_lt _ (by decide)
  have hle : (m.count0 >>> 3) &&& 0x3f ≤ 64 := by
    rw [UInt32.le_iff_toNat_le, h.index]
    exact Nat.le_of_lt hlt
  rw [UInt32.toNat_sub_of_le _ _ hle, h.index]
  rfl

/-- The bytes of the length. -/
theorem Counts.bits (h : Counts m n) : encode [m.count0, m.count1] = leBytes 8 (8 * n) := by
  have hlow := leBytes_mod 4 (8 * n)
  have hhigh := leBytes_mod 4 (8 * n / 256 ^ 4)
  unfold encode
  rw [List.flatMap_cons, List.flatMap_singleton, encode_word, encode_word, h.count0, h.count1,
    leBytes_add 4 4, ← hlow, ← hhigh]
  rfl

/-- The counts after `length` more bytes. -/
theorem Counts.add (h : Counts m n) (length : Nat) (hlength : length < 4294967296) :
    let count0 := m.count0 + (UInt32.ofNat length <<< 3)
    count0.toNat = 8 * (n + length) % 4294967296 ∧
      ((if count0 < UInt32.ofNat length <<< 3 then m.count1 + 1 else m.count1) +
        (UInt32.ofNat length >>> 29)).toNat = 8 * (n + length) / 4294967296 % 4294967296 := by
  have hlow := h.count0
  have hhigh := h.count1
  have hof : (UInt32.ofNat length).toNat = length := by
    rw [UInt32.toNat_ofNat']
    omega
  have hthree : (3 : UInt32).toNat % 32 = 3 := rfl
  have htwentynine : (29 : UInt32).toNat % 32 = 29 := rfl
  have hshl : (UInt32.ofNat length <<< 3).toNat = 8 * length % 4294967296 := by
    rw [UInt32.toNat_shiftLeft, hof, hthree, Nat.shiftLeft_eq]
    omega
  have hshr : (UInt32.ofNat length >>> 29).toNat = length / 536870912 := by
    rw [UInt32.toNat_shiftRight, hof, htwentynine, Nat.shiftRight_eq_div_pow]
  have hone : (1 : UInt32).toNat = 1 := rfl
  have hsum : (m.count0 + (UInt32.ofNat length <<< 3)).toNat =
      8 * (n + length) % 4294967296 := by
    rw [UInt32.toNat_add, hlow, hshl]
    omega
  refine ⟨hsum, ?_⟩
  rw [UInt32.toNat_add, hshr]
  split
  · next hcarry =>
    rw [UInt32.lt_iff_toNat_lt, hsum, hshl] at hcarry
    rw [UInt32.toNat_add, hone, hhigh]
    omega
  · next hcarry =>
    rw [UInt32.lt_iff_toNat_lt, hsum, hshl] at hcarry
    rw [hhigh]
    omega

/-! ## Updates -/

theorem add_toNat {i : UInt32} {c : Nat} (hc : c < 4294967296) (h : i.toNat + c < 4294967296) :
    (i + UInt32.ofNat c).toNat = i.toNat + c := by
  rw [UInt32.toNat_add, UInt32.toNat_ofNat']
  omega

/-- The loop of `update` takes all full blocks. -/
theorem blocks_eq (input : List UInt8) (hlength : input.length < 4294967233) (turns : Nat)
    (i : UInt32) (state : Md5State) (hi : i.toNat ≤ input.length)
    (hturns : (input.length - i.toNat) / 64 < turns) :
    ∃ i', blocks input turns i state =
        some (absorbAll transform 64 state (input.drop i.toNat), i') ∧
      input.drop i'.toNat = remainder 64 (input.drop i.toNat) := by
  induction turns generalizing i state with
  | zero => omega
  | succ turns ih =>
    have hlast : (i + 63).toNat = i.toNat + 63 := add_toNat (c := 63) (by decide) (by omega)
    rw [blocks, hlast]
    by_cases hmore : i.toNat + 63 < input.length
    · have hnext : (i + 64).toNat = i.toNat + 64 := add_toNat (c := 64) (by decide) (by omega)
      have hblock : (load input i.toNat 64).length = 64 := length_load (by omega)
      have hdrop : input.drop i.toNat = load input i.toNat 64 ++ input.drop (i + 64).toNat := by
        rw [load, hnext, ← List.drop_drop, List.take_append_drop]
      obtain ⟨i', heq, hrest⟩ := ih (i + 64) (transform state (load input i.toNat 64))
        (by omega) (by omega)
      refine ⟨i', ?_, ?_⟩
      · rw [if_pos hmore, heq, hdrop, absorbAll_append transform (by decide),
          absorbAll_block transform (by decide) state hblock, remainder_block (by decide) hblock,
          List.nil_append]
      · rw [hrest, hdrop, remainder_append (by decide) (load input i.toNat 64),
          remainder_block (by decide) hblock, List.nil_append]
    · have hshort : (input.drop i.toNat).length < 64 := by
        rw [List.length_drop]
        omega
      refine ⟨i, ?_, ?_⟩
      · rw [if_neg hmore, absorbAll_of_lt transform state hshort]
      · rw [remainder_of_lt hshort]

/-- The object has been fed with a message. -/
structure Holds (m : Md5) (msg : List UInt8) : Prop where
  state : m.state = absorbAll transform 64 magic msg
  counts : Counts m msg.length
  length : m.buffer.length = 64
  pending : load m.buffer 0 (msg.length % 64) = remainder 64 msg
  finished : m.finished = false

theorem new_holds {buffer : List UInt8} (hbuffer : buffer.length = 64) (digest : List UInt8) :
    Holds (new buffer digest) [] :=
  ⟨rfl, ⟨rfl, rfl⟩, hbuffer, rfl, rfl⟩

/-- The bytes of a message so far, and the next ones. -/
theorem load_store_pending {buffer pend bytes : List UInt8} {pos : Nat}
    (hpend : load buffer 0 pos = pend) (hpos : pos + bytes.length ≤ buffer.length) :
    load (store buffer pos bytes) 0 (pos + bytes.length) = pend ++ bytes := by
  rw [load_add, load_store_before (by omega) (by omega), hpend, Nat.zero_add,
    load_store_same bytes (by omega)]

/-- **`update`** feeds the object with more of the message. -/
theorem update_holds {msg : List UInt8} (h : Holds m msg) (input : List UInt8)
    (hlength : input.length < 4294967233) :
    ∃ m', m.update input = some m' ∧ Holds m' (msg ++ input) := by
  have hlt : msg.length % 64 < 64 := Nat.mod_lt _ (by decide)
  obtain ⟨hcount0, hcount1⟩ := h.counts.add input.length (by omega)
  rw [← List.length_append] at hcount0 hcount1
  have hpendlen : (remainder 64 msg).length = msg.length % 64 := length_remainder 64 msg
  have hpart := h.counts.partLen
  unfold update
  simp only [hpart, h.counts.index]
  generalize ((64 : UInt32) - ((m.count0 >>> 3) &&& 0x3f)) = partLen at hpart ⊢
  generalize hroom : 64 - msg.length % 64 = room at hpart ⊢
  by_cases hfull : input.length ≥ room
  · -- the buffer is filled up, and then come the blocks of the input
    rw [if_pos hfull]
    have htake : (load input 0 room).length = room := length_load (by omega)
    have hblock : (remainder 64 msg ++ load input 0 room).length = 64 := by
      rw [List.length_append, hpendlen, htake]
      omega
    have hfits : msg.length % 64 + (load input 0 room).length ≤ m.buffer.length := by
      rw [htake, h.length]
      omega
    have hbuffer : load (store m.buffer (msg.length % 64) (load input 0 room)) 0 64 =
        remainder 64 msg ++ load input 0 room := by
      have hload := load_store_pending h.pending hfits
      rw [htake, ← hroom, Nat.add_sub_cancel' (Nat.le_of_lt hlt)] at hload
      rw [← hroom]
      exact hload
    have hsplit : remainder 64 msg ++ input =
        (remainder 64 msg ++ load input 0 room) ++ input.drop room := by
      rw [List.append_assoc, load, List.drop_zero, List.take_append_drop]
    have hstored : (store m.buffer (msg.length % 64) (load input 0 room)).length = 64 := by
      rw [length_store hfits, h.length]
    obtain ⟨i', hblocks, hrest⟩ := blocks_eq input hlength (input.length / 64 + 1) partLen
      (transform m.state (load (store m.buffer (msg.length % 64) (load input 0 room)) 0 64))
      (by omega) (by omega)
    rw [hpart] at hblocks hrest
    have hremainder : remainder 64 (msg ++ input) = input.drop i'.toNat := by
      rw [hrest, remainder_append (by decide), hsplit, remainder_append (by decide)
        (remainder 64 msg ++ _), remainder_block (by decide) hblock, List.nil_append]
    have hdroplen : (input.drop i'.toNat).length = (msg ++ input).length % 64 := by
      rw [← hremainder, length_remainder]
    have hlt' : (msg ++ input).length % 64 < 64 := Nat.mod_lt _ (by decide)
    rw [hblocks, Option.map_some]
    refine ⟨_, rfl, ?_, ⟨hcount0, hcount1⟩, ?_, ?_, rfl⟩
    · simp only
      rw [hbuffer, h.state, absorbAll_append transform (by decide) magic msg, hsplit,
        absorbAll_append transform (by decide) _ (remainder 64 msg ++ _),
        absorbAll_block transform (by decide) _ hblock, remainder_block (by decide) hblock,
        List.nil_append]
    · simp only
      rw [length_store (by omega), hstored]
    · simp only
      rw [hremainder, ← hdroplen]
      exact load_store_same _ (Nat.zero_le _)
  · rw [if_neg hfull]
    have hshort : (remainder 64 msg ++ input).length < 64 := by
      rw [List.length_append, hpendlen]
      omega
    have hfits : msg.length % 64 + input.length ≤ m.buffer.length := by
      rw [h.length]
      omega
    have hmod : (msg ++ input).length % 64 = msg.length % 64 + input.length := by
      rw [List.length_append]
      omega
    refine ⟨_, rfl, ?_, ⟨hcount0, hcount1⟩, ?_, ?_, rfl⟩
    · simp only
      rw [h.state, absorbAll_append transform (by decide) magic msg,
        absorbAll_of_lt transform _ hshort]
    · simp only
      rw [length_store hfits, h.length]
    · simp only
      rw [hmod, remainder_append (by decide), remainder_of_lt hshort]
      exact load_store_pending h.pending hfits

/-- Bytes that do no more than fill the buffer up leave alone what is in it. -/
theorem update_keeps {msg input : List UInt8} (h : Holds m msg)
    (hfits : msg.length % 64 + input.length ≤ 64) (hupdate : m.update input = some m') {p : Nat}
    (hp : p ≤ msg.length % 64) : load m'.buffer 0 p = load m.buffer 0 p := by
  have hlt : msg.length % 64 < 64 := Nat.mod_lt _ (by decide)
  have hpart := h.counts.partLen
  have hbefore : ∀ bytes, load (store m.buffer (msg.length % 64) bytes) 0 p = load m.buffer 0 p :=
    fun bytes => load_store_before (by omega) (by rw [h.length]; omega)
  unfold update at hupdate
  simp only [hpart, h.counts.index] at hupdate
  split at hupdate
  · next hfull =>
    obtain ⟨i', hblocks, hrest⟩ := blocks_eq input (by omega) (input.length / 64 + 1)
      ((64 : UInt32) - ((m.count0 >>> 3) &&& 0x3f))
      (transform m.state (load (store m.buffer (msg.length % 64)
        (load input 0 (64 - msg.length % 64))) 0 64)) (by omega) (by omega)
    have hnil : input.drop (64 - msg.length % 64) = [] := List.drop_of_length_le (by omega)
    rw [hpart, hnil, remainder_of_lt (by decide)] at hrest
    rw [hblocks, Option.map_some, hrest] at hupdate
    obtain rfl := Option.some.inj hupdate
    have hstore : ∀ buffer : List UInt8, store buffer 0 [] = buffer := fun buffer => rfl
    simp only [hstore]
    exact hbefore _
  · obtain rfl := Option.some.inj hupdate
    exact hbefore input

/-! ## The digest -/

/-- The padding as `final` takes it from `PADDING`. -/
theorem load_paddingBytes (n : Nat) :
    load paddingBytes 0 (if n % 64 < 56 then 56 - n % 64 else 120 - n % 64) = padding n := by
  have hlt : n % 64 < 64 := Nat.mod_lt _ (by decide)
  have hlen : (if n % 64 < 56 then 56 - n % 64 else 120 - n % 64) = (119 - n % 64) % 64 + 1 := by
    split <;> omega
  have hle : (119 - n % 64) % 64 ≤ 63 := Nat.le_of_lt_succ (Nat.mod_lt _ (by decide))
  rw [hlen, padding, paddingBytes, load, List.drop_zero, List.take_succ_cons, List.take_replicate,
    Nat.min_eq_left hle]

theorem length_padding (n : Nat) :
    (padding n).length = (119 - n % 64) % 64 + 1 := by
  rw [padding, List.length_cons, List.length_replicate]

/-- The length of the padding as `final` computes it. -/
theorem Counts.padLen (h : Counts m n) :
    (if (m.count0 >>> 3) &&& 0x3f < 56 then (56 : UInt32) - ((m.count0 >>> 3) &&& 0x3f)
      else (120 : UInt32) - ((m.count0 >>> 3) &&& 0x3f)).toNat =
        if n % 64 < 56 then 56 - n % 64 else 120 - n % 64 := by
  have hlt : n % 64 < 64 := Nat.mod_lt _ (by decide)
  have hindex := h.index
  have hless : (m.count0 >>> 3) &&& 0x3f < 56 ↔ n % 64 < 56 := by
    rw [UInt32.lt_iff_toNat_lt, hindex]
    rfl
  have hsub : ∀ c : UInt32, 64 ≤ c.toNat ∨ n % 64 ≤ c.toNat →
      (c - ((m.count0 >>> 3) &&& 0x3f)).toNat = c.toNat - n % 64 := by
    intro c hc
    have hle : (m.count0 >>> 3) &&& 0x3f ≤ c := by
      rw [UInt32.le_iff_toNat_le, hindex]
      omega
    rw [UInt32.toNat_sub_of_le _ _ hle, hindex]
  by_cases hshort : n % 64 < 56
  · rw [if_pos (hless.mpr hshort), if_pos hshort, hsub 56 (Or.inr (Nat.le_of_lt hshort))]
    rfl
  · rw [if_neg (mt hless.mp hshort), if_neg hshort, hsub 120 (Or.inl (by decide))]
    rfl

/-- **`digest`** is the hash of the message so far. The object still holds the message if there
are less than 56 bytes in the buffer. -/
theorem getDigest_holds {msg : List UInt8} (h : Holds m msg) :
    ∃ m', m.getDigest = some m' ∧ m'.digest = md5 msg ∧ (msg.length % 64 < 56 → Holds m' msg) := by
  have hlt : msg.length % 64 < 64 := Nat.mod_lt _ (by decide)
  have hpadlen := length_padding msg.length
  have hpadmod : (119 - msg.length % 64) % 64 ≤ 63 := Nat.le_of_lt_succ (Nat.mod_lt _ (by decide))
  have hm : Holds { m with finished := false } msg :=
    ⟨h.state, ⟨h.counts.count0, h.counts.count1⟩, h.length, h.pending, rfl⟩
  obtain ⟨m₁, hm₁, h₁⟩ := update_holds hm (padding msg.length) (by omega)
  obtain ⟨m₂, hm₂, h₂⟩ := update_holds h₁ (leBytes 8 (8 * msg.length))
    (by rw [length_leBytes]; decide)
  have hfinal : m.getDigest = some { m₂ with
      digest := encode [m₂.state.a, m₂.state.b, m₂.state.c, m₂.state.d]
      state := m.state, count0 := m.count0, count1 := m.count1 } := by
    have hsame : ∀ input, update { m with finished := true } input =
        update { m with finished := false } input := fun input => rfl
    simp only [getDigest, h.finished, Bool.not_false, if_true, final, h.counts.padLen,
      load_paddingBytes, h.counts.bits, hsame, hm₁, Option.bind_some, hm₂, Option.map_some]
  refine ⟨_, hfinal, ?_, fun hshort => ⟨h.state, ⟨h.counts.count0, h.counts.count1⟩, h₂.length, ?_,
    h₂.finished⟩⟩
  · simp only [h₂.state]
    rfl
  · have hmod : (msg ++ padding msg.length).length % 64 = 56 := by
      rw [List.length_append, hpadlen]
      omega
    refine Eq.trans ?_ h.pending
    simp only
    have hlast : (leBytes 8 (8 * msg.length)).length = 8 := length_leBytes 8 _
    rw [update_keeps h₁ (by omega) hm₂ (by omega),
      update_keeps hm (by rw [hpadlen]; omega) hm₁ (Nat.le_refl _)]

/-- What is read from a file is what is left of it. -/
theorem updateFile_holds (turns : Nat) {msg content : List UInt8} (h : Holds m msg)
    (hturns : content.length / 1024 < turns) :
    ∃ m', updateFile turns m content = some m' ∧ Holds m' (msg ++ content) := by
  induction turns generalizing m msg content with
  | zero => omega
  | succ turns ih =>
    have hread : ∃ m₁, (if content.take 1024 = [] then some m else m.update (content.take 1024)) =
        some m₁ ∧ Holds m₁ (msg ++ content.take 1024) := by
      split
      · next hnil =>
        refine ⟨m, rfl, ?_⟩
        rw [hnil, List.append_nil]
        exact h
      · refine update_holds h _ ?_
        rw [List.length_take]
        omega
    obtain ⟨m₁, hm₁, h₁⟩ := hread
    simp only [updateFile, hm₁, Option.bind_some]
    split
    · next hlast =>
      rw [List.take_of_length_le (Nat.le_of_lt hlast)] at h₁
      exact ⟨m₁, rfl, h₁⟩
    · next hmore =>
      have hdrop : (content.drop 1024).length / 1024 < turns := by
        rw [List.length_drop]
        omega
      obtain ⟨m', hm', h'⟩ := ih h₁ hdrop
      rw [List.append_assoc, List.take_append_drop] at h'
      exact ⟨m', hm', h'⟩

/-! ## A message in pieces -/

/-- A call. -/
inductive Call where
  | update (input : List UInt8)
  /-- `update` with a file that has `content` left. -/
  | updateFile (content : List UInt8)
  | digest
  deriving DecidableEq, Repr

/-- What a call feeds the object with. -/
def Call.input : Call → List UInt8
  | .update input => input
  | .updateFile content => content
  | .digest => []

/-- One call. -/
def call (m : Md5) : Call → Option Md5
  | .update input => m.update input
  | .updateFile content => Md5.updateFile (content.length / 1024 + 1) m content
  | .digest => m.getDigest

/-- The calls, on a new object. -/
def machine (buffer digest : List UInt8) : Machine Md5 Call := ⟨new buffer digest, call⟩

/-- A piece in memory has less than 2 ^ 32 - 63 bytes, and `digest` finds less than 56 bytes in the
buffer. -/
def Gentle (m : Md5) : Call → Prop
  | .update input => input.length < 4294967233
  | .updateFile _ => True
  | .digest => ((m.count0 >>> 3) &&& 0x3f).toNat < 56

theorem call_holds {msg : List UInt8} (h : Holds m msg) {c : Call} (hgentle : Gentle m c) :
    ∃ m', m.call c = some m' ∧ Holds m' (msg ++ c.input) := by
  cases c with
  | update input => exact update_holds h input hgentle
  | updateFile content => exact updateFile_holds _ h (Nat.lt_succ_self _)
  | digest =>
    obtain ⟨m', hm', -, hkeep⟩ := getDigest_holds h
    refine ⟨m', hm', ?_⟩
    have hshort : msg.length % 64 < 56 := by
      rw [← h.counts.index]
      exact hgentle
    rw [Call.input, List.append_nil]
    exact hkeep hshort

/-- The calls feed an object with all their pieces. -/
theorem run_holds (buffer digest : List UInt8) (calls : List Call) {msg : List UInt8}
    (h : Holds m msg) (hgentle : (machine buffer digest).AllSteps Gentle m calls) :
    ∃ m', (machine buffer digest).run m calls = some m' ∧
      Holds m' (msg ++ calls.flatMap Call.input) := by
  induction calls generalizing m msg with
  | nil =>
    refine ⟨m, rfl, ?_⟩
    rw [List.flatMap_nil, List.append_nil]
    exact h
  | cons c calls ih =>
    obtain ⟨m₁, hm₁, h₁⟩ := call_holds h hgentle.1
    obtain ⟨m', hm', h'⟩ := ih h₁ (hgentle.2 m₁ hm₁)
    refine ⟨m', (Machine.run_cons_some _).mpr ⟨m₁, hm₁, hm'⟩, ?_⟩
    rw [List.flatMap_cons, ← List.append_assoc]
    exact h'

/-- **The hash of a message in pieces**: whatever is in a new object, and however the message is
cut, with calls of `digest` in between that find less than 56 bytes in the buffer, `digest` ends
and gives the hash of the message. -/
theorem digest_of_pieces {buffer : List UInt8} (hbuffer : buffer.length = 64)
    (digest : List UInt8) (calls : List Call)
    (hgentle : (machine buffer digest).AllSteps Gentle (machine buffer digest).init calls) :
    ∃ m m', (machine buffer digest).run (machine buffer digest).init calls = some m ∧
      m.getDigest = some m' ∧ m'.digest = md5 (calls.flatMap Call.input) := by
  obtain ⟨m, hm, h⟩ := run_holds buffer digest calls (new_holds hbuffer digest) hgentle
  rw [List.nil_append] at h
  obtain ⟨m', hm', hdigest, -⟩ := getDigest_holds h
  exact ⟨m, m', hm, hm', hdigest⟩

instance instDecidableGentle (m : Md5) : ∀ c, Decidable (Gentle m c)
  | .update input => inferInstanceAs (Decidable (input.length < 4294967233))
  | .updateFile _ => isTrue trivial
  | .digest => inferInstanceAs (Decidable (((m.count0 >>> 3) &&& 0x3f).toNat < 56))

/-- 58 bytes in two pieces, with a call of `digest` between them. -/
theorem digest_of_pieces_twice :
    ∃ m m', (machine (List.replicate 64 1) []).run (machine (List.replicate 64 1) []).init
        [.update (List.replicate 30 97), .digest, .updateFile (List.replicate 28 98)] = some m ∧
      m.getDigest = some m' ∧ m'.digest = md5 ([.update (List.replicate 30 97), .digest,
        .updateFile (List.replicate 28 98)].flatMap Call.input) :=
  digest_of_pieces (by decide) [] _ (by decide +kernel)

/-- With 56 bytes in the buffer, `digest` gives another hash the second time. -/
example : ((machine (List.replicate 64 0) []).run (machine (List.replicate 64 0) []).init
    [.update (List.replicate 56 97), .digest, .digest]).map Md5.digest ≠
    some (md5 (List.replicate 56 97)) := by decide +kernel

end Md5

end LinSocketIo.Utils
