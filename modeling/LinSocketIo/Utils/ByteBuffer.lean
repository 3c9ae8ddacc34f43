/-
LinSocketIo.Utils.ByteBuffer — the growing byte buffer of
`utils/bytebuffer.h`.

A buffer is a region of memory with a read position and a write position:

        hole                      space
    [        ****************             ]
             head            tail          cap

What lies between the two positions is the visible contents. A request for
room uses the space, moves the contents down into the hole, or moves them to
a larger region.

Modelling notes. The three pointers are offsets from `_data`, so the region
(first `_stackbuff`, then the heap) is its list of bytes `mem`; freeing the
old region is left out. `new char[n]` is memory of unknown bytes, taken from
`fresh`. A call runs in `BufferM`, which keeps the buffer as the call left it
when it throws; a loop that does not end is an outcome of its own. `uint32_t`
fields are written through `toUInt32`. Sums of sizes and positions are numbers:
a request so large that such a sum is no `size_t` or no address is not modelled.
The number formats are those of a little-endian machine. `varint.h` is not part
of the source; what is used of it is a parameter. `read_varint` and
`operator[]` are left out.
-/
import LinSocketIo.Base.Bytes
import LinSocketIo.Base.CInt

namespace LinSocketIo.Utils

open LinSocketIo.Base

/-- How a call ends that does not return. -/
inductive Stop where
  /-- `ResourceLimitException`. -/
  | resourceLimit (what : String)
  /-- A loop runs for ever. -/
  | hangs
  deriving DecidableEq, Repr

/-- The fields of `ByteBuffer`; positions are offsets from `_data`. -/
structure ByteBuffer where
  mem : List UInt8
  head : Nat
  tail : Nat
  cap : Nat
  limit : Nat
  x2 : Bool
  highWaterMark : Nat
  deriving DecidableEq, Repr

/-- A call on a buffer. -/
abbrev BufferM := EStateM Stop ByteBuffer

namespace ByteBuffer

/-- Memory as `new char[n]` gives it. -/
def newMem (fresh : Nat → UInt8) (n : Nat) : List UInt8 := (List.range n).map fresh

/-- `ByteBuffer::ByteBuffer`, with what is on the stack. -/
def new (grow2x : Bool) (stackbuff : Nat → UInt8) : ByteBuffer :=
  ⟨newMem stackbuff 1024, 0, 0, 1024, 64 * 1024 * 1024, grow2x, 0⟩

/-- `size`. -/
def size (b : ByteBuffer) : Nat := b.tail - b.head

/-- `space`. -/
def space (b : ByteBuffer) : Nat := b.cap - b.tail

/-- The visible contents, from `data()` up to `data() + size()`. -/
def contents (b : ByteBuffer) : List UInt8 := load b.mem b.head b.size

/-- `limit(n)`. -/
def setLimit (b : ByteBuffer) (n : Nat) : ByteBuffer :=
  { b with limit := toUInt32 (max n b.size) }

/-- `_high_water_mark = xmax(_high_water_mark, size())`. -/
def markHighWater (b : ByteBuffer) : ByteBuffer :=
  { b with highWaterMark := toUInt32 (max b.highWaterMark b.size) }

/-! ## Room -/

/-- `BLOCK_SIZE`. -/
def blockSize : Nat := 4 * 1024

/-- `BLOCK_BITS`. -/
def blockBits : Nat := 12

/-- `blocked_size`. -/
def blockedSize (sz : Nat) : Nat := (sz + blockSize - 1) >>> blockBits <<< blockBits

/-- The doubling loop of `alloc_size`. A `size_t` that has been doubled 64 times
is zero and stays zero, so the loop ends within 65 tests or never. -/
def double (sz : Nat) : Nat → Nat → Option Nat
  | 0, _ => none
  | tests + 1, n => if n < sz then double sz tests ((n <<< 1) % 2 ^ 64) else some n

/-- `alloc_size`. -/
def allocSize (sz : Nat) : BufferM Nat := do
  let b ← get
  if sz > b.limit then throw (.resourceLimit "buffer overflow")
  else if b.x2 then
    match double sz 65 b.cap with
    | some n => return blockedSize n
    | none => throw .hangs
  else return blockedSize sz

/-- `recycle`: the contents move to the start of the region. -/
def recycle : BufferM Unit :=
  modify fun b => { b with mem := store b.mem 0 b.contents, head := 0, tail := b.size }

/-- The contents move to a new region, as in `alloc` and `compact`. -/
def moveTo (b : ByteBuffer) (fresh : Nat → UInt8) (newCap : Nat) : ByteBuffer :=
  { b with
    mem := store (newMem fresh newCap) 0 b.contents
    head := 0
    tail := b.size
    cap := toUInt32 newCap }

/-- `alloc`. -/
def alloc (fresh : Nat → UInt8) (n : Nat) : BufferM Unit := do
  let b ← get
  if b.head + b.cap - b.tail ≥ n then recycle
  else
    let newCap ← allocSize (b.size + n)
    modify fun b => b.moveTo fresh newCap

/-- `reserve`. -/
def reserve (fresh : Nat → UInt8) (n : Nat) : BufferM Nat := do
  let b ← get
  if b.space ≥ n then return b.tail
  else
    alloc fresh n
    return (← get).tail

/-! ## The calls that change the contents -/

/-- `erase`. The default argument is `size_t(-1)`. -/
def erase (sz : Nat) : BufferM Nat := do
  let b ← get
  if sz = sizeMax then
    set { b with head := 0, tail := 0 }
    return sz
  else
    let sz := min b.size sz
    let head := b.head + sz
    set (if head ≥ b.tail then { b with head := 0, tail := 0 } else { b with head := head })
    return sz

/-- `resize`. -/
def resize (fresh : Nat → UInt8) (n : Nat) : BufferM Unit := do
  let sz := (← get).size
  if n > sz then
    let _ ← reserve fresh (n - sz)
    modify fun b => { b with tail := b.head + n }.markHighWater
  else
    modify fun b => { b with tail := b.head + n }.markHighWater

/-- `advance`. -/
def advance (n : Nat) : BufferM Nat := do
  let b ← get
  set { b with tail := min (b.tail + n) b.cap }.markHighWater
  return b.tail

/-- `forward`. -/
def forward (fresh : Nat → UInt8) (n : Nat) : BufferM Nat := do
  let p ← reserve fresh n
  modify fun b => { b with tail := b.tail + n }
  return p

/-- `back`. -/
def back (n : Nat) : BufferM Nat := do
  let b ← get
  set (if b.size ≥ n then { b with tail := b.tail - n } else b)
  return b.tail

/-- What `write` and the `write_u` calls do: reserve, copy, move the tail. -/
def append (fresh : Nat → UInt8) (dat : List UInt8) : BufferM Unit := do
  let _ ← reserve fresh dat.length
  modify fun b =>
    { b with mem := store b.mem b.tail dat, tail := b.tail + dat.length }.markHighWater

/-- `write`. -/
def write (fresh : Nat → UInt8) (dat : List UInt8) : BufferM Nat := do
  append fresh dat
  return dat.length

/-- `write_u8`. -/
def writeU8 (fresh : Nat → UInt8) (v : UInt8) : BufferM Unit := append fresh [v]

/-- `write_u16`. -/
def writeU16 (fresh : Nat → UInt8) (v : UInt16) : BufferM Unit := append fresh (leBytes 2 v.toNat)

/-- `write_u32`. -/
def writeU32 (fresh : Nat → UInt8) (v : UInt32) : BufferM Unit := append fresh (leBytes 4 v.toNat)

/-- `write_u64`. -/
def writeU64 (fresh : Nat → UInt8) (v : UInt64) : BufferM Unit := append fresh (leBytes 8 v.toNat)

/-- What `varint.h` declares: the longest number of bytes, the writers with the bytes they
write, the zigzag coding, and `Varint::read` with what it returns and the value. -/
structure Varint where
  maxVarintBytes : Nat
  writeU32 : UInt32 → List UInt8
  writeU64 : UInt64 → List UInt8
  zigzag32 : Int32 → UInt32
  zigzag : Int64 → UInt64
  read : List UInt8 → Int × Int64

/-- What the varint calls do: reserve the longest number of bytes, write, move the tail. -/
def appendVarint (vi : Varint) (fresh : Nat → UInt8) (dat : List UInt8) : BufferM Unit := do
  let _ ← reserve fresh vi.maxVarintBytes
  modify fun b =>
    { b with mem := store b.mem b.tail dat, tail := b.tail + dat.length }.markHighWater

/-- `write_varint32`. -/
def writeVarint32 (vi : Varint) (fresh : Nat → UInt8) (value : Int32) : BufferM Unit :=
  appendVarint vi fresh (vi.writeU32 (vi.zigzag32 value))

/-- `write_varint`. -/
def writeVarint (vi : Varint) (fresh : Nat → UInt8) (value : Int64) : BufferM Unit :=
  appendVarint vi fresh (vi.writeU64 (vi.zigzag value))

/-! ## The calls that give memory back -/

/-- `compact`. -/
def compact (fresh : Nat → UInt8) (minCapacity : Nat) : BufferM Nat := do
  let b ← get
  if b.cap ≤ minCapacity then return 0
  else if b.cap - b.size ≤ 1024 then return 0
  else
    let newCap := blockedSize (max b.size minCapacity)
    set { b.moveTo fresh newCap with highWaterMark := toUInt32 b.size }
    return subSize b.cap newCap

/-- `gc`. -/
def gc (fresh : Nat → UInt8) : BufferM Nat := do
  let b ← get
  let gcsize := subUInt32 b.cap b.highWaterMark / 2
  if toInt gcsize < 1024 then return 0
  else compact fresh (b.size + gcsize)

/-! ## A buffer in use -/

/-- A call with its argument. -/
inductive Call where
  | write (dat : List UInt8)
  | writeU8 (v : UInt8)
  | writeU16 (v : UInt16)
  | writeU32 (v : UInt32)
  | writeU64 (v : UInt64)
  | reserve (n : Nat)
  | forward (n : Nat)
  | back (n : Nat)
  | advance (n : Nat)
  | resize (n : Nat)
  | erase (sz : Nat)
  | compact (minCapacity : Nat)
  | gc
  deriving DecidableEq, Repr

/-- Drop what a call returns. -/
def drop {α : Type} (x : BufferM α) : BufferM Unit := do
  let _ ← x
  return ()

/-- Make a call and drop what it returns. -/
def Call.exec (fresh : Nat → UInt8) : Call → BufferM Unit
  | .write dat => drop (ByteBuffer.write fresh dat)
  | .writeU8 v => ByteBuffer.writeU8 fresh v
  | .writeU16 v => ByteBuffer.writeU16 fresh v
  | .writeU32 v => ByteBuffer.writeU32 fresh v
  | .writeU64 v => ByteBuffer.writeU64 fresh v
  | .reserve n => drop (ByteBuffer.reserve fresh n)
  | .forward n => drop (ByteBuffer.forward fresh n)
  | .back n => drop (ByteBuffer.back n)
  | .advance n => drop (ByteBuffer.advance n)
  | .resize n => ByteBuffer.resize fresh n
  | .erase sz => drop (ByteBuffer.erase sz)
  | .compact minCapacity => drop (ByteBuffer.compact fresh minCapacity)
  | .gc => drop (ByteBuffer.gc fresh)

end ByteBuffer

end LinSocketIo.Utils
