/-
LinSocketIo.Utils.JsonStream — the stream that a JSON writer sees in a
`Serializer`.

A JSON writer puts characters one by one, or asks for room for several with
`Push` and fills it itself. `Push` moves the tail over the room before the room
is filled, so who writes must write at the pointer that `Push` returns. `memset`
asks for the tail again and writes behind the room.

Modelling notes. The stream notes what the last call of `forward` gave and
whether all that was written lay in what its own call was given. A byte that is
written behind the end of the region is noted and not stored. `Push` comes with
the bytes its caller then fills in. `Clear`, `Flush` and `PushUnsafe` are left
out.
-/
import LinSocketIo.Base.Machine
import LinSocketIo.Utils.SerializerTheorems

namespace LinSocketIo.Utils

open LinSocketIo.Base

/-- The buffer of a serializer, and what is noted of the writing. -/
structure Stream where
  buffer : ByteBuffer
  /-- The first byte of what the last call of `forward` gave. -/
  start : Nat
  /-- The number of bytes that it gave. -/
  length : Nat
  /-- All bytes written so far lay in what their calls were given. -/
  inside : Bool
  deriving DecidableEq, Repr

/-- A call on a stream. -/
abbrev StreamM := EStateM Thrown Stream

namespace Stream

/-- The stream of a serializer on a buffer. -/
def new (b : ByteBuffer) : Stream := ⟨b, 0, 0, true⟩

/-- A call on `buffer_`. -/
def onBuffer {α : Type} (x : BufferM α) : StreamM α := fun s =>
  match x.run s.buffer with
  | .ok a b => .ok a { s with buffer := b }
  | .error stop b => .error (.buffer stop) { s with buffer := b }

/-- Bytes are written through a pointer. -/
def assign (p : Nat) (bytes : List UInt8) : StreamM Unit :=
  modify fun s =>
    { s with
      buffer.mem := store s.buffer.mem p (bytes.take (s.buffer.mem.length - p))
      inside := s.inside && decide (s.start ≤ p ∧ p + bytes.length ≤ s.start + s.length) }

section

variable (fresh : Nat → UInt8)

/-- `buffer_->forward`. -/
def forward (n : Nat) : StreamM Nat := do
  let p ← onBuffer (ByteBuffer.forward fresh n)
  modify fun s => { s with start := p, length := n }
  return p

/-- `Put`. -/
def put (ch : UInt8) : StreamM Unit := do
  let p ← forward fresh 1
  assign p [ch]

/-- `PutUnsafe`. -/
def putUnsafe (ch : UInt8) : StreamM Unit := put fresh ch

/-- `Push`. -/
def push (count : Nat) : StreamM Nat := forward fresh count

/-- `Push`, and the caller fills what it was given. -/
def pushFilled (bytes : List UInt8) : StreamM Unit := do
  let p ← push fresh bytes.length
  assign p bytes

/-- `Pop`. -/
def pop (count : Nat) : StreamM Unit := do
  let _ ← onBuffer (ByteBuffer.back count)

/-- `Reserve`. -/
def reserve (count : Nat) : StreamM Unit := do
  let _ ← onBuffer (ByteBuffer.reserve fresh count)

/-- `memset`. -/
def memset (count : Nat) (ch : UInt8) : StreamM Unit := do
  let _ ← push fresh count
  let tail := (← get).buffer.tail
  assign tail (List.replicate count ch)

/-- `data`. -/
def data (offset : Nat) : StreamM (List UInt8) := fun s =>
  match Serializer.data offset s.buffer with
  | .ok text => .ok text s
  | .error e => .error e s

/-- `ShrinkToFit`. -/
def shrinkToFit : StreamM Unit := do
  let p ← push fresh 1
  assign p [0]
  pop 1

/-- `GetString`, with the characters from the start of the serializer on. -/
def getString (offset : Nat) : StreamM (List UInt8) := do
  let p ← push fresh 1
  assign p [0]
  pop 1
  data offset

end

/-! ## A stream in use -/

/-- A call with its argument. -/
inductive Call where
  | put (ch : UInt8)
  | putUnsafe (ch : UInt8)
  | push (bytes : List UInt8)
  | pop (count : Nat)
  | reserve (count : Nat)
  | memset (count : Nat) (ch : UInt8)
  | shrinkToFit
  | getString
  deriving DecidableEq, Repr

/-- Make a call and drop what it returns. -/
def Call.exec (offset : Nat) (fresh : Nat → UInt8) : Call → StreamM Unit
  | .put ch => Stream.put fresh ch
  | .putUnsafe ch => Stream.putUnsafe fresh ch
  | .push bytes => Stream.pushFilled fresh bytes
  | .pop count => Stream.pop count
  | .reserve count => Stream.reserve fresh count
  | .memset count ch => Stream.memset fresh count ch
  | .shrinkToFit => Stream.shrinkToFit fresh
  | .getString => do
      let _ ← Stream.getString fresh offset

/-- What a call does to a string. -/
def Call.onText (text : List UInt8) : Call → List UInt8
  | .put ch => text ++ [ch]
  | .putUnsafe ch => text ++ [ch]
  | .push bytes => text ++ bytes
  | .pop count => text.take (text.length - count)
  | .reserve _ => text
  | .memset count ch => text ++ List.replicate count ch
  | .shrinkToFit => text
  | .getString => text

/-- A stream, the string that its calls should have made, and how the last call ended. -/
structure Session where
  stream : Stream
  text : List UInt8
  stopped : Option Thrown

/-- A serializer that starts at `offset` of a buffer, under calls. The string begins with what
the serializer has, and a call that throws should leave it alone. Each call comes with the bytes
of the memory it is given, if it asks for memory. -/
def session (offset : Nat) (b : ByteBuffer) : Machine Session (Call × (Nat → UInt8)) where
  init := ⟨new b, b.contents.drop offset, none⟩
  step s c := some <|
    match (c.1.exec offset c.2).run s.stream with
    | .ok _ t => ⟨t, c.1.onText s.text, none⟩
    | .error e t => ⟨t, s.text, some e⟩

end Stream

end LinSocketIo.Utils
