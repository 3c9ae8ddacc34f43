/-
LinSocketIo.Log.LogData — the blocks that log records are made of
(`log/src/logging.h`, `log/src/logging.cpp`): `LogData`, `BufferBucket`, and
what `BlockingBuffer` does with them in `produce`, `finish`, `consume` and
`release`.

A bucket is an array of blocks of one size. A thread that needs a block
advances the bucket's position and tries to own the block it finds there; if
that is in use, it gets a new one. It writes to the blocks it has and links
them to a record. The consumer follows the links of a record, and gives each
block back by clearing three fields one after the other.

Modelling notes. The steps of `alloc` and of `recycle` are steps of their own;
`write`, `set_next` and what the consumer reads of one block are one step
each. The ring between the threads and the consumer is a queue that holds
fewer than `LOG_LIST_MAX_SIZE` records (the subject of `Ring`), and a `finish`
that has to wait is not a step; that `consume` returns and is called again
before a block is not seen. Memory that nothing has been written to is 0, and
memory that is freed is not used again. `stored` and `linked` are what the
threads have stored in a block and linked it to since they own it.
-/
import LinSocketIo.Base.Bytes
import LinSocketIo.Base.CInt
import LinSocketIo.Base.Machine
import LinSocketIo.Log.Ring

namespace LinSocketIo.Log

open LinSocketIo.Base

/-- The address of a block. -/
inductive Addr where
  /-- In a bucket. -/
  | bucket (b pos : Nat)
  /-- Made by `new`. -/
  | heap (k : Nat)
  deriving DecidableEq, Repr

/-- `LogData`. -/
structure LogData where
  size : Nat
  mem : List UInt8
  capacity : Nat
  recycle : Bool
  used : Bool
  next : Option Addr
  deriving DecidableEq, Repr

namespace LogData

/-- `LogData(capacity, recycle)`. -/
def new (capacity : Nat) (recycle : Bool) : LogData :=
  ⟨0, List.replicate capacity 0, capacity, recycle, false, none⟩

/-- The `size()` bytes at `data()`. -/
def contents (d : LogData) : List UInt8 := load d.mem 0 d.size

/-- `write`, with what it returns. -/
def write (d : LogData) (buf : List UInt8) : LogData × Nat :=
  let writed := min buf.length (d.capacity - d.size)
  ({ d with mem := store d.mem d.size (buf.take writed), size := d.size + writed }, writed)

end LogData

/-! ## The buckets -/

/-- The levels and capacities of the buckets. -/
def buckets : List (Nat × Nat) :=
  [(1024, 16384), (2048, 4096), (4096, 2048), (8192, 512), (16384, 256)]

/-- `_level` of a bucket. -/
def level (b : Nat) : Nat := (buckets.getD b (0, 0)).1

/-- `_capacity` of a bucket. -/
def capacity (b : Nat) : Nat := (buckets.getD b (0, 0)).2

/-- The bucket that `BlockingBuffer::alloc(n)` asks. -/
def bucketOf (n : Nat) : Option Nat := buckets.findIdx? fun bucket => n ≤ bucket.1

/-- `LOG_DATA_MAX_SIZE`. -/
def logDataMaxSize : Nat := 1024 * 1024 * 16

/-! ## The threads -/

/-- What a block is for that `produce` asks for: the first of a record, or another one. -/
inductive Purpose where
  | head
  | more
  deriving DecidableEq, Repr

/-- Where a thread is in `produce`; `dat` is what it still has to write. -/
inductive Place where
  /-- Not in `produce`. -/
  | idle
  /-- In `alloc`, before `_pos` is advanced. -/
  | alloc (purpose : Purpose) (dat : List UInt8)
  /-- In `alloc`, before `own` of the block at `pos`. -/
  | own (purpose : Purpose) (dat : List UInt8) (b pos : Nat)
  /-- Before `t_node.tail->write`. -/
  | write (dat : List UInt8)
  /-- Before the new block is written to. -/
  | fill (dat : List UInt8) (a : Addr)
  /-- Before `t_node.tail->set_next`. -/
  | link (a : Addr)
  deriving DecidableEq, Repr

/-- A thread that logs, with its `LogDataNode`. -/
structure Thread where
  place : Place
  head : Option Addr
  tail : Option Addr
  deriving DecidableEq, Repr

/-- Where the consumer is with the blocks of a record. -/
inductive Reader where
  /-- Between two records. -/
  | idle
  /-- Before it reads the block. -/
  | reading (a : Addr)
  /-- In `release`, before `_used` is cleared or the block is deleted; `next` has been read. -/
  | clearing (a : Addr) (next : Option Addr)
  /-- Before `_size = 0`. -/
  | sizing (a : Addr) (next : Option Addr)
  /-- Before `_next = 0`. -/
  | unlinking (a : Addr) (next : Option Addr)
  deriving DecidableEq, Repr

/-- The blocks, and who works with them. -/
structure Pool where
  /-- `_pos` of the buckets. -/
  pos : Nat → Nat
  blocks : Addr → LogData
  /-- The number of blocks that `new` has made. -/
  news : Nat
  threads : Nat → Thread
  /-- The records in the ring, by their first blocks. -/
  queue : List Addr
  reader : Reader
  stored : Addr → List UInt8
  linked : Addr → Option Addr

namespace Pool

/-- `BlockingBuffer::BlockingBuffer`. -/
def new : Pool where
  pos _ := 0
  blocks
    | .bucket b _ => LogData.new (level b) true
    | .heap _ => LogData.new 0 false
  news := 0
  threads _ := ⟨.idle, none, none⟩
  queue := []
  reader := .idle
  stored _ := []
  linked _ := none

/-- What becomes of a thread. -/
def setThread (s : Pool) (i : Nat) (t : Thread) : Pool :=
  { s with threads := Function.update s.threads i t }

/-- What becomes of a block. -/
def setBlock (s : Pool) (a : Addr) (d : LogData) : Pool :=
  { s with blocks := Function.update s.blocks a d }

/-- `alloc` returns a block to `produce`. -/
def give (s : Pool) (i : Nat) (purpose : Purpose) (dat : List UInt8) (a : Addr) : Pool :=
  let t : Thread := match purpose with
    | .head => ⟨.write dat, some a, some a⟩
    | .more => { s.threads i with place := .fill dat a }
  { s.setThread i t with
    stored := Function.update s.stored a []
    linked := Function.update s.linked a none }

/-- `alloc` returns a new block. -/
def giveNew (s : Pool) (i : Nat) (purpose : Purpose) (dat : List UInt8) (capacity : Nat) : Pool :=
  { s.setBlock (.heap s.news) (LogData.new capacity false) with news := s.news + 1 }.give i purpose dat
    (.heap s.news)

/-- `write` on the block of a thread. What the thread stores is what fits in a block that
nothing but its own data is in. -/
def store (s : Pool) (a : Addr) (dat : List UInt8) : Pool :=
  { s.setBlock a ((s.blocks a).write dat).1 with
    stored := Function.update s.stored a
      (s.stored a ++ dat.take ((s.blocks a).capacity - (s.stored a).length)) }

/-- The next step of a thread in `produce`. -/
def produce (s : Pool) (i : Nat) : Option Pool :=
  let t := s.threads i
  match t.place with
  | .idle => none
  | .alloc purpose dat =>
    match bucketOf dat.length with
    | some b =>
      let pos := toUInt32 (s.pos b + 1)
      some { s.setThread i { t with place := .own purpose dat b (pos &&& (capacity b - 1)) } with
        pos := Function.update s.pos b pos }
    | none => some (s.giveNew i purpose dat dat.length)
  | .own purpose dat b pos =>
    let a := Addr.bucket b pos
    if (s.blocks a).used then some (s.giveNew i purpose dat (level b))
    else some ((s.setBlock a { s.blocks a with used := true }).give i purpose dat a)
  | .write dat =>
    t.tail.map fun a =>
      let bytes := ((s.blocks a).write dat).2
      let place := if bytes < dat.length then .alloc .more (dat.drop bytes) else .idle
      (s.store a dat).setThread i { t with place := place }
  | .fill dat a => some ((s.store a dat).setThread i { t with place := .link a })
  | .link b =>
    t.tail.map fun a =>
      { (s.setBlock a { s.blocks a with next := some b }).setThread i ⟨.idle, t.head, some b⟩ with
        linked := Function.update s.linked a (some b) }

/-- The consumer goes on with the next block of the record. -/
def follow (s : Pool) : Option Addr → Pool
  | some b => { s with reader := .reading b }
  | none => { s with reader := .idle }

/-- The next step of the consumer. -/
def work (s : Pool) : Option Pool :=
  match s.reader with
  | .idle =>
    match s.queue with
    | [] => none
    | a :: queue => some { s with queue := queue, reader := .reading a }
  | .reading a => some { s with reader := .clearing a (s.blocks a).next }
  | .clearing a next =>
    if (s.blocks a).recycle then
      some { s.setBlock a { s.blocks a with used := false } with reader := .sizing a next }
    else some (s.follow next)
  | .sizing a next =>
    some { s.setBlock a { s.blocks a with size := 0 } with reader := .unlinking a next }
  | .unlinking a next => some ((s.setBlock a { s.blocks a with next := none }).follow next)

/-- The records that `_queueSize` counts. -/
def records (s : Pool) : Nat := s.queue.length + if s.reader = .idle then 0 else 1

/-- What happens next. -/
inductive Event where
  /-- A thread calls `produce`. -/
  | call (i : Nat) (src : List UInt8)
  /-- A thread goes on in `produce`. -/
  | produce (i : Nat)
  /-- A thread calls `finish`. -/
  | finish (i : Nat)
  /-- The consumer goes on in `consume`. -/
  | work
  deriving DecidableEq, Repr

/-- One step. -/
def step (s : Pool) : Event → Option Pool
  | .call i src =>
    let t := s.threads i
    let dat := src.take logDataMaxSize
    if t.place = .idle then
      some (s.setThread i { t with place := if t.head = none then .alloc .head dat else .write dat })
    else none
  | .produce i => s.produce i
  | .finish i =>
    let t := s.threads i
    match t.head with
    | none => none
    | some a =>
      if t.place = .idle ∧ s.records + 1 < logListMaxSize then
        some { s.setThread i ⟨.idle, none, none⟩ with queue := s.queue ++ [a] }
      else none
  | .work => s.work

/-- The blocks in use. -/
def machine : Machine Pool Event := ⟨new, step⟩

end Pool

end LinSocketIo.Log
