/-
LinSocketIo.Core.SocketManager — the table that the UDP listener and the workers
share: `ISocketManager` of `core/connection.h`, whose members hold a `SpinLock`.

A member searches the map first and reads or changes the entry then, and `add`
makes an empty entry before it sets it. Under the lock nobody sees that, so each
member is the one step that it is in `Core.UdpListener`.

* `socketManager_linearizable` — the members, for any number of threads.
-/
import LinSocketIo.Core.UdpListener
import LinSocketIo.Utils.SpinLock

namespace LinSocketIo.Core.UdpListener

open LinSocketIo.Base LinSocketIo.Utils

namespace ISocketManager

/-- A call of a member. -/
inductive TableOp where
  | find (p : Peer)
  | add (p : Peer) (s : Nat)
  | remove (p : Peer)
  | setConnId (p : Peer) (connId : UInt32)
  | getConnId (p : Peer)

/-- What a member returns. -/
inductive TableRes where
  | unit
  | socket (s : Nat)
  | ok (b : Bool)
  | connId (id : UInt32)
  deriving DecidableEq

/-- Where a thread is after the constructor of its `ScopLock`. -/
inductive TablePlace where
  /-- `_sockets.find(key)`, `_sockets.erase(key)`, or `_sockets[key]` before the assignment. -/
  | search (op : TableOp)
  /-- The iterator is `end()` or not. -/
  | found (op : TableOp) (isEnd : Bool)
  /-- The assignment to `_sockets[key]`. -/
  | assign (p : Peer) (s : Nat)

/-- What a member does with the iterator. -/
def useIterator (m : ISocketManager) (isEnd : Bool) : TableOp → ISocketManager × TableRes
  | .find p => (m, .socket (if isEnd then 0 else ((m.sockets p.key).getD (0, 0)).1))
  | .getConnId p => (m, .connId (if isEnd then 0 else ((m.sockets p.key).getD (0, 0)).2))
  | .setConnId p connId =>
    if isEnd then (m, .ok false)
    else
      (⟨Function.update m.sockets p.key (some (((m.sockets p.key).getD (0, 0)).1, connId))⟩,
        .ok true)
  | .add _ _ | .remove _ => (m, .unit)

/-- The members, without the lock. -/
def members : Methods ISocketManager TablePlace TableOp TableRes where
  start := .search
  step
    | .search (.add p s), m =>
      (⟨Function.update m.sockets p.key (some ((m.sockets p.key).getD (0, 0)))⟩,
        .goOn (.assign p s))
    | .search (.remove p), m => (m.remove p, .returns .unit)
    | .search (.find p), m => (m, .goOn (.found (.find p) (m.sockets p.key).isNone))
    | .search (.setConnId p connId), m =>
      (m, .goOn (.found (.setConnId p connId) (m.sockets p.key).isNone))
    | .search (.getConnId p), m => (m, .goOn (.found (.getConnId p) (m.sockets p.key).isNone))
    | .found op isEnd, m => ((m.useIterator isEnd op).1, .returns (m.useIterator isEnd op).2)
    | .assign p s, m => (m.add p s, .returns .unit)

/-- What each member does in `Core.UdpListener`. -/
def apply : TableOp → ISocketManager → ISocketManager × TableRes
  | .find p, m => (m, .socket (m.find p))
  | .add p s, m => (m.add p s, .unit)
  | .remove p, m => (m.remove p, .unit)
  | .setConnId p connId, m => ((m.setConnId p connId).1, .ok (m.setConnId p connId).2)
  | .getConnId p, m => (m, .connId (m.getConnId p))

/-- A search, and the use of what it found. -/
theorem alone_found {m : ISocketManager} {op : TableOp} {isEnd : Bool}
    (hsearch : members.step (.search op) m = (m, .goOn (.found op isEnd)))
    (huse : m.useIterator isEnd op = apply op m) :
    members.Alone (members.start op) m (apply op m) := by
  rw [← huse]
  exact .more hsearch (.last rfl)

theorem members_alone (op : TableOp) (m : ISocketManager) :
    members.Alone (members.start op) m (apply op m) := by
  cases op with
  | find p =>
    refine alone_found rfl ?_
    cases h : m.sockets p.key <;> simp [useIterator, apply, find, h]
  | getConnId p =>
    refine alone_found rfl ?_
    cases h : m.sockets p.key <;> simp [useIterator, apply, getConnId, h]
  | setConnId p connId =>
    refine alone_found rfl ?_
    cases h : m.sockets p.key <;> simp [useIterator, apply, setConnId, h]
  | remove p => exact .last rfl
  | add p s =>
    -- the second assignment to the entry is the one that stays
    refine .more rfl (.last ?_)
    simp [members, add]

/-- **The members are one step each**: in every run of any number of threads at most one thread
is under the lock, and to the callers the members happen at once. -/
theorem socketManager_linearizable (m : ISocketManager) :
    (SpinLock.scopLock members).Linearizable ⟨false, m⟩ apply Guarded.value ∧
      ∀ moves s, ((SpinLock.scopLock members).machine ⟨false, m⟩).run
        ((SpinLock.scopLock members).machine ⟨false, m⟩).init moves = some s →
          ∃ h, SpinLock.HeldBy h s :=
  ⟨SpinLock.scopLock_linearizable members_alone m,
    fun _ _ hrun => SpinLock.scopLock_excludes members_alone hrun⟩

end ISocketManager

end LinSocketIo.Core.UdpListener
