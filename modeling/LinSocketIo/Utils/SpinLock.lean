/-
LinSocketIo.Utils.SpinLock — `SpinLock` and `ScopLock` of `utils/mutex.h`, and
what runs under them: `LockFreeQueue` of `utils/list.h`.

A thread takes the lock by `test_and_set` of a flag, as often as it takes until
the flag was clear, and clears the flag as the `ScopLock` goes out of scope. In
between it makes any number of steps on what the lock guards, which may be in
any state meanwhile.

* `scopLock_linearizable` — at most one thread is between `lock()` and `unlock()`,
  and to its callers what a method does under the lock is one step.
* `LockFreeQueue.linearizable` — the queue, for any number of threads.

Modelling notes. A `test_and_set`, a `clear` and each step of the code under the
lock are one step each, in the order in which the threads make them. What is
under the lock throws nothing.
-/
import LinSocketIo.Base.Linearize

namespace LinSocketIo.Utils

open LinSocketIo.Base

variable {M L Op Res : Type}

/-- A `SpinLock` and what it guards. -/
structure Guarded (M : Type) where
  /-- `_lock`. -/
  lock : Bool
  value : M

namespace SpinLock

/-- Where a thread is in a method that begins with a `ScopLock`. -/
inductive Place (L Op Res : Type) where
  /-- In the loop of `lock`. -/
  | lock (op : Op)
  /-- After `lock`. -/
  | body (l : L)
  /-- In the destructor, before `unlock`. -/
  | unlock (res : Res)

/-- What follows a step of the code under the lock. -/
def leave : Next L Res → Place L Op Res
  | .goOn l => .body l
  | .returns res => .unlock res

/-- The methods `x`, each of which begins with a `ScopLock`. -/
def scopLock (x : Methods M L Op Res) : Methods (Guarded M) (Place L Op Res) Op Res where
  start op := .lock op
  step
    | .lock op, m =>
      if m.lock then (m, .goOn (.lock op)) else (⟨true, m.value⟩, .goOn (.body (x.start op)))
    | .body l, m => (⟨m.lock, (x.step l m.value).1⟩, .goOn (leave (x.step l m.value).2))
    | .unlock res, m => (⟨false, m.value⟩, .returns res)

/-- The thread is between `lock()` and `unlock()`. -/
def holds : Activity (Place L Op Res) Res → Bool
  | .inside (.body _) | .inside (.unlock _) => true
  | .inside (.lock _) | .idle | .done _ => false

/-- The lock is `h`'s: the flag is set, and no other thread is between `lock()` and `unlock()`. -/
structure HeldBy (h : Option Nat) (s : Threads (Guarded M) (Place L Op Res) Res) : Prop where
  lock : s.shared.lock = h.isSome
  holder : ∀ i, holds (s.activity i) = decide (h = some i)

variable {x : Methods M L Op Res} {apply : Op → M → M × Res} {h : Option Nat}
  {s s' : Threads (Guarded M) (Place L Op Res) Res} {t : Threads M Op Res}

/-- A thread goes somewhere else, and it has the lock then if it had it before. -/
theorem HeldBy.goTo (hs : HeldBy h s) {i : Nat} {a : Activity (Place L Op Res) Res}
    (ha : holds a = holds (s.activity i)) : HeldBy h (s.goTo i a) where
  lock := hs.lock
  holder j := by
    by_cases hj : j = i
    · subst hj
      rw [Threads.goTo_self, ha]
      exact hs.holder j
    · rw [Threads.goTo_other s a hj]
      exact hs.holder j

/-- A thread takes the lock or gives it back. -/
theorem HeldBy.change (hs : HeldBy h s) {h' : Option Nat} {i : Nat}
    {a : Activity (Place L Op Res) Res} {value : M} (ha : holds a = decide (h' = some i))
    (hother : ∀ j, j ≠ i → (h = some j ↔ h' = some j)) :
    HeldBy h' (({ s with shared := ⟨h'.isSome, value⟩ } :
      Threads (Guarded M) (Place L Op Res) Res).goTo i a) where
  lock := rfl
  holder j := by
    by_cases hj : j = i
    · subst hj
      rw [Threads.goTo_self, ha]
    · rw [Threads.goTo_other _ a hj]
      exact (hs.holder j).trans (decide_eq_decide.mpr (hother j hj))

/-- Where a thread of the object is: before `unlock` the operation has been done. -/
def Before : Place L Op Res → Activity Op Res → Prop
  | .lock op, b => b = .inside op
  | .body _, b => ∃ op, b = .inside op
  | .unlock res, b => b = .done res

/-- What is guarded, `m`, while the object has the value `a`: the thread that has the lock, left
alone, makes of it what its operation makes of `a`. -/
def Within (x : Methods M L Op Res) (apply : Op → M → M × Res) (m a : M) :
    Activity (Place L Op Res) Res → Activity Op Res → Prop
  | .inside (.body l), b => ∀ op, b = .inside op → x.Alone l m (apply op a)
  | .inside (.lock _), _ | .inside (.unlock _), _ | .idle, _ | .done _, _ => a = m

/-- The object follows the methods. -/
structure Follows (x : Methods M L Op Res) (apply : Op → M → M × Res)
    (s : Threads (Guarded M) (Place L Op Res) Res) (t : Threads M Op Res) (h : Option Nat) :
    Prop where
  held : HeldBy h s
  stands : ∀ i, Methods.Stands Before (s.activity i) (t.activity i)
  free : h = none → t.shared = s.shared.value
  within : ∀ i, h = some i →
    Within x apply s.shared.value t.shared (s.activity i) (t.activity i)

/-- A thread that does not have the lock moves on both sides. -/
theorem Follows.goTo (hs : Follows x apply s t h) {i : Nat} {a : Activity (Place L Op Res) Res}
    {b : Activity Op Res} (hi : holds (s.activity i) = false) (ha : holds a = false)
    (hab : Methods.Stands Before a b) : Follows x apply (s.goTo i a) (t.goTo i b) h where
  held := hs.held.goTo (ha.trans hi.symm)
  stands := Methods.stands_goTo hs.stands i hab
  free := hs.free
  within j hj := by
    have hne : j ≠ i := by
      rintro rfl
      have hself := hs.held.holder j
      rw [hi, hj] at hself
      simp at hself
    rw [Threads.goTo_other s a hne, Threads.goTo_other t b hne]
    exact hs.within j hj

variable [DecidableEq Res]

/-- A step of a thread that is inside a method. -/
theorem Follows.inner (hs : Follows x apply s t h)
    (halone : ∀ op m, x.Alone (x.start op) m (apply op m)) {i : Nat}
    (hmove : (scopLock x).move s (.inner i) = some s') :
    Methods.Matched apply (fun t' => ∃ h', Follows x apply s' t' h') t (.inner i) := by
  obtain ⟨l, hl, rfl⟩ := Methods.move_inner.mp hmove
  have hstands := hs.stands i
  have hholds := hs.held.holder i
  rw [hl] at hstands hholds
  cases l with
  | lock op =>
    cases hlock : s.shared.lock with
    | true =>
      have hstep : (scopLock x).step (.lock op) s.shared = (s.shared, .goOn (.lock op)) := by
        simp [scopLock, hlock]
      have hsame : s.goTo i (.inside (.lock op)) = s := by rw [← hl, Threads.goTo_activity]
      rw [hstep]
      exact Or.inr ⟨rfl, h, hsame.symm ▸ hs⟩
    | false =>
      obtain rfl : h = none := by
        cases h with
        | none => rfl
        | some j => exact Bool.noConfusion (hlock.symm.trans hs.held.lock)
      have hstep : (scopLock x).step (.lock op) s.shared =
          (⟨true, s.shared.value⟩, .goOn (.body (x.start op))) := by
        simp [scopLock, hlock]
      rw [hstep]
      refine Or.inr ⟨rfl, some i, hs.held.change (by simp [holds, Next.activity]) ?_,
        Methods.stands_goOn hs.stands i ⟨op, hstands⟩, (fun hnone => by cases hnone), ?_⟩
      · intro j hj
        simp [Ne.symm hj]
      · intro j hj
        obtain rfl := Option.some.inj hj
        rw [Threads.goTo_self]
        intro op' hop'
        obtain rfl := Activity.inside.inj (hstands.symm.trans hop')
        rw [hs.free rfl]
        exact halone op s.shared.value
  | body l =>
    obtain ⟨op, hop⟩ := hstands
    have hself : h = some i := of_decide_eq_true hholds.symm
    have hrest := hs.within i hself
    rw [hl] at hrest
    have hrest := hrest op hop
    generalize hout : apply op t.shared = out at hrest
    have hheld : ∀ m, HeldBy h ({ s with shared := ⟨s.shared.lock, m⟩ } :
        Threads (Guarded M) (Place L Op Res) Res) := fun _ => ⟨hs.held.lock, hs.held.holder⟩
    have hnotFree : h ≠ none := fun hnone => by cases hnone.symm.trans hself
    cases hrest with
    | @last _ _ m' res hstep =>
      -- the last step under the lock is the operation
      have hleave : (scopLock x).step (.body l) s.shared =
          (⟨s.shared.lock, m'⟩, .goOn (.unlock res)) := by
        simp [scopLock, hstep, leave]
      rw [hleave]
      refine Or.inl ⟨_, Methods.move_inner.mpr ⟨op, hop, rfl⟩, h, (hheld m').goTo ?_,
        Methods.stands_goTo hs.stands i ?_, fun hnone => absurd hnone hnotFree, ?_⟩
      · rw [hl]
        rfl
      · simp [hout, atomic, Next.activity, Methods.Stands, Before]
      · intro j hj
        obtain rfl := Option.some.inj (hself.symm.trans hj)
        rw [Threads.goTo_self, Threads.goTo_self]
        simp [hout, atomic, Next.activity, Within]
    | @more _ l' _ m' _ hstep hrest =>
      have hgoOn : (scopLock x).step (.body l) s.shared =
          (⟨s.shared.lock, m'⟩, .goOn (.body l')) := by
        simp [scopLock, hstep, leave]
      rw [hgoOn]
      refine Or.inr ⟨rfl, h, (hheld m').goTo ?_, Methods.stands_goOn hs.stands i ⟨op, hop⟩,
        fun hnone => absurd hnone hnotFree, ?_⟩
      · rw [hl]
        rfl
      · intro j hj
        obtain rfl := Option.some.inj (hself.symm.trans hj)
        rw [Threads.goTo_self]
        intro op' hop'
        obtain rfl := Activity.inside.inj (hop.symm.trans hop')
        rw [hout]
        exact hrest
  | unlock res =>
    have hself : h = some i := of_decide_eq_true hholds.symm
    have hvalue := hs.within i hself
    rw [hl] at hvalue
    refine Or.inr ⟨rfl, none, hs.held.change rfl ?_, Methods.stands_goOn hs.stands i hstands,
      (fun _ => hvalue), fun j hj => by cases hj⟩
    intro j hj
    simp [hself, Ne.symm hj]

/-- A move of a thread. -/
theorem Follows.move (hs : Follows x apply s t h)
    (halone : ∀ op m, x.Alone (x.start op) m (apply op m)) {mv : Move Op Res}
    (hmove : (scopLock x).move s mv = some s') :
    Methods.Matched apply (fun t' => ∃ h', Follows x apply s' t' h') t mv := by
  cases mv with
  | call i op =>
    obtain ⟨hidle, rfl⟩ := Methods.move_call.mp hmove
    have hi := hs.stands i
    rw [hidle] at hi
    exact Or.inl ⟨_, Methods.move_call.mpr ⟨hi, rfl⟩, h, hs.goTo (by rw [hidle]; rfl) rfl rfl⟩
  | ret i res =>
    obtain ⟨hdone, rfl⟩ := Methods.move_ret.mp hmove
    have hi := hs.stands i
    rw [hdone] at hi
    exact Or.inl ⟨_, Methods.move_ret.mpr ⟨hi, rfl⟩, h, hs.goTo (by rw [hdone]; rfl) rfl rfl⟩
  | inner i => exact hs.inner halone hmove

theorem follows_init (x : Methods M L Op Res) (apply : Op → M → M × Res) (m : M) :
    Follows x apply ((scopLock x).machine ⟨false, m⟩).init ((atomic apply).machine m).init none where
  held := ⟨rfl, fun _ => rfl⟩
  stands _ := rfl
  free _ := rfl
  within _ hi := by cases hi

/-- **The lock excludes**: in every run at most one thread is between `lock()` and `unlock()`,
and the flag is set exactly while one is. -/
theorem scopLock_excludes (halone : ∀ op m, x.Alone (x.start op) m (apply op m)) {m : M}
    {moves : List (Move Op Res)}
    (hrun : ((scopLock x).machine ⟨false, m⟩).run ((scopLock x).machine ⟨false, m⟩).init moves =
      some s) : ∃ h, HeldBy h s := by
  have hfollows : ∃ t h, Follows x apply s t h := by
    refine Machine.run_invariant _ (C := fun _ _ => True) (P := fun s => ∃ t h,
      Follows x apply s t h) ?_ moves ⟨_, _, follows_init x apply m⟩
      (Machine.allSteps_of_forall _ (fun _ _ => trivial) _) hrun
    rintro s mv s' ⟨t, h, hs⟩ - hmove
    rcases hs.move halone hmove with ⟨t', -, h', hs'⟩ | ⟨-, h', hs'⟩
    · exact ⟨t', h', hs'⟩
    · exact ⟨t, h', hs'⟩
  obtain ⟨t, h, hs⟩ := hfollows
  exact ⟨h, hs.held⟩

/-- **What runs under the lock is one step**: the methods are, to their callers, the object with
the operations that they do when they are alone. -/
theorem scopLock_linearizable (halone : ∀ op m, x.Alone (x.start op) m (apply op m)) (m : M) :
    (scopLock x).Linearizable ⟨false, m⟩ apply Guarded.value := by
  refine Methods.linearizable_of_follows (R := fun s t => ∃ h, Follows x apply s t h)
    ⟨none, follows_init x apply m⟩ ?_ ?_
  · rintro s t ⟨h, hs⟩ houtside
    cases h with
    | none => exact hs.free rfl
    | some i =>
      -- the thread that has the lock is inside a method
      have hholder := hs.held.holder i
      rw [decide_eq_true rfl] at hholder
      cases hi : s.activity i with
      | inside l => exact absurd hi (houtside i l)
      | idle =>
        rw [hi] at hholder
        cases hholder
      | done res =>
        rw [hi] at hholder
        cases hholder
  · rintro s t mv s' ⟨h, hs⟩ hmove
    exact hs.move halone hmove

end SpinLock

/-! ## The queue -/

namespace LockFreeQueue

variable {T : Type}

/-- A call on the queue. The elements are pointers that are not null. -/
inductive QueueOp (T : Type) where
  | pushBack (data : T)
  | popFront
  | empty
  | size

/-- What a call returns. -/
inductive QueueRes (T : Type) where
  | unit
  /-- The result of `pop_front`, `none` for `NULL`. -/
  | front (data : Option T)
  | isEmpty (b : Bool)
  | size (n : UInt32)
  deriving DecidableEq

/-- Where a thread is after the constructor of its `ScopLock`. -/
inductive QueuePlace (T : Type) where
  /-- `_list.push_back(data)`, `_list.empty()` or `_list.size()`. -/
  | first (op : QueueOp T)
  /-- `auto data = _list.front()`. -/
  | front
  /-- `_list.pop_front()`. -/
  | pop (data : Option T)

/-- The members, without the lock. -/
def members (T : Type) : Methods (List T) (QueuePlace T) (QueueOp T) (QueueRes T) where
  start := .first
  step
    | .first (.pushBack data), list => (list ++ [data], .returns .unit)
    | .first .popFront, list =>
      if list.isEmpty then (list, .returns (.front none)) else (list, .goOn .front)
    | .front, list => (list, .goOn (.pop list.head?))
    | .pop data, list => (list.tail, .returns (.front data))
    | .first .empty, list => (list, .returns (.isEmpty list.isEmpty))
    | .first .size, list => (list, .returns (.size (UInt32.ofNat list.length)))

/-- A queue. -/
def apply : QueueOp T → List T → List T × QueueRes T
  | .pushBack data, list => (list ++ [data], .unit)
  | .popFront, list => (list.tail, .front list.head?)
  | .empty, list => (list, .isEmpty list.isEmpty)
  | .size, list => (list, .size (UInt32.ofNat list.length))

theorem members_alone (op : QueueOp T) (list : List T) :
    (members T).Alone ((members T).start op) list (apply op list) := by
  cases op with
  | pushBack data => exact .last rfl
  | empty => exact .last rfl
  | size => exact .last rfl
  | popFront =>
    cases list with
    | nil => exact .last rfl
    | cons data list => exact .more rfl (.more rfl (.last rfl))

/-- **`LockFreeQueue` is a queue for any number of threads**, if nothing is in it when they begin
or anything else. -/
theorem linearizable [DecidableEq T] (list : List T) :
    (SpinLock.scopLock (members T)).Linearizable ⟨false, list⟩ apply Guarded.value :=
  SpinLock.scopLock_linearizable members_alone list

end LockFreeQueue

end LinSocketIo.Utils
