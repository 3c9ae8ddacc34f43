/-
LinSocketIo.Core.Server — the listeners of a thread: `create` and `remove` of
`TcpServer` (`core/tcp_server.cpp`) and of `UdpServer` (`core/udp_server.cpp`),
which are the same code for two classes of listeners.

Both call the handler of the server in the middle of their work, and the handler
may call `create` and `remove` again, for the same port too. A listener is kept
by the table, by a `create` whose `onListened` has not returned, and by a
`remove` whose `onClose` has not; its socket ends with the last of them. An
exception of `onListened` is reported as one of `bind`, but the listener stays
in the table.

* `listeners_tidy` — what holds after any calls, however they are nested.

Modelling notes. The calls that are under way are a stack; `returns` and `throws`
are how the callback of the innermost one ends. What it throws is a
`std::exception` or not, which `create` tells apart. The kernel's answer to
`bind` is the environment's choice. A handler keeps no `IListener_var` of what it
is told about. A listener is a number, and stands for its object and its socket.
The texts of the errors, the log and the overload of `create` that makes the
context are left out.
-/
import LinSocketIo.Base.Machine
import Mathlib.Data.List.Nodup

namespace LinSocketIo.Core.Server

open LinSocketIo.Base

/-! ## The calls -/

/-- The codes of `IListener`. -/
inductive ErrorCode where
  | bindError
  | repeatError
  deriving DecidableEq, Repr

/-- What the handler of a server is called with. -/
inductive ServerNotice where
  | onListened (port : Int)
  | onClose (port : Int)
  | onError (port : Int) (code : ErrorCode)
  deriving DecidableEq, Repr

/-- A call that is in a callback of its handler. -/
inductive Frame where
  /-- `create`, in `onListened`. -/
  | listened (port : Int) (listener : Nat)
  /-- `create`, in `onError`. -/
  | failed
  /-- `remove`, in `onClose`. -/
  | closing (listener : Nat)
  deriving DecidableEq, Repr

/-- The listener that a call keeps. -/
def Frame.listener : Frame → Option Nat
  | .listened _ listener => some listener
  | .closing listener => some listener
  | .failed => none

structure State where
  /-- `_listeners`. -/
  listeners : List (Int × Nat)
  /-- The number of listeners made so far. -/
  made : Nat
  /-- The listeners whose sockets are open. -/
  opened : List Nat
  /-- The calls that are under way, the innermost first. -/
  calls : List Frame
  notices : List ServerNotice
  deriving DecidableEq, Repr

inductive Event where
  /-- `create`, and whether `bind` will succeed. -/
  | create (port : Int) (binds : Bool)
  | remove (port : Int)
  /-- The callback of the innermost call returns. -/
  | returns
  /-- It throws, a `std::exception` or something else. -/
  | throws (std : Bool)
  deriving DecidableEq, Repr

namespace State

/-- `getListener`. -/
def getListener (s : State) (port : Int) : Option Nat :=
  (s.listeners.find? fun e => e.1 = port).map (·.2)

/-- The table or a call keeps the listener. -/
def keeps (s : State) (listener : Nat) : Bool :=
  (s.listeners.any fun e => e.2 = listener) || s.calls.any fun f => f.listener = some listener

/-- The handler is called, by `f`. -/
def callback (s : State) (f : Frame) (n : ServerNotice) : State :=
  { s with calls := f :: s.calls, notices := s.notices ++ [n] }

/-- `create(context)`. -/
def create (s : State) (port : Int) (binds : Bool) : State :=
  match s.getListener port with
  | some _ => s.callback .failed (.onError port .repeatError)
  | none =>
    if binds then
      { s with
        listeners := (port, s.made) :: s.listeners
        made := s.made + 1
        opened := s.made :: s.opened }.callback (.listened port s.made) (.onListened port)
    else s.callback .failed (.onError port .bindError)

/-- `remove`. -/
def remove (s : State) (port : Int) : State :=
  match s.getListener port with
  | some listener =>
    { s with listeners := s.listeners.filter (·.1 ≠ port) }.callback (.closing listener)
      (.onClose port)
  | none => s

/-- The call `f` lets go of its listener. -/
def release (s : State) (f : Frame) : State :=
  match f.listener with
  | some listener =>
    if s.keeps listener then s else { s with opened := s.opened.filter (· ≠ listener) }
  | none => s

/-- The callback of the innermost call ends. -/
def finish (s : State) (thrown : Option Bool) : Option State :=
  match s.calls with
  | f :: calls =>
    let s := { s with calls := calls }.release f
    match f, thrown with
    | .listened port _, some true =>
      -- a `std::exception` of `onListened`, as one of the constructor
      some (s.callback .failed (.onError port .bindError))
    | _, _ => some s
  | [] => none

/-- One step. -/
def step (s : State) : Event → Option State
  | .create port binds => some (s.create port binds)
  | .remove port => some (s.remove port)
  | .returns => s.finish none
  | .throws std => s.finish (some std)

/-- What the handlers were told of a port: `true` is `onListened`, `false` is `onClose`. -/
def told (s : State) (port : Int) : List Bool :=
  s.notices.filterMap fun
    | .onListened p => if p = port then some true else none
    | .onClose p => if p = port then some false else none
    | .onError _ _ => none

end State

/-- A thread without listeners. -/
def machine : Machine State Event := ⟨⟨[], 0, [], [], []⟩, State.step⟩

/-! ## What holds after any calls -/

/-- `true` and `false` in turn, `k` of them. -/
def alternating (k : Nat) : List Bool := (List.range k).map fun i => decide (i % 2 = 0)

theorem alternating_succ (k : Nat) :
    alternating (k + 1) = alternating k ++ [decide (k % 2 = 0)] := by
  simp [alternating, List.range_succ]

/-- The listeners are in order. -/
structure Tidy (s : State) : Prop where
  /-- A port has one listener in the table. -/
  onePort : (s.listeners.map (·.1)).Nodup
  /-- The sockets that are open are those of the listeners that somebody keeps. -/
  opened : ∀ listener, listener ∈ s.opened ↔ s.keeps listener = true
  /-- `onListened` and `onClose` of a port alternate, and the port is in the table in between. -/
  alternate : ∀ port, ∃ k, s.told port = alternating k ∧ (k % 2 = 1 ↔ s.getListener port ≠ none)

variable {s s' : State} {port : Int} {listener : Nat}

theorem keeps_iff : s.keeps listener = true ↔
    (∃ port, (port, listener) ∈ s.listeners) ∨ ∃ f ∈ s.calls, f.listener = some listener := by
  simp [State.keeps]

theorem mem_of_getListener (h : s.getListener port = some listener) :
    (port, listener) ∈ s.listeners := by
  obtain ⟨e, he, rfl⟩ := Option.map_eq_some_iff.mp h
  have hport : e.1 = port := by simpa using List.find?_some he
  exact hport ▸ List.mem_of_find?_eq_some he

theorem getListener_cons (e : Int × Nat) (port : Int) :
    State.getListener { s with listeners := e :: s.listeners } port =
      if e.1 = port then some e.2 else s.getListener port := by
  unfold State.getListener
  by_cases h : e.1 = port
  · simp [h]
  · simp [h]

theorem getListener_filter (port p : Int) :
    State.getListener { s with listeners := s.listeners.filter (·.1 ≠ port) } p =
      if p = port then none else s.getListener p := by
  unfold State.getListener
  rw [List.find?_filter]
  by_cases h : p = port
  · simp [h]
  · simp only [h, if_false]
    congr 2
    funext e
    grind

namespace Tidy

/-- A callback for an error changes nothing but the calls. -/
theorem onError (h : Tidy s) (port : Int) (code : ErrorCode) :
    Tidy (s.callback .failed (.onError port code)) where
  onePort := h.onePort
  opened listener := by
    rw [show (s.callback .failed (.onError port code)).opened = s.opened from rfl, h.opened]
    simp [State.keeps, State.callback, Frame.listener]
  alternate p := by
    obtain ⟨k, htold, hk⟩ := h.alternate p
    refine ⟨k, ?_, hk⟩
    rw [← htold]
    simp [State.told, State.callback]

theorem create (h : Tidy s) (port : Int) (binds : Bool) : Tidy (s.create port binds) := by
  unfold State.create
  cases hport : s.getListener port with
  | some listener => exact h.onError port .repeatError
  | none =>
    dsimp only
    split
    · have hfree : port ∉ s.listeners.map (·.1) := by
        intro hmem
        obtain ⟨e, he, rfl⟩ := List.mem_map.mp hmem
        simp only [State.getListener, Option.map_eq_none_iff, List.find?_eq_none] at hport
        exact hport e he (by simp)
      refine ⟨List.nodup_cons.mpr ⟨hfree, h.onePort⟩, fun l => ?_, fun p => ?_⟩
      · have := h.opened l
        simp only [State.callback, State.keeps, List.mem_cons, List.any_cons,
          Frame.listener] at this ⊢
        grind
      · obtain ⟨k, htold, hk⟩ := h.alternate p
        have hget : State.getListener (State.callback { s with
            listeners := (port, s.made) :: s.listeners
            made := s.made + 1
            opened := s.made :: s.opened } (.listened port s.made) (.onListened port)) p =
            if port = p then some s.made else s.getListener p := getListener_cons (port, s.made) p
        rw [hget]
        by_cases hp : port = p
        · subst hp
          have heven : k % 2 = 0 := by
            rw [hport] at hk
            simp at hk
            omega
          refine ⟨k + 1, ?_, ?_⟩
          · rw [alternating_succ, ← htold]
            simp [State.told, State.callback, heven]
          · simp
            omega
        · refine ⟨k, ?_, by simpa [hp] using hk⟩
          rw [← htold]
          simp [State.told, State.callback, hp]
    · exact h.onError port .bindError

theorem remove (h : Tidy s) (port : Int) : Tidy (s.remove port) := by
  unfold State.remove
  cases hport : s.getListener port with
  | none => exact h
  | some listener =>
    have hmem := mem_of_getListener hport
    refine ⟨h.onePort.sublist (List.filter_sublist.map _), fun l => ?_, fun p => ?_⟩
    · -- what goes out of the table is kept by the call
      rw [show (State.callback { s with listeners := s.listeners.filter (·.1 ≠ port) }
        (.closing listener) (.onClose port)).opened = s.opened from rfl, h.opened, keeps_iff,
        keeps_iff]
      have honly : ∀ l', (port, l') ∈ s.listeners → l' = listener := by
        intro l' hl'
        have := List.inj_on_of_nodup_map h.onePort hl' hmem rfl
        simpa using this
      simp only [State.callback, List.mem_filter, List.mem_cons, decide_eq_true_eq, ne_eq]
      constructor
      · rintro (⟨p, hp⟩ | ⟨f, hf, hfl⟩)
        · by_cases hpp : p = port
          · subst hpp
            exact Or.inr ⟨_, Or.inl rfl, by rw [honly l hp]; rfl⟩
          · exact Or.inl ⟨p, hp, hpp⟩
        · exact Or.inr ⟨f, Or.inr hf, hfl⟩
      · rintro (⟨p, hp, -⟩ | ⟨f, rfl | hf, hfl⟩)
        · exact Or.inl ⟨p, hp⟩
        · obtain rfl := Option.some.inj hfl
          exact Or.inl ⟨port, hmem⟩
        · exact Or.inr ⟨f, hf, hfl⟩
    · obtain ⟨k, htold, hk⟩ := h.alternate p
      have hget : State.getListener (State.callback { s with
          listeners := s.listeners.filter (·.1 ≠ port) } (.closing listener) (.onClose port)) p =
          if p = port then none else s.getListener p := getListener_filter port p
      rw [hget]
      by_cases hp : p = port
      · subst hp
        have hodd : k % 2 = 1 := by simpa [hport] using hk
        refine ⟨k + 1, ?_, ?_⟩
        · rw [alternating_succ, ← htold]
          simp [State.told, State.callback, hodd]
        · simp
          omega
      · refine ⟨k, ?_, by simpa [hp] using hk⟩
        rw [← htold]
        simp [State.told, State.callback, Ne.symm hp]

/-- A call that has ended lets go of its listener. -/
theorem release {f : Frame} {calls : List Frame} (h : Tidy s) (hcalls : s.calls = f :: calls) :
    Tidy ({ s with calls := calls }.release f) := by
  unfold State.release
  cases hf : f.listener with
  | none =>
    refine ⟨h.onePort, fun l => ?_, h.alternate⟩
    have := h.opened l
    simp only [State.keeps, hcalls, List.any_cons, hf] at this ⊢
    simpa using this
  | some listener =>
    dsimp only
    split
    · next hkept =>
      refine ⟨h.onePort, fun l => ?_, h.alternate⟩
      have := h.opened l
      simp only [State.keeps, hcalls, List.any_cons, hf] at this hkept ⊢
      grind
    · next hkept =>
      refine ⟨h.onePort, fun l => ?_, h.alternate⟩
      have := h.opened l
      simp only [State.keeps, hcalls, List.any_cons, hf, List.mem_filter] at this hkept ⊢
      grind

theorem finish {thrown : Option Bool} (h : Tidy s) (hs : s.finish thrown = some s') : Tidy s' := by
  unfold State.finish at hs
  split at hs
  · next f calls hcalls =>
    have hrest := h.release hcalls
    dsimp only at hs
    split at hs
    · obtain rfl := Option.some.inj hs
      exact hrest.onError _ .bindError
    · obtain rfl := Option.some.inj hs
      exact hrest
  · cases hs

theorem step {ev : Event} (h : Tidy s) (hs : s.step ev = some s') : Tidy s' := by
  cases ev with
  | create port binds =>
    obtain rfl := Option.some.inj hs
    exact h.create port binds
  | remove port =>
    obtain rfl := Option.some.inj hs
    exact h.remove port
  | returns => exact h.finish hs
  | throws std => exact h.finish hs

end Tidy

/-- **The listeners of a thread**: after any calls of `create` and `remove`, however the handlers
nest them and end them, a port has at most one listener, its `onListened` and `onClose` alternate
with the port in the table in between, and the open sockets are those of the listeners in the
table and in the calls that are under way. -/
theorem listeners_tidy (evs : List Event) (s : State)
    (hrun : machine.run machine.init evs = some s) : Tidy s := by
  refine machine.run_invariant (C := fun _ _ => True) (fun _ _ _ h _ hs => h.step hs) evs ?_
    (Machine.allSteps_of_forall _ (fun _ _ => trivial) _) hrun
  exact ⟨List.nodup_nil, fun l => by simp [machine, State.keeps], fun p => ⟨0, rfl, by
    simp [machine, State.getListener]⟩⟩

/-- `onListened` removes its own port and listens on it again. -/
def nested : List Event :=
  [.create 80 true, .remove 80, .create 80 true, .returns, .returns, .returns, .create 80 true]

theorem listeners_tidy_nested :
    ∃ s, machine.run machine.init nested = some s ∧ Tidy s :=
  ⟨_, rfl, listeners_tidy nested _ rfl⟩

/-- `onListened` throws: `create` reports an error, and the port has its listener all the same. -/
example : (machine.run machine.init [.create 80 true, .throws true, .returns]).map
    (fun s => (s.listeners, s.opened, s.notices)) =
      some ([(80, 0)], [0], [.onListened 80, .onError 80 .bindError]) := by decide

end LinSocketIo.Core.Server
