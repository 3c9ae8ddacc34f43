/-
LinSocketIo.Core.LocalStorage — `LocalStorage` of `core/coroutine.h`, and whether
a coroutine reads what another one set.

`get` takes the value of a child from its map and returns, but `set` stores it in
the map and then in the thread's own slot as well: the slot is what the main
coroutine reads. What a child sets stays hidden from the other children.

* `isolated_iff` — the runs in which every `get` returns what its own coroutine
  set, and no `set` changes what another coroutine reads.

Modelling notes. A storage is its key, and is not destroyed. A pointer is `none`
where it is null. `pthread_setspecific` does not fail.
-/
import LinSocketIo.Core.CoroutineTheorems

namespace LinSocketIo.Core

open LinSocketIo.Base

/-- A thread with its local storages. -/
structure LocalStorages (A V : Type) where
  thread : Coroutines A
  /-- `_tls` of each coroutine; a key that it lacks reads as null. -/
  tls : Nat → Nat → Option V
  /-- What the thread holds for each key. -/
  specific : Nat → Option V
  /-- What `get` returned. -/
  got : List (Option V)

namespace LocalStorages

variable {A V : Type}

/-- `Coroutine::setspecific`. -/
def setspecific (s : LocalStorages A V) (co key : Nat) (p : Option V) : LocalStorages A V :=
  { s with tls := Function.update s.tls co (Function.update (s.tls co) key p) }

/-- `Coroutine::getspecific`. -/
def getspecific (s : LocalStorages A V) (co key : Nat) : Option V := s.tls co key

/-- `pthread_setspecific`. -/
def pthreadSetspecific (s : LocalStorages A V) (key : Nat) (p : Option V) : LocalStorages A V :=
  { s with specific := Function.update s.specific key p }

/-- `LocalStorage::get`. -/
def get (s : LocalStorages A V) (key : Nat) : Option V :=
  match s.thread.running with
  | some co => s.getspecific co key
  | none => s.specific key

/-- `LocalStorage::set`. -/
def set (s : LocalStorages A V) (key : Nat) (p : Option V) : LocalStorages A V :=
  let s := match s.thread.running with
    | some co => s.setspecific co key p
    | none => s
  -- No `return` stands in the branch of the child.
  s.pthreadSetspecific key p

/-- What the coroutine that has control does next. -/
inductive Event (A V : Type) where
  | thread (ev : Coroutines.Event A)
  | set (key : Nat) (p : Option V)
  | get (key : Nat)

def step (s : LocalStorages A V) : Event A V → Option (LocalStorages A V)
  | .thread ev => (s.thread.step ev).map fun t => { s with thread := t }
  | .set key p => some (s.set key p)
  | .get key => some { s with got := s.got ++ [s.get key] }

def start : LocalStorages A V where
  thread := Coroutines.start
  tls _ _ := none
  specific _ := none
  got := []

def machine (A V : Type) : Machine (LocalStorages A V) (Event A V) where
  init := start
  step := step

/-! ## The property -/

/-- What each coroutine, or the main one, last set for each storage. -/
abbrev Sets (V : Type) := Option Nat → Nat → Option V

def noteSet (s : LocalStorages A V) (ev : Event A V) (_ : LocalStorages A V) (last : Sets V) :
    Sets V :=
  match ev with
  | .set key p =>
    Function.update last s.thread.control (Function.update (last s.thread.control) key p)
  | .thread _ | .get _ => last

/-- The thread, watched. -/
def watched (A V : Type) : Machine (LocalStorages A V × Sets V) (Event A V) :=
  (machine A V).watch (fun _ _ => none) noteSet

/-- What `get` returns in a coroutine. -/
def reads (s : LocalStorages A V) (who : Option Nat) (key : Nat) : Option V :=
  { s with thread := { s.thread with running := who } }.get key

/-- `get` returns what its own coroutine set, and nothing changes what another one reads. -/
structure Isolated (last : Sets V) (s : LocalStorages A V) (ev : Event A V)
    (s' : LocalStorages A V) : Prop where
  got : ∀ key, ev = .get key → s'.got = s.got ++ [last s.thread.control key]
  others : ∀ who, who ≠ s.thread.control → ∀ key, s'.reads who key = s.reads who key

/-- A step does so. -/
def Meets (s : LocalStorages A V × Sets V) (ev : Event A V) : Prop :=
  ∀ s', s.1.step ev = some s' → Isolated s.2 s.1 ev s'

/-- A child sets only what the main coroutine has set already. -/
def Follows (s : LocalStorages A V) : Event A V → Prop
  | .set key p => s.thread.control = none ∨ s.reads none key = p
  | .thread _ | .get _ => True

/-! ## What the calls read and write -/

variable {s : LocalStorages A V}

@[simp] theorem reads_none (s : LocalStorages A V) (key : Nat) :
    s.reads none key = s.specific key := rfl

@[simp] theorem reads_some (s : LocalStorages A V) (co key : Nat) :
    s.reads (some co) key = s.tls co key := rfl

/-- `get` reads for the coroutine that has control. -/
theorem get_eq_reads (hs : s.thread.Inv) (key : Nat) : s.get key = s.reads s.thread.control key := by
  rw [← hs.running]
  rfl

/-- `set` in the main coroutine. -/
theorem reads_set_main (hs : s.thread.Inv) (hmain : s.thread.control = none) (key : Nat)
    (p : Option V) (who : Option Nat) (key' : Nat) : (s.set key p).reads who key' =
      if who = none ∧ key' = key then p else s.reads who key' := by
  have hrunning : s.thread.running = none := hs.running.trans hmain
  simp only [set, hrunning, pthreadSetspecific]
  cases who with
  | none => simp only [reads_none, Function.update_apply, true_and]
  | some co => simp only [reads_some, reduceCtorEq, false_and, if_false]

/-- `set` in a child writes what the child reads, and what the main coroutine reads. -/
theorem reads_set_child (hs : s.thread.Inv) {self : Nat} (hself : s.thread.control = some self)
    (key : Nat) (p : Option V) (who : Option Nat) (key' : Nat) : (s.set key p).reads who key' =
      if (who = none ∨ who = some self) ∧ key' = key then p else s.reads who key' := by
  have hrunning : s.thread.running = some self := hs.running.trans hself
  simp only [set, hrunning, pthreadSetspecific, setspecific]
  cases who with
  | none => simp only [reads_none, Function.update_apply, true_or, true_and]
  | some co =>
      simp only [reads_some, reduceCtorEq, false_or, Option.some.injEq]
      by_cases hco : co = self
      · subst hco
        simp only [Function.update_self, Function.update_apply, true_and]
      · simp only [Function.update_of_ne hco, hco, false_and, if_false]

/-! ## The invariant -/

/-- Every coroutine reads what it last set. -/
structure Keeps (s : LocalStorages A V × Sets V) : Prop where
  thread : s.1.thread.Inv
  reads : ∀ who key, s.1.reads who key = s.2 who key

theorem keeps_start : Keeps (A := A) (V := V) (start, fun _ _ => none) where
  thread := Coroutines.inv_start
  reads who _ := by cases who <;> rfl

/-- The coroutine that sets reads it. -/
theorem reads_set_self (hs : s.thread.Inv) (key : Nat) (p : Option V) (key' : Nat) :
    (s.set key p).reads s.thread.control key' =
      if key' = key then p else s.reads s.thread.control key' := by
  rcases Option.eq_none_or_eq_some s.thread.control with hc | ⟨self, hc⟩
  · rw [reads_set_main hs hc, hc]
    simp only [true_and]
  · rw [reads_set_child hs hc, hc]
    simp only [or_true, true_and]

theorem set_thread (s : LocalStorages A V) (key : Nat) (p : Option V) :
    (s.set key p).thread = s.thread := by
  unfold set
  cases s.thread.running <;> rfl

/-- A step that disturbs no other coroutine keeps it. -/
theorem keeps_step {s s' : LocalStorages A V × Sets V} (hs : Keeps s) {ev : Event A V}
    (hmeets : Meets s ev) (h : (watched A V).step s ev = some s') : Keeps s' := by
  obtain ⟨t, ht, rfl⟩ := (Machine.watch_step _).mp h
  cases ev with
  | thread ev =>
      obtain ⟨t', ht', rfl⟩ := Option.map_eq_some_iff.mp ht
      refine ⟨Coroutines.inv_step hs.thread ht', fun who key => ?_⟩
      rw [show noteSet s.1 (.thread ev) _ s.2 = s.2 from rfl, ← hs.reads]
      cases who <;> rfl
  | get key =>
      obtain rfl := Option.some.inj ht
      refine ⟨hs.thread, fun who key' => ?_⟩
      rw [show noteSet s.1 (.get key) _ s.2 = s.2 from rfl, ← hs.reads]
      cases who <;> rfl
  | set key p =>
      have hothers := (hmeets t ht).others
      obtain rfl := Option.some.inj ht
      refine ⟨(set_thread s.1 key p).symm ▸ hs.thread, fun who key' => ?_⟩
      by_cases hwho : who = s.1.thread.control
      · subst hwho
        simp only [noteSet, Function.update_self, Function.update_apply, ← hs.reads]
        exact reads_set_self hs.thread key p key'
      · simp only [noteSet, Function.update_of_ne hwho, ← hs.reads]
        exact hothers who hwho key'

/-- One step. -/
theorem meets_iff {s : LocalStorages A V × Sets V} (hs : Keeps s) (ev : Event A V) :
    Meets s ev ↔ Follows s.1 ev := by
  cases ev with
  | thread ev =>
      refine iff_of_true (fun t ht => ?_) trivial
      obtain ⟨t', _, rfl⟩ := Option.map_eq_some_iff.mp ht
      exact ⟨(fun _ h => by cases h), fun who _ _ => by cases who <;> rfl⟩
  | get key =>
      refine iff_of_true (fun t ht => ?_) trivial
      obtain rfl := Option.some.inj ht
      refine ⟨fun key' h => ?_, fun who _ _ => by cases who <;> rfl⟩
      obtain rfl := Event.get.inj h
      rw [get_eq_reads hs.thread, hs.reads]
  | set key p =>
      constructor
      · intro h
        rcases Option.eq_none_or_eq_some s.1.thread.control with hc | ⟨self, hc⟩
        · exact Or.inl hc
        · -- The main coroutine reads the slot, which the child has written.
          have hmain := (h _ rfl).others none (hc ▸ (Option.some_ne_none self).symm) key
          rw [reads_set_child hs.thread hc, if_pos ⟨Or.inl rfl, rfl⟩] at hmain
          exact Or.inr hmain.symm
      · rintro hfollows t ht
        obtain rfl := Option.some.inj ht
        refine ⟨(fun _ h => by cases h), fun who hwho key' => ?_⟩
        rcases Option.eq_none_or_eq_some s.1.thread.control with hc | ⟨self, hc⟩
        · rw [reads_set_main hs.thread hc, if_neg fun h => hwho (h.1.trans hc.symm)]
        · rw [reads_set_child hs.thread hc]
          split
          · rename_i hw
            obtain ⟨hw | hw, rfl⟩ := hw
            · rcases hfollows with hf | hf
              · exact absurd (hc.symm.trans hf) (Option.some_ne_none self)
              · rw [hw, hf]
            · exact absurd (hw.trans hc.symm) hwho
          · rfl

/-! ## Runs -/

/-- In every run, the storages of the coroutines are isolated just where each child that sets a
storage sets what the main coroutine reads there. -/
theorem isolated_iff (evs : List (Event A V)) :
    (watched A V).AllSteps Meets (start, fun _ _ => none) evs ↔
      (watched A V).AllSteps (fun s ev => Follows s.1 ev) (start, fun _ _ => none) evs :=
  (watched A V).allSteps_iff_of_guarded (C := fun _ _ => True) (P := Keeps)
    (fun _ ev hs _ => meets_iff hs ev) (fun _ _ _ hs _ hmeets h => keeps_step hs hmeets h) evs
    keeps_start ((watched A V).allSteps_of_forall (fun _ _ => trivial) _)

/-- A child sets a storage, and the main coroutine, which set nothing, reads its value. -/
theorem main_reads_child : ∃ s, (machine Nat Nat).run start
      [.thread .create, .thread (.resume 0 none true), .set 0 (some 7), .thread (.yield true),
        .get 0] = some s ∧ s.got = [some 7] ∧
    ¬ (watched Nat Nat).AllSteps Meets (start, fun _ _ => none)
      [.thread .create, .thread (.resume 0 none true), .set 0 (some 7), .thread (.yield true),
        .get 0] := by
  refine ⟨_, rfl, rfl, fun h => ?_⟩
  have hset := ((h.2 _ rfl).2 _ rfl).1
  have hmain := (hset _ rfl).others none (fun h => by cases h) 0
  cases hmain

end LocalStorages

end LinSocketIo.Core
