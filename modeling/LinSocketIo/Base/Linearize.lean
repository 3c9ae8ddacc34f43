/-
LinSocketIo.Base.Linearize — methods that several threads call at once.

A method is a program of steps, each of which happens at once on what the
threads share (`Methods`). The threads call methods and return from them in
any order (`Methods.machine`). To those who call them the methods are an object
whose operations happen at once (`atomic`) if every run is, up to the steps
inside, a run of that object (`Methods.Linearizable`): each operation takes
effect in one step between its call and its return.

* `linearizable_of_follows` — each move of the methods is the same move of the object,
  or it is inside a method and nothing to the object.
* `linearizable_of_last` — methods that change what is shared only as they end.
* `lockFree_of_measure` — while no method ends, a thread makes only so many steps.
-/
import Mathlib.Logic.Function.Basic
import LinSocketIo.Base.Machine

namespace LinSocketIo.Base

variable {M A L Op Res : Type}

/-- What a thread does: it calls a method, does a step inside one, or returns from one. -/
inductive Move (Op Res : Type) where
  | call (i : Nat) (op : Op)
  | inner (i : Nat)
  | ret (i : Nat) (res : Res)

/-- The move is a call or a return. -/
def Move.visible : Move Op Res → Bool
  | .call _ _ | .ret _ _ => true
  | .inner _ => false

/-- A step of thread `i` inside a method. -/
def Move.ofThread (i : Nat) : Move Op Res → Bool
  | .inner j => j = i
  | .call _ _ | .ret _ _ => false

/-- Where a thread is: the places inside a method are `L`. -/
inductive Activity (L Res : Type) where
  | idle
  | inside (l : L)
  | done (res : Res)

/-- What a step leads to: the next place of the method, or its end. -/
inductive Next (L Res : Type) where
  | goOn (l : L)
  | returns (res : Res)

/-- Where the thread is then. -/
def Next.activity : Next L Res → Activity L Res
  | .goOn l => .inside l
  | .returns res => .done res

/-- What the threads share, and where each of them is. -/
structure Threads (M L Res : Type) where
  shared : M
  activity : Nat → Activity L Res

/-- Methods on a shared `M`: where an operation starts, and what a step does. -/
structure Methods (M L Op Res : Type) where
  start : Op → L
  step : L → M → M × Next L Res

/-- The object on which an operation is one step. -/
def atomic (apply : Op → A → A × Res) : Methods A Op Op Res where
  start op := op
  step op a := ((apply op a).1, .returns (apply op a).2)

/-- A thread goes somewhere else. -/
def Threads.goTo (s : Threads M L Res) (i : Nat) (a : Activity L Res) : Threads M L Res :=
  { s with activity := Function.update s.activity i a }

@[simp] theorem Threads.goTo_shared (s : Threads M L Res) (i : Nat) (a : Activity L Res) :
    (s.goTo i a).shared = s.shared := rfl

@[simp] theorem Threads.goTo_self (s : Threads M L Res) (i : Nat) (a : Activity L Res) :
    (s.goTo i a).activity i = a := by
  simp [Threads.goTo]

theorem Threads.goTo_other (s : Threads M L Res) {i j : Nat} (a : Activity L Res) (h : j ≠ i) :
    (s.goTo i a).activity j = s.activity j := by
  simp [Threads.goTo, h]

@[simp] theorem Threads.goTo_activity (s : Threads M L Res) (i : Nat) :
    s.goTo i (s.activity i) = s := by
  simp [Threads.goTo]

namespace Methods

variable (x : Methods M L Op Res)

section Moves

variable [DecidableEq Res]

/-- A move, if the thread can make it. -/
def move (s : Threads M L Res) : Move Op Res → Option (Threads M L Res)
  | .call i op =>
    match s.activity i with
    | .idle => some (s.goTo i (.inside (x.start op)))
    | .inside _ | .done _ => none
  | .inner i =>
    match s.activity i with
    | .inside l =>
      some ({ s with shared := (x.step l s.shared).1 }.goTo i (x.step l s.shared).2.activity)
    | .idle | .done _ => none
  | .ret i res =>
    match s.activity i with
    | .done r => if r = res then some (s.goTo i .idle) else none
    | .idle | .inside _ => none

/-- Any number of threads, which call nothing yet. -/
def machine (m : M) : Machine (Threads M L Res) (Move Op Res) := ⟨⟨m, fun _ => .idle⟩, x.move⟩

/-- The methods are, to those who call them, the object whose operations `apply` does at once,
and its value is in what is shared whenever no thread is inside a method. -/
def Linearizable (m : M) (apply : Op → A → A × Res) (value : M → A) : Prop :=
  ∀ moves s, (x.machine m).run (x.machine m).init moves = some s →
    ∃ moves' t, ((atomic apply).machine (value m)).run ((atomic apply).machine (value m)).init
        moves' = some t ∧
      moves'.filter Move.visible = moves.filter Move.visible ∧
      ((∀ i l, s.activity i ≠ .inside l) → t.shared = value s.shared)

variable {x} {s s' : Threads M L Res} {i : Nat} {res : Res} {op : Op}

theorem move_call : x.move s (.call i op) = some s' ↔
    s.activity i = .idle ∧ s' = s.goTo i (.inside (x.start op)) := by
  cases h : s.activity i <;> simp [move, h, eq_comm]

theorem move_inner : x.move s (.inner i) = some s' ↔
    ∃ l, s.activity i = .inside l ∧
      s' = { s with shared := (x.step l s.shared).1 }.goTo i (x.step l s.shared).2.activity := by
  cases h : s.activity i <;> simp [move, h, eq_comm]

theorem move_ret : x.move s (.ret i res) = some s' ↔
    s.activity i = .done res ∧ s' = s.goTo i .idle := by
  cases h : s.activity i <;> simp [move, h, eq_comm]

end Moves

/-- What a method does from a place on if no other thread makes a step. -/
inductive Alone (x : Methods M L Op Res) : L → M → M × Res → Prop where
  | last {l : L} {m m' : M} {res : Res} (h : x.step l m = (m', .returns res)) :
    Alone x l m (m', res)
  | more {l l' : L} {m m' : M} {out : M × Res} (h : x.step l m = (m', .goOn l'))
    (hrest : Alone x l' m' out) : Alone x l m out

/-! ## Two rules -/

variable {x} {s s' : Threads M L Res} {apply : Op → A → A × Res} {value : M → A}
  {t : Threads A Op Res}

/-- Where a thread of the object is while a thread of the methods is where it is: `P` says it
for the places inside a method. -/
def Stands (P : L → Activity Op Res → Prop) : Activity L Res → Activity Op Res → Prop
  | .idle, b => b = .idle
  | .inside l, b => P l b
  | .done res, b => b = .done res

/-- A thread goes somewhere on both sides. -/
theorem stands_goTo {P : L → Activity Op Res → Prop}
    (h : ∀ i, Stands P (s.activity i) (t.activity i)) (i : Nat) {a : Activity L Res}
    {b : Activity Op Res} (hab : Stands P a b) (j : Nat) :
    Stands P ((s.goTo i a).activity j) ((t.goTo i b).activity j) := by
  by_cases hj : j = i
  · subst hj
    rwa [Threads.goTo_self, Threads.goTo_self]
  · rw [Threads.goTo_other s a hj, Threads.goTo_other t b hj]
    exact h j

/-- A thread goes on, and the object does nothing. -/
theorem stands_goOn {P : L → Activity Op Res → Prop}
    (h : ∀ i, Stands P (s.activity i) (t.activity i)) (i : Nat) {a : Activity L Res}
    (ha : Stands P a (t.activity i)) (j : Nat) :
    Stands P ((s.goTo i a).activity j) (t.activity j) := by
  by_cases hj : j = i
  · subst hj
    rwa [Threads.goTo_self]
  · rw [Threads.goTo_other s a hj]
    exact h j

variable [DecidableEq Res]

/-- What a move of the methods is to the object: the same move, or nothing if it is inside a
method. -/
def Matched (apply : Op → A → A × Res) (R : Threads A Op Res → Prop) (t : Threads A Op Res)
    (mv : Move Op Res) : Prop :=
  (∃ t', (atomic apply).move t mv = some t' ∧ R t') ∨ mv.visible = false ∧ R t

/-- **Simulation**: the states of the object that follow those of the methods. -/
theorem linearizable_of_follows {m : M} {R : Threads M L Res → Threads A Op Res → Prop}
    (hinit : R (x.machine m).init ((atomic apply).machine (value m)).init)
    (hshared : ∀ s t, R s t → (∀ i l, s.activity i ≠ .inside l) → t.shared = value s.shared)
    (hmove : ∀ s t mv s', R s t → x.move s mv = some s' → Matched apply (R s') t mv) :
    x.Linearizable m apply value := by
  have hruns : ∀ (moves : List (Move Op Res)) (s s' : Threads M L Res) (t : Threads A Op Res),
      R s t → (x.machine m).run s moves = some s' →
        ∃ moves' t', ((atomic apply).machine (value m)).run t moves' = some t' ∧
          moves'.filter Move.visible = moves.filter Move.visible ∧ R s' t' := by
    intro moves
    induction moves with
    | nil =>
      intro s s' t h hrun
      obtain rfl := Option.some.inj hrun
      exact ⟨[], t, rfl, rfl, h⟩
    | cons mv moves ih =>
      intro s s' t h hrun
      obtain ⟨u, hu, hrun⟩ := (Machine.run_cons_some _).mp hrun
      rcases hmove s t mv u h hu with ⟨t', ht', h'⟩ | ⟨hinside, h'⟩
      · obtain ⟨moves', t₁, hrun', hvisible, hend⟩ := ih u s' t' h' hrun
        refine ⟨mv :: moves', t₁, (Machine.run_cons_some _).mpr ⟨t', ht', hrun'⟩, ?_, hend⟩
        rw [List.filter_cons, List.filter_cons, hvisible]
      · obtain ⟨moves', t₁, hrun', hvisible, hend⟩ := ih u s' t h' hrun
        refine ⟨moves', t₁, hrun', ?_, hend⟩
        rw [List.filter_cons, hinside, hvisible]
        rfl
  intro moves s hrun
  obtain ⟨moves', t, hrun', hvisible, h⟩ := hruns moves _ s _ hinit hrun
  exact ⟨moves', t, hrun', hvisible, hshared s t h⟩

/-- **Methods that change what is shared only as they end**: what they do then is the operation.
`Runs` says which places belong to an operation. -/
theorem linearizable_of_last {x : Methods A L Op Res} {a : A} {Runs : Op → L → Prop}
    (hstart : ∀ op, Runs op (x.start op))
    (hinner : ∀ op l a, Runs op l → (∃ l', x.step l a = (a, .goOn l') ∧ Runs op l') ∨
      x.step l a = ((apply op a).1, .returns (apply op a).2)) :
    x.Linearizable a apply id := by
  refine linearizable_of_follows (R := fun s t => t.shared = s.shared ∧ ∀ i,
    Stands (fun l b => ∃ op, b = .inside op ∧ Runs op l) (s.activity i) (t.activity i))
    ⟨rfl, fun _ => rfl⟩ (fun s t h _ => h.1) ?_
  rintro s t mv s' ⟨hshared, hstands⟩ hmove
  cases mv with
  | call i op =>
    obtain ⟨hidle, rfl⟩ := move_call.mp hmove
    have hi := hstands i
    rw [hidle] at hi
    exact Or.inl ⟨_, move_call.mpr ⟨hi, rfl⟩, hshared, stands_goTo hstands i ⟨op, rfl, hstart op⟩⟩
  | ret i res =>
    obtain ⟨hdone, rfl⟩ := move_ret.mp hmove
    have hi := hstands i
    rw [hdone] at hi
    exact Or.inl ⟨_, move_ret.mpr ⟨hi, rfl⟩, hshared, stands_goTo hstands i rfl⟩
  | inner i =>
    obtain ⟨l, hl, rfl⟩ := move_inner.mp hmove
    have hi := hstands i
    rw [hl] at hi
    obtain ⟨op, hop, hruns⟩ := hi
    rcases hinner op l s.shared hruns with ⟨l', hstep, hl'⟩ | hstep
    · rw [hstep]
      exact Or.inr ⟨rfl, hshared, stands_goOn hstands i ⟨op, hop, hl'⟩⟩
    · rw [hstep]
      refine Or.inl ⟨_, move_inner.mpr ⟨op, hop, rfl⟩, ?_, stands_goTo hstands i ?_⟩
      · rw [hshared]
        rfl
      · rw [hshared]
        rfl

/-! ## Progress -/

/-- The move ends a method. -/
def Ends (x : Methods M L Op Res) (s : Threads M L Res) (mv : Move Op Res) : Prop :=
  ∃ i l res, mv = .inner i ∧ s.activity i = .inside l ∧ (x.step l s.shared).2 = .returns res

/-- In a run in which no method ends, no thread makes more than `n` steps. -/
def LockFree (x : Methods M L Op Res) (n : Nat) : Prop :=
  ∀ (m : M) (s s' : Threads M L Res) (moves : List (Move Op Res)) (i : Nat),
    (x.machine m).run s moves = some s' →
    (x.machine m).AllSteps (fun s mv => ¬ x.Ends s mv) s moves →
      moves.countP (Move.ofThread i) ≤ n

/-- The steps a thread has left: `left` says how many it has inside a method. -/
def budget (left : L → M → Nat) (n : Nat) (s : Threads M L Res) (i : Nat) : Nat :=
  match s.activity i with
  | .inside l => left l s.shared
  | .idle | .done _ => n

omit [DecidableEq Res] in
theorem budget_goTo_other (left : L → M → Nat) (n : Nat) {i j : Nat} (a : Activity L Res)
    (h : j ≠ i) : budget left n (s.goTo i a) j = budget left n s j := by
  simp [budget, Threads.goTo_other s a h]

/-- **Progress**: if a step that does not end its method changes nothing that is shared and
leaves fewer steps, methods of at most `n` steps are lock-free. -/
theorem lockFree_of_measure {left : L → M → Nat} {n : Nat} (hbound : ∀ l m, left l m ≤ n)
    (hstep : ∀ l m, (∃ res, (x.step l m).2 = .returns res) ∨
      ∃ l', x.step l m = (m, .goOn l') ∧ left l' m < left l m) : x.LockFree n := by
  have hall : ∀ (m : M) (i : Nat) (moves : List (Move Op Res)) (s s' : Threads M L Res),
      (x.machine m).run s moves = some s' →
      (x.machine m).AllSteps (fun s mv => ¬ x.Ends s mv) s moves →
        moves.countP (Move.ofThread i) ≤ budget left n s i := by
    intro m i moves
    induction moves with
    | nil =>
      intro s s' _ _
      exact Nat.zero_le _
    | cons mv moves ih =>
      intro s s' hrun hends
      obtain ⟨t, hmove, hrun⟩ := (Machine.run_cons_some _).mp hrun
      have hrest := ih t s' hrun (hends.2 t hmove)
      have hmove : x.move s mv = some t := hmove
      cases mv with
      | call j op =>
        obtain ⟨hidle, rfl⟩ := move_call.mp hmove
        rw [List.countP_cons_of_neg Bool.false_ne_true]
        by_cases hj : i = j
        · subst hj
          simp only [budget, hidle, Threads.goTo_self, Threads.goTo_shared] at hrest ⊢
          exact Nat.le_trans hrest (hbound _ _)
        · rwa [budget_goTo_other left n _ hj] at hrest
      | ret j res =>
        obtain ⟨hdone, rfl⟩ := move_ret.mp hmove
        rw [List.countP_cons_of_neg Bool.false_ne_true]
        by_cases hj : i = j
        · subst hj
          simpa [budget, hdone] using hrest
        · rwa [budget_goTo_other left n _ hj] at hrest
      | inner j =>
        obtain ⟨l, hl, rfl⟩ := move_inner.mp hmove
        rcases hstep l s.shared with ⟨res, hdone⟩ | ⟨l', hl', hless⟩
        · exact absurd ⟨j, l, res, rfl, hl, hdone⟩ hends.1
        · rw [hl'] at hrest
          by_cases hj : i = j
          · subst hj
            have hself : Move.ofThread i (.inner i : Move Op Res) = true := decide_eq_true rfl
            rw [List.countP_cons_of_pos hself]
            simp only [budget, hl, Next.activity, Threads.goTo_self, Threads.goTo_shared] at hrest ⊢
            omega
          · have hother : ¬ Move.ofThread i (.inner j : Move Op Res) = true :=
              fun h => hj (of_decide_eq_true h).symm
            rw [List.countP_cons_of_neg hother]
            rwa [budget_goTo_other left n _ hj] at hrest
  intro m s s' moves i hrun hends
  refine Nat.le_trans (hall m i moves s s' hrun hends) ?_
  unfold budget
  split
  · exact hbound _ _
  · exact Nat.le_refl n
  · exact Nat.le_refl n

end Methods

end LinSocketIo.Base
