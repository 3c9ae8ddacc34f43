/-
LinSocketIo.Base.Machine — deterministic machines with partial steps, the
runs they make, and the two inductions every run-level result rests on.

A `Machine σ ι` moves from a state `s : σ` on an input `i : ι`; `none`
says that the input is not possible in that state. `run` folds the step
along a list of inputs. `AllSteps C` says that each step of a run
satisfies `C` in the state before it, which is how a condition on the
inputs of a run and a property of each of its steps are both written.

* `run_invariant` — what every step keeps, a run keeps.
* `allSteps_of_invariant` — what an invariant gives at one step, it gives
  at every step of a run.
* `run_simulates` — a step simulation lifts to runs. The abstract side is
  a relation, so an abstract step may leave part of its result open.
* `watch` adds a history variable to a machine.
-/
import Mathlib.Data.List.Basic

namespace LinSocketIo.Base

/-- An initial state and a step function that is partial: `none` means the
input is not possible in the state. -/
structure Machine (σ ι : Type) where
  init : σ
  step : σ → ι → Option σ

/-- A run of a relational specification. -/
def RelRun {τ κ : Type} (A : τ → κ → τ → Prop) : τ → List κ → τ → Prop
  | a, [], b => a = b
  | a, k :: ks, b => ∃ c, A a k c ∧ RelRun A c ks b

/-- A relational run of a function is its fold. -/
theorem relRun_fun {τ κ : Type} (f : τ → κ → τ) : ∀ (ks : List κ) (a b : τ),
    RelRun (fun a k b => b = f a k) a ks b ↔ b = ks.foldl f a
  | [], a, b => by simp [RelRun, eq_comm]
  | k :: ks, a, b => by simp [RelRun, relRun_fun f ks]

namespace Machine

variable {σ ι τ : Type} (m : Machine σ ι)

/-- The state after a list of inputs, `none` when one of them is not
possible where it comes. -/
def run : σ → List ι → Option σ
  | s, [] => some s
  | s, i :: is => (m.step s i).bind fun s' => run s' is

/-- Each step of the run satisfies `C` in the state before it. -/
def AllSteps (C : σ → ι → Prop) : σ → List ι → Prop
  | _, [] => True
  | s, i :: is => C s i ∧ ∀ s', m.step s i = some s' → AllSteps C s' is

instance instDecidableAllSteps {C : σ → ι → Prop} [∀ s i, Decidable (C s i)] :
    ∀ (s : σ) (is : List ι), Decidable (m.AllSteps C s is)
  | _, [] => isTrue trivial
  | s, i :: is =>
    match h : m.step s i with
    | none => decidable_of_iff (C s i) (by simp [AllSteps, h])
    | some t =>
      have : Decidable (m.AllSteps C t is) := instDecidableAllSteps t is
      decidable_of_iff (C s i ∧ m.AllSteps C t is) (by simp [AllSteps, h])

/-- A condition on the inputs alone. -/
theorem allSteps_of_forall {P : ι → Prop} : ∀ {is : List ι}, (∀ i ∈ is, P i) → ∀ s : σ,
    m.AllSteps (fun _ i => P i) s is
  | [], _, _ => trivial
  | _ :: _, h, _ => ⟨h _ (by simp), fun t _ =>
      allSteps_of_forall (fun j hj => h j (List.mem_cons_of_mem _ hj)) t⟩

theorem allSteps_and {C D : σ → ι → Prop} : ∀ {is : List ι} {s : σ}, m.AllSteps C s is →
    m.AllSteps D s is → m.AllSteps (fun s i => C s i ∧ D s i) s is
  | [], _, _, _ => trivial
  | _ :: _, _, hc, hd => ⟨⟨hc.1, hd.1⟩, fun t ht => allSteps_and (hc.2 t ht) (hd.2 t ht)⟩

@[simp] theorem run_nil (s : σ) : m.run s [] = some s := rfl

theorem run_cons_some {s s' : σ} {i : ι} {is : List ι} :
    m.run s (i :: is) = some s' ↔
      ∃ t, m.step s i = some t ∧ m.run t is = some s' := by
  simp only [run, Option.bind_eq_some_iff]

theorem allSteps_append (C : σ → ι → Prop) : ∀ (is js : List ι) (s : σ),
    m.AllSteps C s (is ++ js) ↔
      m.AllSteps C s is ∧ ∀ t, m.run s is = some t → m.AllSteps C t js
  | [], js, s => by simp [AllSteps]
  | i :: is, js, s => by
      simp only [List.cons_append, AllSteps, run_cons_some, and_assoc,
        and_congr_right_iff]
      intro _
      constructor
      · intro h
        refine ⟨fun s' hs => ((allSteps_append C is js s').mp (h s' hs)).1, ?_⟩
        rintro t ⟨s', hs, ht⟩
        exact ((allSteps_append C is js s').mp (h s' hs)).2 t ht
      · rintro ⟨h1, h2⟩ s' hs
        exact (allSteps_append C is js s').mpr
          ⟨h1 s' hs, fun t ht => h2 t ⟨s', hs, ht⟩⟩

theorem run_append {is js : List ι} {s t u : σ} (h : m.run s is = some t)
    (h' : m.run t js = some u) : m.run s (is ++ js) = some u := by
  induction is generalizing s with
  | nil =>
    obtain rfl := Option.some.inj h
    exact h'
  | cons i is ih =>
    obtain ⟨s', hs, h⟩ := (run_cons_some m).mp h
    exact (run_cons_some m).mpr ⟨s', hs, ih h⟩

theorem run_concat {s s' : σ} {is : List ι} {i : ι} {t : σ} (h : m.run s is = some t)
    (hstep : m.step t i = some s') : m.run s (is ++ [i]) = some s' :=
  run_append m h ((run_cons_some m).mpr ⟨s', hstep, rfl⟩)

/-- A machine whose every step is possible makes every run. -/
theorem run_total (htotal : ∀ s i, ∃ s', m.step s i = some s') : ∀ (is : List ι) (s : σ),
    ∃ s', m.run s is = some s'
  | [], s => ⟨s, rfl⟩
  | i :: is, s => by
      obtain ⟨t, ht⟩ := htotal s i
      obtain ⟨s', hs'⟩ := run_total htotal is t
      exact ⟨s', (run_cons_some m).mpr ⟨t, ht, hs'⟩⟩

/-- **Invariants of runs**: what every step that meets `C` keeps, a run
all of whose steps meet `C` keeps. -/
theorem run_invariant {C : σ → ι → Prop} {P : σ → Prop}
    (hstep : ∀ s i s', P s → C s i → m.step s i = some s' → P s') :
    ∀ (is : List ι) {s s' : σ}, P s → m.AllSteps C s is →
      m.run s is = some s' → P s'
  | [], s, s', hs, _, hr => by
      simp only [run_nil, Option.some.injEq] at hr
      exact hr ▸ hs
  | i :: is, s, s', hs, hc, hr => by
      obtain ⟨t, ht, hr⟩ := (run_cons_some m).mp hr
      exact run_invariant hstep is (hstep s i t hs hc.1 ht) (hc.2 t ht) hr

/-- **Properties of every step**: what an invariant and the step's own
condition give at one step holds at every step of a run. -/
theorem allSteps_of_invariant {C Q : σ → ι → Prop} {P : σ → Prop}
    (hstep : ∀ s i s', P s → C s i → m.step s i = some s' → P s')
    (hq : ∀ s i, P s → C s i → Q s i) :
    ∀ (is : List ι) {s : σ}, P s → m.AllSteps C s is → m.AllSteps Q s is
  | [], _, _, _ => trivial
  | i :: is, s, hs, hc =>
      ⟨hq s i hs hc.1, fun t ht =>
        allSteps_of_invariant hstep hq is (hstep s i t hs hc.1 ht) (hc.2 t ht)⟩

/-- What an invariant makes equivalent at one step is equivalent for the steps of a run. -/
theorem allSteps_iff_of_invariant {C Q R : σ → ι → Prop} {P : σ → Prop}
    (hstep : ∀ s i s', P s → C s i → m.step s i = some s' → P s')
    (hqr : ∀ s i, P s → C s i → (Q s i ↔ R s i)) :
    ∀ (is : List ι) {s : σ}, P s → m.AllSteps C s is → (m.AllSteps Q s is ↔ m.AllSteps R s is)
  | [], _, _, _ => Iff.rfl
  | i :: is, s, hs, hc =>
      and_congr (hqr s i hs hc.1) (forall₂_congr fun t ht =>
        allSteps_iff_of_invariant hstep hqr is (hstep s i t hs hc.1 ht) (hc.2 t ht))

/-- What is equivalent at a step as long as it has held so far is equivalent for the steps of
a run. -/
theorem allSteps_iff_of_guarded {C Q R : σ → ι → Prop} {P : σ → Prop}
    (hqr : ∀ s i, P s → C s i → (Q s i ↔ R s i))
    (hstep : ∀ s i s', P s → C s i → Q s i → m.step s i = some s' → P s') :
    ∀ (is : List ι) {s : σ}, P s → m.AllSteps C s is → (m.AllSteps Q s is ↔ m.AllSteps R s is)
  | [], _, _, _ => Iff.rfl
  | i :: is, s, hs, hc => by
      constructor
      · rintro ⟨hq, hrest⟩
        exact ⟨(hqr s i hs hc.1).mp hq, fun t ht =>
          (allSteps_iff_of_guarded hqr hstep is (hstep s i t hs hc.1 hq ht) (hc.2 t ht)).mp
            (hrest t ht)⟩
      · rintro ⟨hr, hrest⟩
        have hq := (hqr s i hs hc.1).mpr hr
        exact ⟨hq, fun t ht =>
          (allSteps_iff_of_guarded hqr hstep is (hstep s i t hs hc.1 hq ht) (hc.2 t ht)).mpr
            (hrest t ht)⟩

/-- **Simulation of runs**: a step simulation up to `R`, for the steps that
meet `C`, matches a run with a run of the specification `A`. -/
theorem run_simulates {C : σ → ι → Prop} {A : τ → ι → τ → Prop}
    {R : σ → τ → Prop}
    (hstep : ∀ s a i s', R s a → C s i → m.step s i = some s' →
      ∃ a', A a i a' ∧ R s' a') :
    ∀ (is : List ι) {s s' : σ} {a : τ}, R s a → m.AllSteps C s is →
      m.run s is = some s' → ∃ a', RelRun A a is a' ∧ R s' a'
  | [], s, s', a, hR, _, hr => by
      simp only [run_nil, Option.some.injEq] at hr
      exact ⟨a, rfl, hr ▸ hR⟩
  | i :: is, s, s', a, hR, hc, hr => by
      obtain ⟨t, ht, hr⟩ := (run_cons_some m).mp hr
      obtain ⟨a1, hA, hR1⟩ := hstep s a i t hR hc.1 ht
      obtain ⟨a', hrun, hR'⟩ := run_simulates hstep is hR1 (hc.2 t ht) hr
      exact ⟨a', ⟨a1, hA, hrun⟩, hR'⟩

/-! ## History variables -/

/-- The machine with a history variable: `note` records what a step did, from
the states before and after it. -/
def watch {γ : Type} (g : γ) (note : σ → ι → σ → γ → γ) : Machine (σ × γ) ι where
  init := (m.init, g)
  step s i := (m.step s.1 i).map fun t => (t, note s.1 i t s.2)

theorem watch_step {γ : Type} {g : γ} {note : σ → ι → σ → γ → γ} {s s' : σ × γ} {i : ι} :
    (m.watch g note).step s i = some s' ↔
      ∃ t, m.step s.1 i = some t ∧ s' = (t, note s.1 i t s.2) := by
  simp only [watch, Option.map_eq_some_iff]
  exact exists_congr fun t => and_congr_right fun _ => eq_comm

end Machine

end LinSocketIo.Base
