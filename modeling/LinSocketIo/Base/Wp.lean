/-
LinSocketIo.Base.Wp — weakest preconditions of calls that can throw.

A call is an `EStateM ε σ α`: it ends in a state in either case, with a
result or with what it throws, and what it changed before it threw stays
changed. `wp x s Q E` says that `x`, started in `s`, returns with `Q` or
throws with `E`. The rules are equivalences, one for each construct a call
is written with, so `simp only` with them runs a call symbolically up to
the calls that have a lemma of their own, which `wp_mono` brings in.
-/

namespace LinSocketIo.Base

variable {ε σ α β : Type}

/-- Started in `s`, the call returns with `Q` or throws with `E`. -/
def wp (x : EStateM ε σ α) (s : σ) (Q : α → σ → Prop) (E : ε → σ → Prop) : Prop :=
  match x.run s with
  | .ok a t => Q a t
  | .error e t => E e t

variable {Q : α → σ → Prop} {E : ε → σ → Prop}

theorem wp_pure (a : α) (s : σ) : wp (pure a : EStateM ε σ α) s Q E ↔ Q a s := Iff.rfl

theorem wp_throw (e : ε) (s : σ) : wp (throw e : EStateM ε σ α) s Q E ↔ E e s := Iff.rfl

theorem wp_get (s : σ) {Q : σ → σ → Prop} : wp (get : EStateM ε σ σ) s Q E ↔ Q s s := Iff.rfl

theorem wp_set (t s : σ) {Q : PUnit → σ → Prop} :
    wp (set t : EStateM ε σ PUnit) s Q E ↔ Q () t := Iff.rfl

theorem wp_modify (f : σ → σ) (s : σ) {Q : PUnit → σ → Prop} :
    wp (modify f : EStateM ε σ PUnit) s Q E ↔ Q () (f s) := Iff.rfl

theorem wp_bind (x : EStateM ε σ α) (f : α → EStateM ε σ β) (s : σ) {Q : β → σ → Prop} :
    wp (x >>= f) s Q E ↔ wp x s (fun a t => wp (f a) t Q E) E := by
  unfold wp
  rw [EStateM.run_bind]
  cases x.run s <;> rfl

/-- What `x` throws is handled where `x` left the state. -/
theorem wp_tryCatch (x : EStateM ε σ α) (h : ε → EStateM ε σ α) (s : σ) :
    wp (tryCatch x h) s Q E ↔ wp x s Q (fun e t => wp (h e) t Q E) := by
  have hrun : (tryCatch x h).run s = match x.run s with
      | .ok a t => .ok a t
      | .error e t => (h e).run t := by
    change EStateM.tryCatch x h s = _
    unfold EStateM.tryCatch EStateM.run
    cases x s <;> rfl
  unfold wp
  rw [hrun]
  cases x.run s <;> rfl

theorem run_ite (c : Prop) [Decidable c] (x y : EStateM ε σ α) (s : σ) :
    (if c then x else y).run s = if c then x.run s else y.run s := by
  split <;> rfl

/-- A test of the state, taken without a look at how it is decided. -/
theorem run_get_ite (p : σ → Prop) [DecidablePred p] (x y : σ → EStateM ε σ α) (s : σ) :
    (do let t ← get; if p t then x t else y t : EStateM ε σ α).run s =
      if p s then (x s).run s else (y s).run s := by
  rw [EStateM.run_bind, EStateM.run_get]
  exact run_ite (p s) (x s) (y s) s

theorem wp_ite (c : Prop) [Decidable c] (x y : EStateM ε σ α) (s : σ) :
    wp (if c then x else y) s Q E ↔ (c → wp x s Q E) ∧ (¬ c → wp y s Q E) := by
  split
  · next h => simp only [h, true_implies, not_true, false_implies, and_true]
  · next h => simp only [h, false_implies, not_false_iff, true_implies, true_and]

/-- Two calls that run the same. -/
theorem wp_of_run_eq {x y : EStateM ε σ α} {s : σ} (hrun : x.run s = y.run s) (h : wp y s Q E) :
    wp x s Q E := by
  unfold wp at h ⊢
  rw [hrun]
  exact h

/-- Consequence. -/
theorem wp_mono {x : EStateM ε σ α} {s : σ} {Q' : α → σ → Prop} {E' : ε → σ → Prop}
    (h : wp x s Q E) (hQ : ∀ a t, Q a t → Q' a t) (hE : ∀ e t, E e t → E' e t) :
    wp x s Q' E' := by
  unfold wp at h ⊢
  cases hr : x.run s with
  | ok a t => rw [hr] at h; exact hQ a t h
  | error e t => rw [hr] at h; exact hE e t h

theorem wp_and {x : EStateM ε σ α} {s : σ} {Q' : α → σ → Prop} {E' : ε → σ → Prop}
    (h : wp x s Q E) (h' : wp x s Q' E') :
    wp x s (fun a t => Q a t ∧ Q' a t) (fun e t => E e t ∧ E' e t) := by
  unfold wp at h h' ⊢
  cases hr : x.run s with
  | ok a t => rw [hr] at h h'; exact ⟨h, h'⟩
  | error e t => rw [hr] at h h'; exact ⟨h, h'⟩

/-! ## Invariants -/

/-- The call keeps `I`, whether it returns or throws. -/
def Keeps (I : σ → Prop) (x : EStateM ε σ α) : Prop :=
  ∀ s, I s → wp x s (fun _ => I) (fun _ => I)

variable {I : σ → Prop}

theorem keeps_pure (a : α) : Keeps I (pure a : EStateM ε σ α) := fun _ hs => hs

theorem keeps_throw (e : ε) : Keeps I (throw e : EStateM ε σ α) := fun _ hs => hs

theorem keeps_get : Keeps I (get : EStateM ε σ σ) := fun _ hs => hs

theorem keeps_modify {f : σ → σ} (hf : ∀ s, I s → I (f s)) :
    Keeps I (modify f : EStateM ε σ PUnit) := hf

theorem keeps_bind {x : EStateM ε σ α} {f : α → EStateM ε σ β} (hx : Keeps I x)
    (hf : ∀ a, Keeps I (f a)) : Keeps I (x >>= f) := by
  intro s hs
  rw [wp_bind]
  exact wp_mono (hx s hs) (fun a t ht => hf a t ht) fun _ _ ht => ht

theorem keeps_tryCatch {x : EStateM ε σ α} {h : ε → EStateM ε σ α} (hx : Keeps I x)
    (hh : ∀ e, Keeps I (h e)) : Keeps I (tryCatch x h) := by
  intro s hs
  rw [wp_tryCatch]
  exact wp_mono (hx s hs) (fun _ _ ht => ht) fun e t ht => hh e t ht

theorem keeps_ite {c : Prop} [Decidable c] {x y : EStateM ε σ α} (hx : Keeps I x)
    (hy : Keeps I y) : Keeps I (if c then x else y) := by
  split
  · exact hx
  · exact hy

end LinSocketIo.Base
