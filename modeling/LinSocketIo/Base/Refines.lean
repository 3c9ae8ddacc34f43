/-
LinSocketIo.Base.Refines — one call done on two kinds of state.

`Refines S F R x y` says that `x` and `y`, started in states that `S` relates,
end the same way: both return, with results that `R` relates, or both throw,
what `F` relates, and `S` relates the states again. So what is known of the
calls on the simpler state holds of the others (`Refines.wp`), and a call put
together from parts refines the call put together from their counterparts.
-/
import LinSocketIo.Base.Wp

namespace LinSocketIo.Base

variable {ε ε' σ τ α β γ δ : Type}

/-- The two calls end the same way. -/
def Refines (S : σ → τ → Prop) (F : ε → ε' → Prop) (R : α → β → Prop) (x : EStateM ε σ α)
    (y : EStateM ε' τ β) : Prop :=
  ∀ s t, S s t →
    match x.run s, y.run t with
    | .ok a s', .ok b t' => R a b ∧ S s' t'
    | .error e s', .error e' t' => F e e' ∧ S s' t'
    | _, _ => False

variable {S : σ → τ → Prop} {F : ε → ε' → Prop} {R : α → β → Prop} {Q : γ → δ → Prop}
  {x : EStateM ε σ α} {y : EStateM ε' τ β}

theorem refines_pure {a : α} {b : β} (h : R a b) :
    Refines S F R (pure a : EStateM ε σ α) (pure b : EStateM ε' τ β) := fun _ _ hs => ⟨h, hs⟩

theorem refines_throw {e : ε} {e' : ε'} (h : F e e') :
    Refines S F R (throw e : EStateM ε σ α) (throw e' : EStateM ε' τ β) := fun _ _ hs => ⟨h, hs⟩

theorem refines_ite {p : Prop} [Decidable p] {x' : EStateM ε σ α} {y' : EStateM ε' τ β}
    (h : Refines S F R x y) (h' : Refines S F R x' y') :
    Refines S F R (if p then x else x') (if p then y else y') := by
  split
  · exact h
  · exact h'

theorem refines_bind {f : α → EStateM ε σ γ} {g : β → EStateM ε' τ δ} (hx : Refines S F R x y)
    (hf : ∀ a b, R a b → Refines S F Q (f a) (g b)) : Refines S F Q (x >>= f) (y >>= g) := by
  intro s t hs
  have h := hx s t hs
  rw [EStateM.run_bind, EStateM.run_bind]
  cases hrun : x.run s with
  | ok a s' =>
      cases hrun' : y.run t with
      | ok b t' =>
          rw [hrun, hrun'] at h
          obtain ⟨hR, hs'⟩ := h
          exact hf a b hR s' t' hs'
      | error e' t' =>
          rw [hrun, hrun'] at h
          exact h.elim
  | error e s' =>
      cases hrun' : y.run t with
      | ok b t' =>
          rw [hrun, hrun'] at h
          exact h.elim
      | error e' t' =>
          rw [hrun, hrun'] at h
          exact h

theorem refines_map {f : α → γ} {g : β → δ} (hx : Refines S F R x y)
    (hf : ∀ a b, R a b → Q (f a) (g b)) : Refines S F Q (f <$> x) (g <$> y) := by
  rw [map_eq_pure_bind, map_eq_pure_bind]
  exact refines_bind hx fun a b h => refines_pure (hf a b h)

/-- The simpler call does nothing more where the other one goes on. -/
theorem refines_bind_pure {f : α → EStateM ε σ γ} {Q : γ → β → Prop} (hx : Refines S F R x y)
    (hf : ∀ a b, R a b → Refines S F Q (f a) (pure b)) : Refines S F Q (x >>= f) y := by
  have h := refines_bind hx hf
  rwa [bind_pure] at h

/-- How a call ends, as far as its counterpart says. -/
theorem Refines.wp {s : σ} {t : τ} (h : Refines S F R x y) (hs : S s t) :
    wp x s (fun a s' => ∃ b t', R a b ∧ S s' t') (fun e s' => ∃ e' t', F e e' ∧ S s' t') := by
  have hend := h s t hs
  unfold Base.wp
  cases hrun : x.run s with
  | ok a s' =>
      cases hrun' : y.run t with
      | ok b t' =>
          rw [hrun, hrun'] at hend
          exact ⟨b, t', hend⟩
      | error e' t' =>
          rw [hrun, hrun'] at hend
          exact hend.elim
  | error e s' =>
      cases hrun' : y.run t with
      | ok b t' =>
          rw [hrun, hrun'] at hend
          exact hend.elim
      | error e' t' =>
          rw [hrun, hrun'] at hend
          exact ⟨e', t', hend⟩

end LinSocketIo.Base
