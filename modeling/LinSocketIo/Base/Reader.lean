/-
LinSocketIo.Base.Reader — calls that read from a cursor.

A reading call runs in `EStateM ε (List τ)`; its state is what is still to
be read. Three things are said of one.

* `Reads x w a` — wherever `w` comes first, `x` reads exactly `w` and
  returns `a`. The rules put a long reading together from its parts.
* `Canonical x P image` — wherever `x` returns, what it returns satisfies `P`
  and what it read is the image of that.
* `Accepts P x W S` — what `x` does on every input: it returns exactly where
  a word of `W` comes first, and reads that word, and it throws with `P`
  exactly on the inputs in `S`. `W` and `S` are formal languages, so the
  rule for a sequence is their product and the rule for a loop their power.
-/
import Mathlib.Computability.Language
import Mathlib.Order.CompletePartialOrder
import LinSocketIo.Base.Wp

namespace LinSocketIo.Base

variable {ε τ α β : Type}

theorem run_bind_of_ok {σ : Type} {x : EStateM ε σ α} {f : α → EStateM ε σ β} {s t : σ} {a : α}
    (h : x.run s = .ok a t) : (x >>= f).run s = (f a).run t := by
  rw [EStateM.run_bind, h]

theorem run_bind_of_error {σ : Type} {x : EStateM ε σ α} {f : α → EStateM ε σ β} {s t : σ} {e : ε}
    (h : x.run s = .error e t) : (x >>= f).run s = .error e t := by
  rw [EStateM.run_bind, h]

theorem run_map_of_ok {σ : Type} {x : EStateM ε σ α} {s t : σ} {a : α} (h : x.run s = .ok a t)
    (f : α → β) : (f <$> x).run s = .ok (f a) t := by
  rw [map_eq_pure_bind, run_bind_of_ok h]
  rfl

theorem run_map_of_error {σ : Type} {x : EStateM ε σ α} {s t : σ} {e : ε}
    (h : x.run s = .error e t) (f : α → β) : (f <$> x).run s = .error e t := by
  rw [map_eq_pure_bind, run_bind_of_error h]

theorem ok_of_run_bind {σ : Type} {x : EStateM ε σ α} {f : α → EStateM ε σ β} {s r : σ} {b : β}
    (h : (x >>= f).run s = .ok b r) : ∃ a t, x.run s = .ok a t ∧ (f a).run t = .ok b r := by
  cases hrun : x.run s with
  | ok a t =>
      rw [run_bind_of_ok hrun] at h
      exact ⟨a, t, rfl, h⟩
  | error e t =>
      rw [run_bind_of_error hrun] at h
      cases h

/-! ## Reading one word -/

/-- `x` reads `w` and returns `a`, whatever follows. -/
def Reads (x : EStateM ε (List τ) α) (w : List τ) (a : α) : Prop :=
  ∀ r, x.run (w ++ r) = .ok a r

theorem Reads.pure (a : α) : Reads (pure a : EStateM ε (List τ) α) [] a := fun _ => rfl

theorem Reads.bind {x : EStateM ε (List τ) α} {f : α → EStateM ε (List τ) β} {w w' : List τ}
    {a : α} {b : β} (hx : Reads x w a) (hf : Reads (f a) w' b) : Reads (x >>= f) (w ++ w') b := by
  intro r
  rw [List.append_assoc, run_bind_of_ok (hx (w' ++ r))]
  exact hf r

theorem Reads.map {x : EStateM ε (List τ) α} {w : List τ} {a : α} (hx : Reads x w a)
    (f : α → β) : Reads (f <$> x) w (f a) := by
  intro r
  exact run_map_of_ok (hx r) f

/-- What was read is dropped. -/
theorem Reads.ignore {x : EStateM ε (List τ) α} {w : List τ} {a : α} (hx : Reads x w a) (b : β) :
    Reads (x >>= fun _ => Pure.pure b) w b := by
  have h := hx.bind (f := fun _ => (Pure.pure b : EStateM ε (List τ) β)) (Reads.pure b)
  rwa [List.append_nil] at h

theorem Reads.unique {x : EStateM ε (List τ) α} {w : List τ} {a b : α} (h : Reads x w a)
    (h' : Reads x w b) : a = b := by
  have heq := h []
  rw [h' []] at heq
  cases heq
  rfl

/-! ## Reading any input -/

/-- What a call does on every input: it returns where a word of `W` comes first, having
read that word, and throws something in `P` on the inputs in `S`. -/
structure Accepts (P : ε → Prop) (x : EStateM ε (List τ) α) (W S : Language τ) : Prop where
  returns : ∀ w ∈ W, ∃ a, Reads x w a
  throws : ∀ s ∈ S, ∃ e t, x.run s = .error e t ∧ P e
  of_returns : ∀ s a r, x.run s = .ok a r → ∃ w ∈ W, s = w ++ r
  of_throws : ∀ s e t, x.run s = .error e t → P e → s ∈ S

variable {P : ε → Prop}

theorem Accepts.pure (a : α) : Accepts P (pure a : EStateM ε (List τ) α) 1 0 where
  returns w hw := by
    rw [Language.mem_one] at hw
    subst hw
    exact ⟨a, Reads.pure a⟩
  throws s hs := absurd hs (Language.notMem_zero s)
  of_returns s b r h := by
    cases h
    exact ⟨[], Language.nil_mem_one, rfl⟩
  of_throws s e t h := nomatch h

/-- A call that only throws. -/
theorem Accepts.throw {e : ε} (he : ¬ P e) :
    Accepts P (throw e : EStateM ε (List τ) α) 0 0 where
  returns w hw := absurd hw (Language.notMem_zero w)
  throws s hs := absurd hs (Language.notMem_zero s)
  of_returns s a r h := nomatch h
  of_throws s e' t h he' := by
    cases h
    exact absurd he' he

/-- What a call leaves when it returns, and what it does not throw elsewhere. -/
theorem Accepts.wp {x : EStateM ε (List τ) α} {W S : Language τ} (hx : Accepts P x W S)
    {s : List τ} (hs : s ∉ S) :
    wp x s (fun _ t => ∃ w ∈ W, s = w ++ t) (fun e _ => ¬ P e) := by
  unfold Base.wp
  cases hrun : x.run s with
  | ok a t => exact hx.of_returns s a t hrun
  | error e t => exact fun he => hs (hx.of_throws s e t hrun he)

/-! ## Reading images only -/

/-- Where `x` returns, it has read the image of what it returns. -/
def Canonical (x : EStateM ε (List τ) α) (P : α → Prop) (image : α → List τ) : Prop :=
  ∀ s a r, x.run s = .ok a r → P a ∧ s = image a ++ r

theorem Canonical.map {x : EStateM ε (List τ) α} {P : α → Prop} {image : α → List τ}
    (hx : Canonical x P image) {f : α → β} {Q : β → Prop} {image' : β → List τ}
    (hf : ∀ a, P a → Q (f a) ∧ image' (f a) = image a) : Canonical (f <$> x) Q image' := by
  intro s b r h
  rw [map_eq_pure_bind] at h
  obtain ⟨a, t, hrun, hpure⟩ := ok_of_run_bind h
  have hresult : EStateM.Result.ok (f a) t = .ok b r := hpure
  cases hresult
  obtain ⟨ha, rfl⟩ := hx s a r hrun
  obtain ⟨hb, himage⟩ := hf a ha
  exact ⟨hb, by rw [himage]⟩

/-- A call that reads a word of `W` is canonical when every word of `W` is an image that is
read back. -/
theorem Accepts.canonical {x : EStateM ε (List τ) α} {W S : Language τ} {image : α → List τ}
    (hx : Accepts P x W S) (hread : ∀ a, Reads x (image a) a) (hW : ∀ w ∈ W, ∃ a, w = image a) :
    Canonical x (fun _ => True) image := by
  intro s a r h
  obtain ⟨w, hw, rfl⟩ := hx.of_returns s a r h
  obtain ⟨a', rfl⟩ := hW w hw
  rw [hread a' r] at h
  cases h
  exact ⟨trivial, rfl⟩

/-- The words of `W` that `x` returns `a` for. -/
def readAs (x : EStateM ε (List τ) α) (W : Language τ) (a : α) : Language τ :=
  {w | w ∈ W ∧ Reads x w a}

section

variable {x : EStateM ε (List τ) α} {f : α → EStateM ε (List τ) β} {W₀ S₀ : Language τ}

/-- The rule for a sequence: what is read next depends on what was returned. -/
theorem Accepts.bind_readAs {W S : α → Language τ} (hx : Accepts P x W₀ S₀)
    (hf : ∀ a, Accepts P (f a) (W a) (S a)) :
    Accepts P (x >>= f) (⨆ a, readAs x W₀ a * W a) (S₀ + ⨆ a, readAs x W₀ a * S a) where
  returns w hw := by
    obtain ⟨a, v, ⟨-, hv⟩, u, hu, rfl⟩ := Language.mem_iSup.mp hw
    obtain ⟨b, hb⟩ := (hf a).returns u hu
    exact ⟨b, hv.bind hb⟩
  throws s hs := by
    rcases hs with hs | hs
    · obtain ⟨e, t, hrun, he⟩ := hx.throws s hs
      exact ⟨e, t, run_bind_of_error hrun, he⟩
    · obtain ⟨a, v, ⟨-, hv⟩, u, hu, rfl⟩ := Language.mem_iSup.mp hs
      obtain ⟨e, t, hrun, he⟩ := (hf a).throws u hu
      refine ⟨e, t, ?_, he⟩
      show (x >>= f).run (v ++ u) = _
      rw [run_bind_of_ok (hv u), hrun]
  of_returns s b r h := by
    cases hrun : x.run s with
    | ok a t =>
        obtain ⟨v, hmem, rfl⟩ := hx.of_returns s a t hrun
        have hv : v ∈ readAs x W₀ a := by
          obtain ⟨a', ha'⟩ := hx.returns v hmem
          have heq := ha' t
          rw [hrun] at heq
          cases heq
          exact ⟨hmem, ha'⟩
        rw [run_bind_of_ok hrun] at h
        obtain ⟨u, hu, rfl⟩ := (hf a).of_returns t b r h
        exact ⟨v ++ u, Language.mem_iSup.mpr ⟨a, v, hv, u, hu, rfl⟩, (List.append_assoc v u r).symm⟩
    | error e t =>
        rw [run_bind_of_error hrun] at h
        cases h
  of_throws s e t h he := by
    cases hrun : x.run s with
    | ok a u =>
        obtain ⟨v, hmem, rfl⟩ := hx.of_returns s a u hrun
        have hv : v ∈ readAs x W₀ a := by
          obtain ⟨a', ha'⟩ := hx.returns v hmem
          have heq := ha' u
          rw [hrun] at heq
          cases heq
          exact ⟨hmem, ha'⟩
        rw [run_bind_of_ok hrun] at h
        exact Or.inr (Language.mem_iSup.mpr ⟨a, v, hv, u, (hf a).of_throws u e t h he, rfl⟩)
    | error e' u =>
        rw [run_bind_of_error hrun] at h
        cases h
        exact Or.inl (hx.of_throws s e t hrun he)

theorem Accepts.iSup_readAs (hx : Accepts P x W₀ S₀) : ⨆ a, readAs x W₀ a = W₀ := by
  ext w
  rw [Language.mem_iSup]
  constructor
  · rintro ⟨a, hw, -⟩
    exact hw
  · intro hw
    obtain ⟨a, ha⟩ := hx.returns w hw
    exact ⟨a, hw, ha⟩

/-- The rule for a sequence whose second part reads the same after every result. -/
theorem Accepts.bind {W S : Language τ} (hx : Accepts P x W₀ S₀)
    (hf : ∀ a, Accepts P (f a) W S) : Accepts P (x >>= f) (W₀ * W) (S₀ + W₀ * S) := by
  have hbind := hx.bind_readAs hf
  rwa [← Language.iSup_mul, ← Language.iSup_mul, hx.iSup_readAs] at hbind

/-- The rule for a sequence after a call whose results are known. -/
theorem Accepts.bind_of {L W S : α → Language τ} (hx : Accepts P x (⨆ a, L a) S₀)
    (hL : ∀ a, ∀ w ∈ L a, Reads x w a) (hf : ∀ a, Accepts P (f a) (W a) (S a)) :
    Accepts P (x >>= f) (⨆ a, L a * W a) (S₀ + ⨆ a, L a * S a) := by
  have hread : readAs x (⨆ a, L a) = L := by
    funext a
    ext w
    constructor
    · rintro ⟨hw, ha⟩
      obtain ⟨a', hw'⟩ := Language.mem_iSup.mp hw
      rwa [ha.unique (hL a' w hw')]
    · intro hw
      exact ⟨Language.mem_iSup.mpr ⟨a, hw⟩, hL a w hw⟩
  have hbind := hx.bind_readAs hf
  rwa [hread] at hbind

theorem Accepts.map (hx : Accepts P x W₀ S₀) (g : α → β) : Accepts P (g <$> x) W₀ S₀ := by
  have hbind := hx.bind (f := fun a => (Pure.pure (g a) : EStateM ε (List τ) β))
    fun a => Accepts.pure (g a)
  rwa [← map_eq_pure_bind, mul_one, mul_zero, add_zero] at hbind

end

/-- The inputs on which the reading of `n` words of `W` in turn runs short as `S` says:
fewer than `n` whole words and then an input of `S`. -/
def shortOf (W S : Language τ) : Nat → Language τ
  | 0 => 0
  | n + 1 => S + W * shortOf W S n

end LinSocketIo.Base
