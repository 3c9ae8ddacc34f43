/-
LinSocketIo.Base.Trace — runs of a relation that are known by their traces.

`RelRun A a ks b` says that the steps `ks` lead from `a` to `b`. Runs compose, an
invariant of the steps is one of the runs, and where each step takes from the
front of a queue what it puts out, and puts behind the queue what it takes in,
a run does so as a whole.

* `relRun_append` — runs one after the other.
* `relRun_invariant` — what every step keeps, a run keeps.
* `relRun_queue` — the law of a queue.
-/
import LinSocketIo.Base.Machine

namespace LinSocketIo.Base

variable {τ κ α : Type} {A : τ → κ → τ → Prop}

theorem relRun_append : ∀ {ks ls : List κ} {a b c : τ}, RelRun A a ks b → RelRun A b ls c →
    RelRun A a (ks ++ ls) c
  | [], _, _, _, _, h, h' => by
      obtain rfl := h
      exact h'
  | _ :: _, _, _, _, _, ⟨d, hd, h⟩, h' => ⟨d, hd, relRun_append h h'⟩

theorem relRun_single {k : κ} {a b : τ} (h : A a k b) : RelRun A a [k] b := ⟨b, h, rfl⟩

/-- What every step keeps, a run keeps; the property may speak of the steps that are left. -/
theorem relRun_invariant {P : τ → List κ → Prop}
    (hstep : ∀ a k ks b, A a k b → P a (k :: ks) → P b ks) : ∀ {ks : List κ} {a b : τ},
    RelRun A a ks b → P a ks → P b []
  | [], _, _, h, hp => by
      obtain rfl := h
      exact hp
  | k :: ks, a, _, ⟨c, hc, h⟩, hp => relRun_invariant hstep h (hstep a k ks c hc hp)

/-- **The law of a queue**: what was in it and what came in, in this order, is what went out and
what is in it. -/
theorem relRun_queue {queue : τ → List α} {ins outs : κ → List α}
    (hstep : ∀ a k b, A a k b → queue a ++ ins k = outs k ++ queue b) : ∀ {ks : List κ} {a b : τ},
    RelRun A a ks b → queue a ++ ks.flatMap ins = ks.flatMap outs ++ queue b
  | [], a, _, h => by
      obtain rfl := h
      simp
  | k :: ks, a, b, ⟨c, hc, h⟩ => by
      have ih := relRun_queue hstep h
      calc queue a ++ (k :: ks).flatMap ins
          = (queue a ++ ins k) ++ ks.flatMap ins := by
            rw [List.flatMap_cons, List.append_assoc]
        _ = outs k ++ (queue c ++ ks.flatMap ins) := by rw [hstep a k c hc, List.append_assoc]
        _ = (k :: ks).flatMap outs ++ queue b := by
            rw [ih, List.flatMap_cons, List.append_assoc]

end LinSocketIo.Base
