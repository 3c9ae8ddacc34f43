/-
LinSocketIo.Core.SyncFutureTheorems — when `SyncFuture::get` is a barrier.

The counter is the number of promises that are not done and of calls that have
marked one done and not yet counted down (`State.pending`). So a counter of 0
says that every promise is done, and the condition may be `ready` only then or
before `promise()` initialises it (`Inv.ready`). A run is `orderly` when

* `resume()` comes while the counter is still 0, or has no effect that lasts;
* no two calls test `_done` of one promise before either sets it;
* the counter and the number of promises stay inside `int`.

* `inv_step` — every orderly step keeps `Inv`; `recordInv_step` — and what the
  results have to do with the calls on their own promises.
* `get_is_barrier` — in every orderly run, every return of `get()` finds every
  promise done, and every result with the value and exception of its promise.
* `late_resume_opens_barrier` — a `resume()` that comes after the next
  `promise()` has initialised the condition, and a promise that is done twice.
-/
import LinSocketIo.Core.SyncFuture

namespace LinSocketIo.Core.SyncFuture

open LinSocketIo.Base

variable {T : Type}

/-! ## Orderly steps -/

/-- No step breaks the order that the counter relies on. -/
def orderly (s : State T) (ev : Event T) : Bool :=
  match ev with
  | .promise _ => (s.slots.length : Int) < intMax
  | .increment => s.count < intMax
  | .test i =>
    match s.calls[i]? with
    | some (.wrote p) => CallPc.tested p ∉ s.calls
    | _ => true
  | .resume i =>
    match s.calls[i]? with
    | some .resuming => s.count = 0 ∨ s.sync.status = .ready ∨ s.owner = .initing
    | _ => true
  | _ => true

/-! ## The counter -/

/-- The call has marked its promise done and is still to count down. -/
def CallPc.isMarked : CallPc → Bool
  | .marked _ => true
  | _ => false

/-- What is still to be counted down. -/
def State.pending (s : State T) : Nat :=
  s.slots.countP (fun sl => !sl.done) + s.calls.countP CallPc.isMarked

/-- Promise `p` is not done. -/
def Undone (slots : List (Slot T)) (p : Nat) : Prop :=
  ∃ sl, slots[p]? = some sl ∧ sl.done = false

/-- What holds after every orderly step. -/
structure Inv (s : State T) : Prop where
  size : (s.slots.length : Int) ≤ intMax
  /-- A promise that is in the vectors and not yet counted is pending too. -/
  count : s.count = s.pending - (if s.owner = .pushed then 1 else 0)
  range : s.count ≤ intMax
  tested : ∀ i p : Nat, s.calls[i]? = some (.tested p) → Undone s.slots p
  one : ∀ i j p : Nat, s.calls[i]? = some (.tested p) → s.calls[j]? = some (.tested p) → i = j
  /-- A promise that is not yet returned has no calls, and so is not done. -/
  handed : ∀ i p : Nat, s.calls[i]? = some (.wrote p) ∨ s.calls[i]? = some (.tested p) →
    p < s.handed
  pushed : s.owner = .pushed → Undone s.slots (s.slots.length - 1)
  ready : s.sync.status = .ready → s.count = 0 ∨ s.owner = .initing
  copying : ∀ i, s.owner = .copying i → ∀ sl ∈ s.slots, sl.done = true

theorem inv_init [Inhabited T] : Inv (machine T).init where
  size := by simp [machine, intMax]
  count := by simp [machine, State.pending]
  range := by simp [machine, intMax]
  tested := by simp [machine]
  one := by simp [machine]
  handed := by simp [machine]
  pushed := by simp [machine]
  ready := by simp [machine, ConditionWrapper.new]
  copying := by simp [machine]

/-! ## Writing one entry -/

/-- Writing an entry of a list changes a count by what the two entries count. -/
theorem countP_set_add {α : Type} {f : α → Bool} {l : List α} {i : Nat} {x : α} (y : α)
    (hx : l[i]? = some x) :
    (l.set i y).countP f + (if f x then 1 else 0) = l.countP f + (if f y then 1 else 0) := by
  obtain ⟨hi, rfl⟩ := List.getElem?_eq_some_iff.mp hx
  rw [List.countP_set hi]
  have hpos : f l[i] = true → 0 < l.countP f := fun hf =>
    List.countP_pos_iff.mpr ⟨l[i], List.getElem_mem hi, hf⟩
  split
  · next hf => have := hpos hf; omega
  · omega

/-- Another promise than the one that is written stays not done. -/
theorem Undone.set_ne {slots : List (Slot T)} {p q : Nat} (sl : Slot T) (h : Undone slots q)
    (hpq : p ≠ q) : Undone (slots.set p sl) q := by
  obtain ⟨x, hx, hdone⟩ := h
  exact ⟨x, by rw [List.getElem?_set_ne hpq, hx], hdone⟩

/-- A write that leaves `_done` alone makes no promise done. -/
theorem Undone.set {slots : List (Slot T)} {p q : Nat} {sl sl' : Slot T} (h : Undone slots q)
    (hsl : slots[p]? = some sl) (hdone : sl'.done = sl.done) : Undone (slots.set p sl') q := by
  by_cases hpq : p = q
  · subst hpq
    obtain ⟨x, hx, hxdone⟩ := h
    obtain rfl : sl = x := Option.some.inj (hsl.symm.trans hx)
    exact ⟨sl', by simp [(List.getElem?_eq_some_iff.mp hsl).1], by rw [hdone, hxdone]⟩
  · exact h.set_ne sl' hpq

/-- A call that goes on is no longer where it was. -/
theorem getElem?_set_of_ne {calls : List CallPc} {i j : Nat} {pc pc' : CallPc} (hpc : pc ≠ pc')
    (h : (calls.set i pc)[j]? = some pc') : calls[j]? = some pc' := by
  rw [List.getElem?_set] at h
  split at h
  · split at h
    · exact absurd (Option.some.inj h) hpc
    · cases h
  · exact h

/-! ## Frames -/

/-- The owner is in `promise()`. -/
def OwnerPc.inPromise : OwnerPc → Bool
  | .pushed | .initing => true
  | _ => false

theorem handed_of_out {s : State T} (h : s.owner.inPromise = false) :
    s.handed = s.slots.length := by
  unfold State.handed
  split <;> simp_all [OwnerPc.inPromise]

theorem Inv.count_out {s : State T} (h : Inv s) (hout : s.owner.inPromise = false) :
    s.count = s.pending := by
  have := h.count
  rwa [if_neg (by rintro hp; simp [hp, OwnerPc.inPromise] at hout), Int.sub_zero] at this

/-- Outside `promise()` the condition is `ready` only when nothing is pending. -/
theorem Inv.ready_out {s : State T} (h : Inv s) (hout : s.owner.inPromise = false)
    (hst : s.sync.status = .ready) : s.count = 0 :=
  (h.ready hst).resolve_right (by rintro hp; simp [hp, OwnerPc.inPromise] at hout)

/-- A counter of 0 says that every promise is done. -/
theorem Inv.allDone {s : State T} (h : Inv s) (hout : s.owner.inPromise = false)
    (hcount : s.count = 0) : ∀ sl ∈ s.slots, sl.done = true := by
  have hpending : s.slots.countP (fun sl => !sl.done) = 0 := by
    have := h.count_out hout
    unfold State.pending at this
    omega
  intro sl hsl
  simpa using List.countP_eq_zero.mp hpending sl hsl

/-- A slot is written, and `_done` stays. -/
theorem Inv.setSlot {s : State T} {p : Nat} {sl : Slot T} (sl' : Slot T) (h : Inv s)
    (hsl : s.slots[p]? = some sl) (hdone : sl'.done = sl.done) :
    Inv { s with slots := s.slots.set p sl' } where
  size := by simpa using h.size
  count := by
    have := countP_set_add (f := fun sl => !sl.done) sl' hsl
    rw [hdone] at this
    have hcount := h.count
    simp only [State.pending] at hcount ⊢
    omega
  range := h.range
  tested := fun i q hi => (h.tested i q hi).set hsl hdone
  one := h.one
  handed := by simpa [State.handed] using h.handed
  pushed := by
    intro hp
    simpa using (h.pushed hp).set hsl hdone
  ready := h.ready
  copying := by
    intro i hi x hx
    rcases List.mem_or_eq_of_mem_set hx with hx | rfl
    · exact h.copying i hi x hx
    · rw [hdone]
      exact h.copying i hi sl (List.mem_of_getElem? hsl)

/-- The owner goes on, outside `promise()`. -/
theorem Inv.setOwner {s : State T} {pc : OwnerPc} (h : Inv s) (hout : s.owner.inPromise = false)
    (hpc : pc.inPromise = false)
    (hcopying : ∀ i, pc = .copying i → ∀ sl ∈ s.slots, sl.done = true) :
    Inv { s with owner := pc } where
  size := h.size
  count := by
    rw [h.count_out hout, if_neg (by rintro rfl; cases hpc), Int.sub_zero]
    rfl
  range := h.range
  tested := h.tested
  one := h.one
  handed := by
    intro i p hi
    rw [handed_of_out hpc]
    exact handed_of_out hout ▸ h.handed i p hi
  pushed := by
    rintro rfl
    cases hpc
  ready := fun hst => .inl (h.ready_out hout hst)
  copying := hcopying

/-- The calls go on without a test of `_done` and without its assignment. -/
theorem Inv.setCalls {s : State T} {calls : List CallPc} (h : Inv s)
    (hmarked : calls.countP CallPc.isMarked = s.calls.countP CallPc.isMarked)
    (htested : ∀ i p : Nat, calls[i]? = some (.tested p) → s.calls[i]? = some (.tested p))
    (hwrote : ∀ i p : Nat, calls[i]? = some (.wrote p) → p < s.handed) :
    Inv { s with calls := calls } where
  size := h.size
  count := by
    have := h.count
    simp only [State.pending, hmarked] at this ⊢
    exact this
  range := h.range
  tested := fun i p hi => h.tested i p (htested i p hi)
  one := fun i j p hi hj => h.one i j p (htested i p hi) (htested j p hj)
  handed := by
    rintro i p (hi | hi)
    · exact hwrote i p hi
    · exact h.handed i p (.inr (htested i p hi))
  pushed := h.pushed
  ready := h.ready
  copying := h.copying

/-! ## The owner -/

theorem inv_push {s : State T} {sl : Slot T} (h : Inv s) (hidle : s.owner = .idle)
    (hsize : (s.slots.length : Int) < intMax) (hdone : sl.done = false) :
    Inv { s with slots := s.slots ++ [sl], owner := .pushed } where
  size := by
    simp only [List.length_append, List.length_singleton]
    omega
  count := by
    rw [h.count_out (by simp [hidle, OwnerPc.inPromise])]
    simp [State.pending, hdone]
    omega
  range := h.range
  tested := by
    intro i p hi
    obtain ⟨x, hx, hxdone⟩ := h.tested i p hi
    exact ⟨x, by rw [List.getElem?_append_left (List.getElem?_eq_some_iff.mp hx).1, hx], hxdone⟩
  one := h.one
  handed := by
    intro i p hi
    have := h.handed i p hi
    rw [handed_of_out (by simp [hidle, OwnerPc.inPromise])] at this
    simpa [State.handed] using this
  pushed := fun _ => ⟨sl, by simp, hdone⟩
  ready := fun hst => .inl (h.ready_out (by simp [hidle, OwnerPc.inPromise]) hst)
  copying := by simp

theorem inv_increment {s : State T} (h : Inv s) (hpushed : s.owner = .pushed)
    (hrange : s.count < intMax) :
    Inv { s with
      count := toInt (s.count + 1), owner := if toInt (s.count + 1) = 1 then .initing else .idle } := by
  have hcount := h.count
  rw [if_pos hpushed] at hcount
  rw [toInt_of_range (by omega) (by omega)]
  refine ⟨h.size, ?_, by simp only; omega, h.tested, h.one, ?_, ?_, ?_, ?_⟩
  · simp only [State.pending] at hcount ⊢
    split <;> simp_all
  · intro i p hi
    have := h.handed i p hi
    simp only [State.handed, hpushed] at this
    simp only [State.handed]
    split <;> omega
  · simp only
    split <;> simp
  · intro hst
    have h0 : s.count = 0 := (h.ready hst).resolve_right (by simp [hpushed])
    exact .inr (by simp [h0])
  · intro i hi
    simp only at hi
    split at hi <;> cases hi

theorem inv_initing {s : State T} (h : Inv s) (hiniting : s.owner = .initing) :
    Inv { s with sync := s.sync.init, owner := .idle } where
  size := h.size
  count := by
    have := h.count
    rw [if_neg (by simp [hiniting])] at this
    simpa [State.pending] using this
  range := h.range
  tested := h.tested
  one := h.one
  handed := by
    intro i p hi
    have := h.handed i p hi
    simp only [State.handed, hiniting] at this
    simp only [State.handed]
    omega
  pushed := by simp
  ready := by simp [ConditionWrapper.init]
  copying := by simp

theorem inv_promise [Inhabited T] {s s' : State T} {ev : Event T} (h : Inv s)
    (horderly : orderly s ev = true) (hs : s.promise ev = some s') : Inv s' := by
  cases ev with
  | promise err =>
    simp only [State.promise] at hs
    simp only [orderly, decide_eq_true_eq] at horderly
    split at hs
    · next hidle => cases hs; exact inv_push h hidle horderly rfl
    · cases hs
  | increment =>
    simp only [State.promise] at hs
    simp only [orderly, decide_eq_true_eq] at horderly
    split at hs
    · next hpushed => cases hs; exact inv_increment h hpushed horderly
    · cases hs
  | init =>
    simp only [State.promise] at hs
    split at hs
    · next hiniting => cases hs; exact inv_initing h hiniting
    · cases hs
  | _ => cases hs

/-- A pass of the loop in `yield()` that ends it has found `ready`. -/
theorem inv_pass {s : State T} (h : Inv s) (hout : s.owner.inPromise = false) : Inv s.pass := by
  cases hst : s.sync.status with
  | wait =>
    have h' : Inv { s with owner := .blocked } := h.setOwner hout rfl (by simp)
    have hpass : s.pass = { s with
        sync := { s.sync with waiting := true, signalled := false }, owner := .blocked } := by
      simp [State.pass, ConditionWrapper.yield, hst]
    rw [hpass]
    exact { h' with ready := by simp [hst] }
  | ready =>
    have hcount : s.count = 0 := h.ready_out hout hst
    have h' : Inv { s with owner := .copying 0 } :=
      h.setOwner hout rfl fun _ _ => h.allDone hout hcount
    have hpass : s.pass = { s with
        sync := { s.sync with waiting := false, signalled := false }, owner := .copying 0 } := by
      simp [State.pass, ConditionWrapper.yield, hst]
    rw [hpass]
    exact { h' with ready := fun _ => .inl hcount }

theorem inv_get {s s' : State T} {ev : Event T} (h : Inv s) (hs : s.get ev = some s') :
    Inv s' := by
  cases ev with
  | get =>
    simp only [State.get] at hs
    split at hs
    · next hidle =>
      cases hs
      have hout : s.owner.inPromise = false := by simp [hidle, OwnerPc.inPromise]
      refine h.setOwner hout (by split <;> rfl) ?_
      intro i hi
      split at hi
      · cases hi
      · next hcount => exact h.allDone hout (not_not.mp hcount)
    · cases hs
  | yield =>
    simp only [State.get] at hs
    split at hs
    · next howner => cases hs; exact inv_pass h (by simp [howner, OwnerPc.inPromise])
    · cases hs
  | wake =>
    simp only [State.get] at hs
    split at hs
    · next howner => cases hs; exact inv_pass h (by simp [howner, OwnerPc.inPromise])
    · cases hs
  | copy =>
    simp only [State.get] at hs
    split at hs
    · next i howner =>
      split at hs
      · split at hs
        · next sl hsl =>
          cases hs
          have h' := h.setSlot { sl with second := sl.e } hsl rfl
          exact h'.setOwner (by simp [howner, OwnerPc.inPromise]) rfl
            fun _ _ => h'.copying i howner
        · cases hs
      · cases hs
    · cases hs
  | ret =>
    simp only [State.get] at hs
    split at hs
    · next howner =>
      split at hs
      · cases hs
      · cases hs
        exact h.setOwner (by simp [howner, OwnerPc.inPromise]) rfl (by simp)
    · cases hs
  | _ => cases hs

/-! ## The calls that complete promises -/

theorem inv_call {s : State T} {p : Nat} {sl : Slot T} {c : Call T} (h : Inv s)
    (hsl : s.slots[p]? = some sl) (hp : p < s.handed) :
    Inv { s with slots := s.slots.set p (c.write sl), calls := s.calls ++ [.wrote p] } := by
  have h' := h.setSlot (c.write sl) hsl (by cases c <;> rfl)
  have hhanded : State.handed { s with slots := s.slots.set p (c.write sl) } = s.handed := by
    simp [State.handed]
  have hold : ∀ (i : Nat) (pc : CallPc), (s.calls ++ [.wrote p])[i]? = some pc →
      s.calls[i]? = some pc ∨ pc = .wrote p := by
    intro i pc hi
    rw [List.getElem?_append] at hi
    split at hi
    · exact .inl hi
    · exact .inr (by simpa using (List.mem_of_getElem? hi))
  refine h'.setCalls (by simp [CallPc.isMarked]) ?_ ?_
  · intro i q hi
    exact (hold i _ hi).resolve_right (by simp)
  · intro i q hi
    rw [hhanded]
    rcases hold i _ hi with hi | hq
    · exact h.handed i q (.inl hi)
    · cases hq
      exact hp

theorem inv_test {s : State T} {i p : Nat} {sl : Slot T} (h : Inv s)
    (hi : s.calls[i]? = some (.wrote p)) (hsl : s.slots[p]? = some sl)
    (halone : .tested p ∉ s.calls) :
    Inv { s with calls := s.calls.set i (if sl.done then .over else .tested p) } := by
  have hmarked := countP_set_add (f := CallPc.isMarked) (if sl.done then .over else .tested p) hi
  cases hdone : sl.done with
  | true =>
    refine h.setCalls (by simpa [hdone, CallPc.isMarked] using hmarked) ?_ ?_
    · intro j q hj
      exact getElem?_set_of_ne (by simp) hj
    · intro j q hj
      exact h.handed j q (.inl (getElem?_set_of_ne (by simp) hj))
  | false =>
    simp only [hdone, CallPc.isMarked, Bool.false_eq_true, if_false, Nat.add_zero] at hmarked ⊢
    -- a call that has tested a promise is `i`, or it has tested another promise before
    have hold : ∀ j q : Nat, (s.calls.set i (.tested p))[j]? = some (.tested q) →
        (j = i ∧ q = p) ∨ (s.calls[j]? = some (.tested q) ∧ q ≠ p) := by
      intro j q hj
      rw [List.getElem?_set] at hj
      split at hj
      · next hij =>
        split at hj
        · cases hj
          exact .inl ⟨hij.symm, rfl⟩
        · cases hj
      · refine .inr ⟨hj, ?_⟩
        rintro rfl
        exact halone (List.mem_of_getElem? hj)
    refine ⟨h.size, ?_, h.range, ?_, ?_, ?_, h.pushed, h.ready, h.copying⟩
    · have hcount := h.count
      simp only [State.pending] at hcount ⊢
      rw [hmarked]
      exact hcount
    · intro j q hj
      rcases hold j q hj with ⟨-, rfl⟩ | ⟨hj, -⟩
      · exact ⟨sl, hsl, hdone⟩
      · exact h.tested j q hj
    · intro j k q hj hk
      rcases hold j q hj with ⟨hji, hqp⟩ | ⟨hj, hqp⟩ <;>
        rcases hold k q hk with ⟨hki, hqp'⟩ | ⟨hk, hqp'⟩
      · rw [hji, hki]
      · exact absurd hqp hqp'
      · exact absurd hqp' hqp
      · exact h.one j k q hj hk
    · rintro j q (hj | hj)
      · exact h.handed j q (.inl (getElem?_set_of_ne (by simp) hj))
      · rcases hold j q hj with ⟨-, rfl⟩ | ⟨hj, -⟩
        · exact h.handed i q (.inl hi)
        · exact h.handed j q (.inr hj)

theorem inv_mark {s : State T} {i p : Nat} {sl : Slot T} (h : Inv s)
    (hi : s.calls[i]? = some (.tested p)) (hsl : s.slots[p]? = some sl) :
    Inv { s with
      slots := s.slots.set p { sl with done := true }, calls := s.calls.set i (.marked p) } where
  size := by simpa using h.size
  count := by
    -- the promise leaves the one count for the other
    obtain ⟨x, hx, hdone⟩ := h.tested i p hi
    obtain rfl : sl = x := Option.some.inj (hsl.symm.trans hx)
    have hslots := countP_set_add (f := fun sl => !sl.done) { sl with done := true } hsl
    have hcalls := countP_set_add (f := CallPc.isMarked) (.marked p) hi
    have hcount := h.count
    simp only [hdone, CallPc.isMarked, Bool.not_false, Bool.not_true, Bool.false_eq_true,
      if_true, if_false] at hslots hcalls
    simp only [State.pending] at hcount ⊢
    omega
  range := h.range
  tested := by
    intro j q hj
    have hj' := getElem?_set_of_ne (by simp) hj
    refine (h.tested j q hj').set_ne _ ?_
    -- `i` is the only call that has tested `p`
    rintro rfl
    obtain rfl := h.one j i p hj' hi
    simp [(List.getElem?_eq_some_iff.mp hi).1] at hj
  one := fun j k q hj hk =>
    h.one j k q (getElem?_set_of_ne (by simp) hj) (getElem?_set_of_ne (by simp) hk)
  handed := by
    intro j q hj
    have := h.handed j q (hj.imp (getElem?_set_of_ne (by simp)) (getElem?_set_of_ne (by simp)))
    simpa [State.handed] using this
  pushed := by
    intro hp
    have hlt := h.handed i p (.inr hi)
    simp only [State.handed, show s.owner = .pushed from hp] at hlt
    simpa using (h.pushed hp).set_ne { sl with done := true } (by omega)
  ready := h.ready
  copying := by
    intro j hj x hx
    rcases List.mem_or_eq_of_mem_set hx with hx | rfl
    · exact h.copying j hj x hx
    · rfl

/-- What is counted down is pending, next to a promise that is not yet counted. -/
theorem Inv.count_pos {s : State T} {i p : Nat} (h : Inv s)
    (hi : s.calls[i]? = some (.marked p)) : 0 < s.count := by
  have hmarked : 0 < s.calls.countP CallPc.isMarked :=
    List.countP_pos_iff.mpr ⟨_, List.mem_of_getElem? hi, rfl⟩
  have hcount := h.count
  unfold State.pending at hcount
  split at hcount
  · next hp =>
    obtain ⟨sl, hsl, hdone⟩ := h.pushed hp
    have : 0 < s.slots.countP fun sl => !sl.done :=
      List.countP_pos_iff.mpr ⟨sl, List.mem_of_getElem? hsl, by simp [hdone]⟩
    omega
  · omega

theorem inv_decrement {s : State T} {i p : Nat} (h : Inv s)
    (hi : s.calls[i]? = some (.marked p)) :
    Inv { s with
      count := toInt (s.count - 1),
      calls := s.calls.set i (if toInt (s.count - 1) = 0 then .resuming else .over) } := by
  have hpos := h.count_pos hi
  have hrange := h.range
  rw [toInt_of_range (by omega) (by omega)]
  -- `resuming` and `over` are neither marked nor on the way to it
  generalize hpc : (if s.count - 1 = 0 then CallPc.resuming else .over) = pc
  have hpc : pc = .resuming ∨ pc = .over := by
    rw [← hpc]
    split <;> simp
  have hmarked := countP_set_add (f := CallPc.isMarked) pc hi
  have hold : ∀ (j : Nat) (pc' : CallPc), (s.calls.set i pc)[j]? = some pc' →
      pc' ≠ .resuming → pc' ≠ .over → s.calls[j]? = some pc' := by
    intro j pc' hj hr ho
    refine getElem?_set_of_ne ?_ hj
    rcases hpc with rfl | rfl
    · exact hr.symm
    · exact ho.symm
  refine ⟨h.size, ?_, by simp only; omega, ?_, ?_, ?_, h.pushed, ?_, h.copying⟩
  · have hcount := h.count
    simp only [State.pending] at hcount ⊢
    rcases hpc with rfl | rfl <;> simp [CallPc.isMarked] at hmarked <;> omega
  · intro j q hj
    exact h.tested j q (hold j _ hj (by simp) (by simp))
  · intro j k q hj hk
    exact h.one j k q (hold j _ hj (by simp) (by simp)) (hold k _ hk (by simp) (by simp))
  · rintro j q (hj | hj)
    · exact h.handed j q (.inl (hold j _ hj (by simp) (by simp)))
    · exact h.handed j q (.inr (hold j _ hj (by simp) (by simp)))
  · intro hst
    -- the counter was not 0
    exact .inr ((h.ready hst).resolve_left (by omega))

theorem inv_resume {s : State T} {i : Nat} (h : Inv s) (hi : s.calls[i]? = some .resuming)
    (hearly : s.count = 0 ∨ s.sync.status = .ready ∨ s.owner = .initing) :
    Inv { s with sync := s.sync.resume.1, calls := s.calls.set i .over } := by
  have hmarked := countP_set_add (f := CallPc.isMarked) .over hi
  have h' : Inv { s with calls := s.calls.set i .over } := by
    refine h.setCalls (by simpa [CallPc.isMarked] using hmarked) ?_ ?_
    · intro j q hj
      exact getElem?_set_of_ne (by simp) hj
    · intro j q hj
      exact h.handed j q (.inl (getElem?_set_of_ne (by simp) hj))
  have hready : s.count = 0 ∨ s.owner = .initing := by
    rcases hearly with h0 | hst | hiniting
    · exact .inl h0
    · exact h.ready hst
    · exact .inr hiniting
  exact { h' with ready := fun _ => hready }

theorem inv_complete {s s' : State T} {ev : Event T} (h : Inv s) (horderly : orderly s ev = true)
    (hs : s.complete ev = some s') : Inv s' := by
  cases ev with
  | call p c =>
    simp only [State.complete] at hs
    split at hs
    · next hsl =>
      split at hs
      · next hp => cases hs; exact inv_call h hsl hp
      · cases hs
    · cases hs
  | test i =>
    simp only [State.complete] at hs
    split at hs
    · next hi =>
      simp only [orderly, hi, decide_eq_true_eq] at horderly
      split at hs
      · next hsl => cases hs; exact inv_test h hi hsl horderly
      · cases hs
    · cases hs
  | mark i =>
    simp only [State.complete] at hs
    split at hs
    · next hi =>
      split at hs
      · next hsl => cases hs; exact inv_mark h hi hsl
      · cases hs
    · cases hs
  | decrement i =>
    simp only [State.complete] at hs
    split at hs
    · next hi => cases hs; exact inv_decrement h hi
    · cases hs
  | resume i =>
    simp only [State.complete] at hs
    split at hs
    · next hi =>
      simp only [orderly, hi, decide_eq_true_eq] at horderly
      cases hs
      exact inv_resume h hi horderly
    · cases hs
  | _ => cases hs

/-- Every orderly step keeps the invariant. -/
theorem inv_step [Inhabited T] {s s' : State T} {ev : Event T} (h : Inv s)
    (horderly : orderly s ev = true) (hs : s.step ev = some s') : Inv s' := by
  unfold State.step at hs
  cases ev with
  | promise | increment | init => exact inv_promise h horderly hs
  | get | yield | wake | copy | ret => exact inv_get h hs
  | call | test | mark | decrement | resume => exact inv_complete h horderly hs

/-! ## The calls on each promise -/

/-- The calls on one promise that have written, in order, and how many had when
`_done` was set. -/
structure Record (T : Type) where
  given : List (Call T)
  doneAt : Nat

/-- The value after these calls. -/
def lastValue [Inhabited T] (given : List (Call T)) : T :=
  given.foldl (fun v c => match c with | .setValue val => val | .setException _ => v) default

/-- The exception after these calls. -/
def lastException (given : List (Call T)) : RuntimeException :=
  given.foldl (fun e c => match c with | .setValue _ => e | .setException e' => e') success

/-- Keep the calls on each promise. -/
def noteCall (s : State T) (ev : Event T) (_ : State T) (records : Nat → Record T) :
    Nat → Record T :=
  match ev with
  | .call p c =>
    Function.update records p { records p with given := (records p).given ++ [c] }
  | .mark i =>
    match s.calls[i]? with
    | some (.tested p) =>
      Function.update records p { records p with doneAt := (records p).given.length }
    | _ => records
  | _ => records

/-- The future with the calls on its promises. -/
def recorded (T : Type) [Inhabited T] : Machine (State T × (Nat → Record T)) (Event T) :=
  (machine T).watch (fun _ => ⟨[], 0⟩) noteCall

/-- A promise and its value are what the calls on it have written. -/
structure Noted [Inhabited T] (r : Record T) (sl : Slot T) : Prop where
  first : sl.first = lastValue r.given
  e : sl.e = lastException r.given
  doneAt : sl.done = true → 0 < r.doneAt ∧ r.doneAt ≤ r.given.length

/-- The result has the exception that its promise had when it was done, or later. -/
def Copied (r : Record T) (sl : Slot T) : Prop :=
  ∃ n, r.doneAt ≤ n ∧ n ≤ r.given.length ∧ sl.second = lastException (r.given.take n)

/-- The results and the calls on their promises. -/
structure RecordInv [Inhabited T] (s : State T) (records : Nat → Record T) : Prop where
  noted : ∀ (p : Nat) (sl : Slot T), s.slots[p]? = some sl → Noted (records p) sl
  fresh : ∀ p, s.slots.length ≤ p → (records p).given = []
  /-- A call that goes on to `_done` has written. -/
  written : ∀ i p : Nat, s.calls[i]? = some (.wrote p) ∨ s.calls[i]? = some (.tested p) →
    (records p).given ≠ []
  copied : ∀ i, s.owner = .copying i → ∀ p < i, ∀ sl, s.slots[p]? = some sl →
    Copied (records p) sl

/-- Neither the calls nor the promises change, and the loop of `get()` does not go on. -/
theorem RecordInv.frame [Inhabited T] {s s' : State T} {records : Nat → Record T}
    (h : RecordInv s records) (hslots : s'.slots = s.slots)
    (hcalls : ∀ i p : Nat, s'.calls[i]? = some (.wrote p) ∨ s'.calls[i]? = some (.tested p) →
      ∃ j : Nat, s.calls[j]? = some (.wrote p) ∨ s.calls[j]? = some (.tested p))
    (howner : ∀ i, s'.owner = .copying i → i = 0 ∨ s.owner = .copying i) :
    RecordInv s' records where
  noted := by
    rw [hslots]
    exact h.noted
  fresh := by
    rw [hslots]
    exact h.fresh
  written := by
    intro i p hi
    obtain ⟨j, hj⟩ := hcalls i p hi
    exact h.written j p hj
  copied := by
    intro i hi p hp sl hsl
    rw [hslots] at hsl
    rcases howner i hi with rfl | hi
    · omega
    · exact h.copied i hi p hp sl hsl

theorem recordInv_push [Inhabited T] {s : State T} {records : Nat → Record T} {err : RuntimeException}
    (h : RecordInv s records) :
    RecordInv { s with slots := s.slots ++ [⟨false, success, default, err⟩], owner := .pushed }
      records where
  noted := by
    intro p sl hsl
    rw [List.getElem?_append] at hsl
    split at hsl
    · exact h.noted p sl hsl
    · next hp =>
      have hgiven : (records p).given = [] := h.fresh p (by omega)
      obtain rfl := List.mem_singleton.mp (List.mem_of_getElem? hsl)
      exact ⟨by rw [hgiven]; rfl, by rw [hgiven]; rfl, by simp⟩
  fresh := by
    intro p hp
    simp only [List.length_append, List.length_singleton] at hp
    exact h.fresh p (by omega)
  written := h.written
  copied := by simp

/-- One round of the loop in `get()`: the promise is done, and so its exception is
what the calls on it have given by now. -/
theorem recordInv_copy [Inhabited T] {s : State T} {records : Nat → Record T} {i : Nat} {sl : Slot T}
    (hinv : Inv s) (h : RecordInv s records) (howner : s.owner = .copying i)
    (hsl : s.slots[i]? = some sl) :
    RecordInv { s with slots := s.slots.set i { sl with second := sl.e }, owner := .copying (i + 1) }
      records where
  noted := by
    intro p x hx
    rw [List.getElem?_set] at hx
    split at hx
    · next hip =>
      subst hip
      split at hx
      · cases hx
        have := h.noted i sl hsl
        exact ⟨this.first, this.e, this.doneAt⟩
      · cases hx
    · exact h.noted p x hx
  fresh := by simpa using h.fresh
  written := h.written
  copied := by
    rintro j ⟨⟩ p hp x hx
    rw [List.getElem?_set] at hx
    split at hx
    · next hip =>
      subst hip
      split at hx
      · cases hx
        have hnoted := h.noted i sl hsl
        have hdone := hinv.copying i howner sl (List.mem_of_getElem? hsl)
        exact ⟨_, (hnoted.doneAt hdone).2, Nat.le_refl _, by rw [List.take_length, ← hnoted.e]⟩
      · cases hx
    · exact h.copied i howner p (by omega) x hx

/-- A call writes to its own promise and result. -/
theorem recordInv_call [Inhabited T] {s : State T} {records : Nat → Record T} {p : Nat} {sl : Slot T}
    {c : Call T} (h : RecordInv s records) (hsl : s.slots[p]? = some sl) :
    RecordInv { s with slots := s.slots.set p (c.write sl), calls := s.calls ++ [.wrote p] }
      (Function.update records p { records p with given := (records p).given ++ [c] }) where
  noted := by
    intro q x hx
    rw [List.getElem?_set] at hx
    split at hx
    · next hpq =>
      subst hpq
      split at hx
      · cases hx
        have hnoted := h.noted p sl hsl
        rw [Function.update_self]
        refine ⟨?_, ?_, ?_⟩
        · cases c <;> simp [Call.write, lastValue, hnoted.first]
        · cases c <;> simp [Call.write, lastException, hnoted.e]
        · intro hdone
          have := hnoted.doneAt (by cases c <;> exact hdone)
          simp only [List.length_append, List.length_singleton]
          omega
      · cases hx
    · next hpq =>
      rw [Function.update_of_ne (Ne.symm hpq)]
      exact h.noted q x hx
  fresh := by
    intro q hq
    rw [List.length_set] at hq
    have hlt := (List.getElem?_eq_some_iff.mp hsl).1
    rw [Function.update_of_ne (by omega)]
    exact h.fresh q hq
  written := by
    intro i q hi
    by_cases hpq : q = p
    · subst hpq
      simp
    · rw [Function.update_of_ne hpq]
      simp only [List.getElem?_append] at hi
      split at hi
      · exact h.written i q hi
      · rcases hi with hi | hi <;> have hmem := List.mem_of_getElem? hi <;> simp at hmem
        exact absurd hmem hpq
  copied := by
    intro i hi q hq x hx
    rw [List.getElem?_set] at hx
    split at hx
    · next hpq =>
      subst hpq
      split at hx
      · cases hx
        obtain ⟨n, hdone, hn, hsecond⟩ := h.copied i hi p hq sl hsl
        rw [Function.update_self]
        refine ⟨n, hdone, ?_, ?_⟩
        · simp only [List.length_append, List.length_singleton]
          omega
        · simp only [List.take_append_of_le_length hn]
          cases c <;> exact hsecond
      · cases hx
    · next hpq =>
      rw [Function.update_of_ne (Ne.symm hpq)]
      exact h.copied i hi q hq x hx

/-- `_done` is set after the call has written, and not while `get()` copies. -/
theorem recordInv_mark [Inhabited T] {s : State T} {records : Nat → Record T} {i p : Nat} {sl : Slot T}
    (hinv : Inv s) (h : RecordInv s records) (hi : s.calls[i]? = some (.tested p))
    (hsl : s.slots[p]? = some sl) :
    RecordInv { s with
        slots := s.slots.set p { sl with done := true }, calls := s.calls.set i (.marked p) }
      (Function.update records p { records p with doneAt := (records p).given.length }) where
  noted := by
    intro q x hx
    rw [List.getElem?_set] at hx
    split at hx
    · next hpq =>
      subst hpq
      split at hx
      · cases hx
        have hnoted := h.noted p sl hsl
        have hgiven := h.written i p (.inr hi)
        rw [Function.update_self]
        exact ⟨hnoted.first, hnoted.e, fun _ => ⟨List.length_pos_iff.mpr hgiven, Nat.le_refl _⟩⟩
      · cases hx
    · next hpq =>
      rw [Function.update_of_ne (Ne.symm hpq)]
      exact h.noted q x hx
  fresh := by
    intro q hq
    rw [List.length_set] at hq
    have hlt := (List.getElem?_eq_some_iff.mp hsl).1
    rw [Function.update_of_ne (by omega)]
    exact h.fresh q hq
  written := by
    intro j q hj
    have hgiven := h.written j q
      (hj.imp (getElem?_set_of_ne (by simp)) (getElem?_set_of_ne (by simp)))
    by_cases hpq : q = p
    · subst hpq
      simpa using hgiven
    · rwa [Function.update_of_ne hpq]
  copied := by
    intro j hj
    -- all promises are done there, and `p` is not
    obtain ⟨x, hx, hdone⟩ := hinv.tested i p hi
    have := hinv.copying j hj x (List.mem_of_getElem? hx)
    rw [hdone] at this
    cases this

theorem recordInv_promise [Inhabited T] {s s' : State T} {records : Nat → Record T} {ev : Event T}
    (h : RecordInv s records) (hs : s.promise ev = some s') : RecordInv s' records := by
  cases ev with
  | promise err =>
    simp only [State.promise] at hs
    split at hs
    · cases hs; exact recordInv_push h
    · cases hs
  | increment =>
    simp only [State.promise] at hs
    split at hs
    · cases hs
      refine h.frame rfl (fun i _ hi => ⟨i, hi⟩) ?_
      intro i hi
      simp only at hi
      split at hi <;> cases hi
    · cases hs
  | init =>
    simp only [State.promise] at hs
    split at hs
    · cases hs; exact h.frame rfl (fun i _ hi => ⟨i, hi⟩) (by simp)
    · cases hs
  | _ => cases hs

/-- A pass of the loop in `yield()` leads to the start of the loop in `get()` at most. -/
theorem recordInv_pass [Inhabited T] {s : State T} {records : Nat → Record T}
    (h : RecordInv s records) : RecordInv s.pass records := by
  refine h.frame rfl (fun i _ hi => ⟨i, hi⟩) ?_
  intro i hi
  simp only [State.pass] at hi
  split at hi <;> cases hi
  exact .inl rfl

theorem recordInv_get [Inhabited T] {s s' : State T} {records : Nat → Record T} {ev : Event T}
    (hinv : Inv s) (h : RecordInv s records) (hs : s.get ev = some s') :
    RecordInv s' records := by
  cases ev with
  | get =>
    simp only [State.get] at hs
    split at hs
    · cases hs
      refine h.frame rfl (fun i _ hi => ⟨i, hi⟩) ?_
      intro i hi
      simp only at hi
      split at hi <;> cases hi
      exact .inl rfl
    · cases hs
  | yield =>
    simp only [State.get] at hs
    split at hs
    · cases hs; exact recordInv_pass h
    · cases hs
  | wake =>
    simp only [State.get] at hs
    split at hs
    · cases hs; exact recordInv_pass h
    · cases hs
  | copy =>
    simp only [State.get] at hs
    split at hs
    · next howner =>
      split at hs
      · split at hs
        · next hsl => cases hs; exact recordInv_copy hinv h howner hsl
        · cases hs
      · cases hs
    · cases hs
  | ret =>
    simp only [State.get] at hs
    split at hs
    · split at hs
      · cases hs
      · cases hs; exact h.frame rfl (fun i _ hi => ⟨i, hi⟩) (by simp)
    · cases hs
  | _ => cases hs

/-- A call that goes on from place `i` of the list, to `_done` only on its own promise. -/
theorem recordInv_setCall [Inhabited T] {s s' : State T} {records : Nat → Record T} {i : Nat}
    {pc : CallPc} (h : RecordInv s records) (hslots : s'.slots = s.slots)
    (howner : s'.owner = s.owner) (hcalls : s'.calls = s.calls.set i pc)
    (hwrote : ∀ p, pc ≠ .wrote p) (htested : ∀ p, pc = .tested p → s.calls[i]? = some (.wrote p)) :
    RecordInv s' records := by
  refine h.frame hslots ?_ fun j hj => .inr (howner ▸ hj)
  intro j q hj
  rw [hcalls] at hj
  by_cases hq : pc = .tested q
  · exact ⟨i, .inl (htested q hq)⟩
  · exact ⟨j, hj.imp (getElem?_set_of_ne (hwrote q)) (getElem?_set_of_ne hq)⟩

theorem recordInv_complete [Inhabited T] {s s' : State T} {records : Nat → Record T} {ev : Event T}
    (hinv : Inv s) (h : RecordInv s records) (hs : s.complete ev = some s') :
    RecordInv s' (noteCall s ev s' records) := by
  cases ev with
  | call p c =>
    simp only [State.complete] at hs
    split at hs
    · next hsl =>
      split at hs
      · cases hs; exact recordInv_call h hsl
      · cases hs
    · cases hs
  | test i =>
    simp only [State.complete] at hs
    split at hs
    · next p hi =>
      split at hs
      · cases hs
        refine recordInv_setCall h rfl rfl rfl (fun q => by split <;> simp) ?_
        intro q hq
        split at hq <;> cases hq
        exact hi
      · cases hs
    · cases hs
  | mark i =>
    simp only [State.complete] at hs
    split at hs
    · next hi =>
      split at hs
      · next hsl =>
        cases hs
        simp only [noteCall, hi]
        exact recordInv_mark hinv h hi hsl
      · cases hs
    · cases hs
  | decrement i =>
    simp only [State.complete] at hs
    split at hs
    · cases hs
      refine recordInv_setCall h rfl rfl rfl (fun q => by split <;> simp) ?_
      intro q hq
      split at hq <;> cases hq
    · cases hs
  | resume i =>
    simp only [State.complete] at hs
    split at hs
    · cases hs
      exact recordInv_setCall h rfl rfl rfl (by simp) (by simp)
    · cases hs
  | _ => cases hs

theorem recordInv_step [Inhabited T] {s s' : State T} {records : Nat → Record T} {ev : Event T}
    (hinv : Inv s) (h : RecordInv s records) (hs : s.step ev = some s') :
    RecordInv s' (noteCall s ev s' records) := by
  unfold State.step at hs
  cases ev with
  | promise | increment | init => exact recordInv_promise h hs
  | get | yield | wake | copy | ret => exact recordInv_get hinv h hs
  | call | test | mark | decrement | resume => exact recordInv_complete hinv h hs

/-! ## The barrier -/

/-- When `get()` returns, every promise is done, and every result has the last value
given to its own promise and the exception that it had when it was done, or later. -/
def Barrier [Inhabited T] (s : State T × (Nat → Record T)) (ev : Event T) : Prop :=
  ev = .ret → (s.1.step ev).isSome → ∀ (p : Nat) (sl : Slot T), s.1.slots[p]? = some sl →
    sl.done = true ∧ sl.first = lastValue (s.2 p).given ∧
      0 < (s.2 p).doneAt ∧ Copied (s.2 p) sl

theorem barrier_of_inv [Inhabited T] {s : State T} {records : Nat → Record T} {ev : Event T}
    (hinv : Inv s) (h : RecordInv s records) : Barrier (s, records) ev := by
  rintro rfl hret p sl hsl
  simp only [State.step, State.get] at hret
  split at hret
  · next i howner =>
    split at hret
    · cases hret
    · next hend =>
      -- the loop has been through all promises, since their number is an `int`
      rw [toInt_of_range (by omega) hinv.size] at hend
      have hp : p < s.slots.length := (List.getElem?_eq_some_iff.mp hsl).1
      have hnoted := h.noted p sl hsl
      have hdone := hinv.copying i howner sl (List.mem_of_getElem? hsl)
      exact ⟨hdone, hnoted.first, (hnoted.doneAt hdone).1,
        h.copied i howner p (by omega) sl hsl⟩
  · cases hret

/-- **`SyncFuture::get` is a barrier** in every orderly run. -/
theorem get_is_barrier (T : Type) [Inhabited T] (evs : List (Event T))
    (horderly : (recorded T).AllSteps (fun s ev => orderly s.1 ev = true) (recorded T).init evs) :
    (recorded T).AllSteps Barrier (recorded T).init evs := by
  refine Machine.allSteps_of_invariant _ (P := fun s => Inv s.1 ∧ RecordInv s.1 s.2) ?_ ?_ evs
    ⟨inv_init, ?_⟩ horderly
  · rintro ⟨s, records⟩ ev s' ⟨hinv, h⟩ hc hs
    obtain ⟨t, ht, rfl⟩ := (Machine.watch_step _).mp hs
    exact ⟨inv_step hinv hc ht, recordInv_step hinv h ht⟩
  · rintro ⟨s, records⟩ ev ⟨hinv, h⟩ -
    exact barrier_of_inv hinv h
  · exact ⟨by simp [recorded, Machine.watch, machine], fun _ _ => rfl,
      by simp [recorded, Machine.watch, machine], by simp [recorded, Machine.watch, machine]⟩

/-! ## A resume that comes too late -/

/-- `promise()`. -/
def makePromise : List (Event Nat) := [.promise success, .increment, .init]

/-- A whole call of `set_value` on promise `p`, which is the call `i`, up to `resume()`. -/
def finishPromise (p i : Nat) : List (Event Nat) :=
  [.call p (.setValue 5), .test i, .mark i, .decrement i]

/-- One promise ends with a value while `get()` sleeps, another with an exception. -/
theorem get_is_barrier_two :
    (recorded Nat).AllSteps Barrier (recorded Nat).init
      (makePromise ++ [.promise success, .increment] ++ [.get, .yield] ++ finishPromise 0 0 ++
        [.call 1 (.setException ⟨1006, "timeout"⟩), .test 1, .mark 1, .decrement 1, .resume 1,
          .wake, .copy, .copy, .ret]) :=
  get_is_barrier Nat _ (by decide +kernel)

/-- The counter comes back to 0, and the next promise is made before `resume()`. -/
def lateResume : List (Event Nat) :=
  makePromise ++ finishPromise 0 0 ++ makePromise ++ [.resume 0, .get, .yield, .copy, .copy]

/-- Two calls on one promise find that it is not done, and both count down. -/
def doneTwice : List (Event Nat) :=
  makePromise ++ [.promise success, .increment, .call 0 (.setValue 5),
    .call 0 (.setException ⟨1006, "timeout"⟩), .test 0, .test 1, .mark 0, .mark 1, .decrement 0,
    .decrement 1, .get, .copy, .copy]

/-- A run after which `get()` can return while the second promise is not done. -/
theorem not_barrier_of_undone {evs : List (Event Nat)}
    (h : ∃ s ∈ (recorded Nat).run (recorded Nat).init evs,
      (s.1.step .ret).isSome ∧ ∃ sl ∈ s.1.slots[1]?, sl.done = false) :
    ¬ (recorded Nat).AllSteps Barrier (recorded Nat).init (evs ++ [.ret]) := by
  intro hall
  obtain ⟨s, hs, hret, sl, hsl, hdone⟩ := h
  have hlast := ((Machine.allSteps_append _ _ _ _ _).mp hall).2 s hs
  have := (hlast.1 rfl hret 1 sl hsl).1
  rw [hdone] at this
  cases this

/-- **A resume that comes too late opens the barrier**, and so do two calls that complete
one promise at the same time: `get()` returns, though the second promise is not done. -/
theorem late_resume_opens_barrier :
    ¬ (recorded Nat).AllSteps Barrier (recorded Nat).init (lateResume ++ [.ret]) ∧
      ¬ (recorded Nat).AllSteps Barrier (recorded Nat).init (doneTwice ++ [.ret]) :=
  ⟨not_barrier_of_undone (by decide +kernel), not_barrier_of_undone (by decide +kernel)⟩

end LinSocketIo.Core.SyncFuture
