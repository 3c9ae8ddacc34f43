/-
LinSocketIo.Core.Requests — whose request a call takes out of the table of
a connection.

A connection keeps its requests under the sequence numbers that the caller
chose, and a timer belongs to a future. The future can outlive its entry:
it has been popped and not completed yet, its sequence number is used
again, and `timeout` removes what it finds under the number.

* `Accounted` — whose request a call may take out: an entry leaves because it
  is popped, replaced (and then completed with "repeat sequence"), timed out
  itself, or cleared.
* `OwnEntry` — a timeout that goes on finds its own future under its sequence
  number, or nothing, and a `push` that goes on the future it is replacing.
* `accounted_iff` — along every run, all calls are accounted for if and only
  if every call meets `OwnEntry`.

Modelling notes. `set_exception` runs user code before it returns, so `push`
of a number in use and `clear` leave a frame behind, and every other call may
come before the frame goes on (`ret`). `erase(it)` of an entry that the user
code has erased is undefined; `dangling` counts these. An entry that the user
code erases and pushes again with the same future counts as the same one. A
connection that is being destroyed is no longer found by its id.
-/
import LinSocketIo.Base.Machine
import LinSocketIo.Core.FutureTheorems

namespace LinSocketIo.Core

open LinSocketIo.Base

variable {F V : Type}

/-- A call that is waiting for `set_exception` to return. -/
inductive RequestFrame (F : Type) where
  /-- `push` of `f` has completed the future `old` that it found. -/
  | pushing (connid : Nat) (sn : String) (old f : F)
  /-- `clear` has the futures `rest` before it. -/
  | clearing (rest : List F)

/-- The futures, the calls under way, and the completions so far. -/
structure Requests (F V : Type) where
  futures : Futures F V
  frames : List (RequestFrame F)
  completed : List (F × Completion V)
  /-- How often `push` has erased by an iterator whose entry was gone. -/
  dangling : Nat

/-- The calls on the connections and futures of a thread. -/
inductive RequestOp (F V : Type) where
  | push (connid : Nat) (sn : String) (f : F)
  | pop (connid : Nat) (sn : String)
  /-- `Future::timeout` or `AsyncFuture::timeout`. -/
  | timeout (f : F)
  /-- The destructor of the connection. -/
  | clear (connid : Nat)
  | setValue (f : F) (msg : V)
  | setException (f : F) (e : RuntimeException)
  /-- The `set_exception` that the innermost call waits for returns. -/
  | ret

/-- What `push` completes the future with that it replaces. -/
def repeatSequence : RuntimeException :=
  ⟨RpcException.internalError.toCode, "repeat sequence"⟩

/-- What `clear` completes a future with. -/
def connectionClosed : RuntimeException :=
  ⟨RpcException.connectionClosed.toCode, "connection closed"⟩

/-! ## Looking up an entry -/

namespace Futures

theorem find_erase (w : Futures F V) (connid connid' : Nat) (sn sn' : String) :
    (w.erase connid sn).find connid' sn' =
      if connid' = connid ∧ sn' = sn then none else w.find connid' sn' := by
  unfold find erase setTable
  by_cases hc : connid' = connid
  · subst hc
    simp only [Function.update_self, true_and]
    cases w.table connid' with
    | none => simp
    | some l =>
        simp only [Option.map_some, Option.bind_some, List.find?_filter]
        split
        · next hsn =>
            subst hsn
            simp
        · next hsn =>
            congr 2
            funext a
            by_cases ha : a.1 = sn'
            · simp [ha, hsn]
            · simp [ha]
  · simp [hc]

/-- An entry that another one replaces was under its number. -/
theorem find_insert [DecidableEq F] (w : Futures F V) {connid connid' : Nat} {sn sn' : String}
    {f : F} (hne : ¬ (connid' = connid ∧ sn' = sn)) :
    (w.step (.insert connid sn f)).find connid' sn' = w.find connid' sn' := by
  have herase := find_erase w connid connid' sn sn'
  rw [if_neg hne] at herase
  rw [← herase]
  unfold step find erase setTable
  by_cases hc : connid' = connid
  · subst hc
    have hsn : sn ≠ sn' := fun heq => hne ⟨rfl, heq.symm⟩
    simp only [Function.update_self]
    cases w.table connid' with
    | none => rfl
    | some l => simp [hsn]
  · simp only [Function.update_of_ne hc]

/-- What `timeout` takes out, once it goes on. -/
theorem find_expire [DecidableEq F] (w : Futures F V) (f : F) (connid : Nat) (sn : String) :
    (w.expire f).find connid sn =
      if connid = (w.future f).promise.connid ∧ sn = (w.future f).promise.sn then none
      else w.find connid sn := by
  cases ht : w.table (w.future f).promise.connid with
  | some l =>
      have hfind : (w.expire f).find = (w.erase (w.future f).promise.connid
          (w.future f).promise.sn).find := by
        simp only [expire, ht]
        rfl
      rw [hfind, find_erase]
  | none =>
      have hfind : (w.expire f).find = w.find := by
        simp only [expire, ht]
        rfl
      rw [hfind]
      split
      · next h =>
          rw [find, h.1, ht]
          rfl
      · rfl

/-- The timeout of a `Future` that is done does nothing. -/
def Expired (w : Futures F V) (f : F) : Prop :=
  ∃ wait, (w.future f).kind = .future wait ∧ (w.future f).promise.done = true

theorem timeout_of_expired [DecidableEq F] {w : Futures F V} {f : F} (h : w.Expired f) :
    w.timeout f = w := by
  obtain ⟨wait, hkind, hdone⟩ := h
  simp only [timeout, hkind, hdone, if_true]

theorem timeout_of_not_expired [DecidableEq F] {w : Futures F V} {f : F} (h : ¬ w.Expired f) :
    w.timeout f = w.expire f := by
  unfold timeout
  cases hkind : (w.future f).kind with
  | future wait =>
      cases hdone : (w.future f).promise.done with
      | true => exact absurd ⟨wait, hkind, hdone⟩ h
      | false => rfl
  | asyncFuture callback => rfl

end Futures

namespace Requests

variable [DecidableEq F]

/-- An event on the futures. -/
def event (s : Requests F V) (ev : FutureEvent F V) : Requests F V :=
  { s with futures := s.futures.step ev, completed := s.completed ++ (s.futures.call ev).toList }

/-- `clear` comes to the next future. -/
def clearNext (s : Requests F V) : List F → Requests F V
  | [] => s
  | f :: rest =>
    let s := s.event (.setException f connectionClosed)
    { s with frames := .clearing rest :: s.frames }

/-- `push`. -/
def push (s : Requests F V) (connid : Nat) (sn : String) (f : F) : Requests F V :=
  match s.futures.find connid sn with
  | some old =>
    let s := s.event (.collide connid sn)
    { s with frames := .pushing connid sn old f :: s.frames }
  | none => s.event (.insert connid sn f)

/-- `clear`; the connection is not found any more. -/
def clear (s : Requests F V) (connid : Nat) (entries : List (String × F)) : Requests F V :=
  clearNext
    { s with futures :=
        { s.futures with table := Function.update s.futures.table connid none } }
    (entries.map (·.2))

/-- The innermost call goes on. -/
def ret (s : Requests F V) : Option (Requests F V) :=
  match s.frames with
  | [] => none
  | .pushing connid sn old f :: frames =>
    if s.futures.find connid sn = some old then
      some (({ s with frames := frames }.event (.erase connid sn)).event (.insert connid sn f))
    else some { s with frames := frames, dangling := s.dangling + 1 }
  | .clearing rest :: frames => some (clearNext { s with frames := frames } rest)

/-- One call. -/
def step (s : Requests F V) : RequestOp F V → Option (Requests F V)
  | .push connid sn f => (s.futures.table connid).map fun _ => s.push connid sn f
  | .pop connid sn => (s.futures.table connid).map fun _ => s.event (.erase connid sn)
  | .timeout f => some (s.event (.timeout f))
  | .clear connid => (s.futures.table connid).map fun entries => s.clear connid entries
  | .setValue f msg => some (s.event (.setValue f msg))
  | .setException f e => some (s.event (.setException f e))
  | .ret => s.ret

/-- The calls, from given futures and tables. -/
def machine (w : Futures F V) : Machine (Requests F V) (RequestOp F V) where
  init := ⟨w, [], [], 0⟩
  step := step

/-! ## Who leaves -/

/-- Every entry that the call takes out of a table was popped, has been replaced by a `push` of
its number and completed with "repeat sequence", timed out itself, or was cleared; and nothing
is erased by an iterator whose entry is gone. -/
def Accounted (s : Requests F V) (op : RequestOp F V) : Prop :=
  ∀ s', s.step op = some s' → s'.dangling = s.dangling ∧
    ∀ connid sn g, s.futures.find connid sn = some g → s'.futures.find connid sn ≠ some g →
      op = .pop connid sn ∨ op = .timeout g ∨ op = .clear connid ∨
        (op = .ret ∧ (g, .exception repeatSequence) ∈ s.completed ∧
          ∃ f frames, s.frames = .pushing connid sn g f :: frames)

/-- A timeout that goes on finds its own future under its number, or nothing, and a `push` that
goes on finds the future that it is replacing. -/
def OwnEntry (s : Requests F V) : RequestOp F V → Prop
  | .timeout f =>
    s.futures.Expired f ∨
      ∀ g, s.futures.find (s.futures.future f).promise.connid (s.futures.future f).promise.sn =
        some g → g = f
  | .ret => ∀ connid sn old f frames, s.frames = .pushing connid sn old f :: frames →
    s.futures.find connid sn = some old
  | _ => True

/-- A `push` that waits has completed the future that it is about to replace. -/
def Replacing (s : Requests F V) : Prop :=
  ∀ connid sn old f, .pushing connid sn old f ∈ s.frames →
    (old, .exception repeatSequence) ∈ s.completed

theorem completed_event (s : Requests F V) (ev : FutureEvent F V) :
    s.completed ⊆ (s.event ev).completed := List.subset_append_left _ _

omit [DecidableEq F] in
theorem Replacing.congr {s s' : Requests F V} (h : s.Replacing)
    (hframes : ∀ connid sn old f, .pushing connid sn old f ∈ s'.frames →
      .pushing connid sn old f ∈ s.frames)
    (hcompleted : s.completed ⊆ s'.completed) : s'.Replacing :=
  fun connid sn old f hmem => hcompleted (h connid sn old f (hframes connid sn old f hmem))

theorem Replacing.event {s : Requests F V} (h : s.Replacing) (ev : FutureEvent F V) :
    (s.event ev).Replacing :=
  h.congr (fun _ _ _ _ hmem => hmem) (s.completed_event ev)

theorem Replacing.clearNext {s : Requests F V} (h : s.Replacing) : ∀ rest : List F,
    (s.clearNext rest).Replacing
  | [] => h
  | f :: rest =>
      (h.event (.setException f connectionClosed)).congr
        (fun _ _ _ _ hmem => by
          rcases List.mem_cons.mp hmem with heq | hmem
          · cases heq
          · exact hmem)
        (List.Subset.refl _)

/-- What it means that the innermost call goes on. -/
theorem ret_cases {s s' : Requests F V} (h : s.ret = some s') :
    (∃ connid sn old f frames, s.frames = .pushing connid sn old f :: frames ∧
        s.futures.find connid sn = some old ∧
        s' = ({ s with frames := frames }.event (.erase connid sn)).event (.insert connid sn f)) ∨
      (∃ connid sn old f frames, s.frames = .pushing connid sn old f :: frames ∧
        s.futures.find connid sn ≠ some old ∧
        s' = { s with frames := frames, dangling := s.dangling + 1 }) ∨
      ∃ rest frames, s.frames = .clearing rest :: frames ∧
        s' = clearNext { s with frames := frames } rest := by
  unfold ret at h
  split at h
  · cases h
  · next connid sn old f frames hframes =>
      split at h
      · next hfind =>
          cases h
          exact Or.inl ⟨connid, sn, old, f, frames, hframes, hfind, rfl⟩
      · next hgone =>
          cases h
          exact Or.inr (Or.inl ⟨connid, sn, old, f, frames, hframes, hgone, rfl⟩)
  · next rest frames hframes =>
      cases h
      exact Or.inr (Or.inr ⟨rest, frames, hframes, rfl⟩)

omit [DecidableEq F] in
theorem Replacing.tail {s : Requests F V} (h : s.Replacing) {frame : RequestFrame F}
    {frames : List (RequestFrame F)} (hframes : s.frames = frame :: frames) :
    Replacing { s with frames := frames } :=
  h.congr (fun _ _ _ _ hmem => by rw [hframes]; exact List.mem_cons_of_mem _ hmem)
    (List.Subset.refl _)

/-- Every call keeps what the waiting calls of `push` rely on. -/
theorem replacing_step {s s' : Requests F V} {op : RequestOp F V} (h : s.Replacing)
    (hstep : s.step op = some s') : s'.Replacing := by
  cases op with
  | push connid sn f =>
      obtain ⟨l, -, rfl⟩ := Option.map_eq_some_iff.mp hstep
      unfold push
      split
      · next old hfind =>
          intro connid' sn' old' f' hmem
          rcases List.mem_cons.mp hmem with heq | hmem
          · cases heq
            exact List.mem_append_right _ (by simp [Futures.call, hfind, repeatSequence])
          · exact completed_event s _ (h connid' sn' old' f' hmem)
      · exact h.event _
  | pop connid sn =>
      obtain ⟨l, -, rfl⟩ := Option.map_eq_some_iff.mp hstep
      exact h.event _
  | timeout f =>
      cases hstep
      exact h.event _
  | clear connid =>
      obtain ⟨l, -, rfl⟩ := Option.map_eq_some_iff.mp hstep
      have hgone : Replacing { s with futures :=
          { s.futures with table := Function.update s.futures.table connid none } } := h
      exact hgone.clearNext _
  | setValue f msg =>
      cases hstep
      exact h.event _
  | setException f e =>
      cases hstep
      exact h.event _
  | ret =>
      rcases ret_cases hstep with ⟨connid, sn, old, f, frames, hframes, -, rfl⟩ |
        ⟨connid, sn, old, f, frames, hframes, -, rfl⟩ | ⟨rest, frames, hframes, rfl⟩
      · exact ((h.tail hframes).event _).event _
      · exact h.tail hframes
      · exact (h.tail hframes).clearNext rest

/-- `clear` completes futures and leaves the tables that are left alone. -/
theorem table_clearNext (s : Requests F V) : ∀ rest : List F,
    (s.clearNext rest).futures.table = s.futures.table
  | [] => rfl
  | _ :: _ => rfl

theorem dangling_clearNext (s : Requests F V) : ∀ rest : List F,
    (s.clearNext rest).dangling = s.dangling
  | [] => rfl
  | _ :: _ => rfl

/-- Only a `push` that goes on can find its entry gone. -/
theorem dangling_step {s s' : Requests F V} {op : RequestOp F V} (hown : s.OwnEntry op)
    (hstep : s.step op = some s') : s'.dangling = s.dangling := by
  cases op with
  | push connid sn f =>
      obtain ⟨l, -, rfl⟩ := Option.map_eq_some_iff.mp hstep
      unfold push
      split <;> rfl
  | pop connid sn =>
      obtain ⟨l, -, rfl⟩ := Option.map_eq_some_iff.mp hstep
      rfl
  | timeout f =>
      cases hstep
      rfl
  | clear connid =>
      obtain ⟨l, -, rfl⟩ := Option.map_eq_some_iff.mp hstep
      exact dangling_clearNext _ _
  | setValue f msg =>
      cases hstep
      rfl
  | setException f e =>
      cases hstep
      rfl
  | ret =>
      rcases ret_cases hstep with ⟨connid, sn, old, f, frames, hframes, -, rfl⟩ |
        ⟨connid, sn, old, f, frames, hframes, hgone, rfl⟩ | ⟨rest, frames, hframes, rfl⟩
      · rfl
      · exact absurd (hown connid sn old f frames hframes) hgone
      · exact dangling_clearNext _ _

theorem find_clear (s : Requests F V) (connid : Nat) (entries : List (String × F)) {connid' : Nat}
    (hne : connid' ≠ connid) (sn : String) :
    (s.clear connid entries).futures.find connid' sn = s.futures.find connid' sn := by
  unfold Futures.find clear
  rw [table_clearNext]
  simp only [Function.update_of_ne hne]

/-- A `push` of a number that is free takes nothing out. -/
theorem find_push {s : Requests F V} {connid connid' : Nat} {sn sn' : String} {f g : F}
    (hfind : s.futures.find connid' sn' = some g) :
    (s.push connid sn f).futures.find connid' sn' = some g := by
  unfold push
  split
  · next old hold =>
      rw [← hfind]
      simp only [event, Futures.step, hold]
      rfl
  · next hfree =>
      refine (Futures.find_insert s.futures ?_).trans hfind
      rintro ⟨rfl, rfl⟩
      rw [hfree] at hfind
      cases hfind

/-- **One call**: it is accounted for exactly when it is no timeout that finds another
future, and no `push` whose entry is gone. -/
theorem accounted_step {s : Requests F V} (h : s.Replacing) (op : RequestOp F V) :
    s.Accounted op ↔ s.OwnEntry op := by
  constructor
  · intro hacc
    cases op with
    | timeout f =>
        by_cases hexp : s.futures.Expired f
        · exact Or.inl hexp
        · refine Or.inr fun g hfind => ?_
          have hgone : (s.futures.timeout f).find (s.futures.future f).promise.connid
              (s.futures.future f).promise.sn ≠ some g := by
            rw [Futures.timeout_of_not_expired hexp, Futures.find_expire, if_pos ⟨rfl, rfl⟩]
            nofun
          rcases (hacc _ rfl).2 _ _ g hfind hgone with hpop | hself | hclear | ⟨hret, -⟩
          · cases hpop
          · cases hself
            rfl
          · cases hclear
          · cases hret
    | ret =>
        intro connid sn old f frames hframes
        by_contra hgone
        have hstep : s.step .ret =
            some { s with frames := frames, dangling := s.dangling + 1 } := by
          simp only [step, ret, hframes, if_neg hgone]
        exact absurd (hacc _ hstep).1 (Nat.succ_ne_self s.dangling)
    | _ => trivial
  · intro hown s' hstep
    refine ⟨dangling_step hown hstep, fun connid sn g hfind hleft => ?_⟩
    cases op with
    | push connid' sn' f =>
        obtain ⟨l, -, rfl⟩ := Option.map_eq_some_iff.mp hstep
        exact absurd (find_push hfind) hleft
    | pop connid' sn' =>
        obtain ⟨l, -, rfl⟩ := Option.map_eq_some_iff.mp hstep
        refine Or.inl ?_
        by_contra hne
        refine hleft ((Futures.find_erase s.futures connid' connid sn' sn).trans ?_)
        rw [if_neg, hfind]
        rintro ⟨rfl, rfl⟩
        exact hne rfl
    | timeout f =>
        cases hstep
        refine Or.inr (Or.inl ?_)
        rcases hown with hexp | hown
        · refine absurd ?_ hleft
          rw [event, Futures.step, Futures.timeout_of_expired hexp]
          exact hfind
        · by_cases hexp : s.futures.Expired f
          · refine absurd ?_ hleft
            rw [event, Futures.step, Futures.timeout_of_expired hexp]
            exact hfind
          · have hat : connid = (s.futures.future f).promise.connid ∧
                sn = (s.futures.future f).promise.sn := by
              by_contra hne
              refine hleft ?_
              rw [event, Futures.step, Futures.timeout_of_not_expired hexp, Futures.find_expire,
                if_neg hne, hfind]
            rw [hat.1, hat.2] at hfind
            rw [hown g hfind]
    | clear connid' =>
        obtain ⟨l, -, rfl⟩ := Option.map_eq_some_iff.mp hstep
        refine Or.inr (Or.inr (Or.inl ?_))
        by_contra hne
        refine hleft ((find_clear s connid' l ?_ sn).trans hfind)
        rintro rfl
        exact hne rfl
    | setValue f msg =>
        cases hstep
        exact absurd hfind hleft
    | setException f e =>
        cases hstep
        exact absurd hfind hleft
    | ret =>
        refine Or.inr (Or.inr (Or.inr ⟨rfl, ?_⟩))
        rcases ret_cases hstep with ⟨connid', sn', old, f, frames, hframes, hold, rfl⟩ |
          ⟨connid', sn', old, f, frames, hframes, hgone, rfl⟩ | ⟨rest, frames, hframes, rfl⟩
        · have hat : connid = connid' ∧ sn = sn' := by
            by_contra hne
            refine hleft ((Futures.find_insert _ hne).trans ?_)
            refine (Futures.find_erase s.futures connid' connid sn' sn).trans ?_
            rw [if_neg hne, hfind]
          obtain ⟨rfl, rfl⟩ := hat
          rw [hfind] at hold
          cases hold
          exact ⟨h connid sn g f (by rw [hframes]; exact List.mem_cons_self), f, frames, hframes⟩
        · exact absurd (hown connid' sn' old f frames hframes) hgone
        · refine absurd ?_ hleft
          rw [← hfind]
          unfold Futures.find
          rw [table_clearNext]

/-- **Whose request leaves the table**: along every run, every entry that leaves was popped,
replaced by a `push` of its number, timed out itself or cleared, if and only if every timeout
that goes on finds its own future under its number, or nothing, and every `push` that goes on
the future that it is replacing. -/
theorem accounted_iff (w : Futures F V) (ops : List (RequestOp F V)) :
    (machine w).AllSteps Accounted (machine w).init ops ↔
      (machine w).AllSteps OwnEntry (machine w).init ops := by
  have hinit : Replacing (machine w).init := fun _ _ _ _ hmem => by cases hmem
  exact (machine w).allSteps_iff_of_invariant (C := fun _ _ => True) (P := Replacing)
    (fun _ _ _ h _ hstep => replacing_step h hstep) (fun _ op h _ => accounted_step h op) ops hinit
    ((machine w).allSteps_of_forall (P := fun _ => True) (fun _ _ => trivial) _)

/-- The first request has been popped and not completed yet; its timeout removes the second
one, which has the same sequence number. -/
theorem timeout_removes_other_request :
    ¬ (machine (Futures.start (.future true))).AllSteps Accounted
        (machine (Futures.start (.future true))).init
        [.push 1 "7" 3, .pop 1 "7", .push 1 "7" 4, .timeout 3] := by
  intro hall
  have hlast := (((hall.2 _ rfl).2 _ rfl).2 _ rfl).1
  rcases (hlast _ rfl).2 1 "7" 4 rfl (by decide) with hpop | hself | hclear | ⟨hret, -⟩
  · cases hpop
  · cases hself
  · cases hclear
  · cases hret

end Requests

end LinSocketIo.Core
