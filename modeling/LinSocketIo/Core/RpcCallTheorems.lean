/-
LinSocketIo.Core.RpcCallTheorems — what becomes of a remote call.

A completion takes a call out of its table and stops its timer. Every path
that completes one first finds it in the table, or has it in hand and finds
it in none, so that no call is completed twice (`Ends`, `Loose`). A call that
is put into a table has its timer running.

* `exactly_one_outcome` — a call whose task has run has one outcome, or it is
  in the table of its connection and its timer is due at the end of the time
  that the caller gave it.
-/
import Mathlib.Data.List.Nodup
import LinSocketIo.Core.RpcCall

namespace LinSocketIo.Core

open LinSocketIo.Base

variable {F V : Type}

namespace Rpc

/-! ## The invariant -/

/-- What holds of a call: its task has not run and nothing has happened to it, or it waits, or it
is over. -/
structure CallInv (s : Rpc F V) (f : F) : Prop where
  quiet : (s.call f).phase ≠ .carried → (s.futures.future f).New ∧ (s.call f).timer = none
  fresh : (s.call f).phase = .created ∨ (s.call f).phase = .scheduled →
    (s.call f).enable = false ∧ (s.call f).tms = (s.call f).ms ∧ (s.call f).t0 ≤ s.now ∧
      (s.call f).ms ≤ intMax
  carried : (s.call f).phase = .carried → s.Over f ∨ s.Waits f

/-- What holds between the events, of the calls in `P`: all of them, or all but the one whose task
is running. -/
structure InvOn (P : F → Prop) (s : Rpc F V) : Prop where
  call : ∀ f, P f → s.CallInv f
  entry : ∀ connid sn g, s.futures.find connid sn = some g →
    P g ∧ (s.call g).phase = .carried ∧ (s.futures.future g).promise.done = false ∧
      (s.futures.future g).promise.connid = connid ∧ (s.futures.future g).promise.sn = sn
  keys : ∀ connid l, s.futures.table connid = some l → (l.map Prod.fst).Nodup

variable [DecidableEq F]

/-- A call that waited is over, and no other call notices. -/
structure Ends (s : Rpc F V) (g : F) (s' : Rpc F V) : Prop where
  future : ∀ f, f ≠ g → s'.futures.future f = s.futures.future f
  call : ∀ f, f ≠ g → s'.call f = s.call f
  now : s'.now = s.now
  done : (s'.futures.future g).promise.done = true
  once : (s'.futures.future g).doneCalls = 1
  phase : (s'.call g).phase = .carried
  timer : (s'.call g).timer = none
  find : ∀ connid sn, s'.futures.find connid sn =
    if s.futures.find connid sn = some g then none else s.futures.find connid sn
  keys : ∀ connid l, s'.futures.table connid = some l → (l.map Prod.fst).Nodup

variable {P : F → Prop} {s s' s'' : Rpc F V} {f g : F}

theorem Ends.over (h : Ends s g s') : s'.Over g where
  done := h.done
  once := h.once
  timer := h.timer
  gone connid sn hfind := by
    rw [h.find] at hfind
    split at hfind
    · cases hfind
    · next hne => exact hne hfind

omit [DecidableEq F] in
/-- What holds of a call stays, if nothing is written about it and the tables still have it where
they had it. -/
theorem CallInv.congr (hf : s.CallInv f) (hcall : s'.call f = s.call f)
    (hfuture : s'.futures.future f = s.futures.future f) (hnow : s.now ≤ s'.now)
    (hfind : ∀ connid sn,
      s'.futures.find connid sn = some f ↔ s.futures.find connid sn = some f) : s'.CallInv f := by
  refine ⟨?_, fun hphase => ?_, fun hphase => ?_⟩
  · rw [hcall, hfuture]
    exact hf.quiet
  · rw [hcall] at hphase ⊢
    obtain ⟨henable, htms, ht0, hms⟩ := hf.fresh hphase
    exact ⟨henable, htms, Int.le_trans ht0 hnow, hms⟩
  · rw [hcall] at hphase
    rcases hf.carried hphase with hover | hwaits
    · refine Or.inl ⟨?_, ?_, ?_, fun connid sn hmem => ?_⟩
      · rw [hfuture]
        exact hover.done
      · rw [hfuture]
        exact hover.once
      · rw [hcall]
        exact hover.timer
      · exact hover.gone connid sn ((hfind connid sn).mp hmem)
    · refine Or.inr ⟨?_, ?_, ?_, ?_⟩
      · rw [hfuture]
        exact hwaits.done
      · rw [hfuture]
        exact hwaits.never
      · rw [hcall]
        exact hwaits.timer
      · rw [hfuture]
        exact (hfind _ _).mpr hwaits.found

/-- The end of one call is nothing to the others. -/
theorem InvOn.ends (hs : InvOn P s) (h : Ends s g s') : InvOn (fun f => P f ∨ f = g) s' where
  call f hf := by
    by_cases hfg : f = g
    · subst hfg
      refine ⟨fun hne => absurd h.phase hne, fun hfresh => ?_, fun _ => Or.inl h.over⟩
      rw [h.phase] at hfresh
      rcases hfresh with hfresh | hfresh <;> cases hfresh
    · refine (hs.call f (hf.resolve_right hfg)).congr (h.call f hfg) (h.future f hfg)
        (Int.le_of_eq h.now.symm) fun connid sn => ?_
      rw [h.find]
      split
      · next hmem =>
        rw [hmem]
        exact ⟨(fun heq => by cases heq), fun heq => absurd (Option.some.inj heq).symm hfg⟩
      · exact Iff.rfl
  entry connid sn f hfind := by
    rw [h.find] at hfind
    split at hfind
    · cases hfind
    · next hne =>
      have hfg : f ≠ g := fun heq => hne (heq ▸ hfind)
      rw [h.call f hfg, h.future f hfg]
      obtain ⟨hf, hrest⟩ := hs.entry connid sn f hfind
      exact ⟨Or.inl hf, hrest⟩
  keys := h.keys

omit [DecidableEq F] in
theorem InvOn.congr {Q : F → Prop} (hs : InvOn P s) (hpq : ∀ f, P f ↔ Q f) : InvOn Q s := by
  have heq : P = Q := funext fun f => propext (hpq f)
  exact heq ▸ hs

/-! ## Events on the futures -/

omit [DecidableEq F] in
theorem complete_doneCalls {x : IFuture V} (hx : x.promise.done = false) (c : Completion V) :
    (x.complete c).doneCalls = x.doneCalls + 1 ∧ (x.complete c).promise.done = true ∧
      (x.complete c).promise.connid = x.promise.connid ∧
      (x.complete c).promise.sn = x.promise.sn := by
  rw [IFuture.complete_new hx, IFuture.done_doneCalls, IFuture.done_promise]
  cases c with
  | value msg => exact ⟨rfl, rfl, rfl, rfl⟩
  | exception e => exact ⟨rfl, rfl, rfl, rfl⟩

/-- An event completes one future, and changes the tables as `find` says. -/
structure Completes (s : Rpc F V) (g : F) (ev : FutureEvent F V) : Prop where
  waits : (s.futures.future g).promise.done = false
  never : (s.futures.future g).doneCalls = 0
  phase : (s.call g).phase = .carried
  future : ∃ c : Completion V, (s.futures.step ev).future =
    Function.update s.futures.future g ((s.futures.future g).complete c)

theorem Completes.ends {ev : FutureEvent F V} (h : Completes s g ev)
    (hfind : ∀ connid sn, (s.futures.step ev).find connid sn =
      if s.futures.find connid sn = some g then none else s.futures.find connid sn)
    (hkeys : ∀ connid l, (s.futures.step ev).table connid = some l → (l.map Prod.fst).Nodup) :
    Ends s g (s.event ev) := by
  obtain ⟨c, hfuture⟩ := h.future
  obtain ⟨hcalls, hdone, -, -⟩ := complete_doneCalls h.waits c
  refine ⟨fun f hf => ?_, fun f hf => ?_, rfl, ?_, ?_, ?_, ?_, hfind, hkeys⟩
  · simp only [event, hfuture, Function.update_of_ne hf]
  · simp only [event, hfuture, Function.update_of_ne hf, if_true]
  · simp only [event, hfuture, Function.update_self, hdone]
  · simp only [event, hfuture, Function.update_self, hcalls, h.never]
  · simp only [event, hfuture, Function.update_self, hcalls]
    split
    · exact h.phase
    · exact h.phase
  · simp only [event, hfuture, Function.update_self, hcalls]
    rw [if_neg (Nat.succ_ne_self _)]

/-- An event that completes nothing. -/
theorem event_quiet (ev : FutureEvent F V)
    (hfuture : (s.futures.step ev).future = s.futures.future) :
    (s.event ev).call = s.call ∧ (s.event ev).futures.future = s.futures.future := by
  refine ⟨?_, hfuture⟩
  funext f
  simp only [event, hfuture, if_true]

/-- A call that is under way in one of the functions: nothing has happened to it, and it is in no
table. -/
structure Loose (s : Rpc F V) (g : F) : Prop where
  done : (s.futures.future g).promise.done = false
  never : (s.futures.future g).doneCalls = 0
  phase : (s.call g).phase = .carried
  gone : ∀ connid sn, s.futures.find connid sn ≠ some g

theorem Loose.of_ends (hf : s.Loose f) (h : Ends s g s') (hfg : f ≠ g) : s'.Loose f := by
  refine ⟨?_, ?_, ?_, fun connid sn hfind => ?_⟩
  · rw [h.future f hfg]
    exact hf.done
  · rw [h.future f hfg]
    exact hf.never
  · rw [h.call f hfg]
    exact hf.phase
  · rw [h.find] at hfind
    split at hfind
    · cases hfind
    · exact hf.gone connid sn hfind

/-- Such a call is completed. -/
theorem Loose.ends (hg : s.Loose g) (hs : InvOn P s) {ev : FutureEvent F V} (c : Completion V)
    (hfuture : (s.futures.step ev).future =
      Function.update s.futures.future g ((s.futures.future g).complete c))
    (htable : (s.futures.step ev).table = s.futures.table) : Ends s g (s.event ev) := by
  have hcompletes : Completes s g ev := ⟨hg.done, hg.never, hg.phase, c, hfuture⟩
  refine hcompletes.ends (fun connid sn => ?_) fun connid l hl => hs.keys connid l ?_
  · rw [if_neg (hg.gone connid sn), Futures.find, htable]
    rfl
  · rw [← htable]
    exact hl

theorem Loose.setException (hg : s.Loose g) (hs : InvOn P s) (e : RuntimeException) :
    Ends s g (s.event (.setException g e)) :=
  hg.ends hs (.exception e) rfl rfl

omit [DecidableEq F] in
theorem keys_erase {w : Futures F V} (hw : ∀ connid l, w.table connid = some l →
    (l.map Prod.fst).Nodup) (connid : Nat) (sn : String) : ∀ connid' l,
    (w.erase connid sn).table connid' = some l → (l.map Prod.fst).Nodup := by
  intro connid' l hl
  unfold Futures.erase Futures.setTable at hl
  by_cases hc : connid' = connid
  · subst hc
    simp only [Function.update_self, Option.map_eq_some_iff] at hl
    obtain ⟨l', hl', rfl⟩ := hl
    exact (hw connid' l' hl').sublist (List.filter_sublist.map _)
  · simp only [Function.update_of_ne hc] at hl
    exact hw connid' l hl

/-! ## Entries of the tables -/

/-- The entry of a call is erased, and the call is still to be completed. -/
theorem InvOn.erase (hs : InvOn P s) {connid : Nat} {sn : String}
    (hfind : s.futures.find connid sn = some g) :
    InvOn (fun f => P f ∧ f ≠ g) (s.event (.erase connid sn)) ∧
      (s.event (.erase connid sn)).Loose g := by
  obtain ⟨hcall, hfuture⟩ := event_quiet (s := s) (.erase connid sn) rfl
  have hfind' : ∀ connid' sn', (s.event (.erase connid sn)).futures.find connid' sn' =
      if connid' = connid ∧ sn' = sn then none else s.futures.find connid' sn' :=
    fun connid' sn' => Futures.find_erase s.futures connid connid' sn sn'
  obtain ⟨hg, hcarried, hdone, hconnid, hsn⟩ := hs.entry connid sn g hfind
  have hgone : ∀ connid' sn', (s.event (.erase connid sn)).futures.find connid' sn' ≠ some g := by
    intro connid' sn' hmem
    rw [hfind'] at hmem
    split at hmem
    · cases hmem
    · next hne =>
      obtain ⟨-, -, -, hconnid', hsn'⟩ := hs.entry connid' sn' g hmem
      exact hne ⟨hconnid'.symm.trans hconnid, hsn'.symm.trans hsn⟩
  refine ⟨⟨fun f hf => ?_, fun connid' sn' f hmem => ?_, keys_erase hs.keys connid sn⟩, ?_⟩
  · obtain ⟨hf, hfg⟩ := hf
    refine (hs.call f hf).congr (congrFun hcall f) (congrFun hfuture f) (Int.le_refl _)
      fun connid' sn' => ?_
    rw [hfind']
    split
    · next hat =>
      rw [hat.1, hat.2, hfind]
      exact ⟨(fun heq => by cases heq), fun heq => absurd (Option.some.inj heq).symm hfg⟩
    · exact Iff.rfl
  · have hmem' := hmem
    rw [hfind'] at hmem'
    split at hmem'
    · cases hmem'
    · rw [hcall, hfuture]
      obtain ⟨hf, hrest⟩ := hs.entry connid' sn' f hmem'
      exact ⟨⟨hf, fun heq => hgone connid' sn' (heq ▸ hmem)⟩, hrest⟩
  · have hnever : (s.futures.future g).doneCalls = 0 := by
      rcases (hs.call g hg).carried hcarried with hover | hwaits
      · rw [hover.done] at hdone
        cases hdone
      · exact hwaits.never
    refine ⟨?_, ?_, ?_, hgone⟩
    · rw [hfuture]
      exact hdone
    · rw [hfuture]
      exact hnever
    · rw [hcall]
      exact hcarried

/-- An entry is erased and its call completed. -/
theorem InvOn.complete (hs : InvOn P s) {connid : Nat} {sn : String}
    (hfind : s.futures.find connid sn = some g) (ev : FutureEvent F V) (c : Completion V)
    (hfuture : ((s.event (.erase connid sn)).futures.step ev).future =
      Function.update s.futures.future g ((s.futures.future g).complete c))
    (htable : ((s.event (.erase connid sn)).futures.step ev).table =
      (s.event (.erase connid sn)).futures.table) :
    InvOn P ((s.event (.erase connid sn)).event ev) ∧
      Ends (s.event (.erase connid sn)) g ((s.event (.erase connid sn)).event ev) := by
  obtain ⟨herase, hloose⟩ := hs.erase hfind
  have hends := hloose.ends herase c hfuture htable
  refine ⟨(herase.ends hends).congr fun f => ?_, hends⟩
  by_cases hfg : f = g
  · subst hfg
    simp [(hs.entry connid sn f hfind).1]
  · simp [hfg]

omit [DecidableEq F] in
theorem table_of_find {connid : Nat} {sn : String} (hfind : s.futures.find connid sn = some g) :
    ∃ l, s.futures.table connid = some l := by
  unfold Futures.find at hfind
  cases ht : s.futures.table connid with
  | none =>
    rw [ht] at hfind
    cases hfind
  | some l => exact ⟨l, rfl⟩

/-- `push` completes the call that it finds before it erases the entry. -/
theorem collide_erase {connid : Nat} {sn : String} (hfind : s.futures.find connid sn = some g) :
    (s.event (.collide connid sn)).event (.erase connid sn) =
      (s.event (.erase connid sn)).event (.setException g repeatSequence) := by
  have hcollide : s.futures.step (.collide connid sn) = s.futures.setException g repeatSequence := by
    simp only [Futures.step, hfind, repeatSequence]
  simp only [event, hcollide]
  simp only [Futures.step, Futures.setException, Futures.erase, Futures.setTable, if_true]
  rfl

/-- The timer of a call erases its entry and completes it. -/
theorem fire_eq (hf : s.Waits f) : ∃ e,
    (s.setCall f { s.call f with timer := none }).event (.timeout f) =
      (s.event (.erase (s.futures.future f).promise.connid (s.futures.future f).promise.sn)).event
        (.setException f e) := by
  obtain ⟨l, hl⟩ := table_of_find hf.found
  have hexpired : ¬ s.futures.Expired f := by
    rintro ⟨wait, -, hdone⟩
    rw [hf.done] at hdone
    cases hdone
  refine ⟨⟨RpcException.timeout.toCode,
    "timeout" ++ " " ++ s.futures.dump (s.futures.future f).promise.connid⟩, ?_⟩
  have hfutures : s.futures.step (.timeout f) =
      (s.futures.erase (s.futures.future f).promise.connid
        (s.futures.future f).promise.sn).setException f ⟨RpcException.timeout.toCode,
          "timeout" ++ " " ++ s.futures.dump (s.futures.future f).promise.connid⟩ := by
    simp only [Futures.step, Futures.timeout_of_not_expired hexpired, Futures.expire, hl]
  have hcall : ((s.setCall f { s.call f with timer := none }).event (.timeout f)).call =
      ((s.event (.erase (s.futures.future f).promise.connid
        (s.futures.future f).promise.sn)).event (.setException f ⟨RpcException.timeout.toCode,
          "timeout" ++ " " ++ s.futures.dump (s.futures.future f).promise.connid⟩)).call := by
    funext g
    simp only [event, setCall, hfutures]
    by_cases hgf : g = f
    · subst hgf
      simp [Futures.step, Futures.setException, Futures.erase, Futures.setTable,
        IFuture.setException]
    · simp [Futures.step, Futures.setException, Futures.erase, Futures.setTable, hgf]
  unfold event setCall at hcall ⊢
  simp only [hfutures] at hcall ⊢
  rw [hcall]
  rfl

theorem find_insert_self {w : Futures F V} {connid : Nat} {l : List (String × F)}
    (hl : w.table connid = some l) (sn : String) (f : F) :
    (w.step (.insert connid sn f)).find connid sn = some f := by
  simp [Futures.find, Futures.step, Futures.setTable, hl]

theorem keys_insert {w : Futures F V} (hw : ∀ connid l, w.table connid = some l →
    (l.map Prod.fst).Nodup) (connid : Nat) (sn : String) (f : F) : ∀ connid' l,
    (w.step (.insert connid sn f)).table connid' = some l → (l.map Prod.fst).Nodup := by
  intro connid' l hl
  unfold Futures.step Futures.setTable at hl
  by_cases hc : connid' = connid
  · subst hc
    simp only [Function.update_self, Option.map_eq_some_iff] at hl
    obtain ⟨l', hl', rfl⟩ := hl
    rw [List.map_cons, List.nodup_cons]
    refine ⟨fun hmem => ?_, (hw connid' l' hl').sublist (List.filter_sublist.map _)⟩
    obtain ⟨x, hx, rfl⟩ := List.mem_map.mp hmem
    simpa using (List.mem_filter.mp hx).2
  · simp only [Function.update_of_ne hc] at hl
    exact hw connid' l hl

/-- The call whose task is running comes into the table. -/
theorem InvOn.insert (hs : InvOn (· ≠ f) s) (hf : s.Loose f)
    (htimer : (s.call f).timer = some ((s.call f).t0 + (s.call f).ms)) {connid : Nat} {sn : String}
    (hconnid : (s.futures.future f).promise.connid = connid)
    (hsn : (s.futures.future f).promise.sn = sn) {l : List (String × F)}
    (hl : s.futures.table connid = some l) (hfree : s.futures.find connid sn = none) :
    InvOn (fun _ => True) (s.event (.insert connid sn f)) := by
  obtain ⟨hcall, hfuture⟩ := event_quiet (s := s) (.insert connid sn f) rfl
  have hself := find_insert_self hl sn f
  have hother : ∀ connid' sn', ¬ (connid' = connid ∧ sn' = sn) →
      (s.futures.step (.insert connid sn f)).find connid' sn' = s.futures.find connid' sn' :=
    fun connid' sn' hne => Futures.find_insert s.futures hne
  refine ⟨fun g _ => ?_, fun connid' sn' g hfind => ?_, keys_insert hs.keys connid sn f⟩
  · by_cases hgf : g = f
    · subst hgf
      refine ⟨fun hne => ?_, fun hfresh => ?_, fun _ => Or.inr ⟨?_, ?_, ?_, ?_⟩⟩
      · rw [hcall] at hne
        exact absurd hf.phase hne
      · rw [hcall, hf.phase] at hfresh
        rcases hfresh with hfresh | hfresh <;> cases hfresh
      · rw [hfuture]
        exact hf.done
      · rw [hfuture]
        exact hf.never
      · rw [hcall]
        exact htimer
      · rw [hfuture, hconnid, hsn]
        exact hself
    · refine (hs.call g hgf).congr (congrFun hcall g) (congrFun hfuture g) (Int.le_refl _)
        fun connid' sn' => ?_
      by_cases hat : connid' = connid ∧ sn' = sn
      · rw [hat.1, hat.2, hfree]
        refine ⟨fun hfind => ?_, (fun hfind => by cases hfind)⟩
        exact absurd (Option.some.inj (hfind.symm.trans hself)) hgf
      · rw [← hother connid' sn' hat]
        rfl
  · rw [hcall, hfuture]
    by_cases hat : connid' = connid ∧ sn' = sn
    · obtain ⟨rfl, rfl⟩ := hat
      obtain rfl : f = g := Option.some.inj (hself.symm.trans hfind)
      exact ⟨trivial, hf.phase, hf.done, hconnid, hsn⟩
    · obtain ⟨-, hrest⟩ := hs.entry connid' sn' g ((hother connid' sn' hat).symm.trans hfind)
      exact ⟨trivial, hrest⟩

theorem Loose.erase (hf : s.Loose f) (connid : Nat) (sn : String) :
    (s.event (.erase connid sn)).Loose f := by
  obtain ⟨hcall, hfuture⟩ := event_quiet (s := s) (.erase connid sn) rfl
  refine ⟨?_, ?_, ?_, fun connid' sn' hfind => ?_⟩
  · rw [hfuture]
    exact hf.done
  · rw [hfuture]
    exact hf.never
  · rw [hcall]
    exact hf.phase
  · have herase := Futures.find_erase s.futures connid connid' sn sn'
    split at herase
    · exact Option.some_ne_none f (hfind.symm.trans herase)
    · exact hf.gone connid' sn' (herase.symm.trans hfind)

/-- `push` of the call whose task is running. -/
theorem InvOn.push (hs : InvOn (· ≠ f) s) (hf : s.Loose f)
    (htimer : (s.call f).timer = some ((s.call f).t0 + (s.call f).ms)) {connid : Nat} {sn : String}
    (hconnid : (s.futures.future f).promise.connid = connid)
    (hsn : (s.futures.future f).promise.sn = sn) {l : List (String × F)}
    (hl : s.futures.table connid = some l) :
    InvOn (fun _ => True) (s.push connid sn f) := by
  unfold Rpc.push
  cases hfind : s.futures.find connid sn with
  | none => exact hs.insert hf htimer hconnid hsn hl hfind
  | some old =>
    obtain ⟨hinv, hends⟩ := hs.complete hfind (.setException old repeatSequence)
      (.exception repeatSequence) rfl rfl
    have hne : f ≠ old := by
      rintro rfl
      exact hf.gone connid sn hfind
    obtain ⟨hcall, hfuture⟩ := event_quiet (s := s) (.erase connid sn) rfl
    have hcallf := (hends.call f hne).trans (congrFun hcall f)
    have hfuturef := (hends.future f hne).trans (congrFun hfuture f)
    have hfree := (Futures.find_erase s.futures connid connid sn sn).trans (if_pos ⟨rfl, rfl⟩)
    have htable : (s.futures.erase connid sn).table connid = some (l.filter (·.1 ≠ sn)) := by
      simp [Futures.erase, Futures.setTable, hl]
    rw [← hcallf] at htimer
    rw [← hfuturef] at hconnid hsn
    rw [collide_erase hfind]
    exact hinv.insert ((hf.erase connid sn).of_ends hends hne) htimer hconnid hsn htable hfree

/-! ## One event -/

omit [DecidableEq F] in
/-- A call whose task has not run is in no table. -/
theorem InvOn.not_found (hs : InvOn P s) (hphase : (s.call f).phase ≠ .carried) (connid : Nat)
    (sn : String) : s.futures.find connid sn ≠ some f := by
  intro hfind
  exact hphase (hs.entry connid sn f hfind).2.1

/-- Other calls do not notice what is written about a call that is in no table. -/
theorem InvOn.setCall (hs : InvOn P s) {x : RpcCall} (hphase : (s.call f).phase ≠ .carried) :
    InvOn (fun g => P g ∧ g ≠ f) (s.setCall f x) := by
  have hother : ∀ g, g ≠ f → (s.setCall f x).call g = s.call g :=
    fun g hne => Function.update_of_ne hne _ _
  refine ⟨fun g hg => ?_, fun connid sn g hfind => ?_, hs.keys⟩
  · obtain ⟨hg, hne⟩ := hg
    exact (hs.call g hg).congr (hother g hne) rfl (Int.le_refl _) fun _ _ => Iff.rfl
  · have hne : g ≠ f := fun heq => hs.not_found hphase connid sn (heq ▸ hfind)
    rw [hother g hne]
    obtain ⟨hg, hrest⟩ := hs.entry connid sn g hfind
    exact ⟨⟨hg, hne⟩, hrest⟩

/-- What is written about a call whose task has not run. -/
theorem InvOn.setFresh (hs : InvOn (fun _ => True) s) {x : RpcCall}
    (hphase : (s.call f).phase ≠ .carried) (hx : x.phase ≠ .carried) (htimer : x.timer = none)
    (hfresh : x.phase = .created ∨ x.phase = .scheduled →
      x.enable = false ∧ x.tms = x.ms ∧ x.t0 ≤ s.now ∧ x.ms ≤ intMax) :
    InvOn (fun _ => True) (s.setCall f x) := by
  have hset := hs.setCall (x := x) hphase
  have hself : (s.setCall f x).call f = x := Function.update_self _ _ _
  refine ⟨fun g _ => ?_, fun connid sn g hfind => ?_, hset.keys⟩
  · by_cases hgf : g = f
    · subst hgf
      refine ⟨fun _ => ?_, ?_, fun hcarried => ?_⟩
      · rw [hself]
        exact ⟨((hs.call g trivial).quiet hphase).1, htimer⟩
      · rw [hself]
        exact hfresh
      · rw [hself] at hcarried
        exact absurd hcarried hx
    · exact hset.call g ⟨trivial, hgf⟩
  · obtain ⟨-, hrest⟩ := hset.entry connid sn g hfind
    exact ⟨trivial, hrest⟩

/-- The last of the calls is completed. -/
theorem InvOn.last (hs : InvOn (fun g => True ∧ g ≠ f) s) (h : Ends s f s') :
    InvOn (fun _ => True) s' := by
  refine (hs.ends h).congr fun g => ⟨fun _ => trivial, fun _ => ?_⟩
  rcases eq_or_ne g f with heq | hne
  · exact Or.inr heq
  · exact Or.inl ⟨trivial, hne⟩

/-- `tick` of a call whose timer has not been started. -/
theorem tick_fresh {x : RpcCall} {now : Int} (henable : x.enable = false) (htms : x.tms = x.ms)
    (ht0 : x.t0 ≤ now) : (tick now x).tms = x.ms - (now - x.t0) ∧ (tick now x).t0 = x.t0 ∧
      (tick now x).ms = x.ms ∧
      (0 < (tick now x).tms → (tick now x).timer = some (now + toInt (tick now x).tms)) := by
  unfold tick
  split
  · next hlt =>
    simp only [henable, htms, Bool.false_eq_true, if_false, true_and]
    intro hpos
    rw [if_pos hpos]
  · next hle =>
    obtain rfl : now = x.t0 := by omega
    simp only [henable, htms, Bool.false_eq_true, if_false, Int.sub_self, Int.sub_zero, true_and]
    intro hpos
    rw [if_pos hpos]

/-- The task of a call. -/
theorem inv_transport (strerror : Int → String) (hs : InvOn (fun _ => True) s)
    (hphase : (s.call f).phase = .scheduled) (io : Sending)
    (htimely : s.Timely (.transport f io)) :
    InvOn (fun _ => True) (s.transport strerror f io) := by
  have hne : (s.call f).phase ≠ .carried := by
    rw [hphase]
    intro h
    cases h
  obtain ⟨henable, htms, ht0, hms⟩ := (hs.call f trivial).fresh (Or.inr hphase)
  obtain ⟨hticked, htick0, htickms, hticktimer⟩ := tick_fresh henable htms ht0
  have hset := hs.setCall (x := { tick s.now (s.call f) with phase := .carried }) hne
  have hself : (s.setCall f { tick s.now (s.call f) with phase := .carried }).call f =
      { tick s.now (s.call f) with phase := .carried } := Function.update_self _ _ _
  have hloose : (s.setCall f { tick s.now (s.call f) with phase := .carried }).Loose f := by
    obtain ⟨hnew, -⟩ := (hs.call f trivial).quiet hne
    refine ⟨hnew.done, hnew.doneCalls, ?_, hs.not_found hne⟩
    rw [hself]
  have hfail : ∀ e, InvOn (fun _ => True)
      ((s.setCall f { tick s.now (s.call f) with phase := .carried }).event
        (.setException f e)) := fun e => hset.last (hloose.setException hset e)
  unfold Rpc.transport
  simp only [hself]
  split
  · exact hfail _
  · next hpos =>
    have hexact : toInt (tick s.now (s.call f)).tms = (tick s.now (s.call f)).tms := by
      refine toInt_of_range ?_ ?_
      · rw [hticked, ← htms]
        exact htimely
      · omega
    rw [hexact] at hpos hticktimer
    split
    · exact hfail _
    · next l hl =>
      cases io with
      | sent =>
        refine InvOn.push (hset.congr fun g => by simp) hloose ?_ rfl rfl hl
        rw [hself, hticktimer (by omega), hticked, htick0, htickms]
        congr 1
        omega
      | notSerialized => exact hfail _
      | runtimeException e => exact hfail _
      | exception what => exact hfail _
      | unknown => exact hfail _

omit [DecidableEq F] in
/-- The entry of a table is what is found under its number. -/
theorem find_of_mem {l : List (String × F)} (hl : (l.map Prod.fst).Nodup) {a : String × F}
    (ha : a ∈ l) : l.find? (fun b => b.1 = a.1) = some a := by
  induction l with
  | nil => cases ha
  | cons b l ih =>
    rw [List.map_cons, List.nodup_cons] at hl
    rcases List.mem_cons.mp ha with rfl | ha
    · simp
    · have hne : b.1 ≠ a.1 := fun heq => hl.1 (heq ▸ List.mem_map_of_mem ha)
      rw [List.find?_cons_of_neg (by simpa using hne)]
      exact ih hl.2 ha

/-- `clear` goes through the futures that are left. -/
theorem inv_clearAll : ∀ (fs : List F) {s : Rpc F V}, fs.Nodup → InvOn (· ∉ fs) s →
    (∀ f ∈ fs, s.Loose f) → InvOn (fun _ => True) (s.clearAll fs)
  | [], _, _, hs, _ => hs.congr fun f => by simp
  | g :: fs, s, hnodup, hs, hloose => by
      rw [List.nodup_cons] at hnodup
      have hends := (hloose g List.mem_cons_self).setException hs connectionClosed
      refine inv_clearAll fs hnodup.2 ((hs.ends hends).congr fun f => ?_) fun f hf => ?_
      · by_cases hfg : f = g
        · subst hfg
          simp [hnodup.1]
        · simp [hfg]
      · refine (hloose f (List.mem_cons_of_mem _ hf)).of_ends hends ?_
        rintro rfl
        exact hnodup.1 hf

/-- The end of a connection. -/
theorem inv_clear (hs : InvOn (fun _ => True) s) {connid : Nat} {entries : List (String × F)}
    (ht : s.futures.table connid = some entries) :
    InvOn (fun _ => True) ((s.setTable connid none).clearAll (entries.map (·.2))) := by
  have hfound : ∀ a ∈ entries, s.futures.find connid a.1 = some a.2 := by
    intro a ha
    simp only [Futures.find, ht, Option.bind_some, find_of_mem (hs.keys connid entries ht) ha,
      Option.map_some]
  have hgone : ∀ sn, (s.setTable connid none).futures.find connid sn = none := by
    intro sn
    simp [setTable, Futures.find]
  have hother : ∀ connid' sn, connid' ≠ connid →
      (s.setTable connid none).futures.find connid' sn = s.futures.find connid' sn := by
    intro connid' sn hne
    simp [setTable, Futures.find, hne]
  -- the numbers of the entries are those of their futures, so no future comes twice
  have hnumbers : (entries.map (·.2)).map (fun f => (s.futures.future f).promise.sn) =
      entries.map Prod.fst := by
    rw [List.map_map]
    refine List.map_congr_left fun a ha => ?_
    exact (hs.entry connid a.1 a.2 (hfound a ha)).2.2.2.2
  have hnodup : (entries.map (·.2)).Nodup := by
    refine List.Nodup.of_map (fun f => (s.futures.future f).promise.sn) ?_
    rw [hnumbers]
    exact hs.keys connid entries ht
  have hmem : ∀ f, (∃ sn, s.futures.find connid sn = some f) → f ∈ entries.map (·.2) := by
    rintro f ⟨sn, hfind⟩
    simp only [Futures.find, ht, Option.bind_some, Option.map_eq_some_iff] at hfind
    obtain ⟨a, ha, rfl⟩ := hfind
    exact List.mem_map_of_mem (List.mem_of_find?_eq_some ha)
  refine inv_clearAll _ hnodup ⟨fun f hf => ?_, fun connid' sn f hfind => ?_, fun connid' l hl => ?_⟩
    fun f hf => ?_
  · refine (hs.call f trivial).congr rfl rfl (Int.le_refl _) fun connid' sn => ?_
    by_cases hc : connid' = connid
    · subst hc
      rw [hgone]
      exact ⟨(fun hfind => by cases hfind), fun hfind => absurd (hmem f ⟨sn, hfind⟩) hf⟩
    · rw [hother connid' sn hc]
  · by_cases hc : connid' = connid
    · subst hc
      rw [hgone] at hfind
      cases hfind
    · rw [hother connid' sn hc] at hfind
      obtain ⟨-, hphase, hdone, hconnid, hsn⟩ := hs.entry connid' sn f hfind
      refine ⟨fun hf => ?_, hphase, hdone, hconnid, hsn⟩
      obtain ⟨a, ha, rfl⟩ := List.mem_map.mp hf
      have hconnid' := (hs.entry connid a.1 a.2 (hfound a ha)).2.2.2.1
      exact hc (hconnid.symm.trans hconnid')
  · by_cases hc : connid' = connid
    · subst hc
      simp [setTable] at hl
    · simp only [setTable, Function.update_of_ne hc] at hl
      exact hs.keys connid' l hl
  · obtain ⟨a, ha, rfl⟩ := List.mem_map.mp hf
    obtain ⟨-, hphase, hdone, hconnid, hsn⟩ := hs.entry connid a.1 a.2 (hfound a ha)
    have hnever : (s.futures.future a.2).doneCalls = 0 := by
      rcases (hs.call a.2 trivial).carried hphase with hover | hwaits
      · rw [hover.done] at hdone
        cases hdone
      · exact hwaits.never
    refine ⟨hdone, hnever, hphase, fun connid' sn hfind => ?_⟩
    by_cases hc : connid' = connid
    · subst hc
      rw [hgone] at hfind
      cases hfind
    · rw [hother connid' sn hc] at hfind
      exact hc ((hs.entry connid' sn a.2 hfind).2.2.2.1.symm.trans hconnid)

omit [DecidableEq F] in
/-- Time passes. -/
theorem InvOn.pass (hs : InvOn P s) (ms : Nat) : InvOn P { s with now := s.now + ms } := by
  refine ⟨fun f hf => (hs.call f hf).congr rfl rfl ?_ fun _ _ => Iff.rfl, hs.entry, hs.keys⟩
  exact Int.le_add_of_nonneg_right (Int.natCast_nonneg ms)

omit [DecidableEq F] in
/-- A connection comes with an empty table. -/
theorem InvOn.connect (hs : InvOn P s) {connid : Nat} (ht : s.futures.table connid = none) :
    InvOn P (s.setTable connid (some [])) := by
  have hfind : (s.setTable connid (some [])).futures.find = s.futures.find := by
    funext connid' sn
    by_cases hc : connid' = connid
    · subst hc
      simp [setTable, Futures.find, ht]
    · simp [setTable, Futures.find, hc]
  refine ⟨fun f hf => ?_, fun connid' sn f hmem => ?_, fun connid' l hl => ?_⟩
  · refine (hs.call f hf).congr rfl rfl (Int.le_refl _) fun connid' sn => ?_
    rw [hfind]
  · rw [hfind] at hmem
    exact hs.entry connid' sn f hmem
  · by_cases hc : connid' = connid
    · subst hc
      simp only [setTable, Function.update_self, Option.some.injEq] at hl
      subst hl
      exact List.nodup_nil
    · simp only [setTable, Function.update_of_ne hc] at hl
      exact hs.keys connid' l hl

omit [DecidableEq F] in
/-- Who has a timer waits. -/
theorem CallInv.waits_of_timer (hf : s.CallInv f) {due : Int} (htimer : (s.call f).timer = some due) :
    s.Waits f := by
  by_cases hphase : (s.call f).phase = .carried
  · rcases hf.carried hphase with hover | hwaits
    · rw [hover.timer] at htimer
      cases htimer
    · exact hwaits
  · rw [(hf.quiet hphase).2] at htimer
    cases htimer

/-- The timer of a call. -/
theorem inv_fire (hs : InvOn (fun _ => True) s) (hf : s.Waits f) :
    InvOn (fun _ => True) ((s.setCall f { s.call f with timer := none }).event (.timeout f)) ∧
      ((s.setCall f { s.call f with timer := none }).event (.timeout f)).Over f := by
  obtain ⟨e, heq⟩ := fire_eq hf
  obtain ⟨hinv, hends⟩ := hs.complete hf.found (.setException f e) (.exception e) rfl rfl
  rw [heq]
  exact ⟨hinv, hends.over⟩

/-- The answer to a call. -/
theorem inv_reply (hs : InvOn (fun _ => True) s) {connid : Nat} {sn : String}
    (hfind : s.futures.find connid sn = some f) (msg : V) :
    InvOn (fun _ => True) ((s.event (.erase connid sn)).event (.setValue f msg)) ∧
      ((s.event (.erase connid sn)).event (.setValue f msg)).Over f := by
  obtain ⟨hinv, hends⟩ := hs.complete hfind (.setValue f msg) (.value msg) rfl rfl
  exact ⟨hinv, hends.over⟩

/-- **One event** keeps what holds between the events. -/
theorem inv_step (strerror : Int → String) {ev : RpcEvent F V} (hs : InvOn (fun _ => True) s)
    (htimely : s.Timely ev) (hstep : s.step strerror ev = some s') : InvOn (fun _ => True) s' := by
  cases ev with
  | pass ms =>
    cases hstep
    exact hs.pass ms
  | create f ms =>
    simp only [step] at hstep
    split at hstep
    · next h =>
      cases hstep
      obtain ⟨hphase, -, hms⟩ := h
      refine hs.setFresh (fun h => ?_) (fun h => by cases h) rfl fun _ => ⟨rfl, rfl, ?_, hms⟩
      · rw [hphase] at h
        cases h
      · exact Int.le_refl _
    · cases hstep
  | schedule f taken =>
    simp only [step] at hstep
    split at hstep
    · next hphase =>
      cases hstep
      obtain ⟨hquiet, hfresh, -⟩ := hs.call f trivial
      have hne : (s.call f).phase ≠ .carried := by
        rw [hphase]
        intro h
        cases h
      obtain ⟨henable, htms, ht0, hms⟩ := hfresh (Or.inl hphase)
      have htimer := (hquiet hne).2
      refine hs.setFresh hne ?_ ?_ fun _ => ?_
      · dsimp only
        split
        · intro h
          cases h
        · intro h
          cases h
      · cases (s.futures.future f).kind with
        | future wait => exact htimer
        | asyncFuture callback => exact htimer
      · cases (s.futures.future f).kind with
        | future wait => exact ⟨henable, htms, Int.le_refl _, hms⟩
        | asyncFuture callback => exact ⟨henable, htms, ht0, hms⟩
    · cases hstep
  | transport f io =>
    simp only [step] at hstep
    split at hstep
    · next hphase =>
      cases hstep
      exact inv_transport strerror hs hphase io htimely
    · cases hstep
  | fire f =>
    simp only [step] at hstep
    split at hstep
    · next due htimer =>
      split at hstep
      · cases hstep
        exact (inv_fire hs ((hs.call f trivial).waits_of_timer htimer)).1
      · cases hstep
    · cases hstep
  | reply connid sn msg =>
    simp only [step] at hstep
    split at hstep
    · cases hstep
    · split at hstep
      · next f hfind =>
        cases hstep
        exact (inv_reply hs hfind msg).1
      · cases hstep
        exact hs
  | connect connid =>
    simp only [step] at hstep
    split at hstep
    · next ht =>
      cases hstep
      exact hs.connect ht
    · cases hstep
  | clear connid =>
    simp only [step] at hstep
    split at hstep
    · next entries ht =>
      cases hstep
      exact inv_clear hs ht
    · cases hstep

/-- What holds before the first event. -/
theorem inv_init (strerror : Int → String) {w : Futures F V} (hw : Blank w) :
    InvOn (fun _ => True) (machine strerror w).init := by
  have hfind : ∀ connid sn, (machine strerror w).init.futures.find connid sn = none := by
    intro connid sn
    simp [machine, Futures.find, hw.table]
  refine ⟨fun f _ => ⟨fun _ => ⟨hw.new f, rfl⟩, fun h => ?_, fun h => ?_⟩,
    fun connid sn f hmem => ?_, fun connid l hl => ?_⟩
  · rcases h with h | h <;> cases h
  · cases h
  · rw [hfind] at hmem
    cases hmem
  · rw [show (machine strerror w).init.futures.table connid = none from hw.table connid] at hl
    cases hl

/-- **Every call has exactly one outcome**: in every state that timely runs from blank futures
reach, a call whose task has run is over after one completion, or it waits; and then an answer
with its number ends it, and so does its timer when the time of the caller has passed. A call
whose task has not run has not been completed. -/
theorem exactly_one_outcome (strerror : Int → String) {w : Futures F V} (hw : Blank w)
    (evs : List (RpcEvent F V))
    (htimely : (machine strerror w).AllSteps Timely (machine strerror w).init evs)
    (hrun : (machine strerror w).run (machine strerror w).init evs = some s) (f : F) :
    ((s.call f).phase ≠ .carried → (s.futures.future f).doneCalls = 0) ∧
      ((s.call f).phase = .carried → s.Over f ∨ s.Waits f ∧
        (∀ msg, ∃ s', s.step strerror (.reply (s.futures.future f).promise.connid
          (s.futures.future f).promise.sn msg) = some s' ∧ s'.Over f) ∧
        ((s.call f).t0 + (s.call f).ms ≤ s.now →
          ∃ s', s.step strerror (.fire f) = some s' ∧ s'.Over f)) := by
  have hs : InvOn (fun _ => True) s :=
    (machine strerror w).run_invariant (fun t ev t' ht htimely hstep =>
      inv_step strerror ht htimely hstep) evs (inv_init strerror hw) htimely hrun
  obtain ⟨hquiet, -, hcarried⟩ := hs.call f trivial
  refine ⟨fun hphase => (hquiet hphase).1.doneCalls, fun hphase => ?_⟩
  rcases hcarried hphase with hover | hwaits
  · exact Or.inl hover
  · refine Or.inr ⟨hwaits, fun msg => ?_, fun hdue => ?_⟩
    · obtain ⟨l, hl⟩ := table_of_find hwaits.found
      refine ⟨_, ?_, (inv_reply hs hwaits.found msg).2⟩
      simp only [step, hl, hwaits.found]
    · refine ⟨_, ?_, (inv_fire hs hwaits).2⟩
      simp only [step, hwaits.timer]
      rw [if_pos hdue]

/-- Futures with a callback, of calls on connection 1 that all have the number 7. -/
def sameNumber : Futures Nat String where
  future _ := ⟨.asyncFuture true, ⟨none, none, ⟨0, ""⟩, 1, "7", false⟩, 0, 0⟩
  table _ := none
  dump _ := ""

/-- The second call replaces the first one, and its time is over. -/
theorem exactly_one_outcome_sameNumber :
    ∃ s, (machine (fun _ => "") sameNumber).run (machine (fun _ => "") sameNumber).init
        [.connect 1, .create 3 500, .create 4 700, .schedule 3 true, .schedule 4 true, .pass 20,
          .transport 3 .sent, .transport 4 .sent, .pass 680] = some s ∧
      (((s.call 4).phase ≠ .carried → (s.futures.future 4).doneCalls = 0) ∧
        ((s.call 4).phase = .carried → s.Over 4 ∨ s.Waits 4 ∧
          (∀ msg, ∃ s', s.step (fun _ => "") (.reply (s.futures.future 4).promise.connid
            (s.futures.future 4).promise.sn msg) = some s' ∧ s'.Over 4) ∧
          ((s.call 4).t0 + (s.call 4).ms ≤ s.now →
            ∃ s', s.step (fun _ => "") (.fire 4) = some s' ∧ s'.Over 4))) := by
  obtain ⟨s, hrun⟩ := Option.isSome_iff_exists.mp
    (show ((machine (fun _ => "") sameNumber).run (machine (fun _ => "") sameNumber).init
      [.connect 1, .create 3 500, .create 4 700, .schedule 3 true, .schedule 4 true, .pass 20,
        .transport 3 .sent, .transport 4 .sent, .pass 680]).isSome = true by decide +kernel)
  exact ⟨s, hrun, exactly_one_outcome (fun _ => "") ⟨fun _ => ⟨rfl, rfl, rfl⟩, fun _ => rfl⟩ _
    (by decide +kernel) hrun 4⟩

end Rpc

end LinSocketIo.Core
