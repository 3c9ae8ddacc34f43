/-
LinSocketIo.Core.CoroutineTheorems — what `resume` returns, and what the states
of the coroutines do.

In every run `_running` follows the control, and a coroutine is RUNNING exactly
while it has control (`inv_step`). The documentation of `resume` says that it
returns `false` also where the coroutine came to its end in this call; but the
`swapcontext` of `resume` returns 0 in this case too, since `uc_link` leads to
the context that it saved, and `resume` looks at nothing else.

* `alive_iff` — the runs in which `resume` says whether the coroutine lives.
-/
import LinSocketIo.Core.Coroutine

namespace LinSocketIo.Core

open LinSocketIo.Base

/-- The moves of a state: SUSPENDED, RUNNING, NORMAL and RUNNING in turns, DEAD. -/
def Stat.moves : Stat → Stat → Bool
  | .suspended, .running | .running, .normal | .normal, .running | .running, .dead => true
  | _, _ => false

namespace Coroutines

variable {A : Type}

/-- What a step may do: `resume` returns whether the coroutine lives, `running()` is null in the
main coroutine, and the states move. -/
structure Reports (s s' : Coroutines A) : Prop where
  alive : ∀ co r, s'.results = s.results ++ [(co, r)] → (r = true ↔ s'.stat co ≠ .dead)
  idle : s'.control = none → s'.running = none
  moves : ∀ i, s'.stat i = s.stat i ∨ (s.stat i).moves (s'.stat i) = true

/-- A step does so. -/
def Meets (s : Coroutines A) (ev : Event A) : Prop := ∀ s', s.step ev = some s' → Reports s s'

/-- No body ends, and no `swapcontext` fails in a `resume` that comes to it. -/
def Goes (s : Coroutines A) : Event A → Prop
  | .ends _ => s.control = none
  | .resume co _ swaps => swaps = true ∨ s.made ≤ co ∨ s.control ≠ none ∨ s.stat co = .dead
  | .create | .yield _ => True

/-! ## The invariant -/

/-- What holds between two events. -/
structure Inv (s : Coroutines A) : Prop where
  running : s.running = s.control
  only : ∀ i, s.stat i = .running ↔ s.control = some i
  resumed : ∀ i, s.control = some i → s.resumed = i
  main : 0 < s.made → s.main = true
  created : ∀ i, s.control = some i → i < s.made
  fresh : ∀ i, s.made ≤ i → s.stat i = .suspended

variable {s s' : Coroutines A}

theorem inv_start : (start : Coroutines A).Inv where
  running := rfl
  only i := ⟨(fun h => by cases h), (fun h => by cases h)⟩
  resumed _ h := by cases h
  main h := absurd h (Nat.lt_irrefl 0)
  created _ h := by cases h
  fresh _ _ := rfl

theorem Inv.stat_ne_running (hs : s.Inv) (hcontrol : s.control = none) (i : Nat) :
    s.stat i ≠ .running := fun h => by
  rw [(hs.only i).mp h] at hcontrol
  cases hcontrol

theorem stat_change_of_eq {f : Coroutine A → Coroutine A} (hf : ∀ co, (f co).stat = co.stat)
    (s : Coroutines A) (i j : Nat) : (s.change i f).stat j = s.stat j := by
  unfold change stat
  by_cases h : j = i
  · subst h
    simp only [Function.update_self, hf]
  · simp only [Function.update_of_ne h]

@[simp] theorem stat_setStat (s : Coroutines A) (i j : Nat) (st : Stat) :
    (s.setStat i st).stat j = if j = i then st else s.stat j := by
  unfold setStat change stat
  by_cases h : j = i
  · subst h
    simp only [Function.update_self, if_true]
  · simp only [Function.update_of_ne h, if_neg h]

/-- What throws changes nothing else. -/
theorem inv_thrown (hs : s.Inv) (what : String) : Inv { s with thrown := s.thrown ++ [what] } :=
  ⟨hs.running, hs.only, hs.resumed, hs.main, hs.created, hs.fresh⟩

theorem reports_thrown (hs : s.Inv) (what : String) :
    Reports s { s with thrown := s.thrown ++ [what] } where
  alive co r h := by
    have hlen := congrArg List.length h
    simp only [List.length_append, List.length_singleton] at hlen
    omega
  idle h := hs.running.trans h
  moves _ := Or.inl rfl

/-! ## The calls -/

/-- What a call ensures, whether it returns or throws. -/
theorem after_of_wp {α : Type} {x : CoM A α} {P : Coroutines A → Prop}
    (h : wp x s (fun _ => P) (fun what t => P { t with thrown := t.thrown ++ [what] })) :
    P (after x s) := by
  unfold wp at h
  unfold after
  cases hr : x.run s with
  | ok a t => rw [hr] at h; exact h
  | error e t => rw [hr] at h; exact h

/-- Only the main coroutine creates. -/
theorem after_create (hs : s.Inv) : after create s = match s.control with
    | some _ => { s with thrown := s.thrown ++ ["only allow create coroutine in main coroutine"] }
    | none =>
      { s with
        made := s.made + 1, main := true
        cos := Function.update s.cos s.made ⟨.proc, none, .suspended⟩ } := by
  cases hcontrol : s.control with
  | none =>
      have hnone : s.running = none := hs.running.trans hcontrol
      refine after_of_wp (P := (· = _)) ?_
      unfold create
      simp only [wp_bind, wp_get, wp_ite, wp_throw, wp_pure, wp_modify, hnone]
      exact ⟨(fun h => by cases h), fun _ => by rw [hcontrol]⟩
  | some i =>
      have hsome : s.running = some i := hs.running.trans hcontrol
      refine after_of_wp (P := (· = _)) ?_
      unfold create
      simp only [wp_bind, wp_get, wp_ite, wp_throw, wp_pure, wp_modify, hsome]
      exact ⟨fun _ => by rw [hcontrol], fun h => absurd rfl h⟩

/-- Only the main coroutine resumes. -/
theorem after_resume (hs : s.Inv) {co : Nat} (hco : co < s.made) (arg : Option A) (swaps : Bool) :
    after (resume co arg swaps) s = match s.control with
    | some _ => { s with thrown := s.thrown ++
        ["coroutine happen error, only allow call resume in main coroutine"] }
    | none =>
      if s.stat co = .dead then { s with results := s.results ++ [(co, false)] }
      else if swaps then
        { s.change co fun c => { c with arg := arg } with resumed := co }.goOn co
      else (s.change co fun c => { c with arg := arg }).resumeBack co false := by
  have hmain := hs.main (Nat.lt_of_le_of_lt (Nat.zero_le co) hco)
  cases hcontrol : s.control with
  | none =>
      have hnone : s.running = none := hs.running.trans hcontrol
      refine after_of_wp (P := (· = _)) ?_
      unfold resume
      simp only [wp_bind, wp_get, wp_ite, wp_throw, wp_modify, hmain, hnone]
      refine ⟨(fun h => by cases h), fun _ => ⟨(fun h => by cases h), fun _ => ?_⟩⟩
      by_cases hdead : s.stat co = .dead
      · simp only [if_pos hdead, hcontrol]
        exact ⟨fun _ => trivial, fun h => absurd hdead h⟩
      · simp only [if_neg hdead]
        refine ⟨fun h => absurd h hdead, fun _ => ?_⟩
        cases swaps with
        | true => exact ⟨fun _ => rfl, fun h => absurd rfl h⟩
        | false => exact ⟨(fun h => by cases h), fun _ => rfl⟩
  | some i =>
      have hsome : s.running = some i := hs.running.trans hcontrol
      refine after_of_wp (P := (· = _)) ?_
      unfold resume
      simp only [wp_bind, wp_get, wp_ite, wp_throw, wp_modify, hmain, hsome]
      exact ⟨(fun h => by cases h), fun _ =>
        ⟨fun _ => by rw [hcontrol], fun h => absurd rfl h⟩⟩

/-- Only a child yields. -/
theorem after_yield (hs : s.Inv) (swaps : Bool) : (∃ what, s.control = none ∧
      after (yield swaps) s = { s with thrown := s.thrown ++ [what] }) ∨
    ∃ self, s.control = some self ∧ after (yield swaps) s =
      if swaps then
        ((s.setStat self .normal).change self fun c => { c with context := .yield }).resumeBack
          self true
      else
        { (s.setStat self .normal).yieldBack self with
          thrown := s.thrown ++ ["coroutine happen error, dead coroutine"] } := by
  rcases Option.eq_none_or_eq_some s.control with hcontrol | ⟨self, hcontrol⟩
  · refine Or.inl (after_of_wp (P := fun t => ∃ what, s.control = none ∧
      t = { s with thrown := s.thrown ++ [what] }) ?_)
    have hnone : s.running = none := hs.running.trans hcontrol
    unfold yield
    simp only [wp_bind, wp_get, wp_ite, wp_throw, hnone]
    exact ⟨fun _ => ⟨_, hcontrol, rfl⟩, fun _ => ⟨_, hcontrol, rfl⟩⟩
  · refine Or.inr ⟨self, hcontrol, after_of_wp (P := (· = _)) ?_⟩
    have hself : s.running = some self := hs.running.trans hcontrol
    have hmain := hs.main (Nat.lt_of_le_of_lt (Nat.zero_le self) (hs.created self hcontrol))
    have hstat : s.stat self = .running := (hs.only self).mpr hcontrol
    have hresumed : s.resumed = self := hs.resumed self hcontrol
    unfold yield
    simp only [wp_bind, wp_get, wp_ite, wp_throw, wp_modify, hself, hmain, hstat]
    refine ⟨(fun h => by cases h), fun _ => ⟨fun h => absurd rfl h, fun _ =>
      ⟨fun h => ?_, fun h => ?_⟩⟩⟩
    · rw [if_pos h]
      subst hresumed
      rfl
    · rw [if_neg h]
      rfl

/-! ## The switches -/

section Switches

variable (s : Coroutines A) (co : Nat) (ret : Bool)

@[simp] theorem goOn_running : (s.goOn co).running = some co := by
  unfold goOn; split <;> rfl

@[simp] theorem goOn_control : (s.goOn co).control = some co := by
  unfold goOn; split <;> rfl

@[simp] theorem goOn_results : (s.goOn co).results = s.results := by
  unfold goOn; split <;> rfl

@[simp] theorem goOn_made : (s.goOn co).made = s.made := by
  unfold goOn; split <;> rfl

@[simp] theorem goOn_main : (s.goOn co).main = s.main := by
  unfold goOn; split <;> rfl

@[simp] theorem goOn_resumed : (s.goOn co).resumed = s.resumed := by
  unfold goOn; split <;> rfl

/-- The coroutine that is woken is RUNNING, on both ways in. -/
theorem stat_goOn (j : Nat) : (s.goOn co).stat j = if j = co then .running else s.stat j := by
  unfold goOn
  split
  · exact stat_setStat s co j .running
  · exact stat_setStat s co j .running

@[simp] theorem resumeBack_running : (s.resumeBack co ret).running = none := by
  unfold resumeBack; cases ret <;> rfl

@[simp] theorem resumeBack_control : (s.resumeBack co ret).control = none := by
  unfold resumeBack; cases ret <;> rfl

@[simp] theorem resumeBack_results :
    (s.resumeBack co ret).results = s.results ++ [(co, ret)] := by
  unfold resumeBack; cases ret <;> rfl

@[simp] theorem resumeBack_made : (s.resumeBack co ret).made = s.made := by
  unfold resumeBack; cases ret <;> rfl

@[simp] theorem resumeBack_main : (s.resumeBack co ret).main = s.main := by
  unfold resumeBack; cases ret <;> rfl

theorem stat_resumeBack_false (j : Nat) :
    (s.resumeBack co false).stat j = if j = co then .dead else s.stat j :=
  stat_setStat _ co j .dead

end Switches

/-! ## What a switch keeps -/

/-- The main coroutine wakes a child. -/
theorem inv_goOn (hs : s.Inv) (hcontrol : s.control = none) {co : Nat} (hco : co < s.made)
    (arg : Option A) :
    ({ s.change co fun c => { c with arg := arg } with resumed := co }.goOn co).Inv := by
  have hstat := stat_change_of_eq (f := fun c => { c with arg := arg }) (fun _ => rfl) s co
  refine ⟨by rw [goOn_running, goOn_control], fun i => ?_, fun i h => ?_, fun h => ?_,
    fun i h => ?_, fun i h => ?_⟩
  · rw [goOn_control, stat_goOn]
    by_cases hi : i = co
    · rw [if_pos hi, hi]
      exact ⟨fun _ => rfl, fun _ => rfl⟩
    · have hnot := hs.stat_ne_running hcontrol i
      rw [if_neg hi]
      exact ⟨fun h => absurd ((hstat i).symm.trans h) hnot,
        fun h => absurd (Option.some.inj h).symm hi⟩
  · rw [goOn_control] at h
    rw [goOn_resumed]
    exact Option.some.inj h
  · rw [goOn_main]
    rw [goOn_made] at h
    exact hs.main h
  · rw [goOn_control] at h
    rw [goOn_made, ← Option.some.inj h]
    exact hco
  · rw [goOn_made] at h
    have hi : i ≠ co := fun e => absurd hco (Nat.not_lt.mpr (e ▸ h))
    rw [stat_goOn, if_neg hi]
    exact (hstat i).trans (hs.fresh i h)

/-- Control comes back to the main coroutine, with one coroutine in another state. -/
theorem inv_back (hs : s.Inv) {self : Nat} {st : Stat} (hself : self < s.made)
    (hst : st ≠ .running) (hcontrol : s.control = none ∨ s.control = some self)
    (hstat : ∀ j, s'.stat j = if j = self then st else s.stat j) (hmade : s'.made = s.made)
    (hmain : s'.main = s.main) (hrunning : s'.running = none) (hnone : s'.control = none) :
    s'.Inv := by
  have habsent {p : Prop} (i : Nat) (h : s'.control = some i) : p := by
    rw [hnone] at h
    cases h
  refine ⟨hrunning.trans hnone.symm, fun i => ⟨fun h => ?_, habsent i⟩, fun i => habsent i,
    fun h => hmain.trans (hs.main (hmade ▸ h)), fun i => habsent i, fun i h => ?_⟩
  · rw [hstat] at h
    by_cases hi : i = self
    · rw [if_pos hi] at h
      exact absurd h hst
    · rw [if_neg hi] at h
      have hcur := (hs.only i).mp h
      rcases hcontrol with hc | hc
      · rw [hc] at hcur
        cases hcur
      · exact absurd (Option.some.inj (hcur.symm.trans hc)) hi
  · rw [hmade] at h
    have hi : i ≠ self := fun e => absurd hself (Nat.not_lt.mpr (e ▸ h))
    rw [hstat, if_neg hi]
    exact hs.fresh i h

/-! ## What a step can do -/

/-- The cases of a step. -/
inductive Does (s : Coroutines A) : Event A → Coroutines A → Prop where
  | throws {ev : Event A} (what : String) : Goes s ev →
      Does s ev { s with thrown := s.thrown ++ [what] }
  | creates : s.control = none → Does s .create
      { s with
        made := s.made + 1, main := true
        cos := Function.update s.cos s.made ⟨.proc, none, .suspended⟩ }
  | isDead {co : Nat} {arg : Option A} {swaps : Bool} : s.control = none → s.stat co = .dead →
      Does s (.resume co arg swaps) { s with results := s.results ++ [(co, false)] }
  | wakes {co : Nat} {arg : Option A} : s.control = none → co < s.made → s.stat co ≠ .dead →
      Does s (.resume co arg true)
        ({ s.change co fun c => { c with arg := arg } with resumed := co }.goOn co)
  | fails {co : Nat} {arg : Option A} : s.control = none → co < s.made → s.stat co ≠ .dead →
      Does s (.resume co arg false)
        ((s.change co fun c => { c with arg := arg }).resumeBack co false)
  | yields {self : Nat} : s.control = some self → Does s (.yield true)
      (((s.setStat self .normal).change self fun c => { c with context := .yield }).resumeBack
        self true)
  | stays {self : Nat} : s.control = some self → Does s (.yield false)
      { (s.setStat self .normal).yieldBack self with
        thrown := s.thrown ++ ["coroutine happen error, dead coroutine"] }
  | ends {self : Nat} {e : BodyEnd} : s.control = some self → Does s (.ends e) (s.procEnd self)

theorem does_of_step (hs : s.Inv) {ev : Event A} (h : s.step ev = some s') : Does s ev s' := by
  cases ev with
  | create =>
      obtain rfl := Option.some.inj h
      rw [after_create hs]
      rcases Option.eq_none_or_eq_some s.control with hc | ⟨i, hc⟩
      · simp only [hc]
        exact hc ▸ .creates hc
      · simp only [hc]
        exact hc ▸ .throws _ trivial
  | resume co arg swaps =>
      simp only [step] at h
      split at h
      · rename_i hco
        obtain rfl := Option.some.inj h
        rw [after_resume hs hco]
        rcases Option.eq_none_or_eq_some s.control with hc | ⟨i, hc⟩
        · simp only [hc]
          by_cases hdead : s.stat co = .dead
          · rw [if_pos hdead]
            exact hc ▸ .isDead hc hdead
          · rw [if_neg hdead]
            cases swaps with
            | true => exact .wakes hc hco hdead
            | false => exact .fails hc hco hdead
        · have hgoes : Goes s (.resume co arg swaps) :=
            Or.inr (Or.inr (Or.inl (hc ▸ Option.some_ne_none i)))
          simp only [hc]
          exact hc ▸ .throws _ hgoes
      · cases h
  | yield swaps =>
      obtain rfl := Option.some.inj h
      rcases after_yield hs swaps with ⟨what, _, he⟩ | ⟨self, hc, he⟩
      · rw [he]
        exact .throws what trivial
      · rw [he]
        cases swaps with
        | true => exact .yields hc
        | false => exact .stays hc
  | ends e =>
      obtain ⟨self, hc, rfl⟩ := Option.map_eq_some_iff.mp h
      exact .ends hc

/-- `yield` behind its `swapcontext` undoes what it did before. -/
theorem stat_stays (s : Coroutines A) (self j : Nat) :
    ((s.setStat self .normal).yieldBack self).stat j = if j = self then .running else s.stat j := by
  refine (stat_setStat (s.setStat self .normal) self j .running).trans ?_
  rw [stat_setStat]
  by_cases hj : j = self
  · rw [if_pos hj, if_pos hj]
  · rw [if_neg hj, if_neg hj, if_neg hj]

theorem stat_yields (s : Coroutines A) (self j : Nat) :
    (((s.setStat self .normal).change self fun c => { c with context := .yield }).resumeBack
      self true).stat j = if j = self then .normal else s.stat j :=
  (stat_change_of_eq (f := fun c => { c with context := .yield }) (fun _ => rfl)
    (s.setStat self .normal) self j).trans (stat_setStat s self j .normal)

/-- A coroutine that is created has the state that `fresh` speaks of. -/
theorem stat_creates (hs : s.Inv) (i : Nat) : stat { s with
    made := s.made + 1, main := true
    cos := Function.update s.cos s.made ⟨.proc, none, .suspended⟩ } i = s.stat i := by
  unfold stat
  by_cases hi : i = s.made
  · subst hi
    simp only [Function.update_self]
    exact (hs.fresh s.made (Nat.le_refl _)).symm
  · simp only [Function.update_of_ne hi]

theorem stat_wakes (s : Coroutines A) (co : Nat) (arg : Option A) (j : Nat) :
    ({ s.change co fun c => { c with arg := arg } with resumed := co }.goOn co).stat j =
      if j = co then .running else s.stat j := by
  have hstat := stat_change_of_eq (f := fun c => { c with arg := arg }) (fun _ => rfl) s co j
  rw [stat_goOn, ← hstat]
  rfl

theorem stat_fails (s : Coroutines A) (co : Nat) (arg : Option A) (j : Nat) :
    ((s.change co fun c => { c with arg := arg }).resumeBack co false).stat j =
      if j = co then .dead else s.stat j := by
  rw [stat_resumeBack_false, stat_change_of_eq (f := fun c => { c with arg := arg }) fun _ => rfl]

theorem stat_procEnd (s : Coroutines A) (self j : Nat) :
    (s.procEnd self).stat j = if j = self then .dead else s.stat j :=
  stat_setStat s self j .dead

theorem inv_step (hs : s.Inv) {ev : Event A} (h : s.step ev = some s') : s'.Inv := by
  cases does_of_step hs h with
  | throws what _ => exact inv_thrown hs what
  | creates hc =>
      have hstat := stat_creates hs
      exact ⟨hs.running, fun i => hstat i ▸ hs.only i, hs.resumed, fun _ => rfl,
        fun i hi => Nat.lt_succ_of_lt (hs.created i hi),
        fun i hi => (hstat i).trans (hs.fresh i (Nat.le_of_succ_le hi))⟩
  | isDead _ _ => exact ⟨hs.running, hs.only, hs.resumed, hs.main, hs.created, hs.fresh⟩
  | wakes hc hco _ => exact inv_goOn hs hc hco _
  | @fails co arg hc hco _ =>
      exact inv_back hs hco (by decide) (Or.inl hc) (stat_fails s co arg)
        rfl rfl rfl rfl
  | @yields self hc =>
      exact inv_back hs (hs.created self hc) (by decide) (Or.inr hc) (stat_yields s self)
        rfl rfl rfl rfl
  | @stays self hc =>
      have hstat (j : Nat) : ((s.setStat self .normal).yieldBack self).stat j = s.stat j := by
        rw [stat_stays]
        by_cases hj : j = self
        · rw [if_pos hj, hj]
          exact ((hs.only self).mpr hc).symm
        · rw [if_neg hj]
      exact ⟨hc.symm, fun i => hstat i ▸ hs.only i, hs.resumed, hs.main, hs.created,
        fun i hi => (hstat i).trans (hs.fresh i hi)⟩
  | @ends self e hc =>
      exact inv_back hs (hs.created self hc) (by decide) (Or.inr hc) (stat_procEnd s self)
        rfl rfl rfl rfl

/-! ## What `resume` returns -/

/-- A step in which no `resume` returns. -/
theorem alive_of_results_eq (h : s'.results = s.results) (co : Nat) (r : Bool)
    (hr : s'.results = s.results ++ [(co, r)]) : r = true ↔ s'.stat co ≠ .dead := by
  have hlen := congrArg List.length (h.symm.trans hr)
  simp only [List.length_append, List.length_singleton] at hlen
  omega

/-- A step in which one `resume` returns. -/
theorem alive_of_results_append {self : Nat} {ret : Bool}
    (h : s'.results = s.results ++ [(self, ret)]) (hself : ret = true ↔ s'.stat self ≠ .dead)
    (co : Nat) (r : Bool) (hr : s'.results = s.results ++ [(co, r)]) :
    r = true ↔ s'.stat co ≠ .dead := by
  have heq := List.append_cancel_left (h.symm.trans hr)
  obtain ⟨rfl, rfl⟩ := Prod.mk.inj (List.cons.inj heq).1
  exact hself

/-- One coroutine moves. -/
theorem moves_of_ite {self : Nat} {st : Stat}
    (h : ∀ j, s'.stat j = if j = self then st else s.stat j)
    (hself : (s.stat self).moves st = true) (i : Nat) :
    s'.stat i = s.stat i ∨ (s.stat i).moves (s'.stat i) = true := by
  rw [h]
  by_cases hi : i = self
  · subst hi
    rw [if_pos rfl]
    exact Or.inr hself
  · exact Or.inl (if_neg hi)

theorem goes_of_step_none {ev : Event A} (h : s.step ev = none) : Goes s ev := by
  cases ev with
  | create => trivial
  | yield swaps => trivial
  | resume co arg swaps =>
      simp only [step] at h
      split at h
      · cases h
      · rename_i hco
        exact Or.inr (Or.inl (Nat.not_lt.mp hco))
  | ends e => exact Option.map_eq_none_iff.mp h

/-- One step. -/
theorem meets_iff (hs : s.Inv) {ev : Event A} (hpossible : (s.step ev).isSome) :
    Meets s ev ↔ Goes s ev := by
  obtain ⟨s', h⟩ := Option.isSome_iff_exists.mp hpossible
  have hidle : s'.control = none → s'.running = none := (inv_step hs h).running.trans
  have hmeets : Meets s ev ↔ Reports s s' :=
    ⟨fun hm => hm s' h, fun hr t ht => Option.some.inj (h.symm.trans ht) ▸ hr⟩
  rw [hmeets]
  cases does_of_step hs h with
  | throws what hgoes => exact ⟨fun _ => hgoes, fun _ => reports_thrown hs what⟩
  | creates hc =>
      exact ⟨fun _ => trivial, fun _ => ⟨alive_of_results_eq rfl, hidle,
        fun i => Or.inl (stat_creates hs i)⟩⟩
  | isDead hc hdead =>
      refine ⟨fun _ => Or.inr (Or.inr (Or.inr hdead)), fun _ =>
        ⟨alive_of_results_append rfl ⟨(fun h => by cases h), fun h => absurd hdead h⟩, hidle,
          fun _ => Or.inl rfl⟩⟩
  | @wakes co arg hc hco hlive =>
      refine ⟨fun _ => Or.inl rfl, fun _ => ⟨alive_of_results_eq (goOn_results _ _), hidle,
        moves_of_ite (stat_wakes s co arg) ?_⟩⟩
      have hnot := hs.stat_ne_running hc co
      cases hst : s.stat co with
      | suspended => rfl
      | running => exact absurd hst hnot
      | normal => rfl
      | dead => exact absurd hst hlive
  | @fails co arg hc hco hlive =>
      -- The coroutine is DEAD without having been RUNNING.
      have hnot := hs.stat_ne_running hc co
      have hstat := stat_fails s co arg co
      rw [if_pos rfl] at hstat
      constructor
      · intro hr
        rcases hr.moves co with h | h
        · exact absurd (h.symm.trans hstat) hlive
        · rw [hstat] at h
          cases hst : s.stat co with
          | suspended => rw [hst] at h; cases h
          | running => exact absurd hst hnot
          | normal => rw [hst] at h; cases h
          | dead => exact absurd hst hlive
      · rintro (h | h | h | h)
        · cases h
        · exact absurd hco (Nat.not_lt.mpr h)
        · exact absurd hc h
        · exact absurd h hlive
  | @yields self hc =>
      have hself := (hs.only self).mpr hc
      refine ⟨fun _ => trivial, fun _ => ⟨alive_of_results_append
        (by rw [resumeBack_results]; rfl) ⟨fun _ => ?_, fun _ => rfl⟩, hidle,
          moves_of_ite (stat_yields s self) (hself ▸ rfl)⟩⟩
      rw [stat_yields, if_pos rfl]
      decide
  | @stays self hc =>
      refine ⟨fun _ => trivial, fun _ => ⟨alive_of_results_eq rfl, hidle, fun i => Or.inl ?_⟩⟩
      refine (stat_stays s self i).trans ?_
      by_cases hi : i = self
      · rw [if_pos hi, hi]
        exact ((hs.only self).mpr hc).symm
      · exact if_neg hi
  | @ends self e hc =>
      -- `resume` returns `true`, and the coroutine is DEAD.
      refine ⟨fun hr => ?_, fun h => absurd (h.symm.trans hc) (Option.some_ne_none self).symm⟩
      have halive := (hr.alive s.resumed true (by rfl)).mp rfl
      rw [hs.resumed self hc, stat_procEnd, if_pos rfl] at halive
      exact absurd rfl halive

/-- In every run, a step keeps to the documentation of `resume` just where no body ends and no
`swapcontext` of a `resume` fails. -/
theorem alive_iff (evs : List (Event A)) :
    (machine A).AllSteps Meets start evs ↔ (machine A).AllSteps Goes start evs := by
  refine (machine A).allSteps_iff_of_invariant (C := fun _ _ => True) (P := Inv)
    (fun _ _ _ hs _ h => inv_step hs h) (fun s ev hs _ => ?_) evs inv_start
    ((machine A).allSteps_of_forall (fun _ _ => trivial) _)
  rcases Option.eq_none_or_eq_some (s.step ev) with h | ⟨s', h⟩
  · exact iff_of_true (fun t ht => by rw [h] at ht; cases ht) (goes_of_step_none h)
  · exact meets_iff hs (Option.isSome_iff_exists.mpr ⟨s', h⟩)

/-- A coroutine that comes to its end in the `resume` that starts it: `resume` returns `true`. -/
theorem resume_returns_true_of_dead :
    ∃ s, (machine Nat).run start [.create, .resume 0 none true, .ends .returns] = some s ∧
      s.results = [(0, true)] ∧ s.stat 0 = .dead ∧
      ¬ (machine Nat).AllSteps Meets start [.create, .resume 0 none true, .ends .returns] := by
  refine ⟨_, rfl, rfl, rfl, fun h => ?_⟩
  have hends := ((h.2 _ rfl).2 _ rfl).1
  have halive := (hends _ rfl).alive 0 true rfl
  exact absurd rfl (halive.mp rfl)

end Coroutines

end LinSocketIo.Core
