/-
LinSocketIo.Utils.RcVarTheorems — the counters of `RcVar` are exact.

While an operation is under way, the counter of an object is off by what the
operation has still to do; `Offset` says by how much. `retain` and `release` make
up for it, in whatever order, and `release` deletes an object just where no
variable holds it any more. What is due then are the members of that object,
which nobody else ends.

* `retain_spec`, `release_spec` — what these two do to a state that is off.
* `step_spec` — what a step does.
* `drain_ends` — the destructors that are due come to their end.
* `counts_exact` — the runs in which no object is held too often.
* `count_overflows` — 2^31 variables that hold one object.
-/
import LinSocketIo.Utils.RcVar
import Mathlib.Algebra.BigOperators.Group.Finset.Basic

namespace LinSocketIo.Utils.Rc

open LinSocketIo.Base

/-- The variable that a task ends. -/
def Task.var : Task → Option Nat
  | .varDtor v => some v
  | .objDtor _ => none

/-- What holds whatever the counters are. -/
structure Shape (s : State) : Prop where
  asserts : s.failed = false
  held : ∀ v ∈ s.live, ∀ o, s.ptr v = some o → o ∈ s.alive
  once : s.deleted.Nodup
  apart : ∀ o ∈ s.alive, o ∉ s.deleted
  dead : ∀ o ∈ s.deleted, s.ref o = 0
  mine : ∀ o ∈ s.alive, ∀ v ∈ s.members o, v ∈ s.live ∧ s.owner v = some o
  distinct : ∀ o ∈ s.alive, (s.members o).Nodup
  due : ∀ v, .varDtor v ∈ s.work → v ∈ s.live ∧ ∃ o ∈ s.deleted, s.owner v = some o
  dueOnce : (s.work.filterMap Task.var).Nodup
  bases : ∀ o, .objDtor o ∈ s.work → o ∈ s.deleted

/-- The counters of the live objects, and how far each is off. -/
def Offset (s : State) (d : Nat → Int) : Prop := ∀ o ∈ s.alive, s.ref o = s.holders o + d o

/-- No object is held too often for its counter. -/
def Within (s : State) : Prop := ∀ o ∈ s.alive, (s.holders o : Int) ≤ intMax

/-- What holds between two steps. -/
structure Inv (s : State) : Prop where
  shape : Shape s
  counts : Offset s fun _ => 0
  within : Within s

variable {s : State}

/-! ## Retain and release -/

theorem retain_holders (s : State) (p : Option Nat) (o : Nat) :
    (s.retain p).holders o = s.holders o := by
  cases p <;> rfl

theorem retain_alive (s : State) (p : Option Nat) : (s.retain p).alive = s.alive := by
  cases p <;> rfl

theorem retain_deleted (s : State) (p : Option Nat) :
    (s.retain p).deleted = s.deleted := by
  cases p <;> rfl

/-- The counter of a live object changes. -/
theorem Shape.setRef {o : Nat} (hs : Shape s) (ho : o ∈ s.alive) (n : Int) :
    Shape { s with ref := Function.update s.ref o n } where
  asserts := hs.asserts
  held := hs.held
  once := hs.once
  apart := hs.apart
  dead q hq := by
    have hne : q ≠ o := by
      rintro rfl
      exact hs.apart q ho hq
    exact (Function.update_of_ne hne _ _).trans (hs.dead q hq)
  mine := hs.mine
  distinct := hs.distinct
  due := hs.due
  dueOnce := hs.dueOnce
  bases := hs.bases

theorem held_some_of_ne {o q : Nat} (hne : q ≠ o) : held (some o) q = 0 :=
  held_eq_zero.mpr fun h => hne (Option.some.inj h).symm

theorem retain_spec {p : Option Nat} {d : Nat → Int} (hs : Shape s)
    (hp : ∀ o ∈ p, o ∈ s.alive) (hd : Offset s fun o => d o - held p o)
    (hroom : ∀ o ∈ p, -1 ≤ s.ref o ∧ s.ref o < intMax) :
    Shape (s.retain p) ∧ Offset (s.retain p) d := by
  cases p with
  | none =>
      refine ⟨hs, fun o ho => ?_⟩
      have h := hd o ho
      simp only [held_none] at h
      show s.ref o = s.holders o + d o
      omega
  | some o =>
      have ho := hp o rfl
      obtain ⟨hlo, hhi⟩ := hroom o rfl
      have hnext : toInt (s.ref o + 1) = s.ref o + 1 := toInt_of_range (by omega) (by omega)
      refine ⟨hs.setRef ho _, fun q hq => ?_⟩
      have h := hd q hq
      show Function.update s.ref o (toInt (s.ref o + 1)) q = s.holders q + d q
      by_cases hqo : q = o
      · subst hqo
        rw [Function.update_self, hnext]
        simp only [held_some_self] at h
        omega
      · rw [Function.update_of_ne hqo]
        simp only [held_some_of_ne hqo] at h
        omega

/-- An object that nobody holds is deleted. -/
theorem delete_shape {o : Nat} (hs : Shape s) (ho : o ∈ s.alive) (hzero : s.ref o = 0)
    (hnone : s.holders o = 0) : Shape (s.delete o) where
  asserts := hs.asserts
  held v hv q hq := by
    refine Finset.mem_erase.mpr ⟨?_, hs.held v hv q hq⟩
    rintro rfl
    exact ne_of_holders_eq_zero hnone hv hq
  once := List.nodup_cons.mpr ⟨hs.apart o ho, hs.once⟩
  apart q hq h := by
    obtain ⟨hne, hq⟩ := Finset.mem_erase.mp hq
    rcases List.mem_cons.mp h with h | h
    · exact hne h
    · exact hs.apart q hq h
  dead q hq := by
    rcases List.mem_cons.mp hq with rfl | hq
    · exact hzero
    · exact hs.dead q hq
  mine q hq := hs.mine q (Finset.mem_of_mem_erase hq)
  distinct q hq := hs.distinct q (Finset.mem_of_mem_erase hq)
  due v hv := by
    rcases List.mem_append.mp hv with hv | hv
    · -- a member of the object
      obtain ⟨w, hw, hvw⟩ := List.mem_map.mp hv
      obtain rfl : w = v := by
        injection hvw
      obtain ⟨hlive, howner⟩ := hs.mine o ho w (List.mem_reverse.mp hw)
      exact ⟨hlive, o, List.mem_cons_self, howner⟩
    · rcases List.mem_cons.mp hv with hv | hv
      · exact nomatch hv
      · obtain ⟨hlive, q, hq, howner⟩ := hs.due v hv
        exact ⟨hlive, q, List.mem_cons_of_mem o hq, howner⟩
  dueOnce := by
    have hvars : ((s.members o).reverse.map Task.varDtor).filterMap Task.var =
        (s.members o).reverse := by
      rw [List.filterMap_map]
      exact List.filterMap_some
    show (((s.members o).reverse.map Task.varDtor ++ .objDtor o :: s.work).filterMap
      Task.var).Nodup
    rw [List.filterMap_append, hvars, List.filterMap_cons_none rfl]
    refine List.nodup_append.mpr ⟨List.nodup_reverse.mpr (hs.distinct o ho), hs.dueOnce, ?_⟩
    rintro v hv w hw rfl
    -- A member that is due already has an owner that is gone.
    obtain ⟨t, ht, htv⟩ := List.mem_filterMap.mp hw
    cases t with
    | objDtor q => exact nomatch htv
    | varDtor w =>
        obtain rfl := Option.some.inj htv
        obtain ⟨-, q, hq, howner⟩ := hs.due w ht
        obtain ⟨-, howner'⟩ := hs.mine o ho w (List.mem_reverse.mp hv)
        exact hs.apart o ho (Option.some.inj (howner.symm.trans howner') ▸ hq)
  bases q hq := by
    rcases List.mem_append.mp hq with hq | hq
    · obtain ⟨w, -, hw⟩ := List.mem_map.mp hq
      exact nomatch hw
    · rcases List.mem_cons.mp hq with hq | hq
      · injection hq with hq
        exact hq ▸ List.mem_cons_self
      · exact List.mem_cons_of_mem o (hs.bases q hq)

/-- Letting go makes up for what the counter is too high, and deletes the object just where no
variable holds it. -/
theorem release_spec {p : Option Nat} (hs : Shape s) (hp : ∀ o ∈ p, o ∈ s.alive)
    (hd : Offset s fun o => held p o) (hwithin : Within s) :
    Inv (s.release p) ∧ (∀ o, (s.release p).holders o = s.holders o) ∧
      ∀ o, o ∈ (s.release p).deleted ↔ o ∈ s.deleted ∨ p = some o ∧ s.holders o = 0 := by
  cases p with
  | none =>
      refine ⟨⟨hs, fun o ho => ?_, hwithin⟩, fun _ => rfl, fun o => ?_⟩
      · exact hd o ho
      · exact ⟨Or.inl, fun h => h.resolve_right fun h => nomatch h.1⟩
  | some o =>
      have ho := hp o rfl
      have href := hd o ho
      simp only [held_some_self] at href
      have hmax := hwithin o ho
      have hpos : s.ref o > 0 := by omega
      have hnext : toInt (s.ref o + -1) = s.holders o := by
        rw [toInt_of_range (by omega) (by omega)]
        omega
      have hothers : ∀ q ∈ s.alive, q ≠ o →
          Function.update s.ref o (s.holders o : Int) q = s.holders q := fun q hq hne => by
        have h := hd q hq
        simp only [held_some_of_ne hne] at h
        rw [Function.update_of_ne hne]
        omega
      have hshape : Shape { s with ref := Function.update s.ref o (s.holders o : Int) } :=
        hs.setRef ho _
      simp only [State.release, if_pos hpos, hnext]
      by_cases hheld : (s.holders o : Int) > 0
      · rw [if_pos hheld]
        refine ⟨⟨hshape, fun q hq => ?_, hwithin⟩, fun _ => rfl, fun q => ?_⟩
        · by_cases hqo : q = o
          · subst hqo
            exact (Function.update_self ..).trans (Int.add_zero _).symm
          · exact (hothers q hq hqo).trans (Int.add_zero _).symm
        · refine ⟨Or.inl, fun h => h.resolve_right ?_⟩
          rintro ⟨hq, hzero⟩
          obtain rfl := Option.some.inj hq
          omega
      · rw [if_neg hheld]
        have hzero : s.holders o = 0 := by omega
        refine ⟨⟨delete_shape hshape ho ?_ hzero, fun q hq => ?_, fun q hq => ?_⟩, fun _ => rfl,
          fun q => ?_⟩
        · exact (Function.update_self ..).trans (by rw [hzero]; rfl)
        · obtain ⟨hne, hq⟩ := Finset.mem_erase.mp hq
          exact (hothers q hq hne).trans (Int.add_zero _).symm
        · exact hwithin q (Finset.mem_of_mem_erase hq)
        · show q ∈ o :: s.deleted ↔ _
          rw [List.mem_cons, or_comm]
          refine or_congr Iff.rfl ⟨?_, fun h => (Option.some.inj h.1).symm⟩
          rintro rfl
          exact ⟨rfl, hzero⟩

/-! ## One step -/

/-- What a step leads to. An object is deleted just where one variable held it and none does. -/
structure Effect (s s' : State) : Prop where
  inv : Inv s'
  deletes : ∀ o, o ∈ s'.deleted ↔ o ∈ s.deleted ∨ s.holders o = 1 ∧ s'.holders o = 0

theorem Inv.ref_eq (hi : Inv s) {o : Nat} (ho : o ∈ s.alive) : s.ref o = s.holders o :=
  (hi.counts o ho).trans (Int.add_zero _)

theorem Inv.add_held_le {p : Option Nat} {o : Nat} (hi : Inv s) (ho : o ∈ s.alive)
    (hroom : ∀ o ∈ p, (s.holders o : Int) < intMax) : (s.holders o + held p o : Int) ≤ intMax := by
  by_cases hpo : p = some o
  · have hone := held_eq_one.mpr hpo
    have hlt := hroom o hpo
    omega
  · have hzero := held_eq_zero.mpr hpo
    have hmax := hi.within o ho
    omega

/-- No object is deleted where none loses a variable. -/
theorem Effect.of_le {s' : State} (hinv : Inv s') (hdeleted : s'.deleted = s.deleted)
    (hle : ∀ o, s.holders o ≤ s'.holders o) : Effect s s' := by
  refine ⟨hinv, fun o => ?_⟩
  have h := hle o
  rw [hdeleted]
  exact ⟨Or.inl, fun h' => h'.resolve_right fun h'' => by omega⟩

theorem setPtr_spec {v : Nat} {p : Option Nat} (hi : Inv s) (hv : v ∈ s.live)
    (hp : ∀ o ∈ p, o ∈ s.alive) (hroom : ∀ o ∈ p, (s.holders o : Int) < intMax) :
    Effect s (((s.setPtr v p).retain p).release (s.ptr v)) := by
  have hs := hi.shape
  have hcount (o : Nat) : (s.setPtr v p).holders o + held (s.ptr v) o = s.holders o + held p o :=
    holders_update hv p o
  have hself (o : Nat) (ho : p = some o) : 0 < (s.setPtr v p).holders o :=
    holders_pos (v := v) hv ((Function.update_self ..).trans ho)
  have hset : Shape (s.setPtr v p) :=
    ⟨hs.asserts, fun w hw o ho => by
      by_cases hwv : w = v
      · subst hwv
        have hptr : Function.update s.ptr w p w = some o := ho
        rw [Function.update_self] at hptr
        exact hp o hptr
      · exact hs.held w hw o ((Function.update_of_ne hwv _ _).symm.trans ho),
      hs.once, hs.apart, hs.dead, hs.mine, hs.distinct, hs.due, hs.dueOnce, hs.bases⟩
  have hoff : Offset (s.setPtr v p) fun o => (held (s.ptr v) o : Int) - held p o := fun o ho => by
    have href := hi.ref_eq ho
    have h := hcount o
    show s.ref o = (s.setPtr v p).holders o + ((held (s.ptr v) o : Int) - held p o)
    omega
  obtain ⟨hretain, hoff'⟩ := retain_spec hset hp hoff fun o ho => by
    have href := hi.ref_eq (hp o ho)
    have h := hroom o ho
    show -1 ≤ s.ref o ∧ s.ref o < intMax
    omega
  obtain ⟨hinv, hholders, hdeletes⟩ := release_spec (p := s.ptr v) hretain
    (fun o ho => by
      rw [retain_alive]
      exact hs.held v hv o ho) hoff' fun o ho => by
      rw [retain_alive] at ho
      have hmax := hi.add_held_le ho hroom
      have h := hcount o
      rw [retain_holders]
      omega
  refine ⟨hinv, fun o => (hdeletes o).trans ?_⟩
  rw [retain_deleted, hholders, retain_holders]
  refine or_congr Iff.rfl (and_congr_left fun hzero => ?_)
  have h := hcount o
  have hother := held_eq_zero.mpr fun hpo => absurd hzero (Nat.ne_of_gt (hself o hpo))
  rw [← held_eq_one]
  omega

theorem declare_spec {v : Nat} {p : Option Nat} (hi : Inv s) (hv : v ∉ s.live)
    (hp : ∀ o ∈ p, o ∈ s.alive) (hroom : ∀ o ∈ p, (s.holders o : Int) < intMax) :
    Effect s ((s.declare v p).retain p) := by
  have hs := hi.shape
  have hcount (o : Nat) : (s.declare v p).holders o = s.holders o + held p o :=
    holders_insert hv p o
  have hne {w : Nat} (hw : w ∈ s.live) : w ≠ v := fun h => hv (h ▸ hw)
  have howner {w : Nat} (hw : w ∈ s.live) : (s.declare v p).owner w = s.owner w :=
    Function.update_of_ne (hne hw) _ _
  have hdeclare : Shape (s.declare v p) :=
    ⟨hs.asserts, fun w hw o ho => by
      rcases Finset.mem_insert.mp hw with rfl | hw
      · have hptr : Function.update s.ptr w p w = some o := ho
        rw [Function.update_self] at hptr
        exact hp o hptr
      · exact hs.held w hw o ((Function.update_of_ne (hne hw) _ _).symm.trans ho),
      hs.once, hs.apart, hs.dead, fun o ho w hw => by
        obtain ⟨hlive, hown⟩ := hs.mine o ho w hw
        exact ⟨Finset.mem_insert_of_mem hlive, (howner hlive).trans hown⟩,
      hs.distinct, fun w hw => by
        obtain ⟨hlive, o, ho, hown⟩ := hs.due w hw
        exact ⟨Finset.mem_insert_of_mem hlive, o, ho, (howner hlive).trans hown⟩,
      hs.dueOnce, hs.bases⟩
  have hoff : Offset (s.declare v p) fun o => (0 : Int) - held p o := fun o ho => by
    have href := hi.ref_eq ho
    have h := hcount o
    show s.ref o = (s.declare v p).holders o + ((0 : Int) - held p o)
    omega
  obtain ⟨hretain, hoff'⟩ := retain_spec hdeclare hp hoff fun o ho => by
    have href := hi.ref_eq (hp o ho)
    have h := hroom o ho
    show -1 ≤ s.ref o ∧ s.ref o < intMax
    omega
  refine Effect.of_le ⟨hretain, hoff', fun o ho => ?_⟩ (retain_deleted ..) fun o => ?_
  · rw [retain_alive] at ho
    have hmax := hi.add_held_le ho hroom
    rw [retain_holders, hcount]
    omega
  · rw [retain_holders, hcount]
    exact Nat.le_add_right _ _

theorem varDtor_spec {v : Nat} (hi : Inv s) (hv : v ∈ s.live)
    (hfree : ∀ o ∈ s.alive, v ∉ s.members o) (hnot : .varDtor v ∉ s.work) :
    Effect s (s.varDtor v) := by
  have hs := hi.shape
  have hcount (o : Nat) : s.holders o =
      Base.holders (s.live.erase v) s.ptr o + held (s.ptr v) o := holders_erase hv
  have herase : Shape { s with live := s.live.erase v } :=
    ⟨hs.asserts, fun w hw => hs.held w (Finset.mem_of_mem_erase hw), hs.once, hs.apart, hs.dead,
      fun o ho w hw => by
        obtain ⟨hlive, hown⟩ := hs.mine o ho w hw
        refine ⟨Finset.mem_erase.mpr ⟨?_, hlive⟩, hown⟩
        rintro rfl
        exact hfree o ho hw,
      hs.distinct, fun w hw => by
        obtain ⟨hlive, hown⟩ := hs.due w hw
        refine ⟨Finset.mem_erase.mpr ⟨?_, hlive⟩, hown⟩
        rintro rfl
        exact hnot hw,
      hs.dueOnce, hs.bases⟩
  obtain ⟨hinv, hholders, hdeletes⟩ := release_spec (p := s.ptr v) herase
    (fun o ho => hs.held v hv o ho) (fun o ho => by
      have href := hi.ref_eq ho
      have h := hcount o
      show s.ref o = Base.holders (s.live.erase v) s.ptr o + (held (s.ptr v) o : Int)
      omega) fun o ho => by
      have hmax := hi.within o ho
      have h := hcount o
      show (Base.holders (s.live.erase v) s.ptr o : Int) ≤ intMax
      omega
  refine ⟨hinv, fun o => (hdeletes o).trans ?_⟩
  have h := hcount o
  have hleft : (s.varDtor v).holders o = Base.holders (s.live.erase v) s.ptr o := hholders o
  rw [hleft, ← held_eq_one]
  refine or_congr Iff.rfl (and_congr_left fun hzero => ?_)
  have hzero : Base.holders (s.live.erase v) s.ptr o = 0 := hzero
  omega

theorem newObject_spec {o : Nat} {members : List Nat} (hi : Inv s)
    (hallowed : s.Allowed (.newObject o members)) :
    Effect s (s.exec (.newObject o members)) := by
  obtain ⟨ho, hdeleted, hnodup, hfresh⟩ := hallowed
  have hs := hi.shape
  have hold {v : Nat} (hv : v ∈ s.live) : v ∉ members := fun h => hfresh v h hv
  have hcount (q : Nat) : (s.exec (.newObject o members)).holders q = s.holders q := by
    show Base.holders (s.live ∪ members.toFinset) (fun v => if v ∈ members then none else s.ptr v) q
      = _
    rw [holders_union fun v hv => if_pos (List.mem_toFinset.mp hv)]
    exact holders_congr fun v hv => if_neg (hold hv)
  have hnobody : s.holders o = 0 := by
    by_contra hne
    obtain ⟨v, hv⟩ := Finset.card_pos.mp (Nat.pos_of_ne_zero hne)
    obtain ⟨hlive, hptr⟩ := Finset.mem_filter.mp hv
    exact ho (hs.held v hlive o hptr)
  have hother {q : Nat} (hq : q ∈ s.alive) : q ≠ o := by
    rintro rfl
    exact ho hq
  have href (q : Nat) (hq : q ∈ s.alive) : Function.update s.ref o 0 q = s.ref q :=
    Function.update_of_ne (hother hq) _ _
  have hlist (q : Nat) (hq : q ∈ s.alive) : Function.update s.members o members q = s.members q :=
    Function.update_of_ne (hother hq) _ _
  have hnew : Function.update s.members o members o = members := Function.update_self ..
  refine Effect.of_le ⟨⟨hs.asserts, fun v hv q hq => ?_, hs.once, fun q hq => ?_, fun q hq => ?_,
    fun q hq v hv => ?_, fun q hq => ?_, fun v hv => ?_, ?_, fun q hq => hs.bases q hq⟩,
    fun q hq => ?_, fun q hq => ?_⟩ rfl fun q => Nat.le_of_eq (hcount q).symm
  · have hptr : (if v ∈ members then none else s.ptr v) = some q := hq
    split at hptr
    · exact nomatch hptr
    · rename_i hmem
      rcases Finset.mem_union.mp hv with hv | hv
      · exact Finset.mem_insert_of_mem (hs.held v hv q hptr)
      · exact absurd (List.mem_toFinset.mp hv) hmem
  · rcases Finset.mem_insert.mp hq with rfl | hq
    · exact hdeleted
    · exact hs.apart q hq
  · have hne : q ≠ o := fun h => hdeleted (h ▸ hq)
    exact (Function.update_of_ne hne _ _).trans (hs.dead q hq)
  · show v ∈ s.live ∪ members.toFinset ∧ (if v ∈ members then some o else s.owner v) = some q
    have hv : v ∈ Function.update s.members o members q := hv
    rcases Finset.mem_insert.mp hq with rfl | hq
    · rw [hnew] at hv
      exact ⟨Finset.mem_union_right _ (List.mem_toFinset.mpr hv), if_pos hv⟩
    · rw [hlist q hq] at hv
      obtain ⟨hlive, hown⟩ := hs.mine q hq v hv
      exact ⟨Finset.mem_union_left _ hlive, (if_neg (hold hlive)).trans hown⟩
  · show (Function.update s.members o members q).Nodup
    rcases Finset.mem_insert.mp hq with rfl | hq
    · rw [hnew]
      exact hnodup
    · rw [hlist q hq]
      exact hs.distinct q hq
  · obtain ⟨hlive, q, hq, hown⟩ := hs.due v hv
    exact ⟨Finset.mem_union_left _ hlive, q, hq, (if_neg (hold hlive)).trans hown⟩
  · exact hs.dueOnce
  · rw [hcount]
    show Function.update s.ref o 0 q = s.holders q + (0 : Int)
    rcases Finset.mem_insert.mp hq with rfl | hq
    · rw [Function.update_self, hnobody]
      rfl
    · rw [href q hq]
      exact hi.counts q hq
  · rw [hcount]
    rcases Finset.mem_insert.mp hq with rfl | hq
    · rw [hnobody]
      decide
    · exact hi.within q hq

/-- No object gets more variables than its counter can count. -/
def Room (s : State) : Input → Prop
  | .op (.newVarPtr _ ptr) | .op (.assignPtr _ ptr) =>
    ∀ o ∈ ptr, (s.holders o : Int) < intMax
  | .op (.copy _ var) => ∀ o ∈ s.ptr var, (s.holders o : Int) < intMax
  | .op (.assign v var) =>
    s.ptr var ≠ s.ptr v → ∀ o ∈ s.ptr var, (s.holders o : Int) < intMax
  | _ => True

instance : ∀ (s : State) (i : Input), Decidable (Room s i)
  | s, .op (.newVarPtr _ ptr) | s, .op (.assignPtr _ ptr) =>
    inferInstanceAs (Decidable (∀ o ∈ ptr, (s.holders o : Int) < intMax))
  | s, .op (.copy _ var) =>
    inferInstanceAs (Decidable (∀ o ∈ s.ptr var, (s.holders o : Int) < intMax))
  | s, .op (.assign v var) => inferInstanceAs (Decidable
      (s.ptr var ≠ s.ptr v → ∀ o ∈ s.ptr var, (s.holders o : Int) < intMax))
  | _, .op (.newObject ..) | _, .op (.newVar _) | _, .op (.destroy _) | _, .proceed =>
    isTrue trivial

theorem step_op {op : Op} (hfailed : s.failed = false) (hallowed : s.Allowed op) :
    machine.step s (.op op) = some (s.exec op) :=
  if_pos ⟨hfailed, hallowed⟩

theorem step_varDtor {v : Nat} {work : List Task} (hfailed : s.failed = false)
    (hwork : s.work = .varDtor v :: work) :
    machine.step s .proceed = some ({ s with work }.varDtor v) := by
  show s.step .proceed = _
  simp only [State.step, hfailed, hwork, Bool.false_eq_true, if_false]

theorem step_objDtor {o : Nat} {work : List Task} (hfailed : s.failed = false)
    (hwork : s.work = .objDtor o :: work) :
    machine.step s .proceed = some ({ s with work }.objDtor o) := by
  show s.step .proceed = _
  simp only [State.step, hfailed, hwork, Bool.false_eq_true, if_false]

theorem exec_spec {op : Op} (hi : Inv s) (hallowed : s.Allowed op) (hroom : Room s (.op op)) :
    Effect s (s.exec op) := by
  have hs := hi.shape
  cases op with
  | newObject o members => exact newObject_spec hi hallowed
  | newVar v =>
      exact declare_spec (p := none) hi hallowed (fun _ ho => nomatch ho) (fun _ ho => nomatch ho)
  | newVarPtr v ptr => exact declare_spec hi hallowed.1 hallowed.2 hroom
  | copy v var => exact declare_spec hi hallowed.1 (hs.held var hallowed.2) hroom
  | assign v var =>
      by_cases hne : s.ptr var ≠ s.ptr v
      · have h := setPtr_spec hi hallowed.1 (hs.held var hallowed.2) (hroom hne)
        simp only [State.exec, if_pos hne]
        exact h
      · simp only [State.exec, if_neg hne]
        exact Effect.of_le hi rfl fun _ => Nat.le_refl _
  | assignPtr v ptr => exact setPtr_spec hi hallowed.1 hallowed.2 hroom
  | destroy v =>
      obtain ⟨hv, howner⟩ := hallowed
      refine varDtor_spec hi hv (fun o ho hmem => ?_) fun hdue => ?_
      · have hown := (hs.mine o ho v hmem).2
        rw [howner] at hown
        exact nomatch hown
      · obtain ⟨-, o, -, hown⟩ := hs.due v hdue
        rw [howner] at hown
        exact nomatch hown

/-- The next destructor is taken off. -/
theorem pop_inv {t : Task} {work : List Task} (hi : Inv s) (hwork : s.work = t :: work) :
    Inv { s with work } := by
  have hs := hi.shape
  have hsub {t' : Task} (h : t' ∈ work) : t' ∈ s.work := hwork ▸ List.mem_cons_of_mem t h
  refine ⟨⟨hs.asserts, hs.held, hs.once, hs.apart, hs.dead, hs.mine, hs.distinct,
    fun v hv => hs.due v (hsub hv), ?_, fun o ho => hs.bases o (hsub ho)⟩, hi.counts, hi.within⟩
  have honce := hs.dueOnce
  rw [hwork] at honce
  exact honce.sublist ((List.sublist_cons_self t work).filterMap _)

/-- The destructor of a member: nobody else ends the member. -/
theorem varDtor_due {v : Nat} {work : List Task} (hi : Inv s)
    (hwork : s.work = .varDtor v :: work) : Effect s ({ s with work }.varDtor v) := by
  have hs := hi.shape
  obtain ⟨hlive, o, ho, howner⟩ := hs.due v (hwork ▸ List.mem_cons_self)
  have honce : (v :: work.filterMap Task.var).Nodup := by
    have h := hs.dueOnce
    rw [hwork] at h
    exact h
  have hnot : .varDtor v ∉ work := fun hv =>
    (List.nodup_cons.mp honce).1 (List.mem_filterMap.mpr ⟨_, hv, rfl⟩)
  have hfree : ∀ q ∈ s.alive, v ∉ s.members q := fun q hq hv => by
    have hown := (hs.mine q hq v hv).2
    exact hs.apart q hq (Option.some.inj (howner.symm.trans hown) ▸ ho)
  have h := varDtor_spec (s := { s with work }) (pop_inv hi hwork) hlive hfree hnot
  exact ⟨h.inv, h.deletes⟩

/-- The destructor of the base: its assertion holds. -/
theorem objDtor_due {o : Nat} {work : List Task} (hi : Inv s)
    (hwork : s.work = .objDtor o :: work) : Effect s ({ s with work }.objDtor o) := by
  have hzero : s.ref o = 0 := hi.shape.dead o (hi.shape.bases o (hwork ▸ List.mem_cons_self))
  have hsame : State.objDtor { s with work } o = { s with work } := if_pos hzero
  rw [hsame]
  exact Effect.of_le (pop_inv hi hwork) rfl fun _ => Nat.le_refl _

/-- The steps. -/
theorem step_cases {i : Input} {s' : State} (h : machine.step s i = some s') :
    (∃ op, i = .op op ∧ s.Allowed op ∧ s' = s.exec op) ∨
      (∃ v work, i = .proceed ∧ s.work = .varDtor v :: work ∧
        s' = { s with work }.varDtor v) ∨
      ∃ o work, i = .proceed ∧ s.work = .objDtor o :: work ∧
        s' = { s with work }.objDtor o := by
  have h : s.step i = some s' := h
  unfold State.step at h
  cases i with
  | op op =>
      simp only at h
      split at h
      · rename_i hcond
        exact Or.inl ⟨op, rfl, hcond.2, (Option.some.inj h).symm⟩
      · exact nomatch h
  | proceed =>
      simp only at h
      split at h
      · exact nomatch h
      · split at h
        · exact nomatch h
        · rename_i v work hwork
          exact Or.inr (Or.inl ⟨v, work, rfl, hwork, (Option.some.inj h).symm⟩)
        · rename_i o work hwork
          exact Or.inr (Or.inr ⟨o, work, rfl, hwork, (Option.some.inj h).symm⟩)

theorem step_spec {i : Input} {s' : State} (hi : Inv s) (hroom : Room s i)
    (hstep : machine.step s i = some s') : Effect s s' := by
  obtain ⟨op, rfl, hallowed, rfl⟩ | ⟨v, work, rfl, hwork, rfl⟩ | ⟨o, work, rfl, hwork, rfl⟩ :=
    step_cases hstep
  · exact exec_spec hi hallowed hroom
  · exact varDtor_due hi hwork
  · exact objDtor_due hi hwork

/-! ## The destructors end -/

/-- The destructors that are due, and those of the objects and members still alive. -/
def size (s : State) : Nat := s.work.length + ∑ o ∈ s.alive, ((s.members o).length + 1)

/-- A deleted object's destructors become due. -/
theorem delete_size {o : Nat} (ho : o ∈ s.alive) : size (s.delete o) = size s := by
  have hsum := Finset.add_sum_erase s.alive (fun o => (s.members o).length + 1) ho
  have hwork : (s.delete o).work.length = (s.members o).length + (s.work.length + 1) := by
    show ((s.members o).reverse.map Task.varDtor ++ .objDtor o :: s.work).length = _
    rw [List.length_append, List.length_map, List.length_reverse, List.length_cons]
  show (s.delete o).work.length + ∑ o ∈ s.alive.erase o, ((s.members o).length + 1) = size s
  unfold size
  omega

theorem release_size {p : Option Nat} (hp : ∀ o ∈ p, o ∈ s.alive) :
    size (s.release p) = size s := by
  cases p with
  | none => rfl
  | some o =>
      unfold State.release
      simp only
      split
      · split
        · rfl
        · exact delete_size (s := { s with ref := _ }) (hp o rfl)
      · rfl

/-- A due destructor runs. -/
theorem proceed_spec {t : Task} {work : List Task} (hi : Inv s) (hwork : s.work = t :: work) :
    ∃ s', machine.step s .proceed = some s' ∧ Inv s' ∧ size s' + 1 = size s := by
  have hpop : size { s with work } + 1 = size s := by
    show work.length + ∑ o ∈ s.alive, ((s.members o).length + 1) + 1 = size s
    unfold size
    rw [hwork, List.length_cons]
    omega
  cases t with
  | varDtor v =>
      have hlive := (hi.shape.due v (hwork ▸ List.mem_cons_self)).1
      refine ⟨_, step_varDtor hi.shape.asserts hwork, (varDtor_due hi hwork).inv, ?_⟩
      rw [← hpop]
      exact congrArg (· + 1) (release_size (s := { s with work, live := s.live.erase v })
        fun o ho => hi.shape.held v hlive o ho)
  | objDtor o =>
      refine ⟨_, step_objDtor hi.shape.asserts hwork, (objDtor_due hi hwork).inv, ?_⟩
      rw [← hpop]
      unfold State.objDtor
      split <;> rfl

theorem drain_ends (hi : Inv s) :
    ∃ n t, machine.run s (List.replicate n .proceed) = some t ∧ t.work = [] := by
  induction hn : size s using Nat.strongRecOn generalizing s with
  | ind n ih =>
      cases hwork : s.work with
      | nil => exact ⟨0, s, rfl, hwork⟩
      | cons t work =>
          obtain ⟨s', hstep, hinv, hsize⟩ := proceed_spec hi hwork
          obtain ⟨k, t, hrun, ht⟩ := ih (size s') (by omega) hinv rfl
          exact ⟨k + 1, t, machine.run_cons_some.mpr ⟨s', hstep, hrun⟩, ht⟩

/-! ## Runs -/

theorem inv_init : Inv State.init where
  shape :=
    { asserts := rfl
      held := fun _ hv => absurd hv (Finset.notMem_empty _)
      once := List.nodup_nil
      apart := fun _ ho => absurd ho (Finset.notMem_empty _)
      dead := fun _ _ => rfl
      mine := fun _ ho => absurd ho (Finset.notMem_empty _)
      distinct := fun _ _ => List.nodup_nil
      due := fun _ hv => absurd hv List.not_mem_nil
      dueOnce := List.nodup_nil
      bases := fun _ ho => absurd ho List.not_mem_nil }
  counts _ ho := absurd ho (Finset.notMem_empty _)
  within _ ho := absurd ho (Finset.notMem_empty _)

/-- Every assertion holds, the counters are the numbers of holders, no variable holds a deleted
object, and none is deleted twice. -/
structure Exact (s : State) : Prop where
  asserts : s.failed = false
  counts : ∀ o ∈ s.alive, s.ref o = s.holders o
  holds : ∀ v ∈ s.live, ∀ o, s.ptr v = some o → o ∈ s.alive ∧ o ∉ s.deleted
  once : s.deleted.Nodup

theorem Inv.exact (hi : Inv s) : Exact s where
  asserts := hi.shape.asserts
  counts _ ho := hi.ref_eq ho
  holds v hv o hptr :=
    have ho := hi.shape.held v hv o hptr
    ⟨ho, hi.shape.apart o ho⟩
  once := hi.shape.once

/-- The counters are exact after every run, an object is deleted just where the number of
variables that hold it drops from one to zero, and every deletion comes to its end. -/
theorem counts_exact (is : List Input) (hroom : machine.AllSteps Room machine.init is)
    (hrun : machine.run machine.init is = some s) :
    Exact s ∧
      (∀ i s', Room s i → machine.step s i = some s' →
        ∀ o, o ∈ s'.deleted ↔ o ∈ s.deleted ∨ s.holders o = 1 ∧ s'.holders o = 0) ∧
      ∃ n t, machine.run s (List.replicate n .proceed) = some t ∧ t.work = [] := by
  have hi : Inv s := machine.run_invariant
    (fun _ _ _ hi hr hstep => (step_spec hi hr hstep).inv) is inv_init hroom hrun
  exact ⟨hi.exact, fun _ _ hr hstep => (step_spec hi hr hstep).deletes, drain_ends hi⟩

/-- Two objects, the first of which holds the second; the first one's last variable ends. -/
theorem counts_exact_chain : ∃ s,
    machine.run machine.init [.op (.newObject 0 [7]), .op (.newObject 1 []),
      .op (.newVarPtr 2 (some 0)), .op (.assignPtr 7 (some 1)), .op (.assignPtr 2 (some 0)),
      .op (.copy 3 2), .op (.assign 3 3), .op (.destroy 2), .op (.destroy 3), .proceed,
      .proceed] = some s ∧ s.deleted = [1, 0] ∧ Exact s := by
  obtain ⟨s, hrun, hdeleted⟩ := Option.map_eq_some_iff.mp (show
    (machine.run machine.init [.op (.newObject 0 [7]), .op (.newObject 1 []),
      .op (.newVarPtr 2 (some 0)), .op (.assignPtr 7 (some 1)), .op (.assignPtr 2 (some 0)),
      .op (.copy 3 2), .op (.assign 3 3), .op (.destroy 2), .op (.destroy 3), .proceed,
      .proceed]).map State.deleted = some [1, 0] by decide +kernel)
  exact ⟨s, hrun, hdeleted, (counts_exact _ (by decide +kernel) hrun).1⟩

/-- `n` variables are constructed from a pointer to one object. -/
def holding (n : Nat) : List Input :=
  .op (.newObject 0 []) :: (List.range n).map fun v => .op (.newVarPtr v (some 0))

theorem holding_run (n : Nat) : ∃ s, machine.run machine.init (holding n) = some s ∧
    s.failed = false ∧ 0 ∈ s.alive ∧ s.live = Finset.range n ∧ (∀ v < n, s.ptr v = some 0) ∧
      s.ref 0 = toInt n := by
  induction n with
  | zero =>
      have hallowed : State.init.Allowed (.newObject 0 []) := by decide
      exact ⟨_, machine.run_cons_some.mpr ⟨_, step_op rfl hallowed, rfl⟩, rfl,
        Finset.mem_insert_self _ _, rfl, fun v hv => absurd hv (Nat.not_lt_zero v),
        by decide +kernel⟩
  | succ n ih =>
      obtain ⟨s, hrun, hfailed, halive, hlive, hptr, href⟩ := ih
      have hinputs : holding (n + 1) = holding n ++ [.op (.newVarPtr n (some 0))] := by
        unfold holding
        rw [List.range_succ, List.map_append]
        rfl
      have hallowed : s.Allowed (.newVarPtr n (some 0)) := by
        refine ⟨by simp [hlive], fun o ho => ?_⟩
        obtain rfl := Option.some.inj ho
        exact halive
      rw [hinputs]
      refine ⟨_, machine.run_concat hrun (step_op hfailed hallowed), hfailed, halive, ?_,
        fun v hv => ?_, ?_⟩
      · show insert n s.live = _
        rw [hlive, Finset.range_add_one]
      · show Function.update s.ptr n (some 0) v = some 0
        rcases Nat.lt_succ_iff_lt_or_eq.mp hv with hv | rfl
        · rw [Function.update_of_ne (Nat.ne_of_lt hv)]
          exact hptr v hv
        · exact Function.update_self ..
      · show Function.update s.ref 0 (toInt (s.ref 0 + 1)) 0 = _
        rw [Function.update_self, href, toInt_toInt_add]
        rfl

/-- The counter of an object that 2^31 variables hold is negative. -/
theorem count_overflows : ∃ s, machine.run machine.init (holding (2 ^ 31)) = some s ∧ 0 ∈ s.alive ∧
    s.holders 0 = 2 ^ 31 ∧ s.ref 0 = -(2 ^ 31) := by
  obtain ⟨s, hrun, -, halive, hlive, hptr, href⟩ := holding_run (2 ^ 31)
  refine ⟨s, hrun, halive, ?_, href.trans (by decide +kernel)⟩
  show (s.live.filter fun v => s.ptr v = some 0).card = 2 ^ 31
  rw [hlive, Finset.filter_true_of_mem fun v hv => hptr v (Finset.mem_range.mp hv),
    Finset.card_range]

end LinSocketIo.Utils.Rc
