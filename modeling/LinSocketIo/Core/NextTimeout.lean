/-
LinSocketIo.Core.NextTimeout — how long `Countdown::next_timeout` lets the
loop sleep.

`next_timeout` looks at the first node of the first fall that has one, as if
the earliest timer came first. It does while the falls, one behind the other,
are in the order of the time their timers have left. Two kinds of call can
break the order: a timer is armed for less than one in front of its place has
left, or for more than one behind it has (`ArmsInPlace`); and in a click a
timer drops below one that has less time left, because its own fall is scanned
and that of the other is not (`DropsInPlace`).

* `next_timeout_in_order` — in every run without such calls `next_timeout` is at
  most the time left of every registered handler, in every state.
-/
import LinSocketIo.Core.FallQueues
import Mathlib.Data.List.TakeWhile

namespace LinSocketIo.Core

open LinSocketIo.Base

namespace Countdown

variable {H : Type} [DecidableEq H]

/-! ## `next_timeout` -/

/-- The time that a node of fall `idx` has left. -/
def left (cd : Countdown H) (idx : Nat) (x : Timeout H) : Int :=
  toInt (x.count - (cd.fall idx).mElasped)

/-- The time that a handler has left, at least 0, if its iterator points at a node. -/
def timeLeft (cd : Countdown H) (h : H) : Option Int :=
  (cd.deref h).map fun x => max 0 (cd.left x.fallidx x)

/-- `next_timeout` is at most the time left of every registered handler. -/
def WakesInTime (cd : Countdown H) : Prop :=
  ∀ h, cd.mIter h = true → ∃ t, cd.timeLeft h = some t ∧ cd.nextTimeout ≤ t

omit [DecidableEq H] in
/-- What `next_timeout` returns, from the first node of the first fall that has one. -/
theorem nextTimeoutFrom_spec (cd : Countdown H) : ∀ (n idx : Nat),
    ((∀ j, idx ≤ j → j < idx + n → (cd.fall j).mList = []) ∧
        cd.nextTimeoutFrom idx n = 1000 * 1000) ∨
      ∃ k x rest, idx ≤ k ∧ k < idx + n ∧ (∀ j, idx ≤ j → j < k → (cd.fall j).mList = []) ∧
        (cd.fall k).mList = x :: rest ∧ cd.nextTimeoutFrom idx n = max 0 (cd.left k x)
  | 0, idx => Or.inl ⟨fun j h1 h2 => absurd h2 (by omega), rfl⟩
  | n + 1, idx => by
      cases hl : (cd.fall idx).mList with
      | cons x rest =>
          refine Or.inr ⟨idx, x, rest, Nat.le_refl _, by omega,
            fun j h1 h2 => absurd h2 (by omega), hl, ?_⟩
          simp only [nextTimeoutFrom, hl, left]
          split <;> omega
      | nil =>
          have hnext : cd.nextTimeoutFrom idx (n + 1) = cd.nextTimeoutFrom (idx + 1) n := by
            simp only [nextTimeoutFrom, hl]
          have hskip : ∀ {m}, (∀ j, idx + 1 ≤ j → j < m → (cd.fall j).mList = []) →
              ∀ j, idx ≤ j → j < m → (cd.fall j).mList = [] := by
            intro m h j h1 h2
            rcases Nat.eq_or_lt_of_le h1 with rfl | h1
            · exact hl
            · exact h j h1 h2
          rcases nextTimeoutFrom_spec cd n (idx + 1) with
            ⟨hempty, hto⟩ | ⟨k, x, rest, hle, hlt, hempty, hk, hto⟩
          · exact Or.inl ⟨fun j h1 h2 => hskip hempty j h1 (by omega), hnext.trans hto⟩
          · exact Or.inr ⟨k, x, rest, by omega, by omega, hskip hempty, hk, hnext.trans hto⟩

/-! ## The time of a handler -/

/-- The time that a handler of the table has left. -/
def time (tb : TimerTable H) (h : H) : Int := ((tb h).map TimerEntry.remaining).getD 0

/-- A node is the one of its handler's entry. -/
theorem Agrees.node {cd : Countdown H} {tb : TimerTable H} {acc : Int} (ha : cd.Agrees tb acc)
    {j : Nat} {x : Timeout H} (hx : x ∈ (cd.fall j).mList) :
    cd.Sees x.handler (some (j, x.count)) ∧ x.fallidx = j ∧ Placed j x.count ∧
      x.count - (cd.fall j).mElasped = time tb x.handler := by
  have hentry := ha.entry x.handler
  unfold time
  cases htb : tb x.handler with
  | none =>
      rw [htb] at hentry
      have := (Sees.node (v := none) hentry hx).1
      cases this
  | some y =>
      rw [htb] at hentry
      obtain ⟨k, c, hv, hplaced, hrem⟩ := hentry
      obtain ⟨heq, hidx⟩ := hv.node hx
      cases heq
      exact ⟨hv, hidx, hplaced, hrem⟩

theorem Agrees.left {cd : Countdown H} {tb : TimerTable H} {acc : Int} (ha : cd.Agrees tb acc)
    {j : Nat} {x : Timeout H} (hx : x ∈ (cd.fall j).mList) : cd.left j x = time tb x.handler := by
  obtain ⟨hv, -, hplaced, hrem⟩ := ha.node hx
  have hj := hv.2.1
  have h1 := (fallOf_le j hj).1
  have h2 := ha.counters.nonneg j hj
  have h3 := ha.counters.le_max j hj
  have h4 := hplaced.1
  have h5 := hplaced.2.1
  unfold Countdown.left
  rw [toInt_of_range (by omega) (by unfold intMax at *; omega), hrem]

/-- The falls are in the order of the time left. -/
def Ordered (cd : Countdown H) (tb : TimerTable H) : Prop := InOrder cd.queue (time tb)

omit [DecidableEq H] in
theorem mem_queue_of_mem {cd : Countdown H} {j : Nat} {x : Timeout H} (hx : x ∈ (cd.fall j).mList) :
    x.handler ∈ cd.queue j := List.mem_map_of_mem hx

/-- In this order, `next_timeout` looks at the earliest timer. -/
theorem wakesInTime_of_ordered {cd : Countdown H} {tb : TimerTable H} {acc : Int}
    (ha : cd.Agrees tb acc) (ho : cd.Ordered tb) : cd.WakesInTime := by
  intro h hh
  obtain ⟨v, hv⟩ := (ha.entry h).sees
  cases v with
  | none =>
      rw [hv.1] at hh
      cases hh
  | some p =>
      obtain ⟨k, c⟩ := p
      have hs := ha.counters.shape
      have hx : (⟨k, h, c⟩ : Timeout H) ∈ (cd.fall k).mList := by
        have hmem : (⟨k, h, c⟩ : Timeout H) ∈ cd.nodesOf h k := by
          rw [hv.2.2 k, if_pos rfl]
          exact List.mem_singleton_self _
        exact (List.mem_filter.mp hmem).1
      refine ⟨_, by rw [timeLeft, deref_of_sees hs hv]; rfl, ?_⟩
      have hleft : cd.left k ⟨k, h, c⟩ = time tb h := ha.left hx
      show cd.nextTimeout ≤ max 0 (cd.left k ⟨k, h, c⟩)
      rw [hleft]
      have hspec := nextTimeoutFrom_spec cd 13 0
      rw [← show cd.nextTimeout = cd.nextTimeoutFrom 0 13 by rw [nextTimeout, hs.last]] at hspec
      rcases hspec with ⟨hempty, -⟩ | ⟨i, y, rest, -, -, hempty, hi, hto⟩
      · rw [hempty k (Nat.zero_le k) (by have := hv.2.1; omega)] at hx
        cases hx
      · have hy : y ∈ (cd.fall i).mList := by rw [hi]; exact List.mem_cons_self
        have hle : time tb y.handler ≤ time tb h := by
          rcases Nat.lt_trichotomy k i with hlt | rfl | hgt
          · rw [hempty k (Nat.zero_le k) hlt] at hx
            cases hx
          · have hfirst := ho.within k
            rw [queue, hi, List.map_cons] at hfirst
            rw [hi] at hx
            rcases List.mem_cons.mp hx with rfl | hx
            · exact Int.le_refl _
            · exact (List.pairwise_cons.mp hfirst).1 h (List.mem_map_of_mem hx)
          · exact ho.across i k hgt _ (mem_queue_of_mem hy) h (mem_queue_of_mem hx)
        rw [hto, ha.left hy]
        omega

/-! ## Arming -/

/-- A timer is armed for at least what every other timer in front of its place has left, and at
most what every one behind it has. Its place is the one it has in the fall of the timeout, or the
end of that fall. -/
structure ArmsInPlace (cd : Countdown H) (h : H) (t : Int) : Prop where
  below : ∀ j < cd.findFallIdx t npos, ∀ x ∈ (cd.fall j).mList, x.handler ≠ h → cd.left j x ≤ t
  front : ∀ x ∈ (cd.fall (cd.findFallIdx t npos)).mList.takeWhile (·.handler ≠ h),
    cd.left (cd.findFallIdx t npos) x ≤ t
  behind : ∀ x ∈ ((cd.fall (cd.findFallIdx t npos)).mList.dropWhile (·.handler ≠ h)).tail,
    t ≤ cd.left (cd.findFallIdx t npos) x
  above : ∀ j ≤ 12, cd.findFallIdx t npos < j → ∀ x ∈ (cd.fall j).mList, x.handler ≠ h →
    t ≤ cd.left j x

instance (cd : Countdown H) (h : H) (t : Int) : Decidable (cd.ArmsInPlace h t) :=
  decidable_of_iff (_ ∧ _ ∧ _ ∧ _)
    ⟨fun ⟨h1, h2, h3, h4⟩ => ⟨h1, h2, h3, h4⟩, fun ⟨h1, h2, h3, h4⟩ => ⟨h1, h2, h3, h4⟩⟩

/-- A list around the first node of a handler. -/
theorem split_at {h : H} : ∀ {l : List (Timeout H)}, h ∈ l.map (·.handler) →
    ∃ y, y.handler = h ∧
      l = l.takeWhile (·.handler ≠ h) ++ y :: (l.dropWhile (·.handler ≠ h)).tail
  | x :: l, hmem => by
      by_cases hx : x.handler = h
      · exact ⟨x, hx, by simp [hx]⟩
      · obtain ⟨y, hy, hl⟩ := split_at (h := h) (l := l) (by simpa [Ne.symm hx] using hmem)
        refine ⟨y, hy, ?_⟩
        rw [List.takeWhile_cons_of_pos (by simpa using hx),
          List.dropWhile_cons_of_pos (by simpa using hx), List.cons_append, ← hl]

theorem time_select {tb : TimerTable H} {h : H} {t : Int} (ht : 0 ≤ t) :
    time (tb.select h t) = Function.update (time tb) h t := by
  funext a
  by_cases hah : a = h
  · subst hah
    simp [time, TimerTable.select_same, Int.not_lt.mpr ht, TimerEntry.remaining]
  · simp [time, TimerTable.select_other tb t hah, Function.update_of_ne hah]

/-- Cancelling keeps the order. -/
theorem ordered_cancel {cd : Countdown H} {tb : TimerTable H} {acc : Int} (ha : cd.Agrees tb acc)
    (ho : cd.Ordered tb) (h : H) {t : Int} (ht : t < 0) :
    (cd.selectTimeout h t).Ordered (tb.select h t) := by
  obtain ⟨v, hv⟩ := (ha.entry h).sees
  have hq : (cd.selectTimeout h t).queue = fun j => (cd.queue j).filter (· ≠ h) :=
    funext fun j => by rw [queue_selectTimeout ha.counters.shape hv, if_pos ht]
  unfold Ordered
  rw [hq]
  refine (ho.sublist fun j => List.filter_sublist).congr fun j a hmem => ?_
  have hne : a ≠ h := by simpa using (List.mem_filter.mp hmem).2
  rw [time, time, TimerTable.select_other tb t hne]

/-- Arming in place keeps it. -/
theorem ordered_arm {cd : Countdown H} {tb : TimerTable H} {acc : Int} (ha : cd.Agrees tb acc)
    (ho : cd.Ordered tb) {h : H} {t : Int} (ht : 0 ≤ t) (hplace : cd.ArmsInPlace h t) :
    (cd.selectTimeout h t).Ordered (tb.select h t) := by
  obtain ⟨v, hv⟩ := (ha.entry h).sees
  obtain ⟨hbelow, hfront, hbehind, habove⟩ := hplace
  have hq := queue_selectTimeout ha.counters.shape hv t
  simp only [if_neg (Int.not_lt.mpr ht)] at hq
  unfold Ordered
  rw [time_select ht]
  generalize cd.findFallIdx t npos = k at *
  -- past the last fall there is nobody
  have habove' : ∀ j, k < j → ∀ a ∈ cd.queue j, a ≠ h → t ≤ time tb a := by
    intro j hj a hmem hne
    obtain ⟨x, hx, rfl⟩ := List.mem_map.mp hmem
    have hj12 := (ha.node hx).1.2.1
    rw [← ha.left hx]
    exact habove j hj12 hj x hx hne
  have hbelow' : ∀ j < k, ∀ a ∈ cd.queue j, a ≠ h → time tb a ≤ t := by
    intro j hj a hmem hne
    obtain ⟨x, hx, rfl⟩ := List.mem_map.mp hmem
    rw [← ha.left hx]
    exact hbelow j hj x hx hne
  by_cases hin : h ∈ cd.queue k
  · rw [show (cd.selectTimeout h t).queue = cd.queue from
      funext fun j => by rw [hq, if_pos hin]]
    obtain ⟨c, rfl⟩ := (hv.mem_queue_iff k).mp hin
    have honly : ∀ j, j ≠ k → h ∉ cd.queue j := fun j hj hmem => by
      obtain ⟨c', hc'⟩ := (hv.mem_queue_iff j).mp hmem
      cases hc'
      exact hj rfl
    obtain ⟨y, hy, hl⟩ := split_at hin
    have hone := hv.2.2 k
    rw [if_pos rfl, nodesOf, hl, List.filter_append, List.filter_cons_of_pos (by simpa using hy)]
      at hone
    have hnone : ∀ x ∈ (cd.fall k).mList.takeWhile (·.handler ≠ h), x.handler ≠ h := fun x hx => by
      simpa using List.mem_takeWhile_imp hx
    rw [List.filter_eq_nil_iff.mpr fun x hx => by simpa using hnone x hx, List.nil_append,
      List.cons.injEq] at hone
    have hnone' : ∀ x ∈ ((cd.fall k).mList.dropWhile (·.handler ≠ h)).tail, x.handler ≠ h :=
      fun x hx => by simpa using List.filter_eq_nil_iff.mp hone.2 x hx
    have hmem : ∀ {x}, x ∈ (cd.fall k).mList.takeWhile (·.handler ≠ h) ∨
        x ∈ ((cd.fall k).mList.dropWhile (·.handler ≠ h)).tail → x ∈ (cd.fall k).mList := by
      rintro x (hx | hx)
      · exact (List.takeWhile_sublist _).subset hx
      · exact (List.dropWhile_sublist _).subset (List.mem_of_mem_tail hx)
    refine ho.rearm (k := k) (l := ((cd.fall k).mList.takeWhile (·.handler ≠ h)).map (·.handler))
      (m := ((cd.fall k).mList.dropWhile (·.handler ≠ h)).tail.map (·.handler)) ?_ honly ?_ ?_
      (fun j hj a ha' => hbelow' j hj a ha' fun he => honly j (by omega) (he ▸ ha')) ?_ ?_
      (fun j hj a ha' => habove' j hj a ha' fun he => honly j (by omega) (he ▸ ha'))
    · rw [queue]
      conv => lhs; rw [hl]
      rw [List.map_append, List.map_cons, hy]
    · rintro hmem'
      obtain ⟨x, hx, hxh⟩ := List.mem_map.mp hmem'
      exact hnone x hx hxh
    · rintro hmem'
      obtain ⟨x, hx, hxh⟩ := List.mem_map.mp hmem'
      exact hnone' x hx hxh
    · intro a ha'
      obtain ⟨x, hx, rfl⟩ := List.mem_map.mp ha'
      rw [← ha.left (hmem (Or.inl hx))]
      exact hfront x hx
    · intro a ha'
      obtain ⟨x, hx, rfl⟩ := List.mem_map.mp ha'
      rw [← ha.left (hmem (Or.inr hx))]
      exact hbehind x hx
  · rw [show (cd.selectTimeout h t).queue = _ from funext fun j => by rw [hq, if_neg hin]]
    refine ho.arm (fun j hj a hmem hne => ?_) habove'
    rcases Nat.lt_or_eq_of_le hj with hlt | rfl
    · exact hbelow' j hlt a hmem hne
    · obtain ⟨x, hx, rfl⟩ := List.mem_map.mp hmem
      have hall : (cd.fall j).mList.takeWhile (·.handler ≠ h) = (cd.fall j).mList :=
        List.takeWhile_eq_self_iff.mpr fun y hy => by
          have : y.handler ≠ h := fun he => hin (he ▸ mem_queue_of_mem hy)
          simpa using this
      rw [← ha.left hx]
      exact hfront x (by rw [hall]; exact hx)

/-! ## A click -/

/-- In a click of `e` that scans fall `k`, every timer of it fires, does not drop below fall `j`, or
has at most what every timer of fall `j` has left. -/
def Follows (cd : Countdown H) (e : Int) (k j : Nat) : Prop :=
  ∀ x ∈ (cd.fall k).mList, ∀ y ∈ (cd.fall j).mList,
    cd.left k x ≤ e ∨ (cd.fall j).mFall ≤ cd.left k x - e ∨ cd.left k x ≤ cd.left j y

/-- In a click of `e`, no timer drops below one that has less time left: where a fall is scanned
and a lower one is not, its timers follow those of the lower one. -/
def DropsInPlace (cd : Countdown H) (e : Int) : Prop :=
  ∀ k ≤ 12, ∀ j < k, (cd.fall k).mFall ≤ (cd.fall k).mElasped + e →
    (cd.fall j).mElasped + e < (cd.fall j).mFall → cd.Follows e k j

instance (cd : Countdown H) (e : Int) (k j : Nat) : Decidable (cd.Follows e k j) :=
  inferInstanceAs (Decidable (∀ _ ∈ _, ∀ _ ∈ _, _ ∨ _ ∨ _))

instance (cd : Countdown H) (e : Int) : Decidable (cd.DropsInPlace e) :=
  inferInstanceAs (Decidable (∀ k ≤ 12, ∀ j < k, _ → _ → cd.Follows e k j))

/-- In the middle of a click of `e` milliseconds, when the falls below `s` are done: the order is
kept, and a handler in one of those falls has the time of the fall or was in it, unscanned. -/
structure ClickOrder (cd0 : Countdown H) (tb : TimerTable H) (e : Int) (s : Nat)
    (cd : Countdown H) : Prop where
  order : InOrder cd.queue fun h => time tb h - e
  todo : ∀ j, s ≤ j → cd.queue j = cd0.queue j
  done : ∀ j < s, ∀ h ∈ cd.queue j, fallOf j ≤ time tb h - e ∨
    ((cd0.fall j).mElasped + e < fallOf j ∧ h ∈ cd0.queue j)

section

variable {cd0 : Countdown H} {tb : TimerTable H} {acc e : Int} {s : Nat}
  {st : Countdown H × List (Timeout H)}

omit [DecidableEq H] in
theorem queue_clickBottom [DecidableEq H] (hs : cd0.Shape) (j : Nat) :
    cd0.clickBottom.1.queue j = if j = 0 then [] else cd0.queue j := by
  have : cd0.clickBottom.1.queue j = (cd0.setFall 0 { cd0.fall 0 with mList := [] }).queue j := by
    simp only [queue, clickBottom, fall_foldl_setIter]
  rw [this, queue_setFall hs (Nat.zero_le 12)]
  rfl

theorem clickOrder_bottom (ha : cd0.Agrees tb acc) (ho : cd0.Ordered tb) :
    ClickOrder cd0 tb e 1 cd0.clickBottom.1 := by
  have hq := queue_clickBottom ha.counters.shape
  refine ⟨?_, fun j hj => by rw [hq, if_neg (by omega)], fun j hj h hmem => ?_⟩
  · refine ⟨fun j => ?_, fun i j hij a hmem b hmem' => ?_⟩
    · rw [hq]
      split
      · exact List.Pairwise.nil
      · exact (ho.within j).imp fun hle => by omega
    · rw [hq] at hmem hmem'
      split at hmem
      · cases hmem
      · rw [if_neg (by omega)] at hmem'
        have := ho.across i j hij a hmem b hmem'
        omega
  · rw [hq, if_pos (by omega)] at hmem
    cases hmem

/-- The count of a node of fall `s`, less the time that the fall has counted. -/
theorem ClickAt.time (hc : cd0.Counters acc) (he : timeClick ≤ e) (hfit : cd0.ClickFits e)
    (hat : ClickAt cd0 tb e s st) (hs12 : s ≤ 12) {x : Timeout H}
    (hx : x ∈ (st.1.fall s).mList) :
    toInt (x.count - ((cd0.fall s).mElasped + e)) = Countdown.time tb x.handler - e := by
  have hentry := hat.entry x.handler
  unfold Countdown.time
  cases htb : tb x.handler with
  | none =>
      rw [htb] at hentry
      have := (Sees.node (v := none) hentry.1 hx).1
      cases this
  | some y =>
      rw [htb] at hentry
      rcases hentry with ⟨-, hv, -⟩ | ⟨k, c, hv, hplaced, -, -, hrem⟩
      · have := (Sees.node (v := none) hv hx).1
        cases this
      · obtain ⟨heq, -⟩ := hv.node hx
        cases heq
        obtain ⟨h0, hmax⟩ := count_range hc he hfit hs12
        have h1 := (fallOf_le s hs12).1
        have h2 := hplaced.1
        have h3 := hplaced.2.1
        have h4 := hrem (Nat.le_refl s)
        rw [hat.todo s (Nat.le_refl s) hs12] at h4
        unfold intMax at hmax h3
        rw [toInt_of_range (by omega) (by unfold intMax; omega)]
        simp only [Option.map_some, Option.getD_some]
        omega

/-- One pass over a fall keeps the order. -/
theorem clickFall_order (hc : cd0.Counters acc) (he : timeClick ≤ e) (hfit : cd0.ClickFits e)
    (hdrops : ∀ j < s, fallOf s ≤ (cd0.fall s).mElasped + e →
      (cd0.fall j).mElasped + e < fallOf j → ∀ a ∈ cd0.queue s, ∀ b ∈ cd0.queue j,
        Countdown.time tb a ≤ e ∨ fallOf j ≤ Countdown.time tb a - e ∨
          Countdown.time tb a ≤ Countdown.time tb b)
    (hat : ClickAt cd0 tb e s st) (ho : ClickOrder cd0 tb e s st.1) (hs12 : s ≤ 12) :
    ClickOrder cd0 tb e (s + 1) (clickFall e st s).1 := by
  obtain ⟨h0, hmax⟩ := count_range hc he hfit hs12
  have hint : toInt ((st.1.fall s).mElasped + e) = (cd0.fall s).mElasped + e := by
    rw [hat.todo s (Nat.le_refl s) hs12, toInt_of_range (by omega) hmax]
  have hshape1 := shape_setElasped hat.shape s ((cd0.fall s).mElasped + e)
  have hq1 := queue_setElasped hat.shape hs12 ((cd0.fall s).mElasped + e)
  have hel := elasped_setElasped hat.shape hs12 ((cd0.fall s).mElasped + e) s
  rw [if_pos rfl] at hel
  have hbound := hshape1.bound s hs12
  simp only [clickFall, hint, hel, hbound]
  split
  · next hlt =>
      -- the fall is not scanned
      refine ⟨?_, fun j hj => by rw [hq1, ho.todo j (by omega)], fun j hj h hmem => ?_⟩
      · rw [funext hq1]
        exact ho.order
      · rw [hq1] at hmem
        rcases Nat.lt_or_eq_of_le (Nat.le_of_lt_succ hj) with hjs | rfl
        · exact ho.done j hjs h hmem
        · exact Or.inr ⟨hlt, by rwa [ho.todo j (Nat.le_refl j)] at hmem⟩
  · next hge =>
      have htime : ∀ x ∈ ((st.1.setElasped s ((cd0.fall s).mElasped + e)).fall s).mList,
          toInt (x.count - ((st.1.setElasped s ((cd0.fall s).mElasped + e)).fall s).mElasped) =
            Countdown.time tb x.handler - e := by
        intro x hx
        rw [hel]
        refine hat.time hc he hfit hs12 ?_
        rwa [setElasped, fall_setFall, if_pos ⟨rfl, by rw [hat.shape.length]; omega⟩] at hx
      have hscan := queue_scanFall hshape1 hs12 (fun h => Countdown.time tb h - e) htime st.2
      have hshape2 := hshape1.congr
        (gauge_scanFall s (st.1.setElasped s ((cd0.fall s).mElasped + e)) st.2)
      have hspec {a : H} {j : Nat}
          (hd : (st.1.setElasped s ((cd0.fall s).mElasped + e)).dest s
            (fun h => Countdown.time tb h - e) a = some j) := dest_spec hshape1 hs12 hd
      simp only [hq1] at hscan
      generalize (st.1.setElasped s ((cd0.fall s).mElasped + e)).dest s
        (fun h => Countdown.time tb h - e) = dest at hscan hspec
      have hq2 : ∀ j, ((scanFall s (st.1.setElasped s ((cd0.fall s).mElasped + e)) st.2).1.setElasped
          s 0).queue j = (if j = s then [] else st.1.queue j) ++
            (st.1.queue s).filter (dest · = some j) := fun j => by
        rw [queue_setElasped hshape2 hs12, hscan]
      refine ⟨?_, fun j hj => ?_, fun j hj h hmem => ?_⟩
      · rw [funext hq2]
        refine ho.order.drop hs12 (fun a j hd => (hspec hd).2) fun a hmem n hd j hnj hjs b hmem' => ?_
        obtain ⟨hpos, -, -, hhi⟩ := hspec hd
        have hstep := fallOf_step j (by omega) n hnj
        have hlt := hhi (by omega)
        rcases ho.done j hjs b hmem' with hfall | ⟨hidle, hb⟩
        · omega
        · rw [ho.todo s (Nat.le_refl s)] at hmem
          have := hdrops j hjs (by omega) hidle a hmem b hb
          omega
      · have hnone : (st.1.queue s).filter (dest · = some j) = [] :=
          List.filter_eq_nil_iff.mpr fun a _ => by
            simp only [decide_eq_true_eq]
            intro hd
            have := (hspec hd).2.1
            omega
        rw [hq2, if_neg (by omega), hnone, List.append_nil, ho.todo j (by omega)]
      · rw [hq2] at hmem
        rcases List.mem_append.mp hmem with hold | hnew
        · split at hold
          · cases hold
          · exact ho.done j (by omega) h hold
        · have hd : dest h = some j := by simpa using (List.mem_filter.mp hnew).2
          exact Or.inl (hspec hd).2.2.1

/-- The loop over the falls keeps the order. -/
theorem clickFalls_order (hc : cd0.Counters acc) (he : timeClick ≤ e) (hfit : cd0.ClickFits e)
    (hdrops : ∀ k ≤ 12, ∀ j < k, fallOf k ≤ (cd0.fall k).mElasped + e →
      (cd0.fall j).mElasped + e < fallOf j → ∀ a ∈ cd0.queue k, ∀ b ∈ cd0.queue j,
        Countdown.time tb a ≤ e ∨ fallOf j ≤ Countdown.time tb a - e ∨
          Countdown.time tb a ≤ Countdown.time tb b) :
    ∀ (n s : Nat) (st : Countdown H × List (Timeout H)), 0 < s → s + n ≤ 13 →
      ClickAt cd0 tb e s st → ClickOrder cd0 tb e s st.1 →
      ClickOrder cd0 tb e (s + n) ((List.range' s n).foldl (clickFall e) st).1
  | 0, _, _, _, _, _, ho => ho
  | n + 1, s, st, h0, hn, hat, ho => by
      rw [List.range'_succ, List.foldl_cons]
      have := clickFalls_order hc he hfit hdrops n (s + 1) _ (by omega) (by omega)
        (clickFall_at hc he hfit hat h0 (by omega))
        (clickFall_order hc he hfit (hdrops s (by omega)) hat ho (by omega))
      rwa [show s + (n + 1) = s + 1 + n by omega]

end

/-- A click in which timers drop in place keeps the order. -/
theorem ordered_click {cd : Countdown H} {tb : TimerTable H} {acc e : Int} (ha : cd.Agrees tb acc)
    (ho : cd.Ordered tb) (he : timeClick ≤ e) (hfit : cd.ClickFits e) (hdrops : cd.DropsInPlace e) :
    (cd.clickElapse e).1.Ordered (tb.click e) := by
  have hs := ha.counters.shape
  have hdrops' : ∀ k ≤ 12, ∀ j < k, fallOf k ≤ (cd.fall k).mElasped + e →
      (cd.fall j).mElasped + e < fallOf j → ∀ a ∈ cd.queue k, ∀ b ∈ cd.queue j,
        time tb a ≤ e ∨ fallOf j ≤ time tb a - e ∨ time tb a ≤ time tb b := by
    intro k hk j hj hscan hidle a hmem b hmem'
    obtain ⟨x, hx, rfl⟩ := List.mem_map.mp hmem
    obtain ⟨y, hy, rfl⟩ := List.mem_map.mp hmem'
    have := hdrops k hk j hj (by rwa [hs.bound k hk]) (by rwa [hs.bound j (by omega)]) x hx y hy
    rwa [ha.left hx, ha.left hy, hs.bound j (by omega)] at this
  have horder := clickFalls_order ha.counters he hfit hdrops' 12 1 cd.clickBottom (by decide)
    (by decide) (clickBottom_at ha he) (clickOrder_bottom ha ho)
  rw [show (List.range' 1 12).foldl (clickFall e) cd.clickBottom = cd.clickElapse e by
    rw [clickElapse, hs.last]] at horder
  refine horder.order.congr fun j a hmem => ?_
  obtain ⟨x, hx, rfl⟩ := List.mem_map.mp hmem
  have hentry := (clickElapse_agrees ha he hfit).entry x.handler
  cases htb : tb x.handler with
  | none =>
      simp only [TimerTable.click, htb, Option.bind_none] at hentry
      have := (Sees.node (v := none) hentry hx).1
      cases this
  | some y =>
      simp only [time, TimerTable.click, htb, Option.bind_some] at hentry ⊢
      split at hentry
      · have := (Sees.node (v := none) hentry hx).1
        cases this
      · next hdue =>
          rw [if_neg hdue]
          simp only [Option.map_some, Option.getD_some, TimerEntry.remaining_add]

/-! ## Runs -/

/-- The calls that keep the order. -/
def KeepsOrder (w : Wheel H) : TimerOp H → Prop
  | .select h t => t < 0 ∨ w.cd.ArmsInPlace h t
  | .click e => w.cd.DropsInPlace e

instance (w : Wheel H) : DecidablePred (KeepsOrder w)
  | .select _ _ => inferInstanceAs (Decidable (_ ∨ _))
  | .click e => inferInstanceAs (Decidable (w.cd.DropsInPlace e))

/-- A wheel in order. -/
def Sorted (w : Wheel H) : Prop := ∃ tb, w.cd.Agrees tb w.total ∧ w.cd.Ordered tb

theorem sorted_step {w w' : Wheel H} {op : TimerOp H} (hw : Sorted w)
    (hop : Fits w op ∧ KeepsOrder w op) (hstep : wheel.step w op = some w') : Sorted w' := by
  obtain ⟨tb, ha, ho⟩ := hw
  obtain ⟨hfit, hkeeps⟩ := hop
  obtain ⟨tb', rfl, ha'⟩ := wheel_simulates_table w tb op w' ha hfit hstep
  refine ⟨_, ha', ?_⟩
  cases op with
  | select h t =>
      cases hstep
      rcases Int.lt_or_le t 0 with ht | ht
      · exact ordered_cancel ha ho h ht
      · exact ordered_arm ha ho ht (hkeeps.resolve_left (by omega))
  | click e =>
      cases hstep
      exact ordered_click ha ho hfit.1 (ha.counters.clickFits hfit.2) hkeeps

theorem sorted_new : Sorted (wheel.init : Wheel H) := by
  have hq : ∀ j, (new : Countdown H).queue j = [] := fun j => by simp [queue, fall_new, Fall.new]
  refine ⟨_, agrees_new, fun j => ?_, fun i j _ a hmem => ?_⟩
  · rw [show (wheel.init : Wheel H).cd.queue j = [] from hq j]
    exact List.Pairwise.nil
  · rw [show (wheel.init : Wheel H).cd.queue i = [] from hq i] at hmem
    cases hmem

/-- **When the loop does not sleep past a timer**: in every run in which every timer is armed in
place and drops in place, `next_timeout` is at most the time left of every registered handler. -/
theorem next_timeout_in_order {ops : List (TimerOp H)} {w : Wheel H}
    (hops : wheel.AllSteps (fun w op => Fits w op ∧ KeepsOrder w op) wheel.init ops)
    (hrun : wheel.run wheel.init ops = some w) : w.cd.WakesInTime := by
  obtain ⟨tb, ha, ho⟩ := wheel.run_invariant
    (fun _ _ _ hw hop hstep => sorted_step hw hop hstep) ops sorted_new hops hrun
  exact wakesInTime_of_ordered ha ho

/-- Two timers in different falls, one of which drops below the other's place in time, and a third
one that is armed behind them. -/
def inPlace : List (TimerOp Nat) :=
  [.select 1 100, .select 2 30, .click 10, .click 10, .select 3 (-1), .select 3 90]

/-- After 20 ms the loop may sleep the 10 ms that handler 2 has left. -/
theorem next_timeout_in_order_three :
    ∃ w, wheel.run (wheel.init : Wheel Nat) inPlace = some w ∧ w.cd.WakesInTime ∧
      w.cd.nextTimeout = 10 ∧ w.cd.timeLeft 1 = some 80 ∧ w.cd.timeLeft 2 = some 10 ∧
      w.cd.timeLeft 3 = some 90 := by
  obtain ⟨w, hrun, hleft⟩ : ∃ w, wheel.run (wheel.init : Wheel Nat) inPlace = some w ∧
      w.cd.nextTimeout = 10 ∧ w.cd.timeLeft 1 = some 80 ∧ w.cd.timeLeft 2 = some 10 ∧
      w.cd.timeLeft 3 = some 90 :=
    ⟨_, rfl, by decide +kernel, by decide +kernel, by decide +kernel, by decide +kernel⟩
  exact ⟨w, hrun, next_timeout_in_order (by decide +kernel) hrun, hleft⟩

/-- Handler 2 has 20 ms left, behind handler 1 in the same fall: the loop may sleep 39 ms. -/
theorem sleeps_past_second_timer :
    ∃ w, wheel.run (wheel.init : Wheel Nat) [.select 1 39, .select 2 20] = some w ∧
      w.cd.mIter 2 = true ∧ w.cd.timeLeft 2 = some 20 ∧ w.cd.nextTimeout = 39 :=
  ⟨_, rfl, by decide +kernel, by decide +kernel, by decide +kernel⟩

end Countdown

end LinSocketIo.Core
