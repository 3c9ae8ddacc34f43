/-
LinSocketIo.Core.CountdownTheorems — the timer wheel refines the flat
timer table.
-/
import LinSocketIo.Base.Machine
import LinSocketIo.Core.Countdown
import LinSocketIo.Core.TimerTable
import Mathlib.Algebra.Group.Int.Defs
import Mathlib.Tactic.Common
import Mathlib.Data.List.Nodup

namespace LinSocketIo.Core

open LinSocketIo.Base

namespace Countdown

variable {H : Type}

/-! ## Reading a written wheel -/

theorem fall_setFall (cd : Countdown H) (i j : Nat) (f : Fall H) :
    (cd.setFall i f).fall j
      = if i = j ∧ i < cd.mFalls.length then f else cd.fall j := by
  unfold fall setFall
  by_cases hi : i < cd.mFalls.length
  · by_cases hij : i = j
    · subst hij; simp [hi, List.getD_eq_getElem?_getD]
    · simp [hij, List.getD_eq_getElem?_getD, List.getElem?_set_ne hij]
  · simp [hi, List.set_eq_of_length_le (Nat.le_of_not_lt hi)]

@[simp] theorem mIter_setFall (cd : Countdown H) (i : Nat) (f : Fall H) :
    (cd.setFall i f).mIter = cd.mIter := rfl

@[simp] theorem mIter_pushBack (cd : Countdown H) (i : Nat) (x : Timeout H) :
    (cd.pushBack i x).mIter = cd.mIter := rfl

/-- The part of a wheel that the scan of a fall leaves alone: the counters,
the bounds of the falls and their number. -/
def gauge (cd : Countdown H) : (Nat → Int × Int) × Nat × Nat :=
  (fun j => ((cd.fall j).mElasped, (cd.fall j).mFall), cd.mFalls.length, cd.mFallsLastIdx)

theorem gauge_fall {cd cd' : Countdown H} (h : cd'.gauge = cd.gauge) (j : Nat) :
    (cd'.fall j).mElasped = (cd.fall j).mElasped ∧ (cd'.fall j).mFall = (cd.fall j).mFall := by
  have := congrFun (congrArg Prod.fst h) j
  simpa [gauge] using this

theorem gauge_setList (cd : Countdown H) (i : Nat) (l : List (Timeout H)) :
    (cd.setFall i { cd.fall i with mList := l }).gauge = cd.gauge := by
  unfold gauge
  refine Prod.ext (funext fun j => ?_) (by simp [setFall])
  simp only [fall_setFall]
  split
  · next h => simp [h.1]
  · rfl

@[simp] theorem gauge_pushBack (cd : Countdown H) (i : Nat) (x : Timeout H) :
    (cd.pushBack i x).gauge = cd.gauge := gauge_setList ..

/-! ## The bounds of the falls -/

/-- The bound of fall `i`: nothing for the bottom, then five milliseconds and
twice the fall below. -/
def fallOf : Nat → Int
  | 0 => 0
  | n + 1 => timeClick * 2 ^ n

theorem fallOf_le : ∀ i ≤ 12, 0 ≤ fallOf i ∧ fallOf i ≤ 10240 := by decide

theorem fallOf_pos : ∀ i ≤ 12, 0 < i → 5 ≤ fallOf i := by decide

/-- The vector the constructor builds, whatever the lists and counters. -/
structure Shape (cd : Countdown H) : Prop where
  length : cd.mFalls.length = 13
  last : cd.mFallsLastIdx = 12
  bound : ∀ i ≤ 12, (cd.fall i).mFall = fallOf i

theorem Shape.congr {cd cd' : Countdown H} (hs : cd.Shape) (h : cd'.gauge = cd.gauge) :
    cd'.Shape where
  length := by have := congrArg (·.2.1) h; simpa [gauge, hs.length] using this
  last := by have := congrArg (·.2.2) h; simpa [gauge, hs.last] using this
  bound i hi := by rw [(gauge_fall h i).2, hs.bound i hi]

theorem findFallFrom_spec {cd : Countdown H} (hs : cd.Shape) {t : Int} (ht : 0 ≤ t) :
    ∀ i ≤ 12, cd.findFallFrom t i ≤ i ∧ fallOf (cd.findFallFrom t i) ≤ t ∧
      (cd.findFallFrom t i < i → t < fallOf (cd.findFallFrom t i + 1))
  | 0, _ => by simp [findFallFrom, fallOf, ht]
  | i + 1, hi => by
      simp only [findFallFrom, hs.bound (i + 1) hi]
      split
      · next hge => exact ⟨Nat.le_refl _, hge, fun h => absurd h (Nat.lt_irrefl _)⟩
      · next hlt =>
          obtain ⟨h1, h2, h3⟩ := findFallFrom_spec hs ht i (by omega)
          refine ⟨by omega, h2, fun _ => ?_⟩
          rcases Nat.lt_or_ge (cd.findFallFrom t i) i with h | h
          · exact h3 h
          · have heq : cd.findFallFrom t i = i := by omega
            rw [heq]; omega

/-- `find_fall_idx` finds the highest fall that is not above `rbegin` and
whose bound the timeout reaches. -/
theorem findFallIdx_spec {cd : Countdown H} (hs : cd.Shape) {t : Int} (ht : 0 ≤ t) (r : Nat) :
    cd.findFallIdx t r ≤ min 12 r ∧ fallOf (cd.findFallIdx t r) ≤ t ∧
      (cd.findFallIdx t r < min 12 r → t < fallOf (cd.findFallIdx t r + 1)) := by
  have hmin : (if cd.mFallsLastIdx < r then cd.mFallsLastIdx else r) = min 12 r := by
    rw [hs.last]; split <;> omega
  simp only [findFallIdx, hmin]
  exact findFallFrom_spec hs ht _ (by omega)

/-! ## What a handler sees of the wheel -/

variable [DecidableEq H]

/-- The nodes of `h` in fall `j`. -/
def nodesOf (cd : Countdown H) (h : H) (j : Nat) : List (Timeout H) :=
  (cd.fall j).mList.filter (·.handler = h)

/-- What `h` sees: either it is not registered and no list holds a node of it,
or it is registered and has one node, in one list, with its own index. -/
def Sees (cd : Countdown H) (h : H) : Option (Nat × Int) → Prop
  | none => cd.mIter h = false ∧ ∀ j, cd.nodesOf h j = []
  | some (k, c) => cd.mIter h = true ∧ k ≤ 12 ∧
      ∀ j, cd.nodesOf h j = if j = k then [⟨k, h, c⟩] else []

/-- What `h` sees depends on its iterator and its nodes only. -/
theorem Sees.congr {cd cd' : Countdown H} {h : H} {v : Option (Nat × Int)}
    (hv : cd.Sees h v) (hi : cd'.mIter h = cd.mIter h)
    (hn : ∀ j, cd'.nodesOf h j = cd.nodesOf h j) : cd'.Sees h v := by
  cases v with
  | none => exact ⟨by rw [hi, hv.1], fun j => by rw [hn, hv.2 j]⟩
  | some p => exact ⟨by rw [hi, hv.1], hv.2.1, fun j => by rw [hn, hv.2.2 j]⟩

@[simp] theorem fall_setIter (cd : Countdown H) (h : H) (b : Bool) (j : Nat) :
    (cd.setIter h b).fall j = cd.fall j := rfl

@[simp] theorem nodesOf_setIter (cd : Countdown H) (h h' : H) (b : Bool) (j : Nat) :
    (cd.setIter h b).nodesOf h' j = cd.nodesOf h' j := rfl

@[simp] theorem gauge_setIter (cd : Countdown H) (h : H) (b : Bool) :
    (cd.setIter h b).gauge = cd.gauge := rfl

theorem mIter_setIter (cd : Countdown H) (h h' : H) (b : Bool) :
    (cd.setIter h b).mIter h' = if h' = h then b else cd.mIter h' := by
  simp [setIter, Function.update_apply]

theorem nodesOf_setFall {cd : Countdown H} (hs : cd.Shape) (h : H) {i : Nat} (hi : i ≤ 12)
    (f : Fall H) (j : Nat) :
    (cd.setFall i f).nodesOf h j
      = if j = i then f.mList.filter (·.handler = h) else cd.nodesOf h j := by
  unfold nodesOf
  rw [fall_setFall, hs.length]
  by_cases hij : i = j
  · subst hij; simp [show i < 13 by omega]
  · simp [hij, Ne.symm hij]

theorem nodesOf_pushBack {cd : Countdown H} (hs : cd.Shape) (h : H) {i : Nat} (hi : i ≤ 12)
    (x : Timeout H) (j : Nat) :
    (cd.pushBack i x).nodesOf h j
      = cd.nodesOf h j ++ if j = i ∧ x.handler = h then [x] else [] := by
  unfold pushBack
  rw [nodesOf_setFall hs h hi]
  by_cases hj : j = i
  · subst hj
    by_cases hx : x.handler = h <;> simp [nodesOf, List.filter_append, hx]
  · simp [hj]

theorem nodesOf_pushBack_other {cd : Countdown H} (hs : cd.Shape) {h h' : H} (hne : h' ≠ h)
    {i k : Nat} {c : Int} (hi : i ≤ 12) :
    (cd.pushBack i ⟨k, h', c⟩).nodesOf h = cd.nodesOf h := by
  funext j
  simp [nodesOf_pushBack hs h hi, hne]

/-! ## One fall is scanned -/

/-- What `h` sees of a scan: its iterator, its nodes in the falls, in the part
of the list already passed, and in the result. -/
def Scan.view (h : H) (st : Scan H) :
    Bool × (Nat → List (Timeout H)) × List (Timeout H) × List (Timeout H) :=
  (st.cd.mIter h, st.cd.nodesOf h, st.kept.filter (·.handler = h),
    st.result.filter (·.handler = h))

@[simp] theorem gauge_scanNode (idx : Nat) (st : Scan H) (x : Timeout H) :
    (scanNode idx st x).cd.gauge = st.cd.gauge := by
  unfold scanNode
  dsimp only
  split
  · simp
  · split <;> simp

/-- The scan of another handler's node changes nothing for `h`. -/
theorem view_scanNode_other {idx : Nat} {st : Scan H} (hs : st.cd.Shape) {x : Timeout H} {h : H}
    (hx : x.handler ≠ h) : (scanNode idx st x).view h = st.view h := by
  unfold scanNode
  dsimp only
  split
  · simp [Scan.view, mIter_setIter, hx, Ne.symm hx, List.filter_append, funext_iff]
  · next hpos =>
      split
      · simp [Scan.view, hx, List.filter_append]
      · have hn := (findFallIdx_spec hs (Int.le_of_lt (Int.not_le.mp hpos)) idx).1
        simp only [Scan.view, mIter_pushBack]
        rw [nodesOf_pushBack_other hs hx]
        omega

theorem view_scan_other {idx : Nat} {h : H} : ∀ (l : List (Timeout H)) {st : Scan H},
    st.cd.Shape → (∀ x ∈ l, x.handler ≠ h) →
    (l.foldl (scanNode idx) st).view h = st.view h
  | [], _, _, _ => rfl
  | x :: l, st, hs, hl => by
      rw [List.foldl_cons,
        view_scan_other l (hs.congr (gauge_scanNode idx st x)) fun y hy => hl y (by simp [hy]),
        view_scanNode_other hs (hl x (by simp))]

theorem gauge_scan (idx : Nat) : ∀ (l : List (Timeout H)) (st : Scan H),
    (l.foldl (scanNode idx) st).cd.gauge = st.cd.gauge
  | [], _ => rfl
  | x :: l, st => by rw [List.foldl_cons, gauge_scan idx l, gauge_scanNode]

theorem gauge_scanFall (idx : Nat) (cd : Countdown H) (result : List (Timeout H)) :
    (scanFall idx cd result).1.gauge = cd.gauge := by
  unfold scanFall
  dsimp only
  rw [gauge_setList, gauge_scan]

/-- Where a handler stands after the scan of fall `idx` started with it in
view `v`: nothing happened to it, or its node was in fall `idx` and it is
now due, or it has a node with the time that is left in that fall or a
lower one. -/
def ScanOutcome (cd : Countdown H) (idx : Nat) (h : H) (v : Option (Nat × Int))
    (cd' : Countdown H) (fired : List (Timeout H)) : Prop :=
  match v with
  | none => cd'.Sees h none ∧ fired = []
  | some (k, c) =>
    if k = idx then
      (c - (cd.fall idx).mElasped ≤ 0 ∧ cd'.Sees h none ∧ ∃ x, x.handler = h ∧ fired = [x]) ∨
      (0 < c - (cd.fall idx).mElasped ∧ fired = [] ∧
        ∃ n d, n ≤ idx ∧ cd'.Sees h (some (n, d)) ∧
          fallOf n ≤ c - (cd.fall idx).mElasped ∧
          (n < idx → c - (cd.fall idx).mElasped < fallOf (n + 1)) ∧
          d = c - (cd.fall idx).mElasped + if n = idx then 0 else (cd.fall n).mElasped)
    else cd'.Sees h (some (k, c)) ∧ fired = []

/-- The scan of the handler's own node, when its time is up. -/
theorem view_scanNode_fires {idx : Nat} (st : Scan H) (h : H) {c : Int}
    (hc : toInt (c - (st.cd.fall idx).mElasped) ≤ 0) :
    ∃ y : Timeout H, y.handler = h ∧ (scanNode idx st ⟨idx, h, c⟩).view h
      = (false, st.cd.nodesOf h, st.kept.filter (·.handler = h),
          st.result.filter (·.handler = h) ++ [y]) := by
  refine ⟨⟨idx, h, toInt (c - (st.cd.fall idx).mElasped)⟩, rfl, ?_⟩
  simp [scanNode, hc, Scan.view, mIter_setIter, List.filter_append, funext_iff]

/-- The scan of the handler's own node, when it stays in its fall. -/
theorem view_scanNode_stays {idx : Nat} {st : Scan H} {h : H} {c r : Int}
    (hr : toInt (c - (st.cd.fall idx).mElasped) = r) (hpos : 0 < r)
    (hn : st.cd.findFallIdx r idx = idx) :
    (scanNode idx st ⟨idx, h, c⟩).view h
      = (st.cd.mIter h, st.cd.nodesOf h, st.kept.filter (·.handler = h) ++ [⟨idx, h, r⟩],
          st.result.filter (·.handler = h)) := by
  simp [scanNode, hr, Int.not_le.mpr hpos, hn, Scan.view, List.filter_append]

/-- The scan of the handler's own node, when it drops to fall `n`. -/
theorem view_scanNode_drops {idx n : Nat} {st : Scan H} (hs : st.cd.Shape) {h : H} {c r : Int}
    (hr : toInt (c - (st.cd.fall idx).mElasped) = r) (hpos : 0 < r)
    (hn : st.cd.findFallIdx r idx = n) (hne : n ≠ idx) (hn12 : n ≤ 12) :
    (scanNode idx st ⟨idx, h, c⟩).view h
      = (st.cd.mIter h, fun j => st.cd.nodesOf h j ++
            if j = n then [⟨n, h, toInt (r + (st.cd.fall n).mElasped)⟩] else [],
          st.kept.filter (·.handler = h), st.result.filter (·.handler = h)) := by
  simp [scanNode, hr, Int.not_le.mpr hpos, hn, hne, Scan.view, nodesOf_pushBack hs h hn12,
    funext_iff]

theorem nodesOf_scanFall {cd : Countdown H} (hs : cd.Shape) (h : H) {idx : Nat} (hi : idx ≤ 12)
    (result : List (Timeout H)) (j : Nat) :
    (scanFall idx cd result).1.nodesOf h j
      = if j = idx then
          (((cd.fall idx).mList.foldl (scanNode idx) ⟨cd, [], result⟩).view h).2.2.1
        else (((cd.fall idx).mList.foldl (scanNode idx) ⟨cd, [], result⟩).view h).2.1 j := by
  unfold scanFall
  dsimp only
  rw [nodesOf_setFall (hs.congr (gauge_scan idx _ _)) h hi]
  rfl

/-- A fall after its scan, from what the scan of its list shows `h`. -/
theorem scanFall_of_view {cd : Countdown H} (hs : cd.Shape) {idx : Nat} (hi : idx ≤ 12) {h : H}
    {result : List (Timeout H)} {it : Bool} {nodes : Nat → List (Timeout H)}
    {kept fired : List (Timeout H)}
    (hview : ((cd.fall idx).mList.foldl (scanNode idx) ⟨cd, [], result⟩).view h
      = (it, nodes, kept, fired)) :
    (scanFall idx cd result).1.mIter h = it ∧
      (∀ j, (scanFall idx cd result).1.nodesOf h j = if j = idx then kept else nodes j) ∧
      (scanFall idx cd result).2.filter (·.handler = h) = fired := by
  have hparts := hview
  simp only [Scan.view, Prod.mk.injEq] at hparts
  refine ⟨hparts.1, fun j => ?_, hparts.2.2.2⟩
  rw [nodesOf_scanFall hs h hi, hview]

/-- A fall without a node of `h` is scanned without effect on `h`. -/
theorem scanFall_quiet {cd : Countdown H} (hs : cd.Shape) {idx : Nat} (hi : idx ≤ 12)
    {h : H} {v : Option (Nat × Int)} (hv : cd.Sees h v) (hnil : cd.nodesOf h idx = [])
    (result : List (Timeout H)) :
    (scanFall idx cd result).1.Sees h v ∧
      (scanFall idx cd result).2.filter (·.handler = h) = result.filter (·.handler = h) := by
  have hview : ((cd.fall idx).mList.foldl (scanNode idx) ⟨cd, [], result⟩).view h
      = (cd.mIter h, cd.nodesOf h, [], result.filter (·.handler = h)) :=
    view_scan_other _ hs fun x hx hxh => by
      have := List.filter_eq_nil_iff.mp hnil x hx
      simp [hxh] at this
  obtain ⟨hit, hnodes, hfired⟩ := scanFall_of_view hs hi hview
  refine ⟨hv.congr hit fun j => ?_, hfired⟩
  rw [hnodes]
  split
  · next hj => rw [hj, hnil]
  · rfl

/-- The scan of the list with the node of `h` does to `h` what it does at that node:
before and after it, it sees the nodes of others. -/
theorem view_scan_node {cd : Countdown H} (hs : cd.Shape) {k : Nat} {h : H} {c : Int}
    (hnode : (cd.fall k).mList.filter (·.handler = h) = [⟨k, h, c⟩])
    (result : List (Timeout H)) :
    ∃ st : Scan H, st.cd.gauge = cd.gauge ∧
      st.view h = (cd.mIter h, cd.nodesOf h, [], result.filter (·.handler = h)) ∧
      ((cd.fall k).mList.foldl (scanNode k) ⟨cd, [], result⟩).view h
        = (scanNode k st ⟨k, h, c⟩).view h := by
  obtain ⟨l1, l2, hl, h1, -, h2⟩ := List.filter_eq_cons_iff.mp hnode
  have hl1 : ∀ x ∈ l1, x.handler ≠ h := fun x hx => by simpa using h1 x hx
  have hl2 : ∀ x ∈ l2, x.handler ≠ h := fun x hx => by
    simpa using List.filter_eq_nil_iff.mp h2 x hx
  have hgauge : (l1.foldl (scanNode k) ⟨cd, [], result⟩).cd.gauge = cd.gauge := gauge_scan k l1 _
  refine ⟨l1.foldl (scanNode k) ⟨cd, [], result⟩, hgauge, view_scan_other l1 hs hl1, ?_⟩
  rw [hl, List.foldl_append, List.foldl_cons]
  exact view_scan_other l2 ((hs.congr hgauge).congr (gauge_scanNode ..)) hl2

/-- The scan of the fall that has the node of `h`: it fires, or stays, or drops to a
lower fall. -/
theorem scanFall_own {cd : Countdown H} (hs : cd.Shape) {k : Nat} (hi : k ≤ 12)
    {h : H} {c r : Int} (hv : cd.Sees h (some (k, c)))
    (hr : toInt (c - (cd.fall k).mElasped) = r) (result : List (Timeout H)) :
    (r ≤ 0 ∧ (scanFall k cd result).1.Sees h none ∧ ∃ y, y.handler = h ∧
        (scanFall k cd result).2.filter (·.handler = h)
          = result.filter (·.handler = h) ++ [y]) ∨
      (0 < r ∧ ∃ n ≤ k, fallOf n ≤ r ∧ (n < k → r < fallOf (n + 1)) ∧
        (scanFall k cd result).1.Sees h
          (some (n, if n = k then r else toInt (r + (cd.fall n).mElasped))) ∧
        (scanFall k cd result).2.filter (·.handler = h) = result.filter (·.handler = h)) := by
  have hnode : (cd.fall k).mList.filter (·.handler = h) = [⟨k, h, c⟩] := by
    have := hv.2.2 k
    rwa [if_pos rfl] at this
  obtain ⟨st, hgauge, hstart, hview⟩ := view_scan_node hs hnode result
  have hs1 : st.cd.Shape := hs.congr hgauge
  rw [← (gauge_fall hgauge k).1] at hr
  obtain ⟨hit, hall, hkept, hfired⟩ : st.cd.mIter h = cd.mIter h ∧
      st.cd.nodesOf h = cd.nodesOf h ∧ st.kept.filter (·.handler = h) = [] ∧
      st.result.filter (·.handler = h) = result.filter (·.handler = h) := by
    simpa only [Scan.view, Prod.mk.injEq] using hstart
  rcases Int.lt_or_le 0 r with hpos | hneg
  case inr =>
    obtain ⟨y, hy, hfire⟩ := view_scanNode_fires st h (by rw [hr]; exact hneg)
    rw [hfire, hall, hkept, hfired] at hview
    obtain ⟨hiter, hnodes, hres⟩ := scanFall_of_view hs hi hview
    refine Or.inl ⟨hneg, ⟨hiter, fun j => ?_⟩, y, hy, hres⟩
    rw [hnodes]
    split
    · rfl
    · next hj => simp [hv.2.2 j, hj]
  case inl =>
    obtain ⟨n, hn⟩ : ∃ n, n = st.cd.findFallIdx r k := ⟨_, rfl⟩
    obtain ⟨hnle, hnlo, hnhi⟩ := findFallIdx_spec hs1 (Int.le_of_lt hpos) k
    rw [← hn] at hnle hnlo hnhi
    refine Or.inr ⟨hpos, n, by omega, hnlo, fun hlt => hnhi (by omega), ?_⟩
    by_cases hnk : n = k
    case pos =>
      rw [view_scanNode_stays hr hpos (hn.symm.trans hnk), hit, hall, hkept, hfired] at hview
      obtain ⟨hiter, hnodes, hres⟩ := scanFall_of_view hs hi hview
      refine ⟨⟨by rw [hiter, hv.1], by omega, fun j => ?_⟩, hres⟩
      rw [hnodes]
      by_cases hj : j = k
      · simp [hj, hnk]
      · simp [hj, hnk, hv.2.2 j]
    case neg =>
      rw [view_scanNode_drops hs1 hr hpos hn.symm hnk (by omega), hit, hall, hkept,
        hfired, (gauge_fall hgauge n).1] at hview
      obtain ⟨hiter, hnodes, hres⟩ := scanFall_of_view hs hi hview
      refine ⟨⟨by rw [hiter, hv.1], by omega, fun j => ?_⟩, hres⟩
      rw [hnodes, if_neg hnk]
      by_cases hjk : j = k
      · simp [hjk, Ne.symm hnk]
      · by_cases hjn : j = n <;> simp [hjk, hjn, hv.2.2, hnk]

/-- The same where nothing leaves `int`. The counters below `k` are those of the falls
already passed in this click. -/
theorem scanFall_node {cd : Countdown H} (hs : cd.Shape) {k : Nat} (hi : k ≤ 12)
    {h : H} {c : Int} (hv : cd.Sees h (some (k, c)))
    (helapsed : ∀ j ≤ k, 0 ≤ (cd.fall j).mElasped)
    (hlow : ∀ j < k, (cd.fall j).mElasped ≤ 10240)
    (hc0 : 0 ≤ c) (hcmax : c ≤ intMax) (hemax : (cd.fall k).mElasped ≤ intMax)
    (result : List (Timeout H)) :
    ∃ fired, ScanOutcome cd k h (some (k, c)) (scanFall k cd result).1 fired ∧
      (scanFall k cd result).2.filter (·.handler = h)
        = result.filter (·.handler = h) ++ fired := by
  have he := helapsed k (Nat.le_refl k)
  have hr : toInt (c - (cd.fall k).mElasped) = c - (cd.fall k).mElasped := by
    rw [toInt_of_range] <;> unfold intMax at * <;> omega
  simp only [ScanOutcome, if_pos]
  rcases scanFall_own hs hi hv hr result with
    ⟨hneg, hsees, y, hy, hres⟩ | ⟨hpos, n, hnle, hnlo, hnhi, hsees, hres⟩
  case inl => exact ⟨[y], Or.inl ⟨hneg, hsees, y, hy, rfl⟩, hres⟩
  case inr =>
    refine ⟨[], Or.inr ⟨hpos, rfl, n, _, hnle, hsees, hnlo, hnhi, ?_⟩, by rw [hres, List.append_nil]⟩
    by_cases hnk : n = k
    · rw [if_pos hnk, if_pos hnk, Int.add_zero]
    · have h1 := helapsed n hnle
      have h2 := hlow n (by omega)
      have h3 := hnhi (by omega)
      have h4 := (fallOf_le (n + 1) (by omega)).2
      rw [if_neg hnk, if_neg hnk, toInt_of_range (by omega) (by unfold intMax; omega)]

/-- The scan of fall `idx`, seen by `h`. -/
theorem scanFall_outcome {cd : Countdown H} (hs : cd.Shape) {idx : Nat} (hi : idx ≤ 12)
    {h : H} {v : Option (Nat × Int)} (hv : cd.Sees h v)
    (helapsed : ∀ j ≤ idx, 0 ≤ (cd.fall j).mElasped)
    (hlow : ∀ j < idx, (cd.fall j).mElasped ≤ 10240)
    (hcount : ∀ c, v = some (idx, c) → 0 ≤ c ∧ c ≤ intMax ∧ (cd.fall idx).mElasped ≤ intMax)
    (result : List (Timeout H)) :
    ∃ fired, ScanOutcome cd idx h v (scanFall idx cd result).1 fired ∧
      (scanFall idx cd result).2.filter (·.handler = h)
        = result.filter (·.handler = h) ++ fired := by
  cases v with
  | none =>
      obtain ⟨hsees, hres⟩ := scanFall_quiet hs hi hv (hv.2 idx) result
      exact ⟨[], ⟨hsees, rfl⟩, by rw [hres, List.append_nil]⟩
  | some p =>
      obtain ⟨k, c⟩ := p
      by_cases hk : k = idx
      case pos =>
        subst hk
        obtain ⟨hc0, hcmax, hemax⟩ := hcount c rfl
        exact scanFall_node hs hi hv helapsed hlow hc0 hcmax hemax result
      case neg =>
        have hnil : cd.nodesOf h idx = [] := by rw [hv.2.2 idx, if_neg (Ne.symm hk)]
        obtain ⟨hsees, hres⟩ := scanFall_quiet hs hi hv hnil result
        refine ⟨[], ?_, by rw [hres, List.append_nil]⟩
        simp only [ScanOutcome, if_neg hk]
        exact ⟨hsees, trivial⟩

/-! ## The counters -/

omit [DecidableEq H] in
theorem shape_setElasped {cd : Countdown H} (hs : cd.Shape) (i : Nat) (e : Int) :
    (cd.setElasped i e).Shape where
  length := by simp [setElasped, setFall, hs.length]
  last := hs.last
  bound j hj := by
    rw [setElasped, fall_setFall]
    split
    · next h => rw [← h.1] at hj ⊢; exact hs.bound i hj
    · exact hs.bound j hj

omit [DecidableEq H] in
theorem elasped_setElasped {cd : Countdown H} (hs : cd.Shape) {i : Nat} (hi : i ≤ 12) (e : Int)
    (j : Nat) :
    ((cd.setElasped i e).fall j).mElasped = if j = i then e else (cd.fall j).mElasped := by
  rw [setElasped, fall_setFall, hs.length]
  by_cases hj : j = i
  · simp [hj, show i < 13 by omega]
  · simp [hj, Ne.symm hj]

theorem sees_setElasped {cd : Countdown H} (hs : cd.Shape) {i : Nat} (hi : i ≤ 12) (e : Int)
    {h : H} {v : Option (Nat × Int)} (hv : cd.Sees h v) : (cd.setElasped i e).Sees h v :=
  hv.congr rfl fun j => by
    rw [setElasped, nodesOf_setFall hs h hi]
    split
    · next hj => subst hj; rfl
    · rfl

/-- Between two clicks a counter is below the bound of its fall, and the
bottom counts nothing; `acc` is all the time reported so far. -/
structure Counters (cd : Countdown H) (acc : Int) : Prop where
  shape : cd.Shape
  nonneg : ∀ i ≤ 12, 0 ≤ (cd.fall i).mElasped
  bottom : (cd.fall 0).mElasped = 0
  below : ∀ i ≤ 12, 0 < i → (cd.fall i).mElasped < fallOf i
  total : ∀ i ≤ 12, (cd.fall i).mElasped ≤ acc

omit [DecidableEq H] in
theorem Counters.le_max {cd : Countdown H} {acc : Int} (hc : cd.Counters acc) :
    ∀ i ≤ 12, (cd.fall i).mElasped ≤ min acc 10239 := by
  intro i hi
  have h1 := hc.total i hi
  rcases Nat.eq_zero_or_pos i with rfl | hpos
  · have := hc.bottom; omega
  · have h2 := hc.below i hi hpos
    have h3 := (fallOf_le i hi).2
    omega

/-! ## One handler against its entry -/

/-- Where a node may stand: in a fall whose bound its count reaches, and in
the bottom only with less than one click to go. -/
def Placed (k : Nat) (c : Int) : Prop := fallOf k ≤ c ∧ c ≤ intMax ∧ (k = 0 → c < timeClick)

/-- The wheel holds of `h` exactly what the entry says. -/
def AtEntry (cd : Countdown H) (h : H) : Option TimerEntry → Prop
  | none => cd.Sees h none
  | some x => ∃ k c, cd.Sees h (some (k, c)) ∧ Placed k c ∧
      c - (cd.fall k).mElasped = x.remaining

/-- The wheel agrees with the table on every handler. -/
structure Agrees (cd : Countdown H) (tb : TimerTable H) (acc : Int) : Prop where
  counters : cd.Counters acc
  entry : ∀ h, cd.AtEntry h (tb h)

omit [DecidableEq H] in
/-- Every fall the constructor builds is empty, and so is one past the end. -/
theorem fall_new (i : Nat) :
    (new : Countdown H).fall i = Fall.new (if i ≤ 12 then fallOf i else 0) := by
  match i with
  | 0 | 1 | 2 | 3 | 4 | 5 | 6 | 7 | 8 | 9 | 10 | 11 | 12 => rfl
  | i + 13 =>
      rw [if_neg (by omega)]
      rfl

theorem agrees_new : (new : Countdown H).Agrees TimerTable.empty 0 where
  counters :=
    { shape := ⟨rfl, rfl, fun i hi => by simp [fall_new, Fall.new, hi]⟩
      nonneg := fun i _ => by simp [fall_new, Fall.new]
      bottom := by simp [fall_new, Fall.new]
      below := fun i hi hpos => by
        have := fallOf_pos i hi hpos
        simp only [fall_new, Fall.new]
        omega
      total := fun i _ => by simp [fall_new, Fall.new] }
  entry h := ⟨rfl, fun j => by simp [nodesOf, fall_new, Fall.new]⟩

/-- What the wheel holds of `h` depends on what `h` sees and on the gauge. -/
theorem AtEntry.congr {cd cd' : Countdown H} {h : H} {x : Option TimerEntry}
    (hx : cd.AtEntry h x) (hg : cd'.gauge = cd.gauge) (hi : cd'.mIter h = cd.mIter h)
    (hn : ∀ j, cd'.nodesOf h j = cd.nodesOf h j) : cd'.AtEntry h x := by
  cases x with
  | none => exact Sees.congr (v := none) hx hi hn
  | some x =>
      obtain ⟨k, c, hsees, hplaced, hrem⟩ := hx
      exact ⟨k, c, hsees.congr hi hn, hplaced, by rw [(gauge_fall hg k).1]; exact hrem⟩

omit [DecidableEq H] in
theorem Counters.congr {cd cd' : Countdown H} {acc : Int} (hc : cd.Counters acc)
    (hg : cd'.gauge = cd.gauge) : cd'.Counters acc where
  shape := hc.shape.congr hg
  nonneg i hi := by rw [(gauge_fall hg i).1]; exact hc.nonneg i hi
  bottom := by rw [(gauge_fall hg 0).1]; exact hc.bottom
  below i hi hpos := by rw [(gauge_fall hg i).1]; exact hc.below i hi hpos
  total i hi := by rw [(gauge_fall hg i).1]; exact hc.total i hi

/-! ## `select_timeout` -/

@[simp] theorem gauge_erase (cd : Countdown H) (i : Nat) (h : H) :
    (cd.erase i h).gauge = cd.gauge := gauge_setList ..

@[simp] theorem gauge_setCount (cd : Countdown H) (i : Nat) (h : H) (c : Int) :
    (cd.setCount i h c).gauge = cd.gauge := gauge_setList ..

@[simp] theorem mIter_erase (cd : Countdown H) (i : Nat) (h : H) :
    (cd.erase i h).mIter = cd.mIter := rfl

@[simp] theorem mIter_setCount (cd : Countdown H) (i : Nat) (h : H) (c : Int) :
    (cd.setCount i h c).mIter = cd.mIter := rfl

theorem nodesOf_erase {cd : Countdown H} (hs : cd.Shape) {i : Nat} (hi : i ≤ 12) (h s : H)
    (j : Nat) : (cd.erase i s).nodesOf h j
      = if j = i ∧ h = s then [] else cd.nodesOf h j := by
  unfold erase
  rw [nodesOf_setFall hs h hi]
  by_cases hj : j = i
  · subst hj
    by_cases hh : h = s
    · subst hh; simp [List.filter_filter]
    · have : ∀ x : Timeout H, (decide (x.handler = h) && decide (x.handler ≠ s))
          = decide (x.handler = h) := by
        intro x
        by_cases hx : x.handler = h <;> simp [hx, hh]
      simp only [List.filter_filter, this, hh, and_false, if_true, if_false]
      rfl
  · simp [hj]

theorem nodesOf_setCount {cd : Countdown H} (hs : cd.Shape) {i : Nat} (hi : i ≤ 12) (h s : H)
    (c : Int) (j : Nat) : (cd.setCount i s c).nodesOf h j
      = if j = i ∧ h = s then (cd.nodesOf h j).map (fun x => { x with count := c })
        else cd.nodesOf h j := by
  unfold setCount
  rw [nodesOf_setFall hs h hi]
  by_cases hj : j = i
  · subst hj
    have hf : ∀ x : Timeout H, (if x.handler = s then { x with count := c } else x).handler
        = x.handler := by
      intro x; split <;> rfl
    simp only [if_true, true_and, nodesOf, List.filter_map, Function.comp_def, hf]
    by_cases hh : h = s
    · subst hh
      rw [if_pos rfl]
      refine List.map_congr_left fun x hx => ?_
      rw [if_pos (by simpa using (List.mem_filter.mp hx).2)]
    · rw [if_neg hh]
      refine (List.map_congr_left fun x hx => ?_).trans (List.map_id _)
      have : x.handler = h := by simpa using (List.mem_filter.mp hx).2
      rw [if_neg (by rw [this]; exact hh)]
      rfl
  · simp [hj]

/-- Going through a list is going through its indices. -/
theorem flatMap_eq_range {α β : Type} (f : α → List β) (d : α) : ∀ l : List α,
    l.flatMap f = (List.range l.length).flatMap fun j => f (l.getD j d)
  | [] => rfl
  | a :: l => by
      rw [List.length_cons, List.range_succ_eq_map, List.flatMap_cons, List.flatMap_cons,
        List.flatMap_map, flatMap_eq_range f d l]
      rfl

/-- A list that holds `x` at place `k` only, flattened. -/
theorem flatMap_range_single {α : Type} (x : α) (k : Nat) : ∀ n,
    (List.range n).flatMap (fun i => if i = k then [x] else []) = if k < n then [x] else []
  | 0 => by simp
  | n + 1 => by
      rw [List.range_succ, List.flatMap_append, flatMap_range_single x k n]
      by_cases hk : n = k
      · subst hk; simp
      · by_cases hlt : k < n <;> simp [hk, hlt] <;> omega

/-- The iterator of a registered handler points at its node. -/
theorem deref_of_sees {cd : Countdown H} (hs : cd.Shape) {h : H} {k : Nat} {c : Int}
    (hv : cd.Sees h (some (k, c))) : cd.deref h = some ⟨k, h, c⟩ := by
  have hflat : (cd.mFalls.flatMap (·.mList)).filter (·.handler = h)
      = (List.range cd.mFalls.length).flatMap (cd.nodesOf h) := by
    rw [List.filter_flatMap]
    exact flatMap_eq_range _ _ _
  unfold deref
  rw [← List.head?_filter, hflat, hs.length]
  have := flatMap_range_single (⟨k, h, c⟩ : Timeout H) k 13
  rw [if_pos (by have := hv.2.1; omega)] at this
  rw [show cd.nodesOf h = _ from funext hv.2.2, this]
  rfl

/-- A change that only `s` sees moves the table at `s`. -/
theorem Agrees.update {cd cd' : Countdown H} {tb : TimerTable H} {acc : Int}
    (ha : cd.Agrees tb acc) (s : H) {x : Option TimerEntry} (hg : cd'.gauge = cd.gauge)
    (hother : ∀ h, h ≠ s → cd'.mIter h = cd.mIter h ∧ ∀ j, cd'.nodesOf h j = cd.nodesOf h j)
    (hx : cd'.AtEntry s x) : cd'.Agrees (Function.update tb s x) acc where
  counters := ha.counters.congr hg
  entry h := by
    by_cases hh : h = s
    · subst hh; rw [Function.update_self]; exact hx
    · rw [Function.update_of_ne hh]
      exact (ha.entry h).congr hg (hother h hh).1 (hother h hh).2

/-- What `select_timeout` does to the node of its handler; no other handler sees it. -/
theorem sees_selectTimeout {cd : Countdown H} (hs : cd.Shape) {s : H} {v : Option (Nat × Int)}
    (hv : cd.Sees s v) (t : Int) :
    (cd.selectTimeout s t).gauge = cd.gauge ∧
      (∀ h, h ≠ s → (cd.selectTimeout s t).mIter h = cd.mIter h ∧
        ∀ j, (cd.selectTimeout s t).nodesOf h j = cd.nodesOf h j) ∧
      (cd.selectTimeout s t).Sees s (if t < 0 then none else
        some (cd.findFallIdx t npos,
          toInt (t + (cd.fall (cd.findFallIdx t npos)).mElasped))) := by
  rcases Int.lt_or_le t 0 with ht | ht
  case inl =>
    simp only [selectTimeout, if_pos ht]
    cases v with
    | none =>
        rw [if_neg (by simp [hv.1])]
        exact ⟨rfl, fun h _ => ⟨rfl, fun _ => rfl⟩, hv⟩
    | some p =>
        obtain ⟨k, c⟩ := p
        rw [if_pos hv.1, deref_of_sees hs hv]
        refine ⟨by simp, fun h hh => ⟨?_, fun j => ?_⟩, ?_, fun j => ?_⟩
        · simp [mIter_setIter, hh]
        · simp [nodesOf_erase hs hv.2.1, hh]
        · simp [mIter_setIter]
        · by_cases hj : j = k <;> simp [nodesOf_erase hs hv.2.1, hv.2.2, hj]
  case inr =>
    have hle : cd.findFallIdx t npos ≤ 12 :=
      Nat.le_trans (findFallIdx_spec hs ht npos).1 (Nat.min_le_left _ _)
    simp only [selectTimeout, if_neg (Int.not_lt.mpr ht)]
    generalize cd.findFallIdx t npos = n at hle ⊢
    cases v with
    | none =>
        rw [if_neg (by simp [hv.1])]
        refine ⟨by simp, fun h hh => ⟨?_, fun j => ?_⟩, ?_, hle, fun j => ?_⟩
        · simp [mIter_setIter, hh]
        · simp [nodesOf_pushBack hs h hle, Ne.symm hh]
        · simp [mIter_setIter]
        · simp [nodesOf_pushBack hs s hle, hv.2 j]
    | some p =>
        obtain ⟨k, c⟩ := p
        rw [if_pos hv.1, deref_of_sees hs hv]
        dsimp only
        split
        · next hkn =>
            have hs1 : (cd.erase k s).Shape := hs.congr (by simp)
            have hs2 : ((cd.erase k s).pushBack n ⟨n, s, c⟩).Shape := hs1.congr (by simp)
            refine ⟨by simp, fun h hh => ⟨rfl, fun j => ?_⟩, hv.1, hle, fun j => ?_⟩
            · simp [nodesOf_setCount hs2 hle, nodesOf_pushBack hs1 h hle,
                nodesOf_erase hs hv.2.1, hh, Ne.symm hh]
            · by_cases hj : j = n
              · simp [nodesOf_setCount hs2 hle, nodesOf_pushBack hs1 s hle,
                  nodesOf_erase hs hv.2.1, hv.2.2, hj, Ne.symm hkn]
              · by_cases hjk : j = k <;>
                  simp [nodesOf_setCount hs2 hle, nodesOf_pushBack hs1 s hle,
                    nodesOf_erase hs hv.2.1, hv.2.2, hj, hjk, hkn]
        · next hkn =>
            obtain rfl : k = n := by simpa using hkn
            refine ⟨by simp, fun h hh => ⟨rfl, fun j => ?_⟩, hv.1, hle, fun j => ?_⟩
            · simp [nodesOf_setCount hs hle, hh]
            · by_cases hj : j = k <;> simp [nodesOf_setCount hs hle, hv.2.2, hj]

/-- An entry is something its handler sees. -/
theorem AtEntry.sees {cd : Countdown H} {h : H} {x : Option TimerEntry} (hx : cd.AtEntry h x) :
    ∃ v, cd.Sees h v := by
  cases x with
  | none => exact ⟨none, hx⟩
  | some x =>
      obtain ⟨k, c, hv, -⟩ := hx
      exact ⟨some (k, c), hv⟩

/-- Cancelling takes the entry out. -/
theorem selectTimeout_cancel {cd : Countdown H} {tb : TimerTable H} {acc : Int}
    (ha : cd.Agrees tb acc) (s : H) {t : Int} (ht : t < 0) :
    (cd.selectTimeout s t).Agrees (tb.select s t) acc := by
  obtain ⟨v, hv⟩ := (ha.entry s).sees
  obtain ⟨hg, hother, hsees⟩ := sees_selectTimeout ha.counters.shape hv t
  rw [if_pos ht] at hsees
  rw [TimerTable.select, if_pos ht]
  exact ha.update s hg hother hsees

/-- Arming with `t` stays inside `int`: it fits with the counter of the fall it
goes to. -/
def ArmFits (cd : Countdown H) (t : Int) : Prop :=
  t + (cd.fall (cd.findFallIdx t npos)).mElasped ≤ intMax

/-- A click of `e` stays inside `int`: it fits with every counter. -/
def ClickFits (cd : Countdown H) (e : Int) : Prop :=
  ∀ j ≤ 12, (cd.fall j).mElasped + e ≤ intMax

omit [DecidableEq H] in
/-- Where `select_timeout` puts the node: the fall it finds holds a timeout
this long, and the stored count is relative to the counter of that fall. -/
theorem placed_arm {cd : Countdown H} {acc : Int} (hc : cd.Counters acc) {t : Int} (ht : 0 ≤ t)
    (hfit : cd.ArmFits t) :
    toInt (t + (cd.fall (cd.findFallIdx t npos)).mElasped)
        = t + (cd.fall (cd.findFallIdx t npos)).mElasped ∧
      Placed (cd.findFallIdx t npos) (t + (cd.fall (cd.findFallIdx t npos)).mElasped) := by
  obtain ⟨hle, hlo, hhi⟩ := findFallIdx_spec hc.shape ht npos
  have hnpos : min 12 npos = 12 := by decide
  rw [hnpos] at hle hhi
  have h1 := hc.nonneg _ hle
  unfold ArmFits at hfit
  refine ⟨toInt_of_range (by omega) hfit, by omega, hfit, fun h0 => ?_⟩
  rw [h0] at hhi ⊢
  have := hhi (by decide)
  rw [hc.bottom]
  simpa [fallOf] using this

/-- Arming and re-arming write a fresh entry. -/
theorem selectTimeout_arm {cd : Countdown H} {tb : TimerTable H} {acc : Int}
    (ha : cd.Agrees tb acc) (s : H) {t : Int} (ht : 0 ≤ t) (hfit : cd.ArmFits t) :
    (cd.selectTimeout s t).Agrees (tb.select s t) acc := by
  obtain ⟨v, hv⟩ := (ha.entry s).sees
  obtain ⟨hg, hother, hsees⟩ := sees_selectTimeout ha.counters.shape hv t
  obtain ⟨hint, hplaced⟩ := placed_arm ha.counters ht hfit
  rw [if_neg (Int.not_lt.mpr ht), hint] at hsees
  rw [TimerTable.select, if_neg (Int.not_lt.mpr ht)]
  refine ha.update s hg hother ⟨_, _, hsees, hplaced, ?_⟩
  rw [(gauge_fall hg _).1]
  simp only [TimerEntry.remaining]
  omega

/-! ## `click_elapse` -/

/-- The counter of fall `j` after a click of `e`, from its value before. -/
def nextElasped (e : Int) (j : Nat) (old : Int) : Int :=
  if old + e < fallOf j then old + e else 0

/-- One handler in the middle of a click of `e` milliseconds, when the falls
below `s` are done: nothing was armed; or it has fired, exactly once and not
early; or it has a node, from which the time of this click is subtracted
once its fall is done. -/
def ClickEntry (e : Int) (s : Nat) (cd : Countdown H) (result : List (Timeout H)) (h : H) :
    Option TimerEntry → Prop
  | none => cd.Sees h none ∧ result.filter (·.handler = h) = []
  | some x =>
      ((x.add e).remaining ≤ 0 ∧ cd.Sees h none ∧
        ∃ y, y.handler = h ∧ result.filter (·.handler = h) = [y]) ∨
      (∃ k c, cd.Sees h (some (k, c)) ∧ Placed k c ∧ result.filter (·.handler = h) = [] ∧
        (k < s → 0 < (x.add e).remaining ∧ c - (cd.fall k).mElasped = (x.add e).remaining) ∧
        (s ≤ k → c - (cd.fall k).mElasped = x.remaining))

/-- The loop invariant of `click_elapse` over the falls. -/
structure ClickAt (cd0 : Countdown H) (tb : TimerTable H) (e : Int) (s : Nat)
    (st : Countdown H × List (Timeout H)) : Prop where
  shape : st.1.Shape
  bottom : (st.1.fall 0).mElasped = 0
  done : ∀ j, 0 < j → j < s → j ≤ 12 →
    (st.1.fall j).mElasped = nextElasped e j (cd0.fall j).mElasped
  todo : ∀ j, s ≤ j → j ≤ 12 → (st.1.fall j).mElasped = (cd0.fall j).mElasped
  entry : ∀ h, ClickEntry e s st.1 st.2 h (tb h)

theorem mIter_foldl_setIter (h : H) : ∀ (l : List (Timeout H)) (cd : Countdown H),
    (l.foldl (fun cd i => cd.setIter i.handler false) cd).mIter h
      = if l.filter (·.handler = h) = [] then cd.mIter h else false
  | [], cd => by simp
  | x :: l, cd => by
      rw [List.foldl_cons, mIter_foldl_setIter h l, mIter_setIter]
      by_cases hx : x.handler = h
      · subst hx; simp
      · simp [hx, Ne.symm hx]

theorem fall_foldl_setIter (j : Nat) : ∀ (l : List (Timeout H)) (cd : Countdown H),
    (l.foldl (fun cd i => cd.setIter i.handler false) cd).fall j = cd.fall j
  | [], _ => rfl
  | x :: l, cd => by rw [List.foldl_cons, fall_foldl_setIter j l, fall_setIter]

theorem gauge_foldl_setIter : ∀ (l : List (Timeout H)) (cd : Countdown H),
    (l.foldl (fun cd i => cd.setIter i.handler false) cd).gauge = cd.gauge
  | [], _ => rfl
  | x :: l, cd => by rw [List.foldl_cons, gauge_foldl_setIter l, gauge_setIter]

theorem gauge_clickBottom (cd : Countdown H) :
    cd.clickBottom.1.gauge = cd.gauge := by
  simp only [clickBottom, gauge_foldl_setIter, gauge_setList]

/-- The bottom fall empties into the result; the other falls keep their nodes. -/
theorem sees_clickBottom {cd : Countdown H} (hs : cd.Shape) {h : H} {v : Option (Nat × Int)}
    (hv : cd.Sees h v) :
    (∃ c, v = some (0, c) ∧ cd.clickBottom.1.Sees h none ∧
        cd.clickBottom.2.filter (·.handler = h) = [⟨0, h, c⟩]) ∨
      ((∀ c, v ≠ some (0, c)) ∧ cd.clickBottom.1.Sees h v ∧
        cd.clickBottom.2.filter (·.handler = h) = []) := by
  have hiter : cd.clickBottom.1.mIter h = if cd.nodesOf h 0 = [] then cd.mIter h else false :=
    mIter_foldl_setIter h _ _
  have hnodes : ∀ j, cd.clickBottom.1.nodesOf h j = if j = 0 then [] else cd.nodesOf h j := by
    intro j
    have : cd.clickBottom.1.nodesOf h j
        = (cd.setFall 0 { cd.fall 0 with mList := [] }).nodesOf h j := by
      simp only [nodesOf, clickBottom, fall_foldl_setIter]
    rw [this, nodesOf_setFall hs h (by omega)]
    rfl
  cases v with
  | none =>
      refine Or.inr ⟨nofun, ⟨?_, fun j => ?_⟩, hv.2 0⟩
      · rw [hiter, if_pos (hv.2 0), hv.1]
      · rw [hnodes, hv.2 j, ite_self]
  | some p =>
      obtain ⟨k, c⟩ := p
      rcases Nat.eq_zero_or_pos k with rfl | hk
      · have hnode : cd.nodesOf h 0 = [⟨0, h, c⟩] := by rw [hv.2.2, if_pos rfl]
        refine Or.inl ⟨c, rfl, ⟨?_, fun j => ?_⟩, hnode⟩
        · rw [hiter, hnode, if_neg (by simp)]
        · rw [hnodes, hv.2.2]
          split <;> simp [*]
      · have hnode : cd.nodesOf h 0 = [] := by rw [hv.2.2, if_neg (by omega)]
        refine Or.inr ⟨fun d hd => ?_, ⟨?_, hv.2.1, fun j => ?_⟩, hnode⟩
        · simp only [Option.some.injEq, Prod.mk.injEq] at hd
          omega
        · rw [hiter, if_pos hnode, hv.1]
        · rw [hnodes]
          by_cases hj : j = 0
          · simp [hj, Nat.ne_of_lt hk]
          · simp [hj, hv.2.2]

/-- What the bottom fall holds has less than one click to go. -/
theorem clickBottom_at {cd : Countdown H} {tb : TimerTable H} {acc e : Int}
    (ha : cd.Agrees tb acc) (he : timeClick ≤ e) : ClickAt cd tb e 1 cd.clickBottom := by
  have hs := ha.counters.shape
  have hg := gauge_clickBottom cd
  refine ⟨hs.congr hg, by rw [(gauge_fall hg 0).1, ha.counters.bottom],
    fun j h1 h2 => absurd h2 (by omega), fun j _ _ => (gauge_fall hg j).1, fun h => ?_⟩
  have hentry := ha.entry h
  cases hx : tb h with
  | none =>
      rw [hx] at hentry
      rcases sees_clickBottom (v := none) hs hentry with ⟨c, hc, -⟩ | ⟨-, hsees, hres⟩
      · cases hc
      · exact ⟨hsees, hres⟩
  | some x =>
      rw [hx] at hentry
      obtain ⟨k, c, hv, hplaced, hrem⟩ := hentry
      rcases sees_clickBottom hs hv with ⟨d, hd, hsees, hres⟩ | ⟨hpos, hsees, hres⟩
      · obtain ⟨rfl, rfl⟩ : k = 0 ∧ c = d := by simpa using hd
        refine Or.inl ⟨?_, hsees, _, rfl, hres⟩
        have := hplaced.2.2 rfl
        rw [ha.counters.bottom] at hrem
        rw [TimerEntry.remaining_add]
        omega
      · have hk : 0 < k := Nat.pos_of_ne_zero fun h0 => hpos c (by rw [h0])
        exact Or.inr ⟨k, c, hsees, hplaced, hres, fun h => absurd h (by omega),
          fun _ => by rw [(gauge_fall hg k).1]; exact hrem⟩

/-- The counters of the falls already done, in the middle of a click. -/
theorem ClickAt.low {cd0 : Countdown H} {tb : TimerTable H} {acc e : Int} {s : Nat}
    {st : Countdown H × List (Timeout H)} (hc : cd0.Counters acc) (he : timeClick ≤ e)
    (hat : ClickAt cd0 tb e s st) {j : Nat} (hj : j < s) (hj12 : j ≤ 12) :
    0 ≤ (st.1.fall j).mElasped ∧ (st.1.fall j).mElasped ≤ 10239 := by
  rcases Nat.eq_zero_or_pos j with rfl | hpos
  · rw [hat.bottom]; omega
  · rw [hat.done j hpos hj hj12, nextElasped]
    have h1 := hc.nonneg j hj12
    have h2 := (fallOf_le j hj12).2
    unfold timeClick at he
    split <;> omega

omit [DecidableEq H] in
/-- Where the scan of fall `k` leaves a node with `r` milliseconds to go. -/
theorem placed_drop {n k : Nat} {r el d : Int} (hn : n ≤ k) (hk : 0 < k) (hk12 : k ≤ 12)
    (hr : r ≤ intMax) (hlo : fallOf n ≤ r) (hhi : n < k → r < fallOf (n + 1))
    (hel : n < k → 0 ≤ el ∧ el ≤ 10239 ∧ (n = 0 → el = 0))
    (hd : d = r + if n = k then 0 else el) : Placed n d := by
  by_cases hnk : n = k
  · rw [if_pos hnk, Int.add_zero] at hd
    subst hd hnk
    exact ⟨hlo, hr, fun h => absurd h (by omega)⟩
  · rw [if_neg hnk] at hd
    obtain ⟨h1, h2, h3⟩ := hel (by omega)
    have h4 := hhi (by omega)
    have h5 := (fallOf_le (n + 1) (by omega)).2
    refine ⟨by omega, by unfold intMax; omega, fun h0 => ?_⟩
    have := h3 h0
    subst h0
    simpa [hd, this, fallOf] using h4

section ClickFall

variable {cd0 : Countdown H} {tb : TimerTable H} {acc e : Int} {s : Nat}
  {st : Countdown H × List (Timeout H)}

omit [DecidableEq H] in
/-- The new counter of fall `s` fits in an `int`. -/
theorem count_range (hc : cd0.Counters acc) (he : timeClick ≤ e)
    (hfit : cd0.ClickFits e) (hs12 : s ≤ 12) :
    0 < (cd0.fall s).mElasped + e ∧ (cd0.fall s).mElasped + e ≤ intMax := by
  have h1 := hc.nonneg s hs12
  have h2 := hfit s hs12
  unfold timeClick at he
  omega

/-- The pass over a fall whose counter has not reached its bound: what is in
the fall has this much more time to go. -/
theorem ClickAt.idle (hat : ClickAt cd0 tb e s st) (hs1 : 0 < s) (hs12 : s ≤ 12) {E : Int}
    (hE : E = (cd0.fall s).mElasped + e) (hlt : E < fallOf s) :
    ClickAt cd0 tb e (s + 1) (st.1.setElasped s E, st.2) := by
  have hel := elasped_setElasped hat.shape hs12 E
  have hsees : ∀ {h v}, st.1.Sees h v → (st.1.setElasped s E).Sees h v :=
    sees_setElasped hat.shape hs12 E
  refine ⟨shape_setElasped hat.shape s E, by rw [hel, if_neg (by omega), hat.bottom],
    fun j h0 hj hj12 => ?_, fun j hj hj12 => by rw [hel, if_neg (by omega), hat.todo j (by omega) hj12],
    fun h => ?_⟩
  · rw [hel]
    split
    · next hjs => rw [hjs, nextElasped, ← hE, if_pos hlt]
    · exact hat.done j h0 (by omega) hj12
  · have hentry := hat.entry h
    cases hx : tb h with
    | none => rw [hx] at hentry; exact ⟨hsees hentry.1, hentry.2⟩
    | some x =>
        rw [hx] at hentry
        rcases hentry with ⟨hdue, hv, hy⟩ | ⟨k, c, hv, hplaced, hnil, hbelow, habove⟩
        · exact Or.inl ⟨hdue, hsees hv, hy⟩
        · refine Or.inr ⟨k, c, hsees hv, hplaced, hnil, fun hk => ?_, fun hk => ?_⟩
          · rw [hel]
            split
            · next hks =>
                subst hks
                have hrem := habove (Nat.le_refl k)
                rw [hat.todo k (Nat.le_refl k) hs12] at hrem
                have := hplaced.1
                rw [TimerEntry.remaining_add]
                omega
            · exact hbelow (by omega)
          · rw [hel, if_neg (by omega)]
            exact habove (by omega)

/-- The counters that the scan of fall `s` reads. -/
theorem ClickAt.scan_range (hc : cd0.Counters acc) (he : timeClick ≤ e)
    (hat : ClickAt cd0 tb e s st) (hs12 : s ≤ 12) {E : Int} (hE0 : 0 < E) :
    (∀ j ≤ s, 0 ≤ ((st.1.setElasped s E).fall j).mElasped) ∧
      ∀ j < s, ((st.1.setElasped s E).fall j).mElasped ≤ 10240 := by
  have hel := elasped_setElasped hat.shape hs12 E
  refine ⟨fun j hj => ?_, fun j hj => ?_⟩
  · rw [hel]
    split
    · exact Int.le_of_lt hE0
    · exact (hat.low hc he (by omega) (by omega)).1
  · rw [hel, if_neg (by omega)]
    have := (hat.low hc he hj (by omega)).2
    omega

/-- The pass over a fall whose counter has reached its bound: its nodes fire,
stay with what is left, or drop. -/
theorem ClickAt.scan (hc : cd0.Counters acc) (he : timeClick ≤ e)
    (hfit : cd0.ClickFits e) (hat : ClickAt cd0 tb e s st) (hs1 : 0 < s)
    (hs12 : s ≤ 12) {E : Int} (hE : E = (cd0.fall s).mElasped + e) (hge : ¬ E < fallOf s) :
    ClickAt cd0 tb e (s + 1)
      ((scanFall s (st.1.setElasped s E) st.2).1.setElasped s 0,
        (scanFall s (st.1.setElasped s E) st.2).2) := by
  obtain ⟨hE0, hEmax⟩ := count_range hc he hfit hs12
  rw [← hE] at hE0 hEmax
  obtain ⟨hrange, hlow⟩ := hat.scan_range hc he hs12 hE0
  have hshape1 := shape_setElasped hat.shape s E
  have hel1 := elasped_setElasped hat.shape hs12 E
  have hshape2 : (scanFall s (st.1.setElasped s E) st.2).1.Shape :=
    hshape1.congr (gauge_scanFall ..)
  have hel3 : ∀ j, (((scanFall s (st.1.setElasped s E) st.2).1.setElasped s 0).fall j).mElasped
      = if j = s then 0 else (st.1.fall j).mElasped := by
    intro j
    rw [elasped_setElasped hshape2 hs12, (gauge_fall (gauge_scanFall ..) j).1, hel1]
    split <;> rfl
  have hsees3 : ∀ {h v}, (scanFall s (st.1.setElasped s E) st.2).1.Sees h v →
      ((scanFall s (st.1.setElasped s E) st.2).1.setElasped s 0).Sees h v :=
    sees_setElasped hshape2 hs12 0
  refine ⟨shape_setElasped hshape2 s 0, by rw [hel3, if_neg (by omega), hat.bottom],
    fun j h0 hj hj12 => ?_, fun j hj hj12 => by rw [hel3, if_neg (by omega), hat.todo j (by omega) hj12],
    fun h => ?_⟩
  · rw [hel3]
    split
    · next hjs => rw [hjs, nextElasped, ← hE, if_neg hge]
    · exact hat.done j h0 (by omega) hj12
  · have hscan := fun v (hv : st.1.Sees h v) (hcount : ∀ c, v = some (s, c) → _) =>
      scanFall_outcome hshape1 hs12 (sees_setElasped hat.shape hs12 E hv) hrange hlow hcount st.2
    have hentry := hat.entry h
    cases hx : tb h with
    | none =>
        rw [hx] at hentry
        obtain ⟨fired, ⟨hv, rfl⟩, hres⟩ := hscan none hentry.1 (by simp)
        exact ⟨hsees3 hv, by rw [hres, hentry.2, List.append_nil]⟩
    | some x =>
        rw [hx] at hentry
        rcases hentry with ⟨hdue, hv, y, hy, hfire⟩ | ⟨k, c, hv, hplaced, hnil, hbelow, habove⟩
        · obtain ⟨fired, ⟨hv', rfl⟩, hres⟩ := hscan none hv (by simp)
          exact Or.inl ⟨hdue, hsees3 hv', y, hy, by rw [hres, hfire, List.append_nil]⟩
        · have hc0 := Int.le_trans (fallOf_le k hv.2.1).1 hplaced.1
          obtain ⟨fired, hout, hres⟩ := hscan (some (k, c)) hv (by
            intro c' hc'
            obtain ⟨rfl, rfl⟩ : k = s ∧ c = c' := by simpa using hc'
            exact ⟨hc0, hplaced.2.1, by rw [hel1, if_pos rfl]; exact hEmax⟩)
          rw [hnil, List.nil_append] at hres
          by_cases hks : k = s
          · subst hks
            have hrem := habove (Nat.le_refl k)
            rw [hat.todo k (Nat.le_refl k) hs12] at hrem
            have hleft : c - E = (x.add e).remaining := by
              rw [TimerEntry.remaining_add]; omega
            simp only [ScanOutcome, if_pos, hel1, hleft] at hout
            rcases hout with ⟨hdue, hv', y, hy, rfl⟩ | ⟨hpos, rfl, n, d, hn, hv', hlo, hhi, hd⟩
            · exact Or.inl ⟨hdue, hsees3 hv', y, hy, hres⟩
            · refine Or.inr ⟨n, d, hsees3 hv', ?_, hres, fun _ => ⟨hpos, ?_⟩,
                fun h => absurd h (by omega)⟩
              · refine placed_drop hn hs1 hs12 (by have := hplaced.2.1; omega) hlo hhi
                  (fun h => ?_) hd
                rw [if_neg (by omega)]
                have := hat.low hc he h (by omega)
                exact ⟨this.1, this.2, fun h0 => by rw [h0]; exact hat.bottom⟩
              · rw [hel3, hd]
                split <;> omega
          · simp only [ScanOutcome, if_neg hks] at hout
            obtain ⟨hv', rfl⟩ := hout
            refine Or.inr ⟨k, c, hsees3 hv', hplaced, hres, fun hk => ?_, fun hk => ?_⟩
            · rw [hel3, if_neg hks]; exact hbelow (by omega)
            · rw [hel3, if_neg hks]; exact habove (by omega)

/-- One pass over a fall keeps the loop invariant. -/
theorem clickFall_at (hc : cd0.Counters acc) (he : timeClick ≤ e)
    (hfit : cd0.ClickFits e) (hat : ClickAt cd0 tb e s st) (hs1 : 0 < s)
    (hs12 : s ≤ 12) : ClickAt cd0 tb e (s + 1) (clickFall e st s) := by
  obtain ⟨h0, hmax⟩ := count_range hc he hfit hs12
  have hint : toInt ((st.1.fall s).mElasped + e) = (cd0.fall s).mElasped + e := by
    rw [hat.todo s (Nat.le_refl s) hs12, toInt_of_range (by omega) hmax]
  have hel := elasped_setElasped hat.shape hs12 ((cd0.fall s).mElasped + e) s
  rw [if_pos rfl] at hel
  have hbound := (shape_setElasped hat.shape s ((cd0.fall s).mElasped + e)).bound s hs12
  simp only [clickFall, hint, hel, hbound]
  split
  · next hlt => exact hat.idle hs1 hs12 rfl hlt
  · next hge => exact hat.scan hc he hfit hs1 hs12 rfl hge

end ClickFall

/-- The loop over the falls keeps its invariant. -/
theorem clickFalls_at {cd0 : Countdown H} {tb : TimerTable H} {acc e : Int}
    (hc : cd0.Counters acc) (he : timeClick ≤ e) (hfit : cd0.ClickFits e) :
    ∀ (n s : Nat) (st : Countdown H × List (Timeout H)), 0 < s → s + n ≤ 13 →
      ClickAt cd0 tb e s st →
      ClickAt cd0 tb e (s + n) ((List.range' s n).foldl (clickFall e) st)
  | 0, _, _, _, _, hat => hat
  | n + 1, s, st, h0, hn, hat => by
      rw [List.range'_succ, List.foldl_cons]
      have := clickFalls_at hc he hfit n (s + 1) _ (by omega) (by omega)
        (clickFall_at hc he hfit hat h0 (by omega))
      rwa [show s + (n + 1) = s + 1 + n by omega]

theorem clickElapse_at {cd : Countdown H} {tb : TimerTable H} {acc e : Int}
    (ha : cd.Agrees tb acc) (he : timeClick ≤ e) (hfit : cd.ClickFits e) :
    ClickAt cd tb e 13 (cd.clickElapse e) := by
  rw [clickElapse, ha.counters.shape.last]
  exact clickFalls_at ha.counters he hfit 12 1 _ (by decide) (by decide) (clickBottom_at ha he)

/-- A click takes the table's step. -/
theorem clickElapse_agrees {cd : Countdown H} {tb : TimerTable H} {acc e : Int}
    (ha : cd.Agrees tb acc) (he : timeClick ≤ e) (hfit : cd.ClickFits e) :
    (cd.clickElapse e).1.Agrees (tb.click e) (acc + e) := by
  have hat := clickElapse_at ha he hfit
  have hnext : ∀ j, 0 < j → j ≤ 12 → ((cd.clickElapse e).1.fall j).mElasped
      = nextElasped e j (cd.fall j).mElasped := fun j h0 hj => hat.done j h0 (by omega) hj
  have hpos : 0 < e := by unfold timeClick at he; omega
  refine ⟨⟨hat.shape, fun j hj => ?_, hat.bottom, fun j hj h0 => ?_, fun j hj => ?_⟩, fun h => ?_⟩
  · exact (hat.low ha.counters he (by omega) hj).1
  · rw [hnext j h0 hj, nextElasped]
    have := fallOf_pos j hj h0
    split <;> omega
  · have h1 := ha.counters.total j hj
    have h2 := ha.counters.nonneg j hj
    rcases Nat.eq_zero_or_pos j with rfl | h0
    · rw [hat.bottom]; omega
    · rw [hnext j h0 hj, nextElasped]
      split <;> omega
  · have hentry := hat.entry h
    simp only [TimerTable.click]
    cases hx : tb h with
    | none => rw [hx] at hentry; exact hentry.1
    | some x =>
        rw [hx] at hentry
        rcases hentry with ⟨hdue, hv, -⟩ | ⟨k, c, hv, hplaced, -, hbelow, -⟩
        · rw [Option.bind_some, if_pos ((TimerEntry.isDue_iff _).mpr hdue)]
          exact hv
        · obtain ⟨hleft, hrem⟩ := hbelow (by have := hv.2.1; omega)
          have : ¬ (x.add e).isDue = true := by rw [TimerEntry.isDue_iff]; omega
          rw [Option.bind_some, if_neg this]
          exact ⟨k, c, hv, hplaced, hrem⟩

/-- A click returns each due handler once, and nothing else. -/
theorem clickElapse_result {cd : Countdown H} {tb : TimerTable H} {acc e : Int}
    (ha : cd.Agrees tb acc) (he : timeClick ≤ e) (hfit : cd.ClickFits e) :
    ((cd.clickElapse e).2.map (·.handler)).Nodup ∧
      ∀ h, h ∈ (cd.clickElapse e).2.map (·.handler) ↔ tb.dueAt e h := by
  have hat := clickElapse_at ha he hfit
  have hmem : ∀ h, h ∈ (cd.clickElapse e).2.map (·.handler) ↔
      (cd.clickElapse e).2.filter (·.handler = h) ≠ [] := by
    intro h
    simp [List.filter_eq_nil_iff]
  refine ⟨List.nodup_iff_count_le_one.mpr fun h => ?_, fun h => ?_⟩
  · have hcount : ((cd.clickElapse e).2.map (·.handler)).count h
        = ((cd.clickElapse e).2.filter (·.handler = h)).length := by
      rw [List.count, List.countP_map, List.countP_eq_length_filter]
      rfl
    have hentry := hat.entry h
    rw [hcount]
    cases hx : tb h with
    | none => rw [hx] at hentry; simp [hentry.2]
    | some x =>
        rw [hx] at hentry
        rcases hentry with ⟨-, -, y, -, hy⟩ | ⟨k, c, -, -, hnil, -⟩
        · simp [hy]
        · simp [hnil]
  · have hentry := hat.entry h
    rw [hmem, TimerTable.dueAt]
    cases hx : tb h with
    | none => rw [hx] at hentry; simp [hentry.2]
    | some x =>
        rw [hx] at hentry
        rcases hentry with ⟨hdue, -, y, -, hy⟩ | ⟨k, c, hv, -, hnil, hbelow, -⟩
        · simp [hy, TimerEntry.isDue_iff, hdue]
        · have := (hbelow (by have := hv.2.1; omega)).1
          simp [hnil, TimerEntry.isDue_iff, this]

/-! ## Runs -/

/-- A wheel and all the time that has been reported to it. -/
structure Wheel (H : Type) where
  cd : Countdown H
  total : Int

/-- The wheel under the calls of a timer component. -/
def wheel : Machine (Wheel H) (TimerOp H) where
  init := ⟨new, 0⟩
  step w
    | .select h t => some { w with cd := w.cd.selectTimeout h t }
    | .click e => some ⟨(w.cd.clickElapse e).1, w.total + e⟩

/-- The calls that stay inside `int`: a click is of at least `TIME_CLICK`, and a
timeout or a click plus the time elapsed so far fits. Of that time no counter
holds more than 10239 milliseconds, so more than that never matters. -/
def Fits (w : Wheel H) : TimerOp H → Prop
  | .select _ t => t < 0 ∨ t + min w.total 10239 ≤ intMax
  | .click e => timeClick ≤ e ∧ e + min w.total 10239 ≤ intMax

instance (w : Wheel H) : DecidablePred (Fits w)
  | .select _ _ => inferInstanceAs (Decidable (_ ∨ _))
  | .click _ => inferInstanceAs (Decidable (_ ∧ _))

omit [DecidableEq H] in
theorem Counters.armFits {cd : Countdown H} {acc : Int} (hc : cd.Counters acc) {t : Int}
    (ht : 0 ≤ t) (hfit : t + min acc 10239 ≤ intMax) : cd.ArmFits t := by
  obtain ⟨hle, -, -⟩ := findFallIdx_spec hc.shape ht npos
  have := hc.le_max _ (show _ ≤ 12 from Nat.le_trans hle (by decide))
  unfold ArmFits
  omega

omit [DecidableEq H] in
theorem Counters.clickFits {cd : Countdown H} {acc : Int} (hc : cd.Counters acc) {e : Int}
    (hfit : e + min acc 10239 ≤ intMax) : cd.ClickFits e := by
  intro j hj
  have := hc.le_max j hj
  omega

theorem wheel_simulates_table (w : Wheel H) (tb : TimerTable H) (op : TimerOp H) (w' : Wheel H)
    (ha : w.cd.Agrees tb w.total) (hfit : Fits w op) (hstep : wheel.step w op = some w') :
    ∃ tb', tb' = tb.step op ∧ w'.cd.Agrees tb' w'.total := by
  refine ⟨_, rfl, ?_⟩
  cases op with
  | select h t =>
      cases hstep
      rcases Int.lt_or_le t 0 with ht | ht
      · exact selectTimeout_cancel ha h ht
      · exact selectTimeout_arm ha h ht (ha.counters.armFits ht (hfit.resolve_left (by omega)))
  | click e =>
      cases hstep
      exact clickElapse_agrees ha hfit.1 (ha.counters.clickFits hfit.2)

/-- The wheel matches the table. -/
structure Matches (w : Wheel H) (tb : TimerTable H) : Prop where
  /-- What is not armed is not registered and has no node. -/
  unarmed : ∀ h, tb h = none → w.cd.mIter h = false ∧ ∀ j, w.cd.nodesOf h j = []
  /-- What is armed is registered, has one node in one fall, and has the time
  left to go that the table says. -/
  armed : ∀ h x, tb h = some x → w.cd.mIter h = true ∧ ∃ k c,
    (∀ j, w.cd.nodesOf h j = if j = k then [⟨k, h, c⟩] else []) ∧
      c - (w.cd.fall k).mElasped = x.timeout - x.elapsed
  /-- A click returns the handlers whose timeout is at most the time elapsed
  since they were armed, each once, and no longer registers them. -/
  fires : ∀ e, Fits w (.click e) →
    ((w.cd.clickElapse e).2.map (·.handler)).Nodup ∧
      ∀ h, (h ∈ (w.cd.clickElapse e).2.map (·.handler) ↔
          ∃ x, tb h = some x ∧ x.timeout ≤ x.elapsed + e) ∧
        (h ∈ (w.cd.clickElapse e).2.map (·.handler) →
          (w.cd.clickElapse e).1.mIter h = false ∧ ∀ j, (w.cd.clickElapse e).1.nodesOf h j = [])

theorem Agrees.matches {w : Wheel H} {tb : TimerTable H} (ha : w.cd.Agrees tb w.total) :
    Matches w tb where
  unarmed h hx := by
    have := ha.entry h
    rwa [hx] at this
  armed h x hx := by
    have := ha.entry h
    rw [hx] at this
    obtain ⟨k, c, hv, -, hrem⟩ := this
    exact ⟨hv.1, k, c, hv.2.2, hrem⟩
  fires e hfit := by
    obtain ⟨hnodup, hmem⟩ := clickElapse_result ha hfit.1 (ha.counters.clickFits hfit.2)
    refine ⟨hnodup, fun h => ⟨?_, fun hin => ?_⟩⟩
    · simp only [hmem, TimerTable.dueAt, TimerEntry.isDue_add_iff]
    · obtain ⟨x, hx, hdue⟩ := (hmem h).mp hin
      have := (clickElapse_agrees ha hfit.1 (ha.counters.clickFits hfit.2)).entry h
      rwa [TimerTable.click, hx, Option.bind_some, if_pos hdue] at this

/-- **The timer wheel refines the flat timer table**: after every run of calls
that stay inside `int`, the wheel matches the table the same calls make. -/
theorem wheel_refines_table (ops : List (TimerOp H)) (hfit : wheel.AllSteps Fits wheel.init ops) :
    ∃ w, wheel.run wheel.init ops = some w ∧
      Matches w (ops.foldl TimerTable.step (TimerTable.empty : TimerTable H)) := by
  obtain ⟨w, hw⟩ := wheel.run_total (fun w op => by cases op <;> exact ⟨_, rfl⟩) ops
    (wheel.init : Wheel H)
  obtain ⟨tb, hrun, ha⟩ := wheel.run_simulates (A := fun tb op tb' => tb' = TimerTable.step tb op)
    (fun w tb op w' => wheel_simulates_table w tb op w') ops agrees_new hfit hw
  rw [relRun_fun] at hrun
  exact ⟨w, hw, hrun ▸ ha.matches⟩

/-- A timer that cascades, one that is re-armed and one that is cancelled. -/
theorem wheel_refines_table_cascade :
    ∃ w, wheel.run (wheel.init : Wheel Nat)
        [.select 1 100, .select 2 30, .click 50, .select 1 300, .select 3 7, .select 3 (-1)] =
          some w ∧
      Matches w ([.select 1 100, .select 2 30, .click 50, .select 1 300, .select 3 7,
        .select 3 (-1)].foldl TimerTable.step TimerTable.empty) :=
  wheel_refines_table _ (by
    simp [Machine.AllSteps, wheel, Fits, timeClick, intMax, Int.min_def])

end Countdown

end LinSocketIo.Core
