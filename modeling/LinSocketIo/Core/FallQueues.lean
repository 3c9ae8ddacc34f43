/-
LinSocketIo.Core.FallQueues — in which order the timers stand in the falls.

The falls, one behind the other, are one long queue of handlers. A call takes
handlers out of it, or moves them: an armed handler to the end of a fall, unless
it is in that fall already, and the handlers that drop in a click to the ends of
lower falls.

* `queue_selectTimeout`, `queue_scanFall` — the queues after a call and after the
  scan of a fall.
* `InOrder.arm`, `InOrder.drop` — when they are still in the order of a time.
-/
import LinSocketIo.Core.CountdownTheorems

namespace LinSocketIo.Core

open LinSocketIo.Base

namespace Countdown

variable {H : Type}

/-! ## Queues in the order of a time -/

/-- Nobody has more time than somebody behind him, in his own queue or in a later one. -/
structure InOrder (queues : Nat → List H) (time : H → Int) : Prop where
  within : ∀ j, (queues j).Pairwise fun a b => time a ≤ time b
  across : ∀ i j, i < j → ∀ a ∈ queues i, ∀ b ∈ queues j, time a ≤ time b

namespace InOrder

variable {q q' : Nat → List H} {time time' : H → Int}

theorem sublist (ho : InOrder q time) (h : ∀ j, (q' j).Sublist (q j)) : InOrder q' time where
  within j := (ho.within j).sublist (h j)
  across i j hij a ha b hb := ho.across i j hij a ((h i).subset ha) b ((h j).subset hb)

/-- Only the time of those in the queues matters. -/
theorem congr (ho : InOrder q time) (h : ∀ j, ∀ a ∈ q j, time' a = time a) : InOrder q time' where
  within j := (ho.within j).imp_of_mem fun ha hb hle => by rw [h j _ ha, h j _ hb]; exact hle
  across i j hij a ha b hb := by
    rw [h i a ha, h j b hb]
    exact ho.across i j hij a ha b hb

end InOrder

theorem fallOf_step : ∀ j ≤ 12, ∀ i < j, fallOf (i + 1) ≤ fallOf j := by decide

/-- Handlers of queue `s` drop, each to the queue of its time, and pass nobody with less. -/
theorem InOrder.drop {q : Nat → List H} {time : H → Int} (ho : InOrder q time) {s : Nat}
    (hs : s ≤ 12) {dest : H → Option Nat}
    (hdest : ∀ a j, dest a = some j →
      j ≤ s ∧ fallOf j ≤ time a ∧ (j < s → time a < fallOf (j + 1)))
    (hpass : ∀ a ∈ q s, ∀ n, dest a = some n → ∀ j, n < j → j < s → ∀ b ∈ q j,
      time a ≤ time b) :
    InOrder (fun j => (if j = s then [] else q j) ++ (q s).filter (dest · = some j)) time := by
  have hold : ∀ {j a}, a ∈ (if j = s then [] else q j) → j ≠ s ∧ a ∈ q j := by
    intro j a ha
    split at ha
    · cases ha
    · exact ⟨‹_›, ha⟩
  have hnew : ∀ {j a}, a ∈ (q s).filter (dest · = some j) → a ∈ q s ∧ dest a = some j := by
    intro j a ha
    simpa using ha
  refine ⟨fun j => List.pairwise_append.mpr ⟨?_, (ho.within s).filter _, fun a ha b hb => ?_⟩,
    fun i j hij a ha b hb => ?_⟩
  · split
    · exact List.Pairwise.nil
    · exact ho.within j
  · obtain ⟨hne, ha⟩ := hold ha
    obtain ⟨hb, hdb⟩ := hnew hb
    have := (hdest b j hdb).1
    exact ho.across j s (by omega) a ha b hb
  · rcases List.mem_append.mp ha with ha | ha <;> rcases List.mem_append.mp hb with hb | hb
    · exact ho.across i j hij a (hold ha).2 b (hold hb).2
    · obtain ⟨hb, hdb⟩ := hnew hb
      have := (hdest b j hdb).1
      exact ho.across i s (by omega) a (hold ha).2 b hb
    · obtain ⟨ha, hda⟩ := hnew ha
      obtain ⟨hne, hb⟩ := hold hb
      rcases Nat.lt_or_ge j s with hjs | hjs
      · exact hpass a ha i hda j hij hjs b hb
      · exact ho.across s j (by omega) a ha b hb
    · obtain ⟨-, hda⟩ := hnew ha
      obtain ⟨-, hdb⟩ := hnew hb
      obtain ⟨hjs, hlo, -⟩ := hdest b j hdb
      have h1 := (hdest a i hda).2.2 (by omega)
      have h2 := fallOf_step j (by omega) i hij
      omega

variable [DecidableEq H]

/-- A handler gets a new time and goes to the end of queue `k`. -/
theorem InOrder.arm {q : Nat → List H} {time : H → Int} (ho : InOrder q time) {h : H} {k : Nat}
    {t : Int} (hfront : ∀ j ≤ k, ∀ a ∈ q j, a ≠ h → time a ≤ t)
    (hbehind : ∀ j, k < j → ∀ a ∈ q j, a ≠ h → t ≤ time a) :
    InOrder (fun j => (q j).filter (· ≠ h) ++ if j = k then [h] else [])
      (Function.update time h t) := by
  have hold : ∀ {j a}, a ∈ (q j).filter (· ≠ h) → a ∈ q j ∧ a ≠ h := by
    intro j a ha
    simpa using ha
  have hothers : InOrder (fun j => (q j).filter (· ≠ h)) (Function.update time h t) :=
    (ho.sublist fun j => List.filter_sublist).congr fun j a ha =>
      Function.update_of_ne (hold ha).2 _ _
  have hnew : ∀ {j a}, a ∈ (if j = k then [h] else []) → j = k ∧ a = h := by
    intro j a ha
    split at ha
    · exact ⟨‹_›, List.mem_singleton.mp ha⟩
    · cases ha
  refine ⟨fun j => List.pairwise_append.mpr ⟨hothers.within j, ?_, fun a ha b hb => ?_⟩,
    fun i j hij a ha b hb => ?_⟩
  · split
    · exact List.pairwise_singleton ..
    · exact List.Pairwise.nil
  · obtain ⟨rfl, rfl⟩ := hnew hb
    obtain ⟨ha, hne⟩ := hold ha
    rw [Function.update_self, Function.update_of_ne hne]
    exact hfront j (Nat.le_refl j) a ha hne
  · rcases List.mem_append.mp ha with ha' | ha' <;> rcases List.mem_append.mp hb with hb' | hb'
    · exact hothers.across i j hij a ha' b hb'
    · obtain ⟨rfl, rfl⟩ := hnew hb'
      obtain ⟨ha', hne⟩ := hold ha'
      rw [Function.update_self, Function.update_of_ne hne]
      exact hfront i (by omega) a ha' hne
    · obtain ⟨rfl, rfl⟩ := hnew ha'
      obtain ⟨hb', hne⟩ := hold hb'
      rw [Function.update_self, Function.update_of_ne hne]
      exact hbehind j hij b hb' hne
    · obtain ⟨rfl, -⟩ := hnew ha'
      obtain ⟨rfl, -⟩ := hnew hb'
      omega

/-- A handler gets a new time and stays where it is. -/
theorem InOrder.rearm {q : Nat → List H} {time : H → Int} (ho : InOrder q time) {h : H} {k : Nat}
    {t : Int} {l m : List H} (hk : q k = l ++ h :: m) (honly : ∀ j, j ≠ k → h ∉ q j)
    (hl : h ∉ l) (hm : h ∉ m)
    (hfront : ∀ j < k, ∀ a ∈ q j, time a ≤ t) (hwithin : ∀ a ∈ l, time a ≤ t)
    (hwithin' : ∀ a ∈ m, t ≤ time a) (hbehind : ∀ j, k < j → ∀ a ∈ q j, t ≤ time a) :
    InOrder q (Function.update time h t) := by
  have hsame : ∀ {a}, a ≠ h → Function.update time h t a = time a := fun hne =>
    Function.update_of_ne hne _ _
  have hne : ∀ {j}, j ≠ k → ∀ {a}, a ∈ q j → a ≠ h := fun hj a ha he => honly _ hj (he ▸ ha)
  refine ⟨fun j => ?_, fun i j hij a ha b hb => ?_⟩
  · by_cases hj : j = k
    · subst hj
      have hpair := ho.within j
      rw [hk] at hpair ⊢
      obtain ⟨h1, h2, h3⟩ := List.pairwise_append.mp hpair
      obtain ⟨h4, h5⟩ := List.pairwise_cons.mp h2
      have hla : ∀ a ∈ l, a ≠ h := fun a ha he => hl (he ▸ ha)
      have hla' : ∀ a ∈ m, a ≠ h := fun a ha he => hm (he ▸ ha)
      refine List.pairwise_append.mpr ⟨?_, List.pairwise_cons.mpr ⟨fun b hb => ?_, ?_⟩,
        fun a ha b hb => ?_⟩
      · exact h1.imp_of_mem fun ha hb hle => by rw [hsame (hla _ ha), hsame (hla _ hb)]; exact hle
      · rw [Function.update_self, hsame (hla' b hb)]
        exact hwithin' b hb
      · exact h5.imp_of_mem fun ha hb hle => by
          rw [hsame (hla' _ ha), hsame (hla' _ hb)]; exact hle
      · rw [hsame (hla a ha)]
        rcases List.mem_cons.mp hb with rfl | hb'
        · rw [Function.update_self]
          exact hwithin a ha
        · rw [hsame (hla' b hb')]
          exact h3 a ha b hb
    · exact (ho.within j).imp_of_mem fun ha hb hle => by
        rw [hsame (hne hj ha), hsame (hne hj hb)]; exact hle
  · by_cases hah : a = h
    · subst hah
      obtain rfl : i = k := by
        by_contra hik
        exact honly i hik ha
      rw [Function.update_self, hsame (hne (by omega) hb)]
      exact hbehind j hij b hb
    · rw [hsame hah]
      by_cases hbh : b = h
      · subst hbh
        obtain rfl : j = k := by
          by_contra hjk
          exact honly j hjk hb
        rw [Function.update_self]
        exact hfront i hij a ha
      · rw [hsame hbh]
        exact ho.across i j hij a ha b hb

/-! ## The queues of a wheel -/

omit [DecidableEq H] in
/-- The handlers of fall `j`. -/
def queue (cd : Countdown H) (j : Nat) : List H := (cd.fall j).mList.map (·.handler)

theorem mem_queue_iff {cd : Countdown H} {h : H} {j : Nat} :
    h ∈ cd.queue j ↔ cd.nodesOf h j ≠ [] := by
  simp [queue, nodesOf, List.filter_eq_nil_iff]

/-- Where a handler with one node stands. -/
theorem Sees.mem_queue_iff {cd : Countdown H} {h : H} {v : Option (Nat × Int)} (hv : cd.Sees h v)
    (j : Nat) : h ∈ cd.queue j ↔ ∃ c, v = some (j, c) := by
  rw [Countdown.mem_queue_iff]
  cases v with
  | none => simp [hv.2 j]
  | some p =>
      obtain ⟨k, c⟩ := p
      rw [hv.2.2 j]
      by_cases hj : j = k
      · simp [hj]
      · simp [hj, Ne.symm hj]

/-- A node of a handler that sees one is that one. -/
theorem Sees.node {cd : Countdown H} {j : Nat} {x : Timeout H} {v : Option (Nat × Int)}
    (hv : cd.Sees x.handler v) (hx : x ∈ (cd.fall j).mList) :
    v = some (j, x.count) ∧ x.fallidx = j := by
  have hmem : x ∈ cd.nodesOf x.handler j := List.mem_filter.mpr ⟨hx, by simp⟩
  cases v with
  | none =>
      rw [hv.2 j] at hmem
      cases hmem
  | some p =>
      obtain ⟨k, c⟩ := p
      rw [hv.2.2 j] at hmem
      split at hmem
      · next hjk =>
          subst hjk
          have hxe : x = ⟨j, x.handler, c⟩ := List.mem_singleton.mp hmem
          exact ⟨by rw [hxe], by rw [hxe]⟩
      · cases hmem

omit [DecidableEq H] in
theorem queue_setFall {cd : Countdown H} (hs : cd.Shape) {i : Nat} (hi : i ≤ 12) (f : Fall H)
    (j : Nat) : (cd.setFall i f).queue j = if j = i then f.mList.map (·.handler) else cd.queue j := by
  rw [queue, fall_setFall, hs.length]
  by_cases hj : j = i
  · simp [hj, show i < 13 by omega]
  · simp [hj, Ne.symm hj, queue]

omit [DecidableEq H] in
theorem queue_pushBack {cd : Countdown H} (hs : cd.Shape) {i : Nat} (hi : i ≤ 12) (x : Timeout H)
    (j : Nat) : (cd.pushBack i x).queue j = cd.queue j ++ if j = i then [x.handler] else [] := by
  rw [pushBack, queue_setFall hs hi]
  by_cases hj : j = i
  · simp [hj, queue]
  · simp [hj]

omit [DecidableEq H] in
theorem queue_setElasped {cd : Countdown H} (hs : cd.Shape) {i : Nat} (hi : i ≤ 12) (e : Int)
    (j : Nat) : (cd.setElasped i e).queue j = cd.queue j := by
  rw [setElasped, queue_setFall hs hi]
  by_cases hj : j = i
  · simp [hj, queue]
  · simp [hj]

@[simp] theorem queue_setIter (cd : Countdown H) (h : H) (b : Bool) (j : Nat) :
    (cd.setIter h b).queue j = cd.queue j := rfl

theorem queue_erase {cd : Countdown H} (hs : cd.Shape) {i : Nat} (hi : i ≤ 12) (h : H) (j : Nat) :
    (cd.erase i h).queue j = if j = i then (cd.queue j).filter (· ≠ h) else cd.queue j := by
  rw [erase, queue_setFall hs hi]
  by_cases hj : j = i
  · subst hj
    simp only [if_true, queue, List.filter_map]
    rfl
  · simp [hj]

theorem queue_setCount {cd : Countdown H} (hs : cd.Shape) {i : Nat} (hi : i ≤ 12) (h : H) (c : Int)
    (j : Nat) : (cd.setCount i h c).queue j = cd.queue j := by
  rw [setCount, queue_setFall hs hi]
  by_cases hj : j = i
  · subst hj
    simp only [if_true, queue, List.map_map]
    refine List.map_congr_left fun x _ => ?_
    simp only [Function.comp]
    split <;> rfl
  · simp [hj]

/-- Those of a queue that a handler is not in. -/
theorem filter_ne_of_not_mem {l : List H} {h : H} (hh : h ∉ l) : l.filter (· ≠ h) = l :=
  List.filter_eq_self.mpr fun a ha => by
    have : a ≠ h := fun he => hh (he ▸ ha)
    simp [this]

/-- A call of `select_timeout`: cancelling takes the handler out; arming leaves it in the fall
of the timeout, or puts it at the end. -/
theorem queue_selectTimeout {cd : Countdown H} (hs : cd.Shape) {s : H} {v : Option (Nat × Int)}
    (hv : cd.Sees s v) (t : Int) (j : Nat) :
    (cd.selectTimeout s t).queue j =
      if t < 0 then (cd.queue j).filter (· ≠ s)
      else if s ∈ cd.queue (cd.findFallIdx t npos) then cd.queue j
      else (cd.queue j).filter (· ≠ s) ++ if j = cd.findFallIdx t npos then [s] else [] := by
  have hmem := hv.mem_queue_iff
  rcases Int.lt_or_le t 0 with ht | ht
  case inl =>
    simp only [selectTimeout, if_pos ht]
    cases v with
    | none =>
        rw [if_neg (by simp [hv.1]), filter_ne_of_not_mem (by simp [hmem])]
    | some p =>
        obtain ⟨k, c⟩ := p
        rw [if_pos hv.1, deref_of_sees hs hv]
        simp only [queue_setIter, queue_erase hs hv.2.1]
        by_cases hj : j = k
        · rw [if_pos hj]
        · rw [if_neg hj, filter_ne_of_not_mem (by simp [hmem, Ne.symm hj])]
  case inr =>
    have hle : cd.findFallIdx t npos ≤ 12 :=
      Nat.le_trans (findFallIdx_spec hs ht npos).1 (Nat.min_le_left _ _)
    simp only [selectTimeout, if_neg (Int.not_lt.mpr ht)]
    generalize cd.findFallIdx t npos = n at hle ⊢
    cases v with
    | none =>
        rw [if_neg (by simp [hv.1]), if_neg (by simp [hmem]),
          filter_ne_of_not_mem (by simp [hmem]), queue_setIter, queue_pushBack hs hle]
    | some p =>
        obtain ⟨k, c⟩ := p
        rw [if_pos hv.1, deref_of_sees hs hv]
        dsimp only
        by_cases hkn : k = n
        · subst hkn
          rw [if_neg (by simp), if_pos (by simp [hmem]), queue_setCount hs hle]
        · have hs1 : (cd.erase k s).Shape := hs.congr (by simp)
          have hs2 : ((cd.erase k s).pushBack n ⟨n, s, c⟩).Shape := hs1.congr (by simp)
          rw [if_pos (by simpa using hkn), if_neg (by simp [hmem, hkn]), queue_setCount hs2 hle,
            queue_pushBack hs1 hle, queue_erase hs hv.2.1]
          by_cases hj : j = k
          · rw [if_pos hj]
          · rw [if_neg hj, filter_ne_of_not_mem (by simp [hmem, Ne.symm hj])]

/-! ## The scan of a fall -/

omit [DecidableEq H] in
theorem findFallIdx_congr {cd cd' : Countdown H} (hg : cd'.gauge = cd.gauge) (t : Int) (r : Nat) :
    cd'.findFallIdx t r = cd.findFallIdx t r := by
  have hlast : cd'.mFallsLastIdx = cd.mFallsLastIdx := congrArg (·.2.2) hg
  have hfrom : ∀ i, cd'.findFallFrom t i = cd.findFallFrom t i := by
    intro i
    induction i with
    | zero => rfl
    | succ i ih => rw [findFallFrom, findFallFrom, (gauge_fall hg _).2, ih]
  rw [findFallIdx, findFallIdx, hlast, hfrom]

omit [DecidableEq H] in
/-- Where a handler of fall `idx` goes that has this much time: nowhere when it is up. -/
def dest (cd : Countdown H) (idx : Nat) (time : H → Int) (h : H) : Option Nat :=
  if time h ≤ 0 then none else some (cd.findFallIdx (time h) idx)

omit [DecidableEq H] in
theorem dest_spec {cd : Countdown H} (hs : cd.Shape) {idx : Nat} (hi : idx ≤ 12) {time : H → Int}
    {h : H} {j : Nat} (hd : cd.dest idx time h = some j) :
    0 < time h ∧ j ≤ idx ∧ fallOf j ≤ time h ∧ (j < idx → time h < fallOf (j + 1)) := by
  unfold dest at hd
  split at hd
  · cases hd
  · next hpos =>
      obtain ⟨h1, h2, h3⟩ := findFallIdx_spec hs (Int.le_of_lt (Int.not_le.mp hpos)) idx
      rw [Nat.min_eq_right hi] at h1 h3
      cases hd
      exact ⟨by omega, h1, h2, h3⟩

/-- The scan of one node. -/
theorem queue_scanNode {cd : Countdown H} (hs : cd.Shape) {idx : Nat} (hi : idx ≤ 12)
    {time : H → Int} {st : Scan H} (hg : st.cd.gauge = cd.gauge) {x : Timeout H}
    (hx : toInt (x.count - (cd.fall idx).mElasped) = time x.handler) :
    (∀ j, j ≠ idx → (scanNode idx st x).cd.queue j =
        st.cd.queue j ++ if cd.dest idx time x.handler = some j then [x.handler] else []) ∧
      (scanNode idx st x).kept.map (·.handler) = st.kept.map (·.handler) ++
        if cd.dest idx time x.handler = some idx then [x.handler] else [] := by
  have hst : st.cd.Shape := hs.congr hg
  unfold scanNode dest
  rw [(gauge_fall hg idx).1, hx]
  dsimp only
  by_cases hdue : time x.handler ≤ 0
  · simp [hdue]
  · have hn := (findFallIdx_spec hst (Int.le_of_lt (Int.not_le.mp hdue)) idx).1
    rw [if_neg hdue, if_neg hdue]
    rw [findFallIdx_congr hg] at hn ⊢
    by_cases hstay : cd.findFallIdx (time x.handler) idx = idx
    · rw [if_pos hstay, hstay]
      exact ⟨fun j hj => by simp [Ne.symm hj], by simp⟩
    · rw [if_neg hstay]
      refine ⟨fun j hj => ?_, by simp [hstay]⟩
      rw [queue_pushBack hst (by omega)]
      simp only [Option.some.injEq, eq_comm]

theorem queue_scan {cd : Countdown H} (hs : cd.Shape) {idx : Nat} (hi : idx ≤ 12)
    {time : H → Int} : ∀ (l : List (Timeout H)) (st : Scan H), st.cd.gauge = cd.gauge →
      (∀ x ∈ l, toInt (x.count - (cd.fall idx).mElasped) = time x.handler) →
      (∀ j, j ≠ idx → (l.foldl (scanNode idx) st).cd.queue j =
          st.cd.queue j ++ (l.map (·.handler)).filter (cd.dest idx time · = some j)) ∧
        (l.foldl (scanNode idx) st).kept.map (·.handler) =
          st.kept.map (·.handler) ++ (l.map (·.handler)).filter (cd.dest idx time · = some idx)
  | [], st, _, _ => by simp
  | x :: l, st, hg, hl => by
      obtain ⟨hq, hkept⟩ := queue_scanNode hs hi hg (hl x List.mem_cons_self)
      obtain ⟨hq', hkept'⟩ := queue_scan hs hi l (scanNode idx st x)
        ((gauge_scanNode idx st x).trans hg) fun y hy => hl y (List.mem_cons_of_mem x hy)
      have hcons : ∀ j, (if cd.dest idx time x.handler = some j then [x.handler] else []) ++
          (l.map (·.handler)).filter (cd.dest idx time · = some j) =
            ((x :: l).map (·.handler)).filter (cd.dest idx time · = some j) := by
        intro j
        rw [List.map_cons, List.filter_cons]
        by_cases hd : cd.dest idx time x.handler = some j <;> simp [hd]
      rw [List.foldl_cons]
      refine ⟨fun j hj => ?_, ?_⟩
      · rw [hq' j hj, hq j hj, List.append_assoc, hcons]
      · rw [hkept', hkept, List.append_assoc, hcons]

/-- The scan of a fall: those whose time is up are gone, the others are at the ends of the falls
of their time. -/
theorem queue_scanFall {cd : Countdown H} (hs : cd.Shape) {idx : Nat} (hi : idx ≤ 12)
    (time : H → Int)
    (htime : ∀ x ∈ (cd.fall idx).mList,
      toInt (x.count - (cd.fall idx).mElasped) = time x.handler)
    (result : List (Timeout H)) (j : Nat) :
    (scanFall idx cd result).1.queue j = (if j = idx then [] else cd.queue j) ++
      (cd.queue idx).filter (cd.dest idx time · = some j) := by
  obtain ⟨hq, hkept⟩ := queue_scan hs hi (cd.fall idx).mList ⟨cd, [], result⟩ rfl htime
  have hshape := hs.congr (gauge_scan idx (cd.fall idx).mList ⟨cd, [], result⟩)
  unfold scanFall
  rw [queue_setFall hshape hi]
  by_cases hj : j = idx
  · subst hj
    rw [if_pos rfl, if_pos rfl]
    exact hkept
  · rw [if_neg hj, if_neg hj, hq j hj]
    rfl

end Countdown

end LinSocketIo.Core
