/-
LinSocketIo.Utils.MapDiff — `DiffNewOldMap` of `utils/utility.h`, and which
entries it finds.

The loop goes through both maps in the order of their keys, one key at a time,
and as many times as the larger map has entries. Where one of the maps has ended,
the rest of the other one goes in a single turn. Two maps can need more turns:
each key that only one of them has takes a turn of its own.

* `diffLoop_eq` — an entry is found just where fewer turns come before its own
  than there are.
* `exact_iff` — the maps whose difference is complete.

Modelling notes. The maps have fewer than 2^31 entries (the counter is an `int`).
-/
import LinSocketIo.Base.OrderedMap
import Mathlib.Data.Finset.Card

namespace LinSocketIo.Utils

open LinSocketIo.Base

variable {K V : Type} [LinearOrder K]

namespace MapDiff

/-- The loop of `DiffNewOldMap`; what is left of the turns, of the maps and what has been found. -/
def diffLoop : Nat → List (K × V) → List (K × V) → List (K × V) → List (K × V) →
    List (K × V) × List (K × V)
  | 0, _, _, add, rem => (add, rem)
  | _ + 1, [], old, add, rem => (add, rem ++ old)
  | _ + 1, n :: new, [], add, rem => (add ++ n :: new, rem)
  | i + 1, n :: new, o :: old, add, rem =>
    if n.1 = o.1 then diffLoop i new old add rem
    else if n.1 > o.1 then diffLoop i (n :: new) old add (rem ++ [o])
    else diffLoop i new (o :: old) (add ++ [n]) rem

/-- `DiffNewOldMap`. -/
def diffNewOldMap (newMap oldMap : OrderedMap K V) (add rem : List (K × V)) :
    List (K × V) × List (K × V) :=
  let max :=
    if newMap.entries.length > oldMap.entries.length then newMap.entries.length
    else oldMap.entries.length
  diffLoop max newMap.entries oldMap.entries add rem

/-! ## The turns -/

/-- The keys whose turns come before that of `k`: those below it, up to the end of the map that
ends first. -/
def before (ks ls : List K) (k : K) : Finset K :=
  (ks ++ ls).toFinset.filter fun u => u < k ∧ (∃ n ∈ ks, u ≤ n) ∧ ∃ o ∈ ls, u ≤ o

theorem mem_before {ks ls : List K} {k u : K} : u ∈ before ks ls k ↔
    (u ∈ ks ∨ u ∈ ls) ∧ u < k ∧ (∃ n ∈ ks, u ≤ n) ∧ ∃ o ∈ ls, u ≤ o := by
  simp only [before, Finset.mem_filter, List.mem_toFinset, List.mem_append]

theorem before_eq_empty_of_nil_left (ls : List K) (k : K) : before [] ls k = ∅ :=
  Finset.eq_empty_of_forall_notMem fun _ hu => by
    obtain ⟨_, _, ⟨n, hn, _⟩, _⟩ := mem_before.mp hu
    exact absurd hn List.not_mem_nil

theorem before_eq_empty_of_nil_right (ks : List K) (k : K) : before ks [] k = ∅ :=
  Finset.eq_empty_of_forall_notMem fun _ hu => by
    obtain ⟨_, _, _, o, ho, _⟩ := mem_before.mp hu
    exact absurd ho List.not_mem_nil

/-- The least key has the first turn. -/
theorem before_eq_empty_of_le {ks ls : List K} {k : K} (hk : ∀ u, u ∈ ks ∨ u ∈ ls → k ≤ u) :
    before ks ls k = ∅ :=
  Finset.eq_empty_of_forall_notMem fun u hu => by
    obtain ⟨hmem, hlt, _⟩ := mem_before.mp hu
    exact absurd hlt (not_lt.mpr (hk u hmem))

/-- What a turn for the least key `h` leaves of one of the maps. -/
structure Advances (h : K) (ks ks' : List K) : Prop where
  above : ∀ u ∈ ks', h < u
  mem : ∀ u, h < u → (u ∈ ks ↔ u ∈ ks')
  least : ∀ u ∈ ks, h ≤ u
  more : ∃ n ∈ ks, h ≤ n

/-- The turn of a key above `h` comes one turn later than it will behind the turn of `h`. -/
theorem card_before {h k : K} {ks ks' ls ls' : List K} (hks : Advances h ks ks')
    (hls : Advances h ls ls') (hmem : h ∈ ks ∨ h ∈ ls) (hk : h < k) :
    (before ks ls k).card = (before ks' ls' k).card + 1 := by
  have hnot : h ∉ before ks' ls' k := fun hu => by
    rcases (mem_before.mp hu).1 with hu | hu
    · exact lt_irrefl h (hks.above h hu)
    · exact lt_irrefl h (hls.above h hu)
  have hinsert : before ks ls k = insert h (before ks' ls' k) := by
    ext u
    rw [Finset.mem_insert, mem_before, mem_before]
    have hreach {ms ms' : List K} (hms : Advances h ms ms') (hu : h < u) :
        (∃ n ∈ ms, u ≤ n) ↔ ∃ n ∈ ms', u ≤ n :=
      exists_congr fun n => and_congr_left fun hn => hms.mem n (lt_of_lt_of_le hu hn)
    rcases lt_trichotomy u h with hu | rfl | hu
    · refine iff_of_false (fun hleft => ?_) (fun hright => ?_)
      · rcases hleft.1 with hm | hm
        · exact absurd hu (not_lt.mpr (hks.least u hm))
        · exact absurd hu (not_lt.mpr (hls.least u hm))
      · rcases hright with rfl | ⟨hm | hm, -⟩
        · exact lt_irrefl u hu
        · exact lt_asymm hu (hks.above u hm)
        · exact lt_asymm hu (hls.above u hm)
    · exact iff_of_true ⟨hmem, hk, hks.more, hls.more⟩ (Or.inl rfl)
    · rw [hks.mem u hu, hls.mem u hu, hreach hks hu, hreach hls hu]
      exact ⟨Or.inr, fun hright => hright.resolve_left fun he => lt_irrefl h (he ▸ hu)⟩
  rw [hinsert, Finset.card_insert_of_notMem hnot]

/-! ## The loop -/

/-- An entry that the other map lacks, and whose turn comes within `i` turns. -/
def found (i : Nat) (ks ls other : List K) (e : K × V) : Bool :=
  decide (e.1 ∉ other ∧ (before ks ls e.1).card < i)

/-- Behind the turn of `h`, the entries above it have one turn less. -/
theorem filter_found {i : Nat} {h : K} {ks ks' ls ls' other other' : List K} {l : List (K × V)}
    (hks : Advances h ks ks') (hls : Advances h ls ls') (hmem : h ∈ ks ∨ h ∈ ls)
    (hl : ∀ e ∈ l, h < e.1) (hother : ∀ u, h < u → (u ∈ other ↔ u ∈ other')) :
    l.filter (found (i + 1) ks ls other) = l.filter (found i ks' ls' other') :=
  List.filter_congr fun e he => by
    simp only [found, card_before hks hls hmem (hl e he), Nat.add_lt_add_iff_right,
      hother e.1 (hl e he)]

/-- The map whose first entry has its turn. -/
theorem advances_pop {n : K × V} {new : List (K × V)}
    (hnew : (n :: new).Pairwise fun a b => a.1 < b.1) :
    Advances n.1 (keys (n :: new)) (keys new) := by
  have habove : ∀ u ∈ keys new, n.1 < u := fun u hu => by
    obtain ⟨e, he, rfl⟩ := List.mem_map.mp hu
    exact (List.pairwise_cons.mp hnew).1 e he
  refine ⟨habove, fun u hu => ?_, fun u hu => ?_, n.1, List.mem_cons_self, le_refl _⟩
  · exact ⟨fun h => (List.mem_cons.mp h).resolve_left (ne_of_gt hu), List.mem_cons_of_mem _⟩
  · rcases List.mem_cons.mp hu with rfl | hu
    · exact le_refl _
    · exact le_of_lt (habove u hu)

/-- The map that waits. -/
theorem advances_keep {h : K} {n : K × V} {new : List (K × V)}
    (hnew : (n :: new).Pairwise fun a b => a.1 < b.1) (hn : h < n.1) :
    Advances h (keys (n :: new)) (keys (n :: new)) := by
  have habove : ∀ u ∈ keys (n :: new), h < u := fun u hu =>
    lt_of_lt_of_le hn ((advances_pop hnew).least u hu)
  exact ⟨habove, fun _ _ => Iff.rfl, fun u hu => le_of_lt (habove u hu), n.1,
    List.mem_cons_self, le_of_lt hn⟩

theorem found_of_least {i : Nat} {ks ls other : List K} {e : K × V} (hother : e.1 ∉ other)
    (hleast : ∀ u, u ∈ ks ∨ u ∈ ls → e.1 ≤ u) : found (i + 1) ks ls other e = true := by
  simp only [found, before_eq_empty_of_le hleast, Finset.card_empty]
  exact decide_eq_true ⟨hother, Nat.succ_pos i⟩

/-- What the loop finds: the entries that the other map lacks, as far as its turns reach. -/
theorem diffLoop_eq : ∀ (i : Nat) (new old add rem : List (K × V)),
    (new.Pairwise fun a b => a.1 < b.1) → (old.Pairwise fun a b => a.1 < b.1) →
    diffLoop i new old add rem =
      (add ++ new.filter (found i (keys new) (keys old) (keys old)),
        rem ++ old.filter (found i (keys new) (keys old) (keys new)))
  | 0, new, old, add, rem, _, _ => by
      simp [diffLoop, found]
  | i + 1, [], old, add, rem, _, _ => by
      have hall : old.filter (found (i + 1) [] (keys old) []) = old :=
        List.filter_eq_self.mpr fun e _ => by
          simp [found, before_eq_empty_of_nil_left]
      simp [diffLoop, hall]
  | i + 1, n :: new, [], add, rem, _, _ => by
      have hall : (n :: new).filter (found (i + 1) (keys (n :: new)) [] []) = n :: new :=
        List.filter_eq_self.mpr fun e _ => by
          simp [found, before_eq_empty_of_nil_right]
      rw [diffLoop, keys_nil, hall]
      simp
  | i + 1, n :: new, o :: old, add, rem, hnew, hold => by
      have hnew' := List.pairwise_cons.mp hnew
      have hold' := List.pairwise_cons.mp hold
      have hpopn := advances_pop hnew
      have hpopo := advances_pop hold
      unfold diffLoop
      rcases lt_trichotomy n.1 o.1 with hlt | heq | hgt
      · -- The turn of an entry that only the new map has.
        have hkeep := advances_keep hold hlt
        have hmem : n.1 ∈ keys (n :: new) ∨ n.1 ∈ keys (o :: old) := Or.inl List.mem_cons_self
        have hfound : found (i + 1) (keys (n :: new)) (keys (o :: old)) (keys (o :: old)) n =
            true := found_of_least (fun h => lt_irrefl _ (hkeep.above _ h)) fun u hu =>
            hu.elim (hpopn.least u) (hkeep.least u)
        have habove : ∀ e ∈ o :: old, n.1 < e.1 := fun e he =>
          hkeep.above e.1 (List.mem_map_of_mem he)
        rw [if_neg (ne_of_lt hlt), if_neg (not_lt.mpr (le_of_lt hlt)),
          diffLoop_eq i new (o :: old) _ _ hnew'.2 hold, List.filter_cons_of_pos hfound,
          filter_found hpopn hkeep hmem hnew'.1 hkeep.mem,
          filter_found hpopn hkeep hmem habove hpopn.mem, List.append_assoc, List.singleton_append]
      · -- The turn of a key that both have.
        have hpopo' := heq ▸ hpopo
        have hmem : n.1 ∈ keys (n :: new) ∨ n.1 ∈ keys (o :: old) := Or.inl List.mem_cons_self
        have hnotn : ¬ found (i + 1) (keys (n :: new)) (keys (o :: old)) (keys (o :: old)) n =
            true := fun h => (of_decide_eq_true h).1 (heq ▸ List.mem_cons_self)
        have hnoto : ¬ found (i + 1) (keys (n :: new)) (keys (o :: old)) (keys (n :: new)) o =
            true := fun h => (of_decide_eq_true h).1 (heq ▸ List.mem_cons_self)
        rw [if_pos heq, diffLoop_eq i new old _ _ hnew'.2 hold'.2, List.filter_cons_of_neg hnotn,
          List.filter_cons_of_neg hnoto, filter_found hpopn hpopo' hmem hnew'.1 hpopo'.mem,
          filter_found hpopn hpopo' hmem (heq ▸ hold'.1) hpopn.mem]
      · -- The turn of an entry that only the old map has.
        have hkeep := advances_keep hnew hgt
        have hmem : o.1 ∈ keys (n :: new) ∨ o.1 ∈ keys (o :: old) := Or.inr List.mem_cons_self
        have hfound : found (i + 1) (keys (n :: new)) (keys (o :: old)) (keys (n :: new)) o =
            true := found_of_least (fun h => lt_irrefl _ (hkeep.above _ h)) fun u hu =>
            hu.elim (hkeep.least u) (hpopo.least u)
        have habove : ∀ e ∈ n :: new, o.1 < e.1 := fun e he =>
          hkeep.above e.1 (List.mem_map_of_mem he)
        rw [if_neg (ne_of_gt hgt), if_pos hgt, diffLoop_eq i (n :: new) old _ _ hnew hold'.2,
          List.filter_cons_of_pos hfound, filter_found hkeep hpopo hmem habove hpopo.mem,
          filter_found hkeep hpopo hmem hold'.1 hkeep.mem, List.append_assoc,
          List.singleton_append]

/-! ## The difference -/

/-- The entries of the first map whose keys the second one lacks, in the order of the keys. -/
def lacking (a b : OrderedMap K V) : List (K × V) :=
  a.entries.filter fun e => e.1 ∉ keys b.entries

/-- `DiffNewOldMap` appends the differences, all of them and nothing else. -/
def Exact (newMap oldMap : OrderedMap K V) : Prop :=
  ∀ add rem, diffNewOldMap newMap oldMap add rem =
    (add ++ lacking newMap oldMap, rem ++ lacking oldMap newMap)

/-- The turn of a key that one of the maps lacks is within the size of the larger map. -/
def Reached (newMap oldMap : OrderedMap K V) : Prop :=
  ∀ k, Xor (k ∈ keys newMap.entries) (k ∈ keys oldMap.entries) →
    (before (keys newMap.entries) (keys oldMap.entries) k).card <
      max newMap.entries.length oldMap.entries.length

theorem diffNewOldMap_eq (newMap oldMap : OrderedMap K V) (add rem : List (K × V)) :
    diffNewOldMap newMap oldMap add rem =
      diffLoop (max newMap.entries.length oldMap.entries.length) newMap.entries oldMap.entries
        add rem := by
  unfold diffNewOldMap
  by_cases h : newMap.entries.length > oldMap.entries.length
  · simp only [if_pos h, max_eq_left (le_of_lt h)]
  · simp only [if_neg h, max_eq_right (not_lt.mp h)]

/-- What both conditions leave is what one leaves, where the second follows. -/
theorem filter_and_eq_iff {α : Type} {l : List α} {p q : α → Prop} [DecidablePred p]
    [DecidablePred q] : l.filter (fun x => decide (p x ∧ q x)) = l.filter (fun x => p x) ↔
      ∀ x ∈ l, p x → q x := by
  constructor
  · intro h x hx hp
    have hmem : x ∈ l.filter fun x => decide (p x ∧ q x) :=
      h ▸ List.mem_filter.mpr ⟨hx, decide_eq_true hp⟩
    exact (of_decide_eq_true (List.mem_filter.mp hmem).2).2
  · intro h
    exact List.filter_congr fun x hx => decide_eq_decide.mpr (and_iff_left_of_imp (h x hx))

/-- The difference is complete just where every key that one map lacks has its turn. -/
theorem exact_iff (newMap oldMap : OrderedMap K V) :
    Exact newMap oldMap ↔ Reached newMap oldMap := by
  have hadd := filter_and_eq_iff (l := newMap.entries) (p := fun e => e.1 ∉ keys oldMap.entries)
    (q := fun e => (before (keys newMap.entries) (keys oldMap.entries) e.1).card <
      max newMap.entries.length oldMap.entries.length)
  have hrem := filter_and_eq_iff (l := oldMap.entries) (p := fun e => e.1 ∉ keys newMap.entries)
    (q := fun e => (before (keys newMap.entries) (keys oldMap.entries) e.1).card <
      max newMap.entries.length oldMap.entries.length)
  have hloop := fun add rem => (diffNewOldMap_eq newMap oldMap add rem).trans
    (diffLoop_eq _ newMap.entries oldMap.entries add rem newMap.ordered oldMap.ordered)
  constructor
  · intro h k hk
    have heq := (hloop [] []).symm.trans (h [] [])
    rcases hk with ⟨hnew, hold⟩ | ⟨hold, hnew⟩
    · obtain ⟨e, he, rfl⟩ := List.mem_map.mp hnew
      exact hadd.mp (congrArg Prod.fst heq) e he hold
    · obtain ⟨e, he, rfl⟩ := List.mem_map.mp hold
      exact hrem.mp (congrArg Prod.snd heq) e he hnew
  · intro h add rem
    rw [hloop add rem]
    refine Prod.ext (congrArg (add ++ ·) (hadd.mpr fun e he hlacks => ?_))
      (congrArg (rem ++ ·) (hrem.mpr fun e he hlacks => ?_))
    · exact h e.1 (Or.inl ⟨List.mem_map_of_mem he, hlacks⟩)
    · exact h e.1 (Or.inr ⟨List.mem_map_of_mem he, hlacks⟩)

/-- Two maps with one key each, and not the same: the old one is not reached. -/
theorem diff_misses_old : ¬ Exact (⟨[(1, 10)], List.pairwise_singleton ..⟩ : OrderedMap Nat Nat)
    ⟨[(2, 20)], List.pairwise_singleton ..⟩ := fun h =>
  absurd (h [] []) (by decide)

end MapDiff

end LinSocketIo.Utils
