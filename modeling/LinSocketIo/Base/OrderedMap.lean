/-
LinSocketIo.Base.OrderedMap — maps as the lists of their entries in the order of
the keys, which is how a `std::map` is gone through.

The order of the entries is a field, so that a map is its list, and two maps with
the same entries are the same.

* `find_insert` — what is found behind an insertion.
* `insertAll_entries` — the entries of a map, inserted one by one, give the map.
-/
import Mathlib.Order.Lattice
import Mathlib.Data.List.Basic

namespace LinSocketIo.Base

variable {K V : Type}

/-- The keys of some entries. -/
def keys (entries : List (K × V)) : List K := entries.map Prod.fst

@[simp] theorem keys_nil : keys ([] : List (K × V)) = [] := rfl

variable [LinearOrder K]

/-- A `std::map`. -/
@[ext] structure OrderedMap (K V : Type) [LinearOrder K] where
  entries : List (K × V)
  ordered : entries.Pairwise fun a b => a.1 < b.1
deriving DecidableEq

namespace OrderedMap

/-- The map without entries. -/
def empty : OrderedMap K V := ⟨[], List.Pairwise.nil⟩

/-- An entry gets its place, or takes that of its key. -/
def insertEntry (k : K) (v : V) : List (K × V) → List (K × V)
  | [] => [(k, v)]
  | e :: entries =>
    if k < e.1 then (k, v) :: e :: entries
    else if k = e.1 then (k, v) :: entries
    else e :: insertEntry k v entries

theorem mem_insertEntry {k : K} {v : V} {e : K × V} {entries : List (K × V)}
    (h : e ∈ insertEntry k v entries) : e = (k, v) ∨ e ∈ entries := by
  induction entries with
  | nil => exact Or.inl (List.mem_singleton.mp h)
  | cons d entries ih =>
      unfold insertEntry at h
      split at h
      · exact List.mem_cons.mp h
      · split at h
        · exact (List.mem_cons.mp h).imp_right (List.mem_cons_of_mem d)
        · rcases List.mem_cons.mp h with rfl | h
          · exact Or.inr List.mem_cons_self
          · exact (ih h).imp_right (List.mem_cons_of_mem d)

theorem insertEntry_ordered (k : K) (v : V) {entries : List (K × V)}
    (h : entries.Pairwise fun a b => a.1 < b.1) :
    (insertEntry k v entries).Pairwise fun a b => a.1 < b.1 := by
  induction entries with
  | nil => exact List.pairwise_singleton _ _
  | cons d entries ih =>
      obtain ⟨hd, hentries⟩ := List.pairwise_cons.mp h
      unfold insertEntry
      by_cases hlt : k < d.1
      · rw [if_pos hlt]
        refine List.pairwise_cons.mpr ⟨fun e he => ?_, h⟩
        rcases List.mem_cons.mp he with rfl | he
        · exact hlt
        · exact lt_trans hlt (hd e he)
      · rw [if_neg hlt]
        by_cases heq : k = d.1
        · rw [if_pos heq]
          exact List.pairwise_cons.mpr ⟨fun e he => heq ▸ hd e he, hentries⟩
        · rw [if_neg heq]
          refine List.pairwise_cons.mpr ⟨fun e he => ?_, ih hentries⟩
          rcases mem_insertEntry he with rfl | he
          · exact lt_of_le_of_ne (not_lt.mp hlt) (Ne.symm heq)
          · exact hd e he

/-- `m[k] = v`. -/
def insert (m : OrderedMap K V) (k : K) (v : V) : OrderedMap K V :=
  ⟨insertEntry k v m.entries, insertEntry_ordered k v m.ordered⟩

/-- `m.find(k)`. -/
def find (m : OrderedMap K V) (k : K) : Option V :=
  (m.entries.find? fun e => e.1 = k).map Prod.snd

theorem find?_insertEntry (k k' : K) (v : V) (entries : List (K × V)) :
    ((insertEntry k v entries).find? fun e => e.1 = k').map Prod.snd =
      if k' = k then some v else (entries.find? fun e => e.1 = k').map Prod.snd := by
  induction entries with
  | nil =>
      by_cases h : k' = k
      · simp [insertEntry, h]
      · simp [insertEntry, h, Ne.symm h]
  | cons d entries ih =>
      unfold insertEntry
      by_cases h : k' = k
      · subst h
        rw [if_pos rfl] at ih ⊢
        split
        · simp
        · rename_i hlt
          split
          · simp
          · rename_i hne
            rw [List.find?_cons_of_neg (by simpa using Ne.symm hne), ih]
      · rw [if_neg h] at ih ⊢
        split
        · rw [List.find?_cons_of_neg (by simpa using Ne.symm h)]
        · split
          · rename_i heq
            rw [List.find?_cons_of_neg (by simpa using Ne.symm h),
              List.find?_cons_of_neg (by simpa [← heq] using Ne.symm h)]
          · by_cases hd : d.1 = k'
            · rw [List.find?_cons_of_pos (by simpa using hd),
                List.find?_cons_of_pos (by simpa using hd)]
            · rw [List.find?_cons_of_neg (by simpa using hd),
                List.find?_cons_of_neg (by simpa using hd), ih]

theorem find_insert (m : OrderedMap K V) (k k' : K) (v : V) :
    (m.insert k v).find k' = if k' = k then some v else m.find k' :=
  find?_insertEntry k k' v m.entries

/-! ## Many entries -/

/-- Entries are inserted one after the other. -/
def insertAll (m : OrderedMap K V) (entries : List (K × V)) : OrderedMap K V :=
  entries.foldl (fun m e => m.insert e.1 e.2) m

@[simp] theorem insertAll_nil (m : OrderedMap K V) : m.insertAll [] = m := rfl

@[simp] theorem insertAll_cons (m : OrderedMap K V) (e : K × V) (entries : List (K × V)) :
    m.insertAll (e :: entries) = (m.insert e.1 e.2).insertAll entries := rfl

/-- Behind all keys there is room at the end. -/
theorem insertEntry_of_lt {k : K} {v : V} {entries : List (K × V)}
    (h : ∀ e ∈ entries, e.1 < k) : insertEntry k v entries = entries ++ [(k, v)] := by
  induction entries with
  | nil => rfl
  | cons d entries ih =>
      have hd := h d List.mem_cons_self
      rw [insertEntry, if_neg (not_lt.mpr (le_of_lt hd)), if_neg (ne_of_gt hd),
        ih fun e he => h e (List.mem_cons_of_mem d he)]
      rfl

/-- Entries in order come behind those that are there. -/
theorem insertAll_entries_of_ordered (entries : List (K × V)) (m : OrderedMap K V)
    (h : (m.entries ++ entries).Pairwise fun a b => a.1 < b.1) :
    (m.insertAll entries).entries = m.entries ++ entries := by
  induction entries generalizing m with
  | nil => exact (List.append_nil _).symm
  | cons e entries ih =>
      have hlt : ∀ d ∈ m.entries, d.1 < e.1 := fun d hd =>
        (List.pairwise_append.mp h).2.2 d hd e List.mem_cons_self
      have hinsert : (m.insert e.1 e.2).entries = m.entries ++ [e] := insertEntry_of_lt hlt
      have hmoved : ((m.insert e.1 e.2).entries ++ entries).Pairwise fun a b => a.1 < b.1 := by
        rw [hinsert, List.append_assoc, List.singleton_append]
        exact h
      rw [insertAll_cons, ih _ hmoved, hinsert, List.append_assoc, List.singleton_append]

/-- The entries of a map give the map. -/
theorem insertAll_entries (m : OrderedMap K V) : (empty : OrderedMap K V).insertAll m.entries = m :=
  OrderedMap.ext (insertAll_entries_of_ordered m.entries empty m.ordered)

end OrderedMap

end LinSocketIo.Base
