/-
LinSocketIo.Utils.StringHelper — `Split` and `Replace` of
`utils/string_helper.h`, and that they go by the same pieces.

`Split` leaves the string alone and moves a position; `Replace` writes into the
string, and goes on behind what it wrote, so that it never looks into a copy
of `dst`.

* `split_replace` — the pieces that `Split` returns, and what `Replace` makes of
  them.

Modelling notes. A string is its bytes. `npos` is `none`. A loop gets more turns
than the string has bytes, and `none` says that they were too few. `src` and `dst`
are values: a call of `Replace` whose `src` or `dst` is the string that it writes
into is left out.
-/
import LinSocketIo.Base.Separators

namespace LinSocketIo.Utils.StrHelper

open LinSocketIo.Base

abbrev Str := List UInt8

/-- `substr`. -/
def substr (data : Str) (pos n : Nat) : Str := (data.drop pos).take n

/-- The loop of `Split`; `width` is the size of the separator. -/
def splitLoop (data : Str) (find : Nat → Option Nat) (width : Nat) :
    Nat → Nat → Option Nat → List Str → Option (List Str)
  | _, cur, none, vec => some (vec ++ [substr data cur (data.length - cur)])
  | 0, _, some _, _ => none
  | fuel + 1, cur, some pos, vec =>
    let s := substr data cur (pos - cur)
    let cur := pos + width
    splitLoop data find width fuel cur (find cur) (vec ++ [s])

/-- `Split(data, ch)`. -/
def splitChar (data : Str) (ch : UInt8) : Option (List Str) :=
  if data = [] ∨ ch = 0 then some []
  else splitLoop data (findAt data [ch]) 1 (data.length + 1) 0 (findAt data [ch] 0) []

/-- `Split(data, str)`. -/
def split (data str : Str) : Option (List Str) :=
  if data = [] ∨ str = [] then some []
  else splitLoop data (findAt data str) str.length (data.length + 1) 0 (findAt data str 0) []

/-- The loop of `Replace`. -/
def replaceLoop (src dst : Str) : Nat → Str → Option Nat → Option Str
  | _, data, none => some data
  | 0, _, some _ => none
  | fuel + 1, data, some pos =>
    let data := data.take pos ++ dst ++ data.drop (pos + src.length)
    replaceLoop src dst fuel data (findAt data src (pos + dst.length))

/-- `Replace(data, src, dst)`. -/
def replace (data src dst : Str) : Option Str :=
  if src = dst ∨ src = [] then some data
  else replaceLoop src dst (data.length + 1) data (findAt data src 0)

/-! ## The loops -/

/-- The loop of `Split` behind what it is done with. -/
theorem splitLoop_eq {s : Str} : ∀ {rest : Str} {ps : List Str}, Splits s rest ps →
    ∀ (front : Str) (fuel : Nat) (vec : List Str), ps.length ≤ fuel + 1 →
      splitLoop (front ++ rest) (findAt (front ++ rest) s) s.length fuel front.length
        (findAt (front ++ rest) s front.length) vec = some (vec ++ ps) := by
  intro rest ps h
  induction h with
  | @last rest hnone =>
      intro front fuel vec _
      rw [findAt_append, hnone, Option.map_none]
      simp only [splitLoop, substr, List.drop_left, List.length_append, Nat.add_sub_cancel_left,
        List.take_length]
  | @cons piece rest ps hfirst hps ih =>
      intro front fuel vec hfuel
      have hpos := List.length_pos_iff.mpr hps.ne_nil
      rw [List.length_cons] at hfuel
      obtain ⟨n, rfl⟩ : ∃ n, fuel = n + 1 := ⟨fuel - 1, by omega⟩
      rw [findAt_append, hfirst, Option.map_some, splitLoop]
      have hpiece : substr (front ++ (piece ++ s ++ rest)) front.length
          (front.length + piece.length - front.length) = piece := by
        rw [substr, List.drop_left, Nat.add_sub_cancel_left, List.append_assoc, List.take_left]
      have hfront : (front ++ piece ++ s).length = front.length + piece.length + s.length := by
        simp only [List.length_append]
      have hdata : front ++ (piece ++ s ++ rest) = front ++ piece ++ s ++ rest := by
        simp only [List.append_assoc]
      rw [hpiece, hdata, ← hfront, ih (front ++ piece ++ s) n (vec ++ [piece]) (by omega),
        List.append_assoc, List.singleton_append]

/-- The loop of `Replace` behind what it has written. -/
theorem replaceLoop_eq {s dst : Str} : ∀ {rest : Str} {ps : List Str}, Splits s rest ps →
    ∀ (front : Str) (fuel : Nat), ps.length ≤ fuel + 1 →
      replaceLoop s dst fuel (front ++ rest) (findAt (front ++ rest) s front.length) =
        some (front ++ dst.intercalate ps) := by
  intro rest ps h
  induction h with
  | @last rest hnone =>
      intro front fuel _
      rw [findAt_append, hnone, Option.map_none, replaceLoop, List.intercalate_singleton]
  | @cons piece rest ps hfirst hps ih =>
      intro front fuel hfuel
      have hpos := List.length_pos_iff.mpr hps.ne_nil
      rw [List.length_cons] at hfuel
      obtain ⟨n, rfl⟩ : ∃ n, fuel = n + 1 := ⟨fuel - 1, by omega⟩
      rw [findAt_append, hfirst, Option.map_some, replaceLoop]
      have hdone : (front ++ piece).length = front.length + piece.length := List.length_append
      have hdata : front ++ (piece ++ s ++ rest) = front ++ piece ++ (s ++ rest) := by
        simp only [List.append_assoc]
      have hnext : (front ++ (piece ++ s ++ rest)).take (front.length + piece.length) ++ dst ++
          (front ++ (piece ++ s ++ rest)).drop (front.length + piece.length + s.length) =
          front ++ piece ++ dst ++ rest := by
        rw [hdata, ← hdone, List.take_left, ← List.drop_drop, List.drop_left, List.drop_left]
      have hfront : (front ++ piece ++ dst).length = front.length + piece.length + dst.length := by
        simp only [List.length_append]
      simp only [hnext]
      rw [← hfront, ih (front ++ piece ++ dst) n (by omega),
        List.intercalate_cons_of_ne_nil hps.ne_nil]
      simp only [List.append_assoc]

/-! ## The pieces -/

/-- The pieces of a string: none contains the separator, and with it in between they are the
string. -/
structure Pieces (s data : Str) (ps : List Str) : Prop where
  clean : ∀ p ∈ ps, ¬ s <:+: p
  joined : s.intercalate ps = data

theorem pieces_of_splits {s data : Str} {ps : List Str} (hs : s ≠ []) (h : Splits s data ps) :
    Pieces s data ps := ⟨h.not_infix hs, h.intercalate_eq⟩

theorem split_eq {s data : Str} {ps : List Str} (hdata : data ≠ []) (hs : s ≠ [])
    (h : Splits s data ps) (hcount : ps.length ≤ data.length + 1) : split data s = some ps := by
  rw [split, if_neg (not_or.mpr ⟨hdata, hs⟩)]
  exact splitLoop_eq h [] (data.length + 1) [] (by omega)

/-- The two forms of `Split` agree. -/
theorem splitChar_eq_split (data : Str) {ch : UInt8} (hch : ch ≠ 0) :
    splitChar data ch = split data [ch] := by
  rw [splitChar, split]
  simp only [hch, List.cons_ne_nil, List.length_singleton]

theorem replace_eq {s data : Str} {ps : List Str} (hs : s ≠ []) (h : Splits s data ps)
    (hcount : ps.length ≤ data.length + 1) (dst : Str) :
    replace data s dst = some (dst.intercalate ps) := by
  unfold replace
  by_cases hdst : s = dst
  · rw [if_pos (Or.inl hdst), ← hdst, h.intercalate_eq]
  · rw [if_neg (not_or.mpr ⟨hdst, hs⟩)]
    exact replaceLoop_eq h [] (data.length + 1) (by omega)

/-- `Split` returns the pieces of a string, in both forms, and `Replace` joins the same pieces
with `dst`, whatever `dst` is. -/
theorem split_replace {data : Str} (hdata : data ≠ []) :
    (∀ s, s ≠ [] → ∃ ps, split data s = some ps ∧ Pieces s data ps ∧
      ∀ dst, replace data s dst = some (dst.intercalate ps)) ∧
    ∀ ch, ch ≠ 0 → ∃ ps, splitChar data ch = some ps ∧ Pieces [ch] data ps := by
  have hsplit (s : Str) (hs : s ≠ []) : ∃ ps, split data s = some ps ∧ Pieces s data ps ∧
      ∀ dst, replace data s dst = some (dst.intercalate ps) := by
    obtain ⟨ps, hps, hcount⟩ := Splits.exists_pieces hs data.length data (Nat.le_refl _)
    exact ⟨ps, split_eq hdata hs hps hcount, pieces_of_splits hs hps, replace_eq hs hps hcount⟩
  refine ⟨hsplit, fun ch hch => ?_⟩
  obtain ⟨ps, hps, hpieces, -⟩ := hsplit [ch] (List.cons_ne_nil _ _)
  exact ⟨ps, (splitChar_eq_split data hch).trans hps, hpieces⟩

/-- A separator that overlaps itself, and a `dst` that contains it: `aaab` at `aa`. -/
theorem split_replace_overlap : split [97, 97, 97, 98] [97, 97] = some [[], [97, 98]] ∧
    replace [97, 97, 97, 98] [97, 97] [97, 97, 97] = some [97, 97, 97, 97, 98] := by
  have hdata : ([97, 97, 97, 98] : Str) ≠ [] := List.cons_ne_nil _ _
  obtain ⟨ps, hsplit, -, hreplace⟩ := (split_replace hdata).1 [97, 97] (List.cons_ne_nil _ _)
  have hps : split [97, 97, 97, 98] [97, 97] = some [[], [97, 98]] := by decide
  obtain rfl := Option.some.inj (hps.symm.trans hsplit)
  exact ⟨hps, hreplace [97, 97, 97]⟩

end LinSocketIo.Utils.StrHelper
