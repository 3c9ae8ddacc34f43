/-
LinSocketIo.Log.LogFileTheorems — what the loops of `LogFile` compute.

The loop on the limit removes the first files of the history, as many as are over
the limit (`checkLimit_eq`). The loop of `renameFile` takes the first name in a
row that is free, or renames nothing (`renameLoop_cases`).
-/
import LinSocketIo.Log.LogFile

namespace LinSocketIo.Log

open LinSocketIo.Base

namespace Disk

variable {N : Type} [DecidableEq N] {d : Disk N}

/-- Many names go. -/
def unlinkAll (d : Disk N) : List N → Disk N
  | [] => d
  | n :: ns => (d.unlink n).unlinkAll ns

@[simp] theorem unlinkAll_inodes : ∀ (ns : List N) (d : Disk N), (d.unlinkAll ns).inodes = d.inodes
  | [], _ => rfl
  | n :: ns, d => unlinkAll_inodes ns (d.unlink n)

@[simp] theorem unlinkAll_next : ∀ (ns : List N) (d : Disk N), (d.unlinkAll ns).next = d.next
  | [], _ => rfl
  | n :: ns, d => unlinkAll_next ns (d.unlink n)

theorem unlink_links (d : Disk N) (n m : N) :
    (d.unlink n).links m = if m = n then none else d.links m :=
  Function.update_apply ..

/-- The names that go link to nothing, and the others to what they did. -/
theorem unlinkAll_links (m : N) : ∀ (ns : List N) (d : Disk N),
    (d.unlinkAll ns).links m = if m ∈ ns then none else d.links m
  | [], _ => rfl
  | n :: ns, d => by
      rw [unlinkAll, unlinkAll_links m ns, unlink_links]
      by_cases hm : m = n
      · simp only [hm, List.mem_cons_self, if_true, ite_self]
      · simp only [hm, if_false, List.mem_cons, false_or]

/-- To a name that is free, `rename` moves the file. -/
theorem rename_links {file target : N} {i : Nat} (hfile : d.links file = some i)
    (hfree : d.links target = none) (n : N) : (d.rename file target).links n =
      if n = file then none else if n = target then some i else d.links n := by
  have hne : d.links target ≠ some i := hfree ▸ (Option.some_ne_none i).symm
  simp only [rename, hfile, if_neg hne, Function.update_apply]

@[simp] theorem rename_inodes (d : Disk N) (file target : N) :
    (d.rename file target).inodes = d.inodes := by
  unfold rename
  split
  · rfl
  · split <;> rfl

@[simp] theorem rename_next (d : Disk N) (file target : N) :
    (d.rename file target).next = d.next := by
  unfold rename
  split
  · rfl
  · split <;> rfl

theorem append_of_some {n : N} {i : Nat} (h : d.links n = some i) (now : Int) :
    d.append n now = (i, d) := by
  unfold append
  rw [h]

end Disk

namespace LogFile

variable {N : Type} [DecidableEq N] (resolve : Path → N)

/-- How many files are over the limit. -/
def excess (s : LogFile N) (files : List Path) : Nat := files.length - s.fileLimit

/-- The loop on the limit. -/
theorem checkLimit_eq (rolling : Bool) : ∀ (files : List Path) (s : LogFile N),
    checkLimit resolve rolling s files =
      { s with
        hisFiles := files.drop (s.excess files)
        disk := s.disk.unlinkAll ((files.take (s.excess files)).map resolve)
        calls := s.calls ++ (files.take (s.excess files)).map (.remove rolling) }
  | [], s => by simp [checkLimit, Disk.unlinkAll]
  | file :: files, s => by
      unfold checkLimit
      by_cases h : s.fileLimit < (file :: files).length
      · have hover : s.excess (file :: files) = s.excess files + 1 := by
          simp only [excess, List.length_cons] at h ⊢
          omega
        have hremove : (s.remove resolve rolling file).excess files = s.excess files := rfl
        rw [if_pos h, checkLimit_eq rolling files, hremove, hover]
        simp only [remove, call, List.drop_succ_cons, List.take_succ_cons, List.map_cons,
          Disk.unlinkAll, List.append_assoc, List.singleton_append]
      · have hover : s.excess (file :: files) = 0 := by
          simp only [excess]
          omega
        rw [if_neg h, hover]
        simp [Disk.unlinkAll]

/-- `_fileCount` after some tries of `renameFile`. -/
def countAt (count : Nat) : Nat → Nat
  | 0 => count
  | k + 1 => countAt (toUInt32 (count + 1)) k

/-- The name that a try of `renameFile` looks at. -/
def targetAt (s : LogFile N) (k : Nat) : Path :=
  { s with fileCount := countAt s.fileCount k }.targetFile

/-- The log file gets a name. -/
def renamed (s : LogFile N) (k : Nat) : LogFile N :=
  { s with
    fileCount := countAt s.fileCount k
    disk := s.disk.rename (resolve s.defautFile) (resolve (s.targetAt k))
    hisFiles := s.hisFiles ++ [s.targetAt k] }.call (.rename s.defautFile (s.targetAt k))

/-- The loop of `renameFile` takes the first name that is free, if there is one. -/
theorem renameLoop_cases : ∀ (n : Nat) (s : LogFile N),
    (∃ k < n, s.disk.links (resolve (s.targetAt k)) = none ∧
      renameLoop resolve n s = s.renamed resolve k) ∨
    (∀ k < n, s.disk.links (resolve (s.targetAt k)) ≠ none) ∧
      renameLoop resolve n s = { s with fileCount := countAt s.fileCount n }
  | 0, s => Or.inr ⟨fun _ h => absurd h (Nat.not_lt_zero _), rfl⟩
  | n + 1, s => by
      unfold renameLoop
      by_cases hfree : s.disk.links (resolve s.targetFile) = none
      · exact Or.inl ⟨0, Nat.succ_pos n, hfree, if_pos hfree⟩
      · rw [if_neg hfree]
        rcases renameLoop_cases n { s with fileCount := toUInt32 (s.fileCount + 1) } with
          ⟨k, hk, hlinks, heq⟩ | ⟨htaken, heq⟩
        · exact Or.inl ⟨k + 1, Nat.succ_lt_succ hk, hlinks, heq⟩
        · refine Or.inr ⟨fun k hk => ?_, heq⟩
          cases k with
          | zero => exact hfree
          | succ k => exact htaken k (Nat.lt_of_succ_lt_succ hk)

end LogFile

end LinSocketIo.Log
