/-
LinSocketIo.Log.Retention — which files `LogFile` removes.

`Allowed` says when `LogFile` may make a call, in terms of the disk, the log
directory, the name of the log file and the date, the file that is open, the limit
and the history alone. Each step of the code makes only calls that are allowed
(`step_obeys`), and so does a run. From this:

* `retention` — the history is a queue of the files that scans found and of the
  targets of the renames, and what is removed comes from its front; a name
  whose file was there at the start is still the same file's, unless it was
  removed or was that of a log file that was renamed.

A scan puts every regular file of the log directory into the history whose name
does not begin with a dot, whoever wrote it.
-/
import LinSocketIo.Base.Trace
import LinSocketIo.Log.LogFileTheorems

namespace LinSocketIo.Log

open LinSocketIo.Base

/-- What decides which files are removed. -/
structure Keeper (N : Type) where
  disk : Disk N
  /-- The log directory. -/
  path : Path
  /-- The log file without `.log`. -/
  name : Path
  date : Path
  /-- The file that is open. -/
  fp : Option Nat
  limit : Nat
  history : List Path

namespace Keeper

variable {N : Type} [DecidableEq N] (resolve : Path → N)

/-- A scan of the log directory finds a file with its time: it is a regular one, and its name
does not begin with a dot. -/
def Finds (a : Keeper N) (file : Int × Path) : Prop :=
  ∃ name i, file.2 = a.path ++ "/".toList ++ name ∧ name.head? ≠ some '.' ∧
    a.disk.links (resolve file.2) = some i ∧ (a.disk.inodes i).regular = true ∧
    (a.disk.inodes i).mtime = file.1

/-- The log file. -/
def logFile (a : Keeper N) : Path := a.name ++ ".log".toList

/-- The name that a roll gives to the log file. -/
def rollName (a : Keeper N) (count : Nat) : Path :=
  a.name ++ "-".toList ++ a.date ++ "-".toList ++ Nat.toDigits 10 count ++ ".log".toList

/-- The calls that are allowed, and what they do. -/
inductive Allowed : Keeper N → Call → Keeper N → Prop where
  | limit {a : Keeper N} {n : Nat} : 0 < n → n < 1000 → Allowed a (.limit n) { a with limit := n }
  | path {a : Keeper N} {dir : Path} : Allowed a (.path dir) { a with path := dir }
  /-- The log file is to be one of the log directory. -/
  | name {a : Keeper N} {file : Path} :
      Allowed a (.name (a.path ++ "/".toList ++ file))
        { a with name := a.path ++ "/".toList ++ file }
  | date {a : Keeper N} {today : Path} : Allowed a (.date today) { a with date := today }
  /-- A scan of the log directory puts what it finds behind the history, the oldest files
  first. -/
  | scanned {a : Keeper N} {files : List (Int × Path)} :
      (∀ file ∈ files, a.Finds resolve file) → files.Pairwise (fun f g => f.1 ≤ g.1) →
      Allowed a (.scanned a.path files) { a with history := a.history ++ files.map Prod.snd }
  /-- The log file, when it is closed, gets a name that no file has, and comes last. -/
  | rename {a : Keeper N} {count : Nat} : a.fp = none →
      a.disk.links (resolve (a.rollName count)) = none →
      Allowed a (.rename a.logFile (a.rollName count))
        { a with
          disk := a.disk.rename (resolve a.logFile) (resolve (a.rollName count))
          history := a.history ++ [a.rollName count] }
  /-- The first file of the history goes while there are too many; in a roll, none is open. -/
  | remove {a : Keeper N} {rolling : Bool} {file : Path} {files : List Path} :
      a.history = file :: files → a.limit < a.history.length → (rolling = true → a.fp = none) →
      Allowed a (.remove rolling file)
        { a with disk := a.disk.unlink (resolve file), history := files }
  | fclose {a : Keeper N} : Allowed a .fclose { a with fp := none }
  | fopen {a : Keeper N} {now : Int} : a.fp = none →
      Allowed a (.fopen a.logFile now)
        { a with
          fp := some (a.disk.append (resolve a.logFile) now).1
          disk := (a.disk.append (resolve a.logFile) now).2 }
  | fwrite {a : Keeper N} {i : Nat} {data : List UInt8} {now : Int} : a.fp = some i →
      Allowed a (.fwrite data now) { a with disk := a.disk.write i data now }

/-- The files that go behind the history in a call. -/
def entered : Call → List Path
  | .scanned _ files => files.map Prod.snd
  | .rename _ target => [target]
  | .limit _ | .path _ | .name _ | .date _ | .remove .. | .fclose | .fopen .. | .fwrite .. => []

/-- The files that leave it. -/
def removed : Call → List Path
  | .remove _ file => [file]
  | .limit _ | .path _ | .name _ | .date _ | .scanned .. | .rename .. | .fclose | .fopen ..
  | .fwrite .. => []

/-- The names that a call takes a file away from. -/
def taken : Call → List Path
  | .remove _ file | .rename file _ => [file]
  | .limit _ | .path _ | .name _ | .date _ | .scanned .. | .fclose | .fopen .. | .fwrite .. => []

variable {resolve} {a b : Keeper N} {calls : List Call}

/-- The history is a queue. -/
theorem queue_of_run (h : RelRun (Allowed resolve) a calls b) :
    a.history ++ calls.flatMap entered = calls.flatMap removed ++ b.history := by
  refine relRun_queue (fun (a : Keeper N) c (b : Keeper N) hc => ?_) h
  cases hc with
  | limit => simp [entered, removed]
  | path => simp [entered, removed]
  | name => simp [entered, removed]
  | date => simp [entered, removed]
  | scanned => simp [entered, removed]
  | rename => simp [entered, removed]
  | remove hhistory => simp [entered, removed, hhistory]
  | fclose => simp [entered, removed]
  | fopen => simp [entered, removed]
  | fwrite => simp [entered, removed]

/-- A name keeps its file in a call that does not take it away. -/
theorem links_of_allowed {n : N} {i : Nat} {c : Call} (h : Allowed resolve a c b)
    (hn : a.disk.links n = some i) (htaken : ∀ p ∈ taken c, resolve p ≠ n) :
    b.disk.links n = some i := by
  cases h with
  | limit => exact hn
  | path => exact hn
  | name => exact hn
  | date => exact hn
  | scanned => exact hn
  | @rename count _ hfree =>
      have hfile : n ≠ resolve a.logFile := (htaken a.logFile List.mem_cons_self).symm
      have htarget : n ≠ resolve (a.rollName count) := fun he => by
        rw [he, hfree] at hn
        cases hn
      cases hlinks : a.disk.links (resolve a.logFile) with
      | none =>
          simp only [Disk.rename, hlinks]
          exact hn
      | some j =>
          refine (Disk.rename_links hlinks hfree n).trans ?_
          rw [if_neg hfile, if_neg htarget, hn]
  | @remove _ file _ _ _ _ =>
      refine (Disk.unlink_links a.disk (resolve file) n).trans ?_
      rw [if_neg (htaken file List.mem_cons_self).symm, hn]
  | fclose => exact hn
  | fopen =>
      simp only [Disk.append]
      cases hlinks : a.disk.links (resolve a.logFile) with
      | some j => exact hn
      | none =>
          have hne : n ≠ resolve a.logFile := fun he => by
            rw [he, hlinks] at hn
            cases hn
          exact (Function.update_of_ne hne _ _).trans hn
  | fwrite => exact hn

theorem links_of_run {n : N} {i : Nat} (h : RelRun (Allowed resolve) a calls b)
    (hn : a.disk.links n = some i) (htaken : ∀ p ∈ calls.flatMap taken, resolve p ≠ n) :
    b.disk.links n = some i := by
  refine (relRun_invariant (P := fun (a : Keeper N) (cs : List Call) => a.disk.links n = some i ∧
    ∀ p ∈ cs.flatMap taken, resolve p ≠ n) (fun a c cs b hc hp => ?_) h ⟨hn, htaken⟩).1
  have hcs := fun p hp' => hp.2 p (List.flatMap_cons ▸ List.mem_append_right _ hp')
  have hc' := fun p hp' => hp.2 p (List.flatMap_cons ▸ List.mem_append_left _ hp')
  exact ⟨links_of_allowed hc hp.1 hc', hcs⟩

end Keeper

namespace LogFile

open Keeper

variable {N : Type} [DecidableEq N] (resolve : Path → N)

/-- What of a `LogFile` decides which files are removed. -/
def keeper (s : LogFile N) : Keeper N :=
  ⟨s.disk, s.filePath, s.fileName, s.date, s.fp, s.fileLimit, s.hisFiles⟩

/-- From `s` to `t`, only calls are made that are allowed. -/
def Obeys (s t : LogFile N) : Prop :=
  ∃ calls, t.calls = s.calls ++ calls ∧ RelRun (Allowed resolve) s.keeper calls t.keeper

variable {resolve} {s t u : LogFile N}

theorem Obeys.trans (h : Obeys resolve s t) (h' : Obeys resolve t u) : Obeys resolve s u := by
  obtain ⟨cs, hcs, hrun⟩ := h
  obtain ⟨ds, hds, hrun'⟩ := h'
  exact ⟨cs ++ ds, by rw [hds, hcs, List.append_assoc], relRun_append hrun hrun'⟩

/-- What concerns no file. -/
theorem obeys_of_eq (hcalls : t.calls = s.calls) (hkeeper : t.keeper = s.keeper) :
    Obeys resolve s t := ⟨[], by rw [hcalls, List.append_nil], hkeeper.symm⟩

/-- One call. -/
theorem obeys_call {c : Call} (hcalls : t.calls = s.calls ++ [c])
    (hallowed : Allowed resolve s.keeper c t.keeper) : Obeys resolve s t :=
  ⟨[c], hcalls, relRun_single hallowed⟩

/-! ## The loops -/

/-- The files over the limit go one by one. -/
theorem removes {rolling : Bool} {rest : List Path} : ∀ {files : List Path} {a : Keeper N},
    a.history = files ++ rest → (files ≠ [] → a.limit ≤ rest.length) →
    (rolling = true → a.fp = none) →
    RelRun (Allowed resolve) a (files.map (.remove rolling))
      { a with disk := a.disk.unlinkAll (files.map resolve), history := rest }
  | [], a, hhistory, _, _ => by
      have heq : a.history = rest := hhistory
      subst heq
      rfl
  | file :: files, a, hhistory, hlimit, hopen => by
      have hle := hlimit (List.cons_ne_nil _ _)
      have hover : a.limit < a.history.length := by
        rw [hhistory, List.length_append, List.length_cons]
        omega
      exact ⟨_, .remove hhistory hover hopen, removes rfl (fun _ => hle) hopen⟩

theorem checkLimit_obeys {rolling : Bool} (hopen : rolling = true → s.fp = none) :
    Obeys resolve s (checkLimit resolve rolling s s.hisFiles) := by
  rw [checkLimit_eq]
  refine ⟨_, rfl, removes (List.take_append_drop _ _).symm (fun hne => ?_) hopen⟩
  have hpos : 0 < s.excess s.hisFiles := by
    rcases Nat.eq_zero_or_pos (s.excess s.hisFiles) with h | h
    · rw [h, List.take_zero] at hne
      exact absurd rfl hne
    · exact h
  rw [List.length_drop]
  unfold excess at hpos ⊢
  simp only [keeper]
  omega

theorem renameFile_obeys (hclosed : s.fp = none) : Obeys resolve s (s.renameFile resolve) := by
  unfold renameFile
  generalize 1000 = n
  rcases renameLoop_cases resolve n s with ⟨k, _, hfree, heq⟩ | ⟨_, heq⟩
  · rw [heq]
    have hrename : Obeys resolve s (s.renamed resolve k) :=
      obeys_call rfl (@Allowed.rename _ _ _ s.keeper (countAt s.fileCount k) hclosed hfree)
    exact hrename.trans (checkLimit_obeys fun _ => hclosed)
  · rw [heq]
    have hcount : Obeys resolve s { s with fileCount := countAt s.fileCount n } :=
      obeys_of_eq rfl rfl
    exact hcount.trans (checkLimit_obeys fun _ => hclosed)

/-! ## The operations -/

theorem fopen_obeys (hclosed : s.fp = none) (now : Int) (opens : Bool) :
    Obeys resolve s (s.fopen resolve now opens) := by
  unfold fopen
  cases opens with
  | true => exact obeys_call rfl (.fopen hclosed)
  | false => exact obeys_of_eq rfl rfl

theorem renameFile_fp (s : LogFile N) : (s.renameFile resolve).fp = s.fp := by
  unfold renameFile
  generalize 1000 = n
  simp only [checkLimit_eq]
  rcases renameLoop_cases resolve n s with ⟨k, _, _, heq⟩ | ⟨_, heq⟩
  · rw [heq]
    rfl
  · rw [heq]

theorem rollFile_obeys (s : LogFile N) (flag : RollType) (now : Int) (opens : Bool) :
    Obeys resolve s (s.rollFile resolve flag now opens) := by
  have hclose : Obeys resolve s ({ s with fp := none }.call .fclose) := obeys_call rfl .fclose
  have hrenamed : Obeys resolve s
      ((({ s with fp := none }.call .fclose).renameFile resolve).fopen resolve now opens) :=
    (hclose.trans (renameFile_obeys rfl)).trans (fopen_obeys (renameFile_fp _) now opens)
  cases flag with
  | fileName => exact hclose.trans (fopen_obeys rfl now opens)
  | fileDate => exact hrenamed
  | fileSize => exact hrenamed

omit [DecidableEq N] in
theorem stat_finds {de : Dirent} {file : Int × Path} (h : s.stat resolve de = some file) :
    s.keeper.Finds resolve file := by
  unfold stat at h
  split at h
  · cases h
  · rename_i hname
    dsimp only at h
    split at h
    · cases h
    · rename_i i hlinks
      split at h
      · rename_i hregular
        obtain rfl := Option.some.inj h
        exact ⟨de.d_name, i, rfl, (not_or.mp hname).2, hlinks, hregular, rfl⟩
      · cases h

theorem scanFiles_obeys (s : LogFile N) (dir : Option (List Dirent)) :
    Obeys resolve s (s.scanFiles resolve dir) := by
  cases dir with
  | none => exact obeys_of_eq rfl rfl
  | some des =>
      simp only [scanFiles]
      have hfinds : ∀ file ∈ (des.filterMap (s.stat resolve)).insertionSort fun a b => a.1 ≤ b.1,
          s.keeper.Finds resolve file := fun file hfile => by
        have hmem := (List.perm_insertionSort _ _).mem_iff.mp hfile
        obtain ⟨de, -, hde⟩ := List.mem_filterMap.mp hmem
        exact stat_finds hde
      have hsorted : ((des.filterMap (s.stat resolve)).insertionSort
          fun a b => a.1 ≤ b.1).Pairwise fun f g => f.1 ≤ g.1 := by
        have : Std.Total fun a b : Int × Path => a.1 ≤ b.1 := ⟨fun a b => le_total a.1 b.1⟩
        have : IsTrans (Int × Path) fun a b => a.1 ≤ b.1 := ⟨fun _ _ _ => le_trans⟩
        exact List.pairwise_insertionSort _ _
      generalize (des.filterMap (s.stat resolve)).insertionSort (fun a b => a.1 ≤ b.1) = files
        at hfinds hsorted
      have hscan : Obeys resolve s ({ s with hisFiles := s.hisFiles ++ files.map Prod.snd }.call
          (.scanned s.filePath files)) := obeys_call rfl (.scanned hfinds hsorted)
      exact hscan.trans (checkLimit_obeys fun h => by cases h)

theorem setLogPath_obeys (s : LogFile N) (path : Path) (mkdir : Path → Mkdir)
    (dir : Option (List Dirent)) : Obeys resolve s (s.setLogPath resolve path mkdir dir) := by
  unfold setLogPath
  dsimp only
  generalize path.map (fun c => if c = '\\' then '/' else c) = path
  have hpath : Obeys resolve s ({ s with filePath := path }.call (.path path)) :=
    obeys_call rfl .path
  split
  · exact hpath
  · split
    · exact hpath.trans (scanFiles_obeys _ dir)
    · exact hpath

theorem setFileLimit_obeys (s : LogFile N) (limit : Nat) :
    Obeys resolve s (s.setFileLimit limit) := by
  refine obeys_call rfl (.limit ?_ ?_)
  · split <;> omega
  · split <;> omega

theorem rollDate_obeys (s : LogFile N) (today : Path) (now : Int) (opens : Bool) :
    Obeys resolve s (s.rollDate resolve today now opens) := by
  have hroll : Obeys resolve s (s.rollFile resolve .fileDate now opens) :=
    rollFile_obeys s .fileDate now opens
  unfold rollDate
  split
  · dsimp only
    split
    · exact hroll
    · exact hroll.trans (obeys_call rfl .date)
  · exact obeys_of_eq rfl rfl

theorem store_obeys (s : LogFile N) (data : List UInt8) (now : Int) (answers : List Nat) :
    Obeys resolve s (s.store data now answers) := by
  unfold store
  split
  · exact obeys_of_eq rfl rfl
  · rename_i i hfp
    exact obeys_call rfl (.fwrite hfp)

theorem write_obeys {data : List UInt8} {today : Path} {now : Int} {opens : Bool}
    {answers : List Nat} (h : s.write resolve data today now opens answers = some t) :
    Obeys resolve s t := by
  unfold write at h
  split at h
  · obtain rfl := Option.some.inj h
    exact obeys_of_eq rfl rfl
  · have hdate : Obeys resolve s (s.rollDate resolve today now opens) :=
      rollDate_obeys s today now opens
    dsimp only at h
    generalize s.rollDate resolve today now opens = r at h hdate
    have hsize : Obeys resolve r
        (if r.rolls data.length then r.rollFile resolve .fileSize now opens else r) := by
      split
      · exact rollFile_obeys r .fileSize now opens
      · exact obeys_of_eq rfl rfl
    generalize (if r.rolls data.length then r.rollFile resolve .fileSize now opens else r) = q
      at h hsize
    split at h
    · obtain rfl := Option.some.inj h
      exact hdate
    · split at h
      · cases h
      · split at h
        · obtain rfl := Option.some.inj h
          exact hdate.trans hsize
        · obtain rfl := Option.some.inj h
          exact (hdate.trans hsize).trans (store_obeys q data now answers)

/-! ## Runs -/

/-- A step makes only calls that are allowed. -/
theorem step_obeys {ev : Event} (h : s.step resolve ev = some t) : Obeys resolve s t := by
  unfold step at h
  split at h
  · cases h
  · cases ev with
    | setFileLimit limit =>
        obtain rfl := Option.some.inj h
        exact setFileLimit_obeys s limit
    | setRollSize size =>
        obtain rfl := Option.some.inj h
        exact obeys_of_eq rfl rfl
    | setLogPath path mkdir dir =>
        obtain rfl := Option.some.inj h
        exact setLogPath_obeys s path mkdir dir
    | setLogFile file now opens =>
        obtain rfl := Option.some.inj h
        have hname : Obeys resolve s
            ({ s with fileName := s.filePath ++ "/".toList ++ file }.call
              (.name (s.filePath ++ "/".toList ++ file))) := obeys_call rfl .name
        exact hname.trans (rollFile_obeys _ .fileName now opens)
    | rollFile flag now opens =>
        obtain rfl := Option.some.inj h
        exact rollFile_obeys s flag now opens
    | write data today now opens answers => exact write_obeys h

theorem run_obeys {rollSize : Nat} {today : Path} {disk : Disk N} : ∀ {evs : List Event}
    {s t : LogFile N}, (machine resolve rollSize today disk).run s evs = some t → Obeys resolve s t
  | [], s, t, h => by
      obtain rfl := Option.some.inj h
      exact obeys_of_eq rfl rfl
  | ev :: evs, s, t, h => by
      obtain ⟨u, hu, h⟩ := (Machine.run_cons_some _).mp h
      exact (step_obeys hu).trans (run_obeys h)

/-- A disk with one file, `d/y`. -/
def oneFile : Disk Path where
  links p := if p = "d/y".toList then some 0 else none
  inodes _ := ⟨true, 5, []⟩
  next := 1

/-- The events of a program that keeps one old log file and rolls twice. -/
def twoRolls : List Event :=
  [.setFileLimit 1, .setLogPath "d".toList (fun _ => .exist) none, .setLogFile "x".toList 0 true,
    .rollFile .fileSize 1 true, .rollFile .fileSize 2 true]

/-- A directory with eleven files, from the oldest to the newest. -/
def elevenFiles : Disk Path where
  links p := ("abcdefghijk".toList.map fun c => ['d', '/', c]).findIdx? fun file => file = p
  inodes i := ⟨true, i, []⟩
  next := 11

end LogFile

end LinSocketIo.Log
