/-
LinSocketIo.Log.RollSize — whether a log file stays within the roll size.

`write` decides by `_writtenBytes`, all bytes that were ever written, modulo the
roll size. For the first file these are its own bytes until it is full; from
the first roll on they are fewer than the bytes of the open file, and a file that
is exactly full counts as empty. Besides, a roll that finds no name for the log
file goes on with it.

* `within_iff` — the runs in which no log file grows over the roll size.
-/
import LinSocketIo.Log.LogFileTheorems

namespace LinSocketIo.Log.LogFile

open LinSocketIo.Base

variable {N : Type} [DecidableEq N] (resolve : Path → N) (R : Nat)

/-- The file `i` is open as the log file, and the roll size is `R` megabytes. -/
structure Opened (s : LogFile N) (i : Nat) : Prop where
  running : s.exited = false
  rollSize : s.rollSize = R
  fp : s.fp = some i
  entry : s.disk.links (resolve s.defautFile) = some i
  made : i < s.disk.next

/-- An empty log file is open. -/
structure Fresh (s : LogFile N) (i : Nat) : Prop extends Opened resolve R s i where
  empty : (s.disk.inodes i).content = []

/-- A call of `write` on a date, of at most `R` megabytes, all of which is stored. -/
inductive Writes (today : Path) : Event → Prop where
  | write {data : List UInt8} {answers : List Nat} (now : Int) :
      data.length ≤ R * kBytesPerMb → fwrites data.length answers = data.length →
      Writes today (.write data today now true answers)

/-- The log files of a run from `s₀`: the one that was open, and those that were opened. -/
def IsLog (s₀ : LogFile N) (i : Nat) : Prop := s₀.fp = some i ∨ s₀.disk.next ≤ i

/-- No log file holds more than `R` megabytes. -/
def Within (s₀ s : LogFile N) : Prop :=
  ∀ i, IsLog s₀ i → i < s.disk.next → (s.disk.inodes i).content.length ≤ R * kBytesPerMb

/-- After a step no log file does. -/
def Meets (s₀ s : LogFile N) (ev : Event) : Prop :=
  ∀ s', s.step resolve ev = some s' → Within R s₀ s'

/-- The bytes of the file that is open. -/
def size (s : LogFile N) : Nat := (s.fp.elim [] fun i => (s.disk.inodes i).content).length

/-- A roll moves the log file away: a name that it tries is free, or the log file is among the
files over the limit. -/
def Vacates (s : LogFile N) : Prop :=
  (∃ k < 1000, s.disk.links (resolve (s.targetAt k)) = none) ∨
    resolve s.defautFile ∈ (s.hisFiles.take (s.excess s.hisFiles)).map resolve

/-- The open file has room for the data, or `write` rolls and moves it away. -/
def Roomy (s : LogFile N) : Event → Prop
  | .write data _ _ _ _ =>
    s.size + data.length ≤ s.rollBytes ∨ (s.rolls data.length = true ∧ s.Vacates resolve)
  | .setFileLimit _ | .setRollSize _ | .setLogPath .. | .setLogFile .. | .rollFile .. => True

variable {resolve R} {s s₀ : LogFile N} {i : Nat}

/-! ## The roll -/

omit [DecidableEq N] in
theorem rollBytes_eq (hR : R < 4096) (hs : s.rollSize = R) : s.rollBytes = R * kBytesPerMb := by
  have hmb : kBytesPerMb = 1048576 := rfl
  unfold rollBytes
  rw [hs]
  exact toUInt32_of_lt (by rw [hmb]; omega)

/-- What `renameFile` leaves alone. -/
structure Spares (s t : LogFile N) : Prop where
  running : t.exited = s.exited
  rollSize : t.rollSize = s.rollSize
  fileName : t.fileName = s.fileName
  date : t.date = s.date
  inodes : t.disk.inodes = s.disk.inodes
  next : t.disk.next = s.disk.next

theorem renameFile_spares (s : LogFile N) : Spares s (s.renameFile resolve) := by
  unfold renameFile
  generalize 1000 = n
  simp only [checkLimit_eq]
  rcases renameLoop_cases resolve n s with ⟨k, _, _, heq⟩ | ⟨_, heq⟩
  · rw [heq]
    exact ⟨rfl, rfl, rfl, rfl, by simp [renamed, call], by simp [renamed, call]⟩
  · rw [heq]
    exact ⟨rfl, rfl, rfl, rfl, by simp, by simp⟩

/-- What the name of the log file links to behind `renameFile`. -/
theorem renameFile_links (hentry : s.disk.links (resolve s.defautFile) = some i) :
    (s.Vacates resolve → (s.renameFile resolve).disk.links (resolve s.defautFile) = none) ∧
    (¬ s.Vacates resolve → (s.renameFile resolve).disk.links (resolve s.defautFile) = some i) := by
  unfold renameFile Vacates
  generalize 1000 = n
  simp only [checkLimit_eq, Disk.unlinkAll_links]
  rcases renameLoop_cases resolve n s with ⟨k, hk, hfree, heq⟩ | ⟨htaken, heq⟩
  · have hmoved : (s.renamed resolve k).disk.links (resolve s.defautFile) = none := by
      refine (Disk.rename_links hentry hfree _).trans ?_
      rw [if_pos rfl]
    rw [heq, hmoved]
    exact ⟨fun _ => ite_self _, fun h => absurd (Or.inl ⟨k, hk, hfree⟩) h⟩
  · rw [heq]
    constructor
    · rintro (⟨k, hk, hfree⟩ | hover)
      · exact absurd hfree (htaken k hk)
      · exact if_pos hover
    · intro h
      exact (if_neg fun hover => h (Or.inr hover)).trans hentry

omit [DecidableEq N] in
theorem defautFile_eq {t : LogFile N} (h : t.fileName = s.fileName) :
    t.defautFile = s.defautFile := by
  unfold defautFile
  rw [h]

/-- `fopen` makes a new log file where its name is free. -/
theorem fopen_opens (now : Int) (hrunning : s.exited = false) (hsize : s.rollSize = R)
    (hentry : s.disk.links (resolve s.defautFile) = none) :
    Opened resolve R (s.fopen resolve now true) s.disk.next ∧
      (s.fopen resolve now true).disk.next = s.disk.next + 1 ∧
      (s.fopen resolve now true).disk.inodes =
        Function.update s.disk.inodes s.disk.next ⟨true, now, []⟩ := by
  simp only [fopen, if_true, Disk.append, hentry]
  exact ⟨⟨hrunning, hsize, rfl, Function.update_self .., Nat.lt_succ_self _⟩, rfl, rfl⟩

/-- `fopen` opens the log file that is there. -/
theorem fopen_reopens (now : Int) (hrunning : s.exited = false) (hsize : s.rollSize = R)
    (hentry : s.disk.links (resolve s.defautFile) = some i) (hmade : i < s.disk.next) :
    Opened resolve R (s.fopen resolve now true) i ∧ (s.fopen resolve now true).disk = s.disk := by
  simp only [fopen, if_true, Disk.append_of_some hentry]
  exact ⟨⟨hrunning, hsize, rfl, hentry, hmade⟩, rfl⟩

theorem fopen_date (s : LogFile N) (now : Int) (opens : Bool) :
    (s.fopen resolve now opens).date = s.date := by
  unfold fopen
  split <;> rfl

/-- What `write` has done before it stores the data: either it goes on with a new file, or with
the one that is open. -/
theorem rolled (hs : Opened resolve R s i) (len : Nat) (now : Int) :
    ∃ t j, (if s.rolls len then s.rollFile resolve .fileSize now true else s) = t ∧
      Opened resolve R t j ∧ t.date = s.date ∧
      ((s.rolls len = true ∧ s.Vacates resolve) ∧ j = s.disk.next ∧
          t.disk.next = s.disk.next + 1 ∧
          t.disk.inodes = Function.update s.disk.inodes s.disk.next ⟨true, now, []⟩ ∨
        ¬ (s.rolls len = true ∧ s.Vacates resolve) ∧ j = i ∧ t.disk.next = s.disk.next ∧
          t.disk.inodes = s.disk.inodes) := by
  by_cases hrolls : s.rolls len = true
  · rw [if_pos hrolls]
    have hspares : Spares ({ s with fp := none }.call .fclose)
        (({ s with fp := none }.call .fclose).renameFile resolve) := renameFile_spares _
    have hlinks := renameFile_links (s := { s with fp := none }.call .fclose) hs.entry
    have hroll : s.rollFile resolve .fileSize now true =
        (({ s with fp := none }.call .fclose).renameFile resolve).fopen resolve now true := rfl
    rw [hroll]
    generalize ({ s with fp := none }.call .fclose).renameFile resolve = r at hspares hlinks
    have hname : r.defautFile = s.defautFile := defautFile_eq hspares.fileName
    have hrunning : r.exited = false := hspares.running.trans hs.running
    have hsize : r.rollSize = R := hspares.rollSize.trans hs.rollSize
    have hdate : (r.fopen resolve now true).date = s.date :=
      (fopen_date r now true).trans hspares.date
    by_cases hvacates : s.Vacates resolve
    · obtain ⟨hopened, hnext, hinodes⟩ :=
        fopen_opens now hrunning hsize (hname ▸ hlinks.1 hvacates)
      rw [hspares.next] at hopened hnext hinodes
      rw [hspares.inodes] at hinodes
      exact ⟨_, _, rfl, hopened, hdate, Or.inl ⟨⟨hrolls, hvacates⟩, rfl, hnext, hinodes⟩⟩
    · obtain ⟨hopened, hdisk⟩ := fopen_reopens now hrunning hsize (hname ▸ hlinks.2 hvacates)
        (hspares.next.symm ▸ hs.made)
      exact ⟨_, _, rfl, hopened, hdate, Or.inr ⟨fun h => hvacates h.2, rfl,
        (congrArg Disk.next hdisk).trans hspares.next,
        (congrArg Disk.inodes hdisk).trans hspares.inodes⟩⟩
  · rw [if_neg hrolls]
    exact ⟨s, i, rfl, hs, rfl, Or.inr ⟨fun h => hrolls h.1, rfl, rfl, rfl⟩⟩

/-! ## A call of `write` -/

/-- `write` on the date of the log file. -/
theorem write_eq (hs : Opened resolve R s i) (hbytes : s.rollBytes ≠ 0) (data : List UInt8)
    (now : Int) (answers : List Nat) {t : LogFile N} {j : Nat}
    (ht : (if s.rolls data.length then s.rollFile resolve .fileSize now true else s) = t)
    (hopened : Opened resolve R t j) :
    s.write resolve data s.date now true answers = some (t.store data now answers) := by
  have hdate : s.rollDate resolve s.date now true = s := if_neg fun h => h rfl
  have hopen : s.fp ≠ none := hs.fp ▸ Option.some_ne_none i
  unfold write
  simp only [if_neg hopen, hdate, hs.running, Bool.false_eq_true, if_false, if_neg hbytes, ht,
    hopened.running]

omit [DecidableEq N] in
/-- `fwrite` stores all the data. -/
theorem store_inodes {t : LogFile N} {j : Nat} (ht : Opened resolve R t j) {data : List UInt8}
    {answers : List Nat} (hstored : fwrites data.length answers = data.length) (now : Int) (m : Nat) :
    ((t.store data now answers).disk.inodes m).content =
      (t.disk.inodes m).content ++ if m = j then data else [] := by
  simp only [store, ht.fp, hstored, List.take_length, call, Disk.write]
  by_cases hm : m = j
  · subst hm
    simp only [Function.update_self, if_true]
  · simp only [Function.update_of_ne hm, if_neg hm, List.append_nil]

omit [DecidableEq N] in
theorem store_opened {t : LogFile N} {j : Nat} (ht : Opened resolve R t j) (data : List UInt8)
    (now : Int) (answers : List Nat) : Opened resolve R (t.store data now answers) j := by
  simp only [store, ht.fp]
  exact ⟨ht.running, ht.rollSize, rfl, ht.entry, ht.made⟩

/-! ## Runs -/

/-- What holds between two calls of `write` as long as no log file is too long. -/
structure Inv (resolve : Path → N) (R : Nat) (s₀ s : LogFile N) : Prop where
  opened : ∃ i, Opened resolve R s i ∧ IsLog s₀ i
  date : s.date = s₀.date
  next : s₀.disk.next ≤ s.disk.next
  within : Within R s₀ s

omit [DecidableEq N] in
theorem inv_fresh (hs : Fresh resolve R s i) : Inv resolve R s s where
  opened := ⟨i, hs.toOpened, Or.inl hs.fp⟩
  date := rfl
  next := Nat.le_refl _
  within j hj hmade := by
    rcases hj with hj | hj
    · obtain rfl := Option.some.inj (hs.fp.symm.trans hj)
      rw [hs.empty]
      exact Nat.zero_le _
    · exact absurd hmade (Nat.not_lt.mpr hj)

/-- One call of `write`: the state behind it, and how long the file is that it wrote. -/
theorem write_spec (hR : 1 ≤ R ∧ R < 4096) (hs : Inv resolve R s₀ s) {ev : Event}
    (hev : Writes R s₀.date ev) : ∃ s', s.step resolve ev = some s' ∧
      (Within R s₀ s' ↔ Roomy resolve s ev) ∧ (Within R s₀ s' → Inv resolve R s₀ s') := by
  obtain ⟨i, hopened, hlog⟩ := hs.opened
  cases hev with
  | @write data answers now hlen hstored =>
    have hbytes := rollBytes_eq hR.2 hopened.rollSize
    have hne : s.rollBytes ≠ 0 := by
      have hmb : kBytesPerMb = 1048576 := rfl
      rw [hbytes, hmb]
      omega
    obtain ⟨t, j, ht, htopened, hdate, hcases⟩ := rolled hopened data.length now
    have hstep : s.step resolve (.write data s₀.date now true answers) =
        some (t.store data now answers) := by
      simp only [step, hopened.running, Bool.false_eq_true, if_false]
      rw [← hs.date]
      exact write_eq hopened hne data now answers ht htopened
    have hcontent := store_inodes htopened hstored now
    have hopened' := store_opened htopened data now answers
    have hnext : (t.store data now answers).disk.next = t.disk.next := by
      simp only [store, htopened.fp]
      rfl
    have hdate' : (t.store data now answers).date = s₀.date := by
      refine Eq.trans ?_ (hdate.trans hs.date)
      simp only [store, htopened.fp]
      rfl
    have hsize : s.size = (s.disk.inodes i).content.length := by
      unfold size
      rw [hopened.fp]
      rfl
    rcases hcases with ⟨hrolled, rfl, hmade, hinodes⟩ | ⟨hkept, rfl, hmade, hinodes⟩
    · have hwithin : Within R s₀ (t.store data now answers) := by
        intro m hm hlt
        rw [hnext, hmade] at hlt
        rw [hcontent m, hinodes]
        by_cases hnew : m = s.disk.next
        · rw [if_pos hnew, hnew, Function.update_self, List.nil_append]
          exact hlen
        · rw [if_neg hnew, Function.update_of_ne hnew, List.append_nil]
          exact hs.within m hm (by omega)
      refine ⟨_, hstep, iff_of_true hwithin (Or.inr hrolled), fun _ =>
        ⟨⟨_, hopened', Or.inr hs.next⟩, hdate', ?_, hwithin⟩⟩
      rw [hnext, hmade]
      exact Nat.le_succ_of_le hs.next
    · refine ⟨_, hstep, ?_, fun hwithin =>
        ⟨⟨_, hopened', hlog⟩, hdate', by rw [hnext, hmade]; exact hs.next, hwithin⟩⟩
      rw [Roomy, hsize, hbytes, or_iff_left hkept]
      constructor
      · intro h
        have hj := h j hlog (by rw [hnext, hmade]; exact hopened.made)
        rw [hcontent j, if_pos rfl, hinodes, List.length_append] at hj
        exact hj
      · intro h m hm hlt
        rw [hnext, hmade] at hlt
        rw [hcontent m, hinodes]
        by_cases hj : m = j
        · rw [if_pos hj, hj, List.length_append]
          exact h
        · rw [if_neg hj, List.append_nil]
          exact hs.within m hm hlt

/-- From an empty log file on, and on one date, no log file grows over the roll size just where
each call of `write` has room for its data in the open file, or rolls and finds a name for it. -/
theorem within_iff (hR : 1 ≤ R ∧ R < 4096) (hs : Fresh resolve R s i) (evs : List Event)
    (hevs : ∀ ev ∈ evs, Writes R s.date ev) :
    (machine resolve R s.date s.disk).AllSteps (Meets resolve R s) s evs ↔
      (machine resolve R s.date s.disk).AllSteps (Roomy resolve) s evs := by
  refine (machine resolve R s.date s.disk).allSteps_iff_of_guarded
    (C := fun _ ev => Writes R s.date ev) (P := Inv resolve R s) (fun t ev ht hev => ?_)
    (fun t ev t' ht hev hmeets h => ?_) evs (inv_fresh hs)
    (Machine.allSteps_of_forall _ hevs s)
  · obtain ⟨t', hstep, hiff, _⟩ := write_spec hR ht hev
    exact ⟨fun h => hiff.mp (h t' hstep), fun h u hu =>
      Option.some.inj (hstep.symm.trans hu) ▸ hiff.mpr h⟩
  · obtain ⟨u, hstep, _, hinv⟩ := write_spec hR ht hev
    obtain rfl := Option.some.inj (hstep.symm.trans h)
    exact hinv (hmeets u hstep)

/-! ## A full file -/

/-- A `LogFile` with files of one megabyte, and its log file on an empty disk. -/
def oneMegabyte : LogFile Path :=
  (new 1 "20240101".toList ⟨fun _ => none, fun _ => ⟨false, 0, []⟩, 0⟩).setLogFile id "x".toList 0
    true

theorem fresh_oneMegabyte : Fresh id 1 oneMegabyte 0 :=
  ⟨⟨rfl, rfl, rfl, rfl, by decide⟩, rfl⟩

/-- Three bytes have room in it. -/
theorem within_iff_threeBytes : (machine id 1 oneMegabyte.date oneMegabyte.disk).AllSteps
    (Meets id 1 oneMegabyte) oneMegabyte [.write [1, 2, 3] oneMegabyte.date 5 true [2, 1]] := by
  refine (within_iff ⟨by decide, by decide⟩ fresh_oneMegabyte _ (fun ev hev => ?_)).mpr
    ⟨Or.inl (by decide), fun _ _ => trivial⟩
  obtain rfl := List.mem_singleton.mp hev
  exact .write 5 (by decide) (by decide)

/-- A file that is full to the last byte is not rolled: the next data goes on top of it. -/
theorem full_file_grows (hR : 1 ≤ R ∧ R < 4096) (hs : Fresh resolve R s i)
    (hwritten : s.writtenBytes = 0) {data data' : List UInt8} {answers answers' : List Nat}
    (now : Int) (hfull : data.length = R * kBytesPerMb)
    (hstored : fwrites data.length answers = data.length)
    (hstored' : fwrites data'.length answers' = data'.length) (hdata' : data' ≠ [])
    (hlen' : data'.length ≤ R * kBytesPerMb) :
    ¬ (machine resolve R s.date s.disk).AllSteps (Meets resolve R s) s
      [.write data s.date now true answers, .write data' s.date now true answers'] := by
  intro h
  have hmb : kBytesPerMb = 1048576 := rfl
  have hbytes := rollBytes_eq hR.2 hs.rollSize
  have hrolls : s.rolls data.length = false := by
    unfold rolls
    rw [hwritten, hbytes, hfull, Nat.zero_mod, Nat.zero_add]
    exact decide_eq_false (Nat.lt_irrefl _)
  have hstep : s.step resolve (.write data s.date now true answers) =
      some (s.store data now answers) := by
    simp only [step, hs.running, Bool.false_eq_true, if_false]
    exact write_eq hs.toOpened (by rw [hbytes, hmb]; omega) data now answers
      (by rw [hrolls]; rfl) hs.toOpened
  obtain ⟨t, ht, -, hinv⟩ := write_spec hR (inv_fresh hs) (.write now (Nat.le_of_eq hfull) hstored)
  obtain rfl := Option.some.inj (hstep.symm.trans ht)
  have hnext := hinv (h.1 _ hstep)
  have hopened := store_opened hs.toOpened data now answers
  -- The open file is full, and the total is a multiple of the roll size.
  have hsize : (s.store data now answers).size = R * kBytesPerMb := by
    unfold size
    rw [hopened.fp]
    refine (congrArg List.length (store_inodes hs.toOpened hstored now i)).trans ?_
    rw [if_pos rfl, hs.empty, List.nil_append, hfull]
  have htotal : (s.store data now answers).writtenBytes = R * kBytesPerMb := by
    simp only [store, hs.fp, hstored, List.take_length, call]
    rw [hwritten, hfull, hmb]
    omega
  obtain ⟨u, hu, hiff, -⟩ := write_spec hR hnext (.write now hlen' hstored')
  have hpos := List.length_pos_iff.mpr hdata'
  rcases hiff.mp ((h.2 _ hstep).1 u hu) with hroom | ⟨hrolls', -⟩
  · rw [hsize, rollBytes_eq hR.2 hopened.rollSize] at hroom
    omega
  · unfold rolls at hrolls'
    rw [htotal, rollBytes_eq hR.2 hopened.rollSize, Nat.mod_self, Nat.zero_add] at hrolls'
    exact absurd (of_decide_eq_true hrolls') (Nat.not_lt.mpr hlen')

/-- One megabyte, and then one byte. -/
theorem oneMegabyte_grows : ¬ (machine id 1 oneMegabyte.date oneMegabyte.disk).AllSteps
    (Meets id 1 oneMegabyte) oneMegabyte
    [.write (List.replicate 1048576 0) oneMegabyte.date 0 true [1048576],
      .write [0] oneMegabyte.date 0 true [1]] :=
  full_file_grows ⟨by decide, by decide⟩ fresh_oneMegabyte rfl 0 List.length_replicate
    (by rw [List.length_replicate]; decide) (by decide) (by decide) (by decide)

end LinSocketIo.Log.LogFile
