/-
LinSocketIo.Log.LogFile — `LogFile` of `log/src/logging.h`: the log file, its
rolls, and the files that it removes.

`write` rolls on a new date, and where the bytes that were ever written, modulo
the roll size, leave no room for the data. A roll closes the log file, renames
it, and opens a new one under its name. The targets of the renames and the files
that `scanFiles` finds in the log directory make the history; from its front,
`remove` takes what is over the limit.

Modelling notes. A path is a list of characters, and `resolve` says which entry
of the disk it names. An entry links to an inode, so that a file that is open
stays when its entry goes. No other program changes the disk. What `mkdir`,
`opendir`, `fopen` and `fwrite` answer is the environment's choice; the other
calls fail only where their file is not there. The calls are recorded.
-/
import Mathlib.Data.List.Sort
import LinSocketIo.Base.CInt
import LinSocketIo.Base.Machine

namespace LinSocketIo.Log

open LinSocketIo.Base

abbrev Path := List Char

/-! ## The disk -/

/-- An inode. -/
structure Inode where
  /-- `S_ISREG`. -/
  regular : Bool
  mtime : Int
  content : List UInt8
  deriving DecidableEq, Repr

/-- Entries, and the inodes they link to. -/
structure Disk (N : Type) where
  links : N → Option Nat
  inodes : Nat → Inode
  /-- The first number that no inode has. -/
  next : Nat

namespace Disk

variable {N : Type} [DecidableEq N]

/-- `remove`. -/
def unlink (d : Disk N) (n : N) : Disk N := { d with links := Function.update d.links n none }

/-- `rename`. -/
def rename (d : Disk N) (file target : N) : Disk N :=
  match d.links file with
  | none => d
  | some i =>
    if d.links target = some i then d
    else
      { d with links := Function.update (Function.update d.links target (some i)) file none }

/-- `fopen` with `"a+"`. -/
def append (d : Disk N) (n : N) (now : Int) : Nat × Disk N :=
  match d.links n with
  | some i => (i, d)
  | none =>
    (d.next,
      { links := Function.update d.links n (some d.next)
        inodes := Function.update d.inodes d.next ⟨true, now, []⟩
        next := d.next + 1 })

/-- `fwrite` to a file that is open for appending. -/
def write (d : Disk N) (i : Nat) (data : List UInt8) (now : Int) : Disk N :=
  let file := d.inodes i
  { d with
    inodes := Function.update d.inodes i
      { file with content := file.content ++ data, mtime := if data = [] then file.mtime else now } }

end Disk

/-! ## `LogFile` -/

/-- A call of `LogFile`, or what it does with its history. -/
inductive Call where
  | limit (n : Nat)
  /-- `_filePath` is set. -/
  | path (dir : Path)
  /-- `_fileName` is set. -/
  | name (file : Path)
  /-- `_date` is set. -/
  | date (today : Path)
  /-- `scanFiles` puts files of a directory behind the history, with their times. -/
  | scanned (dir : Path) (files : List (Int × Path))
  /-- `rename`, the target of which goes behind the history. -/
  | rename (file target : Path)
  /-- `remove` of what is at the front of the history, in a roll or after a scan. -/
  | remove (rolling : Bool) (file : Path)
  | fclose
  | fopen (file : Path) (now : Int)
  | fwrite (data : List UInt8) (now : Int)
  deriving DecidableEq, Repr

/-- `LogFile`, with the disk. -/
structure LogFile (N : Type) where
  fileLimit : Nat
  fileCount : Nat
  rollSize : Nat
  writtenBytes : Nat
  fileName : Path
  filePath : Path
  date : Path
  /-- `_fp`: the inode of the file that is open. -/
  fp : Option Nat
  hisFiles : List Path
  disk : Disk N
  /-- `exit(-1)`. -/
  exited : Bool
  calls : List Call
  /-- What `write` returned. -/
  returned : List Nat

/-- `RollType`. -/
inductive RollType where
  | fileName
  | fileDate
  | fileSize
  deriving DecidableEq, Repr

/-- What `mkdir` does. -/
inductive Mkdir where
  | made
  /-- `EEXIST`. -/
  | exist
  | error
  deriving DecidableEq, Repr

/-- `struct dirent`. -/
structure Dirent where
  d_ino : Nat
  d_name : Path
  deriving DecidableEq, Repr

namespace LogFile

/-- `kBytesPerMb`. -/
def kBytesPerMb : Nat := 1 <<< 20

/-- `kDefaultLogFile`. -/
def kDefaultLogFile : Path := "./log".toList

variable {N : Type} [DecidableEq N] (resolve : Path → N)

/-- `LogFile(rollSize)` on a date. -/
def new (rollSize : Nat) (today : Path) (disk : Disk N) : LogFile N where
  fileLimit := 10
  fileCount := 0
  rollSize := toUInt32 rollSize
  writtenBytes := 0
  fileName := kDefaultLogFile
  filePath := []
  date := today
  fp := none
  hisFiles := []
  disk := disk
  exited := false
  calls := []
  returned := []

/-- A call is recorded. -/
def call (s : LogFile N) (c : Call) : LogFile N := { s with calls := s.calls ++ [c] }

/-- `setRollSize`. -/
def setRollSize (s : LogFile N) (size : Nat) : LogFile N := { s with rollSize := toUInt32 size }

/-- `setFileLimit`. -/
def setFileLimit (s : LogFile N) (limit : Nat) : LogFile N :=
  let limit := toUInt32 limit
  let limit := if 0 < limit ∧ limit < 1000 then limit else 100
  { s with fileLimit := limit }.call (.limit limit)

/-! ## The history -/

/-- `remove` of a file of the history. -/
def remove (s : LogFile N) (rolling : Bool) (file : Path) : LogFile N :=
  { s with disk := s.disk.unlink (resolve file) }.call (.remove rolling file)

/-- The loop that removes from the front of `_hisFiles`, which is the list. -/
def checkLimit (rolling : Bool) (s : LogFile N) : List Path → LogFile N
  | [] => { s with hisFiles := [] }
  | file :: files =>
    if s.fileLimit < (file :: files).length then
      checkLimit rolling (s.remove resolve rolling file) files
    else { s with hisFiles := file :: files }

/-- The file of a directory entry, with its time, if it is a regular one. -/
def stat (s : LogFile N) (de : Dirent) : Option (Int × Path) :=
  if de.d_ino = 0 ∨ de.d_name.head? = some '.' then none
  else
    let fileFullName := s.filePath ++ "/".toList ++ de.d_name
    match s.disk.links (resolve fileFullName) with
    | none => none
    | some i =>
      if (s.disk.inodes i).regular then some ((s.disk.inodes i).mtime, fileFullName) else none

/-- `scanFiles`; `none` says that `opendir` fails. A map of lists by their time is a list sorted
by it. -/
def scanFiles (s : LogFile N) : Option (List Dirent) → LogFile N
  | none => s
  | some des =>
    let hisFiles := (des.filterMap (s.stat resolve)).insertionSort fun a b => a.1 ≤ b.1
    let s := { s with hisFiles := s.hisFiles ++ hisFiles.map Prod.snd }.call
      (.scanned s.filePath hisFiles)
    checkLimit resolve false s s.hisFiles

/-- The names of the directories above a path. -/
def dirPaths (path : Path) : List Path :=
  (List.range path.length).filterMap fun pos =>
    if path[pos]? = some '/' then some (path.take pos) else none

/-- `setLogPath`. -/
def setLogPath (s : LogFile N) (path : Path) (mkdir : Path → Mkdir)
    (dir : Option (List Dirent)) : LogFile N :=
  let path := path.map fun c => if c = '\\' then '/' else c
  let s := { s with filePath := path }.call (.path path)
  let dirs := (dirPaths s.filePath).filter fun dirPath =>
    dirPath ≠ [] ∧ dirPath ≠ ".".toList ∧ dirPath ≠ "..".toList
  if dirs.any fun dirPath => mkdir dirPath = .error then s
  else if mkdir s.filePath = .exist then s.scanFiles resolve dir
  else s

/-! ## The rolls -/

/-- The name of the log file. -/
def defautFile (s : LogFile N) : Path := s.fileName ++ ".log".toList

/-- The name that a rename gives it. -/
def targetFile (s : LogFile N) : Path :=
  s.fileName ++ "-".toList ++ s.date ++ "-".toList ++ Nat.toDigits 10 s.fileCount ++ ".log".toList

/-- The loop of `renameFile`. -/
def renameLoop : Nat → LogFile N → LogFile N
  | 0, s => s
  | i + 1, s =>
    let target := s.targetFile
    if s.disk.links (resolve target) = none then
      { s with
        disk := s.disk.rename (resolve s.defautFile) (resolve target)
        hisFiles := s.hisFiles ++ [target] }.call (.rename s.defautFile target)
    else renameLoop i { s with fileCount := toUInt32 (s.fileCount + 1) }

/-- `renameFile`. -/
def renameFile (s : LogFile N) : LogFile N :=
  let s := renameLoop resolve 1000 s
  checkLimit resolve true s s.hisFiles

/-- `fopen` of the log file; `opens` says that it does not fail. -/
def fopen (s : LogFile N) (now : Int) (opens : Bool) : LogFile N :=
  if opens then
    let (i, disk) := s.disk.append (resolve s.defautFile) now
    { s with fp := some i, disk := disk, fileCount := toUInt32 (s.fileCount + 1) }.call
      (.fopen s.defautFile now)
  else { s with exited := true }

/-- `rollFile`. -/
def rollFile (s : LogFile N) (flag : RollType) (now : Int) (opens : Bool) : LogFile N :=
  let s := { s with fp := none }.call .fclose
  let s := match flag with
    | .fileName => s
    | .fileDate | .fileSize => s.renameFile resolve
  s.fopen resolve now opens

/-- `setLogFile`. -/
def setLogFile (s : LogFile N) (file : Path) (now : Int) (opens : Bool) : LogFile N :=
  let fileName := s.filePath ++ "/".toList ++ file
  ({ s with fileName := fileName }.call (.name fileName)).rollFile resolve .fileName now opens

/-! ## `write` -/

/-- The calls of `fwrite` behind the first one; `answers` is what they store at most, and `n` has
been stored. -/
def fwriteLoop (n remain : Nat) : List Nat → Nat
  | [] => n
  | x :: answers =>
    if remain = 0 ∨ x = 0 then n
    else fwriteLoop (n + min x remain) (remain - min x remain) answers

/-- How much of `len` bytes `fwrite` stores. -/
def fwrites (len : Nat) : List Nat → Nat
  | [] => 0
  | x :: answers => fwriteLoop (min x len) (len - min x len) answers

/-- The start of `write`: the roll for the date. -/
def rollDate (s : LogFile N) (today : Path) (now : Int) (opens : Bool) : LogFile N :=
  if s.date ≠ today then
    let s := s.rollFile resolve .fileDate now opens
    if s.exited then s else { s with date := today, fileCount := 1 }.call (.date today)
  else s

/-- `rollBytes` in `write`. -/
def rollBytes (s : LogFile N) : Nat := toUInt32 (s.rollSize * kBytesPerMb)

/-- `write` rolls for the size. -/
def rolls (s : LogFile N) (len : Nat) : Bool := s.rollBytes < s.writtenBytes % s.rollBytes + len

/-- `write` behind the rolls. -/
def store (s : LogFile N) (data : List UInt8) (now : Int) (answers : List Nat) : LogFile N :=
  match s.fp with
  | none => s
  | some i =>
    let stored := data.take (fwrites data.length answers)
    { s with
      disk := s.disk.write i stored now
      writtenBytes := (s.writtenBytes + stored.length) % 2 ^ 64
      returned := s.returned ++ [stored.length] }.call (.fwrite stored now)

/-- `write`; a roll size of 0 bytes is a division by zero. -/
def write (s : LogFile N) (data : List UInt8) (today : Path) (now : Int) (opens : Bool)
    (answers : List Nat) : Option (LogFile N) :=
  -- What comes before the log file is opened goes to the standard output.
  if s.fp = none then some { s with returned := s.returned ++ [data.length] }
  else
    let s := s.rollDate resolve today now opens
    if s.exited then some s
    else if s.rollBytes = 0 then none
    else
      let s := if s.rolls data.length then s.rollFile resolve .fileSize now opens else s
      if s.exited then some s else some (s.store data now answers)

/-! ## A program that logs -/

/-- What the program calls, with what the environment answers. -/
inductive Event where
  | setFileLimit (limit : Nat)
  | setRollSize (size : Nat)
  | setLogPath (path : Path) (mkdir : Path → Mkdir) (dir : Option (List Dirent))
  | setLogFile (file : Path) (now : Int) (opens : Bool)
  | rollFile (flag : RollType) (now : Int) (opens : Bool)
  | write (data : List UInt8) (today : Path) (now : Int) (opens : Bool) (answers : List Nat)

def step (s : LogFile N) (ev : Event) : Option (LogFile N) :=
  if s.exited then none
  else match ev with
    | .setFileLimit limit => some (s.setFileLimit limit)
    | .setRollSize size => some (s.setRollSize size)
    | .setLogPath path mkdir dir => some (s.setLogPath resolve path mkdir dir)
    | .setLogFile file now opens => some (s.setLogFile resolve file now opens)
    | .rollFile flag now opens => some (s.rollFile resolve flag now opens)
    | .write data today now opens answers => s.write resolve data today now opens answers

/-- A `LogFile` on a disk. -/
def machine (rollSize : Nat) (today : Path) (disk : Disk N) : Machine (LogFile N) Event where
  init := new rollSize today disk
  step := step resolve

end LogFile

end LinSocketIo.Log
