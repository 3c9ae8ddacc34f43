/-
LinSocketIo.Core.Countdown — the timer wheel of `core/countdown.h` and
`core/countdown.cpp`.

`Countdown` is a vector of thirteen falls. Fall 0 is the bottom: what it
holds fires at the next click. Fall `i > 0` holds the timers of at least
`mFall` milliseconds and its own counter `mElasped`; when the counter
reaches `mFall` the fall is scanned, and each node fires, stays or drops
to a lower fall.

Modelling notes. A `std::list` is a list of its nodes. An iterator kept
in `Handler::m_iter` is either null or points at the node of its handler,
so `mIter` records whether it is null and `deref` finds the node by its
handler; `CountdownTheorems` shows that a registered handler has exactly
one node. `int` arithmetic goes through `toInt`.
-/
import LinSocketIo.Base.CInt
import Mathlib.Logic.Function.Basic

namespace LinSocketIo.Core

open LinSocketIo.Base

/-- `Countdown::Timeout`, one node of a fall. -/
structure Timeout (H : Type) where
  fallidx : Nat
  handler : H
  count : Int
  deriving DecidableEq, Repr

/-- `Countdown::Fall`. -/
structure Fall (H : Type) where
  mElasped : Int
  mFall : Int
  mList : List (Timeout H)
  deriving DecidableEq, Repr

/-- The wheel, with the `m_iter` of every handler (`true`: not null). -/
structure Countdown (H : Type) where
  mFalls : List (Fall H)
  mFallsLastIdx : Nat
  mIter : H → Bool

/-- `Countdown::TIME_CLICK`, in milliseconds. -/
def timeClick : Int := 5

variable {H : Type}

/-- `Fall(int fall)`. -/
def Fall.new (fall : Int) : Fall H := ⟨0, fall, []⟩

namespace Countdown

/-- `Countdown::Countdown`. -/
def new : Countdown H :=
  let falls := [Fall.new 0, Fall.new timeClick, Fall.new (timeClick * 2),
    Fall.new (timeClick * 4), Fall.new (timeClick * 8), Fall.new (timeClick * 16),
    Fall.new (timeClick * 32), Fall.new (timeClick * 64), Fall.new (timeClick * 128),
    Fall.new (timeClick * 256), Fall.new (timeClick * 512), Fall.new (timeClick * 1024),
    Fall.new (timeClick * 2048)]
  ⟨falls, falls.length - 1, fun _ => false⟩

/-- `m_falls[i]`. -/
def fall (cd : Countdown H) (i : Nat) : Fall H := cd.mFalls.getD i (Fall.new 0)

/-- Write `m_falls[i]`. -/
def setFall (cd : Countdown H) (i : Nat) (f : Fall H) : Countdown H :=
  { cd with mFalls := cd.mFalls.set i f }

/-- Write `m_falls[i].m_elasped`. -/
def setElasped (cd : Countdown H) (i : Nat) (e : Int) : Countdown H :=
  cd.setFall i { cd.fall i with mElasped := e }

/-- The loop of `find_fall_idx`, downwards from `i`. -/
def findFallFrom (cd : Countdown H) (timeout : Int) : Nat → Nat
  | 0 => 0
  | i + 1 => if timeout ≥ (cd.fall (i + 1)).mFall then i + 1
             else findFallFrom cd timeout i

/-- `Countdown::find_fall_idx`. The default `rbegin` is `npos`, larger than
every index. -/
def findFallIdx (cd : Countdown H) (timeout : Int) (rbegin : Nat) : Nat :=
  let i := if cd.mFallsLastIdx < rbegin then cd.mFallsLastIdx else rbegin
  cd.findFallFrom timeout i

/-- `Countdown::npos`, `size_t(-1)`. -/
def npos : Nat := 2 ^ 64 - 1

/-- `Fall::insert`, and the receiving half of `Fall::splice`: a node goes to
the end of the list. -/
def pushBack (cd : Countdown H) (i : Nat) (x : Timeout H) : Countdown H :=
  cd.setFall i { cd.fall i with mList := (cd.fall i).mList ++ [x] }

/-- The loop of `next_timeout` over `n` falls from `idx` on. -/
def nextTimeoutFrom (cd : Countdown H) : Nat → Nat → Int
  | _, 0 => 1000 * 1000
  | idx, n + 1 =>
    match (cd.fall idx).mList with
    | [] => nextTimeoutFrom cd (idx + 1) n
    | x :: _ =>
      let t := toInt (x.count - (cd.fall idx).mElasped)
      if t < 0 then 0 else t

/-- `Countdown::next_timeout`. -/
def nextTimeout (cd : Countdown H) : Int := cd.nextTimeoutFrom 0 (cd.mFallsLastIdx + 1)

variable [DecidableEq H]

/-- Write `handler->m_iter`. -/
def setIter (cd : Countdown H) (h : H) (b : Bool) : Countdown H :=
  { cd with mIter := Function.update cd.mIter h b }

/-- The node `h->m_iter` points at. -/
def deref (cd : Countdown H) (h : H) : Option (Timeout H) :=
  (cd.mFalls.flatMap (·.mList)).find? (·.handler = h)

/-- `Fall::erase`, and the giving half of `Fall::splice`: the node of `h`
leaves the list of fall `i`. -/
def erase (cd : Countdown H) (i : Nat) (h : H) : Countdown H :=
  cd.setFall i { cd.fall i with mList := (cd.fall i).mList.filter (·.handler ≠ h) }

/-- `pos->count = c` for the node of `h` in fall `i`. -/
def setCount (cd : Countdown H) (i : Nat) (h : H) (c : Int) : Countdown H :=
  cd.setFall i { cd.fall i with
    mList := (cd.fall i).mList.map fun x => if x.handler = h then { x with count := c } else x }

/-- `Countdown::select_timeout`. -/
def selectTimeout (cd : Countdown H) (s : H) (timeout : Int) : Countdown H :=
  if timeout < 0 then
    if cd.mIter s then
      match cd.deref s with
      | some pos => (cd.erase pos.fallidx s).setIter s false
      | none => cd
    else cd
  else
    let newidx := cd.findFallIdx timeout npos
    let timeout := toInt (timeout + (cd.fall newidx).mElasped)
    if cd.mIter s then
      match cd.deref s with
      | some pos =>
        if pos.fallidx ≠ newidx then
          -- the node moves to the end of the new fall and takes its index
          ((cd.erase pos.fallidx s).pushBack newidx { pos with fallidx := newidx }).setCount
            newidx s timeout
        else cd.setCount newidx s timeout
      | none => cd
    else (cd.pushBack newidx ⟨newidx, s, timeout⟩).setIter s true

/-- The local state of the scan of one fall: `kept` is the part of its list
the iterator has passed and left in place. -/
structure Scan (H : Type) where
  cd : Countdown H
  kept : List (Timeout H)
  result : List (Timeout H)

/-- The body of the scan in `click_elapse`, for the node `i` of fall `idx`. -/
def scanNode (idx : Nat) (st : Scan H) (i : Timeout H) : Scan H :=
  let count := toInt (i.count - (st.cd.fall idx).mElasped)
  if count ≤ 0 then
    { st with
      cd := st.cd.setIter i.handler false
      result := st.result ++ [{ i with count := count }] }
  else
    let newidx := st.cd.findFallIdx count idx
    if newidx = idx then { st with kept := st.kept ++ [{ i with count := count }] }
    else
      let count := toInt (count + (st.cd.fall newidx).mElasped)
      { st with cd := st.cd.pushBack newidx ⟨newidx, i.handler, count⟩ }

/-- The scan of fall `idx`. The nodes that leave it go to lower falls, so the
list under the iterator only shrinks. -/
def scanFall (idx : Nat) (cd : Countdown H) (result : List (Timeout H)) :
    Countdown H × List (Timeout H) :=
  let st := (cd.fall idx).mList.foldl (scanNode idx) ⟨cd, [], result⟩
  (st.cd.setFall idx { st.cd.fall idx with mList := st.kept }, st.result)

/-- One pass of the loop over the falls in `click_elapse`. -/
def clickFall (elasped : Int) (st : Countdown H × List (Timeout H)) (idx : Nat) :
    Countdown H × List (Timeout H) :=
  let cd := st.1.setElasped idx (toInt ((st.1.fall idx).mElasped + elasped))
  if (cd.fall idx).mElasped < (cd.fall idx).mFall then (cd, st.2)
  else
    let (cd, result) := scanFall idx cd st.2
    (cd.setElasped idx 0, result)

/-- The first part of `click_elapse`: everything in fall 0 is due. -/
def clickBottom (cd : Countdown H) : Countdown H × List (Timeout H) :=
  let list := (cd.fall 0).mList
  (list.foldl (fun cd i => cd.setIter i.handler false)
    (cd.setFall 0 { cd.fall 0 with mList := [] }), list)

/-- `Countdown::click_elapse`, called with an empty `result`. -/
def clickElapse (cd : Countdown H) (elasped : Int) : Countdown H × List (Timeout H) :=
  (List.range' 1 cd.mFallsLastIdx).foldl (clickFall elasped) cd.clickBottom

end Countdown

end LinSocketIo.Core
