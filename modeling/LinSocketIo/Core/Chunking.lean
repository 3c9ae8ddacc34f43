/-
LinSocketIo.Core.Chunking — the input of a TCP connection is a stream.

The peer's bytes come in pieces that neither side chooses: a read takes what
has arrived and what there is room for. `onData` is shown what has come in and
was not consumed yet, so a handler that takes complete frames off the front
gets the frames of the stream, whatever the pieces were.

* `chunking_independent` — what `onData` is shown in a run, and the frames.
-/
import LinSocketIo.Base.Framing
import LinSocketIo.Core.Delivery

namespace LinSocketIo.Core.TcpConnection

open LinSocketIo.Base LinSocketIo.Utils Connection

/-- What a run has received, and how much of it was consumed. -/
structure Progress where
  got : List UInt8
  used : Nat

/-- A read adds to what was received, and a handler consumes what it returns, at most
what there is. -/
def Progress.note (c : TcpConnection) (e : Event) (p : Progress) : Progress :=
  match c.delivery e with
  | some (dat, ends) =>
    ⟨p.got ++ dat, p.used + min ends.result.toNat ((p.got ++ dat).length - p.used)⟩
  | none => p

/-- A connection with its progress. -/
def tracked (now : Int) (stackIn stackOut : Nat → UInt8) (start : Start) :
    Machine (TcpConnection × Progress) Event :=
  (machine now stackIn stackOut start).watch ⟨[], 0⟩ fun c e _ p => p.note c e

/-- No call of `onData` throws or returns a negative number. -/
def Consumes (c : TcpConnection) (e : Event) : Prop := ∀ d ∈ c.delivery e, 0 ≤ d.2.result

/-- `onData` is called where a read comes to its end, and shown what was received and not
consumed yet. -/
def Sees (s : TcpConnection × Progress) (e : Event) : Prop :=
  (after e.exec s.1).shown =
    match s.1.delivery e with
    | some (dat, _) => s.1.shown ++ [(s.2.got ++ dat).drop s.2.used]
    | none => s.1.shown

/-- The handler consumes the complete frames of what it is shown. -/
def TakesFrames (F : Framing UInt8) (c : TcpConnection) (e : Event) : Prop :=
  ∀ d ∈ c.delivery e, ∀ data ∈ (after e.exec c).shown.getLast?, d.2.result = F.consumed data

/-- The frames that the handler has seen. -/
def framesSeen (F : Framing UInt8) (c : TcpConnection) : List (List UInt8) := c.shown.flatMap F.frames

/-! ## One event -/

/-- What was received and not consumed is in the buffer. -/
structure Holds (c : TcpConnection) (p : Progress) : Prop where
  wf : c.input.Wf
  used : p.used ≤ p.got.length
  contents : c.input.contents = p.got.drop p.used

variable {c : TcpConnection} {p : Progress} {e : Event}

/-- A call that throws counts as -1. -/
theorem returns_of_result {ends : Ends} (h : 0 ≤ ends.result) : ∃ n, ends = .returns n ∧ 0 ≤ n := by
  cases ends with
  | returns n => exact ⟨n, rfl, h⟩
  | throws e => exact absurd h (show ¬ (0 : Int) ≤ -1 by decide)

theorem exec_after (hwf : c.input.Wf) (hfits : e.Fits c) :
    Connection.Alike (c.delivery e) c (after e.exec c) ∧ (after e.exec c).input.Wf :=
  after_of_wp (P := fun c' => Connection.Alike (c.delivery e) c c' ∧ c'.input.Wf)
    (exec_alike hwf hfits)

theorem exec_sees (hp : Holds c p) (hfits : e.Fits c) : Sees (c, p) e := by
  have halike := (exec_after hp.wf hfits).1
  unfold Sees
  cases hd : c.delivery e with
  | none =>
      rw [hd] at halike
      exact halike.shown
  | some d =>
      obtain ⟨dat, ends⟩ := d
      rw [hd] at halike
      simp only
      rw [halike.presented, hp.contents, List.drop_append_of_le_length hp.used]

theorem exec_holds (hp : Holds c p) (hfits : e.Fits c) (hconsumes : Consumes c e) :
    Holds (after e.exec c) (p.note c e) := by
  obtain ⟨halike, hwf⟩ := exec_after hp.wf hfits
  have hused := hp.used
  unfold Progress.note
  cases hd : c.delivery e with
  | none =>
      rw [hd] at halike
      exact ⟨hwf, hused, halike.kept.trans hp.contents⟩
  | some d =>
      obtain ⟨dat, ends⟩ := d
      obtain ⟨n, rfl, hn⟩ := returns_of_result (hconsumes _ hd)
      rw [hd] at halike
      refine ⟨hwf, ?_, ?_⟩
      · simp only [List.length_append]
        omega
      · rw [halike.kept n rfl hn, hp.contents, ← List.drop_append_of_le_length hused,
          List.drop_drop]
        -- a result beyond what there is counts as all of it
        simp only [Ends.result]
        by_cases hall : n.toNat ≤ (p.got ++ dat).length - p.used
        · rw [Nat.min_eq_left hall]
        · rw [List.drop_eq_nil_of_le (by omega), List.drop_eq_nil_of_le (by omega)]

/-- The frames seen are those of what was received, and what waits is no frame yet. -/
structure Framed (F : Framing UInt8) (c : TcpConnection) (p : Progress) : Prop where
  seen : framesSeen F c = F.frames p.got
  waits : c.input.contents = F.rest p.got

theorem exec_framed {F : Framing UInt8} (hwf : c.input.Wf) (hp : Framed F c p) (hfits : e.Fits c)
    (htakes : TakesFrames F c e) : Framed F (after e.exec c) (p.note c e) := by
  have halike := (exec_after hwf hfits).1
  unfold Progress.note
  cases hd : c.delivery e with
  | none =>
      rw [hd] at halike
      refine ⟨?_, halike.kept.trans hp.waits⟩
      rw [framesSeen, halike.shown]
      exact hp.seen
  | some d =>
      obtain ⟨dat, ends⟩ := d
      rw [hd] at halike
      have hresult := htakes _ hd (c.input.contents ++ dat) (by
        rw [halike.presented, List.getLast?_concat]
        rfl)
      obtain ⟨n, rfl, hn⟩ := returns_of_result (hresult ▸ Int.natCast_nonneg _)
      have hkept := halike.kept n rfl hn
      rw [show n = F.consumed (c.input.contents ++ dat) from hresult, hp.waits] at hkept
      refine ⟨?_, ?_⟩
      · rw [framesSeen, halike.presented, List.flatMap_append, List.flatMap_singleton, hp.waits]
        exact (congrArg (· ++ _) hp.seen).trans (F.frames_append p.got dat).symm
      · rw [hkept, Int.toNat_natCast, F.drop_consumed]
        exact (F.rest_append p.got dat).symm

/-! ## Runs -/

section

variable (now : Int) (stackIn stackOut : Nat → UInt8) (start : Start)

theorem tracked_step {s s' : TcpConnection × Progress}
    (h : (tracked now stackIn stackOut start).step s e = some s') :
    s' = (after e.exec s.1, s.2.note s.1 e) := by
  obtain ⟨t, ht, rfl⟩ := (Machine.watch_step _).mp h
  obtain rfl := Option.some.inj ht
  rfl

theorem start_holds : Holds (start.connection now stackIn stackOut) ⟨[], 0⟩ := by
  have hinput := (start_rests now stackIn stackOut start).input
  refine ⟨?_, Nat.le_refl _, ?_⟩
  · rw [hinput]
    exact ByteBuffer.wf_new true stackIn
  · rw [hinput]
    exact ByteBuffer.contents_new true stackIn

theorem start_framed (F : Framing UInt8) :
    Framed F (start.connection now stackIn stackOut) ⟨[], 0⟩ := by
  refine ⟨?_, (start_holds now stackIn stackOut start).contents⟩
  rw [framesSeen, (start_rests now stackIn stackOut start).shown]
  rfl

/-- **The input does not depend on the reads**: in a run in which no call of `onData` throws or
returns a negative number, every call is shown what was received so far and not consumed yet.
So if the handler consumes the complete frames each time, the frames it has seen are those of
the stream received so far. -/
theorem chunking_independent {events : List Event}
    (hrun : (tracked now stackIn stackOut start).AllSteps
      (fun s e => e.Fits s.1 ∧ Consumes s.1 e) (tracked now stackIn stackOut start).init events) :
    (tracked now stackIn stackOut start).AllSteps Sees
        (tracked now stackIn stackOut start).init events ∧
      ∀ F : Framing UInt8, (tracked now stackIn stackOut start).AllSteps
          (fun s e => TakesFrames F s.1 e) (tracked now stackIn stackOut start).init events →
        ∀ s, (tracked now stackIn stackOut start).run (tracked now stackIn stackOut start).init
          events = some s → framesSeen F s.1 = F.frames s.2.got := by
  refine ⟨Machine.allSteps_of_invariant _ (P := fun s => Holds s.1 s.2)
    (fun s e s' hs hc hstep => ?_) (fun s e hs hc => exec_sees hs hc.1) events
    (start_holds now stackIn stackOut start) hrun, fun F htakes s hs => ?_⟩
  · rw [tracked_step now stackIn stackOut start hstep]
    exact exec_holds hs hc.1 hc.2
  · have hframed := Machine.run_invariant _ (P := fun s => Holds s.1 s.2 ∧ Framed F s.1 s.2)
      (fun s e s' hs hc hstep => ?_) events ⟨start_holds now stackIn stackOut start,
        start_framed now stackIn stackOut start F⟩ (Machine.allSteps_and _ hrun htakes) hs
    · exact hframed.2.seen
    · rw [tracked_step now stackIn stackOut start hstep]
      exact ⟨exec_holds hs.1 hc.1.1 hc.1.2, exec_framed hs.1.wf hs.2 hc.1.1 hc.2⟩

end

/-- The length of a byte and as many bytes as it says. -/
def countedNext : List UInt8 → Option Nat
  | [] => none
  | n :: l => if n.toNat ≤ l.length then some (n.toNat + 1) else none

/-- A frame is a byte and as many bytes as it says. -/
def counted : Framing UInt8 where
  next := countedNext
  pos l n h := by
    cases l with
    | nil => cases h
    | cons a l =>
        simp only [countedNext, Option.ite_none_right_eq_some, Option.some.injEq] at h
        omega
  le l n h := by
    cases l with
    | nil => cases h
    | cons a l =>
        simp only [countedNext, Option.ite_none_right_eq_some, Option.some.injEq] at h
        simp only [List.length_cons]
        omega
  stable l n r h := by
    cases l with
    | nil => cases h
    | cons a l =>
        simp only [countedNext, Option.ite_none_right_eq_some, Option.some.injEq] at h
        simp only [countedNext, List.cons_append, List.length_append,
          Option.ite_none_right_eq_some, Option.some.injEq]
        omega

instance (c : TcpConnection) : DecidablePred (Event.Fits c)
  | .inputLimit _ => inferInstanceAs (Decidable (_ < _))
  | .pass _ | .readable _ | .writable _ | .timeout _ | .close _ | .send _
  | .setKeepaliveTimeout _ => isTrue trivial

instance (c : TcpConnection) (e : Event) : Decidable (Consumes c e) :=
  inferInstanceAs (Decidable (∀ d ∈ c.delivery e, 0 ≤ d.2.result))

instance (F : Framing UInt8) (c : TcpConnection) (e : Event) : Decidable (TakesFrames F c e) :=
  inferInstanceAs (Decidable (∀ d ∈ c.delivery e, ∀ data ∈ (after e.exec c).shown.getLast?,
    d.2.result = F.consumed data))

/-- Three reads of two frames: the first read ends inside the first frame, the second inside
the second. -/
def threeReads : List Event :=
  [.readable (reading [1] (returning 0)), .readable (reading [7, 2, 8] (returning 2)),
    .readable (reading [9] (returning 3))]

theorem chunking_independent_threeReads :
    ∃ s ∈ (tracked 0 (fun _ => 0) (fun _ => 0) (.accepted 0 (returning 0))).run
        (tracked 0 (fun _ => 0) (fun _ => 0) (.accepted 0 (returning 0))).init threeReads,
      framesSeen counted s.1 = [[1, 7], [2, 8, 9]] := by
  have hend : ∃ s ∈ (tracked 0 (fun _ => 0) (fun _ => 0) (.accepted 0 (returning 0))).run
      (tracked 0 (fun _ => 0) (fun _ => 0) (.accepted 0 (returning 0))).init threeReads,
      s.2.got = [1, 7, 2, 8, 9] := by decide +kernel
  obtain ⟨s, hs, hgot⟩ := hend
  have hrun : (tracked 0 (fun _ => 0) (fun _ => 0) (.accepted 0 (returning 0))).AllSteps
      (fun s e => e.Fits s.1 ∧ Consumes s.1 e)
      (tracked 0 (fun _ => 0) (fun _ => 0) (.accepted 0 (returning 0))).init threeReads := by
    decide +kernel
  have hframes := (chunking_independent 0 (fun _ => 0) (fun _ => 0) (.accepted 0 (returning 0))
    hrun).2 counted (by decide +kernel) s hs
  rw [hgot] at hframes
  exact ⟨s, hs, hframes⟩

end LinSocketIo.Core.TcpConnection
