/-
LinSocketIo.Core.ConnectionTableTheorems — the table holds the live
connections.

The invariant speaks of the callbacks on the stack: a connection in the table
is live, or a callback of its own closing is running (`Closing`) and removes it
when it returns. A TCP client whose `connect` succeeds at once is under
construction while its `onConnected` runs, and is put in the table after that
whatever has become of it.

* `table_exact` — in every run whose steps are `Proper`, the table holds
  exactly the live connections whenever no callback is running.
* `closed_in_constructor` — a run that closes a client in its constructor.
-/
import LinSocketIo.Core.ConnectionTable
import LinSocketIo.Core.ManagerTheorems

namespace LinSocketIo.Core

open LinSocketIo.Base

/-- The connection that a callback is for. -/
def Frame.conn : Frame → Nat
  | .closing i _ | .connected i _ | .data i | .write i | .heartbeat i | .failed i | .accepted i
  | .udpAccepted i | .udpData i => i

/-- The connection whose constructor is waiting for the callback. -/
def Frame.constructs : Frame → Option Nat
  | .closing i .construct | .connected i .construct => some i
  | .closing _ _ | .connected _ _ | .data _ | .write _ | .heartbeat _ | .failed _ | .accepted _
  | .udpAccepted _ | .udpData _ => none

/-- `CONNECTTING` or `ESTABLISHED`. -/
def Status.isLive : Status → Bool
  | .connectting | .established => true
  | .disconnected | .socketError => false

/-- The connection was put in the table, and has been neither closed nor deleted. -/
def Conn.isLive (c : Conn) : Bool := c.created && !c.destroyed && c.status.isLive

namespace ConnTable

/-- The connections under construction. -/
def constructing (s : ConnTable) : List Nat := s.stack.filterMap Frame.constructs

/-- A callback of the closing of the connection is running. -/
def Closing (stack : List Frame) (i : Nat) : Prop := ∃ rest, .closing i rest ∈ stack

/-- The connection is in the table under its id. -/
def InTable (s : ConnTable) (i : Nat) : Prop := s.getConnection (s.conns i).connId = some i

/-- The table holds exactly the live connections, each under its id. -/
structure Exact (s : ConnTable) : Prop where
  keys : ∀ id i, s.getConnection id = some i → (s.conns i).connId = id
  table : ∀ i, s.InTable i ↔ (s.conns i).isLive = true

/-- A callback may return: a closing removes no other connection, and an `onConnected` that a
constructor waits for leaves a reference to the connection. -/
def ReturnsProper (s : ConnTable) : Frame → Prop
  | .closing i _ => ∀ j ∈ s.getConnection (s.conns i).connId, j = i
  | .connected i .construct => (s.conns i).kept = true
  | .connected _ .done | .connected _ .data | .data _ | .write _ | .heartbeat _ | .failed _
  | .accepted _ | .udpAccepted _ | .udpData _ => True

/-- A callback may throw with `stack` under it: a closing of a connection that is in the table only
inside another one of it, and an `onConnected` only if no constructor waits for it. -/
def ThrowsProper (s : ConnTable) (stack : List Frame) : Frame → Prop
  | .closing i _ => s.InTable i → Closing stack i
  | .connected _ .construct => False
  | .connected _ .done | .connected _ .data | .data _ | .write _ | .heartbeat _ | .failed _
  | .accepted _ | .udpAccepted _ | .udpData _ => True

/-- The step does not close a client in its constructor and does not connect a connection that is
closed, and a callback may end so. -/
def Proper (s : ConnTable) : Event → Prop
  | .createTcpClient answer io => answer = .done → io = true
  | .close i => i ∉ s.constructing
  | .connect i ok _ => ok = true → (s.conns i).status ≠ .disconnected
  | .returns _ => ∀ f ∈ s.stack.head?, s.ReturnsProper f
  | .throws _ => ∀ f ∈ s.stack.head?, s.ThrowsProper s.stack.tail f
  | .createTcpConnection _ | .createUdpClient _ | .createUdpConnection _ _ | .read _ _ | .write _ _
  | .timeout _ _ | .keep _ _ => True

/-! ## The invariant -/

/-- What holds between two steps. -/
structure Inv (s : ConnTable) : Prop where
  keys : ∀ id i, s.getConnection id = some i → i < s.made ∧ (s.conns i).connId = id
  unmade : ∀ i, s.made ≤ i → (s.conns i).created = false
  failed : ∀ i, (s.conns i).status = .socketError → (s.conns i).created = false
  table : ∀ i, s.InTable i → (s.conns i).created = true ∧ (s.conns i).destroyed = false ∧
    ((s.conns i).status.isLive = true ∨ Closing s.stack i)
  live : ∀ i, (s.conns i).created = true → (s.conns i).status.isLive = true → s.InTable i
  closing : ∀ i, Closing s.stack i → (s.conns i).status = .disconnected
  frames : ∀ f ∈ s.stack, f.conn < s.made
  constructs : ∀ i ∈ s.constructing, (s.conns i).status = .established ∧
    (s.conns i).created = false ∧ (s.conns i).destroyed = false
  sole : ∀ f ∈ s.stack, f.conn ∈ s.constructing → f = .connected f.conn .construct
  nodup : s.constructing.Nodup

theorem inv_init (step id : Nat) : (machine step id).init.Inv where
  keys _ _ h := nomatch h
  unmade _ _ := rfl
  failed _ h := nomatch h
  table _ h := nomatch h
  live _ h := nomatch h
  closing _ h := nomatch h
  frames _ h := nomatch h
  constructs _ h := nomatch h
  sole _ h := nomatch h
  nodup := List.nodup_nil

/-- Between two top-level calls the table is exact. -/
theorem Inv.exact {s : ConnTable} (h : s.Inv) (hstack : s.stack = []) : s.Exact where
  keys id i hi := (h.keys id i hi).2
  table i := by
    rw [Conn.isLive, Bool.and_eq_true, Bool.and_eq_true, Bool.not_eq_true']
    constructor
    · intro hi
      obtain ⟨hcreated, hdestroyed, hlive | ⟨rest, hmem⟩⟩ := h.table i hi
      · exact ⟨⟨hcreated, hdestroyed⟩, hlive⟩
      · rw [hstack] at hmem
        cases hmem
    · rintro ⟨⟨hcreated, -⟩, hlive⟩
      exact h.live i hcreated hlive

variable {s s' : ConnTable}

theorem Inv.not_inTable (h : s.Inv) {i : Nat} (hi : (s.conns i).created = false) : ¬ s.InTable i := by
  intro ht
  have hcreated := (h.table i ht).1
  rw [hi] at hcreated
  cases hcreated

/-- What is not under construction has no constructor waiting for it. -/
theorem not_constructs {i : Nat} (hi : i ∉ s.constructing) {f : Frame} (hf : f ∈ s.stack) :
    f.constructs ≠ some i := fun heq => hi (List.mem_filterMap.mpr ⟨f, hf, heq⟩)

/-! ## The stack -/

/-- The callback on top is done, and a constructor does not wait for it. -/
theorem Inv.pop (h : s.Inv) {f : Frame} {stack : List Frame} (hstack : s.stack = f :: stack)
    (hnone : f.constructs = none)
    (hclosing : ∀ i, s.InTable i → Closing s.stack i → Closing stack i) :
    ({ s with stack := stack } : ConnTable).Inv := by
  have hmem {f' : Frame} (hf : f' ∈ stack) : f' ∈ s.stack := hstack ▸ List.mem_cons_of_mem f hf
  have hsame : ({ s with stack := stack } : ConnTable).constructing = s.constructing := by
    rw [constructing, constructing, hstack, List.filterMap_cons_none hnone]
  refine ⟨h.keys, h.unmade, h.failed, fun i hi => ?_, h.live,
    fun i ⟨rest, hr⟩ => h.closing i ⟨rest, hmem hr⟩, fun f' hf => h.frames f' (hmem hf), ?_,
    fun f' hf => ?_, ?_⟩
  · obtain ⟨hcreated, hdestroyed, hlive | hc⟩ := h.table i hi
    · exact ⟨hcreated, hdestroyed, .inl hlive⟩
    · exact ⟨hcreated, hdestroyed, .inr (hclosing i hi hc)⟩
  · rw [hsame]
    exact h.constructs
  · rw [hsame]
    exact h.sole f' (hmem hf)
  · rw [hsame]
    exact h.nodup

/-- A callback begins that is not part of a closing and that no constructor waits for. -/
theorem Inv.push (h : s.Inv) {f : Frame} (hnone : f.constructs = none) (hmade : f.conn < s.made)
    (hnot : f.conn ∉ s.constructing) (hclosing : ∀ i rest, f ≠ .closing i rest) :
    (s.push f).Inv := by
  have hsame : (s.push f).constructing = s.constructing := List.filterMap_cons_none hnone
  have hclose {i : Nat} : Closing (s.push f).stack i ↔ Closing s.stack i := by
    constructor
    · rintro ⟨rest, hr⟩
      rcases List.mem_cons.mp hr with heq | hr
      · exact absurd heq.symm (hclosing i rest)
      · exact ⟨rest, hr⟩
    · rintro ⟨rest, hr⟩
      exact ⟨rest, List.mem_cons_of_mem f hr⟩
  refine ⟨h.keys, h.unmade, h.failed, fun i hi => ?_, h.live, fun i hi => h.closing i (hclose.mp hi),
    fun f' hf => ?_, ?_, fun f' hf => ?_, ?_⟩
  · rw [hclose]
    exact h.table i hi
  · rcases List.mem_cons.mp hf with rfl | hf
    · exact hmade
    · exact h.frames f' hf
  · rw [hsame]
    exact h.constructs
  · rw [hsame]
    intro hc
    rcases List.mem_cons.mp hf with rfl | hf
    · exact absurd hc hnot
    · exact h.sole f' hf hc
  · rw [hsame]
    exact h.nodup

/-- A closing begins. -/
theorem Inv.handleClose (h : s.Inv) {i : Nat} {rest : Rest} (hi : i < s.made)
    (hnot : i ∉ s.constructing) (hrest : rest ≠ .construct) : (s.handleClose i rest).Inv := by
  have hself : (s.handleClose i rest).conns i = { s.conns i with status := .disconnected } :=
    Function.update_self _ _ _
  have hother {j : Nat} (hj : j ≠ i) : (s.handleClose i rest).conns j = s.conns j :=
    Function.update_of_ne hj _ _
  have hid (j : Nat) : ((s.handleClose i rest).conns j).connId = (s.conns j).connId := by
    by_cases hj : j = i
    · rw [hj, hself]
    · rw [hother hj]
  have hcreated (j : Nat) : ((s.handleClose i rest).conns j).created = (s.conns j).created := by
    by_cases hj : j = i
    · rw [hj, hself]
    · rw [hother hj]
  have htable (j : Nat) : (s.handleClose i rest).InTable j ↔ s.InTable j := by
    rw [InTable, InTable, hid]
    exact Iff.rfl
  have hnone : (Frame.closing i rest).constructs = none := by
    cases rest with
    | construct => exact absurd rfl hrest
    | done => rfl
    | data => rfl
  have hsame : (s.handleClose i rest).constructing = s.constructing := List.filterMap_cons_none hnone
  refine ⟨fun id j hj => ?_, fun j hj => ?_, fun j hj => ?_, fun j hj => ?_, fun j hj hlive => ?_,
    fun j ⟨rest', hj⟩ => ?_, fun f hf => ?_, fun j hj => ?_, fun f hf hc => ?_, ?_⟩
  · rw [hid]
    exact h.keys id j hj
  · rw [hcreated]
    exact h.unmade j hj
  · rw [hcreated]
    by_cases hji : j = i
    · rw [hji, hself] at hj
      cases hj
    · rw [hother hji] at hj
      exact h.failed j hj
  · obtain ⟨hc, hdestroyed, hlive⟩ := h.table j ((htable j).mp hj)
    by_cases hji : j = i
    · subst hji
      rw [hself]
      exact ⟨hc, hdestroyed, .inr ⟨rest, List.mem_cons_self⟩⟩
    · rw [hother hji]
      refine ⟨hc, hdestroyed, hlive.imp_right ?_⟩
      rintro ⟨rest', hr⟩
      exact ⟨rest', List.mem_cons_of_mem _ hr⟩
  · rw [htable]
    rw [hcreated] at hj
    by_cases hji : j = i
    · rw [hji, hself] at hlive
      cases hlive
    · rw [hother hji] at hlive
      exact h.live j hj hlive
  · by_cases hji : j = i
    · rw [hji, hself]
    · rw [hother hji]
      rcases List.mem_cons.mp hj with heq | hj
      · cases heq
        exact absurd rfl hji
      · exact h.closing j ⟨rest', hj⟩
  · rcases List.mem_cons.mp hf with rfl | hf
    · exact hi
    · exact h.frames f hf
  · rw [hsame] at hj
    rw [hother fun heq => hnot (heq ▸ hj)]
    exact h.constructs j hj
  · rw [hsame] at hc
    rcases List.mem_cons.mp hf with rfl | hf
    · exact absurd hc hnot
    · exact h.sole f hf hc
  · rw [hsame]
    exact h.nodup

/-! ## The table -/

/-- The entry of a closed connection is removed. -/
theorem Inv.remove (h : s.Inv) {i : Nat} (hclosed : (s.conns i).status = .disconnected)
    (hkeys : ∀ j, s.getConnection (s.conns i).connId = some j → j = i) :
    (s.removeConnection (s.conns i).connId).Inv ∧
      ¬ (s.removeConnection (s.conns i).connId).InTable i := by
  have hget (id : Nat) : (s.removeConnection (s.conns i).connId).getConnection id =
      if id = (s.conns i).connId then none else s.getConnection id := by
    simp only [getConnection, removeConnection, Manager.removeConnection, List.mem_filter,
      decide_eq_true_eq]
    by_cases hid : id = (s.conns i).connId
    · rw [if_pos hid, if_neg fun hc => hc.2 hid]
    · rw [if_neg hid]
      simp only [hid, ne_eq, not_false_eq_true, and_true]
  have hold {id j : Nat} (hj : (s.removeConnection (s.conns i).connId).getConnection id = some j) :
      s.getConnection id = some j := by
    rw [hget] at hj
    split at hj
    · cases hj
    · exact hj
  refine ⟨⟨fun id j hj => h.keys id j (hold hj), h.unmade, h.failed, fun j hj => h.table j (hold hj),
    fun j hj hlive => ?_, h.closing, h.frames, h.constructs, h.sole, h.nodup⟩, fun hi => ?_⟩
  · have hin := h.live j hj hlive
    show (s.removeConnection (s.conns i).connId).getConnection (s.conns j).connId = some j
    rw [hget, if_neg]
    · exact hin
    · intro heq
      have hji : j = i := hkeys j (heq ▸ hin)
      have hl : (s.conns j).status.isLive = true := hlive
      rw [hji, hclosed] at hl
      cases hl
  · have hi' : (s.removeConnection (s.conns i).connId).getConnection (s.conns i).connId = some i := hi
    rw [hget, if_pos rfl] at hi'
    cases hi'

theorem addConnection_some {i j : Nat} (hget : s.getConnection (s.conns i).connId = some j) :
    s.addConnection i = (s, decide (i = j)) := by
  simp only [addConnection, hget]

theorem addConnection_none {i : Nat} (hget : s.getConnection (s.conns i).connId = none) :
    s.addConnection i = ({ s.setConn i { s.conns i with created := true } with
      mgr := (s.mgr.addConnection (s.conns i).connId).1
      object := Function.update s.object (s.conns i).connId i }, true) := by
  simp only [addConnection, hget]

/-- A connection is put in the table. -/
theorem Inv.add (h : s.Inv) {i : Nat} (hi : i < s.made) (hcreated : (s.conns i).created = false)
    (hdestroyed : (s.conns i).destroyed = false) (hlive : (s.conns i).status.isLive = true)
    (hnot : i ∉ s.constructing) : (s.addConnection i).1.Inv := by
  cases hget : s.getConnection (s.conns i).connId with
  | some j =>
    rw [addConnection_some hget]
    exact h
  | none =>
    rw [addConnection_none hget]
    generalize hs' : ({ s.setConn i { s.conns i with created := true } with
      mgr := (s.mgr.addConnection (s.conns i).connId).1
      object := Function.update s.object (s.conns i).connId i } : ConnTable) = s'
    have hfree : (s.conns i).connId ∉ s.mgr.connections := by
      intro hmem
      rw [getConnection, if_pos hmem] at hget
      cases hget
    have hself : s'.conns i = { s.conns i with created := true } := by
      rw [← hs']
      exact Function.update_self _ _ _
    have hother {j : Nat} (hj : j ≠ i) : s'.conns j = s.conns j := by
      rw [← hs']
      exact Function.update_of_ne hj _ _
    have hstack : s'.stack = s.stack := by rw [← hs']; rfl
    have hmade : s'.made = s.made := by rw [← hs']; rfl
    have hsame : s'.constructing = s.constructing := by rw [constructing, hstack]; rfl
    have hid (j : Nat) : (s'.conns j).connId = (s.conns j).connId := by
      by_cases hj : j = i
      · rw [hj, hself]
      · rw [hother hj]
    have hstatus (j : Nat) : (s'.conns j).status = (s.conns j).status := by
      by_cases hj : j = i
      · rw [hj, hself]
      · rw [hother hj]
    have hget' (id : Nat) : s'.getConnection id =
        if id = (s.conns i).connId then some i else s.getConnection id := by
      rw [← hs', getConnection, getConnection]
      simp only [Manager.addConnection, if_neg hfree, List.mem_cons]
      by_cases heq : id = (s.conns i).connId
      · rw [if_pos (.inl heq), if_pos heq, heq, Function.update_self]
      · rw [if_neg heq, Function.update_of_ne heq]
        simp only [heq, false_or]
    refine ⟨fun id j hj => ?_, fun j hj => ?_, fun j hj => ?_, fun j hj => ?_, fun j hj hl => ?_,
      fun j hj => ?_, fun f hf => ?_, fun j hj => ?_, fun f hf hc => ?_, ?_⟩
    · rw [hid, hmade]
      rw [hget'] at hj
      split at hj
      · next heq =>
        obtain rfl := Option.some.inj hj
        exact ⟨hi, heq.symm⟩
      · exact h.keys id j hj
    · rw [hmade] at hj
      rw [hother (Nat.ne_of_gt (Nat.lt_of_lt_of_le hi hj))]
      exact h.unmade j hj
    · rw [hstatus] at hj
      by_cases hji : j = i
      · rw [hji] at hj
        rw [hj] at hlive
        cases hlive
      · rw [hother hji]
        exact h.failed j hj
    · rw [InTable, hid, hget'] at hj
      rw [hstatus, hstack]
      split at hj
      · obtain rfl := Option.some.inj hj
        rw [hself]
        exact ⟨rfl, hdestroyed, .inl hlive⟩
      · have hin : s.InTable j := hj
        have hji : j ≠ i := by
          rintro rfl
          exact h.not_inTable hcreated hin
        rw [hother hji]
        exact h.table j hin
    · rw [InTable, hid, hget']
      by_cases hji : j = i
      · rw [hji, if_pos rfl]
      · rw [hstatus] at hl
        rw [hother hji] at hj
        have hin := h.live j hj hl
        rw [if_neg]
        · exact hin
        · intro heq
          rw [InTable, heq, hget] at hin
          cases hin
    · rw [hstatus]
      exact h.closing j (hstack ▸ hj)
    · rw [hmade]
      exact h.frames f (hstack ▸ hf)
    · rw [hsame] at hj
      rw [hother fun heq => hnot (heq ▸ hj)]
      exact h.constructs j hj
    · rw [hsame] at hc
      exact h.sole f (hstack ▸ hf) hc
    · rw [hsame]
      exact h.nodup

/-! ## The connections -/

theorem conn_of_constructs {f : Frame} {i : Nat} (hf : f.constructs = some i) : f.conn = i := by
  cases f with
  | closing j rest => cases rest <;> simp_all [Frame.constructs, Frame.conn]
  | connected j rest => cases rest <;> simp_all [Frame.constructs, Frame.conn]
  | _ => cases hf

theorem frame_of_constructing {i : Nat} (hi : i ∈ s.constructing) : ∃ f ∈ s.stack, f.conn = i := by
  obtain ⟨f, hf, hc⟩ := List.mem_filterMap.mp hi
  exact ⟨f, hf, conn_of_constructs hc⟩

/-- A connection changes, and its status only where no callback of it is running: it is connected
and was not closed, or it is not in the table. -/
theorem Inv.setConn (h : s.Inv) {i : Nat} {c : Conn} (hid : c.connId = (s.conns i).connId)
    (hcreated : c.created = (s.conns i).created) (hdestroyed : c.destroyed = (s.conns i).destroyed)
    (hstatus : c.status = (s.conns i).status ∨ (∀ f ∈ s.stack, f.conn ≠ i) ∧
      (c.status = .established ∧ (s.conns i).status ≠ .disconnected ∨ c.created = false)) :
    (s.setConn i c).Inv := by
  have hself : (s.setConn i c).conns i = c := Function.update_self _ _ _
  have hother {j : Nat} (hj : j ≠ i) : (s.setConn i c).conns j = s.conns j :=
    Function.update_of_ne hj _ _
  have hids (j : Nat) : ((s.setConn i c).conns j).connId = (s.conns j).connId := by
    by_cases hj : j = i
    · rw [hj, hself, hid]
    · rw [hother hj]
  have hcreateds (j : Nat) : ((s.setConn i c).conns j).created = (s.conns j).created := by
    by_cases hj : j = i
    · rw [hj, hself, hcreated]
    · rw [hother hj]
  have hdestroyeds (j : Nat) : ((s.setConn i c).conns j).destroyed = (s.conns j).destroyed := by
    by_cases hj : j = i
    · rw [hj, hself, hdestroyed]
    · rw [hother hj]
  have htable (j : Nat) : (s.setConn i c).InTable j ↔ s.InTable j := by
    rw [InTable, InTable, hids]
    exact Iff.rfl
  -- a connection that a callback is for keeps its status
  have hkept {j : Nat} {f : Frame} (hf : f ∈ s.stack) (hj : f.conn = j) :
      ((s.setConn i c).conns j).status = (s.conns j).status := by
    by_cases hji : j = i
    · rcases hstatus with hsame | ⟨hframes, -⟩
      · rw [hji, hself, hsame]
      · exact absurd (hj.trans hji) (hframes f hf)
    · rw [hother hji]
  refine ⟨fun id j hj => ?_, fun j hj => ?_, fun j hj => ?_, fun j hj => ?_, fun j hj hlive => ?_,
    fun j hj => ?_, h.frames, fun j hj => ?_, h.sole, h.nodup⟩
  · rw [hids]
    exact h.keys id j hj
  · rw [hcreateds]
    exact h.unmade j hj
  · by_cases hji : j = i
    · rw [hji, hself] at hj ⊢
      rcases hstatus with hsame | ⟨-, ⟨hest, -⟩ | hno⟩
      · rw [hcreated]
        exact h.failed i (hsame.symm.trans hj)
      · rw [hest] at hj
        cases hj
      · exact hno
    · rw [hother hji] at hj ⊢
      exact h.failed j hj
  · obtain ⟨hc, hd, hlive⟩ := h.table j ((htable j).mp hj)
    rw [hcreateds, hdestroyeds]
    refine ⟨hc, hd, ?_⟩
    rcases hlive with hlive | ⟨rest, hr⟩
    · by_cases hji : j = i
      · rw [hji, hself]
        rcases hstatus with hsame | ⟨-, ⟨hest, -⟩ | hno⟩
        · rw [hsame, ← hji]
          exact .inl hlive
        · rw [hest]
          exact .inl rfl
        · rw [hji, ← hcreated, hno] at hc
          cases hc
      · rw [hother hji]
        exact .inl hlive
    · exact .inr ⟨rest, hr⟩
  · rw [hcreateds] at hj
    rw [htable]
    by_cases hji : j = i
    · rw [hji, hself] at hlive
      subst hji
      rcases hstatus with hsame | ⟨-, ⟨-, hopen⟩ | hno⟩
      · exact h.live j hj (hsame ▸ hlive)
      · refine h.live j hj ?_
        cases hst : (s.conns j).status with
        | connectting => rfl
        | established => rfl
        | disconnected => exact absurd hst hopen
        | socketError =>
          rw [h.failed j hst] at hj
          cases hj
      · rw [hcreated, hj] at hno
        cases hno
    · rw [hother hji] at hlive
      exact h.live j hj hlive
  · obtain ⟨rest, hr⟩ := hj
    rw [hkept hr (show (Frame.closing j rest).conn = j from rfl)]
    exact h.closing j ⟨rest, hr⟩
  · obtain ⟨f, hf, hfj⟩ := frame_of_constructing hj
    rw [hkept hf hfj, hcreateds, hdestroyeds]
    exact h.constructs j hj

/-- A connection is made. -/
theorem Inv.make (h : s.Inv) {type : ConnType} {side : Side} {status : Status} {connected : Bool}
    {i : Nat} (hmake : s.make type side status connected = some (s', i)) :
    s'.Inv ∧ i < s'.made ∧ (∀ f ∈ s'.stack, f.conn ≠ i) ∧ (s'.conns i).status = status ∧
      (s'.conns i).created = false ∧ (s'.conns i).destroyed = false := by
  obtain ⟨⟨mgr, connid⟩, hid, hs'⟩ := Option.map_eq_some_iff.mp hmake
  obtain ⟨rfl, rfl⟩ := Prod.mk.inj hs'
  have hconns : mgr.connections = s.mgr.connections := by
    obtain ⟨m, hm, heq⟩ := Option.map_eq_some_iff.mp hid
    obtain ⟨rfl, -⟩ := Prod.mk.inj heq
    exact (IdSource.search_spec _ hm).2.1
  generalize hs' : ({ s with
    mgr := mgr
    made := s.made + 1
    conns := Function.update s.conns s.made
      ⟨connid, type, side, status, connected, false, false, false⟩ } : ConnTable) = s'
  have hself : s'.conns s.made = ⟨connid, type, side, status, connected, false, false, false⟩ := by
    rw [← hs']
    exact Function.update_self _ _ _
  have hother {j : Nat} (hj : j ≠ s.made) : s'.conns j = s.conns j := by
    rw [← hs']
    exact Function.update_of_ne hj _ _
  have hget (id : Nat) : s'.getConnection id = s.getConnection id := by
    rw [← hs', getConnection, getConnection, hconns]
  have hmade : s'.made = s.made + 1 := by rw [← hs']
  have hstack : s'.stack = s.stack := by rw [← hs']
  have hsame : s'.constructing = s.constructing := by rw [constructing, hstack]; rfl
  have hnew {j : Nat} (hj : s'.InTable j) : j ≠ s.made ∧ s.InTable j := by
    rw [InTable, hget] at hj
    have hne : j ≠ s.made := Nat.ne_of_lt (h.keys _ j hj).1
    rw [hother hne] at hj
    exact ⟨hne, hj⟩
  have hframes : ∀ f ∈ s'.stack, f.conn ≠ s.made := by
    rw [hstack]
    exact fun f hf => Nat.ne_of_lt (h.frames f hf)
  refine ⟨⟨fun id j hj => ?_, fun j hj => ?_, fun j hj => ?_, fun j hj => ?_, fun j hj hlive => ?_,
    fun j hj => ?_, fun f hf => ?_, fun j hj => ?_, fun f hf hc => ?_, ?_⟩, ?_, hframes,
    by rw [hself], by rw [hself], by rw [hself]⟩
  · rw [hget] at hj
    obtain ⟨hlt, hid⟩ := h.keys id j hj
    rw [hother (Nat.ne_of_lt hlt), hmade]
    exact ⟨Nat.lt_succ_of_lt hlt, hid⟩
  · rw [hmade] at hj
    rw [hother (Nat.ne_of_gt hj)]
    exact h.unmade j (Nat.le_of_succ_le hj)
  · by_cases hji : j = s.made
    · rw [hji, hself]
    · rw [hother hji] at hj ⊢
      exact h.failed j hj
  · obtain ⟨hne, hin⟩ := hnew hj
    rw [hother hne, hstack]
    exact h.table j hin
  · by_cases hji : j = s.made
    · rw [hji, hself] at hj
      cases hj
    · rw [hother hji] at hj hlive
      rw [InTable, hget, hother hji]
      exact h.live j hj hlive
  · obtain ⟨rest, hr⟩ := hj
    rw [hother (show j ≠ s.made from hframes _ hr)]
    exact h.closing j ⟨rest, hstack ▸ hr⟩
  · rw [hmade]
    exact Nat.lt_succ_of_lt (h.frames f (hstack ▸ hf))
  · obtain ⟨f, hf, rfl⟩ := frame_of_constructing hj
    rw [hother (hframes f hf)]
    exact h.constructs _ (hsame ▸ hj)
  · rw [hsame] at hc
    exact h.sole f (hstack ▸ hf) hc
  · rw [hsame]
    exact h.nodup
  · rw [hmade]
    exact Nat.lt_succ_self _

/-! ## Creation -/

theorem not_constructing {i : Nat} (hframes : ∀ f ∈ s.stack, f.conn ≠ i) : i ∉ s.constructing := by
  intro hi
  obtain ⟨f, hf, hfi⟩ := frame_of_constructing hi
  exact hframes f hf hfi

/-- `onConnected` is called in a constructor. -/
theorem Inv.pushConstruct (h : s.Inv) {i : Nat} (hi : i < s.made)
    (hframes : ∀ f ∈ s.stack, f.conn ≠ i) (hstatus : (s.conns i).status = .established)
    (hcreated : (s.conns i).created = false) (hdestroyed : (s.conns i).destroyed = false) :
    (s.push (.connected i .construct)).Inv := by
  have hsame : (s.push (.connected i .construct)).constructing = i :: s.constructing :=
    List.filterMap_cons_some rfl
  have hclose {j : Nat} : Closing (s.push (.connected i .construct)).stack j ↔ Closing s.stack j := by
    constructor
    · rintro ⟨rest, hr⟩
      rcases List.mem_cons.mp hr with heq | hr
      · cases heq
      · exact ⟨rest, hr⟩
    · rintro ⟨rest, hr⟩
      exact ⟨rest, List.mem_cons_of_mem _ hr⟩
  refine ⟨h.keys, h.unmade, h.failed, fun j hj => ?_, h.live, fun j hj => h.closing j (hclose.mp hj),
    fun f hf => ?_, fun j hj => ?_, fun f hf hc => ?_, ?_⟩
  · rw [hclose]
    exact h.table j hj
  · rcases List.mem_cons.mp hf with rfl | hf
    · exact hi
    · exact h.frames f hf
  · rw [hsame] at hj
    rcases List.mem_cons.mp hj with rfl | hj
    · exact ⟨hstatus, hcreated, hdestroyed⟩
    · exact h.constructs j hj
  · rw [hsame] at hc
    rcases List.mem_cons.mp hf with rfl | hf
    · rfl
    · rcases List.mem_cons.mp hc with heq | hc
      · exact absurd heq (hframes f hf)
      · exact h.sole f hf hc
  · rw [hsame]
    exact List.nodup_cons.mpr ⟨not_constructing hframes, h.nodup⟩

/-- `onConnected` returns to the constructor. -/
theorem Inv.popConstruct (h : s.Inv) {i : Nat} {stack : List Frame}
    (hstack : s.stack = .connected i .construct :: stack) :
    ({ s with stack := stack } : ConnTable).Inv ∧
      i ∉ ({ s with stack := stack } : ConnTable).constructing := by
  have hmem {f : Frame} (hf : f ∈ stack) : f ∈ s.stack := hstack ▸ List.mem_cons_of_mem _ hf
  have hcons : s.constructing = i :: ({ s with stack := stack } : ConnTable).constructing := by
    rw [constructing, constructing, hstack]
    exact List.filterMap_cons_some rfl
  have hnodup := h.nodup
  rw [hcons] at hnodup
  refine ⟨⟨h.keys, h.unmade, h.failed, fun j hj => ?_, h.live,
    fun j ⟨rest, hr⟩ => h.closing j ⟨rest, hmem hr⟩, fun f hf => h.frames f (hmem hf), fun j hj => ?_,
    fun f hf hc => ?_, (List.nodup_cons.mp hnodup).2⟩, (List.nodup_cons.mp hnodup).1⟩
  · obtain ⟨hcreated, hdestroyed, hlive | ⟨rest, hr⟩⟩ := h.table j hj
    · exact ⟨hcreated, hdestroyed, .inl hlive⟩
    · refine ⟨hcreated, hdestroyed, .inr ⟨rest, ?_⟩⟩
      rw [hstack] at hr
      rcases List.mem_cons.mp hr with heq | hr
      · cases heq
      · exact hr
  · exact h.constructs j (hcons ▸ List.mem_cons_of_mem i hj)
  · exact h.sole f (hmem hf) (hcons ▸ List.mem_cons_of_mem i hc)

theorem live_of_open {status : Status} (herror : status ≠ .socketError)
    (hopen : status ≠ .disconnected) : status.isLive = true := by
  cases status with
  | connectting => rfl
  | established => rfl
  | disconnected => exact absurd rfl hopen
  | socketError => exact absurd rfl herror

/-- What `createTcpClient` does once the object is made. -/
theorem Inv.tcpClient (h : s.Inv) {i : Nat} (hi : i < s.made) (hnot : i ∉ s.constructing)
    (hopen : (s.conns i).status ≠ .disconnected) (hcreated : (s.conns i).created = false)
    (hdestroyed : (s.conns i).destroyed = false) : (s.tcpClient i).Inv := by
  rw [ConnTable.tcpClient]
  split
  · exact h.push rfl hi hnot nofun
  · next herror => exact h.add hi hcreated hdestroyed (live_of_open herror hopen) hnot

/-- A connection is put in the table, and a callback of it begins. -/
theorem Inv.addPush (h : s.Inv) {i : Nat} {f : Frame} (hi : i < s.made) (hnot : i ∉ s.constructing)
    (hlive : (s.conns i).status.isLive = true) (hcreated : (s.conns i).created = false)
    (hdestroyed : (s.conns i).destroyed = false) (hconn : f.conn = i) (hnone : f.constructs = none)
    (hclosing : ∀ i rest, f ≠ .closing i rest) :
    (if (s.addConnection i).2 then (s.addConnection i).1.push f else (s.addConnection i).1).Inv := by
  have hadd := h.add hi hcreated hdestroyed hlive hnot
  split
  · refine hadd.push hnone ?_ ?_ hclosing
    · rw [hconn]
      cases hget : s.getConnection (s.conns i).connId with
      | some j =>
        rw [addConnection_some hget]
        exact hi
      | none =>
        rw [addConnection_none hget]
        exact hi
    · rw [hconn]
      cases hget : s.getConnection (s.conns i).connId with
      | some j =>
        rw [addConnection_some hget]
        exact hnot
      | none =>
        rw [addConnection_none hget]
        exact hnot
  · exact hadd

/-- What `createUdpClient` does once the object is made. -/
theorem Inv.udpClient (h : s.Inv) {i : Nat} (hi : i < s.made) (hnot : i ∉ s.constructing)
    (hopen : (s.conns i).status ≠ .disconnected) (hcreated : (s.conns i).created = false)
    (hdestroyed : (s.conns i).destroyed = false) : (s.udpClient i).Inv := by
  rw [ConnTable.udpClient]
  split
  · exact h.push rfl hi hnot nofun
  · next herror =>
    exact h.addPush hi hnot (live_of_open herror hopen) hcreated hdestroyed rfl rfl nofun

/-- What `createTcpConnection` and `createUdpConnection` do once the object is made. -/
theorem Inv.accept (h : s.Inv) {i : Nat} {f : Frame} (hi : i < s.made) (hnot : i ∉ s.constructing)
    (hcreated : (s.conns i).created = false) (hdestroyed : (s.conns i).destroyed = false)
    (hconn : f.conn = i) (hnone : f.constructs = none) (hclosing : ∀ i rest, f ≠ .closing i rest) :
    (s.accept i f).Inv := by
  rw [ConnTable.accept]
  split
  · exact h
  · next hest =>
    have hlive : (s.conns i).status.isLive = true := by
      rw [not_ne_iff.mp hest]
      rfl
    exact h.addPush hi hnot hlive hcreated hdestroyed hconn hnone hclosing

/-! ## Steps -/

/-- What follows a callback that no constructor waits for. -/
theorem Inv.finish (h : s.Inv) {i : Nat} {rest : Rest} (hrest : rest ≠ .construct) (hi : i < s.made)
    (hnot : i ∉ s.constructing) : (s.finish i rest).Inv := by
  cases rest with
  | done => exact h
  | data => exact h.push rfl hi hnot nofun
  | construct => exact absurd rfl hrest

/-- A callback that is not `onConnected` in a constructor. -/
theorem Inv.top (h : s.Inv) {f : Frame} {stack : List Frame} (hstack : s.stack = f :: stack)
    (hf : ∀ i, f ≠ .connected i .construct) :
    f.conn < s.made ∧ f.conn ∉ s.constructing ∧ f.constructs = none := by
  have hmem : f ∈ s.stack := hstack ▸ List.mem_cons_self
  have hnot : f.conn ∉ s.constructing := fun hc => hf _ (h.sole f hmem hc)
  refine ⟨h.frames f hmem, hnot, ?_⟩
  cases hc : f.constructs with
  | none => rfl
  | some i => exact absurd (conn_of_constructs hc ▸ hc) (not_constructs hnot hmem)

/-- The callback on top is done and is not a closing. -/
theorem Inv.popOther (h : s.Inv) {f : Frame} {stack : List Frame} (hstack : s.stack = f :: stack)
    (hnone : f.constructs = none) (hclosing : ∀ i rest, f ≠ .closing i rest) :
    ({ s with stack := stack } : ConnTable).Inv := by
  refine h.pop hstack hnone fun i _ ⟨rest, hr⟩ => ⟨rest, ?_⟩
  rw [hstack] at hr
  rcases List.mem_cons.mp hr with heq | hr
  · exact absurd heq.symm (hclosing i rest)
  · exact hr

/-- What is under construction stays so when another callback is done. -/
theorem constructing_tail {f : Frame} {stack : List Frame} (hstack : s.stack = f :: stack)
    (hnone : f.constructs = none) :
    ({ s with stack := stack } : ConnTable).constructing = s.constructing := by
  rw [constructing, constructing, hstack, List.filterMap_cons_none hnone]

/-- The callback on top returns. -/
theorem Inv.returns (h : s.Inv) {f : Frame} {stack : List Frame} {negative : Bool}
    (hstack : s.stack = f :: stack) (hproper : s.ReturnsProper f) :
    (({ s with stack := stack } : ConnTable).returns negative f).Inv := by
  by_cases hc : ∃ i, f = .connected i .construct
  · obtain ⟨i, rfl⟩ := hc
    have hkept : (s.conns i).kept = true := hproper
    have hi : (Frame.connected i .construct).conn < s.made :=
      h.frames _ (hstack ▸ List.mem_cons_self)
    have hmem : i ∈ s.constructing := List.mem_filterMap.mpr
      ⟨_, hstack ▸ List.mem_cons_self, rfl⟩
    obtain ⟨hstatus, hcreated, hdestroyed⟩ := h.constructs i hmem
    obtain ⟨hpop, hnot⟩ := h.popConstruct hstack
    have hset := hpop.setConn (i := i) (c := { s.conns i with destroyed := !(s.conns i).kept }) rfl rfl
      (by rw [hkept]; exact hdestroyed.symm) (.inl rfl)
    have hself : (({ s with stack := stack } : ConnTable).setConn i
        { s.conns i with destroyed := !(s.conns i).kept }).conns i =
        { s.conns i with destroyed := !(s.conns i).kept } := Function.update_self _ _ _
    refine hset.tcpClient hi hnot ?_ ?_ ?_
    · rw [hself]
      show (s.conns i).status ≠ _
      rw [hstatus]
      exact nofun
    · rw [hself]
      exact hcreated
    · rw [hself]
      show (!(s.conns i).kept) = false
      rw [hkept]
      rfl
  · obtain ⟨hi, hnot, hnone⟩ := h.top hstack fun i heq => hc ⟨i, heq⟩
    have hnot' := hnot
    rw [← constructing_tail hstack hnone] at hnot'
    cases f with
    | closing i rest =>
      have hclosed := h.closing i ⟨rest, hstack ▸ List.mem_cons_self⟩
      obtain ⟨hremove, hgone⟩ := h.remove hclosed hproper
      have hrest : rest ≠ .construct := by
        rintro rfl
        cases hnone
      have hstack' : (s.removeConnection (s.conns i).connId).stack = .closing i rest :: stack := hstack
      refine (hremove.pop hstack' hnone fun j hj ⟨rest', hr⟩ => ⟨rest', ?_⟩).finish hrest hi hnot'
      rw [hstack'] at hr
      rcases List.mem_cons.mp hr with heq | hr
      · cases heq
        exact absurd hj hgone
      · exact hr
    | connected i rest =>
      have hrest : rest ≠ .construct := by
        rintro rfl
        exact hc ⟨i, rfl⟩
      exact (h.popOther hstack hnone nofun).finish hrest hi hnot'
    | data i =>
      have hpop := h.popOther hstack hnone nofun
      show (if negative = true then _ else _ : ConnTable).Inv
      split
      · exact hpop.handleClose hi hnot' nofun
      · exact hpop
    | udpAccepted i => exact (h.popOther hstack hnone nofun).push rfl hi hnot' nofun
    | write i => exact h.popOther hstack hnone nofun
    | heartbeat i => exact h.popOther hstack hnone nofun
    | failed i => exact h.popOther hstack hnone nofun
    | accepted i => exact h.popOther hstack hnone nofun
    | udpData i => exact h.popOther hstack hnone nofun

/-- The callback on top throws. -/
theorem Inv.throws (h : s.Inv) {f : Frame} {stack : List Frame} {socketError : Bool}
    (hstack : s.stack = f :: stack) (hproper : s.ThrowsProper stack f) :
    (({ s with stack := stack } : ConnTable).throws socketError f).Inv := by
  obtain ⟨hi, hnot, hnone⟩ := h.top hstack fun i heq => by
    rw [heq] at hproper
    exact hproper
  have hnot' := hnot
  rw [← constructing_tail hstack hnone] at hnot'
  cases f with
  | closing i rest =>
    have hrest : rest ≠ .construct := by
      rintro rfl
      cases hnone
    refine (h.pop hstack hnone fun j hj ⟨rest', hr⟩ => ?_).finish hrest hi hnot'
    rw [hstack] at hr
    rcases List.mem_cons.mp hr with heq | hr
    · cases heq
      exact hproper hj
    · exact ⟨rest', hr⟩
  | connected i rest =>
    have hrest : rest ≠ .construct := by
      rintro rfl
      exact hproper
    exact (h.popOther hstack hnone nofun).handleClose hi hnot' hrest
  | data i => exact (h.popOther hstack hnone nofun).handleClose hi hnot' nofun
  | write i =>
    have hpop := h.popOther hstack hnone nofun
    show (if socketError = true then _ else _ : ConnTable).Inv
    split
    · exact hpop.handleClose hi hnot' nofun
    · exact hpop
  | udpAccepted i => exact h.popOther hstack hnone nofun
  | heartbeat i => exact h.popOther hstack hnone nofun
  | failed i => exact h.popOther hstack hnone nofun
  | accepted i => exact h.popOther hstack hnone nofun
  | udpData i => exact h.popOther hstack hnone nofun

/-- The selector calls a connection while no callback is running. -/
theorem of_selected {i : Nat} {connected : Bool} (hsel : s.selected i connected = true) :
    s.stack = [] ∧ i < s.made ∧ i ∉ s.constructing := by
  obtain ⟨hstack, hi, -⟩ := of_decide_eq_true hsel
  refine ⟨hstack, hi, fun hmem => ?_⟩
  rw [constructing, hstack] at hmem
  cases hmem

/-- A socket is connected. -/
theorem Inv.connect (h : s.Inv) {i : Nat} (hframes : ∀ f ∈ s.stack, f.conn ≠ i)
    (hopen : (s.conns i).status ≠ .disconnected) :
    (s.setConn i { s.conns i with connected := true, status := .established }).Inv :=
  h.setConn rfl rfl rfl (.inr ⟨hframes, .inl ⟨rfl, hopen⟩⟩)

/-- `onConnected` of a connected TCP socket, out of the main loop. -/
theorem Inv.onConnected (h : s.Inv) {i : Nat} {io : Bool} (hstack : s.stack = []) (hi : i < s.made)
    (hopen : (s.conns i).status ≠ .disconnected) : (s.onConnected i .done io).Inv := by
  have hframes : ∀ f ∈ s.stack, f.conn ≠ i := by
    rw [hstack]
    exact nofun
  have hconnect := h.connect hframes hopen
  rw [ConnTable.onConnected]
  split
  · exact hconnect.push rfl hi (not_constructing hframes) nofun
  · exact hconnect.handleClose hi (not_constructing hframes) nofun

/-- A call of `createTcpClient`. -/
theorem Inv.createTcpClient (h : s.Inv) {answer : ConnectAnswer} {io : Bool}
    (hproper : answer = .done → io = true)
    (hstep : s.step (.createTcpClient answer io) = some s') : s'.Inv := by
  obtain ⟨⟨s₁, i⟩, hmake, hs'⟩ := Option.map_eq_some_iff.mp hstep
  obtain ⟨h₁, hi, hframes, hstatus, hcreated, hdestroyed⟩ := h.make hmake
  have hnot := not_constructing hframes
  cases answer with
  | done =>
    have hself : (s₁.setConn i { s₁.conns i with connected := true, status := .established }).conns i =
        { s₁.conns i with connected := true, status := .established } := Function.update_self _ _ _
    have hconnect := h₁.connect hframes (by rw [hstatus]; exact nofun)
    have hpush := hconnect.pushConstruct hi hframes (by rw [hself]) (by rw [hself]; exact hcreated)
      (by rw [hself]; exact hdestroyed)
    rw [← hs', hproper rfl]
    exact hpush
  | pending =>
    rw [← hs']
    exact h₁.tcpClient hi hnot (by rw [hstatus]; exact nofun) hcreated hdestroyed
  | fails what =>
    have hself : (s₁.setStatus i .socketError).conns i = { s₁.conns i with status := .socketError } :=
      Function.update_self _ _ _
    have hset : (s₁.setStatus i .socketError).Inv :=
      h₁.setConn rfl rfl rfl (.inr ⟨hframes, .inr hcreated⟩)
    rw [← hs']
    refine hset.tcpClient hi hnot ?_ ?_ ?_
    · rw [hself]
      exact nofun
    · rw [hself]
      exact hcreated
    · rw [hself]
      exact hdestroyed

/-- A connection of `createUdpClient` is made. -/
theorem Inv.createUdpClient (h : s.Inv) (status : Status) (connected : Bool)
    (hopen : status ≠ .disconnected)
    (hstep : (s.make .udp .client status connected).map (fun (s, i) => s.udpClient i) = some s') :
    s'.Inv := by
  obtain ⟨⟨s₁, i⟩, hmake, hs'⟩ := Option.map_eq_some_iff.mp hstep
  obtain ⟨h₁, hi, hframes, hstatus, hcreated, hdestroyed⟩ := h.make hmake
  rw [← hs']
  exact h₁.udpClient hi (not_constructing hframes) (hstatus ▸ hopen) hcreated hdestroyed

/-- What a proper step keeps. -/
theorem step_inv {ev : Event} (h : s.Inv) (hproper : s.Proper ev) (hstep : s.step ev = some s') :
    s'.Inv := by
  cases ev with
  | createTcpClient answer io => exact h.createTcpClient hproper hstep
  | createTcpConnection io =>
    obtain ⟨⟨s₁, i⟩, hmake, hs'⟩ := Option.map_eq_some_iff.mp hstep
    obtain ⟨h₁, hi, hframes, -, hcreated, hdestroyed⟩ := h.make hmake
    rw [← hs']
    exact h₁.accept hi (not_constructing hframes) hcreated hdestroyed rfl rfl nofun
  | createUdpClient answer =>
    cases answer with
    | done => exact h.createUdpClient .established true nofun hstep
    | pending => exact h.createUdpClient .connectting false nofun hstep
    | fails what => exact h.createUdpClient .socketError false nofun hstep
  | createUdpConnection curConnId io =>
    simp only [step] at hstep
    split at hstep
    · next j hj =>
      obtain rfl := Option.some.inj hstep
      have hget : s.getConnection curConnId = some j := by
        split at hj
        · cases hj
        · exact hj
      obtain ⟨hlt, hid⟩ := h.keys _ j hget
      refine h.push rfl hlt (fun hmem => ?_) nofun
      have hnone := (h.constructs j hmem).2.1
      exact h.not_inTable hnone (by rw [InTable, hid]; exact hget)
    · obtain ⟨⟨s₁, i⟩, hmake, hs'⟩ := Option.map_eq_some_iff.mp hstep
      obtain ⟨h₁, hi, hframes, -, hcreated, hdestroyed⟩ := h.make hmake
      rw [← hs']
      exact h₁.accept hi (not_constructing hframes) hcreated hdestroyed rfl rfl nofun
  | connect i ok io =>
    simp only [step] at hstep
    split at hstep
    · next hsel =>
      obtain ⟨hstack, hi, hnot⟩ := of_selected hsel
      split at hstep
      · obtain rfl := Option.some.inj hstep
        exact h.onConnected hstack hi (hproper rfl)
      · obtain rfl := Option.some.inj hstep
        exact h.handleClose hi hnot nofun
      · obtain rfl := Option.some.inj hstep
        exact h.connect (by rw [hstack]; exact nofun) (hproper rfl)
      · obtain rfl := Option.some.inj hstep
        exact h
    · cases hstep
  | read i received =>
    simp only [step] at hstep
    split at hstep
    · next hsel =>
      obtain ⟨-, hi, hnot⟩ := of_selected hsel
      split at hstep
      · obtain rfl := Option.some.inj hstep
        exact h.push rfl hi hnot nofun
      · obtain rfl := Option.some.inj hstep
        exact h.handleClose hi hnot nofun
      · obtain rfl := Option.some.inj hstep
        exact h.handleClose hi hnot nofun
      · obtain rfl := Option.some.inj hstep
        exact h
    · cases hstep
  | write i flushed =>
    simp only [step] at hstep
    split at hstep
    · next hsel =>
      obtain ⟨-, hi, hnot⟩ := of_selected hsel
      cases flushed with
      | empty =>
        obtain rfl := Option.some.inj hstep
        exact h.push rfl hi hnot nofun
      | waits =>
        obtain rfl := Option.some.inj hstep
        exact h
      | fails =>
        obtain rfl := Option.some.inj hstep
        exact h.handleClose hi hnot nofun
    · cases hstep
  | timeout i expired =>
    simp only [step] at hstep
    split at hstep
    · next hsel =>
      obtain ⟨-, hi, hnot⟩ := of_selected hsel
      split at hstep
      · obtain rfl := Option.some.inj hstep
        exact h.handleClose hi hnot nofun
      · split at hstep
        · obtain rfl := Option.some.inj hstep
          exact h
        · obtain rfl := Option.some.inj hstep
          exact h.push rfl hi hnot nofun
    · cases hstep
  | close i =>
    simp only [step, Option.ite_none_right_eq_some, Option.some.injEq] at hstep
    obtain ⟨hi, rfl⟩ := hstep
    exact h.handleClose hi hproper nofun
  | keep i kept =>
    simp only [step, Option.ite_none_right_eq_some, Option.some.injEq] at hstep
    obtain ⟨hi, rfl⟩ := hstep
    exact h.setConn rfl rfl rfl (.inl rfl)
  | returns negative =>
    simp only [step] at hstep
    split at hstep
    · cases hstep
    · next f stack hstack =>
      obtain rfl := Option.some.inj hstep
      exact h.returns hstack (hproper f (by rw [hstack]; rfl))
  | throws socketError =>
    simp only [step] at hstep
    split at hstep
    · cases hstep
    · next f stack hstack =>
      obtain rfl := Option.some.inj hstep
      have hthrows := hproper f (by rw [hstack]; rfl)
      rw [hstack] at hthrows
      exact h.throws hstack hthrows

/-! ## Runs -/

/-- **The table holds exactly the live connections.** In every run whose steps are proper, whenever
no callback is running, a connection is in the table, under its id, if and only if it was put there
and has been neither closed nor deleted. -/
theorem table_exact (n id : Nat) {evs : List Event}
    (hproper : (machine n id).AllSteps Proper (machine n id).init evs)
    (hrun : (machine n id).run (machine n id).init evs = some s) (hstack : s.stack = []) : s.Exact :=
  ((machine n id).run_invariant (fun _ _ _ h hp hs => step_inv h hp hs) evs (inv_init n id) hproper
    hrun).exact hstack

/-- A TCP client whose `connect` is pending is connected, and a second one closes it. -/
def twoClients : List Event :=
  [.createTcpClient .pending true, .createUdpClient .done, .returns false, .connect 0 true true,
    .returns false, .read 1 .bytes, .close 0, .returns false, .returns false]

instance (s : ConnTable) (i : Nat) : Decidable (s.InTable i) := inferInstanceAs (Decidable (_ = _))

instance (stack : List Frame) (i : Nat) : Decidable (Closing stack i) :=
  decidable_of_iff (.closing i .done ∈ stack ∨ .closing i .data ∈ stack ∨ .closing i .construct ∈ stack)
    ⟨fun h => h.elim (⟨_, ·⟩) fun h => h.elim (⟨_, ·⟩) (⟨_, ·⟩), fun ⟨rest, h⟩ =>
      match rest, h with
      | .done, h => .inl h
      | .data, h => .inr (.inl h)
      | .construct, h => .inr (.inr h)⟩

instance (s : ConnTable) (f : Frame) : Decidable (s.ReturnsProper f) :=
  match f with
  | .closing i _ => inferInstanceAs (Decidable (∀ j ∈ s.getConnection (s.conns i).connId, j = i))
  | .connected i .construct => inferInstanceAs (Decidable ((s.conns i).kept = true))
  | .connected _ .done | .connected _ .data | .data _ | .write _ | .heartbeat _ | .failed _
  | .accepted _ | .udpAccepted _ | .udpData _ => isTrue trivial

instance (s : ConnTable) (stack : List Frame) (f : Frame) : Decidable (s.ThrowsProper stack f) :=
  match f with
  | .closing i _ => inferInstanceAs (Decidable (s.InTable i → Closing stack i))
  | .connected _ .construct => isFalse id
  | .connected _ .done | .connected _ .data | .data _ | .write _ | .heartbeat _ | .failed _
  | .accepted _ | .udpAccepted _ | .udpData _ => isTrue trivial

instance (s : ConnTable) (ev : Event) : Decidable (s.Proper ev) :=
  match ev with
  | .createTcpClient answer io => inferInstanceAs (Decidable (answer = .done → io = true))
  | .close i => inferInstanceAs (Decidable (i ∉ s.constructing))
  | .connect i ok _ => inferInstanceAs (Decidable (ok = true → (s.conns i).status ≠ .disconnected))
  | .returns _ => inferInstanceAs (Decidable (∀ f ∈ s.stack.head?, s.ReturnsProper f))
  | .throws _ => inferInstanceAs (Decidable (∀ f ∈ s.stack.head?, s.ThrowsProper s.stack.tail f))
  | .createTcpConnection _ | .createUdpClient _ | .createUdpConnection _ _ | .read _ _ | .write _ _
  | .timeout _ _ | .keep _ _ => isTrue trivial

/-- The table holds the second client, and the first one no more. -/
theorem table_exact_two : ∃ s, (machine 1 1).run (machine 1 1).init twoClients = some s ∧
    s.Exact ∧ s.made = 2 ∧ ¬ s.InTable 0 ∧ s.InTable 1 := by
  obtain ⟨s, hrun⟩ := Option.isSome_iff_exists.mp
    (show ((machine 1 1).run (machine 1 1).init twoClients).isSome = true by decide +kernel)
  have hend : ((machine 1 1).run (machine 1 1).init twoClients).map
      (fun s => (s.stack, s.made, decide (s.InTable 0), decide (s.InTable 1))) =
      some ([], 2, false, true) := by
    decide +kernel
  rw [hrun] at hend
  obtain ⟨hstack, hmade, hfirst, hsecond⟩ : s.stack = [] ∧ s.made = 2 ∧
      decide (s.InTable 0) = false ∧ decide (s.InTable 1) = true := by simpa using hend
  exact ⟨s, hrun, table_exact 1 1 (by decide +kernel) hrun hstack, hmade,
    of_decide_eq_false hfirst, of_decide_eq_true hsecond⟩

/-- **A closed connection stays in the table.** The `connect` of a TCP client succeeds at once, and
its `onConnected` keeps a reference and closes it. -/
theorem closed_in_constructor : ∃ evs s, (machine 1 1).run (machine 1 1).init evs = some s ∧
    s.stack = [] ∧ ¬ s.Exact := by
  let evs : List Event := [.createTcpClient .done true, .keep 0 true, .close 0, .returns false,
    .returns false]
  obtain ⟨s, hrun⟩ := Option.isSome_iff_exists.mp
    (show ((machine 1 1).run (machine 1 1).init evs).isSome = true by decide +kernel)
  have hend : ((machine 1 1).run (machine 1 1).init evs).map
      (fun s => (s.stack, decide (s.InTable 0), (s.conns 0).isLive)) = some ([], true, false) := by
    decide +kernel
  rw [hrun] at hend
  obtain ⟨hstack, hend⟩ := Prod.mk.inj (Option.some.inj hend)
  obtain ⟨htable, hlive⟩ := Prod.mk.inj hend
  refine ⟨evs, s, hrun, hstack, fun hexact => ?_⟩
  have h := (hexact.table 0).mp (of_decide_eq_true htable)
  rw [hlive] at h
  cases h

end ConnTable

end LinSocketIo.Core
