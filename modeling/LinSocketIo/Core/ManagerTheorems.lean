/-
LinSocketIo.Core.ManagerTheorems — which connection ids route to their
owner.

Before the seed wraps around, the `k`-th id of worker `w` is `w - 1 + k * n`
(`Fresh`), whatever is added and removed in between: an id that is larger
than all before it is in no table. The first id after the wrap is congruent
to `w - 1 - 2 ^ 32`, and it is in no table either, because the table only
holds ids of the old residue. So the residue survives the wrap exactly when
`n` divides `2 ^ 32`.

* `ids_route_iff` — the ids of all workers route to their owners if and only
  if `n` divides `2 ^ 32` or no seed has wrapped.
* `shared_thread_iff` — worker 0 gets the manager with id 0 as well when it first
  accepts a connection, and no task is ever routed to worker 0: ids are unique and
  tasks reach their connections exactly while worker 0 has no connection.
* `id_of_third_worker` — a run of the first of three workers that hands out
  an id of another one.
-/
import LinSocketIo.Core.Manager

namespace LinSocketIo.Core

open LinSocketIo.Base

/-! ## One manager -/

namespace IdSource

/-- The number of calls of `getConnectionId`. -/
def calls : List IdEvent → Nat
  | [] => 0
  | .getConnectionId :: evs => calls evs + 1
  | _ :: evs => calls evs

/-- The seed stays in range and keeps its step; the table holds ids that were
handed out. -/
structure Inv (n : Nat) (s : IdSource) : Prop where
  step : s.mgr.step = n
  table : ∀ id ∈ s.mgr.connections, id ∈ s.handed

/-- Nothing has wrapped: the ids are the first terms of the progression. -/
structure Fresh (n w k : Nat) (s : IdSource) : Prop where
  seed : s.mgr.seed = w - 1 + k * n
  range : s.mgr.seed < 4294967296
  le : ∀ id ∈ s.handed, id ≤ s.mgr.seed
  residue : ∀ id ∈ s.handed, id % n = w - 1

/-- The loop ends in its first round when the next seed is in no table. -/
theorem search_of_free {m : Manager} (rounds : Nat) (h : m.nextSeed ∉ m.connections) :
    Manager.search (rounds + 1) m = some { m with seed := m.nextSeed } := by
  simp only [Manager.search, if_neg h]

/-- When the next seed is in no table, it is the next id. -/
theorem step_getConnectionId {s : IdSource} (h : s.mgr.nextSeed ∉ s.mgr.connections) :
    s.step .getConnectionId =
      some ⟨{ s.mgr with seed := s.mgr.nextSeed }, s.mgr.nextSeed :: s.handed⟩ := by
  have hsearch : Manager.search Manager.allSeeds s.mgr
      = some { s.mgr with seed := s.mgr.nextSeed } := search_of_free 4294967295 h
  simp only [step, Manager.getConnectionId, hsearch, Option.map_some]

theorem nextSeed_range (m : Manager) : m.nextSeed < 4294967296 := by
  simp only [Manager.nextSeed]
  split
  · exact toUInt32_lt _
  · exact toUInt32_lt _

/-- Before the wrap the next seed is one step up. -/
theorem nextSeed_of_lt {m : Manager} (hpos : 0 < m.step) (h : m.seed + m.step < 4294967296) :
    m.nextSeed = m.seed + m.step := by
  simp only [Manager.nextSeed, toUInt32_of_lt h]
  rw [if_neg (by omega)]

/-- At the wrap the next seed is one step up, less `2 ^ 32`, and one more step up
if that is 0. -/
theorem nextSeed_of_wrap {m : Manager} (hpos : 0 < m.step) (hstep : m.step ≤ 16)
    (hseed : m.seed < 4294967296) (h : 4294967296 ≤ m.seed + m.step) :
    (m.nextSeed + 4294967296) % m.step = m.seed % m.step := by
  have hwrap : toUInt32 (m.seed + m.step) = m.seed + m.step - 4294967296 := by
    unfold toUInt32
    omega
  simp only [Manager.nextSeed, hwrap]
  split
  · next h0 =>
      rw [h0, toUInt32_of_lt (by omega), Nat.zero_add, Nat.add_mod_left]
      have : m.seed + m.step = 4294967296 := by omega
      rw [← this, Nat.add_mod_right]
  · rw [Nat.sub_add_cancel h, Nat.add_mod_right]

/-- The loop changes nothing but the seed, and keeps its residue when the step
divides `2 ^ 32`. -/
theorem search_spec : ∀ (rounds : Nat) {m m' : Manager}, Manager.search rounds m = some m' →
    m'.step = m.step ∧ m'.connections = m.connections ∧
      (m.step ∣ 4294967296 → 0 < m.step → m.step ≤ 16 → m.seed < 4294967296 →
        m'.seed < 4294967296 ∧ m'.seed % m.step = m.seed % m.step)
  | 0, m, m', h => by cases h
  | rounds + 1, m, m', h => by
      have hnext : m.step ∣ 4294967296 → 0 < m.step → m.step ≤ 16 → m.seed < 4294967296 →
          m.nextSeed % m.step = m.seed % m.step := by
        intro hdvd hpos hle hseed
        rcases Nat.lt_or_ge (m.seed + m.step) 4294967296 with hlt | hge
        · rw [nextSeed_of_lt hpos hlt, Nat.add_mod_right]
        · have := nextSeed_of_wrap hpos hle hseed hge
          rwa [Nat.add_mod, Nat.mod_eq_zero_of_dvd hdvd, Nat.add_zero, Nat.mod_mod] at this
      simp only [Manager.search] at h
      split at h
      · obtain ⟨hstep, hconn, hres⟩ := search_spec rounds h
        refine ⟨hstep, hconn, fun hdvd hpos hle hseed => ?_⟩
        obtain ⟨hlt, hmod⟩ := hres hdvd hpos hle (nextSeed_range m)
        exact ⟨hlt, hmod.trans (hnext hdvd hpos hle hseed)⟩
      · cases h
        exact ⟨rfl, rfl, fun hdvd hpos hle hseed => ⟨nextSeed_range m, hnext hdvd hpos hle hseed⟩⟩

/-- What a call of `getConnectionId` that returns has done. -/
theorem of_step_getConnectionId {s s' : IdSource} (h : s.step .getConnectionId = some s') :
    Manager.search Manager.allSeeds s.mgr = some s'.mgr ∧ s'.handed = s'.mgr.seed :: s.handed := by
  simp only [step, Manager.getConnectionId, Option.map_map, Option.map_eq_some_iff] at h
  obtain ⟨m, hm, rfl⟩ := h
  exact ⟨hm, rfl⟩

/-- What the other calls do. -/
theorem of_step_table {s s' : IdSource} {ev : IdEvent} (hev : ev ≠ .getConnectionId)
    (h : s.step ev = some s') :
    s'.handed = s.handed ∧ s'.mgr.seed = s.mgr.seed ∧ s'.mgr.step = s.mgr.step ∧
      ∀ id ∈ s'.mgr.connections, id ∈ s.mgr.connections ∨ id ∈ s.handed := by
  cases ev with
  | getConnectionId => exact absurd rfl hev
  | addConnection connid =>
      simp only [step, Option.ite_none_right_eq_some, Option.some.injEq] at h
      obtain ⟨hin, rfl⟩ := h
      have hadd : (s.mgr.addConnection connid).1 = s.mgr ∨ (s.mgr.addConnection connid).1
          = { s.mgr with connections := connid :: s.mgr.connections } := by
        simp only [Manager.addConnection]
        split
        · exact Or.inl rfl
        · exact Or.inr rfl
      rcases hadd with hadd | hadd
      · simp only [hadd]
        exact ⟨trivial, trivial, trivial, fun id hid => Or.inl hid⟩
      · simp only [hadd]
        refine ⟨trivial, trivial, trivial, fun id hid => ?_⟩
        rcases List.mem_cons.mp hid with rfl | hid
        · exact Or.inr hin
        · exact Or.inl hid
  | removeConnection connid =>
      cases h
      exact ⟨rfl, rfl, rfl, fun id hid => Or.inl (List.mem_filter.mp hid).1⟩

theorem inv_init (n w : Nat) : Inv n (machine n w).init := ⟨rfl, by simp [machine, Manager.new]⟩

/-- Every call keeps the table inside what was handed out, and takes no id back. -/
theorem inv_step {n : Nat} {s s' : IdSource} {ev : IdEvent} (hi : Inv n s)
    (h : s.step ev = some s') : Inv n s' ∧ ∀ id ∈ s.handed, id ∈ s'.handed := by
  by_cases hev : ev = .getConnectionId
  · subst hev
    obtain ⟨hsearch, hhanded⟩ := of_step_getConnectionId h
    obtain ⟨hstep, hconn, -⟩ := search_spec _ hsearch
    have hmono : ∀ id ∈ s.handed, id ∈ s'.handed := by
      intro id hid
      rw [hhanded]
      exact List.mem_cons_of_mem _ hid
    refine ⟨⟨hstep.trans hi.step, fun id hid => ?_⟩, hmono⟩
    rw [hconn] at hid
    exact hmono id (hi.table id hid)
  · obtain ⟨hhanded, -, hstep, hconn⟩ := of_step_table hev h
    refine ⟨⟨hstep.trans hi.step, fun id hid => ?_⟩, fun id hid => hhanded ▸ hid⟩
    rw [hhanded]
    exact (hconn id hid).elim (hi.table id) fun h => h

theorem handed_run {n : Nat} : ∀ (evs : List IdEvent) {w : Nat} {s s' : IdSource}, Inv n s →
    (machine n w).run s evs = some s' → ∀ id ∈ s.handed, id ∈ s'.handed
  | [], _, _, _, _, h => by cases h; exact fun _ h => h
  | ev :: evs, w, s, s', hi, h => by
      obtain ⟨t, hstep, hrun⟩ := (Machine.run_cons_some _).mp h
      obtain ⟨hi', hmono⟩ := inv_step hi hstep
      exact fun id hid => handed_run evs hi' hrun id (hmono id hid)

theorem fresh_init {n w : Nat} (hrange : w - 1 < 4294967296) (hw : w - 1 < n) :
    Fresh n w 0 (machine n w).init where
  seed := by simp [machine, Manager.new, Nat.mod_eq_of_lt hw]
  range := by simpa only [machine, Manager.new, Nat.mod_eq_of_lt hw] using hrange
  le := by simp [machine]
  residue := by simp [machine]

/-- A number and the same number less `2 ^ 32` have different residues, unless the
modulus divides `2 ^ 32`. -/
theorem residue_wrap {n a b : Nat} (hndvd : ¬ n ∣ 4294967296) (h : (a + 4294967296) % n = b % n) :
    a % n ≠ b % n := by
  intro heq
  have hzero := Nat.sub_mod_eq_zero_of_mod_eq (h.trans heq.symm)
  rw [Nat.add_sub_cancel_left] at hzero
  exact hndvd (Nat.dvd_of_mod_eq_zero hzero)

/-- A call before the wrap: the next id is one step up. -/
theorem fresh_step_below {n w k : Nat} (hw : w - 1 < n) {s s' : IdSource} {ev : IdEvent}
    (hi : Inv n s) (hf : Fresh n w k s) (h : s.step ev = some s')
    (hlt : w - 1 + (k + calls [ev]) * n < 4294967296) : Fresh n w (k + calls [ev]) s' := by
  have hseed := hf.seed
  by_cases hev : ev = .getConnectionId
  · subst hev
    have hcalls : calls [.getConnectionId] = 1 := rfl
    rw [hcalls, Nat.succ_mul] at hlt
    rw [hcalls]
    have hlt' : s.mgr.seed + n < 4294967296 := by omega
    have hpos : 0 < s.mgr.step := by rw [hi.step]; omega
    have hnext := nextSeed_of_lt hpos (by rwa [hi.step])
    rw [hi.step] at hnext
    -- larger than every id before it
    have hfree : s.mgr.nextSeed ∉ s.mgr.connections := by
      intro hin
      have := hf.le _ (hi.table _ hin)
      omega
    rw [step_getConnectionId hfree] at h
    cases h
    rw [hnext]
    refine ⟨?_, hlt', fun id hid => ?_, fun id hid => ?_⟩
    · simp only
      rw [Nat.succ_mul]
      omega
    · rcases List.mem_cons.mp hid with rfl | hid
      · exact Nat.le_refl _
      · exact Nat.le_trans (hf.le id hid) (Nat.le_add_right _ _)
    · rcases List.mem_cons.mp hid with rfl | hid
      · rw [Nat.add_mod_right, hseed, Nat.add_mul_mod_self_right, Nat.mod_eq_of_lt hw]
      · exact hf.residue id hid
  · obtain ⟨hhanded, hseed', -, -⟩ := of_step_table hev h
    have hcalls : calls [ev] = 0 := by
      cases ev with
      | getConnectionId => exact absurd rfl hev
      | _ => rfl
    refine ⟨?_, ?_, ?_, ?_⟩
    · rw [hseed', hcalls]; exact hseed
    · rw [hseed']; exact hf.range
    · rw [hseed', hhanded]; exact hf.le
    · rw [hhanded]; exact hf.residue

/-- One call before the wrap: the next id is one step up; or this call wraps, and
if the step does not divide `2 ^ 32` the id has another residue. -/
theorem fresh_step {n w k : Nat} (hn : n ≤ 16) (hw : w - 1 < n) {s s' : IdSource} {ev : IdEvent}
    (hi : Inv n s) (hf : Fresh n w k s) (h : s.step ev = some s') :
    Fresh n w (k + calls [ev]) s' ∨
      (4294967296 ≤ w - 1 + (k + calls [ev]) * n ∧
        (¬ n ∣ 4294967296 → ∃ id ∈ s'.handed, id % n ≠ w - 1)) := by
  rcases Nat.lt_or_ge (w - 1 + (k + calls [ev]) * n) 4294967296 with hlt | hge
  · exact Or.inl (fresh_step_below hw hi hf h hlt)
  · refine Or.inr ⟨hge, fun hndvd => ?_⟩
    have hseed := hf.seed
    have hres : s.mgr.seed % n = w - 1 := by
      rw [hseed, Nat.add_mul_mod_self_right, Nat.mod_eq_of_lt hw]
    -- only `getConnectionId` moves the seed, so this call is one
    obtain rfl : ev = .getConnectionId := by
      have hrange := hf.range
      cases ev with
      | getConnectionId => rfl
      | addConnection connid =>
          rw [show calls [.addConnection connid] = 0 from rfl, Nat.add_zero] at hge
          omega
      | removeConnection connid =>
          rw [show calls [.removeConnection connid] = 0 from rfl, Nat.add_zero] at hge
          omega
    have hwrapped : 4294967296 ≤ s.mgr.seed + s.mgr.step := by
      rw [show calls [.getConnectionId] = 1 from rfl, Nat.succ_mul] at hge
      rw [hi.step]
      omega
    have hwrap := nextSeed_of_wrap (by rw [hi.step]; omega) (by rwa [hi.step]) hf.range hwrapped
    rw [hi.step] at hwrap
    have hbad : s.mgr.nextSeed % n ≠ w - 1 := by
      rw [← hres]
      exact residue_wrap hndvd hwrap
    -- the table only holds ids of the old residue
    have hfree : s.mgr.nextSeed ∉ s.mgr.connections := fun hin =>
      hbad (hf.residue _ (hi.table _ hin))
    rw [step_getConnectionId hfree] at h
    cases h
    exact ⟨_, List.mem_cons_self, hbad⟩

theorem calls_cons (ev : IdEvent) (evs : List IdEvent) : calls (ev :: evs) = calls [ev] + calls evs := by
  cases ev <;> simp [calls, Nat.add_comm]

/-- A run before the wrap; or the run wraps, and if the step does not divide
`2 ^ 32` it hands out an id of another residue. -/
theorem fresh_run {n w : Nat} (hn : n ≤ 16) (hw : w - 1 < n) : ∀ (evs : List IdEvent) {k : Nat}
    {s s' : IdSource}, Inv n s → Fresh n w k s → (machine n w).run s evs = some s' →
    Fresh n w (k + calls evs) s' ∨
      (4294967296 ≤ w - 1 + (k + calls evs) * n ∧
        (¬ n ∣ 4294967296 → ∃ id ∈ s'.handed, id % n ≠ w - 1))
  | [], k, s, s', _, hf, h => by cases h; exact Or.inl hf
  | ev :: evs, k, s, s', hi, hf, h => by
      obtain ⟨t, hstep, hrun⟩ := (Machine.run_cons_some _).mp h
      obtain ⟨hi', -⟩ := inv_step hi hstep
      rw [calls_cons, ← Nat.add_assoc]
      rcases fresh_step hn hw hi hf hstep with hf' | ⟨hwrap, hbad⟩
      · exact fresh_run hn hw evs hi' hf' hrun
      · refine Or.inr ⟨Nat.le_trans hwrap ?_, fun hndvd => ?_⟩
        · exact Nat.add_le_add_left (Nat.mul_le_mul_right n (Nat.le_add_right _ _)) _
        · obtain ⟨id, hid, hne⟩ := hbad hndvd
          exact ⟨id, handed_run evs hi' hrun id hid, hne⟩

/-- A run that does not reach the wrap, for any number of workers. -/
theorem fresh_run_below {n w : Nat} (hw : w - 1 < n) : ∀ (evs : List IdEvent) {k : Nat}
    {s s' : IdSource}, Inv n s → Fresh n w k s → (machine n w).run s evs = some s' →
    w - 1 + (k + calls evs) * n < 4294967296 → Fresh n w (k + calls evs) s' ∧ Inv n s'
  | [], k, s, s', hi, hf, h, _ => by cases h; exact ⟨hf, hi⟩
  | ev :: evs, k, s, s', hi, hf, h, hlt => by
      obtain ⟨t, hstep, hrun⟩ := (Machine.run_cons_some _).mp h
      rw [calls_cons, ← Nat.add_assoc] at hlt ⊢
      have hle : w - 1 + (k + calls [ev]) * n ≤ w - 1 + (k + calls [ev] + calls evs) * n :=
        Nat.add_le_add_left (Nat.mul_le_mul_right n (Nat.le_add_right _ _)) _
      have hf' := fresh_step_below hw hi hf hstep (Nat.lt_of_le_of_lt hle hlt)
      exact fresh_run_below hw evs (inv_step hi hstep).1 hf' hrun hlt

/-- When the step divides `2 ^ 32`, the seed and the ids keep their residue. -/
structure Aligned (n w : Nat) (s : IdSource) : Prop where
  inv : Inv n s
  range : s.mgr.seed < 4294967296
  seed : s.mgr.seed % n = w - 1
  residue : ∀ id ∈ s.handed, id % n = w - 1

theorem aligned_step {n w : Nat} (hn : n ≤ 16) (hw : w - 1 < n) (hdvd : n ∣ 4294967296)
    {s s' : IdSource} {ev : IdEvent} (ha : Aligned n w s) (h : s.step ev = some s') :
    Aligned n w s' := by
  obtain ⟨hi', -⟩ := inv_step ha.inv h
  have hn' := ha.inv.step
  by_cases hev : ev = .getConnectionId
  · subst hev
    obtain ⟨hsearch, hhanded⟩ := of_step_getConnectionId h
    obtain ⟨-, -, hres⟩ := search_spec _ hsearch
    rw [hn'] at hres
    obtain ⟨hrange, hmod⟩ := hres hdvd (by omega) hn ha.range
    refine ⟨hi', hrange, hmod.trans ha.seed, fun id hid => ?_⟩
    rw [hhanded] at hid
    rcases List.mem_cons.mp hid with rfl | hid
    · exact hmod.trans ha.seed
    · exact ha.residue id hid
  · obtain ⟨hhanded, hseed, -, -⟩ := of_step_table hev h
    exact ⟨hi', hseed ▸ ha.range, hseed ▸ ha.seed, hhanded ▸ ha.residue⟩

/-- The ids of one worker have their residue exactly when the step divides
`2 ^ 32` or the seed has not wrapped. -/
theorem residue_iff {n w : Nat} (hn : n ≤ 16) (hw : w - 1 < n) {evs : List IdEvent}
    {s : IdSource} (hrun : (machine n w).run (machine n w).init evs = some s) :
    (∀ id ∈ s.handed, id % n = w - 1) ↔
      n ∣ 4294967296 ∨ w - 1 + calls evs * n < 4294967296 := by
  have hfresh := fresh_run hn hw evs (inv_init n w) (fresh_init (by omega) hw) hrun
  rw [Nat.zero_add] at hfresh
  constructor
  · intro hres
    rcases hfresh with hf | ⟨-, hbad⟩
    · exact Or.inr (hf.seed ▸ hf.range)
    · by_cases hdvd : n ∣ 4294967296
      · exact Or.inl hdvd
      · obtain ⟨id, hid, hne⟩ := hbad hdvd
        exact absurd (hres id hid) hne
  · rintro (hdvd | hlt)
    · have h0 : Fresh n w 0 (machine n w).init := fresh_init (by omega) hw
      have hstart : Aligned n w (machine n w).init := by
        refine ⟨inv_init n w, h0.range, ?_, h0.residue⟩
        rw [h0.seed, Nat.zero_mul, Nat.add_zero, Nat.mod_eq_of_lt hw]
      exact (Machine.run_invariant _ (C := fun _ _ => True) (P := Aligned n w)
        (fun s ev s' ha _ hstep => aligned_step hn hw hdvd ha hstep) evs hstart
        (Machine.allSteps_of_forall _ (fun _ _ => trivial) _) hrun).residue
    · rcases hfresh with hf | ⟨hwrap, -⟩
      · exact hf.residue
      · omega

end IdSource

/-! ## Routing -/

/-- With `n + 1` workers, the scheduler puts a task for an id on the worker after
its residue. -/
theorem schedule_eq {T : Type} {n : Nat} (hn : 1 ≤ n) {sch : Scheduler T} (hquit : sch.quit = false)
    (hsize : sch.workers.length = n + 1) (id : Nat) (c : T) :
    sch.schedule id c = sch.addTask (id % n + 1) c := by
  have hsmall : ¬ n + 1 < 2 := by omega
  simp only [Scheduler.schedule, hquit, hsize, if_neg hsmall, Nat.add_sub_cancel,
    Bool.false_eq_true, if_false]

/-- The id belongs to worker `w` of `n`: it has the residue of `w`, and a scheduler
with these workers gives its tasks to `w`. -/
def RoutesTo (T : Type) (n w id : Nat) : Prop :=
  id % n = w - 1 ∧
    ∀ sch : Scheduler T, sch.quit = false → sch.workers.length = n + 1 →
      ∀ c, sch.schedule id c = sch.addTask w c

theorem routesTo_iff {T : Type} {n w : Nat} (hn : 1 ≤ n) (hw : 1 ≤ w) (id : Nat) :
    RoutesTo T n w id ↔ id % n = w - 1 := by
  constructor
  · intro h
    exact h.1
  · intro h
    refine ⟨h, fun sch hquit hsize c => ?_⟩
    rw [schedule_eq hn hquit hsize, h, Nat.sub_add_cancel hw]

open IdSource in
/-- **When connection ids route to their owners**: the ids that `n` workers hand out
in any runs all route to the worker that handed them out, and no two workers hand
out the same id, if and only if `n` divides `2 ^ 32` or no worker's seed has
wrapped around. -/
theorem ids_route_iff (T : Type) (n : Nat) (hn : 1 ≤ n) (hn16 : n ≤ 16)
    (evs : Nat → List IdEvent) (s : Nat → IdSource)
    (hrun : ∀ w, 1 ≤ w → w ≤ n → (machine n w).run (machine n w).init (evs w) = some (s w)) :
    (∀ w, 1 ≤ w → w ≤ n →
        (∀ id ∈ (s w).handed, RoutesTo T n w id) ∧
          ∀ w', 1 ≤ w' → w' ≤ n → w' ≠ w → ∀ id ∈ (s w).handed, id ∉ (s w').handed) ↔
      n ∣ 4294967296 ∨ ∀ w, 1 ≤ w → w ≤ n → w - 1 + calls (evs w) * n < 4294967296 := by
  have hone : ∀ w, 1 ≤ w → w ≤ n → ((∀ id ∈ (s w).handed, id % n = w - 1) ↔
      n ∣ 4294967296 ∨ w - 1 + calls (evs w) * n < 4294967296) :=
    fun w h1 hw => residue_iff hn16 (by omega) (hrun w h1 hw)
  constructor
  · intro h
    by_cases hdvd : n ∣ 4294967296
    · exact Or.inl hdvd
    · refine Or.inr fun w h1 hw => ?_
      have hres := (hone w h1 hw).mp fun id hid => ((h w h1 hw).1 id hid).1
      exact hres.resolve_left hdvd
  · intro h w h1 hw
    have hres : ∀ w, 1 ≤ w → w ≤ n → ∀ id ∈ (s w).handed, id % n = w - 1 :=
      fun w h1 hw => (hone w h1 hw).mpr (h.imp_right fun h => h w h1 hw)
    refine ⟨fun id hid => (routesTo_iff hn h1 id).mpr (hres w h1 hw id hid), ?_⟩
    intro w' h1' hw' hne id hid hid'
    have := hres w h1 hw id hid
    have := hres w' h1' hw' id hid'
    omega

open IdSource in
/-- Two workers with two connections each. -/
theorem ids_route_two :
    (∀ w, 1 ≤ w → w ≤ 2 →
        (∀ id ∈ [w + 3, w + 1], RoutesTo Nat 2 w id) ∧
          ∀ w', 1 ≤ w' → w' ≤ 2 → w' ≠ w → ∀ id ∈ [w + 3, w + 1], id ∉ [w' + 3, w' + 1]) ↔
      2 ∣ 4294967296 ∨ ∀ w, 1 ≤ w → w ≤ 2 →
        w - 1 + calls [.getConnectionId, .addConnection (w + 1), .getConnectionId] * 2
          < 4294967296 :=
  ids_route_iff Nat 2 (by decide) (by decide)
    (fun w => [.getConnectionId, .addConnection (w + 1), .getConnectionId])
    (fun w => ⟨⟨w + 3, 2, [w + 1]⟩, [w + 3, w + 1]⟩) (by
      intro w h1 hw
      obtain rfl | rfl : w = 1 ∨ w = 2 := by omega
      · decide +kernel
      · decide +kernel)

/-! ## Connections on worker 0 -/

/-- A worker that has queued a task is not as it was. -/
theorem addTask_ne {T : Type} {n i j : Nat} (hi : i ≤ n) (hij : i ≠ j) (c : T) :
    ∃ sch : Scheduler T, sch.quit = false ∧ sch.workers.length = n + 1 ∧
      sch.addTask i c ≠ sch.addTask j c := by
  refine ⟨⟨false, List.replicate (n + 1) ⟨0, []⟩⟩, rfl, List.length_replicate, fun heq => ?_⟩
  have hget (k : Nat) :
      (((⟨false, List.replicate (n + 1) ⟨0, []⟩⟩ : Scheduler T).addTask k c).1.workers)[i]? =
        if k = i then some ⟨0, [c]⟩ else some ⟨0, []⟩ := by
    have hlt : i < n + 1 := by omega
    unfold Scheduler.addTask
    split
    · next w hw =>
        have hk : k < n + 1 := by
          have := (List.getElem?_eq_some_iff.mp hw).1
          simpa using this
        have hworker : w = ⟨0, []⟩ := by
          rw [List.getElem?_replicate_of_lt hk] at hw
          exact (Option.some.inj hw).symm
        subst hworker
        rw [List.getElem?_set]
        split
        · simp [hk, Worker.addTask]
        · rw [List.getElem?_replicate_of_lt hlt]
    · next hw =>
        have hk : n + 1 ≤ k := by simpa using hw
        rw [if_neg (by omega), List.getElem?_replicate_of_lt hlt]
  have h := congrArg (fun r => r.1.workers[i]?) heq
  simp only [hget, if_neg (Ne.symm hij), if_true] at h
  cases h

open IdSource in
/-- **When tasks reach the owner of a connection**, with worker 0 among the threads that create
connections: while no seed has wrapped, the live ids of all managers differ and every task for
one of them goes to the worker that owns it, if and only if worker 0 has no live connection. -/
theorem shared_thread_iff {T : Type} (c : T) (n : Nat) (hn : 1 ≤ n) (evs : Nat → List IdEvent)
    (s : Nat → IdSource)
    (hrun : ∀ w ≤ n, (machine n w).run (machine n w).init (evs w) = some (s w))
    (hbelow : ∀ w ≤ n, w - 1 + calls (evs w) * n < 4294967296) :
    (∀ w ≤ n, ∀ id ∈ (s w).mgr.connections,
        (∀ w' ≤ n, w' ≠ w → id ∉ (s w').mgr.connections) ∧
          ∀ sch : Scheduler T, sch.quit = false → sch.workers.length = n + 1 →
            sch.schedule id c = sch.addTask w c) ↔
      (s 0).mgr.connections = [] := by
  have hresidue : ∀ w ≤ n, ∀ id ∈ (s w).mgr.connections, id % n = w - 1 := by
    intro w hw id hid
    have hw' : w - 1 < n := by omega
    have hlt := hbelow w hw
    obtain ⟨hfresh, hinv⟩ := fresh_run_below hw' (evs w) (inv_init n w)
      (fresh_init (by omega) hw') (hrun w hw) (by rwa [Nat.zero_add])
    exact hfresh.residue id (hinv.table id hid)
  constructor
  · intro h
    by_contra hlive
    obtain ⟨id, hid⟩ := List.exists_mem_of_ne_nil _ hlive
    -- the task for it goes to a worker behind worker 0
    obtain ⟨sch, hquit, hsize, hne⟩ := addTask_ne (T := T) (Nat.zero_le n)
      (show 0 ≠ id % n + 1 by omega) c
    have hsched := (h 0 (Nat.zero_le n) id hid).2 sch hquit hsize
    rw [schedule_eq hn hquit hsize] at hsched
    exact hne hsched.symm
  · intro hnone w hw id hid
    have hres := hresidue w hw id hid
    have hpos : w ≠ 0 := by
      rintro rfl
      rw [hnone] at hid
      cases hid
    refine ⟨fun w' hw' hne hid' => ?_, fun sch hquit hsize => ?_⟩
    · have hres' := hresidue w' hw' id hid'
      have hpos' : w' ≠ 0 := by
        rintro rfl
        rw [hnone] at hid'
        cases hid'
      omega
    · rw [schedule_eq hn hquit hsize, hres, Nat.sub_add_cancel (by omega)]

open IdSource in
/-- Two workers with a connection each, and none on worker 0. -/
theorem shared_thread_two :
    (∀ w ≤ 2, ∀ id ∈ (if w = 0 then [] else [w + 1]),
        (∀ w' ≤ 2, w' ≠ w → id ∉ (if w' = 0 then [] else [w' + 1])) ∧
          ∀ sch : Scheduler Nat, sch.quit = false → sch.workers.length = 2 + 1 →
            sch.schedule id 7 = sch.addTask w 7) ↔
      (if 0 = 0 then [] else [0 + 1]) = [] :=
  shared_thread_iff 7 2 (by decide)
    (fun w => if w = 0 then [] else [.getConnectionId, .addConnection (w + 1)])
    (fun w => ⟨⟨if w = 0 then 0 else w + 1, 2, if w = 0 then [] else [w + 1]⟩,
      if w = 0 then [] else [w + 1]⟩)
    (by
      intro w hw
      obtain rfl | rfl | rfl : w = 0 ∨ w = 1 ∨ w = 2 := by omega
      · decide +kernel
      · decide +kernel
      · decide +kernel)
    (by
      intro w hw
      obtain rfl | rfl | rfl : w = 0 ∨ w = 1 ∨ w = 2 := by omega
      · decide
      · decide
      · decide)

open IdSource in
/-- Worker 0 and worker 1 accept a connection each: both get the id 2. -/
theorem two_connections_with_one_id :
    ∃ s₀ s₁, (machine 2 0).run (machine 2 0).init [.getConnectionId, .addConnection 2] = some s₀ ∧
      (machine 2 1).run (machine 2 1).init [.getConnectionId, .addConnection 2] = some s₁ ∧
      2 ∈ s₀.mgr.connections ∧ 2 ∈ s₁.mgr.connections := by
  refine ⟨⟨⟨2, 2, [2]⟩, [2]⟩, ⟨⟨2, 2, [2]⟩, [2]⟩, ?_⟩
  decide +kernel

namespace IdSource

/-- With an empty table `getConnectionId` always returns. -/
theorem run_replicate {n w : Nat} : ∀ (k : Nat) {s : IdSource}, s.mgr.connections = [] →
    ∃ s', (machine n w).run s (List.replicate k .getConnectionId) = some s'
  | 0, s, _ => ⟨s, rfl⟩
  | k + 1, s, h => by
      have hstep := step_getConnectionId (s := s) (by simp [h])
      obtain ⟨s', hs'⟩ := run_replicate (n := n) (w := w) k
        (s := ⟨{ s.mgr with seed := s.mgr.nextSeed }, s.mgr.nextSeed :: s.handed⟩) h
      exact ⟨s', (Machine.run_cons_some _).mpr ⟨_, hstep, hs'⟩⟩

theorem calls_replicate : ∀ k, calls (List.replicate k .getConnectionId) = k
  | 0 => rfl
  | k + 1 => by simp [List.replicate_succ, calls, calls_replicate k]

/-- The first of three workers hands out 1431655766 ids; one of them, handed out
after the wrap, belongs to another worker. -/
theorem id_of_third_worker :
    ∃ s, (machine 3 1).run (machine 3 1).init (List.replicate 1431655766 .getConnectionId) = some s ∧
      ∃ id ∈ s.handed, id % 3 ≠ 1 - 1 := by
  obtain ⟨s, hs⟩ := run_replicate 1431655766 (s := (machine 3 1).init) rfl
  refine ⟨s, hs, ?_⟩
  by_contra hno
  have hres : ∀ id ∈ s.handed, id % 3 = 1 - 1 := by
    intro id hid
    by_contra hne
    exact hno ⟨id, hid, hne⟩
  have hcond := (residue_iff (by decide) (by decide) hs).mp hres
  rw [calls_replicate] at hcond
  omega

end IdSource

end LinSocketIo.Core
