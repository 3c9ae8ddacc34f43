/-
LinSocketIo.Log.LogDataTheorems — a log block belongs to one record at a time.

Every block has one owner: nobody, a thread, or the queue with the consumer
(`Ghost.owner`). The blocks of an owner form chains that follow the links
(`Chained`), and a step changes the links of one owner's blocks only, so the
chains of the others stay (`Inv`).

The consumer hands a block back by `_used` and resets `_size` and `_next`
after that, so that a thread may own the block in between. `Undisturbed` says
that it does not store anything in a field that is still to be reset.

* `blocks_keep_records` — in every run whose steps are undisturbed, what the
  consumer reads of a block is what its thread has stored and linked.
* `recycle_truncates` — a run that disturbs a recycling loses what a thread
  has stored.
-/
import LinSocketIo.Log.LogData

namespace LinSocketIo.Log

open LinSocketIo.Base

/-! ## Blocks -/

/-- What `write` adds. -/
theorem LogData.write_contents {d : LogData} (hsize : d.size ≤ d.capacity)
    (hmem : d.mem.length = d.capacity) (buf : List UInt8) :
    (d.write buf).1.contents = d.contents ++ buf.take (d.capacity - d.size) := by
  have hlen : (buf.take (min buf.length (d.capacity - d.size))).length =
      min buf.length (d.capacity - d.size) := by
    rw [List.length_take]
    omega
  have htake : buf.take (min buf.length (d.capacity - d.size)) =
      buf.take (d.capacity - d.size) := by
    rcases Nat.le_total buf.length (d.capacity - d.size) with hle | hle
    · rw [Nat.min_eq_left hle, List.take_length, List.take_of_length_le hle]
    · rw [Nat.min_eq_right hle]
  have hsame := load_store_same (buf.take (min buf.length (d.capacity - d.size)))
    (show d.size ≤ d.mem.length by omega)
  rw [hlen] at hsame
  simp only [LogData.write, LogData.contents]
  rw [load_add, Nat.zero_add, hsame, load_store_before (by omega) (by omega), htake]

theorem LogData.write_wf {d : LogData} (hsize : d.size ≤ d.capacity)
    (hmem : d.mem.length = d.capacity) (buf : List UInt8) :
    (d.write buf).1.size ≤ (d.write buf).1.capacity ∧
      (d.write buf).1.mem.length = (d.write buf).1.capacity := by
  simp only [LogData.write]
  refine ⟨by omega, ?_⟩
  rw [length_store (by rw [List.length_take]; omega), hmem]

theorem LogData.length_contents {d : LogData} (hsize : d.size ≤ d.capacity)
    (hmem : d.mem.length = d.capacity) : d.contents.length = d.size :=
  length_load (by omega)

theorem LogData.contents_empty {d : LogData} (hsize : d.size = 0) : d.contents = [] := by
  rw [LogData.contents, hsize, load, List.take_zero]

/-! ## Chains -/

/-- The blocks are linked in this order, and the last one to nothing. -/
def Chained (linked : Addr → Option Addr) : List Addr → Prop
  | [] => True
  | a :: l => linked a = l.head? ∧ Chained linked l

variable {linked linked' : Addr → Option Addr}

theorem Chained.congr : ∀ {l : List Addr}, (∀ a ∈ l, linked' a = linked a) → Chained linked l →
    Chained linked' l
  | [], _, _ => trivial
  | a :: _, hsame, h => ⟨(hsame a List.mem_cons_self).trans h.1,
      Chained.congr (fun b hb => hsame b (List.mem_cons_of_mem a hb)) h.2⟩

/-- The last block of a chain is linked to a new one. -/
theorem Chained.concat {a b : Addr} : ∀ {l : List Addr}, Chained linked (l ++ [a]) →
    (∀ x ∈ l, linked' x = linked x) → linked' a = some b → linked' b = none →
    Chained linked' (l ++ [a] ++ [b])
  | [], _, _, ha, hb => ⟨ha, hb, trivial⟩
  | x :: l, h, hsame, ha, hb => by
      refine ⟨(hsame x List.mem_cons_self).trans (h.1.trans ?_),
        Chained.concat h.2 (fun y hy => hsame y (List.mem_cons_of_mem x hy)) ha hb⟩
      cases l <;> rfl

/-! ## The invariant -/

/-- Who has a block. -/
inductive Owner where
  | free
  | thread (i : Nat)
  | queued
  deriving DecidableEq

/-- The owners of the blocks, and the chains: of each thread, of the records in the queue, and
what is left of the record that the consumer is at. -/
structure Ghost where
  owner : Addr → Owner
  chain : Nat → List Addr
  records : List (List Addr)
  current : List Addr

/-- A block gets an owner. -/
def Ghost.take (g : Ghost) (a : Addr) (o : Owner) : Ghost :=
  { g with owner := Function.update g.owner a o }

@[simp] theorem Ghost.take_self (g : Ghost) (a : Addr) (o : Owner) : (g.take a o).owner a = o :=
  Function.update_self _ _ _

theorem Ghost.take_other (g : Ghost) {a b : Addr} (h : b ≠ a) (o : Owner) :
    (g.take a o).owner b = g.owner b := Function.update_of_ne h _ _

/-- A thread gets another chain. -/
def Ghost.setChain (g : Ghost) (i : Nat) (l : List Addr) : Ghost :=
  { g with chain := Function.update g.chain i l }

@[simp] theorem Ghost.setChain_self (g : Ghost) (i : Nat) (l : List Addr) :
    (g.setChain i l).chain i = l := Function.update_self _ _ _

theorem Ghost.setChain_other (g : Ghost) {i j : Nat} (h : j ≠ i) (l : List Addr) :
    (g.setChain i l).chain j = g.chain j := Function.update_of_ne h _ _

/-- The block whose size is to be reset. -/
def Reader.sizes : Reader → Option Addr
  | .sizing a _ => some a
  | .idle | .reading _ | .clearing _ _ | .unlinking _ _ => none

/-- The block whose link is to be reset. -/
def Reader.unlinks : Reader → Option Addr
  | .sizing a _ | .unlinking a _ => some a
  | .idle | .reading _ | .clearing _ _ => none

/-- Where the consumer is in a record of which `current` is left. -/
def Reader.At (linked : Addr → Option Addr) (current : List Addr) : Reader → Prop
  | .idle => current = []
  | .reading a => current.head? = some a ∧ Chained linked current
  | .clearing a next => ∃ rest, current = a :: rest ∧ next = rest.head? ∧ Chained linked rest
  | .sizing _ next | .unlinking _ next => next = current.head? ∧ Chained linked current

/-- The chain of a thread, and the block that it will link to the chain. -/
def Place.At (g : Ghost) (linked : Addr → Option Addr) (i : Nat) : Place → Prop
  | .idle => True
  | .alloc .head _ | .own .head _ _ _ => g.chain i = []
  | .alloc .more _ | .own .more _ _ _ | .write _ => g.chain i ≠ []
  | .fill _ a | .link a =>
    g.chain i ≠ [] ∧ g.owner a = .thread i ∧ a ∉ g.chain i ∧ linked a = none

theorem Reader.At.congr {current : List Addr} {r : Reader} (h : r.At linked current)
    (hsame : ∀ a ∈ current, linked' a = linked a) :
    r.At linked' current := by
  cases r with
  | idle => exact h
  | reading a => exact ⟨h.1, h.2.congr hsame⟩
  | clearing a next =>
    obtain ⟨rest, rfl, hnext, hchained⟩ := h
    exact ⟨rest, rfl, hnext, hchained.congr fun b hb => hsame b (List.mem_cons_of_mem a hb)⟩
  | sizing a next => exact ⟨h.1, h.2.congr hsame⟩
  | unlinking a next => exact ⟨h.1, h.2.congr hsame⟩

namespace Pool

/-- What holds of a thread. -/
structure ThreadInv (g : Ghost) (s : Pool) (i : Nat) : Prop where
  owned : ∀ a ∈ g.chain i, g.owner a = .thread i
  nodup : (g.chain i).Nodup
  chained : Chained s.linked (g.chain i)
  head : (s.threads i).head = (g.chain i).head?
  tail : (s.threads i).tail = (g.chain i).getLast?
  place : (s.threads i).place.At g s.linked i

/-- A block of a bucket is in use if somebody has it, and one that `new` has not made yet is
nobody's. -/
def Made (news : Nat) (d : LogData) (o : Owner) : Addr → Prop
  | .bucket _ _ => d.recycle = true ∧ (d.used = true ↔ o ≠ .free)
  | .heap k => d.recycle = false ∧ (news ≤ k → o = .free)

/-- What holds of a block. -/
structure BlockInv (g : Ghost) (s : Pool) (a : Addr) : Prop where
  wf : (s.blocks a).size ≤ (s.blocks a).capacity ∧
    (s.blocks a).mem.length = (s.blocks a).capacity
  made : Made s.news (s.blocks a) (g.owner a) a
  reset : g.owner a = .free → (s.blocks a).recycle = true →
    (s.reader.sizes ≠ some a → (s.blocks a).size = 0) ∧
      (s.reader.unlinks ≠ some a → (s.blocks a).next = none)
  contents : g.owner a ≠ .free →
    if s.reader.sizes = some a then s.stored a = [] else (s.blocks a).contents = s.stored a
  next : g.owner a ≠ .free →
    if s.reader.unlinks = some a then s.linked a = none else (s.blocks a).next = s.linked a

/-- What holds of the records that the threads have let go. -/
structure QueueInv (g : Ghost) (s : Pool) : Prop where
  heads : s.queue.map some = g.records.map List.head?
  chained : ∀ l ∈ g.records, Chained s.linked l
  reader : s.reader.At s.linked g.current
  owned : ∀ a ∈ g.current ++ g.records.flatten, g.owner a = .queued
  nodup : (g.current ++ g.records.flatten).Nodup

/-- What holds at any time. -/
structure Inv (g : Ghost) (s : Pool) : Prop where
  block : ∀ a, BlockInv g s a
  queue : QueueInv g s
  thread : ∀ i, ThreadInv g s i

variable {g g' : Ghost} {s s' : Pool}

/-- The blocks of `o` keep their owner and their links. -/
def Leaves (g g' : Ghost) (s s' : Pool) (o : Owner) : Prop :=
  ∀ a, g.owner a = o → g'.owner a = o ∧ s'.linked a = s.linked a

theorem BlockInv.frame {a : Addr} (h : BlockInv g s a)
    (howner : g'.owner a = .free ↔ g.owner a = .free) (hblock : s'.blocks a = s.blocks a)
    (hstored : s'.stored a = s.stored a) (hlinked : s'.linked a = s.linked a)
    (hnews : s.news ≤ s'.news)
    (hsizes : s'.reader.sizes = some a ↔ s.reader.sizes = some a)
    (hunlinks : s'.reader.unlinks = some a ↔ s.reader.unlinks = some a) : BlockInv g' s' a where
  wf := hblock ▸ h.wf
  made := by
    have hmade := h.made
    rw [hblock]
    cases a with
    | bucket b p => exact ⟨hmade.1, hmade.2.trans (not_congr howner).symm⟩
    | heap k => exact ⟨hmade.1, fun hle => howner.mpr (hmade.2 (Nat.le_trans hnews hle))⟩
  reset hfree hrecycle := by
    rw [hblock] at hrecycle ⊢
    obtain ⟨hsize, hnext⟩ := h.reset (howner.mp hfree) hrecycle
    exact ⟨fun hne => hsize fun heq => hne (hsizes.mpr heq),
      fun hne => hnext fun heq => hne (hunlinks.mpr heq)⟩
  contents hown := by
    rw [hblock, hstored]
    simp only [hsizes]
    exact h.contents fun hfree => hown (howner.mpr hfree)
  next hown := by
    rw [hblock, hlinked]
    simp only [hunlinks]
    exact h.next fun hfree => hown (howner.mpr hfree)

theorem ThreadInv.frame {i : Nat} (h : ThreadInv g s i) (hleaves : Leaves g g' s s' (.thread i))
    (hthread : s'.threads i = s.threads i) (hchain : g'.chain i = g.chain i) :
    ThreadInv g' s' i where
  owned a ha := by
    rw [hchain] at ha
    exact (hleaves a (h.owned a ha)).1
  nodup := hchain ▸ h.nodup
  chained := by
    rw [hchain]
    exact h.chained.congr fun a ha => (hleaves a (h.owned a ha)).2
  head := by rw [hthread, hchain, h.head]
  tail := by rw [hthread, hchain, h.tail]
  place := by
    have hplace := h.place
    rw [hthread]
    cases hp : (s.threads i).place with
    | idle => trivial
    | alloc purpose dat =>
      rw [hp] at hplace
      cases purpose <;> simpa only [Place.At, hchain] using hplace
    | own purpose dat b pos =>
      rw [hp] at hplace
      cases purpose <;> simpa only [Place.At, hchain] using hplace
    | write dat =>
      rw [hp] at hplace
      simpa only [Place.At, hchain] using hplace
    | fill dat a =>
      rw [hp] at hplace
      obtain ⟨hne, howner, hnot, hnone⟩ := hplace
      exact ⟨hchain ▸ hne, (hleaves a howner).1, hchain ▸ hnot, (hleaves a howner).2.trans hnone⟩
    | link a =>
      rw [hp] at hplace
      obtain ⟨hne, howner, hnot, hnone⟩ := hplace
      exact ⟨hchain ▸ hne, (hleaves a howner).1, hchain ▸ hnot, (hleaves a howner).2.trans hnone⟩

theorem QueueInv.frame (h : QueueInv g s) (hleaves : Leaves g g' s s' .queued)
    (hqueue : s'.queue = s.queue) (hreader : s'.reader = s.reader)
    (hrecords : g'.records = g.records) (hcurrent : g'.current = g.current) : QueueInv g' s' where
  heads := by rw [hqueue, hrecords, h.heads]
  chained l hl := by
    rw [hrecords] at hl
    refine (h.chained l hl).congr fun a ha => (hleaves a (h.owned a ?_)).2
    exact List.mem_append_right _ (List.mem_flatten.mpr ⟨l, hl, ha⟩)
  reader := by
    rw [hreader, hcurrent]
    exact Reader.At.congr h.reader fun a ha => (hleaves a (h.owned a (List.mem_append_left _ ha))).2
  owned a ha := by
    rw [hrecords, hcurrent] at ha
    exact (hleaves a (h.owned a ha)).1
  nodup := by
    rw [hrecords, hcurrent]
    exact h.nodup

@[simp] theorem setThread_self (s : Pool) (i : Nat) (t : Thread) :
    (s.setThread i t).threads i = t := Function.update_self _ _ _

theorem setThread_other (s : Pool) {i j : Nat} (h : j ≠ i) (t : Thread) :
    (s.setThread i t).threads j = s.threads j := Function.update_of_ne h _ _

@[simp] theorem setBlock_self (s : Pool) (a : Addr) (d : LogData) :
    (s.setBlock a d).blocks a = d := Function.update_self _ _ _

theorem setBlock_other (s : Pool) {a b : Addr} (h : b ≠ a) (d : LogData) :
    (s.setBlock a d).blocks b = s.blocks b := Function.update_of_ne h _ _

/-! ## The threads -/

/-- A thread goes to another place. -/
theorem Inv.move (h : Inv g s) {i : Nat} {place : Place} (hplace : place.At g s.linked i)
    (pos : Nat → Nat) :
    Inv g { s.setThread i { s.threads i with place := place } with pos := pos } where
  block a := (h.block a).frame Iff.rfl rfl rfl rfl (Nat.le_refl _) Iff.rfl Iff.rfl
  queue := h.queue.frame (fun _ ha => ⟨ha, rfl⟩) rfl rfl rfl rfl
  thread j := by
    by_cases hj : j = i
    · subst hj
      have hi := h.thread j
      refine ⟨hi.owned, hi.nodup, hi.chained, ?_, ?_, ?_⟩
      · rw [setThread_self]
        exact hi.head
      · rw [setThread_self]
        exact hi.tail
      · rw [setThread_self]
        exact hplace
    · exact (h.thread j).frame (fun a ha => ⟨ha, rfl⟩) (setThread_other s hj _) rfl

/-- A thread gets a block that nobody had. -/
theorem BlockInv.given {a : Addr} (howner : g'.owner a ≠ .free)
    (hmade : Made s'.news (s'.blocks a) (g'.owner a) a)
    (hwf : (s'.blocks a).size ≤ (s'.blocks a).capacity ∧
      (s'.blocks a).mem.length = (s'.blocks a).capacity)
    (hsize : s'.reader.sizes ≠ some a → (s'.blocks a).size = 0)
    (hnext : s'.reader.unlinks ≠ some a → (s'.blocks a).next = none)
    (hstored : s'.stored a = []) (hlinked : s'.linked a = none) : BlockInv g' s' a where
  wf := hwf
  made := hmade
  reset hfree := absurd hfree howner
  contents _ := by
    split
    · exact hstored
    · next hne => rw [hstored, LogData.contents_empty (hsize hne)]
  next _ := by
    split
    · exact hlinked
    · next hne => rw [hlinked, hnext hne]

/-- A thread gets a block that nobody had. -/
theorem Inv.give (h : Inv g s) {i : Nat} {purpose : Purpose} {dat : List UInt8} {a : Addr}
    {d : LogData} {news : Nat} (hfree : g.owner a = .free) (hnews : s.news ≤ news)
    (hmade : Made news d (.thread i) a) (hwf : d.size ≤ d.capacity ∧ d.mem.length = d.capacity)
    (hsize : s.reader.sizes ≠ some a → d.size = 0)
    (hnext : s.reader.unlinks ≠ some a → d.next = none)
    (hchain : if purpose = .head then g.chain i = [] else g.chain i ≠ []) :
    ∃ g', Inv g' (({ s.setBlock a d with news := news } : Pool).give i purpose dat a) := by
  generalize hs' : ({ s.setBlock a d with news := news } : Pool).give i purpose dat a = s'
  have hself : s'.blocks a = d := by
    rw [← hs']
    exact setBlock_self s a d
  have hstored : s'.stored a = [] := by
    rw [← hs']
    exact Function.update_self _ _ _
  have hlinked : s'.linked a = none := by
    rw [← hs']
    exact Function.update_self _ _ _
  have hreader : s'.reader = s.reader := by rw [← hs']; rfl
  have hthread {j : Nat} (hj : j ≠ i) : s'.threads j = s.threads j := by
    rw [← hs']
    exact Function.update_of_ne hj _ _
  have hother {g' : Ghost} {b : Addr} (hne : b ≠ a) (howner : g'.owner b = g.owner b) :
      BlockInv g' s' b := by
    rw [← hs']
    exact (h.block b).frame (by rw [howner]) (setBlock_other s hne d)
      (Function.update_of_ne hne _ _) (Function.update_of_ne hne _ _) hnews Iff.rfl Iff.rfl
  have hgiven {g' : Ghost} (howner : g'.owner a = .thread i) : BlockInv g' s' a := by
    refine BlockInv.given (by rw [howner]; exact Owner.noConfusion) ?_ ?_ ?_ ?_ hstored hlinked
    · rw [hself, howner, ← hs']
      exact hmade
    · rw [hself]
      exact hwf
    · rw [hself, hreader]
      exact hsize
    · rw [hself, hreader]
      exact hnext
  have hleaves {g' : Ghost} (howner : ∀ b, b ≠ a → g'.owner b = g.owner b) {o : Owner}
      (ho : o ≠ .free) : Leaves g g' s s' o := by
    intro b hb
    have hne : b ≠ a := by
      rintro rfl
      exact ho (hb.symm.trans hfree)
    rw [← hs']
    exact ⟨(howner b hne).trans hb, Function.update_of_ne hne _ _⟩
  have hqueue {g' : Ghost} (howner : ∀ b, b ≠ a → g'.owner b = g.owner b)
      (hrecords : g'.records = g.records) (hcurrent : g'.current = g.current) : QueueInv g' s' :=
    h.queue.frame (hleaves howner Owner.noConfusion) (by rw [← hs']; rfl) hreader hrecords hcurrent
  cases purpose with
  | head =>
    have ht : s'.threads i = ⟨.write dat, some a, some a⟩ := by
      rw [← hs']
      exact Function.update_self _ _ _
    have howner (b : Addr) (hne : b ≠ a) :
        ((g.take a (.thread i)).setChain i [a]).owner b = g.owner b := Ghost.take_other g hne _
    refine ⟨(g.take a (.thread i)).setChain i [a], fun b => ?_, hqueue howner rfl rfl, fun j => ?_⟩
    · by_cases hne : b = a
      · subst hne
        exact hgiven (Ghost.take_self g b _)
      · exact hother hne (howner b hne)
    · by_cases hj : j = i
      · subst hj
        refine ⟨fun b hb => ?_, ?_, ?_, ?_, ?_, ?_⟩
        · rw [Ghost.setChain_self, List.mem_singleton] at hb
          rw [hb]
          exact Ghost.take_self g a _
        · simp
        · rw [Ghost.setChain_self]
          exact ⟨hlinked, trivial⟩
        · rw [Ghost.setChain_self, ht]
          rfl
        · rw [Ghost.setChain_self, ht]
          rfl
        · rw [ht, Place.At, Ghost.setChain_self]
          exact List.cons_ne_nil _ _
      · exact (h.thread j).frame (hleaves howner Owner.noConfusion) (hthread hj)
          (Ghost.setChain_other _ hj _)
  | more =>
    have ht : s'.threads i = { s.threads i with place := .fill dat a } := by
      rw [← hs']
      exact Function.update_self _ _ _
    have howner (b : Addr) (hne : b ≠ a) : (g.take a (.thread i)).owner b = g.owner b :=
      Ghost.take_other g hne _
    refine ⟨g.take a (.thread i), fun b => ?_, hqueue howner rfl rfl, fun j => ?_⟩
    · by_cases hne : b = a
      · subst hne
        exact hgiven (Ghost.take_self g b _)
      · exact hother hne (howner b hne)
    · by_cases hj : j = i
      · subst hj
        have hi := h.thread j
        have hmine : Leaves g (g.take a (.thread j)) s s' (.thread j) :=
          hleaves howner Owner.noConfusion
        have hnot : a ∉ g.chain j := by
          intro ha
          rw [hi.owned a ha] at hfree
          cases hfree
        refine ⟨fun b hb => (hmine b (hi.owned b hb)).1, hi.nodup,
          hi.chained.congr fun b hb => (hmine b (hi.owned b hb)).2, ?_, ?_, ?_⟩
        · rw [ht]
          exact hi.head
        · rw [ht]
          exact hi.tail
        · rw [ht]
          exact ⟨hchain, Ghost.take_self g a _, hnot, hlinked⟩
      · exact (h.thread j).frame (hleaves howner Owner.noConfusion) (hthread hj) rfl

/-- A thread writes to a block that it has. -/
theorem Inv.store (h : Inv g s) {a : Addr} {dat : List UInt8}
    (hundisturbed : dat ≠ [] → s.reader.sizes ≠ some a) {i : Nat} (howner : g.owner a = .thread i) :
    Inv g (s.store a dat) where
  block b := by
    have hb := h.block b
    by_cases hne : b = a
    · subst hne
      have hself : (s.store b dat).blocks b = ((s.blocks b).write dat).1 := setBlock_self s b _
      have hstored : (s.store b dat).stored b =
          s.stored b ++ dat.take ((s.blocks b).capacity - (s.stored b).length) :=
        Function.update_self _ _ _
      have hown : g.owner b ≠ .free := by
        rw [howner]
        exact Owner.noConfusion
      refine ⟨?_, ?_, fun hfree => absurd hfree hown, fun _ => ?_, fun _ => ?_⟩
      · rw [hself]
        exact LogData.write_wf hb.wf.1 hb.wf.2 dat
      · rw [hself]
        cases b <;> exact hb.made
      · have hcontents := hb.contents hown
        rw [hself, hstored]
        show if s.reader.sizes = some b then _ else _
        split
        · next hsizes =>
          rw [if_pos hsizes] at hcontents
          have hdat : dat = [] := by
            by_contra hdat
            exact hundisturbed hdat hsizes
          rw [hcontents, hdat, List.take_nil, List.append_nil]
        · next hsizes =>
          rw [if_neg hsizes] at hcontents
          rw [LogData.write_contents hb.wf.1 hb.wf.2, ← hcontents,
            LogData.length_contents hb.wf.1 hb.wf.2]
      · rw [hself]
        exact hb.next hown
    · exact hb.frame Iff.rfl (setBlock_other s hne _) (Function.update_of_ne hne _ _) rfl
        (Nat.le_refl _) Iff.rfl Iff.rfl
  queue := h.queue.frame (fun _ hb => ⟨hb, rfl⟩) rfl rfl rfl rfl
  thread j := (h.thread j).frame (fun _ hb => ⟨hb, rfl⟩) rfl rfl

/-- A thread links a block that it has to its record. -/
theorem Inv.link (h : Inv g s) {i : Nat} {a b : Addr} (hplace : (s.threads i).place = .link b)
    (htail : (s.threads i).tail = some a) (hundisturbed : s.reader.unlinks ≠ some a) :
    Inv (g.setChain i (g.chain i ++ [b]))
      { (s.setBlock a { s.blocks a with next := some b }).setThread i
          ⟨.idle, (s.threads i).head, some b⟩ with
        linked := Function.update s.linked a (some b) } := by
  generalize hs' : ({ (s.setBlock a { s.blocks a with next := some b }).setThread i
          ⟨.idle, (s.threads i).head, some b⟩ with
        linked := Function.update s.linked a (some b) } : Pool) = s'
  have hi := h.thread i
  have hat := hi.place
  rw [hplace] at hat
  obtain ⟨-, howner, hnot, hnone⟩ := hat
  obtain ⟨l, hl⟩ : ∃ l, g.chain i = l ++ [a] :=
    List.getLast?_eq_some_iff.mp (hi.tail.symm.trans htail)
  have ha : g.owner a = .thread i := hi.owned a (by simp [hl])
  have hself : s'.blocks a = { s.blocks a with next := some b } := by
    rw [← hs']
    exact setBlock_self s a _
  have hlinked : s'.linked a = some b := by
    rw [← hs']
    exact Function.update_self _ _ _
  have hsame {x : Addr} (hne : x ≠ a) : s'.linked x = s.linked x := by
    rw [← hs']
    exact Function.update_of_ne hne _ _
  have hreader : s'.reader = s.reader := by rw [← hs']; rfl
  have hleaves {o : Owner} (ho : o ≠ .thread i) :
      Leaves g (g.setChain i (g.chain i ++ [b])) s s' o := by
    intro x hx
    refine ⟨hx, hsame ?_⟩
    rintro rfl
    exact ho (hx.symm.trans ha)
  have ht : s'.threads i = ⟨.idle, (s.threads i).head, some b⟩ := by
    rw [← hs']
    exact Function.update_self _ _ _
  refine ⟨fun x => ?_, ?_, fun j => ?_⟩
  · have hx := h.block x
    by_cases hne : x = a
    · subst hne
      have hown : g.owner x ≠ .free := by
        rw [ha]
        exact Owner.noConfusion
      refine ⟨?_, ?_, fun hfree => absurd hfree hown, fun _ => ?_, fun _ => ?_⟩
      · rw [hself]
        exact hx.wf
      · rw [hself, ← hs']
        cases x <;> exact hx.made
      · rw [hself, hreader, ← hs']
        exact hx.contents hown
      · rw [hself, hreader, if_neg hundisturbed, hlinked]
    · exact hx.frame Iff.rfl (by rw [← hs']; exact setBlock_other s hne _) (by rw [← hs']; rfl)
        (hsame hne) (by rw [← hs']; exact Nat.le_refl _) (by rw [hreader]) (by rw [hreader])
  · exact h.queue.frame (hleaves Owner.noConfusion) (by rw [← hs']; rfl) hreader rfl rfl
  · by_cases hj : j = i
    · subst hj
      refine ⟨fun x hx => ?_, ?_, ?_, ?_, ?_, ?_⟩
      · rw [Ghost.setChain_self, List.mem_append, List.mem_singleton] at hx
        rcases hx with hx | rfl
        · exact hi.owned x hx
        · exact howner
      · rw [Ghost.setChain_self]
        refine List.nodup_append.mpr ⟨hi.nodup, by simp, ?_⟩
        rintro x hx y hy rfl
        exact hnot (List.mem_singleton.mp hy ▸ hx)
      · have hchained := hi.chained
        have hnodup := hi.nodup
        rw [Ghost.setChain_self, hl]
        rw [hl] at hchained hnodup hnot
        refine hchained.concat (fun x hx => hsame ?_) hlinked ((hsame ?_).trans hnone)
        · rintro rfl
          exact (List.nodup_append.mp hnodup).2.2 x hx x (List.mem_singleton_self x) rfl
        · rintro rfl
          exact hnot (List.mem_append_right l (List.mem_singleton_self b))
      · rw [Ghost.setChain_self, ht, hi.head, hl]
        simp
      · rw [Ghost.setChain_self, ht, List.getLast?_concat]
      · rw [ht]
        trivial
    · exact (h.thread j).frame (hleaves fun heq => hj (Owner.thread.inj heq))
        (by rw [← hs']; exact Function.update_of_ne hj _ _) (Ghost.setChain_other g hj _)

/-- The record of a thread is queued. -/
def Ghost.queue (g : Ghost) (i : Nat) : Ghost where
  owner a := if a ∈ g.chain i then .queued else g.owner a
  chain := Function.update g.chain i []
  records := g.records ++ [g.chain i]
  current := g.current

/-- A thread lets its record go. -/
theorem Inv.finish (h : Inv g s) {i : Nat} {a : Addr} (hhead : (s.threads i).head = some a) :
    Inv (Ghost.queue g i) { s.setThread i ⟨.idle, none, none⟩ with queue := s.queue ++ [a] } := by
  have hi := h.thread i
  have howner {b : Addr} (hb : g.owner b ≠ .thread i) : (Ghost.queue g i).owner b = g.owner b :=
    if_neg fun hmem => hb (hi.owned b hmem)
  have hmine {b : Addr} (hb : b ∈ g.chain i) : (Ghost.queue g i).owner b = .queued := if_pos hb
  refine ⟨fun b => ?_, ⟨?_, ?_, h.queue.reader, ?_, ?_⟩, fun j => ?_⟩
  · refine (h.block b).frame ?_ rfl rfl rfl (Nat.le_refl _) Iff.rfl Iff.rfl
    by_cases hb : b ∈ g.chain i
    · rw [hmine hb, hi.owned b hb]
      exact ⟨Owner.noConfusion, Owner.noConfusion⟩
    · rw [show (Ghost.queue g i).owner b = g.owner b from if_neg hb]
  · show (s.queue ++ [a]).map some = (g.records ++ [g.chain i]).map List.head?
    rw [List.map_append, List.map_append, h.queue.heads, List.map_singleton, List.map_singleton,
      ← hhead, hi.head]
  · intro l hl
    rcases List.mem_append.mp hl with hl | hl
    · exact h.queue.chained l hl
    · exact List.mem_singleton.mp hl ▸ hi.chained
  · intro b hb
    rw [Ghost.queue, List.flatten_append, List.flatten_singleton, ← List.append_assoc] at hb
    rcases List.mem_append.mp hb with hb | hb
    · have hq := h.queue.owned b hb
      rw [howner (by rw [hq]; exact Owner.noConfusion), hq]
    · exact hmine hb
  · rw [Ghost.queue, List.flatten_append, List.flatten_singleton, ← List.append_assoc]
    refine List.nodup_append.mpr ⟨h.queue.nodup, hi.nodup, ?_⟩
    rintro x hx y hy rfl
    have hqueued := h.queue.owned x hx
    rw [hi.owned x hy] at hqueued
    cases hqueued
  · by_cases hj : j = i
    · subst hj
      have hnil : (Ghost.queue g j).chain j = [] := Function.update_self _ _ _
      have ht : ({ s.setThread j ⟨.idle, none, none⟩ with queue := s.queue ++ [a] } : Pool).threads j =
          ⟨.idle, none, none⟩ := Function.update_self _ _ _
      refine ⟨?_, ?_, ?_, ?_, ?_, ?_⟩
      · rw [hnil]
        exact fun b hb => nomatch hb
      · rw [hnil]
        exact List.nodup_nil
      · rw [hnil]
        trivial
      · rw [hnil, ht]
        rfl
      · rw [hnil, ht]
        rfl
      · rw [ht]
        trivial
    · refine (h.thread j).frame (fun b hb => ⟨?_, rfl⟩) (Function.update_of_ne hj _ _)
        (Function.update_of_ne hj _ _)
      rw [howner (by rw [hb]; exact fun heq => hj (Owner.thread.inj heq)), hb]

/-! ## The consumer -/

/-- The consumer goes on with what is left of the record. -/
theorem follow_eq (s : Pool) (next : Option Addr) :
    ∃ r, s.follow next = { s with reader := r } ∧ r.sizes = none ∧ r.unlinks = none ∧
      ∀ {linked : Addr → Option Addr} {current : List Addr}, next = current.head? →
        Chained linked current → r.At linked current := by
  cases next with
  | none =>
    refine ⟨.idle, rfl, rfl, rfl, fun {_ current} hnext _ => ?_⟩
    cases current with
    | nil => exact rfl
    | cons a l => cases hnext
  | some a => exact ⟨.reading a, rfl, rfl, rfl, fun hnext hchained => ⟨hnext.symm, hchained⟩⟩

/-- The consumer takes a record out of the ring. -/
theorem Inv.pop (h : Inv g s) {a : Addr} {queue : List Addr} (hreader : s.reader = .idle)
    (hqueue : s.queue = a :: queue) :
    ∃ g', Inv g' { s with queue := queue, reader := .reading a } := by
  have hcurrent : g.current = [] := by
    have hat := h.queue.reader
    rwa [hreader] at hat
  have hheads := h.queue.heads
  rw [hqueue] at hheads
  cases hrecords : g.records with
  | nil =>
    rw [hrecords] at hheads
    cases hheads
  | cons l records =>
    rw [hrecords, List.map_cons, List.map_cons] at hheads
    obtain ⟨hhead, hheads⟩ := List.cons.inj hheads
    have hsame : l ++ records.flatten = g.current ++ g.records.flatten := by
      rw [hcurrent, hrecords, List.flatten_cons, List.nil_append]
    have hsizes (b : Addr) : (Reader.reading a).sizes = some b ↔ s.reader.sizes = some b := by
      rw [hreader]
      exact Iff.rfl
    have hunlinks (b : Addr) : (Reader.reading a).unlinks = some b ↔ s.reader.unlinks = some b := by
      rw [hreader]
      exact Iff.rfl
    refine ⟨⟨g.owner, g.chain, records, l⟩, fun b => ?_, ⟨hheads, fun l' hl' => ?_, ?_, ?_, ?_⟩,
      fun j => ?_⟩
    · exact (h.block b).frame Iff.rfl rfl rfl rfl (Nat.le_refl _) (hsizes b) (hunlinks b)
    · exact h.queue.chained l' (hrecords ▸ List.mem_cons_of_mem l hl')
    · exact ⟨hhead.symm, h.queue.chained l (hrecords ▸ List.mem_cons_self)⟩
    · rw [hsame]
      exact h.queue.owned
    · rw [hsame]
      exact h.queue.nodup
    · exact (h.thread j).frame (fun _ hb => ⟨hb, rfl⟩) rfl rfl

/-- What the consumer reads of a block. -/
theorem Inv.reads (h : Inv g s) {a : Addr} (hreader : s.reader = .reading a) :
    (s.blocks a).contents = s.stored a ∧ (s.blocks a).next = s.linked a := by
  have hat := h.queue.reader
  rw [hreader] at hat
  have hmem : a ∈ g.current := List.mem_of_mem_head? hat.1
  have hown : g.owner a ≠ .free := by
    rw [h.queue.owned a (List.mem_append_left _ hmem)]
    exact Owner.noConfusion
  have hcontents := (h.block a).contents hown
  have hnext := (h.block a).next hown
  rw [hreader] at hcontents hnext
  exact ⟨hcontents, hnext⟩

/-- The consumer has read a block. -/
theorem Inv.read (h : Inv g s) {a : Addr} (hreader : s.reader = .reading a) :
    Inv g { s with reader := .clearing a (s.blocks a).next } where
  block b := by
    refine (h.block b).frame Iff.rfl rfl rfl rfl (Nat.le_refl _) ?_ ?_
    · rw [hreader]
      exact Iff.rfl
    · rw [hreader]
      exact Iff.rfl
  queue := by
    refine ⟨h.queue.heads, h.queue.chained, ?_, h.queue.owned, h.queue.nodup⟩
    have hat := h.queue.reader
    rw [hreader] at hat
    obtain ⟨hhead, hchained⟩ := hat
    cases hcurrent : g.current with
    | nil =>
      rw [hcurrent] at hhead
      cases hhead
    | cons b rest =>
      rw [hcurrent] at hhead hchained
      obtain rfl : b = a := Option.some.inj hhead
      exact ⟨rest, rfl, (h.reads hreader).2.trans hchained.1, hchained.2⟩
  thread j := (h.thread j).frame (fun _ hb => ⟨hb, rfl⟩) rfl rfl

/-- The consumer is done with a block: nobody has it, and the others stay. -/
theorem Inv.release (h : Inv g s) {a : Addr} {next : Option Addr} {d : LogData} {r : Reader}
    (hreader : s.reader = .clearing a next) (hmade : Made s.news d .free a)
    (hwf : d.size ≤ d.capacity ∧ d.mem.length = d.capacity)
    (hreset : d.recycle = true → r.sizes = some a ∧ r.unlinks = some a)
    (hsizes : ∀ b, b ≠ a → r.sizes ≠ some b) (hunlinks : ∀ b, b ≠ a → r.unlinks ≠ some b)
    (hat : ∀ {current : List Addr}, next = current.head? → Chained s.linked current →
      r.At s.linked current) :
    ∃ g', Inv g' { s.setBlock a d with reader := r } := by
  have hreads := h.queue.reader
  rw [hreader] at hreads
  obtain ⟨rest, hcurrent, hnext, hchained⟩ := hreads
  have hqueued := h.queue.owned
  have hnodup := h.queue.nodup
  rw [hcurrent, List.cons_append] at hqueued hnodup
  have hfree : (g.take a .free).owner a = .free := Ghost.take_self g a _
  have ha : g.owner a = .queued := hqueued a List.mem_cons_self
  refine ⟨{ g.take a .free with current := rest }, fun b => ?_,
    ⟨h.queue.heads, h.queue.chained, hat hnext hchained, fun b hb => ?_,
      (List.nodup_cons.mp hnodup).2⟩, fun j => ?_⟩
  · by_cases hne : b = a
    · subst hne
      have hself : ({ s.setBlock b d with reader := r } : Pool).blocks b = d := setBlock_self s b d
      refine ⟨?_, ?_, fun _ hrecycle => ?_, fun hown => absurd hfree hown,
        fun hown => absurd hfree hown⟩
      · rw [hself]
        exact hwf
      · rw [hself, show ({ g.take b .free with current := rest } : Ghost).owner b = .free from hfree]
        exact hmade
      · rw [hself] at hrecycle
        exact ⟨fun hsize => absurd (hreset hrecycle).1 hsize,
          fun hunlink => absurd (hreset hrecycle).2 hunlink⟩
    · refine (h.block b).frame ?_ (setBlock_other s hne d) rfl rfl (Nat.le_refl _) ?_ ?_
      · rw [show ({ g.take a .free with current := rest } : Ghost).owner b = g.owner b from
          Ghost.take_other g hne _]
      · rw [hreader]
        exact ⟨fun heq => absurd heq (hsizes b hne), fun heq => nomatch heq⟩
      · rw [hreader]
        exact ⟨fun heq => absurd heq (hunlinks b hne), fun heq => nomatch heq⟩
  · refine (Ghost.take_other g ?_ _).trans (hqueued b (List.mem_cons_of_mem a hb))
    rintro rfl
    exact (List.nodup_cons.mp hnodup).1 hb
  · refine (h.thread j).frame (fun b hb => ⟨(Ghost.take_other g ?_ _).trans hb, rfl⟩) rfl rfl
    rintro rfl
    rw [ha] at hb
    cases hb

/-- The consumer resets the size of a block. -/
theorem Inv.size (h : Inv g s) {a : Addr} {next : Option Addr}
    (hreader : s.reader = .sizing a next) :
    Inv g { s.setBlock a { s.blocks a with size := 0 } with reader := .unlinking a next } := by
  generalize hs' : ({ s.setBlock a { s.blocks a with size := 0 } with
    reader := .unlinking a next } : Pool) = s'
  have hself : s'.blocks a = { s.blocks a with size := 0 } := by
    rw [← hs']
    exact setBlock_self s a _
  have hreader' : s'.reader = .unlinking a next := by rw [← hs']
  have hunlinks : s'.reader.unlinks = s.reader.unlinks := by
    rw [hreader, hreader']
    rfl
  have hsizes : s'.reader.sizes = none := by
    rw [hreader']
    rfl
  refine ⟨fun b => ?_, ⟨?_, ?_, ?_, ?_, ?_⟩, fun j => ?_⟩
  · have hb := h.block b
    by_cases hne : b = a
    · subst hne
      refine ⟨?_, ?_, fun hfree hrecycle => ⟨fun _ => ?_, ?_⟩, fun hown => ?_, fun hown => ?_⟩
      · rw [hself]
        exact ⟨Nat.zero_le _, hb.wf.2⟩
      · rw [hself, ← hs']
        cases b <;> exact hb.made
      · rw [hself]
      · rw [hself] at hrecycle ⊢
        rw [hunlinks]
        exact (hb.reset hfree hrecycle).2
      · have hcontents := hb.contents hown
        rw [hreader, if_pos (show (Reader.sizing b next).sizes = some b from rfl)] at hcontents
        rw [if_neg (by rw [hsizes]; exact (Option.some_ne_none b).symm), hself,
          show s'.stored b = s.stored b by rw [← hs']; rfl, hcontents, LogData.contents_empty rfl]
      · rw [hunlinks, hself, show s'.linked b = s.linked b by rw [← hs']; rfl]
        exact hb.next hown
    · refine hb.frame Iff.rfl (by rw [← hs']; exact setBlock_other s hne _) (by rw [← hs']; rfl)
        (by rw [← hs']; rfl) (by rw [← hs']; exact Nat.le_refl _) ?_ (by rw [hunlinks])
      rw [hsizes, hreader]
      exact ⟨fun heq => (nomatch heq), fun heq => absurd (Option.some.inj heq).symm hne⟩
  · rw [← hs']
    exact h.queue.heads
  · rw [← hs']
    exact h.queue.chained
  · have hat := h.queue.reader
    rw [hreader] at hat
    rwa [hreader', show s'.linked = s.linked by rw [← hs']; rfl]
  · exact h.queue.owned
  · exact h.queue.nodup
  · exact (h.thread j).frame (fun _ hb => ⟨hb, by rw [← hs']; rfl⟩) (by rw [← hs']; rfl) rfl

/-- The consumer resets the link of a block, and goes on with the next one. -/
theorem Inv.unlink (h : Inv g s) {a : Addr} {next : Option Addr}
    (hreader : s.reader = .unlinking a next) :
    Inv g ((s.setBlock a { s.blocks a with next := none }).follow next) := by
  obtain ⟨r, hfollow, hsizes, hunlinks, hat⟩ :=
    follow_eq (s.setBlock a { s.blocks a with next := none }) next
  rw [hfollow]
  generalize hs' : ({ s.setBlock a { s.blocks a with next := none } with reader := r } : Pool) = s'
  have hself : s'.blocks a = { s.blocks a with next := none } := by
    rw [← hs']
    exact setBlock_self s a _
  have hsizes' : s'.reader.sizes = s.reader.sizes := by
    rw [← hs', hreader]
    exact hsizes
  have hunlinks' : s'.reader.unlinks = none := by
    rw [← hs']
    exact hunlinks
  refine ⟨fun b => ?_, ⟨?_, ?_, ?_, ?_, ?_⟩, fun j => ?_⟩
  · have hb := h.block b
    by_cases hne : b = a
    · subst hne
      refine ⟨?_, ?_, fun hfree hrecycle => ⟨?_, fun _ => ?_⟩, fun hown => ?_, fun hown => ?_⟩
      · rw [hself]
        exact hb.wf
      · rw [hself, ← hs']
        cases b <;> exact hb.made
      · rw [hself] at hrecycle ⊢
        rw [hsizes']
        exact (hb.reset hfree hrecycle).1
      · rw [hself]
      · rw [hsizes', hself, show s'.stored b = s.stored b by rw [← hs']; rfl]
        exact hb.contents hown
      · have hnext := hb.next hown
        rw [hreader, if_pos (show (Reader.unlinking b next).unlinks = some b from rfl)] at hnext
        rw [if_neg (by rw [hunlinks']; exact (Option.some_ne_none b).symm), hself,
          show s'.linked b = s.linked b by rw [← hs']; rfl, hnext]
    · refine hb.frame Iff.rfl (by rw [← hs']; exact setBlock_other s hne _) (by rw [← hs']; rfl)
        (by rw [← hs']; rfl) (by rw [← hs']; exact Nat.le_refl _) (by rw [hsizes']) ?_
      rw [hunlinks', hreader]
      exact ⟨fun heq => (nomatch heq), fun heq => absurd (Option.some.inj heq).symm hne⟩
  · rw [← hs']
    exact h.queue.heads
  · rw [← hs']
    exact h.queue.chained
  · have hreads := h.queue.reader
    rw [hreader] at hreads
    rw [← hs']
    exact hat hreads.1 hreads.2
  · exact h.queue.owned
  · exact h.queue.nodup
  · exact (h.thread j).frame (fun _ hb => ⟨hb, by rw [← hs']; rfl⟩) (by rw [← hs']; rfl) rfl

/-! ## Runs -/

/-- Nothing is stored in a field that the consumer is still to reset. -/
def Undisturbed (s : Pool) : Event → Prop
  | .produce i =>
    match (s.threads i).place with
    | .write dat => dat ≠ [] → ∀ a, (s.threads i).tail = some a → s.reader.sizes ≠ some a
    | .fill dat a => dat ≠ [] → s.reader.sizes ≠ some a
    | .link _ => ∀ a, (s.threads i).tail = some a → s.reader.unlinks ≠ some a
    | .idle | .alloc _ _ | .own _ _ _ _ => True
  | .call _ _ | .finish _ | .work => True

/-- The consumer reads of a block what has been stored in it, and what it has been linked to. -/
def ReadsStored (s : Pool) : Event → Prop
  | .work =>
    match s.reader with
    | .reading a => (s.blocks a).contents = s.stored a ∧ (s.blocks a).next = s.linked a
    | .idle | .clearing _ _ | .sizing _ _ | .unlinking _ _ => True
  | .call _ _ | .produce _ | .finish _ => True

/-- A block that is in use holds what has been stored in it, and is linked to what it has been
linked to, unless the consumer is still to reset that field. -/
def Intact (s : Pool) : Prop :=
  ∀ b p, (s.blocks (.bucket b p)).used = true →
    (s.reader.sizes ≠ some (.bucket b p) →
      (s.blocks (.bucket b p)).contents = s.stored (.bucket b p)) ∧
    (s.reader.unlinks ≠ some (.bucket b p) →
      (s.blocks (.bucket b p)).next = s.linked (.bucket b p))

theorem new_inv : Inv ⟨fun _ => .free, fun _ => [], [], []⟩ new where
  block
    | .bucket b p => by
      refine ⟨⟨Nat.zero_le _, List.length_replicate⟩, ⟨rfl, ?_⟩, fun _ _ => ⟨fun _ => rfl, fun _ => rfl⟩,
        fun hown => absurd rfl hown, fun hown => absurd rfl hown⟩
      exact ⟨fun heq => (nomatch heq), fun hown => absurd rfl hown⟩
    | .heap k => by
      refine ⟨⟨Nat.zero_le _, List.length_replicate⟩, ⟨rfl, fun _ => rfl⟩, fun _ heq => (nomatch heq),
        fun hown => absurd rfl hown, fun hown => absurd rfl hown⟩
  queue := ⟨rfl, fun _ hl => (nomatch hl), rfl, fun _ ha => (nomatch ha), List.nodup_nil⟩
  thread _ := ⟨fun _ ha => (nomatch ha), List.nodup_nil, trivial, rfl, rfl, trivial⟩

theorem Inv.intact (h : Inv g s) : Intact s := by
  intro b p hused
  have hown : g.owner (.bucket b p) ≠ .free := (h.block (.bucket b p)).made.2.mp hused
  refine ⟨fun hsizes => ?_, fun hunlinks => ?_⟩
  · have hcontents := (h.block (.bucket b p)).contents hown
    rwa [if_neg hsizes] at hcontents
  · have hnext := (h.block (.bucket b p)).next hown
    rwa [if_neg hunlinks] at hnext

theorem Inv.readsStored (h : Inv g s) (ev : Event) : ReadsStored s ev := by
  cases ev with
  | call i src => trivial
  | produce i => trivial
  | finish i => trivial
  | work =>
    rw [ReadsStored]
    split
    · next hreader => exact h.reads hreader
    all_goals trivial

/-- A thread gets a block that `new` makes. -/
theorem Inv.giveNew (h : Inv g s) {i : Nat} {purpose : Purpose} {dat : List UInt8} (n : Nat)
    (hchain : if purpose = .head then g.chain i = [] else g.chain i ≠ []) :
    ∃ g', Inv g' (s.giveNew i purpose dat n) :=
  h.give ((h.block (.heap s.news)).made.2 (Nat.le_refl _)) (Nat.le_succ _)
    ⟨rfl, fun hle => absurd hle (Nat.not_succ_le_self _)⟩ ⟨Nat.zero_le _, List.length_replicate⟩
    (fun _ => rfl) (fun _ => rfl) hchain

/-- A step of a thread in `produce`. -/
theorem Inv.produce (h : Inv g s) {i : Nat} (hundisturbed : Undisturbed s (.produce i))
    (hstep : s.produce i = some s') : ∃ g', Inv g' s' := by
  have hplace := (h.thread i).place
  rw [Undisturbed] at hundisturbed
  rw [Pool.produce] at hstep
  cases hp : (s.threads i).place with
  | idle =>
    rw [hp] at hstep
    cases hstep
  | alloc purpose dat =>
    simp only [hp] at hplace hstep
    cases hb : bucketOf dat.length with
    | some b =>
      simp only [hb, Option.some.injEq] at hstep
      rw [← hstep]
      refine ⟨g, h.move ?_ _⟩
      cases purpose <;> exact hplace
    | none =>
      simp only [hb, Option.some.injEq] at hstep
      rw [← hstep]
      refine h.giveNew _ ?_
      cases purpose <;> exact hplace
  | own purpose dat b pos =>
    simp only [hp] at hplace hstep
    have hchain : if purpose = .head then g.chain i = [] else g.chain i ≠ [] := by
      cases purpose <;> exact hplace
    split at hstep
    · obtain rfl := Option.some.inj hstep
      exact h.giveNew _ hchain
    · next hused =>
      obtain rfl := Option.some.inj hstep
      have hblock := h.block (.bucket b pos)
      have hfree : g.owner (.bucket b pos) = .free := by
        by_contra hown
        exact hused (hblock.made.2.mpr hown)
      have hreset := hblock.reset hfree hblock.made.1
      exact h.give hfree (Nat.le_refl _) ⟨hblock.made.1, fun _ => Owner.noConfusion, fun _ => rfl⟩
        hblock.wf hreset.1 hreset.2 hchain
  | write dat =>
    simp only [hp] at hplace hstep hundisturbed
    obtain ⟨a, htail, hstep⟩ := Option.map_eq_some_iff.mp hstep
    have hlast : (g.chain i).getLast? = some a := (h.thread i).tail.symm.trans htail
    have howner := (h.thread i).owned a (List.mem_of_getLast? hlast)
    rw [← hstep]
    refine ⟨g, (h.store (fun hdat => hundisturbed hdat a htail) howner).move ?_ s.pos⟩
    split
    · exact hplace
    · trivial
  | fill dat a =>
    simp only [hp] at hplace hstep hundisturbed
    obtain rfl := Option.some.inj hstep
    have hlink : Place.At g s.linked i (.link a) := hplace
    exact ⟨g, (h.store hundisturbed hplace.2.1).move hlink s.pos⟩
  | link b =>
    simp only [hp] at hstep hundisturbed
    obtain ⟨a, htail, hstep⟩ := Option.map_eq_some_iff.mp hstep
    rw [← hstep]
    exact ⟨_, h.link hp htail (hundisturbed a htail)⟩

/-- A step of the consumer. -/
theorem Inv.work (h : Inv g s) (hstep : s.work = some s') : ∃ g', Inv g' s' := by
  rw [Pool.work] at hstep
  cases hreader : s.reader with
  | idle =>
    cases hqueue : s.queue with
    | nil =>
      rw [hreader, hqueue] at hstep
      cases hstep
    | cons a queue =>
      rw [hreader, hqueue] at hstep
      obtain rfl := Option.some.inj hstep
      exact h.pop hreader hqueue
  | reading a =>
    rw [hreader] at hstep
    obtain rfl := Option.some.inj hstep
    exact ⟨g, h.read hreader⟩
  | clearing a next =>
    simp only [hreader] at hstep
    have hblock := h.block a
    split at hstep
    · next hrecycle =>
      obtain rfl := Option.some.inj hstep
      refine h.release hreader ?_ hblock.wf (fun _ => ⟨rfl, rfl⟩)
        (fun b hne heq => hne (Option.some.inj heq).symm)
        (fun b hne heq => hne (Option.some.inj heq).symm) fun hnext hchained => ⟨hnext, hchained⟩
      cases a with
      | bucket b p =>
        exact ⟨hblock.made.1, fun heq => (nomatch heq), fun hown => absurd rfl hown⟩
      | heap k => exact ⟨hblock.made.1, fun _ => rfl⟩
    · next hrecycle =>
      obtain rfl := Option.some.inj hstep
      obtain ⟨r, hfollow, hsizes, hunlinks, hat⟩ := follow_eq s next
      have hsame : s.follow next = { s.setBlock a (s.blocks a) with reader := r } := by
        rw [hfollow, setBlock, Function.update_eq_self]
      rw [hsame]
      refine h.release hreader ?_ hblock.wf (fun heq => absurd heq hrecycle)
        (fun b _ => by rw [hsizes]; exact (Option.some_ne_none b).symm)
        (fun b _ => by rw [hunlinks]; exact (Option.some_ne_none b).symm) hat
      cases a with
      | bucket b p => exact absurd hblock.made.1 hrecycle
      | heap k => exact ⟨hblock.made.1, fun _ => rfl⟩
  | sizing a next =>
    rw [hreader] at hstep
    obtain rfl := Option.some.inj hstep
    exact ⟨g, h.size hreader⟩
  | unlinking a next =>
    rw [hreader] at hstep
    obtain rfl := Option.some.inj hstep
    exact ⟨g, h.unlink hreader⟩

/-- What a step that is undisturbed keeps. -/
theorem step_inv {ev : Event} (h : ∃ g, Inv g s) (hundisturbed : Undisturbed s ev)
    (hstep : machine.step s ev = some s') : ∃ g, Inv g s' := by
  obtain ⟨g, h⟩ := h
  cases ev with
  | call i src =>
    replace hstep : (if (s.threads i).place = .idle then _ else none) = some s' := hstep
    split at hstep
    · obtain rfl := Option.some.inj hstep
      refine ⟨g, h.move ?_ s.pos⟩
      have hhead := (h.thread i).head
      cases hchain : g.chain i with
      | nil =>
        rw [hchain] at hhead
        rw [if_pos (show (s.threads i).head = none from hhead)]
        exact hchain
      | cons a l =>
        rw [hchain] at hhead
        rw [if_neg (by rw [hhead]; exact Option.some_ne_none a), Place.At, hchain]
        exact List.cons_ne_nil a l
    · cases hstep
  | produce i => exact h.produce hundisturbed hstep
  | finish i =>
    simp only [machine, step] at hstep
    split at hstep
    · cases hstep
    · next a hhead =>
      split at hstep
      · obtain rfl := Option.some.inj hstep
        exact ⟨_, h.finish hhead⟩
      · cases hstep
  | work => exact h.work hstep

/-- **What is stored in a block is read from it.** In every run whose steps are undisturbed, the
consumer reads of every block what the thread that owned it has stored in it and linked it to, and
no block in use has lost any of it. -/
theorem blocks_keep_records {evs : List Event} (hundisturbed : machine.AllSteps Undisturbed new evs)
    (hrun : machine.run new evs = some s) : Intact s ∧ machine.AllSteps ReadsStored new evs := by
  have hstep (s : Pool) (ev : Event) (s' : Pool) (h : ∃ g, Inv g s) (hu : Undisturbed s ev)
      (hs : machine.step s ev = some s') : ∃ g, Inv g s' := step_inv h hu hs
  refine ⟨?_, ?_⟩
  · obtain ⟨g, h⟩ := machine.run_invariant hstep evs ⟨_, new_inv⟩ hundisturbed hrun
    exact h.intact
  · refine machine.allSteps_of_invariant hstep (fun s ev h _ => ?_) evs ⟨_, new_inv⟩ hundisturbed
    obtain ⟨g, h⟩ := h
    exact h.readsStored ev

/-- Nothing is to be reset. -/
theorem undisturbed_of_none (hsizes : s.reader.sizes = none) (hunlinks : s.reader.unlinks = none)
    (ev : Event) : Undisturbed s ev := by
  have hnone {r : Option Addr} (hr : r = none) (a : Addr) : r ≠ some a := by
    rw [hr]
    exact (Option.some_ne_none a).symm
  cases ev with
  | call i src => trivial
  | finish i => trivial
  | work => trivial
  | produce i =>
    rw [Undisturbed]
    cases (s.threads i).place with
    | write dat => exact fun _ a _ => hnone hsizes a
    | fill dat a => exact fun _ => hnone hsizes a
    | link b => exact fun a _ => hnone hunlinks a
    | idle => trivial
    | alloc purpose dat => trivial
    | own purpose dat b pos => trivial

/-- A record of one byte, and the consumer that reads it. -/
theorem blocks_keep_records_one :
    ∃ s, machine.run new [.call 0 [7], .produce 0, .produce 0, .produce 0, .finish 0, .work, .work] =
        some s ∧ Intact s ∧
      machine.AllSteps ReadsStored new
        [.call 0 [7], .produce 0, .produce 0, .produce 0, .finish 0, .work, .work] := by
  obtain ⟨s, hrun⟩ := Option.isSome_iff_exists.mp (show (machine.run new
    [.call 0 [7], .produce 0, .produce 0, .produce 0, .finish 0, .work, .work]).isSome = true by
      decide +kernel)
  refine ⟨s, hrun, blocks_keep_records ?_ hrun⟩
  have hnone : machine.AllSteps (fun s _ => s.reader.sizes = none ∧ s.reader.unlinks = none) new
      [.call 0 [7], .produce 0, .produce 0, .produce 0, .finish 0, .work, .work] := by
    decide +kernel
  exact machine.allSteps_of_invariant (P := fun _ => True) (fun _ _ _ _ _ _ => trivial)
    (fun s ev _ hs => undisturbed_of_none hs.1 hs.2 ev) _ trivial hnone

/-! ## A recycling that is disturbed -/

/-- The second block of the first bucket. -/
abbrev slot : Addr := .bucket 0 1

/-- The consumer has cleared `_used` of `slot` and has not gone on since; one thread takes the
blocks of the bucket, and has taken those up to `n`. -/
structure Parked (s : Pool) (n : Nat) : Prop where
  pos : s.pos 0 = n
  queue : s.queue = []
  reader : s.reader = .sizing slot none
  first : s.threads 0 = ⟨.idle, none, none⟩
  second : ∃ a t, s.threads 1 = ⟨.idle, some a, some t⟩ ∧ t ≠ slot ∧
    (s.blocks t).size = (s.blocks t).capacity
  recycled : s.blocks slot = ((LogData.new 1024 true).write [7]).1
  fresh : ∀ p, n < p → p ≤ 16384 → s.blocks (.bucket 0 (p % 16384)) = LogData.new 1024 true

/-- What fills a block. -/
def full : List UInt8 := List.replicate 1024 0

theorem length_full : full.length = 1024 := List.length_replicate

/-- A thread fills another block. -/
def fills : List Event := .call 1 full :: List.replicate 5 (.produce 1)

theorem next_pos {n : Nat} (hn : n < 16384) : toUInt32 (n + 1) &&& (capacity 0 - 1) = (n + 1) % 16384 := by
  have hmod : toUInt32 (n + 1) = n + 1 := Nat.mod_eq_of_lt (by omega)
  rw [hmod]
  exact Nat.and_two_pow_sub_one_eq_mod (n + 1) 14

theorem bucketOf_first {n : Nat} (hn : n ≤ 1024) : bucketOf n = some 0 := by
  simp [bucketOf, buckets, List.findIdx?_cons, hn]

/-- A thread begins a record with a block of the first bucket. -/
def begins (i : Nat) (dat : List UInt8) : List Event :=
  [.call i dat, .produce i, .produce i, .produce i]

theorem run_begins (i : Nat) (dat : List UInt8) {q : Nat} (hthread : s.threads i = ⟨.idle, none, none⟩)
    (hpos : toUInt32 (s.pos 0 + 1) &&& (capacity 0 - 1) = q)
    (hused : (s.blocks (.bucket 0 q)).used = false) (hlen : dat.length ≤ 1024)
    (hroom : dat.length ≤ (s.blocks (.bucket 0 q)).capacity - (s.blocks (.bucket 0 q)).size) :
    ∃ s', machine.run s (begins i dat) = some s' ∧ s'.pos 0 = toUInt32 (s.pos 0 + 1) ∧
      s'.queue = s.queue ∧ s'.reader = s.reader ∧ (∀ j, j ≠ i → s'.threads j = s.threads j) ∧
      s'.threads i = ⟨.idle, some (.bucket 0 q), some (.bucket 0 q)⟩ ∧
      (∀ x, x ≠ .bucket 0 q → s'.blocks x = s.blocks x) ∧
      s'.blocks (.bucket 0 q) = ({ s.blocks (.bucket 0 q) with used := true }.write dat).1 ∧
      s'.stored (.bucket 0 q) = dat.take (s.blocks (.bucket 0 q)).capacity := by
  have htake : dat.take logDataMaxSize = dat := List.take_of_length_le (by
    refine Nat.le_trans hlen ?_
    decide)
  simp only [begins, machine, Machine.run, step, Pool.produce, hthread, htake, setThread, LogData.write,
    store, bucketOf_first hlen, hpos, setBlock, hused, give, Function.update_self, if_true,
    if_false, Option.bind_some, Option.map_some, Nat.min_eq_left hroom, Nat.lt_irrefl,
    Bool.false_eq_true]
  refine ⟨_, rfl, ?_, rfl, rfl, ?_, ?_, ?_, ?_, ?_⟩
  · simp only [Function.update_self]
  · intro j hj
    simp only [Function.update_of_ne hj]
  · simp only [Function.update_self]
  · intro x hx
    simp only [Function.update_of_ne hx]
  · simp only [Function.update_self]
  · simp only [Function.update_self, List.nil_append, List.length_nil, Nat.sub_zero]

theorem run_fills {a t : Addr} {q : Nat} (hthread : s.threads 1 = ⟨.idle, some a, some t⟩)
    (hfull : (s.blocks t).size = (s.blocks t).capacity) (ht : t ≠ .bucket 0 q)
    (hpos : toUInt32 (s.pos 0 + 1) &&& (capacity 0 - 1) = q)
    (hfresh : s.blocks (.bucket 0 q) = LogData.new 1024 true) :
    ∃ s', machine.run s fills = some s' ∧ s'.pos 0 = toUInt32 (s.pos 0 + 1) ∧ s'.queue = s.queue ∧
      s'.reader = s.reader ∧ s'.threads 0 = s.threads 0 ∧
      s'.threads 1 = ⟨.idle, some a, some (.bucket 0 q)⟩ ∧
      (∀ x, x ≠ t → x ≠ .bucket 0 q → s'.blocks x = s.blocks x) ∧
      (s'.blocks (.bucket 0 q)).size = (s'.blocks (.bucket 0 q)).capacity := by
  have htake : full.take logDataMaxSize = full := List.take_of_length_le (by
    rw [length_full]
    decide)
  have hused : (s.blocks (.bucket 0 q)).used = false := by rw [hfresh]; rfl
  have hsize : (s.blocks (.bucket 0 q)).size = 0 := by rw [hfresh]; rfl
  have hcap : (s.blocks (.bucket 0 q)).capacity = 1024 := by rw [hfresh]; rfl
  have hb : bucketOf 1024 = some 0 := by decide
  have hr : List.replicate 5 (Event.produce 1) =
      [.produce 1, .produce 1, .produce 1, .produce 1, .produce 1] := rfl
  simp only [fills, hr, machine, Machine.run, step, Pool.produce, hthread, htake, setThread,
    LogData.write, hfull, store, length_full, hb, hpos, setBlock, hused, hsize, hcap, give,
    Function.update_self, reduceCtorEq, if_true, if_false, Option.bind_some, Option.map_some,
    Nat.sub_self, Nat.min_zero, List.drop_zero, Nat.reduceLT, Function.update_of_ne ht.symm,
    Bool.false_eq_true]
  refine ⟨_, rfl, ?_, rfl, rfl, ?_, ?_, fun x hxt hxq => ?_, ?_⟩
  · simp only [Function.update_self]
  · simp only [Function.update_of_ne (show (0 : Nat) ≠ 1 by decide)]
  · simp only [Function.update_self]
  · simp only [Function.update_of_ne hxt, Function.update_of_ne hxq]
  · simp only [Function.update_of_ne ht.symm, Function.update_self, Nat.zero_add]
    exact Nat.min_self _

theorem lap {n : Nat} (h : Parked s n) (hn : 1 < n) (hlt : n < 16384) :
    ∃ s', machine.run s fills = some s' ∧ Parked s' (n + 1) := by
  obtain ⟨a, t, hthread, ht, hfull⟩ := h.second
  have hfresh := h.fresh (n + 1) (Nat.lt_succ_self n) hlt
  have hslot : slot ≠ .bucket 0 ((n + 1) % 16384) := by
    intro heq
    obtain ⟨-, heq⟩ := Addr.bucket.inj heq
    omega
  by_cases htq : t = .bucket 0 ((n + 1) % 16384)
  · rw [htq, hfresh] at hfull
    cases hfull
  obtain ⟨s', hrun, hpos, hqueue, hreader, hfirst, hsecond, hblocks, hend⟩ :=
    run_fills hthread hfull htq (by rw [h.pos, next_pos hlt]) hfresh
  have hmod : toUInt32 (n + 1) = n + 1 := Nat.mod_eq_of_lt (by omega)
  refine ⟨s', hrun, by rw [hpos, h.pos, hmod], hqueue.trans h.queue, hreader.trans h.reader,
    hfirst.trans h.first, ⟨a, _, hsecond, hslot.symm, hend⟩, ?_, fun p hp hle => ?_⟩
  · rw [hblocks slot ht.symm hslot, h.recycled]
  · have hne : Addr.bucket 0 (p % 16384) ≠ .bucket 0 ((n + 1) % 16384) := by
      intro heq
      obtain ⟨-, heq⟩ := Addr.bucket.inj heq
      omega
    have hold := h.fresh p (Nat.lt_of_succ_lt hp) hle
    rw [hblocks _ ?_ hne, hold]
    rintro rfl
    rw [hold] at hfull
    cases hfull

theorem laps {n : Nat} : ∀ k : Nat, Parked s n → 1 < n → n + k ≤ 16384 →
    ∃ evs s', machine.run s evs = some s' ∧ Parked s' (n + k)
  | 0, h, _, _ => ⟨[], s, rfl, h⟩
  | k + 1, h, hn, hle => by
      obtain ⟨evs, s₁, hrun, h₁⟩ := laps k h hn (Nat.le_of_succ_le hle)
      obtain ⟨s₂, hfills, h₂⟩ := lap h₁ (by omega) (by omega)
      refine ⟨evs ++ fills, s₂, ?_, h₂⟩
      exact machine.run_append hrun hfills

/-- The consumer takes the first record, and clears `_used` of its block. -/
def clears : List Event := [.work, .work, .work]

theorem run_clears {a : Addr} {queue : List Addr} (hreader : s.reader = .idle)
    (hqueue : s.queue = a :: queue) (hrecycle : (s.blocks a).recycle = true) :
    ∃ s', machine.run s clears = some s' ∧ s'.pos = s.pos ∧ s'.queue = queue ∧
      s'.reader = .sizing a (s.blocks a).next ∧ s'.threads = s.threads ∧
      (∀ x, x ≠ a → s'.blocks x = s.blocks x) ∧
      s'.blocks a = { s.blocks a with used := false } := by
  simp only [clears, machine, Machine.run, step, Pool.work, hreader, hqueue, hrecycle, setBlock,
    Option.bind_some, if_true]
  exact ⟨_, rfl, rfl, rfl, rfl, rfl, fun x hx => Function.update_of_ne hx _ _,
    Function.update_self _ _ _⟩

theorem run_finish {i : Nat} {a : Addr} {t : Option Addr}
    (hthread : s.threads i = ⟨.idle, some a, t⟩) (hroom : s.records + 1 < logListMaxSize) :
    ∃ s', machine.run s [.finish i] = some s' ∧ s'.pos = s.pos ∧ s'.queue = s.queue ++ [a] ∧
      s'.reader = s.reader ∧ s'.blocks = s.blocks ∧ s'.stored = s.stored ∧
      s'.threads = Function.update s.threads i ⟨.idle, none, none⟩ := by
  simp only [machine, Machine.run, step, hthread, hroom, and_self, if_true, Option.bind_some]
  exact ⟨_, rfl, rfl, rfl, rfl, rfl, rfl, rfl⟩

/-- A record of one byte, a block of another thread, and the consumer at the record. -/
def starts : List Event := begins 0 [7] ++ ([.finish 0] ++ (begins 1 full ++ clears))

theorem run_starts : ∃ s, machine.run new starts = some s ∧ Parked s 2 := by
  obtain ⟨s₁, hrun₁, hpos₁, hqueue₁, hreader₁, hother₁, hthread₁, hsame₁, hblock₁, -⟩ :=
    run_begins (s := new) 0 [7] (q := 1) rfl (by decide) rfl (by decide) (by decide)
  have hidle₁ : s₁.reader = .idle := hreader₁
  obtain ⟨s₂, hrun₂, hpos₂, hqueue₂, hreader₂, hblocks₂, -, hthreads₂⟩ :=
    run_finish hthread₁ (by rw [records, hqueue₁, hidle₁]; decide)
  have hfresh (p : Nat) (hp : p ≠ 1) : s₂.blocks (.bucket 0 p) = LogData.new 1024 true := by
    rw [hblocks₂, hsame₁ _ fun heq => hp (Addr.bucket.inj heq).2]
    rfl
  obtain ⟨s₃, hrun₃, hpos₃, hqueue₃, hreader₃, hother₃, hthread₃, hsame₃, hblock₃, -⟩ :=
    run_begins (s := s₂) 1 full (q := 2)
      (by
        rw [hthreads₂, Function.update_of_ne (by decide), hother₁ 1 (by decide)]
        rfl)
      (by
        rw [hpos₂, hpos₁]
        decide)
      (by
        rw [hfresh 2 (by decide)]
        rfl)
      (Nat.le_of_eq length_full)
      (by
        rw [hfresh 2 (by decide), length_full]
        decide)
  have hslot : s₃.blocks slot = s₁.blocks slot := by rw [hsame₃ _ (by decide), hblocks₂]
  obtain ⟨s₄, hrun₄, hpos₄, hqueue₄, hreader₄, hthreads₄, hsame₄, hblock₄⟩ :=
    run_clears (s := s₃) (a := slot) (hreader₃.trans (hreader₂.trans hidle₁))
      (by rw [hqueue₃, hqueue₂, hqueue₁]; rfl) (by rw [hslot, hblock₁]; rfl)
  refine ⟨s₄, machine.run_append hrun₁ (machine.run_append hrun₂ (machine.run_append hrun₃ hrun₄)),
    ?_, ?_, ?_, ?_, ⟨_, _, hthreads₄ ▸ hthread₃, by decide, ?_⟩, ?_, fun p hp hle => ?_⟩
  · rw [hpos₄, hpos₃, hpos₂, hpos₁]
    decide
  · exact hqueue₄
  · rw [hreader₄, hslot, hblock₁]
    rfl
  · rw [hthreads₄, hother₃ 0 (by decide), hthreads₂, Function.update_self]
  · rw [hsame₄ _ (by decide), hblock₃, hfresh 2 (by decide)]
    simp only [LogData.write, LogData.new, length_full, Nat.sub_zero, Nat.min_self, Nat.zero_add]
  · rw [hblock₄, hslot, hblock₁]
    rfl
  · have hne : p % 16384 ≠ 1 ∧ p % 16384 ≠ 2 := by omega
    rw [hsame₄ _ fun heq => hne.1 (Addr.bucket.inj heq).2,
      hsame₃ _ fun heq => hne.2 (Addr.bucket.inj heq).2, hfresh _ hne.1]

/-- The block is owned and written to, and the consumer goes on with it. -/
def ends : List Event := begins 0 [8] ++ ([.work, .work] ++ ([.finish 0] ++ [.work]))

theorem run_ends (h : Parked s 16384) :
    ∃ s', machine.run s ends = some s' ∧ s'.reader = .reading slot ∧ ¬ ReadsStored s' .work := by
  obtain ⟨s₁, hrun₁, hpos₁, hqueue₁, hreader₁, hother₁, hthread₁, hsame₁, hblock₁, hstored₁⟩ :=
    run_begins 0 [8] (q := 1) h.first (by rw [h.pos]; decide) (by rw [h.recycled]; rfl) (by decide)
      (by rw [h.recycled]; decide)
  rw [h.reader] at hreader₁
  rw [h.queue] at hqueue₁
  obtain ⟨s₂, hrun₂, hqueue₂, hreader₂, hthreads₂, hblock₂, hstored₂⟩ :
      ∃ s₂, machine.run s₁ [.work, .work] = some s₂ ∧ s₂.queue = [] ∧ s₂.reader = .idle ∧
        s₂.threads = s₁.threads ∧ (s₂.blocks slot).size = 0 ∧ s₂.stored = s₁.stored := by
    simp only [machine, Machine.run, step, Pool.work, hreader₁, setBlock, Option.bind_some, follow]
    refine ⟨_, rfl, hqueue₁, rfl, rfl, ?_, rfl⟩
    simp only [Function.update_self]
  obtain ⟨s₃, hrun₃, -, hqueue₃, hreader₃, hblocks₃, hstored₃, -⟩ :=
    run_finish (hthreads₂ ▸ hthread₁) (by rw [records, hqueue₂, hreader₂]; decide)
  rw [hreader₂] at hreader₃
  rw [hqueue₂] at hqueue₃
  refine ⟨{ s₃ with queue := [], reader := .reading slot }, machine.run_append hrun₁
    (machine.run_append hrun₂ (machine.run_append hrun₃ ?_)), rfl, fun hreads => ?_⟩
  · simp only [machine, Machine.run, step, Pool.work, hreader₃, hqueue₃, List.nil_append,
      Option.bind_some]
  · have hcontents : (s₃.blocks slot).contents = s₃.stored slot := hreads.1
    rw [hblocks₃, LogData.contents_empty hblock₂, hstored₃, hstored₂, hstored₁, h.recycled] at hcontents
    cases hcontents

/-- **A record is lost.** A thread owns a block of which the consumer has cleared `_used`, and
stores a byte in it; the consumer resets the size after that, and reads nothing when it comes to
the record. -/
theorem recycle_truncates : ¬ ∀ (evs : List Event) (s : Pool), machine.run new evs = some s →
    Intact s ∧ machine.AllSteps ReadsStored new evs := by
  intro hintact
  obtain ⟨s₁, hstarts, h₁⟩ := run_starts
  obtain ⟨evs, s₂, hlaps, h₂⟩ := laps 16382 h₁ (by decide) (by decide)
  obtain ⟨s₃, hends, hreader, hreads⟩ := run_ends h₂
  have hrun := machine.run_append hstarts (machine.run_append hlaps hends)
  have hwork : machine.step s₃ .work =
      some { s₃ with reader := .clearing slot (s₃.blocks slot).next } := by
    simp only [machine, step, Pool.work, hreader]
  have hsteps := (hintact _ _ (machine.run_concat hrun hwork)).2
  exact hreads (((machine.allSteps_append _ _ _ _).mp hsteps).2 s₃ hrun).1

end Pool

end LinSocketIo.Log
