/-
LinSocketIo.Utils.UrlParserTheorems — what `Parse` writes into a `UrlParser`.

Which components `Parse` writes depends on the URL alone (`components`), and so
does what it writes. The others keep what they had.

* `parse_assigns` — the assignments of `Parse` are those of the URL.
* `parse_independent_iff` — when the object's past does not show.
-/
import LinSocketIo.Utils.UrlParser

namespace LinSocketIo.Utils.Url.UrlParser

open LinSocketIo.Base StrHelper

/-! ## The components -/

/-- What has a getter. -/
inductive Component where
  | protocol
  | username
  | password
  | host
  | port
  | path
  | param (key : Str)
deriving DecidableEq

/-- The getters. -/
def get (p : UrlParser) : Component → Str
  | .protocol => p.protocol
  | .username => p.username
  | .password => p.password
  | .host => p.host
  | .port => p.port
  | .path => p.path
  | .param key => p.getParam key

/-- The assignments of `Parse`. -/
def set (p : UrlParser) (c : Component) (v : Str) : UrlParser :=
  match c with
  | .protocol => { p with protocol := v }
  | .username => { p with username := v }
  | .password => { p with password := v }
  | .host => { p with host := v }
  | .port => { p with port := v }
  | .path => { p with path := v }
  | .param key => p.setParam key v

theorem get_set (p : UrlParser) (c c' : Component) (v : Str) :
    (p.set c v).get c' = if c' = c then v else p.get c' := by
  cases c with
  | param key =>
      cases c' with
      | param key' =>
          simp only [set, get, getParam, setParam, OrderedMap.find_insert, Component.param.injEq]
          split <;> rfl
      | _ => rfl
  | _ => cases c' <;> rfl

theorem get_fresh (c : Component) : fresh.get c = [] := by
  cases c <;> rfl

/-- Assignments one after the other. -/
def setAll (p : UrlParser) (as : List (Component × Str)) : UrlParser :=
  as.foldl (fun p a => p.set a.1 a.2) p

theorem setAll_cons (p : UrlParser) (a : Component × Str) (as : List (Component × Str)) :
    p.setAll (a :: as) = (p.set a.1 a.2).setAll as := rfl

theorem get_setAll_of_notMem {c : Component} {as : List (Component × Str)} (p : UrlParser)
    (h : c ∉ keys as) : (p.setAll as).get c = p.get c := by
  induction as generalizing p with
  | nil => rfl
  | cons a as ih =>
      obtain ⟨hne, has⟩ := not_or.mp fun h' => h (List.mem_cons.mpr h')
      rw [setAll_cons, ih _ has, get_set, if_neg hne]

/-- What is assigned does not depend on the object. -/
theorem get_setAll_of_mem {c : Component} {as : List (Component × Str)} (p p' : UrlParser)
    (h : c ∈ keys as) : (p.setAll as).get c = (p'.setAll as).get c := by
  induction as generalizing p p' with
  | nil => exact absurd h List.not_mem_nil
  | cons a as ih =>
      rw [setAll_cons, setAll_cons]
      by_cases has : c ∈ keys as
      · exact ih _ _ has
      · have heq : c = a.1 := (List.mem_cons.mp h).resolve_right has
        rw [get_setAll_of_notMem _ has, get_setAll_of_notMem _ has, get_set, get_set, if_pos heq,
          if_pos heq]

/-! ## The components of a URL -/

/-- That of a parameter with a `=`. -/
def paramComponents (param : Str) : List Component :=
  match findAt param [byte '='] 0 with
  | none => []
  | some pos => [.param (param.take pos)]

/-- Those of the parts between the `&`. -/
def queryComponents : Str → Str → List Component
  | text, [] => paramComponents (taken text)
  | text, c :: cur =>
    if c ≠ byte '&' then queryComponents (text ++ [c]) cur
    else paramComponents (taken text) ++ queryComponents [] cur

/-- Those from the path on, which a URL that has ended lacks. -/
def pathComponents (cur : Str) : List Component :=
  if cur = [] then []
  else
    .path :: match cur.dropWhile (· ≠ byte '?') with
      | [] => []
      | _ :: cur => queryComponents [] cur

/-- Those from the port on, which a `:` announces. -/
def portComponents (cur : Str) : List Component :=
  if cur.head? = some (byte ':') then
    .port :: pathComponents (cur.tail.dropWhile (· ≠ byte '/'))
  else pathComponents cur

/-- Those from the host on. -/
def hostComponents (cur : Str) : List Component :=
  .host :: portComponents (cur.drop (hostText (cur.head? = some (byte '[')) cur).length)

/-- Those from the user name on, which an `@` before the first `/` announces. -/
def userComponents (cur : Str) : List Component :=
  if userpass cur then
    .username ::
      let cur := cur.dropWhile inUsername
      if cur.head? = some (byte ':') then
        .password :: hostComponents (cur.tail.dropWhile (· ≠ byte '@')).tail
      else hostComponents cur.tail
  else hostComponents cur

/-- The components that a URL has. -/
def components (url : Str) : List Component :=
  .protocol :: userComponents (((cstr url).dropWhile (· ≠ byte ':')).drop 3)

/-! ## What `Parse` writes -/

/-- Where a stage comes to a `true` end, it does so on every object, and makes the same
assignments, to these components. -/
def Assigns (stage : UrlParser → Outcome) (cs : List Component) : Prop :=
  ∀ p q, stage p = .returns true q →
    ∃ as, keys as = cs ∧ ∀ p', stage p' = .returns true (p'.setAll as)

theorem assign_eq_returns {text : Str} {k : Str → Outcome} {b : Bool} {q : UrlParser} :
    assign text k = .returns b q ↔ 0 ≤ toInt text.length ∧ k (taken text) = .returns b q := by
  unfold assign
  by_cases hlen : toInt text.length < 0
  · rw [if_pos hlen]
    exact iff_of_false (fun h => nomatch h) fun h => absurd h.1 (not_le.mpr hlen)
  · rw [if_neg hlen]
    exact (and_iff_right (not_lt.mp hlen)).symm

namespace Assigns

theorem done : Assigns (fun p => .returns true p) [] := fun _ _ _ => ⟨[], rfl, fun _ => rfl⟩

theorem failed (cs : List Component) : Assigns (fun p => .returns false p) cs :=
  fun _ _ h => nomatch h

theorem assign {k : UrlParser → Outcome} {cs : List Component} (h : Assigns k cs) (text : Str)
    (c : Component) :
    Assigns (fun p => UrlParser.assign text fun v => k (p.set c v)) (c :: cs) := by
  intro p q hq
  obtain ⟨hlen, hk⟩ := assign_eq_returns.mp hq
  obtain ⟨as, rfl, has⟩ := h _ _ hk
  exact ⟨(c, taken text) :: as, rfl, fun p' => assign_eq_returns.mpr ⟨hlen, has _⟩⟩

theorem ite {s s' : UrlParser → Outcome} {cs cs' : List Component} {P : Prop} [Decidable P]
    (h : P → Assigns s cs) (h' : ¬ P → Assigns s' cs') :
    Assigns (fun p => if P then s p else s' p) (if P then cs else cs') := by
  by_cases hP : P
  · simp only [if_pos hP]
    exact h hP
  · simp only [if_neg hP]
    exact h' hP

end Assigns

theorem addParam_eq_setAll (param : Str) : ∃ as, keys as = paramComponents param ∧
    ∀ p : UrlParser, p.addParam param = p.setAll as := by
  unfold addParam paramComponents
  cases findAt param [byte '='] 0 with
  | none => exact ⟨[], rfl, fun _ => rfl⟩
  | some pos => exact ⟨[(.param (param.take pos), param.drop (pos + 1))], rfl, fun _ => rfl⟩

theorem Assigns.assign_param {k : UrlParser → Outcome} {cs : List Component} (h : Assigns k cs)
    (text : Str) : Assigns (fun p => UrlParser.assign text fun param => k (p.addParam param))
      (paramComponents (taken text) ++ cs) := by
  intro p q hq
  obtain ⟨hlen, hk⟩ := assign_eq_returns.mp hq
  obtain ⟨as, rfl, has⟩ := h _ _ hk
  obtain ⟨as', has', hadd⟩ := addParam_eq_setAll (taken text)
  refine ⟨as' ++ as, by rw [keys, List.map_append, ← has']; rfl, fun p' => ?_⟩
  refine assign_eq_returns.mpr ⟨hlen, ?_⟩
  rw [has, hadd, setAll, setAll, setAll, List.foldl_append]

theorem queryLoop_assigns (text cur : Str) :
    Assigns (fun p => queryLoop p text cur) (queryComponents text cur) := by
  induction cur generalizing text with
  | nil =>
      have h := Assigns.done.assign_param text
      rw [List.append_nil] at h
      exact h
  | cons c cur ih => exact Assigns.ite (fun _ => ih (text ++ [c])) fun _ => (ih []).assign_param text

theorem parsePath_assigns (cur : Str) :
    Assigns (fun p => parsePath p cur) (pathComponents cur) := by
  refine Assigns.ite (fun _ => Assigns.done) (fun _ => ?_)
  refine Assigns.assign (k := fun p => parseQuery p _) ?_ _ .path
  cases hquery : cur.dropWhile (· ≠ byte '?') with
  | nil => exact Assigns.done
  | cons c cur' =>
      have hc : c = byte '?' := by
        have h := List.head?_dropWhile_not (· ≠ byte '?') cur
        rw [hquery] at h
        simpa using h
      subst hc
      exact queryLoop_assigns [] cur'

theorem parsePort_assigns (cur : Str) :
    Assigns (fun p => parsePort p cur) (portComponents cur) :=
  Assigns.ite (fun _ => Assigns.assign (k := fun p => parsePath p _) (parsePath_assigns _) _ .port)
    (fun _ => parsePath_assigns cur)

theorem parseHost_assigns (cur : Str) :
    Assigns (fun p => parseHost p cur) (hostComponents cur) :=
  Assigns.assign (k := fun p => parsePort p _) (parsePort_assigns _) _ .host

theorem skipAt_assigns (cur : Str) :
    Assigns (fun p => skipAt p cur) (hostComponents cur.tail) := by
  unfold skipAt
  by_cases h : cur.head? ≠ some (byte '@')
  · simp only [if_pos h]
    exact Assigns.failed _
  · simp only [if_neg h]
    exact parseHost_assigns cur.tail

theorem parseUser_assigns (cur : Str) :
    Assigns (fun p => parseUser p cur) (userComponents cur) := by
  refine Assigns.ite (fun _ => ?_) (fun _ => parseHost_assigns cur)
  refine Assigns.assign (k := fun p =>
    if (cur.dropWhile inUsername).head? = some (byte ':') then
      UrlParser.assign ((cur.dropWhile inUsername).tail.takeWhile (· ≠ byte '@')) fun password =>
        skipAt { p with password } ((cur.dropWhile inUsername).tail.dropWhile (· ≠ byte '@'))
    else skipAt p (cur.dropWhile inUsername)) ?_ _ .username
  exact Assigns.ite
    (fun _ => Assigns.assign (k := fun p => skipAt p _) (skipAt_assigns _) _ .password)
    (fun _ => skipAt_assigns _)

theorem eatSlashes_assigns (n : Nat) (cur : Str) :
    Assigns (fun p => eatSlashes p n cur) (userComponents (cur.drop n)) := by
  induction n generalizing cur with
  | zero => exact parseUser_assigns cur
  | succ n ih =>
      have htail : cur.drop (n + 1) = cur.tail.drop n := by rw [List.drop_tail]
      unfold eatSlashes
      by_cases h : cur.head? ≠ some (byte '/')
      · simp only [if_pos h]
        exact Assigns.failed _
      · simp only [if_neg h, htail]
        exact ih cur.tail

/-- `Parse` writes the components that the URL has. -/
theorem parse_assigns (url : Str) : Assigns (fun p => parse p url) (components url) := by
  unfold parse
  by_cases hcolon : byte ':' ∉ cstr url
  · simp only [if_pos hcolon]
    exact Assigns.failed _
  · simp only [if_neg hcolon]
    by_cases hscheme : (taken ((cstr url).takeWhile (· ≠ byte ':'))).all isSchemeChar
    · simp only [if_pos hscheme]
      have h := Assigns.assign (eatSlashes_assigns 2 ((cstr url).dropWhile (· ≠ byte ':')).tail)
        ((cstr url).takeWhile (· ≠ byte ':')) .protocol
      rw [List.drop_tail] at h
      exact h
    · simp only [if_neg hscheme]
      exact Assigns.failed _

/-! ## The object's past -/

/-- All getters return the same. -/
def SameGetters (p q : UrlParser) : Prop := ∀ c, p.get c = q.get c

/-- What the object has, the URL has as well. -/
def Covers (cs : List Component) (p : UrlParser) : Prop := ∀ c, c ∉ cs → p.get c = []

theorem parse_fresh {url : Str} {p q : UrlParser} (h : parse p url = .returns true q) :
    ∃ f, parse fresh url = .returns true f ∧
      (SameGetters q f ↔ Covers (components url) p) := by
  obtain ⟨as, hkeys, has⟩ := parse_assigns url p q h
  obtain rfl : p.setAll as = q := by
    have heq := (has p).symm.trans h
    injection heq
  refine ⟨fresh.setAll as, has fresh, ?_⟩
  rw [← hkeys]
  constructor
  · intro hsame c hc
    have heq := hsame c
    rw [get_setAll_of_notMem p hc, get_setAll_of_notMem fresh hc, get_fresh] at heq
    exact heq
  · intro hcovers c
    by_cases hc : c ∈ keys as
    · exact get_setAll_of_mem p fresh hc
    · rw [get_setAll_of_notMem p hc, get_setAll_of_notMem fresh hc, get_fresh]
      exact hcovers c hc

/-- Where `Parse` returns `true`, a fresh object gets the same from the URL just where every
component that the URL lacks was empty before. -/
theorem parse_independent_iff (beyond : Nat → UInt8) (url : Str) (p q : UrlParser) :
    (parse p url = .returns true q →
      ∃ f, parse fresh url = .returns true f ∧
        (SameGetters q f ↔ Covers (components url) p)) ∧
    (parseString beyond p url = some (.returns true q) →
      ∃ data used, decodeURL beyond url = some (data, used) ∧
        ∃ f, parseString beyond fresh url = some (.returns true f) ∧
          (SameGetters q f ↔ Covers (components data) p)) := by
  refine ⟨parse_fresh, fun h => ?_⟩
  obtain ⟨⟨data, used⟩, hdata, hparse⟩ := Option.map_eq_some_iff.mp h
  obtain ⟨f, hf, hiff⟩ := parse_fresh hparse
  refine ⟨data, used, hdata, f, ?_, hiff⟩
  rw [parseString, hdata, Option.map_some, hf]

/-- The object that `http://h:80/` leaves. -/
def afterPort : UrlParser := { fresh with
  protocol := bytes "http", host := bytes "h", port := bytes "80", path := bytes "/" }

/-- An object that has parsed `http://h:80/` gets `http://h/`, and keeps the port. -/
theorem port_is_left : parse fresh (bytes "http://h:80/") = .returns true afterPort ∧
    parse afterPort (bytes "http://h/") = .returns true afterPort ∧
    parse fresh (bytes "http://h/") = .returns true { afterPort with port := [] } ∧
    ¬ SameGetters afterPort { afterPort with port := [] } :=
  ⟨by decide +kernel, by decide +kernel, by decide +kernel, fun h => absurd (h .port) (by decide)⟩

/-- Behind `http://h:80/`, the URL `ws://g:81/x` leaves nothing of it. -/
theorem parse_independent_iff_port : ∃ q f,
    parse afterPort (bytes "ws://g:81/x") = .returns true q ∧
    parse fresh (bytes "ws://g:81/x") = .returns true f ∧ SameGetters q f := by
  have h : parse afterPort (bytes "ws://g:81/x") = .returns true { fresh with
      protocol := bytes "ws", host := bytes "g", port := bytes "81", path := bytes "/x" } := by
    decide +kernel
  obtain ⟨f, hf, hiff⟩ := (parse_independent_iff (fun _ => 0) _ _ _).1 h
  refine ⟨_, f, h, hf, hiff.mpr fun c hc => ?_⟩
  have hcomponents : components (bytes "ws://g:81/x") = [.protocol, .host, .port, .path] := by
    decide +kernel
  rw [hcomponents] at hc
  cases c with
  | username => rfl
  | password => rfl
  | param key => rfl
  | _ => simp at hc

end LinSocketIo.Utils.Url.UrlParser
