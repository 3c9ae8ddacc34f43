/-
LinSocketIo.Utils.UrlRoundTrip — what `Parse` makes of the URL of `Build`.

`Build` puts a `/` between the host and the path, and `Parse` takes it into the
path: the lines that were to skip it are a comment. So the path comes back with a
`/` in front, and everything else as it was.

* `parse_plain` — `Parse` on the URL of `Build`, before the lengths.
* `parseString_build` — what comes back.
* `not_roundTrips` — it is never the object.
-/
import LinSocketIo.Utils.UrlParserTheorems
import Mathlib.Data.List.TakeWhile

namespace LinSocketIo.Utils.Url.UrlParser

open LinSocketIo.Base StrHelper

/-- No NUL and no mark. -/
def Avoids (marks s : Str) : Prop := ∀ c ∈ s, c ≠ 0 ∧ c ∉ marks

/-- An object whose components contain no separator of theirs. -/
structure Buildable (p : UrlParser) : Prop where
  protocol_ne : p.protocol ≠ []
  protocol_scheme : ∀ c ∈ p.protocol, isSchemeChar c = true
  host_ne : p.host ≠ []
  host_avoids : Avoids (bytes ":/@[?") p.host
  port_digits : ∀ c ∈ p.port, byte '0' ≤ c ∧ c ≤ byte '9'
  path_avoids : Avoids (bytes "?@") p.path
  params_avoid : ∀ e ∈ p.params.entries, Avoids (bytes "&=") e.1 ∧ Avoids (bytes "&=") e.2

/-- A new object that parses the URL of `Build` has the same components. -/
def RoundTrips (beyond : Nat → UInt8) (p : UrlParser) : Prop :=
  ∃ url q, p.build = some url ∧ parseString beyond fresh url = some (.returns true q) ∧
    q.protocol = p.protocol ∧ q.host = p.host ∧ q.port = p.port ∧ q.path = p.path ∧
    q.params = p.params

/-! ## The URL -/

/-- A port and the `:` in front. -/
def portText (port : Str) : Str := if port = [] then [] else byte ':' :: port

/-- A parameter. -/
def paramText (e : Str × Str) : Str := e.1 ++ byte '=' :: e.2

/-- The parameters, with a `&` in between. -/
def queryText : List (Str × Str) → Str
  | [] => []
  | [e] => paramText e
  | e :: e' :: es => paramText e ++ byte '&' :: queryText (e' :: es)

theorem paramsLoop_eq : ∀ (es : List (Str × Str)) (url flag : Str), es ≠ [] →
    paramsLoop url flag es = url ++ flag ++ queryText es
  | [e], url, flag, _ => by
      simp [paramsLoop, queryText, paramText, bytes]
  | e :: e' :: es, url, flag, _ => by
      rw [paramsLoop, paramsLoop_eq (e' :: es) _ _ (List.cons_ne_nil _ _)]
      simp [queryText, paramText, bytes]

theorem plain_eq (p : UrlParser) : p.plain =
    p.protocol ++ byte ':' :: byte '/' :: byte '/' :: (p.host ++ (portText p.port ++
      byte '/' :: (p.path ++ byte '?' :: queryText p.params.entries))) := by
  have hquery (url : Str) : paramsLoop url [] p.params.entries =
      url ++ queryText p.params.entries := by
    cases hes : p.params.entries with
    | nil => simp [paramsLoop, queryText]
    | cons e es => rw [paramsLoop_eq _ _ _ (List.cons_ne_nil _ _), List.append_nil]
  unfold plain
  rw [hquery]
  by_cases hport : p.port = []
  · simp [hport, portText, bytes]
  · simp [hport, portText, bytes]

theorem Avoids.ne {marks s : Str} (h : Avoids marks s) {d : UInt8} (hd : d ∈ marks) :
    ∀ c ∈ s, c ≠ d := fun c hc heq => (h c hc).2 (heq ▸ hd)

theorem scheme_ne {c : UInt8} (h : isSchemeChar c = true) : c ≠ byte ':' ∧ c ≠ 0 := by
  constructor
  · rintro rfl
    revert h
    decide
  · rintro rfl
    revert h
    decide

theorem digit_ne {c d : UInt8} (h : byte '0' ≤ c ∧ c ≤ byte '9')
    (hd : ¬ (byte '0' ≤ d ∧ d ≤ byte '9')) : c ≠ d :=
  fun heq => hd (heq ▸ h)

theorem queryText_ne_zero : ∀ {es : List (Str × Str)},
    (∀ e ∈ es, Avoids (bytes "&=") e.1 ∧ Avoids (bytes "&=") e.2) → ∀ c ∈ queryText es, c ≠ 0 := by
  have htext {e : Str × Str} (h : Avoids (bytes "&=") e.1 ∧ Avoids (bytes "&=") e.2) :
      ∀ c ∈ paramText e, c ≠ 0 := by
    intro c hc
    rcases List.mem_append.mp hc with hc | hc
    · exact (h.1 c hc).1
    · rcases List.mem_cons.mp hc with rfl | hc
      · decide
      · exact (h.2 c hc).1
  intro es h
  induction es using queryText.induct with
  | case1 => exact fun _ hc => absurd hc List.not_mem_nil
  | case2 e => exact htext (h e List.mem_cons_self)
  | case3 e e' es ih =>
      intro c hc
      rcases List.mem_append.mp hc with hc | hc
      · exact htext (h e List.mem_cons_self) c hc
      · rcases List.mem_cons.mp hc with rfl | hc
        · decide
        · exact ih (fun d hd => h d (List.mem_cons_of_mem e hd)) c hc

theorem Buildable.cstr_plain {p : UrlParser} (h : Buildable p) : cstr p.plain = p.plain := by
  refine List.takeWhile_eq_self_iff.mpr fun c hc => decide_eq_true ?_
  rw [plain_eq] at hc
  simp only [List.mem_append, List.mem_cons] at hc
  rcases hc with hc | rfl | rfl | rfl | hc | hc | rfl | hc | rfl | hc
  · exact (scheme_ne (h.protocol_scheme c hc)).2
  · decide
  · decide
  · decide
  · exact (h.host_avoids c hc).1
  · unfold portText at hc
    split at hc
    · exact absurd hc List.not_mem_nil
    · rcases List.mem_cons.mp hc with rfl | hc
      · decide
      · exact digit_ne (h.port_digits c hc) (by decide)
  · decide
  · exact (h.path_avoids c hc).1
  · decide
  · exact queryText_ne_zero h.params_avoid c hc

/-! ## `Parse` on the URL -/

theorem userpass_eq_false {front : Str} (h : ∀ c ∈ front, c ≠ byte '@') (rest : Str) :
    userpass (front ++ byte '/' :: rest) = false := by
  induction front with
  | nil => rw [List.nil_append, userpass, if_neg (by decide), if_pos rfl]
  | cons c front ih =>
      rw [List.cons_append, userpass, if_neg (h c List.mem_cons_self)]
      split
      · rfl
      · exact ih fun d hd => h d (List.mem_cons_of_mem c hd)

theorem hostText_eq {d : UInt8} (hd : d = byte ':' ∨ d = byte '/') {front : Str}
    (h : ∀ c ∈ front, c ≠ byte ':' ∧ c ≠ byte '/') (rest : Str) :
    hostText false (front ++ d :: rest) = front := by
  induction front with
  | nil => simp [hostText, hd]
  | cons c front ih =>
      obtain ⟨hcolon, hslash⟩ := h c List.mem_cons_self
      rw [List.cons_append, hostText]
      simp only [Bool.false_and, Bool.not_false, Bool.true_and, hcolon, hslash, decide_false,
        Bool.or_self, Bool.false_eq_true, if_false]
      rw [ih fun e he => h e (List.mem_cons_of_mem c he)]

/-- The port, where there is one. -/
def assignPort (port : Str) (p : UrlParser) (k : UrlParser → Outcome) : Outcome :=
  if port = [] then k p else assign port fun port => k { p with port }

theorem parsePort_eq {port : Str} (h : ∀ c ∈ port, c ≠ byte '/') (p : UrlParser) (rest : Str) :
    parsePort p (portText port ++ byte '/' :: rest) =
      assignPort port p fun p => parsePath p (byte '/' :: rest) := by
  unfold parsePort assignPort portText
  by_cases hport : port = []
  · rw [if_pos hport, if_pos hport, List.nil_append, if_neg (by simp; decide)]
  · rw [if_neg hport, if_neg hport, List.cons_append, List.head?_cons, if_pos rfl, List.tail_cons,
      takeWhile_ne_append h, dropWhile_ne_append h]

theorem parsePath_eq {path : Str} (h : ∀ c ∈ path, c ≠ byte '?') (p : UrlParser) (query : Str) :
    parsePath p (byte '/' :: (path ++ byte '?' :: query)) =
      assign (byte '/' :: path) fun path => queryLoop { p with path } [] query := by
  have h' : ∀ c ∈ byte '/' :: path, c ≠ byte '?' := fun c hc => by
    rcases List.mem_cons.mp hc with rfl | hc
    · decide
    · exact h c hc
  rw [parsePath, if_neg (List.cons_ne_nil _ _), ← List.cons_append, takeWhile_ne_append h',
    dropWhile_ne_append h']
  rfl

theorem parseHost_eq {host : Str} (hne : host ≠ []) (h : Avoids (bytes ":/@[?") host)
    {d : UInt8} (hd : d = byte ':' ∨ d = byte '/') (p : UrlParser) (rest : Str) :
    parseHost p (host ++ d :: rest) =
      assign host fun host => parsePort { p with host } (d :: rest) := by
  have hbracket : (host ++ d :: rest).head? ≠ some (byte '[') := by
    obtain ⟨c, host, rfl⟩ := List.exists_cons_of_ne_nil hne
    intro heq
    exact h.ne (by decide) c List.mem_cons_self (Option.some.inj heq)
  have htext : hostText false (host ++ d :: rest) = host :=
    hostText_eq hd (fun c hc => ⟨h.ne (by decide) c hc, h.ne (by decide) c hc⟩) rest
  unfold parseHost
  simp only [hbracket, decide_false, htext, List.drop_left]

/-- `Parse` on the URL of `Build`. -/
theorem Buildable.parse_plain {p : UrlParser} (h : Buildable p) (p₀ : UrlParser) :
    parse p₀ p.plain =
      assign p.protocol fun protocol => assign p.host fun host =>
        assignPort p.port { p₀ with protocol, host } fun p₁ =>
          assign (byte '/' :: p.path) fun path =>
            queryLoop { p₁ with path } [] (queryText p.params.entries) := by
  have hscheme : (taken p.protocol).all isSchemeChar = true :=
    List.all_eq_true.mpr fun c hc => h.protocol_scheme c (List.mem_of_mem_take hc)
  have hcolon : ∀ c ∈ p.protocol, c ≠ byte ':' := fun c hc => (scheme_ne (h.protocol_scheme c hc)).1
  have hport (d : UInt8) (hd : ¬ (byte '0' ≤ d ∧ d ≤ byte '9')) : ∀ c ∈ p.port, c ≠ d :=
    fun c hc => digit_ne (h.port_digits c hc) hd
  have hat : ∀ c ∈ p.host ++ portText p.port, c ≠ byte '@' := fun c hc => by
    rcases List.mem_append.mp hc with hc | hc
    · exact h.host_avoids.ne (by decide) c hc
    · unfold portText at hc
      split at hc
      · exact absurd hc List.not_mem_nil
      · rcases List.mem_cons.mp hc with rfl | hc
        · decide
        · exact hport _ (by decide) c hc
  have hmem : byte ':' ∈ p.plain := by
    rw [plain_eq]
    exact List.mem_append_right _ List.mem_cons_self
  simp only [parse, h.cstr_plain, not_not.mpr hmem, if_false]
  rw [plain_eq, takeWhile_ne_append hcolon, dropWhile_ne_append hcolon, if_pos hscheme]
  congr 1
  funext protocol
  simp only [eatSlashes, List.tail_cons, List.head?_cons, ne_eq, not_true_eq_false, if_false]
  rw [parseUser, ← List.append_assoc, if_neg (by rw [userpass_eq_false hat]; decide),
    List.append_assoc]
  have hhost : ∃ d rest, (d = byte ':' ∨ d = byte '/') ∧ portText p.port ++ byte '/' ::
      (p.path ++ byte '?' :: queryText p.params.entries) = d :: rest := by
    unfold portText
    split
    · exact ⟨_, _, Or.inr rfl, rfl⟩
    · exact ⟨_, _, Or.inl rfl, rfl⟩
  obtain ⟨d, rest, hd, hrest⟩ := hhost
  rw [hrest, parseHost_eq h.host_ne h.host_avoids hd, ← hrest]
  congr 1
  funext host
  rw [parsePort_eq (hport _ (by decide))]
  congr 1
  funext p₁
  exact parsePath_eq (h.path_avoids.ne (by decide)) p₁ _

/-! ## What comes back -/

theorem taken_of_lt {text : Str} (h : text.length < 2147483648) :
    0 ≤ toInt text.length ∧ taken text = text := by
  have hlen : toInt text.length = text.length :=
    toInt_of_range (by omega) (by unfold intMax; omega)
  refine ⟨by omega, ?_⟩
  rw [taken, hlen, Int.toNat_natCast, List.take_length]

theorem assign_of_lt {text : Str} (h : text.length < 2147483648) (k : Str → Outcome) :
    assign text k = k text := by
  obtain ⟨hlen, htaken⟩ := taken_of_lt h
  rw [assign, if_neg (not_lt.mpr hlen), htaken]

/-- The length of a text with one byte more is never that of the text. -/
theorem taken_cons_ne (c : UInt8) (text : Str) : taken (c :: text) ≠ text := by
  intro h
  have hlen := congrArg List.length h
  rw [taken, List.length_take, List.length_cons, toInt_natCast] at hlen
  split at hlen <;> omega

theorem addParam_paramText {e : Str × Str} (h : Avoids (bytes "&=") e.1) (p : UrlParser) :
    p.addParam (paramText e) = p.setParam e.1 e.2 := by
  have hpos : findAt (paramText e) [byte '='] 0 = some e.1.length :=
    findAt_singleton (h.ne (by decide)) e.2
  have hkey : (paramText e).take e.1.length = e.1 := List.take_left
  have hval : (paramText e).drop (e.1.length + 1) = e.2 := by
    rw [paramText, ← List.drop_drop, List.drop_left]
    rfl
  unfold addParam
  rw [hpos]
  simp only [hkey, hval]

/-- A text without a `&` is gone through. -/
theorem queryLoop_append {front : Str} (h : ∀ c ∈ front, c ≠ byte '&') (p : UrlParser)
    (text rest : Str) : queryLoop p text (front ++ rest) = queryLoop p (text ++ front) rest := by
  induction front generalizing text with
  | nil => rw [List.nil_append, List.append_nil]
  | cons c front ih =>
      rw [List.cons_append, queryLoop, if_pos (h c List.mem_cons_self),
        ih (fun d hd => h d (List.mem_cons_of_mem c hd)), List.append_assoc, List.singleton_append]

theorem paramText_ne {e : Str × Str} (h : Avoids (bytes "&=") e.1 ∧ Avoids (bytes "&=") e.2) :
    ∀ c ∈ paramText e, c ≠ byte '&' := by
  intro c hc
  rcases List.mem_append.mp hc with hc | hc
  · exact h.1.ne (by decide) c hc
  · rcases List.mem_cons.mp hc with rfl | hc
    · decide
    · exact h.2.ne (by decide) c hc

/-- The loop over the query inserts the parameters one by one. -/
theorem queryLoop_queryText : ∀ (es : List (Str × Str)) (p : UrlParser),
    (∀ e ∈ es, Avoids (bytes "&=") e.1 ∧ Avoids (bytes "&=") e.2) →
    (queryText es).length < 2147483648 →
    queryLoop p [] (queryText es) = .returns true { p with params := p.params.insertAll es }
  | [], p, _, _ => by
      rw [queryText, queryLoop, assign_of_lt (by decide)]
      rfl
  | [e], p, h, hlen => by
      have he := h e List.mem_cons_self
      rw [queryText] at hlen
      rw [queryText, ← List.append_nil (paramText e), queryLoop_append (paramText_ne he),
        List.nil_append, queryLoop, assign_of_lt hlen, addParam_paramText he.1]
      rfl
  | e :: e' :: es, p, h, hlen => by
      have he := h e List.mem_cons_self
      rw [queryText, List.length_append, List.length_cons] at hlen
      rw [queryText, queryLoop_append (paramText_ne he), List.nil_append, queryLoop,
        if_neg (not_not.mpr rfl), assign_of_lt (by omega), addParam_paramText he.1,
        queryLoop_queryText (e' :: es) _ (fun d hd => h d (List.mem_cons_of_mem e hd)) (by omega)]
      rfl

/-- What a new object gets from the URL of `Build`: all of it, and a `/` in front of the path. -/
theorem parseString_build {p : UrlParser} (h : Buildable p)
    (hlen : (escaped p.plain).length < 2147483648) (beyond : Nat → UInt8) :
    ∃ url, p.build = some url ∧ parseString beyond fresh url = some (.returns true
      { p with path := byte '/' :: p.path, username := [], password := [] }) := by
  have hplain := Nat.lt_of_le_of_lt (length_le_escaped p.plain) hlen
  obtain ⟨used, hdec⟩ := decodeURL_escaped (Nat.lt_trans hlen (by decide)) beyond
  refine ⟨escaped p.plain, encodeURL_eq (Nat.lt_trans hplain (by decide)), ?_⟩
  rw [parseString, hdec, Option.map_some, h.parse_plain]
  rw [plain_eq] at hplain
  simp only [List.length_append, List.length_cons] at hplain
  have hparams := fun q : UrlParser =>
    queryLoop_queryText p.params.entries q h.params_avoid (by omega)
  rw [assign_of_lt (by omega), assign_of_lt (by omega), assignPort]
  by_cases hport : p.port = []
  · rw [if_pos hport, assign_of_lt (by rw [List.length_cons]; omega), hparams]
    simp only [fresh, OrderedMap.insertAll_entries, hport]
  · rw [portText, if_neg hport, List.length_cons] at hplain
    rw [if_neg hport, assign_of_lt (by omega), assign_of_lt (by rw [List.length_cons]; omega),
      hparams]
    simp only [fresh, OrderedMap.insertAll_entries]

theorem path_notMem_paramComponents (param : Str) : .path ∉ paramComponents param := by
  unfold paramComponents
  split <;> simp

theorem path_notMem_queryComponents (text cur : Str) : .path ∉ queryComponents text cur := by
  induction cur generalizing text with
  | nil => exact path_notMem_paramComponents (taken text)
  | cons c cur ih =>
      unfold queryComponents
      split
      · exact ih (text ++ [c])
      · intro h
        rcases List.mem_append.mp h with h | h
        · exact path_notMem_paramComponents (taken text) h
        · exact ih [] h

/-- The path of what comes back, whatever the lengths are. -/
theorem Buildable.path_of_parse {p p₀ q : UrlParser} (h : Buildable p)
    (hq : parse p₀ p.plain = .returns true q) : q.path = taken (byte '/' :: p.path) := by
  rw [h.parse_plain] at hq
  have hend : ∃ p₁ : UrlParser, queryLoop { p₁ with path := taken (byte '/' :: p.path) } []
      (queryText p.params.entries) = .returns true q := by
    have h₁ := (assign_eq_returns.mp (assign_eq_returns.mp hq).2).2
    unfold assignPort at h₁
    split at h₁
    · exact ⟨_, (assign_eq_returns.mp h₁).2⟩
    · exact ⟨_, (assign_eq_returns.mp (assign_eq_returns.mp h₁).2).2⟩
  obtain ⟨p₁, hloop⟩ := hend
  obtain ⟨as, hkeys, has⟩ := queryLoop_assigns _ _ _ _ hloop
  have hset := (has _).symm.trans hloop
  injection hset with _ hset
  have hnot : Component.path ∉ keys as := hkeys ▸ path_notMem_queryComponents _ _
  have hpath := get_setAll_of_notMem { p₁ with path := taken (byte '/' :: p.path) } hnot
  rw [hset] at hpath
  exact hpath

/-- No object comes back. -/
theorem not_roundTrips {p : UrlParser} (h : Buildable p) (beyond : Nat → UInt8) :
    ¬ RoundTrips beyond p := by
  rintro ⟨url, q, hbuild, hparse, -, -, -, hpath, -⟩
  obtain ⟨⟨data, used⟩, hdec, hq⟩ := Option.map_eq_some_iff.mp hparse
  obtain rfl := eq_of_decodeURL hbuild hdec
  exact taken_cons_ne (byte '/') p.path ((h.path_of_parse hq).symm.trans hpath)

/-- The object set to `http`, `h`, `80`, `a` and `k`=`v`. -/
def fiveSet : UrlParser := setParam { fresh with
  protocol := bytes "http", host := bytes "h", port := bytes "80", path := bytes "a" }
  (bytes "k") (bytes "v")

theorem fiveSet_buildable : Buildable fiveSet where
  protocol_ne := by decide +kernel
  protocol_scheme := by decide +kernel
  host_ne := by decide +kernel
  host_avoids := by unfold Avoids; decide +kernel
  port_digits := by decide +kernel
  path_avoids := by unfold Avoids; decide +kernel
  params_avoid := by unfold Avoids; decide +kernel

theorem not_roundTrips_fiveSet : ¬ RoundTrips (fun _ => 0) fiveSet :=
  not_roundTrips fiveSet_buildable fun _ => 0

/-- The URL of `a` is that of the path `/a` for `Parse`. -/
theorem path_gets_slash : Buildable fiveSet ∧
    (∃ url, fiveSet.build = some url ∧ parseString (fun _ => 0) fresh url =
      some (.returns true { fiveSet with path := bytes "/a" })) ∧
    ¬ RoundTrips (fun _ => 0) fiveSet := by
  have hparse : parseString (fun _ => 0) fresh (escaped fiveSet.plain) =
      some (.returns true { fiveSet with path := bytes "/a" }) := by decide +kernel
  have hbuild : fiveSet.build = some (escaped fiveSet.plain) := by decide +kernel
  refine ⟨fiveSet_buildable, ⟨_, hbuild, hparse⟩, ?_⟩
  rintro ⟨url, q, hurl, hq, -, -, -, hpath, -⟩
  obtain rfl := Option.some.inj (hbuild.symm.trans hurl)
  have heq := hparse.symm.trans hq
  injection heq with heq
  injection heq with _ heq
  rw [← heq] at hpath
  exact absurd hpath (by decide)

end LinSocketIo.Utils.Url.UrlParser
