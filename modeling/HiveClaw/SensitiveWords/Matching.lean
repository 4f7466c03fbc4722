import HiveClaw.SensitiveWords.Staleness

/-!
# What the filter reports

`SensitiveFilter::check` on the filter that `build_matchers` makes of the enabled rows. What it
reports is sensitive, but the automaton in front of the exact words looks at the text as it is
spelled, a regular expression over the size limit is left out, and an empty text
is not looked at. It reports a sensitive text exactly if none of these is in the way
(`reports_iff`). All rows have passed the checks of the functions that write them
(`accepted_reach`).
-/

namespace HiveClaw.SensitiveWords

open Lib Autocommit

/-! ## Rows that were accepted -/

/-- The word and its mode have passed the checks of `create_sensitive_word` and
`update_sensitive_word`. -/
structure Accepted (e : Engine) (word matchMode : String) : Prop where
  nonempty : word ≠ ""
  mode : matchMode = "exact" ∨ matchMode = "regex"
  valid : matchMode = "regex" → e.regexNew word = .ok ()

def AllAccepted (e : Engine) (t : WordTable) : Prop :=
  ∀ row ∈ t.rows, Accepted e row.word row.matchMode

def Write.Accepts (e : Engine) : Write → Prop
  | .insert word matchMode => Accepted e word matchMode
  | .update _ word matchMode _ => Accepted e word matchMode
  | .delete _ => True

theorem AllAccepted.apply {e : Engine} {m : Mysql} {t t' : WordTable} {w : Write} {answer : Int}
    (h : AllAccepted e t) (hw : w.Accepts e) (happly : w.apply m t = .ok (answer, t')) :
    AllAccepted e t' := by
  cases w with
  | insert word matchMode =>
    dsimp only [Write.apply] at happly
    split at happly
    · cases happly
    · cases happly
      intro row hrow
      rcases List.mem_append.mp hrow with hold | hnew
      · exact h row hold
      · rw [List.mem_singleton.mp hnew]
        exact hw
  | update id word matchMode enabled =>
    dsimp only [Write.apply] at happly
    split at happly
    · cases happly
    split at happly
    · cases happly
    · cases happly
      intro row hrow
      obtain ⟨old, hold, rfl⟩ := List.mem_map.mp hrow
      split
      · exact hw
      · exact h old hold
  | delete id =>
    cases happly
    exact fun row hrow => h row (List.mem_of_mem_filter hrow)

/-- Every statement keeps the rows accepted. -/
def keeper (e : Engine) : Protocol Unit WordStmt (Option String) WordStore :=
  { init := ()
    next := fun _ _ _ _ => ()
    allows := fun _ _ _ s s' => AllAccepted e s.table → AllAccepted e s'.table }

section Functions

variable {e : Engine} {m : Mysql}

variable {w : Write}

theorem keeps_write (hw : w.Accepts e) :
    Follows (keeper e) (fun _ _ => True) () (write m w).run := by
  refine follows_execute (fun _ _ => ⟨id, trivial⟩) (fun _ _ _ => ⟨id, trivial⟩) ?_
  intro answer s s' hwrite
  refine ⟨fun h => ?_, trivial⟩
  cases happly : w.apply m s.table with
  | error err =>
    rw [happly] at hwrite
    cases hwrite
  | ok r =>
    rw [happly] at hwrite
    cases hwrite
    exact h.apply hw happly

variable {f : String → AppError}

theorem keeps_write_bind {rest : Int → WordM AppError WordResponse} (hw : w.Accepts e) {q : Unit}
    (hrest : ∀ answer, Follows (keeper e) (fun _ _ => True) () (rest answer).run) :
    Follows (keeper e) (fun _ _ => True) q (ExceptT.adapt f (write m w) >>= rest).run := by
  have hwrite : Follows (keeper e) (fun _ _ => True) () (ExceptT.adapt f (write m w)).run :=
    Follows.adapt (keeps_write hw)
  exact hwrite.bindE (fun _ _ _ => trivial) fun _ answer _ => hrest answer

theorem keeps_refreshCache : Follows (keeper e) (fun _ _ => True) () (refreshCache e).run := by
  have hinstall (rows : List SensitiveWord) (part : Part) (s : WordStore) :
      AllAccepted e s.table → AllAccepted e (s.install e rows part).table := by
    rw [WordStore.install_table]
    exact id
  have hselect : Follows (keeper e) (fun _ _ => True) ()
      (query .selectEnabled fun s : WordStore => s.table.enabledRows).run :=
    follows_query (fun _ _ => id) (fun _ _ => trivial) fun _ => trivial
  unfold refreshCache
  refine hselect.bindE (fun _ _ _ => trivial) fun _ rows _ => ?_
  unfold buildMatchers
  refine follows_inMemory_bind (fun _ s => hinstall rows .patterns s) fun _ _ => ?_
  refine follows_inMemory_bind (fun _ s => hinstall rows .ac s) fun _ _ => ?_
  exact .stmt (fun _ s => hinstall rows .exactWords s) fun _ _ => .done trivial

theorem keeps_refreshThenFetch {read : WordStore → Option SensitiveWord} :
    Follows (keeper e) (fun _ _ => True) ()
      (do
        let _ ← attempt (refreshCache e)
        let row ← ExceptT.adapt f (fetchOne .select read)
        pure (.word row) : WordM AppError WordResponse).run := by
  refine follows_attempt_bind keeps_refreshCache fun _ _ _ => ?_
  have hfetch : Follows (keeper e) (fun q' _ => q' = ()) () (fetchOne .select read).run :=
    stays_fetchOne (fun _ _ => id) fun _ _ => rfl
  exact (Follows.adapt hfetch).stay_bind (fun _ => trivial) fun _ => .done trivial

theorem follows_checkMatchMode (word matchMode : String) :
    Follows (keeper e)
      (fun _ r => ∀ a, r = .ok a → (matchMode = "exact" ∨ matchMode = "regex") ∧
        (matchMode = "regex" → e.regexNew word = .ok ()))
      () (checkMatchMode e word matchMode).run := by
  unfold checkMatchMode failIf
  by_cases hmode : matchMode ≠ "exact" ∧ matchMode ≠ "regex"
  · rw [if_pos hmode]
    exact .done nofun
  · rw [if_neg hmode]
    have hone : matchMode = "exact" ∨ matchMode = "regex" := by
      rw [not_and_or, not_not, not_not] at hmode
      exact hmode
    by_cases hregex : matchMode = "regex"
    · rw [if_pos hregex]
      cases hvalid : e.regexNew word with
      | ok u => exact .done fun _ _ => ⟨hone, fun _ => rfl⟩
      | error err => exact .done nofun
    · rw [if_neg hregex]
      exact .done fun _ _ => ⟨hone, fun h => absurd h hregex⟩

theorem follows_failIf (c : Prop) [Decidable c] (err : AppError) :
    Follows (keeper e) (fun _ r => ∀ a, r = .ok a → ¬ c) ()
      (failIf c err : WordM AppError Unit).run := by
  unfold failIf
  split
  · exact .done nofun
  · rename_i hnot
    exact .done fun _ _ => hnot

theorem keeps_handle (r : WordRequest) :
    Follows (keeper e) (fun _ _ => True) () (handle e m r).run := by
  cases r with
  | create req =>
    show Follows _ _ _ (createSensitiveWord e m req).run
    unfold createSensitiveWord
    refine (follows_failIf _ _).bindE (fun _ _ _ => trivial) fun _ _ hword => ?_
    refine (stays_failIf _ _).stay_bind (fun _ => trivial) fun _ => ?_
    refine (follows_checkMatchMode _ _).bindE (fun _ _ _ => trivial) fun _ _ hmode => ?_
    obtain ⟨hone, hvalid⟩ := hmode _ rfl
    have hw : Write.Accepts e (.insert (RustStr.trim req.word) req.matchMode) :=
      ⟨hword _ rfl, hone, hvalid⟩
    exact keeps_write_bind hw fun _ => keeps_refreshThenFetch
  | update id req =>
    show Follows _ _ _ (updateSensitiveWord e m id req).run
    unfold updateSensitiveWord
    have hfetch : Follows (keeper e) (fun q' _ => q' = ()) ()
        (query .select fun s : WordStore => s.table.byId id).run :=
      stays_query (fun _ _ h => h) fun _ _ => rfl
    refine (Follows.adapt hfetch).stay_bind (fun _ => trivial) fun existing => ?_
    refine (stays_okOr _ _).stay_bind (fun _ => trivial) fun existing => ?_
    refine (follows_failIf _ _).bindE (fun _ _ _ => trivial) fun _ _ hword => ?_
    refine (follows_checkMatchMode _ _).bindE (fun _ _ _ => trivial) fun _ _ hmode => ?_
    obtain ⟨hone, hvalid⟩ := hmode _ rfl
    have hw : Write.Accepts e (.update id (RustStr.trim (req.word.getD existing.word))
        (req.matchMode.getD existing.matchMode) (req.enabled.getD existing.enabled)) :=
      ⟨hword _ rfl, hone, hvalid⟩
    exact keeps_write_bind hw fun _ => keeps_refreshThenFetch
  | delete id =>
    show Follows _ _ _ (deleteSensitiveWord e m id).run
    unfold deleteSensitiveWord
    have hw : Write.Accepts e (.delete id) := trivial
    refine keeps_write_bind hw fun rowsAffected => ?_
    split
    · exact follows_attempt_bind keeps_refreshCache fun _ _ _ => .done trivial
    · exact .done trivial

end Functions

/-- In every reachable state of creates, updates and deletions side by side, failing statements
included, each row has passed the check of its match type. -/
theorem accepted_reach {e : Engine} {m : Mysql} {s : WordStore} {c : WordPool}
    {P : WordPool → Act WordRequest (Option String) Empty → Prop} (h : AllAccepted e s.table)
    (hreach : (wordSystem e m).Reach P { threads := [], store := s } c) :
    AllAccepted e c.store.table := by
  have hinv : Obeys (fun _ _ => keeper e) (fun _ _ _ _ => True) c ∧ AllAccepted e c.store.table := by
    have hinit : Obeys (fun _ _ => keeper e) (fun _ _ _ _ => True)
        ({ threads := [], store := s } : WordPool) := nofun
    refine hreach.inv (I := fun c => Obeys (fun _ _ => keeper e) (fun _ _ _ _ => True) c ∧
      AllAccepted e c.store.table) ⟨hinit, h⟩ ?_
    rintro c a ⟨hobey, hrows⟩ -
    refine ⟨hobey.step (fun _ r => keeps_handle r) a, ?_⟩
    rcases step_cases (wordSystem e m) hobey a with hsame | ⟨r, -, hstep⟩ |
      ⟨i, fault, th, l, w, n, -, -, -, -, -, hallows, hstep⟩ | ⟨i, th, -, -, hstep⟩ | ⟨x, -, -⟩
    · rw [hsame]
      exact hrows
    · rw [hstep]
      exact hrows
    · rw [hstep]
      exact hallows hrows
    · rw [hstep]
      exact hrows
    · exact x.elim
  exact hinv.2

/-- Two words are created side by side. -/
theorem accepted_reach_twoCreates :
    AllAccepted plainEngine (afterCreates [0, 0, 1, 1, 0, 1, 0, 0, 1, 1, 0, 1]).store.table := by
  have hmeets : (wordSystem plainEngine .plain).Meets (InTime plainEngine .plain)
      { threads := [], store := emptyWords } (twoCreates [0, 0, 1, 1, 0, 1, 0, 0, 1, 1, 0, 1]) := by
    decide +kernel
  have hrows : AllAccepted plainEngine emptyWords.table :=
    fun row hrow => absurd hrow List.not_mem_nil
  exact accepted_reach hrows (System.reach_run hmeets)

/-! ## What is sensitive -/

/-- What the crates and `str::to_lowercase` promise: `find` reports whether a word occurs in the
text as it is, a pattern has one language however it is compiled, and only the empty text is empty
in lower case. -/
structure EngineSpec (e : Engine) (lower : String → String) (language : String → String → Prop) :
    Prop where
  find : ∀ words found text, e.ahoCorasick words = some found →
    (found text = true ↔ ∃ word ∈ words, RustStr.contains text word = true)
  sameLanguage : ∀ pattern re text, e.regexNew pattern = .ok () → e.buildRegex pattern = some re →
    (re text = true ↔ language pattern text)
  lower_eq_empty : ∀ s, lower s = "" ↔ s = ""

/-- The filter that `build_matchers` makes of the rows. -/
def builtFilter (e : Engine) (rows : List SensitiveWord) : Runtime.SensitiveFilter :=
  { patterns := patternsOf e rows, ac := automatonOf e rows }

section Sensitive

variable (e : Engine) (lower : String → String) (language : String → String → Prop)
  (rows : List SensitiveWord) (text : String)

/-- An exact word occurs in the text, ignoring case. -/
def MatchesExact : Prop :=
  ∃ row ∈ rows, row.matchMode ≠ "regex" ∧ RustStr.contains (lower text) (lower row.word) = true

/-- A regular expression matches the text. -/
def MatchesRegex : Prop := ∃ row ∈ rows, row.matchMode = "regex" ∧ language row.word text

def Sensitive : Prop := MatchesExact lower rows text ∨ MatchesRegex language rows text

/-- An exact word occurs in the text as it is spelled, and there is an automaton. -/
def Spelled : Prop :=
  (automatonOf e rows).isSome ∧
    ∃ row ∈ rows, row.matchMode ≠ "regex" ∧ RustStr.contains text row.word = true

/-- A regular expression matches that keeps to the size limit. -/
def MatchesSmall : Prop :=
  ∃ row ∈ rows, row.matchMode = "regex" ∧ (e.buildRegex row.word).isSome ∧ language row.word text

/-- The filter reports the text exactly if it has a word. -/
def Reports : Prop :=
  ((builtFilter e rows).check lower text).isSome = true ↔ Sensitive lower language rows text

/-- Nothing is in the way: a text that a regular expression matches is not empty, and it is matched
by one that keeps to the size limit or found by its exact words; and of a text in which an exact
word occurs, some exact word is spelled out or a regular expression matches it. -/
structure Plain : Prop where
  nonempty : MatchesRegex language rows text → text ≠ ""
  small : MatchesRegex language rows text →
    MatchesSmall e language rows text ∨ Spelled e rows text ∧ MatchesExact lower rows text
  spelled : MatchesExact lower rows text →
    Spelled e rows text ∨ MatchesSmall e language rows text

end Sensitive

section Check

variable {e : Engine} {lower : String → String} {language : String → String → Prop}
  {rows : List SensitiveWord} {text : String}

theorem exactHit_iff :
    ((patternsOf e rows).find? (Runtime.SensitiveFilter.exactHit lower text)).isSome = true ↔
      MatchesExact lower rows text := by
  rw [List.find?_isSome]
  constructor
  · rintro ⟨p, hp, hhit⟩
    obtain ⟨row, hrow, hpattern⟩ := List.mem_filterMap.mp hp
    by_cases hmode : row.matchMode = "regex"
    · rw [if_pos hmode] at hpattern
      obtain ⟨re, -, rfl⟩ := Option.map_eq_some_iff.mp hpattern
      cases hhit
    · rw [if_neg hmode] at hpattern
      obtain rfl := Option.some.inj hpattern
      exact ⟨row, hrow, hmode, hhit⟩
  · rintro ⟨row, hrow, hmode, hhit⟩
    refine ⟨.exact row.id row.word, List.mem_filterMap.mpr ⟨row, hrow, ?_⟩, hhit⟩
    rw [if_neg hmode]

theorem regexHit_iff (hspec : EngineSpec e lower language)
    (hrows : ∀ row ∈ rows, Accepted e row.word row.matchMode) :
    ((patternsOf e rows).find? (Runtime.SensitiveFilter.regexHit text)).isSome = true ↔
      MatchesSmall e language rows text := by
  rw [List.find?_isSome]
  constructor
  · rintro ⟨p, hp, hhit⟩
    obtain ⟨row, hrow, hpattern⟩ := List.mem_filterMap.mp hp
    by_cases hmode : row.matchMode = "regex"
    · rw [if_pos hmode] at hpattern
      obtain ⟨re, hre, rfl⟩ := Option.map_eq_some_iff.mp hpattern
      refine ⟨row, hrow, hmode, by rw [hre]; rfl, ?_⟩
      exact (hspec.sameLanguage _ re text ((hrows row hrow).valid hmode) hre).mp hhit
    · rw [if_neg hmode] at hpattern
      obtain rfl := Option.some.inj hpattern
      cases hhit
  · rintro ⟨row, hrow, hmode, hsmall, hmatch⟩
    obtain ⟨re, hre⟩ := Option.isSome_iff_exists.mp hsmall
    refine ⟨.regex row.id row.word re, List.mem_filterMap.mpr ⟨row, hrow, ?_⟩, ?_⟩
    · rw [if_pos hmode, hre]
      rfl
    · exact (hspec.sameLanguage _ re text ((hrows row hrow).valid hmode) hre).mpr hmatch

theorem automaton_iff (hspec : EngineSpec e lower language) :
    ((automatonOf e rows).any fun found => found text) = true ↔ Spelled e rows text := by
  have hwords (word : String) : word ∈ (exactTuples rows).map (·.2) ↔
      ∃ row ∈ rows, row.matchMode ≠ "regex" ∧ row.word = word := by
    constructor
    · intro hword
      obtain ⟨tuple, htuple, rfl⟩ := List.mem_map.mp hword
      obtain ⟨row, hrow, heq⟩ := List.mem_filterMap.mp htuple
      by_cases hmode : row.matchMode = "regex"
      · rw [if_pos hmode] at heq
        cases heq
      · rw [if_neg hmode] at heq
        obtain rfl := Option.some.inj heq
        exact ⟨row, hrow, hmode, rfl⟩
    · rintro ⟨row, hrow, hmode, rfl⟩
      refine List.mem_map.mpr ⟨(row.id, row.word), List.mem_filterMap.mpr ⟨row, hrow, ?_⟩, rfl⟩
      rw [if_neg hmode]
  unfold Spelled
  cases hac : automatonOf e rows with
  | none => exact iff_of_false nofun fun h => by cases h.1
  | some found =>
    have hbuilt : e.ahoCorasick ((exactTuples rows).map (·.2)) = some found := by
      unfold automatonOf at hac
      dsimp only at hac
      split at hac
      · cases hac
      · exact hac
    show found text = true ↔ _
    rw [hspec.find _ found text hbuilt]
    constructor
    · rintro ⟨word, hword, hcontains⟩
      obtain ⟨row, hrow, hmode, rfl⟩ := (hwords word).mp hword
      exact ⟨rfl, row, hrow, hmode, hcontains⟩
    · rintro ⟨-, row, hrow, hmode, hcontains⟩
      exact ⟨row.word, (hwords row.word).mpr ⟨row, hrow, hmode, rfl⟩, hcontains⟩

theorem isSome_check_iff (hspec : EngineSpec e lower language)
    (hrows : ∀ row ∈ rows, Accepted e row.word row.matchMode) :
    ((builtFilter e rows).check lower text).isSome = true ↔
      text ≠ "" ∧ (Spelled e rows text ∧ MatchesExact lower rows text ∨
        MatchesSmall e language rows text) := by
  unfold Runtime.SensitiveFilter.check
  by_cases hempty : text = ""
  · rw [if_pos hempty]
    exact iff_of_false nofun fun h => h.1 hempty
  · rw [if_neg hempty, ← exactHit_iff (e := e), ← regexHit_iff hspec hrows, ← automaton_iff hspec]
    dsimp only
    rw [Option.isSome_or, Bool.or_eq_true]
    by_cases hfound : ((builtFilter e rows).ac.any fun found => found text) = true
    · rw [if_pos hfound]
      exact ⟨fun h => ⟨hempty, h.imp_left fun hexact => ⟨hfound, hexact⟩⟩,
        fun h => h.2.imp_left And.right⟩
    · rw [if_neg hfound]
      refine ⟨fun h => ⟨hempty, .inr (h.resolve_left nofun)⟩, fun h => .inr ?_⟩
      exact h.2.resolve_left fun hboth => hfound hboth.1

theorem not_matchesExact_empty (hspec : EngineSpec e lower language)
    (hrows : ∀ row ∈ rows, Accepted e row.word row.matchMode) : ¬ MatchesExact lower rows "" := by
  rintro ⟨row, hrow, -, hcontains⟩
  have hlower : lower "" = "" := (hspec.lower_eq_empty "").mpr rfl
  have hinfix : (lower row.word).toList <:+: (lower "").toList := of_decide_eq_true hcontains
  rw [hlower, String.toList_empty, List.infix_nil, String.toList_eq_nil_iff,
    hspec.lower_eq_empty] at hinfix
  exact (hrows row hrow).nonempty hinfix

/-- **The sensitive word filter.** It reports a text exactly if the text has a word, unless the
spelling, the size limit or an empty text is in the way. -/
theorem reports_iff (hspec : EngineSpec e lower language)
    (hrows : ∀ row ∈ rows, Accepted e row.word row.matchMode) :
    Reports e lower language rows text ↔ Plain e lower language rows text := by
  unfold Reports
  rw [isSome_check_iff hspec hrows]
  constructor
  · intro h
    refine ⟨fun hregex => (h.mpr (.inr hregex)).1, fun hregex => (h.mpr (.inr hregex)).2.symm,
      fun hexact => ?_⟩
    exact (h.mpr (.inl hexact)).2.imp_left And.left
  · intro h
    constructor
    · rintro ⟨-, ⟨-, hexact⟩ | ⟨row, hrow, hmode, -, hmatch⟩⟩
      · exact .inl hexact
      · exact .inr ⟨row, hrow, hmode, hmatch⟩
    · rintro (hexact | hregex)
      · refine ⟨?_, (h.spelled hexact).imp_left fun hspelled => ⟨hspelled, hexact⟩⟩
        rintro rfl
        exact not_matchesExact_empty hspec hrows hexact
      · exact ⟨h.nonempty hregex, (h.small hregex).symm⟩

end Check

/-! ### A word in two spellings -/

/-- Regular expressions are refused; the automaton finds a word where it stands. -/
def exactEngine : Engine where
  regexNew := fun _ => .error "regular expressions are not used"
  buildRegex := fun _ => none
  ahoCorasick := fun words => some fun text => words.any fun word => RustStr.contains text word

theorem exactEngine_spec :
    EngineSpec exactEngine RustStr.toAsciiLowercase fun _ _ => False where
  find words found text h := by
    obtain rfl := Option.some.inj h
    exact List.any_eq_true
  sameLanguage _ _ _ h := by cases h
  lower_eq_empty s := by
    unfold RustStr.toAsciiLowercase
    rw [String.ofList_eq_empty_iff, List.map_eq_nil_iff, String.toList_eq_nil_iff]

/-- The word "spam", to be found as it stands. -/
def spamRow : SensitiveWord := { id := 1, word := "spam", matchMode := "exact", enabled := true }

theorem accepted_spamRow :
    ∀ row ∈ [spamRow], Accepted exactEngine row.word row.matchMode := by
  intro row hrow
  rw [List.mem_singleton.mp hrow]
  exact ⟨by decide, .inl rfl, fun h => absurd h (by decide)⟩

/-- The text has the word as it is spelled. -/
theorem reports_spam :
    Reports exactEngine RustStr.toAsciiLowercase (fun _ _ => False) [spamRow] "no spam" := by
  refine (reports_iff exactEngine_spec accepted_spamRow).mpr ⟨?_, ?_, ?_⟩
  · exact fun _ => by decide
  · rintro ⟨-, -, -, hfalse⟩
    exact hfalse.elim
  · exact fun _ => .inl ⟨rfl, spamRow, List.mem_cons_self, by decide, by decide +kernel⟩

/-- In capitals it is not found. -/
theorem not_reports_capitals :
    ¬ Reports exactEngine RustStr.toAsciiLowercase (fun _ _ => False) [spamRow] "no SPAM" := by
  intro h
  have hsensitive : Sensitive RustStr.toAsciiLowercase (fun _ _ => False) [spamRow] "no SPAM" :=
    .inl ⟨spamRow, List.mem_cons_self, by decide, by decide +kernel⟩
  have hreported := h.mpr hsensitive
  revert hreported
  decide +kernel

end HiveClaw.SensitiveWords
