import HiveClaw.Lib.Refresh
import HiveClaw.SensitiveWords.Service

/-!
# The installed filter against the table

Whether the filter that is installed when all requests have finished is the one
built from the table, for any interleaving of the requests' statements.

Every request that has written reads the table again and installs what it read.
As long as it has not read yet, or holds the rows as they are, it owes the filter
its three values (`Refresher.owes`). What it read may be out of date when it comes
to be installed, though: then the value is right again only if another request
still owes it (`InTime`).
-/

namespace HiveClaw.SensitiveWords

open Lib Autocommit

/-! ## What a request does -/

/-- Where a request is with its refresh: it has not written, has written and not
yet read, or holds rows that `left` values are still to be installed from. -/
inductive Refresher where
  | idle
  | written
  | holding (rows : List SensitiveWord) (left : List Part)
deriving DecidableEq, Repr

namespace Refresher

def next (m : Mysql) : Refresher → WordStmt → Option String → WordStore → Refresher
  | .idle, .write w, none, s =>
    match w.apply m s.table with
    | .ok (answer, _) => if w.refreshes answer then .written else .idle
    | .error _ => .idle
  | .written, .selectEnabled, none, s =>
    .holding s.table.enabledRows [.patterns, .ac, .exactWords]
  | .written, .selectEnabled, some _, _ => .idle
  | .holding rows left, .install _ part, _, _ => .holding rows (left.erase part)
  | q, _, _, _ => q

/-- What a statement may do to the store. -/
def allows (e : Engine) (m : Mysql) :
    Refresher → WordStmt → Option String → WordStore → WordStore → Prop
  | .idle, .write w, none, s, s' =>
    s' = s ∨ ∃ answer table, w.apply m s.table = .ok (answer, table) ∧ s' = { s with table }
  | .holding rows left, .install rows' part, _, s, s' =>
    rows' = rows ∧ left.head? = some part ∧ s' = s.install e rows part
  | _, .install _ _, _, _, _ => False
  | _, _, _, s, s' => s' = s

/-- The request will install the value from the rows the table has now, or from
later ones. -/
def owes : Refresher → WordStore → Part → Prop
  | .idle, _, _ => False
  | .written, _, _ => True
  | .holding rows left, s, part => rows = s.table.enabledRows ∧ part ∈ left

instance : ∀ (q : Refresher) (s : WordStore) (part : Part), Decidable (q.owes s part)
  | .idle, _, _ => isFalse id
  | .written, _, _ => isTrue trivial
  | .holding rows left, s, part =>
    inferInstanceAs (Decidable (rows = s.table.enabledRows ∧ part ∈ left))

/-- The request has nothing left to install. -/
def Settled : Refresher → Prop
  | .idle => True
  | .written => False
  | .holding _ left => left = []

end Refresher

def refresher (e : Engine) (m : Mysql) :
    Protocol Refresher WordStmt (Option String) WordStore :=
  { init := .idle, next := Refresher.next m, allows := Refresher.allows e m }

/-- When a value of the filter is up to date, and who owes it. -/
def filterRefresh (e : Engine) : Refresh Refresher WordStore Part :=
  { fresh := fun s part => s.BuiltFrom e s.table.enabledRows part, owes := Refresher.owes }

/-! ## One statement -/

variable {m : Mysql}

theorem apply_of_not_refreshes {t t' : WordTable} {w : Write} {answer : Int}
    (happly : w.apply m t = .ok (answer, t')) (hnot : w.refreshes answer = false) : t' = t := by
  cases w with
  | insert word matchMode => cases hnot
  | update id word matchMode enabled => cases hnot
  | delete id =>
    cases happly
    have hzero : t.rows.countP (fun r => r.id = id) = 0 := by
      have hle := of_decide_eq_false hnot
      omega
    have hall : t.rows.filter (fun r => decide (r.id ≠ id)) = t.rows := by
      refine List.filter_eq_self.mpr fun r hr => decide_eq_true fun hid => ?_
      exact List.countP_eq_zero.mp hzero r hr (decide_eq_true hid)
    show { t with rows := t.rows.filter (fun r => decide (r.id ≠ id)) } = t
    rw [hall]

variable {s s' : WordStore} {q : Refresher}

theorem Refresher.owes_congr (htable : s'.table = s.table) {part : Part} (h : q.owes s part) :
    q.owes s' part := by
  cases q with
  | idle => exact h
  | written => exact h
  | holding rows left => exact ⟨h.1.trans (congrArg _ htable.symm), h.2⟩

/-- What a statement does to a value of the filter: afterwards it is up to date or
owed, or it has been replaced from rows that are out of date, or nothing has
changed. -/
theorem Refresher.stmt_cases {e : Engine} {l : WordStmt} (hallows : q.allows e m l none s s')
    (part : Part) :
    (s'.BuiltFrom e s'.table.enabledRows part ∨ (q.next m l none s).owes s' part) ∨
      (∃ rows, l = .install rows part ∧ rows ≠ s.table.enabledRows ∧ s'.table = s.table) ∨
      (s.BuiltFrom e s.table.enabledRows part → s'.BuiltFrom e s'.table.enabledRows part) ∧
        (q.owes s part → (q.next m l none s).owes s' part) ∧ s'.table = s.table := by
  -- a statement that changes neither the store nor the phase
  have hsame : s' = s → q.next m l none s = q →
      (s.BuiltFrom e s.table.enabledRows part → s'.BuiltFrom e s'.table.enabledRows part) ∧
        (q.owes s part → (q.next m l none s).owes s' part) ∧ s'.table = s.table := by
    rintro rfl hnext
    rw [hnext]
    exact ⟨id, id, rfl⟩
  cases q with
  | idle =>
    cases l with
    | select => exact Or.inr (Or.inr (hsame hallows rfl))
    | selectEnabled => exact Or.inr (Or.inr (hsame hallows rfl))
    | install rows part => exact hallows.elim
    | write w =>
      cases happly : w.apply m s.table with
      | error err =>
        refine Or.inr (Or.inr (hsame ?_ (by simp [Refresher.next, happly])))
        rcases hallows with hs | ⟨answer, table, hcontra, -⟩
        · exact hs
        · rw [happly] at hcontra
          cases hcontra
      | ok r =>
        -- a write that changes the enabled words owes a refresh
        cases hrefreshes : w.refreshes r.1 with
        | true =>
          refine Or.inl (Or.inr ?_)
          simp only [Refresher.next, happly, hrefreshes, if_true]
          trivial
        | false =>
          refine Or.inr (Or.inr (hsame ?_ (by simp [Refresher.next, happly, hrefreshes])))
          rcases hallows with hs | ⟨answer, table, hr, hs⟩
          · exact hs
          · rw [happly] at hr
            cases hr
            rw [hs, apply_of_not_refreshes happly hrefreshes]
  | written =>
    cases l with
    | select => exact Or.inr (Or.inr (hsame hallows rfl))
    | write w => exact Or.inr (Or.inr (hsame hallows rfl))
    | install rows part => exact hallows.elim
    | selectEnabled =>
      have hs : s' = s := hallows
      refine Or.inl (Or.inr ⟨?_, by cases part <;> decide⟩)
      rw [hs]
  | holding rows left =>
    cases l with
    | select => exact Or.inr (Or.inr (hsame hallows rfl))
    | write w => exact Or.inr (Or.inr (hsame hallows rfl))
    | selectEnabled => exact Or.inr (Or.inr (hsame hallows rfl))
    | install rows' part' =>
      obtain ⟨rfl, -, rfl⟩ := hallows
      have htable := s.install_table e rows' part'
      -- an install concerns the part that it is for
      by_cases hpart : part = part'
      · subst hpart
        by_cases hrows : rows' = s.table.enabledRows
        · refine Or.inl (Or.inl ?_)
          rw [htable, ← hrows]
          exact s.builtFrom_install e rows' part
        · exact Or.inr (Or.inl ⟨rows', rfl, hrows, htable⟩)
      · refine Or.inr (Or.inr ⟨fun hbuilt => ?_, fun howes => ?_, htable⟩)
        · rw [htable]
          exact (WordStore.builtFrom_install_ne hpart).mpr hbuilt
        · refine ⟨howes.1.trans (congrArg _ htable.symm), ?_⟩
          exact (List.mem_erase_of_ne hpart).mpr howes.2

/-! ## The functions keep to the protocol -/

section Functions

variable {e : Engine} {m : Mysql} {α : Type}

theorem follows_buildMatchers {ε : Type} (rows : List SensitiveWord) :
    Follows (refresher e m) (fun q _ => q.Settled)
      (.holding rows [.patterns, .ac, .exactWords]) (buildMatchers e rows : WordM ε Unit).run := by
  unfold buildMatchers
  refine follows_inMemory_bind (fun _ s => ⟨rfl, rfl, rfl⟩) fun _ s => ?_
  refine follows_inMemory_bind (fun _ s => ⟨rfl, rfl, rfl⟩) fun _ s => ?_
  exact Follows.lift (follows_modify_iff.mpr ⟨fun _ s => ⟨rfl, rfl, rfl⟩, fun _ s => rfl⟩)

theorem follows_refreshCache :
    Follows (refresher e m) (fun q _ => q.Settled) .written (refreshCache e).run := by
  unfold refreshCache
  have hselect : Follows (refresher e m)
      (fun q r => (∀ err, r = .error err → q.Settled) ∧
        ∀ rows, r = .ok rows → q = .holding rows [.patterns, .ac, .exactWords])
      .written (query .selectEnabled fun s => s.table.enabledRows).run := by
    refine follows_query (fun _ _ => rfl) (fun err s => ⟨fun _ _ => trivial, nofun⟩) fun s => ?_
    exact ⟨nofun, fun rows h => by rw [← Except.ok.inj h]; rfl⟩
  refine hselect.bindE (fun q err h => h.1 err rfl) fun q rows h => ?_
  rw [h.2 rows rfl]
  exact follows_buildMatchers rows

theorem follows_write (w : Write) :
    Follows (refresher e m)
      (fun q r => (∀ err, r = .error err → q = .idle) ∧
        ∀ answer, r = .ok answer → q = if w.refreshes answer then .written else .idle)
      .idle (write m w).run := by
  refine follows_execute (fun err s => ⟨rfl, fun _ _ => rfl, nofun⟩) ?_ ?_
  · intro err s hw
    cases happly : w.apply m s.table with
    | error err' => exact ⟨Or.inl rfl, fun _ _ => by simp [refresher, Refresher.next, happly], nofun⟩
    | ok r =>
      rw [happly] at hw
      cases hw
  · intro answer s s' hw
    cases happly : w.apply m s.table with
    | error err =>
      rw [happly] at hw
      cases hw
    | ok r =>
      rw [happly] at hw
      cases hw
      refine ⟨Or.inr ⟨r.1, r.2, happly, rfl⟩, nofun, fun answer h => ?_⟩
      rw [← Except.ok.inj h]
      simp [refresher, Refresher.next, happly]

variable {f : String → AppError}

theorem follows_write_bind {w : Write} {rest : Int → WordM AppError WordResponse}
    (hrest : ∀ answer, Follows (refresher e m) (fun q _ => q.Settled)
      (if w.refreshes answer then .written else .idle) (rest answer).run) :
    Follows (refresher e m) (fun q _ => q.Settled) .idle
      (ExceptT.adapt f (write m w) >>= rest).run := by
  have hwrite : Follows (refresher e m)
      (fun q r => (∀ err, r = .error err → q = .idle) ∧
        ∀ answer, r = .ok answer → q = if w.refreshes answer then .written else .idle)
      .idle (ExceptT.adapt f (write m w)).run := by
    refine Follows.adapt ((follows_write w).mono fun q r h => ?_)
    cases r with
    | error err => exact ⟨fun _ _ => h.1 err rfl, nofun⟩
    | ok answer => exact ⟨nofun, fun _ ha => h.2 _ (congrArg _ (Except.ok.inj ha))⟩
  refine hwrite.bindE (fun q err h => ?_) fun q answer h => ?_
  · rw [h.1 err rfl]
    trivial
  · rw [h.2 answer rfl]
    exact hrest answer

variable {q : Refresher}

theorem stays_fetch {read : WordStore → Option α} :
    Follows (refresher e m) (fun q' _ => q' = q) q (fetchOne .select read).run :=
  stays_fetchOne (fun _ _ => by cases q <;> rfl) fun _ _ => by cases q <;> rfl

theorem follows_refreshThenFetch {read : WordStore → Option SensitiveWord} :
    Follows (refresher e m) (fun q _ => q.Settled) .written
      (do
        let _ ← attempt (refreshCache e)
        let row ← ExceptT.adapt f (fetchOne .select read)
        pure (.word row) : WordM AppError WordResponse).run := by
  refine follows_attempt_bind follows_refreshCache fun q _ hq => ?_
  exact (Follows.adapt stays_fetch).stay_bind (fun _ => hq) fun row => .done hq

theorem stays_checkMatchMode (word matchMode : String) :
    Follows (refresher e m) (fun q' _ => q' = q) q (checkMatchMode e word matchMode).run := by
  unfold checkMatchMode
  refine (stays_failIf _ _).stay_bind (fun _ => rfl) fun _ => ?_
  split
  · split
    · exact .done rfl
    · exact .done rfl
  · exact .done rfl

theorem follows_createSensitiveWord (req : CreateSensitiveWordRequest) :
    Follows (refresher e m) (fun q _ => q.Settled) .idle (createSensitiveWord e m req).run := by
  unfold createSensitiveWord
  refine (stays_failIf _ _).stay_bind (fun _ => trivial) fun _ => ?_
  refine (stays_failIf _ _).stay_bind (fun _ => trivial) fun _ => ?_
  refine (stays_checkMatchMode _ _).stay_bind (fun _ => trivial) fun _ => ?_
  exact follows_write_bind fun id => follows_refreshThenFetch

theorem follows_updateSensitiveWord (id : Int) (req : UpdateSensitiveWordRequest) :
    Follows (refresher e m) (fun q _ => q.Settled) .idle (updateSensitiveWord e m id req).run := by
  unfold updateSensitiveWord
  refine (Follows.adapt (stays_query (fun _ _ => rfl) fun _ _ => rfl)).stay_bind
    (fun _ => trivial) fun existing => ?_
  refine (stays_okOr _ _).stay_bind (fun _ => trivial) fun existing => ?_
  refine (stays_failIf _ _).stay_bind (fun _ => trivial) fun _ => ?_
  refine (stays_checkMatchMode _ _).stay_bind (fun _ => trivial) fun _ => ?_
  exact follows_write_bind fun _ => follows_refreshThenFetch

theorem follows_deleteSensitiveWord (id : Int) :
    Follows (refresher e m) (fun q _ => q.Settled) .idle (deleteSensitiveWord e m id).run := by
  unfold deleteSensitiveWord
  refine follows_write_bind fun rowsAffected => ?_
  by_cases hdeleted : rowsAffected > 0
  · rw [if_pos hdeleted, if_pos (by simpa [Write.refreshes] using hdeleted)]
    exact follows_attempt_bind follows_refreshCache fun q _ hq => .done hq
  · rw [if_neg hdeleted, if_neg (by simpa [Write.refreshes] using hdeleted)]
    exact .done trivial

theorem follows_handle (r : WordRequest) :
    Follows (refresher e m) (fun q _ => q.Settled) .idle (handle e m r).run := by
  cases r with
  | create req => exact follows_createSensitiveWord req
  | update id req => exact follows_updateSensitiveWord id req
  | delete id => exact follows_deleteSensitiveWord id

end Functions

/-! ## Runs -/

/-- The requests that have been started, the table and the filter. -/
abbrev WordPool := Pool WordRequest WordStmt (Option String) WordStore (Except AppError WordResponse)

abbrev WordThread :=
  Thread WordRequest WordStmt (Option String) WordStore (Except AppError WordResponse)

/-- Where the request is with its refresh. -/
def refresherOf (e : Engine) (m : Mysql) (th : WordThread) : Refresher :=
  th.phase fun _ _ => refresher e m

/-- The value is still to be installed by another request than number `i`, from the
rows as they are or from later ones. -/
def owedBeside (e : Engine) (m : Mysql) (c : WordPool) (i : Nat) (part : Part) : Prop :=
  c.OwedBeside (fun _ _ => refresher e m) (filterRefresh e) i part

/-- A step without an error of the database and without a crash. -/
def ErrorFree : Act WordRequest (Option String) Empty → Prop
  | .start _ | .outside _ => True
  | .move _ fault => fault = none
  | .crash _ => False

/-- A statement of request `i` that does not spoil the filter: a value is installed
only from the rows the table has now, or while another request is still to
install it. -/
def TimelyInstall (e : Engine) (m : Mysql) (c : WordPool) (i : Nat) : WordStmt → Prop
  | .install rows part => rows = c.store.table.enabledRows ∨ owedBeside e m c i part
  | _ => True

/-- A step without an error that does not spoil the filter. -/
def InTime (e : Engine) (m : Mysql) (c : WordPool) (a : Act WordRequest (Option String) Empty) :
    Prop :=
  ErrorFree a ∧ match a with
    | .move i _ => ∀ th ∈ c.threads[i]?, ∀ l ∈ th.upcoming, TimelyInstall e m c i l
    | _ => True

instance : DecidablePred ErrorFree
  | .start _ | .outside _ => isTrue trivial
  | .move _ fault => inferInstanceAs (Decidable (fault = none))
  | .crash _ => isFalse id

instance (e : Engine) (q : Refresher) (s : WordStore) (part : Part) :
    Decidable ((filterRefresh e).owes q s part) :=
  inferInstanceAs (Decidable (q.owes s part))

instance (e : Engine) (m : Mysql) (c : WordPool) (i : Nat) : DecidablePred (TimelyInstall e m c i)
  | .install rows part => inferInstanceAs (Decidable (rows = c.store.table.enabledRows ∨
      c.OwedBeside (fun _ _ => refresher e m) (filterRefresh e) i part))
  | .select | .write _ | .selectEnabled => isTrue trivial

instance (e : Engine) (m : Mysql) (c : WordPool) : DecidablePred (InTime e m c)
  | .start _ | .outside _ => inferInstanceAs (Decidable (True ∧ True))
  | .move i fault => inferInstanceAs (Decidable (fault = none ∧
      ∀ th ∈ c.threads[i]?, ∀ l ∈ th.upcoming, TimelyInstall e m c i l))
  | .crash _ => inferInstanceAs (Decidable (False ∧ True))

def Finished (c : WordPool) : Prop := ∀ th ∈ c.threads, th.result.isSome = true

instance (c : WordPool) : Decidable (Finished c) :=
  inferInstanceAs (Decidable (∀ th ∈ c.threads, th.result.isSome = true))

/-- The patterns, the automaton and the exact words are those built from the table. -/
def Installed (e : Engine) (s : WordStore) : Prop :=
  ∀ part, s.BuiltFrom e s.table.enabledRows part

section Runs

variable {e : Engine} {m : Mysql}

/-- What every run keeps: the requests keep to their protocol, and every value of
the filter is up to date or owed. -/
structure WordInv (e : Engine) (m : Mysql) (c : WordPool) : Prop where
  obeys : Obeys (fun _ _ => refresher e m) (fun _ _ q _ => q.Settled) c
  covered : Covered (fun _ _ => refresher e m) (filterRefresh e) c

variable {c : WordPool}

theorem wordInv_step {a : Act WordRequest (Option String) Empty} (h : WordInv e m c)
    (hin : InTime e m c a) : WordInv e m ((wordSystem e m).step c a) := by
  refine ⟨h.obeys.step (fun _ r => follows_handle r) a, ?_⟩
  rcases step_cases (wordSystem e m) h.obeys a with hsame | ⟨r, rfl, -⟩ |
    ⟨i, fault, th, l, w, n, rfl, hth, hlive, hprog, -, hallows, hstep⟩ | ⟨i, th, rfl, -, -⟩ |
    ⟨x, -, -⟩
  · rw [hsame]
    exact h.covered
  · exact h.covered.start _ r
  · obtain ⟨hfault, hinstall⟩ := hin
    have hnone : fault = none := hfault
    subst hnone
    rw [hstep]
    refine h.covered.move hth fun part => ?_
    have hphase : (System.advance th l none c.store (n none c.store)).phase
        (fun _ _ => refresher e m) = (refresherOf e m th).next m l none c.store := by
      rw [phase_advance]
      rfl
    rcases Refresher.stmt_cases hallows part with (hfresh | howes) | ⟨rows, rfl, hstale, htable⟩ |
      ⟨hfresh, howes, htable⟩
    · exact Or.inl (Or.inl hfresh)
    · exact Or.inl (Or.inr ⟨hlive, hphase ▸ howes⟩)
    · have hnext : th.upcoming = some (.install rows part) := by
        simp [Thread.upcoming, hprog]
      have howed : owedBeside e m c i part := (hinstall th hth _ hnext).resolve_left hstale
      exact Or.inr (Or.inl (howed.keep fun q hq => Refresher.owes_congr htable hq))
    · refine Or.inr (Or.inr ⟨hfresh, ?_, fun q hq => Refresher.owes_congr htable hq⟩)
      rintro ⟨-, hq⟩
      exact ⟨hlive, hphase ▸ howes hq⟩
  · exact hin.1.elim
  · exact x.elim

theorem not_owes_of_finished (h : WordInv e m c) (hfinished : Finished c) :
    ∀ th ∈ c.threads, ∀ part, ¬ th.Owes (fun _ _ => refresher e m) (filterRefresh e)
      c.store part := by
  rintro th hmem part ⟨hlive, howes⟩
  have hdone := hfinished th hmem
  have hfollows := h.obeys th hmem
  cases hprog : th.prog with
  | stmt l w n => simp [Thread.result, hlive, hprog] at hdone
  | done a =>
    rw [hprog] at hfollows
    have hsettled := follows_done_iff.mp hfollows
    change (refresherOf e m th).Settled at hsettled
    change (refresherOf e m th).owes c.store part at howes
    cases hq : refresherOf e m th with
    | idle => simp [hq, Refresher.owes] at howes
    | written => simp [hq, Refresher.Settled] at hsettled
    | holding rows left =>
      rw [hq] at hsettled howes
      rw [show left = [] from hsettled] at howes
      exact List.not_mem_nil howes.2

/-- In every run of requests on the sensitive words that starts with the filter
loaded and in which rows that are out of date are installed only while another
request is still to install the value, the filter is the one built from the table
whenever all requests have finished. -/
theorem installed_of_finished {s : WordStore} (hloaded : Installed e s) {c : WordPool}
    (hreach : (wordSystem e m).Reach (InTime e m) { threads := [], store := s } c)
    (hfinished : Finished c) : Installed e c.store := by
  have hinit : WordInv e m { threads := [], store := s } := ⟨nofun, covered_init hloaded⟩
  have hinv : WordInv e m c := hreach.inv hinit fun _ _ h hin => wordInv_step h hin
  exact hinv.covered.fresh (not_owes_of_finished hinv hfinished)

end Runs

/-! ### Two words created at once -/

/-- No regular expressions; an automaton that finds a word where it stands. -/
def plainEngine : Engine where
  regexNew := fun _ => .ok ()
  buildRegex := fun word => some fun text => RustStr.contains text word
  ahoCorasick := fun words => some fun text => words.any fun word => RustStr.contains text word

/-- A table without rows, with its filter. -/
def emptyWords : WordStore :=
  { table := { rows := [], autoIncrement := 1 }
    filter := { patterns := [], ac := none }
    exactWords := [] }

/-- The statements of the two requests, in the order of the requests' numbers. -/
def twoCreates (order : List Nat) : List (Act WordRequest (Option String) Empty) :=
  .start (.create { word := "赌博" }) :: .start (.create { word := "诈骗" }) ::
    order.map fun i => .move i none

def afterCreates (order : List Nat) : WordPool :=
  (wordSystem plainEngine .plain).run { threads := [], store := emptyWords } (twoCreates order)

theorem installed_emptyWords : Installed plainEngine emptyWords := by
  intro part
  cases part <;> rfl

theorem twoCreates_errorFree (order : List Nat) : ∀ a ∈ twoCreates order, ErrorFree a := by
  intro a ha
  simp only [twoCreates, List.mem_cons, List.mem_map] at ha
  rcases ha with rfl | rfl | ⟨i, -, rfl⟩
  · trivial
  · trivial
  · rfl

/-- The first request reads the table before the second one writes and installs what
it read after the second one has installed everything: the filter knows one word, the
table has two. -/
theorem stale_rows_installed_last :
    Installed plainEngine emptyWords ∧
      (∀ a ∈ twoCreates [0, 0, 1, 1, 1, 1, 1, 1, 0, 0, 0, 0], ErrorFree a) ∧
      Finished (afterCreates [0, 0, 1, 1, 1, 1, 1, 1, 0, 0, 0, 0]) ∧
      ¬ (afterCreates [0, 0, 1, 1, 1, 1, 1, 1, 0, 0, 0, 0]).store.BuiltFrom plainEngine
        (afterCreates [0, 0, 1, 1, 1, 1, 1, 1, 0, 0, 0, 0]).store.table.enabledRows .patterns ∧
      ¬ (afterCreates [0, 0, 1, 1, 1, 1, 1, 1, 0, 0, 0, 0]).store.BuiltFrom plainEngine
        (afterCreates [0, 0, 1, 1, 1, 1, 1, 1, 0, 0, 0, 0]).store.table.enabledRows .ac := by
  refine ⟨installed_emptyWords, twoCreates_errorFree _, by decide +kernel, ?_, ?_⟩
  · intro hbuilt
    have hlen := congrArg List.length hbuilt
    revert hlen
    decide +kernel
  · intro hbuilt
    have hfound := congrArg (fun ac => ac.any fun found => found "电信诈骗") hbuilt
    revert hfound
    decide +kernel

/-- Where the second request is still to install, stale rows do no harm. -/
theorem installed_after_overlap :
    Finished (afterCreates [0, 0, 1, 1, 0, 1, 0, 0, 1, 1, 0, 1]) ∧
      Installed plainEngine (afterCreates [0, 0, 1, 1, 0, 1, 0, 0, 1, 1, 0, 1]).store := by
  have hmeets : (wordSystem plainEngine .plain).Meets (InTime plainEngine .plain)
      { threads := [], store := emptyWords } (twoCreates [0, 0, 1, 1, 0, 1, 0, 0, 1, 1, 0, 1]) := by
    decide +kernel
  have hfinished : Finished (afterCreates [0, 0, 1, 1, 0, 1, 0, 0, 1, 1, 0, 1]) := by
    decide +kernel
  exact ⟨hfinished, installed_of_finished installed_emptyWords (System.reach_run hmeets) hfinished⟩

end HiveClaw.SensitiveWords
