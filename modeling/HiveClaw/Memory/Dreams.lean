import HiveClaw.Memory.Store
import Mathlib.Data.List.Pairwise

/-!
# Entries that are dreamed before they go

An entry of the history should leave it, or be passed over by the dream cursor, only after a
completed dream has processed it (`Kept`). The cursor keeps to that, but `compact_history`
drops the oldest entries by their number, whether or not they were dreamed, and it runs after
incomplete dreams too (`undreamed_dropped`). As long as there are never more unprocessed
entries than the history may hold when it is compacted, no entry is lost (`kept_of_spares`).
-/

namespace HiveClaw.Memory

def cursorOf (entry : Json) : Int := (validCursor entry).getD 0

/-- An entry that is gone or passed over was in the batch of a completed dream. -/
def Kept (env : HistoryEnv) (h : History) : Prop :=
  ∀ e ∈ h.appended,
    (e ∉ h.store.readEntries env ∨ ∃ c, validCursor e = some c ∧ c ≤ h.store.lastDreamCursor) →
      e ∈ h.dreamed

/-- The history may hold all entries that are not processed. -/
def HoldsUnprocessed (env : HistoryEnv) (m : MemoryStore) : Prop :=
  m.maxHistoryEntries = 0 ∨
    (m.readUnprocessedHistory env m.lastDreamCursor).length ≤ m.maxHistoryEntries

instance (env : HistoryEnv) (m : MemoryStore) : Decidable (HoldsUnprocessed env m) :=
  inferInstanceAs (Decidable (_ ∨ _))

/-- The store of a dream when it compacts the history. -/
def advanced (m : MemoryStore) (b : Batch) (stopReason : String) (cursorEnds : WriteEnd) :
    MemoryStore :=
  if stopReason = "completed" then m.setLastDreamCursor b.lastCursor cursorEnds else m

/-- The step appends a whole entry and its cursor or nothing, and compacts the history only
if it may hold all entries that are not processed. -/
def Spares (env : HistoryEnv) (h : History) : Act → Prop
  | .append _ _ _ ends =>
    match ends with
    | .notOpened => True
    | .torn _ => False
    | .appended e => e = .written ∧ h.store.nextCursor env < 2 ^ 63
  | .compact _ => HoldsUnprocessed env h.store
  | .beginDream => True
  | .endDream i ends =>
    match ends, h.dreams[i]? with
    | .ran stopReason cursorEnds _, some b =>
      HoldsUnprocessed env (advanced h.store b stopReason cursorEnds)
    | _, _ => True

/-- Every step of the run meets the condition. -/
def SparesAll (env : HistoryEnv) : History → List Act → Prop
  | _, [] => True
  | h, a :: acts => Spares env h a ∧ SparesAll env (h.step env a) acts

instance (env : HistoryEnv) (h : History) (a : Act) : Decidable (Spares env h a) :=
  match a with
  | .append _ _ _ .notOpened | .beginDream | .endDream _ .phase1Error => isTrue trivial
  | .append _ _ _ (.torn _) => isFalse id
  | .append _ _ _ (.appended e) =>
    inferInstanceAs (Decidable (e = .written ∧ h.store.nextCursor env < 2 ^ 63))
  | .compact _ => inferInstanceAs (Decidable (HoldsUnprocessed env h.store))
  | .endDream i (.ran stopReason cursorEnds compactWrites) =>
    match hb : h.dreams[i]? with
    | some b => decidable_of_iff (HoldsUnprocessed env (advanced h.store b stopReason cursorEnds))
        (by simp only [Spares, hb])
    | none => isTrue (by simp only [Spares, hb])

instance instDecidableSparesAll (env : HistoryEnv) :
    ∀ (h : History) (acts : List Act), Decidable (SparesAll env h acts)
  | _, [] => isTrue trivial
  | h, a :: acts =>
    have : Decidable (SparesAll env (h.step env a) acts) := instDecidableSparesAll env _ acts
    inferInstanceAs (Decidable (Spares env h a ∧ SparesAll env (h.step env a) acts))

/-- `serde_json` reads the record as it wrote it, which is not a blank line. -/
def ReadsBack (env : HistoryEnv) (e : Json) : Prop :=
  env.fromJson (env.toJson e) = some e ∧ RustStr.trim (env.toJson e) ≠ ""

/-! ## Files of records -/

/-- The last cursor that was given out. -/
def MemoryStore.lastCursor (m : MemoryStore) : Int := m.cursorFile.getD 0

/-- A record with a cursor that was given out. -/
def IsRecord (last : Int) (e : Json) : Prop :=
  ∃ (c : Int) (t s : String), e = historyRecord c t s ∧ 1 ≤ c ∧ c ≤ last ∧ c < 2 ^ 63

theorem validCursor_historyRecord {c : Int} (t s : String) (hlow : -2 ^ 63 ≤ c) (h : c < 2 ^ 63) :
    validCursor (historyRecord c t s) = some c := by
  show Json.asI64 (.num (.int c)) = some c
  rw [Json.asI64, if_pos ⟨hlow, h⟩]

variable {e : Json}

theorem IsRecord.validCursor {last : Int} (h : IsRecord last e) :
    validCursor e = some (cursorOf e) ∧ 1 ≤ cursorOf e ∧ cursorOf e ≤ last := by
  obtain ⟨c, t, s, rfl, hpos, hle, hlt⟩ := h
  have hcursor := validCursor_historyRecord t s (by omega) hlt
  unfold cursorOf
  rw [hcursor]
  exact ⟨rfl, hpos, hle⟩

theorem IsRecord.mono {last last' : Int} (h : IsRecord last e) (hle : last ≤ last') :
    IsRecord last' e := by
  obtain ⟨c, t, s, he, hpos, hc, hlt⟩ := h
  exact ⟨c, t, s, he, hpos, hc.trans hle, hlt⟩

/-- The history file holds the records, each on a line of its own, with increasing cursors. -/
structure Holds (env : HistoryEnv) (m : MemoryStore) (records : List Json) : Prop where
  lines : m.lines = records.map env.toJson
  tail : m.tail = ""
  reads : ∀ e ∈ records, ReadsBack env e
  genuine : ∀ e ∈ records, IsRecord m.lastCursor e
  increasing : records.Pairwise fun e e' => cursorOf e < cursorOf e'

section Holds

variable {env : HistoryEnv} {m : MemoryStore} {records : List Json}

theorem readEntries_of_lines (hlines : m.lines = records.map env.toJson) (htail : m.tail = "")
    (hreads : ∀ e ∈ records, ReadsBack env e) : m.readEntries env = records := by
  have htext : m.textLines = records.map env.toJson := by
    unfold MemoryStore.textLines
    rw [hlines, htail, if_pos rfl, List.append_nil]
  unfold MemoryStore.readEntries
  rw [htext, List.filter_eq_self.mpr, List.filterMap_map]
  · have hsome : ∀ e ∈ records, (env.fromJson ∘ env.toJson) e = some e := fun e he => (hreads e he).1
    rw [List.filterMap_congr hsome, List.filterMap_some]
  · intro line hline
    obtain ⟨e, he, rfl⟩ := List.mem_map.mp hline
    exact decide_eq_true (hreads e he).2

theorem Holds.readEntries (h : Holds env m records) : m.readEntries env = records :=
  readEntries_of_lines h.lines h.tail h.reads

theorem Holds.readUnprocessedHistory (h : Holds env m records) (d : Int) :
    m.readUnprocessedHistory env d = records.filter fun e => cursorOf e > d := by
  have hvalid : m.validEntries env = records.map fun e => (e, cursorOf e) := by
    unfold MemoryStore.validEntries
    rw [h.readEntries, ← List.filterMap_eq_map]
    apply List.filterMap_congr
    intro e he
    rw [(h.genuine e he).validCursor.1]
    rfl
  unfold MemoryStore.readUnprocessedHistory
  rw [hvalid, List.filter_map, List.map_map]
  exact List.map_id _

theorem Holds.compactHistory (h : Holds env m records) (hholds : HoldsUnprocessed env m) (writes : Bool) :
    ∃ kept, Holds env (m.compactHistory env writes) kept ∧ kept ⊆ records ∧
      ∀ e ∈ records, e ∈ kept ∨ cursorOf e ≤ m.lastDreamCursor := by
  unfold MemoryStore.compactHistory
  rw [h.readEntries]
  dsimp only
  split
  case isTrue => exact ⟨records, h, List.Subset.refl _, fun e he => .inl he⟩
  case isFalse hbig =>
    simp only [Bool.or_eq_true, decide_eq_true_eq, not_or] at hbig
    obtain ⟨⟨hmax, hlength⟩, -⟩ := hbig
    have hcount := hholds.resolve_left hmax
    rw [h.readUnprocessedHistory] at hcount
    refine ⟨records.drop (records.length - m.maxHistoryEntries), ⟨rfl, rfl, ?_, ?_, ?_⟩,
      List.drop_subset _ _, ?_⟩
    · intro e he
      exact h.reads e (List.mem_of_mem_drop he)
    · intro e he
      exact h.genuine e (List.mem_of_mem_drop he)
    · exact h.increasing.sublist (List.drop_sublist _ _)
    · intro e he
      rw [← List.take_append_drop (records.length - m.maxHistoryEntries) records] at he
      rcases List.mem_append.mp he with htake | hdrop
      · right
        by_contra hgt
        -- then all the kept records and this one are unprocessed
        have hincreasing := h.increasing
        rw [← List.take_append_drop (records.length - m.maxHistoryEntries) records] at hincreasing
        have hlater := (List.pairwise_append.mp hincreasing).2.2 e htake
        have hdropped : ((records.drop (records.length - m.maxHistoryEntries)).filter
            fun e => cursorOf e > m.lastDreamCursor) =
              records.drop (records.length - m.maxHistoryEntries) := by
          rw [List.filter_eq_self]
          intro e' he'
          have hlt := hlater e' he'
          exact decide_eq_true (by omega)
        have hone : 0 < ((records.take (records.length - m.maxHistoryEntries)).filter
            fun e => cursorOf e > m.lastDreamCursor).length := by
          apply List.length_pos_of_mem (a := e)
          exact List.mem_filter.mpr ⟨htake, decide_eq_true (by omega)⟩
        rw [← List.take_append_drop (records.length - m.maxHistoryEntries) records,
          List.filter_append, List.length_append, hdropped, List.length_drop] at hcount
        omega
      · exact .inl hdrop

theorem Holds.nextCursor (h : Holds env m records)
    (hnone : m.cursorFile = none → records = []) : m.nextCursor env = m.lastCursor + 1 := by
  unfold MemoryStore.nextCursor MemoryStore.lastCursor
  cases hfile : m.cursorFile with
  | some v => rfl
  | none =>
    have hempty := hnone hfile
    have hlines : m.lines = [] := by rw [h.lines, hempty, List.map_nil]
    have hlast : m.readLastEntry env = none := by
      unfold MemoryStore.readLastEntry MemoryStore.lastBytes
      rw [hlines, h.tail]
      rfl
    have hentries : m.validEntries env = [] := by
      unfold MemoryStore.validEntries
      rw [h.readEntries, hempty, List.filterMap_nil]
    rw [hlast, hentries]
    rfl

end Holds

/-! ## The invariant -/

/-- What holds in a run that spares the unprocessed entries. -/
structure Inv (env : HistoryEnv) (h : History) (records : List Json) : Prop where
  holds : Holds env h.store records
  genuine : ∀ e ∈ h.appended, IsRecord h.store.lastCursor e
  fresh : h.store.cursorFile = none → h.appended = []
  nonneg : 0 ≤ h.store.lastCursor
  present : ∀ e ∈ records, e ∈ h.appended
  kept : ∀ e ∈ h.appended, e ∈ records ∨ e ∈ h.dreamed
  passed : ∀ e ∈ h.appended, cursorOf e ≤ h.store.lastDreamCursor → e ∈ h.dreamed
  dreamCursor : h.store.lastDreamCursor ≤ h.store.lastCursor
  pending : ∀ b ∈ h.dreams, b.lastCursor ≤ h.store.lastCursor ∧
    ∀ e ∈ h.appended, cursorOf e ≤ b.lastCursor → e ∈ h.dreamed ∨ e ∈ b.entries

section Steps

variable {env : HistoryEnv} {h : History} {records : List Json}

theorem Inv.toKept (hinv : Inv env h records) : Kept env h := by
  intro e he hgone
  rcases hgone with hgone | ⟨c, hc, hle⟩
  · rw [hinv.holds.readEntries] at hgone
    exact (hinv.kept e he).resolve_left hgone
  · apply hinv.passed e he
    unfold cursorOf
    rw [hc]
    exact hle

theorem cursorOf_historyRecord {c : Int} (t s : String) (hlow : -2 ^ 63 ≤ c) (h : c < 2 ^ 63) :
    cursorOf (historyRecord c t s) = c := by
  rw [cursorOf, validCursor_historyRecord t s hlow h]
  rfl

theorem Inv.append (hinv : Inv env h records) (timestamp entry : String) (maxChars : Option Nat)
    (hreads : ReadsBack env (h.store.recordFor env timestamp entry maxChars))
    (hbound : h.store.nextCursor env < 2 ^ 63) :
    Inv env (h.step env (.append timestamp entry maxChars (.appended .written)))
      (records ++ [h.store.recordFor env timestamp entry maxChars]) := by
  -- the cursor file is up to date, so the new cursor is the next number
  have hnext : h.store.nextCursor env = h.store.lastCursor + 1 := by
    apply hinv.holds.nextCursor
    intro hnone
    apply List.eq_nil_iff_forall_not_mem.mpr
    intro e he
    have hmem := hinv.present e he
    rw [hinv.fresh hnone] at hmem
    cases hmem
  have hnonneg := hinv.nonneg
  have hcursor : cursorOf (h.store.recordFor env timestamp entry maxChars) =
      h.store.lastCursor + 1 := by
    rw [← hnext]
    exact cursorOf_historyRecord _ _ (by omega) hbound
  have hrecord : IsRecord (h.store.nextCursor env)
      (h.store.recordFor env timestamp entry maxChars) :=
    ⟨_, _, _, rfl, by omega, le_refl _, hbound⟩
  have hlast : h.store.lastCursor ≤ h.store.nextCursor env := by omega
  constructor
  · constructor
    · show h.store.lines ++ [h.store.tail ++ _] = _
      rw [hinv.holds.lines, hinv.holds.tail, List.map_append, String.empty_append]
      rfl
    · rfl
    · intro e he
      rcases List.mem_append.mp he with he | he
      · exact hinv.holds.reads e he
      · rw [List.mem_singleton.mp he]
        exact hreads
    · intro e he
      rcases List.mem_append.mp he with he | he
      · exact (hinv.holds.genuine e he).mono hlast
      · rw [List.mem_singleton.mp he]
        exact hrecord
    · -- the new cursor is above all others
      rw [List.pairwise_append]
      refine ⟨hinv.holds.increasing, List.pairwise_singleton _ _, ?_⟩
      intro e he e' he'
      rw [List.mem_singleton.mp he', hcursor]
      have hle := (hinv.holds.genuine e he).validCursor.2.2
      omega
  · intro e he
    rcases List.mem_append.mp he with he | he
    · exact (hinv.genuine e he).mono hlast
    · rw [List.mem_singleton.mp he]
      exact hrecord
  · intro hnone
    cases hnone
  · exact hnonneg.trans hlast
  · intro e he
    rcases List.mem_append.mp he with he | he
    · exact List.mem_append_left _ (hinv.present e he)
    · exact List.mem_append_right _ he
  · intro e he
    rcases List.mem_append.mp he with he | he
    · exact (hinv.kept e he).imp_left (List.mem_append_left _)
    · exact .inl (List.mem_append_right _ he)
  · -- the dream cursor is behind the new entry
    intro e he hle
    rcases List.mem_append.mp he with he | he
    · exact hinv.passed e he hle
    · rw [List.mem_singleton.mp he, hcursor] at hle
      have hdream := hinv.dreamCursor
      change _ ≤ h.store.lastDreamCursor at hle
      omega
  · exact hinv.dreamCursor.trans hlast
  · -- and so is every batch that a dream has read
    intro b hb
    obtain ⟨hle, hentries⟩ := hinv.pending b hb
    refine ⟨hle.trans hlast, fun e he hcur => ?_⟩
    rcases List.mem_append.mp he with he | he
    · exact hentries e he hcur
    · rw [List.mem_singleton.mp he, hcursor] at hcur
      omega

theorem cursors_compactHistory (m : MemoryStore) (writes : Bool) :
    (m.compactHistory env writes).cursorFile = m.cursorFile ∧
      (m.compactHistory env writes).dreamCursorFile = m.dreamCursorFile := by
  unfold MemoryStore.compactHistory
  dsimp only
  split
  · exact ⟨rfl, rfl⟩
  · exact ⟨rfl, rfl⟩

theorem Inv.compact (hinv : Inv env h records) (hholds : HoldsUnprocessed env h.store) (writes : Bool) :
    ∃ kept, Inv env { h with store := h.store.compactHistory env writes } kept := by
  obtain ⟨kept, hkept, hsub, hdropped⟩ := hinv.holds.compactHistory hholds writes
  obtain ⟨hcursor, hdream⟩ := @cursors_compactHistory env h.store writes
  have hlast : (h.store.compactHistory env writes).lastCursor = h.store.lastCursor := by
    unfold MemoryStore.lastCursor
    rw [hcursor]
  have hpassed : (h.store.compactHistory env writes).lastDreamCursor = h.store.lastDreamCursor := by
    unfold MemoryStore.lastDreamCursor
    rw [hdream]
  refine ⟨kept, hkept, ?_, ?_, ?_, fun e he => hinv.present e (hsub he), ?_, ?_, ?_, ?_⟩
  · rw [hlast]
    exact hinv.genuine
  · rw [hcursor]
    exact hinv.fresh
  · rw [hlast]
    exact hinv.nonneg
  · intro e he
    rcases hinv.kept e he with hrecord | hdreamed
    · exact (hdropped e hrecord).imp_right (hinv.passed e he)
    · exact .inr hdreamed
  · rw [hpassed]
    exact hinv.passed
  · rw [hpassed, hlast]
    exact hinv.dreamCursor
  · rw [hlast]
    exact hinv.pending

theorem lastDreamCursor_set (m : MemoryStore) (cursor : Int) (ends : WriteEnd) :
    (m.setLastDreamCursor cursor ends).lastDreamCursor = cursor ∨
      (m.setLastDreamCursor cursor ends).lastDreamCursor = m.lastDreamCursor ∨
      (m.setLastDreamCursor cursor ends).lastDreamCursor = 0 := by
  cases ends with
  | written => exact .inl rfl
  | failed => exact .inr (.inl rfl)
  | truncated => exact .inr (.inr rfl)

theorem Inv.incomplete (hinv : Inv env h records) (i : Nat) :
    Inv env { h with dreams := h.dreams.eraseIdx i } records :=
  { hinv with pending := fun b hb => hinv.pending b (List.mem_of_mem_eraseIdx hb) }

theorem Inv.complete (hinv : Inv env h records) {i : Nat} {b : Batch} (hb : h.dreams[i]? = some b)
    (cursorEnds : WriteEnd) :
    Inv env
      { h with
        store := h.store.setLastDreamCursor b.lastCursor cursorEnds
        dreams := h.dreams.eraseIdx i
        dreamed := h.dreamed ++ b.entries }
      records := by
  obtain ⟨hlast, hentries⟩ := hinv.pending b (List.mem_of_getElem? hb)
  have hcases := lastDreamCursor_set h.store b.lastCursor cursorEnds
  refine ⟨⟨hinv.holds.lines, hinv.holds.tail, hinv.holds.reads, hinv.holds.genuine,
      hinv.holds.increasing⟩,
    hinv.genuine, hinv.fresh, hinv.nonneg, hinv.present, ?_, ?_, ?_, ?_⟩
  · intro e he
    exact (hinv.kept e he).imp_right (List.mem_append_left _)
  · intro e he hle
    rcases hcases with heq | heq | heq
    · rw [heq] at hle
      exact List.mem_append.mpr (hentries e he hle)
    · rw [heq] at hle
      exact List.mem_append_left _ (hinv.passed e he hle)
    · rw [heq] at hle
      have hpos := (hinv.genuine e he).validCursor.2.1
      omega
  · show (h.store.setLastDreamCursor b.lastCursor cursorEnds).lastDreamCursor ≤ h.store.lastCursor
    rcases hcases with heq | heq | heq
    · rw [heq]
      exact hlast
    · rw [heq]
      exact hinv.dreamCursor
    · rw [heq]
      exact hinv.nonneg
  · intro b' hb'
    obtain ⟨hle, hentries'⟩ := hinv.pending b' (List.mem_of_mem_eraseIdx hb')
    exact ⟨hle, fun e he hcur => (hentries' e he hcur).imp_left (List.mem_append_left _)⟩

/-- In a list with increasing cursors, what is not above the last of the first `n` is among
them. -/
theorem mem_take_of_le {l : List Json} (hl : l.Pairwise fun e e' => cursorOf e < cursorOf e')
    {n : Nat} {last e : Json} (hlast : (l.take n).getLast? = some last) (he : e ∈ l)
    (hle : cursorOf e ≤ cursorOf last) : e ∈ l.take n := by
  rw [← List.take_append_drop n l] at he hl
  rcases List.mem_append.mp he with htake | hdrop
  · exact htake
  · have hlt := (List.pairwise_append.mp hl).2.2 last (List.mem_of_getLast? hlast) e hdrop
    omega

theorem Inv.beginDream (hinv : Inv env h records) :
    Inv env (h.step env .beginDream) records := by
  refine { hinv with pending := fun b hb => ?_ }
  rcases List.mem_append.mp hb with hb | hb
  · exact hinv.pending b hb
  unfold Memory.beginDream at hb
  dsimp only at hb
  rw [hinv.holds.readUnprocessedHistory] at hb
  split at hb
  · cases hb
  rw [List.mem_singleton.mp hb]
  -- entries up to the old cursor are dreamed, the others up to the new one are in the batch
  have hold (e : Json) (he : e ∈ h.appended) : e ∈ h.dreamed ∨
      e ∈ records.filter fun e => cursorOf e > h.store.lastDreamCursor := by
    rcases hinv.kept e he with hrecord | hdreamed
    · by_cases hgt : cursorOf e > h.store.lastDreamCursor
      · exact .inr (List.mem_filter.mpr ⟨hrecord, decide_eq_true hgt⟩)
      · exact .inl (hinv.passed e he (Int.not_lt.mp hgt))
    · exact .inl hdreamed
  generalize hunprocessed : (records.filter fun e => cursorOf e > h.store.lastDreamCursor) =
    unprocessed at hold
  have hincreasing : unprocessed.Pairwise fun e e' => cursorOf e < cursorOf e' := by
    rw [← hunprocessed]
    exact hinv.holds.increasing.sublist List.filter_sublist
  dsimp only
  cases hlast : (unprocessed.take (min unprocessed.length env.maxBatchSize)).getLast? with
  | none =>
    exact ⟨hinv.dreamCursor, fun e he hle => .inl (hinv.passed e he hle)⟩
  | some last =>
    have hmem : last ∈ records := by
      have htake := List.mem_of_mem_take (List.mem_of_getLast? hlast)
      rw [← hunprocessed] at htake
      exact List.mem_of_mem_filter htake
    obtain ⟨hcursor, -, hle⟩ := (hinv.holds.genuine last hmem).validCursor
    rw [Option.bind_some, hcursor, Option.getD_some]
    refine ⟨hle, fun e he hcur => ?_⟩
    exact (hold e he).imp_right fun hmem => mem_take_of_le hincreasing hlast hmem hcur

theorem Inv.step (hinv : Inv env h records) {a : Act} (ha : Spares env h a)
    (hreads : ∀ e ∈ (h.step env a).appended, ReadsBack env e) : ∃ records', Inv env (h.step env a) records' := by
  cases a with
  | append timestamp entry maxChars ends =>
    cases ends with
    | notOpened => exact ⟨records, hinv⟩
    | torn chars => exact ha.elim
    | appended e =>
      obtain ⟨rfl, hbound⟩ := ha
      exact ⟨_, hinv.append timestamp entry maxChars
        (hreads _ (List.mem_append_right _ List.mem_cons_self)) hbound⟩
  | compact writes => exact hinv.compact ha writes
  | beginDream => exact ⟨records, hinv.beginDream⟩
  | endDream i ends =>
    simp only [History.step]
    cases hb : h.dreams[i]? with
    | none => exact ⟨records, hinv⟩
    | some b =>
      cases ends with
      | phase1Error => exact ⟨records, hinv.incomplete i⟩
      | ran stopReason cursorEnds compactWrites =>
        simp only [Spares, hb] at ha
        have hholds : HoldsUnprocessed env (advanced h.store b stopReason cursorEnds) := ha
        unfold advanced at hholds
        by_cases hcompleted : stopReason = "completed"
        · rw [if_pos hcompleted] at hholds
          obtain ⟨kept, hkept⟩ := (hinv.complete hb cursorEnds).compact hholds compactWrites
          refine ⟨kept, ?_⟩
          simp only [Memory.endDream, DreamEnd.completed, hcompleted, decide_true, if_true]
          exact hkept
        · rw [if_neg hcompleted] at hholds
          obtain ⟨kept, hkept⟩ := (hinv.incomplete i).compact hholds compactWrites
          refine ⟨kept, ?_⟩
          simp only [Memory.endDream, DreamEnd.completed, hcompleted, decide_false, if_false,
            Bool.false_eq_true]
          exact hkept

end Steps

theorem appended_subset_step (env : HistoryEnv) (h : History) (a : Act) :
    h.appended ⊆ (h.step env a).appended := by
  cases a with
  | append timestamp entry maxChars ends =>
    cases ends with
    | appended e => exact List.subset_append_left _ _
    | notOpened => exact List.Subset.refl _
    | torn chars => exact List.Subset.refl _
  | compact writes => exact List.Subset.refl _
  | beginDream => exact List.Subset.refl _
  | endDream i ends =>
    simp only [History.step]
    split
    · exact List.Subset.refl _
    · exact List.Subset.refl _

theorem appended_subset_run (env : HistoryEnv) (h : History) (acts : List Act) :
    h.appended ⊆ (h.run env acts).appended := by
  induction acts generalizing h with
  | nil => exact List.Subset.refl _
  | cons a acts ih => exact List.Subset.trans (appended_subset_step env h a) (ih _)

theorem Inv.run {env : HistoryEnv} {h : History} {records : List Json} {acts : List Act}
    (hinv : Inv env h records) (hacts : SparesAll env h acts)
    (hreads : ∀ e ∈ (h.run env acts).appended, ReadsBack env e) :
    ∃ records', Inv env (h.run env acts) records' := by
  induction acts generalizing h records with
  | nil => exact ⟨records, hinv⟩
  | cons a acts ih =>
    obtain ⟨records', hinv'⟩ := hinv.step hacts.1 fun e he =>
      hreads e (appended_subset_run env (h.step env a) acts he)
    exact ih hinv' hacts.2 hreads

def History.fresh (maxHistoryEntries : Nat) : History := { store := { maxHistoryEntries } }

theorem Inv.init (env : HistoryEnv) (maxHistoryEntries : Nat) :
    Inv env (.fresh maxHistoryEntries) [] where
  holds := ⟨rfl, rfl, nofun, nofun, List.Pairwise.nil⟩
  genuine := nofun
  fresh := fun _ => rfl
  nonneg := le_refl _
  present := nofun
  kept := nofun
  passed := nofun
  dreamCursor := le_refl _
  pending := nofun

/-- **No entry is lost undreamed** in a run from a fresh store whose appends write their entry
and cursor or nothing and whose compactions may keep all unprocessed entries. -/
theorem kept_of_spares {env : HistoryEnv} {maxHistoryEntries : Nat} {acts : List Act}
    (hacts : SparesAll env (.fresh maxHistoryEntries) acts)
    (hreads : ∀ e ∈ ((History.fresh maxHistoryEntries).run env acts).appended, ReadsBack env e) :
    Kept env ((History.fresh maxHistoryEntries).run env acts) := by
  obtain ⟨records, hinv⟩ := (Inv.init env maxHistoryEntries).run hacts hreads
  exact hinv.toKept

/-! ## Two entries and room for one -/

def newYear : String := "2026-01-01 00:00"

def noteRecord (cursor : Int) (content : String) : Json := historyRecord cursor newYear content

/-- The line of a record with that time. -/
def noteLine (e : Json) : String :=
  "\x7b\"cursor\":" ++ toString (cursorOf e) ++ ",\"timestamp\":\"" ++ newYear ++
    "\",\"content\":\"" ++ (e.getStr "content").getD "" ++ "\"\x7d"

/-- A reader and writer of two records. -/
def notesEnv : HistoryEnv where
  toJson := noteLine
  fromJson := fun line =>
    [noteRecord 1 "first", noteRecord 2 "second"].find? fun e => noteLine e = line
  stripThink := fun s => s
  maxBatchSize := 20

/-- Two entries, and a dream that ends with the given stop reason. -/
def twoNotes (stopReason : String) : List Act :=
  [.append newYear "first" none (.appended .written),
    .append newYear "second" none (.appended .written),
    .beginDream,
    .endDream 0 (.ran stopReason .written true)]

/-- With room for one entry, an incomplete dream drops the first one. -/
theorem undreamed_dropped :
    ¬ Kept notesEnv ((History.fresh 1).run notesEnv (twoNotes "max_iterations")) := by
  intro h
  have happended : noteRecord 1 "first" ∈
      ((History.fresh 1).run notesEnv (twoNotes "max_iterations")).appended := by decide +kernel
  have hgone : noteRecord 1 "first" ∉ ((History.fresh 1).run notesEnv
      (twoNotes "max_iterations")).store.readEntries notesEnv := by decide +kernel
  have hdreamed : noteRecord 1 "first" ∉
      ((History.fresh 1).run notesEnv (twoNotes "max_iterations")).dreamed := by decide +kernel
  exact hdreamed (h _ happended (.inl hgone))

/-- A completed dream may drop it. -/
theorem kept_twoNotes :
    SparesAll notesEnv (.fresh 1) (twoNotes "completed") ∧
      Kept notesEnv ((History.fresh 1).run notesEnv (twoNotes "completed")) := by
  have hspares : SparesAll notesEnv (.fresh 1) (twoNotes "completed") := by decide +kernel
  have hreads : ∀ e ∈ ((History.fresh 1).run notesEnv (twoNotes "completed")).appended,
      notesEnv.fromJson (notesEnv.toJson e) = some e ∧
        RustStr.trim (notesEnv.toJson e) ≠ "" := by decide +kernel
  exact ⟨hspares, kept_of_spares hspares hreads⟩

end HiveClaw.Memory
