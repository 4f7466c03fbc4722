import HiveClaw.Lib.Runs
import HiveClaw.Memory.Dreams

/-!
# The cursors of the history

`append_history` writes an entry and then its cursor; a crash in between leaves the cursor file
behind the history, and the next entry takes the cursor of the last one again
(`not_sound_afterCrash`). A cursor file that is missing does no harm: the cursor is then found in
the history itself, in its last bytes or among all entries (`LogOf.lt_nextCursor`). The cursors
increase exactly in the runs in which every append finds a cursor file that is missing or not behind
(`increasing_iff_fresh`).
-/

namespace HiveClaw.Memory

/-- The step of a store whose process may crash: the cursor of an entry is written, torn or not
written, the cursor file gets lost, and the history is compacted. -/
inductive CrashStep where
  | append (timestamp entry : String) (maxChars : Option Nat) (cursor : WriteEnd)
  | loseCursorFile
  | compact (writes : Bool)

def History.crashStep (env : HistoryEnv) (h : History) : CrashStep → History
  | .append timestamp entry maxChars cursor =>
    h.step env (.append timestamp entry maxChars (.appended cursor))
  | .loseCursorFile => { h with store := { h.store with cursorFile := none } }
  | .compact writes => h.step env (.compact writes)

/-- The cursors of the entries, in file order. -/
def MemoryStore.cursors (env : HistoryEnv) (m : MemoryStore) : List Int :=
  (m.validEntries env).map Prod.snd

/-- The cursor that is due is one of 64 bits. -/
def Fits (env : HistoryEnv) (h : History) : CrashStep → Prop
  | .append .. => h.store.nextCursor env < 2 ^ 63
  | _ => True

/-- The step gives no cursor beyond 64 bits, and the cursors increase after it. -/
def SoundStep (env : HistoryEnv) (h : History) (a : CrashStep) : Prop :=
  Fits env h a ∧ ((h.crashStep env a).store.cursors env).Pairwise (· < ·)

/-- The cursor file is missing or not behind the history. -/
def NotBehind (env : HistoryEnv) (m : MemoryStore) : Prop :=
  ∀ v, m.cursorFile = some v → ∀ c ∈ m.cursors env, c ≤ v

/-- An append finds a cursor file that is missing or not behind the history. -/
def FreshStep (env : HistoryEnv) (h : History) (a : CrashStep) : Prop :=
  Fits env h a ∧
    match a with
    | .append .. => NotBehind env h.store
    | _ => True

/-- What `serde_json` makes of a record: a line that is read as the record, and of which no rest
is an entry with a cursor. -/
structure RecordLine (env : HistoryEnv) (e : Json) : Prop where
  reads : ReadsBack env e
  oneLine : '\n' ∉ (env.toJson e).toList
  rest : ∀ front rest, front ≠ [] → front ++ rest = (env.toJson e).toList →
    (env.fromJson (String.ofList rest)).bind validCursor = none

/-! ## The last line of the last bytes -/

theorem find_lastLine {front line : List Char} (hline : '\n' ∉ line)
    (hfront : front = [] ∨ ∃ before, front = before ++ ['\n'])
    (hblank : RustStr.trim (String.ofList line) ≠ "") :
    (((front ++ (line ++ ['\n'])).splitOn '\n').map String.ofList).reverse.find?
        (fun text => RustStr.trim text ≠ "") = some (String.ofList line) := by
  have hlast : (line ++ ['\n']).splitOn '\n' = [line, []] := by
    rw [List.splitOn_append_cons_self_of_not_mem hline, List.splitOn_nil]
  have hsplit : ∃ before, (front ++ (line ++ ['\n'])).splitOn '\n' = before ++ [line, []] := by
    rcases hfront with rfl | ⟨before, rfl⟩
    · exact ⟨[], hlast⟩
    · rw [List.append_assoc, List.singleton_append, List.splitOn_append_cons_self, hlast]
      exact ⟨_, rfl⟩
  obtain ⟨before, hsplit⟩ := hsplit
  have hempty : ¬ RustStr.trim (String.ofList []) ≠ "" := by decide
  rw [hsplit, List.map_append, List.reverse_append]
  show List.find? _ (String.ofList [] :: String.ofList line :: _) = _
  rw [List.find?_cons_of_neg (by simpa using hempty), List.find?_cons_of_pos (by simpa using hblank)]

theorem find_cutLine {line : List Char} (hline : '\n' ∉ line) {text : String}
    (h : (((line ++ ['\n']).splitOn '\n').map String.ofList).reverse.find?
      (fun text => RustStr.trim text ≠ "") = some text) : text = String.ofList line := by
  rw [List.splitOn_append_cons_self_of_not_mem hline, List.splitOn_nil] at h
  have hmem := List.mem_of_find?_eq_some h
  have hblank := List.find?_some h
  rw [List.mem_reverse, List.map_cons, List.map_cons, List.map_nil, List.mem_cons,
    List.mem_singleton] at hmem
  rcases hmem with hmem | rfl
  · exact hmem
  · exact absurd hblank (by decide)

theorem find_noLine : ((([] : List Char).splitOn '\n').map String.ofList).reverse.find?
    (fun text => RustStr.trim text ≠ "") = none := by decide

/-! ## Files of records -/

/-- The history file holds the records, each on a line of its own. -/
structure FileOf (env : HistoryEnv) (m : MemoryStore) (records : List Json) : Prop where
  lines : m.lines = records.map env.toJson
  tail : m.tail = ""
  recordLines : ∀ e ∈ records, RecordLine env e
  cursors : ∀ e ∈ records, validCursor e = some (cursorOf e) ∧ 1 ≤ cursorOf e

/-- The cursors of the records increase. -/
structure LogOf (env : HistoryEnv) (m : MemoryStore) (records : List Json) : Prop
    extends FileOf env m records where
  increasing : records.Pairwise fun e e' => cursorOf e < cursorOf e'
  positive : ∀ v, m.cursorFile = some v → 1 ≤ v

section LogOf

variable {env : HistoryEnv} {m : MemoryStore} {records : List Json}

theorem FileOf.readEntries (h : FileOf env m records) : m.readEntries env = records :=
  readEntries_of_lines h.lines h.tail fun e he => (h.recordLines e he).reads

theorem FileOf.cursors_eq (h : FileOf env m records) : m.cursors env = records.map cursorOf := by
  unfold MemoryStore.cursors MemoryStore.validEntries
  rw [h.readEntries, List.map_filterMap, ← List.filterMap_eq_map]
  apply List.filterMap_congr
  intro e he
  rw [(h.cursors e he).1]
  rfl

theorem flatten_lines_end (lines : List String) :
    (lines.map fun line => line.toList ++ ['\n']).flatten = [] ∨
      ∃ before, (lines.map fun line => line.toList ++ ['\n']).flatten = before ++ ['\n'] := by
  rcases List.eq_nil_or_concat lines with rfl | ⟨lines, line, rfl⟩
  · exact .inl rfl
  · right
    rw [List.concat_eq_append, List.map_append, List.flatten_append, List.map_singleton,
      List.flatten_singleton, ← List.append_assoc]
    exact ⟨_, rfl⟩

theorem suffix_of_lastBytes {text : String} (h : m.lastBytes = some text) :
    ∃ front, front ++ text.toList =
      (m.lines.map fun line => line.toList ++ ['\n']).flatten ++ m.tail.toList := by
  unfold MemoryStore.lastBytes at h
  dsimp only at h
  split at h
  · cases h
  · obtain ⟨front, hfront, rfl⟩ := Option.map_eq_some_iff.mp h
    obtain ⟨⟨rest, hsplit⟩, -⟩ := Lib.takeBytes_eq_some_iff.mp hfront
    refine ⟨front, ?_⟩
    rw [String.toList_ofList, ← hsplit, List.drop_left]

theorem LogOf.readLastEntry (h : LogOf env m records) {c : Int}
    (hread : (m.readLastEntry env).bind validCursor = some c) :
    ∃ e, records.getLast? = some e ∧ cursorOf e = c := by
  obtain ⟨last, hlast, hcursor⟩ := Option.bind_eq_some_iff.mp hread
  unfold MemoryStore.readLastEntry at hlast
  obtain ⟨text, htext, hline⟩ := Option.bind_eq_some_iff.mp hlast
  obtain ⟨line, hfind, hjson⟩ := Option.bind_eq_some_iff.mp hline
  obtain ⟨front, hsplit⟩ := suffix_of_lastBytes htext
  rw [h.lines, h.tail, String.toList_empty, List.append_nil] at hsplit
  rcases List.eq_nil_or_concat records with rfl | ⟨init, e, rfl⟩
  · -- nothing but blank lines in an empty file
    rw [List.map_nil, List.map_nil, List.flatten_nil, List.append_eq_nil_iff] at hsplit
    rw [hsplit.2, find_noLine] at hfind
    cases hfind
  rw [List.concat_eq_append] at h hsplit ⊢
  refine ⟨e, List.getLast?_concat, ?_⟩
  have hmem : e ∈ init ++ [e] := List.mem_append_right _ List.mem_cons_self
  obtain ⟨⟨hreads, hblank⟩, hone, hrest⟩ := h.recordLines e hmem
  rw [List.map_append, List.map_append, List.flatten_append, List.map_singleton,
    List.map_singleton, List.flatten_singleton] at hsplit
  -- a whole last line is the last record
  have hwhole {line : String} (hline : line = String.ofList (env.toJson e).toList)
      (hjson : env.fromJson line = some last) : cursorOf e = c := by
    rw [hline, String.ofList_toList, hreads] at hjson
    rw [← Option.some.inj hjson, (h.cursors e hmem).1] at hcursor
    exact Option.some.inj hcursor
  rcases List.append_eq_append_iff.mp hsplit with ⟨before, hinit, htext⟩ | ⟨cut, hfront, hrecord⟩
  · have hbefore : before = [] ∨ ∃ start, before = start ++ ['\n'] := by
      rcases List.eq_nil_or_concat before with rfl | ⟨start, d, rfl⟩
      · exact .inl rfl
      · right
        rw [List.concat_eq_append] at hinit ⊢
        rcases flatten_lines_end (init.map env.toJson) with hempty | ⟨lines, hlines⟩
        · rw [hempty] at hinit
          simp at hinit
        · rw [hlines, ← List.append_assoc] at hinit
          rw [← (List.append_inj' hinit rfl).2]
          exact ⟨start, rfl⟩
    rw [htext, find_lastLine hone hbefore (by rw [String.ofList_toList]; exact hblank)] at hfind
    exact hwhole (Option.some.inj hfind).symm hjson
  · rcases List.eq_nil_or_concat text.toList with hnil | ⟨start, d, htext⟩
    · rw [hnil, find_noLine] at hfind
      cases hfind
    rw [List.concat_eq_append] at htext
    rw [htext, ← List.append_assoc] at hrecord
    obtain ⟨hrecord, hbreak⟩ := List.append_inj' hrecord rfl
    have hstart : '\n' ∉ start := fun hin => hone (hrecord ▸ List.mem_append_right _ hin)
    rw [htext, ← hbreak] at hfind
    have hcut := find_cutLine hstart hfind
    cases cut with
    | nil => exact hwhole (by rw [hcut, hrecord, List.nil_append]) hjson
    | cons d' cut =>
      -- the rest of a cut line has no cursor
      have hnone := hrest (d' :: cut) start (List.cons_ne_nil _ _) hrecord.symm
      rw [← hcut, hjson, Option.bind_some, hcursor] at hnone
      cases hnone

theorem LogOf.le_last (h : LogOf env m records) {last e : Json}
    (hlast : records.getLast? = some last) (he : e ∈ records) : cursorOf e ≤ cursorOf last := by
  obtain ⟨init, rfl⟩ := List.getLast?_eq_some_iff.mp hlast
  rcases List.mem_append.mp he with hinit | hsame
  · have hlt := (List.pairwise_append.mp h.increasing).2.2 e hinit last List.mem_cons_self
    omega
  · rw [List.mem_singleton.mp hsame]

theorem le_max?_of_mem {cursors : List Int} {c : Int} (h : c ∈ cursors) :
    c ≤ cursors.max?.getD 0 := by
  cases hmax : cursors.max? with
  | none =>
    rw [List.max?_eq_none_iff.mp hmax] at h
    cases h
  | some last => exact (List.max?_eq_some_iff.mp hmax).2 c h

theorem LogOf.lt_nextCursor (h : LogOf env m records) (hbehind : NotBehind env m) :
    ∀ e ∈ records, cursorOf e < m.nextCursor env := by
  intro e he
  have hcursor : cursorOf e ∈ m.cursors env := by
    rw [h.cursors_eq]
    exact List.mem_map_of_mem he
  unfold MemoryStore.nextCursor
  cases hfile : m.cursorFile with
  | some v =>
    have hle := hbehind v hfile _ hcursor
    show _ < v + 1
    omega
  | none =>
    dsimp only
    cases hread : (m.readLastEntry env).bind validCursor with
    | some c =>
      obtain ⟨last, hlast, rfl⟩ := h.readLastEntry hread
      have hle := h.le_last hlast he
      show _ < cursorOf last + 1
      omega
    | none =>
      have hmax : cursorOf e ≤ ((m.cursors env).max?).getD 0 := le_max?_of_mem hcursor
      unfold MemoryStore.cursors at hmax
      show _ < _ + (1 : Int)
      omega

theorem LogOf.one_le_nextCursor (h : LogOf env m records) : 1 ≤ m.nextCursor env := by
  unfold MemoryStore.nextCursor
  cases hfile : m.cursorFile with
  | some v =>
    have hpos := h.positive v hfile
    show _ ≤ v + 1
    omega
  | none =>
    have hnotBehind : NotBehind env m := fun v hv => by
      rw [hfile] at hv
      cases hv
    cases records with
    | nil =>
      have hnone : (m.readLastEntry env).bind validCursor = none := by
        rw [Option.eq_none_iff_forall_not_mem]
        intro c hc
        obtain ⟨e, he, -⟩ := h.readLastEntry hc
        cases he
      have hcursors := h.cursors_eq
      unfold MemoryStore.cursors at hcursors
      rw [hnone, hcursors]
      decide
    | cons e records =>
      have hlt := h.lt_nextCursor hnotBehind e List.mem_cons_self
      have hpos := (h.cursors e List.mem_cons_self).2
      unfold MemoryStore.nextCursor at hlt
      rw [hfile] at hlt
      omega

/-! ## Steps -/

theorem LogOf.loseCursorFile (h : LogOf env m records) :
    LogOf env { m with cursorFile := none } records :=
  { h with positive := fun _ hv => by cases hv }

theorem LogOf.compactHistory (h : LogOf env m records) (writes : Bool) :
    ∃ kept, LogOf env (m.compactHistory env writes) kept := by
  unfold MemoryStore.compactHistory
  rw [h.readEntries]
  dsimp only
  split
  case isTrue => exact ⟨records, h⟩
  case isFalse =>
    refine ⟨records.drop (records.length - m.maxHistoryEntries), ⟨rfl, rfl, ?_, ?_⟩, ?_, h.positive⟩
    · exact fun e he => h.recordLines e (List.mem_of_mem_drop he)
    · exact fun e he => h.cursors e (List.mem_of_mem_drop he)
    · exact h.increasing.sublist (List.drop_sublist _ _)

/-- The store after an entry is appended. -/
def MemoryStore.afterAppend (env : HistoryEnv) (m : MemoryStore) (timestamp entry : String)
    (maxChars : Option Nat) (cursor : WriteEnd) : MemoryStore :=
  (m.appendHistory env timestamp entry maxChars (.appended cursor)).2

variable {timestamp entry : String} {maxChars : Option Nat}

theorem LogOf.validCursor_recordFor (h : LogOf env m records) (hfits : m.nextCursor env < 2 ^ 63)
    (timestamp entry : String) (maxChars : Option Nat) :
    validCursor (m.recordFor env timestamp entry maxChars) = some (m.nextCursor env) ∧
      cursorOf (m.recordFor env timestamp entry maxChars) = m.nextCursor env := by
  have hlow := h.one_le_nextCursor
  exact ⟨validCursor_historyRecord _ _ (by omega) hfits,
    cursorOf_historyRecord _ _ (by omega) hfits⟩

theorem LogOf.fileOf_append (h : LogOf env m records) (hfits : m.nextCursor env < 2 ^ 63)
    (hline : RecordLine env (m.recordFor env timestamp entry maxChars)) (cursor : WriteEnd) :
    FileOf env (m.afterAppend env timestamp entry maxChars cursor)
      (records ++ [m.recordFor env timestamp entry maxChars]) := by
  obtain ⟨hvalid, hcursor⟩ := h.validCursor_recordFor hfits timestamp entry maxChars
  constructor
  · show m.lines ++ [m.tail ++ _] = _
    rw [h.lines, h.tail, List.map_append, String.empty_append]
    rfl
  · rfl
  · intro e he
    rcases List.mem_append.mp he with hold | hnew
    · exact h.recordLines e hold
    · rw [List.mem_singleton.mp hnew]
      exact hline
  · intro e he
    rcases List.mem_append.mp he with hold | hnew
    · exact h.cursors e hold
    · rw [List.mem_singleton.mp hnew, hcursor]
      exact ⟨hvalid, h.one_le_nextCursor⟩

theorem LogOf.increasing_append_iff (h : LogOf env m records) (hfits : m.nextCursor env < 2 ^ 63)
    (hline : RecordLine env (m.recordFor env timestamp entry maxChars)) (cursor : WriteEnd) :
    ((m.afterAppend env timestamp entry maxChars cursor).cursors env).Pairwise (· < ·) ↔
      NotBehind env m := by
  have hcursor := (h.validCursor_recordFor hfits timestamp entry maxChars).2
  rw [(h.fileOf_append hfits hline cursor).cursors_eq, List.map_append, List.map_singleton, hcursor,
    ← h.cursors_eq, List.pairwise_append]
  constructor
  · rintro ⟨-, -, hlt⟩ v hv c hc
    have hlast := hlt c hc _ List.mem_cons_self
    unfold MemoryStore.nextCursor at hlast
    rw [hv] at hlast
    exact Int.lt_add_one_iff.mp hlast
  · intro hbehind
    rw [h.cursors_eq]
    refine ⟨List.pairwise_map.mpr h.increasing, List.pairwise_singleton _ _, ?_⟩
    intro c hc d hd
    obtain ⟨e, he, rfl⟩ := List.mem_map.mp hc
    rw [List.mem_singleton.mp hd]
    exact h.lt_nextCursor hbehind e he

theorem LogOf.append (h : LogOf env m records) (hfits : m.nextCursor env < 2 ^ 63)
    (hline : RecordLine env (m.recordFor env timestamp entry maxChars)) (hbehind : NotBehind env m)
    (cursor : WriteEnd) :
    LogOf env (m.afterAppend env timestamp entry maxChars cursor)
      (records ++ [m.recordFor env timestamp entry maxChars]) := by
  have hfile := h.fileOf_append hfits hline cursor
  refine ⟨hfile, ?_, ?_⟩
  · have hincreasing := (h.increasing_append_iff hfits hline cursor).mpr hbehind
    rw [hfile.cursors_eq] at hincreasing
    exact List.pairwise_map.mp hincreasing
  · intro v hv
    cases cursor with
    | written =>
      rw [← Option.some.inj hv]
      exact h.one_le_nextCursor
    | failed => exact h.positive v hv
    | truncated => cases hv

end LogOf

/-! ## Runs -/

open Lib.Runs

section Runs

variable {env : HistoryEnv} {h : History} {records : List Json}

/-- One step: it is sound exactly if it is fresh, and then the log goes on. -/
theorem LogOf.step (hlog : LogOf env h.store records) (a : CrashStep)
    (hlines : ∀ e ∈ (h.crashStep env a).appended, RecordLine env e) :
    (SoundStep env h a ↔ FreshStep env h a) ∧
      (FreshStep env h a → ∃ records', LogOf env (h.crashStep env a).store records') := by
  have hincreasing {m : MemoryStore} {records : List Json} (hlog : LogOf env m records) :
      (m.cursors env).Pairwise (· < ·) := by
    rw [hlog.cursors_eq]
    exact List.pairwise_map.mpr hlog.increasing
  cases a with
  | append timestamp entry maxChars cursor =>
    have hline := hlines _ (List.mem_append_right _ List.mem_cons_self)
    refine ⟨and_congr_right fun hfits => hlog.increasing_append_iff hfits hline cursor, ?_⟩
    rintro ⟨hfits, hbehind⟩
    exact ⟨_, hlog.append hfits hline hbehind cursor⟩
  | loseCursorFile =>
    exact ⟨and_congr_right fun _ => iff_of_true (hincreasing hlog.loseCursorFile) trivial,
      fun _ => ⟨records, hlog.loseCursorFile⟩⟩
  | compact writes =>
    obtain ⟨kept, hkept⟩ := hlog.compactHistory writes
    exact ⟨and_congr_right fun _ => iff_of_true (hincreasing hkept) trivial, fun _ => ⟨kept, hkept⟩⟩

theorem appended_subset_crashRun (env : HistoryEnv) (h : History) (acts : List CrashStep) :
    h.appended ⊆ (run (History.crashStep env) h acts).appended := by
  induction acts generalizing h with
  | nil => exact List.Subset.refl _
  | cons a acts ih =>
    refine List.Subset.trans ?_ (ih (h.crashStep env a))
    cases a with
    | append timestamp entry maxChars cursor => exact List.subset_append_left _ _
    | loseCursorFile => exact List.Subset.refl _
    | compact writes => exact List.Subset.refl _

theorem LogOf.meets_iff (hlog : LogOf env h.store records) (acts : List CrashStep)
    (hlines : ∀ e ∈ (run (History.crashStep env) h acts).appended, RecordLine env e) :
    Meets (History.crashStep env) (SoundStep env) h acts ↔
      Meets (History.crashStep env) (FreshStep env) h acts := by
  induction acts generalizing h records with
  | nil => exact Iff.rfl
  | cons a acts ih =>
    obtain ⟨hiff, hkeep⟩ := hlog.step a fun e he =>
      hlines e (appended_subset_crashRun env (h.crashStep env a) acts he)
    show _ ∧ _ ↔ _ ∧ _
    rw [hiff]
    refine and_congr_right fun hfresh => ?_
    obtain ⟨records', hlog'⟩ := hkeep hfresh
    exact ih hlog' hlines

end Runs

/-- **Increasing cursors.** In a run from a store without files, every cursor fits and the cursors
increase after each step exactly if every append finds a cursor file that is missing or not behind
the history. -/
theorem increasing_iff_fresh {env : HistoryEnv} {maxHistoryEntries : Nat} {acts : List CrashStep}
    (hlines : ∀ e ∈ (run (History.crashStep env) (.fresh maxHistoryEntries) acts).appended,
      RecordLine env e) :
    Meets (History.crashStep env) (SoundStep env) (.fresh maxHistoryEntries) acts ↔
      Meets (History.crashStep env) (FreshStep env) (.fresh maxHistoryEntries) acts := by
  have hempty : LogOf env (History.fresh maxHistoryEntries).store [] :=
    { lines := rfl
      tail := rfl
      recordLines := List.forall_mem_nil _
      cursors := List.forall_mem_nil _
      increasing := List.Pairwise.nil
      positive := fun _ hv => by cases hv }
  exact hempty.meets_iff acts hlines

/-! ## Two entries -/

/-- Two entries; the cursor file gets lost in between. -/
def lostCursor : List CrashStep :=
  [.append newYear "first" none .written, .loseCursorFile, .append newYear "second" none .written]

theorem recordLine_notesEnv :
    ∀ e ∈ [noteRecord 1 "first", noteRecord 2 "second"], RecordLine notesEnv e := by
  intro e he
  have hrest : ∀ e ∈ [noteRecord 1 "first", noteRecord 2 "second"],
      ∀ rest ∈ (notesEnv.toJson e).toList.tail.tails,
        (notesEnv.fromJson (String.ofList rest)).bind validCursor = none := by decide +kernel
  have hreads : ∀ e ∈ [noteRecord 1 "first", noteRecord 2 "second"],
      notesEnv.fromJson (notesEnv.toJson e) = some e ∧ RustStr.trim (notesEnv.toJson e) ≠ "" := by
    decide +kernel
  have hone : ∀ e ∈ [noteRecord 1 "first", noteRecord 2 "second"],
      '\n' ∉ (notesEnv.toJson e).toList := by decide +kernel
  refine ⟨hreads e he, hone e he, ?_⟩
  intro front rest hfront hline
  apply hrest e he
  rw [List.mem_tails]
  cases front with
  | nil => exact absurd rfl hfront
  | cons d front => exact ⟨front, by rw [← hline, List.cons_append, List.tail_cons]⟩

theorem sound_lostCursor :
    Meets (History.crashStep notesEnv) (SoundStep notesEnv) (.fresh 1000) lostCursor := by
  have hfresh : Meets (History.crashStep notesEnv) (FreshStep notesEnv) (.fresh 1000) lostCursor := by
    refine ⟨⟨?_, ?_⟩, ⟨trivial, trivial⟩, ⟨?_, ?_⟩, trivial⟩
    · show MemoryStore.nextCursor _ _ < _
      decide +kernel
    · exact fun v hv => by cases hv
    · show MemoryStore.nextCursor _ _ < _
      decide +kernel
    · exact fun v hv => by cases hv
  have happended : (run (History.crashStep notesEnv) (.fresh 1000) lostCursor).appended =
      [noteRecord 1 "first", noteRecord 2 "second"] := by decide +kernel
  refine (increasing_iff_fresh ?_).mpr hfresh
  rw [happended]
  exact recordLine_notesEnv

/-- The process crashes between the line of the second entry and its cursor. -/
theorem not_sound_afterCrash :
    ¬ Meets (History.crashStep notesEnv) (SoundStep notesEnv) (.fresh 1000)
        [.append newYear "first" none .written, .append newYear "second" none .failed,
          .append newYear "second" none .written] := by
  rintro ⟨-, -, ⟨-, hincreasing⟩, -⟩
  revert hincreasing
  decide +kernel

end HiveClaw.Memory
