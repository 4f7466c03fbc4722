import HiveClaw.Files.EditFile
import Mathlib.Logic.Function.Basic

/-!
# Reading, writing and editing over time

A sequence of calls of `read_file`, `write_file` and `edit_file`, with changes
of files by others in between. The log keeps, for each read that found its
file, what the file held and what was answered; reads of files that are missing
answer with an error and are not kept.

* `honest_run` — `read_file` says that a file is unchanged only where it would
  show again what it showed last, in every run in which others who change a
  file also change its modification time and its hash.
-/

namespace HiveClaw

namespace Files

open Lib FileStates

/-- The answer is not that the file is unchanged. -/
def ReadResult.shows : ReadResult → Bool
  | .unchanged => false
  | _ => true

structure ReadEvent where
  target : Target
  offset : Nat
  limit : Option Nat
  raw : List UInt8
  answer : ReadResult

/-- The files, what the tools remember of them, and the reads so far, the last one first. -/
structure History where
  disk : Path → Option File
  states : FileStates
  log : List ReadEvent

/-- The tools are called with a path, which is resolved to a canonical one. -/
inductive Op where
  | read (path : String) (canonical : Path) (offset : Nat) (limit : Option Nat)
  | write (canonical : Path) (content : List Char) (clock : Option ℚ)
  | edit (path : String) (canonical : Path) (oldText newText : List Char) (replaceAll : Bool)
      (clock : Option ℚ)
  | modify (canonical : Path) (file : Option File)

/-- The last read of a range that showed something. -/
def lastShown (canonical : Path) (offset : Nat) (limit : Option Nat) (log : List ReadEvent) :
    Option ReadEvent :=
  log.find? fun e =>
    e.target.canonical = canonical ∧ e.offset = offset ∧ e.limit = limit ∧ e.answer.shows = true

section Machine

variable (alphanumeric : Char → Bool) (sha256 : List UInt8 → String) (lower : String → String)
  (ext : Path → String)

/-- What a call says about its file. -/
def targetOf (path : String) (canonical : Path) : Target := ⟨path, canonical, ext canonical⟩

namespace History

/-- A call, or a change by someone else. Where a call panics, the map keeps what it did before. -/
def perform (σ : History) : Op → History
  | .read path canonical offset limit =>
    match σ.disk canonical with
    | none => σ
    | some file =>
      match readFile sha256 lower (targetOf ext path canonical) file σ.states offset limit with
      | none =>
        { σ with
          states := (σ.states.isUnchanged sha256 canonical file (max offset 1) limit).2 }
      | some (answer, states) =>
        { σ with
          states := states
          log := ⟨targetOf ext path canonical, max offset 1, limit, file.content, answer⟩ ::
            σ.log }
  | .write canonical content clock =>
    let written := writeText sha256 (targetOf ext canonical canonical) clock σ.states content
    { σ with disk := Function.update σ.disk canonical written.1, states := written.2 }
  | .edit path canonical oldText newText replaceAll clock =>
    match editFile alphanumeric sha256 (targetOf ext path canonical) (σ.disk canonical) clock
        σ.states oldText newText replaceAll with
    | none =>
      match σ.disk canonical with
      | none => σ
      | some file => { σ with states := (σ.states.checkRead sha256 canonical file).2 }
    | some (_, file, states) =>
      { σ with disk := Function.update σ.disk canonical file, states := states }
  | .modify canonical file => { σ with disk := Function.update σ.disk canonical file }

def run (σ : History) (ops : List Op) : History :=
  ops.foldl (perform alphanumeric sha256 lower ext) σ

end History

/-- What a read would answer if it looked at the file. -/
def ReadEvent.fresh (e : ReadEvent) : Option ReadResult :=
  (readContent lower e.target e.raw e.offset e.limit).map Prod.fst

/-- Where a read says that the file is unchanged, looking at it would give the text that the last
read of this range showed. -/
def Honest (imageText : List UInt8 → String → String) : List ReadEvent → Prop
  | [] => True
  | e :: earlier =>
    (e.answer = .unchanged → ∃ last, lastShown e.target.canonical e.offset e.limit earlier = some last ∧
      (e.fresh lower).map (ReadResult.text imageText e.target e.raw) =
        some (last.answer.text imageText last.target last.raw)) ∧
    Honest imageText earlier

/-- What others do to files can be seen: a file with another content than the one that was read
has another modification time and another hash than were recorded. A path that is read has an
image extension only if the canonical path has it. -/
def Visible (σ : History) : Op → Prop
  | .read path canonical _ _ => mimeFromExtension lower path = mimeFromExtension lower canonical
  | .modify canonical file =>
    ∀ entry, σ.states.lookup canonical = some entry → entry.canDedup = true →
      ∀ last, lastShown canonical entry.offset entry.limit σ.log = some last →
        ∀ f, file = some f → f.content ≠ last.raw →
          (∃ mtime, f.mtime = some mtime ∧ mtimeChanged mtime entry.mtime = true) ∧
            some (sha256 f.content) ≠ entry.contentHash
  | _ => True

/-- Every step of a run is visible. -/
def AllVisible (σ : History) : List Op → Prop
  | [] => True
  | op :: ops => Visible sha256 lower σ op ∧
      AllVisible (σ.perform alphanumeric sha256 lower ext op) ops

end Machine

-- ---
-- What the operations do to the map
-- ---

section States

variable (sha256 : List UInt8 → String) {states : FileStates} {path other : Path} {file : File}

theorem lookup_recordWrite_of_ne (hne : other ≠ path) :
    (recordWrite sha256 states path file).lookup other = states.lookup other := by
  unfold recordWrite
  split
  · exact AList.lookup_erase_ne hne
  · exact AList.lookup_insert_ne hne

theorem not_canDedup_recordWrite {entry : ReadState}
    (h : (recordWrite sha256 states path file).lookup path = some entry) :
    entry.canDedup = false := by
  unfold recordWrite at h
  split at h
  · rw [AList.lookup_erase] at h
    cases h
  · rw [AList.lookup_insert] at h
    rw [← Option.some.inj h]

/-- Checking that a file was read can only renew the modification time, where the hash is the
recorded one. -/
theorem checkRead_cases (states : FileStates) (path : Path) (file : File) :
    (checkRead sha256 states path file).2 = states ∨
      ∃ entry mtime, states.lookup path = some entry ∧ file.mtime = some mtime ∧
        entry.contentHash = some (sha256 file.content) ∧
        (checkRead sha256 states path file).2 =
          states.insert path { entry with mtime := mtime } := by
  unfold checkRead
  cases hentry : states.lookup path with
  | none => exact Or.inl rfl
  | some entry =>
    cases hmtime : file.mtime with
    | none => exact Or.inl rfl
    | some mtime =>
      dsimp only
      split
      · split
        · next hhash => exact Or.inr ⟨entry, mtime, rfl, rfl, hhash, rfl⟩
        · exact Or.inl rfl
      · split
        · exact Or.inl rfl
        · exact Or.inl rfl

theorem isUnchanged_true {offset : Nat} {limit : Option Nat}
    (h : (isUnchanged sha256 states path file offset limit).1 = true) :
    ∃ entry mtime, states.lookup path = some entry ∧ entry.canDedup = true ∧
      entry.offset = offset ∧ entry.limit = limit ∧ file.mtime = some mtime ∧
      (mtimeChanged mtime entry.mtime = true → entry.contentHash = some (sha256 file.content)) := by
  unfold isUnchanged at h
  cases hentry : states.lookup path with
  | none =>
    rw [hentry] at h
    cases h
  | some entry =>
    rw [hentry] at h
    dsimp only at h
    split at h
    · cases h
    next hdedup =>
    split at h
    · cases h
    next hrange =>
    cases hmtime : file.mtime with
    | none =>
      rw [hmtime] at h
      cases h
    | some mtime =>
      rw [hmtime] at h
      dsimp only at h
      obtain ⟨hoffset, hlimit⟩ := not_or.mp hrange
      refine ⟨entry, mtime, rfl, by simpa using hdedup, not_not.mp hoffset, not_not.mp hlimit, rfl,
        fun hchanged => ?_⟩
      rw [if_pos hchanged] at h
      split at h
      · cases h
      · next hhash => exact (not_not.mp hhash).symm

theorem isUnchanged_states (states : FileStates) (path : Path) (file : File) (offset : Nat)
    (limit : Option Nat) :
    (isUnchanged sha256 states path file offset limit).2 = states ∨
      ∃ entry : ReadState, (isUnchanged sha256 states path file offset limit).2 =
        states.insert path { entry with canDedup := false } := by
  unfold isUnchanged
  cases states.lookup path with
  | none => exact Or.inl rfl
  | some entry =>
    dsimp only
    split
    · exact Or.inl rfl
    split
    · exact Or.inl rfl
    cases file.mtime with
    | none => exact Or.inl rfl
    | some mtime =>
      dsimp only
      split
      · split
        · exact Or.inr ⟨entry, rfl⟩
        · exact Or.inr ⟨entry, rfl⟩
      · exact Or.inl rfl

/-- A range that can be left out is looked at and stays recorded only without a modification
time. -/
theorem mtime_of_isUnchanged_false {entry : ReadState}
    (hentry : states.lookup path = some entry) (hdedup : entry.canDedup = true)
    (h : isUnchanged sha256 states path file entry.offset entry.limit = (false, states)) :
    file.mtime = none := by
  cases hmtime : file.mtime with
  | none => rfl
  | some mtime =>
    unfold isUnchanged at h
    rw [hentry, hmtime] at h
    dsimp only at h
    rw [hdedup, if_neg (by simp), if_neg (by simp)] at h
    split at h
    · split at h
      · have hlookup := congrArg (fun r => AList.lookup path r.2) h
        dsimp only at hlookup
        rw [AList.lookup_insert, hentry] at hlookup
        have hfalse := congrArg ReadState.canDedup (Option.some.inj hlookup)
        rw [hdedup] at hfalse
        cases hfalse
      · cases congrArg Prod.fst h
    · cases congrArg Prod.fst h

/-- What an edit leaves behind: the file and the map as they are, except for a renewed modification
time, or a file that was written. -/
theorem editFile_cases {alphanumeric : Char → Bool} {target : Target} {file? : Option File}
    {clock : Option ℚ} {oldText newText : List Char} {replaceAll : Bool} {answer : EditResult}
    {file' : Option File} {states' : FileStates}
    (h : editFile alphanumeric sha256 target file? clock states oldText newText replaceAll =
      some (answer, file', states')) :
    ∃ base, (base = states ∨
        ∃ f, file? = some f ∧ base = (checkRead sha256 states target.canonical f).2) ∧
      ((file' = file? ∧ states' = base) ∨
        ∃ f, states' = recordWrite sha256 base target.canonical f) := by
  unfold editFile at h
  split at h
  · cases h
    exact ⟨states, Or.inl rfl, Or.inl ⟨rfl, rfl⟩⟩
  cases file? with
  | none =>
    dsimp only at h
    split at h
    · cases h
      exact ⟨states, Or.inl rfl, Or.inr ⟨_, rfl⟩⟩
    · cases h
      exact ⟨states, Or.inl rfl, Or.inl ⟨rfl, rfl⟩⟩
  | some f =>
    dsimp only at h
    split at h
    · cases h
      exact ⟨states, Or.inl rfl, Or.inl ⟨rfl, rfl⟩⟩
    split at h
    · split at h
      · cases h
        exact ⟨states, Or.inl rfl, Or.inl ⟨rfl, rfl⟩⟩
      · cases h
        exact ⟨states, Or.inl rfl, Or.inr ⟨_, rfl⟩⟩
    · refine ⟨_, Or.inr ⟨f, rfl, rfl⟩, ?_⟩
      split at h
      · cases h
        exact Or.inl ⟨rfl, rfl⟩
      · obtain ⟨edit, -, hfinish⟩ := Option.map_eq_some_iff.mp h
        cases edit with
        | noMatch =>
          cases hfinish
          exact Or.inl ⟨rfl, rfl⟩
        | ambiguous count lines =>
          cases hfinish
          exact Or.inl ⟨rfl, rfl⟩
        | written text =>
          cases hfinish
          exact Or.inr ⟨_, rfl⟩

end States

-- ---
-- What a read answers
-- ---

section Answers

variable {sha256 : List UInt8 → String} {lower : String → String} {target target' : Target}
  {raw : List UInt8} {offset : Nat} {limit : Option Nat} {r : ReadResult} {recorded : Bool}

theorem readText_cases {text : List Char} (h : readText text offset limit = some r) :
    (∃ total, r = .beyond offset total) ∨ ∃ lines note, r = .page lines note := by
  unfold readText at h
  dsimp only at h
  split at h
  · exact Or.inl ⟨_, (Option.some.inj h).symm⟩
  split at h
  · cases h
  split at h
  · exact Or.inr ⟨_, _, (Option.some.inj h).symm⟩
  split at h
  · exact Or.inr ⟨_, _, (Option.some.inj h).symm⟩
  · exact Or.inr ⟨_, _, (Option.some.inj h).symm⟩

theorem readContent_cases (h : readContent lower target raw offset limit = some (r, recorded)) :
    r.shows = true ∧ (recorded = true → ∃ lines note, r = .page lines note) := by
  unfold readContent at h
  split at h
  · cases h
    exact ⟨rfl, fun h => by cases h⟩
  split at h
  · cases h
    exact ⟨rfl, fun h => by cases h⟩
  split at h
  · cases h
    exact ⟨rfl, fun h => by cases h⟩
  next text _ =>
  cases htext : readText (crlfToLf text) offset limit with
  | none =>
    rw [htext] at h
    cases h
  | some r' =>
    rw [htext] at h
    rcases readText_cases htext with ⟨total, rfl⟩ | ⟨lines, note, rfl⟩
    · cases h
      exact ⟨rfl, fun h => by cases h⟩
    · cases h
      exact ⟨rfl, fun _ => ⟨lines, note, rfl⟩⟩

theorem readContent_congr (h : mimeFromExtension lower target.path =
    mimeFromExtension lower target'.path) :
    readContent lower target raw offset limit = readContent lower target' raw offset limit := by
  unfold readContent imageMime
  rw [h]

/-- What a read does: a document is not looked at, an unchanged file neither, and what is looked
at may be recorded. -/
theorem readFile_cases {file : File} {states states' : FileStates}
    (h : readFile sha256 lower target file states offset limit = some (r, states')) :
    (target.ext ∈ ["pdf", "docx", "xlsx", "pptx"] ∧ r = .document target.ext ∧
      states' = states) ∨
    target.ext ∉ ["pdf", "docx", "xlsx", "pptx"] ∧
      (((isUnchanged sha256 states target.canonical file (max offset 1) limit).1 = true ∧
          r = .unchanged ∧
          states' = (isUnchanged sha256 states target.canonical file (max offset 1) limit).2) ∨
        ((isUnchanged sha256 states target.canonical file (max offset 1) limit).1 = false ∧
          ∃ recorded, readContent lower target file.content (max offset 1) limit =
              some (r, recorded) ∧
            states' = if recorded then
                recordRead sha256
                  (isUnchanged sha256 states target.canonical file (max offset 1) limit).2
                  target.canonical file (max offset 1) limit
              else (isUnchanged sha256 states target.canonical file (max offset 1) limit).2)) := by
  unfold readFile at h
  dsimp only at h
  split at h
  · next hdoc =>
    cases h
    exact Or.inl ⟨hdoc, rfl, rfl⟩
  next hdoc =>
  refine Or.inr ⟨hdoc, ?_⟩
  cases hread : isUnchanged sha256 states target.canonical file (max offset 1) limit with
  | mk unchanged after =>
    rw [hread] at h
    cases unchanged with
    | true =>
      cases h
      exact Or.inl ⟨rfl, rfl, rfl⟩
    | false =>
      dsimp only at h
      cases hcontent : readContent lower target file.content (max offset 1) limit with
      | none =>
        rw [hcontent] at h
        cases h
      | some answer =>
        obtain ⟨r', recorded⟩ := answer
        rw [hcontent] at h
        cases h
        exact Or.inr ⟨rfl, recorded, rfl, rfl⟩

end Answers

-- ---
-- The invariant
-- ---

section Run

variable (alphanumeric : Char → Bool) (sha256 : List UInt8 → String) (lower : String → String)
  (ext : Path → String)

/-- What an entry says that allows to leave out a range: the last read of the range showed a page,
and if the file has another content now, it can be seen. -/
structure Backed (σ : History) (path : Path) (entry : ReadState) (last : ReadEvent) : Prop where
  shown : lastShown path entry.offset entry.limit σ.log = some last
  text : ext path ∉ ["pdf", "docx", "xlsx", "pptx"]
  page : readContent lower (targetOf ext path path) last.raw entry.offset entry.limit =
    some (last.answer, true)
  hash : entry.contentHash = some (sha256 last.raw)
  seen : ∀ f, σ.disk path = some f → f.content ≠ last.raw →
    (∃ mtime, f.mtime = some mtime ∧ mtimeChanged mtime entry.mtime = true) ∧
      some (sha256 f.content) ≠ entry.contentHash

def AllBacked (σ : History) : Prop :=
  ∀ path entry, σ.states.lookup path = some entry → entry.canDedup = true →
    ∃ last, Backed sha256 lower ext σ path entry last

variable {alphanumeric sha256 lower ext} {σ : History}

theorem perform_read {path : String} {canonical : Path} {offset : Nat} {limit : Option Nat}
    {file : File} {answer : ReadResult} {states : FileStates} (hfile : σ.disk canonical = some file)
    (hread : readFile sha256 lower (targetOf ext path canonical) file σ.states offset limit =
      some (answer, states)) :
    σ.perform alphanumeric sha256 lower ext (.read path canonical offset limit) =
      ⟨σ.disk, states,
        ⟨targetOf ext path canonical, max offset 1, limit, file.content, answer⟩ :: σ.log⟩ := by
  rw [History.perform, hfile]
  dsimp only
  rw [hread]

variable {states : FileStates}

theorem Backed.of_disk {path : Path} {entry : ReadState} {last : ReadEvent}
    (h : Backed sha256 lower ext σ path entry last) {disk : Path → Option File}
    (hsame : disk path = σ.disk path) :
    Backed sha256 lower ext ⟨disk, states, σ.log⟩ path entry last :=
  ⟨h.shown, h.text, h.page, h.hash, fun f hf => h.seen f (hsame ▸ hf)⟩

theorem AllBacked.modify (h : AllBacked sha256 lower ext σ) {path : Path} {file : Option File}
    (hvisible : Visible sha256 lower σ (.modify path file)) :
    AllBacked sha256 lower ext (σ.perform alphanumeric sha256 lower ext (.modify path file)) := by
  intro other entry hentry hdedup
  obtain ⟨last, hlast⟩ := h other entry hentry hdedup
  refine ⟨last, ?_⟩
  by_cases hpath : other = path
  · subst hpath
    refine ⟨hlast.shown, hlast.text, hlast.page, hlast.hash, fun f hf hne => ?_⟩
    have hfile : Function.update σ.disk other file other = some f := hf
    rw [Function.update_self] at hfile
    exact hvisible entry hentry hdedup last hlast.shown f hfile hne
  · exact hlast.of_disk (Function.update_of_ne hpath _ _)

theorem AllBacked.write (h : AllBacked sha256 lower ext σ) (path : Path) (file : File)
    (disk : Path → Option File) (hdisk : ∀ other, other ≠ path → disk other = σ.disk other) :
    AllBacked sha256 lower ext ⟨disk, recordWrite sha256 σ.states path file, σ.log⟩ := by
  intro other entry hentry hdedup
  by_cases hpath : other = path
  · subst hpath
    rw [not_canDedup_recordWrite sha256 hentry] at hdedup
    cases hdedup
  · have hentry' : σ.states.lookup other = some entry :=
      (lookup_recordWrite_of_ne sha256 hpath).symm.trans hentry
    obtain ⟨last, hlast⟩ := h other entry hentry' hdedup
    exact ⟨last, hlast.of_disk (hdisk other hpath)⟩

variable {file : File}

theorem AllBacked.checkRead (h : AllBacked sha256 lower ext σ) {path : Path}
    (hfile : σ.disk path = some file) :
    AllBacked sha256 lower ext
      { σ with states := (σ.states.checkRead sha256 path file).2 } := by
  rcases checkRead_cases sha256 σ.states path file with hsame | ⟨entry, mtime, hentry, hmtime, hhash, hnew⟩
  · rw [hsame]
    exact h
  · rw [hnew]
    intro other entry' hentry' hdedup
    by_cases hpath : other = path
    · subst hpath
      change AList.lookup other _ = _ at hentry'
      rw [AList.lookup_insert] at hentry'
      obtain rfl := Option.some.inj hentry'
      obtain ⟨last, hlast⟩ := h other entry hentry hdedup
      refine ⟨last, hlast.shown, hlast.text, hlast.page, hlast.hash, fun f hf hne => ?_⟩
      obtain rfl : file = f := Option.some.inj (hfile.symm.trans hf)
      exact absurd hhash.symm (hlast.seen file hfile hne).2
    · change AList.lookup other _ = _ at hentry'
      rw [AList.lookup_insert_ne hpath] at hentry'
      obtain ⟨last, hlast⟩ := h other entry' hentry' hdedup
      exact ⟨last, hlast.of_disk rfl⟩

theorem AllBacked.edit (h : AllBacked sha256 lower ext σ) (path : String) (canonical : Path)
    (oldText newText : List Char) (replaceAll : Bool) (clock : Option ℚ) :
    AllBacked sha256 lower ext (σ.perform alphanumeric sha256 lower ext
      (.edit path canonical oldText newText replaceAll clock)) := by
  have hchecked : ∀ base, (base = σ.states ∨ ∃ f, σ.disk canonical = some f ∧
      base = (FileStates.checkRead sha256 σ.states canonical f).2) →
        AllBacked sha256 lower ext { σ with states := base } := by
    rintro base (rfl | ⟨f, hf, rfl⟩)
    · exact h
    · exact h.checkRead hf
  rw [History.perform]
  split
  · split
    · exact h
    · next f hf => exact h.checkRead hf
  · next answer file states hedit =>
    obtain ⟨base, hbase, hkept | ⟨f, rfl⟩⟩ := editFile_cases sha256 hedit
    · obtain ⟨rfl, rfl⟩ := hkept
      rw [Function.update_eq_self]
      exact hchecked states hbase
    · exact (hchecked base hbase).write canonical f _ fun other hne =>
        Function.update_of_ne hne _ _

variable {e : ReadEvent} {offset : Nat} {limit : Option Nat}

/-- A read that shows something, or nothing of this range, does not change what was shown last of
another range. -/
theorem lastShown_cons_of_ne {path : Path}
    (hne : ¬(e.target.canonical = path ∧ e.offset = offset ∧ e.limit = limit ∧
      e.answer.shows = true)) (log : List ReadEvent) :
    lastShown path offset limit (e :: log) = lastShown path offset limit log :=
  List.find?_cons_of_neg (by simpa using hne)

theorem lastShown_cons_self (hshows : e.answer.shows = true) (log : List ReadEvent) :
    lastShown e.target.canonical e.offset e.limit (e :: log) = some e :=
  List.find?_cons_of_pos (by simpa using hshows)

theorem Backed.cons {path : Path} {entry : ReadState} {last : ReadEvent}
    (h : Backed sha256 lower ext σ path entry last) (states : FileStates) {e : ReadEvent}
    (hne : ¬(e.target.canonical = path ∧ e.offset = entry.offset ∧ e.limit = entry.limit ∧
      e.answer.shows = true)) :
    Backed sha256 lower ext ⟨σ.disk, states, e :: σ.log⟩ path entry last :=
  ⟨(lastShown_cons_of_ne hne σ.log).trans h.shown, h.text, h.page, h.hash, h.seen⟩

theorem lookup_isUnchanged {path other : Path} {entry : ReadState}
    (hentry : (isUnchanged sha256 states path file offset limit).2.lookup other = some entry)
    (hdedup : entry.canDedup = true) :
    states.lookup other = some entry ∧
      (other = path → (isUnchanged sha256 states path file offset limit).2 = states) := by
  rcases isUnchanged_states sha256 states path file offset limit with hsame | ⟨entry', hnew⟩
  · rw [hsame] at hentry
    exact ⟨hentry, fun _ => hsame⟩
  · rw [hnew] at hentry
    by_cases hpath : other = path
    · subst hpath
      rw [AList.lookup_insert] at hentry
      rw [← Option.some.inj hentry] at hdedup
      cases hdedup
    · rw [AList.lookup_insert_ne hpath] at hentry
      exact ⟨hentry, fun h => absurd h hpath⟩

theorem AllBacked.look (h : AllBacked sha256 lower ext σ) {path : String} {canonical : Path}
    (hfile : σ.disk canonical = some file)
    (hkind : mimeFromExtension lower path = mimeFromExtension lower canonical)
    (htext : ext canonical ∉ ["pdf", "docx", "xlsx", "pptx"]) {answer : ReadResult}
    {recorded : Bool}
    (hread : (isUnchanged sha256 σ.states canonical file offset limit).1 = false)
    (hcontent : readContent lower (targetOf ext path canonical) file.content offset limit =
      some (answer, recorded)) :
    AllBacked sha256 lower ext
      ⟨σ.disk,
        if recorded then
          recordRead sha256 (isUnchanged sha256 σ.states canonical file offset limit).2 canonical
            file offset limit
        else (isUnchanged sha256 σ.states canonical file offset limit).2,
        ⟨targetOf ext path canonical, offset, limit, file.content, answer⟩ :: σ.log⟩ := by
  obtain ⟨hshows, -⟩ := readContent_cases hcontent
  have hcanonical : readContent lower (targetOf ext canonical canonical) file.content offset limit =
      some (answer, recorded) :=
    (readContent_congr hkind.symm).trans hcontent
  -- an entry of before is backed by what it was backed by, or by this read of the same content
  have hold : ∀ other entry,
      (isUnchanged sha256 σ.states canonical file offset limit).2.lookup other = some entry →
        entry.canDedup = true → ∀ states, ∃ last, Backed sha256 lower ext
          ⟨σ.disk, states, ⟨targetOf ext path canonical, offset, limit, file.content, answer⟩ ::
            σ.log⟩ other entry last := by
    intro other entry hentry hdedup states
    obtain ⟨hbefore, hsame⟩ := lookup_isUnchanged hentry hdedup
    obtain ⟨last, hlast⟩ := h other entry hbefore hdedup
    by_cases hrange : canonical = other ∧ offset = entry.offset ∧ limit = entry.limit
    · obtain ⟨rfl, rfl, rfl⟩ := hrange
      have hnone : file.mtime = none := by
        refine mtime_of_isUnchanged_false sha256 hbefore hdedup (Prod.ext hread ?_)
        exact hsame rfl
      have hraw : file.content = last.raw := by
        by_contra hne
        obtain ⟨⟨mtime, hmtime, -⟩, -⟩ := hlast.seen file hfile hne
        rw [hnone] at hmtime
        cases hmtime
      have hpage := hlast.page
      rw [← hraw, hcanonical] at hpage
      obtain ⟨-, rfl⟩ := Prod.mk.inj (Option.some.inj hpage)
      refine ⟨⟨targetOf ext path canonical, entry.offset, entry.limit, file.content, answer⟩,
        lastShown_cons_self hshows σ.log, htext, hcanonical, ?_, fun f hf hne => ?_⟩
      · rw [hraw]
        exact hlast.hash
      · obtain rfl : file = f := Option.some.inj (hfile.symm.trans hf)
        exact absurd rfl hne
    · exact ⟨last, hlast.cons states fun hall => hrange ⟨hall.1, hall.2.1, hall.2.2.1⟩⟩
  intro other entry hentry hdedup
  cases recorded with
  | false => exact hold other entry hentry hdedup _
  | true =>
    rw [if_pos rfl] at hentry
    unfold recordRead at hentry
    cases hmtime : file.mtime with
    | none =>
      rw [hmtime] at hentry
      exact hold other entry hentry hdedup _
    | some mtime =>
      rw [hmtime] at hentry
      dsimp only at hentry
      by_cases hpath : other = canonical
      · subst hpath
        rw [AList.lookup_insert] at hentry
        obtain rfl := Option.some.inj hentry
        refine ⟨⟨targetOf ext path other, offset, limit, file.content, answer⟩,
          lastShown_cons_self hshows σ.log, htext, hcanonical, rfl, fun f hf hne => ?_⟩
        obtain rfl : file = f := Option.some.inj (hfile.symm.trans hf)
        exact absurd rfl hne
      · rw [AList.lookup_insert_ne hpath] at hentry
        exact hold other entry hentry hdedup _

theorem AllBacked.compare (h : AllBacked sha256 lower ext σ) (path : Path) (file : File)
    (offset : Nat) (limit : Option Nat) {log : List ReadEvent}
    (hlog : log = σ.log ∨ ∃ e, log = e :: σ.log ∧ e.answer.shows = false) :
    AllBacked sha256 lower ext
      ⟨σ.disk, (isUnchanged sha256 σ.states path file offset limit).2, log⟩ := by
  intro other entry hentry hdedup
  obtain ⟨last, hlast⟩ := h other entry (lookup_isUnchanged hentry hdedup).1 hdedup
  refine ⟨last, ?_⟩
  rcases hlog with rfl | ⟨e, rfl, hsilent⟩
  · exact hlast.of_disk rfl
  · exact hlast.cons _ fun hall => by rw [hsilent] at hall; cases hall.2.2.2

theorem AllBacked.document (h : AllBacked sha256 lower ext σ) (e : ReadEvent)
    (hdoc : ext e.target.canonical ∈ ["pdf", "docx", "xlsx", "pptx"]) :
    AllBacked sha256 lower ext { σ with log := e :: σ.log } := by
  intro other entry hentry hdedup
  obtain ⟨last, hlast⟩ := h other entry hentry hdedup
  refine ⟨last, hlast.cons σ.states fun hall => hlast.text ?_⟩
  rw [← hall.1]
  exact hdoc

theorem AllBacked.perform (h : AllBacked sha256 lower ext σ) {op : Op}
    (hop : Visible sha256 lower σ op) :
    AllBacked sha256 lower ext (σ.perform alphanumeric sha256 lower ext op) := by
  cases op with
  | read path canonical offset limit =>
    rw [History.perform]
    split
    · exact h
    next file hfile =>
    split
    · exact h.compare canonical file (max offset 1) limit (Or.inl rfl)
    next answer states hanswer =>
    rcases readFile_cases hanswer with ⟨hdoc, -, rfl⟩ |
      ⟨htext, ⟨-, rfl, rfl⟩ | ⟨hread, recorded, hcontent, rfl⟩⟩
    · exact h.document _ hdoc
    · exact h.compare canonical file (max offset 1) limit (Or.inr ⟨_, rfl, rfl⟩)
    · exact h.look hfile hop htext hread hcontent
  | write canonical content clock =>
    exact h.write canonical _ _ fun other hne => Function.update_of_ne hne _ _
  | edit path canonical oldText newText replaceAll clock =>
    exact h.edit path canonical oldText newText replaceAll clock
  | modify canonical file => exact h.modify hop

theorem honest_unchanged (h : AllBacked sha256 lower ext σ) {path : String} {canonical : Path}
    (hfile : σ.disk canonical = some file)
    (hkind : mimeFromExtension lower path = mimeFromExtension lower canonical)
    (hread : (isUnchanged sha256 σ.states canonical file offset limit).1 = true)
    (imageText : List UInt8 → String → String) (answer : ReadResult) :
    ∃ last, lastShown canonical offset limit σ.log = some last ∧
      ((ReadEvent.mk (targetOf ext path canonical) offset limit file.content answer).fresh
          lower).map (ReadResult.text imageText (targetOf ext path canonical) file.content) =
        some (last.answer.text imageText last.target last.raw) := by
  obtain ⟨entry, mtime, hentry, hdedup, rfl, rfl, hmtime, hhash⟩ := isUnchanged_true sha256 hread
  obtain ⟨last, hlast⟩ := h canonical entry hentry hdedup
  -- a change would have been seen
  have hraw : file.content = last.raw := by
    by_contra hne
    obtain ⟨⟨mtime', hmtime', hchanged⟩, hother⟩ := hlast.seen file hfile hne
    obtain rfl : mtime = mtime' := Option.some.inj (hmtime.symm.trans hmtime')
    exact hother (hhash hchanged).symm
  refine ⟨last, hlast.shown, ?_⟩
  have hpage := hlast.page
  obtain ⟨lines, note, hanswer⟩ := (readContent_cases hpage).2 rfl
  have hfresh : readContent lower (targetOf ext path canonical) file.content entry.offset
      entry.limit = some (last.answer, true) := by
    rw [hraw]
    exact (readContent_congr hkind).trans hpage
  rw [ReadEvent.fresh, hfresh, hanswer]
  rfl

variable {imageText : List UInt8 → String → String}

theorem honest_perform (h : AllBacked sha256 lower ext σ) (hlog : Honest lower imageText σ.log)
    {op : Op} (hop : Visible sha256 lower σ op) :
    Honest lower imageText (σ.perform alphanumeric sha256 lower ext op).log := by
  cases op with
  | read path canonical offset limit =>
    rw [History.perform]
    split
    · exact hlog
    next file hfile =>
    split
    · exact hlog
    next answer states hanswer =>
    refine ⟨fun hsilent => ?_, hlog⟩
    rcases readFile_cases hanswer with ⟨-, rfl, -⟩ |
      ⟨-, ⟨hread, -, -⟩ | ⟨-, recorded, hcontent, -⟩⟩
    · cases hsilent
    · exact honest_unchanged h hfile hop hread imageText answer
    · have hshows := (readContent_cases hcontent).1
      rw [show answer = .unchanged from hsilent] at hshows
      cases hshows
  | write canonical content clock => exact hlog
  | edit path canonical oldText newText replaceAll clock =>
    rw [History.perform]
    split
    · split
      · exact hlog
      · exact hlog
    · exact hlog
  | modify canonical file => exact hlog

theorem honest_of_allVisible (ops : List Op) (h : AllBacked sha256 lower ext σ)
    (hlog : Honest lower imageText σ.log) (hops : AllVisible alphanumeric sha256 lower ext σ ops) :
    Honest lower imageText (σ.run alphanumeric sha256 lower ext ops).log := by
  induction ops generalizing σ with
  | nil => exact hlog
  | cons op ops ih => exact ih (h.perform hops.1) (honest_perform h hlog hops.1) hops.2

end Run

/-- The tools at the beginning: nothing was read. -/
def History.start (disk : Path → Option File) : History := ⟨disk, ∅, []⟩

/-- In a run whose changes by others can be seen, a file is said to be unchanged only where it
would show again what it showed last. -/
theorem honest_run (alphanumeric : Char → Bool) (sha256 : List UInt8 → String)
    (lower : String → String) (ext : Path → String) (imageText : List UInt8 → String → String)
    (disk : Path → Option File) (ops : List Op)
    (hops : AllVisible alphanumeric sha256 lower ext (History.start disk) ops) :
    Honest lower imageText
      ((History.start disk).run alphanumeric sha256 lower ext ops).log :=
  honest_of_allVisible ops
    (fun path entry hentry _ => by
      have hnone : AList.lookup path (∅ : FileStates) = none := AList.lookup_empty path
      rw [show AList.lookup path (∅ : FileStates) = some entry from hentry] at hnone
      cases hnone)
    trivial hops

def oneFile (content : String) : Path → Option File := fun path =>
  if path = "/w/a.txt" then some ⟨encodeUtf8 content.toList, some 1⟩ else none

/-- A hash that is different for different bytes. -/
def digest (raw : List UInt8) : String := String.ofList (raw.map fun b => Char.ofNat b.toNat)

/-- A file is read, written, edited and read twice. -/
def editedOps : List Op :=
  [.read "/w/a.txt" "/w/a.txt" 1 none, .write "/w/a.txt" "two".toList (some 2),
    .edit "/w/a.txt" "/w/a.txt" "two".toList "six".toList false (some 3),
    .read "/w/a.txt" "/w/a.txt" 1 none, .read "/w/a.txt" "/w/a.txt" 1 none]

theorem honest_run_written :
    Honest id (fun _ _ => "") ((History.start (oneFile "one")).run (fun _ => false) digest id
      (fun _ => "txt") editedOps).log :=
  honest_run (fun _ => false) digest id (fun _ => "txt") (fun _ _ => "") (oneFile "one") editedOps
    ⟨rfl, trivial, trivial, rfl, rfl, trivial⟩

theorem readContent_line (line : String) (hshort : line = "one" ∨ line = "two") :
    readContent id (targetOf (fun _ => "txt") "/w/a.txt" "/w/a.txt") (encodeUtf8 line.toList) 1
      none = some (.page [(1, line.toList)] (.endOfFile 1), true) := by
  have hdecode : decodeStrict (encodeUtf8 line.toList) = some line.toList :=
    decodeStrict_eq_some_iff.mpr rfl
  unfold readContent
  rw [hdecode]
  rcases hshort with rfl | rfl <;> rfl

/-- Someone else writes the file within one tick of the clock; the next read says that it is
unchanged. -/
theorem stale_read :
    ¬Honest id (fun _ _ => "") ((History.start (oneFile "one")).run (fun _ => false) digest id
      (fun _ => "txt") [.read "/w/a.txt" "/w/a.txt" 1 none,
        .modify "/w/a.txt" (some ⟨encodeUtf8 "two".toList, some 1⟩),
        .read "/w/a.txt" "/w/a.txt" 1 none]).log := by
  let target := targetOf (fun _ => "txt") "/w/a.txt" "/w/a.txt"
  let states := recordRead digest ∅ "/w/a.txt" ⟨encodeUtf8 "one".toList, some 1⟩ 1 none
  have htext : target.ext ∉ ["pdf", "docx", "xlsx", "pptx"] := by decide
  have hfirst : readFile digest id target ⟨encodeUtf8 "one".toList, some 1⟩ ∅ 1 none =
      some (.page [(1, "one".toList)] (.endOfFile 1), states) := by
    have hfresh : isUnchanged digest ∅ target.canonical ⟨encodeUtf8 "one".toList, some 1⟩ (max 1 1)
        none = (false, ∅) := rfl
    have hlook := readFile_look htext hfresh (readContent_line "one" (Or.inl rfl))
    rwa [if_pos rfl] at hlook
  have hread : isUnchanged digest states "/w/a.txt" ⟨encodeUtf8 "two".toList, some 1⟩ 1 none =
      (true, states) := by
    have hlookup : AList.lookup "/w/a.txt" states =
        some ⟨1, 1, none, some (digest (encodeUtf8 "one".toList)), true⟩ := AList.lookup_insert _
    unfold isUnchanged
    rw [hlookup]
    simp [not_mtimeChanged_self]
  have hsecond : readFile digest id target ⟨encodeUtf8 "two".toList, some 1⟩ states 1 none =
      some (.unchanged, states) :=
    readFile_unchanged htext hread
  let shown : ReadEvent :=
    ⟨target, 1, none, encodeUtf8 "one".toList, .page [(1, "one".toList)] (.endOfFile 1)⟩
  have hlog : ((History.start (oneFile "one")).run (fun _ => false) digest id
      (fun _ => "txt") [.read "/w/a.txt" "/w/a.txt" 1 none,
        .modify "/w/a.txt" (some ⟨encodeUtf8 "two".toList, some 1⟩),
        .read "/w/a.txt" "/w/a.txt" 1 none]).log =
      [⟨target, 1, none, encodeUtf8 "two".toList, .unchanged⟩, shown] := by
    have hone : (History.start (oneFile "one")).perform (fun _ => false) digest id (fun _ => "txt")
        (.read "/w/a.txt" "/w/a.txt" 1 none) = ⟨oneFile "one", states, [shown]⟩ :=
      @perform_read (fun _ => false) digest id (fun _ => "txt") (History.start (oneFile "one"))
        "/w/a.txt" "/w/a.txt" 1 none ⟨encodeUtf8 "one".toList, some 1⟩ _ states rfl hfirst
    have hupdated : Function.update (oneFile "one") "/w/a.txt"
        (some ⟨encodeUtf8 "two".toList, some 1⟩) "/w/a.txt" =
          some ⟨encodeUtf8 "two".toList, some 1⟩ := by
      rw [Function.update_self]
    have htwo := @perform_read (fun _ => false) digest id (fun _ => "txt")
      ⟨Function.update (oneFile "one") "/w/a.txt" (some ⟨encodeUtf8 "two".toList, some 1⟩), states,
        [shown]⟩ "/w/a.txt" "/w/a.txt" 1 none ⟨encodeUtf8 "two".toList, some 1⟩ _ states
      hupdated hsecond
    rw [History.run, List.foldl_cons, hone]
    exact congrArg History.log htwo
  rw [hlog]
  intro h
  obtain ⟨last, hlast, hsame⟩ := h.1 rfl
  obtain rfl : shown = last := Option.some.inj hlast
  rw [ReadEvent.fresh, readContent_line "two" (Or.inr rfl)] at hsame
  exact absurd (Option.some.inj hsame) (by decide)

end Files

end HiveClaw
