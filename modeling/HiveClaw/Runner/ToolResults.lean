import HiveClaw.Lib.Runs
import HiveClaw.Runner.Tools
import HiveClaw.Sessions.Manager

/-!
# The files of long tool results

`maybe_persist_tool_result` of `crates/utils/src/helpers.rs`: a tool result over the limit is
written to a file, in a bucket for its session, and a reference takes its place.

The names of the bucket and of the file are sanitised (`safe_filename`), so different sessions and
different calls can share a file, and a file that exists is never rewritten. The reference is right
exactly where the name was free or its file holds the same payload already
(`meets_faithful_iff`).

The writing of JSON is third-party code (`pretty`); calls of the operating system succeed, except
that no directory takes the place of a file.
-/

namespace HiveClaw.Runner

open Lib.Runs Sessions

/-! ## The store -/

/-- A bucket: the time of its last change, in seconds, and its files. -/
structure Bucket where
  mtime : Nat
  files : HashMap String String := ∅

/-- The results below a workspace: the files of `.nanobot` and of `.nanobot/tool-results`, and the
directories of the latter. -/
structure ResultStore where
  outer : HashMap String String := ∅
  root : HashMap String String := ∅
  buckets : HashMap String Bucket := ∅

/-- Where the name of a bucket leads. -/
inductive Dir where
  | outer
  | root
  | bucket (name : String)
deriving DecidableEq, Repr

/-- `root.join(bucket_name)`, as the operating system resolves it. -/
def Dir.ofName (name : String) : Dir :=
  if name = "" ∨ name = "." then .root
  else if name = ".." then .outer
  else .bucket name

namespace ResultStore

def fileAt (st : ResultStore) : Dir → String → Option String
  | .outer, name => st.outer.lookup name
  | .root, name => st.root.lookup name
  | .bucket b, name => (st.buckets.lookup b).bind fun bucket => bucket.files.lookup name

/-- `path.exists()`: a file, or a bucket. -/
def occupied (st : ResultStore) (dir : Dir) (name : String) : Bool :=
  (st.fileAt dir name).isSome || (dir = .root && decide (name ∈ st.buckets))

/-- `ensure_dir` of a bucket; it fails on a file of the name. -/
def ensureBucket (st : ResultStore) (now : Nat) : Dir → Option ResultStore
  | .outer | .root => some st
  | .bucket b =>
    if b ∈ st.root then none
    else if b ∈ st.buckets then some st
    else some { st with buckets := st.buckets.insert b { mtime := now } }

-- `write_text_atomic`
def writeFile (st : ResultStore) (now : Nat) (dir : Dir) (name text : String) : ResultStore :=
  match dir with
  | .outer => { st with outer := st.outer.insert name text }
  | .root => { st with root := st.root.insert name text }
  | .bucket b =>
    let files := ((st.buckets.lookup b).map Bucket.files).getD ∅
    { st with buckets := st.buckets.insert b { mtime := now, files := files.insert name text } }

-- `bucket_mtime`
def bucketMtime (st : ResultStore) (name : String) : Nat :=
  ((st.buckets.lookup name).map Bucket.mtime).getD 0

-- `TOOL_RESULT_RETENTION_SECS`
def toolResultRetentionSecs : Nat := 7 * 24 * 60 * 60

-- `TOOL_RESULT_MAX_BUCKETS`
def toolResultMaxBuckets : Nat := 32

/-- The buckets that `cleanup_tool_result_buckets` removes: those that were not changed for a
week, and of the others all but the latest. `rank` is the order in which the directory happens to
be read. -/
def expiredBuckets (st : ResultStore) (now : Nat) (rank : String → Nat) (current : Dir) :
    List String :=
  let others := (hashOrder rank st.buckets.keys).filter fun b => Dir.bucket b ≠ current
  let stale := others.filter fun b => st.bucketMtime b < now - toolResultRetentionSecs
  let siblings := others.filter fun b => ¬ st.bucketMtime b < now - toolResultRetentionSecs
  let keep := toolResultMaxBuckets - 1
  stale ++
    if siblings.length ≤ keep then []
    else (siblings.insertionSort fun a b => st.bucketMtime b ≤ st.bucketMtime a).drop keep

-- `cleanup_tool_result_buckets`
def cleanupToolResultBuckets (st : ResultStore) (now : Nat) (rank : String → Nat) (current : Dir) :
    ResultStore :=
  { st with buckets := (st.expiredBuckets now rank current).foldl (fun m b => m.erase b) st.buckets }

end ResultStore

/-! ## The calls -/

/-- A call of `maybe_persist_tool_result`, with the clock and the order of the directory. -/
structure PersistCall where
  sessionKey : Option String := none
  toolCallId : String
  content : Json
  maxChars : Nat
  now : Nat := 0
  rank : String → Nat := fun _ => 0

-- `TOOL_RESULTS_DIR`
def toolResultsDir : String := ".nanobot/tool-results"

-- `TOOL_RESULT_PREVIEW_CHARS`
def toolResultPreviewChars : Nat := 1200

/-- `Path::join`, on Unix. -/
def joinPath (path part : String) : String :=
  if RustStr.startsWith part "/" then part
  else if path = "" ∨ path.toList.getLast? = some '/' then path ++ part
  else path ++ "/" ++ part

-- `render_tool_result_reference`
def renderToolResultReference (filepath : String) (originalSize : Nat) (preview : String)
    (truncatedPreview : Bool) : String :=
  "[tool output persisted]\nFull output saved to: " ++ filepath ++ "\nOriginal size: " ++
    toString originalSize ++ " chars\nPreview:\n" ++ preview ++
    if truncatedPreview then "\n...\n(Read the saved file if you need the full output.)" else ""

/-- The text of a content, and the suffix of its file. -/
def textPayload : Json → Option (String × String)
  | .str s => some (s, "txt")
  | .arr items => (stringifyTextBlocks items).map fun s => (s, "json")
  | _ => none

/-- What is written for a content: a text as it is, blocks as JSON. -/
def savedText (pretty : Json → String) : Json → String
  | .str s => s
  | other => pretty other

namespace PersistCall

def bucketName (call : PersistCall) : String := safeFilename (call.sessionKey.getD "default")

def dir (call : PersistCall) : Dir := Dir.ofName call.bucketName

def fileName (call : PersistCall) (suffix : String) : String :=
  safeFilename call.toolCallId ++ "." ++ suffix

/-- The path of the file, as the reference has it. -/
def path (call : PersistCall) (workspace suffix : String) : String :=
  joinPath (joinPath (joinPath workspace toolResultsDir) call.bucketName) (call.fileName suffix)

/-- The text and the suffix, if the content is over the limit. -/
def overLimit (call : PersistCall) : Option (String × String) :=
  if call.maxChars = 0 then none
  else (textPayload call.content).filter fun p => call.maxChars < p.1.length

def reference (call : PersistCall) (workspace text suffix : String) : String :=
  renderToolResultReference (call.path workspace suffix) text.length
    (RustStr.takeChars toolResultPreviewChars text) (text.length > toolResultPreviewChars)

end PersistCall

-- `maybe_persist_tool_result`
def maybePersistToolResult (pretty : Json → String) (workspace : Option String)
    (st : ResultStore) (call : PersistCall) : Json × ResultStore :=
  match workspace, call.overLimit with
  | some workspace, some (text, suffix) =>
    match st.ensureBucket call.now call.dir with
    | none => (call.content, st)
    | some st =>
      let st := st.cleanupToolResultBuckets call.now call.rank call.dir
      let name := call.fileName suffix
      let st := if st.occupied call.dir name then st
        else st.writeFile call.now call.dir name (savedText pretty call.content)
      (.str (call.reference workspace text suffix), st)
  | _, _ => (call.content, st)

/-! ## What the operations leave -/

namespace ResultStore

theorem lookup_foldl_erase (names : List String) (m : HashMap String Bucket) (b : String) :
    (names.foldl (fun m b => m.erase b) m).lookup b = if b ∈ names then none else m.lookup b := by
  induction names generalizing m with
  | nil => simp
  | cons n names ih =>
    rw [List.foldl_cons, ih]
    by_cases hb : b ∈ names
    · simp [hb]
    · by_cases hn : b = n
      · subst hn
        simp [hb]
      · simp [hb, hn, AList.lookup_erase_ne hn]

theorem not_mem_expiredBuckets (st : ResultStore) (now : Nat) (rank : String → Nat) (b : String) :
    b ∉ st.expiredBuckets now rank (.bucket b) := by
  intro hmem
  have hother : b ∈ (hashOrder rank st.buckets.keys).filter
      fun b' => Dir.bucket b' ≠ Dir.bucket b := by
    unfold expiredBuckets at hmem
    rcases List.mem_append.mp hmem with hstale | hrest
    · exact List.mem_of_mem_filter hstale
    · split at hrest
      · exact absurd hrest List.not_mem_nil
      · have hsorted := List.drop_subset _ _ hrest
        rw [List.mem_insertionSort] at hsorted
        exact List.mem_of_mem_filter hsorted
  simpa using (List.mem_filter.mp hother).2

theorem fileAt_cleanup (st : ResultStore) (now : Nat) (rank : String → Nat) (dir : Dir)
    (name : String) :
    (st.cleanupToolResultBuckets now rank dir).fileAt dir name = st.fileAt dir name := by
  cases dir with
  | outer => rfl
  | root => rfl
  | bucket b =>
    unfold cleanupToolResultBuckets fileAt
    dsimp only
    rw [lookup_foldl_erase, if_neg (st.not_mem_expiredBuckets now rank b)]

theorem fileAt_ensureBucket {st st' : ResultStore} {now : Nat} {dir : Dir}
    (h : st.ensureBucket now dir = some st') (name : String) :
    st'.fileAt dir name = st.fileAt dir name := by
  unfold ensureBucket at h
  split at h
  · obtain rfl := Option.some.inj h
    rfl
  · obtain rfl := Option.some.inj h
    rfl
  · rename_i b
    split at h
    · cases h
    · split at h
      · obtain rfl := Option.some.inj h
        rfl
      · rename_i hnew
        obtain rfl := Option.some.inj h
        have hnone : st.buckets.lookup b = none := AList.lookup_eq_none.mpr hnew
        simp [fileAt, hnone]

theorem fileAt_writeFile (st : ResultStore) (now : Nat) (dir : Dir) (name text : String)
    (name' : String) :
    (st.writeFile now dir name text).fileAt dir name' =
      if name' = name then some text else st.fileAt dir name' := by
  cases dir with
  | outer => exact HashMap.lookup_insert_ite _ _ _ _
  | root => exact HashMap.lookup_insert_ite _ _ _ _
  | bucket b =>
    unfold writeFile fileAt
    dsimp only
    rw [AList.lookup_insert, Option.bind_some, HashMap.lookup_insert_ite]
    cases st.buckets.lookup b with
    | none => simp
    | some bucket => simp

end ResultStore

/-! ## References -/

section Faithful

variable (pretty : Json → String) (workspace : String)

def persistStep (st : ResultStore) (call : PersistCall) : ResultStore :=
  (maybePersistToolResult pretty (some workspace) st call).2

/-- A call that returns a reference names a file that holds its payload. -/
def Faithful (st : ResultStore) (call : PersistCall) : Prop :=
  ∀ text suffix st₁, call.overLimit = some (text, suffix) →
    st.ensureBucket call.now call.dir = some st₁ →
    (persistStep pretty workspace st call).fileAt call.dir (call.fileName suffix) =
      some (savedText pretty call.content)

/-- At a call that returns a reference, the name of its file is free after the clean-up, or the
file holds the payload already. -/
def NameFree (st : ResultStore) (call : PersistCall) : Prop :=
  ∀ text suffix st₁, call.overLimit = some (text, suffix) →
    st.ensureBucket call.now call.dir = some st₁ →
    (st₁.cleanupToolResultBuckets call.now call.rank call.dir).occupied call.dir
        (call.fileName suffix) = false ∨
      st.fileAt call.dir (call.fileName suffix) = some (savedText pretty call.content)

variable {pretty workspace}

theorem maybePersist_over {st st₁ : ResultStore} {call : PersistCall} {text suffix : String}
    (hover : call.overLimit = some (text, suffix))
    (hbucket : st.ensureBucket call.now call.dir = some st₁) :
    maybePersistToolResult pretty (some workspace) st call =
      (.str (call.reference workspace text suffix),
        let cleaned := st₁.cleanupToolResultBuckets call.now call.rank call.dir
        if cleaned.occupied call.dir (call.fileName suffix) then cleaned
        else cleaned.writeFile call.now call.dir (call.fileName suffix)
          (savedText pretty call.content)) := by
  unfold maybePersistToolResult
  rw [hover]
  dsimp only
  rw [hbucket]

theorem faithful_iff_nameFree (st : ResultStore) (call : PersistCall) :
    Faithful pretty workspace st call ↔ NameFree pretty st call := by
  unfold Faithful NameFree
  refine forall_congr' fun text => forall_congr' fun suffix => forall_congr' fun st₁ =>
    forall_congr' fun hover => forall_congr' fun hbucket => ?_
  unfold persistStep
  rw [maybePersist_over hover hbucket]
  dsimp only
  have hfile : (st₁.cleanupToolResultBuckets call.now call.rank call.dir).fileAt call.dir
      (call.fileName suffix) = st.fileAt call.dir (call.fileName suffix) := by
    rw [ResultStore.fileAt_cleanup, ResultStore.fileAt_ensureBucket hbucket]
  cases hocc : (st₁.cleanupToolResultBuckets call.now call.rank call.dir).occupied call.dir
      (call.fileName suffix) with
  | true =>
    rw [if_pos rfl, hfile]
    simp
  | false =>
    rw [if_neg (by simp), ResultStore.fileAt_writeFile]
    simp

/-- **References over a run.** Over every sequence of calls, of any sessions and with any ids, all
references name files that hold their payloads, exactly if at every call that returns one the name
of the file is free or its file holds the payload already. -/
theorem meets_faithful_iff (pretty : Json → String) (workspace : String) (st : ResultStore)
    (calls : List PersistCall) :
    Meets (persistStep pretty workspace) (Faithful pretty workspace) st calls ↔
      Meets (persistStep pretty workspace) (NameFree pretty) st calls := by
  exact meets_congr (I := fun _ => True) (fun st call _ => faithful_iff_nameFree st call)
    (fun _ _ _ _ => trivial) calls st trivial

end Faithful

/-- Two calls of different ids whose results go to one file. -/
def twoIds : List PersistCall :=
  [{ toolCallId := "call:1", content := .str "first", maxChars := 3 },
    { toolCallId := "call/1", content := .str "second", maxChars := 3 }]

/-- The reference of the second call names the result of the first. -/
theorem not_faithful_twoIds :
    ¬ Meets (persistStep (fun _ => "") "w") (Faithful (fun _ => "") "w") {} twoIds := by
  rintro ⟨-, hsecond, -⟩
  have hfile := hsecond "second" "txt" _ (by decide +kernel) rfl
  revert hfile
  decide +kernel

end HiveClaw.Runner
