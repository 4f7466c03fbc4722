import Mathlib.Data.List.TakeWhile
import HiveClaw.Runner.ToolResults

/-!
# Persisted results in later iterations

A tool result over the limit is replaced by a reference to a file, and
`apply_tool_result_budget` looks at every tool message again before each model call. The reference
holds a path, a size and a preview of up to 1200 characters, so it can itself be over the limit;
then the reference is replaced by a reference to a reference. It stays as it is exactly where it
is within the limit, one kind of text apart that reads like its own reference
(`stays_iff_fits`).
-/

namespace HiveClaw.Runner

open Sessions Providers

/-! ## Normalising again -/

/-- What the runner persists with: the limit, the workspace and the session of the run. -/
structure PersistSpec where
  pretty : Json → String
  workspace : String
  sessionKey : Option String := none
  maxToolResultChars : Nat

/-- The clock and the order of the directory at an application. -/
structure Moment where
  now : Nat := 0
  rank : String → Nat := fun _ => 0

namespace PersistSpec

def call (p : PersistSpec) (t : Moment) (toolCallId : String) (content : Json) : PersistCall :=
  { sessionKey := p.sessionKey, toolCallId, content, maxChars := p.maxToolResultChars
    now := t.now, rank := t.rank }

/-- The call for the result of a tool. -/
def resultCall (p : PersistSpec) (t : Moment) (toolCallId name : String) (result : Json) :
    PersistCall :=
  p.call t toolCallId (ensureNonemptyToolResult name result)

/-- The environment with the store of long results. -/
def env (p : PersistSpec) (t : Moment) (base : Env ResultStore) : Env ResultStore :=
  { base with
    maybePersist := fun st id content =>
      maybePersistToolResult p.pretty (some p.workspace) st (p.call t id content) }

end PersistSpec

/-- A tool message through later iterations; each has its own messages before and after it. -/
def budgetAgain (p : PersistSpec) (base : Env ResultStore) :
    List (Moment × List Json × List Json) → Json → ResultStore → Json × ResultStore
  | [], msg, st => (msg, st)
  | (t, before, after) :: later, msg, st =>
    let (messages, st) := applyToolResultBudget (p.env t base) st (before ++ msg :: after)
    budgetAgain p base later (messages[before.length]?.getD .null) st

/-- The result of a call stays as it is: normalising it again changes nothing, the budget leaves
its message alone on every later iteration, whatever the other messages are, and if it was
persisted the file still holds the payload. -/
structure Stays (p : PersistSpec) (base : Env ResultStore) (t : Moment) (st : ResultStore)
    (id name : String) (result : Json) : Prop where
  again : ∀ t',
    (normalizeToolResult (p.env t' base) (normalizeToolResult (p.env t base) st id name result).2
      id name (normalizeToolResult (p.env t base) st id name result).1).1 =
    (normalizeToolResult (p.env t base) st id name result).1
  message : ∀ later,
    (budgetAgain p base later
      (toolMessage (.str id) name (normalizeToolResult (p.env t base) st id name result).1)
      (normalizeToolResult (p.env t base) st id name result).2).1 =
    toolMessage (.str id) name (normalizeToolResult (p.env t base) st id name result).1
  file : ∀ later text suffix st₁,
    (p.resultCall t id name result).overLimit = some (text, suffix) →
    st.ensureBucket t.now (p.resultCall t id name result).dir = some st₁ →
    (budgetAgain p base later
      (toolMessage (.str id) name (normalizeToolResult (p.env t base) st id name result).1)
      (normalizeToolResult (p.env t base) st id name result).2).2.fileAt
        (p.resultCall t id name result).dir
        ((p.resultCall t id name result).fileName suffix) =
      some (savedText p.pretty (ensureNonemptyToolResult name result))

/-- The number of characters of a reference, by the length of its path and the size of the text. -/
def referenceSize (pathLength size : Nat) : Nat :=
  78 + pathLength + (toString size).length + min toolResultPreviewChars size +
    if size > toolResultPreviewChars then 55 else 0

/-- A text that reads like its own reference: as long, and with the same beginning. -/
def ReadsLikeReference (text reference : String) : Prop :=
  reference.length = text.length ∧
    RustStr.takeChars toolResultPreviewChars reference =
      RustStr.takeChars toolResultPreviewChars text

/-- A call that persists its content has a reference within the limit, or a text that reads like
its reference. -/
def Fits (p : PersistSpec) (st : ResultStore) (c : PersistCall) : Prop :=
  ∀ text suffix st₁, c.overLimit = some (text, suffix) →
    st.ensureBucket c.now c.dir = some st₁ →
    referenceSize (c.path p.workspace suffix).length text.length ≤ p.maxToolResultChars ∨
      (suffix = "txt" ∧ ReadsLikeReference text (c.reference p.workspace text suffix))

/-! ## References -/

variable {m n : Nat}

theorem digits_append_inj {xs ys : List Char}
    (h : (toString m).toList ++ ' ' :: xs = (toString n).toList ++ ' ' :: ys) : m = n ∧ xs = ys := by
  have hdigits : ∀ (k : Nat) (zs : List Char),
      ((toString k).toList ++ ' ' :: zs).takeWhile (fun c => c ≠ ' ') = (toString k).toList := by
    intro k zs
    rw [List.takeWhile_append_of_pos, List.takeWhile_cons_of_neg (by simp), List.append_nil]
    intro c hc
    have hdigit : c.isDigit := by
      rw [Nat.toString_eq_ofList_toDigits, String.toList_ofList] at hc
      exact Nat.isDigit_of_mem_toDigits (b := 10) (by decide) (by decide) hc
    simp only [ne_eq, decide_eq_true_eq]
    rintro rfl
    exact absurd hdigit (by decide)
  have hsame : (toString m).toList = (toString n).toList := by
    rw [← hdigits m xs, h, hdigits n ys]
  refine ⟨?_, ?_⟩
  · have hvalue := congrArg (fun digits => Nat.ofDigitChars 10 digits 0) hsame
    simpa [Nat.toString_eq_ofList_toDigits] using hvalue
  · rw [hsame] at h
    exact (List.cons.inj (List.append_cancel_left h)).2

theorem renderToolResultReference_inj {path : String} {preview preview' : String}
    (h : renderToolResultReference path m preview (m > toolResultPreviewChars) =
      renderToolResultReference path n preview' (n > toolResultPreviewChars)) :
    m = n ∧ preview = preview' := by
  have hchars := congrArg String.toList h
  unfold renderToolResultReference at hchars
  simp only [String.toList_append, List.append_assoc] at hchars
  have hrest := List.append_cancel_left (List.append_cancel_left (List.append_cancel_left hchars))
  have hspace : " chars\nPreview:\n".toList = ' ' :: "chars\nPreview:\n".toList := by decide +kernel
  rw [hspace, List.cons_append, List.cons_append] at hrest
  obtain ⟨rfl, hrest⟩ := digits_append_inj hrest
  exact ⟨rfl, String.toList_injective (List.append_cancel_right (List.append_cancel_left hrest))⟩

theorem exists_path_stem (c : PersistCall) (workspace : String) :
    ∃ stem, ∀ suffix, c.path workspace suffix = stem ++ suffix := by
  unfold PersistCall.path PersistCall.fileName
  generalize joinPath (joinPath workspace toolResultsDir) c.bucketName = front
  generalize safeFilename c.toolCallId = name
  have hstart : ∀ suffix : String, RustStr.startsWith (name ++ "." ++ suffix) "/" =
      RustStr.startsWith (name ++ ".") "/" := by
    intro suffix
    unfold RustStr.startsWith
    rw [String.toList_append, String.toList_append]
    cases name.toList with
    | nil => rfl
    | cons x xs => rfl
  unfold joinPath
  by_cases hslash : RustStr.startsWith (name ++ ".") "/" = true
  · exact ⟨name ++ ".", fun suffix => by rw [hstart, if_pos hslash]⟩
  · by_cases hend : front = "" ∨ front.toList.getLast? = some '/'
    · exact ⟨front ++ (name ++ "."), fun suffix => by
        rw [hstart, if_neg hslash, if_pos hend, String.append_assoc, String.append_assoc,
          String.append_assoc]⟩
    · exact ⟨front ++ "/" ++ (name ++ "."), fun suffix => by
        rw [hstart, if_neg hslash, if_neg hend]
        simp only [String.append_assoc]⟩

theorem reference_reference_iff {c c' : PersistCall} {workspace text suffix : String}
    (hsuffix : suffix = "txt" ∨ suffix = "json")
    (hpath : ∀ suffix, c'.path workspace suffix = c.path workspace suffix) :
    c'.reference workspace (c.reference workspace text suffix) "txt" =
        c.reference workspace text suffix ↔
      suffix = "txt" ∧ ReadsLikeReference text (c.reference workspace text suffix) := by
  generalize hR : c.reference workspace text suffix = R
  constructor
  · intro h
    rcases hsuffix with rfl | rfl
    · rw [← h] at hR
      unfold PersistCall.reference at hR
      rw [hpath] at hR
      obtain ⟨hsize, hpreview⟩ := renderToolResultReference_inj hR
      exact ⟨rfl, hsize.symm, hpreview.symm⟩
    · -- the path of the file with JSON has another suffix
      rw [← h] at hR
      unfold PersistCall.reference renderToolResultReference at hR
      obtain ⟨stem, hstem⟩ := exists_path_stem c workspace
      rw [hpath, hstem, hstem] at hR
      have hchars := congrArg String.toList hR
      simp only [String.toList_append, List.append_assoc] at hchars
      have hrest := List.append_cancel_left (List.append_cancel_left hchars)
      have hhead := congrArg List.head? hrest
      exact absurd hhead (by simp)
  · rintro ⟨rfl, hsize, hpreview⟩
    unfold PersistCall.reference at hR ⊢
    rw [hpath, hsize, hpreview]
    exact hR

/-! ## Contents that are not empty -/

variable {s : String}

theorem trim_ne_empty {c : Char} {rest : List Char} (hs : s.toList = c :: rest)
    (hc : RustStr.isWhitespace c = false) : RustStr.trim s ≠ "" := by
  intro h
  have hchars := congrArg String.toList h
  unfold RustStr.trim at hchars
  rw [String.toList_ofList, hs, List.dropWhile_cons_of_neg (by simp [hc])] at hchars
  have hnil := List.reverse_eq_nil_iff.mp hchars
  have hall := List.dropWhile_eq_nil_iff.mp hnil c (by simp)
  rw [hc] at hall
  cases hall

theorem ensureNonempty_str {name : String} (h : RustStr.trim s ≠ "") :
    ensureNonemptyToolResult name (.str s) = .str s := if_neg h

theorem trim_completed_ne_empty (name : String) :
    RustStr.trim ("(" ++ name ++ " completed with no output)") ≠ "" := by
  have hparen : ("(" ++ name ++ " completed with no output)").toList =
      '(' :: (name ++ " completed with no output)").toList := by
    simp only [String.toList_append]
    rfl
  exact trim_ne_empty hparen (by decide)

theorem ensureNonempty_cases (name : String) (result : Json) :
    ensureNonemptyToolResult name result =
        .str ("(" ++ name ++ " completed with no output)") ∨
      ensureNonemptyToolResult name result = result := by
  cases result with
  | null => exact .inl rfl
  | str s => exact ite_eq_or_eq _ _ _
  | arr items =>
    by_cases hitems : items.isEmpty = true
    · exact .inl (if_pos hitems)
    · have hinner : ensureNonemptyToolResult name (.arr items) = _ := if_neg hitems
      rw [hinner]
      exact ite_eq_or_eq _ _ _
  | bool b => exact .inr rfl
  | num n => exact .inr rfl
  | obj fields => exact .inr rfl

theorem ensureNonempty_idem (name : String) (result : Json) :
    ensureNonemptyToolResult name (ensureNonemptyToolResult name result) =
      ensureNonemptyToolResult name result := by
  rcases ensureNonempty_cases name result with hfilled | hsame
  · rw [hfilled]
    exact ensureNonempty_str (trim_completed_ne_empty name)
  · rw [hsame, hsame]

theorem trim_reference_ne_empty (c : PersistCall) (workspace text suffix : String) :
    RustStr.trim (c.reference workspace text suffix) ≠ "" := by
  unfold PersistCall.reference renderToolResultReference
  have hbracket : ∀ rest : String, ("[tool output persisted]\nFull output saved to: " ++ rest).toList =
      '[' :: ("tool output persisted]\nFull output saved to: ".toList ++ rest.toList) := by
    intro rest
    rw [String.toList_append]
    rfl
  simp only [String.append_assoc]
  exact trim_ne_empty (hbracket _) (by decide)

theorem budgeted_toolMessage (env : Env ResultStore) (st : ResultStore) (idx : Nat)
    (id name : String) (content : Json) :
    budgeted env st idx (toolMessage (.str id) name content) =
      (toolMessage (.str id) name (normalizeToolResult env st id name content).1,
        (normalizeToolResult env st id name content).2) := by
  have hid : (toolMessage (.str id) name content).getStr "tool_call_id" = some id := rfl
  have hname : (toolMessage (.str id) name content).getStr "name" = some name := rfl
  have hcontent : (toolMessage (.str id) name content).get "content" = some content := rfl
  unfold budgeted
  rw [if_neg (by simp), hid, hname, hcontent]
  simp only [Option.getD_some, Option.some.injEq]
  split
  · rename_i hsame
    rw [hsame]
  · rfl

/-! ## Sizes -/

theorem length_takeChars (n : Nat) (text : String) :
    (RustStr.takeChars n text).length = min n text.length := by
  unfold RustStr.takeChars
  rw [String.length_ofList, List.length_take]
  rfl

theorem reference_length (c : PersistCall) (workspace text suffix : String) :
    (c.reference workspace text suffix).length =
      referenceSize (c.path workspace suffix).length text.length := by
  have hhead : "[tool output persisted]\nFull output saved to: ".length = 46 := by decide +kernel
  have hsize : "\nOriginal size: ".length = 16 := by decide +kernel
  have hpreview : " chars\nPreview:\n".length = 16 := by decide +kernel
  have hhint : "\n...\n(Read the saved file if you need the full output.)".length = 55 := by
    decide +kernel
  unfold PersistCall.reference renderToolResultReference referenceSize
  simp only [String.length_append, length_takeChars, hhead, hsize, hpreview, decide_eq_true_eq]
  by_cases hlong : text.length > toolResultPreviewChars
  · rw [if_pos hlong, if_pos hlong, hhint]
    omega
  · rw [if_neg hlong, if_neg hlong, String.length_empty]
    omega

/-! ## The store of a persisted result -/

theorem ensureBucket_isSome (st : ResultStore) (now now' : Nat) (dir : Dir) :
    (st.ensureBucket now dir).isSome = (st.ensureBucket now' dir).isSome := by
  cases dir with
  | outer => rfl
  | root => rfl
  | bucket b =>
    unfold ResultStore.ensureBucket
    dsimp only
    split
    · rfl
    · split
      · rfl
      · rfl

variable {st : ResultStore}

theorem ensureBucket_isSome_of_root {st' : ResultStore} (now : Nat) {dir : Dir}
    (h : (st.ensureBucket now dir).isSome) (hroot : dir = .root ∨ st'.root = st.root) :
    (st'.ensureBucket now dir).isSome := by
  cases dir with
  | outer => rfl
  | root => rfl
  | bucket b =>
    have hsame : st'.root = st.root := by
      rcases hroot with hdir | hsame
      · cases hdir
      · exact hsame
    unfold ResultStore.ensureBucket at h ⊢
    dsimp only at h ⊢
    rw [hsame]
    by_cases hb : b ∈ st.root
    · rw [if_pos hb] at h
      cases h
    · rw [if_neg hb]
      split
      · rfl
      · rfl

theorem root_ensureBucket {st₁ : ResultStore} {now : Nat} {dir : Dir}
    (h : st.ensureBucket now dir = some st₁) : st₁.root = st.root := by
  unfold ResultStore.ensureBucket at h
  split at h
  · rw [Option.some.inj h]
  · rw [Option.some.inj h]
  · split at h
    · cases h
    · split at h
      · rw [Option.some.inj h]
      · rw [← Option.some.inj h]

theorem root_writeFile (st : ResultStore) (now : Nat) (dir : Dir) (name text : String) :
    dir = .root ∨ (st.writeFile now dir name text).root = st.root := by
  cases dir with
  | outer => exact .inr rfl
  | root => exact .inl rfl
  | bucket b => exact .inr rfl

section Persist

variable {pretty : Json → String} {workspace : String}

variable {st : ResultStore}

theorem maybePersist_left {c : PersistCall}
    (h : c.overLimit = none ∨ st.ensureBucket c.now c.dir = none) :
    maybePersistToolResult pretty (some workspace) st c = (c.content, st) := by
  unfold maybePersistToolResult
  cases hover : c.overLimit with
  | none => rfl
  | some found =>
    rcases h with hnone | hnone
    · rw [hover] at hnone
      cases hnone
    · dsimp only
      rw [hnone]

theorem maybePersist_cases (pretty : Json → String) (workspace : String) (st : ResultStore)
    (c : PersistCall) :
    maybePersistToolResult pretty (some workspace) st c = (c.content, st) ∨
      ∃ text suffix st₁, c.overLimit = some (text, suffix) ∧
        st.ensureBucket c.now c.dir = some st₁ := by
  cases hover : c.overLimit with
  | none => exact .inl (maybePersist_left (.inl hover))
  | some found =>
    cases hbucket : st.ensureBucket c.now c.dir with
    | none => exact .inl (maybePersist_left (.inr hbucket))
    | some st₁ => exact .inr ⟨found.1, found.2, st₁, rfl, rfl⟩

/-- Where the bucket of a call can be, it can be after it. -/
theorem ensureBucket_persist (c : PersistCall) (now : Nat)
    (h : (st.ensureBucket now c.dir).isSome) :
    ((maybePersistToolResult pretty (some workspace) st c).2.ensureBucket now c.dir).isSome := by
  rcases maybePersist_cases pretty workspace st c with hleft | ⟨text, suffix, st₁, hover, hbucket⟩
  · rw [congrArg Prod.snd hleft]
    exact h
  · have hcleaned : (st₁.cleanupToolResultBuckets c.now c.rank c.dir).root = st.root := by
      show st₁.root = st.root
      exact root_ensureBucket hbucket
    apply ensureBucket_isSome_of_root now h
    rw [maybePersist_over hover hbucket]
    dsimp only
    split
    · exact .inr hcleaned
    · rcases root_writeFile (st₁.cleanupToolResultBuckets c.now c.rank c.dir) c.now c.dir
          (c.fileName suffix) (savedText pretty c.content) with hroot | hsame
      · exact .inl hroot
      · exact .inr (hsame.trans hcleaned)

theorem fileAt_persist (c : PersistCall) {file held : String}
    (hheld : st.fileAt c.dir file = some held) :
    (maybePersistToolResult pretty (some workspace) st c).2.fileAt c.dir file = some held := by
  rcases maybePersist_cases pretty workspace st c with hleft | ⟨text, suffix, st₁, hover, hbucket⟩
  · rw [congrArg Prod.snd hleft]
    exact hheld
  · have hfile : (st₁.cleanupToolResultBuckets c.now c.rank c.dir).fileAt c.dir file =
        some held := by
      rw [ResultStore.fileAt_cleanup, ResultStore.fileAt_ensureBucket hbucket, hheld]
    rw [maybePersist_over hover hbucket]
    dsimp only
    by_cases hoccupied : (st₁.cleanupToolResultBuckets c.now c.rank c.dir).occupied c.dir
        (c.fileName suffix) = true
    · rw [if_pos hoccupied, hfile]
    · -- the call writes a file of another name
      have hne : file ≠ c.fileName suffix := by
        rintro rfl
        apply hoccupied
        unfold ResultStore.occupied
        rw [hfile]
        rfl
      rw [if_neg hoccupied, ResultStore.fileAt_writeFile, if_neg hne, hfile]

end Persist

/-! ## Later iterations -/

section Again

variable {p : PersistSpec} {base : Env ResultStore}

theorem normalizeToolResult_env (t : Moment) (st : ResultStore) (id name : String)
    (result : Json) :
    normalizeToolResult (p.env t base) st id name result =
      maybePersistToolResult p.pretty (some p.workspace) st (p.resultCall t id name result) := by
  unfold PersistSpec.resultCall
  rfl

/-- A result that is not empty is persisted as it is. -/
theorem resultCall_of_filled {name : String} {result : Json}
    (h : ensureNonemptyToolResult name result = result) (t : Moment) (id : String) :
    p.resultCall t id name result = p.call t id result := congrArg (p.call t id) h

theorem budgetFrom_append (env : Env ResultStore) (before : List Json) (msg : Json)
    (after : List Json) (st : ResultStore) (idx : Nat) :
    (budgetFrom env st idx (before ++ msg :: after)).1[before.length]? =
        some (budgeted env (budgetFrom env st idx before).2 (idx + before.length) msg).1 ∧
      (budgetFrom env st idx (before ++ msg :: after)).2 =
        (budgetFrom env (budgeted env (budgetFrom env st idx before).2 (idx + before.length)
          msg).2 (idx + before.length + 1) after).2 := by
  induction before generalizing st idx with
  | nil => exact ⟨rfl, rfl⟩
  | cons m before ih =>
    obtain ⟨hmsg, hstore⟩ := ih (budgeted env st idx m).2 (idx + 1)
    have hidx : idx + (before.length + 1) = idx + 1 + before.length := by omega
    rw [List.length_cons, hidx]
    exact ⟨hmsg, hstore⟩

theorem budgeted_store (env : Env ResultStore) (st : ResultStore) (idx : Nat) (msg : Json) :
    (budgeted env st idx msg).2 = st ∨
      ∃ id name content, (budgeted env st idx msg).2 =
        (normalizeToolResult env st id name content).2 := by
  unfold budgeted
  split
  · exact .inl rfl
  · refine .inr ⟨(msg.getStr "tool_call_id").getD ("tool_" ++ toString idx),
      (msg.getStr "name").getD "tool", (msg.get "content").getD .null, ?_⟩
    dsimp only
    split
    · rfl
    · rfl

theorem budgetFrom_keeps {P : ResultStore → Prop} {t : Moment}
    (hstep : ∀ st id content, P st →
      P (maybePersistToolResult p.pretty (some p.workspace) st (p.call t id content)).2)
    (messages : List Json) (st : ResultStore) (idx : Nat) (h : P st) :
    P (budgetFrom (p.env t base) st idx messages).2 := by
  induction messages generalizing st idx with
  | nil => exact h
  | cons msg messages ih =>
    have hmsg : P (budgeted (p.env t base) st idx msg).2 := by
      rcases budgeted_store (p.env t base) st idx msg with hsame | ⟨id, name, content, hcall⟩
      · rw [hsame]
        exact h
      · rw [hcall, normalizeToolResult_env]
        exact hstep st id _ h
    exact ih _ _ hmsg

theorem budgetAgain_keeps (p : PersistSpec) (base : Env ResultStore) (P : ResultStore → Prop)
    (id name : String) (content : Json)
    (hstep : ∀ t st id content, P st →
      P (maybePersistToolResult p.pretty (some p.workspace) st (p.call t id content)).2)
    (hsame : ∀ t st, P st →
      (normalizeToolResult (p.env t base) st id name content).1 = content)
    (later : List (Moment × List Json × List Json)) (st : ResultStore) (h : P st) :
    (budgetAgain p base later (toolMessage (.str id) name content) st).1 =
        toolMessage (.str id) name content ∧
      P (budgetAgain p base later (toolMessage (.str id) name content) st).2 := by
  induction later generalizing st with
  | nil => exact ⟨rfl, h⟩
  | cons iteration later ih =>
    obtain ⟨t, before, after⟩ := iteration
    obtain ⟨hmsg, hstore⟩ := budgetFrom_append (p.env t base) before
      (toolMessage (.str id) name content) after st 0
    have hbefore : P (budgetFrom (p.env t base) st 0 before).2 :=
      budgetFrom_keeps (hstep t) before st 0 h
    rw [budgeted_toolMessage] at hmsg hstore
    rw [hsame t _ hbefore] at hmsg
    have hafter : P (budgetFrom (p.env t base) st 0
        (before ++ toolMessage (.str id) name content :: after)).2 := by
      rw [hstore]
      refine budgetFrom_keeps (hstep t) after _ _ ?_
      rw [normalizeToolResult_env]
      exact hstep t _ id _ hbefore
    unfold budgetAgain applyToolResultBudget
    dsimp only
    rw [hmsg]
    exact ih _ hafter

end Again

/-! ## Which results stay -/

section Stays

variable {p : PersistSpec} {base : Env ResultStore} {t : Moment} {st : ResultStore}
  {id name : String} {result : Json}

/-- A result that is not persisted stays. -/
theorem stays_of_not_persisted
    (h : (p.resultCall t id name result).overLimit = none ∨
      st.ensureBucket t.now (p.resultCall t id name result).dir = none) :
    Stays p base t st id name result := by
  have hfirst : normalizeToolResult (p.env t base) st id name result =
      (ensureNonemptyToolResult name result, st) := by
    rw [normalizeToolResult_env]
    exact maybePersist_left h
  have hnever : (p.resultCall t id name result).overLimit = none ∨
      ∀ now, st.ensureBucket now (p.resultCall t id name result).dir = none := by
    refine h.imp_right fun hnone now => ?_
    have hsome := ensureBucket_isSome st now t.now (p.resultCall t id name result).dir
    rw [hnone] at hsome
    exact Option.isNone_iff_eq_none.mp (Option.isSome_eq_false_iff.mp hsome)
  have hsame : ∀ t' st', ((p.resultCall t id name result).overLimit = none ∨
      ∀ now, st'.ensureBucket now (p.resultCall t id name result).dir = none) →
      normalizeToolResult (p.env t' base) st' id name (ensureNonemptyToolResult name result) =
        (ensureNonemptyToolResult name result, st') := by
    intro t' st' hst'
    rw [normalizeToolResult_env, resultCall_of_filled (ensureNonempty_idem name result)]
    exact maybePersist_left (hst'.imp_right fun hnone => hnone t'.now)
  have hkept := budgetAgain_keeps p base
    (fun st' => (p.resultCall t id name result).overLimit = none ∨
      ∀ now, st'.ensureBucket now (p.resultCall t id name result).dir = none)
    id name (ensureNonemptyToolResult name result)
    (fun t' st' id' content hst' => hst'.imp_right fun hnone => by
      have hleft : maybePersistToolResult p.pretty (some p.workspace) st' (p.call t' id' content) =
          (content, st') := maybePersist_left (.inr (hnone t'.now))
      rw [congrArg Prod.snd hleft]
      exact hnone)
    (fun t' st' hst' => congrArg Prod.fst (hsame t' st' hst'))
  refine ⟨?_, ?_, ?_⟩
  · intro t'
    rw [hfirst, hsame t' st hnever]
  · intro later
    rw [hfirst]
    exact (hkept later st hnever).1
  · intro later text suffix st₁ hover hbucket
    rcases h with hnone | hnone
    · rw [hover] at hnone
      cases hnone
    · rw [hbucket] at hnone
      cases hnone

variable {suffix : String}

theorem suffix_of_overLimit {c : PersistCall} {text : String}
    (hover : c.overLimit = some (text, suffix)) :
    c.maxChars ≠ 0 ∧ (suffix = "txt" ∨ suffix = "json") := by
  unfold PersistCall.overLimit at hover
  split at hover
  · cases hover
  · rename_i hzero
    refine ⟨hzero, ?_⟩
    have hpayload := (Option.filter_eq_some_iff.mp hover).1
    unfold textPayload at hpayload
    split at hpayload
    · left
      rw [← (Prod.mk.inj (Option.some.inj hpayload)).2]
    · right
      obtain ⟨s, -, hs⟩ := Option.map_eq_some_iff.mp hpayload
      exact (Prod.mk.inj hs).2.symm
    · cases hpayload

theorem overLimit_str {id R : String} (hzero : p.maxToolResultChars ≠ 0) :
    (p.call t id (.str R)).overLimit =
      if p.maxToolResultChars < R.length then some (R, "txt") else none := by
  unfold PersistCall.overLimit
  have hmax : (p.call t id (.str R)).maxChars = p.maxToolResultChars := rfl
  have hpayload : textPayload (p.call t id (.str R)).content = some (R, "txt") := rfl
  rw [hmax, if_neg hzero, hpayload]
  simp only [Option.filter_some, decide_eq_true_eq]

variable {st₁ : ResultStore}

theorem normalizeToolResult_persisted (base : Env ResultStore) {text : String}
    (hover : (p.resultCall t id name result).overLimit = some (text, suffix))
    (hbucket : st.ensureBucket t.now (p.resultCall t id name result).dir = some st₁) :
    (normalizeToolResult (p.env t base) st id name result).1 =
      .str ((p.resultCall t id name result).reference p.workspace text suffix) := by
  rw [normalizeToolResult_env]
  exact congrArg Prod.fst (maybePersist_over hover hbucket)

theorem normalizeToolResult_store (p : PersistSpec) (base : Env ResultStore) (t : Moment)
    (st : ResultStore) (id name : String) (result : Json) :
    (normalizeToolResult (p.env t base) st id name result).2 =
      persistStep p.pretty p.workspace st (p.resultCall t id name result) := by
  rw [normalizeToolResult_env]
  rfl

theorem Stays.faithful (h : Stays p base t st id name result) :
    Faithful p.pretty p.workspace st (p.resultCall t id name result) := by
  intro text suffix st₁ hover hbucket
  have hfile := h.file [] text suffix st₁ hover hbucket
  unfold budgetAgain at hfile
  rw [normalizeToolResult_store] at hfile
  exact hfile

theorem stays_iff_of_le {text : String}
    (hover : (p.resultCall t id name result).overLimit = some (text, suffix))
    (hbucket : st.ensureBucket t.now (p.resultCall t id name result).dir = some st₁)
    (hle : ((p.resultCall t id name result).reference p.workspace text suffix).length ≤
      p.maxToolResultChars) :
    Stays p base t st id name result ↔
      Faithful p.pretty p.workspace st (p.resultCall t id name result) := by
  obtain ⟨hzero, -⟩ := suffix_of_overLimit hover
  have hfirst := normalizeToolResult_persisted base hover hbucket
  have hstore := normalizeToolResult_store p base t st id name result
  generalize hR : (p.resultCall t id name result).reference p.workspace text suffix = R
    at hle hfirst
  generalize hst' : persistStep p.pretty p.workspace st (p.resultCall t id name result) = st'
    at hstore
  have hleft : ∀ t' st, normalizeToolResult (p.env t' base) st id name (.str R) = (.str R, st) := by
    intro t' st
    rw [normalizeToolResult_env,
      resultCall_of_filled (ensureNonempty_str (hR ▸ trim_reference_ne_empty _ _ _ _))]
    apply maybePersist_left
    left
    rw [overLimit_str hzero, if_neg (by omega)]
  constructor
  · exact Stays.faithful
  · intro hfaithful
    have hheld := hfaithful text suffix st₁ hover hbucket
    rw [hst'] at hheld
    have hkept := fun later => budgetAgain_keeps p base
      (fun st => st.fileAt (p.resultCall t id name result).dir
        ((p.resultCall t id name result).fileName suffix) =
          some (savedText p.pretty (ensureNonemptyToolResult name result)))
      id name (.str R) (fun t' _ id' content h => fileAt_persist (p.call t' id' content) h)
      (fun t' st _ => congrArg Prod.fst (hleft t' st)) later st' hheld
    refine ⟨?_, ?_, ?_⟩
    · intro t'
      rw [hfirst, hstore, hleft t']
    · intro later
      rw [hfirst, hstore]
      exact (hkept later).1
    · intro later text' suffix' st₁' hover' hbucket'
      rw [hover] at hover'
      obtain ⟨rfl, rfl⟩ := Prod.mk.inj (Option.some.inj hover')
      rw [hfirst, hstore]
      exact (hkept later).2

theorem stays_iff_of_lt {text : String}
    (hover : (p.resultCall t id name result).overLimit = some (text, suffix))
    (hbucket : st.ensureBucket t.now (p.resultCall t id name result).dir = some st₁)
    (hlt : p.maxToolResultChars <
      ((p.resultCall t id name result).reference p.workspace text suffix).length) :
    Stays p base t st id name result ↔
      Faithful p.pretty p.workspace st (p.resultCall t id name result) ∧ suffix = "txt" ∧
        ReadsLikeReference text
          ((p.resultCall t id name result).reference p.workspace text suffix) := by
  obtain ⟨hzero, hsuffix⟩ := suffix_of_overLimit hover
  have hfirst := normalizeToolResult_persisted base hover hbucket
  have hstore := normalizeToolResult_store p base t st id name result
  have hbuckets : ∀ now, ((persistStep p.pretty p.workspace st
      (p.resultCall t id name result)).ensureBucket now (p.resultCall t id name result).dir).isSome :=
    fun now => ensureBucket_persist _ now (by
      rw [ensureBucket_isSome st now t.now, hbucket]
      rfl)
  -- a reference to the reference is the reference itself exactly under this condition
  have hloop : ∀ t', (p.call t' id (.str ((p.resultCall t id name result).reference p.workspace
        text suffix))).reference p.workspace ((p.resultCall t id name result).reference
          p.workspace text suffix) "txt" =
      (p.resultCall t id name result).reference p.workspace text suffix ↔
      suffix = "txt" ∧ ReadsLikeReference text
        ((p.resultCall t id name result).reference p.workspace text suffix) :=
    fun t' => reference_reference_iff hsuffix fun _ => rfl
  generalize hR : (p.resultCall t id name result).reference p.workspace text suffix = R
    at hlt hfirst hloop ⊢
  generalize hst' : persistStep p.pretty p.workspace st (p.resultCall t id name result) = st'
    at hstore hbuckets
  have hR' : ensureNonemptyToolResult name (.str R) = .str R :=
    ensureNonempty_str (hR ▸ trim_reference_ne_empty _ _ _ _)
  have hover' : ∀ t', (p.call t' id (.str R)).overLimit = some (R, "txt") := by
    intro t'
    rw [overLimit_str hzero, if_pos hlt]
  constructor
  · intro hstays
    refine ⟨?_, ?_⟩
    · exact hstays.faithful
    · -- the second application writes a reference to the reference
      obtain ⟨st₂, hst₂⟩ := Option.isSome_iff_exists.mp (hbuckets t.now)
      have hagain := hstays.again t
      rw [hfirst, hstore, normalizeToolResult_env, resultCall_of_filled hR',
        maybePersist_over (hover' t) hst₂] at hagain
      exact (hloop t).mp (Json.str.inj hagain)
  · rintro ⟨hfaithful, htxt, hlike⟩
    have hsame : ∀ t', (p.call t' id (.str R)).reference p.workspace R "txt" = R :=
      fun t' => (hloop t').mpr ⟨htxt, hlike⟩
    have hheld := hfaithful text suffix st₁ hover hbucket
    subst htxt
    rw [hst'] at hheld
    have hagain : ∀ t' st', (∀ now, (st'.ensureBucket now
        (p.resultCall t id name result).dir).isSome) →
        (normalizeToolResult (p.env t' base) st' id name (.str R)).1 = .str R := by
      intro t' st' hst'
      obtain ⟨st₂, hst₂⟩ := Option.isSome_iff_exists.mp (hst' t'.now)
      rw [normalizeToolResult_env, resultCall_of_filled hR',
        maybePersist_over (hover' t') hst₂, hsame t']
    -- the file stays as it is through all later applications
    have hkept := fun later => budgetAgain_keeps p base
      (fun st => (∀ now, (st.ensureBucket now (p.resultCall t id name result).dir).isSome) ∧
        st.fileAt (p.resultCall t id name result).dir
          ((p.resultCall t id name result).fileName "txt") =
            some (savedText p.pretty (ensureNonemptyToolResult name result)))
      id name (.str R)
      (fun t' _ id' content h => ⟨fun now => ensureBucket_persist (p.call t' id' content) now
        (h.1 now), fileAt_persist (p.call t' id' content) h.2⟩)
      (fun t' st h => hagain t' st h.1) later st' ⟨hbuckets, hheld⟩
    refine ⟨?_, ?_, ?_⟩
    · intro t'
      rw [hfirst, hstore, hagain t' st' hbuckets]
    · intro later
      rw [hfirst, hstore]
      exact (hkept later).1
    · intro later text' suffix' st₁' hover₂ hbucket'
      rw [hover] at hover₂
      obtain ⟨rfl, rfl⟩ := Prod.mk.inj (Option.some.inj hover₂)
      rw [hfirst, hstore]
      exact (hkept later).2.2

end Stays

/-- **Persisted results in later iterations.** The result of a tool stays as it is, through every
later application of the budget, exactly if a call that persists it finds its name free, or its
file with the payload already, and has a reference within the limit (or a text that reads like its
own reference). -/
theorem stays_iff_fits (p : PersistSpec) (base : Env ResultStore) (t : Moment) (st : ResultStore)
    (id name : String) (result : Json) :
    Stays p base t st id name result ↔
      NameFree p.pretty st (p.resultCall t id name result) ∧
        Fits p st (p.resultCall t id name result) := by
  have hnames : Faithful p.pretty p.workspace st (p.resultCall t id name result) ↔
      NameFree p.pretty st (p.resultCall t id name result) := faithful_iff_nameFree _ _
  rw [← hnames]
  cases hover : (p.resultCall t id name result).overLimit with
  | none =>
    refine iff_of_true (stays_of_not_persisted (.inl hover)) ⟨?_, ?_⟩
    · intro text suffix st₁ h
      rw [hover] at h
      cases h
    · intro text suffix st₁ h
      rw [hover] at h
      cases h
  | some found =>
    obtain ⟨text, suffix⟩ := found
    cases hbucket : st.ensureBucket t.now (p.resultCall t id name result).dir with
    | none =>
      refine iff_of_true (stays_of_not_persisted (.inr hbucket)) ⟨?_, ?_⟩
      · intro text suffix st₁ _ h
        exact absurd (hbucket.symm.trans h) (by simp)
      · intro text suffix st₁ _ h
        exact absurd (hbucket.symm.trans h) (by simp)
    | some st₁ =>
      have hfits : Fits p st (p.resultCall t id name result) ↔
          ((p.resultCall t id name result).reference p.workspace text suffix).length ≤
              p.maxToolResultChars ∨
            (suffix = "txt" ∧ ReadsLikeReference text
              ((p.resultCall t id name result).reference p.workspace text suffix)) := by
        rw [reference_length]
        constructor
        · intro h
          exact h text suffix st₁ hover hbucket
        · intro h text' suffix' st₁' hover' _
          rw [hover] at hover'
          obtain ⟨rfl, rfl⟩ := Prod.mk.inj (Option.some.inj hover')
          exact h
      rw [hfits]
      by_cases hle : ((p.resultCall t id name result).reference p.workspace text suffix).length ≤
          p.maxToolResultChars
      · rw [stays_iff_of_le hover hbucket hle]
        exact (and_iff_left (.inl hle)).symm
      · rw [stays_iff_of_lt hover hbucket (Nat.lt_of_not_le hle)]
        exact and_congr Iff.rfl (or_iff_right hle).symm

/-- A run that persists results of more than 100 characters. -/
def shortLimit : PersistSpec :=
  { pretty := fun _ => "", workspace := "w", maxToolResultChars := 100 }

/-- An environment whose other services are not used. -/
def quietEnv : Env ResultStore where
  requestModel := fun st _ => ({}, st)
  chatWithRetry := fun st _ => ({}, st)
  executeTool := fun st _ _ => (.null, st)

/-- The reference to a result of 101 characters is longer than the result; it is replaced in its
turn. -/
theorem not_stays_shortLimit :
    ¬ Stays shortLimit quietEnv {} {} "call_1" "read_file"
      (.str (String.ofList (List.replicate 101 'x'))) := by
  intro h
  generalize htext : String.ofList (List.replicate 101 'x') = text at h
  have hlength : text.length = 101 := by
    rw [← htext, String.length_ofList, List.length_replicate]
  have hfilled : ensureNonemptyToolResult "read_file" (.str text) = .str text := by
    have hx : text.toList = 'x' :: List.replicate 100 'x' := by
      rw [← htext, String.toList_ofList]
      rfl
    exact ensureNonempty_str (trim_ne_empty hx (by decide))
  have hover : (shortLimit.resultCall {} "call_1" "read_file" (.str text)).overLimit =
      some (text, "txt") := by
    rw [resultCall_of_filled hfilled, overLimit_str (by decide), hlength]
    rfl
  have hlong : 101 <
      ((shortLimit.resultCall {} "call_1" "read_file" (.str text)).reference "w" text
        "txt").length := by
    rw [reference_length, hlength]
    unfold referenceSize toolResultPreviewChars
    omega
  have hempty : ∀ dir, (({} : ResultStore).ensureBucket 0 dir).isSome := by
    intro dir
    cases dir <;> rfl
  obtain ⟨st₁, hbucket⟩ := Option.isSome_iff_exists.mp (hempty
    (shortLimit.resultCall {} "call_1" "read_file" (.str text)).dir)
  have hlt : shortLimit.maxToolResultChars <
      ((shortLimit.resultCall {} "call_1" "read_file" (.str text)).reference shortLimit.workspace
        text "txt").length := Nat.lt_trans (by decide) hlong
  obtain ⟨-, -, hsize, -⟩ := (stays_iff_of_lt hover hbucket hlt).mp h
  rw [hlength] at hsize
  exact absurd hsize (Nat.ne_of_gt hlong)

end HiveClaw.Runner
