import HiveClaw.Context.Definitions

/-!
# The token budget of a prompt

Model of `crates/agent/src/context/prompt.rs`. The user input is always part
of a prompt; the records of four categories follow in a fixed order, each with
what the ones before have left. A section that does not fit is cut to its
newest records and gets a marker and brackets of 14 characters, for which
`format_records` makes room with `max_chars - 14`.

The texts that `serde_json::to_string` makes of a list of records and of one
record are the arguments `arrayText` and `recordText`; `none` is its error. A
`usize` subtraction that underflows panics, which is `none` here.

* `withinBudget_iff_enough` — nothing underflows and the estimate is within the
  budget exactly if no section is to be cut with fewer than four tokens left.
-/

namespace HiveClaw

namespace Context

-- ---
-- Model
-- ---

-- `usize::MAX`
def usizeMax : Nat := 2 ^ 64 - 1

-- `a.saturating_mul(b)`
def saturatingMul (a b : Nat) : Nat := min (a * b) usizeMax

/-- `a - b` on `usize`; `none` when it underflows. -/
def checkedSub (a b : Nat) : Option Nat := if b ≤ a then some (a - b) else none

-- `PromptData`
structure PromptData where
  userInput : String
  recentReasoning : Option String
  toolResults : Option String
  entities : Option String
  historyState : Option String
  estimatedTokens : Nat
  truncated : Bool

/-- `estimate_tokens`: `text.chars().count().div_ceil(4)` in every mode. -/
def estimateTokens (text mode : String) : Nat :=
  match mode with
  | "tiktoken" | "tiktoken_cl100k" => (text.length + 3) / 4
  | _ => (text.length + 3) / 4

section Serializer

variable (arrayText : List RecordEntry → Option String) (recordText : RecordEntry → Option String)

/-- "Take records from the end until we fit": `records` are the newest first. -/
def accumulate (maxChars : Nat) : List RecordEntry → String → Option String
  | [], accumulated => some accumulated
  | record :: rest, accumulated =>
    match recordText record with
    | none => accumulate maxChars rest accumulated
    | some recordStr => do
      let limit ← checkedSub maxChars 14
      if accumulated.length + recordStr.length + 3 > limit then some accumulated
      else
        accumulate maxChars rest
          ((if accumulated = "" then accumulated else accumulated ++ ", ") ++ recordStr)

-- `format_records`
def formatRecords (records : List RecordEntry) (maxChars : Nat) : Option (String × Bool) :=
  if records = [] then some ("", false)
  else
    match arrayText records with
    | none => some ("", false)
    | some full =>
      if full.length ≤ maxChars then some (full, false)
      else do
        let accumulated ← accumulate recordText maxChars records.reverse ""
        some ("[truncated] " ++ "[" ++ accumulated ++ "]", true)

/-- The locals of the loop over the sections. -/
structure Allocation where
  recentReasoning : Option String
  toolResults : Option String
  entities : Option String
  historyState : Option String
  truncated : Bool
  remaining : Nat

/-- The local that holds the text of a category; the other categories have none. -/
def Allocation.withText (a : Allocation) (category : Category) (text : Option String) :
    Allocation :=
  match category with
  | .reasoningResults => { a with recentReasoning := text }
  | .toolResults => { a with toolResults := text }
  | .entities => { a with entities := text }
  | .stateChanges => { a with historyState := text }
  | _ => a

def allocate (ctx : AgentContext) (a : Allocation) (category : Category) : Option Allocation :=
  let records := ctx.getCategory category
  if records = [] then some a
  else do
    let (text, wasTruncated) ←
      formatRecords arrayText recordText records (saturatingMul a.remaining 4)
    let a' := a.withText category (if text = "" then none else some text)
    some { a' with
      truncated := a.truncated || wasTruncated
      remaining := a.remaining - estimateTokens text ctx.config.tokenEstimationMode }

-- `priorities`
def priorities : List Category := [.reasoningResults, .toolResults, .entities, .stateChanges]

-- `s.as_ref().map(estimate_tokens).unwrap_or(0)`
def optionTokens (text : Option String) (mode : String) : Nat :=
  (text.map fun s => estimateTokens s mode).getD 0

/-- The locals in front of the loop. -/
def Allocation.initial (available : Nat) : Allocation :=
  { recentReasoning := none, toolResults := none, entities := none, historyState := none
    truncated := false, remaining := available }

-- `build_prompt_budget`
def buildPromptBudget (ctx : AgentContext) (maxTokens : Nat) : Option PromptData := do
  let mode := ctx.config.tokenEstimationMode
  let userTokens := estimateTokens ctx.userInput.rawText mode
  let available := maxTokens - userTokens
  let a ← priorities.foldlM (allocate arrayText recordText ctx) (.initial available)
  some
    { userInput := ctx.userInput.rawText
      recentReasoning := a.recentReasoning
      toolResults := a.toolResults
      entities := a.entities
      historyState := a.historyState
      estimatedTokens := userTokens + optionTokens a.recentReasoning mode +
        optionTokens a.toolResults mode + optionTokens a.entities mode +
        optionTokens a.historyState mode
      truncated := a.truncated }

-- ---
-- What the texts ask for
-- ---

/-- How long the texts of a section are: all of its records together, and each record, the
newest first. -/
structure SectionSize where
  full : Nat
  newest : List Nat

/-- The lengths for a list of records. A list without a text counts as empty. -/
def sectionSize (records : List RecordEntry) : SectionSize :=
  { full := if records = [] then 0 else ((arrayText records).map String.length).getD 0
    newest := (records.reverse.filterMap recordText).map String.length }

/-- The characters that the newest records fill below a limit, with their separators. -/
def filled (limit : Nat) : List Nat → Nat → Nat
  | [], acc => acc
  | n :: rest, acc =>
    if acc + n + 3 > limit then acc
    else filled limit rest ((if acc = 0 then 0 else acc + 2) + n)

/-- The characters that a section takes. -/
def SectionSize.taken (maxChars : Nat) (s : SectionSize) : Nat :=
  if s.full ≤ maxChars then s.full else filled (maxChars - 14) s.newest 0 + 14

/-- A section that does not fit finds at least four tokens left, in its turn. -/
def Enough : Nat → List SectionSize → Prop
  | _, [] => True
  | remaining, s :: rest =>
    (s.full ≤ saturatingMul remaining 4 ∨ 4 ≤ remaining) ∧
      Enough (remaining - (s.taken (saturatingMul remaining 4) + 3) / 4) rest

/-- The sections of a context, in the order in which they are filled. -/
def sectionSizes (ctx : AgentContext) (categories : List Category) : List SectionSize :=
  categories.map fun c => sectionSize arrayText recordText (ctx.getCategory c)

-- ---
-- One section
-- ---

theorem estimateTokens_eq (text mode : String) :
    estimateTokens text mode = (text.length + 3) / 4 := by
  unfold estimateTokens
  split <;> rfl

theorem filled_le {limit : Nat} (newest : List Nat) {acc : Nat} (hacc : acc ≤ limit) :
    filled limit newest acc ≤ limit := by
  induction newest generalizing acc with
  | nil => exact hacc
  | cons n rest ih =>
    rw [filled]
    split
    · exact hacc
    · refine ih ?_
      split <;> omega

variable {recordText}

theorem length_accumulate {maxChars : Nat} (hmax : 14 ≤ maxChars) (records : List RecordEntry)
    (accumulated : String) :
    ∃ text, accumulate recordText maxChars records accumulated = some text ∧
      text.length =
        filled (maxChars - 14) ((records.filterMap recordText).map String.length)
          accumulated.length := by
  induction records generalizing accumulated with
  | nil => exact ⟨accumulated, rfl, rfl⟩
  | cons record rest ih =>
    rw [accumulate]
    cases htext : recordText record with
    | none =>
      obtain ⟨text, hrest, hlength⟩ := ih accumulated
      exact ⟨text, hrest, by rw [hlength, List.filterMap_cons_none htext]⟩
    | some recordStr =>
      rw [List.filterMap_cons_some htext, List.map_cons, filled]
      show ∃ text, (do
        let limit ← checkedSub maxChars 14
        _) = some text ∧ _
      rw [checkedSub, if_pos hmax, Option.bind_eq_bind, Option.bind_some]
      by_cases hfull : accumulated.length + recordStr.length + 3 > maxChars - 14
      · rw [if_pos hfull, if_pos hfull]
        exact ⟨accumulated, rfl, rfl⟩
      · rw [if_neg hfull, if_neg hfull]
        obtain ⟨text, hrest, hlength⟩ := ih
          ((if accumulated = "" then accumulated else accumulated ++ ", ") ++ recordStr)
        refine ⟨text, hrest, ?_⟩
        rw [hlength, String.length_append]
        by_cases hempty : accumulated = ""
        · subst hempty
          rfl
        · have hpos : ¬accumulated.length = 0 := fun h => hempty (String.length_eq_zero_iff.mp h)
          rw [if_neg hempty, if_neg hpos, String.length_append]
          rfl

theorem accumulate_of_lt {maxChars : Nat} (hmax : maxChars < 14) (records : List RecordEntry) :
    accumulate recordText maxChars records "" = none ∨
      accumulate recordText maxChars records "" = some "" := by
  induction records with
  | nil => exact Or.inr rfl
  | cons record rest ih =>
    rw [accumulate]
    cases htext : recordText record with
    | none => exact ih
    | some recordStr =>
      refine Or.inl ?_
      show (do
        let limit ← checkedSub maxChars 14
        _) = none
      rw [checkedSub, if_neg (by omega)]
      rfl

variable {arrayText}

variable {records : List RecordEntry} {maxChars : Nat}

theorem formatRecords_of_room
    (hroom : (sectionSize arrayText recordText records).full ≤ maxChars ∨ 14 ≤ maxChars) :
    ∃ text flag, formatRecords arrayText recordText records maxChars = some (text, flag) ∧
      text.length = (sectionSize arrayText recordText records).taken maxChars ∧
      text.length ≤ maxChars := by
  unfold formatRecords sectionSize SectionSize.taken at *
  by_cases hnil : records = []
  · simp [hnil]
  · rw [if_neg hnil] at hroom ⊢
    simp only [hnil, if_false] at hroom ⊢
    cases harray : arrayText records with
    | none => exact ⟨"", false, rfl, by simp, by simp⟩
    | some full =>
      rw [harray, Option.map_some, Option.getD_some] at hroom
      simp only [Option.map_some, Option.getD_some]
      by_cases hfits : full.length ≤ maxChars
      · rw [if_pos hfits, if_pos hfits]
        exact ⟨full, false, rfl, rfl, hfits⟩
      · have hmax : 14 ≤ maxChars := hroom.resolve_left hfits
        obtain ⟨accumulated, hacc, hlength⟩ :=
          @length_accumulate recordText maxChars hmax records.reverse ""
        have hle : accumulated.length ≤ maxChars - 14 := by
          rw [hlength]
          exact filled_le _ (Nat.zero_le _)
        rw [if_neg hfits, if_neg hfits, hacc]
        refine ⟨_, true, rfl, ?_, ?_⟩
        · simp only [String.length_append]
          rw [hlength]
          show 12 + 1 + _ + 1 = _
          simp only [String.length_empty]
          omega
        · simp only [String.length_append]
          show 12 + 1 + _ + 1 ≤ _
          omega

theorem formatRecords_of_no_room
    (hlong : maxChars < (sectionSize arrayText recordText records).full) (hmax : maxChars < 14) :
    formatRecords arrayText recordText records maxChars = none ∨
      ∃ text flag, formatRecords arrayText recordText records maxChars = some (text, flag) ∧
        text.length = 14 := by
  unfold formatRecords sectionSize at *
  by_cases hnil : records = []
  · simp [hnil] at hlong
  · rw [if_neg hnil]
    simp only [hnil, if_false] at hlong
    cases harray : arrayText records with
    | none => simp [harray] at hlong
    | some full =>
      rw [harray, Option.map_some, Option.getD_some] at hlong
      simp only
      rw [if_neg (by omega)]
      rcases @accumulate_of_lt recordText maxChars hmax records.reverse with hacc | hacc
      · rw [hacc]
        exact Or.inl rfl
      · rw [hacc]
        exact Or.inr ⟨_, true, rfl, rfl⟩

-- ---
-- All sections
-- ---

def Allocation.text (a : Allocation) : Category → Option String
  | .reasoningResults => a.recentReasoning
  | .toolResults => a.toolResults
  | .entities => a.entities
  | .stateChanges => a.historyState
  | _ => none

def Allocation.total (a : Allocation) (mode : String) : Nat :=
  optionTokens a.recentReasoning mode + optionTokens a.toolResults mode +
    optionTokens a.entities mode + optionTokens a.historyState mode

variable {category : Category}

theorem total_withText {a : Allocation} (hmem : category ∈ priorities)
    (hnone : a.text category = none) (text : Option String) (mode : String) :
    (a.withText category text).total mode = a.total mode + optionTokens text mode := by
  have hzero : ∀ t : Option String, t = none → optionTokens t mode = 0 := by
    rintro _ rfl
    rfl
  simp only [priorities, List.mem_cons, List.not_mem_nil, or_false] at hmem
  rcases hmem with rfl | rfl | rfl | rfl
  all_goals
    have h := hzero _ hnone
    simp only [Allocation.withText, Allocation.total, Allocation.text] at h ⊢
    omega

variable {c : Category}

theorem text_withText_of_ne {a : Allocation} (hne : c ≠ category) (text : Option String) :
    (a.withText category text).text c = a.text c := by
  cases category <;> cases c <;> first | rfl | exact absurd rfl hne

theorem optionTokens_text (text mode : String) :
    optionTokens (if text = "" then none else some text) mode = (text.length + 3) / 4 := by
  split
  · next h =>
    subst h
    rfl
  · exact estimateTokens_eq text mode

variable {ctx : AgentContext} {a : Allocation} {category : Category}

theorem allocate_of_format (hmem : category ∈ priorities) (hnone : a.text category = none)
    {text : String} {flag : Bool}
    (hformat : formatRecords arrayText recordText (ctx.getCategory category)
      (saturatingMul a.remaining 4) = some (text, flag)) :
    ∃ a', allocate arrayText recordText ctx a category = some a' ∧
      a'.total ctx.config.tokenEstimationMode =
        a.total ctx.config.tokenEstimationMode + (text.length + 3) / 4 ∧
      a'.remaining = a.remaining - (text.length + 3) / 4 ∧
      ∀ c, c ≠ category → a'.text c = a.text c := by
  unfold allocate
  by_cases hnil : ctx.getCategory category = []
  · have hempty : text = "" := by
      rw [hnil, formatRecords, if_pos rfl] at hformat
      exact (congrArg Prod.fst (Option.some.inj hformat)).symm
    subst hempty
    refine ⟨a, if_pos hnil, rfl, rfl, fun _ _ => rfl⟩
  · simp only [if_neg hnil, hformat, Option.bind_eq_bind, Option.bind_some]
    refine ⟨_, rfl, ?_, ?_, fun c hc => ?_⟩
    · rw [← optionTokens_text text ctx.config.tokenEstimationMode, ← total_withText hmem hnone]
      rfl
    · show a.remaining - _ = _
      rw [estimateTokens_eq]
    · rw [← text_withText_of_ne (a := a) hc (if text = "" then none else some text)]
      cases c <;> rfl

theorem allocate_of_panic
    (hformat : formatRecords arrayText recordText (ctx.getCategory category)
      (saturatingMul a.remaining 4) = none) :
    allocate arrayText recordText ctx a category = none := by
  unfold allocate
  have hnil : ctx.getCategory category ≠ [] := by
    intro h
    rw [h, formatRecords, if_pos rfl] at hformat
    cases hformat
  simp only [if_neg hnil, hformat, Option.bind_eq_bind, Option.bind_none]

/-- The texts of some sections are not there yet. -/
def Pending (a : Allocation) (categories : List Category) : Prop :=
  ∀ c ∈ categories, c ∈ priorities ∧ a.text c = none

variable {a' : Allocation}

theorem Pending.tail {a : Allocation} {rest : List Category} (h : Pending a (c :: rest))
    (hnodup : (c :: rest).Nodup) (hsame : ∀ c', c' ≠ c → a'.text c' = a.text c') : Pending a' rest := by
  intro c' hc'
  obtain ⟨hmem, hnone⟩ := h c' (List.mem_cons_of_mem _ hc')
  have hne : c' ≠ c := fun heq => (List.nodup_cons.mp hnodup).1 (heq ▸ hc')
  exact ⟨hmem, (hsame c' hne).trans hnone⟩

-- no round takes a text away
variable {categories : List Category}

theorem total_le_of_foldlM (hnodup : categories.Nodup) (hpending : Pending a categories)
    (h : categories.foldlM (allocate arrayText recordText ctx) a = some a') :
    a.total ctx.config.tokenEstimationMode ≤ a'.total ctx.config.tokenEstimationMode := by
  induction categories generalizing a with
  | nil =>
    cases h
    exact le_refl _
  | cons c rest ih =>
    obtain ⟨hmem, hnone⟩ := hpending c List.mem_cons_self
    rw [List.foldlM_cons] at h
    cases hformat : formatRecords arrayText recordText (ctx.getCategory c)
        (saturatingMul a.remaining 4) with
    | none =>
      rw [allocate_of_panic hformat] at h
      cases h
    | some textFlag =>
      obtain ⟨text, flag⟩ := textFlag
      obtain ⟨a₁, hstep, htotal, -, hsame⟩ := allocate_of_format hmem hnone hformat
      rw [hstep] at h
      have hrest := ih (List.nodup_cons.mp hnodup).2 (hpending.tail hnodup hsame) h
      omega

theorem foldlM_of_enough (hnodup : categories.Nodup) (hpending : Pending a categories)
    (henough : Enough a.remaining (sectionSizes arrayText recordText ctx categories)) :
    ∃ a', categories.foldlM (allocate arrayText recordText ctx) a = some a' ∧
      a'.total ctx.config.tokenEstimationMode + a'.remaining =
        a.total ctx.config.tokenEstimationMode + a.remaining := by
  induction categories generalizing a with
  | nil => exact ⟨a, rfl, rfl⟩
  | cons c rest ih =>
    obtain ⟨hmem, hnone⟩ := hpending c List.mem_cons_self
    obtain ⟨hroom, hrest⟩ := henough
    have hcap : saturatingMul a.remaining 4 ≤ a.remaining * 4 := Nat.min_le_left _ _
    have hroom' : (sectionSize arrayText recordText (ctx.getCategory c)).full ≤
        saturatingMul a.remaining 4 ∨ 14 ≤ saturatingMul a.remaining 4 := by
      refine hroom.imp_right fun hfour => ?_
      unfold saturatingMul usizeMax
      omega
    obtain ⟨text, flag, hformat, htaken, hle⟩ := formatRecords_of_room hroom'
    obtain ⟨a₁, hstep, htotal, hremaining, hsame⟩ := allocate_of_format hmem hnone hformat
    rw [← htaken, ← hremaining] at hrest
    obtain ⟨a', hfold, hkept⟩ :=
      ih (List.nodup_cons.mp hnodup).2 (hpending.tail hnodup hsame) hrest
    refine ⟨a', ?_, ?_⟩
    · rw [List.foldlM_cons, hstep]
      exact hfold
    · omega

theorem foldlM_of_not_enough (hnodup : categories.Nodup) (hpending : Pending a categories)
    (henough : ¬Enough a.remaining (sectionSizes arrayText recordText ctx categories))
    (h : categories.foldlM (allocate arrayText recordText ctx) a = some a') :
    a.total ctx.config.tokenEstimationMode + a.remaining <
      a'.total ctx.config.tokenEstimationMode := by
  induction categories generalizing a with
  | nil => exact absurd trivial henough
  | cons c rest ih =>
    obtain ⟨hmem, hnone⟩ := hpending c List.mem_cons_self
    have hcap : saturatingMul a.remaining 4 ≤ a.remaining * 4 := Nat.min_le_left _ _
    rw [List.foldlM_cons] at h
    by_cases hroom : (sectionSize arrayText recordText (ctx.getCategory c)).full ≤
        saturatingMul a.remaining 4 ∨ 4 ≤ a.remaining
    · have hroom' : (sectionSize arrayText recordText (ctx.getCategory c)).full ≤
          saturatingMul a.remaining 4 ∨ 14 ≤ saturatingMul a.remaining 4 := by
        refine hroom.imp_right fun hfour => ?_
        unfold saturatingMul usizeMax
        omega
      obtain ⟨text, flag, hformat, htaken, hle⟩ := formatRecords_of_room hroom'
      obtain ⟨a₁, hstep, htotal, hremaining, hsame⟩ := allocate_of_format hmem hnone hformat
      have hrest : ¬Enough a₁.remaining (sectionSizes arrayText recordText ctx rest) := by
        rw [hremaining, htaken]
        exact fun hrest => henough ⟨hroom, hrest⟩
      rw [hstep] at h
      have hmore := ih (List.nodup_cons.mp hnodup).2 (hpending.tail hnodup hsame) hrest h
      omega
    · rw [not_or] at hroom
      rcases formatRecords_of_no_room (not_le.mp hroom.1) (by omega) with
        hformat | ⟨text, flag, hformat, hlength⟩
      · rw [allocate_of_panic hformat] at h
        cases h
      · -- the marker and the brackets alone are four tokens
        obtain ⟨a₁, hstep, htotal, -, hsame⟩ := allocate_of_format hmem hnone hformat
        rw [hstep] at h
        have hmore := total_le_of_foldlM (List.nodup_cons.mp hnodup).2
          (hpending.tail hnodup hsame) h
        omega

/-- `build_prompt_budget` does not panic and stays within the budget. -/
def WithinBudget (arrayText : List RecordEntry → Option String)
    (recordText : RecordEntry → Option String) (ctx : AgentContext) (maxTokens : Nat) : Prop :=
  ∃ data, buildPromptBudget arrayText recordText ctx maxTokens = some data ∧
    data.estimatedTokens ≤
      max maxTokens (estimateTokens ctx.userInput.rawText ctx.config.tokenEstimationMode)

/-- A prompt is within its budget exactly if no section is to be cut with fewer than four
tokens left. -/
theorem withinBudget_iff_enough (arrayText : List RecordEntry → Option String)
    (recordText : RecordEntry → Option String) (ctx : AgentContext) (maxTokens : Nat) :
    WithinBudget arrayText recordText ctx maxTokens ↔
      Enough
        (maxTokens - estimateTokens ctx.userInput.rawText ctx.config.tokenEstimationMode)
        (sectionSizes arrayText recordText ctx priorities) := by
  have hpending : Pending (.initial
      (maxTokens - estimateTokens ctx.userInput.rawText ctx.config.tokenEstimationMode))
      priorities := by
    intro c hc
    refine ⟨hc, ?_⟩
    cases c <;> rfl
  have hzero : (Allocation.initial
      (maxTokens - estimateTokens ctx.userInput.rawText ctx.config.tokenEstimationMode)).total
      ctx.config.tokenEstimationMode = 0 := rfl
  unfold WithinBudget buildPromptBudget
  constructor
  · rintro ⟨data, hbuild, hle⟩
    by_contra henough
    obtain ⟨a, hfold, hdata⟩ := Option.bind_eq_some_iff.mp hbuild
    obtain rfl := Option.some.inj hdata
    have hmore := foldlM_of_not_enough (by decide) hpending henough hfold
    rw [hzero] at hmore
    unfold Allocation.total at hmore
    simp only [Allocation.initial] at hmore hle
    omega
  · intro henough
    obtain ⟨a, hfold, hkept⟩ := foldlM_of_enough (by decide) hpending henough
    refine ⟨_, Option.bind_eq_some_iff.mpr ⟨a, hfold, rfl⟩, ?_⟩
    rw [hzero] at hkept
    unfold Allocation.total at hkept
    simp only [Allocation.initial] at hkept ⊢
    omega

/-- The text of a record with the value `null` of the iteration and the time 0. -/
def nullRecordText (r : RecordEntry) : String :=
  "\x7b\"key\":\"" ++ r.key ++ "\",\"value\":null,\"source\":\"" ++ r.source ++
    "\",\"timestamp\":0,\"iteration\":0\x7d"

/-- The text of a list of such records. -/
def nullRecordsText (records : List RecordEntry) : String :=
  "[" ++ ",".intercalate (records.map nullRecordText) ++ "]"

/-- A new context with one reasoning result. -/
def oneResult : AgentContext :=
  let ctx := AgentContext.new 0 "ctx" ⟨"hello", none, none, 0, []⟩ .default
  ctx.ignoring (ctx.setRecord id 0 .reasoningResults "k" .null "s" 0)

/-- With one reasoning result and no tokens, `0 - 14` underflows. -/
theorem underflow_without_tokens :
    buildPromptBudget (fun records => some (nullRecordsText records))
        (fun r => some (nullRecordText r)) oneResult 0 = none ∧
      ¬WithinBudget (fun records => some (nullRecordsText records))
        (fun r => some (nullRecordText r)) oneResult 0 := by
  have hnone : buildPromptBudget (fun records => some (nullRecordsText records))
      (fun r => some (nullRecordText r)) oneResult 0 = none := rfl
  refine ⟨hnone, ?_⟩
  rintro ⟨data, hbuild, -⟩
  rw [hnone] at hbuild
  cases hbuild

end Serializer

end Context

end HiveClaw
