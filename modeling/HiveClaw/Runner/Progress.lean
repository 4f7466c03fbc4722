import HiveClaw.Lib.Runs
import HiveClaw.Utils.Think

/-!
# Progress of a stream

The progress-streaming mode of `request_model` in `crates/agent/src/runner.rs`. The callback of the
provider appends each delta to a buffer, feeds the buffer to the extractor of thinking text and
sends the delta to a task; for each delta the task cleans the buffer as it is by then
(`strip_think`) and reports what is beyond the length it has reported. When the stream is over the
task is aborted. A panic of the extractor ends the stream before the delta is sent.

The cleaned text of a buffer that grows does not always grow: a block that is closed disappears from
the middle, and the length that was reported may then fall anywhere. The task does not panic and
reports the cleaned text of the final buffer as long as no cleaned text that it reads contradicts
what was reported, and it reads the final one (`streams_of_steady`).
-/

namespace HiveClaw.Runner

open Lib.Runs Utils

/-! ## The task -/

/-- The buffer, the extractor that the callback feeds and the thinking text it has collected, the
deltas that wait for the task, and the state of the task. `broken` holds after a panic of the
callback, and `checking` after a report whose callback is awaited, before the buffer is looked at
again. -/
structure Progress where
  buffer : String := ""
  extractor : IncrementalThinkExtractor := {}
  thinking : String := ""
  broken : Bool := false
  queued : Nat := 0
  checking : Bool := false
  prevCleanLen : Nat := 0
  reasoningOpen : Bool := false
  reasoning : List String := []
  increments : List String := []
deriving DecidableEq, Repr

/-- What happens next: a delta, or a step of the task. -/
inductive StreamEvent where
  | delta (text : String)
  | task
deriving DecidableEq, Repr

namespace Progress

def reported (st : Progress) : String := String.join st.increments

/-- `on_content_delta`. The panic of a slice in `feed` ends the stream: the delta is in the buffer,
but is not sent, and no other delta comes. -/
def onContentDelta (st : Progress) (delta : String) : Progress :=
  let fullBuf := st.buffer ++ delta
  if st.broken then st
  else
    match st.extractor.feed fullBuf with
    | some (piece, extractor) =>
      { st with
        buffer := fullBuf, extractor, thinking := st.thinking ++ piece.getD ""
        reasoning := st.reasoning ++ piece.toList, queued := st.queued + 1 }
    | none => { st with buffer := fullBuf, broken := true }

/-- `progress_cb(&cleaned[prev_clean_len..])`; `none` is a panic. -/
def reportIncrement (st : Progress) (cleaned : String) : Option Progress :=
  (sliceFrom cleaned st.prevCleanLen).map fun incremental =>
    if incremental = "" then st
    else { st with
      increments := st.increments ++ [incremental], prevCleanLen := cleaned.utf8ByteSize }

/-- The body of the loop, up to the first `await`. -/
def received (st : Progress) : Option Progress :=
  let (thinking, cleaned) := extractThink st.buffer
  let st := match thinking.filter fun t => t ≠ "" with
    | some t => { st with reasoning := st.reasoning ++ [t], reasoningOpen := true }
    | none => st
  if st.reasoningOpen then
    if cleaned = "" ∨ cleaned.utf8ByteSize ≤ st.prevCleanLen then some st
    else (st.reportIncrement cleaned).map fun st => { st with checking := true }
  else
    let cleanedText := stripThink st.buffer
    if cleanedText.utf8ByteSize ≤ st.prevCleanLen then some st
    else st.reportIncrement cleanedText

/-- The rest of the body: whether the reasoning is closed. -/
def checkReasoning (st : Progress) : Progress :=
  let (thinking, cleaned) := extractThink st.buffer
  { st with
    checking := false
    reasoningOpen := if thinking.isNone ∧ cleaned ≠ "" then false else st.reasoningOpen }

/-- A step of the task; it waits where there is no delta. -/
def taskStep (st : Progress) : Option Progress :=
  if st.checking then some st.checkReasoning
  else if st.queued = 0 then some st
  else received { st with queued := st.queued - 1 }

end Progress

/-- The next state; `none` after a panic of the task. -/
def progressStep (st : Option Progress) : StreamEvent → Option Progress
  | .delta text => st.map fun st => st.onContentDelta text
  | .task => st.bind Progress.taskStep

-- the second slice of the extractor falls inside a character, and `hello` is never sent
example :
    (Lib.Runs.run progressStep (some {})
      [.delta "<thought>é</thought>", .delta "<think>工</think>hello"]).map
        (fun st => (st.buffer, st.broken, st.queued)) =
      some ("<thought>é</thought><think>工</think>hello", true, 1) := by decide +kernel

/-- The event is a step at which the task takes a delta and reads the buffer. -/
def Progress.Reads (st : Progress) (e : StreamEvent) : Prop :=
  e = .task ∧ st.checking = false ∧ 0 < st.queued

instance (st : Progress) (e : StreamEvent) : Decidable (st.Reads e) :=
  inferInstanceAs (Decidable (_ ∧ _ ∧ _))

/-- The cleaned texts that the task reads. -/
def cleanedReads : Option Progress → List StreamEvent → List String
  | some st, e :: events =>
    (if st.Reads e then [stripThink st.buffer] else []) ++
      cleanedReads (progressStep (some st) e) events
  | _, _ => []

/-! ## What the task should do -/

/-- The run up to the abort: the task does not panic, and all increments are the cleaned text of the
final buffer. -/
def Streams (events : List StreamEvent) : Prop :=
  ∃ st, Lib.Runs.run progressStep (some {}) events = some st ∧ st.reported = stripThink st.buffer

/-- Where the task reads the buffer, its cleaned text begins with what was reported, or is shorter
and nothing is reported. -/
def CleanedGoesOn (st : Option Progress) (e : StreamEvent) : Prop :=
  ∃ s, st = some s ∧ (s.Reads e →
    (stripThink s.buffer).utf8ByteSize < s.reported.utf8ByteSize ∨
      s.reported.toList <+: (stripThink s.buffer).toList)

instance (e : StreamEvent) : ∀ st, Decidable (CleanedGoesOn st e)
  | none => isFalse fun ⟨_, hnone, _⟩ => nomatch hnone
  | some s =>
    decidable_of_iff (s.Reads e →
      (stripThink s.buffer).utf8ByteSize < s.reported.utf8ByteSize ∨
        s.reported.toList <+: (stripThink s.buffer).toList)
      ⟨fun h => ⟨s, rfl, h⟩, fun ⟨_, hs, h⟩ => Option.some.inj hs ▸ h⟩

/-- At every read the cleaned text goes on from what was reported. The one of the final buffer is
empty or was read, and none that was read is longer. -/
structure Steady (events : List StreamEvent) : Prop where
  goesOn : Meets progressStep CleanedGoesOn (some {}) events
  reads : ∀ st, Lib.Runs.run progressStep (some {}) events = some st →
    stripThink st.buffer ∈ "" :: cleanedReads (some {}) events ∧
      ∀ cleaned ∈ cleanedReads (some {}) events,
        cleaned.utf8ByteSize ≤ (stripThink st.buffer).utf8ByteSize

/-! ## One delta -/

namespace Progress

/-- The state after the thinking text was passed on. -/
def openReasoning (st : Progress) : Progress :=
  match (extractThink st.buffer).1.filter fun t => t ≠ "" with
  | some t => { st with reasoning := st.reasoning ++ [t], reasoningOpen := true }
  | none => st

/-- What a step leaves alone that only passes reasoning on. -/
structure SameReports (st st' : Progress) : Prop where
  buffer : st'.buffer = st.buffer
  prevCleanLen : st'.prevCleanLen = st.prevCleanLen
  increments : st'.increments = st.increments

theorem sameReports_openReasoning (st : Progress) : SameReports st st.openReasoning := by
  unfold openReasoning
  split
  · exact ⟨rfl, rfl, rfl⟩
  · exact ⟨rfl, rfl, rfl⟩

theorem received_eq (st : Progress) :
    st.received =
      if (stripThink st.buffer).utf8ByteSize ≤ st.prevCleanLen then some st.openReasoning
      else (st.openReasoning.reportIncrement (stripThink st.buffer)).map fun st' =>
        if st.openReasoning.reasoningOpen then { st' with checking := true } else st' := by
  have hsame := st.sameReports_openReasoning
  have hbody : st.received =
      if st.openReasoning.reasoningOpen then
        if stripThink st.buffer = "" ∨
            (stripThink st.buffer).utf8ByteSize ≤ st.openReasoning.prevCleanLen then
          some st.openReasoning
        else (st.openReasoning.reportIncrement (stripThink st.buffer)).map fun st =>
          { st with checking := true }
      else if (stripThink st.openReasoning.buffer).utf8ByteSize ≤
          st.openReasoning.prevCleanLen then some st.openReasoning
      else st.openReasoning.reportIncrement (stripThink st.openReasoning.buffer) := rfl
  rw [hbody, hsame.buffer, hsame.prevCleanLen]
  have hempty : stripThink st.buffer = "" ∨
      (stripThink st.buffer).utf8ByteSize ≤ st.prevCleanLen ↔
      (stripThink st.buffer).utf8ByteSize ≤ st.prevCleanLen := by
    refine or_iff_right_of_imp fun hnone => ?_
    rw [hnone]
    exact Nat.zero_le _
  by_cases hopen : st.openReasoning.reasoningOpen = true
  · simp only [hopen, if_true, hempty]
  · simp only [hopen, hempty]
    simp

theorem SameReports.reported {st st' : Progress} (h : SameReports st st') :
    st'.reported = st.reported := by
  unfold Progress.reported
  rw [h.increments]

/-- The task counts what it has reported. -/
def Tallied (st : Progress) : Prop := st.prevCleanLen = st.reported.utf8ByteSize

variable {st : Progress}

theorem SameReports.tallied {st' : Progress} (h : SameReports st st') (hst : st.Tallied) :
    st'.Tallied := by
  unfold Tallied at hst ⊢
  rw [h.prevCleanLen, h.reported, hst]

theorem received_of_slice {rest : String}
    (hlt : st.prevCleanLen < (stripThink st.buffer).utf8ByteSize)
    (hcut : sliceFrom (stripThink st.buffer) st.prevCleanLen = some rest) :
    ∃ st', st.received = some st' ∧ st'.buffer = st.buffer ∧
      st'.reported = st.reported ++ rest ∧
      st'.prevCleanLen = (stripThink st.buffer).utf8ByteSize := by
  have hsame := st.sameReports_openReasoning
  have hrest : rest ≠ "" := by
    rintro rfl
    obtain ⟨front, hfront, hlen⟩ := sliceFrom_eq_some_iff.mp hcut
    rw [String.append_empty] at hfront
    rw [← hfront, hlen] at hlt
    exact lt_irrefl _ hlt
  have hreport : st.openReasoning.reportIncrement (stripThink st.buffer) =
      some { st.openReasoning with
        increments := st.openReasoning.increments ++ [rest]
        prevCleanLen := (stripThink st.buffer).utf8ByteSize } := by
    unfold reportIncrement
    rw [hsame.prevCleanLen, hcut, Option.map_some, if_neg hrest]
  have hreported : String.join (st.openReasoning.increments ++ [rest]) = st.reported ++ rest := by
    rw [hsame.increments, String.join_append, String.join_cons, String.join_nil,
      String.append_empty]
    rfl
  rw [received_eq, if_neg (Nat.not_le.mpr hlt), hreport, Option.map_some]
  generalize (stripThink st.buffer).utf8ByteSize = size
  by_cases hopen : st.openReasoning.reasoningOpen = true
  · rw [if_pos hopen]
    exact ⟨_, rfl, hsame.buffer, hreported, rfl⟩
  · rw [if_neg hopen]
    exact ⟨_, rfl, hsame.buffer, hreported, rfl⟩

theorem received_of_le (hle : (stripThink st.buffer).utf8ByteSize ≤ st.prevCleanLen) :
    st.received = some st.openReasoning := by
  rw [received_eq, if_pos hle]

/-- **One delta.** The task does not panic where the cleaned text goes on from what was reported;
afterwards the longer one of the two texts is reported. -/
theorem received_of_goesOn (hst : st.Tallied)
    (h : (stripThink st.buffer).utf8ByteSize < st.reported.utf8ByteSize ∨
      st.reported.toList <+: (stripThink st.buffer).toList) :
    ∃ st', st.received = some st' ∧ st'.Tallied ∧ st'.reported =
      if (stripThink st.buffer).utf8ByteSize < st.reported.utf8ByteSize then st.reported
      else stripThink st.buffer := by
  by_cases hle : (stripThink st.buffer).utf8ByteSize ≤ st.prevCleanLen
  · have hsame := st.sameReports_openReasoning
    refine ⟨_, received_of_le hle, hsame.tallied hst, ?_⟩
    rw [hsame.reported]
    split
    · rfl
    · next hnot =>
      rw [hst, Lib.utf8ByteSize_eq_byteLen, Lib.utf8ByteSize_eq_byteLen] at hle
      exact String.toList_injective (Lib.eq_of_prefix_of_byteLen_le (h.resolve_left hnot) hle)
  · have hlt := Nat.lt_of_not_le hle
    have hnot : ¬ (stripThink st.buffer).utf8ByteSize < st.reported.utf8ByteSize := by
      rw [← hst]
      exact fun hshort => hle (Nat.le_of_lt hshort)
    obtain ⟨rest, hrest⟩ := h.resolve_left hnot
    have happend : st.reported ++ String.ofList rest = stripThink st.buffer := by
      apply String.toList_injective
      rw [String.toList_append, String.toList_ofList, hrest]
    have hcut : sliceFrom (stripThink st.buffer) st.prevCleanLen = some (String.ofList rest) :=
      sliceFrom_eq_some_iff.mpr ⟨st.reported, happend, hst.symm⟩
    obtain ⟨st', hst', -, hreported, hprev⟩ := received_of_slice hlt hcut
    have hcleaned : st'.reported = stripThink st.buffer := hreported.trans happend
    refine ⟨st', hst', ?_, by rw [if_neg hnot, hcleaned]⟩
    unfold Tallied
    rw [hprev, hcleaned]

end Progress

/-! ## The run -/

theorem reports_onContentDelta (st : Progress) (delta : String) :
    (st.onContentDelta delta).increments = st.increments ∧
      (st.onContentDelta delta).prevCleanLen = st.prevCleanLen := by
  unfold Progress.onContentDelta
  dsimp only
  split
  · exact ⟨rfl, rfl⟩
  · split
    · exact ⟨rfl, rfl⟩
    · exact ⟨rfl, rfl⟩

variable {st : Progress} {e : StreamEvent}

theorem progressStep_of_not_reads (h : ¬ st.Reads e) :
    ∃ st', progressStep (some st) e = some st' ∧ st'.increments = st.increments ∧
      st'.prevCleanLen = st.prevCleanLen := by
  cases e with
  | delta text => exact ⟨_, rfl, reports_onContentDelta st text⟩
  | task =>
    show ∃ st', st.taskStep = some st' ∧ _
    unfold Progress.taskStep
    by_cases hchecking : st.checking = true
    · rw [if_pos hchecking]
      exact ⟨_, rfl, rfl, rfl⟩
    · rw [if_neg hchecking]
      have hqueued : st.queued = 0 := by
        by_contra hne
        exact h ⟨rfl, Bool.not_eq_true _ ▸ hchecking, Nat.pos_of_ne_zero hne⟩
      rw [if_pos hqueued]
      exact ⟨_, rfl, rfl, rfl⟩

theorem progressStep_of_reads (h : st.Reads e) :
    progressStep (some st) e = Progress.received { st with queued := st.queued - 1 } := by
  obtain ⟨rfl, hchecking, hqueued⟩ := h
  show st.taskStep = _
  unfold Progress.taskStep
  rw [if_neg (by rw [hchecking]; simp), if_neg (Nat.ne_of_gt hqueued)]

/-- `text` is the longest of the texts, and the only one of its length. -/
structure Longest (text : String) (texts : List String) : Prop where
  mem : text ∈ texts
  le : ∀ t ∈ texts, t.utf8ByteSize ≤ text.utf8ByteSize
  unique : ∀ t ∈ texts, t.utf8ByteSize = text.utf8ByteSize → t = text

/-- A text that goes on from the first one takes its place. -/
theorem Longest.cons {text first cleaned : String} {rest : List String}
    (h : cleaned.utf8ByteSize < first.utf8ByteSize ∨ first.toList <+: cleaned.toList)
    (hlongest : Longest text
      ((if cleaned.utf8ByteSize < first.utf8ByteSize then first else cleaned) :: rest)) :
    Longest text (first :: cleaned :: rest) := by
  by_cases hshort : cleaned.utf8ByteSize < first.utf8ByteSize
  · rw [if_pos hshort] at hlongest
    have hfirst := hlongest.le first List.mem_cons_self
    refine ⟨?_, ?_, ?_⟩
    · rcases List.mem_cons.mp hlongest.mem with rfl | hmem
      · exact List.mem_cons_self
      · exact List.mem_cons_of_mem _ (List.mem_cons_of_mem _ hmem)
    · intro t ht
      rcases List.mem_cons.mp ht with rfl | ht
      · exact hfirst
      rcases List.mem_cons.mp ht with rfl | ht
      · exact Nat.le_trans (Nat.le_of_lt hshort) hfirst
      · exact hlongest.le t (List.mem_cons_of_mem _ ht)
    · intro t ht hsize
      rcases List.mem_cons.mp ht with rfl | ht
      · exact hlongest.unique t List.mem_cons_self hsize
      rcases List.mem_cons.mp ht with rfl | ht
      · omega
      · exact hlongest.unique t (List.mem_cons_of_mem _ ht) hsize
  · rw [if_neg hshort] at hlongest
    have hprefix := h.resolve_left hshort
    have hsizes : first.utf8ByteSize ≤ cleaned.utf8ByteSize := Nat.le_of_not_lt hshort
    have hcleaned := hlongest.le cleaned List.mem_cons_self
    refine ⟨List.mem_cons_of_mem _ hlongest.mem, ?_, ?_⟩
    · intro t ht
      rcases List.mem_cons.mp ht with rfl | ht
      · exact Nat.le_trans hsizes hcleaned
      · exact hlongest.le t ht
    · intro t ht hsize
      rcases List.mem_cons.mp ht with rfl | ht
      · -- as long as the text it is a prefix of
        have hsame : cleaned.utf8ByteSize ≤ t.utf8ByteSize := by omega
        rw [Lib.utf8ByteSize_eq_byteLen, Lib.utf8ByteSize_eq_byteLen] at hsame
        have heq := String.toList_injective (Lib.eq_of_prefix_of_byteLen_le hprefix hsame)
        rw [heq] at hsize ⊢
        exact hlongest.unique cleaned List.mem_cons_self hsize
      · exact hlongest.unique t ht hsize

/-- In a run whose cleaned texts go on, the longest of them is what is reported in the end. -/
theorem run_longest (events : List StreamEvent) (s : Progress) (hs : s.Tallied)
    (h : Meets progressStep CleanedGoesOn (some s) events) :
    ∃ st, Lib.Runs.run progressStep (some s) events = some st ∧
      Longest st.reported (s.reported :: cleanedReads (some s) events) := by
  induction events generalizing s with
  | nil =>
    refine ⟨s, rfl, List.mem_cons_self, ?_, ?_⟩
    · exact fun t ht => Nat.le_of_eq (congrArg _ (List.mem_singleton.mp ht))
    · exact fun t ht _ => List.mem_singleton.mp ht
  | cons e events ih =>
    obtain ⟨⟨s₀, hs₀, hgoes⟩, hrest⟩ := h
    obtain rfl := Option.some.inj hs₀
    rw [cleanedReads]
    by_cases hreads : s.Reads e
    · obtain ⟨s', hstep, htallied, hreported⟩ :=
        @Progress.received_of_goesOn { s with queued := s.queued - 1 } hs (hgoes hreads)
      rw [← progressStep_of_reads hreads] at hstep
      rw [hstep] at hrest
      obtain ⟨st, hrun, hlongest⟩ := ih s' htallied hrest
      rw [hreported] at hlongest
      rw [if_pos hreads, hstep]
      refine ⟨st, ?_, hlongest.cons (hgoes hreads)⟩
      show Lib.Runs.run progressStep (progressStep (some s) e) events = some st
      rw [hstep, hrun]
    · obtain ⟨s', hstep, hincrements, hprev⟩ := progressStep_of_not_reads hreads
      have hreported : s'.reported = s.reported := congrArg String.join hincrements
      have htallied : s'.Tallied := by
        unfold Progress.Tallied at hs ⊢
        rw [hprev, hreported, hs]
      rw [hstep] at hrest
      obtain ⟨st, hrun, hlongest⟩ := ih s' htallied hrest
      rw [if_neg hreads, hstep, ← hreported]
      refine ⟨st, ?_, hlongest⟩
      show Lib.Runs.run progressStep (progressStep (some s) e) events = some st
      rw [hstep, hrun]

/-- **Progress of a stream.** Over every sequence of deltas, and every order in which they come and
the task runs: the task never panics, and its increments are the cleaned text of the final buffer,
if each cleaned text that it reads goes on from what was reported and the one of the final buffer
is among them. -/
theorem streams_of_steady {events : List StreamEvent} (h : Steady events) : Streams events := by
  obtain ⟨st, hrun, hlongest⟩ := run_longest events {} rfl h.goesOn
  obtain ⟨hmem, hle⟩ := h.reads st hrun
  have hempty : ({} : Progress).reported = "" := rfl
  rw [hempty] at hlongest
  refine ⟨st, hrun, (hlongest.unique _ hmem ?_).symm⟩
  refine Nat.le_antisymm (hlongest.le _ hmem) ?_
  rcases List.mem_cons.mp hlongest.mem with hnone | hread
  · rw [hnone]
    exact Nat.zero_le _
  · exact hle _ hread

/-- A block in front of a text, and more of the text. -/
def closedFirst : List StreamEvent :=
  [.delta "<think>a</think>b", .task, .task, .delta "c", .task]

theorem streams_closedFirst : Streams closedFirst := by
  have hreads : cleanedReads (some {}) closedFirst = ["b", "bc"] := by decide +kernel
  have hfinal : (Lib.Runs.run progressStep (some {}) closedFirst).map (fun st =>
      stripThink st.buffer) = some "bc" := by decide +kernel
  refine streams_of_steady ⟨by decide +kernel, fun st hrun => ?_⟩
  rw [hrun] at hfinal
  have hcleaned : stripThink st.buffer = "bc" := Option.some.inj hfinal
  rw [hreads, hcleaned]
  decide

/-- A stream whose second delta closes a block behind other text. -/
def closedLate : List StreamEvent := [.delta "a<think>b", .task, .delta "</think>", .task]

/-- The first report has the open block in it; the cleaned text is then shorter, and the report
stays. -/
theorem not_streams_closedLate : ¬ Streams closedLate := by
  rintro ⟨st, hrun, hreported⟩
  have hfinal : (Lib.Runs.run progressStep (some {}) closedLate).map (fun st =>
      (st.buffer, st.reported)) = some ("a<think>b</think>", "a<think>b") := by decide +kernel
  rw [hrun] at hfinal
  obtain ⟨hbuffer, hincrements⟩ := Prod.mk.inj (Option.some.inj hfinal)
  rw [hbuffer, hincrements] at hreported
  revert hreported
  decide +kernel

end HiveClaw.Runner
