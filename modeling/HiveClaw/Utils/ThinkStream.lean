import HiveClaw.Lib.Runs
import HiveClaw.Utils.Ink
import HiveClaw.Utils.Think

/-!
# Thinking text of a stream

`IncrementalThinkExtractor::feed` on a buffer that grows: the callback of `request_model` in
`crates/agent/src/runner.rs` appends a delta and feeds the whole buffer.

The extractor remembers the thinking text it has seen and cuts the new one at its length. The
blocks of a buffer that grows stay (`blocksOf_prefix`), but all `<think>` blocks come before all
`<thought>` blocks, so a `<think>` block that is completed after a `<thought>` block goes in front
of what was emitted. What is emitted is new exactly if the old text stays at the front, as it does
where this does not happen (`meets_emitsNew_iff`).
-/

namespace HiveClaw.Utils

open Lib Lib.Runs

/-! ## The stream -/

/-- The buffer, the extractor and what was emitted. -/
structure ThinkStream where
  buffer : String := ""
  extractor : IncrementalThinkExtractor := {}
  pieces : List String := []
deriving DecidableEq, Repr

/-- `on_content_delta`; `none` is a panic, in this call or before. -/
def onContentDelta (st : Option ThinkStream) (delta : String) : Option ThinkStream := do
  let st ← st
  let buffer := st.buffer ++ delta
  let (piece, extractor) ← st.extractor.feed buffer
  some { buffer, extractor, pieces := st.pieces ++ piece.toList }

/-- The thinking text of a buffer, empty if there is none. -/
def thinkingText (buffer : String) : String := ((extractThink buffer).1).getD ""

/-- The piece for a text: trimmed, and none if nothing is left. -/
def pieceOf (text : String) : List String :=
  if RustStr.trim text = "" then [] else [RustStr.trim text]

/-- A delta is handled without a panic, what it emits is what the thinking text gained, and all
pieces together are the thinking text, up to white space. -/
def EmitsNew (st : Option ThinkStream) (delta : String) : Prop :=
  ∃ s s', st = some s ∧ onContentDelta st delta = some s' ∧
    (∃ gained, thinkingText s'.buffer = thinkingText s.buffer ++ gained ∧
      s'.pieces = s.pieces ++ pieceOf gained) ∧
    inked (String.join s'.pieces) = inked (thinkingText s'.buffer)

/-- The delta completes no `<think>` block, or there is no `<thought>` block yet. -/
def InOrder (buffer delta : String) : Prop :=
  blocksOf "think" (buffer ++ delta) = blocksOf "think" buffer ∨ blocksOf "thought" buffer = []

/-- The thinking text goes on: what it was stays at its front. -/
def GoesOn (st : Option ThinkStream) (delta : String) : Prop :=
  ∃ s, st = some s ∧
    (thinkingText s.buffer).toList <+: (thinkingText (s.buffer ++ delta)).toList

/-! ## Blocks of a buffer that grows -/

theorem blocksOf_prefix (tag text more : String) :
    blocksOf tag text <+: blocksOf tag (text ++ more) := by
  unfold blocksOf
  rw [String.toList_append]
  exact ((Regex.captures_block_prefix _ _ text.toList more.toList).map _).filter _

theorem thinkingText_eq (buffer : String) :
    thinkingText buffer = String.intercalate "\n\n" (thinkParts buffer) := by
  unfold thinkingText extractThink
  cases thinkParts buffer with
  | nil => rfl
  | cons part parts => rfl

theorem intercalate_prefix (sep : String) (parts more : List String) :
    (String.intercalate sep parts).toList <+: (String.intercalate sep (parts ++ more)).toList := by
  by_cases hparts : parts = []
  · rw [hparts, String.intercalate_nil]
    exact List.nil_prefix
  · by_cases hmore : more = []
    · rw [hmore, List.append_nil]
    · rw [String.intercalate_append_of_ne_nil hparts hmore, String.append_assoc,
        String.toList_append]
      exact List.prefix_append _ _

variable {delta : String}

/-- In order, the thinking text goes on. -/
theorem prefix_of_inOrder {buffer : String} (h : InOrder buffer delta) :
    (thinkingText buffer).toList <+: (thinkingText (buffer ++ delta)).toList := by
  obtain ⟨thinks, hthinks⟩ := blocksOf_prefix "think" buffer delta
  obtain ⟨thoughts, hthoughts⟩ := blocksOf_prefix "thought" buffer delta
  have hparts : ∃ more, thinkParts (buffer ++ delta) = thinkParts buffer ++ more := by
    unfold thinkParts
    rcases h with hsame | hnone
    · exact ⟨thoughts, by rw [hsame, ← hthoughts, List.append_assoc]⟩
    · exact ⟨thinks ++ blocksOf "thought" (buffer ++ delta), by
        rw [hnone, ← hthinks, List.append_nil, List.append_assoc]⟩
  obtain ⟨more, hmore⟩ := hparts
  rw [thinkingText_eq, thinkingText_eq, hmore]
  exact intercalate_prefix _ _ _

/-! ## White space -/

theorem inked_join_pieceOf (pieces : List String) (text : String) :
    inked (String.join (pieces ++ pieceOf text)) = inked (String.join pieces) ++ inked text := by
  unfold pieceOf
  split
  · rename_i hempty
    have hnone : inked text = [] := by
      rw [← inked_trim, hempty]
      rfl
    rw [List.append_nil, hnone, List.append_nil]
  · rw [String.join_append, inked_append, String.join_cons, String.join_nil, String.append_empty,
      inked_trim]

/-! ## A delta -/

/-- What was emitted last is the thinking text of the buffer, and all pieces together are it. -/
structure UpToDate (s : ThinkStream) : Prop where
  emitted : s.extractor.emitted = thinkingText s.buffer
  pieces : inked (String.join s.pieces) = inked (thinkingText s.buffer)

variable {gained : String}

theorem feed_of_append {emitted buffer : String} (h : thinkingText buffer = emitted ++ gained) :
    IncrementalThinkExtractor.feed { emitted } buffer =
      some ((pieceOf gained).head?, { emitted := thinkingText buffer }) := by
  unfold IncrementalThinkExtractor.feed
  have hthinking : thinkingText buffer = ((extractThink buffer).1).getD "" := rfl
  cases hfound : (extractThink buffer).1 with
  | none =>
    rw [hfound, Option.getD_none] at hthinking
    rw [hthinking] at h
    obtain ⟨rfl, rfl⟩ := String.append_eq_empty_iff.mp h.symm
    rw [hthinking]
    rfl
  | some thinking =>
    rw [hfound, Option.getD_some] at hthinking
    rw [hthinking] at h
    subst h
    dsimp only
    by_cases hsame : emitted ++ gained = emitted
    · obtain rfl := String.append_eq_left_iff.mp hsame
      rw [if_pos hsame, hthinking, hsame]
      rfl
    · have hgained : gained ≠ "" := fun hempty => hsame (String.append_eq_left_iff.mpr hempty)
      have hlonger : (emitted ++ gained).utf8ByteSize > emitted.utf8ByteSize := by
        have hpos : gained.utf8ByteSize ≠ 0 := fun h =>
          hgained (String.utf8ByteSize_eq_zero_iff.mp h)
        rw [String.utf8ByteSize_append]
        omega
      rw [if_neg hsame, if_pos hlonger, sliceFrom_eq_some_iff.mpr ⟨emitted, rfl, rfl⟩, hthinking]
      unfold pieceOf
      simp only [Option.map_some, Option.bind_eq_bind, Option.bind_some]
      split <;> rfl

variable {s : ThinkStream}

theorem onContentDelta_of_append (hs : UpToDate s)
    (h : thinkingText (s.buffer ++ delta) = thinkingText s.buffer ++ gained) :
    onContentDelta (some s) delta =
      some { buffer := s.buffer ++ delta
             extractor := { emitted := thinkingText (s.buffer ++ delta) }
             pieces := s.pieces ++ pieceOf gained } := by
  have hextractor : s.extractor = { emitted := thinkingText s.buffer } :=
    congrArg IncrementalThinkExtractor.mk hs.emitted
  have hpiece : (pieceOf gained).head?.toList = pieceOf gained := by
    unfold pieceOf
    split <;> rfl
  unfold onContentDelta
  simp only [Option.bind_eq_bind, Option.bind_some]
  rw [hextractor, feed_of_append h, Option.bind_some, hpiece]

theorem upToDate_of_append (hs : UpToDate s)
    (h : thinkingText (s.buffer ++ delta) = thinkingText s.buffer ++ gained) :
    UpToDate { buffer := s.buffer ++ delta
               extractor := { emitted := thinkingText (s.buffer ++ delta) }
               pieces := s.pieces ++ pieceOf gained } where
  emitted := rfl
  pieces := by
    dsimp only
    rw [inked_join_pieceOf, hs.pieces, h, inked_append]

theorem buffer_onContentDelta {s' : ThinkStream} (h : onContentDelta (some s) delta = some s') :
    s'.buffer = s.buffer ++ delta := by
  unfold onContentDelta at h
  simp only [Option.bind_eq_bind, Option.bind_some] at h
  obtain ⟨fed, -, hfed⟩ := Option.bind_eq_some_iff.mp h
  rw [← Option.some.inj hfed]

theorem emitsNew_iff (hs : UpToDate s) (delta : String) :
    EmitsNew (some s) delta ↔
      ∃ gained, thinkingText (s.buffer ++ delta) = thinkingText s.buffer ++ gained := by
  constructor
  · rintro ⟨s₀, s', hs₀, hstep, ⟨gained, hgained, -⟩, -⟩
    obtain rfl := Option.some.inj hs₀
    rw [buffer_onContentDelta hstep] at hgained
    exact ⟨gained, hgained⟩
  · rintro ⟨gained, hgained⟩
    exact ⟨s, _, rfl, onContentDelta_of_append hs hgained, ⟨gained, hgained, rfl⟩,
      (upToDate_of_append hs hgained).pieces⟩

theorem goesOn_iff (s : ThinkStream) (delta : String) :
    GoesOn (some s) delta ↔
      ∃ gained, thinkingText (s.buffer ++ delta) = thinkingText s.buffer ++ gained := by
  have hfront : (thinkingText s.buffer).toList <+: (thinkingText (s.buffer ++ delta)).toList ↔
      ∃ gained, thinkingText (s.buffer ++ delta) = thinkingText s.buffer ++ gained := by
    constructor
    · rintro ⟨rest, hrest⟩
      refine ⟨String.ofList rest, String.toList_injective ?_⟩
      rw [String.toList_append, String.toList_ofList, hrest]
    · rintro ⟨gained, hgained⟩
      rw [hgained, String.toList_append]
      exact List.prefix_append _ _
  rw [← hfront]
  constructor
  · rintro ⟨s₀, hs₀, hgoes⟩
    obtain rfl := Option.some.inj hs₀
    exact hgoes
  · intro h
    exact ⟨s, rfl, h⟩

/-! ## The run -/

/-- **Thinking text of a stream.** Over every sequence of deltas, no slice of the extractor fails,
every piece is what the thinking text gained and the pieces together are the thinking text, up to
white space, after every delta, exactly if the thinking text goes on at every delta; it does at
each that completes no `<think>` block behind a `<thought>` block. -/
theorem meets_emitsNew_iff (deltas : List String) :
    (Meets onContentDelta EmitsNew (some {}) deltas ↔
      Meets onContentDelta GoesOn (some {}) deltas) ∧
      ∀ (s : ThinkStream) (delta : String), InOrder s.buffer delta → GoesOn (some s) delta := by
  refine ⟨?_, fun s delta horder => ⟨s, rfl, prefix_of_inOrder horder⟩⟩
  refine meets_congr (I := fun st => ∃ s, st = some s ∧ UpToDate s) ?_ ?_ deltas (some {})
    ⟨{}, rfl, rfl, rfl⟩
  · rintro _ delta ⟨s, rfl, hs⟩
    rw [emitsNew_iff hs, goesOn_iff]
  · rintro _ delta ⟨s, rfl, hs⟩ hnew
    obtain ⟨gained, hgained⟩ := (emitsNew_iff hs delta).mp hnew
    exact ⟨_, onContentDelta_of_append hs hgained, upToDate_of_append hs hgained⟩

/-- A thought that is followed by a `<think>` block is emitted twice. -/
def thoughtFirst : List String := ["<thought>B</thought>", "<think>A</think>"]

/-- The second delta emits the thought once more, and never the text that is new. -/
theorem not_emitsNew_thoughtFirst :
    ¬ Meets onContentDelta EmitsNew (some {}) thoughtFirst := by
  rintro ⟨-, ⟨s, s', -, hstep, -, hjoin⟩, -⟩
  have htwice : onContentDelta (onContentDelta (some {}) "<thought>B</thought>")
      "<think>A</think>" =
      some { buffer := "<thought>B</thought><think>A</think>", extractor := { emitted := "A\n\nB" }
             pieces := ["B", "B"] } := by decide +kernel
  obtain rfl := Option.some.inj (hstep.symm.trans htwice)
  revert hjoin
  decide +kernel

end HiveClaw.Utils
