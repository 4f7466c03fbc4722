import HiveClaw.RustStd
import HiveClaw.Lib.ByteSlice
import HiveClaw.Lib.Regex

/-!
# Thinking blocks

`strip_think`, `extract_think` and `IncrementalThinkExtractor` of `crates/utils/src/helpers.rs`.
The patterns are those of the source, one definition each.
-/

namespace HiveClaw.Utils

open Lib Regex

/-! ## Patterns -/

-- `\s*`
def spaces : Regex := star true (one RustStr.isWhitespace)

-- `<tag>`
def opening (tag : String) : List Char := ("<" ++ tag ++ ">").toList

-- `</tag>`
def closing (tag : String) : List Char := ("</" ++ tag ++ ">").toList

-- `(?s)<tag>(.*?)</tag>`
def reBlock (tag : String) : Regex := block (opening tag) (closing tag)

-- `(?s)^\s*<tag>.*$`
def reTrail (tag : String) : Regex :=
  chain [textStart, spaces, lit (opening tag), star true any, textEnd]

/-- A character that ends the name of a tag without being part of it:
`[^A-Za-z0-9_\-:>/]`. -/
def endsTagName (c : Char) : Bool :=
  !(c.isAlphanum || c == '_' || c == '-' || c == ':' || c == '>' || c == '/')

-- `<tag(?:[^A-Za-z0-9_\-:>/]|$)`
def reMalformed (tag : String) : Regex :=
  chain [lit ("<" ++ tag).toList, alt (one endsTagName) textEnd]

-- `^\s*</tag>\s*`
def reCloseStart (tag : String) : Regex := chain [textStart, spaces, lit (closing tag), spaces]

-- `\s*</tag>\s*$`
def reCloseEnd (tag : String) : Regex := chain [spaces, lit (closing tag), spaces, textEnd]

/-- `RE_CHANNEL_MARKER`: `^\s*<\|?channel\|?>\s*`. -/
def reChannelMarker : Regex :=
  chain [textStart, spaces, lit ['<'], opt (lit ['|']), lit "channel".toList, opt (lit ['|']),
    lit ['>'], spaces]

-- `RE_PARTIAL_CONTROL_TAG`
def rePartialControlTag : Regex :=
  chain
    [alt
      (chain [lit ['<'], opt (lit ['/']),
        oneOf ["t", "th", "thi", "thin", "think", "tho", "thou", "thoug", "though", "thought"],
        opt (lit ['>'])])
      (chain [lit ['<'], opt (lit ['|']),
        oneOf ["c", "ch", "cha", "chan", "chann", "channe", "channel"],
        opt (chain [opt (lit ['|']), opt (lit ['>'])])]),
    spaces, lineEnd]

-- `^\s*<\|?$`
def reMarkerStart : Regex := chain [textStart, spaces, lit ['<'], opt (lit ['|']), textEnd]

/-! ## The functions -/

-- `re.replace_all(&s, "")`
def without (r : Regex) (text : List Char) : List Char := r.replaceAll (fun _ => []) text

-- `strip_think`
def stripThink (text : String) : String :=
  let s := text.toList
  let s := without (reBlock "think") s
  let s := without (reTrail "think") s
  let s := without (reBlock "thought") s
  let s := without (reTrail "thought") s
  -- the character after the name was a look-ahead, and stays
  let s := (reMalformed "think").replaceAll (fun whole => whole.drop "<think".length) s
  let s := (reMalformed "thought").replaceAll (fun whole => whole.drop "<thought".length) s
  let s := without (reCloseStart "think") s
  let s := without (reCloseEnd "think") s
  let s := without (reCloseStart "thought") s
  let s := without (reCloseEnd "thought") s
  let s := without reChannelMarker s
  let s := without rePartialControlTag s
  let s := without reMarkerStart s
  RustStr.trim (String.ofList s)

example : stripThink "hi <think>x</think> you" = "hi  you" := by decide +kernel

/-- The blocks of a tag, trimmed, without those that are empty. -/
def blocksOf (tag text : String) : List String :=
  (((reBlock tag).captures text.toList).map fun inner => RustStr.trim (String.ofList inner)).filter
    fun inner => inner ≠ ""

/-- The parts of `extract_think`: all blocks of `<think>`, then all of `<thought>`. -/
def thinkParts (text : String) : List String := blocksOf "think" text ++ blocksOf "thought" text

-- `extract_think`
def extractThink (text : String) : Option String × String :=
  let parts := thinkParts text
  let thinking := if parts.isEmpty then none else some (String.intercalate "\n\n" parts)
  (thinking, stripThink text)

-- `IncrementalThinkExtractor`
structure IncrementalThinkExtractor where
  emitted : String := ""
deriving DecidableEq, Repr

/-- `text[start..]`; `none` is a panic. -/
def sliceFrom (text : String) (start : Nat) : Option String :=
  (dropBytes text.toList start).map String.ofList

namespace IncrementalThinkExtractor

/-- `feed`; `none` is a panic. -/
def feed (self : IncrementalThinkExtractor) (buf : String) :
    Option (Option String × IncrementalThinkExtractor) := do
  match (extractThink buf).1 with
  | none => some (none, self)
  | some thinking =>
    if thinking = self.emitted then some (none, self)
    else
      let new ←
        if thinking.utf8ByteSize > self.emitted.utf8ByteSize then
          (sliceFrom thinking self.emitted.utf8ByteSize).map RustStr.trim
        else some (RustStr.trim thinking)
      some (if new = "" then none else some new, { emitted := thinking })

end IncrementalThinkExtractor

theorem sliceFrom_eq_some_iff {text rest : String} {start : Nat} :
    sliceFrom text start = some rest ↔ ∃ front, front ++ rest = text ∧ front.utf8ByteSize = start := by
  unfold sliceFrom
  rw [Option.map_eq_some_iff]
  constructor
  · rintro ⟨chars, hcut, rfl⟩
    obtain ⟨front, hfront, hlen⟩ := dropBytes_eq_some_iff.mp hcut
    refine ⟨String.ofList front, String.toList_injective ?_, ?_⟩
    · rw [String.toList_append, String.toList_ofList, String.toList_ofList, hfront]
    · rw [utf8ByteSize_eq_byteLen, String.toList_ofList, hlen]
  · rintro ⟨front, rfl, rfl⟩
    refine ⟨rest.toList, ?_, String.ofList_toList⟩
    rw [dropBytes_eq_some_iff]
    exact ⟨front.toList, String.toList_append.symm, (utf8ByteSize_eq_byteLen front).symm⟩

end HiveClaw.Utils
