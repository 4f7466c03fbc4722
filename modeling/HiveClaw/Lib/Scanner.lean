import Mathlib.Data.List.Basic
import Mathlib.Data.List.Infix

/-!
# Scanners that rewrite a text

A scanner goes through a text from left to right. Where a match begins, its
output takes the place of the match and the scan goes on behind it; every other
character is kept.

* `Scans` — the equations of such a scanner, for matches of any kind;
  `strip` are the matches of a fixed pattern.
* `Exact`, `Scans.render` — a text cut into tokens, where the scanner finds
  exactly the tokens that are marked as matches: it writes its output for them.
-/

namespace Lib.Scanner

variable {α : Type}

/-- `R` rewrites a text: `after` is what follows a match at the start. -/
structure Scans (after : List α → Option (List α)) (out : List α) (R : List α → List α) :
    Prop where
  nil : R [] = []
  skip : ∀ c rest, after (c :: rest) = none → R (c :: rest) = c :: R rest
  hit : ∀ c rest t, after (c :: rest) = some t → R (c :: rest) = out ++ R t

/-- A character that is kept, or a match. -/
inductive Tok (α : Type) where
  | char (c : α)
  | hit (text : List α)

def Tok.text : Tok α → List α
  | .char c => [c]
  | .hit x => x

def Tok.output (out : List α) : Tok α → List α
  | .char c => [c]
  | .hit _ => out

def render (toks : List (Tok α)) : List α := toks.flatMap Tok.text

/-- The matches are those that a scanner finds. -/
def Exact (after : List α → Option (List α)) : List (Tok α) → Prop
  | [] => True
  | .char c :: rest => after (c :: render rest) = none ∧ Exact after rest
  | .hit x :: rest => x ≠ [] ∧ after (x ++ render rest) = some (render rest) ∧ Exact after rest

variable {after : List α → Option (List α)} {out : List α} {R : List α → List α}

@[simp] theorem render_nil : render ([] : List (Tok α)) = [] := rfl

@[simp] theorem render_cons (t : Tok α) (rest : List (Tok α)) :
    render (t :: rest) = t.text ++ render rest := rfl

theorem render_append (a b : List (Tok α)) : render (a ++ b) = render a ++ render b :=
  List.flatMap_append

@[simp] theorem render_chars (l : List α) : render (l.map Tok.char) = l := by
  induction l with
  | nil => rfl
  | cons c rest ih => simp [Tok.text, ih]

/-- A scanner writes its output for the matches and keeps the rest. -/
theorem Scans.render (hR : Scans after out R) {toks : List (Tok α)} (h : Exact after toks) :
    R (render toks) = toks.flatMap (Tok.output out) := by
  induction toks with
  | nil => exact hR.nil
  | cons t rest ih =>
    cases t with
    | char c =>
      obtain ⟨hnone, hrest⟩ := h
      show R (c :: Scanner.render rest) = c :: rest.flatMap (Tok.output out)
      rw [hR.skip c _ hnone, ih hrest]
    | hit x =>
      obtain ⟨hx, hsome, hrest⟩ := h
      obtain ⟨c, x', rfl⟩ := List.exists_cons_of_ne_nil hx
      rw [List.cons_append] at hsome
      show R (c :: (x' ++ Scanner.render rest)) = out ++ rest.flatMap (Tok.output out)
      rw [hR.hit c _ _ hsome, ih hrest]

-- ---
-- A fixed pattern
-- ---

variable [DecidableEq α]

/-- What follows the pattern at the start of a text. -/
def strip (pattern text : List α) : Option (List α) :=
  if pattern.isPrefixOf text then some (text.drop pattern.length) else none

variable {pattern : List α}

theorem strip_eq_none_iff {text : List α} : strip pattern text = none ↔ ¬pattern <+: text := by
  simp [strip]

theorem strip_append (pattern rest : List α) : strip pattern (pattern ++ rest) = some rest := by
  simp [strip]

variable {toks : List (Tok α)}

/-- Characters at which the pattern does not begin are kept. -/
theorem exact_chars {m : α} {p l : List α} (hl : m ∉ l) (h : Exact (strip (m :: p)) toks) :
    Exact (strip (m :: p)) (l.map Tok.char ++ toks) := by
  induction l with
  | nil => exact h
  | cons c rest ih =>
    rw [List.mem_cons, not_or] at hl
    refine ⟨strip_eq_none_iff.mpr fun hprefix => ?_, ih hl.2⟩
    exact hl.1 (List.cons_prefix_cons.mp hprefix).1

/-- A pattern occurs in a text cut into tokens if and only if one of them is a match. -/
theorem infix_render_iff (h : Exact (strip pattern) toks) (hpattern : pattern ≠ []) :
    pattern <:+: render toks ↔ ∃ x, .hit x ∈ toks := by
  induction toks with
  | nil => simp [hpattern]
  | cons t rest ih =>
    cases t with
    | char c =>
      obtain ⟨hnone, hrest⟩ := h
      rw [strip_eq_none_iff] at hnone
      rw [render_cons, Tok.text, List.singleton_append, List.infix_cons_iff, or_iff_right hnone,
        ih hrest]
      simp
    | hit x =>
      obtain ⟨-, hsome, -⟩ := h
      refine iff_of_true ?_ ⟨x, List.mem_cons_self⟩
      rw [render_cons, Tok.text]
      by_cases hprefix : pattern <+: x ++ render rest
      · exact hprefix.isInfix
      · rw [strip_eq_none_iff.mpr hprefix] at hsome
        cases hsome

end Lib.Scanner
