import HiveClaw.Lib.Regex
import HiveClaw.Security.Network

/-!
# The guard of shell commands

`ExecTool::guard_command` of `crates/agent/src/tools/shell.rs`. With
`restrict_to_workspace`, the paths that three patterns find in a command must
lie in the working directory or in the media directory, and the command must
not hold `../`. Beside it stand the paths and words as a shell reads them
(`absolutePaths`, `words`).

* `confined_iff` — when all paths of a command that passes are inside, and no
  word of it climbs.
-/

namespace HiveClaw.Tools.Shell

open Lib Security

-- ---
-- Paths
-- ---

/-- The components of a path behind the root; empty ones and `.` do not count. -/
def components (path : String) : List (List Char) :=
  (path.toList.splitOn '/').filter fun part => part ≠ [] ∧ part ≠ ['.']

-- `Path::is_absolute`
def isAbsolute (path : String) : Bool := path.toList.head? = some '/'

-- `Path::starts_with`
def startsWith (path base : String) : Bool :=
  isAbsolute path = isAbsolute base && (components base).isPrefixOf (components path)

-- `Path::join`
def join (base rest : String) : String :=
  if isAbsolute rest then rest
  else if base.toList.getLast? = some '/' then base ++ rest
  else base ++ "/" ++ rest

/-- What the guard asks of the system. `location` is where a path leads, also one that does not
exist yet. -/
structure Files where
  /-- `std::fs::canonicalize` -/
  canonicalize : String → Option String
  location : String → String
  location_eq : ∀ path real, canonicalize path = some real → location path = real
  absolute : ∀ path real, canonicalize path = some real → isAbsolute real = true
  /-- `dirs::home_dir` -/
  homeDir : Option String
  /-- `get_media_dir(None)` -/
  mediaDir : String

-- `canonicalize(p).unwrap_or(p)`
def Files.resolved (files : Files) (path : String) : String :=
  (files.canonicalize path).getD path

-- `BENIGN_DEVICE_PATHS`
def benignDevicePaths : List String :=
  ["/dev/null", "/dev/zero", "/dev/full", "/dev/random", "/dev/urandom", "/dev/stdin",
    "/dev/stdout", "/dev/stderr", "/dev/tty"]

-- `is_benign_device_path`
def isBenignDevicePath (path : String) : Bool :=
  benignDevicePaths.contains path || "/dev/fd/".toList.isPrefixOf path.toList

-- `shellexpand`
def shellexpand (files : Files) (raw : String) : String :=
  match files.homeDir, raw.toList with
  | some home, '~' :: '/' :: stripped => join home (String.ofList stripped)
  | some home, ['~'] => home
  | _, _ => raw

-- ---
-- Patterns
-- ---

/-- A class `[^\s…]`. -/
def outside (chars : List Char) (c : Char) : Bool := !RustStr.isWhitespace c && c ∉ chars

/-- `WIN_PATH_RE`; the group is the whole match. -/
def winPathRe : Regex :=
  let part := outside ['"', '\'', '|', '>', '<', ';']
  .group (.alt
    (.chain [.one Char.isAlpha, .lit [':'], .star true (.one part)])
    (.chain [.lit ['\\'], .run part, .star true (.seq (.lit ['\\']) (.run part))]))

def isPathChar (c : Char) : Bool := outside ['"', '\'', '>', ';', '|', '<'] c

def isBeforePath (c : Char) : Bool :=
  RustStr.isWhitespace c || c ∈ ['|', '>', '\'', '"']

-- `POSIX_PATH_RE`
def posixPathRe : Regex :=
  .seq (.alt .textStart (.one isBeforePath)) (.group (.seq (.lit ['/']) (.run isPathChar)))

-- `HOME_PATH_RE`
def homePathRe : Regex :=
  .seq (.alt .textStart (.one fun c => RustStr.isWhitespace c || c ∈ ['>', '\'', '"']))
    (.group (.seq (.lit ['~']) (.star true (.one isPathChar))))

/-- `URL_RE`, which ignores case; the group is the whole match. -/
def urlRe : Regex :=
  .group (.chain
    [.one (· ∈ ['h', 'H']), .one (· ∈ ['t', 'T']), .one (· ∈ ['t', 'T']), .one (· ∈ ['p', 'P']),
      .opt (.one (· ∈ ['s', 'S', 'ſ'])), .lit "://".toList,
      .run (outside ['"', '\'', '`', ';', '|', '<', '>'])])

-- `contains_internal_url`
def containsInternalUrl (outside : Outside) (allowed : List CidrBlock) (command : String) : Bool :=
  (urlRe.captures command.toList).any fun url =>
    !(validateUrlTarget outside allowed (String.ofList url)).1

-- `extract_absolute_paths`
def extractAbsolutePaths (cmd : String) : List String :=
  (winPathRe.captures cmd.toList ++ posixPathRe.captures cmd.toList ++
    homePathRe.captures cmd.toList).map String.ofList

-- ---
-- The guard
-- ---

/-- `ExecTool`, as far as the guard reads it, with the whitelist of the network checks. -/
structure ExecTool where
  denyPatterns : List (String → Bool)
  allowPatterns : List (String → Bool)
  restrictToWorkspace : Bool
  network : Outside
  whitelist : List String

-- `WORKSPACE_BOUNDARY_NOTE`
def workspaceBoundaryNote : String :=
  "\n\nNote: this is a hard policy boundary, not a transient failure. " ++
    "Do NOT retry with shell tricks (symlinks, base64 piping, alternative " ++
    "tools, working_dir overrides). If the user genuinely needs this " ++
    "resource, tell them you cannot reach it under the current " ++
    "restrict_to_workspace policy and ask how to proceed."

/-- The guard goes on to the next path. -/
def letsPass (files : Files) (cwd raw : String) : Bool :=
  let expanded := shellexpand files (RustStr.trim raw)
  let p := files.resolved expanded
  isBenignDevicePath expanded || isBenignDevicePath p || !isAbsolute p ||
    startsWith p (files.resolved cwd) || startsWith p (files.resolved files.mediaDir)

/-- The checks of `guard_command` for `restrict_to_workspace`. -/
def guardPaths (files : Files) (cmd cwd : String) : Option String :=
  if RustStr.contains cmd "..\\" || RustStr.contains cmd "../" then
    some ("Error: Command blocked by safety guard (path traversal detected)" ++
      workspaceBoundaryNote)
  else if (extractAbsolutePaths cmd).all (letsPass files cwd) then none
  else
    some ("Error: Command blocked by safety guard (path outside working dir)" ++
      workspaceBoundaryNote)

/-- `guard_command`: an error, or nothing. -/
def ExecTool.guardCommand (tool : ExecTool) (files : Files) (command cwd : String) :
    Option String :=
  let cmd := RustStr.trim command
  let lower := RustStr.toAsciiLowercase cmd
  let explicitlyAllowed := tool.allowPatterns.any fun p => p lower
  if !explicitlyAllowed && tool.denyPatterns.any (fun p => p lower) then
    some "Error: Command blocked by deny pattern filter"
  else if !explicitlyAllowed && !tool.allowPatterns.isEmpty then
    some "Error: Command blocked by allowlist filter (not in allowlist)"
  else if containsInternalUrl tool.network (configureSsrfWhitelist tool.whitelist) cmd then
    some "Error: Command blocked by safety guard (internal/private URL detected)"
  else if tool.restrictToWorkspace then guardPaths files cmd cwd
  else none

-- ---
-- The command as a shell reads it
-- ---

def isOperator (c : Char) : Bool := c ∈ ['(', ')', '<', '>', '|', '&', ';']

def endsPath (c : Char) : Bool := RustStr.isWhitespace c || isOperator c || c ∈ ['"', '\'']

/-- A path may begin behind this character. -/
def beginsPath (c : Char) : Bool :=
  RustStr.isWhitespace c || c ∈ ['"', '\'', '=', '(', '<', '>', '|', '&', ';']

/-- The paths that begin with a slash; `start` tells whether one may begin at the front. -/
def pathsFrom (start : Bool) : List Char → List (List Char)
  | [] => []
  | c :: text =>
    (if start ∧ c = '/' then [c :: text.takeWhile fun d => !endsPath d] else []) ++
      pathsFrom (beginsPath c) text

/-- The absolute paths that occur in a command. -/
def absolutePaths (command : String) : List String :=
  (pathsFrom true command.toList).map String.ofList

def endsWord (c : Char) : Bool := RustStr.isWhitespace c || isOperator c

/-- The words; `start` tells whether one may begin at the front. -/
def wordsFrom (start : Bool) : List Char → List (List Char)
  | [] => []
  | c :: text =>
    (if start then [(c :: text).takeWhile fun d => !endsWord d] else []) ++
      wordsFrom (endsWord c) text

def words (command : String) : List (List Char) := wordsFrom true command.toList

/-- The path leads to a benign device, or into the working directory or the media directory. -/
def Inside (files : Files) (cwd path : String) : Prop :=
  isBenignDevicePath path = true ∨ isBenignDevicePath (files.location path) = true ∨
    startsWith (files.location path) (files.location cwd) = true ∨
      startsWith (files.location path) (files.location files.mediaDir) = true

/-- All absolute paths of the command lead inside, and no word has `..` as a component. -/
structure Confined (files : Files) (cwd command : String) : Prop where
  paths : ∀ path ∈ absolutePaths command, Inside files cwd path
  words : ∀ word ∈ words command, "..".toList ∉ word.splitOn '/'

-- ---
-- What the pattern finds
-- ---

/-- The paths that the pattern for absolute paths sees: behind the front, a blank, a quote, `|` or
`>`, at least one character besides the slash, up to a blank, a quote or one of `> ; | <`. -/
def seenFrom (start : Bool) : List Char → List (List Char)
  | [] => []
  | c :: text =>
    (if start ∧ c = '/' ∧ text.takeWhile isPathChar ≠ [] then [c :: text.takeWhile isPathChar]
      else []) ++
      seenFrom (isBeforePath c) text

/-- The absolute paths that the guard looks at. -/
def seenPaths (command : String) : List String :=
  (seenFrom true command.toList).map String.ofList

/-- The path at the front of a text, and what is left. -/
def seenAt (text : List Char) : Option Regex.Place :=
  match text with
  | '/' :: rest =>
    if rest.takeWhile isPathChar = [] then none
    else some ⟨some ('/' :: rest.takeWhile isPathChar), rest.dropWhile isPathChar⟩
  | _ => none

theorem head?_ends_path (total : Nat) (text : List Char) :
    ((Regex.group (.seq (.lit ['/']) (.run isPathChar))).ends total ⟨none, text⟩).head? =
      seenAt text := by
  show (List.map _ ((Regex.seq (.lit ['/']) (.run isPathChar)).ends total ⟨none, text⟩)).head? = _
  rw [List.head?_map]
  cases text with
  | nil => rfl
  | cons c rest =>
    show Option.map _ (List.flatMap _ ((Regex.lit ['/']).ends total ⟨none, c :: rest⟩)).head? = _
    by_cases hc : c = '/'
    · subst hc
      have hstep : (Regex.lit ['/']).ends total ⟨none, '/' :: rest⟩ = [⟨none, rest⟩] := rfl
      rw [hstep, List.flatMap_singleton, Regex.head?_ends_run]
      show Option.map _ (if rest.takeWhile isPathChar = [] then none else _) =
        if rest.takeWhile isPathChar = [] then none else _
      by_cases hrun : rest.takeWhile isPathChar = []
      · rw [if_pos hrun, if_pos hrun, Option.map_none]
      · rw [if_neg hrun, if_neg hrun, Option.map_some]
        have hsplit : '/' :: rest =
            ('/' :: rest.takeWhile isPathChar) ++ rest.dropWhile isPathChar := by
          rw [List.cons_append, List.takeWhile_append_dropWhile]
        have hlength : ('/' :: rest).length - (rest.dropWhile isPathChar).length =
            ('/' :: rest.takeWhile isPathChar).length := by
          have hsum := congrArg List.length hsplit
          rw [List.length_append] at hsum
          omega
        have htake : ('/' :: rest).take
            (('/' :: rest).length - (rest.dropWhile isPathChar).length) =
              '/' :: rest.takeWhile isPathChar := by
          rw [hlength]
          exact (congrArg (List.take _) hsplit).trans List.take_left
        show some (Regex.Place.mk (some (('/' :: rest).take _)) _) = _
        rw [htake]
    · have hstep : (Regex.lit ['/']).ends total ⟨none, c :: rest⟩ = [] := by
        refine if_neg ?_
        simp [List.isPrefixOf, Ne.symm hc]
      rw [hstep]
      unfold seenAt
      split
      · next heq => exact absurd (List.cons.inj heq).1 hc
      · rfl

theorem matchAt_posixPathRe (total : Nat) (c : Char) (text : List Char) :
    posixPathRe.matchAt total (c :: text) =
      (if (c :: text).length = total then seenAt (c :: text) else none).or
        (if isBeforePath c then seenAt text else none) := by
  have hfront : (Regex.alt .textStart (.one isBeforePath)).ends total ⟨none, c :: text⟩ =
      (if (c :: text).length = total then [⟨none, c :: text⟩] else []) ++
        if isBeforePath c then [⟨none, text⟩] else [] := rfl
  show (List.flatMap _ ((Regex.alt .textStart (.one isBeforePath)).ends total
    ⟨none, c :: text⟩)).head? = _
  rw [hfront, List.flatMap_append, List.head?_append]
  congr 1
  · split
    · rw [List.flatMap_singleton, head?_ends_path]
    · rfl
  · split
    · rw [List.flatMap_singleton, head?_ends_path]
    · rfl

theorem seenFrom_run (text rest : List Char) (h : ∀ c ∈ text, isPathChar c = true) :
    seenFrom false (text ++ rest) = seenFrom false rest := by
  induction text with
  | nil => rfl
  | cons c text ih =>
    have hbefore : isBeforePath c = false := by
      have hc := h c List.mem_cons_self
      unfold isPathChar outside at hc
      unfold isBeforePath
      simp only [Bool.and_eq_true, Bool.not_eq_true', decide_eq_true_eq] at hc
      rw [hc.1, Bool.false_or, decide_eq_false_iff_not]
      intro hmem
      refine hc.2 ?_
      simp only [List.mem_cons, List.not_mem_nil, or_false] at hmem ⊢
      tauto
    rw [List.cons_append, seenFrom, hbefore, ih fun d hd => h d (List.mem_cons_of_mem _ hd)]
    rfl

theorem seenFrom_true (text : List Char) :
    seenFrom true text =
      match seenAt text with
      | some p => p.group.toList ++ seenFrom false p.rest
      | none => seenFrom false text := by
  cases text with
  | nil => rfl
  | cons c rest =>
    rw [seenFrom]
    by_cases hc : c = '/'
    · subst hc
      have hbefore : isBeforePath '/' = false := by decide
      by_cases hrun : rest.takeWhile isPathChar = []
      · have hseen : seenAt ('/' :: rest) = none := if_pos hrun
        rw [hseen, if_neg fun h => h.2.2 hrun]
        rfl
      · have hseen : seenAt ('/' :: rest) =
            some ⟨some ('/' :: rest.takeWhile isPathChar), rest.dropWhile isPathChar⟩ := if_neg hrun
        have hrest : seenFrom false rest = seenFrom false (rest.dropWhile isPathChar) := by
          conv_lhs => rw [← List.takeWhile_append_dropWhile (p := isPathChar) (l := rest)]
          exact seenFrom_run _ _ fun d hd => List.mem_takeWhile_imp hd
        rw [hseen, if_pos ⟨rfl, rfl, hrun⟩, hbefore, hrest]
        rfl
    · have hseen : seenAt (c :: rest) = none := by
        unfold seenAt
        split
        · next heq => exact absurd (List.cons.inj heq).1 hc
        · rfl
      rw [hseen, if_neg fun h => hc h.2.1]
      rfl

theorem drop_of_seenAt {text : List Char} {p : Regex.Place} (h : seenAt text = some p) :
    p.rest.length < text.length ∧ text.drop (text.length - p.rest.length) = p.rest := by
  unfold seenAt at h
  split at h
  · next rest =>
    split at h
    · cases h
    · obtain rfl := Option.some.inj h
      have hsuffix : rest.dropWhile isPathChar <:+ '/' :: rest :=
        (List.dropWhile_suffix _).trans (List.suffix_cons _ _)
      have hle := (List.dropWhile_suffix isPathChar (l := rest)).length_le
      exact ⟨Nat.lt_succ_of_le hle, (List.suffix_iff_eq_drop.mp hsuffix).symm⟩
  · cases h

theorem capturesFrom_posixPathRe {total : Nat} {text : List Char} (h : text.length < total) :
    posixPathRe.capturesFrom total 0 text = seenFrom false text := by
  induction hn : text.length using Nat.strong_induction_on generalizing text with
  | _ n ih =>
    subst hn
    cases text with
    | nil => rfl
    | cons c text =>
      have hmatch : posixPathRe.matchAt total (c :: text) =
          if isBeforePath c then seenAt text else none := by
        rw [matchAt_posixPathRe, if_neg (Nat.ne_of_lt h), Option.none_or]
      have hseen : seenFrom false (c :: text) = seenFrom (isBeforePath c) text := rfl
      rw [Regex.capturesFrom, hmatch, hseen]
      have hlength : text.length < (c :: text).length := Nat.lt_succ_self _
      cases hbefore : isBeforePath c with
      | false => exact ih _ hlength (Nat.lt_trans hlength h) rfl
      | true =>
        rw [if_pos rfl, seenFrom_true]
        cases hat : seenAt text with
        | none => exact ih _ hlength (Nat.lt_trans hlength h) rfl
        | some p =>
          obtain ⟨hshort, hdrop⟩ := drop_of_seenAt hat
          dsimp only
          rw [Regex.capturesFrom_skip, hdrop,
            ih _ (Nat.lt_trans hshort hlength) (Nat.lt_trans hshort (Nat.lt_trans hlength h)) rfl]

/-- Which paths the pattern for absolute paths finds. -/
theorem captures_posixPathRe (text : List Char) :
    posixPathRe.captures text = seenFrom true text := by
  unfold Regex.captures
  cases text with
  | nil => rfl
  | cons c text =>
    rw [Regex.capturesFrom, matchAt_posixPathRe, if_pos rfl, seenFrom_true]
    cases hat : seenAt (c :: text) with
    | some p =>
      obtain ⟨hshort, hdrop⟩ := drop_of_seenAt hat
      have hrest : text.drop (text.length - p.rest.length) = p.rest := by
        have hle : p.rest.length ≤ text.length := Nat.le_of_lt_succ hshort
        rwa [List.length_cons, Nat.succ_sub hle, List.drop_succ_cons] at hdrop
      rw [Option.some_or]
      dsimp only
      rw [Regex.capturesFrom_skip, hrest, capturesFrom_posixPathRe hshort]
    | none =>
      rw [Option.none_or]
      have hlength : text.length < (c :: text).length := Nat.lt_succ_self _
      have hseen : seenFrom false (c :: text) = seenFrom (isBeforePath c) text := rfl
      dsimp only
      rw [hseen]
      cases hbefore : isBeforePath c with
      | false => exact capturesFrom_posixPathRe hlength
      | true =>
        rw [if_pos rfl, seenFrom_true]
        cases hat' : seenAt text with
        | none => exact capturesFrom_posixPathRe hlength
        | some p =>
          obtain ⟨hshort, hdrop⟩ := drop_of_seenAt hat'
          dsimp only
          rw [Regex.capturesFrom_skip, hdrop,
            capturesFrom_posixPathRe (Nat.lt_trans hshort hlength)]

theorem mem_seenFrom {start : Bool} {text path : List Char} (h : path ∈ seenFrom start text) :
    ∃ run, path = '/' :: run ∧ ∀ c ∈ run, isPathChar c = true := by
  induction text generalizing start with
  | nil => cases h
  | cons c text ih =>
    rw [seenFrom, List.mem_append] at h
    rcases h with hhere | hlater
    · split at hhere
      · next hstart =>
        obtain rfl := List.mem_singleton.mp hhere
        exact ⟨_, by rw [hstart.2.1], fun d hd => List.mem_takeWhile_imp hd⟩
      · cases hhere
    · exact ih hlater

-- ---
-- Blanks and words
-- ---

theorem infix_dropWhile {p : Char → Bool} {piece text : List Char} (hne : piece ≠ [])
    (hpiece : ∀ c ∈ piece, p c = false) (h : piece <:+: text) : piece <:+: text.dropWhile p := by
  induction text with
  | nil => exact absurd (List.infix_nil.mp h) hne
  | cons c text ih =>
    rw [List.dropWhile_cons]
    by_cases hc : p c = true
    · rw [if_pos hc]
      rcases List.infix_cons_iff.mp h with hprefix | hinside
      · cases piece with
        | nil => exact absurd rfl hne
        | cons d piece =>
          rw [← (List.cons_prefix_cons.mp hprefix).1] at hc
          exact absurd (hpiece d List.mem_cons_self) (by rw [hc]; decide)
      · exact ih hinside
    · rw [if_neg hc]
      exact h

theorem infix_trim {piece : List Char} {text : String} (hne : piece ≠ [])
    (hpiece : ∀ c ∈ piece, RustStr.isWhitespace c = false) (h : piece <:+: text.toList) :
    piece <:+: (RustStr.trim text).toList := by
  unfold RustStr.trim
  rw [String.toList_ofList, ← List.reverse_infix, List.reverse_reverse]
  refine infix_dropWhile (by simpa using hne) (fun c hc => hpiece c (List.mem_reverse.mp hc)) ?_
  rw [List.reverse_infix]
  exact infix_dropWhile hne hpiece h

theorem trim_eq_self {text : String} (h : ∀ c ∈ text.toList, RustStr.isWhitespace c = false) :
    RustStr.trim text = text := by
  unfold RustStr.trim
  rw [dropWhile_of_forall_false h,
    dropWhile_of_forall_false fun c hc => h c (List.mem_reverse.mp hc), List.reverse_reverse,
    String.ofList_toList]

theorem mem_wordsFrom {start : Bool} {text word : List Char} (h : word ∈ wordsFrom start text) :
    word <:+: text ∧ ∀ c ∈ word, RustStr.isWhitespace c = false := by
  induction text generalizing start with
  | nil => cases h
  | cons c text ih =>
    rw [wordsFrom, List.mem_append] at h
    rcases h with hhere | hlater
    · split at hhere
      · obtain rfl := List.mem_singleton.mp hhere
        refine ⟨(List.takeWhile_prefix _).isInfix, fun d hd => ?_⟩
        have hword := List.mem_takeWhile_imp hd
        unfold endsWord at hword
        simp only [Bool.not_eq_true', Bool.or_eq_false_iff] at hword
        exact hword.1
      · cases hhere
    · obtain ⟨hinside, hblank⟩ := ih hlater
      exact ⟨hinside.trans (List.suffix_cons c text).isInfix, hblank⟩

theorem part_sep_infix {sep : Char} {text part : List Char} (h : part ∈ text.splitOn sep) :
    (text.splitOn sep).getLast? = some part ∨ part ++ [sep] <:+: text := by
  have hparts : ∀ parts : List (List Char), part ∈ parts →
      parts.getLast? = some part ∨ part ++ [sep] <:+: [sep].intercalate parts := by
    intro parts hmem
    induction parts with
    | nil => cases hmem
    | cons first rest ih =>
      cases rest with
      | nil => exact Or.inl (congrArg some (List.mem_singleton.mp hmem).symm)
      | cons second rest =>
        have hjoin : [sep].intercalate (first :: second :: rest) =
            (first ++ [sep]) ++ [sep].intercalate (second :: rest) := by
          simp [List.intercalate]
        rw [hjoin]
        rcases List.mem_cons.mp hmem with rfl | hmem'
        · exact Or.inr (List.prefix_append _ _).isInfix
        · rcases ih hmem' with hlast | hinside
          · rw [List.getLast?_cons_cons]
            exact Or.inl hlast
          · exact Or.inr (hinside.trans (List.suffix_append _ _).isInfix)
  have htext := hparts _ h
  rwa [List.intercalate_splitOn] at htext

-- ---
-- Commands that pass
-- ---

variable {tool : ExecTool} {files : Files} {cwd : String}

theorem of_passed {command : String} (hrestrict : tool.restrictToWorkspace = true)
    (h : tool.guardCommand files command cwd = none) :
    ¬ "../".toList <:+: (RustStr.trim command).toList ∧
      ∀ raw ∈ extractAbsolutePaths (RustStr.trim command), letsPass files cwd raw = true := by
  unfold ExecTool.guardCommand at h
  dsimp only at h
  split at h
  · cases h
  split at h
  · cases h
  split at h
  · cases h
  unfold guardPaths at h
  split at h
  · cases h
  · next htraversal =>
    split at h
    · next hall =>
      refine ⟨fun hinside => htraversal ?_, List.all_eq_true.mp hall⟩
      rw [Bool.or_eq_true]
      exact Or.inr (decide_eq_true hinside)
    · cases h

/-- What the guard checks besides the paths depends on the text of the command only. -/
theorem passed_of_letsPass {files' : Files} {command cwd' : String}
    (hrestrict : tool.restrictToWorkspace = true) (h : tool.guardCommand files command cwd = none)
    (hpaths : ∀ raw ∈ extractAbsolutePaths (RustStr.trim command),
      letsPass files' cwd' raw = true) : tool.guardCommand files' command cwd' = none := by
  unfold ExecTool.guardCommand guardPaths at h ⊢
  dsimp only at h ⊢
  split at h
  · cases h
  next hdeny =>
  split at h
  · cases h
  next hallow =>
  split at h
  · cases h
  next hurl =>
  rw [if_neg hdeny, if_neg hallow, if_neg hurl, if_pos hrestrict]
  split at h
  · cases h
  · next hclimbs => rw [if_neg hclimbs, if_pos (List.all_eq_true.mpr hpaths)]

/-- The paths that the guard looks up lead where it looks them up; an existing path always does
(`Files.location_eq`). -/
structure Settled (files : Files) (cwd command : String) : Prop where
  paths : ∀ path ∈ seenPaths (RustStr.trim command), files.resolved path = files.location path
  cwd : files.resolved cwd = files.location cwd
  media : files.resolved files.mediaDir = files.location files.mediaDir

/-- The guard finds every path of the command that is not the name of a benign device, and no word
ends in the component `..`. -/
structure Looked (command : String) : Prop where
  paths : ∀ path ∈ absolutePaths command,
    isBenignDevicePath path = true ∨ path ∈ seenPaths (RustStr.trim command)
  words : ∀ word ∈ words command, (word.splitOn '/').getLast? ≠ some "..".toList

theorem mem_seenPaths {command path : String} (h : path ∈ seenPaths command) :
    path ∈ extractAbsolutePaths command ∧ isAbsolute path = true ∧
      ∀ c ∈ path.toList, RustStr.isWhitespace c = false := by
  obtain ⟨text, htext, rfl⟩ := List.mem_map.mp h
  obtain ⟨run, rfl, hrun⟩ := mem_seenFrom htext
  rw [String.toList_ofList]
  refine ⟨?_, ?_, fun c hc => ?_⟩
  · unfold extractAbsolutePaths
    rw [captures_posixPathRe]
    exact List.mem_map_of_mem (List.mem_append_left _ (List.mem_append_right _ htext))
  · unfold isAbsolute
    rw [String.toList_ofList]
    rfl
  · rcases List.mem_cons.mp hc with rfl | hc
    · decide
    · have hpath := hrun c hc
      unfold isPathChar outside at hpath
      rw [Bool.and_eq_true, Bool.not_eq_true'] at hpath
      exact hpath.1

theorem shellexpand_of_absolute (files : Files) {path : String} (h : isAbsolute path = true) :
    shellexpand files path = path := by
  unfold isAbsolute at h
  unfold shellexpand
  split
  · next heq =>
    rw [heq] at h
    exact absurd h (by simp)
  · next heq =>
    rw [heq] at h
    exact absurd h (by simp)
  · rfl

theorem inside_of_seen {command path : String} (hrestrict : tool.restrictToWorkspace = true)
    (hsettled : Settled files cwd command) (hpass : tool.guardCommand files command cwd = none)
    (hseen : path ∈ seenPaths (RustStr.trim command)) : Inside files cwd path := by
  obtain ⟨hraw, hslash, hblank⟩ := mem_seenPaths hseen
  have hchecked := (of_passed hrestrict hpass).2 _ hraw
  have habsolute : isAbsolute (files.resolved path) = true := by
    unfold Files.resolved
    cases hreal : files.canonicalize path with
    | none => exact hslash
    | some real => exact files.absolute _ _ hreal
  unfold letsPass at hchecked
  rw [trim_eq_self hblank, shellexpand_of_absolute files hslash] at hchecked
  dsimp only at hchecked
  rw [habsolute, hsettled.paths path hseen, hsettled.cwd, hsettled.media] at hchecked
  simp only [Bool.or_eq_true, Bool.not_true, Bool.false_eq_true, or_false] at hchecked
  rcases hchecked with ((hbenign | hbenign) | hcwd) | hmedia
  · exact Or.inl hbenign
  · exact Or.inr (Or.inl hbenign)
  · exact Or.inr (Or.inr (Or.inl hcwd))
  · exact Or.inr (Or.inr (Or.inr hmedia))

-- ---
-- Paths that the guard does not find
-- ---

/-- What a path of the patterns for drives and for the home directory begins with. -/
def beginsOther (c : Char) : Bool := c.isAlpha || c = '\\' || c = '~'

variable {raw : String}

theorem head_trim {c : Char} {rest : List Char} (hraw : raw.toList = c :: rest)
    (hc : RustStr.isWhitespace c = false) : (RustStr.trim raw).toList.head? = some c := by
  have hnone : ¬ (c :: rest).reverse.dropWhile RustStr.isWhitespace = [] := by
    intro hnil
    have hall := List.dropWhile_eq_nil_iff.mp hnil c (by simp)
    rw [hc] at hall
    cases hall
  have hprefix : ((c :: rest).reverse.dropWhile RustStr.isWhitespace).reverse <+: c :: rest := by
    rw [← List.reverse_suffix, List.reverse_reverse]
    exact List.dropWhile_suffix _
  unfold RustStr.trim
  rw [String.toList_ofList, hraw, List.dropWhile_cons_of_neg (by simp [hc])]
  cases hkept : ((c :: rest).reverse.dropWhile RustStr.isWhitespace).reverse with
  | nil => exact absurd (List.reverse_eq_nil_iff.mp hkept) hnone
  | cons d kept =>
    rw [hkept] at hprefix
    rw [(List.cons_prefix_cons.mp hprefix).1]
    rfl

def BeginsOther (text : List Char) : Prop := ∃ c rest, text = c :: rest ∧ beginsOther c = true

theorem not_isAbsolute_trim (h : BeginsOther raw.toList) :
    isAbsolute (RustStr.trim raw) = false := by
  obtain ⟨c, rest, hraw, hc⟩ := h
  have hother : RustStr.isWhitespace c = false ∧ c ≠ '/' := by
    change (decide (65 ≤ c.val ∧ c.val ≤ 90) || decide (97 ≤ c.val) && decide (c.val ≤ 122) ||
      decide (c = '\\') || decide (c = '~')) = true at hc
    simp only [Bool.or_eq_true, Bool.and_eq_true, decide_eq_true_eq] at hc
    constructor
    · have hrange : 65 ≤ c.toNat ∧ c.toNat ≤ 126 := by
        rcases hc with ((hupper | hlower) | rfl) | rfl
        · exact ⟨hupper.1, Nat.le_trans hupper.2 (by decide)⟩
        · exact ⟨Nat.le_trans (by decide) hlower.1, Nat.le_trans hlower.2 (by decide)⟩
        · decide
        · decide
      unfold RustStr.isWhitespace
      simp
      omega
    · rintro rfl
      revert hc
      decide
  unfold isAbsolute
  rw [head_trim hraw hother.1]
  simpa using hother.2

/-- The path that the guard takes for absolute is one that the pattern for such paths finds. -/
theorem seen_of_isAbsolute {cmd : String} (h : raw ∈ extractAbsolutePaths cmd)
    (habsolute : isAbsolute (RustStr.trim raw) = true) : raw ∈ seenPaths cmd := by
  obtain ⟨text, htext, rfl⟩ := List.mem_map.mp h
  have hnever : ¬ BeginsOther text := by
    rintro ⟨c, rest, rfl, hc⟩
    exact Bool.false_ne_true
      ((not_isAbsolute_trim ⟨c, rest, String.toList_ofList, hc⟩).symm.trans habsolute)
  rcases List.mem_append.mp htext with hdrive | hhome
  · rcases List.mem_append.mp hdrive with hdrive | hposix
    · refine absurd (Regex.of_mem_captures (P := BeginsOther) ?_ hdrive) hnever
      intro total text q hq g hg
      exact Regex.Begins.head_group
        (((Regex.begins_one fun c hc => by simp [beginsOther, hc]).seq _).alt
          ((Regex.begins_lit (by decide)).seq _)) hq hg
    · rw [captures_posixPathRe] at hposix
      exact List.mem_map_of_mem hposix
  · refine absurd (Regex.of_mem_captures (P := BeginsOther) ?_ hhome) hnever
    intro total text q hq g hg
    obtain ⟨front, -, hq⟩ := List.mem_flatMap.mp hq
    exact ((Regex.begins_lit (by decide)).seq _).head_group hq hg

/-- Everything leads to `/ws`, but the paths of `out` lead to the root. -/
def filesBut (out : String → Bool) (cwd : String) : Files where
  canonicalize path := some (if out path then "/" else "/ws")
  location path := if out path then "/" else "/ws"
  location_eq _ _ h := Option.some.inj h
  absolute path real h := by
    obtain rfl := Option.some.inj h
    split <;> decide
  homeDir := none
  mediaDir := cwd

section FilesBut

variable {out : String → Bool} {cwd : String}

theorem settled_filesBut (command : String) : Settled (filesBut out cwd) cwd command :=
  ⟨fun _ _ => rfl, rfl, rfl⟩

theorem location_filesBut {path : String} (h : out path = false) :
    (filesBut out cwd).location path = "/ws" := by
  show (if out path = true then "/" else "/ws") = "/ws"
  rw [h, if_neg Bool.false_ne_true]

/-- The guard lets a path pass that is not one of `out`. -/
theorem letsPass_filesBut (hcwd : out cwd = false) {raw : String}
    (hraw : out (RustStr.trim raw) = false) : letsPass (filesBut out cwd) cwd raw = true := by
  have hexpand : shellexpand (filesBut out cwd) (RustStr.trim raw) = RustStr.trim raw := rfl
  have hresolved : ∀ path, (filesBut out cwd).resolved path = (filesBut out cwd).location path :=
    fun _ => rfl
  have hunder : startsWith "/ws" "/ws" = true := by decide
  unfold letsPass
  dsimp only
  rw [hexpand, hresolved, hresolved, location_filesBut hraw, location_filesBut hcwd, hunder,
    Bool.or_true, Bool.true_or]

/-- A path of `out` is not inside. -/
theorem not_inside_filesBut (hcwd : out cwd = false) {path : String} (hpath : out path = true)
    (h : isBenignDevicePath path = false) : ¬ Inside (filesBut out cwd) cwd path := by
  have hroot : (filesBut out cwd).location path = "/" := if_pos hpath
  have hmedia : (filesBut out cwd).location (filesBut out cwd).mediaDir = "/ws" :=
    location_filesBut hcwd
  unfold Inside
  rw [h, hroot, hmedia, location_filesBut hcwd]
  decide

end FilesBut

theorem isAbsolute_of_mem {command path : String} (h : path ∈ absolutePaths command) :
    isAbsolute path = true := by
  have hpaths : ∀ (start : Bool) (text p : List Char), p ∈ pathsFrom start text →
      p.head? = some '/' := by
    intro start text p hp
    induction text generalizing start with
    | nil => cases hp
    | cons c text ih =>
      rw [pathsFrom, List.mem_append] at hp
      rcases hp with hhere | hlater
      · split at hhere
        · next hstart =>
          rw [List.mem_singleton.mp hhere, hstart.2]
          rfl
        · cases hhere
      · exact ih _ hlater
  obtain ⟨text, htext, rfl⟩ := List.mem_map.mp h
  unfold isAbsolute
  rw [String.toList_ofList, hpaths true _ text htext]
  rfl

theorem append_x_ne (path : String) : path ++ "x" ≠ path := by
  intro h
  have hlength := congrArg String.length h
  rw [String.length_append] at hlength
  exact absurd hlength (Nat.succ_ne_self _)

/-- A command that passes is confined in every settled file system exactly if the guard looks at all
its paths and words. -/
theorem confined_iff {tool : ExecTool} {command : String}
    (hrestrict : tool.restrictToWorkspace = true)
    (hpass : ∃ files cwd, tool.guardCommand files command cwd = none) :
    (∀ files cwd, Settled files cwd command → tool.guardCommand files command cwd = none →
      Confined files cwd command) ↔ Looked command := by
  obtain ⟨files₀, cwd₀, hpass⟩ := hpass
  constructor
  · intro hconfined
    have hbut : ∀ (out : String → Bool) (cwd : String), out cwd = false →
        (∀ raw ∈ extractAbsolutePaths (RustStr.trim command), out (RustStr.trim raw) = false) →
        Confined (filesBut out cwd) cwd command := fun out cwd hcwd hout =>
      hconfined _ _ (settled_filesBut command) (passed_of_letsPass hrestrict hpass fun raw hraw =>
        letsPass_filesBut hcwd (hout raw hraw))
    refine ⟨fun path hpath => ?_, fun word hword hlast => ?_⟩
    · -- a path that the guard does not find leads out where all others lead inside
      by_contra hmissed
      obtain ⟨hbenign, hunseen⟩ := not_or.mp hmissed
      have hcwd : (path ++ "x" == path) = false := beq_eq_false_iff_ne.mpr (append_x_ne path)
      have hout : ¬ Inside (filesBut (fun p => p == path) (path ++ "x")) (path ++ "x") path := by
        refine not_inside_filesBut ?_ ?_ (Bool.eq_false_iff.mpr hbenign)
        · exact hcwd
        · exact beq_self_eq_true path
      refine hout ((hbut (fun p => p == path) (path ++ "x") hcwd fun raw hraw => ?_).paths _ hpath)
      · refine beq_eq_false_iff_ne.mpr fun heq => hunseen ?_
        have hseen := seen_of_isAbsolute hraw (heq ▸ isAbsolute_of_mem hpath)
        rw [trim_eq_self (mem_seenPaths hseen).2.2] at heq
        exact heq ▸ hseen
    · exact (hbut (fun _ => false) "" rfl fun _ _ => rfl).words word hword
        (List.mem_of_getLast? hlast)
  · rintro ⟨hpaths, hwords⟩ files cwd hsettled hpass
    refine ⟨fun path hpath => ?_, fun word hword hparent => ?_⟩
    · rcases hpaths path hpath with hbenign | hseen
      · exact Or.inl hbenign
      · exact inside_of_seen hrestrict hsettled hpass hseen
    · obtain ⟨hpart, -⟩ := mem_wordsFrom hword
      rcases part_sep_infix hparent with hlast | hclimbs
      · exact hwords word hword hlast
      · exact (of_passed hrestrict hpass).1
          (infix_trim (by decide) (List.all_iff_forall_prop.mp (by decide))
            (hclimbs.trans hpart))

def emptyFiles : Files where
  canonicalize _ := none
  location := id
  location_eq _ _ h := nomatch h
  absolute _ _ h := nomatch h
  homeDir := none
  mediaDir := "/media"

def plainTool : ExecTool where
  denyPatterns := []
  allowPatterns := []
  restrictToWorkspace := true
  network := sampleOutside
  whitelist := []

/-- `cat /ws/a` stays in `/ws`. -/
theorem confined_cat : Confined emptyFiles "/ws" "cat /ws/a" := by
  have hpaths : absolutePaths "cat /ws/a" = ["/ws/a"] := by decide +kernel
  have hpasses : plainTool.guardCommand emptyFiles "cat /ws/a" "/ws" = none := by decide +kernel
  refine (@confined_iff plainTool _ rfl ⟨_, _, hpasses⟩).mpr ⟨?_, by decide +kernel⟩ _ _
    ⟨fun _ _ => rfl, rfl, rfl⟩ hpasses
  rw [hpaths]
  intro path hpath
  obtain rfl := List.mem_singleton.mp hpath
  exact Or.inr (by decide +kernel)

/-- Behind `<`, the guard sees no path. -/
theorem redirect_escapes :
    plainTool.guardCommand emptyFiles "cat</etc/passwd" "/ws" = none ∧
      ¬ Confined emptyFiles "/ws" "cat</etc/passwd" := by
  refine ⟨by decide +kernel, fun h => ?_⟩
  have hinside := h.paths "/etc/passwd" (by decide +kernel)
  unfold Inside at hinside
  revert hinside
  decide +kernel

end HiveClaw.Tools.Shell
