import HiveClaw.Json
import HiveClaw.RustStd
import Mathlib.Data.Bool.AllAny

/-!
# Named queries

`crates/hiveweb/src/runtime/capabilities/db.rs`: plugins reach the database
through queries that are registered by name. `bind_params` turns each `:name`
of the text into a `?`, parameter by parameter in the order of their
declaration, and binds the values in that order.

A placeholder is a colon with the longest run of name characters behind it;
which characters these are is left open.

* `bound_iff` — when the `k`-th `?` of the executed statement belongs to the
  `k`-th placeholder of the query.
-/

namespace HiveClaw.Runtime

open Lib.Scanner (Tok Exact strip)

-- ---
-- The capability
-- ---

-- `NamedQuery`
structure NamedQuery where
  name : String
  sql : String
  kind : String
  params : List String

-- `DbCallArgs`
structure DbCallArgs where
  query : String
  params : JsonMap := []

/-- The loop of `bind_params`. -/
def bindLoop (args : JsonMap) : List String → String → List Json →
    Except String (String × List Json)
  | [], sql, ordered => .ok (sql, ordered)
  | p :: rest, sql, ordered =>
    let placeholder := String.ofList (':' :: p.toList)
    if RustStr.contains sql placeholder = false then
      .error s!"query 定义中找不到占位符 {placeholder}"
    else
      match args.get p with
      | none => .error s!"missing param: {p}"
      | some v => bindLoop args rest (RustStr.replace sql placeholder "?") (ordered ++ [v])

-- `bind_params`
def bindParams (q : NamedQuery) (args : JsonMap) : Except String (String × List Json) :=
  bindLoop args q.params q.sql []

/-- The two capabilities: `db.query` and `db.execute`. -/
inductive DbCapability where
  | query
  | execute

def DbCapability.kind : DbCapability → String
  | .query => "select"
  | .execute => "execute"

def DbCapability.wrongKind (q : NamedQuery) : DbCapability → String
  | .query => s!"query {q.name} 不是 select 类型；db.query 仅允许 select"
  | .execute => s!"query {q.name} 不是 execute 类型；db.execute 仅允许 DML"

/-- `db_query` and `db_execute`, as far as the statement and the values that are bound to it: each
value is one parameter. -/
def statement (registry : String → Option NamedQuery) (capability : DbCapability)
    (args : DbCallArgs) : Except String (String × List Json) :=
  match registry args.query with
  | none => .error s!"未注册的 named query: {args.query}"
  | some q =>
    if q.kind ≠ capability.kind then .error (capability.wrongKind q)
    else bindParams q args.params

-- ---
-- Placeholders
-- ---

/-- A character of a text, or a placeholder. -/
inductive Piece where
  | char (c : Char)
  | hole (name : List Char)
deriving DecidableEq

def Piece.text : Piece → List Char
  | .char c => [c]
  | .hole name => ':' :: name

def pieceText (ps : List Piece) : List Char := ps.flatMap Piece.text

/-- The name characters that a text begins with. -/
def leadingName (isName : Char → Bool) : List Piece → List Char
  | .char c :: rest => if isName c then c :: leadingName isName rest else []
  | _ => []

-- one more character in front
def addChar (isName : Char → Bool) (c : Char) (ps : List Piece) : List Piece :=
  let name := leadingName isName ps
  if c = ':' ∧ name ≠ [] then .hole name :: ps.drop name.length else .char c :: ps

/-- A text taken apart, from its end. -/
def pieces (isName : Char → Bool) (text : List Char) : List Piece := text.foldr (addChar isName) []

def Piece.name? : Piece → Option (List Char)
  | .char _ => none
  | .hole name => some name

def holes (ps : List Piece) : List (List Char) := ps.filterMap Piece.name?

/-- The placeholders of a query, in the order of the text. -/
def placeholders (isName : Char → Bool) (sql : String) : List String :=
  (holes (pieces isName sql.toList)).map String.ofList

/-- The placeholders are the longest runs of name characters behind a colon. -/
def Fits (isName : Char → Bool) : List Piece → Prop
  | [] => True
  | .char c :: rest => (c = ':' → leadingName isName rest = []) ∧ Fits isName rest
  | .hole name :: rest =>
    name ≠ [] ∧ (∀ c ∈ name, isName c) ∧ leadingName isName rest = [] ∧ Fits isName rest

section Pieces

variable {isName : Char → Bool}

@[simp] theorem pieceText_cons (p : Piece) (ps : List Piece) :
    pieceText (p :: ps) = p.text ++ pieceText ps := rfl

theorem pieceText_append (ps qs : List Piece) :
    pieceText (ps ++ qs) = pieceText ps ++ pieceText qs := List.flatMap_append

@[simp] theorem pieceText_chars (l : List Char) : pieceText (l.map Piece.char) = l := by
  induction l with
  | nil => rfl
  | cons c rest ih => simp [Piece.text, ih]

theorem split_leadingName (isName : Char → Bool) (ps : List Piece) :
    ps = (leadingName isName ps).map Piece.char ++ ps.drop (leadingName isName ps).length ∧
      leadingName isName (ps.drop (leadingName isName ps).length) = [] ∧
      ∀ c ∈ leadingName isName ps, isName c := by
  induction ps with
  | nil => simp [leadingName]
  | cons p rest ih =>
    cases p with
    | hole name => simp [leadingName]
    | char c =>
      by_cases hc : isName c
      · obtain ⟨hsplit, hend, hall⟩ := ih
        simp only [leadingName, if_pos hc, List.map_cons, List.length_cons, List.drop_succ_cons,
          List.cons_append, List.mem_cons, forall_eq_or_imp]
        exact ⟨congrArg _ hsplit, hend, hc, hall⟩
      · simp [leadingName, hc]

variable {ps : List Piece}

theorem Fits.drop_chars {l : List Char} (h : Fits isName (l.map Piece.char ++ ps)) : Fits isName ps := by
  induction l with
  | nil => exact h
  | cons c rest ih => exact ih h.2

theorem fits_addChar {c : Char} (h : Fits isName ps) : Fits isName (addChar isName c ps) := by
  obtain ⟨hsplit, hend, hall⟩ := split_leadingName isName ps
  unfold addChar
  dsimp only
  split
  · next hhole =>
    rw [hsplit] at h
    exact ⟨hhole.2, hall, hend, h.drop_chars⟩
  · next hchar =>
    refine ⟨fun hc => ?_, h⟩
    by_contra hname
    exact hchar ⟨hc, hname⟩

theorem fits_pieces (text : List Char) : Fits isName (pieces isName text) := by
  induction text with
  | nil => trivial
  | cons c rest ih => exact fits_addChar ih

theorem pieceText_pieces (text : List Char) : pieceText (pieces isName text) = text := by
  induction text with
  | nil => rfl
  | cons c rest ih =>
    show pieceText (addChar isName c (pieces isName rest)) = c :: rest
    obtain ⟨hsplit, -, -⟩ := split_leadingName isName (pieces isName rest)
    unfold addChar
    dsimp only
    split
    · next hhole =>
      have hrest := congrArg pieceText hsplit
      rw [pieceText_append, pieceText_chars, ih] at hrest
      rw [pieceText_cons, Piece.text, List.cons_append, ← hrest, hhole.1]
    · rw [pieceText_cons, Piece.text, ih, List.singleton_append]

end Pieces

-- ---
-- One parameter
-- ---

/-- What `replace` makes of a piece: of a longer name the rest stays behind. -/
def fillPiece (p : List Char) : Piece → List Piece
  | .char c => [.char c]
  | .hole name =>
    if p <+: name then .char '?' :: (name.drop p.length).map .char else [.hole name]

def fill (p : List Char) (ps : List Piece) : List Piece := ps.flatMap (fillPiece p)

/-- The same text as tokens: the placeholders with this prefix are matches. -/
def markPiece (p : List Char) : Piece → List (Tok Char)
  | .char c => [.char c]
  | .hole name =>
    if p <+: name then .hit (':' :: p) :: (name.drop p.length).map .char
    else (':' :: name).map .char

def mark (p : List Char) (ps : List Piece) : List (Tok Char) := ps.flatMap (markPiece p)

/-- The characters that names may have: neither the colon nor the question mark. -/
structure NameChars (isName : Char → Bool) : Prop where
  colon : isName ':' = false
  question : isName '?' = false

def IsName (isName : Char → Bool) (p : List Char) : Prop := p ≠ [] ∧ ∀ c ∈ p, isName c

instance (isName : Char → Bool) (p : List Char) : Decidable (IsName isName p) :=
  inferInstanceAs (Decidable (p ≠ [] ∧ ∀ c ∈ p, isName c))

section Parameter

variable {isName : Char → Bool} (hchars : NameChars isName)

include hchars

variable {l : List Char}

theorem NameChars.colon_notMem (h : ∀ c ∈ l, isName c) : ':' ∉ l := by
  intro hmem
  have hname := h ':' hmem
  rw [hchars.colon] at hname
  cases hname

theorem NameChars.question_notMem (h : ∀ c ∈ l, isName c) : '?' ∉ l := by
  intro hmem
  have hname := h '?' hmem
  rw [hchars.question] at hname
  cases hname

variable {ps : List Piece}

omit hchars in
theorem fits_chars (hl : ':' ∉ l) (h : Fits isName ps) : Fits isName (l.map Piece.char ++ ps) := by
  induction l with
  | nil => exact h
  | cons c rest ih =>
    rw [List.mem_cons, not_or] at hl
    exact ⟨fun hc => absurd hc.symm hl.1, ih hl.2⟩

variable {p : List Char}

theorem leadingName_fill (h : leadingName isName ps = []) :
    leadingName isName (fill p ps) = [] := by
  cases ps with
  | nil => rfl
  | cons piece rest =>
    cases piece with
    | char c =>
      have hc : ¬isName c := by
        intro hc
        simp [leadingName, hc] at h
      show leadingName isName (.char c :: fill p rest) = []
      simp [leadingName, hc]
    | hole name =>
      show leadingName isName (fillPiece p (.hole name) ++ fill p rest) = []
      rw [fillPiece]
      split
      · simp [leadingName, hchars.question]
      · rfl

theorem fits_fill (h : Fits isName ps) : Fits isName (fill p ps) := by
  induction ps with
  | nil => trivial
  | cons piece rest ih =>
    cases piece with
    | char c => exact ⟨fun hc => leadingName_fill hchars (h.1 hc), ih h.2⟩
    | hole name =>
      obtain ⟨hne, hname, hend, hrest⟩ := h
      show Fits isName (fillPiece p (.hole name) ++ fill p rest)
      rw [fillPiece]
      split
      · refine ⟨fun hc => absurd hc (by decide), fits_chars ?_ (ih hrest)⟩
        exact hchars.colon_notMem fun c hc => hname c (List.mem_of_mem_drop hc)
      · exact ⟨hne, hname, leadingName_fill hchars hend, ih hrest⟩

omit hchars in
theorem render_mark (p : List Char) (ps : List Piece) :
    Lib.Scanner.render (mark p ps) = pieceText ps := by
  induction ps with
  | nil => rfl
  | cons piece rest ih =>
    show Lib.Scanner.render (markPiece p piece ++ mark p rest) = _
    rw [Lib.Scanner.render_append, ih, pieceText_cons]
    congr 1
    cases piece with
    | char c => rfl
    | hole name =>
      rw [markPiece]
      split
      · next hprefix =>
        obtain ⟨s, rfl⟩ := hprefix
        simp [Tok.text, Piece.text]
      · exact Lib.Scanner.render_chars _

omit hchars in
theorem output_mark (p : List Char) (ps : List Piece) :
    (mark p ps).flatMap (Tok.output ['?']) = pieceText (fill p ps) := by
  induction ps with
  | nil => rfl
  | cons piece rest ih =>
    show (markPiece p piece ++ mark p rest).flatMap (Tok.output ['?']) =
      pieceText (fillPiece p piece ++ fill p rest)
    rw [List.flatMap_append, ih, pieceText_append]
    congr 1
    cases piece with
    | char c => rfl
    | hole name =>
      have houtput : ∀ l : List Char, (l.map Tok.char).flatMap (Tok.output ['?']) = l := by
        intro l
        rw [List.flatMap_map]
        exact List.flatMap_singleton' l
      rw [markPiece, fillPiece]
      split
      · rw [List.flatMap_cons, houtput, pieceText_cons, pieceText_chars]
        rfl
      · rw [houtput]
        simp [pieceText, Piece.text]

theorem not_prefix_of_leadingName (hp : IsName isName p) (h : leadingName isName ps = []) :
    ¬p <+: pieceText ps := by
  obtain ⟨c, p', rfl⟩ := List.exists_cons_of_ne_nil hp.1
  have hc : isName c := hp.2 c List.mem_cons_self
  cases ps with
  | nil => simp [pieceText]
  | cons piece rest =>
    cases piece with
    | char d =>
      intro hprefix
      obtain ⟨rfl, -⟩ := List.cons_prefix_cons.mp hprefix
      simp [leadingName, hc] at h
    | hole name =>
      intro hprefix
      obtain ⟨rfl, -⟩ := List.cons_prefix_cons.mp hprefix
      rw [hchars.colon] at hc
      cases hc

theorem prefix_name_iff {name : List Char} (hp : IsName isName p) (h : leadingName isName ps = []) :
    p <+: name ++ pieceText ps ↔ p <+: name := by
  refine ⟨fun hprefix => ?_, fun hprefix => hprefix.trans (List.prefix_append _ _)⟩
  rcases List.prefix_or_prefix_of_prefix hprefix (List.prefix_append name _) with hshort | hlong
  · exact hshort
  · obtain ⟨s, rfl⟩ := hlong
    rw [List.prefix_append_right_inj] at hprefix
    cases s with
    | nil => rw [List.append_nil]
    | cons c s =>
      have hs : IsName isName (c :: s) :=
        ⟨nofun, fun d hd => hp.2 d (List.mem_append_right _ hd)⟩
      exact absurd hprefix (not_prefix_of_leadingName hchars hs h)

theorem exact_mark (hp : IsName isName p) (h : Fits isName ps) :
    Exact (strip (':' :: p)) (mark p ps) := by
  induction ps with
  | nil => trivial
  | cons piece rest ih =>
    cases piece with
    | char c =>
      show Exact (strip (':' :: p)) (.char c :: mark p rest)
      refine ⟨Lib.Scanner.strip_eq_none_iff.mpr fun hprefix => ?_, ih h.2⟩
      obtain ⟨hc, hprefix⟩ := List.cons_prefix_cons.mp hprefix
      rw [render_mark] at hprefix
      exact not_prefix_of_leadingName hchars hp (h.1 hc.symm) hprefix
    | hole name =>
      obtain ⟨hne, hname, hend, hrest⟩ := h
      show Exact (strip (':' :: p)) (markPiece p (.hole name) ++ mark p rest)
      rw [markPiece]
      split
      · next hprefix =>
        refine ⟨nofun, Lib.Scanner.strip_append _ _, ?_⟩
        exact Lib.Scanner.exact_chars
          (hchars.colon_notMem fun c hc => hname c (List.mem_of_mem_drop hc)) (ih hrest)
      · next hprefix =>
        refine ⟨Lib.Scanner.strip_eq_none_iff.mpr fun hmatch => hprefix ?_,
          Lib.Scanner.exact_chars (hchars.colon_notMem hname) (ih hrest)⟩
        have hmatch' : p <+: Lib.Scanner.render (name.map Tok.char ++ mark p rest) :=
          (List.cons_prefix_cons.mp hmatch).2
        rw [Lib.Scanner.render_append, Lib.Scanner.render_chars, render_mark] at hmatch'
        exact (prefix_name_iff hchars hp hend).mp hmatch'

end Parameter

-- ---
-- All parameters
-- ---

def fillAll (params : List String) (ps : List Piece) : List Piece :=
  params.foldl (fun ps p => fill p.toList ps) ps

/-- Each parameter has a value, and a placeholder that it and no parameter before it is a prefix
of. -/
def Bindable (args : JsonMap) (params : List String) (names : List (List Char)) : Prop :=
  ∀ before p after, params = before ++ p :: after →
    (args.get p).isSome ∧
      ∃ name ∈ names, p.toList <+: name ∧ ∀ p' ∈ before, ¬p'.toList <+: name

theorem holes_append (ps qs : List Piece) : holes (ps ++ qs) = holes ps ++ holes qs :=
  List.filterMap_append

@[simp] theorem holes_chars (l : List Char) : holes (l.map Piece.char) = [] := by
  induction l with
  | nil => rfl
  | cons c rest ih => exact ih

variable {ps : List Piece}

theorem mem_holes_iff {name : List Char} : name ∈ holes ps ↔ .hole name ∈ ps := by
  rw [holes, List.mem_filterMap]
  constructor
  · rintro ⟨piece, hmem, hname⟩
    cases piece with
    | char c => cases hname
    | hole n =>
      cases hname
      exact hmem
  · exact fun hmem => ⟨_, hmem, rfl⟩

theorem exists_hit_iff {p : List Char} :
    (∃ x, .hit x ∈ mark p ps) ↔ ∃ name ∈ holes ps, p <+: name := by
  simp only [mark, List.mem_flatMap, mem_holes_iff]
  constructor
  · rintro ⟨x, piece, hmem, hx⟩
    cases piece with
    | char c => simp [markPiece] at hx
    | hole name =>
      by_cases hprefix : p <+: name
      · exact ⟨name, hmem, hprefix⟩
      · simp [markPiece, hprefix] at hx
  · rintro ⟨name, hmem, hprefix⟩
    exact ⟨':' :: p, _, hmem, by simp [markPiece, hprefix]⟩

theorem holes_fill (p : List Char) (ps : List Piece) :
    holes (fill p ps) = (holes ps).filter fun name => ¬p <+: name := by
  induction ps with
  | nil => rfl
  | cons piece rest ih =>
    have hsplit : holes (fill p (piece :: rest)) =
        holes (fillPiece p piece) ++ holes (fill p rest) := holes_append _ _
    rw [hsplit, ih]
    cases piece with
    | char c => rfl
    | hole name =>
      show _ = List.filter _ (name :: holes rest)
      rw [fillPiece]
      split
      · next hprefix =>
        have hnone : holes (.char '?' :: (name.drop p.length).map .char) = [] :=
          holes_chars ('?' :: name.drop p.length)
        rw [hnone, List.filter_cons_of_neg (by simpa using hprefix), List.nil_append]
      · next hprefix =>
        rw [List.filter_cons_of_pos (by simpa using hprefix)]
        rfl

theorem bindable_cons_iff {args : JsonMap} {p : String} {rest : List String}
    {names : List (List Char)} :
    Bindable args (p :: rest) names ↔
      (∃ name ∈ names, p.toList <+: name) ∧ (args.get p).isSome ∧
        Bindable args rest (names.filter fun name => ¬p.toList <+: name) := by
  constructor
  · intro h
    obtain ⟨hvalue, name, hname, hprefix, -⟩ := h [] p rest rfl
    refine ⟨⟨name, hname, hprefix⟩, hvalue, fun before p' after hrest => ?_⟩
    obtain ⟨hvalue', name', hname', hprefix', hfresh⟩ :=
      h (p :: before) p' after (by rw [hrest, List.cons_append])
    rw [List.forall_mem_cons] at hfresh
    exact ⟨hvalue', name', by simpa using ⟨hname', hfresh.1⟩, hprefix', hfresh.2⟩
  · rintro ⟨⟨name, hname, hprefix⟩, hvalue, hrest⟩ before p' after hsplit
    cases before with
    | nil =>
      obtain ⟨rfl, -⟩ := List.cons.inj hsplit
      exact ⟨hvalue, name, hname, hprefix, nofun⟩
    | cons first before =>
      obtain ⟨rfl, hsplit'⟩ := List.cons.inj hsplit
      obtain ⟨hvalue', name', hname', hprefix', hfresh⟩ := hrest before p' after hsplit'
      obtain ⟨hname', hfirst⟩ : name' ∈ names ∧ ¬p.toList <+: name' := by simpa using hname'
      exact ⟨hvalue', name', hname', hprefix', List.forall_mem_cons.mpr ⟨hfirst, hfresh⟩⟩

section Loop

variable {isName : Char → Bool} (hchars : NameChars isName)

include hchars

variable {p : String} {ps : List Piece}

theorem contains_iff (hp : IsName isName p.toList) (h : Fits isName ps) :
    RustStr.contains (String.ofList (pieceText ps)) (String.ofList (':' :: p.toList)) = true ↔
      ∃ name ∈ holes ps, p.toList <+: name := by
  rw [RustStr.contains, decide_eq_true_iff, String.toList_ofList, String.toList_ofList,
    ← render_mark p.toList ps, Lib.Scanner.infix_render_iff (exact_mark hchars hp h) nofun,
    exists_hit_iff]

theorem replace_eq (hp : IsName isName p.toList) (h : Fits isName ps) :
    RustStr.replace (String.ofList (pieceText ps)) (String.ofList (':' :: p.toList)) "?" =
      String.ofList (pieceText (fill p.toList ps)) := by
  have hpattern : ':' :: p.toList ≠ [] := nofun
  have hrender := (RustStr.scans_replaceChars hpattern ['?']).render (exact_mark hchars hp h)
  rw [render_mark, output_mark] at hrender
  simp only [RustStr.replace, String.toList_ofList, String.length_ofList]
  exact congrArg String.ofList hrender

variable {args : JsonMap} {params : List String}

/-- What the loop of `bind_params` does to the placeholders of a text. -/
theorem bindLoop_eq_ok_iff (hparams : ∀ p ∈ params, IsName isName p.toList) (h : Fits isName ps)
    {ordered values : List Json} {sql : String} :
    bindLoop args params (String.ofList (pieceText ps)) ordered = .ok (sql, values) ↔
      Bindable args params (holes ps) ∧ sql = String.ofList (pieceText (fillAll params ps)) ∧
        values = ordered ++ params.filterMap args.get := by
  induction params generalizing ps ordered with
  | nil =>
    simp only [bindLoop, fillAll, List.foldl_nil, List.filterMap_nil, List.append_nil]
    have hnone : Bindable args [] (holes ps) := fun before p after h => by simp at h
    simp only [hnone, true_and, Except.ok.injEq, Prod.mk.injEq]
    exact and_congr eq_comm eq_comm
  | cons p rest ih =>
    obtain ⟨hp, hrest⟩ := List.forall_mem_cons.mp hparams
    rw [bindLoop, bindable_cons_iff]
    by_cases hcontains : ∃ name ∈ holes ps, p.toList <+: name
    · rw [(contains_iff hchars hp h).mpr hcontains, if_neg Bool.noConfusion]
      cases hvalue : args.get p with
      | none => simp
      | some v =>
        rw [replace_eq hchars hp h, ih hrest (fits_fill hchars h), holes_fill]
        simp [hcontains, hvalue, fillAll]
    · rw [if_pos (by simpa using mt (contains_iff hchars hp h).mp hcontains)]
      simp [hcontains]

theorem count_fill {p : List Char} (h : Fits isName ps) :
    (pieceText (fill p ps)).count '?' + (holes (fill p ps)).length =
      (pieceText ps).count '?' + (holes ps).length := by
  induction ps with
  | nil => rfl
  | cons piece rest ih =>
    have htext : pieceText (fill p (piece :: rest)) =
        pieceText (fillPiece p piece) ++ pieceText (fill p rest) := pieceText_append _ _
    have hholes : holes (fill p (piece :: rest)) =
        holes (fillPiece p piece) ++ holes (fill p rest) := holes_append _ _
    rw [htext, hholes, List.count_append, List.length_append]
    cases piece with
    | char c =>
      have ih := ih h.2
      show List.count '?' (pieceText [.char c]) + _ + (0 + _) =
        List.count '?' (pieceText [.char c] ++ pieceText rest) + (holes rest).length
      rw [List.count_append]
      omega
    | hole name =>
      obtain ⟨-, hname, -, hrest⟩ := h
      have ih := ih hrest
      have hnone : ∀ l : List Char, (∀ c ∈ l, isName c) → l.count '?' = 0 := fun l hl =>
        List.count_eq_zero.mpr (hchars.question_notMem hl)
      have hone : List.count '?' (pieceText (.hole name :: rest)) =
          List.count '?' (pieceText rest) := by
        rw [pieceText_cons, Piece.text, List.count_append, List.count_cons, hnone name hname]
        simp
      have hlen : (holes (.hole name :: rest)).length = (holes rest).length + 1 := rfl
      rw [hone, hlen, fillPiece]
      split
      · have hdrop := hnone (name.drop p.length) fun c hc => hname c (List.mem_of_mem_drop hc)
        have hfilled : holes (.char '?' :: (name.drop p.length).map .char) = [] :=
          holes_chars ('?' :: name.drop p.length)
        rw [hfilled, pieceText_cons, pieceText_chars, Piece.text, List.singleton_append,
          List.count_cons_self, hdrop, List.length_nil]
        omega
      · have hkept : List.count '?' (pieceText [.hole name]) = 0 := by
          rw [pieceText_cons, Piece.text, List.count_append, List.count_cons, hnone name hname]
          simp [pieceText]
        have hlen' : (holes [.hole name]).length = 1 := rfl
        omega

theorem count_fillAll (h : Fits isName ps) :
    (pieceText (fillAll params ps)).count '?' + (holes (fillAll params ps)).length =
      (pieceText ps).count '?' + (holes ps).length := by
  induction params generalizing ps with
  | nil => rfl
  | cons p rest ih => exact (ih (fits_fill hchars h)).trans (count_fill hchars h)

omit hchars in
theorem length_fillAll (h : Bindable args params (holes ps)) :
    (holes (fillAll params ps)).length + params.length ≤ (holes ps).length := by
  induction params generalizing ps with
  | nil => simp [fillAll]
  | cons p rest ih =>
    obtain ⟨⟨name, hname, hprefix⟩, -, hrest⟩ := bindable_cons_iff.mp h
    rw [← holes_fill] at hrest
    have hless : (holes (fill p.toList ps)).length < (holes ps).length := by
      rw [holes_fill]
      refine List.length_filter_lt_length_iff_exists.mpr ⟨name, hname, by simpa using hprefix⟩
    have hstep : (holes (fillAll rest (fill p.toList ps))).length + rest.length ≤
        (holes (fill p.toList ps)).length := ih hrest
    show (holes (fillAll rest (fill p.toList ps))).length + (rest.length + 1) ≤ _
    omega

omit hchars in
theorem Bindable.values {names : List (List Char)} (h : Bindable args params names) :
    (params.filterMap args.get).map some = params.map args.get := by
  induction params generalizing names with
  | nil => rfl
  | cons p rest ih =>
    obtain ⟨-, hvalue, hrest⟩ := bindable_cons_iff.mp h
    obtain ⟨v, hv⟩ := Option.isSome_iff_exists.mp hvalue
    rw [List.filterMap_cons_some hv, List.map_cons, List.map_cons, hv, ih hrest]

end Loop

-- ---
-- The statement
-- ---

/-- There is one `?` for each placeholder, and the `k`-th value is the argument that the `k`-th
placeholder names. -/
def BoundInOrder (isName : Char → Bool) (q : NamedQuery) (args : JsonMap) (sql : String)
    (values : List Json) : Prop :=
  sql.toList.count '?' = (placeholders isName q.sql).length ∧
    values.map some = (placeholders isName q.sql).map args.get

/-- A statement is executed for a query only with every `?` bound to the argument of its
placeholder, if and only if the query cannot be bound, or its text has no `?` of its own and the
declared parameters give, in their order, the arguments of the placeholders in theirs. -/
theorem bound_iff (isName : Char → Bool) (hchars : NameChars isName) (q : NamedQuery)
    (hparams : ∀ p ∈ q.params, IsName isName p.toList) (args : JsonMap) :
    (∀ sql values, bindParams q args = .ok (sql, values) →
      BoundInOrder isName q args sql values) ↔
      ¬Bindable args q.params (holes (pieces isName q.sql.toList)) ∨
        ('?' ∉ q.sql.toList ∧
          q.params.map args.get = (placeholders isName q.sql).map args.get) := by
  have hfits : Fits isName (pieces isName q.sql.toList) := fits_pieces _
  have htext : String.ofList (pieceText (pieces isName q.sql.toList)) = q.sql := by
    rw [pieceText_pieces, String.ofList_toList]
  have hok : ∀ sql values, bindParams q args = .ok (sql, values) ↔
      Bindable args q.params (holes (pieces isName q.sql.toList)) ∧
        sql = String.ofList (pieceText (fillAll q.params (pieces isName q.sql.toList))) ∧
        values = q.params.filterMap args.get := by
    intro sql values
    unfold bindParams
    nth_rewrite 1 [← htext]
    rw [bindLoop_eq_ok_iff hchars hparams hfits, List.nil_append]
  simp only [hok, BoundInOrder]
  by_cases hbind : Bindable args q.params (holes (pieces isName q.sql.toList))
  · have hcount : (pieceText (fillAll q.params (pieces isName q.sql.toList))).count '?' +
        (holes (fillAll q.params (pieces isName q.sql.toList))).length = _ :=
      count_fillAll hchars hfits
    have hlength := length_fillAll hbind
    rw [pieceText_pieces] at hcount
    have hplaces : (placeholders isName q.sql).length =
        (holes (pieces isName q.sql.toList)).length := List.length_map _
    simp only [hbind, true_and, not_true_eq_false, false_or]
    constructor
    · intro h
      obtain ⟨hmarks, hvalues⟩ := h _ _ ⟨rfl, rfl⟩
      rw [hbind.values] at hvalues
      refine ⟨?_, hvalues⟩
      have hlen := congrArg List.length hvalues
      rw [List.length_map, List.length_map] at hlen
      rw [String.toList_ofList] at hmarks
      rw [← List.count_eq_zero]
      omega
    · rintro ⟨hown, hvalues⟩ sql values ⟨rfl, rfl⟩
      rw [hbind.values]
      refine ⟨?_, hvalues⟩
      have hlen := congrArg List.length hvalues
      rw [List.length_map, List.length_map] at hlen
      rw [← List.count_eq_zero] at hown
      rw [String.toList_ofList]
      omega
  · simp [hbind]

/-- The same of the statements that the capabilities execute. -/
theorem statement_bound_iff (isName : Char → Bool) (hchars : NameChars isName)
    (registry : String → Option NamedQuery)
    (hparams : ∀ name q, registry name = some q → ∀ p ∈ q.params, IsName isName p.toList)
    (capability : DbCapability) (call : DbCallArgs) :
    (∀ q sql values, registry call.query = some q →
      statement registry capability call = .ok (sql, values) →
        BoundInOrder isName q call.params sql values) ↔
      ∀ q, registry call.query = some q → q.kind = capability.kind →
        ¬Bindable call.params q.params (holes (pieces isName q.sql.toList)) ∨
          ('?' ∉ q.sql.toList ∧
            q.params.map call.params.get = (placeholders isName q.sql).map call.params.get) := by
  constructor
  · intro h q hq hkind
    refine (bound_iff isName hchars q (hparams _ q hq) call.params).mp fun sql values hbind => ?_
    refine h q sql values hq ?_
    rw [statement, hq]
    exact (if_neg (not_not.mpr hkind)).trans hbind
  · intro h q sql values hq hstatement
    rw [statement, hq] at hstatement
    dsimp only at hstatement
    split at hstatement
    · cases hstatement
    · next hkind =>
      exact (bound_iff isName hchars q (hparams _ q hq) call.params).mpr
        (h q hq (not_not.mp hkind)) sql values hstatement

-- letters, digits and the underscore
def nameChar (c : Char) : Bool := c.isAlphanum || c = '_'

theorem nameChar_nameChars : NameChars nameChar := ⟨by decide, by decide⟩

/-- A query with two placeholders and its parameters in this order. -/
def transfers (params : List String) : NamedQuery :=
  { name := "transfers", sql := "SELECT 1 FROM t WHERE src = :src AND dst = :dst"
    kind := "select", params := params }

def transferCall : DbCallArgs :=
  { query := "transfers", params := [("src", .str "a"), ("dst", .str "b")] }

theorem statement_bound_transfers :
    statement (fun _ => some (transfers ["src", "dst"])) .query transferCall =
        .ok ("SELECT 1 FROM t WHERE src = ? AND dst = ?", [.str "a", .str "b"]) ∧
      BoundInOrder nameChar (transfers ["src", "dst"]) transferCall.params
        "SELECT 1 FROM t WHERE src = ? AND dst = ?" [.str "a", .str "b"] := by
  have hok : statement (fun _ => some (transfers ["src", "dst"])) .query transferCall =
      .ok ("SELECT 1 FROM t WHERE src = ? AND dst = ?", [.str "a", .str "b"]) := by
    decide +kernel
  refine ⟨hok, (statement_bound_iff nameChar nameChar_nameChars
    (fun _ => some (transfers ["src", "dst"])) ?_ .query transferCall).mpr ?_ _ _ _ rfl hok⟩
  · rintro name q ⟨⟩ p hp
    have hwords : ["src", "dst"].all fun p => p.toList ≠ [] ∧ p.toList.all nameChar := by
      decide +kernel
    have hword := List.all_iff_forall_prop.mp hwords p hp
    exact ⟨hword.1, List.all_eq_true.mp hword.2⟩
  · rintro q ⟨⟩ -
    exact Or.inr (by decide +kernel)

/-- The parameters are declared the other way round. -/
theorem statement_not_bound_transfers :
    statement (fun _ => some (transfers ["dst", "src"])) .query transferCall =
        .ok ("SELECT 1 FROM t WHERE src = ? AND dst = ?", [.str "b", .str "a"]) ∧
      ¬BoundInOrder nameChar (transfers ["dst", "src"]) transferCall.params
        "SELECT 1 FROM t WHERE src = ? AND dst = ?" [.str "b", .str "a"] := by
  constructor
  · decide +kernel
  · rintro ⟨-, hvalues⟩
    have hnames : placeholders nameChar (transfers ["dst", "src"]).sql = ["src", "dst"] := by
      decide +kernel
    rw [hnames] at hvalues
    have hfirst : some (Json.str "b") = some (Json.str "a") := (List.cons.inj hvalues).1
    exact absurd (Json.str.inj (Option.some.inj hfirst)) (by decide)

end HiveClaw.Runtime
