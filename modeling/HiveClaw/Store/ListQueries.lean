import HiveClaw.RustStd
import Mathlib.Data.List.Basic

/-!
# Lists with filters

`list` of `crates/hiveweb/src/services/workflow.rs` and of
`crates/hiveweb/src/services/plugin.rs`: the clauses for the filters that are
given become the `WHERE` of a count query and of a page query, and their values
are bound to the `?` from left to right.

Both collect clauses and values apart. The workflow list binds the search
pattern before all other values, wherever its clause stands; the plugin list
puts the clauses with `LIKE` behind the others, but binds the values in the
order of the filter's fields.

* `Answers` — the queries as they should be: each clause is tested with its own
  values.
* `list_answers_iff` — for which filters they are.
-/

namespace HiveClaw.Store

/-- A value that is bound to a `?`. -/
inductive SqlValue where
  | int (i : Int)
  | text (s : String)
deriving DecidableEq

/-- A clause of a `WHERE` and the values that belong to it. -/
structure Clause where
  sql : String
  values : List SqlValue

-- `if let Some(a) = x`: the clause is pushed, and its values are
def given {α : Type} (x : Option α) (sql : String) (values : α → List SqlValue) : List Clause :=
  match x with
  | none => []
  | some a => [⟨sql, values a⟩]

-- the values alone
def bound {α : Type} (x : Option α) (values : α → List SqlValue) : List SqlValue :=
  match x with
  | none => []
  | some a => values a

-- `format!("%{s}%")`
def like (s : String) : List SqlValue := [.text ("%" ++ s ++ "%")]

def plain (s : String) : List SqlValue := [.text s]

-- `i.to_string()`
def shown (i : Int) : List SqlValue := [.text (toString i)]

-- ---
-- Workflows
-- ---

/-- `ListFilter` of the workflows. -/
structure WorkflowFilter where
  id : Option Int := none
  identifier : Option String := none
  name : Option String := none
  search : Option String := none
  categoryId : Option Int := none
  tagId : Option Int := none
  requiredCapabilities : Option String := none
  timeoutMsFrom : Option Int := none
  timeoutMsTo : Option Int := none
  createdAtFrom : Option Int := none
  createdAtTo : Option Int := none
  updatedAtFrom : Option Int := none
  updatedAtTo : Option Int := none

namespace WorkflowFilter

-- the clauses in front of the search
def first (f : WorkflowFilter) : List Clause :=
  given f.id "w.id = ?" shown ++ given f.identifier "w.identifier LIKE ?" like ++
    given f.name "w.name LIKE ?" like

-- its value is bound four times
def searched (f : WorkflowFilter) : List Clause :=
  given f.search
    "(w.identifier LIKE ? OR w.name LIKE ? OR w.description LIKE ? OR CAST(w.required_capabilities AS CHAR) LIKE ?)"
    fun s => like s ++ like s ++ like s ++ like s

-- the clauses behind it; `dateText` is `to_string` of a date
def last (dateText : Int → String) (f : WorkflowFilter) : List Clause :=
  given f.categoryId "w.category_id = ?" shown ++
    given f.tagId
      "EXISTS (SELECT 1 FROM taggings tg WHERE tg.entity_type = 'workflow' AND tg.entity_id = w.id AND tg.tag_id = ?)"
      shown ++
    given f.requiredCapabilities "CAST(w.required_capabilities AS CHAR) LIKE ?" like ++
    given f.timeoutMsFrom "w.timeout_ms >= ?" shown ++
    given f.timeoutMsTo "w.timeout_ms <= ?" shown ++
    given f.createdAtFrom "w.created_at >= ?" (plain ∘ dateText) ++
    given f.createdAtTo "w.created_at <= ?" (plain ∘ dateText) ++
    given f.updatedAtFrom "w.updated_at >= ?" (plain ∘ dateText) ++
    given f.updatedAtTo "w.updated_at <= ?" (plain ∘ dateText)

-- `where_clauses`
def clauses (dateText : Int → String) (f : WorkflowFilter) : List Clause :=
  f.first ++ f.searched ++ f.last dateText

/-- The values as they are bound: `search_pattern` four times, then `params`. -/
def bound (dateText : Int → String) (f : WorkflowFilter) : List SqlValue :=
  f.searched.flatMap Clause.values ++ (f.first ++ f.last dateText).flatMap Clause.values

end WorkflowFilter

-- ---
-- Plugins
-- ---

/-- `ListFilter` of the plugins. -/
structure PluginFilter where
  search : Option String := none
  categoryId : Option Int := none
  tagIds : List Int := []
  deletedOnly : Bool := false
  identifier : Option String := none
  name : Option String := none
  description : Option String := none
  runtime : Option String := none
  version : Option String := none
  author : Option String := none
  repositoryUrl : Option String := none
  createdAtStart : Option String := none
  createdAtEnd : Option String := none
  updatedAtStart : Option String := none
  updatedAtEnd : Option String := none

namespace PluginFilter

def tagValues (f : PluginFilter) : List SqlValue := f.tagIds.map .int

-- the search pattern is bound three times
def searchValues (s : String) : List SqlValue := like s ++ like s ++ like s

-- `p.id IN (…)` for the tags, unless there are none
def tagClause (f : PluginFilter) : List Clause :=
  if f.tagIds = [] then []
  else
    [⟨"p.id IN (SELECT entity_id FROM taggings WHERE entity_type='plugin' AND tag_id IN (" ++
        ",".intercalate (f.tagIds.map fun _ => "?") ++ "))",
      f.tagValues⟩]

-- `where_clauses`
def whereClauses (f : PluginFilter) : List Clause :=
  [⟨if f.deletedOnly then "p.deleted_at IS NOT NULL" else "p.deleted_at IS NULL", []⟩] ++
    given f.categoryId "p.category_id = ?" (fun i => [.int i]) ++
    given f.runtime "p.runtime = ?" plain ++
    given f.version "p.version = ?" plain ++
    given f.createdAtStart "p.created_at >= ?" plain ++
    given f.createdAtEnd "p.created_at <= ?" plain ++
    given f.updatedAtStart "p.updated_at >= ?" plain ++
    given f.updatedAtEnd "p.updated_at <= ?" plain ++
    f.tagClause

-- `like_clauses`
def likeClauses (f : PluginFilter) : List Clause :=
  given f.identifier "p.identifier LIKE ?" like ++
    given f.name "p.name LIKE ?" like ++
    given f.description "p.description LIKE ?" like ++
    given f.author "p.author LIKE ?" like ++
    given f.repositoryUrl "p.repository_url LIKE ?" like ++
    given f.search "(p.name LIKE ? OR p.description LIKE ? OR p.identifier LIKE ?)" searchValues

-- `all_clauses`
def clauses (f : PluginFilter) : List Clause := f.whereClauses ++ f.likeClauses

-- `bind_filter_params!`
def bound (f : PluginFilter) : List SqlValue :=
  Store.bound f.categoryId (fun i => [.int i]) ++
    Store.bound f.identifier like ++ Store.bound f.name like ++ Store.bound f.description like ++
    Store.bound f.runtime plain ++ Store.bound f.version plain ++
    Store.bound f.author like ++ Store.bound f.repositoryUrl like ++
    Store.bound f.createdAtStart plain ++ Store.bound f.createdAtEnd plain ++
    Store.bound f.updatedAtStart plain ++ Store.bound f.updatedAtEnd plain ++
    Store.bound f.search searchValues ++ f.tagValues

end PluginFilter

-- ---
-- Queries
-- ---

-- the `?` of a text
def marks (sql : String) : Nat := sql.toList.count '?'

/-- The values are handed to the clauses from left to right, one for each `?`. -/
def assign : List String → List SqlValue → List (String × List SqlValue)
  | [], _ => []
  | c :: rest, values => (c, values.take (marks c)) :: assign rest (values.drop (marks c))

/-- How the database reads a clause with values for its `?`, and orders rows by
`created_at DESC`. -/
structure Engine (ρ : Type) where
  meaning : String → List SqlValue → ρ → Bool
  order : List ρ → List ρ

namespace Engine

variable {ρ : Type} (E : Engine ρ)

def selects (clauses : List String) (values : List SqlValue) (r : ρ) : Bool :=
  (assign clauses values).all fun c => E.meaning c.1 c.2 r

-- `SELECT COUNT(*) … WHERE …`
def count (clauses : List String) (values : List SqlValue) (rows : List ρ) : Nat :=
  (rows.filter (E.selects clauses values)).length

/-- `SELECT … WHERE … ORDER BY … LIMIT ? OFFSET ?`: the last two values belong to the page. -/
def page (clauses : List String) (values : List SqlValue) (rows : List ρ) : List ρ :=
  match values.drop ((clauses.map marks).sum) with
  | [.int limit, .int offset] =>
    ((E.order (rows.filter (E.selects clauses values))).drop offset.toNat).take limit.toNat
  | _ => []

def satisfies (clauses : List Clause) (r : ρ) : Bool :=
  clauses.all fun c => E.meaning c.sql c.values r

end Engine

/-- In the count query and in the page query each `?` has the value that belongs to its clause, and
in every database `total` and the items are those of the rows that satisfy all filters. -/
structure Answers (clauses : List Clause) (values : List SqlValue) (limit offset : Int) : Prop where
  number : values.length = ((clauses.map Clause.sql).map marks).sum
  inOrder : assign (clauses.map Clause.sql) values =
    clauses.map fun c => (c.sql, c.values)
  total : ∀ (ρ : Type) (E : Engine ρ) (rows : List ρ),
    E.count (clauses.map Clause.sql) values rows = (rows.filter (E.satisfies clauses)).length
  items : ∀ (ρ : Type) (E : Engine ρ) (rows : List ρ),
    E.page (clauses.map Clause.sql) (values ++ [.int limit, .int offset]) rows =
      ((E.order (rows.filter (E.satisfies clauses))).drop offset.toNat).take limit.toNat

/-- Each clause has as many values as it has `?`. -/
def Fits (clauses : List Clause) : Prop := ∀ c ∈ clauses, c.values.length = marks c.sql

section Answers

variable {clauses : List Clause} {values : List SqlValue}

theorem Fits.length (h : Fits clauses) :
    (clauses.flatMap Clause.values).length = ((clauses.map Clause.sql).map marks).sum := by
  induction clauses with
  | nil => rfl
  | cons c rest ih =>
    obtain ⟨hc, hrest⟩ := List.forall_mem_cons.mp h
    rw [List.flatMap_cons, List.length_append, hc, ih hrest]
    rfl

theorem assign_flatMap (h : Fits clauses) (more : List SqlValue) :
    assign (clauses.map Clause.sql) (clauses.flatMap Clause.values ++ more) =
      clauses.map fun c => (c.sql, c.values) := by
  induction clauses with
  | nil => rfl
  | cons c rest ih =>
    obtain ⟨hc, hrest⟩ := List.forall_mem_cons.mp h
    rw [List.map_cons, assign, List.flatMap_cons, List.append_assoc, ← hc, List.take_left,
      List.drop_left, ih hrest, List.map_cons]

theorem flatMap_assign (sqls : List String) (values : List SqlValue) :
    (assign sqls values).flatMap Prod.snd = values.take ((sqls.map marks).sum) := by
  induction sqls generalizing values with
  | nil => simp [assign]
  | cons c rest ih =>
    rw [assign, List.flatMap_cons, ih, List.map_cons, List.sum_cons, List.take_add]

/-- The queries are right if and only if the values come in the order of the clauses. -/
theorem answers_iff (h : Fits clauses) (limit offset : Int) :
    Answers clauses values limit offset ↔ values = clauses.flatMap Clause.values := by
  constructor
  · intro hanswers
    have hvalues := flatMap_assign (clauses.map Clause.sql) values
    rw [hanswers.inOrder, ← hanswers.number, List.take_length, List.flatMap_map] at hvalues
    exact hvalues.symm
  · rintro rfl
    have hselects : ∀ (ρ : Type) (E : Engine ρ) more,
        E.selects (clauses.map Clause.sql) (clauses.flatMap Clause.values ++ more) =
          E.satisfies clauses := by
      intro ρ E more
      funext r
      rw [Engine.selects, assign_flatMap h, List.all_map, Engine.satisfies]
      rfl
    refine ⟨h.length, ?_, fun ρ E rows => ?_, fun ρ E rows => ?_⟩
    · rw [← List.append_nil (clauses.flatMap Clause.values), assign_flatMap h]
    · rw [Engine.count, ← List.append_nil (clauses.flatMap Clause.values), hselects]
    · rw [Engine.page, ← h.length, List.drop_left, hselects]

theorem Fits.append {more : List Clause} (h : Fits clauses) (h' : Fits more) :
    Fits (clauses ++ more) := by
  intro c hc
  rcases List.mem_append.mp hc with hc | hc
  · exact h c hc
  · exact h' c hc

variable {α : Type}

theorem fits_given (x : Option α) {sql : String} {values : α → List SqlValue}
    (h : ∀ a, (values a).length = marks sql) : Fits (given x sql values) := by
  intro c hc
  cases x with
  | none => cases hc
  | some a =>
    rw [List.mem_singleton.mp hc]
    exact h a

theorem flatMap_given (x : Option α) (sql : String) (values : α → List SqlValue) :
    (given x sql values).flatMap Clause.values = bound x values := by
  cases x <;> simp [given, bound]

end Answers

-- ---
-- Values out of order
-- ---

variable {α : Type}

theorem replicate_append_comm_iff {n : Nat} (hn : n ≠ 0) (a : α) (l : List α) :
    List.replicate n a ++ l = l ++ List.replicate n a ↔ ∀ x ∈ l, x = a := by
  obtain ⟨n, rfl⟩ := Nat.exists_eq_succ_of_ne_zero hn
  induction l with
  | nil => simp
  | cons x rest ih =>
    have hshift : List.replicate (n + 1) a ++ x :: rest =
        a :: (List.replicate n a ++ x :: rest) := rfl
    rw [hshift, List.cons_append, List.cons.injEq, List.forall_mem_cons, ← ih]
    refine ⟨fun ⟨hax, hrest⟩ => ⟨hax.symm, ?_⟩, fun ⟨hxa, hrest⟩ => ⟨hxa.symm, ?_⟩⟩
    · rw [← hrest, ← hax, List.replicate_succ', List.append_assoc, List.singleton_append]
    · rw [← hrest, hxa, List.replicate_succ', List.append_assoc, List.singleton_append]

theorem fits_workflow (dateText : Int → String) (f : WorkflowFilter) :
    Fits (f.clauses dateText) := by
  have hfirst : Fits f.first :=
    ((fits_given _ fun _ => rfl).append (fits_given _ fun _ => rfl)).append
      (fits_given _ fun _ => rfl)
  have hsearched : Fits f.searched := fits_given _ fun _ => rfl
  have hlast : Fits (f.last dateText) := by
    iterate 8 refine Fits.append ?_ (fits_given _ fun _ => by show 1 = _; decide +kernel)
    exact fits_given _ fun _ => by show 1 = _; decide +kernel
  exact (hfirst.append hsearched).append hlast

theorem marks_append (a b : String) : marks (a ++ b) = marks a + marks b := by
  rw [marks, String.toList_append, List.count_append]
  rfl

theorem fits_tagClause (f : PluginFilter) : Fits f.tagClause := by
  have hmarks : ∀ tags : List Int,
      marks (",".intercalate (tags.map fun _ => "?")) = tags.length := by
    intro tags
    induction tags with
    | nil => rfl
    | cons tag rest ih =>
      cases rest with
      | nil =>
        rw [List.map_cons, List.map_nil, String.intercalate_singleton]
        rfl
      | cons tag' rest =>
        rw [List.map_cons] at ih
        rw [List.map_cons, List.map_cons, String.intercalate_cons_cons, marks_append,
          marks_append, ih, List.length_cons]
        have hquestion : marks "?" = 1 := rfl
        have hcomma : marks "," = 0 := rfl
        rw [hquestion, hcomma, List.length_cons, List.length_cons]
        omega
  unfold PluginFilter.tagClause
  split
  · nofun
  · intro c hc
    rw [List.mem_singleton.mp hc]
    have hfront : marks
        "p.id IN (SELECT entity_id FROM taggings WHERE entity_type='plugin' AND tag_id IN (" = 0 := by
      decide +kernel
    have hback : marks "))" = 0 := rfl
    show (f.tagIds.map SqlValue.int).length = marks (_ ++ _ ++ _)
    rw [marks_append, marks_append, List.length_map, hmarks, hfront, hback]
    omega

theorem fits_plugin (f : PluginFilter) : Fits f.clauses := by
  have hdeleted : Fits [⟨if f.deletedOnly then "p.deleted_at IS NOT NULL"
      else "p.deleted_at IS NULL", []⟩] := by
    intro c hc
    rw [List.mem_singleton.mp hc]
    cases f.deletedOnly <;> rfl
  have hwhere : Fits f.whereClauses := by
    refine Fits.append ?_ (fits_tagClause f)
    iterate 7 refine Fits.append ?_ (fits_given _ fun _ => rfl)
    exact hdeleted
  have hlike : Fits f.likeClauses := by
    iterate 5 refine Fits.append ?_ (fits_given _ fun _ => rfl)
    exact fits_given _ fun _ => rfl
  exact hwhere.append hlike

-- a number has no percent sign
theorem toString_ne_like (i : Int) (s : String) : toString i ≠ "%" ++ s ++ "%" := by
  intro h
  have hdigit : ∀ n : Nat, '%' ∉ (toString n).toList := by
    intro n hc
    rw [Nat.toString_eq_ofList_toDigits, String.toList_ofList] at hc
    have := Nat.isDigit_of_mem_toDigits (b := 10) (by decide) (by decide) hc
    revert this
    decide
  have hmem : '%' ∈ (toString i).toList := by
    rw [h]
    simp
  cases i with
  | ofNat n => exact hdigit n hmem
  | negSucc n =>
    have hneg : toString (Int.negSucc n) = "-" ++ toString (n + 1) := rfl
    rw [hneg, String.toList_append, List.mem_append] at hmem
    rcases hmem with hmem | hmem
    · revert hmem
      decide
    · exact hdigit _ hmem

theorem like_inj {s t : String} : "%" ++ s ++ "%" = "%" ++ t ++ "%" ↔ s = t := by
  refine ⟨fun h => ?_, fun h => h ▸ rfl⟩
  have hlist := congrArg String.toList h
  simp only [String.toList_append] at hlist
  exact String.ext (List.append_cancel_left (List.append_cancel_right hlist))

-- ---
-- Which filters are answered
-- ---

/-- The pattern of a search may be bound in front of the other values: they stand behind its
clause, or are the same. -/
def WorkflowFilter.Aligned (f : WorkflowFilter) : Prop :=
  ∀ s, f.search = some s →
    f.id = none ∧ (∀ x, f.identifier = some x → x = s) ∧ ∀ x, f.name = some x → x = s

theorem workflow_bound_iff (dateText : Int → String) (f : WorkflowFilter) :
    f.bound dateText = (f.clauses dateText).flatMap Clause.values ↔ f.Aligned := by
  have hfirst : f.first.flatMap Clause.values =
      bound f.id shown ++ bound f.identifier like ++ bound f.name like := by
    rw [WorkflowFilter.first, List.flatMap_append, List.flatMap_append, flatMap_given,
      flatMap_given, flatMap_given]
  have hmove : f.bound dateText = (f.clauses dateText).flatMap Clause.values ↔
      f.searched.flatMap Clause.values ++ f.first.flatMap Clause.values =
        f.first.flatMap Clause.values ++ f.searched.flatMap Clause.values := by
    rw [WorkflowFilter.bound, WorkflowFilter.clauses]
    simp only [List.flatMap_append]
    rw [← List.append_assoc, List.append_cancel_right_eq]
  rw [hmove, WorkflowFilter.Aligned]
  cases hsearch : f.search with
  | none => simp [WorkflowFilter.searched, hsearch, given]
  | some s =>
    have hcopies : f.searched.flatMap Clause.values =
        List.replicate 4 (SqlValue.text ("%" ++ s ++ "%")) := by
      rw [WorkflowFilter.searched, flatMap_given, hsearch]
      rfl
    rw [hcopies, replicate_append_comm_iff (by decide), hfirst]
    have hlike : ∀ x : Option String, (∀ v ∈ bound x like, v = .text ("%" ++ s ++ "%")) ↔
        ∀ y, x = some y → y = s := by
      intro x
      cases x with
      | none => simp [bound]
      | some y =>
        simp only [bound, like, List.forall_mem_singleton, SqlValue.text.injEq, like_inj,
          Option.some.injEq, forall_eq']
    have hid : (∀ v ∈ bound f.id shown, v = .text ("%" ++ s ++ "%")) ↔ f.id = none := by
      cases f.id with
      | none => simp [bound]
      | some i =>
        simp only [bound, shown, List.forall_mem_singleton, SqlValue.text.injEq, reduceCtorEq,
          toString_ne_like]
    simp only [List.forall_mem_append, hid, hlike, Option.some.injEq, forall_eq', and_assoc]

namespace PluginFilter

def firstLikes (f : PluginFilter) : List SqlValue :=
  Store.bound f.identifier like ++ Store.bound f.name like ++ Store.bound f.description like

def equalities (f : PluginFilter) : List SqlValue :=
  Store.bound f.runtime plain ++ Store.bound f.version plain

def moreLikes (f : PluginFilter) : List SqlValue :=
  Store.bound f.author like ++ Store.bound f.repositoryUrl like

def dates (f : PluginFilter) : List SqlValue :=
  Store.bound f.createdAtStart plain ++ Store.bound f.createdAtEnd plain ++
    Store.bound f.updatedAtStart plain ++ Store.bound f.updatedAtEnd plain

/-- Tags come without any filter with `LIKE`, and the other values are the same in the order of
the fields and in that of the clauses. -/
def Aligned (f : PluginFilter) : Prop :=
  (f.tagIds ≠ [] → f.firstLikes = [] ∧ f.moreLikes = [] ∧ f.search = none) ∧
    f.firstLikes ++ f.equalities ++ f.moreLikes ++ f.dates =
      f.equalities ++ f.dates ++ f.firstLikes ++ f.moreLikes

instance (f : PluginFilter) : Decidable f.Aligned := by
  unfold Aligned
  infer_instance

end PluginFilter

-- a value that is a text
def SqlValue.isText : SqlValue → Bool
  | .text _ => true
  | .int _ => false

theorem isText_bound (x : Option α) {values : α → List SqlValue}
    (h : ∀ a, (values a).all SqlValue.isText) : (bound x values).all SqlValue.isText := by
  cases x with
  | none => rfl
  | some a => exact h a

theorem plugin_bound_iff (f : PluginFilter) :
    f.bound = f.clauses.flatMap Clause.values ↔ f.Aligned := by
  have htags : f.tagClause.flatMap Clause.values = f.tagValues := by
    unfold PluginFilter.tagClause
    split
    · next hnone => simp [PluginFilter.tagValues, hnone]
    · simp
  -- the values in the order of the clauses
  have hclauses : f.clauses.flatMap Clause.values =
      bound f.categoryId (fun i => [.int i]) ++
        (f.equalities ++ f.dates ++ f.tagValues ++ f.firstLikes ++ f.moreLikes ++
          bound f.search PluginFilter.searchValues) := by
    simp only [PluginFilter.clauses, PluginFilter.whereClauses, PluginFilter.likeClauses,
      List.flatMap_append, flatMap_given, htags, PluginFilter.equalities, PluginFilter.dates,
      PluginFilter.firstLikes, PluginFilter.moreLikes, List.append_assoc]
    rfl
  -- and in the order in which they are bound
  have hbound : f.bound = bound f.categoryId (fun i => [.int i]) ++
      (f.firstLikes ++ f.equalities ++ f.moreLikes ++ f.dates ++
        bound f.search PluginFilter.searchValues ++ f.tagValues) := by
    simp only [PluginFilter.bound, PluginFilter.equalities, PluginFilter.dates,
      PluginFilter.firstLikes, PluginFilter.moreLikes, List.append_assoc]
  rw [hclauses, hbound, List.append_cancel_left_eq, PluginFilter.Aligned]
  cases htag : f.tagIds with
  | nil =>
    have hnone : f.tagValues = [] := by simp [PluginFilter.tagValues, htag]
    rw [hnone, List.append_nil, List.append_nil, List.append_cancel_right_eq]
    simp
  | cons tag rest =>
    have hlikes : ∀ x : Option String, (bound x like).all SqlValue.isText := fun x =>
      isText_bound x fun _ => rfl
    have hplains : ∀ x : Option String, (bound x plain).all SqlValue.isText := fun x =>
      isText_bound x fun _ => rfl
    have hsearch : (bound f.search PluginFilter.searchValues).all SqlValue.isText :=
      isText_bound f.search fun _ => rfl
    have htext : ∀ l : List SqlValue, l.all SqlValue.isText → ∀ more,
        (l ++ f.tagValues ++ more).takeWhile SqlValue.isText = l := by
      intro l hl more
      rw [List.append_assoc, List.takeWhile_append_of_pos (List.all_eq_true.mp hl),
        PluginFilter.tagValues, htag, List.map_cons, List.cons_append,
        List.takeWhile_cons_of_neg (by simp [SqlValue.isText]), List.append_nil]
    constructor
    · intro h
      -- the tags are the only numbers
      have hfront : f.firstLikes ++ f.equalities ++ f.moreLikes ++ f.dates ++
          bound f.search PluginFilter.searchValues = f.equalities ++ f.dates := by
        have hX := htext (f.firstLikes ++ f.equalities ++ f.moreLikes ++ f.dates ++
          bound f.search PluginFilter.searchValues)
          (by simp only [PluginFilter.firstLikes, PluginFilter.equalities, PluginFilter.moreLikes,
            PluginFilter.dates, List.all_append, hlikes, hplains, hsearch, Bool.and_self]) []
        have hY := htext (f.equalities ++ f.dates)
          (by simp only [PluginFilter.equalities, PluginFilter.dates, List.all_append, hplains,
            Bool.and_self])
          (f.firstLikes ++ f.moreLikes ++ bound f.search PluginFilter.searchValues)
        rw [List.append_nil, h] at hX
        refine hX.symm.trans (Eq.trans ?_ hY)
        simp only [List.append_assoc]
      have hlength := congrArg List.length hfront
      simp only [List.length_append] at hlength
      have hfirst : f.firstLikes = [] := List.eq_nil_of_length_eq_zero (by omega)
      have hmore : f.moreLikes = [] := List.eq_nil_of_length_eq_zero (by omega)
      have hnone : f.search = none := by
        cases hs : f.search with
        | none => rfl
        | some s =>
          have hthree : (bound f.search PluginFilter.searchValues).length = 3 := by
            rw [hs]
            rfl
          omega
      refine ⟨fun _ => ⟨hfirst, hmore, hnone⟩, ?_⟩
      rw [hfirst, hmore]
      simp
    · rintro ⟨hnone, -⟩
      obtain ⟨hfirst, hmore, hsearch⟩ := hnone nofun
      rw [hfirst, hmore, hsearch]
      simp [bound]

/-- The lists of workflows and of plugins answer every filter that is aligned, and no other. -/
theorem list_answers_iff (dateText : Int → String) (f : WorkflowFilter) (g : PluginFilter)
    (limit offset : Int) :
    (Answers (f.clauses dateText) (f.bound dateText) limit offset ↔ f.Aligned) ∧
      (Answers g.clauses g.bound limit offset ↔ g.Aligned) := by
  constructor
  · rw [answers_iff (fits_workflow dateText f), workflow_bound_iff]
  · rw [answers_iff (fits_plugin g), plugin_bound_iff]

theorem list_answers_search :
    Answers (WorkflowFilter.clauses toString { search := some "mail", tagId := some 3 })
        (WorkflowFilter.bound toString { search := some "mail", tagId := some 3 }) 20 0 ∧
      Answers (PluginFilter.clauses { categoryId := some 2, name := some "mail" })
        (PluginFilter.bound { categoryId := some 2, name := some "mail" }) 20 0 := by
  have hiff := list_answers_iff toString { search := some "mail", tagId := some 3 }
    { categoryId := some 2, name := some "mail" } 20 0
  refine ⟨hiff.1.mpr ?_, hiff.2.mpr (by decide)⟩
  rintro s -
  exact ⟨rfl, nofun, nofun⟩

/-- A name and a search; tags and a search. -/
theorem list_not_answered :
    ¬Answers (WorkflowFilter.clauses toString { name := some "a", search := some "b" })
        (WorkflowFilter.bound toString { name := some "a", search := some "b" }) 20 0 ∧
      ¬Answers (PluginFilter.clauses { tagIds := [1], search := some "b" })
        (PluginFilter.bound { tagIds := [1], search := some "b" }) 20 0 := by
  constructor
  · rw [answers_iff (fits_workflow _ _)]
    decide +kernel
  · rw [answers_iff (fits_plugin _)]
    decide +kernel

end HiveClaw.Store
