import HiveClaw.Lib.Templates
import HiveClaw.Serde
import HiveClaw.Workflow.Nodes
import Mathlib.Data.List.TakeWhile

/-!
# Templates of answers and of the builtin

`resolve_template_vars` of `generate_answer_node.rs` and the builtin
`format_template` replace the placeholders of one variable after the other, each
in the text that the one before has left; the first drops at the end what still
looks like a placeholder. So a value that looks like one, alone or with what
stands beside it, is filled in or dropped again, and the order of the variables
shows in the result.

* `substituted_iff` — when both texts are the template with all placeholders
  substituted at once.
-/

namespace HiveClaw.Workflow

open HiveClaw.Runtime Lib.Scanner Lib.Templates

-- ---
-- The builtin
-- ---

-- `BuiltinError`
inductive BuiltinError where
  | badArgs (message : String)
  | exec (message : String)
deriving DecidableEq

/-- `FormatTemplateArgs`: the template, and the variables if they are given. -/
def formatTemplateArgs : Json → Option (String × JsonMap)
  | .obj fields => do
    let template ← Serde.required Json.asStr fields "template"
    let vars ← Serde.defaulted Json.asObject [] fields "vars"
    return (template, vars)
  | .arr [.str template] => some (template, [])
  | .arr [.str template, .obj vars] => some (template, vars)
  | _ => none

-- what takes the place of a placeholder
def replacement (env : Env) : Json → String
  | .str s => s
  | other => env.toText other

/-- `format_template`; `badArgs` is what `serde_json` says of arguments that it does not read. -/
def formatTemplate (env : Env) (badArgs : Json → String) (args : Json) :
    Except BuiltinError Json :=
  match formatTemplateArgs args with
  | none => .error (.badArgs (badArgs args))
  | some (template, vars) =>
    .ok (.str (vars.foldl (fun out field =>
      RustStr.replace out (String.ofList ('{' :: field.1.toList ++ ['}']))
        (replacement env field.2)) template))

-- ---
-- The texts as characters
-- ---

def varName (field : String × Json) : List Char := field.1.toList

def varValue (env : Env) (field : String × Json) : List Char := (replacement env field.2).toList

-- `str::replace` on characters
def replaceIn (pattern value text : List Char) : List Char :=
  RustStr.replaceChars pattern value text.length text

/-- The template with the placeholders of its variables replaced one after the other. -/
def filled (env : Env) (vars : List (String × Json)) (template : List Char) : List Char :=
  Lib.Templates.fill '{' '}' varName (varValue env) replaceIn vars template

theorem toList_foldl_replace (env : Env) (vars : List (String × Json)) (template : String) :
    (vars.foldl (fun out field =>
      RustStr.replace out (String.ofList ('{' :: field.1.toList ++ ['}']))
        (replacement env field.2)) template).toList = filled env vars template.toList := by
  induction vars generalizing template with
  | nil => rfl
  | cons field rest ih =>
    rw [List.foldl_cons, ih, filled, filled, Lib.Templates.fill, Lib.Templates.fill, List.foldl_cons]
    congr 1
    rw [RustStr.replace, String.toList_ofList, String.toList_ofList, ← String.length_toList]
    rfl

theorem formatTemplate_obj (env : Env) (badArgs : Json → String) (template : String)
    (vars : List (String × Json)) :
    formatTemplate env badArgs (.obj [("template", .str template), ("vars", .obj vars)]) =
      .ok (.str (String.ofList (filled env vars template.toList))) := by
  rw [← toList_foldl_replace, String.ofList_toList]
  rfl

theorem resolveTemplateVars_obj (env : Env) (template : String) (vars : List (String × Json)) :
    resolveTemplateVars env template (.obj vars) =
      String.ofList (dropPlaceholders (filled env vars template.toList).length
        (filled env vars template.toList)) := by
  rw [← toList_foldl_replace, String.length_toList]
  simp only [resolveTemplateVars, Json.asObject, Option.getD_some]
  have hstep : ∀ (result : String) (field : String × Json),
      RustStr.replace result (String.ofList ('{' :: field.1.toList ++ ['}']))
          (match field.2 with | .str s => s | other => env.toText other) =
        RustStr.replace result (String.ofList ('{' :: field.1.toList ++ ['}']))
          (replacement env field.2) := by
    rintro result ⟨key, v⟩
    cases v <;> rfl
  have hfold := congrArg (fun f => vars.foldl f template) (funext fun r => funext (hstep r))
  exact congrArg (fun text : String => String.ofList (dropPlaceholders text.length text.toList))
    hfold

-- ---
-- The last pass
-- ---

variable {t : List Char}

theorem afterPlaceholder_eq_some {text : List Char} (h : afterPlaceholder text = some t) :
    ∃ rest, text = '{' :: rest ∧
      ((rest.dropWhile RustStr.isWhitespace).takeWhile isWordChar).isEmpty = false ∧
      ((rest.dropWhile RustStr.isWhitespace).dropWhile isWordChar).dropWhile RustStr.isWhitespace =
        '}' :: t := by
  unfold afterPlaceholder at h
  split at h
  · next rest =>
    dsimp only at h
    split at h
    · cases h
    · next hword =>
      split at h
      · next after hrest =>
        cases h
        exact ⟨rest, rfl, by simpa using hword, hrest⟩
      · cases h
  · cases h

theorem afterPlaceholder_match {text t : List Char} (h : afterPlaceholder text = some t) :
    ∃ x, text = '{' :: x ++ t ∧ '{' ∉ x := by
  obtain ⟨rest, rfl, -, hrest⟩ := afterPlaceholder_eq_some h
  have hskip : ∀ (p : Char → Bool) (l : List Char), p '{' = false → '{' ∉ l.takeWhile p := by
    intro p l hp hmem
    rw [List.mem_takeWhile_imp hmem] at hp
    cases hp
  refine ⟨rest.takeWhile RustStr.isWhitespace ++
    ((rest.dropWhile RustStr.isWhitespace).takeWhile isWordChar ++
      (((rest.dropWhile RustStr.isWhitespace).dropWhile isWordChar).takeWhile
        RustStr.isWhitespace ++ ['}'])), ?_, ?_⟩
  · simp only [List.cons_append, List.append_assoc, List.nil_append]
    rw [← hrest, List.takeWhile_append_dropWhile, List.takeWhile_append_dropWhile,
      List.takeWhile_append_dropWhile]
  · simp only [List.mem_append, not_or]
    exact ⟨hskip _ _ (by decide), hskip _ _ (by decide), hskip _ _ (by decide), by decide⟩

-- what is left after skipping is followed by the rest of the text
theorem dropWhile_append_ne_nil {p : Char → Bool} {l : List Char} (h : l.dropWhile p ≠ [])
    (r : List Char) : (l ++ r).dropWhile p = l.dropWhile p ++ r := by
  rw [List.dropWhile_append, if_neg (by simpa using h)]

theorem afterPlaceholder_append {text : List Char} (h : afterPlaceholder text = some t)
    (r : List Char) : afterPlaceholder (text ++ r) = some (t ++ r) := by
  obtain ⟨rest, rfl, hword, hrest⟩ := afterPlaceholder_eq_some h
  have hspace : rest.dropWhile RustStr.isWhitespace ≠ [] := by
    intro hnil
    rw [hnil] at hword
    cases hword
  have hname : (rest.dropWhile RustStr.isWhitespace).dropWhile isWordChar ≠ [] := by
    intro hnil
    rw [hnil] at hrest
    cases hrest
  have hclose : ((rest.dropWhile RustStr.isWhitespace).dropWhile isWordChar).dropWhile
      RustStr.isWhitespace ≠ [] := by
    rw [hrest]
    exact List.cons_ne_nil _ _
  obtain ⟨c, word, hc⟩ := List.exists_cons_of_ne_nil hspace
  have htake : (((rest.dropWhile RustStr.isWhitespace) ++ r).takeWhile isWordChar).isEmpty =
      false := by
    rw [hc] at hword ⊢
    rw [List.cons_append, List.takeWhile_cons]
    rw [List.takeWhile_cons] at hword
    split at hword
    · next hchar => rw [if_pos hchar]; rfl
    · cases hword
  simp only [List.cons_append, afterPlaceholder]
  rw [dropWhile_append_ne_nil hspace, htake, dropWhile_append_ne_nil hname,
    dropWhile_append_ne_nil hclose, hrest]
  rfl

-- more fuel than characters changes nothing
theorem dropPlaceholders_fuel {n : Nat} {text : List Char} (hn : text.length ≤ n) :
    dropPlaceholders n text = dropPlaceholders text.length text := by
  induction n using Nat.strong_induction_on generalizing text with
  | _ n ih =>
    cases text with
    | nil => cases n <;> rfl
    | cons c rest =>
      obtain ⟨n, rfl⟩ : ∃ k, n = k + 1 := ⟨n - 1, by simp at hn; omega⟩
      rw [List.length_cons] at hn ⊢
      rw [dropPlaceholders, dropPlaceholders]
      split
      · next after hafter =>
        obtain ⟨x, hx, -⟩ := afterPlaceholder_match hafter
        have hlen : after.length ≤ rest.length := by
          have := congrArg List.length hx
          simp at this
          omega
        rw [ih n (by omega) (by omega), ih rest.length (by omega) hlen]
      · rw [ih n (by omega) (by omega)]

/-- The last pass is a scanner. -/
theorem scans_dropPlaceholders :
    Scans afterPlaceholder [] (fun text => dropPlaceholders text.length text) where
  nil := rfl
  skip c rest h := by
    simp only [List.length_cons, dropPlaceholders]
    rw [h]
  hit c rest t h := by
    obtain ⟨x, hx, -⟩ := afterPlaceholder_match h
    have hlen : t.length ≤ rest.length := by
      have := congrArg List.length hx
      simp at this
      omega
    simp only [List.length_cons, dropPlaceholders]
    rw [h, List.nil_append]
    exact dropPlaceholders_fuel hlen

-- ---
-- Substitution at once
-- ---

/-- A name that the last pass drops with its braces. -/
def droppedName (n : List Char) : Bool := afterPlaceholder (quote '{' '}' n) = some []

/-- The placeholders of the template, each replaced by its variable's value. -/
def simultaneous (env : Env) (vars : List (String × Json)) (template : String) : String :=
  String.ofList
    (substitute '{' '}' (assigned varName (varValue env) vars) (pieces '{' '}' template.toList))

/-- The same, where placeholders without variable are dropped. -/
def simultaneousDropped (env : Env) (vars : List (String × Json)) (template : String) : String :=
  String.ofList
    (substitute '{' '}'
      (fun n => (assigned varName (varValue env) vars n).or
        (if droppedName n then some [] else none))
      (pieces '{' '}' template.toList))

-- a value is copied; a name without variable is dropped
example :
    simultaneousDropped Env.plain [("a", .str "\x7bb\x7d"), ("b", .str "x")]
      "\x7ba\x7d, \x7bb\x7d, \x7b c \x7d!" = "\x7bb\x7d, x, !" := by
  decide +kernel

/-- For any of the variables, in any order, both functions substitute the placeholders of the
template at once, and another order gives the same. -/
def Substituted (env : Env) (badArgs : Json → String) (template : String)
    (vars : List (String × Json)) : Prop :=
  ∀ part, Part varName vars part →
    formatTemplate env badArgs (.obj [("template", .str template), ("vars", .obj part)]) =
        .ok (.str (simultaneous env part template)) ∧
      resolveTemplateVars env template (.obj part) = simultaneousDropped env part template ∧
      ∀ part', part.Perm part' →
        formatTemplate env badArgs (.obj [("template", .str template), ("vars", .obj part')]) =
            .ok (.str (simultaneous env part template)) ∧
          resolveTemplateVars env template (.obj part') = simultaneousDropped env part template

/-- With any of the variables filled, the placeholder of each other one stands at its places in the
template alone, or is its own value, and nothing but placeholders of the template is dropped. -/
def Unmixed (env : Env) (template : String) (vars : List (String × Json)) : Prop :=
  ∀ part, Part varName vars part →
    (∀ field ∈ vars, varName field ∉ part.map varName →
      varValue env field = quote '{' '}' (varName field) ∨
        Apart '{' '}' varName (varValue env) part field template.toList) ∧
      Exact afterPlaceholder
        (marked '{' '}' (assigned varName (varValue env) part) droppedName
          (pieces '{' '}' template.toList))

theorem scans_replaceIn (n v : List Char) :
    Scans (strip (quote '{' '}' n)) v (replaceIn (quote '{' '}' n) v) :=
  RustStr.scans_replaceChars (List.cons_ne_nil _ _) v

/-- The last pass drops the placeholders of the template alone, if and only if it finds no
others. -/
theorem drop_substitute_iff (value : List Char → Option (List Char)) (template : List Char) :
    dropPlaceholders (substitute '{' '}' value (pieces '{' '}' template)).length
        (substitute '{' '}' value (pieces '{' '}' template)) =
        substitute '{' '}' (fun n => (value n).or (if droppedName n then some [] else none))
          (pieces '{' '}' template) ↔
      Exact afterPlaceholder (marked '{' '}' value droppedName (pieces '{' '}' template)) := by
  have htext : render (marked '{' '}' value droppedName (pieces '{' '}' template)) =
      substitute '{' '}' value (pieces '{' '}' template) := render_marked
  rw [← output_marked, ← htext]
  refine Scans.drop_eq_iff (o := '{') scans_dropPlaceholders (fun text t h => ?_) fun y hy => ?_
  · obtain ⟨x, htext, hx⟩ := afterPlaceholder_match h
    exact ⟨x, htext, fun _ => hx⟩
  · obtain ⟨n, -, hn, rfl⟩ := hit_marked hy
    exact ⟨⟨_, rfl⟩, fun r => afterPlaceholder_append (of_decide_eq_true hn) r⟩

/-- Both functions substitute at once, whatever part of the variables there is and in whatever
order, if and only if values and placeholders do not mix. -/
theorem substituted_iff (env : Env) (badArgs : Json → String) (template : String)
    (vars : List (String × Json)) :
    Substituted env badArgs template vars ↔ Unmixed env template vars := by
  have hfill := @fill_eq_iff Char '{' '}' _ _ varName (varValue env) replaceIn (by decide)
    scans_replaceIn vars template.toList
  have hformat : ∀ part part', formatTemplate env badArgs
      (.obj [("template", .str template), ("vars", .obj part')]) =
        .ok (.str (simultaneous env part template)) ↔
      filled env part' template.toList = substitute '{' '}'
        (assigned varName (varValue env) part) (pieces '{' '}' template.toList) := by
    intro part part'
    rw [formatTemplate_obj, simultaneous, Except.ok.injEq, Json.str.injEq, String.ofList_inj]
  constructor
  · intro h part hpart
    have hfilled := fun part hpart => (hformat part part).mp (h part hpart).1
    refine ⟨hfill.mp hfilled part hpart, (drop_substitute_iff _ _).mp ?_⟩
    have hdropped := (h part hpart).2.1
    rwa [resolveTemplateVars_obj, simultaneousDropped, String.ofList_inj,
      hfilled part hpart] at hdropped
  · intro h part hpart
    have hfilled := hfill.mpr fun part hpart => (h part hpart).1
    have heach : ∀ part', part.Perm part' →
        formatTemplate env badArgs (.obj [("template", .str template), ("vars", .obj part')]) =
            .ok (.str (simultaneous env part template)) ∧
          resolveTemplateVars env template (.obj part') = simultaneousDropped env part template := by
      intro part' hperm
      have hpart' : Part varName vars part' :=
        ⟨(hperm.map varName).nodup_iff.mp hpart.1, fun f hf => hpart.2 (hperm.symm.subset hf)⟩
      have hsame : assigned varName (varValue env) part = assigned varName (varValue env) part' :=
        assigned_perm hpart.1 hperm
      have htext : filled env part' template.toList = _ := hsame ▸ hfilled part' hpart'
      refine ⟨(hformat part part').mpr htext, ?_⟩
      rw [resolveTemplateVars_obj, simultaneousDropped, String.ofList_inj, htext]
      exact (drop_substitute_iff _ _).mpr (h part hpart).2
    exact ⟨(heach part (List.Perm.refl part)).1, (heach part (List.Perm.refl part)).2, heach⟩

/-- A value that is a placeholder is filled in again, unless its variable came before. -/
theorem not_substituted_nested :
    formatTemplate Env.plain (fun _ => "") (.obj [("template", .str "\x7ba\x7d"),
        ("vars", .obj [("a", .str "\x7bb\x7d"), ("b", .str "x")])]) = .ok (.str "x") ∧
      formatTemplate Env.plain (fun _ => "") (.obj [("template", .str "\x7ba\x7d"),
        ("vars", .obj [("b", .str "x"), ("a", .str "\x7bb\x7d")])]) = .ok (.str "\x7bb\x7d") ∧
      ¬Substituted Env.plain (fun _ => "") "\x7ba\x7d" [("a", .str "\x7bb\x7d"), ("b", .str "x")] := by
  refine ⟨by decide +kernel, by decide +kernel, fun h => ?_⟩
  have hresolved := (h [("a", .str "\x7bb\x7d"), ("b", .str "x")]
    ⟨by decide, List.Subset.refl _⟩).2.1
  exact absurd hresolved (by decide +kernel)

end HiveClaw.Workflow
