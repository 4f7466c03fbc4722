import HiveClaw.JsonEq
import HiveClaw.RustStd
import Mathlib.Algebra.Order.Field.Rat

/-!
# Validation of tool parameters

`validate_json_schema_value` of `crates/agent/src/tools/schema.rs`: the errors of
a value under a JSON schema. Beside it stands what the keywords of a schema mean
(`Satisfies`).

* `validate_eq_nil_iff` — for schemas that say a type everywhere, a value has no
  errors exactly if it satisfies the schema.
-/

namespace HiveClaw.Tools.Schema

-- ---
-- The validator
-- ---

/-- `serde_json::to_string`, and `Display` of a double. -/
structure Texts where
  toText : Json → String
  showF64 : Rat → String

/-- `n as f64`: to 53 bits, to the even neighbour in the middle. -/
def roundToF64 (n : Int) : Int :=
  if n.natAbs ≤ 2 ^ 53 then n
  else
    let unit := 2 ^ (Nat.log2 n.natAbs - 52)
    let low := n.natAbs / unit
    let rest := n.natAbs % unit
    let mantissa := if 2 * rest > unit ∨ 2 * rest = unit ∧ low % 2 = 1 then low + 1 else low
    n.sign * (mantissa * unit : Nat)

-- `Value::as_f64`
def asF64 : Json → Option Rat
  | .num (.int n) => some (roundToF64 n)
  | .num (.float m e) => some (m * (2 : Rat) ^ e)
  | _ => none

-- `resolve_json_schema_type`
def resolveJsonSchemaType : Json → Option String
  | .str s => some s
  | .arr items => items.findSome? fun v => v.asStr.filter fun s => s ≠ "null"
  | _ => none

-- `subpath`
def subpath (path key : String) : String := if path = "" then key else path ++ "." ++ key

/-- `schema_obj.get("type")`, or null. -/
def rawType (schema : Json) : Json := (schema.get "type").getD .null

-- `nullable_field`
def nullableField (schema : Json) : Bool :=
  (match rawType schema with
    | .arr items => items.any fun v => v.asStr = some "null"
    | _ => false) ||
    schema.get "nullable" = some (.bool true)

/-- Whether a value can be of a type; types that are not known hold every value. -/
def isOfType (t : String) (val : Json) : Bool :=
  match t, val with
  | "integer", .num (.int _) => true
  | "number", .num _ => true
  | "string", .str _ => true
  | "boolean", .bool _ => true
  | "array", .arr _ => true
  | "object", .obj _ => true
  | t, _ => t ∉ ["integer", "number", "string", "boolean", "array", "object"]

variable (texts : Texts)

/-- The errors for `enum`. -/
def enumErrors (schema val : Json) (label : String) : List String :=
  match (schema.get "enum").bind Json.asArray with
  | some en =>
    if en.any fun v => v.same val then [] else [label ++ " must be one of " ++ texts.toText (.arr en)]
  | none => []

-- `if let Some(b) = bound && fails(b) { errors.push(..) }`
def boundErrors {α : Type} (bound : Option α) (fails : α → Bool) (text : α → String) :
    List String :=
  match bound with
  | some b => if fails b then [text b] else []
  | none => []

/-- The errors for `minimum` and `maximum`. -/
def numberErrors (schema val : Json) (label : String) : List String :=
  match asF64 val with
  | some n =>
    boundErrors ((schema.get "minimum").bind asF64) (fun min => n < min)
        (fun min => label ++ " must be >= " ++ texts.showF64 min) ++
      boundErrors ((schema.get "maximum").bind asF64) (fun max => n > max)
        (fun max => label ++ " must be <= " ++ texts.showF64 max)
  | none => []

/-- The errors for the bounds of a count; the texts stand around the bound. -/
def countErrors (schema : Json) (minKey maxKey few many unit : String) (count : Nat)
    (label : String) : List String :=
  boundErrors ((schema.get minKey).bind Json.asU64) (fun min => count < min)
      (fun min => label ++ few ++ toString min ++ unit) ++
    boundErrors ((schema.get maxKey).bind Json.asU64) (fun max => count > max)
      (fun max => label ++ many ++ toString max ++ unit)

/-- The errors for `minLength` and `maxLength`. -/
def stringErrors (schema val : Json) (label : String) : List String :=
  match val with
  | .str s =>
    countErrors schema "minLength" "maxLength" " must be at least " " must be at most " " chars"
      s.length label
  | _ => []

/-- The errors for `required`. -/
def requiredErrors (schema val : Json) (path : String) : List String :=
  match val, (schema.get "required").bind Json.asArray with
  | .obj fields, some required =>
    required.filterMap fun k =>
      match k with
      | .str k =>
        if JsonMap.containsKey fields k then none else some ("missing required " ++ subpath path k)
      | _ => none
  | _, _ => []

/-- The errors for `minItems` and `maxItems`. -/
def arrayErrors (schema val : Json) (label : String) : List String :=
  match val with
  | .arr items =>
    countErrors schema "minItems" "maxItems" " must have at least " " must be at most " " items"
      items.length label
  | _ => []

/-- The errors of a value, where `nested` are those of its fields or items. -/
def errorsWith (schema val : Json) (path : String) (nested : List String) : List String :=
  if schema.asObject.isNone then []
  else if nullableField schema && val.isNull then []
  else
    let label := if path = "" then "parameter" else path
    let t := resolveJsonSchemaType (rawType schema)
    if t.any fun t => !isOfType t val then [label ++ " should be " ++ t.getD ""]
    else
      enumErrors texts schema val label ++
        match t with
        | some "integer" | some "number" => numberErrors texts schema val label
        | some "string" => stringErrors schema val label
        | some "object" => requiredErrors schema val path ++ nested
        | some "array" => arrayErrors schema val label ++ nested
        | _ => []

/-- `schema_obj.get("properties")`, or no properties. -/
def propertiesOf (schema : Json) : JsonMap := ((schema.get "properties").bind Json.asObject).getD []

/-- The path of an item; the index takes the place of each `\x7b\x7d`. -/
def itemPath (path : String) (i : Nat) : String :=
  let pattern := if path = "" then "[\x7b\x7d]" else path ++ "[\x7b\x7d]"
  RustStr.replace pattern "\x7b\x7d" (toString i)

mutual

-- `validate_json_schema_value`
def validate : (val schema : Json) → (path : String) → List String
  | .arr items, schema, path =>
    errorsWith texts schema (.arr items) path
      (match schema.get "items" with
        | some itemSchema => validateItems items itemSchema path 0
        | none => [])
  | .obj fields, schema, path =>
    errorsWith texts schema (.obj fields) path (validateFields fields (propertiesOf schema) path)
  | .null, schema, path => errorsWith texts schema .null path []
  | .bool b, schema, path => errorsWith texts schema (.bool b) path []
  | .num n, schema, path => errorsWith texts schema (.num n) path []
  | .str s, schema, path => errorsWith texts schema (.str s) path []

/-- The errors of the items from number `i` on. -/
def validateItems : (items : List Json) → (schema : Json) → (path : String) → (i : Nat) →
    List String
  | [], _, _, _ => []
  | item :: rest, schema, path, i =>
    validate item schema (itemPath path i) ++ validateItems rest schema path (i + 1)

/-- The errors of the fields that the schema knows. -/
def validateFields : (fields : List (String × Json)) → (props : JsonMap) → (path : String) →
    List String
  | [], _, _ => []
  | (k, v) :: rest, props, path =>
    (match JsonMap.get props k with
      | some subSchema => validate v subSchema (subpath path k)
      | none => []) ++ validateFields rest props path

end

-- ---
-- What a schema means
-- ---

inductive Kind where
  | integer
  | number
  | string
  | boolean
  | array
  | object
deriving DecidableEq

def Kind.name : Kind → String
  | .integer => "integer"
  | .number => "number"
  | .string => "string"
  | .boolean => "boolean"
  | .array => "array"
  | .object => "object"

inductive OfKind : Kind → Json → Prop
  | integer (n : Int) : OfKind .integer (.num (.int n))
  | number (n : JsonNumber) : OfKind .number (.num n)
  | string (s : String) : OfKind .string (.str s)
  | boolean (b : Bool) : OfKind .boolean (.bool b)
  | array (items : List Json) : OfKind .array (.arr items)
  | object (fields : JsonMap) : OfKind .object (.obj fields)

/-- The schema says the type, alone or in a list together with null. -/
def SaysKind (schema : Json) (kind : Kind) : Prop :=
  schema.get "type" = some (.str kind.name) ∨
    ∃ items, schema.get "type" = some (.arr items) ∧ .str kind.name ∈ items ∧
      ∀ v ∈ items, v = .str kind.name ∨ v = .str "null"

def Nullable (schema : Json) : Prop :=
  (∃ items, schema.get "type" = some (.arr items) ∧ .str "null" ∈ items) ∨
    schema.get "nullable" = some (.bool true)

/-- A keyword with a natural number. -/
def Says (schema : Json) (key : String) (n : Nat) : Prop :=
  schema.get key = some (.num (.int n))

def fieldsOf (val : Json) : JsonMap := val.asObject.getD []

def itemsOf (val : Json) : List Json := val.asArray.getD []

/-- The value satisfies the keywords of the schema that do not look into it. -/
structure Keywords (schema val : Json) : Prop where
  enum : ∀ allowed, schema.get "enum" = some (.arr allowed) → ∃ v ∈ allowed, v.same val = true
  minimum : ∀ n m : Int, val = .num (.int n) → schema.get "minimum" = some (.num (.int m)) → m ≤ n
  maximum : ∀ n m : Int, val = .num (.int n) → schema.get "maximum" = some (.num (.int m)) → n ≤ m
  minLength : ∀ s m, val = .str s → Says schema "minLength" m → m ≤ s.length
  maxLength : ∀ s m, val = .str s → Says schema "maxLength" m → s.length ≤ m
  minItems : ∀ items m, val = .arr items → Says schema "minItems" m → m ≤ items.length
  maxItems : ∀ items m, val = .arr items → Says schema "maxItems" m → items.length ≤ m
  required : ∀ fields keys k, val = .obj fields → schema.get "required" = some (.arr keys) →
    .str k ∈ keys → JsonMap.containsKey fields k = true

/-- The value satisfies the schema. -/
inductive Satisfies : (schema val : Json) → Prop
  | null {schema : Json} : Nullable schema → Satisfies schema .null
  | value {schema val : Json} (kind : Kind) : SaysKind schema kind → OfKind kind val →
      Keywords schema val →
      (∀ f ∈ fieldsOf val, ∀ sub, JsonMap.get (propertiesOf schema) f.1 = some sub →
        Satisfies sub f.2) →
      (∀ item ∈ itemsOf val, ∀ sub, schema.get "items" = some sub → Satisfies sub item) →
      Satisfies schema val

/-- The schema and those inside it say a type. -/
inductive Typed : Json → Prop
  | mk {schema : Json} (kind : Kind) : SaysKind schema kind →
      (∀ f ∈ propertiesOf schema, Typed f.2) →
      (∀ sub, schema.get "items" = some sub → Typed sub) → Typed schema

/-- All numbers in the value are integers that a double holds exactly. -/
inductive SmallIntegers : Json → Prop
  | null : SmallIntegers .null
  | bool (b : Bool) : SmallIntegers (.bool b)
  | num (n : Int) : n.natAbs ≤ 2 ^ 53 → SmallIntegers (.num (.int n))
  | str (s : String) : SmallIntegers (.str s)
  | arr (items : List Json) : (∀ v ∈ items, SmallIntegers v) → SmallIntegers (.arr items)
  | obj (fields : JsonMap) : (∀ f ∈ fields, SmallIntegers f.2) → SmallIntegers (.obj fields)

variable {key : String}

theorem SmallIntegers.get {v w : Json} (hv : SmallIntegers v) (h : v.get key = some w) :
    SmallIntegers w := by
  obtain ⟨fields, hfields, hlookup⟩ := Option.bind_eq_some_iff.mp h
  cases hv with
  | obj _ hall =>
    obtain rfl := Option.some.inj hfields
    obtain ⟨before, after, heq, -⟩ := List.lookup_eq_some_iff.mp hlookup
    exact hall (key, w) (heq ▸ List.mem_append_right _ List.mem_cons_self)
  | _ => cases hfields

theorem SmallIntegers.asF64 {n : Int} (h : SmallIntegers (.num (.int n))) :
    asF64 (.num (.int n)) = some (n : Rat) := by
  cases h with
  | num _ hn => rw [Schema.asF64, roundToF64, if_pos hn]

-- ---
-- The type of a schema
-- ---

theorem Kind.name_ne_null (kind : Kind) : kind.name ≠ "null" := by
  cases kind <;> decide

variable {schema : Json} {kind : Kind}

theorem SaysKind.isSome_asObject (h : SaysKind schema kind) : schema.asObject.isSome := by
  obtain h | ⟨_, h, -⟩ := h <;>
  · obtain ⟨fields, hfields, -⟩ := Option.bind_eq_some_iff.mp h
    rw [hfields, Option.isSome_some]

/-- The type that the code finds is the one the schema says. -/
theorem SaysKind.resolve (h : SaysKind schema kind) :
    resolveJsonSchemaType (rawType schema) = some kind.name := by
  obtain h | ⟨items, h, hmem, hall⟩ := h
  · rw [rawType, h, Option.getD_some, resolveJsonSchemaType]
  · rw [rawType, h, Option.getD_some, resolveJsonSchemaType]
    have hkind : Option.filter (fun s => decide (s ≠ "null")) (Json.asStr (.str kind.name)) =
        some kind.name := by
      rw [Json.asStr, Option.filter_some, if_pos (decide_eq_true kind.name_ne_null)]
    have hnull : Option.filter (fun s => decide (s ≠ "null")) (Json.asStr (.str "null")) = none :=
      rfl
    clear h
    -- the items before the first that is no null are passed over
    induction items with
    | nil => cases hmem
    | cons v rest ih =>
      obtain rfl | rfl := hall v List.mem_cons_self
      · rw [List.findSome?_cons, hkind]
      · have hrest : .str kind.name ∈ rest := by
          obtain heq | hrest := List.mem_cons.mp hmem
          · exact absurd (Json.str.inj heq) kind.name_ne_null
          · exact hrest
        rw [List.findSome?_cons, hnull]
        exact ih hrest fun v hv => hall v (List.mem_cons_of_mem _ hv)

theorem isOfType_name_iff (kind : Kind) (val : Json) :
    isOfType kind.name val = true ↔ OfKind kind val := by
  constructor
  · intro h
    cases kind <;> cases val <;> first | constructor | cases h | skip
    case integer.num n =>
      cases n with
      | int n => exact .integer n
      | float => cases h
  · rintro (_ | _ | _ | _ | _ | _) <;> rfl

theorem nullableField_iff (schema : Json) : nullableField schema = true ↔ Nullable schema := by
  rw [nullableField, Bool.or_eq_true, decide_eq_true_eq, Nullable]
  refine or_congr_left ?_
  rw [rawType]
  cases h : schema.get "type" with
  | none => simp
  | some t =>
    cases t with
    | arr items =>
      simp only [Option.getD_some, List.any_eq_true, Option.some.injEq, Json.arr.injEq,
        exists_eq_left', decide_eq_true_eq]
      constructor
      · rintro ⟨v, hv, hstr⟩
        cases v with
        | str s => exact Option.some.inj hstr ▸ hv
        | _ => cases hstr
      · intro hmem
        exact ⟨_, hmem, rfl⟩
    | _ => simp

-- ---
-- The keywords
-- ---

theorem boundErrors_eq_nil_iff {α : Type} (bound : Option α) (fails : α → Bool)
    (text : α → String) :
    boundErrors bound fails text = [] ↔ ∀ b, bound = some b → fails b = false := by
  cases bound with
  | none => simp [boundErrors]
  | some b => cases h : fails b <;> simp [boundErrors, h]

theorem enumErrors_eq_nil_iff (schema val : Json) (label : String) :
    enumErrors texts schema val label = [] ↔
      ∀ allowed, schema.get "enum" = some (.arr allowed) → ∃ v ∈ allowed, v.same val = true := by
  rw [enumErrors]
  cases h : schema.get "enum" with
  | none => simp
  | some en =>
    cases en with
    | arr en =>
      simp only [Option.bind_some, Json.asArray, Option.some.injEq, Json.arr.injEq, forall_eq']
      by_cases hany : (en.any fun v => v.same val) = true
      · rw [if_pos hany]
        exact iff_of_true rfl (List.any_eq_true.mp hany)
      · rw [if_neg hany]
        exact iff_of_false (List.cons_ne_nil _ _) (hany ∘ List.any_eq_true.mpr)
    | _ => simp [Json.asArray]

theorem asF64_bound_iff {b : Rat} (hschema : SmallIntegers schema) :
    (schema.get key).bind asF64 = some b ↔
      ∃ m : Int, schema.get key = some (.num (.int m)) ∧ (m : Rat) = b := by
  constructor
  · intro h
    obtain ⟨v, hv, hb⟩ := Option.bind_eq_some_iff.mp h
    cases hschema.get hv with
    | num m hm =>
      rw [SmallIntegers.asF64 (.num m hm)] at hb
      exact ⟨m, hv, Option.some.inj hb⟩
    | _ => cases hb
  · rintro ⟨m, hv, rfl⟩
    rw [hv, Option.bind_some, (hschema.get hv).asF64]

variable {val : Json}

theorem numberErrors_eq_nil_iff (hval : SmallIntegers val) (hschema : SmallIntegers schema)
    (label : String) :
    numberErrors texts schema val label = [] ↔
      (∀ n m : Int, val = .num (.int n) → schema.get "minimum" = some (.num (.int m)) → m ≤ n) ∧
        ∀ n m : Int, val = .num (.int n) → schema.get "maximum" = some (.num (.int m)) →
          n ≤ m := by
  rw [numberErrors]
  cases hval with
  | num n hn =>
    rw [SmallIntegers.asF64 (.num n hn)]
    dsimp only
    rw [List.append_eq_nil_iff, boundErrors_eq_nil_iff, boundErrors_eq_nil_iff]
    simp only [decide_eq_false_iff_not, not_lt, gt_iff_lt, asF64_bound_iff hschema]
    refine and_congr ?_ ?_
    · constructor
      · rintro h _ m ⟨⟩ hm
        exact_mod_cast h m ⟨m, hm, rfl⟩
      · rintro h _ ⟨m, hm, rfl⟩
        exact_mod_cast h n m rfl hm
    · constructor
      · rintro h _ m ⟨⟩ hm
        exact_mod_cast h m ⟨m, hm, rfl⟩
      · rintro h _ ⟨m, hm, rfl⟩
        exact_mod_cast h n m rfl hm
  | _ => simp [asF64]

theorem asU64_bound_iff {b : Nat} (hschema : SmallIntegers schema) :
    (schema.get key).bind Json.asU64 = some b ↔ Says schema key b := by
  constructor
  · intro h
    obtain ⟨v, hv, hb⟩ := Option.bind_eq_some_iff.mp h
    cases hschema.get hv with
    | num m hm =>
      rw [Json.asU64] at hb
      split at hb
      case isTrue hrange =>
        obtain rfl := Option.some.inj hb
        rw [Says, hv, Int.toNat_of_nonneg hrange.1]
      case isFalse => cases hb
    | _ => cases hb
  · intro h
    rw [Says] at h
    have hsmall : b ≤ 2 ^ 53 := by
      cases hschema.get h with
      | num _ hm => exact hm
    rw [h, Option.bind_some, Json.asU64, if_pos (by omega), Int.toNat_natCast]

theorem countErrors_eq_nil_iff (hschema : SmallIntegers schema)
    (minKey maxKey few many unit : String) (count : Nat) (label : String) :
    countErrors schema minKey maxKey few many unit count label = [] ↔
      (∀ m, Says schema minKey m → m ≤ count) ∧ ∀ m, Says schema maxKey m → count ≤ m := by
  rw [countErrors, List.append_eq_nil_iff, boundErrors_eq_nil_iff, boundErrors_eq_nil_iff]
  simp only [decide_eq_false_iff_not, not_lt, gt_iff_lt, asU64_bound_iff hschema]

theorem stringErrors_eq_nil_iff (hschema : SmallIntegers schema) (val : Json) (label : String) :
    stringErrors schema val label = [] ↔
      (∀ s m, val = .str s → Says schema "minLength" m → m ≤ s.length) ∧
        ∀ s m, val = .str s → Says schema "maxLength" m → s.length ≤ m := by
  cases val with
  | str s =>
    rw [stringErrors, countErrors_eq_nil_iff hschema]
    constructor
    · rintro ⟨hmin, hmax⟩
      exact ⟨fun _ m h => Json.str.inj h ▸ hmin m, fun _ m h => Json.str.inj h ▸ hmax m⟩
    · rintro ⟨hmin, hmax⟩
      exact ⟨fun m => hmin s m rfl, fun m => hmax s m rfl⟩
  | _ => simp [stringErrors]

theorem arrayErrors_eq_nil_iff (hschema : SmallIntegers schema) (val : Json) (label : String) :
    arrayErrors schema val label = [] ↔
      (∀ items m, val = .arr items → Says schema "minItems" m → m ≤ items.length) ∧
        ∀ items m, val = .arr items → Says schema "maxItems" m → items.length ≤ m := by
  cases val with
  | arr items =>
    rw [arrayErrors, countErrors_eq_nil_iff hschema]
    constructor
    · rintro ⟨hmin, hmax⟩
      exact ⟨fun _ m h => Json.arr.inj h ▸ hmin m, fun _ m h => Json.arr.inj h ▸ hmax m⟩
    · rintro ⟨hmin, hmax⟩
      exact ⟨fun m => hmin items m rfl, fun m => hmax items m rfl⟩
  | _ => simp [arrayErrors]

theorem requiredErrors_eq_nil_iff (schema val : Json) (path : String) :
    requiredErrors schema val path = [] ↔
      ∀ fields keys k, val = .obj fields → schema.get "required" = some (.arr keys) →
        .str k ∈ keys → JsonMap.containsKey fields k = true := by
  cases val with
  | obj fields =>
    cases h : schema.get "required" with
    | none => simp [requiredErrors, h]
    | some required =>
      cases required with
      | arr required =>
        simp only [requiredErrors, h, Option.bind_some, Json.asArray]
        rw [List.filterMap_eq_nil_iff]
        constructor
        · rintro hnone _ _ k ⟨⟩ ⟨⟩ hk
          by_contra hmissing
          have := hnone _ hk
          dsimp only at this
          rw [if_neg hmissing] at this
          cases this
        · intro hall v hv
          cases v with
          | str k => exact if_pos (hall fields required k rfl rfl hv)
          | _ => rfl
      | _ => simp [requiredErrors, h, Json.asArray]
  | _ => simp [requiredErrors]

theorem keywords_iff (hval : SmallIntegers val) (hschema : SmallIntegers schema)
    (label path : String) :
    Keywords schema val ↔
      enumErrors texts schema val label = [] ∧ numberErrors texts schema val label = [] ∧
        stringErrors schema val label = [] ∧ arrayErrors schema val label = [] ∧
        requiredErrors schema val path = [] := by
  rw [enumErrors_eq_nil_iff, numberErrors_eq_nil_iff texts hval hschema,
    stringErrors_eq_nil_iff hschema, arrayErrors_eq_nil_iff hschema, requiredErrors_eq_nil_iff]
  constructor
  · rintro ⟨henum, hmin, hmax, hminLen, hmaxLen, hminItems, hmaxItems, hrequired⟩
    exact ⟨henum, ⟨hmin, hmax⟩, ⟨hminLen, hmaxLen⟩, ⟨hminItems, hmaxItems⟩, hrequired⟩
  · rintro ⟨henum, ⟨hmin, hmax⟩, ⟨hminLen, hmaxLen⟩, ⟨hminItems, hmaxItems⟩, hrequired⟩
    exact ⟨henum, hmin, hmax, hminLen, hmaxLen, hminItems, hmaxItems, hrequired⟩

theorem typedErrors_eq_nil_iff (hkind : OfKind kind val) (path label : String)
    (nested : List String) :
    (match some kind.name with
      | some "integer" | some "number" => numberErrors texts schema val label
      | some "string" => stringErrors schema val label
      | some "object" => requiredErrors schema val path ++ nested
      | some "array" => arrayErrors schema val label ++ nested
      | _ => []) = [] ↔
      (numberErrors texts schema val label = [] ∧ stringErrors schema val label = [] ∧
        arrayErrors schema val label = [] ∧ requiredErrors schema val path = []) ∧
        (kind = .object ∨ kind = .array → nested = []) := by
  cases hkind <;>
    simp [Kind.name, numberErrors, asF64, stringErrors, arrayErrors, requiredErrors]

theorem errorsWith_eq_nil_iff (hkind : SaysKind schema kind) (hval : SmallIntegers val)
    (hschema : SmallIntegers schema) (path : String) (nested : List String) :
    errorsWith texts schema val path nested = [] ↔
      Nullable schema ∧ val = .null ∨
        OfKind kind val ∧ Keywords schema val ∧
          (kind = .object ∨ kind = .array → nested = []) := by
  have hobject : ¬ schema.asObject.isNone = true := by
    simp [Option.isSome_iff_ne_none.mp hkind.isSome_asObject]
  have hnull : (nullableField schema && val.isNull) = true ↔ Nullable schema ∧ val = .null := by
    rw [Bool.and_eq_true, nullableField_iff]
    refine and_congr_right' ?_
    cases val <;> simp [Json.isNull]
  rw [errorsWith, if_neg hobject]
  by_cases h : Nullable schema ∧ val = .null
  · rw [if_pos (hnull.mpr h)]
    exact iff_of_true rfl (.inl h)
  rw [if_neg (h ∘ hnull.mp), or_iff_right h]
  dsimp only
  rw [hkind.resolve]
  by_cases hof : OfKind kind val
  · have hname : isOfType kind.name val = true := (isOfType_name_iff kind val).mpr hof
    rw [if_neg (by simp [hname]), List.append_eq_nil_iff, keywords_iff texts hval hschema _ path]
    refine (and_congr_right' (typedErrors_eq_nil_iff texts hof path _ nested)).trans ?_
    tauto
  · have hname : isOfType kind.name val = false :=
      Bool.eq_false_iff.mpr (hof ∘ (isOfType_name_iff kind val).mp)
    rw [if_pos (by simp [hname])]
    exact iff_of_false (List.cons_ne_nil _ _) fun h => hof h.1

-- ---
-- A value has no errors exactly if it satisfies the schema
-- ---

theorem Kind.name_injective : Function.Injective Kind.name := by
  intro a b h
  cases a <;> cases b <;> first | rfl | exact absurd h (by decide)

/-- A schema says one type. -/
theorem SaysKind.unique {a b : Kind} (ha : SaysKind schema a) (hb : SaysKind schema b) : a = b := by
  have h : some a.name = some b.name := ha.resolve.symm.trans hb.resolve
  exact Kind.name_injective (Option.some.inj h)

theorem satisfies_iff (hkind : SaysKind schema kind) :
    Satisfies schema val ↔
      Nullable schema ∧ val = .null ∨
        OfKind kind val ∧ Keywords schema val ∧
          (∀ f ∈ fieldsOf val, ∀ sub, JsonMap.get (propertiesOf schema) f.1 = some sub →
            Satisfies sub f.2) ∧
          ∀ item ∈ itemsOf val, ∀ sub, schema.get "items" = some sub → Satisfies sub item := by
  constructor
  · intro h
    cases h with
    | null hnull => exact .inl ⟨hnull, rfl⟩
    | value kind' hkind' hof hkeywords hfields hitems =>
      obtain rfl := hkind'.unique hkind
      exact .inr ⟨hof, hkeywords, hfields, hitems⟩
  · rintro (⟨hnull, rfl⟩ | ⟨hof, hkeywords, hfields, hitems⟩)
    · exact .null hnull
    · exact .value kind hkind hof hkeywords hfields hitems

variable {sub : Json}

theorem Typed.items (h : Typed schema) (hsub : schema.get "items" = some sub) : Typed sub := by
  cases h with
  | mk _ _ _ hitems => exact hitems sub hsub

theorem Typed.properties (h : Typed schema) : ∀ f ∈ propertiesOf schema, Typed f.2 := by
  cases h with
  | mk _ _ hprops _ => exact hprops

theorem SmallIntegers.properties {schema : Json} (h : SmallIntegers schema) :
    ∀ f ∈ propertiesOf schema, SmallIntegers f.2 := by
  rw [propertiesOf]
  cases hprops : schema.get "properties" with
  | none => nofun
  | some props =>
    cases h.get hprops with
    | obj fields hall => exact hall
    | _ => nofun

variable {props : JsonMap}

theorem mem_of_get (h : JsonMap.get props key = some sub) : (key, sub) ∈ props := by
  obtain ⟨before, after, rfl, -⟩ := List.lookup_eq_some_iff.mp h
  exact List.mem_append_right _ List.mem_cons_self

theorem validateItems_eq_nil_iff {items : List Json}
    (h : ∀ item ∈ items, ∀ path, validate texts item sub path = [] ↔ Satisfies sub item)
    (path : String) (i : Nat) :
    validateItems texts items sub path i = [] ↔ ∀ item ∈ items, Satisfies sub item := by
  induction items generalizing i with
  | nil => simp [validateItems]
  | cons item rest ih =>
    have hrest := ih (fun v hv => h v (List.mem_cons_of_mem _ hv)) (i + 1)
    rw [validateItems, List.append_eq_nil_iff, h item List.mem_cons_self, hrest,
      List.forall_mem_cons]

theorem validateFields_eq_nil_iff {fields : List (String × Json)}
    (h : ∀ f ∈ fields, ∀ sub, JsonMap.get props f.1 = some sub → ∀ path,
      validate texts f.2 sub path = [] ↔ Satisfies sub f.2) (path : String) :
    validateFields texts fields props path = [] ↔
      ∀ f ∈ fields, ∀ sub, JsonMap.get props f.1 = some sub → Satisfies sub f.2 := by
  induction fields with
  | nil => simp [validateFields]
  | cons f rest ih =>
    obtain ⟨k, v⟩ := f
    have hrest := ih fun f hf => h f (List.mem_cons_of_mem _ hf)
    rw [validateFields, List.append_eq_nil_iff, hrest, List.forall_mem_cons]
    refine and_congr_left' ?_
    -- a field that the schema does not know is not looked at
    cases hsub : JsonMap.get props k with
    | none => simp
    | some sub => simpa using h (k, v) List.mem_cons_self sub hsub (subpath path k)

/-- For a schema that says a type at every place, and integers that a double holds
exactly, `validate_json_schema_value` returns no error exactly if the value
satisfies the schema, at every nesting level. -/
theorem validate_eq_nil_iff {val schema : Json} (htyped : Typed schema)
    (hval : SmallIntegers val) (hschema : SmallIntegers schema) (path : String) :
    validate texts val schema path = [] ↔ Satisfies schema val := by
  induction hval generalizing schema path with
  | arr items hitems ih =>
    obtain ⟨kind, hkind, -, -⟩ := id htyped
    rw [validate, errorsWith_eq_nil_iff texts hkind (.arr items hitems) hschema,
      satisfies_iff hkind]
    refine or_congr_right (and_congr_right fun hof => and_congr_right fun _ => ?_)
    cases hof
    cases hsub : schema.get "items" with
    | none => simp [fieldsOf, Json.asObject]
    | some sub =>
      have := validateItems_eq_nil_iff texts
        (fun item hitem => ih item hitem (htyped.items hsub) (hschema.get hsub)) path 0
      simp [fieldsOf, itemsOf, Json.asObject, Json.asArray, this]
  | obj fields hfields ih =>
    obtain ⟨kind, hkind, -, -⟩ := id htyped
    rw [validate, errorsWith_eq_nil_iff texts hkind (.obj fields hfields) hschema,
      satisfies_iff hkind]
    refine or_congr_right (and_congr_right fun hof => and_congr_right fun _ => ?_)
    cases hof
    have := validateFields_eq_nil_iff texts (fun f hf sub hsub =>
      ih f hf (htyped.properties _ (mem_of_get hsub)) (hschema.properties _ (mem_of_get hsub))) path
    simp [fieldsOf, itemsOf, Json.asObject, Json.asArray, this]
  | _ =>
    -- such a value has no parts
    obtain ⟨kind, hkind, -, -⟩ := id htyped
    rw [validate, errorsWith_eq_nil_iff texts hkind (by constructor; try assumption) hschema,
      satisfies_iff hkind]
    simp [fieldsOf, itemsOf, Json.asObject, Json.asArray]

/-- An object whose field `n` is an integer from one on, or null. -/
def sampleSchema : Json :=
  .obj [("type", .str "object"),
    ("properties", .obj [("n", .obj [("type", .arr [.str "integer", .str "null"]),
      ("minimum", .num (.int 1))])])]

theorem typed_sampleSchema : Typed sampleSchema := by
  refine .mk .object (.inl rfl) ?_ nofun
  intro f hf
  obtain rfl := List.mem_singleton.mp hf
  refine .mk .integer (.inr ⟨_, rfl, List.mem_cons_self, ?_⟩) nofun nofun
  intro v hv
  simpa [Kind.name] using hv

def sampleTexts : Texts := ⟨fun _ => "values", fun _ => "number"⟩

/-- Three satisfies the minimum of the schema; zero has an error. -/
theorem validate_sampleSchema :
    (validate sampleTexts (.obj [("n", .num (.int 3))]) sampleSchema "" = [] ↔
        Satisfies sampleSchema (.obj [("n", .num (.int 3))])) ∧
      validate sampleTexts (.obj [("n", .num (.int 3))]) sampleSchema "" = [] ∧
      validate sampleTexts (.obj [("n", .num (.int 0))]) sampleSchema "" =
        ["n must be >= number"] := by
  have hschema : SmallIntegers sampleSchema := by
    refine .obj _ (List.forall_mem_cons.mpr ⟨.str _, List.forall_mem_singleton.mpr ?_⟩)
    refine .obj _ (List.forall_mem_singleton.mpr ?_)
    refine .obj _ (List.forall_mem_cons.mpr ⟨?_, List.forall_mem_singleton.mpr (.num 1 (by decide))⟩)
    exact .arr _ (List.forall_mem_cons.mpr ⟨.str _, List.forall_mem_singleton.mpr (.str _)⟩)
  have hval : SmallIntegers (.obj [("n", .num (.int 3))]) :=
    .obj _ (List.forall_mem_singleton.mpr (.num 3 (by decide)))
  refine ⟨validate_eq_nil_iff sampleTexts typed_sampleSchema hval hschema "", ?_, ?_⟩
  · rfl
  · decide

end HiveClaw.Tools.Schema
