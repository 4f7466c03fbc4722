import Mathlib.Algebra.GroupWithZero.Nat
import Mathlib.Algebra.Ring.Int.Defs

/-!
# JSON values

`serde_json::Value` as the runtime uses it. The workspace is built with the
`preserve_order` feature of `serde_json` (`crates/config/Cargo.toml`), so an
object is the list of its fields in insertion order; `insert` on a key that
is present replaces the value in place.

Numbers follow `serde_json::Number`: an integer of 64 bits or a finite
double, the latter given by its mantissa and its binary exponent. Writing a
value as text and reading it back is the library's business and stays a
parameter of the runtime (`HiveClaw.Runtime.Env`).
-/

namespace HiveClaw

/-- `serde_json::Number`; `float m e` stands for the double `m * 2 ^ e`. -/
inductive JsonNumber where
  | int (n : Int)
  | float (mantissa exponent : Int)
deriving DecidableEq, Repr

-- `serde_json::Value`
inductive Json where
  | null
  | bool (b : Bool)
  | num (n : JsonNumber)
  | str (s : String)
  | arr (items : List Json)
  | obj (fields : List (String × Json))
deriving Inhabited, Repr

-- The tables compare stored JSON columns; `deriving` does not handle the nested type.
mutual

/-- Equality of values is decidable. -/
def Json.decEq : (a b : Json) → Decidable (a = b)
  | .null, .null => isTrue rfl
  | .bool a, .bool b => decidable_of_iff (a = b) (by simp)
  | .num a, .num b => decidable_of_iff (a = b) (by simp)
  | .str a, .str b => decidable_of_iff (a = b) (by simp)
  | .arr a, .arr b =>
    match Json.decEqItems a b with
    | isTrue h => isTrue (by rw [h])
    | isFalse h => isFalse fun h' => h (Json.arr.inj h')
  | .obj a, .obj b =>
    match Json.decEqFields a b with
    | isTrue h => isTrue (by rw [h])
    | isFalse h => isFalse fun h' => h (Json.obj.inj h')
  | .null, .bool _ | .null, .num _ | .null, .str _ | .null, .arr _ | .null, .obj _
  | .bool _, .null | .bool _, .num _ | .bool _, .str _ | .bool _, .arr _ | .bool _, .obj _
  | .num _, .null | .num _, .bool _ | .num _, .str _ | .num _, .arr _ | .num _, .obj _
  | .str _, .null | .str _, .bool _ | .str _, .num _ | .str _, .arr _ | .str _, .obj _
  | .arr _, .null | .arr _, .bool _ | .arr _, .num _ | .arr _, .str _ | .arr _, .obj _
  | .obj _, .null | .obj _, .bool _ | .obj _, .num _ | .obj _, .str _ | .obj _, .arr _ =>
    isFalse nofun

def Json.decEqItems : (a b : List Json) → Decidable (a = b)
  | [], [] => isTrue rfl
  | [], _ :: _ | _ :: _, [] => isFalse nofun
  | a :: as, b :: bs =>
    match Json.decEq a b, Json.decEqItems as bs with
    | isTrue h₁, isTrue h₂ => isTrue (by rw [h₁, h₂])
    | isFalse h, _ => isFalse fun h' => h (List.cons.inj h').1
    | _, isFalse h => isFalse fun h' => h (List.cons.inj h').2

/-- The fields of an object, in order. -/
def Json.decEqFields : (a b : List (String × Json)) → Decidable (a = b)
  | [], [] => isTrue rfl
  | [], _ :: _ | _ :: _, [] => isFalse nofun
  | (k, v) :: as, (l, w) :: bs =>
    match instDecidableEqString k l, Json.decEq v w, Json.decEqFields as bs with
    | isTrue h₀, isTrue h₁, isTrue h₂ => isTrue (by rw [h₀, h₁, h₂])
    | isFalse h, _, _ => isFalse fun h' => h (Prod.mk.inj (List.cons.inj h').1).1
    | _, isFalse h, _ => isFalse fun h' => h (Prod.mk.inj (List.cons.inj h').1).2
    | _, _, isFalse h => isFalse fun h' => h (List.cons.inj h').2
end

instance : DecidableEq Json := Json.decEq

-- `serde_json::Map<String, Value>`
abbrev JsonMap := List (String × Json)

namespace JsonMap

-- `Map::get`
def get (m : JsonMap) (key : String) : Option Json := m.lookup key

/-- `Map::insert`: replaces the value of a present key where it stands, else
appends the field. -/
def insert : JsonMap → String → Json → JsonMap
  | [], key, v => [(key, v)]
  | (k, w) :: rest, key, v =>
    if k = key then (k, v) :: rest else (k, w) :: insert rest key v

theorem get_insert_of_ne (m : JsonMap) {key key' : String} (v : Json) (h : key' ≠ key) :
    get (insert m key v) key' = get m key' := by
  have hne : ∀ k : String, k = key → (key' == k) = false := by
    rintro k rfl
    exact beq_false_of_ne h
  show List.lookup key' (insert m key v) = List.lookup key' m
  induction m with
  | nil => rw [insert, List.lookup_cons, hne key rfl]
  | cons f rest ih =>
    obtain ⟨k, w⟩ := f
    rw [insert]
    split
    case isTrue hk => rw [List.lookup_cons, List.lookup_cons, hne k hk]
    case isFalse => rw [List.lookup_cons, List.lookup_cons, ih]

theorem get_insert_self (m : JsonMap) (key : String) (v : Json) :
    get (insert m key v) key = some v := by
  show List.lookup key (insert m key v) = some v
  induction m with
  | nil => rw [insert, List.lookup_cons, beq_self_eq_true]
  | cons f rest ih =>
    obtain ⟨k, w⟩ := f
    rw [insert]
    split
    case isTrue hk => rw [hk, List.lookup_cons, beq_self_eq_true]
    case isFalse hk => rw [List.lookup_cons, beq_false_of_ne (Ne.symm hk), ih]

/-- Inserting a value changes nothing where the key has it already. -/
theorem insert_eq_self_iff (m : JsonMap) (key : String) (v : Json) :
    insert m key v = m ↔ get m key = some v := by
  constructor
  · intro h
    rw [← get_insert_self m key v, h]
  · show List.lookup key m = some v → _
    induction m with
    | nil => nofun
    | cons f rest ih =>
      obtain ⟨k, w⟩ := f
      intro h
      rw [insert]
      by_cases hk : k = key
      · subst hk
        rw [List.lookup_cons, beq_self_eq_true] at h
        rw [if_pos rfl, Option.some.inj h]
      · rw [List.lookup_cons, beq_false_of_ne (Ne.symm hk)] at h
        rw [if_neg hk, ih h]

/-- `Map::remove`, which under `preserve_order` is `swap_remove`: the last
field takes the place of the removed one. -/
def remove (m : JsonMap) (key : String) : JsonMap :=
  match m.findIdx? (fun f => f.1 = key), m.getLast? with
  | some i, some last => (m.set i last).dropLast
  | _, _ => m

-- `Map::contains_key`
def containsKey (m : JsonMap) (key : String) : Bool := m.any fun f => f.1 = key

end JsonMap

namespace Json

-- `Value::as_object`
def asObject : Json → Option JsonMap
  | .obj fields => some fields
  | _ => none

-- `Value::as_array`
def asArray : Json → Option (List Json)
  | .arr items => some items
  | _ => none

-- `Value::as_str`
def asStr : Json → Option String
  | .str s => some s
  | _ => none

-- `Value::as_i64`
def asI64 : Json → Option Int
  | .num (.int n) => if -2 ^ 63 ≤ n ∧ n < 2 ^ 63 then some n else none
  | _ => none

-- `Value::as_u64`
def asU64 : Json → Option Nat
  | .num (.int n) => if 0 ≤ n ∧ n < 2 ^ 64 then some n.toNat else none
  | _ => none

/-- `v.as_f64().map(|s| s == 0.0)`: whether the value is a number equal to
zero; `none` when it is no number. -/
def isZeroF64 : Json → Option Bool
  | .num (.int n) => some (n == 0)
  | .num (.float m _) => some (m == 0)
  | _ => none

-- `Value::is_null`
def isNull : Json → Bool
  | .null => true
  | _ => false

/-- `Value::get` with a string index. -/
def get (v : Json) (key : String) : Option Json :=
  v.asObject.bind fun m => m.get key

/-- The objects of a value hold each key once, as every `serde_json::Map` does. -/
inductive Proper : Json → Prop
  | null : Proper .null
  | bool (b : Bool) : Proper (.bool b)
  | num (n : JsonNumber) : Proper (.num n)
  | str (s : String) : Proper (.str s)
  | arr (items : List Json) : (∀ v ∈ items, Proper v) → Proper (.arr items)
  | obj (fields : JsonMap) :
      (fields.map Prod.fst).Nodup → (∀ f ∈ fields, Proper f.2) → Proper (.obj fields)

theorem Proper.get {v w : Json} {key : String} (hv : v.Proper) (h : v.get key = some w) :
    w.Proper := by
  obtain ⟨fields, hfields, hlookup⟩ := Option.bind_eq_some_iff.mp h
  cases hv with
  | obj _ _ hall =>
    obtain rfl := Option.some.inj hfields
    obtain ⟨before, after, heq, -⟩ := List.lookup_eq_some_iff.mp hlookup
    exact hall (key, w) (heq ▸ List.mem_append_right _ List.mem_cons_self)
  | _ => cases hfields

theorem containsKey_eq (v : Json) (key : String) :
    (v.asObject.map fun m => m.containsKey key).getD false = (v.get key).isSome := by
  cases v with
  | obj fields =>
    show (fields.any fun f => f.1 = key) = (fields.lookup key).isSome
    induction fields with
    | nil => rfl
    | cons f rest ih =>
      obtain ⟨k, w⟩ := f
      rw [List.any_cons, ih, List.lookup_cons]
      by_cases hk : k = key
      · simp [hk]
      · have hne : (key == k) = false := by simpa using Ne.symm hk
        simp [hk, hne]
  | _ => rfl

-- `v.get(key).and_then(|v| v.as_str())`
def getStr (v : Json) (key : String) : Option String :=
  (v.get key).bind asStr

/-- The strings of a JSON array, other elements skipped; the shape of
`arr.iter().filter_map(|v| v.as_str())`. -/
def strings (items : List Json) : List String := items.filterMap asStr

end Json

end HiveClaw
