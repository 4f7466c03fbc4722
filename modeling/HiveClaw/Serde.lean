import HiveClaw.Json

/-!
# Structures as JSON

What `#[derive(Serialize, Deserialize)]` makes of the fields of a structure. Integers are read
without their bounds, which what was written has.
-/

namespace HiveClaw.Serde

/-! ## Fields -/

section Fields

variable {α : Type}

def required (read : Json → Option α) (m : JsonMap) (key : String) : Option α :=
  (m.get key).bind read

/-- A field with a default for the case that it is missing. -/
def defaulted (read : Json → Option α) (default : α) (m : JsonMap) (key : String) : Option α :=
  match m.get key with
  | none => some default
  | some v => read v

section Fields

variable (read : Json → Option α) (v : Json) (m : List (String × Json)) {key key' : String}

/-! A field that was written is found at its place, behind those of other names. -/

theorem required_cons_self : required read ((key, v) :: m) key = read v := by
  unfold required JsonMap.get
  rw [List.lookup_cons_self, Option.bind_some]

/-- A field of another name does not matter. -/
theorem required_cons_of_ne (h : key' ≠ key) :
    required read ((key, v) :: m) key' = required read m key' := by
  unfold required JsonMap.get
  rw [List.lookup_cons, beq_false_of_ne h]

theorem defaulted_cons_self (default : α) :
    defaulted read default ((key, v) :: m) key = read v := by
  unfold defaulted JsonMap.get
  rw [List.lookup_cons_self]

theorem defaulted_cons_of_ne (default : α) (h : key' ≠ key) :
    defaulted read default ((key, v) :: m) key' = defaulted read default m key' := by
  unfold defaulted JsonMap.get
  rw [List.lookup_cons, beq_false_of_ne h]

end Fields

/-- `Option<T>`, where `null` is `None`. -/
def nullable (read : Json → Option α) : Json → Option (Option α)
  | .null => some none
  | v => (read v).map some

/-- How `Option<T>` is written. -/
def optional (write : α → Json) : Option α → Json
  | none => .null
  | some a => write a

-- `Vec<T>`
def readVec (read : Json → Option α) (v : Json) : Option (List α) :=
  v.asArray.bind fun items => items.mapM read

/-- An `Option` field is read back, unless the value itself is written as `null`. -/
theorem nullable_optional {read : Json → Option α} {write : α → Json}
    (hread : ∀ a, read (write a) = some a) (hnull : ∀ a, write a ≠ .null) (o : Option α) :
    nullable read (optional write o) = some o := by
  cases o with
  | none => rfl
  | some a =>
    show nullable read (write a) = some (some a)
    unfold nullable
    split
    · next hwrite => exact absurd hwrite (hnull a)
    · rw [hread, Option.map_some]

/-- A list is read back if each item is. -/
theorem readVec_map {read : Json → Option α} {write : α → Json} {f : α → α} (l : List α)
    (hread : ∀ a, read (write a) = some (f a)) :
    readVec read (.arr (l.map write)) = some (l.map f) := by
  show (l.map write).mapM read = some (l.map f)
  induction l with
  | nil => rfl
  | cons a rest ih => simp [List.mapM_cons, ih, hread]

end Fields

-- `bool`
def readBool : Json → Option Bool
  | .bool b => some b
  | _ => none

@[simp] theorem nullable_str (o : Option String) :
    nullable Json.asStr (optional Json.str o) = some o := by
  cases o <;> rfl

/-! ## Optional values -/

/-- What is read back of an optional value: `null` is none. -/
def readBack : Option Json → Option Json
  | some .null => none
  | o => o

@[simp] theorem nullable_value (o : Option Json) :
    nullable some (optional id o) = some (readBack o) := by
  cases o with
  | none => rfl
  | some v => cases v <;> rfl

/-- `null` and no value are one after reading. -/
@[simp] theorem readBack_readBack (o : Option Json) : readBack (readBack o) = readBack o := by
  cases o with
  | none => rfl
  | some v => cases v <;> rfl

theorem readBack_of_read {m : JsonMap} {key : String} {o : Option Json}
    (h : defaulted (nullable some) none m key = some o) : readBack o = o := by
  unfold defaulted at h
  split at h
  · obtain rfl := Option.some.inj h
    rfl
  · next v _ =>
    cases v <;>
      · simp only [nullable, Option.map_some, Option.some.injEq] at h
        obtain rfl := h
        rfl

end HiveClaw.Serde
