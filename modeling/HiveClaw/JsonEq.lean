import Mathlib.Data.List.Forall2
import HiveClaw.Json

/-!
# Equality of JSON values

`==` of `serde_json::Value`: two objects are equal when they have the same keys with equal values,
in whatever order the fields stand.
-/

namespace HiveClaw.Json

mutual

-- `Value::eq`
def same : Json → Json → Bool
  | .null, .null => true
  | .bool a, .bool b => a = b
  | .num a, .num b => a = b
  | .str a, .str b => a = b
  | .arr a, .arr b => sameItems a b
  | .obj a, .obj b => (b.all fun f => JsonMap.containsKey a f.1) && sameFields a b
  | _, _ => false

def sameItems : List Json → List Json → Bool
  | [], [] => true
  | a :: as, b :: bs => same a b && sameItems as bs
  | _, _ => false

/-- Every field is there with an equal value. -/
def sameFields : List (String × Json) → JsonMap → Bool
  | [], _ => true
  | (key, v) :: rest, other =>
    (match JsonMap.get other key with
      | some w => same v w
      | none => false) && sameFields rest other

end

-- `Option<&Value>::eq`
def sameOption : Option Json → Option Json → Bool
  | none, none => true
  | some a, some b => same a b
  | _, _ => false

variable {fields : JsonMap}

theorem lookup_of_mem {f : String × Json} (hf : f ∈ fields) (hkeys : (fields.map Prod.fst).Nodup) :
    JsonMap.get fields f.1 = some f.2 := by
  induction fields with
  | nil => cases hf
  | cons g rest ih =>
    obtain ⟨hfresh, hrest⟩ := List.nodup_cons.mp hkeys
    show List.lookup f.1 ((g.1, g.2) :: rest) = some f.2
    rcases List.mem_cons.mp hf with rfl | hmem
    · rw [List.lookup_cons, beq_self_eq_true]
    · have hne : (f.1 == g.1) = false := by
        refine beq_false_of_ne fun heq => hfresh ?_
        rw [← heq]
        exact List.mem_map_of_mem hmem
      rw [List.lookup_cons, hne]
      exact ih hmem hrest

theorem sameItems_refl {items : List Json} (h : ∀ v ∈ items, same v v = true) :
    sameItems items items = true := by
  induction items with
  | nil => rfl
  | cons v items ih =>
    obtain ⟨hv, hrest⟩ := List.forall_mem_cons.mp h
    rw [sameItems, hv, ih hrest]
    rfl

theorem sameFields_refl {part : JsonMap} (hkeys : (fields.map Prod.fst).Nodup)
    (hpart : ∀ f ∈ part, f ∈ fields) (h : ∀ f ∈ fields, same f.2 f.2 = true) :
    sameFields part fields = true := by
  induction part with
  | nil => rfl
  | cons f part ih =>
    obtain ⟨hf, hrest⟩ := List.forall_mem_cons.mp hpart
    rw [sameFields, lookup_of_mem hf hkeys, ih hrest]
    simp only [h f hf, Bool.and_self]

theorem Proper.same {v : Json} (hv : v.Proper) : same v v = true := by
  induction hv with
  | null => rfl
  | bool b => exact decide_eq_true rfl
  | num n => exact decide_eq_true rfl
  | str s => exact decide_eq_true rfl
  | arr items _ ih => exact sameItems_refl ih
  | obj fields hkeys _ ih =>
    rw [Json.same, sameFields_refl hkeys (fun _ hf => hf) ih, Bool.and_true, List.all_eq_true]
    exact fun f hf => List.any_eq_true.mpr ⟨f, hf, decide_eq_true rfl⟩

variable {key : String} {v : Json}

theorem get_of_sameFields {other : JsonMap} (h : sameFields fields other = true)
    (hkey : JsonMap.get fields key = some v) :
    ∃ w, JsonMap.get other key = some w ∧ same v w = true := by
  induction fields with
  | nil => cases hkey
  | cons f rest ih =>
    obtain ⟨k, u⟩ := f
    rw [sameFields, Bool.and_eq_true] at h
    rw [JsonMap.get, List.lookup_cons] at hkey
    by_cases hk : key = k
    · subst hk
      rw [beq_self_eq_true] at hkey
      obtain rfl := Option.some.inj hkey
      obtain ⟨hv, -⟩ := h
      split at hv
      · next w hget => exact ⟨w, hget, hv⟩
      · cases hv
    · rw [beq_false_of_ne hk] at hkey
      exact ih h.2 hkey

variable {s : String}

theorem eq_str_of_same (h : same v (.str s) = true) : v = .str s := by
  cases v with
  | str t =>
    have ht : t = s := of_decide_eq_true h
    rw [ht]
  | _ => cases h

/-- Equal objects have the same texts. -/
theorem getStr_of_same (h : same v (.obj fields) = true)
    (hkey : JsonMap.get fields key = some (.str s)) : v.getStr key = some s := by
  cases v with
  | obj other =>
    rw [same, Bool.and_eq_true, List.all_eq_true] at h
    obtain ⟨before, after, heq, -⟩ := List.lookup_eq_some_iff.mp hkey
    have hthere : JsonMap.containsKey other key = true :=
      h.1 (key, .str s) (heq ▸ List.mem_append_right _ List.mem_cons_self)
    have hsome : (JsonMap.get other key).isSome = true := (containsKey_eq (.obj other) key) ▸ hthere
    obtain ⟨u, hu⟩ := Option.isSome_iff_exists.mp hsome
    obtain ⟨w, hw, hsame⟩ := get_of_sameFields h.2 hu
    obtain rfl := Option.some.inj (hkey.symm.trans hw)
    show (JsonMap.get other key).bind asStr = some s
    rw [hu, eq_str_of_same hsame]
    rfl
  | _ => cases h

theorem forall₂_of_sameItems {as bs : List Json} (h : sameItems as bs = true) :
    List.Forall₂ (fun a b => same a b = true) as bs := by
  induction as generalizing bs with
  | nil =>
    cases bs with
    | nil => exact .nil
    | cons => cases h
  | cons a as ih =>
    cases bs with
    | nil => cases h
    | cons b bs =>
      rw [sameItems, Bool.and_eq_true] at h
      exact .cons h.1 (ih h.2)

end HiveClaw.Json
