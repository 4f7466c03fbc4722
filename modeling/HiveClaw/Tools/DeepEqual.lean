import HiveClaw.Tools.Service

/-!
# Deep equality of JSON values

`json_deep_equal` is transitive, and reflexive on values whose objects hold each
key once; so it does not see the normal form in which MySQL keeps a document.
-/

namespace HiveClaw.Tools

variable {am : List (String × Json)} {k : String} {v : Json}

/-- Each field of the first object has an equal one in the second. -/
theorem fieldsDeepEqual_lookup {bm : List (String × Json)} (h : fieldsDeepEqual am bm = true)
    (hk : am.lookup k = some v) : ∃ w, bm.lookup k = some w ∧ jsonDeepEqual v w = true := by
  induction am with
  | nil => cases hk
  | cons f rest ih =>
    obtain ⟨k', v'⟩ := f
    rw [fieldsDeepEqual, Bool.and_eq_true] at h
    obtain ⟨hhead, hrest⟩ := h
    rw [List.lookup_cons] at hk
    by_cases hkk : k = k'
    · subst hkk
      simp only [beq_self_eq_true, Option.some.injEq] at hk
      subst hk
      cases hb : bm.lookup k with
      | none =>
        rw [hb] at hhead
        cases hhead
      | some w =>
        rw [hb] at hhead
        exact ⟨w, rfl, hhead⟩
    · have hne : (k == k') = false := by simpa using hkk
      rw [hne] at hk
      exact ih hrest hk

theorem lookup_of_mem {fields : List (String × Json)} (hkeys : (fields.map Prod.fst).Nodup)
    (hmem : (k, v) ∈ fields) : fields.lookup k = some v := by
  induction fields with
  | nil => cases hmem
  | cons f rest ih =>
    rw [List.map_cons, List.nodup_cons] at hkeys
    rw [List.lookup_cons]
    rcases List.mem_cons.mp hmem with rfl | hrest
    · simp
    · have hne : k ≠ f.1 := fun hk => hkeys.1 (List.mem_map.mpr ⟨(k, v), hrest, hk⟩)
      have hbeq : (k == f.1) = false := by simpa using hne
      rw [hbeq]
      exact ih hkeys.2 hrest

variable {b : Json}

/-- Objects are equal with as many fields and an equal field for each. -/
theorem jsonDeepEqual_obj :
    jsonDeepEqual (.obj am) b = true ↔
      ∃ bm, b = .obj bm ∧ am.length = bm.length ∧ fieldsDeepEqual am bm = true := by
  cases b with
  | obj bm => simp [jsonDeepEqual]
  | _ => simp [jsonDeepEqual]

theorem jsonDeepEqual_arr {av : List Json} :
    jsonDeepEqual (.arr av) b = true ↔
      ∃ bv, b = .arr bv ∧ av.length = bv.length ∧ itemsDeepEqual av bv = true := by
  cases b with
  | arr bv => simp [jsonDeepEqual]
  | _ => simp [jsonDeepEqual]

mutual

/-- The three lemmas follow the three recursive functions. -/
theorem jsonDeepEqual_trans : ∀ {a b c : Json}, jsonDeepEqual a b = true →
    jsonDeepEqual b c = true → jsonDeepEqual a c = true
  | .obj am, b, c, hab, hbc => by
    obtain ⟨bm, rfl, hlen, hfields⟩ := jsonDeepEqual_obj.mp hab
    obtain ⟨cm, rfl, hlen', hfields'⟩ := jsonDeepEqual_obj.mp hbc
    exact jsonDeepEqual_obj.mpr ⟨cm, rfl, hlen.trans hlen', fieldsDeepEqual_trans hfields hfields'⟩
  | .arr av, b, c, hab, hbc => by
    obtain ⟨bv, rfl, hlen, hitems⟩ := jsonDeepEqual_arr.mp hab
    obtain ⟨cv, rfl, hlen', hitems'⟩ := jsonDeepEqual_arr.mp hbc
    exact jsonDeepEqual_arr.mpr ⟨cv, rfl, hlen.trans hlen', itemsDeepEqual_trans hlen hitems hitems'⟩
  | .null, b, c, hab, hbc => by
    cases b <;> simp_all [jsonDeepEqual]
  | .bool x, b, c, hab, hbc => by
    cases b <;> simp_all [jsonDeepEqual]
  | .num x, b, c, hab, hbc => by
    cases b <;> simp_all [jsonDeepEqual]
  | .str x, b, c, hab, hbc => by
    cases b <;> simp_all [jsonDeepEqual]

theorem fieldsDeepEqual_trans : ∀ {am bm cm : List (String × Json)},
    fieldsDeepEqual am bm = true → fieldsDeepEqual bm cm = true → fieldsDeepEqual am cm = true
  | [], _, _, _, _ => by rw [fieldsDeepEqual]
  | (k, v) :: rest, bm, cm, hab, hbc => by
    rw [fieldsDeepEqual, Bool.and_eq_true] at hab ⊢
    obtain ⟨hhead, hrest⟩ := hab
    refine ⟨?_, fieldsDeepEqual_trans hrest hbc⟩
    cases hb : bm.lookup k with
    | none =>
      rw [hb] at hhead
      cases hhead
    | some bv =>
      rw [hb] at hhead
      obtain ⟨cv, hc, hv⟩ := fieldsDeepEqual_lookup hbc hb
      rw [hc]
      exact jsonDeepEqual_trans hhead hv

theorem itemsDeepEqual_trans : ∀ {av bv cv : List Json}, av.length = bv.length →
    itemsDeepEqual av bv = true → itemsDeepEqual bv cv = true → itemsDeepEqual av cv = true
  | [], _, _, _, _, _ => by simp [itemsDeepEqual]
  | _ :: _, _, [], _, _, _ => by simp [itemsDeepEqual]
  | x :: xs, y :: ys, z :: zs, hlen, hab, hbc => by
    rw [itemsDeepEqual, Bool.and_eq_true] at hab hbc ⊢
    have hlen' : xs.length = ys.length := by simpa using hlen
    exact ⟨jsonDeepEqual_trans hab.1 hbc.1, itemsDeepEqual_trans hlen' hab.2 hbc.2⟩

end

mutual

/-- A value whose objects hold each key once equals itself. -/
theorem jsonDeepEqual_refl : ∀ {v : Json}, v.Proper → jsonDeepEqual v v = true
  | .obj fields, .obj _ hkeys hall =>
    jsonDeepEqual_obj.mpr ⟨fields, rfl, rfl, fieldsDeepEqual_refl hkeys (fun _ h => h) hall⟩
  | .arr items, .arr _ hall => jsonDeepEqual_arr.mpr ⟨items, rfl, rfl, itemsDeepEqual_refl hall⟩
  | .null, _ => by simp [jsonDeepEqual]
  | .bool _, _ => by simp [jsonDeepEqual]
  | .num _, _ => by simp [jsonDeepEqual]
  | .str _, _ => by simp [jsonDeepEqual]

theorem fieldsDeepEqual_refl : ∀ {part all : List (String × Json)}, (all.map Prod.fst).Nodup →
    (∀ f ∈ part, f ∈ all) → (∀ f ∈ part, f.2.Proper) → fieldsDeepEqual part all = true
  | [], _, _, _, _ => by simp [fieldsDeepEqual]
  | (k, v) :: rest, all, hkeys, hsub, hproper => by
    have hlookup : all.lookup k = some v := lookup_of_mem hkeys (hsub (k, v) List.mem_cons_self)
    rw [fieldsDeepEqual, hlookup, Bool.and_eq_true]
    refine ⟨jsonDeepEqual_refl (hproper (k, v) List.mem_cons_self), ?_⟩
    exact fieldsDeepEqual_refl hkeys (fun f hf => hsub f (List.mem_cons_of_mem _ hf))
      fun f hf => hproper f (List.mem_cons_of_mem _ hf)

theorem itemsDeepEqual_refl : ∀ {items : List Json}, (∀ v ∈ items, v.Proper) →
    itemsDeepEqual items items = true
  | [], _ => by simp [itemsDeepEqual]
  | x :: xs, hproper => by
    rw [itemsDeepEqual, Bool.and_eq_true]
    exact ⟨jsonDeepEqual_refl (hproper x List.mem_cons_self),
      itemsDeepEqual_refl fun v hv => hproper v (List.mem_cons_of_mem _ hv)⟩

end

end HiveClaw.Tools

namespace HiveClaw

open Tools

/-- The normal form in which the server keeps a document only changes the order of the
fields of its objects, which `json_deep_equal` does not look at. -/
structure Mysql.KeepsValues (m : Mysql) : Prop where
  there : ∀ v : Json, v.Proper → jsonDeepEqual v (m.jsonNormal v) = true
  back : ∀ v : Json, v.Proper → jsonDeepEqual (m.jsonNormal v) v = true

theorem Mysql.keepsValues_plain : Mysql.plain.KeepsValues where
  there _ hv := jsonDeepEqual_refl hv
  back _ hv := jsonDeepEqual_refl hv

variable {m : Mysql} {v w : Json}

theorem Mysql.KeepsValues.right (hm : m.KeepsValues) (hv : v.Proper)
    (h : jsonDeepEqual w v = true) : jsonDeepEqual w (m.jsonNormal v) = true :=
  jsonDeepEqual_trans h (hm.there v hv)

/-- What the database has stored compares as what was sent. -/
theorem Mysql.KeepsValues.left_iff (hm : m.KeepsValues) (hv : v.Proper) :
    jsonDeepEqual (m.jsonNormal v) w = true ↔ jsonDeepEqual v w = true :=
  ⟨jsonDeepEqual_trans (hm.there v hv), jsonDeepEqual_trans (hm.back v hv)⟩

end HiveClaw
