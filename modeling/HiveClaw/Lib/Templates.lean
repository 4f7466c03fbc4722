import HiveClaw.Lib.Scanner
import Mathlib.Algebra.GroupWithZero.Nat
import Mathlib.Data.List.Nodup

/-!
# Templates that are filled by replacing text

A template is a text with holes: names between two delimiters. Filling it by
replacing the placeholders of one variable after the other, each in the text
that the one before has left, need not be the substitution of all variables at
once: the text of a value may look like a placeholder, alone or together with
what stands beside it.

* `Scans.strip_eq_iff`, `Scans.drop_eq_iff` — a scanner writes its output for the
  marked matches alone if and only if it finds no others.
* `pieces`, `substitute` — the holes of a template, and all of them filled at
  once.
* `fill_eq_iff` — when filling one variable after the other is the same, for any
  of the variables in any order.
-/

namespace Lib.Scanner

variable {α : Type} {after : List α → Option (List α)} {out : List α} {R : List α → List α}
  {a b : List (Tok α)} {xs : List (List α)} {o : α}

-- ---
-- Matches among the characters
-- ---

/-- Some of the kept characters are taken together as matches; the last list holds their texts. -/
inductive Groups : List (Tok α) → List (Tok α) → List (List α) → Prop
  | nil : Groups [] [] []
  | keep (t : Tok α) {a b : List (Tok α)} {xs : List (List α)} :
      Groups a b xs → Groups (t :: a) (t :: b) xs
  | group (x : List α) {a b : List (Tok α)} {xs : List (List α)} :
      Groups a b xs → Groups (x.map Tok.char ++ a) (.hit x :: b) (x :: xs)

/-- A match stands among the tokens. -/
def Marked (toks : List (Tok α)) : Prop := ∃ x, Tok.hit x ∈ toks

theorem chars_output (out l : List α) : (l.map Tok.char).flatMap (Tok.output out) = l := by
  induction l with
  | nil => rfl
  | cons c rest ih => simp [Tok.output, ih]

namespace Groups

theorem render_eq (h : Groups a b xs) : Scanner.render a = Scanner.render b := by
  induction h with
  | nil => rfl
  | keep t _ ih => rw [render_cons, render_cons, ih]
  | group x _ ih => rw [render_append, render_chars, render_cons, ih, Tok.text]

theorem eq_of_nil (h : Groups a b xs) (hxs : xs = []) : a = b := by
  induction h with
  | nil => rfl
  | keep t _ ih => rw [ih hxs]
  | group x _ _ => cases hxs

theorem hit_mem (h : Groups a b xs) : ∀ x ∈ xs, .hit x ∈ b := by
  induction h with
  | nil => exact nofun
  | keep t _ ih => exact fun x hx => List.mem_cons_of_mem _ (ih x hx)
  | group y _ ih =>
    intro x hx
    rcases List.mem_cons.mp hx with rfl | hx
    · exact List.mem_cons_self
    · exact List.mem_cons_of_mem _ (ih x hx)

/-- Each group has its output in the place of its text. -/
theorem length_output (h : Groups a b xs) (out : List α) :
    (b.flatMap (Tok.output out)).length + (xs.map List.length).sum =
      (a.flatMap (Tok.output out)).length + xs.length * out.length := by
  induction h with
  | nil => simp
  | keep t _ ih =>
    simp only [List.flatMap_cons, List.length_append]
    omega
  | group x _ ih =>
    simp only [List.flatMap_cons, List.flatMap_append, chars_output, List.length_append,
      List.map_cons, List.sum_cons, List.length_cons, Nat.succ_mul, Tok.output]
    omega

/-- An output as long as the groups that leaves the text as it is, is their text. -/
theorem nil_of_output (h : Groups a b xs) {p : List α} (hp : ∀ x ∈ xs, x = p)
    (hlen : p.length = out.length) (hout : out ≠ p)
    (heq : a.flatMap (Tok.output out) = b.flatMap (Tok.output out)) : xs = [] := by
  induction h with
  | nil => rfl
  | keep t _ ih =>
    rw [List.flatMap_cons, List.flatMap_cons] at heq
    exact ih hp (List.append_cancel_left heq)
  | group x _ _ =>
    rw [List.flatMap_append, chars_output, List.flatMap_cons, Tok.output,
      hp x List.mem_cons_self] at heq
    exact absurd (List.append_inj_left heq hlen).symm hout

end Groups

variable {toks : List (Tok α)} {t : List α}

/-- A text without the mark at which matches begin covers none of them. -/
theorem chars_of_render {x : List α} (hhits : ∀ y, .hit y ∈ toks → ∃ y', y = o :: y')
    (hx : Marked toks → o ∉ x) (h : Scanner.render toks = x ++ t) :
    ∃ rest, toks = x.map Tok.char ++ rest ∧ Scanner.render rest = t := by
  induction x generalizing toks with
  | nil => exact ⟨toks, rfl, h⟩
  | cons d x ih =>
    cases toks with
    | nil => cases h
    | cons tok rest =>
      cases tok with
      | char c =>
        obtain ⟨rfl, htail⟩ := List.cons.inj h
        obtain ⟨rest', rfl, hrest'⟩ := ih
          (fun y hy => hhits y (List.mem_cons_of_mem _ hy))
          (fun ⟨y, hy⟩ hmem =>
            hx ⟨y, List.mem_cons_of_mem _ hy⟩ (List.mem_cons_of_mem _ hmem)) htail
        exact ⟨rest', rfl, hrest'⟩
      | hit y =>
        obtain ⟨y', rfl⟩ := hhits y List.mem_cons_self
        have hd : o = d := (List.cons.inj h).1
        exact absurd (hd ▸ List.mem_cons_self) (hx ⟨_, List.mem_cons_self⟩)

/-- What a scanner finds in a text with marked matches: these, and groups of other characters.
Matches begin with a mark, and where there are marked ones they hold it nowhere else. -/
theorem exists_groups
    (hmatch : ∀ text t, after text = some t → ∃ x, text = o :: x ++ t ∧ (Marked toks → o ∉ x))
    (hhits : ∀ y, .hit y ∈ toks → (∃ y', y = o :: y') ∧ ∀ r, after (y ++ r) = some r) :
    ∃ b xs, Groups toks b xs ∧ Exact after b := by
  induction hn : toks.length using Nat.strong_induction_on generalizing toks with
  | _ n ih =>
    have hsmaller : ∀ rest, rest.length < n → (∀ t ∈ rest, t ∈ toks) →
        ∃ b xs, Groups rest b xs ∧ Exact after b := by
      intro rest hlen hsub
      refine ih rest.length hlen (fun text t h => ?_) (fun y hy => hhits y (hsub _ hy)) rfl
      obtain ⟨x, htext, hx⟩ := hmatch text t h
      exact ⟨x, htext, fun ⟨y, hy⟩ => hx ⟨y, hsub _ hy⟩⟩
    cases toks with
    | nil => exact ⟨[], [], .nil, trivial⟩
    | cons tok rest =>
      rw [List.length_cons] at hn
      have hrest := hsmaller rest (by omega) fun t ht => List.mem_cons_of_mem _ ht
      cases tok with
      | hit y =>
        obtain ⟨b, xs, hgroups, hexact⟩ := hrest
        obtain ⟨⟨y', rfl⟩, hafter⟩ := hhits y List.mem_cons_self
        exact ⟨_, xs, .keep _ hgroups, List.cons_ne_nil _ _, hafter _, hexact⟩
      | char c =>
        cases hafter : after (c :: Scanner.render rest) with
        | none =>
          obtain ⟨b, xs, hgroups, hexact⟩ := hrest
          exact ⟨_, xs, .keep _ hgroups, hgroups.render_eq ▸ hafter, hexact⟩
        | some t =>
          obtain ⟨x, htext, hx⟩ := hmatch _ t hafter
          obtain ⟨rfl, htail⟩ := List.cons.inj htext
          obtain ⟨rest', rfl, rfl⟩ := chars_of_render
            (fun y hy => (hhits y (List.mem_cons_of_mem _ hy)).1)
            (fun ⟨y, hy⟩ => hx ⟨y, List.mem_cons_of_mem _ hy⟩) htail
          rw [List.length_append] at hn
          obtain ⟨b, xs, hgroups, hexact⟩ := hsmaller rest' (by omega) fun t ht =>
            List.mem_cons_of_mem _ (List.mem_append_right _ ht)
          refine ⟨_, _, .group (c :: x) hgroups, List.cons_ne_nil _ _, ?_, hexact⟩
          rw [← hgroups.render_eq]
          rw [htext] at hafter
          exact hafter

theorem Exact.hit {toks : List (Tok α)} (h : Exact after toks) {x : List α}
    (hx : .hit x ∈ toks) : x ≠ [] ∧ ∃ r, after (x ++ r) = some r := by
  induction toks with
  | nil => cases hx
  | cons tok rest ih =>
    cases tok with
    | char c => exact ih h.2 (by simpa using hx)
    | hit y =>
      rcases List.mem_cons.mp hx with heq | hmem
      · cases heq
        exact ⟨h.1, _, h.2.1⟩
      · exact ih h.2.2 hmem

/-- A scanner that drops its matches drops the marked ones alone, if and only if it finds no
others. -/
theorem Scans.drop_eq_iff (hR : Scans after [] R) {toks : List (Tok α)}
    (hmatch : ∀ text t, after text = some t →
      ∃ x, text = o :: x ++ t ∧ (Marked toks → o ∉ x))
    (hhits : ∀ y, .hit y ∈ toks → (∃ y', y = o :: y') ∧ ∀ r, after (y ++ r) = some r) :
    R (Scanner.render toks) = toks.flatMap (Tok.output []) ↔ Exact after toks := by
  refine ⟨fun h => ?_, hR.render⟩
  obtain ⟨b, xs, hgroups, hexact⟩ := exists_groups hmatch hhits
  rw [hgroups.render_eq, hR.render hexact] at h
  have hsum : (xs.map List.length).sum = 0 := by
    have hlen := hgroups.length_output []
    rw [h, List.length_nil, Nat.mul_zero] at hlen
    omega
  have hxs : xs = [] := by
    refine List.eq_nil_iff_forall_not_mem.mpr fun x hx => ?_
    have hzero :=
      List.sum_eq_zero_iff_forall_eq_nat.mp hsum x.length (List.mem_map_of_mem hx)
    exact (hexact.hit (hgroups.hit_mem x hx)).1 (List.length_eq_zero_iff.mp hzero)
  rw [hgroups.eq_of_nil hxs]
  exact hexact

variable [DecidableEq α]

theorem strip_match {p text : List α} (h : strip p text = some t) : text = p ++ t := by
  unfold strip at h
  split at h
  · next hprefix =>
    obtain ⟨r, rfl⟩ := List.isPrefixOf_iff_prefix.mp hprefix
    cases h
    rw [List.drop_left]
  · cases h

/-- A pattern replaced in a text is replaced at the marked places alone, if and only if it stands
nowhere else or is its own replacement. -/
theorem Scans.strip_eq_iff {q : List α} (hR : Scans (strip (o :: q)) out R)
    (hhits : ∀ y, .hit y ∈ toks → y = o :: q) (hq : Marked toks → o ∉ q) :
    R (Scanner.render toks) = toks.flatMap (Tok.output out) ↔
      out = o :: q ∨ Exact (strip (o :: q)) toks := by
  have hfound : ∃ b xs, Groups toks b xs ∧ Exact (strip (o :: q)) b :=
    exists_groups (fun text t h => ⟨q, strip_match h, hq⟩)
      (fun y hy => ⟨⟨q, hhits y hy⟩, fun r => hhits y hy ▸ strip_append _ r⟩)
  obtain ⟨b, xs, hgroups, hexact⟩ := hfound
  have hpattern : ∀ x, .hit x ∈ b → x = o :: q := by
    intro x hx
    obtain ⟨-, r, hr⟩ := hexact.hit hx
    exact List.append_cancel_right (strip_match hr)
  have hxs : ∀ x ∈ xs, x = o :: q := fun x hx => hpattern x (hgroups.hit_mem x hx)
  rw [hgroups.render_eq, hR.render hexact]
  constructor
  · intro h
    by_cases hout : out = o :: q
    · exact Or.inl hout
    refine Or.inr ?_
    have hnil : xs = [] := by
      by_cases hlen : (o :: q).length = out.length
      · exact hgroups.nil_of_output hxs hlen hout h.symm
      · have hsum : (xs.map List.length).sum = xs.length * (o :: q).length := by
          rw [List.map_congr_left fun x hx => congrArg List.length (hxs x hx), List.map_const',
            List.sum_replicate_nat]
        have hcount := hgroups.length_output out
        rw [h, hsum, Nat.add_left_cancel_iff] at hcount
        refine List.length_eq_zero_iff.mp ?_
        by_contra hpos
        exact hlen (Nat.eq_of_mul_eq_mul_left (Nat.pos_of_ne_zero hpos) hcount)
    rw [hgroups.eq_of_nil hnil]
    exact hexact
  · rintro (rfl | h)
    · have hself : ∀ toks : List (Tok α), (∀ y, .hit y ∈ toks → y = o :: q) →
          toks.flatMap (Tok.output (o :: q)) = Scanner.render toks := by
        intro toks hall
        refine List.flatMap_congr fun t ht => ?_
        cases t with
        | char c => rfl
        | hit y => exact (hall y ht).symm
      rw [hself b hpattern, hself toks hhits, hgroups.render_eq]
    · rw [← hR.render hexact, ← hgroups.render_eq, hR.render h]

end Lib.Scanner

namespace Lib.Templates

open Scanner

variable {α : Type} (o c : α)

-- ---
-- Holes
-- ---

/-- A character of a template, or a hole for what has this name. -/
inductive Piece (α : Type) where
  | char (d : α)
  | hole (name : List α)

/-- The placeholder of a name. -/
def quote (name : List α) : List α := o :: (name ++ [c])

def Piece.text : Piece α → List α
  | .char d => [d]
  | .hole name => quote o c name

/-- A hole is filled if there is a value for it. -/
def Piece.fill (value : List α → Option (List α)) : Piece α → List α
  | .char d => [d]
  | .hole name => (value name).getD (quote o c name)

/-- All holes filled at once. -/
def substitute (value : List α → Option (List α)) (template : List (Piece α)) : List α :=
  template.flatMap (Piece.fill o c value)

/-- A hole without value is marked if it is asked for. -/
def Piece.mark (value : List α → Option (List α)) (asked : List α → Bool) :
    Piece α → List (Tok α)
  | .char d => [.char d]
  | .hole name =>
    match value name with
    | some v => v.map .char
    | none => if asked name then [.hit (quote o c name)] else (quote o c name).map .char

/-- The text with the holes filled that have a value, and marks on those that are asked for. -/
def marked (value : List α → Option (List α)) (asked : List α → Bool)
    (template : List (Piece α)) : List (Tok α) :=
  template.flatMap (Piece.mark o c value asked)

section Marked

variable {o c} {value : List α → Option (List α)} {asked : List α → Bool}
  {template : List (Piece α)}

theorem render_marked :
    render (marked o c value asked template) = substitute o c value template := by
  rw [render, marked, List.flatMap_assoc, substitute]
  refine List.flatMap_congr fun p _ => ?_
  cases p with
  | char d => rfl
  | hole name =>
    rw [Piece.mark, Piece.fill]
    split
    · next v hv => exact hv ▸ render_chars v
    · next hnone =>
      rw [hnone, Option.getD_none]
      split
      · exact List.flatMap_singleton _ _
      · exact render_chars _

/-- The marked holes filled with one text. -/
theorem output_marked (out : List α) :
    (marked o c value asked template).flatMap (Tok.output out) =
      substitute o c (fun name => (value name).or (if asked name then some out else none))
        template := by
  rw [marked, List.flatMap_assoc, substitute]
  refine List.flatMap_congr fun p _ => ?_
  cases p with
  | char d => rfl
  | hole name =>
    rw [Piece.mark, Piece.fill]
    split
    · next v hv => rw [hv, chars_output, Option.some_or, Option.getD_some]
    · next hnone =>
      rw [hnone, Option.none_or]
      split
      · exact List.flatMap_singleton _ _
      · rw [chars_output, Option.getD_none]

theorem hit_marked {x : List α} (h : .hit x ∈ marked o c value asked template) :
    ∃ name, .hole name ∈ template ∧ asked name = true ∧ x = quote o c name := by
  obtain ⟨p, hp, hx⟩ := List.mem_flatMap.mp h
  cases p with
  | char d => simp [Piece.mark] at hx
  | hole name =>
    rw [Piece.mark] at hx
    split at hx
    · simp at hx
    split at hx
    · next hasked =>
      exact ⟨name, hp, hasked, by simpa using hx⟩
    · simp at hx

end Marked

-- ---
-- The holes of a text
-- ---

variable [DecidableEq α]

-- the name before the next delimiter, if that is the closing one
def takeName : List (Piece α) → Option (List α × List (Piece α))
  | .char d :: rest =>
    if d = c then some ([], rest)
    else if d = o then none
    else (takeName rest).map fun r => (d :: r.1, r.2)
  | _ => none

/-- A text as a template: a hole is a name without delimiters between an opening and a closing
one. -/
def pieces : List α → List (Piece α)
  | [] => []
  | d :: rest =>
    let tail := pieces rest
    if d = o then
      match takeName o c tail with
      | some (name, after) => .hole name :: after
      | none => .char d :: tail
    else .char d :: tail

theorem takeName_eq_some {tail after : List (Piece α)} {name : List α}
    (h : takeName o c tail = some (name, after)) :
    tail = (name ++ [c]).map Piece.char ++ after ∧ o ∉ name := by
  induction tail generalizing name with
  | nil => cases h
  | cons p rest ih =>
    cases p with
    | hole n => cases h
    | char d =>
      rw [takeName] at h
      split at h
      · next hc =>
        cases h
        subst hc
        exact ⟨rfl, List.not_mem_nil⟩
      split at h
      · cases h
      · next ho =>
        obtain ⟨r, hr, heq⟩ := Option.map_eq_some_iff.mp h
        cases heq
        obtain ⟨rfl, hname⟩ := ih hr
        refine ⟨rfl, ?_⟩
        rw [List.mem_cons, not_or]
        exact ⟨Ne.symm ho, hname⟩

/-- The holes of a text have names without opening delimiters. -/
theorem hole_clean {t name : List α} (h : .hole name ∈ pieces o c t) : o ∉ name := by
  induction t with
  | nil => cases h
  | cons d rest ih =>
    simp only [pieces] at h
    split at h
    · split at h
      · next n after hname =>
        obtain ⟨htail, hclean⟩ := takeName_eq_some o c hname
        rcases List.mem_cons.mp h with heq | hmem
        · cases heq
          exact hclean
        · exact ih (htail ▸ List.mem_append_right _ hmem)
      · exact ih (by simpa using h)
    · exact ih (by simpa using h)

/-- A template is its text. -/
theorem pieces_text (t : List α) : (pieces o c t).flatMap (Piece.text o c) = t := by
  induction t with
  | nil => rfl
  | cons d rest ih =>
    have hchar : ∀ l : List α, (l.map Piece.char).flatMap (Piece.text o c) = l := by
      intro l
      induction l with
      | nil => rfl
      | cons e l ihl => simp [Piece.text, ihl]
    simp only [pieces]
    split
    · next hd =>
      subst hd
      split
      · next n after hname =>
        obtain ⟨htail, -⟩ := takeName_eq_some _ _ hname
        rw [htail, List.flatMap_append, hchar] at ih
        rw [List.flatMap_cons, ← ih]
        simp [Piece.text, quote]
      · rw [List.flatMap_cons, ih]
        rfl
    · rw [List.flatMap_cons, ih]
      rfl

-- ---
-- One variable after the other
-- ---

variable {ι : Type} (name value : ι → List α) (replace : List α → List α → List α → List α)

/-- The value for a name. -/
def assigned (vars : List ι) (n : List α) : Option (List α) :=
  (vars.find? fun i => name i = n).map value

/-- The placeholders of one variable after the other are replaced. -/
def fill (vars : List ι) (text : List α) : List α :=
  vars.foldl (fun text i => replace (quote o c (name i)) (value i) text) text

/-- Some of the variables in some order. -/
def Part (vars part : List ι) : Prop := (part.map name).Nodup ∧ part ⊆ vars

/-- With some variables filled, the placeholder of another stands at its holes alone. -/
def Apart (part : List ι) (i : ι) (t : List α) : Prop :=
  Exact (strip (quote o c (name i)))
    (marked o c (assigned name value part) (fun n => n = name i) (pieces o c t))

variable {o c name value replace}

variable {part : List ι}

theorem assigned_concat {i : ι} (n : List α) :
    assigned name value (part ++ [i]) n =
      (assigned name value part n).or (if decide (n = name i) then some (value i) else none) := by
  rw [assigned, List.find?_append, Option.map_or, ← assigned, List.find?_singleton]
  by_cases h : name i = n
  · simp [h]
  · simp [h, Ne.symm h]

/-- Without variables a text stays as it is. -/
theorem substitute_nil (t : List α) :
    substitute o c (assigned name value []) (pieces o c t) = t := by
  conv_rhs => rw [← pieces_text o c t]
  refine List.flatMap_congr fun p _ => ?_
  cases p <;> rfl

/-- The value for a name does not depend on the order of the variables. -/
theorem assigned_perm {part' : List ι} (hpart : (part.map name).Nodup) (hperm : part.Perm part') :
    assigned name value part = assigned name value part' := by
  have hsome : ∀ part, (part.map name).Nodup → ∀ n v,
      assigned name value part n = some v ↔ ∃ i ∈ part, name i = n ∧ value i = v := by
    intro part hnodup n v
    rw [assigned, Option.map_eq_some_iff]
    constructor
    · rintro ⟨i, hi, hv⟩
      have hname := List.find?_some hi
      exact ⟨i, List.mem_of_find?_eq_some hi, of_decide_eq_true hname, hv⟩
    · rintro ⟨i, hi, rfl, hv⟩
      have hfound : (part.find? fun j => decide (name j = name i)).isSome :=
        List.find?_isSome.mpr ⟨i, hi, decide_eq_true rfl⟩
      obtain ⟨j, hj⟩ := Option.isSome_iff_exists.mp hfound
      have hname := List.find?_some hj
      have hij : j = i := List.inj_on_of_nodup_map hnodup (List.mem_of_find?_eq_some hj) hi
        (of_decide_eq_true hname)
      exact ⟨j, hj, hij ▸ hv⟩
  funext n
  refine Option.ext fun v => ?_
  rw [hsome part hpart, hsome part' ((hperm.map name).nodup_iff.mp hpart)]
  exact exists_congr fun i => and_congr_left fun _ => hperm.mem_iff

/-- Replacing the placeholders of one more variable fills its holes, and nothing else, if and only
if they stand nowhere else or are their own value. -/
theorem replace_eq_iff (hoc : o ≠ c)
    (hreplace : ∀ n v, Scans (strip (quote o c n)) v (replace (quote o c n) v))
    (part : List ι) (i : ι) (t : List α) :
    replace (quote o c (name i)) (value i) (substitute o c (assigned name value part)
        (pieces o c t)) =
        substitute o c (assigned name value (part ++ [i])) (pieces o c t) ↔
      value i = quote o c (name i) ∨ Apart o c name value part i t := by
  have hfilled : (marked o c (assigned name value part) (fun n => n = name i)
      (pieces o c t)).flatMap (Tok.output (value i)) =
        substitute o c (assigned name value (part ++ [i])) (pieces o c t) := by
    rw [output_marked]
    simp only [← assigned_concat]
  have hbefore : render (marked o c (assigned name value part) (fun n => n = name i)
      (pieces o c t)) = substitute o c (assigned name value part) (pieces o c t) := render_marked
  rw [← hfilled, ← hbefore]
  refine Scans.strip_eq_iff (hreplace _ _) (fun y hy => ?_) fun ⟨y, hy⟩ => ?_
  · obtain ⟨n, -, hn, rfl⟩ := hit_marked hy
    rw [of_decide_eq_true hn]
    rfl
  · obtain ⟨n, hhole, hn, -⟩ := hit_marked hy
    rw [of_decide_eq_true hn] at hhole
    rw [List.mem_append, List.mem_singleton, not_or]
    exact ⟨hole_clean o c hhole, hoc⟩

/-- Filling any of the variables one after the other, in any order, is substitution at once, if and
only if no placeholder stands outside its holes once others are filled, unless it is its own
value. -/
theorem fill_eq_iff (hoc : o ≠ c)
    (hreplace : ∀ n v, Scans (strip (quote o c n)) v (replace (quote o c n) v))
    (vars : List ι) (t : List α) :
    (∀ part, Part name vars part →
      fill o c name value replace part t =
        substitute o c (assigned name value part) (pieces o c t)) ↔
      ∀ part, Part name vars part → ∀ i ∈ vars, name i ∉ part.map name →
        value i = quote o c (name i) ∨ Apart o c name value part i t := by
  have hconcat : ∀ part i, fill o c name value replace (part ++ [i]) t =
      replace (quote o c (name i)) (value i) (fill o c name value replace part t) :=
    fun part i => List.foldl_append
  constructor
  · intro h part hpart i hi hnew
    refine (replace_eq_iff hoc hreplace part i t).mp ?_
    rw [← h part hpart, ← hconcat]
    refine h _ ⟨?_, List.append_subset.mpr ⟨hpart.2, by simpa using hi⟩⟩
    rw [List.map_append, List.map_singleton, List.nodup_append]
    refine ⟨hpart.1, List.nodup_singleton _, fun n hn m hm heq => ?_⟩
    rw [List.mem_singleton.mp hm] at heq
    exact hnew (heq ▸ hn)
  · intro h part
    induction part using List.reverseRecOn with
    | nil =>
      intro _
      exact (substitute_nil t).symm
    | append_singleton part i ih =>
      rintro ⟨hnames, hsub⟩
      rw [List.map_append, List.map_singleton, List.nodup_append] at hnames
      obtain ⟨hpart, hi⟩ := List.append_subset.mp hsub
      rw [hconcat, ih ⟨hnames.1, hpart⟩]
      refine (replace_eq_iff hoc hreplace part i t).mpr ?_
      refine h part ⟨hnames.1, hpart⟩ i (by simpa using hi) fun hmem => ?_
      exact hnames.2.2 _ hmem _ (List.mem_singleton_self _) rfl

end Lib.Templates
