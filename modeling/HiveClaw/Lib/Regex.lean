import Mathlib.Data.List.Infix

/-!
# Patterns with priorities

Regular expressions as a backtracking matcher reads them: of the ways to match at a place the first
counts, and a text is searched from the left. Patterns that match the empty text are left aside.

* `head?_ends_run` — a run of a class ends at the first character that is not in it.
* `matchAt_block` — what stands between an opening and a closing mark, up to the first closing one.
* `length_ends` — a match consumes at least as many characters as its pattern has.
* `of_mem_captures` — what holds of the group of every match holds of all groups of a text.
-/

namespace Lib

/-- A pattern. -/
inductive Regex where
  | lit (text : List Char)
  | one (p : Char → Bool)
  | seq (r s : Regex)
  | alt (r s : Regex)
  | star (greedy : Bool) (r : Regex)
  | textStart
  | textEnd
  | lineEnd
  | group (r : Regex)

namespace Regex

/-- Where a match stands: the group it has, and the text that is left. -/
structure Place where
  group : Option (List Char) := none
  rest : List Char

/-- The repetitions of a step, in the order in which they are tried. -/
def repeats (greedy : Bool) (step : Place → List Place) : Nat → Place → List Place
  | 0, p => [p]
  | fuel + 1, p =>
    let more := ((step p).filter fun q => q.rest.length < p.rest.length).flatMap
      (repeats greedy step fuel)
    if greedy then more ++ [p] else p :: more

/-- The places where a match can end, in the order in which they are tried, in a text of `total`
characters. -/
def ends (total : Nat) : Regex → Place → List Place
  | lit text, p =>
    if text.isPrefixOf p.rest then [{ p with rest := p.rest.drop text.length }] else []
  | one f, p =>
    match p.rest with
    | c :: rest => if f c then [{ p with rest }] else []
    | [] => []
  | seq r s, p => (r.ends total p).flatMap (s.ends total)
  | alt r s, p => r.ends total p ++ s.ends total p
  -- every repetition consumes a character
  | star greedy r, p => repeats greedy (r.ends total) p.rest.length p
  | textStart, p => if p.rest.length = total then [p] else []
  | textEnd, p => if p.rest.isEmpty then [p] else []
  | lineEnd, p => if p.rest.isEmpty || p.rest.head? == some '\n' then [p] else []
  | group r, p =>
    (r.ends total p).map fun q =>
      { q with group := some (p.rest.take (p.rest.length - q.rest.length)) }

/-- The match at the front of what is left of a text. -/
def matchAt (r : Regex) (total : Nat) (text : List Char) : Option Place :=
  (r.ends total { rest := text }).head?

/-- The groups of the matches, after `skip` characters that belong to a match already. -/
def capturesFrom (r : Regex) (total : Nat) : Nat → List Char → List (List Char)
  | _, [] => []
  | skip + 1, _ :: text => capturesFrom r total skip text
  | 0, c :: text =>
    match r.matchAt total (c :: text) with
    | some p => p.group.toList ++ capturesFrom r total (text.length - p.rest.length) text
    | none => capturesFrom r total 0 text

/-- The groups of all matches. -/
def captures (r : Regex) (text : List Char) : List (List Char) :=
  capturesFrom r text.length 0 text

/-- The text with its matches replaced, after `skip` characters that belong to a match already. -/
def replaceFrom (r : Regex) (f : List Char → List Char) (total : Nat) :
    Nat → List Char → List Char
  | _, [] => []
  | skip + 1, _ :: text => replaceFrom r f total skip text
  | 0, c :: text =>
    match r.matchAt total (c :: text) with
    | some p =>
      f ((c :: text).take (text.length + 1 - p.rest.length)) ++
        replaceFrom r f total (text.length - p.rest.length) text
    | none => c :: replaceFrom r f total 0 text

/-- The text with all matches replaced. -/
def replaceAll (r : Regex) (f : List Char → List Char) (text : List Char) : List Char :=
  replaceFrom r f text.length 0 text

/-! ## Common patterns -/

/-- Any character. -/
def any : Regex := one fun _ => true

/-- A pattern or nothing, if possible the pattern. -/
def opt (r : Regex) : Regex := alt r (lit [])

/-- Patterns one after the other. -/
def chain : List Regex → Regex
  | [] => lit []
  | [r] => r
  | r :: rs => seq r (chain rs)

/-- One of several texts. -/
def oneOf : List String → Regex
  | [] => one fun _ => false
  | [text] => lit text.toList
  | text :: texts => alt (lit text.toList) (oneOf texts)

/-- One or more characters of a class, as many as possible. -/
def run (f : Char → Bool) : Regex := seq (one f) (star true (one f))

/-- As many characters of a class as possible: up to the first one that is not in it. -/
theorem head?_ends_star (f : Char → Bool) (total : Nat) (p : Place) :
    ((star true (one f)).ends total p).head? = some { p with rest := p.rest.dropWhile f } := by
  have hrepeats : ∀ (fuel : Nat) (p : Place), p.rest.length ≤ fuel →
      (repeats true ((one f).ends total) fuel p).head? =
        some { p with rest := p.rest.dropWhile f } := by
    intro fuel
    induction fuel with
    | zero =>
      intro p hp
      obtain ⟨group, rest⟩ := p
      obtain rfl := List.length_eq_zero_iff.mp (Nat.le_zero.mp hp)
      rfl
    | succ fuel ih =>
      intro p hp
      obtain ⟨group, rest⟩ := p
      cases rest with
      | nil => rfl
      | cons c rest =>
        have hle : rest.length ≤ fuel := Nat.le_of_succ_le_succ hp
        rw [repeats, List.dropWhile_cons]
        by_cases hc : f c = true
        · have hstep : (one f).ends total ⟨group, c :: rest⟩ = [⟨group, rest⟩] := if_pos hc
          rw [hstep, if_pos hc]
          have hfilter : [Place.mk group rest].filter (fun q =>
              decide (q.rest.length < (Place.mk group (c :: rest)).rest.length)) =
                [⟨group, rest⟩] := by
            simp
          rw [hfilter, List.flatMap_singleton, if_pos rfl, List.head?_append, ih _ hle,
            Option.some_or]
        · have hstep : (one f).ends total ⟨group, c :: rest⟩ = [] := if_neg hc
          rw [hstep, if_neg hc]
          rfl
  exact hrepeats p.rest.length p (Nat.le_refl _)

/-- A run of a class is as long as possible. -/
theorem head?_ends_run (f : Char → Bool) (total : Nat) (p : Place) :
    ((run f).ends total p).head? =
      if p.rest.takeWhile f = [] then none else some { p with rest := p.rest.dropWhile f } := by
  obtain ⟨group, rest⟩ := p
  cases rest with
  | nil => rfl
  | cons c rest =>
    show (((one f).ends total ⟨group, c :: rest⟩).flatMap _).head? = _
    rw [List.takeWhile_cons, List.dropWhile_cons]
    by_cases hc : f c = true
    · have hstep : (one f).ends total ⟨group, c :: rest⟩ = [⟨group, rest⟩] := if_pos hc
      rw [hstep, List.flatMap_singleton, head?_ends_star, if_pos hc, if_pos hc,
        if_neg (List.cons_ne_nil _ _)]
    · have hstep : (one f).ends total ⟨group, c :: rest⟩ = [] := if_neg hc
      rw [hstep, if_neg hc, if_neg hc]
      rfl

/-- The characters of a match are passed over. -/
theorem capturesFrom_skip (r : Regex) (total skip : Nat) (text : List Char) :
    capturesFrom r total skip text = capturesFrom r total 0 (text.drop skip) := by
  induction skip generalizing text with
  | zero => rfl
  | succ skip ih =>
    cases text with
    | nil => rfl
    | cons c text => exact ih text

/-! ## Blocks -/

/-- A block: an opening mark, as little as possible, and a closing mark. -/
def block (opening closing : List Char) : Regex :=
  chain [lit opening, group (star false any), lit closing]

/-- What stands before the first mark, and after it. -/
def cut (mark : List Char) : List Char → Option (List Char × List Char)
  | [] => if mark.isEmpty then some ([], []) else none
  | c :: text =>
    if mark.isPrefixOf (c :: text) then some ([], (c :: text).drop mark.length)
    else (cut mark text).map fun p => (c :: p.1, p.2)

variable {after before : List Char}

theorem length_le_of_cut {mark text : List Char} (h : cut mark text = some (before, after)) :
    mark.length ≤ text.length := by
  induction text generalizing before after with
  | nil =>
    rw [cut] at h
    split at h
    · rename_i hmark
      rw [List.isEmpty_iff.mp hmark]
    · cases h
  | cons c text ih =>
    rw [cut] at h
    split at h
    · rename_i hfront
      exact (List.isPrefixOf_iff_prefix.mp hfront).length_le
    · obtain ⟨p, hp, -⟩ := Option.map_eq_some_iff.mp h
      have hle := ih hp
      rw [List.length_cons]
      omega

/-- A mark that is found is found there in every longer text. -/
theorem cut_append {mark text : List Char} (h : cut mark text = some (before, after))
    (more : List Char) : cut mark (text ++ more) = some (before, after ++ more) := by
  induction text generalizing before after with
  | nil =>
    rw [cut] at h
    split at h
    · rename_i hmark
      obtain ⟨rfl, rfl⟩ := Prod.mk.inj (Option.some.inj h)
      obtain rfl := List.isEmpty_iff.mp hmark
      cases more with
      | nil => rfl
      | cons c more => rfl
    · cases h
  | cons c text ih =>
    rw [cut] at h
    rw [List.cons_append, cut]
    by_cases hfront : mark.isPrefixOf (c :: text) = true
    · rw [if_pos hfront] at h
      obtain ⟨rfl, rfl⟩ := Prod.mk.inj (Option.some.inj h)
      have hmark := List.isPrefixOf_iff_prefix.mp hfront
      have hlonger : mark.isPrefixOf (c :: (text ++ more)) = true :=
        List.isPrefixOf_iff_prefix.mpr (hmark.trans ⟨more, rfl⟩)
      rw [if_pos hlonger, ← List.cons_append, List.drop_append_of_le_length hmark.length_le]
    · rw [if_neg hfront] at h
      obtain ⟨p, hp, hp'⟩ := Option.map_eq_some_iff.mp h
      have hlonger : ¬ mark.isPrefixOf (c :: (text ++ more)) = true := by
        -- the mark ends within the text, so it would be there already
        intro hmark
        apply hfront
        rw [List.isPrefixOf_iff_prefix] at hmark ⊢
        have hle := length_le_of_cut hp
        exact List.prefix_of_prefix_length_le hmark ⟨more, rfl⟩ (by rw [List.length_cons]; omega)
      obtain ⟨rfl, rfl⟩ := Prod.mk.inj hp'
      rw [if_neg hlonger, ih hp, Option.map_some]

variable {text' : List Char}

theorem cut_suffix {mark text : List Char} (h : cut mark text = none) (hsuffix : text' <:+ text) :
    cut mark text' = none := by
  induction text with
  | nil =>
    rw [List.suffix_nil.mp hsuffix]
    exact h
  | cons c text ih =>
    rcases List.suffix_cons_iff.mp hsuffix with rfl | hsuffix
    · exact h
    · rw [cut] at h
      split at h
      · cases h
      · exact ih (Option.map_eq_none_iff.mp h) hsuffix

/-- As little as possible: the rests of the text, the longest first. -/
theorem repeats_any (total : Nat) (group : Option (List Char)) (text : List Char) :
    repeats false (any.ends total) text.length { group, rest := text } =
      text.tails.map fun rest => { group, rest } := by
  induction text with
  | nil => rfl
  | cons c text ih =>
    have hstep : (any.ends total { group, rest := c :: text }).filter
        (fun q => decide (q.rest.length < (c :: text).length)) = [{ group, rest := text }] := by
      simp [any, ends]
    rw [List.length_cons, repeats]
    dsimp only
    rw [hstep, List.flatMap_singleton, ih]
    rfl

/-- The first of the rests that starts with the mark is where the text is cut. -/
theorem head?_tails (mark before text : List Char) :
    (text.tails.flatMap fun rest =>
      if mark.isPrefixOf rest then
        [({ group := some ((before ++ text).take ((before ++ text).length - rest.length))
            rest := rest.drop mark.length } : Place)]
      else []).head? =
      (cut mark text).map fun p => { group := some (before ++ p.1), rest := p.2 } := by
  induction text generalizing before with
  | nil =>
    rw [cut]
    cases mark with
    | nil => simp
    | cons m mark => rfl
  | cons c text ih =>
    rw [List.tails_cons, List.flatMap_cons, cut]
    by_cases hmark : mark.isPrefixOf (c :: text) = true
    · rw [if_pos hmark, if_pos hmark, List.cons_append, List.head?_cons, Option.map_some]
      have hbefore : (before ++ c :: text).take ((before ++ c :: text).length -
          (c :: text).length) = before ++ [] := by
        rw [List.length_append, Nat.add_sub_cancel, List.take_left, List.append_nil]
      rw [hbefore]
    · rw [if_neg hmark, if_neg hmark, List.nil_append, Option.map_map]
      have hmove : before ++ c :: text = (before ++ [c]) ++ text := by simp
      rw [hmove, ih (before ++ [c])]
      congr 1
      funext p
      simp

/-- **Blocks.** A block is there if the text starts with the opening mark and the closing mark
follows; its group is what stands before the first closing mark. -/
theorem matchAt_block (opening closing : List Char) (total : Nat) (text : List Char) :
    (block opening closing).matchAt total text =
      if opening.isPrefixOf text then
        (cut closing (text.drop opening.length)).map fun p => { group := some p.1, rest := p.2 }
      else none := by
  unfold matchAt block chain chain chain
  rw [ends, ends]
  dsimp only
  split
  · rw [List.flatMap_singleton, ends, ends, ends]
    dsimp only
    rw [repeats_any, List.map_map, List.flatMap_map]
    exact head?_tails closing [] (text.drop opening.length)
  · rfl

variable {total : Nat} {p : Place}

/-- A block that is there is there in every longer text. -/
theorem matchAt_block_append {opening closing text : List Char}
    (h : (block opening closing).matchAt total text = some p) (total' : Nat) (more : List Char) :
    (block opening closing).matchAt total' (text ++ more) =
      some { p with rest := p.rest ++ more } := by
  rw [matchAt_block] at h ⊢
  split at h
  · rename_i hopening
    obtain ⟨⟨inner, rest⟩, hcut, rfl⟩ := Option.map_eq_some_iff.mp h
    have hfront := List.isPrefixOf_iff_prefix.mp hopening
    have hlonger : opening.isPrefixOf (text ++ more) = true :=
      List.isPrefixOf_iff_prefix.mpr (hfront.trans (List.prefix_append text more))
    rw [if_pos hlonger, List.drop_append_of_le_length hfront.length_le, cut_append hcut]
    rfl
  · cases h

/-- Where nothing starts a block there are no groups. -/
theorem capturesFrom_block_eq_nil {opening closing text : List Char}
    (h : ∀ text', text' <:+ text → (block opening closing).matchAt total text' = none)
    (skip : Nat) : capturesFrom (block opening closing) total skip text = [] := by
  induction text generalizing skip with
  | nil => cases skip <;> rfl
  | cons c text ih =>
    have hrest := ih fun text' hsuffix => h text' (hsuffix.trans (List.suffix_cons c text))
    cases skip with
    | zero =>
      rw [capturesFrom, h (c :: text) (List.suffix_refl _)]
      exact hrest 0
    | succ skip => exact hrest skip

/-- Where a block is completed by what follows, none was there before. -/
theorem matchAt_block_suffix {opening closing text more : List Char} {total' : Nat}
    (hnone : (block opening closing).matchAt total text = none)
    (hmore : (block opening closing).matchAt total' (text ++ more) = some p)
    (hsuffix : text' <:+ text) : (block opening closing).matchAt total text' = none := by
  rw [matchAt_block] at hnone hmore ⊢
  split at hmore
  case isFalse => cases hmore
  case isTrue hopening =>
    split
    case isFalse => rfl
    case isTrue hopening' =>
      -- the opening mark fits into the text, so only the closing one is missing
      have hfits : opening.length ≤ text.length :=
        (List.isPrefixOf_iff_prefix.mp hopening').length_le.trans hsuffix.length_le
      have hfront : opening.isPrefixOf text = true := by
        rw [List.isPrefixOf_iff_prefix] at hopening ⊢
        exact List.prefix_of_prefix_length_le hopening (List.prefix_append text more) hfits
      rw [if_pos hfront, Option.map_eq_none_iff] at hnone
      rw [Option.map_eq_none_iff]
      apply cut_suffix hnone
      obtain ⟨front, rfl⟩ := hsuffix
      have hdrop : text'.drop opening.length =
          (text'.drop (opening.length - front.length)).drop
            (opening.length - (opening.length - front.length)) := by
        rw [List.drop_drop]
        congr 1
        omega
      rw [List.drop_append, hdrop]
      exact (List.drop_suffix _ _).trans (List.suffix_append _ _)

/-- **Blocks of a growing text.** A text that grows keeps the blocks it has. -/
theorem capturesFrom_block_prefix (opening closing : List Char) (total total' : Nat)
    (text more : List Char) {skip : Nat} (hskip : skip ≤ text.length) :
    capturesFrom (block opening closing) total skip text <+:
      capturesFrom (block opening closing) total' skip (text ++ more) := by
  induction text generalizing skip with
  | nil => exact List.nil_prefix
  | cons c text ih =>
    cases skip with
    | succ skip => exact ih (by rw [List.length_cons] at hskip; omega)
    | zero =>
      rw [List.cons_append, capturesFrom, capturesFrom]
      cases hfound : (block opening closing).matchAt total (c :: text) with
      | some p =>
        have hlonger := matchAt_block_append hfound total' more
        rw [List.cons_append] at hlonger
        rw [hlonger]
        dsimp only
        have hskip' : (text ++ more).length - (p.rest ++ more).length =
            text.length - p.rest.length := by
          rw [List.length_append, List.length_append]
          omega
        rw [hskip']
        exact (List.prefix_append_right_inj _).mpr (ih (Nat.sub_le _ _))
      | none =>
        dsimp only
        cases hmore : (block opening closing).matchAt total' (c :: (text ++ more)) with
        | none => exact ih (Nat.zero_le _)
        | some p =>
          have hnil : capturesFrom (block opening closing) total 0 text = [] :=
            capturesFrom_block_eq_nil (fun text' hsuffix =>
              matchAt_block_suffix hfound hmore (hsuffix.trans (List.suffix_cons c text))) 0
          rw [hnil]
          exact List.nil_prefix

/-- A text that grows keeps the blocks it has. -/
theorem captures_block_prefix (opening closing text more : List Char) :
    captures (block opening closing) text <+: captures (block opening closing) (text ++ more) :=
  capturesFrom_block_prefix opening closing _ _ text more (Nat.zero_le _)

/-! ## Lengths and groups -/

/-- How many characters a match has at least. -/
def minLength : Regex → Nat
  | lit text => text.length
  | one _ => 1
  | seq r s => r.minLength + s.minLength
  | alt r s => min r.minLength s.minLength
  | star _ _ => 0
  | textStart => 0
  | textEnd => 0
  | lineEnd => 0
  | group r => r.minLength

variable {q : Place}

theorem length_repeats {greedy : Bool} {step : Place → List Place} {fuel : Nat}
    (h : q ∈ repeats greedy step fuel p) : q.rest.length ≤ p.rest.length := by
  induction fuel generalizing p with
  | zero =>
    rw [repeats, List.mem_singleton] at h
    rw [h]
  | succ fuel ih =>
    have hcases : q = p ∨ q ∈ ((step p).filter fun q => q.rest.length < p.rest.length).flatMap
        (repeats greedy step fuel) := by
      rw [repeats] at h
      split at h
      · rw [List.mem_append, List.mem_singleton] at h
        exact h.symm
      · exact List.mem_cons.mp h
    rcases hcases with rfl | hmore
    · exact Nat.le_refl _
    · obtain ⟨next, hnext, hq⟩ := List.mem_flatMap.mp hmore
      have hless : next.rest.length < p.rest.length :=
        of_decide_eq_true (List.mem_filter.mp hnext).2
      exact Nat.le_trans (ih hq) (Nat.le_of_lt hless)

variable {r : Regex}

/-- A match consumes at least that many characters. -/
theorem length_ends (h : q ∈ r.ends total p) : q.rest.length + r.minLength ≤ p.rest.length := by
  induction r generalizing p q with
  | lit text =>
    rw [ends] at h
    split at h
    · next hfront =>
      have hle := (List.isPrefixOf_iff_prefix.mp hfront).length_le
      rw [List.mem_singleton.mp h, minLength]
      dsimp only
      rw [List.length_drop]
      omega
    · cases h
  | one f =>
    rw [ends] at h
    split at h
    · next c rest hrest =>
      split at h
      · rw [List.mem_singleton.mp h, hrest, minLength, List.length_cons]
      · cases h
    · cases h
  | seq r s hr hs =>
    obtain ⟨mid, hmid, hq⟩ := List.mem_flatMap.mp h
    have h₁ := hr hmid
    have h₂ := hs hq
    rw [minLength]
    omega
  | alt r s hr hs =>
    rw [minLength]
    rcases List.mem_append.mp h with h | h
    · have h₁ := hr h
      omega
    · have h₂ := hs h
      omega
  | star greedy r _ => exact length_repeats h
  | textStart =>
    rw [ends] at h
    split at h
    · rw [List.mem_singleton.mp h]
      exact Nat.le_refl _
    · cases h
  | textEnd =>
    rw [ends] at h
    split at h
    · rw [List.mem_singleton.mp h]
      exact Nat.le_refl _
    · cases h
  | lineEnd =>
    rw [ends] at h
    split at h
    · rw [List.mem_singleton.mp h]
      exact Nat.le_refl _
    · cases h
  | group r hr =>
    obtain ⟨q', hq', rfl⟩ := List.mem_map.mp h
    have hle := hr hq'
    exact hle

variable {g : List Char}

/-- What holds of the group of every match at a place holds of all groups. -/
theorem of_mem_captures {P : List Char → Prop}
    (hends : ∀ total text, ∀ q ∈ r.ends total { rest := text }, ∀ g ∈ q.group, P g)
    {text : List Char} (h : g ∈ r.captures text) : P g := by
  have hfrom : ∀ (total skip : Nat) (text : List Char),
      g ∈ r.capturesFrom total skip text → P g := by
    intro total skip text hg
    induction text generalizing skip with
    | nil => cases skip <;> cases hg
    | cons c text ih =>
      cases skip with
      | succ skip => exact ih skip hg
      | zero =>
        rw [capturesFrom] at hg
        split at hg
        · next p hp =>
          rcases List.mem_append.mp hg with hg | hg
          · exact hends total _ p (List.mem_of_mem_head? hp) g (Option.mem_toList.mp hg)
          · exact ih _ hg
        · exact ih 0 hg
  exact hfrom _ 0 text h

/-- A pattern matches only where a character of a class stands, and consumes it. -/
def Begins (f : Char → Bool) (r : Regex) : Prop :=
  ∀ total p, ∀ q ∈ r.ends total p,
    ∃ c rest, p.rest = c :: rest ∧ f c = true ∧ q.rest.length < p.rest.length

theorem begins_one {f g : Char → Bool} (h : ∀ c, g c = true → f c = true) :
    Begins f (one g) := by
  intro total p q hq
  rw [ends] at hq
  split at hq
  · next c rest hrest =>
    split at hq
    · next hc =>
      rw [List.mem_singleton.mp hq, hrest]
      exact ⟨c, rest, rfl, h c hc, Nat.lt_succ_self _⟩
    · cases hq
  · cases hq

theorem begins_lit {f : Char → Bool} (hc : f c = true) : Begins f (lit [c]) := by
  intro total p q hq
  rw [ends] at hq
  split at hq
  · next hfront =>
    obtain ⟨rest, hrest⟩ := List.isPrefixOf_iff_prefix.mp hfront
    rw [List.mem_singleton.mp hq, ← hrest]
    exact ⟨c, rest, rfl, hc, by simp⟩
  · cases hq

theorem Begins.seq {f : Char → Bool} (h : Begins f r) (s : Regex) : Begins f (seq r s) := by
  intro total p q hq
  obtain ⟨mid, hmid, hq⟩ := List.mem_flatMap.mp hq
  obtain ⟨c, rest, hp, hc, hlt⟩ := h total p mid hmid
  exact ⟨c, rest, hp, hc, Nat.lt_of_le_of_lt (Nat.le_of_add_right_le (length_ends hq)) hlt⟩

theorem Begins.alt {f : Char → Bool} {s : Regex} (hr : Begins f r) (hs : Begins f s) :
    Begins f (alt r s) := by
  intro total p q hq
  rcases List.mem_append.mp hq with hq | hq
  · exact hr total p q hq
  · exact hs total p q hq

/-- A group of such a pattern starts with a character of the class. -/
theorem Begins.head_group {f : Char → Bool} (h : Begins f r) (hq : q ∈ (group r).ends total p)
    (hg : g ∈ q.group) : ∃ c rest, g = c :: rest ∧ f c = true := by
  obtain ⟨mid, hmid, rfl⟩ := List.mem_map.mp hq
  obtain ⟨c, rest, hp, hc, hlt⟩ := h total p mid hmid
  obtain ⟨k, hk⟩ := Nat.exists_eq_succ_of_ne_zero (Nat.sub_ne_zero_of_lt hlt)
  rw [← Option.mem_some_iff.mp hg, hk, hp]
  exact ⟨c, rest.take k, rfl, hc⟩

end Regex

end Lib
