import HiveClaw.Providers.Alternation
import HiveClaw.Utils.Ink

/-!
# What the user sent

Two user messages in a row are merged: two texts are joined, and in every other case the later
message takes the place of the earlier one. What is lost is exactly what an earlier message has to
say when it or a later message of the same run is not a text (`showsAll_iff`). The sizes of the
parts decide the one direction: joining keeps them, replacing does not (`size_mergeFrom`).
-/

namespace HiveClaw.Providers

open Utils

/-! ## Parts -/

/-- A part of a content: a text without the white space around it, or a block. -/
inductive Part
  | text (t : String)
  | block (b : Json)

/-- The parts of a content. A blank text has none. -/
def partsOf (m : Json) : List Part :=
  match m.get "content" with
  | some (.str s) => if RustStr.trim s = "" then [] else [.text (RustStr.trim s)]
  | some (.arr items) => items.map .block
  | _ => []

/-- The parts of the messages of the user. -/
def userParts (messages : List Json) : List Part :=
  messages.flatMap fun m => if roleOf m = "user" then partsOf m else []

/-- The parts occur in the content of the message, in order. -/
def Shows (m : Json) (parts : List Part) : Prop :=
  match m.get "content" with
  | some (.str s) => ∃ texts : List String, parts = texts.map .text ∧ OccurIn texts s.toList
  | some (.arr items) => List.Sublist parts (items.map .block)
  | _ => parts = []

/-- The parts occur in the user messages, in order. -/
def ShowsAll : List Json → List Part → Prop
  | [], parts => parts = []
  | m :: rest, parts => ∃ mine others, parts = mine ++ others ∧
      (if roleOf m = "user" then Shows m mine else mine = []) ∧ ShowsAll rest others

/-- The content of the message is a text. -/
def IsText (m : Json) : Prop := ∃ s, m.get "content" = some (.str s)

/-- A user message that has parts is a text, and so are the user messages that follow it
directly. -/
def Joinable : List Json → Prop
  | [] => True
  | m :: rest =>
    (roleOf m = "user" → partsOf m ≠ [] →
      ∀ v ∈ rest.takeWhile fun v => roleOf v = "user", IsText m ∧ IsText v) ∧ Joinable rest

/-! ## Sizes -/

/-- The size of a part: its characters besides white space, or one for a block. -/
def Part.size : Part → Nat
  | .text t => (inked t).length
  | .block _ => 1

def partsSize (parts : List Part) : Nat := (parts.map Part.size).sum

theorem partsSize_append (parts parts' : List Part) :
    partsSize (parts ++ parts') = partsSize parts + partsSize parts' := by
  unfold partsSize
  rw [List.map_append, List.sum_append]

theorem partsSize_blocks (items : List Json) : partsSize (items.map .block) = items.length := by
  unfold partsSize
  rw [List.map_map]
  show (items.map fun _ => 1).sum = items.length
  rw [List.map_const', List.sum_replicate_nat, Nat.mul_one]

theorem partsSize_texts (texts : List String) :
    partsSize (texts.map .text) = (texts.map fun t => (inked t).length).sum := by
  unfold partsSize
  rw [List.map_map]
  rfl

variable {m : Json} {s : String}

theorem partsSize_text (h : m.get "content" = some (.str s)) :
    partsSize (partsOf m) = (inked s).length := by
  unfold partsOf
  rw [h]
  dsimp only
  split
  · rename_i hblank
    rw [← inked_trim, hblank]
    rfl
  · show (inked (RustStr.trim s)).length + 0 = _
    rw [inked_trim, Nat.add_zero]

theorem inked_eq_nil_iff : inked s = [] ↔ RustStr.trim s = "" := by
  constructor
  · intro h
    by_contra hne
    obtain ⟨c, rest, hhead, hc⟩ := (tight_trim hne).head
    rw [← inked_trim] at h
    unfold inked at h
    rw [hhead, List.filter_cons_of_pos (by simp [hc])] at h
    cases h
  · intro h
    rw [← inked_trim, h]
    rfl

theorem partsOf_eq_nil_iff (m : Json) : partsOf m = [] ↔ partsSize (partsOf m) = 0 := by
  refine ⟨fun h => by rw [h]; rfl, fun h => ?_⟩
  unfold partsOf at h ⊢
  split at h
  · split at h
    · rename_i hblank
      rw [if_pos hblank]
    · rename_i s hcontent hblank
      have hsize : (inked (RustStr.trim s)).length + 0 = 0 := h
      rw [inked_trim, Nat.add_zero, List.length_eq_zero_iff] at hsize
      exact absurd (inked_eq_nil_iff.mp hsize) hblank
  · rw [partsSize_blocks, List.length_eq_zero_iff] at h
    rw [h]
    rfl
  · rfl

variable {parts : List Part}

theorem Shows.partsSize_le (h : Shows m parts) : partsSize parts ≤ partsSize (partsOf m) := by
  unfold Shows at h
  split at h
  · rename_i s hcontent
    obtain ⟨texts, rfl, hoccur⟩ := h
    rw [partsSize_text hcontent, partsSize_texts]
    exact hoccur.inked_le
  · rename_i items hcontent
    have hparts : partsOf m = items.map .block := by
      unfold partsOf
      rw [hcontent]
    obtain ⟨shown, hshown, rfl⟩ := List.sublist_map_iff.mp h
    rw [hparts, partsSize_blocks, partsSize_blocks]
    exact hshown.length_le
  · rw [h]
    exact Nat.zero_le _

theorem userParts_cons (m : Json) (rest : List Json) :
    userParts (m :: rest) = (if roleOf m = "user" then partsOf m else []) ++ userParts rest :=
  List.flatMap_cons

theorem userParts_cons_user (h : roleOf m = "user") (rest : List Json) :
    userParts (m :: rest) = partsOf m ++ userParts rest := by
  rw [userParts_cons, if_pos h]

theorem userParts_cons_other (h : roleOf m ≠ "user") (rest : List Json) :
    userParts (m :: rest) = userParts rest := by
  rw [userParts_cons, if_neg h, List.nil_append]

theorem ShowsAll.partsSize_le {messages : List Json} {parts : List Part}
    (h : ShowsAll messages parts) : partsSize parts ≤ partsSize (userParts messages) := by
  induction messages generalizing parts with
  | nil =>
    have hnone : parts = [] := h
    rw [hnone]
    exact Nat.zero_le _
  | cons m rest ih =>
    obtain ⟨mine, others, rfl, hmine, hothers⟩ := h
    have hrest := ih hothers
    rw [userParts_cons, partsSize_append, partsSize_append]
    by_cases hrole : roleOf m = "user"
    · rw [if_pos hrole] at hmine ⊢
      have hle := hmine.partsSize_le
      omega
    · rw [if_neg hrole] at hmine
      rw [hmine]
      show 0 + _ ≤ _
      omega

/-! ## Merging two user messages -/

/-- Every text among the parts is without white space around it. -/
def AllTight (parts : List Part) : Prop := ∀ t, Part.text t ∈ parts → Tight t

theorem allTight_nil : AllTight [] := fun _ ht => by cases ht

theorem allTight_partsOf (m : Json) : AllTight (partsOf m) := by
  intro t ht
  unfold partsOf at ht
  split at ht
  · split at ht
    · cases ht
    · rename_i hblank
      obtain ⟨rfl⟩ := List.mem_singleton.mp ht
      exact tight_trim hblank
  · obtain ⟨b, -, hb⟩ := List.mem_map.mp ht
    cases hb
  · cases ht

/-- What holds if the contents of two user messages are joined. -/
structure Joined (prev m : Json) : Prop where
  size : partsSize (partsOf (mergeInto prev m)) = partsSize (partsOf prev) + partsSize (partsOf m)
  isText : IsText (mergeInto prev m)
  left : partsOf prev ≠ [] → IsText prev
  right : IsText m
  shows : ∀ parts, Shows prev parts → AllTight parts → Shows (mergeInto prev m) (parts ++ partsOf m)

theorem shows_partsOf_text (h : m.get "content" = some (.str s)) :
    ∃ texts : List String, partsOf m = texts.map .text ∧ OccurIn texts s.toList := by
  unfold partsOf
  rw [h]
  dsimp only
  split
  · exact ⟨[], rfl, trivial⟩
  · exact ⟨[RustStr.trim s], rfl, occurIn_trim s⟩

variable {prev : Json}

theorem joined_of_texts {p c : String} (hprev : (prev.get "content").getD (.str "") = .str p)
    (hm : m.get "content" = some (.str c))
    (hjoined : (mergeInto prev m).get "content" = some (.str (RustStr.trim (p ++ "\n\n" ++ c)))) :
    Joined prev m := by
  have hsize : partsSize (partsOf prev) = (inked p).length := by
    cases hcontent : prev.get "content" with
    | none =>
      rw [hcontent] at hprev
      obtain ⟨rfl⟩ := hprev
      unfold partsOf
      rw [hcontent]
      rfl
    | some v =>
      rw [hcontent] at hprev
      exact partsSize_text (hcontent.trans (congrArg some hprev))
  have hleft : partsOf prev ≠ [] → IsText prev := by
    intro hparts
    cases hcontent : prev.get "content" with
    | none =>
      unfold partsOf at hparts
      rw [hcontent] at hparts
      exact absurd rfl hparts
    | some v =>
      rw [hcontent] at hprev
      exact ⟨p, hcontent.trans (congrArg some hprev)⟩
  refine ⟨?_, ⟨_, hjoined⟩, hleft, ⟨c, hm⟩, ?_⟩
  · have hbreak : inked "\n\n" = [] := by decide
    rw [partsSize_text hjoined, partsSize_text hm, hsize, inked_trim, inked_append, inked_append,
      hbreak, List.append_nil, List.length_append]
  · intro parts hshows htight
    have hparts : ∃ texts : List String, parts = texts.map .text ∧ OccurIn texts p.toList := by
      unfold Shows at hshows
      cases hcontent : prev.get "content" with
      | none =>
        rw [hcontent] at hshows
        exact ⟨[], hshows, trivial⟩
      | some v =>
        rw [hcontent] at hprev hshows
        obtain rfl : v = .str p := hprev
        exact hshows
    obtain ⟨texts, rfl, hoccur⟩ := hparts
    obtain ⟨own, hown, hownOccur⟩ := shows_partsOf_text hm
    unfold Shows
    rw [hjoined]
    refine ⟨texts ++ own, by rw [hown, List.map_append], ?_⟩
    apply OccurIn.trim
    · rw [String.toList_append, String.toList_append, List.append_assoc]
      exact hoccur.append (hownOccur.append_left _)
    · intro t ht
      rcases List.mem_append.mp ht with hleft | hright
      · exact htight t (List.mem_map_of_mem hleft)
      · apply allTight_partsOf m
        rw [hown]
        exact List.mem_map_of_mem hright

theorem mergeInto_user (hprev : roleOf prev = "user") (hm : roleOf m = "user") :
    Joined prev m ∨ mergeInto prev m = m ∧ ¬ (IsText prev ∧ IsText m) := by
  have hnot : m.getStr "role" ≠ some "assistant" := by
    rw [Ne, ← roleOf_eq_iff (by decide), hm]
    decide
  have hmerge := Eq.refl (mergeInto prev m)
  conv_rhs at hmerge => unfold mergeInto
  rw [decide_eq_false hnot, Bool.false_and, Bool.false_and, if_neg Bool.false_ne_true,
    if_neg Bool.false_ne_true] at hmerge
  split at hmerge
  · rename_i p c hp hc
    left
    have hcontent : m.get "content" = some (.str c) := by
      cases hcontent : m.get "content" with
      | none =>
        rw [hcontent] at hc
        cases hc
      | some v =>
        rw [hcontent] at hc
        exact congrArg some hc
    refine joined_of_texts hp hcontent ?_
    rw [hmerge]
    cases prev with
    | obj fields => exact JsonMap.get_insert_self _ _ _
    | _ =>
      have hnone : "" ≠ "user" := by decide
      exact absurd hprev hnone
  · rename_i hother
    refine .inr ⟨hmerge, ?_⟩
    rintro ⟨⟨p, hp⟩, ⟨c, hc⟩⟩
    exact hother p c (by rw [hp]; rfl) (by rw [hc]; rfl)

theorem roleOf_mergeInto_ne (hsame : SameTurn prev m) (h : roleOf prev ≠ "user") :
    roleOf (mergeInto prev m) ≠ "user" := by
  rw [roleOf_mergeInto hsame]
  exact h

/-! ## Merging a list -/

theorem shows_partsOf (m : Json) : Shows m (partsOf m) := by
  cases hcontent : m.get "content" with
  | none =>
    unfold Shows partsOf
    rw [hcontent]
  | some v =>
    cases v with
    | str s =>
      unfold Shows
      rw [hcontent]
      exact shows_partsOf_text hcontent
    | arr items =>
      unfold Shows partsOf
      rw [hcontent]
    | _ =>
      unfold Shows partsOf
      rw [hcontent]

variable {rest : List Json}

theorem Joinable.tail (h : Joinable (m :: rest)) : Joinable rest := h.2

theorem joinable_cons_other (hm : roleOf m ≠ "user") (h : Joinable rest) : Joinable (m :: rest) :=
  ⟨fun hrole => absurd hrole hm, h⟩

theorem run_cons (hm : roleOf m = "user") (rest : List Json) :
    (m :: rest).takeWhile (fun v => roleOf v = "user") =
      m :: rest.takeWhile fun v => roleOf v = "user" :=
  List.takeWhile_cons_of_pos (decide_eq_true hm)

theorem Joined.partsOf_ne_nil_iff (h : Joined prev m) :
    partsOf (mergeInto prev m) ≠ [] ↔ partsOf prev ≠ [] ∨ partsOf m ≠ [] := by
  rw [Ne, Ne, Ne, partsOf_eq_nil_iff, partsOf_eq_nil_iff, partsOf_eq_nil_iff, h.size]
  omega

theorem Joined.joinable_iff (h : Joined prev m) (hprev : roleOf prev = "user")
    (hm : roleOf m = "user") :
    Joinable (mergeInto prev m :: rest) ↔ Joinable (prev :: m :: rest) := by
  have hrole : roleOf (mergeInto prev m) = "user" := by
    rw [roleOf_mergeInto ⟨hprev.trans hm.symm, .inl hm⟩, hprev]
  constructor
  · rintro ⟨hrun, hrest⟩
    refine ⟨fun _ hparts v hv => ⟨h.left hparts, ?_⟩, fun _ hparts v hv => ⟨h.right, ?_⟩, hrest⟩
    · rw [run_cons hm] at hv
      rcases List.mem_cons.mp hv with rfl | hv
      · exact h.right
      · exact (hrun hrole (h.partsOf_ne_nil_iff.mpr (.inl hparts)) v hv).2
    · exact (hrun hrole (h.partsOf_ne_nil_iff.mpr (.inr hparts)) v hv).2
  · rintro ⟨hfirst, hsecond, hrest⟩
    refine ⟨fun _ hparts v hv => ⟨h.isText, ?_⟩, hrest⟩
    rcases h.partsOf_ne_nil_iff.mp hparts with hparts | hparts
    · have hmem : v ∈ (m :: rest).takeWhile fun v => roleOf v = "user" := by
        rw [run_cons hm]
        exact List.mem_cons_of_mem m hv
      exact (hfirst hprev hparts v hmem).2
    · exact (hsecond hm hparts v hv).2

theorem Joinable.replaced (h : Joinable (prev :: m :: rest)) (hprev : roleOf prev = "user")
    (hm : roleOf m = "user") (hnot : ¬ (IsText prev ∧ IsText m)) : partsOf prev = [] := by
  by_contra hparts
  apply hnot
  apply h.1 hprev hparts m
  rw [run_cons hm]
  exact List.mem_cons_self

/-- What the user sent is shown if it can be joined: `parts` is what the messages before have
become, which are merged into `prev`. -/
theorem showsAll_mergeFrom {prev : Json} {rest : List Json} {parts : List Part}
    (hshows : if roleOf prev = "user" then Shows prev parts else parts = [])
    (htight : AllTight parts) (hnone : partsOf prev = [] → parts = [])
    (hjoin : Joinable (prev :: rest)) :
    ShowsAll (mergeFrom prev rest) (parts ++ userParts rest) := by
  induction rest generalizing prev parts with
  | nil => exact ⟨parts, [], rfl, hshows, rfl⟩
  | cons m rest ih =>
    have hown : ShowsAll (mergeFrom m rest) (userParts (m :: rest)) := by
      by_cases hm : roleOf m = "user"
      · rw [userParts_cons_user hm]
        refine ih ?_ (allTight_partsOf m) id hjoin.tail
        rw [if_pos hm]
        exact shows_partsOf m
      · rw [userParts_cons_other hm]
        refine @ih m [] ?_ allTight_nil (fun _ => rfl) hjoin.tail
        rw [if_neg hm]
    rw [mergeFrom]
    split
    · rename_i hsame
      by_cases hprev : roleOf prev = "user"
      · have hm : roleOf m = "user" := hsame.1.symm.trans hprev
        rw [if_pos hprev] at hshows
        rcases mergeInto_user hprev hm with hjoined | ⟨hreplaced, hnot⟩
        · rw [userParts_cons_user hm, ← List.append_assoc]
          refine ih ?_ ?_ ?_ ((hjoined.joinable_iff hprev hm).mpr hjoin)
          · rw [roleOf_mergeInto hsame, if_pos hprev]
            exact hjoined.shows parts hshows htight
          · intro t ht
            rcases List.mem_append.mp ht with hold | hnew
            · exact htight t hold
            · exact allTight_partsOf m t hnew
          · intro hempty
            have hboth := not_or.mp (mt hjoined.partsOf_ne_nil_iff.mpr (not_not.mpr hempty))
            rw [not_not, not_not] at hboth
            rw [hnone hboth.1, hboth.2, List.append_nil]
        · rw [hreplaced, hnone (hjoin.replaced hprev hm hnot), List.nil_append]
          exact hown
      · have hm : roleOf m ≠ "user" := hsame.1 ▸ hprev
        rw [if_neg hprev] at hshows
        rw [hshows, List.nil_append, userParts_cons_other hm]
        refine @ih (mergeInto prev m) [] ?_ allTight_nil (fun _ => rfl)
          (joinable_cons_other (roleOf_mergeInto_ne hsame hprev) hjoin.tail.tail)
        rw [if_neg (roleOf_mergeInto_ne hsame hprev)]
    · exact ⟨parts, userParts (m :: rest), rfl, hshows, hown⟩

/-- Merging adds nothing to what the user sent, and it keeps the size only if the messages can be
joined. -/
theorem partsSize_mergeFrom (prev : Json) (rest : List Json) :
    partsSize (userParts (mergeFrom prev rest)) ≤ partsSize (userParts (prev :: rest)) ∧
      (partsSize (userParts (prev :: rest)) ≤ partsSize (userParts (mergeFrom prev rest)) →
        Joinable (prev :: rest)) := by
  induction rest generalizing prev with
  | nil => exact ⟨le_refl _, fun _ => ⟨fun _ _ => List.forall_mem_nil _, trivial⟩⟩
  | cons m rest ih =>
    rw [mergeFrom]
    split
    · rename_i hsame
      by_cases hprev : roleOf prev = "user"
      · have hm : roleOf m = "user" := hsame.1.symm.trans hprev
        have hrole : roleOf (mergeInto prev m) = "user" := by
          rw [roleOf_mergeInto hsame, hprev]
        rw [userParts_cons_user hprev, userParts_cons_user hm, partsSize_append, partsSize_append]
        rcases mergeInto_user hprev hm with hjoined | ⟨hreplaced, hnot⟩
        · obtain ⟨hle, hjoin⟩ := ih (mergeInto prev m)
          rw [userParts_cons_user hrole, partsSize_append, hjoined.size] at hle hjoin
          refine ⟨by omega, fun hge => ?_⟩
          exact (hjoined.joinable_iff hprev hm).mp (hjoin (by omega))
        · obtain ⟨hle, hjoin⟩ := ih m
          rw [hreplaced]
          rw [userParts_cons_user hm, partsSize_append] at hle hjoin
          refine ⟨by omega, fun hge => ⟨fun _ hparts => ?_, hjoin (by omega)⟩⟩
          have hzero : partsSize (partsOf prev) = 0 := by omega
          exact absurd ((partsOf_eq_nil_iff prev).mpr hzero) hparts
      · have hm : roleOf m ≠ "user" := hsame.1 ▸ hprev
        obtain ⟨hle, hjoin⟩ := ih (mergeInto prev m)
        rw [userParts_cons_other (roleOf_mergeInto_ne hsame hprev)] at hle hjoin
        rw [userParts_cons_other hprev, userParts_cons_other hm]
        exact ⟨hle, fun hge => joinable_cons_other hprev (joinable_cons_other hm (hjoin hge).tail)⟩
    · rename_i hsame
      obtain ⟨hle, hjoin⟩ := ih m
      rw [userParts_cons, userParts_cons prev (m :: rest), partsSize_append, partsSize_append]
      refine ⟨by omega, fun hge => ⟨fun hprev _ => ?_, hjoin (by omega)⟩⟩
      have hm : roleOf m ≠ "user" := fun hm => hsame ⟨hprev.trans hm.symm, .inl hm⟩
      rw [List.takeWhile_cons_of_neg (by simp [hm])]
      exact List.forall_mem_nil _

/-! ## The whole list -/

theorem shows_nil (m : Json) : Shows m [] := by
  unfold Shows
  split
  · exact ⟨[], rfl, trivial⟩
  · exact List.nil_sublist _
  · rfl

variable {front : List Json}

theorem ShowsAll.insert (h : ShowsAll (front ++ rest) parts) (m : Json) :
    ShowsAll (front ++ m :: rest) parts := by
  induction front generalizing parts with
  | nil =>
    refine ⟨[], parts, rfl, ?_, h⟩
    split
    · exact shows_nil m
    · rfl
  | cons m' front ih =>
    obtain ⟨mine, others, heq, hmine, hothers⟩ := h
    exact ⟨mine, others, heq, hmine, ih hothers⟩

theorem ShowsAll.append (h : ShowsAll front parts) (trailing : List Json) :
    ShowsAll (front ++ trailing) parts := by
  induction trailing with
  | nil =>
    rw [List.append_nil]
    exact h
  | cons m trailing ih => exact ih.insert m

theorem ShowsAll.of_append {trailing : List Json} (h : ShowsAll (front ++ trailing) parts)
    (htrailing : ∀ m ∈ trailing, roleOf m ≠ "user") : ShowsAll front parts := by
  induction front generalizing parts with
  | nil =>
    induction trailing generalizing parts with
    | nil => exact h
    | cons m trailing ih =>
      obtain ⟨mine, others, heq, hmine, hothers⟩ := h
      rw [if_neg (htrailing m List.mem_cons_self)] at hmine
      have hnone : others = [] :=
        ih (fun m' hm' => htrailing m' (List.mem_cons_of_mem m hm')) hothers
      rw [heq, hmine, hnone]
      rfl
  | cons m' front ih =>
    obtain ⟨mine, others, heq, hmine, hothers⟩ := h
    exact ⟨mine, others, heq, hmine, ih hothers⟩

theorem no_user_of_mergeFrom (h : ∀ m ∈ mergeFrom prev rest, roleOf m ≠ "user") :
    ∀ m ∈ prev :: rest, roleOf m ≠ "user" := by
  induction rest generalizing prev with
  | nil => exact h
  | cons m rest ih =>
    rw [mergeFrom] at h
    split at h
    · rename_i hsame
      have hmerged := ih h
      have hprev : roleOf prev ≠ "user" := by
        rw [← roleOf_mergeInto hsame]
        exact hmerged _ List.mem_cons_self
      refine List.forall_mem_cons.mpr ⟨hprev, List.forall_mem_cons.mpr ⟨hsame.1 ▸ hprev, ?_⟩⟩
      exact fun m' hm' => hmerged m' (List.mem_cons_of_mem _ hm')
    · obtain ⟨hprev, hrest⟩ := List.forall_mem_cons.mp h
      exact List.forall_mem_cons.mpr ⟨hprev, ih hrest⟩

theorem joinable_of_no_user {messages : List Json} (h : ∀ m ∈ messages, roleOf m ≠ "user") :
    Joinable messages := by
  induction messages with
  | nil => trivial
  | cons m rest ih =>
    obtain ⟨hm, hrest⟩ := List.forall_mem_cons.mp h
    exact joinable_cons_other hm (ih hrest)

theorem showsAll_merged_iff (messages : List Json) :
    ShowsAll (merged messages) (userParts messages) ↔ Joinable messages := by
  cases messages with
  | nil => exact iff_of_true rfl trivial
  | cons m rest =>
    constructor
    · exact fun h => (partsSize_mergeFrom m rest).2 h.partsSize_le
    · intro hjoin
      rw [userParts_cons]
      refine showsAll_mergeFrom ?_ ?_ ?_ hjoin
      · split
        · exact shows_partsOf m
        · rfl
      · split
        · exact allTight_partsOf m
        · exact allTight_nil
      · intro hnone
        rw [hnone, ite_self]

/-- The list before a message is put in front of a first assistant message. -/
def beforeOpening (messages : List Json) : List Json := recoverPopped (merged messages)

/-- **What the user sent.** Its parts are all there exactly if every user message that has any is a
text, as are the user messages directly after it; the message that may be inserted does not
count, and takes nothing away. -/
theorem showsAll_iff (messages : List Json) :
    (ShowsAll (beforeOpening messages) (userParts messages) ↔ Joinable messages) ∧
      (Joinable messages →
        ShowsAll (enforceRoleAlternation messages) (userParts messages)) := by
  have hiff := showsAll_merged_iff messages
  obtain ⟨trailing, hsplit, hassistants⟩ := withoutTrailing_append (merged messages)
  have htrailing : ∀ m ∈ trailing, roleOf m ≠ "user" := by
    intro m hm
    rw [(isAssistant_iff m).mp (hassistants m hm)]
    decide
  have hkept : ShowsAll (withoutTrailing (merged messages)) (userParts messages) ↔
      Joinable messages := by
    rw [← hiff]
    refine ⟨fun h => ?_, fun h => ?_⟩
    · have hall := h.append trailing
      rw [hsplit] at hall
      exact hall
    · rw [← hsplit] at h
      exact h.of_append htrailing
  have hbefore : ShowsAll (beforeOpening messages) (userParts messages) ↔ Joinable messages := by
    unfold beforeOpening
    rcases recoverPopped_cases (merged messages) with heq | ⟨recovered, heq, hrole, hothers⟩
    · rw [heq]
      exact hkept
    · rw [heq]
      refine ⟨fun _ => ?_, fun hjoin => (hkept.mpr hjoin).append _⟩
      -- then no message is of the user at all
      have hnone : ∀ m ∈ merged messages, roleOf m ≠ "user" := by
        rw [← hsplit]
        intro m hm
        rcases List.mem_append.mp hm with hfront | hend
        · exact (hothers m hfront).1
        · exact htrailing m hend
      cases messages with
      | nil => trivial
      | cons m rest => exact joinable_of_no_user (no_user_of_mergeFrom hnone)
  refine ⟨hbefore, fun hjoin => ?_⟩
  have hshows := hbefore.mpr hjoin
  rw [enforceRoleAlternation_eq]
  unfold beforeOpening at hshows
  rcases insertOpening_cases (recoverPopped (merged messages)) with
    ⟨heq, -⟩ | ⟨systems, first, rest, hlist, -, -, heq⟩
  · rw [heq]
    exact hshows
  · rw [heq]
    rw [hlist] at hshows
    exact hshows.insert openingMessage

/-- A text and an image sent after it. -/
def textThenImage : List Json :=
  [.obj [("role", .str "user"), ("content", .str "What is this?")],
    .obj [("role", .str "user"), ("content", .arr [.obj [("type", .str "image_url")]])]]

/-- Of a text and an image the image stays. -/
theorem not_showsAll_textThenImage :
    ¬ ShowsAll (enforceRoleAlternation textThenImage) (userParts textThenImage) := by
  intro h
  have hle := h.partsSize_le
  revert hle
  decide +kernel

end HiveClaw.Providers
