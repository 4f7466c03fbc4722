import HiveClaw.Utils.Helpers

/-!
# Tool results without a call

What `find_legal_message_start` is for: a tool message is an *orphan* if no assistant message
before it declares its id. The rest of a list from its legal start on has no orphans
(`noOrphan_drop_findLegalMessageStart`), and it is the longest such rest
(`findLegalMessageStart_least`).
-/

namespace HiveClaw.Utils

/-- The ids that a message declares: none unless it is an assistant message. -/
def declaredBy (msg : Json) : List String :=
  if msg.getStr "role" = some "assistant" then declaredIds msg else []

def AnswersCall (msg : Json) : Prop := msg.getStr "role" = some "tool" ∧ answeredId msg ≠ ""

instance (msg : Json) : Decidable (AnswersCall msg) := inferInstanceAs (Decidable (_ ∧ _))

/-- Every tool message with an id follows an assistant message that declares it. -/
def NoOrphan (messages : List Json) : Prop :=
  ∀ pre m post, messages = pre ++ m :: post → AnswersCall m → ∃ a ∈ pre, answeredId m ∈ declaredBy a

variable {α : Type}

theorem forall_split_concat {P : List α → α → Prop} {l : List α} {last : α} :
    (∀ pre m post, l ++ [last] = pre ++ m :: post → P pre m) ↔
      (∀ pre m post, l = pre ++ m :: post → P pre m) ∧ P l last := by
  constructor
  · intro h
    refine ⟨fun pre m post hsplit => ?_, h l last [] rfl⟩
    refine h pre m (post ++ [last]) ?_
    rw [hsplit, List.append_assoc, List.cons_append]
  · rintro ⟨h, hlast⟩ pre m post hsplit
    rcases List.eq_nil_or_concat post with rfl | ⟨post, x, rfl⟩
    · obtain ⟨rfl, hcons⟩ := List.append_inj' hsplit rfl
      obtain ⟨rfl, -⟩ := List.cons.inj hcons
      exact hlast
    · have hsplit' : l ++ [last] = (pre ++ m :: post) ++ [x] := by
        rw [hsplit, List.concat_eq_append, List.append_assoc, List.cons_append]
      obtain ⟨rfl, -⟩ := List.append_inj' hsplit' rfl
      exact h pre m post rfl

theorem NoOrphan.nil : NoOrphan [] := fun pre m post h => by simp at h

variable {messages : List Json}

theorem noOrphan_concat {last : Json} :
    NoOrphan (messages ++ [last]) ↔
      NoOrphan messages ∧
        (AnswersCall last → ∃ a ∈ messages, answeredId last ∈ declaredBy a) :=
  forall_split_concat

theorem filter_split {p : α → Bool} {l pre post : List α} {m : α}
    (h : l.filter p = pre ++ m :: post) :
    ∃ pre₀ post₀, l = pre₀ ++ m :: post₀ ∧ pre = pre₀.filter p := by
  obtain ⟨pre₀, tail₀, rfl, rfl, htail⟩ := List.filter_eq_append_iff.mp h
  obtain ⟨skipped, post₀, rfl, hskipped, -, -⟩ := List.filter_eq_cons_iff.mp htail
  refine ⟨pre₀ ++ skipped, post₀, (List.append_assoc _ _ _).symm, ?_⟩
  rw [List.filter_append, List.filter_eq_nil_iff.mpr hskipped, List.append_nil]

theorem NoOrphan.filter (h : NoOrphan messages) {p : Json → Bool}
    (hp : ∀ m ∈ messages, p m = false → declaredBy m = []) : NoOrphan (messages.filter p) := by
  intro pre m post hsplit hm
  obtain ⟨pre₀, post₀, rfl, rfl⟩ := filter_split hsplit
  obtain ⟨a, ha, hdeclared⟩ := h pre₀ m post₀ rfl hm
  refine ⟨a, List.mem_filter.mpr ⟨ha, ?_⟩, hdeclared⟩
  by_contra hno
  rw [hp a (List.mem_append_left _ ha) (Bool.eq_false_iff.mpr hno)] at hdeclared
  exact absurd hdeclared List.not_mem_nil

/-- A change of messages that keeps their calls and answers. -/
structure KeepsCalls (f : Json → Json) : Prop where
  answers  : ∀ m, AnswersCall (f m) ↔ AnswersCall m
  answered : ∀ m, answeredId (f m) = answeredId m
  declared : ∀ m, declaredBy (f m) = declaredBy m

theorem KeepsCalls.noOrphan {f : Json → Json} (hf : KeepsCalls f) (h : NoOrphan messages) :
    NoOrphan (messages.map f) := by
  intro pre m post hsplit hm
  obtain ⟨pre₀, tail₀, rfl, rfl, htail⟩ := List.map_eq_append_iff.mp hsplit
  obtain ⟨m₀, post₀, rfl, rfl, -⟩ := List.map_eq_cons_iff.mp htail
  obtain ⟨a, ha, hdeclared⟩ := h pre₀ m₀ post₀ rfl ((hf.answers m₀).mp hm)
  refine ⟨f a, List.mem_map_of_mem ha, ?_⟩
  rwa [hf.answered, hf.declared]

/-! ## The legal start -/

theorem slice_succ_self (messages : List Json) (i : Nat) : slice messages (i + 1) (i + 1) = [] := by
  unfold slice
  rw [List.drop_eq_nil_iff, List.length_take]
  exact Nat.min_le_left _ _

/-- One turn of the loop: the list that the re-scan slices does not matter, the slice is
empty. -/
theorem legalStep_eq (whole : List Json) (st : List String × Nat) (m : Json) (i : Nat) :
    legalStep whole st (m, i) =
      if AnswersCall m ∧ answeredId m ∉ st.1 then ([], i + 1)
      else (st.1 ++ declaredBy m, st.2) := by
  unfold legalStep declaredBy AnswersCall
  split
  case h_1 hrole => simp [show m.getStr "role" = some "assistant" from hrole]
  case h_2 hrole =>
    have htool : m.getStr "role" = some "tool" := hrole
    rw [slice_succ_self]
    simp [htool]
  case h_3 hassistant htool =>
    have hnot : ¬ m.getStr "role" = some "tool" := htool
    have hnot' : ¬ m.getStr "role" = some "assistant" := hassistant
    simp [hnot, hnot']

theorem KeepsCalls.findLegalMessageStart {f : Json → Json} (hf : KeepsCalls f)
    (messages : List Json) :
    findLegalMessageStart (messages.map f) = findLegalMessageStart messages := by
  unfold Utils.findLegalMessageStart
  rw [List.zipIdx_map, List.foldl_map]
  congr 1
  refine List.foldl_ext _ _ _ fun st p _ => ?_
  obtain ⟨m, i⟩ := p
  show legalStep (messages.map f) st (f m, i) = legalStep messages st (m, i)
  rw [legalStep_eq, legalStep_eq, hf.answered, hf.declared]
  simp only [hf.answers]

theorem findLegal_concat (whole messages : List Json) (last : Json) :
    ((messages ++ [last]).zipIdx.foldl (legalStep whole) ([], 0)) =
      legalStep whole (messages.zipIdx.foldl (legalStep whole) ([], 0)) (last, messages.length) := by
  rw [List.zipIdx_append, List.foldl_append, Nat.zero_add]
  rfl

/-- What the loop knows after `messages`: the ids declared since its start, and that no orphan
comes after it. -/
structure LegalUpTo (messages : List Json) (st : List String × Nat) : Prop where
  le : st.2 ≤ messages.length
  declared : st.1 = (messages.drop st.2).flatMap declaredBy
  noOrphan : NoOrphan (messages.drop st.2)

theorem LegalUpTo.step {whole messages : List Json} {st : List String × Nat}
    (h : LegalUpTo messages st) (last : Json) :
    LegalUpTo (messages ++ [last]) (legalStep whole st (last, messages.length)) := by
  have hlength : (messages ++ [last]).length = messages.length + 1 := by simp
  rw [legalStep_eq]
  split
  · have hend : (messages ++ [last]).drop (messages.length + 1) = [] := by
      rw [← hlength, List.drop_length]
    refine ⟨hlength.ge, ?_, ?_⟩
    · rw [hend]
      rfl
    · rw [hend]
      exact .nil
  · rename_i hknown
    have hle := h.le
    have hdrop : (messages ++ [last]).drop st.2 = messages.drop st.2 ++ [last] :=
      List.drop_append_of_le_length hle
    refine ⟨by rw [hlength]; dsimp only; omega, ?_, ?_⟩
    · rw [hdrop, List.flatMap_append, ← h.declared]
      simp
    · rw [hdrop]
      refine noOrphan_concat.mpr ⟨h.noOrphan, fun hm => ?_⟩
      have hmem : answeredId last ∈ st.1 := by
        by_contra hnew
        exact hknown ⟨hm, hnew⟩
      rw [h.declared] at hmem
      exact List.mem_flatMap.mp hmem

theorem legalUpTo_fold (whole messages : List Json) :
    LegalUpTo messages (messages.zipIdx.foldl (legalStep whole) ([], 0)) := by
  induction messages using List.reverseRecOn with
  | nil => exact ⟨Nat.le_refl 0, rfl, .nil⟩
  | append_singleton messages last ih =>
    rw [findLegal_concat]
    exact ih.step last

theorem noOrphan_drop_findLegalMessageStart (messages : List Json) :
    NoOrphan (messages.drop (findLegalMessageStart messages)) :=
  (legalUpTo_fold messages messages).noOrphan

theorem fold_le_of_noOrphan (whole : List Json) {s : Nat} (h : NoOrphan (messages.drop s)) :
    (messages.zipIdx.foldl (legalStep whole) ([], 0)).2 ≤ s := by
  induction messages using List.reverseRecOn with
  | nil => exact Nat.zero_le s
  | append_singleton messages last ih =>
    rw [findLegal_concat]
    have hlegal := legalUpTo_fold whole messages
    by_cases hs : s ≤ messages.length
    · rw [List.drop_append_of_le_length hs] at h
      obtain ⟨hrest, hlast⟩ := noOrphan_concat.mp h
      have hle := ih hrest
      generalize messages.zipIdx.foldl (legalStep whole) ([], 0) = st at hlegal hle ⊢
      rw [legalStep_eq]
      split
      case isTrue hnew =>
        -- what is declared from `s` on is declared from the start of the loop on
        obtain ⟨a, ha, hid⟩ := hlast hnew.1
        have hmem : a ∈ messages.drop st.2 := (List.drop_subset_drop_left messages hle) ha
        exact absurd (hlegal.declared ▸ List.mem_flatMap.mpr ⟨a, hmem, hid⟩) hnew.2
      case isFalse => exact hle
    · have hle := (@LegalUpTo.step whole _ _ hlegal last).le
      rw [List.length_append, List.length_singleton] at hle
      omega

theorem findLegalMessageStart_of_noOrphan (h : NoOrphan messages) :
    findLegalMessageStart messages = 0 :=
  Nat.le_zero.mp (fold_le_of_noOrphan messages (s := 0) h)

/-- `find_legal_message_start` returns the least start from which on every tool message with
an id follows an assistant message that declares it. -/
theorem findLegalMessageStart_least (messages : List Json) :
    NoOrphan (messages.drop (findLegalMessageStart messages)) ∧
      ∀ s, NoOrphan (messages.drop s) → findLegalMessageStart messages ≤ s :=
  ⟨noOrphan_drop_findLegalMessageStart messages, fun _ => fold_le_of_noOrphan messages⟩

end HiveClaw.Utils
