import HiveClaw.Runner.Context
import HiveClaw.Utils.Orphans

/-!
# What `snip_history` keeps

Where every tool result is declared in its own turn, that is after the last user message before
it, `snip_history` cuts between turns: it keeps the system messages and the turns at the end that
fit, the last turn always (`snipHistory_snips`).
-/

namespace HiveClaw.Runner

open Utils

variable {ω : Type}

def IsUser (msg : Json) : Prop := role msg = some "user"

instance (msg : Json) : Decidable (IsUser msg) := inferInstanceAs (Decidable (_ = _))

/-- Every tool result after a user message is declared after the last user message before it. -/
def DeclaredInTurn (messages : List Json) : Prop :=
  ∀ pre m post, messages = pre ++ m :: post → AnswersCall m → (∃ u ∈ pre, IsUser u) →
    ∃ before a after, pre = before ++ a :: after ∧ answeredId m ∈ declaredBy a ∧
      ∀ x ∈ after, ¬ IsUser x

/-- The part of the history that is kept, against the messages that are no system messages. -/
structure Snipped (tokens : Json → Nat) (remaining : Nat) (nonSystem kept : List Json) : Prop where
  suffix : kept <:+ nonSystem
  starts : ∃ u rest, kept = u :: rest ∧ IsUser u
  last : ∀ pre u post, nonSystem = pre ++ u :: post → IsUser u → (∀ x ∈ post, ¬ IsUser x) →
    u :: post <:+ kept
  noOrphan : NoOrphan kept
  fits : (kept.map tokens).sum ≤ remaining ∨ ∀ x ∈ kept.tail, ¬ IsUser x

/-! ## Turns -/

theorem DeclaredInTurn.filter {messages : List Json} (h : DeclaredInTurn messages)
    {p : Json → Bool} (hp : ∀ m, p m = false → ¬ IsUser m ∧ declaredBy m = []) :
    DeclaredInTurn (messages.filter p) := by
  intro pre m post hsplit hm huser
  obtain ⟨pre₀, post₀, rfl, rfl⟩ := filter_split hsplit
  obtain ⟨u, hu, huser⟩ := huser
  obtain ⟨before, a, after, rfl, hdeclared, hafter⟩ := h pre₀ m post₀ rfl hm
    ⟨u, (List.mem_filter.mp hu).1, huser⟩
  have hpa : p a = true := by
    by_contra hno
    rw [(hp a (Bool.eq_false_iff.mpr hno)).2] at hdeclared
    exact absurd hdeclared List.not_mem_nil
  refine ⟨before.filter p, a, after.filter p, ?_, hdeclared, ?_⟩
  · rw [List.filter_append, List.filter_cons_of_pos hpa]
  · exact fun x hx => hafter x (List.mem_filter.mp hx).1

variable {messages : List Json}

theorem DeclaredInTurn.noOrphan (h : DeclaredInTurn messages) {front rest : List Json} {u : Json}
    (hsuffix : messages = front ++ u :: rest) (hu : IsUser u) : NoOrphan (u :: rest) := by
  intro pre m post hsplit hm
  rcases pre with _ | ⟨u', pre⟩
  · obtain ⟨rfl, -⟩ := List.cons.inj hsplit
    have htool : some "user" = some "tool" := hu.symm.trans hm.1
    exact absurd htool (by decide)
  · obtain ⟨rfl, -⟩ := List.cons.inj hsplit
    have hwhole : messages = (front ++ u :: pre) ++ m :: post := by
      rw [hsuffix, hsplit, List.append_assoc]
    obtain ⟨before, a, after, hpre, hdeclared, hafter⟩ := h _ m post hwhole hm
      ⟨u, List.mem_append_right _ List.mem_cons_self, hu⟩
    -- the declaration stands after the user message, so in the suffix
    rcases List.append_eq_append_iff.mp hpre with ⟨middle, hbefore, hrest⟩ | ⟨middle, hfront, hafter'⟩
    · exact ⟨a, hrest ▸ List.mem_append_right _ List.mem_cons_self, hdeclared⟩
    · rcases middle with _ | ⟨x, middle⟩
      · rw [List.nil_append] at hafter'
        exact ⟨a, hafter' ▸ List.mem_cons_self, hdeclared⟩
      · obtain ⟨-, rfl⟩ := List.cons.inj hafter'
        exact absurd hu (hafter u (List.mem_append_right _ List.mem_cons_self))

/-! ## The start with a user message -/

theorem fromUser_spec {tokens : Json → Nat} {remaining : Nat} {nonSystem kept : List Json}
    (hturns : DeclaredInTurn nonSystem) (huser : ∃ u ∈ nonSystem, IsUser u)
    (hsuffix : kept <:+ nonSystem)
    (hfits : (kept.map tokens).sum ≤ remaining ∨ kept.length ≤ 1) :
    Snipped tokens remaining nonSystem (fromUser kept nonSystem) := by
  -- what is left to show of a suffix from a user message on
  have hfrom : ∀ front u rest, nonSystem = front ++ u :: rest → IsUser u →
      (((u :: rest).map tokens).sum ≤ remaining ∨ ∀ x ∈ rest, ¬ IsUser x) →
      Snipped tokens remaining nonSystem (u :: rest) := by
    intro front u rest hsplit hu hsmall
    have hrest : u :: rest <:+ nonSystem := ⟨front, hsplit.symm⟩
    exact ⟨hrest, ⟨u, rest, rfl, hu⟩,
      fun pre v post hv hvuser hpost => last_suffix_of_suffix hrest ⟨u, List.mem_cons_self, hu⟩ hv hpost,
      hturns.noOrphan hsplit hu, hsmall⟩
  obtain ⟨front, hfront⟩ := hsuffix
  unfold fromUser
  split
  case h_1 i hi =>
    obtain ⟨hlt, hrole, -⟩ := List.findIdx?_eq_some_iff_getElem.mp hi
    have hdrop : kept.drop i = kept[i] :: kept.drop (i + 1) := List.drop_eq_getElem_cons hlt
    have hsplit : nonSystem = (front ++ kept.take i) ++ kept[i] :: kept.drop (i + 1) := by
      rw [← hdrop, List.append_assoc, List.take_append_drop, hfront]
    rw [hdrop]
    refine hfrom _ _ _ hsplit (by simpa [IsUser] using hrole) ?_
    rcases hfits with hsum | hone
    · left
      rw [← hdrop]
      have htotal : (kept.map tokens).sum =
          ((kept.take i).map tokens).sum + ((kept.drop i).map tokens).sum := by
        rw [← List.sum_append, ← List.map_append, List.take_append_drop]
      omega
    · right
      have hnil : kept.drop (i + 1) = [] := List.drop_eq_nil_iff.mpr (by omega)
      rw [hnil]
      exact List.forall_mem_nil _
  case h_2 hnone =>
    split
    case h_1 i hi =>
      obtain ⟨hlt, hrole, hafter⟩ := rposition_eq_some hi
      have hdrop : nonSystem.drop i = nonSystem[i] :: nonSystem.drop (i + 1) :=
        List.drop_eq_getElem_cons hlt
      have hsplit : nonSystem = nonSystem.take i ++ nonSystem[i] :: nonSystem.drop (i + 1) := by
        rw [← hdrop, List.take_append_drop]
      rw [hdrop]
      refine hfrom _ _ _ hsplit ?_ (Or.inr ?_)
      · have hu := hrole nonSystem[i] (List.getElem?_eq_getElem hlt)
        simpa [IsUser] using hu
      · intro x hx
        obtain ⟨j, hj, hget⟩ := List.mem_drop_iff_getElem.mp hx
        have hno := hafter (i + 1 + j) x (by omega) (by rw [List.getElem?_eq_getElem (by omega), ← hget])
        simpa [IsUser] using hno
    case h_2 hno =>
      obtain ⟨u, hu, huser⟩ := huser
      have hfalse := rposition_eq_none hno u hu
      rw [show role u = some "user" from huser] at hfalse
      exact absurd hfalse (by decide)

/-! ## The whole -/

/-- **Snipping.** For every list with a user message in which every tool result is declared in its
turn, and every budget that its estimate exceeds, `snip_history` returns the system messages in
order and a suffix of the others: it starts with a user message, contains the last one, has no
orphans, and fits what the system messages leave of the budget or is the last turn. -/
theorem snipHistory_snips (env : Env ω) (spec : AgentRunSpec) {messages : List Json} {budget : Nat}
    (hbudget : snipBudget spec = some budget)
    (hexceeds : budget < env.estimatePromptTokens messages)
    (huser : ∃ u ∈ messages, IsUser u) (hturns : DeclaredInTurn messages) :
    ∃ kept,
      snipHistory env spec messages = messages.filter (fun m => role m = some "system") ++ kept ∧
      Snipped env.estimateMessageTokens
        (max 128 budget -
          ((messages.filter fun m => role m = some "system").map env.estimateMessageTokens).sum)
        (messages.filter fun m => role m ≠ some "system") kept := by
  set nonSystem := messages.filter fun m => role m ≠ some "system" with hnonSystem
  have hturns' : DeclaredInTurn nonSystem := by
    refine hturns.filter fun m hm => ?_
    have hsystem : role m = some "system" := by simpa using hm
    refine ⟨fun hu => ?_, if_neg fun ha => ?_⟩
    · exact absurd (hu.symm.trans hsystem) (by decide)
    · exact absurd (ha.symm.trans hsystem) (by decide)
  have huser' : ∃ u ∈ nonSystem, IsUser u := by
    obtain ⟨u, hu, huser⟩ := huser
    refine ⟨u, List.mem_filter.mpr ⟨hu, ?_⟩, huser⟩
    rw [show role u = some "user" from huser]
    decide
  have hne : nonSystem ≠ [] := by
    obtain ⟨u, hu, -⟩ := huser'
    exact List.ne_nil_of_mem hu
  unfold snipHistory
  rw [hbudget]
  dsimp only
  rw [if_neg (Nat.not_le.mpr hexceeds), ← hnonSystem, if_neg (by simpa using hne)]
  generalize max 128 budget - _ = remaining
  obtain ⟨-, hsuffix, hfits⟩ := keepFitting_spec env.estimateMessageTokens remaining []
    nonSystem.reverse (Or.inl (Nat.zero_le _))
  have hkept := keepFitting_ne_nil env.estimateMessageTokens remaining
    (mt List.reverse_eq_nil_iff.mp hne)
  rw [List.reverse_reverse, List.append_nil] at hsuffix
  simp only [List.map_nil, List.sum_nil] at hsuffix hfits
  generalize keepFitting env.estimateMessageTokens remaining [] 0 nonSystem.reverse = kept
    at hsuffix hfits hkept ⊢
  have hsnipped := fromUser_spec hturns' huser' hsuffix hfits
  have hlegal : fromLegalStart (fromUser kept nonSystem) = fromUser kept nonSystem := by
    unfold fromLegalStart
    rw [findLegalMessageStart_of_noOrphan hsnipped.noOrphan, List.drop_zero]
  obtain ⟨u, rest, hcons, -⟩ := hsnipped.starts
  have hkept' : kept.isEmpty = false := by simpa using hkept
  have hresult : (fromUser kept nonSystem).isEmpty = false := by rw [hcons]; rfl
  refine ⟨fromUser kept nonSystem, ?_, hsnipped⟩
  simp only [hkept', hlegal, hresult, Bool.false_eq_true, if_false]

theorem DeclaredInTurn.concat (h : DeclaredInTurn messages) {last : Json}
    (hlast : AnswersCall last → ∃ before a after, messages = before ++ a :: after ∧
      answeredId last ∈ declaredBy a ∧ ∀ x ∈ after, ¬ IsUser x) :
    DeclaredInTurn (messages ++ [last]) :=
  forall_split_concat.mpr ⟨h, fun hm _ => hlast hm⟩

/-- An assistant message that calls a tool. -/
def callMessage : Json :=
  .obj [("role", .str "assistant"), ("tool_calls", .arr [.obj [("id", .str "a")]])]

/-- A conversation of two turns, the first with a tool call. -/
def twoTurns : List Json :=
  [textMessage "system" "s", textMessage "user" "q", callMessage,
    toolMessage (.str "a") "exec" (.str "r"), textMessage "user" "q", textMessage "assistant" "x"]

/-- Every message counts a hundred tokens. -/
def flatEnv : Env Unit where
  requestModel _ _ := ({ content := none }, ())
  chatWithRetry _ _ := ({ content := none }, ())
  executeTool w _ _ := (.null, w)
  estimatePromptTokens messages := 100 * messages.length
  estimateMessageTokens _ := 100

def snipSpec : AgentRunSpec :=
  { initialMessages := []
    maxIterations := 1
    contextWindowTokens := some 8192
    contextBlockLimit := some 300 }

theorem declaredInTurn_twoTurns : DeclaredInTurn twoTurns := by
  have hstart : DeclaredInTurn [] := fun pre m post h => by simp at h
  have hasked : DeclaredInTurn [textMessage "system" "s", textMessage "user" "q", callMessage] :=
    ((hstart.concat fun hm => absurd hm (by decide +kernel)).concat
      fun hm => absurd hm (by decide +kernel)).concat fun hm => absurd hm (by decide +kernel)
  have hanswered : DeclaredInTurn [textMessage "system" "s", textMessage "user" "q", callMessage,
      toolMessage (.str "a") "exec" (.str "r")] :=
    hasked.concat fun _ => ⟨[textMessage "system" "s", textMessage "user" "q"], callMessage, [],
      rfl, by decide +kernel, List.forall_mem_nil _⟩
  exact (hanswered.concat fun hm => absurd hm (by decide +kernel)).concat
    fun hm => absurd hm (by decide +kernel)

/-- With room for three messages the first turn goes. -/
theorem snipHistory_snips_twoTurns : ∃ kept,
    snipHistory flatEnv snipSpec twoTurns =
      twoTurns.filter (fun m => role m = some "system") ++ kept ∧
    Snipped flatEnv.estimateMessageTokens (max 128 300 -
      ((twoTurns.filter fun m => role m = some "system").map flatEnv.estimateMessageTokens).sum)
      (twoTurns.filter fun m => role m ≠ some "system") kept :=
  snipHistory_snips flatEnv snipSpec (by decide) (by decide +kernel)
    ⟨textMessage "user" "q", by simp [twoTurns], rfl⟩ declaredInTurn_twoTurns

end HiveClaw.Runner
