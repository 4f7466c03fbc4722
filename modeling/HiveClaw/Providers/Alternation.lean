import HiveClaw.Providers.Base
import Mathlib.Data.List.Chain
import Mathlib.Data.List.TakeWhile

/-!
# Alternating roles

`enforce_role_alternation` in three parts: the merging loop (`merged`), the removal of assistant
messages at the end with the recovery of the last one removed (`recoverPopped`), and the insertion
before a first assistant message (`insertOpening`). Each part keeps what the earlier ones have
established, and a list that has all of it is not changed (`enforce_of_alternating`). Messages with
tool calls and tool messages pass all parts as they are, so calls stay with their answers
(`Paired.enforce`).
-/

namespace HiveClaw.Providers

/-! ## The parts -/

def roleOf (m : Json) : String := (m.getStr "role").getD ""

/-- The two are merged: both are of the user, or both of the assistant. -/
def SameTurn (prev m : Json) : Prop :=
  roleOf prev = roleOf m ∧ (roleOf m = "user" ∨ roleOf m = "assistant")

instance (prev m : Json) : Decidable (SameTurn prev m) := inferInstanceAs (Decidable (_ ∧ _))

/-- The merging loop from a message on. -/
def mergeFrom (prev : Json) : List Json → List Json
  | [] => [prev]
  | m :: rest =>
    if SameTurn prev m then mergeFrom (mergeInto prev m) rest else prev :: mergeFrom m rest

def merged : List Json → List Json
  | [] => []
  | m :: rest => mergeFrom m rest

-- `role == Some("assistant")`
def isAssistant (m : Json) : Bool := m.getStr "role" = some "assistant"

/-- An assistant message without tool calls. -/
def isBare (m : Json) : Bool := isAssistant m && !hasTools m

/-- The messages without the assistant messages at the end. -/
def withoutTrailing (messages : List Json) : List Json :=
  (messages.reverse.dropWhile isAssistant).reverse

/-- The end of the list: assistant messages are removed, and the last one removed comes back as a
user message if there is no user or tool message. -/
def recoverPopped (messages : List Json) : List Json :=
  let kept := withoutTrailing messages
  match (messages.reverse.takeWhile isAssistant).getLast? with
  | some recovered =>
    if !kept.isEmpty && !kept.any fun m =>
        m.getStr "role" = some "user" || m.getStr "role" = some "tool" then
      kept ++ [setField recovered "role" (.str "user")]
    else kept
  | none => kept

/-- The message before a bare assistant message. -/
def openingMessage : Json :=
  .obj [("role", .str "user"), ("content", .str syntheticUserContent)]

/-- The beginning of the list: a first assistant message without tool calls gets a user message. -/
def insertOpening (messages : List Json) : List Json :=
  let systems := messages.takeWhile fun m => roleOf m = "system"
  match messages.drop systems.length with
  | first :: rest => if isBare first then systems ++ openingMessage :: first :: rest else messages
  | [] => messages

theorem foldl_mergeStep (before : List Json) (prev : Json) (messages : List Json) :
    messages.foldl mergeStep (before ++ [prev]) = before ++ mergeFrom prev messages := by
  induction messages generalizing before prev with
  | nil => rfl
  | cons m rest ih =>
    have hstep : mergeStep (before ++ [prev]) m =
        if SameTurn prev m then before ++ [mergeInto prev m] else (before ++ [prev]) ++ [m] := by
      unfold mergeStep
      rw [List.getLast?_concat, List.dropLast_concat]
      dsimp only
      congr 1
      simp [SameTurn, roleOf]
    rw [List.foldl_cons, hstep, mergeFrom]
    split
    · exact ih before (mergeInto prev m)
    · rw [ih, List.append_assoc, List.singleton_append]

theorem enforceRoleAlternation_eq (messages : List Json) :
    enforceRoleAlternation messages = insertOpening (recoverPopped (merged messages)) := by
  have hmerged : messages.foldl mergeStep [] = merged messages := by
    cases messages with
    | nil => rfl
    | cons m rest => exact foldl_mergeStep [] m rest
  unfold enforceRoleAlternation
  rw [hmerged]
  rfl

/-! ## What each part establishes -/

/-- No two messages of one turn follow each other, the last one is not of the assistant, and the
first one that is not a system message is no bare assistant message. -/
structure Alternating (messages : List Json) : Prop where
  chain : messages.IsChain fun m m' => ¬ SameTurn m m'
  last : ∀ m, messages.getLast? = some m → isAssistant m = false
  first : ∀ m, messages.find? (fun m => roleOf m ≠ "system") = some m → isBare m = false

variable {m : Json}

theorem roleOf_eq_iff {role : String} (h : role ≠ "") :
    roleOf m = role ↔ m.getStr "role" = some role := by
  unfold roleOf
  cases m.getStr "role" with
  | none => exact iff_of_false h.symm nofun
  | some r => rw [Option.getD_some, Option.some.injEq]

theorem isAssistant_iff (m : Json) : isAssistant m = true ↔ roleOf m = "assistant" := by
  rw [roleOf_eq_iff (by decide), isAssistant, decide_eq_true_iff]

theorem roleOf_setField_content (m value : Json) :
    roleOf (setField m "content" value) = roleOf m := by
  unfold roleOf Json.getStr
  rw [get_setField_of_ne m value (by decide)]

theorem hasTools_setField_content (m value : Json) :
    hasTools (setField m "content" value) = hasTools m := by
  unfold hasTools
  rw [get_setField_of_ne m value (by decide)]

variable {prev : Json}

/-- A merged message has the role of the two. -/
theorem roleOf_mergeInto (h : SameTurn prev m) : roleOf (mergeInto prev m) = roleOf prev := by
  unfold mergeInto
  split
  · exact h.1.symm
  · split
    · rfl
    · split
      · exact roleOf_setField_content _ _
      · exact h.1.symm

theorem mergeFrom_head (prev : Json) (messages : List Json) :
    ∃ m rest, mergeFrom prev messages = m :: rest ∧ roleOf m = roleOf prev := by
  induction messages generalizing prev with
  | nil => exact ⟨prev, [], rfl, rfl⟩
  | cons m rest ih =>
    rw [mergeFrom]
    split
    · rename_i hsame
      obtain ⟨first, others, heq, hrole⟩ := ih (mergeInto prev m)
      exact ⟨first, others, heq, hrole.trans (roleOf_mergeInto hsame)⟩
    · exact ⟨prev, mergeFrom m rest, rfl, rfl⟩

theorem mergeFrom_chain (prev : Json) (messages : List Json) :
    (mergeFrom prev messages).IsChain fun m m' => ¬ SameTurn m m' := by
  induction messages generalizing prev with
  | nil => exact List.isChain_singleton _
  | cons m rest ih =>
    rw [mergeFrom]
    split
    · exact ih (mergeInto prev m)
    · rename_i hsame
      obtain ⟨first, others, heq, hrole⟩ := mergeFrom_head m rest
      have htail := ih m
      rw [heq] at htail ⊢
      refine List.isChain_cons_cons.mpr ⟨?_, htail⟩
      unfold SameTurn at hsame ⊢
      rw [hrole]
      exact hsame

theorem merged_chain (messages : List Json) :
    (merged messages).IsChain fun m m' => ¬ SameTurn m m' := by
  cases messages with
  | nil => exact List.isChain_nil
  | cons m rest => exact mergeFrom_chain m rest

theorem withoutTrailing_append (messages : List Json) :
    ∃ trailing, withoutTrailing messages ++ trailing = messages ∧
      ∀ m ∈ trailing, isAssistant m = true := by
  refine ⟨(messages.reverse.takeWhile isAssistant).reverse, ?_, ?_⟩
  · unfold withoutTrailing
    rw [← List.reverse_append, List.takeWhile_append_dropWhile, List.reverse_reverse]
  · intro m hm
    exact List.mem_takeWhile_imp (List.mem_reverse.mp hm)

variable {messages : List Json}

theorem withoutTrailing_last (h : (withoutTrailing messages).getLast? = some m) :
    isAssistant m = false := by
  unfold withoutTrailing at h
  rw [List.getLast?_reverse] at h
  have hhead := List.head?_dropWhile_not isAssistant messages.reverse
  rw [h] at hhead
  exact hhead

theorem recoverPopped_cases (messages : List Json) :
    recoverPopped messages = withoutTrailing messages ∨
      ∃ recovered, recoverPopped messages = withoutTrailing messages ++ [recovered] ∧
        roleOf recovered = "user" ∧
        ∀ m ∈ withoutTrailing messages, roleOf m ≠ "user" ∧ roleOf m ≠ "tool" := by
  unfold recoverPopped
  dsimp only
  cases hpopped : (messages.reverse.takeWhile isAssistant).getLast? with
  | none => exact .inl rfl
  | some recovered =>
    dsimp only
    split
    · rename_i hcond
      rw [Bool.and_eq_true, Bool.not_eq_true', Bool.not_eq_true', List.any_eq_false] at hcond
      refine .inr ⟨_, rfl, ?_, ?_⟩
      · have hassistant := List.mem_takeWhile_imp (List.mem_of_getLast? hpopped)
        cases recovered with
        | obj fields =>
          unfold roleOf Json.getStr
          show ((JsonMap.get _ "role").bind Json.asStr).getD "" = "user"
          rw [JsonMap.get_insert_self]
          rfl
        | _ => exact absurd hassistant Bool.false_ne_true
      · intro m hm
        have hrole := hcond.2 m hm
        rw [Bool.or_eq_true, decide_eq_true_iff, decide_eq_true_iff, not_or] at hrole
        rw [Ne, Ne, roleOf_eq_iff (by decide), roleOf_eq_iff (by decide)]
        exact hrole
    · exact .inl rfl

theorem roleOf_openingMessage : roleOf openingMessage = "user" := rfl

theorem find_first {systems rest : List Json} {first : Json}
    (hsystems : ∀ m ∈ systems, roleOf m = "system") (hfirst : roleOf first ≠ "system") :
    (systems ++ first :: rest).find? (fun m => roleOf m ≠ "system") = some first := by
  have hnone : systems.find? (fun m => roleOf m ≠ "system") = none := by
    rw [List.find?_eq_none]
    intro m hm
    simp [hsystems m hm]
  rw [List.find?_append, hnone, Option.none_or, List.find?_cons_of_pos (by simpa using hfirst)]

theorem roleOf_of_isBare (h : isBare m = true) : roleOf m = "assistant" := by
  rw [← isAssistant_iff]
  exact (Bool.and_eq_true_iff.mp h).1

theorem insertOpening_cases (messages : List Json) :
    (insertOpening messages = messages ∧
      ∀ m, messages.find? (fun m => roleOf m ≠ "system") = some m → isBare m = false) ∨
    ∃ systems first rest, messages = systems ++ first :: rest ∧
      (∀ m ∈ systems, roleOf m = "system") ∧ isBare first = true ∧
      insertOpening messages = systems ++ openingMessage :: first :: rest := by
  have hsplit : messages.takeWhile (fun m => roleOf m = "system") ++
      messages.dropWhile (fun m => roleOf m = "system") = messages := List.takeWhile_append_dropWhile
  have hsystems : ∀ m ∈ messages.takeWhile (fun m => roleOf m = "system"), roleOf m = "system" := by
    intro m hm
    have hsystem := List.mem_takeWhile_imp hm
    exact of_decide_eq_true hsystem
  have hhead := List.head?_dropWhile_not (fun m => roleOf m = "system") messages
  unfold insertOpening
  generalize messages.takeWhile (fun m => roleOf m = "system") = systems at hsplit hsystems
  generalize messages.dropWhile (fun m => roleOf m = "system") = others at hsplit hhead
  subst hsplit
  dsimp only
  rw [List.drop_left]
  cases others with
  | nil =>
    refine .inl ⟨rfl, fun m hm => ?_⟩
    rw [List.append_nil] at hm
    have hrole := List.find?_some hm
    rw [hsystems m (List.mem_of_find?_eq_some hm)] at hrole
    exact absurd hrole (by decide)
  | cons first rest =>
    dsimp only
    split
    · rename_i hbare
      exact .inr ⟨systems, first, rest, rfl, hsystems, hbare, rfl⟩
    · rename_i hbare
      refine .inl ⟨rfl, fun m hm => ?_⟩
      rw [find_first hsystems (of_decide_eq_false hhead)] at hm
      obtain rfl := Option.some.inj hm
      exact Bool.eq_false_iff.mpr hbare

/-! ## The result alternates -/

theorem not_sameTurn_of_left (h : roleOf prev ≠ "user" ∧ roleOf prev ≠ "assistant") :
    ¬ SameTurn prev m := by
  rintro ⟨heq, hrole⟩
  rw [← heq] at hrole
  exact hrole.elim h.1 h.2

theorem recoverPopped_chain (h : messages.IsChain fun m m' => ¬ SameTurn m m') :
    (recoverPopped messages).IsChain fun m m' => ¬ SameTurn m m' := by
  obtain ⟨trailing, hsplit, -⟩ := withoutTrailing_append messages
  have hkept : (withoutTrailing messages).IsChain fun m m' => ¬ SameTurn m m' := by
    rw [← hsplit] at h
    exact (List.isChain_append.mp h).1
  rcases recoverPopped_cases messages with heq | ⟨recovered, heq, hrole, hothers⟩
  · rw [heq]
    exact hkept
  · rw [heq, List.isChain_append]
    refine ⟨hkept, List.isChain_singleton _, ?_⟩
    intro m hm recovered' hrecovered ⟨hsame, _⟩
    obtain rfl := Option.some.inj hrecovered
    exact (hothers m (List.mem_of_getLast? hm)).1 (hsame.trans hrole)

theorem recoverPopped_last (h : (recoverPopped messages).getLast? = some m) : isAssistant m = false := by
  rcases recoverPopped_cases messages with heq | ⟨recovered, heq, hrole, -⟩
  · rw [heq] at h
    exact withoutTrailing_last h
  · rw [heq, List.getLast?_concat] at h
    obtain rfl := Option.some.inj h
    rw [Bool.eq_false_iff, Ne, isAssistant_iff, hrole]
    decide

theorem enforce_alternating (messages : List Json) :
    Alternating (enforceRoleAlternation messages) := by
  rw [enforceRoleAlternation_eq]
  have hchain := recoverPopped_chain (merged_chain messages)
  have hlast : ∀ m, (recoverPopped (merged messages)).getLast? = some m → isAssistant m = false :=
    fun m hm => recoverPopped_last hm
  generalize recoverPopped (merged messages) = messages at hchain hlast
  rcases insertOpening_cases messages with ⟨heq, hfirst⟩ | ⟨systems, first, rest, rfl, hsys, hbare, heq⟩
  · rw [heq]
    exact ⟨hchain, hlast, hfirst⟩
  · rw [heq]
    have hrole := roleOf_of_isBare hbare
    obtain ⟨hfront, hback, -⟩ := List.isChain_append.mp hchain
    refine ⟨?_, ?_, ?_⟩
    · rw [List.isChain_append]
      refine ⟨hfront, List.isChain_cons_cons.mpr ⟨?_, hback⟩, ?_⟩
      · rintro ⟨hsame, -⟩
        rw [hrole, roleOf_openingMessage] at hsame
        exact absurd hsame (by decide)
      · intro m hm m' hm'
        apply not_sameTurn_of_left
        rw [hsys m (List.mem_of_getLast? hm)]
        decide
    · intro m hm
      apply hlast
      rw [List.getLast?_append_cons, List.getLast?_cons_cons] at hm
      rw [List.getLast?_append_cons]
      exact hm
    · intro m hm
      rw [find_first hsys (by decide)] at hm
      obtain rfl := Option.some.inj hm
      rfl

/-- An alternating list stays as it is. -/
theorem enforce_of_alternating (h : Alternating messages) :
    enforceRoleAlternation messages = messages := by
  have hmerged : merged messages = messages := by
    have hfrom : ∀ (rest : List Json) (prev : Json),
        (prev :: rest).IsChain (fun m m' => ¬ SameTurn m m') → mergeFrom prev rest = prev :: rest := by
      intro rest
      induction rest with
      | nil => exact fun _ _ => rfl
      | cons m rest ih =>
        intro prev hchain
        obtain ⟨hne, htail⟩ := List.isChain_cons_cons.mp hchain
        rw [mergeFrom, if_neg hne, ih m htail]
    cases messages with
    | nil => rfl
    | cons m rest => exact hfrom rest m h.chain
  have hrecovered : recoverPopped messages = messages := by
    have hends : messages.reverse.takeWhile isAssistant = [] ∧
        messages.reverse.dropWhile isAssistant = messages.reverse := by
      cases hrev : messages.reverse with
      | nil => exact ⟨rfl, rfl⟩
      | cons last front =>
        have hlast : isAssistant last = false := by
          apply h.last
          rw [List.getLast?_eq_head?_reverse, hrev]
          rfl
        have hnot : ¬ isAssistant last = true := Bool.eq_false_iff.mp hlast
        exact ⟨List.takeWhile_cons_of_neg hnot, List.dropWhile_cons_of_neg hnot⟩
    unfold recoverPopped withoutTrailing
    rw [hends.1, hends.2, List.reverse_reverse]
    rfl
  rw [enforceRoleAlternation_eq, hmerged, hrecovered]
  rcases insertOpening_cases messages with ⟨heq, -⟩ | ⟨systems, first, rest, rfl, hsys, hbare, -⟩
  · exact heq
  · have hsystem : roleOf first ≠ "system" := by
      rw [roleOf_of_isBare hbare]
      decide
    have hfirst := h.first first (find_first hsys hsystem)
    rw [hbare] at hfirst
    cases hfirst

/-! ## Tool calls and their answers -/

/-- The ids of the tool calls of a message. -/
def toolCallIds (m : Json) : List String :=
  (((m.get "tool_calls").bind Json.asArray).getD []).filterMap fun tc => tc.getStr "id"

/-- The messages begin with tool messages that answer exactly the calls of the message. With
`closed`, these are all the tool messages there, unless there are no calls to answer. -/
def AnsweredBy (closed : Bool) (m : Json) (messages : List Json) : Prop :=
  ∃ tools rest, messages = tools ++ rest ∧ (∀ t ∈ tools, roleOf t = "tool") ∧
    (tools.map fun t => t.getStr "tool_call_id").Perm ((toolCallIds m).map some) ∧
    (closed = true → toolCallIds m ≠ [] → ∀ t, rest.head? = some t → roleOf t ≠ "tool")

/-- Every assistant message with tool calls is followed by its answers. -/
def Paired (closed : Bool) : List Json → Prop
  | [] => True
  | m :: rest =>
    (roleOf m = "assistant" → hasTools m = true → AnsweredBy closed m rest) ∧ Paired closed rest

section Pairing

variable {closed : Bool}

variable {m : Json} {rest : List Json}

theorem Paired.tail (h : Paired closed (m :: rest)) : Paired closed rest := h.2

theorem paired_cons_other (hm : roleOf m ≠ "assistant") (h : Paired closed rest) :
    Paired closed (m :: rest) :=
  ⟨fun hrole => absurd hrole hm, h⟩

theorem merged_append_of_tools {tools : List Json} (h : ∀ t ∈ tools, roleOf t = "tool")
    (rest : List Json) : merged (tools ++ rest) = tools ++ merged rest := by
  induction tools with
  | nil => rfl
  | cons t tools ih =>
    have htool := h t List.mem_cons_self
    have hnot {m : Json} : ¬ SameTurn t m := by
      apply not_sameTurn_of_left
      rw [htool]
      decide
    have hrest := ih fun t' ht' => h t' (List.mem_cons_of_mem t ht')
    have hcons (l : List Json) : mergeFrom t l = t :: merged l := by
      cases l with
      | nil => rfl
      | cons m l => rw [mergeFrom, if_neg hnot, merged]
    rw [List.cons_append, merged, hcons, hrest, List.cons_append]

theorem merged_head (messages : List Json) :
    (merged messages).head?.map roleOf = messages.head?.map roleOf := by
  cases messages with
  | nil => rfl
  | cons m rest =>
    obtain ⟨first, others, heq, hrole⟩ := mergeFrom_head m rest
    rw [merged, heq, List.head?_cons, List.head?_cons, Option.map_some, Option.map_some, hrole]

variable {messages : List Json}

theorem AnsweredBy.of_tools (h : AnsweredBy closed m messages) :
    ∃ tools rest, messages = tools ++ rest ∧ (∀ t ∈ tools, roleOf t = "tool") ∧
      ∀ rest', (∀ t, rest'.head? = some t → roleOf t = "tool" →
        ∃ t', rest.head? = some t' ∧ roleOf t' = "tool") → AnsweredBy closed m (tools ++ rest') := by
  obtain ⟨tools, rest, heq, htools, hperm, hclosed⟩ := h
  refine ⟨tools, rest, heq, htools, fun rest' hhead => ⟨tools, rest', rfl, htools, hperm, ?_⟩⟩
  intro hc hids t ht hrole
  obtain ⟨t', ht', hrole'⟩ := hhead t ht hrole
  exact hclosed hc hids t' ht' hrole'

theorem AnsweredBy.merged (h : AnsweredBy closed m messages) :
    AnsweredBy closed m (merged messages) := by
  obtain ⟨tools, rest, rfl, htools, hkeep⟩ := h.of_tools
  rw [merged_append_of_tools htools]
  apply hkeep
  intro t ht hrole
  have hhead := merged_head rest
  rw [ht, Option.map_some, hrole] at hhead
  obtain ⟨t', ht', hrole'⟩ := Option.map_eq_some_iff.mp hhead.symm
  exact ⟨t', ht', hrole'⟩

/-- Only a message without calls is followed by an assistant message. -/
theorem AnsweredBy.skip {m m' : Json} {rest : List Json} (h : AnsweredBy closed m (m' :: rest))
    (hm' : roleOf m' ≠ "tool") : AnsweredBy closed m rest := by
  obtain ⟨tools, after, heq, htools, hperm, -⟩ := h
  cases tools with
  | cons t tools =>
    obtain ⟨rfl, -⟩ := List.cons.inj heq
    exact absurd (htools m' List.mem_cons_self) hm'
  | nil =>
    have hnone : toolCallIds m = [] := List.map_eq_nil_iff.mp (List.nil_perm.mp hperm)
    exact ⟨[], rest, rfl, List.forall_mem_nil _, hperm, fun _ hids => absurd hnone hids⟩

/-- Merging two messages of one turn keeps the calls with their answers. -/
theorem Paired.mergeInto {prev m : Json} {rest : List Json} (hsame : SameTurn prev m)
    (h : Paired closed (prev :: m :: rest)) : Paired closed (mergeInto prev m :: rest) := by
  refine ⟨fun hrole htools => ?_, h.2.2⟩
  rw [roleOf_mergeInto hsame] at hrole
  have hm : roleOf m = "assistant" := hsame.1.symm.trans hrole
  have hstr : m.getStr "role" = some "assistant" := (roleOf_eq_iff (by decide)).mp hm
  unfold Providers.mergeInto at htools ⊢
  rw [hstr] at htools ⊢
  split
  · rename_i hcalls
    exact h.2.1 hm (Bool.and_eq_true_iff.mp hcalls).2
  · rename_i hcalls
    rw [if_neg hcalls] at htools
    split
    · rename_i hprev
      exact (h.1 hrole (Bool.and_eq_true_iff.mp hprev).2).skip (by rw [hm]; decide)
    · -- neither has calls, and merging adds none
      rename_i hprev
      rw [if_neg hprev] at htools
      rw [decide_eq_true rfl, Bool.true_and] at hcalls hprev
      split at htools
      · rw [hasTools_setField_content] at htools
        exact absurd htools hprev
      · exact absurd htools hcalls

theorem Paired.mergeFrom {prev : Json} {messages : List Json}
    (h : Paired closed (prev :: messages)) : Paired closed (mergeFrom prev messages) := by
  induction messages generalizing prev with
  | nil => exact h
  | cons m rest ih =>
    rw [Providers.mergeFrom]
    split
    · rename_i hsame
      exact ih (h.mergeInto hsame)
    · exact ⟨fun hrole htools => (h.1 hrole htools).merged, ih h.tail⟩

theorem Paired.merged (h : Paired closed messages) : Paired closed (merged messages) := by
  cases messages with
  | nil => exact h
  | cons m rest => exact h.mergeFrom

theorem AnsweredBy.change_end {trailing trailing' : List Json}
    (h : AnsweredBy closed m (messages ++ trailing))
    (htrailing : ∀ t ∈ trailing, roleOf t ≠ "tool")
    (htrailing' : ∀ t ∈ trailing', roleOf t ≠ "tool") :
    AnsweredBy closed m (messages ++ trailing') := by
  obtain ⟨tools, rest, heq, htools, hkeep⟩ := h.of_tools
  rcases List.append_eq_append_iff.mp heq with ⟨beyond, rfl, rfl⟩ | ⟨front, rfl, rfl⟩
  · -- the answers do not reach into the end
    have hnone : beyond = [] := by
      apply List.eq_nil_iff_forall_not_mem.mpr
      intro t ht
      exact htrailing t (List.mem_append_left _ ht) (htools t (List.mem_append_right _ ht))
    rw [hnone, List.append_nil] at hkeep
    apply hkeep
    intro t ht hrole
    exact absurd hrole (htrailing' t (List.mem_of_mem_head? ht))
  · rw [List.append_assoc]
    apply hkeep
    intro t ht hrole
    cases front with
    | nil => exact absurd hrole (htrailing' t (List.mem_of_mem_head? ht))
    | cons t' front =>
      obtain rfl := Option.some.inj ht
      exact ⟨t', rfl, hrole⟩

theorem Paired.change_end {messages trailing trailing' : List Json}
    (h : Paired closed (messages ++ trailing)) (htrailing : ∀ t ∈ trailing, roleOf t ≠ "tool")
    (htrailing' : ∀ t ∈ trailing', roleOf t ≠ "tool") (hpaired : Paired closed trailing') :
    Paired closed (messages ++ trailing') := by
  induction messages with
  | nil => exact hpaired
  | cons m rest ih =>
    exact ⟨fun hrole htools => (h.1 hrole htools).change_end htrailing htrailing', ih h.tail⟩

theorem Paired.recoverPopped (h : Paired closed messages) :
    Paired closed (recoverPopped messages) := by
  obtain ⟨trailing, hsplit, hassistants⟩ := withoutTrailing_append messages
  rw [← hsplit] at h
  have htrailing : ∀ t ∈ trailing, roleOf t ≠ "tool" := by
    intro t ht
    rw [(isAssistant_iff t).mp (hassistants t ht)]
    decide
  rcases recoverPopped_cases messages with heq | ⟨recovered, heq, hrole, -⟩
  · rw [heq, ← List.append_nil (withoutTrailing messages)]
    exact h.change_end htrailing (List.forall_mem_nil _) trivial
  · rw [heq]
    refine h.change_end htrailing ?_ (paired_cons_other (by rw [hrole]; decide) trivial)
    intro t ht
    rw [List.mem_singleton.mp ht, hrole]
    decide

theorem Paired.insertOpening (h : Paired closed messages) :
    Paired closed (insertOpening messages) := by
  rcases insertOpening_cases messages with ⟨heq, -⟩ | ⟨systems, first, rest, rfl, hsys, -, heq⟩
  · rw [heq]
    exact h
  · rw [heq]
    clear heq
    induction systems with
    | nil => exact paired_cons_other (by rw [roleOf_openingMessage]; decide) h
    | cons m systems ih =>
      refine paired_cons_other ?_ (ih h.tail fun m' hm' => hsys m' (List.mem_cons_of_mem m hm'))
      rw [hsys m List.mem_cons_self]
      decide

theorem Paired.enforce (h : Paired closed messages) :
    Paired closed (enforceRoleAlternation messages) := by
  rw [enforceRoleAlternation_eq]
  exact h.merged.recoverPopped.insertOpening

end Pairing

/-- **Role alternation.** The result alternates, it is not changed again, and calls stay with their
answers. -/
theorem enforce_sound (messages : List Json) :
    Alternating (enforceRoleAlternation messages) ∧
      enforceRoleAlternation (enforceRoleAlternation messages) = enforceRoleAlternation messages ∧
      ∀ closed, Paired closed messages → Paired closed (enforceRoleAlternation messages) :=
  ⟨enforce_alternating messages, enforce_of_alternating (enforce_alternating messages),
    fun _ h => h.enforce⟩

/-- A question in two messages, a tool call with its answer, and a reply. -/
def searchTurn : List Json :=
  [.obj [("role", .str "user"), ("content", .str "What is new?")],
    .obj [("role", .str "user"), ("content", .str "In the papers.")],
    .obj [("role", .str "assistant"), ("content", .null),
      ("tool_calls", .arr [.obj [("id", .str "call_1")]])],
    .obj [("role", .str "tool"), ("tool_call_id", .str "call_1"), ("content", .str "Nothing.")],
    .obj [("role", .str "assistant"), ("content", .str "Nothing is.")]]

theorem enforce_sound_searchTurn : Paired true (enforceRoleAlternation searchTurn) := by
  refine (enforce_sound searchTurn).2.2 true ⟨?_, ?_, ?_, ?_, ?_, trivial⟩
  · exact fun hrole => absurd hrole (by decide)
  · exact fun hrole => absurd hrole (by decide)
  · intro _ _
    refine ⟨[_], [_], rfl, ?_, ?_, ?_⟩
    · exact List.forall_mem_singleton.mpr rfl
    · exact List.Perm.refl _
    · intro _ _ t ht
      obtain rfl := Option.some.inj ht
      decide
  · exact fun hrole => absurd hrole (by decide)
  · exact fun _ htools => absurd htools (by decide)

end HiveClaw.Providers
