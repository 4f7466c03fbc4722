import HiveClaw.Runner.Newest
import HiveClaw.Runner.Steps

/-!
# Injected messages and the requests that follow

A run drains user messages from the injection callback after tools, after a fatal tool error,
and in `handle_final_content`. After tools and after a fatal error the loop goes on, and the
next request holds the messages. `handle_final_content` returns from the run. So every
message that is drained before the last iteration is answered exactly if nothing is drained
in `handle_final_content` (`allAnswered_iff_noneLeft`).
-/

namespace HiveClaw.Runner

open Providers

variable {ω : Type} {env : Env ω} {spec : AgentRunSpec}

/-! ## The texts of a message -/

/-- The texts of a content, as the blocks it is merged as. -/
def textsOf (env : Env ω) (content : Json) : List String :=
  (toBlocks env content).filterMap fun block => block.getStr "text"

def messageTexts (env : Env ω) (m : Json) : List String :=
  ((m.get "content").map (textsOf env)).getD []

/-- The second list has all texts of the first, as parts of its own. -/
def Within (part whole : List String) : Prop :=
  ∀ t ∈ part, ∃ u ∈ whole, t.toList <:+: u.toList

theorem Within.of_subset {part whole : List String} (h : part ⊆ whole) : Within part whole :=
  fun t ht => ⟨t, h ht, List.infix_refl _⟩

theorem Within.trans {a b c : List String} (hab : Within a b) (hbc : Within b c) : Within a c := by
  intro t ht
  obtain ⟨u, hu, htu⟩ := hab t ht
  obtain ⟨v, hv, huv⟩ := hbc u hu
  exact ⟨v, hv, htu.trans huv⟩

theorem toBlocks_objects (env : Env ω) (content : Json) :
    ∀ block ∈ toBlocks env content, ∃ fields, block = .obj fields := by
  intro block hblock
  cases content with
  | null => exact absurd hblock List.not_mem_nil
  | arr items =>
    obtain ⟨item, -, rfl⟩ := List.mem_map.mp hblock
    cases item <;> exact ⟨_, rfl⟩
  | _ =>
    obtain rfl := List.mem_singleton.mp hblock
    exact ⟨_, rfl⟩

theorem textsOf_arr_blocks (env : Env ω) {blocks : List Json}
    (h : ∀ block ∈ blocks, ∃ fields, block = .obj fields) :
    textsOf env (.arr blocks) = blocks.filterMap fun block => block.getStr "text" := by
  have hblocks : toBlocks env (.arr blocks) = blocks := by
    show blocks.map _ = blocks
    refine (List.map_congr_left fun block hblock => ?_).trans (List.map_id blocks)
    obtain ⟨fields, rfl⟩ := h block hblock
    rfl
  rw [textsOf, hblocks]

theorem within_mergeMessageContent (env : Env ω) (left right : Option Json) :
    Within ((left.map (textsOf env)).getD []) (textsOf env (mergeMessageContent env left right)) ∧
      Within ((right.map (textsOf env)).getD [])
        (textsOf env (mergeMessageContent env left right)) := by
  have hblocks : ∀ l r : Json,
      Within (textsOf env l) (textsOf env (.arr (toBlocks env l ++ toBlocks env r))) ∧
        Within (textsOf env r) (textsOf env (.arr (toBlocks env l ++ toBlocks env r))) := by
    intro l r
    have hobjects : ∀ block ∈ toBlocks env l ++ toBlocks env r, ∃ fields, block = .obj fields := by
      intro block hblock
      rcases List.mem_append.mp hblock with hblock | hblock
      · exact toBlocks_objects env l block hblock
      · exact toBlocks_objects env r block hblock
    rw [textsOf_arr_blocks env hobjects, List.filterMap_append]
    exact ⟨.of_subset (List.subset_append_left _ _), .of_subset (List.subset_append_right _ _)⟩
  have hnone : ∀ whole, Within [] whole := fun whole t ht => absurd ht List.not_mem_nil
  unfold mergeMessageContent
  split
  case h_1 a b =>
    have htext : ∀ s : String, textsOf env (.str s) = [s] := fun s => rfl
    simp only [Option.map_some, Option.getD_some, htext]
    split
    case isTrue hempty =>
      refine ⟨fun t ht => ⟨b, List.mem_singleton_self b, ?_⟩, .of_subset (List.Subset.refl _)⟩
      rw [List.mem_singleton.mp ht, hempty]
      exact List.nil_infix
    case isFalse =>
      rw [htext]
      refine ⟨fun t ht => ⟨_, List.mem_singleton_self _, ?_⟩,
        fun t ht => ⟨_, List.mem_singleton_self _, ?_⟩⟩
      · rw [List.mem_singleton.mp ht, String.toList_append, String.toList_append,
          List.append_assoc]
        exact (List.prefix_append _ _).isInfix
      · rw [List.mem_singleton.mp ht, String.toList_append]
        exact (List.suffix_append _ _).isInfix
  case h_2 l r _ => exact hblocks l r
  case h_3 v => exact ⟨.of_subset (List.Subset.refl _), hnone _⟩
  case h_4 v => exact ⟨hnone _, .of_subset (List.Subset.refl _)⟩
  case h_5 => exact ⟨hnone _, hnone _⟩

/-! ## The last message -/

/-- The last message is a user message with the texts of `injection`. -/
def LastCarries (env : Env ω) (messages : List Json) (injection : Json) : Prop :=
  ∃ before m, messages = before ++ [m] ∧ role m = some "user" ∧
    Within (messageTexts env injection) (messageTexts env m)

variable {injection : Json}

theorem lastCarries_push (env : Env ω) (messages : List Json)
    (huser : role injection = some "user") : LastCarries env (messages ++ [injection]) injection :=
  ⟨messages, injection, rfl, huser, .of_subset (List.Subset.refl _)⟩

variable {m : Json}

theorem messageTexts_setContent (env : Env ω) (hm : (role m).isSome) (v : Json) :
    messageTexts env (setField m "content" v) = textsOf env v := by
  cases m with
  | obj fields =>
    have hget : (setField (.obj fields) "content" v).get "content" = some v :=
      JsonMap.get_insert_self fields "content" v
    rw [messageTexts, hget]
    rfl
  | _ => exact absurd hm Bool.false_ne_true

theorem appendInjected_user (env : Env ω) (before : List Json) (hm : role m = some "user")
    (huser : role injection = some "user") :
    appendInjected env (before ++ [m]) injection = before ++ [setField m "content"
      (mergeMessageContent env (m.get "content") (injection.get "content"))] := by
  unfold appendInjected
  rw [List.getLast?_concat, List.dropLast_concat]
  exact if_pos ⟨huser, hm⟩

theorem lastCarries_appendInjected (env : Env ω) (messages : List Json)
    (huser : role injection = some "user") :
    LastCarries env (appendInjected env messages injection) injection := by
  rcases List.eq_nil_or_concat messages with rfl | ⟨before, m, rfl⟩
  · exact lastCarries_push env [] huser
  · by_cases hm : role m = some "user"
    · rw [List.concat_eq_append, appendInjected_user env before hm huser]
      refine ⟨before, _, rfl, (role_setContent _ _).trans hm, ?_⟩
      rw [messageTexts_setContent env (by simp [hm])]
      exact (within_mergeMessageContent env _ _).2
    · have hpush : appendInjected env (before.concat m) injection = before.concat m ++ [injection] := by
        unfold appendInjected
        rw [List.concat_eq_append, List.getLast?_concat]
        exact if_neg fun h => hm h.2
      rw [hpush]
      exact lastCarries_push env _ huser

theorem LastCarries.appendInjected {messages : List Json} {earlier : Json}
    (h : LastCarries env messages earlier) (huser : role injection = some "user") :
    LastCarries env (appendInjected env messages injection) earlier := by
  obtain ⟨before, m, rfl, hm, hwithin⟩ := h
  rw [appendInjected_user env before hm huser]
  refine ⟨before, _, rfl, (role_setContent _ _).trans hm, ?_⟩
  rw [messageTexts_setContent env (by simp [hm])]
  exact hwithin.trans (within_mergeMessageContent env _ _).1

theorem lastCarries_foldl (env : Env ω) (messages injected : List Json)
    (husers : ∀ m ∈ injected, role m = some "user") :
    ∀ i ∈ injected, LastCarries env (injected.foldl (appendInjected env) messages) i := by
  have hkeep : ∀ (rest : List Json) (ms : List Json) (i : Json),
      (∀ m ∈ rest, role m = some "user") → LastCarries env ms i →
      LastCarries env (rest.foldl (Runner.appendInjected env) ms) i := by
    intro rest
    induction rest with
    | nil => exact fun ms i _ h => h
    | cons m rest ih =>
      intro ms i hrest h
      obtain ⟨hm, hrest⟩ := List.forall_mem_cons.mp hrest
      exact ih _ i hrest (h.appendInjected hm)
  induction injected generalizing messages with
  | nil => exact fun i hi => absurd hi List.not_mem_nil
  | cons m injected ih =>
    obtain ⟨hm, hrest⟩ := List.forall_mem_cons.mp husers
    intro i hi
    rcases List.mem_cons.mp hi with rfl | hi
    · exact hkeep injected _ i hrest (lastCarries_appendInjected env messages hm)
    · exact ih _ hrest i hi

/-! ## Answered injections -/

/-- A request whose messages have the texts of `injection` in a user message. -/
def Holds (env : Env ω) (injection : Json) (messages : List Json) : Prop :=
  ∃ m ∈ messages, role m = some "user" ∧ Within (messageTexts env injection) (messageTexts env m)

/-- A model request with the texts of `injection`. -/
def RunEvent.Asks (env : Env ω) (injection : Json) : RunEvent → Prop
  | .request messages => Holds env injection messages
  | .finalizationRetry messages => Holds env injection messages
  | _ => False

/-- Every message that was drained before the last iteration is in a request after that. -/
def AllAnswered (env : Env ω) (maxIterations : Nat) : List RunEvent → Prop
  | [] => True
  | e :: rest =>
    (match e with
      | .drained _ iteration injected => iteration + 1 < maxIterations →
        ∀ i ∈ injected, ∃ r ∈ rest, r.Asks env i
      | _ => True) ∧ AllAnswered env maxIterations rest

/-- The event is no draining in `handle_final_content` before the last iteration. -/
def RunEvent.NotLeft (maxIterations : Nat) : RunEvent → Prop
  | .drained site iteration _ => iteration + 1 < maxIterations →
    site = .afterTools ∨ site = .afterFatalToolError
  | _ => True

variable {n : Nat} {es fs : List RunEvent}

theorem AllAnswered.append (hes : AllAnswered env n es) (hfs : AllAnswered env n fs) :
    AllAnswered env n (es ++ fs) := by
  induction es with
  | nil => exact hfs
  | cons e es ih =>
    refine ⟨?_, ih hes.2⟩
    have he := hes.1
    cases e with
    | drained site iteration injected =>
      intro hlt i hi
      obtain ⟨r, hr, hasks⟩ := he hlt i hi
      exact ⟨r, List.mem_append_left _ hr, hasks⟩
    | _ => trivial

theorem AllAnswered.right (h : AllAnswered env n (es ++ fs)) : AllAnswered env n fs := by
  induction es with
  | nil => exact h
  | cons e es ih => exact ih h.2

/-- The injections at the end of the log are in the last message. -/
structure Pending (env : Env ω) (n iteration : Nat) (c : Core) : Prop where
  split : ∃ before site k injected, c.log = before ++ [.drained site k injected] ∧
    AllAnswered env n before ∧ k + 1 = iteration ∧ ∀ i ∈ injected, LastCarries env c.messages i

/-- What holds before an iteration. -/
structure Core.Attended (env : Env ω) (n iteration : Nat) (c : Core) : Prop where
  notLeft : ∀ e ∈ c.log, e.NotLeft n
  answered : AllAnswered env n c.log ∨ Pending env n iteration c

variable {iteration : Nat} {c : Core}

theorem Core.Attended.requested (h : c.Attended env n iteration) (w : ω) (extra : List RunEvent)
    (hextra : AllAnswered env n extra) :
    AllAnswered env n (c.log ++ .request (govern env spec w c.messages).1 :: extra) := by
  rcases h.answered with hall | ⟨before, site, k, injected, hlog, hbefore, -, hcarries⟩
  · exact hall.append ⟨trivial, hextra⟩
  · rw [hlog, List.append_assoc]
    refine hbefore.append ⟨fun _ i hi => ?_, trivial, hextra⟩
    obtain ⟨before, m, hmessages, hm, hwithin⟩ := hcarries i hi
    refine ⟨_, List.mem_cons_self, m, ?_, hm, hwithin⟩
    rw [hmessages]
    exact mem_govern env spec w before hm

theorem notLeft_append (hes : ∀ e ∈ es, e.NotLeft n) (hfs : ∀ e ∈ fs, e.NotLeft n) :
    ∀ e ∈ es ++ fs, e.NotLeft n := by
  intro e he
  rcases List.mem_append.mp he with he | he
  · exact hes e he
  · exact hfs e he

variable {c' : Core}

theorem Drain.attended {site : DrainSite} {d : Bool}
    (hdrain : Drain env site iteration none c d c')
    (hsite : site = .afterTools ∨ site = .afterFatalToolError)
    (hnotLeft : ∀ e ∈ c.log, e.NotLeft n) (hall : AllAnswered env n c.log) :
    c'.Attended env n (iteration + 1) := by
  cases hdrain with
  | nothing => exact ⟨hnotLeft, .inl hall⟩
  | injected injected hsome husers =>
    refine ⟨notLeft_append hnotLeft ?_, .inr ⟨c.log, site, iteration, injected, rfl, hall, rfl, ?_⟩⟩
    · intro e he
      rw [List.mem_singleton.mp he]
      exact fun _ => hsite
    · exact lastCarries_foldl env _ injected husers

variable {fatal : Option String}

theorem ToolRun.log (h : ToolRun env spec c fatal c') :
    ∃ calls outcomes, c'.log = c.log ++ [.executed calls outcomes] := by
  cases h with
  | run => exact ⟨_, _, rfl⟩

theorem Core.Attended.toolRun (h : c.Attended env n iteration) {w : ω}
    (hrun : ToolRun env spec (c.requested (govern env spec w c.messages).1) fatal c') :
    (∀ e ∈ c'.log, e.NotLeft n) ∧ AllAnswered env n c'.log := by
  obtain ⟨calls, outcomes, hlog⟩ := hrun.log
  have hanswered : AllAnswered env n (c.log ++
      .request (govern env spec w c.messages).1 :: [.executed calls outcomes]) :=
    h.requested w [.executed calls outcomes] ⟨trivial, trivial⟩
  have heq : c'.log = c.log ++
      [.request (govern env spec w c.messages).1, .executed calls outcomes] := by
    rw [hlog, Core.requested, List.append_assoc]
    rfl
  rw [heq]
  refine ⟨notLeft_append h.notLeft ?_, hanswered⟩
  simp [RunEvent.NotLeft]

/-- The exits of `handle_final_content`: all is answered exactly if nothing was drained
there too early. -/
theorem FinalExit.attended (hexit : FinalExit env iteration c c')
    (hnotLeft : ∀ e ∈ c.log, e.NotLeft n) (hall : AllAnswered env n c.log) :
    AllAnswered env n c'.log ↔ ∀ e ∈ c'.log, e.NotLeft n := by
  have hdrained : ∀ (site : DrainSite) {assistant : Option Json} {d : Bool} {c₀ : Core},
      Drain env site iteration assistant c₀ d c' → c₀.log = c.log →
      ¬ (site = .afterTools ∨ site = .afterFatalToolError) →
      (AllAnswered env n c'.log ↔ ∀ e ∈ c'.log, e.NotLeft n) := by
    intro site assistant d c₀ hdrain hlog hsite
    cases hdrain with
    | nothing =>
      rw [hlog]
      exact ⟨fun _ => hnotLeft, fun _ => hall⟩
    | injected injected hsome husers =>
      dsimp only
      rw [hlog]
      constructor
      · intro h
        refine notLeft_append hnotLeft ?_
        intro e he
        rw [List.mem_singleton.mp he]
        intro hlt
        -- nothing comes after the drained messages
        obtain ⟨i, hi⟩ := List.exists_mem_of_ne_nil injected hsome
        obtain ⟨r, hr, -⟩ := h.right.1 hlt i hi
        exact absurd hr List.not_mem_nil
      · intro h
        refine hall.append ⟨fun hlt => ?_, trivial⟩
        exact absurd (h _ (List.mem_append_right _ (List.mem_singleton_self _)) hlt) hsite
  cases hexit with
  | injected assistant _ hdrain => exact hdrained .beforeFinalAnswer hdrain rfl (by decide)
  | modelError d hdrain => exact hdrained .afterModelError hdrain rfl (by decide)
  | emptyAnswer d hdrain => exact hdrained .afterEmptyAnswer hdrain rfl (by decide)
  | answer m => exact ⟨fun _ => hnotLeft, fun _ => hall⟩

/-! ## Runs -/

/-- In a run every message drained before the last iteration is answered exactly if none is
drained in `handle_final_content`. -/
theorem allAnswered_iff_noneLeft (env : Env ω) (spec : AgentRunSpec) (w : ω) :
    AllAnswered env spec.maxIterations (run env spec w).2.log ↔
      ∀ e ∈ (run env spec w).2.log, e.NotLeft spec.maxIterations := by
  refine loop_rule env spec
    (P := fun iteration c => c.Attended env spec.maxIterations iteration)
    (Q := fun _ c => AllAnswered env spec.maxIterations c.log ↔
      ∀ e ∈ c.log, e.NotLeft spec.maxIterations) ?_ ?_ ?_ ?_ w
    ⟨by simp, .inl trivial⟩
  · intro iteration c c' h _ hturn
    cases hturn with
    | fatalAgain w err htools hdrain =>
      obtain ⟨hnotLeft, hall⟩ := h.toolRun htools
      exact hdrain.attended (.inr rfl) hnotLeft hall
    | tools w d htools hdrain =>
      obtain ⟨hnotLeft, hall⟩ := h.toolRun htools
      exact hdrain.attended (.inl rfl) hnotLeft hall
    | emptyRetry w =>
      exact ⟨notLeft_append h.notLeft (by simp [RunEvent.NotLeft]),
        .inl (h.requested w [] trivial)⟩
    | lengthRecovery w m hplain =>
      exact ⟨notLeft_append h.notLeft (by simp [RunEvent.NotLeft]),
        .inl (h.requested w [] trivial)⟩
  · intro iteration c c' r h _ hturn _ _ _
    cases hturn with
    | fatalLeave w err htools hdrain =>
      obtain ⟨hnotLeft, hall⟩ := h.toolRun htools
      cases hdrain
      exact ⟨fun _ => hnotLeft, fun _ => hall⟩
  · intro iteration c c' r h _ hturn _ _ _
    cases hturn with
    | finalContent w hexit =>
      refine hexit.attended (notLeft_append h.notLeft (by simp [RunEvent.NotLeft])) ?_
      exact h.requested w [] trivial
    | finalization w hexit =>
      refine hexit.attended (notLeft_append h.notLeft (by simp [RunEvent.NotLeft])) ?_
      exact h.requested w [.finalizationRetry _] ⟨trivial, trivial⟩
  · intro c d c' r h hdrain _ _ _
    -- what is drained at the cap, or in the last iteration, does not count
    have hall : AllAnswered env spec.maxIterations c.log := by
      rcases h.answered with hall | ⟨before, site, k, injected, hlog, hbefore, hk, -⟩
      · exact hall
      · rw [hlog]
        exact hbefore.append ⟨fun hlt => absurd hlt (by omega), trivial⟩
    cases hdrain with
    | nothing => exact ⟨fun _ => h.notLeft, fun _ => hall⟩
    | injected injected hsome husers =>
      refine ⟨fun _ => notLeft_append h.notLeft ?_, fun _ => hall.append ⟨?_, trivial⟩⟩
      · intro e he
        rw [List.mem_singleton.mp he]
        exact fun hlt => absurd hlt (by omega)
      · exact fun hlt => absurd hlt (by omega)

/-- A model that answers at once, while a user message waits. -/
def answersAtOnce : Env Nat :=
  { requestModel := fun requests _ => ({ content := some "Done." }, requests + 1)
    chatWithRetry := fun requests _ => ({}, requests)
    injectionCallback := some fun requests _ => ([textMessage "user" "And the other file?"], requests)
    executeTool := fun requests _ _ => (.null, requests) }

def answerSpec : AgentRunSpec :=
  { initialMessages := [textMessage "user" "Read it."], maxIterations := 5 }

/-- The follow-up is drained in the first of five iterations, and no request holds it. -/
theorem follow_up_left :
    (run answersAtOnce answerSpec 0).1.stopReason = "injected" ∧
      ¬ AllAnswered answersAtOnce answerSpec.maxIterations (run answersAtOnce answerSpec 0).2.log := by
  refine ⟨by decide +kernel, ?_⟩
  have hlog : ∃ messages, (run answersAtOnce answerSpec 0).2.log =
      [.request messages,
        .drained .beforeFinalAnswer 0 [textMessage "user" "And the other file?"]] := ⟨_, rfl⟩
  obtain ⟨messages, hlog⟩ := hlog
  rw [hlog]
  intro h
  obtain ⟨r, hr, -⟩ := h.2.1 (by decide) _ (List.mem_singleton_self _)
  exact absurd hr List.not_mem_nil

end HiveClaw.Runner
