import HiveClaw.Runtime.Session

/-!
# Updates by the hooks at the end of a session

The hooks of `after_agent_end` run before the extensions are collected, so that
what they write is part of the stored message. By then the loop has moved the
context to `Completed` or `Terminated`, and a closed context refuses records
and extensions; `apply_agent_context_updates` only logs the refusal.

* `endUpdates_applied_iff` — the updates that an active context would take are
  applied if and only if all of them are metadata.
-/

namespace HiveClaw.Runtime

open Lib Context

/-- An entry that a function or workflow of an `after_agent_end` hook returned,
with the context and the time at which it was to be applied. -/
def EndUpdate (trace : List Event) (ctx : AgentContext) (now : DateTime) (entry : ContextEntry) :
    Prop :=
  ∃ pre post, trace = pre ++ .hooks "after_agent_end" :: post ∧
    .contextUpdate ctx now entry ∈ post

/-- An extension is part of every message that the session has stored. -/
def PartOfStored (trace : List Event) (content : ExtensionContent) : Prop :=
  ∀ text exts, .saved text exts ∈ trace →
    ∃ items, exts = some (.arr items) ∧ flattenExtension content ∈ items

/-- Every entry that the context would take if it were active is applied, and
if it is an extension, it is part of the stored message. -/
def EndUpdatesApplied (env : Env) (trace : List Event) : Prop :=
  ∀ ctx now entry, EndUpdate trace ctx now entry →
    entry.Accepts env.lower now (ContextEntry.activate ctx) →
      entry.Accepts env.lower now ctx ∧
        ∀ id content, entry = .extension id content → PartOfStored trace content

/-- Every entry that the context would take if it were active is metadata. -/
def EndUpdatesMetadata (env : Env) (trace : List Event) : Prop :=
  ∀ ctx now entry, EndUpdate trace ctx now entry →
    entry.Accepts env.lower now (ContextEntry.activate ctx) → entry.IsMetadata

-- ---
-- Closed contexts
-- ---

def Closed (ctx : AgentContext) : Prop :=
  ctx.lifecycleState = .completed ∨ ctx.lifecycleState = .terminated

variable {now : DateTime} {ctx : AgentContext}

theorem accepts_closed_iff {lower : String → String} (hclosed : Closed ctx) (entry : ContextEntry) :
    entry.Accepts lower now ctx ↔ entry.IsMetadata := by
  have hrefuse : ctx.checkWriteAllowed ≠ .ok () := by
    rw [Ne, checkWriteAllowed_eq_ok_iff]
    rcases hclosed with h | h <;> simp [h]
  rw [ContextEntry.accepts_iff]
  cases entry with
  | record category key value source iteration => simp [ContextEntry.IsMetadata, hrefuse]
  | extension id content => simp [ContextEntry.IsMetadata, hrefuse]
  | metadata key value => simp [ContextEntry.IsMetadata]

-- what comes after an event that is not in the first part is in the second
theorem mem_of_append_eq {α : Type} {xs ys pre post : List α} {x y : α}
    (h : xs ++ ys = pre ++ x :: post) (hx : x ∉ xs) (hy : y ∈ post) : y ∈ ys := by
  rcases List.append_eq_append_iff.mp h with ⟨as, -, hys⟩ | ⟨bs, rfl, hpost⟩
  · rw [hys]
    simp [hy]
  · cases bs with
    | nil =>
      have hys : ys = x :: post := hpost.symm
      simp [hys, hy]
    | cons b bs =>
      cases hpost
      exact absurd (by simp) hx

/-- Every update by these hooks meets a closed context. -/
theorem endUpdate_closed {env : Env} {s : Session} {start : DateTime} {w' : World}
    {r : SessionEnd} {entry : ContextEntry}
    (h : (runSession env s).Runs (initialWorld env s start) r w')
    (hu : EndUpdate w'.trace ctx now entry) : Closed ctx := by
  obtain ⟨w₀, hstart, hsession⟩ := runSession_course h
  obtain ⟨pre, post, htrace, hupdate⟩ := hu
  have hempty : .hooks "after_agent_end" ∉ w₀.trace := by
    rw [hstart.trace]
    simp [initialWorld]
  cases hsession with
  | cancelled _ hcourse _ =>
    refine absurd ?_ (hcourse.not_endHooks hempty)
    rw [htrace]
    simp
  | @ended ts he e w₁ w₂ _ _ hcourse hclose hstate _ hfinal =>
    obtain ⟨hhooked, hafter, -, -, -⟩ := hfinal
    have hnone : .hooks "after_agent_end" ∉ w₂.trace := by
      rw [hclose.trace, List.append_nil]
      exact hcourse.not_endHooks hempty
    -- the loop left no such event, so the update comes after it
    have hlate := mem_of_append_eq (hafter.trace.symm.trans htrace) hnone hupdate
    have hinner : Inner w₂.ctx.lifecycleState (.contextUpdate ctx now entry) := by
      rcases List.mem_append.mp hlate with hmem | hmem
      · rcases hhooked with ⟨-, rfl⟩ | ⟨es, rfl, hes⟩
        · cases hmem
        · rcases List.mem_cons.mp hmem with heq | hmem
          · cases heq
          · exact hes _ hmem
      · exact absurd (endEvents_isTurn hmem) (by simp [Event.isTurn])
    have hmerging : w₂.ctx.lifecycleState ≠ .merging := by
      intro hm
      obtain ⟨es, hloop, -, -⟩ := hcourse
      have := hstart.merging (hloop.merging (hclose.merging hm))
      cases this
    cases hinner with
    | contextUpdate _ _ hlc =>
      unfold Closed
      rw [hlc]
      cases hs : w₂.ctx.lifecycleState with
      | active => exact absurd hs hstate
      | completed => exact Or.inl rfl
      | terminated => exact Or.inr rfl
      | merging => exact absurd hs hmerging

/-- When the updates of the last hooks are applied. -/
theorem endUpdates_applied_iff (env : Env) (s : Session) (now : DateTime)
    (outside : Nat → Moment) :
    EndUpdatesApplied env (sessionRun env s now outside).2.trace ↔
      EndUpdatesMetadata env
        (sessionRun env s now outside).2.trace := by
  have hrun := runs_sessionRun env s now outside
  constructor
  · intro happlied ctx time entry hu haccepts
    exact (accepts_closed_iff (endUpdate_closed hrun hu) entry).mp
      (happlied ctx time entry hu haccepts).1
  · intro hmeta ctx time entry hu haccepts
    have hentry := hmeta ctx time entry hu haccepts
    refine ⟨(accepts_closed_iff (endUpdate_closed hrun hu) entry).mpr hentry, ?_⟩
    rintro id content rfl
    cases hentry

-- ---
-- A hook that adds a card
-- ---

-- an extension for a closed context
def Event.isLostExtension : Event → Bool
  | .contextUpdate ctx _ (.extension _ _) =>
    ctx.lifecycleState = .completed || ctx.lifecycleState = .terminated
  | _ => false

theorem isLostExtension_iff {e : Event} :
    e.isLostExtension = true ↔
      ∃ ctx now id content, e = .contextUpdate ctx now (.extension id content) ∧ Closed ctx := by
  constructor
  · intro h
    unfold Event.isLostExtension at h
    split at h
    · exact ⟨_, _, _, _, rfl, by simpa [Closed] using h⟩
    · exact absurd h (by simp)
  · rintro ⟨ctx, now, id, content, rfl, hclosed⟩
    simpa [Event.isLostExtension, Closed] using hclosed

variable {trace : List Event}

theorem endUpdate_of_lost
    (h : (trace.dropWhile fun e => !e.isEndHooks).any Event.isLostExtension = true) :
    ∃ ctx now id content, EndUpdate trace ctx now (.extension id content) ∧ Closed ctx := by
  induction trace with
  | nil => exact absurd h (by simp)
  | cons e rest ih =>
    by_cases he : e.isEndHooks = true
    · obtain rfl := isEndHooks_iff.mp he
      obtain ⟨ev, hev, hlost⟩ : ∃ ev ∈ rest, ev.isLostExtension = true := by
        simpa [Event.isEndHooks, Event.isLostExtension] using h
      obtain ⟨ctx, now, id, content, rfl, hclosed⟩ := isLostExtension_iff.mp hlost
      exact ⟨ctx, now, id, content, ⟨[], rest, rfl, hev⟩, hclosed⟩
    · obtain ⟨ctx, now, id, content, ⟨pre, post, rfl, hmem⟩, hclosed⟩ :=
        ih (by simpa [he] using h)
      exact ⟨ctx, now, id, content, ⟨e :: pre, post, rfl, hmem⟩, hclosed⟩

theorem not_applied_of_lost {env : Env}
    (h : (trace.dropWhile fun e => !e.isEndHooks).any Event.isLostExtension = true) :
    ¬EndUpdatesApplied env trace := by
  intro happlied
  obtain ⟨ctx, now, id, content, hu, hclosed⟩ := endUpdate_of_lost h
  have hactive : (ContextEntry.extension id content).Accepts env.lower now
      (ContextEntry.activate ctx) := (ContextEntry.accepts_iff _ _ _ _).mpr rfl
  exact (accepts_closed_iff hclosed _).mp (happlied ctx now _ hu hactive).1

/-- What `support_card` returns when the model answers "hello". -/
def supportCard : Json :=
  .obj [("_agent_context_updates", .obj
    [("extensions", .arr
        [.obj [("content_type", .str "card"), ("payload", .obj [("type", .str "support")])]]),
     ("metadata", .obj
        [("agent_loop_break", .str "true"),
         ("agent_loop_reply", .str ("hello\n\n上面是AI智能回复，仅供参考。" ++
          "如果回答不满意，你可以通过下方「联系客服」继续反馈，我们会尽力协助处理。"))])])]

/-- Agent 1 answers, and its hook at the end returns a card. -/
def cardHook : Moment :=
  { Moment.of { agents := [agentRow 1 "main" none], agentHooks := [hookRow "after_agent_end" 7]
                functions := [functionRow 7 "support_card" []] } with
    response := { content := some "hello" }
    handler := .ok supportCard }

/-- The card is lost. -/
theorem endUpdates_cardHook : ¬EndUpdatesApplied Env.plain (steadyRun Env.plain cardHook).2.trace :=
  not_applied_of_lost (by decide +kernel)

end HiveClaw.Runtime
