import HiveClaw.Runtime.Endings

/-!
# Sessions that fail

A session that comes to no reply is to tell the client so, and to store no
message that says nothing. Two exits miss it: hops that are used up by routing
send no error, and an exit without a text stores an empty message.

* `failures_reported_iff` — when a failure is reported.
-/

namespace HiveClaw.Runtime

open Lib Context

/-- The client sees an error before the end of the stream. -/
def ErrorBeforeDone (trace : List Event) : Prop :=
  ∃ pre elapsed agentId post, trace = pre ++ .sse (.done elapsed agentId) :: post ∧ HasError pre

-- the exits with a final reply
def Exit.hasReply : Exit → Bool
  | .answered | .loopBreak => true
  | _ => false

/-- A session that was not cancelled and came to no final reply has sent an
error before `done`, and no empty message without extensions is stored. -/
def FailuresReported (r : SessionEnd) (trace : List Event) : Prop :=
  ∀ e, r.ending = some e →
    (e.exit.hasReply = false → ErrorBeforeDone trace) ∧
      ∀ text exts, .saved text exts ∈ trace → ¬(text = "" ∧ exts = none)

/-- The hops were not used up by routing, and if the loop ended without a text
and the message was stored all the same, a tool or a hook has set a text or added
an extension. -/
def FailureHandled (r : SessionEnd) (trace : List Event) : Prop :=
  ∀ e, r.ending = some e →
    e.exit ≠ .exhausted ∧
      (e.exit.LacksText → (∃ text exts, .saved text exts ∈ trace) →
        replyOverride trace ≠ none ∨ ∃ ev ∈ trace, AddsExtension ev)

variable {e : Ending} {saved : Option (String × Option Json)} {w' : World}

theorem Ended.error_iff {env : Env} (h : Ended env e saved w') :
    (e.exit.hasReply = false → ErrorBeforeDone w'.trace) ↔ e.exit ≠ .exhausted := by
  obtain ⟨hend, -, -, -, hhooked, htrace, -, -, -, -⟩ := h
  rename_i loop hooked w₁ exts stored elapsed
  -- an error of the loop comes before `done`
  have hbefore : HasError (loop.filter Event.isTurn) → ErrorBeforeDone w'.trace := by
    rintro ⟨code, msg, hmem⟩
    have hloop : .sse (.error code msg) ∈ loop := (List.mem_filter.mp hmem).1
    have hsplit := htrace
    rw [endEvents, ← List.append_assoc, ← List.append_assoc] at hsplit
    exact ⟨_, elapsed, finalAgentId e, _, hsplit, code, msg, by simp [hloop]⟩
  constructor
  · intro herr hexit
    cases hend with
    | exhausted hnone =>
      obtain ⟨pre, _, _, post, hsplit, code, msg, hmem⟩ := herr rfl
      have hmem : .sse (.error code msg) ∈ w'.trace := by
        rw [hsplit]
        exact List.mem_append_left _ hmem
      rw [htrace] at hmem
      rcases List.mem_append.mp hmem with hmem | hmem
      · exact hnone ⟨code, msg, List.mem_filter.mpr ⟨hmem, rfl⟩⟩
      rcases List.mem_append.mp hmem with hmem | hmem
      · rcases hooked_inner hhooked hmem with hcontra | ⟨lc, hinner⟩
        · cases hcontra
        · exact Inner.not_error hinner
      · exact not_hasError_endEvents _ _ _ _ _ ⟨code, msg, hmem⟩
    | lacksText hlacks _ => rcases hlacks with h | h | h | h <;> cases h.symm.trans hexit
    | _ => cases hexit
  · intro hexit hreply
    cases hend with
    | exhausted _ => exact absurd rfl hexit
    | lacksText _ herr => exact hbefore herr
    | answered _ => cases hreply
    | toolBlocked herr => exact hbefore herr
    | loopBreak _ _ => cases hreply
    | hopLimit herr _ => exact hbefore herr

theorem extensionsField_eq_none_iff {exts : List Json} :
    extensionsField exts = none ↔ exts = [] := by
  unfold extensionsField
  split <;> simp_all

theorem LoopEnd.content_eq_none_iff {env : Env} {ts : List Event} (h : LoopEnd env ts w' e) :
    e.content = none ↔ e.exit = .exhausted ∨ e.exit.LacksText := by
  cases h with
  | exhausted _ => simp
  | lacksText hexit _ => simp [hexit]
  | _ => simp [Exit.LacksText, Exit.NoAnswer]

theorem Ended.noEmpty_iff {env : Env} (h : Ended env e saved w') (hexit : e.exit ≠ .exhausted) :
    (∀ text exts, .saved text exts ∈ w'.trace → ¬(text = "" ∧ exts = none)) ↔
      (e.exit.LacksText → (∃ text exts, .saved text exts ∈ w'.trace) →
        replyOverride w'.trace ≠ none ∨ ∃ ev ∈ w'.trace, AddsExtension ev) := by
  obtain ⟨hend, -, hnotSaved, -, hhooked, htrace, hmeta, hexts, hstored, -⟩ := h
  rename_i loop hooked w₁ exts stored elapsed
  have hmem := saved_mem_iff hnotSaved hhooked stored
    ((finalText w'.ctx e.content exts).getD "") exts elapsed
  rw [← htrace] at hmem
  rw [finalText_eq hmeta] at hmem hstored
  constructor
  · intro hnoEmpty hlacks ⟨text, x, hsaved⟩
    obtain ⟨hst, -, -⟩ := (hmem text x).mp hsaved
    by_contra hnone
    rw [not_or, not_not] at hnone
    have hnil : exts = [] := hexts.mpr fun ev hev hadd => hnone.2 ⟨ev, hev, hadd⟩
    have hcontent : e.content = none := hend.content_eq_none_iff.mpr (Or.inr hlacks)
    refine hnoEmpty "" none ((hmem _ _).mpr ⟨hst, ?_, ?_⟩) ⟨rfl, rfl⟩
    · rw [hnone.1, hcontent, hnil]
      rfl
    · rw [hnil]
      rfl
  · rintro hhandled text x hsaved ⟨rfl, rfl⟩
    obtain ⟨hst, htext, hfield⟩ := (hmem _ _).mp hsaved
    have hnil : exts = [] := extensionsField_eq_none_iff.mp hfield.symm
    have hnone : (replyOverride w'.trace).or (rewriteContentForEmptyExtensions e.content exts) =
        none := by
      cases hfinal : (replyOverride w'.trace).or
          (rewriteContentForEmptyExtensions e.content exts) with
      | none => rfl
      | some t =>
        rw [hfinal] at htext
        refine absurd ⟨?_, hnil⟩ (hstored hst)
        rw [hfinal, htext]
        rfl
    rw [Option.or_eq_none_iff] at hnone
    have hcontent : e.content = none := by
      have := hnone.2
      rwa [hnil] at this
    have hlacks := (hend.content_eq_none_iff.mp hcontent).resolve_left hexit
    rcases hhandled hlacks ⟨_, _, hsaved⟩ with hover | ⟨ev, hev, hadd⟩
    · exact hover hnone.1
    · exact hexts.mp hnil ev hev hadd

/-- When a session that fails is reported as it should be. -/
theorem failures_reported_iff (env : Env) (s : Session) (now : DateTime)
    (outside : Nat → Moment) :
    FailuresReported (sessionRun env s now outside).1 (sessionRun env s now outside).2.trace ↔
      FailureHandled (sessionRun env s now outside).1
        (sessionRun env s now outside).2.trace := by
  refine forall_congr' fun e => imp_congr_right fun hr => ?_
  have hended := session_ended (runs_sessionRun env s now outside) hr
  rw [hended.error_iff]
  exact and_congr_right fun hexit => hended.noEmpty_iff hexit

-- a message without text and extensions
def Event.isEmptyMessage : Event → Bool
  | .saved text exts => text = "" && exts.isNone
  | _ => false

/-- The only hop of a session is used up by a route: the client sees no error,
and an empty message is stored. -/
theorem not_reported_routeOnce :
    ¬FailuresReported (steadyRun { Env.plain with maxHops := 1 } routeOnce).1
      (steadyRun { Env.plain with maxHops := 1 } routeOnce).2.trace := by
  have hend : (steadyRun { Env.plain with maxHops := 1 } routeOnce).1.ending.isSome = true := by
    decide +kernel
  have hempty : (steadyRun { Env.plain with maxHops := 1 } routeOnce).2.trace.any
      Event.isEmptyMessage = true := by
    decide +kernel
  intro h
  obtain ⟨e, he⟩ := Option.isSome_iff_exists.mp hend
  obtain ⟨ev, hev, hmsg⟩ := List.any_eq_true.mp hempty
  unfold Event.isEmptyMessage at hmsg
  split at hmsg
  · next text exts =>
    exact (h e he).2 text exts hev (by simpa using hmsg)
  · cases hmsg

end HiveClaw.Runtime
