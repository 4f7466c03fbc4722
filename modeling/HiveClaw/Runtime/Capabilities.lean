import HiveClaw.Runtime.Session

/-!
# Capabilities

A function names the capabilities it needs, an agent those it has. Before a
tool is called its own list is checked, which stands in for that of the function
it wraps; `invoke_function` checks the function's list; a node of a workflow and
a function that a hook calls are not checked at all.

* `capabilities_granted` — the agent has all the function needs wherever that
  check covers the function's list.
-/

namespace HiveClaw.Runtime

open Lib

/-- The capabilities that the executed function requires. -/
def Execution.needs (x : Execution) : List String :=
  (x.function.map fun f => capabilityList f.requiredCapabilities).getD []

/-- The agent has every capability that the function requires. -/
def Execution.Granted (x : Execution) : Prop := ∀ c ∈ x.needs, c ∈ x.permissions

/-- The check that is made on the way covers what the function needs: by a tool,
it needs nothing beyond the tool's own list; by a hook, it needs nothing. -/
def Via.Covers (needs : List String) : Via → Prop
  | .tool t => ∀ c ∈ needs, c ∈ t.requiredCapabilities
  | .invokeFunction => True
  | .hook _ => needs = []

instance : DecidablePred Execution.Granted := fun x =>
  inferInstanceAs (Decidable (∀ c ∈ x.needs, c ∈ x.permissions))

instance (needs : List String) : DecidablePred (Via.Covers needs)
  | .tool t => inferInstanceAs (Decidable (∀ c ∈ needs, c ∈ t.requiredCapabilities))
  | .invokeFunction => inferInstanceAs (Decidable True)
  | .hook _ => inferInstanceAs (Decidable (needs = []))

/-- The functions that a session has executed. -/
def executions (trace : List Event) : List Execution :=
  trace.filterMap fun e =>
    match e with
    | .executed x => some x
    | _ => none

variable {x : Execution}

theorem mem_executions_iff {trace : List Event} : x ∈ executions trace ↔ .executed x ∈ trace := by
  unfold executions
  rw [List.mem_filterMap]
  constructor
  · rintro ⟨e, he, hx⟩
    split at hx
    · cases hx
      exact he
    · cases hx
  · intro hx
    exact ⟨_, hx, rfl⟩

theorem missingCapabilities_eq_nil_iff {required permissions : List String} :
    missingCapabilities required permissions = [] ↔ ∀ c ∈ required, c ∈ permissions := by
  simp [missingCapabilities]

/-- What has been checked before a function is executed, in every session. -/
theorem authorized_of_executed {env : Env} {s : Session} {now : DateTime} {w' : World}
    {r : SessionEnd} (h : (runSession env s).Runs (initialWorld env s now) r w')
    (hx : .executed x ∈ w'.trace) : x.Authorized := by
  rcases session_event h hx with ht | hq | hend
  · cases ht
  · cases hq with
    | inner hinner =>
      cases hinner with
      | executed hauth => exact hauth
  · cases hend

theorem granted_of_authorized (hauth : x.Authorized) (hcover : x.via.Covers x.needs) : x.Granted := by
  intro c hc
  unfold Execution.Authorized at hauth
  cases hvia : x.via with
  | tool t =>
    rw [hvia] at hauth hcover
    exact missingCapabilities_eq_nil_iff.mp hauth c (hcover c hc)
  | invokeFunction =>
    rw [hvia] at hauth
    cases hf : x.function with
    | none =>
      rw [Execution.needs, hf] at hc
      cases hc
    | some f =>
      rw [Execution.needs, hf] at hc
      exact missingCapabilities_eq_nil_iff.mp (hauth f hf) c hc
  | hook hk =>
    rw [hvia] at hcover
    have hnone : x.needs = [] := hcover
    rw [hnone] at hc
    cases hc

/-- In every session whose executions are all covered, every function is
executed with the capabilities it needs. -/
theorem capabilities_granted (env : Env) (s : Session) (now : DateTime) (outside : Nat → Moment)
    (hcover : ∀ x ∈ executions
        (sessionRun env s now outside).2.trace,
      x.via.Covers x.needs) :
    ∀ x ∈ executions (sessionRun env s now outside).2.trace,
      x.Granted := by
  intro x hx
  have hauth : x.Authorized :=
    authorized_of_executed (runs_sessionRun env s now outside) (mem_executions_iff.mp hx)
  exact granted_of_authorized hauth (hcover x hx)

-- ---
-- A tool and a hook
-- ---

def chatRespond : Function := functionRow 7 "chat_respond" ["chat_respond"]

-- a tool for `chatRespond` without a list of its own
def chatTool : Tool :=
  { id := 3, identifier := "respond", name := "respond", description := "", kind := 1
    source := "workspace", isAlways := true, functionId := some 7, workflowId := none
    inputSchema := .obj [], outputSchema := .obj [], categoryId := none
    requiredCapabilities := none, createdAt := 0, updatedAt := 0 }

/-- The model calls the tool in each of the five hops of a session, and the
agent has the capability. -/
def toolSession : Moment :=
  { Moment.of { agents := [agentRow 1 "main" none], tools := [chatTool]
                agentPermissions := [⟨1, "chat_respond"⟩], functions := [chatRespond] } with
    response := { toolCalls := [{ id := "call-1", name := "respond", arguments := [] }] } }

theorem capabilities_granted_toolSession :
    (executions (steadyRun Env.plain toolSession).2.trace).length = 5 ∧
      ∀ x ∈ executions (steadyRun Env.plain toolSession).2.trace, x.Granted :=
  ⟨by decide +kernel,
    capabilities_granted Env.plain greeting 0 (fun _ => toolSession) (by decide +kernel)⟩

/-- A hook executes the function for an agent without permissions. -/
def hookSession : Moment :=
  { Moment.of { agents := [agentRow 1 "main" none], agentHooks := [hookRow "after_llm_call" 7]
                functions := [chatRespond] } with
    response := { content := some "hello" } }

theorem not_granted_hookSession :
    ¬∀ x ∈ executions (steadyRun Env.plain hookSession).2.trace, x.Granted := by
  decide +kernel

end HiveClaw.Runtime
