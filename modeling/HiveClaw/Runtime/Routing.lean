import HiveClaw.Runtime.Session

/-!
# Routing

A session moves down the tree of agents: the model routes it from an agent to
one of its direct children that has not been visited. The chain of a session is
the agent it starts with, followed by the agents of its `routed` events.

* `routes_nodup` — no agent comes twice in the chain, in any session.
* `routes_chain` — if no response has more than one accepted route, each agent of
  the chain is a child of the one before it and runs the hop after its event;
  only the last may be cut off, by the hop limit, a loop break, a blocking hook or
  a client that has gone.
-/

namespace HiveClaw.Runtime

open Lib

-- ---
-- The chain of a session
-- ---

/-- A hop begins, or the session is routed. -/
inductive Mark where
  | hop (agentId : Int)
  | routed (agentId : Int)
deriving DecidableEq, Repr

def Event.mark? : Event → Option Mark
  | .fetchContent agentId => some (.hop agentId)
  | .sse (.routed agentId _) => some (.routed agentId)
  | _ => none

def marks (trace : List Event) : List Mark := trace.filterMap Event.mark?

/-- The agents of the `routed` events, in order. -/
def routedAgents (ms : List Mark) : List Int :=
  ms.filterMap fun m =>
    match m with
    | .routed agentId => some agentId
    | .hop _ => none

/-- As it was loaded in the session, agent `a` has the direct child `b`. -/
def IsChild (trace : List Event) (a b : Int) : Prop :=
  ∃ content, .loaded a content ∈ trace ∧ ∃ child ∈ content.children, child.id = b

/-- Each agent that the session is routed to runs the next hop; for the last one
there may be none if the session is cut off. -/
def RunsNext (cut : Prop) : List Mark → Prop
  | [] => True
  | .hop _ :: rest => RunsNext cut rest
  | .routed agentId :: rest =>
    (rest.head? = some (.hop agentId) ∨ rest = [] ∧ cut) ∧ RunsNext cut rest

/-- The chain of a session with the end `r`; `Cut` says which ends may cut off
its last agent (`none` is the end of a session whose client has gone). -/
structure RouteChain (Cut : Option Exit → Prop) (s : Session) (r : SessionEnd)
    (trace : List Event) : Prop where
  nodup : (s.startingAgentId :: routedAgents (marks trace)).Nodup
  children : List.IsChain (IsChild trace) (s.startingAgentId :: routedAgents (marks trace))
  next : RunsNext (Cut (r.ending.map Ending.exit)) (marks trace)

-- the hop limit, when the last hop routes, and a loop break
def CutByLoop (exit : Option Exit) : Prop := exit = some .exhausted ∨ exit = some .loopBreak

-- these, a hook that blocks a tool call, and a client that has gone
def CutOff (exit : Option Exit) : Prop :=
  CutByLoop exit ∨ exit = some .toolBlocked ∨ exit = none

-- the accepted routes of a response
def Event.routeCount : Event → Nat
  | .toolCalls content visited resp => (acceptedRoutes content visited resp.toolCalls).length
  | _ => 0

/-- No response of the session has more than one accepted route. -/
def OneRoute (trace : List Event) : Prop := ∀ e ∈ trace, e.routeCount ≤ 1

instance (trace : List Event) : Decidable (OneRoute trace) :=
  inferInstanceAs (Decidable (∀ e ∈ trace, e.routeCount ≤ 1))

-- ---
-- Accepted routes
-- ---

variable {visited : List Int}

theorem acceptedRoutes_nodup (content : AgentContent) (calls : List ToolCallRequest)
    (hv : visited.Nodup) :
    (visited ++ (acceptedRoutes content visited calls).map Prod.fst).Nodup := by
  induction calls generalizing visited with
  | nil => simpa [acceptedRoutes] using hv
  | cons tc rest ih =>
    unfold acceptedRoutes
    split
    · next target hroute =>
      have hnew : target.1 ∉ visited := (callRoute_eq_some hroute).2
      have hv' : (visited ++ [target.1]).Nodup := by
        rw [List.nodup_append_comm]
        simpa [hnew] using hv
      simpa using ih hv'
    · exact ih hv

theorem child_of_mem_acceptedRoutes {content : AgentContent} {calls : List ToolCallRequest}
    {target : Int × String} (h : target ∈ acceptedRoutes content visited calls) :
    ∃ child ∈ content.children, child.id = target.1 := by
  induction calls generalizing visited with
  | nil => cases h
  | cons tc rest ih =>
    unfold acceptedRoutes at h
    split at h
    · next first hroute =>
      rcases List.mem_cons.mp h with rfl | h
      · exact (callRoute_eq_some hroute).1
      · exact ih h
    · exact ih h

-- ---
-- Marks
-- ---

theorem marks_append (es es' : List Event) : marks (es ++ es') = marks es ++ marks es' :=
  List.filterMap_append

theorem routedAgents_append (ms ms' : List Mark) :
    routedAgents (ms ++ ms') = routedAgents ms ++ routedAgents ms' :=
  List.filterMap_append

theorem marks_toolTurns (l : Locals) (content : AgentContent) (resp : LLMResponse)
    (routes : List (Int × String)) :
    marks (toolTurns l content resp routes) =
      .hop l.currentAgentId :: routes.map fun t => .routed t.1 := by
  have hroutes : marks (routes.map routedEvent) = routes.map fun t => .routed t.1 := by
    induction routes with
    | nil => rfl
    | cons t rest ih =>
      show .routed t.1 :: marks (rest.map routedEvent) = _
      rw [ih]
      rfl
  unfold toolTurns
  rw [marks_append]
  show .hop l.currentAgentId :: marks (routes.map routedEvent) = _
  rw [hroutes]

theorem routedAgents_routes (routes : List (Int × String)) :
    routedAgents (routes.map fun t => .routed t.1) = routes.map Prod.fst := by
  induction routes with
  | nil => rfl
  | cons t rest ih =>
    show t.1 :: routedAgents (rest.map fun t => .routed t.1) = _
    rw [ih]
    rfl

theorem marks_filter_isTurn (es : List Event) : marks (es.filter Event.isTurn) = marks es := by
  unfold marks
  rw [List.filterMap_filter]
  congr 1
  funext e
  cases e with
  | sse ev => cases ev <;> rfl
  | _ => rfl

-- ---
-- The loop
-- ---

theorem routedAgents_toolTurns (l : Locals) (content : AgentContent) (resp : LLMResponse)
    (routes : List (Int × String)) :
    routedAgents (marks (toolTurns l content resp routes)) = routes.map Prod.fst := by
  rw [marks_toolTurns]
  exact routedAgents_routes routes

theorem marks_append_error (ts : List Event) (code : Nat) (msg : String) :
    marks (ts ++ [.sse (.error code msg)]) = marks ts := by
  rw [marks_append]
  exact List.append_nil _

theorem nodup_of_no_routes {ms : List Mark} (hv : visited.Nodup) (h : routedAgents ms = []) :
    (visited ++ routedAgents ms).Nodup := by
  rwa [h, List.append_nil]

variable {s : Session} {n : Nat} {l : Locals} {ts : List Event} {he : HopEnd} {w' : World}

theorem LoopTurns.routes_nodup {env : Env} {hop : Nat} (h : LoopTurns env s n hop l ts he w')
    (hv : l.visited.Nodup) : (l.visited ++ routedAgents (marks ts)).Nodup := by
  induction h with
  | exhausted => exact nodup_of_no_routes hv rfl
  | stop hturns =>
    cases hturns with
    | cancelled => exact nodup_of_no_routes hv rfl
    | contentFailed msg => exact nodup_of_no_routes hv rfl
    | noAnswer content code msg hexit => exact nodup_of_no_routes hv rfl
    | answered content text => exact nodup_of_no_routes hv rfl
    | toolBlocked content resp msg hroutes hstate =>
      rw [marks_append_error, routedAgents_toolTurns]
      refine (acceptedRoutes_nodup content resp.toolCalls hv).sublist ?_
      exact (hroutes.sublist.map Prod.fst).append_left _
    | loopBreak content resp hbreak =>
      rw [routedAgents_toolTurns]
      exact acceptedRoutes_nodup _ _ hv
    | hopLimit content resp msg hroutes hlimit => exact nodup_of_no_routes hv rfl
  | step hturns _ ih =>
    cases hturns with
    | next content resp hcalls hlen hgoes =>
      rw [marks_append, routedAgents_append, routedAgents_toolTurns, ← List.append_assoc]
      exact ih (acceptedRoutes_nodup _ _ hv)

/-- The part of a session's chain that the loop adds from agent `a` on. -/
structure LoopChain (cut : Prop) (a : Int) (ts : List Event) : Prop where
  children : List.IsChain (IsChild ts) (a :: routedAgents (marks ts))
  next : RunsNext cut (marks ts)
  head : (marks ts).head? = some (.hop a) ∨ marks ts = [] ∧ cut

variable {a : Int}

theorem IsChild.append_right {ts' : List Event} {b : Int} (h : IsChild ts' a b) :
    IsChild (ts ++ ts') a b := by
  obtain ⟨content, hmem, hchild⟩ := h
  exact ⟨content, List.mem_append_right _ hmem, hchild⟩

theorem LoopChain.cut_off {cut : Prop} (hcut : cut) (h : marks ts = []) : LoopChain cut a ts where
  children := by
    rw [h]
    exact List.IsChain.singleton a
  next := by
    rw [h]
    trivial
  head := Or.inr ⟨h, hcut⟩

theorem LoopChain.one_hop {cut : Prop} (h : marks ts = [.hop a]) :
    LoopChain cut a ts where
  children := by
    rw [h]
    exact List.IsChain.singleton a
  next := by
    rw [h]
    trivial
  head := by
    rw [h]
    exact Or.inl rfl

-- the agent of the hop after one with these routes
def nextAgent (a : Int) (routes : List (Int × String)) : Int :=
  (routes.getLast?.map Prod.fst).getD a

/-- A hop with at most one accepted route, in front of the rest of the loop. -/
theorem LoopChain.hop {cut : Prop} {l : Locals} {content : AgentContent} {resp : LLMResponse}
    {routes : List (Int × String)} {ts : List Event} (hone : routes.length ≤ 1)
    (hchild : ∀ t ∈ routes, ∃ child ∈ content.children, child.id = t.1)
    (h : LoopChain cut (nextAgent l.currentAgentId routes) ts) :
    LoopChain cut l.currentAgentId (toolTurns l content resp routes ++ ts) := by
  have hmono : List.IsChain (IsChild (toolTurns l content resp routes ++ ts))
      (nextAgent l.currentAgentId routes :: routedAgents (marks ts)) :=
    h.children.imp fun _ _ hc => hc.append_right
  have hmarks : marks (toolTurns l content resp routes ++ ts) =
      .hop l.currentAgentId :: (routes.map fun t => .routed t.1) ++ marks ts := by
    rw [marks_append, marks_toolTurns]
  rcases routes with _ | ⟨t, _ | ⟨t', rest⟩⟩
  · refine ⟨?_, ?_, Or.inl (by rw [hmarks]; rfl)⟩
    · rw [hmarks]
      exact hmono
    · rw [hmarks]
      exact h.next
  · refine ⟨?_, ?_, Or.inl (by rw [hmarks]; rfl)⟩
    · rw [hmarks]
      refine List.isChain_cons_cons.mpr ⟨?_, hmono⟩
      refine ⟨content, List.mem_append_left _ ?_, hchild t (List.mem_singleton_self t)⟩
      simp [toolTurns, answerTurns]
    · rw [hmarks]
      exact ⟨h.head, h.next⟩
  · simp at hone

-- how the loop ended, as the session shows it
def HopEnd.exit? : HopEnd → Option Exit
  | .cancelled => none
  | .leave e | .finish e => some e.exit

theorem oneRoute_toolTurns {content : AgentContent} {resp : LLMResponse}
    {routes : List (Int × String)} (h : OneRoute (toolTurns l content resp routes ++ ts)) :
    (acceptedRoutes content l.visited resp.toolCalls).length ≤ 1 ∧ OneRoute ts := by
  refine ⟨h (.toolCalls content l.visited resp) (by simp [toolTurns]), ?_⟩
  intro e hmem
  exact h e (List.mem_append_right _ hmem)

theorem LoopTurns.chain {env : Env} {hop : Nat} (h : LoopTurns env s n hop l ts he w')
    (hone : OneRoute ts) :
    LoopChain (CutOff he.exit?) l.currentAgentId ts := by
  induction h with
  | exhausted => exact .cut_off (Or.inl (Or.inl rfl)) rfl
  | stop hturns =>
    cases hturns with
    | cancelled => exact .cut_off (Or.inr (Or.inr rfl)) rfl
    | contentFailed msg => exact .one_hop rfl
    | noAnswer content code msg hexit => exact .one_hop rfl
    | answered content text => exact .one_hop rfl
    | toolBlocked content resp msg hroutes hstate =>
      obtain ⟨hlen, -⟩ := oneRoute_toolTurns hone
      refine .hop (hroutes.length_le.trans hlen) ?_ (.cut_off (Or.inr (Or.inl rfl)) rfl)
      intro t ht
      exact child_of_mem_acceptedRoutes (hroutes.subset ht)
    | loopBreak content resp hbreak =>
      rw [← List.append_nil (toolTurns _ _ _ _)] at hone ⊢
      obtain ⟨hlen, -⟩ := oneRoute_toolTurns hone
      refine .hop hlen ?_ (.cut_off (Or.inl (Or.inr rfl)) rfl)
      intro t ht
      exact child_of_mem_acceptedRoutes ht
    | hopLimit content resp msg hroutes hlimit => exact .one_hop rfl
  | step hturns _ ih =>
    cases hturns with
    | next content resp hcalls hlen hgoes =>
      obtain ⟨hroutes, hrest⟩ := oneRoute_toolTurns hone
      refine .hop hroutes ?_ (ih hrest)
      intro t ht
      exact child_of_mem_acceptedRoutes ht

-- ---
-- Sessions
-- ---

theorem mark?_eq_none_of_inner {lc : Context.LifecycleState} {ev : Event} (h : Inner lc ev) :
    ev.mark? = none := by
  cases h <;> rfl

theorem Finalized.marks_eq {e : Ending} {w : World} {saved : Option (String × Option Json)}
    (h : Finalized e w saved w') : marks w'.trace = marks w.trace := by
  obtain ⟨hhooked, hafter, -, -, -⟩ := h
  rename_i hooked exts stored elapsed
  have hend : marks (endEvents e stored ((finalText w'.ctx e.content exts).getD "") exts elapsed) =
      [] := by
    unfold endEvents marks
    by_cases hnil : exts = [] <;> cases stored <;> simp [hnil, Event.mark?]
  have hhooks : marks hooked = [] := by
    rcases hhooked with ⟨-, rfl⟩ | ⟨es, rfl, hinner⟩
    · rfl
    · show marks es = []
      exact List.filterMap_eq_nil_iff.mpr fun ev hev => mark?_eq_none_of_inner (hinner ev hev)
  rw [hafter.trace, marks_append, marks_append, hhooks, hend]
  simp

theorem session_loop {env : Env} {now : DateTime} {r : SessionEnd}
    (h : (runSession env s).Runs (initialWorld env s now) r w') :
    ∃ ts he w₁, LoopTurns env s env.maxHops 0 (initialLocals env s) ts he w₁ ∧
      he.exit? = r.ending.map Ending.exit ∧ marks w'.trace = marks ts ∧
      ∀ ev ∈ ts, ev ∈ w'.trace := by
  obtain ⟨w₀, hstart, hsession⟩ := runSession_course h
  cases hsession with
  | cancelled hloop hcourse hr =>
    obtain ⟨es, hafter, rfl, -⟩ := hcourse
    have htrace : w'.trace = es := (hstart.trans hafter).trace
    refine ⟨_, _, _, hloop, by rw [hr]; rfl, ?_, ?_⟩
    · rw [marks_filter_isTurn, htrace]
    · intro ev hev
      rw [htrace]
      exact List.mem_of_mem_filter hev
  | @ended ts he e w₁ w₂ hloop hend hcourse hclose _ hr hfinal =>
    obtain ⟨es, hafter, rfl, -⟩ := hcourse
    have htrace : w₂.trace = es := by
      rw [hclose.trace, List.append_nil]
      exact (hstart.trans hafter).trace
    refine ⟨_, _, _, hloop, ?_, ?_, ?_⟩
    · rw [hr]
      rcases hend with rfl | rfl <;> rfl
    · rw [hfinal.marks_eq, htrace, marks_filter_isTurn]
    · intro ev hev
      obtain ⟨-, hfin, -, -, -⟩ := hfinal
      rw [hfin.trace, htrace]
      exact List.mem_append_left _ (List.mem_of_mem_filter hev)

theorem routes_nodup {env : Env} {s : Session} {now : DateTime} {w' : World} {r : SessionEnd}
    (h : (runSession env s).Runs (initialWorld env s now) r w') :
    (s.startingAgentId :: routedAgents (marks w'.trace)).Nodup := by
  obtain ⟨ts, he, w₁, hloop, -, hmarks, -⟩ := session_loop h
  rw [hmarks]
  exact hloop.routes_nodup (List.nodup_singleton s.startingAgentId)

/-- The chain of every session has no repetition; and if no response has more
than one accepted route, it leads from child to child, and each of its agents runs
the hop after its event unless the session is cut off. -/
theorem routes_chain (env : Env) (s : Session) (now : DateTime) (outside : Nat → Moment) :
    (s.startingAgentId ::
        routedAgents (marks (sessionRun env s now outside).2.trace)).Nodup ∧
      (OneRoute (sessionRun env s now outside).2.trace →
        RouteChain CutOff s (sessionRun env s now outside).1
          (sessionRun env s now outside).2.trace) := by
  have hrun := runs_sessionRun env s now outside
  have hnodup := routes_nodup hrun
  refine ⟨hnodup, fun hone => ?_⟩
  obtain ⟨ts, he, w₁, hloop, hexit, hmarks, hsub⟩ := session_loop hrun
  have hchain := hloop.chain fun e hmem => hone e (hsub e hmem)
  refine ⟨hnodup, ?_, ?_⟩
  · rw [hmarks]
    refine hchain.children.imp ?_
    rintro a b ⟨content, hmem, hchild⟩
    exact ⟨content, hsub _ hmem, hchild⟩
  · rw [hmarks, ← hexit]
    exact hchain.next

-- the session is routed once; agent 2 has no child and stays until the hop limit
theorem routes_chain_routeOnce :
    marks (steadyRun Env.plain routeOnce).2.trace =
        [.hop 1, .routed 2, .hop 2, .hop 2, .hop 2, .hop 2] ∧
      RouteChain CutOff greeting (steadyRun Env.plain routeOnce).1
        (steadyRun Env.plain routeOnce).2.trace :=
  ⟨by decide +kernel,
    (routes_chain Env.plain greeting 0 fun _ => routeOnce).2 (by decide +kernel)⟩

-- the session is routed, and before the next hop the client has gone
def routeThenGone (k : Nat) : Moment := { routeOnce with cancelled := decide (5 < k) }

-- the model routes to both children of agent 1 in one response
def routeTwice : Moment :=
  { Moment.of { agents := [agentRow 1 "main" none, agentRow 2 "child" (some 1),
                  agentRow 3 "other" (some 1)] } with
    response := { toolCalls := [
      { id := "call-1", name := "route_to_subagent"
        arguments := [("agent_identifier", .str "child")] },
      { id := "call-2", name := "route_to_subagent"
        arguments := [("agent_identifier", .str "other")] }] } }

/-- The last agent of a chain is also cut off by a client that has gone; and of
two agents routed to in one response the first does not run at all. -/
theorem not_chain_routes :
    ¬RouteChain CutByLoop greeting (sessionRun Env.plain greeting 0 routeThenGone).1
        (sessionRun Env.plain greeting 0 routeThenGone).2.trace ∧
      ¬RouteChain CutByLoop greeting (steadyRun Env.plain routeTwice).1
        (steadyRun Env.plain routeTwice).2.trace := by
  constructor
  · have hmarks : marks (sessionRun Env.plain greeting 0 routeThenGone).2.trace =
        [.hop 1, .routed 2] := by
      decide +kernel
    have hend : (sessionRun Env.plain greeting 0 routeThenGone).1.ending.map Ending.exit =
        none := by
      decide +kernel
    intro h
    have hnext := h.next
    rw [hmarks, hend] at hnext
    rcases hnext.1 with hcontra | ⟨-, hcontra | hcontra⟩ <;> cases hcontra
  · have hmarks : (marks (steadyRun Env.plain routeTwice).2.trace).take 3 =
        [.hop 1, .routed 2, .routed 3] := by
      decide +kernel
    intro h
    have hnext := h.next
    rw [← List.take_append_drop 3 (marks _), hmarks] at hnext
    rcases hnext.1 with hcontra | ⟨hcontra, -⟩ <;> cases hcontra

end HiveClaw.Runtime
