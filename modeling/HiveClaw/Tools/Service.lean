import HiveClaw.Store.OptimisticLock

/-!
# The tool service

`update` of `crates/hiveweb/src/services/tool.rs` with the schema checks it
makes. Every statement is its own transaction here: the row is written first,
then the tags are cleared and inserted one by one.

The foreign key on `category_id` is not modelled; a refused row shows up as a
`fault` of the `UPDATE`.
-/

namespace HiveClaw.Tools

open Service Lib

-- `UpdateMeta`
structure UpdateMeta where
  name : Option String := none
  description : Option String := none
  inputSchema : Option Json := none
  outputSchema : Option Json := none
  categoryId : Option Int := none
  requiredCapabilities : Option (List String) := none
  tagIds : Option (List Int) := none
  isAlways : Option Bool := none
  updatedAt : DateTime

-- `ToolListItem`; a `TagSummary` is a row of `tags`
structure ToolListItem where
  tool : Tool
  tags : List Tag

/-! ## Schemas -/

mutual

/-- `json_deep_equal`: equality of values up to the order of object keys. -/
def jsonDeepEqual : Json → Json → Bool
  | .obj am, .obj bm => am.length == bm.length && fieldsDeepEqual am bm
  | .arr av, .arr bv => av.length == bv.length && itemsDeepEqual av bv
  | a, b => decide (a = b)

/-- Every field of the first object has an equal one in the second. -/
def fieldsDeepEqual : List (String × Json) → List (String × Json) → Bool
  | [], _ => true
  | (k, v) :: rest, bm =>
    (match bm.lookup k with
      | some bv => jsonDeepEqual v bv
      | none => false) && fieldsDeepEqual rest bm

-- `av.iter().zip(bv.iter()).all(…)`
def itemsDeepEqual : List Json → List Json → Bool
  | x :: xs, y :: ys => jsonDeepEqual x y && itemsDeepEqual xs ys
  | _, _ => true

end

-- `validate_schemas_function`
def validateSchemasFunction (functionId : Int) (toolInput toolOutput : Json) : Service Unit := do
  let row ← query "function schema fetch" fun s =>
    (s.function? functionId).map fun f => (f.inputSchema, f.outputSchema)
  let (fnIn, fnOut) ← okOr row (.notFound s!"function id={functionId} not found")
  failIf (jsonDeepEqual fnIn toolInput = false)
    (.schemaMismatch "Tool input_schema 与 function 不一致")
  failIf (jsonDeepEqual fnOut toolOutput = false)
    (.schemaMismatch "Tool output_schema 与 function 不一致")

/-- The type a schema gives a field: `props.get(field).get("type").as_str()`. -/
def fieldType (schema : Json) (field : String) : Option String :=
  ((schema.get "properties").getD (.obj [])).get field |>.bind fun f => f.getStr "type"

-- `{:?}` of an `Option<&str>`
def debugOptStr : Option String → String
  | some t => "Some(\"" ++ t ++ "\")"
  | none => "None"

/-- The loop of `validate_schemas_workflow` over the required fields of the
workflow's input; an entry that is no string is passed over. -/
def checkRequired (wfInput toolInput : Json) : List Json → Except AppError Unit
  | [] => .ok ()
  | r :: rest =>
    match r.asStr with
    | none => checkRequired wfInput toolInput rest
    | some field =>
      let wfType := fieldType wfInput field
      let toolType := fieldType toolInput field
      if toolType = none then
        .error (.schemaMismatch s!"Tool input_schema 缺 workflow 入口必填字段「{field}」")
      else if wfType ≠ toolType then
        .error (.schemaMismatch ("Tool input_schema 字段「" ++ field ++ "」类型不匹配（期望 " ++
          debugOptStr wfType ++ "，得到 " ++ debugOptStr toolType ++ "）"))
      else checkRequired wfInput toolInput rest

-- `validate_schemas_workflow`
def validateSchemasWorkflow (workflowId : Int) (toolInput : Json) : Service Unit := do
  let row ← query "workflow input_schema fetch" fun s =>
    (s.workflow? workflowId).map Workflow.inputSchema
  let schema ← okOr row (.notFound s!"workflow id={workflowId} not found")
  -- the column may be NULL, the type it is decoded to may not
  let wfInput ← okOr schema
    (.internal ("workflow input_schema fetch: error occurred while decoding column 0: " ++
      "unexpected null; try decoding as an `Option`"))
  lift (checkRequired wfInput toolInput
    (((wfInput.get "required").getD (.arr [])).asArray.getD []))

/-- The schemas of an update are checked only if it brings new ones; a tool
without the target its kind asks for makes the request panic. -/
def validateSchemas (existing : Tool) (req : UpdateMeta) : Service Unit :=
  let newIn := req.inputSchema.getD existing.inputSchema
  let newOut := req.outputSchema.getD existing.outputSchema
  if req.inputSchema.isSome ∨ req.outputSchema.isSome then
    if existing.kind = 1 then
      match existing.functionId with
      | some fid => validateSchemasFunction fid newIn newOut
      | none => throw (.panic "called `Option::unwrap()` on a `None` value")
    else if existing.kind = 2 then
      match existing.workflowId with
      | some wid => validateSchemasWorkflow wid newIn
      | none => throw (.panic "called `Option::unwrap()` on a `None` value")
    else pure ()
  else pure ()

/-! ## Reading -/

-- `fetch_by_id`
def fetchById (id : Int) : Service Tool := do
  let row ← query "tool fetch" fun s => s.tool? id
  okOr row (.notFound s!"tool id={id} not found")

-- `fetch_tool_with_tags`
def fetchToolWithTags (id : Int) : Service ToolListItem := do
  let tool ← fetchById id
  let tags ← query "tool tags" fun s =>
    s.tags.filter fun t => ⟨t.id, "tool", id⟩ ∈ s.taggings
  pure ⟨tool, tags⟩

/-! ## Writing -/

/-- The columns of a builtin tool that may change. -/
def applyBuiltin (req : UpdateMeta) (t : Tool) : Tool :=
  { t with
    categoryId := req.categoryId.or t.categoryId
    isAlways := req.isAlways.getD t.isAlways }

/-- The row `UPDATE tools SET … COALESCE(?, …)` makes of `t`, its time stamp
apart. -/
def applyUpdate (mysql : Mysql) (req : UpdateMeta) (t : Tool) : Tool :=
  { t with
    name := req.name.getD t.name
    description := req.description.getD t.description
    inputSchema := (req.inputSchema.map mysql.jsonNormal).getD t.inputSchema
    outputSchema := (req.outputSchema.map mysql.jsonNormal).getD t.outputSchema
    categoryId := req.categoryId.or t.categoryId
    requiredCapabilities :=
      (req.requiredCapabilities.map fun c => mysql.jsonNormal (.arr (c.map .str))).or
        t.requiredCapabilities
    isAlways := req.isAlways.getD t.isAlways }

-- `updated_at … ON UPDATE CURRENT_TIMESTAMP`
def touch (now : DateTime) (old new : Tool) : Tool :=
  if new = old then old else { new with updatedAt := now.toSecond }

-- `UPDATE tools SET … WHERE id = ?`
def updateRow (what : String) (id : Int) (f : Tool → Tool) : Service Unit :=
  execute what fun i s =>
    match i.check what with
    | .error e => (.error e, s)
    | .ok () =>
      (.ok (), { s with
        tools := s.tools.map fun t => if t.id = id then touch i.now t (f t) else t })

-- `INSERT IGNORE INTO taggings`
def insertTagging (id tagId : Int) : Service Unit :=
  execute "tool tag insert" fun i s =>
    match i.check "tool tag insert" with
    | .error e => (.error e, s)
    | .ok () =>
      if ⟨tagId, "tool", id⟩ ∈ s.taggings ∨ s.tags.all (fun t => t.id ≠ tagId) then (.ok (), s)
      else (.ok (), { s with taggings := s.taggings ++ [⟨tagId, "tool", id⟩] })

/-- The loop of `INSERT`s. -/
def insertTaggings (id : Int) : List Int → Service Unit
  | [] => pure ()
  | tagId :: rest => do
    insertTagging id tagId
    insertTaggings id rest

/-- The tags are replaced if the request gives new ones. -/
def replaceTags (id : Int) (tagIds : Option (List Int)) : Service Unit :=
  onSome tagIds fun tags => do
    execute "tag clear" fun i s =>
      match i.check "tag clear" with
      | .error e => (.error e, s)
      | .ok () =>
        (.ok (), { s with
          taggings := s.taggings.filter fun g => ¬ (g.entityType = "tool" ∧ g.entityId = id) })
    insertTaggings id tags

-- `update`
def update (mysql : Mysql) (id : Int) (req : UpdateMeta) : Service ToolListItem := do
  OptimisticLock.checkAndBump "tools" id (fun s => (s.tool? id).map Tool.updatedAt) req.updatedAt
  let existing ← fetchById id
  if existing.source = "builtin" then do
    failIf (req.name.isSome ∨ req.description.isSome ∨ req.inputSchema.isSome ∨
        req.outputSchema.isSome ∨ req.requiredCapabilities.isSome)
      (.builtinToolProtected s!"内置工具「{existing.identifier}」仅可修改分类、标签和 always")
    updateRow "builtin tool update" id (applyBuiltin req)
    replaceTags id req.tagIds
    fetchToolWithTags id
  else do
    validateSchemas existing req
    updateRow "tool update" id (applyUpdate mysql req)
    replaceTags id req.tagIds
    fetchToolWithTags id

end HiveClaw.Tools
