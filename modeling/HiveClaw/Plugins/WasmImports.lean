import HiveClaw.Agents.Service

/-!
# The imports of a WASM module

`scan_wasm_imports` of `crates/hiveweb/src/runtime/wasm_imports.rs`: the walk
over the sections of a module up to the import section, whose entries have to
be host functions the server knows.

Positions are indices into the file; a read behind its end is an error of the
format.
-/

namespace HiveClaw.Plugins

abbrev Bytes := List UInt8

-- `registered_imports`
def registeredImports : List String := Agents.capabilities.map Agents.Capability.name

/-- The loop of `read_unsigned_leb128`. -/
def leb128From (bytes : Bytes) (pos : Nat) (result : UInt32) (shift : Nat) :
    Option (UInt32 × Nat) :=
  match bytes[pos]? with
  | none => none
  | some byte =>
    let result := result ||| ((byte &&& 0x7F).toUInt32 <<< UInt32.ofNat shift)
    if byte &&& 0x80 = 0 then some (result, pos + 1)
    else if shift + 7 ≥ 32 then none
    else leb128From bytes (pos + 1) result (shift + 7)
termination_by 32 - shift

-- `read_unsigned_leb128`
def readUnsignedLeb128 (bytes : Bytes) (pos : Nat) : Option (UInt32 × Nat) :=
  leb128From bytes pos 0 0

/-- A number of the format, or the error that it cannot be read. -/
def readOr (bytes : Bytes) (pos : Nat) (what : String) : Except AppError (UInt32 × Nat) :=
  match readUnsignedLeb128 bytes pos with
  | some r => .ok r
  | none => .error (.badRequest ("WASM 格式错误：无法读取 " ++ what))

-- `skip_limits`
def skipLimits (bytes : Bytes) (pos : Nat) : Except AppError Nat :=
  match bytes[pos]? with
  | none => .error (.badRequest "WASM 格式错误：limits 越界")
  | some flags => do
    let (_, p) ← readOr bytes (pos + 1) "limits min"
    if flags &&& 0x01 ≠ 0 then
      let (_, p₂) ← readOr bytes p "limits max"
      pure p₂
    else
      pure p

-- `{kind:02x}`
def hexByte (b : UInt8) : String :=
  String.ofList [Nat.digitChar (b.toNat / 16), Nat.digitChar (b.toNat % 16)]

-- `skip_import_desc`
def skipImportDesc (bytes : Bytes) (pos : Nat) (kind : UInt8) : Except AppError Nat :=
  if kind = 0x00 then do
    let (_, p) ← readOr bytes pos "import descriptor typeidx"
    pure p
  else if kind = 0x01 then do
    let (_, p) ← readOr bytes pos "import descriptor table reftype"
    skipLimits bytes p
  else if kind = 0x02 then skipLimits bytes pos
  else if kind = 0x03 then
    if pos + 2 > bytes.length then
      .error (.badRequest "WASM 格式错误：无法读取 import descriptor globaltype")
    else .ok (pos + 2)
  else .error (.badRequest ("WASM 格式错误：未知 import kind 0x" ++ hexByte kind))

-- `read_name`
def readName (bytes : Bytes) (pos : Nat) : Option (String × Nat) := do
  let (len, newPos) ← readUnsignedLeb128 bytes pos
  let last := newPos + len.toNat
  if last > bytes.length then none
  else
    let name ← String.fromUTF8? ⟨((bytes.drop newPos).take len.toNat).toArray⟩
    pure (name, last)

/-- A name of an import, or the error that it cannot be read. -/
def readNameOr (bytes : Bytes) (pos : Nat) (what : String) : Except AppError (String × Nat) :=
  match readName bytes pos with
  | some r => .ok r
  | none => .error (.badRequest ("WASM 格式错误：无法读取 " ++ what))

/-- The entries of the import section. -/
def readImports (bytes : Bytes) : Nat → Nat → Except AppError (List String)
  | 0, _ => pure []
  | n + 1, pos => do
    let (module, pos) ← readNameOr bytes pos "module name"
    let (name, pos) ← readNameOr bytes pos "field name"
    match bytes[pos]? with
    | none => throw (.badRequest "WASM 格式错误：import descriptor 越界")
    | some kind =>
      let pos ← skipImportDesc bytes (pos + 1) kind
      let rest ← readImports bytes n pos
      pure ((module ++ "." ++ name) :: rest)

variable {bytes : Bytes}

theorem pos_lt_of_leb128From {pos shift newPos : Nat} {result r : UInt32}
    (h : leb128From bytes pos result shift = some (r, newPos)) : pos < newPos := by
  fun_induction leb128From bytes pos result shift with
  | case1 => cases h
  | case2 =>
    simp only [Option.some.injEq, Prod.mk.injEq] at h
    omega
  | case3 => cases h
  | case4 pos _ _ _ _ _ _ _ ih =>
    have hlt := ih h
    omega

/-- The sections from `pos` on, up to the imports. -/
def foundImports (bytes : Bytes) (pos : Nat) : Except AppError (List String) :=
  match _hsection : bytes[pos]? with
  | none => .ok []
  | some sectionId =>
    match _hread : readUnsignedLeb128 bytes (pos + 1) with
    | none => .error (.badRequest "WASM 格式错误：无法读取 section size")
    | some (sectionSize, newPos) =>
      if sectionId = 2 then do
        let (numImports, newPos) ← readOr bytes newPos "import count"
        readImports bytes numImports.toNat newPos
      else foundImports bytes (newPos + sectionSize.toNat)
termination_by bytes.length - pos
decreasing_by
  have hlt := pos_lt_of_leb128From _hread
  obtain ⟨hpos, -⟩ := List.getElem?_eq_some_iff.mp _hsection
  omega

-- `scan_wasm_imports`
def scanWasmImports (bytes : Bytes) (allowed : List String) : Except AppError Unit :=
  if bytes.length < 8 then .error (.badRequest "WASM 文件太小，无法解析")
  else do
    let imports ← foundImports bytes 8
    match imports.find? fun i =>
        !"extism:host/".toList.isPrefixOf i.toList && !allowed.contains i with
    | some i => .error (.badRequest ("WASM 包含未注册的 host import: " ++ i ++
        "（宿主仅支持: " ++ String.intercalate ", " allowed ++ "）"))
    | none => .ok ()

/-- A module without sections imports nothing. -/
theorem scanWasmImports_header (hlength : bytes.length = 8) (allowed : List String) :
    scanWasmImports bytes allowed = .ok () := by
  have hfound : foundImports bytes 8 = .ok [] := by
    have hend : bytes[8]? = none := List.getElem?_eq_none (by omega)
    rw [foundImports]
    split
    · rfl
    · next hsection => cases hend.symm.trans hsection
  rw [scanWasmImports, if_neg (by omega), hfound]
  rfl

end HiveClaw.Plugins
