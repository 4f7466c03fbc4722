import HiveClaw.Plugins.WasmImports

/-!
# Reads within the file

`scan_wasm_imports` again, with the index and slice expressions of the source: one that is out of
range is a panic. The checks in front of them rule that out, so the scan ends on every file and
comes to what `scanWasmImports` says (`scan_total`).
-/

namespace HiveClaw.Plugins.Reads

/-- A computation that reads the file: `none` is a panic. -/
abbrev Read (α : Type) := ExceptT AppError Option α

-- `bytes[pos]`
def byteAt (bytes : Bytes) (pos : Nat) : Option UInt8 := bytes[pos]?

-- `bytes[start..stop]`
def slice (bytes : Bytes) (start stop : Nat) : Option Bytes :=
  if start ≤ stop ∧ stop ≤ bytes.length then some ((bytes.drop start).take (stop - start)) else none

/-- The loop of `read_unsigned_leb128`. -/
def leb128From (bytes : Bytes) (pos : Nat) (result : UInt32) (shift : Nat) :
    Option (Option (UInt32 × Nat)) :=
  if pos ≥ bytes.length then some none
  else
    match byteAt bytes pos with
    | none => none
    | some byte =>
      let result := result ||| ((byte &&& 0x7F).toUInt32 <<< UInt32.ofNat shift)
      if byte &&& 0x80 = 0 then some (some (result, pos + 1))
      else if shift + 7 ≥ 32 then some none
      else leb128From bytes (pos + 1) result (shift + 7)
termination_by 32 - shift

-- `read_unsigned_leb128`
def readUnsignedLeb128 (bytes : Bytes) (pos : Nat) : Option (Option (UInt32 × Nat)) :=
  leb128From bytes pos 0 0

-- `read_name`
def readName (bytes : Bytes) (pos : Nat) : Option (Option (String × Nat)) :=
  match readUnsignedLeb128 bytes pos with
  | none => none
  | some none => some none
  | some (some (len, newPos)) =>
    let last := newPos + len.toNat
    if last > bytes.length then some none
    else
      match slice bytes newPos last with
      | none => none
      | some name => some ((String.fromUTF8? ⟨name.toArray⟩).map fun name => (name, last))

/-- `ok_or_else`, for what may panic. -/
def orError {α : Type} (read : Option (Option α)) (what : String) : Read α :=
  ExceptT.mk (read.map fun r => r.elim (.error (.badRequest ("WASM 格式错误：无法读取 " ++ what))) .ok)

/-- `bytes[pos]` behind a check that it is there. -/
def byteOr (bytes : Bytes) (pos : Nat) (error : String) : Read UInt8 :=
  if pos ≥ bytes.length then throw (.badRequest error) else ExceptT.lift (byteAt bytes pos)

-- `skip_limits`
def skipLimits (bytes : Bytes) (pos : Nat) : Read Nat := do
  let flags ← byteOr bytes pos "WASM 格式错误：limits 越界"
  let (_, p) ← orError (readUnsignedLeb128 bytes (pos + 1)) "limits min"
  if flags &&& 0x01 ≠ 0 then
    let (_, p₂) ← orError (readUnsignedLeb128 bytes p) "limits max"
    pure p₂
  else
    pure p

-- `skip_import_desc`
def skipImportDesc (bytes : Bytes) (pos : Nat) (kind : UInt8) : Read Nat :=
  if kind = 0x00 then do
    let (_, p) ← orError (readUnsignedLeb128 bytes pos) "import descriptor typeidx"
    pure p
  else if kind = 0x01 then do
    let (_, p) ← orError (readUnsignedLeb128 bytes pos) "import descriptor table reftype"
    skipLimits bytes p
  else if kind = 0x02 then skipLimits bytes pos
  else if kind = 0x03 then
    if pos + 2 > bytes.length then
      throw (.badRequest "WASM 格式错误：无法读取 import descriptor globaltype")
    else pure (pos + 2)
  else throw (.badRequest ("WASM 格式错误：未知 import kind 0x" ++ hexByte kind))

/-- The entries of the import section. -/
def readImports (bytes : Bytes) : Nat → Nat → Read (List String)
  | 0, _ => pure []
  | n + 1, pos => do
    let (module, pos) ← orError (readName bytes pos) "module name"
    let (name, pos) ← orError (readName bytes pos) "field name"
    let kind ← byteOr bytes pos "WASM 格式错误：import descriptor 越界"
    let pos ← skipImportDesc bytes (pos + 1) kind
    let rest ← readImports bytes n pos
    pure ((module ++ "." ++ name) :: rest)

/-- The loop that indexes the bytes never panics and reads what the total one reads. -/
theorem leb128From_eq (bytes : Bytes) (pos : Nat) (result : UInt32) (shift : Nat) :
    leb128From bytes pos result shift = some (Plugins.leb128From bytes pos result shift) := by
  fun_induction Plugins.leb128From bytes pos result shift with
  | case1 pos result shift hend =>
    rw [leb128From, if_pos (List.getElem?_eq_none_iff.mp hend)]
  | case2 pos result shift byte hbyte result' hlast =>
    obtain ⟨hpos, -⟩ := List.getElem?_eq_some_iff.mp hbyte
    rw [leb128From, if_neg (Nat.not_le.mpr hpos), byteAt, hbyte]
    dsimp only
    rw [if_pos hlast]
  | case3 pos result shift byte hbyte hmore hshift =>
    obtain ⟨hpos, -⟩ := List.getElem?_eq_some_iff.mp hbyte
    rw [leb128From, if_neg (Nat.not_le.mpr hpos), byteAt, hbyte]
    dsimp only
    rw [if_neg hmore, if_pos hshift]
  | case4 pos result shift byte hbyte result' hmore hshift ih =>
    obtain ⟨hpos, -⟩ := List.getElem?_eq_some_iff.mp hbyte
    rw [leb128From, if_neg (Nat.not_le.mpr hpos), byteAt, hbyte]
    dsimp only
    rw [if_neg hmore, if_neg hshift]
    exact ih

theorem readUnsignedLeb128_eq (bytes : Bytes) (pos : Nat) :
    readUnsignedLeb128 bytes pos = some (Plugins.readUnsignedLeb128 bytes pos) :=
  leb128From_eq bytes pos 0 0

/-- The sections from `pos` on, up to the imports. -/
def foundImports (bytes : Bytes) (pos : Nat) : Read (List String) :=
  if _hpos : pos ≥ bytes.length then pure []
  else
    match byteAt bytes pos, _hread : readUnsignedLeb128 bytes (pos + 1) with
    | none, _ | _, none => ExceptT.mk none
    | some _, some none => throw (.badRequest "WASM 格式错误：无法读取 section size")
    | some sectionId, some (some (sectionSize, newPos)) =>
      if sectionId = 2 then do
        let (numImports, newPos) ← orError (readUnsignedLeb128 bytes newPos) "import count"
        readImports bytes numImports.toNat newPos
      else foundImports bytes (newPos + sectionSize.toNat)
termination_by bytes.length - pos
decreasing_by
  rw [readUnsignedLeb128_eq] at _hread
  have hlt := pos_lt_of_leb128From (Option.some.inj _hread)
  omega

-- `scan_wasm_imports`
def scanWasmImports (bytes : Bytes) (allowed : List String) : Read Unit :=
  if bytes.length < 8 then throw (.badRequest "WASM 文件太小，无法解析")
  else do
    let imports ← foundImports bytes 8
    match imports.find? fun i =>
        !"extism:host/".toList.isPrefixOf i.toList && !allowed.contains i with
    | some i => throw (.badRequest ("WASM 包含未注册的 host import: " ++ i ++
        "（宿主仅支持: " ++ String.intercalate ", " allowed ++ "）"))
    | none => pure ()

/-! ## No panic -/

/-- The computation does not panic, and it comes to `y`. -/
def ComesTo {α : Type} (x : Read α) (y : Except AppError α) : Prop := x.run = some y

variable {α β : Type}

/-- Computations in sequence come to what their results in sequence are. -/
theorem ComesTo.bind {x : Read α} {y : Except AppError α} {f : α → Read β}
    {g : α → Except AppError β} (h : ComesTo x y) (hf : ∀ a, ComesTo (f a) (g a)) :
    ComesTo (x >>= f) (y >>= g) := by
  unfold ComesTo at h ⊢
  show (x.run >>= ExceptT.bindCont f) = _
  rw [h]
  cases y with
  | error err => rfl
  | ok a => exact hf a

theorem comesTo_pure (a : α) : ComesTo (pure a) (.ok a) := rfl

theorem comesTo_throw (err : AppError) : ComesTo (throw err : Read α) (.error err) := rfl

variable {bytes : Bytes} {pos : Nat}

theorem comesTo_byteOr {error : String} {f : UInt8 → Read β} {g : UInt8 → Except AppError β}
    (hf : ∀ b, ComesTo (f b) (g b)) :
    ComesTo (byteOr bytes pos error >>= f)
      (match bytes[pos]? with
      | none => .error (.badRequest error)
      | some b => g b) := by
  unfold byteOr byteAt
  cases hbyte : bytes[pos]? with
  | none =>
    rw [if_pos (List.getElem?_eq_none_iff.mp hbyte)]
    rfl
  | some b =>
    obtain ⟨hpos, -⟩ := List.getElem?_eq_some_iff.mp hbyte
    rw [if_neg (Nat.not_le.mpr hpos)]
    exact hf b

theorem comesTo_number (bytes : Bytes) (pos : Nat) (what : String) :
    ComesTo (orError (readUnsignedLeb128 bytes pos) what) (readOr bytes pos what) := by
  rw [readUnsignedLeb128_eq]
  unfold readOr
  cases Plugins.readUnsignedLeb128 bytes pos with
  | none => rfl
  | some r => rfl

theorem readName_eq (bytes : Bytes) (pos : Nat) :
    readName bytes pos = some (Plugins.readName bytes pos) := by
  unfold readName Plugins.readName
  rw [readUnsignedLeb128_eq]
  cases Plugins.readUnsignedLeb128 bytes pos with
  | none => rfl
  | some r =>
    obtain ⟨len, newPos⟩ := r
    dsimp only
    by_cases hend : newPos + len.toNat > bytes.length
    · rw [if_pos hend]
      simp only [bind, Option.bind, if_pos hend]
    · rw [if_neg hend]
      unfold slice
      rw [if_pos ⟨Nat.le_add_right _ _, Nat.not_lt.mp hend⟩]
      simp only [bind, Option.bind, if_neg hend, Nat.add_sub_cancel_left]
      cases String.fromUTF8? ⟨((bytes.drop newPos).take len.toNat).toArray⟩ with
      | none => rfl
      | some name => rfl

theorem comesTo_name (bytes : Bytes) (pos : Nat) (what : String) :
    ComesTo (orError (readName bytes pos) what) (readNameOr bytes pos what) := by
  rw [readName_eq]
  unfold readNameOr
  cases Plugins.readName bytes pos with
  | none => rfl
  | some r => rfl

theorem comesTo_skipLimits (bytes : Bytes) (pos : Nat) :
    ComesTo (skipLimits bytes pos) (Plugins.skipLimits bytes pos) := by
  apply comesTo_byteOr
  intro flags
  refine (comesTo_number bytes (pos + 1) "limits min").bind fun r => ?_
  dsimp only
  split
  · exact (comesTo_number bytes r.2 "limits max").bind fun r₂ => comesTo_pure r₂.2
  · exact comesTo_pure r.2

theorem comesTo_skipImportDesc (bytes : Bytes) (pos : Nat) (kind : UInt8) :
    ComesTo (skipImportDesc bytes pos kind) (Plugins.skipImportDesc bytes pos kind) := by
  unfold skipImportDesc Plugins.skipImportDesc
  split
  · exact (comesTo_number bytes pos _).bind fun r => comesTo_pure r.2
  split
  · exact (comesTo_number bytes pos _).bind fun r => comesTo_skipLimits bytes r.2
  split
  · exact comesTo_skipLimits bytes pos
  split
  · split
    · exact comesTo_throw _
    · exact comesTo_pure (pos + 2)
  · exact comesTo_throw _

/-- The import section, by induction on the number of imports left. -/
theorem comesTo_readImports (bytes : Bytes) (n pos : Nat) :
    ComesTo (readImports bytes n pos) (Plugins.readImports bytes n pos) := by
  induction n generalizing pos with
  | zero => exact comesTo_pure []
  | succ n ih =>
    refine (comesTo_name bytes pos "module name").bind fun module => ?_
    refine (comesTo_name bytes module.2 "field name").bind fun name => ?_
    apply comesTo_byteOr
    intro kind
    refine (comesTo_skipImportDesc bytes (name.2 + 1) kind).bind fun next => ?_
    exact (ih next).bind fun rest => comesTo_pure _

theorem foundImports_of_byte {sectionId : UInt8} (hbyte : bytes[pos]? = some sectionId) :
    foundImports bytes pos =
      match readUnsignedLeb128 bytes (pos + 1) with
      | none => ExceptT.mk none
      | some none => throw (.badRequest "WASM 格式错误：无法读取 section size")
      | some (some (sectionSize, newPos)) =>
        if sectionId = 2 then do
          let (numImports, newPos) ← orError (readUnsignedLeb128 bytes newPos) "import count"
          readImports bytes numImports.toNat newPos
        else foundImports bytes (newPos + sectionSize.toNat) := by
  obtain ⟨hpos, -⟩ := List.getElem?_eq_some_iff.mp hbyte
  rw [foundImports, dif_neg (Nat.not_le.mpr hpos)]
  split
  · next hnone => cases hnone.symm.trans hbyte
  · next hread _ => rw [hread]
  · next hread => rw [hread]
  · next hsome hread =>
    cases hsome.symm.trans hbyte
    rw [hread]

/-- The section loop, up to the import section or the end of the bytes. -/
theorem comesTo_foundImports (bytes : Bytes) (pos : Nat) :
    ComesTo (foundImports bytes pos) (Plugins.foundImports bytes pos) := by
  fun_induction Plugins.foundImports bytes pos with
  | case1 pos hend =>
    rw [foundImports, dif_pos (List.getElem?_eq_none_iff.mp hend)]
    exact comesTo_pure []
  | case2 pos sectionId hbyte hread =>
    rw [foundImports_of_byte hbyte, readUnsignedLeb128_eq, hread]
    exact comesTo_throw _
  | case3 pos size newPos hread hbyte =>
    rw [foundImports_of_byte hbyte, readUnsignedLeb128_eq, hread]
    dsimp only
    rw [if_pos rfl]
    refine (comesTo_number bytes newPos "import count").bind fun count => ?_
    exact comesTo_readImports bytes count.1.toNat count.2
  | case4 pos sectionId hbyte size newPos hread hother ih =>
    rw [foundImports_of_byte hbyte, readUnsignedLeb128_eq, hread]
    dsimp only
    rw [if_neg hother]
    exact ih

/-- Every byte sequence is scanned to an answer; no read is out of range. -/
theorem scan_total (bytes : Bytes) (allowed : List String) :
    ComesTo (scanWasmImports bytes allowed) (Plugins.scanWasmImports bytes allowed) := by
  unfold scanWasmImports Plugins.scanWasmImports
  split
  · exact comesTo_throw _
  refine (comesTo_foundImports bytes 8).bind fun imports => ?_
  cases imports.find? _ with
  | none => exact comesTo_pure ()
  | some i => exact comesTo_throw _

end HiveClaw.Plugins.Reads
