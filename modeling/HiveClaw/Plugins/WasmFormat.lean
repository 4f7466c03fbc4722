import Mathlib.Data.Nat.Bitwise
import HiveClaw.Plugins.WasmReads

/-!
# Well-formed modules

The binary format of a WebAssembly module as far as its imports: sections with their sizes, names,
and the four kinds of import. A module is the value and `WasmModule.encode` writes it, with every
number in its shortest form; what a section other than the imports holds is left open.

The scan finds in such a file exactly the imports of the module (`foundImports_encode`), hence it
accepts the file exactly when each of them is a host import or on the list (`scan_exact`).
-/

namespace HiveClaw.Plugins

/-! ## The format -/

/-- An unsigned number, lowest seven bits first. -/
def leb128 (n : Nat) : Bytes :=
  if n < 128 then [n.toUInt8] else (n % 128 + 128).toUInt8 :: leb128 (n / 128)
termination_by n

/-- A name: its length in bytes, then its text. -/
structure Name where
  text : String
  fits : text.utf8ByteSize < 2 ^ 32

def Name.encode (n : Name) : Bytes :=
  leb128 n.text.utf8ByteSize ++ n.text.toByteArray.data.toList

structure Limits where
  min : UInt32
  max? : Option UInt32

def Limits.encode (l : Limits) : Bytes :=
  match l.max? with
  | none => 0x00 :: leb128 l.min.toNat
  | some max => 0x01 :: (leb128 l.min.toNat ++ leb128 max.toNat)

inductive ValType where
  | i32
  | i64
  | f32
  | f64

def ValType.byte : ValType → UInt8
  | .i32 => 0x7F
  | .i64 => 0x7E
  | .f32 => 0x7D
  | .f64 => 0x7C

inductive ImportDesc where
  | func (typeidx : UInt32)
  | table (limits : Limits)
  | memory (limits : Limits)
  | global (valtype : ValType) (mutable : Bool)

/-- The kind of an import and what describes it; the elements of a table are functions. -/
def ImportDesc.encode : ImportDesc → Bytes
  | .func typeidx => 0x00 :: leb128 typeidx.toNat
  | .table limits => 0x01 :: 0x70 :: limits.encode
  | .memory limits => 0x02 :: limits.encode
  | .global valtype mutable => [0x03, valtype.byte, if mutable then 0x01 else 0x00]

structure Import where
  module : Name
  name : Name
  desc : ImportDesc

def Import.encode (i : Import) : Bytes := i.module.encode ++ i.name.encode ++ i.desc.encode

-- `module.name`
def Import.full (i : Import) : String := i.module.text ++ "." ++ i.name.text

/-- A section that is not the imports. -/
structure RawSection where
  sectionId : UInt8
  content : Bytes
  other : sectionId ≠ 2
  fits : content.length < 2 ^ 32

def RawSection.encode (s : RawSection) : Bytes :=
  s.sectionId :: (leb128 s.content.length ++ s.content)

def importContent (imports : List Import) : Bytes :=
  leb128 imports.length ++ imports.flatMap Import.encode

structure ImportSection where
  imports : List Import
  fits : (importContent imports).length < 2 ^ 32

def ImportSection.encode (s : ImportSection) : Bytes :=
  2 :: (leb128 (importContent s.imports).length ++ importContent s.imports)

/-- A module: at most one section of imports, between the others. -/
structure WasmModule where
  before : List RawSection
  importSection : Option ImportSection
  after : List RawSection

def WasmModule.imports (m : WasmModule) : List Import := m.importSection.elim [] (·.imports)

def WasmModule.encode (m : WasmModule) : Bytes :=
  [0x00, 0x61, 0x73, 0x6D, 0x01, 0x00, 0x00, 0x00] ++
    (m.before.flatMap RawSection.encode ++
      (m.importSection.elim [] ImportSection.encode ++ m.after.flatMap RawSection.encode))

/-! ## Where the file is read -/

/-- From `pos` on, the file is `rest`. -/
structure At (bytes : Bytes) (pos : Nat) (rest : Bytes) : Prop where
  drop : bytes.drop pos = rest
  length : pos + rest.length = bytes.length

theorem at_front (front rest : Bytes) : At (front ++ rest) front.length rest :=
  ⟨List.drop_left, List.length_append.symm⟩

namespace At

variable {bytes rest : Bytes} {pos : Nat} {byte : UInt8}

theorem skip {part : Bytes} (h : At bytes pos (part ++ rest)) :
    At bytes (pos + part.length) rest := by
  obtain ⟨hdrop, hlength⟩ := h
  rw [List.length_append] at hlength
  refine ⟨?_, by omega⟩
  rw [← List.drop_drop, hdrop, List.drop_left]

theorem next (h : At bytes pos (byte :: rest)) : At bytes (pos + 1) rest :=
  @skip bytes rest pos [byte] h

theorem read (h : At bytes pos (byte :: rest)) : bytes[pos]? = some byte := by
  have hhead := List.head?_drop (l := bytes) (i := pos)
  rw [h.drop, List.head?_cons] at hhead
  exact hhead.symm

theorem read_nil (h : At bytes pos []) : bytes[pos]? = none := by
  have hlength := h.length
  rw [List.length_nil, Nat.add_zero] at hlength
  exact List.getElem?_eq_none hlength.ge

end At

/-! ## Numbers -/

theorem toNat_or_shiftLeft {result : UInt32} (byte : UInt8) {shift : Nat}
    (hresult : result.toNat < 2 ^ shift) (hshift : shift < 32)
    (hfits : byte.toNat % 128 * 2 ^ shift < 2 ^ 32) :
    (result ||| ((byte &&& 0x7F).toUInt32 <<< UInt32.ofNat shift)).toNat =
      result.toNat + byte.toNat % 128 * 2 ^ shift := by
  have hbits : (byte &&& 0x7F).toNat = byte.toNat % 128 := by
    rw [UInt8.toNat_and]
    exact Nat.and_two_pow_sub_one_eq_mod byte.toNat 7
  have hamount : (UInt32.ofNat shift).toNat % 32 = shift := by
    rw [UInt32.toNat_ofNat']
    omega
  rw [UInt32.toNat_or, UInt32.toNat_shiftLeft, hamount, UInt8.toNat_toUInt32, hbits,
    Nat.shiftLeft_eq, Nat.mod_eq_of_lt hfits, Nat.or_comm, ← Nat.shiftLeft_eq,
    ← Nat.shiftLeft_add_eq_or_of_lt hresult, Nat.shiftLeft_eq, Nat.add_comm]

/-- The high bit says that the number goes on. -/
theorem and_high_eq_zero_iff (byte : UInt8) : byte &&& 0x80 = 0 ↔ byte.toNat < 128 := by
  have hlt := byte.toNat_lt
  have hbit : (byte &&& 0x80).toNat = (byte.toNat.testBit 7).toNat * 2 ^ 7 := by
    rw [UInt8.toNat_and]
    exact Nat.and_two_pow byte.toNat 7
  rw [← UInt8.toNat_inj, hbit, Nat.testBit_eq_decide_div_mod_eq, UInt8.toNat_zero]
  by_cases hhigh : byte.toNat / 2 ^ 7 % 2 = 1
  · rw [decide_eq_true hhigh, Bool.toNat_true]
    omega
  · rw [decide_eq_false hhigh, Bool.toNat_false]
    omega

variable {n : Nat}

theorem toNat_toUInt8 (h : n < 256) : n.toUInt8.toNat = n := by
  rw [Nat.toUInt8_eq, UInt8.toNat_ofNat']
  omega

variable {bytes rest : Bytes} {pos : Nat}

theorem leb128From_encode (n : Nat) (result : UInt32) (shift : Nat)
    (h : At bytes pos (leb128 n ++ rest)) (hresult : result.toNat < 2 ^ shift)
    (hshift : shift < 32) (hfits : result.toNat + n * 2 ^ shift < 2 ^ 32) :
    ∃ r : UInt32, leb128From bytes pos result shift = some (r, pos + (leb128 n).length) ∧
      r.toNat = result.toNat + n * 2 ^ shift := by
  induction n using Nat.strongRecOn generalizing pos shift result with
  | ind n ih =>
    by_cases hlast : n < 128
    · have hcode : leb128 n = [n.toUInt8] := by rw [leb128, if_pos hlast]
      have hbyte : n.toUInt8.toNat = n := toNat_toUInt8 (by omega)
      have hbits : n.toUInt8.toNat % 128 = n := by omega
      have hsum := toNat_or_shiftLeft n.toUInt8 hresult hshift (by rw [hbits]; omega)
      rw [hbits] at hsum
      rw [hcode] at h ⊢
      refine ⟨_, ?_, hsum⟩
      rw [leb128From, At.read h]
      exact if_pos ((and_high_eq_zero_iff _).mpr (by omega))
    · have hcode : leb128 n = (n % 128 + 128).toUInt8 :: leb128 (n / 128) := by
        rw [leb128, if_neg hlast]
      have hbyte : (n % 128 + 128).toUInt8.toNat = n % 128 + 128 := toNat_toUInt8 (by omega)
      have hbits : (n % 128 + 128).toUInt8.toNat % 128 = n % 128 := by omega
      -- the seven bits of this byte, and the others above them
      have hsplit : n * 2 ^ shift = n % 128 * 2 ^ shift + n / 128 * 2 ^ (shift + 7) := by
        rw [Nat.pow_add, ← Nat.mul_assoc, Nat.mul_right_comm, ← Nat.add_mul]
        congr 1
        omega
      have hmask : n % 128 * 2 ^ shift ≤ 127 * 2 ^ shift := Nat.mul_le_mul_right _ (by omega)
      have hpow : 2 ^ (shift + 7) = 128 * 2 ^ shift := by rw [Nat.pow_add, Nat.mul_comm]
      have hsum := toNat_or_shiftLeft (n % 128 + 128).toUInt8 hresult hshift
        (by rw [hbits]; omega)
      rw [hbits] at hsum
      have hroom : shift + 7 < 32 := by
        have hone : 1 * 2 ^ (shift + 7) ≤ n / 128 * 2 ^ (shift + 7) :=
          Nat.mul_le_mul_right _ (by omega)
        exact (Nat.pow_lt_pow_iff_right (by decide)).mp
          (by omega : 2 ^ (shift + 7) < 2 ^ 32)
      rw [hcode] at h ⊢
      obtain ⟨r, hread, hr⟩ := ih (n / 128) (by omega)
        (result ||| (((n % 128 + 128).toUInt8 &&& 0x7F).toUInt32 <<< UInt32.ofNat shift))
        (shift + 7) (At.next h) (by omega) hroom (by omega)
      refine ⟨r, ?_, by omega⟩
      rw [leb128From, At.read h]
      dsimp only
      rw [if_neg (fun hstop => ?_), if_neg (Nat.not_le.mpr hroom), hread]
      · congr 2
        rw [List.length_cons]
        omega
      · have hlow := (and_high_eq_zero_iff _).mp hstop
        omega

/-- A number of the format is read for what it is. -/
theorem readUnsignedLeb128_encode (h : At bytes pos (leb128 n ++ rest)) (hfits : n < 2 ^ 32) :
    ∃ r : UInt32, readUnsignedLeb128 bytes pos = some (r, pos + (leb128 n).length) ∧
      r.toNat = n := by
  obtain ⟨r, hread, hr⟩ := leb128From_encode n 0 0 h (by decide) (by decide)
    (by rw [UInt32.toNat_zero]; omega)
  refine ⟨r, hread, ?_⟩
  rw [hr, UInt32.toNat_zero]
  omega

theorem readOr_encode (h : At bytes pos (leb128 n ++ rest)) (hfits : n < 2 ^ 32) (what : String) :
    ∃ r : UInt32, readOr bytes pos what = .ok (r, pos + (leb128 n).length) ∧ r.toNat = n := by
  obtain ⟨r, hread, hr⟩ := readUnsignedLeb128_encode h hfits
  refine ⟨r, ?_, hr⟩
  rw [readOr, hread]

/-! ## Imports -/

theorem readName_encode {name : Name} (h : At bytes pos (name.encode ++ rest)) :
    readName bytes pos = some (name.text, pos + name.encode.length) := by
  rw [Name.encode, List.append_assoc] at h
  obtain ⟨r, hread, hr⟩ := readUnsignedLeb128_encode h name.fits
  have htext := At.skip h
  have hsize : name.text.toByteArray.data.toList.length = name.text.utf8ByteSize := rfl
  have hend : ¬ pos + (leb128 name.text.utf8ByteSize).length + r.toNat > bytes.length := by
    have hlength := htext.length
    rw [List.length_append, hsize] at hlength
    omega
  have hslice : (bytes.drop (pos + (leb128 name.text.utf8ByteSize).length)).take r.toNat =
      name.text.toByteArray.data.toList := by
    rw [htext.drop, hr, ← hsize, List.take_left]
  rw [readName, hread]
  simp only [bind, Option.bind, pure, if_neg hend, hslice]
  have hvalid : String.fromUTF8? ⟨name.text.toByteArray.data.toList.toArray⟩ = some name.text :=
    dif_pos name.text.isValidUTF8
  rw [hvalid, Name.encode, List.length_append, hsize, hr, Nat.add_assoc]

theorem readNameOr_encode {name : Name} (h : At bytes pos (name.encode ++ rest)) (what : String) :
    readNameOr bytes pos what = .ok (name.text, pos + name.encode.length) := by
  rw [readNameOr, readName_encode h]

theorem add_length_cons (pos : Nat) (byte : UInt8) (rest : Bytes) :
    pos + (byte :: rest).length = pos + 1 + rest.length := by
  rw [List.length_cons]
  omega

theorem skipLimits_encode {limits : Limits} (h : At bytes pos (limits.encode ++ rest)) :
    skipLimits bytes pos = .ok (pos + limits.encode.length) := by
  cases hmax : limits.max? with
  | none =>
    have hcode : limits.encode = 0x00 :: leb128 limits.min.toNat := by rw [Limits.encode, hmax]
    rw [hcode, List.cons_append] at h
    obtain ⟨_, hmin, -⟩ := readOr_encode (At.next h) limits.min.toNat_lt "limits min"
    rw [skipLimits, At.read h, hcode, add_length_cons]
    dsimp only
    rw [hmin]
    rfl
  | some max =>
    have hcode : limits.encode = 0x01 :: (leb128 limits.min.toNat ++ leb128 max.toNat) := by
      rw [Limits.encode, hmax]
    rw [hcode, List.cons_append, List.append_assoc] at h
    obtain ⟨_, hmin, -⟩ := readOr_encode (At.next h) limits.min.toNat_lt "limits min"
    obtain ⟨_, hread, -⟩ := readOr_encode (At.skip (At.next h)) max.toNat_lt "limits max"
    rw [skipLimits, At.read h, hcode, add_length_cons, List.length_append, ← Nat.add_assoc]
    dsimp only
    rw [hmin]
    -- the flag is set: there is a maximum to skip
    dsimp only [Bind.bind, Except.bind]
    rw [if_pos (by decide), hread]
    rfl

theorem skipImportDesc_encode {desc : ImportDesc} {kind : UInt8} {tail : Bytes}
    (hdesc : desc.encode = kind :: tail) (h : At bytes pos (tail ++ rest)) :
    skipImportDesc bytes pos kind = .ok (pos + tail.length) := by
  cases desc with
  | func typeidx =>
    cases hdesc
    obtain ⟨_, hread, -⟩ := readOr_encode h typeidx.toNat_lt "import descriptor typeidx"
    rw [skipImportDesc, if_pos rfl, hread]
    rfl
  | table limits =>
    cases hdesc
    have hreftype : leb128 0x70 = [0x70] := by
      rw [leb128]
      rfl
    obtain ⟨_, hread, -⟩ := readOr_encode (n := 0x70) (by rw [hreftype]; exact h) (by decide)
      "import descriptor table reftype"
    rw [hreftype] at hread
    rw [skipImportDesc, if_neg (by decide), if_pos rfl, hread,
      add_length_cons pos 0x70 limits.encode]
    exact skipLimits_encode (At.next h)
  | memory limits =>
    cases hdesc
    exact skipLimits_encode h
  | global valtype mutable =>
    cases hdesc
    have hlength := h.length
    rw [List.length_append] at hlength
    have hroom : ¬ pos + 2 > bytes.length := by
      rw [← hlength]
      simp only [List.length_cons, List.length_nil]
      omega
    show (if pos + 2 > bytes.length then _ else Except.ok (pos + 2)) = _
    exact if_neg hroom

theorem readImports_encode (imports : List Import)
    (h : At bytes pos (imports.flatMap Import.encode ++ rest)) :
    readImports bytes imports.length pos = .ok (imports.map Import.full) := by
  induction imports generalizing pos with
  | nil => rfl
  | cons i imports ih =>
    rw [List.flatMap_cons, List.append_assoc] at h
    have hnext := At.skip h
    rw [Import.encode, List.append_assoc, List.append_assoc] at h
    have hmodule := readNameOr_encode h "module name"
    have hname := readNameOr_encode (At.skip h) "field name"
    have hdesc := At.skip (At.skip h)
    obtain ⟨kind, tail, hcode⟩ : ∃ kind tail, i.desc.encode = kind :: tail := by
      cases i.desc with
      | func => exact ⟨_, _, rfl⟩
      | table => exact ⟨_, _, rfl⟩
      | memory => exact ⟨_, _, rfl⟩
      | global => exact ⟨_, _, rfl⟩
    rw [hcode] at hdesc
    have hskip := skipImportDesc_encode hcode (At.next hdesc)
    have hlength : i.encode.length =
        i.module.encode.length + i.name.encode.length + (kind :: tail).length := by
      rw [Import.encode, List.length_append, List.length_append, hcode]
    have hrest := ih hnext
    rw [hlength, ← Nat.add_assoc, ← Nat.add_assoc, add_length_cons] at hrest
    rw [List.length_cons, readImports, hmodule]
    dsimp only [bind, Except.bind]
    rw [hname]
    dsimp only
    rw [At.read hdesc]
    dsimp only
    rw [hskip]
    dsimp only
    rw [hrest]
    rfl

/-! ## Sections -/

theorem count_le_length (imports : List Import) :
    imports.length ≤ (imports.flatMap Import.encode).length := by
  induction imports with
  | nil => exact Nat.le_refl 0
  | cons i imports ih =>
    have hpos : 1 ≤ i.encode.length := by
      rw [Import.encode, List.length_append]
      have hdesc : 1 ≤ i.desc.encode.length := by
        cases i.desc <;> exact Nat.succ_le_succ (Nat.zero_le _)
      omega
    rw [List.flatMap_cons, List.length_append, List.length_cons]
    omega

theorem foundImports_of_section {content : Bytes} {sectionId : UInt8}
    (h : At bytes pos (sectionId :: (leb128 content.length ++ content) ++ rest))
    (hfits : content.length < 2 ^ 32) :
    foundImports bytes pos =
      if sectionId = 2 then do
        let (numImports, newPos) ←
          readOr bytes (pos + 1 + (leb128 content.length).length) "import count"
        readImports bytes numImports.toNat newPos
      else foundImports bytes
        (pos + (sectionId :: (leb128 content.length ++ content)).length) := by
  rw [List.cons_append, List.append_assoc] at h
  obtain ⟨r, hread, hr⟩ := readUnsignedLeb128_encode (At.next h) hfits
  have hread' := At.read h
  rw [foundImports, add_length_cons, List.length_append, ← Nat.add_assoc]
  split
  · next hnone => cases hnone.symm.trans hread'
  · next hsection =>
    cases hsection.symm.trans hread'
    split
    · next hnone => cases hnone.symm.trans hread
    · next hsome =>
      cases hsome.symm.trans hread
      rw [hr]

theorem foundImports_sections (sections : List RawSection)
    (h : At bytes pos (sections.flatMap RawSection.encode ++ rest)) :
    foundImports bytes pos =
      foundImports bytes (pos + (sections.flatMap RawSection.encode).length) := by
  induction sections generalizing pos with
  | nil => rfl
  | cons s sections ih =>
    rw [List.flatMap_cons, List.append_assoc] at h
    have hskip := foundImports_of_section h s.fits
    rw [if_neg s.other] at hskip
    rw [hskip, List.flatMap_cons, List.length_append, ← Nat.add_assoc]
    exact ih (At.skip h)

theorem foundImports_importSection {s : ImportSection} (h : At bytes pos (s.encode ++ rest)) :
    foundImports bytes pos = .ok (s.imports.map Import.full) := by
  have hfound := foundImports_of_section h s.fits
  rw [if_pos rfl] at hfound
  have hcount : s.imports.length < 2 ^ 32 := by
    have hfits := s.fits
    have hle := count_le_length s.imports
    rw [importContent, List.length_append] at hfits
    omega
  rw [ImportSection.encode, List.cons_append, List.append_assoc] at h
  have hcontent := At.skip (At.next h)
  rw [importContent, List.append_assoc] at hcontent
  obtain ⟨r, hread, hr⟩ := readOr_encode hcontent hcount "import count"
  have himports := readImports_encode s.imports (At.skip hcontent)
  rw [hfound, importContent, hread]
  show readImports bytes r.toNat _ = _
  rw [hr]
  exact himports

theorem foundImports_encode (m : WasmModule) :
    foundImports m.encode 8 = .ok (m.imports.map Import.full) := by
  have hat : At m.encode 8 _ := at_front [0x00, 0x61, 0x73, 0x6D, 0x01, 0x00, 0x00, 0x00] _
  rw [foundImports_sections m.before hat]
  have hnext := At.skip hat
  unfold WasmModule.imports
  cases hsection : m.importSection with
  | some s =>
    rw [hsection] at hnext
    exact foundImports_importSection hnext
  | none =>
    rw [hsection] at hnext
    have hafter : At m.encode (8 + (m.before.flatMap RawSection.encode).length)
        (m.after.flatMap RawSection.encode ++ []) := by
      rw [List.append_nil]
      exact hnext
    rw [foundImports_sections m.after hafter, foundImports]
    split
    · rfl
    · next hsome => cases hsome.symm.trans (At.read_nil (At.skip hafter))

/-! ## What the scan accepts -/

theorem prefix_append_cons_iff {α : Type} {p l r : List α} {x : α} (hx : x ∉ p) :
    p <+: l ++ x :: r ↔ p <+: l := by
  refine ⟨fun h => ?_, fun h => h.trans (List.prefix_append l _)⟩
  induction p generalizing l with
  | nil => exact List.nil_prefix
  | cons a p ih =>
    rw [List.mem_cons, not_or] at hx
    cases l with
    | nil =>
      rw [List.nil_append, List.cons_prefix_cons] at h
      exact absurd h.1.symm hx.1
    | cons b l =>
      rw [List.cons_append, List.cons_prefix_cons] at h
      rw [List.cons_prefix_cons]
      exact ⟨h.1, ih hx.2 h.2⟩

theorem host_prefix_full (i : Import) :
    "extism:host/".toList <+: i.full.toList ↔ "extism:host/".toList <+: i.module.text.toList := by
  have hfull : i.full.toList = i.module.text.toList ++ '.' :: i.name.text.toList := by
    rw [Import.full, String.toList_append, String.toList_append, List.append_assoc]
    rfl
  rw [hfull]
  exact prefix_append_cons_iff (by decide)

/-- Every file is scanned to an end within its bytes, and a module is accepted exactly when each of
its imports is one of the host or on the list. -/
theorem scan_exact :
    (∀ (bytes : Bytes) (allowed : List String),
      ∃ r, (Reads.scanWasmImports bytes allowed).run = some r) ∧
    ∀ (m : WasmModule) (allowed : List String),
      (Reads.scanWasmImports m.encode allowed).run = some (.ok ()) ↔
        ∀ i ∈ m.imports, "extism:host/".toList <+: i.module.text.toList ∨ i.full ∈ allowed := by
  refine ⟨fun bytes allowed => ⟨_, Reads.scan_total bytes allowed⟩, fun m allowed => ?_⟩
  have hlength : ¬ m.encode.length < 8 := by
    rw [WasmModule.encode, List.length_append]
    exact Nat.not_lt.mpr (Nat.le_add_right 8 _)
  have hscan := Reads.scan_total m.encode allowed
  rw [scanWasmImports, if_neg hlength, foundImports_encode] at hscan
  have hunknown (i : Import) : (!"extism:host/".toList.isPrefixOf i.full.toList &&
      !allowed.contains i.full) = false ↔
      "extism:host/".toList <+: i.module.text.toList ∨ i.full ∈ allowed := by
    rw [← host_prefix_full, ← List.isPrefixOf_iff_prefix, ← List.contains_iff_mem]
    cases "extism:host/".toList.isPrefixOf i.full.toList <;> cases allowed.contains i.full <;> simp
  rw [hscan, Option.some.injEq]
  dsimp only [Bind.bind, Except.bind]
  cases hfind : (m.imports.map Import.full).find? _ with
  | none =>
    have hall := List.find?_eq_none.mp hfind
    refine ⟨fun _ i hi => (hunknown i).mp ?_, fun _ => rfl⟩
    exact Bool.eq_false_iff.mpr (hall _ (List.mem_map_of_mem hi))
  | some full =>
    refine ⟨fun h => (by cases h), fun h => ?_⟩
    obtain ⟨i, hi, rfl⟩ := List.mem_map.mp (List.mem_of_find?_eq_some hfind)
    have hbad := List.find?_some hfind
    rw [(hunknown i).mpr (h i hi)] at hbad
    cases hbad

end HiveClaw.Plugins
