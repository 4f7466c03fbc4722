import HiveClaw.Sessions.Manager

/-!
# Loading a damaged file

`load` of `crates/session/src/manager.rs` on the file of a saved session some of whose
message lines were replaced by other bytes. `read_strict` gives up at the first line that is
not JSON; `repair` skips such lines, but stops for good at a line that is not UTF-8, and
returns nothing if it has read neither messages nor metadata.
-/

namespace HiveClaw.Sessions

/-! ## Damaged files -/

/-- The bytes of a line, without the newline. -/
structure ByteLine where
  bytes : List UInt8
  oneLine : 10 ∉ bytes

namespace ByteLine

def utf8 (l : ByteLine) : Option String := String.fromUTF8? ⟨l.bytes.toArray⟩

/-- `BufRead::lines` drops one carriage return at the end. -/
def stripCr (line : String) : String :=
  if line.toList.getLast? = some '\r' then String.ofList line.toList.dropLast else line

/-- What `BufRead::lines` gives of the line. -/
def text (l : ByteLine) : Option String := l.utf8.map stripCr

def NotJson (codec : Codec) (l : ByteLine) : Prop :=
  ∀ text, l.utf8 = some text → codec.fromJson text = none

/-- The line is not JSON even after it was trimmed, as both readers do. -/
def NotJsonTrimmed (codec : Codec) (l : ByteLine) : Prop :=
  ∀ text, l.text = some text → codec.fromJson (RustStr.trim text) = none

/-- The line is text that has only white space. -/
def Blank (l : ByteLine) : Prop := ∃ text, l.text = some text ∧ RustStr.trim text = ""

end ByteLine

/-- The line of a message, and what stands there now if it was replaced. -/
structure MessageLine where
  message : Json
  replacement : Option ByteLine := none

namespace MessageLine

def line (codec : Codec) (e : MessageLine) : Option String :=
  match e.replacement with
  | none => some (codec.toJson e.message)
  | some l => l.text

/-- The message, if the line was not touched. -/
def kept (e : MessageLine) : Option Json :=
  match e.replacement with
  | none => some e.message
  | some _ => none

end MessageLine

/-- The messages of the untouched lines. -/
def untouched (lines : List MessageLine) : List Json := lines.filterMap MessageLine.kept

/-- The first line of the file of a session. -/
def metadataLine (codec : Codec) (s : Session Json) : Json :=
  .obj [("_type", .str "metadata"), ("key", .str s.key),
    ("created_at", .str (codec.toRfc3339 s.createdAt)),
    ("updated_at", .str (codec.toRfc3339 s.updatedAt)),
    ("metadata", .obj (s.metadata.entries.map fun e => (e.1, e.2))),
    ("last_consolidated", .num (.int s.lastConsolidated))]

/-- The lines of the damaged file. -/
def damagedLines (codec : Codec) (s : Session Json) (lines : List MessageLine) : FileText :=
  some (codec.toJson (metadataLine codec s)) :: lines.map (MessageLine.line codec)

/-- What is assumed of `serde_json`: it reads back what it printed, and prints no white space
around a value. -/
structure Codec.RoundTrips (codec : Codec) (written : List Json) : Prop where
  fromJson_toJson : ∀ v ∈ written, codec.fromJson (codec.toJson v) = some v
  trim_toJson : ∀ v ∈ written, RustStr.trim (codec.toJson v) = codec.toJson v
  fromJson_empty : codec.fromJson "" = none

variable {codec : Codec} {v : Json}

theorem Codec.RoundTrips.tail {written : List Json} (h : codec.RoundTrips (v :: written)) :
    codec.RoundTrips written where
  fromJson_toJson w hw := h.fromJson_toJson w (List.mem_cons_of_mem _ hw)
  trim_toJson w hw := h.trim_toJson w (List.mem_cons_of_mem _ hw)
  fromJson_empty := h.fromJson_empty

theorem Codec.RoundTrips.toJson_ne {written : List Json} (h : codec.RoundTrips written)
    (hv : v ∈ written) : codec.toJson v ≠ "" := by
  intro hempty
  have hread := h.fromJson_toJson v hv
  rw [hempty, h.fromJson_empty] at hread
  cases hread

/-! ## The two readers on a damaged file -/

section Readers

open SessionManager

variable {codec : Codec} {s : Session Json} {lines : List MessageLine}

/-- What the readers know after the first line. -/
def afterMetadata (codec : Codec) (s : Session Json) : Reading :=
  Reading.add codec {} (metadataLine codec s)

@[simp] theorem messages_afterMetadata : (afterMetadata codec s).messages = [] := rfl

theorem lookup_metadata_afterMetadata (k : String) :
    (afterMetadata codec s).metadata.lookup k = s.metadata.lookup k := by
  show (HashMap.collect (s.metadata.entries.map fun e => (e.1, e.2))).lookup k = _
  have hnodup : ((s.metadata.entries.map fun e => (e.1, e.2)).map (·.1)).Nodup := by
    rw [List.map_map]
    exact s.metadata.nodupKeys
  refine Option.ext fun x => ?_
  have hentry : (k, x) ∈ s.metadata.entries.map (fun e => (e.1, e.2)) ↔
      (⟨k, x⟩ : Sigma fun _ : String => Json) ∈ s.metadata.entries := by
    rw [List.mem_map]
    constructor
    · rintro ⟨e, he, heq⟩
      obtain ⟨rfl, rfl⟩ := Prod.mk.inj heq
      exact he
    · intro he
      exact ⟨_, he, rfl⟩
  rw [HashMap.lookup_collect hnodup k x, hentry]
  exact AList.mem_lookup_iff.symm

theorem lastConsolidated_afterMetadata (hsize : s.lastConsolidated < 2 ^ 64) :
    (afterMetadata codec s).lastConsolidated = s.lastConsolidated := by
  have hbound : (s.lastConsolidated : Int) < 2 ^ 64 := by exact_mod_cast hsize
  have hread : Json.asU64 (.num (.int s.lastConsolidated)) = some s.lastConsolidated := by
    rw [Json.asU64, if_pos ⟨Int.natCast_nonneg _, hbound⟩, Int.toNat_natCast]
  have hfield : (metadataLine codec s).get "last_consolidated" =
      some (.num (.int s.lastConsolidated)) := rfl
  have htype : (metadataLine codec s).getStr "_type" = some "metadata" := rfl
  rw [afterMetadata, Reading.add, if_pos htype]
  dsimp only
  rw [hfield, Option.bind_some, hread, Option.getD_some]

theorem isEmpty_metadata_afterMetadata :
    (afterMetadata codec s).metadata.entries.isEmpty = s.metadata.entries.isEmpty := by
  have hkeys : ∀ m : HashMap String Json, m.entries.isEmpty = true ↔ ∀ k, m.lookup k = none := by
    intro m
    rw [List.isEmpty_iff]
    constructor
    · intro hnil k
      rw [AList.lookup_eq_none, AList.mem_keys]
      simp [AList.keys, List.keys, hnil]
    · intro hnone
      refine List.eq_nil_iff_forall_not_mem.mpr fun e he => ?_
      have hlookup : m.lookup e.1 = some e.2 := AList.mem_lookup_iff.mpr he
      rw [hnone e.1] at hlookup
      cases hlookup
  rw [Bool.eq_iff_iff, hkeys, hkeys]
  simp only [lookup_metadata_afterMetadata]

/-- No replaced line is JSON after trimming. -/
def NoneAccepted (codec : Codec) (lines : List MessageLine) : Prop :=
  ∀ e ∈ lines, ∀ l, e.replacement = some l → l.NotJsonTrimmed codec

/-- A message is added to those that were read. -/
def push (r : Reading) (messages : List Json) : Reading :=
  { r with messages := r.messages ++ messages }

theorem add_message (r : Reading) {data : Json} (h : data.getStr "_type" ≠ some "metadata") :
    r.add codec data = push r [data] := by
  rw [Reading.add, if_neg h, push]

theorem push_push (r : Reading) (xs ys : List Json) : push (push r xs) ys = push r (xs ++ ys) := by
  simp [push]

/-- The lines that `repair` looks at: those before the first that is not UTF-8. -/
def reached (codec : Codec) (lines : List MessageLine) : List MessageLine :=
  lines.takeWhile fun e => (e.line codec).isSome

theorem NoneAccepted.of_reached {e : MessageLine}
    (h : NoneAccepted codec (reached codec (e :: lines))) (he : (e.line codec).isSome = true) :
    (∀ l, e.replacement = some l → l.NotJsonTrimmed codec) ∧
      NoneAccepted codec (reached codec lines) := by
  have hcons : reached codec (e :: lines) = e :: reached codec lines :=
    List.takeWhile_cons_of_pos he
  rw [hcons] at h
  exact List.forall_mem_cons.mp h

theorem repairLines_damaged (hprinted : codec.RoundTrips (lines.map MessageLine.message))
    (hmessages : ∀ e ∈ lines, e.message.getStr "_type" ≠ some "metadata")
    (haccepted : NoneAccepted codec (reached codec lines)) (r : Reading) :
    repairLines codec r (lines.map (MessageLine.line codec)) =
      push r (untouched (reached codec lines)) := by
  induction lines generalizing r with
  | nil => simp [repairLines, reached, untouched, push]
  | cons e rest ih =>
    have ih := ih hprinted.tail fun e' he' => hmessages e' (List.mem_cons_of_mem _ he')
    have hhead : e.message ∈ (e :: rest).map MessageLine.message := List.mem_cons_self
    obtain ⟨message, replacement⟩ := e
    cases replacement with
    | none =>
      simp only [List.map_cons, MessageLine.line, repairLines, reached, List.takeWhile_cons,
        Option.isSome_some, if_true, untouched, List.filterMap_cons, MessageLine.kept]
      rw [hprinted.trim_toJson _ hhead, if_neg (hprinted.toJson_ne hhead),
        hprinted.fromJson_toJson _ hhead]
      dsimp only
      rw [add_message r (hmessages _ List.mem_cons_self), ih (haccepted.of_reached rfl).2,
        push_push]
      rfl
    | some l =>
      cases htext : l.text with
      | none =>
        simp [MessageLine.line, htext, repairLines, reached, untouched, push]
      | some text =>
        have hline : (MessageLine.line codec ⟨message, some l⟩).isSome = true :=
          Option.isSome_iff_exists.mpr ⟨text, htext⟩
        obtain ⟨hl, hrest⟩ := haccepted.of_reached hline
        have hnot : codec.fromJson (RustStr.trim text) = none := hl l rfl text htext
        simp only [List.map_cons, MessageLine.line, htext, repairLines, reached,
          List.takeWhile_cons, Option.isSome_some, if_true, untouched, List.filterMap_cons,
          MessageLine.kept]
        -- a blank line and a line that is not JSON are skipped alike
        split
        · exact ih hrest r
        · rw [hnot]
          exact ih hrest r

def AllBlank (lines : List MessageLine) : Prop :=
  ∀ e ∈ lines, ∀ l, e.replacement = some l → l.Blank

theorem readLines_damaged (hprinted : codec.RoundTrips (lines.map MessageLine.message))
    (hmessages : ∀ e ∈ lines, e.message.getStr "_type" ≠ some "metadata")
    (haccepted : NoneAccepted codec (reached codec lines)) (r r' : Reading) :
    readLines codec r (lines.map (MessageLine.line codec)) = some r' ↔
      AllBlank lines ∧ r' = push r (untouched lines) := by
  induction lines generalizing r with
  | nil => simp [readLines, AllBlank, untouched, push, eq_comm]
  | cons e rest ih =>
    have ih := ih hprinted.tail fun e' he' => hmessages e' (List.mem_cons_of_mem _ he')
    have hhead : e.message ∈ (e :: rest).map MessageLine.message := List.mem_cons_self
    have hall : AllBlank (e :: rest) ↔ (∀ l, e.replacement = some l → l.Blank) ∧ AllBlank rest :=
      List.forall_mem_cons
    obtain ⟨message, replacement⟩ := e
    cases replacement with
    -- a line as it was written
    | none =>
      have hblank : AllBlank (⟨message, none⟩ :: rest) ↔ AllBlank rest := by
        rw [hall]
        exact and_iff_right nofun
      simp only [List.map_cons, MessageLine.line, readLines]
      rw [hprinted.trim_toJson _ hhead, if_neg (hprinted.toJson_ne hhead),
        hprinted.fromJson_toJson _ hhead]
      dsimp only
      rw [add_message r (hmessages _ List.mem_cons_self), ih (haccepted.of_reached rfl).2,
        push_push, hblank]
      rfl
    -- a line that was replaced
    | some l =>
      have hblank : AllBlank (⟨message, some l⟩ :: rest) ↔ l.Blank ∧ AllBlank rest := by
        rw [hall]
        exact and_congr_left fun _ => ⟨fun h => h l rfl, fun h l' hl' => Option.some.inj hl' ▸ h⟩
      have huntouched : untouched (⟨message, some l⟩ :: rest) = untouched rest := rfl
      rw [hblank, huntouched, List.map_cons]
      simp only [MessageLine.line]
      cases htext : l.text with
      | none =>
        have hnot : ¬ l.Blank := by
          rintro ⟨text, hsome, -⟩
          rw [htext] at hsome
          cases hsome
        simp [readLines, hnot]
      | some text =>
        have hline : (MessageLine.line codec ⟨message, some l⟩).isSome = true :=
          Option.isSome_iff_exists.mpr ⟨text, htext⟩
        obtain ⟨haccepted', hrest⟩ := haccepted.of_reached hline
        have hnot : codec.fromJson (RustStr.trim text) = none := haccepted' l rfl text htext
        simp only [readLines]
        split
        case isTrue hempty =>
          have hl : l.Blank := ⟨text, htext, hempty⟩
          rw [ih hrest, and_iff_right hl]
        case isFalse hnonempty =>
          have hl : ¬ l.Blank := by
            rintro ⟨text', htext', hempty⟩
            rw [htext, Option.some.injEq] at htext'
            exact hnonempty (htext' ▸ hempty)
          rw [hnot]
          simp [hl]

/-! ## What a load returns -/

/-- A line that is not UTF-8 has only replaced lines after it. -/
def NothingCutOff (codec : Codec) (lines : List MessageLine) : Prop :=
  lines.Pairwise fun e e' => e.line codec = none → e'.replacement.isSome = true

/-- Something is left to return: a message, metadata, or no line but blank ones was put in. -/
def SomethingLeft (s : Session Json) (lines : List MessageLine) : Prop :=
  untouched lines ≠ [] ∨ s.metadata.entries ≠ [] ∨ AllBlank lines

/-- The load returns the untouched messages in order, with the metadata of the session. -/
def Recovered (codec : Codec) (io : Io) (m : SessionManager) (s : Session Json)
    (lines : List MessageLine) : Prop :=
  ∃ loaded, (m.load codec io s.key).1 = some loaded ∧ loaded.messages = untouched lines ∧
    (∀ k, loaded.metadata.lookup k = s.metadata.lookup k) ∧
    loaded.lastConsolidated = s.lastConsolidated

theorem untouched_eq_nil_iff :
    untouched lines = [] ↔ ∀ e ∈ lines, e.replacement.isSome = true := by
  rw [untouched, List.filterMap_eq_nil_iff]
  refine forall₂_congr fun e _ => ?_
  unfold MessageLine.kept
  cases e.replacement <;> simp

/-- `repair` reaches all untouched messages exactly if none stands after a line that is not
UTF-8. -/
theorem untouched_reached_iff :
    untouched (reached codec lines) = untouched lines ↔ NothingCutOff codec lines := by
  induction lines with
  | nil => simp [reached, NothingCutOff]
  | cons e rest ih =>
    unfold NothingCutOff
    rw [List.pairwise_cons]
    cases hline : e.line codec with
    | none =>
      have hreplaced : e.kept = none := by
        unfold MessageLine.kept
        unfold MessageLine.line at hline
        split at hline
        · cases hline
        · rfl
      have hreached : reached codec (e :: rest) = [] := by simp [reached, hline]
      have hskip : untouched (e :: rest) = untouched rest := by
        simp [untouched, hreplaced]
      rw [hreached, hskip]
      constructor
      · intro h
        have hall := untouched_eq_nil_iff.mp h.symm
        exact ⟨fun e' he' _ => hall e' he',
          List.Pairwise.imp_mem.mpr (List.pairwise_of_forall_mem_list
            fun e₁ _ e₂ he₂ _ _ _ => hall e₂ he₂)⟩
      · rintro ⟨hafter, -⟩
        exact (untouched_eq_nil_iff.mpr fun e' he' => hafter e' he' rfl).symm
    | some text =>
      have hreached : reached codec (e :: rest) = e :: reached codec rest := by
        simp [reached, hline]
      have hvacuous : ∀ e' ∈ rest, (some text = none → e'.replacement.isSome = true) :=
        fun _ _ h => by cases h
      rw [hreached, and_iff_right hvacuous]
      unfold untouched at ih ⊢
      rw [List.filterMap_cons, List.filterMap_cons]
      cases e.kept with
      | none => exact ih
      | some message =>
        dsimp only
        rw [List.cons.injEq, and_iff_right rfl]
        exact ih

variable {io : Io}

theorem readers_damagedLines
    (hprinted : codec.RoundTrips (metadataLine codec s :: lines.map MessageLine.message)) :
    readLines codec {} (damagedLines codec s lines) =
        readLines codec (afterMetadata codec s) (lines.map (MessageLine.line codec)) ∧
      repairLines codec {} (damagedLines codec s lines) =
        repairLines codec (afterMetadata codec s) (lines.map (MessageLine.line codec)) := by
  have hhead : metadataLine codec s ∈ metadataLine codec s :: lines.map MessageLine.message :=
    List.mem_cons_self
  unfold damagedLines
  simp only [readLines, repairLines]
  rw [hprinted.trim_toJson _ hhead, if_neg (hprinted.toJson_ne hhead),
    if_neg (hprinted.toJson_ne hhead), hprinted.fromJson_toJson _ hhead]
  exact ⟨rfl, rfl⟩

theorem session_push (r : Reading) (messages : List Json) (key : String) (now : DateTime) :
    ((push r messages).session key now).messages = r.messages ++ messages ∧
      ((push r messages).session key now).metadata = r.metadata ∧
      ((push r messages).session key now).lastConsolidated = r.lastConsolidated :=
  ⟨rfl, rfl, rfl⟩

theorem repair_damagedLines
    (hprinted : codec.RoundTrips (metadataLine codec s :: lines.map MessageLine.message))
    (hmessages : ∀ e ∈ lines, e.message.getStr "_type" ≠ some "metadata")
    (haccepted : NoneAccepted codec (reached codec lines)) (hopens : io.opens = true) :
    repair codec io s.key (damagedLines codec s lines) =
      if untouched (reached codec lines) = [] ∧ s.metadata.entries = [] then none
      else some ((push (afterMetadata codec s) (untouched (reached codec lines))).session
        s.key io.now) := by
  unfold repair
  rw [if_pos hopens, (readers_damagedLines hprinted).2,
    repairLines_damaged hprinted.tail hmessages haccepted]
  have hmetadata : (push (afterMetadata codec s) (untouched (reached codec lines))).metadata =
      (afterMetadata codec s).metadata := rfl
  have hread : (push (afterMetadata codec s) (untouched (reached codec lines))).messages =
      untouched (reached codec lines) := rfl
  simp only [hmetadata, hread, isEmpty_metadata_afterMetadata, Bool.and_eq_true,
    List.isEmpty_iff]

variable {m : SessionManager}

theorem load_of_file {text : FileText} (hfile : m.files.lookup (m.sessionPath s.key) = some text) :
    (m.load codec io s.key).1 = readSession codec io s.key text := by
  rw [load_eq, hfile]

theorem recovered_iff {messages : List Json} (hsize : s.lastConsolidated < 2 ^ 64)
    (hload : (m.load codec io s.key).1 =
      some ((push (afterMetadata codec s) messages).session s.key io.now)) :
    Recovered codec io m s lines ↔ messages = untouched lines := by
  obtain ⟨hread, hmetadata, hlast⟩ :=
    session_push (afterMetadata codec s) messages s.key io.now
  rw [messages_afterMetadata, List.nil_append] at hread
  unfold Recovered
  rw [hload]
  constructor
  · rintro ⟨loaded, hloaded, heq, -⟩
    rw [← heq, ← Option.some.inj hloaded, hread]
  · intro heq
    refine ⟨_, rfl, by rw [hread, heq], fun k => ?_, ?_⟩
    · rw [hmetadata, lookup_metadata_afterMetadata]
    · rw [hlast, lastConsolidated_afterMetadata hsize]

/-- Where no replaced line that is reached is read as JSON, a damaged file is recovered exactly if no untouched
line stands after one that is not UTF-8 and something is left to return. -/
theorem recovered_iff_of_noneAccepted
    (hprinted : codec.RoundTrips (metadataLine codec s :: lines.map MessageLine.message))
    (hmessages : ∀ e ∈ lines, e.message.getStr "_type" ≠ some "metadata")
    (hsize : s.lastConsolidated < 2 ^ 64) (haccepted : NoneAccepted codec (reached codec lines))
    (hopens : io.opens = true)
    (hfile : m.files.lookup (m.sessionPath s.key) = some (damagedLines codec s lines)) :
    Recovered codec io m s lines ↔ NothingCutOff codec lines ∧ SomethingLeft s lines := by
  have hload : (m.load codec io s.key).1 = readSession codec io s.key (damagedLines codec s lines) :=
    load_of_file hfile
  unfold readSession at hload
  rw [if_pos hopens, (readers_damagedLines hprinted).1] at hload
  cases hstrict : readLines codec (afterMetadata codec s) (lines.map (MessageLine.line codec)) with
  | some r =>
    -- the strict reader came through: every replaced line is blank
    obtain ⟨hblank, rfl⟩ :=
      (readLines_damaged hprinted.tail hmessages haccepted _ _).mp hstrict
    rw [hstrict] at hload
    have hall : ∀ e ∈ lines, e.line codec ≠ none := by
      intro e he hnone
      unfold MessageLine.line at hnone
      split at hnone
      · cases hnone
      · next l hl =>
        obtain ⟨text, htext, -⟩ := hblank e he l hl
        rw [htext] at hnone
        cases hnone
    have hcut : NothingCutOff codec lines :=
      List.Pairwise.imp_mem.mpr (List.pairwise_of_forall_mem_list
        fun e he _ _ _ _ hnone => absurd hnone (hall e he))
    rw [recovered_iff hsize hload]
    exact iff_of_true rfl ⟨hcut, .inr (.inr hblank)⟩
  | none =>
    have hblank : ¬ AllBlank lines := fun hblank => by
      rw [(readLines_damaged hprinted.tail hmessages haccepted _ _).mpr ⟨hblank, rfl⟩] at hstrict
      cases hstrict
    have hleft : SomethingLeft s lines ↔ ¬ (untouched lines = [] ∧ s.metadata.entries = []) := by
      unfold SomethingLeft
      rw [or_iff_left hblank, not_and_or]
    rw [hstrict] at hload
    dsimp only at hload
    rw [repair_damagedLines hprinted hmessages haccepted hopens] at hload
    rw [hleft]
    split at hload
    case isTrue hnone =>
      have hlost : ¬ Recovered codec io m s lines := by
        rintro ⟨loaded, hloaded, -⟩
        rw [hload] at hloaded
        cases hloaded
      refine iff_of_false hlost fun ⟨hcut, hleft⟩ => hleft ⟨?_, hnone.2⟩
      rw [← untouched_reached_iff.mpr hcut]
      exact hnone.1
    case isFalse hsome =>
      rw [recovered_iff hsize hload, untouched_reached_iff]
      refine (and_iff_left_of_imp fun hcut hnone => hsome ⟨?_, hnone.2⟩).symm
      rw [untouched_reached_iff.mpr hcut]
      exact hnone.1

/-- A damaged file is recovered if no replaced line before the first that is not UTF-8 turns into
JSON by trimming, no untouched line stands after one that is not UTF-8, and something is left to
return. Where the first holds, the other two are needed. -/
theorem recovered_of_readable (codec : Codec) (io : Io) (m : SessionManager) (s : Session Json)
    (lines : List MessageLine) (hlines : lines.map MessageLine.message = s.messages)
    (hprinted : codec.RoundTrips (metadataLine codec s :: s.messages))
    (hmessages : ∀ message ∈ s.messages, message.getStr "_type" ≠ some "metadata")
    (hsize : s.lastConsolidated < 2 ^ 64) (hopens : io.opens = true)
    (hfile : m.files.lookup (m.sessionPath s.key) = some (damagedLines codec s lines)) :
    (NoneAccepted codec (reached codec lines) ∧ NothingCutOff codec lines ∧ SomethingLeft s lines →
      Recovered codec io m s lines) ∧
    (NoneAccepted codec (reached codec lines) → Recovered codec io m s lines →
      NothingCutOff codec lines ∧ SomethingLeft s lines) := by
  rw [← hlines] at hprinted hmessages
  have hmessages' : ∀ e ∈ lines, e.message.getStr "_type" ≠ some "metadata" :=
    fun e he => hmessages _ (List.mem_map_of_mem he)
  constructor
  · rintro ⟨haccepted, hcut, hleft⟩
    exact (recovered_iff_of_noneAccepted hprinted hmessages' hsize haccepted hopens hfile).mpr
      ⟨hcut, hleft⟩
  · intro haccepted
    exact (recovered_iff_of_noneAccepted hprinted hmessages' hsize haccepted hopens hfile).mp

end Readers

/-! ## A damaged file of three messages -/

def userSays (content : String) : Json :=
  .obj [("role", .str "user"), ("content", .str content)]

def userLine (content : String) : String :=
  "\x7b\"role\":\"user\",\"content\":\"" ++ content ++ "\"\x7d"

def threeMessages : Session Json :=
  { key := "cli:a", messages := [userSays "one", userSays "two", userSays "three"]
    createdAt := 0, updatedAt := 0, lastConsolidated := 1 }

def threeMetadata : String :=
  "\x7b\"_type\":\"metadata\",\"key\":\"cli:a\",\"created_at\":\"1970-01-01T00:00:00+00:00\"," ++
    "\"updated_at\":\"1970-01-01T00:00:00+00:00\",\"metadata\":\x7b\x7d,\"last_consolidated\":1\x7d"

/-- A reader and writer of the lines of that file. -/
def threeCodec : Codec where
  toJson v :=
    if v = userSays "one" then userLine "one" else if v = userSays "two" then userLine "two"
    else if v = userSays "three" then userLine "three" else threeMetadata
  fromJson line :=
    if line = userLine "one" then some (userSays "one")
    else if line = userLine "two" then some (userSays "two")
    else if line = userLine "three" then some (userSays "three")
    else if line = threeMetadata then some
      (.obj [("_type", .str "metadata"), ("key", .str "cli:a"),
        ("created_at", .str "1970-01-01T00:00:00+00:00"),
        ("updated_at", .str "1970-01-01T00:00:00+00:00"), ("metadata", .obj []),
        ("last_consolidated", .num (.int 1))])
    else none
  toRfc3339 _ := "1970-01-01T00:00:00+00:00"
  parseIsoformat _ := some 0

/-- The file with its second message replaced. -/
def threeLines (l : ByteLine) : List MessageLine :=
  [⟨userSays "one", none⟩, ⟨userSays "two", some l⟩, ⟨userSays "three", none⟩]

def threeDisk (l : ByteLine) : SessionManager :=
  { sessionsDir := "sessions", legacySessionsDir := "legacy"
    files := AList.insert ⟨"sessions", "cli_a.jsonl"⟩
      (damagedLines threeCodec threeMessages (threeLines l)) ∅ }

theorem lookup_threeDisk (l : ByteLine) :
    (threeDisk l).files.lookup ((threeDisk l).sessionPath threeMessages.key) =
      some (damagedLines threeCodec threeMessages (threeLines l)) := by
  have hname : SessionManager.fileName "cli:a" = "cli_a.jsonl" := by decide +kernel
  have hpath : (threeDisk l).sessionPath threeMessages.key = ⟨"sessions", "cli_a.jsonl"⟩ :=
    congrArg (Path.mk "sessions") hname
  rw [hpath]
  exact AList.lookup_insert _

theorem roundTrips_three :
    threeCodec.RoundTrips (metadataLine threeCodec threeMessages :: threeMessages.messages) where
  fromJson_toJson := by decide +kernel
  trim_toJson := by decide +kernel
  fromJson_empty := by decide +kernel

def tornLine : ByteLine := ⟨[123, 34], by decide⟩

/-- A byte that no UTF-8 text has. -/
def strayByte : ByteLine := ⟨[255], by decide⟩

/-- With half a line in the middle the other two messages are recovered. -/
theorem recovered_tornLine : Recovered threeCodec {} (threeDisk tornLine) threeMessages
    (threeLines tornLine) := by
  have htext : tornLine.text = some "\x7b\"" := by decide +kernel
  refine (recovered_of_readable threeCodec {} (threeDisk tornLine) threeMessages
    (threeLines tornLine) rfl roundTrips_three (by decide +kernel) (by decide) rfl
    (lookup_threeDisk tornLine)).1 ⟨?_, ?_, .inl (by decide)⟩
  · intro e he l hl text hread
    replace he : e ∈ threeLines tornLine := (List.takeWhile_prefix _).mem he
    have hl : l = tornLine := by
      simp only [threeLines, List.mem_cons, List.not_mem_nil, or_false] at he
      obtain rfl | rfl | rfl := he
      · cases hl
      · exact (Option.some.inj hl).symm
      · cases hl
    rw [hl, htext, Option.some.injEq] at hread
    rw [← hread]
    decide +kernel
  · unfold NothingCutOff
    have hnone : ∀ e ∈ threeLines tornLine, e.line threeCodec ≠ none := by decide +kernel
    exact List.Pairwise.imp_mem.mpr (List.pairwise_of_forall_mem_list
      fun e he _ _ _ _ h => absurd h (hnone e he))

/-- A stray byte in the middle of the file: the third message is lost. -/
theorem strayByte_cuts_off :
    strayByte.NotJson threeCodec ∧
      untouched (threeLines strayByte) = [userSays "one", userSays "three"] ∧
      ((threeDisk strayByte).load threeCodec {} "cli:a").1.map Session.messages =
        some [userSays "one"] ∧
      ¬ Recovered threeCodec {} (threeDisk strayByte) threeMessages (threeLines strayByte) := by
  have hutf8 : strayByte.utf8 = none := by decide +kernel
  have hload : ((threeDisk strayByte).load threeCodec {} "cli:a").1.map Session.messages =
      some [userSays "one"] := by decide +kernel
  refine ⟨?_, rfl, hload, ?_⟩
  · intro text h
    rw [hutf8] at h
    cases h
  · rintro ⟨loaded, hloaded, hmessages, -⟩
    have hkey : threeMessages.key = "cli:a" := rfl
    rw [← hkey, hloaded, Option.map_some, hmessages] at hload
    exact absurd hload (by decide +kernel)

end HiveClaw.Sessions
