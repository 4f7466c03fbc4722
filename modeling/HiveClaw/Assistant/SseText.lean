import HiveClaw.Assistant.Chat
import HiveClaw.Lib.Utf8

/-!
# The text of a server-sent event

`crates/hiveweb/src/api/chat_assistant.rs` has to read the events that the
orchestrator sends, but the buffer of axum's `Event` is private. So the event
is printed for debugging, the literal of its buffer is cut out and its escapes
are undone, and the text is parsed by lines.

What axum and `bytes` contribute, the buffer of an event and the way it is
printed, is described in the first section.

* `parse_eventText` — an event is read as the name and the data it was built
  from.
-/

namespace HiveClaw.Assistant

open Lib

-- ---
-- Outside
-- ---

/-- `Event::default().event(name).data(data)`, for a name and data that are
one line each: the buffer it fills. -/
def eventBuffer (name data : String) : List UInt8 :=
  encodeUtf8 ("event: ".toList ++ name.toList ++ '\n' :: ("data: ".toList ++ data.toList ++ ['\n']))

-- a digit of `{:02x}`
def hexDigit (n : Nat) : Char := if n < 10 then Char.ofNat (48 + n) else Char.ofNat (87 + n)

/-- How `bytes` prints a byte of a buffer. -/
def debugByte (b : UInt8) : List Char :=
  if b = 10 then ['\\', 'n']
  else if b = 13 then ['\\', 'r']
  else if b = 9 then ['\\', 't']
  else if b = 92 then ['\\', '\\']
  else if b = 34 then ['\\', '"']
  else if b = 0 then ['\\', '0']
  else if 0x20 ≤ b && b < 0x7F then [Char.ofNat b.toNat]
  else ['\\', 'x', hexDigit (b.toNat / 16), hexDigit (b.toNat % 16)]

/-- `{:?}` of an event: its buffer, and after it the fields `tail`. -/
def debugEvent (buffer : List UInt8) (tail : List Char) : String :=
  String.ofList
    ("Event \x7b ".toList ++ "buffer: b\"".toList ++ buffer.flatMap debugByte ++ '"' :: tail)

-- ---
-- Model
-- ---

/-- `str::find`, with what follows the pattern. -/
def afterFirst (pattern : List Char) : List Char → Option (List Char)
  | [] => if pattern = [] then some [] else none
  | c :: rest =>
    if pattern.isPrefixOf (c :: rest) then some ((c :: rest).drop pattern.length)
    else afterFirst pattern rest

/-- `str::rfind` for a character, with what is in front of it. -/
def beforeLast (q : Char) : List Char → Option (List Char)
  | [] => none
  | c :: rest =>
    match beforeLast q rest with
    | some front => some (c :: front)
    | none => if c = q then some [] else none

-- `char::to_digit(16)`
def hexValue (c : Char) : Option Nat :=
  if '0' ≤ c ∧ c ≤ '9' then some (c.toNat - 48)
  else if 'a' ≤ c ∧ c ≤ 'f' then some (c.toNat - 87)
  else if 'A' ≤ c ∧ c ≤ 'F' then some (c.toNat - 55)
  else none

/-- `u8::from_str_radix(s, 16)` for a text of two characters; the first may be a sign. -/
def u8FromHex (h₁ h₂ : Char) : Option UInt8 :=
  match hexValue h₁, hexValue h₂ with
  | some high, some low => some (UInt8.ofNat (16 * high + low))
  | none, some low => if h₁ = '+' then some (UInt8.ofNat low) else none
  | _, none => none

/-- The bytes that `unescape_bytesmut_debug` collects. -/
def unescapeBytes : List Char → List UInt8
  | [] => []
  | ['\\'] => [92]
  | ['\\', 'x'] => (u8FromHex '0' '0').toList
  | ['\\', 'x', h₁] => (u8FromHex h₁ '0').toList
  | '\\' :: 'x' :: h₁ :: h₂ :: rest => (u8FromHex h₁ h₂).toList ++ unescapeBytes rest
  | '\\' :: 'n' :: rest => 10 :: unescapeBytes rest
  | '\\' :: 'r' :: rest => 13 :: unescapeBytes rest
  | '\\' :: 't' :: rest => 9 :: unescapeBytes rest
  | '\\' :: '\\' :: rest => 92 :: unescapeBytes rest
  | '\\' :: '"' :: rest => 34 :: unescapeBytes rest
  | '\\' :: '0' :: rest => 0 :: unescapeBytes rest
  | '\\' :: other :: rest => 92 :: (String.utf8EncodeChar other ++ unescapeBytes rest)
  -- `c as u8` keeps the low byte
  | c :: rest => UInt8.ofNat c.toNat :: unescapeBytes rest

-- `unescape_bytesmut_debug`
def unescapeBytesmutDebug (s : List Char) : List Char := decodeLossy (unescapeBytes s)

/-- `event_to_sse_text`, of what the event is printed as. -/
def eventToSseText (debug : String) : String :=
  match afterFirst "buffer: b\"".toList debug.toList with
  | none => ""
  | some rest =>
    match beforeLast '"' rest with
    | none => ""
    | some escaped => String.ofList (unescapeBytesmutDebug escaped)

-- a line that ends in `\r\n`
def stripCr (line : List Char) : List Char :=
  if line.getLast? = some '\r' then line.dropLast else line

/-- `str::lines`; the first argument is the line so far. -/
def linesFrom : List Char → List Char → List (List Char)
  | line, [] => if line = [] then [] else [line]
  | line, c :: rest =>
    if c = '\n' then stripCr line :: linesFrom [] rest else linesFrom (line ++ [c]) rest

-- `str::strip_prefix`
def stripPrefix (front line : List Char) : Option (List Char) :=
  if front.isPrefixOf line then some (line.drop front.length) else none

-- one line of `parse_sse_event`
def parseLine (acc : Option String × String) (line : List Char) : Option String × String :=
  match stripPrefix "event: ".toList line with
  | some rest => (some (String.ofList rest), acc.2)
  | none =>
    match stripPrefix "data: ".toList line with
    | some rest => (acc.1, String.ofList rest)
    | none => acc

-- `parse_sse_event`
def parseSseEvent (sseText : String) : Option String × String :=
  (linesFrom [] sseText.toList).foldl parseLine (none, "")

/-- The body of the loop that drains the events, which are given as they are printed. -/
def drainEvent (first : Option String) (debug : String) : Option String :=
  let (eventType, data) := parseSseEvent (eventToSseText debug)
  if eventType = some "error" ∧ first = none then some data else first

-- ---
-- The escapes
-- ---

theorem u8FromHex_hexDigit (b : UInt8) :
    u8FromHex (hexDigit (b.toNat / 16)) (hexDigit (b.toNat % 16)) = some b := by
  have hdigit : ∀ n < 16, hexValue (hexDigit n) = some n := by decide
  have hb : b.toNat < 256 := b.toNat_lt
  unfold u8FromHex
  rw [hdigit _ (by omega), hdigit _ (by omega)]
  dsimp only
  rw [Nat.div_add_mod, UInt8.ofNat_toNat]

-- printable characters but the backslash stand for themselves
theorem unescapeBytes_plain {c : Char} (hc : c ≠ '\\') (rest : List Char) :
    unescapeBytes (c :: rest) = UInt8.ofNat c.toNat :: unescapeBytes rest := by
  rw [unescapeBytes]
  all_goals
    intros
    simp_all

theorem unescapeBytes_debugByte (b : UInt8) (rest : List Char) :
    unescapeBytes (debugByte b ++ rest) = b :: unescapeBytes rest := by
  unfold debugByte
  split
  · next h => subst h; rfl
  split
  · next h => subst h; rfl
  split
  · next h => subst h; rfl
  split
  · next h => subst h; rfl
  split
  · next h => subst h; rfl
  split
  · next h => subst h; rfl
  split
  · next hback _ _ hprint =>
    have hvalid : b.toNat.isValidChar := by
      have := b.toNat_lt
      exact Or.inl (by omega)
    have hnat : (Char.ofNat b.toNat).toNat = b.toNat := by
      rw [Char.ofNat, dif_pos hvalid]
      rfl
    have hne : Char.ofNat b.toNat ≠ '\\' := by
      intro h
      refine hback ?_
      rw [← UInt8.ofNat_toNat (x := b), ← hnat, h]
      rfl
    rw [List.singleton_append, unescapeBytes_plain hne, hnat, UInt8.ofNat_toNat]
  · show (u8FromHex _ _).toList ++ unescapeBytes rest = _
    rw [u8FromHex_hexDigit]
    rfl

/-- The unescaper undoes the escapes of `bytes`, byte by byte. -/
theorem unescape_debug (buffer : List UInt8) :
    unescapeBytes (buffer.flatMap debugByte) = buffer := by
  induction buffer with
  | nil => rfl
  | cons b buffer ih => rw [List.flatMap_cons, unescapeBytes_debugByte, ih]

-- ---
-- The literal
-- ---

variable {tail : List Char}

theorem beforeLast_concat {q : Char} (front : List Char) (h : q ∉ tail) :
    beforeLast q (front ++ q :: tail) = some front := by
  have hnone : beforeLast q tail = none := by
    induction tail with
    | nil => rfl
    | cons c tail ih =>
      have hne : c ≠ q := by
        rintro rfl
        exact h List.mem_cons_self
      rw [beforeLast, ih fun hmem => h (List.mem_cons_of_mem _ hmem)]
      exact if_neg hne
  induction front with
  | nil =>
    rw [List.nil_append, beforeLast, hnone]
    exact if_pos rfl
  | cons c front ih => rw [List.cons_append, beforeLast, ih]

theorem eventToSseText_debugEvent (text : List Char) (h : '"' ∉ tail) :
    eventToSseText (debugEvent (encodeUtf8 text) tail) = String.ofList text := by
  have hfind : afterFirst "buffer: b\"".toList (debugEvent (encodeUtf8 text) tail).toList =
      some ((encodeUtf8 text).flatMap debugByte ++ '"' :: tail) := by
    have htext : (debugEvent (encodeUtf8 text) tail).toList = "Event \x7b ".toList ++
        "buffer: b\"".toList ++ (encodeUtf8 text).flatMap debugByte ++ '"' :: tail :=
      String.toList_ofList
    rw [htext]
    rfl
  unfold eventToSseText
  rw [hfind]
  dsimp only
  rw [beforeLast_concat _ h]
  dsimp only
  rw [unescapeBytesmutDebug, unescape_debug, decodeLossy_encode]

-- ---
-- Lines
-- ---

theorem linesFrom_line {line rest : List Char} (front : List Char) (hn : '\n' ∉ line)
    (hr : '\r' ∉ front ++ line) :
    linesFrom front (line ++ '\n' :: rest) = (front ++ line) :: linesFrom [] rest := by
  induction line generalizing front with
  | nil =>
    have hlast : front.getLast? ≠ some '\r' := fun h =>
      hr (List.mem_append_left _ (List.mem_of_getLast? h))
    rw [List.nil_append, linesFrom, if_pos rfl, stripCr, if_neg hlast, List.append_nil]
  | cons c line ih =>
    have hc : c ≠ '\n' := fun h => hn (h ▸ List.mem_cons_self)
    have happend : front ++ [c] ++ line = front ++ c :: line := by
      rw [List.append_assoc, List.singleton_append]
    rw [List.cons_append, linesFrom, if_neg hc,
      ih (front ++ [c]) (fun h => hn (List.mem_cons_of_mem _ h)) (happend ▸ hr), happend]

def OneLine (s : String) : Prop := '\n' ∉ s.toList ∧ '\r' ∉ s.toList

/-- An event is read as the name and the data it was built from. -/
theorem parse_eventText (name data : String) (tail : List Char) (hname : OneLine name)
    (hdata : OneLine data) (htail : '"' ∉ tail) :
    parseSseEvent (eventToSseText (debugEvent (eventBuffer name data) tail)) =
      (some name, data) := by
  have hlines : linesFrom [] ("event: ".toList ++ name.toList ++
      '\n' :: ("data: ".toList ++ data.toList ++ ['\n'])) =
        ["event: ".toList ++ name.toList, "data: ".toList ++ data.toList] := by
    have hfield : ∀ (front : String) (s : String), OneLine s → OneLine front →
        '\n' ∉ front.toList ++ s.toList ∧ '\r' ∉ [] ++ (front.toList ++ s.toList) := by
      intro front s hs hfront
      simp only [List.nil_append, List.mem_append, not_or]
      exact ⟨⟨hfront.1, hs.1⟩, hfront.2, hs.2⟩
    obtain ⟨hn, hr⟩ := hfield "event: " name hname (by unfold OneLine; decide)
    obtain ⟨hn', hr'⟩ := hfield "data: " data hdata (by unfold OneLine; decide)
    rw [linesFrom_line [] hn hr, linesFrom_line [] hn' hr']
    rfl
  unfold eventBuffer parseSseEvent
  rw [eventToSseText_debugEvent _ htail, String.toList_ofList, hlines]
  show (some (String.ofList name.toList), String.ofList data.toList) = _
  rw [String.ofList_toList, String.ofList_toList]

/-- An error with escapes and with characters beyond ASCII. -/
theorem parse_eventText_error :
    parseSseEvent (eventToSseText (debugEvent
      (eventBuffer "error" "\x7b\"message\":\"模型\\t\u0007\"\x7d")
        ", flags: EventFlags(5) \x7d".toList)) =
        (some "error", "\x7b\"message\":\"模型\\t\u0007\"\x7d") :=
  parse_eventText _ _ _ (by unfold OneLine; decide) (by unfold OneLine; decide) (by decide)

/-- **Draining.** The loop finds the data of the first event named `error`, whatever other fields
each event is printed with. -/
theorem drain_eventTexts (events : List (String × String × List Char))
    (hevents : ∀ e ∈ events, OneLine e.1 ∧ OneLine e.2.1 ∧ '"' ∉ e.2.2) :
    (events.map fun e => debugEvent (eventBuffer e.1 e.2.1) e.2.2).foldl drainEvent none =
      firstError (events.map fun e => (some e.1, e.2.1)) := by
  have hstep : ∀ (first : Option String) (e : String × String × List Char),
      OneLine e.1 ∧ OneLine e.2.1 ∧ '"' ∉ e.2.2 →
      drainEvent first (debugEvent (eventBuffer e.1 e.2.1) e.2.2) =
        if e.1 = "error" ∧ first = none then some e.2.1 else first := by
    rintro first e ⟨hname, hdata, htail⟩
    unfold drainEvent
    rw [parse_eventText e.1 e.2.1 e.2.2 hname hdata htail]
    simp
  have hfold : ∀ (events : List (String × String × List Char)),
      (∀ e ∈ events, OneLine e.1 ∧ OneLine e.2.1 ∧ '"' ∉ e.2.2) → ∀ first : Option String,
        (events.map fun e => debugEvent (eventBuffer e.1 e.2.1) e.2.2).foldl drainEvent first =
          first.or (firstError (events.map fun e => (some e.1, e.2.1))) := by
    intro events
    induction events with
    | nil => exact fun _ first => Option.or_none.symm
    | cons e rest ih =>
      intro hall first
      rw [List.map_cons, List.foldl_cons, hstep first e (hall e List.mem_cons_self),
        ih fun e' he' => hall e' (List.mem_cons_of_mem _ he')]
      cases first with
      | some msg => simp
      | none =>
        by_cases he : e.1 = "error"
        · simp [firstError, he]
        · simp [firstError, he]
  exact hfold events hevents none

/-- An error behind an event that is none, printed with other fields. -/
theorem drain_eventTexts_error :
    ([("message", "\x7b\"delta\":\"hi\"\x7d", ", flags: EventFlags(5) \x7d".toList),
        ("error", "\"模型\"", ", flags: EventFlags(7) \x7d".toList)].map fun e =>
      debugEvent (eventBuffer e.1 e.2.1) e.2.2).foldl drainEvent none = some "\"模型\"" := by
  have hevents : ∀ e ∈ [("message", "\x7b\"delta\":\"hi\"\x7d",
        ", flags: EventFlags(5) \x7d".toList),
      ("error", "\"模型\"", ", flags: EventFlags(7) \x7d".toList)],
      OneLine e.1 ∧ OneLine e.2.1 ∧ '"' ∉ e.2.2 := by
    unfold OneLine
    decide
  exact (drain_eventTexts _ hevents).trans rfl

end HiveClaw.Assistant
