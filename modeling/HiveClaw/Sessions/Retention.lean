import HiveClaw.Store.Tables
import HiveClaw.Utils.Helpers

/-!
# Trimming a session

`Session`, `retain_recent_legal_suffix` and `enforce_file_cap` of
`crates/session/src/manager.rs`.

A message is a JSON value, of which the functions look at the role and the ids of the tool
calls. They are written here for messages of any type that have such a view, so that a
message can be told from an equal one at another place of the list (`tagged`).
-/

namespace HiveClaw.Sessions

open Utils

-- `Session`
structure Session (α : Type) where
  key : String
  messages : List α := []
  createdAt : DateTime
  updatedAt : DateTime
  metadata : HashMap String Json := ∅
  lastConsolidated : Nat := 0

section Trim

variable {α : Type} (view : α → Json)

def isUser (m : α) : Bool := (view m).getStr "role" = some "user"

/-- `retained[legal..]` for the legal start of the list. -/
def fromLegalStart (messages : List α) : List α :=
  messages.drop (findLegalMessageStart (messages.map view))

/-- The last `n` messages from their first user message on or, if they have none, a window
of `n` messages that starts at the latest user message. -/
def anchoredWindow (messages : List α) (n : Nat) : List α :=
  let tail := slice messages (messages.length - n) messages.length
  match tail.findIdx? (isUser view) with
  | some idx => tail.drop idx
  | none =>
    match rposition (isUser view) messages with
    | some idx => slice messages idx (min (idx + n) messages.length)
    | none => tail

/-- The messages that `retain_recent_legal_suffix` keeps. -/
def retainedMessages (messages : List α) (n : Nat) : List α :=
  let retained := fromLegalStart view (anchoredWindow view messages n)
  if retained.length > n then
    fromLegalStart view (slice retained (retained.length - n) retained.length)
  else retained

namespace Session

-- `clear`
def clear (now : DateTime) (s : Session α) : Session α :=
  { s with
    messages := []
    lastConsolidated := 0
    updatedAt := now
    metadata := s.metadata.erase "_last_summary" }

-- `retain_recent_legal_suffix`
def retainRecentLegalSuffix (now : DateTime) (s : Session α) (n : Nat) : Session α :=
  if n = 0 then s.clear now
  else if s.messages.length ≤ n then s
  else
    let retained := retainedMessages view s.messages n
    { s with
      messages := retained
      lastConsolidated := s.lastConsolidated - (s.messages.length - retained.length)
      updatedAt := now }

/-- `enforce_file_cap`: its answer, the session after it, and what `on_archive` is called
with. -/
def enforceFileCap (now : DateTime) (s : Session α) (limit : Nat) :
    Bool × Session α × Option (List α) :=
  if limit = 0 ∨ s.messages.length ≤ limit then (false, s, none)
  else
    let s' := s.retainRecentLegalSuffix view now limit
    let droppedCount := s.messages.length - s'.messages.length
    if droppedCount = 0 then (false, s', none)
    else
      let chunk := slice s.messages (min s.lastConsolidated droppedCount) droppedCount
      (true, s', if chunk.isEmpty then none else some chunk)

end Session

end Trim

/-! ## What is kept -/

section Kept

variable {α : Type} (view : α → Json) {messages : List α} {n : Nat}

/-- The latest user message, if the last `n` messages have none. -/
def reanchor (messages : List α) (n : Nat) : Option Nat :=
  if (slice messages (messages.length - n) messages.length).any (isUser view) then none
  else rposition (isUser view) messages

/-- The number of messages at the front of the window that are not kept. -/
def illegalPart (messages : List α) (idx n : Nat) : Nat :=
  findLegalMessageStart ((slice messages idx (idx + n)).map view)

variable {view}

variable {idx : Nat}

theorem reanchor_lt (hlen : n < messages.length) (h : reanchor view messages n = some idx) :
    idx + n < messages.length := by
  unfold reanchor at h
  split at h
  · cases h
  · rename_i hany
    obtain ⟨hlt, huser, -⟩ := rposition_eq_some h
    by_contra hge
    have hmem : messages[idx] ∈ slice messages (messages.length - n) messages.length := by
      refine List.mem_iff_getElem?.mpr ⟨idx - (messages.length - n), ?_⟩
      rw [getElem?_slice]
      have hidx : messages.length - n + (idx - (messages.length - n)) = idx := by omega
      rw [hidx, if_pos hlt, List.getElem?_eq_getElem hlt]
    exact hany (List.any_eq_true.mpr ⟨_, hmem, huser _ (List.getElem?_eq_getElem hlt)⟩)

theorem anchoredWindow_of_reanchor (h : reanchor view messages n = some idx)
    (hlt : idx + n < messages.length) :
    anchoredWindow view messages n = slice messages idx (idx + n) := by
  unfold reanchor at h
  split at h
  · cases h
  · rename_i hany
    have hnone : (slice messages (messages.length - n) messages.length).findIdx? (isUser view) =
        none := by
      rw [List.findIdx?_eq_none_iff]
      intro x hx
      exact Bool.eq_false_iff.mpr fun hp => hany (List.any_eq_true.mpr ⟨x, hx, hp⟩)
    unfold anchoredWindow
    dsimp only
    rw [hnone, h]
    dsimp only
    rw [min_eq_left hlt.le]

theorem anchoredWindow_of_none (h : reanchor view messages n = none) :
    ∃ a, messages.length - n ≤ a ∧ a ≤ messages.length ∧
      anchoredWindow view messages n = slice messages a messages.length := by
  unfold anchoredWindow
  dsimp only
  cases hidx : (slice messages (messages.length - n) messages.length).findIdx? (isUser view) with
  | some idx =>
    obtain ⟨hlt, -, -⟩ := List.findIdx?_eq_some_iff_getElem.mp hidx
    rw [length_slice _ le_rfl] at hlt
    refine ⟨messages.length - n + idx, by omega, by omega, ?_⟩
    exact drop_slice _ _ _ _
  | none =>
    have hnone : rposition (isUser view) messages = none := by
      unfold reanchor at h
      split at h
      · rename_i hany
        obtain ⟨x, hx, hp⟩ := List.any_eq_true.mp hany
        have hfalse := List.findIdx?_eq_none_iff.mp hidx x hx
        rw [hp] at hfalse
        cases hfalse
      · exact h
    rw [hnone]
    exact ⟨messages.length - n, le_rfl, Nat.sub_le _ _, rfl⟩

theorem retainedMessages_of_window {a b : Nat} (hb : b ≤ messages.length) (hn : b - a ≤ n)
    (h : anchoredWindow view messages n = slice messages a b) :
    retainedMessages view messages n =
      slice messages (a + findLegalMessageStart ((slice messages a b).map view)) b := by
  unfold retainedMessages fromLegalStart
  dsimp only
  rw [h, drop_slice, if_neg]
  rw [length_slice _ hb]
  omega

theorem retainedMessages_cases (hlen : n < messages.length) :
    (reanchor view messages n = none ∧
      ∃ a ≤ messages.length, messages.length - n ≤ a ∧
        retainedMessages view messages n = slice messages a messages.length) ∨
    ∃ idx, reanchor view messages n = some idx ∧ idx + n < messages.length ∧
      illegalPart view messages idx n ≤ n ∧
      retainedMessages view messages n =
        slice messages (idx + illegalPart view messages idx n) (idx + n) := by
  cases h : reanchor view messages n with
  | none =>
    refine Or.inl ⟨rfl, ?_⟩
    obtain ⟨a, hle, ha, hwindow⟩ := anchoredWindow_of_none h
    have hlegal := findLegalMessageStart_le ((slice messages a messages.length).map view)
    rw [List.length_map, length_slice _ le_rfl] at hlegal
    refine ⟨_, ?_, ?_, retainedMessages_of_window le_rfl (by omega) hwindow⟩
    · omega
    · omega
  | some idx =>
    have hlt := reanchor_lt hlen h
    have hlegal := findLegalMessageStart_le ((slice messages idx (idx + n)).map view)
    rw [List.length_map, length_slice _ hlt.le] at hlegal
    refine Or.inr ⟨idx, rfl, hlt, ?_, ?_⟩
    · exact le_trans hlegal (by omega)
    · exact retainedMessages_of_window hlt.le (by omega) (anchoredWindow_of_reanchor h hlt)

end Kept

/-! ## What is archived -/

section Archived

variable {α : Type} {view : α → Json} {s : Session α} {limit : Nat}

/-- A session that is trimmed: what is kept, what is archived, and how far it is
consolidated, by the places in the old list. -/
theorem enforceFileCap_eq (now : DateTime) {a b : Nat} (hlimit : 0 < limit) (hlen : limit < s.messages.length)
    (hb : b ≤ s.messages.length) (hab : b - a ≤ limit)
    (h : retainedMessages view s.messages limit = slice s.messages a b) :
    (s.enforceFileCap view now limit).2.1.messages = slice s.messages a b ∧
      (s.enforceFileCap view now limit).2.1.lastConsolidated =
        s.lastConsolidated - (s.messages.length - (b - a)) ∧
      (s.enforceFileCap view now limit).2.2.getD [] =
        slice s.messages (min s.lastConsolidated (s.messages.length - (b - a)))
          (s.messages.length - (b - a)) := by
  have hlength : (slice s.messages a b).length = b - a := length_slice _ hb
  have hretain : s.retainRecentLegalSuffix view now limit =
      { s with
        messages := slice s.messages a b
        lastConsolidated := s.lastConsolidated - (s.messages.length - (b - a))
        updatedAt := now } := by
    unfold Session.retainRecentLegalSuffix
    rw [if_neg (by omega), if_neg (by omega), h]
    dsimp only
    rw [hlength]
  unfold Session.enforceFileCap
  rw [if_neg (by omega), hretain]
  dsimp only
  rw [hlength, if_neg (by omega)]
  dsimp only
  refine ⟨rfl, rfl, ?_⟩
  split
  · rename_i hempty
    rw [List.isEmpty_iff.mp hempty]
    rfl
  · rfl

end Archived

/-! ## Messages with their places -/

section Map

variable {α β : Type} (f : α → β) (view : β → Json)

/-- The session with its messages looked at through `f`. -/
def Session.map (s : Session α) : Session β :=
  { key := s.key
    messages := s.messages.map f
    createdAt := s.createdAt
    updatedAt := s.updatedAt
    metadata := s.metadata
    lastConsolidated := s.lastConsolidated }

theorem reanchor_map (messages : List α) (n : Nat) :
    reanchor view (messages.map f) n = reanchor (view ∘ f) messages n := by
  unfold reanchor
  rw [rposition_map, ← map_slice, List.any_map, List.length_map]
  rfl

theorem illegalPart_map (messages : List α) (idx n : Nat) :
    illegalPart view (messages.map f) idx n = illegalPart (view ∘ f) messages idx n := by
  unfold illegalPart
  rw [← map_slice, List.map_map]

theorem map_fromLegalStart (messages : List α) :
    (fromLegalStart (view ∘ f) messages).map f = fromLegalStart view (messages.map f) := by
  unfold fromLegalStart
  rw [List.map_drop, List.map_map]

theorem map_anchoredWindow (messages : List α) (n : Nat) :
    (anchoredWindow (view ∘ f) messages n).map f = anchoredWindow view (messages.map f) n := by
  have huser : isUser view ∘ f = isUser (view ∘ f) := rfl
  unfold anchoredWindow
  dsimp only
  rw [← map_slice, List.findIdx?_map, rposition_map, List.length_map, huser]
  split
  · exact List.map_drop
  · split
    · exact map_slice f _ _ _
    · rfl

theorem map_retainedMessages (messages : List α) (n : Nat) :
    (retainedMessages (view ∘ f) messages n).map f = retainedMessages view (messages.map f) n := by
  unfold retainedMessages
  dsimp only
  rw [← map_anchoredWindow, ← map_fromLegalStart, List.length_map]
  split
  · rw [map_fromLegalStart, map_slice]
  · rfl

theorem map_enforceFileCap (now : DateTime) (s : Session α) (limit : Nat) :
    (s.map f).enforceFileCap view now limit =
      let (trimmed, s', archived) := s.enforceFileCap (view ∘ f) now limit
      (trimmed, s'.map f, archived.map (List.map f)) := by
  have hretain : (s.map f).retainRecentLegalSuffix view now limit =
      (s.retainRecentLegalSuffix (view ∘ f) now limit).map f := by
    unfold Session.retainRecentLegalSuffix
    split
    · rfl
    · simp only [Session.map, List.length_map]
      split
      · rfl
      · simp only [← map_retainedMessages, List.length_map]
  unfold Session.enforceFileCap
  rw [hretain]
  simp only [Session.map, List.length_map]
  split
  · rfl
  · split
    · rfl
    · simp only [← map_slice, List.isEmpty_map]
      split
      · rfl
      · rfl

end Map

def Session.tagged {α : Type} (s : Session α) : Session (α × Nat) :=
  { key := s.key
    messages := s.messages.zipIdx
    createdAt := s.createdAt
    updatedAt := s.updatedAt
    metadata := s.metadata
    lastConsolidated := s.lastConsolidated }

variable {α : Type}

/-- The code does not see the places: with them or without, it does the same. -/
theorem enforceFileCap_tagged (view : α → Json) (now : DateTime) (s : Session α) (limit : Nat) :
    s.enforceFileCap view now limit =
      let (trimmed, s', archived) := s.tagged.enforceFileCap (fun x => view x.1) now limit
      (trimmed, s'.map Prod.fst, archived.map (List.map Prod.fst)) := by
  have htagged : s.tagged.map Prod.fst = s := by
    simp [Session.map, Session.tagged]
  have hmap := map_enforceFileCap Prod.fst view now s.tagged limit
  rw [htagged] at hmap
  exact hmap

theorem mem_slice_zipIdx {l : List α} {a b : Nat} {x : α × Nat} :
    x ∈ slice l.zipIdx a b ↔ x ∈ l.zipIdx ∧ a ≤ x.2 ∧ x.2 < b := by
  have hplace : ∀ i, l.zipIdx[i]? = some x → x.2 = i := by
    intro i hi
    rw [List.getElem?_zipIdx, Option.map_eq_some_iff] at hi
    obtain ⟨m, -, rfl⟩ := hi
    exact Nat.zero_add i
  constructor
  · intro hx
    obtain ⟨i, hi⟩ := List.mem_iff_getElem?.mp hx
    rw [getElem?_slice] at hi
    split at hi
    · rename_i hlt
      have hplace' := hplace _ hi
      exact ⟨List.mem_of_getElem? hi, by omega, by omega⟩
    · cases hi
  · rintro ⟨hx, ha, hb⟩
    obtain ⟨i, hi⟩ := List.mem_iff_getElem?.mp hx
    have hplace' := hplace _ hi
    refine List.mem_iff_getElem?.mpr ⟨i - a, ?_⟩
    have hidx : a + (i - a) = i := by omega
    rw [getElem?_slice, hidx, if_pos (by omega)]
    exact hi

/-! ## Every message is accounted for -/

/-- What becomes of the messages of `s` in `s'` and in the archive: those that were not
consolidated are kept or archived, and not both, and the ones that count as consolidated
afterwards are those that are kept and were consolidated before. -/
structure Accounted {α : Type} (s s' : Session α) (archived : List α) : Prop where
  kept_or_archived : ∀ x ∈ s.messages.drop s.lastConsolidated, x ∈ s'.messages ∨ x ∈ archived
  not_both : ∀ x ∈ s.messages.drop s.lastConsolidated, ¬ (x ∈ s'.messages ∧ x ∈ archived)
  consolidated : ∀ x, x ∈ s'.messages.take s'.lastConsolidated ↔
    x ∈ s'.messages ∧ x ∈ s.messages.take s.lastConsolidated

/-- The last `limit` messages have no user message but an earlier one is there, the window
that starts at the latest one has a legal part, and not everything is consolidated. -/
def LosesEnd (s : Session Json) (limit : Nat) : Prop :=
  limit < s.messages.length ∧ s.lastConsolidated < s.messages.length ∧
    ∃ idx ∈ reanchor id s.messages limit, illegalPart id s.messages idx limit < limit

instance (s : Session Json) (limit : Nat) : Decidable (LosesEnd s limit) :=
  inferInstanceAs (Decidable (_ ∧ _ ∧ ∃ idx ∈ reanchor id s.messages limit,
    illegalPart id s.messages idx limit < limit))

section Accounted

variable {α : Type} {s : Session α} {s' : Session (α × Nat)} {archived : List (α × Nat)} {a b : Nat}

theorem forall_mem_zipIdx {l : List α} {p : Nat → Prop} :
    (∀ x ∈ l.zipIdx, p x.2) ↔ ∀ i < l.length, p i := by
  constructor
  · intro h i hi
    have hmem : (l[i], i) ∈ l.zipIdx := by
      refine List.mem_iff_getElem?.mpr ⟨i, ?_⟩
      rw [List.getElem?_zipIdx, List.getElem?_eq_getElem hi]
      simp
    exact h _ hmem
  · intro h x hx
    obtain ⟨hlt, -⟩ := List.mem_zipIdx' hx
    exact h x.2 hlt

/-- By the places: the messages from `a` to `b` are kept, and the archive is cut by the
number of the others. -/
theorem accounted_iff_places {dropped : Nat}
    (hmessages : s'.messages = slice s.messages.zipIdx a b)
    (hconsolidated : s'.lastConsolidated = s.lastConsolidated - dropped)
    (harchived : archived = slice s.messages.zipIdx (min s.lastConsolidated dropped) dropped) :
    Accounted s.tagged s' archived ↔ ∀ i < s.messages.length,
      (s.lastConsolidated ≤ i → (a ≤ i ∧ i < b ∨ i < dropped) ∧ ¬ ((a ≤ i ∧ i < b) ∧ i < dropped)) ∧
        (a ≤ i ∧ i < min b (a + (s.lastConsolidated - dropped)) ↔
          (a ≤ i ∧ i < b) ∧ i < s.lastConsolidated) := by
  have hlt : ∀ x ∈ s.messages.zipIdx, x.2 < s.messages.length := by
    intro x hx
    obtain ⟨hlt, -⟩ := List.mem_zipIdx' hx
    exact hlt
  have hlen : s.messages.zipIdx.length = s.messages.length := List.length_zipIdx
  have hdrop : ∀ x, x ∈ s.tagged.messages.drop s.tagged.lastConsolidated ↔
      x ∈ s.messages.zipIdx ∧ s.lastConsolidated ≤ x.2 := by
    intro x
    show x ∈ s.messages.zipIdx.drop s.lastConsolidated ↔ _
    rw [← slice_length, mem_slice_zipIdx, hlen]
    constructor
    · rintro ⟨hx, hle, -⟩
      exact ⟨hx, hle⟩
    · rintro ⟨hx, hle⟩
      exact ⟨hx, hle, hlt x hx⟩
  have htake : ∀ x, x ∈ s.tagged.messages.take s.tagged.lastConsolidated ↔
      x ∈ s.messages.zipIdx ∧ x.2 < s.lastConsolidated := by
    intro x
    have hslice : s.tagged.messages.take s.tagged.lastConsolidated =
        slice s.messages.zipIdx 0 s.lastConsolidated := rfl
    rw [hslice, mem_slice_zipIdx]
    simp
  rw [← forall_mem_zipIdx]
  constructor
  · rintro ⟨hkept, hboth, hcons⟩ x hx
    refine ⟨fun hle => ⟨?_, ?_⟩, ?_⟩
    · have hone := hkept x ((hdrop x).mpr ⟨hx, hle⟩)
      rw [hmessages, harchived, mem_slice_zipIdx, mem_slice_zipIdx] at hone
      omega
    · have hnot := hboth x ((hdrop x).mpr ⟨hx, hle⟩)
      rw [hmessages, harchived, mem_slice_zipIdx, mem_slice_zipIdx] at hnot
      rintro ⟨hin, hdropped⟩
      exact hnot ⟨⟨hx, hin⟩, hx, by omega, hdropped⟩
    · have hiff := hcons x
      rw [htake, hmessages, take_slice, mem_slice_zipIdx, mem_slice_zipIdx, hconsolidated] at hiff
      constructor
      · intro hin
        have hold := hiff.mp ⟨hx, hin⟩
        exact ⟨hold.1.2, hold.2.2⟩
      · rintro ⟨hin, hold⟩
        exact (hiff.mpr ⟨⟨hx, hin⟩, hx, hold⟩).2
  · intro h
    refine ⟨fun x hx => ?_, fun x hx hin => ?_, fun x => ?_⟩
    · obtain ⟨hmem, hle⟩ := (hdrop x).mp hx
      obtain ⟨hone, -⟩ := (h x hmem).1 hle
      rw [hmessages, harchived, mem_slice_zipIdx, mem_slice_zipIdx]
      rcases hone with hin | hdropped
      · exact Or.inl ⟨hmem, hin⟩
      · exact Or.inr ⟨hmem, by omega, hdropped⟩
    · obtain ⟨hmem, hle⟩ := (hdrop x).mp hx
      obtain ⟨-, hnot⟩ := (h x hmem).1 hle
      rw [hmessages, harchived, mem_slice_zipIdx, mem_slice_zipIdx] at hin
      exact hnot ⟨hin.1.2, hin.2.2.2⟩
    · rw [htake, hmessages, take_slice, mem_slice_zipIdx, mem_slice_zipIdx, hconsolidated]
      constructor
      · rintro ⟨hmem, hin⟩
        obtain ⟨hin', hold⟩ := (h x hmem).2.mp hin
        exact ⟨⟨hmem, hin'⟩, hmem, hold⟩
      · rintro ⟨⟨hmem, hin⟩, -, hold⟩
        exact ⟨hmem, (h x hmem).2.mpr ⟨hin, hold⟩⟩

end Accounted

/-- After `enforce_file_cap` every message is accounted for if and only if the end of the
session is not lost: either nothing is trimmed, or what is kept is the end of the session
(the last `limit` messages have a user message, or there is no user message at all), or
nothing is kept, or everything was consolidated. -/
theorem accounted_iff_not_losesEnd (now : DateTime) (s : Session Json) {limit : Nat}
    (hlimit : 0 < limit) (hconsolidated : s.lastConsolidated ≤ s.messages.length) :
    Accounted s.tagged (s.tagged.enforceFileCap (·.1) now limit).2.1
        ((s.tagged.enforceFileCap (·.1) now limit).2.2.getD []) ↔
      ¬ LosesEnd s limit := by
  have hlen : s.tagged.messages.length = s.messages.length := List.length_zipIdx
  by_cases hshort : s.messages.length ≤ limit
  · -- nothing is trimmed
    have hsame : s.tagged.enforceFileCap (·.1) now limit = (false, s.tagged, none) := by
      unfold Session.enforceFileCap
      rw [if_pos (Or.inr (by omega))]
    rw [hsame]
    refine iff_of_true ⟨fun x hx => Or.inl (List.mem_of_mem_drop hx), nofun, fun x => ?_⟩ ?_
    · exact ⟨fun hx => ⟨List.mem_of_mem_take hx, hx⟩, fun hx => hx.2⟩
    · rintro ⟨hlong, -⟩
      omega
  · have hlong : limit < s.tagged.messages.length := by omega
    have hplain : s.tagged.messages.map Prod.fst = s.messages := List.zipIdx_map_fst 0 s.messages
    have hreanchor : reanchor id s.messages limit = reanchor (·.1) s.tagged.messages limit := by
      rw [← hplain, reanchor_map]
      rfl
    have hillegal : ∀ idx, illegalPart id s.messages idx limit =
        illegalPart (·.1) s.tagged.messages idx limit := by
      intro idx
      rw [← hplain, illegalPart_map]
      rfl
    have hcases : (reanchor (·.1) s.tagged.messages limit = none ∧ _) ∨ _ :=
      retainedMessages_cases hlong
    rcases hcases with ⟨hnone, a, ha, hle, hretained⟩ | ⟨idx, hidx, hlt, hle, hretained⟩
    · -- the end of the session is kept
      obtain ⟨hmessages, hcons, harchived⟩ :=
        enforceFileCap_eq now hlimit hlong le_rfl (by omega) hretained
      rw [accounted_iff_places hmessages hcons harchived]
      refine iff_of_true (fun i hi => ?_) ?_
      · have hdropped : s.tagged.messages.length - (s.tagged.messages.length - a) = a := by omega
        rw [hdropped, hlen]
        omega
      · rintro ⟨-, -, idx, hidx, -⟩
        rw [hreanchor, hnone] at hidx
        cases hidx
    · -- a window before the end is kept
      obtain ⟨hmessages, hcons, harchived⟩ :=
        enforceFileCap_eq now hlimit hlong hlt.le (by omega) hretained
      rw [accounted_iff_places hmessages hcons harchived]
      generalize hk : illegalPart (·.1) s.tagged.messages idx limit = k at hle
      constructor
      · rintro hall ⟨-, hopen, idx', hidx', hlegal⟩
        rw [hreanchor, hidx] at hidx'
        cases hidx'
        rw [hillegal, hk] at hlegal
        -- the last message is neither kept nor archived
        obtain ⟨hlast, -⟩ := (hall (s.messages.length - 1) (by omega)).1 (by omega)
        omega
      · intro hlost i hi
        have hend : s.lastConsolidated = s.messages.length ∨ k = limit := by
          by_contra hnot
          refine hlost ⟨by omega, by omega, idx, ?_, ?_⟩
          · rw [hreanchor]
            exact hidx
          · rw [hillegal, hk]
            omega
        omega

def message (role content : String) : Json := .obj [("role", .str role), ("content", .str content)]

/-- A session with these messages, nothing of which is consolidated. -/
def sessionOf (messages : List Json) : Session Json :=
  { key := "cli:direct", messages, createdAt := 0, updatedAt := 0 }

/-- A question, and an answer that is longer than the cap. -/
def longAnswer : Session Json :=
  sessionOf [message "user" "q", message "assistant" "a1", message "assistant" "a2",
    message "assistant" "a3"]

/-- Trimmed to two messages the session keeps the first two, archives the same two and
loses the last two. -/
theorem longAnswer_loses_end :
    (longAnswer.tagged.enforceFileCap (·.1) 1 2).2.1.messages.map (·.2) = [0, 1] ∧
      (longAnswer.tagged.enforceFileCap (·.1) 1 2).2.2.map (List.map (·.2)) = some [0, 1] ∧
      ¬ Accounted longAnswer.tagged (longAnswer.tagged.enforceFileCap (·.1) 1 2).2.1
        ((longAnswer.tagged.enforceFileCap (·.1) 1 2).2.2.getD []) := by
  refine ⟨by decide +kernel, by decide +kernel, fun h => ?_⟩
  have hlast := h.kept_or_archived (message "assistant" "a3", 3) (by decide +kernel)
  revert hlast
  decide +kernel

/-- Two turns, the first of which is archived. -/
theorem twoTurns_accounted :
    Accounted (sessionOf [message "user" "q1", message "assistant" "a1", message "user" "q2",
        message "assistant" "a2"]).tagged
      ((sessionOf [message "user" "q1", message "assistant" "a1", message "user" "q2",
        message "assistant" "a2"]).tagged.enforceFileCap (·.1) 1 3).2.1
      (((sessionOf [message "user" "q1", message "assistant" "a1", message "user" "q2",
        message "assistant" "a2"]).tagged.enforceFileCap (·.1) 1 3).2.2.getD []) :=
  (accounted_iff_not_losesEnd 1 _ (by decide) (by decide)).mpr (by decide +kernel)

end HiveClaw.Sessions
