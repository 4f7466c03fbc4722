import HiveClaw.Lib.Digraph
import HiveClaw.RustStd

/-!
# Cycle detection at save time

`detect_cycle` of `crates/hiveweb/src/services/workflow.rs`: a depth-first
search with the colors white, gray and black and an explicit stack.

* `detectCycle_acyclic` — a graph in which it finds no cycle has none;
* `detectCycle_isClosedWalk` — what it reports is a cycle, in whatever order the
  nodes are visited;
* `detectCycle_ne_outOfFuel` — the search ends within two rounds per node;
* `detectCycle_decides` — the three together: it reports a cycle exactly when there
  is one.
-/

namespace HiveClaw.Workflow

open Lib.Digraph Relation

/-- The adjacency lists, by node key. -/
abbrev Adjacency := HashMap String (List String)

inductive Color where
  | white
  | gray
  | black
deriving DecidableEq, Repr

abbrev Colors := HashMap String Color

namespace Colors

-- `color.get(key).copied().unwrap_or(Color::White)`
def get (color : Colors) (key : String) : Color := (color.lookup key).getD .white

theorem get_insert (color : Colors) (key : String) (c : Color) (x : String) :
    get (color.insert key c) x = if x = key then c else get color x := by
  unfold get
  by_cases hx : x = key
  · rw [hx, AList.lookup_insert, if_pos rfl]
    rfl
  · rw [AList.lookup_insert_ne hx, if_neg hx]

end Colors

-- ---
-- The search
-- ---

/-- What the loop over the successors of a node comes to. -/
inductive Scan where
  | advance (next : String)
  | cycle (next : String)
  | exhausted
deriving DecidableEq, Repr

-- the inner `for &next in succs`
def scan (color : Colors) : List String → Scan
  | [] => .exhausted
  | next :: rest =>
    match color.get next with
    | .white => .advance next
    | .gray => .cycle next
    | .black => scan color rest

inductive Search where
  | finished (color : Colors)
  | cycle (keys : List String)
  | outOfFuel

/-- The `while let Some(..) = stack.last()` loop; the top of the stack stands
first. A node without an entry in `adj` has no successors. -/
def search (adj : Adjacency) : Nat → Colors → List (String × List String) → Search
  | _, color, [] => .finished color
  | 0, _, _ :: _ => .outOfFuel
  | fuel + 1, color, (node, path) :: rest =>
    match scan color ((adj.lookup node).getD []) with
    | .advance next =>
      search adj fuel (color.insert next .gray) ((next, path ++ [next]) :: (node, path) :: rest)
    | .cycle next => .cycle (path.dropWhile (fun p => p ≠ next) ++ [next])
    | .exhausted => search adj fuel (color.insert node .black) rest

/-- The outer `for &start in adj.keys()`. -/
def searchAll (adj : Adjacency) (fuel : Nat) : List String → Colors → Search
  | [], color => .finished color
  | start :: keys, color =>
    if color.get start ≠ .white then searchAll adj fuel keys color
    else
      match search adj fuel (color.insert start .gray) [(start, [start])] with
      | .finished color' => searchAll adj fuel keys color'
      | .cycle c => .cycle c
      | .outOfFuel => .outOfFuel

-- `adj.keys().map(|&k| (k, Color::White)).collect()`
def initialColors (keys : List String) : Colors :=
  keys.foldl (fun color k => color.insert k .white) ∅

/-- The nodes the map knows of; a successor need not be a key. -/
def vertices (adj : Adjacency) : List String :=
  adj.keys ++ adj.keys.flatMap fun k => (adj.lookup k).getD []

/-- `detect_cycle`; `rank` is the order in which the map happens to list its
keys. -/
def detectCycle (rank : String → Nat) (adj : Adjacency) : Search :=
  searchAll adj (2 * (vertices adj).length) (hashOrder rank adj.keys)
    (initialColors adj.keys)

-- ---
-- What a search without a cycle shows
-- ---

/-- `y` is a successor of `x`. -/
def Edge (adj : Adjacency) (x y : String) : Prop := y ∈ (adj.lookup x).getD []

/-- The invariant of the search: the black nodes are closed under successors
and free of cycles, and the gray ones are those on the stack. -/
structure SearchInv (adj : Adjacency) (color : Colors) (stack : List (String × List String)) :
    Prop where
  black : ClosedAcyclic (Edge adj) {x | color.get x = .black}
  gray  : ∀ x, color.get x = .gray ↔ x ∈ stack.map Prod.fst
  nodup : (stack.map Prod.fst).Nodup

variable {color : Colors}

theorem scan_advance {succs : List String} {next : String} (h : scan color succs = .advance next) :
    next ∈ succs ∧ color.get next = .white := by
  induction succs with
  | nil => cases h
  | cons x rest ih =>
    unfold scan at h
    cases hx : color.get x with
    | white =>
      simp only [hx, Scan.advance.injEq] at h
      exact ⟨by simp [h], h ▸ hx⟩
    | gray => simp [hx] at h
    | black =>
      simp only [hx] at h
      exact ⟨List.mem_cons_of_mem x (ih h).1, (ih h).2⟩

theorem scan_exhausted {succs : List String} (h : scan color succs = .exhausted) :
    ∀ x ∈ succs, color.get x = .black := by
  induction succs with
  | nil => simp
  | cons x rest ih =>
    unfold scan at h
    cases hx : color.get x with
    | white => simp [hx] at h
    | gray => simp [hx] at h
    | black =>
      simp only [hx] at h
      intro y hy
      rcases List.mem_cons.mp hy with rfl | hy
      · exact hx
      · exact ih h y hy

variable {adj : Adjacency} {stack : List (String × List String)}

theorem SearchInv.push (h : SearchInv adj color stack) {next : String}
    (hwhite : color.get next = .white) (path : List String) :
    SearchInv adj (color.insert next .gray) ((next, path) :: stack) := by
  have hoff : next ∉ stack.map Prod.fst := by
    intro hmem
    rw [← h.gray, hwhite] at hmem
    cases hmem
  refine ⟨?_, fun x => ?_, List.nodup_cons.mpr ⟨hoff, h.nodup⟩⟩
  · -- the black nodes are the same
    have hsame : {x | Colors.get (color.insert next .gray) x = .black} =
        {x | color.get x = .black} := by
      ext x
      simp only [Set.mem_ofPred_eq, Colors.get_insert]
      by_cases hx : x = next
      · simp [hx, hwhite]
      · simp [hx]
    rw [hsame]
    exact h.black
  · rw [Colors.get_insert, List.map_cons, List.mem_cons]
    by_cases hx : x = next
    · simp [hx]
    · simp [hx, h.gray x]

variable {node : String}

theorem SearchInv.pop {path : List String} (h : SearchInv adj color ((node, path) :: stack))
    (hsucc : ∀ y, Edge adj node y → color.get y = .black) :
    SearchInv adj (color.insert node .black) stack := by
  have hgray : color.get node = .gray := (h.gray node).mpr (by simp)
  have hnodup := List.nodup_cons.mp h.nodup
  refine ⟨?_, fun x => ?_, hnodup.2⟩
  · have hnew : {x | Colors.get (color.insert node .black) x = .black} =
        insert node {x | color.get x = .black} := by
      ext x
      simp only [Set.mem_ofPred_eq, Colors.get_insert, Set.mem_insert_iff]
      by_cases hx : x = node
      · simp [hx]
      · simp [hx]
    rw [hnew]
    exact h.black.insert (by simp [hgray]) hsucc
  · rw [Colors.get_insert]
    by_cases hx : x = node
    · rw [hx]
      simpa using hnodup.1
    · have := h.gray x
      simp only [List.map_cons, List.mem_cons, hx, false_or] at this
      simp only [hx, if_false]
      exact this

variable {fuel : Nat} {color' : Colors}

theorem search_inv (h : SearchInv adj color stack)
    (hfin : search adj fuel color stack = .finished color') : SearchInv adj color' [] := by
  induction fuel generalizing color stack with
  | zero =>
    cases stack with
    | nil =>
      simp only [search, Search.finished.injEq] at hfin
      exact hfin ▸ h
    | cons top rest => simp [search] at hfin
  | succ fuel ih =>
    rcases stack with _ | ⟨⟨node, path⟩, rest⟩
    · simp only [search, Search.finished.injEq] at hfin
      exact hfin ▸ h
    · unfold search at hfin
      rcases hscan : scan color ((adj.lookup node).getD []) with next | next | _
      · simp only [hscan] at hfin
        exact ih (h.push (scan_advance hscan).2 _) hfin
      · simp [hscan] at hfin
      · simp only [hscan] at hfin
        exact ih (h.pop (scan_exhausted hscan)) hfin

variable {x : String}

theorem search_not_white (hfin : search adj fuel color stack = .finished color')
    (hx : color.get x ≠ .white) : color'.get x ≠ .white := by
  have hkeep : ∀ (color : Colors) (k : String) (c : Color), c ≠ .white → color.get x ≠ .white →
      Colors.get (color.insert k c) x ≠ .white := by
    intro color k c hc hx
    rw [Colors.get_insert]
    split
    · exact hc
    · exact hx
  induction fuel generalizing color stack with
  | zero =>
    cases stack with
    | nil =>
      simp only [search, Search.finished.injEq] at hfin
      exact hfin ▸ hx
    | cons top rest => simp [search] at hfin
  | succ fuel ih =>
    rcases stack with _ | ⟨⟨node, path⟩, rest⟩
    · simp only [search, Search.finished.injEq] at hfin
      exact hfin ▸ hx
    · unfold search at hfin
      rcases hscan : scan color ((adj.lookup node).getD []) with next | next | _
      · simp only [hscan] at hfin
        exact ih hfin (hkeep _ _ _ (by decide) hx)
      · simp [hscan] at hfin
      · simp only [hscan] at hfin
        exact ih hfin (hkeep _ _ _ (by decide) hx)

variable {keys : List String}

theorem searchAll_inv (h : SearchInv adj color [])
    (hfin : searchAll adj fuel keys color = .finished color') :
    SearchInv adj color' [] ∧ ∀ x, (x ∈ keys ∨ color.get x ≠ .white) → color'.get x ≠ .white := by
  induction keys generalizing color with
  | nil =>
    simp only [searchAll, Search.finished.injEq] at hfin
    subst hfin
    exact ⟨h, fun x hx => hx.resolve_left (by simp)⟩
  | cons start keys ih =>
    unfold searchAll at hfin
    split at hfin
    · rename_i hstart
      obtain ⟨hinv, hall⟩ := ih h hfin
      refine ⟨hinv, fun x hx => ?_⟩
      rcases hx with hx | hx
      · rcases List.mem_cons.mp hx with rfl | hx
        · exact hall x (Or.inr hstart)
        · exact hall x (Or.inl hx)
      · exact hall x (Or.inr hx)
    · rename_i hstart
      have hwhite : color.get start = .white := not_not.mp hstart
      rcases hsearch : search adj fuel (color.insert start .gray) [(start, [start])]
        with color₁ | c | _
      · simp only [hsearch] at hfin
        obtain ⟨hinv, hall⟩ := ih (search_inv (h.push hwhite _) hsearch) hfin
        refine ⟨hinv, fun x hx => hall x ?_⟩
        have hseen : x = start ∨ color.get x ≠ .white → color₁.get x ≠ .white := by
          intro hx
          refine search_not_white hsearch ?_
          rw [Colors.get_insert]
          rcases hx with rfl | hx
          · simp
          · by_cases hxs : x = start
            · simp [hxs]
            · simpa [hxs] using hx
        rcases hx with hx | hx
        · rcases List.mem_cons.mp hx with hx | hx
          · exact Or.inr (hseen (Or.inl hx))
          · exact Or.inl hx
        · exact Or.inr (hseen (Or.inr hx))
      · simp [hsearch] at hfin
      · simp [hsearch] at hfin

theorem get_initialColors (keys : List String) (x : String) :
    (initialColors keys).get x = .white := by
  have hfold : ∀ (color : Colors), color.get x = .white →
      Colors.get (keys.foldl (fun color k => color.insert k .white) color) x = .white := by
    induction keys with
    | nil => exact fun _ h => h
    | cons k keys ih =>
      intro color h
      refine ih _ ?_
      rw [Colors.get_insert]
      split
      · rfl
      · exact h
  exact hfold ∅ rfl

theorem searchInv_initialColors (adj : Adjacency) :
    SearchInv adj (initialColors adj.keys) [] := by
  refine ⟨?_, fun x => ?_, List.nodup_nil⟩
  · have hnone : {x | (initialColors adj.keys).get x = .black} = (∅ : Set String) := by
      ext x
      simp [get_initialColors]
    rw [hnone]
    exact ClosedAcyclic.empty
  · simp [get_initialColors]

variable {y : String}

theorem mem_keys_of_edge (h : Edge adj x y) : x ∈ adj.keys := by
  unfold Edge at h
  cases hx : adj.lookup x with
  | none => simp [hx] at h
  | some succs =>
    have hmem : x ∈ adj := AList.lookup_isSome.mp (by rw [hx]; rfl)
    exact AList.mem_keys.mp hmem

variable {rank : String → Nat}

/-- **Soundness.** A graph in which `detect_cycle` finds no cycle has none. -/
theorem detectCycle_acyclic (h : detectCycle rank adj = .finished color) : Acyclic (Edge adj) := by
  obtain ⟨hinv, hall⟩ := searchAll_inv (searchInv_initialColors adj) h
  intro x hcycle
  obtain ⟨y, hxy, -⟩ := TransGen.head'_iff.mp hcycle
  have hkey : x ∈ hashOrder rank adj.keys :=
    (hashOrder_perm rank adj.keys).mem_iff.mpr (mem_keys_of_edge hxy)
  -- neither white nor gray
  have hblack : color.get x = .black := by
    have hwhite := hall x (Or.inl hkey)
    have hgray : color.get x ≠ .gray := by simp [hinv.gray x]
    cases hx : color.get x with
    | white => exact absurd hx hwhite
    | gray => exact absurd hx hgray
    | black => rfl
  exact hinv.black.noCycle hblack hcycle

-- ---
-- Termination
-- ---

/-- The keys that are still white. -/
def whites (keys : List String) (color : Colors) : List String :=
  keys.filter fun k => color.get k = .white

variable {c : Color}

theorem whites_insert (keys : List String) (color : Colors) (k : String) (hc : c ≠ .white) :
    whites keys (color.insert k c) = (whites keys color).filter fun x => x ≠ k := by
  unfold whites
  rw [List.filter_filter]
  refine List.filter_congr fun x _ => ?_
  rw [Colors.get_insert]
  by_cases hx : x = k
  · simp [hx, hc]
  · simp [hx]

theorem length_whites_insert_le (keys : List String) (color : Colors) (k : String)
    (hc : c ≠ .white) : (whites keys (color.insert k c)).length ≤ (whites keys color).length := by
  rw [whites_insert keys color k hc]
  exact List.length_filter_le _ _

theorem length_whites_insert_lt {k : String} (hc : c ≠ .white) (hk : k ∈ keys)
    (hwhite : color.get k = .white) :
    (whites keys (color.insert k c)).length < (whites keys color).length := by
  rw [whites_insert keys color k hc]
  refine List.length_filter_lt_length_iff_exists.mpr ⟨k, ?_, by simp⟩
  simp [whites, hk, hwhite]

theorem mem_vertices_of_mem_keys (h : x ∈ adj.keys) : x ∈ vertices adj :=
  List.mem_append_left _ h

theorem mem_vertices_of_edge (h : Edge adj x y) : y ∈ vertices adj :=
  List.mem_append_right _ (List.mem_flatMap.mpr ⟨x, mem_keys_of_edge h, h⟩)

theorem search_ne_outOfFuel
    (hfuel : 2 * (whites (vertices adj) color).length + stack.length ≤ fuel) :
    search adj fuel color stack ≠ .outOfFuel := by
  induction fuel generalizing color stack with
  | zero =>
    cases stack with
    | nil => simp [search]
    | cons top rest => simp at hfuel
  | succ fuel ih =>
    rcases stack with _ | ⟨⟨node, path⟩, rest⟩
    · simp [search]
    · unfold search
      rcases hscan : scan color ((adj.lookup node).getD []) with next | next | _
      · have hnext := scan_advance hscan
        have hless := length_whites_insert_lt (c := .gray) (by decide)
          (mem_vertices_of_edge hnext.1) hnext.2
        refine ih ?_
        simp only [List.length_cons] at hfuel ⊢
        omega
      · simp
      · have hless := length_whites_insert_le (vertices adj) color node (c := .black) (by decide)
        refine ih ?_
        simp only [List.length_cons] at hfuel
        omega

/-- **Termination.** `detect_cycle` ends on every graph. -/
theorem detectCycle_ne_outOfFuel (rank : String → Nat) (adj : Adjacency) :
    detectCycle rank adj ≠ .outOfFuel := by
  have hall : ∀ (keys : List String) (color : Colors), (∀ k ∈ keys, k ∈ adj.keys) →
      searchAll adj (2 * (vertices adj).length) keys color ≠ .outOfFuel := by
    intro keys
    induction keys with
    | nil => simp [searchAll]
    | cons start keys ih =>
      intro color hkeys
      have hrest : ∀ k ∈ keys, k ∈ adj.keys := fun k hk => hkeys k (by simp [hk])
      unfold searchAll
      split
      · exact ih color hrest
      · rename_i hstart
        have hless := length_whites_insert_lt (c := .gray) (by decide)
          (mem_vertices_of_mem_keys (hkeys start (by simp))) (not_not.mp hstart)
        have hmost : (whites (vertices adj) color).length ≤ (vertices adj).length :=
          List.length_filter_le _ _
        have hsearch : search adj (2 * (vertices adj).length) (color.insert start .gray)
            [(start, [start])] ≠ .outOfFuel := by
          refine search_ne_outOfFuel ?_
          simp only [List.length_singleton]
          omega
        split
        · exact ih _ hrest
        · simp
        · exact absurd ‹_› hsearch
  exact hall _ _ fun k hk => (hashOrder_perm rank adj.keys).mem_iff.mp hk

-- ---
-- What a reported cycle shows
-- ---

theorem scan_cycle {succs : List String} {next : String} (h : scan color succs = .cycle next) :
    next ∈ succs ∧ color.get next = .gray := by
  induction succs with
  | nil => cases h
  | cons x rest ih =>
    unfold scan at h
    cases hx : color.get x with
    | white => simp [hx] at h
    | gray =>
      simp only [hx, Scan.cycle.injEq] at h
      exact ⟨by simp [h], h ▸ hx⟩
    | black =>
      simp only [hx] at h
      exact ⟨List.mem_cons_of_mem x (ih h).1, (ih h).2⟩

/-- Every entry of the stack carries the nodes below it and its own, from the
bottom up, and these are joined by edges. -/
def Traced (adj : Adjacency) : List (String × List String) → Prop
  | [] => True
  | (node, path) :: rest =>
    path = (node :: rest.map Prod.fst).reverse ∧ path.IsChain (Edge adj) ∧ Traced adj rest

theorem Traced.start (adj : Adjacency) (start : String) : Traced adj [(start, [start])] :=
  ⟨rfl, List.isChain_singleton start, trivial⟩

variable {rest : List (String × List String)}

theorem Traced.push {next : String} {path : List String} (h : Traced adj ((node, path) :: rest))
    (hedge : Edge adj node next) : Traced adj ((next, path ++ [next]) :: (node, path) :: rest) := by
  obtain ⟨hpath, hchain, hrest⟩ := h
  refine ⟨?_, ?_, hpath, hchain, hrest⟩
  · simp [hpath]
  · refine List.isChain_append.mpr ⟨hchain, List.isChain_singleton next, ?_⟩
    intro x hx y hy
    rw [hpath, List.getLast?_reverse] at hx
    simp only [List.head?_cons, Option.mem_some_iff] at hx hy
    subst hx hy
    exact hedge

theorem Traced.pop {top : String × List String} (h : Traced adj (top :: rest)) : Traced adj rest :=
  h.2.2

/-- A gray successor of the top of the stack closes a cycle: the path of the top
runs through it. -/
theorem Traced.isClosedWalk {next : String} {path : List String}
    (h : Traced adj ((node, path) :: rest)) (hedge : Edge adj node next)
    (hnext : next ∈ ((node, path) :: rest).map Prod.fst) :
    IsClosedWalk (Edge adj) (path.dropWhile (fun p => p ≠ next) ++ [next]) := by
  obtain ⟨hpath, hchain, -⟩ := h
  have hlast : path.getLast? = some node := by
    rw [hpath, List.getLast?_reverse]
    rfl
  have hmem : next ∈ path := by
    rw [hpath, List.mem_reverse]
    exact hnext
  exact .of_back_edge hchain hlast hedge hmem

theorem search_isClosedWalk (h : SearchInv adj color stack) (htraced : Traced adj stack)
    {c : List String} (hcycle : search adj fuel color stack = .cycle c) : IsClosedWalk (Edge adj) c := by
  induction fuel generalizing color stack with
  | zero =>
    cases stack with
    | nil => simp [search] at hcycle
    | cons top rest => simp [search] at hcycle
  | succ fuel ih =>
    rcases stack with _ | ⟨⟨node, path⟩, rest⟩
    · simp [search] at hcycle
    · unfold search at hcycle
      rcases hscan : scan color ((adj.lookup node).getD []) with next | next | _
      · have hnext := scan_advance hscan
        simp only [hscan] at hcycle
        exact ih (h.push hnext.2 _) (htraced.push hnext.1) hcycle
      · obtain ⟨hedge, hgray⟩ := scan_cycle hscan
        simp only [hscan, Search.cycle.injEq] at hcycle
        rw [← hcycle]
        exact htraced.isClosedWalk hedge ((h.gray next).mp hgray)
      · simp only [hscan] at hcycle
        exact ih (h.pop (scan_exhausted hscan)) htraced.pop hcycle

/-- **Completeness.** What `detect_cycle` reports is a cycle of the graph. -/
theorem detectCycle_isClosedWalk {c : List String} (h : detectCycle rank adj = .cycle c) :
    IsClosedWalk (Edge adj) c := by
  have hall : ∀ (fuel : Nat) (keys : List String) (color : Colors), SearchInv adj color [] →
      searchAll adj fuel keys color = .cycle c → IsClosedWalk (Edge adj) c := by
    intro fuel keys
    induction keys with
    | nil => simp [searchAll]
    | cons start keys ih =>
      intro color hinv hcycle
      unfold searchAll at hcycle
      split at hcycle
      · exact ih color hinv hcycle
      · rename_i hstart
        have hpush := hinv.push (not_not.mp hstart) [start]
        split at hcycle
        · rename_i color' hsearch
          exact ih color' (search_inv hpush hsearch) hcycle
        · rename_i c' hsearch
          obtain rfl : c' = c := by simpa using hcycle
          exact search_isClosedWalk hpush (Traced.start adj start) hsearch
        · simp at hcycle
  exact hall _ _ _ (searchInv_initialColors adj) h

theorem detectCycle_ne_cycle (rank : String → Nat) (hacyclic : Acyclic (Edge adj))
    (cycle : List String) : detectCycle rank adj ≠ .cycle cycle :=
  fun h => (detectCycle_isClosedWalk h).not_acyclic hacyclic

/-- **Cycle detection.** On every map, and in whatever order its keys are listed,
the search ends; it reports a cycle exactly when the graph of the map has one, and
what it reports is one: at least two nodes, the first the same as the last, each
joined to the next by an edge. -/
theorem detectCycle_decides (rank : String → Nat) (adj : Adjacency) :
    detectCycle rank adj ≠ .outOfFuel ∧
    ((∃ c, detectCycle rank adj = .cycle c) ↔ ∃ x, TransGen (Edge adj) x x) ∧
    ∀ c, detectCycle rank adj = .cycle c →
      2 ≤ c.length ∧ c.head? = c.getLast? ∧ c.IsChain (Edge adj) := by
  refine ⟨detectCycle_ne_outOfFuel rank adj, ⟨?_, ?_⟩, ?_⟩
  · rintro ⟨c, hc⟩
    have hnot := (detectCycle_isClosedWalk hc).not_acyclic
    unfold Acyclic at hnot
    push Not at hnot
    exact hnot
  · rintro ⟨x, hx⟩
    cases hdetect : detectCycle rank adj with
    | finished color => exact absurd hx (detectCycle_acyclic hdetect x)
    | cycle c => exact ⟨c, rfl⟩
    | outOfFuel => exact absurd hdetect (detectCycle_ne_outOfFuel rank adj)
  · intro c hc
    have hwalk := detectCycle_isClosedWalk hc
    exact ⟨hwalk.two_le, hwalk.ends, hwalk.chain⟩

-- the successor `B` is no key of the map
example : ∃ c, detectCycle String.length
    ((∅ : Adjacency).insert "A" ["B", "C"] |>.insert "CC" ["A"] |>.insert "C" ["CC"]) = .cycle c :=
  ⟨["C", "CC", "A", "C"], rfl⟩

end HiveClaw.Workflow
