import Mathlib.Data.List.Basic
import Mathlib.Data.List.Induction

/-!
# Places and paths

The names of a file system form a tree. A place is the list of names from the root to it, and
holds a directory, a file or a symbolic link. A path is looked up part by part from a place; a
link is followed where it stands, so that what a path names and where it leads are different
things.

* `real_walk` — a lookup ends at a real place: there is no link at it or above it.
* `walk_names` — the names of a real place lead to it.
* `ensureDirs_names`, `openCreate_name` — where a file is written that does not exist yet.
-/

namespace Lib.FileTree

variable {ν : Type}

/-- A part of a path: `.`, `..` or a name. -/
inductive PathPart (ν : Type) where
  | here
  | up
  | name (n : ν)
deriving DecidableEq

structure TreePath (ν : Type) where
  absolute : Bool
  parts : List (PathPart ν)
deriving DecidableEq

inductive Node (ν : Type) where
  | dir
  | file
  | link (target : TreePath ν)

/-- Everything stands in a directory. -/
structure NodeTree (ν : Type) where
  node : List ν → Option (Node ν)
  root : node [] = some .dir
  parent : ∀ p n, (node (p ++ [n])).isSome → node p = some .dir

/-- The path of a place. -/
def TreePath.ofPlace (p : List ν) : TreePath ν := ⟨true, p.map .name⟩

/-- The place at which the lookup of a path begins. -/
def TreePath.start (cwd : List ν) (path : TreePath ν) : List ν := if path.absolute then [] else cwd

/-- The names in a path. -/
def namesOf (parts : List (PathPart ν)) : List ν :=
  parts.filterMap fun
    | .name n => some n
    | _ => none

@[simp] theorem namesOf_nil : namesOf ([] : List (PathPart ν)) = [] := rfl

@[simp] theorem namesOf_here (parts : List (PathPart ν)) :
    namesOf (.here :: parts) = namesOf parts := rfl

@[simp] theorem namesOf_name (n : ν) (parts : List (PathPart ν)) :
    namesOf (.name n :: parts) = n :: namesOf parts := rfl

theorem namesOf_append (xs ys : List (PathPart ν)) :
    namesOf (xs ++ ys) = namesOf xs ++ namesOf ys :=
  List.filterMap_append

theorem namesOf_map_name (ns : List ν) : namesOf (ns.map .name) = ns := by
  induction ns with
  | nil => rfl
  | cons n ns ih => rw [List.map_cons, namesOf_name, ih]

theorem up_notMem_map_name (ns : List ν) : PathPart.up ∉ ns.map PathPart.name := by simp

namespace NodeTree

variable (t : NodeTree ν)

def isDir (p : List ν) : Bool :=
  match t.node p with
  | some .dir => true
  | _ => false

/-- A directory or a file. -/
def Real (p : List ν) : Prop := t.node p = some .dir ∨ t.node p = some .file

/-- There is no link on the way to the place, from the root on. -/
def NoLinks (p : List ν) : Prop := ∀ q, q <+: p → ∀ target, t.node q ≠ some (.link target)

-- ---
-- Lookup
-- ---

/-- A lookup in which `follow` goes on where a link leads. -/
def walkParts (follow : List ν → List (PathPart ν) → Option (List ν)) :
    List ν → List (PathPart ν) → Option (List ν)
  | p, [] => some p
  | p, .here :: rest => if t.isDir p then walkParts follow p rest else none
  | p, .up :: rest => if t.isDir p then walkParts follow p.dropLast rest else none
  | p, .name n :: rest =>
    match t.node (p ++ [n]) with
    | none => none
    | some (.link target) => follow (target.start p) (target.parts ++ rest)
    | some _ => walkParts follow (p ++ [n]) rest

/-- A lookup over at most so many links. -/
def walk : Nat → List ν → List (PathPart ν) → Option (List ν)
  | 0 => t.walkParts fun _ _ => none
  | links + 1 => t.walkParts (walk links)

/-- Where a path leads; the empty path leads nowhere. -/
def resolve (links : Nat) (cwd : List ν) (path : TreePath ν) : Option (List ν) :=
  if path.absolute = false ∧ path.parts.isEmpty then none
  else t.walk links (path.start cwd) path.parts

variable {t}

variable {p q : List ν}

/-- Above a place there are directories. -/
theorem node_above (h : (t.node (p ++ q)).isSome) (hq : q ≠ []) : t.node p = some .dir := by
  induction q using List.reverseRecOn with
  | nil => exact absurd rfl hq
  | append_singleton q n ih =>
    rw [← List.append_assoc] at h
    have hdir := t.parent (p ++ q) n h
    by_cases hnil : q = []
    · rwa [hnil, List.append_nil] at hdir
    · exact ih (by rw [hdir]; rfl) hnil

theorem Real.isSome (h : t.Real p) : (t.node p).isSome := by
  rcases h with h | h
  · rw [h]; rfl
  · rw [h]; rfl

theorem Real.not_link (h : t.Real p) (target : TreePath ν) : t.node p ≠ some (.link target) := by
  intro hlink
  rcases h with h | h
  · rw [h] at hlink; cases hlink
  · rw [h] at hlink; cases hlink

theorem Real.above (h : t.Real (p ++ q)) : t.Real p := by
  by_cases hq : q = []
  · rwa [hq, List.append_nil] at h
  · exact Or.inl (node_above h.isSome hq)

/-- The way to a real place has no links. -/
theorem Real.noLinks (h : t.Real p) : t.NoLinks p := by
  rintro q ⟨r, rfl⟩
  exact h.above.not_link

theorem Real.dropLast (h : t.Real p) : t.Real p.dropLast := by
  rcases List.eq_nil_or_concat p with rfl | ⟨q, n, rfl⟩
  · exact h
  · rw [List.concat_eq_append, List.dropLast_concat] at *
    exact h.above

variable {parts : List (PathPart ν)}

theorem real_walkParts {follow : List ν → List (PathPart ν) → Option (List ν)}
    (hfollow : ∀ p parts q, t.Real p → follow p parts = some q → t.Real q) (hp : t.Real p)
    (h : t.walkParts follow p parts = some q) : t.Real q := by
  induction parts generalizing p with
  | nil =>
    cases h
    exact hp
  | cons part rest ih =>
    cases part with
    | here =>
      rw [walkParts] at h
      split at h
      · exact ih hp h
      · cases h
    | up =>
      rw [walkParts] at h
      split at h
      · exact ih hp.dropLast h
      · cases h
    | name n =>
      rw [walkParts] at h
      split at h
      · cases h
      · next target hlink =>
        refine hfollow _ _ _ ?_ h
        unfold TreePath.start
        split
        · exact Or.inl t.root
        · exact hp
      · next node hlink hnode =>
        refine ih ?_ h
        cases node with
        | dir => exact Or.inl hnode
        | file => exact Or.inr hnode
        | link target => exact absurd rfl (hlink target)

variable {links : Nat}

/-- **Lookups.** A lookup that begins at a real place ends at one. -/
theorem real_walk (hp : t.Real p) (h : t.walk links p parts = some q) : t.Real q := by
  induction links generalizing p q parts with
  | zero => exact real_walkParts (fun _ _ _ _ hnone => by cases hnone) hp h
  | succ links ih => exact real_walkParts (fun _ _ _ hp hq => ih hp hq) hp h

variable {ns : List ν}

theorem walkParts_names (follow : List ν → List (PathPart ν) → Option (List ν))
    (h : t.Real (p ++ ns)) : t.walkParts follow p (ns.map .name) = some (p ++ ns) := by
  induction ns generalizing p with
  | nil => simp [walkParts]
  | cons n ns ih =>
    have hsplit : p ++ n :: ns = (p ++ [n]) ++ ns := by simp
    rw [hsplit] at h ⊢
    rw [List.map_cons, walkParts]
    split
    · next hnone =>
      have hsome := h.above.isSome
      rw [hnone] at hsome
      cases hsome
    · next target hlink => exact absurd hlink (h.above.not_link target)
    · exact ih h

/-- The names of a real place lead to it. -/
theorem walk_names (links : Nat) (h : t.Real (p ++ ns)) :
    t.walk links p (ns.map .name) = some (p ++ ns) := by
  cases links with
  | zero => exact walkParts_names _ h
  | succ links => exact walkParts_names _ h

theorem resolve_ofPlace (links : Nat) (cwd : List ν) (h : t.Real p) :
    t.resolve links cwd (.ofPlace p) = some p := by
  unfold resolve
  rw [if_neg (fun hrel => absurd hrel.1 (by simp [TreePath.ofPlace]))]
  exact walk_names links h

variable {cwd : List ν}

theorem real_resolve (hcwd : t.Real cwd) {path : TreePath ν}
    (h : t.resolve links cwd path = some q) : t.Real q := by
  unfold resolve at h
  split at h
  · cases h
  · refine real_walk ?_ h
    unfold TreePath.start
    split
    · exact Or.inl t.root
    · exact hcwd

-- ---
-- Writing
-- ---

variable (t)

/-- The place of a directory that is created if it is missing, with all above it. -/
def ensureDirs (links : Nat) : List ν → List (PathPart ν) → Option (List ν)
  | p, [] => some p
  | p, .here :: rest => ensureDirs links p rest
  | p, .up :: rest => ensureDirs links p.dropLast rest
  | p, .name n :: rest =>
    match t.node (p ++ [n]) with
    | some .file => none
    | some (.link target) =>
      match t.walk links (target.start p) target.parts with
      | some q => if t.isDir q then ensureDirs links q rest else none
      | none => none
    | _ => ensureDirs links (p ++ [n]) rest

/-- The place of a file that is opened to be written, in the directory `p`. A link to a file that
is missing makes the file appear where the link leads. -/
def openCreate : Nat → List ν → ν → Option (List ν)
  | links, p, n =>
    match t.node (p ++ [n]) with
    | some .dir => none
    | some (.link target) =>
      match links, target.parts.getLast? with
      | links + 1, some (.name m) =>
        match t.walk links (target.start p) target.parts.dropLast with
        | some q => if t.isDir q then openCreate links q m else none
        | none => none
      | _, _ => none
    | _ => some (p ++ [n])

/-- Where a path is written, with the directories above it. -/
def writeTarget (links : Nat) (cwd : List ν) (path : TreePath ν) : Option (List ν) :=
  match path.parts.getLast? with
  | some (.name n) =>
    match t.ensureDirs links (path.start cwd) path.parts.dropLast with
    | some p => t.openCreate links p n
    | none => none
  | _ => none

variable {t}

/-- Without links and without `..` directories are where the path names them. -/
theorem ensureDirs_names (hup : PathPart.up ∉ parts) (hlinks : t.NoLinks (p ++ namesOf parts))
    (h : t.ensureDirs links p parts = some q) : q = p ++ namesOf parts := by
  induction parts generalizing p with
  | nil =>
    cases h
    simp
  | cons part rest ih =>
    rw [List.mem_cons, not_or] at hup
    cases part with
    | here => exact ih hup.2 hlinks h
    | up => exact absurd rfl hup.1
    | name n =>
      have hsplit : p ++ namesOf (.name n :: rest) = (p ++ [n]) ++ namesOf rest := by simp
      rw [hsplit] at hlinks ⊢
      rw [ensureDirs] at h
      split at h
      · cases h
      · next target hlink => exact absurd hlink (hlinks _ (List.prefix_append _ _) target)
      · exact ih hup.2 hlinks h

theorem openCreate_name {n : ν} (hlinks : t.NoLinks (p ++ [n]))
    (h : t.openCreate links p n = some q) : q = p ++ [n] := by
  unfold openCreate at h
  split at h
  · cases h
  · next target hlink => exact absurd hlink (hlinks _ List.prefix_rfl target)
  · cases h
    rfl

/-- **Writes.** Without links and without `..` a file is written where the path names it. -/
theorem writeTarget_names {path : TreePath ν} (hup : PathPart.up ∉ path.parts)
    (hlinks : t.NoLinks (path.start cwd ++ namesOf path.parts))
    (h : t.writeTarget links cwd path = some q) : q = path.start cwd ++ namesOf path.parts := by
  unfold writeTarget at h
  split at h
  · next n hlast =>
    split at h
    · next p hdirs =>
      have hparts : path.parts = path.parts.dropLast ++ [.name n] :=
        (List.dropLast_append_getLast? _ hlast).symm
      have hnames : path.start cwd ++ namesOf path.parts =
          (path.start cwd ++ namesOf path.parts.dropLast) ++ [n] := by
        conv_lhs => rw [hparts, namesOf_append, ← List.append_assoc]
        rfl
      rw [hnames] at hlinks ⊢
      have hup' : PathPart.up ∉ path.parts.dropLast := fun hmem => hup (List.dropLast_subset _ hmem)
      have hlinks' : t.NoLinks (path.start cwd ++ namesOf path.parts.dropLast) :=
        fun r hr => hlinks r (hr.trans (List.prefix_append _ _))
      obtain rfl := ensureDirs_names hup' hlinks' hdirs
      exact openCreate_name hlinks h
    · cases h
  · cases h

/-- A file that exists is written where it is. -/
theorem writeTarget_ofPlace (hp : t.Real p) (h : t.writeTarget links cwd (.ofPlace p) = some q) :
    q = p := by
  have hnames : (TreePath.ofPlace p).start cwd ++ namesOf (TreePath.ofPlace p).parts = p :=
    namesOf_map_name p
  have hq := writeTarget_names (up_notMem_map_name p) (hnames.symm ▸ hp.noLinks) h
  rwa [hnames] at hq

end NodeTree

end Lib.FileTree
