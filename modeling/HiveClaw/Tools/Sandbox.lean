import HiveClaw.Lib.FileTree

/-!
# Where the file tools read and write

`crates/agent/src/tools/sandbox.rs`: `resolve_path` turns the path of a tool call into the one
that the tool opens, and refuses what is not under an allowed directory. It compares paths; what
the system makes of them is the business of `Lib.FileTree`.

* `resolvePath_confined` — what exists is opened inside, under a path of its own. What does not
  exist yet is written inside if its path has no `..` and passes no link.
-/

namespace HiveClaw.Tools.Sandbox

open Lib.FileTree

-- ---
-- Paths
-- ---

/-- One part of a path; an empty one stands for the directory itself. -/
def partOf (part : List Char) : PathPart String :=
  if part = [] ∨ part = ['.'] then .here
  else if part = ['.', '.'] then .up
  else .name (String.ofList part)

-- `PathBuf::from`
def parsePath (path : String) : TreePath String :=
  match path.toList with
  | [] => ⟨false, []⟩
  | '/' :: rest => ⟨true, (rest.splitOn '/').map partOf⟩
  | chars => ⟨false, (chars.splitOn '/').map partOf⟩

-- `Path::join`; the empty path puts a separator at the end
def join (base path : TreePath String) : TreePath String :=
  if path.absolute then path
  else ⟨base.absolute, base.parts ++ if path.parts.isEmpty then [.here] else path.parts⟩

/-- `Path::components`: a `.` counts only where a relative path begins with it. -/
def components (path : TreePath String) : List (PathPart String) :=
  match path.absolute, path.parts with
  | false, .here :: rest => .here :: rest.filter fun part => part ≠ .here
  | _, parts => parts.filter fun part => part ≠ .here

-- `Path::starts_with`
def startsWith (path base : TreePath String) : Bool :=
  path.absolute = base.absolute && (components base).isPrefixOf (components path)

/-- What the tools find: the tree, how many links the system follows for one path, the working
directory of the process, `dirs::home_dir` and `get_media_dir(None)`. -/
structure System where
  tree : NodeTree String
  links : Nat
  cwd : List String
  cwd_dir : tree.node cwd = some .dir
  homeDir : Option (TreePath String)
  mediaDir : TreePath String

namespace System

variable (sys : System)

/-- The place that a path leads to. -/
def resolve (path : TreePath String) : Option (List String) :=
  sys.tree.resolve sys.links sys.cwd path

/-- The place at which `write_file` writes a path, with `create_dir_all` before it. -/
def writeTarget (path : TreePath String) : Option (List String) :=
  sys.tree.writeTarget sys.links sys.cwd path

end System

-- ---
-- `resolve_path`
-- ---

-- `PathError`
inductive PathError where
  | outsideAllowed (path : String) (allowed : TreePath String)
deriving DecidableEq

/-- `canonicalize`: the path of the place, or the path as it is. -/
def canonicalize (sys : System) (path : TreePath String) : TreePath String :=
  match sys.resolve path with
  | some place => .ofPlace place
  | none => path

-- `is_under`
def isUnder (sys : System) (path dir : TreePath String) : Bool :=
  startsWith path (canonicalize sys dir)

-- `expand_user`
def expandUser (sys : System) (path : String) : TreePath String :=
  match path.toList, sys.homeDir with
  | '~' :: '/' :: rest, some home => join home (parsePath (String.ofList rest))
  | ['~'], some home => home
  | _, _ => parsePath path

/-- The path of a tool call as the system will see it. -/
def placed (sys : System) (path : String) (workspace : Option (TreePath String)) :
    TreePath String :=
  let p := expandUser sys path
  match workspace with
  | some ws => if p.absolute then p else join ws p
  | none => p

-- `resolve_path`
def resolvePath (sys : System) (path : String) (workspace allowedDir : Option (TreePath String))
    (extraAllowedDirs : List (TreePath String)) : Except PathError (TreePath String) :=
  let resolved := canonicalize sys (placed sys path workspace)
  match allowedDir with
  | none => .ok resolved
  | some allowed =>
    let all := canonicalize sys allowed :: canonicalize sys sys.mediaDir ::
      extraAllowedDirs.map (canonicalize sys)
    if all.any fun dir => isUnder sys resolved dir then .ok resolved
    else .error (.outsideAllowed path allowed)

-- ---
-- Inside
-- ---

/-- The place of a directory: where it leads, or, if it does not exist, where it is named. -/
def PlaceOf (sys : System) (dir : TreePath String) (place : List String) : Prop :=
  sys.resolve dir = some place ∨
    sys.resolve dir = none ∧ PathPart.up ∉ dir.parts ∧
      place = dir.start sys.cwd ++ namesOf dir.parts

/-- The place is one of the directories or lies below one. -/
def Inside (sys : System) (dirs : List (TreePath String)) (place : List String) : Prop :=
  ∃ dir ∈ dirs, ∃ root, PlaceOf sys dir root ∧ root <+: place

/-- The path names a place without `..`, and no link is passed on the way to it. -/
def Plain (sys : System) (path : TreePath String) : Prop :=
  PathPart.up ∉ path.parts ∧ sys.tree.NoLinks (path.start sys.cwd ++ namesOf path.parts)

section Components

variable {path base : TreePath String}

theorem namesOf_filter (parts : List (PathPart String)) :
    namesOf (parts.filter fun part => part ≠ .here) = namesOf parts := by
  induction parts with
  | nil => rfl
  | cons part rest ih => cases part <;> simp_all [namesOf]

theorem namesOf_components (path : TreePath String) :
    namesOf (components path) = namesOf path.parts := by
  unfold components
  split
  · next rest _ hparts => rw [hparts, namesOf_here, namesOf_here, namesOf_filter]
  · exact namesOf_filter _

theorem up_mem_components (path : TreePath String) :
    PathPart.up ∈ components path ↔ PathPart.up ∈ path.parts := by
  unfold components
  split
  · next rest _ hparts => simp [hparts]
  · simp

theorem startsWith_start {cwd : List String} (h : startsWith path base = true) :
    base.start cwd ++ namesOf base.parts <+: path.start cwd ++ namesOf path.parts := by
  obtain ⟨habs, hprefix⟩ := Bool.and_eq_true_iff.mp h
  have habs' : base.start cwd = path.start cwd := by
    unfold TreePath.start
    rw [of_decide_eq_true habs]
  obtain ⟨rest, hrest⟩ := List.isPrefixOf_iff_prefix.mp hprefix
  rw [habs', List.prefix_append_right_inj, ← namesOf_components, ← namesOf_components path, ← hrest,
    namesOf_append]
  exact List.prefix_append _ _

theorem startsWith_up (h : startsWith path base = true) (hup : PathPart.up ∉ path.parts) :
    PathPart.up ∉ base.parts := by
  obtain ⟨-, hprefix⟩ := Bool.and_eq_true_iff.mp h
  rw [← up_mem_components] at hup ⊢
  exact fun hmem => hup ((List.isPrefixOf_iff_prefix.mp hprefix).subset hmem)

end Components

section Canonical

variable (sys : System)

theorem real_of_resolve {path : TreePath String} {place : List String}
    (h : sys.resolve path = some place) : sys.tree.Real place :=
  NodeTree.real_resolve (Or.inl sys.cwd_dir) h

theorem resolve_ofPlace {place : List String} (h : sys.tree.Real place) :
    sys.resolve (.ofPlace place) = some place :=
  NodeTree.resolve_ofPlace sys.links sys.cwd h

theorem resolve_canonicalize (path : TreePath String) :
    sys.resolve (canonicalize sys path) = sys.resolve path := by
  unfold canonicalize
  split
  · next place h => rw [resolve_ofPlace sys (real_of_resolve sys h), h]
  · rfl

theorem canonicalize_canonicalize (path : TreePath String) :
    canonicalize sys (canonicalize sys path) = canonicalize sys path := by
  have h := resolve_canonicalize sys path
  unfold canonicalize at h ⊢
  rw [h]
  split
  · rfl
  · rfl

theorem inside_of_under {path dir : TreePath String} {dirs : List (TreePath String)}
    (hdir : dir ∈ dirs) (hup : PathPart.up ∉ path.parts)
    (h : startsWith path (canonicalize sys dir) = true) :
    Inside sys dirs (path.start sys.cwd ++ namesOf path.parts) := by
  have hprefix := @startsWith_start _ _ sys.cwd h
  cases hresolve : sys.resolve dir with
  | some root =>
    rw [canonicalize, hresolve] at hprefix
    have hroot :
        (TreePath.ofPlace root).start sys.cwd ++ namesOf (TreePath.ofPlace root).parts = root :=
      namesOf_map_name root
    exact ⟨dir, hdir, root, Or.inl hresolve, hroot ▸ hprefix⟩
  | none =>
    rw [canonicalize, hresolve] at h hprefix
    exact ⟨dir, hdir, _, Or.inr ⟨hresolve, startsWith_up h hup, rfl⟩, hprefix⟩

end Canonical

/-- **Confinement.** For every tree of directories, files and links: what `resolve_path` lets pass
and what exists lies inside an allowed directory, and its path is that of the place, so that two
calls that mean one file name it alike. It is written where it is. What does not exist is written
inside if the path is plain. -/
theorem resolvePath_confined {sys : System} {path : String} {workspace : Option (TreePath String)}
    {allowed p : TreePath String} {extra : List (TreePath String)}
    (h : resolvePath sys path workspace (some allowed) extra = .ok p) :
    (∀ place, sys.resolve p = some place →
      p = .ofPlace place ∧ Inside sys (allowed :: sys.mediaDir :: extra) place) ∧
      ∀ place, sys.writeTarget p = some place → (sys.resolve p).isSome ∨ Plain sys p →
        Inside sys (allowed :: sys.mediaDir :: extra) place := by
  unfold resolvePath at h
  dsimp only at h
  split at h
  case isFalse => cases h
  case isTrue hany =>
  cases h
  obtain ⟨dir, hdir, hunder⟩ : ∃ dir ∈ allowed :: sys.mediaDir :: extra,
      startsWith (canonicalize sys (placed sys path workspace)) (canonicalize sys dir) = true := by
    obtain ⟨dir', hmem, hunder⟩ := List.any_eq_true.mp hany
    rw [← List.map_cons, ← List.map_cons] at hmem
    obtain ⟨dir, hdir, rfl⟩ := List.mem_map.mp hmem
    rw [isUnder, canonicalize_canonicalize] at hunder
    exact ⟨dir, hdir, hunder⟩
  generalize placed sys path workspace = raw at *
  -- a path that leads to a place is the path of this place
  have hexists : ∀ place, sys.resolve (canonicalize sys raw) = some place →
      canonicalize sys raw = .ofPlace place := by
    intro place hplace
    rw [resolve_canonicalize] at hplace
    rw [canonicalize, hplace]
  have hinside : ∀ place, sys.resolve (canonicalize sys raw) = some place →
      Inside sys (allowed :: sys.mediaDir :: extra) place := by
    intro place hplace
    rw [hexists place hplace] at hunder
    have hin := inside_of_under sys hdir (up_notMem_map_name place) hunder
    have hnames :
        (TreePath.ofPlace place).start sys.cwd ++ namesOf (TreePath.ofPlace place).parts = place :=
      namesOf_map_name place
    rwa [hnames] at hin
  refine ⟨fun place hplace => ⟨hexists place hplace, hinside place hplace⟩, ?_⟩
  rintro place hwrite (hsome | ⟨hup, hlinks⟩)
  · obtain ⟨place', hplace⟩ := Option.isSome_iff_exists.mp hsome
    have hreal := real_of_resolve sys hplace
    rw [hexists place' hplace] at hwrite
    obtain rfl := NodeTree.writeTarget_ofPlace hreal hwrite
    exact hinside place hplace
  · obtain rfl := NodeTree.writeTarget_names hup hlinks hwrite
    exact inside_of_under sys hdir hup hunder

/-- A workspace with a file and a link to a directory outside. -/
def sampleNode : List String → Option (Node String)
  | [] => some .dir
  | ["ws"] => some .dir
  | ["ws", "notes"] => some .file
  | ["ws", "out"] => some (.link ⟨true, [.name "etc"]⟩)
  | ["etc"] => some .dir
  | ["etc", "hosts"] => some .file
  | _ => none

theorem sampleNode_parent (p : List String) (n : String) (h : (sampleNode (p ++ [n])).isSome) :
    sampleNode p = some .dir := by
  rcases p with _ | ⟨a, _ | ⟨b, rest⟩⟩
  · rfl
  · simp only [List.cons_append, List.nil_append] at h
    unfold sampleNode at h
    split at h <;> simp_all [sampleNode]
  · simp only [List.cons_append] at h
    unfold sampleNode at h
    split at h <;> simp_all

def sampleSystem : System where
  tree := ⟨sampleNode, rfl, sampleNode_parent⟩
  links := 40
  cwd := []
  cwd_dir := rfl
  homeDir := none
  mediaDir := ⟨true, [.name "media"]⟩

def workspace : TreePath String := ⟨true, [.name "ws"]⟩

/-- A file of the workspace, by a detour. -/
theorem resolvePath_confined_notes :
    resolvePath sampleSystem "./out/../ws//notes" (some workspace) (some workspace) [] =
        .ok (.ofPlace ["ws", "notes"]) ∧
      Inside sampleSystem [workspace, sampleSystem.mediaDir] ["ws", "notes"] := by
  have h : resolvePath sampleSystem "./out/../ws//notes" (some workspace) (some workspace) [] =
      .ok (.ofPlace ["ws", "notes"]) := by decide +kernel
  exact ⟨h, ((resolvePath_confined h).1 ["ws", "notes"] (by decide +kernel)).2⟩

-- a link that leads out is noticed, a path that climbs to what does not exist is not
example :
    resolvePath sampleSystem "out/hosts" (some workspace) (some workspace) [] =
        .error (.outsideAllowed "out/hosts" workspace) ∧
      (resolvePath sampleSystem "../evil" (some workspace) (some workspace) []).toOption.bind
        sampleSystem.writeTarget = some ["evil"] := by decide +kernel

end HiveClaw.Tools.Sandbox
