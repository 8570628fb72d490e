import Marginalia.FileTree.Place
import Marginalia.Filter

/-!
# Discovery

The source files under a root. A root that is a file is the only candidate; below a directory every
file is that a walk comes to, which keeps out of directories that hold no sources of the project.
How the walk goes is up to the `Walker`.
-/

namespace Marginalia

/-- Whether a directory of this name is passed over: hidden directories, caches, environments and
packages of others. -/
def isPassedOver (name : Text) : Bool :=
  name.head? = some '.' ||
    ["__pycache__", "venv", "node_modules"].any fun s => name = s.toList

/-- What a walk has come to. -/
structure Visit where
  path : Path
  /-- The number of steps down from the root of the walk. -/
  depth : Nat
  /-- Whether the path leads to a directory. -/
  isDirectory : Bool
  name : Text
  deriving DecidableEq, Repr

/-- Whether a search takes note of what it has come to, and goes on into it: all but the directories
that are passed over, and always the root. -/
def Visit.isEntered (v : Visit) : Bool :=
  v.depth == 0 || !v.isDirectory || !isPassedOver v.name

/-- A walk through a directory of a tree, which comes to the directory itself and to what is below
it. What the test refuses is left out, with everything below. -/
abbrev Walker := FileTree → Path → (Visit → Bool) → List Visit

namespace FileTree

/-- The selected files that a walk through a directory comes to. -/
def filesBelow (walk : Walker) (t : FileTree) (f : Filter) (root : Path) : List Path :=
  ((walk t root Visit.isEntered).map (·.path)).filter fun p => t.isFile p && f.selects p

/-- The selected files under a root, in order. -/
def discover (walk : Walker) (t : FileTree) (f : Filter) (root : Path) :
    Except Failure (List Path) :=
  if !t.reaches root then .error (.pathNotFound root)
  else if t.isFile root then .ok (if f.selects root then [root] else [])
  else .ok (Path.sort (filesBelow walk t f root))

end FileTree

end Marginalia
