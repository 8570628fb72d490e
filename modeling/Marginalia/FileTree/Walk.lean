import Marginalia.Discovery

/-!
# A walk through a tree

Links are followed, but not to a directory that the way there has come through: a link back up would
never end. What a link does not lead to is left out.
-/

namespace Marginalia

namespace FileTree

/-- Whether a walk that came through the directories `above` may go on into the entry `e`, to which
`p` leads. -/
def opens (t : FileTree) (above : List Location) (p : Path) : Entry → Bool
  | .file _ => false
  | .directory => true
  | .link _ => (t.directory? p).any fun l => !above.contains l

/-- What a walk comes to below the directory `p`, which is `depth` steps down from its root and to
which the way came through the directories `above`; it goes down `levels` levels at most. -/
def visitsBelow (t : FileTree) (enters : Visit → Bool) :
    (levels : Nat) → List Location → Nat → Path → List Visit
  | 0, _, _, _ => []
  | levels + 1, above, depth, p =>
    match t.directory? p with
    | none => []
    | some l =>
      (t.children l).flatMap fun (n, e) =>
        let q := p.join n
        if t.isFile q then
          let v : Visit := ⟨q, depth + 1, false, n⟩
          if enters v then [v] else []
        else if t.opens (l :: above) q e then
          let v : Visit := ⟨q, depth + 1, true, n⟩
          if enters v then v :: t.visitsBelow enters levels (l :: above) (depth + 1) q else []
        else []

/-- More levels than a walk goes down: between two links it goes down at most as many levels as
there are entries, and it follows no two links to one directory. -/
def maxDepth (t : FileTree) : Nat :=
  (t.entries.length + 1) * (t.entries.length + 1)

/-- The walk that the program goes. -/
def walk : Walker := fun t root enters =>
  let v : Visit := ⟨root, 0, (t.directory? root).isSome, root.fileName.getD root.text⟩
  if enters v then v :: t.visitsBelow enters t.maxDepth [] 0 root else []

end FileTree

end Marginalia
