import Marginalia.FileTree.Place

/-!
# Reading and writing

The operations on files. Writing opens a file first, which empties it, and only then writes; so
to copy a file onto itself leaves it empty. What cannot be opened is left as it is.
-/

namespace Marginalia

namespace FileTree

/-- The bytes at a location; without a file there, none. -/
def contentAt (t : FileTree) (l : Location) : Bytes :=
  match t.get? l with
  | some (.file content) => content
  | _ => []

/-- The location of the file that a path leads to. -/
def fileFor (t : FileTree) (p : Path) : Except AccessError Location :=
  match t.locate p with
  | .error e => .error e
  | .ok (.free _) => .error .notFound
  | .ok (.taken l) => if t.isDirectoryAt l then .error .isADirectory else .ok l

/-- The bytes of the file that a path leads to. -/
def read (t : FileTree) (p : Path) : Except AccessError Bytes :=
  (t.fileFor p).map t.contentAt

/-- The number of bytes that a name may have. -/
def maxNameSize : Nat := 255

/-- The location of the file that a path leads to, or of the one to make there. -/
def fileToWrite (t : FileTree) (p : Path) : Except AccessError Location :=
  match t.locate p with
  | .error e => .error e
  | .ok (.taken l) => if t.isDirectoryAt l then .error .isADirectory else .ok l
  | .ok (.free l) => if maxNameSize < Utf8.size (l.headD []) then .error .nameTooLong else .ok l

/-- The tree with other bytes in the file that a path leads to. -/
def write (t : FileTree) (p : Path) (content : Bytes) : Except AccessError FileTree :=
  (t.fileToWrite p).map fun l => t.set l (.file content)

/-- The tree with a copy of one file in another. -/
def copy (t : FileTree) (source target : Path) : Except AccessError FileTree := do
  let l ← t.fileFor source
  let k ← t.fileToWrite target
  let opened := t.set k (.file [])
  return opened.set k (.file (opened.contentAt l))

/-! ## Building a tree -/

/-- Take one step, and make a directory where there is nothing. -/
def descend (t : FileTree) (l : Location) (s : Step) : FileTree × Location :=
  match t.follow maxLinks l [s] with
  | .ok (.taken k) => (t, k)
  | .ok (.free k) => (t.set k .directory, k)
  | .error _ => (t, l)

/-- The tree with an entry at a path, and with the directories that it needs. A file goes where
links lead. -/
def place (t : FileTree) (p : Path) (e : Entry) : FileTree :=
  match p.components.reverse with
  | [] => t
  | last :: above =>
    let (t, l) := above.reverse.foldl (fun (t, l) s => t.descend l s) (t, t.working)
    match e, last with
    | .directory, s => (t.descend l s).1
    | .link target, .name n => t.set (n :: l) (.link target)
    | .file content, s =>
      match t.follow maxLinks l [s] with
      | .ok (.taken k) | .ok (.free k) => t.set k (.file content)
      | .error _ => t
    | .link _, _ => t

end FileTree

end Marginalia
