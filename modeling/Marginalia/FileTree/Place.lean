import Marginalia.Failure
import Marginalia.FileTree

/-!
# Where a path leads

A walk starts in the working directory and takes the steps of its path. A step needs a directory
to be taken in. At a link the steps of the link's target come before the steps still to take, and
a walk may come to forty links at most. `advance` walks up to the next link, `follow` goes on
from there: without links, the two are one.
-/

namespace Marginalia

/-- Where a walk ends. -/
inductive Place
  /-- At an entry. -/
  | taken (l : Location)
  /-- In a directory, before a last name that it does not hold. -/
  | free (l : Location)
  deriving DecidableEq, Repr

/-- Why a walk stops. -/
inductive Halt
  /-- All steps are taken. -/
  | done (p : Place)
  /-- At a link in the directory `dir`, with the steps `rest` still to take after it. -/
  | link (dir : Location) (target : Path) (rest : List Step)
  deriving DecidableEq, Repr

namespace FileTree

/-- The walk from a location to the next link. -/
def advance (t : FileTree) : Location → List Step → Except AccessError Halt
  | l, [] => .ok (.done (.taken l))
  | _, .root :: r => t.advance [] r
  | l, .here :: r => if t.isDirectoryAt l then t.advance l r else .error .notADirectory
  | l, .parent :: r => if t.isDirectoryAt l then t.advance l.tail r else .error .notADirectory
  | l, .name n :: r =>
    if t.isDirectoryAt l then
      match t.get? (n :: l) with
      | some (.link target) => .ok (.link l target r)
      | some _ => t.advance (n :: l) r
      | none => if r = [] then .ok (.done (.free (n :: l))) else .error .notFound
    else .error .notADirectory

/-- The walk from a location on, through as many links as are given. -/
def follow (t : FileTree) (links : Nat) (l : Location) (steps : List Step) :
    Except AccessError Place :=
  match t.advance l steps with
  | .error e => .error e
  | .ok (.done p) => .ok p
  | .ok (.link dir target rest) =>
    match links with
    | 0 => .error .tooManyLinks
    | k + 1 => t.follow k dir (target.steps ++ rest)

/-- The number of links that a walk may come to. -/
def maxLinks : Nat := 40

/-- Where a path leads. The empty path leads nowhere. -/
def locate (t : FileTree) (p : Path) : Except AccessError Place :=
  if p.text = [] then .error .notFound else t.follow maxLinks t.working p.steps

/-- The location that a path leads to, if there is an entry. -/
def find? (t : FileTree) (p : Path) : Option Location :=
  match t.locate p with
  | .ok (.taken l) => some l
  | _ => none

/-- The directory that a path leads to. -/
def directory? (t : FileTree) (p : Path) : Option Location :=
  (t.find? p).filter t.isDirectoryAt

/-- Whether a path leads to an entry. -/
def reaches (t : FileTree) (p : Path) : Bool :=
  (t.find? p).isSome

/-- Whether a location is a file. -/
def isFileAt (t : FileTree) (l : Location) : Bool :=
  match t.get? l with
  | some (.file _) => true
  | _ => false

/-- Whether a path leads to a file. -/
def isFile (t : FileTree) (p : Path) : Bool :=
  (t.find? p).any t.isFileAt

end FileTree

end Marginalia
