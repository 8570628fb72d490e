import Marginalia.Text.Basic

/-!
# Paths

A path keeps its spelling: `a//b` and `a/./b` lead to one place and stay two texts. `Path.steps`
reads a path as a walk, step by step; `Path.components` leaves out the steps that lead nowhere,
and it is by its components that a path has a name, begins with another path, and stands in
order.
-/

namespace Marginalia

/-- A path, as it is spelled. -/
structure Path where
  text : Text
  deriving DecidableEq, Repr

/-- One step of a walk. -/
inductive Step
  /-- To the top of the tree. -/
  | root
  /-- To where the walk stands. -/
  | here
  /-- To the directory above. -/
  | parent
  /-- To an entry of this name. -/
  | name (n : Text)
  deriving DecidableEq, Repr

namespace Step

/-- The step that a piece between two slashes spells. -/
def ofPiece : Text → Step
  | [] => here
  | ['.'] => here
  | ['.', '.'] => parent
  | n => name n

/-- Whether a step comes before another, or is the same: first the steps without a name, then
the names by their characters. -/
def le : Step → Step → Bool
  | root, _ => true
  | _, root => false
  | here, _ => true
  | _, here => false
  | parent, _ => true
  | _, parent => false
  | name a, name b => a.le b

/-- The order of walks, by the first step in which they differ. -/
def listLe : List Step → List Step → Bool
  | [], _ => true
  | _ :: _, [] => false
  | a :: x, b :: y => if a = b then listLe x y else le a b

end Step

namespace Path

/-- The path of a string. -/
def ofString (s : String) : Path := ⟨s.toList⟩

/-- What stands between the slashes of a path. -/
def pieces (p : Path) : List Text :=
  if p.text = [] then [] else p.text.splitAt '/'

/-- The walk that a path describes. -/
def steps (p : Path) : List Step :=
  match p.pieces with
  | [] => []
  | [] :: r => .root :: r.map Step.ofPiece
  | a :: r => Step.ofPiece a :: r.map Step.ofPiece

/-- The walk without the steps that stay where they are; only a first one is kept. -/
def components (p : Path) : List Step :=
  match p.steps with
  | [] => []
  | s :: r => s :: r.filter (· ≠ .here)

/-- Whether a piece leads nowhere. -/
def isIdle (piece : Text) : Bool :=
  Step.ofPiece piece = .here

/-- The pieces from the last to the first, without the idle ones at the end. -/
def piecesFromEnd (p : Path) : List Text :=
  p.pieces.reverse.dropWhile isIdle

/-! ## Names -/

/-- The name that a path ends in. -/
def fileName (p : Path) : Option Text :=
  match p.piecesFromEnd with
  | [] => none
  | a :: _ =>
    match Step.ofPiece a with
    | .name n => some n
    | _ => none

/-- A name, cut at its last point into stem and extension. A point at the very start cuts
nothing. -/
def splitName (n : Text) : Text × Option Text :=
  match (n.splitAt '.').reverse with
  | [] | [_] => (n, none)
  | e :: before =>
    match Text.joinWith ['.'] before.reverse with
    | [] => (n, none)
    | stem => (stem, some e)

/-- What stands after the last point of the name that a path ends in. -/
def extension (p : Path) : Option Text :=
  p.fileName.bind fun n => (splitName n).2

/-- The path with `e` for the extension of its name, and without anything after it. A path whose
last step is no name stays as it is. -/
def putExtension (e : Text) (p : Path) : Path :=
  match p.fileName with
  | none => p
  | some n =>
    ⟨Text.joinWith ['/'] (((splitName n).1 ++ '.' :: e) :: p.piecesFromEnd.tail).reverse⟩

/-- The path with another extension. The old one is first cut off the end of the spelling, and
with it any slashes after the name; only of `..a` nothing is left then that has a name. -/
def withExtension (e : Text) (p : Path) : Path :=
  putExtension e
    ⟨match p.extension with
      | none => p.text
      | some old => p.text.take (p.text.length - old.length)⟩

/-- The path with a text after its last character. -/
def append (p : Path) (t : Text) : Path := ⟨p.text ++ t⟩

/-- The path of the entry `n` in the directory `p`. -/
def join (p : Path) (n : Text) : Path :=
  ⟨match p.text.getLast? with
    | none | some '/' => p.text ++ n
    | some _ => p.text ++ '/' :: n⟩

/-! ## Prefixes and order -/

/-- The pieces after the first `n` that lead somewhere, from the next such piece on. -/
def dropSteps : Nat → List Text → List Text
  | 0, ps => ps.dropWhile isIdle
  | n + 1, ps =>
    match ps.dropWhile isIdle with
    | [] => []
    | _ :: r => dropSteps n r

/-- The pieces without the idle ones at the end. -/
def trimIdle (ps : List Text) : List Text :=
  (ps.reverse.dropWhile isIdle).reverse

/-- The path without slashes and idle steps at its end. -/
def trimmed (p : Path) : Path :=
  match p.pieces with
  | [] => p
  | [] :: r => ⟨'/' :: Text.joinWith ['/'] (trimIdle r)⟩
  | a :: r => ⟨Text.joinWith ['/'] (a :: trimIdle r)⟩

/-- The end of a path after the components of `base`, spelled as in the path, without slashes at
its ends; `none` when the path does not begin with these components. -/
def relativeTo? (base p : Path) : Option Path :=
  if base.components.isPrefixOf p.components then
    match base.components.length with
    | 0 => some p.trimmed
    | n + 1 => some ⟨Text.joinWith ['/'] (trimIdle (dropSteps n p.pieces.tail))⟩
  else none

/-- Whether a path comes before another, or has the same components. -/
def le (a b : Path) : Bool :=
  Step.listLe a.components b.components

/-- Paths in order. -/
def sort (ps : List Path) : List Path :=
  ps.mergeSort le

end Path

end Marginalia
