import Marginalia.CommandLine.Tools

/-!
# The program

A run of the program on real files. The path argument is read as a file if it is one. Otherwise
the files to consider are named on standard input, one path a line, as a search for files prints
them. They are put into a tree, the run works on the tree, and the files that it changed or made
are written.
-/

namespace Marginalia

/-- The bytes of a file, if it can be read. -/
def readBytes? (path : Path) : IO (Option Bytes) :=
  try
    return some (← IO.FS.readBinFile (String.ofList path.text)).toList
  catch _ => return none

/-- The paths on standard input. -/
partial def readPathLines (stdin : IO.FS.Stream) (paths : List Path) : IO (List Path) := do
  let line ← stdin.getLine
  if line.isEmpty then return paths.reverse
  readPathLines stdin (⟨line.toList.filter (· ≠ '\n')⟩ :: paths)

/-- The paths of the files that a request may be about. -/
def pathsFor (request : Request) : IO (List Path) := do
  if (← readBytes? request.path).isSome then return [request.path]
  readPathLines (← IO.getStdin) []

/-- The tree with the earlier copies of a file, so that a numbered copy finds its number. -/
partial def loadBackups (t : FileTree) (path : Path) : IO FileTree := do
  let next := t.backupPath .numbered path
  match ← readBytes? next with
  | some bytes =>
    let t := t.place next (.file bytes)
    if t.reaches next then loadBackups t path else return t
  | none => return t

/-- The tree of the files at these paths, as far as they can be read, with their copies. -/
def loadTree (paths : List Path) : IO FileTree :=
  paths.foldlM
    (fun t path => do
      match ← readBytes? path with
      | some bytes => loadBackups (t.place path (.file bytes)) path
      | none => return t)
    FileTree.workspace

/-- Write the files at these paths, and their copies, that a run has changed or made. -/
def storeTree (before after : FileTree) (paths : List Path) : IO Unit := do
  for path in paths.flatMap fun p => [p.backup, before.backupPath .numbered p, p] do
    match after.read path with
    | .ok content =>
      if (before.read path).toOption ≠ some content then
        IO.FS.writeBinFile (String.ofList path.text) (ByteArray.mk content.toArray)
    | .error _ => pure ()

end Marginalia

open Marginalia

/-- The program: it leaves its exit status. -/
def main (arguments : List String) : IO UInt32 := do
  let arguments := arguments.map String.toList
  let paths ←
    match Request.ofArguments arguments with
    | .error _ => pure []
    | .ok request => pathsFor request
  let before ← loadTree paths
  let (after, outcome) := runProgram .own before arguments
  storeTree before after paths
  IO.print (String.ofList outcome.output)
  IO.eprint (String.ofList outcome.errors)
  return UInt32.ofNat outcome.status
