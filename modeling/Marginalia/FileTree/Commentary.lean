import Marginalia.Backup
import Marginalia.Discovery
import Marginalia.FileTree.Access
import Marginalia.Report

/-!
# Commentary in files

The analysis of a source and the removal of its commentary, for the files of a tree. A file is
changed only after its copy is written, and only if there is something to change. In a batch the
failure of one file does not keep the others from being processed.

Both take the parser that the docstrings are found with, and a batch the walk that finds its files.
-/

namespace Marginalia

namespace FileTree

/-- The text of the source file that a path leads to. -/
def source (t : FileTree) (p : Path) : Except Failure Text :=
  if !t.reaches p then .error (.pathNotFound p)
  else if !p.isPython then .error (.notPython p)
  else
    match t.read p with
    | .error e => .error (.read p e)
    | .ok bytes => (Utf8.decode bytes).mapError (.decode p)

/-- The report on one file. -/
def analyze (parse : Parser) (t : FileTree) (p : Path) : Except Failure FileReport :=
  (t.source p).map fun text => (Marginalia.analyze parse text).report p

/-- Remove the commentary from one file; the tree after that, and the report. -/
def strip (parse : Parser) (t : FileTree) (mode : BackupMode) (p : Path) :
    FileTree × Except Failure StripReport :=
  match t.source p with
  | .error e => (t, .error e)
  | .ok text =>
    let stripped := Marginalia.strip parse text
    let copyPath := t.backupPath mode p
    let report : StripReport := ⟨p, stripped.removed, stripped.total, copyPath⟩
    match t.copy p copyPath with
    | .error e => (t, .error (.backup p copyPath e))
    | .ok copied =>
      if stripped.content = text then (copied, .ok report)
      else
        match copied.write p (Utf8.encode stripped.content) with
        | .error e => (copied, .error (.write p e))
        | .ok written => (written, .ok report)

/-- The reports on the selected files under a root. -/
def analyzeAll (parse : Parser) (walk : Walker) (t : FileTree) (f : Filter) (root : Path) :
    Except Failure (Batch FileReport) :=
  (t.discover walk f root).map fun ps =>
    ps.foldl (fun b p => b.add p (t.analyze parse p)) Batch.empty

/-- Remove the commentary from files, one after the other. -/
def stripEach (parse : Parser) (mode : BackupMode) (ps : List Path) (t : FileTree) :
    FileTree × Batch StripReport :=
  ps.foldl (fun (t, b) p => let (t', r) := t.strip parse mode p; (t', b.add p r)) (t, Batch.empty)

/-- Remove the commentary from the selected files under a root. -/
def stripAll (parse : Parser) (walk : Walker) (t : FileTree) (f : Filter) (mode : BackupMode)
    (root : Path) : FileTree × Except Failure (Batch StripReport) :=
  match t.discover walk f root with
  | .error e => (t, .error e)
  | .ok ps => let (t', b) := stripEach parse mode ps t; (t', .ok b)

end FileTree

end Marginalia
