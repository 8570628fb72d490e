import Marginalia.CommandLine
import Marginalia.FileTree.Commentary
import Marginalia.Report.Record
import Marginalia.Report.Table

/-!
# Runs of the program

What the program does to a tree of files for a list of arguments: the tree afterwards, the exit
status, and what is written to the two output streams. What it takes from elsewhere are its `Tools`.
A run fails, with status 1, when the path cannot be processed or a file of a batch cannot; with
status 2 it has not begun.
-/

namespace Marginalia

/-- What the program takes from elsewhere. -/
structure Tools where
  parse : Parser
  glob : PatternSyntax
  walk : Walker
  /-- How a heading is shown on the terminal. -/
  heading : Text → Text

/-- What a run ends with. -/
structure Outcome where
  status : Nat
  output : Text
  errors : Text
  deriving DecidableEq, Repr

namespace Outcome

/-- A run in which everything was processed. -/
def success (output : Text) : Outcome := ⟨0, output, []⟩

/-- A line on the error stream. -/
def errorLine (message : Text) : Text :=
  "Error: ".toList ++ message ++ ['\n']

/-- A run that nothing comes of. -/
def failure (message : Text) : Outcome := ⟨1, [], errorLine message⟩

/-- A run over a batch: each failure has its line on the error stream. -/
def ofBatch {α : Type} (b : Batch α) (output : Text) : Outcome :=
  ⟨if b.hasFailures then 1 else 0, output,
   b.failures.flatMap fun (p, e) => errorLine (p.text ++ ": ".toList ++ e.message)⟩

end Outcome

namespace Request

/-- A report in the format that is asked for. -/
def render (r : Request) (record : JsonValue) (table : Text) : Text :=
  match r.format with
  | .json => record.write ++ ['\n']
  | .table => table

/-- Count the commentary. -/
def count (tools : Tools) (r : Request) (t : FileTree) : Outcome :=
  if t.isFile r.path then
    match t.analyze tools.parse r.path with
    | .ok report =>
      .success (r.render (Record.file report) (Table.file tools.heading report r.path.text))
    | .error e => .failure ("cannot analyze ".toList ++ r.path.text ++ ": ".toList ++ e.chain)
  else
    match Filter.ofPatterns tools.glob r.included r.excluded with
    | .error e => .failure e.chain
    | .ok f =>
      match t.analyzeAll tools.parse tools.walk f r.path with
      | .error e => .failure e.chain
      | .ok b =>
        .ofBatch b (r.render (Record.batch Record.file b) (Table.batch tools.heading b r.path))

/-- Remove the commentary. -/
def removeCommentary (tools : Tools) (r : Request) (t : FileTree) : FileTree × Outcome :=
  if t.isFile r.path then
    match t.strip tools.parse r.backup r.path with
    | (t', .ok report) =>
      (t', .success (r.render (Record.strip report) (Table.strip report r.path.text)))
    | (t', .error e) =>
      (t', .failure
        ("cannot remove commentary from ".toList ++ r.path.text ++ ": ".toList ++ e.chain))
  else
    match Filter.ofPatterns tools.glob r.included r.excluded with
    | .error e => (t, .failure e.chain)
    | .ok f =>
      match t.stripAll tools.parse tools.walk f r.backup r.path with
      | (t', .error e) => (t', .failure e.chain)
      | (t', .ok b) =>
        (t', .ofBatch b
          (r.render (Record.batch Record.strip b) (Table.stripBatch tools.heading b r.path)))

/-- Do what is asked for. -/
def run (tools : Tools) (r : Request) (t : FileTree) : FileTree × Outcome :=
  if r.remove then r.removeCommentary tools t else (t, r.count tools t)

end Request

/-- The line that tells the version. -/
def versionLine : Text := "pynotes 0.3.0\n".toList

/-- How the program is called. -/
def usage : Text :=
  "Usage: pynotes [OPTIONS] [path]\n".toList

/-- The lines of the help text after the usage. -/
def optionHelp : List String :=
  ["",
   "Arguments:",
   "  [path]  File or directory to process (defaults to current directory) [default: .]",
   "",
   "Options:",
   "  -c, --count              Count commentary (default)",
   "  -r, --remove             Remove commentary in place, writing a backup first",
   "  -o, --output <output>    Output format [default: table] [possible values: table, json]",
   "  -i, --include <include>  Include files matching glob pattern",
   "  -e, --exclude <exclude>  Exclude files matching glob pattern",
   "      --backup <backup>    Backup naming: replace <file>.py.bak or keep numbered copies " ++
     "[default: overwrite] [possible values: overwrite, numbered]",
   "  -v, --verbose            Log classification decisions to stderr",
   "  -q, --quiet              Only log errors",
   "  -h, --help               Print help",
   "  -V, --version            Print version"]

/-- The help text. -/
def helpText : Text :=
  "Count or remove comments and docstrings in a .py file or a directory of .py files\n\n".toList ++
    usage ++ optionHelp.flatMap fun line => line.toList ++ ['\n']

/-- What ends a run before it begins. -/
def Stop.outcome : Stop → Outcome
  | misuse => ⟨2, [], usage⟩
  | version => .success versionLine
  | help => .success helpText

/-- A run of the program. -/
def runProgram (tools : Tools) (t : FileTree) (args : List Text) : FileTree × Outcome :=
  match Request.ofArguments args with
  | .error e => (t, e.outcome)
  | .ok r => r.run tools t

end Marginalia
