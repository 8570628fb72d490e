import Marginalia.JsonValue
import Marginalia.Report

/-!
# Reports as records

Reports as JSON values, for other programs.
-/

namespace Marginalia

namespace Record

/-- An object with named members. -/
def record (members : List (String × JsonValue)) : JsonValue :=
  .object (members.map fun (key, j) => (key.toList, j))

/-- A percentage in two decimals. -/
def share (p : Float) : JsonValue := .hundredths (hundredths p)

/-- One note. -/
def comment (line : Nat) (content : Text) : JsonValue :=
  record [("line", .number line), ("content", .string content)]

/-- The report on one file. -/
def file (r : FileReport) : JsonValue :=
  record
    [("path", .string r.path.text),
     ("comments", .array (r.comments.map fun (line, content) => comment line content)),
     ("comment_line_count", .number r.commentLines),
     ("total_line_count", .number r.totalLines),
     ("comment_line_ratio", share r.lineRatio),
     ("comment_letter_count", .number r.commentLetters),
     ("total_letter_count", .number r.totalLetters),
     ("comment_letter_ratio", share r.letterRatio)]

/-- What was removed from one file. -/
def strip (r : StripReport) : JsonValue :=
  record
    [("path", .string r.path.text), ("removed", .number r.removed), ("total", .number r.total),
     ("backup", .string r.backup.text)]

/-- A file that failed. -/
def failure (p : Path) (e : Failure) : JsonValue :=
  record [("path", .string p.text), ("error", .string e.message)]

/-- The reports on several files. -/
def batch {α : Type} (one : α → JsonValue) (b : Batch α) : JsonValue :=
  record
    [("files", .array (b.files.map one)),
     ("failures", .array (b.failures.map fun (p, e) => failure p e))]

end Record

end Marginalia
