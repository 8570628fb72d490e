import Marginalia.LexicalError
import Marginalia.Path
import Marginalia.Text.Utf8

/-!
# Failures

Why a file or a directory cannot be processed. A failure that comes from a cause below it names
the cause at the end of its message. `Failure.chain` is the message with the causes after it once
more, one by one.
-/

namespace Marginalia

/-- Why the file system refuses. -/
inductive AccessError
  /-- There is nothing at the path. -/
  | notFound
  /-- The path goes on after something that is no directory. -/
  | notADirectory
  /-- A directory stands where a file is needed. -/
  | isADirectory
  /-- The name of a new file is too long. -/
  | nameTooLong
  /-- The path leads from link to link without end. -/
  | tooManyLinks
  deriving DecidableEq, Repr

/-- The refusal in the system's words, with its number. -/
def AccessError.message : AccessError → Text
  | notFound => "No such file or directory (os error 2)".toList
  | notADirectory => "Not a directory (os error 20)".toList
  | isADirectory => "Is a directory (os error 21)".toList
  | nameTooLong => "File name too long (os error 36)".toList
  | tooManyLinks => "Too many levels of symbolic links (os error 40)".toList

/-- Why a path cannot be processed. -/
inductive Failure
  /-- There is nothing at the path. -/
  | pathNotFound (path : Path)
  /-- The path does not name a source file. -/
  | notPython (path : Path)
  /-- The file cannot be read. -/
  | read (path : Path) (cause : AccessError)
  /-- The bytes of the file are no text. -/
  | decode (path : Path) (cause : Utf8Error)
  /-- The text has no token sequence. -/
  | lexical (error : LexicalError)
  /-- The copy cannot be written, and the file stays as it is. -/
  | backup (path copy : Path) (cause : AccessError)
  /-- The file cannot be written. -/
  | write (path : Path) (cause : AccessError)
  /-- A pattern of the filter is none. -/
  | invalidGlob (pattern reason : Text)
  deriving DecidableEq, Repr

namespace Failure

/-- What caused a failure from below, if anything did. -/
def cause? : Failure → Option Text
  | read _ e | backup _ _ e | write _ e => some e.message
  | decode _ e => some e.message
  | pathNotFound _ | notPython _ | lexical _ | invalidGlob _ _ => none

/-- The failure in words. -/
def message : Failure → Text
  | pathNotFound p => "path does not exist: ".toList ++ p.text
  | notPython p => "not a Python file: ".toList ++ p.text
  | read p e => "failed to read file '".toList ++ p.text ++ "': ".toList ++ e.message
  | decode p e => "file '".toList ++ p.text ++ "' is not valid UTF-8 text: ".toList ++ e.message
  | lexical e => e.message
  | backup p copy e =>
    "failed to back up '".toList ++ p.text ++ "' to '".toList ++ copy.text ++ "': ".toList ++
      e.message
  | write p e => "failed to write file '".toList ++ p.text ++ "': ".toList ++ e.message
  | invalidGlob pattern reason =>
    "invalid glob pattern '".toList ++ pattern ++ "': ".toList ++ reason

/-- The message of a failure, and after it that of its cause. -/
def chain (f : Failure) : Text :=
  match f.cause? with
  | none => f.message
  | some c => f.message ++ ": ".toList ++ c

end Failure

end Marginalia
