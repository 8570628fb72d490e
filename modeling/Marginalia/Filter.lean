import Marginalia.Failure

/-!
# Filters

Which files are sources to process: those with the extension of the language, that no exclude
pattern accepts, and that some include pattern accepts if there are any. What a pattern accepts, and
how it is spelled, is not for the filter to say.
-/

namespace Marginalia

/-- Whether a path names a source file: its extension is exactly `py`. -/
def Path.isPython (p : Path) : Bool :=
  p.extension = some "py".toList

/-- A pattern, by the texts that it accepts. -/
abbrev Pattern := Text → Bool

/-- How patterns are spelled: the pattern of a text, or the reason why it is none. -/
abbrev PatternSyntax := Text → Except Text Pattern

/-- The patterns that select files. -/
structure Filter where
  /-- Empty when every source file is included. -/
  included : List Pattern
  excluded : List Pattern

namespace Filter

/-- The filter without patterns, which selects every source file. -/
def all : Filter := ⟨[], []⟩

/-- The pattern that a text spells, or the failure that names it. -/
def compile (glob : PatternSyntax) (pattern : Text) : Except Failure Pattern :=
  (glob pattern).mapError (Failure.invalidGlob pattern)

/-- The filter with the given patterns. The first bad pattern is the failure, and those to include
come first. -/
def ofPatterns (glob : PatternSyntax) (includes excludes : List Text) : Except Failure Filter := do
  return ⟨← includes.mapM (compile glob), ← excludes.mapM (compile glob)⟩

/-- Whether the filter selects a path. -/
def selects (f : Filter) (p : Path) : Bool :=
  p.isPython && !f.excluded.any (· p.text) && (f.included.isEmpty || f.included.any (· p.text))

end Filter

end Marginalia
