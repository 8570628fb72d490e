import Marginalia.Backup

/-!
# Command lines

What the arguments of the program ask for. Arguments are read from left to right; the first that
asks for the version or for help, or that cannot be read, ends the reading. Short options may
stand together behind one dash. The value of an option follows in the next argument, after `=`,
or directly after a short option. After `--` every argument is a path. Each option may be given
once, except for patterns, and some options exclude each other.
-/

namespace Marginalia

/-- An option without a value. -/
inductive Switch
  | count
  | remove
  | verbose
  | quiet
  deriving DecidableEq, Repr

/-- An option with a value. -/
inductive Setting
  | output
  | included
  | excluded
  | backup
  deriving DecidableEq, Repr

/-- Why arguments are no request to process files. -/
inductive Stop
  /-- They cannot be read. -/
  | misuse
  /-- They ask for the version. -/
  | version
  /-- They ask for help. -/
  | help
  deriving DecidableEq, Repr

/-- What an option is. -/
inductive OptionKind
  | switch (s : Switch)
  | setting (s : Setting)
  | stop (s : Stop)
  deriving DecidableEq, Repr

/-- How reports are written. -/
inductive Format
  | table
  | json
  deriving DecidableEq, Repr

/-- What arguments have given. -/
structure Arguments where
  path : Option Path
  switches : List Switch
  format : Option Format
  included : List Text
  excluded : List Text
  backup : Option BackupMode
  deriving DecidableEq, Repr

/-- What the program is asked to do. -/
structure Request where
  path : Path
  /-- Whether commentary is removed, and not only counted. -/
  remove : Bool
  format : Format
  included : List Text
  excluded : List Text
  backup : BackupMode
  deriving DecidableEq, Repr

/-! ## Options -/

/-- The options by their letter. -/
def OptionKind.ofLetter? : Char → Option OptionKind
  | 'c' => some (switch .count)
  | 'r' => some (switch .remove)
  | 'v' => some (switch .verbose)
  | 'q' => some (switch .quiet)
  | 'o' => some (setting .output)
  | 'i' => some (setting .included)
  | 'e' => some (setting .excluded)
  | 'V' => some (stop .version)
  | 'h' => some (stop .help)
  | _ => none

/-- The options by their word. -/
def OptionKind.words : List (String × OptionKind) :=
  [("count", switch .count), ("remove", switch .remove), ("verbose", switch .verbose),
   ("quiet", switch .quiet), ("output", setting .output), ("include", setting .included),
   ("exclude", setting .excluded), ("backup", setting .backup), ("version", stop .version),
   ("help", stop .help)]

/-- The option of a word; words are not shortened. -/
def OptionKind.ofWord? (word : Text) : Option OptionKind :=
  (words.find? fun w => w.1.toList = word).map Prod.snd

/-- The format of a name. -/
def Format.ofName? (name : Text) : Option Format :=
  if name = "table".toList then some table
  else if name = "json".toList then some json
  else none

/-- The backup mode of a name, in the exact spelling that an option takes. -/
def BackupMode.ofExactName? (word : Text) : Option BackupMode :=
  [overwrite, numbered].find? fun m => m.name = word

/-! ## Reading -/

namespace Arguments

/-- Nothing is given. -/
def empty : Arguments := ⟨none, [], none, [], [], none⟩

/-- A path is given; there is one at most. -/
def addPath (a : Arguments) (t : Text) : Except Stop Arguments :=
  if a.path = none then .ok { a with path := some ⟨t⟩ } else .error .misuse

/-- A switch is given; each is given once at most. -/
def addSwitch (a : Arguments) (s : Switch) : Except Stop Arguments :=
  if s ∈ a.switches then .error .misuse else .ok { a with switches := s :: a.switches }

/-- An option is given with its value. -/
def addSetting (a : Arguments) (s : Setting) (value : Text) : Except Stop Arguments :=
  match s with
  | .included => .ok { a with included := a.included ++ [value] }
  | .excluded => .ok { a with excluded := a.excluded ++ [value] }
  | .output =>
    match a.format, Format.ofName? value with
    | none, some f => .ok { a with format := some f }
    | _, _ => .error .misuse
  | .backup =>
    match a.backup, BackupMode.ofExactName? value with
    | none, some m => .ok { a with backup := some m }
    | _, _ => .error .misuse

/-- Read the letters behind one dash. When the last is an option whose value must follow, this is
the second result. -/
def readLetters (a : Arguments) : Text → Except Stop (Arguments × Option Setting)
  | [] => .ok (a, none)
  | c :: r =>
    match OptionKind.ofLetter? c with
    | none => .error .misuse
    | some (.stop s) => .error s
    | some (.switch s) =>
      match a.addSwitch s with
      | .error e => .error e
      | .ok a => a.readLetters r
    | some (.setting s) =>
      match r with
      | [] => .ok (a, some s)
      | '=' :: value | value => (a.addSetting s value).map (·, none)

/-- Read what follows two dashes. When it is an option whose value must follow, this is the second
result. -/
def readWord (a : Arguments) (t : Text) : Except Stop (Arguments × Option Setting) :=
  let word := t.takeWhile (· ≠ '=')
  let value := (t.dropWhile (· ≠ '=')).tail?
  match OptionKind.ofWord? word, value with
  | some (.stop s), none => .error s
  | some (.switch s), none => (a.addSwitch s).map (·, none)
  | some (.setting s), none => .ok (a, some s)
  | some (.setting s), some v => (a.addSetting s v).map (·, none)
  | _, _ => .error .misuse

/-- Read paths. -/
def readPaths (a : Arguments) : List Text → Except Stop Arguments
  | [] => .ok a
  | t :: ts =>
    match a.addPath t with
    | .error e => .error e
    | .ok a => a.readPaths ts

/-- Read arguments; the value of the option `wanting` must come first. -/
def read (a : Arguments) (wanting : Option Setting) : List Text → Except Stop Arguments
  | [] => if wanting = none then .ok a else .error .misuse
  | t :: ts =>
    match wanting, t with
    | none, ['-', '-'] => a.readPaths ts
    | none, '-' :: '-' :: word =>
      match a.readWord word with
      | .error e => .error e
      | .ok (a, w) => a.read w ts
    | none, '-' :: c :: letters =>
      match a.readLetters (c :: letters) with
      | .error e => .error e
      | .ok (a, w) => a.read w ts
    | none, t =>
      match a.addPath t with
      | .error e => .error e
      | .ok a => a.read none ts
    | some _, '-' :: _ :: _ => .error .misuse
    | some s, value =>
      match a.addSetting s value with
      | .error e => .error e
      | .ok a => a.read none ts

/-- Whether options are given that exclude each other. -/
def conflict (a : Arguments) : Bool :=
  [(Switch.count, Switch.remove), (.verbose, .quiet)].any fun (s, s') =>
    a.switches.contains s && a.switches.contains s'

end Arguments

/-- What a list of arguments asks for. -/
def Request.ofArguments (args : List Text) : Except Stop Request :=
  match Arguments.empty.read none args with
  | .error e => .error e
  | .ok a =>
    if a.conflict then .error .misuse
    else
      .ok
        { path := a.path.getD ⟨['.']⟩
          remove := a.switches.contains .remove
          format := a.format.getD .table
          included := a.included
          excluded := a.excluded
          backup := a.backup.getD .overwrite }

end Marginalia
