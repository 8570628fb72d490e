import Marginalia.FileTree.Place

/-!
# Backups

Before a file is changed it is copied. The copy stands beside it, under the name of the file with
`.bak` after it; a numbered copy takes the first such name that is not in use yet.
-/

namespace Marginalia

/-- How a copy is named. -/
inductive BackupMode
  /-- Always alike, in place of an older copy. -/
  | overwrite
  /-- Apart from every older copy. -/
  | numbered
  deriving DecidableEq, Repr

namespace BackupMode

/-- The word for a mode. -/
def name : BackupMode → Text
  | overwrite => "overwrite".toList
  | numbered => "numbered".toList

/-- The mode that a word stands for, whatever the case of its letters. -/
def ofName? (word : Text) : Option BackupMode :=
  let w := word.toLower
  if w = "overwrite".toList then some overwrite
  else if w = "numbered".toList ∨ w = "versioned".toList then some numbered
  else none

/-- What is wrong with a word that stands for no mode. -/
def unknownMessage (word : Text) : Text :=
  "Unknown backup mode: ".toList ++ word

end BackupMode

/-- The path of the unnumbered copy of a file. -/
def Path.backup (p : Path) : Path :=
  p.withExtension (((p.extension.map (· ++ ['.'])).getD []) ++ "bak".toList)

/-- The path of the copy with a number. -/
def Path.numberedBackup (base : Path) (n : Nat) : Path :=
  base.append ('.' :: Text.ofNat n)

/-- The first free path among the numbered copies from `n` on. Of `tries + 1` paths the last is
taken without a look. -/
def FileTree.firstFree (t : FileTree) (base : Path) : (tries n : Nat) → Path
  | 0, n => base.numberedBackup n
  | k + 1, n =>
    if t.reaches (base.numberedBackup n) then t.firstFree base k (n + 1)
    else base.numberedBackup n

/-- Where a file is copied to. No more copies exist than the tree has entries, so one path more
than that is enough to find a free one. -/
def FileTree.backupPath (t : FileTree) (mode : BackupMode) (p : Path) : Path :=
  match mode with
  | .overwrite => p.backup
  | .numbered =>
    if t.reaches p.backup then t.firstFree p.backup t.entries.length 1 else p.backup

end Marginalia
