import Marginalia.FileTree.Commentary
import Marginalia.Proofs.Backup
import Marginalia.Proofs.FileTree.Access
import Marginalia.Proofs.SyntaxTree
import Marginalia.Proofs.Text.Utf8

/-!
# Backups of stripped files

To strip a file succeeds with a copy of it and the stripped text in its place, or fails and
changes nothing (`strip_cases`): the one failure after the copy, that of writing the file, does not
happen. Whether the copy keeps the bytes depends on where its path leads. To open the copy
empties it, so if the copy is a link to the file itself, its bytes are gone before they are read
(`not_isBackedUp`). Otherwise they are kept (`strip_isBackedUp_iff`), and a numbered copy has a
place of its own.
-/

namespace Marginalia

namespace FileTree

/-- In `t'` the path `copy` leads to the bytes that `p` led to in `t`, and `p` to their text,
stripped. -/
def IsBackedUp (parse : Parser) (t t' : FileTree) (p copy : Path) : Prop :=
  ∃ bytes text, t.read p = .ok bytes ∧ Utf8.decode bytes = .ok text ∧
    t'.read copy = .ok bytes ∧
      t'.read p = .ok (Utf8.encode (Marginalia.strip parse text).content)

theorem of_source {t : FileTree} {p : Path} {text : Text} (h : t.source p = .ok text) :
    ∃ bytes, t.read p = .ok bytes ∧ Utf8.decode bytes = .ok text := by
  rw [source] at h
  split_ifs at h
  split at h
  · simp at h
  · next bytes hread =>
    refine ⟨bytes, hread, ?_⟩
    cases hd : Utf8.decode bytes with
    | error e => simp [hd, Except.mapError] at h
    | ok text' => simpa [hd, Except.mapError] using h

/-- The tree after the copy of a file has been made and the stripped text is written, if it is
another text. -/
def withStripped (parse : Parser) (copied : FileTree) (l : Location) (text : Text) : FileTree :=
  if (Marginalia.strip parse text).content = text then copied
  else copied.set l (.file (Utf8.encode (Marginalia.strip parse text).content))

/-- **To strip a file either fails and changes nothing**, or copies the file and then writes its
stripped text. -/
theorem strip_cases (parse : Parser) (t : FileTree) (mode : BackupMode) (p : Path) :
    (∃ e, t.strip parse mode p = (t, .error e)) ∨
      ∃ text l copied, t.source p = .ok text ∧ t.fileFor p = .ok l ∧
        t.copy p (t.backupPath mode p) = .ok copied ∧
          t.strip parse mode p = (copied.withStripped parse l text,
            .ok ⟨p, (Marginalia.strip parse text).removed, (Marginalia.strip parse text).total,
              t.backupPath mode p⟩) := by
  cases hsource : t.source p with
  | error e =>
    left
    exact ⟨e, by rw [strip, hsource]⟩
  | ok text =>
    cases hcopy : t.copy p (t.backupPath mode p) with
    | error e =>
      left
      refine ⟨.backup p (t.backupPath mode p) e, ?_⟩
      simp only [strip, hsource, hcopy]
    | ok copied =>
      right
      obtain ⟨l, -, hl, -, hl', -⟩ := of_copy hcopy
      refine ⟨text, l, copied, rfl, hl, rfl, ?_⟩
      simp only [strip, hsource, hcopy, withStripped]
      -- the file was there to be copied, and is there to be written
      split
      · rfl
      · rw [write_of_fileFor hl']

section Copied

variable (parse : Parser) {t copied : FileTree} {p q : Path} {l : Location}
  (hl : t.fileFor p = .ok l) (hcopy : t.copy p q = .ok copied)
include hl hcopy

/-- What the two paths lead to when the text is written after the copy. -/
theorem of_withStripped (text : Text) : ∃ k, t.fileToWrite q = .ok k ∧
    (copied.withStripped parse l text).read p =
      .ok (if (Marginalia.strip parse text).content = text then if l = k then [] else t.contentAt l
        else Utf8.encode (Marginalia.strip parse text).content) ∧
    (copied.withStripped parse l text).read q =
      .ok (if l = k then
          if (Marginalia.strip parse text).content = text then []
          else Utf8.encode (Marginalia.strip parse text).content
        else t.contentAt l) := by
  obtain ⟨l', k, hl', hk, hp, hq, hcontent⟩ := of_copy hcopy
  obtain rfl : l = l' := by simpa [hl] using hl'
  refine ⟨k, hk, ?_⟩
  rw [withStripped]
  split
  · rw [read_of_fileFor hp, read_of_fileFor hq, hcontent, hcontent]
    by_cases hlk : l = k
    · simp [hlk]
    · simp [hlk]
  · obtain ⟨content, hfile⟩ := get?_of_fileFor hp
    have hroom := canHoldFile_of_file hfile
    rw [read_of_fileFor (fileFor_set_file hroom _ hp),
      read_of_fileFor (fileFor_set_file hroom _ hq), contentAt_set_file hroom,
      contentAt_set_file hroom, hcontent]
    by_cases hlk : l = k
    · simp [hlk]
    · simp [hlk, Ne.symm hlk, hcontent]

/-- **The copy keeps the bytes of the file unless it leads to the file itself**, and loses them
otherwise. -/
theorem isBackedUp_iff {text : Text} (hsource : t.source p = .ok text) :
    IsBackedUp parse t (copied.withStripped parse l text) p q ↔
      t.find? q ≠ t.find? p ∨ t.read p = .ok [] := by
  obtain ⟨bytes, hread, hdecode⟩ := of_source hsource
  obtain rfl : bytes = t.contentAt l := by
    rw [read_of_fileFor hl] at hread
    exact (Except.ok.inj hread).symm
  obtain ⟨k, hk, hp, hq⟩ := of_withStripped parse hl hcopy text
  obtain ⟨content, hfile⟩ := get?_of_fileFor hl
  have hfound : t.find? q = t.find? p ↔ l = k := by
    rw [find?_of_fileFor hl, find?_of_fileToWrite hk (by simp [hfile]), eq_comm]
  have hbytes := Utf8.decode_eq_ok_iff.1 hdecode
  rw [Ne, hfound, hread, Except.ok.injEq]
  by_cases hlk : l = k
  · -- the copy is the file itself, which was emptied and perhaps written again
    rw [if_pos hlk] at hp hq
    constructor
    · rintro ⟨bytes, text', hread', -, hq', -⟩
      obtain rfl : t.contentAt l = bytes := Except.ok.inj (hread.symm.trans hread')
      have hkept := Except.ok.inj (hq.symm.trans hq')
      split at hkept
      · exact Or.inr hkept.symm
      · next hne => exact absurd (Utf8.encode_injective (hkept.trans hbytes)) hne
    · rintro (hne | hnil)
      · exact absurd hlk hne
      · obtain rfl : text = [] := Utf8.encode_injective (hbytes.symm.trans hnil)
        refine ⟨[], [], by rw [hread, hnil], rfl, ?_, ?_⟩
        · rw [hq]
          rfl
        · rw [hp]
          rfl
  · rw [if_neg hlk] at hp hq
    refine iff_of_true ⟨t.contentAt l, text, hread, hdecode, hq, ?_⟩ (Or.inl hlk)
    rw [hp]
    split
    · next hsame => rw [hsame, hbytes]
    · rfl

end Copied

/-- **What a call of strip leaves.** If it fails, the tree is as it was. If it succeeds, the copy
keeps the bytes of the file and the file holds the stripped text, unless the copy leads to the file
itself and there are bytes to lose. A numbered copy always keeps them. -/
theorem strip_isBackedUp_iff (parse : Parser) (t : FileTree) (mode : BackupMode) (p : Path) :
    match t.strip parse mode p with
    | (t', .error _) => t' = t
    | (t', .ok r) =>
      (IsBackedUp parse t t' p r.backup ↔ t.find? r.backup ≠ t.find? p ∨ t.read p = .ok []) ∧
        (mode = .numbered → IsBackedUp parse t t' p r.backup) := by
  rcases t.strip_cases parse mode p with ⟨e, h⟩ | ⟨text, l, copied, hsource, hl, hcopy, h⟩
  · rw [h]
  · rw [h]
    have hiff := isBackedUp_iff parse hl hcopy hsource
    refine ⟨hiff, ?_⟩
    rintro rfl
    apply hiff.2
    left
    rw [find?_backupPath_numbered, find?_of_fileFor hl]
    simp

/-- A file, and a link to it under the name of its backup. -/
def linkedBackup : FileTree :=
  (workspace.place (.ofString "a.py") (.file (Utf8.encode "x = 1\n".toList))).place
    (.ofString "a.py.bak") (.link (.ofString "a.py"))

/-- A parser that knows the text of the file. -/
def parseAssignment : Parser := .ofTable
  [("x = 1\n".toList, .named "module" ⟨0, 0⟩ ⟨6, 1⟩
    [.named "expression_statement" ⟨0, 0⟩ ⟨5, 0⟩
      [.named "assignment" ⟨0, 0⟩ ⟨5, 0⟩
        [.as "left" (.named "identifier" ⟨0, 0⟩ ⟨1, 0⟩ []), .mark "=" ⟨2, 0⟩ ⟨3, 0⟩,
         .as "right" (.named "integer" ⟨4, 0⟩ ⟨5, 0⟩ [])]]])]

/-- When the name of the backup is a link to the file, the bytes of the file are lost. -/
theorem not_isBackedUp : ¬ ∀ (parse : Parser) (t : FileTree) mode p r,
    (t.strip parse mode p).2 = .ok r → IsBackedUp parse t (t.strip parse mode p).1 p r.backup := by
  intro h
  have hok : (linkedBackup.strip parseAssignment .overwrite (.ofString "a.py")).2 =
      .ok ⟨.ofString "a.py", 0, 2, .ofString "a.py.bak"⟩ := by
    decide +kernel
  have hread : linkedBackup.read (.ofString "a.py") = .ok (Utf8.encode "x = 1\n".toList) := by
    decide +kernel
  have hlost : (linkedBackup.strip parseAssignment .overwrite (.ofString "a.py")).1.read
      (.ofString "a.py.bak") = .ok [] := by
    decide +kernel
  obtain ⟨bytes, text, hbytes, -, hcopy, -⟩ := h parseAssignment linkedBackup _ _ _ hok
  have hnil : bytes = [] := Except.ok.inj (hcopy.symm.trans hlost)
  rw [hread, hnil] at hbytes
  exact absurd hbytes (by decide)

end FileTree

end Marginalia
