import Mathlib.Data.List.Basic
import Marginalia.Proofs.FileTree.Place

/-!
# What reading, writing and copying do

Each operation on files by what it does to the content of every location. A file that can be read
can be written (`write_of_fileFor`). A copy empties its target first, and then writes what the
source holds by that time (`of_copy`): the bytes of the source, unless the target is the source.
Both paths lead to their files afterwards.
-/

namespace Marginalia

namespace FileTree

theorem contentAt_set_file {t : FileTree} {k : Location} (hk : t.CanHoldFile k) (content : Bytes)
    (l : Location) :
    (t.set k (.file content)).contentAt l = if l = k then content else t.contentAt l := by
  rw [contentAt, get?_set_file hk]
  by_cases hl : l = k
  · rw [if_pos hl, if_pos hl]
  · rw [if_neg hl, if_neg hl, contentAt]

/-! ## Files that are there -/

section FileFor

variable {t : FileTree} {p : Path} {l : Location}

theorem fileFor_eq_ok_iff :
    t.fileFor p = .ok l ↔ t.locate p = .ok (.taken l) ∧ t.isDirectoryAt l = false := by
  rw [fileFor]
  split
  · next hq => simp [hq]
  · next hq => simp [hq]
  · next l' hq =>
    rw [hq]
    cases hdir : t.isDirectoryAt l' with
    | true =>
      simp only [if_true, reduceCtorEq, Except.ok.injEq, Place.taken.injEq, false_iff, not_and,
        Bool.not_eq_false]
      rintro rfl
      exact hdir
    | false =>
      simp only [Bool.false_eq_true, if_false, Except.ok.injEq, Place.taken.injEq, iff_self_and]
      rintro rfl
      exact hdir

theorem find?_of_fileFor (h : t.fileFor p = .ok l) : t.find? p = some l := by
  rw [find?, (fileFor_eq_ok_iff.1 h).1]

theorem read_of_fileFor (h : t.fileFor p = .ok l) : t.read p = .ok (t.contentAt l) := by
  rw [read, h]
  rfl

/-- There is a file where a path to a file leads. -/
theorem get?_of_fileFor (h : t.fileFor p = .ok l) : ∃ content, t.get? l = some (.file content) := by
  obtain ⟨hloc, hdir⟩ := fileFor_eq_ok_iff.1 h
  rcases isSound_of_locate hloc with hd | hfile
  · simp [isDirectoryAt, hd] at hdir
  · exact hfile

theorem fileToWrite_of_fileFor (h : t.fileFor p = .ok l) : t.fileToWrite p = .ok l := by
  obtain ⟨hloc, hdir⟩ := fileFor_eq_ok_iff.1 h
  rw [fileToWrite, hloc]
  simp [hdir]

/-- **A file that is there can be written.** -/
theorem write_of_fileFor (h : t.fileFor p = .ok l) (content : Bytes) :
    t.write p content = .ok (t.set l (.file content)) := by
  rw [write, fileToWrite_of_fileFor h]
  rfl

theorem fileFor_set_file {k : Location} (hk : t.CanHoldFile k) (content : Bytes)
    (h : t.fileFor p = .ok l) : (t.set k (.file content)).fileFor p = .ok l := by
  obtain ⟨hloc, hdir⟩ := fileFor_eq_ok_iff.1 h
  rw [fileFor_eq_ok_iff, locate_set_file hk content hloc, isDirectoryAt_set_file hk]
  exact ⟨rfl, hdir⟩

end FileFor

/-! ## Files to write -/

section FileToWrite

variable {t : FileTree} {p : Path} {k : Location}

theorem fileToWrite_eq_ok (h : t.fileToWrite p = .ok k) :
    t.fileFor p = .ok k ∨ t.locate p = .ok (.free k) := by
  rw [fileToWrite] at h
  split at h
  · simp at h
  · next l hl =>
    split_ifs at h with hdir
    obtain rfl : l = k := by simpa using h
    exact Or.inl (fileFor_eq_ok_iff.2 ⟨hl, by simpa using hdir⟩)
  · next l hl =>
    split_ifs at h
    obtain rfl : l = k := by simpa using h
    exact Or.inr hl

theorem canHoldFile_of_fileToWrite (h : t.fileToWrite p = .ok k) : t.CanHoldFile k := by
  rcases fileToWrite_eq_ok h with hfile | hfree
  · obtain ⟨content, hk⟩ := get?_of_fileFor hfile
    exact canHoldFile_of_file hk
  · obtain ⟨hroom, hnone⟩ := isSound_of_locate hfree
    exact ⟨hroom, Or.inl hnone⟩

/-- What is written can be found. -/
theorem fileFor_set_of_fileToWrite (h : t.fileToWrite p = .ok k) (content : Bytes) :
    (t.set k (.file content)).fileFor p = .ok k := by
  have hk := canHoldFile_of_fileToWrite h
  rcases fileToWrite_eq_ok h with hfile | hfree
  · exact fileFor_set_file hk content hfile
  · rw [fileFor_eq_ok_iff, locate_set_file hk content hfree]
    exact ⟨by simp [Place.filled], by simp [isDirectoryAt, get?_set_file hk]⟩

/-- A path that can be written leads to a file that is there only if it leads to it already. -/
theorem find?_of_fileToWrite {l : Location} (h : t.fileToWrite p = .ok k) (hl : t.get? l ≠ none) :
    t.find? p = some l ↔ k = l := by
  rcases fileToWrite_eq_ok h with hfile | hfree
  · rw [find?_of_fileFor hfile, Option.some.injEq]
  · have hnone := (isSound_of_locate hfree).2
    rw [find?, hfree]
    simp only [reduceCtorEq, false_iff]
    rintro rfl
    exact hl hnone

end FileToWrite

/-! ## Copies -/

theorem copy_eq_ok {t t' : FileTree} {p q : Path} (h : t.copy p q = .ok t') :
    ∃ l k, t.fileFor p = .ok l ∧ t.fileToWrite q = .ok k ∧
      t' = (t.set k (.file [])).set k (.file ((t.set k (.file [])).contentAt l)) := by
  rw [copy] at h
  cases hl : t.fileFor p with
  | error e => simp [hl, bind, Except.bind] at h
  | ok l =>
    cases hk : t.fileToWrite q with
    | error e => simp [hl, hk, bind, Except.bind] at h
    | ok k =>
      refine ⟨l, k, rfl, rfl, ?_⟩
      simpa [hl, hk, bind, Except.bind, pure, Except.pure] using h.symm

/-- **What a copy does**: the target holds the bytes of the source, or none if it is the source,
and every other file is as it was. -/
theorem of_copy {t t' : FileTree} {p q : Path} (h : t.copy p q = .ok t') :
    ∃ l k, t.fileFor p = .ok l ∧ t.fileToWrite q = .ok k ∧
      t'.fileFor p = .ok l ∧ t'.fileFor q = .ok k ∧
      ∀ m, t'.contentAt m =
        if m = k then if l = k then [] else t.contentAt l else t.contentAt m := by
  obtain ⟨l, k, hl, hk, rfl⟩ := copy_eq_ok h
  have hempty := canHoldFile_of_fileToWrite hk
  have hfull := canHoldFile_set_file hempty []
  refine ⟨l, k, hl, hk, fileFor_set_file hfull _ (fileFor_set_file hempty [] hl),
    fileFor_set_file hfull _ (fileFor_set_of_fileToWrite hk []), fun m => ?_⟩
  rw [contentAt_set_file hfull, contentAt_set_file hempty, contentAt_set_file hempty]
  by_cases hm : m = k
  · rw [if_pos hm, if_pos hm]
  · rw [if_neg hm, if_neg hm, if_neg hm]

end FileTree

end Marginalia
