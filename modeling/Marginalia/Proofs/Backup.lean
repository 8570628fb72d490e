import Mathlib.Data.List.Nodup
import Mathlib.Data.List.Perm.Subperm
import Marginalia.Backup
import Marginalia.Proofs.FileTree.Place
import Marginalia.Proofs.Text.Decimal

/-!
# The names of backups

A numbered backup has a name that is not in use (`find?_backupPath_numbered`), although the search
for it looks at no more paths than the tree has entries and takes the next one unseen. If all the
paths were in use, the walks along them would come to different names in one directory
(`exists_get?_of_numberedBackup`), more names than there are entries.
-/

namespace Marginalia

/-- A piece with another character than points in it is the name of an entry. -/
theorem Step.ofPiece_of_mem {piece : Text} {c : Char} (h : c ∈ piece) (hc : c ≠ '.') :
    ofPiece piece = .name piece := by
  rw [ofPiece.eq_def]
  split
  · simp at h
  · exact absurd (List.mem_singleton.1 h) hc
  · simp [hc] at h
  · rfl

namespace FileTree

/-- The numbered paths that are in use lead to different names in one directory. -/
theorem exists_get?_of_numberedBackup (t : FileTree) (base : Path) :
    ∃ dir b, ∀ i, t.reaches (base.numberedBackup i) = true →
      t.get? ((b ++ '.' :: Text.ofNat i) :: dir) ≠ none := by
  obtain ⟨d, b, hsteps⟩ := base.exists_steps_append
  obtain ⟨dir, hdir⟩ := exists_get?_of_follow t maxLinks t.working d
  refine ⟨dir, b, fun i hi => ?_⟩
  have hslash : '/' ∉ '.' :: Text.ofNat i := by
    rw [List.mem_cons, not_or]
    exact ⟨by decide, Text.notMem_ofNat (by decide) i⟩
  obtain ⟨c, hc⟩ := List.exists_mem_of_ne_nil _ (Text.ofNat_ne_nil i)
  have hpoint : c ≠ '.' := by
    rintro rfl
    exact Text.notMem_ofNat (by decide) i hc
  have hname : (base.numberedBackup i).steps = d ++ [.name (b ++ '.' :: Text.ofNat i)] := by
    rw [Path.numberedBackup, hsteps _ (List.cons_ne_nil _ _) hslash,
      Step.ofPiece_of_mem (c := c) (by simp [hc]) hpoint]
  obtain ⟨l, hl⟩ := Option.isSome_iff_exists.1 hi
  apply hdir _ l
  rw [← hname]
  rw [find?] at hl
  split at hl
  · next l' hloc =>
    obtain rfl : l' = l := by simpa using hl
    rw [locate] at hloc
    split at hloc
    · simp at hloc
    · exact hloc
  · simp at hl

/-- Not all of the first paths are in use, if there are more of them than entries. -/
theorem exists_not_reaches (t : FileTree) (base : Path) (n : ℕ) :
    ∃ i, n ≤ i ∧ i ≤ n + t.entries.length ∧ t.reaches (base.numberedBackup i) = false := by
  by_contra hall
  simp only [not_exists, not_and, Bool.not_eq_false] at hall
  obtain ⟨dir, b, hdir⟩ := t.exists_get?_of_numberedBackup base
  let key : ℕ → Location := fun i => (b ++ '.' :: Text.ofNat i) :: dir
  have hinj : Function.Injective key := by
    intro i j hij
    have hname : b ++ '.' :: Text.ofNat i = b ++ '.' :: Text.ofNat j := (List.cons.inj hij).1
    exact Text.ofNat_injective (List.cons.inj (List.append_cancel_left hname)).2
  have hsub : (List.range' n (t.entries.length + 1)).map key ⊆ t.entries.map Prod.fst := by
    intro l hl
    obtain ⟨i, hi, rfl⟩ := List.mem_map.1 hl
    obtain ⟨hni, hin⟩ := List.mem_range'_1.1 hi
    obtain ⟨e, he⟩ := Option.ne_none_iff_exists'.1 (hdir i (hall i hni (by omega)))
    exact List.mem_map_of_mem (f := Prod.fst) ((lookup_eq_some_iff t.distinct).1 he)
  have hnodup : ((List.range' n (t.entries.length + 1)).map key).Nodup :=
    List.Nodup.map hinj List.nodup_range'
  have hle := (hnodup.subperm hsub).length_le
  rw [List.length_map, List.length_map, List.length_range'] at hle
  omega

theorem reaches_of_firstFree {t : FileTree} {base : Path} {tries n : ℕ}
    (h : t.reaches (t.firstFree base tries n) = true) {i : ℕ} (hn : n ≤ i) (hi : i ≤ n + tries) :
    t.reaches (base.numberedBackup i) = true := by
  induction tries generalizing n with
  | zero =>
    obtain rfl : i = n := by omega
    exact h
  | succ k ih =>
    rw [firstFree] at h
    split at h
    · next hused =>
      rcases Nat.eq_or_lt_of_le hn with rfl | hlt
      · exact hused
      · exact ih h (by omega) (by omega)
    · next hfree => exact absurd h hfree

/-- **A numbered backup takes the place of nothing.** -/
theorem find?_backupPath_numbered (t : FileTree) (p : Path) :
    t.find? (t.backupPath .numbered p) = none := by
  rw [← Option.not_isSome_iff_eq_none]
  change ¬ t.reaches (t.backupPath .numbered p) = true
  intro h
  rw [backupPath] at h
  split at h
  · next hused =>
    obtain ⟨i, hi, hi', hfree⟩ := t.exists_not_reaches p.backup 1
    rw [reaches_of_firstFree h hi hi'] at hfree
    exact Bool.noConfusion hfree
  · next hfree => exact hfree h

end FileTree

end Marginalia
