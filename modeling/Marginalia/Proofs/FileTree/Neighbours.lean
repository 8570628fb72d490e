import Marginalia.Discovery
import Marginalia.Proofs.FileTree.Place

/-!
# Neighbours in a directory

Paths that differ only behind their last slash lead to entries of one directory, and where they
lead is told by what the directory holds (`FileTree.LooksInto`). In a tree without links every path
to a file is one of such a family (`exists_looksInto_of_file`), and so are the paths that a search
joins from a directory and its entries (`exists_looksInto_of_directory?`). To put a file anywhere
keeps the family (`LooksInto.set_file`).
-/

namespace Marginalia

namespace Step

theorem ofPiece_ne_root (piece : Text) : ofPiece piece ≠ root := by
  rw [ofPiece.eq_def]
  split <;> simp

theorem ofPiece_eq_name {piece n : Text} (h : ofPiece piece = .name n) : piece = n := by
  rw [ofPiece.eq_def] at h
  split at h
  · simp at h
  · simp at h
  · simp at h
  · exact Step.name.inj h

end Step

namespace Path

/-! ## Spelling -/

/-- The text ends where a name may begin. -/
def IsOpen (u : Text) : Prop := ∀ c ∈ u.getLast?, c = '/'

theorem exists_pieces {u : Text} (hu : IsOpen u) : ∃ ps : List Text, ∀ w, '/' ∉ w → u ++ w ≠ [] →
    pieces ⟨u ++ w⟩ = ps ++ [w] ∧ Text.joinWith ['/'] (ps ++ [w]) = u ++ w := by
  rcases List.eq_nil_or_concat u with rfl | ⟨v, c, rfl⟩
  · refine ⟨[], fun w hw hne => ⟨?_, rfl⟩⟩
    rw [pieces, if_neg hne, List.nil_append, Literal.splitAt_of_notMem hw]
    rfl
  · obtain rfl : c = '/' := hu c (by simp)
    refine ⟨Text.splitAt '/' v, fun w hw hne => ?_⟩
    have hsplit : Text.splitAt '/' (v.concat '/' ++ w) = Text.splitAt '/' v ++ [w] := by
      rw [List.concat_eq_append, List.append_assoc, List.singleton_append,
        Literal.splitAt_append_cons, Literal.splitAt_of_notMem hw]
    rw [pieces, if_neg hne, ← hsplit, Text.joinWith_splitAt]
    exact ⟨rfl, rfl⟩

theorem exists_steps {u : Text} (hu : IsOpen u) : ∃ d, ∀ w, '/' ∉ w → u ++ w ≠ [] →
    steps ⟨u ++ w⟩ = d ++ [Step.ofPiece w] := by
  obtain ⟨ps, hps⟩ := exists_pieces hu
  match ps with
  | [] =>
    refine ⟨[], fun w hw hne => ?_⟩
    obtain ⟨hpieces, hjoin⟩ := hps w hw hne
    cases w with
    | nil => exact absurd hjoin.symm hne
    | cons c w =>
      rw [steps, hpieces]
      rfl
  | [] :: r =>
    refine ⟨.root :: r.map Step.ofPiece, fun w hw hne => ?_⟩
    rw [steps, (hps w hw hne).1]
    simp
  | (c :: a) :: r =>
    refine ⟨Step.ofPiece (c :: a) :: r.map Step.ofPiece, fun w hw hne => ?_⟩
    rw [steps, (hps w hw hne).1]
    simp

theorem join_of_slash {p : Path} (h : p.text.getLast? = some '/') (n : Text) :
    p.join n = ⟨p.text ++ n⟩ := by
  rw [join, h]
  rfl

theorem join_of_ne_slash {p : Path} {c : Char} (h : p.text.getLast? = some c) (hc : c ≠ '/')
    (n : Text) : p.join n = ⟨p.text ++ '/' :: n⟩ := by
  rw [join, h]
  split
  · next hnone => simp at hnone
  · next hslash => exact absurd (Option.some.inj hslash) hc
  · rfl

/-- A piece more behind a slash is a step more. -/
theorem steps_append_slash {p : Path} (hp : p.text ≠ []) {w : Text} (hw : '/' ∉ w) :
    steps ⟨p.text ++ '/' :: w⟩ = p.steps ++ [Step.ofPiece w] := by
  have hpieces : pieces ⟨p.text ++ '/' :: w⟩ = p.pieces ++ [w] := by
    rw [pieces, pieces, if_neg hp, if_neg (by simp), Literal.splitAt_append_cons,
      Literal.splitAt_of_notMem hw]
  have hne : p.pieces ≠ [] := by
    rw [pieces, if_neg hp]
    exact Text.splitAt_ne_nil '/' p.text
  obtain ⟨a, r, hsplit⟩ := List.exists_cons_of_ne_nil hne
  rw [steps, steps, hpieces, hsplit]
  cases a with
  | nil => simp
  | cons c a => simp

/-- Every path has a last piece. -/
theorem exists_append (p : Path) : ∃ u w, IsOpen u ∧ '/' ∉ w ∧ p = ⟨u ++ w⟩ := by
  by_cases hmem : '/' ∈ p.text
  · obtain ⟨u, v, huv, hv⟩ := Literal.exists_append_last hmem
    refine ⟨u ++ ['/'], v, by simp [IsOpen], hv, ?_⟩
    rw [List.append_assoc, List.singleton_append, ← huv]
  · exact ⟨[], p.text, by simp [IsOpen], hmem, rfl⟩

end Path

namespace FileTree

/-! ## Trees without links -/

/-- No entry is a link. -/
def HasNoLinks (t : FileTree) : Prop := ∀ l target, t.get? l ≠ some (.link target)

section HasNoLinks

variable {t : FileTree} (ht : t.HasNoLinks)
include ht

theorem advance_ne_link (l : Location) (steps : List Step) (dir : Location) (target : Path)
    (rest : List Step) : t.advance l steps ≠ .ok (.link dir target rest) := by
  fun_induction advance t l steps with
  | case7 l n r _ target' hget => exact absurd hget (ht _ _)
  | case1 | case4 | case6 | case9 | case10 | case11 => simp
  | case2 _ _ ih | case3 _ _ _ ih | case5 _ _ _ ih => exact ih
  | case8 _ _ _ _ _ _ _ ih => exact ih

/-- Without links, a path is walked at once. -/
theorem locate_eq_ok_iff {p : Path} {q : Place} :
    t.locate p = .ok q ↔ p.text ≠ [] ∧ t.advance t.working p.steps = .ok (.done q) := by
  rw [locate]
  split
  · next h => simp [h]
  · next h =>
    rw [follow]
    split
    · next e he => simp [he]
    · next q' hq => simp [hq, h]
    · next dir target rest hlink => exact absurd hlink (advance_ne_link ht _ _ _ _ _)

end HasNoLinks

theorem locate_of_find? {t : FileTree} {p : Path} {l : Location} (h : t.find? p = some l) :
    t.locate p = .ok (.taken l) := by
  rw [find?] at h
  split at h
  · next l' hloc =>
    obtain rfl : l' = l := by simpa using h
    exact hloc
  · simp at h

/-! ## The family of paths into a directory -/

/-- What stands behind `u` in a path is looked up in the directory at `dir`. -/
structure LooksInto (t : FileTree) (u : Text) (dir : Location) : Prop where
  isDirectoryAt : t.isDirectoryAt dir = true
  locate_name : ∀ m, Step.ofPiece m = .name m → '/' ∉ m → t.locate ⟨u ++ m⟩ =
    .ok (if t.get? (m :: dir) = none then .free (m :: dir) else .taken (m :: dir))
  locate_parent : t.locate ⟨u ++ ['.', '.']⟩ = .ok (.taken dir.tail)

/-- To put a file changes no directory that is looked into. -/
theorem LooksInto.set_file {t : FileTree} {u : Text} {dir k : Location} (h : t.LooksInto u dir)
    (hk : t.CanHoldFile k) (content : Bytes) : (t.set k (.file content)).LooksInto u dir where
  isDirectoryAt := by
    rw [isDirectoryAt_set_file hk]
    exact h.isDirectoryAt
  locate_name m hm hslash := by
    rw [locate_set_file hk content (h.locate_name m hm hslash), get?_set_file hk]
    by_cases hmk : m :: dir = k
    · rw [if_pos hmk]
      by_cases hnone : t.get? (m :: dir) = none
      · rw [if_pos hnone, Place.filled, if_pos hmk]
        rfl
      · rw [if_neg hnone]
        rfl
    · rw [if_neg hmk]
      by_cases hnone : t.get? (m :: dir) = none
      · simp [hnone, Place.filled, hmk]
      · simp [hnone, Place.filled]
  locate_parent := by
    rw [locate_set_file hk content h.locate_parent]
    rfl

section HasNoLinks

variable {t : FileTree} (ht : t.HasNoLinks)
include ht

theorem looksInto_of_advance {u : Text} {dir : Location} {d : List Step}
    (hd : ∀ w, '/' ∉ w → u ++ w ≠ [] → Path.steps ⟨u ++ w⟩ = d ++ [Step.ofPiece w])
    (hadvance : t.advance t.working d = .ok (.done (.taken dir)))
    (hdir : t.isDirectoryAt dir = true) : t.LooksInto u dir where
  isDirectoryAt := hdir
  locate_name m hm hslash := by
    have hne : u ++ m ≠ [] := by
      intro h
      rw [(List.append_eq_nil_iff.1 h).2] at hm
      exact Step.noConfusion hm
    rw [locate_eq_ok_iff ht, hd m hslash hne, hm, advance_append _ _ _ (by simp), hadvance]
    refine ⟨hne, ?_⟩
    simp only [advance, if_pos hdir]
    cases hget : t.get? (m :: dir) with
    | none => simp
    | some e =>
      cases e with
      | link target => exact absurd hget (ht _ _)
      | file content => simp
      | directory => simp
  locate_parent := by
    have hne : u ++ ['.', '.'] ≠ [] := by simp
    rw [locate_eq_ok_iff ht, hd _ (by decide) hne, advance_append _ _ _ (by simp), hadvance]
    exact ⟨hne, by simp [Step.ofPiece, advance, hdir]⟩

/-- A path that leads somewhere comes to a directory before its last step. -/
theorem exists_advance_of_locate {u w : Text} {l : Location} {d : List Step}
    (hd : Path.steps ⟨u ++ w⟩ = d ++ [Step.ofPiece w]) (hl : t.locate ⟨u ++ w⟩ = .ok (.taken l)) :
    ∃ k, t.advance t.working d = .ok (.done (.taken k)) ∧ t.isDirectoryAt k = true ∧
      t.advance k [Step.ofPiece w] = .ok (.done (.taken l)) := by
  obtain ⟨-, hadvance⟩ := (locate_eq_ok_iff ht).1 hl
  rw [hd, advance_append _ _ _ (by simp)] at hadvance
  split at hadvance
  · simp at hadvance
  · next k hk =>
    refine ⟨k, hk, ?_, hadvance⟩
    cases hstep : Step.ofPiece w with
    | root => exact absurd hstep (Step.ofPiece_ne_root w)
    | here | parent | name n =>
      by_contra hdir
      simp [hstep, advance, hdir] at hadvance
  · simp at hadvance
  · simp at hadvance

/-- **A path to a file** ends in its name, and its neighbours are looked up beside it. -/
theorem exists_looksInto_of_file {p : Path} {l : Location} (hl : t.find? p = some l)
    (hfile : t.isFileAt l = true) : ∃ u n dir, p = ⟨u ++ n⟩ ∧ l = n :: dir ∧ Path.IsOpen u ∧
      Step.ofPiece n = .name n ∧ '/' ∉ n ∧ t.LooksInto u dir := by
  obtain ⟨u, w, hu, hw, rfl⟩ := p.exists_append
  obtain ⟨d, hd⟩ := Path.exists_steps hu
  have hloc := locate_of_find? hl
  obtain ⟨hne, -⟩ := (locate_eq_ok_iff ht).1 hloc
  obtain ⟨k, hk, hdir, hlast⟩ := exists_advance_of_locate ht (hd w hw hne) hloc
  have hnot : t.isDirectoryAt l ≠ true := by
    intro h
    rw [isFileAt, isDirectoryAt_iff.1 h] at hfile
    exact Bool.noConfusion hfile
  cases hstep : Step.ofPiece w with
  | root => exact absurd hstep (Step.ofPiece_ne_root w)
  | here =>
    obtain rfl : k = l := by simpa [hstep, advance, hdir] using hlast
    exact absurd hdir hnot
  | parent =>
    obtain rfl : k.tail = l := by simpa [hstep, advance, hdir] using hlast
    exact absurd (isDirectoryAt_tail hdir) hnot
  | name n =>
    obtain rfl := Step.ofPiece_eq_name hstep
    refine ⟨u, w, k, rfl, ?_, hu, hstep, hw, looksInto_of_advance ht hd hk hdir⟩
    rw [hstep, advance, if_pos hdir] at hlast
    split at hlast
    · simp at hlast
    · simpa [advance] using hlast.symm
    · simp at hlast

/-- **The entries of a directory** are looked up in it. -/
theorem exists_looksInto_of_directory? {p : Path} {l : Location} (hl : t.directory? p = some l) :
    ∃ u, Path.IsOpen u ∧ (∀ n, p.join n = ⟨u ++ n⟩) ∧ t.LooksInto u l := by
  obtain ⟨hfind, hdir⟩ := Option.filter_eq_some_iff.1 hl
  have hloc := locate_of_find? hfind
  obtain ⟨hne, hadvance⟩ := (locate_eq_ok_iff ht).1 hloc
  obtain ⟨v, c, hv⟩ := List.eq_nil_or_concat p.text |>.resolve_left hne
  have hlast : p.text.getLast? = some c := by
    rw [hv, List.concat_eq_append, List.getLast?_concat]
  by_cases hc : c = '/'
  · -- the path ends in an idle step behind the slash
    subst hc
    have hopen : Path.IsOpen p.text := by simp [Path.IsOpen, hlast]
    obtain ⟨d, hd⟩ := Path.exists_steps hopen
    have hlocate : t.locate ⟨p.text ++ []⟩ = .ok (.taken l) := by rwa [List.append_nil]
    obtain ⟨k, hk, hkdir, hlast'⟩ :=
      exists_advance_of_locate ht (hd [] (by simp) (by simpa using hne)) hlocate
    obtain rfl : k = l := by simpa [Step.ofPiece, advance, hkdir] using hlast'
    exact ⟨p.text, hopen, Path.join_of_slash hlast, looksInto_of_advance ht hd hk hdir⟩
  · refine ⟨p.text ++ ['/'], by simp [Path.IsOpen], fun n => ?_, looksInto_of_advance ht
      (d := p.steps) (fun w hw _ => ?_) hadvance hdir⟩
    · rw [Path.join_of_ne_slash hlast hc, List.append_assoc]
      rfl
    · rw [List.append_assoc, List.singleton_append]
      exact Path.steps_append_slash hne hw

end HasNoLinks

end FileTree

end Marginalia
