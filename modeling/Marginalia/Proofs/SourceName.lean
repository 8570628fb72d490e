import Marginalia.Filter
import Marginalia.Proofs.Backup
import Marginalia.Proofs.FileTree.Neighbours

/-!
# The names of sources and of their copies

A source has a name with a stem and the extension of the language (`IsSourceName`). Its copy has
the same name with `.bak` after it, and a numbered copy has a number after that. So stripping a
source looks at no other names than these (`IsVariant`), and sources of different names have no
such name in common (`IsVariant.source_eq`): one is told by the last character whether it names a
source, a copy or a numbered copy, and the name of the source stands in front.

One name is special. From `..py` the end is cut before `.bak` is put, and what is left is the step
up and no name, so its copy would be the directory above (`copyName`).
-/

namespace Marginalia

namespace Path

/-! ## Stem and extension -/

theorem splitName_append {stem e : Text} (hstem : stem ≠ []) (he : '.' ∉ e) :
    splitName (stem ++ '.' :: e) = (stem, some e) := by
  have hsplit : (Text.splitAt '.' (stem ++ '.' :: e)).reverse =
      e :: (Text.splitAt '.' stem).reverse := by
    rw [Literal.splitAt_append_cons, Literal.splitAt_of_notMem he, List.reverse_concat]
  obtain ⟨a, r, har⟩ := List.exists_cons_of_ne_nil
    (List.reverse_ne_nil_iff.2 (Text.splitAt_ne_nil '.' stem))
  have hjoin : Text.joinWith ['.'] (a :: r).reverse = stem := by
    rw [← har, List.reverse_reverse, Text.joinWith_splitAt]
  rw [splitName, hsplit, har]
  simp only [hjoin]

theorem exists_of_splitName {n e : Text} (h : (splitName n).2 = some e) :
    ∃ stem, stem ≠ [] ∧ n = stem ++ '.' :: e := by
  by_cases hmem : '.' ∈ n
  · obtain ⟨stem, v, rfl, hv⟩ := Literal.exists_append_last hmem
    by_cases hstem : stem = []
    · subst hstem
      rw [List.nil_append, splitName, ← List.nil_append ('.' :: v), Literal.splitAt_append_cons,
        Literal.splitAt_of_notMem hv] at h
      simp [Text.splitAt, Text.joinWith] at h
    · rw [splitName_append hstem hv] at h
      exact ⟨stem, hstem, by rw [Option.some.inj h]⟩
  · rw [splitName, Literal.splitAt_of_notMem hmem] at h
    simp at h

/-! ## The end of a path -/

section Spelling

variable {u : Text} {ps : List Text}
  (hps : ∀ w, '/' ∉ w → u ++ w ≠ [] →
    pieces ⟨u ++ w⟩ = ps ++ [w] ∧ Text.joinWith ['/'] (ps ++ [w]) = u ++ w)
  {w : Text} (hw : '/' ∉ w)
include hps hw

theorem piecesFromEnd_append (hname : Step.ofPiece w ≠ .here) :
    piecesFromEnd ⟨u ++ w⟩ = w :: ps.reverse := by
  have hne : u ++ w ≠ [] := by
    intro h
    rw [(List.append_eq_nil_iff.1 h).2] at hname
    exact hname rfl
  have hidle : isIdle w = false := by simpa [isIdle] using hname
  rw [piecesFromEnd, (hps w hw hne).1, List.reverse_concat,
    List.dropWhile_cons_of_neg (by simp [hidle])]

theorem fileName_append (hname : Step.ofPiece w = .name w) : fileName ⟨u ++ w⟩ = some w := by
  rw [fileName, piecesFromEnd_append hps hw (by simp [hname])]
  simp only [hname]

/-- To put an extension changes the name only. -/
theorem putExtension_append (hname : Step.ofPiece w = .name w) {e : Text} (he : '/' ∉ e)
    (hstem : '/' ∉ (splitName w).1) :
    putExtension e ⟨u ++ w⟩ = ⟨u ++ ((splitName w).1 ++ '.' :: e)⟩ := by
  have hslash : '/' ∉ (splitName w).1 ++ '.' :: e := by simp [hstem, he]
  rw [putExtension, fileName_append hps hw hname, piecesFromEnd_append hps hw (by simp [hname])]
  simp only [List.tail_cons, List.reverse_cons, List.reverse_reverse]
  rw [(hps _ hslash (by simp)).2]

end Spelling

end Path

/-! ## Names of sources -/

/-- The name of a source. -/
structure IsSourceName (n : Text) : Prop where
  ofPiece : Step.ofPiece n = .name n
  slash : '/' ∉ n
  extension : (Path.splitName n).2 = some "py".toList

/-- The name of the copy. -/
def copyName (n : Text) : Text :=
  if n = "..py".toList then ['.', '.'] else n ++ ".bak".toList

theorem isSourceName_iff {u n : Text} (hu : Path.IsOpen u) (hn : Step.ofPiece n = .name n)
    (hslash : '/' ∉ n) : IsSourceName n ↔ Path.isPython ⟨u ++ n⟩ = true := by
  obtain ⟨ps, hps⟩ := Path.exists_pieces hu
  rw [Path.isPython, Path.extension, Path.fileName_append hps hslash hn, decide_eq_true_iff]
  exact ⟨fun h => h.extension, fun h => ⟨hn, hslash, h⟩⟩

namespace IsSourceName

variable {n : Text} (hn : IsSourceName n)
include hn

theorem exists_stem : ∃ stem, stem ≠ [] ∧ '/' ∉ stem ∧ n = stem ++ ".py".toList := by
  obtain ⟨stem, hstem, h⟩ := Path.exists_of_splitName hn.extension
  refine ⟨stem, hstem, fun hmem => hn.slash ?_, h⟩
  rw [h]
  exact List.mem_append_left _ hmem

/-- **The copy of a source** stands beside it. -/
theorem backup_eq {u : Text} (hu : Path.IsOpen u) : Path.backup ⟨u ++ n⟩ = ⟨u ++ copyName n⟩ := by
  obtain ⟨ps, hps⟩ := Path.exists_pieces hu
  obtain ⟨stem, hstem, hslash, hstem_eq⟩ := hn.exists_stem
  have hext : Path.extension ⟨u ++ n⟩ = some "py".toList := by
    rw [Path.extension, Path.fileName_append hps hn.slash hn.ofPiece]
    exact hn.extension
  -- the old extension is cut off, and the point in front of it stays
  have hcut : (u ++ n).take ((u ++ n).length - "py".toList.length) = u ++ (stem ++ ['.']) := by
    have hspell : u ++ n = u ++ (stem ++ ['.']) ++ "py".toList := by simp [hstem_eq]
    rw [hspell, List.length_append, Nat.add_sub_cancel, List.take_left]
  have hpoint : '/' ∉ stem ++ ['.'] := by simp [hslash]
  have hbackup : Path.backup ⟨u ++ n⟩ =
      Path.putExtension "py.bak".toList ⟨u ++ (stem ++ ['.'])⟩ := by
    rw [Path.backup, Path.withExtension, hext]
    exact congrArg (fun x => Path.putExtension "py.bak".toList ⟨x⟩) hcut
  rw [hbackup]
  by_cases hup : stem = ['.']
  · subst hup
    have hparent : Path.fileName ⟨u ++ ['.', '.']⟩ = none := by
      rw [Path.fileName, Path.piecesFromEnd_append hps (by decide) (by decide)]
      rfl
    have hdots : n = "..py".toList := hstem_eq
    rw [copyName, if_pos hdots]
    change Path.putExtension "py.bak".toList ⟨u ++ ['.', '.']⟩ = ⟨u ++ ['.', '.']⟩
    rw [Path.putExtension, hparent]
  · have hname : Step.ofPiece (stem ++ ['.']) = .name (stem ++ ['.']) := by
      match stem, hstem, hup with
      | [c], _, hup =>
        refine Step.ofPiece_of_mem (c := c) (by simp) ?_
        rintro rfl
        exact hup rfl
      | c :: d :: s, _, _ => rw [Step.ofPiece.eq_def]; simp
    have hsplit : Path.splitName (stem ++ ['.']) = (stem, some []) :=
      Path.splitName_append hstem (by simp)
    have hne : n ≠ "..py".toList := by
      rw [hstem_eq]
      intro (h : stem ++ ".py".toList = ['.'] ++ ".py".toList)
      exact hup (List.append_cancel_right h)
    rw [Path.putExtension_append hps hpoint hname (by decide) (by rw [hsplit]; exact hslash),
      hsplit, copyName, if_neg hne, hstem_eq]
    simp

theorem getLast? : n.getLast? = some 'y' := by
  obtain ⟨stem, -, -, rfl⟩ := hn.exists_stem
  rw [List.getLast?_append]
  rfl

theorem slash_copyName : '/' ∉ copyName n := by
  rw [copyName]
  split
  · decide
  · simp [hn.slash]

end IsSourceName

/-- The name of a source ends in `.py`, with something in front of it. -/
theorem isSourceName_iff_stem {n : Text} (hn : Step.ofPiece n = .name n) (hslash : '/' ∉ n) :
    IsSourceName n ↔ ∃ stem, stem ≠ [] ∧ n = stem ++ ".py".toList := by
  constructor
  · intro h
    obtain ⟨stem, hstem, -, heq⟩ := h.exists_stem
    exact ⟨stem, hstem, heq⟩
  · rintro ⟨stem, hstem, rfl⟩
    refine ⟨hn, hslash, ?_⟩
    exact congrArg Prod.snd (Path.splitName_append (e := "py".toList) hstem (by decide))

/-- The copy has a name, but for the one source whose copy would be the directory above. -/
theorem ofPiece_copyName {n : Text} (hne : n ≠ "..py".toList) :
    Step.ofPiece (copyName n) = .name (copyName n) := by
  rw [copyName, if_neg hne]
  exact Step.ofPiece_of_mem (c := 'k') (by simp) (by decide)

/-- The name of a copy with a number. -/
def numberedName (n : Text) (k : ℕ) : Text :=
  copyName n ++ '.' :: Text.ofNat k

theorem getLast?_copyName (n : Text) :
    (copyName n).getLast? = some '.' ∨ (copyName n).getLast? = some 'k' := by
  rw [copyName]
  split
  · exact Or.inl rfl
  · right
    rw [List.getLast?_append]
    rfl

theorem exists_getLast?_numberedName (n : Text) (k : ℕ) :
    ∃ c, (numberedName n k).getLast? = some c ∧ c.isDigit = true := by
  have hne := Text.ofNat_ne_nil k
  refine ⟨(Text.ofNat k).getLast hne, ?_, Text.isDigit_of_mem_ofNat (List.getLast_mem hne)⟩
  rw [numberedName, List.getLast?_append, List.getLast?_cons, List.getLast?_eq_some_getLast hne]
  rfl

theorem copyName_injective {n m : Text} (h : copyName n = copyName m) : n = m := by
  have hdots : ∀ x : Text, ['.', '.'] ≠ x ++ ".bak".toList := by
    intro x hx
    have hlast := congrArg List.getLast? hx
    rw [List.getLast?_append] at hlast
    change some '.' = some 'k' at hlast
    exact absurd hlast (by decide)
  rw [copyName, copyName] at h
  split_ifs at h with hn hm hm
  · rw [hn, hm]
  · exact absurd h (hdots m)
  · exact absurd h.symm (hdots n)
  · exact List.append_cancel_right h

/-- The number stands behind the last point. -/
theorem numberedName_injective {n m : Text} {j k : ℕ} (h : numberedName n j = numberedName m k) :
    n = m := by
  have hpoint : ∀ i, '.' ∉ Text.ofNat i := Text.notMem_ofNat (by decide)
  have hsplit := congrArg (Text.splitAt '.') h
  rw [numberedName, numberedName, Literal.splitAt_append_cons, Literal.splitAt_append_cons,
    Literal.splitAt_of_notMem (hpoint j), Literal.splitAt_of_notMem (hpoint k)] at hsplit
  have hjoin := congrArg (Text.joinWith ['.']) (List.append_inj' hsplit rfl).1
  rw [Text.joinWith_splitAt, Text.joinWith_splitAt] at hjoin
  exact copyName_injective hjoin

/-! ## The names that stripping looks at -/

theorem IsSourceName.ne_copyName {n : Text} (hn : IsSourceName n) (m : Text) : n ≠ copyName m := by
  rintro rfl
  rcases getLast?_copyName m with hm | hm
  · exact absurd (hm.symm.trans hn.getLast?) (by decide)
  · exact absurd (hm.symm.trans hn.getLast?) (by decide)

theorem IsSourceName.ne_numberedName {n : Text} (hn : IsSourceName n) (m : Text) (k : ℕ) :
    n ≠ numberedName m k := by
  rintro rfl
  obtain ⟨c, hc, hdigit⟩ := exists_getLast?_numberedName m k
  obtain rfl : 'y' = c := Option.some.inj (hn.getLast?.symm.trans hc)
  exact absurd hdigit (by decide)

theorem copyName_ne_numberedName (n m : Text) (k : ℕ) : copyName n ≠ numberedName m k := by
  intro h
  obtain ⟨c, hc, hdigit⟩ := exists_getLast?_numberedName m k
  rw [← h] at hc
  rcases getLast?_copyName n with hn | hn
  · obtain rfl : '.' = c := Option.some.inj (hn.symm.trans hc)
    exact absurd hdigit (by decide)
  · obtain rfl : 'k' = c := Option.some.inj (hn.symm.trans hc)
    exact absurd hdigit (by decide)

/-- A name that stripping the source `n` looks at. -/
def IsVariant (n x : Text) : Prop :=
  x = n ∨ x = copyName n ∨ ∃ k, x = numberedName n k

/-- A name that stripping looks at is the step up, or is looked up in the directory. -/
theorem IsVariant.eq_or {n x : Text} (hn : IsSourceName n) (h : IsVariant n x) :
    x = ['.', '.'] ∨ Step.ofPiece x = .name x ∧ '/' ∉ x := by
  rcases h with rfl | rfl | ⟨k, rfl⟩
  · exact Or.inr ⟨hn.ofPiece, hn.slash⟩
  · by_cases hdots : n = "..py".toList
    · left
      rw [copyName, if_pos hdots]
    · exact Or.inr ⟨ofPiece_copyName hdots, hn.slash_copyName⟩
  · right
    have hdigits : '/' ∉ Text.ofNat k := Text.notMem_ofNat (by decide) k
    obtain ⟨c, hc⟩ := List.exists_mem_of_ne_nil _ (Text.ofNat_ne_nil k)
    refine ⟨Step.ofPiece_of_mem (c := c) (by simp [numberedName, hc]) ?_, ?_⟩
    · rintro rfl
      exact Text.notMem_ofNat (by decide) k hc
    · simp [numberedName, hn.slash_copyName, hdigits]

/-- **Sources of different names have no copies of one name.** -/
theorem IsVariant.source_eq {n m x : Text} (hn : IsSourceName n) (hm : IsSourceName m)
    (h : IsVariant n x) (h' : IsVariant m x) : n = m := by
  rcases h with rfl | rfl | ⟨j, rfl⟩
  · rcases h' with h' | h' | ⟨k, h'⟩
    · exact h'
    · exact absurd h' (hn.ne_copyName m)
    · exact absurd h' (hn.ne_numberedName m k)
  · rcases h' with h' | h' | ⟨k, h'⟩
    · exact absurd h'.symm (hm.ne_copyName n)
    · exact copyName_injective h'
    · exact absurd h' (copyName_ne_numberedName n m k)
  · rcases h' with h' | h' | ⟨k, h'⟩
    · exact absurd h'.symm (hm.ne_numberedName n j)
    · exact absurd h'.symm (copyName_ne_numberedName m n j)
    · exact numberedName_injective h'

end Marginalia
