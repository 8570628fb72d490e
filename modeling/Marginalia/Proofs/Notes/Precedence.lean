import Marginalia.Proofs.Notes.Places
import Marginalia.Proofs.Standalone.Selection

/-!
# Which note a line has

Notes from three sources are put on the lines one after the other, and a later one takes the place
of an earlier one. So the note on a line is that of the last docstring that covers it, or else that
of the standalone literal, or else that of the comment on it (`Notes.get?_withDocstrings`). Which
standalone literal or comment this is needs no order: a line has at most one of each, by the order
in which tokens stand in a source.

`HasPrecedence` lists these cases, together with what follows from them: docstrings without a common
line may come in any order, and there is a note for each covered line and for no other.
-/

namespace Marginalia

/-- The lines of the docstrings `ds`, of the standalone literals, and of the comments. -/
def coveredLines (ts : List Token) (ds : List Literal) : Finset ℕ :=
  ((ds ++ standaloneStrings ts).flatMap Literal.lines ++
    (commentTokens ts).map (·.start.line)).toFinset

/-- The notes `ns` are those of the tokens `ts` with the docstrings `ds` laid over them: the last
docstring on a line goes first, then the standalone literal on it, then the comment. -/
structure HasPrecedence (ts : List Token) (ds : List Literal) (ns : Notes) : Prop where
  docstring : ∀ n d earlier later, ds = earlier ++ d :: later → n ∈ d.lines →
    (∀ e ∈ later, n ∉ e.lines) → ns.get? n = some (d.noteOn .docstring n)
  standalone : ∀ n, (∀ d ∈ ds, n ∉ d.lines) → ∀ s ∈ standaloneStrings ts, n ∈ s.lines →
    ns.get? n = some (s.noteOn .standaloneString n)
  comment : ∀ n, (∀ d ∈ ds ++ standaloneStrings ts, n ∉ d.lines) → ∀ u ∈ ts, u.kind = .comment →
    u.start.line = n → ns.get? n = some ⟨u.text, .comment, u.start.column, none⟩
  nothing : ∀ n, n ∉ coveredLines ts ds → ns.get? n = none
  oneStandalone : ∀ n, (standaloneStrings ts).countP (n ∈ ·.lines) ≤ 1
  oneComment : ∀ n, (commentTokens ts).countP (·.start.line = n) ≤ 1
  /-- The order of docstrings without a common line does not matter. -/
  eq_of_perm : ∀ ds', ds.Perm ds' → (ds.Pairwise fun d e => ∀ n ∈ d.lines, n ∉ e.lines) →
    (Notes.ofTokens ts).withDocstrings ds' = ns
  size_eq : ns.size = (coveredLines ts ds).card

/-! ## Searching -/

section Search

variable {α : Type} {p : α → Bool}

theorem find?_eq_some_of_forall_eq {l : List α} {a : α} (ha : a ∈ l) (hp : p a = true)
    (hone : ∀ b ∈ l, p b = true → b = a) : l.find? p = some a := by
  obtain ⟨b, hb⟩ := Option.isSome_iff_exists.1 (List.find?_isSome.2 ⟨a, ha, hp⟩)
  rw [hb, hone b (List.mem_of_find?_eq_some hb) (List.find?_some hb)]

/-- If only one element can be found, it is found in every order. -/
theorem find?_eq_of_perm {l l' : List α} (h : l.Perm l')
    (hone : ∀ a ∈ l, ∀ b ∈ l, p a = true → p b = true → a = b) : l.find? p = l'.find? p := by
  cases hfind : l'.find? p with
  | none =>
    rw [List.find?_eq_none] at hfind ⊢
    exact fun a ha => hfind a (h.mem_iff.1 ha)
  | some b =>
    have hb := h.mem_iff.2 (List.mem_of_find?_eq_some hfind)
    have hpb := List.find?_some hfind
    exact find?_eq_some_of_forall_eq hb hpb fun a ha hpa => hone a ha b hb hpa hpb

theorem countP_le_one {r : α → α → Prop} {l : List α} (h : l.Pairwise r)
    (hr : ∀ a b, r a b → p a = true → p b = false) : l.countP p ≤ 1 := by
  induction h with
  | nil => exact Nat.zero_le _
  | @cons a l ha _ ih =>
    rw [List.countP_cons]
    cases hp : p a with
    | false => simpa using ih
    | true =>
      have hrest : l.countP p = 0 :=
        List.countP_eq_zero.2 fun b hb => by simp [hr a b (ha b hb) hp]
      simp [hrest]

end Search

/-! ## The lookup -/

theorem mem_coveredLines {ts : List Token} {ds : List Literal} {n : ℕ} :
    n ∈ coveredLines ts ds ↔ (∃ d ∈ ds, n ∈ d.lines) ∨ (∃ s ∈ standaloneStrings ts, n ∈ s.lines) ∨
      ∃ u ∈ commentTokens ts, u.start.line = n := by
  simp [coveredLines]

namespace Notes

theorem get?_withDocstrings_eq_none_iff {ts : List Token} {ds : List Literal} {n : ℕ} :
    ((ofTokens ts).withDocstrings ds).get? n = none ↔ n ∉ coveredLines ts ds := by
  rw [get?_withDocstrings, mem_coveredLines]
  simp only [Option.or_eq_none_iff, Option.map_eq_none_iff, find?_covers_eq_none]
  simp

/-- Notes are determined by what the lookup finds. -/
theorem ext_get? {ns ns' : Notes} (h : ∀ n, ns.get? n = ns'.get? n) : ns = ns' := by
  have hmem : ∀ e, e ∈ ns.toList ↔ e ∈ ns'.toList := fun e => by
    rw [← get?_eq_some_iff, ← get?_eq_some_iff, h]
  have hnodup : ∀ ns : Notes, ns.toList.Nodup := fun ns => .of_map Prod.fst ns.nodup_lines
  have hperm := (List.perm_ext_iff_of_nodup (hnodup ns) (hnodup ns')).2 hmem
  have hlist : ns.toList = ns'.toList :=
    hperm.eq_of_pairwise (fun _ _ _ _ hlt hgt => absurd hgt hlt.asymm) ns.ascending ns'.ascending
  cases ns
  cases ns'
  simpa using hlist

theorem size_withDocstrings (ts : List Token) (ds : List Literal) :
    ((ofTokens ts).withDocstrings ds).size = (coveredLines ts ds).card := by
  rw [size_eq_card]
  congr 1
  ext n
  rw [List.mem_toFinset, List.mem_map, ← not_iff_not, ← get?_withDocstrings_eq_none_iff,
    Option.eq_none_iff_forall_ne_some]
  simp [get?_eq_some_iff]

end Notes

/-! ## The order of precedence -/

/-- Docstrings without a common line may come in any order. -/
theorem find?_covers_eq_of_perm {ds ds' : List Literal} (h : ds.Perm ds')
    (hdisjoint : ds.Pairwise fun d e => ∀ n ∈ d.lines, n ∉ e.lines) (n : ℕ) :
    ds.reverse.find? (·.covers n) = ds'.reverse.find? (·.covers n) := by
  have hsymm : Std.Symm fun d e : Literal => ∀ n ∈ d.lines, n ∉ e.lines :=
    ⟨fun _ _ hde n he hd => hde n hd he⟩
  refine find?_eq_of_perm (ds.reverse_perm.trans (h.trans ds'.reverse_perm.symm)) ?_
  intro d hd e he hdn hen
  by_contra hne
  exact hdisjoint.forall (List.mem_reverse.1 hd) (List.mem_reverse.1 he) hne n
    (Literal.covers_iff.1 hdn) (Literal.covers_iff.1 hen)

section Tokenize

variable {source : Text} {ts : List Token} (h : tokenize source = .ok ts)
include h

/-- A line has at most one standalone literal. -/
theorem find?_covers_of_mem_standaloneStrings {s : Literal} {n : ℕ} (hs : s ∈ standaloneStrings ts)
    (hn : n ∈ s.lines) : (standaloneStrings ts).reverse.find? (·.covers n) = some s := by
  refine find?_eq_some_of_forall_eq (List.mem_reverse.2 hs) (Literal.covers_iff.2 hn) ?_
  intro d hd hdn
  have hd' := Literal.mem_lines.1 (Literal.covers_iff.1 hdn)
  have hs' := Literal.mem_lines.1 hn
  rcases eq_or_of_mem_standaloneStrings h (List.mem_reverse.1 hd) hs with rfl | hlt | hlt
  · rfl
  · omega
  · omega

/-- **Which note a line has**, and that it is settled by the line alone. -/
theorem hasPrecedence (ds : List Literal) :
    HasPrecedence ts ds ((Notes.ofTokens ts).withDocstrings ds) where
  docstring n d earlier later hds hn hlater := by
    have hfind : ds.reverse.find? (·.covers n) = some d := by
      rw [List.find?_eq_some_iff_append]
      refine ⟨Literal.covers_iff.2 hn, later.reverse, earlier.reverse, by simp [hds], ?_⟩
      intro e he
      simpa [← Literal.covers_iff] using hlater e (List.mem_reverse.1 he)
    rw [Notes.get?_withDocstrings, hfind, Option.map_some, Option.some_or]
  standalone n hds s hs hn := by
    rw [Notes.get?_withDocstrings, Notes.find?_covers_eq_none.2 hds,
      find?_covers_of_mem_standaloneStrings h hs hn]
    rfl
  comment n hds u hu hk hline := by
    rw [List.forall_mem_append] at hds
    have hfind : (commentTokens ts).reverse.find? (·.start.line = n) = some u := by
      refine find?_eq_some_of_forall_eq ?_ (by simpa using hline) fun v hv hvn => ?_
      · exact List.mem_reverse.2 (List.mem_filter.2 ⟨hu, by simpa using hk⟩)
      · obtain ⟨hv, hkv⟩ := List.mem_filter.1 (List.mem_reverse.1 hv)
        exact eq_of_comment_of_comment h hv (by simpa using hkv) hu hk
          ((of_decide_eq_true hvn).trans hline.symm)
    rw [Notes.get?_withDocstrings, Notes.find?_covers_eq_none.2 hds.1,
      Notes.find?_covers_eq_none.2 hds.2, hfind]
    rfl
  nothing n hn := Notes.get?_withDocstrings_eq_none_iff.2 hn
  oneStandalone n := by
    refine countP_le_one (pairwise_standaloneStrings h) fun d e hlt hd => ?_
    simp only [decide_eq_true_eq, decide_eq_false_iff_not, Literal.mem_lines] at hd ⊢
    omega
  oneComment n := by
    have hlines : (commentTokens ts).Pairwise fun u v => u.start.line < v.start.line := by
      rw [commentTokens, List.pairwise_filter, List.pairwise_iff_getElem]
      intro i j hi hj hij hku hkv
      exact line_lt_of_comment_of_comment h (List.getElem?_eq_getElem hi) (by simpa using hku)
        (List.getElem?_eq_getElem hj) (by simpa using hkv) hij
    refine countP_le_one hlines fun u v hlt hu => ?_
    simp only [decide_eq_true_eq, decide_eq_false_iff_not] at hu ⊢
    omega
  eq_of_perm ds' hperm hdisjoint := Notes.ext_get? fun n => by
    rw [Notes.get?_withDocstrings, Notes.get?_withDocstrings,
      find?_covers_eq_of_perm hperm hdisjoint]
  size_eq := Notes.size_withDocstrings ts ds

end Tokenize

/-- A literal that ends in front of a comment, and a comment after code. -/
def threeLines : Text := "'''a\n''' # b\nx # c\n".toList

/-- The tokens of `threeLines`. -/
def threeLineTokens : List Token :=
  [.at .string "'''a\n'''".toList ⟨1, 0⟩, .at .comment "# b".toList ⟨2, 4⟩,
   ⟨.newline, ['\n'], ⟨2, 7⟩, ⟨2, 8⟩⟩, .at .name ['x'] ⟨3, 0⟩, .at .comment "# c".toList ⟨3, 2⟩,
   ⟨.newline, ['\n'], ⟨3, 5⟩, ⟨3, 6⟩⟩, .at .endMarker [] ⟨4, 0⟩]

/-- A docstring on the first line of `threeLines` only. -/
def firstLineDocstring : Literal := ⟨⟨1, 0⟩, ⟨1, 4⟩, "'''a".toList⟩

theorem tokenize_threeLines : tokenize threeLines = .ok threeLineTokens := by
  decide +kernel

/-- The three lines have the notes of a docstring, a standalone literal and a comment. -/
theorem hasPrecedence_threeLines :
    (tokenize threeLines = .ok threeLineTokens ∧
      ((Notes.ofTokens threeLineTokens).withDocstrings [firstLineDocstring]).toList.map
        (fun e => (e.1, e.2.kind)) =
          [(1, .docstring), (2, .standaloneString), (3, .comment)]) ∧
    HasPrecedence threeLineTokens [firstLineDocstring]
      ((Notes.ofTokens threeLineTokens).withDocstrings [firstLineDocstring]) :=
  ⟨⟨tokenize_threeLines, by decide +kernel⟩, hasPrecedence tokenize_threeLines _⟩

end Marginalia
