import Mathlib.Data.List.Induction
import Mathlib.Data.Finset.Basic
import Marginalia.Proofs.Standalone

/-!
# Verdicts without the strings that stand alone

Whether a string stands alone is judged by the nearest tokens that bear meaning. When strings are
taken out, those around them get other neighbours. Still no verdict changes
(`isStandalone_without`), if what is taken out are strings that stand alone themselves, each behind
a token that bears meaning:

* in front, such a string binds nothing, and what takes its place as a neighbour is the token it was
  judged by, which binds nothing either (`find?_reverse_remaining`);
* behind, it closes nothing, and neither does the token that takes its place
  (`any_closesPrevious_remaining`).

A string with nothing in front that bears meaning is different, for it stands alone whatever follows
it; so does then the string behind it that becomes the first.
-/

namespace Marginalia

/-! ## Taking tokens out -/

/-- What remains of the tokens, the first of which has index `n`, without those at the indices in
`R`. -/
def remainingFrom (R : Finset ℕ) : ℕ → List Token → List Token
  | _, [] => []
  | n, t :: ts => if n ∈ R then remainingFrom R (n + 1) ts else t :: remainingFrom R (n + 1) ts

/-- The tokens without those at the indices in `R`. -/
def without (ts : List Token) (R : Finset ℕ) : List Token :=
  remainingFrom R 0 ts

/-- The index of token `j` when the tokens at the indices in `R` are gone. -/
def indexWithout (R : Finset ℕ) (j : ℕ) : ℕ :=
  (List.range j).countP (· ∉ R)

section Remaining

variable (R : Finset ℕ)

theorem remainingFrom_append (n : ℕ) (x y : List Token) :
    remainingFrom R n (x ++ y) = remainingFrom R n x ++ remainingFrom R (n + x.length) y := by
  induction x generalizing n with
  | nil => rfl
  | cons t x ih =>
    have hindex : n + 1 + x.length = n + (t :: x).length := by
      rw [List.length_cons]
      omega
    rw [List.cons_append, remainingFrom, remainingFrom, ih, hindex]
    split <;> rfl

theorem length_remainingFrom (n : ℕ) (ts : List Token) :
    (remainingFrom R n ts).length = (List.range' n ts.length).countP (· ∉ R) := by
  induction ts generalizing n with
  | nil => rfl
  | cons t ts ih =>
    rw [remainingFrom, List.length_cons, List.range'_succ, List.countP_cons, ← ih]
    by_cases hn : n ∈ R <;> simp [hn]

theorem remainingFrom_subset (n : ℕ) (ts : List Token) : remainingFrom R n ts ⊆ ts := by
  induction ts generalizing n with
  | nil => exact List.Subset.refl []
  | cons t ts ih =>
    rw [remainingFrom]
    split
    · exact List.subset_cons_of_subset t (ih _)
    · exact List.cons_subset_cons t (ih _)

/-- A token that is not taken out splits what remains where it split the tokens. -/
theorem without_append_cons {pre : List Token} (u : Token) (post : List Token)
    (hu : pre.length ∉ R) :
    without (pre ++ u :: post) R =
        remainingFrom R 0 pre ++ u :: remainingFrom R (pre.length + 1) post ∧
      indexWithout R pre.length = (remainingFrom R 0 pre).length := by
  refine ⟨?_, ?_⟩
  · rw [without, remainingFrom_append, Nat.zero_add, remainingFrom, if_neg hu]
  · rw [indexWithout, length_remainingFrom, List.range_eq_range']

end Remaining

/-! ## Strings that can go -/

/-- The token at index `i` is a string that stands alone, behind some token that bears meaning. -/
structure IsLooseString (ts : List Token) (i : ℕ) : Prop where
  string : ∃ u, ts[i]? = some u ∧ u.kind = .string
  standsAlone : isStandalone ts i = true
  behind : ∃ p ∈ ts.take i, p.isSemantic = true

theorem Token.isSemantic_of_string {t : Token} (h : t.kind = .string) : t.isSemantic = true := by
  simp [isSemantic, h, TokenKind.isLayout]

theorem Token.bindsNext_of_string {t : Token} (h : t.kind = .string) : t.bindsNext = false := by
  simp [bindsNext, bindingOperators, bindingKeywords, isOp, isName, h]

theorem Token.closesPrevious_of_string {t : Token} (h : t.kind = .string) :
    t.closesPrevious = false := by
  simp [closesPrevious, trailingOperators, isOp, h]

/-- What a loose string is judged by: in front a token that binds nothing, and behind none that
closes anything. -/
theorem IsLooseString.neighbours {pre post : List Token} {u : Token}
    (h : IsLooseString (pre ++ u :: post) pre.length) : u.kind = .string ∧
      (∃ p, pre.reverse.find? Token.isSemantic = some p ∧ p.bindsNext = false) ∧
      (post.find? Token.isSemantic).any Token.closesPrevious = false := by
  obtain ⟨v, hv, hk⟩ := h.string
  obtain rfl : u = v := Option.some_inj.1 ((getElem?_length_of_eq_append rfl).symm.trans hv)
  have halone := h.standsAlone
  rw [isStandalone_append_cons, standsAloneBetween] at halone
  cases hp : pre.reverse.find? Token.isSemantic with
  | none =>
    obtain ⟨p, hmem, hsem⟩ := h.behind
    rw [List.take_left] at hmem
    exact absurd hsem (List.find?_eq_none.1 hp p (List.mem_reverse.2 hmem))
  | some p =>
    simp only [hp, Bool.and_eq_true, Bool.not_eq_true'] at halone
    exact ⟨hk, ⟨p, rfl, halone.1⟩, halone.2⟩

section Loose

variable {R : Finset ℕ}

/-- **In front** of a place, the nearest token that remains binds what the nearest one bound. -/
theorem find?_reverse_remaining {pre post : List Token} {p : Token}
    (hR : ∀ i ∈ R, IsLooseString (pre ++ post) i)
    (hp : pre.reverse.find? Token.isSemantic = some p) :
    ∃ q, (remainingFrom R 0 pre).reverse.find? Token.isSemantic = some q ∧
      q.bindsNext = p.bindsNext := by
  induction pre using List.reverseRecOn generalizing post p with
  | nil => simp at hp
  | append_singleton pre v ih =>
    rw [List.append_assoc, List.singleton_append] at hR
    rw [List.reverse_append, List.reverse_singleton, List.singleton_append, List.find?_cons] at hp
    rw [remainingFrom_append, Nat.zero_add, remainingFrom, remainingFrom]
    by_cases hv : pre.length ∈ R
    · -- the string that goes leaves its place to the token it was judged by
      obtain ⟨hk, ⟨p', hp', hbinds⟩, -⟩ := (hR _ hv).neighbours
      obtain ⟨q, hq, hqp⟩ := ih hR hp'
      rw [Token.isSemantic_of_string hk] at hp
      obtain rfl : v = p := Option.some_inj.1 hp
      rw [if_pos hv, List.append_nil]
      exact ⟨q, hq, by rw [hqp, hbinds, Token.bindsNext_of_string hk]⟩
    · rw [if_neg hv, List.reverse_append, List.reverse_singleton, List.singleton_append,
        List.find?_cons]
      cases hsem : v.isSemantic with
      | true =>
        rw [hsem] at hp
        exact ⟨v, rfl, congrArg Token.bindsNext (Option.some_inj.1 hp)⟩
      | false =>
        rw [hsem] at hp
        exact ih hR hp

/-- **Behind** a place, the nearest token that remains closes what the nearest one closed. -/
theorem any_closesPrevious_remaining (pre : List Token) {post : List Token}
    (hR : ∀ i ∈ R, IsLooseString (pre ++ post) i) :
    ((remainingFrom R pre.length post).find? Token.isSemantic).any Token.closesPrevious =
      (post.find? Token.isSemantic).any Token.closesPrevious := by
  induction post generalizing pre with
  | nil => rfl
  | cons v post ih =>
    have hrest := ih (pre ++ [v]) (by rwa [List.append_assoc, List.singleton_append])
    rw [List.length_append, List.length_singleton] at hrest
    rw [remainingFrom]
    by_cases hv : pre.length ∈ R
    · obtain ⟨hk, -, hcloses⟩ := (hR _ hv).neighbours
      rw [if_pos hv, hrest, hcloses, List.find?_cons, Token.isSemantic_of_string hk,
        Option.any_some, Token.closesPrevious_of_string hk]
    · rw [if_neg hv, List.find?_cons, List.find?_cons]
      cases v.isSemantic with
      | true => rfl
      | false => exact hrest

/-- **No verdict changes when strings that stand alone are taken out**, each of them behind a token
that bears meaning: every other token stands alone afterwards if it did before. -/
theorem isStandalone_without {ts : List Token} (hR : ∀ i ∈ R, IsLooseString ts i) {j : ℕ}
    {u : Token} (hu : ts[j]? = some u) (hj : j ∉ R) :
    (without ts R)[indexWithout R j]? = some u ∧
      isStandalone (without ts R) (indexWithout R j) = isStandalone ts j := by
  obtain ⟨pre, post, rfl, rfl⟩ := exists_append_of_getElem? hu
  obtain ⟨hsplit, hindex⟩ := without_append_cons R u post hj
  have hbehind : ((remainingFrom R (pre.length + 1) post).find? Token.isSemantic).any
      Token.closesPrevious = (post.find? Token.isSemantic).any Token.closesPrevious := by
    have hR' : ∀ i ∈ R, IsLooseString ((pre ++ [u]) ++ post) i := by
      rwa [List.append_assoc, List.singleton_append]
    have hremaining := any_closesPrevious_remaining (pre ++ [u]) hR'
    rwa [List.length_append, List.length_singleton] at hremaining
  rw [hsplit, hindex, isStandalone_append_cons, isStandalone_append_cons]
  refine ⟨getElem?_length_of_eq_append rfl, ?_⟩
  rw [standsAloneBetween, standsAloneBetween, hbehind]
  cases hp : pre.reverse.find? Token.isSemantic with
  | none =>
    have hnone : (remainingFrom R 0 pre).reverse.find? Token.isSemantic = none := by
      rw [List.find?_eq_none] at hp ⊢
      intro v hv
      exact hp v (List.mem_reverse.2 (remainingFrom_subset R 0 pre (List.mem_reverse.1 hv)))
    rw [hnone]
  | some p =>
    obtain ⟨q, hq, hqp⟩ := find?_reverse_remaining hR hp
    simp only [hq, hqp]

end Loose

/-- A name and three strings that are statements behind it. -/
def looseTokens : List Token :=
  [.at .name ['y'] ⟨1, 0⟩, ⟨.newline, ['\n'], ⟨1, 1⟩, ⟨1, 2⟩⟩, .at .string "'''a'''".toList ⟨2, 0⟩,
   ⟨.newline, ['\n'], ⟨2, 7⟩, ⟨2, 8⟩⟩, .at .string "'''b'''".toList ⟨3, 0⟩,
   ⟨.newline, ['\n'], ⟨3, 7⟩, ⟨3, 8⟩⟩, .at .string "'''c'''".toList ⟨4, 0⟩,
   ⟨.newline, ['\n'], ⟨4, 7⟩, ⟨4, 8⟩⟩, .at .endMarker [] ⟨5, 0⟩]

theorem isLooseString_looseTokens {i : ℕ} (h : i ∈ ({2, 4} : Finset ℕ)) :
    IsLooseString looseTokens i := by
  rcases Finset.mem_insert.1 h with rfl | h
  · exact ⟨⟨_, rfl, rfl⟩, rfl, _, List.mem_cons_self, rfl⟩
  · obtain rfl := Finset.mem_singleton.1 h
    exact ⟨⟨_, rfl, rfl⟩, rfl, _, List.mem_cons_self, rfl⟩

/-- Without the first two strings, the third one is judged by the name, and stands alone still. -/
theorem isStandalone_without_looseTokens :
    ((∀ i ∈ ({2, 4} : Finset ℕ), IsLooseString looseTokens i) ∧
      looseTokens[6]? = some (.at .string "'''c'''".toList ⟨4, 0⟩) ∧ 6 ∉ ({2, 4} : Finset ℕ)) ∧
    (without looseTokens {2, 4})[indexWithout {2, 4} 6]? =
        some (.at .string "'''c'''".toList ⟨4, 0⟩) ∧
      isStandalone (without looseTokens {2, 4}) (indexWithout {2, 4} 6) =
        isStandalone looseTokens 6 :=
  ⟨⟨fun _ => isLooseString_looseTokens, rfl, by decide⟩,
    isStandalone_without (fun _ => isLooseString_looseTokens) rfl (by decide)⟩

end Marginalia
