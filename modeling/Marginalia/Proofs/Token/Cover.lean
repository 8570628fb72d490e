import Mathlib.Data.List.Chain
import Marginalia.Proofs.Token.Tiling

/-!
# Tokens by their indices

The tiling of a source by its tokens, told by indices into its characters. Each token has a range
of characters, empty for the tokens that have none, and the ranges follow one another
(`CoversFrom`). A token starts at the place of its first index and ends at the place of its last
one, where the place of an index (`Text.placeOf`) is counted from the characters in front of it;
only a line feed ends on its own line. What no token covers is white space or part of a
continuation, which as a whole is covered by no token.

`tokenize_covers` reads this off the tiling, one tile after the other, the characters in front of
it being the index at which it begins.
-/

namespace Marginalia

/-- The place of the character of index `i`, by the line feeds and the last line of what stands
before it; `width` is the column at which line 1 begins. -/
def Text.placeOf (width : ℕ) (t : Text) (i : ℕ) : Position :=
  ⟨1 + List.count '\n' (t.take i),
    (Literal.lastLine (t.take i)).length + if '\n' ∈ t.take i then 0 else width⟩

/-- The token has the characters with an index in `[r.1, r.2)`, and stands at their place. -/
structure Token.HasRange (width : ℕ) (t : Text) (u : Token) (r : ℕ × ℕ) : Prop where
  le : r.1 ≤ r.2
  le_length : r.2 ≤ t.length
  text_eq : u.text = (t.take r.2).drop r.1
  start_eq : u.start = t.placeOf width r.1
  stop_eq : u.text ≠ ['\n'] → u.stop = t.placeOf width r.2
  stop_lineFeed : u.text = ['\n'] → u.stop = ⟨u.start.line, u.start.column + 1⟩

/-- The characters with an index in `[j, j + n)` are a backslash and the line break after it, and
belong to none of the ranges. -/
structure IsContinuationAt (t : Text) (ranges : List (ℕ × ℕ)) (j n : ℕ) : Prop where
  text : (t.drop j).take n = ['\\', '\n'] ∨ (t.drop j).take n = ['\\', '\r', '\n']
  free : ∀ r ∈ ranges, r.2 ≤ j ∨ j + n ≤ r.1

/-- The ranges are those of the tokens, in order, and cover the text from index `n` on up to white
space and continuations. -/
structure CoversFrom (width : ℕ) (t : Text) (n : ℕ) (ts : List Token) (ranges : List (ℕ × ℕ)) :
    Prop where
  tokens : List.Forall₂ (Token.HasRange width t) ts ranges
  order : ranges.IsChain fun r s => r.2 ≤ s.1
  le : ∀ r ∈ ranges, n ≤ r.1
  gap : ∀ i c, n ≤ i → t[i]? = some c → (∀ r ∈ ranges, ¬ (r.1 ≤ i ∧ i < r.2)) →
    isInlineSpace c = true ∨ ∃ j m, n ≤ j ∧ j ≤ i ∧ i < j + m ∧ IsContinuationAt t ranges j m

/-! ## The place of an index -/

/-- Going through a text comes to the place of each index. -/
theorem Position.advanceBy_take (width : ℕ) (t : Text) (i : ℕ) :
    (⟨1, width⟩ : Position).advanceBy (t.take i) = t.placeOf width i := by
  have hline := Position.line_advanceBy ⟨1, width⟩ (t.take i)
  have hcolumn : ((⟨1, width⟩ : Position).advanceBy (t.take i)).column =
      (Literal.lastLine (t.take i)).length + if '\n' ∈ t.take i then 0 else width := by
    by_cases hmem : '\n' ∈ t.take i
    · rw [Position.column_advanceBy_of_mem _ hmem, if_pos hmem, Nat.add_zero]
    · rw [Position.column_advanceBy_of_notMem _ hmem, if_neg hmem,
        Literal.lastLine_of_notMem hmem, Nat.add_comm]
  rw [Text.placeOf, ← hline, ← hcolumn]

/-- From one index of a text to a later one. -/
theorem Text.placeOf_append {width : ℕ} {t a x y : Text} {p : Position} (ht : t = a ++ (x ++ y))
    (hp : p = t.placeOf width a.length) : p.advanceBy x = t.placeOf width (a ++ x).length := by
  rw [hp, ← Position.advanceBy_take, ← Position.advanceBy_take, ← Position.advanceBy_append]
  congr 1
  rw [ht, List.take_left, ← List.append_assoc, List.take_left]

/-- A token ends where its characters do, but a line feed on its own line. -/
theorem Token.Fits.stop_cases {u : Token} {rest : Text} (h : u.Fits rest) :
    u.text = ['\n'] ∧ u.stop = ⟨u.start.line, u.start.column + 1⟩ ∨
      u.text ≠ ['\n'] ∧ u.stop = u.start.advanceBy u.text := by
  cases h with
  | @code k x p _ _ hx =>
    right
    refine ⟨?_, rfl⟩
    rintro (rfl : x = ['\n'])
    obtain ⟨c, hc, hblank, -⟩ := hx.head
    obtain rfl : '\n' = c := by simpa using hc
    exact absurd hblank (by decide)
  | comment => exact Or.inr ⟨by simp [Token.at], rfl⟩
  | lineFeed => exact Or.inl ⟨rfl, rfl⟩
  | @indent x p _ hx =>
    right
    refine ⟨?_, rfl⟩
    rintro (rfl : x = ['\n'])
    exact absurd (hx '\n' List.mem_cons_self) (by decide)
  | empty => exact Or.inr ⟨by simp, rfl⟩

/-! ## One tile more -/

namespace CoversFrom

variable {width n : ℕ} {t : Text} {ts : List Token} {ranges : List (ℕ × ℕ)}

theorem nil (h : t.length ≤ n) : CoversFrom width t n [] [] where
  tokens := .nil
  order := .nil
  le := by simp
  gap i c hi hc := by
    have := (List.getElem?_eq_some_iff.1 hc).1
    omega

/-- Tokens that come after a gap. -/
theorem gap_append {g : Text} (hg : IsGap g) (hat : g <+: t.drop n)
    (h : CoversFrom width t (n + g.length) ts ranges) : CoversFrom width t n ts ranges where
  tokens := h.tokens
  order := h.order
  le r hr := (Nat.le_add_right _ _).trans (h.le r hr)
  gap i c hi hc hfree := by
    by_cases hlt : i < n + g.length
    · cases hg with
      | @space d hd =>
        left
        obtain rfl : i = n := by simp at hlt; omega
        obtain ⟨y, hy⟩ := hat
        have hget : (t.drop i)[0]? = some c := by rwa [List.getElem?_drop, Nat.add_zero]
        rw [← hy] at hget
        obtain rfl : d = c := by simpa using hget
        exact hd
      | continuation hg =>
        right
        have htake : (t.drop n).take g.length = g := (List.prefix_iff_eq_take.1 hat).symm
        refine ⟨n, g.length, le_rfl, hi, hlt, ?_, fun r hr => Or.inr (h.le r hr)⟩
        rwa [htake]
    · rcases h.gap i c (by omega) hc hfree with hspace | ⟨j, m, hj, hcont⟩
      · exact Or.inl hspace
      · exact Or.inr ⟨j, m, (Nat.le_add_right _ _).trans hj, hcont⟩

/-- Tokens that come after a token. -/
theorem cons {u : Token} {rest : Text} (hu : u.Fits rest) (hat : u.text <+: t.drop n)
    (hn : n ≤ t.length) (hstart : u.start = t.placeOf width n)
    (h : CoversFrom width t (n + u.text.length) ts ranges) :
    CoversFrom width t n (u :: ts) ((n, n + u.text.length) :: ranges) where
  tokens := by
    refine .cons ?_ h.tokens
    have hlength := hat.length_le
    rw [List.length_drop] at hlength
    have htext : u.text = (t.take (n + u.text.length)).drop n := by
      rw [List.drop_take, Nat.add_sub_cancel_left]
      exact List.prefix_iff_eq_take.1 hat
    have hstop : u.start.advanceBy u.text = t.placeOf width (n + u.text.length) := by
      rw [hstart, ← Position.advanceBy_take, ← Position.advanceBy_take, ← Position.advanceBy_append,
        List.take_add, ← List.prefix_iff_eq_take.1 hat]
    rcases hu.stop_cases with ⟨hlf, hend⟩ | ⟨hlf, hend⟩
    · exact ⟨Nat.le_add_right _ _, by simp only; omega, htext, hstart, fun h => absurd hlf h,
        fun _ => hend⟩
    · exact ⟨Nat.le_add_right _ _, by simp only; omega, htext, hstart, fun _ => hend.trans hstop,
        fun h => absurd h hlf⟩
  order := h.order.cons fun r hr => h.le r (List.mem_of_mem_head? hr)
  le r hr := by
    rcases List.mem_cons.1 hr with rfl | hr
    · exact le_rfl
    · exact (Nat.le_add_right _ _).trans (h.le r hr)
  gap i c hi hc hfree := by
    have hout := hfree _ List.mem_cons_self
    have hle : n + u.text.length ≤ i := by simp only at hout; omega
    rcases h.gap i c hle hc fun r hr => hfree r (List.mem_cons_of_mem _ hr) with
      hspace | ⟨j, m, hnj, hji, hij, hcont⟩
    · exact Or.inl hspace
    · right
      refine ⟨j, m, (Nat.le_add_right _ _).trans hnj, hji, hij, hcont.text, fun r hr => ?_⟩
      rcases List.mem_cons.1 hr with rfl | hr
      · exact Or.inl hnj
      · exact hcont.free r hr

end CoversFrom

/-- Tokens that tile what is left of a text cover it from there on. -/
theorem exists_coversFrom_of_tiles {width : ℕ} {t rest : Text} {p : Position} {ts : List Token}
    (h : Tiles p rest ts) {a : Text} (ht : t = a ++ rest) (hp : p = t.placeOf width a.length) :
    ∃ ranges, CoversFrom width t a.length ts ranges := by
  induction h generalizing a with
  | nil =>
    refine ⟨[], .nil ?_⟩
    simp [ht]
  | @gap p g r ts hg _ ih =>
    obtain ⟨ranges, hranges⟩ := @ih (a ++ g) (by simp [ht]) (Text.placeOf_append ht hp)
    refine ⟨ranges, .gap_append hg ?_ ?_⟩
    · rw [ht, List.drop_left]
      exact List.prefix_append ..
    · rwa [List.length_append] at hranges
  | @token p u r ts hu hstart _ ih =>
    obtain ⟨ranges, hranges⟩ := @ih (a ++ u.text) (by simp [ht]) (Text.placeOf_append ht hp)
    refine ⟨_ :: ranges, .cons hu ?_ ?_ (hstart.trans hp) ?_⟩
    · rw [ht, List.drop_left]
      exact List.prefix_append ..
    · simp [ht]
    · rwa [List.length_append] at hranges

/-- **The tokens cover the source**: after an optional byte order mark, each token has a range of
characters, the ranges come one after the other, and between them there are only white space and
continuations. -/
theorem tokenize_covers {source : Text} {ts : List Token} (h : tokenize source = .ok ts) :
    ∃ ranges,
      CoversFrom (splitByteOrderMark source).2 (splitByteOrderMark source).1 0 ts ranges := by
  have htiles : Tiles ⟨1, (splitByteOrderMark source).2⟩ (splitByteOrderMark source).1 ts :=
    tiles_of_scan h
  refine exists_coversFrom_of_tiles htiles (List.nil_append _).symm ?_
  exact Position.advanceBy_take _ _ 0

/-- A source with a byte order mark, a continuation, and a literal on two lines. -/
def continued : Text := "\ufeffx = \\\r\n 'a\\\nb'\r\n".toList

/-- The tokens of `continued`. -/
def continuedTokens : List Token :=
  [⟨.name, ['x'], ⟨1, 1⟩, ⟨1, 2⟩⟩, ⟨.op, ['='], ⟨1, 3⟩, ⟨1, 4⟩⟩,
    ⟨.string, "'a\\\nb'".toList, ⟨2, 1⟩, ⟨3, 2⟩⟩, ⟨.newline, ['\n'], ⟨3, 3⟩, ⟨3, 4⟩⟩,
    ⟨.endMarker, [], ⟨4, 0⟩, ⟨4, 0⟩⟩]

theorem tokenize_continued : tokenize continued = .ok continuedTokens := by
  decide +kernel

/-- The tokens of `continued` cover it but for its first character. -/
theorem tokenize_covers_continued :
    ∃ ranges, CoversFrom 1 continued.tail 0 continuedTokens ranges :=
  tokenize_covers tokenize_continued

end Marginalia
