import Marginalia.Proofs.Docstring
import Marginalia.Proofs.Notes.Precedence
import Marginalia.Proofs.Notes.Shift

/-!
# One literal, measured twice

The scanner knows where a literal stands from the positions that it counts on its way. A syntax tree
knows two offsets in bytes, and the literal is measured from them (`literalAtBytes?`). For a string
token this gives the literal of the token, once the columns that a byte order mark takes up are
added to the first line (`shiftFirstLine_sliceLiteral`).

So a docstring that is a standalone literal too is recorded with the same content, column and extent
(`measuresAlike_of_tokenize`).
-/

namespace Marginalia

/-! ## The literal of a token -/

section Token

variable {width : ℕ} {t : Text} {u : Token}

/-- The index of a character is told by its place. -/
theorem placeOf_injective {i j : ℕ} (hi : i ≤ t.length) (hj : j ≤ t.length)
    (h : t.placeOf width i = t.placeOf width j) : i = j := by
  rw [← Position.advanceBy_take, ← Position.advanceBy_take] at h
  have htake := Position.eq_of_advanceBy_eq (x := t.drop i) (y := t.drop j) (by simp) h
  have hlength := congrArg List.length htake
  rwa [List.length_take_of_le hi, List.length_take_of_le hj] at hlength

theorem Token.HasRange.unique {r s : ℕ × ℕ} (hr : u.HasRange width t r)
    (hs : u.HasRange width t s) : r = s := by
  have hstart : r.1 = s.1 :=
    placeOf_injective (hr.le.trans hr.le_length) (hs.le.trans hs.le_length)
      (hr.start_eq.symm.trans hs.start_eq)
  have hlength : ∀ {r : ℕ × ℕ}, u.HasRange width t r → u.text.length = r.2 - r.1 := by
    intro r hr
    rw [hr.text_eq, List.length_drop, List.length_take_of_le hr.le_length]
  have hsame := (hlength hr).symm.trans (hlength hs)
  have hle := hr.le
  have hle' := hs.le
  exact Prod.ext hstart (by omega)

/-- **What is cut out is the literal of the token**, when the columns of the first line are
shifted. -/
theorem shiftFirstLine_sliceLiteral {r : ℕ × ℕ} (hr : u.HasRange width t r)
    (hcode : IsCodeText u.text) :
    (sliceLiteral t r.1 r.2).shiftFirstLine width =
      ⟨u.start, u.start.advanceBy u.text, u.text⟩ := by
  have hmove := Position.isMove_shiftFirstLine width
  have hstart : (positionAt t r.1).shiftFirstLine width = u.start := by
    rw [hr.start_eq, ← Position.advanceBy_take, positionAt, hmove.advanceBy_eq (Nat.le_refl 1)]
    simp [Position.shiftFirstLine]
  have hone : 1 ≤ (positionAt t r.1).line := Position.one_le_line_advanceBy (Nat.le_refl 1) _
  have hstop : positionAt t r.2 = (positionAt t r.1).advanceBy u.text := by
    rw [positionAt, positionAt, ← Position.advanceBy_append, hr.text_eq]
    conv_lhs => rw [← List.take_append_drop r.1 (t.take r.2)]
    rw [List.take_take, min_eq_left hr.le]
  obtain ⟨c, hlast, hblank⟩ := hcode.last
  rw [sliceLiteral, ← hr.text_eq, hstop, Literal.ofText_eq hlast hblank, ← hstart,
    ← hmove.advanceBy_eq hone]
  generalize hd : (⟨positionAt t r.1, (positionAt t r.1).advanceBy u.text, u.text⟩ : Literal) = d
  have hle : d.start.line ≤ d.stop.line := hd ▸ Position.line_le (Position.le_advanceBy _ _)
  have hone' : 1 ≤ d.start.line := hd ▸ hone
  have heq : d.shiftFirstLine width =
      ⟨d.start.shiftFirstLine width, d.stop.shiftFirstLine width, d.text⟩ := by
    rw [← Literal.start_shiftFirstLine, ← Literal.stop_shiftFirstLine width hone' hle,
      ← Literal.text_shiftFirstLine width d]
  rw [heq, ← hd]

/-- The literal of a token of `t`, measured from the range of its characters, is the literal that
the scanner has seen. Line 1 of `t` begins at column `width`. -/
structure Token.MeasuresAlike (width : ℕ) (t : Text) (u : Token) : Prop where
  range : ∃! r, u.HasRange width t r
  bytes : ∀ r, u.HasRange width t r →
    (literalAtBytes? t (byteOffset t r.1) (byteOffset t r.2)).map (·.shiftFirstLine width) =
      some (.ofToken u)
  characters : ∀ r, u.HasRange width t r →
    (sliceLiteral t r.1 r.2).shiftFirstLine width = .ofToken u
  stop : (Literal.ofToken u).stop = u.stop

theorem Token.MeasuresAlike.of_hasRange {r : ℕ × ℕ} (hr : u.HasRange width t r)
    (hcode : IsCodeText u.text) (hliteral : Literal.ofToken u = ⟨u.start, u.stop, u.text⟩)
    (hstop : u.stop = u.start.advanceBy u.text) : u.MeasuresAlike width t := by
  have hcut : ∀ r, u.HasRange width t r →
      (sliceLiteral t r.1 r.2).shiftFirstLine width = .ofToken u := fun r hr => by
    rw [shiftFirstLine_sliceLiteral hr hcode, hliteral, hstop]
  exact {
    range := ⟨r, hr, fun _ hs => hs.unique hr⟩
    bytes := fun r hr => by
      rw [literalAtBytes?_eq t hr.le, Option.map_some, hcut r hr]
    characters := hcut
    stop := by rw [hliteral] }

end Token

/-! ## Docstrings that are standalone -/

section Tokenize

variable {source : Text} {ts : List Token} (h : tokenize source = .ok ts)
include h

/-- Each token has a range of characters. -/
theorem exists_hasRange_of_mem {u : Token} (hu : u ∈ ts) :
    ∃ r, u.HasRange (splitByteOrderMark source).2 (splitByteOrderMark source).1 r := by
  have htiles : Tiles ⟨1, (splitByteOrderMark source).2⟩ (splitByteOrderMark source).1 ts :=
    tiles_of_scan h
  obtain ⟨ranges, hcovers⟩ :=
    exists_coversFrom_of_tiles htiles (List.nil_append _).symm (Position.advanceBy_take _ _ 0)
  obtain ⟨hlength, hget⟩ := List.forall₂_iff_get.1 hcovers.tokens
  obtain ⟨i, hi, rfl⟩ := List.getElem_of_mem hu
  exact ⟨_, hget i hi (hlength ▸ hi)⟩

/-- Where the docstrings are standalone literals too, they change the kind of the note, and nothing
else. -/
theorem get?_withDocstrings_of_found {ds : List Literal} {n : ℕ}
    (hds : ∀ d ∈ ds, d.covers n = true → d ∈ standaloneStrings ts) :
    ((Notes.ofTokens ts).withDocstrings ds).get? n =
      ((Notes.ofTokens ts).get? n).map fun note =>
        if ds.any (·.covers n) then { note with kind := .docstring } else note := by
  have hbase := Notes.get?_withDocstrings ts [] n
  rw [List.reverse_nil, List.find?_nil, Option.map_none, Option.none_or] at hbase
  rw [Notes.get?_withDocstrings,
    show Notes.ofTokens ts = (Notes.ofTokens ts).withDocstrings [] from rfl, hbase]
  cases hfind : ds.reverse.find? (·.covers n) with
  | some d =>
    obtain ⟨hd, hn⟩ := Notes.of_find?_covers hfind
    have hcovers : d.covers n = true := Literal.covers_iff.2 hn
    rw [find?_covers_of_mem_standaloneStrings h (hds d hd hcovers) hn,
      List.any_eq_true.2 ⟨d, hd, hcovers⟩]
    rfl
  | none =>
    have hany : ds.any (·.covers n) = false := by
      rw [List.any_eq_false]
      intro d hd hcovers
      exact Notes.find?_covers_eq_none.1 hfind d hd (Literal.covers_iff.1 hcovers)
    rw [hany]
    simp

end Tokenize

/-- **Both paths give a literal the same place and the same text**, so that to record a docstring
that is a standalone literal too changes the kind of its notes only. -/
theorem measuresAlike_of_tokenize {source : Text} {ts : List Token} (h : tokenize source = .ok ts) :
    (∀ u ∈ ts, u.kind = .string →
      u.MeasuresAlike (splitByteOrderMark source).2 (splitByteOrderMark source).1) ∧
    ∀ ds n, (∀ d ∈ ds, d.covers n = true → d ∈ standaloneStrings ts) →
      ((Notes.ofTokens ts).withDocstrings ds).get? n =
        ((Notes.ofTokens ts).get? n).map fun note =>
          if ds.any (·.covers n) then { note with kind := .docstring } else note := by
  refine ⟨fun u hu hk => ?_, fun ds n => get?_withDocstrings_of_found h⟩
  have hc : u.kind.isCode = true := by rw [hk]; rfl
  obtain ⟨r, hr⟩ := exists_hasRange_of_mem h hu
  obtain ⟨hstop, hcode⟩ := isCodeText_of_mem h hu hc
  exact .of_hasRange hr hcode (Literal.ofToken_eq h hu hc) hstop

/-- A source with a byte order mark, characters of several bytes, and a literal over two lines. -/
def marked : Text := "\ufeff'''é\r\n€'''\nx = b'ü'\n".toList

/-- The tokens of `marked`. -/
def markedTokens : List Token :=
  [⟨.string, "'''é\r\n€'''".toList, ⟨1, 1⟩, ⟨2, 4⟩⟩, ⟨.newline, ['\n'], ⟨2, 4⟩, ⟨2, 5⟩⟩,
    ⟨.name, ['x'], ⟨3, 0⟩, ⟨3, 1⟩⟩, ⟨.op, ['='], ⟨3, 2⟩, ⟨3, 3⟩⟩,
    ⟨.string, "b'ü'".toList, ⟨3, 4⟩, ⟨3, 8⟩⟩, ⟨.newline, ['\n'], ⟨3, 8⟩, ⟨3, 9⟩⟩,
    ⟨.endMarker, [], ⟨4, 0⟩, ⟨4, 0⟩⟩]

theorem tokenize_marked : tokenize marked = .ok markedTokens := by
  decide +kernel

/-- The first literal of `marked` is measured from its bytes as the scanner has seen it, and to
record it as a docstring changes the kind of its note on line 2. -/
theorem measuresAlike_of_tokenize_marked :
    (∀ u ∈ markedTokens, u.kind = .string → u.MeasuresAlike 1 marked.tail) ∧
    (literalAtBytes? marked.tail 0 13).map (·.shiftFirstLine 1) =
      some ⟨⟨1, 1⟩, ⟨2, 4⟩, "'''é\r\n€'''".toList⟩ ∧
    ((Notes.ofTokens markedTokens).withDocstrings (standaloneStrings markedTokens)).get? 2 =
      ((Notes.ofTokens markedTokens).get? 2).map fun note =>
        if (standaloneStrings markedTokens).any (·.covers 2) then { note with kind := .docstring }
        else note :=
  ⟨(measuresAlike_of_tokenize tokenize_marked).1, by decide +kernel,
    (measuresAlike_of_tokenize tokenize_marked).2 _ 2 fun _ hd _ => hd⟩

end Marginalia
