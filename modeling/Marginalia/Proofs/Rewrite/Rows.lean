import Mathlib.Data.List.SplitBy
import Marginalia.Proofs.Rewrite.Literals
import Marginalia.Proofs.Strip

/-!
# Statements row by row

A statement may go on over many physical lines, and whether a string in it is commentary is
decided by its nearest neighbours alone. So a statement need not go or stay as a whole when its
commentary is taken out (`not_strip_keepsLines`). But its rows do. A row (`rows`) is a stretch of
the statement that has no break between its tokens: each starts on the line where the one before
it ends. `strip_keepsRows` proves that the tokens of a row all stay in their places, or that one
literal reaches over them all, and goes with its lines.

A literal that goes and has one token of a row in it has the next one in it, too, because these
share a line (`liesIn_iff_of_line_eq`); and it goes from all lines of the row, whichever literals
the notes on these lines come from (`exists_literal_of_hasVerdict`).
-/

namespace Marginalia

/-- The code of each logical line: that of the tokens up to a `newline`. -/
def codeLines (ts : List Token) : List (List Token) :=
  (ts.splitBy fun u _ => u.kind != .newline).map (List.filter (·.kind.isCode))

/-- The rows of a logical line, which is cut where a token starts on a later physical line than
the one before it ends. -/
def rows (line : List Token) : List (List Token) :=
  line.splitBy fun u v => u.stop.line == v.start.line

/-- Line `n` has a part of the token. -/
def Token.IsOn (u : Token) (n : ℕ) : Prop := u.start.line ≤ n ∧ n ≤ u.stop.line

/-- The literal reaches over the token. -/
def Token.LiesIn (u : Token) (d : Literal) : Prop := d.start ≤ u.start ∧ u.stop ≤ d.stop

theorem Token.LiesIn.mem_lines {u : Token} {d : Literal} (h : u.LiesIn d) {n : ℕ}
    (hn : u.IsOn n) : n ∈ d.lines :=
  Literal.mem_lines.2
    ⟨(Position.line_le h.1).trans hn.1, hn.2.trans (Position.line_le h.2)⟩

theorem isCode_of_mem_rows {ts line row : List Token} (hline : line ∈ codeLines ts)
    (hrow : row ∈ rows line) {u : Token} (hu : u ∈ row) : u ∈ ts ∧ u.kind.isCode = true := by
  obtain ⟨piece, hpiece, rfl⟩ := List.mem_map.1 hline
  have hmem : u ∈ piece.filter (·.kind.isCode) := by
    rw [← List.flatten_splitBy (fun u v => u.stop.line == v.start.line) (piece.filter _)]
    exact List.mem_flatten_of_mem hrow hu
  obtain ⟨hu, hcode⟩ := List.mem_filter.1 hmem
  refine ⟨?_, hcode⟩
  rw [← List.flatten_splitBy (fun u _ => u.kind != .newline) ts]
  exact List.mem_flatten_of_mem hpiece hu

theorem isChain_of_mem_rows {line row : List Token} (hrow : row ∈ rows line) :
    row.IsChain fun u v => u.stop.line = v.start.line := by
  unfold rows at hrow
  simpa using List.isChain_of_mem_splitBy hrow

/-- What passes from each element to the next, and back, passes to all. -/
theorem iff_of_isChain {α : Type} {p : α → Prop} {l : List α}
    (h : l.IsChain fun a b => (p a ↔ p b)) {a b : α} (ha : a ∈ l) (hb : b ∈ l) : p a ↔ p b := by
  have : IsTrans α fun a b => (p a ↔ p b) := ⟨fun _ _ _ => Iff.trans⟩
  have : Std.Symm fun a b => (p a ↔ p b) := ⟨fun _ _ => Iff.symm⟩
  have hall := (List.isChain_iff_pairwise.1 h).forall_of_forall (fun a _ => Iff.refl (p a))
  exact hall ha hb

section Tokenize

variable {source : Text} {ts : List Token} (ht : tokenize source = .ok ts)
include ht

theorem Token.isOn_start {u : Token} (hu : u ∈ ts) (hcu : u.kind.isCode = true) :
    u.IsOn u.start.line := by
  refine ⟨le_rfl, ?_⟩
  rw [(isCodeText_of_mem ht hu hcu).1]
  exact Position.line_le (Position.le_advanceBy ..)

theorem Token.isOn_stop {u : Token} (hu : u ∈ ts) (hcu : u.kind.isCode = true) :
    u.IsOn u.stop.line :=
  ⟨(Token.isOn_start ht hu hcu).2, le_rfl⟩

/-- **A literal that goes does not end between tokens that share a line.** -/
theorem liesIn_iff_of_line_eq {d : Literal} {i j : ℕ} (hd : d.Runs source ts i j)
    (hrem : isRemovable (splitLines source) d.extent = true) {u v : Token} (hu : u ∈ ts)
    (hcu : u.kind.isCode = true) (hv : v ∈ ts) (hcv : v.kind.isCode = true)
    (hline : u.stop.line = v.start.line) : u.LiesIn d ↔ v.LiesIn d := by
  have huon := Token.isOn_stop ht hu hcu
  have hvon := Token.isOn_start ht hv hcv
  obtain ⟨k, hk⟩ := List.getElem?_of_mem hu
  obtain ⟨l, hl⟩ := List.getElem?_of_mem hv
  constructor
  · intro hin
    have hn : v.start.line ∈ d.lines := hline ▸ hin.mem_lines huon
    exact within_of_isRemovable ht hd hl hcv hn hvon.1 hvon.2 hrem
  · intro hin
    have hn : u.stop.line ∈ d.lines := hline ▸ hin.mem_lines hvon
    exact within_of_isRemovable ht hd hk hcu hn huon.1 huon.2 hrem

/-- A literal that goes, and has one token of a row in it, has them all. -/
theorem liesIn_of_mem_row {row : List Token} (hrow : ∀ u ∈ row, u ∈ ts ∧ u.kind.isCode = true)
    (hchain : row.IsChain fun u v => u.stop.line = v.start.line) {d : Literal} {i j : ℕ}
    (hd : d.Runs source ts i j) (hrem : isRemovable (splitLines source) d.extent = true)
    {u : Token} (hu : u ∈ row) (hin : u.LiesIn d) {v : Token} (hv : v ∈ row) : v.LiesIn d := by
  have hsame : row.IsChain fun u v => (u.LiesIn d ↔ v.LiesIn d) := by
    apply hchain.imp_of_mem_imp
    intro u v hu hv hline
    exact liesIn_iff_of_line_eq ht hd hrem (hrow u hu).1 (hrow u hu).2 (hrow v hv).1
      (hrow v hv).2 hline
  exact (iff_of_isChain hsame hu hv).1 hin

/-- A token stays in its place, if no line of it has the note of a literal that goes. -/
theorem standsAt_rewrite_of_not_hasVerdict {ds : List Literal} {u : Token} (hu : u ∈ ts)
    (hcu : u.kind.isCode = true)
    (hno : ∀ n, u.IsOn n → ¬ ((Notes.ofTokens ts).withDocstrings ds).HasVerdict source true n) :
    Text.StandsAt (rewrite source ((Notes.ofTokens ts).withDocstrings ds) false).content
      u.text u.start := by
  obtain ⟨k, hk⟩ := List.getElem?_of_mem hu
  apply Text.standsAt_of_getElem? (isCodeText_of_mem ht hu hcu).2.ne_nil
  intro m c hm
  apply standsAt_rewrite_char_of_note ht hk hcu hm
  intro note x hget hkind hx
  by_contra hrem
  rw [Bool.not_eq_false] at hrem
  exact hno _ (line_advanceBy_take ht hu hcu m) ⟨note, x, hget, hkind, hx, hrem⟩

section Docstrings

variable {ds : List Literal} (hapart : ds.Pairwise Literal.Apart)
include hapart

/-- **A verdict on one line is that on all lines of a literal.** -/
theorem exists_literal_of_hasVerdict {n : ℕ} {goes : Bool}
    (h : ((Notes.ofTokens ts).withDocstrings ds).HasVerdict source goes n)
    (hds : ∀ e ∈ ds, n ∈ e.lines → ∃ k l, e.Runs source ts k l) :
    ∃ d ∈ standaloneStrings ts ++ ds, n ∈ d.lines ∧
      isRemovable (splitLines source) d.extent = goes ∧ (∃ i j, d.Runs source ts i j) ∧
        ∀ m ∈ d.lines, (∀ e ∈ ds, m ∈ e.lines → ∃ k l, e.Runs source ts k l) →
          ((Notes.ofTokens ts).withDocstrings ds).HasVerdict source goes m := by
  obtain ⟨note, x, hget, hkind, hx, rfl⟩ := h
  have hfound := Notes.foundAt ts ds n
  rw [hget] at hfound
  cases hfound with
  | @docstring d _ hd hn _ hx' =>
    obtain rfl : d.extent = x := Option.some_inj.1 (hx'.symm.trans hx)
    obtain ⟨i, j, hruns⟩ := hds d hd hn
    refine ⟨d, List.mem_append_right _ hd, hn, rfl, ⟨i, j, hruns⟩, ?_⟩
    intro m hm hds'
    exact hasVerdict_of_mem ht hapart hd hruns hm hds'
  | @standalone d _ hno hd hn _ hx' =>
    obtain rfl : d.extent = x := Option.some_inj.1 (hx'.symm.trans hx)
    obtain ⟨i, u, hu, hdu, hruns⟩ := Literal.runs_of_mem_standaloneStrings ht hd
    refine ⟨d, List.mem_append_left _ hd, hn, rfl, ⟨i, i, hruns⟩, ?_⟩
    intro m hm hds'
    apply hasVerdict_of_mem_standaloneStrings ht hd hu hdu hruns hm ?_ hds'
    -- a docstring around the literal would have line `n`, too
    intro e he k l hruns' hki
    by_contra hil
    obtain ⟨hstart, hstop⟩ := hruns.within ht hruns' hki (by omega)
    obtain ⟨hn₁, hn₂⟩ := Literal.mem_lines.1 hn
    exact hno e he (Literal.mem_lines.2
      ⟨(Position.line_le hstart).trans hn₁, hn₂.trans (Position.line_le hstop)⟩)
  | comment => exact Bool.noConfusion hkind

/-- **The tokens of a row go or stay together.** They stay in their places, or one literal that
goes reaches over all of them, and their lines are emptied. -/
theorem rewrite_keepsRow {row : List Token} (hrow : ∀ u ∈ row, u ∈ ts ∧ u.kind.isCode = true)
    (hchain : row.IsChain fun u v => u.stop.line = v.start.line)
    (hds : ∀ d ∈ ds, ∀ u ∈ row, ∀ n ∈ d.lines, u.IsOn n → ∃ i j, d.Runs source ts i j) :
    (∀ u ∈ row, Text.StandsAt
      (rewrite source ((Notes.ofTokens ts).withDocstrings ds) false).content u.text u.start) ∨
    (∃ d ∈ standaloneStrings ts ++ ds, isRemovable (splitLines source) d.extent = true ∧
      ∀ u ∈ row, u.LiesIn d) ∧
    ∀ u ∈ row, ∀ n, u.IsOn n → IsEmptied
      (splitLines (rewrite source ((Notes.ofTokens ts).withDocstrings ds) false).content) n := by
  by_cases hgoes : ∃ u ∈ row, ∃ n, u.IsOn n ∧
      ((Notes.ofTokens ts).withDocstrings ds).HasVerdict source true n
  · obtain ⟨u, hu, n, hon, hverdict⟩ := hgoes
    obtain ⟨d, hd, hn, hrem, ⟨i, j, hruns⟩, hall⟩ :=
      exists_literal_of_hasVerdict ht hapart hverdict fun e he hn => hds e he u hu n hn hon
    obtain ⟨k, hk⟩ := List.getElem?_of_mem (hrow u hu).1
    have hin : u.LiesIn d :=
      within_of_isRemovable ht hruns hk (hrow u hu).2 hn hon.1 hon.2 hrem
    have hwithin : ∀ v ∈ row, v.LiesIn d := by
      intro v hv
      exact liesIn_of_mem_row ht hrow hchain hruns hrem hu hin hv
    refine Or.inr ⟨⟨d, hd, hrem, hwithin⟩, ?_⟩
    intro v hv m hm
    have hmd : m ∈ d.lines := (hwithin v hv).mem_lines hm
    obtain ⟨hstart, hstop⟩ := hruns.lines_le ht
    obtain ⟨hm₁, hm₂⟩ := Literal.mem_lines.1 hmd
    have hverdict' := hall m hmd fun e he hme => hds e he v hv m hme hm
    exact hverdict'.isEmptied (hstart.trans hm₁) (hm₂.trans hstop)
  · left
    intro u hu
    apply standsAt_rewrite_of_not_hasVerdict ht (hrow u hu).1 (hrow u hu).2
    intro n hon hverdict
    exact hgoes ⟨u, hu, n, hon, hverdict⟩

end Docstrings

/-- Stripping takes out the notes of the tokens, with the docstrings laid over them. -/
theorem strip_eq_rewrite (parse : Parser) : strip parse source =
    rewrite source ((Notes.ofTokens ts).withDocstrings (knownDocstrings parse source)) false := by
  have hbase : baseNotes source = (Notes.ofTokens ts, true) := by
    rw [baseNotes, ht]
  rw [strip_eq, hbase]
  rfl

end Tokenize

/-- **Stripping keeps rows together.** The tokens of a row stay in their places, or one literal
that is commentary reaches over all of them, and their lines are emptied; provided that the
docstrings on these lines run from token to token. -/
theorem strip_keepsRows {parse : Parser} (hparse : parse.IsSound) {source : Text} {ts : List Token}
    (ht : tokenize source = .ok ts) {line : List Token} (hline : line ∈ codeLines ts)
    {row : List Token} (hrow : row ∈ rows line)
    (hds : ∀ d ∈ knownDocstrings parse source, ∀ u ∈ row, ∀ n ∈ d.lines, u.IsOn n →
      ∃ i j, d.Runs source ts i j) :
    (∀ u ∈ row, Text.StandsAt (strip parse source).content u.text u.start) ∨
    (∃ d ∈ standaloneStrings ts ++ knownDocstrings parse source,
      isRemovable (splitLines source) d.extent = true ∧ ∀ u ∈ row, u.LiesIn d) ∧
    ∀ u ∈ row, ∀ n, u.IsOn n → IsEmptied (splitLines (strip parse source).content) n := by
  have hcode : ∀ u ∈ row, u ∈ ts ∧ u.kind.isCode = true := by
    intro u hu
    exact isCode_of_mem_rows hline hrow hu
  rw [strip_eq_rewrite ht]
  exact rewrite_keepsRow ht (docstrings_apart hparse source) hcode (isChain_of_mem_rows hrow) hds

/-- The syntax tree of `assignment`. -/
def assignmentTree : SyntaxTree :=
  .named "module" ⟨0, 0⟩ ⟨14, 2⟩
    [.stringStatement 1 ⟨0, 0⟩ ⟨3, 0⟩,
     .named "expression_statement" ⟨4, 1⟩ ⟨9, 1⟩
      [.named "assignment" ⟨4, 1⟩ ⟨9, 1⟩
        [.as "left" (.named "identifier" ⟨4, 1⟩ ⟨5, 1⟩ []), .mark "=" ⟨6, 1⟩ ⟨7, 1⟩,
         .as "right" (.named "integer" ⟨8, 1⟩ ⟨9, 1⟩ [])]],
     .named "comment" ⟨10, 1⟩ ⟨13, 1⟩ []]

/-- A parser that knows `assignment`. -/
def parseAssignment : Parser := .ofTable [(assignment, assignmentTree)]

theorem knownDocstrings_assignment : knownDocstrings parseAssignment assignment =
    [Literal.ofText ⟨1, 0⟩ 1 "'a'".toList] := by
  decide +kernel

/-- The string at the top of `assignment` is a row of its own; it is the docstring. -/
theorem strip_keepsRows_assignment :
    (∀ u ∈ [Token.at .string "'a'".toList ⟨1, 0⟩],
      Text.StandsAt (strip parseAssignment assignment).content u.text u.start) ∨
    (∃ d ∈ standaloneStrings assignmentTokens ++ knownDocstrings parseAssignment assignment,
      isRemovable (splitLines assignment) d.extent = true ∧
        ∀ u ∈ [Token.at .string "'a'".toList ⟨1, 0⟩], u.LiesIn d) ∧
    ∀ u ∈ [Token.at .string "'a'".toList ⟨1, 0⟩], ∀ n, u.IsOn n →
      IsEmptied (splitLines (strip parseAssignment assignment).content) n := by
  have hline : [Token.at .string "'a'".toList ⟨1, 0⟩] ∈ codeLines assignmentTokens := by
    decide +kernel
  have hrow : [Token.at .string "'a'".toList ⟨1, 0⟩] ∈
      rows [Token.at .string "'a'".toList ⟨1, 0⟩] := by
    decide +kernel
  have hparse : parseAssignment.IsSound := Parser.isSound_ofTable (by decide +kernel)
  apply strip_keepsRows hparse tokenize_assignment hline hrow
  rw [knownDocstrings_assignment]
  intro d hd _ _ _ _ _
  exact runs_assignment hd

/-! ## Statements that lose a string -/

/-- A string alone on its line, between two others that it is joined to. -/
def bracketed : Text := "x = ('a'\n\"\"\"b\"\"\"\n'c')\n".toList

/-- The tokens of `bracketed`. -/
def bracketedTokens : List Token :=
  [.at .name ['x'] ⟨1, 0⟩, .at .op ['='] ⟨1, 2⟩, .at .op ['('] ⟨1, 4⟩,
   .at .string "'a'".toList ⟨1, 5⟩, ⟨.lineBreak, ['\n'], ⟨1, 8⟩, ⟨1, 9⟩⟩,
   .at .string "\"\"\"b\"\"\"".toList ⟨2, 0⟩, ⟨.lineBreak, ['\n'], ⟨2, 7⟩, ⟨2, 8⟩⟩,
   .at .string "'c'".toList ⟨3, 0⟩, .at .op [')'] ⟨3, 3⟩, ⟨.newline, ['\n'], ⟨3, 4⟩, ⟨3, 5⟩⟩,
   .at .endMarker [] ⟨4, 0⟩]

theorem tokenize_bracketed : tokenize bracketed = .ok bracketedTokens := by
  decide +kernel

/-- The syntax tree of `bracketed`. -/
def bracketedTree : SyntaxTree :=
  .named "module" ⟨0, 0⟩ ⟨22, 3⟩
    [.named "expression_statement" ⟨0, 0⟩ ⟨21, 2⟩
      [.named "assignment" ⟨0, 0⟩ ⟨21, 2⟩
        [.as "left" (.named "identifier" ⟨0, 0⟩ ⟨1, 0⟩ []), .mark "=" ⟨2, 0⟩ ⟨3, 0⟩,
         .as "right" (.named "parenthesized_expression" ⟨4, 0⟩ ⟨21, 2⟩
          [.mark "(" ⟨4, 0⟩ ⟨5, 0⟩,
           .named "concatenated_string" ⟨5, 0⟩ ⟨20, 2⟩
            [.string 1 1 ⟨5, 0⟩ ⟨8, 0⟩, .string 3 3 ⟨9, 1⟩ ⟨16, 1⟩, .string 1 1 ⟨17, 2⟩ ⟨20, 2⟩],
           .mark ")" ⟨20, 2⟩ ⟨21, 2⟩])]]]

/-- A literal in a literal with the same quotes. The tokens go by the quotes, and take the docstring
to be part of a string from line 1 to line 4. -/
def nested : Text := "f\"\x7b\"\"\"a\"\"\"\x7d\"\ndef g():\n  \"doc\"\n# \"\"\"\n".toList

/-- The tokens of `nested`. -/
def nestedTokens : List Token :=
  [.at .string "f\"\x7b\"".toList ⟨1, 0⟩, .at .string "\"\"".toList ⟨1, 4⟩, .at .name ['a'] ⟨1, 6⟩,
   ⟨.string, "\"\"\"\x7d\"\ndef g():\n  \"doc\"\n# \"\"\"".toList, ⟨1, 7⟩, ⟨4, 5⟩⟩,
   ⟨.newline, ['\n'], ⟨4, 5⟩, ⟨4, 6⟩⟩, .at .endMarker [] ⟨5, 0⟩]

theorem tokenize_nested : tokenize nested = .ok nestedTokens := by
  decide +kernel

/-- The syntax tree of `nested`, in which the literal of line 1 has another one within, and the
docstring is the body of a function. -/
def nestedTree : SyntaxTree :=
  .named "module" ⟨0, 0⟩ ⟨36, 4⟩
    [.named "expression_statement" ⟨0, 0⟩ ⟨12, 0⟩
      [.formatted ⟨0, 0⟩ ⟨12, 0⟩ (.string 3 3 ⟨3, 0⟩ ⟨10, 0⟩)],
     .function 13 1 ⟨24, 2⟩ ⟨29, 2⟩ [.stringStatement 1 ⟨24, 2⟩ ⟨29, 2⟩],
     .named "comment" ⟨30, 3⟩ ⟨35, 3⟩ []]

/-- A parser that knows `bracketed` and `nested`. -/
def parseStatements : Parser := .ofTable [(bracketed, bracketedTree), (nested, nestedTree)]

/-- A logical line need not go or stay as a whole: in brackets, a string between triple quotes goes
that is alone on its lines. Nor need a row, when a docstring does not run from token to token. -/
theorem not_strip_keepsLines :
    (¬ ∀ parse : Parser, parse.IsSound → ∀ source ts, tokenize source = .ok ts →
      ∀ line ∈ codeLines ts,
        (∀ u ∈ line, Text.StandsAt (strip parse source).content u.text u.start) ∨
          ∀ u ∈ line, ¬ Text.StandsAt (strip parse source).content u.text u.start) ∧
    ¬ ∀ parse : Parser, parse.IsSound → ∀ source ts, tokenize source = .ok ts →
      ∀ line ∈ codeLines ts, ∀ row ∈ rows line,
        (∀ u ∈ row, Text.StandsAt (strip parse source).content u.text u.start) ∨
          ∀ u ∈ row, ¬ Text.StandsAt (strip parse source).content u.text u.start := by
  have hparse : parseStatements.IsSound := Parser.isSound_ofTable (by decide +kernel)
  constructor
  · intro h
    have := h parseStatements hparse bracketed bracketedTokens tokenize_bracketed
    revert this
    decide +kernel
  · intro h
    have := h parseStatements hparse nested nestedTokens tokenize_nested
    revert this
    decide +kernel

end Marginalia
