import Marginalia.Proofs.Text.Decimal
import Marginalia.Proofs.Text.Lines
import Marginalia.Report.Table

/-!
# Reading a table

A table of notes can be read back. What `escape` writes is what `unescape` accepts
(`unescape_eq_some_iff`), so no two texts are escaped alike, and a text is on one line once it is
escaped. In front of it the number of the line has eight columns: a row says which note it was
written for exactly if the number has no more than eight digits (`readNoteRow_eq_some_iff`). With
nine, the last digit cannot be told from the content.

The table is made of rows, each of which is a line of its own (`splitLines_flatMap_row`), whatever
stands in the notes. So a note is found by counting lines (`ShowsNotes`).
-/

namespace Marginalia

namespace Table

/-! ## Escapes -/

/-- The characters that are escaped, each with the one that stands for it behind a backslash. -/
def escapes : List (Char × Char) :=
  [('\\', '\\'), ('\n', 'n'), ('\r', 'r'), ('\t', 't')]

/-- Read an escaped text back. There is nothing to be read where a character stands that should
have been escaped, or a backslash that escapes nothing. -/
def unescape : Text → Option Text
  | [] => some []
  | ['\\'] => none
  | '\\' :: d :: r =>
    (escapes.find? (·.2 = d)).bind fun e => (unescape r).map (e.1 :: ·)
  | c :: r => if escapes.any (·.1 = c) then none else (unescape r).map (c :: ·)

variable {c d : Char}

theorem escape_cons_of_mem (h : (c, d) ∈ escapes) (t : Text) :
    escape (c :: t) = '\\' :: d :: escape t := by
  simp only [escapes, List.mem_cons, Prod.mk.injEq, List.not_mem_nil, or_false] at h
  rcases h with ⟨rfl, rfl⟩ | ⟨rfl, rfl⟩ | ⟨rfl, rfl⟩ | ⟨rfl, rfl⟩ <;> rfl

theorem escape_cons_of_notMem (h : ∀ d, (c, d) ∉ escapes) (t : Text) :
    escape (c :: t) = c :: escape t := by
  have hplain : ∀ e ∈ escapes, c ≠ e.1 := fun e he hc => h e.2 (hc ▸ he)
  simp only [escapes, List.forall_mem_cons] at hplain
  simp [escape, hplain]

theorem unescape_cons_of_mem (h : (c, d) ∈ escapes) (t : Text) :
    unescape ('\\' :: d :: t) = (unescape t).map (c :: ·) := by
  simp only [escapes, List.mem_cons, Prod.mk.injEq, List.not_mem_nil, or_false] at h
  rcases h with ⟨rfl, rfl⟩ | ⟨rfl, rfl⟩ | ⟨rfl, rfl⟩ | ⟨rfl, rfl⟩ <;> rfl

theorem unescape_cons_of_notMem (h : ∀ d, (c, d) ∉ escapes) (t : Text) :
    unescape (c :: t) = (unescape t).map (c :: ·) := by
  have hc : c ≠ '\\' := by
    rintro rfl
    exact h '\\' (by decide)
  have hplain : escapes.any (·.1 = c) = false :=
    List.any_eq_false.2 fun e he hc' => h e.2 (of_decide_eq_true hc' ▸ he)
  rw [unescape.eq_4 _ _ (fun hc' => absurd hc' hc) (fun _ _ hc' => absurd hc' hc)]
  simp [hplain]

theorem unescape_escape (t : Text) : unescape (escape t) = some t := by
  induction t with
  | nil => rfl
  | cons c r ih =>
    by_cases h : ∃ d, (c, d) ∈ escapes
    · obtain ⟨d, hd⟩ := h
      rw [escape_cons_of_mem hd, unescape_cons_of_mem hd, ih, Option.map_some]
    · have hplain := not_exists.1 h
      rw [escape_cons_of_notMem hplain, unescape_cons_of_notMem hplain, ih, Option.map_some]

theorem eq_escape_of_unescape {s t : Text} (h : unescape s = some t) : s = escape t := by
  fun_induction unescape s generalizing t with
  | case1 =>
    obtain rfl := Option.some.inj h
    rfl
  | case2 => simp at h
  | case3 d r ih =>
    obtain ⟨⟨c, d'⟩, hfind, h⟩ := Option.bind_eq_some_iff.1 h
    obtain ⟨u, hu, rfl⟩ := Option.map_eq_some_iff.1 h
    obtain rfl : d' = d := by simpa using List.find?_some hfind
    rw [escape_cons_of_mem (List.mem_of_find?_eq_some hfind), ← ih hu]
  | case4 => simp at h
  | case5 c r _ _ hplain ih =>
    obtain ⟨u, hu, rfl⟩ := Option.map_eq_some_iff.1 h
    rw [escape_cons_of_notMem (fun d hd => hplain (List.any_eq_true.2 ⟨_, hd, by simp⟩)), ← ih hu]

/-- **Exactly what is escaped can be read back.** -/
theorem unescape_eq_some_iff {s t : Text} : unescape s = some t ↔ s = escape t :=
  ⟨eq_escape_of_unescape, fun h => h ▸ unescape_escape t⟩

theorem escape_injective : Function.Injective escape := by
  intro t u h
  have hread := unescape_escape t
  rw [h, unescape_escape] at hread
  exact (Option.some.inj hread).symm

theorem eq_or_of_mem_breaks (hc : c ∈ ['\n', '\r', '\t']) : c = '\n' ∨ c = '\r' ∨ c = '\t' := by
  simpa using hc

/-- What would break the row occurs in no escaped text. -/
theorem notMem_escape (hc : c ∈ ['\n', '\r', '\t']) (t : Text) : c ∉ escape t := by
  have hescaped : c ∈ escapes.map Prod.fst := by
    rcases eq_or_of_mem_breaks hc with rfl | rfl | rfl <;> decide
  have hsign : c ≠ '\\' ∧ ∀ e ∈ escapes, c ≠ e.2 := by
    rcases eq_or_of_mem_breaks hc with rfl | rfl | rfl <;> decide
  induction t with
  | nil => exact List.not_mem_nil
  | cons b r ih =>
    by_cases h : ∃ d, (b, d) ∈ escapes
    · obtain ⟨d, hd⟩ := h
      rw [escape_cons_of_mem hd]
      simp [hsign.1, hsign.2 _ hd, ih]
    · have hplain := not_exists.1 h
      have hb : c ≠ b := by
        rintro rfl
        obtain ⟨⟨_, d⟩, hd, rfl⟩ := List.mem_map.1 hescaped
        exact hplain d hd
      rw [escape_cons_of_notMem hplain]
      simp [hb, ih]

/-! ## Rows of notes -/

/-- The text of a row of the table of notes. -/
def noteText (e : ℕ × Text) : Text :=
  Text.padRight 8 (Text.ofNat e.1) ++ escape e.2

/-- The line number and the content that a row of the table of notes says. -/
def readNoteRow (t : Text) : Option (ℕ × Text) :=
  let n := Nat.ofDigitChars 10 ((t.take 8).takeWhile Char.isDigit) 0
  if t.take 8 = Text.padRight 8 (Text.ofNat n) then (unescape (t.drop 8)).map (n, ·) else none

/-- **A row says which note it was written for**, if the number fits into its column. -/
theorem readNoteRow_eq_some_iff {t : Text} {n : ℕ} {content : Text} :
    readNoteRow t = some (n, content) ↔ n < 10 ^ 8 ∧ t = noteText (n, content) := by
  rw [← Text.length_padRight_ofNat_iff (by decide), noteText]
  constructor
  · intro h
    rw [readNoteRow] at h
    split at h
    · next hcolumn =>
      obtain ⟨u, hu, hpair⟩ := Option.map_eq_some_iff.1 h
      obtain ⟨hn, rfl⟩ := Prod.mk.inj hpair
      rw [hn] at hcolumn
      have hlength : (Text.padRight 8 (Text.ofNat n)).length ≤ 8 := by
        rw [← hcolumn]
        exact List.length_take_le ..
      refine ⟨hlength.antisymm (by rw [Text.length_padRight]; exact Nat.le_max_left ..), ?_⟩
      rw [← hcolumn, ← eq_escape_of_unescape hu, List.take_append_drop]
    · exact absurd h (by simp)
  · rintro ⟨hlength, rfl⟩
    rw [readNoteRow, List.take_left' hlength, List.drop_left' hlength,
      Text.takeWhile_padRight_ofNat, Text.ofDigitChars_ofNat, if_pos rfl, unescape_escape]
    rfl

/-- With a ninth digit the number runs into the content. -/
example : noteText (123456789, []) = noteText (12345678, ['9']) := by decide

theorem notMem_noteText (hc : c ∈ ['\n', '\r', '\t']) (e : ℕ × Text) : c ∉ noteText e := by
  have hcolumn : c ≠ ' ' ∧ c.isDigit = false := by
    rcases eq_or_of_mem_breaks hc with rfl | rfl | rfl <;> decide
  rw [noteText, List.mem_append, not_or]
  exact ⟨Text.notMem_padRight hcolumn.1 (Text.notMem_ofNat hcolumn.2 _) _, notMem_escape hc _⟩

/-! ## The lines of a table -/

/-- The line that a row without line feeds makes. A carriage return at its end goes to the line
break. -/
def lineOfRow (t : Text) : Line :=
  if t.getLast? = some '\r' then ⟨t.dropLast, .crlf⟩ else ⟨t, .lf⟩

theorem chars_lineOfRow (t : Text) : (lineOfRow t).chars = row t := by
  rw [lineOfRow]
  split
  · next h =>
    obtain ⟨x, rfl⟩ := List.getLast?_eq_some_iff.1 h
    simp [Line.chars, Terminator.text, row]
  · rfl

theorem terminator_lineOfRow (t : Text) : (lineOfRow t).terminator ≠ .none := by
  rw [lineOfRow]
  split <;> simp

theorem isSound_lineOfRow {t : Text} (h : '\n' ∉ t) : (lineOfRow t).IsSound := by
  rw [lineOfRow]
  split
  · exact ⟨fun hmem => h (List.dropLast_subset _ hmem), by simp, by simp⟩
  · next hcr => exact ⟨h, by simp, fun _ => hcr⟩

/-- Rows without line feeds are the lines of their text. -/
theorem splitLines_flatMap_row {rows : List Text} (h : ∀ t ∈ rows, '\n' ∉ t) :
    splitLines (rows.flatMap row) = rows.map lineOfRow := by
  induction rows with
  | nil => rfl
  | cons t ts ih =>
    obtain ⟨ht, hts⟩ := List.forall_mem_cons.1 h
    have hlast : (lineOfRow t).terminator = .none → ts.flatMap row = [] :=
      fun hnone => absurd hnone (terminator_lineOfRow t)
    rw [List.flatMap_cons, ← chars_lineOfRow, splitLines_chars_append (isSound_lineOfRow ht) hlast,
      ih hts, List.map_cons]

/-- What is known of terminals: a heading is shown on one row, with or without a style. -/
def IsOneRow (heading : Text → Text) : Prop :=
  ∀ t, '\n' ∉ t → '\n' ∉ heading t

theorem isOneRow_id : IsOneRow id := fun _ => id

theorem exists_statisticsRow (capital small : String) (width part whole : ℕ) (share : Float)
    (hcapital : '\n' ∉ capital.toList) (hsmall : '\n' ∉ small.toList) :
    ∃ t, '\n' ∉ t ∧ statisticsRow capital small width part whole share = row t := by
  refine ⟨_, ?_, rfl⟩
  have hcount : ∀ n, '\n' ∉ Text.padRight width (Text.ofNat n) := fun n =>
    Text.notMem_padRight (by decide) (Text.notMem_ofNat (by decide) n) width
  have hshare := Text.notMem_ofNat (c := '\n') (by decide) (wholePercentage share)
  simp [hcapital, hsmall, hcount, hshare]

theorem file_eq (heading : Text → Text) (r : FileReport) (name : Text) :
    file heading r name = row (heading name) ++ rule ++
      row (heading (Text.padRight 8 "Line".toList ++ "Content".toList)) ++
      (r.comments.map noteText).flatMap row ++ rule ++ statistics r.statistics := by
  rw [List.flatMap_map]
  rfl

/-- A table has three rows above the notes, and three below. -/
theorem exists_rows_file {heading : Text → Text} (hheading : IsOneRow heading) (r : FileReport)
    {name : Text} (hname : '\n' ∉ name) :
    ∃ above below : List Text, above.length = 3 ∧ below.length = 3 ∧
      (∀ t ∈ above ++ r.comments.map noteText ++ below, '\n' ∉ t) ∧
      file heading r name = (above ++ r.comments.map noteText ++ below).flatMap row := by
  obtain ⟨lines, hlines, hlinesRow⟩ := exists_statisticsRow "Line" "lines" 8
    r.statistics.commentLines r.statistics.totalLines r.statistics.lineRatio (by decide) (by decide)
  obtain ⟨letters, hletters, hlettersRow⟩ := exists_statisticsRow "Letter" "letters" 6
    r.statistics.commentLetters r.statistics.totalLetters r.statistics.letterRatio (by decide)
    (by decide)
  have hrule : '\n' ∉ List.replicate 80 '-' := by decide
  have htitle : '\n' ∉ Text.padRight 8 "Line".toList ++ "Content".toList := by decide
  refine ⟨[heading name, List.replicate 80 '-',
    heading (Text.padRight 8 "Line".toList ++ "Content".toList)],
    [List.replicate 80 '-', lines, letters], rfl, rfl, ?_, ?_⟩
  · simp only [List.forall_mem_append, List.forall_mem_cons, List.forall_mem_map]
    exact ⟨⟨⟨hheading _ hname, hrule, hheading _ htitle,
      fun _ h => absurd h List.not_mem_nil⟩, fun e _ => notMem_noteText (by decide) e⟩,
      hrule, hlines, hletters, fun _ h => absurd h List.not_mem_nil⟩
  · rw [file_eq, statistics, hlinesRow, hlettersRow]
    simp [rule]

/-! ## The notes of a table -/

/-- The table shows the notes: beside six lines, all of them ended by a line break, it has one line
for each, and that line says the number and the content of its note. -/
structure ShowsNotes (table : Text) (notes : List (ℕ × Text)) : Prop where
  length_eq : (splitLines table).length = notes.length + 6
  terminator_ne : ∀ l ∈ splitLines table, l.terminator ≠ .none
  read_eq : ∀ k n content, notes[k]? = some (n, content) → n < 10 ^ 8 →
    readNoteRow (lineText (splitLines table) (k + 4)) = some (n, content)

/-- The rows of the notes begin with the fourth line. -/
theorem showsNotes_of_rows {above below : List Text} {notes : List (ℕ × Text)}
    (habove : above.length = 3) (hbelow : below.length = 3)
    (hrows : ∀ t ∈ above ++ notes.map noteText ++ below, '\n' ∉ t) :
    ShowsNotes ((above ++ notes.map noteText ++ below).flatMap row) notes where
  length_eq := by
    rw [splitLines_flatMap_row hrows]
    simp only [List.length_map, List.length_append, habove, hbelow]
    omega
  terminator_ne l hl := by
    rw [splitLines_flatMap_row hrows] at hl
    obtain ⟨t, -, rfl⟩ := List.mem_map.1 hl
    exact terminator_lineOfRow t
  read_eq k n content hk hn := by
    have hrow : (above ++ notes.map noteText ++ below)[k + 3]? = some (noteText (n, content)) := by
      have hlt : k < notes.length := (List.getElem?_eq_some_iff.1 hk).1
      rw [List.append_assoc, List.getElem?_append_right (by omega), habove, Nat.add_sub_cancel,
        List.getElem?_append_left (by simpa using hlt), List.getElem?_map, hk]
      rfl
    -- a note has no carriage return, so all of its row is the text of the line
    have hline : lineOfRow (noteText (n, content)) = ⟨noteText (n, content), .lf⟩ :=
      if_neg fun h => notMem_noteText (by decide) _ (List.mem_of_getLast? h)
    rw [splitLines_flatMap_row hrows, lineText, List.getElem?_map, hrow, Option.map_some, hline]
    exact readNoteRow_eq_some_iff.2 ⟨hn, rfl⟩

/-- **A table loses nothing, and has one row for each note**: what is escaped can be read back and
stays on its line, so each note is found on the line that counting leads to. Its number may have as
many digits as the column has places, and headings may have any style that fits on a row. -/
theorem showsNotes_file {heading : Text → Text} (hheading : IsOneRow heading) (r : FileReport)
    {name : Text} (hname : '\n' ∉ name) :
    (∀ s t, unescape s = some t ↔ s = escape t) ∧ Function.Injective escape ∧
    (∀ t, ∀ c ∈ ['\n', '\r', '\t'], c ∉ escape t) ∧
    ShowsNotes (file heading r name) r.comments := by
  refine ⟨fun _ _ => unescape_eq_some_iff, escape_injective, fun t _ hc => notMem_escape hc t, ?_⟩
  obtain ⟨above, below, habove, hbelow, hrows, hfile⟩ := exists_rows_file hheading r hname
  rw [hfile]
  exact showsNotes_of_rows habove hbelow hrows

/-- Two notes whose contents begin with a digit and with a space, where the column of the number
ends. One has a backslash in front of an `n`, the other line breaks of its own. -/
def twoNotes : FileReport where
  path := ⟨"pkg/app.py".toList⟩
  comments := [(12345678, "9 C:\\new".toList), (9999999, " two\r\n\tlines".toList)]
  commentLines := 2
  totalLines := 9
  lineRatio := 22.22
  commentLetters := 20
  totalLetters := 99
  letterRatio := 20.2

/-- Both notes are read back from their rows. -/
theorem showsNotes_file_twoNotes :
    (IsOneRow id ∧ '\n' ∉ "app.py".toList ∧
      twoNotes.comments.map noteText =
        ["123456789 C:\\\\new".toList, "9999999  two\\r\\n\\tlines".toList]) ∧
    (∀ s t, unescape s = some t ↔ s = escape t) ∧ Function.Injective escape ∧
    (∀ t, ∀ c ∈ ['\n', '\r', '\t'], c ∉ escape t) ∧
    ShowsNotes (file id twoNotes "app.py".toList) twoNotes.comments :=
  ⟨⟨isOneRow_id, by decide, by decide⟩, showsNotes_file isOneRow_id twoNotes (by decide)⟩

end Table

end Marginalia
