import Marginalia.Proofs.Position
import Marginalia.Text.Line

/-!
# The lines of a text

A list of lines is what some text splits into exactly if each line is sound, and all but the
last end in a line break (`IsSplit`). On such lists splitting undoes joining
(`splitLines_joinLines`), so the lines of a text that is put together from lines are these lines.

Positions count the same lines: the character at `⟨n, k⟩` is character `k` of line `n`
(`standsAt_joinLines_iff`), and a place in the text cuts its line into what stands before the
place and after it (`take_lineText`, `drop_lineText`).
-/

namespace Marginalia

/-- The characters of a line with those of its terminator. -/
def Line.chars (l : Line) : Text := l.text ++ l.terminator.text

/-- A line that a text can have: it has no line feed inside, it is not empty at the end of the
text, and a carriage return in front of its line feed belongs to the terminator. -/
structure Line.IsSound (l : Line) : Prop where
  lineFeed_notMem : '\n' ∉ l.text
  ne_nil : l.terminator = .none → l.text ≠ []
  getLast?_ne : l.terminator = .lf → l.text.getLast? ≠ some '\r'

/-- A list of lines that a text can split into. -/
def IsSplit : List Line → Prop
  | [] => True
  | l :: ls => l.IsSound ∧ (ls ≠ [] → l.terminator ≠ .none) ∧ IsSplit ls

theorem IsSplit.isSound {ls : List Line} (h : IsSplit ls) {l : Line} (hl : l ∈ ls) : l.IsSound := by
  induction ls with
  | nil => simp at hl
  | cons m ls ih =>
    rcases List.mem_cons.1 hl with rfl | hl
    · exact h.1
    · exact ih h.2.2 hl

/-- Only the last line can be without terminator. -/
theorem IsSplit.isLast {ls : List Line} (h : IsSplit ls) {i : ℕ} {l : Line} (hl : ls[i]? = some l)
    (ht : l.terminator = .none) : i + 1 = ls.length := by
  induction ls generalizing i with
  | nil => simp at hl
  | cons m ls ih =>
    cases i with
    | zero =>
      obtain rfl : m = l := by simpa using hl
      rw [not_imp_not.1 h.2.1 ht]
      rfl
    | succ i => rw [List.length_cons, ih h.2.2 (i := i) (by simpa using hl)]

theorem joinLines_cons (l : Line) (ls : List Line) :
    joinLines (l :: ls) = l.chars ++ joinLines ls :=
  List.flatMap_cons ..

theorem joinLines_append (ls ms : List Line) :
    joinLines (ls ++ ms) = joinLines ls ++ joinLines ms := by
  simp [joinLines]

/-- A line that is not there is empty text. -/
theorem lineText_eq_nil {ls : List Line} {n : ℕ} (h : n = 0 ∨ ls.length < n) :
    lineText ls n = [] := by
  cases n with
  | zero => rfl
  | succ i =>
    rw [lineText, List.getElem?_eq_none (by omega)]
    rfl

/-- A line that is there, by its number and by its index. -/
theorem exists_getElem?_eq_some {ls : List Line} {n : ℕ} (hn : 1 ≤ n) (hn' : n ≤ ls.length) :
    ∃ i l, n = i + 1 ∧ ls[i]? = some l :=
  ⟨n - 1, ls[n - 1], by omega, List.getElem?_eq_getElem (by omega)⟩

/-! ## Splitting and joining -/

/-- A character that ends no line goes to the front of the first line. -/
theorem splitLines_cons {c : Char} {r : Text} (hc : c ≠ '\n')
    (hr : c = '\r' → r.head? ≠ some '\n') : splitLines (c :: r) = Line.push c (splitLines r) := by
  rw [splitLines.eq_4]
  · rintro rfl
    exact hc rfl
  · rintro r' rfl rfl
    exact hr rfl rfl

theorem isSplit_push {c : Char} {ls : List Line} (hc : c ≠ '\n')
    (hr : c = '\r' → (joinLines ls).head? ≠ some '\n') (h : IsSplit ls) :
    IsSplit (Line.push c ls) := by
  cases ls with
  | nil => exact ⟨⟨by simpa using Ne.symm hc, by simp, by simp⟩, by simp, trivial⟩
  | cons l ls =>
    obtain ⟨⟨hl, hne, hcr⟩, hlast, hls⟩ := h
    refine ⟨⟨by simp [Ne.symm hc, hl], by simp, fun ht => ?_⟩, hlast, hls⟩
    simp only at ht ⊢
    rcases List.eq_nil_or_concat l.text with hnil | ⟨x, d, hx⟩
    · -- the line feed right after the character makes it no carriage return
      rw [hnil, List.getLast?_singleton]
      rintro ⟨⟩
      exact hr rfl (by simp [joinLines_cons, Line.chars, hnil, ht, Terminator.text])
    · have := hcr ht
      rw [hx, List.concat_eq_append] at this ⊢
      rw [← List.cons_append, List.getLast?_concat]
      rwa [List.getLast?_concat] at this

theorem isSplit_splitLines (t : Text) : IsSplit (splitLines t) := by
  fun_induction splitLines t with
  | case1 => trivial
  | case2 r ih => exact ⟨⟨by simp, by simp, by simp⟩, by simp, ih⟩
  | case3 r ih => exact ⟨⟨by simp, by simp, by simp⟩, by simp, ih⟩
  | case4 c r hc hr ih =>
    refine isSplit_push (fun h => hc h) (fun h hhead => ?_) ih
    rw [joinLines_splitLines] at hhead
    obtain ⟨r', rfl⟩ := List.head?_eq_some_iff.1 hhead
    exact hr r' h rfl

/-- A sound line in front of a text is its first line, unless it is the last one. -/
theorem splitLines_chars_append {l : Line} (h : l.IsSound) {t : Text}
    (ht : l.terminator = .none → t = []) : splitLines (l.chars ++ t) = l :: splitLines t := by
  obtain ⟨x, e⟩ := l
  obtain ⟨hx, hne, hcr⟩ := h
  simp only [Line.chars] at *
  induction x with
  | nil =>
    cases e with
    | none => exact absurd rfl (hne rfl)
    | lf => rfl
    | crlf => rfl
  | cons c r ih =>
    simp only [List.mem_cons, not_or] at hx
    by_cases hr : r = [] ∧ e = .none
    · obtain ⟨rfl, rfl⟩ := hr
      rw [ht rfl, Terminator.text, List.append_nil, List.append_nil,
        splitLines_cons (Ne.symm hx.1) (by simp)]
      rfl
    · have hrec := ih hx.2 (fun he => fun hnil => hr ⟨hnil, he⟩) fun he hlast => by
        refine hcr he ?_
        obtain ⟨x, rfl⟩ := List.getLast?_eq_some_iff.1 hlast
        rw [← List.cons_append, List.getLast?_concat]
      rw [List.cons_append, List.cons_append, splitLines_cons (Ne.symm hx.1), hrec]
      · rfl
      · rintro rfl hhead
        cases r with
        | nil => cases e <;> simp_all [Terminator.text]
        | cons d r => simp_all

/-- Lines that a text can split into are what their text splits into. -/
theorem splitLines_joinLines {ls : List Line} (h : IsSplit ls) :
    splitLines (joinLines ls) = ls := by
  induction ls with
  | nil => rfl
  | cons l ls ih =>
    obtain ⟨hl, hlast, hls⟩ := h
    rw [joinLines_cons, splitLines_chars_append hl, ih hls]
    intro ht
    rw [not_imp_not.1 hlast ht]
    rfl

/-- There is at most one line more than there are line feeds. -/
theorem length_splitLines_le (t : Text) : (splitLines t).length ≤ 1 + List.count '\n' t := by
  fun_induction splitLines t with
  | case1 => exact Nat.zero_le _
  | case2 r ih =>
    rw [List.length_cons, List.count_cons_self]
    omega
  | case3 r ih =>
    rw [List.length_cons, List.count_cons_of_ne (by decide), List.count_cons_self]
    omega
  | case4 c r hc _ ih =>
    rw [List.count_cons_of_ne fun h => hc h]
    cases hs : splitLines r with
    | nil => exact Nat.le_add_right ..
    | cons l ls => rwa [hs] at ih

/-! ## Characters by line and column -/

theorem advanceBy_chars {l : Line} (h : l.IsSound) (ht : l.terminator ≠ .none) (p : Position) :
    p.advanceBy l.chars = ⟨p.line + 1, 0⟩ := by
  have hline := Position.line_advanceBy_of_notMem p h.lineFeed_notMem
  rw [Line.chars, Position.advanceBy_append]
  cases e : l.terminator with
  | none => exact absurd e ht
  | lf => simp [Terminator.text, Position.advanceBy_cons, Position.advance, hline]
  | crlf => simp [Terminator.text, Position.advanceBy_cons, Position.advance, hline]

/-- The position where line `i` starts, counted from line `n`. -/
theorem advanceBy_joinLines_take {ls : List Line} (h : IsSplit ls) {i : ℕ} (hi : i < ls.length)
    (n : ℕ) : Position.advanceBy ⟨n, 0⟩ (joinLines (ls.take i)) = ⟨n + i, 0⟩ := by
  induction ls generalizing i n with
  | nil => simp at hi
  | cons l ls ih =>
    obtain ⟨hl, hlast, hls⟩ := h
    cases i with
    | zero => rfl
    | succ i =>
      have hi' : i < ls.length := by simpa using hi
      rw [List.take_succ_cons, joinLines_cons, Position.advanceBy_append,
        advanceBy_chars hl (hlast (by rintro rfl; simp at hi')), ih hls hi', Nat.add_right_comm]
      rfl

/-- A line has no line feed but its last character. -/
theorem lineFeed_notMem_of_chars {l : Line} (h : l.IsSound) {x y : Text} {c : Char}
    (hc : l.chars = x ++ c :: y) : '\n' ∉ x := by
  have hx : x ⊆ l.chars.dropLast := by
    rw [hc, List.dropLast_append_of_ne_nil (List.cons_ne_nil c y)]
    exact List.subset_append_left ..
  refine fun hmem => absurd (hx hmem) ?_
  rw [Line.chars]
  cases l.terminator with
  | none => simpa [Terminator.text] using fun hm => h.lineFeed_notMem (List.dropLast_subset _ hm)
  | lf => simpa [Terminator.text] using h.lineFeed_notMem
  | crlf => simpa [Terminator.text, List.dropLast_append_cons] using h.lineFeed_notMem

/-- Where the characters of a line stand. -/
theorem advanceBy_line {ls : List Line} (h : IsSplit ls) {i : ℕ} {l : Line} (hl : ls[i]? = some l)
    {x y : Text} {c : Char} (hc : l.chars = x ++ c :: y) :
    Position.origin.advanceBy (joinLines (ls.take i) ++ x) = ⟨i + 1, x.length⟩ := by
  have hx := lineFeed_notMem_of_chars (h.isSound (List.mem_of_getElem? hl)) hc
  rw [Position.advanceBy_append, Position.origin,
    advanceBy_joinLines_take h (List.getElem?_eq_some_iff.1 hl).1, Nat.add_comm]
  have hline := Position.line_advanceBy_of_notMem ⟨i + 1, 0⟩ hx
  have hcol := Position.column_advanceBy_of_notMem ⟨i + 1, 0⟩ hx
  rw [Nat.zero_add] at hcol
  cases hp : Position.advanceBy ⟨i + 1, 0⟩ x
  simp_all

/-- A character of joined lines is a character of one of them. -/
theorem exists_line_of_joinLines_eq {ls : List Line} {a b : Text} {c : Char}
    (h : joinLines ls = a ++ c :: b) :
    ∃ i l x y, ls[i]? = some l ∧ l.chars = x ++ c :: y ∧ a = joinLines (ls.take i) ++ x := by
  induction ls generalizing a with
  | nil => simp [joinLines] at h
  | cons l ls ih =>
    rw [joinLines_cons] at h
    rcases List.append_eq_append_iff.1 h with ⟨w, rfl, hw⟩ | ⟨w, hw, hb⟩
    · obtain ⟨i, m, x, y, hi, hm, rfl⟩ := ih hw
      exact ⟨i + 1, m, x, y, by simpa using hi, hm, by simp [joinLines_cons]⟩
    · cases w with
      | nil =>
        obtain ⟨i, m, x, y, hi, hm, hx⟩ := ih (a := []) (by simpa using hb.symm)
        refine ⟨i + 1, m, x, y, by simpa using hi, hm, ?_⟩
        rw [List.take_succ_cons, joinLines_cons, List.append_assoc, ← hx]
        simpa using hw.symm
      | cons d w =>
        obtain ⟨rfl, -⟩ : c = d ∧ b = w ++ joinLines ls := by simpa using hb
        exact ⟨0, l, a, w, rfl, hw, rfl⟩

/-- **The character at line `n` and column `k`** of joined lines is character `k` of the `n`-th of
them. -/
theorem standsAt_joinLines_iff {ls : List Line} (h : IsSplit ls) {c : Char} {i k : ℕ} :
    Text.StandsAt (joinLines ls) [c] ⟨i + 1, k⟩ ↔
      ∃ l, ls[i]? = some l ∧ l.chars[k]? = some c := by
  constructor
  · rintro ⟨a, b, hab, hp⟩
    rw [List.append_assoc] at hab
    obtain ⟨j, l, x, y, hj, hl, rfl⟩ := exists_line_of_joinLines_eq hab
    rw [advanceBy_line h hj hl] at hp
    obtain ⟨rfl, rfl⟩ : j = i ∧ x.length = k := by simpa using hp
    exact ⟨l, hj, by simp [hl]⟩
  · rintro ⟨l, hi, hk⟩
    obtain ⟨hlt, hk⟩ := List.getElem?_eq_some_iff.1 hk
    have hcut : l.chars = l.chars.take k ++ c :: l.chars.drop (k + 1) := by
      rw [← hk, List.getElem_cons_drop, List.take_append_drop]
    refine ⟨joinLines (ls.take i) ++ l.chars.take k,
      l.chars.drop (k + 1) ++ joinLines (ls.drop (i + 1)), ?_, ?_⟩
    · obtain ⟨hi', hget⟩ := List.getElem?_eq_some_iff.1 hi
      have hls : ls = ls.take i ++ l :: ls.drop (i + 1) := by
        rw [← hget, List.getElem_cons_drop, List.take_append_drop]
      conv_lhs => rw [hls, joinLines_append, joinLines_cons, hcut]
      simp only [List.append_assoc, List.cons_append, List.nil_append]
    · rw [advanceBy_line h hi hcut, List.length_take_of_le hlt.le]

/-- A character that stands in a text stands on one of its lines. -/
theorem exists_line_of_standsAt {t : Text} {c : Char} {p : Position}
    (h : Text.StandsAt t [c] p) :
    ∃ i l, p.line = i + 1 ∧ (splitLines t)[i]? = some l ∧ l.chars[p.column]? = some c := by
  obtain ⟨a, b, hab, rfl⟩ := h
  rw [List.append_assoc, ← joinLines_splitLines t] at hab
  obtain ⟨i, l, x, y, hl, hc, rfl⟩ := exists_line_of_joinLines_eq hab
  rw [advanceBy_line (isSplit_splitLines t) hl hc]
  exact ⟨i, l, rfl, hl, by simp [hc]⟩

/-- A place in a text is on its first line or on a later one. -/
theorem Text.StandsAt.one_le_line {t x : Text} {p : Position} (h : StandsAt t x p) :
    1 ≤ p.line := by
  obtain ⟨a, _, -, rfl⟩ := h
  rw [Position.line_advanceBy]
  exact Nat.le_add_right ..

/-- What stands in a text ends on one of its lines, if it does not end in a line feed. -/
theorem Text.StandsAt.line_advanceBy_le {t x : Text} {p : Position} (h : StandsAt t x p)
    {c : Char} (hlast : x.getLast? = some c) (hc : c ≠ '\n') :
    (p.advanceBy x).line ≤ (splitLines t).length := by
  obtain ⟨y, rfl⟩ := List.getLast?_eq_some_iff.1 hlast
  have hend := h.char (i := y.length) (c := c) (by simp)
  rw [List.take_left] at hend
  obtain ⟨k, l, hk, hl, -⟩ := exists_line_of_standsAt hend
  rw [Position.advanceBy_append,
    Position.line_advanceBy_of_notMem _ (by simpa using Ne.symm hc), hk]
  exact (List.getElem?_eq_some_iff.1 hl).1

/-- A character of a line that belongs to no line break is one of its text. -/
theorem getElem?_text_of_chars {l : Line} {k : ℕ} {c : Char} (h : l.chars[k]? = some c)
    (hlf : c ≠ '\n') (hcr : c ≠ '\r') : l.text[k]? = some c := by
  by_cases hk : k < l.text.length
  · rwa [Line.chars, List.getElem?_append_left hk] at h
  · rw [Line.chars, List.getElem?_append_right (by omega)] at h
    have hmem := List.mem_of_getElem? h
    cases hterm : l.terminator <;> simp [hterm, Terminator.text, hlf, hcr] at hmem

/-- The first line of a source that has one: it lacks a line break only if it is the whole. -/
theorem exists_splitLines_eq_cons {source : Text} (hne : source ≠ []) :
    ∃ l ls, splitLines source = l :: ls ∧ l.text <+: source ∧
      (l.terminator = .none → ls = []) ∧ (l.terminator = .none ↔ '\n' ∉ source) := by
  have hjoin := joinLines_splitLines source
  have hsplit := isSplit_splitLines source
  cases hs : splitLines source with
  | nil =>
    rw [hs] at hjoin
    exact absurd hjoin.symm hne
  | cons l ls =>
    rw [hs] at hjoin hsplit
    obtain ⟨hl, hlast, -⟩ := hsplit
    rw [joinLines_cons] at hjoin
    have hlast : l.terminator = .none → ls = [] := by
      intro hterm
      by_contra hls
      exact hlast hls hterm
    refine ⟨l, ls, rfl, ?_, hlast, fun hterm => ?_, fun hlf => ?_⟩
    · rw [← hjoin, Line.chars, List.append_assoc]
      exact List.prefix_append ..
    · rw [← hjoin, hlast hterm, Line.chars, hterm]
      simpa [Terminator.text, joinLines] using hl.lineFeed_notMem
    · rw [← hjoin, Line.chars] at hlf
      cases hterm : l.terminator with
      | none => rfl
      | lf => simp [hterm, Terminator.text] at hlf
      | crlf => simp [hterm, Terminator.text] at hlf

/-! ## Lines cut at a place -/

/-- The first line of a text. -/
def firstLine (t : Text) : Text := lineText (splitLines t) 1

theorem firstLine_isPrefix (t : Text) : firstLine t <+: t := by
  by_cases ht : t = []
  · subst ht
    exact List.prefix_refl _
  · obtain ⟨l, ls, hlines, hfront, -⟩ := exists_splitLines_eq_cons ht
    rw [firstLine, hlines]
    exact hfront

theorem lineText_push_one (c : Char) (ls : List Line) :
    lineText (Line.push c ls) 1 = c :: lineText ls 1 := by
  cases ls <;> rfl

theorem lineText_push_of_lt (c : Char) (ls : List Line) {n : ℕ} (hn : 1 < n) :
    lineText (Line.push c ls) n = lineText ls n := by
  obtain ⟨m, rfl⟩ := Nat.exists_eq_add_of_le hn
  rw [Nat.add_comm]
  cases ls <;> simp [Line.push, lineText]

theorem lineText_cons_succ (l : Line) (ls : List Line) {n : ℕ} (hn : 0 < n) :
    lineText (l :: ls) (n + 1) = lineText ls n := by
  cases n with
  | zero => simp at hn
  | succ n => rfl

/-- **A place in a text cuts its line in two**: the last line of what stands before the place, and
the first line of what stands after it. The place must not be in the middle of a line break. -/
theorem lineText_splitLines_append {a b : Text}
    (h : a.getLast? = some '\r' → b.head? ≠ some '\n') :
    lineText (splitLines (a ++ b)) (1 + List.count '\n' a) =
      Literal.lastLine a ++ firstLine b := by
  fun_induction splitLines a with
  | case1 => rfl
  | case2 r ih =>
    have hlast : Literal.lastLine ('\n' :: r) = Literal.lastLine r :=
      Literal.lastLine_append_lineFeed [] r
    rw [hlast, ← ih (fun hr => h (by rw [List.getLast?_cons, hr]; rfl)), List.count_cons_self,
      ← Nat.add_assoc]
    exact lineText_cons_succ _ _ (by omega)
  | case3 r ih =>
    have hlast : Literal.lastLine ('\r' :: '\n' :: r) = Literal.lastLine r :=
      Literal.lastLine_append_lineFeed ['\r'] r
    rw [hlast, ← ih (fun hr => h (by rw [List.getLast?_cons, List.getLast?_cons, hr]; rfl)),
      List.count_cons_of_ne (by decide), List.count_cons_self, ← Nat.add_assoc]
    exact lineText_cons_succ _ _ (by omega)
  | case4 c r hc hr ih =>
    have hlf : c ≠ '\n' := fun e => hc e
    have hrec := ih (fun hr => h (by rw [List.getLast?_cons, hr]; rfl))
    rw [List.cons_append, splitLines_cons hlf, List.count_cons_of_ne hlf]
    · by_cases hmem : '\n' ∈ r
      · have hcount := List.count_pos_iff.2 hmem
        obtain ⟨x, y, rfl, hy⟩ := Literal.exists_append_last hmem
        rw [lineText_push_of_lt _ _ (by omega), hrec, ← List.cons_append,
          Literal.lastLine_append_lineFeed, Literal.lastLine_append_lineFeed]
      · rw [List.count_eq_zero_of_not_mem hmem] at hrec ⊢
        rw [lineText_push_one, hrec, Literal.lastLine_of_notMem hmem,
          Literal.lastLine_of_notMem (by simp [hmem, Ne.symm hlf]), List.cons_append]
    · rintro rfl hhead
      cases r with
      | nil => exact h rfl hhead
      | cons d r => exact hr r rfl (by simpa using hhead)

/-- The line that a place in a text stands on. -/
theorem lineText_eq {t a b : Text} (ht : t = a ++ b)
    (h : a.getLast? = some '\r' → b.head? ≠ some '\n') :
    lineText (splitLines t) (Position.origin.advanceBy a).line =
      Literal.lastLine a ++ firstLine b := by
  rw [ht, Position.line_advanceBy]
  exact lineText_splitLines_append h

theorem column_advanceBy_origin (a : Text) :
    (Position.origin.advanceBy a).column = (Literal.lastLine a).length := by
  by_cases ha : '\n' ∈ a
  · exact Position.column_advanceBy_of_mem _ ha
  · rw [Position.column_advanceBy_of_notMem _ ha, Literal.lastLine_of_notMem ha]
    exact Nat.zero_add _

theorem take_lineText {t a b : Text} (ht : t = a ++ b)
    (h : a.getLast? = some '\r' → b.head? ≠ some '\n') :
    (lineText (splitLines t) (Position.origin.advanceBy a).line).take
      (Position.origin.advanceBy a).column = Literal.lastLine a := by
  rw [lineText_eq ht h, column_advanceBy_origin, List.take_left]

theorem drop_lineText {t a b : Text} (ht : t = a ++ b)
    (h : a.getLast? = some '\r' → b.head? ≠ some '\n') :
    (lineText (splitLines t) (Position.origin.advanceBy a).line).drop
      (Position.origin.advanceBy a).column = firstLine b := by
  rw [lineText_eq ht h, column_advanceBy_origin, List.drop_left]

theorem firstLine_cons {c : Char} {r : Text} (hc : c ≠ '\n') (hr : c ≠ '\r') :
    firstLine (c :: r) = c :: firstLine r := by
  rw [firstLine, splitLines_cons hc (fun h => absurd h hr), lineText_push_one, firstLine]

/-- A text without line feeds stands on the line of what follows it. -/
theorem firstLine_append {x t : Text} (hx : '\n' ∉ x) (ht : t.head? ≠ some '\n') :
    firstLine (x ++ t) = x ++ firstLine t := by
  have h := lineText_splitLines_append (a := x) (b := t) fun _ => ht
  rwa [List.count_eq_zero_of_not_mem hx, Literal.lastLine_of_notMem hx] at h

end Marginalia
