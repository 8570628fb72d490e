import Marginalia.Proofs.Literal
import Marginalia.Proofs.SyntaxTree
import Marginalia.Proofs.Text.Offsets
import Marginalia.Proofs.Token.Cover

/-!
# Docstrings of a source

A syntax tree gives two offsets in bytes for each of its nodes, and the literal is measured from
them: its rows by the line feeds in front of the offsets, its column by the characters behind the
last of them, its text by the bytes in between (`literalAtBytes?`). This is to cut the source by
characters (`literalAtBytes?_eq`), so the docstrings that a sound tree shows are slices of the
source (`IsSound.literal?_eq`), and they do not overlap (`docstrings_apart`).
-/

namespace Marginalia

/-! ## Measuring in bytes -/

/-- The position of offset `n` in a source. -/
def positionAt (source : Text) (n : ℕ) : Position :=
  Position.advanceBy ⟨1, 0⟩ (source.take n)

/-- The part of a source between two offsets. -/
def sliceLiteral (source : Text) (start stop : ℕ) : Literal :=
  Literal.ofText (positionAt source start) (positionAt source stop).line
    ((source.take stop).drop start)

/-- The number of bytes in front of the character of index `i`. -/
def byteOffset (t : Text) (i : ℕ) : ℕ := Utf8.size (t.take i)

/-- The row of the byte at offset `x`, counted from 0. -/
def rowAt (t : Text) (x : ℕ) : ℕ := List.count 0x0A ((Utf8.encode t).take x)

/-- The literal that has the bytes of the text from offset `x` up to offset `y`; `none` if these are
the bytes of no text. -/
def literalAtBytes? (t : Text) (x y : ℕ) : Option Literal :=
  (Utf8.decode (((Utf8.encode t).take y).drop x)).toOption.map
    (Literal.ofText ⟨rowAt t x + 1, columnAt t x⟩ (rowAt t y + 1))

theorem take_byteOffset_encode (t : Text) (i : ℕ) :
    (Utf8.encode t).take (byteOffset t i) = Utf8.encode (t.take i) := by
  have hcut := Utf8.take_size_encode (t.take i) (t.drop i)
  rwa [List.take_append_drop] at hcut

theorem rowAt_byteOffset (t : Text) (i : ℕ) :
    rowAt t (byteOffset t i) = List.count '\n' (t.take i) := by
  rw [rowAt, take_byteOffset_encode, Utf8.count_lineFeed_encode]

/-- The position of a character by its row and its column. -/
theorem positionAt_eq (t : Text) (i : ℕ) :
    positionAt t i = ⟨rowAt t (byteOffset t i) + 1, columnAt t (byteOffset t i)⟩ := by
  have hbefore : Utf8.takeBytes? (byteOffset t i) t = some (t.take i) := by
    have hcut := Utf8.takeBytes?_size (t.take i) (t.drop i)
    rwa [List.take_append_drop] at hcut
  rw [positionAt, Position.advanceBy_take, Text.placeOf, rowAt_byteOffset, columnAt, hbefore,
    Nat.add_comm, Option.getD_some]
  simp

/-- **To cut by bytes is to cut by characters.** -/
theorem literalAtBytes?_eq (t : Text) {i j : ℕ} (hij : i ≤ j) :
    literalAtBytes? t (byteOffset t i) (byteOffset t j) = some (sliceLiteral t i j) := by
  have hfront : t.take j = t.take i ++ (t.take j).drop i := by
    conv_lhs => rw [← List.take_append_drop i (t.take j)]
    rw [List.take_take, min_eq_left hij]
  have hbytes : ((Utf8.encode t).take (byteOffset t j)).drop (byteOffset t i) =
      Utf8.encode ((t.take j).drop i) := by
    rw [take_byteOffset_encode, byteOffset, hfront, Utf8.drop_size_encode, ← hfront]
  rw [literalAtBytes?, hbytes, Utf8.decode_eq_ok_iff.2 rfl, sliceLiteral, positionAt_eq t i,
    positionAt_eq t j]
  rfl

theorem byteOffset_lt {t : Text} {i j : ℕ} (hij : i < j) (hj : j ≤ t.length) :
    byteOffset t i < byteOffset t j := by
  obtain ⟨k, rfl⟩ := Nat.exists_eq_add_of_lt hij
  rw [byteOffset, byteOffset, Nat.add_assoc, List.take_add, Utf8.size_append]
  refine Nat.lt_add_of_pos_right (Utf8.size_pos fun hnil => ?_)
  have hlength := congrArg List.length hnil
  rw [List.length_take, List.length_drop, List.length_nil] at hlength
  omega

theorem le_of_byteOffset_le {t : Text} {i j : ℕ} (hi : i ≤ t.length)
    (h : byteOffset t i ≤ byteOffset t j) : i ≤ j :=
  not_lt.1 fun hlt => absurd h (not_le.2 (byteOffset_lt hlt hi))

/-- A place of a source is in front of one of its characters, or at its end. -/
theorem Offset.IsIn.exists_index {source : Text} {x : Offset} (h : x.IsIn source) :
    ∃ i ≤ source.length, x.byte = byteOffset source i ∧ x.row = rowAt source x.byte := by
  obtain ⟨s, hs, hrow⟩ := Option.map_eq_some_iff.1 h
  obtain ⟨hsize, r, rfl⟩ := Utf8.exists_append_of_takeBytes? hs
  have hbyte : x.byte = byteOffset (s ++ r) s.length := by
    rw [byteOffset, List.take_left, hsize]
  refine ⟨s.length, by simp, hbyte, ?_⟩
  rw [hbyte, rowAt_byteOffset, List.take_left, hrow]

/-! ## Positions -/

/-- Going on in a source comes to later positions. -/
theorem positionAt_le (source : Text) {m n : ℕ} (h : m ≤ n) :
    positionAt source m ≤ positionAt source n := by
  obtain ⟨k, rfl⟩ := Nat.exists_eq_add_of_le h
  rw [positionAt, positionAt, List.take_add, Position.advanceBy_append]
  exact Position.le_advanceBy ..

/-- A literal does not end behind its text; carriage returns at the end of it do not count. -/
theorem Literal.stop_ofText_le (p : Position) (x : Text) :
    (ofText p (p.advanceBy x).line x).stop ≤ p.advanceBy x := by
  have hline := max_eq_left (Position.line_le (Position.le_advanceBy p x))
  have hwidth := (Text.trimEnd_isPrefix (· == '\r') (lastLine x)).length_le
  rw [Position.le_iff]
  right
  simp only [ofText, hline, true_and]
  by_cases hmem : '\n' ∈ x
  · rwa [if_pos hmem, Position.column_advanceBy_of_mem p hmem]
  · rw [lastLine_of_notMem hmem] at hwidth ⊢
    rw [if_neg hmem, Position.column_advanceBy_of_notMem p hmem]
    omega

theorem stop_sliceLiteral_le (source : Text) {m n : ℕ} (h : m ≤ n) :
    (sliceLiteral source m n).stop ≤ positionAt source n := by
  have hat : (positionAt source m).advanceBy ((source.take n).drop m) = positionAt source n := by
    obtain ⟨k, rfl⟩ := Nat.exists_eq_add_of_le h
    rw [positionAt, positionAt, List.drop_take, Nat.add_sub_cancel_left, List.take_add,
      Position.advanceBy_append]
  rw [sliceLiteral, ← hat]
  exact Literal.stop_ofText_le ..

/-- Literals stay in order when the first line begins further to the right. -/
theorem Literal.shiftFirstLine_le {d e : Literal} (hstart : 1 ≤ d.start.line)
    (hstop : d.start.line ≤ d.stop.line) (h : d.stop ≤ e.start) (width : ℕ) :
    (d.shiftFirstLine width).stop ≤ (e.shiftFirstLine width).start := by
  rw [Position.le_iff] at h
  rw [shiftFirstLine, shiftFirstLine]
  by_cases hd : d.start.line = 1
  · rw [if_pos hd, Position.le_iff]
    split_ifs <;> simp only [true_and] <;> omega
  · rw [if_neg hd, if_neg (by omega), Position.le_iff]
    exact h

/-! ## The literals of nodes -/

section Node

variable {source : Text} {t : SyntaxTree}

/-- A literal starts on the line of its node, and does not end before. -/
theorem SyntaxTree.of_literal? {d : Literal} (h : t.literal? source = some d) :
    t.text? source = some d.text ∧ d.start.line = t.start.row + 1 ∧
      d.start.line ≤ d.stop.line := by
  obtain ⟨x, hx, rfl⟩ := Option.map_eq_some_iff.1 h
  exact ⟨hx, rfl, le_max_right _ _⟩

/-- **The literal of a sound node** is what the source has between two of its characters. -/
theorem SyntaxTree.IsSound.literal?_eq (h : t.IsSound source) :
    ∃ i j, i ≤ j ∧ j ≤ source.length ∧ t.start.byte = byteOffset source i ∧
      t.stop.byte = byteOffset source j ∧ t.literal? source = some (sliceLiteral source i j) := by
  obtain ⟨hstart, hstop⟩ := h.isIn t t.mem_nodes_self
  obtain ⟨i, hi, hbyte, hrow⟩ := hstart.exists_index
  obtain ⟨j, hj, hbyte', hrow'⟩ := hstop.exists_index
  have hij : i ≤ j := by
    refine le_of_byteOffset_le hi ?_
    rw [← hbyte, ← hbyte']
    exact h.le t t.mem_nodes_self
  refine ⟨i, j, hij, hj, hbyte, hbyte', ?_⟩
  rw [← literalAtBytes?_eq source hij, ← hbyte, ← hbyte', literalAtBytes?, ← hrow, ← hrow']
  rfl

/-- The literals of nodes that do not overlap do not overlap. -/
theorem SyntaxTree.Apart.apart_literal? {m n : SyntaxTree} (h : m.Apart n) (hm : m.IsSound source)
    (hn : n.IsSound source) {d e : Literal} (hd : m.literal? source = some d)
    (he : n.literal? source = some e) : d.Apart e := by
  obtain ⟨i, j, hij, hj, hi, hstop, hm⟩ := hm.literal?_eq
  obtain ⟨k, l, hkl, hl, hk, hstop', hn⟩ := hn.literal?_eq
  obtain rfl := Option.some.inj (hm.symm.trans hd)
  obtain rfl := Option.some.inj (hn.symm.trans he)
  rw [SyntaxTree.Apart, hi, hk, hstop, hstop'] at h
  rcases h with hle | hle
  · exact Or.inl ((stop_sliceLiteral_le _ hij).trans
      (positionAt_le _ (le_of_byteOffset_le hj hle)))
  · exact Or.inr ((stop_sliceLiteral_le _ hkl).trans
      (positionAt_le _ (le_of_byteOffset_le hl hle)))

end Node

/-! ## The docstrings of a tree -/

theorem insertByLine_perm (d : Literal) (ds : List Literal) :
    (insertByLine d ds).Perm (d :: ds) := by
  induction ds with
  | nil => rfl
  | cons e ds ih =>
    rw [insertByLine]
    split
    · rfl
    · exact (ih.cons e).trans (.swap d e ds)

theorem sortByLine_perm (ds : List Literal) : (sortByLine ds).Perm ds := by
  induction ds with
  | nil => rfl
  | cons d ds ih => exact (insertByLine_perm d _).trans (ih.cons d)

theorem SyntaxTree.mem_docstrings_iff {source : Text} {t : SyntaxTree} {d : Literal} :
    d ∈ t.docstrings source ↔
      ∃ b ∈ t :: bodiesBelow t, docstringOfBody? source b = some d := by
  rw [docstrings, (sortByLine_perm _).mem_iff, List.mem_filterMap]

theorem docstringOfBody?_eq_some_iff {source : Text} {b : SyntaxTree} {d : Literal} :
    docstringOfBody? source b = some d ↔
      ∃ s, docstringStatement? source b = some s ∧ s.literal? source = some d :=
  Option.bind_eq_some_iff

/-- **The docstrings of a sound tree do not overlap.** -/
theorem SyntaxTree.IsSound.pairwise_docstrings {source : Text} {t : SyntaxTree}
    (h : t.IsSound source) : (t.docstrings source).Pairwise Literal.Apart := by
  have hstatements : (t :: bodiesBelow t).filterMap (docstringOfBody? source) =
      ((t :: bodiesBelow t).filterMap (docstringStatement? source)).filterMap
        (·.literal? source) := by
    rw [List.filterMap_filterMap]
    rfl
  rw [docstrings, (sortByLine_perm _).pairwise_iff fun h => h.symm, hstatements]
  refine List.pairwise_filterMap.2 (h.pairwise_apart.imp_of_mem ?_)
  intro m n hm hn hapart d hd e he
  exact hapart.apart_literal? (h.of_mem (IsSound.mem_nodes_of_mem_filterMap hm))
    (h.of_mem (IsSound.mem_nodes_of_mem_filterMap hn)) hd he

/-! ## The docstrings of a source -/

section Parser

variable {parse : Parser} {source : Text}

/-- The docstrings of a source, none if they are not known. -/
def knownDocstrings (parse : Parser) (source : Text) : List Literal :=
  match docstrings parse source with
  | .ok ds => ds
  | .error _ => []

/-- The docstrings of a source are those of its tree, behind the byte order mark. -/
theorem exists_root_of_docstrings {ds : List Literal} (h : docstrings parse source = .ok ds) :
    ∃ root, parse (splitByteOrderMark source).1 = .ok root ∧ root.hasError = false ∧
      ds = (root.docstrings (splitByteOrderMark source).1).map
        (·.shiftFirstLine (splitByteOrderMark source).2) := by
  rw [docstrings] at h
  cases hroot : parse (splitByteOrderMark source).1 with
  | error e => simp [hroot, bind, Except.bind] at h
  | ok root =>
    simp only [hroot, bind, Except.bind] at h
    split at h
    · simp at h
    · next herror => exact ⟨root, rfl, by simpa using herror, (Except.ok.inj h).symm⟩

theorem one_le_line_of_mem_docstrings {ds : List Literal} (h : docstrings parse source = .ok ds)
    {d : Literal} (hd : d ∈ ds) : 1 ≤ d.start.line := by
  obtain ⟨root, -, -, rfl⟩ := exists_root_of_docstrings h
  obtain ⟨e, he, rfl⟩ := List.mem_map.1 hd
  obtain ⟨b, -, hb⟩ := SyntaxTree.mem_docstrings_iff.1 he
  obtain ⟨s, -, hs⟩ := docstringOfBody?_eq_some_iff.1 hb
  have hline := (SyntaxTree.of_literal? hs).2.1
  rw [Literal.shiftFirstLine]
  split
  · exact le_rfl
  · omega

/-- **The docstrings of a source do not overlap**, when the parser is sound. -/
theorem docstrings_apart (hparse : parse.IsSound) (source : Text) :
    (knownDocstrings parse source).Pairwise Literal.Apart := by
  rw [knownDocstrings]
  split
  · next ds hds =>
    obtain ⟨root, hroot, herror, rfl⟩ := exists_root_of_docstrings hds
    refine List.pairwise_map.2 ((hparse _ _ hroot herror).pairwise_docstrings.imp_of_mem ?_)
    have hlines : ∀ d ∈ root.docstrings (splitByteOrderMark source).1,
        1 ≤ d.start.line ∧ d.start.line ≤ d.stop.line := by
      intro d hd
      obtain ⟨b, -, hb⟩ := SyntaxTree.mem_docstrings_iff.1 hd
      obtain ⟨s, -, hs⟩ := docstringOfBody?_eq_some_iff.1 hb
      obtain ⟨-, hline, hle⟩ := SyntaxTree.of_literal? hs
      exact ⟨by omega, hle⟩
    intro d e hd he hapart
    obtain ⟨hd₁, hd₂⟩ := hlines d hd
    obtain ⟨he₁, he₂⟩ := hlines e he
    rcases hapart with hle | hle
    · exact Or.inl (Literal.shiftFirstLine_le hd₁ hd₂ hle _)
    · exact Or.inr (Literal.shiftFirstLine_le he₁ he₂ hle _)
  · exact List.Pairwise.nil

end Parser

end Marginalia
