import Marginalia.Literal

/-!
# Notes

The commentary of a source, line by line. A `Note` is what one physical line has of it, and
`Notes` holds at most one note a line, in the order of the lines. The operations are described
by what they do to the lookup: `get?_empty`, `get?_insert`.
-/

namespace Marginalia

/-- What a note comes from. -/
inductive NoteKind
  /-- A comment to the end of the line. -/
  | comment
  /-- A string literal that no expression makes use of. -/
  | standaloneString
  /-- A string literal that documents the module, class or function it opens. -/
  | docstring
  deriving DecidableEq, Repr

/-- Whether the note is part of a string literal. -/
def NoteKind.isString : NoteKind → Bool
  | .comment => false
  | .standaloneString | .docstring => true

/-- The commentary on one physical line. -/
structure Note where
  /-- The characters of the commentary on this line. -/
  content : Text
  kind : NoteKind
  /-- Where the commentary starts on the line; what stands before it is code. -/
  column : Nat
  /-- The whole literal that the line belongs to, if the note is part of one. -/
  extent : Option Extent
  deriving DecidableEq, Repr

/-- The notes of a source, at most one for a line, in the order of the lines. -/
structure Notes where
  toList : List (Nat × Note)
  ascending : toList.Pairwise (·.1 < ·.1)

namespace Notes

/-- No notes. -/
def empty : Notes := ⟨[], .nil⟩

/-- The entries with `note` at `line`, in place of any entry that was there. -/
def insertEntry (line : Nat) (note : Note) : List (Nat × Note) → List (Nat × Note)
  | [] => [(line, note)]
  | e :: es =>
    if line < e.1 then (line, note) :: e :: es
    else if line = e.1 then (line, note) :: es
    else e :: insertEntry line note es

theorem mem_insertEntry {line : Nat} {note : Note} {e : Nat × Note} {es : List (Nat × Note)}
    (h : e ∈ insertEntry line note es) : e = (line, note) ∨ e ∈ es := by
  induction es with
  | nil => simpa [insertEntry] using h
  | cons d ds ih =>
    rw [insertEntry] at h
    split at h
    · simpa using h
    · split at h
      · rcases List.mem_cons.1 h with h | h
        · exact .inl h
        · exact .inr (List.mem_cons_of_mem _ h)
      · rcases List.mem_cons.1 h with h | h
        · exact .inr (h ▸ List.mem_cons_self)
        · exact (ih h).imp id (List.mem_cons_of_mem _)

theorem pairwise_insertEntry (line : Nat) (note : Note) {es : List (Nat × Note)}
    (h : es.Pairwise (·.1 < ·.1)) : (insertEntry line note es).Pairwise (·.1 < ·.1) := by
  induction es with
  | nil => simp [insertEntry]
  | cons d ds ih =>
    obtain ⟨hd, hds⟩ := List.pairwise_cons.1 h
    rw [insertEntry]
    split
    · next hlt =>
      refine List.pairwise_cons.2 ⟨fun e he => ?_, h⟩
      rcases List.mem_cons.1 he with rfl | he
      · exact hlt
      · exact Nat.lt_trans hlt (hd e he)
    · next hge =>
      split
      · next heq => exact List.pairwise_cons.2 ⟨fun e he => heq ▸ hd e he, hds⟩
      · next hne =>
        refine List.pairwise_cons.2 ⟨fun e he => ?_, ih hds⟩
        rcases mem_insertEntry he with rfl | he
        · simp only
          omega
        · exact hd e he

/-- Put a note on a line, in place of any note that was there. -/
def insert (ns : Notes) (line : Nat) (note : Note) : Notes :=
  ⟨insertEntry line note ns.toList, pairwise_insertEntry line note ns.ascending⟩

/-- Put notes on lines, one after the other. -/
def insertAll (ns : Notes) (entries : List (Nat × Note)) : Notes :=
  entries.foldl (fun ns e => ns.insert e.1 e.2) ns

/-- The note on a line. -/
def get? (ns : Notes) (line : Nat) : Option Note :=
  (ns.toList.find? (·.1 = line)).map Prod.snd

/-- Whether there is a note on a line. -/
def contains (ns : Notes) (line : Nat) : Bool :=
  (ns.get? line).isSome

/-- The number of lines with a note. -/
def size (ns : Notes) : Nat :=
  ns.toList.length

/-- The number of characters in the contents of the notes, equal contents counted once. -/
def letterCount (ns : Notes) : Nat :=
  ((ns.toList.map (·.2.content)).eraseDups).foldr (fun t n => t.length + n) 0

@[simp]
theorem get?_empty (line : Nat) : empty.get? line = none := rfl

theorem find?_insertEntry (line n : Nat) (note : Note) {es : List (Nat × Note)}
    (h : es.Pairwise (·.1 < ·.1)) :
    (insertEntry line note es).find? (·.1 = n) =
      if n = line then some (line, note) else es.find? (·.1 = n) := by
  induction es with
  | nil => by_cases hn : n = line <;> simp [insertEntry, eq_comm, hn]
  | cons d ds ih =>
    obtain ⟨hd, hds⟩ := List.pairwise_cons.1 h
    rw [insertEntry]
    split
    · by_cases hn : n = line
      · simp [hn]
      · simp [hn, Ne.symm hn]
    · split
      · next heq => by_cases hn : n = line <;> simp_all [eq_comm]
      · next hne =>
        rw [List.find?_cons, List.find?_cons, ih hds]
        by_cases hn : n = line
        · simp [hn, Ne.symm hne]
        · simp [hn]

@[simp]
theorem get?_insert (ns : Notes) (line n : Nat) (note : Note) :
    (ns.insert line note).get? n = if n = line then some note else ns.get? n := by
  rw [get?, insert, find?_insertEntry line n note ns.ascending]
  split <;> rfl

end Notes

/-- The notes that a literal leaves on its lines. -/
def Literal.notes (kind : NoteKind) (s : Literal) : List (Nat × Note) :=
  s.lineContents.map fun (n, content) => (n, ⟨content, kind, s.columnOn n, some s.extent⟩)

end Marginalia
