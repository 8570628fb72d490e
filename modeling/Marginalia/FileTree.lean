import Marginalia.Path
import Marginalia.Text.Utf8

/-!
# File trees

A tree of files, directories and symbolic links, seen from a working directory. An entry is found
by its location, the names on the way to it. Each location has at most one entry, and an entry
stands in a directory: `FileTree.set` keeps this by refusing every other place, and
`get?_set` says what it does to every location.
-/

namespace Marginalia

/-- A place in a tree: the name of an entry, then the name of its directory, and so on up to the
top, which has no name. -/
abbrev Location := List Text

/-- What stands at a location. -/
inductive Entry
  | file (content : Bytes)
  | directory
  /-- A symbolic link: whoever walks to it goes on along `target`, from the directory of the
  link. -/
  | link (target : Path)
  deriving DecidableEq, Repr

/-- The entry at a location, among entries that may lack the top. -/
def entryAt (entries : List (Location × Entry)) : Location → Option Entry
  | [] => some .directory
  | l => entries.lookup l

/-- The entries at other locations than `l`. -/
def entriesBut (l : Location) (es : List (Location × Entry)) : List (Location × Entry) :=
  es.filter (·.1 ≠ l)

theorem lookup_entriesBut {l l' : Location} (h : l' ≠ l) (es : List (Location × Entry)) :
    (entriesBut l es).lookup l' = es.lookup l' := by
  induction es with
  | nil => rfl
  | cons d ds ih =>
    obtain ⟨k, e⟩ := d
    simp only [entriesBut, ne_eq, List.filter_cons, decide_not] at ih ⊢
    by_cases hk : k = l
    · subst hk
      simpa [List.lookup_cons, beq_false_of_ne h] using ih
    · simp only [hk, decide_false, Bool.not_false, if_true, List.lookup_cons, ih]

/-- A new entry in front hides the old one of its location, and no other. -/
theorem entryAt_cons_entriesBut {l : Location} (hl : l ≠ []) (e : Entry)
    (es : List (Location × Entry)) (l' : Location) :
    entryAt ((l, e) :: entriesBut l es) l' = if l' = l then some e else entryAt es l' := by
  cases l' with
  | nil => simp [entryAt, Ne.symm hl]
  | cons n k =>
    by_cases h : n :: k = l
    · simp [entryAt, h]
    · simp only [entryAt, List.lookup_cons, if_neg h, beq_false_of_ne h]
      exact lookup_entriesBut h es

theorem keys_entriesBut_sublist (l : Location) (es : List (Location × Entry)) :
    ((entriesBut l es).map Prod.fst).Sublist (es.map Prod.fst) :=
  List.filter_sublist.map Prod.fst

/-- A tree of files. The top is a directory and not listed. -/
structure FileTree where
  entries : List (Location × Entry)
  /-- Where paths begin that do not start at the top. -/
  working : Location
  distinct : (entries.map Prod.fst).Nodup
  rooted : ∀ n l, (n :: l) ∈ entries.map Prod.fst → entryAt entries l = some .directory

namespace FileTree

/-- What stands at a location. -/
def get? (t : FileTree) (l : Location) : Option Entry :=
  entryAt t.entries l

/-- Whether a location is a directory. -/
def isDirectoryAt (t : FileTree) (l : Location) : Bool :=
  t.get? l = some .directory

/-- Whether an entry may be put at a location: into a directory, and not in place of one. -/
def hasRoomAt (t : FileTree) : Location → Bool
  | [] => false
  | n :: l => t.isDirectoryAt l && !t.isDirectoryAt (n :: l)

theorem ne_nil_of_hasRoomAt {t : FileTree} {l : Location} (h : t.hasRoomAt l) : l ≠ [] := by
  rintro rfl
  simp [hasRoomAt] at h

theorem hasRoomAt_cons {t : FileTree} {n : Text} {l : Location} :
    t.hasRoomAt (n :: l) ↔
      t.get? l = some .directory ∧ t.get? (n :: l) ≠ some .directory := by
  simp [hasRoomAt, isDirectoryAt]

/-- The tree with an entry at a location, if there is room for it. -/
def set (t : FileTree) (l : Location) (e : Entry) : FileTree :=
  if h : t.hasRoomAt l then
    { entries := (l, e) :: entriesBut l t.entries
      working := t.working
      distinct := by
        rw [List.map_cons, List.nodup_cons]
        refine ⟨fun hm => ?_, t.distinct.sublist (keys_entriesBut_sublist l t.entries)⟩
        obtain ⟨d, hd, rfl⟩ := List.mem_map.1 hm
        simp [entriesBut] at hd
      rooted := fun n k hm => by
        obtain ⟨m, j, rfl⟩ := List.exists_cons_of_ne_nil (ne_nil_of_hasRoomAt h)
        obtain ⟨hj, hne⟩ := hasRoomAt_cons.1 h
        have hk : entryAt t.entries k = some .directory := by
          rcases List.mem_cons.1 hm with he | hm
          · exact (List.cons.inj he).2 ▸ hj
          · exact t.rooted n k ((keys_entriesBut_sublist _ t.entries).subset hm)
        rw [entryAt_cons_entriesBut (List.cons_ne_nil m j), if_neg, hk]
        rintro rfl
        exact hne hk }
  else t

/-- Putting an entry changes its own location only, and nothing where there is no room. -/
theorem get?_set (t : FileTree) (l : Location) (e : Entry) (l' : Location) :
    (t.set l e).get? l' = if t.hasRoomAt l ∧ l' = l then some e else t.get? l' := by
  unfold set
  split
  · next h =>
    simp only [h, true_and]
    exact entryAt_cons_entriesBut (ne_nil_of_hasRoomAt h) e t.entries l'
  · next h => simp [h]

/-- An empty tree, with its top as the working directory. -/
def empty : FileTree := ⟨[], [], .nil, by simp⟩

/-- The tree seen from another directory. -/
def enter (t : FileTree) (l : Location) : FileTree :=
  { t with working := l }

/-- An empty working directory, in a directory of its own. -/
def workspace : FileTree :=
  (empty.set ["workspace".toList] .directory).enter ["workspace".toList]

/-- The names in a directory, each with its entry. -/
def children (t : FileTree) (l : Location) : List (Text × Entry) :=
  t.entries.filterMap fun (l', e) =>
    match l' with
    | [] => none
    | n :: k => if k = l then some (n, e) else none

theorem lookup_eq_some_iff {es : List (Location × Entry)} (h : (es.map Prod.fst).Nodup)
    {l : Location} {e : Entry} : es.lookup l = some e ↔ (l, e) ∈ es := by
  induction es with
  | nil => simp
  | cons d ds ih =>
    obtain ⟨k, f⟩ := d
    rw [List.map_cons, List.nodup_cons] at h
    by_cases hk : l = k
    · subst hk
      have hn : (l, e) ∉ ds := fun hm => h.1 (List.mem_map.2 ⟨(l, e), hm, rfl⟩)
      simp [hn, eq_comm]
    · simp [List.lookup_cons, beq_false_of_ne hk, ih h.2, hk]

/-- The names in a directory are those at which something stands. -/
theorem mem_children {t : FileTree} {l : Location} {n : Text} {e : Entry} :
    (n, e) ∈ t.children l ↔ t.get? (n :: l) = some e := by
  rw [get?, entryAt, lookup_eq_some_iff t.distinct]
  · simp only [children, List.mem_filterMap]
    constructor
    · rintro ⟨⟨k, f⟩, hm, h⟩
      cases k with
      | nil => simp at h
      | cons m k =>
        by_cases hk : k = l
        · simp only [hk, if_true, Option.some.injEq, Prod.mk.injEq] at h
          exact h.1 ▸ h.2 ▸ hk ▸ hm
        · simp [hk] at h
    · exact fun hm => ⟨_, hm, by simp⟩
  · simp

/-- The path from a directory down to a location below it. -/
def pathBelow? (top : Location) (l : Location) : Option Path :=
  if top.isSuffixOf l && top.length < l.length then
    some ⟨Text.joinWith ['/'] (l.take (l.length - top.length)).reverse⟩
  else none

/-- Every entry below the working directory with its path from there, ordered by the characters of
the paths. -/
def listing (t : FileTree) : List (Path × Entry) :=
  (t.entries.filterMap fun (l, e) => (pathBelow? t.working l).map (·, e)).mergeSort
    fun a b => a.1.text.le b.1.text

end FileTree

end Marginalia
