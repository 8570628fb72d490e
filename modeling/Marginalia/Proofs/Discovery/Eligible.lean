import Marginalia.Proofs.Discovery
import Marginalia.Proofs.FileTree.Versions
import Marginalia.Proofs.Path

/-!
# Discovery finds the eligible files

Below a directory a file is eligible when its name ends in `.py`, no directory on the way down is
passed over, and the patterns admit its path (`FileTree.IsEligible`). A search with a walk that is
faithful finds these files and no others (`FileTree.mem_filesBelow_iff_isEligible`), and the paths
it finds ascend strictly (`FileTree.discover_spec`).

What a search finds has the name of a source, so it never comes to a copy
(`FileTree.backup_notFound`).
-/

namespace Marginalia

theorem Filter.selects_iff {f : Filter} {p : Path} :
    f.selects p = true ↔ p.isPython = true ∧ (∀ g ∈ f.excluded, g p.text = false) ∧
      (f.included = [] ∨ ∃ g ∈ f.included, g p.text = true) := by
  simp [selects, and_assoc]

/-- The path of the entry `n` at the end of a way down from `root`. -/
def Path.below (root : Path) (dirs : List Text) (n : Text) : Path :=
  root.join (Text.joinWith ['/'] (dirs ++ [n]))

/-- The extension of a path is that of the name at its end. -/
theorem Path.isPython_below_iff {dirs : List Text} {n : Text} (h : AreNames (dirs ++ [n]))
    (root : Path) :
    (root.below dirs n).isPython = true ↔ ∃ stem, stem ≠ [] ∧ n = stem ++ ".py".toList := by
  obtain ⟨hn, hslash⟩ := h n (by simp)
  obtain ⟨u, hu, hjoin⟩ := (dirs.foldl join root).exists_join_eq
  have hbelow : root.below dirs n = ⟨u ++ n⟩ := by
    rw [below, ← foldl_join h (by simp), List.foldl_append, ← hjoin]
    rfl
  rw [hbelow, ← isSourceName_iff hu hn hslash, isSourceName_iff_stem hn hslash]

namespace FileTree

/-- The entry `n` at the end of the way `dirs` down from the directory at `l`, to which `root`
leads, is a source that the filter selects. -/
structure IsEligible (t : FileTree) (f : Filter) (root : Path) (l : Location) (dirs : List Text)
    (n : Text) : Prop where
  file : ∃ content, t.get? (n :: (dirs.reverse ++ l)) = some (.file content)
  extension : ∃ stem, stem ≠ [] ∧ n = stem ++ ".py".toList
  way : ∀ d ∈ dirs, isPassedOver d = false
  excluded : ∀ g ∈ f.excluded, g (root.below dirs n).text = false
  included : f.included = [] ∨ ∃ g ∈ f.included, g (root.below dirs n).text = true

/-! ## The way down -/

section IsOrdinary

variable {walk : Walker} {t : FileTree} (ht : t.IsOrdinary) {f : Filter} {p : Path} {l : Location}
include ht

/-- The names on the way to an entry. -/
theorem areNames_of_get? (ns : List Text) {e : Entry} (h : t.get? (ns.reverse ++ l) = some e) :
    Path.AreNames ns := by
  cases hns : ns.reverse ++ l with
  | nil => simp_all [Path.AreNames]
  | cons n k =>
    rw [hns] at h
    have hmem := (lookup_eq_some_iff t.distinct).1 h
    refine fun m hm => ht.name _ hmem m ?_
    rw [← hns]
    exact List.mem_append_left _ (List.mem_reverse.2 hm)

theorem mem_filesBelow_iff_isEligible (hwalk : walk.IsFaithful) (hl : t.directory? p = some l)
    {q : Path} : q ∈ filesBelow walk t f p ↔
      ∃ dirs n, t.IsEligible f p l dirs n ∧ q = p.below dirs n := by
  rw [mem_filesBelow_iff ht hwalk hl]
  refine exists_congr fun dirs => exists_congr fun n => ⟨?_, ?_⟩
  · rintro ⟨⟨content, hfile⟩, hway, hselects, hq⟩
    have hnames := areNames_of_get? ht (dirs ++ [n]) (l := l) (by simpa using hfile)
    rw [Path.foldl_join hnames (by simp)] at hq
    obtain rfl : q = p.below dirs n := hq
    obtain ⟨hpython, hexcluded, hincluded⟩ := Filter.selects_iff.1 hselects
    exact ⟨⟨⟨content, hfile⟩, (Path.isPython_below_iff hnames p).1 hpython, hway, hexcluded,
      hincluded⟩, rfl⟩
  · rintro ⟨⟨⟨content, hfile⟩, hextension, hway, hexcluded, hincluded⟩, rfl⟩
    have hnames := areNames_of_get? ht (dirs ++ [n]) (l := l) (by simpa using hfile)
    have hpython := (Path.isPython_below_iff hnames p).2 hextension
    exact ⟨⟨content, hfile⟩, hway, Filter.selects_iff.2 ⟨hpython, hexcluded, hincluded⟩,
      (Path.foldl_join hnames (by simp) p).symm⟩

/-- What a search finds are different paths, also by their components. -/
theorem nodup_map_components_filesBelow (hwalk : walk.IsFaithful) (hl : t.directory? p = some l) :
    ((filesBelow walk t f p).map Path.components).Nodup := by
  have hp : p.text ≠ [] :=
    ((locate_eq_ok_iff ht.hasNoLinks).1 (locate_of_find? (Option.filter_eq_some_iff.1 hl).1)).1
  have hnodup := List.Nodup.of_map _ (nodup_map_find?_filesBelow ht hwalk (f := f) hl)
  refine hnodup.map_on fun q hq r hr hqr => ?_
  obtain ⟨dirs, n, ⟨content, hfile⟩, -, -, rfl⟩ := (mem_filesBelow_iff ht hwalk hl).1 hq
  obtain ⟨dirs', n', ⟨content', hfile'⟩, -, -, rfl⟩ := (mem_filesBelow_iff ht hwalk hl).1 hr
  have hnames := areNames_of_get? ht (dirs ++ [n]) (l := l) (by simpa using hfile)
  have hnames' := areNames_of_get? ht (dirs' ++ [n']) (l := l) (by simpa using hfile')
  rw [Path.components_foldl_join hp hnames, Path.components_foldl_join hp hnames'] at hqr
  have hmap := List.append_cancel_left hqr
  rw [List.map_injective_iff.2 (fun _ _ => Step.name.inj) hmap]

end IsOrdinary

/-! ## Copies -/

/-- A search finds files with the name of a source. -/
theorem exists_isSourceName_of_mem_discover {walk : Walker} {t : FileTree} (ht : t.HasNoLinks)
    {f : Filter} {root q : Path} {ps : List Path} (h : t.discover walk f root = .ok ps)
    (hq : q ∈ ps) : q.isPython = true ∧ ∃ n dir, t.find? q = some (n :: dir) ∧ IsSourceName n := by
  obtain ⟨hfile, hselects⟩ := of_mem_discover h hq
  obtain ⟨l, hl, hat⟩ := (Option.any_eq_true _ _).1 hfile
  have hpython := Filter.isPython_of_selects hselects
  obtain ⟨-, n, dir, -, rfl, -, hn, -⟩ := isSourceAt_of_file ht hpython hl hat
  exact ⟨hpython, n, dir, hl, hn⟩

/-- The copy of a source that was stripped is at `k`, and no search finds it, neither by its path
nor by another, whatever becomes of the tree. -/
structure IsNeverFound (t : FileTree) (copy : Path) (k : Location) : Prop where
  hasNoLinks : t.HasNoLinks
  find? : t.find? copy = some k
  notFound : ∀ s : FileTree, s.HasNoLinks → ∀ walk f root ps q,
    s.discover walk f root = .ok ps → q ∈ ps → q ≠ copy ∧ s.find? q ≠ some k

/-- **No search finds a copy.** Stripping a source changes nothing, or leaves a copy that is never
found. -/
theorem backup_notFound (parse : Parser) {t : FileTree} (ht : t.HasNoLinks) (mode : BackupMode)
    (p : Path) : (∃ e, (t.strip parse mode p).2 = .error e ∧ (t.strip parse mode p).1 = t) ∨
      ∃ r k, (t.strip parse mode p).2 = .ok r ∧
        (t.strip parse mode p).1.IsNeverFound r.backup k := by
  cases hr : (t.strip parse mode p).2 with
  | error e => exact Or.inl ⟨e, rfl, fst_strip_of_error hr⟩
  | ok r =>
    right
    obtain ⟨u, n, x, dir, rfl, hu, -, h, hbackup, hx, hstripped⟩ :=
      exists_isStripped_of_strip parse ht hr
    obtain ⟨bytes, text, -, -, hget⟩ := hstripped.get?
    have hcopy := hget (x :: dir)
    rw [if_neg fun heq => hstripped.ne (List.cons.inj heq).1, if_pos rfl] at hcopy
    refine ⟨r, x :: dir, rfl, ?_⟩
    exact {
      hasNoLinks :=
        strip_induction (fun _ _ content hk hs => hs.set_file hk content) ht parse mode _
      find? := by
        rw [hbackup]
        exact (h.strip parse mode _).find?_name hstripped.ofPiece hstripped.slash hcopy
      notFound := fun s hs walk f root ps q hq hmem => by
        obtain ⟨hpython, m, dir', hfind, hm⟩ := exists_isSourceName_of_mem_discover hs hq hmem
        constructor
        · rintro rfl
          rw [hbackup] at hpython
          exact hx ((isSourceName_iff hu hstripped.ofPiece hstripped.slash).2 hpython)
        · rintro hk
          rw [hk] at hfind
          exact hx ((List.cons.inj (Option.some.inj hfind)).1 ▸ hm) }

/-! ## The main result -/

/-- **Discovery finds exactly the eligible files.** -/
theorem discover_spec {walk : Walker} (hwalk : walk.IsFaithful) (parse : Parser) {t : FileTree}
    (ht : t.IsOrdinary) {root : Path} (hroot : t.reaches root) (f : Filter) :
    (t.isFile root = true ∧
        t.discover walk f root = .ok (if f.selects root then [root] else []) ∨
      ∃ l ps, t.directory? root = some l ∧ t.discover walk f root = .ok ps ∧
        (ps.Pairwise fun p q => p.le q = true ∧ q.le p = false) ∧
        ∀ q, q ∈ ps ↔ ∃ dirs n, t.IsEligible f root l dirs n ∧ q = root.below dirs n) ∧
    ∀ mode p, (∃ e, (t.strip parse mode p).2 = .error e ∧ (t.strip parse mode p).1 = t) ∨
      ∃ r k, (t.strip parse mode p).2 = .ok r ∧
        (t.strip parse mode p).1.IsNeverFound r.backup k := by
  refine ⟨?_, backup_notFound parse ht.hasNoLinks⟩
  rcases isFile_or_directory? hroot with hfile | ⟨l, hl⟩
  · left
    refine ⟨hfile, ?_⟩
    rw [discover, if_neg (by simp [hroot]), if_pos hfile]
  · right
    refine ⟨l, Path.sort (filesBelow walk t f root), hl, ?_,
      Path.pairwise_sort (nodup_map_components_filesBelow ht hwalk hl), fun q => ?_⟩
    · rw [discover, if_neg (by simp [hroot]), if_neg (by simp [isFile_of_directory? hl])]
    · rw [← mem_filesBelow_iff_isEligible ht hwalk hl]
      exact (List.mergeSort_perm _ Path.le).mem_iff

/-- A directory with the name of a source, a directory that is passed over inside of another, and
two files that are no sources. -/
def nestedSources : FileTree :=
  ((((workspace.place (.ofString ".d/x.py/b.py") (.file [])).place
    (.ofString ".d/venv.py") (.file [])).place
      (.ofString ".d/x.py/venv/c.py") (.file [])).place
        (.ofString ".d/.py") (.file [])).place
          (.ofString ".d/b.py.bak") (.file [])

/-- The syntax tree of the empty text. -/
def parseNothing : Parser := .ofTable [([], .named "module" ⟨0, 0⟩ ⟨0, 0⟩ [])]

/-- From the hidden directory on, a search of `nestedSources` finds two files, and never the copy of
one of them. -/
theorem discover_spec_nestedSources :
    nestedSources.IsOrdinary ∧ nestedSources.reaches (.ofString ".d/") ∧
      (∃ l ps, nestedSources.directory? (.ofString ".d/") = some l ∧
        nestedSources.discover walk .all (.ofString ".d/") = .ok ps ∧
        (ps.Pairwise fun p q => p.le q = true ∧ q.le p = false) ∧
        (∀ q, q ∈ ps ↔ ∃ dirs n, nestedSources.IsEligible .all (.ofString ".d/") l dirs n ∧
          q = Path.below (.ofString ".d/") dirs n) ∧
        ps.Perm [.ofString ".d/venv.py", .ofString ".d/x.py/b.py"]) ∧
      ∃ r k, (nestedSources.strip parseNothing .overwrite (.ofString ".d/venv.py")).2 = .ok r ∧
        (nestedSources.strip parseNothing .overwrite
          (.ofString ".d/venv.py")).1.IsNeverFound r.backup k := by
  have hordinary : nestedSources.IsOrdinary := ⟨by decide +kernel, by decide +kernel⟩
  have hreaches : nestedSources.reaches (.ofString ".d/") := by decide +kernel
  have hfile : nestedSources.isFile (.ofString ".d/") = false := by decide +kernel
  have hbelow : (filesBelow walk nestedSources .all (.ofString ".d/")).Perm
      [.ofString ".d/venv.py", .ofString ".d/x.py/b.py"] := by
    decide +kernel
  have hok :
      (nestedSources.strip parseNothing .overwrite (.ofString ".d/venv.py")).2.isOk = true := by
    decide +kernel
  obtain ⟨hfound, hcopies⟩ := discover_spec isFaithful_walk parseNothing hordinary hreaches .all
  refine ⟨hordinary, hreaches, ?_, ?_⟩
  · rcases hfound with ⟨htrue, -⟩ | ⟨l, ps, hl, hps, hascending, hmem⟩
    · simp [hfile] at htrue
    · refine ⟨l, ps, hl, hps, hascending, hmem, ?_⟩
      rw [discover, if_neg (by simp [hreaches]), if_neg (by simp [hfile])] at hps
      obtain rfl := Except.ok.inj hps
      exact (List.mergeSort_perm _ _).trans hbelow
  · refine (hcopies .overwrite (.ofString ".d/venv.py")).resolve_left ?_
    rintro ⟨e, he, -⟩
    rw [he] at hok
    exact Bool.noConfusion hok

end FileTree

end Marginalia
