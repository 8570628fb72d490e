import Mathlib.Data.List.Nodup
import Marginalia.Discovery
import Marginalia.Proofs.FileTree.Neighbours

/-!
# What a search finds

How a search goes down from its root is up to the walk it is given. In a tree of files and
directories (`FileTree.IsOrdinary`) a walk is faithful (`Walker.IsFaithful`) when it comes to the
entries below its root with all that is entered on the way down, and to none of them twice.

So a search finds the selected files at the ends of the ways that are not passed over
(`FileTree.mem_filesBelow_iff`): sources, and no file twice (`FileTree.of_discover`).
-/

namespace Marginalia

/-- Whether an entry is a link. -/
def Entry.isLink : Entry → Bool
  | .link _ => true
  | _ => false

theorem Filter.isPython_of_selects {f : Filter} {p : Path} (h : f.selects p = true) :
    p.isPython = true := by
  rw [selects, Bool.and_eq_true, Bool.and_eq_true] at h
  exact h.1.1

namespace FileTree

/-- The tree has files and directories only, each with the name of an entry. -/
structure IsOrdinary (t : FileTree) : Prop where
  isLink : ∀ d ∈ t.entries, d.2.isLink = false
  name : ∀ d ∈ t.entries, ∀ n ∈ d.1, Step.ofPiece n = .name n ∧ '/' ∉ n

end FileTree

/-! ## Walks -/

/-- The entry `n` at the end of the way `dirs` down from `p`, which is itself `depth` steps down
from the root of a walk. -/
def Visit.below (depth : ℕ) (p : Path) (dirs : List Text) (n : Text) (isDirectory : Bool) : Visit :=
  ⟨(dirs ++ [n]).foldl Path.join p, depth + dirs.length + 1, isDirectory, n⟩

theorem Visit.isEntered_of_depth_eq_zero (v : Visit) (h : v.depth = 0) : v.isEntered = true := by
  rw [isEntered, h]
  rfl

/-- Every directory on the way `dirs` down from `p` passes the test. -/
def IsEnteredWay (enters : Visit → Bool) (depth : ℕ) (p : Path) (dirs : List Text) : Prop :=
  ∀ above d, above ++ [d] <+: dirs → enters (.below depth p above d true) = true

theorem isEnteredWay_isEntered_iff {p : Path} {dirs : List Text} :
    IsEnteredWay Visit.isEntered 0 p dirs ↔ ∀ d ∈ dirs, isPassedOver d = false := by
  constructor
  · intro h d hd
    obtain ⟨above, below, rfl⟩ := List.append_of_mem hd
    simpa [Visit.isEntered, Visit.below] using h above d ⟨below, by simp⟩
  · rintro h above d ⟨below, rfl⟩
    simp [Visit.isEntered, Visit.below, h d (by simp)]

/-- Below the directory at `l`, to which `p` leads, the walk comes to `v`: there is an entry, and
the test refuses neither this nor a directory on the way down to it. -/
def FileTree.IsVisited (t : FileTree) (enters : Visit → Bool) (depth : ℕ) (p : Path) (l : Location)
    (v : Visit) : Prop :=
  ∃ dirs n e, t.get? (n :: (dirs.reverse ++ l)) = some e ∧ IsEnteredWay enters depth p dirs ∧
    v = .below depth p dirs n (e = .directory) ∧ enters v = true

/-- What is known of walks through directories without links, if the test lets the root pass: they
come to the root, to what is below and not left out, and to nothing twice. -/
structure Walker.IsFaithful (walk : Walker) : Prop where
  path_eq : ∀ {t : FileTree}, t.IsOrdinary → ∀ {root : Path} {l : Location},
    t.directory? root = some l → ∀ {enters : Visit → Bool} {v : Visit},
    v ∈ walk t root enters → v.depth = 0 → v.path = root
  mem_iff : ∀ {t : FileTree}, t.IsOrdinary → ∀ {root : Path} {l : Location},
    t.directory? root = some l → ∀ {enters : Visit → Bool},
    (∀ v : Visit, v.depth = 0 → enters v = true) → ∀ {v : Visit}, 0 < v.depth →
      (v ∈ walk t root enters ↔ t.IsVisited enters 0 root l v)
  nodup : ∀ {t : FileTree}, t.IsOrdinary → ∀ {root : Path} {l : Location},
    t.directory? root = some l → ∀ {enters : Visit → Bool}, (walk t root enters).Nodup

namespace FileTree

variable {walk : Walker} {t : FileTree}

/-- What a search finds are files that the filter selects. -/
theorem of_mem_discover {f : Filter} {root q : Path} {ps : List Path}
    (h : t.discover walk f root = .ok ps) (hq : q ∈ ps) :
    t.isFile q = true ∧ f.selects q = true := by
  rw [discover] at h
  split_ifs at h with hreach hfile hselects
  · obtain rfl := Except.ok.inj h
    obtain rfl := List.mem_singleton.1 hq
    exact ⟨hfile, hselects⟩
  · obtain rfl := Except.ok.inj h
    exact absurd hq List.not_mem_nil
  · obtain rfl := Except.ok.inj h
    have hmem := (List.mergeSort_perm _ Path.le).mem_iff.1 hq
    exact Bool.and_eq_true_iff.1 (List.mem_filter.1 hmem).2

theorem isFile_of_directory? {p : Path} {l : Location} (h : t.directory? p = some l) :
    t.isFile p = false := by
  obtain ⟨hfind, hdir⟩ := Option.filter_eq_some_iff.1 h
  rw [isFile, hfind, Option.any_some, isFileAt, isDirectoryAt_iff.1 hdir]

/-- What a path leads to is a file or a directory. -/
theorem isFile_or_directory? {p : Path} (h : t.reaches p = true) :
    t.isFile p = true ∨ ∃ l, t.directory? p = some l := by
  obtain ⟨l, hl⟩ := Option.isSome_iff_exists.1 h
  rcases isSound_of_locate (locate_of_find? hl) with hdir | ⟨content, hfile⟩
  · right
    exact ⟨l, by rw [directory?, hl, Option.filter_some, if_pos (isDirectoryAt_iff.2 hdir)]⟩
  · left
    rw [isFile, hl, Option.any_some, isFileAt, hfile]

section IsOrdinary

variable (ht : t.IsOrdinary)
include ht

theorem IsOrdinary.hasNoLinks : t.HasNoLinks := by
  intro l target h
  cases l with
  | nil => simp [get?, entryAt] at h
  | cons n l => exact Bool.noConfusion (ht.isLink _ ((lookup_eq_some_iff t.distinct).1 h))

theorem IsOrdinary.of_get? {n : Text} {l : Location} {e : Entry} (h : t.get? (n :: l) = some e) :
    Step.ofPiece n = .name n ∧ '/' ∉ n :=
  ht.name _ ((lookup_eq_some_iff t.distinct).1 h) n List.mem_cons_self

/-- The path of an entry leads to it. -/
theorem find?_join {p : Path} {l : Location} (hl : t.directory? p = some l) {n : Text} {e : Entry}
    (hn : t.get? (n :: l) = some e) : t.find? (p.join n) = some (n :: l) := by
  obtain ⟨u, -, hjoin, hu⟩ := exists_looksInto_of_directory? ht.hasNoLinks hl
  obtain ⟨hname, hslash⟩ := ht.of_get? hn
  rw [hjoin, find?, hu.locate_name n hname hslash, hn]
  rfl

theorem directory?_join {p : Path} {l : Location} (hl : t.directory? p = some l) {n : Text}
    (hn : t.get? (n :: l) = some .directory) : t.directory? (p.join n) = some (n :: l) := by
  rw [directory?, find?_join ht hl hn, Option.filter_some, if_pos (isDirectoryAt_iff.2 hn)]

end IsOrdinary

/-- What stands above an entry is a directory. -/
theorem get?_of_append {w l : Location} {e : Entry} (h : t.get? (w ++ l) = some e) (hw : w ≠ []) :
    t.get? l = some .directory := by
  induction w generalizing e with
  | nil => exact absurd rfl hw
  | cons n w ih =>
    have hdir : t.get? (w ++ l) = some .directory := get?_eq_directory h
    by_cases hnil : w = []
    · subst hnil
      exact hdir
    · exact ih hdir hnil

section IsOrdinary

variable (ht : t.IsOrdinary) {p : Path} {l : Location}
include ht

/-- The path down to an entry leads to it. -/
theorem find?_foldl_join (hl : t.directory? p = some l) {dirs : List Text} {n : Text} {e : Entry}
    (h : t.get? (n :: (dirs.reverse ++ l)) = some e) :
    t.find? ((dirs ++ [n]).foldl Path.join p) = some (n :: (dirs.reverse ++ l)) := by
  induction dirs generalizing p l with
  | nil => exact find?_join ht hl h
  | cons d dirs ih =>
    have h' : t.get? ((n :: dirs.reverse) ++ d :: l) = some e := by simpa using h
    have hdir := get?_of_append h' (List.cons_ne_nil _ _)
    have hfind := ih (directory?_join ht hl hdir) h'
    simpa using hfind

/-- A file that a walk comes to stands at the end of a way that is not passed over. -/
theorem exists_below_of_mem_walk (hwalk : walk.IsFaithful) (hl : t.directory? p = some l)
    {v : Visit} (hv : v ∈ walk t p Visit.isEntered) (hfile : t.isFile v.path = true) :
    ∃ dirs n content, t.get? (n :: (dirs.reverse ++ l)) = some (.file content) ∧
      (∀ d ∈ dirs, isPassedOver d = false) ∧ v = .below 0 p dirs n false := by
  have hdepth : 0 < v.depth := by
    refine Nat.pos_of_ne_zero fun hzero => ?_
    rw [hwalk.path_eq ht hl hv hzero, isFile_of_directory? hl] at hfile
    exact Bool.noConfusion hfile
  obtain ⟨dirs, n, e, he, hway, rfl, -⟩ :=
    (hwalk.mem_iff ht hl Visit.isEntered_of_depth_eq_zero hdepth).1 hv
  rw [Visit.below, isFile, find?_foldl_join ht hl he, Option.any_some, isFileAt, he] at hfile
  cases e with
  | file content => exact ⟨dirs, n, content, he, isEnteredWay_isEntered_iff.1 hway, by simp⟩
  | directory | link => exact Bool.noConfusion hfile

/-- **What a search finds** below a directory: the selected files at the ends of the ways that are
not passed over. -/
theorem mem_filesBelow_iff (hwalk : walk.IsFaithful) {f : Filter} (hl : t.directory? p = some l)
    {q : Path} : q ∈ filesBelow walk t f p ↔
      ∃ dirs n, (∃ content, t.get? (n :: (dirs.reverse ++ l)) = some (.file content)) ∧
        (∀ d ∈ dirs, isPassedOver d = false) ∧ f.selects q = true ∧
          q = (dirs ++ [n]).foldl Path.join p := by
  rw [filesBelow, List.mem_filter, List.mem_map, Bool.and_eq_true]
  constructor
  · rintro ⟨⟨v, hv, rfl⟩, hfile, hselects⟩
    obtain ⟨dirs, n, content, he, hway, rfl⟩ := exists_below_of_mem_walk ht hwalk hl hv hfile
    exact ⟨dirs, n, ⟨content, he⟩, hway, hselects, rfl⟩
  · rintro ⟨dirs, n, ⟨content, he⟩, hway, hselects, rfl⟩
    refine ⟨⟨.below 0 p dirs n false, ?_, rfl⟩, ?_, hselects⟩
    · refine (hwalk.mem_iff ht hl Visit.isEntered_of_depth_eq_zero (Nat.succ_pos _)).2 ?_
      exact ⟨dirs, n, _, he, isEnteredWay_isEntered_iff.2 hway, by simp,
        by simp [Visit.isEntered, Visit.below]⟩
    · rw [isFile, find?_foldl_join ht hl he, Option.any_some, isFileAt, he]

/-- **A search comes to no file twice.** -/
theorem nodup_map_find?_filesBelow (hwalk : walk.IsFaithful) {f : Filter}
    (hl : t.directory? p = some l) : ((filesBelow walk t f p).map t.find?).Nodup := by
  rw [filesBelow, List.filter_map, List.map_map]
  refine ((hwalk.nodup ht hl).filter _).map_on fun v hv w hw hvw => ?_
  obtain ⟨hv, hfile⟩ := List.mem_filter.1 hv
  obtain ⟨hw, hfile'⟩ := List.mem_filter.1 hw
  obtain ⟨dirs, n, content, he, -, rfl⟩ :=
    exists_below_of_mem_walk ht hwalk hl hv (Bool.and_eq_true_iff.1 hfile).1
  obtain ⟨dirs', n', content', he', -, rfl⟩ :=
    exists_below_of_mem_walk ht hwalk hl hw (Bool.and_eq_true_iff.1 hfile').1
  -- the location that a path leads to tells the way and the name
  have hlocations : n :: (dirs.reverse ++ l) = n' :: (dirs'.reverse ++ l) :=
    Option.some.inj <| (find?_foldl_join ht hl he).symm.trans <|
      Eq.trans hvw (find?_foldl_join ht hl he')
  obtain ⟨rfl, hdirs⟩ := List.cons.inj hlocations
  rw [List.reverse_injective (List.append_cancel_right hdirs)]

/-- **A search finds sources**, and none twice. -/
theorem of_discover (hwalk : walk.IsFaithful) {f : Filter} {root : Path} {ps : List Path}
    (h : t.discover walk f root = .ok ps) :
    (∀ p ∈ ps, p.isPython = true ∧ t.isFile p = true) ∧ (ps.map t.find?).Nodup := by
  refine ⟨fun p hp => ?_, ?_⟩
  · obtain ⟨hfile, hselects⟩ := of_mem_discover h hp
    exact ⟨Filter.isPython_of_selects hselects, hfile⟩
  · rw [discover] at h
    split_ifs at h with hreach hfile hselects
    · obtain rfl : [root] = ps := Except.ok.inj h
      simp
    · obtain rfl : [] = ps := Except.ok.inj h
      simp
    · obtain rfl := Except.ok.inj h
      have hperm := List.mergeSort_perm (filesBelow walk t f root) Path.le
      obtain ⟨l, hl⟩ := (isFile_or_directory? (by simpa using hreach)).resolve_left hfile
      exact (hperm.map t.find?).nodup_iff.2 (nodup_map_find?_filesBelow ht hwalk hl)

end IsOrdinary

end FileTree

end Marginalia
