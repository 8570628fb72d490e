import Mathlib.Data.List.Perm.Subperm
import Marginalia.FileTree.Walk
import Marginalia.Proofs.Discovery

/-!
# The walk comes to what is below

`FileTree.walk` is faithful (`isFaithful_walk`). It goes down as many levels as it is given, and
they are enough, because a location has no more names than the tree has entries
(`FileTree.length_le_of_get?`). It comes to nothing twice, because what it comes to through one
entry of a directory stands at or below that entry (`FileTree.exists_find?_of_mem_visitsAt`).
-/

namespace Marginalia

theorem Visit.below_join (depth : ℕ) (p : Path) (d : Text) (dirs : List Text) (n : Text)
    (isDirectory : Bool) : Visit.below (depth + 1) (p.join d) dirs n isDirectory =
      .below depth p (d :: dirs) n isDirectory := by
  simp only [below, List.cons_append, List.foldl_cons, List.length_cons, mk.injEq, true_and,
    and_true]
  omega

section IsEnteredWay

variable {enters : Visit → Bool} {depth : ℕ} {p : Path}

theorem isEnteredWay_nil : IsEnteredWay enters depth p [] := by
  rintro above d ⟨below, hnil⟩
  simp at hnil

theorem isEnteredWay_cons {d : Text} {dirs : List Text} :
    IsEnteredWay enters depth p (d :: dirs) ↔
      enters (.below depth p [] d true) = true ∧
        IsEnteredWay enters (depth + 1) (p.join d) dirs := by
  constructor
  · refine fun h => ⟨h [] d ⟨dirs, rfl⟩, ?_⟩
    rintro above e ⟨below, rfl⟩
    rw [Visit.below_join]
    exact h (d :: above) e ⟨below, rfl⟩
  · rintro ⟨hd, h⟩ above e ⟨below, heq⟩
    cases above with
    | nil =>
      obtain ⟨rfl, -⟩ := List.cons.inj heq
      exact hd
    | cons a above =>
      obtain ⟨rfl, rfl⟩ := List.cons.inj heq
      rw [← Visit.below_join]
      exact h above e ⟨below, rfl⟩

end IsEnteredWay

namespace FileTree

/-- What a walk comes to through the entry `e` of the name `n` in the directory at `l`, to which `p`
leads. -/
def visitsAt (t : FileTree) (enters : Visit → Bool) (levels : ℕ) (above : List Location)
    (depth : ℕ) (p : Path) (l : Location) (d : Text × Entry) : List Visit :=
  if t.isFile (p.join d.1) then
    if enters ⟨p.join d.1, depth + 1, false, d.1⟩ then [⟨p.join d.1, depth + 1, false, d.1⟩] else []
  else if t.opens (l :: above) (p.join d.1) d.2 then
    if enters ⟨p.join d.1, depth + 1, true, d.1⟩ then
      ⟨p.join d.1, depth + 1, true, d.1⟩ ::
        t.visitsBelow enters levels (l :: above) (depth + 1) (p.join d.1)
    else []
  else []

theorem visitsBelow_succ (t : FileTree) (enters : Visit → Bool) (levels : ℕ)
    (above : List Location) (depth : ℕ) {p : Path} {l : Location} (hl : t.directory? p = some l) :
    t.visitsBelow enters (levels + 1) above depth p =
      (t.children l).flatMap (t.visitsAt enters levels above depth p l) := by
  rw [visitsBelow, hl]
  rfl

/-- The entries of a directory have different names. -/
theorem pairwise_children (t : FileTree) (l : Location) :
    (t.children l).Pairwise fun a b => a.1 ≠ b.1 := by
  have hdistinct := List.pairwise_map.1 t.distinct
  refine List.pairwise_filterMap.2 (hdistinct.imp ?_)
  rintro ⟨k, e⟩ ⟨k', e'⟩ hne b hb b' hb' hname
  cases k with
  | nil => simp at hb
  | cons n k =>
    cases k' with
    | nil => simp at hb'
    | cons n' k' =>
      simp only [Option.ite_none_right_eq_some, Option.some.injEq] at hb hb'
      obtain ⟨rfl, rfl⟩ := hb
      obtain ⟨rfl, rfl⟩ := hb'
      exact hne (congrArg (· :: _) hname)

/-- A location has no more names than the tree has entries. -/
theorem length_le_of_get? {t : FileTree} {l : Location} {e : Entry} (h : t.get? l = some e) :
    l.length ≤ t.entries.length := by
  have hsub : (List.range l.length).map l.drop ⊆ t.entries.map Prod.fst := by
    intro k hk
    obtain ⟨i, hi, rfl⟩ := List.mem_map.1 hk
    have hlt := List.mem_range.1 hi
    have hsome : ∃ e, t.get? (l.drop i) = some e := by
      by_cases hzero : i = 0
      · exact ⟨e, by rwa [hzero]⟩
      · have hwhole : t.get? (l.take i ++ l.drop i) = some e := by rwa [List.take_append_drop]
        refine ⟨.directory, get?_of_append hwhole fun hnil => ?_⟩
        have hlength := congrArg List.length hnil
        rw [List.length_take_of_le hlt.le] at hlength
        exact hzero hlength
    obtain ⟨e, he⟩ := hsome
    rw [List.drop_eq_getElem_cons hlt] at he ⊢
    exact List.mem_map_of_mem (f := Prod.fst) ((lookup_eq_some_iff t.distinct).1 he)
  have hnodup : ((List.range l.length).map l.drop).Nodup := by
    refine List.Nodup.map_on (fun i hi j hj hij => ?_) List.nodup_range
    have hlength := congrArg List.length hij
    rw [List.length_drop, List.length_drop] at hlength
    rw [List.mem_range] at hi hj
    omega
  have hle := (hnodup.subperm hsub).length_le
  rwa [List.length_map, List.length_map, List.length_range] at hle

section IsOrdinary

variable {t : FileTree} (ht : t.IsOrdinary) {enters : Visit → Bool}
include ht

/-- What a walk comes to through an entry: the entry, and what is below it. -/
theorem mem_visitsAt_iff (levels : ℕ) (above : List Location) (depth : ℕ) {p : Path} {l : Location}
    (hl : t.directory? p = some l) {n : Text} {e : Entry} (hn : t.get? (n :: l) = some e)
    {v : Visit} : v ∈ t.visitsAt enters levels above depth p l (n, e) ↔
      enters ⟨p.join n, depth + 1, e = .directory, n⟩ = true ∧
        (v = ⟨p.join n, depth + 1, e = .directory, n⟩ ∨ e = .directory ∧
          v ∈ t.visitsBelow enters levels (l :: above) (depth + 1) (p.join n)) := by
  have hfile : t.isFile (p.join n) = t.isFileAt (n :: l) := by
    rw [isFile, find?_join ht hl hn, Option.any_some]
  rw [visitsAt, hfile, isFileAt, hn]
  cases e with
  | link target => exact absurd hn (ht.hasNoLinks _ _)
  | file content =>
    simp only [if_true, reduceCtorEq, decide_false, false_and, or_false]
    split_ifs with henters
    · simp [henters]
    · simp [henters]
  | directory =>
    simp only [Bool.false_eq_true, if_false, opens, if_true, decide_true, true_and]
    split_ifs with henters
    · simp [henters]
    · simp [henters]

/-- **What a walk comes to** below a directory: the entries, as far down as it goes. -/
theorem mem_visitsBelow_iff (levels : ℕ) (above : List Location) (depth : ℕ) {p : Path}
    {l : Location} (hl : t.directory? p = some l) {v : Visit} :
    v ∈ t.visitsBelow enters levels above depth p ↔
      ∃ dirs n e, dirs.length < levels ∧ t.get? (n :: (dirs.reverse ++ l)) = some e ∧
        IsEnteredWay enters depth p dirs ∧ v = .below depth p dirs n (e = .directory) ∧
          enters v = true := by
  induction levels generalizing above depth p l with
  | zero => simp [visitsBelow]
  | succ levels ih =>
    rw [visitsBelow_succ _ _ _ _ _ hl, List.mem_flatMap]
    constructor
    · rintro ⟨⟨n, e⟩, he, hv⟩
      have hn := mem_children.1 he
      obtain ⟨henters, rfl | ⟨rfl, hbelow⟩⟩ := (mem_visitsAt_iff ht levels above depth hl hn).1 hv
      · exact ⟨[], n, e, Nat.succ_pos levels, hn, isEnteredWay_nil, rfl, henters⟩
      · obtain ⟨dirs, m, e', hlength, he', hway, rfl, hm⟩ :=
          (ih (l :: above) (depth + 1) (directory?_join ht hl hn)).1 hbelow
        refine ⟨n :: dirs, m, e', Nat.succ_lt_succ hlength, by simpa using he', ?_,
          Visit.below_join .., hm⟩
        exact isEnteredWay_cons.2 ⟨by simpa [Visit.below] using henters, hway⟩
    · rintro ⟨dirs, n, e, hlength, he, hway, rfl, hv⟩
      cases dirs with
      | nil =>
        exact ⟨(n, e), mem_children.2 he,
          (mem_visitsAt_iff ht levels above depth hl he).2 ⟨hv, Or.inl rfl⟩⟩
      | cons d dirs =>
        have he' : t.get? ((n :: dirs.reverse) ++ d :: l) = some e := by simpa using he
        have hdir := get?_of_append he' (List.cons_ne_nil _ _)
        obtain ⟨henters, hway⟩ := isEnteredWay_cons.1 hway
        have hbelow := (ih (l :: above) (depth + 1) (directory?_join ht hl hdir)).2
          ⟨dirs, n, e, Nat.lt_of_succ_lt_succ hlength, he', hway, (Visit.below_join ..).symm, hv⟩
        exact ⟨(d, .directory), mem_children.2 hdir,
          (mem_visitsAt_iff ht levels above depth hl hdir).2
            ⟨by simpa [Visit.below] using henters, Or.inr ⟨rfl, hbelow⟩⟩⟩

/-- What a walk comes to below a directory is further down than this. -/
theorem lt_depth_of_mem_visitsBelow {levels : ℕ} {above : List Location} {depth : ℕ} {p : Path}
    {l : Location} (hl : t.directory? p = some l) {v : Visit}
    (hv : v ∈ t.visitsBelow enters levels above depth p) : depth < v.depth := by
  obtain ⟨dirs, n, e, -, -, -, rfl, -⟩ := (mem_visitsBelow_iff ht levels above depth hl).1 hv
  exact Nat.lt_succ_of_le (Nat.le_add_right _ _)

/-- **What a walk comes to through an entry** is at the entry or below. -/
theorem exists_find?_of_mem_visitsAt {levels : ℕ} {above : List Location} {depth : ℕ} {p : Path}
    {l : Location} (hl : t.directory? p = some l) {d : Text × Entry} (hd : d ∈ t.children l)
    {v : Visit} (hv : v ∈ t.visitsAt enters levels above depth p l d) :
    ∃ w, t.find? v.path = some (w ++ d.1 :: l) := by
  obtain ⟨n, e⟩ := d
  have hn := mem_children.1 hd
  obtain ⟨-, rfl | ⟨rfl, hbelow⟩⟩ := (mem_visitsAt_iff ht levels above depth hl hn).1 hv
  · exact ⟨[], find?_join ht hl hn⟩
  · have hdir := directory?_join ht hl hn
    obtain ⟨dirs, m, e', -, he', -, rfl, -⟩ := (mem_visitsBelow_iff ht _ _ _ hdir).1 hbelow
    exact ⟨m :: dirs.reverse, find?_foldl_join ht hdir he'⟩

/-- **A walk comes to nothing twice.** -/
theorem nodup_visitsBelow (levels : ℕ) (above : List Location) (depth : ℕ) {p : Path}
    {l : Location} (hl : t.directory? p = some l) :
    (t.visitsBelow enters levels above depth p).Nodup := by
  induction levels generalizing above depth p l with
  | zero => exact List.nodup_nil
  | succ levels ih =>
    rw [visitsBelow_succ _ _ _ _ _ hl, List.nodup_flatMap]
    refine ⟨fun d hd => ?_, (t.pairwise_children l).imp_of_mem fun {d e} hd he hne => ?_⟩
    · obtain ⟨n, e⟩ := d
      have hn := mem_children.1 hd
      rw [visitsAt]
      split_ifs with hfile hentered hopen hentered
      · exact List.nodup_singleton _
      · exact List.nodup_nil
      · have hdir : t.directory? (p.join n) = some (n :: l) := by
          cases e with
          | file content => exact Bool.noConfusion hopen
          | directory => exact directory?_join ht hl hn
          | link target => exact absurd hn (ht.hasNoLinks _ _)
        refine List.nodup_cons.2 ⟨fun hmem => ?_, ih _ _ hdir⟩
        exact lt_irrefl _ (lt_depth_of_mem_visitsBelow ht hdir hmem)
      · exact List.nodup_nil
      · exact List.nodup_nil
    · -- the locations end in different names, with as many names behind them
      refine List.disjoint_left.2 fun v hvd hve => ?_
      obtain ⟨w, hw⟩ := exists_find?_of_mem_visitsAt ht hl hd hvd
      obtain ⟨w', hw'⟩ := exists_find?_of_mem_visitsAt ht hl he hve
      have hsame : w ++ d.1 :: l = w' ++ e.1 :: l := Option.some.inj (hw.symm.trans hw')
      exact hne (List.cons.inj (List.append_inj' hsame rfl).2).1

end IsOrdinary

/-- A location stands less deep than a walk goes down. -/
theorem length_lt_maxDepth {t : FileTree} {dirs : List Text} {n : Text} {l : Location} {e : Entry}
    (h : t.get? (n :: (dirs.reverse ++ l)) = some e) : dirs.length < t.maxDepth := by
  have hlength := length_le_of_get? h
  rw [List.length_cons, List.length_append, List.length_reverse] at hlength
  exact (show dirs.length < t.entries.length + 1 by omega).trans_le (Nat.le_mul_self _)

/-- **The walk is faithful.** -/
theorem isFaithful_walk : walk.IsFaithful where
  path_eq {t} ht {root l} hl {enters v} hv hdepth := by
    rw [walk] at hv
    split_ifs at hv
    · rcases List.mem_cons.1 hv with rfl | hmem
      · rfl
      · exact absurd (lt_depth_of_mem_visitsBelow ht hl hmem) (hdepth ▸ lt_irrefl _)
    · exact absurd hv List.not_mem_nil
  mem_iff {t} ht {root l} hl {enters} henters {v} hdepth := by
    rw [walk, if_pos (henters _ rfl), List.mem_cons]
    have hne : v ≠ ⟨root, 0, (t.directory? root).isSome, root.fileName.getD root.text⟩ := by
      rintro rfl
      exact lt_irrefl _ hdepth
    rw [or_iff_right hne, mem_visitsBelow_iff ht _ _ _ hl]
    refine exists_congr fun dirs => exists_congr fun n => exists_congr fun e => ?_
    exact ⟨And.right, fun h => ⟨length_lt_maxDepth h.1, h⟩⟩
  nodup {t} ht {root l} hl {enters} := by
    rw [walk]
    split_ifs
    · refine List.nodup_cons.2 ⟨fun hmem => ?_, nodup_visitsBelow ht _ _ _ hl⟩
      exact lt_irrefl _ (lt_depth_of_mem_visitsBelow ht hl hmem)
    · exact List.nodup_nil

end FileTree

end Marginalia
