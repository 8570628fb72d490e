import Mathlib.Data.List.Perm.Basic
import Marginalia.Proofs.Discovery
import Marginalia.Proofs.FileTree.Footprint
import Marginalia.Proofs.FileTree.Walk

/-!
# Batches

The sources that a search finds are stripped one after the other, and each step works on the tree
that the steps before it left. Yet each source has the outcome that it has alone: what stripping it
looks at belongs to it (`FileTree.Reserves`), and no two sources have an entry in common
(`FileTree.Reserves.find?_eq`). So a run leaves at each entry what the source that reserves it
leaves there, and all other entries as they were (`FileTree.isOutcome_stripEach`). This says
nothing of the order of the sources, and with the search it gives the main result
(`FileTree.stripAll_isolates`).
-/

namespace Marginalia

namespace Batch

variable {α : Type}

/-- The batch of the outcomes `g` for several files. -/
def ofOutcomes (g : Path → Except Failure α) (ps : List Path) : Batch α :=
  ps.foldl (fun b p => b.add p (g p)) empty

/-- The entry for a file that failed. -/
def failure? (g : Path → Except Failure α) (p : Path) : Option (Path × Failure) :=
  match g p with
  | .error e => some (p, e)
  | .ok _ => none

variable (g : Path → Except Failure α) (ps : List Path)

theorem ofOutcomes_concat (p : Path) :
    ofOutcomes g (ps ++ [p]) = (ofOutcomes g ps).add p (g p) := by
  rw [ofOutcomes, List.foldl_concat]
  rfl

theorem files_ofOutcomes : (ofOutcomes g ps).files = ps.filterMap fun p => (g p).toOption := by
  induction ps using List.reverseRecOn with
  | nil => rfl
  | append_singleton ps p ih =>
    rw [ofOutcomes_concat, List.filterMap_append, ← ih]
    cases hp : g p with
    | error e => simp [add, Except.toOption, hp]
    | ok a => simp [add, Except.toOption, hp]

theorem failures_ofOutcomes : (ofOutcomes g ps).failures = ps.filterMap (failure? g) := by
  induction ps using List.reverseRecOn with
  | nil => rfl
  | append_singleton ps p ih =>
    rw [ofOutcomes_concat, List.filterMap_append, ← ih]
    cases hp : g p with
    | error e => simp [add, failure?, hp]
    | ok a => simp [add, failure?, hp]

theorem mem_files_ofOutcomes {a : α} : a ∈ (ofOutcomes g ps).files ↔ ∃ p ∈ ps, g p = .ok a := by
  rw [files_ofOutcomes, List.mem_filterMap]
  refine exists_congr fun p => and_congr_right fun _ => ?_
  cases g p with
  | error e => simp [Except.toOption]
  | ok b => simp [Except.toOption]

theorem mem_failures_ofOutcomes {d : Path × Failure} :
    d ∈ (ofOutcomes g ps).failures ↔ d.1 ∈ ps ∧ g d.1 = .error d.2 := by
  rw [failures_ofOutcomes, List.mem_filterMap]
  constructor
  · rintro ⟨p, hp, hd⟩
    rw [failure?] at hd
    split at hd
    · next e he =>
      obtain rfl := Option.some.inj hd
      exact ⟨hp, he⟩
    · simp at hd
  · rintro ⟨hp, he⟩
    exact ⟨d.1, hp, by rw [failure?, he]⟩

theorem map_failures_ofOutcomes : (ofOutcomes g ps).failures.map Prod.fst =
    ps.filter fun p => !(g p).isOk := by
  rw [failures_ofOutcomes, List.map_filterMap, ← List.filterMap_eq_filter]
  refine List.filterMap_congr fun p _ => ?_
  cases hp : g p with
  | error e => simp [failure?, Option.guard, Except.isOk, Except.toBool, hp]
  | ok a => simp [failure?, Option.guard, Except.isOk, Except.toBool, hp]

/-- The files of a batch in the order of their paths, if each outcome names its path. -/
theorem map_files_ofOutcomes {path : α → Path} (h : ∀ p a, g p = .ok a → path a = p) :
    (ofOutcomes g ps).files.map path = ps.filter fun p => (g p).isOk := by
  rw [files_ofOutcomes, List.map_filterMap, ← List.filterMap_eq_filter]
  refine List.filterMap_congr fun p _ => ?_
  cases hp : g p with
  | error e => simp [Except.toOption, Option.guard, Except.isOk, Except.toBool, hp]
  | ok a => simp [Except.toOption, Option.guard, Except.isOk, Except.toBool, hp, h p a hp]

end Batch

namespace FileTree

/-! ## Sources and what they reserve -/

/-- The path leads to the source at `l`, or to where it would be. -/
def IsSourceAt (t : FileTree) (p : Path) (l : Location) : Prop :=
  ∃ u n dir, p = ⟨u ++ n⟩ ∧ l = n :: dir ∧ Path.IsOpen u ∧ IsSourceName n ∧ t.LooksInto u dir

/-- The location is one of those that stripping the source `p` looks at. -/
def Reserves (t : FileTree) (p : Path) (m : Location) : Prop :=
  ∃ n dir x, t.find? p = some (n :: dir) ∧ IsVariant n x ∧ m = x :: dir

/-- The paths lead to sources, each to another one. -/
structure AreSources (t : FileTree) (ps : List Path) : Prop where
  isSourceAt : ∀ p ∈ ps, ∃ l, t.find? p = some l ∧ t.IsSourceAt p l
  nodup : (ps.map t.find?).Nodup

theorem AreSources.perm {t : FileTree} {ps qs : List Path} (h : t.AreSources ps)
    (hperm : qs.Perm ps) : t.AreSources qs where
  isSourceAt p hp := h.isSourceAt p (hperm.mem_iff.1 hp)
  nodup := (hperm.map t.find?).nodup_iff.2 h.nodup

theorem isSourceAt_of_file {t : FileTree} (ht : t.HasNoLinks) {p : Path} {l : Location}
    (hp : p.isPython = true) (hl : t.find? p = some l) (hfile : t.isFileAt l = true) :
    t.IsSourceAt p l := by
  obtain ⟨u, n, dir, rfl, rfl, hu, hn, hslash, hlooks⟩ := exists_looksInto_of_file ht hl hfile
  exact ⟨u, n, dir, rfl, rfl, hu, (isSourceName_iff hu hn hslash).2 hp, hlooks⟩

/-- What a search finds are sources. -/
theorem areSources_of_discover {walk : Walker} (hwalk : walk.IsFaithful) {t : FileTree}
    (ht : t.IsOrdinary) {f : Filter} {root : Path} {ps : List Path}
    (h : t.discover walk f root = .ok ps) : t.AreSources ps := by
  obtain ⟨hsources, hnodup⟩ := of_discover ht hwalk h
  refine ⟨fun p hp => ?_, hnodup⟩
  obtain ⟨hpython, hfile⟩ := hsources p hp
  obtain ⟨l, hl, hat⟩ := (Option.any_eq_true _ _).1 hfile
  exact ⟨l, hl, isSourceAt_of_file ht.hasNoLinks hpython hl hat⟩

/-- **Two sources reserve nothing in common.** -/
theorem Reserves.find?_eq {t : FileTree} {ps : List Path} (h : t.AreSources ps) {p q : Path}
    (hp : p ∈ ps) (hq : q ∈ ps) {m : Location} (hpm : t.Reserves p m) (hqm : t.Reserves q m) :
    t.find? p = t.find? q := by
  have hname : ∀ {r n dir}, r ∈ ps → t.find? r = some (n :: dir) → IsSourceName n := by
    intro r n dir hr hfind
    obtain ⟨l, hl, u, k, dir', -, rfl, -, hk, -⟩ := h.isSourceAt r hr
    obtain ⟨rfl, -⟩ := List.cons.inj (Option.some.inj (hl.symm.trans hfind))
    exact hk
  obtain ⟨n, dir, x, hn, hx, rfl⟩ := hpm
  obtain ⟨n', dir', x', hn', hx', hsame⟩ := hqm
  obtain ⟨rfl, rfl⟩ := List.cons.inj hsame
  rw [hn, hn', hx.source_eq (hname hp hn) (hname hq hn') hx']

/-! ## The run -/

/-- What the sources `ps` leave of the tree: at the entries that one of them reserves, what
stripping this one alone leaves. -/
structure IsOutcome (parse : Parser) (t : FileTree) (mode : BackupMode) (ps : List Path)
    (s : FileTree) : Prop where
  working : s.working = t.working
  looksInto : ∀ u dir, t.LooksInto u dir → s.LooksInto u dir
  get?_of_reserves : ∀ p ∈ ps, ∀ m, t.Reserves p m → s.get? m = (t.strip parse mode p).1.get? m
  get?_of_not_reserves : ∀ m, (∀ p ∈ ps, ¬ t.Reserves p m) → s.get? m = t.get? m

/-- One more source has the outcome that it has alone. -/
theorem IsOutcome.strip {parse : Parser} {t s : FileTree} {mode : BackupMode} {ps : List Path}
    (h : IsOutcome parse t mode ps s) {p : Path} (hps : t.AreSources (ps ++ [p])) :
    (s.strip parse mode p).2 = (t.strip parse mode p).2 ∧
      IsOutcome parse t mode (ps ++ [p]) (s.strip parse mode p).1 := by
  have hp : p ∈ ps ++ [p] := by simp
  have hapart : ∀ q ∈ ps, ∀ m, t.Reserves q m → ¬ t.Reserves p m := by
    intro q hq m hqm hpm
    have hnodup := hps.nodup
    rw [List.map_append, List.nodup_append] at hnodup
    exact hnodup.2.2 _ (List.mem_map_of_mem hq) _ (by simp)
      (Reserves.find?_eq hps (List.mem_append_left _ hq) hp hqm hpm)
  obtain ⟨l, hl, u, n, dir, rfl, rfl, hu, hn, ht⟩ := hps.isSourceAt p hp
  have hs := h.looksInto u dir ht
  have hreserves : ∀ x, IsVariant n x → t.Reserves ⟨u ++ n⟩ (x :: dir) :=
    fun x hx => ⟨n, dir, x, hl, hx, rfl⟩
  have hsame : ∀ x, IsVariant n x → s.get? (x :: dir) = t.get? (x :: dir) :=
    fun x hx => h.get?_of_not_reserves _ fun q hq hqm => hapart q hq _ hqm (hreserves x hx)
  have hframe : ∀ m, ¬ t.Reserves ⟨u ++ n⟩ m →
      (s.strip parse mode ⟨u ++ n⟩).1.get? m = s.get? m := by
    intro m hm
    refine get?_strip_of_not_isVariant hu hn hs fun x hx heq => hm ?_
    rw [heq]
    exact hreserves x hx
  refine ⟨snd_strip_congr hu hn hs ht hsame parse mode, ?_, ?_, ?_, ?_⟩
  · rw [working_strip, h.working]
  · exact fun u' dir' hlooks => (h.looksInto u' dir' hlooks).strip parse mode _
  · intro q hq m hqm
    rcases List.mem_append.1 hq with hq | hq
    · rw [hframe m (hapart q hq m hqm), h.get?_of_reserves q hq m hqm]
    · obtain rfl := List.mem_singleton.1 hq
      obtain ⟨n', dir', x, hl', hx, rfl⟩ := hqm
      obtain ⟨rfl, rfl⟩ := List.cons.inj (Option.some.inj (hl.symm.trans hl'))
      exact get?_strip_congr hu hn hs ht hsame parse mode hx
  · intro m hm
    rw [hframe m (hm _ hp), h.get?_of_not_reserves m fun q hq => hm q (List.mem_append_left _ hq)]

theorem stripEach_concat (parse : Parser) (t : FileTree) (mode : BackupMode) (ps : List Path)
    (p : Path) :
    stripEach parse mode (ps ++ [p]) t =
      (((stripEach parse mode ps t).1.strip parse mode p).1,
        (stripEach parse mode ps t).2.add p
          ((stripEach parse mode ps t).1.strip parse mode p).2) := by
  rw [stripEach, List.foldl_concat]
  rfl

/-- **Each source has the outcome that it has alone**, in whatever order they come. -/
theorem isOutcome_stripEach (parse : Parser) {t : FileTree} (mode : BackupMode) {ps : List Path}
    (hps : t.AreSources ps) :
    IsOutcome parse t mode ps (stripEach parse mode ps t).1 ∧
      (stripEach parse mode ps t).2 = Batch.ofOutcomes (fun p => (t.strip parse mode p).2) ps := by
  induction ps using List.reverseRecOn with
  | nil =>
    exact ⟨⟨rfl, fun _ _ h => h, fun p hp => absurd hp List.not_mem_nil, fun _ _ => rfl⟩, rfl⟩
  | append_singleton ps p ih =>
    have hinit : t.AreSources ps := by
      refine ⟨fun q hq => hps.isSourceAt q (List.mem_append_left _ hq), ?_⟩
      have hnodup := hps.nodup
      rw [List.map_append, List.nodup_append] at hnodup
      exact hnodup.1
    obtain ⟨hrun, hbatch⟩ := ih hinit
    obtain ⟨hsnd, hfst⟩ := hrun.strip hps
    rw [stripEach_concat]
    exact ⟨hfst, by rw [hbatch, hsnd, Batch.ofOutcomes_concat]⟩

section IsOutcome

variable {parse : Parser} {t s : FileTree} {mode : BackupMode} {ps : List Path}
  (h : IsOutcome parse t mode ps s)
include h

/-- The order of the sources does not show in what they leave. -/
theorem IsOutcome.get?_eq_of_perm {s' : FileTree} {qs : List Path}
    (h' : IsOutcome parse t mode qs s') (hperm : qs.Perm ps) (m : Location) :
    s'.get? m = s.get? m := by
  by_cases hm : ∃ p ∈ ps, t.Reserves p m
  · obtain ⟨p, hp, hpm⟩ := hm
    rw [h.get?_of_reserves p hp m hpm, h'.get?_of_reserves p (hperm.mem_iff.2 hp) m hpm]
  · have hnone : ∀ p ∈ ps, ¬ t.Reserves p m := fun p hp hpm => hm ⟨p, hp, hpm⟩
    rw [h.get?_of_not_reserves m hnone,
      h'.get?_of_not_reserves m fun p hp => hnone p (hperm.mem_iff.1 hp)]

variable (hps : t.AreSources ps) {p : Path} (hp : p ∈ ps)
include hps hp

/-- What a source that is stripped leaves. -/
theorem IsOutcome.exists_of_ok {r : StripReport} (hr : (t.strip parse mode p).2 = .ok r) :
    ∃ n x dir bytes text, t.find? p = some (n :: dir) ∧ t.read p = .ok bytes ∧
      Utf8.decode bytes = .ok text ∧ s.find? p = some (n :: dir) ∧
      s.read p = .ok (Utf8.encode (Marginalia.strip parse text).content) ∧
      s.find? r.backup = some (x :: dir) ∧ s.read r.backup = .ok bytes ∧
      ∀ m, m ≠ n :: dir → m ≠ x :: dir → t.Reserves p m → s.get? m = t.get? m := by
  obtain ⟨l, hl, u, n, dir, rfl, rfl, hu, hn, ht⟩ := hps.isSourceAt p hp
  have hs := h.looksInto u dir ht
  obtain ⟨x, hbackup, hstripped⟩ := exists_isStripped hu hn ht hr
  obtain ⟨bytes, text, hbytes, htext, hget⟩ := hstripped.get?
  have hreserves : ∀ y, IsVariant n y →
      s.get? (y :: dir) = (t.strip parse mode ⟨u ++ n⟩).1.get? (y :: dir) :=
    fun y hy => h.get?_of_reserves _ hp _ ⟨n, dir, y, hl, hy, rfl⟩
  have hsource :
      s.get? (n :: dir) = some (.file (Utf8.encode (Marginalia.strip parse text).content)) := by
    rw [hreserves n (Or.inl rfl), hget, if_pos rfl]
  have hcopy : s.get? (x :: dir) = some (.file bytes) := by
    have hne : x :: dir ≠ n :: dir := fun heq => hstripped.ne (List.cons.inj heq).1
    rw [hreserves x hstripped.isVariant, hget, if_neg hne, if_pos rfl]
  rw [hbackup]
  refine ⟨n, x, dir, bytes, text, hl, ht.read_name hn.ofPiece hn.slash hbytes, htext,
    hs.find?_name hn.ofPiece hn.slash hsource, hs.read_name hn.ofPiece hn.slash hsource,
    hs.find?_name hstripped.ofPiece hstripped.slash hcopy,
    hs.read_name hstripped.ofPiece hstripped.slash hcopy, fun m hmn hmx hm => ?_⟩
  rw [h.get?_of_reserves _ hp m hm, hget, if_neg hmn, if_neg hmx]

/-- A source that fails is left as it was. -/
theorem IsOutcome.of_error {e : Failure} (he : (t.strip parse mode p).2 = .error e) :
    s.find? p = t.find? p ∧ s.read p = t.read p ∧
      ∀ m, t.Reserves p m → s.get? m = t.get? m := by
  have hsame : ∀ m, t.Reserves p m → s.get? m = t.get? m := by
    intro m hm
    rw [h.get?_of_reserves p hp m hm, fst_strip_of_error he]
  obtain ⟨l, hl, u, n, dir, rfl, rfl, hu, hn, ht⟩ := hps.isSourceAt p hp
  have hs := h.looksInto u dir ht
  have hvariant : ∀ x, IsVariant n x → s.get? (x :: dir) = t.get? (x :: dir) :=
    fun x hx => hsame _ ⟨n, dir, x, hl, hx, rfl⟩
  refine ⟨?_, read_congr hn hs ht hvariant, hsame⟩
  rw [find?, find?, hs.locate_name n hn.ofPiece hn.slash, ht.locate_name n hn.ofPiece hn.slash,
    hvariant n (Or.inl rfl)]

end IsOutcome

/-! ## The main result -/

/-- In `t'` each of the files `ps` of `t` is stripped or left, as the batch says, and nothing else
is changed. -/
structure IsIsolated (parse : Parser) (t t' : FileTree) (mode : BackupMode) (ps : List Path)
    (b : Batch StripReport) : Prop where
  nodup : ps.Nodup
  /-- The stripped files stand in the order of the list. -/
  files : (b.files.map StripReport.path).Sublist ps
  /-- The files that failed stand in the order of the list. -/
  failures : (b.failures.map Prod.fst).Sublist ps
  /-- Each file is stripped or fails. -/
  perm : (b.files.map StripReport.path ++ b.failures.map Prod.fst).Perm ps
  isBackedUp : ∀ r ∈ b.files, IsBackedUp parse t t' r.path r.backup
  read_failed : ∀ d ∈ b.failures, t'.find? d.1 = t.find? d.1 ∧ t'.read d.1 = t.read d.1
  /-- Nothing changes but the stripped files and their copies. -/
  get? : ∀ l, (∀ r ∈ b.files, t'.find? r.path ≠ some l ∧ t'.find? r.backup ≠ some l) →
    t'.get? l = t.get? l
  working : t'.working = t.working
  /-- Each file has the outcome that it has alone. -/
  outcome : b = Batch.ofOutcomes (fun p => (t.strip parse mode p).2) ps
  /-- In any other order the files have the same outcomes and leave the same tree. -/
  anyOrder : ∀ qs : List Path, qs.Perm ps →
    (∀ l, (stripEach parse mode qs t).1.get? l = t'.get? l) ∧
      (stripEach parse mode qs t).1.working = t'.working ∧
      (stripEach parse mode qs t).2 = Batch.ofOutcomes (fun p => (t.strip parse mode p).2) qs ∧
      (stripEach parse mode qs t).2.files.Perm b.files ∧
      (stripEach parse mode qs t).2.failures.Perm b.failures

theorem isIsolated_stripEach (parse : Parser) {t : FileTree} (mode : BackupMode) {ps : List Path}
    (hps : t.AreSources ps) :
    IsIsolated parse t (stripEach parse mode ps t).1 mode ps (stripEach parse mode ps t).2 := by
  obtain ⟨hrun, hbatch⟩ := isOutcome_stripEach parse mode hps
  rw [hbatch]
  have hfiles := Batch.map_files_ofOutcomes (fun p => (t.strip parse mode p).2) ps
    (fun _ _ hr => path_of_snd_strip hr)
  have hfailures := Batch.map_failures_ofOutcomes (fun p => (t.strip parse mode p).2) ps
  constructor
  case nodup => exact hps.nodup.of_map t.find?
  case files => exact hfiles ▸ List.filter_sublist
  case failures => exact hfailures ▸ List.filter_sublist
  case perm =>
    rw [hfiles, hfailures]
    exact List.filter_append_perm _ ps
  case isBackedUp =>
    intro r hr
    obtain ⟨p, hp, hok⟩ := (Batch.mem_files_ofOutcomes _ ps).1 hr
    obtain ⟨-, -, -, bytes, text, -, hread, htext, -, hstripped, -, hcopy, -⟩ :=
      hrun.exists_of_ok hps hp hok
    rw [path_of_snd_strip hok]
    exact ⟨bytes, text, hread, htext, hcopy, hstripped⟩
  case read_failed =>
    intro d hd
    obtain ⟨hp, he⟩ := (Batch.mem_failures_ofOutcomes _ ps).1 hd
    obtain ⟨hfind, hread, -⟩ := hrun.of_error hps hp he
    exact ⟨hfind, hread⟩
  case get? =>
    intro l hl
    by_cases hreserved : ∃ p ∈ ps, t.Reserves p l
    · obtain ⟨p, hp, hpl⟩ := hreserved
      cases hr : (t.strip parse mode p).2 with
      | error e => exact (hrun.of_error hps hp hr).2.2 l hpl
      | ok r =>
        obtain ⟨hsource, hcopy⟩ := hl r ((Batch.mem_files_ofOutcomes _ ps).2 ⟨p, hp, hr⟩)
        obtain ⟨n, x, dir, -, -, -, -, -, hn, -, hx, -, hrest⟩ := hrun.exists_of_ok hps hp hr
        rw [path_of_snd_strip hr, hn] at hsource
        rw [hx] at hcopy
        exact hrest l (fun heq => hsource (by rw [heq])) (fun heq => hcopy (by rw [heq])) hpl
    · exact hrun.get?_of_not_reserves l fun p hp hpl => hreserved ⟨p, hp, hpl⟩
  case working => exact hrun.working
  case outcome => rfl
  case anyOrder =>
    intro qs hqs
    obtain ⟨hrun', hbatch'⟩ := isOutcome_stripEach parse mode (hps.perm hqs)
    rw [hbatch', Batch.files_ofOutcomes, Batch.files_ofOutcomes, Batch.failures_ofOutcomes,
      Batch.failures_ofOutcomes, hrun.working, hrun'.working]
    exact ⟨hrun.get?_eq_of_perm hrun' hqs, rfl, rfl, hqs.filterMap _, hqs.filterMap _⟩

/-- **A batch isolates its files**: each is stripped or fails as it would alone, with a copy of the
bytes it had, nothing else is changed, and the order makes no difference. -/
theorem stripAll_isolates {walk : Walker} (hwalk : walk.IsFaithful) (parse : Parser) {t : FileTree}
    (ht : t.IsOrdinary) {f : Filter} {root : Path} {ps : List Path}
    (h : t.discover walk f root = .ok ps) (mode : BackupMode) :
    ∃ t' b, t.stripAll parse walk f mode root = (t', .ok b) ∧ IsIsolated parse t t' mode ps b := by
  refine ⟨_, _, ?_, isIsolated_stripEach parse mode (areSources_of_discover hwalk ht h)⟩
  rw [stripAll, h]

/-- Sources side by side: one with a comment and a copy of an earlier state, one that is no text,
and one whose copy has no name of its own. -/
def mixedSources : FileTree :=
  (((workspace.place (.ofString "d/b.py") (.file [255])).place
    (.ofString "d/a.py") (.file (Utf8.encode "x = 1  # one\n".toList))).place
      (.ofString "d/a.py.bak") (.file [])).place
        (.ofString "d/..py") (.file (Utf8.encode "# two\n".toList))

/-- A parser that knows the texts of `mixedSources`. -/
def parseMixedSources : Parser := .ofTable
  [("x = 1  # one\n".toList, .named "module" ⟨0, 0⟩ ⟨13, 1⟩
    [.named "expression_statement" ⟨0, 0⟩ ⟨5, 0⟩
      [.named "assignment" ⟨0, 0⟩ ⟨5, 0⟩
        [.as "left" (.named "identifier" ⟨0, 0⟩ ⟨1, 0⟩ []), .mark "=" ⟨2, 0⟩ ⟨3, 0⟩,
         .as "right" (.named "integer" ⟨4, 0⟩ ⟨5, 0⟩ [])]],
     .named "comment" ⟨7, 0⟩ ⟨12, 0⟩ []]),
   ("# two\n".toList, .named "module" ⟨0, 0⟩ ⟨6, 1⟩ [.named "comment" ⟨0, 0⟩ ⟨5, 0⟩ []])]

theorem stripAll_isolates_mixedSources :
    mixedSources.IsOrdinary ∧
      mixedSources.discover walk .all (.ofString "d") =
        .ok [.ofString "d/..py", .ofString "d/a.py", .ofString "d/b.py"] ∧
      ∃ t' b, mixedSources.stripAll parseMixedSources walk .all .numbered (.ofString "d") =
          (t', .ok b) ∧
        IsIsolated parseMixedSources mixedSources t' .numbered
          [.ofString "d/..py", .ofString "d/a.py", .ofString "d/b.py"] b := by
  have hordinary : mixedSources.IsOrdinary := ⟨by decide +kernel, by decide +kernel⟩
  have hbelow : filesBelow walk mixedSources .all (.ofString "d") =
      [.ofString "d/..py", .ofString "d/a.py", .ofString "d/b.py"] := by
    decide +kernel
  have hfound : mixedSources.discover walk .all (.ofString "d") =
      .ok [.ofString "d/..py", .ofString "d/a.py", .ofString "d/b.py"] := by
    rw [discover, if_neg (by decide +kernel), if_neg (by decide +kernel), Path.sort, hbelow,
      List.mergeSort_of_pairwise (by decide +kernel)]
  exact ⟨hordinary, hfound,
    stripAll_isolates isFaithful_walk parseMixedSources hordinary hfound .numbered⟩

end FileTree

end Marginalia
