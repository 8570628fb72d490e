import Marginalia.Proofs.FileTree.Batch

/-!
# The versions of a source

A source that is stripped with numbered copies, written anew and stripped again leaves a copy of
each of its states. However many such calls there are, and whichever sources they go to, every copy
that was reported is there in the end, with the bytes that its source had (`isKept_versions`).

Two facts carry this. A copy has a place of its own when it is made, and no name that a copy can
have is the name of a source; and calls put files only where there are sources or where there is
nothing, so that they spare every other entry (`FileTree.Spares`).
-/

namespace Marginalia

/-- A call that changes sources. -/
inductive Call
  /-- Other bytes are written to a source. -/
  | overwrite (p : Path) (content : Bytes)
  /-- A source is stripped. -/
  | strip (p : Path)
  /-- The selected sources under a root are stripped. -/
  | stripAll (f : Filter) (root : Path)

/-- A state of a source that was copied: the tree before the source was stripped, the tree after
that, and the report. -/
structure Version where
  before : FileTree
  after : FileTree
  report : StripReport

/-- No copy of a source has the name of a source. -/
theorem IsVariant.not_isSourceName {n x : Text} (h : IsVariant n x) (hne : x ≠ n) :
    ¬ IsSourceName x := by
  intro hx
  rcases h with rfl | rfl | ⟨k, rfl⟩
  · exact hne rfl
  · exact hx.ne_copyName n rfl
  · exact hx.ne_numberedName n k rfl

namespace FileTree

section Runs

variable (parse : Parser) (walk : Walker)

/-! ## Calls -/

/-- The tree with other bytes in a source, or with a new one, if the path names a source and can be
written. -/
def overwrite (t : FileTree) (p : Path) (content : Bytes) : FileTree :=
  match t.write p content with
  | .error _ => t
  | .ok written => if p.isPython then written else t

/-- The tree after a call, and the reports on the sources that were stripped. -/
def call (t : FileTree) : Call → FileTree × List StripReport
  | .overwrite p content => (t.overwrite p content, [])
  | .strip p =>
    match t.strip parse .numbered p with
    | (t', .error _) => (t', [])
    | (t', .ok r) => (t', [r])
  | .stripAll f root =>
    match t.stripAll parse walk f .numbered root with
    | (t', .error _) => (t', [])
    | (t', .ok b) => (t', b.files)

/-- The tree after several calls, and all reports. -/
def run (t : FileTree) : List Call → FileTree × List StripReport
  | [] => (t, [])
  | c :: cs =>
    let (t', rs) := t.call parse walk c
    let (t'', rs') := t'.run cs
    (t'', rs ++ rs')

/-- The versions that are copied when the sources `ps` are stripped one after the other. -/
def versionsOf (t : FileTree) : List Path → List Version
  | [] => []
  | p :: ps =>
    match t.strip parse .numbered p with
    | (t', .error _) => t'.versionsOf ps
    | (t', .ok r) => ⟨t, t', r⟩ :: t'.versionsOf ps

/-- The sources that a call strips. -/
def sourcesOf (t : FileTree) : Call → List Path
  | .overwrite _ _ => []
  | .strip p => [p]
  | .stripAll f root => (t.discover walk f root).toOption.getD []

/-- The versions that are copied in a run. -/
def versions (t : FileTree) : List Call → List Version
  | [] => []
  | c :: cs => t.versionsOf parse (t.sourcesOf walk c) ++ (t.call parse walk c).1.versions cs

/-! ## One source after the other -/

section StripEach

variable (mode : BackupMode) (ps qs : List Path) (t : FileTree)

theorem stripEach_append :
    (stripEach parse mode (ps ++ qs) t).1 =
        (stripEach parse mode qs (stripEach parse mode ps t).1).1 ∧
      (stripEach parse mode (ps ++ qs) t).2.files = (stripEach parse mode ps t).2.files ++
        (stripEach parse mode qs (stripEach parse mode ps t).1).2.files := by
  induction qs using List.reverseRecOn with
  | nil => simp [stripEach, Batch.empty]
  | append_singleton qs q ih =>
    obtain ⟨htree, hfiles⟩ := ih
    rw [← List.append_assoc, stripEach_concat parse, stripEach_concat parse, htree]
    refine ⟨rfl, ?_⟩
    generalize (stripEach parse mode qs (stripEach parse mode ps t).1).1.strip parse mode q =
      outcome
    obtain ⟨t', r⟩ := outcome
    cases r with
    | error e => simpa [Batch.add] using hfiles
    | ok r => simp [Batch.add, hfiles]

end StripEach

theorem stripEach_cons (mode : BackupMode) (p : Path) (ps : List Path) (t : FileTree) :
    (stripEach parse mode (p :: ps) t).1 = (stripEach parse mode ps (t.strip parse mode p).1).1 ∧
      (stripEach parse mode (p :: ps) t).2.files =
        (t.strip parse mode p).2.toOption.toList ++
          (stripEach parse mode ps (t.strip parse mode p).1).2.files := by
  obtain ⟨htree, hfiles⟩ := stripEach_append parse mode [p] ps t
  refine ⟨htree, hfiles.trans (congrArg (· ++ _) ?_)⟩
  change (Batch.empty.add p (t.strip parse mode p).2).files = _
  cases (t.strip parse mode p).2 <;> rfl

/-- The versions are those that the reports tell of. -/
theorem map_report_versionsOf (ps : List Path) (t : FileTree) :
    (t.versionsOf parse ps).map Version.report = (stripEach parse .numbered ps t).2.files := by
  induction ps generalizing t with
  | nil => rfl
  | cons p ps ih =>
    rw [(stripEach_cons parse .numbered p ps t).2, ← ih, versionsOf]
    generalize t.strip parse .numbered p = outcome
    obtain ⟨t', r⟩ := outcome
    cases r <;> rfl

/-- A call strips its sources one after the other. -/
theorem call_eq (t : FileTree) (c : Call) :
    (t.call parse walk c).1 =
        (match c with
        | .overwrite p content => t.overwrite p content
        | .strip _ | .stripAll _ _ => (stripEach parse .numbered (t.sourcesOf walk c) t).1) ∧
      (t.call parse walk c).2 = (stripEach parse .numbered (t.sourcesOf walk c) t).2.files := by
  cases c with
  | overwrite p content => exact ⟨rfl, rfl⟩
  | strip p =>
    obtain ⟨htree, hfiles⟩ := stripEach_cons parse .numbered p [] t
    simp only [call, sourcesOf, htree, hfiles]
    generalize t.strip parse .numbered p = outcome
    obtain ⟨t', r⟩ := outcome
    cases r <;> exact ⟨rfl, rfl⟩
  | stripAll f root =>
    simp only [call, sourcesOf, stripAll]
    cases t.discover walk f root <;> exact ⟨rfl, rfl⟩

theorem map_report_versions (cs : List Call) (t : FileTree) :
    (t.versions parse walk cs).map Version.report = (t.run parse walk cs).2 := by
  induction cs generalizing t with
  | nil => rfl
  | cons c cs ih =>
    rw [versions, List.map_append, map_report_versionsOf, ← (call_eq parse walk t c).2, ih]
    rfl

/-! ## What calls spare -/

/-- In `t'` every entry of `t` is as it was, but for the sources, and paths into directories lead
there. -/
structure Spares (t t' : FileTree) : Prop where
  hasNoLinks : t.HasNoLinks → t'.HasNoLinks
  looksInto : ∀ u dir, t.LooksInto u dir → t'.LooksInto u dir
  get? : ∀ x dir e, ¬ IsSourceName x → t.get? (x :: dir) = some e → t'.get? (x :: dir) = some e

theorem Spares.refl (t : FileTree) : t.Spares t := ⟨id, fun _ _ => id, fun _ _ _ _ => id⟩

theorem Spares.trans {r s t : FileTree} (h : r.Spares s) (h' : s.Spares t) : r.Spares t where
  hasNoLinks := h'.hasNoLinks ∘ h.hasNoLinks
  looksInto u dir := h'.looksInto u dir ∘ h.looksInto u dir
  get? x dir e hx := h'.get? x dir e hx ∘ h.get? x dir e hx

theorem HasNoLinks.set_file {t : FileTree} (ht : t.HasNoLinks) {k : Location}
    (hk : t.CanHoldFile k) (content : Bytes) : (t.set k (.file content)).HasNoLinks := by
  intro l target
  rw [get?_set_file hk]
  split
  · simp
  · exact ht l target

theorem isPython_of_source {t : FileTree} {p : Path} {text : Text} (h : t.source p = .ok text) :
    p.isPython = true := by
  rw [source] at h
  split_ifs at h with hreach hp
  simpa using hp

section HasNoLinks

variable {t : FileTree} (ht : t.HasNoLinks)
include ht

theorem isSourceAt_of_fileFor {p : Path} {l : Location} (hp : p.isPython = true)
    (hl : t.fileFor p = .ok l) : t.IsSourceAt p l := by
  obtain ⟨content, hfile⟩ := get?_of_fileFor hl
  exact isSourceAt_of_file ht hp (find?_of_fileFor hl) (by rw [isFileAt, hfile])

/-- A path that names a source and can be written leads to a source, or to where nothing is. -/
theorem eq_none_or_isSourceName {p : Path} {k : Location} (hk : t.fileToWrite p = .ok k)
    (hp : p.isPython = true) : t.get? k = none ∨ ∃ n dir, k = n :: dir ∧ IsSourceName n := by
  rcases fileToWrite_eq_ok hk with hfile | hfree
  · obtain ⟨-, n, dir, -, rfl, -, hn, -⟩ := isSourceAt_of_fileFor ht hp hfile
    exact Or.inr ⟨n, dir, rfl, hn⟩
  · exact Or.inl (isSound_of_locate hfree).2

/-- **To write a source anew** spares what is no source. -/
theorem spares_overwrite (p : Path) (content : Bytes) : t.Spares (t.overwrite p content) := by
  rw [overwrite, write]
  cases hk : t.fileToWrite p with
  | error e => exact .refl t
  | ok k =>
    simp only [Except.map]
    split
    · next hp =>
      have hhold := canHoldFile_of_fileToWrite hk
      refine ⟨fun _ => ht.set_file hhold content, fun u dir h => h.set_file hhold content,
        fun x dir e hx he => ?_⟩
      rw [get?_set_file hhold, if_neg, he]
      rintro rfl
      rcases eq_none_or_isSourceName ht hk hp with hnone | ⟨n, dir', heq, hn⟩
      · simp [hnone] at he
      · exact hx ((List.cons.inj heq).1 ▸ hn)
    · exact .refl t

/-- **What a source that is stripped leaves**: a copy beside it, which has not the name of a
source. -/
theorem exists_isStripped_of_strip {mode : BackupMode} {p : Path} {r : StripReport}
    (hr : (t.strip parse mode p).2 = .ok r) : ∃ u n x dir, p = ⟨u ++ n⟩ ∧ Path.IsOpen u ∧
      IsSourceName n ∧ t.LooksInto u dir ∧ r.backup = ⟨u ++ x⟩ ∧ ¬ IsSourceName x ∧
        IsStripped parse t (t.strip parse mode p).1 u n x dir := by
  rcases t.strip_cases parse mode p with ⟨e, he⟩ | ⟨text, l, copied, hsource, hl, -, -⟩
  · simp [he] at hr
  obtain ⟨u, n, dir, rfl, rfl, hu, hn, h⟩ :=
    isSourceAt_of_fileFor ht (isPython_of_source hsource) hl
  obtain ⟨x, hbackup, hstripped⟩ := exists_isStripped hu hn h hr
  exact ⟨u, n, x, dir, rfl, hu, hn, h, hbackup,
    hstripped.isVariant.not_isSourceName hstripped.ne, hstripped⟩

/-- A numbered copy has a place of its own. -/
theorem exists_copy_of_strip {p : Path} {r : StripReport}
    (hr : (t.strip parse .numbered p).2 = .ok r) : ∃ u n x dir, p = ⟨u ++ n⟩ ∧ IsSourceName n ∧
      t.LooksInto u dir ∧ r.backup = ⟨u ++ x⟩ ∧ ¬ IsSourceName x ∧ t.find? r.backup = none ∧
      t.get? (x :: dir) = none ∧ IsStripped parse t (t.strip parse .numbered p).1 u n x dir := by
  obtain ⟨u, n, x, dir, hp, -, hn, h, hbackup, hx, hstripped⟩ :=
    exists_isStripped_of_strip parse ht hr
  have hfind : t.find? r.backup = none := by
    rcases t.strip_cases parse .numbered p with ⟨e, he⟩ | ⟨text, l, copied, -, -, -, hstrip⟩
    · simp [he] at hr
    · rw [hstrip] at hr
      rw [← Except.ok.inj hr]
      exact find?_backupPath_numbered t _
  have hfree : t.get? (x :: dir) = none := by
    have hreach := h.reaches_name hstripped.ofPiece hstripped.slash
    rw [reaches, ← hbackup, hfind] at hreach
    simpa using hreach
  exact ⟨u, n, x, dir, hp, hn, h, hbackup, hx, hfind, hfree, hstripped⟩

/-- **To strip a source** spares what is no source. -/
theorem spares_strip (p : Path) : t.Spares (t.strip parse .numbered p).1 := by
  have hlinks : (t.strip parse .numbered p).1.HasNoLinks :=
    strip_induction (fun _ _ content hk hs => hs.set_file hk content) ht parse .numbered p
  refine ⟨fun _ => hlinks, fun u dir h => h.strip parse .numbered p, fun x dir e hx he => ?_⟩
  cases hr : (t.strip parse .numbered p).2 with
  | error e => rwa [fst_strip_of_error hr]
  | ok r =>
    obtain ⟨u, n, x', dir', -, hn, -, -, -, -, hfree, hstripped⟩ := exists_copy_of_strip parse ht hr
    obtain ⟨bytes, text, -, -, hget⟩ := hstripped.get?
    rw [hget, if_neg, if_neg, he]
    · rintro heq
      rw [heq, hfree] at he
      simp at he
    · rintro heq
      exact hx ((List.cons.inj heq).1 ▸ hn)

theorem spares_stripEach (ps : List Path) : t.Spares (stripEach parse .numbered ps t).1 := by
  induction ps generalizing t with
  | nil => exact .refl t
  | cons p ps ih =>
    have hstep := spares_strip parse ht p
    rw [(stripEach_cons parse .numbered p ps t).1]
    exact hstep.trans (ih (hstep.hasNoLinks ht))

theorem spares_call (c : Call) : t.Spares (t.call parse walk c).1 := by
  rw [(call_eq parse walk t c).1]
  cases c with
  | overwrite p content => exact spares_overwrite ht p content
  | strip | stripAll => exact spares_stripEach parse ht _

/-- **A whole run** spares what is no source. -/
theorem spares_run (cs : List Call) : t.Spares (t.run parse walk cs).1 := by
  induction cs generalizing t with
  | nil => exact .refl t
  | cons c cs ih =>
    have hstep := spares_call parse walk ht c
    exact hstep.trans (ih (hstep.hasNoLinks ht))

end HasNoLinks

/-! ## The main result -/

/-- The version was copied to a place of its own, and the copy is there in `t`. -/
structure IsKept (parse : Parser) (t : FileTree) (v : Version) : Prop where
  strip_eq : v.before.strip parse .numbered v.report.path = (v.after, .ok v.report)
  /-- The path of the copy led nowhere. -/
  find?_before : v.before.find? v.report.backup = none
  /-- Nothing was changed but the source and the copy. -/
  changed : ∃ source copy, v.before.find? v.report.path = some source ∧
    v.before.get? copy = none ∧ v.after.find? v.report.backup = some copy ∧
    v.after.working = v.before.working ∧
    ∀ l, l ≠ source → l ≠ copy → v.after.get? l = v.before.get? l
  /-- The copy holds the bytes that the source had, then and now. -/
  read : ∃ bytes, v.before.read v.report.path = .ok bytes ∧
    v.after.read v.report.backup = .ok bytes ∧ t.read v.report.backup = .ok bytes

/-- The version is kept by what comes after it. -/
theorem isKept_of_strip {t t' s : FileTree} (ht : t.HasNoLinks) {p : Path} {r : StripReport}
    (hr : t.strip parse .numbered p = (t', .ok r)) (hs : t'.Spares s) :
    s.IsKept parse ⟨t, t', r⟩ := by
  obtain ⟨u, n, x, dir, rfl, hn, h, hbackup, hx, hfind, hfree, hstripped⟩ :=
    exists_copy_of_strip parse ht (congrArg Prod.snd hr)
  have hpath := path_of_snd_strip (congrArg Prod.snd hr)
  have htree : (t.strip parse .numbered ⟨u ++ n⟩).1 = t' := congrArg Prod.fst hr
  have h' : t'.LooksInto u dir := htree ▸ h.strip parse .numbered _
  obtain ⟨bytes, text, hbytes, -, hget⟩ := hstripped.get?
  rw [htree] at hget
  have hcopy : t'.get? (x :: dir) = some (.file bytes) := by
    have hne : x :: dir ≠ n :: dir := fun heq => hstripped.ne (List.cons.inj heq).1
    rw [hget, if_neg hne, if_pos rfl]
  have hkept := hs.get? x dir _ hx hcopy
  constructor
  case strip_eq =>
    simp only [hpath]
    exact hr
  case find?_before => exact hfind
  case changed =>
    refine ⟨n :: dir, x :: dir, ?_, hfree, ?_, ?_, fun l hln hlx => ?_⟩
    · simp only [hpath]
      exact h.find?_name hn.ofPiece hn.slash hbytes
    · simp only [hbackup]
      exact h'.find?_name hstripped.ofPiece hstripped.slash hcopy
    · exact htree ▸ working_strip parse t .numbered _
    · simp only [hget, if_neg hln, if_neg hlx]
  case read =>
    simp only [hpath, hbackup]
    exact ⟨bytes, h.read_name hn.ofPiece hn.slash hbytes,
      h'.read_name hstripped.ofPiece hstripped.slash hcopy,
      (hs.looksInto u dir h').read_name hstripped.ofPiece hstripped.slash hkept⟩

theorem isKept_of_mem_versionsOf {t s : FileTree} (ht : t.HasNoLinks) {ps : List Path}
    (hs : (stripEach parse .numbered ps t).1.Spares s) {v : Version}
    (hv : v ∈ t.versionsOf parse ps) : s.IsKept parse v := by
  induction ps generalizing t with
  | nil => exact absurd hv List.not_mem_nil
  | cons p ps ih =>
    have hstep := spares_strip parse ht p
    have hrest := spares_stripEach parse (hstep.hasNoLinks ht) ps
    rw [(stripEach_cons parse .numbered p ps t).1] at hs
    have htail := ih (hstep.hasNoLinks ht) hs
    rw [versionsOf] at hv
    generalize hr : t.strip parse .numbered p = outcome at hv hs htail hrest
    obtain ⟨t', r⟩ := outcome
    cases r with
    | error e => exact htail hv
    | ok r =>
      rcases List.mem_cons.1 hv with rfl | hv
      · exact isKept_of_strip parse ht hr (hrest.trans hs)
      · exact htail hv

theorem isKept_of_call {t s : FileTree} (ht : t.HasNoLinks) {c : Call}
    (hs : (t.call parse walk c).1.Spares s) {v : Version}
    (hv : v ∈ t.versionsOf parse (t.sourcesOf walk c)) : s.IsKept parse v := by
  rw [(call_eq parse walk t c).1] at hs
  cases c with
  | overwrite => exact absurd hv List.not_mem_nil
  | strip | stripAll => exact isKept_of_mem_versionsOf parse ht hs hv

/-- **Numbered copies lose no version**: every copy that a run has reported had a place of its own,
and holds in the end the bytes that its source had. -/
theorem isKept_versions {t : FileTree} (ht : t.HasNoLinks) (cs : List Call) :
    (t.versions parse walk cs).map Version.report = (t.run parse walk cs).2 ∧
      ∀ v ∈ t.versions parse walk cs, (t.run parse walk cs).1.IsKept parse v := by
  refine ⟨map_report_versions parse walk cs t, ?_⟩
  induction cs generalizing t with
  | nil => exact fun v hv => absurd hv List.not_mem_nil
  | cons c cs ih =>
    have ht' := (spares_call parse walk ht c).hasNoLinks ht
    intro v hv
    rcases List.mem_append.1 hv with hv | hv
    · exact isKept_of_call parse walk ht (spares_run parse walk ht' cs) hv
    · exact ih ht' v hv

end Runs

/-- A source with a comment, beside a directory with the name of a copy. -/
def commentedSource : FileTree :=
  (workspace.place (.ofString "a.py") (.file (Utf8.encode "x = 1  # one\n".toList))).place
    (.ofString "a.py.bak.1") .directory

/-- The source is stripped, written anew and stripped again, along several paths. -/
def edits : List Call :=
  [.strip (.ofString "a.py"), .overwrite (.ofString "./a.py") (Utf8.encode "# two\n".toList),
    .stripAll .all (.ofString "a.py"), .strip (.ofString "b.py"), .strip (.ofString ".//a.py")]

/-- The syntax trees of the two texts. -/
def parseEdits : Parser := .ofTable
  [("x = 1  # one\n".toList, .named "module" ⟨0, 0⟩ ⟨13, 1⟩
    [.named "expression_statement" ⟨0, 0⟩ ⟨5, 0⟩
      [.named "assignment" ⟨0, 0⟩ ⟨5, 0⟩
        [.as "left" (.named "identifier" ⟨0, 0⟩ ⟨1, 0⟩ []), .mark "=" ⟨2, 0⟩ ⟨3, 0⟩,
         .as "right" (.named "integer" ⟨4, 0⟩ ⟨5, 0⟩ [])]],
     .named "comment" ⟨7, 0⟩ ⟨12, 0⟩ []]),
   ("# two\n".toList, .named "module" ⟨0, 0⟩ ⟨6, 1⟩ [.named "comment" ⟨0, 0⟩ ⟨5, 0⟩ []])]

theorem isKept_versions_edits : commentedSource.HasNoLinks ∧
    (commentedSource.run parseEdits walk edits).2.map StripReport.backup =
      [.ofString "a.py.bak", .ofString "a.py.bak.2", .ofString ".//a.py.bak.3"] ∧
    (commentedSource.versions parseEdits walk edits).map Version.report =
      (commentedSource.run parseEdits walk edits).2 ∧
    ∀ v ∈ commentedSource.versions parseEdits walk edits,
      (commentedSource.run parseEdits walk edits).1.IsKept parseEdits v := by
  have hordinary : commentedSource.IsOrdinary := ⟨by decide +kernel, by decide +kernel⟩
  exact ⟨hordinary.hasNoLinks, by decide +kernel,
    isKept_versions parseEdits walk hordinary.hasNoLinks edits⟩

end FileTree

end Marginalia
