import Marginalia.Proofs.FileTree.Commentary
import Marginalia.Proofs.SourceName

/-!
# What stripping one source looks at and changes

To strip a source puts a file in its place and one for its copy, in the directory of the source
(`exists_isStripped`), and leaves every other entry (`get?_strip_of_not_isVariant`). It looks at
these names only: in two trees with the same entries there the outcome is the same
(`snd_strip_congr`), and so is what it leaves (`get?_strip_congr`). For the numbered copies this
holds although a search ends after as many tries as its tree has entries, because one of them
always finds a free name (`firstFree_congr`).
-/

namespace Marginalia

namespace FileTree

/-! ## The entries of a directory that is looked into -/

section LooksInto

variable {t : FileTree} {u m : Text} {dir : Location} (h : t.LooksInto u dir)
include h

theorem LooksInto.fileFor_parent : t.fileFor ⟨u ++ ['.', '.']⟩ = .error .isADirectory := by
  rw [fileFor, h.locate_parent]
  simp only [isDirectoryAt_tail h.isDirectoryAt, if_true]

theorem LooksInto.fileToWrite_parent :
    t.fileToWrite ⟨u ++ ['.', '.']⟩ = .error .isADirectory := by
  rw [fileToWrite, h.locate_parent]
  simp only [isDirectoryAt_tail h.isDirectoryAt, if_true]

variable (hm : Step.ofPiece m = .name m) (hslash : '/' ∉ m)
include hm hslash

theorem LooksInto.find?_name {e : Entry} (he : t.get? (m :: dir) = some e) :
    t.find? ⟨u ++ m⟩ = some (m :: dir) := by
  rw [find?, h.locate_name m hm hslash, he]
  rfl

theorem LooksInto.reaches_name : t.reaches ⟨u ++ m⟩ = (t.get? (m :: dir)).isSome := by
  rw [reaches, find?, h.locate_name m hm hslash]
  cases t.get? (m :: dir) with
  | none => rfl
  | some e => rfl

theorem LooksInto.fileFor_name : t.fileFor ⟨u ++ m⟩ =
    match t.get? (m :: dir) with
    | none => .error .notFound
    | some .directory => .error .isADirectory
    | some _ => .ok (m :: dir) := by
  rw [fileFor, h.locate_name m hm hslash]
  cases hget : t.get? (m :: dir) with
  | none => rfl
  | some e =>
    cases e with
    | file _ | directory | link _ => simp [FileTree.isDirectoryAt, hget]

theorem LooksInto.fileToWrite_name : t.fileToWrite ⟨u ++ m⟩ =
    match t.get? (m :: dir) with
    | none => if maxNameSize < Utf8.size m then .error .nameTooLong else .ok (m :: dir)
    | some .directory => .error .isADirectory
    | some _ => .ok (m :: dir) := by
  rw [fileToWrite, h.locate_name m hm hslash]
  cases hget : t.get? (m :: dir) with
  | none => rfl
  | some e =>
    cases e with
    | file _ | directory | link _ => simp [FileTree.isDirectoryAt, hget]

theorem LooksInto.eq_of_fileFor {l : Location} (hl : t.fileFor ⟨u ++ m⟩ = .ok l) :
    l = m :: dir := by
  rw [h.fileFor_name hm hslash] at hl
  split at hl
  · simp at hl
  · simp at hl
  · exact (Except.ok.inj hl).symm

theorem LooksInto.eq_of_fileToWrite {l : Location} (hl : t.fileToWrite ⟨u ++ m⟩ = .ok l) :
    l = m :: dir := by
  rw [h.fileToWrite_name hm hslash] at hl
  split at hl
  · split_ifs at hl
    exact (Except.ok.inj hl).symm
  · simp at hl
  · exact (Except.ok.inj hl).symm

theorem LooksInto.read_name {content : Bytes} (hfile : t.get? (m :: dir) = some (.file content)) :
    t.read ⟨u ++ m⟩ = .ok content := by
  have hl : t.fileFor ⟨u ++ m⟩ = .ok (m :: dir) := by
    rw [h.fileFor_name hm hslash, hfile]
  rw [read_of_fileFor hl, contentAt, hfile]

end LooksInto

/-! ## The path of the copy -/

/-- Among paths that are not all in use, the first free one is taken. -/
theorem exists_firstFree {t : FileTree} {base : Path} {tries n : ℕ}
    (h : ∃ i, n ≤ i ∧ i ≤ n + tries ∧ t.reaches (base.numberedBackup i) = false) :
    ∃ i, n ≤ i ∧ t.firstFree base tries n = base.numberedBackup i ∧
      t.reaches (base.numberedBackup i) = false ∧
        ∀ j, n ≤ j → j < i → t.reaches (base.numberedBackup j) = true := by
  induction tries generalizing n with
  | zero =>
    obtain ⟨i, hi, hi', hfree⟩ := h
    obtain rfl : i = n := by omega
    exact ⟨i, le_rfl, rfl, hfree, fun j hj hj' => absurd hj' (by omega)⟩
  | succ k ih =>
    rw [firstFree]
    split
    · next hused =>
      obtain ⟨i, hi, hi', hfree⟩ := h
      have hne : i ≠ n := by
        rintro rfl
        rw [hused] at hfree
        exact Bool.noConfusion hfree
      obtain ⟨m, hm, hfirst, hmfree, hbefore⟩ :=
        ih (n := n + 1) ⟨i, by omega, by omega, hfree⟩
      refine ⟨m, by omega, hfirst, hmfree, fun j hj hjm => ?_⟩
      rcases Nat.eq_or_lt_of_le hj with rfl | hlt
      · exact hused
      · exact hbefore j hlt hjm
    · next hfree =>
      exact ⟨n, le_rfl, rfl, by simpa using hfree, fun j hj hj' => absurd hj' (by omega)⟩

/-- The first free path depends only on which paths are in use. -/
theorem firstFree_congr {s t : FileTree} {base : Path}
    (h : ∀ i, s.reaches (base.numberedBackup i) = t.reaches (base.numberedBackup i)) (n : ℕ) :
    s.firstFree base s.entries.length n = t.firstFree base t.entries.length n := by
  obtain ⟨i, hi, hs, hifree, hibefore⟩ := exists_firstFree (s.exists_not_reaches base n)
  obtain ⟨j, hj, ht, hjfree, hjbefore⟩ := exists_firstFree (t.exists_not_reaches base n)
  rw [hs, ht]
  rcases Nat.lt_trichotomy i j with hij | rfl | hij
  · rw [h, hjbefore i hi hij] at hifree
    exact Bool.noConfusion hifree
  · rfl
  · rw [← h, hibefore j hj hij] at hjfree
    exact Bool.noConfusion hjfree

section Source

variable {t : FileTree} {u n : Text} {dir : Location} (hu : Path.IsOpen u) (hn : IsSourceName n)
include hu hn

theorem numberedBackup_eq (k : ℕ) :
    (Path.backup ⟨u ++ n⟩).numberedBackup k = ⟨u ++ numberedName n k⟩ := by
  rw [hn.backup_eq hu, Path.numberedBackup, Path.append, numberedName, List.append_assoc]

/-- **The copy of a source** has another name that stripping looks at. -/
theorem exists_backupPath_eq (t : FileTree) (mode : BackupMode) :
    ∃ x, IsVariant n x ∧ x ≠ n ∧ t.backupPath mode ⟨u ++ n⟩ = ⟨u ++ x⟩ := by
  have hcopy : ∃ x, IsVariant n x ∧ x ≠ n ∧ Path.backup ⟨u ++ n⟩ = ⟨u ++ x⟩ :=
    ⟨copyName n, Or.inr (Or.inl rfl), (hn.ne_copyName n).symm, hn.backup_eq hu⟩
  cases mode with
  | overwrite => exact hcopy
  | numbered =>
    rw [backupPath]
    split
    · obtain ⟨i, -, hi, -⟩ := exists_firstFree (t.exists_not_reaches (Path.backup ⟨u ++ n⟩) 1)
      exact ⟨numberedName n i, Or.inr (Or.inr ⟨i, rfl⟩), (hn.ne_numberedName n i).symm,
        hi.trans (numberedBackup_eq hu hn i)⟩
    · exact hcopy

end Source

/-! ## Two trees with the same names -/

section Congr

variable {s t : FileTree} {u n : Text} {dir : Location} (hn : IsSourceName n)
  (hs : s.LooksInto u dir) (ht : t.LooksInto u dir)
  (hsame : ∀ x, IsVariant n x → s.get? (x :: dir) = t.get? (x :: dir))
include hn hs ht hsame

theorem fileFor_congr {x : Text} (hx : IsVariant n x) :
    s.fileFor ⟨u ++ x⟩ = t.fileFor ⟨u ++ x⟩ := by
  rcases hx.eq_or hn with rfl | ⟨hname, hslash⟩
  · rw [hs.fileFor_parent, ht.fileFor_parent]
  · rw [hs.fileFor_name hname hslash, ht.fileFor_name hname hslash, hsame x hx]

theorem fileToWrite_congr {x : Text} (hx : IsVariant n x) :
    s.fileToWrite ⟨u ++ x⟩ = t.fileToWrite ⟨u ++ x⟩ := by
  rcases hx.eq_or hn with rfl | ⟨hname, hslash⟩
  · rw [hs.fileToWrite_parent, ht.fileToWrite_parent]
  · rw [hs.fileToWrite_name hname hslash, ht.fileToWrite_name hname hslash, hsame x hx]

theorem reaches_congr {x : Text} (hx : IsVariant n x) :
    s.reaches ⟨u ++ x⟩ = t.reaches ⟨u ++ x⟩ := by
  rcases hx.eq_or hn with rfl | ⟨hname, hslash⟩
  · rw [reaches, reaches, find?, find?, hs.locate_parent, ht.locate_parent]
  · rw [hs.reaches_name hname hslash, ht.reaches_name hname hslash, hsame x hx]

theorem read_congr : s.read ⟨u ++ n⟩ = t.read ⟨u ++ n⟩ := by
  have hself : IsVariant n n := Or.inl rfl
  rw [read, read, fileFor_congr hn hs ht hsame hself, ht.fileFor_name hn.ofPiece hn.slash]
  have hcontent : s.contentAt (n :: dir) = t.contentAt (n :: dir) := by
    rw [contentAt, contentAt, hsame n hself]
  split
  · rfl
  · rfl
  · exact congrArg Except.ok hcontent

theorem source_congr : s.source ⟨u ++ n⟩ = t.source ⟨u ++ n⟩ := by
  rw [source, source, reaches_congr hn hs ht hsame (Or.inl rfl), read_congr hn hs ht hsame]

variable (hu : Path.IsOpen u)
include hu

theorem backupPath_congr (mode : BackupMode) :
    s.backupPath mode ⟨u ++ n⟩ = t.backupPath mode ⟨u ++ n⟩ := by
  cases mode with
  | overwrite => rfl
  | numbered =>
    have hbase : s.reaches (Path.backup ⟨u ++ n⟩) = t.reaches (Path.backup ⟨u ++ n⟩) := by
      rw [hn.backup_eq hu]
      exact reaches_congr hn hs ht hsame (Or.inr (Or.inl rfl))
    have hnumbered : ∀ i, s.reaches ((Path.backup ⟨u ++ n⟩).numberedBackup i) =
        t.reaches ((Path.backup ⟨u ++ n⟩).numberedBackup i) := by
      intro i
      rw [numberedBackup_eq hu hn]
      exact reaches_congr hn hs ht hsame (Or.inr (Or.inr ⟨i, rfl⟩))
    rw [backupPath, backupPath, hbase, firstFree_congr hnumbered]

end Congr

/-! ## What stripping leaves -/

/-- The outcome of stripping depends on the text of the source and on whether it is copied. -/
theorem snd_strip (parse : Parser) (t : FileTree) (mode : BackupMode) (p : Path) :
    (t.strip parse mode p).2 =
      match t.source p with
      | .error e => .error e
      | .ok text =>
        match t.copy p (t.backupPath mode p) with
        | .error e => .error (.backup p (t.backupPath mode p) e)
        | .ok _ =>
          .ok ⟨p, (Marginalia.strip parse text).removed, (Marginalia.strip parse text).total,
            t.backupPath mode p⟩ := by
  rw [strip]
  cases t.source p with
  | error e => rfl
  | ok text =>
    cases hcopy : t.copy p (t.backupPath mode p) with
    | error e => simp only [hcopy]
    | ok copied =>
      -- the file was there to be copied, and is there to be written
      obtain ⟨l, -, -, -, hl, -⟩ := of_copy hcopy
      simp only [hcopy, write_of_fileFor hl]
      split <;> rfl

theorem path_of_snd_strip {parse : Parser} {t : FileTree} {mode : BackupMode} {p : Path}
    {r : StripReport} (h : (t.strip parse mode p).2 = .ok r) : r.path = p := by
  rcases t.strip_cases parse mode p with ⟨e, he⟩ | ⟨text, l, copied, -, -, -, hr⟩
  · simp [he] at h
  · rw [hr] at h
    exact (congrArg StripReport.path (Except.ok.inj h)).symm

theorem fst_strip_of_error {parse : Parser} {t : FileTree} {mode : BackupMode} {p : Path}
    {e : Failure}
    (h : (t.strip parse mode p).2 = .error e) : (t.strip parse mode p).1 = t := by
  rcases t.strip_cases parse mode p with ⟨e', he⟩ | ⟨text, l, copied, -, -, -, hr⟩
  · rw [he]
  · simp [hr] at h

/-- **Stripping puts files only**: what every new file keeps is kept. -/
theorem strip_induction {P : FileTree → Prop}
    (hset : ∀ s k content, s.CanHoldFile k → P s → P (s.set k (.file content))) {t : FileTree}
    (h : P t) (parse : Parser) (mode : BackupMode) (p : Path) : P (t.strip parse mode p).1 := by
  rcases t.strip_cases parse mode p with ⟨e, he⟩ | ⟨text, l, copied, -, hl, hcopy, hstrip⟩
  · rw [he]
    exact h
  rw [hstrip]
  obtain ⟨l₁, -, hl₁, -, hp, -⟩ := of_copy hcopy
  obtain ⟨content, hfile⟩ := get?_of_fileFor hp
  obtain rfl : l = l₁ := Except.ok.inj (hl.symm.trans hl₁)
  obtain ⟨l₂, k, -, hk, rfl⟩ := copy_eq_ok hcopy
  have hempty := canHoldFile_of_fileToWrite hk
  have hcopied := hset _ k ((t.set k (.file [])).contentAt l₂)
    (canHoldFile_set_file hempty []) (hset t k [] hempty h)
  rw [withStripped]
  split
  · exact hcopied
  · exact hset _ l _ (canHoldFile_of_file hfile) hcopied

theorem LooksInto.strip {t : FileTree} {u : Text} {dir : Location} (h : t.LooksInto u dir)
    (parse : Parser) (mode : BackupMode) (p : Path) : (t.strip parse mode p).1.LooksInto u dir :=
  strip_induction (P := fun s => s.LooksInto u dir)
    (fun _ _ content hk hs => hs.set_file hk content) h parse mode p

theorem working_strip (parse : Parser) (t : FileTree) (mode : BackupMode) (p : Path) :
    (t.strip parse mode p).1.working = t.working :=
  strip_induction (P := fun s => s.working = t.working)
    (fun s k content _ hs => (working_set s k (.file content)).trans hs) rfl parse mode p

/-- A source that is stripped is replaced by its stripped text, and its copy has its bytes. -/
structure IsStripped (parse : Parser) (t t' : FileTree) (u n x : Text) (dir : Location) : Prop where
  isVariant : IsVariant n x
  ne : x ≠ n
  ofPiece : Step.ofPiece x = .name x
  slash : '/' ∉ x
  get? : ∃ bytes text, t.get? (n :: dir) = some (.file bytes) ∧ Utf8.decode bytes = .ok text ∧
    ∀ l, t'.get? l =
      if l = n :: dir then some (.file (Utf8.encode (Marginalia.strip parse text).content))
      else if l = x :: dir then some (.file bytes) else t.get? l

section Source

variable {parse : Parser} {t : FileTree} {u n : Text} {dir : Location} (hu : Path.IsOpen u)
  (hn : IsSourceName n) (h : t.LooksInto u dir)
include hu hn h

/-- **What stripping a source changes**: the source and its copy. -/
theorem exists_isStripped {mode : BackupMode} {r : StripReport}
    (hr : (t.strip parse mode ⟨u ++ n⟩).2 = .ok r) :
    ∃ x, r.backup = ⟨u ++ x⟩ ∧ IsStripped parse t (t.strip parse mode ⟨u ++ n⟩).1 u n x dir := by
  rcases t.strip_cases parse mode ⟨u ++ n⟩ with
    ⟨e, he⟩ | ⟨text, l, copied, hsource, hl, hcopy, hstrip⟩
  · simp [he] at hr
  obtain ⟨x, hvariant, hne, hx⟩ := exists_backupPath_eq hu hn t mode
  rw [hstrip] at hr ⊢
  rw [hx] at hcopy hr
  refine ⟨x, (congrArg StripReport.backup (Except.ok.inj hr)).symm, ?_⟩
  obtain ⟨l', k, hl', hk, rfl⟩ := copy_eq_ok hcopy
  obtain rfl := h.eq_of_fileFor hn.ofPiece hn.slash hl
  obtain rfl := h.eq_of_fileFor hn.ofPiece hn.slash hl'
  rcases hvariant.eq_or hn with rfl | ⟨hname, hslash⟩
  · simp [h.fileToWrite_parent] at hk
  obtain rfl := h.eq_of_fileToWrite hname hslash hk
  obtain ⟨bytes, hread, hdecode⟩ := of_source hsource
  obtain ⟨content, hfile⟩ := get?_of_fileFor hl
  obtain rfl : bytes = content := by
    rw [read_of_fileFor hl, contentAt, hfile] at hread
    exact (Except.ok.inj hread).symm
  have hapart : n :: dir ≠ x :: dir := fun heq => hne (List.cons.inj heq).1.symm
  have hempty := canHoldFile_of_fileToWrite hk
  have hfull := canHoldFile_set_file hempty []
  have hcontent : (t.set (x :: dir) (.file [])).contentAt (n :: dir) = bytes := by
    rw [contentAt_set_file hempty, if_neg hapart, contentAt, hfile]
  refine ⟨hvariant, hne, hname, hslash, bytes, text, hfile, hdecode, fun l => ?_⟩
  rw [hcontent, withStripped]
  have hcopied : ((t.set (x :: dir) (.file [])).set (x :: dir) (.file bytes)).get? l =
      if l = x :: dir then some (.file bytes) else t.get? l := by
    rw [get?_set_file hfull, get?_set_file hempty]
    split <;> rfl
  split
  · next hkept =>
    have hbytes := Utf8.decode_eq_ok_iff.1 hdecode
    rw [hcopied, hkept, ← hbytes]
    by_cases hl : l = n :: dir
    · rw [if_pos hl, hl, if_neg hapart, hfile]
    · rw [if_neg hl]
  · have hsource : ((t.set (x :: dir) (.file [])).set (x :: dir) (.file bytes)).get? (n :: dir) =
        some (.file bytes) := by
      rw [get?_set_file hfull, if_neg hapart, get?_set_file hempty, if_neg hapart, hfile]
    rw [get?_set_file (canHoldFile_of_file hsource), hcopied]

/-- **Stripping a source leaves everything else as it was.** -/
theorem get?_strip_of_not_isVariant {mode : BackupMode} {l : Location}
    (hl : ∀ x, IsVariant n x → l ≠ x :: dir) :
    (t.strip parse mode ⟨u ++ n⟩).1.get? l = t.get? l := by
  cases hr : (t.strip parse mode ⟨u ++ n⟩).2 with
  | error e => rw [fst_strip_of_error hr]
  | ok r =>
    obtain ⟨x, -, hx⟩ := exists_isStripped hu hn h hr
    obtain ⟨bytes, text, -, -, hget⟩ := hx.get?
    rw [hget, if_neg (hl n (Or.inl rfl)), if_neg (hl x hx.isVariant)]

end Source

section Congr

variable {s t : FileTree} {u n : Text} {dir : Location} (hu : Path.IsOpen u)
  (hn : IsSourceName n) (hs : s.LooksInto u dir) (ht : t.LooksInto u dir)
  (hsame : ∀ x, IsVariant n x → s.get? (x :: dir) = t.get? (x :: dir))
include hu hn hs ht hsame

/-- **The outcome for a source depends on the entries of its names only.** -/
theorem snd_strip_congr (parse : Parser) (mode : BackupMode) :
    (s.strip parse mode ⟨u ++ n⟩).2 = (t.strip parse mode ⟨u ++ n⟩).2 := by
  obtain ⟨x, hx, -, hbackup⟩ := exists_backupPath_eq hu hn t mode
  have hcopy : ∀ e, s.copy ⟨u ++ n⟩ ⟨u ++ x⟩ = .error e ↔ t.copy ⟨u ++ n⟩ ⟨u ++ x⟩ = .error e := by
    intro e
    rw [copy, copy, fileFor_congr hn hs ht hsame (Or.inl rfl), fileToWrite_congr hn hs ht hsame hx]
    cases t.fileFor ⟨u ++ n⟩ with
    | error e' => rfl
    | ok l =>
      cases t.fileToWrite ⟨u ++ x⟩ with
      | error e' => rfl
      | ok k => simp [bind, Except.bind, pure, Except.pure]
  rw [snd_strip, snd_strip, source_congr hn hs ht hsame, backupPath_congr hn hs ht hsame hu mode,
    hbackup]
  cases t.source ⟨u ++ n⟩ with
  | error e => rfl
  | ok text =>
    cases hs' : s.copy ⟨u ++ n⟩ ⟨u ++ x⟩ with
    | error e => simp only [(hcopy e).1 hs']
    | ok copied =>
      cases ht' : t.copy ⟨u ++ n⟩ ⟨u ++ x⟩ with
      | error e => simp [(hcopy e).2 ht'] at hs'
      | ok copied' => rfl

/-- **Stripping leaves the same** at the names of the source. -/
theorem get?_strip_congr (parse : Parser) (mode : BackupMode) {x : Text} (hx : IsVariant n x) :
    (s.strip parse mode ⟨u ++ n⟩).1.get? (x :: dir) =
      (t.strip parse mode ⟨u ++ n⟩).1.get? (x :: dir) := by
  have hsnd := snd_strip_congr hu hn hs ht hsame parse mode
  cases hr : (t.strip parse mode ⟨u ++ n⟩).2 with
  | error e =>
    rw [fst_strip_of_error hr, fst_strip_of_error (hsnd.trans hr)]
    exact hsame x hx
  | ok r =>
    obtain ⟨y, hy, hsy⟩ := exists_isStripped hu hn hs (hsnd.trans hr)
    obtain ⟨z, hz, htz⟩ := exists_isStripped hu hn ht hr
    obtain rfl : y = z := List.append_cancel_left (congrArg Path.text (hy.symm.trans hz))
    obtain ⟨bytes, text, hbytes, htext, hget⟩ := hsy.get?
    obtain ⟨bytes', text', hbytes', htext', hget'⟩ := htz.get?
    obtain rfl : bytes = bytes' := by
      rw [hsame n (Or.inl rfl), hbytes'] at hbytes
      simpa using hbytes.symm
    obtain rfl : text = text' := Except.ok.inj (htext.symm.trans htext')
    rw [hget, hget', hsame x hx]

end Congr

end FileTree

end Marginalia
