import Mathlib.Data.List.Basic
import Marginalia.FileTree.Access
import Marginalia.Proofs.Position

/-!
# Walks through a tree

A walk ends at a file, at a directory, or before a name that is still free (`Place.IsSound`). To
put a file where one may be put (`CanHoldFile`) changes no walk: it comes to the same links and
directories as before, and if it ended before the name of the new file, then it ends there now
(`locate_set_file`). So an operation that writes one file can be followed by another whose path
was looked up before.

Walks that differ in their last name only come to one directory (`exists_get?_of_follow`), and
paths that differ in what is appended to them are such walks (`Path.exists_steps_append`).
-/

namespace Marginalia

theorem Path.steps_ne_nil {p : Path} (h : p.text ≠ []) : p.steps ≠ [] := by
  have hne := Text.splitAt_ne_nil '/' p.text
  rw [Path.steps, Path.pieces, if_neg h]
  split
  · next hnil => exact absurd hnil hne
  · simp
  · simp

/-- The steps of a path with something after it differ in the last one only. -/
theorem Path.exists_steps_append (p : Path) : ∃ d b, ∀ w, w ≠ [] → '/' ∉ w →
    (p.append w).steps = d ++ [Step.ofPiece (b ++ w)] := by
  by_cases hmem : '/' ∈ p.text
  · obtain ⟨u, v, huv, hv⟩ := Literal.exists_append_last hmem
    obtain ⟨a, r, har⟩ := List.exists_cons_of_ne_nil (Text.splitAt_ne_nil '/' u)
    have hpieces : ∀ w, w ≠ [] → '/' ∉ w → (p.append w).pieces = a :: (r ++ [v ++ w]) := by
      intro w hw hslash
      have hnot : '/' ∉ v ++ w := by simp [hv, hslash]
      rw [pieces, append, if_neg (by simp [hw]), huv, List.append_assoc, List.cons_append,
        Literal.splitAt_append_cons, Literal.splitAt_of_notMem hnot, har]
      rfl
    cases a with
    | nil =>
      refine ⟨.root :: r.map Step.ofPiece, v, fun w hw hslash => ?_⟩
      rw [steps, hpieces w hw hslash]
      simp
    | cons c a =>
      refine ⟨Step.ofPiece (c :: a) :: r.map Step.ofPiece, v, fun w hw hslash => ?_⟩
      rw [steps, hpieces w hw hslash]
      simp
  · refine ⟨[], p.text, fun w hw hslash => ?_⟩
    have hpieces : (p.append w).pieces = [p.text ++ w] := by
      rw [pieces, append, if_neg (by simp [hw]),
        Literal.splitAt_of_notMem (by simp [hmem, hslash])]
    obtain ⟨c, x, hx⟩ := List.exists_cons_of_ne_nil (List.append_ne_nil_of_right_ne_nil p.text hw)
    rw [steps, hpieces, hx]
    rfl

/-! ## Where a walk can end -/

namespace FileTree

theorem isDirectoryAt_iff {t : FileTree} {l : Location} :
    t.isDirectoryAt l = true ↔ t.get? l = some .directory := by
  simp [isDirectoryAt]

/-- What stands below a location stands in a directory. -/
theorem get?_eq_directory {t : FileTree} {n : Text} {l : Location} {e : Entry}
    (h : t.get? (n :: l) = some e) : t.get? l = some .directory := by
  have hmem := (lookup_eq_some_iff t.distinct).1 h
  exact t.rooted n l (List.mem_map.2 ⟨_, hmem, rfl⟩)

theorem isDirectoryAt_tail {t : FileTree} {l : Location} (h : t.isDirectoryAt l = true) :
    t.isDirectoryAt l.tail = true := by
  rw [isDirectoryAt_iff] at *
  cases l with
  | nil => exact h
  | cons n l => exact get?_eq_directory h

/-- The location is a directory or a file. -/
def IsPlain (t : FileTree) (l : Location) : Prop :=
  t.get? l = some .directory ∨ ∃ content, t.get? l = some (.file content)

/-- A file may be put at the location: there is one, or a directory has room for it. -/
structure CanHoldFile (t : FileTree) (l : Location) : Prop where
  room : t.hasRoomAt l = true
  content : t.get? l = none ∨ ∃ content, t.get? l = some (.file content)

theorem canHoldFile_of_file {t : FileTree} {l : Location} {content : Bytes}
    (h : t.get? l = some (.file content)) : t.CanHoldFile l := by
  refine ⟨?_, Or.inr ⟨content, h⟩⟩
  cases l with
  | nil => simp [get?, entryAt] at h
  | cons n l =>
    rw [hasRoomAt_cons, h]
    exact ⟨get?_eq_directory h, by simp⟩

end FileTree

/-- A walk can end at the place. -/
def Place.IsSound (t : FileTree) : Place → Prop
  | .taken l => t.IsPlain l
  | .free l => t.hasRoomAt l = true ∧ t.get? l = none

/-- A walk can halt there. -/
def Halt.IsSound (t : FileTree) : Halt → Prop
  | .done p => p.IsSound t
  | .link dir _ _ => t.get? dir = some .directory

namespace FileTree

theorem isSound_of_advance {t : FileTree} {l : Location} {steps : List Step} {h : Halt}
    (hl : steps = [] → t.IsPlain l) (hh : t.advance l steps = .ok h) : h.IsSound t := by
  fun_induction advance t l steps with
  | case1 l =>
    obtain rfl : Halt.done (.taken l) = h := by simpa using hh
    exact hl rfl
  | case2 l r ih => exact ih (fun _ => Or.inl rfl) hh
  | case3 l r hdir ih => exact ih (fun _ => Or.inl (isDirectoryAt_iff.1 hdir)) hh
  | case5 l r hdir ih =>
    exact ih (fun _ => Or.inl (isDirectoryAt_iff.1 (isDirectoryAt_tail hdir))) hh
  | case7 l n r hdir target hget =>
    obtain rfl : Halt.link l target r = h := by simpa using hh
    exact isDirectoryAt_iff.1 hdir
  | case8 l n r hdir e hlink hget ih =>
    refine ih (fun _ => ?_) hh
    cases e with
    | file content => exact Or.inr ⟨content, hget⟩
    | directory => exact Or.inl hget
    | link target => exact absurd rfl (hlink target)
  | case9 l n hdir hget =>
    obtain rfl : Halt.done (.free (n :: l)) = h := by simpa using hh
    refine ⟨hasRoomAt_cons.2 ⟨isDirectoryAt_iff.1 hdir, ?_⟩, hget⟩
    simp [hget]
  -- the other walks fail
  | _ => simp at hh

theorem isSound_of_follow {t : FileTree} {links : ℕ} {l : Location} {steps : List Step} {p : Place}
    (hl : steps = [] → t.IsPlain l) (hp : t.follow links l steps = .ok p) : p.IsSound t := by
  fun_induction follow t links l steps with
  | case1 => simp at hp
  | case2 links l steps q hq =>
    obtain rfl : q = p := by simpa using hp
    exact isSound_of_advance hl hq
  | case3 => simp at hp
  | case4 l steps dir target rest hq links ih =>
    -- after a link the walk goes on from the directory of the link
    exact ih (fun _ => Or.inl (isSound_of_advance hl hq)) hp

theorem isSound_of_locate {t : FileTree} {p : Path} {q : Place} (h : t.locate p = .ok q) :
    q.IsSound t := by
  rw [locate] at h
  split at h
  · simp at h
  · next hne => exact isSound_of_follow (fun hnil => absurd hnil (Path.steps_ne_nil hne)) h

/-! ## Walks to the names in one directory -/

/-- A walk of two parts, up to the next link. -/
theorem advance_append (t : FileTree) (l : Location) (d : List Step) {r : List Step} (hr : r ≠ []) :
    t.advance l (d ++ r) =
      match t.advance l d with
      | .error e => .error e
      | .ok (.done (.taken k)) => t.advance k r
      | .ok (.done (.free _)) => .error .notFound
      | .ok (.link dir target rest) => .ok (.link dir target (rest ++ r)) := by
  fun_induction advance t l d with
  | case1 l => rfl
  | case2 l d ih => rw [List.cons_append, advance, ih]
  | case3 l d hdir ih => rw [List.cons_append, advance, if_pos hdir, ih]
  | case4 l d hdir => rw [List.cons_append, advance, if_neg hdir]
  | case5 l d hdir ih => rw [List.cons_append, advance, if_pos hdir, ih]
  | case6 l d hdir => rw [List.cons_append, advance, if_neg hdir]
  | case7 l n d hdir target hget => rw [List.cons_append, advance, if_pos hdir, hget]
  | case8 l n d hdir e hlink hget ih =>
    rw [List.cons_append, advance, if_pos hdir, hget]
    cases e with
    | link target => exact absurd rfl (hlink target)
    | file content => exact ih
    | directory => exact ih
  | case9 l n hdir hget => simp [advance, hdir, hget, hr]
  | case10 l n d hdir hget hd => simp [advance, hdir, hget, hd]
  | case11 l n d hdir => rw [List.cons_append, advance, if_neg hdir]

/-- A walk of one name ends at an entry only if there is one of this name. -/
theorem get?_ne_none_of_advance {t : FileTree} {l : Location} {n : Text} {h : Halt}
    (hh : t.advance l [.name n] = .ok h) (hfree : ∀ k, h ≠ .done (.free k)) :
    t.get? (n :: l) ≠ none := by
  intro hnone
  rw [advance, hnone] at hh
  split at hh
  · simp only [if_pos, Except.ok.injEq] at hh
    exact hfree _ hh.symm
  · simp at hh

/-- **Walks that differ in their last name only** come to entries of one directory. -/
theorem exists_get?_of_follow (t : FileTree) (links : ℕ) (l : Location) (d : List Step) :
    ∃ dir, ∀ n k, t.follow links l (d ++ [.name n]) = .ok (.taken k) →
      t.get? (n :: dir) ≠ none := by
  induction links using Nat.strong_induction_on generalizing l d with
  | _ links ih =>
    have happend := fun n => advance_append t l d (List.cons_ne_nil (Step.name n) [])
    cases hd : t.advance l d with
    | error e =>
      refine ⟨[], fun n k hk => ?_⟩
      rw [follow, happend, hd] at hk
      simp at hk
    | ok h =>
      cases h with
      | done p =>
        cases p with
        | taken dir =>
          refine ⟨dir, fun n k hk => ?_⟩
          rw [follow, happend, hd] at hk
          cases hlast : t.advance dir [.name n] with
          | error e => simp [hlast] at hk
          | ok h =>
            refine get?_ne_none_of_advance hlast fun j hj => ?_
            simp [hlast, hj] at hk
        | free dir =>
          refine ⟨[], fun n k hk => ?_⟩
          rw [follow, happend, hd] at hk
          simp at hk
      | link dir target rest =>
        cases links with
        | zero =>
          refine ⟨[], fun n k hk => ?_⟩
          rw [follow, happend, hd] at hk
          simp at hk
        | succ links =>
          obtain ⟨dir', hdir⟩ := ih links (Nat.lt_succ_self links) dir (target.steps ++ rest)
          refine ⟨dir', fun n k hk => hdir n k ?_⟩
          rw [follow, happend, hd] at hk
          rwa [List.append_assoc]

end FileTree

/-! ## Walks after a file is put -/

/-- The place, when there is a file at `k` now. -/
def Place.filled (k : Location) : Place → Place
  | .taken l => .taken l
  | .free l => if l = k then .taken l else .free l

/-- The halt, when there is a file at `k` now. -/
def Halt.filled (k : Location) : Halt → Halt
  | .done p => .done (p.filled k)
  | .link dir target rest => .link dir target rest

namespace FileTree

@[simp]
theorem working_set (t : FileTree) (l : Location) (e : Entry) :
    (t.set l e).working = t.working := by
  rw [set]
  split <;> rfl

section SetFile

variable {t : FileTree} {k : Location} (hk : t.CanHoldFile k) (content : Bytes)
include hk

theorem get?_set_file (l : Location) :
    (t.set k (.file content)).get? l = if l = k then some (.file content) else t.get? l := by
  rw [get?_set]
  simp [hk.room]

theorem canHoldFile_set_file : (t.set k (.file content)).CanHoldFile k :=
  canHoldFile_of_file (by rw [get?_set_file hk, if_pos rfl])

theorem isDirectoryAt_set_file (l : Location) :
    (t.set k (.file content)).isDirectoryAt l = t.isDirectoryAt l := by
  rw [isDirectoryAt, isDirectoryAt, get?_set_file hk]
  split
  · next h =>
    rcases hk.content with hnone | ⟨c, hc⟩
    · simp [h, hnone]
    · simp [h, hc]
  · rfl

theorem advance_set_file {l : Location} {steps : List Step} {h : Halt}
    (hh : t.advance l steps = .ok h) :
    (t.set k (.file content)).advance l steps = .ok (h.filled k) := by
  fun_induction advance t l steps with
  | case1 l =>
    obtain rfl : Halt.done (.taken l) = h := by simpa using hh
    rfl
  | case2 l r ih =>
    rw [advance]
    exact ih hh
  | case3 l r hdir ih =>
    rw [advance, isDirectoryAt_set_file hk, if_pos hdir]
    exact ih hh
  | case5 l r hdir ih =>
    rw [advance, isDirectoryAt_set_file hk, if_pos hdir]
    exact ih hh
  | case7 l n r hdir target hget =>
    obtain rfl : Halt.link l target r = h := by simpa using hh
    -- no file is put in place of a link
    have hne : n :: l ≠ k := by
      rintro rfl
      rcases hk.content with hnone | ⟨c, hc⟩
      · simp [hnone] at hget
      · simp [hc] at hget
    rw [advance, isDirectoryAt_set_file hk, if_pos hdir, get?_set_file hk, if_neg hne, hget]
    rfl
  | case8 l n r hdir e hlink hget ih =>
    rw [advance, isDirectoryAt_set_file hk, if_pos hdir, get?_set_file hk]
    by_cases heq : n :: l = k
    · rw [if_pos heq]
      exact ih hh
    · rw [if_neg heq, hget]
      cases e with
      | link target => exact absurd rfl (hlink target)
      | file c => exact ih hh
      | directory => exact ih hh
  | case9 l n hdir hget =>
    obtain rfl : Halt.done (.free (n :: l)) = h := by simpa using hh
    rw [advance, isDirectoryAt_set_file hk, if_pos hdir, get?_set_file hk]
    by_cases heq : n :: l = k
    · rw [if_pos heq]
      simp [advance, Halt.filled, Place.filled, heq]
    · rw [if_neg heq, hget]
      simp [Halt.filled, Place.filled, heq]
  | _ => simp at hh

theorem follow_set_file {links : ℕ} {l : Location} {steps : List Step} {p : Place}
    (hp : t.follow links l steps = .ok p) :
    (t.set k (.file content)).follow links l steps = .ok (p.filled k) := by
  fun_induction follow t links l steps with
  | case1 => simp at hp
  | case2 links l steps q hq =>
    obtain rfl : q = p := by simpa using hp
    rw [follow, advance_set_file hk content hq]
    rfl
  | case3 => simp at hp
  | case4 l steps dir target rest hq links ih =>
    rw [follow, advance_set_file hk content hq]
    exact ih hp

/-- **To put a file changes no walk**, but for what stands at its end. -/
theorem locate_set_file {p : Path} {q : Place} (h : t.locate p = .ok q) :
    (t.set k (.file content)).locate p = .ok (q.filled k) := by
  rw [locate] at h ⊢
  split at h
  · simp at h
  · next hne =>
    rw [if_neg hne, working_set]
    exact follow_set_file hk content h

end SetFile

end FileTree

end Marginalia
