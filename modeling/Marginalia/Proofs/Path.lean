import Mathlib.Data.List.Lex
import Mathlib.Data.Prod.Lex
import Marginalia.Proofs.FileTree.Neighbours

/-!
# Joined paths, and the order of paths

To join the names of a way down to a path, one after the other, is to join the way as it is spelled
(`Path.foldl_join`), and each name adds one component (`Path.components_foldl_join`). So ways of
different names are different paths, also by their components.

Paths are compared by a list of keys, one for each component (`Path.le_iff`). Paths in order
therefore ascend strictly if they have different components (`Path.pairwise_sort`).
-/

namespace Marginalia

/-! ## Order -/

section Keys

variable {α : Type} [LinearOrder α]

theorem cons_le_cons_iff {a b : α} {x y : List α} : a :: x ≤ b :: y ↔ a < b ∨ a = b ∧ x ≤ y := by
  rw [← not_lt, List.cons_lt_cons_iff, not_or, not_and, not_lt, not_lt]
  constructor
  · rintro ⟨hab, hxy⟩
    rcases hab.lt_or_eq with hlt | heq
    · exact Or.inl hlt
    · exact Or.inr ⟨heq, hxy heq.symm⟩
  · rintro (hlt | ⟨rfl, hxy⟩)
    · exact ⟨hlt.le, fun heq => absurd heq.symm hlt.ne⟩
    · exact ⟨le_rfl, fun _ => hxy⟩

theorem nil_le_list (x : List α) : [] ≤ x := by
  rw [← not_lt]
  exact List.not_lt_nil x

end Keys

theorem Text.le_iff {a b : Text} : a.le b = true ↔ a.map Char.toNat ≤ b.map Char.toNat := by
  induction a generalizing b with
  | nil => simp [Text.le, nil_le_list]
  | cons c r ih =>
    cases b with
    | nil => simp [Text.le]
    | cons d s =>
      rw [Text.le, List.map_cons, List.map_cons, cons_le_cons_iff]
      by_cases hcd : c = d
      · rw [if_pos hcd, ih, hcd]
        simp
      · have hne : c.toNat ≠ d.toNat := fun h => hcd (Char.toNat_inj.1 h)
        simp [hcd, hne]

namespace Step

/-- The place of a step in the order: its rank, and its name by the code points. -/
def key : Step → ℕ ×ₗ List ℕ
  | root => toLex (0, [])
  | here => toLex (1, [])
  | parent => toLex (2, [])
  | name n => toLex (3, n.map Char.toNat)

theorem key_injective : Function.Injective key := by
  have hchars : Function.Injective (List.map Char.toNat) :=
    List.map_injective_iff.2 fun _ _ => Char.toNat_inj.1
  intro a b h
  cases a <;> cases b <;> simp_all [key, hchars.eq_iff]

theorem le_iff {a b : Step} : le a b = true ↔ a.key ≤ b.key := by
  cases a <;> cases b <;> simp [le, key, Prod.Lex.toLex_le_toLex, Text.le_iff]

theorem listLe_iff {x y : List Step} : listLe x y = true ↔ x.map key ≤ y.map key := by
  induction x generalizing y with
  | nil => simp [listLe, nil_le_list]
  | cons a x ih =>
    cases y with
    | nil => simp [listLe]
    | cons b y =>
      rw [listLe, List.map_cons, List.map_cons, cons_le_cons_iff]
      by_cases hab : a = b
      · rw [if_pos hab, ih, hab]
        simp
      · have hne : a.key ≠ b.key := fun h => hab (key_injective h)
        rw [if_neg hab, le_iff]
        simp [hne, le_iff_lt_or_eq]

end Step

namespace Path

/-- The keys of the components. -/
def orderKey (p : Path) : List (ℕ ×ₗ List ℕ) := p.components.map Step.key

theorem le_iff {p q : Path} : p.le q = true ↔ p.orderKey ≤ q.orderKey := Step.listLe_iff

theorem le_total (p q : Path) : (p.le q || q.le p) = true := by
  rw [Bool.or_eq_true, le_iff, le_iff]
  exact Std.le_total

theorem le_trans {p q r : Path} (hpq : p.le q = true) (hqr : q.le r = true) : p.le r = true :=
  le_iff.2 ((le_iff.1 hpq).trans (le_iff.1 hqr))

theorem components_eq_of_orderKey {p q : Path} (h : p.orderKey = q.orderKey) :
    p.components = q.components :=
  List.map_injective_iff.2 Step.key_injective h

/-- **Paths in order** ascend strictly, if no two have the same components. -/
theorem pairwise_sort {ps : List Path} (h : (ps.map components).Nodup) :
    (sort ps).Pairwise fun p q => p.le q = true ∧ q.le p = false := by
  have hsorted : (sort ps).Pairwise fun p q => p.le q = true :=
    @List.pairwise_mergeSort _ le (fun _ _ _ => le_trans) le_total ps
  have hperm := (List.mergeSort_perm ps le).map components
  have hdistinct : (sort ps).Pairwise fun p q => p.components ≠ q.components :=
    List.pairwise_map.1 (hperm.nodup_iff.2 h)
  refine (hsorted.and hdistinct).imp fun {p q} ⟨hle, hne⟩ => ⟨hle, ?_⟩
  rw [← Bool.not_eq_true, le_iff]
  exact fun hge => hne (components_eq_of_orderKey ((le_iff.1 hle).antisymm hge))

/-! ## Joining -/

/-- The names that are joined to a path stand behind one and the same text. -/
theorem exists_join_eq (p : Path) : ∃ u, IsOpen u ∧ ∀ n, p.join n = ⟨u ++ n⟩ := by
  cases hlast : p.text.getLast? with
  | none =>
    refine ⟨[], by simp [IsOpen], fun n => ?_⟩
    rw [join, List.getLast?_eq_none_iff.1 hlast]
    rfl
  | some c =>
    by_cases hc : c = '/'
    · subst hc
      exact ⟨p.text, by simp [IsOpen, hlast], join_of_slash hlast⟩
    · refine ⟨p.text ++ ['/'], by simp [IsOpen], fun n => ?_⟩
      rw [join_of_ne_slash hlast hc, List.append_assoc]
      rfl

theorem join_join (p : Path) {n : Text} (hn : n ≠ []) (hslash : '/' ∉ n) (w : Text) :
    (p.join n).join w = p.join (n ++ '/' :: w) := by
  obtain ⟨u, -, hu⟩ := p.exists_join_eq
  obtain ⟨m, c, rfl⟩ := (List.eq_nil_or_concat n).resolve_left hn
  have hc : c ≠ '/' := by
    rintro rfl
    simp at hslash
  have hlast : (u ++ m.concat c).getLast? = some c := by simp
  rw [hu, hu, join_of_ne_slash hlast hc, List.append_assoc]

/-- The names of entries. -/
def AreNames (ns : List Text) : Prop := ∀ n ∈ ns, Step.ofPiece n = .name n ∧ '/' ∉ n

theorem ne_nil_of_ofPiece {n : Text} (h : Step.ofPiece n = .name n) : n ≠ [] := by
  rintro rfl
  exact Step.noConfusion h

/-- **To join a way**, name by name, is to join it as it is spelled. -/
theorem foldl_join {ns : List Text} (hns : AreNames ns) (hne : ns ≠ []) (p : Path) :
    ns.foldl join p = p.join (Text.joinWith ['/'] ns) := by
  induction ns generalizing p with
  | nil => exact absurd rfl hne
  | cons n ns ih =>
    obtain ⟨⟨hname, hslash⟩, hns⟩ := List.forall_mem_cons.1 hns
    rw [List.foldl_cons]
    cases ns with
    | nil => rfl
    | cons m ns =>
      rw [ih hns (by simp), join_join p (ne_nil_of_ofPiece hname) hslash,
        Text.joinWith_cons _ n (List.cons_ne_nil m ns)]
      simp

theorem components_of_steps {p : Path} {s : Step} {r : List Step} (h : p.steps = s :: r) :
    p.components = s :: r.filter (· ≠ .here) := by
  rw [components, h]

/-- A name that is joined to a path is a step more, in place of the idle one behind a slash. -/
theorem exists_steps_join {p : Path} (hp : p.text ≠ []) : ∃ s r,
    p.components = s :: r.filter (· ≠ .here) ∧
      ∀ n, '/' ∉ n → (p.join n).steps = s :: (r ++ [Step.ofPiece n]) := by
  obtain ⟨v, c, hv⟩ := (List.eq_nil_or_concat p.text).resolve_left hp
  rw [List.concat_eq_append] at hv
  have hlast : p.text.getLast? = some c := by rw [hv, List.getLast?_concat]
  by_cases hc : c = '/'
  · subst hc
    have hself : p = ⟨v ++ '/' :: []⟩ := congrArg Path.mk hv
    have hjoin : ∀ n, p.join n = ⟨v ++ '/' :: n⟩ := fun n => by
      rw [join_of_slash hlast, hv, List.append_assoc]
      rfl
    -- what stands in front of the slash is empty at the top only
    obtain ⟨s, r, hsteps⟩ : ∃ s r, ∀ n, '/' ∉ n →
        steps ⟨v ++ '/' :: n⟩ = s :: (r ++ [Step.ofPiece n]) := by
      by_cases hroot : v = []
      · refine ⟨.root, [], fun n hn => ?_⟩
        rw [steps, pieces, if_neg (by simp), Literal.splitAt_append_cons,
          Literal.splitAt_of_notMem hn, hroot]
        rfl
      · obtain ⟨s, r, hsr⟩ := List.exists_cons_of_ne_nil (steps_ne_nil (p := ⟨v⟩) hroot)
        refine ⟨s, r, fun n hn => ?_⟩
        rw [steps_append_slash (p := ⟨v⟩) hroot hn, hsr, List.cons_append]
    refine ⟨s, r, ?_, fun n hn => ?_⟩
    · rw [hself, components_of_steps (hsteps [] (by simp))]
      simp [Step.ofPiece]
    · rw [hjoin]
      exact hsteps n hn
  · obtain ⟨s, r, hsr⟩ := List.exists_cons_of_ne_nil (steps_ne_nil hp)
    refine ⟨s, r, components_of_steps hsr, fun n hn => ?_⟩
    rw [join_of_ne_slash hlast hc, steps_append_slash hp hn, hsr, List.cons_append]

/-- A name that is joined to a path is a component more. -/
theorem components_join {p : Path} (hp : p.text ≠ []) {n : Text} (hname : Step.ofPiece n = .name n)
    (hslash : '/' ∉ n) : (p.join n).components = p.components ++ [.name n] := by
  obtain ⟨s, r, hcomponents, hjoin⟩ := exists_steps_join hp
  rw [components_of_steps (hjoin n hslash), hcomponents, hname]
  simp

theorem components_foldl_join {p : Path} (hp : p.text ≠ []) {ns : List Text} (hns : AreNames ns) :
    (ns.foldl join p).components = p.components ++ ns.map Step.name := by
  induction ns generalizing p with
  | nil => simp
  | cons n ns ih =>
    obtain ⟨⟨hname, hslash⟩, hns⟩ := List.forall_mem_cons.1 hns
    have hne : (p.join n).text ≠ [] := by
      obtain ⟨u, -, hu⟩ := p.exists_join_eq
      simp [hu, ne_nil_of_ofPiece hname]
    rw [List.foldl_cons, ih hne hns, components_join hp hname hslash]
    simp

end Path

end Marginalia
