import Mathlib.Algebra.Group.Int.Defs
import Mathlib.Data.List.Infix
import Marginalia.Proofs.Token.Tiling

/-!
# Logical lines and blocks

The layout tokens of a source give its outline: which tokens make up a logical line, and which
lines make up a block. `IsOutlined` says what can be relied on. Blocks are closed in the order they
were opened, brackets likewise, neither is left open at the end, and a logical line is never cut by
the start or the end of a block (`isOutlined_of_tokenize`).

What may come next is known from three things: the number of open blocks, the number of open
brackets, and whether a logical line has begun. `Outlines` is the judgment on these three and the
tokens still to come, with one rule for each kind of token. The scanner keeps more than that in
its layout, but every step of it is one of these rules (`outlines_of_scan`), and the statements on
all the tokens are inductions on the judgment alone.
-/

namespace Marginalia

/-! ## Outlines -/

/-- By how many the open brackets become more with the token. -/
def Token.bracketStep (u : Token) : ℤ :=
  match u.kind, u.text with
  | .op, [c] => if isOpening c then 1 else if isClosing c then -1 else 0
  | _, _ => 0

/-- The opening brackets among the tokens less the closing ones. -/
def bracketDepth : List Token → ℤ
  | [] => 0
  | u :: us => u.bracketStep + bracketDepth us

/-- How many of the tokens are of this kind. -/
def kindCount (k : TokenKind) (us : List Token) : ℕ := us.countP (·.kind = k)

/-- Whether tokens of this kind belong to no logical line. -/
def TokenKind.isAside : TokenKind → Bool
  | .comment | .lineBreak | .indent | .dedent => true
  | _ => false

/-- The tokens are logical lines, one behind the other, and an end marker: a logical line has code
and then its end. -/
inductive AreLogicalLines : List Token → Prop
  | endMarker {e : Token} (he : e.kind = .endMarker) : AreLogicalLines [e]
  | line {run us : List Token} {n : Token} (hne : run ≠ [])
      (hrun : ∀ u ∈ run, u.kind.isCode = true) (hn : n.kind = .newline) (h : AreLogicalLines us) :
      AreLogicalLines (run ++ n :: us)

/-- The tokens have well-formed blocks and logical lines. -/
structure IsOutlined (ts : List Token) : Prop where
  endMarker : ∃ us e, ts = us ++ [e] ∧ e.kind = .endMarker ∧ ∀ u ∈ us, u.kind ≠ .endMarker
  dedents_le : ∀ us, us <+: ts → kindCount .dedent us ≤ kindCount .indent us
  dedents_eq : kindCount .dedent ts = kindCount .indent ts
  depth_nonneg : ∀ us, us <+: ts → 0 ≤ bracketDepth us
  depth_eq : bracketDepth ts = 0
  /-- Logical lines end, and blocks open and close, outside brackets. -/
  outside : ∀ us u vs, ts = us ++ u :: vs →
    u.kind = .newline ∨ u.kind = .indent ∨ u.kind = .dedent → bracketDepth us = 0
  lines : AreLogicalLines (ts.filter fun u => !u.kind.isAside)
  /-- From its first token `u` to its end, a logical line opens and closes no block, and goes on to
  another line only within brackets. -/
  inside : ∀ us u vs w ws, ts = us ++ u :: (vs ++ w :: ws) → u.kind.isCode = true →
    (∀ v ∈ vs, v.kind ≠ .newline) → w.kind ≠ .indent ∧ w.kind ≠ .dedent ∧
      (w.kind = .lineBreak → 0 < bracketDepth (us ++ u :: vs))

/-- The tokens may follow when `blocks` blocks and `depth` brackets are open, and a logical line
has begun or not. -/
inductive Outlines : (blocks depth : ℕ) → (inStatement : Bool) → List Token → Prop
  | endMarker {e : Token} (he : e.kind = .endMarker) : Outlines 0 0 false [e]
  | comment {b d : ℕ} {s : Bool} {u : Token} {us : List Token} (hu : u.kind = .comment)
      (h : Outlines b d s us) : Outlines b d s (u :: us)
  | code {b d d' : ℕ} {s : Bool} {u : Token} {us : List Token} (hu : u.kind.isCode = true)
      (hd : (d' : ℤ) = d + u.bracketStep) (h : Outlines b d' true us) : Outlines b d s (u :: us)
  | newline {b : ℕ} {u : Token} {us : List Token} (hu : u.kind = .newline)
      (h : Outlines b 0 false us) : Outlines b 0 true (u :: us)
  | lineBreak {b d : ℕ} {s : Bool} {u : Token} {us : List Token} (hu : u.kind = .lineBreak)
      (hd : s = true → 0 < d) (h : Outlines b d s us) : Outlines b d s (u :: us)
  | indent {b : ℕ} {u : Token} {us : List Token} (hu : u.kind = .indent)
      (h : Outlines (b + 1) 0 false us) : Outlines b 0 false (u :: us)
  | dedent {b : ℕ} {u : Token} {us : List Token} (hu : u.kind = .dedent)
      (h : Outlines b 0 false us) : Outlines (b + 1) 0 false (u :: us)

/-! ## Counting -/

theorem Token.bracketStep_of_ne {u : Token} (h : u.kind ≠ .op) : u.bracketStep = 0 := by
  rw [bracketStep.eq_def]
  split
  · next hk _ => exact absurd hk h
  · rfl

@[simp]
theorem bracketDepth_nil : bracketDepth [] = 0 := rfl

@[simp]
theorem bracketDepth_cons (u : Token) (us : List Token) :
    bracketDepth (u :: us) = u.bracketStep + bracketDepth us := rfl

@[simp]
theorem bracketDepth_append (us vs : List Token) :
    bracketDepth (us ++ vs) = bracketDepth us + bracketDepth vs := by
  induction us with
  | nil => simp
  | cons u us ih => simp [ih, add_assoc]

@[simp]
theorem kindCount_nil (k : TokenKind) : kindCount k [] = 0 := rfl

@[simp]
theorem kindCount_cons (k : TokenKind) (u : Token) (us : List Token) :
    kindCount k (u :: us) = kindCount k us + if u.kind = k then 1 else 0 := by
  simp [kindCount, List.countP_cons]

@[simp]
theorem kindCount_append (k : TokenKind) (us vs : List Token) :
    kindCount k (us ++ vs) = kindCount k us + kindCount k vs := by
  simp [kindCount]

theorem TokenKind.ne_of_isCode {k k' : TokenKind} (hk : k.isCode = true) (hk' : k'.isCode = false) :
    k ≠ k' := by
  rintro rfl
  rw [hk] at hk'
  exact Bool.noConfusion hk'

namespace Outlines

variable {b d : ℕ} {s : Bool}

/-! ## What is open in front of a token -/

/-- **One token**: what it opens and closes. -/
theorem of_cons {u : Token} {us : List Token} (h : Outlines b d s (u :: us)) (hus : us ≠ []) :
    ∃ b' d' s', Outlines b' d' s' us ∧ b' + kindCount .dedent [u] = b + kindCount .indent [u] ∧
      (d' : ℤ) = d + u.bracketStep := by
  cases h with
  | endMarker => exact absurd rfl hus
  | code hu hd h =>
    refine ⟨_, _, _, h, ?_, hd⟩
    simp [TokenKind.ne_of_isCode hu (rfl : TokenKind.indent.isCode = false),
      TokenKind.ne_of_isCode hu (rfl : TokenKind.dedent.isCode = false)]
  | comment hu h | newline hu h | lineBreak hu _ h | indent hu h | dedent hu h =>
    refine ⟨_, _, _, h, by simp [hu], ?_⟩
    rw [Token.bracketStep_of_ne (by simp [hu]), add_zero]

/-- **A run of tokens**: the counts tell what is open behind it. -/
theorem of_append {us vs : List Token} (h : Outlines b d s (us ++ vs)) (hvs : vs ≠ []) :
    ∃ b' d' s', Outlines b' d' s' vs ∧ b' + kindCount .dedent us = b + kindCount .indent us ∧
      (d' : ℤ) = d + bracketDepth us := by
  induction us generalizing b d s with
  | nil => exact ⟨b, d, s, h, by simp, by simp⟩
  | cons u us ih =>
    obtain ⟨b₁, d₁, s₁, h₁, hb₁, hd₁⟩ := of_cons h (by simp [hvs])
    obtain ⟨b', d', s', h', hb', hd'⟩ := ih h₁
    refine ⟨b', d', s', h', ?_, ?_⟩
    · simp only [kindCount_cons, kindCount_nil] at hb₁ ⊢
      omega
    · rw [bracketDepth_cons, ← add_assoc, ← hd₁, hd']

/-- Code begins a logical line, or goes on with one. -/
theorem of_cons_code {u : Token} {us : List Token} (h : Outlines b d s (u :: us))
    (hu : u.kind.isCode = true) :
    ∃ d' : ℕ, Outlines b d' true us ∧ (d' : ℤ) = d + u.bracketStep := by
  cases h with
  | code _ hd h => exact ⟨_, h, hd⟩
  | endMarker hk | comment hk | newline hk | lineBreak hk | indent hk | dedent hk =>
    exact absurd hk (TokenKind.ne_of_isCode hu rfl)

/-- One token within a logical line, if it is not the end of the line. -/
theorem of_cons_inStatement {u : Token} {us : List Token} (h : Outlines b d true (u :: us))
    (hu : u.kind ≠ .newline) : (∃ d' : ℕ, Outlines b d' true us ∧ (d' : ℤ) = d + u.bracketStep) ∧
      u.kind ≠ .indent ∧ u.kind ≠ .dedent ∧ (u.kind = .lineBreak → 0 < d) := by
  cases h with
  | newline hk => exact absurd hk hu
  | code hk hd h =>
    refine ⟨⟨_, h, hd⟩, TokenKind.ne_of_isCode hk rfl, TokenKind.ne_of_isCode hk rfl, fun hk' => ?_⟩
    exact absurd hk' (TokenKind.ne_of_isCode hk rfl)
  | comment hk h =>
    refine ⟨⟨_, h, ?_⟩, by simp [hk]⟩
    rw [Token.bracketStep_of_ne (by simp [hk]), add_zero]
  | lineBreak hk hd h =>
    refine ⟨⟨_, h, ?_⟩, by simp [hk], by simp [hk], fun _ => hd rfl⟩
    rw [Token.bracketStep_of_ne (by simp [hk]), add_zero]

/-- A logical line goes on until its end. -/
theorem of_append_inStatement {us vs : List Token} (h : Outlines b d true (us ++ vs))
    (hus : ∀ u ∈ us, u.kind ≠ .newline) :
    ∃ d' : ℕ, Outlines b d' true vs ∧ (d' : ℤ) = d + bracketDepth us := by
  induction us generalizing d with
  | nil => exact ⟨d, h, by simp⟩
  | cons u us ih =>
    obtain ⟨hu, hus⟩ := List.forall_mem_cons.1 hus
    obtain ⟨⟨d₁, h₁, hd₁⟩, -⟩ := of_cons_inStatement h hu
    obtain ⟨d', h', hd'⟩ := ih h₁ hus
    exact ⟨d', h', by rw [bracketDepth_cons, ← add_assoc, ← hd₁, hd']⟩

/-! ## The tokens as a whole -/

theorem exists_endMarker {ts : List Token} (h : Outlines b d s ts) :
    ∃ us e, ts = us ++ [e] ∧ e.kind = .endMarker ∧ ∀ u ∈ us, u.kind ≠ .endMarker := by
  induction h with
  | endMarker he => exact ⟨[], _, rfl, he, by simp⟩
  | code hu _ _ ih =>
    obtain ⟨us, e, rfl, he, hus⟩ := ih
    exact ⟨_ :: us, e, rfl, he, List.forall_mem_cons.2 ⟨TokenKind.ne_of_isCode hu rfl, hus⟩⟩
  | comment hu _ ih | newline hu _ ih | lineBreak hu _ _ ih | indent hu _ ih | dedent hu _ ih =>
    obtain ⟨us, e, rfl, he, hus⟩ := ih
    exact ⟨_ :: us, e, rfl, he, List.forall_mem_cons.2 ⟨by simp [hu], hus⟩⟩

/-- The tokens go on with logical lines, the first of which may have begun with `run`. -/
theorem areLogicalLines {ts : List Token} (h : Outlines b d s ts) {run : List Token}
    (hrun : ∀ u ∈ run, u.kind.isCode = true) (hs : s = true ↔ run ≠ []) :
    AreLogicalLines (run ++ ts.filter fun u => !u.kind.isAside) := by
  have hnil : ∀ {run : List Token}, (false = true ↔ run ≠ []) → run = [] := fun h => by
    simpa using h
  induction h generalizing run with
  | endMarker he =>
    rw [hnil hs, List.filter_cons_of_pos (by simp [he, TokenKind.isAside])]
    exact .endMarker he
  | @code b d d' s u us hu hd h ih =>
    have haside : u.kind.isAside = false := by
      cases hk : u.kind <;> simp_all [TokenKind.isCode, TokenKind.isAside]
    rw [List.filter_cons_of_pos (by simp [haside]), List.append_cons]
    refine ih (fun v hv => ?_) (by simp)
    rcases List.mem_append.1 hv with hv | hv
    · exact hrun v hv
    · rwa [List.mem_singleton.1 hv]
  | newline hu h ih =>
    rw [List.filter_cons_of_pos (by simp [hu, TokenKind.isAside])]
    exact .line (hs.1 rfl) hrun hu (@ih [] (by simp) (by simp))
  | comment hu h ih | lineBreak hu hd h ih | indent hu h ih | dedent hu h ih =>
    rw [List.filter_cons_of_neg (by simp [hu, TokenKind.isAside])]
    exact ih hrun hs

theorem ne_nil {ts : List Token} (h : Outlines b d s ts) : ts ≠ [] := by
  cases h <;> simp

/-- At the end nothing is open. -/
theorem of_singleton {e : Token} (h : Outlines b d s [e]) :
    b = 0 ∧ d = 0 ∧ e.kind = .endMarker := by
  cases h with
  | endMarker he => exact ⟨rfl, rfl, he⟩
  | comment _ h | code _ _ h | newline _ h | lineBreak _ _ h | indent _ h | dedent _ h =>
    exact absurd rfl h.ne_nil

section Whole

variable {ts : List Token} (h : Outlines 0 0 false ts)
include h

theorem of_split {us vs : List Token} (hts : ts = us ++ vs) (hvs : vs ≠ []) :
    ∃ b d s, Outlines b d s vs ∧ b + kindCount .dedent us = kindCount .indent us ∧
      (d : ℤ) = bracketDepth us := by
  subst hts
  obtain ⟨b, d, s, h', hb, hd⟩ := h.of_append hvs
  exact ⟨b, d, s, h', by omega, by omega⟩

theorem counts_eq :
    kindCount .dedent ts = kindCount .indent ts ∧ bracketDepth ts = 0 := by
  obtain ⟨us, e, rfl, he, -⟩ := h.exists_endMarker
  obtain ⟨b, d, s, h', hb, hd⟩ := h.of_split rfl (List.cons_ne_nil e [])
  obtain ⟨rfl, rfl, -⟩ := h'.of_singleton
  rw [Nat.zero_add] at hb
  refine ⟨by simp [hb, he], ?_⟩
  rw [bracketDepth_append, ← hd, bracketDepth_cons, Token.bracketStep_of_ne (by simp [he])]
  rfl

theorem counts_of_isPrefix {us : List Token} (hus : us <+: ts) :
    kindCount .dedent us ≤ kindCount .indent us ∧ 0 ≤ bracketDepth us := by
  obtain ⟨vs, rfl⟩ := hus
  by_cases hvs : vs = []
  · subst hvs
    rw [List.append_nil] at h
    exact ⟨h.counts_eq.1.le, h.counts_eq.2.ge⟩
  · obtain ⟨b, d, s, -, hb, hd⟩ := h.of_split rfl hvs
    exact ⟨by omega, by omega⟩

/-- **The judgment gives the outline.** -/
theorem isOutlined : IsOutlined ts where
  endMarker := h.exists_endMarker
  dedents_le us hus := (h.counts_of_isPrefix hus).1
  dedents_eq := h.counts_eq.1
  depth_nonneg us hus := (h.counts_of_isPrefix hus).2
  depth_eq := h.counts_eq.2
  outside us u vs hts hu := by
    obtain ⟨b, d, s, h', -, hd⟩ := h.of_split hts (List.cons_ne_nil u vs)
    rw [← hd]
    cases h' with
    | newline | indent | dedent | endMarker => rfl
    | comment hk | lineBreak hk => simp [hk] at hu
    | code hk =>
      rcases hu with hu | hu | hu
      all_goals exact absurd hu (TokenKind.ne_of_isCode hk rfl)
  lines := @areLogicalLines _ _ _ _ h [] (by simp) (by simp)
  inside us u vs w ws hts hu hvs := by
    by_cases hw : w.kind = .newline
    · simp [hw]
    obtain ⟨b, d, s, h', -, hd⟩ := h.of_split hts (List.cons_ne_nil _ _)
    obtain ⟨d₁, h₁, hd₁⟩ := h'.of_cons_code hu
    obtain ⟨d₂, h₂, hd₂⟩ := h₁.of_append_inStatement hvs
    obtain ⟨-, hindent, hdedent, hbreak⟩ := h₂.of_cons_inStatement hw
    refine ⟨hindent, hdedent, fun hk => ?_⟩
    have hpos := hbreak hk
    rw [bracketDepth_append, bracketDepth_cons, ← hd, ← add_assoc, ← hd₁, ← hd₂]
    omega

end Whole

end Outlines

/-! ## The scanner -/

/-- A line starts only where no bracket is open and no logical line has begun. -/
def Layout.IsSound (l : Layout) : Prop :=
  l.atLineStart = true → l.depth = 0 ∧ l.inStatement = false

/-- The tokens may follow behind those that left the layout. -/
def Layout.Outlines (l : Layout) (ts : List Token) : Prop :=
  Marginalia.Outlines l.indents.length l.depth l.inStatement ts

/-- Blocks that close one after the other. -/
theorem Outlines.dedents {b : ℕ} {u : Token} {us : List Token} (hu : u.kind = .dedent)
    (h : Outlines b 0 false us) (n : ℕ) : Outlines (b + n) 0 false (List.replicate n u ++ us) := by
  induction n with
  | zero => exact h
  | succ n ih => exact .dedent hu ih

theorem outlines_of_openLine {indents opened : List ℕ} {p : Position} {ws rest : Text}
    {us ts : List Token} (h : openLine indents p ws rest = .ok (us, opened))
    (hts : Outlines opened.length 0 false ts) : Outlines indents.length 0 false (us ++ ts) := by
  simp only [openLine] at h
  split_ifs at h
  · obtain ⟨rfl, rfl⟩ : [] = us ∧ indents = opened := by simpa using h
    exact hts
  · obtain ⟨rfl, rfl⟩ : [_] = us ∧ indentWidth ws :: indents = opened := by simpa using h
    exact .indent rfl hts
  · obtain ⟨rfl, rfl⟩ :
        List.replicate _ _ = us ∧ keptIndents (indentWidth ws) indents = opened := by
      simpa using h
    have hle : (keptIndents (indentWidth ws) indents).length ≤ indents.length :=
      (List.dropWhile_suffix _).length_le
    have hclose := hts.dedents (u := ⟨.dedent, [], p.advanceBy ws, p.advanceBy ws⟩) rfl
      (indents.length - (keptIndents (indentWidth ws) indents).length)
    rwa [Nat.add_sub_cancel' hle] at hclose

theorem outlines_of_finish {l : Layout} {p : Position} {ts : List Token}
    (h : finish l p = .ok ts) : l.Outlines ts := by
  rw [finish] at h
  split at h
  · simp at h
  · next hdepth =>
    have hclose := (Outlines.endMarker (e := ⟨.endMarker, [], p, p⟩) rfl).dedents
      (u := ⟨.dedent, [], p, p⟩) rfl l.indents.length
    rw [Nat.zero_add] at hclose
    rw [Layout.Outlines, Nat.eq_zero_of_not_pos hdepth, ← Except.ok.inj h, List.append_assoc]
    cases l.inStatement with
    | true => exact .newline rfl hclose
    | false => exact hclose

theorem bracketStep_of_depthAfter {depth depth' line : ℕ} {x : Text} {p : Position}
    (h : depthAfter depth line x = .ok depth') :
    (depth' : ℤ) = depth + (Token.at .op x p).bracketStep := by
  rw [depthAfter.eq_def] at h
  split at h
  · next c =>
    simp only [Token.bracketStep, Token.at]
    split_ifs at h ⊢ with hopen hclose
    · rw [← Except.ok.inj h]
      rfl
    · split at h
      · simp at h
      · rw [← Except.ok.inj h]
        omega
    · rw [← Except.ok.inj h, add_zero]
  · next hx =>
    rw [Except.ok.inj h, Token.bracketStep.eq_def]
    split
    · next c _ htext => exact absurd htext (hx c)
    · rw [add_zero]

/-- **One piece** follows the judgment. -/
theorem outlines_of_place {l l' : Layout} (hl : l.atLineStart = false) {p : Position} {x : Text}
    {k : Piece} {u : Option Token} (h : place l p x k = .ok (u, l')) :
    l'.IsSound ∧ ∀ ts, l'.Outlines ts → l.Outlines (u.toList ++ ts) := by
  have hsound : ∀ {l' : Layout}, l'.atLineStart = false → l'.IsSound := fun h h' => by
    simp [h] at h'
  cases k with
  | space | continuation =>
    obtain ⟨rfl, rfl⟩ : none = u ∧ l = l' := by simpa [place] using h
    exact ⟨hsound hl, fun ts hts => hts⟩
  | comment =>
    obtain ⟨rfl, rfl⟩ : some _ = u ∧ l = l' := by simpa [place] using h
    exact ⟨hsound hl, fun ts hts => .comment rfl hts⟩
  | string | name | number =>
    obtain ⟨rfl, rfl⟩ : some _ = u ∧ _ = l' := by simpa [place] using h
    exact ⟨hsound hl, fun ts hts => .code rfl (by simp [Token.bracketStep_of_ne, Token.at]) hts⟩
  | op =>
    simp only [place] at h
    split at h
    · next depth hdepth =>
      obtain ⟨rfl, rfl⟩ : some _ = u ∧ _ = l' := by simpa using h
      exact ⟨hsound hl, fun ts hts => .code rfl (bracketStep_of_depthAfter hdepth) hts⟩
    · simp at h
  | lineBreak =>
    by_cases hdepth : l.depth = 0
    · simp only [place, if_pos hdepth] at h
      obtain ⟨rfl, rfl⟩ :
          some _ = u ∧ { l with inStatement := false, atLineStart := true } = l' := by
        simpa using h
      refine ⟨fun _ => ⟨hdepth, rfl⟩, fun ts hts => ?_⟩
      rw [Layout.Outlines, hdepth] at hts ⊢
      cases hs : l.inStatement with
      | true => exact .newline (by simp) hts
      | false => exact .lineBreak (by simp) (by simp) hts
    · simp only [place, if_neg hdepth] at h
      obtain ⟨rfl, rfl⟩ : some _ = u ∧ l = l' := by simpa using h
      exact ⟨hsound hl, fun ts hts =>
        .lineBreak (if_neg fun h => hdepth h.1) (fun _ => Nat.pos_of_ne_zero hdepth) hts⟩

/-- **A whole scan** follows the judgment. -/
theorem outlines_of_scan {l : Layout} (hl : l.IsSound) {p : Position} {t : Text} {ts : List Token}
    (h : scan l p t = .ok ts) : l.Outlines ts := by
  fun_induction scan l p t generalizing ts with
  | case1 => simp at h
  | case2 l p t hstart _ _ us indents hopen =>
    rename_i ih
    obtain ⟨ts', hts, rfl⟩ := exists_of_map_eq_ok h
    obtain ⟨hdepth, hstatement⟩ := hl hstart
    have hrest := ih (fun h => Bool.noConfusion h) hts
    rw [Layout.Outlines, hdepth, hstatement] at hrest ⊢
    exact outlines_of_openLine hopen hrest
  | case3 l p hstart => exact outlines_of_finish h
  | case4 => simp at h
  | case5 => simp at h
  | case6 l p hstart c r k n hread _ u l' hplace =>
    rename_i ih
    obtain ⟨ts', hts, rfl⟩ := exists_of_map_eq_ok h
    obtain ⟨hl', hstep⟩ := outlines_of_place (by simpa using hstart) hplace
    exact hstep ts' (ih hl' hts)

theorem outlines_of_tokenize {source : Text} {ts : List Token} (h : tokenize source = .ok ts) :
    Outlines 0 0 false ts :=
  outlines_of_scan (l := .initial) (fun _ => ⟨rfl, rfl⟩) h

/-- **The tokens of a source are outlined**: blocks and brackets are closed as they were opened, and
the rest of the tokens are whole logical lines. -/
theorem isOutlined_of_tokenize {source : Text} {ts : List Token} (h : tokenize source = .ok ts) :
    IsOutlined ts :=
  (outlines_of_tokenize h).isOutlined

/-- A block whose first line is continued right behind its white space, and goes on in brackets. -/
def condition : Text := "if x:  # a\n  \\\n  f(y,\n# b\n)\n\n  'c'".toList

/-- The tokens of `condition`. -/
def conditionTokens : List Token :=
  [.at .name "if".toList ⟨1, 0⟩, .at .name ['x'] ⟨1, 3⟩, .at .op [':'] ⟨1, 4⟩,
   .at .comment "# a".toList ⟨1, 7⟩, ⟨.newline, ['\n'], ⟨1, 10⟩, ⟨1, 11⟩⟩,
   .at .indent "  ".toList ⟨2, 0⟩, .at .name ['f'] ⟨3, 2⟩, .at .op ['('] ⟨3, 3⟩,
   .at .name ['y'] ⟨3, 4⟩, .at .op [','] ⟨3, 5⟩, ⟨.lineBreak, ['\n'], ⟨3, 6⟩, ⟨3, 7⟩⟩,
   .at .comment "# b".toList ⟨4, 0⟩, ⟨.lineBreak, ['\n'], ⟨4, 3⟩, ⟨4, 4⟩⟩, .at .op [')'] ⟨5, 0⟩,
   ⟨.newline, ['\n'], ⟨5, 1⟩, ⟨5, 2⟩⟩, ⟨.lineBreak, ['\n'], ⟨6, 0⟩, ⟨6, 1⟩⟩,
   .at .string "'c'".toList ⟨7, 2⟩, .at .newline [] ⟨7, 5⟩, .at .dedent [] ⟨7, 5⟩,
   .at .endMarker [] ⟨7, 5⟩]

theorem isOutlined_condition : tokenize condition = .ok conditionTokens ∧
    IsOutlined conditionTokens := by
  have htokens : tokenize condition = .ok conditionTokens := by decide +kernel
  exact ⟨htokens, isOutlined_of_tokenize htokens⟩

end Marginalia
