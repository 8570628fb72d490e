import Marginalia.Proofs.Position
import Marginalia.Proofs.Token.Piece
import Marginalia.Token.Scan

/-!
# Tokens tile the source

The tokens of a source cover it from its first character to its last: each stands where it says,
and between two of them there is only white space or a backslash with its line break. `Tiles`
states this for a text at a position, together with what each kind of token is made of
(`Token.Fits`), and `tiles_of_scan` proves it of every result of the scanner. Everything that is
needed about the places of tokens is then read off `Tiles`, without the scanner and its layout:

* a token in the middle splits the text in two (`Tiles.split`);
* tokens stand in order (`Tiles.le_start`);
* after a comment, code stands on a later line (`Tiles.line_lt_of_endsLine`);
* code on the line where a text begins is reached over white space only, and what is reached
  first can be seen and is no comment (`Tiles.exists_code`).
-/

namespace Marginalia

/-- Whether tokens of this kind are code: names, numbers, operators and string literals. -/
def TokenKind.isCode : TokenKind → Bool
  | .name | .number | .op | .string => true
  | _ => false

/-- What may stand between two tokens: a character of white space, or a backslash with its line
break. -/
inductive IsGap : Text → Prop
  | space {c : Char} (hc : isInlineSpace c = true) : IsGap [c]
  | continuation {g : Text} (hg : g = ['\\', '\n'] ∨ g = ['\\', '\r', '\n']) : IsGap g

/-- Before its line ends, the text has carriage returns only. -/
def EndsLine (t : Text) : Prop :=
  ∃ x z, t = x ++ z ∧ (∀ c ∈ x, c = '\r') ∧ ∀ c ∈ z.head?, c = '\n'

/-- Only behind a line feed can anything else stand. -/
theorem EndsLine.lineFeed_mem {a b : Text} {c : Char} (h : EndsLine (a ++ c :: b)) (hlf : c ≠ '\n')
    (hcr : c ≠ '\r') : '\n' ∈ a := by
  obtain ⟨x, z, hxz, hx, hz⟩ := h
  rcases List.append_eq_append_iff.1 hxz with ⟨w, rfl, hw⟩ | ⟨w, rfl, hw⟩
  · cases w with
    | nil =>
      rw [List.nil_append] at hw
      exact absurd (hz c (by simp [← hw])) hlf
    | cons d w =>
      obtain ⟨rfl, -⟩ := List.cons.inj hw
      exact absurd (hx c (by simp)) hcr
  · cases w with
    | nil => exact absurd (hz c (by simp [hw])) hlf
    | cons d w =>
      obtain rfl := hz d (by simp [hw])
      simp

/-- The token may stand in front of `rest`. -/
inductive Token.Fits : Token → Text → Prop
  | code {k : TokenKind} {x : Text} {p : Position} {rest : Text} (hk : k.isCode = true)
      (hx : IsCodeText x) : Token.Fits (Token.at k x p) rest
  | comment {y : Text} {p : Position} {rest : Text} (hy : '\n' ∉ y) (hrest : EndsLine rest) :
      Token.Fits (Token.at .comment ('#' :: y) p) rest
  /-- A line break stops on its own line. -/
  | lineFeed {k : TokenKind} {p : Position} {rest : Text} (hk : k = .newline ∨ k = .lineBreak) :
      Token.Fits ⟨k, ['\n'], p, ⟨p.line, p.column + 1⟩⟩ rest
  | indent {x : Text} {p : Position} {rest : Text} (hx : ∀ c ∈ x, isInlineSpace c = true) :
      Token.Fits (Token.at .indent x p) rest
  /-- The end of a logical line has no character only at the end of the text. -/
  | empty {k : TokenKind} {p : Position} {rest : Text}
      (hk : k = .newline ∧ rest = [] ∨ k = .dedent ∨ k = .endMarker) :
      Token.Fits ⟨k, [], p, p⟩ rest

/-- The text, which stands at a position, is made up of the tokens, each where it says, and of
gaps. -/
inductive Tiles : Position → Text → List Token → Prop
  | nil {p : Position} : Tiles p [] []
  | gap {p : Position} {g r : Text} {ts : List Token} (hg : IsGap g)
      (h : Tiles (p.advanceBy g) r ts) : Tiles p (g ++ r) ts
  | token {p : Position} {u : Token} {r : Text} {ts : List Token} (hu : u.Fits r)
      (hp : u.start = p) (h : Tiles (p.advanceBy u.text) r ts) : Tiles p (u.text ++ r) (u :: ts)

/-! ## The scanner -/

namespace Tiles

/-- White space in front. -/
theorem spaces {p : Position} {x r : Text} {ts : List Token}
    (hx : ∀ c ∈ x, isInlineSpace c = true) (h : Tiles (p.advanceBy x) r ts) :
    Tiles p (x ++ r) ts := by
  induction x generalizing p with
  | nil => exact h
  | cons c x ih =>
    refine gap (g := [c]) (.space (hx c List.mem_cons_self)) ?_
    exact ih (fun d hd => hx d (List.mem_cons_of_mem c hd)) h

/-- Tokens without characters in front. -/
theorem empties {p : Position} {t : Text} {us ts : List Token}
    (hu : ∀ u ∈ us, u.Fits t ∧ u.text = [] ∧ u.start = p) (h : Tiles p t ts) :
    Tiles p t (us ++ ts) := by
  induction us with
  | nil => exact h
  | cons u us ih =>
    obtain ⟨hfits, hnil, hp⟩ := hu u List.mem_cons_self
    have hrest : Tiles (p.advanceBy u.text) t (us ++ ts) := by
      rw [hnil]
      exact ih fun v hv => hu v (List.mem_cons_of_mem u hv)
    have := token hfits hp hrest
    rwa [hnil] at this

end Tiles

theorem tiles_of_finish {l : Layout} {p : Position} {ts : List Token} (h : finish l p = .ok ts) :
    Tiles p [] ts := by
  rw [finish] at h
  split at h
  · simp at h
  · rw [Except.ok.injEq] at h
    rw [← List.append_nil ts, ← h]
    refine Tiles.empties (fun u hu => ?_) .nil
    simp only [List.mem_append, List.mem_replicate, List.mem_singleton] at hu
    rcases hu with (hu | ⟨-, rfl⟩) | rfl
    · split at hu
      · obtain rfl := List.mem_singleton.1 hu
        exact ⟨.empty (by simp), rfl, rfl⟩
      · simp at hu
    · exact ⟨.empty (by simp), rfl, rfl⟩
    · exact ⟨.empty (by simp), rfl, rfl⟩

theorem tiles_of_openLine {indents indents' : List ℕ} {p : Position} {ws rest : Text}
    {us ts : List Token} (hws : ∀ c ∈ ws, isInlineSpace c = true)
    (h : openLine indents p ws rest = .ok (us, indents'))
    (hts : Tiles (p.advanceBy ws) rest ts) : Tiles p (ws ++ rest) (us ++ ts) := by
  simp only [openLine] at h
  split_ifs at h
  · obtain ⟨rfl, -⟩ : [] = us ∧ _ := by simpa using h
    exact Tiles.spaces hws hts
  · obtain ⟨rfl, -⟩ : [_] = us ∧ _ := by simpa using h
    exact Tiles.token (.indent hws) rfl hts
  · obtain ⟨rfl, -⟩ : List.replicate _ _ = us ∧ _ := by simpa using h
    refine Tiles.spaces hws (Tiles.empties (fun u hu => ?_) hts)
    obtain rfl := (List.mem_replicate.1 hu).2
    exact ⟨.empty (by simp), rfl, rfl⟩

theorem tiles_of_place {l l' : Layout} {p : Position} {x rest : Text} {k : Piece}
    {u : Option Token} {ts : List Token} (hk : k.Fits x rest) (h : place l p x k = .ok (u, l'))
    (hts : Tiles (p.advanceBy x) rest ts) : Tiles p (x ++ rest) (u.toList ++ ts) := by
  cases hk with
  | space hc =>
    obtain ⟨rfl, -⟩ : none = u ∧ _ := by simpa [place] using h
    exact .gap (.space hc) hts
  | continuation hx =>
    obtain ⟨rfl, -⟩ : none = u ∧ _ := by simpa [place] using h
    exact .gap (.continuation hx) hts
  | lineBreak =>
    obtain ⟨rfl, -⟩ : some _ = u ∧ _ := by simpa [place] using h
    refine .token (.lineFeed ?_) rfl hts
    split <;> simp
  | @comment y _ hy hrest =>
    obtain ⟨rfl, -⟩ : some _ = u ∧ _ := by simpa [place] using h
    -- the carriage returns that are trimmed are white space after the comment
    obtain ⟨z, hz, hcr⟩ := Text.exists_trimEnd_append (· == '\r') y
    have hcr' : ∀ c ∈ z, c = '\r' := fun c hc => by simpa using hcr c hc
    have htrim : Text.trimEnd (· == '\r') ('#' :: y) = '#' :: Text.trimEnd (· == '\r') y := by
      rw [Text.trimEnd_cons, if_neg (by simp)]
    have hsplit : '#' :: y ++ rest = ('#' :: Text.trimEnd (· == '\r') y) ++ (z ++ rest) := by
      conv_lhs => rw [hz]
      simp
    have hts' : Tiles (p.advanceBy ('#' :: Text.trimEnd (· == '\r') y)) (z ++ rest) ts := by
      refine Tiles.spaces (fun c hc => by rw [hcr' c hc]; decide) ?_
      rwa [← Position.advanceBy_append, List.cons_append, ← hz]
    rw [hsplit, htrim]
    exact .token (.comment (fun hmem => hy ((Text.trimEnd_isPrefix _ y).subset hmem))
      ⟨z, rest, rfl, hcr', hrest⟩) rfl hts'
  | code hk hx =>
    rcases hk with rfl | rfl | rfl | rfl
    · obtain ⟨rfl, -⟩ : some _ = u ∧ _ := by simpa [place] using h
      exact .token (.code rfl hx) rfl hts
    · obtain ⟨rfl, -⟩ : some _ = u ∧ _ := by simpa [place] using h
      exact .token (.code rfl hx) rfl hts
    · obtain ⟨rfl, -⟩ : some _ = u ∧ _ := by simpa [place] using h
      exact .token (.code rfl hx) rfl hts
    · simp only [place] at h
      split at h
      · obtain ⟨rfl, -⟩ : some _ = u ∧ _ := by simpa using h
        exact .token (.code rfl hx) rfl hts
      · simp at h

theorem exists_of_map_eq_ok {ε α β : Type} {f : α → β} {x : Except ε α} {b : β}
    (h : x.map f = .ok b) : ∃ a, x = .ok a ∧ f a = b := by
  cases x with
  | error e => simp [Except.map] at h
  | ok a => exact ⟨a, rfl, by simpa [Except.map] using h⟩

/-- **The tokens that the scanner finds tile the text.** -/
theorem tiles_of_scan {l : Layout} {p : Position} {t : Text} {ts : List Token}
    (h : scan l p t = .ok ts) : Tiles p t ts := by
  fun_induction scan l p t generalizing ts with
  | case1 => simp at h
  | case2 l p t _ _ _ us indents hopen =>
    rename_i ih
    obtain ⟨ts', hts, rfl⟩ := exists_of_map_eq_ok h
    rw [← List.takeWhile_append_dropWhile (p := isInlineSpace) (l := t)]
    exact tiles_of_openLine (fun c hc => List.mem_takeWhile_imp hc) hopen (ih hts)
  | case3 => exact tiles_of_finish h
  | case4 => simp at h
  | case5 => simp at h
  | case6 l p _ c r k n hread _ u l' hplace =>
    rename_i ih
    obtain ⟨ts', hts, rfl⟩ := exists_of_map_eq_ok h
    have := tiles_of_place (Piece.fits_of_read hread).2 hplace (ih hts)
    rwa [List.cons_append, List.take_append_drop] at this

/-- A source is a byte order mark or nothing, and then a text that its tokens tile. -/
theorem tiles_of_tokenize {source : Text} {ts : List Token} (h : tokenize source = .ok ts) :
    ∃ m t, source = m ++ t ∧ (m = [] ∨ m = [byteOrderMark]) ∧
      Tiles (Position.origin.advanceBy m) t ts := by
  simp only [tokenize, splitByteOrderMark] at h
  split at h
  · exact ⟨[byteOrderMark], _, rfl, .inr rfl, tiles_of_scan h⟩
  · exact ⟨[], _, rfl, .inl rfl, tiles_of_scan h⟩

/-! ## Where tokens come from -/

theorem of_mem_finish {l : Layout} {p : Position} {ts : List Token} (h : finish l p = .ok ts)
    {u : Token} (hu : u ∈ ts) :
    (u.kind.isLayout = true ∨ u.kind = .endMarker) ∧ u.text = [] := by
  rw [finish] at h
  split at h
  · simp at h
  · obtain rfl := Except.ok.inj h
    simp only [List.mem_append, List.mem_replicate, List.mem_singleton] at hu
    rcases hu with (hu | ⟨-, rfl⟩) | rfl
    · split at hu
      · rw [List.mem_singleton.1 hu]
        exact ⟨.inl rfl, rfl⟩
      · simp at hu
    · exact ⟨.inl rfl, rfl⟩
    · exact ⟨.inr rfl, rfl⟩

/-- The tokens at the start of a line stand within its white space. -/
theorem of_mem_openLine {indents opened : List ℕ} {p : Position} {ws rest : Text}
    {us : List Token} (h : openLine indents p ws rest = .ok (us, opened)) {u : Token}
    (hu : u ∈ us) :
    u.start.advanceBy u.text = p.advanceBy ws ∧ u.text ⊆ ws ∧ u.kind.isLayout = true := by
  simp only [openLine] at h
  split_ifs at h
  · obtain ⟨rfl, -⟩ : [] = us ∧ _ := by simpa using h
    simp at hu
  · obtain ⟨rfl, -⟩ : [_] = us ∧ _ := by simpa using h
    obtain rfl := List.mem_singleton.1 hu
    exact ⟨rfl, List.Subset.refl ws, rfl⟩
  · obtain ⟨rfl, -⟩ : List.replicate _ _ = us ∧ _ := by simpa using h
    obtain rfl := (List.mem_replicate.1 hu).2
    exact ⟨rfl, List.nil_subset ws, rfl⟩

/-- **A token is one of layout or the end marker, or it stands for a piece that was read.** -/
theorem exists_place_of_scan {l : Layout} {p : Position} {t : Text} {ts : List Token}
    (h : scan l p t = .ok ts) {u : Token} (hu : u ∈ ts) :
    (u.kind.isLayout = true ∨ u.kind = .endMarker) ∨
      ∃ c r k n l₁ l₂ q, Piece.read c r = .ok (k, n) ∧
        place l₁ q (c :: r.take n) k = .ok (some u, l₂) := by
  fun_induction scan l p t generalizing ts with
  | case1 => simp at h
  | case2 l p t _ _ _ us indents hopen =>
    rename_i ih
    obtain ⟨ts', hts, rfl⟩ := exists_of_map_eq_ok h
    rcases List.mem_append.1 hu with hu | hu
    · exact .inl (.inl (of_mem_openLine hopen hu).2.2)
    · exact ih hts hu
  | case3 => exact .inl (of_mem_finish h hu).1
  | case4 => simp at h
  | case5 => simp at h
  | case6 l p _ c r k n hread _ v l' hplace =>
    rename_i ih
    obtain ⟨ts', hts, rfl⟩ := exists_of_map_eq_ok h
    rcases List.mem_append.1 hu with hu | hu
    · obtain rfl : v = some u := by simpa using hu
      exact .inr ⟨c, r, k, n, l, l', p, hread, hplace⟩
    · exact ih hts hu

/-! ## The ends of comments -/

/-- The comment of a piece is trimmed. -/
theorem exists_trimEnd_of_place {l l' : Layout} {p : Position} {x : Text} {k : Piece} {u : Token}
    (h : place l p x k = .ok (some u, l')) (hk : u.kind = .comment) :
    ∃ y, u.text = Text.trimEnd (· == '\r') y := by
  cases k with
  | comment =>
    obtain ⟨rfl, -⟩ : Token.at .comment (Text.trimEnd (· == '\r') x) p = u ∧ _ := by
      simpa [place] using h
    exact ⟨x, rfl⟩
  | lineBreak =>
    obtain ⟨rfl, -⟩ : _ = u ∧ _ := by simpa [place] using h
    simp only at hk
    split at hk <;> simp at hk
  | op =>
    simp only [place] at h
    split at h
    · obtain ⟨rfl, -⟩ : Token.at .op x p = u ∧ _ := by simpa using h
      simp [Token.at] at hk
    · simp at h
  | space => simp [place] at h
  | continuation => simp [place] at h
  | string | name | number =>
    obtain ⟨rfl, -⟩ : Token.at _ x p = u ∧ _ := by simpa [place] using h
    simp [Token.at] at hk

/-- **Comments are trimmed**: they do not end in a carriage return. -/
theorem exists_trimEnd_of_scan {l : Layout} {p : Position} {t : Text} {ts : List Token}
    (h : scan l p t = .ok ts) {u : Token} (hu : u ∈ ts) (hk : u.kind = .comment) :
    ∃ y, u.text = Text.trimEnd (· == '\r') y := by
  rcases exists_place_of_scan h hu with hlayout | ⟨_, _, _, _, _, _, _, -, hplace⟩
  · simp [hk, TokenKind.isLayout] at hlayout
  · exact exists_trimEnd_of_place hplace hk

/-! ## Places of tokens -/

theorem Token.Fits.stop_eq {u : Token} {rest : Text} (h : u.Fits rest) (hc : u.kind.isCode = true) :
    u.stop = u.start.advanceBy u.text ∧ IsCodeText u.text := by
  cases h with
  | code _ hx => exact ⟨rfl, hx⟩
  | comment => simp [Token.at, TokenKind.isCode] at hc
  | lineFeed hk => rcases hk with rfl | rfl <;> simp [TokenKind.isCode] at hc
  | indent => simp [Token.at, TokenKind.isCode] at hc
  | empty hk => rcases hk with ⟨rfl, -⟩ | rfl | rfl <;> simp [TokenKind.isCode] at hc

theorem Token.Fits.of_comment {u : Token} {rest : Text} (h : u.Fits rest)
    (hk : u.kind = .comment) : ∃ y, u.text = '#' :: y ∧ '\n' ∉ y ∧ EndsLine rest := by
  cases h with
  | comment hy hrest => exact ⟨_, rfl, hy, hrest⟩
  | code hk' =>
    simp only [Token.at] at hk
    simp [hk, TokenKind.isCode] at hk'
  | lineFeed hk' =>
    simp only at hk
    simp [hk] at hk'
  | indent => simp [Token.at] at hk
  | empty hk' =>
    simp only at hk
    simp [hk] at hk'

namespace Tiles

variable {p : Position} {t : Text} {ts : List Token}

/-- **A token splits the text** into what stands before it and after it. -/
theorem split (h : Tiles p t ts) {i : ℕ} {u : Token} (hu : ts[i]? = some u) :
    ∃ a b, t = a ++ u.text ++ b ∧ p.advanceBy a = u.start ∧ u.Fits b ∧
      Tiles (u.start.advanceBy u.text) b (ts.drop (i + 1)) := by
  induction h generalizing i with
  | nil => simp at hu
  | @gap p g r ts _ _ ih =>
    obtain ⟨a, b, rfl, hp, hfits, hb⟩ := ih hu
    exact ⟨g ++ a, b, by simp, by rw [Position.advanceBy_append, hp], hfits, hb⟩
  | @token p v r ts hv hp h ih =>
    cases i with
    | zero =>
      obtain rfl : v = u := by simpa using hu
      exact ⟨[], r, rfl, hp.symm, hv, hp ▸ h⟩
    | succ i =>
      obtain ⟨a, b, rfl, hp', hfits, hb⟩ := ih (by simpa using hu)
      exact ⟨v.text ++ a, b, by simp, by rw [Position.advanceBy_append, hp'], hfits, hb⟩

theorem le_start (h : Tiles p t ts) {u : Token} (hu : u ∈ ts) : p ≤ u.start := by
  obtain ⟨i, hi⟩ := List.getElem?_of_mem hu
  obtain ⟨a, _, -, ha, -⟩ := h.split hi
  rw [← ha]
  exact Position.le_advanceBy p a

/-- After the rest of a line without code, a token stands on a later line. -/
theorem line_lt_of_head? (h : Tiles p t ts) (ht : EndsLine t) {u : Token} (hu : u ∈ ts) {c : Char}
    (hc : u.text.head? = some c) (hlf : c ≠ '\n') (hcr : c ≠ '\r') : p.line < u.start.line := by
  obtain ⟨i, hi⟩ := List.getElem?_of_mem hu
  obtain ⟨a, b, hab, ha, -⟩ := h.split hi
  obtain ⟨y, hy⟩ := List.head?_eq_some_iff.1 hc
  rw [hab, hy, List.append_assoc, List.cons_append] at ht
  rw [← ha]
  exact Position.line_lt_advanceBy p (ht.lineFeed_mem hlf hcr)

/-- After the rest of a line without code, code stands on a later line. -/
theorem line_lt_of_endsLine (h : Tiles p t ts) (ht : EndsLine t) {u : Token} (hu : u ∈ ts)
    (hc : u.kind.isCode = true) : p.line < u.start.line := by
  obtain ⟨i, hi⟩ := List.getElem?_of_mem hu
  obtain ⟨_, _, -, -, hfits, -⟩ := h.split hi
  obtain ⟨c, hhead, hblank, -⟩ := (hfits.stop_eq hc).2.head
  exact h.line_lt_of_head? ht hu hhead (ne_of_isBlankChar hblank (by decide))
    (ne_of_isBlankChar hblank (by decide))

/-- After the rest of a line without code, a comment stands on a later line. -/
theorem line_lt_of_endsLine_of_comment (h : Tiles p t ts) (ht : EndsLine t) {u : Token}
    (hu : u ∈ ts) (hk : u.kind = .comment) : p.line < u.start.line := by
  obtain ⟨i, hi⟩ := List.getElem?_of_mem hu
  obtain ⟨_, _, -, -, hfits, -⟩ := h.split hi
  obtain ⟨y, hy, -⟩ := hfits.of_comment hk
  exact h.line_lt_of_head? ht hu (c := '#') (by rw [hy]; rfl) (by decide) (by decide)

/-- **A number sign behind white space is a comment.** -/
theorem exists_comment (h : Tiles p t ts) {x y : Text} (ht : t = x ++ '#' :: y)
    (hx : ∀ c ∈ x, isSpace c = true) (hlf : '\n' ∉ x) :
    ∃ u ∈ ts, u.kind = .comment ∧ u.start.line = p.line := by
  induction h generalizing x with
  | nil => simp at ht
  | @gap p g r ts hg h ih =>
    cases x with
    | nil =>
      cases hg with
      | space hc =>
        obtain ⟨rfl, -⟩ := List.cons.inj ht
        exact absurd hc (by decide)
      | continuation hg => rcases hg with rfl | rfl <;> simp at ht
    | cons d x =>
      obtain ⟨hd, hx'⟩ := List.forall_mem_cons.1 hx
      obtain ⟨hdlf, hlf'⟩ := not_or.1 (mt List.mem_cons.2 hlf)
      cases hg with
      | @space c hc =>
        obtain ⟨rfl, rfl⟩ := List.cons.inj ht
        rw [← Position.line_advanceBy_of_notMem p (t := [c]) (by simpa using hdlf)]
        exact ih rfl hx' hlf'
      | continuation hg =>
        rcases hg with rfl | rfl
        all_goals
          obtain ⟨rfl, -⟩ := List.cons.inj ht
          exact absurd hd (by decide)
  | @token p u r ts hu hp h ih =>
    cases hu with
    | comment => exact ⟨_, List.mem_cons_self, rfl, congrArg Position.line hp⟩
    | @code k z _ _ _ hcode =>
      obtain ⟨c, hhead, hblank, hsign⟩ := hcode.head
      obtain ⟨w, rfl⟩ := List.head?_eq_some_iff.1 hhead
      cases x with
      | nil => exact absurd (List.cons.inj ht).1 hsign
      | cons d x =>
        obtain ⟨rfl, -⟩ := List.cons.inj ht
        have hspace := hx c List.mem_cons_self
        rw [isBlankChar, hspace] at hblank
        exact Bool.noConfusion hblank
    | lineFeed =>
      cases x with
      | nil => simp at ht
      | cons d x =>
        obtain ⟨rfl, -⟩ := List.cons.inj ht
        exact absurd hlf (by simp)
    | @indent z _ _ hz =>
      obtain ⟨w, rfl, rfl⟩ : ∃ w, x = z ++ w ∧ r = w ++ '#' :: y := by
        rcases List.append_eq_append_iff.1 ht with ⟨w, rfl, hr⟩ | ⟨w, hw, hr⟩
        · exact ⟨w, rfl, hr⟩
        · cases w with
          | nil => exact ⟨[], by simpa [Token.at] using hw.symm, by simpa using hr.symm⟩
          | cons d w =>
            obtain ⟨rfl, -⟩ := List.cons.inj hr
            have hsign : '#' ∈ (Token.at .indent z p).text := hw ▸ by simp
            exact absurd (hz _ hsign) (by decide)
      obtain ⟨hz', hw⟩ := List.forall_mem_append.1 hx
      rw [List.mem_append, not_or] at hlf
      obtain ⟨v, hv, hk, hline⟩ := ih rfl hw hlf.2
      refine ⟨v, List.mem_cons_of_mem _ hv, hk, ?_⟩
      rw [hline]
      exact Position.line_advanceBy_of_notMem p hlf.1
    | empty =>
      obtain ⟨w, hw, h⟩ := ih ht hx hlf
      exact ⟨w, List.mem_cons_of_mem _ hw, h⟩

/-- **Code on the line where the text begins** is reached over white space only: the first
character that is none can be seen, and is no number sign. -/
theorem exists_code (h : Tiles p t ts) {v : Token} (hv : v ∈ ts) (hc : v.kind.isCode = true)
    (hline : v.start.line = p.line) : ∃ x c y, t = x ++ c :: y ∧
      (∀ d ∈ x, isInlineSpace d = true) ∧ isBlankChar c = false ∧ c ≠ '#' := by
  induction h with
  | nil => simp at hv
  | @gap p g r ts hg h ih =>
    cases hg with
    | @space d hd =>
      have hlf : '\n' ∉ [d] := by
        rw [List.mem_singleton]
        rintro rfl
        exact absurd hd (by decide)
      rw [Position.line_advanceBy_of_notMem p hlf] at ih
      obtain ⟨x, c, y, rfl, hx, hc'⟩ := ih hv hline
      exact ⟨d :: x, c, y, rfl, List.forall_mem_cons.2 ⟨hd, hx⟩, hc'⟩
    | continuation hg =>
      have hlt := Position.line_lt_advanceBy p (t := g) (by rcases hg with rfl | rfl <;> decide)
      have := Position.line_le (h.le_start hv)
      omega
  | @token p u r ts hu hp h ih =>
    by_cases hcu : u.kind.isCode = true
    · obtain ⟨c, hhead, hc'⟩ := (hu.stop_eq hcu).2.head
      obtain ⟨y, hy⟩ := List.head?_eq_some_iff.1 hhead
      exact ⟨[], c, y ++ r, by rw [hy]; rfl, by simp, hc'⟩
    · have hvts : v ∈ ts := by
        rcases List.mem_cons.1 hv with rfl | hv
        · exact absurd hc hcu
        · exact hv
      have hle := Position.line_le (h.le_start hvts)
      cases hu with
      | code hk => exact absurd hk hcu
      | @comment y q _ hy hrest =>
        have hlt := h.line_lt_of_endsLine hrest hvts hc
        rw [Position.line_advanceBy_of_notMem p (by simpa [Token.at] using hy)] at hlt
        omega
      | lineFeed =>
        have := Position.line_lt_advanceBy p (t := ['\n']) (by simp)
        simp only at hle
        omega
      | @indent x q _ hx =>
        have hlf : '\n' ∉ x := fun hmem => absurd (hx _ hmem) (by decide)
        simp only [Token.at] at ih ⊢
        rw [Position.line_advanceBy_of_notMem p hlf] at ih
        obtain ⟨x', c, y, rfl, hx', hc'⟩ := ih hvts hline
        refine ⟨x ++ x', c, y, by simp, fun d hd => ?_, hc'⟩
        exact (List.mem_append.1 hd).elim (hx d) (hx' d)
      | empty => exact ih hvts hline

end Tiles

/-! ## The tokens of a source -/

theorem mem_drop_of_lt {ts : List Token} {i j : ℕ} {v : Token} (hij : i < j)
    (hv : ts[j]? = some v) : v ∈ ts.drop (i + 1) := by
  refine List.mem_of_getElem? (i := j - (i + 1)) ?_
  rw [List.getElem?_drop, Nat.add_sub_cancel' hij, hv]

section Tokenize

variable {source : Text} {ts : List Token} (h : tokenize source = .ok ts)
include h

theorem exists_split_of_tokenize {i : ℕ} {u : Token} (hu : ts[i]? = some u) :
    ∃ a b, source = a ++ u.text ++ b ∧ Position.origin.advanceBy a = u.start ∧ u.Fits b ∧
      Tiles (u.start.advanceBy u.text) b (ts.drop (i + 1)) := by
  obtain ⟨m, t, rfl, -, ht⟩ := tiles_of_tokenize h
  obtain ⟨a, b, rfl, ha, hfits, hb⟩ := ht.split hu
  exact ⟨m ++ a, b, by simp, by rw [Position.advanceBy_append, ha], hfits, hb⟩

/-- A token stands where it says. -/
theorem standsAt_of_mem {u : Token} (hu : u ∈ ts) : Text.StandsAt source u.text u.start := by
  obtain ⟨i, hi⟩ := List.getElem?_of_mem hu
  obtain ⟨a, b, hab, ha, -⟩ := exists_split_of_tokenize h hi
  exact ⟨a, b, hab, ha⟩

theorem isCodeText_of_mem {u : Token} (hu : u ∈ ts) (hc : u.kind.isCode = true) :
    u.stop = u.start.advanceBy u.text ∧ IsCodeText u.text := by
  obtain ⟨i, hi⟩ := List.getElem?_of_mem hu
  obtain ⟨_, _, -, -, hfits, -⟩ := exists_split_of_tokenize h hi
  exact hfits.stop_eq hc

/-- The last character of code can be seen, and the code stops on its line, right behind it. -/
theorem exists_last_of_mem {u : Token} (hu : u ∈ ts) (hc : u.kind.isCode = true) :
    ∃ y c, u.text = y ++ [c] ∧ isBlankChar c = false ∧
      u.stop = ⟨(u.start.advanceBy y).line, (u.start.advanceBy y).column + 1⟩ := by
  obtain ⟨hstop, hcode⟩ := isCodeText_of_mem h hu hc
  obtain ⟨c, hlast, hblank⟩ := hcode.last
  obtain ⟨y, hy⟩ := List.getLast?_eq_some_iff.1 hlast
  have hlf : c ≠ '\n' := ne_of_isBlankChar hblank (by decide)
  refine ⟨y, c, hy, hblank, ?_⟩
  rw [hstop, hy, Position.advanceBy_append, Position.advanceBy_cons, Position.advance, if_neg hlf,
    Position.advanceBy_nil]

/-- **Tokens stand in order**: the next one starts where the characters of the one before it end,
or behind. -/
theorem advanceBy_text_le_start {i j : ℕ} {u v : Token} (hu : ts[i]? = some u)
    (hv : ts[j]? = some v) (hij : i < j) : u.start.advanceBy u.text ≤ v.start := by
  obtain ⟨_, _, -, -, -, hb⟩ := exists_split_of_tokenize h hu
  exact hb.le_start (mem_drop_of_lt hij hv)

theorem start_le_start {i j : ℕ} {u v : Token} (hu : ts[i]? = some u) (hv : ts[j]? = some v)
    (hij : i ≤ j) : u.start ≤ v.start := by
  rcases hij.eq_or_lt with rfl | hij
  · obtain rfl : u = v := by simpa [hu] using hv
    exact le_rfl
  · exact (Position.le_advanceBy ..).trans (advanceBy_text_le_start h hu hv hij)

theorem stop_le_stop {i j : ℕ} {u v : Token} (hu : ts[i]? = some u) (hv : ts[j]? = some v)
    (hcu : u.kind.isCode = true) (hcv : v.kind.isCode = true) (hij : i ≤ j) :
    u.stop ≤ v.stop := by
  rw [(isCodeText_of_mem h (List.mem_of_getElem? hu) hcu).1,
    (isCodeText_of_mem h (List.mem_of_getElem? hv) hcv).1]
  rcases hij.eq_or_lt with rfl | hij
  · obtain rfl : u = v := by simpa [hu] using hv
    exact le_rfl
  · exact (advanceBy_text_le_start h hu hv hij).trans (Position.le_advanceBy ..)

/-- What a comment is made of, and what can stand behind it. -/
theorem of_comment {i : ℕ} {u : Token} (hu : ts[i]? = some u) (hk : u.kind = .comment) :
    ∃ y b, u.text = '#' :: y ∧ '\n' ∉ y ∧ EndsLine b ∧
      Tiles (u.start.advanceBy u.text) b (ts.drop (i + 1)) := by
  obtain ⟨_, b, -, -, hfits, hb⟩ := exists_split_of_tokenize h hu
  obtain ⟨y, hy, hlf, hends⟩ := hfits.of_comment hk
  exact ⟨y, b, hy, hlf, hends, hb⟩

theorem getLast?_ne_of_comment {u : Token} (hu : u ∈ ts) (hk : u.kind = .comment) :
    u.text.getLast? ≠ some '\r' := by
  obtain ⟨y, hy⟩ := exists_trimEnd_of_scan h hu hk
  intro hlast
  rw [hy] at hlast
  exact absurd (Text.getLast?_trimEnd hlast) (by decide)

/-- After a comment, code stands on a later line. -/
theorem line_lt_of_comment {i j : ℕ} {u v : Token} (hu : ts[i]? = some u)
    (hk : u.kind = .comment) (hv : ts[j]? = some v) (hc : v.kind.isCode = true) (hij : i < j) :
    u.start.line < v.start.line := by
  obtain ⟨y, b, hy, hlf, hrest, hb⟩ := of_comment h hu hk
  have hlt := hb.line_lt_of_endsLine hrest (mem_drop_of_lt hij hv) hc
  rwa [Position.line_advanceBy_of_notMem _ (by simp [hy, hlf])] at hlt

/-- After the end of a logical line, code stands on a later line. -/
theorem line_lt_of_newline {i j : ℕ} {u v : Token} (hu : ts[i]? = some u)
    (hk : u.kind = .newline) (hv : ts[j]? = some v) (hc : v.kind.isCode = true) (hij : i < j) :
    u.start.line < v.start.line := by
  obtain ⟨_, b, -, -, hfits, hb⟩ := exists_split_of_tokenize h hu
  have hmem := mem_drop_of_lt hij hv
  have hle := Position.line_le (hb.le_start hmem)
  cases hfits with
  | code hk' =>
    simp only [Token.at] at hk
    simp [hk, TokenKind.isCode] at hk'
  | @lineFeed _ p =>
    exact (Position.line_lt_advanceBy p (t := ['\n']) (by simp)).trans_le hle
  | empty hk' =>
    -- behind it there is no text left for the code
    simp only at hk
    obtain rfl : b = [] := by simpa [hk] using hk'
    obtain ⟨k, hk⟩ := List.getElem?_of_mem hmem
    obtain ⟨x, y, hxy, -, hfits, -⟩ := hb.split hk
    have hnil : x = [] ∧ v.text = [] ∧ y = [] := by simpa using hxy
    exact absurd hnil.2.1 (hfits.stop_eq hc).2.ne_nil
  | comment | indent => simp [Token.at] at hk

/-- After a comment, a comment stands on a later line. -/
theorem line_lt_of_comment_of_comment {i j : ℕ} {u v : Token} (hu : ts[i]? = some u)
    (hku : u.kind = .comment) (hv : ts[j]? = some v) (hkv : v.kind = .comment) (hij : i < j) :
    u.start.line < v.start.line := by
  obtain ⟨y, b, hy, hlf, hends, hb⟩ := of_comment h hu hku
  have hlt := hb.line_lt_of_endsLine_of_comment hends (mem_drop_of_lt hij hv) hkv
  rwa [Position.line_advanceBy_of_notMem _ (by simp [hy, hlf])] at hlt

/-- **A line has one comment at most.** -/
theorem eq_of_comment_of_comment {u v : Token} (hu : u ∈ ts) (hku : u.kind = .comment) (hv : v ∈ ts)
    (hkv : v.kind = .comment) (hline : u.start.line = v.start.line) : u = v := by
  obtain ⟨i, hi⟩ := List.getElem?_of_mem hu
  obtain ⟨j, hj⟩ := List.getElem?_of_mem hv
  rcases Nat.lt_trichotomy i j with hij | rfl | hij
  · exact absurd hline (line_lt_of_comment_of_comment h hi hku hj hkv hij).ne
  · exact Option.some_inj.1 (hi.symm.trans hj)
  · exact absurd hline (line_lt_of_comment_of_comment h hj hkv hi hku hij).ne'

end Tokenize

end Marginalia
