import Marginalia.Proofs.Token.LineBreaks
import Marginalia.Proofs.Token.Quotes

/-!
# How a string literal is delimited

A string token is one literal: the letters of a prefix, a delimiter of one quote or of three, a
body, and the delimiter again (`exists_isDelimited`). The body ends at the first place where the
delimiter stands and is not escaped. What is escaped is said without the scanner, by reading from
the left: `Text.ReadsTo t r` holds when one comes to where `r` is left of `t`, a backslash and the
character behind it being taken as one.

The two questions that are asked of a string token later, for its prefix and whether its quotes are
triple, look at its characters again. They find what the scanner found.
-/

namespace Marginalia

/-- Reading the text from the left, with a backslash and the character behind it taken as one, one
comes to where `r` is left. -/
inductive Text.ReadsTo : Text → Text → Prop
  | here (t : Text) : ReadsTo t t
  | char {c : Char} {t r : Text} (hc : c ≠ '\\') (h : ReadsTo t r) : ReadsTo (c :: t) r
  | escape {c : Char} {t r : Text} (h : ReadsTo t r) : ReadsTo ('\\' :: c :: t) r

/-- Behind the body, the delimiter `d` stands unescaped for the first time. -/
structure ClosesFirst (d body : Text) : Prop where
  reached : (body ++ d).ReadsTo d
  first : ∀ r, (body ++ d).ReadsTo r → d <+: r → r = d

/-- In front of the rest `z` of the text stands a line feed, directly behind a backslash that
escapes it, or behind such a backslash and a carriage return. -/
def IsEscapedLineFeed (t z : Text) : Prop :=
  t.ReadsTo ('\\' :: '\n' :: z) ∨ t.ReadsTo ('\\' :: '\r' :: '\n' :: z)

/-- The text goes on to another line behind a backslash only. -/
def EscapesLineFeeds (t : Text) : Prop :=
  ∀ y z, t = y ++ '\n' :: z → IsEscapedLineFeed t z

/-- The text `x` is a literal with the prefix `pre`, the delimiter `d` and the body `body`. -/
structure IsDelimited (x pre d body : Text) : Prop where
  text_eq : x = pre ++ d ++ body ++ d
  letters : pre = [] ∨ Text.toLower pre ∈ stringPrefixes
  quotes : ∃ q, (q = '"' ∨ q = '\'') ∧ (d = [q] ∨ d = [q, q, q])
  closesFirst : ClosesFirst d body
  escapesLineFeeds : d.length = 1 → EscapesLineFeeds body
  /-- Where three quotes can be read, they are one delimiter. -/
  longest : ∀ q, q = '"' ∨ q = '\'' → [q, q, q] <+: d ++ body ++ d → d = [q, q, q]

/-! ## Reading on -/

theorem Text.ReadsTo.isSuffix {t r : Text} (h : t.ReadsTo r) : r <:+ t := by
  induction h with
  | here => exact List.suffix_refl _
  | char _ _ ih => exact ih.trans (List.suffix_cons ..)
  | escape _ ih => exact ih.trans ((List.suffix_cons ..).trans (List.suffix_cons ..))

theorem Text.ReadsTo.of_cons {c : Char} {t r : Text} (h : ReadsTo (c :: t) r) (hc : c ≠ '\\') :
    r = c :: t ∨ t.ReadsTo r := by
  cases h with
  | here => exact Or.inl rfl
  | char _ h => exact Or.inr h
  | escape => exact absurd rfl hc

theorem Text.ReadsTo.of_escape {c : Char} {t r : Text} (h : ReadsTo ('\\' :: c :: t) r) :
    r = '\\' :: c :: t ∨ t.ReadsTo r := by
  cases h with
  | here => exact Or.inl rfl
  | char hc => exact absurd rfl hc
  | escape h => exact Or.inr h

/-- Where nothing is escaped, one comes to every place. -/
theorem Text.readsTo_append {y : Text} (h : '\\' ∉ y) (r : Text) : (y ++ r).ReadsTo r := by
  induction y with
  | nil => exact .here r
  | cons c y ih =>
    rw [List.mem_cons, not_or] at h
    exact .char (Ne.symm h.1) (ih h.2)

/-- Behind an empty body the delimiter stands at once. -/
theorem closesFirst_nil (d : Text) : ClosesFirst d [] where
  reached := .here d
  first _ hr hdr := (hdr.eq_of_length_le hr.isSuffix.length_le).symm

section ClosesFirst

variable {d body : Text} (h : ClosesFirst d body)
include h

theorem ClosesFirst.cons {c : Char} (hc : c ≠ '\\') (hd : ¬ d <+: c :: (body ++ d)) :
    ClosesFirst d (c :: body) where
  reached := .char hc h.reached
  first r hr hdr := by
    rcases hr.of_cons hc with rfl | hr
    · exact absurd hdr hd
    · exact h.first r hr hdr

theorem ClosesFirst.escape {q : Char} (hd : d.head? = some q) (hq : q ≠ '\\') (c : Char) :
    ClosesFirst d ('\\' :: c :: body) where
  reached := .escape h.reached
  first r hr hdr := by
    rcases hr.of_escape with rfl | hr
    · obtain ⟨d, rfl⟩ := List.head?_eq_some_iff.1 hd
      exact absurd (List.cons_prefix_cons.1 hdr).1 hq
    · exact h.first r hr hdr

end ClosesFirst

/-- The first quote behind the opening one closes a literal between single quotes. -/
theorem ClosesFirst.eq_of_isPrefix {q : Char} {body y r : Text} (h : ClosesFirst [q] body)
    (hquote : q ∉ y) (hbackslash : '\\' ∉ y) (hfront : body ++ [q] <+: y ++ q :: r) :
    body = y := by
  obtain ⟨s, hs⟩ := hfront
  rw [List.append_assoc, List.singleton_append, List.append_eq_append_iff] at hs
  rcases hs with ⟨z, rfl, hz⟩ | ⟨z, rfl, hz⟩
  · cases z with
    | nil => exact (List.append_nil body).symm
    | cons c z =>
      obtain ⟨rfl, -⟩ := List.cons.inj hz
      simp at hquote
  · cases z with
    | nil => exact List.append_nil y
    | cons c z =>
      obtain ⟨rfl, -⟩ := List.cons.inj hz
      have hreads := Text.readsTo_append hbackslash (q :: z ++ [q])
      rw [← List.append_assoc] at hreads
      have heq := h.first _ hreads (List.prefix_append [q] _)
      simp at heq

section EscapesLineFeeds

variable {t : Text} (h : EscapesLineFeeds t)
include h

theorem EscapesLineFeeds.cons {c : Char} (hc : c ≠ '\\') (hlf : c ≠ '\n') :
    EscapesLineFeeds (c :: t) := by
  intro y z hyz
  match y with
  | [] => exact absurd (List.cons.inj hyz).1 hlf
  | e :: y =>
    obtain ⟨rfl, rfl⟩ := List.cons.inj hyz
    exact (h y z rfl).imp (.char hc) (.char hc)

theorem EscapesLineFeeds.escape (c : Char) : EscapesLineFeeds ('\\' :: c :: t) := by
  intro y z hyz
  match y with
  | [] => simp at hyz
  | [e] =>
    obtain ⟨rfl, rfl, rfl⟩ : '\\' = e ∧ c = '\n' ∧ t = z := by simpa using hyz
    exact Or.inl (.here _)
  | e :: e' :: y =>
    obtain ⟨rfl, rfl, rfl⟩ : '\\' = e ∧ c = e' ∧ t = y ++ '\n' :: z := by simpa using hyz
    exact (h y z rfl).imp .escape .escape

/-- A backslash takes a whole line break with it. -/
theorem EscapesLineFeeds.lineBreak : EscapesLineFeeds ('\\' :: '\r' :: '\n' :: t) := by
  intro y z hyz
  match y with
  | [] => simp at hyz
  | [e] => simp at hyz
  | [e, e'] =>
    obtain ⟨rfl, rfl, rfl⟩ : '\\' = e ∧ '\r' = e' ∧ t = z := by simpa using hyz
    exact Or.inr (.here _)
  | e :: e' :: e'' :: y =>
    obtain ⟨rfl, rfl, rfl, rfl⟩ : '\\' = e ∧ '\r' = e' ∧ '\n' = e'' ∧ t = y ++ '\n' :: z := by
      simpa using hyz
    have hline : ∀ {r}, Text.ReadsTo (y ++ '\n' :: z) r →
        Text.ReadsTo ('\\' :: '\r' :: '\n' :: (y ++ '\n' :: z)) r :=
      fun h => .escape (.char (by decide) h)
    exact (h y z rfl).imp hline hline

end EscapesLineFeeds

/-! ## What the scanner measures -/

/-- **A literal between single quotes** ends at the first quote, on its line. -/
theorem exists_body_of_shortBody? {q : Char} (hbackslash : q ≠ '\\') (hlf : q ≠ '\n') {t : Text}
    {n : ℕ} (h : shortBody? q t = some n) :
    ∃ body, t.take n = body ++ [q] ∧ ClosesFirst [q] body ∧ EscapesLineFeeds body := by
  fun_induction shortBody? q t generalizing n with
  | case1 => simp at h
  | case2 => simp at h
  | case3 r ih =>
    obtain ⟨m, hm, rfl⟩ := Option.map_eq_some_iff.1 h
    obtain ⟨body, hbody, hcloses, hescapes⟩ := ih hm
    exact ⟨'\\' :: '\r' :: '\n' :: body, by simp [hbody],
      (hcloses.cons (by decide) fun hq => hlf (List.cons_prefix_cons.1 hq).1).escape rfl hbackslash
        '\r', hescapes.lineBreak⟩
  | case4 c r _ ih =>
    obtain ⟨m, hm, rfl⟩ := Option.map_eq_some_iff.1 h
    obtain ⟨body, hbody, hcloses, hescapes⟩ := ih hm
    exact ⟨'\\' :: c :: body, by simp [hbody], hcloses.escape rfl hbackslash c, hescapes.escape c⟩
  | case5 => simp at h
  | case6 r =>
    obtain rfl : 1 = n := by simpa using h
    exact ⟨[], rfl, closesFirst_nil [q], fun y z hyz => by simp at hyz⟩
  | case7 c r hnil _ hcons hc' hne ih =>
    obtain ⟨m, hm, rfl⟩ := Option.map_eq_some_iff.1 h
    obtain ⟨body, hbody, hcloses, hescapes⟩ := ih hm
    have hc : c ≠ '\\' := ne_backslash hnil hcons
    refine ⟨c :: body, by simp [hbody], hcloses.cons hc fun hq' => ?_, hescapes.cons hc hc'⟩
    exact hne (List.cons_prefix_cons.1 hq').1.symm

/-- **A literal between three quotes** ends at the first three quotes. -/
theorem exists_body_of_longBody? {q : Char} (hbackslash : q ≠ '\\') (hlf : q ≠ '\n') {t : Text}
    {n : ℕ} (h : longBody? q t = some n) :
    ∃ body, t.take n = body ++ [q, q, q] ∧ ClosesFirst [q, q, q] body := by
  fun_induction longBody? q t generalizing n with
  | case1 => simp at h
  | case2 => simp at h
  | case3 r ih =>
    obtain ⟨m, hm, rfl⟩ := Option.map_eq_some_iff.1 h
    obtain ⟨body, hbody, hcloses⟩ := ih hm
    exact ⟨'\\' :: '\r' :: '\n' :: body, by simp [hbody],
      (hcloses.cons (by decide) fun hq => hlf (List.cons_prefix_cons.1 hq).1).escape rfl hbackslash
        '\r'⟩
  | case4 c r _ ih =>
    obtain ⟨m, hm, rfl⟩ := Option.map_eq_some_iff.1 h
    obtain ⟨body, hbody, hcloses⟩ := ih hm
    exact ⟨'\\' :: c :: body, by simp [hbody], hcloses.escape rfl hbackslash c⟩
  | case5 c r _ _ _ hquotes =>
    obtain ⟨rfl, hquotes⟩ := hquotes
    obtain ⟨z, rfl⟩ := List.isPrefixOf_iff_prefix.1 hquotes
    obtain rfl : 3 = n := by simpa using h
    exact ⟨[], rfl, closesFirst_nil _⟩
  | case6 c r hnil _ hcons hquotes ih =>
    obtain ⟨m, hm, rfl⟩ := Option.map_eq_some_iff.1 h
    obtain ⟨body, hbody, hcloses⟩ := ih hm
    refine ⟨c :: body, by simp [hbody], hcloses.cons (ne_backslash hnil hcons) fun hq' => ?_⟩
    rw [← hbody] at hq'
    obtain ⟨heq, hrest⟩ := List.cons_prefix_cons.1 hq'
    exact hquotes ⟨heq.symm, List.isPrefixOf_iff_prefix.2 (hrest.trans (List.take_prefix m r))⟩

/-- **A literal** has three quotes for its delimiter where three stand at its front, and otherwise
one. -/
theorem exists_body_of_stringLength? {q : Char} (hbackslash : q ≠ '\\') (hlf : q ≠ '\n') {t : Text}
    {n : ℕ} (h : stringLength? q t = some n) :
    (∃ body, q :: t.take n = [q, q, q] ++ body ++ [q, q, q] ∧ ClosesFirst [q, q, q] body) ∨
      ∃ body, q :: t.take n = [q] ++ body ++ [q] ∧ ClosesFirst [q] body ∧ EscapesLineFeeds body ∧
        ¬ [q, q] <+: t := by
  rw [stringLength?] at h
  split at h
  · next hquotes =>
    obtain ⟨m, hm, rfl⟩ := Option.map_eq_some_iff.1 h
    obtain ⟨r, rfl⟩ := List.isPrefixOf_iff_prefix.1 hquotes
    obtain ⟨body, hbody, hcloses⟩ := exists_body_of_longBody? hbackslash hlf hm
    have hbody' : r.take m = body ++ [q, q, q] := hbody
    exact Or.inl ⟨body, by simp [hbody'], hcloses⟩
  · next hquotes =>
    obtain ⟨body, hbody, hcloses, hescapes⟩ := exists_body_of_shortBody? hbackslash hlf h
    exact Or.inr ⟨body, by simp [hbody], hcloses, hescapes,
      fun hprefix => hquotes (List.isPrefixOf_iff_prefix.2 hprefix)⟩

/-- **A literal is delimited.** -/
theorem IsLiteralText.exists_isDelimited {x : Text} (h : IsLiteralText x) :
    ∃ pre d body, IsDelimited x pre d body := by
  obtain ⟨pre, q, s, n, rfl, hq, hpre, hn⟩ := h
  have hbackslash : q ≠ '\\' := by rcases hq with rfl | rfl <;> decide
  have hlf : q ≠ '\n' := by rcases hq with rfl | rfl <;> decide
  rcases exists_body_of_stringLength? hbackslash hlf hn with
    ⟨body, hbody, hcloses⟩ | ⟨body, hbody, hcloses, hescapes, htwo⟩
  · refine ⟨pre, [q, q, q], body, by simp [hbody], hpre, ⟨q, hq, Or.inr rfl⟩, hcloses, by simp, ?_⟩
    intro q' _ hprefix
    rw [(List.cons_prefix_cons.1 hprefix).1]
  · refine ⟨pre, [q], body, by simp [hbody], hpre, ⟨q, hq, Or.inl rfl⟩, hcloses,
      fun _ => hescapes, ?_⟩
    intro q' _ hprefix
    rw [← hbody] at hprefix
    obtain ⟨rfl, hquotes⟩ := List.cons_prefix_cons.1 hprefix
    exact absurd (hquotes.trans (List.take_prefix n s)) htwo

/-! ## What is asked of a string token -/

section IsDelimited

variable {x pre d body : Text} (h : IsDelimited x pre d body)
include h

/-- The letters in front of the quotes are the prefix. -/
theorem IsDelimited.span_isAlpha :
    x.takeWhile Char.isAlpha = pre ∧ x.dropWhile Char.isAlpha = d ++ body ++ d := by
  have hletters : ∀ c ∈ pre, c.isAlpha = true := by
    intro c hc
    rcases h.letters with rfl | hpre
    · simp at hc
    · exact isAlpha_of_mem_stringPrefix hpre hc
  obtain ⟨q, hq, hd⟩ := h.quotes
  obtain ⟨r, hr⟩ : ∃ r, d ++ body ++ d = q :: r := by
    rcases hd with rfl | rfl
    · exact ⟨_, rfl⟩
    · exact ⟨_, rfl⟩
  have hquote : ¬ q.isAlpha = true := by rcases hq with rfl | rfl <;> decide
  have hx : x = pre ++ q :: r := by
    rw [h.text_eq, ← hr]
    simp only [List.append_assoc]
  rw [hr, hx, List.takeWhile_append_of_pos hletters, List.dropWhile_append_of_pos hletters,
    List.takeWhile_cons_of_neg hquote, List.dropWhile_cons_of_neg hquote, List.append_nil]
  exact ⟨rfl, rfl⟩

/-- A literal that opens with three quotes has them for its delimiter. -/
theorem IsDelimited.length_eq_three (hx : ['"', '"', '"'] <+: d ++ body ++ d ∨
    ['\'', '\'', '\''] <+: d ++ body ++ d) : d.length = 3 := by
  rcases hx with hthree | hthree
  · rw [h.longest '"' (Or.inl rfl) hthree]
    rfl
  · rw [h.longest '\'' (Or.inr rfl) hthree]
    rfl

theorem IsDelimited.isTripleQuoted_iff {u : Token} (hu : u.text = x) (hk : u.kind = .string) :
    u.isTripleQuoted = true ↔ d.length = 3 := by
  simp only [Token.isTripleQuoted, hu, h.span_isAlpha.2, hk, beq_self_eq_true, Bool.true_and,
    Bool.and_eq_true, Bool.or_eq_true, List.isPrefixOf_iff_prefix, decide_eq_true_iff]
  constructor
  · exact fun hthree => h.length_eq_three hthree.1
  · intro hlength
    obtain ⟨q, hq, rfl | rfl⟩ := h.quotes
    · simp at hlength
    · refine ⟨?_, by simp⟩
      rcases hq with rfl | rfl
      · exact Or.inl (by simp)
      · exact Or.inr (by simp)

end IsDelimited

/-- A literal that opens with three quotes has as many at its end. -/
theorem IsLiteralText.six_le_length {x : Text} (h : IsLiteralText x)
    (hx : ['"', '"', '"'].isPrefixOf (x.dropWhile Char.isAlpha) = true ∨
      ['\'', '\'', '\''].isPrefixOf (x.dropWhile Char.isAlpha) = true) :
    6 ≤ (x.dropWhile Char.isAlpha).length := by
  obtain ⟨pre, d, body, hd⟩ := h.exists_isDelimited
  rw [hd.span_isAlpha.2, List.isPrefixOf_iff_prefix, List.isPrefixOf_iff_prefix] at hx
  have hthree := hd.length_eq_three hx
  rw [hd.span_isAlpha.2, List.length_append, List.length_append, hthree]
  omega

/-- **A string token is one literal**, and what is asked of the token later agrees with it. -/
theorem exists_isDelimited_of_tokenize {source : Text} {ts : List Token}
    (h : tokenize source = .ok ts) {u : Token} (hu : u ∈ ts) (hk : u.kind = .string) :
    ∃ pre d body, IsDelimited u.text pre d body ∧ (u.isTripleQuoted = true ↔ d.length = 3) ∧
      u.stringPrefix = Text.toLower pre := by
  obtain ⟨pre, d, body, hx⟩ := (isLiteralText_of_tokenize h hu hk).exists_isDelimited
  refine ⟨pre, d, body, hx, hx.isTripleQuoted_iff rfl hk, ?_⟩
  rw [Token.stringPrefix, hx.span_isAlpha.1]

/-- A literal with a prefix, an escaped quote and an escaped line break. -/
def escapedLiteral : Text := "Rb'a\\'\\\n\"'".toList

theorem exists_isDelimited_escapedLiteral :
    tokenize escapedLiteral = .ok [.at .string escapedLiteral ⟨1, 0⟩, .at .newline [] ⟨2, 2⟩,
      .at .endMarker [] ⟨2, 2⟩] ∧
    ∃ pre d body, IsDelimited escapedLiteral pre d body ∧
      ((Token.at .string escapedLiteral ⟨1, 0⟩).isTripleQuoted = true ↔ d.length = 3) ∧
      (Token.at .string escapedLiteral ⟨1, 0⟩).stringPrefix = Text.toLower pre := by
  have htokens : tokenize escapedLiteral = .ok [.at .string escapedLiteral ⟨1, 0⟩,
      .at .newline [] ⟨2, 2⟩, .at .endMarker [] ⟨2, 2⟩] := by
    decide +kernel
  exact ⟨htokens, exists_isDelimited_of_tokenize htokens List.mem_cons_self rfl⟩

end Marginalia
