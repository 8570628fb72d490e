import Marginalia.Grammar.Lexeme

/-!
# Rules

A grammar is a table of rules, one for each category of phrases. A rule is read from left to
right: `recognise` takes from a list of lexemes the phrase that the rule describes and returns
what is left. Alternatives are tried in order and the first that succeeds counts; repetition
takes as many phrases as it can. So a rule describes at most one phrase at the front of a list.
-/

namespace Marginalia.Grammar

/-- A description of phrases over the categories `C`. -/
inductive Rule (C : Type) where
  /-- One lexeme that passes the test. -/
  | lexeme (test : Lexeme → Bool)
  /-- A phrase of a category. -/
  | phrase (category : C)
  /-- Nothing. -/
  | empty
  /-- One phrase and then another. -/
  | seq (first second : Rule C)
  /-- The first phrase if there is one, or else the second. -/
  | orElse (first second : Rule C)
  /-- As many phrases as there are. -/
  | many (rule : Rule C)
  /-- Nothing, where no phrase of this kind could be taken. -/
  | absent (rule : Rule C)
  /-- The end of the line. -/
  | lineEnd

namespace Rule

variable {C : Type}

/-- The phrases one after the other. -/
def all (rules : List (Rule C)) : Rule C :=
  rules.foldr seq empty

/-- The first of the phrases that there is. -/
def oneOf : List (Rule C) → Rule C
  | [] => lexeme fun _ => false
  | [r] => r
  | r :: rs => orElse r (oneOf rs)

/-- The phrase, or nothing. -/
def optional (r : Rule C) : Rule C :=
  orElse r empty

/-- At least one phrase. -/
def some_ (r : Rule C) : Rule C :=
  seq r (many r)

/-- Nothing, where the phrase could be taken. -/
def ahead (r : Rule C) : Rule C :=
  absent (absent r)

/-- Take as many phrases as `f` finds, but not more than `fuel`. -/
def takeMany (f : List Lexeme → Option (List Lexeme)) : Nat → List Lexeme → List Lexeme
  | 0, xs => xs
  | fuel + 1, xs =>
    match f xs with
    | some rest => takeMany f fuel rest
    | none => xs

/-- Take the phrase of a rule from the front of a list, when `call` does it for the categories
and no repetition has more than `bound` phrases. -/
def take (bound : Nat) (call : C → List Lexeme → Option (List Lexeme)) :
    Rule C → List Lexeme → Option (List Lexeme)
  | lexeme test, x :: xs => if test x then some xs else none
  | lexeme _, [] => none
  | phrase c, xs => call c xs
  | empty, xs => some xs
  | seq a b, xs =>
    match take bound call a xs with
    | some rest => take bound call b rest
    | none => none
  | orElse a b, xs =>
    match take bound call a xs with
    | some rest => some rest
    | none => take bound call b xs
  | many r, xs => some (takeMany (take bound call r) bound xs)
  | absent r, xs =>
    match take bound call r xs with
    | some _ => none
    | none => some xs
  | lineEnd, [] => some []
  | lineEnd, _ :: _ => none

end Rule

/-- Take a phrase of a category from the front of a list, with at most `depth` phrases nested in
each other. -/
def takePhrase {C : Type} (grammar : C → Rule C) : Nat → C → List Lexeme → Option (List Lexeme)
  | 0, _, _ => none
  | depth + 1, c, xs => (grammar c).take depth (takePhrase grammar depth) xs

end Marginalia.Grammar
