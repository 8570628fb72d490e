import Marginalia.Grammar.LogicalLine
import Marginalia.Grammar.Phrase

/-!
# Headers

A logical line is either a row of simple statements, or the header of a clause, after which the
clause's block follows: on the same line, or on the lines below. A decorator stands on a line of
its own and belongs to the definition below.
-/

namespace Marginalia.Grammar

/-- What a header opens. -/
inductive Clause
  | condition
  | otherCondition
  | otherwise
  | loop
  | attempt
  /-- A handler of exceptions; `group` if it takes groups of them. -/
  | handler (group : Bool)
  | cleanup
  | context
  /-- A function or a class. -/
  | definition
  | choice
  | alternative
  deriving DecidableEq, Repr

/-- Where the block of a clause stands. -/
inductive Suite
  /-- On the lines below. -/
  | below
  /-- On the line of the header: these lexemes. -/
  | here (statements : List Lexeme)
  deriving Repr

/-- What a logical line is. -/
inductive LineForm
  | statements
  | decorator
  | header (clause : Clause) (suite : Suite)
  deriving Repr

open Rule Category

/-- The rules for headers, up to and with their colon. An alternative is a clause only in a
choice, and nothing else is there, so it has a rule of its own. -/
def headerRules : List (Clause × Rule Category) :=
  let async_ := optional (word "async")
  let typed := optional (phrase typeParameters)
  [(.condition, all [word "if", anExpression, op ":"]),
   (.otherCondition, all [word "elif", anExpression, op ":"]),
   (.otherwise, all [word "else", op ":"]),
   (.loop, all [async_, word "for", phrase targets, word "in", phrase expressions, op ":"]),
   (.loop, all [word "while", anExpression, op ":"]),
   (.attempt, all [word "try", op ":"]),
   (.handler true, all [word "except", op "*", anExpression, op ":"]),
   (.handler false,
     all
       [word "except", optional (seq anExpression (optional (seq (op ",") anExpression))),
        op ":"]),
   (.cleanup, all [word "finally", op ":"]),
   (.context, all [async_, word "with", phrase expressions, op ":"]),
   (.definition,
     all
       [async_, word "def", identifier, typed, op "(", optional (phrase (parameters true)),
        op ")", optional (seq (op "->") anExpression), op ":"]),
   (.definition, all [word "class", identifier, typed, optional (phrase arguments), op ":"])]

/-- The rule for the header of a choice. Its block stands below. -/
def choiceRule : Rule Category :=
  all [word "match", phrase expressions, op ":", lineEnd]

/-- The rule for the header of an alternative in a choice. -/
def alternativeRule : Rule Category :=
  all [word "case", phrase patterns, optional (seq (word "if") anExpression), op ":"]

/-- The rule for a decorator. -/
def decoratorRule : Rule Category :=
  all [op "@", anExpression, lineEnd]

/-- The block of a clause whose header leaves the lexemes `rest`. -/
def suiteOf? (rest : List Lexeme) : Option Suite :=
  if rest.isEmpty then some .below
  else if (phrase simpleStatements).fits rest then some (.here rest)
  else none

/-- The header of one of the clauses in `rules` at the front of the line. -/
def headerOf? (rules : List (Clause × Rule Category)) (xs : List Lexeme) : Option LineForm :=
  rules.findSome? fun (clause, rule) => do
    let suite ← suiteOf? (← rule.take? xs)
    return .header clause suite

/-- What a line is that stands among statements. -/
def LineForm.ofStatement? (xs : List Lexeme) : Option LineForm :=
  if decoratorRule.fits xs then some .decorator
  else if choiceRule.fits xs then some (.header .choice .below)
  else if (phrase simpleStatements).fits xs then some .statements
  else headerOf? headerRules xs

/-- What a line is that stands among the alternatives of a choice. -/
def LineForm.ofAlternative? (xs : List Lexeme) : Option LineForm :=
  headerOf? [(.alternative, alternativeRule)] xs

end Marginalia.Grammar
