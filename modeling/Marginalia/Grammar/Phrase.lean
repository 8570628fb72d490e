import Marginalia.Grammar.Rule

/-!
# The grammar of a line

The phrases that a logical line is made of, as a table of rules: expressions, the targets of
assignments, parameter lists, the patterns of case clauses, and simple statements. The table
accepts the language of both generations: statements that print or execute, exceptions caught
with a comma, and the comparison written with two angle brackets stand beside assignment
expressions, type parameters and patterns.

What a phrase means plays no part. Only the left side of an assignment is looked at: it must
be a name, a member, an item, or a list of such.
-/

namespace Marginalia.Grammar

/-- The kinds of phrases within a line. Where a conditional expression must not stand open to
the right, as in the clauses of a comprehension, `conditional` is false. -/
inductive Category
  | expression (conditional : Bool)
  | operand (conditional : Bool)
  | comparison
  | arithmetic
  | factor
  | primary
  | atom
  | trailer
  | strings
  | field
  | element
  | elements
  | items
  | argument
  | arguments
  | subscript
  | comprehension
  | yieldExpression
  | expressions
  | target
  | targetTrailers
  | targets
  | assignment
  | parameter (annotated : Bool)
  | parameters (annotated : Bool)
  | typeParameters
  | pattern
  | closedPattern
  | patterns
  | dottedName
  | importedNames
  | simpleStatement
  | simpleStatements
  deriving DecidableEq, Repr

/-! ## Words -/

/-- The words that are never identifiers. -/
def reservedWords : List Text :=
  ["False", "None", "True", "and", "as", "assert", "break", "class", "continue", "def", "del",
   "elif", "else", "except", "finally", "for", "from", "global", "if", "import", "in", "is",
   "lambda", "nonlocal", "not", "or", "pass", "raise", "return", "try", "while", "with",
   "yield"].map String.toList

namespace Rule

variable {C : Type}

/-- A lexeme of the given kind. -/
def kind (k : LexemeKind) : Rule C :=
  lexeme (·.kind == k)

/-- The keyword `w`. -/
def word (w : String) : Rule C :=
  let w := w.toList
  lexeme fun x => x.kind == .name && x.text == w

/-- The operator or delimiter `o`. -/
def op (o : String) : Rule C :=
  let o := o.toList
  lexeme fun x => x.kind == .op && x.text == o

/-- Any of the operators in `os`. -/
def opOf (os : List String) : Rule C :=
  let os := os.map String.toList
  lexeme fun x => x.kind == .op && os.contains x.text

/-- An identifier. -/
def identifier : Rule C :=
  lexeme fun x => x.kind == .name && !reservedWords.contains x.text

/-- One or more phrases with commas between them, and perhaps a comma after the last. -/
def commaList (r : Rule C) : Rule C :=
  all [r, many (seq (op ",") r), optional (op ",")]

/-- What may follow after the first of several phrases: more of them with commas in front, and
perhaps a comma at the end. -/
def commaRest (r : Rule C) : Rule C :=
  seq (many (seq (op ",") r)) (optional (op ","))

/-- One or more phrases with commas between them. -/
def separated (r : Rule C) : Rule C :=
  seq r (many (seq (op ",") r))

end Rule

open Rule Category

/-- An expression. -/
def anExpression : Rule Category := phrase (expression true)

/-- The end of a simple statement. -/
def statementEnd : Rule Category := ahead (oneOf [op ";", lineEnd])

/-! ## Expressions -/

/-- What joins two operands to an expression. -/
def expressionTail (conditional : Bool) : Rule Category :=
  let next := phrase (operand conditional)
  let joined := [seq (oneOf [word "and", word "or"]) next, seq (word "as") next]
  let branch := all [word "if", anExpression, word "else", phrase (operand true)]
  oneOf (if conditional then joined ++ [branch] else joined)

/-- An operand of an expression: a negation, a function, a named value or a comparison. -/
def operandRule (conditional : Bool) : Rule Category :=
  oneOf
    [seq (word "not") (phrase (operand conditional)),
     all [word "lambda", optional (phrase (parameters false)), op ":",
       phrase (expression conditional)],
     all [identifier, op ":=", phrase (expression conditional)],
     phrase comparison]

/-- The signs of comparison. -/
def comparisonSign : Rule Category :=
  oneOf
    [opOf ["<", ">", "==", "!=", "<=", ">=", "<>"],
     word "in",
     seq (word "not") (word "in"),
     seq (word "is") (optional (word "not"))]

/-- The signs between factors. -/
def arithmeticSign : Rule Category :=
  opOf ["+", "-", "*", "/", "//", "%", "@", "**", "<<", ">>", "&", "|", "^"]

/-- What may stand between round brackets as a value. -/
def parenthesized : Rule Category :=
  all [op "(",
    optional (seq (phrase element) (oneOf [phrase comprehension, commaRest (phrase element)])),
    op ")"]

/-- A list. -/
def listDisplay : Rule Category :=
  all [op "[",
    optional (seq (phrase element) (oneOf [phrase comprehension, commaRest (phrase element)])),
    op "]"]

/-- An entry of a dictionary. -/
def dictionaryEntry : Rule Category :=
  oneOf [seq (op "**") anExpression, all [anExpression, op ":", anExpression]]

/-- A dictionary or a set. -/
def braceDisplay : Rule Category :=
  let dictionaryRest := oneOf [phrase comprehension, commaRest dictionaryEntry]
  let setRest := oneOf [phrase comprehension, commaRest (phrase element)]
  let filled :=
    oneOf
      [all [op "**", anExpression, commaRest dictionaryEntry],
       seq anExpression (oneOf [all [op ":", anExpression, dictionaryRest], setRest]),
       seq (phrase element) setRest]
  all [op "\x7b", optional filled, op "\x7d"]

/-- A string literal, of characters only or with replacement fields. -/
def stringLiteral : Rule Category :=
  orElse (kind .string) (all [kind .literalStart, many (phrase field), kind .literalEnd])

/-- The clauses of a comprehension. -/
def comprehensionRule : Rule Category :=
  let source := phrase (expression false)
  let loop :=
    all [optional (word "async"), word "for", phrase targets, word "in", commaList source]
  seq loop (many (oneOf [loop, seq (word "if") source]))

/-- An argument after the first. -/
def laterArgument : Rule Category :=
  oneOf
    [all [identifier, op "=", anExpression], seq (op "**") anExpression,
     seq (op "*") anExpression, anExpression]

/-- The arguments of a call, in their brackets. -/
def argumentsRule : Rule Category :=
  let rest := commaRest (phrase argument)
  let first :=
    oneOf
      [seq (all [identifier, op "=", anExpression]) rest, all [op "**", anExpression, rest],
       all [op "*", anExpression, rest],
       seq anExpression (oneOf [phrase comprehension, rest])]
  all [op "(", optional first, optional (op ","), op ")"]

/-- A subscript: an expression or a slice. -/
def subscriptRule : Rule Category :=
  let rest :=
    all [op ":", optional anExpression, optional (seq (op ":") (optional anExpression))]
  oneOf [rest, seq anExpression (optional rest)]

/-- The subscripts of an item, in their brackets. -/
def subscripts : Rule Category :=
  all [op "[", commaList (phrase subscript), op "]"]

/-- A member, as what follows the value it belongs to. -/
def member : Rule Category :=
  seq (op ".") identifier

/-! ## Parameters and patterns -/

/-- A parameter; outside functions without a name it may carry a type. -/
def parameterRule (annotated : Bool) : Rule Category :=
  let type := if annotated then optional (seq (op ":") anExpression) else empty
  let default_ := optional (seq (op "=") anExpression)
  oneOf
    [all [op "**", identifier, type],
     seq (op "*") (optional (seq identifier type)),
     op "/",
     all [identifier, type, default_],
     all [op "(", optional (phrase targets), op ")", default_]]

/-- The type parameters of a definition, in their brackets. -/
def typeParametersRule : Rule Category :=
  let bound := optional (seq (op ":") anExpression)
  let one := oneOf [seq (opOf ["*", "**"]) identifier, seq anExpression bound]
  all [op "[", commaList one, op "]"]

/-- A pattern that is no alternative and binds no further name. -/
def closedPatternRule : Rule Category :=
  let bracketed := fun open_ close => all [op open_, optional (phrase patterns), op close]
  let signed := seq (optional (op "-")) (kind .number)
  let entry :=
    oneOf [seq (op "**") identifier, all [phrase closedPattern, op ":", phrase pattern]]
  oneOf
    [seq (opOf ["*", "**"]) identifier,
     bracketed "[" "]",
     bracketed "(" ")",
     all [op "\x7b", optional (commaList entry), op "\x7d"],
     phrase strings,
     oneOf [word "True", word "False", word "None"],
     seq signed (optional (seq (opOf ["+", "-"]) (kind .number))),
     seq (phrase dottedName) (optional (bracketed "(" ")"))]

/-- A pattern. -/
def patternRule : Rule Category :=
  let alternatives := seq (phrase closedPattern) (many (seq (op "|") (phrase closedPattern)))
  oneOf
    [all [identifier, op "=", phrase closedPattern],
     seq alternatives (optional (seq (word "as") identifier))]

/-! ## Targets and assignments -/

/-- A call, as what follows the value that is called. -/
def callTrailer : Rule Category :=
  phrase arguments

/-- Something that a value can be assigned to. -/
def targetRule : Rule Category :=
  oneOf
    [seq (op "*") (phrase target),
     seq (phrase atom) (phrase targetTrailers),
     identifier,
     all [op "(", optional (phrase targets), op ")"],
     all [op "[", optional (phrase targets), op "]"]]

/-- What follows the value that a target belongs to; the last of it is a member or an item. -/
def targetTrailersRule : Rule Category :=
  oneOf
    [seq callTrailer (phrase targetTrailers),
     seq (oneOf [member, subscripts]) (optional (phrase targetTrailers))]

/-- The signs of an assignment that changes its target. -/
def assignmentSign : Rule Category :=
  opOf ["+=", "-=", "*=", "/=", "@=", "//=", "%=", "**=", ">>=", "<<=", "&=", "^=", "|="]

/-- An assignment. -/
def assignmentRule : Rule Category :=
  let value := oneOf [phrase assignment, phrase yieldExpression, phrase expressions]
  let typed := all [op ":", anExpression, optional (seq (op "=") value)]
  seq (phrase targets) (oneOf [seq (op "=") value, typed, seq assignmentSign value])

/-! ## Simple statements -/

/-- The alternatives for a simple statement. -/
def simpleStatementForms : List (Rule Category) :=
  let alias_ := fun name => seq name (optional (seq (word "as") identifier))
  let dots := some_ (opOf [".", "..."])
  let module_ := oneOf [seq dots (optional (phrase dottedName)), phrase dottedName]
  let names := phrase importedNames
  [seq (word "import") (commaList (alias_ (phrase dottedName))),
   all [word "from", module_, word "import",
     oneOf [op "*", all [op "(", names, op ")"], names]],
   all [word "assert", separated anExpression],
   seq (word "return") (optional (phrase expressions)),
   seq (word "del") (phrase expressions),
   all [word "raise", optional (phrase expressions), optional (seq (word "from") anExpression)],
   oneOf [word "pass", word "break", word "continue"],
   seq (oneOf [word "global", word "nonlocal"]) (separated identifier),
   phrase assignment,
   phrase yieldExpression,
   phrase expressions,
   seq (word "print") (oneOf [seq (op ">>") (phrase expressions), phrase expressions]),
   all [word "exec", oneOf [stringLiteral, identifier],
     optional (seq (word "in") (separated anExpression))],
   all [word "type", identifier, phrase typeParameters, op "=", anExpression],
   all [word "type", anExpression, op "=", anExpression]]

/-- The rules of the grammar. -/
def Category.rule : Category → Rule Category
  | expression b => seq (phrase (operand b)) (many (expressionTail b))
  | operand b => operandRule b
  | comparison => seq (phrase arithmetic) (many (seq comparisonSign (phrase arithmetic)))
  | arithmetic => seq (phrase factor) (many (seq arithmeticSign (phrase factor)))
  | factor =>
    oneOf
      [seq (opOf ["+", "-", "~"]) (phrase factor), seq (word "await") (phrase factor),
       phrase primary]
  | primary => seq (phrase atom) (many (phrase trailer))
  | atom =>
    oneOf
      [identifier, kind .number, phrase strings, oneOf [word "True", word "False", word "None"],
       parenthesized, listDisplay, braceDisplay, op "...", seq (op "*") (phrase primary)]
  | trailer => oneOf [member, phrase arguments, subscripts]
  | strings => some_ stringLiteral
  | field =>
    all [kind .fieldStart, oneOf [phrase yieldExpression, phrase expressions],
      optional (op "="), optional (kind .conversion),
      optional (seq (kind .formatStart) (many (phrase field))), kind .fieldEnd]
  | element => oneOf [seq (op "*") anExpression, phrase yieldExpression, anExpression]
  | elements => commaList (phrase element)
  | items => commaList anExpression
  | argument => laterArgument
  | arguments => argumentsRule
  | subscript => subscriptRule
  | comprehension => comprehensionRule
  | yieldExpression =>
    seq (word "yield") (oneOf [seq (word "from") anExpression, optional (phrase expressions)])
  | expressions => commaList anExpression
  | target => targetRule
  | targetTrailers => targetTrailersRule
  | targets => commaList (phrase target)
  | assignment => assignmentRule
  | parameter b => parameterRule b
  | parameters b => commaList (phrase (parameter b))
  | typeParameters => typeParametersRule
  | pattern => patternRule
  | closedPattern => closedPatternRule
  | patterns => commaList (phrase pattern)
  | dottedName => seq identifier (many (seq (op ".") identifier))
  | importedNames => commaList (seq (phrase dottedName) (optional (seq (word "as") identifier)))
  | simpleStatement => oneOf (simpleStatementForms.map (seq · statementEnd))
  | simpleStatements =>
    all [phrase simpleStatement, many (seq (op ";") (phrase simpleStatement)),
      optional (op ";"), lineEnd]

/-- More nested phrases than any line of `n` lexemes can have. -/
def nestingBound (n : Nat) : Nat :=
  16 * (n + 1)

/-- Whether the lexemes are, as a whole, a phrase of the rule. -/
def Rule.fits (r : Rule Category) (xs : List Lexeme) : Bool :=
  let bound := nestingBound xs.length
  (r.take bound (takePhrase Category.rule bound) xs).any List.isEmpty

/-- What is left when the phrase of the rule is taken from the front. -/
def Rule.take? (r : Rule Category) (xs : List Lexeme) : Option (List Lexeme) :=
  let bound := nestingBound xs.length
  r.take bound (takePhrase Category.rule bound) xs

end Marginalia.Grammar
