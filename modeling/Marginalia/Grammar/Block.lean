import Marginalia.Grammar.Header

/-!
# Blocks

How the logical lines of a source make up blocks, and which of them open a body that may be
documented.

* A line indented deeper than its block is part of the block all the same; only below a header
  does a deeper line open a block of its own.
* A header with no deeper line below it has an empty block.
* A line closes every block that is indented deeper than it, and need not meet the column of the
  block that it returns to.
* The clauses of a compound statement follow each other in order, and a decorator is followed by
  a definition.
-/

namespace Marginalia.Grammar

/-- What may go on the last statement of a block. -/
inductive Continuation
  /-- Nothing. -/
  | nothing
  /-- Further conditions, or what is done otherwise. -/
  | condition
  /-- What is done otherwise. -/
  | otherwise
  /-- A handler or a cleanup, one of which must come. -/
  | handling
  /-- Handlers of the same kind, what is done otherwise, or a cleanup. -/
  | handler (group : Bool)
  /-- A cleanup. -/
  | cleanup
  /-- A definition or a further decorator, one of which must come. -/
  | decorated
  deriving DecidableEq, Repr

/-- Whether the statement may end here. -/
def Continuation.isComplete : Continuation → Bool
  | .handling | .decorated => false
  | _ => true

/-- An open block. -/
structure Block where
  /-- The column below which the block ends. -/
  indent : Nat
  /-- Whether the lines of the block are the alternatives of a choice. -/
  isChoice : Bool
  continuation : Continuation
  deriving Repr

/-- What a line of the given form leaves open in a block, when the last statement before it left
open `k`; `none` if the line may not stand there. -/
def Continuation.after? (k : Continuation) (form : LineForm) : Option Continuation :=
  match form with
  | .decorator => if k.isComplete ∨ k = .decorated then some .decorated else none
  | .header .definition _ => if k.isComplete ∨ k = .decorated then some .nothing else none
  | .header .otherCondition _ => if k = .condition then some .condition else none
  | .header .otherwise _ =>
    match k with
    | .condition | .otherwise => some .nothing
    | .handler _ => some .cleanup
    | _ => none
  | .header (.handler group) _ =>
    match k with
    | .handling => some (.handler group)
    | .handler g => if g = group then some (.handler group) else none
    | _ => none
  | .header .cleanup _ =>
    match k with
    | .handling | .handler _ | .cleanup => some .nothing
    | _ => none
  | .header .condition _ => if k.isComplete then some .condition else none
  | .header .loop _ => if k.isComplete then some .otherwise else none
  | .header .attempt _ => if k.isComplete then some .handling else none
  | .header .context _ | .header .choice _ | .header .alternative _ | .statements =>
    if k.isComplete then some .nothing else none

/-- Where the reading of the lines of a source stands. -/
structure BlockState where
  /-- The blocks that are open, the innermost first, without the whole source. -/
  blocks : List Block
  /-- The whole source. -/
  source : Block
  /-- The clause whose block is to stand on the lines below. -/
  pending : Option Clause
  deriving Repr

namespace BlockState

/-- The state in front of a source. -/
def initial : BlockState := ⟨[], ⟨0, false, .nothing⟩, none⟩

/-- The innermost open block. -/
def current (s : BlockState) : Block := s.blocks.headD s.source

/-- The state with another innermost block in place of the one there was. -/
def setCurrent (s : BlockState) (b : Block) : BlockState :=
  match s.blocks with
  | [] => { s with source := b }
  | _ :: bs => { s with blocks := b :: bs }

/-- The state when a line starts at column `indent`: it opens the block of the clause above it
or closes blocks; `none` if a block closes in the middle of a statement. -/
def enterLine? (s : BlockState) (indent : Nat) : Option BlockState :=
  match s.pending with
  | some clause =>
    if s.current.indent < indent then
      some ⟨⟨indent, clause = .choice, .nothing⟩ :: s.blocks, s.source, none⟩
    else close indent
  | none => close indent
where
  /-- Close the blocks that are indented deeper. -/
  close (indent : Nat) : Option BlockState :=
    if (s.blocks.takeWhile (indent < ·.indent)).all (·.continuation.isComplete) then
      some ⟨s.blocks.dropWhile (indent < ·.indent), s.source, none⟩
    else none

/-- The state after a line of the given form. -/
def addLine? (s : BlockState) (form : LineForm) : Option BlockState :=
  (s.current.continuation.after? form).map fun k =>
    let s := s.setCurrent { s.current with continuation := k }
    match form with
    | .header clause .below => { s with pending := some clause }
    | _ => s

/-- Whether the source may end here. -/
def isComplete (s : BlockState) : Bool :=
  (s.source :: s.blocks).all (·.continuation.isComplete)

end BlockState

/-! ## Bodies -/

/-- The first line of a body that may be documented. -/
structure Body where
  /-- Whether it is the body of the whole source, and not that of a definition. -/
  isSource : Bool
  /-- The statements on the line. -/
  lexemes : List Lexeme
  deriving DecidableEq, Repr

/-- The bodies that the lines open, in their order. `first` tells whether the line in front is the
first of the source. -/
def bodiesFrom? (s : BlockState) (first : Bool) : List LogicalLine → Option (List Body)
  | [] => if s.isComplete then some [] else none
  | l :: ls => do
    let opensBody := first || (s.pending == some .definition && s.current.indent < l.indent)
    let s ← s.enterLine? l.indent
    let form ←
      if s.current.isChoice then LineForm.ofAlternative? l.lexemes
      else LineForm.ofStatement? l.lexemes
    let s ← s.addLine? form
    let bodies ← bodiesFrom? s false ls
    return match form with
      | .statements => if opensBody then ⟨first, l.lexemes⟩ :: bodies else bodies
      | .header .definition (.here statements) => ⟨false, statements⟩ :: bodies
      | _ => bodies

/-- The bodies of a source and of the functions and classes in it, unless one begins with a
compound statement; `none` if the source is not in the language. -/
def bodies? (lines : List LogicalLine) : Option (List Body) :=
  bodiesFrom? .initial true lines

end Marginalia.Grammar
