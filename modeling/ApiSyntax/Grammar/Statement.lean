/-
  ApiSyntax/Grammar/Statement.lean --- statements and blocks.

  A return statement is the last one of its block and has a slot of its own there; a
  deferred block has none.
-/
import ApiSyntax.Grammar.Expression

set_option autoImplicit false

namespace ApiSyntax.Grammar

open ApiSyntax.Parser

/-- The failure of a body without its closing brace. -/
def unclosedBlock (opened : Span) : Diagnostic :=
  (Diagnostic.of (.unclosedBlock opened)).placed opened

/-- The failure of a block that goes on behind its return statement. -/
def codeAfterReturn (t : Token) : Diagnostic :=
  ((Diagnostic.of .codeAfterReturn).placed t.span).hinted
    "a return statement must be the last statement of its block"

/-- The failure of a deferred block with a return statement at `place`. -/
def deferReturn (place : Span) : Diagnostic :=
  ((Diagnostic.of .deferReturn).placed place).hinted
    "move the return statement after the defer block"

/-- A name, possibly a type, and a value behind the equals sign. -/
def assignment (read : Production → Parser NodeId) : Parser NodeId := do
  let start ← startToken
  let name ← identifier
  let ty ← (do if ← check .assign then return none else return some (← read .type))
  let _ ← expect .assign
  let value ← read .expression
  alloc start (.assignment name ty value)

/-- The keyword and a value. -/
def returned (read : Production → Parser NodeId) : Parser NodeId := do
  let keyword ← expectKeyword "return"
  let value ← read .expression
  alloc keyword (.returned value)

/-- The keyword and a block without a return statement. -/
def deferred (read : Production → Parser NodeId) : Parser NodeId := do
  let keyword ← expectKeyword "defer"
  let block ← read .block
  match ← atArena (·.expr block) with
  | .block _ (some ret) => do
      let n ← atArena (·.node ret)
      fail (deferReturn n.span)
  | _ => alloc keyword (.deferred block)

/-- A statement other than a return statement. -/
def statement (read : Production → Parser NodeId) : Parser NodeId :=
  choice read [.assignment, .annotationCall, .deferred, .instanceCall, .staticCall] "statement"

/-- What a block has read of its body. -/
structure BlockSoFar where
  body : List NodeId
  ret : Option NodeId

/-- One round of a block: its closing brace, its return statement, or a statement. -/
def blockRound (read : Production → Parser NodeId) (opened : Span) (b : BlockSoFar) :
    Parser (Round BlockSoFar BlockSoFar) := do
  match (← remaining).head? with
  | none => fail (unclosedBlock opened)
  | some t =>
      if t.is .rbrace then
        let _ ← consume
        return .done b
      else if b.ret.isSome then fail (codeAfterReturn t)
      else if t.isValue .keyword "return" then
        return .more { b with ret := some (← read .returned) }
      else return .more { b with body := b.body ++ [← statement read] }

/-- Statements between braces. -/
def block (read : Production → Parser NodeId) : Parser NodeId := do
  let opening ← expect .lbrace
  let b ← inPhase .statement (loop (blockRound read opening.span) ⟨[], none⟩)
  alloc opening (.block b.body b.ret)

end ApiSyntax.Grammar
