/-
  ApiSyntax/Parser/Rule.lean --- rules, and choices between them.

  A rule has a trigger, which looks at the tokens ahead and says whether the rule
  applies, and a parser, which commits.  A choice tries the rules in order, each from
  the same place, and the failure of the last one counts.
-/
import ApiSyntax.Parser.Basic

set_option autoImplicit false

namespace ApiSyntax

/-- A rule of a grammar. -/
structure Rule where
  name : String
  trigger : List Token → Except Diagnostic Bool
  parse : Parser NodeId

/-! ## Triggers -/

/-- The first `n` tokens. -/
def lookahead (tokens : List Token) (n : Nat) : Except Diagnostic (List Token) :=
  let first := tokens.take n
  if first.length = n then .ok first else .error .outOfTokens

/-- The first token is of this kind. -/
def startsWith (tokens : List Token) (kind : TokenKind) : Except Diagnostic Bool :=
  match tokens with
  | t :: _ => .ok (t.is kind)
  | [] => .error .outOfTokens

/-- The first token is of one kind and the second of one of several; the second is asked for
only when the first fits. -/
def startsWithPair (tokens : List Token) (first : TokenKind) (second : List TokenKind) :
    Except Diagnostic Bool :=
  match tokens with
  | [] => .error .outOfTokens
  | t :: rest =>
      if t.is first then
        match rest with
        | u :: _ => .ok (second.any u.is)
        | [] => .error .outOfTokens
      else .ok false

/-- The first token is this keyword. -/
def startsWithKeyword (tokens : List Token) (word : String) : Except Diagnostic Bool :=
  match tokens with
  | t :: _ => .ok (t.isValue .keyword word)
  | [] => .error .outOfTokens

/-! ## Choices -/

namespace Rule

/-- The trigger accepts. -/
def accepts (r : Rule) (tokens : List Token) : Bool :=
  match r.trigger tokens with
  | .ok b => b
  | .error _ => false

/-- The trigger asks for more tokens than there are. -/
def isStarved (r : Rule) (tokens : List Token) : Bool :=
  match r.trigger tokens with
  | .ok _ => false
  | .error _ => true

end Rule

namespace Parser

/-- The failure when no rule applies to the token `t`. -/
def noRule (rules : List Rule) (tokens : List Token) (t : Token) (expected : String) :
    Diagnostic :=
  if rules.any (·.isStarved tokens) then Diagnostic.outOfTokens.placed t.span
  else .unexpected t expected

/-- The rules in order until one succeeds, each from the same place; `last` is the failure of the
rule before. -/
def attemptFrom (propagate : Bool) : List Rule → Option Diagnostic → Parser (Option NodeId)
  | [], last =>
      match last with
      | some d => if propagate then fail d else return none
      | none => return none
  | r :: rest, _ => fun env s =>
      let cursor := s.cursor
      let phase := s.phase
      match r.parse env s with
      | (.ok id, s') => (.ok (some id), s')
      | (.error (.failed d), s') =>
          attemptFrom propagate rest (some d) env
            { cursor := cursor, phase := phase,
              work := { s'.work with events := s'.work.events.push (.mismatched r.name d) } }
      | (.error .exhausted, s') => (.error .exhausted, s')

/-- The first rule that succeeds.  If none does the answer is nothing, or with `propagate` the
failure of the last rule. -/
def attemptAny (rules : List Rule) (propagate : Bool) : Parser (Option NodeId) :=
  attemptFrom propagate rules none

/-- The first rule that succeeds, else the failure of the last one. -/
def alternation (rules : List Rule) : Parser NodeId := do
  match ← attemptAny rules true with
  | some id => return id
  | none => fail .outOfTokens

/-- The first rule that succeeds among those whose trigger accepts. -/
def dispatch (rules : List Rule) (expected : String) : Parser NodeId := do
  let tokens ← remaining
  match rules.filter (·.accepts tokens) with
  | [] => do
      let t ← peek
      fail (noRule rules tokens t expected)
  | candidates => alternation candidates

/-! ## The top level -/

/-- One round of `execute`: the one rule that applies reads a node.  Otherwise the next token is
passed over, if that is permitted. -/
def executeRound (rules : List Rule) (nodes : List NodeId) :
    Parser (Round (List NodeId) (List NodeId)) := do
  let tokens ← remaining
  match tokens with
  | [] => return .done nodes
  | t :: _ =>
      match rules.filter (·.accepts tokens) with
      | [rule] => do
          note (.entered rule.name t.span)
          let id ← rule.parse
          return .more (nodes ++ [id])
      | matching => do
          if (← env).config.permissive then
            let skipped ← consume
            note (.discarded skipped.value skipped.span matching.length)
            return .more nodes
          else if matching.isEmpty then
            fail (noRule rules tokens t (" or ".intercalate (rules.map (·.name))))
          else do
            let names := ", ".intercalate (matching.map (·.name))
            note (.ambiguous names t.value)
            fail ((Diagnostic.of (.ambiguousGrammar names)).placed t.span)

/-- Rules until no token remains.  At each place exactly one rule must apply. -/
def execute (rules : List Rule) : Parser (List NodeId) := loop (executeRound rules) []

end Parser

end ApiSyntax
