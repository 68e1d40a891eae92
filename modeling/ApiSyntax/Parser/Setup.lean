/-
  ApiSyntax/Parser/Setup.lean --- what a parse is prepared from.

  The text is cut first, then the switches are read, the operators declared and
  related, and the extensions registered.  The first of these that fails ends the
  preparation, and what happened until then stays on record.
-/
import ApiSyntax.Parser.Basic
import ApiSyntax.Pattern.Reader
import ApiSyntax.Tokenizer.Basic

set_option autoImplicit false

namespace ApiSyntax

/-- What a parse reads. -/
inductive Input
  /-- Tokens that are taken as they are. -/
  | tokens (tokens : List Token)
  /-- A text that is still to be cut. -/
  | text (source : List Char)

/-- What a parse is prepared from.  The tokenizer comes with what has happened to it. -/
structure Setup where
  tokenizer : Journaled Tokenizer
  input : Input
  /-- The switches, or why their document is refused. -/
  config : Except Diagnostic Config
  operators : OperatorTable
  declared : List (String × Fixity)
  related : List Fact
  registry : Registry
  added : List Extension
  mangle : String → String

namespace Setup

/-- The tokens of the input. -/
def readInput : Input → Action (Journaled Tokenizer) Diagnostic (List Token)
  | .tokens tokens => return tokens
  | .text source => do
      let (tokens, _) ← Tokenizer.recordTokenize source
      return tokens

/-- The operators grow. -/
def grow (s : Setup) : Action Workspace Diagnostic Unit := do
  .forAll (fun d => Workspace.declare d.1 d.2) s.declared
  .forAll (fun f => Workspace.relate f.owner f.other f.precedence) s.related

/-- What the parse is given and what it starts from, or the failure with what happened until
then. -/
def prepare (s : Setup) : Except (Diagnostic × Array Event) (ParserEnv × ParserState) :=
  match readInput s.input s.tokenizer with
  | (.error d, t) => .error (d, t.events)
  | (.ok tokens, t) =>
      match s.config with
      | .error d => .error (d, t.events)
      | .ok config =>
          match s.grow { Workspace.start s.operators with events := t.events } with
          | (.error d, w) => .error (d, w.events)
          | (.ok _, w) =>
              match Action.forAll Registry.recordRegister s.added ⟨s.registry, w.events⟩ with
              | (.error d, r) => .error (d, r.events)
              | (.ok _, r) =>
                  .ok (⟨r.value, s.mangle, config⟩,
                    ⟨.start tokens, .program, { w with events := r.events }⟩)

end Setup

end ApiSyntax
