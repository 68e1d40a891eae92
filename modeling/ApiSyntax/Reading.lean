/-
  ApiSyntax/Reading.lean --- from a source text to what it says.

  Tokens are cut with the tokenizer of the language, and the grammar runs over them
  with its operators, its extensions and the default switches.  What was built is
  kept also when the reading fails.
-/
import ApiSyntax.Grammar.Basic
import ApiSyntax.Tokenizer.Builtin

set_option autoImplicit false

namespace ApiSyntax

/-- The extensions and switches that every source text is read with. -/
def ParserEnv.standard : ParserEnv := ⟨.builtin, flatName, .default⟩

/-- The state in front of tokens, with nothing built. -/
def ParserState.start (tokens : List Token) (operators : OperatorTable) : ParserState :=
  ⟨.start tokens, .program, .start operators⟩

/-- A reading: the node it ends with or why there is none, and what was built. -/
structure Reading where
  root : Except Stop NodeId
  work : Workspace

namespace Reading

/-- The reading of tokens. -/
def ofTokens (goal : Goal) (tokens : List Token) : Reading :=
  let (root, s) := goal.parse .standard (.start tokens .builtin)
  ⟨root, s.work⟩

/-- The reading with an event ahead of those it has. -/
def after (e : Event) (r : Reading) : Reading :=
  { r with work := { r.work with events := #[e] ++ r.work.events } }

/-- The reading of a source text. -/
def ofSource (goal : Goal) (source : List Char) : Reading :=
  match Tokenizer.builtin.tokenizeWithEnd source with
  | .ok (tokens, behind) =>
      (ofTokens goal tokens).after (.tokenized behind.offset tokens.length)
  | .error d => ⟨.error (.failed d), .start .builtin⟩

end Reading

end ApiSyntax
