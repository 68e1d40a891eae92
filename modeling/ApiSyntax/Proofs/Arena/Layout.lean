/-
  ApiSyntax/Proofs/Arena/Layout.lean --- what is built, apart from layout.

  Two tokens are alike when their kinds have the same name and their texts are the same; where
  they stand does not matter, nor whether a kind is built in or was registered under that name.
  Nodes, arenas and failures are alike when they differ in tokens that are alike, and in
  positions.
-/
import ApiSyntax.Workspace
import Mathlib.Data.Option.Defs

set_option autoImplicit false

namespace ApiSyntax

/-! ## Tokens and failures -/

/-- The tokens differ in layout at most. -/
structure Token.Alike (t u : Token) : Prop where
  kind : t.kind.name = u.kind.name
  value : t.value = u.value

namespace Token.Alike

variable {t u : Token}

theorem is (h : t.Alike u) (kind : TokenKind) : t.is kind = u.is kind := by
  rw [Token.is, Token.is, TokenKind.same, TokenKind.same, h.kind]

theorem any_is (h : t.Alike u) (kinds : List TokenKind) : kinds.any t.is = kinds.any u.is := by
  have hsame : t.is = u.is := funext h.is
  rw [hsame]

theorem isValue (h : t.Alike u) (kind : TokenKind) (value : String) :
    t.isValue kind value = u.isValue kind value := by
  rw [Token.isValue, Token.isValue, h.is kind, h.value]

end Token.Alike

/-- The causes are the same, but for the place where a block was opened. -/
inductive Cause.Alike : Cause → Cause → Prop
  | same (c : Cause) : Alike c c
  | unclosedBlock (opened opened' : Span) : Alike (.unclosedBlock opened) (.unclosedBlock opened')

/-- The failures differ in positions at most. -/
structure Diagnostic.Alike (d d' : Diagnostic) : Prop where
  cause : d.cause.Alike d'.cause
  placed : d.span.isSome = d'.span.isSome
  help : d.help = d'.help

/-! ## Nodes and arenas -/

/-- The nodes differ in the layout of their tokens at most. -/
structure Node.Alike (m n : Node) : Prop where
  id : m.id = n.id
  token : m.token.Alike n.token
  tags : m.tags = n.tags
  expr : m.expr = n.expr

/-- The arenas have as many nodes, and the nodes of each handle are alike. -/
structure Arena.Alike (a b : Arena) : Prop where
  size : a.size = b.size
  nodes : ∀ id, Option.Rel Node.Alike (a.node? id) (b.node? id)

/-- The workspaces have arenas that are alike, and the same operators.  Events and reports tell
of positions, and nothing is decided by them. -/
structure Workspace.Alike (w v : Workspace) : Prop where
  arena : w.arena.Alike v.arena
  operators : w.operators = v.operators

end ApiSyntax
