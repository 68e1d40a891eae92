/-
  ApiSyntax/Token.lean --- categories of tokens, and tokens.

  A category is identified by its name: a category registered at run time under
  the name of a built-in one is the same category.  Only the wording used when a
  category was expected but not found (`describe`) tells the two apart.
-/
import ApiSyntax.Source

set_option autoImplicit false

namespace ApiSyntax

/-! ## Categories -/

/-- The category of a token. -/
inductive TokenKind
  | whitespace
  | real
  | integer
  | keyword
  | identifier
  | typeIdentifier
  | colon
  | comma
  | shelf
  | dot
  | lparen
  | rparen
  | lbracket
  | rbracket
  | lbrace
  | rbrace
  | operator
  | assign
  | annotationSign
  /-- A category registered at run time. -/
  | custom (name : String)
deriving Repr, Inhabited

namespace TokenKind

/-- The name that identifies a category. -/
def name : TokenKind → String
  | whitespace => "Whitespace"
  | real => "Real"
  | integer => "Integer"
  | keyword => "Keyword"
  | identifier => "Identifier"
  | typeIdentifier => "TypeIdentifier"
  | colon => "Colon"
  | comma => "Comma"
  | shelf => "Shelf"
  | dot => "Dot"
  | lparen => "LParen"
  | rparen => "RParen"
  | lbracket => "LBracket"
  | rbracket => "RBracket"
  | lbrace => "LBrace"
  | rbrace => "RBrace"
  | operator => "Operator"
  | assign => "Assign"
  | annotationSign => "Annotation"
  | custom name => name

/-- The built-in categories, in the order of their priority. -/
def builtins : List TokenKind :=
  [whitespace, real, integer, keyword, identifier, typeIdentifier, colon, comma, shelf, dot,
    lparen, rparen, lbracket, rbracket, lbrace, rbrace, operator, assign, annotationSign]

/-- The category that a name stands for: the built-in one of that name, if any. -/
def ofName (name : String) : TokenKind :=
  (builtins.find? fun kind => kind.name == name).getD (custom name)

/-- The wording used when this category was expected. -/
def describe : TokenKind → String
  | colon => "':'"
  | comma => "','"
  | shelf => "'...'"
  | dot => "'.'"
  | lparen => "'('"
  | rparen => "')'"
  | lbracket => "'['"
  | rbracket => "']'"
  | lbrace => "'\x7b'"
  | rbrace => "'\x7d'"
  | assign => "'='"
  | annotationSign => "'@'"
  | real => "real number"
  | integer => "integer"
  | keyword => "keyword"
  | identifier => "identifier"
  | typeIdentifier => "type identifier"
  | operator => "operator"
  | whitespace => "Whitespace"
  | custom name => name

/-- Two categories are the same when their names are. -/
def same (a b : TokenKind) : Bool := a.name == b.name

@[simp] theorem same_iff (a b : TokenKind) : a.same b = true ↔ a.name = b.name := by
  simp [same]

end TokenKind

/-! ## Tokens -/

/-- A token: its category, the exact text it was read from, and where that text starts. -/
structure Token where
  kind : TokenKind
  value : String
  span : Span
deriving Repr, Inhabited

namespace Token

/-- The token belongs to the category `kind`. -/
def is (t : Token) (kind : TokenKind) : Bool := t.kind.same kind

/-- The token belongs to the category `kind` and reads `value`. -/
def isValue (t : Token) (kind : TokenKind) (value : String) : Bool :=
  t.is kind && t.value == value

/-- Tokens agree when they have the same category, text and position. -/
def agrees (a b : Token) : Bool := a.kind.same b.kind && a.value == b.value && a.span == b.span

/-- Token by token agreement of two sequences of one length. -/
def agreeAll : List Token → List Token → Bool
  | [], [] => true
  | a :: as, b :: bs => a.agrees b && agreeAll as bs
  | _, _ => false

end Token

/-! ## Keywords -/

/-- The closed set of reserved words. -/
def keywords : List String := ["api", "type", "within", "with", "defer", "return"]

/-- A word is reserved. -/
def isKeyword (word : String) : Bool := keywords.contains word

end ApiSyntax
