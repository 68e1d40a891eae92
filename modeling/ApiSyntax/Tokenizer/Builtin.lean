/-
  ApiSyntax/Tokenizer/Builtin.lean --- the categories of the language.

  Order decides between categories that match at one place: keywords stand before
  identifiers, reals before integers, the shelf before the dot, and operators before
  the single equals sign, which is no operator.
-/
import ApiSyntax.Pattern.Reader
import ApiSyntax.Tokenizer.Basic

set_option autoImplicit false

namespace ApiSyntax.Tokenizer

open Pattern

/-! ## The patterns -/

/-- The decimal digits of the basic alphabet. -/
def digitSet : CharSet := .ranges [('0', '9')]

/-- What a name may go on with. -/
def nameSet : CharSet := .ranges [('A', 'Z'), ('a', 'z'), ('0', '9'), ('_', '_')]

/-- What an identifier starts with. -/
def lowerStart : CharSet := .ranges [('a', 'z'), ('_', '_')]

/-- What a type identifier starts with. -/
def upperStart : CharSet := .ranges [('A', 'Z')]

/-- What a part of a qualified name behind a separator starts with. -/
def partStart : CharSet := .ranges [('A', 'Z'), ('a', 'z'), ('_', '_')]

/-- The signs that operators start with. -/
def operatorSigns : List Char :=
  ['+', '-', '*', '/', '%', '<', '>', '!', '&', '|', '^', '~', '?']

/-- One or more digits. -/
def digits : Pattern := plus (char digitSet) true

/-- A start and what a name goes on with. -/
def nameOf (start : CharSet) : Pattern := inOrder [char start, star (char nameSet) true]

/-- A type name, with any number of parts behind it. -/
def qualifiedName : Pattern :=
  inOrder [char upperStart, star (char nameSet) true,
    star (inOrder [char (.single ':'), char (.single ':'), char partStart,
      star (char nameSet) true]) true]

/-- A run of operator signs, in which the equals sign is not first; or several equals signs. -/
def operatorRun : Pattern :=
  firstOf [
    inOrder [char (.oneOf operatorSigns), star (char (.oneOf (operatorSigns ++ ['=']))) true],
    inOrder [char (.single '='), plus (char (.single '=')) true]]

/-- A reserved word that ends where a word ends. -/
def reservedWord : Pattern :=
  inOrder [firstOf (keywords.map fun word => literal word.toList), place .wordBoundary]

/-! ## The categories -/

/-- A category with its pattern as written and as read. -/
def category (kind : TokenKind) (source : String) (p : Pattern) : Category :=
  ⟨kind, source, inOrder [place .textStart, p], false⟩

/-- A category of one text. -/
def fixed (kind : TokenKind) (source text : String) : Category :=
  category kind source (literal text.toList)

/-- The categories of the language, in the order of their priority. -/
def builtinCategories : List Category :=
  [(category .whitespace "\\s+" (plus (char .blank) true)).discard,
    category .real "[0-9]+\\.[0-9]+" (inOrder [digits, char (.single '.'), digits]),
    category .integer "[0-9]+" digits,
    category .keyword ("(?:" ++ "|".intercalate keywords ++ ")\\b") reservedWord,
    category .identifier "[a-z_][A-Za-z0-9_]*" (nameOf lowerStart),
    category .typeIdentifier "[A-Z][A-Za-z0-9_]*(?:::[A-Za-z_][A-Za-z0-9_]*)*" qualifiedName,
    fixed .colon ":" ":",
    fixed .comma "," ",",
    fixed .shelf "\\.\\.\\." "...",
    fixed .dot "\\." ".",
    fixed .lparen "\\(" "(",
    fixed .rparen "\\)" ")",
    fixed .lbracket "\\[" "[",
    fixed .rbracket "\\]" "]",
    fixed .lbrace "\\\x7b" "\x7b",
    fixed .rbrace "\\\x7d" "\x7d",
    category .operator "[+\\-*/%<>!&|^~?][+\\-*/%<>!&|^~?=]*|==+" operatorRun,
    fixed .assign "=" "=",
    fixed .annotationSign "@" "@"]

/-- The tokenizer of the language. -/
def builtin : Tokenizer := ⟨builtinCategories⟩

/-- The patterns as read are what reading the patterns as written gives. -/
theorem builtinCategories_ofText :
    (builtinCategories.all fun c => decide
      ((Pattern.ofText (Category.anchoredText c.source)).toOption = some c.pattern)) = true := by
  decide +kernel

end ApiSyntax.Tokenizer
