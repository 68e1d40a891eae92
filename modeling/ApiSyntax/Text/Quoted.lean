/-
  ApiSyntax/Text/Quoted.lean --- texts between quotation marks.

  Two styles share one frame: `documentEscape` for documents, where only what must
  be escaped is, and `displayEscape` for lists shown to people, where hidden
  characters are written by their code point.
-/
import ApiSyntax.Number.Digits
import ApiSyntax.Text.Visible

set_option autoImplicit false

namespace ApiSyntax

/-- A text between quotation marks, each character written by `escape`. -/
def quoted (escape : Char → List Char) (text : String) : String :=
  String.ofList ('"' :: (text.toList.flatMap escape ++ ['"']))

/-- Documents escape the quotation mark, the backslash and the control characters; five of
those have a letter, the others are written with four digits. -/
def documentEscape (c : Char) : List Char :=
  if c = '"' then ['\\', '"']
  else if c = '\\' then ['\\', '\\']
  else if c = '\n' then ['\\', 'n']
  else if c = '\r' then ['\\', 'r']
  else if c = '\t' then ['\\', 't']
  else if c.toNat = 8 then ['\\', 'b']
  else if c.toNat = 12 then ['\\', 'f']
  else if c.toNat < 32 then ['\\', 'u'] ++ hexDigits 4 c.toNat
  else [c]

/-- Lists shown to people escape the quotation mark, the backslash and what does not show. -/
def displayEscape (c : Char) : List Char :=
  if c = '"' then ['\\', '"']
  else if c = '\\' then ['\\', '\\']
  else if c = '\n' then ['\\', 'n']
  else if c = '\r' then ['\\', 'r']
  else if c = '\t' then ['\\', 't']
  else if c.toNat = 0 then ['\\', '0']
  else if isHidden c then ['\\', 'u', '\x7b'] ++ Nat.toDigits 16 c.toNat ++ ['\x7d']
  else [c]

/-- A text as it stands in a document. -/
def documentQuoted (text : String) : String := quoted documentEscape text

/-- A text as it is shown in a list. -/
def displayQuoted (text : String) : String := quoted displayEscape text

end ApiSyntax
