/-
  ApiSyntax/Diagnostic.lean --- what can fail, where, and how it is told.

  A failure is a cause with its data; codes and wording are functions of the
  cause.  A diagnostic adds the position, when there is one, and a hint.
  `Diagnostic.render` draws it under the line it points at.
-/
import ApiSyntax.Arena.NodeId
import ApiSyntax.Operators.Basic
import ApiSyntax.Token

set_option autoImplicit false

namespace ApiSyntax

/-! ## Causes -/

/-- Everything that can go wrong. -/
inductive Cause
  | outOfTokens
  | unexpectedToken (found expected : String)
  | unclosedBlock (opened : Span)
  | codeAfterReturn
  | deferReturn
  | unknownOperator (symbol : String) (fixity : Fixity)
  | alreadyDeclaredOperator (symbol : String)
  | alreadyRelated (left right : String)
  | unknownExtension (name : String)
  | extensionParameterMismatch (name expected found : String)
  | duplicateExtension (name : String)
  | duplicateLexicalCategory (name : String)
  | unknownLexicalCategory (name : String)
  | invalidPattern (name reason : String)
  | lexicalError (fragment : String)
  | childMismatch (parent target : NodeId) (matched : Nat)
  | unknownNode (id : NodeId)
  | ambiguousGrammar (rules : String)
  | invalidLiteral (text : String)
  | invalidConfig (reason : String)
  | sharedNode (id : NodeId) (parents : Nat)
deriving DecidableEq, Repr, Inhabited

namespace Cause

/-- The stable code of a cause. -/
def code : Cause → String
  | outOfTokens => "T0001"
  | unexpectedToken .. => "T0002"
  | unclosedBlock .. => "T0003"
  | codeAfterReturn => "T0004"
  | deferReturn => "T0005"
  | unknownOperator .. => "T0006"
  | alreadyDeclaredOperator .. => "T0007"
  | alreadyRelated .. => "T0008"
  | unknownExtension .. => "T0009"
  | extensionParameterMismatch .. => "T0010"
  | duplicateExtension .. => "T0011"
  | duplicateLexicalCategory .. => "T0012"
  | unknownLexicalCategory .. => "T0013"
  | invalidPattern .. => "T0014"
  | lexicalError .. => "T0015"
  | childMismatch .. => "T0016"
  | unknownNode .. => "T0017"
  | ambiguousGrammar .. => "T0018"
  | invalidLiteral .. => "T0019"
  | invalidConfig .. => "T0020"
  | sharedNode .. => "T0021"

/-- The name of a cause in documents. -/
def name : Cause → String
  | outOfTokens => "OutOfTokens"
  | unexpectedToken .. => "UnexpectedToken"
  | unclosedBlock .. => "UnclosedBlock"
  | codeAfterReturn => "CodeAfterReturn"
  | deferReturn => "DeferReturn"
  | unknownOperator .. => "UnknownOperator"
  | alreadyDeclaredOperator .. => "AlreadyDeclaredOperator"
  | alreadyRelated .. => "AlreadyRelated"
  | unknownExtension .. => "UnknownExtension"
  | extensionParameterMismatch .. => "ExtensionParameterMismatch"
  | duplicateExtension .. => "DuplicateExtension"
  | duplicateLexicalCategory .. => "DuplicateLexicalCategory"
  | unknownLexicalCategory .. => "UnknownLexicalCategory"
  | invalidPattern .. => "InvalidPattern"
  | lexicalError .. => "LexicalError"
  | childMismatch .. => "ChildRewrite"
  | unknownNode .. => "UnknownNode"
  | ambiguousGrammar .. => "AmbiguousGrammar"
  | invalidLiteral .. => "InvalidLiteral"
  | invalidConfig .. => "InvalidConfig"
  | sharedNode .. => "SharedNode"

/-- The wording of a cause. -/
def message : Cause → String
  | outOfTokens => "unexpected end of input"
  | unexpectedToken found expected =>
      "unexpected token `" ++ found ++ "`, expected " ++ expected
  | unclosedBlock opened => "block opened at " ++ opened.text ++ " is never closed"
  | codeAfterReturn => "code after return statement"
  | deferReturn => "a `defer` block cannot contain a return statement"
  | unknownOperator symbol fixity =>
      "unknown " ++ fixity.text ++ " operator `" ++ symbol ++ "`"
  | alreadyDeclaredOperator symbol => "operator `" ++ symbol ++ "` is already declared"
  | alreadyRelated left right =>
      "operators `" ++ left ++ "` and `" ++ right ++ "` are already related"
  | unknownExtension name => "unknown extension `" ++ name ++ "`"
  | extensionParameterMismatch name expected found =>
      "extension `" ++ name ++ "` expects (" ++ expected ++ ") but was given (" ++ found ++ ")"
  | duplicateExtension name => "extension `" ++ name ++ "` is already registered"
  | duplicateLexicalCategory name => "lexical category `" ++ name ++ "` already exists"
  | unknownLexicalCategory name => "unknown lexical category `" ++ name ++ "`"
  | invalidPattern name reason =>
      "invalid pattern for lexical category `" ++ name ++ "`: " ++ reason
  | lexicalError fragment => "no lexical category matches `" ++ fragment ++ "`"
  | childMismatch parent target matched =>
      "node " ++ parent.text ++ " has " ++ toString matched ++ " children matching node " ++
        target.text ++ ", expected exactly one"
  | unknownNode id => "node " ++ id.text ++ " does not exist"
  | ambiguousGrammar rules => "grammar is ambiguous: " ++ rules ++ " all accept the same input"
  | invalidLiteral text => "invalid literal `" ++ text ++ "`"
  | invalidConfig reason => "invalid parser configuration: " ++ reason
  | sharedNode id parents =>
      "node " ++ id.text ++ " has " ++ toString parents ++ " parents, expected at most one"

end Cause

/-! ## Diagnostics -/

/-- A failure: its cause, its position when one is known, and a hint. -/
structure Diagnostic where
  cause : Cause
  span : Option Span := none
  help : Option String := none
deriving DecidableEq, Repr, Inhabited

namespace Diagnostic

/-- A failure without position or hint. -/
def of (cause : Cause) : Diagnostic := ⟨cause, none, none⟩

/-- The failure, placed at `span` whatever position it had. -/
def placed (d : Diagnostic) (span : Span) : Diagnostic := { d with span := some span }

/-- The failure, placed at `span` unless it already has a position. -/
def orPlaced (d : Diagnostic) (span : Span) : Diagnostic :=
  { d with span := some (d.span.getD span) }

/-- The failure with a hint. -/
def hinted (d : Diagnostic) (help : String) : Diagnostic := { d with help := some help }

/-- The end of the input came too early. -/
def outOfTokens : Diagnostic := of .outOfTokens

/-- The token `found` stands where `expected` should. -/
def unexpected (found : Token) (expected : String) : Diagnostic :=
  (of (.unexpectedToken found.value expected)).placed found.span

/-- The one-line text: the wording of the cause, then the position. -/
def message (d : Diagnostic) : String :=
  d.cause.message ++
    match d.span with
    | some span => " at " ++ span.text
    | none => ""

/-! ## Drawing -/

/-- `text` behind as many blanks as it takes to fill `width` columns. -/
def padLeft (width : Nat) (text : String) : String :=
  String.ofList (List.replicate (width - text.length) ' ') ++ text

/-- The quoted source line with its number. -/
def quotedLine (source : List Char) (span : Span) : String :=
  padLeft 3 (toString (span.line + 1)) ++ " | " ++ String.ofList (lineAt source span.line)

/-- The caret under column `column` of the quoted line. -/
def caretLine (column : Nat) : String :=
  "   | " ++ String.ofList (List.replicate column ' ') ++ "^"

/-- The lines of the drawing: header, place, and with a position the quoted line and
the caret; last the hint. -/
def drawing (d : Diagnostic) (file : String) (source : List Char) : List String :=
  ["error[" ++ d.cause.code ++ "]: " ++ d.cause.message] ++
    (match d.span with
     | some span =>
        ["  --> " ++ file ++ ":" ++ span.text, "   |", quotedLine source span,
          caretLine span.column]
     | none => ["  --> " ++ file]) ++
    (match d.help with
     | some help => ["help: " ++ help]
     | none => [])

/-- The drawing as one text, each line ended by a newline. -/
def render (d : Diagnostic) (file : String) (source : List Char) : String :=
  String.join ((d.drawing file source).map (· ++ "\n"))

end Diagnostic

end ApiSyntax
