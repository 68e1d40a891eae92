/-
  ApiSyntax/Json.lean --- document values and their two layouts.

  `compact` writes a value on one line without blanks; `pretty` gives each item of a
  list and each field a line of its own, two blanks deeper than its surroundings.
  Fields keep the order in which they were given.
-/
import ApiSyntax.Number.RealText
import ApiSyntax.Text.Quoted
import ApiSyntax.Token

set_option autoImplicit false

namespace ApiSyntax

/-- A document value. -/
inductive Json
  | null
  | bool (value : Bool)
  | int (value : Int)
  | real (value : Binary64)
  | text (value : String)
  | list (items : List Json)
  | object (fields : List (String × Json))

namespace Json

/-- A number that is never negative. -/
def nat (n : Nat) : Json := int n

/-- A value that may be missing. -/
def option {α : Type} (f : α → Json) : Option α → Json
  | none => null
  | some a => f a

/-- A real number as it stands in a document; what has no digits is `null`. -/
def realText (x : Binary64) : String :=
  match x.text? with
  | some digits => String.ofList digits
  | none => "null"

mutual

/-- The value on one line, without blanks. -/
def compact : Json → String
  | null => "null"
  | bool value => if value then "true" else "false"
  | int value => toString value
  | real value => realText value
  | text value => documentQuoted value
  | list items => "[" ++ compactItems items ++ "]"
  | object fields => "\x7b" ++ compactFields fields ++ "\x7d"

/-- The items of a list, separated by commas. -/
def compactItems : List Json → String
  | [] => ""
  | [item] => compact item
  | item :: rest => compact item ++ "," ++ compactItems rest

/-- The fields of an object, separated by commas. -/
def compactFields : List (String × Json) → String
  | [] => ""
  | [(key, value)] => documentQuoted key ++ ":" ++ compact value
  | (key, value) :: rest =>
      documentQuoted key ++ ":" ++ compact value ++ "," ++ compactFields rest

end

/-- A new line `depth` levels deep. -/
def newLine (depth : Nat) : String := "\n" ++ String.ofList (List.replicate (2 * depth) ' ')

mutual

/-- The value with one item or field a line, `depth` levels deep. -/
def prettyAt (depth : Nat) : Json → String
  | null => "null"
  | bool value => if value then "true" else "false"
  | int value => toString value
  | real value => realText value
  | text value => documentQuoted value
  | list [] => "[]"
  | list (item :: rest) =>
      "[" ++ newLine (depth + 1) ++ prettyAt (depth + 1) item ++ prettyItems (depth + 1) rest ++
        newLine depth ++ "]"
  | object [] => "\x7b\x7d"
  | object ((key, value) :: rest) =>
      "\x7b" ++ newLine (depth + 1) ++ documentQuoted key ++ ": " ++ prettyAt (depth + 1) value ++
        prettyFields (depth + 1) rest ++ newLine depth ++ "\x7d"

/-- The items behind the first, each behind a comma. -/
def prettyItems (depth : Nat) : List Json → String
  | [] => ""
  | item :: rest => "," ++ newLine depth ++ prettyAt depth item ++ prettyItems depth rest

/-- The fields behind the first, each behind a comma. -/
def prettyFields (depth : Nat) : List (String × Json) → String
  | [] => ""
  | (key, value) :: rest =>
      "," ++ newLine depth ++ documentQuoted key ++ ": " ++ prettyAt depth value ++
        prettyFields depth rest

end

/-- The value with one item or field a line. -/
def pretty (value : Json) : String := prettyAt 0 value

end Json

/-- The document form of a position. -/
def Span.toJson (s : Span) : Json :=
  .object [("line", .nat s.line), ("column", .nat s.column), ("offset", .nat s.offset)]

/-- The document form of a token. -/
def Token.toJson (t : Token) : Json :=
  .object [("kind", .text t.kind.name), ("value", .text t.value), ("span", t.span.toJson)]

end ApiSyntax
