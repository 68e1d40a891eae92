/-
  ApiSyntax/Config.lean --- the two switches of a parse, and their document.

  The document is an object with the names of the switches, or a list with their
  values in order.  A switch that is not given keeps its default; one given twice,
  one that does not exist and a value that is no truth value are refused.
-/
import ApiSyntax.Diagnostic
import ApiSyntax.Number.Digits

set_option autoImplicit false

namespace ApiSyntax

/-- The switches of a parse. -/
structure Config where
  /-- Tokens that start nothing at the top level are passed over. -/
  permissive : Bool
  /-- Qualified type names are replaced by their flat form. -/
  mangleQualifiedNames : Bool
deriving DecidableEq, Repr, Inhabited

namespace Config

/-- The switches as they stand when nothing is said. -/
def default : Config := ⟨false, true⟩

/-- The default with recovery at the top level. -/
def permissiveDefault : Config := { default with permissive := true }

/-! ## Reading -/

/-- Why a text is no configuration. -/
inductive Fault
  | malformed
  | unknownField
  | repeatedField
  | tooManyFields
deriving DecidableEq, Repr, Inhabited

/-- The wording of a fault. -/
def Fault.message : Fault → String
  | malformed => "the document is malformed"
  | unknownField => "a field is not known"
  | repeatedField => "a field is given twice"
  | tooManyFields => "there are more values than fields"

/-- The blanks between the parts of a document. -/
def isDocumentBlank (c : Char) : Bool := c == ' ' || c == '\t' || c == '\n' || c == '\r'

/-- A text without the blanks in front of it. -/
def trimFront (text : List Char) : List Char := text.dropWhile isDocumentBlank

/-- The text behind a truth value, with that value. -/
def readBool (text : List Char) : Except Fault (Bool × List Char) :=
  if ['t', 'r', 'u', 'e'].isPrefixOf text then .ok (true, text.drop 4)
  else if ['f', 'a', 'l', 's', 'e'].isPrefixOf text then .ok (false, text.drop 5)
  else .error .malformed

/-- The code unit of four digits. -/
def readUnit (text : List Char) : Except Fault (Nat × List Char) :=
  let digits := text.take 4
  match digits.length == 4, hexValue digits with
  | true, some n => .ok (n, text.drop 4)
  | _, _ => .error .malformed

/-- The character of one code unit, or of two that belong together. -/
def readEscapedUnits (text : List Char) : Except Fault (Char × List Char) := do
  let (high, rest) ← readUnit text
  if 0xD800 ≤ high ∧ high < 0xDC00 then
    match rest with
    | '\\' :: 'u' :: rest => do
        let (low, rest) ← readUnit rest
        if 0xDC00 ≤ low ∧ low < 0xE000 then
          return (Char.ofNat (0x10000 + (high - 0xD800) * 0x400 + (low - 0xDC00)), rest)
        else throw .malformed
    | _ => throw .malformed
  else if high.isValidChar then return (Char.ofNat high, rest)
  else throw .malformed

/-- The character that an escape stands for, behind its backslash. -/
def readEscaped : List Char → Except Fault (Char × List Char)
  | '"' :: rest => .ok ('"', rest)
  | '\\' :: rest => .ok ('\\', rest)
  | '/' :: rest => .ok ('/', rest)
  | 'b' :: rest => .ok ('\x08', rest)
  | 'f' :: rest => .ok ('\x0c', rest)
  | 'n' :: rest => .ok ('\n', rest)
  | 'r' :: rest => .ok ('\r', rest)
  | 't' :: rest => .ok ('\t', rest)
  | 'u' :: rest => readEscapedUnits rest
  | _ => .error .malformed

/-- The characters up to a quotation mark, latest first, and the text behind it. -/
def readNameN : Nat → List Char → List Char → Except Fault (List Char × List Char)
  | 0, _, _ => .error .malformed
  | _ + 1, _, [] => .error .malformed
  | fuel + 1, read, c :: rest =>
      if c = '"' then .ok (read, rest)
      else if c = '\\' then do
        let (e, rest) ← readEscaped rest
        readNameN fuel (e :: read) rest
      else if c.toNat < 32 then .error .malformed
      else readNameN fuel (c :: read) rest

/-- A name between quotation marks, and the text behind it. -/
def readName : List Char → Except Fault (String × List Char)
  | '"' :: rest => do
      let (read, rest) ← readNameN (rest.length + 1) [] rest
      return (String.ofList read.reverse, rest)
  | _ => .error .malformed

/-- The switches that a document has given so far. -/
structure Given where
  permissive : Option Bool
  mangleQualifiedNames : Option Bool

namespace Given

/-- No switch. -/
def none : Given := ⟨Option.none, Option.none⟩

/-- One more switch, by its name. -/
def add (g : Given) (name : String) (value : Bool) : Except Fault Given :=
  if name = "permissive" then
    if g.permissive.isSome then .error .repeatedField else .ok { g with permissive := some value }
  else if name = "mangle_qualified_names" then
    if g.mangleQualifiedNames.isSome then .error .repeatedField
    else .ok { g with mangleQualifiedNames := some value }
  else .error .unknownField

/-- The switches, those not given by their default. -/
def toConfig (g : Given) : Config :=
  ⟨g.permissive.getD default.permissive,
    g.mangleQualifiedNames.getD default.mangleQualifiedNames⟩

end Given

/-- The fields of an object from a name on, up to the closing brace. -/
def readFieldsN : Nat → Given → List Char → Except Fault (Given × List Char)
  | 0, _, _ => .error .malformed
  | fuel + 1, g, text => do
      let (name, rest) ← readName (trimFront text)
      match trimFront rest with
      | ':' :: rest => do
          let (value, rest) ← readBool (trimFront rest)
          let g ← g.add name value
          match trimFront rest with
          | ',' :: rest => readFieldsN fuel g rest
          | '\x7d' :: rest => return (g, rest)
          | _ => throw .malformed
      | _ => throw .malformed

/-- The values of a list from a value on, up to the closing bracket. -/
def readValuesN : Nat → List Bool → List Char → Except Fault (List Bool × List Char)
  | 0, _, _ => .error .malformed
  | fuel + 1, values, text => do
      let (value, rest) ← readBool (trimFront text)
      let values := values ++ [value]
      match trimFront rest with
      | ',' :: rest => readValuesN fuel values rest
      | ']' :: rest => return (values, rest)
      | _ => throw .malformed

/-- The switches of values in order. -/
def ofValues : List Bool → Except Fault Given
  | [] => .ok .none
  | [p] => .ok ⟨some p, none⟩
  | [p, m] => .ok ⟨some p, some m⟩
  | _ => .error .tooManyFields

/-- An object or a list, and the text behind it. -/
def readDocument (text : List Char) : Except Fault (Given × List Char) :=
  match trimFront text with
  | '\x7b' :: rest =>
      match trimFront rest with
      | '\x7d' :: rest => .ok (.none, rest)
      | rest => readFieldsN (rest.length + 1) .none rest
  | '[' :: rest =>
      match trimFront rest with
      | ']' :: rest => .ok (.none, rest)
      | rest => do
          let (values, rest) ← readValuesN (rest.length + 1) [] rest
          let g ← ofValues values
          return (g, rest)
  | _ => .error .malformed

/-- The configuration that a document gives; nothing but blanks may stand behind it. -/
def read (text : List Char) : Except Fault Config := do
  let (g, rest) ← readDocument text
  if (trimFront rest).isEmpty then return g.toConfig else throw .malformed

/-- The configuration that a document gives. -/
def ofText (text : List Char) : Except Diagnostic Config :=
  (read text).mapError fun f => .of (.invalidConfig f.message)

end Config

end ApiSyntax
