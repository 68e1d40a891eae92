/-
  ApiSyntax/Operators/Basic.lean --- where an operator stands and how it binds.
-/
set_option autoImplicit false

namespace ApiSyntax

/-- Where an operator stands relative to its operands. -/
inductive Fixity
  | prefixOp
  | infixOp
deriving DecidableEq, Repr, Inhabited

/-- The word for a fixity in messages. -/
def Fixity.text : Fixity → String
  | .prefixOp => "prefix"
  | .infixOp => "infix"

/-- How one operator binds relative to another: tighter, looser, or neither. -/
inductive Precedence
  | greater
  | lesser
  | equal
deriving DecidableEq, Repr, Inhabited

namespace Precedence

/-- The same fact seen from the other operator. -/
def inverse : Precedence → Precedence
  | greater => lesser
  | lesser => greater
  | equal => equal

/-- The name of a precedence in messages and documents. -/
def name : Precedence → String
  | greater => "Greater"
  | lesser => "Lesser"
  | equal => "Equal"

/-- The precedence of a name. -/
def ofName? (name : String) : Option Precedence :=
  [greater, lesser, equal].find? fun p => p.name == name

@[simp] theorem inverse_inverse (p : Precedence) : p.inverse.inverse = p := by
  cases p <;> rfl

end Precedence

/-- The name of a fixity in documents. -/
def Fixity.name : Fixity → String
  | .prefixOp => "Prefix"
  | .infixOp => "Infix"

/-- The fixity of a name. -/
def Fixity.ofName? (name : String) : Option Fixity :=
  [prefixOp, infixOp].find? fun f => f.name == name

end ApiSyntax
