/-
  ApiSyntax/Operators/Rotation.lean --- settling a binary node against its operands.

  A right-leaning chain is built first and then settled.  A bare binary operand that
  binds looser than the node is lifted: the node sinks under it, is settled again,
  and the operand takes its place.

      (a lo b) op c   becomes   a lo (b op c)
      a op (b lo c)   becomes   (a op b) lo c

  Nodes keep their handle and token, so each operator stays in the node it was read
  into.  A parenthesized binary is a unit and takes no part.
-/
import ApiSyntax.Workspace

set_option autoImplicit false

namespace ApiSyntax

/-- The operator and operands of a binary node without parentheses. -/
structure OpenBinary where
  operator : String
  left : NodeId
  right : NodeId
deriving DecidableEq, Repr, Inhabited

/-- The contents, if they are a binary without parentheses. -/
def Expr.openBinary? : Expr → Option OpenBinary
  | binary operator left right false => some ⟨operator, left, right⟩
  | _ => none

/-- The contents of a binary without parentheses. -/
def OpenBinary.toExpr (b : OpenBinary) : Expr := .binary b.operator b.left b.right false

/-- What a binary node needs in order to be settled. -/
inductive Turn
  /-- Nothing: it is no open binary, or neither operand binds looser. -/
  | stay
  /-- The left operand is lifted over the node. -/
  | liftLeft (node lifted : OpenBinary)
  /-- The right operand is lifted over the node. -/
  | liftRight (node lifted : OpenBinary)
deriving DecidableEq, Repr, Inhabited

namespace Turn

/-- The right operand is lifted when it is an open binary that binds looser than the node. -/
def ofRight (a : Arena) (t : OperatorTable) (node : OpenBinary) : Except Diagnostic Turn :=
  (a.expr node.right).map fun e =>
    match e.openBinary? with
    | some lifted =>
        if t.precedence lifted.operator node.operator = .lesser then .liftRight node lifted
        else .stay
    | none => .stay

/-- The left operand is looked at first.  It is lifted when the node binds tighter than it. -/
def ofBinary (a : Arena) (t : OperatorTable) (node : OpenBinary) : Except Diagnostic Turn := do
  let e ← a.expr node.left
  match e.openBinary? with
  | some lifted =>
      if t.precedence node.operator lifted.operator = .greater then return .liftLeft node lifted
      else ofRight a t node
  | none => ofRight a t node

/-- The turn that the node at a handle needs. -/
def of (a : Arena) (t : OperatorTable) (id : NodeId) : Except Diagnostic Turn := do
  let e ← a.expr id
  match e.openBinary? with
  | some node => ofBinary a t node
  | none => return .stay

end Turn

namespace Workspace

/-- The contents of a binary node are overwritten. -/
def setBinary (id : NodeId) (b : OpenBinary) : Action Workspace Stop Unit :=
  onArena (.change (·.setExpr id b.toExpr))

/-- The node at a handle is settled; the answer is the node that takes its place. -/
def settleN : Nat → NodeId → Action Workspace Stop NodeId
  | 0, _ => .fail .exhausted
  | fuel + 1, id => do
      match ← ask fun w => (Turn.of w.arena w.operators id).mapError .failed with
      | .stay => return id
      | .liftLeft node lifted =>
          note (.rotating node.operator lifted.operator .left)
          setBinary id ⟨node.operator, lifted.right, node.right⟩
          let settled ← settleN fuel id
          setBinary node.left ⟨lifted.operator, lifted.left, settled⟩
          return node.left
      | .liftRight node lifted =>
          note (.rotating node.operator lifted.operator .right)
          setBinary id ⟨node.operator, node.left, lifted.left⟩
          let settled ← settleN fuel id
          setBinary node.right ⟨lifted.operator, settled, lifted.right⟩
          return node.right

/-- The node at a handle is settled.  Each turn moves one operand a step down a path of the
tree, and there are two such paths, so twice the size of the arena bounds the turns. -/
def settle (id : NodeId) : Action Workspace Stop NodeId := fun w =>
  settleN (2 * w.arena.size + 2) id w

end Workspace

end ApiSyntax
