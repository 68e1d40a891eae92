/-
  ApiSyntax/Arena/NodeId.lean --- handles of syntax nodes.

  In a machine a handle is a word of 32 bits.  Here it is a number, so everything that is
  said of arenas is said of those with at most 2 ^ 32 nodes; a larger one would give two of
  its nodes the same handle.
-/
set_option autoImplicit false

namespace ApiSyntax

/-- The handle of a node: its place in the arena, fixed when the node is made. -/
structure NodeId where
  index : Nat
deriving DecidableEq, Repr, Inhabited

/-- Handles are shown with a number sign. -/
def NodeId.text (id : NodeId) : String := "#" ++ toString id.index

end ApiSyntax
