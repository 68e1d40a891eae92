/-
  ApiSyntax/Arena/Basic.lean --- the arena that every syntax node lives in.

  Nodes are made at the end and never move or disappear; a handle is the place of
  its node.  A subtree is changed by pointing one child slot elsewhere
  (`replaceChild`) or by overwriting the contents of a node (`replace`).  Every
  operation that is given a handle checks it against the arena of that moment.
-/
import ApiSyntax.Action
import ApiSyntax.Arena.Expr

set_option autoImplicit false

namespace ApiSyntax

/-! ## Nodes -/

/-- A named mark on a node, with the annotation node that it comes from, if any. -/
structure Tag where
  name : String
  origin : Option NodeId
deriving DecidableEq, Repr, Inhabited

/-- A syntax node: its handle, the token it starts at, its tags and its contents. -/
structure Node where
  id : NodeId
  token : Token
  tags : List Tag
  expr : Expr
deriving Repr, Inhabited

namespace Node

/-- The kind of the contents. -/
def kind (n : Node) : NodeKind := n.expr.kind

/-- The position of the token that the node starts at. -/
def span (n : Node) : Span := n.token.span

/-- The tag of a name. -/
def tag? (n : Node) (name : String) : Option Tag := n.tags.find? fun t => t.name == name

/-- The document form of a node. -/
def toJson (n : Node) : Json :=
  .object [("id", Expr.idJson n.id), ("token", n.token.toJson),
    ("annotations", .list (n.tags.map fun t =>
      .object [("name", .text t.name), ("origin", Expr.optionJson t.origin)])),
    ("expr", n.expr.toJson)]

end Node

/-! ## Arenas -/

/-- All nodes, in the order in which they were made. -/
structure Arena where
  nodes : Array Node
deriving Repr, Inhabited

namespace Arena

/-- The arena without nodes. -/
def empty : Arena := ⟨#[]⟩

/-- The number of nodes. -/
def size (a : Arena) : Nat := a.nodes.size

/-- The handle that the next node gets. -/
def next (a : Arena) : NodeId := ⟨a.size⟩

/-- The arena with one more node; its handle is `next`. -/
def push (a : Arena) (token : Token) (expr : Expr) : Arena :=
  ⟨a.nodes.push ⟨a.next, token, [], expr⟩⟩

/-- The node of a handle, unless the handle is foreign. -/
def node? (a : Arena) (id : NodeId) : Option Node := a.nodes[id.index]?

/-- The node of a handle. -/
def node (a : Arena) (id : NodeId) : Except Diagnostic Node :=
  match a.node? id with
  | some n => .ok n
  | none => .error (.of (.unknownNode id))

/-- The contents of the node of a handle. -/
def expr (a : Arena) (id : NodeId) : Except Diagnostic Expr := (a.node id).map (·.expr)

/-- The kind of the node of a handle. -/
def kind (a : Arena) (id : NodeId) : Except Diagnostic NodeKind := (a.node id).map (·.kind)

/-- The child slots of the node of a handle, in the order of the source text. -/
def children (a : Arena) (id : NodeId) : Except Diagnostic (List NodeId) :=
  (a.node id).map (·.expr.children)

/-- The arena with the node at `id` changed; a foreign handle changes nothing. -/
def update (a : Arena) (id : NodeId) (f : Node → Node) : Arena :=
  ⟨a.nodes.modify id.index f⟩

/-- The arena with the contents of `id` overwritten. -/
def setExpr (a : Arena) (id : NodeId) (expr : Expr) : Arena :=
  a.update id fun n => { n with expr := expr }

/-- The arena with the token of `id` overwritten. -/
def setToken (a : Arena) (id : NodeId) (token : Token) : Arena :=
  a.update id fun n => { n with token := token }

/-- A tag is added to a node unless the node has one of that name; the answer says whether it
was new. -/
def tag (a : Arena) (id : NodeId) (t : Tag) : Except Diagnostic (Bool × Arena) :=
  (a.node id).map fun n =>
    if (n.tag? t.name).isSome then (false, a)
    else (true, a.update id fun n => { n with tags := n.tags ++ [t] })

/-- The contents of a node are overwritten; handle, token and tags stay.  The answer is what
was there. -/
def replace (a : Arena) (id : NodeId) (expr : Expr) : Except Diagnostic (Expr × Arena) :=
  (a.node id).map fun n => (n.expr, a.setExpr id expr)

/-- The one child slot of `parent` that holds `target` is pointed at `replacement`. -/
def replaceChild (a : Arena) (parent target replacement : NodeId) :
    Except Diagnostic Arena := do
  let _ ← a.node replacement
  let _ ← a.node target
  let n ← a.node parent
  let matched := n.expr.children.count target
  if matched = 1 then return a.setExpr parent (n.expr.redirect target replacement)
  else throw ((Diagnostic.of (.childMismatch parent target matched)).placed n.span)

/-- The handles of the nodes that list `id` as a child. -/
def parents (a : Arena) (id : NodeId) : List NodeId :=
  (a.nodes.toList.filter fun n => n.expr.hasChild id).map (·.id)

/-- The node that lists `id` as a child.  Two such nodes are a defect. -/
def findParent (a : Arena) (id : NodeId) : Except Diagnostic (Option NodeId) :=
  match a.parents id with
  | [] => .ok none
  | [parent] => .ok (some parent)
  | many => .error (.of (.sharedNode id many.length))

/-- The document form of the arena. -/
def toJson (a : Arena) : Json := .object [("nodes", .list (a.nodes.toList.map Node.toJson))]

/-! ## Making nodes -/

/-- A node is made; the answer is its handle. -/
def alloc (token : Token) (expr : Expr) : Action Arena Stop NodeId := fun a =>
  (.ok a.next, a.push token expr)

/-- The number of child slots of all nodes. -/
def slotCount (a : Arena) : Nat := a.nodes.foldl (fun n node => n + node.expr.children.length) 0

/-- A copy of the subtree at a handle: copies of the children in their order, then the node
itself, without its tags.  A handle is looked up when its turn comes, so one that was foreign
at the start may by then name a node made on the way. -/
def copyN : Nat → NodeId → Action Arena Stop NodeId
  | 0, _ => .fail .exhausted
  | fuel + 1, id => fun a =>
      match a.node? id with
      | none => (.error (.failed (.of (.unknownNode id))), a)
      | some n =>
          (do
            let copies ← n.expr.children.mapM (copyN fuel)
            alloc n.token (n.expr.withChildren copies)) a

/-- A bound on the depth of a copy.  A way down meets each old node at most once, and what it
meets behind a foreign handle was itself made by copying: each such handle adds at most one
more length of the arena. -/
def copyDepth (a : Arena) : Nat := (a.size + 1) * (a.slotCount + 2)

/-- A copy of the subtree at a handle.  Only a subtree that contains itself uses up the bound. -/
def duplicate (id : NodeId) : Action Arena Stop NodeId := fun a => copyN a.copyDepth id a

/-! ## First facts -/

theorem node?_push_next (a : Arena) (token : Token) (expr : Expr) :
    (a.push token expr).node? a.next = some ⟨a.next, token, [], expr⟩ := by
  simp [push, node?, next, size]

theorem node?_push_of_lt {a : Arena} {token : Token} {expr : Expr} {id : NodeId}
    (h : id.index < a.size) : (a.push token expr).node? id = a.node? id := by
  have hne : id.index ≠ a.nodes.size := Nat.ne_of_lt h
  simp [push, node?, Array.getElem?_push, hne]

@[simp] theorem size_push (a : Arena) (token : Token) (expr : Expr) :
    (a.push token expr).size = a.size + 1 := by
  simp [push, size]

@[simp] theorem size_update (a : Arena) (id : NodeId) (f : Node → Node) :
    (a.update id f).size = a.size := by
  simp [update, size]

theorem node?_update_of_ne {a : Arena} {id other : NodeId} (f : Node → Node) (h : id ≠ other) :
    (a.update id f).node? other = a.node? other := by
  have hne : id.index ≠ other.index := fun e => h (by cases id; cases other; cases e; rfl)
  simp [update, node?, Array.getElem?_modify, hne]

theorem node?_update_self (a : Arena) (id : NodeId) (f : Node → Node) :
    (a.update id f).node? id = (a.node? id).map f := by
  simp [update, node?, Array.getElem?_modify]

end Arena

end ApiSyntax
