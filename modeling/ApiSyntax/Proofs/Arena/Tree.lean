/-
  ApiSyntax/Proofs/Arena/Tree.lean --- syntax trees, taken out of the arena.

  A `Tree` is what a handle leads to: the node with its token and contents, and the
  trees of its child slots.  `Arena.Holds` says that an arena holds a tree.  A change
  that only touches the nodes of a tree is a `Rewrites`; all else that the arena holds
  is still held behind it.
-/
import ApiSyntax.Arena.Basic
import Mathlib.Data.List.Nodup
import Mathlib.Data.List.Perm.Basic

set_option autoImplicit false

namespace ApiSyntax

/-! ## Trees -/

/-- A syntax tree with the handles of its nodes. -/
inductive Tree
  | node (id : NodeId) (token : Token) (expr : Expr) (children : List Tree)

namespace Tree

/-- The handle of the root. -/
def root : Tree → NodeId
  | node id _ _ _ => id

/-- The token that the root starts at. -/
def token : Tree → Token
  | node _ token _ _ => token

/-- The contents of the root. -/
def expr : Tree → Expr
  | node _ _ expr _ => expr

/-- The trees of the child slots. -/
def children : Tree → List Tree
  | node _ _ _ children => children

/-- The tree and all trees below it, each ahead of its children. -/
def subtrees : Tree → List Tree
  | node id token expr children => node id token expr children :: children.flatMap subtrees

/-- The handles of all nodes. -/
def handles (t : Tree) : List NodeId := t.subtrees.map root

/-- The handles of all nodes of some trees. -/
def handlesOf (ts : List Tree) : List NodeId := ts.flatMap handles

/-- A tree of one node. -/
def leaf (id : NodeId) (token : Token) (expr : Expr) : Tree := node id token expr []

@[elab_as_elim, induction_eliminator]
theorem induct {motive : Tree → Prop}
    (node : ∀ id token expr children, (∀ c ∈ children, motive c) →
      motive (node id token expr children)) (t : Tree) : motive t :=
  match t with
  | .node id token expr children => node id token expr children fun c _ => induct node c

@[simp] theorem root_node (id : NodeId) (token : Token) (expr : Expr) (children : List Tree) :
    (node id token expr children).root = id := rfl

@[simp] theorem token_node (id : NodeId) (token : Token) (expr : Expr) (children : List Tree) :
    (node id token expr children).token = token := rfl

@[simp] theorem expr_node (id : NodeId) (token : Token) (expr : Expr) (children : List Tree) :
    (node id token expr children).expr = expr := rfl

@[simp] theorem root_leaf (id : NodeId) (token : Token) (expr : Expr) :
    (leaf id token expr).root = id := rfl

theorem subtrees_node (id : NodeId) (token : Token) (expr : Expr) (children : List Tree) :
    (node id token expr children).subtrees =
      node id token expr children :: children.flatMap subtrees := by
  rw [subtrees]

theorem self_mem_subtrees (t : Tree) : t ∈ t.subtrees := by
  cases t
  rw [subtrees_node]
  exact List.mem_cons_self

theorem mem_subtrees {t u : Tree} :
    u ∈ t.subtrees ↔ u = t ∨ ∃ c ∈ t.children, u ∈ c.subtrees := by
  cases t
  rw [subtrees_node, List.mem_cons, List.mem_flatMap]
  rfl

theorem mem_subtrees_of_mem_children {t c : Tree} (h : c ∈ t.children) : c ∈ t.subtrees :=
  mem_subtrees.mpr (.inr ⟨c, h, c.self_mem_subtrees⟩)

theorem mem_subtrees_trans {t u v : Tree} (h : v ∈ u.subtrees) (h' : u ∈ t.subtrees) :
    v ∈ t.subtrees := by
  induction t with
  | node id token expr children ih =>
    rcases mem_subtrees.mp h' with rfl | ⟨c, hc, hu⟩
    · exact h
    · exact mem_subtrees.mpr (.inr ⟨c, hc, ih c hc hu⟩)

theorem handles_node (id : NodeId) (token : Token) (expr : Expr) (children : List Tree) :
    (node id token expr children).handles = id :: handlesOf children := by
  simp only [handles, handlesOf, subtrees_node, List.map_cons, root_node, List.map_flatMap]
  rfl

theorem root_mem_handles (t : Tree) : t.root ∈ t.handles :=
  List.mem_map_of_mem t.self_mem_subtrees

@[simp] theorem handlesOf_nil : handlesOf [] = [] := rfl

@[simp] theorem handlesOf_cons (t : Tree) (ts : List Tree) :
    handlesOf (t :: ts) = t.handles ++ handlesOf ts := List.flatMap_cons

@[simp] theorem handlesOf_append (ts us : List Tree) :
    handlesOf (ts ++ us) = handlesOf ts ++ handlesOf us := List.flatMap_append

theorem handlesOf_perm {ts us : List Tree} (h : ts.Perm us) :
    (handlesOf ts).Perm (handlesOf us) := h.flatMap_right handles

theorem mem_handlesOf {ts : List Tree} {id : NodeId} :
    id ∈ handlesOf ts ↔ ∃ t ∈ ts, id ∈ t.handles := List.mem_flatMap

theorem handles_sublist_handlesOf {t : Tree} {ts : List Tree} (h : t ∈ ts) :
    t.handles.Sublist (handlesOf ts) := by
  obtain ⟨l, r, rfl⟩ := List.append_of_mem h
  rw [handlesOf_append, handlesOf_cons]
  exact (List.sublist_append_left _ _).trans (List.sublist_append_right _ _)

theorem handles_sublist_of_mem_subtrees {t u : Tree} (h : u ∈ t.subtrees) :
    u.handles.Sublist t.handles := by
  induction t with
  | node id token expr children ih =>
    rcases mem_subtrees.mp h with rfl | ⟨c, hc, hu⟩
    · exact .refl _
    · rw [handles_node]
      exact ((ih c hc hu).trans (handles_sublist_handlesOf hc)).cons _

end Tree

/-! ## Trees in an arena -/

namespace Arena

/-- The arena has the root of the tree, with its token and contents, and its child slots point
at the roots of the tree's children. -/
structure Shows (a : Arena) (t : Tree) : Prop where
  found : ∃ tags, a.node? t.root = some ⟨t.root, t.token, tags, t.expr⟩
  slots : t.expr.children = t.children.map Tree.root

/-- The arena holds the tree. -/
def Holds (a : Arena) (t : Tree) : Prop := ∀ u ∈ t.subtrees, a.Shows u

theorem Shows.congr {a b : Arena} {t : Tree} (h : a.Shows t)
    (hab : b.node? t.root = a.node? t.root) : b.Shows t :=
  ⟨hab ▸ h.found, h.slots⟩

theorem Shows.node {a : Arena} {t : Tree} (h : a.Shows t) :
    ∃ tags, a.node t.root = .ok ⟨t.root, t.token, tags, t.expr⟩ := by
  obtain ⟨tags, htags⟩ := h.found
  exact ⟨tags, by simp only [Arena.node, htags]⟩

theorem Shows.expr {a : Arena} {t : Tree} (h : a.Shows t) : a.expr t.root = .ok t.expr := by
  obtain ⟨tags, htags⟩ := h.node
  simp only [Arena.expr, htags, Except.map]

theorem Shows.lt_size {a : Arena} {t : Tree} (h : a.Shows t) : t.root.index < a.size := by
  obtain ⟨tags, htags⟩ := h.found
  exact (Array.getElem?_eq_some_iff.mp htags).1

theorem Holds.shows {a : Arena} {t : Tree} (h : a.Holds t) : a.Shows t := h t t.self_mem_subtrees

theorem Holds.subtree {a : Arena} {t u : Tree} (h : a.Holds t) (hu : u ∈ t.subtrees) :
    a.Holds u := fun v hv => h v (Tree.mem_subtrees_trans hv hu)

theorem Holds.child {a : Arena} {t c : Tree} (h : a.Holds t) (hc : c ∈ t.children) : a.Holds c :=
  h.subtree (Tree.mem_subtrees_of_mem_children hc)

theorem holds_node {a : Arena} {id : NodeId} {token : Token} {expr : Expr}
    {children : List Tree} :
    a.Holds (.node id token expr children) ↔
      a.Shows (.node id token expr children) ∧ ∀ c ∈ children, a.Holds c := by
  constructor
  · intro h
    exact ⟨h.shows, fun c hc => h.child hc⟩
  · rintro ⟨hroot, hchildren⟩ u hu
    rcases Tree.mem_subtrees.mp hu with rfl | ⟨c, hc, hu⟩
    · exact hroot
    · exact hchildren c hc u hu

/-- Whether a tree is held depends on the nodes of the tree alone. -/
theorem Holds.congr {a b : Arena} {t : Tree} (h : a.Holds t)
    (hab : ∀ id ∈ t.handles, b.node? id = a.node? id) : b.Holds t :=
  fun u hu => (h u hu).congr (hab u.root (List.mem_map_of_mem hu))

theorem Holds.lt_size {a : Arena} {t : Tree} (h : a.Holds t) {id : NodeId}
    (hid : id ∈ t.handles) : id.index < a.size := by
  obtain ⟨u, hu, rfl⟩ := List.mem_map.mp hid
  exact (h u hu).lt_size

/-! ## Local changes -/

/-- The arena `b` is `a` with the tree `t` turned into `u`, which has the same nodes; all other
nodes are as they were. -/
structure Rewrites (a b : Arena) (t u : Tree) : Prop where
  size : b.size = a.size
  outside : ∀ id, id ∉ t.handles → b.node? id = a.node? id
  holds : b.Holds u
  handles : u.handles.Perm t.handles

theorem node?_setExpr_of_ne {a : Arena} {id other : NodeId} (expr : Expr) (h : id ≠ other) :
    (a.setExpr id expr).node? other = a.node? other := node?_update_of_ne _ h

@[simp] theorem size_setExpr (a : Arena) (id : NodeId) (expr : Expr) :
    (a.setExpr id expr).size = a.size := size_update ..

/-- New contents with slots for the given trees make the node their root, if it is not among
their nodes. -/
theorem holds_setExpr {a : Arena} {id : NodeId} {token : Token} {tags : List Tag}
    {old new : Expr} {children : List Tree} (hfound : a.node? id = some ⟨id, token, tags, old⟩)
    (hslots : new.children = children.map Tree.root) (hchildren : ∀ c ∈ children, a.Holds c)
    (hroot : id ∉ Tree.handlesOf children) :
    (a.setExpr id new).Holds (.node id token new children) := by
  refine holds_node.mpr ⟨⟨⟨tags, ?_⟩, hslots⟩, fun c hc => ?_⟩
  · simp [Arena.setExpr, node?_update_self, hfound]
  · refine (hchildren c hc).congr fun other hother => node?_setExpr_of_ne new ?_
    rintro rfl
    exact hroot (Tree.mem_handlesOf.mpr ⟨c, hc, hother⟩)

/-- Overwriting the contents of the root with contents that have the same slots. -/
theorem Rewrites.setExpr {a : Arena} {t : Tree} (h : a.Holds t) (hnodup : t.handles.Nodup)
    {new : Expr} (hslots : new.children = t.expr.children) :
    Rewrites a (a.setExpr t.root new) t (.node t.root t.token new t.children) where
  size := size_setExpr ..
  outside other hother := by
    refine node?_setExpr_of_ne new ?_
    rintro rfl
    exact hother t.root_mem_handles
  holds := by
    obtain ⟨tags, htags⟩ := h.shows.found
    refine holds_setExpr htags (hslots.trans h.shows.slots) (fun c hc => h.child hc) ?_
    cases t
    rw [Tree.handles_node] at hnodup
    exact (List.nodup_cons.mp hnodup).1
  handles := by
    cases t
    rw [Tree.handles_node, Tree.handles_node]
    exact .refl _

/-- A tag changes no token, no contents and no slot. -/
theorem Rewrites.tag {a b : Arena} {t : Tree} {tag : Tag} {new : Bool} (h : a.Holds t)
    (htag : a.tag t.root tag = .ok (new, b)) : Rewrites a b t t := by
  obtain ⟨tags, hnode⟩ := h.shows.node
  rw [Arena.tag, hnode, Except.map] at htag
  split at htag
  · cases htag
    exact ⟨rfl, fun _ _ => rfl, h, .refl _⟩
  · cases htag
    refine ⟨size_update .., fun id hid => node?_update_of_ne _ ?_, fun u hu => ?_, .refl _⟩
    · rintro rfl
      exact hid t.root_mem_handles
    · refine ⟨?_, (h u hu).slots⟩
      obtain ⟨tags', hfound⟩ := (h u hu).found
      by_cases hroot : t.root = u.root
      · rw [hroot, node?_update_self, hfound]
        exact ⟨_, rfl⟩
      · rw [node?_update_of_ne _ hroot]
        exact ⟨tags', hfound⟩

/-- A subtree is taken out and rewritten, and the node `id` is then put over the outcome and the
trees beside it: together this rewrites the whole tree. -/
theorem Rewrites.lift {a b : Arena} {t inner outer : Tree} {id : NodeId} {token : Token}
    {old new : Expr} {tags : List Tag} {l r : List Tree} {expr : Expr}
    (hfound : a.node? id = some ⟨id, token, tags, old⟩)
    (hkept : ∀ c ∈ l ++ r, a.Holds c) (hnodup : t.handles.Nodup)
    (hsplit : t.handles.Perm (id :: Tree.handlesOf (l ++ inner :: r)))
    (hinner : Rewrites (a.setExpr inner.root expr) b inner outer)
    (hslots : new.children = (l ++ outer :: r).map Tree.root) :
    Rewrites a (b.setExpr id new) t (.node id token new (l ++ outer :: r)) := by
  have hparts := hsplit.nodup_iff.mp hnodup
  simp only [Tree.handlesOf_append, Tree.handlesOf_cons, List.nodup_cons, List.nodup_append',
    List.mem_append, not_or, List.disjoint_append_right] at hparts
  obtain ⟨⟨hbefore, hin, hafter⟩, _, ⟨_, _, hinnerAfter⟩, hbeforeInner, _⟩ := hparts
  -- The rewriting of the inner tree is seen in its own nodes alone.
  have houtside : ∀ other, other ∉ inner.handles → b.node? other = a.node? other := by
    intro other hother
    rw [hinner.outside other hother]
    refine node?_setExpr_of_ne expr ?_
    rintro rfl
    exact hother inner.root_mem_handles
  refine ⟨?_, ?_, ?_, ?_⟩
  · rw [size_setExpr, hinner.size, size_setExpr]
  · intro other hother
    rw [hsplit.mem_iff, List.mem_cons, Tree.handlesOf_append, Tree.handlesOf_cons] at hother
    simp only [List.mem_append, not_or] at hother
    rw [node?_setExpr_of_ne new (Ne.symm hother.1), houtside other hother.2.2.1]
  · refine holds_setExpr ((houtside id hin).trans hfound) hslots ?_ ?_
    · intro c hc
      rcases List.mem_append.mp hc with hc | hc
      · refine (hkept c (List.mem_append_left _ hc)).congr fun other hother => ?_
        exact houtside other fun h => hbeforeInner (Tree.mem_handlesOf.mpr ⟨c, hc, hother⟩) h
      · rcases List.mem_cons.mp hc with rfl | hc
        · exact hinner.holds
        · refine (hkept c (List.mem_append_right _ hc)).congr fun other hother => ?_
          exact houtside other fun h => hinnerAfter h (Tree.mem_handlesOf.mpr ⟨c, hc, hother⟩)
    · simp only [Tree.handlesOf_append, Tree.handlesOf_cons, List.mem_append,
        hinner.handles.mem_iff, not_or]
      exact ⟨hbefore, hin, hafter⟩
  · refine List.Perm.trans ?_ hsplit.symm
    rw [Tree.handles_node]
    refine List.Perm.cons _ ?_
    simp only [Tree.handlesOf_append, Tree.handlesOf_cons]
    exact (hinner.handles.append_right _).append_left _

end Arena

end ApiSyntax
