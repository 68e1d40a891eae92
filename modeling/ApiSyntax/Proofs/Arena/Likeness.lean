/-
  ApiSyntax/Proofs/Arena/Likeness.lean --- two runs that build the same under other handles.

  A likeness says how the tokens of two runs correspond, and how their handles do: from one
  handle on, the second run is a number of nodes ahead.  Arenas are like when their nodes
  correspond; the nodes by which the second one is ahead may be anything.

  Each operation on an arena or a workspace tracks itself, and so do the extensions that every
  source text knows.
-/
import ApiSyntax.Extension.Basic
import ApiSyntax.Parser.Cursor
import ApiSyntax.Proofs.Arena.Comparison
import ApiSyntax.Proofs.Arena.CopyDepth
import ApiSyntax.Proofs.Arena.Layout
import ApiSyntax.Proofs.Arena.Renaming

set_option autoImplicit false

namespace ApiSyntax

/-- How the tokens, the positions and the handles of two runs correspond. -/
structure Likeness where
  Tokens : Token → Token → Prop
  Spans : Span → Span → Prop
  /-- The first handle that differs. -/
  first : Nat
  /-- How many nodes the second run is ahead from there on. -/
  gap : Nat

namespace Likeness

/-- The laws of a likeness. -/
class Lawful (L : Likeness) : Prop where
  alike {t u : Token} (h : L.Tokens t u) : t.Alike u
  span {t u : Token} (h : L.Tokens t u) : L.Spans t.span u.span
  refl (p : Span) : L.Spans p p
  /-- The marks behind the last tokens correspond. -/
  mark {t u : Option Token} (h : Option.Rel L.Tokens t u) :
    L.Tokens ⟨.custom "EndOfInput", "", (t.map Cursor.behind).getD .start⟩
      ⟨.custom "EndOfInput", "", (u.map Cursor.behind).getD .start⟩

variable {L : Likeness}

/-! ## Handles -/

/-- The handle in the second run. -/
def move (L : Likeness) (id : NodeId) : NodeId :=
  if id.index < L.first then id else ⟨id.index + L.gap⟩

theorem move_of_lt {id : NodeId} (h : id.index < L.first) : L.move id = id := if_pos h

theorem move_of_le {id : NodeId} (h : L.first ≤ id.index) : L.move id = ⟨id.index + L.gap⟩ :=
  if_neg (Nat.not_lt.mpr h)

theorem move_injective (L : Likeness) : Function.Injective L.move := by
  intro x y h
  obtain ⟨x⟩ := x
  obtain ⟨y⟩ := y
  have hindex := congrArg NodeId.index h
  unfold move at hindex
  refine congrArg NodeId.mk ?_
  split at hindex <;> split at hindex <;> simp at * <;> omega

/-- A run that is nowhere ahead has the same handles. -/
theorem move_eq_id (h : L.gap = 0) : L.move = id := by
  funext x
  unfold move
  rw [h]
  split <;> rfl

/-! ## Failures -/

/-- The causes tell of handles that correspond, and of positions that do. -/
inductive Causes (L : Likeness) : Cause → Cause → Prop
  | same (c : Cause) : Causes L c (c.rename L.move)
  | unclosedBlock {opened opened' : Span} (h : L.Spans opened opened') :
      Causes L (.unclosedBlock opened) (.unclosedBlock opened')

/-- The failures differ in positions and handles at most, and these correspond. -/
structure Fails (L : Likeness) (d d' : Diagnostic) : Prop where
  cause : L.Causes d.cause d'.cause
  span : Option.Rel L.Spans d.span d'.span
  help : d.help = d'.help

/-- A failure that tells of no handle and has no position. -/
theorem Fails.of {c : Cause} (h : c.rename L.move = c) : L.Fails (.of c) (.of c) where
  cause := by
    have hsame := Causes.same (L := L) c
    rwa [h] at hsame
  span := .none
  help := rfl

namespace Fails

variable {d d' : Diagnostic} {p q : Span}

theorem unknownNode (L : Likeness) (id : NodeId) :
    L.Fails (.of (.unknownNode id)) (.of (.unknownNode (L.move id))) := ⟨.same _, .none, rfl⟩

theorem placed (h : L.Fails d d') (hpq : L.Spans p q) : L.Fails (d.placed p) (d'.placed q) :=
  ⟨h.cause, .some hpq, h.help⟩

theorem hinted (h : L.Fails d d') (help : String) : L.Fails (d.hinted help) (d'.hinted help) :=
  ⟨h.cause, h.span, rfl⟩

theorem orPlaced (h : L.Fails d d') (hpq : L.Spans p q) :
    L.Fails (d.orPlaced p) (d'.orPlaced q) := by
  refine ⟨h.cause, ?_, h.help⟩
  have hspan := h.span
  unfold Diagnostic.orPlaced
  generalize d.span = o, d'.span = o' at hspan
  cases hspan with
  | none => exact .some hpq
  | some h => exact .some h

theorem unexpected [L.Lawful] {t u : Token} (h : L.Tokens t u) (expected : String) :
    L.Fails (.unexpected t expected) (.unexpected u expected) := by
  rw [Diagnostic.unexpected, Diagnostic.unexpected, (Lawful.alike h).value]
  exact (Fails.of rfl).placed (Lawful.span h)

end Fails

/-! ## Nodes and arenas -/

/-- The nodes correspond. -/
structure Nodes (L : Likeness) (m n : Node) : Prop where
  id : n.id = L.move m.id
  token : L.Tokens m.token n.token
  tags : n.tags = m.tags.map (Tag.rename L.move)
  expr : n.expr = m.expr.rename L.move

/-- The nodes of handles that correspond do so too. -/
structure Arenas (L : Likeness) (a b : Arena) : Prop where
  first : L.first ≤ a.size
  size : b.size = a.size + L.gap
  nodes : ∀ id, Option.Rel L.Nodes (a.node? id) (b.node? (L.move id))

namespace Arenas

open Arena

variable {a b : Arena}

theorem next (h : L.Arenas a b) : b.next = L.move a.next := by
  rw [move_of_le (by exact h.first)]
  exact congrArg NodeId.mk h.size

theorem node (h : L.Arenas a b) (id : NodeId) :
    Replies L.Fails L.Nodes (a.node id) (b.node (L.move id)) := by
  have hnode := h.nodes id
  unfold Arena.node
  generalize a.node? id = m, b.node? (L.move id) = n at hnode
  cases hnode with
  | none => exact .error (.unknownNode L id)
  | some hmn => exact .ok hmn

theorem expr (h : L.Arenas a b) (id : NodeId) :
    Replies L.Fails (fun e e' => e' = e.rename L.move) (a.expr id) (b.expr (L.move id)) := by
  have hnode := h.node id
  unfold Arena.expr
  generalize a.node id = m, b.node (L.move id) = n at hnode
  cases hnode with
  | ok hmn => exact .ok hmn.expr
  | error hd => exact .error hd

theorem kind (h : L.Arenas a b) (id : NodeId) :
    Replies L.Fails (fun k k' => k' = k) (a.kind id) (b.kind (L.move id)) := by
  have hnode := h.node id
  unfold Arena.kind
  generalize a.node id = m, b.node (L.move id) = n at hnode
  cases hnode with
  | @ok m n hmn =>
    have hkind : n.expr.kind = m.expr.kind := by rw [hmn.expr, Expr.kind_rename]
    exact .ok hkind
  | error hd => exact .error hd

theorem push {t u : Token} (h : L.Arenas a b) (htoken : L.Tokens t u) (e : Expr) :
    L.Arenas (a.push t e) (b.push u (e.rename L.move)) := by
  have hsize : (b.push u (e.rename L.move)).size = (a.push t e).size + L.gap := by
    rw [size_push, size_push, h.size]
    omega
  refine ⟨by rw [size_push]; exact Nat.le_succ_of_le h.first, hsize, fun id => ?_⟩
  rcases Nat.lt_trichotomy id.index a.size with hlt | heq | hgt
  · have hmoved : (L.move id).index < b.size := by
      have hsize := h.size
      unfold move
      split <;> simp <;> omega
    rw [node?_push_of_lt hlt, node?_push_of_lt hmoved]
    exact h.nodes id
  · obtain rfl : id = a.next := by
      cases id
      exact congrArg NodeId.mk heq
    rw [node?_push_next, ← h.next, node?_push_next]
    exact .some ⟨h.next, htoken, rfl, rfl⟩
  · have hmoved : L.move id = ⟨id.index + L.gap⟩ := move_of_le (Nat.le_trans h.first hgt.le)
    have hnone : (a.push t e).node? id = none := node?_eq_none.mpr (by rw [size_push]; omega)
    have hnone' : (b.push u (e.rename L.move)).node? (L.move id) = none := by
      rw [node?_eq_none, hsize, size_push, hmoved]
      exact Nat.add_le_add_right hgt _
    rw [hnone, hnone']
    exact .none

theorem update {f g : Node → Node} (h : L.Arenas a b) (id : NodeId)
    (hfg : ∀ m n, L.Nodes m n → L.Nodes (f m) (g n)) :
    L.Arenas (a.update id f) (b.update (L.move id) g) := by
  refine ⟨by rw [size_update]; exact h.first, by rw [size_update, size_update, h.size],
    fun other => ?_⟩
  by_cases hid : id = other
  · subst hid
    rw [node?_update_self, node?_update_self]
    have hnode := h.nodes id
    generalize a.node? id = m, b.node? (L.move id) = n at hnode
    cases hnode with
    | some hmn => exact .some (hfg _ _ hmn)
    | none => exact .none
  · have hmoved : L.move id ≠ L.move other := fun heq => hid (L.move_injective heq)
    rw [node?_update_of_ne f hid, node?_update_of_ne g hmoved]
    exact h.nodes other

theorem setExpr (h : L.Arenas a b) (id : NodeId) (e : Expr) :
    L.Arenas (a.setExpr id e) (b.setExpr (L.move id) (e.rename L.move)) :=
  h.update id fun _ _ hmn => ⟨hmn.id, hmn.token, hmn.tags, rfl⟩

/-- The nodes of the second arena but for those by which it is ahead. -/
theorem nodes_apart (h : L.Arenas a b) (i : Nat) :
    (b.nodes.toList.take L.first ++ b.nodes.toList.drop (L.first + L.gap))[i]? =
      b.node? (L.move ⟨i⟩) := by
  have hlength : (b.nodes.toList.take L.first).length = L.first := by
    have hsize : b.nodes.toList.length = a.nodes.size + L.gap := h.size
    have hfirst : L.first ≤ a.nodes.size := h.first
    rw [List.length_take]
    omega
  by_cases hi : i < L.first
  · rw [List.getElem?_append_left (by omega), List.getElem?_take_of_lt hi, move_of_lt hi,
      Array.getElem?_toList]
    rfl
  · have hplace : L.first + L.gap + (i - L.first) = i + L.gap := by omega
    rw [List.getElem?_append_right (by omega), hlength, List.getElem?_drop, hplace,
      move_of_le (Nat.not_lt.mp hi), Array.getElem?_toList]
    rfl

/-- The first arena has no more slots. -/
theorem slots_length_le (h : L.Arenas a b) : a.slots.length ≤ b.slots.length := by
  have hwidths : a.nodes.toList.map (fun n => n.expr.children.length) =
      (b.nodes.toList.take L.first ++ b.nodes.toList.drop (L.first + L.gap)).map
        (fun n => n.expr.children.length) := by
    refine List.ext_getElem? fun i => ?_
    have hnode := h.nodes ⟨i⟩
    rw [List.getElem?_map, List.getElem?_map, h.nodes_apart, Array.getElem?_toList]
    rw [show a.nodes[i]? = a.node? ⟨i⟩ from rfl]
    generalize a.node? ⟨i⟩ = m, b.node? (L.move ⟨i⟩) = n at hnode
    cases hnode with
    | none => rfl
    | some hmn => rw [Option.map_some, Option.map_some, hmn.expr, Expr.children_rename,
        List.length_map]
  have hsub : (b.nodes.toList.take L.first ++ b.nodes.toList.drop (L.first + L.gap)).Sublist
      b.nodes.toList := by
    have hdrop := List.drop_sublist L.gap (b.nodes.toList.drop L.first)
    rw [List.drop_drop] at hdrop
    have happend := (List.Sublist.refl (b.nodes.toList.take L.first)).append hdrop
    rwa [List.take_append_drop] at happend
  rw [slots, List.length_flatMap, hwidths, ← List.length_flatMap]
  exact (hsub.flatMap _).length_le

/-- The bound on a copy is no smaller in the second arena. -/
theorem copyDepth_le (h : L.Arenas a b) : a.copyDepth ≤ b.copyDepth := by
  rw [copyDepth, copyDepth, slotCount_eq, slotCount_eq, h.size]
  exact Nat.mul_le_mul (by omega) (Nat.add_le_add_right h.slots_length_le 2)

end Arenas

/-- The arenas are like, and the operators are the same.  Events and reports decide nothing. -/
structure Works (L : Likeness) (w v : Workspace) : Prop where
  arena : L.Arenas w.arena v.arena
  operators : w.operators = v.operators

end Likeness

open ApiSyntax.Action

namespace Likeness

variable {L : Likeness}

/-! ## Arenas and workspaces -/

theorem alloc_tracks {t u : Token} (htoken : L.Tokens t u) (e : Expr) :
    Tracks L.Arenas L.Fails (fun id id' => id' = L.move id) (Arena.alloc t e)
      (Arena.alloc u (e.rename L.move)) := fun _ _ h => .done h.next (h.push htoken e)

/-- A copy is made of nodes that correspond. -/
theorem copyN_tracks {fuel fuel' : Nat} (hfuel : fuel ≤ fuel') (id : NodeId) :
    Tracks L.Arenas L.Fails (fun id id' => id' = L.move id) (Arena.copyN fuel id)
      (Arena.copyN fuel' (L.move id)) := by
  induction fuel generalizing fuel' id with
  | zero => exact .exhausted
  | succ fuel ih =>
    obtain ⟨fuel', rfl⟩ : ∃ k, fuel' = k + 1 := ⟨fuel' - 1, by omega⟩
    intro a b h
    have hnode := h.nodes id
    generalize hm : a.node? id = m, hn : b.node? (L.move id) = n at hnode
    cases hnode with
    | none =>
      simp only [Arena.copyN, hm, hn]
      exact .failed (.unknownNode L id) h
    | @some m n hmn =>
      simp only [Arena.copyN, hm, hn]
      rw [hmn.expr, Expr.children_rename]
      have hcopies := Tracks.mapM (fun c => ih (Nat.le_of_succ_le_succ hfuel) c) m.expr.children
      refine Tracks.next hcopies (fun copies => ?_) a b h
      rw [Expr.withChildren_rename]
      exact alloc_tracks hmn.token _

theorem duplicate_tracks (id : NodeId) :
    Tracks L.Arenas L.Fails (fun id id' => id' = L.move id) (Arena.duplicate id)
      (Arena.duplicate (L.move id)) :=
  fun a b h => copyN_tracks h.copyDepth_le id a b h

theorem note_tracks (e e' : Event) :
    Tracks L.Works L.Fails (fun a b : Unit => b = a) (Workspace.note e) (Workspace.note e') :=
  fun _ _ h => .done rfl ⟨h.arena, h.operators⟩

theorem onArena_tracks {α β : Type} {R : α → β → Prop} {x : Action Arena Stop α}
    {y : Action Arena Stop β} (h : Tracks L.Arenas L.Fails R x y) :
    Tracks L.Works L.Fails R (Workspace.onArena x) (Workspace.onArena y) := by
  intro w v hwv
  have hpaced := h _ _ hwv.arena
  unfold Workspace.onArena
  dsimp only
  generalize x w.arena = r, y v.arena = r' at hpaced
  cases hpaced with
  | done h meets => exact .done h ⟨meets, hwv.operators⟩
  | failed h meets => exact .failed h ⟨meets, hwv.operators⟩
  | spent => exact .spent

/-! ## Settling -/

/-- Which turn a node needs depends on contents and operators. -/
theorem Works.turn {w v : Workspace} (h : L.Works w v) (id : NodeId) :
    Replies L.Fails (fun t t' => t' = t.rename L.move) (Turn.of w.arena w.operators id)
      (Turn.of v.arena v.operators (L.move id)) := by
  have hright : ∀ node : OpenBinary, Replies L.Fails (fun t t' => t' = t.rename L.move)
      (Turn.ofRight w.arena v.operators node)
      (Turn.ofRight v.arena v.operators (node.rename L.move)) := by
    intro node
    refine (h.arena.expr node.right).map fun e e' he => ?_
    subst he
    rw [Expr.openBinary?_rename]
    cases e.openBinary? with
    | none => rfl
    | some lifted =>
      dsimp only [Option.map_some]
      rw [show (lifted.rename L.move).operator = lifted.operator from rfl,
        show (node.rename L.move).operator = node.operator from rfl]
      split <;> rfl
  rw [h.operators]
  refine (h.arena.expr id).bind fun e e' he => ?_
  subst he
  rw [Expr.openBinary?_rename]
  cases e.openBinary? with
  | none => exact .ok rfl
  | some node =>
    refine (h.arena.expr node.left).bind fun e e' he => ?_
    subst he
    rw [Expr.openBinary?_rename]
    cases e.openBinary? with
    | none => exact hright node
    | some lifted =>
      dsimp only [Option.map_some]
      rw [show (lifted.rename L.move).operator = lifted.operator from rfl,
        show (node.rename L.move).operator = node.operator from rfl]
      split
      · exact .ok rfl
      · exact hright node

theorem setBinary_tracks (id : NodeId) (b : OpenBinary) :
    Tracks L.Works L.Fails (fun a b : Unit => b = a) (Workspace.setBinary id b)
      (Workspace.setBinary (L.move id) (b.rename L.move)) :=
  onArena_tracks fun _ _ h => .done rfl (h.setExpr id b.toExpr)

theorem settleN_tracks {fuel fuel' : Nat} (hfuel : fuel ≤ fuel') (id : NodeId) :
    Tracks L.Works L.Fails (fun id id' => id' = L.move id) (Workspace.settleN fuel id)
      (Workspace.settleN fuel' (L.move id)) := by
  induction fuel generalizing fuel' id with
  | zero => exact .exhausted
  | succ fuel ih =>
    obtain ⟨fuel', rfl⟩ : ∃ k, fuel' = k + 1 := ⟨fuel' - 1, by omega⟩
    have hask : Tracks L.Works L.Fails (fun t t' => t' = t.rename L.move)
        (Workspace.ask fun w => (Turn.of w.arena w.operators id).mapError .failed)
        (Workspace.ask fun w => (Turn.of w.arena w.operators (L.move id)).mapError .failed) :=
      fun w v h => .ask (h.turn id) h
    unfold Workspace.settleN
    refine hask.next fun turn => ?_
    cases turn with
    | stay => exact .pure rfl
    | liftLeft node lifted =>
      refine (note_tracks _ _).next fun _ => (setBinary_tracks _ _).next fun _ => ?_
      refine (ih (Nat.le_of_succ_le_succ hfuel) id).next fun settled => ?_
      exact (setBinary_tracks _ ⟨lifted.operator, lifted.left, settled⟩).next fun _ => .pure rfl
    | liftRight node lifted =>
      refine (note_tracks _ _).next fun _ => (setBinary_tracks _ _).next fun _ => ?_
      refine (ih (Nat.le_of_succ_le_succ hfuel) id).next fun settled => ?_
      exact (setBinary_tracks _ ⟨lifted.operator, settled, lifted.right⟩).next fun _ => .pure rfl

theorem settle_tracks (id : NodeId) :
    Tracks L.Works L.Fails (fun id id' => id' = L.move id) (Workspace.settle id)
      (Workspace.settle (L.move id)) := by
  intro w v h
  have hsize := h.arena.size
  exact settleN_tracks (by omega) id w v h

/-! ## Extensions -/

/-- The site of the annotation in the second run. -/
def site (L : Likeness) (s : Site) : Site := ⟨s.phase, L.move s.node⟩

end Likeness

/-- The extension acts alike on workspaces that are like. -/
def Extension.Respects (L : Likeness) (e : Extension) : Prop := ∀ site params,
  Mirrors L.Works L.Fails Eq (e.invoke site params) (e.invoke (L.site site) (params.map L.move))

/-- The extensions that can be asked for respect the likeness. -/
def Registry.Respects (L : Likeness) (r : Registry) : Prop :=
  ∀ name e, r.get? name = some e → e.Respects L

namespace Likeness

variable {L : Likeness} [L.Lawful]

theorem Arenas.span {a b : Arena} (h : L.Arenas a b) (s : Site) :
    L.Spans (s.span a) ((L.site s).span b) := by
  have hnode := h.nodes s.node
  unfold Site.span
  rw [show (L.site s).node = L.move s.node from rfl]
  generalize a.node? s.node = m, b.node? (L.move s.node) = n at hnode
  cases hnode with
  | none => exact Lawful.refl _
  | some hmn => exact Lawful.span hmn.token

theorem placing_mirrors {α β : Type} {R : α → β → Prop} {x : Action Workspace Diagnostic α}
    {y : Action Workspace Diagnostic β} (s : Site) (h : Mirrors L.Works L.Fails R x y) :
    Mirrors L.Works L.Fails R (s.placing x) ((L.site s).placing y) := fun w v hwv =>
  h.mapError (fun _ _ hd => hd.placed (hwv.arena.span s)) w v hwv

omit [L.Lawful] in
/-- A change of the operators, and the event that tells of it. -/
theorem operators_mirrors {f : OperatorTable → Except Diagnostic OperatorTable}
    (hf : ∀ table d, f table = .error d → L.Fails d d) (e : Event) :
    Mirrors L.Works L.Fails Eq
      (Action.tryChange (fun w => (f w.operators).map ({ w with operators := · })) >>= fun _ =>
        Workspace.note e)
      (Action.tryChange (fun w => (f w.operators).map ({ w with operators := · })) >>= fun _ =>
        Workspace.note e) := by
  refine Mirrors.next (fun w v h => ?_) fun _ w v h => ⟨.ok rfl, h.arena, h.operators⟩
  unfold Action.tryChange
  dsimp only
  rw [h.operators]
  cases hrun : f v.operators with
  | error d => exact ⟨.error (hf _ _ hrun), h⟩
  | ok table => exact ⟨.ok rfl, h.arena, rfl⟩

theorem declare_mirrors (s : Site) (symbol : String) (fixity : Fixity) :
    Mirrors L.Works L.Fails Eq (s.declare symbol fixity) ((L.site s).declare symbol fixity) := by
  refine placing_mirrors s (operators_mirrors (f := (·.declare symbol fixity)) ?_ _)
  intro table d h
  unfold OperatorTable.declare at h
  split at h <;> cases h
  exact .of rfl

theorem relate_mirrors (s : Site) (left right : String) (p : Precedence) :
    Mirrors L.Works L.Fails Eq (s.relate left right p) ((L.site s).relate left right p) := by
  refine placing_mirrors s (operators_mirrors (f := (·.relate left right p)) ?_ _)
  intro table d h
  unfold OperatorTable.relate at h
  split_ifs at h <;> cases h <;> exact .of rfl

theorem signatureName_replies {a b : Arena} (h : L.Arenas a b) (s : Site) (id : NodeId) :
    Replies L.Fails Eq (s.signatureName a id) ((L.site s).signatureName b (L.move id)) := by
  refine (h.expr id).bind fun e e' he => ?_
  subst he
  cases e with
  | signature name receiver params result isStatic =>
    refine (h.node name).bind fun m n hmn => ?_
    rw [hmn.expr, (Lawful.alike hmn.token).value]
    cases m.expr <;> exact .ok rfl
  | _ => exact .error ((Fails.of rfl).placed (h.span s))

theorem named_mirrors (s : Site) (id : NodeId) : Mirrors L.Works L.Fails Eq
    (Workspace.ask fun w => s.signatureName w.arena id)
    (Workspace.ask fun w => (L.site s).signatureName w.arena (L.move id)) :=
  fun _ _ h => ⟨signatureName_replies h.arena s id, h⟩

theorem mismatched_mirrors (name : String) (parameters : List NodeKind) (s : Site)
    (given : List NodeId) : Mirrors L.Works L.Fails (Eq : Unit → Unit → Prop)
      (Workspace.ask fun w => .error (Extension.arityMismatch name parameters s given w.arena))
      (Workspace.ask fun w =>
        .error (Extension.arityMismatch name parameters (L.site s) (given.map L.move) w.arena)) := by
  refine fun w v h => ⟨.error ?_, h⟩
  have hsame : ∀ found found' : List String, found' = found →
      L.Fails ((Diagnostic.of (.extensionParameterMismatch name (NodeKind.listText parameters)
        (", ".intercalate found))).placed (s.span w.arena))
      ((Diagnostic.of (.extensionParameterMismatch name (NodeKind.listText parameters)
        (", ".intercalate found'))).placed ((L.site s).span v.arena)) := by
    rintro found _ rfl
    exact (Fails.of rfl).placed (h.arena.span s)
  refine hsame _ _ ?_
  rw [List.map_map]
  refine List.map_congr_left fun id _ => ?_
  have hnode := h.arena.nodes id
  rw [Function.comp_apply]
  generalize w.arena.node? id = m, v.arena.node? (L.move id) = n at hnode
  cases hnode with
  | none => rfl
  | @some m n hmn =>
    have hkind : n.expr.kind = m.expr.kind := by rw [hmn.expr, Expr.kind_rename]
    exact congrArg NodeKind.name hkind

theorem declaring_respects (name : String) (fixity : Fixity) :
    (Extension.declaring name fixity).Respects L := by
  intro s params
  rcases params with _ | ⟨sig, _ | ⟨other, rest⟩⟩
  · exact mismatched_mirrors _ _ s _
  · exact (named_mirrors s sig).next fun symbol => declare_mirrors s symbol fixity
  · exact mismatched_mirrors _ _ s _

theorem binding_respects (name : String) : (Extension.binding name).Respects L := by
  intro s params
  rcases params with _ | ⟨tighter, _ | ⟨looser, _ | ⟨other, rest⟩⟩⟩
  · exact mismatched_mirrors _ _ s _
  · exact mismatched_mirrors _ _ s _
  · refine (named_mirrors s tighter).next fun left => (named_mirrors s looser).next fun right => ?_
    exact relate_mirrors s left right .greater
  · exact mismatched_mirrors _ _ s _

end Likeness

/-- The extensions that every source text knows ask for what corresponds, and nothing else. -/
theorem Registry.builtin_respects (L : Likeness) [L.Lawful] : Registry.builtin.Respects L := by
  intro name e h
  obtain ⟨-, rfl | rfl | rfl⟩ := Registry.get?_builtin h
  · exact Likeness.declaring_respects _ _
  · exact Likeness.declaring_respects _ _
  · exact Likeness.binding_respects _

end ApiSyntax
