/-
  ApiSyntax/Proofs/Grammar/SettledExpression.lean --- no operand of an expression binds looser.

  Every expression is a grouping of a chain, and so are the expressions nested in its
  operands; each grouping is settled whatever the table says.  An operand is never an open
  binary, so none stands below a prefix operator either.

  Main statement: `expression_binaries_settled`, about the arena that a run leaves.
-/
import ApiSyntax.Proofs.Grammar.Goals
import ApiSyntax.Proofs.Grammar.Operands
import ApiSyntax.Proofs.Operators.Binaries
import ApiSyntax.Proofs.Operators.Calls

set_option autoImplicit false

namespace ApiSyntax

open ApiSyntax.Arena ApiSyntax.Grammar ApiSyntax.Language

variable {env : ParserEnv} {table : OperatorTable} {seg : List Token} {t r : Tree} {E : Phrase}

/-! ## Tight trees -/

/-- The root binds looser than an open left operand and no tighter than an open right one; and if
it is a prefix operator, its operand is not open. -/
structure Tree.Tight (table : OperatorTable) (t : Tree) : Prop where
  settled : t.SettledAt table (· = .lesser)
  bare : t.expr.kind = .unary → ∀ c ∈ t.children, c.operator? = none

/-- All nodes of the tree are tight. -/
def Tree.AllTight (table : OperatorTable) (t : Tree) : Prop := ∀ u ∈ t.subtrees, u.Tight table

namespace Tree

theorem allTight_node {id : NodeId} {token : Token} {expr : Expr} {cs : List Tree}
    (h : (node id token expr cs).Tight table) (hcs : ∀ c ∈ cs, c.AllTight table) :
    (node id token expr cs).AllTight table := by
  intro u hu
  rcases mem_subtrees.mp hu with rfl | ⟨c, hc, hu⟩
  · exact h
  · exact hcs c hc u hu

/-- Where the root is neither an open binary nor a prefix operator, nothing is asked of it. -/
theorem allTight_of_plain {id : NodeId} {token : Token} {expr : Expr} {cs : List Tree}
    (hopen : expr.openBinary? = none) (hunary : expr.kind ≠ .unary)
    (hcs : ∀ c ∈ cs, c.AllTight table) : (node id token expr cs).AllTight table := by
  refine allTight_node ⟨?_, fun h => absurd h hunary⟩ hcs
  intro x l r hx
  rw [operator?, expr_node, hopen] at hx
  cases hx

theorem allTight_leaf {id : NodeId} {token : Token} {expr : Expr}
    (hopen : expr.openBinary? = none) (hunary : expr.kind ≠ .unary) :
    (leaf id token expr).AllTight table :=
  allTight_of_plain hopen hunary fun _ hc => absurd hc List.not_mem_nil

theorem allTight_nameLeaf {id : NodeId} {token : Token} : (nameLeaf id token).AllTight table :=
  allTight_leaf rfl nofun

/-- Parentheses make an open binary a unit, and leave the nodes below it as they are. -/
theorem AllTight.unit (h : t.AllTight table) : (unit t).AllTight table := by
  cases t with
  | node id token expr cs =>
    have hbelow : ∀ c ∈ cs, c.AllTight table := fun c hc u hu =>
      h u (mem_subtrees.mpr (.inr ⟨c, hc, hu⟩))
    refine allTight_node ⟨?_, fun hunary => ?_⟩ hbelow
    · intro x l r hx
      rw [operator?, ← Language.unit, openBinary?_unit] at hx
      cases hx
    · rw [expr_node, (Expr.Alike.enclose expr).kind_eq] at hunary
      exact (h _ (self_mem_subtrees _)).bare hunary

end Tree

/-- The tree of a settled grouping is tight when its operands are. -/
theorem Grouping.allTight {g : Grouping} (hclosed : g.Closed) (h : g.Settled table (· = .lesser))
    (hoperands : ∀ t ∈ g.chain.operands, t.AllTight table) : g.tree.AllTight table := by
  induction g with
  | operand t => exact hoperands t List.mem_cons_self
  | join j left right ihLeft ihRight =>
    obtain ⟨hlclosed, hrclosed⟩ := closed_join.mp hclosed
    obtain ⟨htop, hleft, hright⟩ := h
    rw [chain, Chain.operands_append] at hoperands
    refine Tree.allTight_node ⟨(settledAt_join hclosed).mpr htop, by rintro ⟨⟩⟩ ?_
    · intro c hc
      simp only [List.mem_cons, List.not_mem_nil, or_false] at hc
      rcases hc with rfl | rfl
      · exact ihLeft hlclosed hleft fun t ht => hoperands t (List.mem_append_left _ ht)
      · exact ihRight hrclosed hright fun t ht => hoperands t (List.mem_append_right _ ht)

/-! ## Expressions -/

theorem Language.Enclosed.allTight {opening closing : TokenKind} {ts : List Tree}
    (h : Enclosed opening closing E seg ts) (hE : ∀ seg t, E seg t → t.AllTight table) :
    ∀ t ∈ ts, t.AllTight table := by
  intro t ht
  obtain ⟨inner, hinner⟩ := h.of_mem ht
  exact hE inner t hinner

/-- Links behind a receiver keep what is tight. -/
theorem Language.Links.allTight (h : Links E seg r t) (hE : ∀ seg t, E seg t → t.AllTight table)
    (hr : r.AllTight table) : t.AllTight table := by
  induction h with
  | none => exact hr
  | some first _ ih =>
    apply ih
    cases first with
    | mk _ _ arguments =>
      refine Tree.allTight_of_plain rfl nofun ?_
      intro c hc
      rcases List.mem_cons.mp hc with rfl | hc
      · exact hr
      rcases List.mem_cons.mp hc with rfl | hc
      · exact Tree.allTight_nameLeaf
      · exact arguments.allTight hE c hc

/-- A chain of tight operands is grouped to a tight tree. -/
theorem Language.Grouped.allTight
    (h : Grouped table (fun seg t => Operand env table seg t ∧ t.AllTight table) seg t) :
    t.AllTight table := by
  cases h with
  | @mk seg c chain =>
    have hclosed : (c.group table).Closed :=
      Grouping.closed_group (chain.mono fun _ _ h => h.1).operands_closed
    refine Grouping.allTight hclosed (Grouping.group_settled table c) fun t ht => ?_
    rw [chain_group] at ht
    obtain ⟨inner, -, htight⟩ := chain.of_mem t ht
    exact htight

theorem allTight_typeLeaf {id : NodeId} {token : Token} : (typeLeaf env id token).AllTight table :=
  Tree.allTight_leaf rfl nofun

theorem Language.Operand.allTight (h : Operand env table seg t) : t.AllTight table := by
  refine Operand.induct (P := fun _ t => t.AllTight table) (fun p seg t layer => ?_) h
  have hnested : ∀ seg t,
      Grouped table (fun seg t => Operand env table seg t ∧ t.AllTight table) seg t →
        t.AllTight table := fun _ _ h => h.allTight
  cases layer with
  | real => exact Tree.allTight_leaf rfl nofun
  | int => exact Tree.allTight_leaf rfl nofun
  | list elements =>
    exact Tree.allTight_of_plain rfl nofun (elements.allTight hnested)
  | construct call =>
    cases call with
    | mk _ arguments links =>
      refine links.allTight hnested ?_
      refine Tree.allTight_of_plain rfl nofun fun c hc => ?_
      rcases List.mem_cons.mp hc with rfl | hc
      · exact allTight_typeLeaf
      · exact arguments.allTight hnested c hc
  | static call =>
    cases call with
    | mk _ _ _ arguments links =>
      refine links.allTight hnested ?_
      refine Tree.allTight_of_plain rfl nofun fun c hc => ?_
      rcases List.mem_cons.mp hc with rfl | hc
      · exact allTight_typeLeaf
      rcases List.mem_cons.mp hc with rfl | hc
      · exact Tree.allTight_nameLeaf
      · exact arguments.allTight hnested c hc
  | instanceCall call =>
    cases call with
    | mk _ first others =>
      exact (Links.some first others).allTight hnested Tree.allTight_nameLeaf
  | name => exact Tree.allTight_nameLeaf
  | parens _ inner _ => exact inner.allTight.unit
  | @unary op seg t id _ _ operand =>
    obtain ⟨hoperand, htight⟩ := operand
    have hbelow : ∀ c ∈ [t], c.AllTight table := fun c hc => List.mem_singleton.mp hc ▸ htight
    refine Tree.allTight_node ⟨?_, fun _ c hc => ?_⟩ hbelow
    · rintro x l r ⟨⟩
    · rw [List.mem_singleton.mp hc, Tree.operator?, hoperand.openBinary?_eq]
      rfl

theorem Language.Expression.allTight (h : Expression env table seg t) : t.AllTight table :=
  (Grouped.mono h fun _ _ operand => ⟨operand, operand.allTight⟩).allTight

/-- Whatever the table says of its operators, and be it in a circle: in the tree of an expression
each open binary binds looser than its left operand, if that is open, and its right operand does
not bind looser than it; and the operand of a prefix operator is not open. -/
theorem expression_binaries_settled {s s' : ParserState} {id : NodeId}
    (hrun : Production.expression.parse env s = (.ok id, s')) :
    s'.work.arena.Settled s.work.operators (· = .lesser) id ∧
      ∀ top n op inner, Relation.ReflTransGen s'.work.arena.Child id top →
        s'.work.arena.node? top = some n → n.expr = .unary op inner →
          s'.work.arena.open? inner = none := by
  have hread := expression_outcome env s
  rw [hrun] at hread
  obtain ⟨seg, ts, step, t, rfl, rfl, ht⟩ := hread.of_ok
  have hholds := step.arena.holds (List.mem_singleton_self t)
  have htight : t.AllTight s.work.operators := Expression.allTight ht
  refine ⟨hholds.settled_iff.mpr fun u hu => (htight u hu).settled, ?_⟩
  intro top n op inner hreach hnode hunary
  obtain ⟨u, hu, rfl⟩ := hholds.reach_iff.mp hreach
  have hshows := hholds u hu
  obtain ⟨tags, hfound⟩ := hshows.found
  rw [hfound] at hnode
  cases hnode
  have hexpr : u.expr = .unary op inner := hunary
  -- The one slot of a prefix operator holds the root of the one child.
  have hslots : [inner] = u.children.map Tree.root := by
    rw [← hshows.slots, hexpr]
    rfl
  obtain ⟨c, hchild, rfl⟩ := List.mem_map.mp (hslots ▸ List.mem_singleton_self inner)
  have hbare := (htight u hu).bare (by rw [hexpr]; rfl) c hchild
  rw [((hholds.subtree hu).child hchild).shows.open?_eq]
  exact Option.map_eq_none_iff.mp hbare

/-- Three operators of which each binds tighter than the next one, in a circle. -/
def circle : OperatorTable :=
  OperatorTable.builtin.afterAll
    [.declare "^" .infixOp, .declare "~" .infixOp, .declare "#" .infixOp,
      .relate "^" "~" .greater, .relate "~" "#" .greater, .relate "#" "^" .greater]

/-- The tokens of `- a ^ (b # c) ~ d # e`. -/
def roundTheCircle : List Token :=
  [⟨.operator, "-", .start⟩, ⟨.identifier, "a", .start⟩, ⟨.operator, "^", .start⟩,
    ⟨.lparen, "(", .start⟩, ⟨.identifier, "b", .start⟩, ⟨.operator, "#", .start⟩,
    ⟨.identifier, "c", .start⟩, ⟨.rparen, ")", .start⟩, ⟨.operator, "~", .start⟩,
    ⟨.identifier, "d", .start⟩, ⟨.operator, "#", .start⟩, ⟨.identifier, "e", .start⟩]

theorem expression_binaries_settled_circle :
    ∃ id s', Production.expression.parse .standard (.start roundTheCircle circle) = (.ok id, s') ∧
      s'.cursor.rest = [] ∧ (s'.work.arena.open? id).isSome ∧
      s'.work.arena.Settled circle (· = .lesser) id := by
  have hread : Outcome.passes (Production.expression.parse .standard (.start roundTheCircle circle))
      fun id s => s.cursor.rest.isEmpty && (s.work.arena.open? id).isSome := by decide +kernel
  obtain ⟨id, s', hrun, hend⟩ := Outcome.exists_of_passes hread
  obtain ⟨hrest, hopen⟩ := Bool.and_eq_true_iff.mp hend
  exact ⟨id, s', hrun, List.isEmpty_iff.mp hrest, hopen, (expression_binaries_settled hrun).1⟩

end ApiSyntax
