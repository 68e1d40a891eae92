/-
  ApiSyntax/Proofs/Grammar/Parentheses.lean --- parentheses where there is a node already.

  A node of a grouping stands for a range of operands.  Between parentheses that range is
  read by itself, and the rest is read around one operand.  Fewer operators are compared
  then, but the part and the rest are grouped as they were, and this needs no table that is
  transitive.

  Main statement: `expression_parenthesized`.
-/
import ApiSyntax.Proofs.Grammar.Acceptance
import ApiSyntax.Proofs.Grammar.Unambiguous
import ApiSyntax.Proofs.Operators.Binaries
import ApiSyntax.Proofs.Operators.Regrouping

set_option autoImplicit false

namespace ApiSyntax

open ApiSyntax.Grammar ApiSyntax.Language

variable {env : ParserEnv} {table : OperatorTable} {O : Phrase} {c d : Chain} {j : Joint}
  {op : Token} {id : NodeId} {ctx : Context} {g : Grouping}
  {tokens seg rest before inner after : List Token}

/-! ## Parts of a text -/

theorem Language.Chained.append (hc : Chained table O seg c) (hop : op.is .operator)
    (declared : table.contains op.value .infixOp) (hd : Chained table O rest d) :
    Chained table O (seg ++ op :: rest) (c.append ⟨id, op, op.value⟩ d) := by
  induction hc with
  | last operand => exact .more operand hop declared hd
  | more operand hop' declared' _ ih =>
    rw [List.append_assoc, List.cons_append]
    exact .more operand hop' declared' ih

/-- A text of two chains is a text of each, with the operator between them. -/
theorem Language.Chained.of_append (h : Chained table O seg (c.append j d)) :
    ∃ left op right, seg = left ++ op :: right ∧ j = ⟨j.id, op, op.value⟩ ∧ op.is .operator ∧
      table.contains op.value .infixOp ∧ Chained table O left c ∧ Chained table O right d := by
  induction c generalizing seg with
  | last operand =>
    cases h with
    | more operand hop declared others =>
      exact ⟨_, _, _, rfl, rfl, hop, declared, .last operand, others⟩
  | more operand k tail ih =>
    cases h with
    | more operand hop declared others =>
      obtain ⟨left, op', right, rfl, hj, hop', declared', hleft, hright⟩ := ih others
      refine ⟨_, op', right, ?_, hj, hop', declared', .more operand hop declared hleft, hright⟩
      rw [List.append_assoc, List.cons_append]

/-- The tokens in front of a part of a grouping, and those behind it. -/
inductive Context.Spells (table : OperatorTable) (O : Phrase) :
    Context → List Token → List Token → Prop
  | here : Spells table O .here [] []
  | inLeft {ctx : Context} {right : Grouping} {before after seg : List Token} {op : Token}
      {id : NodeId} (part : Spells table O ctx before after) (hop : op.is .operator)
      (declared : table.contains op.value .infixOp) (others : Chained table O seg right.chain) :
      Spells table O (.inLeft ⟨id, op, op.value⟩ ctx right) before (after ++ op :: seg)
  | inRight {ctx : Context} {left : Grouping} {before after seg : List Token} {op : Token}
      {id : NodeId} (others : Chained table O seg left.chain) (hop : op.is .operator)
      (declared : table.contains op.value .infixOp) (part : Spells table O ctx before after) :
      Spells table O (.inRight left ⟨id, op, op.value⟩ ctx) (seg ++ op :: before) after

namespace Context

/-- Whatever is put in between is a text of the whole. -/
theorem Spells.chained (h : ctx.Spells table O before after)
    (hinner : Chained table O inner g.chain) :
    Chained table O (before ++ (inner ++ after)) (ctx.fill g).chain := by
  induction h with
  | here => rwa [List.append_nil, List.nil_append]
  | inLeft _ hop declared others ih =>
    rw [← List.append_assoc inner, ← List.append_assoc]
    exact ih.append hop declared others
  | inRight others hop declared _ ih =>
    rw [List.append_assoc, List.cons_append]
    exact others.append hop declared ih

/-- A text of the whole has a text of the part in it. -/
theorem exists_spells (h : Chained table O tokens (ctx.fill g).chain) :
    ∃ before inner after, tokens = before ++ (inner ++ after) ∧ ctx.Spells table O before after ∧
      Chained table O inner g.chain := by
  induction ctx generalizing tokens with
  | here => exact ⟨[], tokens, [], by simp, .here, h⟩
  | inLeft j ctx right ih =>
    obtain ⟨left, op, seg, rfl, hj, hop, declared, hleft, hright⟩ := Chained.of_append h
    obtain ⟨before, inner, after, rfl, hspells, hinner⟩ := ih hleft
    rw [hj]
    exact ⟨before, inner, after ++ op :: seg, by simp, .inLeft hspells hop declared hright, hinner⟩
  | inRight left j ctx ih =>
    obtain ⟨seg, op, right, rfl, hj, hop, declared, hleft, hright⟩ := Chained.of_append h
    obtain ⟨before, inner, after, rfl, hspells, hinner⟩ := ih hright
    rw [hj]
    exact ⟨seg ++ op :: before, inner, after, by simp, .inRight hleft hop declared hspells, hinner⟩

end Context

/-! ## Parentheses -/

/-- A part between parentheses is an operand, and the rest is grouped around it as before. -/
theorem Grouping.Resolved.parenthesized {l r : Token} (h : (ctx.fill g).Resolved table)
    (hspells : ctx.Spells table (Operand env table) before after)
    (hinner : Chained table (Operand env table) inner g.chain) (hl : l.is .lparen)
    (hr : r.is .rparen) :
    Expression env table (before ++ l :: (inner ++ r :: after))
      (ctx.fill (.operand (unit g.tree))).tree := by
  have hpart : Grouped table (Operand env table) inner g.tree := by
    rw [← Grouping.resolved_iff.mp h.part]
    exact .mk hinner
  have hoperand : Chained table (Operand env table) (l :: (inner ++ [r]))
      (Grouping.operand (unit g.tree)).chain := .last (.parens hl hpart hr)
  have hall := hspells.chained hoperand
  rw [List.cons_append, List.append_assoc, List.singleton_append] at hall
  have hgroup := Grouping.resolved_iff.mp (h.close (unit g.tree))
  rw [← hgroup]
  exact .mk hall

/-- Grouping is stable, whatever the table says: any operator of the chain that an expression is,
and the range of operands that it covers, may be put between parentheses.  The new tokens are an
expression, and its tree is the old one, but that the node of the operator is between
parentheses now; only handles differ. -/
theorem expression_parenthesized {s : ParserState}
    (hrun : Goal.expression.parse env (.start tokens table) = (.ok id, s)) :
    ∃ g : Grouping, g.root = id ∧ g.Closed ∧ s.work.arena.Holds g.tree ∧
      Chained table (Operand env table) tokens g.chain ∧
      ∀ (ctx : Context) (j : Joint) (left right : Grouping), g = ctx.fill (.join j left right) →
        ∃ before inner after, tokens = before ++ (inner ++ after) ∧
          ctx.Spells table (Operand env table) before after ∧
          Chained table (Operand env table) inner (Grouping.join j left right).chain ∧
          ∀ l r : Token, l.is .lparen → r.is .rparen →
            ∃ t s', Goal.expression.parse env
                (.start (before ++ l :: (inner ++ r :: after)) table) = (.ok t.root, s') ∧
              s'.work.arena.Holds t ∧
              Tree.IsCopy (ctx.fill (.operand
                (.node j.id j.token (.binary j.operator left.root right.root true)
                  [left.tree, right.tree]))).tree t := by
  obtain ⟨t, ht, rfl, hholds⟩ := goal_expression_sound hrun
  cases ht with
  | @mk _ c chain =>
    have hchain : Chained table (Operand env table) tokens (c.group table).chain := by
      rwa [chain_group]
    refine ⟨c.group table, rfl, Grouping.closed_group chain.operands_closed, hholds, hchain, ?_⟩
    intro ctx j left right hg
    have hresolved := Grouping.group_resolved table c
    rw [hg] at hchain hresolved
    obtain ⟨before, inner, after, rfl, hspells, hinner⟩ := Context.exists_spells hchain
    refine ⟨before, inner, after, rfl, hspells, hinner, fun l r hl hr => ?_⟩
    have hnew := hresolved.parenthesized hspells hinner hl hr
    obtain ⟨id', s', hrun'⟩ := goal_expression_complete hnew
    obtain ⟨t', ht', rfl, hholds'⟩ := goal_expression_sound hrun'
    exact ⟨t', s', hrun', hholds', Expression.isCopy hnew ht'⟩

/-- Where an open binary is found the grouping has an operator on top. -/
theorem Grouping.exists_join {a : Arena} {node : OpenBinary} (h : a.Holds g.tree)
    (hclosed : g.Closed) (hopen : a.open? g.root = some node) :
    ∃ j left right, g = .join j left right ∧ left.root = node.left ∧ right.root = node.right := by
  rw [open?_root h hclosed] at hopen
  cases g with
  | operand t => cases hopen
  | join j left right =>
    cases hopen
    exact ⟨j, left, right, rfl, rfl, rfl⟩

/-- The product of `a * b + c` may be put between parentheses. -/
theorem expression_parenthesized_sumOfProduct :
    ∃ inner after, sumOfProduct = inner ++ after ∧ after ≠ [] ∧
      ∃ id s', Goal.expression.parse .standard (.start
        (⟨.lparen, "(", .start⟩ :: (inner ++ ⟨.rparen, ")", .start⟩ :: after)) .builtin) =
          (.ok id, s') := by
  have hread : Outcome.passes (Goal.expression.parse .standard (.start sumOfProduct .builtin))
      fun id s => (s.work.arena.open? id).any fun node =>
        (s.work.arena.open? node.left).isSome := by decide +kernel
  obtain ⟨id, s, hrun, hend⟩ := Outcome.exists_of_passes hread
  obtain ⟨node, hnode, hsome⟩ := (Option.any_eq_true _ _).mp hend
  obtain ⟨lower, hlower⟩ := Option.isSome_iff_exists.mp hsome
  obtain ⟨g, rfl, hclosed, hholds, -, hstable⟩ := expression_parenthesized hrun
  -- On top is the sum, and on the left of it the product.
  obtain ⟨j, left, right, rfl, hleft, -⟩ := Grouping.exists_join hholds hclosed hnode
  rw [← hleft] at hlower
  obtain ⟨k, outer, below, rfl, -, -⟩ := Grouping.exists_join
    (hholds.child List.mem_cons_self) (Grouping.closed_join.mp hclosed).1 hlower
  obtain ⟨before, inner, after, hsplit, hspells, -, hparse⟩ :=
    hstable (.inLeft j .here right) k outer below rfl
  obtain ⟨t, s', hrun', -⟩ := hparse ⟨.lparen, "(", .start⟩ ⟨.rparen, ")", .start⟩ rfl rfl
  cases hspells with
  | inLeft part =>
    cases part
    exact ⟨inner, _, hsplit, List.append_ne_nil_of_right_ne_nil _ (List.cons_ne_nil _ _),
      t.root, s', hrun'⟩

end ApiSyntax
