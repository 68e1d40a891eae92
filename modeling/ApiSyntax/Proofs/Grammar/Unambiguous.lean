/-
  ApiSyntax/Proofs/Grammar/Unambiguous.lean --- tokens are one expression in one way.

  Where a phrase ends is settled by the parser: it reads every phrase to its end, and it
  comes to one place.  So two splits of the same tokens agree, and an induction on the
  operands shows that two trees of the same tokens differ in their handles alone
  (`Expression.isCopy`).
-/
import ApiSyntax.Proofs.Arena.Copy
import ApiSyntax.Proofs.Arena.Follows
import ApiSyntax.Proofs.Grammar.Operands
import ApiSyntax.Reading

set_option autoImplicit false

namespace ApiSyntax

open ApiSyntax.Grammar ApiSyntax.Language ApiSyntax.Parser

/-! ## Copies -/

namespace Tree

variable {t u : Tree}

theorem isCopy_node {id id' : NodeId} {token : Token} {expr expr' : Expr} {cs ds : List Tree}
    (hchildren : List.Forall₂ IsCopy cs ds) (hfill : expr' = expr.withChildren (ds.map root)) :
    (node id token expr cs).IsCopy (node id' token expr' ds) := by
  rw [hfill]
  exact .node hchildren

theorem isCopy_leaf {id id' : NodeId} {token : Token} {expr : Expr} (h : expr.children = []) :
    (leaf id token expr).IsCopy (leaf id' token expr) := by
  have hfill := expr.withChildren_children
  rw [h] at hfill
  exact isCopy_node .nil hfill.symm

/-- A copy of a leaf without slots differs from it in its handle alone. -/
theorem IsCopy.eq_leaf {id : NodeId} {token : Token} {expr : Expr}
    (h : (leaf id token expr).IsCopy u) (hslots : expr.children = []) :
    ∃ id', u = leaf id' token expr := by
  have hfill := expr.withChildren_children
  rw [hslots] at hfill
  cases h with
  | node children =>
    cases children
    exact ⟨_, congrArg (fun expr => leaf _ token expr) hfill⟩

theorem IsCopy.token_eq (h : t.IsCopy u) : u.token = t.token := by
  cases h
  rfl

/-- Filling the slots does not make a binary node, nor one of another kind. -/
theorem enclose_withChildren (e : Expr) (cs : List NodeId) :
    Expr.enclose (e.withChildren cs) = (Expr.enclose e).withChildren cs := by
  by_cases hkind : e.kind = .binary
  · cases e with
    | binary operator left right parenthesized =>
      match cs with
      | [] | [_] | [_, _] | _ :: _ :: _ :: _ => rfl
    | _ => cases hkind
  · have hkind' : (e.withChildren cs).kind ≠ .binary := by rwa [Expr.kind_withChildren]
    rw [(Expr.Alike.enclose e).eq_of_kind hkind, (Expr.Alike.enclose _).eq_of_kind hkind']

theorem IsCopy.unit (h : t.IsCopy u) : (unit t).IsCopy (unit u) := by
  cases h with
  | node children =>
    rw [Language.unit, Language.unit, enclose_withChildren]
    exact .node children

end Tree

/-! ## Chains of copies -/

/-- The operands of the second chain are copies of those of the first one, and the operators are
the same. -/
inductive Chain.Alike : Chain → Chain → Prop
  | last {t u : Tree} (operand : t.IsCopy u) : Alike (.last t) (.last u)
  | more {t u : Tree} {id id' : NodeId} {token : Token} {op : String} {c d : Chain}
      (operand : t.IsCopy u) (rest : Alike c d) :
      Alike (.more t ⟨id, token, op⟩ c) (.more u ⟨id', token, op⟩ d)

/-- The same for groupings, which have the same form. -/
inductive Grouping.Alike : Grouping → Grouping → Prop
  | operand {t u : Tree} (h : t.IsCopy u) : Alike (.operand t) (.operand u)
  | join {id id' : NodeId} {token : Token} {op : String} {left left' right right' : Grouping}
      (hleft : Alike left left') (hright : Alike right right') :
      Alike (.join ⟨id, token, op⟩ left right) (.join ⟨id', token, op⟩ left' right')

namespace Grouping

variable {table : OperatorTable} {left left' right right' : Grouping} {id id' : NodeId}
  {token : Token} {op : String}

/-- Where an operator sinks is settled by the operators alone. -/
theorem Alike.sinkRight (hleft : left.Alike left') (hright : right.Alike right') :
    (Grouping.sinkRight table ⟨id, token, op⟩ left right).Alike
      (Grouping.sinkRight table ⟨id', token, op⟩ left' right') := by
  induction hright with
  | operand h => exact .join hleft (.operand h)
  | join hinner houter ihInner _ =>
    rw [Grouping.sinkRight, Grouping.sinkRight]
    dsimp only
    split
    · exact .join ihInner houter
    · exact .join hleft (.join hinner houter)

theorem Alike.tree (h : left.Alike left') : left.tree.IsCopy left'.tree := by
  induction h with
  | operand h => exact h
  | join _ _ ihLeft ihRight =>
    exact Tree.isCopy_node (.cons ihLeft (.cons ihRight .nil)) rfl

end Grouping

theorem Chain.Alike.group {table : OperatorTable} {c d : Chain} (h : c.Alike d) :
    (c.group table).Alike (d.group table) := by
  induction h with
  | last operand => exact .operand operand
  | more operand _ ih => exact Grouping.Alike.sinkRight (.operand operand) ih

namespace Language

variable {env : ParserEnv} {table : OperatorTable} {seg seg' rest rest' : List Token}
  {t t' r r' : Tree} {ts ts' : List Tree} {c c' : Chain}

/-! ## Where phrases end -/

/-- A parser that reads every phrase to its end comes to one place. -/
theorem split_of_complete {α β : Type} {x : Parser α} {G : List Token → β → Prop} {n : Nat}
    {F : List Token → Prop} {a b : β} (hx : Complete (.fixed table) env x G n F)
    (h : G seg a) (h' : G seg' b) (hn : seg.length ≤ n) (hn' : seg'.length ≤ n)
    (heq : seg ++ rest = seg' ++ rest') (hF : F rest) (hF' : F rest') :
    seg = seg' ∧ rest = rest' := by
  let s : ParserState := .start (seg ++ rest) table
  have hfits : (Setting.fixed table).Fits s := ⟨rfl, fun _ _ => trivial⟩
  obtain ⟨_, s₁, hrun, hrest, -⟩ := hx seg a h hn s rest hfits rfl hF
  obtain ⟨_, s₂, hrun', hrest', -⟩ := hx seg' b h' hn' s rest' hfits heq hF'
  cases hrun.symm.trans hrun'
  obtain rfl : rest = rest' := hrest.symm.trans hrest'
  exact ⟨List.append_cancel_right heq, rfl⟩

theorem Operand.split (h : Operand env table seg t) (h' : Operand env table seg' t')
    (heq : seg ++ rest = seg' ++ rest') (hend : OperandEnd rest) (hend' : OperandEnd rest') :
    seg = seg' ∧ rest = rest' :=
  split_of_complete
    (readN_operand_and_expression_complete (fun _ ht => ht) (seg.length + seg'.length)).1
    h h' (by omega) (by omega) heq hend hend'

theorem Expression.split (h : Expression env table seg t) (h' : Expression env table seg' t')
    (heq : seg ++ rest = seg' ++ rest') (hend : ExpressionEnd rest)
    (hend' : ExpressionEnd rest') : seg = seg' ∧ rest = rest' :=
  split_of_complete (readN_expression_complete (fun _ ht => ht) (seg.length + seg'.length + 1))
    h h' (by omega) (by omega) heq hend hend'

/-- Arguments end with their closing parenthesis, whatever comes behind. -/
theorem Enclosed.split (h : Enclosed .lparen .rparen (Expression env table) seg ts)
    (h' : Enclosed .lparen .rparen (Expression env table) seg' ts')
    (heq : seg ++ rest = seg' ++ rest') : seg = seg' ∧ rest = rest' := by
  let depth := seg.length + seg'.length + 1
  have hread : Complete (.fixed table) env (readN depth .expression) (Expression env table)
      (depth - 1) ExpressionEnd := readN_expression_complete (fun _ ht => ht) depth
  have hlist : Complete (.fixed table) env (arguments (readN depth))
      (Enclosed .lparen .rparen (Expression env table)) (depth - 1 + 2) anyEnd :=
    fun _ _ hinner hn s _ hs hrest _ =>
      arguments_complete hread expression_starts hinner hn hs hrest
  exact split_of_complete hlist h h' (by omega) (by omega) heq trivial trivial

/-! ## Phrases with one tree -/

/-- A phrase of which all trees are copies of each other. -/
def Once (G : Phrase) : Phrase := fun seg t => G seg t ∧ ∀ t', G seg t' → t.IsCopy t'

theorem Separated.isCopy (h : Separated (Once (Expression env table)) seg ts)
    (h' : Separated (Expression env table) seg' ts') (heq : seg = seg') :
    List.Forall₂ Tree.IsCopy ts ts' := by
  have hcomma : ∀ {comma : Token} {rest : List Token}, comma.is .comma →
      ExpressionEnd (comma :: rest) := fun hcomma => stops_of_is hcomma (by decide)
  induction h generalizing seg' ts' with
  | @one seg t first =>
    rw [← List.append_nil seg] at heq
    cases h' with
    | one first' =>
      rw [List.append_nil] at heq
      exact .cons (first.2 _ (heq ▸ first')) .nil
    | more first' hcomma' _ =>
      cases (Expression.split first.1 first' heq stops_nil (hcomma hcomma')).2
  | more first hcomma₁ _ ih =>
    cases h' with
    | @one seg' t' first' =>
      rw [← List.append_nil seg'] at heq
      cases (Expression.split first.1 first' heq (hcomma hcomma₁) stops_nil).2
    | more first' hcomma' others' =>
      obtain ⟨rfl, hrest⟩ := Expression.split first.1 first' heq (hcomma hcomma₁) (hcomma hcomma')
      exact .cons (first.2 _ first') (ih others' (List.cons.inj hrest).2)

theorem ne_append_singleton {inner : List Token} (h : inner ≠ []) (x y : Token) :
    [x] ≠ inner ++ [y] := by
  intro heq
  have hlength := congrArg List.length heq
  rw [List.length_append, List.length_singleton, List.length_singleton] at hlength
  exact h (List.length_eq_zero_iff.mp (by omega))

theorem Enclosed.isCopy {opening closing : TokenKind}
    (h : Enclosed opening closing (Once (Expression env table)) seg ts)
    (h' : Enclosed opening closing (Expression env table) seg' ts') (heq : seg = seg') :
    List.Forall₂ Tree.IsCopy ts ts' := by
  have hsome : ∀ {inner us}, Separated (Expression env table) inner us → inner ≠ [] :=
    fun items => expression_starts.separated.ne_nil items
  cases h with
  | none =>
    cases h' with
    | none => exact .nil
    | some _ items' _ =>
      exact absurd (List.cons.inj heq).2 (ne_append_singleton (hsome items') _ _)
  | some _ items _ =>
    cases h' with
    | none =>
      have hitems := hsome (items.mono fun _ _ h => h.1)
      exact absurd (List.cons.inj heq).2.symm (ne_append_singleton hitems _ _)
    | some _ items' _ =>
      exact items.isCopy items' (List.append_inj_left' (List.cons.inj heq).2 rfl)

/-- Of arguments the end is known too. -/
theorem Enclosed.isCopy_split (h : Enclosed .lparen .rparen (Once (Expression env table)) seg ts)
    (h' : Enclosed .lparen .rparen (Expression env table) seg' ts')
    (heq : seg ++ rest = seg' ++ rest') : List.Forall₂ Tree.IsCopy ts ts' ∧ rest = rest' := by
  obtain ⟨hseg, hrest⟩ := Enclosed.split (h.mono fun _ _ h => h.1) h' heq
  exact ⟨h.isCopy h' hseg, hrest⟩

theorem Link.isCopy (h : Link (Once (Expression env table)) seg r t)
    (h' : Link (Expression env table) seg' r' t') (heq : seg ++ rest = seg' ++ rest')
    (hr : r.IsCopy r') : t.IsCopy t' ∧ rest = rest' := by
  cases h with
  | mk _ _ arguments =>
    cases h' with
    | mk _ _ arguments' =>
      obtain ⟨-, hname⟩ := List.cons.inj heq
      obtain ⟨rfl, hbehind⟩ := List.cons.inj hname
      obtain ⟨hargs, hrest⟩ := arguments.isCopy_split arguments' hbehind
      rw [hr.token_eq]
      exact ⟨Tree.isCopy_node (.cons hr (.cons (Tree.isCopy_leaf rfl) hargs)) rfl, hrest⟩

theorem Links.isCopy (h : Links (Once (Expression env table)) seg r t)
    (h' : Links (Expression env table) seg' r' t') (heq : seg = seg') (hr : r.IsCopy r') :
    t.IsCopy t' := by
  induction h generalizing seg' r' t' with
  | none =>
    cases h' with
    | none => exact hr
    | some first' _ =>
      cases first'
      cases heq
  | some first _ ih =>
    cases h' with
    | none =>
      cases first
      cases heq
    | some first' others' =>
      obtain ⟨hcall, hrest⟩ := first.isCopy first' heq hr
      exact ih others' hrest hcall

theorem ConstructorCall.isCopy (h : ConstructorCall env (Once (Expression env table)) seg t)
    (h' : ConstructorCall env (Expression env table) seg' t') (heq : seg = seg') :
    t.IsCopy t' := by
  cases h with
  | mk _ arguments links =>
    cases h' with
    | mk _ arguments' links' =>
      obtain ⟨rfl, hbehind⟩ := List.cons.inj heq
      obtain ⟨hargs, hrest⟩ := arguments.isCopy_split arguments' hbehind
      exact links.isCopy links' hrest
        (Tree.isCopy_node (.cons (Tree.isCopy_leaf rfl) hargs) rfl)

theorem StaticCall.isCopy (h : StaticCall env (Once (Expression env table)) seg t)
    (h' : StaticCall env (Expression env table) seg' t') (heq : seg = seg') : t.IsCopy t' := by
  cases h with
  | mk _ _ _ arguments links =>
    cases h' with
    | mk _ _ _ arguments' links' =>
      obtain ⟨rfl, hdot⟩ := List.cons.inj heq
      obtain ⟨-, hname⟩ := List.cons.inj hdot
      obtain ⟨rfl, hbehind⟩ := List.cons.inj hname
      obtain ⟨hargs, hrest⟩ := arguments.isCopy_split arguments' hbehind
      exact links.isCopy links' hrest
        (Tree.isCopy_node (.cons (Tree.isCopy_leaf rfl) (.cons (Tree.isCopy_leaf rfl) hargs)) rfl)

theorem InstanceCall.isCopy (h : InstanceCall (Once (Expression env table)) seg t)
    (h' : InstanceCall (Expression env table) seg' t') (heq : seg = seg') : t.IsCopy t' := by
  cases h with
  | mk _ first others =>
    cases h' with
    | mk _ first' others' =>
      obtain ⟨rfl, hlinks⟩ := List.cons.inj heq
      exact Links.isCopy (.some first others) (.some first' others') hlinks (Tree.isCopy_leaf rfl)

/-- The operands of a chain are told apart by their ends, so a chain is read in one way. -/
theorem Chained.alike (h : Chained table (Once (Operand env table)) seg c)
    (h' : Chained table (Operand env table) seg' c') (heq : seg = seg') : c.Alike c' := by
  have hbefore : ∀ {op : Token} {rest : List Token}, op.is .operator →
      OperandEnd (op :: rest) := fun hop => stops_of_is hop (by decide)
  induction h generalizing seg' c' with
  | @last seg t operand =>
    rw [← List.append_nil seg] at heq
    cases h' with
    | last operand' =>
      rw [List.append_nil] at heq
      exact .last (operand.2 _ (heq ▸ operand'))
    | more operand' hop' _ _ =>
      cases (Operand.split operand.1 operand' heq stops_nil (hbefore hop')).2
  | more operand hop _ _ ih =>
    cases h' with
    | @last seg' t' operand' =>
      rw [← List.append_nil seg'] at heq
      cases (Operand.split operand.1 operand' heq (hbefore hop) stops_nil).2
    | more operand' hop' _ others' =>
      obtain ⟨rfl, hop_eq⟩ := Operand.split operand.1 operand' heq (hbefore hop) (hbefore hop')
      obtain ⟨rfl, hrest⟩ := List.cons.inj hop_eq
      exact .more (operand.2 _ operand') (ih others' hrest)

/-- Expressions over operands that are read in one way are read in one way. -/
theorem Grouped.once (h : Grouped table (Once (Operand env table)) seg t) :
    Once (Expression env table) seg t := by
  refine ⟨h.mono fun _ _ h => h.1, fun t' h' => ?_⟩
  cases h with
  | mk chain =>
    cases h' with
    | mk chain' => exact (chain.alike chain' rfl).group.tree

/-- Two operands of the same tokens differ in their handles alone. -/
theorem Operand.isCopy (h : Operand env table seg t) :
    ∀ t', Operand env table seg t' → t.IsCopy t' := by
  refine Operand.induct (P := fun seg t => ∀ t', Operand env table seg t' → t.IsCopy t')
    (fun p seg t layer t' h' => ?_) h
  obtain ⟨p', layer'⟩ := h'.exists_by
  obtain rfl : p = p' := Option.some.inj (layer.chosen.symm.trans layer'.chosen)
  generalize heq : seg = seg' at layer'
  cases layer with
  | real ht hvalue =>
    cases layer' with
    | real _ hvalue' =>
      obtain ⟨rfl, -⟩ := List.cons.inj heq
      cases hvalue.symm.trans hvalue'
      exact Tree.isCopy_leaf rfl
  | int ht hvalue =>
    cases layer' with
    | int _ hvalue' =>
      obtain ⟨rfl, -⟩ := List.cons.inj heq
      cases hvalue.symm.trans hvalue'
      exact Tree.isCopy_leaf rfl
  | list elements =>
    cases layer' with
    | list elements' =>
      obtain ⟨rfl, -⟩ := List.cons.inj heq
      exact Tree.isCopy_node ((elements.mono fun _ _ h => Grouped.once h).isCopy elements' heq) rfl
  | construct call =>
    cases layer' with
    | construct call' => exact (call.mono fun _ _ h => Grouped.once h).isCopy call' heq
  | static call =>
    cases layer' with
    | static call' => exact (call.mono fun _ _ h => Grouped.once h).isCopy call' heq
  | instanceCall call =>
    cases layer' with
    | instanceCall call' => exact (call.mono fun _ _ h => Grouped.once h).isCopy call' heq
  | name ht =>
    cases layer' with
    | name =>
      obtain ⟨rfl, -⟩ := List.cons.inj heq
      exact Tree.isCopy_leaf rfl
  | parens hl inner hr =>
    cases layer' with
    | parens _ inner' _ =>
      obtain rfl := List.append_inj_left' (List.cons.inj heq).2 rfl
      exact ((Grouped.once inner).2 _ inner').unit
  | unary hop declared operand =>
    cases layer' with
    | unary _ _ operand' =>
      obtain ⟨rfl, rfl⟩ := List.cons.inj heq
      exact Tree.isCopy_node (.cons (operand.2 _ operand') .nil) rfl

/-- Two expressions of the same tokens differ in their handles alone. -/
theorem Expression.isCopy (h : Expression env table seg t) (h' : Expression env table seg t') :
    t.IsCopy t' :=
  (Grouped.once (Grouped.mono h fun _ _ operand => ⟨operand, operand.isCopy⟩)).2 t' h'

end Language

end ApiSyntax
