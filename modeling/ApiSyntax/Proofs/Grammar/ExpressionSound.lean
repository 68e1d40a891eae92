/-
  ApiSyntax/Proofs/Grammar/ExpressionSound.lean --- what is read as an expression is one.

  One rule for each production: if the nested productions read phrases of the language,
  so does the production, and the tree it makes mirrors the phrase.  On a bound every
  production fails, so an induction on the bound ties the knot.

  The operators must not change while an expression is read.
-/
import ApiSyntax.Grammar.Basic
import ApiSyntax.Proofs.Parser.Combinators

set_option autoImplicit false

namespace ApiSyntax.Grammar

open ApiSyntax.Language ApiSyntax.Parser

variable {S : Setting} {env : ParserEnv} {read : Production → Parser NodeId} {G E : Phrase}

/-! ## Names and types -/

theorem identifier_reads : Reads S env identifier (One Name) := by
  intro s hs
  unfold identifier
  refine (Step.refl hs).token (expect_reads .identifier) fun t s₁ ht h₁ => ?_
  exact h₁.made rfl fun id => .mk ht

theorem namedType_reads : Reads S env namedType (One (TypeName env)) := by
  intro s hs
  unfold namedType
  refine (Step.refl hs).token (expect_reads .typeIdentifier) fun t s₁ ht h₁ => ?_
  rw [env_bind]
  exact h₁.made rfl fun id => .mk ht

theorem type_reads (hread : Reads S env (read .type) (One (Typing env))) :
    Reads S env (type read) (One (Typing env)) := by
  intro s hs
  unfold type
  rw [check_bind]
  cases hcheck : s.cursor.check .lbracket with
  | false =>
    exact (namedType_reads.imp fun _ _ h => .named h) s hs
  | true =>
    refine (Step.refl hs).consume_checked hcheck fun l s₁ hl h₁ => ?_
    refine h₁.next hread ?_
    intro _ s₂ _ _ hpost h₂
    obtain ⟨u, rfl, rfl, hu⟩ := hpost
    refine h₂.token (expect_reads .rbracket) fun r s₃ hr h₃ => ?_
    exact h₃.made rfl fun id => .list hl hu hr

theorem pair_reads (hread : Reads S env (read .type) (One (Typing env))) :
    Reads S env (pair read) (One (Pair env)) := by
  intro s hs
  unfold pair
  rw [startToken_bind]
  refine (Step.refl hs).next identifier_reads ?_
  intro _ s₁ _ _ hpost h₁
  obtain ⟨_, rfl, rfl, @⟨t, nid, ht⟩⟩ := hpost
  refine h₁.next hread ?_
  intro _ s₂ _ _ hpost h₂
  obtain ⟨u, rfl, rfl, hu⟩ := hpost
  rw [h₁.startToken]
  exact h₂.made rfl fun id => .mk ht hu

/-! ## Literals -/

variable {table : OperatorTable}

theorem intLiteral_reads : Reads S env intLiteral (One (Operand env table)) := by
  intro s hs
  unfold intLiteral
  refine (Step.refl hs).token (expect_reads .integer) fun t s₁ ht h₁ => ?_
  cases hvalue : readInt64 t.value.toList with
  | some value => exact h₁.made rfl fun id => .int ht hvalue
  | none => exact .fail h₁

theorem realLiteral_reads : Reads S env realLiteral (One (Operand env table)) := by
  intro s hs
  unfold realLiteral
  refine (Step.refl hs).token (expect_reads .real) fun t s₁ ht h₁ => ?_
  cases hvalue : Binary64.read t.value.toList with
  | some value => exact h₁.made rfl fun id => .real ht hvalue
  | none => exact .fail h₁

/-- A list of phrases starts with its opening token. -/
theorem start_of_enclosed {opening closing : TokenKind} {seg : List Token} {ts : List Tree}
    (h : Enclosed opening closing G seg ts) : ∃ l rest, seg = l :: rest ∧ l.is opening := by
  cases h with
  | none hl => exact ⟨_, _, rfl, hl⟩
  | some hl => exact ⟨_, _, rfl, hl⟩

theorem listLiteral_reads (hread : Reads S env (read .expression) (One (Expression env table))) :
    Reads S env (listLiteral read) (One (Operand env table)) := by
  intro s hs
  unfold listLiteral
  rw [startToken_bind]
  refine (Step.refl hs).next (parenthesizedList_reads hread) ?_
  intro _ s₁ seg ts hpost h₁
  obtain ⟨rfl, hitems⟩ := hpost
  obtain ⟨l, rest, rfl, _⟩ := start_of_enclosed hitems
  rw [h₁.startToken]
  exact h₁.made rfl fun id => .list hitems

/-! ## Calls -/

theorem arguments_reads (hread : Reads S env (read .expression) (One E)) :
    Reads S env (arguments read) (Many (Enclosed .lparen .rparen E)) :=
  parenthesizedList_reads hread

/-- A call is put over the receiver `r`, or the receiver stays. -/
def Extends (L : List Token → Tree → Tree → Prop) (r : Tree) (seg : List Token) (id : NodeId)
    (seg' : List Token) (ts : List Tree) : Prop :=
  ∃ rest t, id = t.root ∧ seg' = seg ++ rest ∧ ts = [t] ∧ L rest r t

variable {b s : ParserState} {seg : List Token} {r : Tree}

theorem callLink_step (hread : Reads S env (read .expression) (One E)) (h : Step S b s seg [r]) :
    Outcome S b (Extends (Link E) r seg) (callLink read r.root env s) := by
  unfold callLink
  refine h.token (expect_reads .dot) fun dot s₁ hdot h₁ => ?_
  refine h₁.next identifier_reads ?_
  intro _ s₂ _ _ hpost h₂
  obtain ⟨_, rfl, rfl, @⟨name, mid, hname⟩⟩ := hpost
  refine h₂.next (arguments_reads hread) ?_
  intro _ s₃ rest args hpost h₃
  obtain ⟨rfl, hargs⟩ := hpost
  obtain ⟨tags, hnode⟩ := (h₃.arena.holds List.mem_cons_self).shows.node
  rw [atArena_bind hnode]
  refine (h₃.made (G := fun seg' t => ∃ rest, seg' = seg ++ rest ∧ Link E rest r t) rfl
    fun id => ?_).mono ?_
  · exact ⟨dot :: name :: rest, by simp, .mk hdot hname hargs⟩
  · intro _ _ _ hpost
    obtain ⟨t, rfl, rfl, rest, rfl, ht⟩ := hpost
    exact ⟨rest, t, rfl, rfl, rfl, ht⟩

theorem callChain_step (hread : Reads S env (read .expression) (One E)) (h : Step S b s seg [r]) :
    Outcome S b (Extends (Links E) r seg) (callChain read r.root env s) := by
  unfold callChain
  refine h.loop (I := Extends (Links E) r seg) ?_ ⟨[], r, rfl, by simp, rfl, .none⟩
  intro _ s₁ _ _ hpost h₁
  obtain ⟨rest, t, rfl, rfl, rfl, hlinks⟩ := hpost
  rw [check_bind]
  cases s₁.cursor.check .dot with
  | false => exact .pure h₁ ⟨rest, t, rfl, rfl, rfl, hlinks⟩
  | true =>
    refine (callLink_step hread h₁).bind ?_
    intro _ s₂ _ _ hpost h₂
    obtain ⟨rest', u, rfl, rfl, rfl, hlink⟩ := hpost
    exact .pure h₂ ⟨rest ++ rest', u, rfl, by simp, rfl, hlinks.snoc hlink⟩

theorem constructorCall_reads (hread : Reads S env (read .expression) (One E)) :
    Reads S env (constructorCall read) (One (ConstructorCall env E)) := by
  intro s hs
  unfold constructorCall
  rw [startToken_bind]
  refine (Step.refl hs).next namedType_reads ?_
  intro _ s₁ _ _ hpost h₁
  obtain ⟨_, rfl, rfl, @⟨t, tid, ht⟩⟩ := hpost
  refine h₁.next (arguments_reads hread) ?_
  intro _ s₂ seg args hpost h₂
  obtain ⟨rfl, hargs⟩ := hpost
  rw [h₁.startToken]
  refine h₂.gather rfl fun id s₃ h₃ => ?_
  refine (callChain_step hread h₃).mono ?_
  intro _ _ _ hpost
  obtain ⟨rest, u, rfl, rfl, rfl, hlinks⟩ := hpost
  exact ⟨u, rfl, rfl, .mk ht hargs hlinks⟩

theorem staticCall_reads (hread : Reads S env (read .expression) (One E)) :
    Reads S env (staticCall read) (One (StaticCall env E)) := by
  intro s hs
  unfold staticCall
  rw [startToken_bind]
  refine (Step.refl hs).next namedType_reads ?_
  intro _ s₁ _ _ hpost h₁
  obtain ⟨_, rfl, rfl, @⟨t, tid, ht⟩⟩ := hpost
  refine h₁.token (expect_reads .dot) fun dot s₂ hdot h₂ => ?_
  refine h₂.next identifier_reads ?_
  intro _ s₃ _ _ hpost h₃
  obtain ⟨_, rfl, rfl, @⟨name, mid, hname⟩⟩ := hpost
  refine h₃.next (arguments_reads hread) ?_
  intro _ s₄ seg args hpost h₄
  obtain ⟨rfl, hargs⟩ := hpost
  rw [h₁.startToken]
  refine h₄.gather rfl fun id s₅ h₅ => ?_
  refine (callChain_step hread h₅).mono ?_
  intro _ _ _ hpost
  obtain ⟨rest, u, rfl, rfl, rfl, hlinks⟩ := hpost
  exact ⟨u, rfl, rfl, .mk ht hdot hname hargs hlinks⟩

theorem instanceCall_reads (hread : Reads S env (read .expression) (One E)) :
    Reads S env (instanceCall read) (One (InstanceCall E)) := by
  intro s hs
  unfold instanceCall
  refine (Step.refl hs).next identifier_reads ?_
  intro _ s₁ _ _ hpost h₁
  obtain ⟨_, rfl, rfl, @⟨t, id, ht⟩⟩ := hpost
  refine (callLink_step hread h₁).bind ?_
  intro _ s₂ _ _ hpost h₂
  obtain ⟨seg, call, rfl, rfl, rfl, hfirst⟩ := hpost
  refine (callChain_step hread h₂).mono ?_
  intro _ _ _ hpost
  obtain ⟨rest, u, rfl, rfl, rfl, hlinks⟩ := hpost
  exact ⟨u, rfl, rfl, .mk ht hfirst hlinks⟩

/-! ## Operators -/

/-- The productions that an operand is read as. -/
def operands : List Production :=
  [.realLiteral, .intLiteral, .listLiteral, .constructorCall, .staticCall, .instanceCall,
    .identifier, .parenthesized, .unary]

section

variable (hS : ∀ t, S.Tables t → t = table)
include hS

theorem operator_reads (fixity : Fixity) :
    Reads S env (operator fixity)
      (Passed fun t => t.is .operator ∧ table.contains t.value fixity) := by
  intro s hs
  unfold operator
  refine (Step.refl hs).token (expect_reads .operator) fun t s₁ ht h₁ => ?_
  rw [state_bind]
  have htable : s₁.work.operators = table := hS _ h₁.fits.tables
  cases hdeclared : table.contains t.value fixity with
  | false =>
    refine h₁.next_result (y := ofExcept _) rfl fun op hop => ?_
    rw [htable, OperatorTable.get, hdeclared] at hop
    cases hop
  | true =>
    have hget : (s₁.work.operators.get t.value fixity).mapError (·.placed t.span) =
        .ok ⟨t.value, fixity, table.relationshipsOf t.value fixity⟩ := by
      rw [htable, OperatorTable.get, hdeclared]
      rfl
    rw [ofExcept_bind hget]
    exact .pure h₁ ⟨⟨ht, hdeclared⟩, rfl, rfl⟩

theorem infixTail_step (hread : Reads S env (read .expression) (One (Expression env table)))
    {left : Tree} (h : Step S b s seg [left]) (hleft : Operand env table seg left) :
    Outcome S b (One (Expression env table)) (infixTail read left.root env s) := by
  unfold infixTail
  refine h.token (operator_reads hS .infixOp) ?_
  intro op s₁ hpost h₁
  obtain ⟨hop, hdeclared⟩ := hpost
  refine h₁.next hread ?_
  intro _ s₂ rest _ hpost h₂
  obtain ⟨_, rfl, rfl, @⟨_, c, hchain⟩⟩ := hpost
  refine h₂.gather rfl fun id s₃ h₃ => ?_
  -- The new node joins the left operand to the grouping of the rest.
  have hclosed : (Grouping.join ⟨id, op, op.value⟩ (.operand left) (c.group table)).Closed := by
    refine Grouping.closed_join.mpr ⟨?_, Grouping.closed_group hchain.operands_closed⟩
    intro t ht
    exact List.mem_singleton.mp ht ▸ hleft.openBinary?_eq
  refine h₃.settle hclosed ?_
  have htable : s₃.work.operators = table := hS _ h₃.fits.tables
  rw [htable]
  refine ⟨_, rfl, rfl, ?_⟩
  rw [List.append_assoc]
  exact .mk (.more hleft hop hdeclared hchain)

theorem expression_reads
    (hoperand : Reads S env (operand read) (One (Operand env table)))
    (hread : Reads S env (read .expression) (One (Expression env table))) :
    Reads S env (expression read) (One (Expression env table)) := by
  intro s hs
  unfold expression
  refine (Step.refl hs).next hoperand ?_
  intro _ s₁ seg _ hpost h₁
  obtain ⟨t, rfl, rfl, ht⟩ := hpost
  rw [check_bind]
  cases s₁.cursor.check .operator with
  | false => exact .pure h₁ ⟨t, rfl, rfl, .mk (.last ht)⟩
  | true => exact infixTail_step hS hread h₁ ht

theorem unary_reads (hoperand : Reads S env (operand read) (One (Operand env table))) :
    Reads S env (unary read) (One (Operand env table)) := by
  intro s hs
  unfold unary
  refine (Step.refl hs).token (operator_reads hS .prefixOp) ?_
  intro op s₁ hpost h₁
  obtain ⟨hop, hdeclared⟩ := hpost
  refine h₁.next hoperand ?_
  intro _ s₂ seg _ hpost h₂
  obtain ⟨t, rfl, rfl, ht⟩ := hpost
  exact h₂.made rfl fun id => .unary hop hdeclared ht

end

theorem children_enclose (e : Expr) : (Expr.enclose e).children = e.children := by
  cases e <;> rfl

theorem parenthesized_reads (hread : Reads S env (read .expression) (One (Expression env table))) :
    Reads S env (parenthesized read) (One (Operand env table)) := by
  intro s hs
  unfold parenthesized
  refine (Step.refl hs).next (Parser.parenthesized_reads hread) ?_
  intro _ s₁ _ _ hpost h₁
  obtain ⟨t, rfl, rfl, l, seg, r, rfl, hl, hr, ht⟩ := hpost
  rw [atArena_bind (h₁.arena.holds List.mem_cons_self).shows.expr]
  refine h₁.overwrite (children_enclose t.expr) fun s₂ h₂ => ?_
  refine .pure h₂ ⟨unit t, ?_, ?_, .parens hl ht hr⟩
  · cases t
    rfl
  · cases t
    rfl

/-- A name or a call behind it is an operand. -/
theorem operand_of_instanceCall {seg : List Token} {t : Tree}
    (h : InstanceCall (Expression env table) seg t) : Operand env table seg t := by
  cases h with
  | mk ht first others => exact .name ht (.some first others)

/-- Operands are read when the expressions and operands nested in them are. -/
theorem step_operand_reads (hS : ∀ t, S.Tables t → t = table)
    (hoperand : Reads S env (operand read) (One (Operand env table)))
    (hread : Reads S env (read .expression) (One (Expression env table))) :
    ∀ p ∈ operands, Reads S env (step read p) (One (Operand env table)) := by
  intro p hp
  simp only [operands, List.mem_cons, List.not_mem_nil, or_false] at hp
  rcases hp with rfl | rfl | rfl | rfl | rfl | rfl | rfl | rfl | rfl
  · exact realLiteral_reads
  · exact intLiteral_reads
  · exact listLiteral_reads hread
  · exact (constructorCall_reads hread).imp fun _ _ h => .construct h
  · exact (staticCall_reads hread).imp fun _ _ h => .static h
  · exact (instanceCall_reads hread).imp fun _ _ h => operand_of_instanceCall h
  · refine identifier_reads.imp fun seg t h => ?_
    cases h with
    | mk ht => exact .name ht .none
  · exact parenthesized_reads hread
  · exact unary_reads hS hoperand

/-- What is read as an operand is one, and so is what is read as an expression. -/
theorem readN_operand_and_expression_reads (hS : ∀ t, S.Tables t → t = table) (depth : Nat) :
    Reads S env (operand (readN depth)) (One (Operand env table)) ∧
      Reads S env (readN depth .expression) (One (Expression env table)) := by
  induction depth with
  | zero =>
    refine ⟨choice_reads fun p _ => ?_, fun s hs => .exhausted (Step.refl hs)⟩
    exact fun s hs => .exhausted (Step.refl hs)
  | succ depth ih =>
    obtain ⟨hoperand, hread⟩ := ih
    exact ⟨choice_reads (step_operand_reads hS hoperand hread),
      expression_reads hS hoperand hread⟩

theorem readN_operand_reads (hS : ∀ t, S.Tables t → t = table) (depth : Nat) :
    Reads S env (operand (readN depth)) (One (Operand env table)) :=
  (readN_operand_and_expression_reads hS depth).1

theorem readN_expression_reads (hS : ∀ t, S.Tables t → t = table) (depth : Nat) :
    Reads S env (readN depth .expression) (One (Expression env table)) :=
  (readN_operand_and_expression_reads hS depth).2

end ApiSyntax.Grammar
