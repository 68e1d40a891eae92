/-
  ApiSyntax/Proofs/Grammar/Faults.lean --- what a production may fail of.

  Every production but the top ones is gone through once: what it reports is a fault of the
  text, the handles that it looks up are those of nodes that it made or was given, and what it
  reads inside itself comes behind a token or is one level down.

  Expressions are settled against the operators, so their bound on the depth is derived here,
  on operators that stay as they are (`readN_operand_and_expression_safe`).
-/
import ApiSyntax.Proofs.Grammar.AnnotationSound
import ApiSyntax.Proofs.Grammar.Goals
import ApiSyntax.Proofs.Grammar.Triggers
import ApiSyntax.Proofs.Parser.Faults

set_option autoImplicit false

namespace ApiSyntax.Grammar

open ApiSyntax.Language ApiSyntax.Parser

variable {B : Prop} {S : Setting} {env : ParserEnv} {read : Production → Parser NodeId}
  {E A : Phrase} {n : Nat} {b s : ParserState} {seg : List Token} {ts : List Tree}

/-! ## Names and types -/

theorem identifier_safe : Safe B S env n identifier := by
  intro s hs hclean _
  exact (Track.refl hs hclean).expect .identifier fun t s₁ _ h₁ => .alloc h₁.clean

theorem namedType_safe : Safe B S env n namedType := by
  intro s hs hclean _
  unfold namedType
  refine (Track.refl hs hclean).expect .typeIdentifier fun t s₁ _ h₁ => ?_
  rw [env_bind]
  exact .alloc h₁.clean

theorem type_safe (hreads : Reads S env (read .type) (One (Typing env)))
    (h : Safe B S env n (read .type)) : Safe B S env (n + 1) (type read) := by
  intro s hs hclean hn
  have hstart := Track.refl hs hclean
  unfold type
  rw [check_bind]
  refine .cond (fun _ => hstart.consume fun l s₁ h₁ => ?_) fun _ => hstart.safe namedType_safe hn
  refine h₁.next hreads (h₁.safe h (h₁.lt hn (by simp))) fun id s₂ seg₂ ts₂ _ h₂ => ?_
  exact h₂.expect .rbracket fun r s₃ _ h₃ => .alloc h₃.clean

theorem pair_safe (hreads : Reads S env (read .type) (One (Typing env)))
    (h : Safe B S env n (read .type)) : Safe B S env (n + 1) (pair read) := by
  intro s hs hclean hn
  have hstart := Track.refl hs hclean
  unfold pair
  rw [startToken_bind]
  refine hstart.next identifier_reads (hstart.safe identifier_safe hn) ?_
  rintro _ s₁ _ _ ⟨_, rfl, rfl, ⟨hname⟩⟩ h₁
  refine h₁.next hreads (h₁.safe h (h₁.lt hn (by simp))) fun id s₂ seg₂ ts₂ _ h₂ => ?_
  exact .alloc h₂.clean

/-! ## Literals -/

theorem invalidLiteral_fault {t : Token} (ht : S.Tokens t) :
    (invalidLiteral t).Fault S.Tokens := Diagnostic.fault_of_span rfl rfl ht

theorem intLiteral_safe : Safe B S env n intLiteral := by
  intro s hs hclean _
  unfold intLiteral
  refine (Track.refl hs hclean).expect .integer fun t s₁ _ h₁ => ?_
  cases readInt64 t.value.toList with
  | some value => exact .alloc h₁.clean
  | none => exact .fail h₁.clean (invalidLiteral_fault (h₁.known (by simp)))

theorem realLiteral_safe : Safe B S env n realLiteral := by
  intro s hs hclean _
  unfold realLiteral
  refine (Track.refl hs hclean).expect .real fun t s₁ _ h₁ => ?_
  cases Binary64.read t.value.toList with
  | some value => exact .alloc h₁.clean
  | none => exact .fail h₁.clean (invalidLiteral_fault (h₁.known (by simp)))

section

variable (hreads : Reads S env (read .expression) (One E)) (h : Safe B S env n (read .expression))
include hreads h

theorem listLiteral_safe : Safe B S env (n + 1) (listLiteral read) := by
  intro s hs hclean hn
  have hstart := Track.refl hs hclean
  unfold listLiteral
  rw [startToken_bind]
  refine hstart.next (parenthesizedList_reads hreads)
    (hstart.safe (parenthesizedList_safe hreads h) hn) fun ids s₁ seg₁ ts₁ _ h₁ => ?_
  exact .alloc h₁.clean

/-! ## Calls -/

theorem arguments_safe : Safe B S env (n + 1) (arguments read) := parenthesizedList_safe hreads h

/-- A link behind a receiver that is there. -/
theorem callLink_tidy {r : Tree} (hn : b.cursor.rest.length < n + 1) (ht : Track B S b s seg [r]) :
    Tidy B S.Tokens (callLink read r.root env s) := by
  unfold callLink
  refine ht.expect .dot fun dot s₁ _ h₁ => ?_
  have hdot := h₁.lt hn (by simp)
  refine h₁.next identifier_reads (h₁.safe identifier_safe hdot) ?_
  rintro _ s₂ _ _ ⟨_, rfl, rfl, ⟨hname⟩⟩ h₂
  have hname := h₂.lt hn (by simp)
  refine h₂.next (arguments_reads hreads)
    (h₂.safe (arguments_safe hreads h) (Nat.lt_succ_of_lt hname)) ?_
  rintro _ s₃ rest args ⟨rfl, hargs⟩ h₃
  obtain ⟨tags, hnode⟩ := (h₃.arena.holds List.mem_cons_self).shows.node
  rw [atArena_bind hnode]
  exact .alloc h₃.clean

theorem callChain_tidy {r : Tree} (hn : b.cursor.rest.length < n + 1) (ht : Track B S b s seg [r]) :
    Tidy B S.Tokens (callChain read r.root env s) := by
  unfold callChain
  let Receives (id : NodeId) (_ : List Token) (ts : List Tree) : Prop :=
    ∃ t : Tree, id = t.root ∧ ts = [t]
  refine ht.loop (I := Receives) ?_ ?_ ⟨r, rfl, rfl⟩
  · rintro _ s₁ seg₁ _ ⟨t, rfl, rfl⟩ h₁
    rw [check_bind]
    refine .cond (fun _ => ?_) fun _ => .pure h₁.clean
    refine h₁.bind (callLink_step hreads h₁.toStep) (callLink_tidy hreads h hn h₁)
      fun id s₂ seg₂ ts₂ _ h₂ => ?_
    exact .pure h₂.clean
  · rintro _ s₁ seg₁ _ ⟨t, rfl, rfl⟩ h₁
    rw [check_bind]
    refine .cond (fun _ => ?_) fun _ => .pure h₁.toStep trivial
    refine (callLink_step hreads h₁.toStep).bind ?_
    rintro _ s₂ _ _ ⟨rest, u, rfl, rfl, rfl, hlink⟩ h₂
    refine .pure h₂ ⟨⟨u, rfl, rfl⟩, ?_⟩
    cases hlink with
    | mk => simp

theorem constructorCall_safe : Safe B S env (n + 1) (constructorCall read) := by
  intro s hs hclean hn
  have hstart := Track.refl hs hclean
  unfold constructorCall
  rw [startToken_bind]
  refine hstart.next namedType_reads (hstart.safe namedType_safe hn) ?_
  rintro _ s₁ _ _ ⟨_, rfl, rfl, ⟨hname⟩⟩ h₁
  refine h₁.next (arguments_reads hreads)
    (h₁.safe (arguments_safe hreads h) (Nat.lt_succ_of_lt (h₁.lt hn (by simp)))) ?_
  rintro _ s₂ seg₂ args ⟨rfl, hargs⟩ h₂
  refine h₂.gather rfl fun id s₃ h₃ => ?_
  have hchain := callChain_tidy hreads h hn h₃
  exact hchain

theorem staticCall_safe : Safe B S env (n + 1) (staticCall read) := by
  intro s hs hclean hn
  have hstart := Track.refl hs hclean
  unfold staticCall
  rw [startToken_bind]
  refine hstart.next namedType_reads (hstart.safe namedType_safe hn) ?_
  rintro _ s₁ _ _ ⟨_, rfl, rfl, ⟨hname⟩⟩ h₁
  refine h₁.expect .dot fun dot s₂ _ h₂ => ?_
  refine h₂.next identifier_reads (h₂.safe identifier_safe (h₂.lt hn (by simp))) ?_
  rintro _ s₃ _ _ ⟨_, rfl, rfl, ⟨hmethod⟩⟩ h₃
  refine h₃.next (arguments_reads hreads)
    (h₃.safe (arguments_safe hreads h) (Nat.lt_succ_of_lt (h₃.lt hn (by simp)))) ?_
  rintro _ s₄ seg₄ args ⟨rfl, hargs⟩ h₄
  refine h₄.gather rfl fun id s₅ h₅ => ?_
  have hchain := callChain_tidy hreads h hn h₅
  exact hchain

theorem instanceCall_safe : Safe B S env (n + 1) (instanceCall read) := by
  intro s hs hclean hn
  have hstart := Track.refl hs hclean
  unfold instanceCall
  refine hstart.next identifier_reads (hstart.safe identifier_safe hn) ?_
  rintro _ s₁ _ _ ⟨_, rfl, rfl, ⟨hname⟩⟩ h₁
  refine h₁.bind (callLink_step hreads h₁.toStep) (callLink_tidy hreads h hn h₁) ?_
  rintro _ s₂ _ _ ⟨rest, call, rfl, rfl, rfl, hlink⟩ h₂
  exact callChain_tidy hreads h hn h₂

end

/-! ## Operators -/

theorem operator_safe {fixity : Fixity} : Safe B S env n (operator fixity) := by
  intro s hs hclean _
  unfold operator
  refine (Track.refl hs hclean).expect .operator fun t s₁ _ h₁ => ?_
  rw [state_bind, bind_run, Action.bind_run]
  cases hdeclared : s₁.work.operators.contains t.value fixity with
  | true =>
    simp only [Parser.ofExcept, Action.ofExcept, OperatorTable.get, hdeclared]
    exact .pure h₁.clean
  | false =>
    simp only [Parser.ofExcept, Action.ofExcept, OperatorTable.get, hdeclared]
    exact .failed h₁.clean (Diagnostic.fault_of_span rfl rfl (h₁.known (by simp)))

section

variable {table : OperatorTable} (hS : ∀ t, S.Tables t → t = table)
include hS

theorem infixTail_tidy (hreads : Reads S env (read .expression) (One (Expression env table)))
    (h : Safe B S env n (read .expression)) {left : Tree} (hn : b.cursor.rest.length < n + 1)
    (ht : Track B S b s seg [left]) (hleft : Operand env table seg left) :
    Tidy B S.Tokens (infixTail read left.root env s) := by
  unfold infixTail
  refine ht.token (operator_reads hS .infixOp) (ht.safe operator_safe (Nat.lt_succ_self _)) ?_
  rintro op s₁ - h₁
  refine h₁.next hreads (h₁.safe h (h₁.lt hn (by simp))) ?_
  rintro _ s₂ rest _ ⟨_, rfl, rfl, @⟨_, c, hchain⟩⟩ h₂
  refine h₂.gather rfl fun id s₃ h₃ => ?_
  have hclosed : (Grouping.join ⟨id, op, op.value⟩ (.operand left) (c.group table)).Closed := by
    refine Grouping.closed_join.mpr ⟨?_, Grouping.closed_group hchain.operands_closed⟩
    intro t ht
    exact List.mem_singleton.mp ht ▸ hleft.openBinary?_eq
  have hjoin : Track B S b s₃ (seg ++ [op] ++ rest)
      [(Grouping.join ⟨id, op, op.value⟩ (.operand left) (c.group table)).tree] := h₃
  have hsettled : Tidy B S.Tokens (building (Workspace.settle id) env s₃) := hjoin.settle hclosed
  exact hsettled

theorem expression_safe (hoperands : Reads S env (operand read) (One (Operand env table)))
    (hoperand : Safe B S env (n + 1) (operand read))
    (hreads : Reads S env (read .expression) (One (Expression env table)))
    (h : Safe B S env n (read .expression)) : Safe B S env (n + 1) (expression read) := by
  intro s hs hclean hn
  have hstart := Track.refl hs hclean
  unfold expression
  refine hstart.next hoperands (hstart.safe hoperand hn) ?_
  rintro _ s₁ seg₁ _ ⟨t, rfl, rfl, ht⟩ h₁
  rw [check_bind]
  exact .cond (fun _ => infixTail_tidy hS hreads h hn h₁ ht) fun _ => .pure h₁.clean

theorem unary_safe (hoperands : Reads S env (operand read) (One (Operand env table)))
    (hoperand : Safe B S env n (operand read)) : Safe B S env (n + 1) (unary read) := by
  intro s hs hclean hn
  have hstart := Track.refl hs hclean
  unfold unary
  refine hstart.token (operator_reads hS .prefixOp) (hstart.safe operator_safe hn) ?_
  rintro op s₁ - h₁
  refine h₁.next hoperands (h₁.safe hoperand (h₁.lt hn (by simp))) fun id s₂ seg₂ ts₂ _ h₂ => ?_
  exact .alloc h₂.clean

end

theorem parenthesized_safe {table : OperatorTable}
    (hreads : Reads S env (read .expression) (One (Expression env table)))
    (h : Safe B S env n (read .expression)) : Safe B S env (n + 1) (parenthesized read) := by
  intro s hs hclean hn
  have hstart := Track.refl hs hclean
  unfold parenthesized
  refine hstart.next (Parser.parenthesized_reads hreads)
    (hstart.safe (Parser.parenthesized_safe hreads h) hn) ?_
  rintro _ s₁ _ _ ⟨t, rfl, rfl, -⟩ h₁
  rw [atArena_bind (h₁.arena.holds List.mem_cons_self).shows.expr]
  exact h₁.overwrite (children_enclose t.expr) fun s₂ h₂ => .pure h₂.clean

/-- Operands and expressions on operators that stay as they are: what is read inside an operand
comes behind a token, and an expression starts with an operand. -/
theorem readN_operand_and_expression_safe {table : OperatorTable}
    (hS : ∀ t, S.Tables t → t = table) (depth n : Nat) :
    (2 * n ≤ depth → ∀ p ∈ operands, Safe B S env n (readN depth p)) ∧
      (2 * n + 1 ≤ depth → Safe B S env n (readN depth .expression)) := by
  induction depth generalizing n with
  | zero =>
    refine ⟨fun hn p _ => ?_, fun hn => absurd hn (by omega)⟩
    obtain rfl : n = 0 := by omega
    exact safe_zero _
  | succ depth ih =>
    cases n with
    | zero => exact ⟨fun _ p _ => safe_zero _, fun _ => safe_zero _⟩
    | succ n =>
      have hoperands : Reads S env (operand (readN depth)) (One (Operand env table)) :=
        readN_operand_reads hS depth
      have hreads : Reads S env (readN depth .expression) (One (Expression env table)) :=
        readN_expression_reads hS depth
      have hall : ∀ m, 2 * m ≤ depth → Safe B S env m (operand (readN depth)) := by
        intro m hm
        cases depth with
        | zero =>
          obtain rfl : m = 0 := by omega
          exact safe_zero _
        | succ depth =>
          refine choice_safe (step_operand_reads hS ?_ ?_) ((ih m).1 hm)
          · exact readN_operand_reads hS depth
          · exact readN_expression_reads hS depth
      refine ⟨fun hn p hp => ?_, fun hn => ?_⟩
      · have hexpression := (ih n).2 (by omega)
        simp only [operands, List.mem_cons, List.not_mem_nil, or_false] at hp
        rcases hp with rfl | rfl | rfl | rfl | rfl | rfl | rfl | rfl | rfl
        · exact realLiteral_safe
        · exact intLiteral_safe
        · exact listLiteral_safe hreads hexpression
        · exact constructorCall_safe hreads hexpression
        · exact staticCall_safe hreads hexpression
        · exact instanceCall_safe hreads hexpression
        · exact identifier_safe
        · exact parenthesized_safe hreads hexpression
        · exact unary_safe hS hoperands (hall n (by omega))
      · exact expression_safe hS hoperands (hall (n + 1) (by omega)) hreads ((ih n).2 (by omega))

/-! ## Statements -/

theorem assignment_safe (htypes : Reads S env (read .type) (One (Typing env)))
    (htype : Safe B S env n (read .type)) (hreads : Reads S env (read .expression) (One E))
    (h : Safe B S env n (read .expression)) : Safe B S env (n + 1) (assignment read) := by
  intro s hs hclean hn
  have hstart := Track.refl hs hclean
  unfold assignment
  rw [startToken_bind]
  refine hstart.next identifier_reads (hstart.safe identifier_safe hn) ?_
  rintro _ s₁ _ _ ⟨_, rfl, rfl, ⟨hname⟩⟩ h₁
  have hrest := h₁.lt hn (by simp)
  refine h₁.next (typing_reads htypes) ?_ fun ty s₂ seg₂ ts₂ _ h₂ => ?_
  · rw [check_bind]
    refine .cond (fun _ => .pure h₁.clean) fun _ => ?_
    exact h₁.next htypes (h₁.safe htype hrest) fun id s₂ seg₂ ts₂ _ h₂ => .pure h₂.clean
  refine h₂.expect .assign fun eq s₃ _ h₃ => ?_
  refine h₃.next hreads (h₃.safe h (h₃.lt hn (by simp))) fun v s₄ seg₄ ts₄ _ h₄ => ?_
  exact .alloc h₄.clean

theorem returned_safe (hreads : Reads S env (read .expression) (One E))
    (h : Safe B S env n (read .expression)) : Safe B S env (n + 1) (returned read) := by
  intro s hs hclean hn
  unfold returned
  refine (Track.refl hs hclean).expectKeyword "return" fun k s₁ _ h₁ => ?_
  refine h₁.next hreads (h₁.safe h (h₁.lt hn (by simp))) fun v s₂ seg₂ ts₂ _ h₂ => ?_
  exact .alloc h₂.clean

/-- A deferred block without a return statement is made; a return statement is reported where it
stands. -/
theorem deferred_safe (hreads : Reads S env (read .block) (One (Block (Statement env E A) E)))
    (h : Safe B S env n (read .block)) : Safe B S env (n + 1) (deferred read) := by
  intro s hs hclean hn
  unfold deferred
  refine (Track.refl hs hclean).expectKeyword "defer" fun k s₁ _ h₁ => ?_
  refine h₁.next hreads (h₁.safe h (h₁.lt hn (by simp))) ?_
  rintro _ s₂ seg₂ _ ⟨t, rfl, rfl, ht⟩ h₂
  have hheld := h₂.arena.holds List.mem_cons_self
  rw [atArena_bind hheld.shows.expr]
  cases ht with
  | plain body =>
    cases body with
    | mk => exact .alloc h₂.clean
  | @returning l r _ _ body ret _ hl hstatements hlast hr =>
    obtain ⟨tags, hnode⟩ := (hheld.child (c := ret) (by simp [Tree.children])).shows.node
    dsimp only [Tree.expr]
    rw [atArena_bind hnode]
    cases hlast with
    | @mk ret _ _ _ _ hret =>
      exact .fail h₂.clean (Diagnostic.fault_of_span rfl rfl (h₂.known (t := ret) (by simp)))

/-! ### Blocks -/

/-- What is read from some tokens. -/
def Some (_ : NodeId) (seg : List Token) (_ : List Tree) : Prop := seg ≠ []

theorem one_some {G : Phrase} (hG : ∀ seg t, G seg t → seg ≠ []) (id : NodeId) (seg : List Token)
    (ts : List Tree) (h : One G id seg ts) : Some id seg ts := by
  obtain ⟨t, -, -, ht⟩ := h
  exact hG seg t ht

theorem blockRound_safe {opened : Token} {sofar : BlockSoFar} (hopened : S.Tokens opened)
    (hreturns : Reads S env (read .returned) Some) (hreturned : Safe B S env n (read .returned))
    (hstatements : Reads S env (statement read) Some)
    (hstatement : Safe B S env n (statement read)) :
    Safe B S env n (blockRound read opened.span sofar) := by
  intro s hs hclean hn
  have hstart := Track.refl hs hclean
  unfold blockRound
  rw [remaining_bind]
  cases hhead : s.cursor.rest.head? with
  | none => exact .fail hclean (Diagnostic.fault_of_span rfl rfl hopened)
  | some t =>
    have ht : S.Tokens t := hs.tokens t (List.mem_of_mem_head? hhead)
    refine .cond (fun _ => hstart.consume fun r s₁ h₁ => .pure h₁.clean) fun _ =>
      .cond (fun _ => .fail hclean (Diagnostic.fault_of_span rfl rfl ht)) fun _ =>
      .cond (fun _ => ?_) fun _ => ?_
    · exact hstart.next hreturns (hstart.safe hreturned hn) fun id s₁ _ _ _ h₁ => .pure h₁.clean
    · exact hstart.next hstatements (hstart.safe hstatement hn) fun id s₁ _ _ _ h₁ => .pure h₁.clean

theorem blockRound_advances {opened : Span} {sofar : BlockSoFar}
    (hreturns : Reads S env (read .returned) Some)
    (hstatements : Reads S env (statement read) Some) :
    Reads S env (blockRound read opened sofar) Advances := by
  intro s hs
  have hstart := Step.refl hs
  unfold blockRound
  rw [remaining_bind]
  cases s.cursor.rest.head? with
  | none => exact .fail hstart
  | some t =>
    refine .cond (fun _ => hstart.consume fun r _ s₁ _ h₁ => .pure h₁ trivial) fun _ =>
      .cond (fun _ => .fail hstart) fun _ => .cond (fun _ => ?_) fun _ => ?_
    · exact hstart.next hreturns fun id s₁ _ _ hsome h₁ => .pure h₁ hsome
    · exact hstart.next hstatements fun id s₁ _ _ hsome h₁ => .pure h₁ hsome

theorem statement_ne_nil (hA : ∀ seg t, A seg t → seg ≠ []) (seg : List Token) (t : Tree)
    (h : Statement env E A seg t) : seg ≠ [] := by
  cases h with
  | assignment => simp
  | deferred => simp
  | call call =>
    cases call
    simp
  | static call =>
    cases call
    simp
  | annotated phrase => exact hA seg t phrase

theorem return_ne_nil (seg : List Token) (t : Tree) (h : Return E seg t) : seg ≠ [] := by
  cases h
  simp

theorem block_safe (hA : ∀ seg t, A seg t → seg ≠ [])
    (hreturns : Reads S env (read .returned) (One (Return E)))
    (hreturned : Safe B S env n (read .returned))
    (hstatements : Reads S env (statement read) (One (Statement env E A)))
    (hstatement : Safe B S env n (statement read)) : Safe B S env (n + 1) (block read) := by
  intro s hs hclean hn
  have hreturns' := hreturns.mono (one_some return_ne_nil)
  have hstatements' := hstatements.mono (one_some (statement_ne_nil hA))
  unfold block
  refine (Track.refl hs hclean).expect .lbrace fun l s₁ _ h₁ => ?_
  have hl : S.Tokens l := h₁.known (by simp)
  have hadvances : ∀ sofar, Reads S env (blockRound read l.span sofar) Advances :=
    fun _ => blockRound_advances hreturns' hstatements'
  have hloop : Safe B S env n (inPhase .statement (loop (blockRound read l.span) ⟨[], none⟩)) :=
    inPhase_safe (loop_safe
      (fun _ => blockRound_safe hl hreturns' hreturned hstatements' hstatement) hadvances) _
  have hreads : Reads S env (inPhase .statement (loop (blockRound read l.span) ⟨[], none⟩))
      (BlockClosed (Statement env E A) E) :=
    blockLoop_reads hreturns hstatements
  refine h₁.next hreads (h₁.safe hloop (h₁.lt hn (by simp))) fun sofar s₂ seg₂ ts₂ _ h₂ => ?_
  exact .alloc h₂.clean

/-! ## Signatures and methods -/

section

variable (htypes : Reads S env (read .type) (One (Typing env)))
  (htype : Safe B S env n (read .type))
include htypes htype

theorem receiver_safe : Safe B S env n (receiver read) := by
  intro s hs hclean hn
  have hstart := Track.refl hs hclean
  unfold receiver
  rw [check_bind]
  refine .cond (fun _ => ?_) fun _ => ?_
  · rw [startToken_bind]
    refine hstart.next identifier_reads (hstart.safe identifier_safe hn) ?_
    rintro _ s₁ _ _ ⟨_, rfl, rfl, ⟨hname⟩⟩ h₁
    have hrest := h₁.lt (Nat.lt_succ_of_lt hn) (by simp)
    refine h₁.next htypes (h₁.safe htype hrest) ?_
    rintro _ s₂ seg₂ _ ⟨u, rfl, rfl, hu⟩ h₂
    refine h₂.gather rfl fun id s₃ h₃ => ?_
    refine h₃.duplicate List.mem_cons_self ?_ fun v s₄ _ h₄ => .pure h₄.clean
    exact Tree.mem_subtrees_of_mem_children (List.mem_cons_of_mem _ List.mem_cons_self)
  · exact hstart.next htypes (hstart.safe htype hn) fun id s₁ seg₁ ts₁ _ h₁ => .pure h₁.clean

theorem returnType_safe : Safe B S env n (returnType read) := by
  intro s hs hclean hn
  have hstart := Track.refl hs hclean
  unfold returnType
  rw [check_bind]
  refine .cond (fun _ => hstart.consume fun l s₁ h₁ => ?_) fun _ => .pure hclean
  rw [check_bind]
  refine .cond (fun _ => h₁.consume fun r s₂ h₂ => .pure h₂.clean) fun _ => ?_
  have hrest := h₁.lt (Nat.lt_succ_of_lt hn) (by simp)
  refine h₁.next htypes (h₁.safe htype hrest) fun id s₂ seg₂ ts₂ _ h₂ => ?_
  exact h₂.expect .rparen fun r s₃ _ h₃ => .pure h₃.clean

theorem signature_safe (hpairs : Reads S env (read .pair) (One (Pair env)))
    (hpair : Safe B S env n (read .pair)) : Safe B S env (n + 1) (signature read) := by
  intro s hs hclean hn
  unfold signature
  refine (Track.refl hs hclean).expect .lparen fun l s₁ _ h₁ => ?_
  refine h₁.next (receiver_reads htypes)
    (h₁.safe (receiver_safe htypes htype) (h₁.lt hn (by simp))) fun r s₂ seg₂ ts₂ _ h₂ => ?_
  refine h₂.expect .rparen fun r s₃ _ h₃ => ?_
  refine h₃.expectAny _ fun t s₄ h₄ => ?_
  refine h₄.leaf rfl fun nid s₅ h₅ => ?_
  refine h₅.next (parenthesizedList_reads hpairs)
    (h₅.safe (parenthesizedList_safe hpairs hpair) (Nat.lt_succ_of_lt (h₅.lt hn (by simp))))
    fun ids s₆ seg₆ ts₆ _ h₆ => ?_
  refine h₆.next (returnType_reads htypes)
    (h₆.safe (returnType_safe htypes htype) (h₆.lt hn (by simp))) fun o s₇ seg₇ ts₇ _ h₇ => ?_
  exact .alloc h₇.clean

end

theorem method_safe (hsignatures : Reads S env (read .signature) (One (Signature env)))
    (hsignature : Safe B S env (n + 1) (read .signature))
    (hblocks : Reads S env (read .block) (One (Block (Statement env E A) E)))
    (hblock : Safe B S env n (read .block)) : Safe B S env (n + 1) (method read) := by
  intro s hs hclean hn
  have hstart := Track.refl hs hclean
  unfold method
  rw [startToken_bind]
  refine hstart.next hsignatures (hstart.safe hsignature hn) ?_
  rintro _ s₁ _ _ ⟨head, rfl, rfl, hhead⟩ h₁
  obtain ⟨rest, rfl⟩ := start_of_signature hhead
  refine h₁.next hblocks (h₁.safe hblock (h₁.lt hn (by simp))) fun id s₂ seg₂ ts₂ _ h₂ => ?_
  exact .alloc h₂.clean

/-! ## Types -/

theorem duplicateAll_tidy {cs : List Tree} (h : Track B S b s seg ts) (hcs : ∀ c ∈ cs, c ∈ ts) :
    Tidy B S.Tokens (duplicateAll (cs.map Tree.root) env s) := by
  induction cs generalizing s ts with
  | nil => exact .pure h.clean
  | cons c cs ih =>
    rw [List.map_cons, duplicateAll]
    refine h.duplicate (hcs c List.mem_cons_self) c.self_mem_subtrees fun v s₁ _ h₁ => ?_
    have hrest : ∀ d ∈ cs, d ∈ v :: ts := fun d hd =>
      List.mem_cons_of_mem _ (hcs d (List.mem_cons_of_mem _ hd))
    refine h₁.bind (duplicateAll_step h₁.toStep hrest) (ih h₁ hrest) fun ids s₂ _ _ _ h₂ => ?_
    exact .pure h₂.clean

theorem constructor_clean {name : Tree} {ps : List Tree} (h : Track B S b s seg (name :: ps)) :
    Tidy B S.Tokens (constructor name.root (ps.map Tree.root) env s) := by
  unfold constructor
  obtain ⟨tags, hnode⟩ := (h.arena.holds List.mem_cons_self).shows.node
  rw [atArena_bind hnode]
  refine h.duplicate List.mem_cons_self name.self_mem_subtrees fun v s₁ _ h₁ => ?_
  have hname : name ∈ v :: name :: ps := List.mem_cons_of_mem _ List.mem_cons_self
  refine h₁.duplicate hname name.self_mem_subtrees fun w s₂ _ h₂ => ?_
  refine h₂.leaf rfl fun mid s₃ h₃ => ?_
  have hps : ∀ p ∈ ps, p ∈ Tree.leaf mid name.token (.identifier constructorName) ::
      w :: v :: name :: ps := by
    intro p hp
    simp only [List.mem_cons, hp, or_true]
  refine h₃.bind (duplicateAll_step h₃.toStep hps) (duplicateAll_tidy h₃ hps)
    fun ids s₄ _ _ _ h₄ => ?_
  exact .alloc h₄.clean

theorem constructing_tidy {name : Tree} {ps : List Tree} (h : Track B S b s seg (name :: ps)) :
    Tidy B S.Tokens
      ((do if (ps.map Tree.root).isEmpty then return none
           else return some (← constructor name.root (ps.map Tree.root))) env s) := by
  refine .cond (fun _ => .pure h.clean) fun hnot => ?_
  have hsome : ps ≠ [] := fun hnil => hnot (by simp [hnil])
  refine h.bind (constructor_step h.toStep hsome) (constructor_clean h) fun id s₁ _ _ _ h₁ => ?_
  exact .pure h₁.clean

theorem properties_safe (hpairs : Reads S env (read .pair) (One (Pair env)))
    (hpair : Safe B S env n (read .pair)) : Safe B S env (n + 1) (properties read) := by
  intro s hs hclean hn
  have hstart := Track.refl hs hclean
  unfold properties
  rw [atCursor_bind]
  have hreads : Reads S env (attempt (pairs read)) _ :=
    attempt_reads (parenthesizedList_reads hpairs)
  have hsafe : Safe B S env (n + 1) (attempt (pairs read)) :=
    attempt_safe (parenthesizedList_safe hpairs hpair)
  refine hstart.next hreads (hstart.safe hsafe hn) fun o s₁ _ _ _ h₁ => ?_
  cases o with
  | none => exact .pure h₁.clean
  | some ids =>
    dsimp only
    rw [check_bind, check_bind]
    exact .cond (fun _ => .ok h₁.clean) fun _ => .pure h₁.clean

theorem traits_safe : Safe B S env n traits := by
  intro s hs hclean hn
  unfold traits
  rw [checkKeyword_bind]
  refine .cond (fun _ => ?_) fun _ => .pure hclean
  refine (Track.refl hs hclean).consume fun k s₁ h₁ => ?_
  exact h₁.safe (delimited_safe namedType_reads namedType_safe) (Nat.lt_succ_self _)

theorem typeDef_safe (hpairs : Reads S env (read .pair) (One (Pair env)))
    (hpair : Safe B S env n (read .pair)) : Safe B S env (n + 1) (typeDef read) := by
  intro s hs hclean hn
  unfold typeDef
  refine (Track.refl hs hclean).expectKeyword "type" fun k s₁ _ h₁ => ?_
  refine h₁.next namedType_reads (h₁.safe namedType_safe (Nat.lt_succ_self _)) ?_
  rintro _ s₂ _ _ ⟨_, rfl, rfl, ⟨hname⟩⟩ h₂
  refine h₂.next (properties_reads hpairs)
    (h₂.safe (properties_safe hpairs hpair) (Nat.lt_succ_of_lt (h₂.lt hn (by simp)))) ?_
  rintro _ s₃ seg₃ ps ⟨rfl, hps⟩ h₃
  have hpairs : ∀ p ∈ ps, ∃ seg, Pair env seg p := by
    intro p hp
    cases hps with
    | none => exact absurd hp List.not_mem_nil
    | some pairs => exact pairs.of_mem hp
  have hheld : ∀ p ∈ ps, s₃.work.arena.Holds p := fun p hp =>
    h₃.arena.holds (List.mem_cons_of_mem _ hp)
  rw [atArena_bind (propertyOrder_eq hheld hpairs)]
  refine h₃.bind (constructing_step h₃.toStep) (constructing_tidy h₃) fun o s₄ _ _ _ h₄ => ?_
  refine h₄.next traits_reads (h₄.safe traits_safe (Nat.lt_succ_self _)) fun _ s₅ _ _ _ h₅ => ?_
  exact .alloc h₅.clean

/-! ## APIs -/

theorem within_safe : Safe B S env n within := by
  intro s hs hclean _
  unfold within
  refine (Track.refl hs hclean).expectKeyword "within" fun k s₁ _ h₁ => ?_
  refine h₁.next namedType_reads (h₁.safe namedType_safe (Nat.lt_succ_self _))
    fun id s₂ _ _ _ h₂ => ?_
  exact .alloc h₂.clean

/-- One more name behind the keyword, or none. -/
theorem withRound_safe {ids : List NodeId} :
    Safe B S env n (do
      if ← checkKeyword "with" then
        let _ ← consume
        return .more (ids ++ [← namedType])
      else return .done ids : Parser (Round (List NodeId) (List NodeId))) := by
  intro s hs hclean _
  rw [checkKeyword_bind]
  refine .cond (fun _ => (Track.refl hs hclean).consume fun k s₁ h₁ => ?_) fun _ => .pure hclean
  exact h₁.next namedType_reads (h₁.safe namedType_safe (Nat.lt_succ_self _))
    fun id s₂ _ _ _ h₂ => .pure h₂.clean

theorem withRound_advances {ids : List NodeId} :
    Reads S env (do
      if ← checkKeyword "with" then
        let _ ← consume
        return .more (ids ++ [← namedType])
      else return .done ids : Parser (Round (List NodeId) (List NodeId))) Advances := by
  intro s hs
  rw [checkKeyword_bind]
  refine .cond (fun _ => (Step.refl hs).consume fun k _ s₁ _ h₁ => ?_) fun _ =>
    .pure (Step.refl hs) trivial
  refine h₁.next namedType_reads fun id s₂ seg₂ ts₂ _ h₂ => ?_
  exact .pure h₂ (by simp [Advances])

theorem withApis_safe : Safe B S env n withApis := by
  intro s hs hclean _
  unfold withApis
  refine (Track.refl hs hclean).expectKeyword "with" fun k s₁ _ h₁ => ?_
  refine h₁.next namedType_reads (h₁.safe namedType_safe (Nat.lt_succ_self _))
    fun id s₂ seg₂ ts₂ _ h₂ => ?_
  let Any (_ : List NodeId) (_ : List Token) (_ : List Tree) : Prop := True
  refine h₂.next (loop_reads (I := Any) (Q := Any) ?_ trivial)
    (h₂.safe (loop_safe (fun _ => withRound_safe) fun _ => withRound_advances)
      (Nat.lt_succ_self _)) fun _ s₃ _ _ _ h₃ => .alloc h₃.clean
  intro b ids s seg ts _ h
  refine (Outcome.from_step h (withRound_advances s h.fits)).mono fun r _ _ _ => ?_
  cases r with
  | more next => trivial
  | done result => trivial

theorem apiRound_safe {opened : Token} {ids : List NodeId} (hopened : S.Tokens opened)
    (hdeclarations : Reads S env (declaration read) Some)
    (hdeclaration : Safe B S env n (declaration read)) :
    Safe B S env n (apiRound read opened.span ids) := by
  intro s hs hclean hn
  have hstart := Track.refl hs hclean
  unfold apiRound
  rw [remaining_bind]
  cases s.cursor.rest.head? with
  | none => exact .fail hclean (Diagnostic.fault_of_span rfl rfl hopened)
  | some t =>
    refine .cond (fun _ => hstart.consume fun r s₁ h₁ => .pure h₁.clean) fun _ => ?_
    exact hstart.next hdeclarations (hstart.safe hdeclaration hn) fun id s₁ _ _ _ h₁ =>
      .pure h₁.clean

theorem apiRound_advances {opened : Span} {ids : List NodeId}
    (hdeclarations : Reads S env (declaration read) Some) :
    Reads S env (apiRound read opened ids) Advances := by
  intro s hs
  have hstart := Step.refl hs
  unfold apiRound
  rw [remaining_bind]
  cases s.cursor.rest.head? with
  | none => exact .fail hstart
  | some t =>
    refine .cond (fun _ => hstart.consume fun r _ s₁ _ h₁ => .pure h₁ trivial) fun _ => ?_
    exact hstart.next hdeclarations fun id s₁ _ _ hsome h₁ => .pure h₁ hsome

theorem declaration_ne_nil (hA : ∀ seg t, A seg t → seg ≠ []) (seg : List Token) (t : Tree)
    (h : Declaration env E A seg t) : seg ≠ [] := by
  cases h with
  | typeDef typeDef =>
    cases typeDef
    simp
  | method method =>
    cases method with
    | mk signature =>
      obtain ⟨rest, rfl⟩ := start_of_signature signature
      simp
  | annotated phrase => exact hA seg t phrase

theorem api_safe (hA : ∀ seg t, A seg t → seg ≠ [])
    (hwithins : Reads S env (read .within) (One (Within env)))
    (hwithin : Safe B S env n (read .within))
    (hothers : Reads S env (read .withApis) (One (WithApis env)))
    (hother : Safe B S env n (read .withApis))
    (hdeclarations : Reads S env (declaration read) (One (Declaration env E A)))
    (hdeclaration : Safe B S env n (declaration read)) : Safe B S env (n + 1) (api read) := by
  intro s hs hclean hn
  have hdeclarations' := hdeclarations.mono (one_some (declaration_ne_nil hA))
  unfold api
  refine (Track.refl hs hclean).expectKeyword "api" fun k s₁ _ h₁ => ?_
  refine h₁.next namedType_reads (h₁.safe namedType_safe (Nat.lt_succ_self _)) ?_
  rintro _ s₂ _ _ ⟨_, rfl, rfl, ⟨hname⟩⟩ h₂
  refine h₂.next (attempt_reads hwithins)
    (h₂.safe (attempt_safe hwithin) (h₂.lt hn (by simp))) fun inside s₃ _ _ _ h₃ => ?_
  refine h₃.next (attempt_reads hothers)
    (h₃.safe (attempt_safe hother) (h₃.lt hn (by simp))) fun others s₄ _ _ _ h₄ => ?_
  refine h₄.expect .lbrace fun l s₅ _ h₅ => ?_
  have hl : S.Tokens l := h₅.known (by simp)
  have hloop : Safe B S env n (inPhase .declaration (loop (apiRound read l.span) [])) :=
    inPhase_safe (loop_safe (fun _ => apiRound_safe hl hdeclarations' hdeclaration)
      fun _ => apiRound_advances hdeclarations') _
  refine h₅.next (apiLoop_reads hdeclarations) (h₅.safe hloop (h₅.lt hn (by simp)))
    fun ids s₆ _ _ _ h₆ => ?_
  exact .alloc h₆.clean

end ApiSyntax.Grammar
