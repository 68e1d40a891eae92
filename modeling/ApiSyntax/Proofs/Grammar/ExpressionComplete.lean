/-
  ApiSyntax/Proofs/Grammar/ExpressionComplete.lean --- expressions of the language are read.

  An operand is told by its first token or its first two; what comes behind an operand
  must not start with a dot, and behind an expression neither with a dot nor with an
  operator, for then more would belong to it.  Each production is read on a bound that is
  no smaller than the number of its tokens.
-/
import ApiSyntax.Proofs.Grammar.ExpressionSound
import ApiSyntax.Proofs.Parser.Complete

set_option autoImplicit false

namespace ApiSyntax.Grammar

open ApiSyntax.Language ApiSyntax.Parser ApiSyntax.Production

variable {S : Setting} {env : ParserEnv} {read : Production → Parser NodeId} {E : Phrase}
  {n : Nat} {s : ParserState} {seg rest : List Token}

/-- Anything may come behind. -/
def anyEnd : List Token → Prop := fun _ => True

/-! ## Names and types -/

theorem identifier_accepts {t : Token} (hs : S.Fits s) (hrest : s.cursor.rest = t :: rest)
    (ht : t.is .identifier) : Accepts S identifier env s rest AnyResult := by
  refine (expect_accepts hs hrest ht).bind fun u s₁ hs₁ hrest₁ _ => ?_
  exact (alloc_accepts hs₁ hrest₁).any

theorem namedType_accepts {t : Token} (hs : S.Fits s) (hrest : s.cursor.rest = t :: rest)
    (ht : t.is .typeIdentifier) : Accepts S namedType env s rest AnyResult := by
  refine (expect_accepts hs hrest ht).bind fun u s₁ hs₁ hrest₁ _ => ?_
  exact .given (alloc_accepts hs₁ hrest₁).any

theorem typeName_starts : Starts [.typeIdentifier] (TypeName env) := by
  intro seg t ht
  cases ht with
  | mk ht => exact ⟨_, [], rfl, _, List.mem_cons_self, ht⟩

theorem namedType_complete : Complete S env namedType (TypeName env) n anyEnd := by
  intro seg t ht _ s rest hs hrest _
  cases ht with
  | mk ht => exact namedType_accepts hs hrest ht

theorem typing_starts : Starts [.typeIdentifier, .lbracket] (Typing env) := by
  intro seg t ht
  cases ht with
  | named name =>
    obtain ⟨a, tail, rfl, kind, hkind, ha⟩ := typeName_starts _ _ name
    exact ⟨a, tail, rfl, kind, List.mem_cons.mpr (.inl (List.mem_singleton.mp hkind)), ha⟩
  | list hl element hr => exact ⟨_, _, rfl, _, by simp, hl⟩

theorem type_complete (hread : Complete S env (read .type) (Typing env) n anyEnd) :
    Complete S env (type read) (Typing env) (n + 2) anyEnd := by
  intro seg t ht hn s rest hs hrest _
  rw [type]
  cases ht with
  | named name =>
    cases name with
    | mk ht =>
      refine .check (check_of_other hrest ht rfl) ?_
      exact namedType_accepts hs hrest ht
  | @list l r seg u id hl element hr =>
    rw [List.length_cons, List.length_append, List.length_singleton] at hn
    have hsplit : s.cursor.rest = l :: (seg ++ (r :: rest)) := by
      rw [hrest, List.cons_append, List.append_assoc, List.singleton_append]
    refine .check (check_of_rest hsplit hl) ?_
    refine (consume_accepts hs hsplit).bind fun _ s₁ hs₁ hrest₁ _ => ?_
    refine (hread seg u element (by omega) s₁ _ hs₁ hrest₁ trivial).bind
      fun _ s₂ hs₂ hrest₂ _ => ?_
    refine (expect_accepts hs₂ hrest₂ hr).bind fun _ s₃ hs₃ hrest₃ _ => ?_
    exact (alloc_accepts hs₃ hrest₃).any

/-- Phrases with a token are not read on no bound. -/
theorem complete_zero {x : Parser NodeId} {G : Phrase} {F : List Token → Prop}
    (h : ∀ seg t, G seg t → seg ≠ []) : Complete S env x G 0 F := by
  intro seg t ht hn
  exact absurd (List.length_eq_zero_iff.mp (Nat.le_zero.mp hn)) (h seg t ht)

theorem pair_starts : Starts [.identifier] (Pair env) := by
  intro seg t ht
  cases ht with
  | mk ht ty => exact ⟨_, _, rfl, _, List.mem_cons_self, ht⟩

theorem pair_complete (hread : Complete S env (read .type) (Typing env) n anyEnd) :
    Complete S env (pair read) (Pair env) (n + 1) anyEnd := by
  intro seg t ht hn s rest hs hrest _
  rw [pair]
  cases ht with
  | @mk t seg u id nid ht ty =>
    refine .startToken ?_
    refine (identifier_accepts hs hrest ht).bind fun _ s₁ hs₁ hrest₁ _ => ?_
    refine (hread seg u ty (by simpa using hn) s₁ rest hs₁ hrest₁ trivial).bind
      fun _ s₂ hs₂ hrest₂ _ => ?_
    exact (alloc_accepts hs₂ hrest₂).any

/-! ## What may come behind an operand -/

/-- No link follows. -/
def OperandEnd : List Token → Prop := Stops [.dot]

/-- Neither a link nor an operator follows. -/
def ExpressionEnd : List Token → Prop := Stops [.dot, .operator]

variable {table : OperatorTable}

theorem operand_starts : Starts expressionStarts (Operand env table) := by
  intro seg t ht
  cases ht with
  | real ht => exact ⟨_, _, rfl, _, by simp [expressionStarts], ht⟩
  | int ht => exact ⟨_, _, rfl, _, by simp [expressionStarts], ht⟩
  | list elements =>
    obtain ⟨l, inner, hopen, hl⟩ := start_of_enclosed elements
    exact ⟨l, inner, hopen, _, by simp [expressionStarts], hl⟩
  | construct call =>
    cases call with
    | mk ht => exact ⟨_, _, rfl, _, by simp [expressionStarts], ht⟩
  | static call =>
    cases call with
    | mk ht => exact ⟨_, _, rfl, _, by simp [expressionStarts], ht⟩
  | name ht => exact ⟨_, _, rfl, _, by simp [expressionStarts], ht⟩
  | parens hl => exact ⟨_, _, rfl, _, by simp [expressionStarts], hl⟩
  | unary hop => exact ⟨_, _, rfl, _, by simp [expressionStarts], hop⟩

theorem expression_starts : Starts expressionStarts (Expression env table) := by
  intro seg t ht
  cases ht with
  | mk chain =>
    cases chain with
    | last operand => exact operand_starts _ _ operand
    | more operand =>
      obtain ⟨a, tail, rfl, ha⟩ := operand_starts _ _ operand
      exact ⟨a, _, rfl, ha⟩

/-! ## Calls -/

section Calls

variable {b : ParserState} {before inner : List Token} {r r' t : Tree}

theorem arguments_complete {ts : List Tree} (hread : Complete S env (read .expression) E n ExpressionEnd)
    (hstart : Starts expressionStarts E) (h : Enclosed .lparen .rparen E seg ts)
    (hn : seg.length ≤ n + 2) (hs : S.Fits s) (hrest : s.cursor.rest = seg ++ rest) :
    Accepts S (arguments read) env s rest AnyResult := by
  refine parenthesizedList_complete hread ?_ rfl hstart (by decide) seg ts h hn s rest hs hrest trivial
  intro t rest ht
  rcases ht with ht | ht
  · exact stops_of_is ht (by decide)
  · exact stops_of_is ht (by decide)

/-- A link behind a receiver that was made. -/
theorem callLink_accepts (hsound : Reads S env (read .expression) (One E))
    (hread : Complete S env (read .expression) E n ExpressionEnd)
    (hstart : Starts expressionStarts E) (hlink : Link E inner r' t) (hn : inner.length ≤ n + 2)
    (h : Step S b s before [r]) (hrest : s.cursor.rest = inner ++ rest) :
    Accepts S (callLink read r.root) env s rest AnyResult := by
  rw [callLink]
  cases hlink with
  | @mk dot name seg receiver args id mid hdot hname arguments =>
    rw [List.length_cons, List.length_cons] at hn
    refine (expect_accepts h.fits hrest hdot).next h (expect_reads .dot) ?_
    intro _ s₁ _ _ _ h₁ hrest₁ _
    refine (identifier_accepts h₁.fits hrest₁ hname).next h₁ identifier_reads ?_
    intro mid s₂ _ _ _ h₂ hrest₂ _
    refine (arguments_complete hread hstart arguments (by omega) h₂.fits hrest₂).next h₂
      (arguments_reads hsound) ?_
    intro args s₃ _ _ _ h₃ hrest₃ _
    -- The receiver is still there when the arguments are read.
    obtain ⟨tags, hnode⟩ := (h₃.arena.holds List.mem_cons_self).shows.node
    exact .atArena hnode (alloc_accepts h₃.fits hrest₃).any

/-- One round of a chain: a link, or the end. -/
def chainRound (read : Production → Parser NodeId) (receiver : NodeId) :
    Parser (Round NodeId NodeId) := do
  if ← check .dot then return .more (← callLink read receiver) else return .done receiver

theorem callChain_eq (receiver : NodeId) :
    callChain read receiver = loop (chainRound read) receiver := rfl

/-- Links behind a receiver that was made, read to the last. -/
theorem callChain_accepts (hsound : Reads S env (read .expression) (One E))
    (hread : Complete S env (read .expression) E n ExpressionEnd)
    (hstart : Starts expressionStarts E) (hlinks : Links E inner r' t)
    (hn : inner.length ≤ n + 2) (hend : OperandEnd rest)
    (h : Step S b s before [r]) (hrest : s.cursor.rest = inner ++ rest) :
    Accepts S (callChain read r.root) env s rest AnyResult := by
  rw [callChain_eq]
  apply loop_accepts
  have hfuel : inner.length + 1 ≤ s.cursor.rest.length + 1 := by
    rw [hrest, List.length_append]
    omega
  revert hfuel
  generalize s.cursor.rest.length + 1 = fuel
  intro hfuel
  induction hlinks generalizing s before r fuel with
  | none =>
    obtain ⟨fuel, rfl⟩ : ∃ m, fuel = m + 1 := ⟨fuel - 1, by omega⟩
    refine loopN_done ?_
    have hstop : Stops [.dot] s.cursor.rest := hrest ▸ hend
    have hcheck : s.cursor.check .dot = false := hstop.check (by simp)
    exact .check hcheck (.pure h.fits hrest trivial)
  | @some seg others receiver call t first hothers ih =>
    rw [List.length_append] at hn hfuel
    obtain ⟨fuel, rfl⟩ : ∃ m, fuel = m + 1 := ⟨fuel - 1, by omega⟩
    rw [List.append_assoc] at hrest
    have hpos : 0 < seg.length := by
      cases first
      exact Nat.succ_pos _
    have hcheck : s.cursor.check .dot = true := by
      cases first with
      | mk hdot => exact check_of_rest hrest hdot
    have hround : Accepts S (chainRound read r.root) env s (others ++ rest) AnyResult := by
      have hfirst := callLink_accepts hsound hread hstart first (by omega) h hrest
      refine .check hcheck (hfirst.bind fun next s₁ hs₁ hrest₁ _ => ?_)
      exact .pure hs₁ hrest₁ trivial
    have hcall : Outcome S b (fun round seg' ts => ∃ next, round = .more next ∧
        Extends (Link E) r before next seg' ts) (chainRound read r.root env s) := by
      rw [chainRound, check_bind, hcheck]
      refine (callLink_step hsound h).bind fun next s₁ seg₁ ts₁ post step => ?_
      exact .pure step ⟨next, rfl, post⟩
    rw [loopN]
    refine hround.after hcall ?_
    intro _ s₁ _ _ hpost h₁ hrest₁ _
    obtain ⟨_, rfl, rest₁, u, rfl, rfl, rfl, _⟩ := hpost
    exact ih (by omega) h₁ hrest₁ _ (by omega)

variable (hsound : Reads S env (read .expression) (One E))
  (hread : Complete S env (read .expression) E n ExpressionEnd)
  (hstart : Starts expressionStarts E)
include hsound hread hstart

theorem constructorCall_complete :
    Complete S env (constructorCall read) (ConstructorCall env E) (n + 2) OperandEnd := by
  intro seg t ht hn s rest hs hrest hend
  rw [constructorCall]
  cases ht with
  | @mk name seg others args id tid u ht arguments links =>
    rw [List.length_cons, List.length_append] at hn
    rw [List.cons_append, List.append_assoc] at hrest
    refine .startToken ?_
    refine (namedType_accepts hs hrest ht).next (Step.refl hs) namedType_reads ?_
    intro _ s₁ _ _ hpost h₁ hrest₁ _
    obtain ⟨v, rfl, rfl, _⟩ := hpost
    refine (arguments_complete hread hstart arguments (by omega) h₁.fits hrest₁).next h₁
      (arguments_reads hsound) ?_
    intro _ s₂ _ args' hpost h₂ hrest₂ _
    obtain ⟨rfl, _⟩ := hpost
    refine (alloc_accepts h₂.fits hrest₂).after
      (h₂.made (G := fun _ _ => True) rfl fun _ => trivial) ?_
    intro _ s₃ _ _ hpost h₃ hrest₃ _
    obtain ⟨call, rfl, rfl, _⟩ := hpost
    exact callChain_accepts hsound hread hstart links (by omega) hend h₃ hrest₃

theorem staticCall_complete :
    Complete S env (staticCall read) (StaticCall env E) (n + 2) OperandEnd := by
  intro seg t ht hn s rest hs hrest hend
  rw [staticCall]
  cases ht with
  | @mk name dot method seg others args id tid mid u ht hdot hname arguments links =>
    rw [List.length_cons, List.length_cons, List.length_cons, List.length_append] at hn
    rw [List.cons_append, List.cons_append, List.cons_append, List.append_assoc] at hrest
    refine .startToken ?_
    refine (namedType_accepts hs hrest ht).next (Step.refl hs) namedType_reads ?_
    intro _ s₁ _ _ hpost h₁ hrest₁ _
    obtain ⟨v, rfl, rfl, _⟩ := hpost
    refine (expect_accepts h₁.fits hrest₁ hdot).next h₁ (expect_reads .dot) ?_
    intro _ s₂ _ _ hpost h₂ hrest₂ _
    obtain ⟨_, rfl, rfl⟩ := hpost
    refine (identifier_accepts h₂.fits hrest₂ hname).next h₂ identifier_reads ?_
    intro _ s₃ _ _ hpost h₃ hrest₃ _
    obtain ⟨w, rfl, rfl, _⟩ := hpost
    refine (arguments_complete hread hstart arguments (by omega) h₃.fits hrest₃).next h₃
      (arguments_reads hsound) ?_
    intro _ s₄ _ args' hpost h₄ hrest₄ _
    obtain ⟨rfl, _⟩ := hpost
    refine (alloc_accepts h₄.fits hrest₄).after
      (h₄.made (G := fun _ _ => True) rfl fun _ => trivial) ?_
    intro _ s₅ _ _ hpost h₅ hrest₅ _
    obtain ⟨call, rfl, rfl, _⟩ := hpost
    exact callChain_accepts hsound hread hstart links (by omega) hend h₅ hrest₅

theorem instanceCall_complete :
    Complete S env (instanceCall read) (InstanceCall E) (n + 2) OperandEnd := by
  intro seg t ht hn s rest hs hrest hend
  rw [instanceCall]
  cases ht with
  | @mk name seg others id call u ht first links =>
    rw [List.length_cons, List.length_append] at hn
    rw [List.cons_append, List.append_assoc] at hrest
    refine (identifier_accepts hs hrest ht).next (Step.refl hs) identifier_reads ?_
    intro _ s₁ _ _ hpost h₁ hrest₁ _
    obtain ⟨v, rfl, rfl, _⟩ := hpost
    refine (callLink_accepts hsound hread hstart first (by omega) h₁ hrest₁).after
      (callLink_step hsound h₁) ?_
    intro _ s₂ _ _ hpost h₂ hrest₂ _
    obtain ⟨_, u, rfl, rfl, rfl, _⟩ := hpost
    exact callChain_accepts hsound hread hstart links (by omega) hend h₂ hrest₂

end Calls

/-! ## Operators -/

section Operators

variable (hS : ∀ t, S.Tables t → t = table)
include hS

theorem operator_accepts {fixity : Fixity} {op : Token} (hs : S.Fits s)
    (hrest : s.cursor.rest = op :: rest) (hop : op.is .operator)
    (declared : table.contains op.value fixity) :
    Accepts S (operator fixity) env s rest (fun u _ => u = op) := by
  refine (expect_accepts hs hrest hop).bind fun u s₁ hs₁ hrest₁ hu => ?_
  subst hu
  have htable : s₁.work.operators = table := hS _ hs₁.tables
  have hget : (s₁.work.operators.get u.value fixity).mapError (·.placed u.span) =
      .ok ⟨u.value, fixity, table.relationshipsOf u.value fixity⟩ := by
    rw [htable, OperatorTable.get, declared]
    rfl
  exact .state (.ofExcept hget (.pure hs₁ hrest₁ rfl))

/-- An operand that was made, an operator and the rest of the expression. -/
theorem infixTail_accepts {b : ParserState} {before inner : List Token} {left t : Tree}
    {op : Token} (hsound : Reads S env (read .expression) (One (Expression env table)))
    (hread : Complete S env (read .expression) (Expression env table) n ExpressionEnd)
    (hleft : left.expr.openBinary? = none) (hop : op.is .operator)
    (declared : table.contains op.value .infixOp) (hinner : Expression env table inner t)
    (hn : inner.length ≤ n) (hend : ExpressionEnd rest) (h : Step S b s before [left])
    (hrest : s.cursor.rest = op :: (inner ++ rest)) :
    Accepts S (infixTail read left.root) env s rest AnyResult := by
  rw [infixTail]
  refine (operator_accepts hS h.fits hrest hop declared).next h (operator_reads hS .infixOp) ?_
  intro u s₁ _ _ hpost h₁ hrest₁ _
  obtain ⟨_, rfl, rfl⟩ := hpost
  refine (hread inner t hinner hn s₁ rest h₁.fits hrest₁ hend).next h₁ hsound ?_
  intro _ s₂ _ _ hpost h₂ hrest₂ _
  obtain ⟨_, rfl, rfl, @⟨_, c, hchain⟩⟩ := hpost
  refine (alloc_accepts h₂.fits hrest₂).after (h₂.made (G := fun _ t => ∃ id, t =
    (Grouping.join ⟨id, u, u.value⟩ (.operand left) (c.group table)).tree) rfl
      fun id => ⟨id, rfl⟩) ?_
  intro _ s₃ _ _ hpost h₃ hrest₃ _
  obtain ⟨_, rfl, rfl, id, rfl⟩ := hpost
  refine settle_accepts h₃ (Grouping.closed_join.mpr ⟨?_, ?_⟩) hrest₃
  · intro t ht
    exact List.mem_singleton.mp ht ▸ hleft
  · exact Grouping.closed_group hchain.operands_closed

theorem expression_complete {m : Nat}
    (hoperandSound : Reads S env (operand read) (One (Operand env table)))
    (hsound : Reads S env (read .expression) (One (Expression env table)))
    (hoperand : Complete S env (operand read) (Operand env table) m OperandEnd)
    (hread : Complete S env (read .expression) (Expression env table) n ExpressionEnd)
    (hm : m ≤ n + 2) :
    Complete S env (expression read) (Expression env table) m ExpressionEnd := by
  intro seg t ht hn s rest hs hrest hend
  rw [expression]
  cases ht with
  | mk chain =>
    cases chain with
    | last operand =>
      have hoff : OperandEnd rest := hend.subset (by simp)
      refine (hoperand _ _ operand hn s rest hs hrest hoff).bind fun _ s₁ hs₁ hrest₁ _ => ?_
      have hstop : Stops [.dot, .operator] s₁.cursor.rest := hrest₁ ▸ hend
      have hcheck : s₁.cursor.check .operator = false := hstop.check (by simp)
      exact .check hcheck (.pure hs₁ hrest₁ trivial)
    | @more seg others left op id c operand hop declared hothers =>
      rw [List.length_append, List.length_cons] at hn
      rw [List.append_assoc, List.cons_append] at hrest
      have hpos : 0 < seg.length := List.length_pos_iff.mpr (operand_starts.ne_nil operand)
      have hoff : OperandEnd (op :: (others ++ rest)) := stops_of_is hop (by decide)
      refine (hoperand _ _ operand (by omega) s _ hs hrest hoff).next (Step.refl hs)
        hoperandSound ?_
      intro _ s₁ _ _ hpost h₁ hrest₁ _
      obtain ⟨u, rfl, rfl, hu⟩ := hpost
      refine .check (check_of_rest hrest₁ hop) ?_
      exact infixTail_accepts hS hsound hread hu.openBinary?_eq hop declared (.mk hothers)
        (by omega) hend h₁ hrest₁

end Operators

/-! ## The choice of an operand -/

section Operands

variable {t u : Token}

-- Which production is chosen is computed from the kinds of the first tokens.
attribute [local simp] operands applies trigger startsWith startsWithPair TokenKind.same
  TokenKind.name

theorem find_real (ht : t.is .real) :
    operands.find? (applies (t :: rest)) = some .realLiteral := by
  simp [Token.is_of_is ht]

theorem find_integer (ht : t.is .integer) :
    operands.find? (applies (t :: rest)) = some .intLiteral := by
  simp [Token.is_of_is ht]

theorem find_list (ht : t.is .lbracket) :
    operands.find? (applies (t :: rest)) = some .listLiteral := by
  simp [Token.is_of_is ht]

theorem find_constructorCall (ht : t.is .typeIdentifier) (hu : u.is .lparen) :
    operands.find? (applies (t :: u :: rest)) = some .constructorCall := by
  simp [Token.is_of_is ht, Token.is_of_is hu]

theorem find_staticCall (ht : t.is .typeIdentifier) (hu : u.is .dot) :
    operands.find? (applies (t :: u :: rest)) = some .staticCall := by
  simp [Token.is_of_is ht, Token.is_of_is hu]

theorem find_instanceCall (ht : t.is .identifier) (hu : u.is .dot) :
    operands.find? (applies (t :: u :: rest)) = some .instanceCall := by
  simp [Token.is_of_is ht, Token.is_of_is hu]

theorem find_identifier (ht : t.is .identifier) (hend : Stops [.dot] rest) :
    operands.find? (applies (t :: rest)) = some .identifier := by
  have hlink : applies (t :: rest) .instanceCall = false := by
    cases rest with
    | nil => simp [Token.is_of_is ht]
    | cons u rest =>
      have hu : u.is .dot = false := hend u rfl _ (List.mem_singleton_self _)
      simp [Token.is_of_is ht, hu]
  simp only [operands, List.find?_cons, hlink]
  simp [Token.is_of_is ht]

theorem find_parenthesized (ht : t.is .lparen) :
    operands.find? (applies (t :: rest)) = some .parenthesized := by
  simp [Token.is_of_is ht]

theorem find_unary (ht : t.is .operator) :
    operands.find? (applies (t :: rest)) = some .unary := by
  simp [Token.is_of_is ht]

end Operands

/-! ## Operands and expressions -/

theorem intLiteral_accepts {t : Token} {value : Int} (hs : S.Fits s)
    (hrest : s.cursor.rest = t :: rest) (ht : t.is .integer)
    (hvalue : readInt64 t.value.toList = some value) :
    Accepts S intLiteral env s rest AnyResult := by
  refine (expect_accepts hs hrest ht).bind fun u s₁ hs₁ hrest₁ hu => ?_
  subst hu
  rw [hvalue]
  exact (alloc_accepts hs₁ hrest₁).any

theorem realLiteral_accepts {t : Token} {value : Binary64} (hs : S.Fits s)
    (hrest : s.cursor.rest = t :: rest) (ht : t.is .real)
    (hvalue : Binary64.read t.value.toList = some value) :
    Accepts S realLiteral env s rest AnyResult := by
  refine (expect_accepts hs hrest ht).bind fun u s₁ hs₁ hrest₁ hu => ?_
  subst hu
  rw [hvalue]
  exact (alloc_accepts hs₁ hrest₁).any

/-- The elements of a list literal end before a comma or a bracket. -/
theorem listLiteral_complete
    (hread : Complete S env (read .expression) (Expression env table) n ExpressionEnd) :
    Complete S env (listLiteral read) (Enclosed .lbracket .rbracket (Expression env table)) (n + 2)
      anyEnd := by
  intro seg ts ht hn s rest hs hrest _
  refine .startToken ?_
  refine (parenthesizedList_complete hread ?_ rfl expression_starts (by decide) seg ts ht hn s rest
    hs hrest trivial).bind fun _ s₁ hs₁ hrest₁ _ => (alloc_accepts hs₁ hrest₁).any
  intro t rest ht
  rcases ht with ht | ht
  · exact stops_of_is ht (by decide)
  · exact stops_of_is ht (by decide)

theorem parenthesized_accepts {l r : Token} {t : Tree}
    (hsound : Reads S env (read .expression) (One (Expression env table)))
    (hread : Complete S env (read .expression) (Expression env table) n ExpressionEnd)
    (hl : l.is .lparen) (inner : Expression env table seg t) (hr : r.is .rparen)
    (hn : seg.length ≤ n) (hs : S.Fits s) (hrest : s.cursor.rest = l :: (seg ++ r :: rest)) :
    Accepts S (parenthesized read) env s rest AnyResult := by
  have hclosed : Accepts S (Parser.parenthesized .lparen .rparen (read .expression)) env s rest
      AnyResult := by
    refine (expect_accepts hs hrest hl).bind fun _ s₁ hs₁ hrest₁ _ => ?_
    refine (hread seg t inner hn s₁ _ hs₁ hrest₁ (stops_of_is hr (by decide))).bind
      fun _ s₂ hs₂ hrest₂ _ => ?_
    refine (expect_accepts hs₂ hrest₂ hr).bind fun _ s₃ hs₃ hrest₃ _ => ?_
    exact .pure hs₃ hrest₃ trivial
  refine hclosed.next (Step.refl hs) (Parser.parenthesized_reads hsound) ?_
  intro _ s₁ _ _ hpost h₁ hrest₁ _
  obtain ⟨u, rfl, rfl, _⟩ := hpost
  refine .atArena (h₁.arena.holds List.mem_cons_self).shows.expr ?_
  exact ⟨u.root, _, rfl, hrest₁, ⟨h₁.fits.tables, h₁.fits.tokens⟩, trivial⟩

theorem unary_accepts {m : Nat} {op : Token} {t : Tree} (hS : ∀ t, S.Tables t → t = table)
    (hoperand : Complete S env (operand read) (Operand env table) m OperandEnd)
    (hop : op.is .operator) (declared : table.contains op.value .prefixOp)
    (inner : Operand env table seg t) (hm : seg.length ≤ m) (hend : OperandEnd rest)
    (hs : S.Fits s) (hrest : s.cursor.rest = op :: (seg ++ rest)) :
    Accepts S (unary read) env s rest AnyResult := by
  refine (operator_accepts hS hs hrest hop declared).bind fun _ s₁ hs₁ hrest₁ _ => ?_
  refine (hoperand seg t inner hm s₁ rest hs₁ hrest₁ hend).bind fun _ s₂ hs₂ hrest₂ _ => ?_
  exact (alloc_accepts hs₂ hrest₂).any

/-- An operand of the language is read as one, if the operands and the expressions nested in it
are. -/
theorem operand_complete {m k : Nat} (hS : ∀ t, S.Tables t → t = table)
    (hsound : Reads S env (read .expression) (One (Expression env table)))
    (hoperand : Complete S env (operand read) (Operand env table) m OperandEnd)
    (hread : Complete S env (read .expression) (Expression env table) n ExpressionEnd)
    (hm : k ≤ m + 1) (hn : k ≤ n + 2) :
    Complete S env (operand (step read)) (Operand env table) k OperandEnd := by
  intro seg t ht hk s rest hs hrest hend
  -- Which production is chosen is told by the first tokens.
  have hchosen : ∀ p, operands.find? (applies s.cursor.rest) = some p →
      Accepts S (step read p) env s rest AnyResult →
        Accepts S (operand (step read)) env s rest AnyResult :=
    fun p hfind h => choice_accepts hfind h
  cases ht with
  | real ht hvalue =>
    refine hchosen .realLiteral ?_ (realLiteral_accepts hs hrest ht hvalue)
    rw [hrest]
    exact find_real ht
  | int ht hvalue =>
    refine hchosen .intLiteral ?_ (intLiteral_accepts hs hrest ht hvalue)
    rw [hrest]
    exact find_integer ht
  | list elements =>
    refine hchosen .listLiteral ?_
      (listLiteral_complete hread _ _ elements (by omega) s rest hs hrest trivial)
    rw [hrest, List.cons_append]
    cases elements with
    | none hl => exact find_list hl
    | some hl => exact find_list hl
  | construct call =>
    refine hchosen .constructorCall ?_
      (constructorCall_complete hsound hread expression_starts _ _ call (by omega) s rest hs hrest hend)
    cases call with
    | mk ht arguments =>
      obtain ⟨l, inner, hopen, hl⟩ := start_of_enclosed arguments
      rw [hrest, hopen]
      exact find_constructorCall ht hl
  | static call =>
    refine hchosen .staticCall ?_
      (staticCall_complete hsound hread expression_starts _ _ call (by omega) s rest hs hrest hend)
    cases call with
    | mk ht hdot =>
      rw [hrest]
      exact find_staticCall ht hdot
  | name ht links =>
    cases links with
    | none =>
      refine hchosen .identifier ?_ (identifier_accepts hs hrest ht)
      rw [hrest]
      exact find_identifier ht hend
    | some first others =>
      refine hchosen .instanceCall ?_
        (instanceCall_complete hsound hread expression_starts _ _ (.mk ht first others) (by omega) s
          rest hs hrest hend)
      cases first with
      | mk hdot =>
        rw [hrest]
        exact find_instanceCall ht hdot
  | parens hl inner hr =>
    rw [List.length_cons, List.length_append, List.length_singleton] at hk
    rw [List.cons_append, List.append_assoc, List.singleton_append] at hrest
    refine hchosen .parenthesized ?_
      (parenthesized_accepts hsound hread hl inner hr (by omega) hs hrest)
    rw [hrest]
    exact find_parenthesized hl
  | unary hop declared operand =>
    rw [List.length_cons] at hk
    rw [List.cons_append] at hrest
    refine hchosen .unary ?_
      (unary_accepts hS hoperand hop declared operand (by omega) hend hs hrest)
    rw [hrest]
    exact find_unary hop

/-- Operands are read on a bound that is no smaller than their length, and expressions on a bound
that is larger. -/
theorem readN_operand_and_expression_complete (hS : ∀ t, S.Tables t → t = table) (depth : Nat) :
    Complete S env (operand (readN depth)) (Operand env table) depth OperandEnd ∧
      Complete S env (readN depth .expression) (Expression env table) (depth - 1)
        ExpressionEnd := by
  induction depth with
  | zero => exact ⟨complete_zero fun _ _ => operand_starts.ne_nil,
    complete_zero fun _ _ => expression_starts.ne_nil⟩
  | succ depth ih =>
    obtain ⟨hoperand, hread⟩ := ih
    have hsound : Reads S env (readN depth .expression) (One (Expression env table)) :=
      readN_expression_reads hS depth
    refine ⟨operand_complete hS hsound hoperand hread (by omega) (by omega), ?_⟩
    exact expression_complete hS (readN_operand_reads hS depth) hsound hoperand hread (by omega)

theorem readN_expression_complete (hS : ∀ t, S.Tables t → t = table) (depth : Nat) :
    Complete S env (readN depth .expression) (Expression env table) (depth - 1) ExpressionEnd :=
  (readN_operand_and_expression_complete hS depth).2

end ApiSyntax.Grammar
