/-
  ApiSyntax/Proofs/Grammar/Receivers.lean --- no receiver starts a list of parameters.

  What stands between the first parentheses of a signature may look like an expression for a
  while: a name is one, and a type between brackets starts like a list.  An expression that
  starts with the name of a type goes on with a parenthesis or a dot, so inside any number of
  brackets there is none; and behind the name of a receiver stands its type, not a comma or
  the closing parenthesis.

  So a list of parameters that is tried at a receiver is given up there, whatever stands behind
  the receiver.
-/
import ApiSyntax.Proofs.Grammar.DeclarationComplete
import ApiSyntax.Proofs.Grammar.Faults
import ApiSyntax.Proofs.Parser.Lookahead

set_option autoImplicit false

namespace ApiSyntax

/-- No token is of two kinds. -/
theorem Token.not_is_both {t : Token} {kind other : TokenKind} (h : t.is kind) (h' : t.is other)
    (hother : kind.same other = false) : False := by
  rw [Token.is_of_is h, hother] at h'
  cases h'

theorem Token.not_is_any {t : Token} {kind : TokenKind} {kinds : List TokenKind} (h : t.is kind)
    (h' : kinds.any t.is) (hkinds : kinds.any kind.same = false) : False := by
  obtain ⟨other, hother, ht⟩ := List.any_eq_true.mp h'
  exact not_is_both h ht (Bool.not_eq_true _ ▸ List.any_eq_false.mp hkinds other hother)

namespace Language

variable {env : ParserEnv} {table : OperatorTable} {seg part rest tail : List Token} {a r : Token}
  {t u : Tree} {named : Option Tree}

/-! ## How an expression goes on -/

/-- What an operand starts with, and what stands behind that. -/
inductive OperandStart (env : ParserEnv) (table : OperatorTable) (a : Token) :
    List Token → Prop
  | bracket {seg : List Token} (ha : a.is .lbracket)
      (behind : (∃ r tail, seg = r :: tail ∧ r.is .rbracket) ∨
        ∃ part u tail, seg = part ++ tail ∧ Expression env table part u) :
      OperandStart env table a seg
  | typeName {seg : List Token} {b : Token} (ha : a.is .typeIdentifier)
      (hb : [TokenKind.lparen, .dot].any b.is) : OperandStart env table a (b :: seg)
  | name (ha : a.is .identifier) : OperandStart env table a []
  | receiver {seg : List Token} {b : Token} (ha : a.is .identifier) (hb : b.is .dot) :
      OperandStart env table a (b :: seg)
  | other {seg : List Token} (ha : [TokenKind.real, .integer, .lparen, .operator].any a.is) :
      OperandStart env table a seg

theorem Operand.start (h : Operand env table (a :: seg) t) : OperandStart env table a seg := by
  cases h with
  | real ht => exact .other (by simp [ht])
  | int ht => exact .other (by simp [ht])
  | list elements => cases elements with
    | none hl hr => exact .bracket hl (.inl ⟨_, _, rfl, hr⟩)
    | some hl items => cases items with
      | one phrase => exact .bracket hl (.inr ⟨_, _, _, rfl, phrase⟩)
      | more first => exact .bracket hl (.inr ⟨_, _, _, List.append_assoc .., first⟩)
  | construct call => cases call with
    | mk ht arguments => cases arguments with
      | none hl => exact .typeName ht (by simp [hl])
      | some hl => exact .typeName ht (by simp [hl])
  | static call => cases call with
    | mk ht hdot => exact .typeName ht (by simp [hdot])
  | name ht links => cases links with
    | none => exact .name ht
    | some first => cases first with
      | mk hdot => exact .receiver ht hdot
  | parens hl => exact .other (by simp [hl])
  | unary hop => exact .other (by simp [hop])

/-- An expression starts with an operand, and behind that it ends or goes on with an operator. -/
theorem Expression.start (h : Expression env table part t) :
    ∃ a seg others, part = a :: (seg ++ others) ∧ OperandStart env table a seg ∧
      (others = [] ∨ ∃ op tail, others = op :: tail ∧ op.is .operator) := by
  have hfirst : ∀ seg u, Operand env table seg u → ∃ a inner, seg = a :: inner ∧
      OperandStart env table a inner := by
    intro seg u operand
    obtain ⟨a, inner, rfl⟩ :=
      List.exists_cons_of_ne_nil (Grammar.operand_starts.ne_nil operand)
    exact ⟨a, inner, rfl, operand.start⟩
  cases h with
  | mk chain => cases chain with
    | last operand =>
      obtain ⟨a, inner, rfl, hstart⟩ := hfirst _ _ operand
      exact ⟨a, inner, [], by rw [List.append_nil], hstart, .inl rfl⟩
    | more operand hop _ _ =>
      obtain ⟨a, inner, rfl, hstart⟩ := hfirst _ _ operand
      exact ⟨a, inner, _, rfl, hstart, .inr ⟨_, _, rfl, hop⟩⟩

/-! ## Receivers -/

/-- No expression starts where a type starts that has a closing bracket or parenthesis behind
it. -/
theorem Typing.not_expression (h : Typing env seg u) (hr : [TokenKind.rparen, .rbracket].any r.is)
    (he : Expression env table part t) (hsplit : seg ++ r :: tail = part ++ rest) : False := by
  induction h generalizing part rest r tail t with
  | named name =>
    obtain ⟨ha⟩ := name
    obtain ⟨a, behind, others, rfl, hstart, -⟩ := he.start
    obtain ⟨rfl, hbehind⟩ := List.cons.inj hsplit
    cases hstart with
    | bracket hl => exact Token.not_is_both ha hl rfl
    | name hname => exact Token.not_is_both ha hname rfl
    | receiver hname => exact Token.not_is_both ha hname rfl
    | other hother => exact Token.not_is_any ha hother rfl
    | typeName _ hb =>
      -- Behind the name stands the closing token, which opens nothing.
      obtain ⟨rfl, -⟩ := List.cons.inj hbehind
      obtain ⟨kind, hkind, ht⟩ := List.any_eq_true.mp hr
      simp only [List.mem_cons, List.not_mem_nil, or_false] at hkind
      rcases hkind with rfl | rfl <;> exact Token.not_is_any ht hb rfl
  | @list l r' seg u id hl element hr' ih =>
    obtain ⟨a, behind, others, rfl, hstart, -⟩ := he.start
    rw [List.cons_append, List.cons_append, List.append_assoc, List.append_assoc] at hsplit
    obtain ⟨rfl, hbehind⟩ := List.cons.inj hsplit
    cases hstart with
    | typeName ha => exact Token.not_is_both hl ha rfl
    | name hname => exact Token.not_is_both hl hname rfl
    | receiver hname => exact Token.not_is_both hl hname rfl
    | other hother => exact Token.not_is_any hl hother rfl
    | bracket _ hinner =>
      obtain ⟨b, inner, rfl, hb⟩ | ⟨part, v, inner, rfl, hexpression⟩ := hinner
      · obtain ⟨c, _, rfl, kind, hkind, hc⟩ := Grammar.typing_starts _ _ element
        obtain ⟨rfl, -⟩ := List.cons.inj hbehind
        simp only [List.mem_cons, List.not_mem_nil, or_false] at hkind
        rcases hkind with rfl | rfl <;> exact Token.not_is_both hc hb rfl
      · rw [List.append_assoc] at hbehind
        exact ih (by simp [hr']) hexpression hbehind

/-- What stands behind an expression at the start of a receiver is neither a comma nor a closing
parenthesis. -/
theorem Receiver.behind_expression (h : Receiver env seg u named) (hr : r.is .rparen)
    (he : Expression env table part t) (hsplit : seg ++ r :: tail = part ++ rest) :
    Stops [.comma, .rparen] rest := by
  cases h with
  | static ty => exact (ty.not_expression (by simp [hr]) he hsplit).elim
  | named ht ty _ =>
    obtain ⟨a, behind, others, rfl, hstart, hothers⟩ := he.start
    obtain ⟨rfl, hbehind⟩ := List.cons.inj hsplit
    obtain ⟨b, inner, rfl, kind, hkind, hb⟩ := Grammar.typing_starts _ _ ty
    simp only [List.mem_cons, List.not_mem_nil, or_false] at hkind
    cases hstart with
    | bracket hl => exact (Token.not_is_both ht hl rfl).elim
    | typeName hname => exact (Token.not_is_both ht hname rfl).elim
    | other hother => exact (Token.not_is_any ht hother rfl).elim
    | receiver _ hdot =>
      obtain ⟨rfl, -⟩ := List.cons.inj hbehind
      rcases hkind with rfl | rfl <;> exact (Token.not_is_both hb hdot rfl).elim
    | name =>
      obtain rfl | ⟨op, _, rfl, hop⟩ := hothers
      · obtain rfl : b :: inner ++ r :: tail = rest := hbehind
        rcases hkind with rfl | rfl <;> exact stops_of_is hb (by decide)
      · obtain ⟨rfl, -⟩ := List.cons.inj hbehind
        rcases hkind with rfl | rfl <;> exact (Token.not_is_both hb hop rfl).elim

end Language

namespace Grammar

open ApiSyntax.Language ApiSyntax.Parser

variable {env : ParserEnv} {s s' : ParserState} {seg rest tail : List Token} {a l r : Token}
  {u : Tree} {named : Option Tree} {depth : Nat}

/-! ## Parameters at a receiver -/

/-- Where a type or a name stands, a parameter can be nothing but an expression. -/
theorem filter_parameter (ha : [TokenKind.typeIdentifier, .identifier, .lbracket].any a.is) :
    parameterKinds.filter (applies (a :: rest)) = [.expression] := by
  obtain ⟨kind, hkind, ht⟩ := List.any_eq_true.mp ha
  have hopen : a.is .lparen = false := by
    rw [Token.is_of_is ht]
    exact (by decide : ∀ kind ∈ [TokenKind.typeIdentifier, .identifier, .lbracket],
      kind.same .lparen = false) kind hkind
  have hstarts : Production.expressionStarts.any a.is := by
    have hkinds : [TokenKind.typeIdentifier, .identifier, .lbracket] ⊆
        Production.expressionStarts := by simp [Production.expressionStarts]
    exact List.any_eq_true.mpr ⟨kind, hkinds hkind, ht⟩
  simp only [parameterKinds, List.filter_cons, applies, Production.trigger, startsWithPair,
    Production.startsWithAny, hopen, hstarts, Bool.false_eq_true, if_false, if_true,
    List.filter_nil]

/-- A parameter is read as a choice with one option. -/
theorem parameter_eq {read : Production → Parser NodeId} (hrest : s.cursor.rest = a :: rest)
    (ha : [TokenKind.typeIdentifier, .identifier, .lbracket].any a.is) :
    parameter read env s = choice read [.expression] "expression" env s := by
  have hfilter : parameterKinds.filter (applies s.cursor.rest) = [.expression] := by
    rw [hrest]
    exact filter_parameter ha
  have hne : parameterKinds.filter (applies s.cursor.rest) ≠ [] := by
    rw [hfilter]
    exact List.cons_ne_nil _ _
  have happlies : applies s.cursor.rest .expression := List.of_mem_filter (by rw [hfilter]; simp)
  have hone : [Production.expression].filter (applies s.cursor.rest) = [.expression] := by
    rw [List.filter_cons, if_pos happlies, List.filter_nil]
  have hparameter : parameter read env s = alternation ((parameterKinds.filter
      (applies s.cursor.rest)).map (Production.ruleOf read)) env s :=
    choice_eq_alternation hne
  rw [hparameter, hfilter, choice_eq_alternation (by rw [hone]; simp), hone]

section

variable (hrest : s.cursor.rest = a :: rest)
  (ha : [TokenKind.typeIdentifier, .identifier, .lbracket].any a.is)
include hrest ha

theorem parameter_outcome : Outcome (.fixed s.work.operators) s
    (One (Expression env s.work.operators)) (parameter (readN depth) env s) := by
  have hread : Reads (.fixed s.work.operators) env (readN depth .expression)
      (One (Expression env s.work.operators)) := readN_expression_reads (fun _ h => h) depth
  rw [parameter_eq hrest ha]
  exact choice_reads (by simpa using hread) s (fixed_fits s)

theorem parameter_bounded (hdepth : 2 * s.cursor.rest.length + 3 ≤ depth) :
    (parameter (readN depth) env s).1 ≠ .error .exhausted := by
  have hread : Reads (.fixed s.work.operators) env (readN depth .expression)
      (One (Expression env s.work.operators)) := readN_expression_reads (fun _ h => h) depth
  have hsafe : Safe False (.fixed s.work.operators) env (s.cursor.rest.length + 1)
      (readN depth .expression) :=
    (readN_operand_and_expression_safe (fun _ h => h) depth _).2 (by omega)
  rw [parameter_eq hrest ha]
  have hchoice : Safe False (.fixed s.work.operators) env (s.cursor.rest.length + 1)
      (choice (readN depth) [.expression] "expression") :=
    choice_safe (by simpa using hread) (by simpa using hsafe)
  exact (hchoice s (fixed_fits s) False.elim (Nat.lt_succ_self _)).bounded

end

/-- A list ends where no comma stands ahead. -/
theorem listRounds_end {element : Parser NodeId} {items : List NodeId}
    (hcomma : s.cursor.check .comma = false) :
    loop (listRound element) items env s = (.ok items, s) := by
  unfold loop
  rw [loopN, bind_run, Action.bind_run, listRound, check_bind, hcomma]
  rfl

/-- A list breaks off where neither a comma nor its closing parenthesis stands ahead. -/
theorem list_unclosed {S : Setting} {element : Parser NodeId} {items : List NodeId}
    (hs : S.Fits s) (hstops : Stops [.comma, .rparen] s.cursor.rest) :
    ∃ d s', (loop (listRound element) items >>= fun all => do
      let _ ← expect .rparen
      return all) env s = (.error (.failed d), s') ∧ Lost S s s' := by
  have hother : s.cursor.check .rparen = false := hstops.check (by simp)
  obtain ⟨d, s', hclose⟩ : Fails (expect .rparen) env s := expect_fails hother
  have hlost : Outcome S s _ (expect .rparen env s) := expect_reads .rparen s hs
  rw [hclose] at hlost
  cases hlost with
  | lost lost =>
    refine ⟨d, s', ?_, lost⟩
    rw [bind_run, Action.bind_run, listRounds_end (hstops.check (by simp))]
    dsimp only
    rw [bind_run, Action.bind_run, hclose]

/-- Behind its opening parenthesis a list of parameters starts with a parameter, unless the closing
one is there. -/
theorem parameterList_opened {read : Production → Parser NodeId} (hl : l.is .lparen)
    (ha : a.is .rparen = false) (hrest : s.cursor.rest = l :: a :: rest) :
    ∃ s₁, s₁.cursor.rest = a :: rest ∧ Step (.fixed s.work.operators) s s₁ [l] [] ∧
      parameterList read env s = (delimited (parameter read) .comma >>= fun all => do
        let _ ← expect .rparen
        return all) env s₁ := by
  have hs := fixed_fits s
  have hopens : Accepts (.fixed s.work.operators) (expect .lparen) env s (a :: rest)
      fun u _ => u = l := expect_accepts hs hrest hl
  obtain ⟨_, s₁, hopen, hrest₁, _, rfl⟩ := hopens
  obtain ⟨_, _, h₁, -, rfl, rfl⟩ := Outcome.of_run (expect_reads .lparen s hs) hopen
  have hinside : s₁.cursor.check .rparen = false := by
    rw [Cursor.check, hrest₁]
    simpa using ha
  refine ⟨s₁, hrest₁, h₁, ?_⟩
  rw [parameterList, parenthesizedList, bind_run, Action.bind_run, hopen]
  dsimp only
  rw [check_bind, hinside]
  rfl

/-- A list of parameters that is tried at a receiver fails, and what was built before stays. -/
theorem parameterList_lost (hl : l.is .lparen) (receiver : Language.Receiver env seg u named)
    (hr : r.is .rparen) (hrest : s.cursor.rest = l :: (seg ++ r :: tail))
    (hdepth : 2 * s.cursor.rest.length + 1 ≤ depth) :
    ∃ d s', parameterList (readN depth) env s = (.error (.failed d), s') ∧
      Lost (.fixed s.work.operators) s s' := by
  obtain ⟨a, inner, rfl, ha⟩ := first_of_receiver receiver
  have hinside : a.is .rparen = false :=
    Bool.eq_false_iff.mpr fun hclose => Token.not_is_any hclose ha rfl
  obtain ⟨s₁, hrest₁, h₁, hlist⟩ := parameterList_opened hl hinside hrest
  have htable : s₁.work.operators = s.work.operators := h₁.fits.tables
  have hout : Outcome (.fixed s₁.work.operators) s₁ (One (Expression env s₁.work.operators))
      (parameter (readN depth) env s₁) := parameter_outcome hrest₁ ha
  have hshorter : 2 * s₁.cursor.rest.length + 3 ≤ depth := by
    rw [hrest, List.cons_append, List.length_cons] at hdepth
    rw [hrest₁]
    omega
  have hbounded : (parameter (readN depth) env s₁).1 ≠ .error .exhausted :=
    parameter_bounded hrest₁ ha hshorter
  rw [hlist, delimited_eq, bind_assoc, bind_run, Action.bind_run]
  rw [htable] at hout
  generalize parameter (readN depth) env s₁ = run at hout hbounded
  cases hout with
  | @lost stop s₂ lost =>
    cases stop with
    | failed d => exact ⟨d, s₂, rfl, h₁.then_lost lost⟩
    | exhausted => exact absurd rfl hbounded
  | @done id s₂ part ts h₂ post =>
    -- What was read is at most the name in front of a type, and the list breaks off behind it.
    obtain ⟨t, rfl, rfl, hexpression⟩ := post
    have hstops : Stops [.comma, .rparen] s₂.cursor.rest :=
      receiver.behind_expression hr hexpression (hrest₁ ▸ h₂.passes.ahead)
    obtain ⟨d, s₃, hrun, lost⟩ := list_unclosed h₂.fits hstops
    exact ⟨d, s₃, hrun, (h₁.trans h₂).then_lost lost⟩

end Grammar

end ApiSyntax
