/-
  ApiSyntax/Proofs/Grammar/Announced.lean --- what is read is announced by its trigger.

  A production says twice what it starts with: its trigger looks at one or two tokens, and
  its parser consumes them.  An induction on the bound shows that the two agree: every
  production but the program needs the tokens that its trigger accepts (`Announced`).  So a
  choice never lacks a candidate that would have succeeded.
-/
import ApiSyntax.Proofs.Grammar.Triggers
import ApiSyntax.Proofs.Parser.Lookahead
import ApiSyntax.Reading

set_option autoImplicit false

namespace ApiSyntax

/-! ## What the triggers ask for -/

namespace Production

open ApiSyntax.Parser

variable {tokens : List Token}

theorem startsWith_of_ahead {kind : TokenKind}
    (h : Ahead (fun t => t.is kind = true) (fun _ => True) tokens) :
    startsWith tokens kind = .ok true := by
  obtain ⟨t, rest, rfl, ht, -⟩ := h
  exact congrArg Except.ok ht

theorem startsWithAny_eq_ok {kinds : List TokenKind} :
    startsWithAny tokens kinds = .ok true ↔ OneOf kinds tokens := by
  cases tokens with
  | nil => simp [startsWithAny, OneOf, Ahead]
  | cons t rest => simp [startsWithAny, OneOf, Ahead]

theorem startsWithKeyword_of_ahead {word : String}
    (h : Ahead (fun t => t.isValue .keyword word = true) (fun _ => True) tokens) :
    startsWithKeyword tokens word = .ok true := by
  obtain ⟨t, rest, rfl, ht, -⟩ := h
  exact congrArg Except.ok ht

theorem startsWithPair_of_ahead {kind : TokenKind} {kinds : List TokenKind}
    (h : Ahead (fun t => t.is kind = true) (OneOf kinds) tokens) :
    startsWithPair tokens kind kinds = .ok true := by
  obtain ⟨t, _, rfl, ht, u, rest, rfl, hu, -⟩ := h
  exact startsWithPair_eq_ok.mpr ⟨t, u, rest, rfl, ht, hu⟩

end Production

namespace Grammar

open ApiSyntax.Parser ApiSyntax.Production

variable {env : ParserEnv} {read : Production → Parser NodeId}

/-- Where the parser succeeds the trigger of the production accepts. -/
def Announced (env : ParserEnv) (p : Production) (x : Parser NodeId) : Prop :=
  Needs env x fun tokens => p.trigger tokens = .ok true

/-! ## Names and types -/

theorem identifier_takes : Takes env identifier fun t => t.is .identifier = true :=
  (Takes.expect .identifier).stay fun _ => .building _

theorem namedType_takes : Takes env namedType fun t => t.is .typeIdentifier = true :=
  (Takes.expect .typeIdentifier).stay fun _ => .bind (.question fun _ => rfl) fun _ => .building _

theorem type_announced : Announced env .type (type read) := by
  have htype : Needs env (type read) (OneOf typeStarts) :=
    .check (fun _ h => oneOf_of_mem (by simp [typeStarts]) h)
      ((Needs.takes namedType_takes).mono fun _ h => oneOf_of_mem (by simp [typeStarts]) h)
  exact htype.mono fun _ h => startsWithAny_eq_ok.mpr h

theorem pair_announced (htype : Announced env .type (read .type)) :
    Announced env .pair (pair read) := by
  have hpair : Needs env (pair read)
      (Ahead (fun t => t.is .identifier = true) (OneOf typeStarts)) :=
    .behind (.question fun _ => rfl) fun _ => .next identifier_takes fun _ =>
      (htype.mono fun _ => startsWithAny_eq_ok.mp).first
  exact hpair.mono fun _ h => startsWithPair_of_ahead h

/-! ## Literals and calls -/

theorem intLiteral_announced : Announced env .intLiteral intLiteral :=
  (Needs.takes (.expect .integer)).first.mono fun _ h => startsWith_of_ahead h

theorem realLiteral_announced : Announced env .realLiteral realLiteral :=
  (Needs.takes (.expect .real)).first.mono fun _ h => startsWith_of_ahead h

/-- A list needs its opening token. -/
theorem parenthesizedList_needs {α : Type} {opening closing delimiter : TokenKind}
    {element : Parser α} :
    Needs env (parenthesizedList opening closing element delimiter)
      (Ahead (fun t => t.is opening = true) fun _ => True) :=
  (Needs.takes (.expect opening)).first

theorem listLiteral_announced : Announced env .listLiteral (listLiteral read) := by
  have hlist : Needs env (listLiteral read)
      (Ahead (fun t => t.is .lbracket = true) fun _ => True) :=
    .behind (.question fun _ => rfl) fun _ => parenthesizedList_needs.first
  exact hlist.mono fun _ h => startsWith_of_ahead h

theorem constructorCall_announced : Announced env .constructorCall (constructorCall read) := by
  have hcall : Needs env (constructorCall read)
      (Ahead (fun t => t.is .typeIdentifier = true) (OneOf [.lparen])) :=
    .behind (.question fun _ => rfl) fun _ => .next namedType_takes fun _ =>
      parenthesizedList_needs.first.mono fun _ h => oneOf_of_mem (by simp) h
  exact hcall.mono fun _ h => startsWithPair_of_ahead h

theorem staticCall_announced : Announced env .staticCall (staticCall read) := by
  have hcall : Needs env (staticCall read)
      (Ahead (fun t => t.is .typeIdentifier = true) (OneOf [.dot])) :=
    .behind (.question fun _ => rfl) fun _ => .next namedType_takes fun _ =>
      (Needs.takes (.expect .dot)).first.mono fun _ h => oneOf_of_mem (by simp) h
  exact hcall.mono fun _ h => startsWithPair_of_ahead h

theorem instanceCall_announced : Announced env .instanceCall (instanceCall read) := by
  have hlink : ∀ receiver, Needs env (callLink read receiver) (OneOf [.dot]) := fun _ =>
    (Needs.takes (.expect .dot)).first.mono fun _ h => oneOf_of_mem (by simp) h
  have hcall : Needs env (instanceCall read)
      (Ahead (fun t => t.is .identifier = true) (OneOf [.dot])) :=
    .next identifier_takes fun receiver => (hlink receiver).first
  exact hcall.mono fun _ h => startsWithPair_of_ahead h

/-! ## Operators -/

/-- What an operand may be starts like an expression. -/
theorem operand_needs : Needs env (operand read) (OneOf expressionStarts) := by
  refine Needs.choice.mono fun tokens ⟨p, hp, happlies⟩ => ?_
  obtain ⟨t, rest, rfl, kind, hkind, ht⟩ := exists_start happlies
  have hstarts : ∀ p ∈ [Production.realLiteral, .intLiteral, .listLiteral, .constructorCall,
      .staticCall, .instanceCall, .identifier, .parenthesized, .unary],
      ∀ kind ∈ p.starts, kind ∈ expressionStarts := by
    simp [Production.starts, expressionStarts]
  exact ⟨t, rest, rfl, List.any_eq_true.mpr ⟨kind, hstarts p hp kind hkind, ht⟩, trivial⟩

theorem expression_announced : Announced env .expression (expression read) :=
  operand_needs.first.mono fun _ => startsWithAny_eq_ok.mpr

theorem parenthesized_announced : Announced env .parenthesized (parenthesized read) :=
  (Needs.takes (.expect .lparen)).first.first.mono fun _ h => startsWith_of_ahead h

theorem unary_announced : Announced env .unary (unary read) :=
  (Needs.takes (.expect .operator)).first.first.mono fun _ h => startsWith_of_ahead h

/-! ## Statements -/

/-- Behind the name stands the equals sign, or the type if there is one. -/
theorem assignment_announced (htype : Announced env .type (read .type)) :
    Announced env .assignment (assignment read) := by
  have hassignment : Needs env (assignment read) (Ahead (fun t => t.is .identifier = true)
      (OneOf [.assign, .typeIdentifier, .lbracket])) := by
    refine .behind (.question fun _ => rfl) fun _ => .next identifier_takes fun _ => .first ?_
    refine .check (fun _ h => oneOf_of_mem (by simp) h) (Needs.first (htype.mono fun _ h => ?_))
    exact (startsWithAny_eq_ok.mp h).subset (by simp [typeStarts])
  exact hassignment.mono fun _ h => startsWithPair_of_ahead h

theorem block_announced : Announced env .block (block read) :=
  (Needs.takes (.expect .lbrace)).first.mono fun _ h => startsWith_of_ahead h

/-- A parser that starts with a keyword needs it. -/
theorem keyword_needs {word : String} {f : Token → Parser NodeId} :
    Needs env (expectKeyword word >>= f)
      fun tokens => startsWithKeyword tokens word = .ok true :=
  (Needs.takes (.expectKeyword word)).first.mono fun _ h => startsWithKeyword_of_ahead h

/-! ## Declarations -/

/-- A receiver is a type, or a name with its type. -/
theorem receiver_needs (htype : Announced env .type (read .type)) :
    Needs env (receiver read) (OneOf [.typeIdentifier, .identifier, .lbracket]) := by
  refine .check (fun _ h => oneOf_of_mem (by simp) h) (Needs.first (htype.mono fun _ h => ?_))
  exact (startsWithAny_eq_ok.mp h).subset (by simp [typeStarts])

theorem signature_announced (htype : Announced env .type (read .type)) :
    Announced env .signature (signature read) := by
  have hsignature : Needs env (signature read) (Ahead (fun t => t.is .lparen = true)
      (OneOf [.typeIdentifier, .identifier, .lbracket])) :=
    .next (.expect .lparen) fun _ => (receiver_needs htype).first
  exact hsignature.mono fun _ h => startsWithPair_of_ahead h

/-- A method starts as its signature does. -/
theorem method_announced (hsignature : Announced env .signature (read .signature)) :
    Announced env .method (method read) :=
  .behind (.question fun _ => rfl) fun _ => hsignature.first

theorem annotationCall_announced : Announced env .annotationCall (annotationCall read) :=
  (Needs.takes (.expect .annotationSign)).first.mono fun _ h => startsWith_of_ahead h

/-! ## All productions -/

/-- If nested productions are announced by their triggers, so is the production. -/
theorem step_announced {p : Production} (hp : p ≠ .program)
    (hread : ∀ q, q ≠ .program → Announced env q (read q)) : Announced env p (step read p) := by
  have htype := hread .type (by decide)
  cases p with
  | program => exact absurd rfl hp
  | identifier => exact (Needs.takes identifier_takes).mono fun _ h => startsWith_of_ahead h
  | type => exact type_announced
  | pair => exact pair_announced htype
  | intLiteral => exact intLiteral_announced
  | realLiteral => exact realLiteral_announced
  | listLiteral => exact listLiteral_announced
  | constructorCall => exact constructorCall_announced
  | staticCall => exact staticCall_announced
  | instanceCall => exact instanceCall_announced
  | expression => exact expression_announced
  | parenthesized => exact parenthesized_announced
  | unary => exact unary_announced
  | assignment => exact assignment_announced htype
  | block => exact block_announced
  | signature => exact signature_announced htype
  | method => exact method_announced (hread .signature (by decide))
  | returned => exact keyword_needs
  | deferred => exact keyword_needs
  | typeDef => exact keyword_needs
  | within => exact keyword_needs
  | withApis => exact keyword_needs
  | api => exact keyword_needs
  | annotationCall => exact annotationCall_announced

/-- On every bound a production is announced by its trigger. -/
theorem readN_announced (depth : Nat) :
    ∀ p, p ≠ .program → Announced env p (readN depth p) := by
  induction depth with
  | zero => exact fun _ _ _ _ _ h => nomatch h
  | succ depth ih => exact fun p hp => step_announced hp ih

/-- The function reads every production on some bound. -/
def ReadsOnBounds (read : Production → Parser NodeId) : Prop :=
  ∀ p env s, ∃ depth, read p env s = readN depth p env s

theorem readsOnBounds_readN (depth : Nat) : ReadsOnBounds (readN depth) :=
  fun _ _ _ => ⟨depth, rfl⟩

theorem readsOnBounds_parse : ReadsOnBounds Production.parse :=
  fun _ _ s => ⟨Production.depth s.cursor.rest.length, rfl⟩

theorem ReadsOnBounds.announced (hread : ReadsOnBounds read) {p : Production}
    (hp : p ≠ .program) : Announced env p (read p) := by
  intro s id s' hrun
  obtain ⟨depth, hdepth⟩ := hread p env s
  exact readN_announced depth p hp s id s' (hdepth ▸ hrun)

/-! ## Choices -/

/-- No trigger hides a parse.  If a production other than the program succeeds, its trigger accepts
the tokens ahead.  A choice that has such a production among its options tries it: the choice is an
attempt of the candidates, and if it fails then with what one of them failed with, from the same
place and in the same phase. -/
theorem triggers_hide_no_parse {read : Production → Parser NodeId} (hread : ReadsOnBounds read)
    {env : ParserEnv} {s s' : ParserState} {p : Production} {id : NodeId} (hp : p ≠ .program)
    (hrun : read p env s = (.ok id, s')) :
    p.trigger s.cursor.rest = .ok true ∧
    ∀ options expected, p ∈ options →
      p ∈ options.filter (applies s.cursor.rest) ∧
      choice read options expected env s =
        alternation ((options.filter (applies s.cursor.rest)).map (Production.ruleOf read)) env s ∧
      ∀ d s'', choice read options expected env s = (.error (.failed d), s'') →
        ∃ q ∈ options, q.trigger s.cursor.rest = .ok true ∧ ∃ s₁ s₂, s₁.cursor = s.cursor ∧
          s₁.phase = s.phase ∧ read q env s₁ = (.error (.failed d), s₂) := by
  have htrigger : p.trigger s.cursor.rest = .ok true := hread.announced hp s id s' hrun
  refine ⟨htrigger, fun options expected hmem => ?_⟩
  have hcandidate : p ∈ options.filter (applies s.cursor.rest) :=
    List.mem_filter.mpr ⟨hmem, Production.applies_iff.mpr htrigger⟩
  have hne : options.filter (applies s.cursor.rest) ≠ [] := List.ne_nil_of_mem hcandidate
  have hchoice : choice read options expected env s = _ := choice_eq_alternation hne
  refine ⟨hcandidate, hchoice, fun d s'' hfail => ?_⟩
  rw [hchoice] at hfail
  obtain ⟨rule, hrule, s₁, s₂, hcursor, hphase, hstop⟩ :=
    alternation_eq_error (by simpa using hne) hfail
  obtain ⟨q, hq, rfl⟩ := List.mem_map.mp hrule
  obtain ⟨hoption, happlies⟩ := List.mem_filter.mp hq
  exact ⟨q, hoption, Production.applies_iff.mp happlies, s₁, s₂, hcursor, hphase, hstop⟩

/-- The tokens of `(T) f () [`: a signature, and behind it no method. -/
def bareSignature : List Token :=
  [⟨.lparen, "(", .start⟩, ⟨.typeIdentifier, "T", .start⟩, ⟨.rparen, ")", .start⟩,
    ⟨.identifier, "f", .start⟩, ⟨.lparen, "(", .start⟩, ⟨.rparen, ")", .start⟩,
    ⟨.lbracket, "[", .start⟩]

/-- A signature is a candidate beside the method that starts like it. -/
theorem triggers_hide_no_parse_bareSignature :
    let s : ParserState := .start bareSignature .builtin
    (∃ id s', Production.signature.parse .standard s = (.ok id, s')) ∧
    Production.signature.trigger bareSignature = .ok true ∧
    Production.signature ∈ [Production.method, .signature].filter (applies bareSignature) ∧
    ∀ expected d s'', choice Production.parse [.method, .signature] expected .standard s =
        (.error (.failed d), s'') →
      ∃ q ∈ [Production.method, .signature], q.trigger bareSignature = .ok true ∧ ∃ s₁ s₂,
        s₁.cursor = s.cursor ∧ s₁.phase = s.phase ∧ q.parse .standard s₁ = (.error (.failed d), s₂) := by
  intro s
  have hread : Outcome.passes (Production.signature.parse .standard s) fun _ _ => true := by
    decide
  obtain ⟨id, s', hrun, -⟩ := Outcome.exists_of_passes hread
  obtain ⟨htrigger, hchoice⟩ :=
    triggers_hide_no_parse readsOnBounds_parse (p := .signature) (by decide) hrun
  refine ⟨⟨id, s', hrun⟩, htrigger, ?_, fun expected => ?_⟩
  · exact (hchoice [.method, .signature] "" (by decide)).1
  · exact (hchoice [.method, .signature] expected (by decide)).2.2

end Grammar

end ApiSyntax
