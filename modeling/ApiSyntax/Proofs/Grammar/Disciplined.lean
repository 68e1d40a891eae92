/-
  ApiSyntax/Proofs/Grammar/Disciplined.lean --- every production keeps to every discipline.

  Each production makes nodes of one role, and its nested productions are those of `nested`.
  If these keep to a discipline, so does the production, and by induction on the bound so
  does what is read on any bound.

  Annotations run extensions, which may do what the discipline of a caller forbids.  What is
  said of them is a hypothesis for the productions that annotations are nested in; the
  others, the quiet ones, need none.
-/
import ApiSyntax.Proofs.Grammar.AnnotationSound
import ApiSyntax.Proofs.Parser.Discipline

set_option autoImplicit false

namespace ApiSyntax

/-! ## Productions -/

namespace Production

/-- The role of the nodes that a production makes. -/
def role : Production → Role
  | identifier => .name
  | type => .type
  | pair => .pair
  | intLiteral => .expression
  | realLiteral => .expression
  | listLiteral => .expression
  | constructorCall => .expression
  | staticCall => .call
  | instanceCall => .call
  | expression => .expression
  | parenthesized => .expression
  | unary => .expression
  | assignment => .statement
  | returned => .returned
  | deferred => .statement
  | block => .block
  | signature => .signature
  | method => .declaration
  | typeDef => .declaration
  | within => .within
  | withApis => .withApis
  | api => .api
  | program => .program
  | annotationCall => .annotationCall

/-- The productions that are read as parts of a production. -/
def nested : Production → List Production
  | identifier => []
  | type => [.type]
  | pair => [.type]
  | intLiteral => []
  | realLiteral => []
  | listLiteral => [.expression]
  | constructorCall => [.expression]
  | staticCall => [.expression]
  | instanceCall => [.expression]
  | expression => .expression :: Grammar.operands
  | parenthesized => [.expression]
  | unary => Grammar.operands
  | assignment => [.type, .expression]
  | returned => [.expression]
  | deferred => [.block]
  | block => .returned :: Grammar.statements
  | signature => [.type, .pair]
  | method => [.signature, .block]
  | typeDef => [.pair]
  | within => []
  | withApis => []
  | api => .within :: .withApis :: Grammar.declarations
  | program => [.annotationCall, .api]
  | annotationCall => Grammar.parameterKinds

/-- The productions in which no annotation can stand. -/
def isQuiet : Production → Bool
  | deferred | block | method | api | program | annotationCall => false
  | _ => true

theorem isQuiet_nested : ∀ p q : Production, p.isQuiet → q ∈ p.nested → q.isQuiet := by
  intro p q hp hq
  cases p <;> cases q <;> revert hp hq <;> decide

end Production

namespace Grammar

open ApiSyntax.Discipline ApiSyntax.Parser

variable {D : Discipline} [D.Lawful] {env : ParserEnv} {read : Production → Parser NodeId}
  {known : List Known}

/-- The productions keep to the discipline, and each makes nodes of its role. -/
def Obeys (D : Discipline) (env : ParserEnv) (read : Production → Parser NodeId)
    (ps : List Production) : Prop :=
  ∀ p ∈ ps, D.Yields env [] (read p) p.role

/-! ## Names and types -/

theorem identifier_yields : D.Yields env known identifier .name := by
  unfold identifier
  apply Keeps.expect.skip fun t => ?_
  exact Keeps.alloc (List.nil_subset _) rfl rfl

theorem namedType_yields : D.Yields env known namedType .typeName := by
  unfold namedType
  apply Keeps.expect.skip fun t => ?_
  apply Keeps.environment.skip fun e => ?_
  exact Keeps.alloc (List.nil_subset _) rfl rfl

theorem type_yields (h : D.Yields env [] (read .type) .type) :
    D.Yields env known (type read) .type := by
  unfold type
  apply Keeps.check.skip fun listed => ?_
  apply Keeps.cond
  · intro _
    apply Keeps.consume.skip fun opening => ?_
    apply h.more.bind fun element => ?_
    apply Keeps.expect.skip fun _ => ?_
    apply Keeps.alloc _ rfl rfl
    simp [Expr.requires]
  · intro _
    exact namedType_yields.le rfl

theorem pair_yields (h : D.Yields env [] (read .type) .type) :
    D.Yields env known (pair read) .pair := by
  unfold pair
  apply Keeps.startToken.skip fun start => ?_
  apply identifier_yields.bind fun name => ?_
  apply h.more.bind fun ty => ?_
  apply Keeps.alloc _ rfl rfl
  simp [Expr.requires]

theorem pairs_keeps (h : D.Yields env [] (read .pair) .pair) :
    D.Keeps env known (pairs read) (all .pair) :=
  Keeps.parenthesizedList h

/-! ## Literals and calls -/

theorem intLiteral_yields : D.Yields env known intLiteral .expression := by
  unfold intLiteral
  apply Keeps.expect.skip fun t => ?_
  cases readInt64 t.value.toList with
  | some value => exact Keeps.alloc (List.nil_subset _) rfl rfl
  | none => exact Keeps.fail

theorem realLiteral_yields : D.Yields env known realLiteral .expression := by
  unfold realLiteral
  apply Keeps.expect.skip fun t => ?_
  cases Binary64.read t.value.toList with
  | some value => exact Keeps.alloc (List.nil_subset _) rfl rfl
  | none => exact Keeps.fail

section

variable (h : D.Yields env [] (read .expression) .expression)
include h

theorem listLiteral_yields : D.Yields env known (listLiteral read) .expression := by
  unfold listLiteral
  apply Keeps.startToken.skip fun start => ?_
  apply (Keeps.parenthesizedList h).bind fun elements => ?_
  exact Keeps.alloc (List.subset_append_left _ _) rfl rfl

theorem arguments_keeps : D.Keeps env known (arguments read) (all .expression) :=
  Keeps.parenthesizedList h

theorem callLink_yields {receiver : NodeId} (hr : .has receiver .receiver ∈ known) :
    D.Yields env known (callLink read receiver) (.exactly .instanceCall) := by
  unfold callLink
  apply Keeps.expect.skip fun _ => ?_
  apply identifier_yields.bind fun selector => ?_
  apply (arguments_keeps h).bind fun args => ?_
  apply Keeps.skip (Keeps.question fun _ => rfl) fun start => ?_
  apply Keeps.alloc _ rfl rfl
  simp [Expr.requires, all, hr]

/-- A chain starts with a receiver, and each link makes a call; so any role that admits the
start and calls admits the end. -/
theorem callChain_yields {receiver : NodeId} {r : Role} (hr : .has receiver r ∈ known)
    (hreceiver : r.le .receiver) (hcall : (Role.exactly .instanceCall).le r) :
    D.Yields env known (callChain read receiver) r := by
  unfold callChain
  apply Keeps.loop (I := fun receiver => [.has receiver r]) (b := receiver) (fun receiver => ?_)
    (List.cons_subset.mpr ⟨hr, List.nil_subset _⟩)
  apply Keeps.check.skip fun dot => ?_
  apply Keeps.cond
  · intro _
    apply Keeps.viewed .receiver List.mem_cons_self hreceiver
    apply ((callLink_yields h List.mem_cons_self).le hcall).bind fun call => ?_
    exact Keeps.pure (List.subset_append_left _ _)
  · intro _
    exact Keeps.pure (List.subset_append_left _ _)

theorem constructorCall_yields : D.Yields env known (constructorCall read) .expression := by
  unfold constructorCall
  apply Keeps.startToken.skip fun start => ?_
  apply namedType_yields.bind fun receiver => ?_
  apply (arguments_keeps h).bind fun args => ?_
  apply Keeps.making .receiver _ rfl rfl fun call => ?_
  · simp [Expr.requires, all]
  · exact (callChain_yields h List.mem_cons_self rfl rfl).le rfl

theorem staticCall_yields : D.Yields env known (staticCall read) .call := by
  unfold staticCall
  apply Keeps.startToken.skip fun start => ?_
  apply namedType_yields.bind fun receiver => ?_
  apply Keeps.expect.skip fun _ => ?_
  apply identifier_yields.bind fun selector => ?_
  apply (arguments_keeps h).bind fun args => ?_
  apply Keeps.making .call _ rfl rfl fun call => ?_
  · simp [Expr.requires, all]
  · exact callChain_yields h List.mem_cons_self rfl rfl

theorem instanceCall_yields : D.Yields env known (instanceCall read) .call := by
  unfold instanceCall
  apply identifier_yields.bind fun receiver => ?_
  apply Keeps.viewed .receiver List.mem_cons_self rfl
  have hfirst : D.Yields env (.has receiver .receiver :: ([.has receiver .name] ++ known))
      (callLink read receiver) .call := (callLink_yields h List.mem_cons_self).le rfl
  apply hfirst.bind fun first => ?_
  exact callChain_yields h List.mem_cons_self rfl rfl

end

/-! ## Operators -/

/-- The token of an operator is that of a declared one. -/
theorem operator_keeps {fixity : Fixity} :
    D.Keeps env known (operator fixity) fun t => [.declared t.value fixity] := by
  unfold operator
  apply Keeps.expect.skip fun t => ?_
  intro s hs
  rw [state_bind]
  cases hdeclared : s.work.operators.contains t.value fixity with
  | false =>
    have hget : (s.work.operators.get t.value fixity).mapError (·.placed t.span) =
        .error ((Diagnostic.of (.unknownOperator t.value fixity)).placed t.span) := by
      rw [OperatorTable.get, hdeclared]
      rfl
    rw [bind_run, Action.bind_run, Parser.ofExcept, hget]
    exact ⟨Lawful.refl _, fun _ ha => by cases ha⟩
  | true =>
    have hget : (s.work.operators.get t.value fixity).mapError (·.placed t.span) =
        .ok ⟨t.value, fixity, s.work.operators.relationshipsOf t.value fixity⟩ := by
      rw [OperatorTable.get, hdeclared]
      rfl
    rw [ofExcept_bind hget]
    refine ⟨Lawful.refl _, fun a ha => ?_⟩
    cases ha
    exact knows_cons.mpr ⟨hdeclared, knows_nil⟩

theorem operand_yields (h : Obeys D env read operands) :
    D.Yields env known (operand read) .expression := by
  apply Keeps.choice fun q hq => ?_
  apply (h q hq).le
  revert q
  decide

theorem infixTail_yields (h : D.Yields env [] (read .expression) .expression) {left : NodeId}
    (hleft : .has left .expression ∈ known) :
    D.Yields env known (infixTail read left) .expression := by
  unfold infixTail
  apply operator_keeps.bind fun t => ?_
  apply h.more.bind fun right => ?_
  apply Keeps.making .expression _ rfl rfl fun id => ?_
  · simp [Expr.requires, hleft]
  · exact Keeps.settle List.mem_cons_self

theorem expression_yields (h : Obeys D env read (.expression :: operands)) :
    D.Yields env known (expression read) .expression := by
  unfold expression
  have hoperands : Obeys D env read operands := fun p hp => h p (List.mem_cons_of_mem _ hp)
  apply (operand_yields hoperands).bind fun left => ?_
  apply Keeps.check.skip fun more => ?_
  apply Keeps.cond
  · intro _
    exact infixTail_yields (h .expression List.mem_cons_self) List.mem_cons_self
  · intro _
    exact Keeps.pure (List.subset_append_left _ _)

theorem unary_yields (h : Obeys D env read operands) :
    D.Yields env known (unary read) .expression := by
  unfold unary
  apply operator_keeps.bind fun t => ?_
  apply (operand_yields h).bind fun inner => ?_
  apply Keeps.alloc _ rfl rfl
  simp [Expr.requires]

theorem parenthesized_yields (h : D.Yields env [] (read .expression) .expression) :
    D.Yields env known (parenthesized read) .expression := by
  unfold parenthesized
  apply (Keeps.parenthesized h.more).bind fun inner => ?_
  intro s hs
  cases he : s.work.arena.expr inner with
  | error d =>
    rw [bind_run, Action.bind_run, Parser.atArena, he]
    exact ⟨Lawful.refl _, fun _ ha => by cases ha⟩
  | ok e =>
    rw [atArena_bind he]
    have hrel := Lawful.enclose (D := D) (x := s.stage) he
    refine ⟨hrel, fun id hid => ?_⟩
    cases hid
    exact (hs.subset (List.subset_append_left _ _)).later hrel

/-! ## Statements -/

theorem assignment_yields (htype : D.Yields env [] (read .type) .type)
    (h : D.Yields env [] (read .expression) .expression) :
    D.Yields env known (assignment read) .statement := by
  unfold assignment
  apply Keeps.startToken.skip fun start => ?_
  apply identifier_yields.bind fun name => ?_
  have htyping : D.Keeps env ([.has name .name] ++ known)
      (do if ← check .assign then return none else return some (← read .type))
      fun ty => all .type ty.toList := by
    apply Keeps.check.skip fun untyped => ?_
    apply Keeps.cond
    · exact fun _ => Keeps.pure (List.nil_subset _)
    · intro _
      apply htype.more.bind fun ty => ?_
      exact Keeps.pure (List.subset_append_left _ _)
  apply htyping.bind fun ty => ?_
  apply Keeps.expect.skip fun _ => ?_
  apply h.more.bind fun value => ?_
  apply Keeps.alloc _ rfl rfl
  simp [Expr.requires, all]

theorem returned_yields (h : D.Yields env [] (read .expression) .expression) :
    D.Yields env known (returned read) .returned := by
  unfold returned
  apply Keeps.expectKeyword.skip fun keyword => ?_
  apply h.more.bind fun value => ?_
  apply Keeps.alloc _ rfl rfl
  simp [Expr.requires]

/-- A block whose contents turn out to have no return statement is a plain one. -/
theorem blockContents_keeps {block : NodeId} (hblock : .has block .block ∈ known) :
    D.Keeps env known (atArena (·.expr block))
      fun e => if Role.returns e then [] else [.has block .plainBlock] := by
  apply Keeps.atArena fun x e hx he => ?_
  cases hreturns : Role.returns e with
  | true => exact knows_nil
  | false =>
    have his : D.Is .plainBlock block x.arena := by
      apply Lawful.look (hx _ hblock)
      intro e' he' hadmits
      rw [he] at he'
      cases he'
      simpa [Role.admits, Role.kinds, hreturns] using hadmits
    exact knows_cons.mpr ⟨his, knows_nil⟩

theorem deferred_yields (h : D.Yields env [] (read .block) .block) :
    D.Yields env known (deferred read) .statement := by
  unfold deferred
  apply Keeps.expectKeyword.skip fun keyword => ?_
  apply h.more.bind fun block => ?_
  apply (blockContents_keeps List.mem_cons_self).bind fun e => ?_
  cases e with
  | block body ret =>
    cases ret with
    | some ret => exact Keeps.skip (Keeps.question fun _ => rfl) fun n => Keeps.fail
    | none =>
      apply Keeps.alloc _ rfl rfl
      simp [Expr.requires, Role.returns]
  | _ =>
    apply Keeps.alloc _ rfl rfl
    simp [Expr.requires, Role.returns]

/-- What is known of what a block has read of its body. -/
def bodyKnown (b : BlockSoFar) : List Known :=
  all .statement b.body ++ all .returned b.ret.toList

theorem block_yields (h : Obeys D env read (.returned :: statements)) :
    D.Yields env known (block read) .block := by
  have hstatement : ∀ {known}, D.Yields env known (statement read) .statement := by
    intro known
    apply Keeps.choice fun q hq => ?_
    apply (h q (List.mem_cons_of_mem _ hq)).le
    revert q
    decide
  unfold block
  apply Keeps.expect.skip fun opening => ?_
  have hloop : D.Keeps env known (loop (blockRound read opening.span) ⟨[], none⟩) bodyKnown := by
    apply Keeps.loop (I := bodyKnown) (fun b => ?_) (List.nil_subset _)
    unfold blockRound
    apply Keeps.remaining.skip fun tokens => ?_
    cases tokens.head? with
    | none => exact Keeps.fail
    | some t =>
      apply Keeps.cond
      · intro _
        apply Keeps.consume.skip fun _ => ?_
        exact Keeps.pure (List.subset_append_left _ _)
      · intro _
        apply Keeps.cond
        · exact fun _ => Keeps.fail
        · intro _
          apply Keeps.cond
          · intro _
            apply (h .returned List.mem_cons_self).more.bind fun ret => ?_
            apply Keeps.pure
            simp [Keeps.rounds, bodyKnown, all, Production.role, List.subset_def]
            grind
          · intro _
            apply hstatement.bind fun id => ?_
            apply Keeps.pure
            simp [Keeps.rounds, bodyKnown, all, List.subset_def]
            grind
  apply hloop.inPhase.bind fun b => ?_
  exact Keeps.alloc (List.subset_append_left _ _) rfl rfl

/-! ## Signatures, methods and types -/

/-- What is known of a receiver. -/
def receiverKnown (r : Receiver) : List Known :=
  .has r.ty .type :: all .pair r.named.toList

theorem receiver_keeps (htype : D.Yields env [] (read .type) .type) :
    D.Keeps env known (receiver read) receiverKnown := by
  unfold receiver
  apply Keeps.check.skip fun named => ?_
  apply Keeps.cond
  · intro _
    apply Keeps.startToken.skip fun start => ?_
    apply identifier_yields.bind fun name => ?_
    apply htype.more.bind fun ty => ?_
    apply Keeps.making .pair _ rfl rfl fun param => ?_
    · simp [Expr.requires]
    · have hcopy : D.Yields env
          (.has param .pair :: ([.has ty .type] ++ ([.has name .name] ++ known)))
          (duplicate ty) .type := by
        apply Keeps.duplicate _ rfl
        simp
      apply hcopy.bind fun copy => ?_
      apply Keeps.pure
      simp [receiverKnown, all]
  · intro _
    apply htype.more.bind fun ty => ?_
    exact Keeps.pure (List.subset_append_left _ _)

theorem returnType_keeps (htype : D.Yields env [] (read .type) .type) :
    D.Keeps env known (returnType read) fun ty => all .type ty.toList := by
  unfold returnType
  apply Keeps.check.skip fun opens => ?_
  apply Keeps.cond
  · intro _
    apply Keeps.consume.skip fun _ => ?_
    apply Keeps.check.skip fun closes => ?_
    apply Keeps.cond
    · intro _
      apply Keeps.consume.skip fun _ => ?_
      exact Keeps.pure (List.nil_subset _)
    · intro _
      apply htype.more.bind fun ty => ?_
      apply Keeps.expect.skip fun _ => ?_
      exact Keeps.pure (List.subset_append_left _ _)
  · exact fun _ => Keeps.pure (List.nil_subset _)

theorem signature_yields (htype : D.Yields env [] (read .type) .type)
    (hpair : D.Yields env [] (read .pair) .pair) :
    D.Yields env known (signature read) .signature := by
  unfold signature
  apply Keeps.expect.skip fun opening => ?_
  apply (receiver_keeps htype).bind fun r => ?_
  apply Keeps.expect.skip fun _ => ?_
  apply Keeps.expectAny.skip fun t => ?_
  apply Keeps.making .name (List.nil_subset _) rfl rfl fun name => ?_
  apply (pairs_keeps hpair).bind fun params => ?_
  apply (returnType_keeps htype).bind fun result => ?_
  apply Keeps.alloc _ rfl rfl
  simp [Expr.requires, receiverKnown, all, List.subset_def]
  grind

theorem method_yields (hsignature : D.Yields env [] (read .signature) .signature)
    (hblock : D.Yields env [] (read .block) .block) :
    D.Yields env known (method read) .declaration := by
  unfold method
  apply Keeps.startToken.skip fun start => ?_
  apply hsignature.more.bind fun head => ?_
  apply hblock.more.bind fun body => ?_
  apply Keeps.alloc _ rfl rfl
  simp [Expr.requires]

theorem duplicateAll_keeps {ids : List NodeId} {r : Role} (h : all r ids ⊆ known)
    (hr : r.isTyping) : D.Keeps env known (duplicateAll ids) (all r) := by
  induction ids generalizing known with
  | nil => exact Keeps.pure (List.nil_subset _)
  | cons id ids ih =>
    unfold duplicateAll
    obtain ⟨hid, hids⟩ := List.cons_subset.mp h
    have hcopy : D.Yields env known (duplicate id) r := Keeps.duplicate hid hr
    apply hcopy.bind fun copy => ?_
    apply (ih (List.subset_append_of_subset_right _ hids)).bind fun copies => ?_
    apply Keeps.pure
    simp [all]

theorem constructor_yields {name : NodeId} {found : List NodeId}
    (hname : .has name .typeName ∈ known) (hfound : all .pair found ⊆ known) :
    D.Yields env known (constructor name found) .signature := by
  unfold constructor
  apply Keeps.skip (Keeps.question fun _ => rfl) fun n => ?_
  have hcopy : ∀ {known}, .has name .typeName ∈ known →
      D.Yields env known (duplicate name) .typeName := fun h => Keeps.duplicate h rfl
  apply (hcopy hname).bind fun receiver => ?_
  apply (hcopy (List.mem_cons_of_mem _ hname)).bind fun result => ?_
  apply Keeps.making .name (List.nil_subset _) rfl rfl fun made => ?_
  have hparams : all .pair found ⊆ .has made .name :: ([.has result .typeName] ++
      ([.has receiver .typeName] ++ known)) := fun k hk => by simp [hfound hk]
  apply (duplicateAll_keeps hparams rfl).bind fun params => ?_
  have hreceiver : .has receiver .typeName ∈ all .pair params ++ (.has made .name ::
      ([.has result .typeName] ++ ([.has receiver .typeName] ++ known))) := by simp
  apply Keeps.viewed .type hreceiver rfl
  have hresult : .has result .typeName ∈ .has receiver .type :: (all .pair params ++
      (.has made .name :: ([.has result .typeName] ++ ([.has receiver .typeName] ++ known)))) := by
    simp
  apply Keeps.viewed .type hresult rfl
  apply Keeps.alloc _ rfl rfl
  simp [Expr.requires, all, List.subset_def]
  grind

/-- The place is taken back when what was read is no list of properties. -/
theorem properties_keeps (hpair : D.Yields env [] (read .pair) .pair) :
    D.Keeps env known (properties read) (all .pair) := by
  intro s hs
  have hattempt : D.Keeps env known (attempt (pairs read)) fun o => o.elim [] (all .pair) :=
    (pairs_keeps hpair).attempt
  obtain ⟨hrel, hok⟩ := hattempt s hs
  unfold properties
  rw [atCursor_bind, bind_run, Action.bind_run]
  cases hrun : attempt (pairs read) env s with
  | mk result s' =>
    rw [hrun] at hrel hok
    match result with
    | .error e => exact ⟨hrel, fun _ ha => by cases ha⟩
    | .ok none => exact ⟨hrel, fun found hfound => by cases hfound; exact knows_nil⟩
    | .ok (some found) =>
      simp only [check_bind]
      split
      · refine ⟨Lawful.back hrel, fun found hfound => ?_⟩
        cases hfound
        exact knows_nil
      · refine ⟨hrel, fun found hfound => ?_⟩
        cases hfound
        exact hok _ rfl

theorem traits_keeps : D.Keeps env known traits (all .typeName) := by
  unfold traits
  apply Keeps.checkKeyword.skip fun more => ?_
  apply Keeps.cond
  · intro _
    apply Keeps.consume.skip fun _ => ?_
    exact Keeps.delimited namedType_yields
  · exact fun _ => Keeps.pure (List.nil_subset _)

theorem typeDef_yields (hpair : D.Yields env [] (read .pair) .pair) :
    D.Yields env known (typeDef read) .declaration := by
  unfold typeDef
  apply Keeps.expectKeyword.skip fun keyword => ?_
  apply namedType_yields.bind fun name => ?_
  apply (properties_keeps hpair).bind fun found => ?_
  apply Keeps.skip (Keeps.question fun _ => rfl) fun order => ?_
  have hmade : D.Keeps env (all .pair found ++ ([.has name .typeName] ++ known))
      (do if found.isEmpty then return none else return some (← constructor name found))
      fun made => all .signature made.toList := by
    apply Keeps.cond
    · exact fun _ => Keeps.pure (List.nil_subset _)
    · intro _
      apply (constructor_yields (by simp) (List.subset_append_left _ _)).bind fun made => ?_
      exact Keeps.pure (List.subset_append_left _ _)
  apply hmade.bind fun made => ?_
  apply traits_keeps.bind fun extra => ?_
  apply Keeps.alloc _ rfl rfl
  simp [Expr.requires, all, List.subset_def]
  grind

/-! ## APIs and programs -/

theorem within_yields : D.Yields env known within .within := by
  unfold within
  apply Keeps.expectKeyword.skip fun keyword => ?_
  apply namedType_yields.bind fun outer => ?_
  apply Keeps.alloc _ rfl rfl
  simp [Expr.requires]

theorem withApis_yields : D.Yields env known withApis .withApis := by
  unfold withApis
  apply Keeps.expectKeyword.skip fun keyword => ?_
  apply namedType_yields.bind fun first => ?_
  have hloop : D.Keeps env ([.has first .typeName] ++ known) (loop (fun apis => do
      if ← checkKeyword "with" then
        let _ ← consume
        return .more (apis ++ [← namedType])
      else return .done apis) [first]) (all .typeName) := by
    apply Keeps.loop (I := all .typeName) (b := [first]) (fun apis => ?_)
      (List.subset_append_left _ _)
    apply Keeps.checkKeyword.skip fun more => ?_
    apply Keeps.cond
    · intro _
      apply Keeps.consume.skip fun _ => ?_
      apply namedType_yields.bind fun name => ?_
      apply Keeps.pure
      simp [Keeps.rounds, all, List.subset_def]
      grind
    · exact fun _ => Keeps.pure (List.subset_append_left _ _)
  apply hloop.bind fun apis => ?_
  exact Keeps.alloc (List.subset_append_left _ _) rfl rfl

theorem api_yields (h : Obeys D env read (.within :: .withApis :: declarations)) :
    D.Yields env known (api read) .api := by
  have hdeclaration : ∀ {known}, D.Yields env known (declaration read) .declaration := by
    intro known
    apply Keeps.choice fun q hq => ?_
    apply (h q (List.mem_cons_of_mem _ (List.mem_cons_of_mem _ hq))).le
    revert q
    decide
  have hwithin : ∀ {known}, D.Keeps env known (attempt (read .within))
      fun inside => all .within inside.toList := by
    intro known
    apply (Keeps.attempt (h .within (by simp))).mono (List.nil_subset _) fun o => ?_
    cases o <;> exact List.Subset.refl _
  have hwithApis : ∀ {known}, D.Keeps env known (attempt (read .withApis))
      fun others => all .withApis others.toList := by
    intro known
    apply (Keeps.attempt (h .withApis (by simp))).mono (List.nil_subset _) fun o => ?_
    cases o <;> exact List.Subset.refl _
  have hbody : ∀ {known} {opened : Span},
      D.Keeps env known (loop (apiRound read opened) []) (all .declaration) := by
    intro known opened
    apply Keeps.loop (I := all .declaration) (fun body => ?_) (List.nil_subset _)
    unfold apiRound
    apply Keeps.remaining.skip fun tokens => ?_
    cases tokens.head? with
    | none => exact Keeps.fail
    | some t =>
      apply Keeps.cond
      · intro _
        apply Keeps.consume.skip fun _ => ?_
        exact Keeps.pure (List.subset_append_left _ _)
      · intro _
        apply hdeclaration.bind fun id => ?_
        apply Keeps.pure
        simp [Keeps.rounds, all, List.subset_def]
        grind
  unfold api
  apply Keeps.expectKeyword.skip fun keyword => ?_
  apply namedType_yields.bind fun name => ?_
  apply hwithin.bind fun inside => ?_
  apply hwithApis.bind fun others => ?_
  apply Keeps.expect.skip fun opening => ?_
  apply hbody.inPhase.bind fun body => ?_
  apply Keeps.alloc _ rfl rfl
  simp [Expr.requires, all, List.subset_def]
  grind

/-- The first handle goes to the annotations if it is that of one, else to the others. -/
theorem separate_cons {a : Arena} {id : NodeId} {ids : List NodeId}
    {parts : List NodeId × List NodeId} (h : separate a (id :: ids) = .ok parts) :
    ∃ e rest, a.expr id = .ok e ∧ separate a ids = .ok rest ∧
      (e.kind = .annotationCall ∧ parts = (id :: rest.1, rest.2) ∨
        e.kind ≠ .annotationCall ∧ parts = (rest.1, id :: rest.2)) := by
  unfold separate at h
  cases hnode : a.node id with
  | error d =>
    rw [Arena.kind, hnode] at h
    cases h
  | ok n =>
    have hkind : a.kind id = .ok n.expr.kind := by
      rw [Arena.kind, hnode]
      rfl
    cases hrest : separate a ids with
    | error d =>
      simp only [hkind, hrest, bind, Except.bind] at h
      cases h
    | ok rest =>
      simp only [hkind, hrest, bind, Except.bind] at h
      refine ⟨n.expr, rest, ?_, rfl, ?_⟩
      · rw [Arena.expr, hnode]
        rfl
      split at h
      · next hcalls =>
        cases h
        exact .inl ⟨hcalls, rfl⟩
      · next hcalls =>
        cases h
        exact .inr ⟨hcalls, rfl⟩

/-- What is told apart as annotations is annotations, and the rest is APIs. -/
theorem separate_knows {x : Stage} {ids : List NodeId} {parts : List NodeId × List NodeId}
    (h : separate x.arena ids = .ok parts) (hids : D.Knows (all .part ids) x) :
    D.Knows (all .annotationCall parts.1 ++ all .api parts.2) x := by
  induction ids generalizing parts with
  | nil =>
    cases h
    exact knows_nil
  | cons id ids ih =>
    obtain ⟨hid, hids⟩ := knows_cons.mp hids
    obtain ⟨e, rest, he, hrest, hparts⟩ := separate_cons h
    obtain ⟨hcallss, hapis⟩ := knows_append.mp (ih hrest hids)
    obtain ⟨hkind, rfl⟩ | ⟨hkind, rfl⟩ := hparts
    · have his : D.Is .annotationCall id x.arena := by
        apply Lawful.look hid
        intro e' he' _
        rw [he] at he'
        cases he'
        exact Role.admits_of_kind (by decide) (by simp [hkind, Role.kinds])
      exact knows_append.mpr ⟨knows_cons.mpr ⟨his, hcallss⟩, hapis⟩
    · have his : D.Is .api id x.arena := by
        apply Lawful.look hid
        intro e' he' hadmits
        rw [he] at he'
        cases he'
        have hpart := Role.kind_of_admits hadmits
        apply Role.admits_of_kind (by decide)
        simpa [Role.kinds, hkind] using hpart
      exact knows_append.mpr ⟨hcallss, knows_cons.mpr ⟨his, hapis⟩⟩

theorem tagAll_keeps {program : NodeId} {ids : List NodeId} :
    D.Keeps env known (tagAll program ids) fun _ => [] := by
  induction ids with
  | nil => exact Keeps.pure (List.nil_subset _)
  | cons id ids ih =>
    unfold tagAll
    apply Keeps.skip (Keeps.question fun _ => rfl) fun e => ?_
    cases e
    case annotationCall name params => exact Keeps.tag.skip fun new => ih
    all_goals exact ih

theorem program_yields (hcalls : D.Yields env [] (read .annotationCall) .annotationCall)
    (hapi : D.Yields env [] (read .api) .api) :
    D.Yields env known (program read) .program := by
  have hrules : ∀ rule ∈ [Production.annotationCall, .api].map (Production.ruleOf read),
      D.Yields env [] rule.parse .part := by
    intro rule hrule
    simp only [List.map_cons, List.map_nil, List.mem_cons, List.not_mem_nil, or_false] at hrule
    rcases hrule with rfl | rfl
    · exact hcalls.le rfl
    · exact hapi.le rfl
  unfold program
  apply Keeps.startToken.skip fun start => ?_
  apply (Keeps.execute hrules).inPhase.bind fun nodes => ?_
  have hseparate : D.Keeps env (all .part nodes ++ known) (atArena (separate · nodes))
      fun parts => all .annotationCall parts.1 ++ all .api parts.2 := by
    apply Keeps.atArena fun x parts hx hparts => ?_
    exact separate_knows hparts (hx.subset (List.subset_append_left _ _))
  apply hseparate.bind fun parts => ?_
  obtain ⟨annotations, apis⟩ := parts
  dsimp only
  have hparts : (Expr.program apis annotations).requires ⊆
      all .annotationCall annotations ++ all .api apis ++ (all .part nodes ++ known) :=
    List.subset_append_left _ _
  apply Keeps.making .program hparts rfl rfl fun id => ?_
  apply tagAll_keeps.skip fun _ => ?_
  exact Keeps.pure (List.subset_append_left [_] _)

/-! ## Annotations -/

/-- The making of an annotation node and the run of its extension keep to the discipline. -/
structure Annotates (D : Discipline) (env : ParserEnv) : Prop where
  node {x : Stage} {name : String} {e : Extension} {params : List NodeId} (token : Token)
    (hget : env.extensions.get? name = some e) (hkinds : params.mapM x.arena.kind = .ok e.parameters)
    (hparams : D.Knows (all .anything params) x) :
    D.Rel x { x with arena := x.arena.push token (.annotationCall name params) } ∧
      D.Is .annotationCall x.arena.next (x.arena.push token (.annotationCall name params))
  run {name : String} {e : Extension} (hget : env.extensions.get? name = some e) (site : Site)
    (params : List NodeId) (w : Workspace) (rest : List Token) :
    D.Rel (w.stage rest) ((e.invoke site params w).2.stage rest)

theorem extensionName_keeps : D.Keeps env known extensionName fun _ => [] := by
  unfold extensionName
  apply Keeps.expectAny.skip fun first => ?_
  apply Keeps.skip _ fun parts => Keeps.pure (List.nil_subset _)
  apply Keeps.loop (I := fun _ => []) (fun parts => ?_) (List.nil_subset _)
  apply Keeps.remaining.skip fun tokens => ?_
  apply Keeps.cond
  · intro _
    apply Keeps.consume.skip fun _ => ?_
    apply Keeps.consume.skip fun part => ?_
    exact Keeps.pure (List.nil_subset _)
  · exact fun _ => Keeps.pure (List.nil_subset _)

theorem parameters_keeps {e : Extension} (h : Obeys D env read parameterKinds) :
    D.Keeps env known (parameters read e) (all .anything) := by
  have hlist : ∀ {known}, D.Keeps env known (parameterList read) (all .anything) := by
    intro known
    apply Keeps.parenthesizedList
    apply Keeps.choice fun q hq => ?_
    apply (h q hq).le
    revert q
    decide
  unfold parameters
  apply Keeps.check.skip fun opens => ?_
  apply Keeps.cond
  · intro _
    apply Keeps.cond
    · intro _
      apply hlist.attempt.bind fun o => ?_
      cases o with
      | none => exact Keeps.pure (List.nil_subset _)
      | some params => exact Keeps.pure (List.subset_append_left _ _)
    · exact fun _ => hlist
  · exact fun _ => Keeps.pure (List.nil_subset _)

theorem invoke_keeps (hD : Annotates D env) {e : Extension} {name : String} {place : Span}
    {node : NodeId} {params : List NodeId} (hget : env.extensions.get? name = some e) :
    D.Keeps env known (invoke e name place node params) fun _ => [] := by
  unfold invoke
  apply Keeps.skip (Keeps.question fun _ => rfl) fun inside => ?_
  apply Keeps.note.skip fun _ => ?_
  intro s _
  have hrun := hD.run hget ⟨inside, node⟩ params s.work s.cursor.rest
  refine ⟨?_, fun _ _ => knows_nil⟩
  rw [building_run, Action.mapError]
  cases hinvoke : e.invoke ⟨inside, node⟩ params s.work with
  | mk result w =>
    rw [hinvoke] at hrun
    cases result <;> exact hrun

/-- What follows a name follows for the extension of that name. -/
theorem extensionAt_keeps {β : Type} {place : Span} {name : String} {f : Extension → Parser β}
    {final : β → List Known}
    (hf : ∀ e, env.extensions.get? name = some e → D.Keeps env known (f e) final) :
    D.Keeps env known (extensionAt place name >>= f) final := by
  intro s hs
  rw [bind_run, Action.bind_run]
  unfold extensionAt
  rw [env_bind]
  cases hget : env.extensions.get? name with
  | none => exact ⟨Lawful.refl _, fun _ ha => by cases ha⟩
  | some e => exact hf e hget s hs

theorem annotationCall_yields (hD : Annotates D env) (h : Obeys D env read parameterKinds) :
    D.Yields env known (annotationCall read) .annotationCall := by
  unfold annotationCall
  apply Keeps.expect.skip fun t => ?_
  apply extensionName_keeps.skip fun name => ?_
  apply extensionAt_keeps fun e hget => ?_
  apply (parameters_keeps h).bind fun params => ?_
  intro s hs
  cases hkinds : params.mapM s.work.arena.kind with
  | error d =>
    rw [bind_run, Action.bind_run, atArena, hkinds]
    exact ⟨Lawful.refl _, fun _ ha => by cases ha⟩
  | ok found =>
    rw [atArena_bind hkinds]
    by_cases hfound : found = e.parameters
    · rw [if_pos hfound]
      subst hfound
      obtain ⟨hrel, his⟩ := hD.node t hget hkinds (hs.subset (List.subset_append_left _ _))
      let node := s.work.arena.next
      let made := s.work.arena.push t (.annotationCall name params)
      have hrest : D.Keeps env [.has node .annotationCall]
          (invoke e name t.span node params >>= fun _ => Pure.pure node)
          (fun id => [.has id .annotationCall]) :=
        (invoke_keeps hD hget).skip fun _ => Keeps.pure (List.Subset.refl _)
      obtain ⟨hrel', hok⟩ := hrest { s with work := { s.work with arena := made } }
        (knows_cons.mpr ⟨his, knows_nil⟩)
      exact ⟨Lawful.trans hrel hrel', hok⟩
    · rw [if_neg hfound]
      exact ⟨Lawful.refl _, fun _ ha => by cases ha⟩

/-! ## The knot -/

/-- A production keeps to the discipline when its nested ones do. -/
theorem step_yields {p : Production} (h : Obeys D env read p.nested)
    (hcalls : p = .annotationCall → D.Yields env [] (annotationCall read) .annotationCall) :
    D.Yields env [] (step read p) p.role := by
  cases p with
  | identifier => exact identifier_yields
  | type => exact type_yields (h .type (by decide))
  | pair => exact pair_yields (h .type (by decide))
  | intLiteral => exact intLiteral_yields
  | realLiteral => exact realLiteral_yields
  | listLiteral => exact listLiteral_yields (h .expression (by decide))
  | constructorCall => exact constructorCall_yields (h .expression (by decide))
  | staticCall => exact staticCall_yields (h .expression (by decide))
  | instanceCall => exact instanceCall_yields (h .expression (by decide))
  | expression => exact expression_yields h
  | parenthesized => exact parenthesized_yields (h .expression (by decide))
  | unary => exact unary_yields h
  | assignment => exact assignment_yields (h .type (by decide)) (h .expression (by decide))
  | returned => exact returned_yields (h .expression (by decide))
  | deferred => exact deferred_yields (h .block (by decide))
  | block => exact block_yields h
  | signature => exact signature_yields (h .type (by decide)) (h .pair (by decide))
  | method => exact method_yields (h .signature (by decide)) (h .block (by decide))
  | typeDef => exact typeDef_yields (h .pair (by decide))
  | within => exact within_yields
  | withApis => exact withApis_yields
  | api => exact api_yields h
  | program => exact program_yields (h .annotationCall (by decide)) (h .api (by decide))
  | annotationCall => exact hcalls rfl

/-- The productions without annotations keep to every discipline. -/
theorem readN_quiet_yields (depth : Nat) {p : Production} (hp : p.isQuiet) :
    D.Yields env [] (readN depth p) p.role := by
  induction depth generalizing p with
  | zero => exact Keeps.exhausted
  | succ depth ih =>
    apply step_yields
    · intro q hq
      exact ih (Production.isQuiet_nested p q hp hq)
    · rintro rfl
      cases hp

/-- All productions keep to a discipline that annotations keep to. -/
theorem readN_yields
    (hcalls : ∀ depth, (∀ p, D.Yields env [] (readN depth p) p.role) →
      D.Yields env [] (annotationCall (readN depth)) .annotationCall)
    (depth : Nat) (p : Production) : D.Yields env [] (readN depth p) p.role := by
  induction depth generalizing p with
  | zero => exact Keeps.exhausted
  | succ depth ih =>
    apply step_yields
    · exact fun q _ => ih q
    · exact fun _ => hcalls depth ih

/-- All productions keep to a discipline that the extensions keep to. -/
theorem readN_yields_of_annotates (hD : Annotates D env) (depth : Nat) (p : Production) :
    D.Yields env [] (readN depth p) p.role := by
  apply readN_yields
  intro depth hread
  exact annotationCall_yields hD fun q _ => hread q

omit [D.Lawful] in
/-- What the productions keep to on every bound they keep to as rules. -/
theorem parse_yields (h : ∀ depth p, D.Yields env [] (readN depth p) p.role) (p : Production) :
    D.Yields env [] p.parse p.role :=
  fun s hs => h (Production.depth s.cursor.rest.length) p s hs

end Grammar

end ApiSyntax
