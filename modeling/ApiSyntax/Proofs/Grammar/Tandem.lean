/-
  ApiSyntax/Proofs/Grammar/Tandem.lean --- the grammar, run twice side by side.

  Each production runs in tandem when the productions nested in it do, in the phase that is set
  for them.  Between brackets every production passes a token and ends as deep as it began.  An
  annotation and an API may also stand where no bracket has been opened yet: their own brackets
  are then the first ones.

  How the extension of an annotation is run is left open (`annotationBy`), so that a run may be
  set beside one whose extensions are told something else.
-/
import ApiSyntax.Proofs.Grammar.Disciplined
import ApiSyntax.Proofs.Grammar.ExpressionComplete
import ApiSyntax.Proofs.Parser.Tandem

set_option autoImplicit false

namespace ApiSyntax

/-- The phase in which the productions nested in a production are read. -/
def Production.inner (φ : Phase) : Production → Phase
  | block => .statement
  | api => .declaration
  | program => .program
  | _ => φ

/-- No production has a program in it. -/
theorem Production.ne_program_of_nested : ∀ p q : Production, q ∈ p.nested → q ≠ .program := by
  intro p q hq
  cases p <;> cases q <;> revert hq <;> decide

namespace Grammar

open ApiSyntax.Parser

/-! ## Annotations by what runs them -/

/-- What runs an extension: it is given the name, the place, the annotation node and the
parameters. -/
abbrev Invocation : Type := Extension → String → Span → NodeId → List NodeId → Parser Unit

/-- An annotation whose extension is run by `run`. -/
def annotationBy (run : Invocation) (read : Production → Parser NodeId) : Parser NodeId := do
  let t ← expect .annotationSign
  let name ← extensionName
  let e ← extensionAt t.span name
  let params ← parameters read e
  let found ← atArena fun a => params.mapM a.kind
  if found = e.parameters then
    let node ← alloc t (.annotationCall name params)
    run e name t.span node params
    return node
  else fail (parameterMismatch e name found t.span)

/-- What a production reads, where extensions are run by `run`. -/
def stepBy (run : Invocation) (read : Production → Parser NodeId) : Production → Parser NodeId
  | .annotationCall => annotationBy run read
  | p => step read p

theorem stepBy_invoke (read : Production → Parser NodeId) : stepBy invoke read = step read := by
  funext p
  cases p <;> rfl

/-- The extension runs at an annotation node, and it is told the phase `φ`. -/
def invokeIn (φ : Phase) : Invocation := fun e name place node params => do
  note (.invoking name φ place)
  building ((e.invoke ⟨φ, node⟩ params).mapError fun d => .failed (d.orPlaced place))

end Grammar

namespace Coupling

open Grammar

variable {C : Coupling} [C.Lawful] {φ : Phase} {m : Mark} {read read' : Production → Parser NodeId}

/-! ## Names and types -/

theorem identifier_tandem (hm : m.Peeks) :
    C.Tandem φ m identifier identifier fun _ => m.past :=
  (Tandem.expect .identifier hm).bind fun _ => .alloc

theorem namedType_tandem (hm : m.Peeks) :
    C.Tandem φ m namedType namedType fun _ => m.past := by
  refine (Tandem.expect .typeIdentifier hm).bind fun t => .environment ?_
  rw [Lawful.typeName]
  exact .alloc

theorem identifier_between : C.Between φ identifier identifier :=
  fun _ _ => identifier_tandem Mark.peeks_inside

theorem namedType_between : C.Between φ namedType namedType :=
  fun _ _ => namedType_tandem Mark.peeks_inside

theorem type_between (htype : C.Between φ (read .type) (read' .type)) :
    C.Between φ (type read) (type read') := by
  intro depth moved
  refine .ifCheck .lbracket Mark.peeks_inside (fun t ht => ?_) (namedType_between depth moved)
  refine .passing (Token.bracket_of_is ht) Mark.peeks_inside fun opening => ?_
  refine (htype (depth + 1) true).bind fun element => ?_
  exact (Tandem.expect .rbracket Mark.peeks_inside).bind fun _ => .alloc

theorem pair_between (htype : C.Between φ (read .type) (read' .type)) :
    C.Between φ (pair read) (pair read') := by
  intro depth moved
  refine (Tandem.startToken Mark.peeks_inside).bind fun start => ?_
  refine (identifier_between depth moved).bind fun name => (htype depth true).bind fun ty => ?_
  exact .alloc

theorem pairs_between (hpair : C.Between φ (read .pair) (read' .pair)) :
    C.Between φ (pairs read) (pairs read') :=
  fun _ _ => .parenthesizedList Mark.peeks_inside hpair rfl rfl

/-! ## Literals and calls -/

theorem intLiteral_between : C.Between φ intLiteral intLiteral := by
  refine fun depth moved => (Tandem.expect .integer Mark.peeks_inside).bind fun t => ?_
  cases readInt64 t.value.toList with
  | some value => exact .alloc
  | none => exact .fail

theorem realLiteral_between : C.Between φ realLiteral realLiteral := by
  refine fun depth moved => (Tandem.expect .real Mark.peeks_inside).bind fun t => ?_
  cases Binary64.read t.value.toList with
  | some value => exact .alloc
  | none => exact .fail

section

variable (hexpression : C.Between φ (read .expression) (read' .expression))
include hexpression

theorem listLiteral_between : C.Between φ (listLiteral read) (listLiteral read') := by
  intro depth moved
  refine (Tandem.startToken Mark.peeks_inside).bind fun start => ?_
  refine (Tandem.parenthesizedList Mark.peeks_inside hexpression rfl rfl).bind fun elements => ?_
  exact .alloc

theorem arguments_between : C.Between φ (arguments read) (arguments read') :=
  fun _ _ => .parenthesizedList Mark.peeks_inside hexpression rfl rfl

theorem callLink_between (receiver : NodeId) :
    C.Between φ (callLink read receiver) (callLink read' receiver) := by
  intro depth moved
  refine (Tandem.expect .dot Mark.peeks_inside).bind fun _ => ?_
  refine (identifier_between depth true).bind fun method => ?_
  refine (arguments_between hexpression depth true).bind fun args => ?_
  exact Tandem.atArena.bind fun start => .alloc

theorem chainRound_tandem (depth : Nat) (moved : Bool) (receiver : NodeId) :
    C.Tandem φ (.inside depth moved) (chainRound read receiver) (chainRound read' receiver)
      (Tandem.rounds (.inside depth true) fun _ : NodeId => .inside depth moved) := by
  refine .ifCheck .dot Mark.peeks_inside (fun t _ => .always ?_) (.pure rfl)
  exact (callLink_between hexpression receiver depth moved).bind fun call => .pure rfl

theorem callChain_tandem (depth : Nat) (receiver : NodeId) :
    C.Tandem φ (.inside depth true) (callChain read receiver) (callChain read' receiver)
      fun _ => .inside depth true :=
  .loop (fun receiver => chainRound_tandem hexpression depth true receiver) receiver

theorem constructorCall_between : C.Between φ (constructorCall read) (constructorCall read') := by
  intro depth moved
  refine (Tandem.startToken Mark.peeks_inside).bind fun start => ?_
  refine (namedType_between depth moved).bind fun receiver => ?_
  refine (arguments_between hexpression depth true).bind fun args => ?_
  refine Tandem.alloc.bind fun call => ?_
  exact callChain_tandem hexpression depth call

theorem staticCall_between : C.Between φ (staticCall read) (staticCall read') := by
  intro depth moved
  refine (Tandem.startToken Mark.peeks_inside).bind fun start => ?_
  refine (namedType_between depth moved).bind fun receiver => ?_
  refine (Tandem.expect .dot Mark.peeks_inside).bind fun _ => ?_
  refine (identifier_between depth true).bind fun method => ?_
  refine (arguments_between hexpression depth true).bind fun args => ?_
  refine Tandem.alloc.bind fun call => ?_
  exact callChain_tandem hexpression depth call

theorem instanceCall_between : C.Between φ (instanceCall read) (instanceCall read') := by
  intro depth moved
  refine (identifier_between depth moved).bind fun receiver => ?_
  refine (callLink_between hexpression receiver depth true).bind fun first => ?_
  exact callChain_tandem hexpression depth first

end

/-! ## Operators -/

theorem choice_between {options : List Production} {expected : String}
    (hread : ∀ p ∈ options, C.Between φ (read p) (read' p)) :
    C.Between φ (Parser.choice read options expected) (Parser.choice read' options expected) :=
  fun depth moved => .choice Mark.peeks_inside fun p hp => hread p hp depth moved

theorem operator_between (fixity : Fixity) : C.Between φ (operator fixity) (operator fixity) := by
  refine fun depth moved => (Tandem.expect .operator Mark.peeks_inside).bind fun t => ?_
  refine .state fun s s' hs => ?_
  rw [hs]
  exact Tandem.ofExcept.bind fun _ => .pure rfl

theorem expression_between
    (hoperands : ∀ p ∈ operands, C.Between φ (read p) (read' p))
    (hexpression : C.Between φ (read .expression) (read' .expression)) :
    C.Between φ (expression read) (expression read') := by
  intro depth moved
  refine (choice_between hoperands depth moved).bind fun left => ?_
  refine .ifCheck .operator Mark.peeks_inside (fun t _ => .always ?_) (.pure rfl)
  refine (operator_between .infixOp depth true).bind fun t => ?_
  refine (hexpression depth true).bind fun right => Tandem.alloc.bind fun id => ?_
  exact .building (settle_mirrors id)

theorem parenthesized_between (hexpression : C.Between φ (read .expression) (read' .expression)) :
    C.Between φ (Grammar.parenthesized read) (Grammar.parenthesized read') := by
  intro depth moved
  refine (hexpression.parenthesized rfl rfl depth moved).bind fun inner => ?_
  exact Tandem.atArena.bind fun e => Tandem.onArena.bind fun _ => .pure rfl

theorem unary_between (hoperands : ∀ p ∈ operands, C.Between φ (read p) (read' p)) :
    C.Between φ (unary read) (unary read') := by
  intro depth moved
  refine (operator_between .prefixOp depth moved).bind fun t => ?_
  exact (choice_between hoperands depth true).bind fun inner => .alloc

/-! ## Statements -/

theorem assignment_between (htype : C.Between φ (read .type) (read' .type))
    (hexpression : C.Between φ (read .expression) (read' .expression)) :
    C.Between φ (assignment read) (assignment read') := by
  intro depth moved
  refine (Tandem.startToken Mark.peeks_inside).bind fun start => ?_
  refine (identifier_between depth moved).bind fun name => ?_
  have hty : C.Tandem φ (.inside depth true)
      (do if ← Parser.check .assign then return none else return some (← read .type))
      (do if ← Parser.check .assign then return none else return some (← read' .type))
      fun _ => .inside depth true :=
    .ifCheck .assign Mark.peeks_inside (fun t _ => .always (.pure rfl))
      ((htype depth true).bind fun ty => .pure rfl)
  refine hty.bind fun ty => (Tandem.expect .assign Mark.peeks_inside).bind fun _ => ?_
  exact (hexpression depth true).bind fun value => .alloc

theorem returned_between (hexpression : C.Between φ (read .expression) (read' .expression)) :
    C.Between φ (returned read) (returned read') := by
  intro depth moved
  refine (Tandem.expectKeyword "return" Mark.peeks_inside).bind fun keyword => ?_
  exact (hexpression depth true).bind fun value => .alloc

theorem deferred_between (hblock : C.Between φ (read .block) (read' .block)) :
    C.Between φ (deferred read) (deferred read') := by
  intro depth moved
  refine (Tandem.expectKeyword "defer" Mark.peeks_inside).bind fun keyword => ?_
  refine (hblock depth true).bind fun block => Tandem.atArena.bind fun e => ?_
  cases e with
  | block body ret =>
    cases ret with
    | none => exact .alloc
    | some ret => exact Tandem.atArena.bind fun n => .fail
  | _ => exact .alloc

/-- One round of a block. -/
theorem blockRound_tandem (hreturned : C.Between φ (read .returned) (read' .returned))
    (hstatements : ∀ p ∈ statements, C.Between φ (read p) (read' p)) (opened : Span)
    (depth : Nat) (moved : Bool) (b : BlockSoFar) :
    C.Tandem φ (.inside (depth + 1) moved) (blockRound read opened b) (blockRound read' opened b)
      (Tandem.rounds (.inside (depth + 1) true) fun _ => .inside depth true) := by
  refine .remaining Mark.peeks_inside .fail fun t ts us _ => .cond (fun ht => ?_) fun _ => ?_
  · exact .passing (Token.bracket_of_is ht) Mark.peeks_inside fun _ => .pure rfl
  refine .cond (fun _ => .always .fail) fun _ => .cond (fun _ => ?_) fun _ => ?_
  · exact .always ((hreturned _ moved).bind fun ret => .pure rfl)
  · exact .always ((choice_between hstatements _ moved).bind fun id => .pure rfl)

/-- In a block the phase is that of statements. -/
theorem block_between
    (hreturned : C.Between .statement (read .returned) (read' .returned))
    (hstatements : ∀ p ∈ statements, C.Between .statement (read p) (read' p)) :
    C.Between φ (block read) (block read') := by
  intro depth moved
  refine (Tandem.expect .lbrace Mark.peeks_inside).bind fun opening => ?_
  refine Tandem.bind (.inPhase (.loop (fun b => ?_) _)) fun b => .alloc
  exact blockRound_tandem hreturned hstatements opening.span depth true b

/-! ## Signatures, methods and types -/

theorem receiver_tandem (htype : C.Between φ (read .type) (read' .type)) (depth : Nat) :
    C.Tandem φ (.inside depth true) (receiver read) (receiver read')
      fun _ => .inside depth true := by
  refine .ifCheck .identifier Mark.peeks_inside (fun t _ => .always ?_) ?_
  · refine (Tandem.startToken Mark.peeks_inside).bind fun start => ?_
    refine (identifier_between depth true).bind fun name => (htype depth true).bind fun ty => ?_
    exact Tandem.alloc.bind fun param => Tandem.duplicate.bind fun copy => .pure rfl
  · exact (htype depth true).bind fun ty => .pure rfl

theorem returnType_tandem (htype : C.Between φ (read .type) (read' .type)) (depth : Nat) :
    C.Tandem φ (.inside depth true) (returnType read) (returnType read')
      fun _ => .inside depth true := by
  refine .ifCheck .lparen Mark.peeks_inside (fun t ht => ?_) (.pure rfl)
  refine .passing (Token.bracket_of_is ht) Mark.peeks_inside fun _ => ?_
  refine .ifCheck .rparen Mark.peeks_inside (fun t ht => ?_) ?_
  · exact .passing (Token.bracket_of_is ht) Mark.peeks_inside fun _ => .pure rfl
  · refine (htype (depth + 1) true).bind fun ty => ?_
    exact (Tandem.expect .rparen Mark.peeks_inside).bind fun _ => .pure rfl

theorem signature_between (htype : C.Between φ (read .type) (read' .type))
    (hpair : C.Between φ (read .pair) (read' .pair)) :
    C.Between φ (signature read) (signature read') := by
  intro depth moved
  refine (Tandem.expect .lparen Mark.peeks_inside).bind fun opening => ?_
  refine (receiver_tandem htype (depth + 1)).bind fun r => ?_
  refine (Tandem.expect .rparen Mark.peeks_inside).bind fun _ => ?_
  refine (Tandem.expectAny (by decide) Mark.peeks_inside).bind fun t => ?_
  refine Tandem.alloc.bind fun name => (pairs_between hpair depth true).bind fun params => ?_
  exact (returnType_tandem htype depth).bind fun result => .alloc

theorem method_between (hsignature : C.Between φ (read .signature) (read' .signature))
    (hblock : C.Between φ (read .block) (read' .block)) :
    C.Between φ (method read) (method read') := by
  intro depth moved
  refine (Tandem.startToken Mark.peeks_inside).bind fun start => ?_
  exact (hsignature depth moved).bind fun head => (hblock depth true).bind fun body => .alloc

theorem duplicateAll_tandem (ids : List NodeId) :
    C.Tandem φ m (duplicateAll ids) (duplicateAll ids) fun _ => m := by
  induction ids with
  | nil => exact .pure rfl
  | cons id ids ih => exact Tandem.duplicate.bind fun copy => ih.bind fun copies => .pure rfl

theorem constructor_tandem (name : NodeId) (properties : List NodeId) :
    C.Tandem φ m (constructor name properties) (constructor name properties) fun _ => m := by
  refine Tandem.atArena.bind fun n => Tandem.duplicate.bind fun receiver => ?_
  refine Tandem.duplicate.bind fun result => Tandem.alloc.bind fun made => ?_
  exact (duplicateAll_tandem properties).bind fun params => .alloc

/-- Where the properties are left alone both runs go back to where they stood. -/
theorem properties_tandem (hpair : C.Between φ (read .pair) (read' .pair)) (depth : Nat) :
    C.Tandem φ (.inside depth true) (properties read) (properties read')
      fun _ => .inside depth true := by
  refine .marking fun c d hplace => ?_
  refine (Tandem.attempt (pairs_between hpair depth true)).bind fun o => ?_
  cases o with
  | none => exact .pure rfl
  | some found =>
    refine (Tandem.check .identifier Mark.peeks_inside).bind fun i => ?_
    refine (Tandem.check .operator Mark.peeks_inside).bind fun o => ?_
    refine .cond (fun _ => ?_) fun _ => .pure rfl
    have hmove : C.Tandem φ (.inside depth true) (moveTo c) (moveTo d)
        fun _ => .inside depth true :=
      fun _ _ hst => .done ⟨hplace, hst.phase, hst.phase', hst.work⟩
    exact hmove.bind fun _ => .pure rfl

theorem traits_tandem (depth : Nat) :
    C.Tandem φ (.inside depth true) traits traits fun _ => .inside depth true := by
  refine .ifKeyword "with" Mark.peeks_inside (fun t ht => ?_) (.pure rfl)
  refine .passing (Token.bracket_of_is ht) Mark.peeks_inside fun _ => ?_
  have hnames : C.Between φ (Parser.delimited namedType .comma)
      (Parser.delimited namedType .comma) :=
    namedType_between.delimited
  exact hnames depth true

theorem typeDef_between (hpair : C.Between φ (read .pair) (read' .pair)) :
    C.Between φ (typeDef read) (typeDef read') := by
  intro depth moved
  refine (Tandem.expectKeyword "type" Mark.peeks_inside).bind fun keyword => ?_
  refine (namedType_between depth true).bind fun name => ?_
  refine (properties_tandem hpair depth).bind fun found => Tandem.atArena.bind fun order => ?_
  have hmade : C.Tandem φ (.inside depth true)
      (do if found.isEmpty then return none else return some (← constructor name found))
      (do if found.isEmpty then return none else return some (← constructor name found))
      fun _ => .inside depth true :=
    .cond (fun _ => .pure rfl) fun _ => (constructor_tandem name found).bind fun made => .pure rfl
  exact hmade.bind fun made => (traits_tandem depth).bind fun extra => .alloc

/-! ## APIs -/

theorem within_tandem (hm : m.Peeks) : C.Tandem φ m within within fun _ => m.past := by
  have hpast : m.past.Peeks := hm
  refine (Tandem.expectKeyword "within" hm).bind fun keyword => ?_
  exact (namedType_tandem hpast).bind fun outer => .alloc

theorem withApis_tandem (hm : m.Peeks) : C.Tandem φ m withApis withApis fun _ => m.past := by
  have hpast : m.past.Peeks := hm
  refine (Tandem.expectKeyword "with" hm).bind fun keyword => ?_
  refine (namedType_tandem hpast).bind fun first => ?_
  refine Tandem.bind (h := fun _ => m.past) (.loop (fun apis => ?_) [first]) fun apis => .alloc
  refine .ifKeyword "with" hpast (fun t ht => ?_) (.pure rfl)
  refine .passing (Token.bracket_of_is ht) hpast fun _ => ?_
  exact (namedType_tandem hpast).bind fun outer => .pure rfl

/-- One round of the body of an API. -/
theorem apiRound_tandem (hdeclarations : ∀ p ∈ declarations, C.Between φ (read p) (read' p))
    (opened : Span) (depth : Nat) (moved : Bool) (body : List NodeId) :
    C.Tandem φ (.inside depth moved) (apiRound read opened body) (apiRound read' opened body)
      (Tandem.rounds (.inside depth true) fun _ => (Mark.inside depth true).turn .closing) := by
  refine .remaining Mark.peeks_inside .fail fun t ts us _ => .cond (fun ht => ?_) fun _ => ?_
  · exact .passing (Token.bracket_of_is ht) Mark.peeks_inside fun _ => .pure rfl
  · exact .always ((choice_between hdeclarations _ moved).bind fun id => .pure rfl)

/-- The header of an API may stand ahead of all brackets, and so may its clauses. -/
theorem api_tandem (hm : m.Peeks)
    (hwithin : C.Tandem φ m.past (read .within) (read' .within) fun _ => m.past)
    (hwithApis : C.Tandem φ m.past (read .withApis) (read' .withApis) fun _ => m.past)
    (hdeclarations : ∀ p ∈ declarations, C.Between .declaration (read p) (read' p)) :
    C.Tandem φ m (api read) (api read') fun _ => m.enclosed := by
  have hpast : m.past.Peeks := hm
  have hclause : ∀ {p q : Parser NodeId}, C.Tandem φ m.past p q (fun _ => m.past) →
      C.Tandem φ m.past (Parser.attempt p) (Parser.attempt q) fun _ => m.past :=
    fun h => (Tandem.attempt h).mono fun o => by cases o <;> exact Mark.le_refl _
  obtain ⟨depth, hinside⟩ := hm.turn_opening
  refine (Tandem.expectKeyword "api" hm).bind fun keyword => ?_
  refine (namedType_tandem hpast).bind fun name => ?_
  refine (hclause hwithin).bind fun inside => (hclause hwithApis).bind fun others => ?_
  refine (Tandem.expect .lbrace hpast).bind fun opening => ?_
  have hopened : m.past.turn TokenKind.lbrace.bracket = .inside depth true := hinside
  rw [hopened, Mark.enclosed, hinside]
  refine Tandem.bind (.inPhase (.loop (fun body => ?_) [])) fun body => .alloc
  exact apiRound_tandem hdeclarations opening.span depth true body

/-! ## Annotations -/

/-- A dot and a part of a name close no bracket. -/
theorem bracket_of_hasPart {ts : List Token} (h : hasPart ts) :
    ∃ dot part rest, ts = dot :: part :: rest ∧ dot.bracket = .none ∧ part.bracket = .none := by
  rcases ts with _ | ⟨dot, _ | ⟨part, rest⟩⟩
  · cases h
  · cases h
  · obtain ⟨hdot, hpart⟩ := Bool.and_eq_true_iff.mp h
    obtain ⟨kind, hkind, hpart⟩ := List.any_eq_true.mp hpart
    have hplain : ∀ kind ∈ partKinds, kind.bracket = .none := by decide
    refine ⟨dot, part, rest, rfl, Token.bracket_of_is hdot, ?_⟩
    rw [Token.bracket_of_is hpart, hplain kind hkind]

theorem hasPart_sameAhead {ts us : List Token} (h : SameAhead ts us) : hasPart ts = hasPart us := by
  obtain ⟨rfl, rfl⟩ | ⟨dot, ts', us', rfl, rfl⟩ := h.cases
  · rfl
  · cases hdot : dot.is .dot with
    | false => rcases ts' with _ | ⟨_, _⟩ <;> rcases us' with _ | ⟨_, _⟩ <;> simp [hasPart, hdot]
    | true =>
      have hnext := h.second dot ts' us' rfl rfl (by rw [Token.bracket_of_is hdot]; decide)
      rcases ts' with _ | ⟨part, ts'⟩
      · obtain rfl : us' = [] := List.head?_eq_none_iff.mp hnext.symm
        rfl
      · obtain ⟨us', rfl⟩ := List.head?_eq_some_iff.mp hnext.symm
        rfl

/-- One more part of a name is read from the same two tokens. -/
theorem partRound_tandem (hm : m.Peeks) (parts : List String) :
    C.Tandem φ m
      (do
        if hasPart (← Parser.remaining) then
          let _ ← Parser.consume
          return .more (parts ++ [(← Parser.consume).value])
        else return .done parts)
      (do
        if hasPart (← Parser.remaining) then
          let _ ← Parser.consume
          return .more (parts ++ [(← Parser.consume).value])
        else return .done parts)
      (Tandem.rounds m.past fun _ : List String => m) := by
  intro s t hst
  have hahead := Lawful.ahead hst.place hm
  rw [Parser.remaining_bind, Parser.remaining_bind, ← hasPart_sameAhead hahead]
  cases hpart : hasPart s.cursor.rest with
  | false => exact .done hst
  | true =>
    obtain ⟨dot, part, ts, hs, hdot, hplain⟩ := bracket_of_hasPart hpart
    obtain ⟨us, ht⟩ : ∃ us, t.cursor.rest = dot :: part :: us := by
      rw [hs] at hahead
      obtain ⟨us', hus'⟩ := List.head?_eq_some_iff.mp hahead.head.symm
      have hnext := hahead.second dot _ us' rfl hus' (by rw [hdot]; decide)
      obtain ⟨us, rfl⟩ := List.head?_eq_some_iff.mp hnext.symm
      exact ⟨us, hus'⟩
    have hmid := hst.pass hm hs ht
    rw [hdot] at hmid
    have hend := hmid.pass (show (m.turn .none).Peeks from hm) rfl rfl
    rw [hplain] at hend
    simp only [if_true, Parser.bind_run, Action.bind_run, Parser.consume_run hs,
      Parser.consume_run ht]
    exact .done hend

theorem extensionName_tandem (hm : m.Peeks) :
    C.Tandem φ m extensionName extensionName fun _ => m.past := by
  have hpast : m.past.Peeks := hm
  refine (Tandem.expectAny (by decide) hm).bind fun first => ?_
  refine Tandem.bind (h := fun _ => m.past) (.loop (fun parts => ?_) [first.value])
    fun parts => .pure rfl
  exact partRound_tandem hpast parts

/-- Both runs know the same extensions. -/
theorem extensionAt_tandem {f g : Extension → Parser NodeId} {place : Span} {name : String}
    {h : NodeId → Mark}
    (hf : ∀ e, C.first.extensions.get? name = some e → C.Tandem φ m (f e) (g e) h) :
    C.Tandem φ m (extensionAt place name >>= f) (extensionAt place name >>= g) h := by
  unfold extensionAt
  rw [bind_assoc, bind_assoc]
  refine .environment ?_
  rw [Lawful.extensions]
  cases hget : C.first.extensions.get? name with
  | none => exact fun _ _ hst => .stopped hst.lose
  | some e => exact hf e hget

/-- Behind a list of parameters its brackets are closed.  Where no bracket was opened before, an
empty list tells nothing: it may stand for brackets that are missing. -/
def listed (m : Mark) (params : List NodeId) : Mark :=
  if m.level = .ahead ∧ params = [] then ⟨.lost, true⟩ else m.enclosed

omit [C.Lawful] in
theorem listed_inside (depth : Nat) (moved : Bool) (params : List NodeId) :
    listed (.inside depth moved) params = .inside depth true := by
  have hopen : ¬((Mark.inside depth moved).level = .ahead ∧ params = []) := fun h => nomatch h.1
  rw [listed, if_neg hopen]
  rfl

theorem listed_le (m : Mark) (params : List NodeId) : listed m params ≤ m.enclosed := by
  unfold listed
  split
  · exact ⟨.inl rfl, fun _ => rfl⟩
  · exact Mark.le_refl _

theorem parameterList_tandem (hm : m.Peeks)
    (hparameters : ∀ p ∈ parameterKinds, C.Between φ (read p) (read' p)) :
    C.Tandem φ m (parameterList read) (parameterList read') fun _ => m.enclosed :=
  .parenthesizedList hm (choice_between hparameters) rfl rfl

/-- An extension without parameters may be followed by anything, so it is not looked at ahead of
all brackets. -/
theorem parameters_tandem (hm : m.Peeks) {e : Extension}
    (hsome : m.level = .ahead → e.parameters ≠ [])
    (hparameters : ∀ p ∈ parameterKinds, C.Between φ (read p) (read' p)) :
    C.Tandem φ m.past (parameters read e) (parameters read' e) (listed m) := by
  have hlist : C.Tandem φ m.past (parameterList read) (parameterList read') fun _ => m.enclosed :=
    parameterList_tandem hm hparameters
  have hpast : m.past.Peeks := hm
  refine .ifCheck .lparen hpast (fun t _ => .always ?_) ?_
  · refine .cond (fun hnone => ?_) fun _ => hlist.mono (listed_le m)
    obtain ⟨l, moved⟩ := m
    cases l with
    | ahead => exact absurd (List.isEmpty_iff.mp hnone) (hsome rfl)
    | inside depth =>
      refine (Tandem.attempt hlist).bind fun o => .pure ?_
      cases o <;> exact listed_inside depth moved _
    | behind | lost => exact hm.elim
  · obtain ⟨l, moved⟩ := m
    cases l with
    | ahead => exact .give ⟨.inl rfl, fun _ => rfl⟩
    | inside depth => exact .pure (listed_inside depth moved [])
    | behind | lost => exact hm.elim

/-- In the phase `φ` the extension is told that phase. -/
def Invokes (φ : Phase) (run : Invocation) : Prop :=
  ∀ e name place node params env s, s.phase = φ →
    run e name place node params env s = invokeIn φ e name place node params env s

theorem invokes_invoke : Invokes φ invoke := by
  rintro e name place node params env s rfl
  rfl

theorem invokes_invokeIn : Invokes φ (invokeIn φ) := fun _ _ _ _ _ _ _ _ => rfl

variable {run run' : Invocation}

/-- The extension does the same in both runs. -/
theorem invocation_tandem (hrun : Invokes φ run) (hrun' : Invokes φ run') {e : Extension}
    {name : String} (hget : C.first.extensions.get? name = some e) (place : Span) (node : NodeId)
    (params : List NodeId) :
    C.Tandem φ m (run e name place node params) (run' e name place node params) fun _ => m := by
  intro s t hst
  rw [hrun _ _ _ _ _ _ _ hst.phase, hrun' _ _ _ _ _ _ _ hst.phase']
  have hnote : C.Tandem φ m (Parser.note (.invoking name φ place))
      (Parser.note (.invoking name φ place)) fun _ => m := .note rfl rfl
  refine hnote.bind (fun _ => .building ?_) s t hst
  exact (Lawful.invoke hget ⟨φ, node⟩ params).mapError fun d d' hd => by rw [hd]

/-- The name of an extension may stand ahead of all brackets if the extension has parameters. -/
theorem annotationBy_tandem (hm : m.Peeks)
    (hsome : m.level = .ahead → ∀ name e, C.first.extensions.get? name = some e →
      e.parameters ≠ [])
    (hrun : Invokes φ run) (hrun' : Invokes φ run')
    (hparameters : ∀ p ∈ parameterKinds, C.Between φ (read p) (read' p)) :
    C.Tandem φ m (annotationBy run read) (annotationBy run' read') fun _ => m.enclosed := by
  have hpast : m.past.Peeks := hm
  refine (Tandem.expect .annotationSign hm).bind fun t => ?_
  refine (extensionName_tandem hpast).bind fun name => extensionAt_tandem fun e hget => ?_
  refine (parameters_tandem hm (fun h => hsome h name e hget) hparameters).bind fun params => ?_
  have hfound : ∀ (a : Arena) found, params.mapM a.kind = .ok found → params = [] → found = [] := by
    rintro a found h rfl
    cases h
    rfl
  refine .answering _ hfound fun found hnone => .cond (fun hkinds => ?_) fun _ => .fail
  have hlisted : listed m params = m.enclosed := by
    refine if_neg ?_
    rintro ⟨hahead, hparams⟩
    exact hsome hahead name e hget (hkinds ▸ hnone hparams)
  rw [hlisted]
  refine Tandem.alloc.bind fun node => ?_
  exact (invocation_tandem hrun hrun' hget t.span node params).bind fun _ => .pure rfl

/-! ## Programs -/

/-- Tokens may be passed over, so the marks tell nothing of places; both runs pass over tokens or
neither does, and any event may be recorded that does not tell of a call. -/
structure Strict (C : Coupling) : Prop where
  anywhere {m m' : Mark} {c d : Cursor} (h : C.Places m c d) : C.Places m' c d
  permissive : C.first.config.permissive = C.second.config.permissive
  note {w v : Workspace} {e : Event} (h : C.Work w v) (hcall : e.call? = none) :
    C.Work { w with events := w.events.push e } { v with events := v.events.push e }

namespace Strict

variable {α : Type} {p q : Parser α} {h k : α → Mark} {m' : Mark}

omit [C.Lawful] in
/-- What ends alike at one mark does so at any. -/
theorem elsewhere (hstrict : Strict C) (hp : C.Tandem φ m p q h) : C.Tandem φ m' p q k := by
  intro s t hst
  have hends := hp s t ⟨hstrict.anywhere hst.place, hst.phase, hst.phase', hst.work⟩
  generalize p C.first s = r, q C.second t = r' at hends
  cases hends with
  | done meets => exact .done ⟨hstrict.anywhere meets.place, meets.phase, meets.phase', meets.work⟩
  | stopped meets => exact .stopped meets
  | spent hlenient => exact .spent hlenient

theorem noting (hstrict : Strict C) {e : Event} (hcall : e.call? = none) :
    C.Tandem φ m (Parser.note e) (Parser.note e) fun _ => m :=
  .building fun _ _ hwork => ⟨.ok rfl, hstrict.note hwork hcall⟩

/-- One round at the top level. -/
theorem executeRound (hstrict : Strict C) {ps : List Production}
    (hread : ∀ p ∈ ps, C.Between φ (read p) (read' p)) (nodes : List NodeId)
    {h : Parser.Round (List NodeId) (List NodeId) → Mark} :
    C.Tandem φ m (Parser.executeRound (ps.map (Production.ruleOf read)) nodes)
      (Parser.executeRound (ps.map (Production.ruleOf read')) nodes) h := by
  have hround : C.Tandem φ (.inside 0 true)
      (Parser.executeRound (ps.map (Production.ruleOf read)) nodes)
      (Parser.executeRound (ps.map (Production.ruleOf read')) nodes) fun _ => .inside 0 true := by
    refine .remaining Mark.peeks_inside (.pure rfl) fun t ts us hsame => ?_
    dsimp only
    rw [filter_ruleOf, filter_ruleOf, applies_sameAhead hsame]
    have hmem : ∀ p ∈ ps.filter (Parser.applies (t :: us)), C.Between φ (read p) (read' p) :=
      fun p hp => hread p (List.mem_of_mem_filter hp)
    generalize ps.filter (Parser.applies (t :: us)) = matching at hmem
    rcases matching with _ | ⟨p, _ | ⟨p', others⟩⟩
    rotate_left
    · refine .always ((hstrict.noting rfl).bind fun _ => ?_)
      exact (hmem p (List.mem_singleton_self p) 0 true).bind fun id => .pure rfl
    -- No production or several apply: the token is passed over, or the run fails.
    all_goals
      simp only [List.map_cons, List.map_nil, List.length_cons, List.length_map, List.length_nil,
        names_ruleOf, noRule_sameAhead hsame read read']
      refine .environment ?_
      rw [hstrict.permissive]
      refine .cond (fun _ => .passing rfl Mark.peeks_inside fun u => ?_) fun _ =>
        .always (.cond (fun _ => .fail) fun _ => (hstrict.noting rfl).bind fun _ => .fail)
      exact hstrict.elsewhere (m := m) (h := fun _ => m)
        ((hstrict.noting rfl).bind fun _ => .pure rfl)
  exact hstrict.elsewhere hround

/-- The program is tagged alike. -/
theorem tagAll (id : NodeId) (annotations : List NodeId) :
    C.Tandem φ m (tagAll id annotations) (tagAll id annotations) fun _ => m := by
  induction annotations with
  | nil => exact .pure rfl
  | cons annotation rest ih =>
    refine Tandem.atArena.bind fun e => ?_
    cases e with
    | annotationCall name params =>
      have htag : Action.Mirrors C.Work Eq Eq (Workspace.tag id ⟨name, some annotation⟩)
          (Workspace.tag id ⟨name, some annotation⟩) := by
        unfold Workspace.tag Workspace.edit
        exact onArena_mirrors _
      refine (Tandem.building (htag.mapError fun _ _ => ?_)).bind fun _ => ih
      exact congrArg Stop.failed
    | _ => exact ih

/-- The whole program. -/
theorem program (hstrict : Strict C)
    (hread : ∀ p ∈ Production.program.nested, C.Between .program (read p) (read' p))
    {h : NodeId → Mark} : C.Tandem φ m (program read) (program read') h := by
  have hprogram : C.Tandem φ (.inside 0 false) (Grammar.program read) (Grammar.program read')
      fun _ => .inside 0 false := by
    refine (Tandem.startToken Mark.peeks_inside).bind fun start => ?_
    have hnodes : C.Tandem .program (.inside 0 false)
        (Parser.execute ([.annotationCall, .api].map (Production.ruleOf read)))
        (Parser.execute ([.annotationCall, .api].map (Production.ruleOf read')))
        fun _ => .inside 0 false := .loop (fun nodes => hstrict.executeRound hread nodes) []
    refine hnodes.inPhase.bind fun nodes => Tandem.atArena.bind fun parts => ?_
    refine Tandem.alloc.bind fun id => ?_
    exact (tagAll id parts.1).bind fun _ => .pure rfl
  exact hstrict.elsewhere hprogram

end Strict

/-! ## The knot -/

/-- A production runs in tandem when those nested in it do, in the phase that it sets for them. -/
theorem stepBy_between {p : Production} (hp : p ≠ .program ∨ Strict C)
    (hrun : p = .annotationCall → Invokes φ run) (hrun' : p = .annotationCall → Invokes φ run')
    (hread : ∀ q ∈ p.nested, ∀ ψ, q.isQuiet ∨ ψ = p.inner φ → C.Between ψ (read q) (read' q)) :
    C.Between φ (stepBy run read p) (stepBy run' read' p) := by
  have hinner : ∀ q ∈ p.nested, C.Between (p.inner φ) (read q) (read' q) :=
    fun q hq => hread q hq _ (.inr rfl)
  cases p with
  | identifier => exact identifier_between
  | type => exact type_between (hinner .type (by decide))
  | pair => exact pair_between (hinner .type (by decide))
  | intLiteral => exact intLiteral_between
  | realLiteral => exact realLiteral_between
  | listLiteral => exact listLiteral_between (hinner .expression (by decide))
  | constructorCall => exact constructorCall_between (hinner .expression (by decide))
  | staticCall => exact staticCall_between (hinner .expression (by decide))
  | instanceCall => exact instanceCall_between (hinner .expression (by decide))
  | expression =>
    exact expression_between (fun q hq => hinner q (List.mem_cons_of_mem _ hq))
      (hinner .expression (by decide))
  | parenthesized => exact parenthesized_between (hinner .expression (by decide))
  | unary => exact unary_between hinner
  | assignment =>
    exact assignment_between (hinner .type (by decide)) (hinner .expression (by decide))
  | returned => exact returned_between (hinner .expression (by decide))
  | deferred => exact deferred_between (hinner .block (by decide))
  | block =>
    exact block_between (hinner .returned (by decide))
      fun q hq => hinner q (List.mem_cons_of_mem _ hq)
  | signature => exact signature_between (hinner .type (by decide)) (hinner .pair (by decide))
  | method => exact method_between (hinner .signature (by decide)) (hinner .block (by decide))
  | typeDef => exact typeDef_between (hinner .pair (by decide))
  | within => exact fun _ _ => within_tandem Mark.peeks_inside
  | withApis => exact fun _ _ => withApis_tandem Mark.peeks_inside
  | api =>
    refine fun depth moved => api_tandem Mark.peeks_inside ?_ ?_ fun q hq => ?_
    · exact hread .within (by decide) φ (.inl rfl) depth true
    · exact hread .withApis (by decide) φ (.inl rfl) depth true
    · exact hinner q (List.mem_cons_of_mem _ (List.mem_cons_of_mem _ hq))
  | program =>
    obtain hp | hstrict := hp
    · exact absurd rfl hp
    · exact fun _ _ => hstrict.program hinner
  | annotationCall =>
    exact fun _ _ => annotationBy_tandem Mark.peeks_inside (fun h => nomatch h) (hrun rfl)
      (hrun' rfl) hinner

/-- On bounds that are coupled, what a production reads runs in tandem with itself. -/
theorem readN_between {d d' : Nat} (hd : C.Bounds d d') {p : Production}
    (hp : p ≠ .program ∨ Strict C) : C.Between φ (readN d p) (readN d' p) := by
  induction d generalizing d' p φ with
  | zero =>
    obtain rfl | hlenient := hd.zero
    · exact fun _ _ => .exhausted
    · exact fun _ _ => .spent hlenient
  | succ d ih =>
    obtain ⟨d', rfl, hd'⟩ := hd.succ
    simp only [readN, ← stepBy_invoke]
    refine stepBy_between hp (fun _ => invokes_invoke) (fun _ => invokes_invoke)
      fun q hq ψ _ => ih hd' ?_
    exact .inl (Production.ne_program_of_nested p q hq)

/-- A clause of an API may stand ahead of all brackets. -/
theorem readN_clause_tandem {d d' : Nat} (hd : C.Bounds d d') (hm : m.Peeks) {p : Production}
    (hp : p = .within ∨ p = .withApis) :
    C.Tandem φ m (readN d p) (readN d' p) fun _ => m.past := by
  cases d with
  | zero =>
    obtain rfl | hlenient := hd.zero
    · exact .exhausted
    · exact .spent hlenient
  | succ d =>
    obtain ⟨d', rfl, -⟩ := hd.succ
    obtain rfl | rfl := hp
    · exact within_tandem hm
    · exact withApis_tandem hm

/-- What stands at the top level brings its own brackets. -/
theorem readN_topLevel_tandem {d d' : Nat} (hd : C.Bounds d d') (hm : m.Peeks)
    (hsome : m.level = .ahead → ∀ name e, C.first.extensions.get? name = some e →
      e.parameters ≠ []) {p : Production} (hp : p ∈ Production.program.nested) :
    C.Tandem φ m (readN d p) (readN d' p) fun _ => m.enclosed := by
  cases d with
  | zero =>
    obtain rfl | hlenient := hd.zero
    · exact .exhausted
    · exact .spent hlenient
  | succ d =>
    obtain ⟨d', rfl, hd'⟩ := hd.succ
    have hnested : ∀ {q ψ}, q ∈ p.nested → C.Between ψ (readN d q) (readN d' q) :=
      fun hq => readN_between hd' (.inl (Production.ne_program_of_nested p _ hq))
    simp only [Production.nested, List.mem_cons, List.not_mem_nil, or_false] at hp
    obtain rfl | rfl := hp
    · exact annotationBy_tandem hm hsome invokes_invoke invokes_invoke fun q hq => hnested hq
    · have hpast : m.past.Peeks := hm
      refine api_tandem hm (readN_clause_tandem hd' hpast (.inl rfl))
        (readN_clause_tandem hd' hpast (.inr rfl)) fun q hq => hnested ?_
      exact List.mem_cons_of_mem _ (List.mem_cons_of_mem _ hq)

end Coupling

end ApiSyntax
