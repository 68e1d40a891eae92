/-
  ApiSyntax/Proofs/Grammar/Likeness.lean --- the grammar keeps a likeness.

  Each production tracks itself when those that it reads do, so every bound on the depth gives
  a reader that does, and so does a larger bound in the second run.  The extensions that can be
  asked for must respect the likeness.
-/
import ApiSyntax.Grammar.Basic
import ApiSyntax.Proofs.Parser.Likeness

set_option autoImplicit false

namespace ApiSyntax.Likeness

open ApiSyntax.Grammar

variable {L : Likeness} [L.Lawful] {env : ParserEnv} {read read' : Production → Parser NodeId}

/-! ## Names and types -/

theorem identifier_moves : L.Moves env identifier identifier := by
  refine (Tracks.expect .identifier).bind fun t u htu => .alloc htu ?_
  rw [← (Lawful.alike htu).value]
  rfl

theorem namedType_moves : L.Moves env namedType namedType := by
  refine (Tracks.expect .typeIdentifier).bind fun t u htu => .environment (.alloc htu ?_)
  rw [← (Lawful.alike htu).value]
  rfl

section

variable (hread : ∀ p, L.Moves env (read p) (read' p))
include hread

theorem choice_moves (options : List Production) (expected : String) :
    L.Moves env (Parser.choice read options expected) (Parser.choice read' options expected) :=
  .choice fun p _ => hread p

theorem type_moves : L.Moves env (type read) (type read') := by
  refine (Tracks.check .lbracket).next fun c => .cond (fun _ => ?_) fun _ => namedType_moves
  refine Tracks.consume.bind fun t u htu => Tracks.next (hread .type) fun element => ?_
  exact (Tracks.expect .rbracket).bind fun _ _ _ => .alloc htu rfl

theorem pair_moves : L.Moves env (pair read) (pair read') := by
  refine Tracks.startToken.bind fun t u htu => Tracks.next identifier_moves fun name => ?_
  exact Tracks.next (hread .type) fun ty => .alloc htu rfl

theorem pairs_moves : L.MovesAll env (pairs read) (pairs read') :=
  .parenthesizedList (hread .pair) _ _ _

/-! ## Literals and calls -/

omit hread in
theorem invalidLiteral_fails {t u : Token} (h : L.Tokens t u) :
    L.Fails (invalidLiteral t) (invalidLiteral u) := by
  rw [invalidLiteral, invalidLiteral, (Lawful.alike h).value]
  exact (Fails.of rfl).placed (Lawful.span h)

omit hread in
theorem intLiteral_moves : L.Moves env intLiteral intLiteral := by
  refine (Tracks.expect .integer).bind fun t u htu => ?_
  rw [(Lawful.alike htu).value]
  cases readInt64 u.value.toList with
  | some value => exact .alloc htu rfl
  | none => exact .fail (invalidLiteral_fails htu)

omit hread in
theorem realLiteral_moves : L.Moves env realLiteral realLiteral := by
  refine (Tracks.expect .real).bind fun t u htu => ?_
  rw [(Lawful.alike htu).value]
  cases Binary64.read u.value.toList with
  | some value => exact .alloc htu rfl
  | none => exact .fail (invalidLiteral_fails htu)

theorem listLiteral_moves : L.Moves env (listLiteral read) (listLiteral read') := by
  refine Tracks.startToken.bind fun t u htu => ?_
  exact Tracks.next (.parenthesizedList (hread .expression) _ _ _) fun elements => .alloc htu rfl

theorem arguments_moves : L.MovesAll env (arguments read) (arguments read') :=
  .parenthesizedList (hread .expression) _ _ _

/-- A link starts at the token of its receiver, which corresponds in both arenas. -/
theorem callLink_moves (receiver : NodeId) :
    L.Moves env (callLink read receiver) (callLink read' (L.move receiver)) := by
  refine (Tracks.expect .dot).bind fun _ _ _ => Tracks.next identifier_moves fun selector => ?_
  refine Tracks.next (arguments_moves hread) fun args => ?_
  exact (Tracks.node receiver).bind fun m n hmn => .alloc hmn.token rfl

theorem callChain_moves (receiver : NodeId) :
    L.Moves env (callChain read receiver) (callChain read' (L.move receiver)) := by
  refine .loop (R := fun id id' => id' = L.move id) ?_ rfl
  rintro receiver _ rfl
  refine (Tracks.check .dot).next fun c => .cond (fun _ => ?_) fun _ => .pure (.done rfl)
  exact Tracks.next (callLink_moves hread receiver) fun call => .pure (.more rfl)

theorem constructorCall_moves : L.Moves env (constructorCall read) (constructorCall read') := by
  refine Tracks.startToken.bind fun t u htu => Tracks.next namedType_moves fun receiver => ?_
  refine Tracks.next (arguments_moves hread) fun args => Tracks.next (.alloc htu rfl) fun call => ?_
  exact callChain_moves hread call

theorem staticCall_moves : L.Moves env (staticCall read) (staticCall read') := by
  refine Tracks.startToken.bind fun t u htu => Tracks.next namedType_moves fun receiver => ?_
  refine (Tracks.expect .dot).bind fun _ _ _ => Tracks.next identifier_moves fun selector => ?_
  refine Tracks.next (arguments_moves hread) fun args => Tracks.next (.alloc htu rfl) fun call => ?_
  exact callChain_moves hread call

theorem instanceCall_moves : L.Moves env (instanceCall read) (instanceCall read') := by
  refine Tracks.next identifier_moves fun receiver => ?_
  exact Tracks.next (callLink_moves hread receiver) fun first => callChain_moves hread first

/-! ## Operators -/

theorem operand_moves : L.Moves env (operand read) (operand read') := choice_moves hread _ _

omit hread in
/-- Whether an operator is declared depends on its text and on the table. -/
theorem operator_tracks (fixity : Fixity) :
    L.Tracks env L.Tokens (operator fixity) (operator fixity) := by
  refine (Tracks.expect .operator).bind fun t u htu => Tracks.state.bind fun s s' hs => ?_
  have hget : Replies L.Fails Eq
      ((s.work.operators.get t.value fixity).mapError (·.placed t.span))
      ((s'.work.operators.get u.value fixity).mapError (·.placed u.span)) := by
    rw [hs.work.operators, (Lawful.alike htu).value]
    unfold OperatorTable.get
    split
    · exact .ok rfl
    · exact .error ((Fails.of rfl).placed (Lawful.span htu))
  exact (Tracks.ofExcept hget).bind fun _ _ _ => .pure htu

theorem infixTail_moves (left : NodeId) :
    L.Moves env (infixTail read left) (infixTail read' (L.move left)) := by
  refine (operator_tracks .infixOp).bind fun t u htu => ?_
  refine Tracks.next (hread .expression) fun right => ?_
  rw [← (Lawful.alike htu).value]
  exact Tracks.next (.alloc htu rfl) fun id => .building (settle_tracks id)

theorem expression_moves : L.Moves env (expression read) (expression read') := by
  refine Tracks.next (operand_moves hread) fun left => (Tracks.check .operator).next fun c => ?_
  exact .cond (fun _ => infixTail_moves hread left) fun _ => .pure rfl

omit hread [L.Lawful] in
theorem enclose_rename (e : Expr) :
    (Grammar.Expr.enclose e).rename L.move = Grammar.Expr.enclose (e.rename L.move) := by
  cases e <;> rfl

theorem parenthesized_moves :
    L.Moves env (Grammar.parenthesized read) (Grammar.parenthesized read') := by
  refine Tracks.next (.parenthesized (hread .expression) _ _) fun inner => ?_
  refine (Tracks.expr inner).next fun e => ?_
  have henclose : L.Tracks env (fun a b : Unit => b = a)
      (Parser.building (Workspace.onArena (.change (·.setExpr inner (Grammar.Expr.enclose e)))))
      (Parser.building (Workspace.onArena (.change
        (·.setExpr (L.move inner) (Grammar.Expr.enclose (e.rename L.move)))))) := by
    rw [← enclose_rename]
    exact .building (onArena_tracks fun _ _ h => .done rfl (h.setExpr inner _))
  exact henclose.next fun _ => .pure rfl

theorem unary_moves : L.Moves env (unary read) (unary read') := by
  refine (operator_tracks .prefixOp).bind fun t u htu => ?_
  refine Tracks.next (operand_moves hread) fun id => ?_
  rw [← (Lawful.alike htu).value]
  exact .alloc htu rfl

/-! ## Statements -/

theorem assignment_moves : L.Moves env (assignment read) (assignment read') := by
  refine Tracks.startToken.bind fun t u htu => Tracks.next identifier_moves fun name => ?_
  have hty : L.Tracks env (fun ty ty' => ty' = ty.map L.move)
      (do if ← Parser.check .assign then return none else return some (← read .type))
      (do if ← Parser.check .assign then return none else return some (← read' .type)) :=
    (Tracks.check .assign).next fun c =>
      .cond (fun _ => .pure rfl) fun _ => Tracks.next (hread .type) fun ty => .pure rfl
  refine hty.next fun ty => (Tracks.expect .assign).bind fun _ _ _ => ?_
  exact Tracks.next (hread .expression) fun value => .alloc htu rfl

theorem returned_moves : L.Moves env (returned read) (returned read') :=
  (Tracks.expectKeyword "return").bind fun _ _ htu =>
    Tracks.next (hread .expression) fun _ => .alloc htu rfl

theorem deferred_moves : L.Moves env (deferred read) (deferred read') := by
  refine (Tracks.expectKeyword "defer").bind fun t u htu => ?_
  refine Tracks.next (hread .block) fun inner => ?_
  refine (Tracks.expr inner).next fun e => ?_
  have hdeferred : L.Moves env (Parser.alloc t (.deferred inner))
      (Parser.alloc u (.deferred (L.move inner))) := .alloc htu rfl
  cases e with
  | block body ret =>
    cases ret with
    | none => exact hdeferred
    | some ret =>
      refine (Tracks.node ret).bind fun m n hmn => .fail ?_
      exact ((Fails.of rfl).placed (Lawful.span hmn.token)).hinted _
  | _ => exact hdeferred

theorem statement_moves : L.Moves env (statement read) (statement read') := choice_moves hread _ _

/-- What a block has read, in the second run. -/
def blockSoFar (L : Likeness) (b : BlockSoFar) : BlockSoFar :=
  ⟨b.body.map L.move, b.ret.map L.move⟩

omit hread [L.Lawful] in
theorem unclosedBlock_fails {opened opened' : Span} (h : L.Spans opened opened') :
    L.Fails (unclosedBlock opened) (unclosedBlock opened') := ⟨.unclosedBlock h, .some h, rfl⟩

/-- The opening brace is a position only: it is where an unclosed block is reported. -/
theorem blockRound_tracks {opened opened' : Span} (h : L.Spans opened opened') (b : BlockSoFar) :
    L.Tracks env
      (Tracks.Rounds (fun b b' => b' = blockSoFar L b) fun b b' => b' = blockSoFar L b)
      (blockRound read opened b) (blockRound read' opened' (blockSoFar L b)) := by
  refine Tracks.remaining.bind fun ts us hrest => ?_
  cases hrest with
  | nil => exact .fail (unclosedBlock_fails h)
  | @cons t u _ _ htu _ =>
    have halike : t.Alike u := Lawful.alike htu
    have hret : (blockSoFar L b).ret.isSome = b.ret.isSome := Option.isSome_map
    simp only [List.head?_cons]
    rw [halike.is .rbrace, halike.isValue .keyword "return", hret]
    refine .cond (fun _ => Tracks.consume.bind fun _ _ _ => .pure (.done rfl)) fun _ => ?_
    refine .cond (fun _ => .fail ?_) fun _ => ?_
    · exact ((Fails.of rfl).placed (Lawful.span htu)).hinted _
    refine .cond (fun _ => Tracks.next (hread .returned) fun ret => .pure (.more rfl)) fun _ => ?_
    refine Tracks.next (statement_moves hread) fun id => .pure (.more ?_)
    rw [blockSoFar, blockSoFar, List.map_append, List.map_singleton]

theorem block_moves : L.Moves env (block read) (block read') := by
  refine (Tracks.expect .lbrace).bind fun t u htu => ?_
  have hbody : L.Tracks env (fun b b' => b' = blockSoFar L b)
      (Parser.inPhase .statement (Parser.loop (blockRound read t.span) ⟨[], none⟩))
      (Parser.inPhase .statement (Parser.loop (blockRound read' u.span) ⟨[], none⟩)) := by
    refine .inPhase .statement (.loop (R := fun b b' => b' = blockSoFar L b) ?_ rfl)
    rintro b _ rfl
    exact blockRound_tracks hread (Lawful.span htu) b
  exact hbody.next fun b => .alloc htu rfl

/-! ## Signatures, methods and types -/

/-- A receiver in the second run. -/
def receiver (L : Likeness) (r : Receiver) : Receiver := ⟨L.move r.ty, r.named.map L.move⟩

theorem receiver_tracks : L.Tracks env (fun r r' => r' = receiver L r) (Grammar.receiver read)
    (Grammar.receiver read') := by
  refine (Tracks.check .identifier).next fun c => .cond (fun _ => ?_) fun _ => ?_
  · refine Tracks.startToken.bind fun t u htu => Tracks.next identifier_moves fun name => ?_
    refine Tracks.next (hread .type) fun ty => Tracks.next (.alloc htu rfl) fun param => ?_
    exact Tracks.next (.duplicate ty) fun copy => .pure rfl
  · exact Tracks.next (hread .type) fun ty => .pure rfl

theorem returnType_tracks : L.Tracks env (fun ty ty' => ty' = ty.map L.move) (returnType read)
    (returnType read') := by
  refine (Tracks.check .lparen).next fun c => .cond (fun _ => ?_) fun _ => .pure rfl
  refine Tracks.consume.bind fun _ _ _ => (Tracks.check .rparen).next fun c => ?_
  refine .cond (fun _ => Tracks.consume.bind fun _ _ _ => .pure rfl) fun _ => ?_
  refine Tracks.next (hread .type) fun ty => ?_
  exact (Tracks.expect .rparen).bind fun _ _ _ => .pure rfl

theorem signature_moves : L.Moves env (signature read) (signature read') := by
  refine (Tracks.expect .lparen).bind fun opening opening' hopening => ?_
  refine (receiver_tracks hread).next fun r => (Tracks.expect .rparen).bind fun _ _ _ => ?_
  refine (Tracks.expectAny [.identifier, .operator] true).bind fun t u htu => ?_
  rw [← (Lawful.alike htu).value]
  refine Tracks.next (.alloc htu rfl) fun name => Tracks.next (pairs_moves hread) fun params => ?_
  refine (returnType_tracks hread).next fun result => .alloc hopening ?_
  cases r with
  | mk ty named => cases named <;> rfl

theorem method_moves : L.Moves env (method read) (method read') := by
  refine Tracks.startToken.bind fun t u htu => Tracks.next (hread .signature) fun head => ?_
  exact Tracks.next (hread .block) fun body => .alloc htu rfl

omit hread [L.Lawful] in
theorem duplicateAll_moves (ids : List NodeId) :
    L.MovesAll env (duplicateAll ids) (duplicateAll (ids.map L.move)) := by
  induction ids with
  | nil => exact Tracks.pure rfl
  | cons id ids ih =>
    exact Tracks.next (.duplicate id) fun copy => Tracks.next ih fun copies => .pure rfl

omit hread [L.Lawful] in
theorem constructor_moves (name : NodeId) (properties : List NodeId) :
    L.Moves env (constructor name properties)
      (constructor (L.move name) (properties.map L.move)) := by
  refine (Tracks.node name).bind fun m n hmn => Tracks.next (.duplicate name) fun receiver => ?_
  refine Tracks.next (.duplicate name) fun result => ?_
  refine Tracks.next (.alloc hmn.token rfl) fun made => ?_
  exact Tracks.next (duplicateAll_moves properties) fun params => .alloc hmn.token rfl

omit hread [L.Lawful] in
theorem propertyName_replies {a b : Arena} (h : L.Arenas a b) (property : NodeId) :
    Replies L.Fails (fun name name' => name' = name) (propertyName a property)
      (propertyName b (L.move property)) := by
  refine (h.expr property).bind fun e e' he => ?_
  subst he
  cases e with
  | pair name ty =>
    refine (h.expr name).bind fun e e' he => ?_
    subst he
    cases e <;> exact .ok rfl
  | _ => exact .ok rfl

omit hread [L.Lawful] in
/-- The order of properties depends on the names that nodes hold. -/
theorem propertyOrder_replies {a b : Arena} (h : L.Arenas a b) (properties : List NodeId) :
    Replies L.Fails (fun order order' => order' = order) (propertyOrder a properties)
      (propertyOrder b (properties.map L.move)) := by
  have hnames := Replies.mapM (m := id) (propertyName_replies h) properties
  refine hnames.bind fun names names' hsame => ?_
  rw [List.map_id] at hsame
  subst hsame
  exact .ok rfl

theorem properties_moves : L.MovesAll env (properties read) (properties read') := by
  have hplace : L.Tracks env L.Places (Parser.atCursor id) (Parser.atCursor id) :=
    .atCursor fun _ _ h => h
  refine hplace.bind fun c d hcd => (Tracks.attempt (pairs_moves hread)).next fun o => ?_
  cases o with
  | none => exact .pure rfl
  | some found =>
    refine (Tracks.check .identifier).next fun i => (Tracks.check .operator).next fun o => ?_
    refine .cond (fun _ => ?_) fun _ => .pure rfl
    have hmove : L.Tracks env (fun a b => b = a) (moveTo c) (moveTo d) :=
      fun _ _ hst => .done rfl ⟨hcd, hst.phase, hst.work⟩
    exact hmove.next fun _ => .pure rfl

omit hread in
theorem traits_moves : L.MovesAll env traits traits := by
  refine (Tracks.checkKeyword "with").next fun c => .cond (fun _ => ?_) fun _ => .pure rfl
  exact Tracks.consume.bind fun _ _ _ => .delimited namedType_moves .comma

theorem typeDef_moves : L.Moves env (typeDef read) (typeDef read') := by
  refine (Tracks.expectKeyword "type").bind fun t u htu => ?_
  refine Tracks.next namedType_moves fun name => ?_
  refine Tracks.next (properties_moves hread) fun found => ?_
  have horder : L.Tracks env (fun order order' => order' = order)
      (Parser.atArena (propertyOrder · found))
      (Parser.atArena (propertyOrder · (found.map L.move))) :=
    .atArena fun a b h => propertyOrder_replies h found
  refine horder.next fun order => ?_
  have hmade : L.Tracks env (fun made made' => made' = made.map L.move)
      (do if found.isEmpty then return none else return some (← constructor name found))
      (do if (found.map L.move).isEmpty then return none
          else return some (← constructor (L.move name) (found.map L.move))) := by
    rw [List.isEmpty_map]
    exact .cond (fun _ => .pure rfl) fun _ =>
      Tracks.next (constructor_moves name found) fun made => .pure rfl
  exact hmade.next fun made => Tracks.next traits_moves fun extra => .alloc htu rfl

/-! ## APIs and programs -/

omit hread in
theorem within_moves : L.Moves env within within :=
  (Tracks.expectKeyword "within").bind fun _ _ htu =>
    Tracks.next namedType_moves fun _ => .alloc htu rfl

omit hread in
theorem withApis_moves : L.Moves env withApis withApis := by
  refine (Tracks.expectKeyword "with").bind fun t u htu => ?_
  refine Tracks.next namedType_moves fun first => ?_
  refine Tracks.next (m := List.map L.move) ?_ fun apis => .alloc htu rfl
  refine .loop (R := fun ids ids' => ids' = ids.map L.move) ?_ rfl
  rintro apis _ rfl
  refine (Tracks.checkKeyword "with").next fun c => .cond (fun _ => ?_) fun _ => .pure (.done rfl)
  refine Tracks.consume.bind fun _ _ _ => Tracks.next namedType_moves fun outer => .pure (.more ?_)
  rw [List.map_append, List.map_singleton]

theorem declaration_moves : L.Moves env (declaration read) (declaration read') :=
  choice_moves hread _ _

/-- What was read of a body before may be anything; a declaration is put behind it. -/
theorem apiRound_tracks {R : List NodeId → List NodeId → Prop} {opened opened' : Span}
    (h : L.Spans opened opened') {body body' : List NodeId} (hbody : R body body')
    (hmore : ∀ id, R (body ++ [id]) (body' ++ [L.move id])) :
    L.Tracks env (Tracks.Rounds R R) (apiRound read opened body)
      (apiRound read' opened' body') := by
  refine Tracks.remaining.bind fun ts us hrest => ?_
  cases hrest with
  | nil => exact .fail (unclosedBlock_fails h)
  | @cons t u _ _ htu _ =>
    simp only [List.head?_cons]
    rw [(Lawful.alike htu : t.Alike u).is .rbrace]
    refine .cond (fun _ => Tracks.consume.bind fun _ _ _ => .pure (.done hbody)) fun _ => ?_
    exact Tracks.next (declaration_moves hread) fun id => .pure (.more (hmore id))

theorem api_moves : L.Moves env (api read) (api read') := by
  refine (Tracks.expectKeyword "api").bind fun t u htu => Tracks.next namedType_moves fun name => ?_
  refine (Tracks.attempt (hread .within)).next fun inside => ?_
  refine (Tracks.attempt (hread .withApis)).next fun others => ?_
  refine (Tracks.expect .lbrace).bind fun opening opening' hopening => ?_
  have hbody : L.MovesAll env
      (Parser.inPhase .declaration (Parser.loop (apiRound read opening.span) []))
      (Parser.inPhase .declaration (Parser.loop (apiRound read' opening'.span) [])) := by
    refine .inPhase .declaration (.loop (R := fun ids ids' => ids' = ids.map L.move) ?_ rfl)
    rintro ids _ rfl
    refine apiRound_tracks hread (Lawful.span hopening) rfl fun id => ?_
    rw [List.map_append, List.map_singleton]
  exact Tracks.next hbody fun body => .alloc htu rfl

omit hread [L.Lawful] in
theorem separate_replies {a b : Arena} (h : L.Arenas a b) (ids : List NodeId) :
    Replies L.Fails (fun x y => y = (x.1.map L.move, x.2.map L.move)) (separate a ids)
      (separate b (ids.map L.move)) := by
  induction ids with
  | nil => exact .ok rfl
  | cons id ids ih =>
    refine (h.kind id).bind fun kind kind' hkind => ?_
    subst hkind
    refine ih.bind fun x y hxy => ?_
    subst hxy
    dsimp only
    split <;> exact .ok rfl

omit hread [L.Lawful] in
theorem tag_tracks (id : NodeId) (t : Tag) :
    L.Tracks env (fun a b => b = a) (Parser.working (Workspace.tag id t))
      (Parser.working (Workspace.tag (L.move id) (t.rename L.move))) := by
  refine .building (.ofMirrors (fun w v h => ?_) fun d d' hd => ⟨d, d', rfl, rfl, hd⟩)
  have hnode := h.arena.node id
  unfold Workspace.tag Workspace.edit Workspace.onArena Arena.tag
  dsimp only
  generalize w.arena.node id = m, v.arena.node (L.move id) = n at hnode
  cases hnode with
  | error hd => exact ⟨.error hd, h.arena, h.operators⟩
  | @ok m n hmn =>
    have htag : (n.tag? t.name).isSome = (m.tag? t.name).isSome := by
      rw [Node.tag?, Node.tag?, hmn.tags, List.find?_map, Option.isSome_map]
      rfl
    dsimp only [Except.map]
    rw [show (t.rename L.move).name = t.name from rfl, htag]
    split
    · exact ⟨.ok rfl, h.arena, h.operators⟩
    · refine ⟨.ok rfl, h.arena.update id fun m n hmn => ?_, h.operators⟩
      refine ⟨hmn.id, hmn.token, ?_, hmn.expr⟩
      rw [hmn.tags, List.map_append, List.map_singleton]

omit hread [L.Lawful] in
theorem tagAll_tracks (program : NodeId) (ids : List NodeId) :
    L.Tracks env (fun a b => b = a) (tagAll program ids)
      (tagAll (L.move program) (ids.map L.move)) := by
  induction ids with
  | nil => exact Tracks.pure rfl
  | cons id ids ih =>
    refine (Tracks.expr id).next fun e => ?_
    cases e with
    | annotationCall name params => exact (tag_tracks program ⟨name, some id⟩).next fun _ => ih
    | _ => exact ih

theorem program_moves : L.Moves env (program read) (program read') := by
  refine Tracks.startToken.bind fun t u htu => ?_
  refine Tracks.next (.inPhase .program (.execute fun p _ => hread p)) fun nodes => ?_
  have hseparate : L.Tracks env (fun x y => y = (x.1.map L.move, x.2.map L.move))
      (Parser.atArena (separate · nodes)) (Parser.atArena (separate · (nodes.map L.move))) :=
    .atArena fun a b h => separate_replies h nodes
  refine hseparate.next fun ⟨annotations, apis⟩ => Tracks.next (.alloc htu rfl) fun id => ?_
  exact (tagAll_tracks id annotations).next fun _ => .pure rfl

/-! ## Annotations -/

omit hread [L.Lawful] in
theorem hasPart_alike {ts us : List Token} (h : List.Forall₂ Token.Alike ts us) :
    hasPart ts = hasPart us := by
  cases h with
  | nil => rfl
  | cons ht hrest =>
    cases hrest with
    | nil => rfl
    | cons hu _ =>
      unfold hasPart
      dsimp only
      rw [ht.is .dot, hu.any_is partKinds]

omit hread in
theorem extensionName_tracks :
    L.Tracks env (fun a b => b = a) extensionName extensionName := by
  refine (Tracks.expectAny partKinds true).bind fun t u htu => ?_
  rw [(Lawful.alike htu).value]
  refine Tracks.next (m := id) ?_ fun parts => .pure rfl
  refine .loop (R := fun parts parts' => parts' = id parts) ?_ rfl
  rintro parts _ rfl
  refine Tracks.remaining.bind fun ts us hrest => ?_
  rw [hasPart_alike (alike_all hrest)]
  refine .cond (fun _ => Tracks.consume.bind fun _ _ _ => ?_) fun _ => .pure (.done rfl)
  refine Tracks.consume.bind fun t u htu => .pure (.more ?_)
  rw [(Lawful.alike htu).value]
  rfl

theorem parameterList_moves : L.MovesAll env (parameterList read) (parameterList read') :=
  .parenthesizedList (choice_moves hread _ _) _ _ _

theorem parameters_moves (e : Extension) :
    L.MovesAll env (parameters read e) (parameters read' e) := by
  refine (Tracks.check .lparen).next fun c => .cond (fun _ => ?_) fun _ => .pure rfl
  refine .cond (fun _ => ?_) fun _ => parameterList_moves hread
  refine (Tracks.attempt (parameterList_moves hread)).next fun params => .pure ?_
  cases params <;> rfl

variable (hextensions : env.extensions.Respects L)
include hextensions

omit hread [L.Lawful] in
/-- The extension of a name respects the likeness, wherever it is asked for. -/
theorem extensionAt_tracks {place place' : Span} (h : L.Spans place place') (name : String) :
    L.Tracks env (fun e e' => e' = e ∧ e.Respects L) (extensionAt place name)
      (extensionAt place' name) := by
  refine .environment ?_
  cases hget : env.extensions.get? name with
  | some e => exact .pure ⟨rfl, hextensions name e hget⟩
  | none => exact .fail ((Fails.of rfl).placed h)

omit hread hextensions [L.Lawful] in
theorem invoke_tracks {e : Extension} (he : e.Respects L) (name : String) {place place' : Span}
    (h : L.Spans place place') (node : NodeId) (params : List NodeId) :
    L.Tracks env (fun a b => b = a) (invoke e name place node params)
      (invoke e name place' (L.move node) (params.map L.move)) := by
  refine Tracks.phase.next fun inside => (Tracks.note _ _).next fun _ => ?_
  refine .building (.ofMirrors (R := fun a b => b = a) (fun w v hwv => ?_) fun d d' hd =>
    ⟨_, _, rfl, rfl, hd.orPlaced h⟩)
  obtain ⟨hreply, hstate⟩ := he ⟨inside, node⟩ params w v hwv
  exact ⟨hreply.imp fun _ _ => Eq.symm, hstate⟩

theorem annotationCall_moves : L.Moves env (annotationCall read) (annotationCall read') := by
  refine (Tracks.expect .annotationSign).bind fun t u htu => ?_
  refine extensionName_tracks.next fun name => ?_
  refine (extensionAt_tracks hextensions (Lawful.span htu) name).bind fun e e' ⟨he, hrespects⟩ => ?_
  subst he
  refine Tracks.next (parameters_moves hread e') fun params => ?_
  have hkinds : L.Tracks env (fun found found' => found' = found)
      (Parser.atArena fun a => params.mapM a.kind)
      (Parser.atArena fun a => (params.map L.move).mapM a.kind) := by
    refine .atArena fun a b h => ?_
    have hmapped := Replies.mapM (m := id) h.kind params
    simpa only [List.map_id] using hmapped
  refine hkinds.next fun found => .cond (fun _ => ?_) fun _ => ?_
  · refine Tracks.next (.alloc htu rfl) fun node => ?_
    exact (invoke_tracks hrespects name (Lawful.span htu) node params).next fun _ => .pure rfl
  · exact .fail ((Fails.of rfl).placed (Lawful.span htu))

/-! ## The grammar -/

/-- A production tracks itself when those that it reads do. -/
theorem step_moves (p : Production) : L.Moves env (step read p) (step read' p) := by
  cases p with
  | identifier => exact identifier_moves
  | type => exact type_moves hread
  | pair => exact pair_moves hread
  | intLiteral => exact intLiteral_moves
  | realLiteral => exact realLiteral_moves
  | listLiteral => exact listLiteral_moves hread
  | constructorCall => exact constructorCall_moves hread
  | staticCall => exact staticCall_moves hread
  | instanceCall => exact instanceCall_moves hread
  | expression => exact expression_moves hread
  | parenthesized => exact parenthesized_moves hread
  | unary => exact unary_moves hread
  | assignment => exact assignment_moves hread
  | returned => exact returned_moves hread
  | deferred => exact deferred_moves hread
  | block => exact block_moves hread
  | signature => exact signature_moves hread
  | method => exact method_moves hread
  | typeDef => exact typeDef_moves hread
  | within => exact within_moves
  | withApis => exact withApis_moves
  | api => exact api_moves hread
  | program => exact program_moves hread
  | annotationCall => exact annotationCall_moves hread hextensions

end

/-- On a bound that is no smaller every production tracks itself. -/
theorem readN_moves (hextensions : env.extensions.Respects L) {depth depth' : Nat}
    (h : depth ≤ depth') (p : Production) : L.Moves env (readN depth p) (readN depth' p) := by
  induction depth generalizing depth' p with
  | zero => exact Tracks.exhausted
  | succ depth ih =>
    obtain ⟨depth', rfl⟩ : ∃ k, depth' = k + 1 := ⟨depth' - 1, by omega⟩
    exact step_moves (ih (Nat.le_of_succ_le_succ h)) hextensions p

/-! ## Whole inputs -/

/-- As many tokens remain in both runs, so the bound on the depth is the same. -/
theorem parse_moves (hextensions : env.extensions.Respects L) (p : Production) :
    L.Moves env p.parse p.parse := by
  intro s t hst
  rw [Production.parse, Parser.grammar, Parser.grammar, hst.place.rest.length_eq]
  exact readN_moves hextensions (Nat.le_refl _) p s t hst

theorem goal_moves (hextensions : env.extensions.Respects L) (goal : Goal) :
    L.Moves env goal.parse goal.parse := by
  have hends : ∀ p : Production, L.Moves env
      (do
        let id ← p.parse
        Parser.expectEnd
        return id)
      (do
        let id ← p.parse
        Parser.expectEnd
        return id) :=
    fun p => Tracks.next (parse_moves hextensions p) fun id =>
      Tracks.expectEnd.next fun _ => .pure rfl
  cases goal with
  | program => exact parse_moves hextensions .program
  | expression => exact hends .expression
  | type => exact hends .type

end ApiSyntax.Likeness
