/-
  ApiSyntax/Proofs/Grammar/DeclaredOperators.lean --- where a declared operator can be used.

  An annotation makes the name of a signature an operator, and that may be the text of an
  operator or of a name.  Set between two names, or in front of one, the text of an operator
  is read as an operator of the table.  The text of a name is read as a name again, which
  nothing looks up: the expression is over in front of the next token.

  Main statement: `declared_application`.
-/
import ApiSyntax.Proofs.Grammar.Acceptance
import ApiSyntax.Proofs.Grammar.SignatureNames
import ApiSyntax.Proofs.Grammar.Unambiguous
import ApiSyntax.Proofs.Parser.Refusals
import ApiSyntax.Proofs.Tokenizer.Lexemes

set_option autoImplicit false

namespace ApiSyntax

open ApiSyntax.Arena ApiSyntax.Grammar ApiSyntax.Language ApiSyntax.Tokenizer

variable {env : ParserEnv} {table : OperatorTable} {fixity : Fixity} {kind : TokenKind}
  {symbol x y : String} {a b : List Char} {words : List Token}

/-! ## Texts -/

/-- The text is a single name. -/
def IsNameText (text : List Char) (name : String) : Prop :=
  ∃ token, builtin.tokenize text = .ok [token] ∧ token.is .identifier ∧ token.value = name

/-- A symbol between two texts, or in front of one. -/
def application (fixity : Fixity) (symbol : String) (a b : List Char) : List Char :=
  match fixity with
  | .infixOp => a ++ ' ' :: (symbol.toList ++ ' ' :: b)
  | .prefixOp => symbol.toList ++ ' ' :: a

/-- The words of a symbol between two names, or in front of one. -/
def applicationWords (fixity : Fixity) (kind : TokenKind) (symbol x y : String) :
    List (TokenKind × String) :=
  match fixity with
  | .infixOp => [(.identifier, x), (kind, symbol), (.identifier, y)]
  | .prefixOp => [(kind, symbol), (.identifier, x)]

/-- A symbol that is the text of some token is cut from the names beside it. -/
theorem tokenize_application (fixity : Fixity) (hsymbol : Lexeme kind symbol) (ha : IsNameText a x)
    (hb : IsNameText b y) :
    ∃ words, builtin.tokenize (application fixity symbol a b) = .ok words ∧
      List.Forall₂ Token.Shows words (applicationWords fixity kind symbol x y) := by
  obtain ⟨token, hcut, hkind, rfl⟩ := ha
  obtain ⟨token', hcut', hkind', rfl⟩ := hb
  have hx : Lexeme .identifier token.value := lexeme_of_mem hcut List.mem_cons_self hkind
  have hy : Lexeme .identifier token'.value := lexeme_of_mem hcut' List.mem_cons_self hkind'
  obtain ⟨lead, gap, rfl, hlead, hgap⟩ := tokenize_singleton hcut
  obtain ⟨lead', gap', rfl, hlead', hgap'⟩ := tokenize_singleton hcut'
  have hspace : ∀ c ∈ [' '], isBlank c = true := List.forall_mem_singleton.mpr (by decide)
  have hnone : ∀ c ∈ ([] : List Char), isBlank c = true := nofun
  cases fixity with
  | infixOp =>
    have hwords : ∀ word ∈ applicationWords .infixOp kind symbol token.value token'.value,
        Lexeme word.1 word.2 := by
      simp [applicationWords, hx, hy, hsymbol]
    have hspaced : Spaced
        ((applicationWords .infixOp kind symbol token.value token'.value).map (·.2.toList)) _ :=
      .cons (List.forall_mem_append.mpr ⟨hgap, hspace⟩) (by simp)
        (.cons (List.forall_mem_append.mpr ⟨hspace, hlead'⟩) (by simp)
          (.cons hgap' (fun hsome => absurd rfl hsome) .nil))
    obtain ⟨words, hall, hshown⟩ := tokenize_lexemes hwords hlead hspaced
    refine ⟨words, ?_, hshown⟩
    simpa [application] using hall
  | prefixOp =>
    have hwords : ∀ word ∈ applicationWords .prefixOp kind symbol token.value token'.value,
        Lexeme word.1 word.2 := by
      simp [applicationWords, hx, hsymbol]
    have hspaced : Spaced
        ((applicationWords .prefixOp kind symbol token.value token'.value).map (·.2.toList)) _ :=
      .cons (List.forall_mem_append.mpr ⟨hspace, hlead⟩) (by simp)
        (.cons hgap (fun hsome => absurd rfl hsome) .nil)
    obtain ⟨words, hall, hshown⟩ := tokenize_lexemes hwords hnone hspaced
    refine ⟨words, ?_, hshown⟩
    simpa [application] using hall

/-! ## Expressions -/

/-- An expression is read to a tree that differs from it in the handles alone. -/
theorem goal_expression_copy {t : Tree} (ht : Expression env table words t) :
    ∃ u s, Goal.expression.parse env (.start words table) = (.ok u.root, s) ∧ t.IsCopy u ∧
      s.work.arena.Holds u := by
  obtain ⟨root, s, hrun⟩ := goal_expression_complete ht
  obtain ⟨u, hu, rfl, hheld⟩ := goal_expression_sound hrun
  exact ⟨u, s, hrun, ht.isCopy hu, hheld⟩

/-- A leaf without slots is read as it is, if it is an operand. -/
theorem goal_expression_leaf {token : Token} {e : Expr}
    (hleaf : Operand env table [token] (.leaf default token e)) (hslots : e.children = []) :
    ∃ root s, Goal.expression.parse env (.start [token] table) = (.ok root, s) ∧
      s.work.arena.expr root = .ok e := by
  have hphrase : Expression env table [token] (.leaf default token e) := .mk (.last hleaf)
  obtain ⟨u, s, hrun, hcopy, hheld⟩ := goal_expression_copy hphrase
  obtain ⟨id, rfl⟩ := hcopy.eq_leaf hslots
  exact ⟨id, s, hrun, hheld.shows.expr⟩

/-- Behind a prefix operator of the table it is the operand. -/
theorem goal_expression_prefixed {op token : Token} {e : Expr} (hop : op.is .operator)
    (hdeclared : table.contains op.value .prefixOp)
    (hleaf : Operand env table [token] (.leaf default token e)) (hslots : e.children = []) :
    ∃ root r s, Goal.expression.parse env (.start [op, token] table) = (.ok root, s) ∧
      s.work.arena.expr root = .ok (.unary op.value r) ∧ s.work.arena.expr r = .ok e := by
  have hphrase : Expression env table [op, token] (.node default op (.unary op.value default)
      [.leaf default token e]) := .mk (.last (.unary hop hdeclared hleaf))
  obtain ⟨u, s, hrun, hcopy, hheld⟩ := goal_expression_copy hphrase
  cases hcopy with
  | node children =>
    obtain ⟨_, _, hoperand, hnone, rfl⟩ := List.forall₂_cons_left_iff.mp children
    cases hnone
    obtain ⟨r, rfl⟩ := hoperand.eq_leaf hslots
    refine ⟨_, r, s, hrun, hheld.shows.expr, ?_⟩
    exact (hheld.child (c := .leaf r token e) List.mem_cons_self).shows.expr

/-- Behind an expression nothing may stand, when it neither is an operator nor goes on with a
link. -/
theorem goal_expression_surplus {seg rest : List Token} {t : Tree} {token : Token}
    (ht : Expression env table seg t) (hends : ExpressionEnd (token :: rest)) :
    Refuses Goal.expression.parse env (.start (seg ++ token :: rest) table)
      (.unexpected token "end of input") := by
  have hread : Accepts (.fixed table) Production.expression.parse env
      (.start (seg ++ token :: rest) table) (token :: rest) AnyResult :=
    expression_accepted ht rfl hends
  exact hread.bind_refuses fun _ _ _ hrest _ => (Parser.expectEnd_refuses hrest).bind

/-! ## Symbols and names -/

/-- The node stands for a symbol between two names, or in front of one. -/
def Arena.Applies (arena : Arena) (fixity : Fixity) (symbol x y : String) (id : NodeId) : Prop :=
  match fixity with
  | .infixOp => ∃ l r, arena.expr id = .ok (.binary symbol l r false) ∧
      arena.expr l = .ok (.identifier x) ∧ arena.expr r = .ok (.identifier y)
  | .prefixOp => ∃ r, arena.expr id = .ok (.unary symbol r) ∧ arena.expr r = .ok (.identifier x)

/-- A symbol of the table whose token is an operator is read as an operator. -/
theorem application_operator (env : ParserEnv)
    (hwords : List.Forall₂ Token.Shows words (applicationWords fixity .operator symbol x y))
    (hdeclared : table.contains symbol fixity) :
    ∃ root s, Goal.expression.parse env (.start words table) = (.ok root, s) ∧
      s.work.arena.Applies fixity symbol x y root := by
  have hname : ∀ {token : Token}, token.is .identifier →
      Operand env table [token] (nameLeaf default token) := fun ht => .name ht .none
  cases fixity with
  | infixOp =>
    obtain ⟨l, _, ⟨hl, rfl⟩, hbehind, rfl⟩ := List.forall₂_cons_right_iff.mp hwords
    obtain ⟨op, _, ⟨hop, rfl⟩, hlast, rfl⟩ := List.forall₂_cons_right_iff.mp hbehind
    obtain ⟨r, _, ⟨hr, rfl⟩, hnone, rfl⟩ := List.forall₂_cons_right_iff.mp hlast
    cases hnone
    have hphrase : Expression env table [l, op, r] (.node default op
        (.binary op.value default default false) [nameLeaf default l, nameLeaf default r]) :=
      .mk (.more (hname hl) hop hdeclared (.last (hname hr)))
    obtain ⟨u, s, hrun, hcopy, hheld⟩ := goal_expression_copy hphrase
    cases hcopy with
    | node children =>
      obtain ⟨_, _, hleft, hlast, rfl⟩ := List.forall₂_cons_left_iff.mp children
      obtain ⟨_, _, hright, hnone, rfl⟩ := List.forall₂_cons_left_iff.mp hlast
      cases hnone
      obtain ⟨i, rfl⟩ := hleft.eq_leaf rfl
      obtain ⟨j, rfl⟩ := hright.eq_leaf rfl
      refine ⟨_, s, hrun, i, j, hheld.shows.expr, ?_, ?_⟩
      · exact (hheld.child (c := nameLeaf i l) List.mem_cons_self).shows.expr
      · exact (hheld.child (c := nameLeaf j r)
          (List.mem_cons_of_mem _ List.mem_cons_self)).shows.expr
  | prefixOp =>
    obtain ⟨op, _, ⟨hop, rfl⟩, hlast, rfl⟩ := List.forall₂_cons_right_iff.mp hwords
    obtain ⟨r, _, ⟨hr, rfl⟩, hnone, rfl⟩ := List.forall₂_cons_right_iff.mp hlast
    cases hnone
    obtain ⟨root, j, s, hrun, hexpr, hoperand⟩ :=
      goal_expression_prefixed hop hdeclared (hname hr) rfl
    exact ⟨root, s, hrun, j, hexpr, hoperand⟩

/-- A symbol whose token is a name ends the expression, whatever the table says. -/
theorem application_name (env : ParserEnv) (table : OperatorTable)
    (hwords : List.Forall₂ Token.Shows words (applicationWords fixity .identifier symbol x y)) :
    ∃ token, words[1]? = some token ∧
      (Goal.expression.parse env (.start words table)).1 =
        .error (.failed (.unexpected token "end of input")) := by
  obtain ⟨front, token, rest, rfl, hfront, htoken⟩ : ∃ front token rest,
      words = front :: token :: rest ∧ front.is .identifier ∧ token.is .identifier := by
    cases fixity with
    | infixOp =>
      obtain ⟨l, _, hl, hbehind, rfl⟩ := List.forall₂_cons_right_iff.mp hwords
      obtain ⟨name, _, hname, -, rfl⟩ := List.forall₂_cons_right_iff.mp hbehind
      exact ⟨l, name, _, rfl, hl.1, hname.1⟩
    | prefixOp =>
      obtain ⟨name, _, hname, hlast, rfl⟩ := List.forall₂_cons_right_iff.mp hwords
      obtain ⟨r, _, hr, -, rfl⟩ := List.forall₂_cons_right_iff.mp hlast
      exact ⟨name, r, _, rfl, hname.1, hr.1⟩
  have hphrase : Expression env table [front] (nameLeaf default front) :=
    .mk (.last (.name hfront .none))
  have hends : ExpressionEnd (token :: rest) := stops_of_is htoken (by decide)
  exact ⟨token, rfl, (goal_expression_surplus hphrase hends).result⟩

/-! ## Declared symbols -/

/-- An annotation that declares operators of a fixity is given one signature, and what that declares
is in the table behind the annotation.  If it is the text of an operator, then between two single
names, or in front of one, it is read as the operator over these names.  If it is the text of a
name, the reading fails at the second token. -/
theorem declared_application {source : List Char} {tokens : List Token} {s s' : ParserState}
    {depth : Nat} {id : NodeId} {params : List NodeId} (hext : env.extensions = .builtin)
    (hcut : builtin.tokenize source = .ok tokens) (hahead : ∀ t ∈ s.cursor.rest, t ∈ tokens)
    (hrun : readN depth .annotationCall env s = (.ok id, s'))
    (hnode : s'.work.arena.expr id = .ok (.annotationCall (declarerName fixity) params)) :
    ∃ sig symbol, params = [sig] ∧ s'.work.arena.Signs sig symbol ∧
      s'.work.operators.contains symbol fixity ∧
      ∀ a b x y, IsNameText a x → IsNameText b y → ∃ words,
        builtin.tokenize (application fixity symbol a b) = .ok words ∧
        let run := Goal.expression.parse env (.start words s'.work.operators)
        ((∃ root, run.1 = .ok root ∧ run.2.work.arena.Applies fixity symbol x y root) ↔
          Lexeme .operator symbol) ∧
        (Lexeme .operator symbol ∨ Lexeme .identifier symbol ∧ ∃ token, words[1]? = some token ∧
          run.1 = .error (.failed (.unexpected token "end of input"))) := by
  obtain ⟨sig, rfl, token, htoken, hkind, hsigns, hdeclared⟩ :=
    annotationCall_declares hext hrun hnode
  refine ⟨sig, token.value, rfl, hsigns, hdeclared, fun a b x y ha hb => ?_⟩
  have hmem := hahead token htoken
  by_cases hsymbol : Lexeme .operator token.value
  · obtain ⟨words, hall, hshown⟩ := tokenize_application fixity hsymbol ha hb
    obtain ⟨root, u, hread, happlies⟩ := application_operator env hshown hdeclared
    refine ⟨words, hall, ⟨fun _ => hsymbol, fun _ => ⟨root, ?_⟩⟩, .inl hsymbol⟩
    rw [hread]
    exact ⟨rfl, happlies⟩
  · have hname : Lexeme .identifier token.value :=
      hkind.elim (lexeme_of_mem hcut hmem) fun hop => absurd (lexeme_of_mem hcut hmem hop) hsymbol
    obtain ⟨words, hall, hshown⟩ := tokenize_application fixity hname ha hb
    obtain ⟨second, hsecond, hfailed⟩ := application_name env s'.work.operators hshown
    refine ⟨words, hall, ⟨?_, fun h => absurd h hsymbol⟩, .inr ⟨hname, second, hsecond, hfailed⟩⟩
    rintro ⟨root, hroot, -⟩
    rw [hfailed] at hroot
    cases hroot

/-- A name alone is a text of that name. -/
theorem isNameText (h : Lexeme .identifier x) : IsNameText x.toList x := by
  have hnone : ∀ c ∈ ([] : List Char), isBlank c = true := nofun
  obtain ⟨token, hcut, hkind, hvalue⟩ := h.tokenize hnone hnone
  rw [List.nil_append, List.append_nil] at hcut
  exact ⟨token, hcut, hkind, hvalue⟩

/-- The extension that an annotation names, and the name that its one signature declares. -/
def declaration? (arena : Arena) (id : NodeId) : Option (String × String) :=
  match arena.expr id with
  | .ok (.annotationCall name [sig]) =>
      ((Site.mk .program id).signatureName arena sig).toOption.map (name, ·)
  | _ => none

/-- A text is read as an annotation that declares a symbol. -/
theorem exists_declaration (source : List Char) (fixity : Fixity) (symbol : String)
    (h : ((builtin.tokenize source).toOption.any fun tokens =>
      Outcome.passes (Production.annotationCall.parse .standard (.start tokens .builtin))
        fun id s => declaration? s.work.arena id == some (declarerName fixity, symbol)) = true) :
    ∃ tokens id s sig, builtin.tokenize source = .ok tokens ∧
      Production.annotationCall.parse .standard (.start tokens .builtin) = (.ok id, s) ∧
      s.work.arena.expr id = .ok (.annotationCall (declarerName fixity) [sig]) ∧
      ∀ name, s.work.arena.Signs sig name → name = symbol := by
  cases hcut : builtin.tokenize source with
  | error d =>
    rw [hcut] at h
    cases h
  | ok tokens =>
    simp only [hcut, Except.toOption, Option.any_some] at h
    obtain ⟨id, s, hrun, htest⟩ := Outcome.exists_of_passes h
    have hfound := eq_of_beq htest
    unfold declaration? at hfound
    split at hfound
    · next name sig hnode =>
      obtain ⟨found, hname, heq⟩ := Option.map_eq_some_iff.mp hfound
      cases heq
      refine ⟨tokens, id, s, sig, rfl, hrun, hnode, fun name hsigns => ?_⟩
      rw [Site.signatureName_of_signs _ hsigns] at hname
      exact Option.some.inj hname
    · cases hfound

/-- A symbol that is new to the table is declared and used. -/
theorem declared_application_caret :
    ∃ tokens id s, builtin.tokenize "@Operator.Infix((Int) ^ (o Int) (Int))".toList = .ok tokens ∧
      Production.annotationCall.parse .standard (.start tokens .builtin) = (.ok id, s) ∧
      ∃ words root, builtin.tokenize "a ^ b".toList = .ok words ∧
        let run := Goal.expression.parse .standard (.start words s.work.operators)
        run.1 = .ok root ∧ run.2.work.arena.Applies .infixOp "^" "a" "b" root := by
  obtain ⟨tokens, id, s, sig, hcut, hrun, hnode, hsymbol⟩ :=
    exists_declaration "@Operator.Infix((Int) ^ (o Int) (Int))".toList .infixOp "^"
      (by decide +kernel)
  have ha : IsNameText "a".toList "a" := isNameText (lexeme_of_tokenize (by decide +kernel))
  have hb : IsNameText "b".toList "b" := isNameText (lexeme_of_tokenize (by decide +kernel))
  have hop : Lexeme .operator "^" := lexeme_of_tokenize (by decide +kernel)
  have hext : ParserEnv.standard.extensions = .builtin := rfl
  obtain ⟨sig', symbol, hsig, hsigns, -, happlied⟩ :=
    declared_application hext hcut (fun t ht => ht) hrun hnode
  cases hsig
  cases hsymbol symbol hsigns
  obtain ⟨words, hall, hused, -⟩ := happlied _ _ _ _ ha hb
  obtain ⟨root, hroot⟩ := hused.mpr hop
  exact ⟨tokens, id, s, hcut, hrun, words, root, hall, hroot⟩

/-- A name is declared, and cannot be used. -/
theorem declared_name_unused :
    ¬ ∀ (source : List Char) (tokens : List Token) (s s' : ParserState) (depth : Nat) (id : NodeId)
      (fixity : Fixity) (sig : NodeId) (symbol : String) (a b : List Char) (x y : String),
      builtin.tokenize source = .ok tokens → (∀ t ∈ s.cursor.rest, t ∈ tokens) →
      readN depth .annotationCall .standard s = (.ok id, s') →
      s'.work.arena.expr id = .ok (.annotationCall (declarerName fixity) [sig]) →
      s'.work.arena.Signs sig symbol → IsNameText a x → IsNameText b y →
      ∃ words root, builtin.tokenize (application fixity symbol a b) = .ok words ∧
        let run := Goal.expression.parse .standard (.start words s'.work.operators)
        run.1 = .ok root ∧ run.2.work.arena.Applies fixity symbol x y root := by
  intro hclaim
  obtain ⟨tokens, id, s, sig, hcut, hrun, hnode, hsymbol⟩ :=
    exists_declaration "@Operator.Infix((Int) plus (o Int))".toList .infixOp "plus"
      (by decide +kernel)
  have ha : IsNameText "a".toList "a" := isNameText (lexeme_of_tokenize (by decide +kernel))
  have hb : IsNameText "b".toList "b" := isNameText (lexeme_of_tokenize (by decide +kernel))
  have hname : Lexeme .identifier "plus" := lexeme_of_tokenize (by decide +kernel)
  have hext : ParserEnv.standard.extensions = .builtin := rfl
  obtain ⟨sig', hsig, token, -, -, hsigns, -⟩ := annotationCall_declares hext hrun hnode
  cases hsig
  rw [hsymbol _ hsigns] at hsigns
  obtain ⟨words, root, hall, hroot, -⟩ := hclaim _ tokens _ s _ id .infixOp sig "plus" _ _ _ _ hcut
    (fun t ht => ht) hrun hnode hsigns ha hb
  obtain ⟨words', hall', hshown⟩ := tokenize_application .infixOp hname ha hb
  cases hall.symm.trans hall'
  obtain ⟨second, -, hfailed⟩ := application_name .standard s.work.operators hshown
  cases hroot.symm.trans hfailed

end ApiSyntax
