/-
  ApiSyntax/Proofs/Grammar/Language.lean --- the language, apart from its parser.

  A phrase relates a sequence of tokens to the syntax tree that it is read as.  The
  relations say which sequences belong to the language and what trees mirror them; they
  know nothing of lookahead, of alternatives that are given up, or of the order in which
  nodes are made, so the handles in a tree are left open.

  Expressions depend on the operators that are declared.  Statements and declarations
  take expressions `E` and annotations `A` as parameters.
-/
import ApiSyntax.Grammar.Declaration
import ApiSyntax.Proofs.Arena.Copy
import ApiSyntax.Proofs.Operators.Grouping

set_option autoImplicit false

namespace ApiSyntax.Language

/-- Tokens and the tree that they are read as. -/
abbrev Phrase := List Token → Tree → Prop

/-! ## Sequences -/

/-- A phrase that may be missing. -/
inductive Optional (G : Phrase) : List Token → Option Tree → Prop
  | none : Optional G [] none
  | some {seg : List Token} {t : Tree} (phrase : G seg t) : Optional G seg (some t)

/-- Phrases one after another. -/
inductive Repeated (G : Phrase) : List Token → List Tree → Prop
  | none : Repeated G [] []
  | some {seg rest : List Token} {t : Tree} {ts : List Tree} (first : G seg t)
      (others : Repeated G rest ts) : Repeated G (seg ++ rest) (t :: ts)

/-- One or more phrases with commas between them. -/
inductive Separated (G : Phrase) : List Token → List Tree → Prop
  | one {seg : List Token} {t : Tree} (phrase : G seg t) : Separated G seg [t]
  | more {seg rest : List Token} {comma : Token} {t : Tree} {ts : List Tree} (first : G seg t)
      (hcomma : comma.is .comma) (others : Separated G rest ts) :
      Separated G (seg ++ comma :: rest) (t :: ts)

/-- Phrases between two tokens, with commas between them; there may be none. -/
inductive Enclosed (opening closing : TokenKind) (G : Phrase) : List Token → List Tree → Prop
  | none {l r : Token} (hl : l.is opening) (hr : r.is closing) :
      Enclosed opening closing G [l, r] []
  | some {l r : Token} {seg : List Token} {ts : List Tree} (hl : l.is opening)
      (items : Separated G seg ts) (hr : r.is closing) :
      Enclosed opening closing G (l :: (seg ++ [r])) ts

/-- A phrase behind a keyword. -/
inductive Behind (word : String) (G : Phrase) : Phrase
  | mk {k : Token} {seg : List Token} {t : Tree} (hk : k.isValue .keyword word)
      (phrase : G seg t) : Behind word G (k :: seg) t

theorem Repeated.snoc {G : Phrase} {seg rest : List Token} {t : Tree} {ts : List Tree}
    (h : Repeated G seg ts) (ht : G rest t) : Repeated G (seg ++ rest) (ts ++ [t]) := by
  induction h with
  | none =>
    have hone := Repeated.some ht .none
    rwa [List.append_nil] at hone
  | some first _ ih =>
    rw [List.append_assoc]
    exact .some first ih

theorem Separated.snoc {G : Phrase} {seg rest : List Token} {comma : Token} {t : Tree}
    {ts : List Tree} (h : Separated G seg ts) (hcomma : comma.is .comma) (ht : G rest t) :
    Separated G (seg ++ comma :: rest) (ts ++ [t]) := by
  induction h with
  | one phrase => exact .more phrase hcomma (.one ht)
  | more first hcomma' _ ih =>
    rw [List.append_assoc, List.cons_append]
    exact .more first hcomma' ih

theorem Separated.of_mem {G : Phrase} {seg : List Token} {t : Tree} {ts : List Tree}
    (h : Separated G seg ts) (ht : t ∈ ts) : ∃ inner, G inner t := by
  induction h with
  | one phrase => exact ⟨_, List.mem_singleton.mp ht ▸ phrase⟩
  | more first _ _ ih =>
    rcases List.mem_cons.mp ht with rfl | ht
    · exact ⟨_, first⟩
    · exact ih ht

theorem Enclosed.of_mem {opening closing : TokenKind} {G : Phrase} {seg : List Token} {t : Tree}
    {ts : List Tree} (h : Enclosed opening closing G seg ts) (ht : t ∈ ts) :
    ∃ inner, G inner t := by
  cases h with
  | none => exact absurd ht List.not_mem_nil
  | some _ items _ => exact items.of_mem ht

/-! ## Names and types -/

/-- The tree of a plain name. -/
def nameLeaf (id : NodeId) (t : Token) : Tree := .leaf id t (.identifier t.value)

/-- The tree of a type name. -/
def typeLeaf (env : ParserEnv) (id : NodeId) (t : Token) : Tree :=
  .leaf id t (Grammar.typeName env t.value)

@[simp] theorem root_nameLeaf (id : NodeId) (t : Token) : (nameLeaf id t).root = id := rfl

@[simp] theorem root_typeLeaf (env : ParserEnv) (id : NodeId) (t : Token) :
    (typeLeaf env id t).root = id := rfl

/-- A plain name. -/
inductive Name : Phrase
  | mk {t : Token} {id : NodeId} (ht : t.is .identifier) : Name [t] (nameLeaf id t)

/-- A type name. -/
inductive TypeName (env : ParserEnv) : Phrase
  | mk {t : Token} {id : NodeId} (ht : t.is .typeIdentifier) : TypeName env [t] (typeLeaf env id t)

/-- A type name, or a type between brackets. -/
inductive Typing (env : ParserEnv) : Phrase
  | named {seg : List Token} {t : Tree} (name : TypeName env seg t) : Typing env seg t
  | list {l r : Token} {seg : List Token} {u : Tree} {id : NodeId} (hl : l.is .lbracket)
      (element : Typing env seg u) (hr : r.is .rbracket) :
      Typing env (l :: (seg ++ [r])) (.node id l (.listType u.root) [u])

/-- A name, then its type. -/
inductive Pair (env : ParserEnv) : Phrase
  | mk {t : Token} {seg : List Token} {u : Tree} {id nid : NodeId} (ht : t.is .identifier)
      (ty : Typing env seg u) :
      Pair env (t :: seg) (.node id t (.pair nid u.root) [nameLeaf nid t, u])

/-! ## Calls -/

/-- A dot, a method name and arguments behind a receiver. -/
inductive Link (E : Phrase) : List Token → Tree → Tree → Prop
  | mk {dot name : Token} {seg : List Token} {receiver : Tree} {args : List Tree}
      {id mid : NodeId} (hdot : dot.is .dot) (hname : name.is .identifier)
      (arguments : Enclosed .lparen .rparen E seg args) :
      Link E (dot :: name :: seg) receiver
        (.node id receiver.token (.instanceCall receiver.root mid (args.map Tree.root))
          (receiver :: nameLeaf mid name :: args))

/-- Links behind a receiver: each call is the receiver of the next. -/
inductive Links (E : Phrase) : List Token → Tree → Tree → Prop
  | none {receiver : Tree} : Links E [] receiver receiver
  | some {seg rest : List Token} {receiver call t : Tree} (first : Link E seg receiver call)
      (others : Links E rest call t) : Links E (seg ++ rest) receiver t

/-- A type name applied to arguments, then links. -/
inductive ConstructorCall (env : ParserEnv) (E : Phrase) : Phrase
  | mk {t : Token} {seg rest : List Token} {args : List Tree} {id tid : NodeId} {u : Tree}
      (ht : t.is .typeIdentifier) (arguments : Enclosed .lparen .rparen E seg args)
      (links : Links E rest
        (.node id t (.constructorCall tid (args.map Tree.root)) (typeLeaf env tid t :: args)) u) :
      ConstructorCall env E (t :: (seg ++ rest)) u

/-- A method of a type applied to arguments, then links. -/
inductive StaticCall (env : ParserEnv) (E : Phrase) : Phrase
  | mk {t dot name : Token} {seg rest : List Token} {args : List Tree} {id tid mid : NodeId}
      {u : Tree} (ht : t.is .typeIdentifier) (hdot : dot.is .dot) (hname : name.is .identifier)
      (arguments : Enclosed .lparen .rparen E seg args)
      (links : Links E rest
        (.node id t (.staticCall tid mid (args.map Tree.root))
          (typeLeaf env tid t :: nameLeaf mid name :: args)) u) :
      StaticCall env E (t :: dot :: name :: (seg ++ rest)) u

/-- A name and at least one link. -/
inductive InstanceCall (E : Phrase) : Phrase
  | mk {t : Token} {seg rest : List Token} {id : NodeId} {call u : Tree} (ht : t.is .identifier)
      (first : Link E seg (nameLeaf id t) call) (others : Links E rest call u) :
      InstanceCall E (t :: (seg ++ rest)) u

theorem Links.snoc {E : Phrase} {seg rest : List Token} {receiver call t : Tree}
    (h : Links E seg receiver call) (hlink : Link E rest call t) :
    Links E (seg ++ rest) receiver t := by
  induction h with
  | none =>
    have hone := Links.some hlink .none
    rwa [List.append_nil] at hone
  | some first _ ih =>
    rw [List.append_assoc]
    exact .some first (ih hlink)

/-! ## Expressions -/

/-- Operands with infix operators between them. -/
inductive Chained (table : OperatorTable) (O : Phrase) : List Token → Chain → Prop
  | last {seg : List Token} {t : Tree} (operand : O seg t) : Chained table O seg (.last t)
  | more {seg rest : List Token} {t : Tree} {op : Token} {id : NodeId} {c : Chain}
      (operand : O seg t) (hop : op.is .operator) (declared : table.contains op.value .infixOp)
      (others : Chained table O rest c) :
      Chained table O (seg ++ op :: rest) (.more t ⟨id, op, op.value⟩ c)

/-- A chain, grouped as the table says. -/
inductive Grouped (table : OperatorTable) (O : Phrase) : Phrase
  | mk {seg : List Token} {c : Chain} (chain : Chained table O seg c) :
      Grouped table O seg (c.group table).tree

/-- The tree between parentheses: a binary node becomes a unit. -/
def unit : Tree → Tree
  | .node id token expr children => .node id token (Grammar.Expr.enclose expr) children

/-- What stands between infix operators. -/
inductive Operand (env : ParserEnv) (table : OperatorTable) : Phrase
  | real {t : Token} {id : NodeId} {value : Binary64} (ht : t.is .real)
      (hvalue : Binary64.read t.value.toList = some value) :
      Operand env table [t] (.leaf id t (.realLiteral value))
  | int {t : Token} {id : NodeId} {value : Int} (ht : t.is .integer)
      (hvalue : readInt64 t.value.toList = some value) :
      Operand env table [t] (.leaf id t (.intLiteral value))
  | list {l : Token} {seg : List Token} {xs : List Tree} {id : NodeId}
      (elements : Enclosed .lbracket .rbracket (Grouped table (Operand env table)) (l :: seg) xs) :
      Operand env table (l :: seg) (.node id l (.listLiteral (xs.map Tree.root)) xs)
  | construct {seg : List Token} {t : Tree}
      (call : ConstructorCall env (Grouped table (Operand env table)) seg t) :
      Operand env table seg t
  | static {seg : List Token} {t : Tree}
      (call : StaticCall env (Grouped table (Operand env table)) seg t) : Operand env table seg t
  | name {t : Token} {id : NodeId} {rest : List Token} {u : Tree} (ht : t.is .identifier)
      (links : Links (Grouped table (Operand env table)) rest (nameLeaf id t) u) :
      Operand env table (t :: rest) u
  | parens {l r : Token} {seg : List Token} {t : Tree} (hl : l.is .lparen)
      (inner : Grouped table (Operand env table) seg t) (hr : r.is .rparen) :
      Operand env table (l :: (seg ++ [r])) (unit t)
  | unary {op : Token} {seg : List Token} {t : Tree} {id : NodeId} (hop : op.is .operator)
      (declared : table.contains op.value .prefixOp) (operand : Operand env table seg t) :
      Operand env table (op :: seg) (.node id op (.unary op.value t.root) [t])

/-- An expression. -/
def Expression (env : ParserEnv) (table : OperatorTable) : Phrase :=
  Grouped table (Operand env table)

/-- Parentheses leave no open binary node. -/
theorem openBinary?_unit (t : Tree) : (unit t).expr.openBinary? = none := by
  cases t with
  | node id token expr children => cases expr <;> rfl

theorem Links.openBinary?_eq {E : Phrase} {seg : List Token} {receiver t : Tree}
    (h : Links E seg receiver t) (hreceiver : receiver.expr.openBinary? = .none) :
    t.expr.openBinary? = .none := by
  induction h with
  | none => exact hreceiver
  | some first _ ih =>
    refine ih ?_
    cases first
    rfl

/-- An operand is no open binary node. -/
theorem Operand.openBinary?_eq {env : ParserEnv} {table : OperatorTable} {seg : List Token}
    {t : Tree} (h : Operand env table seg t) : t.expr.openBinary? = none := by
  cases h with
  | real => rfl
  | int => rfl
  | list => rfl
  | construct call =>
    cases call with
    | mk _ _ links => exact links.openBinary?_eq rfl
  | static call =>
    cases call with
    | mk _ _ _ _ links => exact links.openBinary?_eq rfl
  | name _ links => exact links.openBinary?_eq rfl
  | parens => exact openBinary?_unit _
  | unary => rfl

theorem Chained.operands_closed {env : ParserEnv} {table : OperatorTable} {seg : List Token}
    {c : Chain} (h : Chained table (Operand env table) seg c) :
    ∀ t ∈ c.operands, t.expr.openBinary? = none := by
  induction h with
  | last operand =>
    intro t ht
    exact List.mem_singleton.mp ht ▸ operand.openBinary?_eq
  | more operand _ _ _ ih =>
    intro t ht
    rcases List.mem_cons.mp ht with rfl | ht
    · exact operand.openBinary?_eq
    · exact ih t ht

/-- The operators of a chain are those that stand in the text. -/
theorem Chained.mem_operators {table : OperatorTable} {O : Phrase} {seg : List Token} {c : Chain}
    (h : Chained table O seg c) :
    ∀ x ∈ c.operators, ∃ t ∈ seg, t.is .operator ∧ t.value = x := by
  induction h with
  | last => exact fun x hx => (List.not_mem_nil hx).elim
  | @more seg rest t op id c _ hop _ _ ih =>
    intro x hx
    rcases List.mem_cons.mp hx with rfl | hx
    · exact ⟨op, List.mem_append_right seg List.mem_cons_self, hop, rfl⟩
    · obtain ⟨u, hu, hvalue⟩ := ih x hx
      exact ⟨u, List.mem_append_right seg (List.mem_cons_of_mem op hu), hvalue⟩

/-! ## Statements -/

/-- Statements between braces. -/
inductive Body (S : Phrase) : Phrase
  | mk {l r : Token} {seg : List Token} {body : List Tree} {id : NodeId} (hl : l.is .lbrace)
      (statements : Repeated S seg body) (hr : r.is .rbrace) :
      Body S (l :: (seg ++ [r])) (.node id l (.block (body.map Tree.root) none) body)

/-- The keyword and a value. -/
inductive Return (E : Phrase) : Phrase
  | mk {k : Token} {seg : List Token} {v : Tree} {id : NodeId} (hk : k.isValue .keyword "return")
      (value : E seg v) : Return E (k :: seg) (.node id k (.returned v.root) [v])

/-- Statements between braces, of which the last one may be a return statement. -/
inductive Block (S E : Phrase) : Phrase
  | plain {seg : List Token} {t : Tree} (body : Body S seg t) : Block S E seg t
  | returning {l r : Token} {seg rest : List Token} {body : List Tree} {ret : Tree} {id : NodeId}
      (hl : l.is .lbrace) (statements : Repeated S seg body) (last : Return E rest ret)
      (hr : r.is .rbrace) :
      Block S E (l :: ((seg ++ rest) ++ [r]))
        (.node id l (.block (body.map Tree.root) (some ret.root)) (body ++ [ret]))

/-- A statement other than a return statement. -/
inductive Statement (env : ParserEnv) (E A : Phrase) : Phrase
  | assignment {name eq : Token} {seg rest : List Token} {ty : Option Tree} {v : Tree}
      {id nid : NodeId} (hname : name.is .identifier) (typing : Optional (Typing env) seg ty)
      (heq : eq.is .assign) (value : E rest v) :
      Statement env E A (name :: (seg ++ eq :: rest))
        (.node id name (.assignment nid (ty.map Tree.root) v.root)
          (nameLeaf nid name :: (ty.toList ++ [v])))
  | deferred {k : Token} {seg : List Token} {t : Tree} {id : NodeId}
      (hk : k.isValue .keyword "defer") (body : Body (Statement env E A) seg t) :
      Statement env E A (k :: seg) (.node id k (.deferred t.root) [t])
  | call {seg : List Token} {t : Tree} (call : InstanceCall E seg t) : Statement env E A seg t
  | static {seg : List Token} {t : Tree} (call : StaticCall env E seg t) :
      Statement env E A seg t
  | annotated {seg : List Token} {t : Tree} (phrase : A seg t) : Statement env E A seg t

/-! ## Signatures and methods -/

/-- What stands between the first parentheses of a signature: the tree of the receiver slot, and
the parameter that names the receiver, if there is one. -/
inductive Receiver (env : ParserEnv) : List Token → Tree → Option Tree → Prop
  | static {seg : List Token} {u : Tree} (ty : Typing env seg u) : Receiver env seg u none
  | named {t : Token} {seg : List Token} {u v : Tree} {id nid : NodeId} (ht : t.is .identifier)
      (ty : Typing env seg u) (copy : u.IsCopy v) :
      Receiver env (t :: seg) v (some (.node id t (.pair nid u.root) [nameLeaf nid t, u]))

/-- The return type between the last parentheses of a signature, if there is any. -/
inductive Returns (env : ParserEnv) : List Token → Option Tree → Prop
  | omitted : Returns env [] none
  | empty {l r : Token} (hl : l.is .lparen) (hr : r.is .rparen) : Returns env [l, r] none
  | some {l r : Token} {seg : List Token} {u : Tree} (hl : l.is .lparen) (ty : Typing env seg u)
      (hr : r.is .rparen) : Returns env (l :: (seg ++ [r])) (some u)

/-- Receiver, name, parameters, possibly a return type.  The name may be an operator. -/
inductive Signature (env : ParserEnv) : Phrase
  | mk {l r t : Token} {seg params rest : List Token} {u : Tree} {named result : Option Tree}
      {ps : List Tree} {id nid : NodeId} (hl : l.is .lparen) (receiver : Receiver env seg u named)
      (hr : r.is .rparen) (ht : [TokenKind.identifier, .operator].any t.is)
      (parameters : Enclosed .lparen .rparen (Pair env) params ps)
      (returns : Returns env rest result) :
      Signature env (l :: (seg ++ r :: t :: (params ++ rest)))
        (.node id l
          (.signature nid u.root ((named.toList ++ ps).map Tree.root) (result.map Tree.root)
            named.isNone)
          (u :: nameLeaf nid t :: ((named.toList ++ ps) ++ result.toList)))

/-- A signature and its block. -/
inductive Method (env : ParserEnv) (E A : Phrase) : Phrase
  | mk {seg rest : List Token} {head body : Tree} {id : NodeId}
      (signature : Signature env seg head) (block : Block (Statement env E A) E rest body) :
      Method env E A (seg ++ rest)
        (.node id head.token (.method head.root body.root) [head, body])

/-! ## Types -/

/-- The place of the first property of each name, in the order of the names. -/
def propertyOrder (properties : List Tree) : List (String × Nat) :=
  (properties.map fun p => p.token.value).zipIdx.foldl
    (fun order entry => Grammar.insertFirst entry.1 entry.2 order) []

/-- The signature that makes values of a type with properties, over copies of the properties. -/
inductive Constructor (name : Tree) : List Tree → Option Tree → Prop
  | none : Constructor name [] none
  | some {properties params : List Tree} {receiver result : Tree} {id mid : NodeId}
      (hsome : properties ≠ []) (hreceiver : name.IsCopy receiver) (hresult : name.IsCopy result)
      (hparams : List.Forall₂ Tree.IsCopy properties params) :
      Constructor name properties (some
        (.node id name.token
          (.signature mid receiver.root (params.map Tree.root) (some result.root) true)
          (receiver :: .leaf mid name.token (.identifier Grammar.constructorName) ::
            (params ++ [result]))))

/-- The properties of a type between parentheses, or nothing. -/
inductive Properties (env : ParserEnv) : List Token → List Tree → Prop
  | none : Properties env [] []
  | some {seg : List Token} {ps : List Tree} (pairs : Enclosed .lparen .rparen (Pair env) seg ps) :
      Properties env seg ps

/-- The names of traits behind a keyword, or nothing. -/
inductive Traits (env : ParserEnv) : List Token → List Tree → Prop
  | none : Traits env [] []
  | some {k : Token} {seg : List Token} {ts : List Tree} (hk : k.isValue .keyword "with")
      (names : Separated (TypeName env) seg ts) : Traits env (k :: seg) ts

/-- A type: its name, its properties, the names of its traits. -/
inductive TypeDef (env : ParserEnv) : Phrase
  | mk {k t : Token} {seg rest : List Token} {ps ts : List Tree} {made : Option Tree}
      {id tid : NodeId} (hk : k.isValue .keyword "type") (ht : t.is .typeIdentifier)
      (properties : Properties env seg ps) (constructor : Constructor (typeLeaf env tid t) ps made)
      (traits : Traits env rest ts) :
      TypeDef env (k :: t :: (seg ++ rest))
        (.node id k
          (.typeDef tid (ps.map Tree.root) (propertyOrder ps) (made.map Tree.root)
            (ts.map Tree.root))
          (typeLeaf env tid t :: (ps ++ (made.toList ++ ts))))

/-! ## APIs and programs -/

/-- The keyword and the name of the surrounding API. -/
inductive Within (env : ParserEnv) : Phrase
  | mk {k : Token} {seg : List Token} {t : Tree} {id : NodeId} (hk : k.isValue .keyword "within")
      (name : TypeName env seg t) : Within env (k :: seg) (.node id k (.within t.root) [t])

/-- One or more times the keyword and the name of an API. -/
inductive WithApis (env : ParserEnv) : Phrase
  | mk {k : Token} {seg rest : List Token} {t : Tree} {ts : List Tree} {id : NodeId}
      (hk : k.isValue .keyword "with") (first : TypeName env seg t)
      (others : Repeated (Behind "with" (TypeName env)) rest ts) :
      WithApis env (k :: (seg ++ rest)) (.node id k (.withApis ((t :: ts).map Tree.root)) (t :: ts))

/-- What stands in the body of an API. -/
inductive Declaration (env : ParserEnv) (E A : Phrase) : Phrase
  | typeDef {seg : List Token} {t : Tree} (typeDef : TypeDef env seg t) :
      Declaration env E A seg t
  | method {seg : List Token} {t : Tree} (method : Method env E A seg t) :
      Declaration env E A seg t
  | annotated {seg : List Token} {t : Tree} (phrase : A seg t) : Declaration env E A seg t

/-- An API: its name, the APIs it refers to, its declarations. -/
inductive Api (env : ParserEnv) (E A : Phrase) : Phrase
  | mk {k t l r : Token} {inner outer seg : List Token} {inside others : Option Tree}
      {body : List Tree} {id tid : NodeId} (hk : k.isValue .keyword "api")
      (ht : t.is .typeIdentifier) (within : Optional (Within env) inner inside)
      (withApis : Optional (WithApis env) outer others) (hl : l.is .lbrace)
      (declarations : Repeated (Declaration env E A) seg body) (hr : r.is .rbrace) :
      Api env E A (k :: t :: (inner ++ (outer ++ l :: (seg ++ [r]))))
        (.node id k
          (.api tid (inside.map Tree.root) (others.map Tree.root) (body.map Tree.root))
          (typeLeaf env tid t :: (inside.toList ++ (others.toList ++ body))))

/-- A whole text: APIs up to the end. -/
inductive Program (env : ParserEnv) (E A : Phrase) : Phrase
  | mk {tokens : List Token} {apis : List Tree} {id : NodeId}
      (declared : Repeated (Api env E A) tokens apis) :
      Program env E A tokens
        (.node id (Cursor.start tokens).startToken (.program (apis.map Tree.root) []) apis)

end ApiSyntax.Language
