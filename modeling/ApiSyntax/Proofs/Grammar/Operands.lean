/-
  ApiSyntax/Proofs/Grammar/Operands.lean --- operands, one layer at a time.

  An operand contains expressions, and these contain operands.  `OperandBy` says what one
  layer looks like when the operands below it are taken from some phrase `O`; it carries
  the production that reads it, which the first tokens decide (`OperandBy.chosen`).  What
  one layer hands on from the operands below it holds of all operands (`Operand.induct`).
-/
import ApiSyntax.Proofs.Grammar.ExpressionComplete

set_option autoImplicit false

namespace ApiSyntax.Language

open ApiSyntax.Grammar ApiSyntax.Parser

variable {env : ParserEnv} {table : OperatorTable} {E E' O O' P : Phrase} {seg : List Token}
  {t u r : Tree} {ts : List Tree} {c : Chain} {opening closing : TokenKind}

/-! ## Phrases over other phrases -/

theorem Separated.mono (h : Separated E seg ts) (hE : ∀ seg t, E seg t → E' seg t) :
    Separated E' seg ts := by
  induction h with
  | one phrase => exact .one (hE _ _ phrase)
  | more first hcomma _ ih => exact .more (hE _ _ first) hcomma ih

theorem Enclosed.mono (h : Enclosed opening closing E seg ts) (hE : ∀ seg t, E seg t → E' seg t) :
    Enclosed opening closing E' seg ts := by
  cases h with
  | none hl hr => exact .none hl hr
  | some hl items hr => exact .some hl (items.mono hE) hr

theorem Link.mono (h : Link E seg r t) (hE : ∀ seg t, E seg t → E' seg t) : Link E' seg r t := by
  cases h with
  | mk hdot hname arguments => exact .mk hdot hname (arguments.mono hE)

theorem Links.mono (h : Links E seg r t) (hE : ∀ seg t, E seg t → E' seg t) :
    Links E' seg r t := by
  induction h with
  | none => exact .none
  | some first _ ih => exact .some (first.mono hE) ih

theorem ConstructorCall.mono (h : ConstructorCall env E seg t) (hE : ∀ seg t, E seg t → E' seg t) :
    ConstructorCall env E' seg t := by
  cases h with
  | mk ht arguments links => exact .mk ht (arguments.mono hE) (links.mono hE)

theorem StaticCall.mono (h : StaticCall env E seg t) (hE : ∀ seg t, E seg t → E' seg t) :
    StaticCall env E' seg t := by
  cases h with
  | mk ht hdot hname arguments links =>
    exact .mk ht hdot hname (arguments.mono hE) (links.mono hE)

theorem InstanceCall.mono (h : InstanceCall E seg t) (hE : ∀ seg t, E seg t → E' seg t) :
    InstanceCall E' seg t := by
  cases h with
  | mk ht first others => exact .mk ht (first.mono hE) (others.mono hE)

theorem Chained.mono (h : Chained table O seg c) (hO : ∀ seg t, O seg t → O' seg t) :
    Chained table O' seg c := by
  induction h with
  | last operand => exact .last (hO _ _ operand)
  | more operand hop declared _ ih => exact .more (hO _ _ operand) hop declared ih

theorem Grouped.mono (h : Grouped table O seg t) (hO : ∀ seg t, O seg t → O' seg t) :
    Grouped table O' seg t := by
  cases h with
  | mk chain => exact .mk (chain.mono hO)

/-- The operands of a chain are phrases. -/
theorem Chained.of_mem (h : Chained table O seg c) : ∀ t ∈ c.operands, ∃ inner, O inner t := by
  induction h with
  | last operand =>
    intro t ht
    exact ⟨_, List.mem_singleton.mp ht ▸ operand⟩
  | more operand _ _ _ ih =>
    intro t ht
    rcases List.mem_cons.mp ht with rfl | ht
    · exact ⟨_, operand⟩
    · exact ih t ht

/-! ## One layer -/

/-- An operand above operands of `O`, with the production that reads it. -/
inductive OperandBy (env : ParserEnv) (table : OperatorTable) (O : Phrase) : Production → Phrase
  | real {t : Token} {id : NodeId} {value : Binary64} (ht : t.is .real)
      (hvalue : Binary64.read t.value.toList = some value) :
      OperandBy env table O .realLiteral [t] (.leaf id t (.realLiteral value))
  | int {t : Token} {id : NodeId} {value : Int} (ht : t.is .integer)
      (hvalue : readInt64 t.value.toList = some value) :
      OperandBy env table O .intLiteral [t] (.leaf id t (.intLiteral value))
  | list {l : Token} {seg : List Token} {xs : List Tree} {id : NodeId}
      (elements : Enclosed .lbracket .rbracket (Grouped table O) (l :: seg) xs) :
      OperandBy env table O .listLiteral (l :: seg)
        (.node id l (.listLiteral (xs.map Tree.root)) xs)
  | construct {seg : List Token} {t : Tree} (call : ConstructorCall env (Grouped table O) seg t) :
      OperandBy env table O .constructorCall seg t
  | static {seg : List Token} {t : Tree} (call : StaticCall env (Grouped table O) seg t) :
      OperandBy env table O .staticCall seg t
  | instanceCall {seg : List Token} {t : Tree} (call : InstanceCall (Grouped table O) seg t) :
      OperandBy env table O .instanceCall seg t
  | name {t : Token} {id : NodeId} (ht : t.is .identifier) :
      OperandBy env table O .identifier [t] (nameLeaf id t)
  | parens {l r : Token} {seg : List Token} {t : Tree} (hl : l.is .lparen)
      (inner : Grouped table O seg t) (hr : r.is .rparen) :
      OperandBy env table O .parenthesized (l :: (seg ++ [r])) (unit t)
  | unary {op : Token} {seg : List Token} {t : Tree} {id : NodeId} (hop : op.is .operator)
      (declared : table.contains op.value .prefixOp) (operand : O seg t) :
      OperandBy env table O .unary (op :: seg) (.node id op (.unary op.value t.root) [t])

/-- The first tokens of an operand decide which production reads it. -/
theorem OperandBy.chosen {p : Production} (h : OperandBy env table O p seg t) :
    operands.find? (applies seg) = some p := by
  cases h with
  | real ht => exact find_real ht
  | int ht => exact find_integer ht
  | list elements =>
    obtain ⟨l, rest, hopen, hl⟩ := start_of_enclosed elements
    rw [hopen]
    exact find_list hl
  | construct call =>
    cases call with
    | mk ht arguments =>
      obtain ⟨l, rest, rfl, hl⟩ := start_of_enclosed arguments
      exact find_constructorCall ht hl
  | static call =>
    cases call with
    | mk ht hdot => exact find_staticCall ht hdot
  | instanceCall call =>
    cases call with
    | mk ht first =>
      cases first with
      | mk hdot => exact find_instanceCall ht hdot
  | name ht => exact find_identifier ht stops_nil
  | parens hl => exact find_parenthesized hl
  | unary hop => exact find_unary hop

theorem Operand.exists_by (h : Operand env table seg t) :
    ∃ p, OperandBy env table (Operand env table) p seg t := by
  cases h with
  | real ht hvalue => exact ⟨_, .real ht hvalue⟩
  | int ht hvalue => exact ⟨_, .int ht hvalue⟩
  | list elements => exact ⟨_, .list elements⟩
  | construct call => exact ⟨_, .construct call⟩
  | static call => exact ⟨_, .static call⟩
  | name ht links =>
    cases links with
    | none => exact ⟨_, .name ht⟩
    | some first others => exact ⟨_, .instanceCall (.mk ht first others)⟩
  | parens hl inner hr => exact ⟨_, .parens hl inner hr⟩
  | unary hop declared operand => exact ⟨_, .unary hop declared operand⟩

/-- What holds of an operand whenever it holds of the operands below it holds of all operands. -/
theorem Operand.induct
    (layer : ∀ p seg t,
      OperandBy env table (fun seg t => Operand env table seg t ∧ P seg t) p seg t → P seg t)
    (h : Operand env table seg t) : P seg t := by
  -- For each phrase that is nested in an operand: the same phrase over operands that satisfy `P`.
  let O : Phrase := fun seg t => Operand env table seg t ∧ P seg t
  refine @Operand.rec env table (fun seg t _ => P seg t)
    (fun seg ts _ => Enclosed .lbracket .rbracket (Grouped table O) seg ts)
    (fun seg t _ => ConstructorCall env (Grouped table O) seg t)
    (fun seg t _ => StaticCall env (Grouped table O) seg t)
    (fun seg r t _ => Links (Grouped table O) seg r t)
    (fun seg t _ => Grouped table O seg t)
    (fun seg ts _ => Separated (Grouped table O) seg ts)
    (fun seg ts _ => Enclosed .lparen .rparen (Grouped table O) seg ts)
    (fun seg r t _ => Link (Grouped table O) seg r t)
    (fun seg c _ => Chained table O seg c)
    ?real ?int ?list ?construct ?static ?name ?parens ?unary
    (fun hl hr => .none hl hr) (fun hl _ hr ih => .some hl ih hr)
    (fun ht _ _ args links => .mk ht args links)
    (fun ht hdot hname _ _ args links => .mk ht hdot hname args links)
    .none (fun _ _ first others => .some first others)
    (fun _ chain => .mk chain)
    (fun _ phrase => .one phrase) (fun _ hcomma _ first others => .more first hcomma others)
    (fun hl hr => .none hl hr) (fun hl _ hr ih => .some hl ih hr)
    (fun hdot hname _ args => .mk hdot hname args)
    (fun operand ih => .last ⟨operand, ih⟩)
    (fun operand hop declared _ ih others => .more ⟨operand, ih⟩ hop declared others)
    seg t h
  case real => exact fun ht hvalue => layer _ _ _ (.real ht hvalue)
  case int => exact fun ht hvalue => layer _ _ _ (.int ht hvalue)
  case list => exact fun _ elements => layer _ _ _ (.list elements)
  case construct => exact fun _ call => layer _ _ _ (.construct call)
  case static => exact fun _ call => layer _ _ _ (.static call)
  case name =>
    intro t id rest u ht _ links
    cases links with
    | none => exact layer _ _ _ (.name ht)
    | some first others => exact layer _ _ _ (.instanceCall (.mk ht first others))
  case parens => exact fun hl _ hr inner => layer _ _ _ (.parens hl inner hr)
  case unary => exact fun hop declared operand ih => layer _ _ _ (.unary hop declared ⟨operand, ih⟩)

end ApiSyntax.Language
