/-
  ApiSyntax/Proofs/Grammar/SignFree.lean --- phrases without annotations have no signs.

  Every token of a phrase is of a kind that the phrase names for it, and no kind but one
  is that of the sign in front of an annotation.  So where no tokens are an annotation, a
  phrase has no such token; each phrase hands this on from its parts.
-/
import ApiSyntax.Proofs.Grammar.Operands
import ApiSyntax.Proofs.Grammar.StatementComplete

set_option autoImplicit false

namespace ApiSyntax.Language

open ApiSyntax.Grammar

variable {env : ParserEnv} {table : OperatorTable} {E G : Phrase}
  {seg rest : List Token} {t r u : Tree} {ts : List Tree} {x : Token} {kind : TokenKind}

/-- No token is the sign in front of an annotation. -/
def SignFree (seg : List Token) : Prop := ∀ t ∈ seg, t.is .annotationSign = false

namespace SignFree

theorem nil : SignFree [] := fun _ ht => absurd ht List.not_mem_nil

theorem append (h : SignFree seg) (h' : SignFree rest) : SignFree (seg ++ rest) :=
  List.forall_mem_append.mpr ⟨h, h'⟩

/-- A token of another kind is put in front. -/
theorem cons (hkind : kind.same .annotationSign = false) (hx : x.is kind) (h : SignFree seg) :
    SignFree (x :: seg) :=
  List.forall_mem_cons.mpr ⟨(Token.is_of_is hx _).trans hkind, h⟩

theorem one (hkind : kind.same .annotationSign = false) (hx : x.is kind) : SignFree [x] :=
  .cons hkind hx .nil

theorem keyword {word : String} (hx : x.isValue .keyword word) (h : SignFree seg) :
    SignFree (x :: seg) := .cons rfl (is_of_isValue hx) h

end SignFree

/-! ## Sequences -/

section Sequences

variable (hG : ∀ seg t, G seg t → SignFree seg)
include hG

theorem Optional.signFree {o : Option Tree} (h : Optional G seg o) : SignFree seg := by
  cases h with
  | none => exact .nil
  | some phrase => exact hG _ _ phrase

theorem Repeated.signFree (h : Repeated G seg ts) : SignFree seg := by
  induction h with
  | none => exact .nil
  | some first _ ih => exact (hG _ _ first).append ih

theorem Separated.signFree (h : Separated G seg ts) : SignFree seg := by
  induction h with
  | one phrase => exact hG _ _ phrase
  | more first hcomma _ ih => exact (hG _ _ first).append (.cons rfl hcomma ih)

theorem Enclosed.signFree {opening closing : TokenKind} (hopening : opening.same .annotationSign = false)
    (hclosing : closing.same .annotationSign = false) (h : Enclosed opening closing G seg ts) :
    SignFree seg := by
  cases h with
  | none hl hr => exact .cons hopening hl (.one hclosing hr)
  | some hl items hr =>
    exact .cons hopening hl ((items.signFree hG).append (.one hclosing hr))

theorem Behind.signFree {word : String} (h : Behind word G seg t) : SignFree seg := by
  cases h with
  | mk hk phrase => exact .keyword hk (hG _ _ phrase)

end Sequences

/-! ## Names and types -/

theorem TypeName.signFree (h : TypeName env seg t) : SignFree seg := by
  cases h with
  | mk ht => exact .one rfl ht

theorem Typing.signFree (h : Typing env seg t) : SignFree seg := by
  induction h with
  | named name => exact name.signFree
  | list hl _ hr ih => exact .cons rfl hl (ih.append (.one rfl hr))

theorem Pair.signFree (h : Pair env seg t) : SignFree seg := by
  cases h with
  | mk ht ty => exact .cons rfl ht ty.signFree

/-! ## Calls -/

section Calls

variable (hE : ∀ seg t, E seg t → SignFree seg)
include hE

theorem Link.signFree (h : Link E seg r t) : SignFree seg := by
  cases h with
  | mk hdot hname arguments => exact .cons rfl hdot (.cons rfl hname (arguments.signFree hE rfl rfl))

theorem Links.signFree (h : Links E seg r t) : SignFree seg := by
  induction h with
  | none => exact .nil
  | some first _ ih => exact (first.signFree hE).append ih

theorem ConstructorCall.signFree (h : ConstructorCall env E seg t) : SignFree seg := by
  cases h with
  | mk ht arguments links => exact .cons rfl ht ((arguments.signFree hE rfl rfl).append (links.signFree hE))

theorem StaticCall.signFree (h : StaticCall env E seg t) : SignFree seg := by
  cases h with
  | mk ht hdot hname arguments links =>
    exact .cons rfl ht (.cons rfl hdot (.cons rfl hname
      ((arguments.signFree hE rfl rfl).append (links.signFree hE))))

theorem InstanceCall.signFree (h : InstanceCall E seg t) : SignFree seg := by
  cases h with
  | mk ht first others => exact .cons rfl ht ((first.signFree hE).append (others.signFree hE))

end Calls

/-! ## Expressions -/

theorem Chained.signFree {O : Phrase} {c : Chain} (hO : ∀ seg t, O seg t → SignFree seg)
    (h : Chained table O seg c) : SignFree seg := by
  induction h with
  | last operand => exact hO _ _ operand
  | more operand hop _ _ ih => exact (hO _ _ operand).append (.cons rfl hop ih)

theorem Grouped.signFree {O : Phrase} (hO : ∀ seg t, O seg t → SignFree seg)
    (h : Grouped table O seg t) : SignFree seg := by
  cases h with
  | mk chain => exact chain.signFree hO

theorem Operand.signFree (h : Operand env table seg t) : SignFree seg := by
  refine Operand.induct (P := fun seg _ => SignFree seg) (fun p seg t hlayer => ?_) h
  have hO : ∀ seg t, Operand env table seg t ∧ SignFree seg → SignFree seg := fun _ _ h => h.2
  have hgrouped := fun seg t (h : Grouped table _ seg t) => h.signFree hO
  cases hlayer with
  | real ht => exact .one rfl ht
  | int ht => exact .one rfl ht
  | list elements => exact elements.signFree hgrouped rfl rfl
  | construct call => exact call.signFree hgrouped
  | static call => exact call.signFree hgrouped
  | instanceCall call => exact call.signFree hgrouped
  | name ht => exact .one rfl ht
  | parens hl inner hr => exact .cons rfl hl ((hgrouped _ _ inner).append (.one rfl hr))
  | unary hop _ operand => exact .cons rfl hop operand.2

theorem Expression.signFree (h : Expression env table seg t) : SignFree seg :=
  Grouped.signFree (fun _ _ => Operand.signFree) h

/-! ## Statements -/

section Statements

variable (hE : ∀ seg t, E seg t → SignFree seg)
include hE

theorem Return.signFree (h : Return E seg t) : SignFree seg := by
  cases h with
  | mk hk value => exact .keyword hk (hE _ _ value)

theorem Statement.signFree (h : Statement env E Nothing seg t) : SignFree seg := by
  -- A deferred block holds statements again.
  refine @Statement.rec env E Nothing (fun seg _ _ => SignFree seg) (fun seg _ _ => SignFree seg)
    (fun seg _ _ => SignFree seg) ?assignment ?deferred ?call ?static ?annotated ?body
    .nil (fun _ _ first others => first.append others) seg t h
  case assignment =>
    intro name eq seg rest ty v id nid hname typing heq value
    exact .cons rfl hname ((typing.signFree fun _ _ => Typing.signFree).append
      (.cons rfl heq (hE _ _ value)))
  case deferred => exact fun hk _ ih => .keyword hk ih
  case call => exact fun call => call.signFree hE
  case static => exact fun call => call.signFree hE
  case annotated => exact fun phrase => phrase.elim
  case body => exact fun hl _ hr ih => .cons rfl hl (ih.append (.one rfl hr))

end Statements

/-! ## Declarations -/

theorem Receiver.signFree {named : Option Tree} (h : Receiver env seg u named) : SignFree seg := by
  cases h with
  | static ty => exact ty.signFree
  | named ht ty _ => exact .cons rfl ht ty.signFree

theorem Returns.signFree {o : Option Tree} (h : Returns env seg o) : SignFree seg := by
  cases h with
  | omitted => exact .nil
  | empty hl hr => exact .cons rfl hl (.one rfl hr)
  | some hl ty hr => exact .cons rfl hl (ty.signFree.append (.one rfl hr))

theorem Signature.signFree (h : Signature env seg t) : SignFree seg := by
  cases h with
  | @mk l r t seg params rest u named result ps id nid hl receiver hr ht parameters returns =>
    have hbehind : SignFree (params ++ rest) :=
      (parameters.signFree (fun _ _ => Pair.signFree) rfl rfl).append returns.signFree
    have hnamed : SignFree (t :: (params ++ rest)) := by
      rw [List.any_cons, List.any_cons, List.any_nil, Bool.or_false, Bool.or_eq_true] at ht
      rcases ht with ht | ht
      · exact .cons rfl ht hbehind
      · exact .cons rfl ht hbehind
    exact .cons rfl hl (receiver.signFree.append (.cons rfl hr hnamed))

theorem Properties.signFree (h : Properties env seg ts) : SignFree seg := by
  cases h with
  | none => exact .nil
  | some pairs => exact pairs.signFree (fun _ _ => Pair.signFree) rfl rfl

theorem Traits.signFree (h : Traits env seg ts) : SignFree seg := by
  cases h with
  | none => exact .nil
  | some hk names => exact .keyword hk (names.signFree fun _ _ => TypeName.signFree)

theorem TypeDef.signFree (h : TypeDef env seg t) : SignFree seg := by
  cases h with
  | mk hk ht properties _ traits =>
    exact .keyword hk (.cons rfl ht (properties.signFree.append traits.signFree))

theorem Within.signFree (h : Within env seg t) : SignFree seg := by
  cases h with
  | mk hk name => exact .keyword hk name.signFree

theorem WithApis.signFree (h : WithApis env seg t) : SignFree seg := by
  cases h with
  | mk hk first others =>
    exact .keyword hk (first.signFree.append
      (others.signFree fun _ _ => Behind.signFree fun _ _ => TypeName.signFree))

section Declarations

variable (hE : ∀ seg t, E seg t → SignFree seg)
include hE

theorem Block.signFree (h : Block (Statement env E Nothing) E seg t) : SignFree seg := by
  have hstatement : ∀ seg t, Statement env E Nothing seg t → SignFree seg :=
    fun _ _ => Statement.signFree hE
  cases h with
  | plain body =>
    cases body with
    | mk hl statements hr => exact .cons rfl hl ((statements.signFree hstatement).append (.one rfl hr))
  | returning hl statements last hr =>
    exact .cons rfl hl (((statements.signFree hstatement).append (last.signFree hE)).append (.one rfl hr))

theorem Declaration.signFree (h : Declaration env E Nothing seg t) : SignFree seg := by
  cases h with
  | typeDef typeDef => exact typeDef.signFree
  | method method =>
    cases method with
    | mk signature block => exact signature.signFree.append (block.signFree hE)
  | annotated phrase => exact phrase.elim

theorem Api.signFree (h : Api env E Nothing seg t) : SignFree seg := by
  cases h with
  | mk hk ht within withApis hl declarations hr =>
    have hbody := (declarations.signFree fun _ _ => Declaration.signFree hE).append (.one rfl hr)
    exact .keyword hk (.cons rfl ht ((within.signFree fun _ _ => Within.signFree).append
      ((withApis.signFree fun _ _ => WithApis.signFree).append (.cons rfl hl hbody))))

end Declarations

end ApiSyntax.Language
