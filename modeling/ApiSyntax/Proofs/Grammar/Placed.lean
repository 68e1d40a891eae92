/-
  ApiSyntax/Proofs/Grammar/Placed.lean --- phrases and the order of their children.

  A tree that is read from a segment of tokens takes its own tokens from that segment, copies
  included.  So trees that are read from consecutive segments stand in that order, and what is
  read from the first token of a segment stands behind nothing in it.  `Placed` says this of a
  tree and `Row` of several; each phrase of the language hands it on.
-/
import ApiSyntax.Proofs.Arena.SourceOrder
import ApiSyntax.Proofs.Grammar.Operands
import ApiSyntax.Proofs.Grammar.Parentheses
import ApiSyntax.Proofs.Grammar.ProgramSound

set_option autoImplicit false

namespace ApiSyntax.Language

variable {env : ParserEnv} {table : OperatorTable} {E A G O : Phrase}
  {seg seg' rest : List Token} {t u v : Tree} {ts us : List Tree} {x : Token} {id : NodeId} {e : Expr}

/-! ## Trees in their places -/

/-- No token stands behind a later one. -/
def Sorted (seg : List Token) : Prop :=
  seg.Pairwise fun x y => x.span.offset ≤ y.span.offset

/-- The tree takes its tokens from the segment, and where these are sorted the children of its nodes
are in order; if `made` holds, it may be the constructor of a type. -/
structure PlacedAs (made : Prop) (seg : List Token) (t : Tree) : Prop where
  tokens : ∀ u ∈ t.subtrees, u.token ∈ seg
  arranged : Sorted seg →
    ∀ u ∈ t.subtrees, u.expr.Arranged (u = t ∧ made ∨ t.Makes u) Tree.NotBehind u.children

/-- The tree is in its place, and no constructor. -/
abbrev Placed : Phrase := PlacedAs False

/-- The trees take their tokens from the segment, and where these are sorted the trees are in order. -/
structure Row (seg : List Token) (ts : List Tree) : Prop where
  placed : ∀ t ∈ ts, Placed seg t
  order : Sorted seg → ts.Pairwise Tree.NotBehind

namespace PlacedAs

variable {made made' : Prop}

theorem widen (h : PlacedAs made seg t) (hsub : seg.Sublist seg') : PlacedAs made seg' t where
  tokens u hu := hsub.subset (h.tokens u hu)
  arranged hsorted := h.arranged (hsorted.sublist hsub)

theorem imp (h : PlacedAs made seg t) (hmade : made → made') : PlacedAs made' seg t where
  tokens := h.tokens
  arranged hsorted u hu := (h.arranged hsorted u hu).imp fun hroot =>
    hroot.imp_left fun hboth => ⟨hboth.1, hmade hboth.2⟩

/-- A node over placed trees is placed when its children are in order. -/
theorem node (hx : x ∈ seg)
    (hchildren : ∀ c ∈ ts, PlacedAs (∃ name properties order traits,
      e = .typeDef name properties order (some c.root) traits) seg c)
    (harranged : Sorted seg → e.Arranged made Tree.NotBehind ts) :
    PlacedAs made seg (.node id x e ts) where
  tokens u hu := by
    obtain rfl | ⟨c, hc, hu⟩ := Tree.mem_subtrees.mp hu
    · exact hx
    · exact (hchildren c hc).tokens u hu
  arranged hsorted u hu := by
    obtain rfl | ⟨c, hc, hu⟩ := Tree.mem_subtrees.mp hu
    · exact (harranged hsorted).imp fun hmade => .inl ⟨rfl, hmade⟩
    · refine ((hchildren c hc).arranged hsorted u hu).imp fun hroot => .inr ?_
      obtain ⟨rfl, hmade⟩ | hbelow := hroot
      · exact ⟨_, Tree.self_mem_subtrees _, hmade⟩
      · exact hbelow.above hc

end PlacedAs

/-- What begins with the first token of a segment stands ahead of all that is read from it. -/
theorem pairwise_first (hsorted : Sorted (x :: seg)) (ht : t.token = x)
    (htokens : ∀ u ∈ us, ∀ v ∈ u.subtrees, v.token ∈ x :: seg) (hus : us.Pairwise Tree.NotBehind) :
    (t :: us).Pairwise Tree.NotBehind := by
  refine List.pairwise_cons.mpr ⟨fun u hu v hv => ⟨t, t.self_mem_subtrees, ?_⟩, hus⟩
  rw [ht]
  obtain heq | hmem := List.mem_cons.mp (htokens u hu v hv)
  · rw [heq]
  · exact (List.pairwise_cons.mp hsorted).1 _ hmem

namespace Row

theorem nil : Row [] [] where
  placed _ ht := absurd ht List.not_mem_nil
  order _ := .nil

theorem one (h : Placed seg t) : Row seg [t] where
  placed _ ht := List.mem_singleton.mp ht ▸ h
  order _ := List.pairwise_singleton ..

theorem widen (h : Row seg ts) (hsub : seg.Sublist seg') : Row seg' ts where
  placed t ht := (h.placed t ht).widen hsub
  order hsorted := h.order (hsorted.sublist hsub)

/-- Trees from consecutive segments stand one behind the other. -/
theorem append (h : Row seg ts) (h' : Row seg' us) : Row (seg ++ seg') (ts ++ us) where
  placed t ht := by
    obtain ht | ht := List.mem_append.mp ht
    · exact (h.placed t ht).widen (List.sublist_append_left ..)
    · exact (h'.placed t ht).widen (List.sublist_append_right ..)
  order hsorted := by
    obtain ⟨hfirst, hsecond, hcross⟩ := List.pairwise_append.mp hsorted
    refine List.pairwise_append.mpr ⟨h.order hfirst, h'.order hsecond, fun t ht u hu v hv => ?_⟩
    have hroot := (h.placed t ht).tokens t t.self_mem_subtrees
    exact ⟨t, t.self_mem_subtrees, hcross _ hroot _ ((h'.placed u hu).tokens v hv)⟩

theorem cons (h : Row seg ts) (x : Token) : Row (x :: seg) ts := h.widen (List.sublist_cons_self ..)

theorem between (h : Row seg ts) (x y : Token) : Row (x :: (seg ++ [y])) ts :=
  (h.widen (List.sublist_append_left ..)).cons x

theorem tokens (h : Row seg ts) : ∀ t ∈ ts, ∀ u ∈ t.subtrees, u.token ∈ seg :=
  fun t ht => (h.placed t ht).tokens

/-- A tree that begins with the first token of the segment stands ahead of all. -/
theorem first (h : Row (x :: seg') ts) (ht : Placed (x :: seg) t) (hx : t.token = x)
    (hsub : seg.Sublist seg') : Row (x :: seg') (t :: ts) where
  placed := List.forall_mem_cons.mpr ⟨ht.widen (hsub.cons_cons x), h.placed⟩
  order hsorted := pairwise_first hsorted hx h.tokens (h.order hsorted)

end Row

namespace Placed

/-- Most nodes list their children as they stand in the text. -/
theorem plain (h : Row seg ts) (hx : x ∈ seg) (hshape : e.listsInOrder) :
    Placed seg (.node id x e ts) :=
  .node hx (fun c hc => (h.placed c hc).imp False.elim) fun hsorted => .plain hshape (h.order hsorted)

theorem leaf (hx : x ∈ seg) (hshape : e.listsInOrder) : Placed seg (.leaf id x e) :=
  plain (Row.nil.widen (List.nil_sublist _)) hx hshape

theorem nameLeaf (hx : x ∈ seg) : Placed seg (nameLeaf id x) := leaf hx rfl

theorem typeLeaf (hx : x ∈ seg) : Placed seg (typeLeaf env id x) := leaf hx rfl

end Placed

/-! ## Sequences -/

variable (hG : ∀ seg t, G seg t → Placed seg t)
include hG

theorem Optional.row {o : Option Tree} (h : Optional G seg o) : Row seg o.toList := by
  cases h with
  | none => exact .nil
  | some phrase => exact .one (hG _ _ phrase)

theorem Repeated.row (h : Repeated G seg ts) : Row seg ts := by
  induction h with
  | none => exact .nil
  | some first _ ih => exact (Row.one (hG _ _ first)).append ih

theorem Separated.row (h : Separated G seg ts) : Row seg ts := by
  induction h with
  | one phrase => exact .one (hG _ _ phrase)
  | more first _ _ ih => exact (Row.one (hG _ _ first)).append (ih.cons _)

theorem Enclosed.row {opening closing : TokenKind} (h : Enclosed opening closing G seg ts) :
    Row seg ts := by
  cases h with
  | none => exact Row.nil.between _ _
  | some _ items _ => exact (items.row hG).between _ _

omit hG

/-! ## Names and types -/

theorem Row.name : Row [x] [nameLeaf id x] := .one (.nameLeaf List.mem_cons_self)

theorem Row.type : Row [x] [typeLeaf env id x] := .one (.typeLeaf List.mem_cons_self)

theorem TypeName.placed (h : TypeName env seg t) : Placed seg t := by
  cases h
  exact .typeLeaf List.mem_cons_self

theorem Typing.placed (h : Typing env seg t) : Placed seg t := by
  induction h with
  | named name => exact name.placed
  | list _ _ _ ih => exact .plain ((Row.one ih).between _ _) List.mem_cons_self rfl

theorem Pair.placed (h : Pair env seg t) : Placed seg t := by
  cases h with
  | mk _ ty => exact .plain (Row.name.append (.one ty.placed)) List.mem_cons_self rfl

/-! ## Calls -/

section

variable (hE : ∀ seg t, E seg t → Placed seg t)
include hE

/-- A call stands where its receiver does. -/
theorem Link.placed (h : Link E rest u t) (hu : Placed seg u) : Placed (seg ++ rest) t := by
  cases h with
  | mk _ _ arguments =>
    refine .plain ((Row.one hu).append ((Row.name.append (arguments.row hE)).cons _)) ?_ rfl
    exact List.mem_append_left _ (hu.tokens u u.self_mem_subtrees)

theorem Links.placed (h : Links E rest u t) (hu : Placed seg u) : Placed (seg ++ rest) t := by
  induction h generalizing seg with
  | none => rwa [List.append_nil]
  | some first _ ih =>
    rw [← List.append_assoc]
    exact ih (first.placed hE hu)

theorem ConstructorCall.placed (h : ConstructorCall env E seg t) : Placed seg t := by
  cases h with
  | mk _ arguments links =>
    refine links.placed hE (?_ : Placed (_ :: _) _)
    exact .plain (Row.type.append (arguments.row hE)) List.mem_cons_self rfl

theorem StaticCall.placed (h : StaticCall env E seg t) : Placed seg t := by
  cases h with
  | mk _ _ _ arguments links =>
    refine links.placed hE (?_ : Placed (_ :: _ :: _ :: _) _)
    refine .plain ?_ List.mem_cons_self rfl
    exact Row.type.append ((Row.name.append (arguments.row hE)).cons _)

theorem InstanceCall.placed (h : InstanceCall E seg t) : Placed seg t := by
  cases h with
  | mk _ first others =>
    exact others.placed hE (first.placed hE (.nameLeaf List.mem_cons_self : Placed [_] _))

end

/-! ## Expressions -/

/-- Grouping keeps the order of the operands. -/
theorem Chained.placed {g : Grouping} (hO : ∀ seg t, O seg t → Placed seg t)
    (h : Chained table O seg g.chain) : Placed seg g.tree := by
  induction g generalizing seg with
  | operand t =>
    cases h with
    | last operand => exact hO _ _ operand
  | join j left right ihLeft ihRight =>
    obtain ⟨before, op, after, rfl, hj, -, -, hleft, hright⟩ := Chained.of_append h
    rw [Grouping.tree, hj]
    refine .plain ((Row.one (ihLeft hleft)).append ((Row.one (ihRight hright)).cons op)) ?_ rfl
    exact List.mem_append_right _ List.mem_cons_self

theorem Grouped.placed (hO : ∀ seg t, O seg t → Placed seg t) (h : Grouped table O seg t) :
    Placed seg t := by
  cases h with
  | @mk seg c chain =>
    rw [← chain_group table c] at chain
    exact chain.placed hO

/-- Parentheses keep the order of the children. -/
theorem Placed.unit (h : Placed seg t) : Placed seg (unit t) := by
  cases t with
  | node id x e cs =>
    cases e with
    | binary operator left right parenthesized =>
      have hself := Tree.self_mem_subtrees (.node id x (.binary operator left right parenthesized) cs)
      have htoken := h.tokens _ hself
      have hsub : ∀ c ∈ cs, ∀ u ∈ c.subtrees,
          u ∈ (Tree.node id x (.binary operator left right parenthesized) cs).subtrees :=
        fun c hc u hu => Tree.mem_subtrees_trans hu (Tree.mem_subtrees_of_mem_children hc)
      refine ⟨fun u hu => ?_, fun hsorted u hu => ?_⟩
      · obtain rfl | ⟨c, hc, hu⟩ := Tree.mem_subtrees.mp hu
        · exact htoken
        · exact h.tokens u (hsub c hc u hu)
      · obtain rfl | ⟨c, hc, hu⟩ := Tree.mem_subtrees.mp hu
        · cases h.arranged hsorted _ hself with
          | plain _ order => exact .plain rfl order
        · refine (h.arranged hsorted u (hsub c hc u hu)).imp fun hroot => .inr ?_
          obtain ⟨-, hfalse⟩ | ⟨v, hv, name, properties, order, traits, hexpr⟩ := hroot
          · exact hfalse.elim
          · obtain rfl | ⟨d, hd, hv⟩ := Tree.mem_subtrees.mp hv
            · cases hexpr
            · refine ⟨v, ?_, name, properties, order, traits, hexpr⟩
              exact Tree.mem_subtrees_trans hv (Tree.mem_subtrees_of_mem_children hd)
    | _ => exact h

theorem Operand.placed (h : Operand env table seg t) : Placed seg t := by
  refine Operand.induct (fun p seg t hlayer => ?_) h
  have hO : ∀ seg t, Operand env table seg t ∧ Placed seg t → Placed seg t := fun _ _ h => h.2
  have hgrouped := fun seg t (h : Grouped table _ seg t) => h.placed hO
  cases hlayer with
  | real => exact .leaf List.mem_cons_self rfl
  | int => exact .leaf List.mem_cons_self rfl
  | list elements => exact .plain (elements.row hgrouped) List.mem_cons_self rfl
  | construct call => exact call.placed hgrouped
  | static call => exact call.placed hgrouped
  | instanceCall call => exact call.placed hgrouped
  | name => exact .nameLeaf List.mem_cons_self
  | parens _ inner _ =>
    refine ((hgrouped _ _ inner).unit).widen ?_
    exact (List.sublist_append_left _ _).cons _
  | unary _ _ operand => exact .plain ((Row.one operand.2).cons _) List.mem_cons_self rfl

theorem Expression.placed (h : Expression env table seg t) : Placed seg t :=
  Grouped.placed (fun _ _ => Operand.placed) h

/-! ## Statements -/

theorem Body.placed {S : Phrase} (hS : ∀ seg t, S seg t → Placed seg t) (h : Body S seg t) :
    Placed seg t := by
  cases h with
  | mk _ statements _ => exact .plain ((statements.row hS).between _ _) List.mem_cons_self rfl

section

variable (hE : ∀ seg t, E seg t → Placed seg t)
include hE

theorem Return.placed (h : Return E seg t) : Placed seg t := by
  cases h with
  | mk _ value => exact .plain ((Row.one (hE _ _ value)).cons _) List.mem_cons_self rfl

theorem Block.placed {S : Phrase} (hS : ∀ seg t, S seg t → Placed seg t) (h : Block S E seg t) :
    Placed seg t := by
  cases h with
  | plain body => exact body.placed hS
  | returning _ statements last _ =>
    have hrow := (statements.row hS).append (.one (last.placed hE))
    exact .plain (hrow.between _ _) List.mem_cons_self rfl

theorem Statement.placed (hA : ∀ seg t, A seg t → Placed seg t) (h : Statement env E A seg t) :
    Placed seg t := by
  -- A deferred block holds statements again.
  refine @Statement.rec env E A (fun seg t _ => Placed seg t) (fun seg t _ => Placed seg t)
    (fun seg ts _ => Row seg ts) ?assignment ?deferred ?call ?static ?annotated ?body
    .nil (fun _ _ first others => (Row.one first).append others) seg t h
  case assignment =>
    intro name eq seg rest ty v id nid _ typing _ value
    have htyping := typing.row fun _ _ => Typing.placed
    have hvalue := (Row.one (hE _ _ value)).cons eq
    exact .plain (Row.name.append (htyping.append hvalue)) List.mem_cons_self rfl
  case deferred => exact fun _ _ ih => .plain ((Row.one ih).cons _) List.mem_cons_self rfl
  case call => exact fun call => call.placed hE
  case static => exact fun call => call.placed hE
  case annotated => exact fun phrase => hA _ _ phrase
  case body => exact fun _ _ _ ih => .plain (ih.between _ _) List.mem_cons_self rfl

end

/-! ## Copies -/

theorem typeLeaf_copy (h : (typeLeaf env id x).IsCopy u) : ∃ id', u = typeLeaf env id' x := by
  cases h with
  | node children =>
    cases children
    exact ⟨_, rfl⟩

theorem TypeName.copy (h : TypeName env seg t) (hcopy : t.IsCopy u) : TypeName env seg u := by
  cases h with
  | mk ht =>
    obtain ⟨id, rfl⟩ := typeLeaf_copy hcopy
    exact .mk ht

theorem Typing.copy (h : Typing env seg t) (hcopy : t.IsCopy u) : Typing env seg u := by
  induction h generalizing u with
  | named name => exact .named (name.copy hcopy)
  | list hl _ hr ih =>
    cases hcopy with
    | node children =>
      cases children with
      | cons first others =>
        cases others
        exact .list hl (ih first) hr

theorem Pair.copy (h : Pair env seg t) (hcopy : t.IsCopy u) : Pair env seg u := by
  cases h with
  | mk ht ty =>
    cases hcopy with
    | node children =>
      cases children with
      | cons first others =>
        cases others with
        | cons second none =>
          cases none
          cases first with
          | node leaf =>
            cases leaf
            exact .mk ht (ty.copy second)

theorem Enclosed.copy {opening closing : TokenKind}
    (hG : ∀ seg t u, G seg t → t.IsCopy u → G seg u) (h : Enclosed opening closing G seg ts)
    (hcopies : List.Forall₂ Tree.IsCopy ts us) : Enclosed opening closing G seg us := by
  cases h with
  | none hl hr =>
    cases hcopies
    exact .none hl hr
  | some hl items hr =>
    refine .some hl ?_ hr
    clear hl hr
    induction items generalizing us with
    | one phrase =>
      cases hcopies with
      | cons first none =>
        cases none
        exact .one (hG _ _ _ phrase first)
    | more phrase hcomma _ ih =>
      cases hcopies with
      | cons first others => exact .more (hG _ _ _ phrase first) hcomma (ih others)

/-! ## Signatures and methods -/

theorem Returns.row {o : Option Tree} (h : Returns env seg o) : Row seg o.toList := by
  cases h with
  | omitted => exact .nil
  | empty => exact Row.nil.between _ _
  | some _ ty _ => exact (Row.one ty.placed).between _ _

/-- The receiver and its parameter are made from the same tokens, and the parameter stands ahead. -/
theorem Signature.placed (h : Signature env seg t) : Placed seg t := by
  cases h with
  | @mk l r t receiver params rest u named result ps id nid _ hreceiver _ _ parameters returns =>
    have hrest := (parameters.row fun _ _ => Pair.placed).append returns.row
    have htail := ((Row.name : Row [t] [nameLeaf nid t]).append hrest).cons r
    cases hreceiver with
    | static ty => exact .plain (((Row.one ty.placed).append htail).cons l) List.mem_cons_self rfl
    | @named first seg u _ id' nid' ht ty copy =>
      have hcopy := Row.one (ty.copy copy).placed
      have hself := (@Pair.mk env first seg u id' nid' ht ty).placed
      have hrow := (((hcopy.append htail).cons first).first hself rfl
        (List.sublist_append_left ..)).cons l
      refine .node List.mem_cons_self (fun c hc => (hrow.placed c ?_).imp False.elim)
        fun hsorted => .named (hrow.order hsorted)
      simp only [Option.toList_some, List.mem_cons, List.mem_append] at hc ⊢
      tauto

theorem Method.placed (hE : ∀ seg t, E seg t → Placed seg t) (hA : ∀ seg t, A seg t → Placed seg t)
    (h : Method env E A seg t) : Placed seg t := by
  cases h with
  | @mk seg rest head body id signature block =>
    have hblock := block.placed hE fun _ _ => Statement.placed hE hA
    refine .plain ((Row.one signature.placed).append (.one hblock)) ?_ rfl
    exact List.mem_append_left _ (signature.placed.tokens head head.self_mem_subtrees)

/-! ## Types -/

/-- The constructor stands where the name of the type does: its receiver, its name and its result are
made from that token. -/
theorem Constructor.placed {ps : List Tree} {made : Tree} (hproperties : Properties env seg ps)
    (h : Constructor (typeLeaf env id x) ps (Option.some made)) :
    PlacedAs True (x :: seg) made ∧ made.token = x := by
  cases h with
  | @some _ params _ _ _ mid hsome hreceiver hresult hcopies =>
    obtain ⟨rid, rfl⟩ := typeLeaf_copy hreceiver
    obtain ⟨sid, rfl⟩ := typeLeaf_copy hresult
    cases hproperties with
    | none => exact absurd rfl hsome
    | some pairs =>
      have hx : x ∈ [x] := List.mem_cons_self
      have hnone := List.nil_sublist seg
      have hpairs : Enclosed .lparen .rparen (Pair env) seg params :=
        pairs.copy (fun _ _ _ => Pair.copy) hcopies
      have hparams := (hpairs.row fun _ _ => Pair.placed).cons x
      have hreturned := hparams.first (t := typeLeaf env sid x) (.typeLeaf hx) rfl hnone
      have hmethod := hreturned.first (t := .leaf mid x (.identifier Grammar.constructorName))
        (.leaf hx rfl) rfl hnone
      have hrow := hmethod.first (t := typeLeaf env rid x) (.typeLeaf hx) rfl hnone
      refine ⟨.node List.mem_cons_self (fun c hc => (hrow.placed c ?_).imp False.elim)
        fun hsorted => .constructs trivial (hrow.order hsorted), rfl⟩
      simp only [List.mem_cons, List.mem_append, List.not_mem_nil, or_false] at hc ⊢
      tauto

theorem Properties.row (h : Properties env seg ts) : Row seg ts := by
  cases h with
  | none => exact .nil
  | some pairs => exact pairs.row fun _ _ => Pair.placed

theorem Traits.row (h : Traits env seg ts) : Row seg ts := by
  cases h with
  | none => exact .nil
  | some _ names => exact (names.row fun _ _ => TypeName.placed).cons _

theorem TypeDef.placed (h : TypeDef env seg t) : Placed seg t := by
  cases h with
  | @mk k t seg rest ps ts made id tid _ _ properties constructor traits =>
    have hrow := properties.row.append traits.row
    cases made with
    | none => exact .plain ((Row.type.append hrow).cons k) List.mem_cons_self rfl
    | some made =>
      obtain ⟨hmade, htoken⟩ := constructor.placed properties
      have hmade := hmade.widen ((List.sublist_append_left seg rest).cons_cons t)
      have hname : Placed (t :: (seg ++ rest)) (typeLeaf env tid t) := .typeLeaf List.mem_cons_self
      have hlater := hrow.cons t
      have hwider := List.sublist_cons_self k (t :: (seg ++ rest))
      refine .node List.mem_cons_self (fun c hc => .widen ?_ hwider) fun hsorted => ?_
      · simp only [Option.toList_some, List.mem_cons, List.mem_append, List.not_mem_nil,
          or_false] at hc
        obtain rfl | hc | rfl | hc := hc
        · exact hname.imp False.elim
        · exact (hlater.placed c (List.mem_append_left _ hc)).imp False.elim
        · exact hmade.imp fun _ => ⟨_, _, _, _, rfl⟩
        · exact (hlater.placed c (List.mem_append_right _ hc)).imp False.elim
      · have hsorted := hsorted.sublist hwider
        have hpairs := pairwise_first hsorted htoken hlater.tokens (hlater.order hsorted)
        refine .typed (List.length_map _).symm (pairwise_first hsorted rfl ?_ hpairs)
        exact List.forall_mem_cons.mpr ⟨hmade.tokens, hlater.tokens⟩

/-! ## APIs and programs -/

theorem Within.placed (h : Within env seg t) : Placed seg t := by
  cases h with
  | mk _ name => exact .plain ((Row.one name.placed).cons _) List.mem_cons_self rfl

theorem Behind.placed {word : String} (hG : ∀ seg t, G seg t → Placed seg t)
    (h : Behind word G seg t) : Placed seg t := by
  cases h with
  | mk _ phrase => exact (hG _ _ phrase).widen (List.sublist_cons_self ..)

theorem WithApis.placed (h : WithApis env seg t) : Placed seg t := by
  cases h with
  | mk _ first others =>
    have hothers := others.row fun _ _ => Behind.placed fun _ _ => TypeName.placed
    exact .plain (((Row.one first.placed).append hothers).cons _) List.mem_cons_self rfl

section

variable (hE : ∀ seg t, E seg t → Placed seg t) (hA : ∀ seg t, A seg t → Placed seg t)
include hE hA

theorem Declaration.placed (h : Declaration env E A seg t) : Placed seg t := by
  cases h with
  | typeDef typeDef => exact typeDef.placed
  | method method => exact method.placed hE hA
  | annotated phrase => exact hA _ _ phrase

theorem Api.placed (h : Api env E A seg t) : Placed seg t := by
  cases h with
  | @mk k t l r inner outer seg inside others body id tid _ _ within withApis _ declarations _ =>
    have hdeclarations := (declarations.row fun _ _ => Declaration.placed hE hA).between l r
    have hothers := (withApis.row fun _ _ => WithApis.placed).append hdeclarations
    have hall := (within.row fun _ _ => Within.placed).append hothers
    exact .plain ((Row.type.append hall).cons k) List.mem_cons_self rfl

theorem TopLevel.placed (h : Grammar.TopLevel env E A seg t) : Placed seg t := by
  cases h with
  | api api => exact api.placed hE hA
  | annotated phrase => exact hA _ _ phrase

end

/-- A program lists its annotations ahead of its APIs, each in their order. -/
theorem arranged_program (h : Row seg us) (hsorted : Sorted seg) :
    (Tree.node id x (.program ((us.filter fun u => !Grammar.annotates u).map Tree.root)
        ((us.filter Grammar.annotates).map Tree.root))
      (us.filter Grammar.annotates ++ us.filter fun u => !Grammar.annotates u)).IsArranged := by
  intro u hu
  obtain rfl | ⟨c, hc, hu⟩ := Tree.mem_subtrees.mp hu
  · exact .merged (List.length_map _).symm (List.filter_append_perm _ us).symm
      List.filter_sublist List.filter_sublist (h.order hsorted)
  · have hmem : c ∈ us := (List.filter_append_perm Grammar.annotates us).mem_iff.mp hc
    refine ((h.placed c hmem).arranged hsorted u hu).imp fun hroot => ?_
    exact hroot.elim (fun hboth => hboth.2.elim) fun hmade => hmade.above hc

end ApiSyntax.Language
