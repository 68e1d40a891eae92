/-
  ApiSyntax/Proofs/Grammar/DeclarationSound.lean --- what is read as a declaration is one.

  A signature may hold a copy of the type of its receiver, and a type with properties
  gets a signature over copies of them.  The copies are new trees, and what they are
  copies of stays where it was.
-/
import ApiSyntax.Proofs.Grammar.StatementSound

set_option autoImplicit false

namespace ApiSyntax.Grammar

open ApiSyntax.Language ApiSyntax.Parser

variable {S : Setting} {env : ParserEnv} {read : Production → Parser NodeId} {E A : Phrase}

/-! ## Signatures and methods -/

/-- What the receiver of a signature comes to. -/
def ReceiverRead (env : ParserEnv) (r : Receiver) (seg : List Token) (ts : List Tree) : Prop :=
  ∃ (u : Tree) (named : Option Tree), r = ⟨u.root, named.map Tree.root⟩ ∧
    ts = u :: named.toList ∧ Language.Receiver env seg u named

theorem receiver_reads (htype : Reads S env (read .type) (One (Typing env))) :
    Reads S env (receiver read) (ReceiverRead env) := by
  intro s hs
  unfold receiver
  rw [check_bind]
  refine .cond (fun _ => ?_) fun _ => ?_
  · rw [startToken_bind]
    refine (Step.refl hs).next identifier_reads ?_
    intro _ s₁ _ _ hpost h₁
    obtain ⟨_, rfl, rfl, @⟨t, nid, ht⟩⟩ := hpost
    refine h₁.next htype fun id s₂ seg ts hid h₂ => ?_
    obtain ⟨u, rfl, rfl, hu⟩ := hid
    rw [h₁.startToken]
    refine h₂.gather rfl fun id s₃ h₃ => ?_
    have hsub : u ∈ (Tree.node id t (.pair nid u.root) [nameLeaf nid t, u]).subtrees :=
      Tree.mem_subtrees_of_mem_children (List.mem_cons_of_mem _ List.mem_cons_self)
    refine h₃.duplicate List.mem_cons_self hsub fun v s₄ hcopy h₄ => ?_
    exact .pure h₄ ⟨v, some _, rfl, rfl, .named ht hu hcopy⟩
  · refine (Step.refl hs).next htype fun id s₁ seg ts hid h₁ => ?_
    obtain ⟨u, rfl, rfl, hu⟩ := hid
    exact .pure h₁ ⟨u, none, rfl, rfl, .static hu⟩

/-- There is one tree or none, as the relation says. -/
def MaybeBy (G : List Token → Option Tree → Prop) (id : Option NodeId) (seg : List Token)
    (ts : List Tree) : Prop :=
  ∃ t : Option Tree, id = t.map Tree.root ∧ ts = t.toList ∧ G seg t

theorem returnType_reads (htype : Reads S env (read .type) (One (Typing env))) :
    Reads S env (returnType read) (MaybeBy (Returns env)) := by
  intro s hs
  unfold returnType
  rw [check_bind]
  cases hcheck : s.cursor.check .lparen with
  | false => exact .pure (Step.refl hs) ⟨none, rfl, rfl, .omitted⟩
  | true =>
    refine (Step.refl hs).consume_checked hcheck fun l s₁ hl h₁ => ?_
    rw [check_bind]
    cases hcheck' : s₁.cursor.check .rparen with
    | true =>
      refine h₁.consume_checked hcheck' fun r s₂ hr h₂ => ?_
      exact .pure h₂ ⟨none, rfl, rfl, .empty hl hr⟩
    | false =>
      refine h₁.next htype fun id s₂ seg ts hid h₂ => ?_
      obtain ⟨u, rfl, rfl, hu⟩ := hid
      refine h₂.token (expect_reads .rparen) fun r s₃ hr h₃ => ?_
      exact .pure h₃ ⟨some u, rfl, rfl, .some hl hu hr⟩

theorem signature_reads (htype : Reads S env (read .type) (One (Typing env)))
    (hpair : Reads S env (read .pair) (One (Pair env))) :
    Reads S env (signature read) (One (Signature env)) := by
  intro s hs
  unfold signature
  refine (Step.refl hs).token (expect_reads .lparen) fun l s₁ hl h₁ => ?_
  refine h₁.next (receiver_reads htype) fun r s₂ seg ts hr h₂ => ?_
  obtain ⟨u, named, rfl, rfl, hreceiver⟩ := hr
  refine h₂.token (expect_reads .rparen) fun r s₃ hr h₃ => ?_
  refine h₃.token (expectAny_reads _) fun t s₄ ht h₄ => ?_
  refine h₄.leaf rfl fun nid s₅ h₅ => ?_
  refine h₅.next (parenthesizedList_reads hpair) fun ids s₆ params ps hids h₆ => ?_
  obtain ⟨rfl, hparams⟩ := hids
  refine h₆.next (returnType_reads htype) fun o s₇ rest ts ho h₇ => ?_
  obtain ⟨result, rfl, rfl, hreturns⟩ := ho
  -- The name was made behind the receiver and its parameter; in the slots it comes second.
  have hperm : (nameLeaf nid t :: u :: named.toList ++ ps ++ result.toList).Perm
      (u :: nameLeaf nid t :: ((named.toList ++ ps) ++ result.toList)) := by
    rw [List.cons_append, List.cons_append, List.cons_append, List.cons_append]
    exact .swap ..
  have hslots : (u :: nameLeaf nid t :: ((named.toList ++ ps) ++ result.toList)).map Tree.root =
      u.root :: nid :: (((named.map Tree.root).toList ++ ps.map Tree.root) ++
        (result.map Tree.root).toList) := by
    cases named <;> cases result <;> simp
  refine (h₇.perm hperm).made hslots.symm fun id => ?_
  have hphrase : Signature env (l :: (seg ++ r :: t :: (params ++ rest)))
      (.node id l
        (.signature nid u.root ((named.toList ++ ps).map Tree.root) (result.map Tree.root)
          named.isNone)
        (u :: nameLeaf nid t :: ((named.toList ++ ps) ++ result.toList))) :=
    .mk hl hreceiver hr ht hparams hreturns
  cases named <;> simpa using hphrase

/-- A signature starts at its first parenthesis. -/
theorem start_of_signature {seg : List Token} {t : Tree} (h : Signature env seg t) :
    ∃ rest, seg = t.token :: rest := by
  cases h with
  | mk => exact ⟨_, rfl⟩

theorem method_reads (hsignature : Reads S env (read .signature) (One (Signature env)))
    (hblock : Reads S env (read .block) (One (Block (Statement env E A) E))) :
    Reads S env (method read) (One (Method env E A)) := by
  intro s hs
  unfold method
  rw [startToken_bind]
  refine (Step.refl hs).next hsignature fun id s₁ seg ts hid h₁ => ?_
  obtain ⟨head, rfl, rfl, hhead⟩ := hid
  refine h₁.next hblock fun id s₂ rest ts hid h₂ => ?_
  obtain ⟨body, rfl, rfl, hbody⟩ := hid
  obtain ⟨tail, rfl⟩ := start_of_signature hhead
  rw [h₁.startToken]
  exact h₂.made rfl fun id => .mk hhead hbody

/-! ## Types -/

/-- The name of a property is the text of the token that it starts at. -/
theorem propertyName_eq {a : Arena} {p : Tree} (hp : a.Holds p)
    (hpair : ∃ seg, Pair env seg p) : propertyName a p.root = .ok (some p.token.value) := by
  obtain ⟨seg, hpair⟩ := hpair
  cases hpair with
  | @mk t seg u id nid ht hty =>
    have hname : a.expr nid = .ok (.identifier t.value) :=
      (hp.child (c := nameLeaf nid t) List.mem_cons_self).shows.expr
    have hexpr : a.expr id = .ok (.pair nid u.root) := hp.shows.expr
    simp only [propertyName, Tree.root_node, hexpr, bind, Except.bind, hname]
    rfl

theorem propertyOrder_eq {a : Arena} {ps : List Tree} (hps : ∀ p ∈ ps, a.Holds p)
    (hpairs : ∀ p ∈ ps, ∃ seg, Pair env seg p) :
    propertyOrder a (ps.map Tree.root) = .ok (Language.propertyOrder ps) := by
  have hnames : (ps.map Tree.root).mapM (propertyName a) =
      .ok (ps.map fun p => some p.token.value) := by
    induction ps with
    | nil => rfl
    | cons p ps ih =>
      rw [List.map_cons, List.mapM_cons, propertyName_eq (hps p List.mem_cons_self)
        (hpairs p List.mem_cons_self), ih (fun q hq => hps q (List.mem_cons_of_mem _ hq))
        fun q hq => hpairs q (List.mem_cons_of_mem _ hq)]
      rfl
  have hsome : (ps.map fun p => some p.token.value) = (ps.map fun p => p.token.value).map some := by
    rw [List.map_map]
    rfl
  rw [propertyOrder, hnames, hsome, Language.propertyOrder]
  simp only [bind, Except.bind, List.zipIdx_map, List.foldl_map]
  rfl

variable {b s : ParserState} {seg : List Token} {ts : List Tree}

theorem duplicateAll_step {cs : List Tree} (h : Step S b s seg ts) (hcs : ∀ c ∈ cs, c ∈ ts) :
    Outcome S b (fun ids seg' ts' => seg' = seg ∧ ∃ ds, ids = ds.map Tree.root ∧ ts' = ds ++ ts ∧
      List.Forall₂ Tree.IsCopy cs ds) (duplicateAll (cs.map Tree.root) env s) := by
  induction cs generalizing s ts with
  | nil => exact .pure h ⟨rfl, [], rfl, rfl, .nil⟩
  | cons c cs ih =>
    rw [List.map_cons, duplicateAll]
    refine h.duplicate (hcs c List.mem_cons_self) c.self_mem_subtrees fun v s₁ hcopy h₁ => ?_
    have hrest : ∀ d ∈ cs, d ∈ v :: ts := fun d hd =>
      List.mem_cons_of_mem _ (hcs d (List.mem_cons_of_mem _ hd))
    refine (ih h₁ hrest).bind fun ids s₂ seg₂ ts₂ hids h₂ => ?_
    obtain ⟨rfl, ds, rfl, rfl, hcopies⟩ := hids
    exact .pure (h₂.perm List.perm_middle) ⟨rfl, v :: ds, rfl, rfl, .cons hcopy hcopies⟩

theorem constructor_step {name : Tree} {ps : List Tree} (h : Step S b s seg (name :: ps))
    (hsome : ps ≠ []) :
    Outcome S b (fun id seg' ts' => ∃ made : Tree, id = made.root ∧ seg' = seg ∧
      ts' = made :: name :: ps ∧ Constructor name ps (some made))
      (constructor name.root (ps.map Tree.root) env s) := by
  unfold constructor
  obtain ⟨tags, hnode⟩ := (h.arena.holds List.mem_cons_self).shows.node
  rw [atArena_bind hnode]
  refine h.duplicate List.mem_cons_self name.self_mem_subtrees fun v s₁ hreceiver h₁ => ?_
  have hname : name ∈ v :: name :: ps := List.mem_cons_of_mem _ List.mem_cons_self
  refine h₁.duplicate hname name.self_mem_subtrees fun w s₂ hresult h₂ => ?_
  refine h₂.leaf rfl fun mid s₃ h₃ => ?_
  have hps : ∀ p ∈ ps, p ∈ Tree.leaf mid name.token (.identifier constructorName) ::
      w :: v :: name :: ps := by
    intro p hp
    simp only [List.mem_cons, hp, or_true]
  refine (duplicateAll_step h₃ hps).bind fun ids s₄ seg₄ ts₄ hids h₄ => ?_
  obtain ⟨rfl, ds, rfl, rfl, hparams⟩ := hids
  -- The slots of the signature are the receiver, its name, the parameters, the result.
  have hperm : (ds ++ Tree.leaf mid name.token (.identifier constructorName) ::
      w :: v :: name :: ps).Perm ((v :: .leaf mid name.token (.identifier constructorName) ::
        (ds ++ [w])) ++ (name :: ps)) := by
    refine List.perm_middle.trans ?_
    refine List.Perm.trans (.cons _ ?_) (.swap ..)
    have hback : (ds ++ [w] ++ v :: name :: ps).Perm (v :: (ds ++ [w] ++ name :: ps)) :=
      List.perm_middle
    rwa [List.append_assoc] at hback
  refine (h₄.perm hperm).allocated ?_ fun made hmade => ?_
  · simp [Expr.children]
  · exact ⟨made, rfl, rfl, rfl, hmade ▸ .some hsome hreceiver hresult hparams⟩

theorem properties_reads (hpair : Reads S env (read .pair) (One (Pair env))) :
    Reads S env (properties read) (Many (Properties env)) := by
  intro s hs
  unfold properties
  rw [atCursor_bind]
  have hpairs : Reads S env (attempt (pairs read)) _ :=
    attempt_reads (parenthesizedList_reads hpair)
  refine (Step.refl hs).next hpairs fun o s₁ seg ts ho h₁ => ?_
  -- What was read as properties may be the receiver of a signature: then the place is taken back.
  have hback : Step S s { s₁ with cursor := s.cursor } [] [] :=
    ⟨⟨rfl, rfl⟩, ⟨h₁.fits.tables, hs.tokens⟩, h₁.arena.forget⟩
  cases o with
  | none =>
    obtain ⟨rfl, rfl⟩ := ho
    exact .pure h₁ ⟨rfl, .none⟩
  | some ids =>
    obtain ⟨rfl, hps⟩ := ho
    dsimp only
    rw [check_bind, check_bind]
    refine .cond (fun _ => ?_) fun _ => ?_
    · exact .done hback ⟨rfl, .none⟩
    · exact .pure h₁ ⟨rfl, .some hps⟩

theorem traits_reads : Reads S env traits (Many (Traits env)) := by
  intro s hs
  unfold traits
  rw [checkKeyword_bind]
  cases hcheck : s.cursor.checkKeyword "with" with
  | false => exact .pure (Step.refl hs) ⟨rfl, .none⟩
  | true =>
    refine (Step.refl hs).consume_keyword hcheck fun k s₁ hk h₁ => ?_
    refine h₁.last (delimited_reads namedType_reads) fun ids seg ts hids => ?_
    obtain ⟨rfl, hts⟩ := hids
    exact ⟨rfl, .some hk hts⟩

/-- The signature that makes values of a type is made when there are properties. -/
theorem constructing_step {name : Tree} {ps : List Tree} (h : Step S b s seg (name :: ps)) :
    Outcome S b (fun o seg' ts' => ∃ made : Option Tree, o = made.map Tree.root ∧ seg' = seg ∧
      ts' = made.toList ++ name :: ps ∧ Constructor name ps made)
      ((do if (ps.map Tree.root).isEmpty then return none
           else return some (← constructor name.root (ps.map Tree.root))) env s) := by
  refine .cond (fun hempty => ?_) fun hnot => ?_
  · have hnil : ps = [] := by simpa using hempty
    subst hnil
    exact .pure h ⟨none, rfl, rfl, rfl, .none⟩
  · have hsome : ps ≠ [] := fun hnil => hnot (by simp [hnil])
    refine (constructor_step h hsome).bind fun id s₁ seg₁ ts₁ hid h₁ => ?_
    obtain ⟨made, rfl, rfl, rfl, hmade⟩ := hid
    exact .pure h₁ ⟨some made, rfl, rfl, rfl, hmade⟩

theorem typeDef_reads (hpair : Reads S env (read .pair) (One (Pair env))) :
    Reads S env (typeDef read) (One (TypeDef env)) := by
  intro s hs
  unfold typeDef
  refine (Step.refl hs).token (expectKeyword_reads "type") fun k s₁ hk h₁ => ?_
  refine h₁.next namedType_reads fun id s₂ seg ts hid h₂ => ?_
  obtain ⟨_, rfl, rfl, @⟨t, tid, ht⟩⟩ := hid
  refine h₂.next (properties_reads hpair) fun ids s₃ seg ps hids h₃ => ?_
  obtain ⟨rfl, hps⟩ := hids
  have hpairs : ∀ p ∈ ps, ∃ seg, Pair env seg p := by
    intro p hp
    cases hps with
    | none => exact absurd hp List.not_mem_nil
    | some pairs => exact pairs.of_mem hp
  have hheld : ∀ p ∈ ps, s₃.work.arena.Holds p := fun p hp =>
    h₃.arena.holds (List.mem_cons_of_mem _ hp)
  rw [atArena_bind (propertyOrder_eq hheld hpairs)]
  refine (constructing_step h₃).bind fun o s₄ seg₄ ts₄ ho h₄ => ?_
  obtain ⟨made, rfl, rfl, rfl, hmade⟩ := ho
  refine h₄.next traits_reads fun ids s₅ rest ts hids h₅ => ?_
  obtain ⟨rfl, hts⟩ := hids
  have hperm : (made.toList ++ typeLeaf env tid t :: ps ++ ts).Perm
      (typeLeaf env tid t :: (ps ++ (made.toList ++ ts))) := by
    cases made with
    | none => exact .refl _
    | some m => exact List.perm_middle.symm
  refine (h₅.perm hperm).made ?_ fun id => ?_
  · cases made <;> simp [Expr.children]
  · have hphrase : TypeDef env (k :: t :: (seg ++ rest))
        (.node id k
          (.typeDef tid (ps.map Tree.root) (Language.propertyOrder ps) (made.map Tree.root)
            (ts.map Tree.root))
          (typeLeaf env tid t :: (ps ++ (made.toList ++ ts)))) := .mk hk ht hps hmade hts
    exact hphrase

/-! ## APIs -/

theorem within_reads : Reads S env within (One (Within env)) := by
  intro s hs
  unfold within
  refine (Step.refl hs).token (expectKeyword_reads "within") fun k s₁ hk h₁ => ?_
  refine h₁.next namedType_reads fun id s₂ seg ts hid h₂ => ?_
  obtain ⟨t, rfl, rfl, ht⟩ := hid
  exact h₂.made rfl fun id => .mk hk ht

theorem withApis_reads : Reads S env withApis (One (WithApis env)) := by
  intro s hs
  unfold withApis
  refine (Step.refl hs).token (expectKeyword_reads "with") fun k s₁ hk h₁ => ?_
  refine h₁.next namedType_reads fun id s₂ seg ts hid h₂ => ?_
  obtain ⟨t, rfl, rfl, ht⟩ := hid
  let Names (ids : List NodeId) (seg : List Token) (ts : List Tree) : Prop :=
    ids = t.root :: ts.map Tree.root ∧ Repeated (Behind "with" (Language.TypeName env)) seg ts
  refine h₂.next (loop_reads (I := Names) (Q := Names) ?_ ⟨rfl, .none⟩) fun ids s₃ rest ts hids h₃ => ?_
  · intro b ids s seg ts hids h
    obtain ⟨rfl, hts⟩ := hids
    rw [checkKeyword_bind]
    cases hcheck : s.cursor.checkKeyword "with" with
    | false => exact .pure h ⟨rfl, hts⟩
    | true =>
      refine h.consume_keyword hcheck fun k' s₃ hk' h₃ => ?_
      refine h₃.next namedType_reads fun id s₄ seg₄ ts₄ hid h₄ => ?_
      obtain ⟨u, rfl, rfl, hu⟩ := hid
      refine .pure h₄ ⟨by simp, ?_⟩
      rw [List.append_assoc]
      exact hts.snoc (.mk hk' hu)
  · obtain ⟨rfl, hts⟩ := hids
    exact h₃.made rfl fun id => .mk hk ht hts

theorem apiRound_step {opened : Span} {G : Phrase} {ids : List NodeId}
    (hdeclaration : Reads S env (declaration read) (One G)) (hids : Many (Repeated G) ids seg ts)
    (h : Step S b s seg ts) :
    Outcome S b (Rounds (Many (Repeated G)) fun ids seg ts => ∃ inner r, seg = inner ++ [r] ∧
      r.is .rbrace ∧ Many (Repeated G) ids inner ts) (apiRound read opened ids env s) := by
  unfold apiRound
  rw [remaining_bind]
  obtain ⟨rfl, hts⟩ := hids
  cases hhead : s.cursor.rest.head? with
  | none => exact .fail h
  | some t =>
    refine .cond (fun hbrace => ?_) fun _ => ?_
    · have hcheck : s.cursor.check .rbrace = true := by
        rw [Cursor.check, hhead]
        exact hbrace
      refine h.consume_checked hcheck fun r s₁ hr h₁ => ?_
      exact .pure h₁ ⟨seg, r, rfl, hr, rfl, hts⟩
    · refine h.next hdeclaration fun id s₁ seg₁ ts₁ hid h₁ => ?_
      obtain ⟨u, rfl, rfl, hu⟩ := hid
      exact .pure h₁ ⟨by simp, hts.snoc hu⟩

theorem apiLoop_reads {opened : Span} {G : Phrase}
    (hdeclaration : Reads S env (declaration read) (One G)) :
    Reads S env (inPhase .declaration (loop (apiRound read opened) [])) fun ids seg ts =>
      ∃ inner r, seg = inner ++ [r] ∧ r.is .rbrace ∧ Many (Repeated G) ids inner ts :=
  inPhase_reads (loop_reads (fun _ _ _ _ _ => apiRound_step hdeclaration) ⟨rfl, .none⟩) _

theorem api_reads (hwithin : Reads S env (read .within) (One (Within env)))
    (hwithApis : Reads S env (read .withApis) (One (WithApis env)))
    (hdeclaration : Reads S env (declaration read) (One (Declaration env E A))) :
    Reads S env (api read) (One (Api env E A)) := by
  intro s hs
  unfold api
  refine (Step.refl hs).token (expectKeyword_reads "api") fun k s₁ hk h₁ => ?_
  refine h₁.next namedType_reads fun id s₂ seg ts hid h₂ => ?_
  obtain ⟨_, rfl, rfl, @⟨t, tid, ht⟩⟩ := hid
  refine h₂.next ((attempt_reads hwithin).mono maybe_of_attempted) fun o s₃ inner ts ho h₃ => ?_
  obtain ⟨inside, rfl, rfl, hinside⟩ := ho
  refine h₃.next ((attempt_reads hwithApis).mono maybe_of_attempted) fun o s₄ outer ts ho h₄ => ?_
  obtain ⟨others, rfl, rfl, hothers⟩ := ho
  refine h₄.token (expect_reads .lbrace) fun l s₅ hl h₅ => ?_
  refine h₅.next (apiLoop_reads hdeclaration) fun ids s₆ seg ts hids h₆ => ?_
  obtain ⟨body, r, rfl, hr, rfl, hbody⟩ := hids
  refine h₆.made ?_ fun id => ?_
  · cases inside <;> cases others <;> simp [Expr.children]
  · have hphrase : Api env E A (k :: t :: (inner ++ (outer ++ l :: (body ++ [r]))))
        (.node id k
          (.api tid (inside.map Tree.root) (others.map Tree.root) (ts.map Tree.root))
          (typeLeaf env tid t :: (inside.toList ++ (others.toList ++ ts)))) :=
      .mk hk ht hinside hothers hl hbody hr
    simpa using hphrase

end ApiSyntax.Grammar
