/-
  ApiSyntax/Proofs/Grammar/SignatureNames.lean --- the names that annotations declare.

  What an annotation is given are methods, signatures and expressions.  A tree among these
  that is a signature was read as one, so its name is the text of one of the tokens of the
  annotation.  That token is a name or an operator: the declaration of an operator does not
  ask which.

  Main statement: `annotationCall_declares`.
-/
import ApiSyntax.Proofs.Grammar.AnnotationLedger
import ApiSyntax.Proofs.Grammar.Goals

set_option autoImplicit false

namespace ApiSyntax

open ApiSyntax.Arena ApiSyntax.OperatorTable ApiSyntax.Parser

namespace Language

variable {env : ParserEnv} {E G : Phrase} {seg : List Token} {t : Tree} {ts : List Tree}
  {opening closing : TokenKind}

/-! ## Parts of phrases -/

/-- The tokens of an item are a part of those of the items. -/
theorem Separated.of_mem_within (h : Separated G seg ts) (ht : t ∈ ts) :
    ∃ inner, G inner t ∧ inner <:+: seg := by
  induction h with
  | one phrase =>
    rw [List.mem_singleton.mp ht]
    exact ⟨_, phrase, List.infix_rfl⟩
  | more first _ _ ih =>
    rcases List.mem_cons.mp ht with rfl | ht
    · exact ⟨_, first, (List.prefix_append _ _).isInfix⟩
    · obtain ⟨inner, hinner, hpart⟩ := ih ht
      refine ⟨inner, hinner, hpart.trans ?_⟩
      exact ((List.suffix_cons _ _).trans (List.suffix_append _ _)).isInfix

theorem Enclosed.of_mem_within (h : Enclosed opening closing G seg ts) (ht : t ∈ ts) :
    ∃ inner, G inner t ∧ inner <:+: seg := by
  cases h with
  | none => exact absurd ht List.not_mem_nil
  | some _ items _ =>
    obtain ⟨inner, hinner, hpart⟩ := items.of_mem_within ht
    refine ⟨inner, hinner, hpart.trans ?_⟩
    exact (List.prefix_append _ _).isInfix.trans (List.suffix_cons _ _).isInfix

/-- What an annotation was given was read from a part of its tokens. -/
theorem AnnotationCall.of_slot {u : Tree} {name : String} {ids : List NodeId} {id : NodeId}
    (h : AnnotationCall G seg u) (hexpr : u.expr = .annotationCall name ids) (hid : id ∈ ids) :
    ∃ t ∈ u.children, t.root = id ∧ ∃ inner, G inner t ∧ inner <:+: seg := by
  cases h with
  | @mk sign words rest ts _ _ _ parameters =>
    cases hexpr
    obtain ⟨t, ht, rfl⟩ := List.mem_map.mp hid
    refine ⟨t, ht, rfl, ?_⟩
    cases parameters with
    | none => exact absurd ht List.not_mem_nil
    | some items =>
      obtain ⟨inner, hinner, hpart⟩ := items.of_mem_within ht
      refine ⟨inner, hinner, hpart.trans ?_⟩
      exact ((List.suffix_append _ _).trans (List.suffix_cons _ _)).isInfix

/-! ## Signatures -/

/-- A tree that is no signature. -/
def Unsigned : Phrase := fun _ t => t.expr.kind ≠ .signature

/-- A tree that was read as a signature if it is one. -/
def ReadIfSigned (env : ParserEnv) : Phrase := fun seg t =>
  t.expr.kind = .signature → Signature env seg t

theorem Declaration.unsigned (h : Declaration env E Unsigned seg t) : Unsigned seg t := by
  cases h with
  | typeDef typeDef =>
    cases typeDef
    exact nofun
  | method method =>
    cases method
    exact nofun
  | annotated phrase => exact phrase

/-- A signature declares the text of a name or an operator that stands in it. -/
theorem Signature.signs {a : Arena} (h : Signature env seg t) (hheld : a.Holds t) :
    ∃ token ∈ seg, (token.is .identifier ∨ token.is .operator) ∧ a.Signs t.root token.value := by
  cases h with
  | @mk l r token seg params rest u named result ps id nid _ _ _ hkind =>
    refine ⟨token, by simp, by simpa using hkind, nid, _, _, _, _, hheld.shows.expr, ?_⟩
    have hname := hheld.child (c := nameLeaf nid token) (List.mem_cons_of_mem _ List.mem_cons_self)
    exact hname.shows.expr

end Language

namespace Grammar

open ApiSyntax.Language ApiSyntax.Discipline

variable {S : Setting} {env : ParserEnv} {s s' : ParserState} {id : NodeId} {params : List NodeId}

/-- An expression is no signature. -/
theorem expression_unsigned (depth : Nat) :
    Reads S env (readN depth .expression) (One Unsigned) := by
  intro s hs
  have hread : Outcome S s (One anything) (readN depth .expression env s) :=
    expression_forget depth s hs
  generalize hrun : readN depth .expression env s = r at hread
  cases hread with
  | lost lost => exact .lost lost
  | done step post =>
    obtain ⟨t, rfl, rfl, -⟩ := post
    have hquiet : (quiet .builtin).Yields env [] (readN depth .expression) .expression :=
      readN_quiet_yields depth rfl
    obtain ⟨e, he, hadmits⟩ := hquiet.knows_of_run hrun _ List.mem_cons_self
    cases (step.arena.holds List.mem_cons_self).shows.expr.symm.trans he
    refine .done step ⟨t, rfl, rfl, fun hkind => ?_⟩
    have hrole := Role.kind_of_admits hadmits
    rw [hkind] at hrole
    revert hrole
    decide

/-- Nothing that is read as an expression or as an annotation is a signature. -/
theorem sound_unsigned (hext : env.extensions = .builtin) (depth : Nat) :
    Sound .any env Unsigned Unsigned (readN depth) := by
  refine sound_readN expression_unsigned (fun read h => ?_) depth
  have hcall := annotationCall_reads (fun _ => trivial) (keepsArena_of_builtin hext)
    (parameter_forget h)
  refine hcall.imp fun seg t ht => ?_
  cases ht
  exact nofun

/-- What an annotation is given was read as a signature where it is one. -/
theorem annotationCall_signed (hext : env.extensions = .builtin) (depth : Nat) :
    Reads .any env (readN depth .annotationCall) (One (AnnotationCall (ReadIfSigned env))) := by
  cases depth with
  | zero => exact fun s hs => .exhausted (Step.refl hs)
  | succ depth =>
    apply annotationCall_reads (fun _ => trivial) (keepsArena_of_builtin hext)
    apply parameter_reads (sound_unsigned hext depth)
    · exact fun seg t h hkind => absurd hkind h.unsigned
    · exact fun seg t h _ => h
    · exact fun seg t h hkind => absurd hkind h

/-- The extension that an annotation names ran on the arena in which the annotation is found. -/
theorem annotationCall_invoked {read : Production → Parser NodeId} {name : String}
    (hext : env.extensions = .builtin) (hrun : annotationCall read env s = (.ok id, s'))
    (hnode : s'.work.arena.expr id = .ok (.annotationCall name params)) :
    ∃ e site w, Registry.builtin.get? name = some e ∧ w.arena = s'.work.arena ∧
      e.invoke site params w = (.ok (), s'.work) := by
  obtain ⟨sign, s₁, -, hrun⟩ := bind_eq_ok.mp hrun
  obtain ⟨name', s₂, -, hrun⟩ := bind_eq_ok.mp hrun
  obtain ⟨e, s₃, he, hrun⟩ := bind_eq_ok.mp hrun
  obtain ⟨params', s₄, -, hrun⟩ := bind_eq_ok.mp hrun
  obtain ⟨found, s₅, -, hrun⟩ := bind_eq_ok.mp hrun
  split at hrun
  · obtain ⟨node, s₆, halloc, hrun⟩ := bind_eq_ok.mp hrun
    obtain ⟨_, s₇, hinvoke, hrest⟩ := bind_eq_ok.mp hrun
    cases hrest
    cases halloc
    obtain ⟨site, events, hinvoke⟩ := invoke_eq_ok hinvoke
    have hget := (extensionAt_eq_ok he).1
    rw [hext] at hget
    have hkept := Registry.keepsArena_builtin hget site params'
    have harena := congrArg Workspace.arena (congrArg Prod.snd hinvoke)
    rw [hkept] at harena
    have hmade := expr_push_next s₅.work.arena sign (.annotationCall name' params')
    rw [← harena] at hnode
    cases hmade.symm.trans hnode
    exact ⟨e, site, _, hget, harena, hinvoke⟩
  · cases hrun

/-! ## Declarations of operators -/

/-- The name of the extension that declares operators of a fixity. -/
def declarerName : Fixity → String
  | .infixOp => "Operator.Infix"
  | .prefixOp => "Operator.Prefix"

theorem get?_declarerName {fixity : Fixity} {e : Extension}
    (h : Registry.builtin.get? (declarerName fixity) = some e) :
    e = .declaring (declarerName fixity) fixity := by
  obtain ⟨hname, hone⟩ := Registry.get?_builtin h
  cases fixity with
  | infixOp =>
    rcases hone with rfl | rfl | rfl
    · rfl
    · exact absurd hname (by decide)
    · exact absurd hname (by decide)
  | prefixOp =>
    rcases hone with rfl | rfl | rfl
    · exact absurd hname (by decide)
    · rfl
    · exact absurd hname (by decide)

/-- An annotation that declares operators of a fixity is given one signature, and that declares the
text of a name or an operator ahead of the annotation.  Behind the annotation this text is an
operator of that fixity. -/
theorem annotationCall_declares {depth : Nat} {fixity : Fixity} (hext : env.extensions = .builtin)
    (hrun : readN depth .annotationCall env s = (.ok id, s'))
    (hnode : s'.work.arena.expr id = .ok (.annotationCall (declarerName fixity) params)) :
    ∃ sig, params = [sig] ∧ ∃ token ∈ s.cursor.rest,
      (token.is .identifier ∨ token.is .operator) ∧ s'.work.arena.Signs sig token.value ∧
        s'.work.operators.contains token.value fixity := by
  cases depth with
  | zero => cases hrun
  | succ depth =>
    -- What the extension did, seen in the arena.
    obtain ⟨e, site, w, hget, harena, hinvoke⟩ := annotationCall_invoked hext hrun hnode
    rw [get?_declarerName hget] at hinvoke
    obtain ⟨sig, symbol, rfl, hsymbol, hdeclared, -⟩ := Extension.declaring_declares hinvoke
    rw [harena] at hsymbol
    -- What the annotation was given, seen in the tokens.
    have hread := annotationCall_signed hext (depth + 1) s (any_fits s)
    obtain ⟨seg, ts, step, u, rfl, rfl, hu⟩ := hread.of_run hrun
    have hheld := step.arena.holds List.mem_cons_self
    have hexpr := Except.ok.inj (hheld.shows.expr.symm.trans hnode)
    obtain ⟨t, ht, rfl, inner, hinner, hpart⟩ := hu.of_slot hexpr List.mem_cons_self
    have hkind : t.expr.kind = .signature := by
      obtain ⟨f, hf, hkind⟩ := kind_eq_ok.mp (Site.kind_of_signatureName hsymbol)
      cases (hheld.child ht).shows.expr.symm.trans hf
      exact hkind
    obtain ⟨token, htoken, hnamed, hsigns⟩ := (hinner hkind).signs (hheld.child ht)
    cases hsymbol.symm.trans (site.signatureName_of_signs hsigns)
    refine ⟨t.root, rfl, token, ?_, hnamed, hsigns, ?_⟩
    · rw [step.passes.ahead]
      exact List.mem_append_left _ (hpart.subset htoken)
    · rw [contains_declare hdeclared, decide_eq_true rfl, Bool.true_or]

end Grammar

end ApiSyntax
