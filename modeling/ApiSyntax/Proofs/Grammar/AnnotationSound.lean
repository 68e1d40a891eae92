/-
  ApiSyntax/Proofs/Grammar/AnnotationSound.lean --- annotations and what they run.

  What an extension does to the operators shows in the rest of the text, so where there
  are annotations nothing is said about what an expression is.  What stays is the arena:
  the extensions of the language make no nodes and change none.
-/
import ApiSyntax.Proofs.Grammar.ProgramSound

set_option autoImplicit false

namespace ApiSyntax

/-! ## Extensions and the arena -/

/-- The action leaves the arena alone. -/
def Action.KeepsArena {ε α : Type} (x : Action Workspace ε α) : Prop :=
  ∀ w, (x w).2.arena = w.arena

section

variable {ε α β : Type}

theorem Action.KeepsArena.bind {x : Action Workspace ε α} {f : α → Action Workspace ε β}
    (hx : x.KeepsArena) (hf : ∀ a, (f a).KeepsArena) : (x >>= f).KeepsArena :=
  Action.bind_rel (R := fun w w' : Workspace => w'.arena = w.arena) (fun h h' => h'.trans h) hx hf

theorem Action.KeepsArena.mapError {ε' : Type} {x : Action Workspace ε α} (hx : x.KeepsArena)
    (f : ε → ε') : (x.mapError f).KeepsArena := by
  intro w
  rw [mapError_snd]
  exact hx w

theorem Workspace.keepsArena_ask (f : Workspace → Except ε α) : (Workspace.ask f).KeepsArena :=
  fun _ => rfl

theorem Workspace.keepsArena_grow (g : OperatorTable → Except ε OperatorTable) :
    (Action.tryChange fun w : Workspace =>
      (g w.operators).map ({ w with operators := · })).KeepsArena := by
  intro w
  unfold Action.tryChange
  dsimp only
  cases g w.operators <;> rfl

theorem Workspace.keepsArena_note (e : Event) :
    (Workspace.note e : Action Workspace ε Unit).KeepsArena := fun _ => rfl

end

theorem Site.keepsArena_declare (s : Site) (symbol : String) (fixity : Fixity) :
    (s.declare symbol fixity).KeepsArena := by
  intro w
  have hdeclare : (Workspace.declare symbol fixity).KeepsArena :=
    .bind (Workspace.keepsArena_grow (·.declare symbol fixity)) fun _ => Workspace.keepsArena_note _
  exact hdeclare.mapError _ w

theorem Site.keepsArena_relate (s : Site) (left right : String) (p : Precedence) :
    (s.relate left right p).KeepsArena := by
  intro w
  have hrelate : (Workspace.relate left right p).KeepsArena :=
    .bind (Workspace.keepsArena_grow (·.relate left right p)) fun _ => Workspace.keepsArena_note _
  exact hrelate.mapError _ w

/-- The extension leaves the arena alone. -/
def Extension.KeepsArena (e : Extension) : Prop := ∀ site params, (e.invoke site params).KeepsArena

theorem Extension.keepsArena_declaring (name : String) (fixity : Fixity) :
    (Extension.declaring name fixity).KeepsArena := by
  intro site params
  rcases params with _ | ⟨sig, _ | ⟨other, rest⟩⟩
  · exact Workspace.keepsArena_ask _
  · exact .bind (Workspace.keepsArena_ask _) fun _ => site.keepsArena_declare _ _
  · exact Workspace.keepsArena_ask _

theorem Extension.keepsArena_binding (name : String) : (Extension.binding name).KeepsArena := by
  intro site params
  rcases params with _ | ⟨tighter, _ | ⟨looser, _ | ⟨other, rest⟩⟩⟩
  · exact Workspace.keepsArena_ask _
  · exact Workspace.keepsArena_ask _
  · refine .bind (Workspace.keepsArena_ask _) fun _ => .bind (Workspace.keepsArena_ask _) fun _ => ?_
    exact site.keepsArena_relate _ _ _
  · exact Workspace.keepsArena_ask _

/-- The extensions that every source text knows leave the arena alone. -/
theorem Registry.keepsArena_builtin {name : String} {e : Extension}
    (h : Registry.builtin.get? name = some e) : e.KeepsArena := by
  obtain ⟨-, rfl | rfl | rfl⟩ := Registry.get?_builtin h
  · exact Extension.keepsArena_declaring _ _
  · exact Extension.keepsArena_declaring _ _
  · exact Extension.keepsArena_binding _

namespace Language

/-- Parameters between parentheses, or nothing. -/
inductive Parameters (P : Phrase) : List Token → List Tree → Prop
  | none : Parameters P [] []
  | some {seg : List Token} {ts : List Tree} (items : Enclosed .lparen .rparen P seg ts) :
      Parameters P seg ts

/-- An annotation: its sign, the words of its name, its parameters. -/
inductive AnnotationCall (P : Phrase) : Phrase
  | mk {sign : Token} {words seg : List Token} {ts : List Tree} {id : NodeId} {name : String}
      (hsign : sign.is .annotationSign) (parameters : Parameters P seg ts) :
      AnnotationCall P (sign :: (words ++ seg))
        (.node id sign (.annotationCall name (ts.map Tree.root)) ts)

end Language

namespace Grammar

open ApiSyntax.Language ApiSyntax.Parser

variable {S : Setting} {env : ParserEnv} {read : Production → Parser NodeId}

/-! ## Annotations -/

/-- Any tree, whatever it was read from. -/
def anything : Phrase := fun _ _ => True

/-- Any tree that was read from some tokens. -/
def something : Phrase := fun seg _ => seg ≠ []

theorem Reads.forget {x : Parser NodeId} {G : Phrase} (h : Reads S env x (One G)) :
    Reads S env x (One anything) := h.imp fun _ _ _ => trivial

theorem extensionName_reads : Reads S env extensionName (fun _ _ ts => ts = []) := by
  intro s hs
  unfold extensionName
  refine (Step.refl hs).token (expectAny_reads _) fun first s₁ _ h₁ => ?_
  let Parts (_ : List String) (_ : List Token) (ts : List Tree) : Prop := ts = []
  refine h₁.next (loop_reads (I := Parts) (Q := Parts) ?_ rfl) fun parts s₂ seg ts hts h₂ => ?_
  · intro b parts s seg ts hts h
    rw [remaining_bind]
    refine .cond (fun _ => ?_) fun _ => .pure h hts
    refine h.consume fun dot _ s₂ _ h₂ => ?_
    refine h₂.consume fun part _ s₃ _ h₃ => ?_
    exact .pure h₃ hts
  · exact .pure h₂ hts

theorem extensionAt_reads {place : Span} {name : String} :
    Reads S env (extensionAt place name)
      (fun e seg ts => env.extensions.get? name = some e ∧ seg = [] ∧ ts = []) := by
  intro s hs
  unfold extensionAt
  rw [env_bind]
  cases hget : env.extensions.get? name with
  | some e => exact .pure (Step.refl hs) ⟨rfl, rfl, rfl⟩
  | none => exact .fail (Step.refl hs)

/-- The productions that a parameter is read as. -/
def parameterKinds : List Production := [.method, .signature, .expression]

theorem parameters_reads {P : Phrase} {e : Extension}
    (hread : ∀ p ∈ parameterKinds, Reads S env (read p) (One P)) :
    Reads S env (parameters read e) (Many (Parameters P)) := by
  have hlist : Reads S env (parameterList read) (Many (Parameters P)) :=
    (parenthesizedList_reads (choice_reads hread)).mono fun ids seg ts h => ⟨h.1, .some h.2⟩
  intro s hs
  unfold parameters
  rw [check_bind]
  refine .cond (fun _ => .cond (fun _ => ?_) fun _ => hlist s hs) fun _ =>
    .pure (Step.refl hs) ⟨rfl, .none⟩
  refine (Step.refl hs).next (attempt_reads hlist) fun o s₁ seg ts ho h₁ => ?_
  cases o with
  | none =>
    obtain ⟨rfl, rfl⟩ := ho
    exact .pure h₁ ⟨rfl, .none⟩
  | some ids => exact .pure h₁ ho

variable (hfree : ∀ table, S.Tables table)
include hfree

theorem invoke_reads {e : Extension} {name : String} {place : Span} {node : NodeId}
    {params : List NodeId} (he : e.KeepsArena) :
    Reads S env (invoke e name place node params) (fun _ seg ts => seg = [] ∧ ts = []) := by
  intro s hs
  unfold invoke
  rw [phase_bind]
  refine (Step.refl hs).noted fun s₁ h₁ => ?_
  have hkeeps := (he ⟨s.phase, node⟩ params).mapError fun d => Stop.failed (d.orPlaced place)
  have harena := hkeeps s₁.work
  rw [building_run]
  generalize Action.mapError _ _ _ = r at harena
  have hstep : Step S s { s₁ with work := r.2 } [] [] :=
    ⟨h₁.passes, ⟨hfree _, h₁.fits.tokens⟩, harena ▸ h₁.arena⟩
  cases r with
  | mk result w =>
    cases result with
    | ok a => exact .done hstep ⟨rfl, rfl⟩
    | error e => exact .lost hstep.lose

theorem annotationCall_reads {P : Phrase}
    (hext : ∀ name e, env.extensions.get? name = some e → e.KeepsArena)
    (hread : ∀ p ∈ parameterKinds, Reads S env (read p) (One P)) :
    Reads S env (annotationCall read) (One (AnnotationCall P)) := by
  intro s hs
  unfold annotationCall
  refine (Step.refl hs).token (expect_reads .annotationSign) fun t s₁ ht h₁ => ?_
  refine h₁.next extensionName_reads fun name s₂ words ts hts h₂ => ?_
  subst hts
  refine h₂.next extensionAt_reads fun e s₃ seg ts he h₃ => ?_
  obtain ⟨hget, rfl, rfl⟩ := he
  refine h₃.next (parameters_reads hread) fun ids s₄ seg ts hids h₄ => ?_
  obtain ⟨rfl, hparams⟩ := hids
  refine h₄.next_result (y := atArena _) rfl fun found _ => .cond (fun _ => ?_) fun _ => .fail h₄
  refine h₄.gather rfl fun id s₅ h₅ => ?_
  refine h₅.next (invoke_reads hfree (hext name e hget)) fun _ s₆ seg ts hnone h₆ => ?_
  obtain ⟨rfl, rfl⟩ := hnone
  have hcall := @AnnotationCall.mk P t words _ _ id name ht hparams
  exact .pure h₆ ⟨_, rfl, rfl, by simpa using hcall⟩

omit hfree in
/-- What all expressions are, whatever the operators are at their start. -/
theorem expression_reads_of {G : Phrase}
    (hG : ∀ table seg t, Expression env table seg t → G seg t) (depth : Nat) :
    Reads S env (readN depth .expression) (One G) := by
  intro s hs
  have hfixed : (Setting.fixed s.work.operators).Fits s := ⟨rfl, fun _ _ => trivial⟩
  have hread : Reads (.fixed s.work.operators) env (readN depth .expression)
      (One (Expression env s.work.operators)) :=
    readN_expression_reads (fun _ htable => htable) depth
  exact ((hread.imp (hG _)) s hfixed).widen hs

omit hfree in
/-- An expression leaves a tree behind. -/
theorem expression_forget (depth : Nat) : Reads S env (readN depth .expression) (One anything) :=
  expression_reads_of (fun _ _ _ _ => trivial) depth

omit hfree in
/-- What may be a parameter is a method, a signature or an expression. -/
theorem parameter_reads {E A P : Phrase} (h : Sound S env E A read)
    (hdeclaration : ∀ seg t, Declaration env E A seg t → P seg t)
    (hsignature : ∀ seg t, Signature env seg t → P seg t) (hE : ∀ seg t, E seg t → P seg t) :
    ∀ p ∈ parameterKinds, Reads S env (read p) (One P) := by
  intro p hp
  simp only [parameterKinds, List.mem_cons, List.not_mem_nil, or_false] at hp
  rcases hp with rfl | rfl | rfl
  · exact (h.declaration .method (by decide)).imp hdeclaration
  · exact h.signature.imp hsignature
  · exact h.expression.imp hE

omit hfree in
/-- What may be a parameter leaves a tree behind. -/
theorem parameter_forget {E A : Phrase} (h : Sound S env E A read) :
    ∀ p ∈ parameterKinds, Reads S env (read p) (One anything) :=
  parameter_reads h (fun _ _ _ => trivial) (fun _ _ _ => trivial) fun _ _ _ => trivial

omit hfree in
theorem keepsArena_of_builtin (hext : env.extensions = .builtin) :
    ∀ name e, env.extensions.get? name = some e → e.KeepsArena := by
  intro name e hget
  rw [hext] at hget
  exact Registry.keepsArena_builtin hget

/-- Where the operators may change, every production leaves trees behind, and annotations pass
tokens. -/
theorem sound_free (hext : ∀ name e, env.extensions.get? name = some e → e.KeepsArena)
    (depth : Nat) : Sound S env anything something (readN depth) :=
  sound_readN expression_forget
    (fun _ h => (annotationCall_reads hfree hext (parameter_forget h)).imp
      fun _ _ hcall => by cases hcall; exact List.cons_ne_nil _ _) depth

omit hfree in
/-- Whatever the tokens are, every production leaves trees behind. -/
theorem sound_any (hext : env.extensions = .builtin) (depth : Nat) :
    Sound .any env anything anything (readN depth) :=
  sound_readN expression_forget
    (fun _ h => Reads.forget (annotationCall_reads (fun _ => trivial) (keepsArena_of_builtin hext)
      (parameter_forget h))) depth

end Grammar

end ApiSyntax
