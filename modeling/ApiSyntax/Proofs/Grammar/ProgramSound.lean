/-
  ApiSyntax/Proofs/Grammar/ProgramSound.lean --- what is read as a program is one.

  Here the knot of statements, declarations and annotations is tied: an annotation may
  have methods as parameters, and the blocks of methods may have annotations.  What an
  expression and what an annotation is stays open, so that the same knot serves a
  grammar without annotations and one where they make the operators grow.

  A program names its annotations ahead of its APIs, and its node is tagged with them;
  tags change no child slot.
-/
import ApiSyntax.Proofs.Grammar.DeclarationSound

set_option autoImplicit false

namespace ApiSyntax.Grammar

open ApiSyntax.Language ApiSyntax.Parser

variable {S : Setting} {env : ParserEnv} {read : Production → Parser NodeId} {E A : Phrase}

/-! ## The knot -/

/-- The productions that a statement is read as. -/
def statements : List Production :=
  [.assignment, .annotationCall, .deferred, .instanceCall, .staticCall]

/-- The productions that a declaration is read as. -/
def declarations : List Production := [.typeDef, .method, .annotationCall]

/-- What the productions are read as, with expressions `E` and annotations `A`. -/
structure Sound (S : Setting) (env : ParserEnv) (E A : Phrase)
    (read : Production → Parser NodeId) : Prop where
  type : Reads S env (read .type) (One (Typing env))
  pair : Reads S env (read .pair) (One (Pair env))
  expression : Reads S env (read .expression) (One E)
  returned : Reads S env (read .returned) (One (Return E))
  statement : ∀ p ∈ statements, Reads S env (read p) (One (Statement env E A))
  block : Reads S env (read .block) (One (Block (Statement env E A) E))
  signature : Reads S env (read .signature) (One (Signature env))
  within : Reads S env (read .within) (One (Within env))
  withApis : Reads S env (read .withApis) (One (WithApis env))
  declaration : ∀ p ∈ declarations, Reads S env (read p) (One (Declaration env E A))
  annotated : Reads S env (read .annotationCall) (One A)
  api : Reads S env (read .api) (One (Api env E A))

/-- On no bound nothing is read. -/
theorem sound_readN_zero : Sound S env E A (readN 0) := by
  have hnone : ∀ (p : Production) (G : Phrase), Reads S env (readN 0 p) (One G) :=
    fun p G s hs => .exhausted (Step.refl hs)
  constructor <;> intros <;> apply hnone

/-- Productions are read as they should be when those nested in them are. -/
theorem Sound.step (h : Sound S env E A read) (hE : Reads S env (step read .expression) (One E))
    (hA : Reads S env (annotationCall read) (One A)) : Sound S env E A (step read) where
  type := type_reads h.type
  pair := pair_reads h.type
  expression := hE
  returned := returned_reads h.expression
  statement p hp := by
    simp only [statements, List.mem_cons, List.not_mem_nil, or_false] at hp
    rcases hp with rfl | rfl | rfl | rfl | rfl
    · exact assignment_reads h.type h.expression
    · exact hA.imp fun _ _ h => .annotated h
    · exact deferred_reads h.block
    · exact (instanceCall_reads h.expression).imp fun _ _ h => .call h
    · exact (staticCall_reads h.expression).imp fun _ _ h => .static h
  block := block_reads h.returned (choice_reads h.statement)
  signature := signature_reads h.type h.pair
  within := within_reads
  withApis := withApis_reads
  declaration p hp := by
    simp only [declarations, List.mem_cons, List.not_mem_nil, or_false] at hp
    rcases hp with rfl | rfl | rfl
    · exact (typeDef_reads h.pair).imp fun _ _ h => .typeDef h
    · exact (method_reads h.signature h.block).imp fun _ _ h => .method h
    · exact hA.imp fun _ _ h => .annotated h
  annotated := hA
  api := api_reads h.within h.withApis (choice_reads h.declaration)

/-- What is read as a production is one, given what expressions and annotations are. -/
theorem sound_readN (hE : ∀ depth, Reads S env (readN depth .expression) (One E))
    (hA : ∀ read, Sound S env E A read → Reads S env (annotationCall read) (One A))
    (depth : Nat) : Sound S env E A (readN depth) := by
  induction depth with
  | zero => exact sound_readN_zero
  | succ depth ih => exact ih.step (hE (depth + 1)) (hA _ ih)

/-! ## Programs -/

/-- What stands in a program: an API, or an annotation. -/
inductive TopLevel (env : ParserEnv) (E A : Phrase) : Phrase
  | api {seg : List Token} {t : Tree} (api : Api env E A seg t) : TopLevel env E A seg t
  | annotated {seg : List Token} {t : Tree} (phrase : A seg t) : TopLevel env E A seg t

/-- The tree is that of an annotation. -/
def annotates (t : Tree) : Bool := t.expr.kind = .annotationCall

/-- The handles of annotations are told apart from the others. -/
theorem separate_eq {a : Arena} {ts : List Tree} (hts : ∀ t ∈ ts, a.Holds t) :
    separate a (ts.map Tree.root) = .ok ((ts.filter annotates).map Tree.root,
      (ts.filter fun t => !annotates t).map Tree.root) := by
  induction ts with
  | nil => rfl
  | cons t ts ih =>
    obtain ⟨tags, hnode⟩ := (hts t List.mem_cons_self).shows.node
    have hkind : a.kind t.root = .ok t.expr.kind := by
      rw [Arena.kind, hnode]
      rfl
    have hrest := ih fun u hu => hts u (List.mem_cons_of_mem _ hu)
    simp only [List.map_cons, separate, hkind, hrest, bind, Except.bind]
    by_cases hannotates : t.expr.kind = .annotationCall
    · simp [annotates, hannotates, pure, Except.pure]
    · simp [annotates, hannotates, pure, Except.pure]

variable {b s : ParserState} {seg : List Token} {ts : List Tree}

theorem tagAll_step {t : Tree} {ids : List NodeId} (h : Step S b s seg [t]) :
    Outcome S b (fun _ seg' ts' => seg' = seg ∧ ts' = [t]) (tagAll t.root ids env s) := by
  induction ids generalizing s with
  | nil => exact .pure h ⟨rfl, rfl⟩
  | cons id ids ih =>
    rw [tagAll]
    refine h.next_result (y := atArena _) rfl fun e _ => ?_
    cases e
    case annotationCall name params => exact h.tagged fun new s₁ h₁ => ih h₁
    all_goals exact ih h

/-- What a program comes to: all tokens are passed, and in a strict run they are what stands in
the program, in their order. -/
def ProgramRead (env : ParserEnv) (E A : Phrase) (tokens : List Token) (start : Token)
    (id : NodeId) (seg : List Token) (ts : List Tree) : Prop :=
  ∃ (us : List Tree) (t : Tree), id = t.root ∧ ts = [t] ∧ seg = tokens ∧
    (env.config.permissive = false → Repeated (TopLevel env E A) tokens us) ∧
    t = .node t.root start
      (.program ((us.filter fun u => !annotates u).map Tree.root)
        ((us.filter annotates).map Tree.root))
      (us.filter annotates ++ us.filter fun u => !annotates u)

/-- What the APIs and annotations of a program come to. -/
def Parts (env : ParserEnv) (E A : Phrase) (tokens : List Token) (ids : List NodeId)
    (seg : List Token) (us : List Tree) : Prop :=
  seg = tokens ∧ ids = us.map Tree.root ∧
    (env.config.permissive = false → Repeated (TopLevel env E A) seg us)

theorem parts_outcome (h : Sound S env E A read) (hs : S.Fits s) :
    Outcome S s (Parts env E A s.cursor.rest)
      (inPhase .program (execute ([.annotationCall, .api].map (Production.ruleOf read))) env s) := by
  have hrules : ∀ r ∈ [Production.annotationCall, .api].map (Production.ruleOf read),
      Reads S env r.parse (One (TopLevel env E A)) := by
    intro r hr
    simp only [List.map_cons, List.map_nil, List.mem_cons, List.not_mem_nil, or_false] at hr
    rcases hr with rfl | rfl
    · exact h.annotated.imp fun _ _ ht => .annotated ht
    · exact h.api.imp fun _ _ ht => .api ht
  refine inPhase_outcome (execute_outcome hrules ⟨rfl, fun _ => .none⟩ ?_ ?_
    ⟨hs.tables, hs.tokens⟩)
  · intro ids seg us id seg' us' hids hid
    obtain ⟨rfl, hus⟩ := hids
    obtain ⟨t, rfl, rfl, ht⟩ := hid
    exact ⟨by simp, fun hstrict => (hus hstrict).snoc ht⟩
  · intro hpermissive ids seg us t hids
    exact ⟨hids.1, fun hstrict => absurd hpermissive (by simp [hstrict])⟩

theorem program_outcome (h : Sound S env E A read) (hs : S.Fits s) :
    Outcome S s (ProgramRead env E A s.cursor.rest s.cursor.startToken) (program read env s) := by
  unfold program
  rw [startToken_bind]
  refine (parts_outcome h hs).bind fun ids s₁ seg us hids h₁ => ?_
  obtain ⟨rfl, rfl, hus⟩ := hids
  rw [atArena_bind (separate_eq fun u hu => h₁.arena.holds hu)]
  have hperm : us.Perm (us.filter annotates ++ us.filter fun u => !annotates u) :=
    (List.filter_append_perm annotates us).symm
  refine (h₁.perm hperm).gather (by simp [Expr.children]) fun id s₂ h₂ => ?_
  refine (tagAll_step h₂).bind fun _ s₃ seg₃ ts₃ hts h₃ => ?_
  obtain ⟨rfl, rfl⟩ := hts
  exact .pure h₃ ⟨us, _, rfl, rfl, rfl, hus, rfl⟩

end ApiSyntax.Grammar
