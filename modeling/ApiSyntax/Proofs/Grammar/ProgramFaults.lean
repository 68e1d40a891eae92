/-
  ApiSyntax/Proofs/Grammar/ProgramFaults.lean --- what a whole run may fail of.

  What an extension of the language reports is placed at its annotation, and the handles
  that it looks up are those of its parameters and of their names.  At the top level an
  annotation and an API start with other tokens, so no two rules accept the same input.

  Main statement (`goal_clean`): whatever a whole input is read as, and whatever the operators
  and the switches are, the run is clean.
-/
import ApiSyntax.Proofs.Grammar.Faults

set_option autoImplicit false

namespace ApiSyntax

open Arena

/-! ## Extensions -/

variable {T : Token → Prop} {α β : Type}

/-- The action gives up no alternative, and what it fails of is a fault. -/
structure Action.Faults (T : Token → Prop) (x : Action Workspace Diagnostic α) (w : Workspace) :
    Prop where
  work : (x w).2.Clean T
  error : ∀ d, (x w).1 = .error d → d.Fault T

theorem Action.Faults.bind {x : Action Workspace Diagnostic α}
    {f : α → Action Workspace Diagnostic β} {w : Workspace} (hx : x.Faults T w)
    (hf : ∀ a, (x w).1 = .ok a → (f a).Faults T (x w).2) : (x >>= f).Faults T w := by
  obtain ⟨hwork, herror⟩ := hx
  constructor
  · rw [Action.bind_run]
    rcases hrun : x w with ⟨_ | a, w'⟩
    · rw [hrun] at hwork
      exact hwork
    · rw [hrun] at hf
      exact (hf a rfl).work
  · intro d hd
    rw [Action.bind_run] at hd
    rcases hrun : x w with ⟨e | a, w'⟩
    · rw [hrun] at hd herror
      cases hd
      exact herror d rfl
    · rw [hrun] at hd hf
      exact (hf a rfl).error d hd

theorem Workspace.faults_ask {f : Workspace → Except Diagnostic α} {w : Workspace}
    (hw : w.Clean T) (hf : ∀ d, f w = .error d → d.Fault T) : (Workspace.ask f).Faults T w :=
  ⟨hw, hf⟩

namespace Site

variable {s : Site} {w : Workspace} {t : Token}

/-- A change of the operators that is refused for the sake of the text. -/
theorem faults_grow {g : OperatorTable → Except Diagnostic OperatorTable} {e : Event}
    (hg : ∀ table d, g table = .error d → d.cause.isTextual) (he : e.Clean T)
    (hspan : s.span w.arena = t.span) (ht : T t) (hw : w.Clean T) :
    (s.placing (do
      .tryChange fun w => (g w.operators).map ({ w with operators := · })
      Workspace.note e)).Faults T w := by
  cases hrun : g w.operators with
  | ok table =>
    have hplaced : s.placing (do
        .tryChange fun w => (g w.operators).map ({ w with operators := · })
        Workspace.note e) w =
        (.ok (), { w with operators := table, events := w.events.push e }) := by
      simp only [placing, Action.mapError, Action.bind_run, Action.tryChange, hrun, Except.map]
      rfl
    refine ⟨?_, fun d hd => ?_⟩
    · rw [hplaced]
      exact hw.push he
    · rw [hplaced] at hd
      cases hd
  | error d =>
    have hplaced : s.placing (do
        .tryChange fun w => (g w.operators).map ({ w with operators := · })
        Workspace.note e) w = (.error (d.placed (s.span w.arena)), w) := by
      simp only [placing, Action.mapError, Action.bind_run, Action.tryChange, hrun, Except.map]
    refine ⟨?_, fun d' hd' => ?_⟩
    · rw [hplaced]
      exact hw
    · rw [hplaced] at hd'
      cases hd'
      have hcause : d.cause.isTextual := hg _ _ hrun
      exact Diagnostic.fault_of_span hcause (congrArg some hspan) ht

theorem declare_faults (symbol : String) (fixity : Fixity) (hspan : s.span w.arena = t.span)
    (ht : T t) (hw : w.Clean T) : (s.declare symbol fixity).Faults T w := by
  refine faults_grow (g := (·.declare symbol fixity)) (fun table d h => ?_) trivial hspan ht hw
  unfold OperatorTable.declare at h
  split at h
  · cases h
    rfl
  · cases h

theorem relate_faults (left right : String) (p : Precedence) (hspan : s.span w.arena = t.span)
    (ht : T t) (hw : w.Clean T) : (s.relate left right p).Faults T w := by
  refine faults_grow (g := (·.relate left right p)) (fun table d h => ?_) trivial hspan ht hw
  unfold OperatorTable.relate at h
  split at h
  · cases h
    rfl
  · split at h
    · cases h
      rfl
    · split at h
      · cases h
        rfl
      · cases h

/-- The name of a signature that is there is found. -/
theorem signatureName_faults {u : Tree} (hu : w.arena.Holds u) (hspan : s.span w.arena = t.span)
    (ht : T t) {d : Diagnostic} (h : s.signatureName w.arena u.root = .error d) : d.Fault T := by
  unfold signatureName at h
  rw [hu.shows.expr] at h
  cases hexpr : u.expr with
  | signature name receiver params returnType isStatic =>
    have hslots := hu.shows.slots
    rw [hexpr] at hslots
    have hname : name ∈ u.children.map Tree.root := by
      rw [← hslots]
      simp [Expr.children]
    obtain ⟨c, hc, rfl⟩ := List.mem_map.mp hname
    obtain ⟨tags, hnode⟩ := (hu.child hc).shows.node
    simp only [hexpr, bind, Except.bind, hnode] at h
    split at h
    · cases h
    · cases h
  | _ =>
    rw [hexpr] at h
    cases h
    exact Diagnostic.fault_of_span rfl (congrArg some hspan) ht

end Site

namespace Extension

variable {name : String} {site : Site} {us : List Tree} {w : Workspace} {t : Token}
  (hus : ∀ u ∈ us, w.arena.Holds u) (hspan : site.span w.arena = t.span) (ht : T t)
  (hw : w.Clean T)

theorem arityMismatch_fault {parameters : List NodeKind} {given : List NodeId}
    (hspan : site.span w.arena = t.span) (ht : T t) :
    (arityMismatch name parameters site given w.arena).Fault T :=
  Diagnostic.fault_of_span rfl (congrArg some hspan) ht

include hus hspan ht hw

theorem declaring_faults (fixity : Fixity) :
    ((declaring name fixity).invoke site (us.map Tree.root)).Faults T w := by
  have harity : ∀ given d, (.error (arityMismatch name [.signature] site given w.arena) :
      Except Diagnostic Unit) = .error d → d.Fault T := by
    intro given d hd
    cases hd
    exact arityMismatch_fault hspan ht
  rcases us with _ | ⟨sig, _ | ⟨other, rest⟩⟩
  · exact Workspace.faults_ask hw (harity _)
  · refine (Workspace.faults_ask hw fun d hd => ?_).bind fun symbol _ => ?_
    · exact site.signatureName_faults (hus sig List.mem_cons_self) hspan ht hd
    · exact site.declare_faults symbol fixity hspan ht hw
  · exact Workspace.faults_ask hw (harity _)

theorem binding_faults : ((binding name).invoke site (us.map Tree.root)).Faults T w := by
  have harity : ∀ given d,
      (.error (arityMismatch name [.signature, .signature] site given w.arena) :
        Except Diagnostic Unit) = .error d → d.Fault T := by
    intro given d hd
    cases hd
    exact arityMismatch_fault hspan ht
  rcases us with _ | ⟨tighter, _ | ⟨looser, _ | ⟨other, rest⟩⟩⟩
  · exact Workspace.faults_ask hw (harity _)
  · exact Workspace.faults_ask hw (harity _)
  · refine (Workspace.faults_ask hw fun d hd => ?_).bind fun left _ => ?_
    · exact site.signatureName_faults (hus tighter List.mem_cons_self) hspan ht hd
    refine (Workspace.faults_ask hw fun d hd => ?_).bind fun right _ => ?_
    · exact site.signatureName_faults (hus looser (by simp)) hspan ht hd
    · exact site.relate_faults left right .greater hspan ht hw
  · exact Workspace.faults_ask hw (harity _)

/-- What an extension of the language reports is placed at its annotation. -/
theorem faults_builtin {e : Extension} (hget : Registry.builtin.get? name = some e) :
    (e.invoke site (us.map Tree.root)).Faults T w := by
  obtain ⟨-, rfl | rfl | rfl⟩ := Registry.get?_builtin hget
  · exact declaring_faults hus hspan ht hw .infixOp
  · exact declaring_faults hus hspan ht hw .prefixOp
  · exact binding_faults hus hspan ht hw

end Extension

theorem Diagnostic.Fault.orPlaced {d : Diagnostic} {t : Token} (h : d.Fault T) (ht : T t) :
    (d.orPlaced t.span).Fault T where
  textual := h.textual
  placed hnone := nomatch hnone
  place span hspan := by
    cases hplaced : d.span with
    | none =>
      simp only [Diagnostic.orPlaced, hplaced, Option.getD_none, Option.some.injEq] at hspan
      exact ⟨t, ht, hspan⟩
    | some place =>
      simp only [Diagnostic.orPlaced, hplaced, Option.getD_some, Option.some.injEq] at hspan
      exact h.place span (hspan ▸ hplaced)

namespace Grammar

open ApiSyntax.Language ApiSyntax.Parser

variable {B : Prop} {S : Setting} {env : ParserEnv} {read : Production → Parser NodeId}
  {E A : Phrase} {n : Nat} {b s : ParserState} {seg : List Token} {ts : List Tree}

/-! ## Annotations -/

theorem extensionName_safe : Safe B S env n extensionName := by
  intro s hs hclean hn
  unfold extensionName
  refine (Track.refl hs hclean).expectAny _ fun first s₁ h₁ => ?_
  let Any (_ : List String) (_ : List Token) (_ : List Tree) : Prop := True
  refine h₁.bind (Q := fun _ _ _ => True) ?_ ?_ fun parts s₂ _ _ _ h₂ => .pure h₂.clean
  · refine h₁.toStep.loop (I := Any) ?_ trivial
    intro parts s₂ seg₂ ts₂ _ h₂
    rw [remaining_bind]
    refine .cond (fun _ => ?_) fun _ => .pure h₂ trivial
    exact h₂.consume fun dot _ s₃ _ h₃ => h₃.consume fun part _ s₄ _ h₄ => .pure h₄ trivial
  · refine h₁.loop (I := Any) ?_ ?_ trivial
    · intro parts s₂ seg₂ ts₂ _ h₂
      rw [remaining_bind]
      refine .cond (fun _ => ?_) fun _ => .pure h₂.clean
      exact h₂.consume fun dot s₃ h₃ => h₃.consume fun part s₄ h₄ => .pure h₄.clean
    · intro parts s₂ seg₂ ts₂ _ h₂
      rw [remaining_bind]
      refine .cond (fun _ => ?_) fun _ => .pure h₂.toStep trivial
      refine h₂.toStep.consume fun dot _ s₃ _ h₃ => h₃.consume fun part _ s₄ _ h₄ => ?_
      refine .pure h₄ ⟨trivial, ?_⟩
      simp only [List.length_append, List.length_singleton]
      omega

theorem extensionAt_tidy {t : Token} {name : String} (h : B → s.work.Clean S.Tokens)
    (ht : S.Tokens t) : Tidy B S.Tokens (extensionAt t.span name env s) := by
  unfold extensionAt
  rw [env_bind]
  cases env.extensions.get? name with
  | some e => exact .pure h
  | none => exact .fail h (Diagnostic.fault_of_span rfl rfl ht)

theorem parameters_safe {e : Extension}
    (hreads : ∀ p ∈ parameterKinds, Reads S env (read p) (One anything))
    (hread : ∀ p ∈ parameterKinds, Safe B S env n (read p)) :
    Safe B S env (n + 1) (parameters read e) := by
  have hlists : Reads S env (parameterList read) _ := parenthesizedList_reads (choice_reads hreads)
  have hlist : Safe B S env (n + 1) (parameterList read) :=
    parenthesizedList_safe (choice_reads hreads) (choice_safe hreads hread)
  intro s hs hclean hn
  have hstart := Track.refl hs hclean
  unfold parameters
  rw [check_bind]
  refine .cond (fun _ => .cond (fun _ => ?_) fun _ => hlist s hs hclean hn) fun _ => .pure hclean
  refine hstart.next (attempt_reads hlists) (hstart.safe (attempt_safe hlist) hn)
    fun o s₁ _ _ _ h₁ => ?_
  exact .pure h₁.clean

/-- The kinds of nodes that are there. -/
theorem kinds_eq {a : Arena} {us : List Tree} (hus : ∀ u ∈ us, a.Holds u) :
    (us.map Tree.root).mapM a.kind = .ok (us.map fun u => u.expr.kind) := by
  induction us with
  | nil => rfl
  | cons u us ih =>
    have hkind : a.kind u.root = .ok u.expr.kind := by
      obtain ⟨tags, hnode⟩ := (hus u List.mem_cons_self).shows.node
      rw [Arena.kind, hnode]
      rfl
    rw [List.map_cons, List.mapM_cons, hkind, ih fun v hv => hus v (List.mem_cons_of_mem _ hv)]
    rfl

/-- An extension of the language fails of faults only; of another one nothing is said. -/
theorem invoke_tidy {e : Extension} {name : String} {t : Token} {id : NodeId} {us : List Tree}
    (hget : B → Registry.builtin.get? name = some e) (ht : S.Tokens t)
    (h : Track B S b s seg [.node id t (.annotationCall name (us.map Tree.root)) us]) :
    Tidy B S.Tokens (invoke e name t.span id (us.map Tree.root) env s) := by
  unfold invoke
  rw [phase_bind]
  refine h.noted trivial fun s₁ h₁ => ?_
  have hheld := h₁.arena.holds List.mem_cons_self
  obtain ⟨tags, hfound⟩ := hheld.shows.found
  have hspan : Site.span ⟨s.phase, id⟩ s₁.work.arena = t.span := by
    have hnode : s₁.work.arena.node? id = some ⟨id, t, tags, _⟩ := hfound
    simp only [Site.span, hnode, Option.map_some, Option.getD_some, Node.span]
  have hus : ∀ u ∈ us, s₁.work.arena.Holds u := fun u hu => hheld.child hu
  have hfaults : B → (e.invoke ⟨s.phase, id⟩ (us.map Tree.root)).Faults S.Tokens s₁.work :=
    fun hB => Extension.faults_builtin hus hspan ht (h₁.clean hB) (hget hB)
  rw [building_run, Action.mapError]
  rcases hrun : e.invoke ⟨s.phase, id⟩ (us.map Tree.root) s₁.work with ⟨d | u, w⟩
  · refine .stopped (fun hB => ?_) fun hB => ?_
    · have hwork := (hfaults hB).work
      rwa [hrun] at hwork
    · exact ((hfaults hB).error d (congrArg Prod.fst hrun)).orPlaced ht
  · refine .ok fun hB => ?_
    have hwork := (hfaults hB).work
    rwa [hrun] at hwork

theorem annotationCall_safe (hfree : ∀ table, S.Tables table)
    (hext : ∀ name e, env.extensions.get? name = some e → e.KeepsArena)
    (hbuiltin : B → env.extensions = .builtin)
    (hreads : ∀ p ∈ parameterKinds, Reads S env (read p) (One anything))
    (hread : ∀ p ∈ parameterKinds, Safe B S env n (read p)) :
    Safe B S env (n + 1) (annotationCall read) := by
  intro s hs hclean hn
  unfold annotationCall
  refine (Track.refl hs hclean).expect .annotationSign fun t s₁ _ h₁ => ?_
  have ht : S.Tokens t := h₁.known (by simp)
  refine h₁.next extensionName_reads (h₁.safe extensionName_safe (Nat.lt_succ_self _))
    fun name s₂ seg₂ ts₂ hts h₂ => ?_
  subst hts
  refine h₂.next extensionAt_reads (extensionAt_tidy h₂.clean ht) ?_
  rintro e s₃ _ _ ⟨hget, rfl, rfl⟩ h₃
  refine h₃.next (parameters_reads hreads)
    (h₃.safe (parameters_safe hreads hread) (Nat.lt_succ_of_lt (h₃.lt hn (by simp)))) ?_
  rintro _ s₄ seg₄ us ⟨rfl, -⟩ h₄
  rw [atArena_bind (kinds_eq fun u hu => h₄.arena.holds hu)]
  refine .cond (fun _ => ?_) fun _ => .fail h₄.clean (Diagnostic.fault_of_span rfl rfl ht)
  refine h₄.gather rfl fun id s₅ h₅ => ?_
  refine h₅.next (invoke_reads hfree (hext name e hget))
    (invoke_tidy (fun hB => hbuiltin hB ▸ hget) ht h₅) fun _ s₆ _ _ _ h₆ => ?_
  exact .pure h₆.clean

/-! ## The top level -/

section

variable {rules : List Rule} (hreads : ∀ r ∈ rules, Reads S env r.parse Some)
  (hrules : ∀ r ∈ rules, Safe B S env n r.parse)
  (hone : ∀ tokens, (rules.filter (·.accepts tokens)).length ≤ 1)

include hreads hrules hone in
/-- At most one rule applies, so no ambiguity is reported. -/
theorem executeRound_safe {nodes : List NodeId} : Safe B S env n (executeRound rules nodes) := by
  intro s hs hclean hn
  have hstart := Track.refl hs hclean
  unfold executeRound
  rw [remaining_bind]
  have hmem : ∀ r ∈ rules.filter (·.accepts s.cursor.rest), r ∈ rules :=
    fun r hr => List.mem_of_mem_filter hr
  have hlength := hone s.cursor.rest
  generalize rules.filter (·.accepts s.cursor.rest) = matching at hmem hlength
  cases hrest : s.cursor.rest with
  | nil => exact .pure hclean
  | cons t rest =>
    match matching, hmem, hlength with
    | [rule], hmem, _ =>
      have hrule := hmem rule (List.mem_singleton_self _)
      refine hstart.noted trivial fun s₁ h₁ => ?_
      have hbefore := h₁.length_eq
      rw [List.length_nil, Nat.zero_add] at hbefore
      refine h₁.next (hreads rule hrule) (h₁.safe (hrules rule hrule) (by omega))
        fun id s₂ _ _ _ h₂ => ?_
      exact .pure h₂.clean
    | [], _, _ =>
      dsimp only
      rw [env_bind]
      refine .cond (fun _ => hstart.consume fun u s₁ h₁ => ?_) fun _ => .cond (fun _ => ?_)
        fun hsome => absurd rfl hsome
      · exact h₁.noted trivial fun s₂ h₂ => .pure h₂.clean
      · exact .fail hclean (noRule_fault (hs.tokens t (hrest ▸ List.mem_cons_self)))

include hreads in
theorem executeRound_advances {nodes : List NodeId} :
    Reads S env (executeRound rules nodes) Advances := by
  intro s hs
  have hstart := Step.refl hs
  unfold executeRound
  rw [remaining_bind]
  have hmem : ∀ r ∈ rules.filter (·.accepts s.cursor.rest), r ∈ rules :=
    fun r hr => List.mem_of_mem_filter hr
  generalize rules.filter (·.accepts s.cursor.rest) = matching at hmem
  cases s.cursor.rest with
  | nil => exact .pure hstart trivial
  | cons t rest =>
    rcases matching with _ | ⟨rule, _ | ⟨rule', others⟩⟩
    rotate_left
    · refine hstart.noted fun s₁ h₁ => ?_
      have hrule := hmem rule (List.mem_singleton_self _)
      exact h₁.next (hreads rule hrule) fun id s₂ _ _ hsome h₂ => .pure h₂ hsome
    -- No rule or several rules apply: the token is passed over, or the run fails.
    all_goals
      dsimp only
      rw [env_bind]
      refine .cond (fun _ => hstart.consume fun u _ s₁ _ h₁ => ?_) fun _ => .cond (fun _ => ?_)
        fun _ => ?_
      · exact h₁.noted fun s₂ h₂ => .pure h₂ (by simp [Advances])
      · exact .fail hstart
      · exact hstart.noted fun s₁ h₁ => .fail h₁

include hreads hrules hone in
theorem execute_safe : Safe B S env n (execute rules) :=
  loop_safe (fun _ => executeRound_safe hreads hrules hone) fun _ => executeRound_advances hreads

end

/-- At the top level annotations and APIs never both apply. -/
theorem length_topLevel_le (tokens : List Token) :
    (([Production.annotationCall, .api].map (Production.ruleOf read)).filter
      (·.accepts tokens)).length ≤ 1 := by
  have hapart : [Production.annotationCall, .api].Pairwise Production.Apart := by
    simp only [List.pairwise_cons, List.forall_mem_cons, List.not_mem_nil, false_implies,
      implies_true, and_true, List.Pairwise.nil]
    exact Production.apart_of_starts (by decide)
  have hsame : ((·.accepts tokens) ∘ Production.ruleOf read) = applies tokens := rfl
  rw [List.filter_map, List.length_map, hsame]
  exact Production.length_applies_le hapart tokens

/-- Only nodes that are there are asked whether they are annotations. -/
theorem tagAll_tidy {t : Tree} {ids : List NodeId} (h : Track B S b s seg [t])
    (hids : ∀ id ∈ ids, ∃ u ∈ t.subtrees, u.root = id) :
    Tidy B S.Tokens (tagAll t.root ids env s) := by
  induction ids generalizing s with
  | nil => exact .pure h.clean
  | cons id ids ih =>
    obtain ⟨u, hu, rfl⟩ := hids id List.mem_cons_self
    have hrest := fun id hid => hids id (List.mem_cons_of_mem _ hid)
    rw [tagAll, atArena_bind ((h.arena.holds List.mem_cons_self).subtree hu).shows.expr]
    cases u.expr
    case annotationCall name params => exact h.tagged fun new s₁ h₁ => ih h₁ hrest
    all_goals exact ih h hrest

theorem program_safe (h : Sound S env E something read)
    (hannotated : Safe B S env n (read .annotationCall)) (hapi : Safe B S env n (read .api)) :
    Safe B S env n (program read) := by
  intro s hs hclean hn
  have hstart := Track.refl hs hclean
  have hreads : ∀ r ∈ [Production.annotationCall, .api].map (Production.ruleOf read),
      Reads S env r.parse Some := by
    intro r hr
    simp only [List.map_cons, List.map_nil, List.mem_cons, List.not_mem_nil, or_false] at hr
    rcases hr with rfl | rfl
    · exact h.annotated.mono (one_some fun _ _ hsome => hsome)
    · exact h.api.mono (one_some fun _ _ hone => by cases hone; simp)
  have hrules : ∀ r ∈ [Production.annotationCall, .api].map (Production.ruleOf read),
      Safe B S env n r.parse := by
    intro r hr
    simp only [List.map_cons, List.map_nil, List.mem_cons, List.not_mem_nil, or_false] at hr
    rcases hr with rfl | rfl
    · exact hannotated
    · exact hapi
  have hexecute : Safe B S env n (inPhase .program (execute _)) :=
    inPhase_safe (execute_safe hreads hrules length_topLevel_le) .program
  unfold program
  rw [startToken_bind]
  refine hstart.bind (parts_outcome h hs) (hstart.safe hexecute hn) ?_
  rintro _ s₁ seg us ⟨rfl, rfl, -⟩ h₁
  rw [atArena_bind (separate_eq fun u hu => h₁.arena.holds hu)]
  have hperm : us.Perm (us.filter annotates ++ us.filter fun u => !annotates u) :=
    (List.filter_append_perm annotates us).symm
  refine (h₁.perm hperm).gather (by simp [Expr.children]) fun id s₂ h₂ => ?_
  have hids : ∀ i ∈ (us.filter annotates).map Tree.root, ∃ u ∈ Tree.subtrees
      (.node id s.cursor.startToken (.program ((us.filter fun u => !annotates u).map Tree.root)
        ((us.filter annotates).map Tree.root))
        (us.filter annotates ++ us.filter fun u => !annotates u)), u.root = i := by
    intro i hi
    obtain ⟨u, hu, rfl⟩ := List.mem_map.mp hi
    exact ⟨u, Tree.mem_subtrees_of_mem_children (List.mem_append_left _ hu), rfl⟩
  refine h₂.bind (tagAll_step h₂.toStep) (tagAll_tidy h₂ hids) fun _ s₃ _ _ _ h₃ => ?_
  exact .pure h₃.clean

/-! ## The knot -/

/-- Expressions start with operands, methods with signatures, programs with annotations and APIs:
these may be read one level down from the same place. -/
def rank : Production → Nat
  | .expression | .method | .program => 1
  | _ => 0

theorem rank_le (p : Production) : rank p ≤ 1 := by cases p <;> decide

variable (hfree : ∀ table, S.Tables table)
  (hext : ∀ name e, env.extensions.get? name = some e → e.KeepsArena)
  (hbuiltin : B → env.extensions = .builtin)
include hfree hext hbuiltin

/-- What is read inside a production comes behind a token, or it is of a lower rank. -/
theorem step_safe (h : Sound S env anything something read) (q : Production)
    (hread : ∀ p, Safe B S env n (read p))
    (hsame : ∀ p, rank p < rank q → Safe B S env (n + 1) (read p))
    (hoperands : q ∈ Production.expression :: operands → Safe B S env (n + 1) (step read q)) :
    Safe B S env (n + 1) (step read q) := by
  have hA : ∀ seg t, something seg t → seg ≠ [] := fun _ _ hsome => hsome
  cases q with
  | type => exact type_safe h.type (hread _)
  | pair => exact pair_safe h.type (hread _)
  | assignment => exact assignment_safe h.type (hread _) h.expression (hread _)
  | returned => exact returned_safe h.expression (hread _)
  | deferred => exact deferred_safe h.block (hread _)
  | block =>
    exact block_safe hA h.returned (hread _) (choice_reads h.statement)
      (choice_safe h.statement fun p _ => hread p)
  | signature => exact signature_safe h.type (hread _) h.pair (hread _)
  | method => exact method_safe h.signature (hsame _ (by decide)) h.block (hread _)
  | typeDef => exact typeDef_safe h.pair (hread _)
  | within => exact within_safe
  | withApis => exact withApis_safe
  | api =>
    exact api_safe hA h.within (hread _) h.withApis (hread _) (choice_reads h.declaration)
      (choice_safe h.declaration fun p _ => hread p)
  | program => exact program_safe h (hsame _ (by decide)) (hsame _ (by decide))
  | annotationCall =>
    exact annotationCall_safe hfree hext hbuiltin (parameter_forget h) fun p _ => hread p
  | _ => exact hoperands (by decide)

/-- Four times the number of tokens is a bound on the depth that no run uses up. -/
theorem readN_safe (depth n : Nat) (p : Production) (hn : 2 * n + rank p ≤ depth) :
    Safe B S env n (readN depth p) := by
  have hexpressions : ∀ depth n q, 2 * n + rank q ≤ depth → q ∈ Production.expression :: operands →
      Safe B S env n (readN depth q) := by
    intro depth n q hn hq
    refine safe_of_fixed fun table => ?_
    have hfixed : ∀ t, (⟨(· = table), S.Tokens⟩ : Setting).Tables t → t = table :=
      fun _ htable => htable
    rcases List.mem_cons.mp hq with rfl | hq
    · exact (readN_operand_and_expression_safe hfixed depth n).2 hn
    · exact (readN_operand_and_expression_safe hfixed depth n).1 (by omega) q hq
  induction depth generalizing n p with
  | zero =>
    obtain rfl : n = 0 := by omega
    exact safe_zero _
  | succ depth ih =>
    cases n with
    | zero => exact safe_zero _
    | succ n =>
      refine step_safe hfree hext hbuiltin (sound_free hfree hext depth) p (fun q => ?_)
        (fun q hq => ?_) (hexpressions (depth + 1) (n + 1) p hn)
      · have hrank := rank_le q
        exact ih n q (by omega)
      · exact ih (n + 1) q (by omega)

theorem parse_tidy (p : Production) (hs : S.Fits s) (hclean : B → s.work.Clean S.Tokens) :
    Tidy B S.Tokens (p.parse env s) := by
  have hrank := rank_le p
  refine readN_safe hfree hext hbuiltin _ (s.cursor.rest.length + 1) p ?_ s hs hclean
    (Nat.lt_succ_self _)
  simp only [Production.depth]
  omega

end Grammar

open ApiSyntax.Grammar ApiSyntax.Parser

variable {S : Setting} {env : ParserEnv} {s : ParserState}

/-- Whatever a whole input is read as, the bound is not used up, and if the extensions are those of
the language it fails of nothing but what the text is to blame for. -/
theorem goal_tidy {B : Prop} (hfree : ∀ table, S.Tables table)
    (hext : ∀ name e, env.extensions.get? name = some e → e.KeepsArena)
    (hbuiltin : B → env.extensions = .builtin) (goal : Goal) (hs : S.Fits s)
    (hclean : B → s.work.Clean S.Tokens) : Tidy B S.Tokens (goal.parse env s) := by
  have hend : ∀ {p : Production} {G : Language.Phrase}, Outcome S s (One G) (p.parse env s) →
      Tidy B S.Tokens ((do let id ← p.parse; expectEnd; return id : Parser NodeId) env s) := by
    intro p G hread
    refine (Track.refl hs hclean).bind hread (parse_tidy hfree hext hbuiltin p hs hclean) ?_
    intro id s₁ seg ts _ h₁
    rw [bind_run, Action.bind_run, expectEnd]
    cases hrest : s₁.cursor.rest with
    | nil => exact .ok h₁.clean
    | cons t rest =>
      have ht : S.Tokens t := h₁.fits.tokens t (hrest ▸ List.mem_cons_self)
      exact .failed h₁.clean (Diagnostic.fault_unexpected ht _)
  cases goal with
  | program => exact parse_tidy hfree hext hbuiltin .program hs hclean
  | expression => exact hend ((sound_free hfree hext _).expression s hs)
  | type => exact hend ((sound_free hfree hext _).type s hs)

/-- Whatever a whole input is read as, it fails of nothing but what the text is to blame for. -/
theorem goal_clean (hfree : ∀ table, S.Tables table) (hext : env.extensions = .builtin)
    (goal : Goal) (hs : S.Fits s) (hclean : s.work.Clean S.Tokens) :
    Clean S.Tokens (goal.parse env s) :=
  (goal_tidy hfree (keepsArena_of_builtin hext) (fun _ => hext) goal hs fun _ => hclean).clean
    trivial

end ApiSyntax
