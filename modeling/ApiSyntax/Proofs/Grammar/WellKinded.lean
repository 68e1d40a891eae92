/-
  ApiSyntax/Proofs/Grammar/WellKinded.lean --- what is read as a program is well-kinded.

  Every node that a production makes fits, with what is known of the nodes it takes.
  Annotations make operators grow, and what fits goes on to fit with more operators; so the
  whole arena of a reading is well-kinded with the operators at its end (`ofSource_wellKinded`).

  Productions without annotations moreover leave the operators as they are, and make no
  annotation.
-/
import ApiSyntax.Proofs.Arena.WellKinded
import ApiSyntax.Proofs.Grammar.AnnotationSound
import ApiSyntax.Proofs.Grammar.Disciplined
import ApiSyntax.Proofs.Operators.Extensions
import ApiSyntax.Reading

set_option autoImplicit false

namespace ApiSyntax

open ApiSyntax.Arena

variable {r : Registry} {a : Arena} {t u : OperatorTable}

theorem OperatorTable.GrowsTo.le (h : t.GrowsTo u) : t.Le u := fun _ _ => h.contains

/-! ## Disciplines of kinds -/

namespace Discipline

/-- A relation of arenas and operators, and nodes that are there and have their roles. -/
def ofKinds (R : Arena × OperatorTable → Arena × OperatorTable → Prop) : Discipline where
  Rel x y := R (x.arena, x.operators) (y.arena, y.operators)
  Is role id a := ∃ e, a.expr id = .ok e ∧ role.admits e

variable {R : Arena × OperatorTable → Arena × OperatorTable → Prop} {x : Stage} {k : Known}

theorem holds_ofKinds : (ofKinds R).Holds x k ↔ k.Holds x.arena x.operators := by
  cases k <;> exact Iff.rfl

/-- A relation that holds of quiet steps, and under which what is known lasts. -/
theorem ofKinds_lawful (r : Registry) (htrans : ∀ {x y z}, R x y → R y z → R x z)
    (hfollows : ∀ {x y}, R x y → x.1.Follows y.1 ∧ x.2.Le y.2)
    (hquiet : ∀ {a b t}, QuietStep r t a b → R (a, t) (b, t)) : (ofKinds R).Lawful where
  refl x := hquiet (.refl x.arena)
  trans h h' := htrans h h'
  lasts h hk := by
    obtain ⟨harena, hoperators⟩ := hfollows h
    exact holds_ofKinds.mpr ((holds_ofKinds.mp hk).later harena hoperators)
  pass _ x := hquiet (.refl x.arena)
  back h := h
  look := by
    rintro a id role role' ⟨e, he, hadmits⟩ h
    exact ⟨e, he, h e he hadmits⟩
  alloc {x e role} token h he hr := by
    have hrequired : ∀ k ∈ e.requires, k.Holds x.arena x.operators :=
      fun k hk => holds_ofKinds.mp (h k hk)
    constructor
    · exact hquiet ((QuietStep.refl x.arena).push token (fun _ => .of_requires hrequired he) he)
    · exact ⟨e, expr_push_next x.arena token e, hr⟩
  copy {x id role} h hr := by
    refine ⟨hquiet (duplicate_quiet hr h), fun copy hcopy => ?_⟩
    obtain ⟨e, he, hadmits⟩ := h
    obtain ⟨f, e', hf, he', hkind⟩ := (copyN_follows x.arena.copyDepth id x.arena).2 copy hcopy
    rw [he] at hf
    cases hf
    refine ⟨e', he', Role.admits_typing hr ?_⟩
    rw [hkind]
    exact Role.kind_of_admits hadmits
  settle {w id} rest h := by
    constructor
    · have hoperators := (Workspace.settle_follows id w).1
      simp only [ofKinds, Workspace.stage, hoperators]
      exact hquiet (Workspace.settleN_quiet _ id w)
    · intro top htop
      exact Workspace.settled_expression (t := w.operators) htop h
  enclose h := hquiet (.enclose h)
  tag h := hquiet (.tag h)

/-- The operators stay the same, and the arena takes a quiet step. -/
def quiet (r : Registry) : Discipline :=
  ofKinds fun x y => y.2 = x.2 ∧ QuietStep r x.2 x.1 y.1

/-- Operators are added, and the arena goes on to be well-kinded. -/
def fitting (r : Registry) : Discipline :=
  ofKinds fun x y => (x.1.Follows y.1 ∧ x.2.Le y.2) ∧
    (x.1.WellKinded r x.2 → y.1.WellKinded r y.2)

instance quiet_lawful : (quiet r).Lawful := by
  apply ofKinds_lawful r
  · rintro ⟨a, t⟩ ⟨b, u⟩ ⟨c, v⟩ ⟨rfl, h⟩ ⟨rfl, h'⟩
    exact ⟨rfl, h.trans h'⟩
  · rintro ⟨a, t⟩ ⟨b, u⟩ ⟨rfl, h⟩
    exact ⟨h.follows, .refl u⟩
  · exact fun h => ⟨rfl, h⟩

instance fitting_lawful : (fitting r).Lawful := by
  apply ofKinds_lawful r
  · intro x y z h h'
    refine ⟨⟨h.1.1.trans h'.1.1, fun symbol fixity hs => ?_⟩, fun hx => h'.2 (h.2 hx)⟩
    exact h'.1.2 symbol fixity (h.1.2 symbol fixity hs)
  · exact fun h => h.1
  · exact fun {a b t} h => ⟨⟨h.follows, .refl t⟩, h.wellKinded⟩

end Discipline

/-! ## Annotations -/

namespace Grammar

open ApiSyntax.Discipline ApiSyntax.Parser

variable {env : ParserEnv}

/-- An annotation fits when its parameters are of the kinds that its extension asks for. -/
theorem annotationCall_fits {name : String} {e : Extension} {params : List NodeId}
    (hget : r.get? name = some e) (hkinds : params.mapM a.kind = .ok e.parameters)
    (hparams : ∀ id ∈ params, (Known.has id .anything).Holds a t) :
    (Expr.annotationCall name params).Fits r a t where
  slots := List.forall_mem_map.mpr hparams
  parameters name' params' heq := by
    cases heq
    exact ⟨e, hget, hkinds⟩

/-- Extensions that leave the arena alone and only add operators keep everything fitting. -/
theorem annotates_fitting (env : ParserEnv)
    (harena : ∀ name e, env.extensions.get? name = some e → e.KeepsArena)
    (hrecords : ∀ name e, env.extensions.get? name = some e → e.RecordsCalls) :
    Annotates (fitting env.extensions) env where
  node {x name e params} token hget hkinds hparams := by
    have hfits : (Expr.annotationCall name params).Fits env.extensions x.arena x.operators :=
      annotationCall_fits hget hkinds fun id hid => hparams _ (List.mem_map_of_mem hid)
    refine ⟨⟨⟨.push x.arena token _, .refl _⟩, fun hx => hx.push token hfits⟩, ?_⟩
    exact ⟨_, expr_push_next x.arena token _, rfl⟩
  run {name e} hget site params w rest := by
    have hoperators := (hrecords name e hget site params w).growsTo.le
    have hkept := harena name e hget site params w
    simp only [fitting, ofKinds, Workspace.stage, hkept]
    exact ⟨⟨.refl _, hoperators⟩, fun hw => hw.more hoperators⟩

theorem readN_fitting (depth : Nat) (p : Production) :
    (fitting .builtin).Yields .standard [] (readN depth p) p.role := by
  apply readN_yields_of_annotates
  exact annotates_fitting .standard (fun _ _ h => Registry.keepsArena_builtin h)
    (fun _ _ h => Registry.recordsCalls_builtin h)

end Grammar

/-! ## Return statements -/

variable {e : Expr} {child : NodeId}

theorem Role.mem_kinds_returned {role : Role} (h : .returned ∈ role.kinds) :
    role = .anything ∨ role = .returned ∨ role = .exactly .returned := by
  cases role <;> simp [Role.kinds] at h ⊢
  exact h.symm

theorem Expr.requires_returned {role : Role} (h : Known.has child role ∈ e.requires)
    (hrole : .returned ∈ role.kinds) :
    (∃ name params, e = .annotationCall name params ∧ child ∈ params) ∨
      ∃ body, e = .block body (some child) := by
  obtain rfl | rfl | rfl := Role.mem_kinds_returned hrole
  · cases e <;> simp [requires] at h ⊢
    exact h
  · cases e <;> simp [requires] at h ⊢
    exact h
  · cases e <;> simp [requires] at h

theorem Arena.kind_of_mem {ids : List NodeId} {kinds : List NodeKind}
    (h : ids.mapM a.kind = .ok kinds) (hchild : child ∈ ids) :
    ∃ kind ∈ kinds, a.kind child = .ok kind := by
  induction mapM_kind_eq_ok.mp h with
  | nil => cases hchild
  | @cons id kind ids kinds hid hids ih =>
    obtain rfl | hchild := List.mem_cons.mp hchild
    · exact ⟨kind, List.mem_cons_self, hid⟩
    · obtain ⟨other, hother, hok⟩ := ih (mapM_kind_eq_ok.mpr hids) hchild
      exact ⟨other, List.mem_cons_of_mem _ hother, hok⟩

/-- The extensions of the language have signatures as parameters. -/
theorem Registry.parameters_builtin {name : String} {x : Extension}
    (h : Registry.builtin.get? name = some x) : ∀ kind ∈ x.parameters, kind = .signature := by
  obtain ⟨-, rfl | rfl | rfl⟩ := Registry.get?_builtin h <;> decide

theorem Registry.parameters_ne_nil {name : String} {x : Extension}
    (h : Registry.builtin.get? name = some x) : x.parameters ≠ [] := by
  obtain ⟨-, rfl | rfl | rfl⟩ := Registry.get?_builtin h <;> decide

/-- A return statement stands behind the statements of a block, and nowhere else. -/
theorem Arena.WellKinded.returned {parent : NodeId} (h : a.WellKinded .builtin t)
    (he : a.expr parent = .ok e) (hchild : child ∈ e.children)
    (hkind : a.kind child = .ok .returned) :
    ∃ body, e = .block body (some child) ∧ child ∉ body := by
  have hfits := h parent e he
  have hadmits : ∀ role, .has child role ∈ e.requires → .returned ∈ role.kinds := by
    intro role hrole
    obtain ⟨e', he', hadmits⟩ := hfits.slots _ hrole
    obtain ⟨f, hf, hreturned⟩ := kind_eq_ok.mp hkind
    rw [he'] at hf
    cases hf
    rw [← hreturned]
    exact Role.kind_of_admits hadmits
  obtain ⟨role, hrole⟩ := Expr.exists_required hchild
  obtain ⟨name, params, rfl, hmem⟩ | ⟨body, rfl⟩ := Expr.requires_returned hrole (hadmits role hrole)
  · obtain ⟨x, hx, hkinds⟩ := hfits.parameters name params rfl
    obtain ⟨kind, hasked, hfound⟩ := kind_of_mem hkinds hmem
    rw [hkind] at hfound
    cases hfound
    cases Registry.parameters_builtin hx _ hasked
  · refine ⟨body, rfl, fun hmem => ?_⟩
    have hstatement := hadmits .statement
      (List.mem_append_left _ (List.mem_map_of_mem hmem))
    exact absurd hstatement (by decide)

/-! ## Programs -/

theorem Arena.wellKinded_empty : Arena.empty.WellKinded r t := by
  intro id e he
  obtain ⟨n, hn, -⟩ := expr_eq_ok.mp he
  cases hn

/-- What a reading ends with is what the grammar ends with on the tokens that the text is cut into. -/
theorem Reading.ofSource_cut {goal : Goal} {source : List Char} {root : NodeId}
    (h : (Reading.ofSource goal source).root = .ok root) :
    ∃ tokens behind s, Tokenizer.builtin.tokenizeWithEnd source = .ok (tokens, behind) ∧
      goal.parse .standard (.start tokens .builtin) = (.ok root, s) ∧
      (Reading.ofSource goal source).work.arena = s.work.arena ∧
      (Reading.ofSource goal source).work.operators = s.work.operators := by
  unfold ofSource at h ⊢
  cases hcut : Tokenizer.builtin.tokenizeWithEnd source with
  | error d =>
    rw [hcut] at h
    cases h
  | ok cut =>
    rw [hcut] at h
    exact ⟨cut.1, cut.2, (goal.parse .standard (.start cut.1 .builtin)).2, rfl, Prod.ext h rfl, rfl,
      rfl⟩

theorem Reading.ofSource_ok {goal : Goal} {source : List Char} {root : NodeId}
    (h : (Reading.ofSource goal source).root = .ok root) :
    ∃ tokens s, goal.parse .standard (.start tokens .builtin) = (.ok root, s) ∧
      (Reading.ofSource goal source).work.arena = s.work.arena ∧
      (Reading.ofSource goal source).work.operators = s.work.operators := by
  obtain ⟨tokens, -, s, -, hrun⟩ := ofSource_cut h
  exact ⟨tokens, s, hrun⟩

/-- A workspace that holds the tree of a program: the contents of every node fit, and return
statements stand behind the statements of blocks only. -/
structure Workspace.HoldsProgram (w : Workspace) (root : NodeId) : Prop where
  program : ∃ apis annotations, w.arena.expr root = .ok (.program apis annotations)
  wellKinded : w.arena.WellKinded .builtin w.operators
  returned : ∀ parent e child, w.arena.expr parent = .ok e → child ∈ e.children →
    w.arena.kind child = .ok .returned → ∃ body, e = .block body (some child) ∧ child ∉ body

open ApiSyntax.Discipline ApiSyntax.Grammar in
/-- Every text that is accepted as a program is well-kinded.  Each node of the arena, and so each one
in the tree of the program, holds in its slots what their roles admit; its operator is declared at
the end, and the parameters of an annotation are of the kinds that its extension asks for.  Return
statements stand in blocks only, behind all statements. -/
theorem Reading.ofSource_wellKinded (source : List Char) (root : NodeId)
    (h : (Reading.ofSource .program source).root = .ok root) :
    (Reading.ofSource .program source).work.HoldsProgram root := by
  obtain ⟨tokens, s, hrun, harena, hoperators⟩ := ofSource_ok h
  have hread : (fitting .builtin).Yields .standard [] Production.program.parse .program :=
    parse_yields readN_fitting .program
  have hprogram := hread (.start tokens .builtin) knows_nil
  rw [show Production.program.parse .standard (.start tokens .builtin) = (.ok root, s) from hrun]
    at hprogram
  obtain ⟨⟨-, hkinded⟩, hroot⟩ := hprogram
  generalize (Reading.ofSource .program source).work = w at harena hoperators
  have hw : w.arena.WellKinded .builtin w.operators := by
    rw [harena, hoperators]
    exact hkinded wellKinded_empty
  refine ⟨?_, hw, fun parent e child he hchild hkind => hw.returned he hchild hkind⟩
  obtain ⟨e, he, hadmits⟩ := hroot root rfl _ List.mem_cons_self
  rw [harena]
  cases e <;> first | exact ⟨_, _, he⟩ | cases hadmits

/-- A program with an annotation, whose operator a method uses, and with a deferred block. -/
def powerProgram : List Char :=
  ("@Operator.Infix((Int) ^ (o Int) (Int)) api A \x7b (Int) f (x [Int]) (Int) " ++
    "\x7b defer \x7b A.g(x) \x7d return -y ^ 2 \x7d \x7d").toList

/-- A reading that is known to end with a node that passes a test. -/
theorem Reading.exists_root_any {r : Reading} {test : NodeId → Bool} (h : r.root.toOption.any test) :
    ∃ root, r.root = .ok root ∧ test root := by
  rcases r with ⟨_ | root, w⟩
  · cases h
  · exact ⟨root, rfl, h⟩

/-- A reading that is known to end with a node. -/
theorem Reading.exists_root {r : Reading} (h : r.root.toOption.isSome) : ∃ root, r.root = .ok root := by
  rcases r with ⟨_ | root, w⟩
  · cases h
  · exact ⟨root, rfl⟩

theorem Reading.ofSource_wellKinded_powerProgram :
    ∃ root, (Reading.ofSource .program powerProgram).root = .ok root ∧
      (Reading.ofSource .program powerProgram).work.HoldsProgram root := by
  have hsome : (Reading.ofSource .program powerProgram).root.toOption.isSome = true := by
    decide +kernel
  obtain ⟨root, hroot⟩ := Reading.exists_root hsome
  exact ⟨root, hroot, Reading.ofSource_wellKinded powerProgram root hroot⟩

end ApiSyntax
