/-
  ApiSyntax/Proofs/Grammar/Layout.lean --- the grammar is blind to layout.

  Two runs may differ in the layout of their tokens alone: that is a likeness under which every
  handle stays as it is, and the grammar keeps it.

  Main statement: tokens that differ in layout at most are read as the same thing, or they fail
  of the same (`Goal.parse_alike`).
-/
import ApiSyntax.Proofs.Grammar.Likeness
import ApiSyntax.Proofs.Grammar.SourceFaults

set_option autoImplicit false

namespace ApiSyntax

/-! ## Layout as a likeness -/

namespace Likeness

/-- The tokens differ in layout, and nothing else differs. -/
def layout : Likeness := ⟨Token.Alike, fun _ _ => True, 0, 0⟩

instance : layout.Lawful where
  alike h := h
  span _ := trivial
  refl _ := trivial
  mark _ := ⟨rfl, rfl⟩

theorem move_layout : layout.move = id := move_eq_id rfl

theorem Fails.alike {d d' : Diagnostic} (h : layout.Fails d d') : d.Alike d' where
  cause := by
    have hcause := h.cause
    generalize d.cause = c, d'.cause = c' at hcause
    cases hcause with
    | same =>
      rw [move_layout, Cause.rename_id]
      exact .same c
    | unclosedBlock => exact .unclosedBlock _ _
  placed := by
    have hspan := h.span
    generalize d.span = p, d'.span = p' at hspan
    cases hspan <;> rfl
  help := h.help

theorem Nodes.alike {m n : Node} (h : layout.Nodes m n) : m.Alike n where
  id := by
    rw [h.id, move_layout]
    rfl
  token := h.token
  tags := by
    have htag : ∀ t : Tag, t.rename layout.move = t := by
      intro t
      rw [move_layout, Tag.rename_id]
    rw [h.tags, List.map_congr_left fun t _ => htag t, List.map_id']
  expr := by rw [h.expr, move_layout, Expr.rename_id]

theorem Works.alike {w v : Workspace} (h : layout.Works w v) : w.Alike v where
  arena := ⟨h.arena.size.symm, fun id => by
    have hnode := h.arena.nodes id
    rw [move_layout, id_eq] at hnode
    generalize w.arena.node? id = m, v.arena.node? id = n at hnode ⊢
    cases hnode with
    | none => exact .none
    | some hmn => exact .some hmn.alike⟩
  operators := h.operators

/-- Before anything is built only the tokens count. -/
theorem layout_start {ts us : List Token} (h : List.Forall₂ Token.Alike ts us)
    (table : OperatorTable) : layout.States (.start ts table) (.start us table) where
  place := ⟨h, fun _ => .none⟩
  phase := rfl
  work := ⟨⟨Nat.le_refl _, rfl, fun _ => .none⟩, rfl⟩

end Likeness

/-! ## Whole inputs -/

open Likeness

/-- Token by token the two inputs have a kind of the same name and the same text.  Then both are
read, with the same root, nodes that differ in the layout of their tokens at most and the same
operators; or both fail, of the same cause and with the same hint, positions apart. -/
theorem Goal.parse_alike (goal : Goal) (mangle : String → String) (config : Config)
    (table : OperatorTable) {ts us : List Token} (h : List.Forall₂ Token.Alike ts us) :
    (∃ root s t, goal.parse ⟨.builtin, mangle, config⟩ (.start ts table) = (.ok root, s) ∧
        goal.parse ⟨.builtin, mangle, config⟩ (.start us table) = (.ok root, t) ∧
        s.work.Alike t.work) ∨
      ∃ d d' s t,
        goal.parse ⟨.builtin, mangle, config⟩ (.start ts table) = (.error (.failed d), s) ∧
        goal.parse ⟨.builtin, mangle, config⟩ (.start us table) = (.error (.failed d'), t) ∧
        d.Alike d' ∧ s.work.Alike t.work := by
  have hmoves : layout.Moves ⟨.builtin, mangle, config⟩ goal.parse goal.parse :=
    goal_moves (Registry.builtin_respects layout) goal
  have hpaced := hmoves _ _ (layout_start h table)
  have hclean := Reading.clean_of_start goal ts mangle config table
  generalize goal.parse ⟨.builtin, mangle, config⟩ (.start ts table) = r,
    goal.parse ⟨.builtin, mangle, config⟩ (.start us table) = r' at hpaced hclean
  cases hpaced with
  | done hroot meets =>
    rw [move_layout] at hroot
    subst hroot
    exact .inl ⟨_, _, _, rfl, rfl, meets.work.alike⟩
  | failed hd meets => exact .inr ⟨_, _, _, _, rfl, rfl, hd.alike, meets.work.alike⟩
  | spent => exact (hclean.stop _ rfl).elim

/-- A sum on one line. -/
def oneLineSum : List Token :=
  [⟨.integer, "1", ⟨0, 0, 0⟩⟩, ⟨.operator, "+", ⟨0, 2, 2⟩⟩, ⟨.integer, "2", ⟨0, 4, 4⟩⟩]

/-- The same sum over three lines, with a kind of number that was registered under the name of
the built-in one. -/
def threeLineSum : List Token :=
  [⟨.custom "Integer", "1", ⟨0, 0, 0⟩⟩, ⟨.operator, "+", ⟨1, 2, 4⟩⟩,
    ⟨.custom "Integer", "2", ⟨2, 1, 7⟩⟩]

/-- Both sums are read, and alike. -/
theorem Goal.parse_alike_sum : List.Forall₂ Token.Alike oneLineSum threeLineSum ∧
    ∃ root s t, expression.parse .standard (.start oneLineSum .builtin) = (.ok root, s) ∧
      expression.parse .standard (.start threeLineSum .builtin) = (.ok root, t) ∧
      s.work.Alike t.work := by
  have halike : List.Forall₂ Token.Alike oneLineSum threeLineSum :=
    .cons ⟨rfl, rfl⟩ (.cons ⟨rfl, rfl⟩ (.cons ⟨rfl, rfl⟩ .nil))
  have hread : (expression.parse .standard (.start oneLineSum .builtin)).1 = .ok ⟨2⟩ := by
    decide +kernel
  refine ⟨halike, ?_⟩
  obtain hsame | ⟨d, -, s, -, hfailed, -⟩ :=
    Goal.parse_alike .expression flatName .default .builtin halike
  · exact hsame
  · have hstopped := congrArg Prod.fst hfailed
    rw [← ParserEnv.standard, hread] at hstopped
    cases hstopped

end ApiSyntax
