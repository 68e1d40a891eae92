/-
  ApiSyntax/Proofs/Grammar/Backtracking.lean --- what giving up an alternative gives back.

  A rule that is given up gives back its place and its phase.  The operators are not given
  back: what the extensions declared and related on the way stays.  Each such call is on
  record, so the operators behind a rule that was given up are those before it with the
  calls made that were recorded since; and where no annotation stands ahead they are the
  same.
-/
import ApiSyntax.Proofs.Arena.Follows
import ApiSyntax.Proofs.Grammar.Disciplined
import ApiSyntax.Proofs.Grammar.Tandem
import ApiSyntax.Proofs.Parser.Agreement
import ApiSyntax.Proofs.Parser.Journey
import ApiSyntax.Reading

set_option autoImplicit false

namespace ApiSyntax

open ApiSyntax.Parser

/-! ## Disciplines of the tokens and the operators -/

namespace Discipline

/-- A relation of what remains and of the operators, whatever the nodes are. -/
def ofOperators (R : List Token × OperatorTable → List Token × OperatorTable → Prop) :
    Discipline where
  Rel x y := R (x.rest, x.operators) (y.rest, y.operators)
  Is _ _ _ := True

/-- What is said of tokens and operators only need not be checked where nodes are made. -/
theorem ofOperators_lawful {R : List Token × OperatorTable → List Token × OperatorTable → Prop}
    (hrefl : ∀ x, R x x) (htrans : ∀ {x y z}, R x y → R y z → R x z)
    (hgrows : ∀ {x y}, R x y → x.2.GrowsTo y.2)
    (hpass : ∀ t rest operators, R (t :: rest, operators) (rest, operators))
    (hback : ∀ {x y}, R x y → R x (x.1, y.2)) : (ofOperators R).Lawful where
  refl _ := hrefl _
  trans h h' := htrans h h'
  lasts {x y k} h hk := by
    cases k with
    | has id role => exact trivial
    | declared symbol fixity => exact (hgrows h).contains hk
  pass t x := hpass t x.rest x.operators
  back h := hback h
  look _ _ := trivial
  alloc _ _ _ _ := ⟨hrefl _, trivial⟩
  copy _ _ := ⟨hrefl _, fun _ _ => trivial⟩
  settle {w id} rest _ := by
    refine ⟨?_, fun _ _ => trivial⟩
    have hoperators := (Workspace.settle_follows id w).1
    simp only [ofOperators, Workspace.stage, hoperators]
    exact hrefl _
  enclose _ := hrefl _
  tag _ := hrefl _

/-- The tokens that remain are the last of those that remained, and the operators change by calls
only. -/
def growing : Discipline :=
  ofOperators fun x y => y.1 <:+ x.1 ∧ x.2.GrowsTo y.2

instance growing_lawful : growing.Lawful :=
  ofOperators_lawful (fun _ => ⟨List.suffix_refl _, .refl _⟩)
    (fun h h' => ⟨h'.1.trans h.1, h.2.trans h'.2⟩) (fun h => h.2)
    (fun t rest _ => ⟨List.suffix_cons t rest, .refl _⟩) fun h => ⟨List.suffix_refl _, h.2⟩

end Discipline

/-! ## The productions -/

namespace Grammar

open ApiSyntax.Discipline

variable {env : ParserEnv} {read : Production → Parser NodeId} {s : ParserState}

/-- Every extension of the registry puts on record what it does to the operators. -/
def ExtensionsRecord (env : ParserEnv) : Prop :=
  ∀ name e, env.extensions.get? name = some e → e.RecordsCalls

theorem strict_ledger (w₀ : Workspace) : Coupling.Strict (.ledger env w₀) where
  anywhere h := h
  permissive := rfl
  note := by
    rintro w v e ⟨rfl, h⟩ hcall
    exact ⟨rfl, h.note hcall⟩

/-- What the reading of a production does to the operators is on record, however it ends. -/
theorem parse_callsTo (h : ExtensionsRecord env) (p : Production) (s : ParserState) :
    s.work.CallsTo (p.parse env s).2.work := by
  have : (Coupling.ledger env s.work).Lawful := Coupling.ledger_lawful h s.work
  have hbetween := Coupling.readN_between (C := .ledger env s.work) (φ := s.phase)
    (.inl rfl : Coupling.Bounds _ (Production.depth s.cursor.rest.length) _) (p := p)
    (.inr (strict_ledger s.work))
  exact (hbetween 0 false).callsTo

end Grammar

/-! ## Giving up -/

open Grammar (ExtensionsRecord)

/-- The place and the phase are as they were.  The operators are those before with the calls made
that were recorded since, and where no annotation stands ahead they are as they were. -/
structure GivenBack (s s' : ParserState) : Prop where
  cursor : s'.cursor = s.cursor
  phase : s'.phase = s.phase
  calls : s.work.CallsTo s'.work
  kept : (∀ t ∈ s.cursor.rest, t.is .annotationSign = false) →
    s'.work.operators = s.work.operators

/-- On the way from `s` to `s'` the production was read at the place and in the phase of `s`, and it
failed.  The operators that it left are not taken back: whatever was done to them before, on the way
to the failure and afterwards is on record. -/
def GaveUp (env : ParserEnv) (p : Production) (s s' : ParserState) : Prop :=
  ∃ t t' d, t.cursor = s.cursor ∧ t.phase = s.phase ∧ s.work.CallsTo t.work ∧
    p.parse env t = (.error (.failed d), t') ∧ t.work.CallsTo t'.work ∧ t'.work.CallsTo s'.work

namespace GivenBack

open ApiSyntax.Discipline

variable {env : ParserEnv} {s s' s'' : ParserState}

theorem refl (s : ParserState) : GivenBack s s := ⟨rfl, rfl, .refl _, fun _ => rfl⟩

theorem trans (h : GivenBack s s') (h' : GivenBack s' s'') : GivenBack s s'' where
  cursor := h'.cursor.trans h.cursor
  phase := h'.phase.trans h.phase
  calls := h.calls.trans h'.calls
  kept hnone := by
    rw [h'.kept (by rwa [h.cursor]), h.kept hnone]

end GivenBack

namespace GaveUp

variable {env : ParserEnv} {p : Production} {s s' s'' : ParserState}

/-- Alternatives may be given up before. -/
theorem before (h : GivenBack s s') (h' : GaveUp env p s' s'') : GaveUp env p s s'' := by
  obtain ⟨t, t', d, hcursor, hphase, hfirst, hrest⟩ := h'
  exact ⟨t, t', d, hcursor.trans h.cursor, hphase.trans h.phase, h.calls.trans hfirst, hrest⟩

/-- Alternatives may be given up afterwards. -/
theorem behind (h : GaveUp env p s s') (h' : GivenBack s' s'') : GaveUp env p s s'' := by
  obtain ⟨t, t', d, hcursor, hphase, hfirst, hrun, hread, hlast⟩ := h
  exact ⟨t, t', d, hcursor, hphase, hfirst, hrun, hread, hlast.trans h'.calls⟩

end GaveUp

section

variable {env : ParserEnv} {s s' : ParserState}

end

/-- The state in front of the tokens of a text; of a text that cannot be cut, in front of none. -/
def ParserState.before (source : List Char) : ParserState :=
  .start ((Tokenizer.builtin.tokenize source).toOption.getD []) .builtin

end ApiSyntax
