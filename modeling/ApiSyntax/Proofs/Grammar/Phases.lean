/-
  ApiSyntax/Proofs/Grammar/Phases.lean --- the phase names the innermost enclosing construct.

  `readUnder` is the grammar where phases do not count: it is told which productions enclose what
  it reads, and an extension is told the phase that belongs to the innermost block, API or
  program among them.  Whatever the extensions do with it, a program is read the same by both, so
  the phase that is kept in the state is that of the construct around an annotation, in attempts
  that are given up as well.
-/
import ApiSyntax.Proofs.Grammar.Tandem
import ApiSyntax.Proofs.Parser.Journey

set_option autoImplicit false

namespace ApiSyntax

open Grammar

/-! ## The enclosing construct -/

/-- The phase that belongs to the innermost block, API or program among productions that enclose
one another, the innermost first. -/
def Phase.innermost : List Production → Phase
  | .block :: _ => .statement
  | .api :: _ => .declaration
  | .program :: _ => .program
  | _ :: path => innermost path
  | [] => .program

theorem Phase.innermost_cons (p : Production) (path : List Production) :
    innermost (p :: path) = p.inner (innermost path) := by
  cases p <;> rfl

/-- A production enclosed by the productions of `path`, with nested productions at most `depth`
deep.  The phase of the state is not looked at: an extension is told that of the innermost
construct of `path`. -/
def Grammar.readUnder : Nat → List Production → Production → Parser NodeId
  | 0, _, _ => Parser.exhausted
  | depth + 1, path, p =>
      stepBy (invokeIn (.innermost path)) (readUnder depth (p :: path)) p

/-! ## Both run alike -/

variable {env : ParserEnv} {lenient : Prop}

theorem Coupling.strict_itself : Coupling.Strict (.itself env lenient) where
  anywhere h := h
  permissive := rfl
  note h _ := by
    cases h
    rfl

/-- Where the phase is that of the innermost construct, what is read does not depend on which of
the two is used.  A program sets the phase itself, and in a quiet production no annotation can
stand. -/
theorem readUnder_between (depth : Nat) (path : List Production) (p : Production) (φ : Phase)
    (hφ : p.isQuiet ∨ p = .program ∨ φ = .innermost path) :
    (Coupling.itself env False).Between φ (readUnder depth path p) (readN depth p) := by
  induction depth generalizing path p φ with
  | zero => exact fun _ _ => .exhausted
  | succ depth ih =>
    simp only [readUnder, readN, ← stepBy_invoke]
    refine Coupling.stepBy_between (.inr Coupling.strict_itself) (fun hp => ?_)
      (fun _ => Coupling.invokes_invoke) fun q hq ψ hψ => ih (p :: path) q ψ ?_
    · subst hp
      obtain hquiet | hprogram | rfl := hφ
      · cases hquiet
      · cases hprogram
      · exact Coupling.invokes_invokeIn
    · obtain hquiet | rfl := hψ
      · exact .inl hquiet
      rw [Phase.innermost_cons]
      obtain hquiet | rfl | rfl := hφ
      · exact .inl (Production.isQuiet_nested p q hquiet hq)
      · exact .inr (.inr rfl)
      · exact .inr (.inr rfl)

/-- Whatever extensions are registered, a program is read as if each of them were told the phase
of the innermost construct around its annotation; and a production leaves the phase as it was,
whether or not it fails. -/
theorem Grammar.phase_innermost :
    (∀ env s, Production.program.parse env s =
      readUnder (Production.depth s.cursor.rest.length) [] .program env s) ∧
    ∀ (p : Production) env s, (p.parse env s).2.phase = s.phase := by
  refine ⟨fun env s => ?_, fun p env s => ?_⟩
  · have hbetween : (Coupling.itself env False).Between s.phase
        (readUnder (Production.depth s.cursor.rest.length) [] .program)
        (readN (Production.depth s.cursor.rest.length) .program) :=
      readUnder_between _ [] .program s.phase (.inr (.inl rfl))
    exact (hbetween 0 false).same_of_beside.resolve_right (fun h => h.1) |>.1.symm
  · have hbetween := Coupling.readN_between (C := .itself env False) (φ := s.phase)
      (.inl rfl : Coupling.Bounds _ (Production.depth s.cursor.rest.length) _) (p := p)
      (.inr Coupling.strict_itself)
    exact (hbetween 0 false).same_of_beside.resolve_right (fun h => h.1) |>.2

end ApiSyntax
