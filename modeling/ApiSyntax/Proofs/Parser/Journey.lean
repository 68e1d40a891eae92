/-
  ApiSyntax/Proofs/Parser/Journey.lean --- a run beside itself.

  A run set beside itself says what one run does: in which phase it ends, which tokens it passes,
  what is put on record of the operators.
  Where the first run may give up on its bound, it says that a larger bound changes nothing.
-/
import ApiSyntax.Proofs.Parser.Tandem

set_option autoImplicit false

namespace ApiSyntax

open ApiSyntax.Action

/-- What is the same on both sides ends the same. -/
theorem Action.Mirrors.refl {σ ε α : Type} (x : Action σ ε α) : Mirrors Eq Eq Eq x x := by
  rintro s _ rfl
  cases hx : x s with
  | mk r s' =>
    cases r with
    | ok a => exact ⟨.ok rfl, rfl⟩
    | error e => exact ⟨.error rfl, rfl⟩

namespace Coupling

/-- A run beside one that is given something else. -/
def beside (env env' : ParserEnv) (lenient : Prop) : Coupling where
  first := env
  second := env'
  Places _ c d := c = d
  Work := Eq
  lenient := lenient

/-- The names of types and the extensions are the same, so that other switches do not matter. -/
theorem beside_lawful {env env' : ParserEnv} (lenient : Prop)
    (hext : env'.extensions = env.extensions)
    (htype : Grammar.typeName env' = Grammar.typeName env) :
    (beside env env' lenient).Lawful where
  extensions := hext
  typeName := htype
  forget h _ := h
  ahead h _ := h ▸ SameAhead.refl _
  startToken h _ := congrArg Cursor.startToken h
  pass h _ := by
    cases h
    rfl
  length h := .inl (congrArg (·.rest.length) h)
  arena h := congrArg Workspace.arena h
  operators h := congrArg Workspace.operators h
  onArena h a := by
    cases h
    rfl
  note h _ _ := by
    cases h
    rfl
  rewound h hplace why := by
    cases h
    cases hplace
    rfl
  invoke _ site params := .refl _

/-- A run beside itself. -/
abbrev itself (env : ParserEnv) (lenient : Prop) : Coupling := beside env env lenient

instance (env : ParserEnv) (lenient : Prop) : (itself env lenient).Lawful :=
  beside_lawful lenient rfl rfl

/-- From the place `c₀` on the level `l₀`: the tokens that were passed lead to the level of the
mark, and there are some if it says so. -/
structure Travels (c₀ : Cursor) (l₀ : Level) (m : Mark) (c : Cursor) (seg : List Token) : Prop where
  passes : c₀.Passes c seg
  moved : m.moved → seg ≠ []
  level : m.level = .lost ∨ l₀.after seg = m.level

theorem Travels.start {c₀ : Cursor} {m : Mark} (hm : m.moved = false) :
    Travels c₀ m.level m c₀ [] :=
  ⟨⟨rfl, rfl⟩, fun h => absurd (hm ▸ h) Bool.false_ne_true, .inr rfl⟩

/-- A run beside itself, with a record of the tokens that it passed. -/
def journey (env : ParserEnv) (lenient : Prop) (c₀ : Cursor) (l₀ : Level) : Coupling where
  first := env
  second := env
  Places m c d := c = d ∧ ∃ seg, Travels c₀ l₀ m c seg
  Work := Eq
  lenient := lenient

instance (env : ParserEnv) (lenient : Prop) (c₀ : Cursor) (l₀ : Level) :
    (journey env lenient c₀ l₀).Lawful where
  extensions := rfl
  typeName := rfl
  forget := by
    rintro m m' c d ⟨hcd, seg, h⟩ hle
    refine ⟨hcd, seg, h.passes, fun hmoved => h.moved (hle.moved hmoved), ?_⟩
    obtain hlost | hsame := hle.level
    · exact .inl hlost
    · exact hsame ▸ h.level
  ahead h _ := h.1 ▸ SameAhead.refl _
  startToken h _ := congrArg Cursor.startToken h.1
  pass := by
    rintro m t p q ts us ⟨hcd, seg, h⟩ hm
    cases hcd
    refine ⟨rfl, seg ++ [t], h.passes.trans ⟨rfl, rfl⟩, fun _ => by simp, .inr ?_⟩
    obtain hlost | hlevel := h.level
    · rw [Mark.Peeks, hlost] at hm
      exact hm.elim
    · rw [Level.after_append, hlevel]
      rfl
  length h := .inl (congrArg (·.rest.length) h.1)
  arena h := congrArg Workspace.arena h
  operators h := congrArg Workspace.operators h
  onArena h a := by
    cases h
    rfl
  note h _ _ := by
    cases h
    rfl
  rewound h hplace why := by
    cases h
    cases hplace.1
    rfl
  invoke _ site params := .refl _

/-- A run beside itself, with what was done to the operators since `w₀` on record. -/
def ledger (env : ParserEnv) (w₀ : Workspace) : Coupling where
  first := env
  second := env
  Places _ c d := c = d
  Work w v := w = v ∧ w₀.CallsTo w
  lenient := False

/-- Extensions put on record what they do to the operators, and nothing else changes them. -/
theorem ledger_lawful {env : ParserEnv}
    (hext : ∀ name e, env.extensions.get? name = some e → e.RecordsCalls) (w₀ : Workspace) :
    (ledger env w₀).Lawful where
  extensions := rfl
  typeName := rfl
  forget h _ := h
  ahead h _ := h ▸ SameAhead.refl _
  startToken h _ := congrArg Cursor.startToken h
  pass h _ := by
    cases h
    rfl
  length h := .inl (congrArg (·.rest.length) h)
  arena h := congrArg Workspace.arena h.1
  operators h := congrArg Workspace.operators h.1
  onArena := by
    rintro w v ⟨rfl, h⟩ a
    exact ⟨rfl, h.trans (.of_same rfl rfl)⟩
  note := by
    rintro w v e ⟨rfl, h⟩ - hcall
    exact ⟨rfl, h.note hcall⟩
  rewound := by
    rintro w v m c d ⟨rfl, h⟩ rfl why
    exact ⟨rfl, h.note rfl⟩
  invoke := by
    rintro name e hget site params w v ⟨rfl, h⟩
    have hcalls : w₀.CallsTo (e.invoke site params w).2 := h.trans (hext name e hget site params w)
    generalize e.invoke site params w = r at hcalls
    rcases r with ⟨d | a, w'⟩
    · exact ⟨.error rfl, rfl, hcalls⟩
    · exact ⟨.ok rfl, rfl, hcalls⟩

namespace Tandem

variable {env env' : ParserEnv} {lenient : Prop} {α : Type} {p q : Parser α} {m : Mark}
  {h : α → Mark} {s s' : ParserState}

/-- Both runs end in the same state, in the phase in which they began, unless the first is given
up. -/
theorem same_of_beside (hpq : (beside env env' lenient).Tandem s.phase m p q h) :
    (p env s = q env' s ∧ (q env' s).2.phase = s.phase) ∨
      (lenient ∧ (p env s).1 = .error .exhausted) := by
  have hends : (beside env env' lenient).Ends s.phase h (p env s) (q env' s) :=
    hpq s s ⟨rfl, rfl, rfl, rfl⟩
  have hsame : ∀ {m : Mark} {s₁ s₂ : ParserState},
      (beside env env' lenient).Meets s.phase m s₁ s₂ → s₁ = s₂ := by
    rintro m ⟨c, φ, w⟩ ⟨c', φ', w'⟩ ⟨hplace, hphase, hphase', hwork⟩
    cases hplace
    cases hwork
    obtain rfl : φ = φ' := hphase.trans hphase'.symm
    rfl
  generalize p env s = r, q env' s = r' at hends
  cases hends with
  | done meets => exact .inl ⟨by rw [hsame meets], meets.phase'⟩
  | stopped meets => exact .inl ⟨by rw [hsame meets], meets.phase'⟩
  | spent hlenient => exact .inr ⟨hlenient, rfl⟩

/-- A run that succeeds passes tokens as the marks say. -/
theorem travels (hp : (journey env False s.cursor m.level).Tandem s.phase m p p h)
    (hm : m.moved = false) {a : α} (hrun : p env s = (.ok a, s')) :
    ∃ seg, Travels s.cursor m.level (h a) s'.cursor seg := by
  have hends : (journey env False s.cursor m.level).Ends s.phase h (p env s) (p env s) :=
    hp s s ⟨⟨rfl, [], .start hm⟩, rfl, rfl, rfl⟩
  rw [hrun] at hends
  cases hends with
  | done meets => exact meets.place.2

/-- What a run does to the operators is on record, whether or not it succeeds. -/
theorem callsTo (hp : (ledger env s.work).Tandem s.phase m p p h) :
    s.work.CallsTo (p env s).2.work := by
  have hends : (ledger env s.work).Ends s.phase h (p env s) (p env s) :=
    hp s s ⟨rfl, rfl, rfl, rfl, .refl _⟩
  generalize p env s = r at hends
  cases hends with
  | done meets => exact meets.work.2
  | stopped meets => exact meets.work.2
  | spent hlenient => exact hlenient.elim

end Tandem

end Coupling

end ApiSyntax
