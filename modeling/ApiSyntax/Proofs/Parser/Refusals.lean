/-
  ApiSyntax/Proofs/Parser/Refusals.lean --- runs that fail with one diagnostic.

  `Refuses` says of a run which failure it ends with.  A token that is missing is named by
  where it should have stood: behind the last token, or at the token that stands there
  instead.  Failures pass through a sequence, a phase and a loop as they are; a choice
  with one candidate hands on the failure of that candidate.
-/
import ApiSyntax.Proofs.Parser.Complete

set_option autoImplicit false

namespace ApiSyntax

variable {S : Setting} {α β γ : Type} {env : ParserEnv} {s : ParserState} {d : Diagnostic}
  {mid rest : List Token}

/-- The run fails with this diagnostic. -/
def Refuses (x : Parser α) (env : ParserEnv) (s : ParserState) (d : Diagnostic) : Prop :=
  ∃ s', x env s = (.error (.failed d), s')

theorem Refuses.result {x : Parser α} (h : Refuses x env s d) :
    (x env s).1 = .error (.failed d) := by
  obtain ⟨s', hrun⟩ := h
  rw [hrun]

/-- The failure where something expected is missing: no token is left, or another one stands
there. -/
def missing (tokens : List Token) (expected : String) : Diagnostic :=
  match tokens with
  | [] => .outOfTokens
  | t :: _ => .unexpected t expected

namespace Refuses

theorem of_eq {x y : Parser α} {s₁ : ParserState} (hy : Refuses y env s₁ d)
    (h : x env s = y env s₁) : Refuses x env s d := by
  obtain ⟨s', hrun⟩ := hy
  exact ⟨s', h.trans hrun⟩

theorem fail : Refuses (Parser.fail d : Parser α) env s d := ⟨s, rfl⟩

theorem bind {x : Parser α} {f : α → Parser β} (h : Refuses x env s d) :
    Refuses (x >>= f) env s d := by
  obtain ⟨s', hrun⟩ := h
  refine ⟨s', ?_⟩
  rw [Parser.bind_run, Action.bind_run, hrun]

theorem check {kind : TokenKind} {f : Bool → Parser β} {v : Bool} (hv : s.cursor.check kind = v)
    (hf : Refuses (f v) env s d) : Refuses (Parser.check kind >>= f) env s d :=
  hf.of_eq (by rw [Parser.check_bind, hv])

theorem startToken {f : Token → Parser β} (hf : Refuses (f s.cursor.startToken) env s d) :
    Refuses (Parser.startToken >>= f) env s d := hf.of_eq (Parser.startToken_bind f)

theorem remaining {f : List Token → Parser β} (hf : Refuses (f s.cursor.rest) env s d) :
    Refuses (Parser.remaining >>= f) env s d := hf.of_eq (Parser.remaining_bind f)

theorem note {e : Event} {f : Unit → Parser β} (hs : S.Fits s) (hrest : s.cursor.rest = mid)
    (hf : ∀ s', S.Fits s' → s'.cursor.rest = mid → Refuses (f ()) env s' d) :
    Refuses (Parser.note e >>= f) env s d := hf _ ⟨hs.tables, hs.tokens⟩ hrest

theorem inPhase {x : Parser α} {inner : Phase}
    (h : Refuses x env { s with phase := inner } d) : Refuses (Parser.inPhase inner x) env s d := by
  obtain ⟨s', hrun⟩ := h
  refine ⟨{ s' with phase := s.phase }, ?_⟩
  rw [Parser.inPhase, hrun]

end Refuses

/-- A run that is accepted, then one that fails. -/
theorem Accepts.bind_refuses {x : Parser α} {f : α → Parser β} {P : α → ParserState → Prop}
    (hx : Accepts S x env s mid P)
    (hf : ∀ a s', S.Fits s' → s'.cursor.rest = mid → P a s' → Refuses (f a) env s' d) :
    Refuses (x >>= f) env s d := by
  obtain ⟨a, s', hrun, hrest, hs', hP⟩ := hx
  refine (hf a s' hs' hrest hP).of_eq ?_
  rw [Parser.bind_run, Action.bind_run, hrun]

theorem Leads.refuses {x : Parser α} {Y : Parser α → Prop} (h : Leads S x env s mid Y)
    (hy : ∀ y s', S.Fits s' → s'.cursor.rest = mid → Y y → Refuses y env s' d) :
    Refuses x env s d := by
  obtain ⟨y, s', heq, hs', hrest, hY⟩ := h
  exact (hy y s' hs' hrest hY).of_eq heq

namespace Parser

/-! ## Tokens that are missing -/

theorem expect_refuses {kind : TokenKind} (h : Stops [kind] s.cursor.rest) :
    Refuses (expect kind) env s (missing s.cursor.rest kind.describe) := by
  cases hrest : s.cursor.rest with
  | nil =>
    refine ⟨s, ?_⟩
    rw [expect, expectWhere, expectOr, bind_run, Action.bind_run, peek_run_nil hrest]
    rfl
  | cons t rest =>
    have hother : t.is kind = false := h t (by rw [hrest]; rfl) kind List.mem_cons_self
    refine ⟨s, ?_⟩
    rw [expect, expectWhere, expectOr, bind_run, Action.bind_run, peek_run hrest]
    dsimp only
    rw [hother]
    rfl

theorem expectEnd_refuses {t : Token} (hrest : s.cursor.rest = t :: rest) :
    Refuses expectEnd env s (.unexpected t "end of input") := by
  refine ⟨s, ?_⟩
  rw [expectEnd, hrest]

/-! ## Loops -/

section Loop

variable {round : β → Parser (Round β γ)} {fuel : Nat} {x : β}

theorem loopN_refuses (hround : Refuses (round x) env s d) :
    Refuses (loopN round (fuel + 1) x) env s d := by
  rw [loopN]
  exact hround.bind

theorem loopN_more_refuses {J : β → ParserState → Prop}
    (hround : Accepts S (round x) env s mid (Continues J))
    (hnext : ∀ y s', S.Fits s' → s'.cursor.rest = mid → J y s' →
      Refuses (loopN round fuel y) env s' d) : Refuses (loopN round (fuel + 1) x) env s d := by
  rw [loopN]
  refine hround.bind_refuses fun r s' hs' hrest hr => ?_
  cases r with
  | more y => exact hnext y s' hs' hrest hr
  | done c => exact hr.elim

theorem loop_refuses (h : Refuses (loopN round (s.cursor.rest.length + 1) x) env s d) :
    Refuses (loop round x) env s d := h

end Loop

/-! ## Choices -/

/-- A choice with one candidate fails as that one does. -/
theorem choice_refuses {read : Production → Parser NodeId} {options : List Production}
    {expected : String} {p : Production} (hone : options.filter (applies s.cursor.rest) = [p])
    (h : Refuses (read p) env s d) : Refuses (choice read options expected) env s d := by
  obtain ⟨s', hrun⟩ := h
  have hcandidates : (options.map (Production.ruleOf read)).filter (·.accepts s.cursor.rest) =
      [Production.ruleOf read p] := by
    have hsame : ((·.accepts s.cursor.rest) ∘ Production.ruleOf read) = applies s.cursor.rest := rfl
    rw [List.filter_map, hsame, hone, List.map_singleton]
  have hfirst : (Production.ruleOf read p).parse env s = (.error (.failed d), s') := hrun
  apply Exists.intro
  rw [choice, dispatch, remaining_bind, hcandidates]
  dsimp only
  rw [alternation, attemptAny, bind_run, Action.bind_run, attemptFrom]
  simp only [hfirst]
  rfl

end Parser

end ApiSyntax
