/-
  ApiSyntax/Proofs/Grammar/Triggers.lean --- productions that never apply at one place.

  A production applies only where a token of certain kinds stands, and these kinds set most
  productions apart.  Among what a block or the body of an API may hold no two productions
  apply at one place, so what is chosen there is never tried in vain.
-/
import ApiSyntax.Proofs.Grammar.ProgramSound
import ApiSyntax.Proofs.Parser.Complete

set_option autoImplicit false

namespace ApiSyntax

open ApiSyntax.Parser

namespace Production

/-- The kinds of token that a production may start with. -/
def starts : Production → List TokenKind
  | identifier | pair | instanceCall | assignment => [.identifier]
  | type => typeStarts
  | intLiteral => [.integer]
  | realLiteral => [.real]
  | listLiteral => [.lbracket]
  | constructorCall | staticCall => [.typeIdentifier]
  | expression => expressionStarts
  | parenthesized | signature | method => [.lparen]
  | unary => [.operator]
  | block => [.lbrace]
  | returned | deferred | typeDef | within | withApis | api => [.keyword]
  | program => [.annotationSign, .keyword]
  | annotationCall => [.annotationSign]

variable {p q : Production} {tokens : List Token}

/-- A pair of tokens stands ahead when the first is of the one kind and the second of one of the
others. -/
theorem startsWithPair_eq_ok {first : TokenKind} {second : List TokenKind} :
    startsWithPair tokens first second = .ok true ↔
      ∃ t u rest, tokens = t :: u :: rest ∧ t.is first ∧ second.any u.is := by
  rcases tokens with _ | ⟨t, _ | ⟨u, rest⟩⟩
  · simp [startsWithPair]
  · by_cases ht : t.is first <;> simp [startsWithPair, ht]
  · by_cases ht : t.is first <;> simp [startsWithPair, ht]

theorem applies_iff : applies tokens p ↔ p.trigger tokens = .ok true := by
  unfold applies
  cases p.trigger tokens <;> simp

theorem exists_start (h : applies tokens p) :
    ∃ t rest, tokens = t :: rest ∧ ∃ kind ∈ p.starts, t.is kind := by
  have hpair : ∀ {first second}, startsWithPair tokens first second = .ok true →
      ∃ t rest, tokens = t :: rest ∧ ∃ kind ∈ [first], t.is kind := by
    intro first second h
    obtain ⟨t, u, rest, rfl, ht, -⟩ := startsWithPair_eq_ok.mp h
    exact ⟨t, u :: rest, rfl, first, List.mem_cons_self, ht⟩
  replace h := applies_iff.mp h
  cases p with
  | pair => exact hpair h
  | constructorCall => exact hpair h
  | staticCall => exact hpair h
  | instanceCall => exact hpair h
  | assignment => exact hpair h
  | signature => exact hpair h
  | method => exact hpair h
  | _ =>
    rcases tokens with _ | ⟨t, rest⟩
    · simp [trigger, startsWith, startsWithKeyword, startsWithAny, bind, Except.bind] at h
    · refine ⟨t, rest, rfl, ?_⟩
      simp only [trigger, startsWith, startsWithKeyword, startsWithAny, bind, Except.bind, pure,
        Except.pure, Token.isValue, Except.ok.injEq, Bool.and_eq_true, List.any_eq_true] at h
      simp only [starts, List.mem_cons, List.not_mem_nil, or_false, exists_eq_left, exists_eq_or_imp]
      grind

/-- The productions never both apply. -/
def Apart (p q : Production) : Prop := ∀ tokens, ¬(applies tokens p ∧ applies tokens q)

/-- Productions that start with tokens of other kinds are apart. -/
theorem apart_of_starts (h : ∀ kind ∈ p.starts, ∀ kind' ∈ q.starts, kind.name ≠ kind'.name) :
    p.Apart q := by
  rintro tokens ⟨hp, hq⟩
  obtain ⟨t, rest, rfl, kind, hkind, ht⟩ := exists_start hp
  obtain ⟨t', rest', heq, kind', hkind', ht'⟩ := exists_start hq
  cases heq
  apply h kind hkind kind' hkind'
  rw [← (TokenKind.same_iff _ _).mp ht, ← (TokenKind.same_iff _ _).mp ht']

/-- Behind a name an assignment goes on with its type or the equals sign, a call with a dot. -/
theorem apart_assignment_instanceCall : Apart .assignment .instanceCall := by
  rintro tokens ⟨hp, hq⟩
  have hassignment : startsWithPair tokens .identifier [.assign, .typeIdentifier, .lbracket] =
      .ok true := applies_iff.mp hp
  have hcall : startsWithPair tokens .identifier [.dot] = .ok true := applies_iff.mp hq
  obtain ⟨t, u, rest, rfl, -, hu⟩ := startsWithPair_eq_ok.mp hassignment
  obtain ⟨t', u', rest', heq, -, hu'⟩ := startsWithPair_eq_ok.mp hcall
  cases heq
  simp only [List.any_cons, List.any_nil, Bool.or_false] at hu'
  simp [Token.is_of_is hu', TokenKind.same, TokenKind.name] at hu

/-- Of productions that are apart at most one applies. -/
theorem length_applies_le {ps : List Production} (hps : ps.Pairwise Apart) (tokens : List Token) :
    (ps.filter (applies tokens)).length ≤ 1 := by
  have happly : ∀ p ∈ ps.filter (applies tokens), applies tokens p := fun p hp =>
    (List.mem_filter.mp hp).2
  have hapart := hps.filter (applies tokens)
  generalize ps.filter (applies tokens) = found at happly hapart
  match found, happly, hapart with
  | [], _, _ => exact Nat.zero_le 1
  | [p], _, _ => exact Nat.le_refl 1
  | p :: q :: rest, happly, hapart =>
    have hpq := List.rel_of_pairwise_cons hapart List.mem_cons_self
    exact absurd ⟨happly p (by simp), happly q (by simp)⟩ (hpq tokens)

end Production

namespace Grammar

open Production

theorem pairwise_declarations : declarations.Pairwise Apart := by
  simp only [declarations, List.pairwise_cons, List.forall_mem_cons, and_true, List.not_mem_nil,
    false_implies, implies_true, List.Pairwise.nil]
  and_intros <;> exact apart_of_starts (by decide)

theorem pairwise_statements : statements.Pairwise Apart := by
  have hapart := apart_assignment_instanceCall
  simp only [statements, List.pairwise_cons, List.forall_mem_cons]
  simp only [hapart, true_and, and_true, List.not_mem_nil, false_implies, implies_true,
    List.Pairwise.nil]
  and_intros <;> exact apart_of_starts (by decide)

end Grammar

end ApiSyntax
