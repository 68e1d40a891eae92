/-
  ApiSyntax/Proofs/Parser/Rounds.lean --- the rounds of a loop.

  `Turns` runs rounds without a bound and counts them.  A loop whose rounds, all but the last,
  pass a token is never ended by its bound: it ends as its rounds do, after at most one of them
  for each token that remains.
-/
import ApiSyntax.Proofs.Parser.Steps

set_option autoImplicit false

namespace ApiSyntax

theorem Cursor.Passes.lt {c d : Cursor} {seg : List Token} (h : c.Passes d seg) (hseg : seg ≠ []) :
    d.rest.length < c.rest.length := by
  have hpassed : 0 < seg.length := List.length_pos_iff.mpr hseg
  rw [h.ahead, List.length_append]
  omega

/-- An event was recorded. -/
def ParserState.noted (s : ParserState) (e : Event) : ParserState :=
  { s with work := { s.work with events := s.work.events.push e } }

/-- The token `t` was passed over, where `matched` rules applied. -/
def ParserState.discard (s : ParserState) (t : Token) (ts : List Token) (matched : Nat) :
    ParserState :=
  { s.noted (.discarded t.value t.span matched) with cursor := ⟨t :: s.cursor.consumed, ts⟩ }

namespace Parser

variable {α β γ : Type} {env : ParserEnv} {s s' : ParserState}

/-- Where the result is one that `P` tells of, the parser moved forward over tokens. -/
def Passes (env : ParserEnv) (x : Parser α) (P : α → Prop) : Prop :=
  ∀ s a s', x env s = (.ok a, s') → P a → ∃ seg, seg ≠ [] ∧ s.cursor.Passes s'.cursor seg

/-- The round of a loop is not the last one. -/
def Round.IsMore : Round β γ → Prop
  | .more _ => True
  | .done _ => False

/-- How rounds that no bound limits end: with `r`, after `n` rounds that are not the last. -/
inductive Turns (env : ParserEnv) (round : β → Parser (Round β γ)) :
    Nat → β → ParserState → Except Stop γ × ParserState → Prop
  | done {b : β} {c : γ} {s s' : ParserState} (h : round b env s = (.ok (.done c), s')) :
      Turns env round 0 b s (.ok c, s')
  | stopped {b : β} {e : Stop} {s s' : ParserState} (h : round b env s = (.error e, s')) :
      Turns env round 0 b s (.error e, s')
  | more {n : Nat} {b next : β} {s s' : ParserState} {r : Except Stop γ × ParserState}
      (h : round b env s = (.ok (.more next), s')) (rest : Turns env round n next s' r) :
      Turns env round (n + 1) b s r

/-- The loop ends as its rounds do, after at most one of them for each token that remains and the
last one. -/
def OncePerToken (env : ParserEnv) (round : β → Parser (Round β γ)) : Prop :=
  ∀ b s, ∃ n ≤ s.cursor.rest.length, Turns env round n b s (loop round b env s)

section

variable {round : β → Parser (Round β γ)} {b next : β} {c : γ} {e : Stop} {n : Nat}

theorem loopN_run_more (h : round b env s = (.ok (.more next), s')) :
    loopN round (n + 1) b env s = loopN round n next env s' := by
  rw [loopN, bind_run, Action.bind_run, h]

theorem loopN_run_done (h : round b env s = (.ok (.done c), s')) :
    loopN round (n + 1) b env s = (.ok c, s') := by
  rw [loopN, bind_run, Action.bind_run, h]
  rfl

theorem loopN_run_stopped (h : round b env s = (.error e, s')) :
    loopN round (n + 1) b env s = (.error e, s') := by
  rw [loopN, bind_run, Action.bind_run, h]

end

theorem oncePerToken {round : β → Parser (Round β γ)}
    (hround : ∀ b, Passes env (round b) Round.IsMore) : OncePerToken env round := by
  suffices hbounded : ∀ fuel b (s : ParserState), s.cursor.rest.length < fuel →
      ∃ n ≤ s.cursor.rest.length, Turns env round n b s (loopN round fuel b env s) from
    fun b s => hbounded _ b s (Nat.lt_succ_self _)
  intro fuel
  induction fuel with
  | zero => exact fun b s hfuel => absurd hfuel (Nat.not_lt_zero _)
  | succ fuel ih =>
    intro b s hfuel
    rcases hrun : round b env s with ⟨e | (next | result), s'⟩
    · rw [loopN_run_stopped hrun]
      exact ⟨0, Nat.zero_le _, .stopped hrun⟩
    · rw [loopN_run_more hrun]
      obtain ⟨seg, hseg, hpasses⟩ := hround b s _ s' hrun trivial
      have hlt := hpasses.lt hseg
      obtain ⟨n, hn, hturns⟩ := ih next s' (by omega)
      exact ⟨n + 1, by omega, .more hrun hturns⟩
    · rw [loopN_run_done hrun]
      exact ⟨0, Nat.zero_le _, .done hrun⟩

/-! ## The top level -/

variable {rules : List Rule} {nodes : List NodeId} {t : Token} {ts : List Token}

theorem executeRound_nil (hrest : s.cursor.rest = []) :
    executeRound rules nodes env s = (.ok (.done nodes), s) := by
  rw [executeRound, remaining_bind, hrest]
  rfl

/-- The one rule that applies reads a node. -/
theorem executeRound_read {rule : Rule} {r : Except Stop NodeId} (hrest : s.cursor.rest = t :: ts)
    (hone : rules.filter (·.accepts (t :: ts)) = [rule])
    (hread : rule.parse env (s.noted (.entered rule.name t.span)) = (r, s')) :
    executeRound rules nodes env s = (r.map fun id => .more (nodes ++ [id]), s') := by
  have hrun : executeRound rules nodes env s =
      (rule.parse >>= fun id => return Round.more (nodes ++ [id])) env
        (s.noted (.entered rule.name t.span)) := by
    rw [executeRound, remaining_bind, hrest]
    dsimp only
    rw [hone]
    rfl
  rw [hrun, bind_run, Action.bind_run, hread]
  cases r <;> rfl

/-- Where not exactly one rule applies a permissive run passes over the token. -/
theorem executeRound_discard (hpermissive : env.config.permissive) (hrest : s.cursor.rest = t :: ts)
    (hnot : ∀ rule, rules.filter (·.accepts (t :: ts)) ≠ [rule]) :
    executeRound rules nodes env s = (.ok (.more nodes),
      s.discard t ts (rules.filter (·.accepts (t :: ts))).length) := by
  rw [executeRound, remaining_bind, hrest]
  generalize rules.filter (·.accepts (t :: ts)) = matching at hnot
  rcases matching with _ | ⟨rule, _ | ⟨rule', others⟩⟩
  rotate_left
  · exact absurd rfl (hnot rule)
  all_goals
    simp only [env_bind, hpermissive, if_true, bind_run, Action.bind_run, consume_run hrest]
    rfl

/-- Where not exactly one rule applies a run that is not permissive fails. -/
theorem executeRound_refuse (hpermissive : env.config.permissive = false)
    (hrest : s.cursor.rest = t :: ts)
    (hnot : ∀ rule, rules.filter (·.accepts (t :: ts)) ≠ [rule]) :
    ∃ d s', executeRound rules nodes env s = (.error (.failed d), s') := by
  rw [executeRound, remaining_bind, hrest]
  generalize rules.filter (·.accepts (t :: ts)) = matching at hnot
  rcases matching with _ | ⟨rule, _ | ⟨rule', others⟩⟩
  rotate_left
  · exact absurd rfl (hnot rule)
  all_goals
    simp only [env_bind, hpermissive]
    exact ⟨_, _, rfl⟩

end Parser

end ApiSyntax
