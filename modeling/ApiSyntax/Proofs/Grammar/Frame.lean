/-
  ApiSyntax/Proofs/Grammar/Frame.lean --- what a rule leaves alone.

  A rule overwrites nodes: settling turns binaries, parentheses mark one, and a program is
  tagged.  All of these are nodes that the rule itself made, whatever arena it finds and
  however it ends.  So the nodes before it are the first ones behind it, as they were; and
  of the operators nothing is taken away.
-/
import ApiSyntax.Proofs.Grammar.Backtracking
import ApiSyntax.Proofs.Grammar.Goals

set_option autoImplicit false

namespace ApiSyntax

open ApiSyntax.Arena ApiSyntax.Grammar ApiSyntax.Language

/-- The nodes that were there are the first ones of an arena that has grown. -/
theorem Arena.Grows.nodes_prefix {a b : Arena} {ts : List Tree} (h : Grows a b ts) :
    a.nodes.toList <+: b.nodes.toList := by
  apply List.prefix_iff_getElem?.mpr
  intro i hi
  have hsize : i < a.nodes.size := by simpa only [Array.length_toList] using hi
  have hbelow : (NodeId.mk i).index < a.nodes.size := hsize
  have hkept : b.nodes[i]? = a.nodes[i]? := h.kept hbelow
  rw [Array.getElem?_toList, hkept, Array.getElem_toList]
  exact Array.getElem?_eq_getElem hsize

/-- However a run ends, the nodes that were there are the first ones behind it. -/
theorem Outcome.nodes_prefix {S : Setting} {b : ParserState} {α : Type}
    {Q : α → List Token → List Tree → Prop} {run : Except Stop α × ParserState}
    (h : Outcome S b Q run) : b.work.arena.nodes.toList <+: run.2.work.arena.nodes.toList := by
  cases h with
  | done step _ => exact step.arena.nodes_prefix
  | lost lost => exact lost.arena.nodes_prefix

namespace Grammar

variable {env : ParserEnv}

/-- What is read as an operand leaves a tree behind, whatever the operators are: they do not change
meanwhile. -/
theorem readN_operand_forget {p : Production} (hp : p ∈ operands) (depth : Nat) :
    Reads .any env (readN depth p) (One anything) := by
  intro s hs
  cases depth with
  | zero => exact .exhausted (Step.refl hs)
  | succ depth =>
    have hstep : Reads (.fixed s.work.operators) env (readN (depth + 1) p)
        (One (Operand env s.work.operators)) :=
      step_operand_reads (fun _ htable => htable) (readN_operand_reads (fun _ htable => htable) depth)
        (readN_expression_reads (fun _ htable => htable) depth) p hp
    exact (Reads.forget hstep s (fixed_fits s)).widen hs

/-- Whatever is read on whatever bound, it leaves a tree behind, or trees that were given up. -/
theorem readN_forget (hext : env.extensions = .builtin) (depth : Nat) (p : Production) :
    Reads .any env (readN depth p) (One anything) := by
  have hsound := sound_any hext depth
  cases p with
  | identifier | intLiteral | realLiteral | listLiteral | constructorCall | staticCall
  | instanceCall | parenthesized | unary => exact readN_operand_forget (by decide) depth
  | type => exact Reads.forget hsound.type
  | pair => exact Reads.forget hsound.pair
  | expression => exact hsound.expression
  | assignment => exact Reads.forget (hsound.statement .assignment (by decide))
  | returned => exact Reads.forget hsound.returned
  | deferred => exact Reads.forget (hsound.statement .deferred (by decide))
  | block => exact Reads.forget hsound.block
  | signature => exact Reads.forget hsound.signature
  | method => exact Reads.forget (hsound.declaration .method (by decide))
  | typeDef => exact Reads.forget (hsound.declaration .typeDef (by decide))
  | within => exact Reads.forget hsound.within
  | withApis => exact Reads.forget hsound.withApis
  | api => exact Reads.forget hsound.api
  | annotationCall => exact hsound.annotated
  | program =>
    -- The knot leaves programs out: no production is read as a part of which a program is one.
    intro s hs
    cases depth with
    | zero => exact .exhausted (Step.refl hs)
    | succ depth =>
      refine (program_outcome (sound_any hext depth) hs).mono fun id seg ts hid => ?_
      obtain ⟨us, t, rfl, rfl, -⟩ := hid
      exact ⟨t, rfl, rfl, trivial⟩

end Grammar

/-- Whatever the tokens, the arena and the switches are, and however the reading of a production
ends: the nodes before it are the first ones behind it, with their tokens, tags and contents, and
what was declared or known of a pair of operators is so still. -/
theorem parse_keeps (p : Production) (mangle : String → String) (config : Config)
    (s : ParserState) {base : OperatorTable}
    (hbase : base = OperatorTable.empty ∨ base = OperatorTable.builtin)
    (hmade : base.GrowsTo s.work.operators) :
    let after := (p.parse ⟨.builtin, mangle, config⟩ s).2.work
    s.work.arena.nodes.toList <+: after.arena.nodes.toList ∧
      (∀ symbol fixity, s.work.operators.contains symbol fixity →
        after.operators.contains symbol fixity) ∧
      ∀ left right precedence, s.work.operators.fact? left right = some precedence →
        after.operators.fact? left right = some precedence := by
  intro after
  have hnodes : Outcome .any s (One anything) (p.parse ⟨.builtin, mangle, config⟩ s) :=
    readN_forget rfl _ p s ⟨trivial, fun _ _ => trivial⟩
  have hgrown : s.work.operators.GrowsTo after.operators := by
    have hext : ExtensionsRecord ⟨.builtin, mangle, config⟩ :=
      fun _ _ hget => Registry.recordsCalls_builtin hget
    exact (parse_callsTo hext p s).growsTo
  refine ⟨hnodes.nodes_prefix, fun symbol fixity hsymbol => hgrown.contains hsymbol, ?_⟩
  intro left right precedence hfact
  exact hgrown.fact? (OperatorTable.mutual_of_growsTo hbase hmade) hfact

/-- An arena that no reading leaves: a binary that is its own operand, and one with an operand that
is not there yet. -/
def strayArena : Arena :=
  let token : Token := ⟨.operator, "+", .start⟩
  (Arena.empty.push token (.binary "+" ⟨0⟩ ⟨1⟩ false)).push token (.binary "*" ⟨2⟩ ⟨0⟩ false)

/-- Operators that are declared and related on the way to an expression that is settled. -/
def powerOfSum : List Char :=
  ("@Operator.Infix((Int) ^ (o Int) (Int)) " ++
    "@Operator.Binds((Int) ^ (o Int) (Int), (Int) * (o Int) (Int)) " ++
    "api A \x7b (Int) f () \x7b x = (a + b) ^ c * d + e return x \x7d \x7d").toList

/-- The state in front of a text with such an arena. -/
def strayState : ParserState :=
  { ParserState.before powerOfSum with
    work := { Workspace.start .builtin with arena := strayArena } }

theorem parse_keeps_strayArena :
    let run := Production.program.parse ⟨.builtin, flatName, .default⟩ strayState
    OperatorTable.builtin.GrowsTo strayState.work.operators ∧ run.1.toOption.isSome ∧
      strayArena.nodes.toList <+: run.2.work.arena.nodes.toList ∧
      (∀ symbol fixity, strayState.work.operators.contains symbol fixity →
        run.2.work.operators.contains symbol fixity) ∧
      ∀ left right precedence, strayState.work.operators.fact? left right = some precedence →
        run.2.work.operators.fact? left right = some precedence := by
  have hmade : OperatorTable.builtin.GrowsTo strayState.work.operators := .refl _
  have hread : (Production.program.parse ⟨.builtin, flatName, .default⟩
      strayState).1.toOption.isSome = true := by
    decide +kernel
  exact ⟨hmade, hread, parse_keeps .program flatName .default strayState (.inr rfl) hmade⟩

end ApiSyntax
