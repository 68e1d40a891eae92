/-
  ApiSyntax/Proofs/Grammar/SourceFaults.lean --- what a source text fails of, and where.

  Main statements: a source text is read, or its reading fails, also where an alternative was
  given up, of one of the causes that a text can give rise to (`ofSource_isTextual`); and what
  it fails of is placed at a character of the text, unless the text ends too early
  (`ofSource_placed`).
-/
import ApiSyntax.Proofs.Grammar.ProgramFaults
import ApiSyntax.Proofs.Tokenizer.Positions

set_option autoImplicit false

namespace ApiSyntax

open ApiSyntax.Tokenizer

namespace Reading

/-- A failure that a reading met: the one that it ended with, or one for which an alternative
was given up. -/
inductive Meets (r : Reading) : Diagnostic → Prop
  | ended {d : Diagnostic} (h : r.root = .error (.failed d)) : Meets r d
  | rewound {index : Nat} {d : Diagnostic} (h : .rewound index d ∈ r.work.events) : Meets r d
  | mismatched {rule : String} {d : Diagnostic} (h : .mismatched rule d ∈ r.work.events) :
      Meets r d

/-- A run from no nodes and no events. -/
theorem clean_of_start (goal : Goal) (tokens : List Token) (mangle : String → String)
    (config : Config) (table : OperatorTable) :
    Clean (· ∈ tokens) (goal.parse ⟨.builtin, mangle, config⟩ (.start tokens table)) :=
  goal_clean (S := ⟨fun _ => True, (· ∈ tokens)⟩) (fun _ => trivial) rfl goal
    ⟨trivial, fun _ ht => ht⟩ fun _ he => absurd he (Array.not_mem_empty _)

/-- What the reading of a source text comes to. -/
structure Clean (r : Reading) (source : List Char) : Prop where
  events : ∀ e ∈ r.work.events, e.Clean fun t => t.span.Marks source
  ended : (∃ root, r.root = .ok root) ∨ ∃ d, r.root = .error (.failed d) ∧ d.cause.isTextual ∧
    (d.span = none → d.cause = .outOfTokens) ∧ ∀ span, d.span = some span → span.Marks source

theorem ofSource_clean (goal : Goal) (source : List Char) :
    (ofSource goal source).Clean source := by
  obtain ⟨tokens, behind, hmade, hmarks⟩ | ⟨quoted, span, hmade, hmarks⟩ :=
    builtin_tokenizeWithEnd_marks source
  · have hrun : ApiSyntax.Clean (· ∈ tokens)
        (goal.parse .standard (.start tokens .builtin)) := clean_of_start goal tokens _ _ _
    have hfault : ∀ {d : Diagnostic}, d.Fault (· ∈ tokens) → d.Fault fun t => t.span.Marks source :=
      fun hd => ⟨hd.textual, hd.placed, fun span hspan => by
        obtain ⟨t, ht, heq⟩ := hd.place span hspan
        exact ⟨t, hmarks t ht, heq⟩⟩
    rw [ofSource, hmade]
    dsimp only [ofTokens, after]
    generalize goal.parse .standard (.start tokens .builtin) = run at hrun
    obtain ⟨result, s⟩ := run
    constructor
    · intro e he
      rcases Array.mem_append.mp he with he | he
      · obtain rfl : e = .tokenized behind.offset tokens.length := by simpa using he
        trivial
      · have hevent := hrun.work e he
        cases e with
        | rewound index d => exact hfault hevent
        | mismatched rule d => exact hfault hevent
        | ambiguous rules text => exact hevent
        | _ => trivial
    · match result, hrun.stop with
      | .ok root, _ => exact .inl ⟨root, rfl⟩
      | .error .exhausted, hstop => exact (hstop _ rfl).elim
      | .error (.failed d), hstop =>
        have hd := hfault (hstop _ rfl)
        refine .inr ⟨d, rfl, hd.textual, hd.placed, fun span hspan => ?_⟩
        obtain ⟨t, ht, rfl⟩ := hd.place span hspan
        exact ht
  · rw [ofSource, hmade]
    refine ⟨fun e he => absurd he (Array.not_mem_empty _), .inr ⟨_, rfl, rfl, ?_, ?_⟩⟩
    · exact fun hnone => nomatch hnone
    · intro span' hspan
      cases hspan
      exact hmarks

/-- A source text has a reading, or it fails; the bound on recursion is never used up.  What the
reading met on its way, be it the failure that it ended with or one for which an alternative
was given up, has a cause that a text can give rise to.  To look up a handle that is not in the
arena would be met as a failure, and so would a shared node or a missing child slot; none of
them occurs.  And no two rules ever apply at one place of the top level. -/
theorem ofSource_isTextual (goal : Goal) (source : List Char) :
    ((∃ root, (ofSource goal source).root = .ok root) ∨
        ∃ d, (ofSource goal source).root = .error (.failed d)) ∧
      (∀ d, (ofSource goal source).Meets d → d.cause.isTextual) ∧
      ∀ rules text, .ambiguous rules text ∉ (ofSource goal source).work.events := by
  obtain ⟨hevents, hended⟩ := ofSource_clean goal source
  refine ⟨hended.imp_right fun ⟨d, hd, _⟩ => ⟨d, hd⟩, fun d hmeets => ?_, fun rules text he =>
    hevents _ he⟩
  cases hmeets with
  | ended h =>
    obtain ⟨root, hroot⟩ | ⟨d', hd', htextual, -⟩ := hended
    · rw [hroot] at h
      cases h
    · rw [hd'] at h
      cases h
      exact htextual
  | rewound h => exact (hevents _ h).textual
  | mismatched h => exact (hevents _ h).textual

/-- A failure is placed unless the text ended too early.  Where it is placed, a character stands:
its offset is short of the end of the text; line and column count what stands in front of it;
and the line of that number has the character at that column. -/
theorem ofSource_placed {goal : Goal} {source : List Char} {d : Diagnostic}
    (h : (ofSource goal source).root = .error (.failed d)) :
    (d.cause ≠ .outOfTokens → d.span.isSome) ∧
      ∀ span, d.span = some span →
        span.offset < source.length ∧
        span.line = (source.take span.offset).count '\n' ∧
        span.column = ((source.take span.offset).reverse.takeWhile (· ≠ '\n')).length ∧
        ∃ row, (lines source)[span.line]? = some row ∧
          row[span.column]? = source[span.offset]? := by
  obtain ⟨root, hroot⟩ | ⟨d', hd', -, hplaced, hmarks⟩ := (ofSource_clean goal source).ended
  · rw [hroot] at h
    cases h
  · rw [hd'] at h
    cases h
    refine ⟨fun hcause => ?_, fun span hspan => (hmarks span hspan).line⟩
    cases hspan : d.span with
    | none => exact absurd (hplaced hspan) hcause
    | some span => rfl

/-- A bracket is closed by a parenthesis, on the second line, behind a line end of two
characters. -/
theorem ofSource_placed_secondLine :
    ∃ d, (ofSource .expression "[1,\r\n  2)".toList).root = .error (.failed d) ∧
      d.span = some ⟨1, 3, 8⟩ ∧ 8 < "[1,\r\n  2)".toList.length ∧
      ∃ row, (lines "[1,\r\n  2)".toList)[1]? = some row ∧
        row[3]? = "[1,\r\n  2)".toList[8]? := by
  have hfailed : (ofSource .expression "[1,\r\n  2)".toList).root =
      .error (.failed (.unexpected ⟨.rparen, ")", ⟨1, 3, 8⟩⟩ "']'")) := by
    decide +kernel
  obtain ⟨hoffset, -, -, hline⟩ := (ofSource_placed hfailed).2 _ rfl
  exact ⟨_, hfailed, rfl, hoffset, hline⟩

end Reading

end ApiSyntax
