/-
  ApiSyntax/Proofs/Tokenizer/Positions.lean --- positions and the lines they point into.

  A position marks a character of a text that is no part of a line end.  The tokenizer counts
  newlines, and the cut into lines takes a carriage return in front of a newline away, so
  the two agree at such a character and need not at others.  What the tokenizer of the
  language reports marks a character, be it the position of a token or of a lexical error.
-/
import ApiSyntax.Proofs.Tokenizer.Alphabet

set_option autoImplicit false

namespace ApiSyntax

/-! ## Lines -/

/-- The line that holds `c` keeps it at its column, however the line ends. -/
theorem first_line {c : Char} (hc : c ≠ '\r') (held ahead text : List Char) :
    ∃ row later, linesFrom (ahead ++ c :: held) text = row :: later ∧
      row[held.length]? = some c := by
  have hline : ∀ ahead : List Char, (ahead ++ c :: held).reverse[held.length]? = some c := by
    intro ahead
    simp [List.reverse_append, List.reverse_cons, List.append_assoc]
  induction text generalizing ahead with
  | nil =>
    have hsome : (ahead ++ c :: held).isEmpty = false := by simp
    refine ⟨_, [], ?_, hline ahead⟩
    rw [linesFrom, hsome]
    rfl
  | cons d text ih =>
    rw [linesFrom]
    split
    · refine ⟨_, _, rfl, ?_⟩
      unfold dropReturn
      split
      · next hreturn =>
        -- The carriage return stands behind `c`.
        cases ahead with
        | nil =>
          rw [List.nil_append, List.getLast?_reverse, List.head?_cons, Option.some.injEq] at hreturn
          exact absurd hreturn hc
        | cons e ahead =>
          have hdrop : (e :: ahead ++ c :: held).reverse.dropLast =
              (ahead ++ c :: held).reverse := by
            rw [List.cons_append, List.reverse_cons, List.dropLast_concat]
          rw [hdrop]
          exact hline ahead
      · exact hline ahead
    · exact ih (d :: ahead)

/-- The character behind `front` stands in the line that counting newlines gives, at the column
that counting back to the last newline gives. -/
theorem linesFrom_char {c : Char} (hn : c ≠ '\n') (hr : c ≠ '\r') (front behind held : List Char)
    (hheld : '\n' ∉ held) :
    ∃ row, (linesFrom held (front ++ c :: behind))[front.count '\n']? = some row ∧
      row[((front.reverse ++ held).takeWhile (· ≠ '\n')).length]? = some c := by
  induction front generalizing held with
  | nil =>
    obtain ⟨row, later, hlines, hline⟩ := first_line hr held [] behind
    have hall : held.takeWhile (· ≠ '\n') = held := by
      apply List.takeWhile_eq_self_iff.mpr
      intro d hd
      exact decide_eq_true fun h => hheld (h ▸ hd)
    refine ⟨row, ?_, ?_⟩
    · rw [List.nil_append, linesFrom, if_neg hn]
      exact congrArg (·[0]?) hlines
    · rw [List.reverse_nil, List.nil_append, hall]
      exact hline
  | cons d front ih =>
    rw [List.cons_append, linesFrom]
    by_cases hd : d = '\n'
    · obtain ⟨row, hlines, hline⟩ := ih [] List.not_mem_nil
      have hcolumn : ((d :: front).reverse ++ held).takeWhile (· ≠ '\n') =
          (front.reverse ++ []).takeWhile (· ≠ '\n') := by
        rw [List.reverse_cons, List.append_assoc, List.append_nil, hd, List.singleton_append,
          List.takeWhile_append]
        split
        · next hfull =>
          have hprefix := List.takeWhile_prefix (l := front.reverse) (· ≠ '\n')
          rw [List.takeWhile_cons_of_neg (by simp), List.append_nil, hprefix.eq_of_length hfull]
        · rfl
      refine ⟨row, ?_, ?_⟩
      · rw [if_pos hd, hd, List.count_cons_self, List.getElem?_cons_succ]
        exact hlines
      · rw [hcolumn]
        exact hline
    · obtain ⟨row, hlines, hline⟩ := ih (d :: held) fun hmem =>
        (List.mem_cons.mp hmem).elim (fun h => hd h.symm) hheld
      refine ⟨row, ?_, ?_⟩
      · rw [if_neg hd, List.count_cons_of_ne hd]
        exact hlines
      · rw [List.reverse_cons, List.append_assoc, List.singleton_append]
        exact hline

/-! ## Positions that mark a character -/

/-- The position is that of a character of the text which is no part of a line end. -/
def Span.Marks (span : Span) (text : List Char) : Prop :=
  ∃ front c behind, text = front ++ c :: behind ∧ span = past front ∧ c ≠ '\n' ∧ c ≠ '\r'

/-- A position that marks a character counts what stands in front of it, and the line of that
number has the character at that column. -/
theorem Span.Marks.line {span : Span} {text : List Char} (h : span.Marks text) :
    span.offset < text.length ∧ span.line = (text.take span.offset).count '\n' ∧
      span.column = ((text.take span.offset).reverse.takeWhile (· ≠ '\n')).length ∧
      ∃ row, (lines text)[span.line]? = some row ∧ row[span.column]? = text[span.offset]? := by
  obtain ⟨front, c, behind, rfl, rfl, hn, hr⟩ := h
  have htake : (front ++ c :: behind).take (past front).offset = front := List.take_left
  have hchar : (front ++ c :: behind)[(past front).offset]? = some c := by
    rw [past, List.getElem?_append_right (Nat.le_refl _), Nat.sub_self, List.getElem?_cons_zero]
  obtain ⟨row, hlines, hline⟩ := linesFrom_char hn hr front behind [] List.not_mem_nil
  rw [List.append_nil] at hline
  rw [htake, hchar]
  refine ⟨?_, rfl, rfl, row, hlines, hline⟩
  have hoffset : (past front).offset = front.length := rfl
  rw [hoffset, List.length_append, List.length_cons]
  omega

/-! ## What is reported -/

theorem lineEnd_blank {c : Char} (h : isBlank c = false) : c ≠ '\n' ∧ c ≠ '\r' := by
  constructor
  · rintro rfl
    exact absurd h (by decide)
  · rintro rfl
    exact absurd h (by decide)

namespace Tokenizer

variable {text left : List Char} {segments : List Segment}

/-- A token stands where its piece does, and it is not empty. -/
theorem span_of_mem_tokensOf {token : Token} (h : token ∈ tokensOf segments) :
    ∃ i segment, segments[i]? = some segment ∧ segment.category.discarded = false ∧
      token.span = Span.past (textBefore segments i) := by
  obtain ⟨⟨segment, i⟩, hmem, htoken⟩ := List.mem_filterMap.mp h
  refine ⟨i, segment, List.mem_zipIdx_iff_getElem?.mp hmem, ?_⟩
  unfold Segment.token? at htoken
  split at htoken
  · cases htoken
  · next hkept =>
    cases htoken
    exact ⟨Bool.eq_false_iff.mpr hkept, rfl⟩

/-- A token of the language marks its first character. -/
theorem builtin_marks (h : builtin.Cuts text segments left) {token : Token}
    (htoken : token ∈ tokensOf segments) : token.span.Marks text := by
  obtain ⟨i, segment, hsegment, hkept, hspan⟩ := span_of_mem_tokensOf htoken
  have hmem : segment ∈ segments := List.mem_of_getElem? hsegment
  obtain ⟨hcategory, hmatches⟩ := h.matches builtin_isAnchored segment hmem
  obtain ⟨c, rest, htext⟩ := List.exists_cons_of_ne_nil (h.ne_nil segment hmem)
  have hsolid : isSolid c = true :=
    isSolid_of_taken hcategory hkept hmatches c (htext ▸ List.mem_cons_self)
  have hends := lineEnd_blank (not_isBlank_of_isSolid hsolid)
  refine ⟨textBefore segments i, c,
    rest ++ (((segments.drop (i + 1)).map (·.text)).flatten ++ left), ?_, hspan, hends⟩
  have hsplit : segments = segments.take i ++ segment :: segments.drop (i + 1) := by
    obtain ⟨hi, rfl⟩ := List.getElem?_eq_some_iff.mp hsegment
    rw [← List.drop_eq_getElem_cons hi, List.take_append_drop]
  rw [h.flatten]
  conv => lhs; rw [hsplit]
  rw [List.map_append, List.flatten_append, List.map_cons, List.flatten_cons, htext, textBefore]
  simp only [List.append_assoc, List.cons_append]

/-- Where no category of the language has a match, a character is marked. -/
theorem builtin_marks_stuck (h : builtin.Cuts text segments left) (hstuck : builtin.IsStuck left)
    (hleft : left ≠ []) : (Span.past (segments.map (·.text)).flatten).Marks text := by
  obtain ⟨c, rest, rfl, hc⟩ := (builtin_isStuck hstuck).resolve_left hleft
  have hends := lineEnd_blank (Bool.or_eq_false_iff.mp hc).1
  exact ⟨_, c, rest, h.flatten, rfl, hends⟩

/-- What the tokenizer of the language comes to: tokens that mark characters, or a lexical error
that marks one. -/
theorem builtin_tokenizeWithEnd_marks (text : List Char) :
    (∃ tokens behind, builtin.tokenizeWithEnd text = .ok (tokens, behind) ∧
        ∀ token ∈ tokens, token.span.Marks text) ∨
      ∃ quoted span, builtin.tokenizeWithEnd text =
        .error ((Diagnostic.of (.lexicalError quoted)).placed span) ∧ span.Marks text := by
  obtain ⟨segments, left, hcuts, hstuck⟩ := builtin.exists_cuts text
  have hmade := tokenizeWithEnd_of_cuts hcuts hstuck
  by_cases hleft : left = []
  · subst hleft
    exact .inl ⟨_, _, hmade, fun token htoken => builtin_marks hcuts htoken⟩
  · rw [if_neg fun h => hleft (List.isEmpty_iff.mp h)] at hmade
    exact .inr ⟨_, _, hmade, builtin_marks_stuck hcuts hstuck hleft⟩

end Tokenizer

end ApiSyntax
