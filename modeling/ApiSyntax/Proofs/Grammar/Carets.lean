/-
  ApiSyntax/Proofs/Grammar/Carets.lean --- where the caret under a quoted line stands.

  The drawing of a failure quotes the source line behind a gutter, with the number of the
  line filled up to three columns, and puts the caret behind a gutter of its own, which is
  two columns wide before the bar and does not grow.  The column that is marked is the
  right one, but the caret is drawn to its left: by one place, and by one more for each
  digit that the number of the line has beyond three.

  Main statement: `render_caret`.
-/
import ApiSyntax.Proofs.Grammar.SourceFaults
import Mathlib.Data.Nat.Digits.Defs

set_option autoImplicit false

namespace ApiSyntax

open ApiSyntax.Tokenizer

/-! ## Lines have no line ends -/

variable {row : List Char}

theorem newline_not_mem_dropReturn (h : '\n' ∉ row) : '\n' ∉ dropReturn row := by
  unfold dropReturn
  split
  · exact fun hmem => h (List.dropLast_subset row hmem)
  · exact h

theorem newline_not_mem_linesFrom {held text : List Char} (hheld : '\n' ∉ held)
    (h : row ∈ linesFrom held text) : '\n' ∉ row := by
  induction text generalizing held with
  | nil =>
    rw [linesFrom] at h
    split at h
    · exact absurd h List.not_mem_nil
    · rw [List.mem_singleton.mp h, List.mem_reverse]
      exact hheld
  | cons c text ih =>
    rw [linesFrom] at h
    split at h
    · rcases List.mem_cons.mp h with rfl | h
      · exact newline_not_mem_dropReturn fun hmem => hheld (List.mem_reverse.mp hmem)
      · exact ih List.not_mem_nil h
    · next hc =>
      exact ih (fun hmem => (List.mem_cons.mp hmem).elim (fun heq => hc heq.symm) hheld) h

/-- No line of a text holds a newline. -/
theorem newline_not_mem_lines {text : List Char} (h : row ∈ lines text) : '\n' ∉ row :=
  newline_not_mem_linesFrom List.not_mem_nil h

theorem newline_not_mem_repr (n : Nat) : '\n' ∉ (toString n).toList := by
  intro hmem
  have hdigits : (toString n).toList = Nat.toDigits 10 n := String.toList_ofList
  rw [hdigits] at hmem
  have hdigit : '\n'.isDigit = true := Nat.isDigit_of_mem_toDigits (by decide) (by decide) hmem
  cases hdigit

/-! ## Failures of a text -/

/-- The text fails so: when it is cut into tokens, or when it is read as some whole. -/
def Reports (source : List Char) (d : Diagnostic) : Prop :=
  builtin.tokenize source = .error d ∨
    ∃ goal, (Reading.ofSource goal source).root = .error (.failed d)

/-- Where a text fails, if a place is given, it has a character. -/
theorem Reports.marks {source : List Char} {d : Diagnostic} (h : Reports source d) {span : Span}
    (hspan : d.span = some span) : span.Marks source := by
  rcases h with h | ⟨goal, h⟩
  · rw [tokenize] at h
    obtain ⟨tokens, behind, hcut, -⟩ | ⟨quoted, place, hcut, hmarks⟩ :=
      builtin_tokenizeWithEnd_marks source
    · rw [hcut] at h
      cases h
    · rw [hcut] at h
      cases h
      cases hspan
      exact hmarks
  · obtain ⟨root, hroot⟩ | ⟨d', hd', -, -, hmarks⟩ := (Reading.ofSource_clean goal source).ended
    · rw [hroot] at h
      cases h
    · rw [hd'] at h
      cases h
      exact hmarks span hspan

/-! ## The drawing -/

/-- A printed text in parts: what is printed first, a line that quotes behind a gutter, the line
with the caret, and what is printed last. -/
structure Excerpt where
  above : List Char
  gutter : List Char
  row : List Char
  caret : List Char
  below : List Char

/-- The printed text. -/
def Excerpt.text (x : Excerpt) : List Char :=
  x.above ++ '\n' :: (x.gutter ++ x.row ++ '\n' :: (x.caret ++ '\n' :: x.below))

/-- What is quoted is the source line of the position, with the character of the position in its
column.  Neither the quoted line nor the one with the caret is broken. -/
structure Excerpt.Quotes (x : Excerpt) (source : List Char) (span : Span) : Prop where
  quoted : (lines source)[span.line]? = some x.row
  char : span.offset < source.length ∧ x.row[span.column]? = source[span.offset]?
  unbroken : '\n' ∉ x.gutter ++ x.row ∧ '\n' ∉ x.caret

/-- How far the quoted line is set further to the right than the caret. -/
def Span.outset (span : Span) : Nat := max 3 (toString (span.line + 1)).length - 2

theorem Span.outset_pos (span : Span) : 0 < span.outset := by
  unfold outset
  omega

/-- On the first 999 lines it is one place. -/
theorem Span.outset_eq_one_iff (span : Span) : span.outset = 1 ↔ span.line < 999 := by
  have hdigits : (toString (span.line + 1)).length ≤ 3 ↔ span.line + 1 < 10 ^ 3 :=
    Nat.length_repr_le_iff (by decide)
  unfold outset
  omega

theorem padLeft_length (width : Nat) (s : String) :
    (Diagnostic.padLeft width s).length = max width s.length := by
  rw [Diagnostic.padLeft, String.length_append, String.length_ofList, List.length_replicate]
  omega

theorem caretLine_toList (column : Nat) : (Diagnostic.caretLine column).toList =
    "   | ".toList ++ (List.replicate column ' ' ++ ['^']) := by
  rw [Diagnostic.caretLine, String.toList_append, String.toList_append, List.append_assoc,
    String.toList_ofList (l := List.replicate column ' ')]
  rfl

/-- The one caret on its line stands behind the blanks of the column. -/
theorem caretLine_getElem? (column i : Nat) :
    (Diagnostic.caretLine column).toList[i]? = some '^' ↔ i = column + 5 := by
  have hgutter : "   | ".toList.length = 5 := rfl
  have hnone : '^' ∉ "   | ".toList := by decide
  rw [caretLine_toList]
  constructor
  · intro h
    rcases Nat.lt_or_ge i 5 with hi | hi
    · rw [List.getElem?_append_left hi] at h
      exact absurd (List.mem_of_getElem? h) hnone
    · rw [List.getElem?_append_right hi, hgutter] at h
      rcases Nat.lt_or_ge (i - 5) column with hcolumn | hcolumn
      · rw [List.getElem?_append_left (by rwa [List.length_replicate])] at h
        have hblank := List.eq_of_mem_replicate (List.mem_of_getElem? h)
        cases hblank
      · rw [List.getElem?_append_right (by rwa [List.length_replicate]), List.length_replicate] at h
        have hlast := (List.getElem?_eq_some_iff.mp h).1
        rw [List.length_singleton] at hlast
        omega
  · rintro rfl
    rw [List.getElem?_append_right (by rw [hgutter]; omega), hgutter, Nat.add_sub_cancel,
      List.getElem?_append_right (by rw [List.length_replicate]), List.length_replicate,
      Nat.sub_self]
    rfl

/-- A line stands between two line ends. -/
theorem toList_join_lines (first second third quoted caret : String) (others : List String) :
    (String.join (([first, second, third, quoted, caret] ++ others).map (· ++ "\n"))).toList =
      (first ++ "\n" ++ second ++ "\n" ++ third).toList ++
        '\n' :: (quoted.toList ++ '\n' :: (caret.toList ++ '\n' ::
          (String.join (others.map (· ++ "\n"))).toList)) := by
  simp [String.toList_join]

/-- The drawing of a failure at a position shows the quoted line, and the caret directly below. -/
theorem render_toList (file : String) (source : List Char) {d : Diagnostic} {span : Span}
    (hspan : d.span = some span) : ∃ above below, (d.render file source).toList =
      above ++ '\n' :: ((Diagnostic.quotedLine source span).toList ++
        '\n' :: ((Diagnostic.caretLine span.column).toList ++ '\n' :: below)) := by
  rw [Diagnostic.render, Diagnostic.drawing, hspan]
  exact ⟨_, _, toList_join_lines _ _ _ _ _ _⟩

/-- What stands in front of the quoted line: its number and a bar. -/
def numberGutter (span : Span) : List Char :=
  (Diagnostic.padLeft 3 (toString (span.line + 1)) ++ " | ").toList

theorem quotedLine_toList {source row : List Char} {span : Span}
    (hrow : (lines source)[span.line]? = some row) :
    (Diagnostic.quotedLine source span).toList = numberGutter span ++ row := by
  rw [Diagnostic.quotedLine, String.toList_append, lineAt, hrow, Option.getD_some,
    String.toList_ofList]
  rfl

theorem numberGutter_length (span : Span) : (numberGutter span).length = 5 + span.outset := by
  have hbar : " | ".length = 3 := rfl
  rw [numberGutter, String.length_toList, String.length_append, padLeft_length, Span.outset]
  omega

theorem newline_not_mem_numberGutter (span : Span) : '\n' ∉ numberGutter span := by
  have hnumber := newline_not_mem_repr (span.line + 1)
  have hbar : '\n' ∉ " | ".toList := by decide
  rw [numberGutter, Diagnostic.padLeft, String.toList_append, String.toList_append]
  simp only [List.mem_append, not_or]
  refine ⟨⟨fun hmem => ?_, hnumber⟩, hbar⟩
  rw [String.toList_ofList] at hmem
  cases List.eq_of_mem_replicate hmem

theorem newline_not_mem_caretLine (column : Nat) :
    '\n' ∉ (Diagnostic.caretLine column).toList := by
  have hgutter : '\n' ∉ "   | ".toList := by decide
  rw [caretLine_toList]
  simp only [List.mem_append, List.mem_singleton, not_or]
  refine ⟨hgutter, fun hmem => ?_, by decide⟩
  cases List.eq_of_mem_replicate hmem

/-- The caret is drawn in the column of the position, and the quoted line further to the right: the
character of the position stands as many places behind the caret as the line is set out.  So the
caret is never where the character is. -/
theorem render_caret (file : String) {source : List Char} {d : Diagnostic} {span : Span}
    (h : Reports source d) (hspan : d.span = some span) :
    ∃ x : Excerpt, (d.render file source).toList = x.text ∧ x.Quotes source span ∧
      (∀ i, x.caret[i]? = some '^' ↔ i + span.outset = x.gutter.length + span.column) ∧
      x.caret[x.gutter.length + span.column]? ≠ some '^' := by
  obtain ⟨hoffset, -, -, row, hrow, hchar⟩ := (h.marks hspan).line
  obtain ⟨above, below, hrender⟩ := render_toList file source hspan
  rw [quotedLine_toList hrow] at hrender
  have hcaret : ∀ i, (Diagnostic.caretLine span.column).toList[i]? = some '^' ↔
      i + span.outset = (numberGutter span).length + span.column := by
    intro i
    rw [caretLine_getElem?, numberGutter_length]
    omega
  have hquoted : '\n' ∉ numberGutter span ++ row := fun hmem =>
    (List.mem_append.mp hmem).elim (newline_not_mem_numberGutter span)
      (newline_not_mem_lines (List.mem_of_getElem? hrow))
  have hunbroken := newline_not_mem_caretLine span.column
  have hpos := span.outset_pos
  -- From here on it does not matter how the two lines are printed.
  generalize (Diagnostic.caretLine span.column).toList = caret at hrender hcaret hunbroken
  generalize numberGutter span = gutter at hrender hcaret hquoted
  refine ⟨⟨above, gutter, row, caret, below⟩, hrender,
    ⟨hrow, ⟨hoffset, hchar⟩, hquoted, hunbroken⟩, hcaret, fun hpoints => ?_⟩
  have hplace : gutter.length + span.column + span.outset = gutter.length + span.column :=
    (hcaret _).mp hpoints
  omega

/-- A parenthesis in place of a bracket, on the second line of a file. -/
theorem render_caret_secondLine : ∃ (d : Diagnostic) (x : Excerpt),
    Reports "[1,\r\n  2)".toList d ∧ d.span = some ⟨1, 3, 8⟩ ∧
      (d.render "list.tl" "[1,\r\n  2)".toList).toList = x.text ∧
      x.Quotes "[1,\r\n  2)".toList ⟨1, 3, 8⟩ ∧
      (∀ i, x.caret[i]? = some '^' ↔ i + 1 = x.gutter.length + 3) ∧
      x.caret[x.gutter.length + 3]? ≠ some '^' := by
  have hfailed : (Reading.ofSource .expression "[1,\r\n  2)".toList).root =
      .error (.failed (.unexpected ⟨.rparen, ")", ⟨1, 3, 8⟩⟩ "']'")) := by
    decide +kernel
  have hreports : Reports "[1,\r\n  2)".toList _ := .inr ⟨_, hfailed⟩
  have hspan : (Diagnostic.unexpected ⟨.rparen, ")", ⟨1, 3, 8⟩⟩ "']'").span = some ⟨1, 3, 8⟩ := rfl
  obtain ⟨x, hx⟩ := render_caret "list.tl" hreports hspan
  rw [(Span.outset_eq_one_iff ⟨1, 3, 8⟩).mpr (by decide)] at hx
  exact ⟨_, x, hreports, hspan, hx⟩

/-- Somewhere in a printed text a line ends with the source line of the position, and the line below
it has a caret at the index that the character of the position has in the first. -/
def pointsAt (printed source : List Char) (span : Span) : Bool :=
  let row := lineAt source span.line
  ((lines printed).zip (lines printed).tail).any fun (quoted, caret) =>
    row.isSuffixOf quoted && caret[quoted.length - row.length + span.column]? == some '^'

/-- A caret that misses the only character of a text. -/
theorem render_misses : ¬ ∀ (file : String) (source : List Char) (d : Diagnostic) (span : Span),
    Reports source d → d.span = some span →
      pointsAt (d.render file source).toList source span = true := by
  intro hpoints
  have hfailed : (Reading.ofSource .program "$".toList).root =
      .error (.failed ((Diagnostic.of (.lexicalError "$")).placed .start)) := by
    decide +kernel
  have hcaret := hpoints "input.tl" _ _ _ (.inr ⟨_, hfailed⟩) rfl
  exact absurd hcaret (by decide +kernel)

end ApiSyntax
