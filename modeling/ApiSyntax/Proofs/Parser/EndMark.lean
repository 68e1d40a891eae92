/-
  ApiSyntax/Proofs/Parser/EndMark.lean --- the mark behind the last token.

  When all tokens are consumed, a node made there would start at a mark behind the last of
  them.  The place of the mark is reckoned from that token alone, as if its text had no
  newline; the tokenizer counts all of the text.  If the text ends with that token, the two
  come to the same place exactly when the token stands in one line, as every token of the
  language does.

  Main statement: `startToken_span_eq_iff`.
-/
import ApiSyntax.Proofs.Parser.SharedCursor
import ApiSyntax.Proofs.Tokenizer.Anchoring
import ApiSyntax.Proofs.Tokenizer.Positions
import ApiSyntax.Reading

set_option autoImplicit false

namespace ApiSyntax

/-! ## Moving over a text -/

namespace Span

variable {text : List Char}

theorem advance_line (s : Span) (text : List Char) :
    (s.advance text).line = s.line + text.count '\n' := by
  induction text generalizing s with
  | nil => rfl
  | cons c text ih =>
    rw [advance_cons, ih]
    by_cases hc : c = '\n'
    · rw [step, if_pos hc, hc, List.count_cons_self, Nat.add_assoc, Nat.add_comm 1]
    · rw [step, if_neg hc, List.count_cons_of_ne hc]

theorem advance_column_le (s : Span) (text : List Char) :
    (s.advance text).column ≤ s.column + text.length := by
  induction text generalizing s with
  | nil => exact Nat.le_refl _
  | cons c text ih =>
    have hstep : (s.step c).column ≤ s.column + 1 := by
      unfold step
      split
      · exact Nat.zero_le _
      · exact Nat.le_refl _
    have hothers := ih (s.step c)
    rw [advance_cons, List.length_cons]
    omega

theorem advance_column (s : Span) (h : '\n' ∉ text) :
    (s.advance text).column = s.column + text.length := by
  induction text generalizing s with
  | nil => rfl
  | cons c text ih =>
    obtain ⟨hc, hothers⟩ := not_or.mp (mt List.mem_cons.mpr h)
    rw [advance_cons, ih _ hothers, step, if_neg (Ne.symm hc), List.length_cons, Nat.add_assoc,
      Nat.add_comm 1]

end Span

namespace Cursor

/-- Behind a token in one line the place is reckoned right, and only there. -/
theorem behind_eq_iff (t : Token) :
    behind t = t.span.advance t.value.toList ↔ '\n' ∉ t.value.toList := by
  constructor
  · intro heq
    have hlines := t.span.advance_line t.value.toList
    rw [← heq] at hlines
    have hnone : t.value.toList.count '\n' = 0 := Nat.add_eq_left.mp hlines.symm
    exact List.count_eq_zero.mp hnone
  · intro hnone
    have hline := t.span.advance_line t.value.toList
    rw [List.count_eq_zero.mpr hnone, Nat.add_zero] at hline
    have hcolumn := t.span.advance_column hnone
    have hoffset := t.span.advance_offset t.value.toList
    rw [String.length_toList] at hcolumn hoffset
    rw [behind, ← hline, ← hcolumn, ← hoffset]

/-- When all tokens are consumed, the last one of the sequence decides where the mark stands. -/
theorem startToken_done {c : Cursor} {last : Token} (hdone : c.hasMore = false)
    (hlast : c.stream.tokens.getLast? = some last) :
    c.startToken = ⟨.custom "EndOfInput", "", behind last⟩ := by
  have hrest : c.rest = [] := List.isEmpty_iff.mp (Bool.not_eq_eq_eq_not.mp hdone)
  rw [stream, hrest, List.append_nil, List.getLast?_reverse] at hlast
  rw [startToken, hrest, hlast]
  rfl

end Cursor

/-! ## The end of a text -/

namespace Tokenizer

variable {P : Type} [Engine P] {t : Tokenizer P} {text : List Char} {tokens : List Token}
  {behind : Span}

/-- The last piece of the text is a token: there is one, and nothing is passed over behind it. -/
def endsInToken (t : Tokenizer P) (text : List Char) : Bool :=
  (t.cut text).1.getLast?.any fun segment => !segment.category.discarded

omit [Engine P] in
theorem tokensFrom_concat (s : Span) (earlier : List (Segment P)) {segment : Segment P}
    (hkept : segment.category.discarded = false) :
    tokensFrom s (earlier ++ [segment]) = tokensFrom s earlier ++
      [⟨segment.category.kind, String.ofList segment.text, endOf s earlier⟩] := by
  induction earlier generalizing s with
  | nil =>
    simp only [List.nil_append, tokensFrom, hkept, Bool.false_eq_true, if_false]
    rfl
  | cons other earlier ih =>
    rw [List.cons_append, tokensFrom, tokensFrom, ih]
    cases other.category.discarded <;> rfl

/-- A text that ends in a token ends where that token does. -/
theorem last_token (hcut : t.tokenizeWithEnd text = .ok (tokens, behind))
    (hends : t.endsInToken text = true) :
    ∃ last, tokens.getLast? = some last ∧ last.span.advance last.value.toList = behind := by
  obtain ⟨segment, hlast, hkept⟩ := (Option.any_eq_true _ _).mp hends
  obtain ⟨earlier, hsegments⟩ := List.getLast?_eq_some_iff.mp hlast
  rw [tokenizeWithEnd] at hcut
  dsimp only at hcut
  split at hcut
  · cases hcut
    rw [hsegments, tokensFrom_concat .start earlier (Bool.not_eq_eq_eq_not.mp hkept),
      List.getLast?_concat]
    refine ⟨_, rfl, ?_⟩
    rw [String.toList_ofList, endOf, endOf, List.foldl_concat]
  · cases hcut

/-- A token of the language stands in one line. -/
theorem newline_not_mem_token (hcut : builtin.tokenize text = .ok tokens) {token : Token}
    (h : token ∈ tokens) : '\n' ∉ token.value.toList := by
  obtain ⟨segments, hcuts, rfl⟩ := tokenize_ok_iff.mp hcut
  obtain ⟨segment, hsegment, -, htext⟩ := mem_kept_of_token h
  obtain ⟨hmem, hkept⟩ := List.mem_filter.mp hsegment
  obtain ⟨hcategory, hmatches⟩ := hcuts.matches builtin_isAnchored segment hmem
  rw [← htext]
  intro hnewline
  have hsolid := isSolid_of_taken hcategory (Bool.not_eq_eq_eq_not.mp hkept) hmatches _ hnewline
  exact (lineEnd_blank (not_isBlank_of_isSolid hsolid)).1 rfl

end Tokenizer

/-! ## All tokens consumed -/

namespace Session

/-- When each of the tokens ahead is taken, the cursor stands behind all of them, in the same
sequence. -/
theorem run_takes (env : ParserEnv) {s : Session} {ahead : List Token}
    (hahead : s.state.cursor.rest = ahead) :
    let c := (s.run env (List.replicate ahead.length (.take .consume))).2.state.cursor
    c.stream.tokens = s.state.cursor.stream.tokens ∧ c.hasMore = false := by
  induction ahead generalizing s with
  | nil =>
    refine ⟨rfl, ?_⟩
    change s.state.cursor.hasMore = false
    rw [Cursor.hasMore, hahead]
    rfl
  | cons t ahead ih =>
    have hstep : s.step env (.take .consume) = (.token (.ok t),
        { s with state := { s.state with cursor := ⟨t :: s.state.cursor.consumed, ahead⟩ } }) := by
      rw [step, Demand.parser, Parser.consume_run hahead]
    have hothers := ih (s := (s.step env (.take .consume)).2) (by rw [hstep])
    have hsame : (s.step env (.take .consume)).2.state.cursor.stream.tokens =
        s.state.cursor.stream.tokens := by
      rw [hstep, Cursor.stream_pass hahead]
    rw [hsame] at hothers
    exact hothers

end Session

/-! ## The mark -/

open Tokenizer Pattern

variable {P : Type} [Engine P] {t : Tokenizer P} {text : List Char} {tokens : List Token}
  {behind : Span} {s : ParserState}

/-- With any engine: when all tokens of a text that ends in a token are consumed, the mark stands
behind the last token.  That is the end of the text exactly if this token has no newline.  In any
case the offset is right; the line falls short by the newlines of the token, and the column is not
too small. -/
theorem startToken_span_eq_iff (hcut : t.tokenizeWithEnd text = .ok (tokens, behind))
    (hends : t.endsInToken text = true) (hover : s.cursor.stream.tokens = tokens)
    (hdone : s.cursor.hasMore = false) (env : ParserEnv) :
    ∃ mark last, Parser.startToken env s = (.ok mark, s) ∧ tokens.getLast? = some last ∧
      (mark.span = behind ↔ '\n' ∉ last.value.toList) ∧
      mark.span.offset = behind.offset ∧
      mark.span.line + last.value.toList.count '\n' = behind.line ∧
      behind.column ≤ mark.span.column := by
  obtain ⟨last, hlast, rfl⟩ := last_token hcut hends
  have hmark := Cursor.startToken_done hdone (hover ▸ hlast)
  refine ⟨_, last, congrArg (fun mark => (Except.ok mark, s)) hmark, hlast,
    Cursor.behind_eq_iff last, ?_, ?_, ?_⟩
  · rw [Span.advance_offset, String.length_toList]
    rfl
  · rw [Span.advance_line]
    rfl
  · have hcolumn := last.span.advance_column_le last.value.toList
    rwa [String.length_toList] at hcolumn

/-- Remarks between two signs.  They may go over several lines. -/
def remark : Category :=
  ⟨.custom "Remark", "#[^#]*#",
    seq (place .textStart) (seq (char (.ranges [('#', '#')]))
      (seq (star (char (.complement (.ranges [('#', '#')]))) true) (char (.ranges [('#', '#')])))),
    false⟩

/-- The tokenizer of the language, with remarks added. -/
def withRemarks : Tokenizer := ⟨builtinCategories ++ [remark]⟩

/-- The text is cut with remarks, ends at `behind`, and its last piece is the token `word`. -/
def endsWith (text word : List Char) (behind : Span) : Bool :=
  withRemarks.endsInToken text && ((withRemarks.tokenizeWithEnd text).toOption.map fun cut =>
    (cut.1.getLast?.map (·.value.toList), cut.2)) == some (some word, behind)

/-- What is looked up: the pattern text of a remark is read as its pattern, and two texts are cut. -/
theorem remark_lookup :
    Pattern.ofText (Category.anchoredText remark.source) = .ok remark.pattern ∧
      endsWith "#a\nb# c".toList "c".toList ⟨1, 4, 7⟩ = true ∧
      endsWith "a #b\ncd#".toList "#b\ncd#".toList ⟨1, 3, 8⟩ = true := by
  decide +kernel

theorem ofText_remark : Category.ofText remark.kind remark.source = .ok remark :=
  Category.ofText_eq_ok.mpr ⟨_, compile_eq_ok.mpr remark_lookup.1, rfl⟩

/-- The tokens of such a text, all of them consumed. -/
theorem exists_consumed {word : List Char} (h : endsWith text word behind = true) :
    ∃ (tokens : List Token) (last : Token) (s : ParserState),
      withRemarks.tokenizeWithEnd text = .ok (tokens, behind) ∧
      withRemarks.endsInToken text = true ∧ tokens.getLast? = some last ∧
      last.value.toList = word ∧ s.cursor.stream.tokens = tokens ∧ s.cursor.hasMore = false := by
  obtain ⟨hends, hread⟩ := (Bool.and_eq_true _ _).mp h
  cases hcut : withRemarks.tokenizeWithEnd text with
  | error d =>
    rw [hcut] at hread
    cases hread
  | ok cut =>
    rw [hcut] at hread
    obtain ⟨tokens, place⟩ := cut
    obtain ⟨hvalue, rfl⟩ := Prod.mk.inj (Option.some.inj (eq_of_beq hread))
    obtain ⟨last, hlast, rfl⟩ := Option.map_eq_some_iff.mp hvalue
    have hstart : (⟨.start tokens .builtin, []⟩ : Session).state.cursor.rest = tokens := rfl
    obtain ⟨hover, hdone⟩ := Session.run_takes .standard hstart
    exact ⟨tokens, last, _, rfl, hends, hlast, rfl, hover, hdone⟩

/-- A remark of two lines, and a name behind it. -/
theorem startToken_span_eq_iff_name : ∃ tokens s mark,
    Category.ofText remark.kind remark.source = .ok remark ∧
      builtin.push remark = .ok withRemarks ∧
      withRemarks.tokenizeWithEnd "#a\nb# c".toList = .ok (tokens, ⟨1, 4, 7⟩) ∧
      withRemarks.endsInToken "#a\nb# c".toList = true ∧ s.cursor.stream.tokens = tokens ∧
      s.cursor.hasMore = false ∧
      Parser.startToken .standard s = (.ok mark, s) ∧ mark.span = ⟨1, 4, 7⟩ := by
  obtain ⟨tokens, last, s, hcut, hends, hlast, hword, hover, hdone⟩ :=
    exists_consumed remark_lookup.2.1
  obtain ⟨mark, token, hmark, htoken, hplace, -⟩ :=
    startToken_span_eq_iff hcut hends hover hdone .standard
  obtain rfl := Option.some.inj (hlast.symm.trans htoken)
  exact ⟨tokens, s, mark, ofText_remark, rfl, hcut, hends, hover, hdone, hmark,
    hplace.mpr (hword ▸ by decide)⟩

/-- Behind a remark of two lines the mark misses the end of the text. -/
theorem startToken_misses_end : ¬ ∀ (category : Category) (t : Tokenizer) (text : List Char)
    (tokens : List Token) (behind : Span) (s : ParserState),
      Category.ofText category.kind category.source = .ok category →
      builtin.push category = .ok t → t.tokenizeWithEnd text = .ok (tokens, behind) →
      t.endsInToken text = true → s.cursor.stream.tokens = tokens → s.cursor.hasMore = false →
      ∃ mark, Parser.startToken .standard s = (.ok mark, s) ∧ mark.span = behind := by
  intro hclaim
  obtain ⟨tokens, last, s, hcut, hends, hlast, hword, hover, hdone⟩ :=
    exists_consumed remark_lookup.2.2
  obtain ⟨mark, hmark, hplace⟩ :=
    hclaim remark withRemarks _ tokens _ s ofText_remark rfl hcut hends hover hdone
  obtain rfl : s.cursor.startToken = mark := Except.ok.inj (congrArg Prod.fst hmark)
  obtain ⟨token, htoken, hbehind⟩ := last_token hcut hends
  obtain rfl := Option.some.inj (hlast.symm.trans htoken)
  have hline : Cursor.behind last = last.span.advance last.value.toList := by
    rw [hbehind, ← hplace, Cursor.startToken_done hdone (hover ▸ hlast)]
  rw [Cursor.behind_eq_iff, hword] at hline
  exact hline (by decide)

/-- For the language the mark is the end of the text, whenever the text ends in a token. -/
theorem builtin_startToken_span (hcut : builtin.tokenizeWithEnd text = .ok (tokens, behind))
    (hends : builtin.endsInToken text = true) (hover : s.cursor.stream.tokens = tokens)
    (hdone : s.cursor.hasMore = false) (env : ParserEnv) :
    ∃ mark, Parser.startToken env s = (.ok mark, s) ∧ mark.span = behind := by
  obtain ⟨last, hlast, rfl⟩ := last_token hcut hends
  have hmark := Cursor.startToken_done hdone (hover ▸ hlast)
  refine ⟨_, congrArg (fun mark => (Except.ok mark, s)) hmark, (Cursor.behind_eq_iff last).mpr ?_⟩
  have htokens : builtin.tokenize text = .ok tokens := by
    rw [tokenize, hcut]
    rfl
  exact newline_not_mem_token htokens (List.mem_of_getLast? hlast)

end ApiSyntax
