/-
  ApiSyntax/Proofs/Tokenizer/Lexemes.lean --- words that are tokens stay tokens.

  A lexeme is what some token of some text reads.  Lexemes may be taken out of their texts
  and set one behind the other: with blanks between them they are cut apart again, each as
  a token of the kind that it had.

  Main statement: `tokenize_lexemes`.
-/
import ApiSyntax.Proofs.Tokenizer.Respacing
import Mathlib.Data.List.Forall2

set_option autoImplicit false

namespace ApiSyntax

open Pattern

/-- A token has this kind and reads so. -/
def Token.Shows (token : Token) (word : TokenKind × String) : Prop :=
  token.is word.1 ∧ token.value = word.2

namespace Tokenizer

variable {kind : TokenKind} {value : String} {text : List Char} {tokens : List Token}

/-- Some text has a token of this kind that reads so. -/
def Lexeme (kind : TokenKind) (value : String) : Prop :=
  ∃ text tokens token, builtin.tokenize text = .ok tokens ∧ token ∈ tokens ∧
    token.is kind ∧ token.value = value

/-- A token reads a lexeme of its kind. -/
theorem lexeme_of_mem {token : Token} (hcut : builtin.tokenize text = .ok tokens)
    (h : token ∈ tokens) (hkind : token.is kind) : Lexeme kind token.value :=
  ⟨text, tokens, token, hcut, h, hkind, rfl⟩

/-- A text that is cut into one token of its own is a lexeme. -/
theorem lexeme_of_tokenize (h : ((builtin.tokenize value.toList).toOption.any fun tokens =>
    tokens.any (·.isValue kind value)) = true) : Lexeme kind value := by
  cases hcut : builtin.tokenize value.toList with
  | error d =>
    rw [hcut] at h
    cases h
  | ok tokens =>
    rw [hcut] at h
    obtain ⟨token, hmem, hreads⟩ := List.any_eq_true.mp h
    obtain ⟨hkind, hvalue⟩ := (Bool.and_eq_true _ _).mp hreads
    exact ⟨_, tokens, token, hcut, hmem, hkind, eq_of_beq hvalue⟩

/-- Where a lexeme was found, a category of its kind takes it first. -/
theorem Lexeme.isFirst (h : Lexeme kind value) : ∃ c rest,
    builtin.IsFirst (value.toList ++ rest) c value.toList.length ∧ c.discarded = false ∧
      c.kind.same kind = true ∧ ∀ e ∈ rest, inAlphabet e = true := by
  obtain ⟨text, tokens, token, hcut, hmem, hkind, rfl⟩ := h
  obtain ⟨segments, hcuts, rfl⟩ := tokenize_ok_iff.mp hcut
  obtain ⟨segment, hkept, hsame, htext⟩ := mem_kept_of_token hmem
  obtain ⟨hsegment, hdiscarded⟩ := List.mem_filter.mp hkept
  obtain ⟨earlier, later, rfl⟩ := List.append_of_mem hsegment
  have hfirst := hcuts.isFirst
  rw [htext, List.append_nil] at hfirst
  refine ⟨segment.category, _, hfirst, Bool.not_eq_eq_eq_not.mp hdiscarded, ?_, fun e he => ?_⟩
  · rw [hsame]
    exact hkind
  · refine builtin_inAlphabet hcuts e ?_
    rw [List.map_append, List.flatten_append, List.map_cons, List.flatten_cons]
    exact List.mem_append_right _ (List.mem_append_right _ he)

/-- A lexeme starts with no blank. -/
theorem Lexeme.start (h : Lexeme kind value) :
    ∃ c rest, value.toList = c :: rest ∧ isBlank c = false := by
  obtain ⟨text, tokens, token, hcut, hmem, -, rfl⟩ := h
  obtain ⟨segments, hcuts, rfl⟩ := tokenize_ok_iff.mp hcut
  obtain ⟨segment, hkept, -, htext⟩ := mem_kept_of_token hmem
  rw [← htext]
  exact kept_start hcuts _ (List.mem_map_of_mem hkept)

/-- A word is cut off as a token of its kind. -/
def Segment.Shows (segment : Segment) (word : TokenKind × String) : Prop :=
  segment.category.kind.same word.1 = true ∧ String.ofList segment.text = word.2

/-- Lexemes with blanks between them are cut apart. -/
theorem cuts_lexemes {words : List (TokenKind × String)}
    (hwords : ∀ word ∈ words, Lexeme word.1 word.2)
    (hspaced : Spaced (words.map (·.2.toList)) text) :
    ∃ segments, builtin.Cuts text segments [] ∧
      List.Forall₂ Segment.Shows (kept segments) words := by
  induction words generalizing text with
  | nil =>
    rw [hspaced.eq_nil]
    exact ⟨[], .stop [], .nil⟩
  | cons word words ih =>
    obtain ⟨hword, hothers⟩ := List.forall_mem_cons.mp hwords
    cases hspaced with
    | @cons _ gap behind _ hblank hapart hbehind =>
      obtain ⟨segments, hcuts, hshown⟩ := ih hothers hbehind
      have hstart : ∀ w ∈ words.map (·.2.toList), ∃ c rest, w = c :: rest ∧ isBlank c = false := by
        intro w hw
        obtain ⟨other, hother, rfl⟩ := List.mem_map.mp hw
        exact (hothers other hother).start
      obtain ⟨all, hall, hkept⟩ := cuts_gap hcuts hblank (hbehind.takeWhile_isBlank hstart)
      obtain ⟨c, rest, hfirst, hdiscarded, hkind, hrest⟩ := hword.isFirst
      have hhere := isFirst_apart hfirst hdiscarded hrest (hbehind.isApart hblank hapart)
      refine ⟨_, .step hhere hall, ?_⟩
      rw [kept_cons hdiscarded, hkept]
      exact .cons ⟨hkind, String.ofList_toList⟩ hshown

/-- Lexemes with blanks between them are read as tokens of their kinds, in their order. -/
theorem tokenize_lexemes {words : List (TokenKind × String)} {lead : List Char}
    (hwords : ∀ word ∈ words, Lexeme word.1 word.2) (hlead : ∀ c ∈ lead, isBlank c = true)
    (hspaced : Spaced (words.map (·.2.toList)) text) :
    ∃ tokens, builtin.tokenize (lead ++ text) = .ok tokens ∧
      List.Forall₂ Token.Shows tokens words := by
  obtain ⟨segments, hcuts, hshown⟩ := cuts_lexemes hwords hspaced
  have hstart : ∀ w ∈ words.map (·.2.toList), ∃ c rest, w = c :: rest ∧ isBlank c = false := by
    intro w hw
    obtain ⟨word, hword, rfl⟩ := List.mem_map.mp hw
    exact (hwords word hword).start
  obtain ⟨all, hall, hkept⟩ := cuts_gap hcuts hlead (hspaced.takeWhile_isBlank hstart)
  refine ⟨tokensOf all, tokenize_ok_iff.mpr ⟨all, hall, rfl⟩, ?_⟩
  -- Kinds and texts of tokens are those of the pieces that are kept.
  have hread := tokensOf_map all
  rw [hkept] at hread
  have hpairs : List.Forall₂ (fun (read : TokenKind × String) word =>
      read.1.same word.1 = true ∧ read.2 = word.2)
      ((tokensOf all).map fun token => (token.kind, token.value)) words := by
    rw [hread]
    exact List.forall₂_map_left_iff.mpr hshown
  exact (List.forall₂_map_left_iff.mp hpairs).imp fun _ _ hshown => hshown

/-- A lexeme alone, with blanks around it, is one token. -/
theorem Lexeme.tokenize (h : Lexeme kind value) {lead gap : List Char}
    (hlead : ∀ c ∈ lead, isBlank c = true) (hgap : ∀ c ∈ gap, isBlank c = true) :
    ∃ token, builtin.tokenize (lead ++ (value.toList ++ gap)) = .ok [token] ∧
      token.is kind ∧ token.value = value := by
  have hspaced : Spaced [value.toList] (value.toList ++ (gap ++ [])) :=
    .cons hgap (fun hsome => absurd rfl hsome) .nil
  rw [List.append_nil] at hspaced
  have hwords : ∀ word ∈ [(kind, value)], Lexeme word.1 word.2 := by
    intro word hword
    rw [List.mem_singleton.mp hword]
    exact h
  obtain ⟨tokens, hcut, hread⟩ := tokenize_lexemes hwords hlead hspaced
  cases hread with
  | cons hword hnone =>
    cases hnone
    exact ⟨_, hcut, hword⟩

/-- What is passed over in a text is blank. -/
theorem isBlank_of_passed {segments passed : List Segment} {left : List Char}
    (h : builtin.Cuts text segments left) (hsub : passed ⊆ segments)
    (hpassed : ∀ segment ∈ passed, segment.category.discarded = true) :
    ∀ c ∈ (passed.map (·.text)).flatten, isBlank c = true := by
  intro c hc
  obtain ⟨piece, hpiece, hmem⟩ := List.mem_flatten.mp hc
  obtain ⟨segment, hsegment, rfl⟩ := List.mem_map.mp hpiece
  obtain ⟨hcategory, hmatches⟩ := h.matches builtin_isAnchored segment (hsub hsegment)
  exact isBlank_of_taken hcategory (hpassed segment hsegment) hmatches c hmem

/-- A text of one token is that token with blanks around it. -/
theorem tokenize_singleton {token : Token} (h : builtin.tokenize text = .ok [token]) :
    ∃ lead gap, text = lead ++ (token.value.toList ++ gap) ∧ (∀ c ∈ lead, isBlank c = true) ∧
      ∀ c ∈ gap, isBlank c = true := by
  obtain ⟨segments, hcuts, htokens⟩ := tokenize_ok_iff.mp h
  have hvalues := tokensOf_values segments
  rw [← htokens] at hvalues
  obtain ⟨segment, hkept, htext⟩ := List.map_eq_singleton_iff.mp hvalues.symm
  obtain ⟨earlier, later, rfl, hearlier, -, hlater⟩ := List.filter_eq_cons_iff.mp hkept
  have hflatten := hcuts.flatten
  rw [List.append_nil, List.map_append, List.flatten_append, List.map_cons, List.flatten_cons,
    htext] at hflatten
  refine ⟨_, _, hflatten, ?_, ?_⟩
  · refine isBlank_of_passed hcuts (List.subset_append_left _ _) fun segment hsegment => ?_
    simpa using hearlier segment hsegment
  · refine isBlank_of_passed hcuts ?_ fun segment hsegment => ?_
    · exact fun x hx => List.mem_append_right _ (List.mem_cons_of_mem _ hx)
    · simpa using List.filter_eq_nil_iff.mp hlater segment hsegment

end Tokenizer

end ApiSyntax
