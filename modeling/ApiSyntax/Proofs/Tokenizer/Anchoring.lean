/-
  ApiSyntax/Proofs/Tokenizer/Anchoring.lean --- where the matches of a category start.

  A written pattern is put in a group behind a caret before it is compiled.  A text that is a
  pattern by itself keeps its meaning there, so what its category takes matches from the first
  character on; that is so with every engine that keeps what is promised of it.  A text that
  closes the group itself may be compiled all the same, and its category may take more than a
  match: what stands before it.
-/
import ApiSyntax.Proofs.Pattern.Grouped
import ApiSyntax.Proofs.Tokenizer.Partition

set_option autoImplicit false

namespace ApiSyntax

/-! ## The meaning of written patterns -/

namespace Pattern

/-- An anchored pattern matches where the pattern does and nothing stands before it. -/
theorem MatchesIn.behind_textStart {p : Pattern} {front u behind : List Char}
    (h : (Pattern.seq (.place .textStart) p).MatchesIn front u behind) :
    front = [] ∧ p.MatchesIn front u behind := by
  have hfront := h.front_eq_nil rfl
  subst hfront
  cases h with
  | seq first second =>
    cases first
    exact ⟨rfl, second⟩

/-- A text matches what the pattern that it writes matches. -/
def meaning : Engine.Meaning Pattern where
  Matches source front piece behind :=
    ∃ p, ofText source = .ok p ∧ p.MatchesIn front piece behind
  found hp h := by
    obtain ⟨front, piece, hsplit, hmatch⟩ := endsBehind_of_matchEnd h
    exact ⟨front, piece, hsplit, _, compile_eq_ok.mp hp, hmatch⟩
  group := by
    rintro source front piece behind ⟨p, hp⟩ ⟨q, hq, hmatch⟩
    cases (ofText_grouped (compile_eq_ok.mp hp)).symm.trans hq
    exact ⟨p, compile_eq_ok.mp hp, hmatch⟩
  caret := by
    rintro source front piece behind ⟨p, hp⟩ ⟨q, hq, hmatch⟩
    obtain rfl := ofText_anchored (compile_eq_ok.mp hp) hq
    obtain ⟨hfront, hinner⟩ := hmatch.behind_textStart
    exact ⟨hfront, p, ofText_grouped (compile_eq_ok.mp hp), hinner⟩

end Pattern

/-! ## Categories -/

namespace Category

open Pattern

section Engine

variable {P : Type} [Engine P] {kind : TokenKind} {source : String} {c : Category P}

theorem ofText_eq_ok : ofText kind source = .ok c ↔
    ∃ p : P, Engine.compile (anchoredText source) = .ok p ∧ c = ⟨kind, source, p, false⟩ := by
  unfold ofText
  cases (Engine.compile (anchoredText source) : Except String P) <;> simp [eq_comm]

theorem ofText_pattern (h : ofText kind source = .ok c) :
    Engine.compile (anchoredText source) = .ok c.pattern := by
  obtain ⟨p, hread, rfl⟩ := ofText_eq_ok.mp h
  exact hread

/-- A match of the text that is compiled for a pattern is one of the pattern, with nothing in
front. -/
theorem matches_of_anchoredText (M : Engine.Meaning P) {front piece behind : List Char}
    (hs : Engine.Accepts P source.toList)
    (h : M.Matches (anchoredText source) front piece behind) :
    front = [] ∧ M.Matches source.toList front piece behind := by
  obtain ⟨hfront, hgroup⟩ := M.caret hs h
  exact ⟨hfront, M.group hs hgroup⟩

/-- What a category takes ends with a match of the text that was compiled for it. -/
theorem ends_of_matchLength (M : Engine.Meaning P) (h : ofText kind source = .ok c)
    {text : List Char} {n : Nat} (hmatch : c.matchLength text = some n) :
    ∃ skipped u, text.take n = skipped ++ u ∧
      M.Matches (anchoredText source) skipped u (text.drop n) :=
  M.found (ofText_pattern h) (matchEnd_of_matchLength hmatch)

/-- With every engine, and for every written pattern that a category can be made of: what the
category takes ends with a match of the text that was compiled.  If the written pattern is one by
itself, each piece that the category takes from any text, whether it is kept or passed over, is a
match of the written pattern from the first character on. -/
theorem pieces_match [Engine.InBounds P] (M : Engine.Meaning P) (h : ofText kind source = .ok c) :
    (∀ text n, c.matchLength text = some n → ∃ skipped u, text.take n = skipped ++ u ∧
      M.Matches (anchoredText source) skipped u (text.drop n)) ∧
    (Engine.Accepts P source.toList →
      ∀ (t : Tokenizer P) (text left : List Char) (earlier later : List (Segment P))
        (segment : Segment P), t.cut text = (earlier ++ segment :: later, left) →
        segment.category = c ∨ segment.category = c.discard →
        M.Matches source.toList [] segment.text ((later.map (·.text)).flatten ++ left)) := by
  refine ⟨fun text n hmatch => ends_of_matchLength M h hmatch, fun hs => ?_⟩
  intro t text left earlier later segment hcut hcategory
  have hcuts : t.Cuts text (earlier ++ segment :: later) left := by
    have hmade := Tokenizer.cutN_cuts (t := t) text.length text
    rwa [show t.cutN text.length text = _ from hcut] at hmade
  obtain ⟨-, -, -, -, hmatch⟩ := hcuts.isFirst
  -- A category that is passed over takes what it takes when it is kept.
  have htaken : c.matchLength (segment.text ++ ((later.map (·.text)).flatten ++ left)) =
      some segment.text.length := by
    rcases hcategory with hsame | hdiscard
    · rwa [hsame] at hmatch
    · rwa [hdiscard] at hmatch
  obtain ⟨skipped, u, hsplit, hfound⟩ := ends_of_matchLength M h htaken
  rw [List.take_left] at hsplit
  rw [List.drop_left] at hfound
  obtain ⟨rfl, hpiece⟩ := matches_of_anchoredText M hs hfound
  rw [hsplit]
  exact hpiece

end Engine

/-- Names of at least two characters, and digits that stand apart. -/
def twoForms : Category :=
  ⟨.custom "Word", "[a-z]\\w+|\\b\\d+\\b",
    seq (place .textStart)
      (alt (seq (char (.ranges [('a', 'z')])) (plus (char .word) true))
        (seq (place .wordBoundary) (seq (plus (char .digit) true) (place .wordBoundary)))), false⟩

/-- The segments of a text that one category takes as a whole. -/
theorem cut_whole {c : Category} (text : List Char) (h : c.matchLength text = some text.length) :
    (⟨[c]⟩ : Tokenizer).cut text = ([⟨c, text⟩], []) := by
  have hcuts : (⟨[c]⟩ : Tokenizer).Cuts (text ++ []) [⟨c, text⟩] [] := by
    refine .step ⟨[], [], rfl, fun d hd => (List.not_mem_nil hd).elim, ?_⟩ (.stop [])
    rwa [List.append_nil]
  rw [List.append_nil] at hcuts
  exact Tokenizer.cutN_of_cuts hcuts (.inl rfl) (Nat.le_refl _)

theorem pieces_match_twoForms :
    ofText twoForms.kind twoForms.source = .ok twoForms ∧
    Engine.Accepts Pattern twoForms.source.toList ∧
    (⟨[twoForms]⟩ : Tokenizer).cut "ab12".toList = ([⟨twoForms, "ab12".toList⟩], []) ∧
    Pattern.meaning.Matches twoForms.source.toList [] "ab12".toList [] := by
  have hread : ofText twoForms.kind twoForms.source = .ok twoForms :=
    ofText_eq_ok.mpr ⟨_, compile_eq_ok.mpr (by decide +kernel), rfl⟩
  have halone : (Pattern.ofText twoForms.source.toList).toOption.isSome = true := by
    decide +kernel
  have hcut := cut_whole (c := twoForms) "ab12".toList (by decide +kernel)
  cases hp : Pattern.ofText twoForms.source.toList with
  | error fault =>
    rw [hp] at halone
    cases halone
  | ok p =>
    have haccepts : Engine.Accepts Pattern twoForms.source.toList := ⟨p, compile_eq_ok.mpr hp⟩
    have hpieces := (pieces_match Pattern.meaning hread).2 haccepts
    exact ⟨hread, haccepts, hcut, hpieces _ _ _ [] [] _ hcut (.inl rfl)⟩

/-- The text closes the group that it stands in, and opens another one. -/
def groupBreaker : Category :=
  ⟨.custom "X", "a)|(?:b",
    alt (seq (place .textStart) (char (.single 'a'))) (char (.single 'b')), false⟩

/-- A text that is no pattern by itself may be read in a group, and then its category skips over
characters: of the whole text that it takes only the last one is a match. -/
theorem pieces_skip :
    ofText groupBreaker.kind groupBreaker.source = .ok groupBreaker ∧
    Pattern.ofText groupBreaker.source.toList = .error .unopenedGroup ∧
    (⟨[groupBreaker]⟩ : Tokenizer).cut "xb".toList = ([⟨groupBreaker, "xb".toList⟩], []) ∧
    groupBreaker.pattern.MatchesIn ['x'] ['b'] [] ∧
    ¬ groupBreaker.pattern.MatchesIn [] "xb".toList [] := by
  refine ⟨ofText_eq_ok.mpr ⟨_, compile_eq_ok.mpr (by decide +kernel), rfl⟩, by decide +kernel,
    cut_whole _ (by decide +kernel), .right (.char (by decide)), fun h => ?_⟩
  -- Either alternative has one character.
  have hchar : ∀ {d : Char} {u : List Char}, (char (.single d)).Matches u → u.length = 1 := by
    intro d u hu
    cases hu
    rfl
  have hone : ∀ u, groupBreaker.pattern.Matches u → u.length = 1 := by
    intro u hu
    cases hu with
    | left hu =>
      cases hu with
      | seq first second =>
        cases first
        exact hchar second
    | right hu => exact hchar hu
  exact absurd (hone _ h.matches) (by decide)

end Category

end ApiSyntax
