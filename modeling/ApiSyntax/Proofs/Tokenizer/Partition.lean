/-
  ApiSyntax/Proofs/Tokenizer/Partition.lean --- a text is cut into pieces, and where each stands.

  `Cuts` says which cuts of a text follow the order of the categories, with no bound on
  their number; `cut` makes the one that stops where no category has a match.  A position
  that moved over a text is a count of that text, so the position of every token is read
  off the text in front of it.

  Nothing is asked of the engine but that its matches are inside the text.  With the patterns
  of `Pattern` a piece is moreover a match of its category, if that is anchored.
-/
import ApiSyntax.Proofs.Pattern.Extent
import ApiSyntax.Tokenizer.Builtin
import Mathlib.Data.List.Basic

set_option autoImplicit false

namespace ApiSyntax

/-! ## Positions -/

namespace Span

/-- The position behind a text: its newlines, its characters behind the last of them, and all
its characters. -/
def past (text : List Char) : Span :=
  ⟨text.count '\n', (text.reverse.takeWhile (· ≠ '\n')).length, text.length⟩

theorem past_concat (text : List Char) (c : Char) : past (text ++ [c]) = (past text).step c := by
  by_cases hc : c = '\n' <;> simp [past, step, hc]

theorem past_append (front text : List Char) :
    past (front ++ text) = (past front).advance text := by
  induction text generalizing front with
  | nil => rw [List.append_nil, advance_nil]
  | cons c text ih =>
    rw [advance_cons, ← past_concat, ← ih, List.append_assoc, List.singleton_append]

theorem start_advance (text : List Char) : start.advance text = past text :=
  (past_append [] text).symm

end Span

/-! ## Categories -/

section Engine

variable {P : Type} [Engine P]

theorem Category.matchLength_pos {c : Category P} {text : List Char} {n : Nat}
    (h : c.matchLength text = some n) : 0 < n :=
  of_decide_eq_true (Option.filter_eq_some_iff.mp h).2

theorem Category.matchEnd_of_matchLength {c : Category P} {text : List Char} {n : Nat}
    (h : c.matchLength text = some n) : Engine.matchEnd c.pattern text = some n :=
  (Option.filter_eq_some_iff.mp h).1

theorem Category.matchLength_le [Engine.InBounds P] {c : Category P} {text : List Char} {n : Nat}
    (h : c.matchLength text = some n) : n ≤ text.length :=
  Engine.InBounds.matchEnd_le (Category.matchEnd_of_matchLength h)

end Engine

/-- With the patterns of `Pattern` their own matches are found. -/
theorem Category.matchLength_eq (c : Category) (text : List Char) :
    c.matchLength text = (c.pattern.matchEnd text).filter (0 < ·) := rfl

/-- The token of a segment with the text `front` before it; a segment that is passed over has
none. -/
def Segment.token? {P : Type} (segment : Segment P) (front : List Char) : Option Token :=
  if segment.category.discarded then none
  else some ⟨segment.category.kind, String.ofList segment.text, Span.past front⟩

namespace Tokenizer

variable {P : Type} {t : Tokenizer P} {text left : List Char} {segments : List (Segment P)}
  {c : Category P} {n : Nat}

section Cuts

variable [Engine P]

/-- The category is the first one with a match at the front of the text, of length `n`. -/
def IsFirst (t : Tokenizer P) (text : List Char) (c : Category P) (n : Nat) : Prop :=
  ∃ earlier later, t.categories = earlier ++ c :: later ∧
    (∀ d ∈ earlier, d.matchLength text = none) ∧ c.matchLength text = some n

theorem first?_eq_some_iff : t.first? text = some (c, n) ↔ t.IsFirst text c n := by
  rw [first?, List.findSome?_eq_some_iff]
  constructor
  · rintro ⟨earlier, d, later, hsplit, htaken, hearlier⟩
    obtain ⟨m, hmatch, heq⟩ := Option.map_eq_some_iff.mp htaken
    cases heq
    exact ⟨earlier, later, hsplit, fun d hd => Option.map_eq_none_iff.mp (hearlier d hd), hmatch⟩
  · rintro ⟨earlier, later, hsplit, hearlier, hmatch⟩
    exact ⟨earlier, c, later, hsplit, by rw [hmatch]; rfl,
      fun d hd => Option.map_eq_none_iff.mpr (hearlier d hd)⟩

theorem first?_eq_none_iff :
    t.first? text = none ↔ ∀ c ∈ t.categories, c.matchLength text = none := by
  simp [first?]

/-! ## Cuts -/

/-- The segments are cut off the text one behind the other, each by the first category with a
match that is not empty, and `left` stands behind them. -/
inductive Cuts (t : Tokenizer P) : List Char → List (Segment P) → List Char → Prop
  | stop (text : List Char) : Cuts t text [] text
  | step {c : Category P} {piece rest left : List Char} {segments : List (Segment P)}
      (first : t.IsFirst (piece ++ rest) c piece.length) (others : Cuts t rest segments left) :
      Cuts t (piece ++ rest) (⟨c, piece⟩ :: segments) left

theorem Cuts.flatten (h : t.Cuts text segments left) :
    text = (segments.map (·.text)).flatten ++ left := by
  induction h with
  | stop text => rfl
  | step first others ih => rw [List.map_cons, List.flatten_cons, List.append_assoc, ← ih]

theorem Cuts.ne_nil (h : t.Cuts text segments left) : ∀ segment ∈ segments, segment.text ≠ [] := by
  induction h with
  | stop text => exact fun segment hmem => (List.not_mem_nil hmem).elim
  | step first others ih =>
    obtain ⟨earlier, later, -, -, hmatch⟩ := first
    have hpos := Category.matchLength_pos hmatch
    exact List.forall_mem_cons.mpr ⟨List.length_pos_iff.mp hpos, ih⟩

/-- A piece is taken in front of those behind it. -/
theorem Cuts.isFirst {earlier later : List (Segment P)} {segment : Segment P}
    (h : t.Cuts text (earlier ++ segment :: later) left) :
    t.IsFirst (segment.text ++ ((later.map (·.text)).flatten ++ left)) segment.category
      segment.text.length := by
  induction earlier generalizing text with
  | nil =>
    cases h with
    | step first others => rwa [← others.flatten]
  | cons other earlier ih =>
    cases h with
    | step first others => exact ih others

/-- `Cuts.step` with the piece given by its length. -/
theorem Cuts.cons [Engine.InBounds P] (first : t.IsFirst text c n)
    (others : t.Cuts (text.drop n) segments left) :
    t.Cuts text (⟨c, text.take n⟩ :: segments) left := by
  have hlength : (text.take n).length = n := by
    obtain ⟨earlier, later, -, -, hmatch⟩ := first
    rw [List.length_take, Nat.min_eq_left (Category.matchLength_le hmatch)]
  have hpiece : t.IsFirst (text.take n ++ text.drop n) c (text.take n).length := by
    rwa [List.take_append_drop, hlength]
  have hcut := Cuts.step hpiece others
  rwa [List.take_append_drop] at hcut

/-- Cutting follows the order of the categories. -/
theorem cutN_cuts [Engine.InBounds P] (fuel : Nat) (text : List Char) :
    t.Cuts text (t.cutN fuel text).1 (t.cutN fuel text).2 := by
  induction fuel generalizing text with
  | zero => exact .stop text
  | succ fuel ih =>
    rw [cutN]
    split
    · next hempty =>
      rw [List.isEmpty_iff.mp hempty]
      exact .stop []
    · split
      · next c n hfirst =>
        exact .cons (first?_eq_some_iff.mp hfirst) (ih (text.drop n))
      · exact .stop text

/-- The text is used up, or no category has a match at the front of it. -/
def IsStuck (t : Tokenizer P) (text : List Char) : Prop := text = [] ∨ t.first? text = none

theorem cutN_isStuck {fuel : Nat} (hfuel : text.length ≤ fuel) :
    t.IsStuck (t.cutN fuel text).2 := by
  induction fuel generalizing text with
  | zero => exact .inl (List.length_eq_zero_iff.mp (Nat.le_zero.mp hfuel))
  | succ fuel ih =>
    rw [cutN]
    split
    · exact .inl rfl
    · split
      · next c n hfirst =>
        obtain ⟨earlier, later, -, -, hmatch⟩ := first?_eq_some_iff.mp hfirst
        have hpos := Category.matchLength_pos hmatch
        refine ih ?_
        rw [List.length_drop]
        omega
      · next hnone => exact .inr hnone

/-- A cut that goes on as long as it can is the one that is made. -/
theorem cutN_of_cuts (h : t.Cuts text segments left) (hleft : t.IsStuck left) {fuel : Nat}
    (hfuel : text.length ≤ fuel) : t.cutN fuel text = (segments, left) := by
  induction h generalizing fuel with
  | stop text =>
    cases fuel with
    | zero => rfl
    | succ fuel =>
      rcases hleft with rfl | hnone
      · rfl
      · rw [cutN, hnone]
        split
        · next hempty => rw [List.isEmpty_iff.mp hempty]
        · rfl
  | @step c piece rest left segments first others ih =>
    have hpos : 0 < piece.length := by
      obtain ⟨earlier, later, -, -, hmatch⟩ := first
      exact Category.matchLength_pos hmatch
    rw [List.length_append] at hfuel
    obtain ⟨fuel, rfl⟩ : ∃ k, fuel = k + 1 := ⟨fuel - 1, by omega⟩
    have hempty : ¬ (piece ++ rest).isEmpty = true := by
      rw [List.isEmpty_iff]
      exact fun h => absurd (List.append_eq_nil_iff.mp h).1 (List.length_pos_iff.mp hpos)
    rw [cutN, if_neg hempty, first?_eq_some_iff.mpr first]
    dsimp only
    rw [List.drop_left, List.take_left, ih hleft (by omega)]

/-- Every text has a cut that goes on as long as it can. -/
theorem exists_cuts [Engine.InBounds P] (t : Tokenizer P) (text : List Char) :
    ∃ segments left, t.Cuts text segments left ∧ t.IsStuck left :=
  ⟨_, _, cutN_cuts text.length text, cutN_isStuck (Nat.le_refl _)⟩

end Cuts

/-! ## Tokens -/

/-- The text in front of segment number `i`. -/
def textBefore (segments : List (Segment P)) (i : Nat) : List Char :=
  ((segments.take i).map (·.text)).flatten

/-- The tokens of the segments of a text, each with the position of its first character. -/
def tokensOf (segments : List (Segment P)) : List Token :=
  segments.zipIdx.filterMap fun s => s.1.token? (textBefore segments s.2)

/-- The tokens of segments that stand behind the text `front`. -/
theorem tokensFrom_past (front : List Char) (segments : List (Segment P)) :
    tokensFrom (Span.past front) segments =
      segments.zipIdx.filterMap fun s => s.1.token? (front ++ textBefore segments s.2) := by
  induction segments generalizing front with
  | nil => rfl
  | cons segment rest ih =>
    have hlater : ∀ i, front ++ textBefore (segment :: rest) (i + 1) =
        (front ++ segment.text) ++ textBefore rest i := by
      intro i
      rw [textBefore, List.take_succ_cons, List.map_cons, List.flatten_cons, ← List.append_assoc]
      rfl
    have hbehind : tokensFrom ((Span.past front).advance segment.text) rest =
        (rest.zipIdx 1).filterMap fun s =>
          s.1.token? (front ++ textBefore (segment :: rest) s.2) := by
      rw [← Span.past_append, ih, List.zipIdx_succ, List.filterMap_map]
      exact List.filterMap_congr fun s _ => by rw [Function.comp_apply, hlater]
    have hhere : front ++ textBefore (segment :: rest) 0 = front := List.append_nil front
    rw [tokensFrom, hbehind, List.zipIdx_cons, List.filterMap_cons, hhere, Segment.token?]
    cases segment.category.discarded <;> rfl

theorem tokensFrom_start (segments : List (Segment P)) :
    tokensFrom .start segments = tokensOf segments :=
  tokensFrom_past [] segments

/-- Tokens stand where their segments begin, so none stands behind a later one. -/
theorem tokensFrom_sorted (s : Span) (segments : List (Segment P)) :
    (∀ token ∈ tokensFrom s segments, s.offset ≤ token.span.offset) ∧
      (tokensFrom s segments).Pairwise fun x y => x.span.offset ≤ y.span.offset := by
  induction segments generalizing s with
  | nil => exact ⟨fun _ h => absurd h List.not_mem_nil, .nil⟩
  | cons segment rest ih =>
    obtain ⟨hbehind, hrest⟩ := ih (s.advance segment.text)
    have hle : ∀ token ∈ tokensFrom (s.advance segment.text) rest, s.offset ≤ token.span.offset := by
      intro token htoken
      refine Nat.le_trans ?_ (hbehind token htoken)
      rw [Span.advance_offset]
      exact Nat.le_add_right _ _
    rw [tokensFrom]
    split
    · exact ⟨hle, hrest⟩
    · exact ⟨List.forall_mem_cons.mpr ⟨Nat.le_refl _, hle⟩, List.pairwise_cons.mpr ⟨hle, hrest⟩⟩

/-- The segments that become tokens. -/
def kept (segments : List (Segment P)) : List (Segment P) :=
  segments.filter fun segment => !segment.category.discarded

theorem kept_discarded {segment : Segment P} (h : segment.category.discarded = true) :
    kept (segment :: segments) = kept segments :=
  List.filter_cons_of_neg (by rw [h]; exact Bool.false_ne_true)

theorem kept_cons {segment : Segment P} (h : segment.category.discarded = false) :
    kept (segment :: segments) = segment :: kept segments :=
  List.filter_cons_of_pos (by rw [h]; rfl)

/-- Apart from the positions, the tokens are the pieces that are kept. -/
theorem tokensOf_map (segments : List (Segment P)) :
    (tokensOf segments).map (fun token => (token.kind, token.value)) =
      (kept segments).map fun segment =>
        (segment.category.kind, String.ofList segment.text) := by
  rw [← tokensFrom_start]
  generalize Span.start = s
  induction segments generalizing s with
  | nil => rfl
  | cons segment rest ih =>
    rw [tokensFrom]
    cases hdiscarded : segment.category.discarded with
    | true => simp [kept_discarded hdiscarded, ih]
    | false => simp [kept_cons hdiscarded, ih]

theorem tokensOf_values (segments : List (Segment P)) :
    (tokensOf segments).map (·.value.toList) = (kept segments).map (·.text) := by
  have hmap := congrArg (List.map fun read : TokenKind × String => read.2.toList)
    (tokensOf_map segments)
  simpa only [List.map_map, Function.comp_def, String.toList_ofList] using hmap

/-- A token is one of the pieces that are kept. -/
theorem mem_kept_of_token {token : Token} (h : token ∈ tokensOf segments) :
    ∃ segment ∈ kept segments, segment.category.kind = token.kind ∧
      segment.text = token.value.toList := by
  have hread := List.mem_map_of_mem (f := fun token => (token.kind, token.value)) h
  rw [tokensOf_map] at hread
  obtain ⟨segment, hsegment, heq⟩ := List.mem_map.mp hread
  obtain ⟨hkind, hvalue⟩ := Prod.mk.inj heq
  exact ⟨segment, hsegment, hkind, by rw [← hvalue, String.toList_ofList]⟩

theorem mem_tokensOf {token : Token} (h : token ∈ tokensOf segments) :
    ∃ segment ∈ segments, segment.category.kind = token.kind ∧
      segment.text = token.value.toList := by
  obtain ⟨segment, hkept, hsame⟩ := mem_kept_of_token h
  exact ⟨segment, (List.mem_filter.mp hkept).1, hsame⟩

/-! ## The partition -/

section Partition

variable [Engine P]

/-- What is made of a cut that goes on as long as it can. -/
theorem tokenizeWithEnd_of_cuts (h : t.Cuts text segments left) (hleft : t.IsStuck left) :
    t.tokenizeWithEnd text =
      if left.isEmpty then .ok (tokensOf segments, Span.past (segments.map (·.text)).flatten)
      else .error ((Diagnostic.of (.lexicalError (String.ofList (fragment left)))).placed
        (Span.past (segments.map (·.text)).flatten)) := by
  have hcut : t.cut text = (segments, left) := cutN_of_cuts h hleft (Nat.le_refl _)
  rw [tokenizeWithEnd, hcut]
  dsimp only
  rw [endOf_eq_advance, Span.start_advance, tokensFrom_start]

theorem tokenize_of_cuts (h : t.Cuts text segments left) (hleft : t.IsStuck left) :
    t.tokenize text =
      if left.isEmpty then .ok (tokensOf segments)
      else .error ((Diagnostic.of (.lexicalError (String.ofList (fragment left)))).placed
        (Span.past (segments.map (·.text)).flatten)) := by
  rw [tokenize, tokenizeWithEnd_of_cuts h hleft]
  split <;> rfl

/-- A text has tokens when it is cut to its end, and these are the tokens of its pieces. -/
theorem tokenize_ok_iff [Engine.InBounds P] {tokens : List Token} :
    t.tokenize text = .ok tokens ↔
      ∃ segments, t.Cuts text segments [] ∧ tokens = tokensOf segments := by
  constructor
  · intro hok
    obtain ⟨segments, left, hcuts, hstuck⟩ := t.exists_cuts text
    rw [tokenize_of_cuts hcuts hstuck] at hok
    split at hok
    · next hnil =>
      rw [List.isEmpty_iff.mp hnil] at hcuts
      cases hok
      exact ⟨segments, hcuts, rfl⟩
    · cases hok
  · rintro ⟨segments, hcuts, rfl⟩
    exact tokenize_of_cuts hcuts (.inl rfl)

/-- A text is cut to its end, or up to the first place where no category has a match.  The
pieces are those of the first categories with a match, one behind the other; the tokens are
those of the pieces that are not passed over. -/
theorem tokenizeWithEnd_partition [Engine.InBounds P] (t : Tokenizer P) (text : List Char) :
    ∃ segments left, t.Cuts text segments left ∧
      text = (segments.map (·.text)).flatten ++ left ∧
      (∀ segment ∈ segments, segment.text ≠ []) ∧
      (left = [] ∧ t.tokenizeWithEnd text = .ok (tokensOf segments, Span.past text) ∨
        left ≠ [] ∧ (∀ c ∈ t.categories, c.matchLength left = none) ∧
          t.tokenizeWithEnd text =
            .error ((Diagnostic.of (.lexicalError (String.ofList (fragment left)))).placed
              (Span.past (segments.map (·.text)).flatten))) := by
  obtain ⟨segments, left, hcuts, hstuck⟩ := t.exists_cuts text
  have hmade := tokenizeWithEnd_of_cuts hcuts hstuck
  have hflatten := hcuts.flatten
  refine ⟨segments, left, hcuts, hflatten, hcuts.ne_nil, ?_⟩
  by_cases hnil : left = []
  · rw [hnil, List.append_nil] at hflatten
    rw [hnil, ← hflatten] at hmade
    exact .inl ⟨hnil, hmade⟩
  · rw [if_neg fun h => hnil (List.isEmpty_iff.mp h)] at hmade
    exact .inr ⟨hnil, first?_eq_none_iff.mp (hstuck.resolve_left hnil), hmade⟩

/-- A text of two lines, cut by the tokenizer of the language. -/
theorem tokenizeWithEnd_partition_twoLines : ∃ segments,
    builtin.Cuts "ab\n 12".toList segments [] ∧
      "ab\n 12".toList = (segments.map (·.text)).flatten ∧
      builtin.tokenizeWithEnd "ab\n 12".toList = .ok (tokensOf segments, ⟨1, 3, 6⟩) := by
  obtain ⟨segments, left, hcuts, hflatten, -, ⟨rfl, hread⟩ | ⟨-, -, hread⟩⟩ :=
    tokenizeWithEnd_partition builtin "ab\n 12".toList
  · rw [List.append_nil] at hflatten
    exact ⟨segments, hcuts, hflatten, hread⟩
  · have hmade : (builtin.tokenizeWithEnd "ab\n 12".toList).toOption.isSome = true := by
      decide +kernel
    rw [hread] at hmade
    cases hmade

end Partition

/-! ## Anchored patterns -/

section Anchored

variable {t : Tokenizer} {c : Category} {segments : List Segment}

/-- A piece belongs to the pattern of the category that took it. -/
theorem IsFirst.matches {piece rest : List Char} (h : t.IsFirst (piece ++ rest) c piece.length)
    (hanchored : ∀ c ∈ t.categories, c.pattern.isAnchored = true) :
    c ∈ t.categories ∧ c.pattern.Matches piece := by
  obtain ⟨earlier, later, hsplit, -, hmatch⟩ := h
  have hmem : c ∈ t.categories := by
    rw [hsplit]
    exact List.mem_append_right _ List.mem_cons_self
  have hpiece := Pattern.matches_of_matchEnd (hanchored c hmem)
    (Option.filter_eq_some_iff.mp hmatch).1
  rw [List.take_left] at hpiece
  exact ⟨hmem, hpiece⟩

theorem Cuts.matches (h : t.Cuts text segments left)
    (hanchored : ∀ c ∈ t.categories, c.pattern.isAnchored = true) :
    ∀ segment ∈ segments,
      segment.category ∈ t.categories ∧ segment.category.pattern.Matches segment.text := by
  induction h with
  | stop text => exact fun segment hmem => (List.not_mem_nil hmem).elim
  | step first others ih => exact List.forall_mem_cons.mpr ⟨first.matches hanchored, ih⟩

end Anchored

end Tokenizer

end ApiSyntax
