/-
  ApiSyntax/Proofs/Tokenizer/LongestMatch.lean --- the first match is the longest one.

  The categories of the language are tried in their order, and the first one with a match
  takes the piece.  A category that stands before it has no match at all, since what
  matches is found.  One that stands behind it starts with the same character in four cases
  only (`rivals`), and in each of these the first one reaches as far: a point stops the
  digits of an integer, a word ends where a reserved word is taken, and the last two are
  single signs.  So a word is a reserved word whenever it reads as one.
-/
import ApiSyntax.Proofs.Pattern.Finding
import ApiSyntax.Proofs.Tokenizer.Additions
import ApiSyntax.Proofs.Tokenizer.Respacing
import Mathlib.Data.List.Nodup

set_option autoImplicit false

namespace ApiSyntax

namespace Pattern

/-! ## How a match starts -/

/-- The pattern may match nothing at all. -/
def nullable : Pattern → Bool
  | empty => true
  | char _ => false
  | place _ => true
  | seq a b => a.nullable && b.nullable
  | alt a b => a.nullable || b.nullable
  | plus p _ => p.nullable
  | again _ _ => true
  | times n p => n == 0 || p.nullable
  | upTo _ _ _ => true

/-- The sets that the first character of a match is taken from. -/
def firsts : Pattern → List CharSet
  | empty => []
  | char set => [set]
  | place _ => []
  | seq a b => if a.nullable then a.firsts ++ b.firsts else a.firsts
  | alt a b => a.firsts ++ b.firsts
  | plus p _ => p.firsts
  | again p _ => p.firsts
  | times _ p => p.firsts
  | upTo _ p _ => p.firsts

/-- The text is empty, if a match may be, or starts as a match does. -/
def Begins (p : Pattern) : List Char → Prop
  | [] => p.nullable = true
  | c :: _ => ∃ s ∈ p.firsts, s.has c = true

variable {p a b : Pattern} {u v : List Char}

theorem Begins.mono (h : a.Begins u) (hnullable : a.nullable = true → p.nullable = true)
    (hfirsts : a.firsts ⊆ p.firsts) : p.Begins u := by
  cases u with
  | nil => exact hnullable h
  | cons c u =>
    obtain ⟨s, hs, hc⟩ := h
    exact ⟨s, hfirsts hs, hc⟩

theorem Begins.append (ha : a.Begins u) (hb : b.Begins v)
    (hnullable : a.nullable = true → b.nullable = true → p.nullable = true)
    (hleft : a.firsts ⊆ p.firsts) (hright : a.nullable = true → b.firsts ⊆ p.firsts) :
    p.Begins (u ++ v) := by
  cases u with
  | nil => exact hb.mono (hnullable ha) (hright ha)
  | cons c u =>
    obtain ⟨s, hs, hc⟩ := ha
    exact ⟨s, hleft hs, hc⟩

theorem Matches.begins (h : p.Matches u) : p.Begins u := by
  induction h with
  | char hc => exact ⟨_, List.mem_singleton_self _, hc⟩
  | @seq a b u v _ _ first second =>
    refine first.append second (fun ha hb => ?_) ?_ fun ha => ?_
    · rw [nullable, ha, hb]
      rfl
    · rw [firsts]
      split
      · exact List.subset_append_left _ _
      · exact List.Subset.refl _
    · rw [firsts, if_pos ha]
      exact List.subset_append_right _ _
  | left _ ih =>
    exact ih.mono (fun ha => (Bool.or_eq_true _ _).mpr (.inl ha)) (List.subset_append_left _ _)
  | right _ ih =>
    exact ih.mono (fun hb => (Bool.or_eq_true _ _).mpr (.inr hb)) (List.subset_append_right _ _)
  | plus _ _ first others =>
    exact first.append others (fun hp _ => hp) (List.Subset.refl _) fun _ => List.Subset.refl _
  | again _ _ first others =>
    exact first.append others (fun _ _ => rfl) (List.Subset.refl _) fun _ => List.Subset.refl _
  | times _ _ first others =>
    exact first.append others (fun hp _ => (Bool.or_eq_true _ _).mpr (.inr hp))
      (List.Subset.refl _) fun _ => List.Subset.refl _
  | upTo _ _ first others =>
    exact first.append others (fun _ _ => rfl) (List.Subset.refl _) fun _ => List.Subset.refl _
  | _ => rfl

end Pattern

open Pattern

/-- Both sets are given by ranges, and no range of the one meets a range of the other. -/
def CharSet.apart : CharSet → CharSet → Bool
  | ranges a, ranges b => a.all fun p => b.all fun q => p.2 < q.1 || q.2 < p.1
  | _, _ => false

/-- Sets that are apart share no character. -/
theorem CharSet.not_has_of_apart {s t : CharSet} {c : Char} (h : s.apart t = true)
    (hs : s.has c = true) : ¬ t.has c = true := by
  intro ht
  cases s with
  | ranges a =>
    cases t with
    | ranges b =>
      obtain ⟨p, hp, hpc⟩ := List.any_eq_true.mp hs
      obtain ⟨q, hq, hqc⟩ := List.any_eq_true.mp ht
      have hapart := List.all_eq_true.mp (List.all_eq_true.mp h p hp) q hq
      rw [Bool.and_eq_true, decide_eq_true_eq, decide_eq_true_eq] at hpc hqc
      rw [Bool.or_eq_true, decide_eq_true_eq, decide_eq_true_eq] at hapart
      have hlow : p.1.toNat ≤ c.toNat ∧ q.1.toNat ≤ c.toNat := ⟨hpc.1, hqc.1⟩
      have hhigh : c.toNat ≤ p.2.toNat ∧ c.toNat ≤ q.2.toNat := ⟨hpc.2, hqc.2⟩
      have hends : p.2.toNat < q.1.toNat ∨ q.2.toNat < p.1.toNat := hapart
      omega
    | _ => cases h
  | _ => cases h

/-- No match of the one category starts with a character that a match of the other starts with. -/
def Category.apart (d c : Category) : Bool :=
  d.pattern.firsts.all fun s => c.pattern.firsts.all fun t => s.apart t

theorem Category.not_matches_of_apart {d c : Category} {e : Char} {u v : List Char}
    (h : d.apart c = true) (hd : d.pattern.Matches (e :: v)) : ¬ c.pattern.Matches (e :: u) := by
  intro hc
  obtain ⟨s, hs, hse⟩ := hd.begins
  obtain ⟨t, ht, hte⟩ := hc.begins
  have hapart := List.all_eq_true.mp (List.all_eq_true.mp h s hs) t ht
  exact CharSet.not_has_of_apart hapart hse hte

/-- A category that takes nothing from a text matches no front of it. -/
theorem Category.not_matchesIn {c : Category} {u behind : List Char}
    (hanchored : c.pattern.isAnchored = true) (hsome : c.pattern.nullable = false)
    (h : c.matchLength (u ++ behind) = none) : ¬ c.pattern.MatchesIn [] u behind := by
  refine not_matchesIn_of_matchEnd ?_
  by_contra hfound
  obtain ⟨n, hn⟩ := Option.ne_none_iff_exists'.mp hfound
  rw [matchLength_eq, hn, Option.filter_some] at h
  split at h
  · cases h
  · next hzero =>
    obtain rfl : n = 0 := by simpa using hzero
    have hnullable : c.pattern.nullable = true := (matches_of_matchEnd hanchored hn).begins
    rw [hsome] at hnullable
    cases hnullable

namespace Tokenizer

/-! ## Categories that start alike -/

/-- The categories of which two start with one character, the first one before the second. -/
def rivals : List (Category × Category) :=
  [(category .real "[0-9]+\\.[0-9]+" (inOrder [digits, char (.single '.'), digits]),
      category .integer "[0-9]+" digits),
    (reserved, names),
    (fixed .shelf "\\.\\.\\." "...", fixed .dot "\\." "."),
    (category .operator "[+\\-*/%<>!&|^~?][+\\-*/%<>!&|^~?=]*|==+" operatorRun,
      fixed .assign "=" "=")]

/-- The patterns are those of two rivals. -/
def Rivals (d c : Category) : Prop :=
  ∃ pair ∈ rivals, d.pattern = pair.1.pattern ∧ c.pattern = pair.2.pattern

instance (d c : Category) : Decidable (Rivals d c) :=
  inferInstanceAs (Decidable (∃ pair ∈ rivals, _))

/-- Categories that are kept start apart from those behind them, unless they are rivals. -/
theorem rivals_lookup : builtinCategories.Pairwise fun d c =>
    d.discarded = true ∨ d.apart c = true ∨ Rivals d c := by
  decide +kernel

theorem builtin_nullable : ∀ c ∈ builtin.categories, c.pattern.nullable = false := by
  decide

variable {c d : Category} {earlier later : List Category} {u v w rest behind : List Char}
  {e : Char}

theorem reserved_mem : reserved ∈ builtin.categories := by
  obtain ⟨front, back, horder, -⟩ := builtin_order
  simp [horder]

theorem names_mem : names ∈ builtin.categories := by
  obtain ⟨front, back, horder, -⟩ := builtin_order
  simp [horder]

/-- Categories that are kept start with solid characters, the others do not. -/
theorem isSolid_start (hc : c ∈ builtin.categories) (h : c.pattern.Matches (e :: u)) :
    isSolid e = !c.discarded := by
  cases hdiscarded : c.discarded with
  | true =>
    have hblank := isBlank_of_taken hc hdiscarded h e List.mem_cons_self
    by_contra hsolid
    rw [not_isBlank_of_isSolid (by simpa using hsolid)] at hblank
    cases hblank
  | false => exact isSolid_of_taken hc hdiscarded h e List.mem_cons_self

/-- Categories that match texts with the same first character are rivals. -/
theorem rivals_of_matches (hsplit : builtin.categories = earlier ++ d :: later) (hc : c ∈ later)
    (hdmatch : d.pattern.Matches (e :: v)) (hcmatch : c.pattern.Matches (e :: u)) :
    Rivals d c := by
  have hdmem : d ∈ builtin.categories := by simp [hsplit]
  have hcmem : c ∈ builtin.categories := by simp [hsplit, hc]
  have hlater : ∀ {R : Category → Category → Prop}, builtinCategories.Pairwise R → R d c := by
    intro R hpairs
    rw [show builtinCategories = earlier ++ d :: later from hsplit] at hpairs
    exact (List.pairwise_cons.mp (List.pairwise_append.mp hpairs).2.1).1 c hc
  have hdkept := isSolid_start hdmem hdmatch
  have hckept := isSolid_start hcmem hcmatch
  cases hsolid : isSolid e with
  | true =>
    rcases hlater rivals_lookup with hdiscarded | hapart | hrivals
    · rw [hsolid, hdiscarded] at hdkept
      cases hdkept
    · exact absurd hcmatch (Category.not_matches_of_apart hapart hdmatch)
    · exact hrivals
  | false =>
    -- Only blanks start with a blank, and no category stands behind itself.
    rw [hsolid, Bool.false_eq, Bool.not_eq_false'] at hdkept hckept
    have hsame : d = c :=
      (builtin_discarded hdmem hdkept).trans (builtin_discarded hcmem hckept).symm
    exact absurd (congrArg (·.kind.name) hsame) (hlater distinct_builtin)

/-! ## How far rivals reach -/

/-- A category of one text matches that text only. -/
theorem length_of_fixed {kind : TokenKind} {source text : String}
    (h : (fixed kind source text).pattern.Matches u) : u.length = text.toList.length := by
  rw [matches_literal (matches_of_category h)]

/-- Where a reserved word is taken no word character follows. -/
theorem reserved_behind (h : reserved.pattern.MatchesIn [] v behind) :
    isWordAt behind.head? = false := by
  have hends : ∀ word ∈ keywords, isWordAt word.toList.getLast? = true := by
    decide
  cases h with
  | seq first second =>
    cases first
    cases second with
    | seq words boundary =>
      obtain ⟨p, hp, hword⟩ := matches_firstOf (by decide) words.matches
      obtain ⟨word, hmem, rfl⟩ := List.mem_map.mp hp
      cases boundary with
      | place hholds =>
        rw [matches_literal hword] at hholds
        simpa [Place.holds, hends word hmem] using hholds

/-- What an identifier is made of are word characters. -/
theorem isWordChar_of_name (h : names.pattern.Matches u) : ∀ e ∈ u, isWordChar e = true := by
  have hstart : ∀ e, lowerStart.has e = true → nameSet.has e = true := by
    have hranges : ([('a', 'z'), ('_', '_')] : List (Char × Char)) ⊆
        [('A', 'Z'), ('a', 'z'), ('0', '9'), ('_', '_')] := by decide
    intro e he
    obtain ⟨r, hr, hin⟩ := List.any_eq_true.mp he
    exact List.any_eq_true.mpr ⟨r, hranges hr, hin⟩
  intro e he
  obtain ⟨s, hs, hhas⟩ := h.mem_sets e he
  rw [isWordChar_of_isSolid (isSolid_of_taken names_mem rfl h e he)]
  rcases List.mem_pair.mp (show s ∈ [lowerStart, nameSet] from hs) with rfl | rfl
  · exact hstart e hhas
  · exact hhas

/-- A text that starts with a piece and has a longer front. -/
theorem exists_longer (h : v ++ rest = u ++ w) (hlonger : v.length < u.length) :
    ∃ e x, u = v ++ e :: x ∧ rest = e :: (x ++ w) := by
  rcases List.append_eq_append_iff.mp h with ⟨x, rfl, rfl⟩ | ⟨x, rfl, -⟩
  · cases x with
    | nil => simp at hlonger
    | cons e x => exact ⟨e, x, rfl, rfl⟩
  · rw [List.length_append] at hlonger
    omega

/-- Of two rivals the second one does not go on where the first one ends. -/
theorem Rivals.not_longer (h : Rivals d c) (hsome : v ≠ [])
    (hpiece : d.pattern.MatchesIn [] v (e :: rest)) : ¬ c.pattern.Matches (v ++ e :: u) := by
  obtain ⟨pair, hpair, hd, hc⟩ := h
  rw [hd] at hpiece
  rw [hc]
  intro hlonger
  have hpos := List.length_pos_iff.mpr hsome
  simp only [rivals, List.mem_cons, List.not_mem_nil, or_false] at hpair
  rcases hpair with rfl | rfl | rfl | rfl
  · obtain ⟨x, y, rfl, -⟩ := point_of_matches (matches_of_category hpiece.matches)
    have hpoint := (isDigits_of_matches (matches_of_category hlonger)).2 '.' (by simp)
    exact absurd hpoint (by decide)
  · have hword := isWordChar_of_name hlonger e (by simp)
    have hbehind : isWordChar e = false := reserved_behind hpiece
    rw [hbehind] at hword
    cases hword
  · have hlength := length_of_fixed hlonger
    rw [List.length_append, List.length_cons] at hlength
    have hone : ".".toList.length = 1 := rfl
    omega
  · have hlength := length_of_fixed hlonger
    rw [List.length_append, List.length_cons] at hlength
    have hone : "=".toList.length = 1 := rfl
    omega

/-! ## The first match -/

/-- No other category has a longer match at the front of the text than `n` characters, neither the
one that it takes nor any that its pattern has there. -/
def IsLongest (t : Tokenizer) (text : List Char) (c : Category) (n : Nat) : Prop :=
  ∀ d ∈ t.categories, d.kind.name ≠ c.kind.name →
    (∀ m, d.matchLength text = some m → m ≤ n) ∧
      ∀ u behind, text = u ++ behind → d.pattern.MatchesIn [] u behind → u.length ≤ n

/-- A match that a category takes is one that its pattern has. -/
theorem matchesIn_of_matchLength {text : List Char} {n : Nat} (hc : c ∈ builtin.categories)
    (h : c.matchLength text = some n) : c.pattern.MatchesIn [] (text.take n) (text.drop n) :=
  matchesIn_of_matchEnd (builtin_isAnchored c hc) (Option.filter_eq_some_iff.mp h).1

/-- Behind the first category with a match no other one reaches further. -/
theorem IsFirst.length_le (h : builtin.IsFirst (v ++ rest) d v.length)
    (hc : c ∈ builtin.categories) (hother : c.kind.name ≠ d.kind.name)
    (htext : v ++ rest = u ++ behind) (hmatch : c.pattern.MatchesIn [] u behind) :
    u.length ≤ v.length := by
  obtain ⟨earlier, later, hsplit, hearlier, htaken⟩ := h
  have hsome := List.length_pos_iff.mp (Category.matchLength_pos htaken)
  rw [hsplit] at hc
  rcases List.mem_append.mp hc with hc | hc
  · have hnone := hearlier c hc
    rw [htext] at hnone
    have hmem : c ∈ builtin.categories := by simp [hsplit, hc]
    exact absurd hmatch
      (Category.not_matchesIn (builtin_isAnchored c hmem) (builtin_nullable c hmem) hnone)
  rcases List.mem_cons.mp hc with rfl | hc
  · exact absurd rfl hother
  by_contra hlonger
  obtain ⟨e, x, rfl, rfl⟩ := exists_longer htext (Nat.lt_of_not_le hlonger)
  have hmem : d ∈ builtin.categories := by simp [hsplit]
  have hpiece := matchesIn_of_matchLength hmem htaken
  rw [List.take_left, List.drop_left] at hpiece
  obtain ⟨a, v, rfl⟩ := List.exists_cons_of_ne_nil hsome
  have hrivals := rivals_of_matches hsplit hc hpiece.matches hmatch.matches
  exact hrivals.not_longer hsome hpiece hmatch.matches

theorem IsFirst.isLongest (h : builtin.IsFirst (v ++ rest) d v.length) :
    builtin.IsLongest (v ++ rest) d v.length := by
  refine fun c hc hother => ⟨fun m hm => ?_, fun u behind => h.length_le hc hother⟩
  have hmatch := matchesIn_of_matchLength hc hm
  have hlength := h.length_le hc hother (List.take_append_drop m _).symm hmatch
  rwa [List.length_take, Nat.min_eq_left (Category.matchLength_le hm)] at hlength

/-! ## Reserved words -/

/-- A category of the language is known by its name. -/
theorem eq_of_name (hc : c ∈ builtin.categories) (hd : d ∈ builtin.categories)
    (hname : c.kind.name = d.kind.name) : c = d :=
  List.inj_on_of_nodup_map (List.pairwise_map.mpr distinct_builtin) hc hd hname

/-- A piece is taken as a reserved word if it reads as one. -/
theorem IsFirst.eq_reserved_iff (h : builtin.IsFirst (v ++ rest) d v.length)
    (hrest : ∀ e ∈ rest, inAlphabet e = true) :
    d = reserved ↔ ∃ word ∈ keywords, v = word.toList := by
  constructor
  · rintro rfl
    obtain ⟨earlier, later, -, -, htaken⟩ := h
    obtain ⟨word, hword, htake⟩ := reserved_taken htaken
    rw [List.take_left] at htake
    exact ⟨word, hword, htake⟩
  · rintro ⟨word, hword, rfl⟩
    obtain ⟨hmem, hpiece⟩ := h.matches builtin_isAnchored
    obtain ⟨earlier, later, hsplit, hearlier, htaken⟩ := h
    have hmatch := (matchesIn_of_matchLength reserved_mem (reserved_word word hword)).matches
    rw [List.take_length] at hmatch
    have hreserved := reserved_mem
    rw [hsplit] at hreserved
    rcases List.mem_append.mp hreserved with hreserved | hreserved
    · have hpassed := reserved_passed hsplit hreserved hearlier htaken hrest
      cases hpassed.symm.trans (reserved_word word hword)
    rcases List.mem_cons.mp hreserved with hreserved | hreserved
    · exact hreserved.symm
    · obtain ⟨e, x, hcons⟩ := List.exists_cons_of_length_pos (Category.matchLength_pos htaken)
      rw [hcons] at hpiece hmatch
      obtain ⟨pair, hpair, -, hsecond⟩ := rivals_of_matches hsplit hreserved hpiece hmatch
      have hnone : ∀ pair ∈ rivals, reserved.pattern ≠ pair.2.pattern := by
        decide
      exact absurd hsecond (hnone pair hpair)

variable {text : List Char} {tokens : List Token}

/-- A word is reserved where its text is that of a reserved word. -/
theorem isKeyword_iff (word : String) :
    isKeyword word = true ↔ ∃ other ∈ keywords, word.toList = other.toList := by
  simp [isKeyword, String.toList_inj]

/-- A token is a reserved word if it reads as one. -/
theorem Cuts.is_keyword {segments : List Segment} {token : Token}
    (h : builtin.Cuts text segments []) (htoken : token ∈ tokensOf segments) :
    token.is .keyword = isKeyword token.value := by
  obtain ⟨segment, hsegment, hkind, hvalue⟩ := mem_tokensOf htoken
  obtain ⟨earlier, later, rfl⟩ := List.append_of_mem hsegment
  have hfirst := h.isFirst
  rw [List.append_nil] at hfirst
  have hmem := (hfirst.matches builtin_isAnchored).1
  have hlegal := builtin_inAlphabet h
  rw [List.map_append, List.map_cons, List.flatten_append, List.flatten_cons] at hlegal
  have hrest : ∀ e ∈ (later.map (·.text)).flatten, inAlphabet e = true :=
    fun e he => hlegal e (List.mem_append_right _ (List.mem_append_right _ he))
  rw [Bool.eq_iff_iff]
  calc token.is .keyword = true
    _ ↔ segment.category.kind.name = reserved.kind.name := by
      rw [Token.is, TokenKind.same_iff, ← hkind]
      rfl
    _ ↔ segment.category = reserved :=
      ⟨eq_of_name hmem reserved_mem, fun hsame => by rw [hsame]⟩
    _ ↔ ∃ word ∈ keywords, segment.text = word.toList := hfirst.eq_reserved_iff hrest
    _ ↔ isKeyword token.value = true := by rw [isKeyword_iff, hvalue]

/-- Where the tokenizer of the language accepts a text, each piece of it is taken by the first
category with a match there, and no other category has a longer match at that place.  The tokens
that read as reserved words are the reserved words. -/
theorem builtin_tokenize_longest (h : builtin.tokenize text = .ok tokens) :
    ∃ segments, builtin.Cuts text segments [] ∧ tokens = tokensOf segments ∧
      (∀ earlier segment later, segments = earlier ++ segment :: later →
        ∃ rest, text = (earlier.map (·.text)).flatten ++ (segment.text ++ rest) ∧
          builtin.IsFirst (segment.text ++ rest) segment.category segment.text.length ∧
          builtin.IsLongest (segment.text ++ rest) segment.category segment.text.length) ∧
      ∀ token ∈ tokens, token.is .keyword = isKeyword token.value := by
  obtain ⟨segments, hcuts, rfl⟩ := tokenize_ok_iff.mp h
  refine ⟨segments, hcuts, rfl, ?_, fun token => hcuts.is_keyword⟩
  rintro earlier segment later rfl
  have hflatten := hcuts.flatten
  have hfirst := hcuts.isFirst
  rw [List.append_nil] at hflatten hfirst
  refine ⟨_, ?_, hfirst, hfirst.isLongest⟩
  rw [hflatten, List.map_append, List.map_cons, List.flatten_append, List.flatten_cons]

/-- A name that starts as a reserved word does, a reserved word, a real behind three dots, and the
single equals sign behind a double one. -/
theorem builtin_tokenize_longest_mixed : ∃ tokens,
    builtin.tokenize "types within 1...2.5==x=.y".toList = .ok tokens ∧
      tokens.map (fun token => (token.kind.name, token.value)) =
        [("Identifier", "types"), ("Keyword", "within"), ("Integer", "1"), ("Shelf", "..."),
          ("Real", "2.5"), ("Operator", "=="), ("Identifier", "x"), ("Assign", "="), ("Dot", "."),
          ("Identifier", "y")] ∧
      ∃ segments, builtin.Cuts "types within 1...2.5==x=.y".toList segments [] ∧
        tokens = tokensOf segments ∧
        (∀ earlier segment later, segments = earlier ++ segment :: later →
          ∃ rest, "types within 1...2.5==x=.y".toList =
              (earlier.map (·.text)).flatten ++ (segment.text ++ rest) ∧
            builtin.IsFirst (segment.text ++ rest) segment.category segment.text.length ∧
            builtin.IsLongest (segment.text ++ rest) segment.category segment.text.length) ∧
        ∀ token ∈ tokens, token.is .keyword = isKeyword token.value := by
  have hread : ((builtin.tokenize "types within 1...2.5==x=.y".toList).toOption.map fun tokens =>
      tokens.map fun token => (token.kind.name, token.value)) =
        some [("Identifier", "types"), ("Keyword", "within"), ("Integer", "1"), ("Shelf", "..."),
          ("Real", "2.5"), ("Operator", "=="), ("Identifier", "x"), ("Assign", "="), ("Dot", "."),
          ("Identifier", "y")] := by
    decide +kernel
  cases hcut : builtin.tokenize "types within 1...2.5==x=.y".toList with
  | error d =>
    rw [hcut] at hread
    cases hread
  | ok tokens =>
    rw [hcut] at hread
    exact ⟨tokens, rfl, Option.some.inj hread, builtin_tokenize_longest hcut⟩

end Tokenizer

end ApiSyntax
