/-
  ApiSyntax/Proofs/Grammar/QualifiedNames.lean --- which type names are told apart.

  A type name is kept with a flag that says whether it is qualified, and a qualified one in
  its flat form: the separators between its parts are two underscores.  So two names come
  to one node only if both are qualified and have one flat form.  Underscores at the end of
  a part or side by side within it can be taken for a separator; where there are none, the
  flat form is cut into the same parts again, and names are told apart.

  Main statement: `typeNames_agree_iff`.
-/
import ApiSyntax.Proofs.Grammar.TypeForms
import ApiSyntax.Proofs.Grammar.WellKinded
import ApiSyntax.Proofs.Tokenizer.Lexemes

set_option autoImplicit false

namespace ApiSyntax

open ApiSyntax.Arena ApiSyntax.Grammar ApiSyntax.Language

/-! ## The parts of a text -/

/-- The first part of several, with a character in front of it. -/
def consHead (c : Char) : List (List Char) → List (List Char)
  | [] => [[c]]
  | part :: parts => (c :: part) :: parts

/-- The parts of a text between those places, from the left, where the sign stands twice. -/
def splitDoubled (sign : Char) : List Char → List (List Char)
  | [] => [[]]
  | [c] => [[c]]
  | c :: d :: rest =>
      if c = sign ∧ d = sign then [] :: splitDoubled sign rest
      else consHead c (splitDoubled sign (d :: rest))

/-- The parts of a qualified name. -/
def nameParts (name : List Char) : List (List Char) := splitDoubled ':' name

/-- The parts of a text with the sign twice between each two of them. -/
def joinDoubled (sign : Char) (parts : List (List Char)) : List Char :=
  [sign, sign].intercalate parts

variable {sign c : Char} {text rest part : List Char} {parts : List (List Char)}

theorem splitDoubled_ne_nil : splitDoubled sign text ≠ [] := by
  fun_cases splitDoubled sign text with
  | case4 c d rest _ => cases splitDoubled sign (d :: rest) <;> exact List.cons_ne_nil _ _
  | _ => exact List.cons_ne_nil _ _

theorem nameParts_ne_nil {name : List Char} : nameParts name ≠ [] := splitDoubled_ne_nil

theorem splitDoubled_doubled :
    splitDoubled sign (sign :: sign :: rest) = [] :: splitDoubled sign rest := by
  rw [splitDoubled, if_pos ⟨rfl, rfl⟩]

theorem splitDoubled_cons (h : ∀ tail, c = sign → text = sign :: tail → False) :
    splitDoubled sign (c :: text) = consHead c (splitDoubled sign text) := by
  cases text with
  | nil => rfl
  | cons d rest => rw [splitDoubled, if_neg fun heq => h rest heq.1 (by rw [heq.2])]

theorem joinDoubled_cons (h : parts ≠ []) :
    joinDoubled sign (part :: parts) = part ++ sign :: sign :: joinDoubled sign parts := by
  cases parts with
  | nil => exact absurd rfl h
  | cons next parts =>
    rw [joinDoubled, List.intercalate_cons_cons, List.append_assoc]
    rfl

theorem joinDoubled_consHead (h : parts ≠ []) :
    joinDoubled sign (consHead c parts) = c :: joinDoubled sign parts := by
  cases parts with
  | nil => exact absurd rfl h
  | cons part parts =>
    by_cases hparts : parts = []
    · subst hparts
      rfl
    · rw [consHead, joinDoubled_cons hparts, joinDoubled_cons hparts, List.cons_append]

/-- Joined again, the parts are the text. -/
theorem joinDoubled_splitDoubled (sign : Char) (text : List Char) :
    joinDoubled sign (splitDoubled sign text) = text := by
  fun_induction splitDoubled sign text with
  | case1 => rfl
  | case2 c => rfl
  | case3 c d rest heq ih =>
    rw [joinDoubled_cons splitDoubled_ne_nil, ih, heq.1, heq.2, List.nil_append]
  | case4 c d rest _ ih => rw [joinDoubled_consHead splitDoubled_ne_nil, ih]

/-! ## Flat forms -/

/-- The flat form of a name joins its parts with underscores. -/
theorem flatten_eq_joinDoubled (name : List Char) :
    flatten name = joinDoubled '_' (nameParts name) := by
  unfold nameParts
  fun_induction flatten name with
  | case1 rest ih => rw [splitDoubled_doubled, joinDoubled_cons splitDoubled_ne_nil, ih, List.nil_append]
  | case2 c rest h ih => rw [splitDoubled_cons h, joinDoubled_consHead splitDoubled_ne_nil, ih]
  | case3 => rfl

theorem length_consHead (h : parts ≠ []) : (consHead c parts).length = parts.length := by
  cases parts with
  | nil => exact absurd rfl h
  | cons part parts => rfl

/-- A name is qualified when it has more than one part. -/
theorem isQualified_iff (name : List Char) :
    isQualified name = true ↔ 1 < (nameParts name).length := by
  unfold nameParts
  fun_induction isQualified name with
  | case1 rest =>
    have hpos : 0 < (splitDoubled ':' rest).length := List.length_pos_iff.mpr splitDoubled_ne_nil
    rw [splitDoubled_doubled, List.length_cons]
    exact ⟨fun _ => Nat.succ_lt_succ hpos, fun _ => rfl⟩
  | case2 c rest h ih => rw [splitDoubled_cons h, length_consHead splitDoubled_ne_nil, ih]
  | case3 => decide

/-! ## Parts that are found again -/

/-- The part does not end with the sign, nor does the sign stand in it twice side by side. -/
def IsTight (sign : Char) (part : List Char) : Prop :=
  ¬ [sign, sign] <:+: part ∧ part.getLast? ≠ some sign

instance (sign : Char) (part : List Char) : Decidable (IsTight sign part) :=
  inferInstanceAs (Decidable (_ ∧ _))

/-- A tight part stays tight without its first character, unless nothing is left. -/
theorem IsTight.tail (h : IsTight sign (c :: part)) (hpart : part ≠ []) : IsTight sign part := by
  refine ⟨fun hdoubled => h.1 (hdoubled.trans (List.suffix_cons c part).isInfix), ?_⟩
  rw [← List.getLast?_cons_of_ne_nil hpart]
  exact h.2

/-- In front of a separator a tight part is the first part. -/
theorem splitDoubled_append (h : IsTight sign part) :
    splitDoubled sign (part ++ sign :: sign :: rest) = part :: splitDoubled sign rest := by
  induction part with
  | nil => exact splitDoubled_doubled
  | cons c part ih =>
    have hnot : ∀ tail, c = sign → part ++ sign :: sign :: rest = sign :: tail → False := by
      rintro tail rfl htail
      cases part with
      | nil => exact h.2 rfl
      | cons d part =>
        rw [List.cons_append] at htail
        rw [(List.cons.inj htail).1] at h
        exact h.1 ⟨[], part, rfl⟩
    rw [List.cons_append, splitDoubled_cons hnot]
    by_cases hpart : part = []
    · subst hpart
      rw [List.nil_append, splitDoubled_doubled]
      rfl
    · rw [ih (h.tail hpart)]
      rfl

theorem splitDoubled_tight (h : IsTight sign part) : splitDoubled sign part = [part] := by
  induction part with
  | nil => rfl
  | cons c part ih =>
    cases part with
    | nil => rfl
    | cons d part =>
      have hnot : ¬ (c = sign ∧ d = sign) := by
        rintro ⟨rfl, rfl⟩
        exact h.1 ⟨[], part, rfl⟩
      rw [splitDoubled, if_neg hnot, ih (h.tail (List.cons_ne_nil _ _))]
      rfl

/-- Tight parts are found again in the text that joins them. -/
theorem splitDoubled_joinDoubled (hsome : parts ≠ []) (h : ∀ part ∈ parts, IsTight sign part) :
    splitDoubled sign (joinDoubled sign parts) = parts := by
  induction parts with
  | nil => exact absurd rfl hsome
  | cons part parts ih =>
    obtain ⟨hpart, hothers⟩ := List.forall_mem_cons.mp h
    by_cases hparts : parts = []
    · subst hparts
      rw [joinDoubled, List.intercalate_singleton, splitDoubled_tight hpart]
    · rw [joinDoubled_cons hparts, splitDoubled_append hpart, ih hparts hothers]

/-- Names of tight parts are told by their flat forms. -/
theorem flatten_injOn {v w : List Char} (hv : ∀ part ∈ nameParts v, IsTight '_' part)
    (hw : ∀ part ∈ nameParts w, IsTight '_' part) (h : flatten v = flatten w) : v = w := by
  rw [flatten_eq_joinDoubled, flatten_eq_joinDoubled] at h
  have hparts : nameParts v = nameParts w := by
    have hagain := splitDoubled_joinDoubled nameParts_ne_nil hv
    rw [h, splitDoubled_joinDoubled nameParts_ne_nil hw] at hagain
    exact hagain.symm
  rw [← joinDoubled_splitDoubled ':' v, ← joinDoubled_splitDoubled ':' w]
  exact congrArg (joinDoubled ':') hparts

/-! ## Readings of type names -/

/-- The contents of the node that a reading ends with. -/
def Reading.rootExpr? (r : Reading) : Option Expr :=
  r.root.toOption.bind fun id => (r.work.arena.expr id).toOption

/-- What the grammar makes of the tokens of a text is what reading the text comes to. -/
theorem Reading.ofSource_of_run {goal : Goal} {source : List Char} {tokens : List Token}
    {result : Except Stop NodeId} {s : ParserState}
    (hcut : Tokenizer.builtin.tokenize source = .ok tokens)
    (hrun : goal.parse .standard (.start tokens .builtin) = (result, s)) :
    (Reading.ofSource goal source).root = result ∧
      (Reading.ofSource goal source).work.arena = s.work.arena := by
  rw [Tokenizer.tokenize] at hcut
  unfold Reading.ofSource
  cases hends : Tokenizer.builtin.tokenizeWithEnd source with
  | error d =>
    rw [hends] at hcut
    cases hcut
  | ok cut =>
    rw [hends] at hcut
    cases hcut
    dsimp only [Reading.after, Reading.ofTokens]
    rw [hrun]
    exact ⟨rfl, rfl⟩

/-- What a node keeps of a type name: a qualified one in its flat form, and the flag. -/
def keptName (v : String) : String × Bool :=
  (if isQualified v.toList then flatName v else v, isQualified v.toList)

/-- A type name is read as a node that keeps it. -/
theorem type_lexeme_read {v : String} (h : Tokenizer.Lexeme .typeIdentifier v) :
    (Reading.ofSource .type v.toList).rootExpr? =
      some (.typeIdentifier (keptName v).1 (keptName v).2) := by
  have hnone : ∀ c ∈ ([] : List Char), isBlank c = true := nofun
  obtain ⟨token, hcut, hkind, hvalue⟩ := h.tokenize hnone hnone
  rw [List.nil_append, List.append_nil] at hcut
  have hname : Typing .standard [token] (typeLeaf .standard default token) := .named (.mk hkind)
  obtain ⟨u, s, hrun, hu, hholds⟩ :=
    goal_type_accepted (s := .start [token] .builtin) hname rfl
  obtain ⟨hroot, harena⟩ := Reading.ofSource_of_run hcut hrun
  -- A single token is a type in one way only.
  have hexpr : u.expr = typeName .standard v := by
    generalize hall : [token] = tokens at hu
    cases hu with
    | named name =>
      cases name with
      | mk =>
        cases hall
        rw [← hvalue]
        rfl
    | list _ element _ =>
      have hinner := congrArg List.length hall
      simp at hinner
  obtain ⟨tags, hfound⟩ := hholds.shows.found
  have hfinal : s.work.arena.expr u.root = .ok u.expr := expr_eq_ok.mpr ⟨_, hfound, rfl⟩
  rw [Reading.rootExpr?, hroot, harena]
  simp only [Except.toOption, Option.bind_some, hfinal, hexpr]
  simp [typeName, keptName, ParserEnv.standard, Config.default]

theorem flatName_eq_iff {v w : String} :
    flatName v = flatName w ↔
      joinDoubled '_' (nameParts v.toList) = joinDoubled '_' (nameParts w.toList) := by
  rw [flatName, flatName, String.ofList_inj, flatten_eq_joinDoubled, flatten_eq_joinDoubled]

theorem keptName_eq_iff {v w : String} :
    keptName v = keptName w ↔ v = w ∨
      isQualified v.toList = true ∧ isQualified w.toList = true ∧ flatName v = flatName w := by
  constructor
  · intro heq
    obtain ⟨hvalue, hflag⟩ := Prod.mk.inj heq
    cases hw : isQualified w.toList with
    | true =>
      have hv := hflag.trans hw
      rw [if_pos hv, if_pos hw] at hvalue
      exact .inr ⟨hv, rfl, hvalue⟩
    | false =>
      rw [if_neg (Bool.eq_false_iff.mp (hflag.trans hw)), if_neg (Bool.eq_false_iff.mp hw)]
        at hvalue
      exact .inl hvalue
  · rintro (rfl | ⟨hv, hw, hflat⟩)
    · rfl
    · rw [keptName, keptName, if_pos hv, if_pos hw, hv, hw, hflat]

/-- Two type names come to one node exactly if they are the same, or both are qualified and their
parts joined with double underscores read the same.  That does not happen to different names whose
parts neither end with an underscore nor have two of them side by side. -/
theorem typeNames_agree_iff {v w : String} (hv : Tokenizer.Lexeme .typeIdentifier v)
    (hw : Tokenizer.Lexeme .typeIdentifier w) :
    ∃ a b : String × Bool,
      (Reading.ofSource .type v.toList).rootExpr? = some (.typeIdentifier a.1 a.2) ∧
      (Reading.ofSource .type w.toList).rootExpr? = some (.typeIdentifier b.1 b.2) ∧
      (a = b ↔ v = w ∨
        1 < (nameParts v.toList).length ∧ 1 < (nameParts w.toList).length ∧
          joinDoubled '_' (nameParts v.toList) = joinDoubled '_' (nameParts w.toList)) ∧
      ((∀ part ∈ nameParts v.toList ++ nameParts w.toList, IsTight '_' part) →
        v ≠ w → a.1 ≠ b.1 ∨ a.2 ≠ b.2) := by
  refine ⟨keptName v, keptName w, type_lexeme_read hv, type_lexeme_read hw, ?_, ?_⟩
  · rw [keptName_eq_iff, isQualified_iff, isQualified_iff, flatName_eq_iff]
  · intro htight hdiffer
    obtain ⟨hvparts, hwparts⟩ := List.forall_mem_append.mp htight
    rw [← not_and_or]
    rintro ⟨hvalue, hflag⟩
    rcases keptName_eq_iff.mp (Prod.ext hvalue hflag) with hsame | ⟨-, -, hflat⟩
    · exact hdiffer hsame
    · exact hdiffer (String.toList_inj.mp (flatten_injOn hvparts hwparts (String.ofList_inj.mp hflat)))

/-- Two qualified names of tight parts, of which one has a part more. -/
theorem typeNames_agree_iff_tight :
    ∃ a b : String × Bool,
      (Reading.ofSource .type "Geo::Plane".toList).rootExpr? = some (.typeIdentifier a.1 a.2) ∧
      (Reading.ofSource .type "Geo::Plane::_Point".toList).rootExpr? =
        some (.typeIdentifier b.1 b.2) ∧
      (a.1 ≠ b.1 ∨ a.2 ≠ b.2) := by
  have hv : Tokenizer.Lexeme .typeIdentifier "Geo::Plane" :=
    Tokenizer.lexeme_of_tokenize (by decide +kernel)
  have hw : Tokenizer.Lexeme .typeIdentifier "Geo::Plane::_Point" :=
    Tokenizer.lexeme_of_tokenize (by decide +kernel)
  obtain ⟨a, b, ha, hb, -, htold⟩ := typeNames_agree_iff hv hw
  exact ⟨a, b, ha, hb, htold (by decide +kernel) (by decide)⟩

/-- A separator between two parts and two underscores within one part come to the same. -/
theorem typeNames_not_told_apart :
    ¬ ∀ v w : String, Tokenizer.Lexeme .typeIdentifier v → Tokenizer.Lexeme .typeIdentifier w →
      v ≠ w →
      (Reading.ofSource .type v.toList).rootExpr? ≠ (Reading.ofSource .type w.toList).rootExpr? := by
  intro htold
  have hv : Tokenizer.Lexeme .typeIdentifier "A::B::C" :=
    Tokenizer.lexeme_of_tokenize (by decide +kernel)
  have hw : Tokenizer.Lexeme .typeIdentifier "A::B__C" :=
    Tokenizer.lexeme_of_tokenize (by decide +kernel)
  exact htold _ _ hv hw (by decide) (by decide +kernel)

end ApiSyntax
