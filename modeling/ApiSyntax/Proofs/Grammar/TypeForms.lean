/-
  ApiSyntax/Proofs/Grammar/TypeForms.lean --- what a whole input of a type comes to.

  A type is a name between as many opening as closing brackets.  A sequence of tokens
  starts with a type, or breaks off at one place: where a name should stand, or where a
  bracket should close (`Breaks`).  The place is where the sequence stops being the
  beginning of a type, and there the parser fails.

  Main statement: `parseType_iff`.
-/
import ApiSyntax.Proofs.Grammar.Acceptance
import ApiSyntax.Proofs.Parser.Refusals

set_option autoImplicit false

namespace ApiSyntax

open ApiSyntax.Arena ApiSyntax.Grammar ApiSyntax.Language

variable {env : ParserEnv} {seg seg' rest rest' tokens : List Token} {t u : Tree}

/-! ## Balanced brackets -/

/-- The kinds of the tokens of a type: a name between brackets. -/
def typeKinds (depth : Nat) : List TokenKind :=
  List.replicate depth .lbracket ++ .typeIdentifier :: List.replicate depth .rbracket

/-- The tokens are of these kinds, one by one. -/
def OfKinds : List Token → List TokenKind → Prop := List.Forall₂ fun t kind => t.is kind

/-- The tokens are those of a type. -/
def IsType (tokens : List Token) : Prop := ∃ depth, OfKinds tokens (typeKinds depth)

/-- The tokens can go on to those of a type. -/
def BeginsType (tokens : List Token) : Prop := ∃ more, IsType (tokens ++ more)

/-- List types one around another, each at its bracket, and a type name in the middle. -/
inductive Nested (env : ParserEnv) (name : Token) : List Token → Tree → Prop
  | name {id : NodeId} : Nested env name [] (typeLeaf env id name)
  | list {l : Token} {opening : List Token} {u : Tree} {id : NodeId}
      (element : Nested env name opening u) :
      Nested env name (l :: opening) (.node id l (.listType u.root) [u])

theorem typeKinds_succ (depth : Nat) :
    typeKinds (depth + 1) = .lbracket :: (typeKinds depth ++ [.rbracket]) := by
  rw [typeKinds, typeKinds, List.replicate_succ, List.replicate_succ']
  simp

theorem ofKinds_list {l r : Token} {kinds : List TokenKind} (hl : l.is .lbracket)
    (h : OfKinds seg kinds) (hr : r.is .rbracket) :
    OfKinds (l :: (seg ++ [r])) (.lbracket :: (kinds ++ [.rbracket])) :=
  .cons hl (List.rel_append h (.cons hr .nil))

/-- The tokens of a type are balanced, and its nodes are nested as its brackets are. -/
theorem Language.Typing.nested (h : Typing env seg t) :
    ∃ opening name closing, seg = opening ++ name :: closing ∧
      OfKinds seg (typeKinds opening.length) ∧ Nested env name opening t := by
  induction h with
  | named name =>
    cases name with
    | mk ht => exact ⟨[], _, [], rfl, .cons ht .nil, .name⟩
  | @list l r seg u id hl element hr ih =>
    obtain ⟨opening, name, closing, rfl, hkinds, hnested⟩ := ih
    refine ⟨l :: opening, name, closing ++ [r], by simp, ?_, .list hnested⟩
    rw [List.length_cons, typeKinds_succ]
    exact ofKinds_list hl hkinds hr

/-- Balanced tokens are a type. -/
theorem typing_of_ofKinds {depth : Nat} (h : OfKinds seg (typeKinds depth)) :
    ∃ t, Typing env seg t := by
  induction depth generalizing seg with
  | zero =>
    cases h with
    | cons ht hrest =>
      cases hrest
      exact ⟨typeLeaf env default _, .named (.mk ht)⟩
  | succ depth ih =>
    rw [typeKinds_succ] at h
    cases h with
    | cons hl hrest =>
      obtain ⟨inner, hinner, closing, hclosing, rfl⟩ : ∃ inner, OfKinds inner (typeKinds depth) ∧
          ∃ closing, OfKinds closing [.rbracket] ∧ _ = inner ++ closing :=
        ⟨_, List.forall₂_take_append _ _ _ hrest, _, List.forall₂_drop_append _ _ _ hrest,
          (List.take_append_drop _ _).symm⟩
      obtain ⟨u, element⟩ := ih hinner
      cases hclosing with
      | cons hr hnil =>
        cases hnil
        exact ⟨.node default _ _ _, .list hl element hr⟩

theorem isType_iff (env : ParserEnv) : IsType tokens ↔ ∃ t, Typing env tokens t := by
  refine ⟨fun ⟨_, h⟩ => typing_of_ofKinds h, ?_⟩
  rintro ⟨t, ht⟩
  obtain ⟨opening, _, _, _, hkinds, _⟩ := ht.nested
  exact ⟨_, hkinds⟩

/-! ## Where a type ends -/

/-- A token of one kind is not of another one. -/
theorem Token.not_is {t : Token} {kind other : TokenKind} (ht : t.is kind) (hu : t.is other)
    (hother : kind.same other = false) : False := by
  rw [Token.is_of_is ht, hother] at hu
  cases hu

/-- A sequence of tokens starts with at most one type. -/
theorem Language.Typing.split (h : Typing env seg t) (h' : Typing env seg' u)
    (heq : seg ++ rest = seg' ++ rest') : seg = seg' ∧ rest = rest' := by
  induction h generalizing seg' u rest rest' with
  | named name =>
    cases name with
    | mk ht =>
      cases h' with
      | named name' =>
        cases name' with
        | mk => exact ⟨by simpa using (List.cons.inj heq).1, (List.cons.inj heq).2⟩
      | list hl =>
        obtain ⟨rfl, -⟩ := List.cons.inj heq
        exact (Token.not_is ht hl rfl).elim
  | list hl element hr ih =>
    cases h' with
    | named name' =>
      cases name' with
      | mk ht =>
        obtain ⟨rfl, -⟩ := List.cons.inj heq
        exact (Token.not_is hl ht rfl).elim
    | list _ element' _ =>
      simp only [List.cons_append, List.append_assoc] at heq
      obtain ⟨rfl, hinner⟩ := List.cons.inj heq
      obtain ⟨rfl, hclosing⟩ := ih element' hinner
      obtain ⟨rfl, rfl⟩ := List.cons.inj hclosing
      exact ⟨rfl, rfl⟩

/-- A type is read on a bound that is no smaller than the number of its tokens. -/
theorem readN_type_complete {S : Setting} (depth : Nat) :
    Complete S env (readN depth .type) (Typing env) depth anyEnd := by
  induction depth with
  | zero => exact complete_zero fun _ _ => typing_starts.ne_nil
  | succ depth ih => exact (type_complete ih).mono (by omega)

theorem readN_type_reads {S : Setting} (depth : Nat) :
    Reads S env (readN depth .type) (One (Typing env)) := by
  induction depth with
  | zero => exact fun s hs => .exhausted (Step.refl hs)
  | succ depth ih => exact type_reads ih

/-! ## Where a type breaks off -/

/-- The tokens are the beginning of a type, and what stands behind them is not the token of this
kind that should: a name or the bracket that closes. -/
inductive Breaks (env : ParserEnv) : TokenKind → List Token → List Token → Prop
  | name {tail : List Token} (h : Stops [.lbracket, .typeIdentifier] tail) :
      Breaks env .typeIdentifier [] tail
  | inside {kind : TokenKind} {l : Token} {seg tail : List Token} (hl : l.is .lbracket)
      (element : Breaks env kind seg tail) : Breaks env kind (l :: seg) tail
  | closing {l : Token} {seg tail : List Token} {u : Tree} (hl : l.is .lbracket)
      (element : Typing env seg u) (h : Stops [.rbracket] tail) :
      Breaks env .rbracket (l :: seg) tail

/-- Tokens start with a type, or break off. -/
theorem typing_or_breaks (env : ParserEnv) (tokens : List Token) :
    (∃ seg rest t, tokens = seg ++ rest ∧ Typing env seg t) ∨
      ∃ seg tail kind, tokens = seg ++ tail ∧ Breaks env kind seg tail := by
  induction tokens with
  | nil => exact .inr ⟨[], [], _, rfl, .name stops_nil⟩
  | cons t tokens ih =>
    by_cases hname : t.is .typeIdentifier
    · exact .inl ⟨[t], tokens, typeLeaf env default t, rfl, .named (.mk hname)⟩
    by_cases hl : t.is .lbracket
    · obtain ⟨seg, rest, u, rfl, element⟩ | ⟨seg, tail, kind, rfl, h⟩ := ih
      · have hclosing : Stops [.rbracket] rest ∨ ∃ r more, rest = r :: more ∧ r.is .rbracket := by
          cases rest with
          | nil => exact .inl stops_nil
          | cons r more =>
            by_cases hr : r.is .rbracket
            · exact .inr ⟨r, more, rfl, hr⟩
            · refine .inl fun u hu kind hkind => ?_
              cases hu
              rw [List.mem_singleton.mp hkind]
              exact Bool.eq_false_iff.mpr hr
        obtain hstops | ⟨r, more, rfl, hr⟩ := hclosing
        · exact .inr ⟨t :: seg, rest, _, rfl, .closing hl element hstops⟩
        · exact .inl ⟨t :: (seg ++ [r]), more, .node default _ _ _, by simp, .list hl element hr⟩
      · exact .inr ⟨t :: seg, tail, kind, rfl, .inside hl h⟩
    · refine .inr ⟨[], t :: tokens, _, rfl, .name fun u hu kind hkind => ?_⟩
      cases hu
      simp only [List.mem_cons, List.not_mem_nil, or_false] at hkind
      rcases hkind with rfl | rfl
      · exact Bool.eq_false_iff.mpr hl
      · exact Bool.eq_false_iff.mpr hname

namespace Breaks

variable {kind : TokenKind} {tail : List Token}

/-- What breaks off can be completed. -/
theorem completed (h : Breaks env kind seg tail) :
    ∃ more t, more ≠ [] ∧ Typing env (seg ++ more) t := by
  induction h with
  | name _ =>
    exact ⟨[⟨.typeIdentifier, "", .start⟩], typeLeaf env default _, List.cons_ne_nil _ _,
      .named (.mk rfl)⟩
  | @inside kind l seg tail hl _ ih =>
    obtain ⟨more, u, _, element⟩ := ih
    have hlist : Typing env (l :: ((seg ++ more) ++ [⟨.rbracket, "", .start⟩]))
        (.node default l (.listType u.root) [u]) := .list hl element rfl
    rw [List.append_assoc] at hlist
    exact ⟨_, _, by simp, hlist⟩
  | closing hl element _ =>
    exact ⟨[⟨.rbracket, "", .start⟩], .node default _ _ _, List.cons_ne_nil _ _,
      .list hl element rfl⟩

/-- What breaks off does not start with a type. -/
theorem not_typing (h : Breaks env kind seg tail) (ht : Typing env seg' t) :
    seg' ++ rest ≠ seg ++ tail := by
  induction h generalizing seg' rest t with
  | name hstops =>
    intro heq
    obtain ⟨a, inner, rfl, kind, hkind, ha⟩ := typing_starts _ _ ht
    subst heq
    have hnone := hstops a rfl kind (by simpa [or_comm] using hkind)
    rw [hnone] at ha
    cases ha
  | inside hl _ ih =>
    intro heq
    cases ht with
    | named name =>
      cases name with
      | mk hname =>
        obtain ⟨rfl, -⟩ := List.cons.inj heq
        exact Token.not_is hl hname rfl
    | list _ element _ =>
      rw [List.cons_append, List.append_assoc, List.cons_append] at heq
      exact ih element (List.cons.inj heq).2
  | closing hl inner hstops =>
    intro heq
    cases ht with
    | named name =>
      cases name with
      | mk hname =>
        obtain ⟨rfl, -⟩ := List.cons.inj heq
        exact Token.not_is hl hname rfl
    | list _ element hr =>
      rw [List.cons_append, List.append_assoc, List.cons_append] at heq
      obtain ⟨-, rfl⟩ := element.split inner (List.cons.inj heq).2
      have hnone := hstops _ rfl _ List.mem_cons_self
      rw [hnone] at hr
      cases hr

/-- Where it breaks off is told by the first token behind. -/
theorem of_head {a : Token} (h : Breaks env kind seg (a :: rest)) (rest' : List Token) :
    Breaks env kind seg (a :: rest') := by
  generalize htail : a :: rest = tail at h
  induction h with
  | name hstops =>
    subst htail
    exact .name fun t ht => hstops t ht
  | inside hl _ ih => exact .inside hl (ih htail)
  | closing hl element hstops =>
    subst htail
    exact .closing hl element fun t ht => hstops t ht

/-- A type that breaks off is refused where it does. -/
theorem refused (h : Breaks env kind seg tail) {depth : Nat} (hdepth : seg.length < depth)
    {s : ParserState} (hrest : s.cursor.rest = seg ++ tail) :
    Refuses (readN depth .type) env s (missing tail kind.describe) := by
  have hfits : ∀ s, Setting.any.Fits s := fun s => ⟨trivial, fun _ _ => trivial⟩
  induction h generalizing s depth with
  | name hstops =>
    obtain ⟨depth, rfl⟩ : ∃ m, depth = m + 1 := ⟨depth - 1, by omega⟩
    have hhead : Stops [.lbracket, .typeIdentifier] s.cursor.rest := hrest ▸ hstops
    have hname : Refuses namedType env s (missing s.cursor.rest TokenKind.typeIdentifier.describe) :=
      (Parser.expect_refuses (hhead.subset (by simp))).bind
    rw [hrest] at hname
    exact .check (hhead.check List.mem_cons_self) hname
  | @inside kind l seg tail hl _ ih =>
    obtain ⟨depth, rfl⟩ : ∃ m, depth = m + 1 := ⟨depth - 1, by omega⟩
    rw [List.length_cons] at hdepth
    refine .check (check_of_rest hrest hl) ?_
    refine (Parser.consume_accepts (hfits s) hrest).bind_refuses fun _ s₁ _ hrest₁ _ => ?_
    exact (ih (by omega) hrest₁).bind
  | @closing l seg tail u hl element hstops =>
    obtain ⟨depth, rfl⟩ : ∃ m, depth = m + 1 := ⟨depth - 1, by omega⟩
    rw [List.length_cons] at hdepth
    refine .check (check_of_rest hrest hl) ?_
    refine (Parser.consume_accepts (hfits s) hrest).bind_refuses fun _ s₁ hs₁ hrest₁ _ => ?_
    have hread := readN_type_complete depth seg u element (by omega) s₁ tail hs₁ hrest₁ trivial
    refine hread.bind_refuses fun _ s₂ _ hrest₂ _ => ?_
    subst hrest₂
    exact (Parser.expect_refuses hstops).bind

end Breaks

/-! ## Whole inputs -/

variable {s : ParserState}

/-- A type at the start of the tokens is read. -/
theorem type_accepted (ht : Typing env seg t) (hrest : s.cursor.rest = seg ++ rest) :
    Accepts .any Production.type.parse env s rest AnyResult := by
  have hdepth : seg.length ≤ Production.depth s.cursor.rest.length := by
    rw [hrest, List.length_append, Production.depth]
    omega
  have hread := readN_type_complete _ seg t ht hdepth s rest (any_fits s) hrest trivial
  exact hread.of_eq (production_run _ _)

/-- What is read to its end is the type that stands there. -/
theorem goal_type_accepted (ht : Typing env seg t) (hrest : s.cursor.rest = seg) :
    ∃ u s', Goal.type.parse env s = (.ok u.root, s') ∧ Typing env seg u ∧
      s'.work.arena.Holds u := by
  have hread : Accepts .any Production.type.parse env s [] AnyResult :=
    type_accepted ht (by rw [hrest, List.append_nil])
  have hout : Outcome .any s (One (Typing env)) (Production.type.parse env s) :=
    readN_type_reads _ s (any_fits s)
  obtain ⟨id, s', hrun, hend, -, -⟩ := hread
  obtain ⟨seg', ts, step, u, rfl, rfl, hu⟩ := hout.of_run hrun
  have hall : seg' = seg := by
    have hahead := step.passes.ahead
    rw [hend, List.append_nil, hrest] at hahead
    exact hahead.symm
  refine ⟨u, s', ?_, hall ▸ hu, step.arena.holds List.mem_cons_self⟩
  rw [Goal.parse, Parser.bind_run, Action.bind_run, hrun]
  dsimp only
  rw [Parser.bind_run, Action.bind_run, Parser.expectEnd, hend]
  rfl

/-- Behind a type nothing may stand. -/
theorem goal_type_surplus {a : Token} (ht : Typing env seg t)
    (hrest : s.cursor.rest = seg ++ a :: rest) :
    Refuses Goal.type.parse env s (.unexpected a "end of input") :=
  (type_accepted ht hrest).bind_refuses fun _ _ _ hrest' _ => (Parser.expectEnd_refuses hrest').bind

/-- A type that breaks off fails where it does. -/
theorem goal_type_breaks {kind : TokenKind} {tail : List Token} (h : Breaks env kind seg tail)
    (hrest : s.cursor.rest = seg ++ tail) :
    Refuses Goal.type.parse env s (missing tail kind.describe) := by
  have hdepth : seg.length < Production.depth s.cursor.rest.length := by
    rw [hrest, List.length_append, Production.depth]
    omega
  have hread : Refuses Production.type.parse env s (missing tail kind.describe) :=
    (h.refused hdepth hrest).of_eq (production_run _ _)
  exact hread.bind

/-- The tokens go up to where they stop being the beginning of a type: `t` is the first token that
none could have in its place. -/
def Stray (tokens : List Token) (t : Token) : Prop :=
  ∃ seg rest, tokens = seg ++ t :: rest ∧ BeginsType seg ∧ ¬ BeginsType (seg ++ [t])

/-- The ways in which a whole input of a type ends. -/
theorem goal_type_cases (env : ParserEnv) (s : ParserState) :
    (∃ t s', Goal.type.parse env s = (.ok t.root, s') ∧ Typing env s.cursor.rest t ∧
        s'.work.arena.Holds t) ∨
      (Refuses Goal.type.parse env s .outOfTokens ∧ ¬ IsType s.cursor.rest ∧
        ∃ more, more ≠ [] ∧ IsType (s.cursor.rest ++ more)) ∨
      ∃ t expected, Refuses Goal.type.parse env s (.unexpected t expected) ∧
        Stray s.cursor.rest t := by
  obtain ⟨seg, rest, t, hrest, ht⟩ | ⟨seg, tail, kind, hrest, h⟩ :=
    typing_or_breaks env s.cursor.rest
  · cases rest with
    | nil =>
      rw [List.append_nil] at hrest
      obtain ⟨u, s', hrun, hu, hholds⟩ := goal_type_accepted ht hrest
      exact .inl ⟨u, s', hrun, hrest ▸ hu, hholds⟩
    | cons a rest =>
      refine .inr (.inr ⟨a, _, goal_type_surplus ht hrest, seg, rest, hrest, ⟨[], ?_⟩, ?_⟩)
      · rw [List.append_nil]
        exact (isType_iff env).mpr ⟨t, ht⟩
      · rintro ⟨more, hmore⟩
        obtain ⟨u, hu⟩ := (isType_iff env).mp hmore
        have hboth : seg ++ a :: more = seg ++ [a] ++ more ++ [] := by simp
        cases (ht.split hu hboth).2
  · cases tail with
    | nil =>
      rw [List.append_nil] at hrest
      obtain ⟨more, u, hmore, hu⟩ := h.completed
      refine .inr (.inl ⟨goal_type_breaks h (by rw [hrest, List.append_nil]), ?_, more, hmore, ?_⟩)
      · rw [hrest, isType_iff env]
        rintro ⟨t, ht⟩
        exact h.not_typing ht rfl
      · rw [hrest, isType_iff env]
        exact ⟨u, hu⟩
    | cons a rest =>
      refine .inr (.inr ⟨a, _, goal_type_breaks h hrest, seg, rest, hrest, ?_, ?_⟩)
      · obtain ⟨more, u, -, hu⟩ := h.completed
        exact ⟨more, (isType_iff env).mpr ⟨u, hu⟩⟩
      · rintro ⟨more, hmore⟩
        obtain ⟨u, hu⟩ := (isType_iff env).mp hmore
        have hboth : seg ++ [a] ++ more ++ [] = seg ++ a :: more := by simp
        exact (h.of_head more).not_typing hu hboth

/-- Tokens that are a type do not go on to another one. -/
theorem IsType.not_proper {more : List Token} (h : IsType tokens) (hmore : more ≠ []) :
    ¬ IsType (tokens ++ more) := by
  intro hall
  obtain ⟨t, ht⟩ := (isType_iff .standard).mp h
  obtain ⟨u, hu⟩ := (isType_iff .standard).mp hall
  exact hmore (ht.split hu (List.append_nil _).symm).2

theorem Stray.not_beginsType {t : Token} (h : Stray tokens t) : ¬ BeginsType tokens := by
  obtain ⟨seg, rest, rfl, -, hnot⟩ := h
  rintro ⟨more, hmore⟩
  refine hnot ⟨rest ++ more, ?_⟩
  rwa [← List.append_assoc, List.append_assoc seg, List.singleton_append]

/-- A whole input is accepted as a type exactly when it is a name between as many opening as closing
brackets; then there are as many list types around the name, each at its bracket.  It runs out of
tokens exactly when more of them would make it such an input.  In every other case it fails at the
first token with which it stops being the beginning of any type. -/
theorem parseType_iff (env : ParserEnv) (s : ParserState) :
    let run := Goal.type.parse env s
    let tokens := s.cursor.rest
    ((∃ id, run.1 = .ok id) ↔ IsType tokens) ∧
      (∀ id, run.1 = .ok id → ∃ opening name closing t, tokens = opening ++ name :: closing ∧
        OfKinds tokens (typeKinds opening.length) ∧ Nested env name opening t ∧ t.root = id ∧
          run.2.work.arena.Holds t) ∧
      (run.1 = .error (.failed .outOfTokens) ↔ ∃ more, more ≠ [] ∧ IsType (tokens ++ more)) ∧
      (IsType tokens ∨ (∃ more, more ≠ [] ∧ IsType (tokens ++ more)) ∨
        ∃ t expected, Stray tokens t ∧ run.1 = .error (.failed (.unexpected t expected))) := by
  intro run tokens
  obtain ⟨t, s', hrun, ht, hholds⟩ | ⟨hrun, hnot, hmore⟩ | ⟨t, expected, hrun, hstray⟩ :=
    goal_type_cases env s
  · have hresult : run = (.ok t.root, s') := hrun
    have htype : IsType tokens := (isType_iff env).mpr ⟨t, ht⟩
    refine ⟨?_, ?_, ?_, .inl htype⟩
    · exact ⟨fun _ => htype, fun _ => ⟨t.root, by rw [hresult]⟩⟩
    · intro id hid
      rw [hresult] at hid ⊢
      cases hid
      obtain ⟨opening, name, closing, hsplit, hkinds, hnested⟩ := ht.nested
      exact ⟨opening, name, closing, t, hsplit, hkinds, hnested, rfl, hholds⟩
    · rw [hresult]
      exact ⟨nofun, fun ⟨more, hmore, hall⟩ => absurd hall (htype.not_proper hmore)⟩
  · have hresult : run.1 = .error (.failed .outOfTokens) := hrun.result
    refine ⟨?_, ?_, ⟨fun _ => hmore, fun _ => hresult⟩, .inr (.inl hmore)⟩
    · exact ⟨fun ⟨id, hid⟩ => (nomatch hresult.symm.trans hid), fun h => absurd h hnot⟩
    · intro id hid
      cases hresult.symm.trans hid
  · have hresult : run.1 = .error (.failed (.unexpected t expected)) := hrun.result
    have hnot : ∀ more, ¬ IsType (tokens ++ more) := fun more h =>
      hstray.not_beginsType ⟨more, h⟩
    refine ⟨?_, ?_, ?_, .inr (.inr ⟨t, expected, hstray, hresult⟩)⟩
    · refine ⟨fun ⟨id, hid⟩ => (nomatch hresult.symm.trans hid), fun h => absurd ?_ (hnot [])⟩
      rwa [List.append_nil]
    · intro id hid
      cases hresult.symm.trans hid
    · refine ⟨fun h => ?_, fun ⟨more, _, h⟩ => absurd h (hnot more)⟩
      cases hresult.symm.trans h

end ApiSyntax
