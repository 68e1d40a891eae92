/-
  ApiSyntax/Proofs/Grammar/DeclarationComplete.lean --- declarations of the language are
  read.

  What stands in parentheses behind the name of a type is its list of properties, unless
  a name or an operator follows: then it is the receiver of the next method, and the
  place is taken back.  A clause that is missing is attempted and given up at its first
  token.
-/
import ApiSyntax.Proofs.Grammar.StatementComplete

set_option autoImplicit false

namespace ApiSyntax.Grammar

open ApiSyntax.Language ApiSyntax.Parser ApiSyntax.Production

variable {S : Setting} {env : ParserEnv} {read : Production → Parser NodeId} {E : Phrase}
  {m n k : Nat} {b s : ParserState} {seg rest : List Token}

/-! ## Signatures and methods -/

theorem receiver_accepts {u : Tree} {named : Option Tree}
    (hsound : Reads S env (read .type) (One (Typing env)))
    (htype : Complete S env (read .type) (Typing env) m anyEnd)
    (h : Language.Receiver env seg u named) (hm : seg.length ≤ m) (hs : S.Fits s)
    (hrest : s.cursor.rest = seg ++ rest) : Accepts S (receiver read) env s rest AnyResult := by
  rw [receiver]
  cases h with
  | static ty =>
    have hstops : Stops [.identifier] (seg ++ rest) := typing_starts.stops ty (by decide)
    have hcheck : s.cursor.check .identifier = false := (hrest ▸ hstops).check (by simp)
    refine .check hcheck ?_
    refine (htype _ _ ty hm s rest hs hrest trivial).bind fun _ s₁ hs₁ hrest₁ _ => ?_
    exact .pure hs₁ hrest₁ trivial
  | named ht ty copy =>
    rw [List.length_cons] at hm
    rw [List.cons_append] at hrest
    refine .check (check_of_rest hrest ht) (.startToken ?_)
    refine (identifier_accepts hs hrest ht).next (Step.refl hs) identifier_reads ?_
    intro _ s₁ _ _ hname h₁ hrest₁ _
    obtain ⟨name, rfl, rfl, _⟩ := hname
    refine (htype _ _ ty (by omega) s₁ rest h₁.fits hrest₁ trivial).next h₁ hsound ?_
    intro _ s₂ _ _ hty h₂ hrest₂ _
    obtain ⟨t, rfl, rfl, _⟩ := hty
    refine (alloc_accepts h₂.fits hrest₂).after (h₂.made
      (G := fun _ u => u.children = [name, t]) rfl fun id => rfl) ?_
    intro _ s₃ _ _ hpair h₃ hrest₃ _
    obtain ⟨pair, rfl, rfl, hchildren⟩ := hpair
    have hsub : t ∈ pair.subtrees := Tree.mem_subtrees_of_mem_children (by simp [hchildren])
    refine .duplicate h₃ List.mem_cons_self hsub hrest₃ fun v s₄ h₄ hrest₄ => ?_
    exact .pure h₄.fits hrest₄ trivial

theorem returnType_accepts {o : Option Tree}
    (htype : Complete S env (read .type) (Typing env) m anyEnd) (h : Returns env seg o)
    (hm : seg.length ≤ m) (hend : Stops [.lparen] rest) (hs : S.Fits s)
    (hrest : s.cursor.rest = seg ++ rest) : Accepts S (returnType read) env s rest AnyResult := by
  rw [returnType]
  cases h with
  | omitted =>
    have hstops : Stops [.lparen] s.cursor.rest := hrest ▸ hend
    have hcheck : s.cursor.check .lparen = false := hstops.check (by simp)
    exact .check hcheck (.pure hs hrest trivial)
  | @empty l r hl hr =>
    have hsplit : s.cursor.rest = l :: r :: rest := hrest
    refine .check (check_of_rest hsplit hl) ?_
    refine (consume_accepts hs hsplit).bind fun _ s₁ hs₁ hrest₁ _ => ?_
    refine .check (check_of_rest hrest₁ hr) ?_
    refine (consume_accepts hs₁ hrest₁).bind fun _ s₂ hs₂ hrest₂ _ => ?_
    exact .pure hs₂ hrest₂ trivial
  | @some l r seg u hl ty hr =>
    rw [List.length_cons, List.length_append] at hm
    have hsplit : s.cursor.rest = l :: (seg ++ (r :: rest)) := by simp [hrest]
    refine .check (check_of_rest hsplit hl) ?_
    refine (consume_accepts hs hsplit).bind fun _ s₁ hs₁ hrest₁ _ => ?_
    have hstops : Stops [.rparen] (seg ++ r :: rest) := typing_starts.stops ty (by decide)
    have hcheck : s₁.cursor.check .rparen = false := (hrest₁ ▸ hstops).check (by simp)
    refine .check hcheck ?_
    refine (htype _ _ ty (by omega) s₁ _ hs₁ hrest₁ trivial).bind fun _ s₂ hs₂ hrest₂ _ => ?_
    refine (expect_accepts hs₂ hrest₂ hr).bind fun _ s₃ hs₃ hrest₃ _ => ?_
    exact .pure hs₃ hrest₃ trivial

/-- Names with their types between parentheses. -/
theorem pairs_complete (hpair : Complete S env (read .pair) (Pair env) m anyEnd) :
    Complete S env (pairs read) (Enclosed .lparen .rparen (Pair env)) (m + 2) anyEnd :=
  parenthesizedList_complete hpair (fun _ _ _ => trivial) rfl pair_starts (by decide)

theorem signature_complete (hsound : Reads S env (read .type) (One (Typing env)))
    (htype : Complete S env (read .type) (Typing env) m anyEnd)
    (hpair : Complete S env (read .pair) (Pair env) m anyEnd) :
    Complete S env (signature read) (Signature env) (m + 1) (Stops [.lparen]) := by
  intro seg t ht hm s rest hs hrest hend
  rw [signature]
  cases ht with
  | @mk l r t seg params returns u named result ps id nid hl receiver hr ht parameters result =>
    simp only [List.length_cons, List.length_append] at hm
    have hsplit : s.cursor.rest = l :: (seg ++ (r :: t :: (params ++ (returns ++ rest)))) := by
      simp [hrest]
    refine (expect_accepts hs hsplit hl).bind fun _ s₁ hs₁ hrest₁ _ => ?_
    refine (receiver_accepts hsound htype receiver (by omega) hs₁ hrest₁).bind
      fun _ s₂ hs₂ hrest₂ _ => ?_
    refine (expect_accepts hs₂ hrest₂ hr).bind fun _ s₃ hs₃ hrest₃ _ => ?_
    refine (expectAny_accepts hs₃ hrest₃ ht).bind fun _ s₄ hs₄ hrest₄ _ => ?_
    refine (alloc_accepts hs₄ hrest₄).bind fun _ s₅ hs₅ hrest₅ _ => ?_
    refine (pairs_complete hpair _ _ parameters (by omega) s₅ _ hs₅ hrest₅ trivial).bind
      fun _ s₆ hs₆ hrest₆ _ => ?_
    refine (returnType_accepts htype result (by omega) hend hs₆ hrest₆).bind
      fun _ s₇ hs₇ hrest₇ _ => ?_
    exact (alloc_accepts hs₇ hrest₇).any

theorem block_starts {A : Phrase} : Starts [.lbrace] (Block (Statement env E A) E) := by
  intro seg t ht
  cases ht with
  | plain body =>
    cases body with
    | mk hl => exact ⟨_, _, rfl, _, List.mem_cons_self, hl⟩
  | returning hl => exact ⟨_, _, rfl, _, List.mem_cons_self, hl⟩

theorem signature_starts : Starts [.lparen] (Signature env) := by
  intro seg t ht
  cases ht with
  | mk hl => exact ⟨_, _, rfl, _, List.mem_cons_self, hl⟩

theorem method_complete
    (hsignature : Complete S env (read .signature) (Signature env) m (Stops [.lparen]))
    (hblock : Complete S env (read .block) (Block (Statement env E Nothing) E) m anyEnd) :
    Complete S env (method read) (Method env E Nothing) (m + 1) anyEnd := by
  intro seg t ht hm s rest hs hrest _
  rw [method]
  cases ht with
  | @mk seg inner head body id signature block =>
    rw [List.length_append] at hm
    rw [List.append_assoc] at hrest
    have hhead : 0 < seg.length := List.length_pos_iff.mpr (signature_starts.ne_nil signature)
    have hbody : 0 < inner.length := List.length_pos_iff.mpr (block_starts.ne_nil block)
    have hend : Stops [.lparen] (inner ++ rest) := block_starts.stops block (by decide)
    refine .startToken ?_
    refine (hsignature _ _ signature (by omega) s _ hs hrest hend).bind
      fun _ s₁ hs₁ hrest₁ _ => ?_
    refine (hblock _ _ block (by omega) s₁ rest hs₁ hrest₁ trivial).bind
      fun _ s₂ hs₂ hrest₂ _ => ?_
    exact (alloc_accepts hs₂ hrest₂).any

/-! ## What comes behind a type -/

/-- Behind a declaration the API ends or the tokens do, or a type follows, or a method, with a
signature of at most `n` tokens. -/
inductive DeclarationEnd (env : ParserEnv) (n : Nat) : List Token → Prop
  | ended : DeclarationEnd env n []
  | close {r : Token} {rest : List Token} (hr : r.is .rbrace) : DeclarationEnd env n (r :: rest)
  | typeDef {k : Token} {rest : List Token} (hk : k.isValue .keyword "type") :
      DeclarationEnd env n (k :: rest)
  | method {seg rest : List Token} {t : Tree} (signature : Signature env seg t)
      (hn : seg.length ≤ n) : DeclarationEnd env n (seg ++ rest)

/-- Behind the properties of a type traits may follow. -/
inductive PropertiesEnd (env : ParserEnv) (n : Nat) : List Token → Prop
  | traits {k : Token} {rest : List Token} (hk : k.isValue .keyword "with") :
      PropertiesEnd env n (k :: rest)
  | omitted {rest : List Token} (h : DeclarationEnd env n rest) : PropertiesEnd env n rest

theorem DeclarationEnd.stops (h : DeclarationEnd env n rest) :
    Stops [.comma, .identifier, .operator] rest := by
  cases h with
  | ended => exact stops_nil
  | close hr => exact stops_of_is hr (by decide)
  | typeDef hk => exact stops_of_is (is_of_isValue hk) (by decide)
  | method signature => exact signature_starts.stops signature (by decide)

theorem PropertiesEnd.stops (h : PropertiesEnd env n rest) : Stops [.identifier, .operator] rest := by
  cases h with
  | traits hk => exact stops_of_is (is_of_isValue hk) (by decide)
  | omitted h => exact h.stops.subset (by simp)

theorem DeclarationEnd.checkKeyword_with (h : DeclarationEnd env n rest)
    (hrest : s.cursor.rest = rest) : s.cursor.checkKeyword "with" = false := by
  rw [Cursor.checkKeyword, Cursor.checkValue, hrest]
  cases h with
  | ended => rfl
  | close hr => exact isValue_of_is hr rfl
  | typeDef hk => exact isValue_of_other hk (by decide)
  | method signature =>
    obtain ⟨a, tail, rfl, kind, hkind, ha⟩ := signature_starts _ _ signature
    rw [List.mem_singleton.mp hkind] at ha
    exact isValue_of_is ha rfl

/-! ## Properties -/

theorem properties_given (hpair : Complete S env (read .pair) (Pair env) m anyEnd) {ps : List Tree}
    (pairs : Enclosed .lparen .rparen (Pair env) seg ps) (hm : seg.length ≤ m + 2)
    (hend : Stops [.identifier, .operator] rest) (hs : S.Fits s)
    (hrest : s.cursor.rest = seg ++ rest) : Accepts S (properties read) env s rest AnyResult := by
  have hread := pairs_complete hpair seg ps pairs hm s rest hs hrest trivial
  refine .atCursor ((attempt_accepts hread).bind fun o s₁ hs₁ hrest₁ ho => ?_)
  obtain ⟨found, rfl, _⟩ := ho
  have hstops : Stops [.identifier, .operator] s₁.cursor.rest := hrest₁ ▸ hend
  refine .check (hstops.check (by simp)) (.check (hstops.check (by simp)) ?_)
  exact .pure hs₁ hrest₁ trivial

/-- What cannot be a list of properties is left alone. -/
theorem properties_failed (hsound : Reads S env (read .pair) (One (Pair env))) (hs : S.Fits s)
    (hrest : s.cursor.rest = rest) (hfail : Fails (pairs read) env s) :
    Accepts S (properties read) env s rest AnyResult := by
  have hreads : Reads S env (pairs read) (Many (Enclosed .lparen .rparen (Pair env))) :=
    parenthesizedList_reads hsound
  refine .atCursor ((attempt_fails hreads hs hrest hfail).bind fun o s₁ hs₁ hrest₁ ho => ?_)
  subst ho
  exact .pure hs₁ hrest₁ trivial

/-- A type in parentheses is no list of properties. -/
theorem pairs_fails (hfail : ∀ s, s.cursor.check .identifier = false → Fails (read .pair) env s)
    {l : Token} {u : Tree} (hl : l.is .lparen) (ty : Typing env seg u) (hs : S.Fits s)
    (hrest : s.cursor.rest = l :: (seg ++ rest)) : Fails (pairs read) env s := by
  refine (expect_accepts hs hrest hl).bind_fails fun _ s₁ hrest₁ _ => ?_
  have hstops : Stops [.rparen, .identifier] s₁.cursor.rest := by
    rw [hrest₁]
    exact typing_starts.stops ty (by decide)
  refine .check (hstops.check (by simp)) ?_
  have hfirst : Fails (read .pair) env s₁ := hfail s₁ (hstops.check (by simp))
  have hitems : Fails (delimited (read .pair) .comma) env s₁ := hfirst.bind
  exact hitems.bind

/-- The receiver of the next method is no list of properties, also when it reads as one. -/
theorem properties_undone (hsound : Reads S env (read .pair) (One (Pair env)))
    (hpair : Complete S env (read .pair) (Pair env) m anyEnd)
    (hfail : ∀ s, s.cursor.check .identifier = false → Fails (read .pair) env s) {t : Tree}
    (signature : Signature env seg t) (hm : seg.length ≤ m + 2) (hs : S.Fits s)
    (hrest : s.cursor.rest = seg ++ rest) :
    Accepts S (properties read) env s (seg ++ rest) AnyResult := by
  cases signature with
  | @mk l r t seg params returns u named result ps id nid hl receiver hr ht parameters result =>
    cases receiver with
    | static ty =>
      have hsplit : s.cursor.rest = l :: (seg ++ (r :: t :: (params ++ (returns ++ rest)))) := by
        simp [hrest]
      exact properties_failed hsound hs hrest (pairs_fails hfail hl ty hs hsplit)
    | @named name seg u v pid nid' hname ty copy =>
      have hgroup : Enclosed .lparen .rparen (Pair env) (l :: ((name :: seg) ++ [r]))
          [.node pid name (.pair nid' u.root) [nameLeaf nid' name, u]] :=
        .some hl (.one (.mk hname ty)) hr
      have hsplit : s.cursor.rest =
          (l :: ((name :: seg) ++ [r])) ++ (t :: (params ++ (returns ++ rest))) := by
        simp [hrest]
      have hlength : (l :: ((name :: seg) ++ [r])).length ≤ m + 2 := by
        simp only [List.length_cons, List.length_append, List.length_nil] at hm ⊢
        omega
      have hread := pairs_complete hpair _ _ hgroup hlength s _ hs hsplit trivial
      refine .atCursor ((attempt_accepts hread).bind fun o s₁ hs₁ hrest₁ ho => ?_)
      obtain ⟨found, rfl, _⟩ := ho
      refine .check rfl (.check rfl ?_)
      have hnamed : (s₁.cursor.check .identifier || s₁.cursor.check .operator) = true := by
        simpa [Cursor.check, hrest₁] using ht
      rw [if_pos hnamed]
      exact ⟨[], { s₁ with cursor := s.cursor }, rfl, hrest, ⟨hs₁.tables, hs.tokens⟩, trivial⟩

theorem properties_accepts (hsound : Reads S env (read .pair) (One (Pair env)))
    (hpair : Complete S env (read .pair) (Pair env) m anyEnd)
    (hfail : ∀ s, s.cursor.check .identifier = false → Fails (read .pair) env s) {ps : List Tree}
    (h : Language.Properties env seg ps) (hm : seg.length ≤ m + 2)
    (hend : PropertiesEnd env (m + 2) rest) (hs : S.Fits s) (hrest : s.cursor.rest = seg ++ rest) :
    Accepts S (properties read) env s rest AnyResult := by
  cases h with
  | some pairs => exact properties_given hpair pairs hm hend.stops hs hrest
  | none =>
    rw [List.nil_append] at hrest
    have hother : Stops [.lparen] rest → Accepts S (properties read) env s rest AnyResult := by
      intro hstops
      refine properties_failed hsound hs hrest (expect_fails ?_).bind
      exact (hrest ▸ hstops).check List.mem_cons_self
    cases hend with
    | traits hk => exact hother (stops_of_is (is_of_isValue hk) (by decide))
    | omitted h =>
      cases h with
      | ended => exact hother stops_nil
      | close hr => exact hother (stops_of_is hr (by decide))
      | typeDef hk => exact hother (stops_of_is (is_of_isValue hk) (by decide))
      | method signature hn => exact properties_undone hsound hpair hfail signature hn hs hrest

/-! ## Types -/

theorem duplicateAll_accepts {cs ts : List Tree} (h : Step S b s seg ts) (hcs : ∀ c ∈ cs, c ∈ ts)
    (hrest : s.cursor.rest = rest) :
    Accepts S (duplicateAll (cs.map Tree.root)) env s rest AnyResult := by
  induction cs generalizing s ts with
  | nil => exact .pure h.fits hrest trivial
  | cons c cs ih =>
    rw [List.map_cons, duplicateAll]
    refine .duplicate h (hcs c List.mem_cons_self) c.self_mem_subtrees hrest fun v s₁ h₁ hrest₁ => ?_
    have hothers : ∀ d ∈ cs, d ∈ v :: ts := fun d hd =>
      List.mem_cons_of_mem _ (hcs d (List.mem_cons_of_mem _ hd))
    exact (ih h₁ hothers hrest₁).bind fun _ s₂ hs₂ hrest₂ _ => .pure hs₂ hrest₂ trivial

theorem constructor_accepts {name : Tree} {ps : List Tree} (h : Step S b s seg (name :: ps))
    (hrest : s.cursor.rest = rest) :
    Accepts S (constructor name.root (ps.map Tree.root)) env s rest AnyResult := by
  rw [constructor]
  obtain ⟨tags, hnode⟩ := (h.arena.holds List.mem_cons_self).shows.node
  refine .atArena hnode ?_
  refine .duplicate h List.mem_cons_self name.self_mem_subtrees hrest fun v s₁ h₁ hrest₁ => ?_
  have hname : name ∈ v :: name :: ps := List.mem_cons_of_mem _ List.mem_cons_self
  refine .duplicate h₁ hname name.self_mem_subtrees hrest₁ fun w s₂ h₂ hrest₂ => ?_
  have hleaf : Step S b s₂ seg ([] ++ w :: v :: name :: ps) := h₂
  refine (alloc_accepts h₂.fits hrest₂).after (hleaf.allocated rfl
    (Q := fun _ seg' ts => seg' = seg ∧ ∀ p ∈ ps, p ∈ ts) fun t _ => ⟨rfl, ?_⟩) ?_
  · intro p hp
    simp only [List.mem_cons, hp, or_true]
  · intro made s₃ _ ts hts h₃ hrest₃ _
    obtain ⟨rfl, hts⟩ := hts
    refine (duplicateAll_accepts h₃ hts hrest₃).bind fun params s₄ hs₄ hrest₄ _ => ?_
    exact (alloc_accepts hs₄ hrest₄).any

theorem traits_accepts {ts : List Tree} (h : Traits env seg ts) (hend : DeclarationEnd env n rest)
    (hs : S.Fits s) (hrest : s.cursor.rest = seg ++ rest) :
    Accepts S traits env s rest AnyResult := by
  rw [traits]
  cases h with
  | none => exact .checkKeyword (hend.checkKeyword_with hrest) (.pure hs hrest trivial)
  | @some k seg ts hk names =>
    have hcheck : s.cursor.checkKeyword "with" = true :=
      Cursor.checkKeyword_iff.mpr ⟨k, _, hrest, hk⟩
    refine .checkKeyword hcheck ?_
    refine (consume_accepts hs hrest).bind fun _ s₁ hs₁ hrest₁ _ => ?_
    have hnames : Complete S env (delimited namedType .comma) (Separated (TypeName env)) seg.length
        fun rest => anyEnd rest ∧ Stops [.comma] rest :=
      delimited_complete namedType_complete fun _ _ _ => trivial
    have hstops : Stops [.comma] rest := hend.stops.subset (by simp)
    exact hnames seg _ names (Nat.le_refl _) s₁ rest hs₁ hrest₁ ⟨trivial, hstops⟩

theorem typeDef_complete (hsound : Reads S env (read .pair) (One (Pair env)))
    (hpair : Complete S env (read .pair) (Pair env) m anyEnd)
    (hfail : ∀ s, s.cursor.check .identifier = false → Fails (read .pair) env s) :
    Complete S env (typeDef read) (TypeDef env) (m + 2) (DeclarationEnd env (m + 2)) := by
  intro seg t ht hm s rest hs hrest hend
  rw [typeDef]
  cases ht with
  | @mk k t seg others ps ts made id tid hk ht hps _ hts =>
    simp only [List.length_cons, List.length_append] at hm
    have hsplit : s.cursor.rest = k :: t :: (seg ++ (others ++ rest)) := by simp [hrest]
    have hbehind : PropertiesEnd env (m + 2) (others ++ rest) := by
      cases hts with
      | none => exact .omitted hend
      | some hk => exact .traits hk
    refine (expectKeyword_accepts hs hsplit hk).next (Step.refl hs) (expectKeyword_reads "type") ?_
    intro _ s₁ _ _ hkeyword h₁ hrest₁ _
    obtain ⟨_, rfl, rfl⟩ := hkeyword
    refine (namedType_accepts h₁.fits hrest₁ ht).next h₁ namedType_reads ?_
    intro _ s₂ _ _ hname h₂ hrest₂ _
    obtain ⟨name, rfl, rfl, _⟩ := hname
    refine (properties_accepts hsound hpair hfail hps (by omega) hbehind h₂.fits hrest₂).next h₂
      (properties_reads hsound) ?_
    intro _ s₃ _ found hfound h₃ hrest₃ _
    obtain ⟨rfl, hprops⟩ := hfound
    have hpairs : ∀ p ∈ found, ∃ seg, Pair env seg p := by
      intro p hp
      cases hprops with
      | none => exact absurd hp List.not_mem_nil
      | some pairs => exact pairs.of_mem hp
    have hheld : ∀ p ∈ found, s₃.work.arena.Holds p := fun p hp =>
      h₃.arena.holds (List.mem_cons_of_mem _ hp)
    refine .atArena (propertyOrder_eq hheld hpairs) ?_
    have hmade : Accepts S (do
        if (found.map Tree.root).isEmpty then return none
        else return some (← constructor name.root (found.map Tree.root))) env s₃ (others ++ rest)
        AnyResult := by
      refine .cond (fun _ => .pure h₃.fits hrest₃ trivial) fun _ => ?_
      refine (constructor_accepts h₃ hrest₃).bind fun _ s₄ hs₄ hrest₄ _ => ?_
      exact .pure hs₄ hrest₄ trivial
    refine hmade.bind fun _ s₄ hs₄ hrest₄ _ => ?_
    refine (traits_accepts hts hend hs₄ hrest₄).bind fun _ s₅ hs₅ hrest₅ _ => ?_
    exact (alloc_accepts hs₅ hrest₅).any

/-! ## Clauses -/

theorem within_complete : Complete S env within (Within env) n anyEnd := by
  intro seg t ht _ s rest hs hrest _
  rw [within]
  cases ht with
  | mk hk name =>
    cases name with
    | mk ht =>
      refine (expectKeyword_accepts hs hrest hk).bind fun _ s₁ hs₁ hrest₁ _ => ?_
      refine (namedType_accepts hs₁ hrest₁ ht).bind fun _ s₂ hs₂ hrest₂ _ => ?_
      exact (alloc_accepts hs₂ hrest₂).any

/-- One round of the clauses that name other APIs: the keyword and a name, or the end. -/
def withRound (apis : List NodeId) : Parser (Round (List NodeId) (List NodeId)) := do
  if ← checkKeyword "with" then
    let _ ← consume
    return .more (apis ++ [← namedType])
  else return .done apis

theorem withApis_eq : withApis = (do
    let keyword ← expectKeyword "with"
    let first ← namedType
    let apis ← loop withRound [first]
    alloc keyword (.withApis apis)) := rfl

theorem checkKeyword_of_stops {word : String} (h : Stops [.keyword] rest)
    (hrest : s.cursor.rest = rest) : s.cursor.checkKeyword word = false := by
  subst hrest
  rw [Cursor.checkKeyword, Cursor.checkValue]
  cases hhead : s.cursor.rest.head? with
  | none => rfl
  | some t =>
    have ht : t.is .keyword = false := h t hhead _ (List.mem_singleton_self _)
    rw [Option.any_some, Token.isValue, ht, Bool.false_and]

theorem withRound_named {apis : List NodeId} {t : Tree} (h : Behind "with" (TypeName env) seg t)
    (hs : S.Fits s) (hrest : s.cursor.rest = seg ++ rest) :
    Accepts S (withRound apis) env s rest (Continues AnyResult) := by
  cases h with
  | mk hk name =>
    cases name with
    | mk ht =>
      have hcheck := Cursor.checkKeyword_iff.mpr ⟨_, _, hrest, hk⟩
      refine .checkKeyword hcheck ?_
      refine (consume_accepts hs hrest).bind fun _ s₁ hs₁ hrest₁ _ => ?_
      refine (namedType_accepts hs₁ hrest₁ ht).bind fun _ s₂ hs₂ hrest₂ _ => ?_
      exact .pure hs₂ hrest₂ trivial

theorem withApis_complete : Complete S env withApis (WithApis env) n (Stops [.keyword]) := by
  intro seg t ht _ s rest hs hrest hend
  rw [withApis_eq]
  cases ht with
  | @mk k seg others t ts id hk first hothers =>
    cases first with
    | @mk name nid hname =>
      have hsplit : s.cursor.rest = k :: name :: (others ++ rest) := by simp [hrest]
      refine (expectKeyword_accepts hs hsplit hk).bind fun _ s₁ hs₁ hrest₁ _ => ?_
      refine (namedType_accepts hs₁ hrest₁ hname).bind fun first s₂ hs₂ hrest₂ _ => ?_
      have hloop : Accepts S (loop withRound [first]) env s₂ rest AnyResult := by
        refine loop_accepts (loopN_repeated (k := 1) (J := fun _ => True) (F := anyEnd) hothers
          (Nat.le_refl _) ?_ (fun _ _ _ _ _ _ => trivial) trivial ?_ ?_ hs₂ hrest₂ ?_ trivial)
        · intro seg t ht
          cases ht
          exact List.cons_ne_nil _ _
        · intro apis s seg t rest ht _ hs hrest _ _
          exact withRound_named ht hs hrest
        · intro apis s fuel hs hrest hfuel _
          obtain ⟨fuel, rfl⟩ : ∃ m, fuel = m + 1 := ⟨fuel - 1, by omega⟩
          exact loopN_done (.checkKeyword (checkKeyword_of_stops hend hrest)
            (.pure hs hrest trivial))
        · rw [hrest₂, List.length_append]
          omega
      exact hloop.bind fun apis s₃ hs₃ hrest₃ _ => (alloc_accepts hs₃ hrest₃).any

/-- A clause that may be missing is attempted. -/
theorem optional_accepts {x : Parser NodeId} {G : Phrase} {o : Option Tree}
    {F : List Token → Prop} (hsound : Reads S env x (One G)) (hread : Complete S env x G n F)
    (hmissing : ∀ s, s.cursor.rest = rest → Fails x env s) (h : Optional G seg o)
    (hn : seg.length ≤ n) (hend : F rest) (hs : S.Fits s) (hrest : s.cursor.rest = seg ++ rest) :
    Accepts S (attempt x) env s rest AnyResult := by
  cases h with
  | none => exact (attempt_fails hsound hs hrest (hmissing s hrest)).any
  | some phrase => exact (attempt_accepts (hread seg _ phrase hn s rest hs hrest hend)).any

/-! ## Declarations -/

theorem find_typeDef {t : Token} (ht : t.isValue .keyword "type") :
    declarations.find? (applies (t :: rest)) = some .typeDef := by
  simp [declarations, applies, trigger, startsWithKeyword, ht]

theorem find_method {t u : Token} (ht : t.is .lparen)
    (hu : [TokenKind.typeIdentifier, .identifier, .lbracket].any u.is) :
    declarations.find? (applies (t :: u :: rest)) = some .method := by
  have hword : t.isValue .keyword "type" = false := isValue_of_is ht rfl
  simp only [declarations, applies, trigger, startsWithKeyword, startsWithPair, List.find?_cons,
    hword, ht, hu, if_true]

/-- Where a signature stands no other declaration applies. -/
theorem filter_method {t u : Token} (ht : t.is .lparen)
    (hu : [TokenKind.typeIdentifier, .identifier, .lbracket].any u.is) :
    declarations.filter (applies (t :: u :: rest)) = [.method] := by
  have hword : t.isValue .keyword "type" = false := isValue_of_is ht rfl
  have hsign : t.is .annotationSign = false := Token.is_of_is ht _
  simp only [declarations, List.filter_cons, applies, trigger, startsWithKeyword, startsWithPair,
    startsWith, hword, hsign, ht, hu, if_true, Bool.false_eq_true, if_false, List.filter_nil]

/-- A receiver starts with a type or a name. -/
theorem first_of_receiver {t : Tree} {named : Option Tree}
    (h : Language.Receiver env seg t named) :
    ∃ u tail, seg = u :: tail ∧ [TokenKind.typeIdentifier, .identifier, .lbracket].any u.is := by
  cases h with
  | static ty =>
    obtain ⟨u, tail, rfl, kind, hkind, hu⟩ := typing_starts _ _ ty
    have hkinds : [TokenKind.typeIdentifier, .lbracket] ⊆ [.typeIdentifier, .identifier, .lbracket] :=
      by simp
    exact ⟨u, tail, rfl, List.any_eq_true.mpr ⟨kind, hkinds hkind, hu⟩⟩
  | named ht => exact ⟨_, _, rfl, by simp [ht]⟩

theorem second_of_signature {t : Tree} (h : Signature env seg t) :
    ∃ l u tail, seg = l :: u :: tail ∧ l.is .lparen ∧
      [TokenKind.typeIdentifier, .identifier, .lbracket].any u.is := by
  cases h with
  | mk hl receiver =>
    obtain ⟨u, tail, rfl, hu⟩ := first_of_receiver receiver
    exact ⟨_, u, _, rfl, hl, hu⟩

theorem DeclarationEnd.mono (h : DeclarationEnd env n rest) (hm : n ≤ m) :
    DeclarationEnd env m rest := by
  cases h with
  | ended => exact .ended
  | close hr => exact .close hr
  | typeDef hk => exact .typeDef hk
  | method signature hn => exact .method signature (Nat.le_trans hn hm)

/-- What comes behind a declaration may be another one. -/
theorem declarationEnd_of_declaration {t : Tree} (h : Declaration env E Nothing seg t)
    (hn : seg.length ≤ n) : DeclarationEnd env n (seg ++ rest) := by
  cases h with
  | typeDef typeDef =>
    cases typeDef with
    | mk hk => exact .typeDef hk
  | method method =>
    cases method with
    | mk signature block =>
      rw [List.length_append] at hn
      rw [List.append_assoc]
      exact .method signature (by omega)
  | annotated phrase => exact phrase.elim

/-- A declaration does not start with a closing brace. -/
theorem declaration_start {t : Tree} (h : Declaration env E Nothing seg t) :
    ∃ a tail, seg = a :: tail ∧ a.is .rbrace = false := by
  cases h with
  | typeDef typeDef =>
    cases typeDef with
    | mk hk => exact ⟨_, _, rfl, Token.is_of_is (is_of_isValue hk) _⟩
  | method method =>
    cases method with
    | mk signature block =>
      obtain ⟨l, u, tail, rfl, hl, _⟩ := second_of_signature signature
      exact ⟨l, _, rfl, Token.is_of_is hl _⟩
  | annotated phrase => exact phrase.elim

theorem declaration_complete (hsound : Reads S env (read .pair) (One (Pair env)))
    (hpair : Complete S env (read .pair) (Pair env) m anyEnd)
    (hfail : 0 < m → ∀ s, s.cursor.check .identifier = false → Fails (read .pair) env s)
    (hsignature : Complete S env (read .signature) (Signature env) m (Stops [.lparen]))
    (hblock : Complete S env (read .block) (Block (Statement env E Nothing) E) m anyEnd) :
    Complete S env (declaration (step read)) (Declaration env E Nothing) (m + 1)
      (DeclarationEnd env (m + 1)) := by
  intro seg t ht hm s rest hs hrest hend
  have hchosen : ∀ p, declarations.find? (applies s.cursor.rest) = some p →
      Accepts S (step read p) env s rest AnyResult →
        Accepts S (declaration (step read)) env s rest AnyResult :=
    fun p hfind h => choice_accepts hfind h
  cases ht with
  | typeDef typeDef =>
    have hpos : 0 < m := by
      cases typeDef
      rw [List.length_cons, List.length_cons] at hm
      omega
    refine hchosen .typeDef ?_ (typeDef_complete hsound hpair (hfail hpos) _ _ typeDef (by omega) s
      rest hs hrest (hend.mono (by omega)))
    cases typeDef with
    | mk hk =>
      rw [hrest]
      exact find_typeDef hk
  | method method =>
    refine hchosen .method ?_
      (method_complete hsignature hblock _ _ method hm s rest hs hrest trivial)
    cases method with
    | mk signature block =>
      obtain ⟨l, u, tail, rfl, hl, hu⟩ := second_of_signature signature
      rw [hrest]
      exact find_method hl hu
  | annotated phrase => exact phrase.elim

/-! ## APIs -/

section Apis

variable {opened : Span} {body : List NodeId}

theorem apiRound_declaration {t : Tree}
    (hdeclaration : Complete S env (declaration read) (Declaration env E Nothing) n
      (DeclarationEnd env n))
    (ht : Declaration env E Nothing seg t) (hn : seg.length ≤ n) (hend : DeclarationEnd env n rest)
    (hs : S.Fits s) (hrest : s.cursor.rest = seg ++ rest) :
    Accepts S (apiRound read opened body) env s rest (Continues AnyResult) := by
  have hread := hdeclaration seg t ht hn s rest hs hrest hend
  obtain ⟨a, tail, rfl, ha⟩ := declaration_start ht
  refine .remaining ?_
  rw [hrest, List.cons_append, List.head?_cons]
  dsimp only
  rw [if_neg (by simp [ha])]
  exact hread.bind fun id s' hs' hrest' _ => .pure hs' hrest' trivial

theorem apiRound_close {r : Token} (hr : r.is .rbrace) (hs : S.Fits s)
    (hrest : s.cursor.rest = r :: rest) :
    Accepts S (apiRound read opened body) env s rest (Ends AnyResult) := by
  refine .remaining ?_
  rw [hrest, List.head?_cons]
  dsimp only
  rw [if_pos hr]
  exact (consume_accepts hs hrest).bind fun _ s' hs' hrest' _ => .pure hs' hrest' trivial

/-- The rounds of the body of an API over its declarations: what holds of the loop behind them holds
ahead of them. -/
theorem apiRounds_induct {ts : List Tree} {tail : List Token}
    {W : Nat → List NodeId → ParserState → Prop}
    (hdeclaration : Complete S env (declaration read) (Declaration env E Nothing) n
      (DeclarationEnd env n))
    (h : Repeated (Declaration env E Nothing) seg ts) (hn : seg.length ≤ n)
    (htail : DeclarationEnd env n tail)
    (hround : ∀ fuel body s mid,
      Accepts S (apiRound read opened body) env s mid (Continues fun _ _ => True) →
      (∀ body' s', S.Fits s' → s'.cursor.rest = mid → True → W fuel body' s') →
        W (fuel + 1) body s)
    (hend : ∀ body s fuel, S.Fits s → s.cursor.rest = tail → 1 ≤ fuel → True → W fuel body s)
    (hs : S.Fits s) (hrest : s.cursor.rest = seg ++ tail) :
    W (s.cursor.rest.length + 1) [] s := by
  have hfuel : seg.length + 1 ≤ s.cursor.rest.length + 1 := by
    rw [hrest, List.length_append]
    omega
  refine loopN_induct (J := fun _ => True) h hn ?_ ?_ htail ?_ hround hend hs hrest hfuel trivial
  · intro seg t ht
    obtain ⟨a, tail, rfl, _⟩ := declaration_start ht
    exact List.cons_ne_nil _ _
  · intro seg t rest ht hseg _
    exact declarationEnd_of_declaration ht hseg
  · intro body s seg t rest ht hseg hs hrest hend _
    exact apiRound_declaration hdeclaration ht hseg hend hs hrest

theorem apiRounds_accepts {r : Token} {ts : List Tree}
    (hdeclaration : Complete S env (declaration read) (Declaration env E Nothing) n
      (DeclarationEnd env n))
    (h : Repeated (Declaration env E Nothing) seg ts) (hn : seg.length ≤ n) (hr : r.is .rbrace)
    (hs : S.Fits s) (hrest : s.cursor.rest = seg ++ r :: rest) :
    Accepts S (loop (apiRound read opened) []) env s rest AnyResult := by
  refine loop_accepts (apiRounds_induct
    (W := fun fuel body s => Accepts S (loopN (apiRound read opened) fuel body) env s rest AnyResult)
    hdeclaration h hn (.close hr) (fun _ _ _ _ => loopN_more) ?_ hs hrest)
  intro body s fuel hs hrest hfuel _
  obtain ⟨fuel, rfl⟩ : ∃ m, fuel = m + 1 := ⟨fuel - 1, by omega⟩
  exact loopN_done (apiRound_close hr hs hrest)

section Header

variable (hwithinSound : Reads S env (read .within) (One (Within env)))
  (hwithSound : Reads S env (read .withApis) (One (WithApis env)))
  (hwithin : Complete S env (read .within) (Within env) n anyEnd)
  (hwith : Complete S env (read .withApis) (WithApis env) n (Stops [.keyword]))
  (hwithinFails : 0 < n → ∀ s, s.cursor.checkKeyword "within" = false → Fails (read .within) env s)
  (hwithFails : 0 < n → ∀ s, s.cursor.checkKeyword "with" = false → Fails (read .withApis) env s)
include hwithinSound hwithSound hwithin hwith hwithinFails hwithFails

/-- What stands ahead of the body of an API is read, and the body is what remains. -/
theorem api_leads {k t l : Token} {inner outer : List Token} {inside others : Option Tree}
    (hk : k.isValue .keyword "api") (ht : t.is .typeIdentifier)
    (within : Optional (Within env) inner inside) (withApis : Optional (WithApis env) outer others)
    (hl : l.is .lbrace) (hn : 0 < n) (hinner : inner.length ≤ n) (houter : outer.length ≤ n)
    (hs : S.Fits s) (hrest : s.cursor.rest = k :: t :: (inner ++ (outer ++ l :: rest))) :
    Leads S (api read) env s rest fun y => ∃ name inside others, y = (do
      let body ← inPhase .declaration (loop (apiRound read l.span) [])
      alloc k (.api name inside others body)) := by
  rw [api]
  have hopen : Stops [.keyword] (l :: rest) := stops_of_is hl (by decide)
  have hwithinMissing : ∀ s, s.cursor.rest = outer ++ l :: rest → Fails (read .within) env s := by
    intro s hs
    refine hwithinFails hn s ?_
    cases withApis with
    | none => exact checkKeyword_of_stops hopen hs
    | some phrase =>
      cases phrase with
      | mk hk =>
        rw [Cursor.checkKeyword, Cursor.checkValue, hs]
        exact isValue_of_other hk (by decide)
  have hwithMissing : ∀ s, s.cursor.rest = l :: rest → Fails (read .withApis) env s :=
    fun s hs => hwithFails hn s (checkKeyword_of_stops hopen hs)
  refine (expectKeyword_accepts hs hrest hk).leads fun _ s₁ hs₁ hrest₁ hkeyword => ?_
  refine (namedType_accepts hs₁ hrest₁ ht).leads fun name s₂ hs₂ hrest₂ _ => ?_
  refine (optional_accepts hwithinSound hwithin hwithinMissing within hinner trivial hs₂
    hrest₂).leads fun inside s₃ hs₃ hrest₃ _ => ?_
  refine (optional_accepts hwithSound hwith hwithMissing withApis houter hopen hs₃
    hrest₃).leads fun others s₄ hs₄ hrest₄ _ => ?_
  refine (expect_accepts hs₄ hrest₄ hl).leads fun _ s₅ hs₅ hrest₅ hopening => ?_
  subst hkeyword hopening
  exact .here hs₅ hrest₅ ⟨name, inside, others, rfl⟩

theorem api_complete
    (hdeclaration : Complete S env (declaration read) (Declaration env E Nothing) n
      (DeclarationEnd env n)) :
    Complete S env (api read) (Api env E Nothing) (n + 1) anyEnd := by
  intro seg t ht hn s rest hs hrest _
  cases ht with
  | @mk k t l r inner outer seg inside others body id tid hk ht within withApis hl declared hr =>
    simp only [List.length_cons, List.length_append] at hn
    have hsplit : s.cursor.rest = k :: t :: (inner ++ (outer ++ (l :: (seg ++ r :: rest)))) := by
      simp [hrest]
    refine (api_leads hwithinSound hwithSound hwithin hwith hwithinFails hwithFails hk ht within
      withApis hl (by omega) (by omega) (by omega) hs hsplit).accepts fun y s₁ hs₁ hrest₁ hy => ?_
    obtain ⟨name, inside, others, rfl⟩ := hy
    have hbody : Accepts S (inPhase .declaration (loop (apiRound read l.span) [])) env s₁ rest
        fun _ _ => True := by
      refine inPhase_accepts (Q := fun _ => True) ?_
      exact apiRounds_accepts hdeclaration declared (by omega) hr ⟨hs₁.tables, hs₁.tokens⟩ hrest₁
    exact hbody.bind fun _ s₂ hs₂ hrest₂ _ => (alloc_accepts hs₂ hrest₂).any

end Header

end Apis

end ApiSyntax.Grammar
