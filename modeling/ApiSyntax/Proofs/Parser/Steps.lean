/-
  ApiSyntax/Proofs/Parser/Steps.lean --- the rules for single steps of a parser.

  Questions do not touch the state; a token that is read is passed; a node that is made
  takes trees as its children; a copy, an overwritten node and a settled node change the
  trees as the arena says.  Each rule says how the outcome seen from further back goes on.
-/
import ApiSyntax.Proofs.Parser.Outcome

set_option autoImplicit false

namespace ApiSyntax

open Arena

variable {S : Setting} {α β : Type} {env : ParserEnv} {b s : ParserState} {seg : List Token}
  {ts : List Tree} {Q : α → List Token → List Tree → Prop}
  {R : β → List Token → List Tree → Prop}

/-! ## Questions -/

namespace Parser

theorem check_bind (kind : TokenKind) (f : Bool → Parser β) :
    (check kind >>= f) env s = f (s.cursor.check kind) env s := rfl

theorem checkKeyword_bind (word : String) (f : Bool → Parser β) :
    (checkKeyword word >>= f) env s = f (s.cursor.checkKeyword word) env s := rfl

theorem remaining_bind (f : List Token → Parser β) :
    (remaining >>= f) env s = f s.cursor.rest env s := rfl

theorem startToken_bind (f : Token → Parser β) :
    (startToken >>= f) env s = f s.cursor.startToken env s := rfl

theorem atCursor_bind (g : Cursor → α) (f : α → Parser β) :
    (atCursor g >>= f) env s = f (g s.cursor) env s := rfl

theorem env_bind (f : ParserEnv → Parser β) : (Parser.env >>= f) env s = f env env s := rfl

theorem state_bind (f : ParserState → Parser β) : (state >>= f) env s = f s env s := rfl

theorem phase_bind (f : Phase → Parser β) : (phase >>= f) env s = f s.phase env s := rfl

theorem ofExcept_bind {x : Except Diagnostic α} {a : α} (hx : x = .ok a) (f : α → Parser β) :
    (ofExcept x >>= f) env s = f a env s := by
  subst hx
  rfl

theorem atArena_bind {g : Arena → Except Diagnostic α} {a : α} (hg : g s.work.arena = .ok a)
    (f : α → Parser β) : (atArena g >>= f) env s = f a env s := by
  rw [bind_run, Action.bind_run, atArena, hg]
  rfl

theorem building_run (x : Action Workspace Stop α) :
    building x env s = ((x s.work).1, { s with work := (x s.work).2 }) := rfl

end Parser

/-- A kind of token excludes every other kind. -/
theorem Token.is_of_is {t : Token} {kind : TokenKind} (h : t.is kind) (other : TokenKind) :
    t.is other = kind.same other := by
  have hname : t.kind.name = kind.name := (TokenKind.same_iff _ _).mp h
  rw [Token.is, TokenKind.same, TokenKind.same, hname]

theorem Cursor.check_iff {c : Cursor} {kind : TokenKind} :
    c.check kind = true ↔ ∃ t rest, c.rest = t :: rest ∧ t.is kind = true := by
  unfold Cursor.check
  cases c.rest <;> simp

theorem Cursor.checkKeyword_iff {c : Cursor} {word : String} :
    c.checkKeyword word = true ↔ ∃ t rest, c.rest = t :: rest ∧ t.isValue .keyword word = true := by
  unfold Cursor.checkKeyword Cursor.checkValue
  cases c.rest <;> simp

/-! ## Tokens -/

/-- What consuming the next token comes to. -/
theorem Parser.consume_run {t : Token} {rest : List Token} (h : s.cursor.rest = t :: rest) :
    Parser.consume env s = (.ok t, { s with cursor := ⟨t :: s.cursor.consumed, rest⟩ }) := by
  simp only [Parser.consume, Cursor.consume, h]

theorem Parser.consume_run_nil (h : s.cursor.rest = []) :
    Parser.consume env s = (.error (.failed .outOfTokens), s) := by
  simp only [Parser.consume, Cursor.consume, h]

theorem Parser.peek_run {t : Token} {rest : List Token} (h : s.cursor.rest = t :: rest) :
    Parser.peek env s = (.ok t, s) := by
  simp only [Parser.peek, Cursor.peek, h]
  rfl

theorem Parser.peek_run_nil (h : s.cursor.rest = []) :
    Parser.peek env s = (.error (.failed .outOfTokens), s) := by
  simp only [Parser.peek, Cursor.peek, h]
  rfl

namespace Step

/-- The next token is passed. -/
theorem pass {t : Token} {rest : List Token} {phase : Phase} (h : Step S b s seg ts)
    (hrest : s.cursor.rest = t :: rest) :
    Step S b ⟨⟨t :: s.cursor.consumed, rest⟩, phase, s.work⟩ (seg ++ [t]) ts where
  passes := h.passes.trans ⟨by rw [hrest]; rfl, rfl⟩
  fits := ⟨h.fits.tables, fun u hu => h.fits.tokens u (by rw [hrest]; exact .tail _ hu)⟩
  arena := h.arena

/-- The next token is consumed. -/
theorem consume {f : Token → Parser β} (h : Step S b s seg ts)
    (hf : ∀ t rest s₁, s.cursor.rest = t :: rest → Step S b s₁ (seg ++ [t]) ts →
      Outcome S b R (f t env s₁)) : Outcome S b R ((Parser.consume >>= f) env s) := by
  rw [Parser.bind_run, Action.bind_run]
  cases hrest : s.cursor.rest with
  | nil =>
    rw [Parser.consume_run_nil hrest]
    exact .lost h.lose
  | cons t rest =>
    rw [Parser.consume_run hrest]
    exact hf t rest _ hrest (h.pass hrest)

/-- The next token is consumed, and it is known to be of a kind. -/
theorem consume_checked {kind : TokenKind} {f : Token → Parser β} (h : Step S b s seg ts)
    (hcheck : s.cursor.check kind = true)
    (hf : ∀ t s₁, t.is kind → Step S b s₁ (seg ++ [t]) ts → Outcome S b R (f t env s₁)) :
    Outcome S b R ((Parser.consume >>= f) env s) := by
  obtain ⟨t, rest, hrest, ht⟩ := Cursor.check_iff.mp hcheck
  refine h.consume fun u rest' s₁ hu step => ?_
  rw [hrest] at hu
  cases hu
  exact hf t s₁ ht step

/-- The next token is consumed, and it is known to be a keyword. -/
theorem consume_keyword {word : String} {f : Token → Parser β} (h : Step S b s seg ts)
    (hcheck : s.cursor.checkKeyword word = true)
    (hf : ∀ t s₁, t.isValue .keyword word → Step S b s₁ (seg ++ [t]) ts →
      Outcome S b R (f t env s₁)) : Outcome S b R ((Parser.consume >>= f) env s) := by
  obtain ⟨t, rest, hrest, ht⟩ := Cursor.checkKeyword_iff.mp hcheck
  refine h.consume fun u rest' s₁ hu step => ?_
  rw [hrest] at hu
  cases hu
  exact hf t s₁ ht step

/-- A parser that passes one token, then what follows from it. -/
theorem token {x : Parser Token} {p : Token → Prop} {f : Token → Parser β}
    (h : Step S b s seg ts) (hx : Reads S env x (Passed p))
    (hf : ∀ t s₁, p t → Step S b s₁ (seg ++ [t]) ts → Outcome S b R (f t env s₁)) :
    Outcome S b R ((x >>= f) env s) := by
  refine h.next hx ?_
  intro t s₁ _ _ hpost step
  obtain ⟨ht, rfl, rfl⟩ := hpost
  rw [List.append_nil] at step
  exact hf t s₁ ht step

end Step

namespace Parser

theorem expectOr_reads {kind : TokenKind} {p : Token → Bool} {error : Token → Diagnostic} :
    Reads S env (expectOr kind p error) (Passed fun t => t.is kind ∧ p t) := by
  intro s hs
  rw [expectOr, bind_run, Action.bind_run]
  cases hrest : s.cursor.rest with
  | nil =>
    rw [peek_run_nil hrest]
    exact .lost (Step.refl hs).lose
  | cons t rest =>
    rw [peek_run hrest]
    refine .cond (fun ht => ?_) fun _ => .fail (Step.refl hs)
    rw [consume_run hrest]
    exact .done ((Step.refl hs).pass hrest) ⟨Bool.and_eq_true_iff.mp ht, rfl, rfl⟩

theorem expect_reads (kind : TokenKind) : Reads S env (expect kind) (Passed (·.is kind)) :=
  expectOr_reads.mono fun _ _ _ h => ⟨h.1.1, h.2⟩

theorem expectKeyword_reads (word : String) :
    Reads S env (expectKeyword word) (Passed (·.isValue .keyword word)) :=
  expectOr_reads.mono fun _ _ _ h => ⟨Bool.and_eq_true_iff.mpr h.1, h.2⟩

theorem expectAny_reads (kinds : List TokenKind) :
    Reads S env (expectAny kinds true) (Passed fun t => kinds.any t.is) := by
  intro s hs
  rw [expectAny, bind_run, Action.bind_run]
  cases hrest : s.cursor.rest with
  | nil =>
    rw [peek_run_nil hrest]
    exact .lost (Step.refl hs).lose
  | cons t rest =>
    rw [peek_run hrest]
    refine .cond (fun ht => .cond (fun _ => ?_) fun hnot => absurd rfl hnot) fun _ =>
      .fail (Step.refl hs)
    rw [consume_run hrest]
    exact .done ((Step.refl hs).pass hrest) ⟨ht, rfl, rfl⟩

end Parser

/-! ## Trees -/

namespace Step

/-- The arena changes and nothing else of what a step says. -/
theorem workspace {us : List Tree} {w : Workspace} (h : Step S b s seg ts)
    (htable : w.operators = s.work.operators) (harena : Grows b.work.arena w.arena us) :
    Step S b { s with work := w } seg us :=
  ⟨h.passes, ⟨htable ▸ h.fits.tables, h.fits.tokens⟩, harena⟩

/-- A record of what happened changes nothing that a step says. -/
theorem noted {f : Unit → Parser β} {e : Event} (h : Step S b s seg ts)
    (hf : ∀ s₁, Step S b s₁ seg ts → Outcome S b R (f () env s₁)) :
    Outcome S b R ((Parser.note e >>= f) env s) := hf _ (h.workspace rfl h.arena)

/-- A node is made over the trees `cs`. -/
theorem alloc {token : Token} {expr : Expr} {cs : List Tree} {f : NodeId → Parser β}
    (h : Step S b s seg (cs ++ ts)) (hslots : expr.children = cs.map Tree.root)
    (hf : ∀ id s₁, Step S b s₁ seg (.node id token expr cs :: ts) →
      Outcome S b R (f id env s₁)) : Outcome S b R ((Parser.alloc token expr >>= f) env s) :=
  hf _ _ (h.workspace rfl (h.arena.push token expr hslots))

/-- A node without children is made. -/
theorem leaf {token : Token} {expr : Expr} {f : NodeId → Parser β} (h : Step S b s seg ts)
    (hslots : expr.children = [])
    (hf : ∀ id s₁, Step S b s₁ seg (.leaf id token expr :: ts) → Outcome S b R (f id env s₁)) :
    Outcome S b R ((Parser.alloc token expr >>= f) env s) := by
  have hall : Step S b s seg ([] ++ ts) := h
  exact hall.alloc hslots hf

/-- A node is made over all trees. -/
theorem gather {token : Token} {expr : Expr} {cs : List Tree} {f : NodeId → Parser β}
    (h : Step S b s seg cs) (hslots : expr.children = cs.map Tree.root)
    (hf : ∀ id s₁, Step S b s₁ seg [.node id token expr cs] → Outcome S b R (f id env s₁)) :
    Outcome S b R ((Parser.alloc token expr >>= f) env s) := by
  have hall : Step S b s seg (cs ++ []) := by rwa [List.append_nil]
  exact hall.alloc hslots hf

/-- A node is made over the trees `cs`, and it is the result. -/
theorem allocated {token : Token} {expr : Expr} {cs : List Tree}
    {Q : NodeId → List Token → List Tree → Prop} (h : Step S b s seg (cs ++ ts))
    (hslots : expr.children = cs.map Tree.root)
    (hQ : ∀ t : Tree, t = .node t.root token expr cs → Q t.root seg (t :: ts)) :
    Outcome S b Q (Parser.alloc token expr env s) :=
  .done (h.workspace rfl (h.arena.push token expr hslots)) (hQ (.node _ token expr cs) rfl)

/-- A node is made over all trees, and it is the result. -/
theorem made {token : Token} {expr : Expr} {G : List Token → Tree → Prop} {cs : List Tree}
    (h : Step S b s seg cs) (hslots : expr.children = cs.map Tree.root)
    (hG : ∀ id, G seg (.node id token expr cs)) :
    Outcome S b (One G) (Parser.alloc token expr env s) := by
  have hall : Step S b s seg (cs ++ []) := by rwa [List.append_nil]
  exact hall.allocated hslots fun t ht => ⟨t, rfl, rfl, ht ▸ hG t.root⟩

/-- A subtree is copied. -/
theorem duplicate {t u : Tree} {f : NodeId → Parser β} (h : Step S b s seg ts) (ht : t ∈ ts)
    (hu : u ∈ t.subtrees)
    (hf : ∀ v s₁, u.IsCopy v → Step S b s₁ seg (v :: ts) → Outcome S b R (f v.root env s₁)) :
    Outcome S b R ((Parser.duplicate u.root >>= f) env s) := by
  obtain ⟨a, v, hrun, hcopy, hgrows⟩ := duplicate_run h.arena ht hu
  rw [Parser.bind_run, Action.bind_run, Parser.duplicate, Parser.building_run, Workspace.onArena]
  simp only [hrun]
  refine hf v _ hcopy (h.workspace rfl ?_)
  have hfront : (ts ++ [v]).Perm (v :: ts) := List.perm_append_comm
  exact (h.arena.append hgrows).perm hfront

/-- The contents of a root are overwritten with contents that have the same slots. -/
theorem overwrite {t : Tree} {expr : Expr} {f : Unit → Parser β}
    (h : Step S b s seg (t :: ts)) (hslots : expr.children = t.expr.children)
    (hf : ∀ s₁, Step S b s₁ seg (.node t.root t.token expr t.children :: ts) →
      Outcome S b R (f () env s₁)) :
    Outcome S b R ((Parser.building (Workspace.onArena (.change (·.setExpr t.root expr)))
      >>= f) env s) := by
  have hmem : t ∈ t :: ts := List.mem_cons_self
  have hrewrites : Rewrites s.work.arena (s.work.arena.setExpr t.root expr) t
      (.node t.root t.token expr t.children) :=
    .setExpr (h.arena.holds hmem) (h.arena.nodup_handles hmem) hslots
  exact hf _ (h.workspace rfl (h.arena.rewrite hrewrites))

/-- The root of the first tree gets a tag. -/
theorem tagged {t : Tree} {tag : Tag} {f : Bool → Parser β} (h : Step S b s seg (t :: ts))
    (hf : ∀ new s₁, Step S b s₁ seg (t :: ts) → Outcome S b R (f new env s₁)) :
    Outcome S b R ((Parser.working (Workspace.tag t.root tag) >>= f) env s) := by
  have hholds := h.arena.holds List.mem_cons_self
  obtain ⟨tags, hnode⟩ := hholds.shows.node
  obtain ⟨new, a, htag⟩ : ∃ new a, s.work.arena.tag t.root tag = .ok (new, a) := by
    rw [Arena.tag, hnode, Except.map]
    exact ⟨_, _, rfl⟩
  have hrun : Workspace.tag t.root tag s.work = (.ok new, { s.work with arena := a }) := by
    simp only [Workspace.tag, Workspace.edit, Workspace.onArena, htag]
  rw [Parser.bind_run, Action.bind_run, Parser.working, Parser.building_run, Action.mapError, hrun]
  exact hf new _ (h.workspace rfl (h.arena.rewrite (.tag hholds htag)))

/-- A binary node over two groupings is settled: its operator is grafted between them. -/
theorem settle {j : Joint} {left right : Grouping} {Q : NodeId → List Token → List Tree → Prop}
    (h : Step S b s seg ((Grouping.join j left right).tree :: ts))
    (hclosed : (Grouping.join j left right).Closed)
    (hQ : Q (Grouping.graft s.work.operators j left right).root seg
      ((Grouping.graft s.work.operators j left right).tree :: ts)) :
    Outcome S b Q (Parser.building (Workspace.settle j.id) env s) := by
  obtain ⟨w, hrun, hrewrites, htable⟩ :=
    Workspace.settle_run h.arena List.mem_cons_self hclosed
  rw [Parser.building_run, hrun]
  exact .done (h.workspace htable (h.arena.rewrite hrewrites)) hQ

end Step

end ApiSyntax
