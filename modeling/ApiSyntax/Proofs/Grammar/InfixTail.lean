/-
  ApiSyntax/Proofs/Grammar/InfixTail.lean --- an operator behind a left operand that is there.

  A left operand need not be what was just read: it may be any tree that the arena holds,
  an open binary too.  Behind it an operator and an expression are read, a node is made
  over the two, and the node is settled.

  Main statements: settling re-links the open binaries and does nothing else
  (`infixTail_relinks`); and the outcome is settled exactly when the operator that is
  lifted from the right does not bind looser than the one on the left below which the new
  one has sunk (`infixTail_settled_iff`).
-/
import ApiSyntax.Proofs.Grammar.SettledExpression
import ApiSyntax.Proofs.Operators.Relinking
import ApiSyntax.Proofs.Parser.Accepts

set_option autoImplicit false

namespace ApiSyntax

open ApiSyntax.Arena ApiSyntax.Grammar ApiSyntax.Language

variable {env : ParserEnv} {depth : Nat} {s s₁ s₂ s' : ParserState} {op : Token}
  {l right id : NodeId} {left : Tree}

/-! ## What is read -/

/-- A run of two steps that succeeds is two runs that succeed. -/
theorem Parser.exists_of_bind {α β : Type} {x : Parser α} {f : α → Parser β} {b : β}
    (h : (x >>= f) env s = (.ok b, s')) :
    ∃ a s₁, x env s = (.ok a, s₁) ∧ f a env s₁ = (.ok b, s') := by
  rw [bind_run, Action.bind_run] at h
  rcases hx : x env s with ⟨_ | a, s₁⟩
  · rw [hx] at h
    cases h
  · rw [hx] at h
    exact ⟨a, s₁, rfl, h⟩

theorem Parser.bind_of_ok {α β : Type} {x : Parser α} {f : α → Parser β} {a : α}
    (h : x env s = (.ok a, s₁)) : (x >>= f) env s = f a env s₁ := by
  rw [bind_run, Action.bind_run, h]

/-- An infix operator is read, and then an expression. -/
def TailRead (env : ParserEnv) (depth : Nat) (s : ParserState) (op : Token) (right : NodeId)
    (s₂ : ParserState) : Prop :=
  ∃ s₁, operator .infixOp env s = (.ok op, s₁) ∧ readN depth .expression env s₁ = (.ok right, s₂)

/-- The workspace with a node over the two operands. -/
def Workspace.joined (w : Workspace) (op : Token) (left right : NodeId) : Workspace :=
  { w with arena := w.arena.push op (.binary op.value left right false) }

/-- Behind what is read the new node is settled. -/
theorem infixTail_run (h : TailRead env depth s op right s₂) :
    infixTail (readN depth) l env s =
      match Workspace.settle s₂.work.arena.next (s₂.work.joined op l right) with
      | (r, w) => (r, { s₂ with work := w }) := by
  obtain ⟨s₁, hop, hright⟩ := h
  rw [infixTail, Parser.bind_of_ok hop, Parser.bind_of_ok hright]
  rfl

theorem exists_tailRead (h : infixTail (readN depth) l env s = (.ok id, s')) :
    ∃ op right s₂, TailRead env depth s op right s₂ := by
  rw [infixTail] at h
  obtain ⟨op, s₁, hop, h⟩ := Parser.exists_of_bind h
  obtain ⟨right, s₂, hright, -⟩ := Parser.exists_of_bind h
  exact ⟨op, right, s₂, s₁, hop, hright⟩

/-- What is behind the left operand: the old nodes are as they were, and the new ones hold an
expression. -/
theorem TailRead.sound (h : TailRead env depth s op right s₂) :
    ∃ seg t, Expression env s.work.operators seg t ∧ t.root = right ∧
      s₂.work.operators = s.work.operators ∧ Grows s.work.arena s₂.work.arena [t] := by
  obtain ⟨s₁, hop, hright⟩ := h
  have hfixed : ∀ t, (Setting.fixed s.work.operators).Tables t → t = s.work.operators :=
    fun _ ht => ht
  obtain ⟨_, _, step, _, rfl, rfl⟩ :=
    (operator_reads hfixed .infixOp s (fixed_fits s)).of_run hop
  obtain ⟨seg, _, step', t, rfl, rfl, ht⟩ :=
    (readN_expression_reads hfixed depth s₁ step.fits).of_run hright
  exact ⟨seg, t, ht, rfl, step'.fits.tables, (step.trans step').arena⟩

/-- Two groupings come to stand below the new node: the left one was there, the right one is new
and tight. -/
structure Joins (s s₂ : ParserState) (op : Token) (gl gr : Grouping) : Prop where
  closed : (Grouping.join ⟨s₂.work.arena.next, op, op.value⟩ gl gr).Closed
  kept : ∀ id, id.index < s.work.arena.size → s₂.work.arena.node? id = s.work.arena.node? id
  operators : s₂.work.operators = s.work.operators
  held : s₂.work.arena.Holds gr.tree
  tight : gr.tree.AllTight s.work.operators
  holds : (s₂.work.joined op gl.root gr.root).arena.Holds
    (Grouping.join ⟨s₂.work.arena.next, op, op.value⟩ gl gr).tree
  nodup : (Grouping.join ⟨s₂.work.arena.next, op, op.value⟩ gl gr).tree.handles.Nodup

theorem TailRead.joins (h : TailRead env depth s op right s₂) (hleft : s.work.arena.Holds left)
    (hnodup : left.handles.Nodup) :
    ∃ gl gr, gl.tree = left ∧ gr.root = right ∧ Joins s s₂ op gl gr := by
  obtain ⟨seg, t, ht, rfl, htable, hgrows⟩ := h.sound
  have hheld : s₂.work.arena.Holds t := hgrows.holds List.mem_cons_self
  obtain ⟨gl, rfl, hlclosed⟩ := Grouping.exists_of_holds hleft
  obtain ⟨gr, rfl, hrclosed⟩ := Grouping.exists_of_holds hheld
  have hkept : ∀ id, id.index < s.work.arena.size →
      s₂.work.arena.node? id = s.work.arena.node? id := fun id hid => hgrows.kept hid
  have hleft₂ : s₂.work.arena.Holds gl.tree :=
    hleft.congr fun id hid => hkept id (hleft.lt_size hid)
  refine ⟨gl, gr, rfl, rfl, Grouping.closed_join.mpr ⟨hlclosed, hrclosed⟩, hkept, htable, hheld,
    Expression.allTight ht, ?_, ?_⟩
  · have hpush : ∀ t : Tree, s₂.work.arena.Holds t →
        (s₂.work.joined op gl.root gr.root).arena.Holds t :=
      fun t ht => ht.congr fun id hid => node?_push_of_lt (ht.lt_size hid)
    refine holds_node.mpr ⟨⟨⟨[], node?_push_next ..⟩, rfl⟩, fun c hc => ?_⟩
    simp only [List.mem_cons, List.not_mem_nil, or_false] at hc
    rcases hc with rfl | rfl
    · exact hpush _ hleft₂
    · exact hpush _ hheld
  · -- The left operand is old, the right one is new, and the node itself is behind both.
    rw [Grouping.handles_join, List.nodup_cons, List.nodup_append']
    refine ⟨fun hin => ?_, hnodup, hgrows.nodup_handles List.mem_cons_self, ?_⟩
    · rcases List.mem_append.mp hin with hin | hin
      · exact Nat.lt_irrefl _ (hleft₂.lt_size hin)
      · exact Nat.lt_irrefl _ (hheld.lt_size hin)
    · intro id hid hid'
      exact Nat.not_lt.mpr (hgrows.size_le_of_mem List.mem_cons_self hid') (hleft.lt_size hid)

/-! ## A sum that is there already -/

/-- The tree of `a + b`. -/
def plainSum : Tree :=
  .node ⟨2⟩ ⟨.operator, "+", .start⟩ (.binary "+" ⟨0⟩ ⟨1⟩ false)
    [nameLeaf ⟨0⟩ ⟨.identifier, "a", .start⟩, nameLeaf ⟨1⟩ ⟨.identifier, "b", .start⟩]

/-- A state in front of some tokens, where the sum has been made. -/
def besideSum (tokens : List Token) : ParserState :=
  { ParserState.start tokens .builtin with
    work := { Workspace.start .builtin with
      arena := ((Arena.empty.push ⟨.identifier, "a", .start⟩ (.identifier "a")).push
        ⟨.identifier, "b", .start⟩ (.identifier "b")).push
          ⟨.operator, "+", .start⟩ (.binary "+" ⟨0⟩ ⟨1⟩ false) } }

theorem besideSum_holds (tokens : List Token) : (besideSum tokens).work.arena.Holds plainSum := by
  refine holds_node.mpr ⟨⟨⟨[], rfl⟩, rfl⟩, fun c hc => ?_⟩
  simp only [List.mem_cons, List.not_mem_nil, or_false] at hc
  rcases hc with rfl | rfl
  · exact holds_node.mpr ⟨⟨⟨[], rfl⟩, rfl⟩, fun c hc => absurd hc List.not_mem_nil⟩
  · exact holds_node.mpr ⟨⟨⟨[], rfl⟩, rfl⟩, fun c hc => absurd hc List.not_mem_nil⟩

theorem plainSum_nodup : plainSum.handles.Nodup := by
  have hhandles : plainSum.handles = [⟨2⟩, ⟨0⟩, ⟨1⟩] := by
    simp [plainSum, nameLeaf, Tree.leaf, Tree.handles_node]
  rw [hhandles]
  decide

theorem besideSum_settled (tokens : List Token) :
    (besideSum tokens).work.arena.Settled .builtin (· ≠ .greater) plainSum.root := by
  refine (besideSum_holds tokens).settled_iff.mpr fun u hu => ?_
  simp only [plainSum, Tree.subtrees_node, List.flatMap_cons, List.flatMap_nil, nameLeaf, Tree.leaf,
    List.append_nil, List.cons_append, List.nil_append, List.mem_cons, List.not_mem_nil,
    or_false] at hu
  -- Below the sum there are two names.
  rcases hu with rfl | rfl | rfl
  · rintro x l r ⟨⟩ ⟨⟩
    exact ⟨nofun, nofun⟩
  · rintro x l r ⟨⟩
  · rintro x l r ⟨⟩

/-! ## Re-linking -/

/-- What comes of settling the new node over `left` and `right`. -/
structure Relinked (s s₂ : ParserState) (op : Token) (left right id : NodeId) (s' : ParserState) :
    Prop where
  /-- Reading the right-hand side leaves the nodes alone that were there. -/
  kept : ∀ x, x.index < s.work.arena.size → s₂.work.arena.node? x = s.work.arena.node? x
  /-- Settling gives open binaries other operands and does nothing else to any node. -/
  relinks : (s₂.work.joined op left right).arena.Relinks s'.work.arena
  /-- The outcome is a tree without shared nodes. -/
  tree : ∃ t, t.root = id ∧ s'.work.arena.Holds t ∧ t.handles.Nodup
  /-- From left to right the outcome is the left operand, the new node and the right-hand side; and
  nodes that this does not list are as they were. -/
  inOrder : ∃ ls rs, s.work.arena.InOrder left ls ∧ s₂.work.arena.InOrder right rs ∧
    s'.work.arena.InOrder id (ls ++ s₂.work.arena.next :: rs) ∧
      ∀ x ∉ ls ++ s₂.work.arena.next :: rs,
        s'.work.arena.node? x = (s₂.work.joined op left right).arena.node? x

/-- Behind a left operand that is held, settling ends whatever the table says, on any bound that is
large enough. -/
theorem TailRead.relinked (h : TailRead env depth s op right s₂)
    (hleft : s.work.arena.Holds left) (hnodup : left.handles.Nodup) :
    ∃ id s', infixTail (readN depth) left.root env s = (.ok id, s') ∧
      Relinked s s₂ op left.root right id s' ∧
      ∀ fuel, 2 * (s₂.work.arena.size + 1) + 2 ≤ fuel →
        Workspace.settleN fuel s₂.work.arena.next (s₂.work.joined op left.root right) =
          (.ok id, s'.work) := by
  obtain ⟨gl, gr, rfl, rfl, hjoins⟩ := h.joins hleft hnodup
  obtain ⟨w, g, hsettle, -, hrewrites, hrelinks, hinOrder, houtside, hfuel⟩ :=
    Workspace.settle_relinks hjoins.holds hjoins.nodup hjoins.closed
  obtain ⟨hlclosed, hrclosed⟩ := Grouping.closed_join.mp hjoins.closed
  refine ⟨g.root, { s₂ with work := w }, ?_, ⟨hjoins.kept, hrelinks, ?_, ?_⟩, fun fuel hle => ?_⟩
  · have hsettled : Workspace.settle s₂.work.arena.next
        (s₂.work.joined op gl.tree.root gr.root) = (.ok g.root, w) := hsettle
    rw [infixTail_run h, hsettled]
  · exact ⟨g.tree, rfl, hrewrites.holds, hrewrites.handles.nodup_iff.mpr hjoins.nodup⟩
  · exact ⟨_, _, Grouping.inOrder hleft hlclosed, Grouping.inOrder hjoins.held hrclosed, hinOrder,
      houtside⟩
  · refine hfuel fuel ?_
    rw [Workspace.joined, size_push]
    exact hle

/-- Rotations only re-link, whatever the arena, the table and the left operand are, as long as that
is a tree without shared nodes: the outcome lists from left to right what the two sides list, with
the new node between them; every node keeps its handle, token and tags, and its contents but for the
operands of open binaries; and nodes that are not listed stay as they are.  Once a right-hand side
is read the rotations end, and no larger bound on them would make a difference. -/
theorem infixTail_relinks (hleft : s.work.arena.Holds left) (hnodup : left.handles.Nodup) :
    (∀ id s', infixTail (readN depth) left.root env s = (.ok id, s') →
      ∃ op right s₂, TailRead env depth s op right s₂ ∧
        Relinked s s₂ op left.root right id s') ∧
    ∀ op right s₂, TailRead env depth s op right s₂ →
      ∃ id s', infixTail (readN depth) left.root env s = (.ok id, s') ∧
        ∀ fuel, 2 * (s₂.work.arena.size + 1) + 2 ≤ fuel →
          Workspace.settleN fuel s₂.work.arena.next (s₂.work.joined op left.root right) =
            (.ok id, s'.work) := by
  constructor
  · intro id s' hrun
    obtain ⟨op, right, s₂, h⟩ := exists_tailRead hrun
    obtain ⟨id', s'', hrun', hrelinked, -⟩ := h.relinked hleft hnodup
    cases hrun.symm.trans hrun'
    exact ⟨op, right, s₂, h, hrelinked⟩
  · intro op right s₂ h
    obtain ⟨id, s', hrun, -, hfuel⟩ := h.relinked hleft hnodup
    exact ⟨id, s', hrun, hfuel⟩

/-- The tokens of `* c || d`. -/
def timesOr : List Token :=
  [⟨.operator, "*", .start⟩, ⟨.identifier, "c", .start⟩, ⟨.operator, "||", .start⟩,
    ⟨.identifier, "d", .start⟩]

theorem infixTail_relinks_sum :
    ∃ id s' op right s₂ rs, TailRead .standard 20 (besideSum timesOr) op right s₂ ∧
      infixTail (readN 20) plainSum.root .standard (besideSum timesOr) = (.ok id, s') ∧
      s₂.work.arena.InOrder right rs ∧
      s'.work.arena.InOrder id ([⟨0⟩, ⟨2⟩, ⟨1⟩] ++ s₂.work.arena.next :: rs) := by
  obtain ⟨id, s', hrun⟩ := Outcome.exists_ok
    (by decide +kernel : (infixTail (readN 20) plainSum.root .standard
      (besideSum timesOr)).1.toOption.isSome = true)
  obtain ⟨op, right, s₂, h, hrelinked⟩ :=
    (infixTail_relinks (besideSum_holds timesOr) plainSum_nodup).1 id s' hrun
  obtain ⟨ls, rs, hleft, hright, hall, -⟩ := hrelinked.inOrder
  have hnames : (besideSum timesOr).work.arena.InOrder plainSum.root ([⟨0⟩] ++ ⟨2⟩ :: [⟨1⟩]) :=
    .binary rfl (.operand rfl rfl) (.operand rfl rfl)
  rw [hleft.unique hnames] at hall
  exact ⟨id, s', op, right, s₂, rs, h, hrun, hright, hall⟩

/-! ## Settled trees -/

theorem Tree.SettledAt.mono {table : OperatorTable} {P Q : Precedence → Prop} {t : Tree}
    (h : t.SettledAt table P) (hPQ : ∀ p, P p → Q p) : t.SettledAt table Q := by
  intro x l r hx hchildren
  obtain ⟨hleft, hright⟩ := h x l r hx hchildren
  exact ⟨fun y hy => hPQ _ (hleft y hy), hright⟩

/-- An operator comes to stand between two settled groupings. -/
theorem Joins.settled_iff {gl gr g : Grouping} (h : Joins s s₂ op gl gr)
    (hleft : s.work.arena.Holds gl.tree)
    (hsettled : s.work.arena.Settled s.work.operators (· ≠ .greater) gl.root)
    (hg : g = Grouping.graft s.work.operators ⟨s₂.work.arena.next, op, op.value⟩ gl gr)
    (hholds : s'.work.arena.Holds g.tree) :
    s'.work.arena.Settled s.work.operators (· ≠ .greater) g.root ↔
      ∀ m k, s.work.arena.SinksBelow s.work.operators op.value gl.root m →
        s₂.work.arena.open? gr.root = some k →
          s.work.operators.precedence k.operator op.value = .lesser →
            s.work.operators.precedence k.operator m ≠ .lesser := by
  obtain ⟨hlclosed, hrclosed⟩ := Grouping.closed_join.mp h.closed
  obtain ⟨hbelow, hlops⟩ := (Grouping.forall_settledAt hlclosed).mp (hleft.settled_iff.mp hsettled)
  have htight : ∀ u ∈ gr.tree.subtrees, u.SettledAt s.work.operators (· ≠ .greater) :=
    fun u hu => (h.tight u hu).settled.mono fun p hp => by rw [hp]; decide
  obtain ⟨habove, hrops⟩ := (Grouping.forall_settledAt hrclosed).mp htight
  -- The operands are settled, so it remains to ask the operators.
  have hchain := Grouping.chain_graft s.work.operators ⟨s₂.work.arena.next, op, op.value⟩ gl gr
  have hclosed : g.Closed := by
    rw [hg, Grouping.Closed, hchain]
    exact h.closed
  have hops : ∀ t ∈ g.chain.operands, ∀ u ∈ t.subtrees,
      u.SettledAt s.work.operators (· ≠ .greater) := by
    intro t ht
    rw [hg, hchain, Chain.operands_append, List.mem_append] at ht
    exact ht.elim (hlops t) (hrops t)
  rw [Grouping.root, hholds.settled_iff, Grouping.forall_settledAt hclosed, and_iff_left hops, hg,
    Grouping.graft_settled_iff hbelow habove]
  have hopen : s₂.work.arena.open? gr.root = gr.open? := Grouping.open?_root h.held hrclosed
  have hsinks : ∀ m, s.work.arena.SinksBelow s.work.operators op.value gl.root m ↔
      gl.above? s.work.operators ⟨s₂.work.arena.next, op, op.value⟩ = some m :=
    fun m => Grouping.sinksBelow_iff (j := ⟨s₂.work.arena.next, op, op.value⟩) hleft hlclosed
  simp only [hopen, hsinks, Grouping.top?_eq_map, Option.map_eq_some_iff]
  constructor
  · intro hall m k hm hk
    exact hall m k.operator hm ⟨k, hk, rfl⟩
  · rintro hall m _ hm ⟨k, hk, rfl⟩
    exact hall m k hm hk

/-- Behind a settled left operand the outcome is settled, unless the operator on top of the
right-hand side is lifted and binds looser than the last one on the left below which the new
operator has sunk. -/
theorem infixTail_settled_iff (hleft : s.work.arena.Holds left) (hnodup : left.handles.Nodup)
    (hsettled : s.work.arena.Settled s.work.operators (· ≠ .greater) left.root)
    (hrun : infixTail (readN depth) left.root env s = (.ok id, s')) :
    ∃ op right s₂, TailRead env depth s op right s₂ ∧
      (s'.work.arena.Settled s.work.operators (· ≠ .greater) id ↔
        ∀ m k, s.work.arena.SinksBelow s.work.operators op.value left.root m →
          s₂.work.arena.open? right = some k →
            s.work.operators.precedence k.operator op.value = .lesser →
              s.work.operators.precedence k.operator m ≠ .lesser) := by
  obtain ⟨op, right, s₂, h⟩ := exists_tailRead hrun
  obtain ⟨gl, gr, rfl, rfl, hjoins⟩ := h.joins hleft hnodup
  obtain ⟨w, g, hsettle, hg, hrewrites, -⟩ :=
    Workspace.settle_relinks hjoins.holds hjoins.nodup hjoins.closed
  have hend : Workspace.settle s₂.work.arena.next (s₂.work.joined op gl.tree.root gr.root) =
      (.ok g.root, w) := hsettle
  have hrun' : infixTail (readN depth) gl.tree.root env s =
      (.ok g.root, { s₂ with work := w }) := by
    rw [infixTail_run h, hend]
  cases hrun.symm.trans hrun'
  have htable : (s₂.work.joined op gl.root gr.root).operators = s.work.operators :=
    hjoins.operators
  rw [htable] at hg
  exact ⟨op, gr.root, s₂, h, hjoins.settled_iff hleft hsettled hg hrewrites.holds⟩

/-- Below the sum there is one operator to sink below. -/
theorem eq_of_sinksBelow_sum {tokens : List Token} {table : OperatorTable} {x m : String}
    (h : (besideSum tokens).work.arena.SinksBelow table x plainSum.root m) : m = "+" := by
  cases h with
  | last found =>
    cases found
    rfl
  | deeper found _ rest =>
    cases found
    cases rest with
    | last found => cases found
    | deeper found => cases found

/-- The tokens of `* c - d`. -/
def timesMinus : List Token :=
  [⟨.operator, "*", .start⟩, ⟨.identifier, "c", .start⟩, ⟨.operator, "-", .start⟩,
    ⟨.identifier, "d", .start⟩]

/-- The difference is lifted over the product, and it binds no looser than the sum. -/
theorem infixTail_settled_timesMinus :
    ∃ id s', infixTail (readN 20) plainSum.root .standard (besideSum timesMinus) = (.ok id, s') ∧
      s'.work.arena.Settled .builtin (· ≠ .greater) id := by
  obtain ⟨id, s', hrun⟩ := Outcome.exists_ok
    (by decide +kernel : (infixTail (readN 20) plainSum.root .standard
      (besideSum timesMinus)).1.toOption.isSome = true)
  obtain ⟨op, right, s₂, ⟨s₁, hop, hright⟩, hiff⟩ := infixTail_settled_iff
    (besideSum_holds timesMinus) plainSum_nodup (besideSum_settled timesMinus) hrun
  refine ⟨id, s', hrun, hiff.mpr fun m k hm hk _ => ?_⟩
  have hread : Outcome.passes (readN 20 .expression .standard
      (operator .infixOp .standard (besideSum timesMinus)).2)
      fun right s₂ => (s₂.work.arena.open? right).all (·.operator == "-") := by decide +kernel
  rw [hop, hright] at hread
  have hminus : (s₂.work.arena.open? right).all (·.operator == "-") := hread
  rw [hk, Option.all_some, beq_iff_eq] at hminus
  rw [eq_of_sinksBelow_sum hm, hminus]
  decide +kernel

/-- The builtin operators say of a pair the inverse of what they say of the swapped pair. -/
theorem OperatorTable.builtin_inverse (x y : String) :
    builtin.precedence y x = (builtin.precedence x y).inverse := by
  by_cases hxy : x = y
  · subst hxy
    have hnone : builtin.fact? x x = none := by
      have hapart : ∀ f ∈ builtin.facts, f.owner ≠ f.other := by decide +kernel
      rw [fact?, Option.map_eq_none_iff, List.find?_eq_none]
      intro f hf hsame
      rw [Bool.and_eq_true_iff, beq_iff_eq, beq_iff_eq] at hsame
      exact hapart f hf (hsame.1.trans hsame.2.symm)
    rw [precedence, hnone]
    rfl
  · exact mutual_builtin.precedence hxy

/-- Of `a + b` and `* c || d` the outcome is `a + ((b * c) || d)`: the disjunction comes to stand
below the sum, which binds tighter. -/
theorem infixTail_unsettled :
    (∀ x y, OperatorTable.builtin.precedence y x =
        (OperatorTable.builtin.precedence x y).inverse) ∧
      (besideSum timesOr).work.arena.Holds plainSum ∧ plainSum.handles.Nodup ∧
      (besideSum timesOr).work.arena.Settled .builtin (· ≠ .greater) plainSum.root ∧
      ∃ id s', infixTail (readN 20) plainSum.root .standard (besideSum timesOr) = (.ok id, s') ∧
        ¬s'.work.arena.Settled .builtin (· ≠ .greater) id := by
  refine ⟨OperatorTable.builtin_inverse, besideSum_holds _, plainSum_nodup, besideSum_settled _, ?_⟩
  have hread : Outcome.passes (infixTail (readN 20) plainSum.root .standard (besideSum timesOr))
      fun id s' => (s'.work.arena.open? id).any fun node =>
        (s'.work.arena.open? node.right).any fun lower =>
          OperatorTable.builtin.precedence lower.operator node.operator == .lesser := by
    decide +kernel
  obtain ⟨id, s', hrun, hend⟩ := Outcome.exists_of_passes hread
  refine ⟨id, s', hrun, fun hsettled => ?_⟩
  obtain ⟨node, hnode, hbelow⟩ := (Option.any_eq_true _ _).mp hend
  obtain ⟨lower, hlower, hlesser⟩ := (Option.any_eq_true _ _).mp hbelow
  exact (hsettled id node .refl hnode).right lower hlower (beq_iff_eq.mp hlesser)

end ApiSyntax
