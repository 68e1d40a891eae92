/-
  ApiSyntax/Proofs/Arena/Copy.lean --- a copy of a tree is a tree of new nodes.

  Copying a tree that the arena holds always succeeds: a way down the tree is no
  longer than the tree has nodes, and the arena has at least as many.  The old nodes stay
  as they are, and the new ones form one tree, which reads as the old one does.
-/
import ApiSyntax.Proofs.Arena.Growth

set_option autoImplicit false

namespace ApiSyntax

/-- The second tree says what the first one says, node by node; only the handles differ. -/
inductive Tree.IsCopy : Tree → Tree → Prop
  | node {id id' : NodeId} {token : Token} {expr : Expr} {cs ds : List Tree}
      (children : List.Forall₂ Tree.IsCopy cs ds) :
      IsCopy (.node id token expr cs) (.node id' token (expr.withChildren (ds.map Tree.root)) ds)

namespace Arena

open ApiSyntax.Tree

/-- What copying a tree comes to: a copy of the tree behind all nodes. -/
def CopiesTo (run : Action Arena Stop NodeId) (a : Arena) (t : Tree) : Prop :=
  ∃ (b : Arena) (u : Tree), run a = (.ok u.root, b) ∧ t.IsCopy u ∧ Grows a b [u]

/-- Copies of several trees, one after another. -/
theorem copyAll_run {fuel : Nat} {ts : List Tree} {a : Arena}
    (hcopy : ∀ t ∈ ts, ∀ b, b.Holds t → CopiesTo (copyN fuel t.root) b t)
    (hholds : ∀ t ∈ ts, a.Holds t) :
    ∃ (b : Arena) (us : List Tree),
      (ts.map root).mapM (copyN fuel) a = (.ok (us.map root), b) ∧
        List.Forall₂ IsCopy ts us ∧ Grows a b us := by
  induction ts generalizing a with
  | nil => exact ⟨a, [], rfl, .nil, Grows.refl a⟩
  | cons t ts ih =>
    obtain ⟨b, u, hrun, hcopied, hgrows⟩ :=
      hcopy t List.mem_cons_self a (hholds t List.mem_cons_self)
    have hlater : ∀ v ∈ ts, b.Holds v := fun v hv =>
      (hholds v (List.mem_cons_of_mem _ hv)).congr fun id hid =>
        hgrows.kept ((hholds v (List.mem_cons_of_mem _ hv)).lt_size hid)
    obtain ⟨c, us, hruns, hcopies, hgrows'⟩ :=
      ih (fun v hv => hcopy v (List.mem_cons_of_mem _ hv)) hlater
    refine ⟨c, u :: us, ?_, .cons hcopied hcopies, hgrows.append hgrows'⟩
    simp only [List.map_cons, List.mapM_cons, Action.bind_run, hrun, hruns, Action.pure_run]

/-- A tree is copied when the bound is no smaller than its number of nodes. -/
theorem copyN_run {t : Tree} {fuel : Nat} {a : Arena} (hholds : a.Holds t)
    (hfuel : t.handles.length ≤ fuel) : CopiesTo (copyN fuel t.root) a t := by
  induction t generalizing fuel a with
  | node id token expr cs ih =>
    rw [handles_node, List.length_cons] at hfuel
    obtain ⟨fuel, rfl⟩ : ∃ k, fuel = k + 1 := ⟨fuel - 1, by omega⟩
    have hcopy : ∀ c ∈ cs, ∀ b, b.Holds c → CopiesTo (copyN fuel c.root) b c := by
      intro c hc b hb
      refine ih c hc hb ?_
      exact Nat.le_trans (handles_sublist_handlesOf hc).length_le (Nat.le_of_succ_le_succ hfuel)
    obtain ⟨b, us, hruns, hcopies, hgrows⟩ := copyAll_run hcopy fun c hc => hholds.child hc
    have hslots : expr.children = cs.map root := hholds.shows.slots
    have hlength : (us.map root).length = expr.children.length := by
      rw [hslots, List.length_map, List.length_map, hcopies.length_eq]
    have hnew : (expr.withChildren (us.map root)).children = us.map root :=
      Expr.children_withChildren expr _ hlength
    obtain ⟨tags, htags⟩ := hholds.shows.found
    refine ⟨b.push token (expr.withChildren (us.map root)),
      .node b.next token (expr.withChildren (us.map root)) us, ?_, .node hcopies, ?_⟩
    · simp only [root_node, token_node, expr_node] at htags
      simp only [root_node, copyN, htags, hslots, Action.bind_run, hruns, alloc]
    · have hall : Grows a b (us ++ []) := by rwa [List.append_nil]
      exact hall.push token _ hnew

/-- A subtree of a forest is copied. -/
theorem duplicate_run {base a : Arena} {ts : List Tree} {t u : Tree} (h : Grows base a ts)
    (ht : t ∈ ts) (hu : u ∈ t.subtrees) : CopiesTo (duplicate u.root) a u := by
  refine copyN_run ((h.holds ht).subtree hu) ?_
  have hle : t.handles.length ≤ a.size := h.length_handles_le ht
  have hsub : u.handles.length ≤ t.handles.length :=
    (handles_sublist_of_mem_subtrees hu).length_le
  have hbound : a.size ≤ a.copyDepth := by
    unfold copyDepth
    calc a.size ≤ (a.size + 1) * 1 := by omega
      _ ≤ (a.size + 1) * (a.slotCount + 2) := Nat.mul_le_mul_left _ (by omega)
  omega

end Arena

end ApiSyntax
