/-
  ApiSyntax/Proofs/Arena/Tags.lean --- no node has two tags of one name.

  A node is made without tags, and only tagging adds one: contents that are overwritten and
  slots that are pointed elsewhere leave the tags where they are, and copies have none
  (`TagsFrom`).  Tagging looks for the name first.  So over any sequence of changes the
  names on a node stay different from each other.

  Main statements: `afterAll_uniqueTags`, `tag_answer`.
-/
import ApiSyntax.Proofs.Arena.Rewiring
import Mathlib.Data.List.Nodup

set_option autoImplicit false

namespace ApiSyntax

/-- The names of the tags of a node, in the order in which they were added. -/
def Node.tagNames (n : Node) : List String := n.tags.map (·.name)

namespace Arena

/-! ## Changes -/

/-- A change that an arena may be asked for. -/
inductive Edit
  | alloc (token : Token) (expr : Expr)
  | tag (id : NodeId) (t : Tag)
  | replace (id : NodeId) (expr : Expr)
  | replaceChild (parent target replacement : NodeId)
  | duplicate (id : NodeId)
deriving Repr, Inhabited

/-- The arena behind a change.  One that is refused leaves it as it was; a copy that breaks off
leaves the nodes that it has made. -/
def after (a : Arena) : Edit → Arena
  | .alloc token expr => (Arena.alloc token expr a).2
  | .tag id t => ((a.tag id t).map (·.2)).toOption.getD a
  | .replace id expr => ((a.replace id expr).map (·.2)).toOption.getD a
  | .replaceChild parent target replacement =>
      (a.replaceChild parent target replacement).toOption.getD a
  | .duplicate id => (Arena.duplicate id a).2

/-- The arena behind changes, made one after another. -/
def afterAll (a : Arena) (edits : List Edit) : Arena := edits.foldl after a

variable {a b c : Arena} {id : NodeId} {n : Node} {t : Tag}

/-! ## Where tags come from -/

/-- Every node has no tags, or those that it had before. -/
def TagsFrom (a b : Arena) : Prop :=
  ∀ id n, b.node? id = some n → n.tags = [] ∨ ∃ m, a.node? id = some m ∧ n.tags = m.tags

namespace TagsFrom

theorem refl (a : Arena) : a.TagsFrom a := fun _ n hn => .inr ⟨n, hn, rfl⟩

theorem trans (hab : a.TagsFrom b) (hbc : b.TagsFrom c) : a.TagsFrom c := by
  intro id n hn
  obtain hnone | ⟨m, hm, htags⟩ := hbc id n hn
  · exact .inl hnone
  · rw [htags]
    exact hab id m hm

theorem push (a : Arena) (token : Token) (expr : Expr) : a.TagsFrom (a.push token expr) := by
  intro id n hn
  by_cases hlt : id.index < a.size
  · rw [node?_push_of_lt hlt] at hn
    exact .inr ⟨n, hn, rfl⟩
  · have hsize : id.index < (a.push token expr).size := (Array.getElem?_eq_some_iff.mp hn).1
    have hid : id = a.next := by
      rw [size_push] at hsize
      have hindex : id.index = a.size := by omega
      cases id
      exact congrArg NodeId.mk hindex
    rw [hid, node?_push_next] at hn
    cases hn
    exact .inl rfl

theorem setExpr (a : Arena) (id : NodeId) (expr : Expr) : a.TagsFrom (a.setExpr id expr) := by
  intro other n hn
  by_cases hother : id = other
  · subst hother
    rw [Arena.setExpr, node?_update_self] at hn
    obtain ⟨m, hm, rfl⟩ := Option.map_eq_some_iff.mp hn
    exact .inr ⟨m, hm, rfl⟩
  · rw [Arena.setExpr, node?_update_of_ne _ hother] at hn
    exact .inr ⟨n, hn, rfl⟩

end TagsFrom

/-- Copies have no tags, and copying touches no others. -/
theorem copyN_tagsFrom (fuel : Nat) (id : NodeId) (a : Arena) :
    a.TagsFrom (copyN fuel id a).2 := by
  induction fuel generalizing id a with
  | zero => exact .refl a
  | succ fuel ih =>
    cases hnode : a.node? id with
    | none =>
      rw [copyN_none hnode]
      exact .refl a
    | some n =>
      have hchildren := Action.mapM_rel TagsFrom.refl TagsFrom.trans
        (fun child (_ : child ∈ n.expr.children) b => ih child b) a
      rw [copyN_some hnode]
      cases hruns : n.expr.children.mapM (copyN fuel) a with
      | mk results b =>
        rw [hruns] at hchildren
        cases results with
        | error d => exact hchildren
        | ok copies => exact hchildren.trans (.push b n.token _)

/-! ## Tagging -/

theorem tag?_isSome_iff {name : String} : (n.tag? name).isSome = true ↔ name ∈ n.tagNames := by
  rw [Node.tag?, List.find?_isSome, Node.tagNames, List.mem_map]
  simp only [beq_iff_eq]

/-- A tag is added exactly when the node has none of that name, and the answer says so.  No other node
is touched, and nothing else in the node; a foreign handle is refused. -/
theorem tag_answer (a : Arena) (id : NodeId) (t : Tag) :
    (a.node? id = none → a.tag id t = .error (.of (.unknownNode id))) ∧
      ∀ n, a.node? id = some n → ∃ added b, a.tag id t = .ok (added, b) ∧
        (added = true ↔ t.name ∉ n.tagNames) ∧
        b.node? id = some { n with tags := if added then n.tags ++ [t] else n.tags } ∧
        ∀ other, other ≠ id → b.node? other = a.node? other := by
  refine ⟨fun hnone => by rw [tag, node, hnone]; rfl, fun n hn => ?_⟩
  have hnode : a.node id = .ok n := by rw [node, hn]
  rw [tag, hnode]
  by_cases hhas : (n.tag? t.name).isSome = true
  · refine ⟨false, a, by simp only [Except.map, if_pos hhas], ?_, hn, fun _ _ => rfl⟩
    exact ⟨fun h => (Bool.false_ne_true h).elim, fun h => absurd (tag?_isSome_iff.mp hhas) h⟩
  · refine ⟨true, a.update id fun n => { n with tags := n.tags ++ [t] },
      by simp only [Except.map, if_neg hhas], ?_, ?_, ?_⟩
    · exact ⟨fun _ h => hhas (tag?_isSome_iff.mpr h), fun _ => rfl⟩
    · rw [node?_update_self, hn]
      rfl
    · exact fun other hother => node?_update_of_ne _ (Ne.symm hother)

/-! ## Names stay different -/

/-- No node has two tags of one name. -/
def UniqueTags (a : Arena) : Prop := ∀ id n, a.node? id = some n → n.tagNames.Nodup

namespace UniqueTags

theorem empty : Arena.empty.UniqueTags := by
  intro id n hn
  cases hn

theorem of_tagsFrom (h : a.UniqueTags) (hab : a.TagsFrom b) : b.UniqueTags := by
  intro id n hn
  obtain hnone | ⟨m, hm, htags⟩ := hab id n hn
  · rw [Node.tagNames, hnone]
    exact List.nodup_nil
  · rw [Node.tagNames, htags]
    exact h id m hm

theorem tag {added : Bool} (h : a.UniqueTags) (htag : a.tag id t = .ok (added, b)) :
    b.UniqueTags := by
  obtain ⟨hforeign, hanswer⟩ := tag_answer a id t
  cases hid : a.node? id with
  | none =>
    rw [hforeign hid] at htag
    cases htag
  | some n =>
    obtain ⟨added', b', hok, hnew, hnode, hothers⟩ := hanswer n hid
    rw [hok] at htag
    cases htag
    intro other m hm
    by_cases hother : other = id
    · subst hother
      rw [hnode] at hm
      cases hm
      cases added with
      | false => exact h other n hid
      | true =>
        have hnames : (n.tags ++ [t]).map (·.name) = n.tagNames ++ [t.name] := List.map_append
        rw [Node.tagNames, if_pos rfl, hnames]
        exact List.nodup_append_comm.mp (List.nodup_cons.mpr ⟨hnew.mp rfl, h other n hid⟩)
    · rw [hothers other hother] at hm
      exact h other m hm

/-- Whatever is done to an arena, the names on its nodes stay different. -/
theorem after (h : a.UniqueTags) (e : Edit) : (a.after e).UniqueTags := by
  cases e with
  | alloc token expr => exact h.of_tagsFrom (.push a token expr)
  | tag id t =>
    rw [Arena.after]
    cases hrun : a.tag id t with
    | error d => exact h
    | ok answer =>
      have hstep : a.tag id t = .ok (answer.1, answer.2) := hrun
      exact h.tag hstep
  | replace id expr =>
    rw [Arena.after, replace]
    cases a.node id with
    | error d => exact h
    | ok n => exact h.of_tagsFrom (.setExpr a id expr)
  | replaceChild parent target replacement =>
    rw [Arena.after]
    cases hrun : a.replaceChild parent target replacement with
    | error d => exact h
    | ok b =>
      obtain ⟨-, -, n, -, -, rfl⟩ := replaceChild_eq_ok.mp hrun
      exact h.of_tagsFrom (.setExpr a parent _)
  | duplicate id => exact h.of_tagsFrom (copyN_tagsFrom _ id a)

theorem afterAll (h : a.UniqueTags) (edits : List Edit) : (a.afterAll edits).UniqueTags := by
  induction edits generalizing a with
  | nil => exact h
  | cons e edits ih => exact ih (h.after e)

end UniqueTags

end Arena

/-! ## The first of each name -/

/-- A tag for each name, at the place where the name is first met, with the handle that stands
there. -/
def firstTags (names : List String) (ids : List NodeId) : List Tag :=
  names.eraseDups.map fun name => ⟨name, ids[names.idxOf name]?⟩

variable {names : List String} {ids : List NodeId}

theorem firstTags_names (names : List String) (ids : List NodeId) :
    (firstTags names ids).map (·.name) = names.eraseDups := by
  rw [firstTags, List.map_map]
  exact List.map_id _

/-- What is met first does not depend on what comes later. -/
theorem firstTags_append_map (h : names.length = ids.length) (later : List String)
    (later' : List NodeId) : names.eraseDups.map (fun name =>
      (⟨name, (ids ++ later')[(names ++ later).idxOf name]?⟩ : Tag)) = firstTags names ids := by
  refine List.map_congr_left fun name hname => ?_
  have hmem : name ∈ names := List.mem_eraseDups.mp hname
  have hlt : names.idxOf name < ids.length := h ▸ List.idxOf_lt_length_iff.mpr hmem
  rw [List.idxOf_append_of_mem hmem, List.getElem?_append_left hlt]

/-- A name that was met before adds nothing, a new one adds a tag behind the others. -/
theorem firstTags_concat (h : names.length = ids.length) (name : String) (id : NodeId) :
    firstTags (names ++ [name]) (ids ++ [id]) =
      if name ∈ names then firstTags names ids else firstTags names ids ++ [⟨name, some id⟩] := by
  have hboth := firstTags_append_map h [name] [id]
  rw [firstTags, List.eraseDups_append]
  by_cases hmem : name ∈ names
  · have hnone : [name].removeAll names = [] := by simp [List.removeAll, hmem]
    rw [if_pos hmem, hnone, List.eraseDups_nil, List.append_nil, hboth]
  · have hone : [name].removeAll names = [name] := by simp [List.removeAll, hmem]
    have hplace : (names ++ [name]).idxOf name = ids.length := by
      rw [List.idxOf_append_of_notMem hmem, List.idxOf_cons_self, Nat.add_zero, h]
    have hsingle : [name].eraseDups = [name] := rfl
    rw [if_neg hmem, hone, hsingle, List.map_append, hboth, List.map_singleton, hplace,
      List.getElem?_concat_length]

end ApiSyntax
